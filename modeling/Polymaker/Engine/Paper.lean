import Polymaker.Engine.Accepting
import Polymaker.Engine.Rounds
import Polymaker.UserStream.Parse

/-!
# Paper mode

The paper gateway makes up the ids of its orders and acknowledges every cancel, and `open_orders`
answers that nothing rests.  Beside it stands a live session without fills: the same market data and
the same clock, on an exchange that accepts every order, performs every cancel and lists exactly
what rests on it.

* `Exchange`: how the exchange hands out ids, and in which order it lists;
* `PaperTwin`, `PaperTwin.step`: the two sessions, and what they go through together;
* `PaperTwin.Mirrors`: the local orders are the same up to ids;
* `PaperTwin.Lockstep`: what keeps the sessions alike;
* `PaperTwin.Comparable`: the live engine sees as much as the paper engine, does not shed quotes,
  and agrees with it on the daily loss;
* `PaperTwin.Young`: a round meets no resting order older than the grace;
* `paper_mirrors_iff`: where the sessions are comparable, paper mode mirrors the live session, and
  no round drops a paper order, if and only if every round meets young orders only.
-/

namespace Polymaker

/-! ### The two sessions -/

/-- An exchange: the id of the `n`-th order it accepts, and the order in which it lists what
rests. -/
structure Exchange where
  orderId : ℕ → OrderId
  orderId_injective : Function.Injective orderId
  listing : List OpenOrder → List OpenOrder
  listing_perm : ∀ l, (listing l).Perm l

namespace Exchange

/-- What `open_orders` reads at time `now`: the copies it makes are new. -/
def read (x : Exchange) (resting : List OpenOrder) (now : ℚ) : List OpenOrder :=
  (x.listing resting).map fun o => { o with createdTs := now }

/-- What rests after a call, and how many orders were accepted. -/
def afterCall (x : Exchange) (now : ℚ) (k : List OpenOrder × ℕ) : GatewayCall → List OpenOrder × ℕ
  | .cancel ids => (k.1.filter fun o => decide (o.orderId ∉ ids), k.2)
  | .place quotes => (k.1 ++ accepted x.orderId k.2 quotes now, k.2 + quotes.length)
  | .cancelAsset tok => (k.1.filter fun o => decide (o.tokenId ≠ tok), k.2)
  | .openOrders => k

end Exchange

/-- A paper engine with the number of orders it placed, and a live engine with what rests on the
exchange and the number of orders accepted there. -/
structure PaperTwin where
  paper : Engine
  paperIds : ℕ
  live : Engine
  resting : List OpenOrder
  liveIds : ℕ

/-- What both sessions go through: a recompute, where the live engine has a link of its own, or a
round, where the live engine alone reads the cash. -/
inductive PaperEvent
  | recompute (cid : ConditionId) (obs : Observation) (link : Link)
  | round (r : Round)

/-- In paper mode there is no user stream and no heartbeat to lose. -/
def paperLink : Link := ⟨false, false, 0⟩

namespace PaperTwin

/-- Both sessions start from an engine without orders. -/
def start (e : Engine) : PaperTwin :=
  let e := e.mapStore fun s => s.withOrders Dict.empty
  ⟨e, 0, e, [], 0⟩

/-- One step of both sessions. -/
def step (m : Markets) (x : Exchange) (k : PaperTwin) : PaperEvent → PaperTwin
  | .recompute cid obs link =>
    let paperObs := obs.through true paperLink
    let liveObs := obs.through false link
    let paper := k.paper.recompute cid paperObs
      (k.paper.accepting paperId k.paperIds cid paperObs (some []))
    let live := k.live.recompute cid liveObs
      (k.live.accepting x.orderId k.liveIds cid liveObs (some (x.read k.resting obs.now)))
    let floor := live.calls.foldl (x.afterCall obs.now) (k.resting, k.liveIds)
    ⟨paper.engine, k.paperIds + paper.returned.length, live.engine, floor.1, floor.2⟩
  | .round r =>
    { k with
      paper := k.paper.reconcileRound m true (some []) r
      live := k.live.reconcileRound m false (some (x.read k.resting r.now)) r }

/-- The local orders of the paper engine are those of the live engine, up to the renaming `S` of ids
and the age of the local copies, which a live round makes anew. -/
def Mirrors (S : OrderId → OrderId → Prop) (k : PaperTwin) : Prop :=
  SameOrders S k.paper.store.orders k.live.store.orders

/-- A round drops no paper order. -/
def KeepsPaper (m : Markets) (x : Exchange) (k : PaperTwin) : PaperEvent → Prop
  | .recompute _ _ _ => True
  | .round r => ∀ i ∈ k.paper.store.orders, i ∈ (k.step m x (.round r)).paper.store.orders

/-- The two sessions can be compared: the live engine sees as much of the market as the paper
engine, they agree on the daily loss, and the live engine is not to shed quotes. -/
def Comparable (k : PaperTwin) : PaperEvent → Prop
  | .recompute cid obs link => link.orderPressure ≤ shedPressure ∧
      ∀ m, k.paper.markets.get? cid = some m →
        m.blind (obs.through false link) = m.blind (obs.through true paperLink) ∧
        ((k.live.seen m obs).risk.DailyLossHit k.live.store ↔
          (k.paper.seen m obs).risk.DailyLossHit k.paper.store)
  | .round _ => True

/-- A round meets no resting paper order, of a token of a market without trades in flight, that is
older than the grace. -/
def Young (m : Markets) (k : PaperTwin) : PaperEvent → Prop
  | .recompute _ _ _ => True
  | .round r => ∀ mk ∈ k.paper.markets.values, ∀ tok ∈ mk.info.tokens,
      (k.paper.readPositions m r).store.inflight tok = 0 →
      ∀ o ∈ k.paper.store.ordersFor tok, r.now - o.createdTs < defaultGraceS

/-- A live engine whose connection is as good as paper mode's can be compared once the two agree on
the daily loss. -/
theorem comparable_of_paperLink {k : PaperTwin} {cid : ConditionId} {obs : Observation}
    (hloss : ∀ m, k.paper.markets.get? cid = some m →
      ((k.live.seen m obs).risk.DailyLossHit k.live.store ↔
        (k.paper.seen m obs).risk.DailyLossHit k.paper.store)) :
    k.Comparable (.recompute cid obs paperLink) := by
  refine ⟨?_, fun m hm => ⟨rfl, hloss m hm⟩⟩
  unfold paperLink shedPressure
  norm_num

end PaperTwin

/-! ### Ids -/

theorem paperId_injective : Function.Injective paperId := by
  intro i j h
  have hnum := toString_nat_injective ((String.append_right_inj _).1 h)
  omega

/-- The ids under which the two sessions know the same order, the one placed as the `a`-th. -/
def Renames (x : Exchange) (i i' : OrderId) : Prop := ∃ a, i = paperId a ∧ i' = x.orderId a

theorem biUnique_renames (x : Exchange) : Relator.BiUnique (Renames x) := by
  constructor
  · rintro _ _ _ ⟨a, rfl, rfl⟩ ⟨b, rfl, hb⟩
    rw [x.orderId_injective hb]
  · rintro _ _ _ ⟨a, rfl, rfl⟩ ⟨b, hb, rfl⟩
    rw [paperId_injective hb]

/-! ### Orders up to ids, once more -/

section Values

variable {S : OrderId → OrderId → Prop} {l l' l'' : List OpenOrder}

/-- Where the orders are stored under their ids, what they are decides. -/
theorem sameOrders_of_values {s s' : StateStore} (hk : s.Keyed) (hk' : s'.Keyed)
    (h : List.Forall₂ (SameOrder S) s.orders.values s'.orders.values) :
    SameOrders S s.orders s'.orders := by
  unfold Dict.values at h
  rw [List.forall₂_map_left_iff, List.forall₂_map_right_iff] at h
  refine (List.forall₂_iff_zip.2 ⟨h.length_eq, fun {e e'} hmem => ?_⟩)
  have hsame := (List.forall₂_iff_zip.1 h).2 hmem
  have hid := hk e.1 e.2 (Dict.mem_entries_iff.1 (List.of_mem_zip hmem).1)
  have hid' := hk' e'.1 e'.2 (Dict.mem_entries_iff.1 (List.of_mem_zip hmem).2)
  refine ⟨?_, hsame⟩
  rw [← hid, ← hid']
  exact hsame.orderId

/-- The age of a local copy is nothing to go by. -/
theorem forall₂_of_undated (h : List.Forall₂ (SameOrder S) l l')
    (heq : l''.map OpenOrder.undated = l'.map OpenOrder.undated) :
    List.Forall₂ (SameOrder S) l l'' := by
  have hundated : ∀ k, List.Forall₂ (SameOrder S) l k ↔
      List.Forall₂ (fun o u => SameOrder S o u) l (k.map OpenOrder.undated) := by
    intro k
    rw [List.forall₂_map_right_iff]
    exact ⟨fun h => h.imp fun _ _ ho => ⟨ho.1, ho.2, ho.3, ho.4, ho.5, ho.6⟩,
      fun h => h.imp fun _ _ ho => ⟨ho.1, ho.2, ho.3, ho.4, ho.5, ho.6⟩⟩
  rw [hundated, heq, ← hundated]
  exact h

end Values

/-! ### The exchange -/

/-- What is read of the exchange is what rests there, in some order. -/
theorem perm_read (x : Exchange) (resting : List OpenOrder) (now : ℚ) :
    ((x.read resting now).map OpenOrder.undated).Perm (resting.map OpenOrder.undated) := by
  have hread : (x.read resting now).map OpenOrder.undated =
      (x.listing resting).map OpenOrder.undated := by
    unfold Exchange.read
    rw [List.map_map]
    rfl
  rw [hread]
  exact (x.listing_perm resting).map _

/-- What rests once the calls of an intent were made. -/
theorem foldl_afterCall (x : Exchange) (now : ℚ) (i : Engine.Intent) (resting : List OpenOrder)
    (n : ℕ) :
    i.calls.foldl (x.afterCall now) (resting, n) =
      ((resting.filter fun o => decide (o.orderId ∉ i.cancel)) ++ accepted x.orderId n i.place now,
        n + i.place.length) := by
  have hnone : i.cancel = [] →
      (resting.filter fun o => decide (o.orderId ∉ i.cancel)) = resting := by
    intro h
    refine List.filter_eq_self.2 fun o _ => decide_eq_true ?_
    rw [h]
    exact List.not_mem_nil
  unfold Engine.Intent.calls
  rw [List.foldl_append]
  split_ifs with hcancel hplace hplace
  · rw [hnone hcancel, hplace, accepted, List.append_nil]
    rfl
  · rw [hnone hcancel]
    rfl
  · rw [hplace, accepted, List.append_nil]
    rfl
  · rfl

/-! ### Lockstep -/

namespace PaperTwin

variable {m : Markets} {x : Exchange} {k : PaperTwin}

/-- The sessions placed equally many orders, track the same ones, differ in nothing else but the
ledger, and what rests on the exchange is what the live engine tracks. -/
structure Lockstep (x : Exchange) (k : PaperTwin) : Prop where
  ids : k.liveIds = k.paperIds
  apart : ∃ c, k.live = k.paper.apart k.live.store.orders c
  orders : List.Forall₂ (SameOrder (Renames x)) k.paper.store.orders.values
    k.live.store.orders.values
  used : ∀ o ∈ k.paper.store.orders.values, ∃ a < k.paperIds, o.orderId = paperId a
  resting : k.resting.map OpenOrder.undated = k.live.store.orders.values.map OpenOrder.undated
  paperKeyed : k.paper.store.Keyed
  liveKeyed : k.live.store.Keyed

theorem lockstep_start (x : Exchange) (e : Engine) : Lockstep x (start e) where
  ids := rfl
  apart := ⟨⟨e.risk.netCash, e.risk.dayStartEquity, e.risk.cashAdjustments⟩, rfl⟩
  orders := .nil
  used := fun _ h => by cases h
  resting := rfl
  paperKeyed := fun _ _ h => by cases h
  liveKeyed := fun _ _ h => by cases h

theorem Lockstep.sameOrders (h : Lockstep x k) :
    SameOrders (Renames x) k.paper.store.orders k.live.store.orders :=
  sameOrders_of_values h.paperKeyed h.liveKeyed h.orders

/-- Neither session has used the ids to come. -/
theorem Lockstep.fresh (h : Lockstep x k) {j : ℕ} (hj : k.paperIds ≤ j) :
    paperId j ∉ k.paper.store.orders ∧ x.orderId j ∉ k.live.store.orders := by
  have hused : ∀ o ∈ k.paper.store.orders.values, o.orderId ≠ paperId j := by
    intro o ho heq
    obtain ⟨a, ha, hid⟩ := h.used o ho
    have := paperId_injective (heq.symm.trans hid)
    omega
  constructor
  · intro hin
    obtain ⟨o, ho⟩ := Dict.exists_get?_of_mem hin
    exact hused o (Dict.mem_values_iff.2 ⟨_, ho⟩) (h.paperKeyed _ o ho)
  · intro hin
    obtain ⟨o', ho'⟩ := Dict.exists_get?_of_mem hin
    obtain ⟨o, ho, hsame⟩ :=
      FirstFit.exists_of_mem_right h.orders (Dict.mem_values_iff.2 ⟨_, ho'⟩)
    obtain ⟨a, hpaper, hlive⟩ := hsame.orderId
    rw [h.liveKeyed _ o' ho'] at hlive
    exact hused o ho (x.orderId_injective hlive ▸ hpaper)

/-- Where the sessions can be compared, both engines intend the same. -/
theorem Lockstep.sameIntent (h : Lockstep x k) {c : CashLedger}
    (hapart : k.live = k.paper.apart k.live.store.orders c) {cid : ConditionId} {obs : Observation}
    {link : Link} (hsee : k.Comparable (.recompute cid obs link)) :
    Engine.SameIntent (Renames x) k.live.store.orders c
      (k.paper.intent cid (obs.through true paperLink))
      (k.live.intent cid (obs.through false link)) := by
  have hagree : ∀ mk, k.paper.markets.get? cid = some mk →
      k.paper.Agrees (k.paper.apart k.live.store.orders c) cid mk (obs.through true paperLink)
        (obs.through false link) := by
    intro mk hmk
    obtain ⟨hblind, hloss⟩ := hsee.2 mk hmk
    rw [hapart] at hloss
    refine ⟨hblind, hloss, fun d _ => ?_⟩
    -- paper mode never sheds
    have hpaper : ¬ Shed (obs.through true paperLink) d.regime := fun hshed => by cases hshed.1
    have hlive : ¬ Shed (obs.through false link) d.regime := fun hshed => hsee.1.not_gt hshed.2.1
    unfold Decision.issued
    rw [if_neg hpaper, if_neg hlive]
  have hsame := Engine.intent_apart (biUnique_renames x) h.sameOrders hagree
  rwa [← hapart] at hsame

theorem step_recompute (hids : k.liveIds = k.paperIds) (cid : ConditionId) (obs : Observation)
    (link : Link) {i i' : Engine.Intent} (hi : k.paper.intent cid (obs.through true paperLink) = i)
    (hi' : k.live.intent cid (obs.through false link) = i') :
    k.step m x (.recompute cid obs link) =
      ⟨i.settled (accepted paperId k.paperIds i.place obs.now) obs.now,
        k.paperIds + i.place.length,
        i'.settled (accepted x.orderId k.paperIds i'.place obs.now) obs.now,
        (k.resting.filter fun o => decide (o.orderId ∉ i'.cancel)) ++
          accepted x.orderId k.paperIds i'.place obs.now,
        k.paperIds + i'.place.length⟩ := by
  unfold step
  dsimp only
  rw [hids, Engine.recompute_accepting, Engine.recompute_accepting, hi, hi', foldl_afterCall,
    length_accepted]
  rfl

/-- **A recompute keeps the sessions in lockstep.** -/
theorem Lockstep.recompute (h : Lockstep x k) {cid : ConditionId} {obs : Observation} {link : Link}
    (hsee : k.Comparable (.recompute cid obs link)) :
    Lockstep x (k.step m x (.recompute cid obs link)) := by
  obtain ⟨c, hapart⟩ := h.apart
  have hsame := h.sameIntent hapart hsee
  have hstore := k.paper.intent_store cid (obs.through true paperLink)
  have hstore' := k.live.intent_store cid (obs.through false link)
  have hkeyed : (k.step m x (.recompute cid obs link)).paper.store.Keyed :=
    Engine.keyed_recompute h.paperKeyed cid _ _
  have hkeyed' : (k.step m x (.recompute cid obs link)).live.store.Keyed :=
    Engine.keyed_recompute h.liveKeyed cid _ _
  generalize hi : k.paper.intent cid (obs.through true paperLink) = i at hsame hstore
  generalize hi' : k.live.intent cid (obs.through false link) = i' at hsame hstore'
  have hvalues := i.values_settled paperId_injective (hstore ▸ h.paperKeyed)
    (fun j hj => hstore ▸ (h.fresh hj).1) obs.now
  have hvalues' := i'.values_settled x.orderId_injective (hstore' ▸ h.liveKeyed)
    (fun j hj => hstore' ▸ (h.fresh hj).2) obs.now
  rw [hstore] at hvalues
  rw [hstore'] at hvalues'
  rw [step_recompute h.ids cid obs link hi hi'] at hkeyed hkeyed' ⊢
  refine ⟨?_, ⟨c, hsame.settled_apart _ _ obs.now⟩, ?_, ?_, ?_, hkeyed, hkeyed'⟩
  · dsimp only
    rw [hsame.place]
  · -- what was kept on both sides, and what was placed on both sides
    dsimp only
    rw [hvalues, hvalues', ← hsame.place]
    refine List.rel_append (List.rel_filter (fun o o' ho => ?_) h.orders)
      (accepted_rel (fun a _ => ⟨a, rfl, rfl⟩) obs.now)
    have hmem := List.rel_mem (biUnique_renames x) ho.orderId hsame.cancel
    simp only [decide_eq_true_eq, hmem]
  · dsimp only
    rw [hvalues]
    intro o ho
    rcases List.mem_append.1 ho with hold | hnew
    · obtain ⟨a, ha, hid⟩ := h.used o (List.mem_filter.1 hold).1
      exact ⟨a, by omega, hid⟩
    · obtain ⟨a, -, ha, hid⟩ := mem_accepted_iff.1 (List.mem_map_of_mem hnew)
      exact ⟨a, ha, hid.symm⟩
  · dsimp only
    have hfilter : ∀ l : List OpenOrder,
        (l.filter fun o => decide (o.orderId ∉ i'.cancel)).map OpenOrder.undated =
          (l.map OpenOrder.undated).filter fun o => decide (o.orderId ∉ i'.cancel) :=
      fun l => by rw [List.filter_map]; rfl
    rw [hvalues', List.map_append, List.map_append, hfilter, hfilter, h.resting]

/-! ### Rounds -/

/-- The order may stay in a paper round: its token is not idle, or it is younger than the grace. -/
def Stays (k : PaperTwin) (m : Markets) (r : Round) (o : OpenOrder) : Prop :=
  ∀ tok ∈ k.paper.tokens, (k.paper.readPositions m r).store.inflight tok = 0 → o.tokenId = tok →
    r.now - o.createdTs < defaultGraceS

instance (k : PaperTwin) (m : Markets) (r : Round) (o : OpenOrder) : Decidable (k.Stays m r o) :=
  inferInstanceAs (Decidable (∀ tok ∈ k.paper.tokens, _ → _ → _))

theorem young_iff (k : PaperTwin) (m : Markets) (r : Round) :
    k.Young m (.round r) ↔ ∀ e ∈ k.paper.store.orders.entries, k.Stays m r e.2 := by
  constructor
  · intro h e he tok htok hidle heq
    obtain ⟨mk, hmk, hin⟩ := List.mem_flatMap.1 htok
    refine h mk hmk tok hin hidle e.2 (mem_ordersFor.2 ⟨⟨e.1, ?_⟩, heq⟩)
    exact Dict.mem_entries_iff.1 he
  · intro h mk hmk tok hin hidle o ho
    obtain ⟨⟨id, hget⟩, heq⟩ := mem_ordersFor.1 ho
    exact h (id, o) (Dict.mem_entries_iff.2 hget) tok (List.mem_flatMap.2 ⟨mk, hmk, hin⟩) hidle heq

/-- What a paper round leaves of the orders. -/
theorem readOrders_paper (k : PaperTwin) (m : Markets) (r : Round) :
    (k.paper.readPositions m r).readOrders (some []) r.now =
      { k.paper.readPositions m r with
        store := (k.paper.readPositions m r).store.withOrders
          (k.paper.store.orders.filter fun _ o => decide (k.Stays m r o)) } := by
  have htokens : (k.paper.readPositions m r).tokens = k.paper.tokens := by
    unfold Engine.tokens
    rw [Engine.readPositions_markets]
  rw [Engine.readOrders_some, applyTokens_nil, Engine.readPositions_orders, htokens]
  rfl

theorem orders_paper_round (k : PaperTwin) (m : Markets) (x : Exchange) (r : Round) :
    (k.step m x (.round r)).paper.store.orders =
      k.paper.store.orders.filter fun _ o => decide (k.Stays m r o) := by
  show ((Engine.readOrders _ _ _).slowerLoops m true r).store.orders = _
  rw [Engine.slowerLoops_orders, readOrders_paper]
  rfl

/-- A paper round that meets young orders only leaves them alone. -/
theorem paper_round_of_young (x : Exchange) {r : Round} (h : k.Young m (.round r)) :
    (k.step m x (.round r)).paper = (k.paper.readPositions m r).slowerLoops m true r := by
  have hall : (k.paper.store.orders.filter fun _ o => decide (k.Stays m r o)) =
      (k.paper.readPositions m r).store.orders := by
    rw [Engine.readPositions_orders]
    ext1
    exact List.filter_eq_self.2 fun e he => decide_eq_true ((young_iff k m r).1 h e he)
  show (Engine.readOrders _ _ _).slowerLoops m true r = _
  rw [readOrders_paper, hall]
  rfl

/-- A paper round that keeps the number of orders meets young ones only. -/
theorem young_of_length {r : Round} (h : (k.step m x (.round r)).paper.store.orders.values.length =
    k.paper.store.orders.values.length) : k.Young m (.round r) := by
  rw [orders_paper_round] at h
  unfold Dict.values Dict.filter at h
  rw [List.length_map, List.length_map, List.length_filter_eq_length_iff] at h
  exact (young_iff k m r).2 fun e he => of_decide_eq_true (h e he)

/-- What a live round leaves of the orders: all of them, in new copies. -/
theorem Lockstep.live_orders_round (h : Lockstep x k) (m : Markets) (r : Round) :
    ∃ c, (k.step m x (.round r)).live =
        ((k.paper.readPositions m r).slowerLoops m true r).apart
          (k.step m x (.round r)).live.store.orders c ∧
      (k.step m x (.round r)).live.store.orders.values.map OpenOrder.undated =
        k.live.store.orders.values.map OpenOrder.undated ∧
      (k.step m x (.round r)).live.store.Keyed := by
  obtain ⟨c, hapart⟩ := h.apart
  set e := k.paper.readPositions m r
  have hread : k.live.readPositions m r = e.apart k.live.store.orders c := by
    rw [hapart, Engine.readPositions_apart]
    rfl
  have hkeyed : (e.apart k.live.store.orders c).store.Keyed := h.liveKeyed
  have hlisted : ((x.read k.resting r.now).map OpenOrder.undated).Perm
      ((e.apart k.live.store.orders c).store.orders.values.map OpenOrder.undated) := by
    refine (perm_read x k.resting r.now).trans ?_
    rw [h.resting]
    exact .refl _
  have hvalues := applyTokens_listed hkeyed hlisted r.now (e.apart k.live.store.orders c).tokens
  have hkeyed' := hkeyed.applyTokens (x.read k.resting r.now) r.now
    (e.apart k.live.store.orders c).tokens
  generalize horders : ((e.apart k.live.store.orders c).tokens.foldl
    (applyToken (x.read k.resting r.now) r.now) (e.apart k.live.store.orders c).store).orders =
      orders at hvalues
  obtain ⟨c', hslow⟩ := Engine.exists_slowerLoops_apart e orders c m r
  have hstep : (k.step m x (.round r)).live = (e.slowerLoops m true r).apart orders c' := by
    show ((k.live.readPositions m r).readOrders _ _).slowerLoops m false r = _
    rw [hread, Engine.readOrders_some, horders, ← hslow]
    rfl
  rw [hstep]
  refine ⟨c', rfl, hvalues, fun i o hget => hkeyed' i o ?_⟩
  rw [horders]
  exact hget

/-- **A round that meets young orders only keeps the sessions in lockstep.** -/
theorem Lockstep.round (h : Lockstep x k) {r : Round} (hyoung : k.Young m (.round r)) :
    Lockstep x (k.step m x (.round r)) := by
  obtain ⟨c, hlive, hvalues, hkeyed⟩ := h.live_orders_round m r
  have hpaper := paper_round_of_young x hyoung
  have horders : (k.step m x (.round r)).paper.store.orders = k.paper.store.orders := by
    rw [hpaper, Engine.slowerLoops_orders, Engine.readPositions_orders]
  refine ⟨h.ids, ⟨c, hpaper ▸ hlive⟩, ?_, horders ▸ h.used, h.resting.trans hvalues.symm, ?_,
    hkeyed⟩
  · rw [horders]
    exact forall₂_of_undated h.orders hvalues
  · intro i o hget
    rw [horders] at hget
    exact h.paperKeyed i o hget

/-- **A round after which the sessions mirror each other met young orders only.** -/
theorem Lockstep.young (h : Lockstep x k) {S : OrderId → OrderId → Prop} {r : Round}
    (hmirror : (k.step m x (.round r)).Mirrors S) : k.Young m (.round r) := by
  obtain ⟨c, -, hvalues, -⟩ := h.live_orders_round m r
  have hlive := congrArg List.length hvalues
  rw [List.length_map, List.length_map] at hlive
  refine young_of_length (x := x) ?_
  rw [hmirror.values.length_eq, hlive, ← h.orders.length_eq]

theorem Lockstep.step (h : Lockstep x k) {ev : PaperEvent} (hsee : k.Comparable ev)
    (hyoung : k.Young m ev) : Lockstep x (k.step m x ev) := by
  cases ev with
  | recompute cid obs link => exact h.recompute hsee
  | round r => exact h.round hyoung

/-- A round that meets young orders only drops none. -/
theorem keepsPaper_of_young {ev : PaperEvent} (h : k.Young m ev) : k.KeepsPaper m x ev := by
  cases ev with
  | recompute cid obs link => trivial
  | round r =>
    intro i hi
    rw [paper_round_of_young x h, Engine.slowerLoops_orders, Engine.readPositions_orders]
    exact hi

end PaperTwin

/-! ### The result -/

/-- **When paper mode mirrors a live session.**  Where the sessions can be compared, they know the
same orders under a renaming all along, and no round drops a paper order, if and only if every round
meets young orders only. -/
theorem paper_mirrors_iff (m : Markets) (x : Exchange) (e : Engine) (es : List PaperEvent)
    (h : Run.EachStep (PaperTwin.step m x) PaperTwin.Comparable (PaperTwin.start e) es) :
    (∃ S, Relator.BiUnique S ∧
        Run.Always (PaperTwin.step m x) (PaperTwin.Mirrors S) (PaperTwin.start e) es) ∧
      Run.EachStep (PaperTwin.step m x) (PaperTwin.KeepsPaper m x) (PaperTwin.start e) es ↔
    Run.EachStep (PaperTwin.step m x) (PaperTwin.Young m) (PaperTwin.start e) es := by
  have hstart := PaperTwin.lockstep_start x e
  constructor
  · rintro ⟨⟨S, -, hmirror⟩, -⟩
    refine Run.eachStep_of_always (I := PaperTwin.Lockstep x) (fun k ev hk hsee hyoung =>
      hk.step hsee hyoung) (fun k ev hk hsee hnext => ?_) hstart h hmirror
    cases ev with
    | recompute cid obs link => trivial
    | round r => exact hk.young hnext
  · intro hyoung
    have hlockstep : Run.Always (PaperTwin.step m x) (PaperTwin.Lockstep x) (PaperTwin.start e)
        es :=
      Run.always_of_valid (V := fun k ev => k.Comparable ev ∧ k.Young m ev)
        (fun k ev hk hev => hk.step hev.1 hev.2) hstart
        fun pre ev post hes => ⟨h pre ev post hes, hyoung pre ev post hes⟩
    refine ⟨⟨_, biUnique_renames x, fun pre hpre => (hlockstep pre hpre).sameOrders⟩, ?_⟩
    exact fun pre ev post hes => PaperTwin.keepsPaper_of_young (hyoung pre ev post hes)

/-- An exchange that numbers its orders, and lists the latest first. -/
def Exchange.numbered : Exchange where
  orderId n := toString n
  orderId_injective _ _ h := toString_nat_injective h
  listing := List.reverse
  listing_perm := List.reverse_perm

/-- A market that quotes one layer a side, and a round five seconds later. -/
theorem paper_mirrors_of_early_round :
    let m : Market :=
      { info := ⟨"c", "yes", "no", 1 / 100, 5, 0, 0, none, none⟩, profile := { layers := 1 } }
    let book := OrderBook.ofTouch (48 / 100) (52 / 100) 100
    let obs : Observation :=
      ⟨100, some book, some book, 0, 0, 0, 0, false, false, false, false, 0⟩
    let e : Engine := ⟨{}, Dict.empty.set "c" m, StateStore.open .fresh, .new {}, Dict.empty⟩
    let es : List PaperEvent :=
      [.recompute "c" obs paperLink, .round ⟨105, 60, none, none, some 0, false⟩]
    ∃ S, Relator.BiUnique S ∧
      Run.Always (PaperTwin.step ⟨Dict.empty, Dict.empty⟩ .numbered) (PaperTwin.Mirrors S)
        (PaperTwin.start e) es := by
  intro m book obs e es
  have hcomparable : Run.EachStep (PaperTwin.step ⟨Dict.empty, Dict.empty⟩ .numbered)
      PaperTwin.Comparable (PaperTwin.start e) es := by
    refine Run.eachStep_cons.2 ⟨PaperTwin.comparable_of_paperLink fun mk hmk => ?_,
      Run.eachStep_cons.2 ⟨trivial, Run.eachStep_nil⟩⟩
    obtain rfl : m = mk := Option.some.inj hmk
    decide +kernel
  have hyoung : Run.EachStep (PaperTwin.step ⟨Dict.empty, Dict.empty⟩ .numbered)
      (PaperTwin.Young ⟨Dict.empty, Dict.empty⟩) (PaperTwin.start e) es := by
    refine Run.eachStep_cons.2 ⟨trivial, Run.eachStep_cons.2 ⟨?_, Run.eachStep_nil⟩⟩
    unfold PaperTwin.Young
    decide +kernel
  exact ((paper_mirrors_iff _ _ e es hcomparable).2 hyoung).1

/-- The same market, and a round a minute later: the paper engine drops the two bids that the live
engine still tracks. -/
theorem paper_orders_dropped :
    let m : Market :=
      { info := ⟨"c", "yes", "no", 1 / 100, 5, 0, 0, none, none⟩, profile := { layers := 1 } }
    let book := OrderBook.ofTouch (48 / 100) (52 / 100) 100
    let obs : Observation :=
      ⟨100, some book, some book, 0, 0, 0, 0, false, false, false, false, 0⟩
    let e : Engine := ⟨{}, Dict.empty.set "c" m, StateStore.open .fresh, .new {}, Dict.empty⟩
    let es : List PaperEvent :=
      [.recompute "c" obs paperLink, .round ⟨160, 60, none, none, some 0, false⟩]
    let step := PaperTwin.step ⟨Dict.empty, Dict.empty⟩ .numbered
    let k := Run.run step (PaperTwin.start e) es
    Run.EachStep step PaperTwin.Comparable (PaperTwin.start e) es ∧
      k.paper.store.orders.keys = [] ∧ k.live.store.orders.keys = ["0", "1"] ∧
      ¬ ((∃ S, Relator.BiUnique S ∧
          Run.Always step (PaperTwin.Mirrors S) (PaperTwin.start e) es) ∧
        Run.EachStep step (PaperTwin.KeepsPaper ⟨Dict.empty, Dict.empty⟩ .numbered)
          (PaperTwin.start e) es) := by
  intro m book obs e es step k
  have hpaper : k.paper.store.orders.entries.length = 0 := by decide +kernel
  have hlive : k.live.store.orders.entries.length = 2 := by decide +kernel
  refine ⟨?_, by decide +kernel, by decide +kernel, ?_⟩
  · refine Run.eachStep_cons.2 ⟨PaperTwin.comparable_of_paperLink fun mk hmk => ?_,
      Run.eachStep_cons.2 ⟨trivial, Run.eachStep_nil⟩⟩
    obtain rfl : m = mk := Option.some.inj hmk
    decide +kernel
  · rintro ⟨⟨S, -, hmirror⟩, -⟩
    have hlength := List.Forall₂.length_eq hmirror.last
    rw [hpaper, hlive] at hlength
    cases hlength

end Polymaker
