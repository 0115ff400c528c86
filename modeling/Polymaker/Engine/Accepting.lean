import Polymaker.Engine.Frame
import Polymaker.Engine.Renaming

/-!
# Recomputing on an exchange that accepts everything

Every order is accepted under an id of its own, and every cancel is acknowledged.  The paper gateway
answers like that as well.

* `accepted`: the orders that a list of quotes becomes;
* `paperId`, `paperPlace`: the placement of the paper gateway;
* `Engine.intent`: the pure part of a recompute: the engine after it looked at the market, what it
  cancels and what it places;
* `recompute_accepting`: a recompute carries out its intent;
* `intent_apart`: engines that track the same orders up to ids intend the same.
-/

namespace Polymaker

/-! ### Ids handed out in turn -/

section Accepted

variable (name : ℕ → OrderId)

/-- The orders of a list of quotes, the ids being handed out in turn from the `n`-th on. -/
def accepted : ℕ → List Quote → ℚ → List OpenOrder
  | _, [], _ => []
  | n, q :: quotes, now =>
    ⟨name n, q.tokenId, q.side, q.price, q.size, .live, now⟩ :: accepted (n + 1) quotes now

/-- The responses to a list of batches all of which are accepted. -/
def acceptBatches : ℕ → List (List Quote) → List (List (Option OrderId))
  | _, [] => []
  | n, chunk :: chunks =>
    (List.range' n chunk.length).map (fun i => some (name i)) ::
      acceptBatches (n + chunk.length) chunks

variable {name}

@[simp] theorem length_accepted (n : ℕ) (quotes : List Quote) (now : ℚ) :
    (accepted name n quotes now).length = quotes.length := by
  induction quotes generalizing n with
  | nil => rfl
  | cons q quotes ih => rw [accepted, List.length_cons, List.length_cons, ih]

theorem accepted_append (n : ℕ) (quotes quotes' : List Quote) (now : ℚ) :
    accepted name n (quotes ++ quotes') now =
      accepted name n quotes now ++ accepted name (n + quotes.length) quotes' now := by
  induction quotes generalizing n with
  | nil => rfl
  | cons q quotes ih =>
    rw [List.cons_append, accepted, accepted, List.cons_append, ih, List.length_cons, Nat.add_assoc,
      Nat.add_comm 1]

theorem state_of_mem_accepted {n : ℕ} {quotes : List Quote} {now : ℚ} {o : OpenOrder}
    (h : o ∈ accepted name n quotes now) : o.state = .live := by
  induction quotes generalizing n with
  | nil => cases h
  | cons q quotes ih =>
    rcases List.mem_cons.1 h with rfl | h
    · rfl
    · exact ih h

/-- The ids are those from the `n`-th on. -/
theorem map_orderId_accepted (n : ℕ) (quotes : List Quote) (now : ℚ) :
    (accepted name n quotes now).map OpenOrder.orderId =
      (List.range' n quotes.length).map name := by
  induction quotes generalizing n with
  | nil => rfl
  | cons q quotes ih =>
    rw [accepted, List.map_cons, ih, List.length_cons, List.range'_succ, List.map_cons]

theorem nodup_accepted (h : Function.Injective name) (n : ℕ) (quotes : List Quote) (now : ℚ) :
    ((accepted name n quotes now).map OpenOrder.orderId).Nodup := by
  rw [map_orderId_accepted]
  exact List.Nodup.map h List.nodup_range'

theorem mem_accepted_iff {n : ℕ} {quotes : List Quote} {now : ℚ} {i : OrderId} :
    i ∈ (accepted name n quotes now).map OpenOrder.orderId ↔
      ∃ j, n ≤ j ∧ j < n + quotes.length ∧ name j = i := by
  rw [map_orderId_accepted]
  simp only [List.mem_map, List.mem_range'_1, and_assoc]

theorem parsePlaceResponse_accepted (n : ℕ) (chunk : List Quote) (now : ℚ) :
    parsePlaceResponse ((List.range' n chunk.length).map fun i => some (name i)) chunk now =
      accepted name n chunk now := by
  unfold parsePlaceResponse
  rw [if_pos (by rw [List.length_map, List.length_range'])]
  induction chunk generalizing n with
  | nil => rfl
  | cons q chunk ih =>
    rw [List.length_cons, List.range'_succ, List.map_cons, List.zip_cons_cons, List.filterMap_cons]
    dsimp only [Option.map_some]
    rw [ih, accepted]

theorem parseBatches_accepted (n : ℕ) (chunks : List (List Quote)) (now : ℚ) :
    parseBatches chunks (acceptBatches name n chunks) now = accepted name n chunks.flatten now := by
  induction chunks generalizing n with
  | nil => rfl
  | cons chunk chunks ih =>
    rw [acceptBatches, parseBatches_cons, ih, parsePlaceResponse_accepted, List.flatten_cons,
      accepted_append]

/-- A placement all of which is accepted. -/
theorem place_accepted (cfg : ExecutionConfig) (n : ℕ) (quotes : List Quote) (now : ℚ) :
    place cfg quotes (some (acceptBatches name n (batches cfg quotes))) now =
      accepted name n quotes now := by
  unfold place
  dsimp only
  rw [parseBatches_accepted, flatten_batches]

/-- The orders of two exchanges that accept the same quotes, and have handed out equally many
ids. -/
theorem accepted_rel {name' : ℕ → OrderId} {S : OrderId → OrderId → Prop} {n : ℕ}
    {quotes : List Quote} (hS : ∀ i, i < n + quotes.length → S (name i) (name' i)) (now : ℚ) :
    List.Forall₂ (SameOrder S) (accepted name n quotes now) (accepted name' n quotes now) := by
  induction quotes generalizing n with
  | nil => exact .nil
  | cons q quotes ih =>
    rw [List.length_cons] at hS
    exact .cons ⟨hS n (by omega), rfl, rfl, rfl, rfl, rfl⟩ (ih fun i hi => hS i (by omega))

end Accepted

/-- The ids of the paper gateway, `paper-1` first. -/
def paperId (n : ℕ) : OrderId := "paper-" ++ toString (n + 1)

/-- `place` in paper mode, when `n` orders were placed before. -/
def paperPlace (n : ℕ) (quotes : List Quote) (now : ℚ) : List OpenOrder :=
  accepted paperId n quotes now

/-- The paper gateway places like an exchange that accepts everything under its ids. -/
theorem place_eq_paperPlace (cfg : ExecutionConfig) (n : ℕ) (quotes : List Quote) (now : ℚ) :
    place cfg quotes (some (acceptBatches paperId n (batches cfg quotes))) now =
      paperPlace n quotes now := place_accepted cfg n quotes now

namespace Engine

/-! ### Intents -/

/-- What a recompute intends, and the engine that intends it. -/
structure Intent where
  engine : Engine
  cancel : List OrderId
  place : List Quote

/-- All quotes of a market are to be pulled. -/
def pullIntent (e : Engine) (m : MarketMeta) : Intent :=
  ⟨e, (e.ordersOf m).map OpenOrder.orderId, []⟩

/-- The pure part of `_maybe_pull_on_bad_book`. -/
def badBookIntent (e : Engine) (cid : ConditionId) (m : Market) (obs : Observation) : Intent :=
  match e.haltedOrBlind m obs with
  | (r, true) =>
    ({ e with risk := r }.setMarket cid { m with bookUnusableSince := none }).pullIntent m.info
  | (r, false) =>
    let since := m.bookUnusableSince.getD obs.now
    if badBookPullAfterS ≤ obs.now - since then
      ({ e with risk := r }.setMarket cid
        { m with bookUnusableSince := some since, sweep := false }).pullIntent m.info
    else ⟨{ e with risk := r }.setMarket cid { m with bookUnusableSince := some since }, [], []⟩

/-- The pure part of a recompute. -/
def intent (e : Engine) (cid : ConditionId) (obs : Observation) : Intent :=
  match e.markets.get? cid with
  | none => ⟨e, [], []⟩
  | some m =>
    match m.sight obs with
    | .error _ => e.badBookIntent cid m obs
    | .ok micro =>
      let (e', d) := e.decided cid m obs micro
      ⟨e', d.plan.toCancel, d.issued obs⟩

/-- The engine once an intent was carried out: `orders` came back for it. -/
def Intent.settled (i : Intent) (orders : List OpenOrder) (now : ℚ) : Engine :=
  { i.engine with
    store := orders.foldl StateStore.upsertOrder
      (i.cancel.foldl StateStore.removeOrder i.engine.store)
    risk := if i.place = [] then i.engine.risk else i.engine.risk.noteOrderResult true now }

/-- The calls an intent takes. -/
def Intent.calls (i : Intent) : List GatewayCall :=
  (if i.cancel = [] then [] else [.cancel i.cancel]) ++
    if i.place = [] then [] else [.place i.place]

/-- The answers of an exchange that accepts everything, the ids being handed out from the `n`-th
on. -/
def accepting (e : Engine) (name : ℕ → OrderId) (n : ℕ) (cid : ConditionId) (obs : Observation)
    (read : Option (List OpenOrder)) : Answers :=
  ⟨true, some (acceptBatches name n (batches e.execution (e.intent cid obs).place)), read⟩

/-- An intent leaves the store alone. -/
theorem intent_store (e : Engine) (cid : ConditionId) (obs : Observation) :
    (e.intent cid obs).engine.store = e.store := by
  unfold intent
  cases e.markets.get? cid with
  | none => rfl
  | some m =>
    dsimp only
    cases m.sight obs with
    | ok micro => rfl
    | error why =>
      dsimp only [badBookIntent]
      rcases e.haltedOrBlind m obs with ⟨r, _ | _⟩
      · dsimp only
        split_ifs <;> rfl
      · rfl

/-- Carrying an intent out changes the orders of the store, and nothing else of it. -/
theorem Intent.settled_store (i : Intent) (orders : List OpenOrder) (now : ℚ) :
    (i.settled orders now).store =
      i.engine.store.withOrders (i.settled orders now).store.orders := by
  have hcancel : ∀ s : StateStore, i.cancel.foldl StateStore.removeOrder s =
      s.withOrders (i.cancel.foldl StateStore.removeOrder s).orders := by
    generalize i.cancel = ids
    induction ids with
    | nil => exact fun _ => rfl
    | cons id ids ih => exact fun s => (ih _).trans rfl
  have hplace : ∀ s : StateStore, orders.foldl StateStore.upsertOrder s =
      s.withOrders (orders.foldl StateStore.upsertOrder s).orders := by
    induction orders with
    | nil => exact fun _ => rfl
    | cons o orders ih =>
      intro s
      rw [List.foldl_cons, ih]
      unfold StateStore.upsertOrder
      split <;> rfl
  unfold settled
  dsimp only
  rw [hplace, hcancel]
  rfl

/-- The orders once an intent was carried out and its quotes accepted, under ids that are new. -/
theorem Intent.values_settled {name : ℕ → OrderId} (hname : Function.Injective name) {n : ℕ}
    (i : Intent) (hk : i.engine.store.Keyed)
    (hfresh : ∀ j, n ≤ j → name j ∉ i.engine.store.orders) (now : ℚ) :
    (i.settled (accepted name n i.place now) now).store.orders.values =
      (i.engine.store.orders.values.filter fun o => decide (o.orderId ∉ i.cancel)) ++
        accepted name n i.place now := by
  have hnew : ∀ o ∈ accepted name n i.place now,
      o.orderId ∉ (i.cancel.foldl StateStore.removeOrder i.engine.store).orders := by
    intro o ho hin
    obtain ⟨j, hj, -, hid⟩ := mem_accepted_iff.1 (List.mem_map_of_mem ho)
    rw [← hid] at hin
    exact hfresh j hj (mem_foldl_removeOrder.1 hin).2
  unfold settled
  dsimp only
  rw [values_foldl_upsertOrder (fun o ho => state_of_mem_accepted ho)
    (nodup_accepted hname n i.place now) hnew, values_foldl_removeOrder hk]

section Accepting

variable {e : Engine} {cid : ConditionId} {obs : Observation} {ans : Answers}

theorem pullAllQuotes_acknowledged (e : Engine) (m : MarketMeta) (h : ans.cancelOk = true)
    (now : ℚ) : e.pullAllQuotes m ans =
      ⟨(e.pullIntent m).settled [] now, (e.pullIntent m).calls, []⟩ := by
  unfold pullAllQuotes
  by_cases hnil : (e.ordersOf m).map OpenOrder.orderId = []
  · have hintent : e.pullIntent m = ⟨e, [], []⟩ := by rw [pullIntent, hnil]
    rw [if_pos hnil, hintent]
    rfl
  · rw [if_neg hnil, if_pos h, Intent.calls, if_neg (show (e.pullIntent m).cancel ≠ [] from hnil)]
    rfl

theorem maybePullOnBadBook_acknowledged (m : Market) (h : ans.cancelOk = true) :
    e.maybePullOnBadBook cid m obs ans =
      ⟨(e.badBookIntent cid m obs).settled [] obs.now, (e.badBookIntent cid m obs).calls, []⟩ := by
  unfold maybePullOnBadBook badBookIntent
  rcases e.haltedOrBlind m obs with ⟨r, _ | _⟩
  · dsimp only
    split_ifs
    · exact pullAllQuotes_acknowledged _ _ h _
    · rfl
  · exact pullAllQuotes_acknowledged _ _ h _

/-- The placement half of a recompute, all of which is accepted. -/
theorem placeQuotes_accepted (e : Engine) (m : Market) (d : Decision) (obs : Observation)
    (read : Option (List OpenOrder)) (name : ℕ → OrderId) (n : ℕ) :
    e.placeQuotes m d obs
        ⟨true, some (acceptBatches name n (batches e.execution (d.issued obs))), read⟩ =
      ⟨{ e with
          store := (accepted name n (d.issued obs) obs.now).foldl StateStore.upsertOrder e.store
          risk := if d.issued obs = [] then e.risk else e.risk.noteOrderResult true obs.now },
        if d.issued obs = [] then [] else [.place (d.issued obs)],
        accepted name n (d.issued obs) obs.now⟩ := by
  unfold placeQuotes
  dsimp only
  rw [place_accepted, length_accepted]
  by_cases hnone : d.issued obs = []
  · rw [if_pos hnone, if_pos hnone, if_pos hnone, hnone]
    rfl
  · rw [if_neg hnone, if_neg hnone, if_neg hnone, if_neg (lt_irrefl _), beq_self_eq_true]

/-- **A recompute carries out its intent** on an exchange that accepts everything. -/
theorem recompute_accepting (e : Engine) (name : ℕ → OrderId) (n : ℕ) (cid : ConditionId)
    (obs : Observation) (read : Option (List OpenOrder)) :
    e.recompute cid obs (e.accepting name n cid obs read) =
      ⟨(e.intent cid obs).settled (accepted name n (e.intent cid obs).place obs.now) obs.now,
        (e.intent cid obs).calls, accepted name n (e.intent cid obs).place obs.now⟩ := by
  cases hm : e.markets.get? cid with
  | none =>
    have hintent : e.intent cid obs = ⟨e, [], []⟩ := by rw [intent, hm]
    rw [(recompute_of_none obs _ hm).2, hintent]
    rfl
  | some m =>
    cases hsight : m.sight obs with
    | error why =>
      have hintent : e.intent cid obs = e.badBookIntent cid m obs := by
        simp only [intent, hm, hsight]
      have hplace : (e.badBookIntent cid m obs).place = [] := by
        unfold badBookIntent
        rcases e.haltedOrBlind m obs with ⟨r, _ | _⟩
        · dsimp only
          split_ifs <;> rfl
        · rfl
      rw [(recompute_of_error _ hm hsight).2, maybePullOnBadBook_acknowledged m rfl, hintent,
        hplace]
      rfl
    | ok micro =>
      set d := (e.decided cid m obs micro).2 with hd
      have hintent : e.intent cid obs =
          ⟨(e.decided cid m obs micro).1, d.plan.toCancel, d.issued obs⟩ := by
        simp only [intent, hm, hsight, hd]
      rw [(recompute_of_ok _ hm hsight).2, hintent, accepting, hintent, ← hd]
      unfold carryOut
      by_cases hcancel : d.plan.toCancel = []
      · rw [if_pos hcancel]
        refine (placeQuotes_accepted (e.decided cid m obs micro).1 m d obs read name n).trans ?_
        simp only [Intent.settled, Intent.calls, hcancel, List.foldl_nil, if_true, List.nil_append]
      · rw [if_neg hcancel, if_pos rfl]
        have hplaced := placeQuotes_accepted ((e.decided cid m obs micro).1.dropOrders
          d.plan.toCancel) m d obs read name n
        have hexec : ((e.decided cid m obs micro).1.dropOrders d.plan.toCancel).execution =
            e.execution := rfl
        rw [hexec] at hplaced
        dsimp only
        rw [hplaced]
        simp only [Intent.settled, Intent.calls, hcancel, if_false, List.singleton_append]
        rfl

end Accepting

/-! ### Intents of engines that differ in ids -/

/-- Two engines see equally much of a market, agree on the daily loss at its marks, and withhold the
same quotes. -/
structure Agrees (e e' : Engine) (cid : ConditionId) (m : Market) (obs obs' : Observation) :
    Prop where
  blind : m.blind obs' = m.blind obs
  loss : (e'.seen m obs').risk.DailyLossHit e'.store ↔ (e.seen m obs).risk.DailyLossHit e.store
  issued : ∀ d, e.decision? cid obs = some d → d.issued obs' = d.issued obs

/-- Two intents that ask for the same, up to the ids of what is cancelled. -/
structure SameIntent (S : OrderId → OrderId → Prop) (orders : Dict OrderId OpenOrder)
    (k : CashLedger) (i i' : Intent) : Prop where
  engine : i'.engine = i.engine.apart orders k
  cancel : List.Forall₂ S i.cancel i'.cancel
  place : i.place = i'.place

section Apart

variable {S : OrderId → OrderId → Prop} {e : Engine} {orders : Dict OrderId OpenOrder}
  {k : CashLedger} {cid : ConditionId} {obs : Observation} {m : Market} {paper paper' : Bool}
  {l l' : Link}

theorem pullIntent_apart (e : Engine) (k : CashLedger) (h : SameOrders S e.store.orders orders)
    (m : MarketMeta) : SameIntent S orders k (e.pullIntent m) ((e.apart orders k).pullIntent m) :=
  ⟨rfl, forall₂_map_orderId (ordersOf_apart h m), rfl⟩

theorem badBookIntent_apart (h : SameOrders S e.store.orders orders)
    (hblind : m.blind (obs.through paper' l') = m.blind (obs.through paper l))
    (hloss : (e.apart orders k).risk.DailyLossHit (e.apart orders k).store ↔
      e.risk.DailyLossHit e.store) :
    SameIntent S orders k (e.badBookIntent cid m (obs.through paper l))
      ((e.apart orders k).badBookIntent cid m (obs.through paper' l')) := by
  have hhalt : (e.apart orders k).haltedOrBlind m (obs.through paper' l') =
      ((e.haltedOrBlind m (obs.through paper l)).1.withLedger k,
        (e.haltedOrBlind m (obs.through paper l)).2) := by
    obtain ⟨hr, hsome⟩ := RiskManager.globalHalt_withLedger (r := e.risk) (s := e.store) (k := k)
      hloss obs.now
    unfold haltedOrBlind
    rw [hblind]
    split_ifs
    · rfl
    · exact Prod.ext hr hsome
  have hpull : ∀ r m', SameIntent S orders k
      (({ e with risk := r }.setMarket cid m').pullIntent m.info)
      (({ e.apart orders k with risk := r.withLedger k }.setMarket cid m').pullIntent m.info) :=
    fun r m' => pullIntent_apart ({ e with risk := r }.setMarket cid m') k h m.info
  have hnow : (obs.through paper' l').now = (obs.through paper l).now := rfl
  unfold badBookIntent
  rw [hhalt, hnow]
  rcases e.haltedOrBlind m (obs.through paper l) with ⟨r, _ | _⟩
  · dsimp only
    split_ifs
    · exact hpull r _
    · exact ⟨rfl, .nil, rfl⟩
  · exact hpull r _

/-- **Intents know no ids.** -/
theorem intent_apart (hS : Relator.BiUnique S) (h : SameOrders S e.store.orders orders)
    (hagree : ∀ m, e.markets.get? cid = some m →
      e.Agrees (e.apart orders k) cid m (obs.through paper l) (obs.through paper' l')) :
    SameIntent S orders k (e.intent cid (obs.through paper l))
      ((e.apart orders k).intent cid (obs.through paper' l')) := by
  have hmarkets : (e.apart orders k).markets = e.markets := rfl
  unfold intent
  rw [hmarkets]
  cases hm : e.markets.get? cid with
  | none => exact ⟨rfl, .nil, rfl⟩
  | some m =>
    obtain ⟨hblind, hloss, hissued⟩ := hagree m hm
    have hsee : m.sight (obs.through paper' l') = m.sight (obs.through paper l) := rfl
    dsimp only
    rw [hsee]
    cases hsight : m.sight (obs.through paper l) with
    | error why =>
      simp only [seen, hsee, hsight] at hloss
      exact badBookIntent_apart h hblind hloss
    | ok micro =>
      simp only [seen, hsee, hsight] at hloss
      obtain ⟨hengine, hsame⟩ := decided_apart hS h hblind hloss cid
      refine ⟨hengine, hsame.toCancel, ?_⟩
      have hd := (recompute_of_ok ⟨true, none, none⟩ hm hsight).1
      dsimp only
      rw [← hissued _ hd, Decision.issued, Decision.issued, hsame.regime, hsame.toPlace]

/-- Engines that carry out the same intent differ in orders and ledger as before. -/
theorem SameIntent.settled_apart {i i' : Intent} (h : SameIntent S orders k i i')
    (answer answer' : List OpenOrder) (now : ℚ) :
    i'.settled answer' now =
      (i.settled answer now).apart (i'.settled answer' now).store.orders k := by
  have hstore : (i'.settled answer' now).store =
      (i.settled answer now).store.withOrders (i'.settled answer' now).store.orders := by
    rw [Intent.settled_store, Intent.settled_store i, h.engine]
    rfl
  have hrisk : (i'.settled answer' now).risk = (i.settled answer now).risk.withLedger k := by
    unfold Intent.settled
    dsimp only
    rw [h.engine, ← h.place]
    split_ifs
    · rfl
    · exact RiskManager.withLedger_noteOrderResult true now
  have hother : i'.settled answer' now = { (i.settled answer now).apart
      (i'.settled answer' now).store.orders k with
        store := (i'.settled answer' now).store
        risk := (i'.settled answer' now).risk } := by
    unfold Intent.settled
    rw [h.engine]
    rfl
  rw [hother, hstore, hrisk]
  rfl

end Apart

end Engine

end Polymaker
