import Mathlib.Data.List.Dedup
import Polymaker.Engine.Frame
import Polymaker.Strategy.EntryCost

/-!
# A recompute all of whose calls succeed

* `Engine.cancels`, `Engine.posts`: what a recompute asks for;
* `Engine.Succeeds`: every gateway call succeeds, and the ids that come back are new;
* `store_of_succeeds`: the local orders it ends with, without those cancelled and with those placed;
* `restingBuys_of_succeeds`: the notional of the resting BUY orders it ends with;
* `globalResting_eq`, `marketResting_eq`: the gate reads that notional;
* `carriedOut_of_succeeds`, `filter_ordersOf_of_succeeds`: the plan is carried out, and the orders
  of the market are those it leaves.
-/

namespace Polymaker

open RiskManager (restingBuyNotional)

/-! ### The notional of resting bids -/

/-- The notional of the resting BUY orders on a set of tokens. -/
def StateStore.restingBuys (s : StateStore) (tokens : List TokenId) : ℚ :=
  restingBuyNotional s.orders.values tokens

section Notional

variable (orders orders' : List OpenOrder) (tokens : List TokenId)

@[simp] theorem restingBuyNotional_nil : restingBuyNotional [] tokens = 0 := rfl

theorem restingBuyNotional_append :
    restingBuyNotional (orders ++ orders') tokens =
      restingBuyNotional orders tokens + restingBuyNotional orders' tokens := by
  unfold restingBuyNotional
  rw [List.filter_append, List.map_append, List.sum_append]

theorem restingBuyNotional_cons (o : OpenOrder) :
    restingBuyNotional (o :: orders) tokens =
      (if o.side = .buy ∧ o.tokenId ∈ tokens then o.price * o.size else 0) +
        restingBuyNotional orders tokens := by
  unfold restingBuyNotional
  rw [List.filter_cons]
  split_ifs with hdec hbuy hbuy
  · rw [List.map_cons, List.sum_cons]
  · exact absurd (of_decide_eq_true hdec) hbuy
  · exact absurd (decide_eq_true hbuy) hdec
  · rw [zero_add]

/-- The orders that satisfy a test, and those that do not. -/
theorem restingBuyNotional_filter_add_filter_not (p : OpenOrder → Prop) [DecidablePred p] :
    restingBuyNotional (orders.filter fun o => decide (p o)) tokens +
        restingBuyNotional (orders.filter fun o => decide (¬ p o)) tokens =
      restingBuyNotional orders tokens := by
  induction orders with
  | nil => rw [List.filter_nil, List.filter_nil, restingBuyNotional_nil, add_zero]
  | cons o orders ih =>
    rw [restingBuyNotional_cons, ← ih]
    by_cases hp : p o
    · rw [List.filter_cons_of_pos (by simpa using hp), List.filter_cons_of_neg (by simpa using hp),
        restingBuyNotional_cons, add_assoc]
    · rw [List.filter_cons_of_neg (by simpa using hp), List.filter_cons_of_pos (by simpa using hp),
        restingBuyNotional_cons, add_left_comm]

/-- Only the tokens of the orders matter. -/
theorem restingBuyNotional_congr_tokens {tokens' : List TokenId}
    (h : ∀ o ∈ orders, o.tokenId ∈ tokens ↔ o.tokenId ∈ tokens') :
    restingBuyNotional orders tokens = restingBuyNotional orders tokens' := by
  unfold restingBuyNotional
  congr 2
  refine List.filter_congr fun o ho => ?_
  simp only [h o ho]

/-- The tokens count one by one. -/
theorem restingBuyNotional_cons_token {tok : TokenId} (h : tok ∉ tokens) :
    restingBuyNotional orders (tok :: tokens) =
      restingBuyNotional orders [tok] + restingBuyNotional orders tokens := by
  induction orders with
  | nil => simp
  | cons o orders ih =>
    rw [restingBuyNotional_cons, restingBuyNotional_cons, restingBuyNotional_cons, ih]
    by_cases htok : o.tokenId = tok
    · have hnot : o.tokenId ∉ tokens := htok ▸ h
      simp [htok, h, add_assoc]
    · simp [htok, add_left_comm]

end Notional

/-- What was placed for quotes on the tokens commits what they bid. -/
theorem restingBuyNotional_realised {quotes : List Quote} {orders : List OpenOrder}
    (h : List.Forall₂ Realises quotes orders) {tokens : List TokenId}
    (htok : ∀ q ∈ quotes, q.tokenId ∈ tokens) :
    restingBuyNotional orders tokens = bidNotional quotes := by
  induction h with
  | nil => rfl
  | @cons q o quotes orders hreal _ ih =>
    obtain ⟨hq, htok⟩ := List.forall_mem_cons.1 htok
    obtain ⟨⟨htokenId, hside⟩, hprice, hsize⟩ := hreal
    rw [restingBuyNotional_cons, ih htok, htokenId, hside, hprice, hsize]
    unfold bidNotional
    by_cases hbuy : q.side = .buy
    · rw [if_pos ⟨hbuy, hq⟩, List.filter_cons, if_pos (decide_eq_true hbuy), List.map_cons,
        List.sum_cons]
    · rw [if_neg fun h => hbuy h.1, List.filter_cons, if_neg (by simpa using hbuy), zero_add]

theorem restingBuyNotional_ordersFor (s : StateStore) {tok : TokenId} {tokens : List TokenId}
    (h : tok ∈ tokens) : restingBuyNotional (s.ordersFor tok) tokens = s.restingBuys [tok] := by
  unfold StateStore.restingBuys restingBuyNotional StateStore.ordersFor
  rw [List.filter_filter]
  congr 2
  refine List.filter_congr fun o _ => ?_
  by_cases htok : o.tokenId = tok <;> simp [htok, h]

/-- Collected token by token, the orders on a set of tokens commit the same. -/
theorem restingBuyNotional_flatMap_ordersFor (s : StateStore) {tokens tokens' : List TokenId}
    (hnd : tokens.Nodup) (hsub : tokens ⊆ tokens') :
    restingBuyNotional (tokens.flatMap s.ordersFor) tokens' = s.restingBuys tokens := by
  induction tokens with
  | nil =>
    have hnone : s.orders.values.filter (fun o => decide (o.side = .buy ∧ o.tokenId ∈ [])) = [] :=
      List.filter_eq_nil_iff.2 fun o _ => by simp
    unfold StateStore.restingBuys restingBuyNotional
    rw [hnone]
    rfl
  | cons tok tokens ih =>
    obtain ⟨htok, hsub⟩ := List.cons_subset.1 hsub
    rw [List.nodup_cons] at hnd
    rw [List.flatMap_cons, restingBuyNotional_append, restingBuyNotional_ordersFor s htok,
      ih hnd.2 hsub]
    exact (restingBuyNotional_cons_token s.orders.values tokens hnd.1).symm

/-! ### What a recompute asks for -/

namespace Engine

section Asks

variable (e : Engine) (cid : ConditionId) (m : Market) (obs : Observation) (ans : Answers)

/-- The orders a recompute asks to cancel. -/
def cancels : List OrderId :=
  match e.decision? cid obs with
  | none => e.toPull m obs
  | some d => d.plan.toCancel

/-- The quotes a recompute sends out. -/
def posts : List Quote :=
  match e.decision? cid obs with
  | none => []
  | some d => d.issued obs

/-- The orders the placement returns. -/
def receipts : List OpenOrder := place e.execution (e.posts cid obs) ans.place obs.now

/-- Every gateway call succeeds, and the ids that come back are new. -/
structure Succeeds : Prop where
  cancelled : e.cancels cid m obs ≠ [] → ans.cancelOk = true
  complete : (e.receipts cid obs ans).length = (e.posts cid obs).length
  fresh : ∀ o ∈ e.receipts cid obs ans, o.orderId ∉ e.store.orders
  distinct : ((e.receipts cid obs ans).map OpenOrder.orderId).Nodup

/-- The notional of the resting BUY orders a recompute asks to cancel. -/
def cancelledBids : ℚ :=
  restingBuyNotional
    (e.store.orders.values.filter fun o => decide (o.orderId ∈ e.cancels cid m obs)) m.info.tokens

/-- The notional of the bids a recompute posts, less that of the bids it cancels. -/
def netBids : ℚ := bidNotional (e.posts cid obs) - e.cancelledBids cid m obs

end Asks

variable {e : Engine} {cid : ConditionId} {m : Market} {obs : Observation} {ans : Answers}

theorem receipts_of_posts_nil (h : e.posts cid obs = []) : e.receipts cid obs ans = [] := by
  have hlen := length_place_le e.execution (e.posts cid obs) ans.place obs.now
  rw [h] at hlen
  unfold receipts
  rw [h]
  exact List.length_eq_zero_iff.1 (Nat.le_zero.1 hlen)

/-- **The store after a recompute all of whose calls succeed.** -/
theorem store_of_succeeds (hm : e.markets.get? cid = some m)
    (hs : e.Succeeds cid m obs ans) :
    (e.recompute cid obs ans).engine.store =
      (e.receipts cid obs ans).foldl StateStore.upsertOrder
        ((e.cancels cid m obs).foldl StateStore.removeOrder e.store) := by
  have hcase := recompute_cases e cid obs ans
  generalize (e.recompute cid obs ans).engine.store = s at hcase ⊢
  generalize (e.recompute cid obs ans).calls = calls at hcase
  generalize (e.recompute cid obs ans).returned = returned at hcase
  have hnoplan : e.decision? cid obs = none →
      e.cancels cid m obs = e.toPull m obs ∧ e.receipts cid obs ans = [] := fun hnone =>
    ⟨by rw [cancels, hnone], receipts_of_posts_nil (by rw [posts, hnone])⟩
  have hplan : ∀ {d}, e.decision? cid obs = some d →
      e.cancels cid m obs = d.plan.toCancel ∧ e.posts cid obs = d.issued obs ∧
        e.receipts cid obs ans = e.placed d obs ans := fun hd =>
    ⟨by rw [cancels, hd], by rw [posts, hd], by rw [receipts, posts, hd, placed]⟩
  cases hcase with
  | idle hnone hpull =>
    obtain ⟨hcancels, hreceipts⟩ := hnoplan hnone
    rw [hcancels, hpull m hm, hreceipts]
    rfl
  | pulled m' hm' hnone hok =>
    rw [hm] at hm'
    obtain rfl := Option.some.inj hm'
    obtain ⟨hcancels, hreceipts⟩ := hnoplan hnone
    rw [hcancels, hreceipts]
    rfl
  | pullFailed m' hm' hnone hok =>
    -- there was nothing to pull
    rw [hm] at hm'
    obtain rfl := Option.some.inj hm'
    obtain ⟨hcancels, hreceipts⟩ := hnoplan hnone
    have hnil : e.toPull m obs = [] := by
      by_contra hne
      have hok' := hs.cancelled (hcancels ▸ hne)
      rw [hok] at hok'
      cases hok'
    rw [hcancels, hnil, hreceipts]
    rfl
  | cancelFailed m' d hm' hd hok hne =>
    have hok' := hs.cancelled ((hplan hd).1 ▸ hne)
    rw [hok] at hok'
    cases hok'
  | cancelled m' d calls hm' hd hcalls hnil =>
    obtain ⟨hcancels, hposts, -⟩ := hplan hd
    rw [hcancels, receipts_of_posts_nil (hposts.trans hnil)]
    rfl
  | complete m' d calls hm' hd hcalls hsome hall =>
    obtain ⟨hcancels, -, hreceipts⟩ := hplan hd
    rw [hcancels, hreceipts]
  | quarantined m' d calls hm' hd hcalls hshort =>
    obtain ⟨-, hposts, hreceipts⟩ := hplan hd
    have hall := hs.complete
    rw [hposts, hreceipts] at hall
    omega

/-! ### What the decision is made of -/

theorem exists_sight_of_decision (hm : e.markets.get? cid = some m) {d : Decision}
    (hd : e.decision? cid obs = some d) :
    ∃ micro, m.sight obs = .ok micro ∧ d = (e.decision m obs micro).2 := by
  unfold decision? at hd
  rw [hm, Option.bind_some] at hd
  cases hsight : m.sight obs with
  | error why => rw [hsight] at hd; cases hd
  | ok micro =>
    rw [hsight] at hd
    exact ⟨micro, rfl, (Option.some.inj hd).symm⟩

/-- A decision reconciles the quoter's targets with the orders of the market. -/
theorem exists_inputs_of_decision (hm : e.markets.get? cid = some m) {d : Decision}
    (hd : e.decision? cid obs = some d) :
    ∃ i : QuoteInputs, i.m = m.info ∧ i.profile = m.profile ∧ i.toxicity = obs.toxicity ∧
      d.targets = constructQuotes i ∧
      d.plan = reconcile d.targets (e.ordersOf m.info) (tolerance m) := by
  obtain ⟨micro, -, rfl⟩ := exists_sight_of_decision hm hd
  exact ⟨_, rfl, rfl, rfl, rfl, rfl⟩

/-- What is cancelled is an order of the market. -/
theorem mem_ordersOf_of_mem_cancels (hm : e.markets.get? cid = some m) {i : OrderId}
    (hi : i ∈ e.cancels cid m obs) : ∃ o ∈ e.ordersOf m.info, o.orderId = i := by
  unfold cancels at hi
  cases hd : e.decision? cid obs with
  | none =>
    simp only [hd, toPull] at hi
    split_ifs at hi
    · exact List.mem_map.1 hi
    · exact absurd hi List.not_mem_nil
  | some d =>
    simp only [hd] at hi
    obtain ⟨i, -, -, -, -, hplan⟩ := exists_inputs_of_decision hm hd
    rw [hplan] at hi
    exact List.mem_map.1 (mem_toCancel.1 hi).1

/-- What is sent out is a target, of the market's own tokens. -/
theorem tokenId_mem_of_mem_posts (hm : e.markets.get? cid = some m) {q : Quote}
    (hq : q ∈ e.posts cid obs) : q.tokenId ∈ m.info.tokens := by
  unfold posts at hq
  cases hd : e.decision? cid obs with
  | none => rw [hd] at hq; exact absurd hq List.not_mem_nil
  | some d =>
    simp only [hd, Decision.issued] at hq
    obtain ⟨i, hinfo, -, -, htargets, hplan⟩ := exists_inputs_of_decision hm hd
    split_ifs at hq
    · exact absurd hq List.not_mem_nil
    · rw [hplan, htargets] at hq
      rw [← hinfo]
      exact tokenId_mem_of_mem_constructQuotes (mem_of_toPlace hq)

theorem mem_ordersOf {o : OpenOrder} :
    o ∈ e.ordersOf m.info ↔ (∃ i, e.store.orders.get? i = some o) ∧ o.tokenId ∈ m.info.tokens := by
  unfold ordersOf
  rw [List.mem_append, mem_ordersFor, mem_ordersFor, ← and_or_left]
  simp [MarketMeta.tokens]

/-- An order with a cancelled id is one of the market. -/
theorem tokenId_mem_of_mem_cancels (hk : e.store.Keyed) (hm : e.markets.get? cid = some m)
    {o : OpenOrder} (ho : o ∈ e.store.orders.values) (hi : o.orderId ∈ e.cancels cid m obs) :
    o.tokenId ∈ m.info.tokens := by
  obtain ⟨o', ho', hid⟩ := mem_ordersOf_of_mem_cancels hm hi
  obtain ⟨⟨j, hj⟩, htok⟩ := mem_ordersOf.1 ho'
  obtain ⟨i, hget⟩ := Dict.mem_values_iff.1 ho
  -- both are stored under their common id
  have hij : j = i := by rw [← hk j o' hj, hid, hk i o hget]
  rw [hij, hget] at hj
  rwa [Option.some.inj hj]

/-! ### The orders it ends with -/

section Orders

variable (hk : e.store.Keyed) (hm : e.markets.get? cid = some m) (hs : e.Succeeds cid m obs ans)
include hk hm hs

theorem values_of_succeeds :
    (e.recompute cid obs ans).engine.store.orders.values =
      (e.store.orders.values.filter fun o => decide (o.orderId ∉ e.cancels cid m obs)) ++
        e.receipts cid obs ans := by
  have hl : ∀ o ∈ e.receipts cid obs ans, o.state = .live := fun o ho => state_of_mem_place ho
  rw [store_of_succeeds hm hs, values_foldl_upsertOrder hl hs.distinct, values_foldl_removeOrder hk]
  exact fun o ho hin => hs.fresh o ho (mem_foldl_removeOrder.1 hin).2

/-- **The resting bids after it**: on every set of tokens that holds the market's, what was posted
is added and what was cancelled is gone. -/
theorem restingBuys_of_succeeds {tokens : List TokenId} (hsub : m.info.tokens ⊆ tokens) :
    (e.recompute cid obs ans).engine.store.restingBuys tokens =
      e.store.restingBuys tokens + e.netBids cid m obs := by
  have hplaced : restingBuyNotional (e.receipts cid obs ans) tokens =
      bidNotional (e.posts cid obs) :=
    restingBuyNotional_realised (realises_place hs.complete) fun q hq =>
      hsub (tokenId_mem_of_mem_posts hm hq)
  have hcancelled : restingBuyNotional (e.store.orders.values.filter fun o =>
      decide (o.orderId ∈ e.cancels cid m obs)) tokens = e.cancelledBids cid m obs := by
    refine restingBuyNotional_congr_tokens _ _ fun o ho => ?_
    obtain ⟨hmem, hin⟩ := List.mem_filter.1 ho
    have htok := tokenId_mem_of_mem_cancels hk hm hmem (of_decide_eq_true hin)
    exact iff_of_true (hsub htok) htok
  unfold StateStore.restingBuys netBids
  rw [values_of_succeeds hk hm hs, restingBuyNotional_append, hplaced, ← hcancelled,
    ← restingBuyNotional_filter_add_filter_not e.store.orders.values tokens
      (fun o => o.orderId ∈ e.cancels cid m obs)]
  ring

end Orders

/-! ### What the gate reads -/

theorem tokens_subset_allTokens (hm : e.markets.get? cid = some m) :
    m.info.tokens ⊆ e.allTokens := by
  intro tok htok
  unfold allTokens
  rw [List.mem_dedup, List.mem_flatMap]
  exact ⟨m, Dict.mem_values_iff.2 ⟨cid, hm⟩, htok⟩

/-- The gate's global figure is the notional of the resting bids of all markets. -/
theorem globalResting_eq (e : Engine) : e.globalResting = e.store.restingBuys e.allTokens :=
  restingBuyNotional_flatMap_ordersFor e.store (List.nodup_dedup _) (List.Subset.refl _)

/-- The gate's figure of a market is the notional of its resting bids. -/
theorem marketResting_eq (e : Engine) {m : MarketMeta} (hne : m.yes ≠ m.no) :
    e.marketResting m = e.store.restingBuys m.tokens := by
  have horders : e.ordersOf m = m.tokens.flatMap e.store.ordersFor := by
    simp [ordersOf, MarketMeta.tokens]
  have hnd : m.tokens.Nodup := by simp [MarketMeta.tokens, hne]
  unfold marketResting
  rw [horders]
  exact restingBuyNotional_flatMap_ordersFor e.store hnd (List.Subset.refl _)

/-! ### The plan carried out -/

/-- The orders of a market have distinct ids. -/
theorem nodup_ordersOf (hk : e.store.Keyed) (hne : m.info.yes ≠ m.info.no) :
    ((e.ordersOf m.info).map OpenOrder.orderId).Nodup := by
  unfold ordersOf
  rw [List.map_append]
  refine (hk.nodup_ordersFor _).append (hk.nodup_ordersFor _) ?_
  intro i hyes hno
  obtain ⟨o, ho, rfl⟩ := List.mem_map.1 hyes
  obtain ⟨o', ho', heq⟩ := List.mem_map.1 hno
  have hget := hk.get?_of_mem ho'
  rw [heq, hk.get?_of_mem ho] at hget
  obtain rfl := Option.some.inj hget
  exact hne ((mem_ordersFor.1 ho).2.symm.trans (mem_ordersFor.1 ho').2)

theorem carriedOut_of_succeeds (hk : e.store.Keyed) (hs : e.Succeeds cid m obs ans) {d : Decision}
    (hposts : e.posts cid obs = d.plan.toPlace) :
    CarriedOut d.plan (e.ordersOf m.info) (e.receipts cid obs ans) := by
  refine ⟨?_, fun o ho o' ho' heq => hs.fresh o ho ?_, hs.distinct⟩
  · rw [← hposts]
    exact realises_place hs.complete
  · obtain ⟨⟨i, hi⟩, -⟩ := mem_ordersOf.1 ho'
    rw [heq, hk i o' hi]
    exact Dict.mem_of_get? hi

/-- The orders of a market, of one token. -/
theorem filter_ordersOf (e : Engine) {m : MarketMeta} (hne : m.yes ≠ m.no) (tok : TokenId) :
    (e.ordersOf m).filter (fun o => decide (o.tokenId = tok)) =
      if tok ∈ m.tokens then e.store.ordersFor tok else [] := by
  have hone : ∀ t, (e.store.ordersFor t).filter (fun o => decide (o.tokenId = tok)) =
      if t = tok then e.store.ordersFor tok else [] := by
    intro t
    split_ifs with h
    · subst h
      exact List.filter_eq_self.2 fun o ho => decide_eq_true (mem_ordersFor.1 ho).2
    · refine List.filter_eq_nil_iff.2 fun o ho htok => h ?_
      rw [← (mem_ordersFor.1 ho).2, of_decide_eq_true htok]
  unfold ordersOf
  rw [List.filter_append, hone, hone]
  simp only [MarketMeta.tokens, List.mem_cons, List.not_mem_nil, or_false]
  by_cases hyes : m.yes = tok
  · rw [if_pos hyes, if_neg fun hno => hne (hyes.trans hno.symm), if_pos (.inl hyes.symm),
      List.append_nil]
  · by_cases hno : m.no = tok
    · rw [if_neg hyes, if_pos hno, if_pos (.inr hno.symm), List.nil_append]
    · rw [if_neg hyes, if_neg hno, if_neg fun h => h.elim (hyes ·.symm) (hno ·.symm),
        List.append_nil]

/-- Token by token, the orders of the market after it are those its plan leaves. -/
theorem filter_ordersOf_of_succeeds (hk : e.store.Keyed) (hm : e.markets.get? cid = some m)
    (hs : e.Succeeds cid m obs ans) (hne : m.info.yes ≠ m.info.no) {d : Decision}
    (hd : e.decision? cid obs = some d) (tok : TokenId) :
    ((e.recompute cid obs ans).engine.ordersOf m.info).filter
        (fun o => decide (o.tokenId = tok)) =
      (d.plan.leaves (e.ordersOf m.info) (e.receipts cid obs ans)).filter
        fun o => decide (o.tokenId = tok) := by
  have hcancels : e.cancels cid m obs = d.plan.toCancel := by rw [cancels, hd]
  have hl : ∀ o ∈ e.receipts cid obs ans, o.state = .live := fun o ho => state_of_mem_place ho
  rw [filter_ordersOf _ hne, store_of_succeeds hm hs,
    ordersFor_foldl_upsertOrder hl hs.distinct
      (fun o ho hin => hs.fresh o ho (mem_foldl_removeOrder.1 hin).2),
    ordersFor_foldl_removeOrder hk, hcancels, ReconcilePlan.leaves, List.filter_append,
    List.filter_comm, filter_ordersOf e hne]
  split_ifs with htok
  · rfl
  · -- nothing is placed for another market
    rw [List.filter_nil, List.nil_append, eq_comm, List.filter_eq_nil_iff]
    intro o ho hto
    obtain ⟨q, hq, hreal⟩ := FirstFit.exists_of_mem_right (realises_place hs.complete) ho
    refine htok ?_
    rw [← of_decide_eq_true hto, hreal.1.1]
    exact tokenId_mem_of_mem_posts hm hq

end Engine

end Polymaker
