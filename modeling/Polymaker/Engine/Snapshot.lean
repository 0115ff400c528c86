import Polymaker.Lib.Run
import Polymaker.State.Orders

/-!
# Applying an open-orders snapshot

`Engine._reconcile_loop` reads the exchange's open orders, and later, under the lock of each market,
replaces the market's local orders by what it read.  Between the two, any number of cancels,
placements and cancel events may touch them.

* `LocalStep`: what may happen to the local orders between the read and the application;
* `applySnapshot`: the application for one market;
* `NothingLost`, `NothingResurrected`: the two halves of the guarantee;
* `nothing_lost`: the grace window always gives the first;
* `snapshot_faithful_iff`: both hold if and only if no order removed in between is still listed by
  the snapshot for a token without in-flight trades.
-/

namespace Polymaker

/-- The default `grace_s` of `replace_open_orders`, in seconds. -/
def defaultGraceS : ℚ := 10

/-- A change of the local orders by the quoter or the user stream. -/
inductive LocalStep
  /-- The quoter's cancel was acknowledged. -/
  | cancelled (ids : List OrderId)
  /-- The quoter's placement returned these orders. -/
  | placed (orders : List OpenOrder)
  /-- The user stream reported the cancellation of an order. -/
  | userCancel (id : OrderId)
  deriving DecidableEq

/-- The effect on the store. -/
def LocalStep.apply (s : StateStore) : LocalStep → StateStore
  | .cancelled ids => ids.foldl StateStore.removeOrder s
  | .placed orders => orders.foldl StateStore.upsertOrder s
  | .userCancel id => s.removeOrder id

/-- The ids a step removes. -/
def LocalStep.removes : LocalStep → List OrderId
  | .cancelled ids => ids
  | .placed _ => []
  | .userCancel id => [id]

/-- The ids a step touches. -/
def LocalStep.touches : LocalStep → List OrderId
  | .cancelled ids => ids
  | .placed orders => orders.map OpenOrder.orderId
  | .userCancel id => [id]

/-- One token of the loop body: nothing while a trade of it is in flight. -/
def applyToken (live : List OpenOrder) (now : ℚ) (s : StateStore) (tok : TokenId) : StateStore :=
  if s.inflight tok = 0 then
    s.replaceOpenOrders tok (live.filter fun o => decide (o.tokenId = tok)) defaultGraceS now
  else s

/-- The snapshot `live` is applied to a market at time `now`. -/
def applySnapshot (s : StateStore) (m : MarketMeta) (live : List OpenOrder) (now : ℚ) :
    StateStore :=
  m.tokens.foldl (applyToken live now) s

/-! ### Steps -/

theorem apply_get?_of_not_touched {s : StateStore} {e : LocalStep} {i : OrderId}
    (h : i ∉ e.touches) : (e.apply s).orders.get? i = s.orders.get? i := by
  cases e with
  | cancelled ids => rw [LocalStep.apply, foldl_removeOrder_get?, if_neg (show i ∉ ids from h)]
  | placed orders => exact foldl_upsertOrder_get?_of_not_mem h
  | userCancel j =>
    rw [LocalStep.apply, removeOrder_get?, if_neg (by simpa [LocalStep.touches] using h)]

theorem run_get?_of_not_touched {s : StateStore} {es : List LocalStep} {i : OrderId}
    (h : ∀ e ∈ es, i ∉ e.touches) :
    (Run.run LocalStep.apply s es).orders.get? i = s.orders.get? i :=
  Run.run_of_forall_mem (P := fun s' : StateStore => s'.orders.get? i = s.orders.get? i)
    (fun _ e he hs => (apply_get?_of_not_touched (h e he)).trans hs) rfl

/-! ### One application -/

/-- An order is held safely: it is young, or it is the snapshot's own. -/
def SafelyHeld (live : List OpenOrder) (now : ℚ) (s : StateStore) (i : OrderId) : Prop :=
  ∃ o, s.orders.get? i = some o ∧ o.orderId = i ∧ (now - o.createdTs < defaultGraceS ∨ o ∈ live)

theorem SafelyHeld.applyToken {live : List OpenOrder} {now : ℚ} {s : StateStore} {i : OrderId}
    (h : SafelyHeld live now s i) (tok : TokenId) :
    SafelyHeld live now (applyToken live now s tok) i := by
  unfold Polymaker.applyToken
  split_ifs
  · obtain ⟨o, ho, hid, hget⟩ | ⟨hnot, hget⟩ := replaceOpenOrders_get? s tok
      (live.filter fun o => decide (o.tokenId = tok)) defaultGraceS now i
    · exact ⟨o, hget, hid, .inr (List.mem_filter.1 ho).1⟩
    · obtain ⟨o, ho, hid, hsafe⟩ := h
      refine ⟨o, ?_, hid, hsafe⟩
      rw [hget, ho]
      refine Option.filter_some_pos (decide_eq_true ?_)
      by_cases htok : o.tokenId = tok
      · -- an order of this token is young, or the snapshot lists it under this token
        rcases hsafe with hyoung | hlive
        · exact .inr (.inr hyoung)
        · exact .inr (.inl (List.mem_map_of_mem (List.mem_filter.2 ⟨hlive, by simpa using htok⟩)))
      · exact .inl htok
  · exact h

/-- The snapshot lists the id for a token of the market that has no trade in flight. -/
def ListedBySnapshot (s : StateStore) (m : MarketMeta) (live : List OpenOrder) (i : OrderId) :
    Prop :=
  ∃ o ∈ live, o.orderId = i ∧ o.tokenId ∈ m.tokens ∧ s.inflight o.tokenId = 0

/-- For an id that is not tracked, one token of the application starts tracking it exactly when the
snapshot lists it there. -/
theorem applyToken_untracked {live : List OpenOrder} (now : ℚ) {s : StateStore} {i : OrderId}
    (h : i ∉ s.orders) (tok : TokenId) :
    (SafelyHeld live now (applyToken live now s tok) i ∧
      ∃ o ∈ live, o.orderId = i ∧ o.tokenId = tok ∧ s.inflight tok = 0) ∨
    (i ∉ (applyToken live now s tok).orders ∧
      ¬ ∃ o ∈ live, o.orderId = i ∧ o.tokenId = tok ∧ s.inflight tok = 0) := by
  unfold applyToken
  split_ifs with hin
  · obtain ⟨o, ho, hid, hget⟩ | ⟨hnot, hget⟩ := replaceOpenOrders_get? s tok
      (live.filter fun o => decide (o.tokenId = tok)) defaultGraceS now i
    · obtain ⟨hlive, htok⟩ := List.mem_filter.1 ho
      exact .inl ⟨⟨o, hget, hid, .inr hlive⟩, o, hlive, hid, by simpa using htok, hin⟩
    · refine .inr ⟨?_, ?_⟩
      · rw [← Dict.get?_eq_none_iff, hget, Dict.get?_eq_none_iff.2 h]; rfl
      · rintro ⟨o, ho, hid, htok, -⟩
        exact hnot (hid ▸ List.mem_map_of_mem (List.mem_filter.2 ⟨ho, by simpa using htok⟩))
  · exact .inr ⟨h, fun ⟨_, _, _, _, h0⟩ => hin h0⟩

@[simp] theorem applyToken_inflight (live : List OpenOrder) (now : ℚ) (s : StateStore)
    (tok k : TokenId) : (applyToken live now s tok).inflight k = s.inflight k := by
  unfold applyToken
  split_ifs <;> rfl

theorem SafelyHeld.mem {live : List OpenOrder} {now : ℚ} {s : StateStore} {i : OrderId}
    (h : SafelyHeld live now s i) : i ∈ s.orders := by
  obtain ⟨o, ho, -, -⟩ := h
  exact Dict.mem_of_get? ho

theorem SafelyHeld.applySnapshot {live : List OpenOrder} {now : ℚ} {s : StateStore} {i : OrderId}
    (h : SafelyHeld live now s i) (m : MarketMeta) :
    SafelyHeld live now (applySnapshot s m live now) i :=
  (h.applyToken m.yes).applyToken m.no

/-- An id that is not tracked is tracked after the application exactly when the snapshot lists
it. -/
theorem mem_applySnapshot_iff {live : List OpenOrder} {now : ℚ} {s : StateStore} {i : OrderId}
    (h : i ∉ s.orders) (m : MarketMeta) :
    i ∈ (applySnapshot s m live now).orders ↔ ListedBySnapshot s m live i := by
  have happly : applySnapshot s m live now =
      applyToken live now (applyToken live now s m.yes) m.no := rfl
  rw [happly]
  obtain ⟨hheld, o, ho, hid, htok, hin⟩ | ⟨hnot, hyes⟩ := applyToken_untracked now h m.yes
  · refine iff_of_true (hheld.applyToken m.no).mem ⟨o, ho, hid, ?_, by rw [htok]; exact hin⟩
    rw [htok]; exact List.mem_cons_self
  · obtain ⟨hheld, o, ho, hid, htok, hin⟩ | ⟨hnot', hno⟩ :=
      applyToken_untracked now hnot m.no
    · rw [applyToken_inflight] at hin
      refine iff_of_true hheld.mem ⟨o, ho, hid, ?_, by rw [htok]; exact hin⟩
      rw [htok]; exact List.mem_cons_of_mem _ List.mem_cons_self
    · refine iff_of_false hnot' ?_
      rintro ⟨o, ho, hid, htok, hin⟩
      simp only [MarketMeta.tokens, List.mem_cons, List.not_mem_nil, or_false] at htok
      rcases htok with htok | htok
      · exact hyes ⟨o, ho, hid, htok, htok ▸ hin⟩
      · exact hno ⟨o, ho, hid, htok, by rw [applyToken_inflight, ← htok]; exact hin⟩

/-! ### The two halves of the guarantee -/

/-- The order `o` of the placement `orders` is not touched again. -/
structure LastTouch (o : OpenOrder) (orders : List OpenOrder) (post : List LocalStep) : Prop where
  mem : o ∈ orders
  live : o.state = .live
  distinct : (orders.map OpenOrder.orderId).Nodup
  untouched : ∀ e ∈ post, o.orderId ∉ e.touches

/-- An order placed since the read and younger than the grace is tracked after the application. -/
def NothingLost (s : StateStore) (m : MarketMeta) (live : List OpenOrder) (es : List LocalStep)
    (now : ℚ) : Prop :=
  ∀ pre orders post o, es = pre ++ .placed orders :: post → LastTouch o orders post →
    now - o.createdTs < defaultGraceS →
    o.orderId ∈ (applySnapshot (Run.run LocalStep.apply s es) m live now).orders

/-- An order removed since the read, and not tracked when the snapshot is applied, is not tracked
afterwards. -/
def NothingResurrected (s : StateStore) (m : MarketMeta) (live : List OpenOrder)
    (es : List LocalStep) (now : ℚ) : Prop :=
  ∀ i ∈ es.flatMap LocalStep.removes, i ∉ (Run.run LocalStep.apply s es).orders →
    i ∉ (applySnapshot (Run.run LocalStep.apply s es) m live now).orders

theorem nothing_lost (s : StateStore) (m : MarketMeta) (live : List OpenOrder)
    (es : List LocalStep) (now : ℚ) : NothingLost s m live es now := by
  rintro pre orders post o rfl ⟨hmem, hl, hnd, hpost⟩ hyoung
  have hget : (Run.run LocalStep.apply s (pre ++ .placed orders :: post)).orders.get? o.orderId =
      some o := by
    rw [Run.run_append, Run.run_cons, run_get?_of_not_touched hpost]
    exact foldl_upsertOrder_get?_of_mem hnd hmem hl
  have hheld : SafelyHeld live now (Run.run LocalStep.apply s (pre ++ .placed orders :: post))
      o.orderId := ⟨o, hget, rfl, .inl hyoung⟩
  exact (hheld.applySnapshot m).mem

/-- **When applying a snapshot is faithful.**  Whatever snapshot was read and whatever happened
since, nothing is lost and nothing is resurrected if and only if no order removed since the read,
and not tracked when the snapshot is applied, is listed by it for a token of the market without
in-flight trades. -/
theorem snapshot_faithful_iff (s : StateStore) (m : MarketMeta) (live : List OpenOrder)
    (es : List LocalStep) (now : ℚ) :
    NothingLost s m live es now ∧ NothingResurrected s m live es now ↔
      ∀ i ∈ es.flatMap LocalStep.removes, i ∉ (Run.run LocalStep.apply s es).orders →
        ¬ ListedBySnapshot (Run.run LocalStep.apply s es) m live i := by
  rw [and_iff_right (nothing_lost s m live es now)]
  constructor
  · intro h i hi hnot hlisted
    exact h i hi hnot ((mem_applySnapshot_iff hnot m).2 hlisted)
  · intro h i hi hnot hin
    exact h i hi hnot ((mem_applySnapshot_iff hnot m).1 hin)

/-- The snapshot is read while an order rests, the quoter's cancel of it is acknowledged, and the
snapshot is applied: the cancelled order is tracked again. -/
theorem resurrected_of_cancel_between :
    let m : MarketMeta := ⟨"c", "yes", "no", 1 / 100, 5, 0, 0, none, none⟩
    let o : OpenOrder := ⟨"o1", "yes", .buy, 1 / 2, 100, .live, 0⟩
    let s := (StateStore.open .fresh).upsertOrder o
    "o1" ∈ (applySnapshot (Run.run LocalStep.apply s [.cancelled ["o1"]]) m [o] 60).orders ∧
      ¬ NothingResurrected s m [o] [.cancelled ["o1"]] 60 := by
  intro m o s
  have hgone : "o1" ∉ (Run.run LocalStep.apply s [.cancelled ["o1"]]).orders := by
    decide +kernel
  have hback : "o1" ∈ (applySnapshot (Run.run LocalStep.apply s [.cancelled ["o1"]]) m [o]
      60).orders := by
    decide +kernel
  exact ⟨hback, fun h => h "o1" (by decide) hgone hback⟩

end Polymaker
