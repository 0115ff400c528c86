import Polymaker.State.Store

/-!
# The local order state

How the orders of the store change when a list of them is removed or stored.

* `Keyed`: every order is stored under its own id, which each operation keeps;
* `foldl_removeOrder_get?`, `foldl_upsertOrder_get?_of_mem`: lookup after a list of operations;
* `ordersFor_foldl_removeOrder`, `ordersFor_foldl_upsertOrder`: the orders of a token after it.
-/

namespace Polymaker

/-- Every order is stored under its own id. -/
def StateStore.Keyed (s : StateStore) : Prop :=
  ∀ i o, s.orders.get? i = some o → o.orderId = i

theorem keyed_open (db : Db) : (StateStore.open db).Keyed := by
  intro i o h
  simp [StateStore.open] at h

theorem mem_ordersFor {s : StateStore} {tok : TokenId} {o : OpenOrder} :
    o ∈ s.ordersFor tok ↔ (∃ i, s.orders.get? i = some o) ∧ o.tokenId = tok := by
  unfold StateStore.ordersFor
  rw [List.mem_filter, Dict.mem_values_iff, decide_eq_true_eq]

/-- Under `Keyed` an order is looked up under its id. -/
theorem StateStore.Keyed.get?_of_mem {s : StateStore} (h : s.Keyed) {tok : TokenId} {o : OpenOrder}
    (ho : o ∈ s.ordersFor tok) : s.orders.get? o.orderId = some o := by
  obtain ⟨⟨i, hi⟩, -⟩ := mem_ordersFor.1 ho
  rw [h i o hi, hi]

/-- Under `Keyed` the orders of a token have distinct ids. -/
theorem StateStore.Keyed.nodup_ordersFor {s : StateStore} (h : s.Keyed) (tok : TokenId) :
    ((s.ordersFor tok).map OpenOrder.orderId).Nodup := by
  have hids : s.orders.values.map OpenOrder.orderId = s.orders.entries.map Prod.fst := by
    unfold Dict.values
    rw [List.map_map]
    exact List.map_congr_left fun e he => h e.1 e.2 (Dict.mem_entries_iff.1 he)
  have hnd := s.orders.nodup
  rw [← hids] at hnd
  exact hnd.sublist (List.filter_sublist.map _)

/-- A snapshot leaves the orders it lists and orders that were there. -/
theorem mem_or_get?_of_replaceOpenOrders {s : StateStore} {tok : TokenId} {live : List OpenOrder}
    {graceS now : ℚ} {i : OrderId} {o : OpenOrder}
    (h : (s.replaceOpenOrders tok live graceS now).orders.get? i = some o) :
    (o ∈ live ∧ o.orderId = i) ∨ s.orders.get? i = some o := by
  obtain ⟨o', hmem, hid, hsome⟩ | ⟨-, hfilter⟩ := replaceOpenOrders_get? s tok live graceS now i
  · rw [hsome] at h
    obtain rfl := Option.some.inj h
    exact .inl ⟨hmem, hid⟩
  · rw [hfilter] at h
    exact .inr (Option.filter_eq_some_iff.1 h).1

theorem StateStore.Keyed.replaceOpenOrders {s : StateStore} (h : s.Keyed) (tok : TokenId)
    (live : List OpenOrder) (graceS now : ℚ) :
    (s.replaceOpenOrders tok live graceS now).Keyed := by
  intro i o ho
  rcases mem_or_get?_of_replaceOpenOrders ho with ⟨-, hid⟩ | hold
  · exact hid
  · exact h i o hold

/-! ### Removing a list of orders -/

theorem foldl_removeOrder_get? (ids : List OrderId) (s : StateStore) (i : OrderId) :
    (ids.foldl StateStore.removeOrder s).orders.get? i =
      if i ∈ ids then none else s.orders.get? i := by
  induction ids generalizing s with
  | nil => simp
  | cons j ids ih =>
    rw [List.foldl_cons, ih, removeOrder_get?]
    by_cases hj : i = j <;> by_cases hi : i ∈ ids <;> simp [hj, hi]

theorem mem_foldl_removeOrder {ids : List OrderId} {s : StateStore} {i : OrderId} :
    i ∈ (ids.foldl StateStore.removeOrder s).orders ↔ i ∉ ids ∧ i ∈ s.orders := by
  rw [Dict.mem_iff_isSome, foldl_removeOrder_get?, Dict.mem_iff_isSome]
  split_ifs with h <;> simp [h]

theorem entries_foldl_removeOrder (ids : List OrderId) (s : StateStore) :
    (ids.foldl StateStore.removeOrder s).orders.entries =
      s.orders.entries.filter fun e => decide (e.1 ∉ ids) := by
  induction ids generalizing s with
  | nil => simp
  | cons j ids ih =>
    rw [List.foldl_cons, ih]
    show List.filter _ (List.filter _ _) = _
    rw [List.filter_filter]
    refine List.filter_congr fun e _ => ?_
    simp only [List.mem_cons, not_or, decide_not]
    rw [Bool.and_comm, Bool.decide_and, decide_not, decide_not]

theorem StateStore.Keyed.foldl_removeOrder {s : StateStore} (h : s.Keyed) (ids : List OrderId) :
    (ids.foldl StateStore.removeOrder s).Keyed := by
  intro i o hget
  rw [foldl_removeOrder_get?] at hget
  split_ifs at hget
  exact h i o hget

/-- The orders, without those removed. -/
theorem values_foldl_removeOrder {s : StateStore} (h : s.Keyed) (ids : List OrderId) :
    (ids.foldl StateStore.removeOrder s).orders.values =
      s.orders.values.filter fun o => decide (o.orderId ∉ ids) := by
  unfold Dict.values
  rw [entries_foldl_removeOrder, List.filter_map]
  congr 1
  refine List.filter_congr fun e he => ?_
  rw [Function.comp_apply, h e.1 e.2 (Dict.mem_entries_iff.1 he)]

/-- The orders of a token, without those removed. -/
theorem ordersFor_foldl_removeOrder {s : StateStore} (h : s.Keyed) (ids : List OrderId)
    (tok : TokenId) :
    (ids.foldl StateStore.removeOrder s).ordersFor tok =
      (s.ordersFor tok).filter fun o => decide (o.orderId ∉ ids) := by
  unfold StateStore.ordersFor
  rw [values_foldl_removeOrder h, List.filter_filter, List.filter_filter]
  exact List.filter_congr fun o _ => Bool.and_comm _ _

/-- Removing orders leaves everything but the orders alone. -/
theorem foldl_removeOrder_positions (ids : List OrderId) (s : StateStore) :
    (ids.foldl StateStore.removeOrder s).positions = s.positions := by
  induction ids generalizing s with
  | nil => rfl
  | cons j ids ih => rw [List.foldl_cons, ih]; rfl

/-! ### Storing a list of orders -/

theorem upsertOrder_of_live (s : StateStore) {o : OpenOrder} (h : o.state = .live) :
    s.upsertOrder o = { s with orders := s.orders.set o.orderId o } := by
  unfold StateStore.upsertOrder
  rw [h]

theorem StateStore.Keyed.upsertOrder {s : StateStore} (h : s.Keyed) (o : OpenOrder) :
    (s.upsertOrder o).Keyed := by
  have herase : StateStore.Keyed { s with orders := s.orders.erase o.orderId } := by
    intro i o' hget
    simp only [Dict.get?_erase] at hget
    split_ifs at hget
    exact h i o' hget
  have hset : StateStore.Keyed { s with orders := s.orders.set o.orderId o } := by
    intro i o' hget
    simp only [Dict.get?_set] at hget
    split_ifs at hget with hi
    · rw [← Option.some.inj hget, hi]
    · exact h i o' hget
  unfold StateStore.upsertOrder
  split <;> assumption

theorem StateStore.Keyed.foldl_upsertOrder {s : StateStore} (h : s.Keyed)
    (orders : List OpenOrder) : (orders.foldl StateStore.upsertOrder s).Keyed := by
  induction orders generalizing s with
  | nil => exact h
  | cons o orders ih => exact ih (h.upsertOrder o)

theorem foldl_upsertOrder_get?_of_not_mem {orders : List OpenOrder} {s : StateStore} {i : OrderId}
    (h : i ∉ orders.map OpenOrder.orderId) :
    (orders.foldl StateStore.upsertOrder s).orders.get? i = s.orders.get? i := by
  induction orders generalizing s with
  | nil => rfl
  | cons o orders ih =>
    rw [List.map_cons, List.mem_cons, not_or] at h
    rw [List.foldl_cons, ih h.2, upsertOrder_get?_of_ne s h.1]

theorem foldl_upsertOrder_get?_of_mem {orders : List OpenOrder} {s : StateStore} {o : OpenOrder}
    (hnd : (orders.map OpenOrder.orderId).Nodup) (ho : o ∈ orders) (hl : o.state = .live) :
    (orders.foldl StateStore.upsertOrder s).orders.get? o.orderId = some o := by
  induction orders generalizing s with
  | nil => exact absurd ho List.not_mem_nil
  | cons q orders ih =>
    rw [List.map_cons, List.nodup_cons] at hnd
    rw [List.foldl_cons]
    rcases List.mem_cons.1 ho with rfl | ho
    · rw [foldl_upsertOrder_get?_of_not_mem hnd.1, upsertOrder_get?_of_live s hl]
    · exact ih hnd.2 ho

/-- Live orders are all stored, and nothing leaves. -/
theorem mem_foldl_upsertOrder {orders : List OpenOrder} (hl : ∀ o ∈ orders, o.state = .live)
    {s : StateStore} {i : OrderId} :
    i ∈ (orders.foldl StateStore.upsertOrder s).orders ↔
      i ∈ orders.map OpenOrder.orderId ∨ i ∈ s.orders := by
  induction orders generalizing s with
  | nil => simp
  | cons o orders ih =>
    obtain ⟨ho, hl⟩ := List.forall_mem_cons.1 hl
    rw [List.foldl_cons, ih hl, upsertOrder_of_live s ho, Dict.mem_set, List.map_cons,
      List.mem_cons]
    exact or_left_comm.trans or_assoc.symm

/-- Fresh live orders are appended. -/
theorem entries_foldl_upsertOrder {orders : List OpenOrder} (hl : ∀ o ∈ orders, o.state = .live)
    (hnd : (orders.map OpenOrder.orderId).Nodup) {s : StateStore}
    (hfresh : ∀ o ∈ orders, o.orderId ∉ s.orders) :
    (orders.foldl StateStore.upsertOrder s).orders.entries =
      s.orders.entries ++ orders.map fun o => (o.orderId, o) := by
  induction orders generalizing s with
  | nil => simp
  | cons o orders ih =>
    obtain ⟨ho, hl⟩ := List.forall_mem_cons.1 hl
    obtain ⟨hnew, hfresh⟩ := List.forall_mem_cons.1 hfresh
    rw [List.map_cons, List.nodup_cons] at hnd
    rw [List.foldl_cons, upsertOrder_of_live s ho, ih hl hnd.2, Dict.entries_set_of_not_mem hnew,
      List.append_assoc, List.singleton_append, List.map_cons]
    intro o' ho' hin
    rcases Dict.mem_set.1 hin with heq | hin
    · exact hnd.1 (heq ▸ List.mem_map_of_mem ho')
    · exact hfresh o' ho' hin

/-- The orders, followed by those just stored. -/
theorem values_foldl_upsertOrder {orders : List OpenOrder} (hl : ∀ o ∈ orders, o.state = .live)
    (hnd : (orders.map OpenOrder.orderId).Nodup) {s : StateStore}
    (hfresh : ∀ o ∈ orders, o.orderId ∉ s.orders) :
    (orders.foldl StateStore.upsertOrder s).orders.values = s.orders.values ++ orders := by
  unfold Dict.values
  rw [entries_foldl_upsertOrder hl hnd hfresh, List.map_append, List.map_map]
  congr 1
  exact List.map_id orders

/-- The orders of a token, followed by those just stored. -/
theorem ordersFor_foldl_upsertOrder {orders : List OpenOrder} (hl : ∀ o ∈ orders, o.state = .live)
    (hnd : (orders.map OpenOrder.orderId).Nodup) {s : StateStore}
    (hfresh : ∀ o ∈ orders, o.orderId ∉ s.orders) (tok : TokenId) :
    (orders.foldl StateStore.upsertOrder s).ordersFor tok =
      s.ordersFor tok ++ orders.filter fun o => decide (o.tokenId = tok) := by
  unfold StateStore.ordersFor
  rw [values_foldl_upsertOrder hl hnd hfresh, List.filter_append]

theorem foldl_upsertOrder_positions (orders : List OpenOrder) (s : StateStore) :
    (orders.foldl StateStore.upsertOrder s).positions = s.positions := by
  induction orders generalizing s with
  | nil => rfl
  | cons o orders ih =>
    rw [List.foldl_cons, ih]
    unfold StateStore.upsertOrder
    split <;> rfl

end Polymaker
