import Mathlib.Tactic.Ring
import Mathlib.Tactic.Linarith
import Polymaker.Lib.Dict
import Polymaker.Domain

/-!
# The state store

`StateStore` of `state/store.py`: the owner of positions and open orders, mirrored to SQLite.

* `Db`: the tables that are read back, `positions` and `fills`; a value of `Db` is what the
  commits have made durable;
* `StateStore`: the database and the maps kept in memory.  `open` builds a store from a database
  alone, so `open s.db` is the store after a restart;
* `applyFill`, `markFillSettled`, `reverseFill`: the fill side;
* `markInflight`, `clearInflight`, `inflight`: the per-token guard;
* `ordersFor`, `upsertOrder`, `removeOrder`, `replaceOpenOrders`: the local order state.

A function that reads the clock takes the time it reads as an argument.  SQL statements are taken
to succeed.
-/

namespace Polymaker

/-! ### The database -/

/-- The `status` column of `fills`: `MATCHED` by default, `CONFIRMED` once settled. -/
inductive FillStatus
  | matched
  | confirmed
  deriving DecidableEq, Repr

/-- A row of `fills` under its primary key, the trade id. -/
structure FillRow where
  tokenId : TokenId
  side : Side
  price : ℚ
  size : ℚ
  isMaker : Bool
  ts : ℚ
  status : FillStatus
  deriving DecidableEq, Repr

/-- The row a fill is inserted as. -/
def Fill.row (f : Fill) : FillRow := ⟨f.tokenId, f.side, f.price, f.size, f.isMaker, f.ts, .matched⟩

/-- The fill that `reverse_fill` reads back from a row. -/
def FillRow.fill (r : FillRow) (t : TradeId) : Fill :=
  ⟨r.tokenId, r.side, r.price, r.size, t, r.ts, true⟩

@[simp] theorem FillRow.fill_tradeId (r : FillRow) (t : TradeId) : (r.fill t).tradeId = t := rfl

@[simp] theorem FillRow.fill_tokenId (r : FillRow) (t : TradeId) :
    (r.fill t).tokenId = r.tokenId := rfl

/-- The durable tables. -/
structure Db where
  positions : Dict TokenId Position
  fills : Dict TradeId FillRow
  deriving DecidableEq

/-- A database no fill was ever recorded in. -/
def Db.fresh : Db := ⟨Dict.empty, Dict.empty⟩

/-- `_persist_position`: one `INSERT OR REPLACE`, committed. -/
def Db.persistPosition (db : Db) (tok : TokenId) (pos : Position) : Db :=
  { db with positions := db.positions.replace tok pos }

/-- The `INSERT` of a new fill, committed. -/
def Db.insertFill (db : Db) (f : Fill) : Db :=
  { db with fills := db.fills.set f.tradeId f.row }

/-! ### The store -/

/-- The store: the database and what is held in memory beside it. -/
structure StateStore where
  db : Db
  positions : Dict TokenId Position
  orders : Dict OrderId OpenOrder
  inflightCount : Dict TokenId ℕ
  inflightTs : Dict TokenId ℚ
  lastFillTs : Dict TokenId ℚ
  deriving DecidableEq

/-- `__init__` and `_load`: only the rows of positive size become positions. -/
def StateStore.open (db : Db) : StateStore :=
  { db
    positions := db.positions.filter fun _ pos => decide (0 < pos.size)
    orders := Dict.empty
    inflightCount := Dict.empty
    inflightTs := Dict.empty
    lastFillTs := Dict.empty }

/-- The position of a token, flat when it is not tracked. -/
def StateStore.position (s : StateStore) (tok : TokenId) : Position :=
  s.positions.getD tok Position.flat

/-! ### Fills -/

/-- The body of `apply_fill` on one position: the size moves by the signed size but not below
zero, a purchase averages the price in, and a flat position has no price. -/
def Position.apply (pos : Position) (f : Fill) : Position :=
  let avgPrice := match f.side with
    | .buy =>
      if pos.size ≤ 0 then f.price
      else (pos.avgPrice * pos.size + f.price * f.size) / (pos.size + f.size)
    | .sell => pos.avgPrice
  let size := max 0 (pos.size + f.signed)
  ⟨size, if size ≤ 0 then 0 else avgPrice⟩

@[simp] theorem Position.apply_size (pos : Position) (f : Fill) :
    (pos.apply f).size = max 0 (pos.size + f.signed) := rfl

theorem Position.apply_size_nonneg (pos : Position) (f : Fill) : 0 ≤ (pos.apply f).size :=
  le_max_left _ _

/-- A flat position left by a fill has no average price. -/
theorem Position.apply_eq_flat {pos : Position} {f : Fill} (h : (pos.apply f).size ≤ 0) :
    pos.apply f = Position.flat := by
  have h0 : (pos.apply f).size = 0 := le_antisymm h (pos.apply_size_nonneg f)
  ext
  · exact h0
  · rw [Position.apply_size] at h0
    simp [Position.apply, Position.flat, h0]

/-- The part of `apply_fill` between its two commits: the position moves in memory. -/
def StateStore.moveInventory (s : StateStore) (f : Fill) : StateStore :=
  { s with
    positions := s.positions.set f.tokenId ((s.position f.tokenId).apply f)
    lastFillTs := s.lastFillTs.set f.tokenId f.ts }

/-- A fill whose trade id is new: its row is committed, the position moves, the position is
committed. -/
def StateStore.recordFill (s : StateStore) (f : Fill) : StateStore :=
  let s' := StateStore.moveInventory { s with db := s.db.insertFill f } f
  { s' with db := s'.db.persistPosition f.tokenId (s'.position f.tokenId) }

/-- `apply_fill`: the primary key of `fills` decides whether the fill is new; `false` for a
duplicate, which changes nothing. -/
def StateStore.applyFill (s : StateStore) (f : Fill) : StateStore × Bool :=
  if f.tradeId ∈ s.db.fills then (s, false) else (s.recordFill f, true)

/-- `mark_fill_settled`. -/
def StateStore.markFillSettled (s : StateStore) (t : TradeId) : StateStore :=
  match s.db.fills.get? t with
  | none => s
  | some r => { s with db := { s.db with fills := s.db.fills.set t { r with status := .confirmed } } }

/-- `reverse_fill`: undo a persisted fill that never settled, and return it. -/
def StateStore.reverseFill (s : StateStore) (t : TradeId) : StateStore × Option Fill :=
  if reverseId t ∈ s.db.fills then (s, none)
  else
    match s.db.fills.get? t with
    | none => (s, none)
    | some r =>
      match r.status with
      | .confirmed => (s, none)
      | .matched =>
        match s.applyFill (r.fill t).reversed with
        | (s', true) => (s', some (r.fill t))
        | (s', false) => (s', none)

/-! ### The in-flight guard -/

/-- `inflight`. -/
def StateStore.inflight (s : StateStore) (tok : TokenId) : ℕ := s.inflightCount.getD tok 0

/-- `mark_inflight` at time `now`. -/
def StateStore.markInflight (s : StateStore) (tok : TokenId) (now : ℚ) : StateStore :=
  { s with
    inflightCount := s.inflightCount.set tok (s.inflight tok + 1)
    inflightTs := if tok ∈ s.inflightTs then s.inflightTs else s.inflightTs.set tok now }

/-- `clear_inflight`. -/
def StateStore.clearInflight (s : StateStore) (tok : TokenId) : StateStore :=
  let counts :=
    if 0 < s.inflight tok then s.inflightCount.set tok (s.inflight tok - 1) else s.inflightCount
  { s with
    inflightCount := counts
    inflightTs := if counts.getD tok 0 = 0 then s.inflightTs.erase tok else s.inflightTs }

/-! ### Orders -/

/-- `orders_for`. -/
def StateStore.ordersFor (s : StateStore) (tok : TokenId) : List OpenOrder :=
  s.orders.values.filter fun o => decide (o.tokenId = tok)

/-- `upsert_order`: an order in a final state leaves, any other is stored under its id. -/
def StateStore.upsertOrder (s : StateStore) (o : OpenOrder) : StateStore :=
  match o.state with
  | .canceled | .done | .rejected => { s with orders := s.orders.erase o.orderId }
  | _ => { s with orders := s.orders.set o.orderId o }

/-- `remove_order`. -/
def StateStore.removeOrder (s : StateStore) (id : OrderId) : StateStore :=
  { s with orders := s.orders.erase id }

/-- `replace_open_orders` at time `now`: the orders of the token that the snapshot `live` does not
list leave unless they are younger than the grace, and those it lists are stored. -/
def StateStore.replaceOpenOrders (s : StateStore) (tok : TokenId) (live : List OpenOrder)
    (graceS now : ℚ) : StateStore :=
  let kept := s.orders.filter fun _ o =>
    decide (o.tokenId ≠ tok ∨ o.orderId ∈ live.map OpenOrder.orderId ∨ now - o.createdTs < graceS)
  { s with orders := live.foldl (fun d o => d.set o.orderId o) kept }

/-! ### Lookup of orders -/

@[simp] theorem removeOrder_get? (s : StateStore) (i j : OrderId) :
    (s.removeOrder i).orders.get? j = if j = i then none else s.orders.get? j :=
  Dict.get?_erase _ _ _

/-- An upsert touches one id. -/
theorem upsertOrder_get?_of_ne (s : StateStore) {o : OpenOrder} {i : OrderId} (h : i ≠ o.orderId) :
    (s.upsertOrder o).orders.get? i = s.orders.get? i := by
  unfold StateStore.upsertOrder
  split <;> simp [h]

theorem upsertOrder_get?_of_live (s : StateStore) {o : OpenOrder} (h : o.state = .live) :
    (s.upsertOrder o).orders.get? o.orderId = some o := by
  unfold StateStore.upsertOrder
  simp [h]

/-- Storing a list of orders: an id ends with an order of the list, or keeps what it had. -/
theorem get?_foldl_set (l : List OpenOrder) (d : Dict OrderId OpenOrder) (i : OrderId) :
    (∃ o ∈ l, o.orderId = i ∧ (l.foldl (fun d o => d.set o.orderId o) d).get? i = some o) ∨
    (i ∉ l.map OpenOrder.orderId ∧
      (l.foldl (fun d o => d.set o.orderId o) d).get? i = d.get? i) := by
  induction l generalizing d with
  | nil => exact .inr ⟨List.not_mem_nil, rfl⟩
  | cons o l ih =>
    rw [List.foldl_cons]
    obtain ⟨o', ho', hid, hget⟩ | ⟨hnot, hget⟩ := ih (d.set o.orderId o)
    · exact .inl ⟨o', List.mem_cons_of_mem _ ho', hid, hget⟩
    · by_cases hi : i = o.orderId
      · refine .inl ⟨o, List.mem_cons_self, hi.symm, ?_⟩
        rw [hget, Dict.get?_set, if_pos hi]
      · refine .inr ⟨?_, ?_⟩
        · rw [List.map_cons, List.mem_cons, not_or]; exact ⟨hi, hnot⟩
        · rw [hget, Dict.get?_set, if_neg hi]

/-- After a snapshot an id holds an order the snapshot lists, or the order it held if that was
kept. -/
theorem replaceOpenOrders_get? (s : StateStore) (tok : TokenId) (live : List OpenOrder)
    (graceS now : ℚ) (i : OrderId) :
    (∃ o ∈ live, o.orderId = i ∧
      (s.replaceOpenOrders tok live graceS now).orders.get? i = some o) ∨
    (i ∉ live.map OpenOrder.orderId ∧
      (s.replaceOpenOrders tok live graceS now).orders.get? i =
        (s.orders.get? i).filter fun o =>
          decide (o.tokenId ≠ tok ∨ o.orderId ∈ live.map OpenOrder.orderId ∨
            now - o.createdTs < graceS)) := by
  obtain h | ⟨hnot, hget⟩ := get?_foldl_set live (s.orders.filter fun _ o =>
    decide (o.tokenId ≠ tok ∨ o.orderId ∈ live.map OpenOrder.orderId ∨
      now - o.createdTs < graceS)) i
  · exact .inl h
  · exact .inr ⟨hnot, hget.trans (Dict.get?_filter _ _ _)⟩

end Polymaker
