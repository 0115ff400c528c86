import Polymaker.Engine.Recompute
import Polymaker.Engine.Snapshot
import Polymaker.MarketData.Wire

/-!
# Reading the open orders

`ExecutionGateway.open_orders` in live mode: the payload of the client is read row by row, and what
comes out is taken for the whole of what rests on the exchange.

* `firstOf`, `orderOfRow`: one row;
* `openOrders`: the read, `none` where it failed;
* `RowReadable`, `RowOverflows`, `Names`: whether a row can be read, whether reading it raises what
  the loop does not expect, and the order it names;
* `AllOrNothing`: the orders of all rows, or a failed read, which leaves the local orders alone;
* `allOrNothing_iff`: a read is that if and only if all of its rows are readable, or none is, or one
  overflows.
-/

namespace Polymaker

open JsonTree Raising

/-! ### The read -/

/-- `_first`: the first of these members that is there and counts as true. -/
def firstOf (d : List (String × JsonTree)) (keys : List String) : Option JsonTree :=
  keys.findSome? fun k => (d.lookup k).filter truthy

/-- The spellings of the asset of a row. -/
def assetKeys : List String := ["asset_id", "assetId", "token_id", "tokenId", "position_id"]

/-- The spellings of the id of a row. -/
def idKeys : List String := ["id", "orderID", "orderId", "order_id", "hash"]

/-- `r.get("original_size", r.get("size", 0))`. -/
def originalSize (r : List (String × JsonTree)) : JsonTree :=
  (r.lookup "original_size").getD ((r.lookup "size").getD (.int 0))

/-- `r.get("size_matched", 0)`. -/
def sizeMatched (r : List (String × JsonTree)) : JsonTree :=
  (r.lookup "size_matched").getD (.int 0)

/-- The rows of a payload, `none` where it has none. -/
def openOrderRows : JsonTree → Option (List JsonTree)
  | .arr rows => some rows
  | .obj d =>
    match (d.lookup "data").getD ((d.lookup "orders").getD (.arr [])) with
    | .arr rows => some rows
    | _ => none
  | _ => none

section Read

variable (H : Host) (now : ℚ)

/-- The order of a row, `none` where the row has no asset or no id. -/
def orderOfRow : JsonTree → Except Exc (Option OpenOrder)
  | .obj r => do
    let side ← required r "side" >>= fun x => readSide (H.str x)
    let original ← number H (originalSize r)
    let sizeMatched ← number H (sizeMatched r)
    match firstOf r assetKeys, firstOf r idKeys with
    | some asset, some oid => do
      let price ← required r "price" >>= number H
      pure (some
        { orderId := H.str oid
          tokenId := H.str asset
          side
          price
          size := original - sizeMatched
          state := .live
          createdTs := now })
    | _, _ => pure none
  | _ => .error .type

/-- What the loop has found, and how many rows it skipped. -/
structure RowScan where
  out : List OpenOrder
  skipped : ℕ

/-- The body of the loop. -/
def scanRow (scan : RowScan) (row : JsonTree) : Except Exc RowScan := do
  match ← tryExcept parseErrors (orderOfRow H now row) with
  | some (some o) => pure { scan with out := scan.out ++ [o] }
  | _ => pure { scan with skipped := scan.skipped + 1 }

/-- `open_orders` in live mode; there is no payload where the client raised. -/
def openOrders (payload : Option JsonTree) : Option (List OpenOrder) :=
  match payload.bind openOrderRows with
  | none => none
  | some rows =>
    match rows.foldlM (scanRow H now) ⟨[], 0⟩ with
    | .ok scan => if scan.skipped ≠ 0 ∧ scan.out = [] then none else some scan.out
    -- an exception that the loop does not name ends the whole read
    | .error _ => none

end Read

/-- The open-orders half of `_reconcile_loop` for one market: a failed read touches nothing. -/
def reconcileOrders (s : StateStore) (m : MarketMeta) (read : Option (List OpenOrder)) (now : ℚ) :
    StateStore :=
  match read with
  | none => s
  | some live => applySnapshot s m live now

/-! ### What a row says -/

/-- Whether a row has all an order needs: it is an object, and its side, its sizes, its asset, its
id and its price can be read. -/
def RowReadable (H : Host) (row : JsonTree) : Prop :=
  ∃ r, row = .obj r ∧ (∃ x ∈ r.lookup "side", (sideNamed (H.str x)).isSome) ∧
    Readable H (originalSize r) ∧ Readable H (sizeMatched r) ∧ (firstOf r assetKeys).isSome ∧
      (firstOf r idKeys).isSome ∧ Readable H (getMember r "price")

/-- A row that can be read up to a number that is beyond the range of floats. -/
def RowOverflows (H : Host) (row : JsonTree) : Prop :=
  ∃ r, row = .obj r ∧ (∃ x ∈ r.lookup "side", (sideNamed (H.str x)).isSome) ∧
    (Huge (originalSize r) ∨ Readable H (originalSize r) ∧
      (Huge (sizeMatched r) ∨ Readable H (sizeMatched r) ∧ (firstOf r assetKeys).isSome ∧
        (firstOf r idKeys).isSome ∧ Huge (getMember r "price")))

/-- What the members of a row say about an order read at time `now`. -/
structure RowSays (H : Host) (now : ℚ) (r : List (String × JsonTree)) (o : OpenOrder) : Prop where
  orderId : ∃ x, firstOf r idKeys = some x ∧ o.orderId = H.str x
  tokenId : ∃ x, firstOf r assetKeys = some x ∧ o.tokenId = H.str x
  side : ∃ x, r.lookup "side" = some x ∧ sideNamed (H.str x) = some o.side
  price : number H (getMember r "price") = .ok o.price
  size : ∃ x y, number H (originalSize r) = .ok x ∧ number H (sizeMatched r) = .ok y ∧
    o.size = x - y
  state : o.state = .live
  createdTs : o.createdTs = now

/-- The order `o` is the one the row names. -/
def Names (H : Host) (now : ℚ) (row : JsonTree) (o : OpenOrder) : Prop :=
  ∃ r, row = .obj r ∧ RowSays H now r o

section Rows

variable {H : Host} {now : ℚ} {row : JsonTree} {o : OpenOrder}

theorem readSide_eq_ok {text : String} {side : Side} :
    readSide text = .ok side ↔ sideNamed text = some side := by
  unfold readSide
  cases sideNamed text <;> simp

/-- What is read off a row is what the row says. -/
theorem names_of_orderOfRow (h : orderOfRow H now row = .ok (some o)) : Names H now row o := by
  cases row with
  | obj r =>
    simp only [orderOfRow, bind_eq_ok, required_eq_ok, readSide_eq_ok] at h
    obtain ⟨side, ⟨s, hs, hside⟩, x, hx, y, hy, h⟩ := h
    split at h
    · rename_i asset oid hasset hoid
      obtain ⟨price, hprice, h⟩ := bind_eq_ok.1 h
      obtain rfl := Option.some.inj (Except.ok.inj h)
      exact ⟨r, rfl, ⟨oid, hoid, rfl⟩, ⟨asset, hasset, rfl⟩, ⟨s, hs, hside⟩,
        required_bind_number_eq_ok.1 hprice, ⟨x, y, hx, hy, rfl⟩, rfl, rfl⟩
    · cases Except.ok.inj h
  | _ => cases h

/-- An order is read off exactly the readable rows. -/
theorem exists_orderOfRow_iff (now : ℚ) :
    (∃ o, orderOfRow H now row = .ok (some o)) ↔ RowReadable H row := by
  constructor
  · rintro ⟨o, ho⟩
    obtain ⟨r, rfl, hr⟩ := names_of_orderOfRow ho
    obtain ⟨x, hid, -⟩ := hr.orderId
    obtain ⟨a, hasset, -⟩ := hr.tokenId
    obtain ⟨s, hs, hside⟩ := hr.side
    obtain ⟨y, z, hy, hz, -⟩ := hr.size
    exact ⟨r, rfl, ⟨s, hs, by rw [hside]; rfl⟩, readable_iff.2 ⟨y, hy⟩, readable_iff.2 ⟨z, hz⟩,
      by rw [hasset]; rfl, by rw [hid]; rfl, readable_iff.2 ⟨_, hr.price⟩⟩
  · rintro ⟨r, rfl, ⟨s, hs, hside⟩, hx, hy, hasset, hid, hprice⟩
    obtain ⟨side, hside⟩ := Option.isSome_iff_exists.1 hside
    obtain ⟨x, hx⟩ := readable_iff.1 hx
    obtain ⟨y, hy⟩ := readable_iff.1 hy
    obtain ⟨asset, hasset⟩ := Option.isSome_iff_exists.1 hasset
    obtain ⟨oid, hoid⟩ := Option.isSome_iff_exists.1 hid
    obtain ⟨price, hprice⟩ := readable_iff.1 hprice
    rw [← required_bind_number_eq_ok] at hprice
    refine ⟨⟨H.str oid, H.str asset, side, price, x - y, .live, now⟩, ?_⟩
    simp only [orderOfRow, bind_eq_ok, required_eq_ok, readSide_eq_ok]
    refine ⟨side, ⟨s, hs, hside⟩, x, hx, y, hy, ?_⟩
    rw [hasset, hoid]
    exact bind_eq_ok.2 ⟨price, hprice, rfl⟩

/-- An exception that the loop does not name leaves exactly the rows that overflow. -/
theorem escapes_orderOfRow :
    Escapes parseErrors (orderOfRow H now row) ↔ RowOverflows H row := by
  cases row with
  | obj r =>
    have hprice : ∀ original sizeMatched : ℚ, ∀ side : Side, Escapes parseErrors
        (match firstOf r assetKeys, firstOf r idKeys with
        | some asset, some oid => do
          let price ← required r "price" >>= number H
          pure (some (⟨H.str oid, H.str asset, side, price, original - sizeMatched, .live, now⟩ :
            OpenOrder))
        | _, _ => pure none) ↔
        (firstOf r assetKeys).isSome ∧ (firstOf r idKeys).isSome ∧
          Huge (getMember r "price") := by
      intro original sizeMatched side
      cases firstOf r assetKeys with
      | none => simp
      | some asset =>
        cases firstOf r idKeys with
        | none => simp
        | some oid =>
          simp only [Option.isSome_some, true_and]
          rw [escapes_member_bind (P := False) fun v => by simp]
          simp
    unfold RowOverflows
    simp only [orderOfRow, JsonTree.obj.injEq, exists_eq_left']
    rw [bind_assoc]
    refine escapes_required_bind.trans ?_
    rw [← exists_and_right]
    refine exists_congr fun x => ?_
    rw [and_assoc]
    refine and_congr_right fun _ => escapes_readSide_bind fun side => ?_
    exact escapes_float_bind fun original => escapes_float_bind fun sizeMatched =>
      hprice original sizeMatched side
  | _ => simp [orderOfRow, RowOverflows, parseErrors]

/-- The order that is kept of a row, `none` where the row is skipped. -/
def keptOrder (H : Host) (now : ℚ) (row : JsonTree) : Option OpenOrder :=
  (orderOfRow H now row).toOption.join

theorem keptOrder_eq_some {o : OpenOrder} :
    keptOrder H now row = some o ↔ orderOfRow H now row = .ok (some o) := by
  unfold keptOrder
  rcases orderOfRow H now row with e | _ | o' <;> simp [Except.toOption]

theorem keptOrder_eq_none_iff : keptOrder H now row = none ↔ ¬ RowReadable H row := by
  rw [← exists_orderOfRow_iff now, ← Option.not_isSome_iff_eq_none, Option.isSome_iff_exists]
  simp only [keptOrder_eq_some]

instance : Decidable (RowReadable H row) :=
  decidable_of_iff ((keptOrder H 0 row).isSome = true) (by
    rw [Option.isSome_iff_exists, ← exists_orderOfRow_iff 0]
    simp only [keptOrder_eq_some])

end Rows

/-! ### The loop -/

section Loop

variable {H : Host} {now : ℚ} {rows : List JsonTree}

/-- A row of the loop that does not end it. -/
def keepRow (H : Host) (now : ℚ) (scan : RowScan) (row : JsonTree) : RowScan :=
  match keptOrder H now row with
  | some o => { scan with out := scan.out ++ [o] }
  | none => { scan with skipped := scan.skipped + 1 }

theorem scanRow_eq_ok {scan : RowScan} {row : JsonTree} (h : ¬ RowOverflows H row) :
    scanRow H now scan row = .ok (keepRow H now scan row) := by
  unfold scanRow keepRow keptOrder
  rw [tryExcept_of_not_escapes (mt escapes_orderOfRow.1 h)]
  rcases orderOfRow H now row with e | _ | o <;> rfl

/-- The loop keeps the orders of the rows it can read, and counts the others. -/
theorem foldl_keepRow (scan : RowScan) :
    rows.foldl (keepRow H now) scan =
      ⟨scan.out ++ rows.filterMap (keptOrder H now),
        scan.skipped + rows.countP fun row => (keptOrder H now row).isNone⟩ := by
  induction rows generalizing scan with
  | nil => simp
  | cons row rows ih =>
    rw [List.foldl_cons, ih, List.filterMap_cons, List.countP_cons]
    unfold keepRow
    cases keptOrder H now row with
    | none =>
      rw [RowScan.mk.injEq]
      exact ⟨rfl, by simp; omega⟩
    | some o => simp

/-- A row that overflows ends the loop. -/
theorem raises_scanRow {row : JsonTree} (h : RowOverflows H row) (scan : RowScan) :
    Raises (scanRow H now scan row) :=
  raises_bind.2 (.inl (raises_tryExcept.2 (escapes_orderOfRow.2 h)))

theorem openOrders_of_overflow {payload : Option JsonTree}
    (h : payload.bind openOrderRows = some rows) (hover : ∃ row ∈ rows, RowOverflows H row)
    (now : ℚ) : openOrders H now payload = none := by
  obtain ⟨row, hrow, hover⟩ := hover
  have hloop : Raises (rows.foldlM (scanRow H now) ⟨[], 0⟩) :=
    raises_foldlM hrow (raises_scanRow hover) ⟨[], 0⟩
  obtain ⟨e, he⟩ := raises_iff.1 hloop
  unfold openOrders
  simp only [h, he]

theorem openOrders_of_rows {payload : Option JsonTree} (h : payload.bind openOrderRows = some rows)
    (hover : ∀ row ∈ rows, ¬ RowOverflows H row) (now : ℚ) :
    openOrders H now payload =
      if (∃ row ∈ rows, ¬ RowReadable H row) ∧ ∀ row ∈ rows, ¬ RowReadable H row then none
      else some (rows.filterMap (keptOrder H now)) := by
  have hskipped : rows.countP (fun row => (keptOrder H now row).isNone) ≠ 0 ↔
      ∃ row ∈ rows, ¬ RowReadable H row := by
    rw [← Nat.pos_iff_ne_zero, List.countP_pos_iff]
    simp only [Option.isNone_iff_eq_none, keptOrder_eq_none_iff]
  have hout : rows.filterMap (keptOrder H now) = [] ↔ ∀ row ∈ rows, ¬ RowReadable H row := by
    rw [List.filterMap_eq_nil_iff]
    simp only [keptOrder_eq_none_iff]
  unfold openOrders
  simp only [h, foldlM_eq_ok fun scan row hrow => scanRow_eq_ok (hover row hrow), foldl_keepRow,
    List.nil_append, Nat.zero_add, hskipped, hout]

theorem forall₂_filterMap (h : ∀ row ∈ rows, RowReadable H row) :
    List.Forall₂ (Names H now) rows (rows.filterMap (keptOrder H now)) := by
  induction rows with
  | nil => exact .nil
  | cons row rows ih =>
    obtain ⟨hrow, hrows⟩ := List.forall_mem_cons.1 h
    obtain ⟨o, ho⟩ := (exists_orderOfRow_iff now).2 hrow
    rw [List.filterMap_cons, keptOrder_eq_some.2 ho]
    exact .cons (names_of_orderOfRow ho) (ih hrows)

end Loop

/-! ### All or nothing -/

/-- The read of a payload that has rows gives the order of every row, one for each, or fails.  It
fails where a row cannot be read, and then neither a resync nor the reconcile loop touches the local
orders. -/
structure AllOrNothing (H : Host) (payload : Option JsonTree) (rows : List JsonTree) (now : ℚ) :
    Prop where
  complete : ∀ orders, openOrders H now payload = some orders →
    List.Forall₂ (Names H now) rows orders
  refused : (∃ row ∈ rows, ¬ RowReadable H row) → openOrders H now payload = none
  kept : (∃ row ∈ rows, ¬ RowReadable H row) → ∀ (s : StateStore) (m : MarketMeta) (graceS t : ℚ),
    refreshTokenOrders s m (openOrders H now payload) graceS t = s ∧
      reconcileOrders s m (openOrders H now payload) t = s

/-- A failed read leaves the local orders alone, whatever the payload was. -/
theorem AllOrNothing.of_failed {H : Host} {payload : Option JsonTree} {rows : List JsonTree}
    {now : ℚ} (h : openOrders H now payload = none) : AllOrNothing H payload rows now where
  complete orders horders := by
    rw [h] at horders
    cases horders
  refused _ := h
  kept _ s m graceS t := by
    rw [h]
    exact ⟨rfl, rfl⟩

/-- **When a read is all or nothing.**  A payload with rows is read so if and only if all of them
can be read, or none can, or one of them overflows, which ends the read. -/
theorem allOrNothing_iff (H : Host) (payload : Option JsonTree) (now : ℚ) :
    (∀ rows, payload.bind openOrderRows = some rows → AllOrNothing H payload rows now) ↔
      ∀ rows, payload.bind openOrderRows = some rows →
        (∀ row ∈ rows, RowReadable H row) ∨ (∀ row ∈ rows, ¬ RowReadable H row) ∨
          ∃ row ∈ rows, RowOverflows H row := by
  refine forall_congr' fun rows => forall_congr' fun hrows => ?_
  by_cases hover : ∃ row ∈ rows, RowOverflows H row
  · exact iff_of_true (.of_failed (openOrders_of_overflow hrows hover now)) (.inr (.inr hover))
  rw [or_iff_left hover]
  have hread := openOrders_of_rows hrows (fun row hrow h => hover ⟨row, hrow, h⟩) now
  by_cases hbad : ∃ row ∈ rows, ¬ RowReadable H row
  · rw [or_iff_right fun hall => hbad.elim fun row h => h.2 (hall row h.1)]
    constructor
    · intro h row hrow hgood
      -- a row that can be read is kept, while the read should have failed
      have hsome : openOrders H now payload = some (rows.filterMap (keptOrder H now)) :=
        hread.trans (if_neg fun hnone => hnone.2 row hrow hgood)
      rw [h.refused hbad] at hsome
      cases hsome
    · exact fun hnone => .of_failed (hread.trans (if_pos ⟨hbad, hnone⟩))
  · refine iff_of_true ⟨fun orders horders => ?_, fun h => absurd h hbad, fun h => absurd h hbad⟩
      (.inl fun row hrow => by_contra fun h => hbad ⟨row, hrow, h⟩)
    rw [hread, if_neg fun h => hbad h.1] at horders
    obtain rfl := Option.some.inj horders
    exact forall₂_filterMap fun row hrow => by_contra fun hnot => hbad ⟨row, hrow, hnot⟩

/-- A market with orders `o1` and `o2` resting, and a payload that lists both, the second with a
side nobody knows: the read gives the first alone, and the reconcile loop drops the second. -/
theorem live_order_dropped :
    let H : Host := ⟨fun _ => none, fun _ => ""⟩
    let m : MarketMeta := ⟨"c", "yes", "no", 1 / 100, 5, 0, 0, none, none⟩
    let row (oid side : String) : JsonTree := .obj [("id", .str oid), ("asset_id", .str "yes"),
      ("side", .str side), ("price", .float (1 / 2)), ("original_size", .int 100)]
    let payload : Option JsonTree := some (.arr [row "o1" "BUY", row "o2" "NOPE"])
    let o (oid : OrderId) : OpenOrder := ⟨oid, "yes", .buy, 1 / 2, 100, .live, 0⟩
    let s := [o "o1", o "o2"].foldl StateStore.upsertOrder (StateStore.open .fresh)
    openOrders H 60 payload = some [{ o "o1" with createdTs := 60 }] ∧
      "o2" ∉ (reconcileOrders s m (openOrders H 60 payload) 60).orders ∧
      ¬ ∀ rows, payload.bind openOrderRows = some rows → AllOrNothing H payload rows 60 := by
  intro H m row payload o s
  have hread : openOrders H 60 payload = some [{ o "o1" with createdTs := 60 }] := by
    decide +kernel
  refine ⟨hread, by decide +kernel, fun h => ?_⟩
  have hbad : ¬ RowReadable H (row "o2" "NOPE") := by decide +kernel
  have hnone := (h _ rfl).refused ⟨_, List.mem_cons_of_mem _ List.mem_cons_self, hbad⟩
  rw [hread] at hnone
  cases hnone

end Polymaker
