import Polymaker.Lib.Paging
import Polymaker.Lib.Reading
import Polymaker.State.Positions

/-!
# Reading the positions

`ExecutionGateway.positions`: the pages of the data service are read one after the other, up to a
limit, and what comes out is taken for everything the funder holds.

* `positionOfRow`, `readPage`, `positions`: the read;
* `IsPage`, `RowListed`, `RowHolds`: a page as the service means it, and what a row of it says;
* `RowCounts`: a row that the code counts, as it does where the size is no number;
* `CompleteRead`: a listing read to its end, every row of it, and nothing else;
* `Accepted`: the pages the code goes on from, whatever rows it passed over on them;
* `RowsAreObject`, `RowsOverflow`: the answers on which an exception leaves the read;
* `completeOrRefused_iff`: what comes out is a complete read, or a refusal, if and only if every row
  on the pages of an accepted listing can be read, and no page asked for is one of these.
-/

namespace Polymaker

open JsonTree Raising

/-! ### The read -/

/-- `_MAX_POSITION_PAGES`. -/
def maxPositionPages : ℕ := 50

/-- How a read of the positions ends without them: it returns `None`, or an exception leaves it. -/
inductive PositionsFailure
  | refused
  | raised
  deriving DecidableEq, Repr

/-- What `positions` returns: for each token its size and its average price. -/
abbrev Holdings (F : Type := ℚ) := Dict TokenId (F × F)

section Read

variable {F : Type} [HostFloat F] (H : Host F)

/-- `_as_float`: `none` for what is no number; a number beyond the range of floats raises. -/
def asFloat (x : JsonTree F) : Except Exc (Option F) := tryExcept [.type, .value] (number H x)

/-- The size of a row that counts: it has a token and a size that is not zero or less. -/
def countedSize : JsonTree F → Option F → Option F
  | .null, _ => none
  | _, none => none
  | _, some size => if HostFloat.le size (HostFloat.ofRat 0) then none else some size

/-- A row that counts, as an entry of the result; `none` where the row is passed over. -/
def positionOfRow : JsonTree F → Except Exc (Option (TokenId × F × F))
  | .obj p => do
    let tok := getMember p "token_id"
    let size ← asFloat H (getMember p "current_size")
    match countedSize tok size with
    | none => pure none
    | some size => do
      let avg ← asFloat H (getMember p "avg_price")
      pure (some (H.str tok, size, avg.getD (HostFloat.ofRat 0)))
  | _ => pure none

/-- One row: the result, and `parsed_here`. -/
def scanPosition (acc : Holdings F × ℕ) (row : JsonTree F) : Except Exc (Holdings F × ℕ) := do
  match ← positionOfRow H row with
  | some (tok, held) => pure (acc.1.set tok held, acc.2 + 1)
  | none => pure acc

/-- The body of the loop over the pages, with the result so far: the result after the page, and
whether its cursor asks for another one.  A request or a decoding that fails is `none`; a row may
raise what is not handled, and so does the sample of an unparsed page, `rows[0]`, where the rows are
an object. -/
def readPage (out : Holdings F) (payload : Option (JsonTree F)) :
    Except PositionsFailure (Holdings F × Bool) :=
  match payload with
  | some (.obj d) =>
    match (getMember d "data").items with
    | none => .error .refused
    | some rows =>
      match rows.foldlM (scanPosition H) (out, 0) with
      | .error _ => .error .raised
      | .ok scan =>
        if (getMember d "data").truthy ∧ scan.2 = 0 then
          match getMember d "data" with
          | .obj _ => .error .raised
          | _ => .error .refused
        else
          match getMember d "pagination" with
          | .obj page => .ok (scan.1, (getMember page "next_cursor").truthy)
          | _ => .error .refused
  | _ => .error .refused

/-- `positions`, for the pages the service answers in turn. -/
def positions (funder : String) (serve : ℕ → Option (JsonTree F)) :
    Except PositionsFailure (Holdings F) :=
  if ¬ "0x".toList <+: funder.toList ∨ funder = "0xPAPER" then .error .refused
  else Paging.read (readPage H) .refused serve maxPositionPages 0 Dict.empty

end Read

/-! ### What the service says -/

section Says

variable {F : Type} [HostFloat F]

/-- A page: its rows, and whether there is another one. -/
def IsPage (payload : Option (JsonTree F)) (rows : List (JsonTree F)) (more : Bool) : Prop :=
  ∃ d page, payload = some (.obj d) ∧ (getMember d "data").items = some rows ∧
    getMember d "pagination" = .obj page ∧ more = (getMember page "next_cursor").truthy

variable (H : Host F)

/-- A row that can be read: an object with a `token_id` and a `current_size` that is a number. -/
def RowListed (row : JsonTree F) : Prop :=
  ∃ p, row = .obj p ∧ getMember p "token_id" ≠ .null ∧
    ∃ size, number H (getMember p "current_size") = .ok size ∧ ¬ HostFloat.IsNan size

/-- The row gives a size of the token. -/
def RowGives (row : JsonTree F) (tok : TokenId) (size : F) : Prop :=
  ∃ p, row = .obj p ∧ getMember p "token_id" ≠ .null ∧ H.str (getMember p "token_id") = tok ∧
    number H (getMember p "current_size") = .ok size

/-- The row says that a positive size of the token is held. -/
def RowHolds (row : JsonTree F) (tok : TokenId) (size : F) : Prop :=
  RowGives H row tok size ∧ HostFloat.lt (HostFloat.ofRat 0) size

/-- The row counts: the size it gives is not zero or less. -/
def RowCounts (row : JsonTree F) (tok : TokenId) (size : F) : Prop :=
  RowGives H row tok size ∧ ¬ HostFloat.le size (HostFloat.ofRat 0)

/-- A row with a number beyond the range of floats: its size, or the price of a row that counts. -/
def PositionOverflows (row : JsonTree F) : Prop :=
  ∃ p, row = .obj p ∧ (Huge (getMember p "current_size") ∨
    (∃ tok size, RowCounts H row tok size) ∧ Huge (getMember p "avg_price"))

/-- The listing `rows` is read to its end, within the limit and with all of its rows, and the result
holds exactly the tokens of its rows of positive size; of several rows of a token the last one
counts.  So whatever an authoritative `reconcile_positions` closes, with figures for these tokens,
was not in the listing. -/
structure CompleteRead (serve : ℕ → Option (JsonTree F)) (rows : List (JsonTree F))
    (out : Holdings F) : Prop where
  listing : Paging.Listing IsPage serve maxPositionPages 0 rows
  readable : ∀ row ∈ rows, RowListed H row
  mem_iff : ∀ tok, tok ∈ out ↔ ∃ row ∈ rows, ∃ size, RowHolds H row tok size
  size_of : ∀ tok held, out.get? tok = some held → ∃ before row after,
    rows = before ++ row :: after ∧ RowHolds H row tok held.1 ∧
      ∀ later ∈ after, ∀ size, ¬ RowHolds H later tok size
  closed : ∀ (s : StateStore) (read : Holdings) (now : ℚ), read.keys = out.keys →
    ∀ tok ∈ (s.reconcilePositions read true now).2,
      ∀ row ∈ rows, RowListed H row ∧ ∀ size, ¬ RowHolds H row tok size

/-- A page the code goes on from: it has no rows, or one of them at least counts, and none of them
overflows. -/
def Accepted (payload : Option (JsonTree F)) (rows : List (JsonTree F)) (more : Bool) : Prop :=
  IsPage payload rows more ∧ (∀ row ∈ rows, ¬ PositionOverflows H row) ∧
    (rows = [] ∨ ∃ row ∈ rows, ∃ tok size, RowCounts H row tok size)

/-- An answer whose rows are an object, and not an empty one. -/
def RowsAreObject (payload : Option (JsonTree F)) : Prop :=
  ∃ d m members, payload = some (.obj d) ∧ getMember d "data" = .obj (m :: members)

/-- An answer with a row that overflows. -/
def RowsOverflow (payload : Option (JsonTree F)) : Prop :=
  ∃ d rows, payload = some (.obj d) ∧ (getMember d "data").items = some rows ∧
    ∃ row ∈ rows, PositionOverflows H row

end Says

/-! ### Rows -/

section Rows

variable {F : Type} [HostFloat F] {H : Host F} {row : JsonTree F} {tok : TokenId} {size avg : F}

theorem escapes_asFloat {x : JsonTree F} : Raises (asFloat H x) ↔ Huge x := by
  unfold asFloat
  rw [raises_tryExcept, escapes_number (by simp) (by simp) (by simp)]

theorem asFloat_of_not_huge {x : JsonTree F} (h : ¬ Huge x) : asFloat H x = .ok (number? H x) :=
  tryExcept_number (by simp) (by simp) (by simp) h

theorem countedSize_eq_some {x : JsonTree F} {o : Option F} :
    countedSize x o = some size ↔
      x ≠ .null ∧ o = some size ∧ ¬ HostFloat.le size (HostFloat.ofRat 0) := by
  cases o with
  | none => cases x <;> simp [countedSize]
  | some y =>
    have hsize : (if HostFloat.le y (HostFloat.ofRat 0) then none else some y) = some size ↔
        y = size ∧ ¬ HostFloat.le size (HostFloat.ofRat 0) := by
      split_ifs with h
      · simp only [false_iff, not_and, not_not]
        exact fun heq => heq ▸ h
      · simp only [Option.some.injEq]
        exact ⟨fun heq => ⟨heq, heq ▸ h⟩, And.left⟩
    cases x <;> simp [countedSize, hsize]

/-- What a row that does not overflow is taken as. -/
def entryOf (H : Host F) : JsonTree F → Option (TokenId × F × F)
  | .obj p => (countedSize (getMember p "token_id") (number? H (getMember p "current_size"))).map
    fun size => (H.str (getMember p "token_id"), size,
      (number? H (getMember p "avg_price")).getD (HostFloat.ofRat 0))
  | _ => none

theorem counts_of_entryOf (h : entryOf H row = some (tok, size, avg)) :
    RowCounts H row tok size := by
  cases row with
  | obj p =>
    obtain ⟨x, hx, heq⟩ := Option.map_eq_some_iff.1 h
    obtain ⟨hnull, hsize, hpos⟩ := countedSize_eq_some.1 hx
    obtain ⟨rfl, rfl, -⟩ : H.str (getMember p "token_id") = tok ∧ x = size ∧ _ = avg := by
      simpa using heq
    exact ⟨⟨p, rfl, hnull, rfl, number?_eq_some.1 hsize⟩, hpos⟩
  | _ => simp [entryOf] at h

theorem RowCounts.entryOf (h : RowCounts H row tok size) :
    ∃ avg, entryOf H row = some (tok, size, avg) := by
  obtain ⟨⟨p, rfl, hnull, rfl, hsize⟩, hpos⟩ := h
  exact ⟨_, Option.map_eq_some_iff.2
    ⟨size, countedSize_eq_some.2 ⟨hnull, number?_eq_some.2 hsize, hpos⟩, rfl⟩⟩

theorem isSome_entryOf_iff : (entryOf H row).isSome ↔ ∃ tok size, RowCounts H row tok size := by
  constructor
  · intro h
    obtain ⟨⟨tok, size, avg⟩, hrow⟩ := Option.isSome_iff_exists.1 h
    exact ⟨tok, size, counts_of_entryOf hrow⟩
  · rintro ⟨tok, size, h⟩
    obtain ⟨avg, hrow⟩ := h.entryOf
    rw [hrow]
    rfl

/-- A row overflows, and then it raises, or it is read as its entry. -/
theorem positionOfRow_cases (row : JsonTree F) :
    PositionOverflows H row ∧ Raises (positionOfRow H row) ∨
      ¬ PositionOverflows H row ∧ positionOfRow H row = .ok (entryOf H row) := by
  cases row with
  | obj p =>
    have hover : PositionOverflows H (.obj p) ↔ Huge (getMember p "current_size") ∨
        (entryOf H (.obj p)).isSome ∧ Huge (getMember p "avg_price") := by
      unfold PositionOverflows
      simp only [JsonTree.obj.injEq, exists_eq_left', isSome_entryOf_iff]
    by_cases hsize : Huge (getMember p "current_size")
    · exact .inl ⟨hover.2 (.inl hsize), raises_bind.2 (.inl (escapes_asFloat.2 hsize))⟩
    rw [hover, or_iff_right hsize]
    simp only [positionOfRow, entryOf, asFloat_of_not_huge hsize, bind, Except.bind]
    cases countedSize (getMember p "token_id") (number? H (getMember p "current_size")) with
    | none => exact .inr ⟨by simp, rfl⟩
    | some size =>
      by_cases havg : Huge (getMember p "avg_price")
      · exact .inl ⟨⟨rfl, havg⟩, raises_bind.2 (.inl (escapes_asFloat.2 havg))⟩
      · refine .inr ⟨fun h => havg h.2, ?_⟩
        simp only [asFloat_of_not_huge havg]
        rfl
  | _ => exact .inr ⟨fun ⟨_, hp, _⟩ => (by cases hp), rfl⟩

/-- Take a row into the result. -/
def recordPosition (H : Host F) (out : Holdings F) (row : JsonTree F) : Holdings F :=
  match entryOf H row with
  | some (tok, held) => out.set tok held
  | none => out

/-- One row that does not overflow. -/
def countPosition (H : Host F) (acc : Holdings F × ℕ) (row : JsonTree F) : Holdings F × ℕ :=
  (recordPosition H acc.1 row, acc.2 + if (entryOf H row).isSome then 1 else 0)

theorem scanPosition_cases (row : JsonTree F) :
    (PositionOverflows H row ∧ ∀ acc, Raises (scanPosition H acc row)) ∨
      ¬ PositionOverflows H row ∧
        ∀ acc, scanPosition H acc row = .ok (countPosition H acc row) := by
  refine (positionOfRow_cases row).imp (fun h => ⟨h.1, fun acc => raises_bind.2 (.inl h.2)⟩)
    fun h => ⟨h.1, fun acc => ?_⟩
  unfold scanPosition countPosition recordPosition
  rw [h.2]
  rcases Polymaker.entryOf H row with _ | ⟨tok, held⟩ <;> rfl

/-- The loop over the rows of a page. -/
theorem foldlM_scanPosition (rows : List (JsonTree F)) (out : Holdings F) :
    (∃ row ∈ rows, PositionOverflows H row) ∧ Raises (rows.foldlM (scanPosition H) (out, 0)) ∨
      (∀ row ∈ rows, ¬ PositionOverflows H row) ∧
        rows.foldlM (scanPosition H) (out, 0) =
          .ok (rows.foldl (recordPosition H) out,
            rows.countP fun row => (entryOf H row).isSome) := by
  by_cases hover : ∃ row ∈ rows, PositionOverflows H row
  · obtain ⟨row, hrow, h⟩ := hover
    exact .inl ⟨⟨row, hrow, h⟩, raises_foldlM hrow
      ((scanPosition_cases row).resolve_right fun h' => h'.1 h).2 _⟩
  · have hnone : ∀ row ∈ rows, ¬ PositionOverflows H row := fun row hrow h => hover ⟨row, hrow, h⟩
    refine .inr ⟨hnone, (foldlM_eq_ok (fun acc row hrow =>
      ((scanPosition_cases row).resolve_left fun h => hnone row hrow h.1).2 acc) _).trans ?_⟩
    have hfold : ∀ (rows : List (JsonTree F)) (acc : Holdings F × ℕ),
        rows.foldl (countPosition H) acc = (rows.foldl (recordPosition H) acc.1,
          acc.2 + rows.countP fun row => (Polymaker.entryOf H row).isSome) := by
      intro rows
      induction rows with
      | nil => exact fun _ => rfl
      | cons row rows ih =>
        intro acc
        rw [List.foldl_cons, List.foldl_cons, ih, List.countP_cons]
        simp only [countPosition, Nat.add_assoc, Nat.add_comm (if _ then 1 else 0)]
    rw [hfold, Nat.zero_add]

/-- What a list of rows leaves under a token: what its last row that counts says, or what was there
before. -/
theorem get?_foldl_recordPosition (rows : List (JsonTree F)) (out : Holdings F) (tok : TokenId) :
    (∃ before row after held, rows = before ++ row :: after ∧ RowCounts H row tok (Prod.fst held) ∧
      (∀ later ∈ after, ∀ size, ¬ RowCounts H later tok size) ∧
      (rows.foldl (recordPosition H) out).get? tok = some held) ∨
    ((∀ row ∈ rows, ∀ size, ¬ RowCounts H row tok size) ∧
      (rows.foldl (recordPosition H) out).get? tok = out.get? tok) := by
  induction rows generalizing out with
  | nil => exact .inr ⟨by simp, rfl⟩
  | cons row rows ih =>
    rw [List.foldl_cons]
    obtain ⟨before, r, after, held, rfl, hr, hafter, hget⟩ | ⟨hnone, hget⟩ :=
      ih (recordPosition H out row)
    · exact .inl ⟨row :: before, r, after, held, rfl, hr, hafter, hget⟩
    · by_cases hrow : ∃ size, RowCounts H row tok size
      · -- this is the last row of the token
        obtain ⟨size, hsize⟩ := hrow
        obtain ⟨avg, hpos⟩ := hsize.entryOf
        refine .inl ⟨[], row, rows, (size, avg), rfl, hsize, hnone, ?_⟩
        rw [hget, recordPosition, hpos]
        simp
      · refine .inr ⟨fun r hr size h => ?_, ?_⟩
        · rcases List.mem_cons.1 hr with rfl | hr
          · exact hrow ⟨size, h⟩
          · exact hnone r hr size h
        · rw [hget]
          unfold recordPosition
          split
          · rename_i k held hpos
            have hne : tok ≠ k := by
              rintro rfl
              exact hrow ⟨held.1, counts_of_entryOf hpos⟩
            rw [Dict.get?_set, if_neg hne]
          · rfl

end Rows

/-! ### Pages -/

section Pages

variable {F : Type} [HostFloat F] {H : Host F} {payload : Option (JsonTree F)}
  {rows : List (JsonTree F)} {more : Bool}

theorem IsPage.unique {rows' : List (JsonTree F)} {more' : Bool} (h : IsPage payload rows more)
    (h' : IsPage payload rows' more') : rows = rows' ∧ more = more' := by
  obtain ⟨d, page, rfl, hrows, hpage, rfl⟩ := h
  obtain ⟨d', page', hd, hrows', hpage', rfl⟩ := h'
  obtain rfl := JsonTree.obj.inj (Option.some.inj hd)
  obtain rfl := JsonTree.obj.inj (hpage.symm.trans hpage')
  exact ⟨Option.some.inj (hrows.symm.trans hrows'), rfl⟩

theorem truthy_iff_of_items {x : JsonTree F} (h : x.items = some rows) :
    x.truthy = true ↔ rows ≠ [] := by
  cases x <;> simp only [JsonTree.items, Option.some.injEq, reduceCtorEq] at h
  all_goals subst h; simp [truthy]

/-- The rows of a page that is turned down. -/
def Unparsed (H : Host F) (rows : List (JsonTree F)) : Prop :=
  rows ≠ [] ∧ ∀ row ∈ rows, ∀ tok size, ¬ RowCounts H row tok size

theorem unparsed_iff {data : JsonTree F} (h : data.items = some rows) :
    data.truthy = true ∧ (rows.countP fun row => (entryOf H row).isSome) = 0 ↔
      Unparsed H rows := by
  rw [truthy_iff_of_items h, Unparsed]
  refine and_congr_right fun _ => ?_
  simp only [List.countP_eq_zero, isSome_entryOf_iff, not_exists]

theorem not_unparsed_iff :
    ¬ Unparsed H rows ↔ rows = [] ∨ ∃ row ∈ rows, ∃ tok size, RowCounts H row tok size := by
  unfold Unparsed
  push Not
  exact ⟨fun h => or_iff_not_imp_left.2 h, fun h => or_iff_not_imp_left.1 h⟩

open Classical in
/-- What the code does with an answer that has rows. -/
theorem readPage_of_items (out : Holdings F) {d : List (String × JsonTree F)}
    (hrows : (getMember d "data").items = some rows) :
    readPage H out (some (.obj d)) =
      if ∃ row ∈ rows, PositionOverflows H row then .error .raised
      else if Unparsed H rows then
        match getMember d "data" with
        | .obj _ => .error .raised
        | _ => .error .refused
      else
        match getMember d "pagination" with
        | .obj page =>
          .ok (rows.foldl (recordPosition H) out, (getMember page "next_cursor").truthy)
        | _ => .error .refused := by
  unfold readPage
  simp only [hrows]
  rcases foldlM_scanPosition (H := H) rows out with ⟨hover, hraises⟩ | ⟨hnone, hok⟩
  · obtain ⟨e, he⟩ := raises_iff.1 hraises
    rw [if_pos hover, he]
  · rw [if_neg fun ⟨row, hrow, h⟩ => hnone row hrow h, hok]
    exact if_congr (unparsed_iff hrows) rfl rfl

/-- The code goes on from exactly the accepted pages, and takes their rows into the result. -/
theorem readPage_eq_ok_iff (out : Holdings F) (payload : Option (JsonTree F))
    (out' : Holdings F) (more : Bool) :
    readPage H out payload = .ok (out', more) ↔
      ∃ rows, Accepted H payload rows more ∧ out' = rows.foldl (recordPosition H) out := by
  constructor
  · intro h
    obtain ⟨d, rows, rfl, hrows⟩ : ∃ d rows, payload = some (.obj d) ∧
        (getMember d "data").items = some rows := by
      unfold readPage at h
      split at h
      · rename_i d
        split at h
        · cases h
        · rename_i rows hrows
          exact ⟨d, rows, rfl, hrows⟩
      · cases h
    rw [readPage_of_items out hrows] at h
    split_ifs at h with hover hun
    · split at h <;> cases h
    · split at h
      · rename_i page hpage
        obtain ⟨rfl, rfl⟩ := Prod.mk.inj (Except.ok.inj h)
        exact ⟨rows, ⟨⟨d, page, rfl, hrows, hpage, rfl⟩,
          fun row hrow h => hover ⟨row, hrow, h⟩, not_unparsed_iff.1 hun⟩, rfl⟩
      · cases h
  · rintro ⟨rows, ⟨⟨d, page, rfl, hrows, hpage, rfl⟩, hnone, hun⟩, rfl⟩
    rw [readPage_of_items out hrows, if_neg fun ⟨row, hrow, h⟩ => hnone row hrow h,
      if_neg (not_unparsed_iff.2 hun), hpage]

/-- An exception leaves it for exactly the answers whose rows are an object or with a row that
overflows. -/
theorem readPage_eq_raised_iff (out : Holdings F) (payload : Option (JsonTree F)) :
    readPage H out payload = .error .raised ↔ RowsAreObject payload ∨ RowsOverflow H payload := by
  constructor
  · intro h
    obtain ⟨d, rows, rfl, hrows⟩ : ∃ d rows, payload = some (.obj d) ∧
        (getMember d "data").items = some rows := by
      unfold readPage at h
      split at h
      · rename_i d
        split at h
        · cases h
        · rename_i rows hrows
          exact ⟨d, rows, rfl, hrows⟩
      · cases h
    rw [readPage_of_items out hrows] at h
    split_ifs at h with hover hun
    · exact .inr ⟨d, rows, rfl, hrows, hover⟩
    · split at h
      · rename_i members hdata
        cases members with
        | nil =>
          rw [hdata] at hrows
          exact absurd (Option.some.inj hrows).symm hun.1
        | cons m members => exact .inl ⟨d, m, members, rfl, hdata⟩
      · cases h
    · split at h <;> cases h
  · rintro (⟨d, m, members, rfl, hdata⟩ | ⟨d, rows, rfl, hrows, hover⟩)
    · have hrows : (getMember d "data").items = some ((m :: members).map fun m => .str m.1) := by
        rw [hdata]
        rfl
      -- the rows are the keys of the object, and no key is an object
      have hkeys : ∀ row ∈ (m :: members).map fun m => (JsonTree.str m.1 : JsonTree F),
          ∀ p, row ≠ .obj p := by
        intro row hrow p hp
        obtain ⟨m', -, rfl⟩ := List.mem_map.1 hrow
        cases hp
      have hun : Unparsed H ((m :: members).map fun m => .str m.1) :=
        ⟨by simp, fun row hrow tok size ⟨⟨p, hp, _⟩, _⟩ => hkeys row hrow p hp⟩
      rw [readPage_of_items out hrows, if_neg fun ⟨row, hrow, p, hp, _⟩ => hkeys row hrow p hp,
        if_pos hun, hdata]
    · rw [readPage_of_items out hrows, if_pos hover]

end Pages

/-! ### The whole read -/

/-- What comes out of a read of the positions is a complete read, or `None`. -/
def CompleteOrRefused {F : Type} [HostFloat F] (H : Host F) (funder : String)
    (serve : ℕ → Option (JsonTree F)) : Prop :=
  match positions H funder serve with
  | .ok out => ∃ rows, CompleteRead H serve rows out
  | .error .refused => True
  | .error .raised => False

/-- A read that goes through the pages of the service. -/
def Applicable (funder : String) : Prop := "0x".toList <+: funder.toList ∧ funder ≠ "0xPAPER"

section Whole

variable {F : Type} [HostFloat F] {H : Host F} {funder : String} {serve : ℕ → Option (JsonTree F)}
  {rows : List (JsonTree F)}

theorem positions_of_applicable (h : Applicable funder) : positions H funder serve =
    Paging.read (readPage H) .refused serve maxPositionPages 0 Dict.empty :=
  if_neg fun hor => hor.elim (fun hnot => hnot h.1) h.2

theorem positions_of_not_applicable (h : ¬ Applicable funder) :
    positions H funder serve = .error .refused := by
  refine if_pos ?_
  by_contra hor
  rw [not_or, not_not] at hor
  exact h hor

theorem positions_eq_ok_iff (h : Applicable funder) (out : Holdings F) :
    positions H funder serve = .ok out ↔
      ∃ rows, Paging.Listing (Accepted H) serve maxPositionPages 0 rows ∧
        out = rows.foldl (recordPosition H) Dict.empty := by
  rw [positions_of_applicable h]
  exact Paging.read_eq_ok_iff readPage_eq_ok_iff _ _

theorem positions_eq_raised_iff (h : Applicable funder) :
    positions H funder serve = .error .raised ↔
      ∃ j, Paging.Reaches (Accepted H) serve maxPositionPages 0 j ∧
        (RowsAreObject (serve j) ∨ RowsOverflow H (serve j)) := by
  rw [positions_of_applicable h]
  have hne : PositionsFailure.raised ≠ .refused := by decide
  exact Paging.read_eq_error_iff hne readPage_eq_ok_iff readPage_eq_raised_iff _

end Whole

section Numbers

variable {H : Host ExtFloat} {serve : ℕ → Option (JsonTree ExtFloat)}
  {rows : List (JsonTree ExtFloat)} {row : JsonTree ExtFloat} {tok : TokenId} {size : ExtFloat}

/-- A row that can be read counts exactly when it says that something is held. -/
theorem RowListed.counts_iff (h : RowListed H row) :
    RowCounts H row tok size ↔ RowHolds H row tok size := by
  refine and_congr_right fun ⟨p, hp, _, _, hsize⟩ => ExtFloat.not_le_ofRat_iff ?_ 0
  obtain ⟨p', hp', -, size', hsize', hnum⟩ := h
  obtain rfl := JsonTree.obj.inj (hp.symm.trans hp')
  obtain rfl := Except.ok.inj (hsize.symm.trans hsize')
  exact hnum

/-- The result of an accepted listing is what its rows say, where they can be read. -/
theorem completeRead_of_accepted
    (h : Paging.Listing (Accepted H) serve maxPositionPages 0 rows)
    (hread : ∀ row ∈ rows, RowListed H row) :
    CompleteRead H serve rows (rows.foldl (recordPosition H) Dict.empty) := by
  have hmem : ∀ tok, tok ∈ rows.foldl (recordPosition H) Dict.empty ↔
      ∃ row ∈ rows, ∃ size, RowHolds H row tok size := by
    intro tok
    obtain ⟨before, row, after, held, rfl, hrow, -, hget⟩ | ⟨hnone, hget⟩ :=
      get?_foldl_recordPosition (H := H) rows Dict.empty tok
    · have hin : row ∈ before ++ row :: after := by simp
      exact iff_of_true (Dict.mem_of_get? hget)
        ⟨row, hin, held.1, (hread row hin).counts_iff.1 hrow⟩
    · refine iff_of_false (Dict.get?_eq_none_iff.1 (hget.trans (Dict.get?_empty tok))) ?_
      rintro ⟨row, hrow, size, hsize⟩
      exact hnone row hrow size ((hread row hrow).counts_iff.2 hsize)
  refine ⟨h.mono fun _ _ _ hpage => hpage.1, hread, hmem, fun tok held hheld => ?_,
    fun s read now hkeys tok hclosed row hrow => ⟨hread row hrow, fun size hsize => ?_⟩⟩
  · obtain ⟨before, row, after, held', rfl, hrow, hafter, hget⟩ | ⟨-, hget⟩ :=
      get?_foldl_recordPosition (H := H) rows Dict.empty tok
    · obtain rfl := Option.some.inj (hget.symm.trans hheld)
      refine ⟨before, row, after, rfl, (hread row (by simp)).counts_iff.1 hrow, ?_⟩
      intro later hlater size hsize
      exact hafter later hlater size ((hread later (by simp [hlater])).counts_iff.2 hsize)
    · rw [hget, Dict.get?_empty] at hheld
      cases hheld
  · have habsent := ((mem_reconcilePositions_iff _ _ _ _ _).1 hclosed).2.1
    rw [Dict.mem_def, hkeys] at habsent
    exact habsent ((hmem tok).2 ⟨row, hrow, size, hsize⟩)

/-- **When a read is complete or refused.**  What comes out of a read is a complete read, or `None`,
if and only if the funder has no positions to ask for, or every row on the pages of an accepted
listing can be read, and no page asked for has an object for its rows or a row that overflows. -/
theorem completeOrRefused_iff (H : Host ExtFloat) (funder : String)
    (serve : ℕ → Option (JsonTree ExtFloat)) :
    CompleteOrRefused H funder serve ↔
      (Applicable funder →
        (∀ rows, Paging.Listing (Accepted H) serve maxPositionPages 0 rows →
          ∀ row ∈ rows, RowListed H row) ∧
        ∀ j, Paging.Reaches (Accepted H) serve maxPositionPages 0 j →
          ¬ RowsAreObject (serve j) ∧ ¬ RowsOverflow H (serve j)) := by
  by_cases happ : Applicable funder
  swap
  · refine iff_of_true ?_ fun h => absurd h happ
    unfold CompleteOrRefused
    rw [positions_of_not_applicable happ]
    trivial
  rw [show (Applicable funder → _) ↔ _ from forall_prop_of_true happ]
  constructor
  · intro h
    constructor
    · intro rows hrows
      have hout := (positions_eq_ok_iff happ _).2 ⟨rows, hrows, rfl⟩
      simp only [CompleteOrRefused, hout] at h
      obtain ⟨rows', hcomplete⟩ := h
      -- the rows of the complete read are those of the accepted listing
      have heq : rows = rows' := (hrows.mono fun _ _ _ hpage => hpage.1).unique
        (fun _ _ _ _ _ h h' => h.unique h') hcomplete.listing
      exact heq ▸ hcomplete.readable
    · intro j hreach
      rw [← not_or]
      intro hbad
      have hraised := (positions_eq_raised_iff happ).2 ⟨j, hreach, hbad⟩
      simp only [CompleteOrRefused, hraised] at h
  · rintro ⟨hread, hobj⟩
    unfold CompleteOrRefused
    cases hpos : positions H funder serve with
    | ok out =>
      obtain ⟨rows, hrows, rfl⟩ := (positions_eq_ok_iff happ out).1 hpos
      exact ⟨rows, completeRead_of_accepted hrows (hread rows hrows)⟩
    | error e =>
      cases e with
      | refused => trivial
      | raised =>
        obtain ⟨j, hreach, hj⟩ := (positions_eq_raised_iff happ).1 hpos
        exact hj.elim (hobj j hreach).1 (hobj j hreach).2

end Numbers

/-- A page with a row of a token that is held and a row that has the field names of the retired
service: the read gives the first token alone, and an authoritative `reconcile_positions` closes the
second.  A row with a size that is no number is listed as held. -/
theorem holding_zeroed :
    let H : Host ExtFloat := ⟨fun s => if s = "nan" then some .nan else none, fun _ => ""⟩
    let good : JsonTree ExtFloat := .obj [("token_id", .str "a"), ("current_size", .int 100),
      ("avg_price", .float (.fin (1 / 2)))]
    let bad : JsonTree ExtFloat := .obj [("tokenId", .str "b"), ("currentSize", .int 50)]
    let odd : JsonTree ExtFloat := .obj [("token_id", .str "b"), ("current_size", .str "nan")]
    let serve (rows : List (JsonTree ExtFloat)) : ℕ → Option (JsonTree ExtFloat) := fun _ =>
      some (.obj [("data", .arr rows), ("pagination", .obj [("next_cursor", .null)])])
    let s := ((StateStore.open .fresh).setPosition "a" 100 (1 / 2)).setPosition "b" 50 (1 / 4)
    (positions H "0x11" (serve [good, bad]) =
        .ok (Dict.empty.set "a" (.fin 100, .fin (1 / 2))) ∧
      "b" ∈ (s.reconcilePositions (Dict.empty.set "a" (100, 1 / 2)) true 60).2 ∧
      ¬ CompleteOrRefused H "0x11" (serve [good, bad])) ∧
      positions H "0x11" (serve [odd]) = .ok (Dict.empty.set "b" (.nan, .fin 0)) ∧
        ¬ CompleteOrRefused H "0x11" (serve [odd]) := by
  intro H good bad odd serve s
  have hread : positions H "0x11" (serve [good, bad]) =
      .ok (Dict.empty.set "a" (.fin 100, .fin (1 / 2))) := by
    decide +kernel
  have hodd : positions H "0x11" (serve [odd]) = .ok (Dict.empty.set "b" (.nan, .fin 0)) := by
    decide +kernel
  -- a complete read of one page is of its rows, which can all be read
  have hlisted : ∀ {page : List (JsonTree ExtFloat)} {out : Holdings ExtFloat}
      {rows : List (JsonTree ExtFloat)}, CompleteRead H (serve page) rows out →
        ∀ row ∈ page, RowListed H row := by
    intro page out rows hcomplete
    have hpage : IsPage (serve page 0) page false := ⟨_, _, rfl, rfl, rfl, rfl⟩
    obtain rfl : rows = page :=
      hcomplete.listing.unique (fun _ _ _ _ _ h h' => h.unique h') (.last hpage)
    exact hcomplete.readable
  refine ⟨⟨hread, by decide +kernel, ?_⟩, hodd, ?_⟩
  · unfold CompleteOrRefused
    rw [hread]
    rintro ⟨rows, hcomplete⟩
    obtain ⟨p, hp, hnull, -⟩ := hlisted hcomplete bad (by simp)
    obtain rfl := JsonTree.obj.inj hp
    exact hnull rfl
  · unfold CompleteOrRefused
    rw [hodd]
    rintro ⟨rows, hcomplete⟩
    obtain ⟨p, hp, -, size, hsize, hnum⟩ := hlisted hcomplete odd (by simp)
    obtain rfl := JsonTree.obj.inj hp
    obtain rfl : ExtFloat.nan = size := Except.ok.inj hsize
    exact hnum (by decide)

end Polymaker
