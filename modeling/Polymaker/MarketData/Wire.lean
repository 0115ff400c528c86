import Polymaker.Domain
import Polymaker.Lib.Reading

/-!
# Market messages

The parsers of `marketdata/parse.py`, over the decoded JSON object of a message.  Each of them
handles the exceptions of its field accesses, but not all of them everywhere.

* `BookUpdate`, `PriceChange`, `TradePrint`, `TickSizeChange`: what a message says;
* `wireTs`, `levelsOf`, `parseBook`, `parsePriceChanges`, `parseLastTrade`, `parseTickSizeChange`:
  the parsers, `none` where a message is refused;
* `BookRaises`, `PriceChangeRaises`, `LastTradeRaises`, `TickSizeChangeRaises`: the messages on
  which one raises;
* `raises_parseBook`, …: they raise on these and on no others.
-/

namespace Polymaker

open JsonTree Raising

/-- The members of a message. -/
abbrev Message (F : Type := ℚ) := List (String × JsonTree F)

/-- A snapshot of a book. -/
structure BookUpdate (F : Type := ℚ) where
  assetId : TokenId
  conditionId : ConditionId
  bids : List (F × F)
  asks : List (F × F)
  ts : F
  bookHash : JsonTree F
  tickSize : Option F

/-- A change of one level. -/
structure PriceChange (F : Type := ℚ) where
  assetId : TokenId
  conditionId : ConditionId
  side : Side
  price : F
  size : F
  ts : F
  deriving DecidableEq, Repr

/-- A trade print of the market stream. -/
structure TradePrint (F : Type := ℚ) where
  assetId : TokenId
  conditionId : ConditionId
  aggressor : Side
  price : F
  size : F
  ts : F
  deriving DecidableEq, Repr

/-- A change of the tick size. -/
structure TickSizeChange (F : Type := ℚ) where
  assetId : TokenId
  tickSize : F
  deriving DecidableEq, Repr

/-- `except (KeyError, ValueError, TypeError)`. -/
def parseErrors : List Exc := [.key, .value, .type]

/-- The side that a text names, in any case. -/
def sideNamed (s : String) : Option Side :=
  if upperText s = "BUY".toList then some .buy
  else if upperText s = "SELL".toList then some .sell
  else none

/-- `Side(s.upper())`. -/
def readSide (s : String) : Except Exc Side :=
  match sideNamed s with
  | some side => .ok side
  | none => .error .value

section Parsers

variable {F : Type} (H : Host F)

/-- `str(msg.get(key, dflt))`. -/
def strMember (msg : Message F) (key dflt : String) : String :=
  H.str (getMemberD msg key (.str dflt))

variable [HostFloat F]

/-- `_ts`: milliseconds above `1e12`, seconds below, zero when it is missing or does not parse. -/
def wireTs (msg : Message F) : Except Exc F :=
  match getMember msg "timestamp" with
  | .null => pure (HostFloat.ofRat 0)
  | raw => do
    match ← tryExcept [.value, .type] (number H raw) with
    | some v =>
      pure (if HostFloat.lt (HostFloat.ofRat 1000000000000) v then
        HostFloat.div v (HostFloat.ofRat 1000) else v)
    | none => pure (HostFloat.ofRat 0)

/-- One entry of a side of a book. -/
def levelOf (it : JsonTree F) : Except Exc (F × F) := do
  let price ← subscript it "price" >>= number H
  let size ← subscript it "size" >>= number H
  pure (price, size)

/-- `_levels`. -/
def levelsOf (x : JsonTree F) : Except Exc (List (F × F)) := do
  collect (fun it => tryExcept parseErrors (levelOf H it)) (← iterateOrEmpty x)

/-- `float(x) if x is not None else None`. -/
def numberOrNone : JsonTree F → Except Exc (Option F)
  | .null => pure none
  | x => some <$> number H x

/-- `parse_book`. -/
def parseBook (msg : Message F) : Except Exc (Option (BookUpdate F)) :=
  tryExcept parseErrors do
    let assetId ← required msg "asset_id"
    let bids ← levelsOf H (getMember msg "bids")
    let asks ← levelsOf H (getMember msg "asks")
    let ts ← wireTs H msg
    let tickSize ← numberOrNone H (getMember msg "tick_size")
    pure
      { assetId := H.str assetId
        conditionId := strMember H msg "market" ""
        bids
        asks
        ts
        bookHash := getMember msg "hash"
        tickSize }

/-- One entry of `price_changes`. -/
def changeOf (cond : ConditionId) (ts : F) (ch : JsonTree F) : Except Exc (PriceChange F) := do
  let assetId ← subscript ch "asset_id"
  let side ← subscript ch "side" >>= fun x => readSide (H.str x)
  let price ← subscript ch "price" >>= number H
  let size ← subscript ch "size" >>= number H
  pure ⟨H.str assetId, cond, side, price, size, ts⟩

/-- `msg.get("price_changes", [])`. -/
def priceChanges (msg : Message F) : JsonTree F := getMemberD msg "price_changes" (.arr [])

/-- `parse_price_changes`: the loop itself stands outside of what is handled. -/
def parsePriceChanges (msg : Message F) : Except Exc (List (PriceChange F)) := do
  let ts ← wireTs H msg
  collect (fun ch => tryExcept parseErrors (changeOf H (strMember H msg "market" "") ts ch))
    (← iterateOrEmpty (priceChanges msg))

/-- `parse_last_trade`. -/
def parseLastTrade (msg : Message F) : Except Exc (Option (TradePrint F)) :=
  tryExcept parseErrors do
    let assetId ← required msg "asset_id"
    let aggressor ← readSide (strMember H msg "side" "BUY")
    let price ← required msg "price" >>= number H
    let size ← required msg "size" >>= number H
    let ts ← wireTs H msg
    pure ⟨H.str assetId, strMember H msg "market" "", aggressor, price, size, ts⟩

/-- The member that `parse_tick_size_change` reads. -/
def newTick (msg : Message F) : JsonTree F :=
  getMemberD msg "new_tick_size" (getMember msg "tick_size")

/-- `parse_tick_size_change`. -/
def parseTickSizeChange (msg : Message F) : Except Exc (Option (TickSizeChange F)) :=
  match newTick msg with
  | .null => pure none
  | tick =>
    tryExcept parseErrors do
      let assetId ← required msg "asset_id"
      let tickSize ← number H tick
      pure ⟨H.str assetId, tickSize⟩

end Parsers

/-! ### The messages on which a parser raises -/

/-- A required member, and the rest of a reader. -/
theorem escapes_required_bind {F β : Type} {msg : Message F} {key : String}
    {f : JsonTree F → Except Exc β} :
    Escapes parseErrors (required msg key >>= f) ↔
      ∃ x ∈ msg.lookup key, Escapes parseErrors (f x) := by
  rw [escapes_bind, or_iff_right (not_escapes_required (by decide) msg key)]
  simp only [required_eq_ok, Option.mem_def]

theorem escapes_required_bind_of_const {F β : Type} {msg : Message F} {key : String}
    {f : JsonTree F → Except Exc β} {P : Prop} (h : ∀ x, Escapes parseErrors (f x) ↔ P) :
    Escapes parseErrors (required msg key >>= f) ↔ (msg.lookup key).isSome ∧ P := by
  rw [escapes_required_bind]
  simp only [h, Option.mem_def, exists_and_right, Option.isSome_iff_exists]

section Raise

variable {F : Type} [HostFloat F] (H : Host F)

/-- The two numbers of an entry cannot be read, for one of them is huge. -/
abbrev EntryHuge (d : Message F) : Prop := PairHuge H (getMember d "price") (getMember d "size")

/-- An entry of a book that raises. -/
def LevelRaises : JsonTree F → Prop
  | .obj d => EntryHuge H d
  | _ => False

/-- A side of a book that raises. -/
def SideRaises (x : JsonTree F) : Prop := ∃ it ∈ itemsOrEmpty x, LevelRaises H it

/-- A snapshot that raises: a huge number in it is reached. -/
def BookRaises (msg : Message F) : Prop :=
  (msg.lookup "asset_id").isSome ∧
    (SideRaises H (getMember msg "bids") ∨ Iterable (getMember msg "bids") ∧
      (SideRaises H (getMember msg "asks") ∨ Iterable (getMember msg "asks") ∧
        (Huge (getMember msg "timestamp") ∨ Huge (getMember msg "tick_size"))))

/-- An entry of `price_changes` that raises. -/
def ChangeRaises : JsonTree F → Prop
  | .obj d =>
    (d.lookup "asset_id").isSome ∧ (∃ side ∈ d.lookup "side", (sideNamed (H.str side)).isSome) ∧
      EntryHuge H d
  | _ => False

/-- A list of changes that raises: also where it is no list. -/
def PriceChangeRaises (msg : Message F) : Prop :=
  Huge (getMember msg "timestamp") ∨ ¬ Iterable (priceChanges msg) ∨
    ∃ ch ∈ itemsOrEmpty (priceChanges msg), ChangeRaises H ch

/-- A print that raises. -/
def LastTradeRaises (msg : Message F) : Prop :=
  (msg.lookup "asset_id").isSome ∧ (sideNamed (strMember H msg "side" "BUY")).isSome ∧
    (EntryHuge H msg ∨ Readable H (getMember msg "price") ∧ Readable H (getMember msg "size") ∧
      Huge (getMember msg "timestamp"))

/-- A change of the tick size that raises. -/
def TickSizeChangeRaises (msg : Message F) : Prop :=
  (msg.lookup "asset_id").isSome ∧ Huge (newTick msg)

variable {H} {msg : Message F}

theorem escapes_wireTs {handled : List Exc} (ho : Exc.overflow ∉ handled) :
    Escapes handled (wireTs H msg) ↔ Huge (getMember msg "timestamp") := by
  unfold wireTs
  split
  · rename_i hnull
    simp [hnull, Huge]
  · rw [escapes_bind, escapes_tryExcept,
      escapes_number (by simp) (by simp) (by simpa using ho), or_iff_left]
    rintro ⟨v, -, hv⟩
    cases v <;> simp at hv

theorem escapes_float {x : JsonTree F} : Escapes parseErrors (number H x) ↔ Huge x :=
  escapes_number (by decide) (by decide) (by decide)

theorem escapes_float_bind {β : Type} {x : JsonTree F} {f : F → Except Exc β} {P : Prop}
    (h : ∀ v, Escapes parseErrors (f v) ↔ P) :
    Escapes parseErrors (number H x >>= f) ↔ Huge x ∨ Readable H x ∧ P := by
  rw [escapes_bind, escapes_float]
  simp only [h, exists_and_right, ← readable_iff]

theorem escapes_member_bind {β : Type} {d : Message F} {key : String} {f : F → Except Exc β}
    {P : Prop} (h : ∀ v, Escapes parseErrors (f v) ↔ P) :
    Escapes parseErrors ((required d key >>= number H) >>= f) ↔
      Huge (getMember d key) ∨ Readable H (getMember d key) ∧ P := by
  rw [escapes_bind, escapes_required_bind_number (by decide) (by decide) (by decide) (by decide)]
  simp only [required_bind_number_eq_ok, h, exists_and_right, ← readable_iff]

/-- Reading the two numbers of an entry, and a rest that raises or not whatever they are. -/
theorem escapes_entry {β : Type} (d : Message F) {f : F → F → Except Exc β} {P : Prop}
    (h : ∀ price size, Escapes parseErrors (f price size) ↔ P) :
    Escapes parseErrors (do
      let price ← required d "price" >>= number H
      let size ← required d "size" >>= number H
      f price size) ↔
    EntryHuge H d ∨ Readable H (getMember d "price") ∧ Readable H (getMember d "size") ∧ P := by
  rw [escapes_member_bind fun price => escapes_member_bind fun size => h price size]
  unfold EntryHuge PairHuge
  tauto

theorem escapes_entry_pure {β : Type} (d : Message F) (k : F → F → β) :
    Escapes parseErrors (do
      let price ← required d "price" >>= number H
      let size ← required d "size" >>= number H
      pure (k price size)) ↔ EntryHuge H d := by
  rw [escapes_entry d (P := False) fun price size => by simp]
  simp only [and_false, or_false]

theorem escapes_levelOf {it : JsonTree F} :
    Escapes parseErrors (levelOf H it) ↔ LevelRaises H it := by
  cases it with
  | obj d => exact escapes_entry_pure d Prod.mk
  | _ => simp [levelOf, LevelRaises, escapes_bind, subscript, parseErrors]

theorem escapes_levelsOf {x : JsonTree F} : Escapes parseErrors (levelsOf H x) ↔ SideRaises H x := by
  refine (escapes_loop (by decide) fun it hit =>
    escapes_tryExcept_self.2 (raises_tryExcept.1 hit)).trans ?_
  simp only [escapes_tryExcept_self, escapes_levelOf]
  rfl

theorem raises_levelsOf {x : JsonTree F} :
    Raises (levelsOf H x) ↔ ¬ Iterable x ∨ SideRaises H x := by
  refine raises_loop.trans ?_
  simp only [raises_tryExcept, escapes_levelOf]
  rfl

theorem escapes_numberOrNone {x : JsonTree F} :
    Escapes parseErrors (numberOrNone H x) ↔ Huge x := by
  unfold numberOrNone
  split
  · simp [Huge]
  · rw [escapes_map, escapes_float]

theorem raises_wireTs : Raises (wireTs H msg) ↔ Huge (getMember msg "timestamp") :=
  escapes_wireTs List.not_mem_nil

theorem escapes_levelsOf_bind {β : Type} {x : JsonTree F}
    {f : List (F × F) → Except Exc β} {P : Prop}
    (h : ∀ l, Escapes parseErrors (f l) ↔ P) :
    Escapes parseErrors (levelsOf H x >>= f) ↔ SideRaises H x ∨ Iterable x ∧ P := by
  rw [escapes_bind_of_const fun l _ => h l, escapes_levelsOf, raises_levelsOf]
  tauto

theorem escapes_wireTs_bind {β : Type} {f : F → Except Exc β} {P : Prop}
    (h : ∀ ts, Escapes parseErrors (f ts) ↔ P) :
    Escapes parseErrors (wireTs H msg >>= f) ↔ Huge (getMember msg "timestamp") ∨ P := by
  rw [escapes_bind_of_const fun ts _ => h ts, escapes_wireTs (by decide), raises_wireTs]
  tauto

theorem raises_parseBook : Raises (parseBook H msg) ↔ BookRaises H msg := by
  unfold parseBook BookRaises
  rw [raises_tryExcept]
  refine escapes_required_bind_of_const fun assetId => escapes_levelsOf_bind fun bids =>
    escapes_levelsOf_bind fun asks => escapes_wireTs_bind fun ts => ?_
  rw [escapes_bind, escapes_numberOrNone, or_iff_left]
  simp

/-- A side that is named, and the rest of a reader. -/
theorem escapes_readSide_bind {β : Type} {text : String} {f : Side → Except Exc β} {P : Prop}
    (h : ∀ side, Escapes parseErrors (f side) ↔ P) :
    Escapes parseErrors (readSide text >>= f) ↔ (sideNamed text).isSome ∧ P := by
  rw [escapes_bind_of_const fun side _ => h side]
  unfold readSide
  cases sideNamed text <;> simp [parseErrors]

theorem escapes_changeOf {cond : ConditionId} {ts : F} {ch : JsonTree F} :
    Escapes parseErrors (changeOf H cond ts ch) ↔ ChangeRaises H ch := by
  cases ch with
  | obj d =>
    refine escapes_required_bind_of_const fun assetId => ?_
    rw [bind_assoc]
    refine escapes_required_bind.trans ((exists_congr fun x => and_congr_right fun _ =>
      escapes_readSide_bind fun side => escapes_entry_pure d _).trans ?_)
    simp only [← and_assoc, exists_and_right]
  | _ => simp [changeOf, ChangeRaises, escapes_bind, subscript, parseErrors]

theorem raises_parsePriceChanges : Raises (parsePriceChanges H msg) ↔ PriceChangeRaises H msg := by
  have hloop : ∀ ts, Raises (iterateOrEmpty (priceChanges msg) >>= collect fun ch =>
      tryExcept parseErrors (changeOf H (strMember H msg "market" "") ts ch)) ↔
      ¬ Iterable (priceChanges msg) ∨
        ∃ ch ∈ itemsOrEmpty (priceChanges msg), ChangeRaises H ch := by
    intro ts
    rw [raises_loop]
    simp only [raises_tryExcept, escapes_changeOf]
  refine (raises_bind_of_const fun ts _ => hloop ts).trans ?_
  rw [raises_wireTs]
  rfl

theorem raises_parseLastTrade : Raises (parseLastTrade H msg) ↔ LastTradeRaises H msg := by
  unfold parseLastTrade LastTradeRaises
  rw [raises_tryExcept]
  refine escapes_required_bind_of_const fun assetId => escapes_readSide_bind fun side =>
    escapes_entry msg fun price size => ?_
  rw [escapes_wireTs_bind (P := False) fun ts => by simp, or_false]

theorem raises_parseTickSizeChange :
    Raises (parseTickSizeChange H msg) ↔ TickSizeChangeRaises msg := by
  unfold parseTickSizeChange TickSizeChangeRaises
  split
  · rename_i hnull
    simp [hnull, Huge]
  · rw [raises_tryExcept]
    refine escapes_required_bind_of_const fun assetId => ?_
    rw [escapes_float_bind (P := False) fun v => by simp]
    simp

end Raise

end Polymaker
