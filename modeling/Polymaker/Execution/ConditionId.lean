import Mathlib.Data.Int.Bitwise
import Mathlib.Data.Nat.Bitwise
import Polymaker.Lib.Hex

/-!
# V2 condition ids

The arithmetic of position and condition ids of `execution/ledger.py`, and the 31 bytes that
`Merger._v2_condition_bytes31` of `merge.py` hands to the router.

* `conditionIdOf`, `conditionIdFromPositionId`: the condition id, in place and as a field;
* `hexToBytes`, `narrowV2ConditionId`: a condition id from its hex text, `SpellsBytes`: the texts of
  some bytes;
* `strIsdigit`, `intOfDigits`: the decimal text of a position id;
* `narrowV2ConditionId_eq_none_iff`: the texts that are refused;
* `v2_condition_routes_agree`: both routes give the same bytes.
-/

namespace Polymaker

open Bytes

/-! ### Ids as numbers -/

/-- The exceptions that the conversions raise. -/
inductive ConversionError
  | valueError
  | overflowError
  deriving DecidableEq, Repr

/-- `condition_id_of`: the outcome byte stripped. -/
def conditionIdOf (positionId : ℤ) : ℤ := positionId.land (~~~255)

/-- `bytes31`. -/
def bytes31 (value : ℤ) : Except ConversionError (List UInt8) :=
  if 0 ≤ value ∧ value < 256 ^ 31 then .ok (bigEndian 31 value.toNat) else .error .overflowError

/-- `condition_id_from_position_id`. -/
def conditionIdFromPositionId (positionId : ℤ) : ℤ := positionId >>> (8 : ℕ)

/-- `v2_condition_id_bytes31`. -/
def v2ConditionIdBytes31 (positionId : ℤ) : Except ConversionError (List UInt8) :=
  if positionId < 0 then .error .valueError else bytes31 (conditionIdFromPositionId positionId)

/-! ### Ids as texts -/

/-- A text without the mark of hex. -/
def afterMark : List Char → List Char
  | '0' :: 'x' :: text => text
  | '0' :: 'X' :: text => text
  | text => text

/-- `_hex_to_bytes`. -/
def hexToBytes (value : String) : Option (List UInt8) :=
  let text := afterMark value.toList
  let text := if text.length % 2 = 1 then '0' :: text else text
  Hex.decode text

/-- `narrow_v2_condition_id`. -/
def narrowV2ConditionId (conditionId : String) : Option (List UInt8) :=
  match hexToBytes conditionId with
  | none => none
  | some raw =>
    if raw.length = 31 then some raw
    else if raw.length = 32 then
      if raw.getLast? ≠ some 0 then none else some (raw.take 31)
    else none

/-- The digits outside ASCII: which characters are, and the numbers of the decimal ones. -/
structure UnicodeDigits where
  isDigit : Char → Bool
  decimal : Char → Option ℕ

section Digits

variable (u : UnicodeDigits)

/-- `str.isdigit`. -/
def strIsdigit (s : String) : Bool :=
  !s.isEmpty && s.toList.all fun c => c.isDigit || (128 ≤ c.toNat && u.isDigit c)

/-- The number of a decimal digit. -/
def digitValue (c : Char) : Option ℕ :=
  if c.isDigit then some (c.toNat - '0'.toNat)
  else if 128 ≤ c.toNat then u.decimal c
  else none

/-- `int` of a text of digits; one of more than 4300 is refused, and so is a digit that is not
decimal. -/
def intOfDigits (s : String) : Except ConversionError ℤ :=
  if 4300 < s.length then .error .valueError
  else
    match s.toList.mapM (digitValue u) with
    | some digits => .ok (digits.foldl (fun v d => 10 * v + d) 0 : ℕ)
    | none => .error .valueError

/-- `Merger._v2_condition_bytes31`. -/
def v2ConditionBytes31 (conditionId : String) (positionId : Option String) :
    Except ConversionError (Option (List UInt8)) :=
  match narrowV2ConditionId conditionId with
  | some narrowed => .ok (some narrowed)
  | none =>
    match positionId with
    | some text =>
      if strIsdigit u text then do
        let p ← intOfDigits u text
        let bytes ← v2ConditionIdBytes31 p
        return some bytes
      else .ok none
    | none => .ok none

end Digits

/-! ### Numbers -/

/-- Stripping the outcome byte is shifting it out and back. -/
theorem conditionIdOf_natCast (p : ℕ) : conditionIdOf p = (p / 256 * 256 : ℕ) := by
  show ((Nat.ldiff p 255 : ℕ) : ℤ) = _
  congr 1
  refine Nat.eq_of_testBit_eq fun k => ?_
  have hmask : Nat.testBit 255 k = decide (k < 8) := Nat.testBit_two_pow_sub_one 8 k
  have hshift : Nat.testBit (p / 256 * 256) k = (decide (8 ≤ k) && Nat.testBit (p / 256) (k - 8)) :=
    Nat.testBit_mul_two_pow (p / 256) k 8
  have hback : Nat.testBit (p / 256) (k - 8) = Nat.testBit p (k - 8 + 8) :=
    Nat.testBit_div_two_pow (n := 8) p (k - 8)
  rw [Nat.testBit_ldiff, hmask, hshift, hback]
  rcases lt_or_ge k 8 with hk | hk
  · simp [hk, hk.not_ge]
  · rw [Nat.sub_add_cancel hk]
    simp [hk, hk.not_gt]

theorem conditionIdFromPositionId_natCast (p : ℕ) :
    conditionIdFromPositionId p = (p / 256 : ℕ) := by
  unfold conditionIdFromPositionId
  rw [Int.shiftRight_eq_div_pow]
  norm_cast

theorem v2ConditionIdBytes31_natCast {p : ℕ} (hp : p < 2 ^ 256) :
    v2ConditionIdBytes31 p = .ok (bigEndian 31 (p / 256)) := by
  have hfits : p / 256 < 256 ^ 31 := by
    rw [Nat.div_lt_iff_lt_mul (by decide)]
    exact hp
  unfold v2ConditionIdBytes31 bytes31
  rw [if_neg (Int.not_lt.2 (Int.natCast_nonneg p)), conditionIdFromPositionId_natCast, if_pos]
  · rfl
  · exact ⟨Int.natCast_nonneg _, by exact_mod_cast hfits⟩

/-! ### Texts -/

/-- The texts of some bytes: their hex digits, in either case, with or without the mark, and without
the first digit where it is a zero. -/
def SpellsBytes (s : String) (bytes : List UInt8) : Prop :=
  ∃ mark ∈ [[], ['0', 'x'], ['0', 'X']], ∃ text, s.toList = mark ++ text ∧
    (Hex.Writes text bytes ∨ Hex.Writes ('0' :: text) bytes)

/-- The marked text in small letters is one of them. -/
theorem spellsBytes_encode (bytes : List UInt8) :
    SpellsBytes (String.ofList ('0' :: 'x' :: Hex.encode bytes)) bytes :=
  ⟨['0', 'x'], by simp, Hex.encode bytes, String.toList_ofList, .inl (Hex.writes_encode bytes)⟩

/-- Without the mark there is nothing to take off: neither of its letters is a digit. -/
theorem afterMark_append {mark text : List Char} (hmark : mark ∈ [[], ['0', 'x'], ['0', 'X']])
    (hdigits : ∀ c ∈ text, ∃ n, Hex.digit? c = some n) : afterMark (mark ++ text) = text := by
  have hx : Hex.digit? 'x' = none := by decide
  have hX : Hex.digit? 'X' = none := by decide
  simp only [List.mem_cons, List.not_mem_nil, or_false] at hmark
  rcases hmark with rfl | rfl | rfl
  · rw [List.nil_append]
    unfold afterMark
    split
    · obtain ⟨n, hn⟩ := hdigits 'x' (by simp)
      cases hx.symm.trans hn
    · obtain ⟨n, hn⟩ := hdigits 'X' (by simp)
      cases hX.symm.trans hn
    · rfl
  · rfl
  · rfl

/-- **A text of some bytes** is read as them. -/
theorem hexToBytes_of_spells {s : String} {bytes : List UInt8} (h : SpellsBytes s bytes) :
    hexToBytes s = some bytes := by
  obtain ⟨mark, hmark, text, htext, hwrites⟩ := h
  have hdigits : ∀ c ∈ text, ∃ n, Hex.digit? c = some n := fun c hc => by
    rcases hwrites with hwrites | hwrites
    · exact Hex.digit?_of_mem_writes hwrites hc
    · exact Hex.digit?_of_mem_writes hwrites (List.mem_cons_of_mem _ hc)
  unfold hexToBytes
  rw [htext, afterMark_append hmark hdigits]
  rcases hwrites with hwrites | hwrites
  · -- an even number of digits
    have hlen := Hex.length_of_writes hwrites
    simp only [if_neg (show ¬ text.length % 2 = 1 by omega)]
    exact Hex.decode_of_writes hwrites
  · have hlen := Hex.length_of_writes hwrites
    rw [List.length_cons] at hlen
    simp only [if_pos (show text.length % 2 = 1 by omega)]
    exact Hex.decode_of_writes hwrites

/-- **What is refused** of the texts of bytes: those of another length than 31, unless they are 32
with a zero at the end. -/
theorem narrowV2ConditionId_eq_none_iff {s : String} {bytes : List UInt8}
    (h : SpellsBytes s bytes) :
    narrowV2ConditionId s = none ↔
      bytes.length ≠ 31 ∧ ¬ (bytes.length = 32 ∧ bytes.getLast? = some 0) := by
  unfold narrowV2ConditionId
  rw [hexToBytes_of_spells h]
  simp only
  split_ifs with hshort hlong hzero
  · exact iff_of_false (by simp) fun hn => hn.1 hshort
  · exact iff_of_true rfl ⟨hshort, fun hpadded => hzero hpadded.2⟩
  · exact iff_of_false (by simp) fun hn => hn.2 ⟨hlong, not_not.1 hzero⟩
  · exact iff_of_true rfl ⟨hshort, fun hpadded => hlong hpadded.1⟩

/-- The 31 bytes of a condition id are taken as they are. -/
theorem narrowV2ConditionId_of_short {s : String} {n : ℕ} (h : SpellsBytes s (bigEndian 31 n)) :
    narrowV2ConditionId s = some (bigEndian 31 n) := by
  unfold narrowV2ConditionId
  rw [hexToBytes_of_spells h]
  simp only [length_bigEndian, if_true]

/-- Of the 32 bytes of a padded one the zero is left out. -/
theorem narrowV2ConditionId_of_padded {s : String} {n : ℕ}
    (h : SpellsBytes s (bigEndian 32 (n * 256))) :
    narrowV2ConditionId s = some (bigEndian 31 n) := by
  have hzero : UInt8.ofNat (n * 256) = 0 := by
    rw [← UInt8.toNat_inj, UInt8.toNat_ofNat']
    exact Nat.mul_mod_left n 256
  have hlast : (bigEndian 32 (n * 256)).getLast? = some 0 := by
    rw [getLast?_bigEndian_succ, hzero]
  have htake : (bigEndian 32 (n * 256)).take 31 = bigEndian 31 n := by
    rw [take_bigEndian_succ, Nat.mul_div_cancel n (by decide)]
  unfold narrowV2ConditionId
  rw [hexToBytes_of_spells h]
  simp only [length_bigEndian, hlast, htake]
  rfl

section Decimal

variable (u : UnicodeDigits)

theorem strIsdigit_repr (p : ℕ) : strIsdigit u p.repr = true := by
  unfold strIsdigit
  rw [Nat.toList_repr, Bool.and_eq_true, List.all_eq_true]
  constructor
  · simp
  · intro c hc
    rw [Nat.isDigit_of_mem_toDigits (by decide) (by decide) hc, Bool.true_or]

/-- The decimal text of a number is read as it. -/
theorem intOfDigits_repr {p : ℕ} (hp : p < 2 ^ 256) : intOfDigits u p.repr = .ok p := by
  have hlen : p.repr.length ≤ 78 := by
    rw [Nat.length_repr_le_iff (by decide)]
    exact hp.trans (by decide)
  have hdigits : p.repr.toList.mapM (digitValue u) =
      some ((Nat.toDigits 10 p).map fun c => c.toNat - '0'.toNat) := by
    rw [Nat.toList_repr]
    have hall : ∀ c ∈ Nat.toDigits 10 p, c.isDigit = true := fun c hc =>
      Nat.isDigit_of_mem_toDigits (by decide) (by decide) hc
    generalize Nat.toDigits 10 p = text at hall ⊢
    induction text with
    | nil => rfl
    | cons c text ih =>
      obtain ⟨hc, htext⟩ := List.forall_mem_cons.1 hall
      rw [List.mapM_cons, ih htext, digitValue, if_pos hc]
      rfl
  unfold intOfDigits
  rw [if_neg (by omega), hdigits]
  simp only
  rw [List.foldl_map]
  have hvalue := Nat.ofDigitChars_toDigits (b := 10) (n := p) (by decide) (by decide)
  rw [Nat.ofDigitChars_eq_foldl] at hvalue
  rw [hvalue]

/-- An unusable condition id is replaced by the field of the position id. -/
theorem v2ConditionBytes31_of_unusable {q : ℕ} (hq : q < 2 ^ 256) {s : String}
    (hs : narrowV2ConditionId s = none) :
    v2ConditionBytes31 u s (some q.repr) = .ok (some (bigEndian 31 (q / 256))) := by
  have hbytes := v2ConditionIdBytes31_natCast hq
  generalize bigEndian 31 (q / 256) = bytes at hbytes ⊢
  unfold v2ConditionBytes31
  rw [hs]
  simp only [strIsdigit_repr, if_true]
  have hread : intOfDigits u q.repr = pure (q : ℤ) := intOfDigits_repr u hq
  rw [hread, pure_bind, hbytes]
  rfl

end Decimal

/-- **Both routes to a V2 condition id agree.**  For a position id of 256 bits the 31 bytes are
those of its upper 31 bytes, whether the condition id comes as them, as the padded value, or is
unusable and the position id is taken instead; ids with one condition id give the same; and the text
of any other bytes is not taken for a condition id. -/
theorem v2_condition_routes_agree (u : UnicodeDigits) {p : ℕ} (hp : p < 2 ^ 256) :
    let bytes := bigEndian 31 (p >>> 8)
    (bytes.length = 31 ∧ value bytes = p >>> 8) ∧
      (∀ s position, SpellsBytes s bytes → v2ConditionBytes31 u s position = .ok (some bytes)) ∧
      (∀ s position, SpellsBytes s (bigEndian 32 (conditionIdOf p).toNat) →
        v2ConditionBytes31 u s position = .ok (some bytes)) ∧
      (∀ s, narrowV2ConditionId s = none →
        v2ConditionBytes31 u s (some p.repr) = .ok (some bytes)) ∧
      (∀ q : ℕ, q < 2 ^ 256 → conditionIdOf q = conditionIdOf p →
        ∀ s, narrowV2ConditionId s = none →
        v2ConditionBytes31 u s (some q.repr) = v2ConditionBytes31 u s (some p.repr)) ∧
      ∀ s raw, SpellsBytes s raw → raw.length ≠ 31 →
        ¬ (raw.length = 32 ∧ raw.getLast? = some 0) → narrowV2ConditionId s = none := by
  have hshift : p >>> 8 = p / 256 := Nat.shiftRight_eq_div_pow p 8
  have hfits : p / 256 < 256 ^ 31 := by
    rw [Nat.div_lt_iff_lt_mul (by decide)]
    exact hp
  intro bytes
  have hbytes : bytes = bigEndian 31 (p / 256) := by rw [← hshift]
  rw [hbytes, hshift]
  refine ⟨⟨length_bigEndian 31 _, value_bigEndian hfits⟩, fun s position h => ?_,
    fun s position h => ?_, fun s hs => v2ConditionBytes31_of_unusable u hp hs,
    fun q hq hsame s hs => ?_,
    fun s raw h hshort hpadded => (narrowV2ConditionId_eq_none_iff h).2 ⟨hshort, hpadded⟩⟩
  · unfold v2ConditionBytes31
    rw [narrowV2ConditionId_of_short h]
  · rw [conditionIdOf_natCast, Int.toNat_natCast] at h
    unfold v2ConditionBytes31
    rw [narrowV2ConditionId_of_padded h]
  · rw [conditionIdOf_natCast, conditionIdOf_natCast, Int.natCast_inj] at hsame
    have hfield : q / 256 = p / 256 := by omega
    rw [v2ConditionBytes31_of_unusable u hq hs, v2ConditionBytes31_of_unusable u hp hs, hfield]

/-- The documented YES id, which ends in a zero byte: the padded text of its condition id, and none
at all with the id of the NO token. -/
theorem v2_condition_routes_agree_documented :
    let yes : ℕ := 651150819117105875331414918119047680898421632356043490229292782433651916800
    let u : UnicodeDigits := ⟨fun _ => false, fun _ => none⟩
    let padded := String.ofList ('0' :: 'x' :: Hex.encode (bigEndian 32 (conditionIdOf yes).toNat))
    v2ConditionBytes31 u padded none = .ok (some (bigEndian 31 (yes >>> 8))) ∧
      v2ConditionBytes31 u "" (some (yes + 1).repr) = v2ConditionBytes31 u "" (some yes.repr) := by
  intro yes u padded
  obtain ⟨-, -, hpadded, -, hsame, -⟩ := @v2_condition_routes_agree u yes (by decide +kernel)
  exact ⟨hpadded padded none (spellsBytes_encode _),
    hsame (yes + 1) (by decide +kernel) (by decide +kernel) "" (by decide +kernel)⟩

end Polymaker
