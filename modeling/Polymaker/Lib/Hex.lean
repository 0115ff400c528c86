import Mathlib.Algebra.Group.Nat.Defs
import Mathlib.Data.List.Basic
import Mathlib.Data.Nat.Basic
import Mathlib.Tactic.Common

/-!
# Bytes and hex digits

* `Bytes.value`, `Bytes.bigEndian`: the number that bytes spell, and the bytes of a number in a
  given width; `value_bigEndian`: each number that fits is spelled;
* `take_bigEndian_succ`, `getLast?_bigEndian_succ`: a byte less width is the number shifted by a
  byte;
* `Hex.decode`: the reader of hex digits, two to a byte, with whitespace between bytes;
* `Hex.Writes`: a text spells bytes digit by digit, in either case; `decode_of_writes`: it is read
  back as them;
* `Hex.encode`: the text in small letters.
-/

namespace Bytes

/-- The number that bytes spell, the most significant one first. -/
def value (bytes : List UInt8) : ℕ := bytes.foldl (fun v b => 256 * v + b.toNat) 0

/-- The bytes of a number, the most significant one first, in a width. -/
def bigEndian : ℕ → ℕ → List UInt8
  | 0, _ => []
  | k + 1, n => bigEndian k (n / 256) ++ [UInt8.ofNat n]

@[simp] theorem length_bigEndian (k n : ℕ) : (bigEndian k n).length = k := by
  induction k generalizing n with
  | zero => rfl
  | succ k ih => rw [bigEndian, List.length_append, ih, List.length_singleton]

theorem value_append_singleton (bytes : List UInt8) (b : UInt8) :
    value (bytes ++ [b]) = 256 * value bytes + b.toNat := by
  rw [value, List.foldl_append]
  rfl

/-- **A number that fits** is spelled by its bytes. -/
theorem value_bigEndian {k n : ℕ} (h : n < 256 ^ k) : value (bigEndian k n) = n := by
  induction k generalizing n with
  | zero =>
    rw [Nat.pow_zero, Nat.lt_one_iff] at h
    exact h.symm
  | succ k ih =>
    have hrest : n / 256 < 256 ^ k := by
      rw [Nat.div_lt_iff_lt_mul (by decide)]
      rwa [Nat.pow_succ] at h
    rw [bigEndian, value_append_singleton, ih hrest, UInt8.toNat_ofNat']
    exact Nat.div_add_mod n 256

/-- Leaving out the last byte is shifting by it. -/
theorem take_bigEndian_succ (k n : ℕ) :
    (bigEndian (k + 1) n).take k = bigEndian k (n / 256) := by
  rw [bigEndian, List.take_left' (length_bigEndian k _)]

theorem getLast?_bigEndian_succ (k n : ℕ) :
    (bigEndian (k + 1) n).getLast? = some (UInt8.ofNat n) := by
  rw [bigEndian, List.getLast?_concat]

end Bytes

namespace Hex

/-- The number of a hex digit, in either case. -/
def digit? (c : Char) : Option ℕ :=
  if c.isDigit then some (c.toNat - '0'.toNat)
  else (['a', 'b', 'c', 'd', 'e', 'f'].idxOf? c.toLower).map (10 + ·)

/-- ASCII whitespace. -/
def IsSpace (c : Char) : Prop := c.toNat = 32 ∨ 9 ≤ c.toNat ∧ c.toNat ≤ 13

instance (c : Char) : Decidable (IsSpace c) := inferInstanceAs (Decidable (_ ∨ _))

/-- The bytes that a text of hex digits spells; whitespace may stand between bytes. -/
def decode : List Char → Option (List UInt8)
  | [] => some []
  | [c] => if IsSpace c then some [] else none
  | c :: d :: text =>
    if IsSpace c then decode (d :: text)
    else
      match digit? c, digit? d with
      | some high, some low => (decode text).map (UInt8.ofNat (16 * high + low) :: ·)
      | _, _ => none

/-- The two digits of a byte. -/
def nibbles (b : UInt8) : List ℕ := [b.toNat / 16, b.toNat % 16]

/-- The text spells the bytes, digit by digit. -/
def Writes (text : List Char) (bytes : List UInt8) : Prop :=
  text.map digit? = (bytes.flatMap nibbles).map some

instance (text : List Char) (bytes : List UInt8) : Decidable (Writes text bytes) :=
  inferInstanceAs (Decidable (_ = _))

theorem not_isSpace_of_digit? {c : Char} {n : ℕ} (h : digit? c = some n) : ¬ IsSpace c := by
  intro hspace
  have hspaces : ∀ k ∈ [9, 10, 11, 12, 13, 32], digit? (Char.ofNat k) = none := by decide
  have hmem : c.toNat ∈ [9, 10, 11, 12, 13, 32] := by
    unfold IsSpace at hspace
    simp only [List.mem_cons, List.not_mem_nil, or_false]
    omega
  have hnone := hspaces _ hmem
  rw [Char.ofNat_toNat, h] at hnone
  cases hnone

theorem writes_cons_iff {text : List Char} {b : UInt8} {bytes : List UInt8} :
    Writes text (b :: bytes) ↔ ∃ c d rest, text = c :: d :: rest ∧
      digit? c = some (b.toNat / 16) ∧ digit? d = some (b.toNat % 16) ∧ Writes rest bytes := by
  unfold Writes
  constructor
  · intro h
    rw [List.flatMap_cons, nibbles, List.cons_append, List.cons_append, List.nil_append,
      List.map_cons, List.map_cons] at h
    obtain ⟨c, text, rfl, hc, h⟩ := List.map_eq_cons_iff.1 h
    obtain ⟨d, rest, rfl, hd, h⟩ := List.map_eq_cons_iff.1 h
    exact ⟨c, d, rest, rfl, hc, hd, h⟩
  · rintro ⟨c, d, rest, rfl, hc, hd, h⟩
    rw [List.map_cons, List.map_cons, hc, hd, h]
    rfl

/-- **A text that spells bytes** is read back as them. -/
theorem decode_of_writes {text : List Char} {bytes : List UInt8} (h : Writes text bytes) :
    decode text = some bytes := by
  induction bytes generalizing text with
  | nil =>
    have hnil : text = [] := List.map_eq_nil_iff.1 h
    rw [hnil]
    rfl
  | cons b bytes ih =>
    obtain ⟨c, d, rest, rfl, hc, hd, hrest⟩ := writes_cons_iff.1 h
    have hbyte : UInt8.ofNat (16 * (b.toNat / 16) + b.toNat % 16) = b := by
      rw [Nat.div_add_mod, UInt8.ofNat_toNat]
    rw [decode, if_neg (not_isSpace_of_digit? hc), hc, hd, ih hrest]
    simp only [hbyte, Option.map_some]

theorem length_of_writes {text : List Char} {bytes : List UInt8} (h : Writes text bytes) :
    text.length = 2 * bytes.length := by
  induction bytes generalizing text with
  | nil => exact congrArg List.length (List.map_eq_nil_iff.1 h)
  | cons b bytes ih =>
    obtain ⟨c, d, rest, rfl, -, -, hrest⟩ := writes_cons_iff.1 h
    rw [List.length_cons, List.length_cons, List.length_cons, ih hrest]
    omega

theorem Writes.append {text text' : List Char} {bytes bytes' : List UInt8} (h : Writes text bytes)
    (h' : Writes text' bytes') : Writes (text ++ text') (bytes ++ bytes') := by
  unfold Writes at *
  rw [List.map_append, h, h', List.flatMap_append, List.map_append]

/-- Zeros spell zeros. -/
theorem writes_replicate_zero (k : ℕ) :
    Writes (List.replicate (2 * k) '0') (List.replicate k 0) := by
  induction k with
  | zero => rfl
  | succ k ih => exact writes_cons_iff.2 ⟨'0', '0', _, rfl, by decide, by decide, ih⟩

/-- The text of bytes in small letters. -/
def encode (bytes : List UInt8) : List Char := (bytes.flatMap nibbles).map Nat.digitChar

theorem writes_encode (bytes : List UInt8) : Writes (encode bytes) bytes := by
  have hdigit : ∀ n < 16, digit? (Nat.digitChar n) = some n := by decide
  unfold Writes encode
  rw [List.map_map]
  refine List.map_congr_left fun n hn => hdigit n ?_
  obtain ⟨b, -, hn⟩ := List.mem_flatMap.1 hn
  have hb := b.toNat_lt
  simp only [nibbles, List.mem_cons, List.not_mem_nil, or_false] at hn
  rcases hn with rfl | rfl <;> omega

/-- Every character of such a text is a digit. -/
theorem digit?_of_mem_writes {text : List Char} {bytes : List UInt8} (h : Writes text bytes)
    {c : Char} (hc : c ∈ text) : ∃ n, digit? c = some n := by
  have hmem := List.mem_map_of_mem (f := digit?) hc
  rw [show text.map digit? = _ from h] at hmem
  obtain ⟨n, -, hn⟩ := List.mem_map.1 hmem
  exact ⟨n, hn.symm⟩

end Hex
