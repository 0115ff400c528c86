import Mathlib.Algebra.Group.Nat.Defs
import Polymaker.Lib.Payload
import Polymaker.Lib.Raising

/-!
# Reading a payload that may raise

The operations of a host language on a decoded JSON value, with what each of them raises.

* `Exc`: the exceptions;
* `number`, `required`, `subscript`, `iterateOrEmpty`: a number, a member, a member of any value,
  and the items of a loop over a value that may be missing;
* `number?`: a number where every exception is handled alike;
* `Huge`: an integer beyond the range of floats, the only value whose conversion raises something
  else than what a reader expects;
* `escapes_number`, `escapes_pair`: what escapes from reading one number or two;
* `objects`: the objects of a payload, which may be an array of them; `Loaded`: what decoding a text
  gives;
* `upperText`: a text in upper case, for a comparison with an ASCII word;
* `equal`: equality of decoded values, numbers and booleans by what they are worth.
-/

namespace JsonTree

open Raising

/-- What an operation on a value or a text raises. -/
inductive Exc
  | key
  | value
  | type
  | attribute
  | overflow
  | decode
  | recursion
  deriving DecidableEq, Repr

/-- Where the range of floats ends: from here on an integer rounds beyond the greatest of them. -/
def floatBound : ℕ := 2 ^ 1024 - 2 ^ 970

variable {F : Type}

/-- An integer that no float is near. -/
def Huge : JsonTree F → Prop
  | .int k => floatBound ≤ k.natAbs
  | _ => False

instance : DecidablePred (Huge : JsonTree F → Prop)
  | .int k => inferInstanceAs (Decidable (floatBound ≤ k.natAbs))
  | .null | .bool _ | .float _ | .str _ | .arr _ | .obj _ => .isFalse id

section Numbers

variable [HostFloat F] (H : Host F)

/-- A value as a number. -/
def number : JsonTree F → Except Exc F
  | .bool b => .ok (HostFloat.ofRat (if b then 1 else 0))
  | .int k => if Huge (.int k : JsonTree F) then .error .overflow else .ok (HostFloat.ofRat k)
  | .float x => .ok x
  | .str s =>
    match H.floatOfString s with
    | some x => .ok x
    | none => .error .value
  | .null | .arr _ | .obj _ => .error .type

/-- A value as a number, `none` where reading it raises. -/
def number? (x : JsonTree F) : Option F := (number H x).toOption

/-- A value that reads as a number. -/
def Readable (x : JsonTree F) : Prop := (number? H x).isSome

instance : DecidablePred (Readable H) := fun _ => inferInstanceAs (Decidable (_ = true))

variable {H} {handled : List Exc}

theorem number?_eq_some {x : JsonTree F} {v : F} : number? H x = some v ↔ number H x = .ok v :=
  toOption_eq_some

theorem readable_iff {x : JsonTree F} : Readable H x ↔ ∃ v, number H x = .ok v := by
  simp only [Readable, Option.isSome_iff_exists, number?_eq_some]

/-- A conversion whose usual exceptions are handled raises on huge integers alone. -/
theorem escapes_number (hv : Exc.value ∈ handled) (ht : Exc.type ∈ handled)
    (ho : Exc.overflow ∉ handled) {x : JsonTree F} :
    Escapes handled (number H x) ↔ Huge x := by
  cases x with
  | int k =>
    rw [number]
    split_ifs with h <;> simp [h, ho]
  | str s => cases hs : H.floatOfString s <;> simp [number, Huge, hs, hv]
  | _ => simp [number, Huge, ht]

/-- With the usual exceptions handled, reading a number gives it or nothing. -/
theorem tryExcept_number (hv : Exc.value ∈ handled) (ht : Exc.type ∈ handled)
    (ho : Exc.overflow ∉ handled) {x : JsonTree F} (h : ¬ Huge x) :
    tryExcept handled (number H x) = .ok (number? H x) :=
  tryExcept_of_not_escapes (mt (escapes_number hv ht ho).1 h)

variable (H) in
/-- The first number overflows, or the second does after the first was read. -/
def PairHuge (x y : JsonTree F) : Prop := Huge x ∨ Readable H x ∧ Huge y

instance (x y : JsonTree F) : Decidable (PairHuge H x y) := inferInstanceAs (Decidable (_ ∨ _))

variable (H) in
/-- Two numbers, one after the other. -/
def pair (x y : JsonTree F) : Except Exc (F × F) := do
  let a ← number H x
  let b ← number H y
  pure (a, b)

theorem escapes_pair (hv : Exc.value ∈ handled) (ht : Exc.type ∈ handled)
    (ho : Exc.overflow ∉ handled) {x y : JsonTree F} :
    Escapes handled (pair H x y) ↔ PairHuge H x y := by
  unfold pair PairHuge
  simp only [escapes_bind, not_escapes_pure, and_false, exists_false, or_false,
    escapes_number hv ht ho, exists_and_right, readable_iff]

/-- Two numbers, where every exception is handled alike. -/
theorem toOption_pair (x y : JsonTree F) :
    (pair H x y).toOption = (number? H x).bind fun a => (number? H y).map fun b => (a, b) := by
  unfold pair number?
  cases number H x with
  | error e => rfl
  | ok a => cases number H y <;> rfl

end Numbers

/-! ### Members and items -/

section Access

variable {handled : List Exc}

/-- A member that an object has to have. -/
def required (d : List (String × JsonTree F)) (key : String) : Except Exc (JsonTree F) :=
  match d.lookup key with
  | some x => .ok x
  | none => .error .key

theorem required_eq_ok {d : List (String × JsonTree F)} {key : String} {x : JsonTree F} :
    required d key = .ok x ↔ d.lookup key = some x := by
  unfold required
  cases d.lookup key <;> simp

theorem not_escapes_required (hk : Exc.key ∈ handled) (d : List (String × JsonTree F))
    (key : String) : ¬ Escapes handled (required d key) := by
  unfold required
  cases d.lookup key <;> simp [hk]

/-- A required member that is not there reads as `null`, which is no number. -/
theorem required_bind_number_eq_ok [HostFloat F] {H : Host F} {d : List (String × JsonTree F)}
    {key : String} {v : F} :
    (required d key >>= number H) = .ok v ↔ number H (getMember d key) = .ok v := by
  unfold required getMember getMemberD
  cases d.lookup key <;> simp [bind, Except.bind, number]

theorem escapes_required_bind_number (hk : Exc.key ∈ handled) (hv : Exc.value ∈ handled)
    (ht : Exc.type ∈ handled) (ho : Exc.overflow ∉ handled) [HostFloat F] {H : Host F}
    {d : List (String × JsonTree F)} {key : String} :
    Escapes handled (required d key >>= number H) ↔ Huge (getMember d key) := by
  rw [escapes_bind, or_iff_right (not_escapes_required hk d key)]
  simp only [required_eq_ok, escapes_number hv ht ho]
  unfold getMember getMemberD
  cases d.lookup key <;> simp [Huge]

/-- A member of a value. -/
def subscript (x : JsonTree F) (key : String) : Except Exc (JsonTree F) :=
  match x with
  | .obj d => required d key
  | _ => .error .type

variable [HostFloat F]

/-- A loop over the value, or over nothing where it is false, can start. -/
def Iterable (x : JsonTree F) : Prop := truthy x → (items x).isSome

instance : DecidablePred (Iterable : JsonTree F → Prop) :=
  fun _ => inferInstanceAs (Decidable (_ → _))

/-- What such a loop goes through. -/
def itemsOrEmpty (x : JsonTree F) : List (JsonTree F) := (items x).getD []

/-- The start of such a loop. -/
def iterateOrEmpty (x : JsonTree F) : Except Exc (List (JsonTree F)) :=
  if truthy x then
    match items x with
    | some l => .ok l
    | none => .error .type
  else .ok []

theorem itemsOrEmpty_of_not_truthy {x : JsonTree F} (h : ¬ truthy x) : itemsOrEmpty x = [] := by
  unfold itemsOrEmpty
  cases x with
  | str s =>
    have hs : s = "" := by simpa [truthy] using h
    simp [hs, items]
  | arr l =>
    have hl : l = [] := by simpa [truthy] using h
    simp [hl, items]
  | obj d =>
    have hd : d = [] := by simpa [truthy] using h
    simp [hd, items]
  | _ => rfl

theorem iterateOrEmpty_eq_ok {x : JsonTree F} {l : List (JsonTree F)} :
    iterateOrEmpty x = .ok l ↔ Iterable x ∧ l = itemsOrEmpty x := by
  unfold iterateOrEmpty Iterable
  split_ifs with h
  · unfold itemsOrEmpty
    cases items x with
    | none => simp [h]
    | some l' => simpa [h] using eq_comm
  · rw [itemsOrEmpty_of_not_truthy h]
    simp [h]

theorem iterable_of_mem {x it : JsonTree F} (h : it ∈ itemsOrEmpty x) : Iterable x := by
  intro _
  unfold itemsOrEmpty at h
  cases hx : items x with
  | none => simp [hx] at h
  | some l => rfl

theorem raises_iterateOrEmpty {x : JsonTree F} : Raises (iterateOrEmpty x) ↔ ¬ Iterable x := by
  unfold iterateOrEmpty Iterable
  split_ifs with h
  · cases items x <;> simp [h]
  · simp [h]

theorem not_escapes_iterateOrEmpty (ht : Exc.type ∈ handled) (x : JsonTree F) :
    ¬ Escapes handled (iterateOrEmpty x) := by
  unfold iterateOrEmpty
  split_ifs
  · cases items x <;> simp [ht]
  · simp

variable {β : Type} {f : JsonTree F → Except Exc (Option β)} {x : JsonTree F}

/-- A loop over a value raises when it cannot start, or when an item raises. -/
theorem raises_loop : Raises (iterateOrEmpty x >>= collect f) ↔
    ¬ Iterable x ∨ ∃ it ∈ itemsOrEmpty x, Raises (f it) := by
  rw [raises_bind, raises_iterateOrEmpty]
  simp only [iterateOrEmpty_eq_ok, raises_collect]
  by_cases hx : Iterable x
  · simp [hx]
  · simp [hx]

/-- Where the failure to start is handled, only the items are left. -/
theorem escapes_loop (ht : Exc.type ∈ handled)
    (h : ∀ it, Raises (f it) → Escapes handled (f it)) :
    Escapes handled (iterateOrEmpty x >>= collect f) ↔
      ∃ it ∈ itemsOrEmpty x, Escapes handled (f it) := by
  rw [escapes_bind, or_iff_right (not_escapes_iterateOrEmpty ht x)]
  simp only [iterateOrEmpty_eq_ok, escapes_collect fun it _ => h it]
  constructor
  · rintro ⟨l, ⟨-, rfl⟩, hesc⟩
    exact hesc
  · rintro ⟨it, hit, hesc⟩
    exact ⟨_, ⟨iterable_of_mem hit, rfl⟩, it, hit, hesc⟩

end Access

/-- The objects of a payload: those of an array, or the payload itself. -/
def objects : JsonTree F → List (List (String × JsonTree F))
  | .arr l => l.filterMap fun
    | .obj d => some d
    | _ => none
  | .obj d => [d]
  | _ => []

/-- What decoding a text gives: a value, or what it raises. -/
abbrev Loaded (F : Type := ℚ) := Except Exc (JsonTree F)

/-- The objects of what was decoded; a text that was not has none. -/
def Loaded.objects : Loaded F → List (List (String × JsonTree F))
  | .ok x => x.objects
  | .error _ => []

/-! ### Upper case -/

/-- A letter in upper case; beside the ASCII letters, those that become ASCII letters. -/
def upperLetters : Char → List Char
  | 'ı' => ['I']
  | 'ſ' => ['S']
  | 'ß' => ['S', 'S']
  | 'ﬀ' => ['F', 'F']
  | 'ﬁ' => ['F', 'I']
  | 'ﬂ' => ['F', 'L']
  | 'ﬃ' => ['F', 'F', 'I']
  | 'ﬄ' => ['F', 'F', 'L']
  | 'ﬅ' => ['S', 'T']
  | 'ﬆ' => ['S', 'T']
  | c => [c.toUpper]

/-- A text in upper case, as far as it is compared with an ASCII word. -/
def upperText (s : String) : List Char := s.toList.flatMap upperLetters

/-- A text of ASCII characters. -/
def Ascii (s : String) : Prop := ∀ c ∈ s.toList, c.toNat < 128

theorem upperText_of_ascii {s : String} (h : Ascii s) :
    upperText s = s.toList.map Char.toUpper := by
  have hletter : ∀ c ∈ s.toList, upperLetters c = [c.toUpper] := by
    intro c hc
    have hlt := h c hc
    unfold upperLetters
    split
    all_goals first
      | rfl
      | exact absurd hlt (by decide)
  unfold upperText
  rw [List.flatMap_congr hletter, ← List.map_eq_flatMap]

/-! ### Equality -/

section Equality

variable [HostFloat F]

/-- What a number or a boolean is worth. -/
def worth : JsonTree F → Option F
  | .bool b => some (HostFloat.ofRat (if b then 1 else 0))
  | .int k => some (HostFloat.ofRat k)
  | .float x => some x
  | .null | .str _ | .arr _ | .obj _ => none

mutual

/-- Equality of decoded values; the members of objects are compared in no order. -/
def equal : JsonTree F → JsonTree F → Bool
  | .null, .null => true
  | .str s, .str t => s == t
  | .arr xs, .arr ys => equalItems xs ys
  | .obj d, .obj e => d.length == e.length && equalMembers d e
  | x, y =>
    match worth x, worth y with
    | some a, some b => HostFloat.eq a b
    | _, _ => false

/-- Equality of arrays. -/
def equalItems : List (JsonTree F) → List (JsonTree F) → Bool
  | [], [] => true
  | x :: xs, y :: ys => equal x y && equalItems xs ys
  | _, _ => false

/-- Every member of the first object is one of the second. -/
def equalMembers : List (String × JsonTree F) → List (String × JsonTree F) → Bool
  | [], _ => true
  | (key, x) :: d, e =>
    (match e.lookup key with
      | some y => equal x y
      | none => false) && equalMembers d e

end

end Equality

end JsonTree
