import Mathlib.Data.Rat.Defs
import Mathlib.Algebra.Order.Ring.Rat
import Mathlib.Tactic.Common

/-!
# Floats

What a program does with the floats of its host language.

* `HostFloat`: the operations; `IsNan`: a float that is not equal to itself;
* the rationals, as floats without rounding, infinities and values that are no number;
* `ExtFloat`: the rationals with these.
-/

/-- The floats of a host: the rationals among them, and whatever else it has, such as infinities and
values that are no number. -/
class HostFloat (F : Type) where
  ofRat : ℚ → F
  eq : F → F → Bool
  lt : F → F → Prop
  le : F → F → Prop
  sub : F → F → F
  div : F → F → F
  decidableLt : DecidableRel lt
  decidableLe : DecidableRel le

namespace HostFloat

instance {F : Type} [HostFloat F] : DecidableRel (lt : F → F → Prop) := decidableLt

instance {F : Type} [HostFloat F] : DecidableRel (le : F → F → Prop) := decidableLe

instance : HostFloat ℚ where
  ofRat x := x
  eq x y := decide (x = y)
  lt x y := x < y
  le x y := x ≤ y
  sub x y := x - y
  div x y := x / y
  decidableLt x y := inferInstanceAs (Decidable (x < y))
  decidableLe x y := inferInstanceAs (Decidable (x ≤ y))

section Rational

variable (x y : ℚ)

@[simp] theorem ofRat_rat : (ofRat x : ℚ) = x := rfl

@[simp] theorem eq_rat : eq x y = decide (x = y) := rfl

@[simp] theorem lt_rat : lt x y ↔ x < y := Iff.rfl

@[simp] theorem le_rat : le x y ↔ x ≤ y := Iff.rfl

@[simp] theorem sub_rat : sub x y = x - y := rfl

@[simp] theorem div_rat : div x y = x / y := rfl

end Rational

/-- A value that is no number. -/
def IsNan {F : Type} [HostFloat F] (x : F) : Prop := ¬ eq x x

instance {F : Type} [HostFloat F] : DecidablePred (IsNan : F → Prop) :=
  fun _ => inferInstanceAs (Decidable (¬ _))

end HostFloat

/-- A rational, an infinity or a value that is no number. -/
inductive ExtFloat
  | fin (x : ℚ)
  | inf (negative : Bool)
  | nan
  deriving DecidableEq

namespace ExtFloat

/-- Equality, which no value that is no number has with any. -/
def eq : ExtFloat → ExtFloat → Bool
  | fin x, fin y => decide (x = y)
  | inf a, inf b => a == b
  | _, _ => false

/-- The order, in which a value that is no number stands nowhere. -/
def lt : ExtFloat → ExtFloat → Prop
  | fin x, fin y => x < y
  | inf a, fin _ => a = true
  | fin _, inf b => b = false
  | inf a, inf b => a = true ∧ b = false
  | nan, _ | _, nan => False

instance : DecidableRel lt
  | fin x, fin y => inferInstanceAs (Decidable (x < y))
  | inf a, fin _ => inferInstanceAs (Decidable (a = true))
  | fin _, inf b => inferInstanceAs (Decidable (b = false))
  | inf a, inf b => inferInstanceAs (Decidable (a = true ∧ b = false))
  | nan, fin _ | nan, inf _ | nan, nan | fin _, nan | inf _, nan => .isFalse id

/-- Subtraction. -/
def sub : ExtFloat → ExtFloat → ExtFloat
  | fin x, fin y => fin (x - y)
  | inf a, inf b => if a = b then nan else inf a
  | inf a, fin _ => inf a
  | fin _, inf b => inf !b
  | nan, _ | _, nan => nan

/-- Division by anything but zero. -/
def div : ExtFloat → ExtFloat → ExtFloat
  | fin x, fin y => fin (x / y)
  | inf a, fin y => inf (a ^^ decide (y < 0))
  | fin _, inf _ => fin 0
  | inf _, inf _ => nan
  | nan, _ | _, nan => nan

instance : HostFloat ExtFloat where
  ofRat := fin
  eq := eq
  lt := lt
  le x y := lt x y ∨ eq x y
  sub := sub
  div := div
  decidableLt := inferInstance
  decidableLe _ _ := inferInstanceAs (Decidable (_ ∨ _))

/-- What is no number is neither at most a rational nor above it; what is one is one of the two. -/
theorem not_le_ofRat_iff {x : ExtFloat} (h : ¬ HostFloat.IsNan x) (q : ℚ) :
    ¬ HostFloat.le x (HostFloat.ofRat q) ↔ HostFloat.lt (HostFloat.ofRat q) x := by
  change ¬ (lt x (fin q) ∨ eq x (fin q)) ↔ lt (fin q) x
  cases x with
  | fin a =>
    simp only [lt, eq, decide_eq_true_eq, ← le_iff_lt_or_eq, not_le]
  | inf negative => cases negative <;> simp [lt, eq]
  | nan => exact absurd (by simp [HostFloat.IsNan, HostFloat.eq, eq]) h

end ExtFloat
