import Mathlib.Algebra.Order.Field.Basic
import Mathlib.Analysis.SpecialFunctions.Pow.Real
import Mathlib.Tactic.Linarith
import Mathlib.Tactic.Ring

/-!
# Averages that forget

An exponentially weighted average keeps a share of what it was and gives the rest to the newest
value.

* `Decay`: the share that an elapsed time leaves, a number in `(0, 1]`;
* `blend w a x`: the average `a` after the value `x`, with the share `w` kept;
* `sq_blend_le`: the square of an average stays below the average of the squares;
* `le_mean`, `mean_le`: a mean of two values with weights lies between them;
* `Between l x`: the value `x` lies between the least and the greatest element of the list `l`;
* `Decay.halfLife h`: the share `2 ^ (-t / h)`, which elapsed times multiply.
-/

/-- A decay: the share that is left after an elapsed time. -/
structure Decay (K : Type*) [Field K] [LinearOrder K] where
  share : K → K
  pos : ∀ ⦃t⦄, 0 ≤ t → 0 < share t
  le_one : ∀ ⦃t⦄, 0 ≤ t → share t ≤ 1

section Blend

variable {K : Type*} [Field K]

/-- The average `a` after the value `x`, with the share `w` kept. -/
def blend (w a x : K) : K := w * a + (1 - w) * x

@[simp] theorem blend_one (a x : K) : blend 1 a x = a := by simp [blend]

/-- To blend in nothing is to decay. -/
@[simp] theorem blend_zero_right (w a : K) : blend w a 0 = w * a := by simp [blend]

theorem blend_sub_blend_right (w a x y : K) : blend w a x - blend w a y = (1 - w) * (x - y) := by
  unfold blend; ring

theorem blend_sub_blend_left (w a b x : K) : blend w a x - blend w b x = w * (a - b) := by
  unfold blend; ring

variable [LinearOrder K] [IsStrictOrderedRing K] {w a b x y lo hi : K}

/-- The square of an average stays below the average of the squares. -/
theorem sq_blend_le (h0 : 0 ≤ w) (h1 : w ≤ 1) (h : a ^ 2 ≤ b) :
    blend w a x ^ 2 ≤ blend w b (x * x) := by
  have hgap : 0 ≤ w * (1 - w) * (a - x) ^ 2 :=
    mul_nonneg (mul_nonneg h0 (sub_nonneg.2 h1)) (sq_nonneg _)
  have hkept : 0 ≤ w * (b - a ^ 2) := mul_nonneg h0 (sub_nonneg.2 h)
  have hexpand : blend w b (x * x) - blend w a x ^ 2 =
      w * (b - a ^ 2) + w * (1 - w) * (a - x) ^ 2 := by
    unfold blend; ring
  linarith

/-- A decayed average keeps below its decayed mean square. -/
theorem sq_decay_le (h0 : 0 ≤ w) (h1 : w ≤ 1) (h : a ^ 2 ≤ b) : (w * a) ^ 2 ≤ w * b := by
  have hblend := sq_blend_le (x := 0) h0 h1 h
  rwa [mul_zero, blend_zero_right, blend_zero_right] at hblend

theorem le_mean (ha : 0 ≤ a) (hb : 0 ≤ b) (hab : 0 < a + b) (hx : lo ≤ x) (hy : lo ≤ y) :
    lo ≤ (x * a + y * b) / (a + b) := by
  rw [le_div_iff₀ hab, mul_add]
  exact add_le_add (mul_le_mul_of_nonneg_right hx ha) (mul_le_mul_of_nonneg_right hy hb)

theorem mean_le (ha : 0 ≤ a) (hb : 0 ≤ b) (hab : 0 < a + b) (hx : x ≤ hi) (hy : y ≤ hi) :
    (x * a + y * b) / (a + b) ≤ hi := by
  rw [div_le_iff₀ hab, mul_add]
  exact add_le_add (mul_le_mul_of_nonneg_right hx ha) (mul_le_mul_of_nonneg_right hy hb)

end Blend

/-! ### Between the values of a list -/

/-- Two elements of the list have the value between them. -/
def Between {K : Type*} [LE K] (l : List K) (x : K) : Prop := ∃ lo ∈ l, ∃ hi ∈ l, lo ≤ x ∧ x ≤ hi

namespace Between

variable {K : Type*} [LinearOrder K] {l : List K} {x y : K}

theorem of_mem (h : x ∈ l) : Between l x := ⟨x, h, x, h, le_rfl, le_rfl⟩

theorem lt_of_forall (h : Between l x) (hl : ∀ z ∈ l, y < z) : y < x := by
  obtain ⟨lo, hlo, -, -, hle, -⟩ := h
  exact (hl lo hlo).trans_le hle

/-- A mean with a new value lies between the values when that one is among them. -/
theorem mean [Field K] [IsStrictOrderedRing K] {a b : K} (h : Between l x) (ha : 0 ≤ a)
    (hb : 0 ≤ b) (hab : 0 < a + b) : Between (l ++ [y]) ((x * a + y * b) / (a + b)) := by
  obtain ⟨lo, hlo, hi, hhi, hle, hge⟩ := h
  have hmem {z : K} (hz : z = lo ∨ z = hi ∨ z = y) : z ∈ l ++ [y] := by
    rcases hz with rfl | rfl | rfl
    · exact List.mem_append_left _ hlo
    · exact List.mem_append_left _ hhi
    · exact List.mem_append_right _ (List.mem_singleton.2 rfl)
  refine ⟨min lo y, hmem ?_, max hi y, hmem ?_, ?_, ?_⟩
  · exact (min_choice lo y).imp_right .inr
  · exact .inr (max_choice hi y)
  · exact le_mean ha hb hab ((min_le_left _ _).trans hle) (min_le_right _ _)
  · exact mean_le ha hb hab (hge.trans (le_max_left _ _)) (le_max_right _ _)

end Between

namespace Decay

variable {K : Type*} [Field K] [LinearOrder K]

theorem nonneg (d : Decay K) {t : K} (h : 0 ≤ t) : 0 ≤ d.share t := (d.pos h).le

/-- Half of it is left after the time `h`. -/
noncomputable def halfLife (h : ℝ) (hpos : 0 < h) : Decay ℝ where
  share t := (1 / 2 : ℝ) ^ (t / h)
  pos := fun _ _ => Real.rpow_pos_of_pos (by norm_num) _
  le_one := fun _ ht => Real.rpow_le_one (by norm_num) (by norm_num) (div_nonneg ht hpos.le)

section HalfLife

variable {h : ℝ} {hpos : 0 < h}

@[simp] theorem halfLife_zero : (halfLife h hpos).share 0 = 1 := by
  show (1 / 2 : ℝ) ^ (0 / h) = 1
  rw [zero_div, Real.rpow_zero]

theorem halfLife_add (s t : ℝ) :
    (halfLife h hpos).share (s + t) = (halfLife h hpos).share s * (halfLife h hpos).share t := by
  show (1 / 2 : ℝ) ^ ((s + t) / h) = (1 / 2 : ℝ) ^ (s / h) * (1 / 2 : ℝ) ^ (t / h)
  rw [add_div, Real.rpow_add (by norm_num)]

theorem halfLife_ne_zero (t : ℝ) : (halfLife h hpos).share t ≠ 0 :=
  (Real.rpow_pos_of_pos (by norm_num) _).ne'

theorem halfLife_lt_one {t : ℝ} (ht : 0 < t) : (halfLife h hpos).share t < 1 :=
  Real.rpow_lt_one (by norm_num) (by norm_num) (div_pos ht hpos)

end HalfLife

end Decay
