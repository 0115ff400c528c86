import Mathlib.Algebra.Order.Floor.Ring
import Mathlib.Data.Rat.Floor
import Mathlib.Tactic.Linarith
import Mathlib.Tactic.Ring
import Mathlib.Tactic.FieldSimp
import Mathlib.Tactic.NormNum

/-!
# Rounding to decimals

Rounding of exact rationals, ties to even.

* `halfEven x`: the nearest integer, the even one of two;
* `truncate x`: the integer towards zero;
* `toDecimals n x`: the nearest multiple of `10 ^ (-n)`;
* `OnGrid n x`: `x` is such a multiple.  The grid is closed under what prices are computed by, and
  rounding keeps the order and does not pass a number of it (`toDecimals_mono`,
  `toDecimals_le_of_onGrid`);
* `abs_toDecimals_sub_le`: rounding moves a number by half a step at most.
-/

namespace Rounding

/-- The nearest integer, ties to the even one. -/
def halfEven (x : ℚ) : ℤ :=
  let f := ⌊x⌋
  if x - f < 1 / 2 then f
  else if 1 / 2 < x - f then f + 1
  else if f % 2 = 0 then f
  else f + 1

/-- `int`: what stands before the point. -/
def truncate (x : ℚ) : ℤ := if 0 ≤ x then ⌊x⌋ else ⌈x⌉

/-- The nearest number with `n` decimals, ties to the even last digit. -/
def toDecimals (n : ℕ) (x : ℚ) : ℚ := halfEven (x * 10 ^ n) / 10 ^ n

/-- The number has `n` decimals. -/
def OnGrid (n : ℕ) (x : ℚ) : Prop := ∃ k : ℤ, x = k / 10 ^ n

/-! ### Integers towards zero -/

/-- A truncation that is positive is no more than the number. -/
theorem truncate_le_of_pos {x : ℚ} (h : 0 < truncate x) : (truncate x : ℚ) ≤ x := by
  unfold truncate at *
  split_ifs at * with hx
  · exact Int.floor_le x
  · exact absurd (Int.ceil_le.2 (by simpa using (not_le.1 hx).le)) (not_le.2 h)

/-! ### Nearest integers -/

theorem abs_halfEven_sub_le (x : ℚ) : |(halfEven x : ℚ) - x| ≤ 1 / 2 := by
  have hlo := Int.floor_le x
  have hhi := Int.lt_floor_add_one x
  unfold halfEven
  simp only
  split_ifs <;> push_cast <;> rw [abs_le] <;> constructor <;> linarith

theorem floor_le_halfEven (x : ℚ) : ⌊x⌋ ≤ halfEven x := by
  unfold halfEven
  simp only
  split_ifs <;> omega

theorem halfEven_le_floor_add_one (x : ℚ) : halfEven x ≤ ⌊x⌋ + 1 := by
  unfold halfEven
  simp only
  split_ifs <;> omega

theorem halfEven_mono {x y : ℚ} (h : x ≤ y) : halfEven x ≤ halfEven y := by
  rcases (Int.floor_mono h).lt_or_eq with hlt | heq
  · -- the floors differ
    have hx := halfEven_le_floor_add_one x
    have hy := floor_le_halfEven y
    omega
  · unfold halfEven
    simp only [heq]
    split_ifs <;> first | omega | (exfalso; linarith)

@[simp] theorem halfEven_intCast (k : ℤ) : halfEven k = k := by
  unfold halfEven
  simp

/-- A half goes to the even neighbour. -/
theorem halfEven_add_half {k : ℤ} (h : k % 2 = 0) : halfEven (k + 1 / 2) = k := by
  have hfloor : ⌊(k : ℚ) + 1 / 2⌋ = k := by
    rw [Int.floor_intCast_add]
    norm_num
  unfold halfEven
  rw [hfloor]
  simp [h]

theorem halfEven_half : halfEven (1 / 2) = 0 := by
  have h := halfEven_add_half (k := 0) rfl
  simpa using h

theorem halfEven_le_of_lt {x : ℚ} {k : ℤ} (h : x < k + 1 / 2) : halfEven x ≤ k := by
  have hhalf := (abs_le.1 (abs_halfEven_sub_le x)).2
  have hlt : (halfEven x : ℚ) < k + 1 := by linarith
  exact Int.lt_add_one_iff.1 (by exact_mod_cast hlt)

/-- What rounds down to nothing. -/
theorem halfEven_eq_zero_iff {x : ℚ} (hx : 0 ≤ x) : halfEven x = 0 ↔ x ≤ 1 / 2 := by
  constructor
  · intro h
    have hhalf := (abs_le.1 (abs_halfEven_sub_le x)).1
    rw [h, Int.cast_zero] at hhalf
    linarith
  · intro h
    have hle := halfEven_mono h
    have hge : halfEven ((0 : ℤ) : ℚ) ≤ halfEven x := halfEven_mono (by exact_mod_cast hx)
    rw [halfEven_half] at hle
    rw [halfEven_intCast] at hge
    exact le_antisymm hle hge

/-! ### Decimals -/

theorem abs_toDecimals_sub_le (n : ℕ) (x : ℚ) : |toDecimals n x - x| ≤ 1 / 2 / 10 ^ n := by
  have hpos : (0 : ℚ) < 10 ^ n := by positivity
  have hx : toDecimals n x - x = (halfEven (x * 10 ^ n) - x * 10 ^ n) / 10 ^ n := by
    unfold toDecimals
    field_simp
  rw [hx, abs_div, abs_of_pos hpos]
  exact div_le_div_of_nonneg_right (abs_halfEven_sub_le _) hpos.le

theorem toDecimals_le (n : ℕ) (x : ℚ) : toDecimals n x ≤ x + 1 / 2 / 10 ^ n := by
  have h := (abs_le.1 (abs_toDecimals_sub_le n x)).2
  linarith

/-- Rounding does not pass a number of the grid. -/
theorem toDecimals_le_of_onGrid {n : ℕ} {x y : ℚ} (hy : OnGrid n y) (h : x ≤ y) :
    toDecimals n x ≤ y := by
  obtain ⟨k, rfl⟩ := hy
  have hpos : (0 : ℚ) < 10 ^ n := by positivity
  have hx : x * 10 ^ n ≤ k := (le_div_iff₀ hpos).1 h
  have hle : halfEven (x * 10 ^ n) ≤ k := halfEven_le_of_lt (by linarith)
  exact div_le_div_of_nonneg_right (by exact_mod_cast hle) hpos.le

theorem toDecimals_mono (n : ℕ) {x y : ℚ} (h : x ≤ y) : toDecimals n x ≤ toDecimals n y := by
  have hpos : (0 : ℚ) < 10 ^ n := by positivity
  refine div_le_div_of_nonneg_right ?_ hpos.le
  exact_mod_cast halfEven_mono (mul_le_mul_of_nonneg_right h hpos.le)

theorem toDecimals_eq_zero_iff {n : ℕ} {x : ℚ} (hx : 0 ≤ x) :
    toDecimals n x = 0 ↔ x * 10 ^ n ≤ 1 / 2 := by
  have hpos : (0 : ℚ) < 10 ^ n := by positivity
  rw [toDecimals, div_eq_zero_iff, or_iff_left hpos.ne', Int.cast_eq_zero,
    halfEven_eq_zero_iff (mul_nonneg hx hpos.le)]

@[simp] theorem toDecimals_zero (n : ℕ) : toDecimals n 0 = 0 :=
  (toDecimals_eq_zero_iff le_rfl).2 (by norm_num)

theorem toDecimals_of_onGrid {n : ℕ} {x : ℚ} (h : OnGrid n x) : toDecimals n x = x := by
  obtain ⟨k, rfl⟩ := h
  have hpos : (0 : ℚ) < 10 ^ n := by positivity
  unfold toDecimals
  rw [div_mul_cancel₀ _ hpos.ne', halfEven_intCast]

theorem onGrid_toDecimals (n : ℕ) (x : ℚ) : OnGrid n (toDecimals n x) := ⟨_, rfl⟩

theorem onGrid_intCast (n : ℕ) (k : ℤ) : OnGrid n k := by
  refine ⟨k * 10 ^ n, ?_⟩
  push_cast
  field_simp

theorem OnGrid.sub {n : ℕ} {x y : ℚ} (hx : OnGrid n x) (hy : OnGrid n y) : OnGrid n (x - y) := by
  obtain ⟨k, rfl⟩ := hx
  obtain ⟨l, rfl⟩ := hy
  refine ⟨k - l, ?_⟩
  push_cast
  ring

theorem OnGrid.intMul {n : ℕ} {x : ℚ} (hx : OnGrid n x) (l : ℤ) : OnGrid n (l * x) := by
  obtain ⟨k, rfl⟩ := hx
  refine ⟨l * k, ?_⟩
  push_cast
  ring

theorem OnGrid.min {n : ℕ} {x y : ℚ} (hx : OnGrid n x) (hy : OnGrid n y) : OnGrid n (min x y) := by
  rcases min_choice x y with h | h <;> rw [h] <;> assumption

theorem OnGrid.max {n : ℕ} {x y : ℚ} (hx : OnGrid n x) (hy : OnGrid n y) : OnGrid n (max x y) := by
  rcases max_choice x y with h | h <;> rw [h] <;> assumption

end Rounding
