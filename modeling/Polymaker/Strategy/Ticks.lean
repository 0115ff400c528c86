import Polymaker.Strategy.Quoting

/-!
# The tick grid

Prices are rounded twice: to a number of ticks, and that to the decimals of the tick.

* `half_lt_tick`: a tick of some decimals is more than half of its last decimal;
* `onGrid_priceDecimals`: a tick with six decimals has the decimals its prices are rounded to;
* `toDecimals_lt_one`, `toDecimals_pos`, `lt_roundToTick_up`: what rounding stays below, or above;
* `capBid`, `joinBid`, `stayInside`, `placeBid_eq_some_iff`: how the touch of a bid is found;
* `placeBid_spec`: what bounds it.
-/

namespace Polymaker

open Rounding

/-! ### Decimals of a tick -/

section Decimals

variable {m : MarketMeta}

theorem MarketMeta.priceDecimals_spec (m : MarketMeta) :
    m.priceDecimals ≤ 6 ∧ (10 : ℤ) ^ (6 - m.priceDecimals) ∣ halfEven (m.tickSize * 10 ^ 6) := by
  unfold priceDecimals
  cases hfind : (List.range 7).find? fun d =>
      decide ((10 : ℤ) ^ (6 - d) ∣ halfEven (m.tickSize * 10 ^ 6)) with
  | none => exact ⟨le_refl 6, by simp⟩
  | some d =>
    have hdvd := of_decide_eq_true (List.find?_some (p := fun d =>
      decide ((10 : ℤ) ^ (6 - d) ∣ halfEven (m.tickSize * 10 ^ 6))) hfind)
    have hmem := List.mem_range.1 (List.mem_of_find?_eq_some hfind)
    exact ⟨Nat.le_of_lt_succ hmem, hdvd⟩

/-- No fewer decimals would do. -/
theorem MarketMeta.not_dvd_of_lt_priceDecimals {d : ℕ} (h : d < m.priceDecimals) :
    ¬ (10 : ℤ) ^ (6 - d) ∣ halfEven (m.tickSize * 10 ^ 6) := by
  intro hdvd
  have hle := m.priceDecimals_spec.1
  unfold priceDecimals at h hle
  cases hfind : (List.range 7).find? fun d =>
      decide ((10 : ℤ) ^ (6 - d) ∣ halfEven (m.tickSize * 10 ^ 6)) with
  | none =>
    have hnone := List.find?_eq_none.1 hfind 6 (by decide)
    simp at hnone
  | some d' =>
    rw [hfind, Option.getD_some] at h hle
    have hfirst := (List.find?_range_eq_some.1 hfind).2.2 d h
    simp [hdvd] at hfirst

/-- A tick with six decimals has the decimals its prices are rounded to. -/
theorem onGrid_priceDecimals (h : OnGrid 6 m.tickSize) : OnGrid m.priceDecimals m.tickSize := by
  obtain ⟨hle, hdvd⟩ := m.priceDecimals_spec
  obtain ⟨k, hk⟩ := h
  have hsix : m.tickSize * 10 ^ 6 = k := by
    rw [hk]
    field_simp
  rw [hsix, halfEven_intCast] at hdvd
  obtain ⟨c, rfl⟩ := hdvd
  refine ⟨c, ?_⟩
  have hsplit : (10 : ℚ) ^ 6 = 10 ^ (6 - m.priceDecimals) * 10 ^ m.priceDecimals := by
    rw [← pow_add, Nat.sub_add_cancel hle]
  rw [hk, hsplit]
  push_cast
  field_simp

/-- A tick of some decimals is more than half of the last one, and three quarters of it unless there
are six. -/
theorem lt_tick_of_priceDecimals_pos (htick : 0 < m.tickSize) (h : 0 < m.priceDecimals) :
    3 / 4 ≤ m.tickSize * 10 ^ m.priceDecimals ∨
      m.priceDecimals = 6 ∧ 1 / 2 < m.tickSize * 10 ^ 6 := by
  obtain ⟨hle, c, hc⟩ := m.priceDecimals_spec
  have hround := abs_halfEven_sub_le (m.tickSize * 10 ^ 6)
  have hpos : 0 < halfEven (m.tickSize * 10 ^ 6) := by
    have hnonneg : halfEven ((0 : ℤ) : ℚ) ≤ halfEven (m.tickSize * 10 ^ 6) :=
      halfEven_mono (by push_cast; positivity)
    rw [halfEven_intCast] at hnonneg
    refine lt_of_le_of_ne hnonneg fun hzero => ?_
    exact MarketMeta.not_dvd_of_lt_priceDecimals h (by rw [← hzero]; exact dvd_zero _)
  rcases hle.lt_or_eq with hlt | hsix
  · left
    rw [hc] at hpos hround
    have hcpos : 1 ≤ c := Int.pos_of_mul_pos_right hpos (by positivity)
    have hten : (10 : ℚ) ≤ 10 ^ (6 - m.priceDecimals) := by
      have hpow : (10 : ℚ) ^ 1 ≤ 10 ^ (6 - m.priceDecimals) :=
        pow_le_pow_right₀ (by norm_num) (by omega)
      simpa using hpow
    have hsplit : (10 : ℚ) ^ 6 = 10 ^ m.priceDecimals * 10 ^ (6 - m.priceDecimals) := by
      rw [← pow_add, Nat.add_sub_cancel' hle]
    have hcq : (1 : ℚ) ≤ c := by exact_mod_cast hcpos
    have hlow := (abs_le.1 hround).2
    push_cast at hlow
    rw [hsplit, ← mul_assoc] at hlow
    generalize (10 : ℚ) ^ (6 - m.priceDecimals) = w at hlow hten
    generalize m.tickSize * 10 ^ m.priceDecimals = t at hlow ⊢
    nlinarith
  · right
    refine ⟨hsix, not_le.1 fun hhalf => ?_⟩
    have hzero : halfEven (m.tickSize * 10 ^ 6) ≤ 0 :=
      (halfEven_mono hhalf).trans halfEven_half.le
    exact hzero.not_gt hpos

theorem half_lt_tick (htick : 0 < m.tickSize) (h : 0 < m.priceDecimals) :
    1 / 2 < m.tickSize * 10 ^ m.priceDecimals := by
  rcases lt_tick_of_priceDecimals_pos htick h with hlt | ⟨hsix, hlt⟩
  · linarith
  · rwa [hsix]

end Decimals

/-! ### Rounding to the grid -/

/-- A price below one by a tick does not round to one. -/
theorem toDecimals_lt_one {tick x : ℚ} {dec : ℕ} (htick : 1 / 2 < tick * 10 ^ dec)
    (hx : x ≤ 1 - tick) : toDecimals dec x < 1 := by
  have hpos : (0 : ℚ) < 10 ^ dec := by positivity
  have hscaled : x * 10 ^ dec ≤ (1 - tick) * 10 ^ dec := mul_le_mul_of_nonneg_right hx hpos.le
  have hle : halfEven (x * 10 ^ dec) ≤ 10 ^ dec - 1 := by
    refine halfEven_le_of_lt ?_
    push_cast
    linarith
  have hle' : (halfEven (x * 10 ^ dec) : ℚ) ≤ 10 ^ dec - 1 := by exact_mod_cast hle
  unfold toDecimals
  rw [div_lt_one hpos]
  linarith

/-- A price of a tick or more does not round to zero. -/
theorem toDecimals_pos {tick x : ℚ} {dec : ℕ} (htick : 1 / 2 < tick * 10 ^ dec) (hx : tick ≤ x) :
    0 < toDecimals dec x := by
  have hpos : (0 : ℚ) < 10 ^ dec := by positivity
  have hscaled : tick * 10 ^ dec ≤ x * 10 ^ dec := mul_le_mul_of_nonneg_right hx hpos.le
  have hround := (abs_le.1 (abs_halfEven_sub_le (x * 10 ^ dec))).1
  have hunits : (0 : ℚ) < halfEven (x * 10 ^ dec) := by linarith
  exact div_pos hunits hpos

/-- A price rounded up stays above what it was above, beyond the tolerance. -/
theorem lt_roundToTick_up {x price tick : ℚ} {dec : ℕ} (htick : 0 < tick) (hgrid : OnGrid dec tick)
    (hx : x < 1 - tick) (hprice : x + eps * tick < price) :
    x < roundToTick price tick dec true := by
  have hceil : price / tick - eps ≤ (⌈price / tick - eps⌉ : ℤ) := Int.le_ceil _
  have hup : x < (⌈price / tick - eps⌉ : ℤ) * tick := by
    calc x < price - eps * tick := by linarith
      _ = (price / tick - eps) * tick := by field_simp
      _ ≤ (⌈price / tick - eps⌉ : ℤ) * tick := mul_le_mul_of_nonneg_right hceil htick.le
  unfold roundToTick
  simp only [if_true]
  rw [toDecimals_of_onGrid (hgrid.intMul _)]
  exact lt_min (lt_max_of_lt_left hup) hx

theorem tick_le_roundToTick (price : ℚ) {tick : ℚ} (htick : tick ≤ 1 - tick) (dec : ℕ) (up : Bool) :
    tick ≤ roundToTick price tick dec up := le_min (le_max_right _ _) htick

theorem roundToTick_le (price tick : ℚ) (dec : ℕ) (up : Bool) :
    roundToTick price tick dec up ≤ 1 - tick := min_le_right _ _

/-- On a tick with the decimals of its prices, a price goes to the ticks below it, inside the price
range. -/
theorem roundToTick_of_onGrid {tick : ℚ} {dec : ℕ} (hgrid : OnGrid dec tick) (price : ℚ) :
    roundToTick price tick dec false =
      min (max (⌊price / tick + eps⌋ * tick) tick) (1 - tick) := by
  unfold roundToTick
  simp only [Bool.false_eq_true, if_false]
  rw [toDecimals_of_onGrid (hgrid.intMul _)]

/-- A whole number of ticks is rounded to its decimals only. -/
theorem roundToTick_intMul {tick : ℚ} (htick : 0 < tick) (dec : ℕ) (k : ℤ) :
    roundToTick (k * tick) tick dec false =
      min (max (toDecimals dec (k * tick)) tick) (1 - tick) := by
  have hfloor : ⌊(k : ℚ) * tick / tick + eps⌋ = k := by
    rw [mul_div_cancel_right₀ _ htick.ne', Int.floor_intCast_add,
      Int.floor_eq_zero_iff.2 ⟨eps_pos.le, eps_lt_one⟩, add_zero]
  unfold roundToTick
  simp only [Bool.false_eq_true, if_false]
  rw [hfloor]

theorem roundToTick_mono {tick : ℚ} (htick : 0 < tick) (dec : ℕ) (up : Bool) {x y : ℚ}
    (h : x ≤ y) : roundToTick x tick dec up ≤ roundToTick y tick dec up := by
  have hdiv : x / tick ≤ y / tick := div_le_div_of_nonneg_right h htick.le
  have hticks : (if up then ⌈x / tick - eps⌉ else ⌊x / tick + eps⌋) ≤
      if up then ⌈y / tick - eps⌉ else ⌊y / tick + eps⌋ := by
    split_ifs
    · exact Int.ceil_mono (sub_le_sub_right hdiv eps)
    · exact Int.floor_mono (add_le_add_left hdiv eps)
  have hprice := mul_le_mul_of_nonneg_right (show ((_ : ℤ) : ℚ) ≤ (_ : ℤ) by exact_mod_cast hticks) htick.le
  exact min_le_min_right _ (max_le_max_right _ (toDecimals_mono dec hprice))

/-! ### The touch of a bid -/

/-- The target of a bid, capped at fair value less the edge and at the outer edge of the band. -/
def capBid (target tick fv : ℚ) (minEdgeTicks : ℤ) (mid rewardBand : ℚ) : ℚ :=
  let price := min target (fv - minEdgeTicks * tick)
  if 0 < rewardBand then min price (mid + rewardBand - tick) else price

/-- Joining the best bid. -/
def joinBid (bid : Option ℚ) (price : ℚ) : ℚ :=
  match bid with
  | some b => if b ≤ price then b else price
  | none => price

/-- Staying inside the best ask. -/
def stayInside (ask : Option ℚ) (tick price : ℚ) : ℚ :=
  match ask with
  | some a => if a ≤ price then a - tick else price
  | none => price

section Touch

variable {target tick fv mid rewardBand price p : ℚ} {minEdgeTicks : ℤ} {view : BookView} {dec : ℕ}

theorem capBid_le_target : capBid target tick fv minEdgeTicks mid rewardBand ≤ target := by
  unfold capBid
  simp only
  split_ifs
  · exact (min_le_left _ _).trans (min_le_left _ _)
  · exact min_le_left _ _

theorem capBid_le_edge :
    capBid target tick fv minEdgeTicks mid rewardBand ≤ fv - minEdgeTicks * tick := by
  unfold capBid
  simp only
  split_ifs
  · exact (min_le_left _ _).trans (min_le_right _ _)
  · exact min_le_right _ _

/-- Joining the best bid goes down to it. -/
theorem joinBid_some (b price : ℚ) : joinBid (some b) price = min price b := by
  show (if b ≤ price then b else price) = _
  split_ifs with h
  · exact (min_eq_right h).symm
  · exact (min_eq_left (not_le.1 h).le).symm

theorem joinBid_le (bid : Option ℚ) (price : ℚ) :
    joinBid bid price ≤ price ∧ ∀ b ∈ bid, joinBid bid price ≤ b := by
  cases bid with
  | none => exact ⟨le_refl price, by simp⟩
  | some b =>
    rw [joinBid_some]
    refine ⟨min_le_left _ _, fun b' hb => ?_⟩
    obtain rfl := Option.mem_some_iff.1 hb
    exact min_le_right _ _

/-- Staying inside the best ask goes down. -/
theorem stayInside_le (htick : 0 ≤ tick) (ask : Option ℚ) (price : ℚ) :
    stayInside ask tick price ≤ price := by
  unfold stayInside
  split
  · split_ifs with h
    · linarith
    · exact le_refl price
  · exact le_refl price

theorem stayInside_of_lt {ask : Option ℚ} (h : ∀ a ∈ ask, price < a) :
    stayInside ask tick price = price := by
  cases ask with
  | none => rfl
  | some a => exact if_neg (h a rfl).not_ge

/-- **The touch of a bid**: its price capped, at the best bid or behind it, inside the best ask and
rounded down; there is none unless it is a price, and below the best ask after rounding. -/
theorem placeBid_eq_some_iff :
    placeBid target view tick dec fv minEdgeTicks mid rewardBand = some p ↔
      p = roundToTick (stayInside view.bestAsk tick (joinBid view.bestBid
        (capBid target tick fv minEdgeTicks mid rewardBand))) tick dec false ∧
      (∀ a ∈ view.bestAsk, p < a) ∧ 0 < p ∧ p < 1 := by
  -- the last step, from any price after the rounding
  have hlast : ∀ r : ℚ,
      (if r ≤ 0 ∨ 1 ≤ r then none
        else match view.bestAsk with
          | some a => if a ≤ r then none else some r
          | none => some r) = some p ↔
      p = r ∧ (∀ a ∈ view.bestAsk, p < a) ∧ 0 < p ∧ p < 1 := by
    intro r
    split_ifs with hout
    · refine iff_of_false (by simp) ?_
      rintro ⟨rfl, -, hpos, hone⟩
      exact hout.elim hpos.not_ge hone.not_ge
    · rw [not_or, not_le, not_le] at hout
      cases hask : view.bestAsk with
      | none => exact ⟨fun h => Option.some.inj h ▸ ⟨rfl, by simp, hout⟩, fun h => by rw [h.1]⟩
      | some a =>
        simp only
        split_ifs with ha
        · refine iff_of_false (by simp) ?_
          rintro ⟨rfl, hbelow, -⟩
          exact ha.not_gt (hbelow a rfl)
        · refine ⟨fun h => Option.some.inj h ▸ ⟨rfl, ?_, hout⟩, fun h => by rw [h.1]⟩
          simpa using ha
  exact hlast _

/-- It is rounded down from a price that is at most the fair value less the edge and at most the
best bid. -/
theorem placeBid_spec
    (h : placeBid target view tick dec fv minEdgeTicks mid rewardBand = some p) :
    (∃ price, p = roundToTick price tick dec false ∧
      (0 ≤ tick → price ≤ fv - minEdgeTicks * tick ∧ ∀ b ∈ view.bestBid, price ≤ b)) ∧
    (∀ a ∈ view.bestAsk, p < a) ∧ 0 < p ∧ p < 1 := by
  obtain ⟨hp, hbelow, hunit⟩ := placeBid_eq_some_iff.1 h
  refine ⟨⟨_, hp, fun htick => ⟨?_, fun b hb => ?_⟩⟩, hbelow, hunit⟩
  · -- each step lowers the price
    exact (stayInside_le htick _ _).trans ((joinBid_le _ _).1.trans capBid_le_edge)
  · exact (stayInside_le htick _ _).trans ((joinBid_le _ _).2 b hb)

end Touch

/-- The bid price is on the grid of the tick, strictly between zero and one. -/
theorem placeBid_eq_some {target : ℚ} {view : BookView} {tick : ℚ} {dec : ℕ} {fv : ℚ}
    {minEdgeTicks : ℤ} {mid rewardBand p : ℚ} (htick : OnGrid dec tick)
    (h : placeBid target view tick dec fv minEdgeTicks mid rewardBand = some p) :
    OnGrid dec p ∧ 0 < p ∧ p < 1 := by
  obtain ⟨⟨price, rfl, -⟩, -, hunit⟩ := placeBid_spec h
  have hone : OnGrid dec 1 := by simpa using onGrid_intCast dec 1
  exact ⟨((onGrid_toDecimals dec _).max htick).min (hone.sub htick), hunit⟩

end Polymaker
