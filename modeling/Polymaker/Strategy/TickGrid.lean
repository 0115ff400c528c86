import Polymaker.Strategy.Legs

/-!
# Multiples of a tick

* `OnTick`: a price is a whole number of ticks;
* `DividesUnit`: the tick has six decimals and divides one, so that the clamps and the rounding of
  the quoter stay on its multiples;
* `onTick_of_mem_constructQuotes`: every target is a multiple of such a tick.
-/

namespace Polymaker

open Rounding

/-- The price is a whole number of ticks. -/
def OnTick (tick price : ℚ) : Prop := ∃ k : ℤ, price = k * tick

/-- The tick has six decimals and divides one. -/
structure DividesUnit (tick : ℚ) : Prop where
  decimals : OnGrid 6 tick
  unit : OnTick tick 1

section Multiples

variable {tick x y : ℚ}

theorem onTick_self (tick : ℚ) : OnTick tick tick := ⟨1, by norm_num⟩

theorem onTick_intMul (k : ℤ) (tick : ℚ) : OnTick tick (k * tick) := ⟨k, rfl⟩

theorem OnTick.sub (hx : OnTick tick x) (hy : OnTick tick y) : OnTick tick (x - y) := by
  obtain ⟨k, rfl⟩ := hx
  obtain ⟨l, rfl⟩ := hy
  refine ⟨k - l, ?_⟩
  push_cast
  ring

theorem OnTick.min (hx : OnTick tick x) (hy : OnTick tick y) : OnTick tick (min x y) := by
  rcases min_choice x y with h | h <;> rw [h] <;> assumption

theorem OnTick.max (hx : OnTick tick x) (hy : OnTick tick y) : OnTick tick (max x y) := by
  rcases max_choice x y with h | h <;> rw [h] <;> assumption

/-- A multiple of a tick has the decimals of the tick. -/
theorem OnTick.onGrid {dec : ℕ} (hx : OnTick tick x) (h : OnGrid dec tick) : OnGrid dec x := by
  obtain ⟨k, rfl⟩ := hx
  exact h.intMul k

/-- Rounding to such a tick ends on it. -/
theorem onTick_roundToTick {dec : ℕ} (hgrid : OnGrid dec tick) (hunit : OnTick tick 1) (price : ℚ)
    (up : Bool) : OnTick tick (roundToTick price tick dec up) := by
  have hround : ∀ n : ℤ, OnTick tick (toDecimals dec (n * tick)) := fun n => by
    rw [toDecimals_of_onGrid (hgrid.intMul n)]
    exact onTick_intMul n tick
  unfold roundToTick
  exact ((hround _).max (onTick_self tick)).min (hunit.sub (onTick_self tick))

end Multiples

/-- **Every target is on the grid.** -/
theorem onTick_of_mem_constructQuotes {i : QuoteInputs} (h : DividesUnit i.m.tickSize) {q : Quote}
    (hq : q ∈ (constructQuotes i).quotes) : OnTick i.m.tickSize q.price := by
  have hgrid := onGrid_priceDecimals h.decimals
  cases hside : q.side with
  | buy =>
    obtain ⟨l, -, top, j, hbids, rfl⟩ := buy_mem_iff.1 ⟨hq, hside⟩
    obtain ⟨⟨price, hprice, -⟩, -, -⟩ := placeBid_spec hbids.top_eq
    have htop : OnTick i.m.tickSize top := hprice ▸ onTick_roundToTick hgrid h.unit price false
    have hlayer : OnTick i.m.tickSize (top - j * i.profile.layerStepTicks * i.m.tickSize) := by
      refine htop.sub ?_
      have hsteps := onTick_intMul (j * i.profile.layerStepTicks) i.m.tickSize
      push_cast at hsteps
      exact hsteps
    show OnTick i.m.tickSize (i.layerPrice top j)
    rw [QuoteInputs.layerPrice, toDecimals_of_onGrid (hlayer.onGrid hgrid)]
    exact hlayer
  | sell =>
    obtain ⟨l, -, -, rfl⟩ := sell_mem_iff.1 ⟨hq, hside⟩
    exact onTick_roundToTick hgrid h.unit _ true

end Polymaker
