import Mathlib.Data.List.Nodup
import Polymaker.Strategy.Sizing
import Polymaker.Strategy.TickGrid

/-!
# Grid orders

Every target can be placed as it is: its price is on the grid of the tick and off its ends, its size
meets the exchange minimum, and no bid is doubled.

* `OnTick.mem_range`: a multiple of the tick strictly between zero and one is a tick away from both;
* `layerPrice_injective`: the layers below a touch on the grid have prices of their own;
* `nodup_bidPrices`: so have the bids of a leg;
* `grid_orders`: every quote is a valid grid order.
-/

namespace Polymaker

open QuoteInputs Rounding

/-- A multiple of the tick strictly between zero and one is a tick away from both. -/
theorem OnTick.mem_range {tick x : ℚ} (hx : OnTick tick x) (htick : 0 < tick)
    (hunit : OnTick tick 1) (hpos : 0 < x) (hone : x < 1) : tick ≤ x ∧ x ≤ 1 - tick := by
  -- a positive multiple is one tick at least
  have hleast : ∀ y, OnTick tick y → 0 < y → tick ≤ y := by
    rintro y ⟨k, rfl⟩ hy
    have hk : (0 : ℤ) < k := by exact_mod_cast pos_of_mul_pos_left hy htick.le
    exact le_mul_of_one_le_left htick.le (by exact_mod_cast hk)
  have hrest := hleast (1 - x) (hunit.sub hx) (sub_pos.2 hone)
  exact ⟨hleast x hx hpos, by linarith⟩

namespace QuoteInputs

variable {i : QuoteInputs} {l : Leg} {top : ℚ}

/-- The touch of a leg is on the grid. -/
theorem onTick_top (h : DividesUnit i.m.tickSize) (htop : i.top l = some top) :
    OnTick i.m.tickSize top := by
  obtain ⟨⟨price, hprice, -⟩, -, -⟩ := placeBid_spec htop
  exact hprice ▸ onTick_roundToTick (onGrid_priceDecimals h.decimals) h.unit price false

/-- A layer below a touch on the grid is not rounded. -/
theorem layerPrice_of_onTick (h : DividesUnit i.m.tickSize) (htop : OnTick i.m.tickSize top)
    (j : ℕ) : i.layerPrice top j = top - j * i.profile.layerStepTicks * i.m.tickSize := by
  have hgrid := onGrid_priceDecimals h.decimals
  have hsteps := onTick_intMul (j * i.profile.layerStepTicks) i.m.tickSize
  push_cast at hsteps
  exact toDecimals_of_onGrid ((htop.sub hsteps).onGrid hgrid)

/-- The layers below it have prices of their own. -/
theorem layerPrice_injective (h : DividesUnit i.m.tickSize) (htick : 0 < i.m.tickSize)
    (hstep : 1 ≤ i.profile.layerStepTicks) (htop : OnTick i.m.tickSize top) :
    Function.Injective (i.layerPrice top) := by
  intro j k hjk
  rw [layerPrice_of_onTick h htop, layerPrice_of_onTick h htop, sub_right_inj] at hjk
  have hsteps : (i.profile.layerStepTicks : ℚ) ≠ 0 := by
    exact_mod_cast (zero_lt_one.trans_le hstep).ne'
  have hscaled := mul_right_cancel₀ hsteps (mul_right_cancel₀ htick.ne' hjk)
  exact_mod_cast hscaled

/-- **No bid of a leg is doubled.** -/
theorem nodup_bidPrices (h : DividesUnit i.m.tickSize) (htick : 0 < i.m.tickSize)
    (hstep : 1 ≤ i.profile.layerStepTicks) (l : Leg) : ((i.bidsOf l).map Quote.price).Nodup := by
  cases htop : i.top l with
  | none =>
    have hnone : i.bidsOf l = [] := List.eq_nil_iff_forall_not_mem.2 fun q hq => by
      obtain ⟨top, j, hbids, -⟩ := mem_bidsOf_iff.1 hq
      cases htop.symm.trans hbids.top_eq
    rw [hnone]
    exact List.nodup_nil
  | some top =>
    have hlayers := layerPrice_injective h htick hstep (onTick_top h htop)
    obtain ⟨prices, hprices, hquotes⟩ := exists_bidsOf_eq_map htop
    have hsame : (i.bidsOf l).map Quote.price = prices := by
      rw [hquotes, List.map_map]
      exact List.map_id prices
    rw [hsame]
    exact hprices.nodup (List.nodup_range.map hlayers)

/-- The bids of a leg are for its token. -/
theorem side_of_mem_bidsOf {q : Quote} (h : q ∈ i.bidsOf l) :
    q.tokenId = l.tokenId ∧ q.side = .buy := by
  obtain ⟨top, j, -, rfl⟩ := mem_bidsOf_iff.1 h
  exact ⟨rfl, rfl⟩

end QuoteInputs

/-- Two bids of one token at one price. -/
def Quote.Doubles (p q : Quote) : Prop :=
  p.side = .buy ∧ q.side = .buy ∧ p.tokenId = q.tokenId ∧ p.price = q.price

instance (p q : Quote) : Decidable (p.Doubles q) := inferInstanceAs (Decidable (_ ∧ _ ∧ _ ∧ _))

/-- No bid of a target set is doubled where the tokens differ. -/
theorem pairwise_not_doubles {i : QuoteInputs} (h : DividesUnit i.m.tickSize)
    (htick : 0 < i.m.tickSize) (hstep : 1 ≤ i.profile.layerStepTicks) (hne : i.m.yes ≠ i.m.no) :
    (constructQuotes i).quotes.Pairwise fun p q => ¬ p.Doubles q := by
  have hleg : ∀ l, (i.bidsOf l).Pairwise fun p q => ¬ p.Doubles q := fun l =>
    (List.pairwise_map.1 (nodup_bidPrices h htick hstep l)).imp fun hpq hdoubles =>
      hpq hdoubles.2.2.2
  rw [quotes_eq]
  refine List.pairwise_append.2 ⟨List.pairwise_append.2 ⟨hleg _, hleg _, ?_⟩, ?_, ?_⟩
  · -- a bid of each leg
    intro p hp q hq hdoubles
    refine hne ?_
    exact (side_of_mem_bidsOf hp).1.symm.trans (hdoubles.2.2.1.trans (side_of_mem_bidsOf hq).1)
  · -- two exits
    split_ifs
    · refine List.pairwise_of_forall_mem_list fun p hp q _ hdoubles => ?_
      cases (side_of_mem_exits hp).1.symm.trans hdoubles.1
    · exact .nil
  · -- a bid and an exit
    intro p hp q hq hdoubles
    split_ifs at hq
    · cases (side_of_mem_exits hq).1.symm.trans hdoubles.2.1
    · exact absurd hq List.not_mem_nil

/-- Every target is strictly between zero and one, and meets the exchange minimum. -/
theorem inside_of_mem_constructQuotes {i : QuoteInputs} {q : Quote}
    (hq : q ∈ (constructQuotes i).quotes) :
    0 < q.price ∧ q.price < 1 ∧ i.m.minOrderSize ≤ q.size := by
  cases hside : q.side with
  | buy =>
    obtain ⟨l, -, top, j, hbids, rfl⟩ := buy_mem_iff.1 ⟨hq, hside⟩
    exact ⟨hbids.lays_out.pos, hbids.lays_out.lt_one, hbids.lays_out.min_size⟩
  | sell =>
    obtain ⟨l, -, hoffers, rfl⟩ := sell_mem_iff.1 ⟨hq, hside⟩
    exact ⟨hoffers.pos, hoffers.lt_one, hoffers.held⟩

/-- **Every quote is a valid grid order.**  On a tick of six decimals that divides one, a quote of
any inputs is a multiple of the tick, a tick or more away from zero and one, and no smaller than the
exchange minimum; and no two bids of one token share a price. -/
theorem grid_orders (i : QuoteInputs) {n : ℕ} (hn : 3 ≤ n) (hunit : i.m.tickSize = 1 / n)
    (hgrid : OnGrid 6 i.m.tickSize) (hstep : 1 ≤ i.profile.layerStepTicks) :
    (∀ q ∈ (constructQuotes i).quotes, OnTick i.m.tickSize q.price ∧
      i.m.tickSize ≤ q.price ∧ q.price ≤ 1 - i.m.tickSize ∧ i.m.minOrderSize ≤ q.size) ∧
    (∀ l ∈ i.legs, ((i.bidsOf l).map Quote.price).Nodup) ∧
    (i.m.yes ≠ i.m.no → (constructQuotes i).quotes.Pairwise fun p q => ¬ p.Doubles q) := by
  have hn' : (0 : ℚ) < n := by exact_mod_cast (by omega : 0 < n)
  have htick : 0 < i.m.tickSize := hunit ▸ one_div_pos.2 hn'
  have h : DividesUnit i.m.tickSize := ⟨hgrid, n, by rw [hunit]; push_cast; field_simp⟩
  refine ⟨fun q hq => ?_, fun l _ => nodup_bidPrices h htick hstep l,
    pairwise_not_doubles h htick hstep⟩
  obtain ⟨hpos, hone, hsize⟩ := inside_of_mem_constructQuotes hq
  have hon := onTick_of_mem_constructQuotes h hq
  obtain ⟨hlow, hhigh⟩ := hon.mem_range htick h.unit hpos hone
  exact ⟨hon, hlow, hhigh, hsize⟩

/-- A market at even odds, its views off the grid and ten shares of YES held: two layers bid for
each token, and an exit. -/
theorem grid_orders_off_grid_views :
    let m : MarketMeta := ⟨"c", "yes", "no", 1 / 100, 5, 20, 3, none, none⟩
    let view := (OrderBook.ofTouch (4805 / 10000) (5195 / 10000) 100).view
    let i : QuoteInputs :=
      { m, regime := .quiet, fv := 1 / 2, volShort := 0, toxicity := 0, yesView := view
        noView := view, posYes := ⟨10, 1 / 2⟩, posNo := .flat
        profile := { layerStepTicks := 1 }, now := 0 }
    (constructQuotes i).quotes.length = 5 ∧
      (∀ q ∈ (constructQuotes i).quotes, OnTick (1 / 100) q.price) ∧
      (constructQuotes i).quotes.Pairwise fun p q => ¬ p.Doubles q := by
  intro m view i
  obtain ⟨hquotes, -, hdoubled⟩ := @grid_orders i 100 (by norm_num) (by norm_num [i, m])
    ⟨10 ^ 4, by norm_num [i, m]⟩ (by decide)
  exact ⟨by decide +kernel, fun q hq => (hquotes q hq).1, hdoubled (by decide)⟩

end Polymaker
