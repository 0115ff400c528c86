import Mathlib.Algebra.Order.BigOperators.Group.List
import Polymaker.Strategy.Ticks

/-!
# What entries commit

An entry leg is sized to the base size of its profile, and rounding adds at most half a cent for the
leg and for each of its layers.

* `bidNotional`: the notional of the bids among quotes;
* `StrategyProfile.entryLeg`: the most a leg commits;
* `bidNotional_entryQuotes_le`: one leg;
* `bidNotional_le_of_sublist_constructQuotes`: both legs, or what is left of them to place.

The layers step down from the touch, and the tick has the decimals its prices are rounded to.
-/

namespace Polymaker

open Rounding

/-- The notional of the bids among quotes. -/
def bidNotional (quotes : List Quote) : ℚ :=
  ((quotes.filter fun q => decide (q.side = .buy)).map fun q => q.price * q.size).sum

/-- The most an entry leg commits. -/
def StrategyProfile.entryLeg (p : StrategyProfile) : ℚ :=
  max 0 p.baseSizeUsdc + ((max 1 p.layers : ℤ) + 1) / 200

theorem StrategyProfile.entryLeg_nonneg (p : StrategyProfile) : 0 ≤ p.entryLeg := by
  have hbase : 0 ≤ max 0 p.baseSizeUsdc := le_max_left _ _
  have hlayers : (1 : ℚ) ≤ (max 1 p.layers : ℤ) := by exact_mod_cast le_max_left 1 p.layers
  unfold entryLeg
  linarith

theorem bidNotional_append (quotes quotes' : List Quote) :
    bidNotional (quotes ++ quotes') = bidNotional quotes + bidNotional quotes' := by
  unfold bidNotional
  rw [List.filter_append, List.map_append, List.sum_append]

theorem bidNotional_of_sells {quotes : List Quote} (h : ∀ q ∈ quotes, q.side = .sell) :
    bidNotional quotes = 0 := by
  have hnone : quotes.filter (fun q => decide (q.side = .buy)) = [] :=
    List.filter_eq_nil_iff.2 fun q hq => by rw [h q hq]; decide
  unfold bidNotional
  rw [hnone]
  rfl

/-- Fewer quotes bid less, where no bid is of negative notional. -/
theorem bidNotional_le_of_sublist {quotes quotes' : List Quote} (h : List.Sublist quotes quotes')
    (hpos : ∀ q ∈ quotes', q.side = .buy → 0 ≤ q.price * q.size) :
    bidNotional quotes ≤ bidNotional quotes' := by
  refine ((h.filter _).map _).sum_le_sum fun x hx => ?_
  obtain ⟨q, hq, rfl⟩ := List.mem_map.1 hx
  obtain ⟨hmem, hbuy⟩ := List.mem_filter.1 hq
  exact hpos q hmem (of_decide_eq_true hbuy)

/-! ### One leg -/

theorem consolidate_le (totalSize exchangeMin rewardFloor : ℚ) (n : ℕ) :
    consolidate totalSize exchangeMin rewardFloor n ≤ max 1 n := by
  fun_induction consolidate totalSize exchangeMin rewardFloor n with
  | case1 => omega
  | case2 => omega
  | case3 n _ ih => omega
  | case4 n => omega

theorem consolidate_pos (totalSize exchangeMin rewardFloor : ℚ) (n : ℕ) :
    0 < consolidate totalSize exchangeMin rewardFloor n := by
  fun_induction consolidate totalSize exchangeMin rewardFloor n with
  | case1 => omega
  | case2 => omega
  | case3 n _ ih => exact ih
  | case4 n => omega

/-- The layers, all of the size of one, hold what is laid out, up to rounding. -/
theorem mul_perLayer_le (totalSize : ℚ) {n : ℕ} (hn : 0 < n) :
    n * perLayer totalSize n ≤ totalSize + n / 200 := by
  have hpos : (0 : ℚ) < n := by exact_mod_cast hn
  have hper := toDecimals_le 2 (totalSize / n)
  calc n * perLayer totalSize n ≤ n * (totalSize / n + 1 / 2 / 10 ^ 2) :=
        mul_le_mul_of_nonneg_left hper hpos.le
    _ = totalSize + n / 200 := by field_simp; ring

/-- The price of the touch times the shares sized for it is the base size, up to rounding. -/
theorem mul_sizeShares_le (base : ℚ) {p scale : ℚ} (m : MarketMeta) (hp : 0 < p) (hone : p < 1)
    (hscale : scale ≤ 1) : p * sizeShares base p scale m ≤ max 0 base + 1 / 200 := by
  have hbase : 0 ≤ max 0 base := le_max_left 0 base
  unfold sizeShares
  simp only
  split_ifs with hshares
  · have hround := toDecimals_le 2 (base / max p m.tickSize * max scale 0)
    have hmax : 0 < max p m.tickSize := lt_max_of_lt_left hp
    have hratio : p / max p m.tickSize ≤ 1 := (div_le_one hmax).2 (le_max_left _ _)
    have hcost : p * (base / max p m.tickSize * max scale 0) ≤ max 0 base := by
      calc p * (base / max p m.tickSize * max scale 0)
          = p / max p m.tickSize * max scale 0 * base := by ring
        _ ≤ p / max p m.tickSize * max scale 0 * max 0 base :=
          mul_le_mul_of_nonneg_left (le_max_right 0 base) (by positivity)
        _ ≤ 1 * 1 * max 0 base := by
          gcongr
          exact max_le hscale zero_le_one
        _ = max 0 base := by ring
    nlinarith
  · rw [mul_zero]
    positivity

/-- The layers of a leg: none is above the touch, and all have one size. -/
theorem addLayers_spec (tok : TokenId) (side : Side) {top tick : ℚ} {dec : ℕ} (totalSize : ℚ)
    (layers : ℤ) {stepTicks : ℤ} (exchangeMin rewardFloor mid rewardBand : ℚ)
    (htop : OnGrid dec top) (hstep : 0 ≤ stepTicks * tick) :
    ∃ (n : ℕ) (prices : List ℚ), 0 < n ∧ (n : ℤ) ≤ max 1 layers ∧ prices.length ≤ n ∧
      (∀ price ∈ prices, 0 < price ∧ price ≤ top) ∧
      (prices ≠ [] → 0 < perLayer totalSize n) ∧
      addLayers tok side top tick dec totalSize layers stepTicks exchangeMin rewardFloor mid
        rewardBand = prices.map fun price => ⟨tok, side, price, perLayer totalSize n⟩ := by
  unfold addLayers
  simp only
  split_ifs with htotal hsmall hfloor
  · exact ⟨1, [], one_pos, le_max_left _ _, Nat.zero_le _, by simp, by simp, rfl⟩
  · exact ⟨1, [], one_pos, le_max_left _ _, Nat.zero_le _, by simp, by simp, rfl⟩
  · exact ⟨1, [], one_pos, le_max_left _ _, Nat.zero_le _, by simp, by simp, rfl⟩
  · have hle := consolidate_le totalSize exchangeMin (max rewardFloor exchangeMin)
      (max 1 layers).toNat
    refine ⟨_, _, consolidate_pos .., by omega, ?_, ?_, ?_, rfl⟩
    · refine (List.length_filter_le _ _).trans
        (((List.takeWhile_prefix _).sublist.length_le).trans ?_)
      rw [List.length_map, List.length_range]
    · intro price hprice
      obtain ⟨hin, hpos⟩ := List.mem_filter.1 hprice
      obtain ⟨j, -, rfl⟩ := List.mem_map.1 ((List.takeWhile_prefix _).subset hin)
      refine ⟨(of_decide_eq_true hpos).1, toDecimals_le_of_onGrid htop ?_⟩
      have hdown : 0 ≤ (j : ℚ) * (stepTicks * tick) := mul_nonneg (Nat.cast_nonneg j) hstep
      linarith
    · intro _
      rw [not_or, not_le] at hsmall
      exact hsmall.2

/-- The bids of a leg. -/
theorem bidNotional_map_buy (tok : TokenId) (prices : List ℚ) (size : ℚ) :
    bidNotional (prices.map fun price => ⟨tok, .buy, price, size⟩) =
      (prices.map fun price => price * size).sum := by
  unfold bidNotional
  rw [List.filter_map, List.map_map, List.filter_eq_self.2 fun price _ => by simp]
  rfl

/-- Layers laid out from the touch commit what their total costs there, up to rounding. -/
theorem bidNotional_addLayers_le (tok : TokenId) {top tick : ℚ} {dec : ℕ} {totalSize : ℚ}
    (layers : ℤ) {stepTicks : ℤ} (exchangeMin rewardFloor mid rewardBand : ℚ)
    (htop : OnGrid dec top) (hpos : 0 < top) (hone : top < 1) (hstep : 0 ≤ stepTicks * tick)
    {cost : ℚ} (hcost : top * totalSize ≤ cost) (hnonneg : 0 ≤ cost) :
    bidNotional (addLayers tok .buy top tick dec totalSize layers stepTicks exchangeMin rewardFloor
        mid rewardBand) ≤ cost + (max 1 layers : ℤ) / 200 ∧
      ∀ q ∈ addLayers tok .buy top tick dec totalSize layers stepTicks exchangeMin rewardFloor mid
        rewardBand, 0 ≤ q.price * q.size := by
  obtain ⟨n, prices, hn, hle, hlen, hprices, hsize, heq⟩ := addLayers_spec tok .buy totalSize layers
    exchangeMin rewardFloor mid rewardBand htop hstep
  have hlayers : (n : ℚ) ≤ (max 1 layers : ℤ) := by exact_mod_cast hle
  have hn0 : (0 : ℚ) ≤ n := Nat.cast_nonneg n
  rw [heq, bidNotional_map_buy]
  by_cases hnil : prices = []
  · subst hnil
    refine ⟨?_, by simp⟩
    show (0 : ℚ) ≤ _
    linarith
  · have hper := hsize hnil
    refine ⟨?_, fun q hq => ?_⟩
    · have hsum : (prices.map fun price => price * perLayer totalSize n).sum ≤
          prices.length * (top * perLayer totalSize n) := by
        have hcard := List.sum_le_card_nsmul (prices.map fun price => price * perLayer totalSize n)
          (top * perLayer totalSize n) fun x hx => by
            obtain ⟨price, hprice, rfl⟩ := List.mem_map.1 hx
            exact mul_le_mul_of_nonneg_right (hprices price hprice).2 hper.le
        rwa [List.length_map, nsmul_eq_mul] at hcard
      calc (prices.map fun price => price * perLayer totalSize n).sum
          ≤ prices.length * (top * perLayer totalSize n) := hsum
        _ ≤ n * (top * perLayer totalSize n) :=
          mul_le_mul_of_nonneg_right (by exact_mod_cast hlen) (by positivity)
        _ = top * (n * perLayer totalSize n) := by ring
        _ ≤ top * (totalSize + n / 200) :=
          mul_le_mul_of_nonneg_left (mul_perLayer_le totalSize hn) hpos.le
        _ = top * totalSize + top * (n / 200) := by ring
        _ ≤ cost + 1 * (n / 200) := by gcongr
        _ ≤ cost + (max 1 layers : ℤ) / 200 := by rw [one_mul]; gcongr
    · obtain ⟨price, hprice, rfl⟩ := List.mem_map.1 hq
      exact mul_nonneg (hprices price hprice).1.le hper.le

/-- Toxicity, regime and risk only scale down. -/
theorem QuoteInputs.commonScale_mem (i : QuoteInputs) (htox : 0 ≤ i.toxicity) :
    0 ≤ i.commonScale ∧ i.commonScale ≤ 1 := by
  have hregime : 0 ≤ (if i.regime = .trending then 1 / 2 else 1 : ℚ) ∧
      (if i.regime = .trending then 1 / 2 else 1 : ℚ) ≤ 1 := by split_ifs <;> norm_num
  have htoxic : 0 ≤ 1 / (1 + i.toxicity * 10) ∧ 1 / (1 + i.toxicity * 10) ≤ 1 :=
    ⟨by positivity, (div_le_one (by positivity)).2 (by linarith)⟩
  have hrisk : 0 ≤ clamp i.riskSizeScale 0 1 ∧ clamp i.riskSizeScale 0 1 ≤ 1 :=
    ⟨le_min (le_max_right _ _) zero_le_one, min_le_right _ _⟩
  unfold commonScale
  exact ⟨mul_nonneg (mul_nonneg hregime.1 htoxic.1) hrisk.1,
    mul_le_one₀ (mul_le_one₀ hregime.2 htoxic.1 htoxic.2) hrisk.1 hrisk.2⟩

theorem QuoteInputs.legScale_le_one (i : QuoteInputs) (htox : 0 ≤ i.toxicity) (u : ℚ) :
    i.commonScale * (1 - max u 0) ≤ 1 := by
  obtain ⟨hpos, hone⟩ := i.commonScale_mem htox
  have hu : 0 ≤ max u 0 := le_max_right u 0
  calc i.commonScale * (1 - max u 0) ≤ i.commonScale * 1 :=
        mul_le_mul_of_nonneg_left (by linarith) hpos
    _ ≤ 1 := by rw [mul_one]; exact hone

/-- **One leg** commits its base size, up to rounding. -/
theorem bidNotional_entryQuotes_le {i : QuoteInputs} (htick : OnGrid i.m.priceDecimals i.m.tickSize)
    (hstep : 0 ≤ i.profile.layerStepTicks * i.m.tickSize) (htox : 0 ≤ i.toxicity) (tok : TokenId)
    (target : ℚ) (view : BookView) (fv mid u : ℚ) :
    bidNotional (entryQuotes i tok target view fv mid u) ≤ i.profile.entryLeg ∧
      ∀ q ∈ entryQuotes i tok target view fv mid u, 0 ≤ q.price * q.size := by
  have hbase : 0 ≤ max 0 i.profile.baseSizeUsdc := le_max_left _ _
  unfold entryQuotes
  simp only
  cases hbid : placeBid target view i.m.tickSize i.m.priceDecimals fv i.profile.minEdgeTicks mid
    i.rewardBand with
  | none => exact ⟨i.profile.entryLeg_nonneg, by simp⟩
  | some p =>
    obtain ⟨hgrid, hpos, hone⟩ := placeBid_eq_some htick hbid
    have hcost := mul_sizeShares_le i.profile.baseSizeUsdc i.m hpos hone
      (i.legScale_le_one htox u)
    obtain ⟨hle, hnonneg⟩ := bidNotional_addLayers_le tok i.profile.layers i.m.minOrderSize
      i.rewardFloor mid i.rewardBand hgrid hpos hone hstep hcost (by positivity)
    refine ⟨hle.trans_eq ?_, hnonneg⟩
    unfold StrategyProfile.entryLeg
    ring

/-! ### Both legs -/

section Entries

variable {i : QuoteInputs} (htick : OnGrid i.m.priceDecimals i.m.tickSize)
  (hstep : 0 ≤ i.profile.layerStepTicks * i.m.tickSize) (htox : 0 ≤ i.toxicity)
include htick hstep htox

theorem QuoteInputs.bidNotional_entries_le :
    bidNotional i.entries ≤ 2 * i.profile.entryLeg ∧ ∀ q ∈ i.entries, 0 ≤ q.price * q.size := by
  have hnone : bidNotional [] ≤ i.profile.entryLeg ∧
      ∀ q ∈ ([] : List Quote), 0 ≤ q.price * q.size :=
    ⟨i.profile.entryLeg_nonneg, fun _ hq => absurd hq List.not_mem_nil⟩
  have hleg := bidNotional_entryQuotes_le htick hstep htox
  have hsum : ∀ ys ns : List Quote,
      (bidNotional ys ≤ i.profile.entryLeg ∧ ∀ q ∈ ys, 0 ≤ q.price * q.size) →
      (bidNotional ns ≤ i.profile.entryLeg ∧ ∀ q ∈ ns, 0 ≤ q.price * q.size) →
      bidNotional (ys ++ ns) ≤ 2 * i.profile.entryLeg ∧
        ∀ q ∈ ys ++ ns, 0 ≤ q.price * q.size := by
    intro ys ns hys hns
    refine ⟨?_, fun q hq => ?_⟩
    · rw [bidNotional_append]
      linarith [hys.1, hns.1]
    · exact (List.mem_append.1 hq).elim (hys.2 q) (hns.2 q)
  unfold entries
  refine hsum _ _ ?_ ?_
  · split_ifs
    · exact hleg ..
    · exact hnone
  · split_ifs
    · exact hleg ..
    · exact hnone

/-- **Both legs**, or any part of the targets, commit at most two legs. -/
theorem bidNotional_le_of_sublist_constructQuotes {quotes : List Quote}
    (h : List.Sublist quotes (constructQuotes i).quotes) :
    bidNotional quotes ≤ 2 * i.profile.entryLeg := by
  obtain ⟨hle, hpos⟩ := i.bidNotional_entries_le htick hstep htox
  have hnone : bidNotional i.exits = 0 := bidNotional_of_sells fun q hq =>
    (QuoteInputs.side_of_mem_exits hq).1
  have hquotes : (constructQuotes i).quotes = [] ∨
      (constructQuotes i).quotes = i.entries ++ i.exits := by
    by_cases hlets : i.LetsExit
    · exact .inr (constructQuotes_of_letsExit hlets)
    · exact .inl (List.eq_nil_iff_forall_not_mem.2 fun q hq => hlets (letsExit_of_mem hq))
  rcases hquotes with hquotes | hquotes
  · rw [hquotes, List.sublist_nil] at h
    subst h
    have hleg := i.profile.entryLeg_nonneg
    show (0 : ℚ) ≤ _
    linarith
  · rw [hquotes] at h
    refine (bidNotional_le_of_sublist h fun q hq hbuy => ?_).trans ?_
    · rcases List.mem_append.1 hq with hentry | hexit
      · exact hpos q hentry
      · rw [(QuoteInputs.side_of_mem_exits hexit).1] at hbuy
        cases hbuy
    · rw [bidNotional_append, hnone, add_zero]
      exact hle

end Entries

end Polymaker
