import Polymaker.Strategy.Sizing
import Polymaker.Strategy.TickGrid

/-!
# Inventory skew

More YES inventory lowers the reservation price, so that the bid for YES goes down and the bid for
NO goes up.

* `QuoteInputs.holding`: the same inputs with other positions, and `u_mono`: the utilisation they
  give;
* `Stepped`: a book whose best ask the touch of a bid passes in whole steps, as every book on a tick
  that has six decimals and divides one (`stepped_of_dividesUnit`);
* `placeBid_mono`: there the touch goes up with its target, past the best ask too;
* `highest_eq`: the highest bid of a leg is its touch, where the layers step down;
* `skew_monotone`: the two legs.

Layers that step up, or a tick that is rounded below a best ask, break the order
(`not_skew_monotone`).
-/

namespace Polymaker

open Rounding

/-! ### The touch and its target -/

/-- A book that is not crossed, and whose best ask, where nothing is bid, is a whole number of ticks
that rounding does not carry to a price of its own below it. -/
structure Stepped (tick : ℚ) (dec : ℕ) (view : BookView) : Prop where
  uncrossed : ∀ b ∈ view.bestBid, ∀ a ∈ view.bestAsk, b < a
  ask : view.bestBid = none → ∀ a ∈ view.bestAsk, OnTick tick a ∧
    (a ≤ roundToTick a tick dec false ∨
      roundToTick a tick dec false ≤ roundToTick (a - tick) tick dec false)

theorem capBid_mono {x y : ℚ} (h : x ≤ y) (tick fv : ℚ) (minEdgeTicks : ℤ) (mid rewardBand : ℚ) :
    capBid x tick fv minEdgeTicks mid rewardBand ≤
      capBid y tick fv minEdgeTicks mid rewardBand := by
  unfold capBid
  simp only
  split_ifs
  · exact min_le_min_right _ (min_le_min_right _ h)
  · exact min_le_min_right _ h

theorem joinBid_mono (bid : Option ℚ) {x y : ℚ} (h : x ≤ y) : joinBid bid x ≤ joinBid bid y := by
  cases bid with
  | none => exact h
  | some b =>
    rw [joinBid_some, joinBid_some]
    exact min_le_min_right _ h

section Touch

variable {tick : ℚ} (htick : 0 < tick) {dec : ℕ}
include htick

/-- The ticks below a price short of `k` of them are at most `k - 1`, or the price is within the
tolerance of `k`. -/
theorem roundToTick_cases (dec : ℕ) {k : ℤ} {x : ℚ} (h : x < k * tick) :
    roundToTick x tick dec false ≤ roundToTick (k * tick - tick) tick dec false ∨
      roundToTick x tick dec false = roundToTick (k * tick) tick dec false := by
  have hlt : x / tick < k := (div_lt_iff₀ htick).2 h
  have hle : ⌊x / tick + eps⌋ ≤ k := by
    refine Int.lt_add_one_iff.1 (Int.floor_lt.2 ?_)
    push_cast
    linarith [eps_lt_one]
  have hround : roundToTick x tick dec false =
      min (max (toDecimals dec (⌊x / tick + eps⌋ * tick)) tick) (1 - tick) := rfl
  rcases hle.lt_or_eq with hbelow | heq
  · left
    have hprev : (k : ℚ) * tick - tick = ((k - 1 : ℤ) : ℚ) * tick := by
      push_cast
      ring
    have hticks : (⌊x / tick + eps⌋ : ℚ) * tick ≤ ((k - 1 : ℤ) : ℚ) * tick := by
      refine mul_le_mul_of_nonneg_right ?_ htick.le
      exact_mod_cast Int.le_sub_one_of_lt hbelow
    rw [hround, hprev, roundToTick_intMul htick]
    exact min_le_min_right _ (max_le_max_right _ (toDecimals_mono dec hticks))
  · right
    rw [hround, heq, roundToTick_intMul htick]

/-- A price that stays inside a best ask, and is below it once rounded, is rounded to the tick below
the ask at most. -/
theorem roundToTick_stayInside_le {k : ℤ}
    (hstep : k * tick ≤ roundToTick (k * tick) tick dec false ∨
      roundToTick (k * tick) tick dec false ≤ roundToTick (k * tick - tick) tick dec false) {x : ℚ}
    (hbelow : roundToTick (stayInside (some (k * tick)) tick x) tick dec false < k * tick) :
    roundToTick (stayInside (some (k * tick)) tick x) tick dec false ≤
      roundToTick (k * tick - tick) tick dec false := by
  rcases lt_or_ge x (k * tick) with hlt | hge
  · have hx : stayInside (some (k * tick)) tick x = x := if_neg hlt.not_ge
    rw [hx] at hbelow ⊢
    rcases roundToTick_cases htick dec hlt with hcase | hcase
    · exact hcase
    · -- it is rounded to the best ask, which is then a price below itself
      rw [hcase] at hbelow
      exact hcase.trans_le (hstep.resolve_left hbelow.not_ge)
  · rw [show stayInside (some (k * tick)) tick x = k * tick - tick from if_pos hge]

/-- **The touch goes up with its target**, past the best ask too. -/
theorem placeBid_mono {view : BookView} (hview : Stepped tick dec view) {x y p q fv : ℚ}
    {minEdgeTicks : ℤ} {mid rewardBand : ℚ} (h : x ≤ y)
    (hp : placeBid x view tick dec fv minEdgeTicks mid rewardBand = some p)
    (hq : placeBid y view tick dec fv minEdgeTicks mid rewardBand = some q) : p ≤ q := by
  obtain ⟨hp, hpbelow, -⟩ := placeBid_eq_some_iff.1 hp
  obtain ⟨hq, -⟩ := placeBid_eq_some_iff.1 hq
  have hjoin := joinBid_mono view.bestBid (capBid_mono h tick fv minEdgeTicks mid rewardBand)
  generalize capBid x tick fv minEdgeTicks mid rewardBand = x' at hp hjoin
  generalize capBid y tick fv minEdgeTicks mid rewardBand = y' at hq hjoin
  -- where the second price is below the best ask, so is the first
  by_cases hbelow : ∀ a ∈ view.bestAsk, joinBid view.bestBid y' < a
  · rw [stayInside_of_lt hbelow] at hq
    rw [stayInside_of_lt fun a ha => hjoin.trans_lt (hbelow a ha)] at hp
    rw [hp, hq]
    exact roundToTick_mono htick dec false hjoin
  · rw [not_forall] at hbelow
    obtain ⟨a, hbelow⟩ := hbelow
    rw [Classical.not_imp, not_lt] at hbelow
    obtain ⟨ha, hle⟩ := hbelow
    have hnone : view.bestBid = none := by
      cases hbid : view.bestBid with
      | none => rfl
      | some b =>
        have hlt := hview.uncrossed b hbid a ha
        exact absurd (hle.trans ((joinBid_le view.bestBid y').2 b hbid)) hlt.not_ge
    obtain ⟨⟨k, rfl⟩, hstep⟩ := hview.ask hnone a ha
    have hask : view.bestAsk = some (k * tick) := ha
    have hy : stayInside (some (k * tick)) tick (joinBid view.bestBid y') = k * tick - tick :=
      if_pos hle
    have hinside := hpbelow _ ha
    rw [hask] at hp hq
    rw [hy] at hq
    rw [hp] at hinside
    rw [hp, hq]
    exact roundToTick_stayInside_le htick hstep hinside

/-- A tick that has six decimals and divides one steps past every best ask on it. -/
theorem stepped_of_dividesUnit (hgrid : OnGrid dec tick) (hunit : OnTick tick 1) {view : BookView}
    (huncrossed : ∀ b ∈ view.bestBid, ∀ a ∈ view.bestAsk, b < a)
    (hask : ∀ a ∈ view.bestAsk, OnTick tick a) : Stepped tick dec view := by
  refine ⟨huncrossed, fun _ a ha => ⟨hask a ha, ?_⟩⟩
  obtain ⟨k, rfl⟩ := hask a ha
  obtain ⟨K, hK⟩ := hunit
  have hat : ∀ n : ℤ, roundToTick (n * tick) tick dec false =
      min (max (n * tick) tick) (1 - tick) := fun n => by
    rw [roundToTick_intMul htick, toDecimals_of_onGrid (hgrid.intMul n)]
  have hprev : (k : ℚ) * tick - tick = ((k - 1 : ℤ) : ℚ) * tick := by
    push_cast
    ring
  rcases lt_or_ge k K with hlt | hge
  · left
    have hticks : (k : ℚ) * tick ≤ 1 - tick := by
      have hmul : ((k + 1 : ℤ) : ℚ) * tick ≤ K * tick :=
        mul_le_mul_of_nonneg_right (by exact_mod_cast Int.add_one_le_of_lt hlt) htick.le
      push_cast at hmul
      linarith
    rw [hat]
    exact le_min (le_max_left _ _) hticks
  · right
    have hticks : 1 - tick ≤ ((k - 1 : ℤ) : ℚ) * tick := by
      have hmul : (K : ℚ) * tick ≤ k * tick :=
        mul_le_mul_of_nonneg_right (by exact_mod_cast hge) htick.le
      push_cast
      linarith
    rw [hprev, hat, hat, min_eq_right (hticks.trans (le_max_left _ _))]
    exact min_le_right _ _

end Touch

namespace QuoteInputs

variable {i : QuoteInputs}

/-! ### The highest bid -/

/-- The prices a leg bids. -/
def bidPrices (i : QuoteInputs) (l : Leg) : List ℚ := (i.bidsOf l).map Quote.price

instance (l : List ℚ) (p : ℚ) : Decidable (IsGreatest {x | x ∈ l} p) :=
  inferInstanceAs (Decidable (p ∈ l ∧ ∀ x ∈ l, x ≤ p))

/-- The highest bid of a leg is its touch, rounded. -/
theorem highest_eq (htick : 0 < i.m.tickSize) (hstep : 0 ≤ i.profile.layerStepTicks) {l : Leg}
    {p : ℚ} (h : IsGreatest {p | p ∈ i.bidPrices l} p) :
    ∃ top, i.top l = some top ∧ p = toDecimals i.m.priceDecimals top := by
  obtain ⟨q, hq, rfl⟩ := List.mem_map.1 h.1
  obtain ⟨top, j, hbids, rfl⟩ := mem_bidsOf_iff.1 hq
  refine ⟨top, hbids.top_eq, le_antisymm (layerPrice_le htick hstep top j) ?_⟩
  have hfirst := hbids.lays_out.zero htick hstep hbids.top_eq
  rw [← layerPrice_zero]
  exact h.2 (List.mem_map.2 ⟨_, mem_bidsOf_iff.2
    ⟨top, 0, ⟨hbids.both, hbids.inside, hbids.top_eq, hfirst⟩, rfl⟩, rfl⟩)

/-! ### Positions -/

/-- The inputs with other positions. -/
def holding (i : QuoteInputs) (posYes posNo : Position) : QuoteInputs := { i with posYes, posNo }

variable {posYes posNo : Position}

theorem u_mono (h : i.netShares ≤ (i.holding posYes posNo).netShares) :
    i.u ≤ (i.holding posYes posNo).u := by
  unfold u
  show (if 0 < i.qMaxShares then _ else _) ≤ if 0 < i.qMaxShares then _ else _
  split_ifs with hcap
  · exact min_le_min_right _ (max_le_max_right _ (div_le_div_of_nonneg_right h hcap.le))
  · exact le_refl 0

/-- More YES inventory lowers the reservation price. -/
theorem r_anti (hgamma : 0 ≤ i.profile.gamma) (hvol : 0 ≤ i.volShort)
    (h : i.netShares ≤ (i.holding posYes posNo).netShares) :
    (i.holding posYes posNo).r ≤ i.r :=
  sub_le_sub_left (mul_le_mul_of_nonneg_left (u_mono h) (mul_nonneg hgamma hvol)) i.fv

end QuoteInputs

open QuoteInputs

/-- **Inventory skew is monotone.**  With more YES inventory, and nothing else changed, the highest
bid for YES is no higher, and the highest bid for NO no lower. -/
theorem skew_monotone (i : QuoteInputs) (posYes posNo : Position)
    (hnet : i.netShares ≤ (i.holding posYes posNo).netShares) (hgamma : 0 ≤ i.profile.gamma)
    (hvol : 0 ≤ i.volShort) (htick : 0 < i.m.tickSize) (hstep : 0 ≤ i.profile.layerStepTicks)
    (hyes : Stepped i.m.tickSize i.m.priceDecimals i.yesView)
    (hno : Stepped i.m.tickSize i.m.priceDecimals i.noView) :
    (∀ p p', IsGreatest {p | p ∈ i.bidPrices i.yesLeg} p →
      IsGreatest {p | p ∈ (i.holding posYes posNo).bidPrices (i.holding posYes posNo).yesLeg} p' →
      p' ≤ p) ∧
    ∀ p p', IsGreatest {p | p ∈ i.bidPrices i.noLeg} p →
      IsGreatest {p | p ∈ (i.holding posYes posNo).bidPrices (i.holding posYes posNo).noLeg} p' →
      p ≤ p' := by
  have hr := r_anti hgamma hvol hnet
  constructor
  · intro p p' hp hp'
    obtain ⟨top, htop, rfl⟩ := highest_eq htick hstep hp
    obtain ⟨top', htop', rfl⟩ := highest_eq (i := i.holding posYes posNo) htick hstep hp'
    refine toDecimals_mono _ (placeBid_mono htick hyes ?_ htop' htop)
    exact sub_le_sub_right hr i.delta
  · intro p p' hp hp'
    obtain ⟨top, htop, rfl⟩ := highest_eq htick hstep hp
    obtain ⟨top', htop', rfl⟩ := highest_eq (i := i.holding posYes posNo) htick hstep hp'
    refine toDecimals_mono _ (placeBid_mono htick hno ?_ htop htop')
    exact sub_le_sub_right (sub_le_sub_left hr 1) i.delta

/-- With 300 shares of YES a market bids two ticks lower for YES. -/
theorem skew_monotone_of_long_yes :
    let m : MarketMeta := ⟨"c", "yes", "no", 1 / 100, 5, 0, 0, none, none⟩
    let view := (OrderBook.ofTouch (48 / 100) (52 / 100) 100).view
    let i : QuoteInputs :=
      { m, regime := .quiet, fv := 1 / 2, volShort := 1 / 10, toxicity := 0, yesView := view
        noView := view, posYes := .flat, posNo := .flat, profile := { cVol := 0 }, now := 0 }
    let i' := i.holding ⟨300, 1 / 2⟩ .flat
    IsGreatest {p | p ∈ i.bidPrices i.yesLeg} (48 / 100) ∧
      IsGreatest {p | p ∈ i'.bidPrices i'.yesLeg} (46 / 100) ∧ (46 / 100 : ℚ) ≤ 48 / 100 := by
  intro m view i i'
  have hfirst : IsGreatest {p | p ∈ i.bidPrices i.yesLeg} (48 / 100) := by decide +kernel
  have hsecond : IsGreatest {p | p ∈ i'.bidPrices i'.yesLeg} (46 / 100) := by decide +kernel
  have hview : Stepped i.m.tickSize i.m.priceDecimals view :=
    ⟨by decide +kernel, fun hnone => absurd hnone (by decide +kernel)⟩
  exact ⟨hfirst, hsecond, (skew_monotone i ⟨300, 1 / 2⟩ .flat (by decide +kernel)
    (by decide +kernel) (by decide +kernel) (by decide +kernel) (by decide) hview hview).1 _ _
    hfirst hsecond⟩

/-- With 150 shares of YES a market whose layers step up, to the edge of the band, bids higher for
YES.  So does one with a tick of 0.0010004 when its target falls just short of a best ask of 500
ticks: the ask is rounded to 0.5, below itself. -/
theorem not_skew_monotone :
    (let m : MarketMeta := ⟨"c", "yes", "no", 1 / 100, 5, 0, 5 / 2, none, none⟩
    let i : QuoteInputs :=
      { m, regime := .trending, fv := 1 / 2, volShort := 1 / 10, toxicity := 0, yesView := .empty
        noView := .empty, posYes := .flat, posNo := .flat
        profile := { cVol := 0, layers := 3, layerStepTicks := -2, deltaMinTicks := 1 }, now := 0 }
    let i' := i.holding ⟨150, 1 / 2⟩ .flat
    (i.netShares ≤ i'.netShares ∧ 0 ≤ i.profile.gamma ∧ 0 ≤ i.volShort) ∧
      IsGreatest {p | p ∈ i.bidPrices i.yesLeg} (51 / 100) ∧
      IsGreatest {p | p ∈ i'.bidPrices i'.yesLeg} (52 / 100)) ∧
    let m : MarketMeta := ⟨"c", "yes", "no", 10004 / 10000000, 5, 0, 0, none, none⟩
    let i : QuoteInputs :=
      { m, regime := .trending, fv := 501 * m.tickSize, volShort := 1 / 10 ^ 12, toxicity := 0
        yesView := { BookView.empty with bestAsk := some (500 * m.tickSize) }, noView := .empty
        posYes := .flat, posNo := .flat
        profile := { cVol := 0, layers := 1, deltaMinTicks := 1 }, now := 0 }
    let i' := i.holding ⟨150, 1 / 2⟩ .flat
    (i.netShares ≤ i'.netShares ∧ 0 ≤ i.profile.gamma ∧ 0 ≤ i.volShort) ∧
      IsGreatest {p | p ∈ i.bidPrices i.yesLeg} (499 / 1000) ∧
      IsGreatest {p | p ∈ i'.bidPrices i'.yesLeg} (500 / 1000) := by
  decide +kernel

end Polymaker
