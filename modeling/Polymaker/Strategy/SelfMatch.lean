import Polymaker.Strategy.Legs

/-!
# Exits that trade with each other

A SELL of YES and a SELL of NO that add up to one or less match on the exchange by merging.  Each
exit looks at its own book alone.

* `OneBook`: the two views are one book seen from both tokens;
* `SelfMatchFree`: no offer meets a bid of its own token, nor the offer of the other one;
* `ExitsApart`: the two exits aim too high to leave a price of the grid between them; at full
  urgency only a spread of one tick does (`OneBook.exitsApart_iff_of_urgent`);
* `self_match_free_iff`: that is exactly what keeps a target set from trading with itself.
-/

namespace Polymaker

open QuoteInputs Rounding

/-- The two views are one book on the tick grid, with `b` ticks bid and `a` ticks asked for YES, and
`K` ticks to one. -/
structure OneBook (i : QuoteInputs) (K b a : ℤ) : Prop where
  tick_pos : 0 < i.m.tickSize
  decimals : OnGrid 6 i.m.tickSize
  whole : K * i.m.tickSize = 1
  yes_bid : i.yesView.bestBid = some (b * i.m.tickSize)
  yes_ask : i.yesView.bestAsk = some (a * i.m.tickSize)
  no_bid : i.noView.bestBid = some (1 - a * i.m.tickSize)
  no_ask : i.noView.bestAsk = some (1 - b * i.m.tickSize)
  pos : 0 < b
  lt : b < a
  lt_whole : a < K

/-- **A target set cannot trade with itself through its exits.** -/
def SelfMatchFree (i : QuoteInputs) : Prop :=
  (∀ p ∈ (constructQuotes i).quotes, ∀ q ∈ (constructQuotes i).quotes, p.side = .sell →
    q.side = .buy → p.tokenId = q.tokenId → q.price < p.price) ∧
  ∀ p ∈ (constructQuotes i).quotes, ∀ q ∈ (constructQuotes i).quotes, p.side = .sell →
    p.tokenId = i.m.yes → q.side = .sell → q.tokenId = i.m.no → 1 < p.price + q.price

instance (i : QuoteInputs) : Decidable (SelfMatchFree i) :=
  inferInstanceAs (Decidable (_ ∧ _))

/-- Where both tokens have an exit, no price of the grid is at or above the target of one and, seen
from the other token, of the other, up to the tolerance. -/
def ExitsApart (i : QuoteInputs) (K : ℤ) : Prop :=
  i.Exits i.yesLeg → i.Exits i.noLeg → ∀ k : ℤ,
    ¬ (i.exitTarget i.yesLeg ≤ (k + eps) * i.m.tickSize ∧
      i.exitTarget i.noLeg ≤ (K - k + eps) * i.m.tickSize)

/-- The bids of a token are below its exit. -/
def LayersBelow (i : QuoteInputs) : Prop :=
  ∀ l ∈ i.legs, i.Exits l → ∀ top j, i.Bids l top j → i.layerPrice top j < i.exitAt l

section OneBook

variable {i : QuoteInputs} {K b a : ℤ} (h : OneBook i K b a)
include h

theorem OneBook.three_le : 3 ≤ K := by
  have hpos := h.pos
  have hlt := h.lt
  have hwhole := h.lt_whole
  omega

theorem OneBook.tick_lt_half : i.m.tickSize < 1 / 2 := by
  have hK : (3 : ℚ) ≤ K := by exact_mod_cast h.three_le
  have hmul : 3 * i.m.tickSize ≤ K * i.m.tickSize := mul_le_mul_of_nonneg_right hK h.tick_pos.le
  rw [h.whole] at hmul
  linarith

/-- Each token is bid at a number of ticks, at least two below the end of the price range. -/
theorem OneBook.exists_bid {l : Leg} (hl : l ∈ i.legs) :
    ∃ c : ℤ, 0 < c ∧ c ≤ K - 2 ∧ l.view.bestBid = some (c * i.m.tickSize) := by
  have hpos := h.pos
  have hlt := h.lt
  have hwhole := h.lt_whole
  rcases mem_legs_iff.1 hl with rfl | rfl
  · exact ⟨b, hpos, by omega, h.yes_bid⟩
  · refine ⟨K - a, by omega, by omega, h.no_bid.trans (congrArg some ?_)⟩
    push_cast
    rw [sub_mul, h.whole]

/-- An exit aims above the best bid of its token. -/
theorem OneBook.lt_exitTicks {l : Leg} {c : ℤ}
    (hbid : l.view.bestBid = some (c * i.m.tickSize)) :
    c < ⌈i.exitTarget l / i.m.tickSize - eps⌉ := by
  have htarget : (c + 1 : ℚ) ≤ i.exitTarget l / i.m.tickSize := by
    rw [le_div_iff₀ h.tick_pos, add_mul, one_mul]
    exact add_tick_le_exitTarget hbid
  exact Int.lt_ceil.2 (by linarith [eps_lt_one])

/-- A target is at or below a price of the grid when its ticks are. -/
theorem OneBook.le_grid_iff {x : ℚ} {k : ℤ} :
    x ≤ (k + eps) * i.m.tickSize ↔ ⌈x / i.m.tickSize - eps⌉ ≤ k := by
  rw [Int.ceil_le, sub_le_iff_le_add, div_le_iff₀ h.tick_pos]

/-- The same, seen from the other token. -/
theorem OneBook.le_other_iff {x : ℚ} {k : ℤ} :
    x ≤ (K - k + eps) * i.m.tickSize ↔ ⌈x / i.m.tickSize - eps⌉ ≤ K - k := by
  rw [← h.le_grid_iff]
  push_cast
  rfl

/-- The exit of a token in ticks: its target rounded up, or one tick below one. -/
theorem OneBook.exitAt_eq {l : Leg} (hl : l ∈ i.legs) :
    2 ≤ ⌈i.exitTarget l / i.m.tickSize - eps⌉ ∧
      i.exitAt l = (min ⌈i.exitTarget l / i.m.tickSize - eps⌉ (K - 1) : ℤ) * i.m.tickSize := by
  obtain ⟨c, hc, -, hbid⟩ := h.exists_bid hl
  have htick := h.tick_pos
  have hceil := h.lt_exitTicks hbid
  have htwo : 2 ≤ ⌈i.exitTarget l / i.m.tickSize - eps⌉ := by omega
  have hone : i.m.tickSize ≤ (⌈i.exitTarget l / i.m.tickSize - eps⌉ : ℤ) * i.m.tickSize := by
    refine le_mul_of_one_le_left htick.le ?_
    exact_mod_cast (by omega : 1 ≤ ⌈i.exitTarget l / i.m.tickSize - eps⌉)
  refine ⟨htwo, ?_⟩
  rw [QuoteInputs.exitAt_eq]
  unfold roundToTick
  simp only [if_true]
  rw [toDecimals_of_onGrid ((onGrid_priceDecimals h.decimals).intMul _), max_eq_left hone,
    Int.cast_min, min_mul_of_nonneg _ _ htick.le]
  push_cast
  rw [sub_mul, h.whole, one_mul]

/-- The touch of a token's bid is at its best bid, or below. -/
theorem OneBook.top_le {l : Leg} {c : ℤ} (hc : 0 < c)
    (hbid : l.view.bestBid = some (c * i.m.tickSize)) {top : ℚ} (htop : i.top l = some top) :
    top ≤ c * i.m.tickSize := by
  obtain ⟨⟨price, rfl, hprice⟩, -, -⟩ := placeBid_spec htop
  have htick := h.tick_pos
  have hle : price / i.m.tickSize ≤ c := (div_le_iff₀ htick).2 ((hprice htick.le).2 _ hbid)
  have hfloor : ⌊price / i.m.tickSize + eps⌋ ≤ c := by
    refine Int.le_of_lt_add_one (Int.floor_lt.2 ?_)
    push_cast
    linarith [eps_lt_one]
  refine (min_le_left _ _).trans (max_le ?_ ?_)
  · simp only [Bool.false_eq_true, if_false]
    rw [toDecimals_of_onGrid ((onGrid_priceDecimals h.decimals).intMul _)]
    exact mul_le_mul_of_nonneg_right (by exact_mod_cast hfloor) htick.le
  · exact le_mul_of_one_le_left htick.le (by exact_mod_cast hc)

/-- The bids of a token rest at its best bid or below it, and its exit above. -/
theorem OneBook.layersBelow (hstep : 0 ≤ i.profile.layerStepTicks) : LayersBelow i := by
  intro l hl _ top j hbids
  obtain ⟨c, hc, hend, hbid⟩ := h.exists_bid hl
  have htick := h.tick_pos
  have hgrid := onGrid_priceDecimals h.decimals
  have hcend : (c : ℚ) * i.m.tickSize < 1 - i.m.tickSize := by
    rw [← h.whole, ← sub_one_mul]
    refine mul_lt_mul_of_pos_right ?_ htick
    exact_mod_cast (by omega : c < K - 1)
  have heps : eps * i.m.tickSize < i.m.tickSize := mul_lt_of_lt_one_left htick eps_lt_one
  have htarget := add_tick_le_exitTarget (i := i) hbid
  calc i.layerPrice top j ≤ toDecimals i.m.priceDecimals top := layerPrice_le htick hstep top j
    _ = top := toDecimals_of_onGrid (placeBid_eq_some hgrid hbids.top_eq).1
    _ ≤ c * i.m.tickSize := h.top_le hc hbid hbids.top_eq
    _ < i.exitAt l := by
      rw [QuoteInputs.exitAt_eq]
      exact lt_roundToTick_up htick hgrid hcend (by linarith)

/-- Two exits do not match exactly when no price of the grid is between them. -/
theorem OneBook.one_lt_exits_iff :
    1 < i.exitAt i.yesLeg + i.exitAt i.noLeg ↔ ∀ k : ℤ,
      ¬ (i.exitTarget i.yesLeg ≤ (k + eps) * i.m.tickSize ∧
        i.exitTarget i.noLeg ≤ (K - k + eps) * i.m.tickSize) := by
  obtain ⟨hy, hyes⟩ := h.exitAt_eq (mem_legs_iff.2 (.inl rfl))
  obtain ⟨hn, hno⟩ := h.exitAt_eq (mem_legs_iff.2 (.inr rfl))
  have htick := h.tick_pos
  have hsum : 1 < i.exitAt i.yesLeg + i.exitAt i.noLeg ↔
      K < min ⌈i.exitTarget i.yesLeg / i.m.tickSize - eps⌉ (K - 1) +
        min ⌈i.exitTarget i.noLeg / i.m.tickSize - eps⌉ (K - 1) := by
    rw [hyes, hno, ← add_mul, ← h.whole, mul_lt_mul_iff_left₀ htick]
    norm_cast
  simp only [hsum, h.le_grid_iff, h.le_other_iff, not_and, not_le]
  constructor
  · intro hlt k hk
    omega
  · intro hall
    have hk := hall _ (le_refl _)
    have hK := h.three_le
    omega

/-- Exits at full urgency are apart on a spread of one tick alone. -/
theorem OneBook.exitsApart_iff_of_urgent (hy : i.yesExitUrgency = 1)
    (hn : i.noExitUrgency = 1) :
    ExitsApart i K ↔ (i.Exits i.yesLeg → i.Exits i.noLeg → a = b + 1) := by
  have hlt := h.lt
  have hnobid : i.noLeg.view.bestBid = some ((K - a : ℤ) * i.m.tickSize) := by
    refine h.no_bid.trans (congrArg some ?_)
    push_cast
    rw [sub_mul, h.whole]
  -- at full urgency an exit aims at one tick above the best bid
  have hurgent : ∀ {l : Leg} {c : ℤ}, l.urgency = 1 →
      l.view.bestBid = some (c * i.m.tickSize) → i.exitTarget l = (c + 1) * i.m.tickSize := by
    intro l c hone hbid
    unfold exitTarget
    simp only [hone, hbid]
    have hmax : (if i.regime = .reduceOnly then max 1 (1 / 2) else 1 : ℚ) = 1 := by
      split_ifs <;> norm_num
    rw [hmax, sub_self, mul_zero, mul_one, zero_add, max_self]
    ring
  refine forall_congr' fun _ => forall_congr' fun _ => ?_
  constructor
  · intro hapart
    by_contra hne
    have heps := eps_pos
    have hspread : (b : ℚ) + 2 ≤ a := by exact_mod_cast (by omega : b + 2 ≤ a)
    refine hapart (b + 1) ⟨?_, ?_⟩
    · rw [hurgent hy h.yes_bid]
      refine mul_le_mul_of_nonneg_right ?_ h.tick_pos.le
      push_cast
      linarith
    · rw [hurgent hn hnobid]
      refine mul_le_mul_of_nonneg_right ?_ h.tick_pos.le
      push_cast
      linarith
  · rintro rfl k ⟨hyes, hno⟩
    have hy' := (h.lt_exitTicks h.yes_bid).trans_le (h.le_grid_iff.1 hyes)
    have hn' := (h.lt_exitTicks hnobid).trans_le (h.le_other_iff.1 hno)
    omega

end OneBook

/-- **A target set trades with itself exactly** when both tokens have an exit and a price of the
grid is left between the two targets, or when layers that step up reach an exit. -/
theorem self_match_free_iff (i : QuoteInputs) (hne : i.m.yes ≠ i.m.no) {K b a : ℤ}
    (h : OneBook i K b a) :
    SelfMatchFree i ↔ ExitsApart i K ∧ (0 ≤ i.profile.layerStepTicks ∨ LayersBelow i) := by
  have hoffers := fun {l : Leg} => offers_iff (l := l) h.tick_pos (h.tick_lt_half.trans one_half_lt_one)
  constructor
  · rintro ⟨hself, hpair⟩
    refine ⟨fun hy hn => h.one_lt_exits_iff.1 ?_, .inr fun l hl hexit top j hbids => ?_⟩
    · have hyes := (sell_of_leg_iff hne (mem_legs_iff.2 (.inl rfl))).2 ⟨hoffers.2 hy, rfl⟩
      have hno := (sell_of_leg_iff hne (mem_legs_iff.2 (.inr rfl))).2 ⟨hoffers.2 hn, rfl⟩
      exact hpair _ hyes.1 _ hno.1 rfl rfl rfl rfl
    · have hsell := (sell_of_leg_iff hne hl).2 ⟨hoffers.2 hexit, rfl⟩
      have hbuy := (buy_of_leg_iff hne hl).2 ⟨top, j, hbids, rfl⟩
      exact hself _ hsell.1 _ hbuy.1 rfl rfl rfl
  · rintro ⟨hapart, hlayers⟩
    have hbelow := hlayers.elim h.layersBelow id
    refine ⟨fun p hp q hq hsell hbuy htok => ?_, fun p hp q hq hpsell hyes hqsell hno => ?_⟩
    · obtain ⟨l, hl, hexit, rfl⟩ := sell_mem_iff.1 ⟨hp, hsell⟩
      obtain ⟨top, j, hbids, rfl⟩ := (buy_of_leg_iff hne hl).1 ⟨hq, hbuy, htok.symm⟩
      exact hbelow l hl (hoffers.1 hexit) top j hbids
    · obtain ⟨hy, rfl⟩ := (sell_of_leg_iff (l := i.yesLeg) hne (mem_legs_iff.2 (.inl rfl))).1
        ⟨hp, hpsell, hyes⟩
      obtain ⟨hn, rfl⟩ := (sell_of_leg_iff (l := i.noLeg) hne (mem_legs_iff.2 (.inr rfl))).1
        ⟨hq, hqsell, hno⟩
      exact h.one_lt_exits_iff.2 (hapart (hoffers.1 hy) (hoffers.1 hn))

/-- Both tokens are held on a spread of two ticks, and no exit is urgent. -/
theorem self_match_free_of_patience :
    let m : MarketMeta := ⟨"c", "yes", "no", 1 / 100, 5, 0, 0, none, none⟩
    let i : QuoteInputs :=
      { m, regime := .quiet, fv := 1 / 2, volShort := 0, toxicity := 0
        yesView := (OrderBook.ofTouch (49 / 100) (51 / 100) 100).view
        noView := (OrderBook.ofTouch (49 / 100) (51 / 100) 100).view
        posYes := ⟨100, 1 / 2⟩, posNo := ⟨100, 1 / 2⟩, profile := {}, now := 0 }
    SelfMatchFree i := by
  intro m i
  have h : OneBook i 100 49 51 :=
    ⟨by decide +kernel, ⟨10000, by norm_num⟩, by decide +kernel, by decide +kernel,
      by decide +kernel, by decide +kernel, by decide +kernel, by decide, by decide, by decide⟩
  refine (self_match_free_iff i (by decide) h).2 ⟨fun _ _ k hk => ?_, .inl (by decide)⟩
  -- both exits aim two ticks above fair value
  have hyes := h.le_grid_iff.1 hk.1
  have hno := h.le_other_iff.1 hk.2
  have hyes' : ⌈i.exitTarget i.yesLeg / i.m.tickSize - eps⌉ = 52 := by decide +kernel
  have hno' : ⌈i.exitTarget i.noLeg / i.m.tickSize - eps⌉ = 52 := by decide +kernel
  omega

/-- On the same book, with both exits urgent, both tokens are offered at 0.50. -/
theorem not_self_match_free_of_urgency :
    let m : MarketMeta := ⟨"c", "yes", "no", 1 / 100, 5, 0, 0, none, none⟩
    let i : QuoteInputs :=
      { m, regime := .reduceOnly, fv := 1 / 2, volShort := 0, toxicity := 0
        yesView := (OrderBook.ofTouch (49 / 100) (51 / 100) 100).view
        noView := (OrderBook.ofTouch (49 / 100) (51 / 100) 100).view
        posYes := ⟨100, 1 / 2⟩, posNo := ⟨100, 1 / 2⟩, profile := {}, now := 0
        yesExitUrgency := 1, noExitUrgency := 1 }
    OneBook i 100 49 51 ∧ ¬ SelfMatchFree i := by
  intro m i
  exact ⟨⟨by decide +kernel, ⟨10000, by norm_num⟩, by decide +kernel, by decide +kernel,
    by decide +kernel, by decide +kernel, by decide +kernel, by decide, by decide, by decide⟩,
    by decide +kernel⟩

end Polymaker
