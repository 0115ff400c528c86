import Polymaker.Strategy.Legs

/-!
# The merge edge

A filled pair of bids merges back to one USDC, so what it cost has to be below one.  Both bids keep
the edge to their own fair value, and the two fair values add up to one; what is left to bound are
the roundings and the clamp that can raise a price to one tick.

* `halfEven_add_halfEven_lt`, `halfEven_add_halfEven_tick_lt`: numbers of ticks that leave an edge
  still leave it when rounded;
* `Bids.layerPrice_le`: a bid is at most its ticks, rounded, or one tick;
* `Bids.add_lt_one`: the bids of the two legs;
* `Ordinary`: the inputs whose bids keep the edge;
* `merge_edge`: the bids of a target set.

A tick of between half and three quarters of a millionth is rounded to a whole one, and then the
edge is lost (`not_merge_edge_of_small_tick`).
-/

namespace Polymaker

open Rounding QuoteInputs

/-! ### Rounded ticks -/

section Rounded

variable {N K a b : ℤ} {T : ℚ} (hwhole : K * T = N)
include hwhole

/-- Two numbers of ticks that leave two of them leave one unit when both are rounded. -/
theorem halfEven_add_halfEven_lt (hT : 1 / 2 < T) (hab : a + b ≤ K - 2) :
    halfEven (a * T) + halfEven (b * T) < N := by
  have ha := (abs_le.1 (abs_halfEven_sub_le (a * T))).2
  have hb := (abs_le.1 (abs_halfEven_sub_le (b * T))).2
  have hsum : ((a : ℚ) + b) * T ≤ (K - 2) * T := by
    refine mul_le_mul_of_nonneg_right ?_ (by linarith)
    exact_mod_cast hab
  have hlt : (halfEven (a * T) : ℚ) + halfEven (b * T) < N := by
    calc (halfEven (a * T) : ℚ) + halfEven (b * T) ≤ (a + b) * T + 1 := by linarith
      _ ≤ (K - 2) * T + 1 := by linarith
      _ = N - 2 * T + 1 := by rw [← hwhole]; ring
      _ < N := by linarith
  exact_mod_cast hlt

/-- So do a number of ticks that leaves two, and one more tick. -/
theorem halfEven_add_halfEven_tick_lt (heven : N % 2 = 0) (hT : 3 / 4 ≤ T) (ha : a ≤ K - 2) :
    halfEven (a * T) + halfEven T < N := by
  have hle : a * T ≤ N - 2 * T := by
    have hmul : (a : ℚ) * T ≤ (K - 2) * T := by
      refine mul_le_mul_of_nonneg_right ?_ (by linarith)
      exact_mod_cast ha
    calc (a : ℚ) * T ≤ (K - 2) * T := hmul
      _ = N - 2 * T := by rw [← hwhole]; ring
  rcases le_or_gt T 1 with hone | hone
  · -- the tick rounds to one unit, and the others to two less than the whole
    have htick : halfEven T ≤ 1 :=
      calc halfEven T ≤ halfEven (1 : ℤ) := halfEven_mono (by exact_mod_cast hone)
        _ = 1 := halfEven_intCast 1
    have hrest : halfEven (a * T) ≤ N - 2 :=
      calc halfEven (a * T) ≤ halfEven ((N - 2 : ℤ) + 1 / 2) :=
            halfEven_mono (by push_cast; linarith)
        _ = N - 2 := halfEven_add_half (by omega)
    omega
  · have hrest := (abs_le.1 (abs_halfEven_sub_le (a * T))).2
    have htick := (abs_le.1 (abs_halfEven_sub_le T)).2
    have hlt : (halfEven (a * T) : ℚ) + halfEven T < N := by linarith
    exact_mod_cast hlt

/-- So do two numbers of ticks, each raised to one tick where it is lower. -/
theorem max_halfEven_add_max_halfEven_lt (heven : N % 2 = 0) (hT : 3 / 4 ≤ T) (hK : 3 ≤ K)
    (ha : a ≤ K - 2) (hb : b ≤ K - 2) (hab : a + b ≤ K - 2) :
    max (halfEven (a * T)) (halfEven T) + max (halfEven (b * T)) (halfEven T) < N := by
  have htick := fun {c : ℤ} => halfEven_add_halfEven_tick_lt (a := c) hwhole heven hT
  rcases max_choice (halfEven (a * T)) (halfEven T) with hl | hl <;>
    rcases max_choice (halfEven (b * T)) (halfEven T) with hr | hr <;> rw [hl, hr]
  · exact halfEven_add_halfEven_lt hwhole (by linarith) hab
  · exact htick ha
  · rw [add_comm]
    exact htick hb
  · have hone := htick (c := 1) (by omega)
    rwa [Int.cast_one, one_mul] at hone

end Rounded

/-! ### The bids of two legs -/

section Edge

variable {i : QuoteInputs} (htick : 0 < i.m.tickSize) (hstep : 0 ≤ i.profile.layerStepTicks)
include htick hstep

/-- A bid is at most its ticks, rounded, or one tick. -/
theorem QuoteInputs.Bids.layerPrice_le {l : Leg} {top : ℚ} {j : ℕ} (h : i.Bids l top j) :
    ∃ n : ℤ, n ≤ l.fv / i.m.tickSize - i.profile.minEdgeTicks + eps ∧
      i.layerPrice top j * 10 ^ i.m.priceDecimals ≤
        max (halfEven (n * (i.m.tickSize * 10 ^ i.m.priceDecimals)))
          (halfEven (i.m.tickSize * 10 ^ i.m.priceDecimals)) := by
  obtain ⟨⟨price, htop, hprice⟩, -, -⟩ := placeBid_spec h.top_eq
  have hpos : (0 : ℚ) < 10 ^ i.m.priceDecimals := by positivity
  refine ⟨⌊price / i.m.tickSize + eps⌋, ?_, ?_⟩
  · refine (Int.floor_le _).trans (add_le_add_left ?_ eps)
    rw [div_sub' htick.ne', div_le_div_iff_of_pos_right htick]
    linarith [(hprice htick.le).1]
  · have hround : top ≤ max (toDecimals i.m.priceDecimals
        (⌊price / i.m.tickSize + eps⌋ * i.m.tickSize)) i.m.tickSize := by
      rw [htop]
      exact min_le_left _ _
    have hmono := toDecimals_mono i.m.priceDecimals hround
    rw [(show Monotone (toDecimals i.m.priceDecimals) from
      fun _ _ => toDecimals_mono _).map_max, toDecimals_of_onGrid (onGrid_toDecimals _ _)] at hmono
    have hle := (QuoteInputs.layerPrice_le htick hstep top j).trans hmono
    unfold toDecimals at hle
    rw [max_div_div_right hpos.le, le_div_iff₀ hpos] at hle
    rw [← mul_assoc]
    exact_mod_cast hle

end Edge

/-- On a tick with six decimals, a bid is below fair value by the edge, up to the tolerance, or at
one tick. -/
theorem QuoteInputs.Bids.layerPrice_le_of_onGrid {i : QuoteInputs} (htick : 0 < i.m.tickSize)
    (hstep : 0 ≤ i.profile.layerStepTicks) (hgrid : OnGrid 6 i.m.tickSize) {l : Leg} {top : ℚ}
    {j : ℕ} (h : i.Bids l top j) :
    i.layerPrice top j ≤
      max (l.fv - (i.profile.minEdgeTicks - eps) * i.m.tickSize) i.m.tickSize := by
  obtain ⟨⟨price, htop, hprice⟩, -, -⟩ := placeBid_spec h.top_eq
  have hdec := onGrid_priceDecimals hgrid
  have hticks : (⌊price / i.m.tickSize + eps⌋ : ℤ) * i.m.tickSize ≤
      l.fv - (i.profile.minEdgeTicks - eps) * i.m.tickSize := by
    calc (⌊price / i.m.tickSize + eps⌋ : ℤ) * i.m.tickSize
        ≤ (price / i.m.tickSize + eps) * i.m.tickSize :=
          mul_le_mul_of_nonneg_right (Int.floor_le _) htick.le
      _ = price + eps * i.m.tickSize := by field_simp
      _ ≤ l.fv - (i.profile.minEdgeTicks - eps) * i.m.tickSize := by
          linarith [(hprice htick.le).1]
  calc i.layerPrice top j ≤ toDecimals i.m.priceDecimals top :=
        QuoteInputs.layerPrice_le htick hstep top j
    _ = top := toDecimals_of_onGrid (placeBid_eq_some hdec h.top_eq).1
    _ ≤ max (toDecimals i.m.priceDecimals (⌊price / i.m.tickSize + eps⌋ * i.m.tickSize))
          i.m.tickSize := htop.le.trans (min_le_left _ _)
    _ ≤ max (l.fv - (i.profile.minEdgeTicks - eps) * i.m.tickSize) i.m.tickSize := by
          rw [toDecimals_of_onGrid (hdec.intMul _)]
          exact max_le_max_right _ hticks

/-- The tick of a market that bids is three quarters of its last decimal, or more. -/
theorem three_quarters_le_tick {i : QuoteInputs} (htick : 0 < i.m.tickSize)
    (hsmall : ¬ (1 / 2 < i.m.tickSize * 10 ^ 6 ∧ i.m.tickSize * 10 ^ 6 < 3 / 4)) {l : Leg} {top : ℚ}
    {j : ℕ} (h : i.Bids l top j) : 3 / 4 ≤ i.m.tickSize * 10 ^ i.m.priceDecimals := by
  rcases lt_tick_of_priceDecimals_pos htick h.lays_out.priceDecimals_pos with hle | ⟨hsix, hlt⟩
  · exact hle
  · rw [hsix]
    exact not_lt.1 fun hgt => hsmall ⟨hlt, hgt⟩

/-- **The bids of two legs** whose fair values add up to one keep an edge. -/
theorem QuoteInputs.Bids.add_lt_one {i : QuoteInputs} (htick : 0 < i.m.tickSize)
    (hhalf : i.m.tickSize < 1 / 2) (hwhole : ∃ K : ℤ, K * i.m.tickSize = 1)
    (hsmall : ¬ (1 / 2 < i.m.tickSize * 10 ^ 6 ∧ i.m.tickSize * 10 ^ 6 < 3 / 4))
    (hedge : 1 ≤ i.profile.minEdgeTicks) (hstep : 0 ≤ i.profile.layerStepTicks) {l l' : Leg}
    (hsum : l.fv + l'.fv = 1) (hlow : i.m.tickSize ≤ l.fv) (hlow' : i.m.tickSize ≤ l'.fv)
    {top top' : ℚ} {j j' : ℕ} (h : i.Bids l top j) (h' : i.Bids l' top' j') :
    i.layerPrice top j + i.layerPrice top' j' < 1 := by
  obtain ⟨K, hK⟩ := hwhole
  obtain ⟨n, hn, hp⟩ := h.layerPrice_le htick hstep
  obtain ⟨n', hn', hp'⟩ := h'.layerPrice_le htick hstep
  have hT := three_quarters_le_tick htick hsmall h
  have hdec := h.lays_out.priceDecimals_pos
  -- the fair values in ticks
  have hticks : l.fv / i.m.tickSize + l'.fv / i.m.tickSize = K := by
    rw [← add_div, hsum, ← hK, mul_div_cancel_right₀ _ htick.ne']
  have hone : 1 ≤ l.fv / i.m.tickSize := (one_le_div htick).2 hlow
  have hone' : 1 ≤ l'.fv / i.m.tickSize := (one_le_div htick).2 hlow'
  have hedgeq : (1 : ℚ) ≤ i.profile.minEdgeTicks := by exact_mod_cast hedge
  have heps : eps < 1 / 2 := by norm_num [eps]
  have hboth : n + n' ≤ K - 2 := by
    have hlt : (n : ℚ) + n' < K - 2 + 1 := by linarith
    exact Int.lt_add_one_iff.1 (by exact_mod_cast hlt)
  have hleft : n ≤ K - 2 := by
    have hlt : (n : ℚ) < K - 2 + 1 := by linarith
    exact Int.lt_add_one_iff.1 (by exact_mod_cast hlt)
  have hright : n' ≤ K - 2 := by
    have hlt : (n' : ℚ) < K - 2 + 1 := by linarith
    exact Int.lt_add_one_iff.1 (by exact_mod_cast hlt)
  have hthree : 3 ≤ K := by
    have hlt : (2 : ℚ) < K := by
      by_contra hle
      have hmul : (K : ℚ) * i.m.tickSize ≤ 2 * i.m.tickSize :=
        mul_le_mul_of_nonneg_right (not_lt.1 hle) htick.le
      linarith
    have hlt' : 2 < K := by exact_mod_cast hlt
    exact hlt'
  -- in units of the last decimal
  have hpos : (0 : ℚ) < 10 ^ i.m.priceDecimals := by positivity
  have hunits : (K : ℚ) * (i.m.tickSize * 10 ^ i.m.priceDecimals) =
      ((10 ^ i.m.priceDecimals : ℤ) : ℚ) := by
    rw [← mul_assoc, hK, one_mul]
    push_cast
    rfl
  have heven : (10 : ℤ) ^ i.m.priceDecimals % 2 = 0 :=
    Int.even_iff.1 ((by decide : Even (10 : ℤ)).pow_of_ne_zero hdec.ne')
  have hlt := max_halfEven_add_max_halfEven_lt hunits heven hT hthree hleft hright hboth
  refine lt_of_mul_lt_mul_right ?_ hpos.le
  rw [one_mul, add_mul]
  exact (add_le_add hp hp').trans_lt (by exact_mod_cast hlt)

/-- Inputs whose target set keeps the edge by itself: an ordinary tick, layers that step down, and a
fair value and an edge inside the price range. -/
structure Ordinary (i : QuoteInputs) : Prop where
  tokens : i.m.yes ≠ i.m.no
  tick_pos : 0 < i.m.tickSize
  tick_lt : i.m.tickSize < 1 / 2
  whole : ∃ K : ℤ, K * i.m.tickSize = 1
  tick_large : ¬ (1 / 2 < i.m.tickSize * 10 ^ 6 ∧ i.m.tickSize * 10 ^ 6 < 3 / 4)
  fv_mem : i.m.tickSize ≤ i.fv ∧ i.fv ≤ 1 - i.m.tickSize
  edge : 1 ≤ i.profile.minEdgeTicks
  step : 0 ≤ i.profile.layerStepTicks

/-- The bids of an ordinary target set, one for each token, keep the edge. -/
theorem Ordinary.yes_add_no_lt_one {i : QuoteInputs} (h : Ordinary i) {p q : Quote}
    (hp : p ∈ (constructQuotes i).quotes) (hpbuy : p.side = .buy) (hpyes : p.tokenId = i.m.yes)
    (hq : q ∈ (constructQuotes i).quotes) (hqbuy : q.side = .buy) (hqno : q.tokenId = i.m.no) :
    p.price + q.price < 1 := by
  obtain ⟨top, j, hbids, rfl⟩ :=
    (buy_of_leg_iff (l := i.yesLeg) h.tokens (mem_legs_iff.2 (.inl rfl))).1 ⟨hp, hpbuy, hpyes⟩
  obtain ⟨top', j', hbids', rfl⟩ :=
    (buy_of_leg_iff (l := i.noLeg) h.tokens (mem_legs_iff.2 (.inr rfl))).1 ⟨hq, hqbuy, hqno⟩
  have hodds : i.yesLeg.fv + i.noLeg.fv = 1 := add_sub_cancel i.fv 1
  exact hbids.add_lt_one h.tick_pos h.tick_lt h.whole h.tick_large h.edge h.step hodds
    h.fv_mem.1 (le_sub_comm.1 h.fv_mem.2) hbids'

/-- **The merge edge of a target set.**  For every inventory, volatility, toxicity, mid, reward band
and book, the bids of the two tokens of a target set cost less than one together. -/
theorem merge_edge (i : QuoteInputs) (hne : i.m.yes ≠ i.m.no) (htick : 0 < i.m.tickSize)
    (hhalf : i.m.tickSize < 1 / 2) (hwhole : ∃ K : ℤ, K * i.m.tickSize = 1)
    (hsmall : ¬ (1 / 2 < i.m.tickSize * 10 ^ 6 ∧ i.m.tickSize * 10 ^ 6 < 3 / 4))
    (hfv : i.m.tickSize ≤ i.fv ∧ i.fv ≤ 1 - i.m.tickSize) (hedge : 1 ≤ i.profile.minEdgeTicks)
    (hstep : 0 ≤ i.profile.layerStepTicks) {p q : Quote} (hp : p ∈ (constructQuotes i).quotes)
    (hpbuy : p.side = .buy) (hpyes : p.tokenId = i.m.yes) (hq : q ∈ (constructQuotes i).quotes)
    (hqbuy : q.side = .buy) (hqno : q.tokenId = i.m.no) : p.price + q.price < 1 := by
  have hi : Ordinary i := ⟨hne, htick, hhalf, hwhole, hsmall, hfv, hedge, hstep⟩
  exact hi.yes_add_no_lt_one hp hpbuy hpyes hq hqbuy hqno

/-- A market at even odds bids 0.48 for both tokens. -/
theorem merge_edge_at_even_odds :
    let m : MarketMeta := ⟨"c", "yes", "no", 1 / 100, 5, 0, 0, none, none⟩
    let view := (OrderBook.ofTouch (48 / 100) (52 / 100) 100).view
    let i : QuoteInputs :=
      { m, regime := .quiet, fv := 1 / 2, volShort := 0, toxicity := 0, yesView := view
        noView := view, posYes := .flat, posNo := .flat, profile := {}, now := 0 }
    let p : Quote := ⟨"yes", .buy, 48 / 100, 5208 / 100⟩
    let q : Quote := ⟨"no", .buy, 48 / 100, 5208 / 100⟩
    p ∈ (constructQuotes i).quotes ∧ q ∈ (constructQuotes i).quotes ∧ p.price + q.price < 1 := by
  intro m view i p q
  have hp : p ∈ (constructQuotes i).quotes := by decide +kernel
  have hq : q ∈ (constructQuotes i).quotes := by decide +kernel
  exact ⟨hp, hq, merge_edge i (by decide) (by decide +kernel) (by decide +kernel)
    ⟨100, by norm_num⟩ (by decide +kernel) (by decide +kernel) (by decide) (by decide) hp rfl rfl
    hq rfl rfl⟩

/-- With a tick of 1 / 1600000 and the fair value at the low end, the bids add up to one: the tick
is rounded to a millionth, and the bid for NO to one less a millionth. -/
theorem not_merge_edge_of_small_tick :
    let m : MarketMeta := ⟨"c", "yes", "no", 1 / 1600000, 0, 0, 0, none, none⟩
    let i : QuoteInputs :=
      { m, regime := .quiet, fv := m.tickSize, volShort := 0, toxicity := 0, yesView := .empty
        noView := .empty, posYes := .flat, posNo := .flat
        profile := { deltaMinTicks := 1, minEdgeTicks := 1, layers := 1, baseSizeUsdc := 1 }
        now := 0 }
    (0 < m.tickSize ∧ m.tickSize < 1 / 2 ∧ 1600000 * m.tickSize = 1 ∧ m.tickSize ≤ i.fv ∧
      i.fv ≤ 1 - m.tickSize ∧ 1 ≤ i.profile.minEdgeTicks ∧ 0 ≤ i.profile.layerStepTicks) ∧
      ∃ p ∈ (constructQuotes i).quotes, ∃ q ∈ (constructQuotes i).quotes,
        p.side = .buy ∧ p.tokenId = i.m.yes ∧ q.side = .buy ∧ q.tokenId = i.m.no ∧
          p.price + q.price = 1 := by
  decide +kernel

end Polymaker
