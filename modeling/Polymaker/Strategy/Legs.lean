import Polymaker.Strategy.Ticks

/-!
# The legs of a target set

`construct_quotes` prices four legs: a bid and an exit of each token.  Here each is read off its
inputs.

* `Leg`: what the pricing of one token reads, `QuoteInputs.yesLeg` and `QuoteInputs.noLeg`;
* `mem_addLayers_iff`: the layers of a bid;
* `QuoteInputs.Bids`, `QuoteInputs.Offers`: when a leg bids a layer, and when it offers what is
  held;
* `LaysOut.zero`, `layerPrice_le`: the first layer is the highest, and is laid out with any other;
* `buy_mem_iff`, `sell_mem_iff`: the bids and the offers of a target set are those of its legs;
* `buy_of_leg_iff`, `sell_of_leg_iff`: token by token.
-/

namespace Polymaker

open Rounding

/-! ### Legs -/

/-- What the pricing of one token reads, in the token's own price space. -/
structure Leg where
  tokenId : TokenId
  target : ℚ
  view : BookView
  fv : ℚ
  mid : ℚ
  u : ℚ
  pos : Position
  urgency : ℚ

namespace QuoteInputs

variable (i : QuoteInputs)

/-- The leg of the YES token. -/
def yesLeg : Leg :=
  ⟨i.m.yes, i.r - i.delta, i.yesView, i.fv, i.mid, i.u, i.posYes, i.yesExitUrgency⟩

/-- The leg of the NO token. -/
def noLeg : Leg :=
  ⟨i.m.no, 1 - i.r - i.delta, i.noView, 1 - i.fv, 1 - i.mid, -i.u, i.posNo, i.noExitUrgency⟩

/-- Both legs. -/
def legs : List Leg := [i.yesLeg, i.noLeg]

/-- The touch of a leg's bid. -/
def top (l : Leg) : Option ℚ :=
  placeBid l.target l.view i.m.tickSize i.m.priceDecimals l.fv i.profile.minEdgeTicks l.mid
    i.rewardBand

/-- The shares laid out from a touch. -/
def legSize (l : Leg) (top : ℚ) : ℚ :=
  sizeShares i.profile.baseSizeUsdc top (i.commonScale * (1 - max l.u 0)) i.m

/-- The layers they are split into. -/
def layerCount (l : Leg) (top : ℚ) : ℕ :=
  consolidate (i.legSize l top) i.m.minOrderSize (max i.rewardFloor i.m.minOrderSize)
    (max 1 i.profile.layers).toNat

/-- The size of a layer. -/
def layerSize (l : Leg) (top : ℚ) : ℚ := perLayer (i.legSize l top) (i.layerCount l top)

/-- The price of layer `j` below a touch. -/
def layerPrice (top : ℚ) (j : ℕ) : ℚ :=
  toDecimals i.m.priceDecimals (top - j * i.profile.layerStepTicks * i.m.tickSize)

/-- A price outside the reward band of a leg. -/
def OutOfBand (l : Leg) (price : ℚ) : Prop :=
  0 < i.rewardBand ∧ i.rewardBand + eps < |l.mid - price|

instance (l : Leg) (price : ℚ) : Decidable (i.OutOfBand l price) :=
  inferInstanceAs (Decidable (_ ∧ _))

/-- A leg lays out its layer `j` from a touch: the sizes meet the minimums, no layer down to it is
out of the band, and its price is strictly between zero and one. -/
structure LaysOut (l : Leg) (top : ℚ) (j : ℕ) : Prop where
  some_size : 0 < i.legSize l top
  pos_size : 0 < i.layerSize l top
  min_size : i.m.minOrderSize ≤ i.layerSize l top
  scores : ¬ (0 < max i.rewardFloor i.m.minOrderSize ∧
    i.layerSize l top < max i.rewardFloor i.m.minOrderSize)
  lt_count : j < i.layerCount l top
  in_band : ∀ k ≤ j, ¬ i.OutOfBand l (i.layerPrice top k)
  pos : 0 < i.layerPrice top j
  lt_one : i.layerPrice top j < 1

/-- The regime quotes both sides. -/
def QuotesBoth : Prop := i.regime = .trending ∨ i.regime = .quiet

/-- A leg bids its layer `j` from a touch. -/
structure Bids (l : Leg) (top : ℚ) (j : ℕ) : Prop where
  both : i.QuotesBoth
  inside : l.u < i.profile.qSoftFrac
  top_eq : i.top l = some top
  lays_out : i.LaysOut l top j

/-- The target of a leg's exit, before it is rounded up. -/
def exitTarget (l : Leg) : ℚ :=
  let passive := l.fv + i.delta
  let floor := match l.view.bestBid with
    | some b => b + i.m.tickSize
    | none => passive
  let urgency := if i.regime = .reduceOnly then max l.urgency (1 / 2) else l.urgency
  let target := passive * (1 - urgency) + floor * urgency
  match l.view.bestBid with
  | some b => max target (b + i.m.tickSize)
  | none => target

/-- The price of a leg's exit. -/
def exitAt (l : Leg) : ℚ :=
  exitPrice l.fv i.delta l.view i.m.tickSize i.m.priceDecimals l.urgency i.regime

/-- A leg offers what is held. -/
structure Offers (l : Leg) : Prop where
  lets : i.LetsExit
  held : i.m.minOrderSize ≤ exitSize l.pos
  pos : 0 < i.exitAt l
  lt_one : i.exitAt l < 1

/-- A leg has an exit: the regime lets it rest, and what is held meets the minimum. -/
def Exits (l : Leg) : Prop := i.LetsExit ∧ i.m.minOrderSize ≤ exitSize l.pos

variable {i}

theorem exitAt_eq (l : Leg) :
    i.exitAt l = roundToTick (i.exitTarget l) i.m.tickSize i.m.priceDecimals true := rfl

/-- An exit aims at a tick above the best bid, or higher. -/
theorem add_tick_le_exitTarget {l : Leg} {b : ℚ} (h : b ∈ l.view.bestBid) :
    b + i.m.tickSize ≤ i.exitTarget l := by
  unfold exitTarget
  rw [Option.mem_def.1 h]
  exact le_max_right _ _

/-- The clamp to the ends of the price range leaves every exit a price to rest at. -/
theorem offers_iff {l : Leg} (htick : 0 < i.m.tickSize) (hone : i.m.tickSize < 1) :
    i.Offers l ↔ i.Exits l := by
  have hlow : 0 < i.exitAt l := lt_min (htick.trans_le (le_max_right _ _)) (sub_pos.2 hone)
  have hhigh : i.exitAt l ≤ 1 - i.m.tickSize := roundToTick_le _ _ _ _
  exact ⟨fun h => ⟨h.lets, h.held⟩, fun h => ⟨h.1, h.2, hlow, hhigh.trans_lt (by linarith)⟩⟩

/-- The decimals of a tick that is bid at are not none: a price of no decimals is not strictly
between zero and one. -/
theorem LaysOut.priceDecimals_pos {l : Leg} {top : ℚ} {j : ℕ} (h : i.LaysOut l top j) :
    0 < i.m.priceDecimals := by
  refine Nat.pos_of_ne_zero fun hzero => ?_
  have hpos := h.pos
  have hone := h.lt_one
  unfold layerPrice toDecimals at hpos hone
  rw [hzero, pow_zero, div_one] at hpos hone
  norm_cast at hpos hone
  omega

/-- No layer is above the touch, rounded. -/
theorem layerPrice_le (htick : 0 < i.m.tickSize) (hstep : 0 ≤ i.profile.layerStepTicks) (top : ℚ)
    (j : ℕ) : i.layerPrice top j ≤ toDecimals i.m.priceDecimals top := by
  refine toDecimals_mono _ ?_
  have hdown : (0 : ℚ) ≤ j * i.profile.layerStepTicks * i.m.tickSize := by
    have hstep' : (0 : ℚ) ≤ i.profile.layerStepTicks := by exact_mod_cast hstep
    positivity
  linarith

theorem layerPrice_zero (top : ℚ) : i.layerPrice top 0 = toDecimals i.m.priceDecimals top := by
  unfold layerPrice
  simp

/-- The touch of a leg is at most a tick below one. -/
theorem top_le {l : Leg} {top : ℚ} (h : i.top l = some top) : top ≤ 1 - i.m.tickSize := by
  obtain ⟨⟨price, rfl, -⟩, -, -⟩ := placeBid_spec h
  exact roundToTick_le _ _ _ _

/-- The first layer is laid out with any other. -/
theorem LaysOut.zero {l : Leg} {top : ℚ} {j : ℕ} (htick : 0 < i.m.tickSize)
    (hstep : 0 ≤ i.profile.layerStepTicks) (htop : i.top l = some top) (h : i.LaysOut l top j) :
    i.LaysOut l top 0 where
  some_size := h.some_size
  pos_size := h.pos_size
  min_size := h.min_size
  scores := h.scores
  lt_count := (Nat.zero_le j).trans_lt h.lt_count
  in_band k hk := h.in_band k (hk.trans (Nat.zero_le j))
  pos := by
    rw [layerPrice_zero]
    exact h.pos.trans_le (layerPrice_le htick hstep top j)
  lt_one := by
    rw [layerPrice_zero]
    exact toDecimals_lt_one (half_lt_tick htick h.priceDecimals_pos) (top_le htop)

end QuoteInputs

/-! ### Layers -/

theorem mem_takeWhile_map_range {α : Type*} {f : ℕ → α} {P : α → Prop} [DecidablePred P] {n : ℕ}
    {x : α} : x ∈ ((List.range n).map f).takeWhile (fun y => decide (P y)) ↔
      ∃ j < n, f j = x ∧ ∀ k ≤ j, P (f k) := by
  induction n generalizing f with
  | zero => simp
  | succ n ih =>
    rw [List.range_succ_eq_map, List.map_cons, List.map_map, List.takeWhile_cons]
    by_cases h0 : P (f 0)
    · rw [if_pos (decide_eq_true h0), List.mem_cons, ih]
      constructor
      · rintro (rfl | ⟨j, hj, rfl, hall⟩)
        · exact ⟨0, Nat.succ_pos n, rfl, fun k hk => by rw [Nat.le_zero.1 hk]; exact h0⟩
        · refine ⟨j + 1, Nat.succ_lt_succ hj, rfl, fun k hk => ?_⟩
          cases k with
          | zero => exact h0
          | succ k => exact hall k (Nat.le_of_succ_le_succ hk)
      · rintro ⟨j, hj, rfl, hall⟩
        cases j with
        | zero => exact .inl rfl
        | succ j =>
          exact .inr ⟨j, Nat.lt_of_succ_lt_succ hj, rfl, fun k hk => hall (k + 1) (by omega)⟩
    · rw [if_neg (by simpa using h0)]
      constructor
      · exact fun h => absurd h List.not_mem_nil
      · rintro ⟨j, -, -, hall⟩
        exact absurd (hall 0 (Nat.zero_le j)) h0

/-- The quotes of one leg are its layers. -/
theorem mem_addLayers_iff {i : QuoteInputs} {l : Leg} {top : ℚ} {q : Quote} :
    q ∈ addLayers l.tokenId .buy top i.m.tickSize i.m.priceDecimals (i.legSize l top)
        i.profile.layers i.profile.layerStepTicks i.m.minOrderSize i.rewardFloor l.mid
        i.rewardBand ↔
      ∃ j, i.LaysOut l top j ∧ q = ⟨l.tokenId, .buy, i.layerPrice top j, i.layerSize l top⟩ := by
  unfold addLayers
  simp only
  split_ifs with hsize hmin hfloor
  · exact iff_of_false List.not_mem_nil fun ⟨j, h, _⟩ => hsize.not_gt h.some_size
  · refine iff_of_false List.not_mem_nil fun ⟨j, h, _⟩ => ?_
    exact hmin.elim h.min_size.not_gt h.pos_size.not_ge
  · exact iff_of_false List.not_mem_nil fun ⟨j, h, _⟩ => h.scores hfloor
  · rw [not_or, not_lt, not_le] at hmin
    rw [List.mem_map]
    constructor
    · rintro ⟨price, hprice, rfl⟩
      obtain ⟨hband, hin⟩ := List.mem_filter.1 hprice
      obtain ⟨j, hj, rfl, hall⟩ := mem_takeWhile_map_range.1 hband
      have hunit := of_decide_eq_true hin
      exact ⟨j, ⟨not_le.1 hsize, hmin.2, hmin.1, hfloor, hj, hall, hunit.1, hunit.2⟩, rfl⟩
    · rintro ⟨j, h, rfl⟩
      refine ⟨_, List.mem_filter.2 ⟨mem_takeWhile_map_range.2 ⟨j, h.lt_count, rfl, h.in_band⟩, ?_⟩,
        rfl⟩
      exact decide_eq_true ⟨h.pos, h.lt_one⟩

/-- The entry of one leg. -/
theorem mem_leg_iff {i : QuoteInputs} {l : Leg} {q : Quote} :
    q ∈ entryQuotes i l.tokenId l.target l.view l.fv l.mid l.u ↔
      ∃ top j, i.top l = some top ∧ i.LaysOut l top j ∧
        q = ⟨l.tokenId, .buy, i.layerPrice top j, i.layerSize l top⟩ := by
  unfold entryQuotes
  simp only
  cases htop : placeBid l.target l.view i.m.tickSize i.m.priceDecimals l.fv i.profile.minEdgeTicks
    l.mid i.rewardBand with
  | none =>
    refine iff_of_false List.not_mem_nil fun ⟨top, j, h, _⟩ => ?_
    rw [QuoteInputs.top, htop] at h
    cases h
  | some top =>
    refine mem_addLayers_iff.trans ⟨fun ⟨j, h⟩ => ⟨top, j, htop, h⟩, fun ⟨top', j, heq, h⟩ => ?_⟩
    obtain rfl : top = top' := Option.some.inj (htop.symm.trans heq)
    exact ⟨j, h⟩

/-- No more is offered than is held. -/
theorem exitSize_le (pos : Position) : exitSize pos ≤ pos.size := by
  unfold exitSize
  rw [div_le_iff₀ (by norm_num)]
  exact Int.floor_le _

/-- The exit of one leg. -/
theorem mem_maybeExit_iff {i : QuoteInputs} {l : Leg} {q : Quote} :
    q ∈ maybeExit l.tokenId l.pos l.fv i.delta l.view i.m.tickSize i.m.priceDecimals l.urgency i.m
        i.regime ↔
      i.m.minOrderSize ≤ exitSize l.pos ∧ 0 < i.exitAt l ∧ i.exitAt l < 1 ∧
        q = ⟨l.tokenId, .sell, i.exitAt l, exitSize l.pos⟩ := by
  have hfloor := exitSize_le l.pos
  unfold maybeExit QuoteInputs.exitAt
  simp only
  split_ifs with hsmall hin
  · exact iff_of_false List.not_mem_nil fun h => (h.1.trans hfloor).not_gt hsmall
  · rw [List.mem_singleton]
    exact ⟨fun h => ⟨hin.2.2, hin.1, hin.2.1, h⟩, fun h => h.2.2.2⟩
  · exact iff_of_false List.not_mem_nil fun h => hin ⟨h.2.1, h.2.2.1, h.1⟩

/-! ### Target sets -/

/-- The bids of a target set are those of its legs. -/
theorem buy_mem_iff {i : QuoteInputs} {q : Quote} :
    q ∈ (constructQuotes i).quotes ∧ q.side = .buy ↔
      ∃ l ∈ i.legs, ∃ top j, i.Bids l top j ∧
        q = ⟨l.tokenId, .buy, i.layerPrice top j, i.layerSize l top⟩ := by
  constructor
  · rintro ⟨hq, hbuy⟩
    have hboth := calm_of_buy_mem hq hbuy
    have hentry := mem_entries_of_buy hq hbuy
    unfold QuoteInputs.entries at hentry
    rcases List.mem_append.1 hentry with hleg | hleg
    · split_ifs at hleg with hadd
      · obtain ⟨top, j, htop, hlays, rfl⟩ := (mem_leg_iff (l := i.yesLeg)).1 hleg
        exact ⟨i.yesLeg, by simp [QuoteInputs.legs], top, j, ⟨hboth, hadd.2, htop, hlays⟩, rfl⟩
      · exact absurd hleg List.not_mem_nil
    · split_ifs at hleg with hadd
      · obtain ⟨top, j, htop, hlays, rfl⟩ := (mem_leg_iff (l := i.noLeg)).1 hleg
        exact ⟨i.noLeg, by simp [QuoteInputs.legs], top, j,
          ⟨hboth, neg_lt.1 hadd.2, htop, hlays⟩, rfl⟩
      · exact absurd hleg List.not_mem_nil
  · rintro ⟨l, hl, top, j, h, rfl⟩
    have hadding : i.regime ≠ .reduceOnly := by rcases h.both with hr | hr <;> rw [hr] <;> decide
    have hentry : (⟨l.tokenId, .buy, i.layerPrice top j, i.layerSize l top⟩ : Quote) ∈
        i.entries := by
      have hleg := mem_leg_iff.2 ⟨top, j, h.top_eq, h.lays_out, rfl⟩
      simp only [QuoteInputs.legs, List.mem_cons, List.not_mem_nil, or_false] at hl
      unfold QuoteInputs.entries
      rcases hl with rfl | rfl
      · rw [if_pos ⟨hadding, h.inside⟩]
        exact List.mem_append_left _ hleg
      · rw [if_pos (show i.addNo from ⟨hadding, neg_lt.1 h.inside⟩)]
        exact List.mem_append_right _ hleg
    refine ⟨?_, rfl⟩
    unfold constructQuotes
    rcases h.both with hr | hr <;> rw [hr] <;> exact List.mem_append_left _ hentry

/-- The offers of a target set are those of its legs. -/
theorem sell_mem_iff {i : QuoteInputs} {q : Quote} :
    q ∈ (constructQuotes i).quotes ∧ q.side = .sell ↔
      ∃ l ∈ i.legs, i.Offers l ∧ q = ⟨l.tokenId, .sell, i.exitAt l, exitSize l.pos⟩ := by
  constructor
  · rintro ⟨hq, hsell⟩
    obtain ⟨hlets, hexit⟩ := mem_exits_of_sell hq hsell
    rcases List.mem_append.1 hexit with hleg | hleg
    · obtain ⟨hheld, hpos, hone, rfl⟩ := (mem_maybeExit_iff (l := i.yesLeg)).1 hleg
      exact ⟨i.yesLeg, by simp [QuoteInputs.legs], ⟨hlets, hheld, hpos, hone⟩, rfl⟩
    · obtain ⟨hheld, hpos, hone, rfl⟩ := (mem_maybeExit_iff (l := i.noLeg)).1 hleg
      exact ⟨i.noLeg, by simp [QuoteInputs.legs], ⟨hlets, hheld, hpos, hone⟩, rfl⟩
  · rintro ⟨l, hl, h, rfl⟩
    have hleg := mem_maybeExit_iff.2 ⟨h.held, h.pos, h.lt_one, rfl⟩
    have hexit : (⟨l.tokenId, .sell, i.exitAt l, exitSize l.pos⟩ : Quote) ∈ i.exits := by
      simp only [QuoteInputs.legs, List.mem_cons, List.not_mem_nil, or_false] at hl
      rcases hl with rfl | rfl
      · exact List.mem_append_left _ hleg
      · exact List.mem_append_right _ hleg
    refine ⟨?_, rfl⟩
    rw [constructQuotes_of_letsExit h.lets]
    exact List.mem_append_right _ hexit

/-! ### Tokens -/

namespace QuoteInputs

variable {i : QuoteInputs}

theorem mem_legs_iff {l : Leg} : l ∈ i.legs ↔ l = i.yesLeg ∨ l = i.noLeg := by
  unfold legs
  rw [List.mem_cons, List.mem_singleton]

/-- A token has one leg. -/
theorem eq_of_tokenId (hne : i.m.yes ≠ i.m.no) {l k : Leg} (hl : l ∈ i.legs) (hk : k ∈ i.legs)
    (h : l.tokenId = k.tokenId) : l = k := by
  rcases mem_legs_iff.1 hl with rfl | rfl <;> rcases mem_legs_iff.1 hk with rfl | rfl
  · rfl
  · exact absurd h hne
  · exact absurd h.symm hne
  · rfl

end QuoteInputs

/-- The bids of one token. -/
theorem buy_of_leg_iff {i : QuoteInputs} (hne : i.m.yes ≠ i.m.no) {l : Leg} (hl : l ∈ i.legs)
    {q : Quote} :
    q ∈ (constructQuotes i).quotes ∧ q.side = .buy ∧ q.tokenId = l.tokenId ↔
      ∃ top j, i.Bids l top j ∧ q = ⟨l.tokenId, .buy, i.layerPrice top j, i.layerSize l top⟩ := by
  rw [← and_assoc, buy_mem_iff]
  constructor
  · rintro ⟨⟨k, hk, top, j, h, rfl⟩, htok⟩
    obtain rfl := QuoteInputs.eq_of_tokenId hne hk hl htok
    exact ⟨top, j, h, rfl⟩
  · rintro ⟨top, j, h, rfl⟩
    exact ⟨⟨l, hl, top, j, h, rfl⟩, rfl⟩

/-- The offer of one token. -/
theorem sell_of_leg_iff {i : QuoteInputs} (hne : i.m.yes ≠ i.m.no) {l : Leg} (hl : l ∈ i.legs)
    {q : Quote} :
    q ∈ (constructQuotes i).quotes ∧ q.side = .sell ∧ q.tokenId = l.tokenId ↔
      i.Offers l ∧ q = ⟨l.tokenId, .sell, i.exitAt l, exitSize l.pos⟩ := by
  rw [← and_assoc, sell_mem_iff]
  constructor
  · rintro ⟨⟨k, hk, h, rfl⟩, htok⟩
    obtain rfl := QuoteInputs.eq_of_tokenId hne hk hl htok
    exact ⟨h, rfl⟩
  · rintro ⟨h, rfl⟩
    exact ⟨⟨l, hl, h, rfl⟩, rfl⟩

end Polymaker
