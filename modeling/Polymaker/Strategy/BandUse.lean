import Polymaker.Strategy.Sizing

/-!
# Using the reward band

`_place_bid` caps a bid at the far edge of the reward band, and joins a touch that may be below the
near one; the layers of such a bid are then dropped, and with them the leg.

* `QuietBand`: a quiet market whose band has room, with a two-sided book and budget for an order;
* `UsesBand`: both legs bid, inside the band;
* `QuoteInputs.leastBid`, `QuoteInputs.snapped`: where a leg wants to bid, and a price as a bid is
  rounded;
* `InReach`: the target of a leg and its best bid are inside the band once rounded, as the target
  always is where the skew does not lower it (`target_in_reach`);
* `RoundingFits`: the price a leg ends up at can rest there, as on every tick with six decimals
  (`roundingFits_of_onGrid`);
* `band_used_iff`: both legs bid exactly where both are in reach.
-/

namespace Polymaker

open Rounding QuoteInputs

/-- A quiet market whose reward band has room for the least half-spread, with fair value and mid
inside the prices, between the touches of both books, no inventory to stop a leg, and budget for one
order of the floor at any price. -/
structure QuietBand (i : QuoteInputs) : Prop where
  quiet : i.regime = .quiet
  band : 0 < i.m.rewardsMaxSpread
  room : i.base ≤ i.room
  edge : 1 ≤ i.profile.minEdgeTicks
  spread : 1 ≤ i.profile.deltaMinTicks
  tick : 0 < i.m.tickSize
  touch : ∀ l ∈ i.legs, ∃ b a, l.view.bestBid = some b ∧ l.view.bestAsk = some a ∧
    b < l.fv ∧ l.fv < a
  mid : i.rewardBand < i.mid ∧ i.mid < 1 - i.rewardBand
  fv : i.rewardBand < i.fv ∧ i.fv < 1 - i.rewardBand
  inside : |i.u| < i.profile.qSoftFrac
  floor : 0 < i.orderFloor
  budget : ∀ l ∈ i.legs, ∀ price, 0 < price → price < 1 → i.orderFloor ≤ i.legSize l price

/-- **Both legs bid**, and inside the band of their own token, up to the tolerance. -/
def UsesBand (i : QuoteInputs) : Prop :=
  ∀ l ∈ i.legs, i.bidsOf l ≠ [] ∧ ∀ q ∈ i.bidsOf l, |l.mid - q.price| ≤ i.rewardBand + eps

/-- Where a leg wants to bid: the least of its target, the two caps and the best bid. -/
def QuoteInputs.leastBid (i : QuoteInputs) (l : Leg) : ℚ :=
  joinBid l.view.bestBid
    (capBid l.target i.m.tickSize l.fv i.profile.minEdgeTicks l.mid i.rewardBand)

/-- A price as the first layer of a bid is rounded. -/
def QuoteInputs.snapped (i : QuoteInputs) (price : ℚ) : ℚ :=
  toDecimals i.m.priceDecimals (roundToTick price i.m.tickSize i.m.priceDecimals false)

/-- The target of a leg and its best bid are no further below its mid than the band, once
rounded. -/
structure InReach (i : QuoteInputs) (l : Leg) : Prop where
  target : l.mid - i.rewardBand - eps ≤ i.snapped l.target
  bid : ∀ b ∈ l.view.bestBid, l.mid - i.rewardBand - eps ≤ i.snapped b

/-- The price a leg ends up at has decimals, is below the best ask and inside the band. -/
structure RoundingFits (i : QuoteInputs) (l : Leg) : Prop where
  decimals : 0 < i.m.priceDecimals
  below : ∀ a ∈ l.view.bestAsk,
    roundToTick (i.leastBid l) i.m.tickSize i.m.priceDecimals false < a
  in_band : |l.mid - i.snapped (i.leastBid l)| ≤ i.rewardBand + eps

theorem le_snapped_min {i : QuoteInputs} {x y z : ℚ} (hy : x ≤ i.snapped y) (hz : x ≤ i.snapped z) :
    x ≤ i.snapped (min y z) := by
  rcases min_choice y z with heq | heq <;> rwa [heq]

/-- A tick with six decimals has the decimals prices are rounded to. -/
theorem snapped_eq {i : QuoteInputs} (hgrid : OnGrid 6 i.m.tickSize) (y : ℚ) :
    i.snapped y = roundToTick y i.m.tickSize i.m.priceDecimals false := by
  have hdec := onGrid_priceDecimals hgrid
  have hone : OnGrid i.m.priceDecimals 1 := by simpa using onGrid_intCast i.m.priceDecimals 1
  rw [snapped, roundToTick_of_onGrid hdec]
  exact toDecimals_of_onGrid (((hdec.intMul _).max hdec).min (hone.sub hdec))

namespace QuietBand

variable {i : QuoteInputs} (h : QuietBand i)
include h

/-- The band has room for two ticks and for the distance of fair value from the mid. -/
theorem band_wide : |i.fv - i.mid| + 2 * i.m.tickSize ≤ i.rewardBand ∧ i.m.tickSize < 1 / 2 := by
  have hedge : (1 : ℚ) ≤ i.profile.minEdgeTicks := by exact_mod_cast h.edge
  have hspread : (1 : ℚ) ≤ i.profile.deltaMinTicks := by exact_mod_cast h.spread
  have hroom := h.room
  unfold QuoteInputs.room QuoteInputs.base at hroom
  have hticks : 1 * i.m.tickSize ≤ i.profile.minEdgeTicks * i.m.tickSize :=
    mul_le_mul_of_nonneg_right hedge h.tick.le
  have hbase : 1 * i.m.tickSize ≤ i.profile.deltaMinTicks * i.m.tickSize :=
    mul_le_mul_of_nonneg_right hspread h.tick.le
  have habs := abs_nonneg (i.fv - i.mid)
  have hlow := h.mid.1
  have hhigh := h.mid.2
  constructor <;> linarith

/-- What holds of both legs alike. -/
theorem leg {l : Leg} (hl : l ∈ i.legs) :
    |l.fv - l.mid| = |i.fv - i.mid| ∧ (i.rewardBand < l.mid ∧ l.mid < 1 - i.rewardBand) ∧
      i.rewardBand < l.fv ∧ l.u < i.profile.qSoftFrac := by
  obtain ⟨hlow, hhigh⟩ := abs_lt.1 h.inside
  rcases mem_legs_iff.1 hl with rfl | rfl
  · exact ⟨rfl, h.mid, h.fv.1, hhigh⟩
  · refine ⟨?_, ⟨?_, ?_⟩, ?_, neg_lt.1 hlow⟩
    · show |1 - i.fv - (1 - i.mid)| = _
      rw [abs_sub_comm i.fv]
      congr 1
      ring
    · exact lt_sub_comm.1 h.mid.2
    · exact sub_lt_sub_left h.mid.1 1
    · exact lt_sub_comm.1 h.fv.2

theorem rewardBand_pos : 0 < i.rewardBand := div_pos h.band (by norm_num)

/-- The touch of a leg is where it wants to bid, rounded, if that is below the best ask. -/
theorem top_eq_some_iff {l : Leg} (hl : l ∈ i.legs) {top : ℚ} :
    i.top l = some top ↔
      top = roundToTick (i.leastBid l) i.m.tickSize i.m.priceDecimals false ∧
        (∀ a ∈ l.view.bestAsk, top < a) ∧ 0 < top ∧ top < 1 := by
  obtain ⟨b, a, hb, ha, hbid, hask⟩ := h.touch l hl
  have hinside : stayInside l.view.bestAsk i.m.tickSize (i.leastBid l) = i.leastBid l := by
    refine stayInside_of_lt fun a' ha' => ?_
    obtain rfl := Option.some.inj (ha.symm.trans ha')
    exact ((joinBid_le _ _).2 b hb).trans_lt (hbid.trans hask)
  unfold QuoteInputs.top
  rw [placeBid_eq_some_iff]
  unfold leastBid at hinside ⊢
  rw [hinside]

theorem tick_le_top (y : ℚ) :
    i.m.tickSize ≤ roundToTick y i.m.tickSize i.m.priceDecimals false :=
  tick_le_roundToTick y (by linarith [h.band_wide.2]) _ _

theorem leastBid_eq {l : Leg} {b : ℚ} (hb : l.view.bestBid = some b) :
    i.leastBid l = min (min (min l.target (l.fv - i.profile.minEdgeTicks * i.m.tickSize))
      (l.mid + i.rewardBand - i.m.tickSize)) b := by
  have hcap : capBid l.target i.m.tickSize l.fv i.profile.minEdgeTicks l.mid i.rewardBand =
      min (min l.target (l.fv - i.profile.minEdgeTicks * i.m.tickSize))
        (l.mid + i.rewardBand - i.m.tickSize) := if_pos h.rewardBand_pos
  rw [leastBid, hb, joinBid_some, hcap]

/-- Where the price a leg ends up at can rest, the budget lays out its first layer. -/
theorem laysOut_of_fits {l : Leg} (hl : l ∈ i.legs) (hfits : RoundingFits i l) :
    i.LaysOut l (roundToTick (i.leastBid l) i.m.tickSize i.m.priceDecimals false) 0 := by
  have hlow := h.tick_le_top (i.leastBid l)
  have hhigh := roundToTick_le (i.leastBid l) i.m.tickSize i.m.priceDecimals false
  have hin := hfits.in_band
  unfold snapped at hin
  generalize roundToTick (i.leastBid l) i.m.tickSize i.m.priceDecimals false = top at hlow hhigh hin
  -- the size of a layer is the floor or more
  have hbudget := h.budget l hl top (h.tick.trans_le hlow) (hhigh.trans_lt (by linarith [h.tick]))
  have hgrid : OnGrid 2 (i.legSize l top) := onGrid_sizeShares _ _ _ _
  have hlayers : 1 ≤ (max 1 i.profile.layers).toNat := by omega
  have hfloor : i.orderFloor ≤ i.layerSize l top :=
    (isGreatest_consolidate h.floor (le_max_right _ _)
      (hbudget.trans_eq (perLayer_one hgrid).symm) hlayers).1.2
  have hhalf := half_lt_tick h.tick hfits.decimals
  exact
    { some_size := h.floor.trans_le hbudget
      pos_size := h.floor.trans_le hfloor
      min_size := (le_max_right _ _).trans hfloor
      scores := fun hsmall => hsmall.2.not_ge hfloor
      lt_count := consolidate_pos _ _ _ _
      in_band := fun k hk hout => by
        rw [Nat.le_zero.1 hk, layerPrice_zero] at hout
        exact hout.2.not_ge hin
      pos := by
        rw [layerPrice_zero]
        exact toDecimals_pos hhalf hlow
      lt_one := by
        rw [layerPrice_zero]
        exact toDecimals_lt_one hhalf hhigh }

/-- A leg bids exactly where the price it ends up at can rest. -/
theorem uses_iff {l : Leg} (hl : l ∈ i.legs) :
    (i.bidsOf l ≠ [] ∧ ∀ q ∈ i.bidsOf l, |l.mid - q.price| ≤ i.rewardBand + eps) ↔
      RoundingFits i l := by
  constructor
  · rintro ⟨hne, -⟩
    obtain ⟨q, hq⟩ := List.exists_mem_of_ne_nil _ hne
    obtain ⟨top, j, hbids, -⟩ := mem_bidsOf_iff.1 hq
    obtain ⟨htop, hbelow, -⟩ := (h.top_eq_some_iff hl).1 hbids.top_eq
    refine ⟨hbids.lays_out.priceDecimals_pos, fun a ha => htop ▸ hbelow a ha, ?_⟩
    have hin := hbids.lays_out.in_band 0 (Nat.zero_le j)
    rw [layerPrice_zero, htop] at hin
    exact not_lt.1 fun hout => hin ⟨h.rewardBand_pos, hout⟩
  · intro hfits
    have hlays := h.laysOut_of_fits hl hfits
    have hlow := h.tick_le_top (i.leastBid l)
    have hhigh := roundToTick_le (i.leastBid l) i.m.tickSize i.m.priceDecimals false
    have htop := (h.top_eq_some_iff hl).2
      ⟨rfl, hfits.below, h.tick.trans_le hlow, hhigh.trans_lt (by linarith [h.tick])⟩
    have hbids : i.Bids l _ 0 := ⟨.inr h.quiet, (h.leg hl).2.2.2, htop, hlays⟩
    refine ⟨List.ne_nil_of_mem (mem_bidsOf_iff.2 ⟨_, 0, hbids, rfl⟩), fun q hq => ?_⟩
    obtain ⟨top, j, hbids', rfl⟩ := mem_bidsOf_iff.1 hq
    exact not_lt.1 fun hout =>
      hbids'.lays_out.in_band j (le_refl j) ⟨h.rewardBand_pos, hout⟩

/-- A leg that bids is in reach. -/
theorem inReach_of_fits {l : Leg} (hl : l ∈ i.legs) (hfits : RoundingFits i l) : InReach i l := by
  obtain ⟨b, a, hb, -⟩ := h.touch l hl
  have hsnap : ∀ {x y : ℚ}, x ≤ y → i.snapped x ≤ i.snapped y := fun hxy =>
    toDecimals_mono _ (roundToTick_mono h.tick _ false hxy)
  have hleast := (abs_le.1 hfits.in_band).2
  have htarget : i.leastBid l ≤ l.target :=
    (joinBid_le _ _).1.trans (capBid_le_target ..)
  have hbid : ∀ b ∈ l.view.bestBid, i.leastBid l ≤ b := (joinBid_le _ _).2
  constructor
  · linarith [hsnap htarget]
  · intro b hb
    linarith [hsnap (hbid b hb)]

/-! ### Ticks with six decimals -/

section Grid

variable (hgrid : OnGrid 6 i.m.tickSize)
include hgrid

theorem decimals_pos : 0 < i.m.priceDecimals := by
  refine Nat.pos_of_ne_zero fun hzero => ?_
  obtain ⟨k, hk⟩ := onGrid_priceDecimals hgrid
  rw [hzero, pow_zero, div_one] at hk
  have hpos := h.tick
  have hhalf := h.band_wide.2
  rw [hk] at hpos hhalf
  have hk0 : 0 < k := by exact_mod_cast hpos
  have hk1 : k < 1 := by
    have : (k : ℚ) < 1 := by linarith
    exact_mod_cast this
  omega

/-- A price is snapped down by less than a tick. -/
theorem le_snapped {x y : ℚ} (hx : x + i.m.tickSize ≤ y) (hone : x ≤ 1 - i.m.tickSize) :
    x ≤ i.snapped y := by
  have hticks : x ≤ ⌊y / i.m.tickSize + eps⌋ * i.m.tickSize := by
    have hfloor := Int.lt_floor_add_one (y / i.m.tickSize + eps)
    have heps := eps_pos
    have hlt : y / i.m.tickSize < ⌊y / i.m.tickSize + eps⌋ + 1 := by linarith
    rw [div_lt_iff₀ h.tick] at hlt
    linarith
  rw [snapped_eq hgrid, roundToTick_of_onGrid (onGrid_priceDecimals hgrid)]
  exact le_min (hticks.trans (le_max_left _ _)) hone

/-- It is snapped up by no more than the tolerance, or to one tick. -/
theorem roundToTick_le_max (y : ℚ) : roundToTick y i.m.tickSize i.m.priceDecimals false ≤
    max (y + eps * i.m.tickSize) i.m.tickSize := by
  have hticks : ⌊y / i.m.tickSize + eps⌋ * i.m.tickSize ≤ y + eps * i.m.tickSize := by
    calc (⌊y / i.m.tickSize + eps⌋ : ℚ) * i.m.tickSize
        ≤ (y / i.m.tickSize + eps) * i.m.tickSize :=
          mul_le_mul_of_nonneg_right (Int.floor_le _) h.tick.le
      _ = y + eps * i.m.tickSize := by
          rw [add_mul, div_mul_cancel₀ _ h.tick.ne']
  rw [roundToTick_of_onGrid (onGrid_priceDecimals hgrid)]
  exact (min_le_left _ _).trans (max_le_max_right _ hticks)

/-- **Where a leg is in reach, the price it ends up at can rest.** -/
theorem roundingFits_of_onGrid {l : Leg} (hl : l ∈ i.legs) (hreach : InReach i l) :
    RoundingFits i l := by
  obtain ⟨b, a, hb, ha, hbid, hask⟩ := h.touch l hl
  obtain ⟨hfar, hmid, hfv, -⟩ := h.leg hl
  obtain ⟨hwide, hhalf⟩ := h.band_wide
  have htick := h.tick
  have heps := eps_pos
  have hsmall : eps * i.m.tickSize ≤ i.m.tickSize :=
    mul_le_of_le_one_left htick.le eps_lt_one.le
  have habs := abs_nonneg (i.fv - i.mid)
  have hedge : i.m.tickSize ≤ i.profile.minEdgeTicks * i.m.tickSize :=
    le_mul_of_one_le_left htick.le (by exact_mod_cast h.edge)
  have hleast := h.leastBid_eq hb
  have hround := h.roundToTick_le_max hgrid (i.leastBid l)
  refine ⟨h.decimals_pos hgrid, fun a' ha' => ?_, abs_le.2 ⟨?_, ?_⟩⟩
  · obtain rfl := Option.some.inj (ha.symm.trans ha')
    have hlow : i.leastBid l ≤ l.fv - i.profile.minEdgeTicks * i.m.tickSize := by
      rw [hleast]
      exact (min_le_left _ _).trans ((min_le_left _ _).trans (min_le_right _ _))
    refine hround.trans_lt (max_lt ?_ ?_) <;> linarith
  · -- above the mid, by the band at most
    have hhigh : i.leastBid l ≤ l.mid + i.rewardBand - i.m.tickSize := by
      rw [hleast]
      exact (min_le_left _ _).trans (min_le_right _ _)
    have hmax : max (i.leastBid l + eps * i.m.tickSize) i.m.tickSize ≤ l.mid + i.rewardBand :=
      max_le (by linarith) (by linarith)
    rw [snapped_eq hgrid]
    linarith
  · -- below it: neither cap is further away than the band and a tick
    have hlow : l.mid - i.rewardBand - eps ≤ i.snapped (i.leastBid l) := by
      have hroom := h.room
      unfold QuoteInputs.room QuoteInputs.base at hroom
      have hbase : i.m.tickSize ≤ i.profile.deltaMinTicks * i.m.tickSize :=
        le_mul_of_one_le_left htick.le (by exact_mod_cast h.spread)
      have hdist := (abs_le.1 hfar.le).1
      have hend : l.mid - i.rewardBand ≤ 1 - i.m.tickSize := by linarith [hmid.2]
      have hcaps : ∀ y, l.mid - i.rewardBand + i.m.tickSize ≤ y →
          l.mid - i.rewardBand - eps ≤ i.snapped y := fun y hy =>
        (sub_le_self _ heps.le).trans (h.le_snapped hgrid hy hend)
      rw [hleast]
      exact le_snapped_min (le_snapped_min (le_snapped_min hreach.target (hcaps _ (by linarith)))
        (hcaps _ (by linarith))) (hreach.bid b hb)
    linarith

/-- The target of a leg is in reach where the skew does not lower it. -/
theorem target_in_reach {l : Leg} (hl : l ∈ i.legs) (hskew : l.fv - i.delta ≤ l.target) :
    l.mid - i.rewardBand - eps ≤ i.snapped l.target := by
  obtain ⟨hfar, hmid, -⟩ := h.leg hl
  have htick := h.tick
  have heps := eps_pos
  have hroom := h.room
  have hbase : i.m.tickSize ≤ i.base :=
    le_mul_of_one_le_left htick.le (by exact_mod_cast h.spread)
  have hedge : i.m.tickSize ≤ i.profile.minEdgeTicks * i.m.tickSize :=
    le_mul_of_one_le_left htick.le (by exact_mod_cast h.edge)
  -- the half-spread is clamped to the room of the band
  have hdelta : i.delta ≤ i.room := by
    unfold delta
    simp only
    rw [if_pos ⟨h.quiet, h.rewardBand_pos⟩, if_pos (by linarith), clamp, max_eq_right hroom]
    exact max_le (min_le_right _ _) (hbase.trans hroom)
  have hspread : i.delta ≤ i.rewardBand - |i.fv - i.mid| - i.profile.minEdgeTicks * i.m.tickSize :=
    hdelta
  have hdist := (abs_le.1 hfar.le).1
  refine (sub_le_self _ heps.le).trans (h.le_snapped hgrid (by linarith) ?_)
  linarith [hmid.2, h.band_wide.1, abs_nonneg (i.fv - i.mid)]

end Grid

end QuietBand

/-- **When the band is used.**  In a quiet market whose band has room, both legs bid, inside the
band, if and only if the target and the best bid of each are in reach once rounded, up to the
rounding of a tick of more than six decimals. -/
theorem band_used_iff (i : QuoteInputs) (h : QuietBand i) :
    UsesBand i ↔ ∀ l ∈ i.legs, InReach i l ∧ (OnGrid 6 i.m.tickSize ∨ RoundingFits i l) := by
  refine forall₂_congr fun l hl => (h.uses_iff hl).trans ⟨fun hfits => ?_, ?_⟩
  · exact ⟨h.inReach_of_fits hl hfits, .inr hfits⟩
  · rintro ⟨hreach, hgrid | hfits⟩
    · exact h.roundingFits_of_onGrid hgrid hl hreach
    · exact hfits

/-! ### A market at even odds -/

/-- A base size that covers the floor covers it at any price. -/
theorem orderFloor_le_legSize {i : QuoteInputs} {l : Leg} {price : ℚ} (hfloor : 0 < i.orderFloor)
    (hcents : OnGrid 2 i.orderFloor) (htick : i.m.tickSize ≤ 1)
    (hbase : i.orderFloor ≤ i.profile.baseSizeUsdc * max (i.commonScale * (1 - max l.u 0)) 0)
    (hpos : 0 < price) (hone : price < 1) : i.orderFloor ≤ i.legSize l price := by
  have hprice : 0 < max price i.m.tickSize := lt_max_of_lt_left hpos
  have hle : i.orderFloor ≤ i.profile.baseSizeUsdc / max price i.m.tickSize *
      max (i.commonScale * (1 - max l.u 0)) 0 := by
    rw [div_mul_eq_mul_div, le_div_iff₀ hprice]
    exact (mul_le_of_le_one_right hfloor.le (max_le hone.le htick)).trans hbase
  unfold legSize sizeShares
  simp only
  rw [if_pos (hfloor.trans_le hle)]
  calc i.orderFloor = toDecimals 2 i.orderFloor := (toDecimals_of_onGrid hcents).symm
    _ ≤ _ := toDecimals_mono 2 hle

/-- A market at even odds uses its band where the touch is in it. -/
theorem band_used_at_even_odds :
    let m : MarketMeta := ⟨"c", "yes", "no", 1 / 100, 5, 50, 3, none, none⟩
    let view := (OrderBook.ofTouch (48 / 100) (52 / 100) 100).view
    let i : QuoteInputs :=
      { m, regime := .quiet, fv := 1 / 2, volShort := 0, toxicity := 0, yesView := view
        noView := view, posYes := .flat, posNo := .flat, profile := {}, now := 0 }
    UsesBand i := by
  intro m view i
  have hquiet : QuietBand i :=
    { quiet := rfl
      band := by decide +kernel
      room := by decide +kernel
      edge := by decide
      spread := by decide
      tick := by decide +kernel
      touch := fun l hl => by
        rcases mem_legs_iff.1 hl with rfl | rfl <;>
          exact ⟨48 / 100, 52 / 100, by decide +kernel, by decide +kernel, by decide +kernel,
            by decide +kernel⟩
      mid := by decide +kernel
      fv := by decide +kernel
      inside := by decide +kernel
      floor := by decide +kernel
      budget := fun l hl _ => orderFloor_le_legSize (by decide +kernel) ⟨5000, by decide +kernel⟩
        (by decide +kernel) (by rcases mem_legs_iff.1 hl with rfl | rfl <;> decide +kernel) }
  refine (band_used_iff i hquiet).2 fun l hl => ⟨?_, .inl ⟨10 ^ 4, by norm_num [i, m]⟩⟩
  rcases mem_legs_iff.1 hl with rfl | rfl <;> exact ⟨by decide +kernel, by decide +kernel⟩

/-- The same market with a best bid of 0.40: both bids join it, a tenth below the mid, and are
dropped. -/
theorem not_usesBand_of_distant_touch :
    let m : MarketMeta := ⟨"c", "yes", "no", 1 / 100, 5, 50, 3, none, none⟩
    let view := (OrderBook.ofTouch (40 / 100) (60 / 100) 100).view
    let i : QuoteInputs :=
      { m, regime := .quiet, fv := 1 / 2, volShort := 0, toxicity := 0, yesView := view
        noView := view, posYes := .flat, posNo := .flat, profile := {}, now := 0 }
    QuietBand i ∧ i.u = 0 ∧ (constructQuotes i).quotes = [] ∧ ¬ UsesBand i := by
  intro m view i
  have hquiet : QuietBand i :=
    { quiet := rfl
      band := by decide +kernel
      room := by decide +kernel
      edge := by decide
      spread := by decide
      tick := by decide +kernel
      touch := fun l hl => by
        rcases mem_legs_iff.1 hl with rfl | rfl <;>
          exact ⟨40 / 100, 60 / 100, by decide +kernel, by decide +kernel, by decide +kernel,
            by decide +kernel⟩
      mid := by decide +kernel
      fv := by decide +kernel
      inside := by decide +kernel
      floor := by decide +kernel
      budget := fun l hl _ => orderFloor_le_legSize (by decide +kernel) ⟨5000, by decide +kernel⟩
        (by decide +kernel) (by rcases mem_legs_iff.1 hl with rfl | rfl <;> decide +kernel) }
  refine ⟨hquiet, by decide +kernel, by decide +kernel, fun h => ?_⟩
  exact (h i.yesLeg (mem_legs_iff.2 (.inl rfl))).1 (by decide +kernel)

end Polymaker
