import Polymaker.Strategy.MergeEdge

/-!
# Bids and fair value

`_place_bid` caps a bid at fair value less the edge, and `round_to_tick` may then raise it to one
tick.

* `BidsKeepEdge`: every bid keeps the edge to the fair value of its token;
* `EdgeFits`: below the fair value of a leg that bids, less the edge, there is room for a tick;
* `RoundingKeepsEdge`: rounding to decimals carries no bid over the edge;
* `bids_keep_edge_iff`: on a tick with six decimals the bids of a target set keep the edge exactly
  where it fits.
-/

namespace Polymaker

open Rounding QuoteInputs

/-- The highest bid that keeps the edge to the fair value of a token, up to the tolerance. -/
def QuoteInputs.edgeBelow (i : QuoteInputs) (fv : ℚ) : ℚ :=
  fv - i.profile.minEdgeTicks * i.m.tickSize + eps * i.m.tickSize

/-- **No bid reaches fair value.** -/
def BidsKeepEdge (i : QuoteInputs) : Prop :=
  ∀ q ∈ (constructQuotes i).quotes, q.side = .buy →
    (q.tokenId = i.m.yes → q.price ≤ i.edgeBelow i.fv) ∧
      (q.tokenId = i.m.no → q.price ≤ i.edgeBelow (1 - i.fv))

/-- A leg that bids has room for one tick below its fair value, less the edge. -/
def EdgeFits (i : QuoteInputs) : Prop :=
  ∀ l ∈ i.legs, (∃ top j, i.Bids l top j) →
    toDecimals i.m.priceDecimals i.m.tickSize ≤ i.edgeBelow l.fv

/-- Rounding to the decimals of the tick carries no touch above one tick over the edge. -/
def RoundingKeepsEdge (i : QuoteInputs) : Prop :=
  ∀ l ∈ i.legs, ∀ top j, i.Bids l top j →
    toDecimals i.m.priceDecimals i.m.tickSize < toDecimals i.m.priceDecimals top →
      toDecimals i.m.priceDecimals top ≤ i.edgeBelow l.fv

/-- The bids keep the edge when those of each leg do. -/
theorem bidsKeepEdge_iff_legs {i : QuoteInputs} (hne : i.m.yes ≠ i.m.no) :
    BidsKeepEdge i ↔
      ∀ l ∈ i.legs, ∀ top j, i.Bids l top j → i.layerPrice top j ≤ i.edgeBelow l.fv := by
  constructor
  · intro h l hl top j hbids
    have hq := h _ (buy_mem_iff.2 ⟨l, hl, top, j, hbids, rfl⟩).1 rfl
    rcases mem_legs_iff.1 hl with rfl | rfl
    · exact hq.1 rfl
    · exact hq.2 rfl
  · intro h q hq hbuy
    constructor
    · intro htok
      obtain ⟨top, j, hbids, rfl⟩ :=
        (buy_of_leg_iff hne (l := i.yesLeg) (mem_legs_iff.2 (.inl rfl))).1 ⟨hq, hbuy, htok⟩
      exact h i.yesLeg (mem_legs_iff.2 (.inl rfl)) top j hbids
    · intro htok
      obtain ⟨top, j, hbids, rfl⟩ :=
        (buy_of_leg_iff hne (l := i.noLeg) (mem_legs_iff.2 (.inr rfl))).1 ⟨hq, hbuy, htok⟩
      exact h i.noLeg (mem_legs_iff.2 (.inr rfl)) top j hbids

section Legs

variable {i : QuoteInputs} (htick : 0 < i.m.tickSize) (hstep : 0 ≤ i.profile.layerStepTicks)
include htick hstep

/-- The bids of a leg keep the edge when its touch does, rounded. -/
theorem layers_keep_edge_iff {l : Leg} :
    (∀ top j, i.Bids l top j → i.layerPrice top j ≤ i.edgeBelow l.fv) ↔
      ∀ top j, i.Bids l top j → toDecimals i.m.priceDecimals top ≤ i.edgeBelow l.fv := by
  constructor
  · intro h top j hbids
    have hfirst := hbids.lays_out.zero htick hstep hbids.top_eq
    have hle := h top 0 ⟨hbids.both, hbids.inside, hbids.top_eq, hfirst⟩
    rwa [layerPrice_zero] at hle
  · intro h top j hbids
    exact (layerPrice_le htick hstep top j).trans (h top j hbids)

/-- On a tick with six decimals the touch is below the edge, or at one tick. -/
theorem roundingKeepsEdge_of_onGrid (hgrid : OnGrid 6 i.m.tickSize) : RoundingKeepsEdge i := by
  intro l hl top j hbids hlt
  have hfirst := hbids.lays_out.zero htick hstep hbids.top_eq
  have hle := Bids.layerPrice_le_of_onGrid htick hstep hgrid
    ⟨hbids.both, hbids.inside, hbids.top_eq, hfirst⟩
  rw [layerPrice_zero] at hle
  rw [toDecimals_of_onGrid (onGrid_priceDecimals hgrid)] at hlt
  have hbelow := (le_max_iff.1 hle).resolve_right hlt.not_ge
  unfold edgeBelow
  linarith

end Legs

/-- **When no bid reaches fair value.**  The bids of a target set keep the edge to the fair value of
their tokens exactly when each leg that bids has room for one tick below it, up to rounding. -/
theorem bids_keep_edge_iff (i : QuoteInputs) (hne : i.m.yes ≠ i.m.no) (htick : 0 < i.m.tickSize)
    (hfv : i.m.tickSize ≤ i.fv ∧ i.fv ≤ 1 - i.m.tickSize)
    (hstep : 0 ≤ i.profile.layerStepTicks) :
    BidsKeepEdge i ↔ EdgeFits i ∧ (OnGrid 6 i.m.tickSize ∨ RoundingKeepsEdge i) := by
  rw [bidsKeepEdge_iff_legs hne]
  constructor
  · intro h
    have htop : ∀ l ∈ i.legs, ∀ top j, i.Bids l top j →
        toDecimals i.m.priceDecimals top ≤ i.edgeBelow l.fv := fun l hl =>
      (layers_keep_edge_iff htick hstep).1 (h l hl)
    refine ⟨fun l hl ⟨top, j, hbids⟩ => ?_, .inr fun l hl top j hbids _ => htop l hl top j hbids⟩
    obtain ⟨⟨price, hprice, -⟩, -, -⟩ := placeBid_spec hbids.top_eq
    have hclamp : i.m.tickSize ≤ top := by
      rw [hprice]
      exact tick_le_roundToTick price (hfv.1.trans hfv.2) _ _
    exact (toDecimals_mono _ hclamp).trans (htop l hl top j hbids)
  · rintro ⟨hfits, hround⟩ l hl
    refine (layers_keep_edge_iff htick hstep).2 fun top j hbids => ?_
    have hround := hround.elim (roundingKeepsEdge_of_onGrid htick hstep) id
    rcases lt_or_ge (toDecimals i.m.priceDecimals i.m.tickSize)
      (toDecimals i.m.priceDecimals top) with hlt | hge
    · exact hround l hl top j hbids hlt
    · exact hge.trans (hfits l hl ⟨top, j, hbids⟩)

/-- A market at even odds bids at 0.48 for both tokens. -/
theorem bids_keep_edge_at_even_odds :
    let m : MarketMeta := ⟨"c", "yes", "no", 1 / 100, 5, 0, 0, none, none⟩
    let view := (OrderBook.ofTouch (48 / 100) (52 / 100) 100).view
    let i : QuoteInputs :=
      { m, regime := .quiet, fv := 1 / 2, volShort := 0, toxicity := 0, yesView := view
        noView := view, posYes := .flat, posNo := .flat, profile := {}, now := 0 }
    BidsKeepEdge i := by
  intro m view i
  refine (bids_keep_edge_iff i (by decide) (by decide +kernel) (by decide +kernel)
    (by decide)).2 ⟨fun l hl _ => ?_, .inl ⟨10000, by norm_num⟩⟩
  rcases mem_legs_iff.1 hl with rfl | rfl <;> decide +kernel

/-- At a fair value of one tick the cap is zero, and the bid is raised to the fair value. -/
theorem bid_at_fair_value :
    let m : MarketMeta := ⟨"c", "yes", "no", 1 / 100, 5, 0, 0, none, none⟩
    let i : QuoteInputs :=
      { m, regime := .quiet, fv := 1 / 100, volShort := 0, toxicity := 0
        yesView := (OrderBook.ofTouch (1 / 100) (3 / 100) 100).view
        noView := (OrderBook.ofTouch (97 / 100) (99 / 100) 100).view
        posYes := .flat, posNo := .flat, profile := { minEdgeTicks := 1 }, now := 0 }
    (i.m.tickSize ≤ i.fv ∧ i.fv ≤ 1 - i.m.tickSize ∧ 100 * i.m.tickSize = 1 ∧
      0 ≤ i.profile.layerStepTicks ∧ 1 ≤ i.profile.minEdgeTicks) ∧ ¬ BidsKeepEdge i := by
  intro m i
  refine ⟨by decide +kernel, fun h => ?_⟩
  have hq : ∃ q ∈ (constructQuotes i).quotes, q.side = .buy ∧ q.tokenId = "yes" ∧
      q.price = 1 / 100 := by decide +kernel
  obtain ⟨q, hq, hbuy, htok, hprice⟩ := hq
  have hle := (h q hq hbuy).1 htok
  rw [hprice] at hle
  exact absurd hle (by decide +kernel)

end Polymaker
