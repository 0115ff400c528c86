import Polymaker.Strategy.Legs

/-!
# Quotes and the book they are quoted into

A bid is re-checked against the best ask after it is rounded.  An exit aims above the best bid, and
is then clamped to one tick below one without another look.

* `NoCross`: no quote crosses the book of its token;
* `RoundingClear`: rounding to decimals does not carry a price across the book, as for any tick with
  six decimals (`roundingClear_of_onGrid`);
* `no_cross_iff`: then a target set crosses exactly where an exit meets a best bid at the end of the
  price range.
-/

namespace Polymaker

open Rounding QuoteInputs

/-- The book of a token. -/
def QuoteInputs.viewOf (i : QuoteInputs) (tok : TokenId) : BookView :=
  if tok = i.m.yes then i.yesView else i.noView

/-- **No quote crosses the book it is quoted into.** -/
def NoCross (i : QuoteInputs) : Prop :=
  ∀ q ∈ (constructQuotes i).quotes,
    match q.side with
    | .buy => ∀ a ∈ (i.viewOf q.tokenId).bestAsk, q.price < a
    | .sell => ∀ b ∈ (i.viewOf q.tokenId).bestBid, b < q.price

/-- No exit meets a best bid at the end of the price range. -/
def ExitsClear (i : QuoteInputs) : Prop :=
  ∀ l ∈ i.legs, i.Exits l → ∀ b ∈ l.view.bestBid, b < 1 - i.m.tickSize

/-- Rounding to the decimals of the tick carries no price across the book. -/
structure RoundingClear (i : QuoteInputs) : Prop where
  exits : ∀ l ∈ i.legs, i.Exits l → ∀ b ∈ l.view.bestBid,
    b < max (toDecimals i.m.priceDecimals (⌈i.exitTarget l / i.m.tickSize - eps⌉ * i.m.tickSize))
      i.m.tickSize
  bids : ∀ l ∈ i.legs, ∀ top j, i.Bids l top j → ∀ a ∈ l.view.bestAsk,
    toDecimals i.m.priceDecimals top < a

theorem viewOf_leg {i : QuoteInputs} (hne : i.m.yes ≠ i.m.no) {l : Leg} (hl : l ∈ i.legs) :
    i.viewOf l.tokenId = l.view := by
  unfold viewOf
  rcases mem_legs_iff.1 hl with rfl | rfl
  · exact if_pos rfl
  · exact if_neg hne.symm

/-- A target set crosses no book when none of its legs does. -/
theorem noCross_iff_legs {i : QuoteInputs} (hne : i.m.yes ≠ i.m.no) :
    NoCross i ↔
      (∀ l ∈ i.legs, i.Offers l → ∀ b ∈ l.view.bestBid, b < i.exitAt l) ∧
      ∀ l ∈ i.legs, ∀ top j, i.Bids l top j → ∀ a ∈ l.view.bestAsk, i.layerPrice top j < a := by
  constructor
  · intro h
    refine ⟨fun l hl hoffers => ?_, fun l hl top j hbids => ?_⟩
    · have hq := h _ ((sell_mem_iff.2 ⟨l, hl, hoffers, rfl⟩).1)
      simpa only [viewOf_leg hne hl] using hq
    · have hq := h _ ((buy_mem_iff.2 ⟨l, hl, top, j, hbids, rfl⟩).1)
      simpa only [viewOf_leg hne hl] using hq
  · rintro ⟨hsells, hbuys⟩ q hq
    cases hside : q.side with
    | buy =>
      obtain ⟨l, hl, top, j, hbids, rfl⟩ := buy_mem_iff.1 ⟨hq, hside⟩
      simpa only [viewOf_leg hne hl] using hbuys l hl top j hbids
    | sell =>
      obtain ⟨l, hl, hoffers, rfl⟩ := sell_mem_iff.1 ⟨hq, hside⟩
      simpa only [viewOf_leg hne hl] using hsells l hl hoffers

section Clear

variable {i : QuoteInputs} (htick : 0 < i.m.tickSize)
include htick

/-- The exits rest above the best bid. -/
theorem exits_above_iff (hone : i.m.tickSize < 1) :
    (∀ l ∈ i.legs, i.Offers l → ∀ b ∈ l.view.bestBid, b < i.exitAt l) ↔
      ExitsClear i ∧ ∀ l ∈ i.legs, i.Exits l → ∀ b ∈ l.view.bestBid,
        b < max (toDecimals i.m.priceDecimals
          (⌈i.exitTarget l / i.m.tickSize - eps⌉ * i.m.tickSize)) i.m.tickSize := by
  constructor
  · intro h
    exact ⟨fun l hl hexits b hb =>
        (lt_min_iff.1 (h l hl ((offers_iff htick hone).2 hexits) b hb)).2,
      fun l hl hexits b hb => (lt_min_iff.1 (h l hl ((offers_iff htick hone).2 hexits) b hb)).1⟩
  · rintro ⟨hend, hround⟩ l hl hoffers b hb
    have hexits := (offers_iff htick hone).1 hoffers
    exact lt_min (hround l hl hexits b hb) (hend l hl hexits b hb)

/-- The bids rest below the best ask when the first layers do. -/
theorem bids_below_iff (hstep : 0 ≤ i.profile.layerStepTicks) :
    (∀ l ∈ i.legs, ∀ top j, i.Bids l top j → ∀ a ∈ l.view.bestAsk, i.layerPrice top j < a) ↔
      ∀ l ∈ i.legs, ∀ top j, i.Bids l top j → ∀ a ∈ l.view.bestAsk,
        toDecimals i.m.priceDecimals top < a := by
  constructor
  · intro h l hl top j hbids a ha
    have hfirst := hbids.lays_out.zero htick hstep hbids.top_eq
    have hbelow := h l hl top 0 ⟨hbids.both, hbids.inside, hbids.top_eq, hfirst⟩ a ha
    rwa [layerPrice_zero] at hbelow
  · intro h l hl top j hbids a ha
    exact (layerPrice_le htick hstep top j).trans_lt (h l hl top j hbids a ha)

/-- A tick with six decimals rounds no price across the book. -/
theorem roundingClear_of_onGrid (hgrid : OnGrid 6 i.m.tickSize) (hend : ExitsClear i) :
    RoundingClear i where
  exits l hl hexits b hb := by
    have hbelow := hend l hl hexits b hb
    have htarget := add_tick_le_exitTarget (i := i) hb
    have heps : eps * i.m.tickSize < i.m.tickSize := mul_lt_of_lt_one_left htick eps_lt_one
    have hup : b < i.exitAt l := by
      rw [exitAt_eq]
      exact lt_roundToTick_up htick (onGrid_priceDecimals hgrid) hbelow (by linarith)
    exact (lt_min_iff.1 hup).1
  bids l hl top j hbids a ha := by
    have hdec := (placeBid_eq_some (onGrid_priceDecimals hgrid) hbids.top_eq).1
    rw [toDecimals_of_onGrid hdec]
    exact (placeBid_spec hbids.top_eq).2.1 a ha

end Clear

/-- **A target set crosses no book exactly** when no exit meets a best bid at the end of the price
range, up to rounding. -/
theorem no_cross_iff (i : QuoteInputs) (hne : i.m.yes ≠ i.m.no) (htick : 0 < i.m.tickSize)
    (hhalf : i.m.tickSize < 1 / 2) (hstep : 0 ≤ i.profile.layerStepTicks) :
    NoCross i ↔ ExitsClear i ∧ (OnGrid 6 i.m.tickSize ∨ RoundingClear i) := by
  rw [noCross_iff_legs hne, exits_above_iff htick (hhalf.trans one_half_lt_one),
    bids_below_iff htick hstep]
  constructor
  · rintro ⟨⟨hend, hexits⟩, hbids⟩
    exact ⟨hend, .inr ⟨hexits, hbids⟩⟩
  · rintro ⟨hend, hround⟩
    have hclear := hround.elim (fun hgrid => roundingClear_of_onGrid htick hgrid hend) id
    exact ⟨⟨hend, hclear.exits⟩, hclear.bids⟩

/-- A held position next to the end of the price range. -/
theorem no_cross_of_bid_below_end :
    let m : MarketMeta := ⟨"c", "yes", "no", 1 / 100, 5, 0, 0, none, none⟩
    let i : QuoteInputs :=
      { m, regime := .quiet, fv := 97 / 100, volShort := 0, toxicity := 0
        yesView := (OrderBook.ofTouch (96 / 100) (98 / 100) 100).view
        noView := (OrderBook.ofTouch (2 / 100) (4 / 100) 100).view
        posYes := ⟨100, 1 / 2⟩, posNo := .flat, profile := {}, now := 0 }
    NoCross i := by
  intro m i
  have hclear : ExitsClear i := by
    intro l hl hexits b hb
    rcases mem_legs_iff.1 hl with rfl | rfl
    · obtain rfl : 96 / 100 = b := Option.some.inj hb
      decide +kernel
    · exact absurd hexits.2 (by decide +kernel)
  exact (no_cross_iff i (by decide) (by decide +kernel) (by decide +kernel)
    (by decide)).2 ⟨hclear, .inl ⟨10000, by norm_num⟩⟩

/-- The best bid of YES is at the end of the price range, and what is held is offered at it. -/
theorem not_no_cross_of_bid_at_end :
    let m : MarketMeta := ⟨"c", "yes", "no", 1 / 100, 5, 0, 0, none, none⟩
    let i : QuoteInputs :=
      { m, regime := .quiet, fv := 99 / 100, volShort := 0, toxicity := 0
        yesView := { BookView.empty with bestBid := some (99 / 100), bestBidSize := 100 }
        noView := { BookView.empty with bestAsk := some (1 / 100), bestAskSize := 100 }
        posYes := ⟨100, 1 / 2⟩, posNo := .flat, profile := {}, now := 0 }
    (0 < m.tickSize ∧ m.tickSize < 1 / 2 ∧ 100 * m.tickSize = 1 ∧ 0 ≤ i.profile.layerStepTicks) ∧
      ¬ NoCross i := by
  intro m i
  refine ⟨by decide +kernel, fun h => ?_⟩
  have hq : (⟨"yes", .sell, 99 / 100, 100⟩ : Quote) ∈ (constructQuotes i).quotes := by
    decide +kernel
  exact absurd (h _ hq (99 / 100) rfl) (lt_irrefl _)

end Polymaker
