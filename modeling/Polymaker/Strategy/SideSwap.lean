import Mathlib.Logic.Equiv.Basic
import Polymaker.Strategy.Sizing

/-!
# YES and NO

Where both positions are of one size, the quoter treats the two tokens alike.

* `QuoteInputs.exitsOf`, `quotes_eq_legs`: a target set, leg by leg;
* `QuoteInputs.swapSides`, `QuoteInputs.swapTokens`: the inputs seen from the other side, with the
  tokens left in place or going along;
* `Leg.relabel`, `Quote.relabel`: another token for a leg and for its quotes;
* `yesLeg_swapSides`, `noLeg_swapSides`: each leg is the other one of the swapped inputs;
* `quotes_swap`: so are the quotes.
-/

namespace Polymaker

/-! ### Legs of another token -/

/-- The leg for another token. -/
def Leg.relabel (f : TokenId → TokenId) (l : Leg) : Leg := { l with tokenId := f l.tokenId }

/-- The quote for another token. -/
def Quote.relabel (f : TokenId → TokenId) (q : Quote) : Quote := { q with tokenId := f q.tokenId }

theorem addLayers_relabel (f : TokenId → TokenId) (tok : TokenId) (side : Side) (top tick : ℚ)
    (dec : ℕ) (totalSize : ℚ) (layers stepTicks : ℤ) (exchangeMin rewardFloor mid band : ℚ) :
    addLayers (f tok) side top tick dec totalSize layers stepTicks exchangeMin rewardFloor mid
        band =
      (addLayers tok side top tick dec totalSize layers stepTicks exchangeMin rewardFloor mid
        band).map (Quote.relabel f) := by
  unfold addLayers
  simp only
  split_ifs
  · rfl
  · rfl
  · rfl
  · rw [List.map_map]
    rfl

theorem maybeExit_relabel (f : TokenId → TokenId) (tok : TokenId) (pos : Position)
    (tokenFv delta : ℚ) (view : BookView) (tick : ℚ) (dec : ℕ) (urgency : ℚ) (m : MarketMeta)
    (regime : Regime) :
    maybeExit (f tok) pos tokenFv delta view tick dec urgency m regime =
      (maybeExit tok pos tokenFv delta view tick dec urgency m regime).map (Quote.relabel f) := by
  unfold maybeExit
  simp only
  split_ifs <;> rfl

namespace QuoteInputs

variable {i : QuoteInputs}

/-- The exit of a leg. -/
def exitsOf (i : QuoteInputs) (l : Leg) : List Quote :=
  if i.LetsExit then
    maybeExit l.tokenId l.pos l.fv i.delta l.view i.m.tickSize i.m.priceDecimals l.urgency i.m
      i.regime
  else []

theorem quotes_eq_legs (i : QuoteInputs) :
    (constructQuotes i).quotes =
      i.bidsOf i.yesLeg ++ i.bidsOf i.noLeg ++ (i.exitsOf i.yesLeg ++ i.exitsOf i.noLeg) := by
  rw [quotes_eq]
  unfold exitsOf
  split_ifs <;> rfl

theorem bidsOf_relabel (i : QuoteInputs) (f : TokenId → TokenId) (l : Leg) :
    i.bidsOf (l.relabel f) = (i.bidsOf l).map (Quote.relabel f) := by
  have hleg : entryQuotes i (f l.tokenId) l.target l.view l.fv l.mid l.u =
      (entryQuotes i l.tokenId l.target l.view l.fv l.mid l.u).map (Quote.relabel f) := by
    unfold entryQuotes
    simp only
    split
    · rfl
    · exact addLayers_relabel f ..
  unfold bidsOf
  rw [apply_ite (List.map (Quote.relabel f)), ← hleg]
  rfl

theorem exitsOf_relabel (i : QuoteInputs) (f : TokenId → TokenId) (l : Leg) :
    i.exitsOf (l.relabel f) = (i.exitsOf l).map (Quote.relabel f) := by
  unfold exitsOf
  rw [apply_ite (List.map (Quote.relabel f)), ← maybeExit_relabel]
  rfl

/-! ### The other side -/

/-- The inputs seen from the other side: prices, views, positions and urgencies change places, and
the tokens stay. -/
def swapSides (i : QuoteInputs) : QuoteInputs :=
  { i with
    fv := 1 - i.fv
    midPrice := 1 - i.midPrice
    yesView := i.noView
    noView := i.yesView
    posYes := i.posNo
    posNo := i.posYes
    yesExitUrgency := i.noExitUrgency
    noExitUrgency := i.yesExitUrgency }

/-- The tokens change places too. -/
def swapTokens (i : QuoteInputs) : QuoteInputs :=
  { i.swapSides with m := { i.m with yes := i.m.no, no := i.m.yes } }

theorem u_of_even (h : i.posYes.size = i.posNo.size) : i.u = 0 := by
  unfold u netShares
  rw [h, sub_self, zero_div]
  split_ifs <;> norm_num [clamp]

theorem r_of_even (h : i.posYes.size = i.posNo.size) : i.r = i.fv := by
  unfold r skew
  rw [u_of_even h, mul_zero, sub_zero]

theorem mid_of_pos (h : 0 < i.midPrice) : i.mid = i.midPrice := if_pos h

theorem mid_swapSides (hmid : 0 < i.midPrice) (hone : i.midPrice < 1) :
    i.swapSides.mid = 1 - i.mid := by
  rw [mid_of_pos hmid]
  exact mid_of_pos (i := i.swapSides) (sub_pos.2 hone)

/-- The half-spread is the same: fair value is as far from the mid on either side. -/
theorem delta_swapSides (hmid : 0 < i.midPrice) (hone : i.midPrice < 1) :
    i.swapSides.delta = i.delta := by
  have hfar : |i.swapSides.fv - i.swapSides.mid| = |i.fv - i.mid| := by
    rw [mid_swapSides hmid hone, abs_sub_comm i.fv]
    show |1 - i.fv - (1 - i.mid)| = _
    congr 1
    ring
  have hroom : i.swapSides.room = i.room := by
    unfold room
    rw [hfar]
    rfl
  unfold delta
  rw [hroom]
  rfl

theorem r_swapTokens (h : i.posYes.size = i.posNo.size) : i.swapTokens.r = 1 - i.r := by
  rw [r_of_even h]
  exact r_of_even (i := i.swapTokens) h.symm

theorem u_swapTokens (h : i.posYes.size = i.posNo.size) : i.swapTokens.u = -i.u := by
  rw [u_of_even h, neg_zero]
  exact u_of_even (i := i.swapTokens) h.symm

section Even

variable (heven : i.posYes.size = i.posNo.size) (hmid : 0 < i.midPrice) (hone : i.midPrice < 1)
include heven hmid hone

/-- **The YES leg** of the other side is the NO leg. -/
theorem yesLeg_swapTokens : i.swapTokens.yesLeg = i.noLeg := by
  unfold yesLeg noLeg
  rw [r_swapTokens heven, u_swapTokens heven,
    show i.swapTokens.delta = i.delta from delta_swapSides hmid hone,
    show i.swapTokens.mid = 1 - i.mid from mid_swapSides hmid hone]
  rfl

/-- **The NO leg** of the other side is the YES leg. -/
theorem noLeg_swapTokens : i.swapTokens.noLeg = i.yesLeg := by
  unfold yesLeg noLeg
  rw [r_swapTokens heven, u_swapTokens heven,
    show i.swapTokens.delta = i.delta from delta_swapSides hmid hone,
    show i.swapTokens.mid = 1 - i.mid from mid_swapSides hmid hone, sub_sub_cancel, sub_sub_cancel,
    neg_neg, show 1 - i.swapTokens.fv = i.fv from sub_sub_cancel 1 i.fv]
  rfl

end Even

/-- A leg exits alike on either side. -/
theorem exitsOf_swapTokens (hmid : 0 < i.midPrice) (hone : i.midPrice < 1) (l : Leg) :
    i.swapTokens.exitsOf l = i.exitsOf l := by
  unfold exitsOf
  rw [show i.swapTokens.delta = i.delta from delta_swapSides hmid hone]
  rfl

/-- Where the tokens stay, the legs are those of the other token. -/
theorem legs_swapSides (i : QuoteInputs) :
    i.swapSides.yesLeg = i.swapTokens.yesLeg.relabel (Equiv.swap i.m.yes i.m.no) ∧
      i.swapSides.noLeg = i.swapTokens.noLeg.relabel (Equiv.swap i.m.yes i.m.no) := by
  have hyes : Equiv.swap i.m.yes i.m.no i.m.no = i.m.yes := Equiv.swap_apply_right _ _
  have hno : Equiv.swap i.m.yes i.m.no i.m.yes = i.m.no := Equiv.swap_apply_left _ _
  constructor
  · exact congrArg (fun tok => { i.swapSides.yesLeg with tokenId := tok }) hyes.symm
  · exact congrArg (fun tok => { i.swapSides.noLeg with tokenId := tok }) hno.symm

end QuoteInputs

open QuoteInputs

/-- The quotes with the tokens in place are those for the other token. -/
theorem quotes_swapSides (i : QuoteInputs) :
    (constructQuotes i.swapSides).quotes =
      (constructQuotes i.swapTokens).quotes.map
        (Quote.relabel (Equiv.swap i.m.yes i.m.no)) := by
  obtain ⟨hyes, hno⟩ := i.legs_swapSides
  simp only [quotes_eq_legs, List.map_append, hyes, hno, bidsOf_relabel, exitsOf_relabel]
  rfl

/-- **YES and NO are treated alike.**  Where both positions are of one size, the inputs seen from
the other side give the same quotes: with the tokens changing places, the very same; with the tokens
in place, those for the other token. -/
theorem quotes_swap (i : QuoteInputs) (heven : i.posYes.size = i.posNo.size)
    (hmid : 0 < i.midPrice) (hone : i.midPrice < 1) :
    (constructQuotes i.swapTokens).quotes.Perm (constructQuotes i).quotes ∧
      (constructQuotes i.swapSides).quotes.Perm
        ((constructQuotes i).quotes.map (Quote.relabel (Equiv.swap i.m.yes i.m.no))) := by
  have htokens : (constructQuotes i.swapTokens).quotes.Perm (constructQuotes i).quotes := by
    rw [quotes_eq_legs, quotes_eq_legs, yesLeg_swapTokens heven hmid hone,
      noLeg_swapTokens heven hmid hone, exitsOf_swapTokens hmid hone, exitsOf_swapTokens hmid hone]
    exact List.perm_append_comm.append List.perm_append_comm
  refine ⟨htokens, ?_⟩
  rw [quotes_swapSides]
  exact htokens.map _

/-- A market at 0.60, with ten shares of each token. -/
theorem quotes_swap_at_sixty :
    let m : MarketMeta := ⟨"c", "yes", "no", 1 / 100, 5, 50, 3, none, none⟩
    let i : QuoteInputs :=
      { m, regime := .quiet, fv := 61 / 100, volShort := 1 / 1000, toxicity := 0
        yesView := (OrderBook.ofTouch (59 / 100) (61 / 100) 100).view
        noView := (OrderBook.ofTouch (39 / 100) (41 / 100) 100).view
        posYes := ⟨10, 1 / 2⟩, posNo := ⟨10, 1 / 3⟩, profile := {}, now := 0
        yesExitUrgency := 1 / 4, midPrice := 60 / 100 }
    (constructQuotes i.swapTokens).quotes.Perm (constructQuotes i).quotes ∧
      (constructQuotes i.swapSides).quotes.Perm
        ((constructQuotes i).quotes.map (Quote.relabel (Equiv.swap "yes" "no"))) := by
  intro m i
  exact quotes_swap i rfl (by decide +kernel) (by decide +kernel)

end Polymaker
