import Polymaker.Strategy.SideSwap
import Polymaker.Strategy.TickGrid

/-!
# Exits that harden with time

What is held is offered, and the longer it is held the nearer to the best bid.

* `sellsOf`, `sellsOf_eq_exitsOf`: the offers of a token are the exit of its leg;
* `exitUrgency_mono`, `exitTarget_anti`: the urgency grows with time, and the target of an exit
  falls as it does;
* `floor_le_exitAt`: an exit stays a tick above the best bid, up to the tolerance and the rounding
  to decimals, or is at the end of the price range;
* `HardeningExits`: what the exits keep to, and `exits_harden`: they do on a tick below one.
-/

namespace Polymaker

open QuoteInputs Rounding

/-! ### The urgency -/

theorem exitUrgency_le_one (heldS halfLifeS : ℚ) : exitUrgency heldS halfLifeS ≤ 1 := by
  unfold exitUrgency
  simp only
  split_ifs
  · exact le_rfl
  · exact zero_le_one
  · exact min_le_left _ _

theorem exitUrgency_mono (halfLifeS : ℚ) {s t : ℚ} (h : s ≤ t) :
    exitUrgency s halfLifeS ≤ exitUrgency t halfLifeS := by
  unfold exitUrgency
  simp only
  split_ifs with hlife hs ht ht
  · exact le_rfl
  · exact le_rfl
  · exact le_min zero_le_one (mul_self_nonneg _)
  · exact absurd ((div_le_div_of_nonneg_right h (not_le.1 hlife).le).trans ht) hs
  · have hshare := div_le_div_of_nonneg_right h (not_le.1 hlife).le
    exact min_le_min_left _ (mul_self_le_mul_self (not_le.1 hs).le hshare)

/-- It is full once the token was held for as long as is configured. -/
theorem exitUrgency_of_le {heldS halfLifeS : ℚ} (h : halfLifeS ≤ heldS) :
    exitUrgency heldS halfLifeS = 1 := by
  unfold exitUrgency
  simp only
  split_ifs with hlife hu
  · rfl
  · exact absurd hu (div_pos ((not_le.1 hlife).trans_le h) (not_le.1 hlife)).not_ge
  · have hshare : 1 ≤ heldS / halfLifeS := (one_le_div (not_le.1 hlife)).2 h
    exact min_eq_left (one_le_mul_of_one_le_of_one_le hshare hshare)

/-- A leg at another urgency. -/
def Leg.atUrgency (l : Leg) (urgency : ℚ) : Leg := { l with urgency }

namespace QuoteInputs

variable {i : QuoteInputs} {l : Leg}

/-! ### The price of an exit -/

/-- The urgency an exit is priced with. -/
def haste (i : QuoteInputs) (urgency : ℚ) : ℚ :=
  if i.regime = .reduceOnly then max urgency (1 / 2) else urgency

theorem haste_mono (i : QuoteInputs) {u v : ℚ} (h : u ≤ v) : i.haste u ≤ i.haste v := by
  unfold haste
  split_ifs
  · exact max_le_max_right _ h
  · exact h

theorem haste_le_one (i : QuoteInputs) {u : ℚ} (h : u ≤ 1) : i.haste u ≤ 1 := by
  unfold haste
  split_ifs
  · exact max_le h (by norm_num)
  · exact h

theorem haste_one (i : QuoteInputs) : i.haste 1 = 1 := by
  unfold haste
  split_ifs
  · exact max_eq_left (by norm_num)
  · rfl

/-- Without a bid an exit waits for the passive price. -/
theorem exitTarget_of_none (h : l.view.bestBid = none) : i.exitTarget l = l.fv + i.delta := by
  unfold exitTarget
  simp only [h]
  ring

/-- With one it goes from there to a tick above the bid, and no lower. -/
theorem exitTarget_of_some {b : ℚ} (h : l.view.bestBid = some b) :
    i.exitTarget l = max ((l.fv + i.delta) * (1 - i.haste l.urgency) +
      (b + i.m.tickSize) * i.haste l.urgency) (b + i.m.tickSize) := by
  unfold exitTarget haste
  simp only [h]

/-- **The target falls** as the urgency grows. -/
theorem exitTarget_anti (i : QuoteInputs) (l : Leg) {u v : ℚ} (h : u ≤ v) (hv : v ≤ 1) :
    i.exitTarget (l.atUrgency v) ≤ i.exitTarget (l.atUrgency u) := by
  cases hbid : l.view.bestBid with
  | none =>
    rw [exitTarget_of_none (l := l.atUrgency v) hbid, exitTarget_of_none (l := l.atUrgency u) hbid]
    exact le_rfl
  | some b =>
    rw [exitTarget_of_some (l := l.atUrgency v) hbid, exitTarget_of_some (l := l.atUrgency u) hbid]
    refine max_le ?_ (le_max_right _ _)
    show (l.fv + i.delta) * (1 - i.haste v) + (b + i.m.tickSize) * i.haste v ≤ _
    have hmono := i.haste_mono h
    have hone := i.haste_le_one hv
    rcases le_total (b + i.m.tickSize) (l.fv + i.delta) with habove | hbelow
    · refine le_max_of_le_left ?_
      show _ ≤ (l.fv + i.delta) * (1 - i.haste u) + (b + i.m.tickSize) * i.haste u
      have hfall := mul_le_mul_of_nonneg_left hmono (sub_nonneg.2 habove)
      linarith
    · -- the floor is above the passive price: the target does not reach it from below
      refine le_max_of_le_right ?_
      have hrest := mul_nonneg (sub_nonneg.2 hbelow) (sub_nonneg.2 hone)
      linarith

theorem exitTarget_of_urgent {b : ℚ} (h : l.view.bestBid = some b) :
    i.exitTarget (l.atUrgency 1) = b + i.m.tickSize := by
  rw [exitTarget_of_some (l := l.atUrgency 1) h]
  show max (_ * (1 - i.haste 1) + _ * i.haste 1) _ = _
  rw [haste_one]
  simp

/-- **An exit keeps its floor**: a tick above the best bid, up to the tolerance and what the
rounding to decimals takes off, or the end of the price range. -/
theorem floor_le_exitAt (htick : 0 < i.m.tickSize) {b slack : ℚ} (hbid : b ∈ l.view.bestBid)
    (hslack : ∀ k : ℤ, k * i.m.tickSize - slack ≤ toDecimals i.m.priceDecimals (k * i.m.tickSize))
    (hnonneg : 0 ≤ slack) :
    min (b + i.m.tickSize) (1 - i.m.tickSize) - eps * i.m.tickSize - slack ≤ i.exitAt l := by
  have hfloor := add_tick_le_exitTarget (i := i) hbid
  have hceil : i.exitTarget l / i.m.tickSize - eps ≤ ⌈i.exitTarget l / i.m.tickSize - eps⌉ :=
    Int.le_ceil _
  have hticks : i.exitTarget l - eps * i.m.tickSize ≤
      ⌈i.exitTarget l / i.m.tickSize - eps⌉ * i.m.tickSize := by
    calc i.exitTarget l - eps * i.m.tickSize
        = (i.exitTarget l / i.m.tickSize - eps) * i.m.tickSize := by field_simp
      _ ≤ _ := mul_le_mul_of_nonneg_right hceil htick.le
  have hround := hslack ⌈i.exitTarget l / i.m.tickSize - eps⌉
  have heps : 0 ≤ eps * i.m.tickSize := mul_nonneg eps_pos.le htick.le
  rw [exitAt_eq]
  unfold roundToTick
  simp only [if_true]
  refine le_min (le_max_of_le_left ?_) ?_
  · linarith [min_le_left (b + i.m.tickSize) (1 - i.m.tickSize)]
  · linarith [min_le_right (b + i.m.tickSize) (1 - i.m.tickSize)]

/-! ### The offers of a token -/

/-- The offers of a token. -/
def sellsOf (i : QuoteInputs) (tok : TokenId) : List Quote :=
  (constructQuotes i).quotes.filter fun q => decide (q.side = .sell ∧ q.tokenId = tok)

/-- A leg that offers what is held has one exit. -/
theorem exitsOf_of_offers (h : i.Offers l) :
    i.exitsOf l = [⟨l.tokenId, .sell, i.exitAt l, exitSize l.pos⟩] := by
  have hheld : ¬ l.pos.size < i.m.minOrderSize := (h.held.trans (exitSize_le l.pos)).not_gt
  unfold exitsOf maybeExit
  rw [if_pos h.lets, if_neg hheld]
  exact if_pos ⟨h.pos, h.lt_one, h.held⟩

theorem exitsOf_of_not_offers (h : ¬ i.Offers l) : i.exitsOf l = [] := by
  refine List.eq_nil_iff_forall_not_mem.2 fun q hq => h ?_
  unfold exitsOf at hq
  split_ifs at hq with hlets
  · obtain ⟨hheld, hpos, hone, -⟩ := mem_maybeExit_iff.1 hq
    exact ⟨hlets, hheld, hpos, hone⟩
  · exact absurd hq List.not_mem_nil

/-- The offers of a token are the exit of its leg. -/
theorem sellsOf_eq_exitsOf (hne : i.m.yes ≠ i.m.no) (hl : l ∈ i.legs) :
    i.sellsOf l.tokenId = i.exitsOf l := by
  have hbids : ∀ k : Leg, (i.bidsOf k).filter
      (fun q => decide (q.side = .sell ∧ q.tokenId = l.tokenId)) = [] := fun k => by
    refine List.filter_eq_nil_iff.2 fun q hq hsell => ?_
    obtain ⟨top, j, -, rfl⟩ := mem_bidsOf_iff.1 hq
    cases (of_decide_eq_true hsell).1
  have hexits : ∀ k : Leg, (i.exitsOf k).filter
      (fun q => decide (q.side = .sell ∧ q.tokenId = l.tokenId)) =
        if k.tokenId = l.tokenId then i.exitsOf k else [] := fun k => by
    by_cases hk : i.Offers k
    · rw [exitsOf_of_offers hk]
      split_ifs with htok <;> simp [htok]
    · rw [exitsOf_of_not_offers hk]
      simp
  unfold sellsOf
  rw [quotes_eq_legs, List.filter_append, List.filter_append, List.filter_append, hbids, hbids,
    hexits, hexits]
  rcases mem_legs_iff.1 hl with rfl | rfl
  · rw [if_pos rfl, if_neg (show ¬ i.noLeg.tokenId = i.yesLeg.tokenId from fun h => hne h.symm)]
    simp
  · rw [if_pos rfl, if_neg (show ¬ i.yesLeg.tokenId = i.noLeg.tokenId from hne)]
    simp

/-- The inputs with the urgencies that the times the tokens were held for give. -/
def heldFor (i : QuoteInputs) (held : TokenId → ℚ) : QuoteInputs :=
  { i with
    yesExitUrgency := exitUrgency (held i.m.yes) i.profile.exitUrgencyS
    noExitUrgency := exitUrgency (held i.m.no) i.profile.exitUrgencyS }

/-- The urgency of a leg after such a time. -/
def urgencyOf (i : QuoteInputs) (held : TokenId → ℚ) (l : Leg) : ℚ :=
  exitUrgency (held l.tokenId) i.profile.exitUrgencyS

/-- Every offer after such times is the exit of its leg at the urgency they give. -/
theorem price_of_mem_sellsOf (hne : i.m.yes ≠ i.m.no) (hl : l ∈ i.legs) {held : TokenId → ℚ}
    {q : Quote} (hq : q ∈ (i.heldFor held).sellsOf l.tokenId) :
    q.price = i.exitAt (l.atUrgency (i.urgencyOf held l)) := by
  have hleg : l.atUrgency (i.urgencyOf held l) ∈ (i.heldFor held).legs := by
    rcases mem_legs_iff.1 hl with rfl | rfl
    · exact mem_legs_iff.2 (.inl rfl)
    · exact mem_legs_iff.2 (.inr rfl)
  have hsells := sellsOf_eq_exitsOf (i := i.heldFor held) hne hleg
  rw [show (l.atUrgency (i.urgencyOf held l)).tokenId = l.tokenId from rfl] at hsells
  rw [hsells] at hq
  by_cases h : (i.heldFor held).Offers (l.atUrgency (i.urgencyOf held l))
  · rw [exitsOf_of_offers h] at hq
    rw [List.mem_singleton.1 hq]
    rfl
  · rw [exitsOf_of_not_offers h] at hq
    exact absurd hq List.not_mem_nil

end QuoteInputs

theorem lt_exitSize_add (pos : Position) : pos.size < exitSize pos + 1 / 100 := by
  have hfloor := Int.lt_floor_add_one (pos.size * 100)
  unfold exitSize
  rw [← add_div, lt_div_iff₀ (by norm_num)]
  exact hfloor

/-- What is offered meets a minimum of two decimals where what is held does. -/
theorem le_exitSize_iff {c : ℤ} {pos : Position} : c / 100 ≤ exitSize pos ↔ c / 100 ≤ pos.size := by
  unfold exitSize
  rw [div_le_div_iff_of_pos_right (by norm_num), Int.cast_le, Int.le_floor,
    div_le_iff₀ (by norm_num)]

/-- **What is held has an exit that hardens with time**; `slack` is what its price may fall short of
its floor by, besides the tolerance. -/
structure HardeningExits (i : QuoteInputs) (slack : ℚ) : Prop where
  held : ∀ l ∈ i.legs, i.m.minOrderSize ≤ l.pos.size → ∃ q, i.sellsOf l.tokenId = [q] ∧
    q.size ≤ l.pos.size ∧ l.pos.size ≤ q.size + 1 / 100
  flat : ∀ l ∈ i.legs, l.pos.size < i.m.minOrderSize → i.sellsOf l.tokenId = []
  hardens : ∀ l ∈ i.legs, ∀ held held' : TokenId → ℚ, held l.tokenId ≤ held' l.tokenId →
    ∀ q ∈ (i.heldFor held).sellsOf l.tokenId, ∀ q' ∈ (i.heldFor held').sellsOf l.tokenId,
      q'.price ≤ q.price
  floor : ∀ l ∈ i.legs, ∀ held, ∀ q ∈ (i.heldFor held).sellsOf l.tokenId, ∀ b ∈ l.view.bestBid,
    min (b + i.m.tickSize) (1 - i.m.tickSize) - eps * i.m.tickSize - slack ≤ q.price
  touch : ∀ l ∈ i.legs, ∀ held, i.profile.exitUrgencyS ≤ held l.tokenId →
    ∀ q ∈ (i.heldFor held).sellsOf l.tokenId, ∀ b ∈ l.view.bestBid,
      q.price = roundToTick (b + i.m.tickSize) i.m.tickSize i.m.priceDecimals true

section Hardening

variable {i : QuoteInputs} (hlets : i.LetsExit) (hne : i.m.yes ≠ i.m.no)
  (htick : 0 < i.m.tickSize) (hone : i.m.tickSize < 1) {c : ℤ} (hmin : i.m.minOrderSize = c / 100)
include hlets hne htick hone hmin

/-- The exits harden, with the slack that the rounding to decimals takes. -/
theorem hardeningExits_of_slack {slack : ℚ} (hnonneg : 0 ≤ slack)
    (hslack : ∀ k : ℤ, k * i.m.tickSize - slack ≤
      toDecimals i.m.priceDecimals (k * i.m.tickSize)) : HardeningExits i slack := by
  have hoffers : ∀ l : Leg, i.Offers l ↔ i.m.minOrderSize ≤ l.pos.size := fun l => by
    rw [offers_iff htick hone, Exits, hmin, le_exitSize_iff]
    exact and_iff_right hlets
  constructor
  · intro l hl hheld
    refine ⟨_, (sellsOf_eq_exitsOf hne hl).trans (exitsOf_of_offers ((hoffers l).2 hheld)), ?_, ?_⟩
    · exact exitSize_le l.pos
    · exact (lt_exitSize_add l.pos).le
  · intro l hl hflat
    exact (sellsOf_eq_exitsOf hne hl).trans
      (exitsOf_of_not_offers fun h => hflat.not_ge ((hoffers l).1 h))
  · intro l hl held held' hlonger q hq q' hq'
    rw [price_of_mem_sellsOf hne hl hq, price_of_mem_sellsOf hne hl hq', exitAt_eq, exitAt_eq]
    refine roundToTick_mono htick _ true ?_
    exact exitTarget_anti i l (exitUrgency_mono _ hlonger) (exitUrgency_le_one _ _)
  · intro l hl held q hq b hb
    rw [price_of_mem_sellsOf hne hl hq]
    exact floor_le_exitAt (l := l.atUrgency _) htick hb hslack hnonneg
  · intro l hl held hlong q hq b hb
    have hurgent : i.urgencyOf held l = 1 := exitUrgency_of_le hlong
    rw [price_of_mem_sellsOf hne hl hq, hurgent, exitAt_eq, exitTarget_of_urgent hb]

end Hardening

/-- **Held inventory always gets an exit that hardens with time.**  For two tokens and a tick
between zero and one, in a regime that lets quotes rest and with an exchange minimum of two
decimals, an exit is below its floor by no more than the tolerance and half a unit of its last
decimal, and on a tick of six decimals by no more than the tolerance. -/
theorem exits_harden (i : QuoteInputs) (hlets : i.LetsExit) (hne : i.m.yes ≠ i.m.no)
    (htick : 0 < i.m.tickSize) (hone : i.m.tickSize < 1) {c : ℤ}
    (hmin : i.m.minOrderSize = c / 100) :
    HardeningExits i (1 / 2 / 10 ^ i.m.priceDecimals) ∧
      (OnGrid 6 i.m.tickSize → HardeningExits i 0) := by
  constructor
  · refine hardeningExits_of_slack hlets hne htick hone hmin (by positivity) fun k => ?_
    linarith [(abs_le.1 (abs_toDecimals_sub_le i.m.priceDecimals (k * i.m.tickSize))).1]
  · intro hgrid
    refine hardeningExits_of_slack hlets hne htick hone hmin le_rfl fun k => ?_
    rw [toDecimals_of_onGrid ((onGrid_priceDecimals hgrid).intMul k), sub_zero]

/-- Ten shares of YES at even odds, on a tick of a cent. -/
theorem exits_harden_ten_held :
    let m : MarketMeta := ⟨"c", "yes", "no", 1 / 100, 5, 20, 3, none, none⟩
    let view := (OrderBook.ofTouch (48 / 100) (52 / 100) 100).view
    let i : QuoteInputs :=
      { m, regime := .quiet, fv := 1 / 2, volShort := 0, toxicity := 0, yesView := view
        noView := view, posYes := ⟨10, 1 / 2⟩, posNo := .flat, profile := {}, now := 0 }
    HardeningExits i 0 ∧ (i.heldFor fun _ => 0).sellsOf "yes" = [⟨"yes", .sell, 52 / 100, 10⟩] ∧
      (i.heldFor fun _ => 900).sellsOf "yes" = [⟨"yes", .sell, 49 / 100, 10⟩] := by
  intro m view i
  have h := @exits_harden i (by decide) (by decide) (by decide +kernel) (by decide +kernel) 500
    (by norm_num [i, m])
  exact ⟨h.2 ⟨10 ^ 4, by norm_num [i, m]⟩, by decide +kernel, by decide +kernel⟩

/-- Ten shares of YES have no exit on a tick of one.  They have two where both tokens have one id.
On a tick of 0.0010004, printed as 0.001, the exit rests at 0.501, below a bid of 0.5 and a tick. -/
theorem not_hardeningExits :
    let view := (OrderBook.ofTouch (1 / 2) (52 / 100) 100).view
    let i : MarketMeta → QuoteInputs := fun m =>
      { m, regime := .quiet, fv := 1 / 2, volShort := 0, toxicity := 0, yesView := view
        noView := view, posYes := ⟨10, 1 / 2⟩, posNo := ⟨10, 1 / 2⟩, profile := {}, now := 0 }
    let whole := i ⟨"c", "yes", "no", 1, 5, 20, 3, none, none⟩
    let twin := i ⟨"c", "yes", "yes", 1 / 100, 5, 20, 3, none, none⟩
    let uneven := i ⟨"c", "yes", "no", 10004 / 10 ^ 7, 5, 20, 3, none, none⟩
    (whole.LetsExit ∧ ¬ HardeningExits whole 0) ∧ (twin.LetsExit ∧ ¬ HardeningExits twin 0) ∧
      uneven.LetsExit ∧ ¬ HardeningExits uneven 0 := by
  intro view i whole twin uneven
  refine ⟨⟨by decide, fun h => ?_⟩, ⟨by decide, fun h => ?_⟩, by decide, fun h => ?_⟩
  · obtain ⟨q, hq, -⟩ := h.held whole.yesLeg (mem_legs_iff.2 (.inl rfl)) (by decide +kernel)
    have hnone : whole.sellsOf whole.yesLeg.tokenId = [] := by decide +kernel
    cases hnone.symm.trans hq
  · obtain ⟨q, hq, -⟩ := h.held twin.yesLeg (mem_legs_iff.2 (.inl rfl)) (by decide +kernel)
    have htwo : (twin.sellsOf twin.yesLeg.tokenId).length = 2 := by decide +kernel
    rw [hq] at htwo
    cases htwo
  · have hsell : (⟨"yes", .sell, 501 / 1000, 10⟩ : Quote) ∈
        (uneven.heldFor fun _ => 900).sellsOf uneven.yesLeg.tokenId := by decide +kernel
    have hfloor := h.floor uneven.yesLeg (mem_legs_iff.2 (.inl rfl)) _ _ hsell (1 / 2)
      (by decide +kernel)
    revert hfloor
    decide +kernel

end Polymaker
