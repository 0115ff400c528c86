import Polymaker.Strategy.Legs

/-!
# The net directional cap

The cap `q_max_usdc` bounds the net exposure of a market.  `u` turns it into shares at the fair
value of YES, for both legs.

* `NetCapBinds`: a leg is not bid once the net holding of its token, at the token's own fair value,
  is at the cap;
* `net_cap_binds_iff`: this fails exactly where the NO leg is open, and the net NO holding is at the
  cap but, valued at the fair value of YES, inside the soft one.
-/

namespace Polymaker

open QuoteInputs

/-- **The net directional cap binds on both legs.** -/
def NetCapBinds (i : QuoteInputs) : Prop :=
  (i.profile.qMaxUsdc ≤ i.netShares * i.fv →
    ∀ q ∈ (constructQuotes i).quotes, q.side = .buy → q.tokenId ≠ i.m.yes) ∧
  (i.profile.qMaxUsdc ≤ -i.netShares * (1 - i.fv) →
    ∀ q ∈ (constructQuotes i).quotes, q.side = .buy → q.tokenId ≠ i.m.no)

instance (i : QuoteInputs) : Decidable (NetCapBinds i) :=
  inferInstanceAs (Decidable ((_ → _) ∧ (_ → _)))

/-- A leg has something to bid where its inventory lets it: the regime quotes both sides, there is a
touch to bid at, and a layer there meets the minimums, in the band. -/
def QuoteInputs.Open (i : QuoteInputs) (l : Leg) : Prop :=
  i.QuotesBoth ∧ ∃ top j, i.top l = some top ∧ i.LaysOut l top j

/-- A token is bid when its leg is open and inside the soft cap. -/
theorem exists_buy_iff {i : QuoteInputs} (hne : i.m.yes ≠ i.m.no) {l : Leg} (hl : l ∈ i.legs) :
    (∃ q ∈ (constructQuotes i).quotes, q.side = .buy ∧ q.tokenId = l.tokenId) ↔
      l.u < i.profile.qSoftFrac ∧ i.Open l := by
  constructor
  · rintro ⟨q, hq⟩
    obtain ⟨top, j, h, -⟩ := (buy_of_leg_iff hne hl).1 hq
    exact ⟨h.inside, h.both, top, j, h.top_eq, h.lays_out⟩
  · rintro ⟨hinside, hboth, top, j, htop, hlays⟩
    exact ⟨_, (buy_of_leg_iff hne hl).2 ⟨top, j, ⟨hboth, hinside, htop, hlays⟩, rfl⟩⟩

/-! ### Utilisation -/

section Utilisation

variable {i : QuoteInputs} (htick : i.m.tickSize ≤ i.fv) (hfv : 0 < i.fv)
  (hmax : 0 < i.profile.qMaxUsdc)
include htick hfv hmax

/-- The utilisation is the net holding at the fair value of YES, over the cap. -/
theorem u_eq : i.u = clamp (i.netShares * i.fv / i.profile.qMaxUsdc) (-1) 1 := by
  have hshares : i.qMaxShares = i.profile.qMaxUsdc / i.fv := by
    unfold qMaxShares
    rw [max_eq_left htick]
  have hpos : 0 < i.qMaxShares := by
    rw [hshares]
    exact div_pos hmax hfv
  unfold QuoteInputs.u
  rw [if_pos hpos, hshares, div_div_eq_mul_div]

/-- A long position at the cap is not inside the soft one. -/
theorem soft_le_u (hsoft : i.profile.qSoftFrac ≤ 1)
    (h : i.profile.qMaxUsdc ≤ i.netShares * i.fv) : i.profile.qSoftFrac ≤ i.u := by
  have hratio : 1 ≤ i.netShares * i.fv / i.profile.qMaxUsdc := (one_le_div hmax).2 h
  rw [u_eq htick hfv hmax]
  exact le_min (le_max_of_le_left (hsoft.trans hratio)) hsoft

/-- A short position is inside the soft cap by its value at the fair value of YES. -/
theorem neg_u_lt_iff (hsoft : i.profile.qSoftFrac ≤ 1) (hshort : i.netShares ≤ 0) :
    -i.u < i.profile.qSoftFrac ↔
      -i.netShares * i.fv < i.profile.qSoftFrac * i.profile.qMaxUsdc := by
  have hratio : i.netShares * i.fv / i.profile.qMaxUsdc ≤ 1 := by
    rw [div_le_one hmax]
    exact (mul_nonpos_of_nonpos_of_nonneg hshort hfv.le).trans hmax.le
  have hu : i.u = max (i.netShares * i.fv / i.profile.qMaxUsdc) (-1) := by
    rw [u_eq htick hfv hmax]
    exact min_eq_left (max_le hratio (by norm_num))
  rw [hu, neg_lt, lt_max_iff, or_iff_left (not_lt.2 (neg_le_neg hsoft)), lt_div_iff₀ hmax]
  constructor <;> intro h <;> linarith

end Utilisation

/-- **The cap binds exactly** when no open NO leg is at the cap but inside the soft cap at the fair
value of YES. -/
theorem net_cap_binds_iff (i : QuoteInputs) (hne : i.m.yes ≠ i.m.no) (htick : i.m.tickSize ≤ i.fv)
    (hfv : 0 < i.fv ∧ i.fv < 1) (hmax : 0 < i.profile.qMaxUsdc) (hsoft : i.profile.qSoftFrac ≤ 1) :
    NetCapBinds i ↔
      (i.profile.qMaxUsdc ≤ -i.netShares * (1 - i.fv) →
        -i.netShares * i.fv < i.profile.qSoftFrac * i.profile.qMaxUsdc → ¬ i.Open i.noLeg) := by
  have hyes := exists_buy_iff hne (l := i.yesLeg) (mem_legs_iff.2 (.inl rfl))
  have hno := exists_buy_iff hne (l := i.noLeg) (mem_legs_iff.2 (.inr rfl))
  constructor
  · rintro ⟨-, hcap⟩ hshort hinside hopen
    have hneg : i.netShares ≤ 0 := by
      by_contra hpos
      nlinarith [hfv.2, not_le.1 hpos]
    have hu := (neg_u_lt_iff htick hfv.1 hmax hsoft hneg).2 hinside
    obtain ⟨q, hq, hbuy, htok⟩ := hno.2 ⟨hu, hopen⟩
    exact hcap hshort q hq hbuy htok
  · intro h
    refine ⟨fun hlong q hq hbuy htok => ?_, fun hshort q hq hbuy htok => ?_⟩
    · have hu := (hyes.1 ⟨q, hq, hbuy, htok⟩).1
      exact (soft_le_u htick hfv.1 hmax hsoft hlong).not_gt hu
    · have hneg : i.netShares ≤ 0 := by
        by_contra hpos
        nlinarith [hfv.2, not_le.1 hpos]
      obtain ⟨hu, hopen⟩ := hno.1 ⟨q, hq, hbuy, htok⟩
      exact h hshort ((neg_u_lt_iff htick hfv.1 hmax hsoft hneg).1 hu) hopen

/-- A market at even odds, with 1000 shares of NO. -/
theorem net_cap_binds_at_even_odds :
    let m : MarketMeta := ⟨"c", "yes", "no", 1 / 100, 5, 0, 0, none, none⟩
    let view := (OrderBook.ofTouch (48 / 100) (52 / 100) 100).view
    let i : QuoteInputs :=
      { m, regime := .quiet, fv := 1 / 2, volShort := 0, toxicity := 0, yesView := view
        noView := view, posYes := .flat, posNo := ⟨1000, 1 / 2⟩, profile := {}, now := 0 }
    NetCapBinds i := by
  intro m view i
  refine (net_cap_binds_iff i (by decide) (by decide +kernel) (by decide +kernel)
    (by decide +kernel) (by decide +kernel)).2 fun _ hinside => ?_
  exact absurd hinside (by decide +kernel)

/-- At odds of one in ten, 560 shares of NO are worth 504 USDC.  The cap of 500 does not bind, and
NO is bid. -/
theorem not_net_cap_binds_at_long_odds :
    let m : MarketMeta := ⟨"c", "yes", "no", 1 / 100, 5, 0, 0, none, none⟩
    let i : QuoteInputs :=
      { m, regime := .quiet, fv := 1 / 10, volShort := 0, toxicity := 0
        yesView := (OrderBook.ofTouch (8 / 100) (12 / 100) 100).view
        noView := (OrderBook.ofTouch (88 / 100) (92 / 100) 100).view
        posYes := .flat, posNo := ⟨560, 9 / 10⟩, profile := {}, now := 0 }
    (i.m.tickSize ≤ i.fv ∧ i.fv ≤ 1 - i.m.tickSize ∧ 0 < i.profile.qMaxUsdc ∧
      i.profile.qSoftFrac ≤ 1) ∧ ¬ NetCapBinds i := by
  decide +kernel

end Polymaker
