import Polymaker.Engine.EntryGates
import Polymaker.Engine.SecondPass
import Polymaker.Risk.Valuation

/-!
# Hedged pairs

As many YES as NO shares of one market redeem for a fixed amount.  `marketNotional` nets such
pairs out, and `totalExposure` is gross: it counts both legs.

* `addPair`: some pairs of a market come into inventory;
* `worth_addShares`: what one leg adds to a sum over the held positions;
* `evaluate_eq_iff_totalUnseen`: when a larger exposure leaves the verdict alone;
* `evaluate_addPair`: what pairs change in the verdicts.
-/

namespace Polymaker

open RiskManager (RiskDecision headroom)

/-! ### Shares -/

/-- Shares of a token come into inventory, at an average price of their own. -/
def StateStore.addShares (s : StateStore) (tok : TokenId) (k avg : ℚ) : StateStore :=
  { s with positions := s.positions.set tok ⟨(s.position tok).size + k, avg⟩ }

/-- As many YES as NO shares of a market come into inventory. -/
def StateStore.addPair (s : StateStore) (m : MarketMeta) (k yesAvg noAvg : ℚ) : StateStore :=
  (s.addShares m.yes k yesAvg).addShares m.no k noAvg

theorem addShares_position (s : StateStore) (tok tok' : TokenId) (k avg : ℚ) :
    (s.addShares tok k avg).position tok' =
      if tok' = tok then ⟨(s.position tok).size + k, avg⟩ else s.position tok' := by
  unfold StateStore.addShares StateStore.position
  rw [Dict.getD_set]

theorem addShares_size (s : StateStore) (tok tok' : TokenId) (k avg : ℚ) :
    ((s.addShares tok k avg).position tok').size =
      (s.position tok').size + if tok' = tok then k else 0 := by
  rw [addShares_position]
  split_ifs with h
  · rw [h]
  · rw [add_zero]

theorem addPair_size (s : StateStore) (m : MarketMeta) (k yesAvg noAvg : ℚ) (tok : TokenId) :
    ((s.addPair m k yesAvg noAvg).position tok).size =
      (s.position tok).size + (if tok = m.yes then k else 0) + if tok = m.no then k else 0 := by
  unfold StateStore.addPair
  rw [addShares_size, addShares_size]

/-- The markets have the same two tokens, or none in common. -/
def MarketMeta.SamePairOrApart (m m' : MarketMeta) : Prop :=
  m'.tokens = m.tokens ∨ ∀ tok ∈ m'.tokens, tok ∉ m.tokens

/-! ### What pairs are worth -/

/-- The marked value of pairs that come into inventory: both legs, once a short one is covered. -/
def StateStore.pairValue (s : StateStore) (m : MarketMeta) (k my mn : ℚ) : ℚ :=
  let yes := (s.position m.yes).size
  let no := ((s.addShares m.yes k 0).position m.no).size
  (max 0 (yes + k) - max 0 yes) * my + (max 0 (no + k) - max 0 no) * mn

theorem pairValue_nonneg (s : StateStore) (m : MarketMeta) {k my mn : ℚ} (hk : 0 ≤ k)
    (hmy : 0 ≤ my) (hmn : 0 ≤ mn) : 0 ≤ s.pairValue m k my mn := by
  have hleg (x : ℚ) : 0 ≤ max 0 (x + k) - max 0 x :=
    sub_nonneg.2 (max_le_max_left 0 (le_add_of_nonneg_right hk))
  exact add_nonneg (mul_nonneg (hleg _) hmy) (mul_nonneg (hleg _) hmn)

theorem pairValue_of_long {s : StateStore} {m : MarketMeta} {k : ℚ} (hk : 0 ≤ k)
    (hyes : 0 ≤ (s.position m.yes).size) (hno : 0 ≤ (s.position m.no).size) (my mn : ℚ) :
    s.pairValue m k my mn = k * (my + mn) := by
  have hleg {x : ℚ} (hx : 0 ≤ x) : max 0 (x + k) - max 0 x = k := by
    rw [max_eq_right hx, max_eq_right (add_nonneg hx hk), add_sub_cancel_left]
  have hno' : 0 ≤ ((s.addShares m.yes k 0).position m.no).size := by
    rw [addShares_size]
    split_ifs <;> linarith
  unfold StateStore.pairValue
  simp only [hleg hyes, hleg hno']
  ring

/-- **One leg**: shares of a token with a fixed price add what they are worth, once a short
position is covered. -/
theorem worth_addShares (s : StateStore) {price : TokenId → Position → ℚ} {tok : TokenId} {p : ℚ}
    (hprice : ∀ pos, price tok pos = p) (k avg : ℚ) :
    (s.addShares tok k avg).worth price =
      s.worth price + (max 0 ((s.position tok).size + k) - max 0 (s.position tok).size) * p := by
  have hset : (s.addShares tok k avg).worth price + _ = s.worth price + _ := worth_set rfl price
  rw [hprice, hprice] at hset
  linarith

/-- What pairs add to a sum over the held positions that takes both tokens at their marks. -/
theorem worth_addPair (s : StateStore) {m : MarketMeta} {price : TokenId → Position → ℚ}
    {my mn : ℚ} (hpy : ∀ pos, price m.yes pos = my) (hpn : ∀ pos, price m.no pos = mn)
    (k yesAvg noAvg : ℚ) :
    (s.addPair m k yesAvg noAvg).worth price = s.worth price + s.pairValue m k my mn := by
  unfold StateStore.addPair StateStore.pairValue
  rw [worth_addShares _ hpn, worth_addShares _ hpy, add_assoc]
  simp only [addShares_size]

namespace RiskManager

variable {r : RiskManager} {tok : TokenId} {p : ℚ}

theorem markOr_of_marked (h : r.marks.get? tok = some p) (pos : Position) :
    r.markOr tok pos = p := by
  unfold markOr Dict.getD
  rw [h, Option.getD_some]

/-! ### What pairs add -/

section Pairs

variable {m : MarketMeta} {my mn : ℚ} (hyes : r.marks.get? m.yes = some my)
  (hno : r.marks.get? m.no = some mn)
include hyes hno

/-- Pairs change no market's directional notional. -/
theorem marketNotional_addPair (s : StateStore) {m' : MarketMeta} (h : m.SamePairOrApart m')
    (k yesAvg noAvg : ℚ) :
    r.marketNotional (s.addPair m k yesAvg noAvg) m' = r.marketNotional s m' := by
  rcases h with h | h
  · obtain ⟨hy, hn⟩ : m'.yes = m.yes ∧ m'.no = m.no := by
      simpa [MarketMeta.tokens] using h
    unfold marketNotional
    simp only [hy, hn, markOr_of_marked hyes, markOr_of_marked hno, addPair_size]
    by_cases hne : m.yes = m.no
    · simp [hne]
    · simp only [if_pos, if_neg hne, if_neg (Ne.symm hne), add_zero, min_add_add_right,
        add_sub_add_right_eq_sub]
  · have hapart : ∀ tok ∈ m'.tokens,
        (s.addPair m k yesAvg noAvg).position tok = s.position tok := by
      intro tok htok
      have hnot := h tok htok
      simp only [MarketMeta.tokens, List.mem_cons, List.not_mem_nil, or_false, not_or] at hnot
      unfold StateStore.addPair
      rw [addShares_position, if_neg hnot.2, addShares_position, if_neg hnot.1]
    unfold marketNotional
    rw [hapart m'.yes (by simp [MarketMeta.tokens]), hapart m'.no (by simp [MarketMeta.tokens])]

theorem totalExposure_addPair (s : StateStore) (k yesAvg noAvg : ℚ) :
    r.totalExposure (s.addPair m k yesAvg noAvg) = r.totalExposure s + s.pairValue m k my mn :=
  worth_addPair s (markOr_of_marked hyes) (markOr_of_marked hno) k yesAvg noAvg

theorem equity_addPair (s : StateStore) (k yesAvg noAvg : ℚ) :
    r.equity (s.addPair m k yesAvg noAvg) = r.equity s + s.pairValue m k my mn := by
  have hmarked {tok : TokenId} {p : ℚ} (h : r.marks.get? tok = some p) (pos : Position) :
      r.marks.getD tok pos.avgPrice = p := by
    unfold Dict.getD
    rw [h, Option.getD_some]
  unfold equity
  rw [inventoryValue_eq_worth, inventoryValue_eq_worth,
    worth_addPair s (hmarked hyes) (hmarked hno) k yesAvg noAvg, add_assoc]

end Pairs

/-- More equity starts no halt. -/
theorem globalHalt_of_equity_le {s s' : StateStore} {now : ℚ} (h : r.equity s ≤ r.equity s')
    (hhalt : (r.globalHalt s now).2 = none) : (r.globalHalt s' now).2 = none := by
  obtain ⟨hkilled, hloss, hrate⟩ := gates_of_globalHalt hhalt
  have hloss' : ¬ r.DailyLossHit s' := by
    unfold DailyLossHit dailyPnl at hloss ⊢
    linarith
  unfold globalHalt
  rw [if_neg (by simp [hkilled]), if_neg hloss']
  rcases herr : r.errorRate now with ⟨r', rate⟩
  rw [herr] at hrate
  simp only [if_neg (not_le.2 hrate)]

/-! ### The verdict -/

/-- The verdict where nothing is halted, from the manager as it was before the error window was
pruned. -/
theorem evaluate_of_running {s : StateStore} {now : ℚ} (hhalt : (r.globalHalt s now).2 = none)
    (m : MarketMeta) (wsStale : Bool) (cost resting : ℚ) (globalResting : Option ℚ) :
    (r.evaluate s m wsStale cost resting globalResting now).2 =
      if wsStale then ⟨true, false, 0, .wsStale⟩
      else if r.cfg.maxMarketNotionalUsdc ≤ r.marketNotional s m + max 0 resting then
        ⟨false, true, 1, .marketCap⟩
      else if r.cfg.maxEventGroupLossUsdc ≤ cost then ⟨false, true, 1, .eventGroupCap⟩
      else if r.cfg.maxTotalExposureUsdc ≤ r.totalExposure s + max 0 (globalResting.getD resting)
        then ⟨false, true, 1, .totalExposureCap⟩
      else ⟨false, false, r.clearScale s m cost, .clear⟩ := by
  have hsame := sameLedger_globalHalt r s now
  unfold evaluate
  rcases hglobal : r.globalHalt s now with ⟨r', why⟩
  rw [hglobal] at hsame hhalt
  simp only at hsame hhalt
  subst hhalt
  cases globalResting <;>
    simp only [hsame.cfg, hsame.marketNotional, hsame.totalExposure, Option.getD] <;>
    split_ifs <;> rfl

/-- `headroom` goes down as the exposure goes up. -/
theorem headroom_le_headroom {x y : ℚ} (h : x ≤ y) (cap : ℚ) : headroom y cap ≤ headroom x cap := by
  unfold headroom
  split_ifs with hcap
  · exact le_rfl
  have hfrac : x / cap ≤ y / cap := div_le_div_of_nonneg_right h (not_le.1 hcap).le
  simp only
  split_ifs with hy hx hx
  · exact le_rfl
  · exact absurd (hfrac.trans hy) hx
  · refine max_le zero_le_one ?_
    rw [div_le_one (by norm_num)]
    linarith
  · refine max_le_max_left 0 ?_
    gcongr

theorem min_min_eq_iff {a c t t' : ℚ} (h : t' ≤ t) :
    min a (min t' c) = min a (min t c) ↔ min a c ≤ t' ∨ t' = t := by
  rw [min_left_comm, min_left_comm a t]
  constructor
  · intro heq
    by_contra hnot
    obtain ⟨hlt, hne⟩ := not_or.1 hnot
    rw [min_eq_left (not_le.1 hlt).le] at heq
    rcases min_choice t (min a c) with hmin | hmin
    · exact hne (heq.trans hmin)
    · exact hlt (heq.trans hmin).ge
  · rintro (hle | rfl)
    · rw [min_eq_right hle, min_eq_right (hle.trans h)]
    · rfl

/-- The gate does not see the total exposure go up to `total`: it decides on what it checks before,
the exposure is at its cap already, or it stays below the cap and its headroom moves no scale. -/
def TotalUnseen (r : RiskManager) (s : StateStore) (m : MarketMeta) (wsStale : Bool)
    (cost resting : ℚ) (globalResting : Option ℚ) (total : ℚ) : Prop :=
  wsStale = true ∨
  r.cfg.maxMarketNotionalUsdc ≤ r.marketNotional s m + max 0 resting ∨
  r.cfg.maxEventGroupLossUsdc ≤ cost ∨
  r.cfg.maxTotalExposureUsdc ≤ r.totalExposure s + max 0 (globalResting.getD resting) ∨
  total + max 0 (globalResting.getD resting) < r.cfg.maxTotalExposureUsdc ∧
    (min (headroom (r.marketNotional s m) r.cfg.maxMarketNotionalUsdc)
        (headroom cost r.cfg.maxEventGroupLossUsdc) ≤ headroom total r.cfg.maxTotalExposureUsdc ∨
      headroom total r.cfg.maxTotalExposureUsdc =
        headroom (r.totalExposure s) r.cfg.maxTotalExposureUsdc)

/-- Two stores that differ in the total exposure alone, as far as the gate can tell. -/
theorem evaluate_eq_iff_totalUnseen {s s' : StateStore} {m : MarketMeta} {now : ℚ}
    (hhalt : (r.globalHalt s now).2 = none) (hhalt' : (r.globalHalt s' now).2 = none)
    (hmarket : r.marketNotional s' m = r.marketNotional s m)
    (htotal : r.totalExposure s ≤ r.totalExposure s') (wsStale : Bool) (cost resting : ℚ)
    (globalResting : Option ℚ) :
    let before := (r.evaluate s m wsStale cost resting globalResting now).2
    let after := (r.evaluate s' m wsStale cost resting globalResting now).2
    after.halt = before.halt ∧
      (after.reduceOnly = before.reduceOnly ∧ after.sizeScale = before.sizeScale ↔
        r.TotalUnseen s m wsStale cost resting globalResting (r.totalExposure s')) := by
  simp only [evaluate_of_running hhalt, evaluate_of_running hhalt', hmarket, TotalUnseen]
  by_cases hstale : wsStale = true
  · simp [hstale]
  by_cases hcap : r.cfg.maxMarketNotionalUsdc ≤ r.marketNotional s m + max 0 resting
  · simp [hstale, hcap]
  by_cases hevent : r.cfg.maxEventGroupLossUsdc ≤ cost
  · simp [hstale, hcap, hevent]
  by_cases hold :
      r.cfg.maxTotalExposureUsdc ≤ r.totalExposure s + max 0 (globalResting.getD resting)
  · have hnew : r.cfg.maxTotalExposureUsdc ≤
        r.totalExposure s' + max 0 (globalResting.getD resting) := by linarith
    simp [hstale, hcap, hevent, hold, hnew]
  by_cases hnew :
      r.cfg.maxTotalExposureUsdc ≤ r.totalExposure s' + max 0 (globalResting.getD resting)
  · -- the total cap closes the market
    simp [hstale, hcap, hevent, hold, hnew, not_lt.2 hnew]
  · -- the market stays cleared, and only the scale can move
    simp only [hstale, hcap, hevent, hold, hnew, not_le.1 hnew, if_false, true_and, false_or,
      clearScale, hmarket, Bool.false_eq_true]
    exact min_min_eq_iff (headroom_le_headroom htotal _)

/-- **Pairs are neutral to the market cap, and gross in the total.**  Pairs of a market in which
both tokens are marked start no halt and change no market's notional; they raise the total exposure
by the marked value of both legs, and a verdict changes exactly where the gate sees that. -/
theorem evaluate_addPair (s : StateStore) {m : MarketMeta} {my mn k now : ℚ}
    (hyes : r.marks.get? m.yes = some my) (hno : r.marks.get? m.no = some mn) (hmy : 0 ≤ my)
    (hmn : 0 ≤ mn) (hk : 0 ≤ k) (hhalt : (r.globalHalt s now).2 = none) (yesAvg noAvg : ℚ) :
    let s' := s.addPair m k yesAvg noAvg
    (∀ m', m.SamePairOrApart m' → r.marketNotional s' m' = r.marketNotional s m') ∧
    r.totalExposure s' = r.totalExposure s + s.pairValue m k my mn ∧
    (0 ≤ (s.position m.yes).size → 0 ≤ (s.position m.no).size →
      s.pairValue m k my mn = k * (my + mn)) ∧
    ∀ m' wsStale cost resting globalResting, m.SamePairOrApart m' →
      let before := (r.evaluate s m' wsStale cost resting globalResting now).2
      let after := (r.evaluate s' m' wsStale cost resting globalResting now).2
      after.halt = before.halt ∧
        (after.reduceOnly = before.reduceOnly ∧ after.sizeScale = before.sizeScale ↔
          r.TotalUnseen s m' wsStale cost resting globalResting
            (r.totalExposure s + s.pairValue m k my mn)) := by
  have hvalue := pairValue_nonneg s m hk hmy hmn
  have htotal := totalExposure_addPair hyes hno s k yesAvg noAvg
  have hequity := equity_addPair hyes hno s k yesAvg noAvg
  have hhalt' : (r.globalHalt (s.addPair m k yesAvg noAvg) now).2 = none :=
    globalHalt_of_equity_le (by linarith) hhalt
  refine ⟨fun m' h => marketNotional_addPair hyes hno s h k yesAvg noAvg, htotal,
    fun hy hn => pairValue_of_long hk hy hn my mn, ?_⟩
  intro m' wsStale cost resting globalResting h
  rw [← htotal]
  exact evaluate_eq_iff_totalUnseen hhalt hhalt'
    (marketNotional_addPair hyes hno s h k yesAvg noAvg) (by linarith) wsStale cost resting
    globalResting

/-- A thousand pairs at even odds, held beside eight hundred earlier ones, in the default caps. -/
theorem evaluate_addPair_at_even_odds :
    let m : MarketMeta := ⟨"c", "yes", "no", 1 / 100, 5, 0, 0, none, none⟩
    let r := ((RiskManager.new {}).updateMark "yes" (1 / 2)).updateMark "no" (1 / 2)
    let s := (StateStore.open .fresh).addPair m 800 (1 / 2) (1 / 2)
    let s' := s.addPair m 1000 (48 / 100) (48 / 100)
    r.totalExposure s' = r.totalExposure s + s.pairValue m 1000 (1 / 2) (1 / 2) ∧
      s.pairValue m 1000 (1 / 2) (1 / 2) = 1000 * (1 / 2 + 1 / 2) ∧
      (r.evaluate s' m false 0 0 none 0).2.sizeScale =
        (r.evaluate s m false 0 0 none 0).2.sizeScale := by
  intro m r s s'
  have hyes : r.marks.get? m.yes = some (1 / 2) := by decide +kernel
  have hno : r.marks.get? m.no = some (1 / 2) := by decide +kernel
  have hhalt : (r.globalHalt s 0).2 = none := by decide +kernel
  have hpairs : (0 : ℚ) ≤ 1000 := by norm_num
  obtain ⟨-, htotal, hvalue, hverdict⟩ :=
    evaluate_addPair s hyes hno (by norm_num) (by norm_num) hpairs hhalt (48 / 100) (48 / 100)
  have hseen : r.TotalUnseen s m false 0 0 none
      (r.totalExposure s + s.pairValue m 1000 (1 / 2) (1 / 2)) :=
    Or.inr (Or.inr (Or.inr (Or.inr ⟨by decide +kernel, Or.inr (by decide +kernel)⟩)))
  exact ⟨htotal, hvalue (by decide +kernel) (by decide +kernel),
    ((hverdict m false 0 0 none (Or.inl rfl)).2.2 hseen).2⟩

/-- Six thousand pairs at even odds close a market that had nothing against it. -/
theorem not_neutral_of_six_thousand_pairs :
    let m : MarketMeta := ⟨"c", "yes", "no", 1 / 100, 5, 0, 0, none, none⟩
    let r := ((RiskManager.new {}).updateMark "yes" (1 / 2)).updateMark "no" (1 / 2)
    let s := StateStore.open .fresh
    let s' := s.addPair m 6000 (1 / 2) (1 / 2)
    (r.globalHalt s 0).2 = none ∧ (r.globalHalt s' 0).2 = none ∧
      (r.evaluate s m false 0 0 none 0).2 = ⟨false, false, 1, .clear⟩ ∧
      (r.evaluate s' m false 0 0 none 0).2 = ⟨false, true, 1, .totalExposureCap⟩ := by
  decide +kernel

end RiskManager

end Polymaker
