import Polymaker.Engine.SecondPass

/-!
# Recomputing twice

A market is recomputed, every call succeeds, and it is recomputed again with nothing else changed.

* `Engine.SecondPlanEmpty`: the second recompute has nothing to do;
* `Engine.Settles`: both passes bid and what the first one placed is within its own tolerances, or
  neither pass bids and the orders left are what the second one exits with;
* `again_eq_of_bids`: where both passes bid they want the same;
* `CompletePass.settles_of_same_verdict`: where the two verdicts are the same the market settles;
* `fixed_point_iff`: the second plan is empty exactly when the market settles.
-/

namespace Polymaker

open RiskManager (RiskDecision)

/-- The target set bids. -/
def TargetQuotes.Bids (t : TargetQuotes) : Prop := ∃ q ∈ t.quotes, q.side = .buy

instance (t : TargetQuotes) : Decidable t.Bids :=
  inferInstanceAs (Decidable (∃ q ∈ t.quotes, q.side = .buy))

/-! ### Reconciling with the orders of another target set -/

section Other

variable {targets targets' : TargetQuotes} {live placed : List OpenOrder} {t : Tolerance}

/-- The bids of the two target sets are met by each other's orders, so that neither bids alone. -/
theorem bids_iff_of_isNoop (hid : (live.map OpenOrder.orderId).Nodup)
    (hdone : CarriedOut (reconcile targets live t) live placed)
    (h : (reconcile targets' ((reconcile targets live t).leaves live placed) t).isNoop = true) :
    targets.Bids ↔ targets'.Bids := by
  obtain ⟨hmet, hall⟩ := isNoop_reconcile_iff.1 h
  constructor
  · rintro ⟨q, hq, hbuy⟩
    -- the order left for the bid is kept for a target
    obtain ⟨o, ho, hkey⟩ := exists_mem_leaves_of_target hid hdone hq
    obtain ⟨o', ho', hid'⟩ := List.mem_map.1 (hall o ho)
    obtain ⟨hleft, q', hq', hfit⟩ := mem_of_used ho'
    obtain rfl := List.inj_on_of_nodup_map (nodup_orderId_leaves hid hdone) hleft ho hid'
    refine ⟨q', hq', ?_⟩
    rw [← hfit.1.2, ← hbuy]
    exact congrArg Prod.snd hkey
  · rintro ⟨q', hq', hbuy⟩
    -- the order that meets the bid was left for a target
    obtain ⟨o, ho, hfit⟩ := FirstFit.exists_fits_of_met hmet hq'
    obtain ⟨q, hq, hkey⟩ := exists_target_of_mem_leaves hid hdone ho
    refine ⟨q, hq, ?_⟩
    rw [← hbuy, ← hfit.1.2]
    exact congrArg Prod.snd hkey

/-- An order placed for `q'` fits the target `q`. -/
def Tolerance.Meets (t : Tolerance) (q q' : Quote) : Prop :=
  (q'.tokenId = q.tokenId ∧ q'.side = q.side) ∧ t.Close q q'.price q'.size

theorem Realises.fits_iff {q' : Quote} {o : OpenOrder} (h : Realises q' o) (q : Quote) :
    t.Fits q o ↔ t.Meets q q' := by
  obtain ⟨⟨htok, hside⟩, hprice, hsize⟩ := h
  unfold Tolerance.Fits Tolerance.Meets
  rw [htok, hside, hprice, hsize]

/-- Each target has an order that fits it, among the orders kept and the quotes posted, and each of
these a target. -/
structure Stands (t : Tolerance) (targets : TargetQuotes) (kept : List OpenOrder)
    (posted : List Quote) : Prop where
  met : ∀ q ∈ targets.quotes, (∃ o ∈ kept, t.Fits q o) ∨ ∃ q' ∈ posted, t.Meets q q'
  kept : ∀ o ∈ kept, ∃ q ∈ targets.quotes, t.Fits q o
  posted : ∀ q' ∈ posted, ∃ q ∈ targets.quotes, t.Meets q q'

/-- Where the quotes of either target set differ in token or side, nothing is left to do exactly
when the second set stands in the orders left for the first. -/
theorem isNoop_iff_stands (hid : (live.map OpenOrder.orderId).Nodup)
    (hdone : CarriedOut (reconcile targets live t) live placed)
    (hkeys : (targets.quotes.map Quote.key).Nodup)
    (hkeys' : (targets'.quotes.map Quote.key).Nodup) :
    (reconcile targets' ((reconcile targets live t).leaves live placed) t).isNoop = true ↔
      Stands t targets'
        (live.filter fun o => decide (o.orderId ∉ (reconcile targets live t).toCancel))
        (reconcile targets live t).toPlace := by
  rw [isNoop_reconcile_iff_of_keys (nodup_orderId_leaves hid hdone) hkeys'
    (nodup_key_leaves hid hdone hkeys)]
  simp only [ReconcilePlan.leaves, List.mem_append]
  constructor
  · rintro ⟨hmet, hall⟩
    refine ⟨fun q hq => ?_, fun o ho => hall o (.inl ho), fun q' hq' => ?_⟩
    · obtain ⟨o, ho | ho, hfit⟩ := hmet q hq
      · exact .inl ⟨o, ho, hfit⟩
      · obtain ⟨q', hq', hreal⟩ := FirstFit.exists_of_mem_right hdone.realised ho
        exact .inr ⟨q', hq', (hreal.fits_iff q).1 hfit⟩
    · obtain ⟨o, ho, hreal⟩ := FirstFit.exists_of_mem_right hdone.realised.flip hq'
      obtain ⟨q, hq, hfit⟩ := hall o (.inr ho)
      exact ⟨q, hq, (Realises.fits_iff hreal q).1 hfit⟩
  · rintro ⟨hmet, hkept, hposted⟩
    refine ⟨fun q hq => ?_, fun o ho => ?_⟩
    · rcases hmet q hq with ⟨o, ho, hfit⟩ | ⟨q', hq', hmeets⟩
      · exact ⟨o, .inl ho, hfit⟩
      · obtain ⟨o, ho, hreal⟩ := FirstFit.exists_of_mem_right hdone.realised.flip hq'
        exact ⟨o, .inr ho, (Realises.fits_iff hreal q).2 hmeets⟩
    · rcases ho with ho | ho
      · exact hkept o ho
      · obtain ⟨q', hq', hreal⟩ := FirstFit.exists_of_mem_right hdone.realised ho
        obtain ⟨q, hq, hmeets⟩ := hposted q' hq'
        exact ⟨q, hq, (hreal.fits_iff q).2 hmeets⟩

end Other

/-- Targets that do not bid are exits, one for each token at most. -/
theorem nodup_key_of_not_bids {i : QuoteInputs} (hne : i.m.yes ≠ i.m.no)
    (h : ¬ (constructQuotes i).Bids) : ((constructQuotes i).quotes.map Quote.key).Nodup := by
  have hsell : ∀ q ∈ (constructQuotes i).quotes, q.side = .sell := fun q hq => by
    cases hside : q.side with
    | sell => rfl
    | buy => exact absurd ⟨q, hq, hside⟩ h
  rcases constructQuotes_eq_exits hsell with heq | heq
  · rw [heq]
    exact List.nodup_nil
  · obtain ⟨ys, ns, hexits, hys, hns⟩ := i.exits_cases
    rw [heq, hexits]
    rcases hys with rfl | ⟨p, s, rfl⟩ <;> rcases hns with rfl | ⟨p', s', rfl⟩ <;>
      simp [Quote.key, hne]

namespace Engine

variable {e : Engine} {cid : ConditionId} {m : Market} {obs : Observation} {ans : Answers}
  {micro : ℚ}

/-! ### Where both passes bid -/

/-- A decision that bids was cleared, in a regime that reads the observation alone. -/
theorem targets_of_bids {fv : ℚ} {rd : RiskDecision}
    (h : (e.decideWith m obs micro fv rd).2.targets.Bids) :
    (rd.halt = false ∧ rd.reduceOnly = false) ∧ (e.decideWith m obs micro fv rd).2.targets =
      constructQuotes (e.quoteInputs m obs micro fv rd
        ((e.regimeInputs m obs fv rd).calmRegime m.profile)) := by
  obtain ⟨q, hq, hbuy⟩ := h
  have hcalm : (m.regime.decide (e.regimeInputs m obs fv rd) m.profile).2 = .trending ∨
      (m.regime.decide (e.regimeInputs m obs fv rd) m.profile).2 = .quiet :=
    calm_of_buy_mem (i := e.quoteInputs m obs micro fv rd
      (m.regime.decide (e.regimeInputs m obs fv rd) m.profile).2) hq hbuy
  have hgates := RegimeMachine.calm_of_decide hcalm
  have hregime : (m.regime.decide (e.regimeInputs m obs fv rd) m.profile).2 =
      (e.regimeInputs m obs fv rd).calmRegime m.profile := by
    rw [RegimeMachine.decide_of_calm hgates]
  refine ⟨⟨?_, ?_⟩, ?_⟩
  · exact Bool.eq_false_iff.2 fun hhalt => hgates.unhalted (.inl hhalt)
  · exact Bool.eq_false_iff.2 fun hreduce => hgates.adding (.inl hreduce)
  · rw [← hregime]
    rfl

/-- The two verdicts are the same where both clear the market. -/
theorem recheck_eq_of_clear
    (h : (e.verdict m obs micro).2.halt = false ∧ (e.verdict m obs micro).2.reduceOnly = false)
    (h' : (e.recheck cid m obs micro).halt = false ∧
      (e.recheck cid m obs micro).reduceOnly = false) :
    e.recheck cid m obs micro = (e.verdict m obs micro).2 := by
  have hscale := (e.sameLedger_settledRisk cid m obs micro).clearScale e.store m.info
    ((e.valued m obs micro).eventGroupCost m.info)
  unfold verdict gate at h ⊢
  unfold recheck gate at h' ⊢
  rw [RiskManager.evaluate_clear h.1 h.2, RiskManager.evaluate_clear h'.1 h'.2]
  exact congrArg (fun scale => RiskDecision.mk false false scale .clear) hscale

/-- **Where both passes bid they want the same.** -/
theorem again_eq_of_bids (h : (e.decision m obs micro).2.targets.Bids)
    (h' : (e.again cid m obs micro).Bids) :
    e.again cid m obs micro = (e.decision m obs micro).2.targets := by
  obtain ⟨hinfo, hprofile, -⟩ := e.decision_market m obs micro
  obtain ⟨hclear, htargets⟩ := targets_of_bids h
  obtain ⟨hclear', htargets'⟩ := targets_of_bids h'
  have hrd := recheck_eq_of_clear hclear hclear'
  unfold again decision at *
  generalize (Engine.decideWith _ m obs micro _ _).1 = m' at *
  rw [htargets, htargets', hrd]
  congr 1
  unfold quoteInputs regimeInputs RegimeInputs.calmRegime
  simp only [hinfo, hprofile]

/-! ### Where a pass does not bid -/

theorem nodup_key_targets (hne : m.info.yes ≠ m.info.no)
    (h : ¬ (e.decision m obs micro).2.targets.Bids) :
    ((e.decision m obs micro).2.targets.quotes.map Quote.key).Nodup := by
  obtain ⟨i, hinfo, htargets⟩ : ∃ i : QuoteInputs, i.m = m.info ∧
      (e.decision m obs micro).2.targets = constructQuotes i := ⟨_, rfl, rfl⟩
  rw [htargets] at h ⊢
  exact nodup_key_of_not_bids (hinfo ▸ hne) h

theorem nodup_key_again (hne : m.info.yes ≠ m.info.no) (h : ¬ (e.again cid m obs micro).Bids) :
    ((e.again cid m obs micro).quotes.map Quote.key).Nodup := by
  obtain ⟨i, hinfo, htargets⟩ : ∃ i : QuoteInputs, i.m = m.info ∧
      e.again cid m obs micro = constructQuotes i := ⟨_, rfl, rfl⟩
  rw [htargets] at h ⊢
  exact nodup_key_of_not_bids (hinfo ▸ hne) h

/-! ### Where nothing moves the gate or the regime -/

/-- Neither the plan's own bids nor its placement move the gate, an event lasts, and the tolerances
are not negative. -/
structure Undisturbed (e : Engine) (cid : ConditionId) (m : Market) (obs : Observation)
    (micro : ℚ) : Prop where
  market : e.risk.cfg.maxMarketNotionalUsdc ≤ (e.valued m obs micro).risk.marketNotional e.store
      m.info + max 0 (e.marketResting m.info + e.netBids cid m obs) ↔
    e.risk.cfg.maxMarketNotionalUsdc ≤ (e.valued m obs micro).risk.marketNotional e.store
      m.info + max 0 (e.marketResting m.info)
  total : e.risk.cfg.maxTotalExposureUsdc ≤ (e.valued m obs micro).risk.totalExposure e.store +
      max 0 (e.globalResting + e.netBids cid m obs) ↔
    e.risk.cfg.maxTotalExposureUsdc ≤ (e.valued m obs micro).risk.totalExposure e.store +
      max 0 e.globalResting
  breaker : ((e.settledRisk cid m obs micro).globalHalt e.store obs.now).2 =
    ((e.valued m obs micro).risk.globalHalt e.store obs.now).2
  tick : 0 ≤ m.info.tickSize
  cooloff : 0 < m.profile.eventCooloffS
  reprice : 0 ≤ m.profile.repriceTicks
  resize : 0 ≤ m.profile.resizeFrac

theorem recheck_of_undisturbed (h : e.Undisturbed cid m obs micro) :
    e.recheck cid m obs micro = (e.verdict m obs micro).2 :=
  RiskManager.evaluate_eq_of_uncrossed (e.sameLedger_settledRisk cid m obs micro) h.breaker
    h.market h.total (m.blind obs)

/-- The same verdict leads to the same targets, where an event lasts. -/
theorem again_of_same_verdict (hsame : e.recheck cid m obs micro = (e.verdict m obs micro).2)
    (htick : 0 ≤ m.info.tickSize) (hcooloff : 0 < m.profile.eventCooloffS) :
    e.again cid m obs micro = (e.decision m obs micro).2.targets := by
  have hregime := RegimeMachine.decide_again m.regime (p := m.profile)
    (i := (e.valued m obs micro).regimeInputs m obs (m.fairValue obs micro)
      (e.verdict m obs micro).2) htick fun _ => hcooloff
  unfold again
  rw [hsame]
  -- the second pass reads what the first one read, but for the sweep flag and the last fair value
  show constructQuotes ((e.valued m obs micro).quoteInputs m obs micro (m.fairValue obs micro)
    (e.verdict m obs micro).2 _) = constructQuotes ((e.valued m obs micro).quoteInputs m obs micro
      (m.fairValue obs micro) (e.verdict m obs micro).2 _)
  exact congrArg (fun regime => constructQuotes ((e.valued m obs micro).quoteInputs m obs micro
    (m.fairValue obs micro) (e.verdict m obs micro).2 regime)) hregime

theorem again_of_undisturbed (h : e.Undisturbed cid m obs micro) :
    e.again cid m obs micro = (e.decision m obs micro).2.targets :=
  again_of_same_verdict (recheck_of_undisturbed h) h.tick h.cooloff

/-! ### The two passes -/

/-- A usable market is recomputed, nothing is shed, and every call succeeds. -/
structure CompletePass (e : Engine) (cid : ConditionId) (m : Market) (obs : Observation)
    (ans : Answers) (micro : ℚ) : Prop where
  keyed : e.store.Keyed
  listed : e.markets.get? cid = some m
  usable : m.sight obs = .ok micro
  tokens : m.info.yes ≠ m.info.no
  succeeds : e.Succeeds cid m obs ans
  unshed : ¬ Shed obs (e.decision m obs micro).2.regime

/-- The second recompute has nothing to do. -/
def SecondPlanEmpty (e : Engine) (cid : ConditionId) (obs : Observation) (ans : Answers) : Prop :=
  ∀ d, (e.recompute cid obs ans).engine.decision? cid obs = some d → d.plan.isNoop = true

/-- Both passes bid, and what the first one posts is within its own tolerances; or neither bids, and
what the second one wants stands in what the first one leaves. -/
def Settles (e : Engine) (cid : ConditionId) (m : Market) (obs : Observation) (micro : ℚ) : Prop :=
  let first := (e.decision m obs micro).2
  let second := e.again cid m obs micro
  (first.targets.Bids ∧ second.Bids ∧ ∀ q ∈ first.plan.toPlace, (tolerance m).Reflexive q) ∨
  (¬ first.targets.Bids ∧ ¬ second.Bids ∧
    Stands (tolerance m) second
      ((e.ordersOf m.info).filter fun o => decide (o.orderId ∉ first.plan.toCancel))
      first.plan.toPlace)

/-- The second plan reconciles the targets `again` with the orders the first plan leaves. -/
theorem secondPlanEmpty_iff (h : e.CompletePass cid m obs ans micro) :
    e.SecondPlanEmpty cid obs ans ↔
      (reconcile (e.again cid m obs micro) ((e.decision m obs micro).2.plan.leaves
        (e.ordersOf m.info) (e.receipts cid obs ans)) (tolerance m)).isNoop = true := by
  obtain ⟨d, hd, hplan⟩ := second_decision h.keyed h.listed h.usable h.tokens h.succeeds
  have hfirst := decision?_of_ok h.listed h.usable
  have hleft := filter_ordersOf_of_succeeds h.keyed h.listed h.succeeds h.tokens hfirst
  unfold SecondPlanEmpty
  rw [hd, ← isNoop_reconcile_congr hleft, ← hplan]
  exact ⟨fun hall => hall d rfl, fun hnoop d' hd' => Option.some.inj hd' ▸ hnoop⟩

theorem CompletePass.carriedOut (h : e.CompletePass cid m obs ans micro) :
    CarriedOut (e.decision m obs micro).2.plan (e.ordersOf m.info) (e.receipts cid obs ans) := by
  refine carriedOut_of_succeeds h.keyed h.succeeds ?_
  have hfirst := decision?_of_ok h.listed h.usable
  simp only [posts, hfirst, Decision.issued, if_neg h.unshed]

/-- **Where the two verdicts agree**, and an event lasts, the market settles if what the first pass
posts is within its own tolerances. -/
theorem CompletePass.settles_of_same_verdict (h : e.CompletePass cid m obs ans micro)
    (hsame : e.recheck cid m obs micro = (e.verdict m obs micro).2) (htick : 0 ≤ m.info.tickSize)
    (hcooloff : 0 < m.profile.eventCooloffS)
    (hself : ∀ q ∈ (e.decision m obs micro).2.plan.toPlace, (tolerance m).Reflexive q) :
    e.Settles cid m obs micro := by
  have hagain := again_of_same_verdict hsame htick hcooloff
  unfold Settles
  simp only [hagain]
  by_cases hbids : (e.decision m obs micro).2.targets.Bids
  · exact .inl ⟨hbids, hbids, hself⟩
  · -- the exits posted, and those kept, are still wanted
    have hdone := h.carriedOut
    have hkeys := nodup_key_targets h.tokens hbids
    have hnoop := (isNoop_reconcile_leaves hdone).2 hself
    exact .inr ⟨hbids, hbids,
      (isNoop_iff_stands (nodup_ordersOf h.keyed h.tokens) hdone hkeys hkeys).1 hnoop⟩

/-- The tolerances, not negative, cover every quote. -/
theorem reflexive_of_undisturbed (h : e.Undisturbed cid m obs micro) (q : Quote) :
    (tolerance m).Reflexive q :=
  Tolerance.reflexive_of_nonneg h.tick h.reprice h.resize q

end Engine

open Engine

/-- **When recomputing is a fixed point.**  After a pass all of whose calls succeed, a second one
has nothing to do if and only if the market settles; and it settles where neither the plan's own
bids nor its placement move the gate, an event lasts and the tolerances are not negative. -/
theorem fixed_point_iff (e : Engine) (cid : ConditionId) (m : Market) (obs : Observation)
    (ans : Answers) (micro : ℚ) (h : e.CompletePass cid m obs ans micro) :
    (e.SecondPlanEmpty cid obs ans ↔ e.Settles cid m obs micro) ∧
      (e.Undisturbed cid m obs micro → e.SecondPlanEmpty cid obs ans) := by
  have hid := nodup_ordersOf h.keyed h.tokens
  have hdone := h.carriedOut
  have hplan : (e.decision m obs micro).2.plan =
      reconcile (e.decision m obs micro).2.targets (e.ordersOf m.info) (tolerance m) := rfl
  rw [hplan] at hdone
  rw [secondPlanEmpty_iff h, hplan]
  constructor
  · by_cases hbids : (e.decision m obs micro).2.targets.Bids ↔ (e.again cid m obs micro).Bids
    · by_cases hfirst : (e.decision m obs micro).2.targets.Bids
      · -- both passes bid, and want the same
        have hsecond := hbids.1 hfirst
        rw [again_eq_of_bids hfirst hsecond, isNoop_reconcile_leaves hdone, ← hplan]
        constructor
        · exact fun hself => .inl ⟨hfirst, hsecond, hself⟩
        · rintro (⟨-, -, hself⟩ | ⟨hnot, -⟩)
          · exact hself
          · exact absurd hfirst hnot
      · -- neither bids
        have hsecond := (not_congr hbids).1 hfirst
        rw [isNoop_iff_stands hid hdone (nodup_key_targets h.tokens hfirst)
          (nodup_key_again h.tokens hsecond), ← hplan]
        constructor
        · exact fun hstands => .inr ⟨hfirst, hsecond, hstands⟩
        · rintro (⟨hbid, -⟩ | ⟨-, -, hstands⟩)
          · exact absurd hbid hfirst
          · exact hstands
    · -- one pass bids and the other does not
      constructor
      · exact fun hnoop => absurd (bids_iff_of_isNoop hid hdone hnoop) hbids
      · rintro (⟨hfirst, hsecond, -⟩ | ⟨hfirst, hsecond, -⟩)
        · exact absurd (iff_of_true hfirst hsecond) hbids
        · exact absurd (iff_of_false hfirst hsecond) hbids
  · intro hstill
    rw [again_of_undisturbed hstill, isNoop_reconcile_leaves hdone]
    exact fun q _ => reflexive_of_undisturbed hstill q

/-- A market that quotes one layer a side, under the default caps. -/
theorem fixed_point_of_default_caps :
    let m : Market :=
      { info := ⟨"c", "yes", "no", 1 / 100, 5, 0, 0, none, none⟩, profile := { layers := 1 } }
    let book := OrderBook.ofTouch (48 / 100) (52 / 100) 100
    let obs : Observation :=
      ⟨100, some book, some book, 0, 0, 0, 0, false, false, false, false, 0⟩
    let e : Engine := ⟨{}, Dict.empty.set "c" m, StateStore.open .fresh, .new {}, Dict.empty⟩
    e.SecondPlanEmpty "c" obs ⟨true, some [[some "o1", some "o2"]], none⟩ := by
  intro m book obs e
  have hpass : e.CompletePass "c" m obs ⟨true, some [[some "o1", some "o2"]], none⟩ (1 / 2) :=
    { keyed := keyed_open _
      listed := by decide +kernel
      usable := by decide +kernel
      tokens := by decide
      succeeds := ⟨fun _ => rfl, by decide +kernel, by decide +kernel, by decide +kernel⟩
      unshed := by decide +kernel }
  have hstill : e.Undisturbed "c" m obs (1 / 2) := by constructor <;> decide +kernel
  exact (fixed_point_iff e "c" m obs _ (1 / 2) hpass).2 hstill

/-- The same market under a cap its own two bids exceed: the second plan cancels what the first one
placed, and the third one is the first one again. -/
theorem limit_cycle_of_market_cap :
    let m : Market :=
      { info := ⟨"c", "yes", "no", 1 / 100, 5, 0, 0, none, none⟩, profile := { layers := 1 } }
    let book := OrderBook.ofTouch (48 / 100) (52 / 100) 100
    let obs : Observation :=
      ⟨100, some book, some book, 0, 0, 0, 0, false, false, false, false, 0⟩
    let e : Engine := ⟨{}, Dict.empty.set "c" m, StateStore.open .fresh,
      .new { maxMarketNotionalUsdc := 80 }, Dict.empty⟩
    let ans : Answers := ⟨true, some [[some "o1", some "o2"]], none⟩
    let e' := (e.recompute "c" obs ans).engine
    let e'' := (e'.recompute "c" obs ans).engine
    e.CompletePass "c" m obs ans (1 / 2) ∧
      (e'.decision? "c" obs).map Decision.plan = some ⟨["o1", "o2"], []⟩ ∧
      (e''.decision? "c" obs).map Decision.plan = (e.decision? "c" obs).map Decision.plan ∧
      ¬ e.SecondPlanEmpty "c" obs ans := by
  intro m book obs e ans e' e''
  have hpass : e.CompletePass "c" m obs ans (1 / 2) :=
    { keyed := keyed_open _
      listed := by decide +kernel
      usable := by decide +kernel
      tokens := by decide
      succeeds := ⟨fun _ => rfl, by decide +kernel, by decide +kernel, by decide +kernel⟩
      unshed := by decide +kernel }
  have hsecond : (e'.decision? "c" obs).map Decision.plan = some ⟨["o1", "o2"], []⟩ := by
    decide +kernel
  have hthird : (e''.decision? "c" obs).map Decision.plan =
      (e.decision? "c" obs).map Decision.plan := by decide +kernel
  refine ⟨hpass, hsecond, hthird, fun h => ?_⟩
  obtain ⟨d, hd, hplan⟩ := Option.map_eq_some_iff.1 hsecond
  have hnoop := h d hd
  rw [hplan] at hnoop
  cases hnoop

end Polymaker
