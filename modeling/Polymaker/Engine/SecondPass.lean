import Polymaker.Engine.Success

/-!
# The second pass

A recompute whose calls succeed is followed by another one, of the same market and with the same
observation.

* `Engine.settledRisk`, `Engine.recheck`, `Engine.again`: the risk manager the second pass meets,
  the gate's verdict it gets and the targets it wants, all from the state before the first pass;
* `second_decision`: these are the manager, the verdict and the targets of the second pass;
* `evaluate_clear`: a verdict that clears a market does not depend on what is resting.
-/

namespace Polymaker

open RiskManager (RiskDecision)

/-! ### Verdicts -/

namespace RiskManager

/-- The size scale of a market that is cleared. -/
def clearScale (r : RiskManager) (s : StateStore) (m : MarketMeta) (eventGroupCost : ℚ) : ℚ :=
  min (headroom (r.marketNotional s m) r.cfg.maxMarketNotionalUsdc)
    (min (headroom (r.totalExposure s) r.cfg.maxTotalExposureUsdc)
      (headroom eventGroupCost r.cfg.maxEventGroupLossUsdc))

theorem SameLedger.clearScale {r r' : RiskManager} (h : SameLedger r r') (s : StateStore)
    (m : MarketMeta) (cost : ℚ) : r'.clearScale s m cost = r.clearScale s m cost := by
  obtain ⟨w, rfl⟩ := h
  rfl

/-- **A cleared market** gets a scale that does not depend on what is resting. -/
theorem evaluate_clear {r : RiskManager} {s : StateStore} {m : MarketMeta} {wsStale : Bool}
    {cost resting : ℚ} {globalResting : Option ℚ} {now : ℚ}
    (hhalt : (r.evaluate s m wsStale cost resting globalResting now).2.halt = false)
    (hreduce : (r.evaluate s m wsStale cost resting globalResting now).2.reduceOnly = false) :
    (r.evaluate s m wsStale cost resting globalResting now).2 =
      ⟨false, false, r.clearScale s m cost, .clear⟩ := by
  have hsame := sameLedger_globalHalt r s now
  unfold evaluate at hhalt hreduce ⊢
  generalize r.globalHalt s now = halt at hsame hhalt hreduce ⊢
  obtain ⟨r', _ | why⟩ := halt
  · rw [← hsame.clearScale]
    simp only at hhalt hreduce ⊢
    split_ifs at hhalt hreduce ⊢
    rfl
  · cases hhalt

/-- The verdict stays where the breaker's does and no resting notional crosses a cap. -/
theorem evaluate_eq_of_uncrossed {r r' : RiskManager} (hsame : r.SameLedger r') {s : StateStore}
    {m : MarketMeta} {cost resting resting' total total' now : ℚ}
    (hhalt : (r'.globalHalt s now).2 = (r.globalHalt s now).2)
    (hmarket : r.cfg.maxMarketNotionalUsdc ≤ r.marketNotional s m + max 0 resting' ↔
      r.cfg.maxMarketNotionalUsdc ≤ r.marketNotional s m + max 0 resting)
    (htotal : r.cfg.maxTotalExposureUsdc ≤ r.totalExposure s + max 0 total' ↔
      r.cfg.maxTotalExposureUsdc ≤ r.totalExposure s + max 0 total) (wsStale : Bool) :
    (r'.evaluate s m wsStale cost resting' (some total') now).2 =
      (r.evaluate s m wsStale cost resting (some total) now).2 := by
  have h := sameLedger_globalHalt r s now
  have h' := hsame.trans (sameLedger_globalHalt r' s now)
  unfold evaluate
  generalize r.globalHalt s now = halt at h hhalt ⊢
  generalize r'.globalHalt s now = halt' at h' hhalt ⊢
  obtain ⟨r₁, why⟩ := halt
  obtain ⟨r₂, why'⟩ := halt'
  simp only at hhalt h h'
  subst hhalt
  cases why' with
  | some why => rfl
  | none =>
    simp only [h.cfg, h'.cfg, h.marketNotional, h'.marketNotional, h.totalExposure,
      h'.totalExposure, hmarket, htotal]
    split_ifs <;> rfl

end RiskManager

namespace Engine

/-! ### What the second pass meets -/

section Meets

variable (e : Engine) (cid : ConditionId) (m : Market) (obs : Observation) (micro : ℚ)

/-- The risk manager once the gate was asked and a complete placement noted. -/
def settledRisk : RiskManager :=
  if e.posts cid obs = [] then (e.verdict m obs micro).1
  else (e.verdict m obs micro).1.noteOrderResult true obs.now

/-- The gate's verdict with the plan's own bids counted as resting. -/
def recheck : RiskDecision :=
  ({ e.valued m obs micro with risk := e.settledRisk cid m obs micro }.gate m obs
    (e.marketResting m.info + e.netBids cid m obs) (e.globalResting + e.netBids cid m obs)).2

/-- The targets under that verdict, the market's own state being brought up to date. -/
def again : TargetQuotes :=
  ((e.valued m obs micro).decideWith (e.decision m obs micro).1 obs micro (m.fairValue obs micro)
    (e.recheck cid m obs micro)).2.targets

end Meets

/-! ### What it reads -/

theorem eventGroupCost_congr {e e' : Engine}
    (hinfos : e'.markets.values.map Market.info = e.markets.values.map Market.info)
    (hpos : e'.store.positions = e.store.positions) (m : MarketMeta) :
    e'.eventGroupCost m = e.eventGroupCost m := by
  have hgroup : ∀ (k : Engine) (ev : String),
      (k.markets.values.filter fun k => decide (k.info.eventId = some ev)).flatMap
          (fun k => k.info.tokens) =
        ((k.markets.values.map Market.info).filter fun i => decide (i.eventId = some ev)).flatMap
          MarketMeta.tokens := by
    intro k ev
    rw [List.filter_map, List.flatMap_map]
    rfl
  unfold eventGroupCost
  cases m.eventId with
  | none => rfl
  | some ev => simp only [hgroup, hinfos, position_congr hpos]

theorem targets_decideWith_congr {e e' : Engine} (hpos : e'.store.positions = e.store.positions)
    (hsince : e'.positionSince = e.positionSince) (m : Market) (obs : Observation) (micro fv : ℚ)
    (rd : RiskDecision) :
    (e'.decideWith m obs micro fv rd).2.targets = (e.decideWith m obs micro fv rd).2.targets := by
  unfold decideWith regimeInputs quoteInputs heldS
  simp only [position_congr hpos, hsince]

/-! ### The engine it meets -/

variable {e : Engine} {cid : ConditionId} {m : Market} {obs : Observation} {ans : Answers}
  {micro : ℚ}

/-- A complete placement. -/
theorem placeQuotes_of_complete (e : Engine) (m : Market) {d : Decision}
    (hall : (e.placed d obs ans).length = (d.issued obs).length) :
    ∃ s', s'.positions = e.store.positions ∧ (e.placeQuotes m d obs ans).engine =
      { e with
        store := s'
        risk := if d.issued obs = [] then e.risk else e.risk.noteOrderResult true obs.now } := by
  unfold placed at hall
  unfold placeQuotes
  simp only [hall, lt_irrefl, if_false, BEq.rfl]
  split_ifs
  · exact ⟨e.store, rfl, rfl⟩
  · exact ⟨_, foldl_upsertOrder_positions _ e.store, rfl⟩

/-- **What the second pass meets**, beside the orders. -/
theorem engine_of_succeeds (hm : e.markets.get? cid = some m) (hsight : m.sight obs = .ok micro)
    (hs : e.Succeeds cid m obs ans) :
    (e.recompute cid obs ans).engine.markets.get? cid = some (e.decision m obs micro).1 ∧
      (e.recompute cid obs ans).engine.store.positions = e.store.positions ∧
      (e.recompute cid obs ans).engine.positionSince = e.positionSince ∧
      (e.recompute cid obs ans).engine.risk = e.settledRisk cid m obs micro := by
  obtain ⟨hd, hrec⟩ := recompute_of_ok ans hm hsight
  have hposts : e.posts cid obs = (e.decided cid m obs micro).2.issued obs := by rw [posts, hd]
  have hcancels : e.cancels cid m obs = (e.decided cid m obs micro).2.plan.toCancel := by
    rw [cancels, hd]
  have hall : (place e.execution ((e.decided cid m obs micro).2.issued obs) ans.place
      obs.now).length = ((e.decided cid m obs micro).2.issued obs).length := by
    rw [← hposts]
    exact hs.complete
  have hget : (e.decided cid m obs micro).1.markets.get? cid = some (e.decision m obs micro).1 := by
    show (e.markets.set cid (e.decision m obs micro).1).get? cid = _
    rw [Dict.get?_set, if_pos rfl]
  rw [hrec]
  unfold carryOut settledRisk
  rw [hposts]
  by_cases hnil : (e.decided cid m obs micro).2.plan.toCancel = []
  · obtain ⟨s', hpos, heq⟩ := placeQuotes_of_complete (e.decided cid m obs micro).1 m hall
    rw [if_pos hnil, heq]
    exact ⟨hget, hpos, rfl, rfl⟩
  · obtain ⟨s', hpos, heq⟩ := placeQuotes_of_complete
      ((e.decided cid m obs micro).1.dropOrders (e.decided cid m obs micro).2.plan.toCancel) m hall
    rw [if_neg hnil, if_pos (hs.cancelled (hcancels ▸ hnil))]
    simp only [heq]
    exact ⟨hget, hpos.trans (foldl_removeOrder_positions _ e.store), rfl, rfl⟩

/-- Setting the marks again changes nothing. -/
theorem mark_mark (e : Engine) {m : MarketMeta} (hne : m.yes ≠ m.no) {r : RiskManager} {fv : ℚ}
    (h : (e.mark m fv).risk.SameLedger r) :
    (r.updateMark m.yes fv).updateMark m.no (1 - fv) = r := by
  obtain ⟨w, rfl⟩ := h
  have hyes : ((e.risk.marks.set m.yes fv).set m.no (1 - fv)).set m.yes fv =
      (e.risk.marks.set m.yes fv).set m.no (1 - fv) := Dict.set_of_get? (by simp [hne])
  have hno : ((e.risk.marks.set m.yes fv).set m.no (1 - fv)).set m.no (1 - fv) =
      (e.risk.marks.set m.yes fv).set m.no (1 - fv) := Dict.set_of_get? (by simp)
  unfold mark RiskManager.updateMark
  simp only [hyes, hno]

theorem sameLedger_settledRisk (e : Engine) (cid : ConditionId) (m : Market) (obs : Observation)
    (micro : ℚ) : (e.valued m obs micro).risk.SameLedger (e.settledRisk cid m obs micro) := by
  have hverdict : (e.valued m obs micro).risk.SameLedger (e.verdict m obs micro).1 := by
    unfold verdict gate
    exact RiskManager.sameLedger_evaluate ..
  unfold settledRisk
  split_ifs
  · exact hverdict
  · exact hverdict.trans (RiskManager.sameLedger_noteOrderResult ..)

/-- The market's own state after a decision, in what the decision does not touch. -/
theorem decision_market (e : Engine) (m : Market) (obs : Observation) (micro : ℚ) :
    (e.decision m obs micro).1.info = m.info ∧ (e.decision m obs micro).1.profile = m.profile ∧
      (e.decision m obs micro).1.blind obs = m.blind obs := ⟨rfl, rfl, rfl⟩

/-- The gate's second verdict. -/
theorem verdict_of_succeeds (hk : e.store.Keyed) (hm : e.markets.get? cid = some m)
    (hsight : m.sight obs = .ok micro) (hne : m.info.yes ≠ m.info.no)
    (hs : e.Succeeds cid m obs ans) :
    ((e.recompute cid obs ans).engine.verdict (e.decision m obs micro).1 obs micro).2 =
      e.recheck cid m obs micro := by
  have hmarket := restingBuys_of_succeeds hk hm hs (List.Subset.refl m.info.tokens)
  have htotal := restingBuys_of_succeeds hk hm hs (tokens_subset_allTokens hm)
  have hinfos := infos_recompute e cid obs ans
  have htokens := allTokens_recompute e cid obs ans
  obtain ⟨hinfo, -, hblind⟩ := e.decision_market m obs micro
  obtain ⟨-, hpositions, -, hrisk⟩ := engine_of_succeeds hm hsight hs
  generalize (e.recompute cid obs ans).engine = e' at *
  generalize (e.decision m obs micro).1 = m' at *
  have hmarks : (e'.valued m' obs micro).risk = e.settledRisk cid m obs micro := by
    unfold valued Market.fairValue mark
    rw [hinfo, hrisk]
    exact e.mark_mark hne (e.sameLedger_settledRisk cid m obs micro)
  unfold verdict recheck gate
  rw [hmarks, hblind, hinfo, marketResting_eq e' hne, marketResting_eq e hne, globalResting_eq,
    globalResting_eq, htokens, hmarket, htotal]
  have hcost : (e'.valued m' obs micro).eventGroupCost m.info =
      { e.valued m obs micro with risk := e.settledRisk cid m obs micro }.eventGroupCost m.info :=
    eventGroupCost_congr hinfos hpositions m.info
  rw [hcost]
  exact congrArg Prod.snd (RiskManager.evaluate_congr _ hpositions ..)

/-- **The second pass** wants the targets `again`, and reconciles them with the orders the market
has now. -/
theorem second_decision (hk : e.store.Keyed) (hm : e.markets.get? cid = some m)
    (hsight : m.sight obs = .ok micro) (hne : m.info.yes ≠ m.info.no)
    (hs : e.Succeeds cid m obs ans) :
    ∃ d, (e.recompute cid obs ans).engine.decision? cid obs = some d ∧
      d.plan = reconcile (e.again cid m obs micro)
        ((e.recompute cid obs ans).engine.ordersOf m.info) (tolerance m) := by
  have hverdict := verdict_of_succeeds hk hm hsight hne hs
  obtain ⟨hinfo, hprofile, -⟩ := e.decision_market m obs micro
  obtain ⟨hget, hpositions, hsince, -⟩ := engine_of_succeeds hm hsight hs
  generalize (e.recompute cid obs ans).engine = e' at *
  unfold again
  generalize (e.decision m obs micro).1 = m' at *
  have hsight' : m'.sight obs = .ok micro := by
    rw [← hsight]
    unfold Market.sight
    rw [hprofile]
  refine ⟨_, decision?_of_ok hget hsight', ?_⟩
  have hfv : m'.fairValue obs micro = m.fairValue obs micro := by
    unfold Market.fairValue
    rw [hinfo]
  have htol : tolerance m' = tolerance m := by
    unfold tolerance
    rw [hinfo, hprofile]
  have htargets : (e'.decision m' obs micro).2.targets =
      ((e.valued m obs micro).decideWith m' obs micro (m.fairValue obs micro)
        (e.recheck cid m obs micro)).2.targets := by
    rw [← hverdict, ← hfv]
    exact targets_decideWith_congr hpositions hsince ..
  rw [← htargets, ← htol, ← hinfo]
  rfl

end Engine

end Polymaker
