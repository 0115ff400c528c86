import Polymaker.Engine.Frame
import Polymaker.Lib.Run
import Polymaker.Strategy.CoolOff

/-!
# The gates before an entry

What a recompute quotes is a composition of three components: `RiskManager.evaluate`, the regime
machine, and the quoter.  A bid comes out of it only past every gate of all three.

* `Composition`: what the three read, `Composition.targets`: what comes out, and
  `Engine.targets_eq_composition`: a recompute quotes it;
* `RegimeMachine.after`: a machine after earlier decisions, `CoolingOff`: they left a cooloff
  running;
* `Composition.GatesOpen`: every gate is open, `QuoteInputs.InsideSoftCap`: so is the soft cap of
  the leg;
* `entry_gates`: a bid is quoted past open gates only.
-/

namespace Polymaker

/-! ### The composition -/

/-- What the gate, the regime machine and the quoter read. -/
structure Composition where
  risk : RiskManager
  store : StateStore
  wsStale : Bool
  eventGroupCost : ℚ
  resting : ℚ
  globalResting : Option ℚ
  now : ℚ
  regimeInputs : RegimeInputs
  quoteInputs : QuoteInputs

namespace Composition

variable (c : Composition)

/-- The verdict of the gate. -/
def verdict : RiskManager.RiskDecision :=
  (c.risk.evaluate c.store c.quoteInputs.m c.wsStale c.eventGroupCost c.resting c.globalResting
    c.now).2

/-- The inputs of the regime machine, with the verdict. -/
def judged : RegimeInputs :=
  { c.regimeInputs with
    wsStale := c.wsStale
    riskHalt := c.verdict.halt
    riskReduceOnly := c.verdict.reduceOnly }

/-- What is quoted from a state of the regime machine. -/
def targets (rm : RegimeMachine) : TargetQuotes :=
  constructQuotes
    { c.quoteInputs with
      regime := (rm.decide c.judged c.quoteInputs.profile).2
      riskSizeScale := c.verdict.sizeScale }

end Composition

/-- A recompute quotes the composition of its own inputs. -/
theorem Engine.targets_eq_composition (e : Engine) (m : Market) (obs : Observation) (micro : ℚ) :
    ∃ c : Composition, c.risk = (e.valued m obs micro).risk ∧ c.store = e.store ∧
      c.wsStale = m.blind obs ∧ c.eventGroupCost = e.eventGroupCost m.info ∧
      c.resting = e.marketResting m.info ∧ c.globalResting = some e.globalResting ∧
      c.quoteInputs.m = m.info ∧ c.quoteInputs.profile = m.profile ∧
      (e.decision m obs micro).2.targets = c.targets m.regime :=
  ⟨{ risk := (e.valued m obs micro).risk
     store := e.store
     wsStale := m.blind obs
     eventGroupCost := e.eventGroupCost m.info
     resting := e.marketResting m.info
     globalResting := some e.globalResting
     now := obs.now
     regimeInputs := (e.valued m obs micro).regimeInputs m obs (m.fairValue obs micro)
       (e.verdict m obs micro).2
     quoteInputs := (e.valued m obs micro).quoteInputs m obs micro (m.fairValue obs micro)
       (e.verdict m obs micro).2 .quiet },
    rfl, rfl, rfl, rfl, rfl, rfl, rfl, rfl, rfl⟩

/-! ### Cooloffs -/

/-- An earlier decision: its inputs, and the profile it was made with. -/
abbrev EarlierDecision := RegimeInputs × StrategyProfile

/-- The machine after a decision. -/
def RegimeMachine.next (rm : RegimeMachine) (d : EarlierDecision) : RegimeMachine :=
  (rm.decide d.1 d.2).1

/-- The machine of a market after its earlier decisions. -/
def RegimeMachine.after (earlier : List EarlierDecision) : RegimeMachine :=
  Run.run RegimeMachine.next {} earlier

/-- The decision starts a cooloff: it is not halted, and sees a sweep or a jump. -/
def StartsCooloff (d : EarlierDecision) : Prop :=
  ¬ (d.1.riskHalt ∨ d.1.wsStale ∨ d.1.marketResolved) ∧ ¬ d.1.EndsWithin d.2.haltBeforeHours ∧
    d.1.FreshEvent d.2

/-- An earlier decision started a cooloff that no later one replaced, and it still runs. -/
def CoolingOff (earlier : List EarlierDecision) (now : ℚ) : Prop :=
  ∃ before d later, earlier = before ++ d :: later ∧ StartsCooloff d ∧
    (∀ k ∈ later, ¬ StartsCooloff k) ∧ now < d.1.now + d.2.eventCooloffS

theorem startsCooloff_iff {d : EarlierDecision} : StartsCooloff d ↔ d.1.Arms d.2 := by
  unfold StartsCooloff RegimeInputs.Arms RegimeInputs.Halts
  rw [not_or (p := _ ∨ _), and_assoc]

theorem RegimeMachine.next_of_startsCooloff (rm : RegimeMachine) {d : EarlierDecision}
    (h : StartsCooloff d) : rm.next d = ⟨d.1.now + d.2.eventCooloffS⟩ := by
  rw [next, machine_decide, if_pos (startsCooloff_iff.1 h)]

theorem RegimeMachine.next_of_not_startsCooloff (rm : RegimeMachine) {d : EarlierDecision}
    (h : ¬ StartsCooloff d) : rm.next d = rm := by
  rw [next, machine_decide, if_neg fun harms => h (startsCooloff_iff.2 harms)]

/-- Decisions that start no cooloff leave the machine as it is. -/
theorem RegimeMachine.run_of_not_startsCooloff (rm : RegimeMachine) {ds : List EarlierDecision}
    (h : ∀ d ∈ ds, ¬ StartsCooloff d) : Run.run RegimeMachine.next rm ds = rm := by
  induction ds with
  | nil => rfl
  | cons d ds ih =>
    obtain ⟨hd, hds⟩ := List.forall_mem_cons.1 h
    rw [Run.run_cons, rm.next_of_not_startsCooloff hd, ih hds]

/-- The machine remembers a cooloff that still runs. -/
theorem RegimeMachine.lt_eventUntil_of_coolingOff {earlier : List EarlierDecision} {now : ℚ}
    (h : CoolingOff earlier now) : now < (RegimeMachine.after earlier).eventUntil := by
  obtain ⟨before, d, later, rfl, hstart, hlater, hnow⟩ := h
  unfold after
  rw [Run.run_append, Run.run_cons, run_of_not_startsCooloff _ hlater,
    next_of_startsCooloff _ hstart]
  exact hnow

/-! ### The gates of the manager -/

namespace RiskManager

variable {r : RiskManager} {s : StateStore}

theorem gates_of_globalHalt {now : ℚ} (h : (r.globalHalt s now).2 = none) :
    r.killed = false ∧ ¬ r.DailyLossHit s ∧ (r.errorRate now).2 < r.cfg.maxOrderErrorRate := by
  unfold globalHalt at h
  split_ifs at h with hkilled hloss
  rcases hrate : r.errorRate now with ⟨r', rate⟩
  simp only [hrate] at h
  split_ifs at h with hlimit
  exact ⟨by simpa using hkilled, hloss, not_le.1 hlimit⟩

/-- The notionals the gate compares with its caps are below them. -/
structure BelowCaps (r : RiskManager) (s : StateStore) (m : MarketMeta) (eventGroupCost resting
    globalResting : ℚ) : Prop where
  market : r.marketNotional s m + resting < r.cfg.maxMarketNotionalUsdc
  eventGroup : eventGroupCost < r.cfg.maxEventGroupLossUsdc
  total : r.totalExposure s + globalResting < r.cfg.maxTotalExposureUsdc

/-- A verdict that neither halts nor reduces passed every gate of the manager. -/
theorem gates_of_evaluate {m : MarketMeta} {wsStale : Bool} {cost resting : ℚ}
    {globalResting : Option ℚ} {now : ℚ}
    (hhalt : (r.evaluate s m wsStale cost resting globalResting now).2.halt = false)
    (hreduce : (r.evaluate s m wsStale cost resting globalResting now).2.reduceOnly = false) :
    (r.globalHalt s now).2 = none ∧ wsStale = false ∧
      r.BelowCaps s m cost resting (globalResting.getD resting) := by
  have hsame := sameLedger_globalHalt r s now
  unfold evaluate at hhalt hreduce
  rcases hglobal : r.globalHalt s now with ⟨r', _ | why⟩
  · rw [hglobal] at hsame hhalt hreduce
    simp only at hsame hhalt hreduce
    split_ifs at hhalt hreduce with hstale hmarket hevent htotal
    rw [hsame.cfg, hsame.marketNotional, not_le] at hmarket
    rw [hsame.cfg, not_le] at hevent
    rw [hsame.cfg, hsame.totalExposure, not_le] at htotal
    refine ⟨rfl, by simpa using hstale, ?_, hevent, ?_⟩
    · have hle := le_max_right 0 resting
      linarith
    · refine lt_of_le_of_lt (add_le_add_right ?_ _) htotal
      cases globalResting <;> exact le_max_right _ _
  · rw [hglobal] at hhalt
    cases hhalt

end RiskManager

/-! ### The gates of the composition -/

/-- Every gate of the three components is open, from the earlier decisions of the market on. -/
structure Composition.GatesOpen (c : Composition) (earlier : List EarlierDecision) : Prop where
  unkilled : c.risk.killed = false
  no_daily_loss : ¬ c.risk.DailyLossHit c.store
  error_rate : (c.risk.errorRate c.now).2 < c.risk.cfg.maxOrderErrorRate
  unstale : c.wsStale = false
  below_caps : c.risk.BelowCaps c.store c.quoteInputs.m c.eventGroupCost c.resting
    (c.globalResting.getD c.resting)
  unswept : c.regimeInputs.sweepFlagged = false
  no_jump : c.regimeInputs.jumpTicks < c.quoteInputs.profile.eventJumpTicks
  cooled : (RegimeMachine.after earlier).eventUntil ≤ c.regimeInputs.now
  not_cooling_off : ¬ CoolingOff earlier c.regimeInputs.now
  below_util : c.regimeInputs.inventoryUtil < 1
  far_from_end : ∀ hours ∈ c.regimeInputs.hoursToEnd,
    c.quoteInputs.profile.haltBeforeHours < hours ∧ c.quoteInputs.profile.reduceOnlyHours < hours

/-- The leg of a quote is inside its soft cap. -/
def QuoteInputs.InsideSoftCap (i : QuoteInputs) (q : Quote) : Prop :=
  q.tokenId = i.m.yes ∧ i.u < i.profile.qSoftFrac ∨
    q.tokenId = i.m.no ∧ -i.u < i.profile.qSoftFrac

theorem insideSoftCap_of_mem_constructQuotes {i : QuoteInputs} {q : Quote}
    (h : q ∈ (constructQuotes i).quotes) (hbuy : q.side = .buy) : i.InsideSoftCap q := by
  have hentry := mem_entries_of_buy h hbuy
  unfold QuoteInputs.entries at hentry
  rcases List.mem_append.1 hentry with hleg | hleg
  · split_ifs at hleg with hyes
    · exact .inl ⟨(mem_entryQuotes hleg).1, hyes.2⟩
    · exact absurd hleg List.not_mem_nil
  · split_ifs at hleg with hno
    · exact .inr ⟨(mem_entryQuotes hleg).1, neg_lt.1 hno.2⟩
    · exact absurd hleg List.not_mem_nil

/-- **Entries appear only when every gate is open.**  For every state, profile and sequence of
earlier decisions of the market's regime machine, a bid among the targets of the composition is
quoted past open gates, and inside the soft cap of its leg. -/
theorem entry_gates (c : Composition) (earlier : List EarlierDecision) {q : Quote}
    (hq : q ∈ (c.targets (.after earlier)).quotes) (hbuy : q.side = .buy) :
    c.GatesOpen earlier ∧ c.quoteInputs.InsideSoftCap q := by
  have hcalm := RegimeMachine.calm_of_decide (calm_of_buy_mem hq hbuy)
  have hsoft := insideSoftCap_of_mem_constructQuotes hq hbuy
  have hhalt : c.verdict.halt = false := Bool.eq_false_iff.2 fun h => hcalm.unhalted (.inl h)
  have hreduce : c.verdict.reduceOnly = false :=
    Bool.eq_false_iff.2 fun h => hcalm.adding (.inl h)
  obtain ⟨hglobal, hstale, hcaps⟩ := RiskManager.gates_of_evaluate hhalt hreduce
  obtain ⟨hkilled, hloss, hrate⟩ := RiskManager.gates_of_globalHalt hglobal
  have hevent : ¬ (c.regimeInputs.sweepFlagged = true ∨
      (c.quoteInputs.profile.eventJumpTicks : ℚ) ≤ c.regimeInputs.jumpTicks) := hcalm.uneventful
  rw [not_or, not_le] at hevent
  have hutil : ¬ 1 ≤ c.regimeInputs.inventoryUtil := fun h => hcalm.adding (.inr h)
  refine ⟨?_, hsoft⟩
  exact
    { unkilled := hkilled
      no_daily_loss := hloss
      error_rate := hrate
      unstale := hstale
      below_caps := hcaps
      unswept := Bool.eq_false_iff.2 hevent.1
      no_jump := hevent.2
      cooled := hcalm.cooled
      not_cooling_off := fun h => hcalm.cooled.not_gt (RegimeMachine.lt_eventUntil_of_coolingOff h)
      below_util := not_le.1 hutil
      far_from_end := fun hours hhours =>
        ⟨not_le.1 fun h => hcalm.far_from_halt ⟨hours, hhours, h⟩,
          not_le.1 fun h => hcalm.far_from_end ⟨hours, hhours, h⟩⟩ }

/-- A market that bids a hundred seconds after a sweep, and 30 hours before its end. -/
theorem entry_gates_of_cooled_sweep :
    let m : MarketMeta := ⟨"c", "yes", "no", 1 / 100, 5, 0, 0, none, none⟩
    let view := (OrderBook.ofTouch (48 / 100) (52 / 100) 100).view
    let ri : RegimeInputs :=
      { now := 100, tick := 1 / 100, fv := 1 / 2, prevFv := some (51 / 100), volRatio := 0
        flowZ := 0, inventoryUtil := 0, hoursToEnd := some 30 }
    let qi : QuoteInputs :=
      ⟨m, .quiet, 1 / 2, 0, 0, view, view, .flat, .flat, {}, 100, 1, 0, 0, 1 / 2⟩
    let c : Composition := ⟨.new {}, .open .fresh, false, 0, 0, none, 100, ri, qi⟩
    let earlier : List EarlierDecision := [({ ri with now := 0, sweepFlagged := true }, {})]
    c.GatesOpen earlier ∧ qi.InsideSoftCap ⟨"yes", .buy, 48 / 100, 5208 / 100⟩ := by
  intro m view ri qi c earlier
  have hq : (⟨"yes", .buy, 48 / 100, 5208 / 100⟩ : Quote) ∈
      (c.targets (.after earlier)).quotes := by
    decide +kernel
  exact entry_gates c earlier hq rfl

end Polymaker
