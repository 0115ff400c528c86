import Mathlib.Algebra.Order.Ring.Rat
import Mathlib.Algebra.Order.Group.Abs
import Mathlib.Tactic.Common
import Polymaker.Config
import Polymaker.Domain

/-!
# The regime machine

`RegimeMachine` of `strategy/regime.py`: one market's quoting regime, decided by priority.

* `RegimeInputs`, `RegimeMachine.decide`: the decision, which remembers the end of a cooloff;
* `FreshEvent`: a sweep, or a jump of fair value;
* `Calm`, `calm_of_decide`, `decide_of_calm`: a decision to quote both sides was made with every
  gate open, and then depends on the flow and the volatility ratio alone;
* `decide_again`: deciding again at the same fair value gives the same regime.
-/

namespace Polymaker

/-- What a decision reads. -/
structure RegimeInputs where
  now : ℚ
  tick : ℚ
  fv : ℚ
  prevFv : Option ℚ
  volRatio : ℚ
  flowZ : ℚ
  inventoryUtil : ℚ
  hoursToEnd : Option ℚ
  sweepFlagged : Bool := false
  marketResolved : Bool := false
  wsStale : Bool := false
  riskHalt : Bool := false
  riskReduceOnly : Bool := false
  deriving DecidableEq, Repr

/-- The machine's own state: when the `EVENT` cooloff ends. -/
structure RegimeMachine where
  eventUntil : ℚ := 0
  deriving DecidableEq, Repr

namespace RegimeInputs

/-- The move of fair value, in ticks. -/
def jumpTicks (i : RegimeInputs) : ℚ :=
  match i.prevFv with
  | some prev => |i.fv - prev| / i.tick
  | none => 0

/-- The end is known and at most `h` hours away. -/
def EndsWithin (i : RegimeInputs) (h : ℚ) : Prop := ∃ t ∈ i.hoursToEnd, t ≤ h

instance (i : RegimeInputs) (h : ℚ) : Decidable (i.EndsWithin h) :=
  inferInstanceAs (Decidable (∃ t ∈ i.hoursToEnd, t ≤ h))

/-- A sweep, or a jump of fair value. -/
def FreshEvent (i : RegimeInputs) (p : StrategyProfile) : Prop :=
  i.sweepFlagged = true ∨ (p.eventJumpTicks : ℚ) ≤ i.jumpTicks

instance (i : RegimeInputs) (p : StrategyProfile) : Decidable (i.FreshEvent p) :=
  inferInstanceAs (Decidable (_ ∨ _))

/-- The regime of a market that quotes both sides. -/
def calmRegime (i : RegimeInputs) (p : StrategyProfile) : Regime :=
  if p.trendFlowZ ≤ |i.flowZ| ∨ p.trendVolRatio ≤ i.volRatio then .trending else .quiet

end RegimeInputs

/-- `decide`. -/
def RegimeMachine.decide (rm : RegimeMachine) (i : RegimeInputs) (p : StrategyProfile) :
    RegimeMachine × Regime :=
  -- hard halts
  if i.riskHalt ∨ i.wsStale ∨ i.marketResolved then (rm, .halted)
  else if i.EndsWithin p.haltBeforeHours then (rm, .halted)
  -- events
  else if i.FreshEvent p then (⟨i.now + p.eventCooloffS⟩, .event)
  else if i.now < rm.eventUntil then (rm, .event)
  -- reduce-only
  else if i.riskReduceOnly ∨ 1 ≤ i.inventoryUtil then (rm, .reduceOnly)
  else if i.EndsWithin p.reduceOnlyHours then (rm, .reduceOnly)
  -- trending, and the default
  else (rm, i.calmRegime p)

/-- Every gate of the machine is open. -/
structure RegimeMachine.Calm (rm : RegimeMachine) (i : RegimeInputs) (p : StrategyProfile) :
    Prop where
  unhalted : ¬ (i.riskHalt ∨ i.wsStale ∨ i.marketResolved)
  far_from_halt : ¬ i.EndsWithin p.haltBeforeHours
  uneventful : ¬ i.FreshEvent p
  cooled : rm.eventUntil ≤ i.now
  adding : ¬ (i.riskReduceOnly ∨ 1 ≤ i.inventoryUtil)
  far_from_end : ¬ i.EndsWithin p.reduceOnlyHours

/-- A market that quotes both sides passed every gate. -/
theorem RegimeMachine.calm_of_decide {rm : RegimeMachine} {i : RegimeInputs} {p : StrategyProfile}
    (h : (rm.decide i p).2 = .trending ∨ (rm.decide i p).2 = .quiet) : rm.Calm i p := by
  unfold decide at h
  split_ifs at h with hhalt hnear hfresh hcool hreduce hend
  all_goals first
    | exact ⟨hhalt, hnear, hfresh, not_lt.1 hcool, hreduce, hend⟩
    | simp at h

/-- Its regime then depends on the flow and the volatility ratio alone. -/
theorem RegimeMachine.decide_of_calm {rm : RegimeMachine} {i : RegimeInputs} {p : StrategyProfile}
    (h : rm.Calm i p) : rm.decide i p = (rm, i.calmRegime p) := by
  unfold decide
  rw [if_neg h.unhalted, if_neg h.far_from_halt, if_neg h.uneventful, if_neg h.cooled.not_gt,
    if_neg h.adding, if_neg h.far_from_end]

/-- The inputs of a second decision at the same fair value: the sweep flag is consumed, and fair
value did not move. -/
def RegimeInputs.again (i : RegimeInputs) : RegimeInputs :=
  { i with prevFv := some i.fv, sweepFlagged := false }

/-- Nothing is fresh again that was not fresh before. -/
theorem RegimeInputs.freshEvent_of_again {i : RegimeInputs} {p : StrategyProfile}
    (htick : 0 ≤ i.tick) (h : i.again.FreshEvent p) : i.FreshEvent p := by
  have hjump : 0 ≤ i.jumpTicks := by
    unfold jumpTicks
    split
    · exact div_nonneg (abs_nonneg _) htick
    · exact le_refl 0
  have hzero : i.again.jumpTicks = 0 := by
    unfold jumpTicks again
    simp
  rcases h with hsweep | hmove
  · cases hsweep
  · rw [hzero] at hmove
    exact .inr (hmove.trans hjump)

/-- **Deciding again** gives the same regime, where a fresh event starts a cooloff. -/
theorem RegimeMachine.decide_again (rm : RegimeMachine) {i : RegimeInputs} {p : StrategyProfile}
    (htick : 0 ≤ i.tick) (hcooloff : i.FreshEvent p → 0 < p.eventCooloffS) :
    ((rm.decide i p).1.decide i.again p).2 = (rm.decide i p).2 := by
  have hfresh := RegimeInputs.freshEvent_of_again (p := p) htick
  have hends : ∀ h, i.again.EndsWithin h ↔ i.EndsWithin h := fun _ => Iff.rfl
  by_cases hhalt : i.riskHalt ∨ i.wsStale ∨ i.marketResolved
  · have hhalt' : i.again.riskHalt ∨ i.again.wsStale ∨ i.again.marketResolved := hhalt
    unfold decide
    simp only [if_pos hhalt, if_pos hhalt']
  · have hhalt' : ¬ (i.again.riskHalt ∨ i.again.wsStale ∨ i.again.marketResolved) := hhalt
    by_cases hnear : i.EndsWithin p.haltBeforeHours
    · unfold decide
      simp only [if_neg hhalt, if_neg hhalt', hends, if_pos hnear]
    · by_cases hevent : i.FreshEvent p
      · -- the cooloff has just begun
        have hlater : i.again.now < i.now + p.eventCooloffS :=
          lt_add_of_pos_right _ (hcooloff hevent)
        unfold decide
        simp only [if_neg hhalt, if_neg hhalt', hends, if_neg hnear, if_pos hevent, if_pos hlater]
        split_ifs <;> rfl
      · have hquiet : ¬ i.again.FreshEvent p := fun h => hevent (hfresh h)
        have hstay : (rm.decide i p).1 = rm := by
          unfold decide
          simp only [if_neg hhalt, if_neg hnear, if_neg hevent]
          split_ifs <;> rfl
        have hsame : rm.decide i.again p = rm.decide i p := by
          unfold decide
          simp only [if_neg hhalt, if_neg hhalt', hends, if_neg hnear, if_neg hevent,
            if_neg hquiet]
          rfl
        rw [hstay, hsame]

end Polymaker
