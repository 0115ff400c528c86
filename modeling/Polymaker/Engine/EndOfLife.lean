import Mathlib.Tactic.Linarith
import Polymaker.Engine.Recompute
import Polymaker.Strategy.CoolOff

/-!
# The end of a market's life

`_hours_to_end` counts down to the end date, and answers nothing once it has passed: a past date on
a market that still trades is taken for a placeholder.

* `FedBy`: the inputs of a decision whose hours are those of an end date;
* `hoursToEnd_of_past`, `endsWithin_mono`: the hours of a date that has passed, and of one to come;
* `halt_lasts_until_end`: the halt before the end lasts until the end date, and no longer.
-/

namespace Polymaker

variable {endDate : Option ℚ} {i j : RegimeInputs}

/-- The hours the decision reads are those to the end date. -/
def FedBy (endDate : Option ℚ) (i : RegimeInputs) : Prop :=
  i.hoursToEnd = hoursToEnd endDate i.now

theorem hoursToEnd_of_past {t now : ℚ} (h : t ≤ now) : hoursToEnd (some t) now = none := by
  have hpast : ¬ 0 < (t - now) / 3600 := by
    rw [not_lt]
    exact div_nonpos_of_nonpos_of_nonneg (sub_nonpos.2 h) (by norm_num)
  exact if_neg hpast

theorem hoursToEnd_of_lt {t now : ℚ} (h : now < t) :
    hoursToEnd (some t) now = some ((t - now) / 3600) :=
  if_pos (div_pos (sub_pos.2 h) (by norm_num))

/-- Inside a window before the end date, and so is any later time before that date. -/
theorem endsWithin_mono {t hours : ℚ} (hi : FedBy (some t) i) (hj : FedBy (some t) j)
    (hle : i.now ≤ j.now) (hlt : j.now < t) (h : i.EndsWithin hours) : j.EndsWithin hours := by
  obtain ⟨left, hleft, hinside⟩ := h
  rw [Option.mem_def, hi, hoursToEnd_of_lt (hle.trans_lt hlt), Option.some.injEq] at hleft
  refine ⟨(t - j.now) / 3600, ?_, ?_⟩
  · rw [Option.mem_def, hj, hoursToEnd_of_lt hlt]
  · have hdown : (t - j.now) / 3600 ≤ (t - i.now) / 3600 := by linarith
    exact hdown.trans (hleft ▸ hinside)

namespace RegimeMachine

/-- **The halt before the end of a market** lasts until the end date, whatever else is read; from
that date on a decision is made as where no end is known. -/
theorem halt_lasts_until_end (endDate : Option ℚ) (p : StrategyProfile) (rm rm' : RegimeMachine)
    (hi : FedBy endDate i) (hj : FedBy endDate j) (hle : i.now ≤ j.now)
    (hinside : i.EndsWithin p.haltBeforeHours) :
    (rm.decide i p).2 = .halted ∧
      ∃ t, endDate = some t ∧ (j.now < t → (rm'.decide j p).2 = .halted) ∧
        (t ≤ j.now → rm'.decide j p = rm'.decide { j with hoursToEnd := none } p) := by
  refine ⟨by rw [decide_of_halts rm (.inr hinside)], ?_⟩
  cases endDate with
  | none =>
    obtain ⟨left, hleft, -⟩ := hinside
    rw [Option.mem_def, hi] at hleft
    cases hleft
  | some t =>
    refine ⟨t, rfl, fun hlt => ?_, fun hpast => ?_⟩
    · rw [decide_of_halts rm' (.inr (endsWithin_mono hi hj hle hlt hinside))]
    · have hnone : j.hoursToEnd = none := hj.trans (hoursToEnd_of_past hpast)
      rw [← hnone]

/-- Two hours before its end a market is halted, and an hour before it still. -/
theorem halt_lasts_until_end_hour_before :
    let call : RegimeInputs := ⟨0, 1 / 100, 1 / 2, none, 1, 0, 0, some 2, false, false, false,
      false, false⟩
    let later : RegimeInputs := { call with now := 3600, hoursToEnd := some 1 }
    let p : StrategyProfile := {}
    (({} : RegimeMachine).decide later p).2 = .halted := by
  intro call later p
  obtain ⟨-, t, ht, hbefore, -⟩ := halt_lasts_until_end (i := call) (j := later) (some 7200) p {} {}
    (by unfold FedBy; decide +kernel) (by unfold FedBy; decide +kernel) (by decide +kernel)
    (by decide +kernel)
  cases ht
  exact hbefore (by decide +kernel)

/-- A minute before its end a market is halted, and a minute after it is quoted. -/
theorem not_halted_past_end :
    let call : RegimeInputs := ⟨0, 1 / 100, 1 / 2, none, 1, 0, 0, some (1 / 60), false, false,
      false, false, false⟩
    let later : RegimeInputs := { call with now := 120, hoursToEnd := none }
    let p : StrategyProfile := {}
    FedBy (some 60) call ∧ FedBy (some 60) later ∧ 0 ≤ p.haltBeforeHours ∧
      call.EndsWithin p.haltBeforeHours ∧ (({} : RegimeMachine).decide call p).2 = .halted ∧
      (({} : RegimeMachine).decide later p).2 = .quiet := by
  unfold FedBy
  decide +kernel

end RegimeMachine

end Polymaker
