import Mathlib.Algebra.Order.Ring.Rat
import Polymaker.Lib.Run
import Polymaker.Lib.Window
import Polymaker.Strategy.Regime

/-!
# Cooling off

A fresh event starts a cool-off, unless a hard halt comes first in `decide`.

* `RegimeInputs.Halts`, `RegimeInputs.Arms`: a hard halt, and a fresh event that is not under one;
* `machine_decide`, `rests_decide_iff`: what a call leaves of the machine, and when its regime lets
  orders rest;
* `eventUntil_run`: the end of the cool-off after a run of calls is that of the last event that
  armed it;
* `CoolsOff`: no call inside the cool-off of an event lets orders rest;
* `cool_off_iff`: that is so exactly where every such call that reaches the cool-off is inside that
  of an event which armed it.
-/

namespace Polymaker

variable {p : StrategyProfile}

/-- The regime lets orders rest: `QUIET`, `TRENDING` or `REDUCE_ONLY`. -/
def Regime.Rests (r : Regime) : Prop := r = .quiet ∨ r = .trending ∨ r = .reduceOnly

instance (r : Regime) : Decidable r.Rests := inferInstanceAs (Decidable (_ ∨ _))

namespace RegimeInputs

/-- A hard halt. -/
def Halts (i : RegimeInputs) (p : StrategyProfile) : Prop :=
  (i.riskHalt ∨ i.wsStale ∨ i.marketResolved) ∨ i.EndsWithin p.haltBeforeHours

instance (i : RegimeInputs) (p : StrategyProfile) : Decidable (i.Halts p) :=
  inferInstanceAs (Decidable (_ ∨ _))

/-- A fresh event that starts the cool-off: no hard halt is decided before it. -/
def Arms (i : RegimeInputs) (p : StrategyProfile) : Prop := ¬ i.Halts p ∧ i.FreshEvent p

instance (i : RegimeInputs) (p : StrategyProfile) : Decidable (i.Arms p) :=
  inferInstanceAs (Decidable (_ ∧ _))

end RegimeInputs

namespace RegimeMachine

/-! ### One call -/

theorem decide_of_halts (rm : RegimeMachine) {i : RegimeInputs} (h : i.Halts p) :
    rm.decide i p = (rm, .halted) := by
  unfold decide
  split_ifs with hhard hend
  · rfl
  · rfl
  all_goals exact absurd h (not_or.2 ⟨hhard, hend⟩)

/-- A call starts the cool-off anew, or leaves it alone. -/
theorem machine_decide (rm : RegimeMachine) (i : RegimeInputs) (p : StrategyProfile) :
    (rm.decide i p).1 = if i.Arms p then ⟨i.now + p.eventCooloffS⟩ else rm := by
  by_cases hhalts : i.Halts p
  · rw [decide_of_halts rm hhalts, if_neg fun harms => harms.1 hhalts]
  · obtain ⟨hhard, hend⟩ := not_or.1 hhalts
    unfold decide
    rw [if_neg hhard, if_neg hend]
    by_cases hfresh : i.FreshEvent p
    · rw [if_pos hfresh, if_pos ⟨hhalts, hfresh⟩]
    · have hidle : ¬ i.Arms p := fun harms => hfresh harms.2
      rw [if_neg hfresh, if_neg hidle]
      split_ifs <;> rfl

/-- Orders rest where there is no hard halt and no fresh event, and the cool-off is over. -/
theorem rests_decide_iff (rm : RegimeMachine) (i : RegimeInputs) (p : StrategyProfile) :
    (rm.decide i p).2.Rests ↔ ¬ i.Halts p ∧ ¬ i.FreshEvent p ∧ rm.eventUntil ≤ i.now := by
  have hcalm : (i.calmRegime p).Rests := by
    unfold RegimeInputs.calmRegime
    split_ifs
    · exact .inr (.inl rfl)
    · exact .inl rfl
  by_cases hhalts : i.Halts p
  · rw [decide_of_halts rm hhalts]
    simp [hhalts, Regime.Rests]
  · obtain ⟨hhard, hend⟩ := not_or.1 hhalts
    unfold decide
    rw [if_neg hhard, if_neg hend]
    by_cases hfresh : i.FreshEvent p
    · simp [hfresh, Regime.Rests]
    · by_cases hcool : i.now < rm.eventUntil
      · simp [hfresh, hcool, Regime.Rests]
      · rw [if_neg hfresh, if_neg hcool]
        refine iff_of_true ?_ ⟨hhalts, hfresh, not_lt.1 hcool⟩
        split_ifs
        · exact .inr (.inr rfl)
        · exact .inr (.inr rfl)
        · exact hcalm

/-! ### A run of calls -/

/-- The machine after a call. -/
def called (p : StrategyProfile) (rm : RegimeMachine) (i : RegimeInputs) : RegimeMachine :=
  (rm.decide i p).1

/-- **When the cool-off ends** after calls in time: with the cool-off of an event that armed it, the
last one, and where there is none, as it did before. -/
theorem eventUntil_run {rm : RegimeMachine} {calls : List RegimeInputs}
    (h : Window.InOrder RegimeInputs.now calls) {t : ℚ} :
    t < (Run.run (called p) rm calls).eventUntil ↔
      (∃ k ∈ calls, k.Arms p ∧ t < k.now + p.eventCooloffS) ∨
        (∀ k ∈ calls, ¬ k.Arms p) ∧ t < rm.eventUntil := by
  induction calls using List.reverseRecOn with
  | nil => simp
  | append_singleton calls c ih =>
    obtain ⟨hcalls, -, hbefore⟩ := List.pairwise_append.1 h
    rw [Run.run_append, Run.run_cons, Run.run_nil, called, machine_decide]
    by_cases harms : c.Arms p
    · -- no earlier event cools off for longer
      rw [if_pos harms]
      constructor
      · exact fun ht => .inl ⟨c, List.mem_append_right _ (List.mem_singleton_self c), harms, ht⟩
      · rintro (⟨k, hk, -, ht⟩ | ⟨hnone, -⟩)
        · rcases List.mem_append.1 hk with hk | hk
          · have hle := hbefore k hk c (List.mem_singleton_self c)
            exact ht.trans_le (add_le_add hle le_rfl)
          · rwa [List.mem_singleton.1 hk] at ht
        · exact absurd harms (hnone c (List.mem_append_right _ (List.mem_singleton_self c)))
    · rw [if_neg harms, ih hcalls]
      simp only [List.mem_append, List.mem_singleton, or_and_right, exists_or, exists_eq_left,
        or_imp, forall_and, forall_eq, harms, false_and, or_false,
        not_false_eq_true, and_true]

end RegimeMachine

open RegimeMachine

/-- From an event on, and up to the end of its cool-off, no call lets orders rest. -/
def CoolsOff (p : StrategyProfile) (rm : RegimeMachine) (calls : List RegimeInputs) : Prop :=
  ∀ before j later, calls = before ++ j :: later →
    ∀ i ∈ before ++ [j], i.FreshEvent p → j.now < i.now + p.eventCooloffS →
      ¬ ((Run.run (called p) rm before).decide j p).2.Rests

/-- A call with no hard halt and no fresh event that comes inside the cool-off of an earlier event
comes inside that of an earlier event which armed it; or none did, and the machine was cooling off
from the start. -/
def Shielded (p : StrategyProfile) (rm : RegimeMachine) (calls : List RegimeInputs) : Prop :=
  ∀ before j later, calls = before ++ j :: later → ¬ j.Halts p → ¬ j.FreshEvent p →
    (∃ i ∈ before, i.FreshEvent p ∧ j.now < i.now + p.eventCooloffS) →
    (∃ k ∈ before, k.Arms p ∧ j.now < k.now + p.eventCooloffS) ∨
      (∀ k ∈ before, ¬ k.Arms p) ∧ j.now < rm.eventUntil

/-- **An event buys its cool-off** exactly where every call that reaches it is shielded. -/
theorem cool_off_iff (p : StrategyProfile) (rm : RegimeMachine) {calls : List RegimeInputs}
    (h : Window.InOrder RegimeInputs.now calls) : CoolsOff p rm calls ↔ Shielded p rm calls := by
  refine forall_congr' fun before => forall_congr' fun j => forall_congr' fun later =>
    forall_congr' fun hsplit => ?_
  have hbefore : Window.InOrder RegimeInputs.now before :=
    (List.pairwise_append.1 (hsplit ▸ h)).1
  simp only [rests_decide_iff, not_and]
  constructor
  · rintro hcools hhalt hfresh ⟨i, hi, hevent, hinside⟩
    have hlate := hcools i (List.mem_append_left _ hi) hevent hinside hhalt hfresh
    exact (eventUntil_run hbefore).1 (not_le.1 hlate)
  · intro hshield i hi hevent hinside hhalt hfresh
    rcases List.mem_append.1 hi with hi | hi
    · exact not_le.2 ((eventUntil_run hbefore).2 (hshield hhalt hfresh ⟨i, hi, hevent, hinside⟩))
    · exact absurd (List.mem_singleton.1 hi ▸ hevent) hfresh

/-- Where no event comes under a hard halt, every call is shielded. -/
theorem shielded_of_unhalted {rm : RegimeMachine} {calls : List RegimeInputs}
    (h : ∀ i ∈ calls, i.FreshEvent p → ¬ i.Halts p) : Shielded p rm calls := by
  rintro before j later rfl - - ⟨i, hi, hevent, hinside⟩
  exact .inl ⟨i, hi, ⟨h i (List.mem_append_left _ hi) hevent, hevent⟩, hinside⟩

/-- A sweep with the market in sight, a stale feed half a minute later, and the feed back. -/
theorem cool_off_through_stale_feed :
    let call : RegimeInputs := ⟨0, 1 / 100, 1 / 2, some (1 / 2), 1, 0, 0, none, false, false, false,
      false, false⟩
    CoolsOff {} {} [{ call with sweepFlagged := true }, { call with now := 30, wsStale := true },
      { call with now := 40 }] := by
  intro call
  refine (cool_off_iff {} {} (by unfold Window.InOrder; decide +kernel)).2
    (shielded_of_unhalted ?_)
  decide +kernel

/-- A sweep while the feed is stale is answered by `HALTED` and starts no cool-off: a second later
the market is quoted again. -/
theorem not_coolsOff_of_sweep_under_halt :
    let call : RegimeInputs := ⟨0, 1 / 100, 1 / 2, some (1 / 2), 1, 0, 0, none, false, false, false,
      false, false⟩
    let sweep : RegimeInputs := { call with sweepFlagged := true, wsStale := true }
    let next : RegimeInputs := { call with now := 1 }
    let p : StrategyProfile := {}
    p.eventCooloffS = 60 ∧
      (({} : RegimeMachine).decide sweep p).2 = .halted ∧
      ((({} : RegimeMachine).decide sweep p).1.decide next p).2 = .quiet ∧
      ¬ CoolsOff p {} [sweep, next] := by
  intro call sweep next p
  refine ⟨by decide +kernel, by decide +kernel, by decide +kernel, fun h => ?_⟩
  exact h [sweep] next [] rfl sweep (by simp) (by decide +kernel) (by decide +kernel)
    (by decide +kernel)

end Polymaker
