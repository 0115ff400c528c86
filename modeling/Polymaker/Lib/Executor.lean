import Polymaker.Lib.Run
import Mathlib.Data.List.Perm.Basic
import Mathlib.Data.List.Perm.Subperm
import Mathlib.Tactic.Common

/-!
# A bounded crew of workers

Calls are queued, and a bounded number of workers takes them up in order; a call that was not taken
up can be withdrawn, one that was runs to its end.  Once the crew is shut down it takes no more
calls, those queued are dropped, and those running still end.

* `Crew`, `Order`, `step`: the calls queued, running and ended, and what happens to them;
* `length_running_run_le`: no more calls run than there are workers;
* `Closed`, `closed_run`: shut down, with nothing queued;
* `exists_ended_of_closed`: from then on only calls end that were running.
-/

namespace Executor

variable {κ : Type*}

/-- The calls queued and running, whether the crew is shut down, and the calls that ended. -/
structure Crew (κ : Type*) where
  queued : List κ
  running : List κ
  isShut : Bool
  ended : List κ

/-- What happens to a crew. -/
inductive Order (κ : Type*)
  | submit (c : κ)
  | take
  | finish (i : ℕ)
  | withdraw (i : ℕ)
  | shutDown

/-- Nothing has been submitted. -/
def idle : Crew κ := ⟨[], [], false, []⟩

namespace Crew

/-- A call is queued, unless the crew is shut down. -/
def submit (w : Crew κ) (c : κ) : Crew κ :=
  if w.isShut then w else { w with queued := w.queued ++ [c] }

/-- A free worker takes up the first call of the queue. -/
def take (w : Crew κ) (size : ℕ) : Crew κ :=
  match w.queued with
  | [] => w
  | c :: rest =>
    if w.running.length < size then { w with queued := rest, running := w.running ++ [c] } else w

/-- A running call ends. -/
def finish (w : Crew κ) (i : ℕ) : Crew κ :=
  match w.running[i]? with
  | none => w
  | some c => { w with running := w.running.eraseIdx i, ended := w.ended ++ [c] }

/-- A queued call is given up. -/
def withdraw (w : Crew κ) (i : ℕ) : Crew κ := { w with queued := w.queued.eraseIdx i }

/-- The crew is shut down, and drops what is queued. -/
def shutDown (w : Crew κ) : Crew κ := { w with queued := [], isShut := true }

end Crew

/-- One order to a crew of `size` workers. -/
def step (size : ℕ) (w : Crew κ) : Order κ → Crew κ
  | .submit c => w.submit c
  | .take => w.take size
  | .finish i => w.finish i
  | .withdraw i => w.withdraw i
  | .shutDown => w.shutDown

variable {size : ℕ} {w : Crew κ}

/-! ### The workers -/

theorem length_running_step_le (h : w.running.length ≤ size) (o : Order κ) :
    (step size w o).running.length ≤ size := by
  cases o with
  | submit c =>
    change (w.submit c).running.length ≤ size
    unfold Crew.submit
    split_ifs <;> exact h
  | take =>
    change (w.take size).running.length ≤ size
    unfold Crew.take
    split
    · exact h
    · split_ifs with hfree
      · rw [List.length_append, List.length_singleton]
        exact hfree
      · exact h
  | finish i =>
    change (w.finish i).running.length ≤ size
    unfold Crew.finish
    split
    · exact h
    · exact (List.length_eraseIdx_le ..).trans h
  | withdraw i => exact h
  | shutDown => exact h

/-- **No more calls run than there are workers.** -/
theorem length_running_run_le (size : ℕ) (os : List (Order κ)) :
    (Run.run (step size) idle os).running.length ≤ size :=
  Run.run_of_forall_mem (P := fun w : Crew κ => w.running.length ≤ size)
    (fun _ o _ h => length_running_step_le h o) (Nat.zero_le size)

/-! ### After the end -/

/-- The crew is shut down, and nothing is queued. -/
structure Closed (w : Crew κ) : Prop where
  isShut : w.isShut = true
  queued : w.queued = []

variable (size) in
/-- What one order does to a closed crew: a running call may end. -/
theorem step_of_closed (h : Closed w) (o : Order κ) :
    Closed (step size w o) ∧ ∃ l, (step size w o).ended = w.ended ++ l ∧
      (l ++ (step size w o).running).Perm w.running := by
  have hsame : ∀ w' : Crew κ, w' = w → Closed w' ∧ ∃ l, w'.ended = w.ended ++ l ∧
      (l ++ w'.running).Perm w.running := by
    rintro w' rfl
    exact ⟨h, [], (List.append_nil _).symm, .refl _⟩
  cases o with
  | submit c => exact hsame _ (if_pos h.isShut)
  | take =>
    refine hsame _ ?_
    change w.take size = w
    unfold Crew.take
    rw [h.queued]
  | finish i =>
    cases hi : w.running[i]? with
    | none =>
      refine hsame _ ?_
      change w.finish i = w
      unfold Crew.finish
      rw [hi]
    | some c =>
      have hfinish : step size w (.finish i) =
          { w with running := w.running.eraseIdx i, ended := w.ended ++ [c] } := by
        change w.finish i = _
        unfold Crew.finish
        rw [hi]
      obtain ⟨hlt, rfl⟩ := List.getElem?_eq_some_iff.1 hi
      rw [hfinish]
      exact ⟨⟨h.isShut, h.queued⟩, [w.running[i]], rfl, List.getElem_cons_eraseIdx_perm hlt⟩
  | withdraw i =>
    refine hsame _ ?_
    change w.withdraw i = w
    unfold Crew.withdraw
    rw [h.queued, List.eraseIdx_nil, ← h.queued]
  | shutDown =>
    refine hsame _ ?_
    change w.shutDown = w
    unfold Crew.shutDown
    rw [← h.queued, ← h.isShut]

variable (size) in
/-- **Nothing new after the end**: the calls that end once the crew is closed were running then. -/
theorem exists_ended_of_closed (h : Closed w) (os : List (Order κ)) :
    Closed (Run.run (step size) w os) ∧ ∃ l, (Run.run (step size) w os).ended = w.ended ++ l ∧
      (l ++ (Run.run (step size) w os).running).Perm w.running := by
  induction os generalizing w with
  | nil => exact ⟨h, [], (List.append_nil _).symm, .refl _⟩
  | cons o os ih =>
    obtain ⟨hstep, l, hended, hperm⟩ := step_of_closed size h o
    obtain ⟨hrun, l', hended', hperm'⟩ := ih hstep
    refine ⟨hrun, l ++ l', ?_, ?_⟩
    · rw [Run.run_cons, hended', hended, List.append_assoc]
    · rw [Run.run_cons, List.append_assoc]
      exact (hperm'.append_left l).trans hperm

/-- Only shutting a crew down shuts it down, and then nothing is queued. -/
theorem queued_of_isShut_step (h : w.isShut = true → w.queued = []) (o : Order κ)
    (hshut : (step size w o).isShut = true) : (step size w o).queued = [] := by
  by_cases hbefore : w.isShut = true
  · exact (step_of_closed size ⟨hbefore, h hbefore⟩ o).1.queued
  · cases o with
    | submit c =>
      change (w.submit c).isShut = true at hshut
      unfold Crew.submit at hshut
      rw [if_neg hbefore] at hshut
      exact absurd hshut hbefore
    | take =>
      change (w.take size).isShut = true at hshut
      unfold Crew.take at hshut
      split at hshut
      · exact absurd hshut hbefore
      · split_ifs at hshut <;> exact absurd hshut hbefore
    | finish i =>
      change (w.finish i).isShut = true at hshut
      unfold Crew.finish at hshut
      split at hshut <;> exact absurd hshut hbefore
    | withdraw i => exact absurd hshut hbefore
    | shutDown => rfl

/-- A crew that was shut down is closed. -/
theorem closed_of_isShut {os : List (Order κ)}
    (h : (Run.run (step size) idle os).isShut = true) : Closed (Run.run (step size) idle os) :=
  ⟨h, Run.run_of_forall_mem (P := fun w : Crew κ => w.isShut = true → w.queued = [])
    (fun _ o _ hw => queued_of_isShut_step hw o) (fun hidle => absurd hidle Bool.false_ne_true) h⟩

end Executor
