import Polymaker.Lib.Run
import Mathlib.Data.Bool.Basic
import Mathlib.Tactic.Common

/-!
# Latches

A latch is on or off; each sign sets it, resets it or leaves it.

* `Sign`, `step`: the signs, and what they do;
* `rises`, `falls`: how often a run turns the latch on and off;
* `rises_add_toNat`: it is turned on and off in turn.
-/

namespace Latch

/-- What comes to a latch. -/
inductive Sign
  | set
  | reset
  | keep
  deriving DecidableEq, Repr

/-- The latch after a sign. -/
def step (on : Bool) : Sign → Bool
  | .set => true
  | .reset => false
  | .keep => on

/-- How often a run turns the latch on. -/
def rises (on : Bool) : List Sign → ℕ
  | [] => 0
  | s :: ss => (!on && step on s).toNat + rises (step on s) ss

/-- How often a run turns the latch off. -/
def falls (on : Bool) : List Sign → ℕ
  | [] => 0
  | s :: ss => (on && !step on s).toNat + falls (step on s) ss

@[simp] theorem rises_nil (on : Bool) : rises on [] = 0 := rfl

@[simp] theorem falls_nil (on : Bool) : falls on [] = 0 := rfl

theorem rises_append (on : Bool) (ss ts : List Sign) :
    rises on (ss ++ ts) = rises on ss + rises (Run.run step on ss) ts := by
  induction ss generalizing on with
  | nil => rw [List.nil_append, rises_nil, Run.run_nil, Nat.zero_add]
  | cons s ss ih => rw [List.cons_append, rises, rises, ih, Run.run_cons, Nat.add_assoc]

/-- One sign turns the latch on, turns it off, or leaves it as it is. -/
theorem toNat_step (on : Bool) (s : Sign) :
    (!on && step on s).toNat + on.toNat = (on && !step on s).toNat + (step on s).toNat := by
  cases on <;> cases s <;> rfl

/-- **On and off in turn**: where the latch starts off, it was turned on as often as off, and once
more if it is on. -/
theorem rises_add_toNat (on : Bool) (ss : List Sign) :
    rises on ss + on.toNat = falls on ss + (Run.run step on ss).toNat := by
  induction ss generalizing on with
  | nil => rfl
  | cons s ss ih =>
    have hstep := toNat_step on s
    have hrest := ih (step on s)
    rw [rises, falls, Run.run_cons]
    omega

end Latch
