import Polymaker.Lib.Run
import Polymaker.Lib.Window
import Polymaker.Risk.Manager

/-!
# The error-rate breaker

The manager keeps the results of order calls in a log that both `note_order_result` and `error_rate`
prune, and only when its head is old.

* `BreakerCall`, `BreakerCall.step`: the calls that touch the log;
* `noted`, `windowRate`: every result that was recorded, and the rate over the ones in the window;
* `pruned_run`: the log kept has every result of the window;
* `error_rate_exact`: so `error_rate` answers the rate of the window.
-/

namespace Polymaker

open RiskManager

/-- A call that touches the log of results. -/
inductive BreakerCall
  | note (ok : Bool) (now : ℚ)
  | read (now : ℚ)
  deriving DecidableEq

namespace BreakerCall

/-- When it is made. -/
def now : BreakerCall → ℚ
  | note _ now => now
  | read now => now

/-- The manager after it. -/
def step (r : RiskManager) : BreakerCall → RiskManager
  | note ok now => r.noteOrderResult ok now
  | read now => (r.errorRate now).1

/-- The result it records. -/
def result? : BreakerCall → Option (ℚ × Bool)
  | note ok now => some (now, ok)
  | read _ => none

end BreakerCall

/-- The results recorded by calls, each with its time. -/
def noted (calls : List BreakerCall) : List (ℚ × Bool) := calls.filterMap BreakerCall.result?

/-- The fraction of failures among the results of the window that ends now, zero below twenty of
them. -/
def windowRate (results : List (ℚ × Bool)) (now : ℚ) : ℚ :=
  let recent := results.filter fun x => decide (now - errorWindowS ≤ x.1 ∧ x.1 ≤ now)
  if recent.length < 20 then 0 else (recent.countP fun x => !x.2) / recent.length

theorem recentOrderResults_prune (r : RiskManager) (now : ℚ) :
    (r.prune now).recentOrderResults =
      Window.prune Prod.fst (now - errorWindowS) r.recentOrderResults := by
  unfold RiskManager.prune
  cases hlog : r.recentOrderResults with
  | nil => exact hlog
  | cons x l =>
    simp only [Window.prune]
    split_ifs
    · rfl
    · exact hlog

theorem mem_noted {calls : List BreakerCall} {x : ℚ × Bool} (h : x ∈ noted calls) :
    ∃ c ∈ calls, c.now = x.1 := by
  obtain ⟨c, hc, hx⟩ := List.mem_filterMap.1 h
  cases c with
  | note ok now => exact ⟨_, hc, congrArg Prod.fst (Option.some.inj hx)⟩
  | read now => cases hx

/-- The calls are made in the order of their times. -/
def InTime (calls : List BreakerCall) : Prop := Window.InOrder BreakerCall.now calls

theorem InTime.noted {calls : List BreakerCall} (h : InTime calls) :
    Window.InOrder Prod.fst (noted calls) := by
  refine List.Pairwise.filterMap BreakerCall.result? ?_ h
  rintro (⟨ok, now⟩ | now) (⟨ok', now'⟩ | now') hle x hx y hy <;> cases hx <;> cases hy
  exact hle

/-- **What is kept** has every result of the window. -/
theorem pruned_run (cfg : RiskConfig) {calls : List BreakerCall} {now : ℚ} (h : InTime calls)
    (hlast : ∀ c ∈ calls, c.now ≤ now) :
    Window.Pruned Prod.fst (now - errorWindowS)
      (Run.run BreakerCall.step (.new cfg) calls).recentOrderResults (noted calls) := by
  induction calls using List.reverseRecOn generalizing now with
  | nil => exact .refl []
  | append_singleton calls c ih =>
    have hnoted := h.noted
    obtain ⟨hcalls, -, hbefore⟩ := List.pairwise_append.1 h
    have hkept := ih hcalls fun d hd => hbefore d hd c (List.mem_singleton_self c)
    have hcut : c.now - errorWindowS ≤ now - errorWindowS :=
      sub_le_sub_right (hlast c (List.mem_append_right _ (List.mem_singleton_self c))) _
    have hsplit : noted (calls ++ [c]) = noted calls ++ noted [c] := List.filterMap_append
    rw [hsplit] at hnoted ⊢
    refine Window.Pruned.mono ?_ hcut
    rw [Run.run_append]
    cases c with
    | note ok t =>
      -- the result is appended, and then the log is pruned
      show Window.Pruned _ _ (RiskManager.noteOrderResult _ ok t).recentOrderResults _
      rw [noteOrderResult, recentOrderResults_prune]
      exact (hkept.append (t, ok)).step hnoted
    | read t =>
      show Window.Pruned _ _ (RiskManager.prune _ t).recentOrderResults _
      rw [recentOrderResults_prune]
      have hnone : noted calls ++ noted [.read t] = noted calls := List.append_nil _
      rw [hnone] at hnoted ⊢
      exact hkept.step hnoted

/-- **The breaker is an exact rolling window.**  At every read of a sequence of calls in time, the
error rate is that of the results recorded in the window, whatever was read and pruned before. -/
theorem error_rate_exact (cfg : RiskConfig) {calls : List BreakerCall} (h : InTime calls)
    {before after : List BreakerCall} {now : ℚ} (hread : calls = before ++ .read now :: after) :
    ((Run.run BreakerCall.step (.new cfg) before).errorRate now).2 =
      windowRate (noted before) now := by
  subst hread
  obtain ⟨hbefore, -, hcross⟩ := List.pairwise_append.1 h
  have hlast : ∀ c ∈ before, c.now ≤ now := fun c hc => hcross c hc _ List.mem_cons_self
  have hkept := (pruned_run cfg hbefore hlast).prune_eq (InTime.noted hbefore)
  have hwindow : (noted before).filter (fun x => decide (now - errorWindowS ≤ x.1 ∧ x.1 ≤ now)) =
      (noted before).filter fun x => decide (now - errorWindowS ≤ x.1) := by
    refine List.filter_congr fun x hx => ?_
    obtain ⟨c, hc, hcx⟩ := mem_noted hx
    have hle : x.1 ≤ now := hcx ▸ hlast c hc
    simp [hle]
  unfold errorRate failureFraction windowRate
  simp only
  rw [recentOrderResults_prune, hkept, hwindow]

/-- Twenty-one results, the first of them a failure that is out of the window at the second read. -/
theorem error_rate_exact_past_window :
    let calls : List BreakerCall :=
      .note false 0 :: .read 10 :: (List.range 20).map fun k : ℕ => .note (k ≠ 3) (20 + k)
    ((Run.run BreakerCall.step (.new {}) calls).errorRate 301).2 = windowRate (noted calls) 301 ∧
      windowRate (noted calls) 301 = 1 / 20 := by
  intro calls
  have htime : InTime (calls ++ [.read 301]) := by
    unfold InTime Window.InOrder
    decide +kernel
  exact ⟨error_rate_exact {} htime rfl, by decide +kernel⟩

end Polymaker
