import Mathlib.Data.List.Basic
import Mathlib.Order.Lattice
import Mathlib.Tactic.Common

/-!
# A log pruned now and then

A log of dated entries, kept in the order of their times, of which the old ones are dropped when the
oldest one is noticed to be old.

* `prune time cutoff l`: the log without the entries before `cutoff`, if its head is one of them;
* `prune_eq_filter`: in a log in order that is all of them;
* `Pruned time cutoff kept log`: what is kept of a log has all its entries from `cutoff` on;
* `Pruned.append`, `Pruned.mono`, `Pruned.step`: it stays so when an entry is added, when the
  cutoff moves on, and when the log is pruned, which leaves exactly the entries from there on
  (`Pruned.prune_eq`).
-/

namespace Window

variable {α τ : Type*} [LinearOrder τ] {time : α → τ} {cutoff cutoff' : τ} {kept log : List α}

variable (time cutoff) in
/-- Drop the entries before the cutoff, when the oldest one is before it. -/
def prune : List α → List α
  | [] => []
  | x :: l =>
    if time x < cutoff then (x :: l).filter fun y => decide (cutoff ≤ time y) else x :: l

variable (time) in
/-- The entries are in the order of their times. -/
def InOrder (log : List α) : Prop := log.Pairwise fun x y => time x ≤ time y

/-- In a log in order, an entry that is recent has only recent ones after it. -/
theorem prune_eq_filter (h : InOrder time kept) :
    prune time cutoff kept = kept.filter fun y => decide (cutoff ≤ time y) := by
  cases kept with
  | nil => rfl
  | cons x l =>
    rw [prune]
    split_ifs with hold
    · rfl
    · have hhead : cutoff ≤ time x := not_lt.1 hold
      refine (List.filter_eq_self.2 fun y hy => decide_eq_true ?_).symm
      rcases List.mem_cons.1 hy with rfl | hy
      · exact hhead
      · exact hhead.trans (List.rel_of_pairwise_cons h hy)

variable (time cutoff) in
/-- What is kept of a log: nothing else, and all of it from the cutoff on. -/
structure Pruned (kept log : List α) : Prop where
  sublist : kept.Sublist log
  recent : (kept.filter fun y => decide (cutoff ≤ time y)) =
    log.filter fun y => decide (cutoff ≤ time y)

theorem Pruned.refl (log : List α) : Pruned time cutoff log log := ⟨List.Sublist.refl log, rfl⟩

theorem filter_of_le (h : cutoff ≤ cutoff') (l : List α) :
    ((l.filter fun y => decide (cutoff ≤ time y)).filter fun y => decide (cutoff' ≤ time y)) =
      l.filter fun y => decide (cutoff' ≤ time y) := by
  rw [List.filter_filter]
  refine List.filter_congr fun y _ => ?_
  by_cases hy : cutoff' ≤ time y
  · simp [hy, h.trans hy]
  · simp [hy]

/-- What is kept from a cutoff on is kept from a later one on. -/
theorem Pruned.mono (h : Pruned time cutoff kept log) (hle : cutoff ≤ cutoff') :
    Pruned time cutoff' kept log :=
  ⟨h.sublist, by rw [← filter_of_le hle kept, h.recent, filter_of_le hle log]⟩

theorem Pruned.append (h : Pruned time cutoff kept log) (x : α) :
    Pruned time cutoff (kept ++ [x]) (log ++ [x]) where
  sublist := h.sublist.append (List.Sublist.refl [x])
  recent := by rw [List.filter_append, List.filter_append, h.recent]

/-- Pruning leaves exactly the entries from the cutoff on. -/
theorem Pruned.prune_eq (h : Pruned time cutoff kept log) (hlog : InOrder time log) :
    prune time cutoff kept = log.filter fun y => decide (cutoff ≤ time y) := by
  rw [prune_eq_filter (List.Pairwise.sublist h.sublist hlog), h.recent]

theorem Pruned.step (h : Pruned time cutoff kept log) (hlog : InOrder time log) :
    Pruned time cutoff (prune time cutoff kept) log := by
  rw [h.prune_eq hlog]
  exact ⟨List.filter_sublist, filter_of_le le_rfl log⟩

end Window
