import Mathlib.Data.List.Perm.Basic
import Mathlib.Algebra.Order.Ring.Rat

/-!
# Ranking

Some things are put in the order of a key, the greatest first, and the first of them are taken.
How things of the same key stand is left open.

* `Ranking`: a way to put things in that order;
* `lead`: the first of them, or all;
* `mem_of_mem_lead`, `pairwise_lead`, `le_of_not_mem_lead`: what is taken, in which order, and that
  nothing better is left out.
-/

/-- A way to order things by a key, the greatest first. -/
structure Ranking {α κ : Type*} [LE κ] (key : α → κ) where
  arrange : List α → List α
  perm : ∀ l, (arrange l).Perm l
  pairwise : ∀ l, (arrange l).Pairwise fun a b => key b ≤ key a

namespace Ranking

variable {α κ : Type*} [LinearOrder κ] {key : α → κ} (R : Ranking key)

/-- The first things in the order, or all of them where there is no bound. -/
def lead : Option ℕ → List α → List α
  | none, l => R.arrange l
  | some n, l => (R.arrange l).take n

variable {R} {bound : Option ℕ} {l : List α}

theorem lead_initial (R : Ranking key) (bound : Option ℕ) (l : List α) :
    R.lead bound l <+: R.arrange l := by
  cases bound with
  | none => exact List.prefix_rfl
  | some n => exact List.take_prefix n _

theorem mem_of_mem_lead {x : α} (h : x ∈ R.lead bound l) : x ∈ l :=
  (R.perm l).subset ((lead_initial R bound l).subset h)

theorem pairwise_lead (R : Ranking key) (bound : Option ℕ) (l : List α) :
    (R.lead bound l).Pairwise fun a b => key b ≤ key a :=
  (R.pairwise l).sublist (lead_initial R bound l).sublist

theorem length_lead_le (R : Ranking key) (n : ℕ) (l : List α) :
    (R.lead (some n) l).length ≤ n :=
  List.length_take_le n _

/-- What was distinct stays distinct. -/
theorem nodup_map_lead {β : Type*} {f : α → β} (h : (l.map f).Nodup) :
    ((R.lead bound l).map f).Nodup :=
  (((R.perm l).map f).nodup_iff.2 h).sublist ((lead_initial R bound l).sublist.map f)

/-- **What is left out** is no better than what is taken, and then as many were taken as could be.
-/
theorem le_of_not_mem_lead {x : α} (hx : x ∈ l) (hout : x ∉ R.lead bound l) :
    bound = some (R.lead bound l).length ∧ ∀ y ∈ R.lead bound l, key x ≤ key y := by
  have hmem : x ∈ R.arrange l := (R.perm l).mem_iff.2 hx
  cases bound with
  | none => exact absurd hmem hout
  | some n =>
    change x ∉ (R.arrange l).take n at hout
    have hdrop : x ∈ (R.arrange l).drop n := by
      rw [← List.take_append_drop n (R.arrange l), List.mem_append] at hmem
      exact hmem.resolve_left hout
    have hlength : n ≤ (R.arrange l).length := by
      by_contra hshort
      rw [List.drop_eq_nil_of_le (by omega)] at hdrop
      exact List.not_mem_nil hdrop
    refine ⟨congrArg some (List.length_take_of_le hlength).symm, fun y hy => ?_⟩
    have hsorted := R.pairwise l
    rw [← List.take_append_drop n (R.arrange l), List.pairwise_append] at hsorted
    exact hsorted.2.2 y hy x hdrop

end Ranking
