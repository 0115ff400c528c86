import Mathlib.Algebra.BigOperators.Group.List.Basic
import Mathlib.Tactic.Abel
import Polymaker.Lib.Dict

/-!
# Sums over dictionaries

`Dict.sum d g` adds up what each entry of a dictionary is worth, `g key value`.

* `sum_set`: an assignment adds the worth of what it stores and takes away that of what it
  replaces;
* `sum_set_of_get?`, `sum_set_of_not_mem`: the two cases of it.
-/

namespace Dict

variable {κ α M : Type*}

/-- The sum of what the entries are worth. -/
def sum [AddCommMonoid M] (d : Dict κ α) (g : κ → α → M) : M :=
  (d.entries.map fun e => g e.1 e.2).sum

section Monoid

variable [AddCommMonoid M] (g : κ → α → M)

@[simp] theorem sum_empty : (empty : Dict κ α).sum g = 0 := rfl

variable [DecidableEq κ]

theorem sum_set_of_not_mem {d : Dict κ α} {k : κ} (h : k ∉ d) (v : α) :
    (d.set k v).sum g = d.sum g + g k v := by
  unfold sum
  rw [entries_set_of_not_mem h, List.map_append, List.sum_append]
  simp

theorem sum_update {l : List (κ × α)} {k : κ} (v : α) (hnd : (l.map Prod.fst).Nodup) {w : α}
    (h : l.lookup k = some w) :
    ((l.map fun e => if e.1 = k then (k, v) else e).map fun e => g e.1 e.2).sum + g k w =
      (l.map fun e => g e.1 e.2).sum + g k v := by
  induction l with
  | nil => simp at h
  | cons e l ih =>
    rw [List.map_cons, List.nodup_cons] at hnd
    rw [lookup_cons_eq_ite] at h
    simp only [List.map_cons, List.sum_cons]
    by_cases he : k = e.1
    · -- the entry of `k` is replaced, and no other entry has its key
      have hrest : (l.map fun e => if e.1 = k then (k, v) else e) = l := by
        conv_rhs => rw [← List.map_id l]
        refine List.map_congr_left fun f hf => ?_
        rw [if_neg, id]
        rintro rfl
        exact hnd.1 (he ▸ List.mem_map_of_mem hf)
      rw [if_pos he] at h
      rw [hrest, if_pos he.symm, ← Option.some.inj h, ← he]
      abel
    · rw [if_neg he] at h
      rw [if_neg (Ne.symm he), add_assoc, ih hnd.2 h, add_assoc]

theorem sum_set_of_get? {d : Dict κ α} {k : κ} {w : α} (h : d.get? k = some w) (v : α) :
    (d.set k v).sum g + g k w = d.sum g + g k v := by
  unfold sum set
  rw [dif_pos (mem_def.1 (mem_of_get? h))]
  exact sum_update g v d.nodup h

/-- **Assignment**: the new worth comes in and the worth of what was there goes out. -/
theorem sum_set (d : Dict κ α) (k : κ) (v : α) :
    (d.set k v).sum g + (d.get? k).elim 0 (g k) = d.sum g + g k v := by
  cases h : d.get? k with
  | none => rw [Option.elim_none, add_zero, sum_set_of_not_mem g (get?_eq_none_iff.1 h)]
  | some w => rw [Option.elim_some, sum_set_of_get? g h]

end Monoid

end Dict
