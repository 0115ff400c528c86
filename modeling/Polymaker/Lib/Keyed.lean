import Polymaker.Lib.Dict
import Polymaker.Lib.Run

/-!
# Machines by key

A dictionary of machines, and operations each of which goes to the machine of its key; an operation
whose key has no machine is lost.

* `opsOf k ops`: the operations of a key, in their order;
* `Performs step ops d d'`: from `d` to `d'` every machine has run the operations of its key, and
  there are no others; `refl`, `trans`, `of_set`, `of_absent`: how such changes compose.
-/

namespace Keyed

variable {κ α ο : Type*} [DecidableEq κ]

/-- The operations of a key. -/
def opsOf (k : κ) (ops : List (κ × ο)) : List ο :=
  (ops.filter fun o => decide (o.1 = k)).map Prod.snd

@[simp] theorem opsOf_nil (k : κ) : opsOf k ([] : List (κ × ο)) = [] := rfl

@[simp] theorem opsOf_append (k : κ) (ops ops' : List (κ × ο)) :
    opsOf k (ops ++ ops') = opsOf k ops ++ opsOf k ops' := by
  unfold opsOf
  rw [List.filter_append, List.map_append]

@[simp] theorem opsOf_map_self (k : κ) (os : List ο) : opsOf k (os.map fun o => (k, o)) = os := by
  simp [opsOf, List.filter_map, Function.comp_def]

theorem opsOf_map_of_ne {k j : κ} (h : k ≠ j) (os : List ο) :
    opsOf j (os.map fun o => (k, o)) = [] := by
  simp [opsOf, List.filter_map, Function.comp_def, h]

theorem opsOf_singleton (k j : κ) (o : ο) :
    opsOf k [(j, o)] = if j = k then [o] else [] := by
  unfold opsOf
  split_ifs with h <;> simp [h]

/-- Every machine has run the operations of its key. -/
def Performs (step : α → ο → α) (ops : List (κ × ο)) (d d' : Dict κ α) : Prop :=
  ∀ k, d'.get? k = (d.get? k).map fun a => Run.run step a (opsOf k ops)

variable {step : α → ο → α} {ops ops' : List (κ × ο)} {d d' d'' : Dict κ α}

namespace Performs

theorem refl (d : Dict κ α) : Performs step [] d d := fun k => by simp

theorem trans (h : Performs step ops d d') (h' : Performs step ops' d' d'') :
    Performs step (ops ++ ops') d d'' := by
  intro k
  rw [h' k, h k, Option.map_map]
  congr 1
  funext a
  rw [opsOf_append, Run.run_append]
  rfl

/-- One machine is run, and put back. -/
theorem of_set {k : κ} {a : α} (h : d.get? k = some a) (os : List ο) :
    Performs step (os.map fun o => (k, o)) d (d.set k (Run.run step a os)) := by
  intro j
  rw [Dict.get?_set]
  split_ifs with hj
  · rw [hj, h, opsOf_map_self]
    rfl
  · rw [opsOf_map_of_ne (Ne.symm hj)]
    simp

/-- The operations of a key without a machine are lost. -/
theorem of_absent {k : κ} (h : d.get? k = none) (os : List ο) :
    Performs step (os.map fun o => (k, o)) d d := by
  intro j
  rcases eq_or_ne k j with rfl | hj
  · rw [h]
    rfl
  · rw [opsOf_map_of_ne hj]
    simp

/-- The same keys have machines. -/
theorem mem_iff (h : Performs step ops d d') (k : κ) : k ∈ d' ↔ k ∈ d := by
  rw [Dict.mem_iff_isSome, Dict.mem_iff_isSome, h k, Option.isSome_map]

end Performs

end Keyed
