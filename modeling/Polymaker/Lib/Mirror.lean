import Polymaker.Lib.Dict

/-!
# A dictionary mirrored to disk

A map kept in memory beside the durable copy it is loaded from.  Loading drops the entries that are
not worth keeping, and a lookup that finds nothing answers a default, so the two copies need not
have the same keys; what a reader can tell apart is the view.

* `Mirror`: the two copies; `view`: what a lookup answers; `reload`: the mirror after a restart;
* `write`, `drop`: one entry written through, several keys dropped from both copies;
* `view_reload_write`, `view_reload_drop`: what a reload reads back after either;
* `InStep`: a reload does not change the view.  A reload establishes it, a write keeps it where the
  value is worth keeping or is the default, and a drop keeps it.
-/

/-- The copy in memory and the copy on disk. -/
structure Mirror (κ : Type*) (α : Type*) where
  mem : Dict κ α
  disk : Dict κ α

namespace Mirror

variable {κ α : Type*} [DecidableEq κ] (keep : α → Bool) (dflt : α)

/-- What a lookup answers. -/
def view (m : Mirror κ α) (k : κ) : α := m.mem.getD k dflt

/-- Load the copy in memory from the disk. -/
def reload (m : Mirror κ α) : Mirror κ α := ⟨m.disk.filter fun _ v => keep v, m.disk⟩

/-- Write an entry through. -/
def write (m : Mirror κ α) (k : κ) (v : α) : Mirror κ α := ⟨m.mem.set k v, m.disk.replace k v⟩

/-- Drop keys from both copies. -/
def drop (m : Mirror κ α) (ks : List κ) : Mirror κ α := ⟨m.mem.eraseAll ks, m.disk.eraseAll ks⟩

/-- A reload does not change the view. -/
def InStep (m : Mirror κ α) : Prop := ∀ k, m.view dflt k = (m.reload keep).view dflt k

variable {keep dflt} {m : Mirror κ α}

@[simp] theorem view_write (k j : κ) (v : α) :
    (m.write k v).view dflt j = if j = k then v else m.view dflt j := by
  unfold view write
  rw [Dict.getD_set]

@[simp] theorem view_drop (ks : List κ) (j : κ) :
    (m.drop ks).view dflt j = if j ∈ ks then dflt else m.view dflt j := by
  unfold view drop Dict.getD
  rw [Dict.get?_eraseAll]
  split_ifs <;> rfl

theorem view_reload (k : κ) :
    (m.reload keep).view dflt k = ((m.disk.get? k).filter keep).getD dflt := by
  unfold view reload Dict.getD
  rw [Dict.get?_filter]

/-- After a reload a second one changes nothing. -/
theorem inStep_reload : InStep keep dflt (m.reload keep) := fun _ => rfl

/-- A reload reads back what was written, where a value it would drop is what a lookup answers
without it. -/
theorem view_reload_write {v : α} (hv : keep v ∨ v = dflt) (k j : κ) :
    ((m.write k v).reload keep).view dflt j =
      if j = k then v else (m.reload keep).view dflt j := by
  have hdisk : (m.write k v).disk.get? j = if j = k then some v else m.disk.get? j :=
    Dict.get?_replace _ _ _ _
  rw [view_reload, view_reload, hdisk]
  split_ifs with hj
  · by_cases hk : keep v
    · rw [Option.filter_some_pos hk]; rfl
    · rw [Option.filter_some_neg (by simpa using hk)]
      exact (hv.resolve_left hk).symm
  · rfl

theorem view_reload_drop (ks : List κ) (j : κ) :
    ((m.drop ks).reload keep).view dflt j =
      if j ∈ ks then dflt else (m.reload keep).view dflt j := by
  have hdisk : (m.drop ks).disk.get? j = if j ∈ ks then none else m.disk.get? j :=
    Dict.get?_eraseAll _ _ _
  rw [view_reload, view_reload, hdisk]
  split_ifs <;> rfl

theorem InStep.write (h : InStep keep dflt m) (k : κ) {v : α} (hv : keep v ∨ v = dflt) :
    InStep keep dflt (m.write k v) := fun j => by
  rw [view_write, view_reload_write hv, h j]

theorem InStep.drop (h : InStep keep dflt m) (ks : List κ) : InStep keep dflt (m.drop ks) :=
  fun j => by rw [view_drop, view_reload_drop, h j]

end Mirror
