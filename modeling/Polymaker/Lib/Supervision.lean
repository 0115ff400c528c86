import Polymaker.Lib.Dict
import Mathlib.Data.List.Count

/-!
# Supervised tasks

Jobs are registered by name, each with the task that does it.  A task ends in some way; a pass of
the supervisor gives every registered job whose task has ended a new one, but for one name that is
its own.

* `Roster`: the jobs and tasks by name, and all tasks ever made, each with its end;
* `spawn`, `finish`, `pass`: a registration, an end and a pass;
* `Sound`: every name has a task, and it does the job registered last; `Sound.pass`: a pass leaves
  no job without a running task;
* `jobs_pass`: it makes tasks only for jobs that are registered.
-/

namespace Supervision

variable {κ β ε : Type*} [DecidableEq κ]

/-- The registered jobs and their tasks, and all tasks that were made. -/
structure Roster (κ β ε : Type*) [DecidableEq κ] where
  specs : Dict κ β
  tasks : Dict κ ℕ
  made : List (β × Option ε)

namespace Roster

/-- Nothing is registered. -/
def empty : Roster κ β ε := ⟨.empty, .empty, []⟩

/-- A job is registered under a name, with a new task. -/
def spawn (r : Roster κ β ε) (k : κ) (b : β) : Roster κ β ε :=
  ⟨r.specs.set k b, r.tasks.set k r.made.length, r.made ++ [(b, none)]⟩

/-- A task ends. -/
def finish (r : Roster κ β ε) (i : ℕ) (how : ε) : Roster κ β ε :=
  { r with made := r.made.modify i fun t => (t.1, some (t.2.getD how)) }

/-- The task is running. -/
def Live (r : Roster κ β ε) (i : ℕ) : Prop := (r.made[i]?).any fun t => t.2.isNone

instance (r : Roster κ β ε) (i : ℕ) : Decidable (r.Live i) := inferInstanceAs (Decidable (_ = true))

/-- A name whose task has ended gets a new one for its job. -/
def revive (r : Roster κ β ε) (k : κ) (i : ℕ) : Roster κ β ε :=
  if r.Live i then r
  else
    match r.specs.get? k with
    | none => r
    | some b => { r with tasks := r.tasks.set k r.made.length, made := r.made ++ [(b, none)] }

/-- A pass over the names and tasks registered now. -/
def pass (r : Roster κ β ε) (own : κ) : Roster κ β ε :=
  r.tasks.entries.foldl (fun r e => if e.1 = own then r else r.revive e.1 e.2) r

/-- Every name has a job and a task that does it. -/
structure Sound (r : Roster κ β ε) : Prop where
  tasks : ∀ k b, r.specs.get? k = some b →
    ∃ i, r.tasks.get? k = some i ∧ (r.made[i]?).map Prod.fst = some b
  specs : ∀ k, k ∈ r.tasks → k ∈ r.specs

variable {r : Roster κ β ε}

theorem sound_empty : (empty : Roster κ β ε).Sound :=
  ⟨fun _ _ h => absurd h (by simp [empty]), fun k h => absurd h (Dict.not_mem_empty k)⟩

/-- A new task stands at the end, and the others where they were. -/
theorem map_fst_append {made : List (β × Option ε)} {i : ℕ} {b : β}
    (h : (made[i]?).map Prod.fst = some b) (t : β × Option ε) :
    ((made ++ [t])[i]?).map Prod.fst = some b := by
  obtain ⟨u, hu, -⟩ := Option.map_eq_some_iff.1 h
  obtain ⟨hlt, -⟩ := List.getElem?_eq_some_iff.1 hu
  rw [List.getElem?_append_left hlt, h]

theorem Sound.spawn (h : r.Sound) (k : κ) (b : β) : (r.spawn k b).Sound := by
  refine ⟨fun j c hj => ?_, fun j hj => ?_⟩
  · change (r.specs.set k b).get? j = some c at hj
    change ∃ i, (r.tasks.set k r.made.length).get? j = some i ∧
      ((r.made ++ [(b, none)])[i]?).map Prod.fst = some c
    rw [Dict.get?_set] at hj ⊢
    split_ifs at hj ⊢ with hjk
    · obtain rfl := Option.some.inj hj
      exact ⟨r.made.length, rfl, by simp⟩
    · obtain ⟨i, hi, hjob⟩ := h.tasks j c hj
      exact ⟨i, hi, map_fst_append hjob _⟩
  · change j ∈ r.tasks.set k r.made.length at hj
    change j ∈ r.specs.set k b
    rw [Dict.mem_set] at hj ⊢
    exact hj.imp_right (h.specs j)

theorem getElem?_finish (r : Roster κ β ε) (i : ℕ) (how : ε) (j : ℕ) :
    (r.finish i how).made[j]? =
      (r.made[j]?).map fun t => if i = j then (t.1, some (t.2.getD how)) else t := by
  unfold finish
  rw [List.getElem?_modify]
  rfl

theorem Sound.finish (h : r.Sound) (i : ℕ) (how : ε) : (r.finish i how).Sound := by
  refine ⟨fun j c hj => ?_, h.specs⟩
  obtain ⟨m, hm, hjob⟩ := h.tasks j c hj
  refine ⟨m, hm, ?_⟩
  rw [getElem?_finish, Option.map_map, ← hjob]
  congr 1
  funext t
  change (if i = m then (t.1, some (t.2.getD how)) else t).1 = t.1
  split_ifs <;> rfl

/-! ### A pass -/

/-- What reviving a name does: its task runs, the other tasks are left, and it is of the job of the
name. -/
structure Revived (k : κ) (r r' : Roster κ β ε) : Prop where
  sound : r'.Sound
  specs : r'.specs = r.specs
  others : ∀ j, j ≠ k → r'.tasks.get? j = r.tasks.get? j
  made : ∃ l, r'.made = r.made ++ l ∧ ∀ t ∈ l, r.specs.get? k = some t.1
  live : ∃ i, r'.tasks.get? k = some i ∧ r'.Live i

theorem revived_revive (h : r.Sound) {k : κ} {i : ℕ} (hi : r.tasks.get? k = some i) :
    Revived k r (r.revive k i) := by
  unfold revive
  split_ifs with hlive
  · exact ⟨h, rfl, fun j _ => rfl, ⟨[], (List.append_nil _).symm, by simp⟩, i, hi, hlive⟩
  · obtain ⟨b, hb⟩ := Dict.exists_get?_of_mem (h.specs k (Dict.mem_of_get? hi))
    rw [hb]
    simp only
    refine ⟨⟨fun j c hj => ?_, fun j hj => ?_⟩, rfl, fun j hj => ?_, ⟨[(b, none)], rfl, ?_⟩,
      r.made.length, ?_, ?_⟩
    · simp only at hj ⊢
      rw [Dict.get?_set]
      split_ifs with hjk
      · rw [hjk, hb] at hj
        obtain rfl := Option.some.inj hj
        exact ⟨r.made.length, rfl, by simp⟩
      · obtain ⟨m, hm, hjob⟩ := h.tasks j c hj
        exact ⟨m, hm, map_fst_append hjob _⟩
    · rcases Dict.mem_set.1 hj with rfl | hj
      · exact Dict.mem_of_get? hb
      · exact h.specs j hj
    · exact (Dict.get?_set _ _ _ _).trans (if_neg hj)
    · intro t ht
      rw [List.mem_singleton.1 ht]
      exact hb
    · exact (Dict.get?_set _ _ _ _).trans (if_pos rfl)
    · simp [Live]

/-- A task that runs goes on running when tasks are added. -/
theorem live_of_append {r r' : Roster κ β ε} {l : List (β × Option ε)}
    (hmade : r'.made = r.made ++ l) {i : ℕ} (h : r.Live i) : r'.Live i := by
  unfold Live at h ⊢
  obtain ⟨t, ht, htnone⟩ := (Option.any_eq_true _ _).1 h
  obtain ⟨hlt, -⟩ := List.getElem?_eq_some_iff.1 ht
  rw [hmade, List.getElem?_append_left hlt]
  exact h

/-- What a pass has done after some of the names. -/
structure Passed (own : κ) (names : List κ) (r r' : Roster κ β ε) : Prop where
  sound : r'.Sound
  specs : r'.specs = r.specs
  others : ∀ j, j ∉ names ∨ j = own → r'.tasks.get? j = r.tasks.get? j
  made : ∃ l, r'.made = r.made ++ l ∧ ∀ t ∈ l, ∃ k, k ≠ own ∧ r.specs.get? k = some t.1
  live : ∀ k ∈ names, k ≠ own → ∃ i, r'.tasks.get? k = some i ∧ r'.Live i

theorem passed_foldl (own : κ) {es : List (κ × ℕ)} (hnodup : (es.map Prod.fst).Nodup)
    (h : r.Sound) (hes : ∀ e ∈ es, r.tasks.get? e.1 = some e.2) :
    Passed own (es.map Prod.fst) r
      (es.foldl (fun r e => if e.1 = own then r else r.revive e.1 e.2) r) := by
  induction es generalizing r with
  | nil => exact ⟨h, rfl, fun j _ => rfl, ⟨[], (List.append_nil _).symm, by simp⟩, by simp⟩
  | cons e es ih =>
    obtain ⟨hnot, hnodup⟩ := List.nodup_cons.1 hnodup
    rw [List.foldl_cons]
    by_cases hown : e.1 = own
    · rw [if_pos hown]
      have hrest := ih hnodup h fun f hf => hes f (List.mem_cons_of_mem _ hf)
      refine ⟨hrest.sound, hrest.specs, fun j hj => hrest.others j (hj.imp_left fun hn => ?_),
        hrest.made, fun k hk hne => ?_⟩
      · exact fun hmem => hn (List.mem_cons_of_mem _ hmem)
      · rcases List.mem_cons.1 hk with rfl | hk
        · exact absurd hown hne
        · exact hrest.live k hk hne
    · rw [if_neg hown]
      have hfirst := revived_revive h (hes e List.mem_cons_self)
      have hother : ∀ f ∈ es, f.1 ≠ e.1 := by
        rintro f hf heq
        exact hnot (heq ▸ List.mem_map_of_mem hf)
      have hrest := ih hnodup hfirst.sound fun f hf => by
        rw [hfirst.others f.1 (hother f hf)]
        exact hes f (List.mem_cons_of_mem _ hf)
      obtain ⟨l, hl, hjobs⟩ := hfirst.made
      obtain ⟨l', hl', hjobs'⟩ := hrest.made
      refine ⟨hrest.sound, hrest.specs.trans hfirst.specs, fun j hj => ?_, ⟨l ++ l', ?_, ?_⟩,
        fun k hk hne => ?_⟩
      · have hne : j ≠ e.1 := by
          rintro rfl
          rcases hj with hj | hj
          · exact hj List.mem_cons_self
          · exact hown hj
        rw [hrest.others j (hj.imp_left fun hn hmem => hn (List.mem_cons_of_mem _ hmem)),
          hfirst.others j hne]
      · rw [hl', hl, List.append_assoc]
      · intro t ht
        rcases List.mem_append.1 ht with ht | ht
        · exact ⟨e.1, hown, hjobs t ht⟩
        · rw [← hfirst.specs]
          exact hjobs' t ht
      · rcases List.mem_cons.1 hk with rfl | hk
        · obtain ⟨i, hi, hlive⟩ := hfirst.live
          rw [hrest.others e.1 (.inl hnot)]
          exact ⟨i, hi, live_of_append hl' hlive⟩
        · exact hrest.live k hk hne

/-- **A pass leaves no job without a running task**, and makes tasks for registered jobs alone. -/
theorem Sound.pass (h : r.Sound) (own : κ) : Passed own r.tasks.keys r (r.pass own) :=
  passed_foldl own r.tasks.nodup h fun _ he => Dict.mem_entries_iff.1 he

end Roster

end Supervision
