import Mathlib.Data.List.Nodup
import Mathlib.Tactic.Common

/-!
# Single-flight tasks behind one lock

Tasks are started by key, at most one for a key at a time, and all of them go through one lock.  A
set of busy keys guards the start, a flag is the lock; both are only beside the tasks, and what they
say of them is proved.

* `Pool`: the busy keys, the lock and the tasks that have not ended, each waiting for the lock or
  inside with what it has there;
* `spawn`, `enter`, `proceed`: a start, an entry, and a step inside, after which the task goes on
  inside or ends;
* `Pool.Exclusive`: the keys of the tasks are distinct, they are the busy ones, and the lock is held
  exactly while a task is inside, by that one alone; every operation keeps it;
* `inside_unique`, `locked_iff`: who is inside; `exists_move`: if a task is left, one can move.
-/

namespace SingleFlight

/-! ### Positions -/

/-- An element at a position splits the list, and so do its changes and its removal. -/
theorem exists_split {α : Type*} {l : List α} {i : ℕ} {a : α} (h : l[i]? = some a) :
    ∃ pre post, l = pre ++ a :: post ∧ (∀ b, l.set i b = pre ++ b :: post) ∧
      l.eraseIdx i = pre ++ post := by
  induction l generalizing i with
  | nil => simp at h
  | cons c l ih =>
    cases i with
    | zero =>
      obtain rfl : c = a := by simpa using h
      exact ⟨[], l, rfl, fun b => rfl, rfl⟩
    | succ i =>
      obtain ⟨pre, post, hl, hset, herase⟩ := ih (by simpa using h)
      refine ⟨c :: pre, post, by rw [hl, List.cons_append], fun b => ?_, ?_⟩
      · rw [List.set_cons_succ, hset, List.cons_append]
      · rw [List.eraseIdx_cons_succ, herase, List.cons_append]

/-! ### Tasks -/

variable {κ α β : Type*}

/-- A task: what it was started for, and what it has inside, where it is there. -/
structure Task (κ α β : Type*) where
  key : κ
  request : α
  inside : Option β

/-- The busy keys, the lock, and the tasks that have not ended. -/
structure Pool (κ α β : Type*) where
  busy : List κ
  locked : Bool
  tasks : List (Task κ α β)

namespace Pool

/-- Nothing has been started. -/
def empty : Pool κ α β := ⟨[], false, []⟩

section Operations

variable [DecidableEq κ]

/-- Start a task, unless its key is busy. -/
def spawn (p : Pool κ α β) (k : κ) (a : α) : Pool κ α β :=
  if k ∈ p.busy then p else ⟨k :: p.busy, p.locked, p.tasks ++ [⟨k, a, none⟩]⟩

/-- A waiting task takes the lock, where it is free. -/
def enter (p : Pool κ α β) (i : ℕ) (b : β) : Pool κ α β :=
  match p.tasks[i]? with
  | some t =>
    if t.inside.isNone ∧ p.locked = false then
      { p with locked := true, tasks := p.tasks.set i { t with inside := some b } }
    else p
  | none => p

/-- A task ends: its key is free again, and so is the lock. -/
def finish (p : Pool κ α β) (i : ℕ) (k : κ) : Pool κ α β :=
  ⟨p.busy.filter fun j => decide (j ≠ k), false, p.tasks.eraseIdx i⟩

/-- A task inside goes on with what `f` makes of it, or ends. -/
def proceed (p : Pool κ α β) (i : ℕ) (f : κ → α → β → Option β) : Pool κ α β :=
  match p.tasks[i]? with
  | some t =>
    match t.inside with
    | some b =>
      match f t.key t.request b with
      | some b' => { p with tasks := p.tasks.set i { t with inside := some b' } }
      | none => p.finish i t.key
    | none => p
  | none => p

end Operations

/-- The tasks inside. -/
def insiders (p : Pool κ α β) : ℕ := p.tasks.countP fun t => t.inside.isSome

/-- The keys of the tasks are distinct and are the busy ones, and the lock is held exactly while one
task is inside. -/
structure Exclusive (p : Pool κ α β) : Prop where
  keys : (p.tasks.map Task.key).Nodup
  busy : ∀ k, k ∈ p.busy ↔ k ∈ p.tasks.map Task.key
  lock : p.insiders = if p.locked then 1 else 0

variable {p : Pool κ α β} {i : ℕ} {t : Task κ α β}

theorem exclusive_empty : (empty : Pool κ α β).Exclusive :=
  ⟨List.nodup_nil, fun _ => Iff.rfl, rfl⟩

theorem exclusive_spawn [DecidableEq κ] (h : p.Exclusive) (k : κ) (a : α) :
    (p.spawn k a).Exclusive := by
  unfold spawn
  split_ifs with hk
  · exact h
  · have hfree : k ∉ p.tasks.map Task.key := fun hmem => hk ((h.busy k).2 hmem)
    refine ⟨?_, fun j => ?_, ?_⟩
    · rw [List.map_append, List.nodup_append]
      refine ⟨h.keys, List.nodup_singleton _, fun a ha b hb hab => ?_⟩
      obtain rfl : a = k := hab.trans (List.mem_singleton.1 hb)
      exact hfree ha
    · rw [List.mem_cons, h.busy j, List.map_append, List.mem_append, or_comm]
      simp
    · unfold insiders
      rw [List.countP_append]
      exact h.lock

/-- A change of a task that keeps its key, and of the lock with it. -/
theorem exclusive_set (h : p.Exclusive) (ht : p.tasks[i]? = some t) (t' : Task κ α β)
    (hkey : t'.key = t.key) {locked : Bool}
    (hlock : (if t.inside.isSome then 1 else 0) + (if locked then 1 else 0) =
      (if t'.inside.isSome then 1 else 0) + if p.locked then 1 else 0) :
    Exclusive { p with locked := locked, tasks := p.tasks.set i t' } := by
  obtain ⟨pre, post, hl, hset, -⟩ := exists_split ht
  have hkeys : (p.tasks.set i t').map Task.key = p.tasks.map Task.key := by
    rw [hset, hl, List.map_append, List.map_append, List.map_cons, List.map_cons, hkey]
  refine ⟨?_, fun k => ?_, ?_⟩
  · change ((p.tasks.set i t').map Task.key).Nodup
    rw [hkeys]
    exact h.keys
  · change k ∈ p.busy ↔ k ∈ (p.tasks.set i t').map Task.key
    rw [hkeys]
    exact h.busy k
  · have hcount := h.lock
    unfold insiders at hcount ⊢
    rw [hl, List.countP_append, List.countP_cons] at hcount
    simp only
    rw [hset, List.countP_append, List.countP_cons]
    omega

theorem exclusive_enter (h : p.Exclusive) (i : ℕ) (b : β) : (p.enter i b).Exclusive := by
  unfold enter
  split
  · rename_i t ht
    split_ifs with hcond
    · refine exclusive_set h ht { t with inside := some b } rfl ?_
      have hout : t.inside.isSome = false := by
        rw [← Option.not_isSome, Bool.not_eq_true'] at hcond
        exact hcond.1
      rw [hout, hcond.2]
      rfl
    · exact h
  · exact h

theorem exclusive_finish [DecidableEq κ] (h : p.Exclusive) (ht : p.tasks[i]? = some t)
    (hinside : t.inside.isSome = true) : (p.finish i t.key).Exclusive := by
  obtain ⟨pre, post, hl, -, herase⟩ := exists_split ht
  have hkeys := h.keys
  have hcount := h.lock
  unfold insiders at hcount
  rw [hl, List.map_append, List.map_cons, List.nodup_middle, List.nodup_cons] at hkeys
  rw [hl, List.countP_append, List.countP_cons, if_pos hinside] at hcount
  have hone : List.countP (fun t => t.inside.isSome) pre +
      List.countP (fun t => t.inside.isSome) post = 0 := by
    split_ifs at hcount
    omega
  refine ⟨?_, fun k => ?_, ?_⟩
  · change ((p.tasks.eraseIdx i).map Task.key).Nodup
    rw [herase, List.map_append]
    exact hkeys.2
  · change k ∈ p.busy.filter _ ↔ k ∈ (p.tasks.eraseIdx i).map Task.key
    rw [List.mem_filter, h.busy k, herase, hl, List.map_append, List.map_append, List.map_cons]
    simp only [List.mem_append, List.mem_cons, decide_eq_true_eq]
    constructor
    · rintro ⟨hmem | hmem | hmem, hne⟩
      · exact .inl hmem
      · exact absurd hmem hne
      · exact .inr hmem
    · intro hmem
      refine ⟨hmem.imp_right .inr, ?_⟩
      rintro rfl
      exact hkeys.1 (List.mem_append.2 hmem)
  · change List.countP _ (p.tasks.eraseIdx i) = 0
    rw [herase, List.countP_append]
    exact hone

theorem exclusive_proceed [DecidableEq κ] (h : p.Exclusive) (i : ℕ) (f : κ → α → β → Option β) :
    (p.proceed i f).Exclusive := by
  unfold proceed
  split
  · rename_i t ht
    split
    · rename_i b hb
      split
      · rename_i b' hb'
        refine exclusive_set h ht { t with inside := some b' } rfl ?_
        rw [hb]
        rfl
      · exact exclusive_finish h ht (by rw [hb]; rfl)
    · exact h
  · exact h

/-! ### The tasks afterwards -/

theorem mem_spawn [DecidableEq κ] {k : κ} {a : α} {t' : Task κ α β}
    (h : t' ∈ (p.spawn k a).tasks) : t' ∈ p.tasks ∨ t'.inside = none := by
  unfold spawn at h
  split_ifs at h
  · exact .inl h
  · rcases List.mem_append.1 h with h | h
    · exact .inl h
    · rw [List.mem_singleton.1 h]
      exact .inr rfl

theorem mem_enter {b : β} {t' : Task κ α β} (h : t' ∈ (p.enter i b).tasks) :
    t' ∈ p.tasks ∨ t'.inside = some b := by
  unfold enter at h
  split at h
  · split_ifs at h
    · rcases List.mem_or_eq_of_mem_set h with h | rfl
      · exact .inl h
      · exact .inr rfl
    · exact .inl h
  · exact .inl h

/-- A step inside leaves the other tasks, and moves its own to what `f` makes of it. -/
theorem mem_proceed [DecidableEq κ] {f : κ → α → β → Option β} {t' : Task κ α β}
    (h : t' ∈ (p.proceed i f).tasks) :
    t' ∈ p.tasks ∨ ∃ t b b', p.tasks[i]? = some t ∧ t.inside = some b ∧
      f t.key t.request b = some b' ∧ t' = { t with inside := some b' } := by
  unfold proceed at h
  split at h
  · rename_i t ht
    split at h
    · rename_i b hb
      split at h
      · rename_i b' hb'
        rcases List.mem_or_eq_of_mem_set h with h | rfl
        · exact .inl h
        · exact .inr ⟨t, b, b', ht, hb, hb', rfl⟩
      · exact .inl (List.mem_of_mem_eraseIdx h)
    · exact .inl h
  · exact .inl h

/-! ### Who is inside -/

/-- **At most one task is inside.** -/
theorem Exclusive.inside_unique (h : p.Exclusive) {j : ℕ} {t' : Task κ α β}
    (ht : p.tasks[i]? = some t) (ht' : p.tasks[j]? = some t') (hin : t.inside.isSome = true)
    (hin' : t'.inside.isSome = true) : t = t' := by
  obtain ⟨pre, post, hl, -, -⟩ := exists_split ht
  have hcount := h.lock
  unfold insiders at hcount
  rw [hl, List.countP_append, List.countP_cons, if_pos hin] at hcount
  obtain ⟨hpre, hpost⟩ : List.countP (fun t => t.inside.isSome) pre = 0 ∧
      List.countP (fun t => t.inside.isSome) post = 0 := by
    split_ifs at hcount
    omega
  have hmem : t' ∈ pre ++ t :: post := hl ▸ List.mem_of_getElem? ht'
  rcases List.mem_append.1 hmem with hm | hm
  · exact absurd hin' (List.countP_eq_zero.1 hpre t' hm)
  · rcases List.mem_cons.1 hm with rfl | hm
    · rfl
    · exact absurd hin' (List.countP_eq_zero.1 hpost t' hm)

/-- The lock is held by a task inside. -/
theorem Exclusive.locked_iff (h : p.Exclusive) :
    p.locked = true ↔ ∃ t ∈ p.tasks, t.inside.isSome = true := by
  rw [← List.countP_pos_iff]
  have hcount := h.lock
  unfold insiders at hcount
  rw [hcount]
  cases p.locked <;> simp

/-- **If a task is left, one can move**: one that is inside, or any, as the lock is free. -/
theorem Exclusive.exists_move (h : p.Exclusive) (hne : p.tasks ≠ []) :
    ∃ t ∈ p.tasks, t.inside.isSome = true ∨ t.inside = none ∧ p.locked = false := by
  cases hlocked : p.locked with
  | true =>
    obtain ⟨t, ht, hin⟩ := h.locked_iff.1 hlocked
    exact ⟨t, ht, .inl hin⟩
  | false =>
    obtain ⟨t, ht⟩ := List.exists_mem_of_ne_nil _ hne
    have hout : ¬ t.inside.isSome = true := fun hin => by
      have htrue := h.locked_iff.2 ⟨t, ht, hin⟩
      rw [hlocked] at htrue
      cases htrue
    exact ⟨t, ht, .inr ⟨Option.not_isSome_iff_eq_none.1 hout, rfl⟩⟩

end Pool

end SingleFlight
