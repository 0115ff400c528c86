import Polymaker.Domain
import Polymaker.Lib.Run
import Polymaker.Lib.Supervision

/-!
# The tasks of the engine

`start` of `engine.py` spawns the engine's loops under names, `_supervise` gives those that have
ended new tasks, and `run_forever` awaits the first tasks, all of them, with one `gather`.

* `Loop`, `Loop.name`: the loops, and their names;
* `EngineTasks`, `TaskEvent`, `EngineTasks.step`: the tasks, which of them are awaited, and whether
  the engine runs;
* `first_tasks_returned`: as long as it runs, no first task has raised or was cancelled, so those a
  supervisor gave a successor had returned; a pass leaves a running task under every name but its
  own;
* `shadowed_loop`: a loop whose name was taken by a later one is made once and never again.
-/

namespace Polymaker

/-- What a task of the engine runs. -/
inductive Loop
  | marketWs
  | userWs
  | heartbeat
  | reconcile
  | metadata
  | maintenance
  | quoter (cid : ConditionId)
  | supervisor
  deriving DecidableEq, Repr

/-- The name a loop is spawned under; of a market it has the first eight characters. -/
def Loop.name : Loop → String
  | .marketWs => "market_ws"
  | .userWs => "user_ws"
  | .heartbeat => "heartbeat"
  | .reconcile => "reconcile"
  | .metadata => "metadata"
  | .maintenance => "maintenance"
  | .quoter cid => "quote:" ++ String.ofList (cid.toList.take 8)
  | .supervisor => "supervisor"

/-- How a task ends. -/
inductive Ending
  | returned
  | raised
  | cancelled
  deriving DecidableEq, Repr

/-- The tasks by name, those that `run_forever` awaits, and whether the engine runs. -/
structure EngineTasks where
  roster : Supervision.Roster String Loop Ending
  awaited : List ℕ
  running : Bool

/-- What happens to the tasks. -/
inductive TaskEvent
  | ended (i : ℕ) (how : Ending)
  /-- The supervisor makes a pass, if it runs. -/
  | supervised
  deriving DecidableEq, Repr

namespace EngineTasks

/-- The loops that `start` spawns for these markets, in their order. -/
def loops (paper : Bool) (cids : List ConditionId) : List Loop :=
  [.marketWs] ++ (if paper then [] else [.userWs, .heartbeat]) ++
    [.reconcile, .metadata, .maintenance] ++ cids.map .quoter ++ [.supervisor]

/-- `_spawn`, one after the other, and then `run_forever`. -/
def start (loops : List Loop) : EngineTasks :=
  let roster := loops.foldl (fun r l => r.spawn l.name l) Supervision.Roster.empty
  ⟨roster, roster.tasks.values, true⟩

/-- A task of the supervisor runs. -/
def Supervised (d : EngineTasks) : Prop := (.supervisor, none) ∈ d.roster.made

instance (d : EngineTasks) : Decidable d.Supervised := inferInstanceAs (Decidable (_ ∈ _))

/-- A task ends.  The `gather` ends with the first awaited task that raises or is cancelled, or when
all have returned, and the engine with it. -/
def finish (d : EngineTasks) (i : ℕ) (how : Ending) : EngineTasks :=
  let roster := d.roster.finish i how
  { d with
    roster
    running := d.running && !decide (i ∈ d.awaited ∧ d.roster.Live i ∧ how ≠ .returned) &&
      decide (∃ j ∈ d.awaited, roster.Live j) }

/-- One event. -/
def step (d : EngineTasks) : TaskEvent → EngineTasks
  | .ended i how => d.finish i how
  | .supervised =>
    if d.running = true ∧ d.Supervised then
      { d with roster := d.roster.pass Loop.supervisor.name }
    else d

/-- How a task ended, if it has. -/
def ending (d : EngineTasks) (i : ℕ) : Option Ending := (d.roster.made[i]?).bind Prod.snd

/-- What every step keeps: the roster is sound, its jobs are those registered at the start, and
while the engine runs no awaited task has raised or was cancelled. -/
structure Orderly (specs : Dict String Loop) (d : EngineTasks) : Prop where
  sound : d.roster.Sound
  specs : d.roster.specs = specs
  awaited : ∀ i ∈ d.awaited, i < d.roster.made.length
  returned : d.running = true → ∀ i ∈ d.awaited, ∀ how ∈ d.ending i, how = .returned

variable {specs : Dict String Loop} {d : EngineTasks}

theorem orderly_finish (h : Orderly specs d) (i : ℕ) (how : Ending) :
    Orderly specs (d.finish i how) := by
  refine ⟨h.sound.finish i how, h.specs, fun j hj => ?_, fun hrunning j hj end' hend => ?_⟩
  · change j < (d.roster.made.modify i _).length
    rw [List.length_modify]
    exact h.awaited j hj
  · change (d.running && _ && _) = true at hrunning
    rw [Bool.and_eq_true, Bool.and_eq_true] at hrunning
    obtain ⟨⟨hwas, hnot⟩, -⟩ := hrunning
    change end' ∈ ((d.roster.finish i how).made[j]?).bind Prod.snd at hend
    rw [Supervision.Roster.getElem?_finish] at hend
    have hold := h.returned hwas j hj
    unfold ending at hold
    rcases ht : d.roster.made[j]? with _ | ⟨l, ending⟩
    · rw [ht] at hend
      cases hend
    · rw [ht] at hend hold
      change end' ∈ (if i = j then (l, some (ending.getD how)) else (l, ending)).2 at hend
      split_ifs at hend with hij
      · subst hij
        cases ending with
        | some old =>
          obtain rfl := Option.some.inj hend
          exact hold _ rfl
        | none =>
          obtain rfl := Option.some.inj hend
          by_contra hraised
          have hlive : d.roster.Live i := by
            unfold Supervision.Roster.Live
            rw [ht]
            rfl
          rw [Bool.not_eq_true', decide_eq_false_iff_not] at hnot
          exact hnot ⟨hj, hlive, hraised⟩
      · exact hold _ hend

theorem orderly_step (h : Orderly specs d) (e : TaskEvent) : Orderly specs (d.step e) := by
  cases e with
  | ended i how => exact orderly_finish h i how
  | supervised =>
    unfold step
    simp only
    split_ifs with hruns
    · have hpass := h.sound.pass Loop.supervisor.name
      obtain ⟨l, hl, -⟩ := hpass.made
      refine ⟨hpass.sound, hpass.specs.trans h.specs, fun i hi => ?_, fun _ i hi how hhow => ?_⟩
      · change i < (d.roster.pass Loop.supervisor.name).made.length
        rw [hl, List.length_append]
        exact (h.awaited i hi).trans_le (Nat.le_add_right _ _)
      · change how ∈ ((d.roster.pass Loop.supervisor.name).made[i]?).bind Prod.snd at hhow
        rw [hl, List.getElem?_append_left (h.awaited i hi)] at hhow
        exact h.returned hruns.1 i hi how hhow
    · exact h

/-! ### The start -/

theorem sound_foldl_spawn (loops : List Loop) {r : Supervision.Roster String Loop Ending}
    (h : r.Sound) : (loops.foldl (fun r l => r.spawn l.name l) r).Sound :=
  List.foldlRecOn loops _ h fun _ hr l _ => hr.spawn l.name l

/-- Nothing has ended at the start. -/
theorem made_foldl_spawn (loops : List Loop) (r : Supervision.Roster String Loop Ending) :
    (loops.foldl (fun r l => r.spawn l.name l) r).made =
      r.made ++ loops.map fun l => (l, none) := by
  induction loops generalizing r with
  | nil => exact (List.append_nil _).symm
  | cons l loops ih =>
    rw [List.foldl_cons, ih, List.map_cons]
    exact List.append_assoc ..

theorem tasks_lt_foldl_spawn (loops : List Loop) {r : Supervision.Roster String Loop Ending}
    (h : ∀ k i, r.tasks.get? k = some i → i < r.made.length) (k : String) (i : ℕ)
    (hi : (loops.foldl (fun r l => r.spawn l.name l) r).tasks.get? k = some i) :
    i < (loops.foldl (fun r l => r.spawn l.name l) r).made.length := by
  induction loops generalizing r with
  | nil => exact h k i hi
  | cons l loops ih =>
    refine ih (fun j m hm => ?_) hi
    change (r.tasks.set l.name r.made.length).get? j = some m at hm
    change m < (r.made ++ [(l, none)]).length
    rw [List.length_append, List.length_singleton]
    rw [Dict.get?_set] at hm
    split_ifs at hm
    · obtain rfl := Option.some.inj hm
      exact Nat.lt_succ_self _
    · exact (h j m hm).trans (Nat.lt_succ_self _)

theorem orderly_start (loops : List Loop) :
    Orderly (start loops).roster.specs (start loops) := by
  refine ⟨sound_foldl_spawn loops Supervision.Roster.sound_empty, rfl, fun i hi => ?_,
    fun _ i _ how hhow => ?_⟩
  · obtain ⟨k, hk⟩ := Dict.mem_values_iff.1 hi
    exact tasks_lt_foldl_spawn loops (fun k i h => by cases h) k i hk
  · change how ∈ ((start loops).roster.made[i]?).bind Prod.snd at hhow
    have hmade : (start loops).roster.made = loops.map fun l => (l, none) :=
      made_foldl_spawn loops _
    rw [hmade, List.getElem?_map] at hhow
    simp [Option.bind_eq_some_iff] at hhow

theorem orderly_run (loops : List Loop) (es : List TaskEvent) :
    Orderly (start loops).roster.specs (Run.run step (start loops) es) :=
  Run.run_of_forall_mem (P := Orderly (start loops).roster.specs)
    (fun _ e _ h => orderly_step h e) (orderly_start loops)

/-- The loop registered under a name is the last one spawned under it. -/
theorem specs_start (loops : List Loop) (name : String) :
    (start loops).roster.specs.get? name =
      (loops.filter fun l => decide (l.name = name)).getLast? := by
  change (loops.foldl (fun r l => r.spawn l.name l) Supervision.Roster.empty).specs.get? name = _
  induction loops using List.reverseRecOn with
  | nil => rfl
  | append_singleton loops l ih =>
    rw [List.foldl_append, List.foldl_cons, List.foldl_nil, List.filter_append]
    change (Dict.set _ l.name l).get? name = _
    rw [Dict.get?_set, ih]
    by_cases h : l.name = name
    · rw [if_pos h.symm]
      simp [h]
    · rw [if_neg (Ne.symm h)]
      simp [h]

/-- **What supervision comes to.**  In any run of the engine's tasks, as long as the engine runs: no
task that it awaits has raised or was cancelled, so one that a pass gives a successor has returned;
and after a pass every name but the supervisor's has a running task, of the loop that was spawned
under it last. -/
theorem first_tasks_returned (loops : List Loop) (es : List TaskEvent) :
    let d := Run.run step (start loops) es
    (d.running = true → ∀ i ∈ d.awaited, ∀ how ∈ d.ending i, how = .returned) ∧
      (d.running = true → d.Supervised → ∀ l, l.name ≠ Loop.supervisor.name →
        (loops.filter fun l' => decide (l'.name = l.name)).getLast? = some l →
          ∃ i, (d.step .supervised).roster.tasks.get? l.name = some i ∧
            (d.step .supervised).roster.made[i]? = some (l, none)) := by
  intro d
  have horderly : Orderly (start loops).roster.specs d := orderly_run loops es
  refine ⟨horderly.returned, fun hrunning hsupervised l hname hlast => ?_⟩
  have hpass := horderly.sound.pass Loop.supervisor.name
  have hroster : (d.step .supervised).roster = d.roster.pass Loop.supervisor.name := by
    unfold step
    simp only [hrunning, hsupervised, and_self, if_true]
  rw [← specs_start, ← horderly.specs] at hlast
  obtain ⟨i₀, hi₀, -⟩ := horderly.sound.tasks l.name l hlast
  obtain ⟨i, hi, hlive⟩ := hpass.live l.name (Dict.mem_of_get? hi₀) hname
  rw [← hpass.specs] at hlast
  obtain ⟨i', hi', hjob⟩ := hpass.sound.tasks l.name l hlast
  obtain rfl := Option.some.inj (hi.symm.trans hi')
  rw [hroster]
  refine ⟨i, hi, ?_⟩
  obtain ⟨⟨l', end'⟩, ht, hnone⟩ := (Option.any_eq_true _ _).1 hlive
  rw [ht] at hjob ⊢
  obtain rfl := Option.some.inj hjob
  obtain rfl : end' = none := Option.isNone_iff_eq_none.1 hnone
  rfl

/-- The tasks made of a loop. -/
def madeOf (d : EngineTasks) (l : Loop) : ℕ := (d.roster.made.map Prod.fst).count l

theorem madeOf_step_ended (d : EngineTasks) (i : ℕ) (how : Ending) (l : Loop) :
    (d.step (.ended i how)).madeOf l = d.madeOf l := by
  change ((d.roster.made.modify i _).map Prod.fst).count l = _
  unfold madeOf
  congr 1
  refine List.ext_getElem? fun j => ?_
  rw [List.getElem?_map, List.getElem?_map, List.getElem?_modify]
  cases d.roster.made[j]? with
  | none => rfl
  | some t => simp only [Option.map_eq_map, Option.map_some]; split_ifs <;> rfl

/-- A pass makes no task of a loop that stands under no name. -/
theorem madeOf_step_supervised {loops : List Loop} {d : EngineTasks} {l : Loop}
    (h : Orderly (start loops).roster.specs d)
    (hnone : ∀ name, (start loops).roster.specs.get? name ≠ some l) :
    (d.step .supervised).madeOf l = d.madeOf l := by
  unfold step
  simp only
  split_ifs
  · obtain ⟨added, hadded, hjobs⟩ := (h.sound.pass Loop.supervisor.name).made
    change ((d.roster.pass Loop.supervisor.name).made.map Prod.fst).count l = _
    rw [hadded, List.map_append, List.count_append]
    have hfresh : (added.map Prod.fst).count l = 0 := by
      refine List.count_eq_zero.2 fun hmem => ?_
      obtain ⟨t, ht, rfl⟩ := List.mem_map.1 hmem
      obtain ⟨k, -, hk⟩ := hjobs t ht
      rw [h.specs] at hk
      exact hnone k hk
    rw [hfresh]
    rfl
  · rfl

theorem madeOf_start {loops : List Loop} (hnodup : loops.Nodup) {l : Loop} (hl : l ∈ loops) :
    (start loops).madeOf l = 1 := by
  have hmade : (start loops).roster.made = loops.map fun l => (l, none) :=
    made_foldl_spawn loops _
  unfold madeOf
  rw [hmade, List.map_map]
  change (loops.map id).count l = 1
  rw [List.map_id, List.count_eq_one_of_mem hnodup hl]

/-- **A loop whose name a later one took is never made again**: in any run of the tasks of distinct
loops it has had one task, so once that has ended nothing does its job. -/
theorem shadowed_loop (loops : List Loop) (hnodup : loops.Nodup) (es : List TaskEvent) {l : Loop}
    (hl : l ∈ loops)
    (hshadowed : (loops.filter fun l' => decide (l'.name = l.name)).getLast? ≠ some l) :
    (Run.run step (start loops) es).madeOf l = 1 := by
  have hnone : ∀ name, (start loops).roster.specs.get? name ≠ some l := by
    intro name hspec
    rw [specs_start] at hspec
    have hname := (List.mem_filter.1 (List.mem_of_getLast? hspec)).2
    rw [← of_decide_eq_true hname] at hspec
    exact hshadowed hspec
  have hinv : Orderly (start loops).roster.specs (Run.run step (start loops) es) ∧
      (Run.run step (start loops) es).madeOf l = 1 := by
    refine Run.run_of_forall_mem
      (P := fun d => Orderly (start loops).roster.specs d ∧ d.madeOf l = 1) ?_
      ⟨orderly_start loops, madeOf_start hnodup hl⟩
    rintro d e - ⟨horderly, hmade⟩
    refine ⟨orderly_step horderly e, ?_⟩
    rw [← hmade]
    cases e with
    | ended i how => exact madeOf_step_ended d i how l
    | supervised => exact madeOf_step_supervised horderly hnone
  exact hinv.2

/-- Two markets whose ids begin alike: the quoter of the first ends, and a pass does not revive
it. -/
theorem shadowed_loop_of_prefix :
    let cids := ["0x1234567", "0x1234568"]
    let d := Run.run step (start (loops false cids)) [.ended 6 .returned, .supervised]
    d.running = true ∧ d.madeOf (.quoter "0x1234567") = 1 ∧
      (Loop.quoter "0x1234567", none) ∉ d.roster.made := by
  intro cids d
  exact ⟨by decide +kernel, shadowed_loop (loops false cids) (by decide +kernel)
    [.ended 6 .returned, .supervised] (by decide +kernel) (by decide +kernel), by decide +kernel⟩

end EngineTasks

end Polymaker
