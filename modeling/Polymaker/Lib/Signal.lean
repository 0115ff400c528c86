import Polymaker.Lib.Run

/-!
# A worker behind a signal

A worker waits for a signal or for a timeout, lets a burst of changes settle, clears the signal, and
then looks at the world and works on what it saw.  The world changes meanwhile, and raises the
signal where that concerns the worker.

* `World`: a world with a signal, and what of it concerns the worker (`view`); a change of the view
  raises the signal, and nothing but the worker lowers it;
* `Phase`, `Worker.step`: the loop of the worker, step by step, among the changes of the world;
* `Fresh`, `fresh_run`: while the signal is down and the worker is not about to look, it has seen
  the present view, so no change is missed;
* `exists_look`: among any five steps of the worker there is a look.
-/

namespace Signal

variable {σ ε ν : Type*}

/-- A world that signals its changes. -/
structure World (σ ε ν : Type*) where
  change : σ → ε → σ
  view : σ → ν
  raised : σ → Bool
  clear : σ → σ
  view_clear : ∀ s, view (clear s) = view s
  raised_change : ∀ s e, raised s = true → raised (change s e) = true
  notifies : ∀ s e, view (change s e) ≠ view s → raised (change s e) = true

/-- Where the worker is in its loop. -/
inductive Phase
  /-- It waits for the signal, or for the timeout. -/
  | waiting
  /-- It was woken by the signal, and lets a burst settle. -/
  | settling
  /-- It has cleared the signal, and is about to look. -/
  | looking
  /-- It works on what it saw. -/
  | working
  /-- It rests after an error. -/
  | resting
  deriving DecidableEq, Repr

/-- The steps the worker needs to get to its look. -/
def Phase.toLook : Phase → ℕ
  | .looking => 0
  | .settling => 1
  | .waiting => 2
  | .resting => 3
  | .working => 4

theorem Phase.toLook_le (p : Phase) : p.toLook ≤ 4 := by cases p <;> decide

/-- The world, where the worker is, and what it saw when it last looked. -/
structure Worker (σ ν : Type*) where
  world : σ
  phase : Phase
  seen : ν

/-- A change of the world, or a step of the worker, whose work ends well or not. -/
inductive Event (ε : Type*)
  | change (e : ε)
  | work (ok : Bool)

/-- The event is a step of the worker. -/
def Event.isWork : Event ε → Bool
  | .change _ => false
  | .work _ => true

namespace Worker

variable (W : World σ ε ν)

/-- The worker starts to wait on a world it has the view of. -/
def start (s : σ) : Worker σ ν := ⟨s, .waiting, W.view s⟩

/-- A step of the worker: woken in time it lets the burst settle, and it clears the signal before it
looks. -/
def work (w : Worker σ ν) (ok : Bool) : Worker σ ν :=
  match w.phase with
  | .waiting =>
    if W.raised w.world then { w with phase := .settling }
    else { w with world := W.clear w.world, phase := .looking }
  | .settling => { w with world := W.clear w.world, phase := .looking }
  | .looking => { w with seen := W.view w.world, phase := .working }
  | .working => { w with phase := if ok then .waiting else .resting }
  | .resting => { w with phase := .waiting }

/-- One event. -/
def step (w : Worker σ ν) : Event ε → Worker σ ν
  | .change e => { w with world := W.change w.world e }
  | .work ok => w.work W ok

/-! ### Nothing is missed -/

/-- The worker is up to date, unless it has been signalled or is about to look. -/
def Fresh (w : Worker σ ν) : Prop :=
  w.seen = W.view w.world ∨ W.raised w.world = true ∨ w.phase = .looking

variable {W} {w : Worker σ ν}

theorem fresh_start (s : σ) : (start W s).Fresh W := .inl rfl

theorem fresh_step (h : w.Fresh W) (e : Event ε) : (w.step W e).Fresh W := by
  cases e with
  | change e =>
    rcases h with hseen | hraised | hlook
    · by_cases hview : W.view (W.change w.world e) = W.view w.world
      · exact .inl (hseen.trans hview.symm)
      · exact .inr (.inl (W.notifies w.world e hview))
    · exact .inr (.inl (W.raised_change w.world e hraised))
    · exact .inr (.inr hlook)
  | work ok =>
    change (w.work W ok).Fresh W
    unfold work
    split
    · rename_i hphase
      split_ifs with hraised
      · exact .inr (.inl hraised)
      · exact .inr (.inr rfl)
    · exact .inr (.inr rfl)
    · exact .inl rfl
    all_goals
      rename_i hphase
      rcases h with hseen | hraised | hlook
      · exact .inl hseen
      · exact .inr (.inl hraised)
      · rw [hphase] at hlook
        cases hlook

/-- **No change is missed**: along any run, the worker is up to date unless it has been signalled or
is about to look. -/
theorem fresh_run (h : w.Fresh W) (es : List (Event ε)) : Run.Always (step W) (Fresh W) w es :=
  Run.always_of_step (P := Fresh W) (fun _ e h => fresh_step h e) h es

/-! ### The worker gets to look -/

/-- A step of the worker that is no look brings it nearer to one. -/
theorem toLook_work (h : w.phase ≠ .looking) (ok : Bool) :
    (w.work W ok).phase.toLook < w.phase.toLook := by
  unfold work
  split
  · rename_i hphase
    rw [hphase]
    split_ifs <;> simp [Phase.toLook]
  all_goals
    rename_i hphase
    rw [hphase] at h ⊢
  · simp [Phase.toLook]
  · exact absurd rfl h
  · cases ok <;> simp [Phase.toLook]
  · simp [Phase.toLook]

/-- The steps of the worker in a run. -/
def works (es : List (Event ε)) : ℕ := es.countP Event.isWork

variable (W) in
/-- The run passes through a look. -/
def Looks (w : Worker σ ν) (es : List (Event ε)) : Prop :=
  ∃ pre ok post, es = pre ++ .work ok :: post ∧ (Run.run (step W) w pre).phase = .looking

/-- **The worker looks** within the steps it needs, whatever the world does between them. -/
theorem looks_of_toLook_lt {es : List (Event ε)} (h : w.phase.toLook < works es) :
    Looks W w es := by
  induction es generalizing w with
  | nil => exact absurd h (Nat.not_lt_zero _)
  | cons e es ih =>
    cases e with
    | change e =>
      have hrest : works (.change e :: es) = works es :=
        List.countP_cons_of_neg (by simp [Event.isWork])
      rw [hrest] at h
      obtain ⟨pre, ok, post, rfl, hlook⟩ := ih (w := w.step W (.change e)) h
      exact ⟨.change e :: pre, ok, post, rfl, hlook⟩
    | work ok =>
      by_cases hphase : w.phase = .looking
      · exact ⟨[], ok, es, rfl, hphase⟩
      · have hrest : works (.work ok :: es) = works es + 1 := List.countP_cons_of_pos rfl
        have hnear := toLook_work (W := W) hphase ok
        have hlt : (w.step W (.work ok)).phase.toLook < works es := by
          change (w.work W ok).phase.toLook < works es
          omega
        obtain ⟨pre, ok', post, rfl, hlook⟩ := ih hlt
        exact ⟨.work ok :: pre, ok', post, rfl, hlook⟩

/-- Among any five steps of the worker there is a look. -/
theorem exists_look {es : List (Event ε)} (h : 5 ≤ works es) : Looks W w es :=
  looks_of_toLook_lt (Nat.lt_of_le_of_lt w.phase.toLook_le h)

end Worker

end Signal
