import Mathlib.Data.List.Infix
import Mathlib.Tactic.Common

/-!
# Runs of a deterministic system

A system is a step function `step : σ → ε → σ`; a run folds a list of events through it.

* `run step s es`: the state the events `es` lead to from `s`;
* `Always step P s es`: `P` holds in every state the run passes through, both ends included;
* `EachStep step C s es`: every event meets the condition `C` in the state it arrives in;
* `always_of_step`, `always_iff_eachStep`: the induction over a run, done once.  What every step
  keeps holds all along, and what every valid step keeps does so along a run of valid steps
  (`always_of_valid`, and `run_of_forall_mem` for the end of the run).  Where `C` is exactly what
  keeps `P`, `Always P` and `EachStep C` are equivalent, also over the runs of valid steps alone
  (`always_iff_eachStep_of_valid`, and `eachStep_of_always` for one half of it) and together with a
  property of the steps themselves (`always_and_eachStep_iff`); two conditions that are equivalent
  in a valid step are so along a run (`eachStep_iff_of_valid`);
* `answers step s es`: what a system whose steps answer says along a run, and
  `answers_of_bisim`: two such systems in states that a bisimulation relates answer alike.
-/

namespace Run

variable {σ ε : Type*} (step : σ → ε → σ)

/-- The state the events `es` lead to. -/
def run (s : σ) (es : List ε) : σ := es.foldl step s

@[simp] theorem run_nil (s : σ) : run step s [] = s := rfl

@[simp] theorem run_cons (s : σ) (e : ε) (es : List ε) :
    run step s (e :: es) = run step (step s e) es := rfl

@[simp] theorem run_append (s : σ) (es fs : List ε) :
    run step s (es ++ fs) = run step (run step s es) fs := List.foldl_append

/-- `P` holds in every state the run passes through. -/
def Always (P : σ → Prop) (s : σ) (es : List ε) : Prop :=
  ∀ pre, pre <+: es → P (run step s pre)

/-- Every event of the run meets `C` in the state it arrives in. -/
def EachStep (C : σ → ε → Prop) (s : σ) (es : List ε) : Prop :=
  ∀ pre e post, es = pre ++ e :: post → C (run step s pre) e

variable {step}

@[simp] theorem always_nil {P : σ → Prop} {s : σ} : Always step P s [] ↔ P s := by
  simp [Always]

@[simp] theorem always_cons {P : σ → Prop} {s : σ} {e : ε} {es : List ε} :
    Always step P s (e :: es) ↔ P s ∧ Always step P (step s e) es := by
  constructor
  · intro h
    exact ⟨h [] List.nil_prefix, fun pre hp => h (e :: pre) ((List.prefix_cons_inj e).2 hp)⟩
  · rintro ⟨h0, h⟩ pre hp
    cases pre with
    | nil => exact h0
    | cons f pre =>
      obtain ⟨rfl, hp'⟩ := List.cons_prefix_cons.1 hp
      exact h pre hp'

@[simp] theorem eachStep_nil {C : σ → ε → Prop} {s : σ} : EachStep step C s [] := by
  intro pre e post h
  exact absurd h.symm (by simp)

@[simp] theorem eachStep_cons {C : σ → ε → Prop} {s : σ} {e : ε} {es : List ε} :
    EachStep step C s (e :: es) ↔ C s e ∧ EachStep step C (step s e) es := by
  constructor
  · intro h
    refine ⟨h [] e es rfl, fun pre f post hes => ?_⟩
    exact h (e :: pre) f post (by rw [hes, List.cons_append])
  · rintro ⟨h0, h⟩ pre f post hes
    cases pre with
    | nil =>
      rw [List.nil_append, List.cons.injEq] at hes
      rw [← hes.1]; exact h0
    | cons g pre =>
      rw [List.cons_append, List.cons.injEq] at hes
      rw [← hes.1]; exact h pre f post hes.2

/-- A condition on the events alone is met at each step when it is met by each event. -/
theorem eachStep_const_iff {C : ε → Prop} {s : σ} {es : List ε} :
    EachStep step (fun _ => C) s es ↔ ∀ e ∈ es, C e := by
  induction es generalizing s with
  | nil => simp
  | cons e es ih => rw [eachStep_cons, ih, List.forall_mem_cons]

/-- The last state of a run is one it passes through. -/
theorem Always.last {P : σ → Prop} {s : σ} {es : List ε} (h : Always step P s es) :
    P (run step s es) := h es List.prefix_rfl

/-- A property that every valid step keeps holds all along a run of valid steps. -/
theorem always_of_valid {P : σ → Prop} {V : σ → ε → Prop}
    (hstep : ∀ s e, P s → V s e → P (step s e)) {s : σ} (hs : P s) {es : List ε}
    (hV : EachStep step V s es) : Always step P s es := by
  induction es generalizing s with
  | nil => simpa using hs
  | cons e es ih =>
    obtain ⟨hVe, hVes⟩ := eachStep_cons.1 hV
    exact always_cons.2 ⟨hs, ih (hstep s e hs hVe) hVes⟩

/-- A property that every step keeps holds all along a run. -/
theorem always_of_step {P : σ → Prop} (hstep : ∀ s e, P s → P (step s e)) {s : σ} (hs : P s)
    (es : List ε) : Always step P s es :=
  always_of_valid (V := fun _ _ => True) (fun s e h _ => hstep s e h) hs fun _ _ _ _ => trivial

/-- A property that every event of a list keeps holds at the end of its run. -/
theorem run_of_forall_mem {P : σ → Prop} {es : List ε} (hstep : ∀ s, ∀ e ∈ es, P s → P (step s e))
    {s : σ} (hs : P s) : P (run step s es) :=
  List.foldlRecOn es step hs fun s hs e he => hstep s e he hs

/-- Where a valid step that meets `C` keeps the invariant `I`, and a valid step meets `C` if it
leads to a state with `P`, every step of a valid run meets `C` if the states it passes through have
`P`. -/
theorem eachStep_of_always {I P : σ → Prop} {V C : σ → ε → Prop}
    (hI : ∀ s e, I s → V s e → C s e → I (step s e))
    (hC : ∀ s e, I s → V s e → P (step s e) → C s e) {s : σ} (hIs : I s) {es : List ε}
    (hV : EachStep step V s es) (hP : Always step P s es) : EachStep step C s es := by
  induction es generalizing s with
  | nil => exact eachStep_nil
  | cons e es ih =>
    obtain ⟨hVe, hVes⟩ := eachStep_cons.1 hV
    obtain ⟨-, hP⟩ := always_cons.1 hP
    have hCe : C s e := hC s e hIs hVe (hP [] List.nil_prefix)
    exact eachStep_cons.2 ⟨hCe, ih (hI s e hIs hVe hCe) hVes hP⟩

/-- Where two conditions on a valid step are equivalent, given an invariant `I` of the valid steps,
every step of a run of valid steps meets the one if and only if every step meets the other. -/
theorem eachStep_iff_of_valid {I : σ → Prop} {V Q C : σ → ε → Prop}
    (hI : ∀ s e, I s → V s e → I (step s e)) (h : ∀ s e, I s → V s e → (Q s e ↔ C s e)) {s : σ}
    (hIs : I s) {es : List ε} (hV : EachStep step V s es) :
    EachStep step Q s es ↔ EachStep step C s es := by
  induction es generalizing s with
  | nil => simp
  | cons e es ih =>
    obtain ⟨hVe, hVes⟩ := eachStep_cons.1 hV
    rw [eachStep_cons, eachStep_cons, h s e hIs hVe, ih (hI s e hIs hVe) hVes]

/-- Where every step of a run is valid, and `C` is exactly what keeps `P` in a valid step, given an
invariant `I` of the valid steps, `P` holds all along the run if and only if every step meets
`C`. -/
theorem always_iff_eachStep_of_valid {I P : σ → Prop} {V C : σ → ε → Prop}
    (hI : ∀ s e, I s → V s e → I (step s e))
    (hstep : ∀ s e, I s → V s e → P s → (P (step s e) ↔ C s e)) {s : σ} (hIs : I s) (hs : P s)
    {es : List ε} (hV : EachStep step V s es) : Always step P s es ↔ EachStep step C s es := by
  induction es generalizing s with
  | nil => simpa using hs
  | cons e es ih =>
    obtain ⟨hVe, hVes⟩ := eachStep_cons.1 hV
    rw [always_cons, eachStep_cons, ← hstep s e hIs hVe hs]
    constructor
    · rintro ⟨-, h⟩
      have hP : P (step s e) := h [] List.nil_prefix
      exact ⟨hP, (ih (hI s e hIs hVe) hP hVes).1 h⟩
    · rintro ⟨hP, h⟩
      exact ⟨hs, (ih (hI s e hIs hVe) hP hVes).2 h⟩

/-- Where `C` is exactly what keeps `P`, given an invariant `I` of all steps, `P` holds all along
a run if and only if every step of the run meets `C`. -/
theorem always_iff_eachStep {I P : σ → Prop} {C : σ → ε → Prop}
    (hI : ∀ s e, I s → I (step s e)) (hstep : ∀ s e, I s → P s → (P (step s e) ↔ C s e))
    {s : σ} (hIs : I s) (hs : P s) {es : List ε} :
    Always step P s es ↔ EachStep step C s es :=
  always_iff_eachStep_of_valid (V := fun _ _ => True) (fun s e h _ => hI s e h)
    (fun s e h _ => hstep s e h) hIs hs fun _ _ _ _ => trivial

/-- Where `C` is exactly what keeps `P` and gives `Q`, a condition on the steps themselves, both
hold all along a run if and only if every step of the run meets `C`. -/
theorem always_and_eachStep_iff {I P : σ → Prop} {Q C : σ → ε → Prop}
    (hI : ∀ s e, I s → I (step s e)) (hstep : ∀ s e, I s → P s → (P (step s e) ∧ Q s e ↔ C s e))
    {s : σ} (hIs : I s) (hs : P s) {es : List ε} :
    Always step P s es ∧ EachStep step Q s es ↔ EachStep step C s es := by
  induction es generalizing s with
  | nil => simpa using hs
  | cons e es ih =>
    rw [always_cons, eachStep_cons, eachStep_cons, ← hstep s e hIs hs]
    constructor
    · rintro ⟨⟨-, h⟩, hQ, hQs⟩
      have hP : P (step s e) := h [] List.nil_prefix
      exact ⟨⟨hP, hQ⟩, (ih (hI s e hIs) hP).1 ⟨h, hQs⟩⟩
    · rintro ⟨⟨hP, hQ⟩, h⟩
      obtain ⟨hall, hQs⟩ := (ih (hI s e hIs) hP).2 h
      exact ⟨⟨hs, hall⟩, hQ, hQs⟩

/-! ### Systems that answer -/

variable {τ ω : Type*}

/-- The answers along a run, for a step that gives the next state and an answer. -/
def answers (step : σ → ε → σ × ω) (s : σ) : List ε → List ω
  | [] => []
  | e :: es => (step s e).2 :: answers step (step s e).1 es

/-- Systems in related states answer alike and stay related, where the relation says so of one
step. -/
theorem answers_of_bisim {step : σ → ε → σ × ω} {step' : τ → ε → τ × ω} {R : σ → τ → Prop}
    (hR : ∀ s t e, R s t → R (step s e).1 (step' t e).1 ∧ (step s e).2 = (step' t e).2) {s : σ}
    {t : τ} (h : R s t) (es : List ε) :
    R (run (fun s e => (step s e).1) s es) (run (fun t e => (step' t e).1) t es) ∧
      answers step s es = answers step' t es := by
  induction es generalizing s t with
  | nil => exact ⟨h, rfl⟩
  | cons e es ih =>
    obtain ⟨hnext, hout⟩ := hR s t e h
    obtain ⟨hrun, hans⟩ := ih hnext
    refine ⟨hrun, ?_⟩
    rw [answers, answers, hout, hans]

end Run
