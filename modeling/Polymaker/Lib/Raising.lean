import Polymaker.Lib.Run

/-!
# Computations that raise

`Except ε α` read as a computation that may raise: some exceptions are handled where they arise, the
others go on outwards.

* `Escapes handled x`: `x` raises something that `handled` does not name;
* `tryExcept handled x`: `x` with those exceptions handled, by giving nothing;
* `collect f`: a loop that keeps what each item gives, and ends when one raises;
* `foldlM_eq_ok`, `raises_foldlM`: a loop over a state that does not raise, and one that does;
  `foldlM_eq_ok_iff`: by the run of another system;
* `into s x f`: a state changed by what a computation gives, or left where it raises;
* `runAll step`: the steps of a batch, one after the other, up to the first one that raises;
* `Isolated step s ms`: the batch does not raise, and does what its messages do alone;
* `isolated_iff`: a batch is isolated if and only if none of its messages raises in the state in
  which it arrives, and `runAll_of_first_bad`: what comes after the first one that does is lost.
-/

namespace Raising

universe u

variable {α β : Type u} {ε ι σ μ : Type*}

/-- It raises something that is not handled. -/
def Escapes (handled : List ε) (x : Except ε α) : Prop := ∃ e, x = .error e ∧ e ∉ handled

/-- It raises. -/
abbrev Raises (x : Except ε α) : Prop := Escapes [] x

section Escapes

variable {handled : List ε}

theorem raises_iff {x : Except ε α} : Raises x ↔ ∃ e, x = .error e := by simp [Escapes]

@[simp] theorem not_escapes_ok (a : α) : ¬ Escapes handled (.ok a : Except ε α) := by
  rintro ⟨e, he, -⟩
  exact absurd he (by simp)

@[simp] theorem not_escapes_pure (a : α) : ¬ Escapes handled (pure a : Except ε α) :=
  not_escapes_ok a

@[simp] theorem escapes_error {e : ε} : Escapes handled (.error e : Except ε α) ↔ e ∉ handled := by
  simp [Escapes]

theorem exists_ok_of_not_raises {x : Except ε α} (h : ¬ Raises x) : ∃ a, x = .ok a := by
  cases x with
  | ok a => exact ⟨a, rfl⟩
  | error e => exact absurd (raises_iff.2 ⟨e, rfl⟩) h

theorem toOption_eq_some {x : Except ε α} {a : α} : x.toOption = some a ↔ x = .ok a := by
  cases x <;> simp [Except.toOption]

/-- A sequence gives what the rest gives after its first part. -/
theorem bind_eq_ok {x : Except ε α} {f : α → Except ε β} {b : β} :
    x >>= f = .ok b ↔ ∃ a, x = .ok a ∧ f a = .ok b := by
  cases x with
  | ok a =>
    change f a = .ok b ↔ _
    simp
  | error e =>
    change (.error e : Except ε β) = .ok b ↔ _
    simp

/-- A sequence raises in its first part, or in the rest after what that gives. -/
theorem escapes_bind {x : Except ε α} {f : α → Except ε β} :
    Escapes handled (x >>= f) ↔ Escapes handled x ∨ ∃ a, x = .ok a ∧ Escapes handled (f a) := by
  cases x with
  | ok a =>
    change Escapes handled (f a) ↔ _
    simp
  | error e =>
    change Escapes handled (.error e : Except ε β) ↔ _
    simp

theorem raises_bind {x : Except ε α} {f : α → Except ε β} :
    Raises (x >>= f) ↔ Raises x ∨ ∃ a, x = .ok a ∧ Raises (f a) := escapes_bind

/-- A sequence whose rest raises or not whatever the first part gives. -/
theorem escapes_bind_of_const {x : Except ε α} {f : α → Except ε β} {P : Prop}
    (h : ∀ a, x = .ok a → (Escapes handled (f a) ↔ P)) :
    Escapes handled (x >>= f) ↔ Escapes handled x ∨ ¬ Raises x ∧ P := by
  rw [escapes_bind]
  cases x with
  | ok a =>
    simp only [Except.ok.injEq, exists_eq_left', not_escapes_ok, not_false_eq_true, true_and]
    rw [h a rfl]
  | error e => simp

theorem raises_bind_of_const {x : Except ε α} {f : α → Except ε β} {P : Prop}
    (h : ∀ a, x = .ok a → (Raises (f a) ↔ P)) : Raises (x >>= f) ↔ Raises x ∨ P := by
  refine (escapes_bind_of_const h).trans ?_
  tauto

theorem escapes_map {x : Except ε α} {f : α → β} :
    Escapes handled (f <$> x) ↔ Escapes handled x := by
  cases x with
  | ok a =>
    change Escapes handled (.ok (f a) : Except ε β) ↔ _
    simp
  | error e =>
    change Escapes handled (.error e : Except ε β) ↔ _
    simp

end Escapes

/-! ### Handling -/

section Handling

variable [DecidableEq ε]

/-- `try` and `except` with nothing done: what was handled gives `none`. -/
def tryExcept (handled : List ε) : Except ε α → Except ε (Option α)
  | .ok a => .ok (some a)
  | .error e => if e ∈ handled then .ok none else .error e

theorem tryExcept_of_not_escapes {handled : List ε} {x : Except ε α}
    (h : ¬ Escapes handled x) : tryExcept handled x = .ok x.toOption := by
  cases x with
  | ok a => rfl
  | error e =>
    rw [escapes_error, not_not] at h
    rw [tryExcept, if_pos h]
    rfl

/-- What escapes from a handler is what neither it nor the one around it names. -/
theorem escapes_tryExcept {outer handled : List ε} {x : Except ε α} :
    Escapes outer (tryExcept handled x) ↔ Escapes (handled ++ outer) x := by
  cases x with
  | ok a => simp [tryExcept]
  | error e =>
    rw [tryExcept]
    split_ifs with he <;> simp [he]

theorem escapes_tryExcept_self {handled : List ε} {x : Except ε α} :
    Escapes handled (tryExcept handled x) ↔ Escapes handled x := by
  rw [escapes_tryExcept]
  simp [Escapes]

theorem raises_tryExcept {handled : List ε} {x : Except ε α} :
    Raises (tryExcept handled x) ↔ Escapes handled x := by
  unfold Raises
  rw [escapes_tryExcept, List.append_nil]

end Handling

/-! ### Loops -/

/-- A loop over a list that keeps what its body gives. -/
def collect (f : ι → Except ε (Option β)) : List ι → Except ε (List β)
  | [] => pure []
  | i :: is => do
    let b ← f i
    let bs ← collect f is
    pure (b.toList ++ bs)

/-- Where an item raises only what is not handled, the loop does so exactly when some item does. -/
theorem escapes_collect {handled : List ε} {f : ι → Except ε (Option β)} {l : List ι}
    (h : ∀ i ∈ l, Raises (f i) → Escapes handled (f i)) :
    Escapes handled (collect f l) ↔ ∃ i ∈ l, Escapes handled (f i) := by
  induction l with
  | nil => simp [collect]
  | cons i l ih =>
    obtain ⟨hi, hl⟩ := List.forall_mem_cons.1 h
    simp only [collect, escapes_bind, not_escapes_pure, and_false, exists_false, or_false, ih hl,
      List.exists_mem_cons_iff]
    constructor
    · rintro (hesc | ⟨-, -, hesc⟩)
      · exact .inl hesc
      · exact .inr hesc
    · rintro (hesc | hesc)
      · exact .inl hesc
      · by_cases hr : Raises (f i)
        · exact .inl (hi hr)
        · obtain ⟨b, hb⟩ := exists_ok_of_not_raises hr
          exact .inr ⟨b, hb, hesc⟩

theorem raises_collect {f : ι → Except ε (Option β)} {l : List ι} :
    Raises (collect f l) ↔ ∃ i ∈ l, Raises (f i) := escapes_collect fun _ _ h => h

/-- A loop none of whose items raises keeps what they give. -/
theorem collect_eq_ok {f : ι → Except ε (Option β)} {g : ι → Option β} {l : List ι}
    (h : ∀ i ∈ l, f i = .ok (g i)) : collect f l = .ok (l.filterMap g) := by
  induction l with
  | nil => rfl
  | cons i l ih =>
    obtain ⟨hi, hl⟩ := List.forall_mem_cons.1 h
    rw [collect, hi, ih hl, List.filterMap_cons]
    cases g i <;> rfl

/-- A loop that changes a state and may raise, where `f` gives the states of another system: it does
not raise exactly when no step of that system's run does. -/
theorem foldlM_eq_ok_iff {τ : Type*} {σ : Type u} {step' : σ → μ → Except ε σ} {step : τ → μ → τ}
    {f : τ → σ} {C : τ → μ → Prop}
    (h : ∀ t m s', step' (f t) m = .ok s' ↔ C t m ∧ s' = f (step t m)) (t : τ) (ms : List μ)
    (s' : σ) :
    ms.foldlM step' (f t) = .ok s' ↔ Run.EachStep step C t ms ∧ s' = f (Run.run step t ms) := by
  induction ms generalizing t with
  | nil =>
    rw [List.foldlM_nil, Run.run_nil]
    constructor
    · intro hs
      exact ⟨Run.eachStep_nil, (Except.ok.inj hs).symm⟩
    · rintro ⟨-, rfl⟩
      rfl
  | cons m ms ih =>
    rw [List.foldlM_cons, Run.eachStep_cons, Run.run_cons]
    cases hstep : step' (f t) m with
    | error e =>
      refine iff_of_false (fun hs => by cases hs) ?_
      rintro ⟨⟨hC, -⟩, -⟩
      rw [(h t m _).2 ⟨hC, rfl⟩] at hstep
      cases hstep
    | ok s =>
      obtain ⟨hC, rfl⟩ := (h t m s).1 hstep
      change ms.foldlM step' (f (step t m)) = .ok s' ↔ _
      rw [ih, and_assoc, and_iff_right hC]

section Fold

variable {σ : Type u} {step : σ → μ → Except ε σ} {ms : List μ}

/-- A loop over a state none of whose items raises. -/
theorem foldlM_eq_ok {f : σ → μ → σ} (h : ∀ s, ∀ m ∈ ms, step s m = .ok (f s m)) (s : σ) :
    ms.foldlM step s = .ok (ms.foldl f s) := by
  induction ms generalizing s with
  | nil => rfl
  | cons m ms ih =>
    rw [List.foldlM_cons, h s m List.mem_cons_self]
    exact ih (fun s m hm => h s m (List.mem_cons_of_mem _ hm)) (f s m)

/-- A loop over a state with an item that raises in every state. -/
theorem raises_foldlM {m : μ} (hm : m ∈ ms) (h : ∀ s, Raises (step s m)) (s : σ) :
    Raises (ms.foldlM step s) := by
  induction ms generalizing s with
  | nil => exact absurd hm List.not_mem_nil
  | cons m' ms ih =>
    rw [List.foldlM_cons, raises_bind]
    rcases List.mem_cons.1 hm with rfl | hm
    · exact .inl (h s)
    · by_cases hraises : Raises (step s m')
      · exact .inl hraises
      · obtain ⟨s', hs'⟩ := exists_ok_of_not_raises hraises
        exact .inr ⟨s', hs', ih hm s'⟩

end Fold

/-! ### A state and a computation -/

/-- The state after a computation: it changes by what that gives, and stays where that raises. -/
def into (s : σ) (x : Except ε α) (f : α → σ) : σ × Option ε :=
  match x with
  | .ok a => (f a, none)
  | .error e => (s, some e)

theorem isSome_into {s : σ} {x : Except ε α} {f : α → σ} :
    (into s x f).2.isSome ↔ Raises x := by
  cases x <;> simp [into]

/-- One step after another, where the first does not raise. -/
def andThen (r : σ × Option ε) (f : σ → σ × Option ε) : σ × Option ε :=
  match r with
  | (s, none) => f s
  | (s, some e) => (s, some e)

theorem isSome_andThen {r : σ × Option ε} {f : σ → σ × Option ε} :
    (andThen r f).2.isSome ↔ r.2.isSome ∨ (f r.1).2.isSome ∧ r.2 = none := by
  obtain ⟨s, _ | e⟩ := r <;> simp [andThen]

/-! ### Batches -/

section Batch

variable (step : σ → μ → σ × Option ε)

/-- The messages of a batch, up to the first that raises. -/
def runAll (s : σ) : List μ → σ × Option ε
  | [] => (s, none)
  | m :: ms => andThen (step s m) fun s => runAll s ms

/-- The batch does not raise, and leads where its messages lead when each comes alone. -/
def Isolated (s : σ) (ms : List μ) : Prop :=
  (runAll step s ms).2 = none ∧
    (runAll step s ms).1 = Run.run (fun s m => (runAll step s [m]).1) s ms

variable {step} {bad : σ → μ → Prop}

theorem runAll_singleton (s : σ) (m : μ) : runAll step s [m] = step s m := by
  unfold runAll andThen
  split
  · rename_i s' heq
    rw [heq]
    rfl
  · rename_i s' e heq
    rw [heq]

/-- A batch raises exactly when some message of it does in the state in which it arrives. -/
theorem isSome_runAll (hbad : ∀ s m, (step s m).2.isSome ↔ bad s m) (s : σ) (ms : List μ) :
    (runAll step s ms).2.isSome ↔
      ¬ Run.EachStep (fun s m => (step s m).1) (fun s m => ¬ bad s m) s ms := by
  induction ms generalizing s with
  | nil => simp [runAll]
  | cons m ms ih =>
    rw [runAll, isSome_andThen, ih, hbad, Run.eachStep_cons, ← Option.not_isSome_iff_eq_none, hbad]
    tauto

/-- Up to a first bad message every message has its effect. -/
theorem runAll_append (hbad : ∀ s m, (step s m).2.isSome ↔ bad s m) {s : σ} {pre : List μ}
    (hpre : Run.EachStep (fun s m => (step s m).1) (fun s m => ¬ bad s m) s pre)
    (post : List μ) :
    runAll step s (pre ++ post) = runAll step (Run.run (fun s m => (step s m).1) s pre) post := by
  induction pre generalizing s with
  | nil => rfl
  | cons m pre ih =>
    obtain ⟨hm, hpre⟩ := Run.eachStep_cons.1 hpre
    have hnone : (step s m).2 = none := by
      rw [← Option.not_isSome_iff_eq_none, hbad]
      exact hm
    have hstep : step s m = ((step s m).1, none) := Prod.ext rfl hnone
    rw [List.cons_append, runAll, hstep]
    exact ih hpre

/-- **What a bad message does to its batch**: the messages before it have their effect, those after
it have none. -/
theorem runAll_of_first_bad (hbad : ∀ s m, (step s m).2.isSome ↔ bad s m) {s : σ} {pre : List μ}
    (hpre : Run.EachStep (fun s m => (step s m).1) (fun s m => ¬ bad s m) s pre) {m : μ}
    (hm : bad (Run.run (fun s m => (step s m).1) s pre) m) (post : List μ) :
    runAll step s (pre ++ m :: post) = step (Run.run (fun s m => (step s m).1) s pre) m := by
  rw [runAll_append hbad hpre, runAll]
  obtain ⟨e, he⟩ := Option.isSome_iff_exists.1 ((hbad (Run.run _ s pre) m).2 hm)
  have hstep : step (Run.run (fun s m => (step s m).1) s pre) m =
      ((step (Run.run (fun s m => (step s m).1) s pre) m).1, some e) := Prod.ext rfl he
  rw [hstep]
  rfl

/-- A batch none of whose messages can raise does what they do. -/
theorem runAll_of_never (step : σ → μ → σ × Option ε) (hnever : ∀ s m, (step s m).2 = none)
    (s : σ) (ms : List μ) :
    runAll step s ms = (Run.run (fun s m => (step s m).1) s ms, none) := by
  induction ms generalizing s with
  | nil => rfl
  | cons m ms ih =>
    have hstep : step s m = ((step s m).1, none) := Prod.ext rfl (hnever s m)
    rw [runAll, hstep]
    exact ih _

/-- Where a message that raises leaves the state, a batch leads where its messages lead up to the
first such one. -/
theorem fst_runAll {raises : μ → Bool} (hraises : ∀ s m, (step s m).2.isSome = raises m)
    (hstay : ∀ s m, raises m = true → (step s m).1 = s) (s : σ) (ms : List μ) :
    (runAll step s ms).1 =
      Run.run (fun s m => (step s m).1) s (ms.takeWhile fun m => !raises m) := by
  induction ms generalizing s with
  | nil => rfl
  | cons m ms ih =>
    have hm := hraises s m
    rw [runAll, List.takeWhile_cons]
    cases hr : raises m with
    | true =>
      obtain ⟨e, he⟩ := Option.isSome_iff_exists.1 (hm.trans hr)
      have hstep : step s m = (s, some e) := Prod.ext (hstay s m hr) he
      rw [hstep]
      rfl
    | false =>
      have hnone : (step s m).2 = none := Option.not_isSome_iff_eq_none.1 (by simp [hm, hr])
      have hstep : step s m = ((step s m).1, none) := Prod.ext rfl hnone
      rw [hstep]
      exact ih _

/-- **When a batch is isolated**: no message of it raises in the state in which it arrives. -/
theorem isolated_iff (hbad : ∀ s m, (step s m).2.isSome ↔ bad s m) (s : σ) (ms : List μ) :
    Isolated step s ms ↔
      Run.EachStep (fun s m => (step s m).1) (fun s m => ¬ bad s m) s ms := by
  constructor
  · rintro ⟨hnone, -⟩
    by_contra hraises
    have hsome := (isSome_runAll hbad s ms).2 hraises
    rw [hnone] at hsome
    exact absurd hsome (by simp)
  · intro h
    have hall := runAll_append hbad h []
    rw [List.append_nil] at hall
    refine ⟨by rw [hall]; rfl, ?_⟩
    rw [hall]
    simp only [runAll_singleton]
    rfl

end Batch

end Raising
