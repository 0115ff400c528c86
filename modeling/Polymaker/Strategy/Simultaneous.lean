import Polymaker.Strategy.Estimators

/-!
# Observations at one time

`Ewma.update` gives a new observation the weight that its distance in time leaves, so the second of
two simultaneous observations weighs nothing.

* `Ewma.Deaf`: the clock has reached the time, and no observation at that time counts;
* `Ewma.burst`: the observations of one time, one after the other; `value_burst` says that the first
  of them decides;
* `MarkoutTracker.OrderFree`, `FlowEstimator.OrderFree`: the order of the fills that one evaluation
  resolves, or of the prints of one time, does not matter;
* `order_free_iff`: it does not exactly where none of them counts, or all of them say the same.
-/

namespace Polymaker

/-! ### The mean -/

namespace Ewma

variable {K : Type*} [Field K] [LinearOrder K]

/-- The observations of one time. -/
def burst (e : Ewma K) (ts : K) (xs : List K) : Ewma K := xs.foldl (fun e x => e.update x ts) e

/-- The mean has an observation and its clock has reached the time. -/
def Deaf (e : Ewma K) (ts : K) : Prop := e.initialized = true ∧ ts ≤ e.lastTs

variable {e : Ewma K} {ts : K}

@[simp] theorem burst_nil : e.burst ts [] = e := rfl

@[simp] theorem burst_cons (x : K) (xs : List K) :
    e.burst ts (x :: xs) = (e.update x ts).burst ts xs := rfl

@[simp] theorem decay_update (x : K) : (e.update x ts).decay = e.decay := by
  unfold update
  split_ifs <;> rfl

/-- An observation is heard once. -/
theorem deaf_update (x : K) : (e.update x ts).Deaf ts := by
  cases h : e.initialized with
  | false =>
    rw [update_first h]
    exact ⟨rfl, le_rfl⟩
  | true =>
    rcases lt_or_ge ts e.lastTs with hts | hts
    · rw [update_stale h hts]
      exact ⟨h, hts.le⟩
    · rw [update_fresh h hts]
      exact ⟨h, le_rfl⟩

/-- What does not count leaves the value as it is, where no time leaves everything. -/
theorem Deaf.value_update (h : e.Deaf ts) (hzero : e.decay.share 0 = 1) (x : K) :
    (e.update x ts).value = e.value := by
  rcases h.2.lt_or_eq with hts | hts
  · rw [update_stale h.1 hts]
  · rw [update_fresh h.1 hts.ge, hts, sub_self, hzero, blend_one]

theorem Deaf.value_burst (h : e.Deaf ts) (hzero : e.decay.share 0 = 1) (xs : List K) :
    (e.burst ts xs).value = e.value := by
  induction xs generalizing e with
  | nil => rfl
  | cons x xs ih =>
    rw [burst_cons, ih (deaf_update x) (by rwa [decay_update]), h.value_update hzero]

/-- Of a burst the first observation decides. -/
theorem value_burst (hzero : e.decay.share 0 = 1) (xs : List K) :
    (e.burst ts xs).value = (xs.head?.map fun x => (e.update x ts).value).getD e.value := by
  cases xs with
  | nil => rfl
  | cons x xs => exact (deaf_update x).value_burst (by rwa [decay_update]) xs

/-- Two observations make the same mean if neither counts or they are the same. -/
theorem value_update_eq_iff (hzero : e.decay.share 0 = 1)
    (hlt : ∀ t, 0 < t → e.decay.share t < 1) [IsStrictOrderedRing K] (x y : K) :
    (e.update x ts).value = (e.update y ts).value ↔ e.Deaf ts ∨ x = y := by
  by_cases h : e.Deaf ts
  · simp [h.value_update hzero, h]
  · simp only [h, false_or]
    cases hinit : e.initialized with
    | false => rw [update_first hinit, update_first hinit]
    | true =>
      have hts : e.lastTs < ts := lt_of_not_ge fun hle => h ⟨hinit, hle⟩
      rw [update_fresh hinit hts.le, update_fresh hinit hts.le]
      have hw := hlt _ (sub_pos.2 hts)
      rw [← sub_eq_zero, blend_sub_blend_right, mul_eq_zero, sub_eq_zero, sub_eq_zero]
      exact or_iff_right hw.ne'

end Ewma

/-! ### Orders of a list -/

/-- What the head of a list decides is the same for every order of it if and only if all its
elements decide alike. -/
theorem forall_perm_head_iff {α β : Type*} (g : α → β) (c : β) (l : List α) :
    (∀ l' : List α, l'.Perm l → (l'.head?.map g).getD c = (l.head?.map g).getD c) ↔
      ∀ x ∈ l, ∀ y ∈ l, g x = g y := by
  constructor
  · intro h
    have hhead : ∀ x ∈ l, g x = (l.head?.map g).getD c := by
      intro x hx
      obtain ⟨s, t, rfl⟩ := List.mem_iff_append.1 hx
      exact h (x :: (s ++ t)) List.perm_middle.symm
    intro x hx y hy
    rw [hhead x hx, hhead y hy]
  · intro h l' hl'
    cases l' with
    | nil => rw [hl'.nil_eq]
    | cons x l' =>
      have hx : x ∈ l := hl'.mem_iff.1 List.mem_cons_self
      cases l with
      | nil => exact absurd hx List.not_mem_nil
      | cons y l => exact h x hx y List.mem_cons_self

/-! ### Markouts -/

namespace MarkoutTracker

variable {K : Type*} [Field K] [LinearOrder K]

/-- `toxicity`. -/
def toxicity (t : MarkoutTracker K) : K := max 0 (-t.markout.value)

/-- The fills an evaluation at time `ts` resolves. -/
def due (pending : List (PendingMarkout K)) (ts : K) : List (PendingMarkout K) :=
  pending.filter fun p => decide (p.dueTs ≤ ts)

/-- The markout a pending fill resolves to. -/
def move (yesFvNow : K) (space : Option (K → TokenId → K)) (p : PendingMarkout K) : K :=
  signedMove p.side (fvNow space yesFvNow p - p.fvAtFill)

theorem resolve_markout (t : MarkoutTracker K) (s : MarkoutSample K) :
    (t.resolve s).1.markout = t.markout.update s.markout s.resolvedTs := by
  unfold resolve
  dsimp only
  split_ifs <;> rfl

theorem markout_foldl_evaluateStep (yesFvNow ts : K) (space : Option (K → TokenId → K))
    (l : List (PendingMarkout K)) (a : MarkoutTracker K) (still : List (PendingMarkout K))
    (reported : List (MarkoutSample K)) :
    (l.foldl (evaluateStep yesFvNow ts space) (a, still, reported)).1.markout =
      a.markout.burst ts ((due l ts).map (move yesFvNow space)) := by
  induction l generalizing a still reported with
  | nil => rfl
  | cons p l ih =>
    rw [List.foldl_cons]
    by_cases hdue : ts < p.dueTs
    · rw [evaluateStep_waits a still reported hdue, ih, due, due,
        List.filter_cons_of_neg (by simpa using hdue)]
    · rw [evaluateStep_due a still reported hdue]
      dsimp only
      rw [ih, resolve_markout, due, due, List.filter_cons_of_pos (by simpa using not_lt.1 hdue)]
      rfl

/-- The markouts of the due fills enter the mean in the order of the queue. -/
theorem evaluate_markout (t : MarkoutTracker K) (yesFvNow ts : K)
    (space : Option (K → TokenId → K)) :
    (t.evaluate yesFvNow ts space).1.markout =
      t.markout.burst ts ((due t.pending ts).map (move yesFvNow space)) :=
  markout_foldl_evaluateStep yesFvNow ts space t.pending t [] []

/-- The markout and the toxicity that an evaluation leaves are the same for every order in which the
fills were recorded. -/
def OrderFree (t : MarkoutTracker K) (yesFvNow ts : K) (space : Option (K → TokenId → K)) : Prop :=
  ∀ pending, pending.Perm t.pending →
    let a := (t.evaluate yesFvNow ts space).1
    let b := ({ t with pending := pending }.evaluate yesFvNow ts space).1
    b.markout.value = a.markout.value ∧ b.toxicity = a.toxicity

section OrderFree

variable {t : MarkoutTracker K} {yesFvNow ts : K} {space : Option (K → TokenId → K)}

/-- The first fill that is due decides the value. -/
theorem evaluate_value (hzero : t.markout.decay.share 0 = 1) (pending : List (PendingMarkout K)) :
    ({ t with pending := pending }.evaluate yesFvNow ts space).1.markout.value =
      ((due pending ts).head?.map fun p =>
        (t.markout.update (move yesFvNow space p) ts).value).getD t.markout.value := by
  rw [evaluate_markout, Ewma.value_burst hzero, List.head?_map, Option.map_map]
  rfl

/-- Every order of the due fills is that of some queue. -/
theorem exists_queue {l : List (PendingMarkout K)} (hl : l.Perm (due t.pending ts)) :
    ∃ pending, pending.Perm t.pending ∧ due pending ts = l := by
  refine ⟨l ++ t.pending.filter fun p => !decide (p.dueTs ≤ ts), ?_, ?_⟩
  · exact (hl.append_right _).trans (List.filter_append_perm _ _)
  · have hl' : l.filter (fun p => decide (p.dueTs ≤ ts)) = l :=
      List.filter_eq_self.2 fun p hp => (List.mem_filter.1 (hl.mem_iff.1 hp)).2
    unfold due
    rw [List.filter_append, hl', List.filter_filter]
    simp

theorem orderFree_iff [IsStrictOrderedRing K] (hzero : t.markout.decay.share 0 = 1)
    (hlt : ∀ x, 0 < x → t.markout.decay.share x < 1) :
    t.OrderFree yesFvNow ts space ↔ t.markout.Deaf ts ∨
      ∀ p ∈ due t.pending ts, ∀ q ∈ due t.pending ts,
        move yesFvNow space p = move yesFvNow space q := by
  have hfree : t.OrderFree yesFvNow ts space ↔
      ∀ l : List (PendingMarkout K), l.Perm (due t.pending ts) →
        (l.head?.map fun p => (t.markout.update (move yesFvNow space p) ts).value).getD
            t.markout.value =
          ((due t.pending ts).head?.map fun p =>
            (t.markout.update (move yesFvNow space p) ts).value).getD t.markout.value := by
    constructor
    · intro h l hl
      obtain ⟨pending, hperm, rfl⟩ := exists_queue hl
      rw [← evaluate_value hzero, (h pending hperm).1]
      exact evaluate_value hzero t.pending
    · intro h pending hperm
      have heq := h (due pending ts) (hperm.filter _)
      rw [← evaluate_value hzero] at heq
      have hvalue := heq.trans (evaluate_value hzero t.pending).symm
      refine ⟨hvalue, ?_⟩
      unfold toxicity
      rw [hvalue]
  rw [hfree, forall_perm_head_iff]
  simp only [Ewma.value_update_eq_iff hzero hlt]
  by_cases hdeaf : t.markout.Deaf ts <;> simp [hdeaf]

end OrderFree

end MarkoutTracker

/-! ### Prints -/

/-- A print, and the scale of its flow. -/
structure Print (K : Type*) where
  aggressor : Side
  size : K
  flowScale : K

namespace FlowEstimator

variable {K : Type*} [Field K] [LinearOrder K]

/-- The signed flow of a print. -/
def flowOf (p : Print K) : K := signedFlow p.aggressor p.size p.flowScale

/-- The prints of one time. -/
def burst (f : FlowEstimator K) (ts : K) (prints : List (Print K)) : FlowEstimator K :=
  prints.foldl (fun f p => f.update p.aggressor p.size ts p.flowScale) f

theorem signed_burst (f : FlowEstimator K) (ts : K) (prints : List (Print K)) :
    (f.burst ts prints).signed = f.signed.burst ts (prints.map flowOf) := by
  induction prints generalizing f with
  | nil => rfl
  | cons p prints ih => exact ih _

/-- The signed flow that prints of one time leave is the same for every order of them. -/
def OrderFree (f : FlowEstimator K) (ts : K) (prints : List (Print K)) : Prop :=
  ∀ prints', prints'.Perm prints →
    (f.burst ts prints').signed.value = (f.burst ts prints).signed.value

theorem orderFree_iff [IsStrictOrderedRing K] {f : FlowEstimator K} {ts : K}
    (hzero : f.signed.decay.share 0 = 1) (hlt : ∀ x, 0 < x → f.signed.decay.share x < 1)
    (prints : List (Print K)) :
    f.OrderFree ts prints ↔
      f.signed.Deaf ts ∨ ∀ p ∈ prints, ∀ q ∈ prints, flowOf p = flowOf q := by
  have hvalue : ∀ prints, (f.burst ts prints).signed.value =
      (prints.head?.map fun p => (f.signed.update (flowOf p) ts).value).getD f.signed.value := by
    intro prints
    rw [signed_burst, Ewma.value_burst hzero, List.head?_map, Option.map_map]
    rfl
  unfold OrderFree
  simp only [hvalue]
  rw [forall_perm_head_iff]
  simp only [Ewma.value_update_eq_iff hzero hlt]
  by_cases hdeaf : f.signed.Deaf ts <;> simp [hdeaf]

end FlowEstimator

/-! ### With a half-life -/

/-- **When the order of simultaneous observations does not matter.**  The order in which the fills
that one evaluation resolves were recorded does not matter for the markout and the toxicity if and
only if none of them counts, because the mean's clock has reached the time, or all of them move
alike; and the order of prints of one time does not matter for the signed flow if and only if none
counts or all have the same signed flow. -/
theorem order_free_iff (markoutHalfLife flowHalfLife : ℝ) (hmarkout : 0 < markoutHalfLife)
    (hflow : 0 < flowHalfLife) (t : MarkoutTracker ℝ) (f : FlowEstimator ℝ)
    (ht : t.markout.decay = Decay.halfLife markoutHalfLife hmarkout)
    (hf : f.signed.decay = Decay.halfLife flowHalfLife hflow) (yesFvNow ts printTs : ℝ)
    (space : Option (ℝ → TokenId → ℝ)) (prints : List (Print ℝ)) :
    (t.OrderFree yesFvNow ts space ↔ t.markout.Deaf ts ∨
      ∀ p ∈ MarkoutTracker.due t.pending ts, ∀ q ∈ MarkoutTracker.due t.pending ts,
        MarkoutTracker.move yesFvNow space p = MarkoutTracker.move yesFvNow space q) ∧
    (f.OrderFree printTs prints ↔ f.signed.Deaf printTs ∨
      ∀ p ∈ prints, ∀ q ∈ prints, FlowEstimator.flowOf p = FlowEstimator.flowOf q) := by
  constructor
  · refine MarkoutTracker.orderFree_iff ?_ ?_ <;> rw [ht]
    · exact Decay.halfLife_zero
    · exact fun x hx => Decay.halfLife_lt_one hx
  · refine FlowEstimator.orderFree_iff ?_ ?_ prints <;> rw [hf]
    · exact Decay.halfLife_zero
    · exact fun x hx => Decay.halfLife_lt_one hx

/-- Two purchases at 0.50 that are due together and lose alike, and two equal prints. -/
theorem order_free_of_alike :
    let t : MarkoutTracker ℝ :=
      { horizonS := 300
        maxSamples := 5000
        markout := { decay := Decay.halfLife 1800 (by norm_num) }
        pending := [⟨1 / 2, .buy, 300, "yes", 0⟩, ⟨1 / 2, .buy, 300, "yes", 0⟩] }
    let f : FlowEstimator ℝ := .new (Decay.halfLife 30 (by norm_num))
    t.OrderFree (12 / 25) 300 none ∧ f.OrderFree 1 [⟨.buy, 100, 1⟩, ⟨.buy, 100, 1⟩] := by
  intro t f
  have h := order_free_iff 1800 30 (by norm_num) (by norm_num) t f rfl rfl (12 / 25) 300 1 none
    [⟨.buy, 100, 1⟩, ⟨.buy, 100, 1⟩]
  refine ⟨h.1.2 (.inr ?_), h.2.2 (.inr ?_)⟩
  · simp [t, MarkoutTracker.due]
  · simp [FlowEstimator.flowOf]

/-- A purchase and a sale at 0.50, both due when the token is worth 0.48: the one recorded first
decides, so the markout is a loss or a gain of 0.02. -/
theorem order_matters :
    ¬ ∀ (markoutHalfLife : ℝ) (hmarkout : 0 < markoutHalfLife) (t : MarkoutTracker ℝ),
      t.markout.decay = Decay.halfLife markoutHalfLife hmarkout →
        ∀ yesFvNow ts space, t.OrderFree yesFvNow ts space := by
  intro h
  have hpos : (0 : ℝ) < 1800 := by norm_num
  let t : MarkoutTracker ℝ :=
    { horizonS := 300
      maxSamples := 5000
      markout := { decay := Decay.halfLife 1800 hpos }
      pending := [⟨1 / 2, .buy, 300, "yes", 0⟩, ⟨1 / 2, .sell, 300, "yes", 0⟩] }
  have horder := h 1800 hpos t rfl (12 / 25) 300 none
  have hdeaf : ¬ t.markout.Deaf 300 := fun hdeaf => absurd hdeaf.1 Bool.false_ne_true
  have hzero : t.markout.decay.share 0 = 1 := @Decay.halfLife_zero 1800 hpos
  have hlt : ∀ x, 0 < x → t.markout.decay.share x < 1 := fun x hx =>
    @Decay.halfLife_lt_one 1800 hpos x hx
  have hmoves := ((MarkoutTracker.orderFree_iff hzero hlt).1 horder).resolve_left hdeaf
  have hmove := hmoves ⟨1 / 2, .buy, 300, "yes", 0⟩ (by simp [t, MarkoutTracker.due])
    ⟨1 / 2, .sell, 300, "yes", 0⟩ (by simp [t, MarkoutTracker.due])
  norm_num [MarkoutTracker.move, MarkoutTracker.signedMove, MarkoutTracker.fvNow] at hmove

end Polymaker
