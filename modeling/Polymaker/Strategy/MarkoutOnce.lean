import Mathlib.Data.List.DropRight
import Polymaker.Lib.Run
import Polymaker.Strategy.Simultaneous

/-!
# Each fill is marked out once

`MarkoutTracker.evaluate` updates the mean and the samples as it goes, calls `on_resolved` in
between, and replaces the queue at the end.

* `evaluateRaising`: `evaluate` where a call of `on_resolved` may raise, which leaves the queue as
  it was;
* `MarkoutRun`: a tracker with what was reported, beside the fills that should wait and those that
  should be resolved, whatever happened to the reports;
* `MarkoutRun.Once`: each fill recorded waits or is resolved, and not twice;
* `MarkoutRun.MarkedOnce`: the tracker has exactly these fills in its queue, its mean, its samples
  and its reports;
* `marked_once_iff`: it has all along a run if and only if every evaluation that finds a fill due
  reports, and no report raises.
-/

namespace Polymaker

variable {K : Type*} [Field K] [LinearOrder K]

/-! ### An evaluation that may raise -/

namespace MarkoutTracker

/-- The loop of `evaluate` where `on_resolved` may raise. -/
structure EvaluateLoop (K : Type*) [Field K] [LinearOrder K] where
  tracker : MarkoutTracker K
  still : List (PendingMarkout K)
  reported : List (MarkoutSample K)
  raised : Bool

/-- One entry of the queue; the call of `on_resolved` numbered `raises` ends the loop. -/
def raisingStep (yesFvNow ts : K) (space : Option (K → TokenId → K)) (raises : Option ℕ)
    (l : EvaluateLoop K) (p : PendingMarkout K) : EvaluateLoop K :=
  if l.raised then l
  else if ts < p.dueTs then { l with still := l.still ++ [p] }
  else
    let (t, new) := l.tracker.resolve (l.tracker.sample p (fvNow space yesFvNow p) ts)
    { tracker := t
      still := l.still
      reported := l.reported ++ new
      raised := decide (new ≠ [] ∧ raises = some l.reported.length) }

/-- `evaluate`, where the call of `on_resolved` numbered `raises` raises, if there is one.  What
`on_resolved` was called with is returned. -/
def evaluateRaising (t : MarkoutTracker K) (yesFvNow ts : K) (space : Option (K → TokenId → K))
    (raises : Option ℕ) : MarkoutTracker K × List (MarkoutSample K) :=
  let l := t.pending.foldl (raisingStep yesFvNow ts space raises) ⟨t, [], [], false⟩
  (if l.raised then l.tracker else { l.tracker with pending := l.still }, l.reported)

section Loop

variable {yesFvNow ts : K} {space : Option (K → TokenId → K)} {raises : Option ℕ}

theorem raisingStep_due {l : EvaluateLoop K} {p : PendingMarkout K} (hraised : l.raised = false)
    (hdue : ¬ ts < p.dueTs) :
    raisingStep yesFvNow ts space raises l p =
      let s := l.tracker.sample p (fvNow space yesFvNow p) ts
      ⟨(l.tracker.resolve s).1, l.still, l.reported ++ (l.tracker.resolve s).2,
        decide ((l.tracker.resolve s).2 ≠ [] ∧ raises = some l.reported.length)⟩ := by
  unfold raisingStep
  rw [if_neg (by simp [hraised]), if_neg hdue]

theorem raisingStep_waits {l : EvaluateLoop K} {p : PendingMarkout K} (hraised : l.raised = false)
    (hdue : ts < p.dueTs) :
    raisingStep yesFvNow ts space raises l p = { l with still := l.still ++ [p] } := by
  unfold raisingStep
  rw [if_neg (by simp [hraised]), if_pos hdue]

theorem raisingStep_raised {l : EvaluateLoop K} (hraised : l.raised = true) (p : PendingMarkout K) :
    raisingStep yesFvNow ts space raises l p = l := if_pos hraised

theorem foldl_raisingStep_raised {l : EvaluateLoop K} (hraised : l.raised = true)
    (q : List (PendingMarkout K)) : q.foldl (raisingStep yesFvNow ts space raises) l = l := by
  induction q with
  | nil => rfl
  | cons p q ih => rw [List.foldl_cons, raisingStep_raised hraised, ih]

omit [Field K] in
theorem due_cons (p : PendingMarkout K) (q : List (PendingMarkout K)) :
    due (p :: q) ts = if ts < p.dueTs then due q ts else p :: due q ts := by
  unfold due
  rw [List.filter_cons]
  by_cases h : ts < p.dueTs <;> simp [h, not_lt.1]

theorem pending_resolve (t : MarkoutTracker K) (s : MarkoutSample K) :
    (t.resolve s).1.pending = t.pending := by
  unfold resolve
  dsimp only
  split_ifs <;> rfl

/-- Nothing in the loop touches the queue. -/
theorem pending_foldl_raisingStep (q : List (PendingMarkout K)) (l : EvaluateLoop K) :
    (q.foldl (raisingStep yesFvNow ts space raises) l).tracker.pending = l.tracker.pending := by
  refine List.foldlRecOn (motive := fun m : EvaluateLoop K =>
    m.tracker.pending = l.tracker.pending) q _ rfl fun m hm p _ => ?_
  unfold raisingStep
  split_ifs
  · exact hm
  · exact hm
  · exact (pending_resolve _ _).trans hm

/-- Without a raise the loop is that of `evaluate`. -/
theorem foldl_raisingStep_of_not_raised (q : List (PendingMarkout K)) (a : MarkoutTracker K)
    (still : List (PendingMarkout K)) (reported : List (MarkoutSample K))
    (h : a.maxSamples = 0 ∨ ∀ k, raises = some k → reported.length + (due q ts).length ≤ k) :
    q.foldl (raisingStep yesFvNow ts space raises) ⟨a, still, reported, false⟩ =
      let out := q.foldl (evaluateStep yesFvNow ts space) (a, still, reported)
      ⟨out.1, out.2.1, out.2.2, false⟩ := by
  induction q generalizing a still reported with
  | nil => rfl
  | cons p q ih =>
    rw [List.foldl_cons, List.foldl_cons]
    rw [due_cons] at h
    by_cases hdue : ts < p.dueTs
    · rw [if_pos hdue] at h
      rw [raisingStep_waits rfl hdue, evaluateStep_waits a still reported hdue]
      exact ih a (still ++ [p]) reported h
    · rw [if_neg hdue] at h
      set s := a.sample p (fvNow space yesFvNow p) ts with hs
      have hquiet : decide ((a.resolve s).2 ≠ [] ∧ raises = some reported.length) = false := by
        rw [decide_eq_false_iff_not]
        rintro ⟨hnew, hraises⟩
        rcases h with h | h
        · exact hnew (by rw [resolve_reported, if_pos h])
        · have hle := h _ hraises
          rw [List.length_cons] at hle
          omega
      rw [raisingStep_due rfl hdue, evaluateStep_due a still reported hdue]
      dsimp only
      rw [← hs, hquiet]
      refine ih _ _ _ (h.imp ((resolve_horizonS a s).2.trans ·) fun h k hk => ?_)
      have hlen : (a.resolve s).2.length ≤ 1 := by
        rw [resolve_reported]
        split_ifs <;> simp
      have hle := h k hk
      rw [List.length_cons] at hle
      rw [List.length_append]
      omega

theorem evaluateRaising_of_not_raised (t : MarkoutTracker K)
    (h : t.maxSamples = 0 ∨ ∀ k, raises = some k → (due t.pending ts).length ≤ k) :
    t.evaluateRaising yesFvNow ts space raises = t.evaluate yesFvNow ts space := by
  unfold evaluateRaising
  rw [foldl_raisingStep_of_not_raised t.pending t [] []
    (h.imp_right fun h k hk => by simpa using h k hk)]
  rfl

/-- A call that raises is reached where as many fills are due. -/
theorem foldl_raisingStep_of_raised {k : ℕ} (hk : raises = some k) (q : List (PendingMarkout K))
    (a : MarkoutTracker K) (still : List (PendingMarkout K)) (reported : List (MarkoutSample K))
    (hmax : a.maxSamples ≠ 0) (hle : reported.length ≤ k)
    (hlt : k < reported.length + (due q ts).length) :
    (q.foldl (raisingStep yesFvNow ts space raises) ⟨a, still, reported, false⟩).raised = true := by
  induction q generalizing a still reported with
  | nil =>
    rw [due, List.filter_nil, List.length_nil] at hlt
    omega
  | cons p q ih =>
    rw [List.foldl_cons]
    rw [due_cons] at hlt
    by_cases hdue : ts < p.dueTs
    · rw [if_pos hdue] at hlt
      rw [raisingStep_waits rfl hdue]
      exact ih a (still ++ [p]) reported hmax hle hlt
    · rw [if_neg hdue, List.length_cons] at hlt
      rw [raisingStep_due rfl hdue]
      dsimp only
      set s := a.sample p (fvNow space yesFvNow p) ts
      have hnew : (a.resolve s).2 = [s] := by rw [resolve_reported, if_neg hmax]
      rw [hnew]
      rcases hle.eq_or_lt with heq | hlt'
      · rw [foldl_raisingStep_raised]
        · simp [hk, heq]
        · simp [hk, heq]
      · have hquiet : decide ([s] ≠ [] ∧ raises = some reported.length) = false := by
          rw [decide_eq_false_iff_not, hk]
          rintro ⟨-, heq⟩
          exact hlt'.ne' (Option.some.inj heq)
        rw [hquiet]
        refine ih _ _ _ ((resolve_horizonS a s).2 ▸ hmax) ?_ ?_
        · rw [List.length_append, List.length_singleton]
          omega
        · rw [List.length_append, List.length_singleton]
          omega

/-- A raise leaves the queue as it was. -/
theorem pending_evaluateRaising_of_raised (t : MarkoutTracker K) (hmax : t.maxSamples ≠ 0) {k : ℕ}
    (hk : raises = some k) (hlt : k < (due t.pending ts).length) :
    (t.evaluateRaising yesFvNow ts space raises).1.pending = t.pending := by
  unfold evaluateRaising
  dsimp only
  rw [if_pos (foldl_raisingStep_of_raised hk t.pending t [] [] hmax (Nat.zero_le k)
    (by simpa using hlt))]
  exact pending_foldl_raisingStep t.pending _

end Loop

/-! ### The samples of an evaluation -/

/-- The last `n` of a list that is kept short are the last `n` of the whole. -/
theorem rtake_rtake_concat {α : Type*} (l : List α) (n : ℕ) (x : α) :
    (l.rtake n ++ [x]).rtake n = (l ++ [x]).rtake n := by
  cases n with
  | zero => simp
  | succ n =>
    rw [List.rtake_concat_succ, List.rtake_concat_succ, List.rtake_eq_reverse_take_reverse,
      List.rtake_eq_reverse_take_reverse, List.rtake_eq_reverse_take_reverse, List.reverse_reverse,
      List.take_take, Nat.min_eq_left (Nat.le_succ n)]

/-- The samples that the due fills of a queue make, reported or not. -/
def resolutions (t : MarkoutTracker K) (yesFvNow ts : K) (space : Option (K → TokenId → K))
    (q : List (PendingMarkout K)) : List (PendingMarkout K × MarkoutSample K) :=
  (due q ts).map fun p => (p, t.sample p (fvNow space yesFvNow p) ts)

theorem samples_foldl_evaluateStep (t : MarkoutTracker K) (yesFvNow ts : K)
    (space : Option (K → TokenId → K)) (q : List (PendingMarkout K)) (a : MarkoutTracker K)
    (still : List (PendingMarkout K)) (reported log : List (MarkoutSample K))
    (hh : a.horizonS = t.horizonS) (hm : a.maxSamples = t.maxSamples)
    (hlog : a.samples = log.rtake t.maxSamples) :
    (q.foldl (evaluateStep yesFvNow ts space) (a, still, reported)).1.samples =
      (log ++ (t.resolutions yesFvNow ts space q).map Prod.snd).rtake t.maxSamples := by
  induction q generalizing a still reported log with
  | nil => simpa [resolutions, due] using hlog
  | cons p q ih =>
    rw [List.foldl_cons]
    by_cases hdue : ts < p.dueTs
    · rw [evaluateStep_waits a still reported hdue, ih a _ reported log hh hm hlog, resolutions,
        resolutions, due_cons, if_pos hdue]
    · have hstep := @evaluateStep_due _ _ _ yesFvNow ts space p a still reported hdue
      rw [sample_congr hh] at hstep
      set s := t.sample p (fvNow space yesFvNow p) ts with hs
      have hsamples : (a.resolve s).1.samples = (log ++ [s]).rtake t.maxSamples := by
        rw [← rtake_rtake_concat, ← hlog]
        unfold resolve
        dsimp only
        split_ifs with h0
        · rw [hm] at h0
          simp [hlog, h0]
        · rw [← hm]
          rfl
      rw [hstep, ih _ _ _ _ ((resolve_horizonS a s).1.trans hh) ((resolve_horizonS a s).2.trans hm)
        hsamples, resolutions, resolutions, due_cons, if_neg hdue]
      simp [hs]

/-- The samples of the due fills join the recent ones, of which the bound keeps the newest. -/
theorem evaluate_samples (t : MarkoutTracker K) (yesFvNow ts : K)
    (space : Option (K → TokenId → K)) {log : List (MarkoutSample K)}
    (hlog : t.samples = log.rtake t.maxSamples) :
    (t.evaluate yesFvNow ts space).1.samples =
      (log ++ (t.resolutions yesFvNow ts space t.pending).map Prod.snd).rtake t.maxSamples :=
  samples_foldl_evaluateStep t yesFvNow ts space t.pending t [] [] log rfl rfl hlog

end MarkoutTracker

/-! ### Runs -/

/-- A call of the tracker. -/
inductive MarkoutOp (K : Type*)
  | recordFill (side : Side) (tokenFvAtFill ts : K) (tok : TokenId)
  | evaluate (yesFvNow ts : K) (space : Option (K → TokenId → K)) (raises : Option ℕ)

/-- A tracker and what it reported; beside it the fills recorded, those that wait, and those that
were resolved at the first evaluation they were due at. -/
structure MarkoutRun (K : Type*) [Field K] [LinearOrder K] where
  tracker : MarkoutTracker K
  reported : List (MarkoutSample K)
  recorded : List (PendingMarkout K)
  waiting : List (PendingMarkout K)
  resolved : List (PendingMarkout K × MarkoutSample K)

namespace MarkoutRun

/-- A new tracker. -/
def new (d : Decay K) (horizonS : K) (maxSamples : ℕ) : MarkoutRun K :=
  ⟨{ horizonS, maxSamples, markout := { decay := d } }, [], [], [], []⟩

/-- One call. -/
def step (s : MarkoutRun K) : MarkoutOp K → MarkoutRun K
  | .recordFill side tokenFvAtFill ts tok =>
    let p : PendingMarkout K := ⟨tokenFvAtFill, side, ts + s.tracker.horizonS, tok, ts⟩
    { s with
      tracker := s.tracker.recordFill side tokenFvAtFill ts tok
      recorded := s.recorded ++ [p]
      waiting := s.waiting ++ [p] }
  | .evaluate yesFvNow ts space raises =>
    let out := s.tracker.evaluateRaising yesFvNow ts space raises
    { s with
      tracker := out.1
      reported := s.reported ++ out.2
      waiting := s.waiting.filter fun p => decide (ts < p.dueTs)
      resolved := s.resolved ++ s.tracker.resolutions yesFvNow ts space s.waiting }

/-- Each fill recorded waits, in order, or was resolved, not before it was due. -/
structure Once (s : MarkoutRun K) : Prop where
  split : (s.waiting ++ s.resolved.map Prod.fst).Perm s.recorded
  order : s.waiting.Sublist s.recorded
  ripe : ∀ r ∈ s.resolved, r.1.dueTs ≤ r.2.resolvedTs

/-- The queue, the mean, the samples and the reports of the tracker are of the fills that wait and
those that were resolved. -/
structure MarkedOnce (d : Decay K) (s : MarkoutRun K) : Prop where
  pending : s.tracker.pending = s.waiting
  mean : s.tracker.markout = (s.resolved.map Prod.snd).foldl
    (fun e x => e.update x.markout x.resolvedTs) { decay := d }
  samples : s.tracker.samples = (s.resolved.map Prod.snd).rtake s.tracker.maxSamples
  reported : s.reported = s.resolved.map Prod.snd

/-- An evaluation that finds a fill due reports it, and no report raises. -/
def Completes (s : MarkoutRun K) : MarkoutOp K → Prop
  | .recordFill _ _ _ _ => True
  | .evaluate _ ts _ raises =>
    let due := MarkoutTracker.due s.tracker.pending ts
    due = [] ∨ s.tracker.maxSamples ≠ 0 ∧ ∀ k, raises = some k → due.length ≤ k

theorem once_new (d : Decay K) (horizonS : K) (maxSamples : ℕ) :
    (new d horizonS maxSamples).Once :=
  ⟨List.Perm.nil, List.Sublist.refl _, fun _ h => absurd h List.not_mem_nil⟩

theorem markedOnce_new (d : Decay K) (horizonS : K) (maxSamples : ℕ) :
    (new d horizonS maxSamples).MarkedOnce d :=
  ⟨rfl, rfl, by simp [new], rfl⟩

omit [Field K] in
/-- A queue is what waits and what is due. -/
theorem waits_append_due_perm (q : List (PendingMarkout K)) (ts : K) :
    ((q.filter fun p => decide (ts < p.dueTs)) ++ MarkoutTracker.due q ts).Perm q := by
  have hdue : MarkoutTracker.due q ts = q.filter fun p => !decide (ts < p.dueTs) := by
    refine List.filter_congr fun p _ => ?_
    rw [← decide_not, decide_eq_decide]
    exact not_lt.symm
  rw [hdue]
  exact List.filter_append_perm _ q

theorem once_step {s : MarkoutRun K} (h : s.Once) (op : MarkoutOp K) : (s.step op).Once := by
  cases op with
  | recordFill side tokenFvAtFill ts tok =>
    refine ⟨?_, h.order.append_right _, h.ripe⟩
    change (s.waiting ++ [_] ++ s.resolved.map Prod.fst).Perm (s.recorded ++ [_])
    rw [List.append_assoc]
    refine (List.perm_append_comm.append_left s.waiting).trans ?_
    rw [← List.append_assoc]
    exact h.split.append_right _
  | evaluate yesFvNow ts space raises =>
    refine ⟨?_, List.filter_sublist.trans h.order, fun r hr => ?_⟩
    · have hfst : (s.tracker.resolutions yesFvNow ts space s.waiting).map Prod.fst =
          MarkoutTracker.due s.waiting ts := by
        unfold MarkoutTracker.resolutions
        rw [List.map_map]
        exact List.map_id _
      change (s.waiting.filter _ ++
        (s.resolved ++ s.tracker.resolutions yesFvNow ts space s.waiting).map Prod.fst).Perm _
      rw [List.map_append, hfst]
      refine (List.perm_append_comm.append_left _).trans ?_
      rw [← List.append_assoc]
      exact ((waits_append_due_perm s.waiting ts).append_right _).trans h.split
    · rcases List.mem_append.1 hr with hr | hr
      · exact h.ripe r hr
      · obtain ⟨p, hp, rfl⟩ := List.mem_map.1 hr
        exact of_decide_eq_true (List.mem_filter.1 hp).2

/-- The due fills enter the mean by their samples. -/
theorem burst_moves (e : Ewma K) (t : MarkoutTracker K) (yesFvNow ts : K)
    (space : Option (K → TokenId → K)) (q : List (PendingMarkout K)) :
    e.burst ts ((MarkoutTracker.due q ts).map (MarkoutTracker.move yesFvNow space)) =
      ((t.resolutions yesFvNow ts space q).map Prod.snd).foldl
        (fun e x => e.update x.markout x.resolvedTs) e := by
  unfold Ewma.burst MarkoutTracker.resolutions
  rw [List.map_map, List.foldl_map, List.foldl_map]
  rfl

/-- An evaluation that completes reports the samples of the due fills. -/
theorem dueSamples_eq {t : MarkoutTracker K} {yesFvNow ts : K} {space : Option (K → TokenId → K)}
    (h : MarkoutTracker.due t.pending ts = [] ∨ t.maxSamples ≠ 0) :
    t.dueSamples yesFvNow ts space t.pending =
      (t.resolutions yesFvNow ts space t.pending).map Prod.snd := by
  unfold MarkoutTracker.dueSamples MarkoutTracker.resolutions
  rcases h with hnil | hne
  · rw [← MarkoutTracker.due, hnil]
    split_ifs <;> rfl
  · rw [if_neg hne, List.map_map]
    rfl

/-- What an evaluation that completes makes of a tracker that marked each fill once. -/
theorem markedOnce_evaluate {d : Decay K} {s : MarkoutRun K} (h : s.MarkedOnce d) {yesFvNow ts : K}
    {space : Option (K → TokenId → K)} {raises : Option ℕ}
    (hop : s.Completes (.evaluate yesFvNow ts space raises)) :
    (s.step (.evaluate yesFvNow ts space raises)).MarkedOnce d := by
  have hraising : s.tracker.evaluateRaising yesFvNow ts space raises =
      s.tracker.evaluate yesFvNow ts space := by
    refine MarkoutTracker.evaluateRaising_of_not_raised s.tracker ?_
    rcases hop with hnil | ⟨-, hle⟩
    · exact .inr fun k _ => by rw [hnil]; exact Nat.zero_le k
    · exact .inr hle
  obtain ⟨hpending, -, hmax, hreported⟩ := s.tracker.evaluate_spec yesFvNow ts space
  have hresolved : ((s.step (.evaluate yesFvNow ts space raises)).resolved).map Prod.snd =
      s.resolved.map Prod.snd ++
        (s.tracker.resolutions yesFvNow ts space s.tracker.pending).map Prod.snd := by
    rw [h.pending]
    exact List.map_append
  refine ⟨?_, ?_, ?_, ?_⟩
  · change (s.tracker.evaluateRaising yesFvNow ts space raises).1.pending = s.waiting.filter _
    rw [hraising, hpending, h.pending]
  · rw [hresolved, List.foldl_append, ← h.mean, ← burst_moves]
    change (s.tracker.evaluateRaising yesFvNow ts space raises).1.markout = _
    rw [hraising, MarkoutTracker.evaluate_markout]
  · rw [hresolved]
    change (s.tracker.evaluateRaising yesFvNow ts space raises).1.samples =
      List.rtake _ (s.tracker.evaluateRaising yesFvNow ts space raises).1.maxSamples
    rw [hraising, hmax]
    exact MarkoutTracker.evaluate_samples s.tracker yesFvNow ts space h.samples
  · rw [hresolved]
    change s.reported ++ (s.tracker.evaluateRaising yesFvNow ts space raises).2 = _
    rw [hraising, hreported, h.reported, dueSamples_eq (hop.imp_right fun hop => hop.1)]

/-- A tracker that marked each fill once goes on to do so if and only if the call completes. -/
theorem markedOnce_step_iff {d : Decay K} {s : MarkoutRun K} (h : s.MarkedOnce d)
    (op : MarkoutOp K) : (s.step op).MarkedOnce d ↔ s.Completes op := by
  cases op with
  | recordFill side tokenFvAtFill ts tok =>
    refine iff_of_true ⟨?_, h.mean, h.samples, h.reported⟩ trivial
    change s.tracker.pending ++ [_] = s.waiting ++ [_]
    rw [h.pending]
  | evaluate yesFvNow ts space raises =>
    refine ⟨fun hafter => ?_, markedOnce_evaluate h⟩
    by_contra hop
    obtain ⟨hdue, hbad⟩ := not_or.1 hop
    by_cases hmax : s.tracker.maxSamples = 0
    · -- nothing is reported, and a fill is resolved
      have hreported := congrArg List.length hafter.reported
      have hnone : (s.tracker.evaluateRaising yesFvNow ts space raises).2 = [] := by
        rw [MarkoutTracker.evaluateRaising_of_not_raised s.tracker (.inl hmax),
          (s.tracker.evaluate_spec yesFvNow ts space).2.2.2]
        exact if_pos hmax
      change (s.reported ++ (s.tracker.evaluateRaising yesFvNow ts space raises).2).length =
        ((s.resolved ++ s.tracker.resolutions yesFvNow ts space s.waiting).map Prod.snd).length
        at hreported
      rw [hnone, List.append_nil, h.reported, List.map_append, List.length_append, List.length_map,
        List.length_map, left_eq_add, List.length_eq_zero_iff] at hreported
      unfold MarkoutTracker.resolutions at hreported
      rw [List.map_eq_nil_iff, ← h.pending] at hreported
      exact hdue hreported
    · -- the queue is as it was, and a fill is resolved
      obtain ⟨k, hk, hlt⟩ : ∃ k, raises = some k ∧
          k < (MarkoutTracker.due s.tracker.pending ts).length := by
        by_contra hnone
        refine hbad ⟨hmax, fun k hk => not_lt.1 fun hlt => hnone ⟨k, hk, hlt⟩⟩
      have hpending := hafter.pending
      change (s.tracker.evaluateRaising yesFvNow ts space raises).1.pending =
        s.waiting.filter _ at hpending
      rw [MarkoutTracker.pending_evaluateRaising_of_raised s.tracker hmax hk hlt, ← h.pending]
        at hpending
      refine hdue (List.filter_eq_nil_iff.2 fun p hp => ?_)
      rw [hpending] at hp
      simpa using (List.mem_filter.1 hp).2

/-- **When each fill is marked out once.**  Along every run of a tracker each fill recorded waits in
the queue or was resolved, at the first evaluation it was due at; and the queue, the mean, the
samples and the reports are of exactly these fills if and only if every evaluation that finds a fill
due reports, and no report raises. -/
theorem marked_once_iff (d : Decay K) (horizonS : K) (maxSamples : ℕ) (ops : List (MarkoutOp K)) :
    Run.Always step Once (new d horizonS maxSamples) ops ∧
      (Run.Always step (MarkedOnce d) (new d horizonS maxSamples) ops ↔
        Run.EachStep step Completes (new d horizonS maxSamples) ops) :=
  ⟨Run.always_of_step (P := Once) (fun _ op h => once_step h op)
      (once_new d horizonS maxSamples) ops,
    Run.always_iff_eachStep (I := fun _ => True) (P := MarkedOnce d) (fun _ _ _ => trivial)
      (fun _ op _ h => markedOnce_step_iff h op) trivial (markedOnce_new d horizonS maxSamples)⟩

/-- A fill is due and its report raises: it enters the mean and the samples, and it stays in the
queue, so that the next evaluation resolves it again. -/
theorem marked_twice_after_raise :
    ¬ ∀ (halfLife : ℝ) (hpos : 0 < halfLife) (ops : List (MarkoutOp ℝ)),
      Run.Always step (MarkedOnce (Decay.halfLife halfLife hpos))
        (new (Decay.halfLife halfLife hpos) 300 5000) ops := by
  intro h
  have hall := h 1800 (by norm_num) [.recordFill .buy (1 / 2) 0 "yes",
    .evaluate (12 / 25) 300 none (some 0)]
  rw [Run.always_cons, Run.always_cons, Run.always_nil] at hall
  obtain ⟨-, hrecorded, hraised⟩ := hall
  rcases (markedOnce_step_iff hrecorded _).1 hraised with hdue | ⟨-, hle⟩
  · simp [step, new, MarkoutTracker.recordFill, MarkoutTracker.due] at hdue
  · have hzero := hle 0 rfl
    simp [step, new, MarkoutTracker.recordFill, MarkoutTracker.due] at hzero

end MarkoutRun

end Polymaker
