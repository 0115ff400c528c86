import Mathlib.Data.List.Chain
import Mathlib.Tactic.FieldSimp
import Polymaker.Strategy.FlowBound

/-!
# Flow and the polling of the quoter

Every recompute decays the flow estimator to its own time, and a print blends in with the weight of
the time since the last print or decay.  So a decay takes weight from the next print, and a decay
past its timestamp takes all of it.

* `Schedule`: the prints of a market with decays between them, and a last decay at time `T`;
* `PollingInvariant`: signed flow and strength at `T` do not depend on the decays;
* `NoneDropped`: no print is dropped, whatever the decays;
* `Ewma.Aged`: a mean that is its first value, decayed since;
* `polling_iff`: the first holds exactly for prints that carry no flow once time has passed, the
  second exactly for at most one print.
-/

namespace Polymaker

/-- A trade print as the estimator is fed it. -/
structure FlowPrint where
  aggressor : Side
  size : ℝ
  ts : ℝ
  flowScale : ℝ

namespace FlowPrint

/-- The signed flow of a print. -/
noncomputable def flow (p : FlowPrint) : ℝ :=
  FlowEstimator.signedFlow p.aggressor p.size p.flowScale

/-- The print as an event. -/
def op (p : FlowPrint) : FlowOp ℝ := .update p.aggressor p.size p.ts p.flowScale

end FlowPrint

/-- The prints among the events. -/
def printsOf (ops : List (FlowOp ℝ)) : List FlowPrint :=
  ops.filterMap fun
    | .update aggressor size ts flowScale => some ⟨aggressor, size, ts, flowScale⟩
    | .decayTo _ => none

/-- The times of the decays among the events. -/
def decaysOf (ops : List (FlowOp ℝ)) : List ℝ :=
  ops.filterMap fun
    | .update _ _ _ _ => none
    | .decayTo ts => some ts

section Projections

variable (p : FlowPrint) (ts : ℝ) (ops ops' : List (FlowOp ℝ))

@[simp] theorem printsOf_nil : printsOf [] = [] := rfl

@[simp] theorem printsOf_op : printsOf (p.op :: ops) = p :: printsOf ops := rfl

@[simp] theorem printsOf_decayTo : printsOf (.decayTo ts :: ops) = printsOf ops := rfl

@[simp] theorem printsOf_append : printsOf (ops ++ ops') = printsOf ops ++ printsOf ops' :=
  List.filterMap_append

@[simp] theorem printsOf_map (ps : List FlowPrint) : printsOf (ps.map FlowPrint.op) = ps := by
  induction ps with
  | nil => rfl
  | cons p ps ih => rw [List.map_cons, printsOf_op, ih]

@[simp] theorem decaysOf_nil : decaysOf [] = [] := rfl

@[simp] theorem decaysOf_op : decaysOf (p.op :: ops) = decaysOf ops := rfl

@[simp] theorem decaysOf_decayTo : decaysOf (.decayTo ts :: ops) = ts :: decaysOf ops := rfl

@[simp] theorem decaysOf_append : decaysOf (ops ++ ops') = decaysOf ops ++ decaysOf ops' :=
  List.filterMap_append

@[simp] theorem decaysOf_map (ps : List FlowPrint) : decaysOf (ps.map FlowPrint.op) = [] := by
  induction ps with
  | nil => rfl
  | cons p ps ih => rw [List.map_cons, decaysOf_op, ih]

end Projections

/-- A way to interleave the prints `ps` with decays, whose times do not decrease and are not past
the last one, `T`. -/
structure Schedule (ps : List FlowPrint) (T : ℝ) where
  ops : List (FlowOp ℝ)
  prints : printsOf ops = ps
  ordered : (decaysOf ops).Pairwise (· ≤ ·)
  le_last : ∀ t ∈ decaysOf ops, t ≤ T

/-- The estimator after a schedule and the last decay. -/
noncomputable def Schedule.result {ps : List FlowPrint} {T : ℝ} (s : Schedule ps T)
    (d : Decay ℝ) : FlowEstimator ℝ :=
  (Run.run FlowEstimator.step (.new d) s.ops).decayTo T

/-- Signed flow and strength at a time past all prints do not depend on the schedule. -/
def PollingInvariant (d : Decay ℝ) (ps : List FlowPrint) : Prop :=
  ∀ T, (∀ p ∈ ps, p.ts ≤ T) → ∀ s s' : Schedule ps T,
    (s.result d).signed.value = (s'.result d).signed.value ∧
      (s.result d).z Real.sqrt = (s'.result d).z Real.sqrt

/-- No schedule drops a print. -/
def NoneDropped (d : Decay ℝ) (ps : List FlowPrint) : Prop :=
  ∀ T, (∀ p ∈ ps, p.ts ≤ T) → ∀ s : Schedule ps T, (s.result d).signed.outOfOrder = 0

/-- A print that is stamped later than the one before it carries no flow. -/
def LaterPrintsSilent (ps : List FlowPrint) : Prop :=
  ps.IsChain fun p q => p.ts < q.ts → q.flow = 0

/-! ### A mean that only decays -/

section Aging

variable {h : ℝ} {hpos : 0 < h} {e : Ewma ℝ} {x t₀ ts : ℝ}

namespace Ewma

/-- The mean is the value `x` of time `t₀`, decayed since. -/
structure Aged (hpos : 0 < h) (x t₀ : ℝ) (e : Ewma ℝ) : Prop where
  decay : e.decay = .halfLife h hpos
  initialized : e.initialized = true
  value : e.value = (Decay.halfLife h hpos).share (e.lastTs - t₀) * x

/-- What is left at time `ts` of what was left at the clock. -/
theorem Aged.value_mul (ha : e.Aged hpos x t₀) (ts : ℝ) :
    e.value * e.decay.share (ts - e.lastTs) = (Decay.halfLife h hpos).share (ts - t₀) * x := by
  have hsplit : ts - t₀ = (ts - e.lastTs) + (e.lastTs - t₀) := by ring
  rw [ha.value, ha.decay, hsplit, Decay.halfLife_add]
  ring

theorem Aged.decayTo (ha : e.Aged hpos x t₀) (ts : ℝ) : (e.decayTo ts).Aged hpos x t₀ := by
  rcases lt_or_ge e.lastTs ts with hts | hts
  · rw [Ewma.decayTo_ahead ha.initialized hts]
    exact ⟨ha.decay, ha.initialized, ha.value_mul ts⟩
  · rwa [Ewma.decayTo_behind hts]

/-- An observation of zero decays, and one that is not ahead of the clock has no weight. -/
theorem Aged.update (ha : e.Aged hpos x t₀) {v : ℝ} (hv : v = 0 ∨ ts ≤ e.lastTs) :
    (e.update v ts).Aged hpos x t₀ := by
  rcases lt_or_ge ts e.lastTs with hts | hts
  · rw [Ewma.update_stale ha.initialized hts]
    exact ⟨ha.decay, ha.initialized, ha.value⟩
  · rw [Ewma.update_fresh ha.initialized hts]
    refine ⟨ha.decay, ha.initialized, ?_⟩
    dsimp only
    rcases hv with rfl | hle
    · rw [blend_zero_right, mul_comm]
      exact ha.value_mul ts
    · have heq : ts = e.lastTs := le_antisymm hle hts
      rw [heq, sub_self, ha.decay, Decay.halfLife_zero, blend_one]
      exact ha.value

theorem le_lastTs_update (hinit : e.initialized = true) (v ts : ℝ) :
    ts ≤ (e.update v ts).lastTs := by
  rcases lt_or_ge ts e.lastTs with hts | hts
  · rw [Ewma.update_stale hinit hts]
    exact hts.le
  · rw [Ewma.update_fresh hinit hts]

theorem lastTs_le_decayTo (e : Ewma ℝ) (ts : ℝ) : e.lastTs ≤ (e.decayTo ts).lastTs := by
  unfold Ewma.decayTo
  split_ifs with hahead
  · exact hahead.2.le
  · exact le_rfl

theorem lastTs_update_le {T : ℝ} (hT : e.lastTs ≤ T) (v : ℝ) (hts : ts ≤ T) :
    (e.update v ts).lastTs ≤ T := by
  unfold Ewma.update
  split_ifs
  · exact hts
  · exact hT
  · exact hts

theorem lastTs_decayTo_le {T : ℝ} (hT : e.lastTs ≤ T) (hts : ts ≤ T) :
    (e.decayTo ts).lastTs ≤ T := by
  unfold Ewma.decayTo
  split_ifs
  · exact hts
  · exact hT

end Ewma

/-! ### Runs of silent prints -/

/-- Both means are those of the print `p`, decayed since, and their clocks are past `last` and not
past `T`. -/
structure Settled (hpos : 0 < h) (p : FlowPrint) (last T : ℝ) (f : FlowEstimator ℝ) : Prop where
  signed : f.signed.Aged hpos p.flow p.ts
  sq : f.sq.Aged hpos (p.flow * p.flow) p.ts
  last_le : last ≤ f.signed.lastTs ∧ last ≤ f.sq.lastTs
  le_bound : f.signed.lastTs ≤ T ∧ f.sq.lastTs ≤ T

variable {p : FlowPrint} {last T : ℝ} {f : FlowEstimator ℝ}

/-- The first print. -/
theorem settled_first (p : FlowPrint) (hT : p.ts ≤ T) :
    Settled hpos p p.ts T ((FlowEstimator.new (.halfLife h hpos)).step p.op) := by
  have hfirst : (FlowEstimator.new (.halfLife h hpos)).step p.op =
      ⟨{ decay := .halfLife h hpos, value := p.flow, lastTs := p.ts, initialized := true },
        { decay := .halfLife h hpos, value := p.flow * p.flow, lastTs := p.ts,
          initialized := true }⟩ := rfl
  rw [hfirst]
  refine ⟨⟨rfl, rfl, ?_⟩, ⟨rfl, rfl, ?_⟩, ⟨le_rfl, le_rfl⟩, hT, hT⟩ <;>
  · dsimp only
    rw [sub_self, Decay.halfLife_zero, one_mul]

theorem Settled.decayTo (hs : Settled hpos p last T f) {ts : ℝ} (hts : ts ≤ T) :
    Settled hpos p last T (f.decayTo ts) where
  signed := hs.signed.decayTo ts
  sq := hs.sq.decayTo ts
  last_le := ⟨hs.last_le.1.trans (Ewma.lastTs_le_decayTo _ ts),
    hs.last_le.2.trans (Ewma.lastTs_le_decayTo _ ts)⟩
  le_bound := ⟨Ewma.lastTs_decayTo_le hs.le_bound.1 hts, Ewma.lastTs_decayTo_le hs.le_bound.2 hts⟩

/-- A later print that is silent if it is later indeed. -/
theorem Settled.update (hs : Settled hpos p last T f) {q : FlowPrint} (hle : last ≤ q.ts)
    (hsilent : last < q.ts → q.flow = 0) (hT : q.ts ≤ T) : Settled hpos p q.ts T (f.step q.op) := by
  have hcase : q.flow = 0 ∨ q.ts = last := by
    rcases hle.lt_or_eq with hlt | heq
    · exact .inl (hsilent hlt)
    · exact .inr heq.symm
  refine ⟨hs.signed.update ?_, hs.sq.update ?_,
    ⟨Ewma.le_lastTs_update hs.signed.initialized _ _, Ewma.le_lastTs_update hs.sq.initialized _ _⟩,
    Ewma.lastTs_update_le hs.le_bound.1 _ hT, Ewma.lastTs_update_le hs.le_bound.2 _ hT⟩
  · exact hcase.imp_right fun heq : q.ts = last => heq.trans_le hs.last_le.1
  · refine hcase.imp (fun hflow => ?_) fun heq : q.ts = last => heq.trans_le hs.last_le.2
    show q.flow * q.flow = 0
    rw [hflow, mul_zero]

/-- The order of the prints, and the silence of the later ones. -/
def FollowsPrint (p q : FlowPrint) : Prop := p.ts ≤ q.ts ∧ (p.ts < q.ts → q.flow = 0)

/-- Decays and silent prints leave the first print decaying. -/
theorem Settled.run {p q : FlowPrint} (ops : List (FlowOp ℝ)) {f : FlowEstimator ℝ}
    (hs : Settled hpos p q.ts T f) (hchain : (q :: printsOf ops).IsChain FollowsPrint)
    (hprints : ∀ p ∈ printsOf ops, p.ts ≤ T) (hdecays : ∀ t ∈ decaysOf ops, t ≤ T) :
    ∃ last, Settled hpos p last T (Run.run FlowEstimator.step f ops) := by
  induction ops generalizing f q with
  | nil => exact ⟨q.ts, hs⟩
  | cons op ops ih =>
    rw [Run.run_cons]
    cases op with
    | update aggressor size ts flowScale =>
      have hcons : printsOf (.update aggressor size ts flowScale :: ops) =
          ⟨aggressor, size, ts, flowScale⟩ :: printsOf ops := rfl
      rw [hcons] at hchain hprints
      obtain ⟨⟨hle, hsilent⟩, hrest⟩ := List.isChain_cons_cons.1 hchain
      obtain ⟨hT, hprints⟩ := List.forall_mem_cons.1 hprints
      exact ih (hs.update hle hsilent hT) hrest hprints hdecays
    | decayTo ts =>
      rw [decaysOf_decayTo] at hdecays
      obtain ⟨hT, hdecays⟩ := List.forall_mem_cons.1 hdecays
      exact ih (hs.decayTo hT) hchain hprints hdecays

/-- Decays before the first print change nothing. -/
theorem settled_run (hpos : 0 < h) {p : FlowPrint} {ps : List FlowPrint} (ops : List (FlowOp ℝ))
    (hops : printsOf ops = p :: ps) (hchain : (p :: ps).IsChain FollowsPrint)
    (hprints : ∀ p ∈ printsOf ops, p.ts ≤ T) (hdecays : ∀ t ∈ decaysOf ops, t ≤ T) :
    ∃ last, Settled hpos p last T
      (Run.run FlowEstimator.step (.new (.halfLife h hpos)) ops) := by
  induction ops with
  | nil => cases hops
  | cons op ops ih =>
    rw [Run.run_cons]
    cases op with
    | update aggressor size ts flowScale =>
      obtain ⟨rfl, rfl⟩ := List.cons_eq_cons.1 hops
      have hprints' : ∀ p ∈ printsOf ops, p.ts ≤ T := fun p hp =>
        hprints p (List.mem_cons_of_mem _ hp)
      exact (settled_first _ (hprints _ List.mem_cons_self)).run ops hchain hprints' hdecays
    | decayTo ts =>
      have hnew : (FlowEstimator.new (.halfLife h hpos)).step (.decayTo ts) =
          FlowEstimator.new (.halfLife h hpos) := rfl
      rw [hnew]
      exact ih hops hprints fun t ht => hdecays t (List.mem_cons_of_mem _ ht)

/-- What the last decay leaves of a mean that only decays. -/
theorem Ewma.Aged.value_decayTo (ha : e.Aged hpos x t₀) {T : ℝ} (hT : e.lastTs ≤ T) :
    (e.decayTo T).value = (Decay.halfLife h hpos).share (T - t₀) * x := by
  rcases hT.lt_or_eq with hlt | heq
  · rw [Ewma.decayTo_ahead ha.initialized hlt]
    exact ha.value_mul T
  · rw [Ewma.decayTo_behind heq.ge, ← heq]
    exact ha.value

end Aging

/-! ### The two sides -/

section Sides

variable {h : ℝ} {hpos : 0 < h} {ps : List FlowPrint}

/-- What every schedule of silent prints results in. -/
theorem result_of_silent (hpos : 0 < h) {p : FlowPrint}
    (hchain : (p :: ps).IsChain FollowsPrint) {T : ℝ} (hT : ∀ q ∈ p :: ps, q.ts ≤ T)
    (s : Schedule (p :: ps) T) :
    (s.result (.halfLife h hpos)).signed.value =
        (Decay.halfLife h hpos).share (T - p.ts) * p.flow ∧
      (s.result (.halfLife h hpos)).sq.value =
        (Decay.halfLife h hpos).share (T - p.ts) * (p.flow * p.flow) := by
  obtain ⟨last, hs⟩ := settled_run hpos s.ops s.prints hchain (by rwa [s.prints]) s.le_last
  exact ⟨hs.signed.value_decayTo hs.le_bound.1, hs.sq.value_decayTo hs.le_bound.2⟩

/-- Without prints the estimator stays as it was made. -/
theorem run_of_no_prints {f : FlowEstimator ℝ} (hf : f.signed.initialized = false)
    (hf' : f.sq.initialized = false) (ops : List (FlowOp ℝ)) (hops : printsOf ops = []) :
    Run.run FlowEstimator.step f ops = f := by
  induction ops with
  | nil => rfl
  | cons op ops ih =>
    cases op with
    | update aggressor size ts flowScale => cases hops
    | decayTo ts =>
      have hstep : f.step (.decayTo ts) = f := by
        unfold FlowEstimator.step FlowEstimator.decayTo
        dsimp only
        rw [Ewma.decayTo_first hf, Ewma.decayTo_first hf']
      rw [Run.run_cons, hstep]
      exact ih hops

theorem pollingInvariant_of_silent (hsorted : ps.Pairwise fun p q => p.ts ≤ q.ts)
    (hsilent : LaterPrintsSilent ps) : PollingInvariant (.halfLife h hpos) ps := by
  intro T hT s s'
  suffices heq : (s.result (.halfLife h hpos)).signed.value =
      (s'.result (.halfLife h hpos)).signed.value ∧
      (s.result (.halfLife h hpos)).sq.value = (s'.result (.halfLife h hpos)).sq.value by
    refine ⟨heq.1, ?_⟩
    unfold FlowEstimator.z FlowEstimator.rms
    rw [heq.1, heq.2]
  cases ps with
  | nil =>
    have hnew : ∀ s : Schedule [] T, s.result (.halfLife h hpos) =
        (FlowEstimator.new (.halfLife h hpos)).decayTo T := fun s => by
      unfold Schedule.result
      rw [run_of_no_prints rfl rfl s.ops s.prints]
    rw [hnew s, hnew s']
    exact ⟨rfl, rfl⟩
  | cons p ps =>
    have hchain : (p :: ps).IsChain FollowsPrint := by
      refine List.isChain_iff_forall_rel_of_append_cons_cons.2 fun a b l₁ l₂ heq => ⟨?_, ?_⟩
      · rw [heq, List.pairwise_append, List.pairwise_cons] at hsorted
        exact hsorted.2.1.1 b List.mem_cons_self
      · exact List.isChain_iff_forall_rel_of_append_cons_cons.1 hsilent heq
    obtain ⟨h₁, h₂⟩ := result_of_silent hpos hchain hT s
    obtain ⟨h₁', h₂'⟩ := result_of_silent hpos hchain hT s'
    exact ⟨h₁.trans h₁'.symm, h₂.trans h₂'.symm⟩

/-! ### A decay that takes the weight of a print -/

/-- The schedule of one decay, to the last time, between the prints `pre` and `post`. -/
def Schedule.pause {T : ℝ} (pre post : List FlowPrint) (hps : pre ++ post = ps) :
    Schedule ps T where
  ops := pre.map FlowPrint.op ++ .decayTo T :: post.map FlowPrint.op
  prints := by simp [hps]
  ordered := by simp
  le_last := by simp

/-- The signed mean has its clock at `T`. -/
structure AtTime (hpos : 0 < h) (T : ℝ) (e : Ewma ℝ) : Prop where
  decay : e.decay = .halfLife h hpos
  initialized : e.initialized = true
  lastTs : e.lastTs = T

variable {e : Ewma ℝ} {T : ℝ}

theorem AtTime.decayTo {t : ℝ} (ha : AtTime hpos t e) (hle : t ≤ T) :
    AtTime hpos T (e.decayTo T) := by
  rcases hle.lt_or_eq with hlt | rfl
  · rw [Ewma.decayTo_ahead ha.initialized (ha.lastTs.trans_lt hlt)]
    exact ⟨ha.decay, ha.initialized, rfl⟩
  · rwa [Ewma.decayTo_behind ha.lastTs.ge]

/-- An observation that is not ahead of the clock leaves the mean. -/
theorem AtTime.update_behind (ha : AtTime hpos T e) (v : ℝ) {ts : ℝ} (hts : ts ≤ T) :
    AtTime hpos T (e.update v ts) ∧ (e.update v ts).value = e.value := by
  rcases hts.lt_or_eq with hlt | rfl
  · rw [Ewma.update_stale ha.initialized (ha.lastTs.symm ▸ hlt)]
    exact ⟨⟨ha.decay, ha.initialized, ha.lastTs⟩, rfl⟩
  · rw [Ewma.update_fresh ha.initialized ha.lastTs.le]
    refine ⟨⟨ha.decay, ha.initialized, rfl⟩, ?_⟩
    dsimp only
    rw [ha.lastTs, sub_self, ha.decay, Decay.halfLife_zero, blend_one]

theorem AtTime.run_behind {f : FlowEstimator ℝ} (ha : AtTime hpos T f.signed)
    (qs : List FlowPrint) (hqs : ∀ q ∈ qs, q.ts ≤ T) :
    AtTime hpos T (Run.run FlowEstimator.step f (qs.map FlowPrint.op)).signed ∧
      (Run.run FlowEstimator.step f (qs.map FlowPrint.op)).signed.value = f.signed.value := by
  induction qs generalizing f with
  | nil => exact ⟨ha, rfl⟩
  | cons q qs ih =>
    obtain ⟨hq, hqs⟩ := List.forall_mem_cons.1 hqs
    obtain ⟨hat, hvalue⟩ := ha.update_behind q.flow hq
    obtain ⟨hrun, hsame⟩ := ih (f := f.step q.op) hat hqs
    exact ⟨hrun, hsame.trans hvalue⟩

/-- The clock of the prints that were fed is that of the last one. -/
theorem atTime_run (hpos : 0 < h) (ps : List FlowPrint) (p : FlowPrint)
    (hle : ∀ q ∈ ps, q.ts ≤ p.ts) :
    AtTime hpos p.ts (Run.run FlowEstimator.step (.new (.halfLife h hpos))
      ((ps ++ [p]).map FlowPrint.op)).signed := by
  have hclock : ∀ f : FlowEstimator ℝ, f.signed.decay = .halfLife h hpos →
      (f.signed.initialized = true → f.signed.lastTs ≤ p.ts) →
      AtTime hpos p.ts (Run.run FlowEstimator.step f ((ps ++ [p]).map FlowPrint.op)).signed := by
    induction ps with
    | nil =>
      intro f hdecay hlast
      show AtTime hpos p.ts (f.signed.update p.flow p.ts)
      cases hinit : f.signed.initialized with
      | false =>
        rw [Ewma.update_first hinit]
        exact ⟨hdecay, rfl, rfl⟩
      | true =>
        rw [Ewma.update_fresh hinit (hlast hinit)]
        exact ⟨hdecay, hinit, rfl⟩
    | cons q ps ih =>
      intro f hdecay hlast
      obtain ⟨hq, hle⟩ := List.forall_mem_cons.1 hle
      refine ih hle (f.step q.op) ?_ fun _ => ?_
      · show (f.signed.update q.flow q.ts).decay = _
        unfold Ewma.update
        split_ifs <;> exact hdecay
      · show (f.signed.update q.flow q.ts).lastTs ≤ p.ts
        unfold Ewma.update
        split_ifs with hinit
        · exact hq
        · exact hlast (by simpa using hinit)
        · exact hq
  exact hclock _ rfl fun hinit => absurd hinit Bool.false_ne_true

/-- What a schedule with one decay results in: the prints after the decay add nothing. -/
theorem result_pause (hpos : 0 < h) {pre post : List FlowPrint} (p : FlowPrint)
    (hps : pre ++ [p] ++ post = ps) (hle : ∀ q ∈ pre, q.ts ≤ p.ts) (hT : ∀ q ∈ ps, q.ts ≤ T) :
    ((Schedule.pause (T := T) (pre ++ [p]) post hps).result (.halfLife h hpos)).signed.value =
      ((Run.run FlowEstimator.step (.new (.halfLife h hpos))
        ((pre ++ [p]).map FlowPrint.op)).signed.decayTo T).value := by
  set f := Run.run FlowEstimator.step (.new (.halfLife h hpos)) ((pre ++ [p]).map FlowPrint.op)
    with hf
  have hat : AtTime hpos p.ts f.signed := atTime_run hpos pre p hle
  have hp : p.ts ≤ T := hT p (by rw [← hps]; simp)
  have hpost : ∀ q ∈ post, q.ts ≤ T := fun q hq => hT q (by rw [← hps]; simp [hq])
  obtain ⟨hend, hsame⟩ := AtTime.run_behind (f := f.decayTo T) (hat.decayTo hp) post hpost
  unfold Schedule.result Schedule.pause
  rw [Run.run_append, Run.run_cons, ← hf]
  show ((Run.run FlowEstimator.step (f.decayTo T) (post.map FlowPrint.op)).signed.decayTo T).value =
    (f.signed.decayTo T).value
  rw [Ewma.decayTo_behind hend.lastTs.ge]
  exact hsame

theorem AtTime.value_decayTo {t : ℝ} (ha : AtTime hpos t e) (hle : t ≤ T) :
    (e.decayTo T).value = e.value * (Decay.halfLife h hpos).share (T - t) := by
  rcases hle.lt_or_eq with hlt | rfl
  · rw [Ewma.decayTo_ahead ha.initialized (ha.lastTs.trans_lt hlt)]
    dsimp only
    rw [ha.lastTs, ha.decay]
  · rw [Ewma.decayTo_behind ha.lastTs.ge, sub_self, Decay.halfLife_zero, mul_one]

/-- An observation that is not behind the clock is blended in. -/
theorem AtTime.update_ahead {t ts : ℝ} (ha : AtTime hpos t e) (hle : t ≤ ts) (v : ℝ) :
    AtTime hpos ts (e.update v ts) ∧
      (e.update v ts).value = blend ((Decay.halfLife h hpos).share (ts - t)) e.value v := by
  rw [Ewma.update_fresh ha.initialized (ha.lastTs.trans_le hle)]
  refine ⟨⟨ha.decay, ha.initialized, rfl⟩, ?_⟩
  dsimp only
  rw [ha.lastTs, ha.decay]

theorem exists_bound (ps : List FlowPrint) : ∃ T : ℝ, ∀ p ∈ ps, p.ts ≤ T := by
  induction ps with
  | nil => exact ⟨0, fun p hp => absurd hp List.not_mem_nil⟩
  | cons p ps ih =>
    obtain ⟨T, hT⟩ := ih
    refine ⟨max p.ts T, List.forall_mem_cons.2 ⟨le_max_left _ _, fun q hq => ?_⟩⟩
    exact (hT q hq).trans (le_max_right _ _)

/-- A print that carries flow once time has passed counts with a decay after it, and not with the
decay before it. -/
theorem silent_of_pollingInvariant (hsorted : ps.Pairwise fun p q => p.ts ≤ q.ts)
    (hinv : PollingInvariant (.halfLife h hpos) ps) : LaterPrintsSilent ps := by
  refine List.isChain_iff_forall_rel_of_append_cons_cons.2 fun a b l₁ l₂ heq hlt => ?_
  obtain ⟨T, hT⟩ := exists_bound ps
  have hps : l₁ ++ [a] ++ (b :: l₂) = ps := by rw [heq]; simp
  have hps' : l₁ ++ [a] ++ [b] ++ l₂ = ps := by rw [heq]; simp
  have hafter : ∀ q ∈ l₁ ++ [a], q.ts ≤ b.ts := by
    rw [← hps, List.pairwise_append] at hsorted
    exact fun q hq => hsorted.2.2 q hq b List.mem_cons_self
  have hbefore : ∀ q ∈ l₁, q.ts ≤ a.ts := by
    rw [← hps, List.append_assoc, List.pairwise_append] at hsorted
    exact fun q hq => hsorted.2.2 q hq a (by simp)
  have hbT : b.ts ≤ T := hT b (by rw [← hps]; simp)
  -- the decay comes after `b` in one schedule, and before it in the other
  have hsame := (hinv T hT (.pause (l₁ ++ [a] ++ [b]) l₂ hps')
    (.pause (l₁ ++ [a]) (b :: l₂) hps)).1
  rw [result_pause hpos b hps' hafter hT, result_pause hpos a hps hbefore hT, List.map_append,
    Run.run_append] at hsame
  set f := Run.run FlowEstimator.step (.new (.halfLife h hpos)) ((l₁ ++ [a]).map FlowPrint.op)
  have hat : AtTime hpos a.ts f.signed := atTime_run hpos l₁ a hbefore
  have hstep : (Run.run FlowEstimator.step f ([b].map FlowPrint.op)).signed =
      f.signed.update b.flow b.ts := rfl
  obtain ⟨hat', hvalue⟩ := hat.update_ahead hlt.le b.flow
  have hsplit : T - a.ts = (T - b.ts) + (b.ts - a.ts) := by ring
  rw [hstep, hat'.value_decayTo hbT, hvalue, hat.value_decayTo (hlt.le.trans hbT), hsplit,
    Decay.halfLife_add] at hsame
  set w := (Decay.halfLife h hpos).share (b.ts - a.ts)
  have hkept : (Decay.halfLife h hpos).share (T - b.ts) ≠ 0 := Decay.halfLife_ne_zero _
  have hless : w < 1 := Decay.halfLife_lt_one (sub_pos.2 hlt)
  have hprod : (Decay.halfLife h hpos).share (T - b.ts) * ((1 - w) * b.flow) = 0 := by
    unfold blend at hsame
    linear_combination hsame
  rcases mul_eq_zero.1 hprod with h0 | h0
  · exact absurd h0 hkept
  · rcases mul_eq_zero.1 h0 with h0 | h0
    · exact absurd h0 (sub_pos.2 hless).ne'
    · exact h0

end Sides

/-! ### Dropped prints -/

section Dropped

variable {h : ℝ} {hpos : 0 < h} {ps : List FlowPrint}

theorem outOfOrder_le_step (f : FlowEstimator ℝ) (op : FlowOp ℝ) :
    f.signed.outOfOrder ≤ (f.step op).signed.outOfOrder := by
  cases op with
  | update aggressor size ts flowScale =>
    show _ ≤ (f.signed.update _ ts).outOfOrder
    unfold Ewma.update
    split_ifs
    · exact le_rfl
    · exact Nat.le_succ _
    · exact le_rfl
  | decayTo ts =>
    show _ ≤ (f.signed.decayTo ts).outOfOrder
    unfold Ewma.decayTo
    split_ifs <;> exact le_rfl

theorem outOfOrder_le_run (f : FlowEstimator ℝ) (ops : List (FlowOp ℝ)) :
    f.signed.outOfOrder ≤ (Run.run FlowEstimator.step f ops).signed.outOfOrder :=
  Run.run_of_forall_mem
    (P := fun g : FlowEstimator ℝ => f.signed.outOfOrder ≤ g.signed.outOfOrder)
    (fun g op _ hle => hle.trans (outOfOrder_le_step g op)) le_rfl

theorem outOfOrder_decayTo (f : FlowEstimator ℝ) (ts : ℝ) :
    (f.decayTo ts).signed.outOfOrder = f.signed.outOfOrder := by
  show (f.signed.decayTo ts).outOfOrder = _
  unfold Ewma.decayTo
  split_ifs <;> rfl

/-- Decays drop nothing. -/
theorem outOfOrder_of_no_prints (f : FlowEstimator ℝ) (ops : List (FlowOp ℝ))
    (hops : printsOf ops = []) :
    (Run.run FlowEstimator.step f ops).signed.outOfOrder = f.signed.outOfOrder := by
  induction ops generalizing f with
  | nil => rfl
  | cons op ops ih =>
    cases op with
    | update aggressor size ts flowScale => cases hops
    | decayTo ts => exact (ih (f.decayTo ts) hops).trans (outOfOrder_decayTo f ts)

/-- The first print is never dropped. -/
theorem outOfOrder_of_one_print {f : FlowEstimator ℝ} (hf : f.signed.initialized = false)
    {p : FlowPrint} (ops : List (FlowOp ℝ)) (hops : printsOf ops = [p]) :
    (Run.run FlowEstimator.step f ops).signed.outOfOrder = f.signed.outOfOrder := by
  induction ops generalizing f with
  | nil => cases hops
  | cons op ops ih =>
    rw [Run.run_cons]
    cases op with
    | update aggressor size ts flowScale =>
      obtain ⟨-, hnone⟩ := List.cons_eq_cons.1 hops
      rw [outOfOrder_of_no_prints _ ops hnone]
      show (f.signed.update _ ts).outOfOrder = _
      rw [Ewma.update_first hf]
    | decayTo ts =>
      have hf' : (f.step (.decayTo ts)).signed = f.signed := Ewma.decayTo_first hf
      rw [ih (hf' ▸ hf) hops, hf']

theorem noneDropped_iff (hsorted : ps.Pairwise fun p q => p.ts ≤ q.ts) :
    NoneDropped (.halfLife h hpos) ps ↔ ps.length ≤ 1 := by
  constructor
  · intro hnone
    by_contra hlen
    obtain ⟨p, q, post, rfl⟩ : ∃ p q post, ps = p :: q :: post := by
      rcases ps with _ | ⟨p, _ | ⟨q, post⟩⟩
      · exact absurd (Nat.zero_le 1) hlen
      · exact absurd le_rfl hlen
      · exact ⟨p, q, post, rfl⟩
    obtain ⟨T, hT⟩ := exists_bound (p :: q :: post)
    -- the decay goes past both prints before the second one arrives
    have hT' : ∀ r ∈ p :: q :: post, r.ts ≤ T + 1 := fun r hr => by linarith [hT r hr]
    have hp : p.ts ≤ T + 1 := hT' p List.mem_cons_self
    have hq : q.ts < T + 1 := by
      have hqT := hT q (List.mem_cons_of_mem p List.mem_cons_self)
      linarith
    have h0 := hnone (T + 1) hT' (.pause [p] (q :: post) rfl)
    set f := (FlowEstimator.new (.halfLife h hpos)).step p.op
    have hat : AtTime hpos (T + 1) (f.decayTo (T + 1)).signed :=
      (atTime_run hpos [] p (by simp)).decayTo hp
    have hdrop : ((f.decayTo (T + 1)).step q.op).signed.outOfOrder =
        (f.decayTo (T + 1)).signed.outOfOrder + 1 := by
      show ((f.decayTo (T + 1)).signed.update q.flow q.ts).outOfOrder = _
      rw [Ewma.update_stale hat.initialized (hat.lastTs.symm ▸ hq)]
    have hmono := outOfOrder_le_run ((f.decayTo (T + 1)).step q.op) (post.map FlowPrint.op)
    unfold Schedule.result at h0
    rw [outOfOrder_decayTo] at h0
    have hrun : Run.run FlowEstimator.step (.new (.halfLife h hpos))
        (Schedule.pause (T := T + 1) [p] (q :: post) rfl).ops =
        Run.run FlowEstimator.step ((f.decayTo (T + 1)).step q.op) (post.map FlowPrint.op) := rfl
    rw [hrun] at h0
    omega
  · intro hlen T hT s
    unfold Schedule.result
    rw [outOfOrder_decayTo]
    rcases ps with _ | ⟨p, _ | ⟨q, post⟩⟩
    · exact outOfOrder_of_no_prints _ s.ops s.prints
    · exact outOfOrder_of_one_print rfl s.ops s.prints
    · simp at hlen

end Dropped

/-! ### When polling does not matter -/

/-- **When flow does not depend on polling.**  For every half-life and prints in the order of their
timestamps, signed flow and strength are the same for all schedules of decays if and only if every
print that is stamped later than the one before it carries no flow; and no schedule drops a print if
and only if there is at most one. -/
theorem polling_iff {h : ℝ} (hpos : 0 < h) {ps : List FlowPrint}
    (hsorted : ps.Pairwise fun p q => p.ts ≤ q.ts) :
    (PollingInvariant (.halfLife h hpos) ps ↔ LaterPrintsSilent ps) ∧
      (NoneDropped (.halfLife h hpos) ps ↔ ps.length ≤ 1) :=
  ⟨⟨silent_of_pollingInvariant hsorted, pollingInvariant_of_silent hsorted⟩,
    noneDropped_iff hsorted⟩

/-- A purchase, and after a second a print of no size: the flow does not depend on the polling, yet
a poll past the second print drops it. -/
theorem polling_iff_empty_print :
    PollingInvariant (.halfLife 1 one_pos) [⟨.buy, 10, 0, 1⟩, ⟨.sell, 0, 1, 1⟩] ∧
      ¬ NoneDropped (.halfLife 1 one_pos) [⟨.buy, 10, 0, 1⟩, ⟨.sell, 0, 1, 1⟩] := by
  have hsorted : ([⟨.buy, 10, 0, 1⟩, ⟨.sell, 0, 1, 1⟩] : List FlowPrint).Pairwise
      fun p q => p.ts ≤ q.ts := by simp
  obtain ⟨hinv, hdrop⟩ := polling_iff one_pos hsorted
  have hsilent : LaterPrintsSilent [⟨.buy, 10, 0, 1⟩, ⟨.sell, 0, 1, 1⟩] := by
    simp [LaterPrintsSilent, FlowPrint.flow, FlowEstimator.signedFlow]
  exact ⟨hinv.2 hsilent, fun hnone => absurd (hdrop.1 hnone) (by simp)⟩

/-- Two purchases of 10 a second apart, with a half-life of a second.  At second 2 the signed flow
is 5 without polls before; after a poll at second 2 between the prints it is 5/2, and the second
print is dropped. -/
theorem not_pollingInvariant_two_buys :
    let p : FlowPrint := ⟨.buy, 10, 0, 1⟩
    let q : FlowPrint := ⟨.buy, 10, 1, 1⟩
    let s : Schedule [p, q] 2 := .pause [p, q] [] rfl
    let s' : Schedule [p, q] 2 := .pause [p] [q] rfl
    (s.result (.halfLife 1 one_pos)).signed.value = 5 ∧
      (s'.result (.halfLife 1 one_pos)).signed.value = 5 / 2 ∧
      (s'.result (.halfLife 1 one_pos)).signed.outOfOrder = 1 ∧
      ¬ PollingInvariant (.halfLife 1 one_pos) [p, q] ∧
      ¬ NoneDropped (.halfLife 1 one_pos) [p, q] := by
  intro p q s s'
  have hT : ∀ r ∈ [p, q], r.ts ≤ 2 := by simp [p, q]
  have hshare1 : (Decay.halfLife 1 one_pos).share 1 = 1 / 2 := by
    show (1 / 2 : ℝ) ^ ((1 : ℝ) / 1) = 1 / 2
    norm_num
  have hshare2 : (Decay.halfLife 1 one_pos).share 2 = 1 / 4 := by
    show (1 / 2 : ℝ) ^ ((2 : ℝ) / 1) = 1 / 4
    norm_num
  have hp : p.flow = 10 := mul_one 10
  have hq : q.flow = 10 := mul_one 10
  set f := (FlowEstimator.new (.halfLife 1 one_pos)).step p.op with hf
  have hfirst : f.signed.value = p.flow := rfl
  have hat : AtTime one_pos 0 f.signed := atTime_run one_pos [] p (by simp)
  have hpolled : AtTime one_pos 2 (f.decayTo 2).signed := hat.decayTo zero_le_two
  obtain ⟨hat', hboth⟩ := hat.update_ahead zero_le_one q.flow
  have h5 : (s.result (.halfLife 1 one_pos)).signed.value = 5 := by
    have hres := result_pause one_pos (T := 2) q (show [p] ++ [q] ++ [] = [p, q] from rfl)
      (by simp [p, q]) hT
    refine hres.trans ((hat'.value_decayTo one_le_two).trans ?_)
    rw [hboth, hfirst, hp, hq, show (2 : ℝ) - 1 = 1 by norm_num, sub_zero, hshare1]
    norm_num [blend]
  have h52 : (s'.result (.halfLife 1 one_pos)).signed.value = 5 / 2 := by
    have hres := result_pause one_pos (T := 2) p (show [] ++ [p] ++ [q] = [p, q] from rfl)
      (by simp) hT
    refine hres.trans ((hat.value_decayTo zero_le_two).trans ?_)
    rw [hfirst, hp, sub_zero, hshare2]
    norm_num
  have hdrop : (s'.result (.halfLife 1 one_pos)).signed.outOfOrder = 1 := by
    refine (outOfOrder_decayTo _ 2).trans ?_
    show ((f.decayTo 2).signed.update q.flow 1).outOfOrder = 1
    rw [Ewma.update_stale hpolled.initialized (hpolled.lastTs.symm ▸ one_lt_two)]
    show (f.decayTo 2).signed.outOfOrder + 1 = 1
    rw [outOfOrder_decayTo]
    rfl
  refine ⟨h5, h52, hdrop, fun hinv => ?_, fun hnone => ?_⟩
  · have hsame := (hinv 2 hT s s').1
    rw [h5, h52] at hsame
    norm_num at hsame
  · have h0 := hnone 2 hT s'
    rw [hdrop] at h0
    exact absurd h0 one_ne_zero

end Polymaker
