import Polymaker.Domain
import Polymaker.Lib.Blend

/-!
# The online estimators

The estimators of `strategy/estimators.py`, over an ordered field: the exact theory takes the reals,
with `Decay.halfLife` for the factor `0.5 ** (dt / halflife)` and `Real.sqrt` for the root; what is
rational runs over the rationals.

* `Ewma`: a time-decayed mean with its own clock;
* `FlowEstimator`: signed aggressor flow and its strength `z`;
* `VolEstimator`: the two volatilities of the fair value;
* `MarkoutTracker`: fills that wait for their horizon, and the samples they resolve to;
  `evaluate_spec` says what `evaluate` does with its queue;
* `MarketEstimators`: the three of them for one market, fed by `onFairValue`.
-/

namespace Polymaker

variable {K : Type*} [Field K] [LinearOrder K]

/-! ### The time-decayed mean -/

/-- `Ewma`; `decay` stands for the factor that the half-life gives an elapsed time. -/
structure Ewma (K : Type*) [Field K] [LinearOrder K] where
  decay : Decay K
  value : K := 0
  lastTs : K := 0
  initialized : Bool := false
  outOfOrder : ℕ := 0

namespace Ewma

/-- `update`: the first observation is the mean, and a stale one is counted and dropped. -/
def update (e : Ewma K) (value ts : K) : Ewma K :=
  if e.initialized = false then { e with value := value, lastTs := ts, initialized := true }
  else if ts < e.lastTs then { e with outOfOrder := e.outOfOrder + 1 }
  else
    { e with
      value := blend (e.decay.share (ts - e.lastTs)) e.value value
      lastTs := ts }

/-- `decay_to`: a time that is not ahead of the clock changes nothing. -/
def decayTo (e : Ewma K) (ts : K) : Ewma K :=
  if e.initialized = true ∧ e.lastTs < ts then
    { e with value := e.value * e.decay.share (ts - e.lastTs), lastTs := ts }
  else e

section Cases

variable {e : Ewma K} {value ts : K}

theorem update_first (h : e.initialized = false) :
    e.update value ts = { e with value := value, lastTs := ts, initialized := true } := if_pos h

theorem update_stale (h : e.initialized = true) (hts : ts < e.lastTs) :
    e.update value ts = { e with outOfOrder := e.outOfOrder + 1 } := by
  unfold update
  rw [if_neg (by simp [h]), if_pos hts]

theorem update_fresh (h : e.initialized = true) (hts : e.lastTs ≤ ts) :
    e.update value ts =
      { e with
        value := blend (e.decay.share (ts - e.lastTs)) e.value value
        lastTs := ts } := by
  unfold update
  rw [if_neg (by simp [h]), if_neg (not_lt.2 hts)]

theorem decayTo_ahead (h : e.initialized = true) (hts : e.lastTs < ts) :
    e.decayTo ts =
      { e with value := e.value * e.decay.share (ts - e.lastTs), lastTs := ts } := if_pos ⟨h, hts⟩

theorem decayTo_behind (hts : ts ≤ e.lastTs) : e.decayTo ts = e :=
  if_neg fun h => absurd h.2 (not_lt.2 hts)

theorem decayTo_first (h : e.initialized = false) : e.decayTo ts = e :=
  if_neg fun h' => by rw [h] at h'; exact absurd h'.1 (by decide)

end Cases

end Ewma

/-! ### Flow -/

/-- `FlowEstimator`: the means of the signed flow and of its square. -/
structure FlowEstimator (K : Type*) [Field K] [LinearOrder K] where
  signed : Ewma K
  sq : Ewma K

namespace FlowEstimator

/-- `__init__`. -/
def new (d : Decay K) : FlowEstimator K := ⟨{ decay := d }, { decay := d }⟩

/-- The signed flow of a print, `x`. -/
def signedFlow (aggressor : Side) (size flowScale : K) : K :=
  (match aggressor with
    | .buy => size
    | .sell => -size) * flowScale

/-- `update`. -/
def update (f : FlowEstimator K) (aggressor : Side) (size ts flowScale : K) : FlowEstimator K :=
  let x := signedFlow aggressor size flowScale
  ⟨f.signed.update x ts, f.sq.update (x * x) ts⟩

/-- `decay_to`. -/
def decayTo (f : FlowEstimator K) (ts : K) : FlowEstimator K :=
  ⟨f.signed.decayTo ts, f.sq.decayTo ts⟩

/-- The root of the mean square, `rms`. -/
def rms (sqrt : K → K) (f : FlowEstimator K) : K := sqrt (max f.sq.value 0)

/-- `z`: the signed flow in units of its root mean square. -/
def z (sqrt : K → K) (f : FlowEstimator K) : K :=
  if 1 / 10 ^ 9 < f.rms sqrt then f.signed.value / f.rms sqrt else 0

end FlowEstimator

/-- `compute_fair_value` over an ordered field. -/
def fairValueIn (microprice flowZ tick weight : K) : K :=
  let fv := microprice + weight * flowZ * tick
  min (max fv tick) (1 - tick)

/-! ### Volatility -/

/-- `VolEstimator`. -/
structure VolEstimator (K : Type*) [Field K] [LinearOrder K] where
  short : Ewma K
  long : Ewma K
  lastFv : Option K := none
  lastTs : K := 0

/-- `update`: the squared change since the last fair value enters both horizons. -/
def VolEstimator.update (v : VolEstimator K) (fv ts : K) : VolEstimator K :=
  match v.lastFv with
  | none => { v with lastFv := some fv, lastTs := ts }
  | some last =>
    let r := fv - last
    { short := v.short.update (r * r) ts
      long := v.long.update (r * r) ts
      lastFv := some fv
      lastTs := ts }

/-! ### Markout -/

/-- One resolved markout observation. -/
structure MarkoutSample (K : Type*) where
  tokenId : TokenId
  side : Side
  fillFv : K
  endFv : K
  markout : K
  horizonS : K
  fillTs : K
  resolvedTs : K
  deriving DecidableEq

/-- A fill that waits for its horizon. -/
structure PendingMarkout (K : Type*) where
  fvAtFill : K
  side : Side
  dueTs : K
  tokenId : TokenId
  fillTs : K
  deriving DecidableEq

/-- `MarkoutTracker`.  The bound on the samples is `max(0, max_samples)`. -/
structure MarkoutTracker (K : Type*) [Field K] [LinearOrder K] where
  horizonS : K
  maxSamples : ℕ
  markout : Ewma K
  pending : List (PendingMarkout K) := []
  samples : List (MarkoutSample K) := []

namespace MarkoutTracker

/-- `record_fill`. -/
def recordFill (t : MarkoutTracker K) (side : Side) (tokenFvAtFill ts : K) (tok : TokenId) :
    MarkoutTracker K :=
  { t with pending := t.pending ++ [⟨tokenFvAtFill, side, ts + t.horizonS, tok, ts⟩] }

/-- A move of the fair value, signed so that a gain is positive. -/
def signedMove (side : Side) (move : K) : K :=
  match side with
  | .buy => move
  | .sell => -move

/-- The sample a pending fill resolves to at time `ts`, when its token is worth `fvNow`. -/
def sample (t : MarkoutTracker K) (p : PendingMarkout K) (fvNow ts : K) : MarkoutSample K :=
  { tokenId := p.tokenId
    side := p.side
    fillFv := p.fvAtFill
    endFv := fvNow
    markout := signedMove p.side (fvNow - p.fvAtFill)
    horizonS := t.horizonS
    fillTs := p.fillTs
    resolvedTs := ts }

/-- The mark of a pending fill: in the space of its token, where it has one and the conversion is
known. -/
def fvNow (space : Option (K → TokenId → K)) (yesFvNow : K) (p : PendingMarkout K) : K :=
  match space with
  | some toSpace => if p.tokenId ≠ "" then toSpace yesFvNow p.tokenId else yesFvNow
  | none => yesFvNow

/-- A due fill is resolved: its markout enters the mean, and its sample the recent ones, of which
the bound keeps the newest. -/
def resolve (t : MarkoutTracker K) (s : MarkoutSample K) :
    MarkoutTracker K × List (MarkoutSample K) :=
  let t := { t with markout := t.markout.update s.markout s.resolvedTs }
  if t.maxSamples = 0 then (t, [])
  else
    let samples := t.samples ++ [s]
    ({ t with samples := samples.drop (samples.length - t.maxSamples) }, [s])

/-- `evaluate`: the fills whose horizon has elapsed are resolved in the order they were recorded.
What `on_resolved` is called with is returned. -/
def evaluate (t : MarkoutTracker K) (yesFvNow ts : K) (space : Option (K → TokenId → K)) :
    MarkoutTracker K × List (MarkoutSample K) :=
  let out := t.pending.foldl (fun (t, still, reported) p =>
    if ts < p.dueTs then (t, still ++ [p], reported)
    else
      let (t, new) := t.resolve (t.sample p (fvNow space yesFvNow p) ts)
      (t, still, reported ++ new)) (t, ([], []))
  ({ out.1 with pending := out.2.1 }, out.2.2)

end MarkoutTracker

/-! ### What the tracker does with its queue -/

namespace MarkoutTracker

theorem resolve_horizonS (t : MarkoutTracker K) (s : MarkoutSample K) :
    (t.resolve s).1.horizonS = t.horizonS ∧ (t.resolve s).1.maxSamples = t.maxSamples := by
  unfold resolve
  dsimp only
  split_ifs <;> exact ⟨rfl, rfl⟩

theorem resolve_reported (t : MarkoutTracker K) (s : MarkoutSample K) :
    (t.resolve s).2 = if t.maxSamples = 0 then [] else [s] := by
  unfold resolve
  dsimp only
  split_ifs <;> rfl

/-- One entry of the queue, in the loop of `evaluate`. -/
def evaluateStep (yesFvNow ts : K) (space : Option (K → TokenId → K)) :
    MarkoutTracker K × List (PendingMarkout K) × List (MarkoutSample K) → PendingMarkout K →
      MarkoutTracker K × List (PendingMarkout K) × List (MarkoutSample K)
  | (t, still, reported), p =>
    if ts < p.dueTs then (t, still ++ [p], reported)
    else
      let (t, new) := t.resolve (t.sample p (fvNow space yesFvNow p) ts)
      (t, still, reported ++ new)

section Step

variable {yesFvNow ts : K} {space : Option (K → TokenId → K)} {p : PendingMarkout K}
  (a : MarkoutTracker K) (still : List (PendingMarkout K)) (reported : List (MarkoutSample K))

theorem evaluateStep_waits (hdue : ts < p.dueTs) :
    evaluateStep yesFvNow ts space (a, still, reported) p = (a, still ++ [p], reported) :=
  if_pos hdue

theorem evaluateStep_due (hdue : ¬ ts < p.dueTs) :
    evaluateStep yesFvNow ts space (a, still, reported) p =
      let s := a.sample p (fvNow space yesFvNow p) ts
      ((a.resolve s).1, still, reported ++ (a.resolve s).2) :=
  if_neg hdue

/-- A sample depends on the horizon of the tracker alone. -/
theorem sample_congr {a t : MarkoutTracker K} (h : a.horizonS = t.horizonS) (p : PendingMarkout K)
    (fv ts : K) : a.sample p fv ts = t.sample p fv ts := by
  unfold sample
  rw [h]

end Step

/-- The samples that the due entries of a queue resolve to. -/
def dueSamples (t : MarkoutTracker K) (yesFvNow ts : K) (space : Option (K → TokenId → K))
    (l : List (PendingMarkout K)) : List (MarkoutSample K) :=
  if t.maxSamples = 0 then []
  else
    (l.filter fun p => decide (p.dueTs ≤ ts)).map fun p => t.sample p (fvNow space yesFvNow p) ts

theorem dueSamples_cons (t : MarkoutTracker K) (yesFvNow ts : K)
    (space : Option (K → TokenId → K)) (p : PendingMarkout K) (l : List (PendingMarkout K)) :
    t.dueSamples yesFvNow ts space (p :: l) =
      (if ts < p.dueTs ∨ t.maxSamples = 0 then []
        else [t.sample p (fvNow space yesFvNow p) ts]) ++ t.dueSamples yesFvNow ts space l := by
  unfold dueSamples
  by_cases hmax : t.maxSamples = 0
  · simp [hmax]
  · by_cases hdue : ts < p.dueTs
    · simp [hmax, hdue]
    · simp [hmax, hdue, not_lt.1 hdue]

theorem foldl_evaluateStep (t : MarkoutTracker K) (yesFvNow ts : K)
    (space : Option (K → TokenId → K)) (l : List (PendingMarkout K)) :
    ∀ (a : MarkoutTracker K) (still : List (PendingMarkout K)) (reported : List (MarkoutSample K)),
      a.horizonS = t.horizonS → a.maxSamples = t.maxSamples →
      ∃ b : MarkoutTracker K, b.horizonS = t.horizonS ∧ b.maxSamples = t.maxSamples ∧
        l.foldl (evaluateStep yesFvNow ts space) (a, still, reported) =
          (b, still ++ l.filter (fun p => decide (ts < p.dueTs)),
            reported ++ t.dueSamples yesFvNow ts space l) := by
  induction l with
  | nil =>
    intro a still reported hh hm
    refine ⟨a, hh, hm, ?_⟩
    simp [dueSamples]
  | cons p l ih =>
    intro a still reported hh hm
    rw [List.foldl_cons, dueSamples_cons, List.filter_cons]
    by_cases hdue : ts < p.dueTs
    · obtain ⟨b, hbh, hbm, hfold⟩ := ih a (still ++ [p]) reported hh hm
      refine ⟨b, hbh, hbm, ?_⟩
      rw [evaluateStep_waits a still reported hdue, hfold]
      simp [hdue]
    · have hstep := @evaluateStep_due _ _ _ yesFvNow ts space p a still reported hdue
      rw [sample_congr hh] at hstep
      set s := t.sample p (fvNow space yesFvNow p) ts
      obtain ⟨b, hbh, hbm, hfold⟩ := ih (a.resolve s).1 still (reported ++ (a.resolve s).2)
        ((resolve_horizonS a s).1.trans hh) ((resolve_horizonS a s).2.trans hm)
      refine ⟨b, hbh, hbm, ?_⟩
      rw [hstep, hfold, resolve_reported, hm]
      simp [hdue]

/-- What `evaluate` does: the due entries are reported in their order, and the others wait on. -/
theorem evaluate_spec (t : MarkoutTracker K) (yesFvNow ts : K) (space : Option (K → TokenId → K)) :
    (t.evaluate yesFvNow ts space).1.pending = t.pending.filter (fun p => decide (ts < p.dueTs)) ∧
      (t.evaluate yesFvNow ts space).1.horizonS = t.horizonS ∧
      (t.evaluate yesFvNow ts space).1.maxSamples = t.maxSamples ∧
      (t.evaluate yesFvNow ts space).2 = t.dueSamples yesFvNow ts space t.pending := by
  obtain ⟨b, hbh, hbm, hfold⟩ := foldl_evaluateStep t yesFvNow ts space t.pending t [] [] rfl rfl
  have heval : t.evaluate yesFvNow ts space =
      let out := t.pending.foldl (evaluateStep yesFvNow ts space) (t, [], [])
      ({ out.1 with pending := out.2.1 }, out.2.2) := rfl
  rw [heval, hfold]
  exact ⟨rfl, hbh, hbm, rfl⟩

end MarkoutTracker

/-! ### One market -/

/-- `MarketEstimators`. -/
structure MarketEstimators (K : Type*) [Field K] [LinearOrder K] where
  vol : VolEstimator K
  flow : FlowEstimator K
  markout : MarkoutTracker K
  lastFv : Option K := none
  lastFvTs : K := 0

/-- `on_fair_value`; pending markouts are resolved only where the conversion into their space is
known.  What `on_markout` is called with is returned. -/
def MarketEstimators.onFairValue (est : MarketEstimators K) (fv ts : K)
    (yesTokenId : Option TokenId) (space : Option (K → TokenId → K)) :
    MarketEstimators K × List (MarkoutSample K) :=
  let out :=
    if space.isSome ∧ yesTokenId.isSome then est.markout.evaluate fv ts space
    else (est.markout, [])
  ({ est with
      vol := est.vol.update fv ts
      markout := out.1
      lastFv := some fv
      lastFvTs := ts }, out.2)

end Polymaker
