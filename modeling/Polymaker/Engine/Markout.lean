import Polymaker.Lib.Dict
import Polymaker.Lib.Run
import Polymaker.Strategy.Estimators

/-!
# Markouts

How the engine marks out its fills: `Engine._on_fill` queues a fill with the fair value of its
token, `Engine._recompute_locked` feeds the fair value of the YES token, and `_token_fv` converts it
when the fill is resolved.

* `Registry.tokenFv`: the conversion of the engine;
* `MarketEstimators.onFill`: the part of `_on_fill` that concerns the estimators of the market;
* `worth`: what a token of the market is worth by itself;
* `MarkRun`: the estimators of a market, and beside them the fills they wait for with the worth of
  their tokens, and the samples there should be;
* `relabelStep`: a history, and the same history with the labels YES and NO exchanged;
* `proper_iff`: when a fill is queued and resolved at the worth of its token, and when exchanging
  the labels changes no sample.
-/

namespace Polymaker

/-! ### The engine's side -/

/-- Where a token belongs: `_token_cid` and `metas`. -/
structure Registry where
  tokenCid : Dict TokenId ConditionId
  metas : Dict ConditionId MarketMeta

/-- The market of a token. -/
def Registry.metaOf (d : Registry) (tok : TokenId) : Option MarketMeta :=
  (d.tokenCid.get? tok).bind d.metas.get?

/-- `_token_fv`, called without a market. -/
def Registry.tokenFv (d : Registry) (yesFv : ℚ) (tok : TokenId) : ℚ :=
  match d.metaOf tok with
  | none => yesFv
  | some m => if tok = m.yes then yesFv else 1 - yesFv

/-- What `_on_fill` does to the estimators of the market: a fill that is no reversal is queued for
marking out, at the last fair value or, before the first, at its own price. -/
def MarketEstimators.onFill (est : MarketEstimators ℚ) (m : MarketMeta) (f : Fill) :
    MarketEstimators ℚ :=
  if IsReverse f.tradeId then est
  else
    let fv := est.lastFv.getD f.price
    let tokenFv := if f.tokenId = m.yes then fv else 1 - fv
    { est with markout := est.markout.recordFill f.side tokenFv f.ts f.tokenId }

/-- What a recompute of the market at time `now` does to its markouts. -/
def MarketEstimators.onRecompute (est : MarketEstimators ℚ) (d : Registry) (m : MarketMeta)
    (fv now : ℚ) : MarketEstimators ℚ × List (MarkoutSample ℚ) :=
  est.onFairValue fv now (some m.yes) (some d.tokenFv)

/-! ### What there should be -/

/-- What a token of the market is worth when the YES token is worth `yesFv`. -/
def worth (m : MarketMeta) (yesFv : ℚ) (tok : TokenId) : ℚ :=
  if tok = m.yes then yesFv else 1 - yesFv

/-- What the token of a fill is worth at the fill: the fill price, when that is not known. -/
def worthAtFill (m : MarketMeta) (lastFv : Option ℚ) (f : Fill) : ℚ :=
  match lastFv with
  | none => f.price
  | some fv => worth m fv f.tokenId

/-- A fill that waits for its horizon, with the worth of its token. -/
structure Waiting where
  fill : Fill
  worthThen : ℚ
  deriving DecidableEq

/-- The entry of the tracker's queue for it. -/
def Waiting.entry (w : Waiting) (horizonS : ℚ) : PendingMarkout ℚ :=
  ⟨w.worthThen, w.fill.side, w.fill.ts + horizonS, w.fill.tokenId, w.fill.ts⟩

/-- The sample there should be, when the YES token is worth `yesFv` at time `ts`. -/
def Waiting.sample (w : Waiting) (m : MarketMeta) (horizonS yesFv ts : ℚ) : MarkoutSample ℚ :=
  { tokenId := w.fill.tokenId
    side := w.fill.side
    fillFv := w.worthThen
    endFv := worth m yesFv w.fill.tokenId
    markout := MarkoutTracker.signedMove w.fill.side (worth m yesFv w.fill.tokenId - w.worthThen)
    horizonS
    fillTs := w.fill.ts
    resolvedTs := ts }

/-- The estimators of a market, the fills they wait for, the samples they have reported and those
there should be. -/
structure MarkRun where
  est : MarketEstimators ℚ
  queue : List Waiting
  reported : List (MarkoutSample ℚ)
  proper : List (MarkoutSample ℚ)

/-- A fill, or a recompute with a new fair value. -/
inductive MarkEvent
  | fill (f : Fill)
  | fairValue (fv ts : ℚ)

/-- Estimators that have seen nothing. -/
def MarkRun.start (vol : VolEstimator ℚ) (flow : FlowEstimator ℚ) (horizonS : ℚ) (maxSamples : ℕ)
    (decay : Decay ℚ) : MarkRun :=
  ⟨{ vol, flow, markout := { horizonS, maxSamples, markout := { decay } } }, [], [], []⟩

/-- One event on the market `m`. -/
def MarkRun.step (d : Registry) (m : MarketMeta) (s : MarkRun) : MarkEvent → MarkRun
  | .fill f =>
    { s with
      est := s.est.onFill m f
      queue := s.queue ++ [⟨f, worthAtFill m s.est.lastFv f⟩] }
  | .fairValue fv ts =>
    let out := s.est.onRecompute d m fv ts
    let horizonS := s.est.markout.horizonS
    let due := s.queue.filter fun w => decide (w.fill.ts + horizonS ≤ ts)
    { est := out.1
      queue := s.queue.filter fun w => decide (ts < w.fill.ts + horizonS)
      reported := s.reported ++ out.2
      proper := s.proper ++
        if s.est.markout.maxSamples = 0 then [] else due.map fun w => w.sample m horizonS fv ts }

/-! ### The condition -/

/-- The market of both tokens is the one they lead to; ids are not empty. -/
structure Registers (d : Registry) (m : MarketMeta) : Prop where
  yes : d.metaOf m.yes = some m
  no : d.metaOf m.no = some m
  ne : m.yes ≠ m.no
  no_ne : m.no ≠ ""

/-- A fill on a token of the market that is no reversal. -/
def OnMarket (m : MarketMeta) : MarkEvent → Prop
  | .fill f => f.tokenId ∈ m.tokens ∧ ¬ IsReverse f.tradeId
  | .fairValue _ _ => True

/-- The samples so far are those there should be, the fills that wait do so at the worth of their
tokens, and where that did not move the markout is zero. -/
structure Proper (s : MarkRun) : Prop where
  pending : s.est.markout.pending = s.queue.map fun w => w.entry s.est.markout.horizonS
  reported : s.reported = s.proper
  unmoved : ∀ x ∈ s.reported, x.endFv = x.fillFv → x.markout = 0

/-- A fill of the NO token meets a fair value, or has the price of one half. -/
def NoFillKnown (m : MarketMeta) (s : MarkRun) : MarkEvent → Prop
  | .fill f => s.est.lastFv = none → f.tokenId ≠ m.yes → f.price = 1 / 2
  | .fairValue _ _ => True

section Steps

variable {d : Registry} {m : MarketMeta} {s : MarkRun}

/-- Every fill that waits is on a token of the market. -/
def QueueOnMarket (m : MarketMeta) (s : MarkRun) : Prop := ∀ w ∈ s.queue, w.fill.tokenId ∈ m.tokens

/-- The fair value that `_on_fill` records. -/
def recordedFv (m : MarketMeta) (lastFv : Option ℚ) (f : Fill) : ℚ :=
  worth m (lastFv.getD f.price) f.tokenId

theorem onFill_eq (m : MarketMeta) (est : MarketEstimators ℚ) {f : Fill}
    (hf : ¬ IsReverse f.tradeId) :
    est.onFill m f =
      { est with
        markout := est.markout.recordFill f.side (recordedFv m est.lastFv f) f.ts f.tokenId } :=
  if_neg hf

/-- The recorded value is the worth of the token, but for a NO token without a fair value. -/
theorem recordedFv_eq_iff (lastFv : Option ℚ) (f : Fill) :
    recordedFv m lastFv f = worthAtFill m lastFv f ↔
      (lastFv = none → f.tokenId ≠ m.yes → f.price = 1 / 2) := by
  cases lastFv with
  | some fv => exact iff_of_true rfl fun h => by cases h
  | none =>
    have hrec : recordedFv m none f = worth m f.price f.tokenId := rfl
    have hown : worthAtFill m none f = f.price := rfl
    rw [hrec, hown]
    unfold worth
    split_ifs with hyes
    · exact iff_of_true rfl fun _ hno => absurd hyes hno
    · refine ⟨fun h _ _ => by linarith, fun h => ?_⟩
      rw [h rfl hyes]
      norm_num

/-- The conversion at resolution gives the worth of the token. -/
theorem fvNow_eq_worth (hreg : Registers d m) {p : PendingMarkout ℚ} (hp : p.tokenId ∈ m.tokens)
    (yesFv : ℚ) : MarkoutTracker.fvNow (some d.tokenFv) yesFv p = worth m yesFv p.tokenId := by
  have hconv : ∀ tok ∈ m.tokens, d.tokenFv yesFv tok = worth m yesFv tok := by
    intro tok htok
    unfold Registry.tokenFv worth
    simp only [MarketMeta.tokens, List.mem_cons, List.not_mem_nil, or_false] at htok
    rcases htok with rfl | rfl
    · rw [hreg.yes]
    · rw [hreg.no]
  unfold MarkoutTracker.fvNow
  dsimp only
  split_ifs with hempty
  · exact hconv _ hp
  · -- only the YES token may have the empty id, and it is worth the fair value itself
    have hyes : p.tokenId = m.yes := by
      simp only [MarketMeta.tokens, List.mem_cons, List.not_mem_nil, or_false] at hp
      rcases hp with h | h
      · exact h
      · rw [not_not.1 hempty] at h
        exact absurd h.symm hreg.no_ne
    unfold worth
    rw [if_pos hyes]

/-- What a recompute does to the queue and what it reports. -/
theorem onRecompute_spec (est : MarketEstimators ℚ) (d : Registry) (m : MarketMeta) (fv ts : ℚ) :
    (est.onRecompute d m fv ts).1.lastFv = some fv ∧
      (est.onRecompute d m fv ts).1.markout.pending =
        est.markout.pending.filter (fun p => decide (ts < p.dueTs)) ∧
      (est.onRecompute d m fv ts).1.markout.horizonS = est.markout.horizonS ∧
      (est.onRecompute d m fv ts).1.markout.maxSamples = est.markout.maxSamples ∧
      (est.onRecompute d m fv ts).2 =
        est.markout.dueSamples fv ts (some d.tokenFv) est.markout.pending := by
  have heval : (est.onRecompute d m fv ts).1.markout =
      (est.markout.evaluate fv ts (some d.tokenFv)).1 ∧
      (est.onRecompute d m fv ts).2 = (est.markout.evaluate fv ts (some d.tokenFv)).2 := ⟨rfl, rfl⟩
  obtain ⟨hpending, hhorizon, hmax, hreported⟩ := est.markout.evaluate_spec fv ts (some d.tokenFv)
  rw [heval.1, heval.2]
  exact ⟨rfl, hpending, hhorizon, hmax, hreported⟩

theorem queueOnMarket_step (h : QueueOnMarket m s) {e : MarkEvent} (he : OnMarket m e) :
    QueueOnMarket m (s.step d m e) := by
  cases e with
  | fill f =>
    intro w hw
    rcases List.mem_append.1 hw with hw | hw
    · exact h w hw
    · rw [List.mem_singleton.1 hw]
      exact he.1
  | fairValue fv ts => exact fun w hw => h w (List.mem_filter.1 hw).1

/-- A markout over a fair value that did not move is zero. -/
theorem markout_of_unmoved {t : MarkoutTracker ℚ} {yesFv ts : ℚ} {space : Option (ℚ → TokenId → ℚ)}
    {l : List (PendingMarkout ℚ)} {x : MarkoutSample ℚ} (hx : x ∈ t.dueSamples yesFv ts space l)
    (hsame : x.endFv = x.fillFv) : x.markout = 0 := by
  unfold MarkoutTracker.dueSamples at hx
  split_ifs at hx
  · cases hx
  · obtain ⟨p, -, rfl⟩ := List.mem_map.1 hx
    have hmove : MarkoutTracker.fvNow space yesFv p - p.fvAtFill = 0 := sub_eq_zero.2 hsame
    show MarkoutTracker.signedMove p.side _ = 0
    rw [hmove]
    cases p.side <;> simp [MarkoutTracker.signedMove]

/-- A recompute resolves at their worth the fills that wait at their worth. -/
theorem Proper.fairValue (hreg : Registers d m) (hq : QueueOnMarket m s) (hp : Proper s)
    (fv ts : ℚ) : Proper (s.step d m (.fairValue fv ts)) := by
  obtain ⟨-, hpending, hhorizon, -, hreported⟩ := onRecompute_spec s.est d m fv ts
  set h := s.est.markout.horizonS with hh
  have hdue : s.est.markout.dueSamples fv ts (some d.tokenFv) s.est.markout.pending =
      if s.est.markout.maxSamples = 0 then []
      else (s.queue.filter fun w => decide (w.fill.ts + h ≤ ts)).map
        fun w => w.sample m h fv ts := by
    unfold MarkoutTracker.dueSamples
    rw [hp.pending, List.filter_map, List.map_map]
    congr 1
    refine List.map_congr_left fun w hw => ?_
    have htok : (w.entry h).tokenId ∈ m.tokens := hq w (List.mem_filter.1 hw).1
    show s.est.markout.sample (w.entry h) (MarkoutTracker.fvNow _ fv (w.entry h)) ts = _
    rw [fvNow_eq_worth hreg htok]
    rfl
  refine ⟨?_, ?_, ?_⟩
  · show (s.est.onRecompute d m fv ts).1.markout.pending =
      (s.queue.filter fun w => decide (ts < w.fill.ts + h)).map fun w =>
        w.entry (s.est.onRecompute d m fv ts).1.markout.horizonS
    rw [hpending, hhorizon, hp.pending, List.filter_map]
    rfl
  · show s.reported ++ (s.est.onRecompute d m fv ts).2 = s.proper ++ _
    rw [hreported, hdue, hp.reported]
  · intro x hx hsame
    rcases List.mem_append.1 hx with hx | hx
    · exact hp.unmoved x hx hsame
    · rw [hreported] at hx
      exact markout_of_unmoved hx hsame

/-- An event keeps everything proper exactly when it meets the condition. -/
theorem proper_step_iff (hreg : Registers d m) (hq : QueueOnMarket m s) {e : MarkEvent}
    (he : OnMarket m e) (hp : Proper s) : Proper (s.step d m e) ↔ NoFillKnown m s e := by
  cases e with
  | fairValue fv ts => exact iff_of_true (hp.fairValue hreg hq fv ts) trivial
  | fill f =>
    have hest := onFill_eq m s.est he.2
    have hcond : NoFillKnown m s (.fill f) ↔
        recordedFv m s.est.lastFv f = worthAtFill m s.est.lastFv f := (recordedFv_eq_iff _ f).symm
    have hpending : (s.step d m (.fill f)).est.markout.pending = s.est.markout.pending ++
        [⟨recordedFv m s.est.lastFv f, f.side, f.ts + s.est.markout.horizonS, f.tokenId,
          f.ts⟩] := by
      show (s.est.onFill m f).markout.pending = _
      rw [hest]
      rfl
    have hqueue : (s.step d m (.fill f)).queue.map
        (fun w => w.entry (s.step d m (.fill f)).est.markout.horizonS) =
        s.est.markout.pending ++
          [⟨worthAtFill m s.est.lastFv f, f.side, f.ts + s.est.markout.horizonS, f.tokenId,
            f.ts⟩] := by
      have hhorizon : (s.step d m (.fill f)).est.markout.horizonS = s.est.markout.horizonS := by
        show (s.est.onFill m f).markout.horizonS = _
        rw [hest]
        rfl
      rw [hhorizon, hp.pending]
      exact List.map_append
    rw [hcond]
    constructor
    · intro hnext
      have heq := hnext.pending
      rw [hpending, hqueue] at heq
      have hlast := List.append_cancel_left heq
      exact congrArg PendingMarkout.fvAtFill (List.singleton_inj.1 hlast)
    · intro hrec
      exact ⟨by rw [hpending, hqueue, hrec], hp.reported, hp.unmoved⟩

end Steps

/-! ### Exchanging the labels -/

/-- The market with YES and NO exchanged. -/
def MarketMeta.relabelled (m : MarketMeta) : MarketMeta := { m with yes := m.no, no := m.yes }

/-- The same event in the exchanged labels: the fair value is that of the other token. -/
def MarkEvent.relabelled : MarkEvent → MarkEvent
  | .fill f => .fill f
  | .fairValue fv ts => .fairValue (1 - fv) ts

/-- The history, and the same history in the exchanged labels, side by side. -/
def relabelStep (d d' : Registry) (m : MarketMeta) (s : MarkRun × MarkRun) (e : MarkEvent) :
    MarkRun × MarkRun :=
  (s.1.step d m e, s.2.step d' m.relabelled e.relabelled)

/-- The samples are the same in both labels, and what waits is as well. -/
structure SameSamples (s : MarkRun × MarkRun) : Prop where
  pending : s.2.est.markout.pending = s.1.est.markout.pending
  reported : s.2.reported = s.1.reported

/-- A fill on either token meets a fair value, or has the price of one half. -/
def FillKnown (s : MarkRun × MarkRun) : MarkEvent → Prop
  | .fill f => s.1.est.lastFv = none → f.price = 1 / 2
  | .fairValue _ _ => True

/-- The two histories have the same settings and complementary fair values, and what waits is on
the market. -/
structure SideBySide (m : MarketMeta) (s : MarkRun × MarkRun) : Prop where
  horizonS : s.2.est.markout.horizonS = s.1.est.markout.horizonS
  maxSamples : s.2.est.markout.maxSamples = s.1.est.markout.maxSamples
  lastFv : s.2.est.lastFv = s.1.est.lastFv.map fun fv => 1 - fv
  pending : ∀ p ∈ s.1.est.markout.pending, p.tokenId ∈ m.tokens

section Relabelling

variable {d d' : Registry} {m : MarketMeta} {s : MarkRun × MarkRun}

theorem mem_tokens {tok : TokenId} : tok ∈ m.tokens ↔ tok = m.yes ∨ tok = m.no := by
  simp [MarketMeta.tokens]

/-- A token is worth the same in both labels. -/
theorem worth_relabelled (hne : m.yes ≠ m.no) {tok : TokenId} (htok : tok ∈ m.tokens) (fv : ℚ) :
    worth m.relabelled (1 - fv) tok = worth m fv tok := by
  show (if tok = m.no then 1 - fv else 1 - (1 - fv)) = if tok = m.yes then fv else 1 - fv
  rcases mem_tokens.1 htok with rfl | rfl
  · rw [if_neg hne, if_pos rfl, sub_sub_cancel]
  · rw [if_pos rfl, if_neg hne.symm]

/-- What is recorded for a fill is the same in both labels, but for a fill without a fair value. -/
theorem recordedFv_relabelled_iff (hne : m.yes ≠ m.no) {f : Fill} (hf : f.tokenId ∈ m.tokens)
    (lastFv : Option ℚ) :
    recordedFv m.relabelled (lastFv.map fun fv => 1 - fv) f = recordedFv m lastFv f ↔
      (lastFv = none → f.price = 1 / 2) := by
  cases lastFv with
  | some fv => exact iff_of_true (worth_relabelled hne hf fv) fun h => by cases h
  | none =>
    show worth m.relabelled f.price f.tokenId = worth m f.price f.tokenId ↔ _
    have hflip : worth m.relabelled f.price f.tokenId = 1 - worth m f.price f.tokenId := by
      have hworth := worth_relabelled hne hf (1 - f.price)
      rw [sub_sub_cancel] at hworth
      rw [hworth]
      unfold worth
      split_ifs <;> ring
    rw [hflip]
    unfold worth
    split_ifs
    · exact ⟨fun h _ => by linarith, fun h => by rw [h rfl]; norm_num⟩
    · exact ⟨fun h _ => by linarith, fun h => by rw [h rfl]; norm_num⟩

theorem sideBySide_step (h : SideBySide m s) {e : MarkEvent} (he : OnMarket m e) :
    SideBySide m (relabelStep d d' m s e) := by
  cases e with
  | fill f =>
    have hest := onFill_eq m s.1.est he.2
    have hest' := onFill_eq m.relabelled s.2.est he.2
    unfold relabelStep MarkEvent.relabelled MarkRun.step
    simp only [hest, hest']
    refine ⟨h.horizonS, h.maxSamples, h.lastFv, fun p hp => ?_⟩
    rcases List.mem_append.1 hp with hp | hp
    · exact h.pending p hp
    · rw [List.mem_singleton.1 hp]
      exact he.1
  | fairValue fv ts =>
    obtain ⟨hfv, hpending, hhorizon, hmax, -⟩ := onRecompute_spec s.1.est d m fv ts
    obtain ⟨hfv', -, hhorizon', hmax', -⟩ :=
      onRecompute_spec s.2.est d' m.relabelled (1 - fv) ts
    refine ⟨hhorizon'.trans (h.horizonS.trans hhorizon.symm),
      hmax'.trans (h.maxSamples.trans hmax.symm), ?_, fun p hp => ?_⟩
    · exact hfv'.trans (congrArg (Option.map fun fv => 1 - fv) hfv).symm
    · have hp' : p ∈ (s.1.est.onRecompute d m fv ts).1.markout.pending := hp
      rw [hpending] at hp'
      exact h.pending p (List.mem_filter.1 hp').1

/-- A fill is recorded at the same fair value exactly when the one it finds says the same on both
sides. -/
theorem sameSamples_fill_iff (hne : m.yes ≠ m.no) (hc : SideBySide m s) {f : Fill}
    (he : OnMarket m (.fill f)) (hs : SameSamples s) :
    SameSamples (relabelStep d d' m s (.fill f)) ↔ FillKnown s (.fill f) := by
  have hest := onFill_eq m s.1.est he.2
  have hest' := onFill_eq m.relabelled s.2.est he.2
  have hpending : (relabelStep d d' m s (.fill f)).1.est.markout.pending =
      s.1.est.markout.pending ++ [⟨recordedFv m s.1.est.lastFv f, f.side,
        f.ts + s.1.est.markout.horizonS, f.tokenId, f.ts⟩] := by
    show (s.1.est.onFill m f).markout.pending = _
    rw [hest]
    rfl
  have hpending' : (relabelStep d d' m s (.fill f)).2.est.markout.pending =
      s.1.est.markout.pending ++ [⟨recordedFv m.relabelled s.2.est.lastFv f, f.side,
        f.ts + s.1.est.markout.horizonS, f.tokenId, f.ts⟩] := by
    show (s.2.est.onFill m.relabelled f).markout.pending = _
    rw [hest', ← hs.pending, ← hc.horizonS]
    rfl
  have hcond : FillKnown s (.fill f) ↔
      recordedFv m.relabelled s.2.est.lastFv f = recordedFv m s.1.est.lastFv f := by
    rw [hc.lastFv]
    exact (recordedFv_relabelled_iff hne he.1 s.1.est.lastFv).symm
  rw [hcond]
  constructor
  · intro hnext
    have heq := hnext.pending
    rw [hpending, hpending'] at heq
    exact congrArg PendingMarkout.fvAtFill (List.singleton_inj.1 (List.append_cancel_left heq))
  · intro hrec
    exact ⟨by rw [hpending, hpending', hrec], hs.reported⟩

/-- The fills that are due give the same samples on both sides. -/
theorem dueSamples_relabelled (hreg : Registers d m) (hreg' : Registers d' m.relabelled)
    (hc : SideBySide m s) (hs : SameSamples s) (fv ts : ℚ) :
    s.2.est.markout.dueSamples (1 - fv) ts (some d'.tokenFv) s.2.est.markout.pending =
      s.1.est.markout.dueSamples fv ts (some d.tokenFv) s.1.est.markout.pending := by
  have htokens : m.relabelled.tokens = [m.no, m.yes] := rfl
  unfold MarkoutTracker.dueSamples
  rw [hc.maxSamples, hs.pending]
  congr 1
  refine List.map_congr_left fun p hp => ?_
  have hp' : p.tokenId ∈ m.tokens := hc.pending p (List.mem_filter.1 hp).1
  have hp'' : p.tokenId ∈ m.relabelled.tokens := by
    rw [htokens]
    simpa [mem_tokens, or_comm] using hp'
  rw [fvNow_eq_worth hreg hp', fvNow_eq_worth hreg' hp'', worth_relabelled hreg.ne hp']
  unfold MarkoutTracker.sample
  rw [hc.horizonS]

/-- An event keeps the samples the same exactly when it meets the condition. -/
theorem sameSamples_step_iff (hreg : Registers d m) (hreg' : Registers d' m.relabelled)
    (hc : SideBySide m s) {e : MarkEvent} (he : OnMarket m e) (hs : SameSamples s) :
    SameSamples (relabelStep d d' m s e) ↔ FillKnown s e := by
  cases e with
  | fill f => exact sameSamples_fill_iff hreg.ne hc he hs
  | fairValue fv ts =>
    obtain ⟨-, hpending, -, -, hreported⟩ := onRecompute_spec s.1.est d m fv ts
    obtain ⟨-, hpending', -, -, hreported'⟩ :=
      onRecompute_spec s.2.est d' m.relabelled (1 - fv) ts
    refine iff_of_true ⟨?_, ?_⟩ trivial
    · show (s.2.est.onRecompute d' m.relabelled (1 - fv) ts).1.markout.pending =
        (s.1.est.onRecompute d m fv ts).1.markout.pending
      rw [hpending, hpending', hs.pending]
    · show s.2.reported ++ _ = s.1.reported ++ _
      rw [hreported, hreported', dueSamples_relabelled hreg hreg' hc hs, hs.reported]

end Relabelling

/-! ### When markouts are taken in one space -/

/-- **When markouts are taken in the space of the filled token.**  Along every run of fair values
and fills on a market, every fill is queued and resolved at the worth of its own token, with a
markout of zero where that did not move, if and only if no fill of the NO token comes before the
first fair value, except at the price of one half; and exchanging the labels of the whole history
changes no sample, and nothing that waits, if and only if that holds of the fills of both tokens. -/
theorem proper_iff {d d' : Registry} {m : MarketMeta} (hreg : Registers d m)
    (hreg' : Registers d' m.relabelled) (vol : VolEstimator ℚ) (flow : FlowEstimator ℚ)
    (horizonS : ℚ) (maxSamples : ℕ) (decay : Decay ℚ) (es : List MarkEvent)
    (hes : ∀ e ∈ es, OnMarket m e) :
    let start := MarkRun.start vol flow horizonS maxSamples decay
    (Run.Always (MarkRun.step d m) Proper start es ↔
      Run.EachStep (MarkRun.step d m) (NoFillKnown m) start es) ∧
    (Run.Always (relabelStep d d' m) SameSamples (start, start) es ↔
      Run.EachStep (relabelStep d d' m) FillKnown (start, start) es) := by
  intro start
  constructor
  · refine Run.always_iff_eachStep_of_valid (I := QueueOnMarket m) (V := fun _ e => OnMarket m e)
      (fun _ _ hI hV => queueOnMarket_step hI hV)
      (fun _ _ hI hV hP => proper_step_iff hreg hI hV hP)
      (fun w hw => absurd hw List.not_mem_nil)
      ⟨rfl, rfl, fun x hx => absurd hx List.not_mem_nil⟩ ?_
    exact fun pre e post heq => hes e (by rw [heq]; simp)
  · refine Run.always_iff_eachStep_of_valid (I := SideBySide m) (V := fun _ e => OnMarket m e)
      (fun _ _ hI hV => sideBySide_step hI hV)
      (fun _ _ hI hV hP => sameSamples_step_iff hreg hreg' hI hV hP)
      ⟨rfl, rfl, rfl, fun p hp => absurd hp List.not_mem_nil⟩ ⟨rfl, rfl⟩ ?_
    exact fun pre e post heq => hes e (by rw [heq]; simp)

/-- A binary market. -/
def markedMarket : MarketMeta := ⟨"c", "y", "n", 1 / 100, 5, 0, 0, none, none⟩

/-- The registry of one market. -/
def registryOf (m : MarketMeta) : Registry :=
  ⟨(Dict.empty.set m.yes m.conditionId).set m.no m.conditionId, Dict.empty.set m.conditionId m⟩

theorem registers_registryOf {m : MarketMeta} (hne : m.yes ≠ m.no) (hno : m.no ≠ "") :
    Registers (registryOf m) m := by
  refine ⟨?_, ?_, hne, hno⟩
  · unfold registryOf Registry.metaOf
    simp [hne]
  · unfold registryOf Registry.metaOf
    simp

/-- Half of a mean is kept, whatever the time. -/
def halving : Decay ℚ := ⟨fun _ => 1 / 2, fun _ _ => by norm_num, fun _ _ => by norm_num⟩

/-- The estimators of the market before anything is known. -/
def unmarked : MarkRun :=
  .start ⟨{ decay := halving }, { decay := halving }, none, 0⟩ (.new halving) 300 5000 halving

/-- A fill after the first fair value. -/
theorem proper_iff_fill_after_fair_value :
    Run.Always (MarkRun.step (registryOf markedMarket) markedMarket) Proper unmarked
      [.fairValue (4 / 5) 0, .fill ⟨"n", .buy, 1 / 5, 10, "t", 1, true⟩,
        .fairValue (4 / 5) 301] := by
  refine (proper_iff (registers_registryOf (by decide) (by decide))
    (registers_registryOf (m := markedMarket.relabelled) (by decide) (by decide))
    ⟨{ decay := halving }, { decay := halving }, none, 0⟩ (.new halving) 300 5000 halving
    [.fairValue (4 / 5) 0, .fill ⟨"n", .buy, 1 / 5, 10, "t", 1, true⟩, .fairValue (4 / 5) 301]
    ?_).1.2 ?_
  · simp only [List.forall_mem_cons, List.not_mem_nil, false_implies, implies_true, and_true]
    exact ⟨trivial, ⟨by decide, by decide⟩, trivial⟩
  · simp only [Run.eachStep_cons, Run.eachStep_nil, and_true]
    exact ⟨trivial, fun hnone => absurd hnone (by decide +kernel), trivial⟩

/-- Ten NO shares are bought at 1/5 before the first fair value.  The YES token turns out to be
worth 4/5, so NO has not moved; yet the fill is marked out at 4/5 against 1/5, as a loss of 3/5.  In
the exchanged labels the markout is 0. -/
theorem not_proper_no_fill_first :
    let es : List MarkEvent :=
      [.fill ⟨"n", .buy, 1 / 5, 10, "t", 0, true⟩, .fairValue (4 / 5) 300]
    let s := Run.run (MarkRun.step (registryOf markedMarket) markedMarket) unmarked es
    let s' := Run.run (relabelStep (registryOf markedMarket) (registryOf markedMarket.relabelled)
      markedMarket) (unmarked, unmarked) es
    s.reported.map MarkoutSample.markout = [-3 / 5] ∧ s.proper.map MarkoutSample.markout = [0] ∧
      s'.2.reported.map MarkoutSample.markout = [0] ∧
      ¬ Run.Always (MarkRun.step (registryOf markedMarket) markedMarket) Proper unmarked es ∧
      ¬ Run.Always (relabelStep (registryOf markedMarket) (registryOf markedMarket.relabelled)
        markedMarket) SameSamples (unmarked, unmarked) es := by
  intro es s s'
  have hreported : s.reported.map MarkoutSample.markout = [-3 / 5] := by decide +kernel
  have hproper : s.proper.map MarkoutSample.markout = [0] := by decide +kernel
  have hfirst : s'.1.reported.map MarkoutSample.markout = [-3 / 5] := by decide +kernel
  have hsecond : s'.2.reported.map MarkoutSample.markout = [0] := by decide +kernel
  refine ⟨hreported, hproper, hsecond, fun hall => ?_, fun hall => ?_⟩
  · have hlast : Proper s := hall.last
    rw [hlast.reported, hproper] at hreported
    exact absurd hreported (by decide +kernel)
  · have hlast : SameSamples s' := hall.last
    rw [hlast.reported, hfirst] at hsecond
    exact absurd hsecond (by decide +kernel)

end Polymaker
