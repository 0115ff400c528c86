import Mathlib.Analysis.Real.Sqrt
import Polymaker.Lib.Run
import Polymaker.MarketData.BookUpdates
import Polymaker.Strategy.Estimators
import Polymaker.Strategy.Quoting

/-!
# Flow strength and fair value are bounded

The mean of the signed flow and the mean of its square decay and blend alike, so the square of the
first never exceeds the second, and the strength `z` stays within `[-1, 1]`.  The nudge of the fair
value by the flow is then at most half a tick.

* `FlowOp`, `FlowEstimator.step`: prints and decays as events;
* `Bounded`, `bounded_run`: the invariant of every run;
* `abs_z_le_one`: the strength;
* `fairValueIn_between`: the fair value against the best prices;
* `flow_and_fairValue_bounded`: both, for every run and every book.
-/

namespace Polymaker

variable {K : Type*} [Field K] [LinearOrder K]

/-- A print, or a decay. -/
inductive FlowOp (K : Type*)
  | update (aggressor : Side) (size ts flowScale : K)
  | decayTo (ts : K)

namespace FlowEstimator

/-- One event. -/
def step (f : FlowEstimator K) : FlowOp K → FlowEstimator K
  | .update aggressor size ts flowScale => f.update aggressor size ts flowScale
  | .decayTo ts => f.decayTo ts

/-- The two means share decay and clock, and the square of the first is at most the second. -/
structure Bounded (f : FlowEstimator K) : Prop where
  decay : f.sq.decay = f.signed.decay
  lastTs : f.sq.lastTs = f.signed.lastTs
  initialized : f.sq.initialized = f.signed.initialized
  sq_le : f.signed.value ^ 2 ≤ f.sq.value

end FlowEstimator

/-! ### The invariant -/

namespace FlowEstimator

theorem bounded_new (d : Decay K) : (new d).Bounded :=
  ⟨rfl, rfl, rfl, by simp [new]⟩

section Steps

variable [IsStrictOrderedRing K] {f : FlowEstimator K}

theorem Bounded.update (h : f.Bounded) (aggressor : Side) (size ts flowScale : K) :
    (f.update aggressor size ts flowScale).Bounded := by
  unfold FlowEstimator.update
  generalize signedFlow aggressor size flowScale = x
  dsimp only
  cases hinit : f.signed.initialized with
  | false =>
    rw [Ewma.update_first hinit, Ewma.update_first (h.initialized.trans hinit)]
    exact ⟨h.decay, rfl, rfl, (pow_two x).le⟩
  | true =>
    have hinit' := h.initialized.trans hinit
    rcases lt_or_ge ts f.signed.lastTs with hts | hts
    · rw [Ewma.update_stale hinit hts, Ewma.update_stale hinit' (h.lastTs ▸ hts)]
      exact ⟨h.decay, h.lastTs, h.initialized, h.sq_le⟩
    · rw [Ewma.update_fresh hinit hts, Ewma.update_fresh hinit' (h.lastTs ▸ hts)]
      refine ⟨h.decay, rfl, h.initialized, ?_⟩
      show blend _ f.signed.value x ^ 2 ≤ blend (f.sq.decay.share (ts - f.sq.lastTs)) _ (x * x)
      rw [h.decay, h.lastTs]
      have hdt := sub_nonneg.2 hts
      exact sq_blend_le (f.signed.decay.nonneg hdt) (f.signed.decay.le_one hdt) h.sq_le

theorem Bounded.decayTo (h : f.Bounded) (ts : K) : (f.decayTo ts).Bounded := by
  unfold FlowEstimator.decayTo
  cases hinit : f.signed.initialized with
  | false =>
    rw [Ewma.decayTo_first hinit, Ewma.decayTo_first (h.initialized.trans hinit)]
    exact h
  | true =>
    rcases lt_or_ge f.signed.lastTs ts with hts | hts
    · have hts' : f.sq.lastTs < ts := h.lastTs ▸ hts
      rw [Ewma.decayTo_ahead hinit hts, Ewma.decayTo_ahead (h.initialized.trans hinit) hts']
      refine ⟨h.decay, rfl, h.initialized, ?_⟩
      show (f.signed.value * _) ^ 2 ≤ f.sq.value * f.sq.decay.share (ts - f.sq.lastTs)
      rw [h.decay, h.lastTs, mul_comm f.signed.value, mul_comm f.sq.value]
      have hdt := (sub_pos.2 hts).le
      exact sq_decay_le (f.signed.decay.nonneg hdt) (f.signed.decay.le_one hdt) h.sq_le
    · rw [Ewma.decayTo_behind hts, Ewma.decayTo_behind (h.lastTs.symm ▸ hts)]
      exact h

theorem Bounded.step (h : f.Bounded) (op : FlowOp K) : (f.step op).Bounded := by
  cases op with
  | update aggressor size ts flowScale => exact h.update aggressor size ts flowScale
  | decayTo ts => exact h.decayTo ts

/-- In every run the square of the signed flow is at most the mean square. -/
theorem bounded_run (d : Decay K) (ops : List (FlowOp K)) :
    (Run.run step (new d) ops).Bounded :=
  (Run.always_of_step (P := Bounded) (fun _ op h => h.step op) (bounded_new d) ops).last

end Steps

/-! ### The strength -/

theorem Bounded.abs_z_le_one {f : FlowEstimator ℝ} (h : f.Bounded) : |f.z Real.sqrt| ≤ 1 := by
  unfold z
  split_ifs with hrms
  · have hpos : 0 < f.rms Real.sqrt := lt_trans (by norm_num) hrms
    have hroot : |f.signed.value| ≤ f.rms Real.sqrt := by
      rw [← Real.sqrt_sq_eq_abs]
      exact Real.sqrt_le_sqrt (h.sq_le.trans (le_max_left _ _))
    rw [abs_div, abs_of_pos hpos, div_le_one hpos]
    exact hroot
  · rw [abs_zero]
    exact zero_le_one

end FlowEstimator

/-! ### The fair value -/

/-- The quoter's fair value is the one over the reals. -/
theorem computeFairValue_cast (microprice flowZ tick weight : ℚ) :
    ((computeFairValue microprice flowZ tick weight : ℚ) : ℝ) =
      fairValueIn (microprice : ℝ) flowZ tick weight := by
  unfold computeFairValue fairValueIn
  push_cast
  rfl

/-- A strength of at most one nudges the fair value by at most half a tick. -/
theorem fairValueIn_between {bid ask micro z tick : ℝ} (hz : |z| ≤ 1) (hlo : bid ≤ micro)
    (hhi : micro ≤ ask) (hbid : tick ≤ bid) (hask : ask ≤ 1 - tick) :
    bid - |tick| / 2 ≤ fairValueIn micro z tick (1 / 2) ∧
      fairValueIn micro z tick (1 / 2) ≤ ask + |tick| / 2 := by
  have hnudge : |1 / 2 * z * tick| ≤ |tick| / 2 := by
    rw [abs_mul, abs_mul, abs_of_pos (by norm_num : (0 : ℝ) < 1 / 2)]
    have hmul := mul_le_mul_of_nonneg_right hz (abs_nonneg tick)
    linarith
  obtain ⟨hdown, hup⟩ := abs_le.1 hnudge
  have htick := abs_nonneg tick
  unfold fairValueIn
  constructor
  · refine le_min (le_max_of_le_left ?_) ?_ <;> linarith
  · refine (min_le_left _ _).trans (max_le ?_ ?_) <;> linarith

/-! ### Every run and every book -/

/-- **Flow strength and fair value stay bounded.**  After every run of prints and decays the square
of the signed flow is at most the mean square and the strength is within `[-1, 1]`; so for every
book that updates built, with its best prices apart and inside `[tick, 1 - tick]`, the microprice
lies between the best prices, and the fair value within half a tick of them. -/
theorem flow_and_fairValue_bounded (d : Decay ℝ) (ops : List (FlowOp ℝ)) :
    let f := Run.run FlowEstimator.step (.new d) ops
    f.signed.value ^ 2 ≤ f.sq.value ∧ |f.z Real.sqrt| ≤ 1 ∧
      ∀ (bookTick : ℚ) (bookOps : List BookOp) (bb ba : BookLevel) (tick : ℚ) (levels : ℤ),
        (Run.run LiveBook.step (.new bookTick) bookOps).book.bestBid = some bb →
        (Run.run LiveBook.step (.new bookTick) bookOps).book.bestAsk = some ba →
        bb.price < ba.price → tick ≤ bb.price → ba.price ≤ 1 - tick → 1 ≤ levels →
        ∃ micro,
          (Run.run LiveBook.step (.new bookTick) bookOps).book.microprice levels = some micro ∧
          bb.price ≤ micro ∧ micro ≤ ba.price ∧
          (bb.price : ℝ) - |(tick : ℝ)| / 2 ≤
            fairValueIn (micro : ℝ) (f.z Real.sqrt) tick (flowWeight : ℚ) ∧
          fairValueIn (micro : ℝ) (f.z Real.sqrt) tick (flowWeight : ℚ) ≤
            (ba.price : ℝ) + |(tick : ℝ)| / 2 := by
  intro f
  have hbounded : f.Bounded := FlowEstimator.bounded_run d ops
  refine ⟨hbounded.sq_le, hbounded.abs_z_le_one, ?_⟩
  intro bookTick bookOps bb ba tick levels hbb hba hlt hbid hask hlevels
  obtain ⟨micro, hmicro, hlo, hhi⟩ :=
    microprice_between (positive_run bookTick bookOps) hbb hba hlt.le hlevels
  refine ⟨micro, hmicro, hlo, hhi, ?_⟩
  have hweight : ((flowWeight : ℚ) : ℝ) = 1 / 2 := by norm_num [flowWeight]
  rw [hweight]
  exact fairValueIn_between hbounded.abs_z_le_one (by exact_mod_cast hlo) (by exact_mod_cast hhi)
    (by exact_mod_cast hbid) (by exact_mod_cast hask)

/-- Two purchases, a second apart and decayed since, and a book of one bid and one ask. -/
theorem flow_and_fairValue_bounded_two_prints :
    let f := Run.run FlowEstimator.step (.new (.halfLife 1 one_pos))
      [.update .buy 10 0 1, .update .buy 10 1 1, .decayTo 2]
    let book := (Run.run LiveBook.step (.new (1 / 100))
      [.snapshot [(1 / 2, 10)] [(3 / 5, 10)] 1 none 1]).book
    |f.z Real.sqrt| ≤ 1 ∧
      ∃ micro, book.microprice 3 = some micro ∧ 1 / 2 ≤ micro ∧ micro ≤ 3 / 5 := by
  intro f book
  obtain ⟨-, hz, hbook⟩ := flow_and_fairValue_bounded (.halfLife 1 one_pos)
    [.update .buy 10 0 1, .update .buy 10 1 1, .decayTo 2]
  obtain ⟨micro, hmicro, hlo, hhi, -⟩ := hbook (1 / 100)
    [.snapshot [(1 / 2, 10)] [(3 / 5, 10)] 1 none 1] ⟨1 / 2, 10⟩ ⟨3 / 5, 10⟩ (1 / 100) 3
    (by decide +kernel) (by decide +kernel) (by decide +kernel) (by decide +kernel)
    (by decide +kernel) (by norm_num)
  exact ⟨hz, micro, hmicro, hlo, hhi⟩

end Polymaker
