import Polymaker.Lib.Run
import Polymaker.Risk.Manager

/-!
# Daily profit and the cash ledger

The daily profit is meant to be trading profit: the cash of the fills since the day was reset, plus
the change in the value of inventory.  `Ledger` carries that sum beside the manager.

* `Truthful`: the daily profit is the trading profit;
* `reconcileCash_harmless_iff`: a cash snap leaves the daily profit and the daily-loss verdict alone
  exactly when the drift is below the one-cent threshold, that is when it snaps nothing;
* `truthful_iff`: along a run after a reset the daily profit is the trading profit in every state
  if and only if every snap is of that kind.
-/

namespace Polymaker

open RiskManager

/-- The store and the manager, with the trading record since the last reset. -/
structure Ledger where
  store : StateStore
  risk : RiskManager
  fillCash : ℚ
  openingInventory : ℚ

/-- What moves the ledger between two resets. -/
inductive LedgerEvent
  | fill (f : Fill)
  | mark (tok : TokenId) (fv : ℚ)
  | reconcileCash (exchangeCash : ℚ)
  deriving DecidableEq

/-- The ledger just after `reset_day`. -/
def Ledger.reset (s : StateStore) (r : RiskManager) : Ledger :=
  ⟨s, r.resetDay s, 0, r.inventoryValue s⟩

/-- One event: a fill is noted when `apply_fill` lets it through. -/
def Ledger.step (l : Ledger) : LedgerEvent → Ledger
  | .fill f =>
    match l.store.applyFill f with
    | (s, true) => { l with store := s, risk := l.risk.noteFill f, fillCash := l.fillCash + f.cash }
    | (s, false) => { l with store := s }
  | .mark tok fv => { l with risk := l.risk.updateMark tok fv }
  | .reconcileCash x => { l with risk := (l.risk.reconcileCash x).1 }

/-- Cash of the fills since the reset, plus the change in marked inventory value. -/
def Ledger.tradingPnl (l : Ledger) : ℚ :=
  l.fillCash + (l.risk.inventoryValue l.store - l.openingInventory)

/-- The daily profit is the trading profit. -/
def Ledger.Truthful (l : Ledger) : Prop := l.risk.dailyPnl l.store = l.tradingPnl

/-- The drift a snap to `x` finds is below the threshold. -/
def DriftBelowCent (r : RiskManager) (x : ℚ) : Prop := |x - r.netCash| < 1 / 100

/-- The condition of an event: a snap finds no drift worth a cent. -/
def SnapsNothing (l : Ledger) : LedgerEvent → Prop
  | .reconcileCash x => DriftBelowCent l.risk x
  | _ => True

/-! ### One snap -/

theorem reconcileCash_of_drift {r : RiskManager} {x : ℚ} (h : DriftBelowCent r x) :
    r.reconcileCash x = (r, 0) := if_pos h

/-- A snap moves the daily profit by the drift it reports. -/
theorem dailyPnl_reconcileCash (r : RiskManager) (s : StateStore) (x : ℚ) :
    (r.reconcileCash x).1.dailyPnl s = r.dailyPnl s + (r.reconcileCash x).2 := by
  by_cases h : DriftBelowCent r x
  · rw [reconcileCash_of_drift h, add_zero]
  · have hsnap : r.reconcileCash x =
        ({ r with netCash := x, cashAdjustments := r.cashAdjustments + (x - r.netCash) },
          x - r.netCash) := if_neg h
    rw [hsnap]
    simp only [dailyPnl, equity, inventoryValue]
    ring

theorem reconcileCash_drift_eq_zero_iff {r : RiskManager} {x : ℚ} :
    (r.reconcileCash x).2 = 0 ↔ DriftBelowCent r x := by
  constructor
  · intro h
    by_contra hd
    have hsnap : (r.reconcileCash x).2 = x - r.netCash := by
      unfold reconcileCash
      rw [if_neg (show ¬ |x - r.netCash| < 1 / 100 from hd)]
    rw [hsnap] at h
    have h0 : |x - r.netCash| < 1 / 100 := by rw [h, abs_zero]; norm_num
    exact hd h0
  · intro h
    rw [reconcileCash_of_drift h]

/-- A snap leaves the daily profit and the daily-loss verdict exactly when it snaps nothing. -/
theorem reconcileCash_harmless_iff (r : RiskManager) (s : StateStore) (x : ℚ) :
    ((r.reconcileCash x).1.dailyPnl s = r.dailyPnl s ∧
      ((r.reconcileCash x).1.DailyLossHit s ↔ r.DailyLossHit s)) ↔ DriftBelowCent r x := by
  constructor
  · rintro ⟨h, -⟩
    rw [dailyPnl_reconcileCash] at h
    exact reconcileCash_drift_eq_zero_iff.1 (by linarith)
  · intro h
    rw [reconcileCash_of_drift h]
    exact ⟨rfl, Iff.rfl⟩

/-! ### Runs -/

theorem truthful_reset (s : StateStore) (r : RiskManager) : (Ledger.reset s r).Truthful := by
  simp only [Ledger.Truthful, Ledger.tradingPnl, Ledger.reset, dailyPnl, resetDay, equity,
    inventoryValue]
  ring

/-- One event keeps the profit truthful exactly when it snaps nothing. -/
theorem truthful_step {l : Ledger} (h : l.Truthful) (e : LedgerEvent) :
    (l.step e).Truthful ↔ SnapsNothing l e := by
  simp only [Ledger.Truthful, Ledger.tradingPnl, dailyPnl, equity] at h
  cases e with
  | fill f =>
    refine iff_of_true ?_ trivial
    by_cases hnew : f.tradeId ∈ l.store.db.fills
    · have hstep : l.step (.fill f) = l := by
        simp only [Ledger.step, StateStore.applyFill, if_pos hnew]
      rw [hstep]
      exact h
    · have hstep : l.step (.fill f) =
          { l with
            store := l.store.recordFill f
            risk := l.risk.noteFill f
            fillCash := l.fillCash + f.cash } := by
        simp only [Ledger.step, StateStore.applyFill, if_neg hnew]
      rw [hstep]
      simp only [Ledger.Truthful, Ledger.tradingPnl, dailyPnl, equity, noteFill] at h ⊢
      simp only [inventoryValue] at h ⊢
      linarith
  | mark tok fv =>
    refine iff_of_true ?_ trivial
    simp only [Ledger.Truthful, Ledger.tradingPnl, Ledger.step, dailyPnl, equity, updateMark]
    linarith
  | reconcileCash x =>
    have hpnl := dailyPnl_reconcileCash l.risk l.store x
    have hinv : (l.risk.reconcileCash x).1.inventoryValue l.store =
        l.risk.inventoryValue l.store := by
      unfold reconcileCash
      simp only
      split_ifs <;> rfl
    show (l.risk.reconcileCash x).1.dailyPnl l.store =
      l.fillCash + ((l.risk.reconcileCash x).1.inventoryValue l.store - l.openingInventory) ↔
        DriftBelowCent l.risk x
    rw [hpnl, hinv, ← reconcileCash_drift_eq_zero_iff]
    simp only [dailyPnl, equity]
    constructor <;> intro h' <;> linarith

/-- **When cash reconciliation is no trading profit.**  For every state a snap leaves the daily
profit and the daily-loss verdict exactly when the drift is below a cent; and along every run after
a reset the daily profit is the trading profit in every state if and only if every snap of the run
finds such a drift. -/
theorem truthful_iff (r : RiskManager) (s : StateStore) (es : List LedgerEvent) :
    (∀ x : ℚ, ((r.reconcileCash x).1.dailyPnl s = r.dailyPnl s ∧
      ((r.reconcileCash x).1.DailyLossHit s ↔ r.DailyLossHit s)) ↔ DriftBelowCent r x) ∧
    (Run.Always Ledger.step Ledger.Truthful (.reset s r) es ↔
      Run.EachStep Ledger.step SnapsNothing (.reset s r) es) :=
  ⟨reconcileCash_harmless_iff r s,
    Run.always_iff_eachStep (I := fun _ => True) (P := Ledger.Truthful) (fun _ _ _ => trivial)
      (fun _ e _ h => truthful_step h e) trivial (truthful_reset s r)⟩

/-- The first snap of an engine that reset its day on an empty ledger finds a balance of 1000, and
the whole balance becomes profit; after the next reset a withdrawal of 300 becomes a loss past the
limit of 250, and everything is halted. -/
theorem snap_counted_as_pnl :
    let l := Run.run Ledger.step (.reset (.open .fresh) (.new {})) [.reconcileCash 1000]
    let l' := Run.run Ledger.step (.reset l.store l.risk) [.reconcileCash 700]
    l.risk.dailyPnl l.store = 1000 ∧ l.tradingPnl = 0 ∧
      l'.risk.dailyPnl l'.store = -300 ∧ l'.tradingPnl = 0 ∧
      (l'.risk.globalHalt l'.store 0).2 = some (.dailyLoss (-300)) ∧
      ¬ Run.Always Ledger.step Ledger.Truthful (.reset (.open .fresh) (.new {}))
        [.reconcileCash 1000] := by
  intro l l'
  have h : l.risk.dailyPnl l.store = 1000 ∧ l.tradingPnl = 0 := by decide +kernel
  have h' : l'.risk.dailyPnl l'.store = -300 ∧ l'.tradingPnl = 0 ∧
      (l'.risk.globalHalt l'.store 0).2 = some (.dailyLoss (-300)) := by decide +kernel
  refine ⟨h.1, h.2, h'.1, h'.2.1, h'.2.2, fun hall => ?_⟩
  have hlast : l.risk.dailyPnl l.store = l.tradingPnl := hall.last
  rw [h.1, h.2] at hlast
  exact absurd hlast (by norm_num)

end Polymaker
