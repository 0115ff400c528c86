import Mathlib.Algebra.BigOperators.Group.List.Basic
import Polymaker.Config
import Polymaker.State.Store

/-!
# The risk manager

`RiskManager` of `risk/manager.py`: the ledger of cash and marks behind the daily loss, the
error-rate breaker, and the pre-trade gate.

* `noteFill`, `updateMark`, `reconcileCash`, `resetDay`: the ledger;
* `noteOrderResult`, `errorRate`: the breaker over a rolling window;
* `globalHalt`, `evaluate`: the verdicts.

The store is an argument of every function that reads it, and so is the time of every function that
reads the clock.  A reason is a value of an enumeration, with the number the source formats into it.
-/

namespace Polymaker

/-- The manager's own state. -/
structure RiskManager where
  cfg : RiskConfig
  marks : Dict TokenId ℚ
  netCash : ℚ
  dayStartEquity : ℚ
  killed : Bool
  cashAdjustments : ℚ
  recentOrderResults : List (ℚ × Bool)
  deriving DecidableEq

/-- Length of the error window, in seconds. -/
def errorWindowS : ℚ := 300

namespace RiskManager

/-- `__init__`. -/
def new (cfg : RiskConfig) : RiskManager :=
  { cfg
    marks := Dict.empty
    netCash := 0
    dayStartEquity := 0
    killed := false
    cashAdjustments := 0
    recentOrderResults := [] }

/-! ### The ledger -/

/-- `note_fill`. -/
def noteFill (r : RiskManager) (f : Fill) : RiskManager := { r with netCash := r.netCash + f.cash }

/-- `update_mark`. -/
def updateMark (r : RiskManager) (tok : TokenId) (fv : ℚ) : RiskManager :=
  { r with marks := r.marks.set tok fv }

/-- `reconcile_cash`: the drift, zero below one cent, and the ledger snapped to the exchange. -/
def reconcileCash (r : RiskManager) (exchangeCash : ℚ) : RiskManager × ℚ :=
  let delta := exchangeCash - r.netCash
  if |delta| < 1 / 100 then (r, 0)
  else
    ({ r with netCash := exchangeCash, cashAdjustments := r.cashAdjustments + delta }, delta)

/-- `_inventory_value`: held positions at their marks, or at cost when they have none. -/
def inventoryValue (r : RiskManager) (s : StateStore) : ℚ :=
  (s.positions.entries.map fun e =>
    if 0 < e.2.size then e.2.size * r.marks.getD e.1 e.2.avgPrice else 0).sum

/-- `equity`. -/
def equity (r : RiskManager) (s : StateStore) : ℚ := r.netCash + r.inventoryValue s

/-- `daily_pnl`. -/
def dailyPnl (r : RiskManager) (s : StateStore) : ℚ := r.equity s - r.dayStartEquity

/-- `reset_day`. -/
def resetDay (r : RiskManager) (s : StateStore) : RiskManager :=
  { r with dayStartEquity := r.equity s }

/-! ### The error-rate breaker -/

/-- `_prune`: drop the results older than the window, when the oldest one is. -/
def prune (r : RiskManager) (now : ℚ) : RiskManager :=
  let cutoff := now - errorWindowS
  match r.recentOrderResults with
  | [] => r
  | (t, _) :: _ =>
    if t < cutoff then
      { r with recentOrderResults := r.recentOrderResults.filter fun x => decide (cutoff ≤ x.1) }
    else r

/-- `note_order_result`. -/
def noteOrderResult (r : RiskManager) (ok : Bool) (now : ℚ) : RiskManager :=
  { r with recentOrderResults := r.recentOrderResults ++ [(now, ok)] }.prune now

/-- The failure fraction of the results kept, zero below twenty of them. -/
def failureFraction (r : RiskManager) : ℚ :=
  let n := r.recentOrderResults.length
  if n < 20 then 0 else (r.recentOrderResults.countP fun x => !x.2) / n

/-- `error_rate`: prune, and then the failure fraction. -/
def errorRate (r : RiskManager) (now : ℚ) : RiskManager × ℚ :=
  (r.prune now, (r.prune now).failureFraction)

/-! ### The kill switch -/

/-- Why everything is halted. -/
inductive HaltReason
  | manualKill
  | dailyLoss (pnl : ℚ)
  | errorRate (rate : ℚ)
  deriving DecidableEq, Repr

/-- The daily loss has reached its limit. -/
def DailyLossHit (r : RiskManager) (s : StateStore) : Prop := r.dailyPnl s ≤ -r.cfg.dailyLossKillUsdc

instance (r : RiskManager) (s : StateStore) : Decidable (r.DailyLossHit s) :=
  inferInstanceAs (Decidable (_ ≤ _))

/-- `global_halt`. -/
def globalHalt (r : RiskManager) (s : StateStore) (now : ℚ) : RiskManager × Option HaltReason :=
  if r.killed then (r, some .manualKill)
  else if r.DailyLossHit s then (r, some (.dailyLoss (r.dailyPnl s)))
  else
    match r.errorRate now with
    | (r', rate) =>
      if r.cfg.maxOrderErrorRate ≤ rate then (r', some (.errorRate rate)) else (r', none)

/-- `kill`. -/
def kill (r : RiskManager) : RiskManager := { r with killed := true }

/-! ### The pre-trade gate -/

/-- The `reason` of a decision. -/
inductive DecisionReason
  | clear
  | halted (why : HaltReason)
  | wsStale
  | marketCap
  | eventGroupCap
  | totalExposureCap
  deriving DecidableEq, Repr

/-- The gate's decision for one market. -/
structure RiskDecision where
  halt : Bool
  reduceOnly : Bool
  sizeScale : ℚ
  reason : DecisionReason
  deriving DecidableEq, Repr

/-- The mark of a token, at its average price when it has none, and one half without either. -/
def markOr (r : RiskManager) (tok : TokenId) (pos : Position) : ℚ :=
  r.marks.getD tok (if pos.avgPrice = 0 then 1 / 2 else pos.avgPrice)

/-- `_market_notional`: only the imbalance of a pair carries directional risk. -/
def marketNotional (r : RiskManager) (s : StateStore) (m : MarketMeta) : ℚ :=
  let yes := s.position m.yes
  let no := s.position m.no
  let balanced := min yes.size no.size
  max 0 (yes.size - balanced) * r.markOr m.yes yes
    + max 0 (no.size - balanced) * r.markOr m.no no

/-- `_total_exposure`. -/
def totalExposure (r : RiskManager) (s : StateStore) : ℚ :=
  (s.positions.entries.map fun e =>
    if 0 < e.2.size then e.2.size * r.markOr e.1 e.2 else 0).sum

/-- `_headroom`: one well below the cap, tapering to zero from 70 % of it. -/
def headroom (current cap : ℚ) : ℚ :=
  if cap ≤ 0 then 1
  else
    let frac := current / cap
    if frac ≤ 7 / 10 then 1 else max 0 ((1 - frac) / (3 / 10))

/-- `evaluate`. -/
def evaluate (r : RiskManager) (s : StateStore) (m : MarketMeta) (wsStale : Bool)
    (eventGroupCost restingBuyNotional : ℚ) (globalRestingBuyNotional : Option ℚ) (now : ℚ) :
    RiskManager × RiskDecision :=
  match r.globalHalt s now with
  | (r, some why) => (r, ⟨true, false, 0, .halted why⟩)
  | (r, none) =>
    if wsStale then (r, ⟨true, false, 0, .wsStale⟩)
    else
      let resting := max 0 restingBuyNotional
      let globalResting := match globalRestingBuyNotional with
        | none => resting
        | some x => max 0 x
      let filledMarket := r.marketNotional s m
      let filledTotal := r.totalExposure s
      if r.cfg.maxMarketNotionalUsdc ≤ filledMarket + resting then
        (r, ⟨false, true, 1, .marketCap⟩)
      else if r.cfg.maxEventGroupLossUsdc ≤ eventGroupCost then
        (r, ⟨false, true, 1, .eventGroupCap⟩)
      else if r.cfg.maxTotalExposureUsdc ≤ filledTotal + globalResting then
        (r, ⟨false, true, 1, .totalExposureCap⟩)
      else
        let scale := min (headroom filledMarket r.cfg.maxMarketNotionalUsdc)
          (min (headroom filledTotal r.cfg.maxTotalExposureUsdc)
            (headroom eventGroupCost r.cfg.maxEventGroupLossUsdc))
        (r, ⟨false, false, scale, .clear⟩)

/-- `resting_buy_notional`: the notional of the resting BUY orders on a set of tokens. -/
def restingBuyNotional (orders : List OpenOrder) (tokens : List TokenId) : ℚ :=
  ((orders.filter fun o => decide (o.side = .buy ∧ o.tokenId ∈ tokens)).map fun o =>
    o.price * o.size).sum

end RiskManager

end Polymaker
