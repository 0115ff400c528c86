import Mathlib.Data.Rat.Defs

/-!
# Configuration

The settings of `config.py` that the modelled components read, with the defaults of the source.

* `RiskConfig`: caps, loss limit and breaker thresholds;
* `ExecutionConfig`: how orders are sent;
* `StrategyProfile`: the knobs of the quoter, the regime machine and the reconciler.
-/

namespace Polymaker

/-- The `[risk]` settings. -/
structure RiskConfig where
  maxTotalExposureUsdc : ℚ := 5000
  maxEventGroupLossUsdc : ℚ := 1000
  maxMarketNotionalUsdc : ℚ := 800
  dailyLossKillUsdc : ℚ := 250
  maxOrderErrorRate : ℚ := 1 / 4
  deriving DecidableEq, Repr

/-- The `[execution]` settings. -/
structure ExecutionConfig where
  maxOrdersPerBatch : ℤ := 15
  deriving DecidableEq, Repr

/-- One named parameter set of the strategy. -/
structure StrategyProfile where
  microLevels : ℤ := 3
  gamma : ℚ := 1 / 2
  deltaMinTicks : ℤ := 2
  cVol : ℚ := 6 / 5
  cTox : ℚ := 2
  baseSizeUsdc : ℚ := 50
  qMaxUsdc : ℚ := 500
  qSoftFrac : ℚ := 3 / 5
  layers : ℤ := 2
  layerStepTicks : ℤ := 2
  rewardSizeMult : ℚ := 1
  repriceTicks : ℤ := 2
  resizeFrac : ℚ := 3 / 20
  minEdgeTicks : ℤ := 1
  eventCooloffS : ℚ := 60
  eventJumpTicks : ℤ := 8
  trendFlowZ : ℚ := 3 / 5
  trendVolRatio : ℚ := 2
  reduceOnlyHours : ℚ := 24
  haltBeforeHours : ℚ := 2
  exitUrgencyS : ℚ := 900
  deriving DecidableEq, Repr

end Polymaker
