import Polymaker.Lib.Dict
import Polymaker.Lib.DictSum
import Polymaker.Lib.Mirror
import Polymaker.Lib.Run
import Polymaker.Lib.FirstUse
import Polymaker.Lib.FirstFit
import Polymaker.Lib.Matching
import Polymaker.Lib.Rounding
import Polymaker.Lib.Blend
import Polymaker.Lib.Json
import Polymaker.Lib.HostFloat
import Polymaker.Lib.Payload
import Polymaker.Lib.Raising
import Polymaker.Lib.Reading
import Polymaker.Lib.Paging
import Polymaker.Lib.Window
import Polymaker.Lib.Hex
import Polymaker.Lib.SortedDict
import Polymaker.Lib.Keyed
import Polymaker.Lib.Signal
import Polymaker.Lib.SingleFlight
import Polymaker.Lib.Latch
import Polymaker.Lib.Executor
import Polymaker.Lib.Supervision
import Polymaker.Lib.Ranking
import Polymaker.Lib.Cursor
import Polymaker.Domain
import Polymaker.Config
import Polymaker.State.Store
import Polymaker.State.Orders
import Polymaker.State.Tracker
import Polymaker.State.Lifecycle
import Polymaker.State.Refinement
import Polymaker.State.ExactlyOnce
import Polymaker.State.Inflight
import Polymaker.State.Crash
import Polymaker.State.Positions
import Polymaker.State.PositionFrame
import Polymaker.State.GuardAge
import Polymaker.State.Restart
import Polymaker.State.RecentFill
import Polymaker.UserStream.Parse
import Polymaker.UserStream.Frames
import Polymaker.MarketData.Wire
import Polymaker.UserStream.Wire
import Polymaker.UserStream.Direction
import Polymaker.MarketData.OrderBook
import Polymaker.MarketData.BookUpdates
import Polymaker.MarketData.Service
import Polymaker.UserStream.Client
import Polymaker.MarketData.Staleness
import Polymaker.MarketData.Depth
import Polymaker.MarketData.SortedBook
import Polymaker.MarketData.Replay
import Polymaker.Risk.Manager
import Polymaker.State.Reversal
import Polymaker.Risk.ErrorRate
import Polymaker.Risk.Ledger
import Polymaker.Risk.Valuation
import Polymaker.Catalog.Store
import Polymaker.Catalog.Gamma
import Polymaker.Catalog.Scoring
import Polymaker.Catalog.Table
import Polymaker.Catalog.Scanner
import Polymaker.Catalog.Select
import Polymaker.Strategy.Regime
import Polymaker.Strategy.CoolOff
import Polymaker.Strategy.Quoting
import Polymaker.Strategy.Estimators
import Polymaker.Strategy.FlowBound
import Polymaker.Strategy.FlowPolling
import Polymaker.Strategy.Simultaneous
import Polymaker.Strategy.MarkoutOnce
import Polymaker.Strategy.Ticks
import Polymaker.Strategy.EntryCost
import Polymaker.Strategy.Legs
import Polymaker.Strategy.TickGrid
import Polymaker.Strategy.Sizing
import Polymaker.Strategy.SideSwap
import Polymaker.Strategy.Skew
import Polymaker.Strategy.BandUse
import Polymaker.Strategy.GridOrders
import Polymaker.Strategy.NetCap
import Polymaker.Strategy.Crossing
import Polymaker.Strategy.MergeEdge
import Polymaker.Strategy.BidEdge
import Polymaker.Strategy.SelfMatch
import Polymaker.Strategy.ExitUrgency
import Polymaker.Execution.Reconciler
import Polymaker.Execution.Choices
import Polymaker.Execution.Churn
import Polymaker.Execution.Oversell
import Polymaker.Execution.Gateway
import Polymaker.Execution.RateLimit
import Polymaker.Execution.Acquire
import Polymaker.Execution.PositionPages
import Polymaker.Execution.ConditionId
import Polymaker.Execution.Merger
import Polymaker.Execution.Retry
import Polymaker.Engine.Streams
import Polymaker.Engine.Snapshot
import Polymaker.Engine.Recompute
import Polymaker.Execution.OpenOrders
import Polymaker.Engine.EndOfLife
import Polymaker.Engine.Wake
import Polymaker.Engine.Custody
import Polymaker.Engine.Frame
import Polymaker.Engine.Success
import Polymaker.Engine.Exposure
import Polymaker.Engine.SecondPass
import Polymaker.Engine.FixedPoint
import Polymaker.Engine.EntryGates
import Polymaker.Engine.Halt
import Polymaker.Engine.Divergence
import Polymaker.Engine.Flow
import Polymaker.Engine.Markout
import Polymaker.Engine.Hedge
import Polymaker.Engine.Live
import Polymaker.Engine.HoldClock
import Polymaker.Engine.Scope
import Polymaker.Engine.GroupCap
import Polymaker.Engine.CostBasis
import Polymaker.Engine.BookRefresh
import Polymaker.Engine.TickSize
import Polymaker.Engine.Repricing
import Polymaker.Engine.MetaRefresh
import Polymaker.Engine.Renaming
import Polymaker.Engine.Accepting
import Polymaker.Engine.Rounds
import Polymaker.Engine.Paper
import Polymaker.Engine.Wakeups
import Polymaker.Engine.Merging
import Polymaker.Engine.MetaHalt
import Polymaker.Engine.Shutdown
import Polymaker.Engine.Heartbeat
import Polymaker.Engine.Supervisor
import Polymaker.Engine.StartUp
import Polymaker.Engine.Sockets
import Polymaker.Engine.Registry
import Polymaker.Engine.DayWindow
import Polymaker.Engine.Awaits
import Polymaker.MoneyDoctor
import Polymaker.Alerts
