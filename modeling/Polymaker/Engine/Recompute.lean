import Polymaker.Execution.Gateway
import Polymaker.Risk.Manager
import Polymaker.State.Orders
import Polymaker.Strategy.Quoting

/-!
# Recomputing a market

`Engine._recompute` of `engine.py`: one market is looked at, its quotes are decided, and the plan is
carried out through the gateway.

* `Market`, `Engine`: the state;
* `Observation`: what one recompute reads besides it; one reading of the clock serves the whole
  recompute;
* `Engine.verdict`, `Engine.decided`: the pure half, from the book to a reconcile plan;
* `Answers`, `Pass`: what the gateway answers, and what comes out, the gateway calls included;
* `pullAllQuotes`, `maybePullOnBadBook`, `refreshTokenOrders`, `quarantine`, `carryOut`: the other
  half;
* `Engine.recompute`;
* `recompute_cases`: what a recompute can do to the local orders, and by which calls.
-/

namespace Polymaker

open RiskManager (RiskDecision)

/-! ### State -/

/-- What the engine keeps for one market. -/
structure Market where
  info : MarketMeta
  profile : StrategyProfile
  regime : RegimeMachine := {}
  lastFv : Option ℚ := none
  sweep : Bool := false
  bookUnusableSince : Option ℚ := none
  halted : Bool := false
  deriving DecidableEq

/-- What a recompute reads and writes of the engine. -/
structure Engine where
  execution : ExecutionConfig
  markets : Dict ConditionId Market
  store : StateStore
  risk : RiskManager
  positionSince : Dict TokenId ℚ

/-- What one recompute reads besides the engine's state: the clock, the two books, the estimators
once they saw the book, and what decides whether the market is blind or the load has to be shed. -/
structure Observation where
  now : ℚ
  yesBook : Option OrderBook
  noBook : Option OrderBook
  flowZ : ℚ
  volShort : ℚ
  volRatio : ℚ
  markout : ℚ
  marketStale : Bool
  userBlind : Bool
  hbBlind : Bool
  paper : Bool
  orderPressure : ℚ

/-- `toxicity` of the markout tracker. -/
def Observation.toxicity (obs : Observation) : ℚ := max 0 (-obs.markout)

/-- Why a book cannot be quoted on. -/
inductive BadBook
  | unusable
  | crossed
  | noMicroprice
  deriving DecidableEq, Repr

/-- The microprice of the YES book, or why there is none. -/
def Market.sight (m : Market) (obs : Observation) : Except BadBook ℚ :=
  match obs.yesBook with
  | none => .error .unusable
  | some book =>
    if book.isEmpty then .error .unusable
    else
      match book.bestBid, book.bestAsk with
      | some bb, some ba =>
        if ba.price ≤ bb.price then .error .crossed
        else
          match book.microprice m.profile.microLevels with
          | some micro => .ok micro
          | none => .error .noMicroprice
      | _, _ => .error .crossed

/-- The fair value of a market, `fv`. -/
def Market.fairValue (m : Market) (obs : Observation) (micro : ℚ) : ℚ :=
  computeFairValue micro obs.flowZ m.info.tickSize flowWeight

/-- `_blind_state`: the market cannot be seen, or is halted by metadata. -/
def Market.blind (m : Market) (obs : Observation) : Bool :=
  obs.marketStale || obs.userBlind || obs.hbBlind || m.halted

/-- `_hours_to_end`; a past end date counts as unknown. -/
def hoursToEnd (endDate : Option ℚ) (now : ℚ) : Option ℚ :=
  endDate.bind fun t =>
    let hrs := (t - now) / 3600
    if 0 < hrs then some hrs else none

/-- What a recompute decides. -/
structure Decision where
  fv : ℚ
  verdict : RiskDecision
  regime : Regime
  targets : TargetQuotes
  plan : ReconcilePlan

namespace Engine

/-- `_event_group_cost`: the cost of the positions of all markets of the event. -/
def eventGroupCost (e : Engine) (m : MarketMeta) : ℚ :=
  match m.eventId with
  | none => 0
  | some ev =>
    if ev = "" then 0
    else
      let group := e.markets.values.filter fun k => decide (k.info.eventId = some ev)
      ((group.flatMap fun k => k.info.tokens).map fun tok =>
        (e.store.position tok).size * (e.store.position tok).avgPrice).sum

/-- The orders of a market as we know them, YES before NO. -/
def ordersOf (e : Engine) (m : MarketMeta) : List OpenOrder :=
  e.store.ordersFor m.yes ++ e.store.ordersFor m.no

/-- `all_tokens`: the tokens of all markets, each once. -/
def allTokens (e : Engine) : List TokenId :=
  (e.markets.values.flatMap fun m => m.info.tokens).dedup

/-- The notional of a market's resting BUY orders. -/
def marketResting (e : Engine) (m : MarketMeta) : ℚ :=
  RiskManager.restingBuyNotional (e.ordersOf m) m.tokens

/-- The notional of the resting BUY orders of all markets. -/
def globalResting (e : Engine) : ℚ :=
  RiskManager.restingBuyNotional (e.allTokens.flatMap e.store.ordersFor) e.allTokens

/-- `RiskManager.evaluate` as a recompute calls it, on the resting notionals given. -/
def gate (e : Engine) (m : Market) (obs : Observation) (resting globalResting : ℚ) :
    RiskManager × RiskDecision :=
  e.risk.evaluate e.store m.info (m.blind obs) (e.eventGroupCost m.info) resting
    (some globalResting) obs.now

/-- The marks of both tokens, from the fair value. -/
def mark (e : Engine) (m : MarketMeta) (fv : ℚ) : Engine :=
  { e with risk := (e.risk.updateMark m.yes fv).updateMark m.no (1 - fv) }

/-- Store a market's own state. -/
def setMarket (e : Engine) (cid : ConditionId) (m : Market) : Engine :=
  { e with markets := e.markets.set cid m }

/-! ### Deciding -/

/-- What the regime machine reads. -/
def regimeInputs (e : Engine) (m : Market) (obs : Observation) (fv : ℚ) (rd : RiskDecision) :
    RegimeInputs :=
  let net := (e.store.position m.info.yes).size - (e.store.position m.info.no).size
  { now := obs.now
    tick := m.info.tickSize
    fv
    prevFv := m.lastFv
    volRatio := obs.volRatio
    flowZ := obs.flowZ
    inventoryUtil := if 0 < m.profile.qMaxUsdc then |net| * fv / m.profile.qMaxUsdc else 0
    hoursToEnd := hoursToEnd m.info.endDate obs.now
    sweepFlagged := m.sweep
    wsStale := m.blind obs
    riskHalt := rd.halt
    riskReduceOnly := rd.reduceOnly }

/-- How long a token was held. -/
def heldS (e : Engine) (tok : TokenId) (now : ℚ) : ℚ := now - e.positionSince.getD tok now

/-- What the quoter reads; a halt or a reduction makes the exits urgent. -/
def quoteInputs (e : Engine) (m : Market) (obs : Observation) (micro fv : ℚ) (rd : RiskDecision)
    (regime : Regime) : QuoteInputs :=
  let forceExit := rd.halt || rd.reduceOnly
  { m := m.info
    regime
    fv
    volShort := obs.volShort
    toxicity := obs.toxicity
    yesView := (obs.yesBook.map fun b => b.view).getD .empty
    noView := (obs.noBook.map fun b => b.view).getD .empty
    posYes := e.store.position m.info.yes
    posNo := e.store.position m.info.no
    profile := m.profile
    now := obs.now
    riskSizeScale := rd.sizeScale
    yesExitUrgency :=
      if forceExit then 1 else exitUrgency (e.heldS m.info.yes obs.now) m.profile.exitUrgencyS
    noExitUrgency :=
      if forceExit then 1 else exitUrgency (e.heldS m.info.no obs.now) m.profile.exitUrgencyS
    midPrice := micro }

/-- The tolerances of a market. -/
def tolerance (m : Market) : Tolerance :=
  ⟨m.info.tickSize, m.profile.repriceTicks, m.profile.resizeFrac⟩

/-- The decision on a market whose microprice is known, given the gate's verdict: the regime, the
targets, and what is left of the market's own state. -/
def decideWith (e : Engine) (m : Market) (obs : Observation) (micro fv : ℚ) (rd : RiskDecision) :
    Market × Decision :=
  let rm := m.regime.decide (e.regimeInputs m obs fv rd) m.profile
  let targets := constructQuotes (e.quoteInputs m obs micro fv rd rm.2)
  ({ m with regime := rm.1, lastFv := some fv, sweep := false, bookUnusableSince := none },
    { fv
      verdict := rd
      regime := rm.2
      targets
      plan := reconcile targets (e.ordersOf m.info) (tolerance m) })

/-- The engine with the marks of the market's fair value. -/
def valued (e : Engine) (m : Market) (obs : Observation) (micro : ℚ) : Engine :=
  e.mark m.info (m.fairValue obs micro)

/-- The gate's verdict on a market, and the manager it leaves. -/
def verdict (e : Engine) (m : Market) (obs : Observation) (micro : ℚ) :
    RiskManager × RiskDecision :=
  (e.valued m obs micro).gate m obs (e.marketResting m.info) e.globalResting

/-- The market's own state after the decision, and the decision. -/
def decision (e : Engine) (m : Market) (obs : Observation) (micro : ℚ) : Market × Decision :=
  (e.valued m obs micro).decideWith m obs micro (m.fairValue obs micro) (e.verdict m obs micro).2

/-- The pure half of a recompute on a usable book: the engine with its marks, error window and
market state brought up to date, and the decision. -/
def decided (e : Engine) (cid : ConditionId) (m : Market) (obs : Observation) (micro : ℚ) :
    Engine × Decision :=
  ({ e.valued m obs micro with risk := (e.verdict m obs micro).1 }.setMarket cid
      (e.decision m obs micro).1,
    (e.decision m obs micro).2)

end Engine

/-! ### Carrying out -/

/-- A call of the gateway. -/
inductive GatewayCall
  | cancel (ids : List OrderId)
  | place (quotes : List Quote)
  | cancelAsset (tok : TokenId)
  | openOrders
  deriving DecidableEq, Repr

/-- What the gateway answers.  The result of `cancel_asset` is read by nobody. -/
structure Answers where
  cancelOk : Bool
  place : PlaceResponse
  openOrders : Option (List OpenOrder)

/-- The pressure from which new quotes are shed. -/
def shedPressure : ℚ := 85 / 100

/-- New quotes are skipped under rate-budget pressure, in calm regimes. -/
def Shed (obs : Observation) (regime : Regime) : Prop :=
  obs.paper = false ∧ shedPressure < obs.orderPressure ∧ (regime = .quiet ∨ regime = .trending)

instance (obs : Observation) (regime : Regime) : Decidable (Shed obs regime) :=
  inferInstanceAs (Decidable (_ ∧ _ ∧ _))

/-- The quotes a decision sends out. -/
def Decision.issued (d : Decision) (obs : Observation) : List Quote :=
  if Shed obs d.regime then [] else d.plan.toPlace

/-- What comes out of a recompute: the engine, the calls made, and the orders `place` returned. -/
structure Pass where
  engine : Engine
  calls : List GatewayCall
  returned : List OpenOrder

/-- `_bad_book_pull_after_s`. -/
def badBookPullAfterS : ℚ := 3

namespace Engine

/-- Change the store alone. -/
def mapStore (e : Engine) (f : StateStore → StateStore) : Engine := { e with store := f e.store }

/-- Drop orders from the local state. -/
def dropOrders (e : Engine) (ids : List OrderId) : Engine :=
  e.mapStore fun s => ids.foldl StateStore.removeOrder s

/-- `_pull_all_quotes`. -/
def pullAllQuotes (e : Engine) (m : MarketMeta) (ans : Answers) : Pass :=
  let ids := (e.ordersOf m).map OpenOrder.orderId
  if ids = [] then ⟨e, [], []⟩
  else if ans.cancelOk then ⟨e.dropOrders ids, [.cancel ids], []⟩
  else ⟨e, [.cancel ids], []⟩

/-- `_halted_or_blind`; the error window is pruned when the breaker is asked. -/
def haltedOrBlind (e : Engine) (m : Market) (obs : Observation) : RiskManager × Bool :=
  if m.blind obs then (e.risk, true)
  else
    match e.risk.globalHalt e.store obs.now with
    | (r, why) => (r, why.isSome)

/-- `_maybe_pull_on_bad_book`: at once under a halt, else once the book was bad for a while. -/
def maybePullOnBadBook (e : Engine) (cid : ConditionId) (m : Market) (obs : Observation)
    (ans : Answers) : Pass :=
  match e.haltedOrBlind m obs with
  | (r, true) =>
    let e := { e with risk := r }
    (e.setMarket cid { m with bookUnusableSince := none }).pullAllQuotes m.info ans
  | (r, false) =>
    let e := { e with risk := r }
    let since := m.bookUnusableSince.getD obs.now
    if badBookPullAfterS ≤ obs.now - since then
      -- the sweep flag is consumed with the quotes
      (e.setMarket cid { m with bookUnusableSince := some since, sweep := false }).pullAllQuotes
        m.info ans
    else ⟨e.setMarket cid { m with bookUnusableSince := some since }, [], []⟩

/-- The quotes are pulled off a bad book: under a halt, or after the grace. -/
def PullsOnBadBook (e : Engine) (m : Market) (obs : Observation) : Prop :=
  (e.haltedOrBlind m obs).2 = true ∨
    badBookPullAfterS ≤ obs.now - m.bookUnusableSince.getD obs.now

instance (e : Engine) (m : Market) (obs : Observation) : Decidable (e.PullsOnBadBook m obs) :=
  inferInstanceAs (Decidable (_ ∨ _))

/-- The orders asked to be cancelled on a bad book. -/
def toPull (e : Engine) (m : Market) (obs : Observation) : List OrderId :=
  if e.PullsOnBadBook m obs then (e.ordersOf m.info).map OpenOrder.orderId else []

/-- On a bad book the market's own state is brought up to date, and then the quotes are pulled or
not. -/
theorem maybePullOnBadBook_eq (e : Engine) (cid : ConditionId) (m : Market) (obs : Observation)
    (ans : Answers) :
    ∃ m', m'.info = m.info ∧ m'.profile = m.profile ∧
      e.maybePullOnBadBook cid m obs ans =
        if e.PullsOnBadBook m obs then
          ({ e with risk := (e.haltedOrBlind m obs).1 }.setMarket cid m').pullAllQuotes m.info ans
        else ⟨{ e with risk := (e.haltedOrBlind m obs).1 }.setMarket cid m', [], []⟩ := by
  let since := m.bookUnusableSince.getD obs.now
  rcases hhalt : e.haltedOrBlind m obs with ⟨r, _ | _⟩
  · by_cases hgrace : badBookPullAfterS ≤ obs.now - m.bookUnusableSince.getD obs.now
    · refine ⟨{ m with bookUnusableSince := some since, sweep := false }, rfl, rfl, ?_⟩
      rw [if_pos (.inr hgrace), maybePullOnBadBook, hhalt]
      exact if_pos hgrace
    · refine ⟨{ m with bookUnusableSince := some since }, rfl, rfl, ?_⟩
      have hnot : ¬ e.PullsOnBadBook m obs := by
        rintro (hhalt' | hgrace')
        · rw [hhalt] at hhalt'; cases hhalt'
        · exact hgrace hgrace'
      rw [if_neg hnot, maybePullOnBadBook, hhalt]
      exact if_neg hgrace
  · refine ⟨{ m with bookUnusableSince := none }, rfl, rfl, ?_⟩
    rw [if_pos (.inl (by rw [hhalt])), maybePullOnBadBook, hhalt]

end Engine

/-- `_refresh_token_orders`: a failed read touches nothing. -/
def refreshTokenOrders (s : StateStore) (m : MarketMeta) (read : Option (List OpenOrder))
    (graceS now : ℚ) : StateStore :=
  match read with
  | none => s
  | some live =>
    m.tokens.foldl (fun s tok =>
      s.replaceOpenOrders tok (live.filter fun o => decide (o.tokenId = tok)) graceS now) s

/-- The local half of the loop of `_quarantine`: the token's orders are dropped. -/
def dropToken (s : StateStore) (tok : TokenId) : StateStore :=
  ((s.ordersFor tok).map OpenOrder.orderId).foldl StateStore.removeOrder s

/-- `_quarantine`, after its calls. -/
def quarantine (s : StateStore) (m : MarketMeta) (read : Option (List OpenOrder)) (now : ℚ) :
    StateStore :=
  refreshTokenOrders (m.tokens.foldl dropToken s) m read 0 now

/-- The calls of `_quarantine`. -/
def quarantineCalls (m : MarketMeta) : List GatewayCall :=
  m.tokens.map .cancelAsset ++ [.openOrders]

namespace Engine

/-- The placement half: what is issued goes out, and an incomplete batch is quarantined. -/
def placeQuotes (e : Engine) (m : Market) (d : Decision) (obs : Observation) (ans : Answers) :
    Pass :=
  if d.issued obs = [] then ⟨e, [], []⟩
  else
    let quotes := d.issued obs
    let placed := place e.execution quotes ans.place obs.now
    let e :=
      { e with
        risk := e.risk.noteOrderResult (placed.length == quotes.length) obs.now
        store := placed.foldl StateStore.upsertOrder e.store }
    if placed.length < quotes.length then
      ⟨e.mapStore fun s => quarantine s m.info ans.openOrders obs.now,
        .place quotes :: quarantineCalls m.info, placed⟩
    else ⟨e, [.place quotes], placed⟩

/-- The execution of a plan: cancels, and then placements.  A failed cancel may have been applied
in part, so it is followed by a resync and by no placement. -/
def carryOut (e : Engine) (m : Market) (d : Decision) (obs : Observation) (ans : Answers) : Pass :=
  if d.plan.toCancel = [] then e.placeQuotes m d obs ans
  else if ans.cancelOk then
    let pass := (e.dropOrders d.plan.toCancel).placeQuotes m d obs ans
    { pass with calls := .cancel d.plan.toCancel :: pass.calls }
  else
    ⟨e.mapStore fun s => refreshTokenOrders s m.info ans.openOrders 10 obs.now,
      [.cancel d.plan.toCancel, .openOrders], []⟩

/-- `_recompute`. -/
def recompute (e : Engine) (cid : ConditionId) (obs : Observation) (ans : Answers) : Pass :=
  match e.markets.get? cid with
  | none => ⟨e, [], []⟩
  | some m =>
    match m.sight obs with
    | .error _ => e.maybePullOnBadBook cid m obs ans
    | .ok micro =>
      let (e', d) := e.decided cid m obs micro
      e'.carryOut m d obs ans

/-- The decision of a recompute, where it makes one. -/
def decision? (e : Engine) (cid : ConditionId) (obs : Observation) : Option Decision :=
  (e.markets.get? cid).bind fun m =>
    match m.sight obs with
    | .error _ => none
    | .ok micro => some (e.decided cid m obs micro).2

theorem ordersOf_congr {e e' : Engine} (h : e'.store = e.store) (m : MarketMeta) :
    e'.ordersOf m = e.ordersOf m := by
  unfold ordersOf
  rw [h]

section Equations

variable {e : Engine} {cid : ConditionId} {obs : Observation} {m : Market}

theorem recompute_of_none (obs : Observation) (ans : Answers) (hm : e.markets.get? cid = none) :
    e.decision? cid obs = none ∧ e.recompute cid obs ans = ⟨e, [], []⟩ := by
  unfold decision? recompute
  rw [hm]
  exact ⟨rfl, rfl⟩

theorem recompute_of_error (ans : Answers) {why : BadBook} (hm : e.markets.get? cid = some m)
    (hsight : m.sight obs = .error why) :
    e.decision? cid obs = none ∧
      e.recompute cid obs ans = e.maybePullOnBadBook cid m obs ans := by
  unfold decision? recompute
  rw [hm, Option.bind_some]
  simp only [hsight, and_self]

theorem recompute_of_ok (ans : Answers) {micro : ℚ} (hm : e.markets.get? cid = some m)
    (hsight : m.sight obs = .ok micro) :
    e.decision? cid obs = some (e.decided cid m obs micro).2 ∧
      e.recompute cid obs ans =
        (e.decided cid m obs micro).1.carryOut m (e.decided cid m obs micro).2 obs ans := by
  unfold decision? recompute
  rw [hm, Option.bind_some]
  simp only [hsight, and_self]

theorem decision?_of_ok {micro : ℚ} (hm : e.markets.get? cid = some m)
    (hsight : m.sight obs = .ok micro) :
    e.decision? cid obs = some (e.decision m obs micro).2 := by
  unfold decision?
  rw [hm, Option.bind_some]
  simp only [hsight]
  rfl

end Equations

/-! ### What a recompute does to the store -/

/-- The cancel of a plan, when it is acknowledged or not needed. -/
inductive CancelDone (d : Decision) (ans : Answers) : List GatewayCall → Prop
  | needless (h : d.plan.toCancel = []) : CancelDone d ans []
  | acknowledged (h : ans.cancelOk = true) : CancelDone d ans [.cancel d.plan.toCancel]

/-- The orders a decision's placement returns. -/
def placed (e : Engine) (d : Decision) (obs : Observation) (ans : Answers) : List OpenOrder :=
  place e.execution (d.issued obs) ans.place obs.now

/-- The store and the calls a recompute ends with, by what happened. -/
inductive RecomputeCase (e : Engine) (cid : ConditionId) (obs : Observation) (ans : Answers) :
    StateStore → List GatewayCall → List OpenOrder → Prop
  | idle (hnone : e.decision? cid obs = none)
      (hpull : ∀ m, e.markets.get? cid = some m → e.toPull m obs = []) :
      RecomputeCase e cid obs ans e.store [] []
  | pulled (m : Market) (hm : e.markets.get? cid = some m)
      (hnone : e.decision? cid obs = none) (hok : ans.cancelOk = true) :
      RecomputeCase e cid obs ans ((e.toPull m obs).foldl StateStore.removeOrder e.store)
        [.cancel (e.toPull m obs)] []
  | pullFailed (m : Market) (hm : e.markets.get? cid = some m)
      (hnone : e.decision? cid obs = none) (hok : ans.cancelOk = false) :
      RecomputeCase e cid obs ans e.store [.cancel (e.toPull m obs)] []
  | cancelFailed (m : Market) (d : Decision) (hm : e.markets.get? cid = some m)
      (hd : e.decision? cid obs = some d) (hok : ans.cancelOk = false)
      (hcancel : d.plan.toCancel ≠ []) :
      RecomputeCase e cid obs ans
        (refreshTokenOrders e.store m.info ans.openOrders 10 obs.now)
        [.cancel d.plan.toCancel, .openOrders] []
  | cancelled (m : Market) (d : Decision) (calls : List GatewayCall)
      (hm : e.markets.get? cid = some m) (hd : e.decision? cid obs = some d)
      (hcalls : CancelDone d ans calls) (hnone : d.issued obs = []) :
      RecomputeCase e cid obs ans (d.plan.toCancel.foldl StateStore.removeOrder e.store) calls []
  | complete (m : Market) (d : Decision) (calls : List GatewayCall)
      (hm : e.markets.get? cid = some m) (hd : e.decision? cid obs = some d)
      (hcalls : CancelDone d ans calls) (hsome : d.issued obs ≠ [])
      (hall : (e.placed d obs ans).length = (d.issued obs).length) :
      RecomputeCase e cid obs ans
        ((e.placed d obs ans).foldl StateStore.upsertOrder
          (d.plan.toCancel.foldl StateStore.removeOrder e.store))
        (calls ++ [.place (d.issued obs)]) (e.placed d obs ans)
  | quarantined (m : Market) (d : Decision) (calls : List GatewayCall)
      (hm : e.markets.get? cid = some m) (hd : e.decision? cid obs = some d)
      (hcalls : CancelDone d ans calls)
      (hshort : (e.placed d obs ans).length < (d.issued obs).length) :
      RecomputeCase e cid obs ans
        (quarantine ((e.placed d obs ans).foldl StateStore.upsertOrder
          (d.plan.toCancel.foldl StateStore.removeOrder e.store)) m.info ans.openOrders obs.now)
        (calls ++ .place (d.issued obs) :: quarantineCalls m.info) (e.placed d obs ans)

section Cases

variable {e : Engine} {cid : ConditionId} {obs : Observation} {ans : Answers} {m : Market}

theorem recomputeCase_maybePullOnBadBook (hm : e.markets.get? cid = some m)
    (hnone : e.decision? cid obs = none) :
    RecomputeCase e cid obs ans (e.maybePullOnBadBook cid m obs ans).engine.store
      (e.maybePullOnBadBook cid m obs ans).calls
      (e.maybePullOnBadBook cid m obs ans).returned := by
  have hidle : e.toPull m obs = [] → RecomputeCase e cid obs ans e.store [] [] := fun hnil =>
    .idle hnone fun m' hm' => by rw [hm] at hm'; rw [← Option.some.inj hm', hnil]
  obtain ⟨m', -, -, heq⟩ := e.maybePullOnBadBook_eq cid m obs ans
  rw [heq]
  by_cases hpull : e.PullsOnBadBook m obs
  · have hids : (e.ordersOf m.info).map OpenOrder.orderId = e.toPull m obs := (if_pos hpull).symm
    have horders : ({ e with risk := (e.haltedOrBlind m obs).1 }.setMarket cid m').ordersOf m.info =
        e.ordersOf m.info := ordersOf_congr rfl m.info
    rw [if_pos hpull]
    unfold pullAllQuotes
    simp only [horders, hids]
    split_ifs with hnil hok
    · exact hidle hnil
    · exact .pulled m hm hnone hok
    · exact .pullFailed m hm hnone (by simpa using hok)
  · rw [if_neg hpull]
    exact hidle (if_neg hpull)

/-- The placement half, after the cancels `calls`. -/
theorem recomputeCase_placeQuotes {e' : Engine} {d : Decision} {calls : List GatewayCall}
    (hm : e.markets.get? cid = some m) (hd : e.decision? cid obs = some d)
    (hcalls : CancelDone d ans calls) (hexec : e'.execution = e.execution)
    (hstore : e'.store = d.plan.toCancel.foldl StateStore.removeOrder e.store) :
    RecomputeCase e cid obs ans (e'.placeQuotes m d obs ans).engine.store
      (calls ++ (e'.placeQuotes m d obs ans).calls) (e'.placeQuotes m d obs ans).returned := by
  have hplaced : place e'.execution (d.issued obs) ans.place obs.now = e.placed d obs ans := by
    rw [placed, hexec]
  have hle : (e.placed d obs ans).length ≤ (d.issued obs).length := length_place_le ..
  unfold placeQuotes
  simp only [hplaced]
  split_ifs with hnone hshort
  · simp only [List.append_nil, hstore]
    exact .cancelled m d calls hm hd hcalls hnone
  · simp only [mapStore, hstore]
    exact .quarantined m d calls hm hd hcalls hshort
  · simp only [hstore]
    exact .complete m d calls hm hd hcalls hnone (le_antisymm hle (Nat.le_of_not_lt hshort))

theorem recomputeCase_carryOut {e' : Engine} {d : Decision} (hm : e.markets.get? cid = some m)
    (hd : e.decision? cid obs = some d) (hexec : e'.execution = e.execution)
    (hstore : e'.store = e.store) :
    RecomputeCase e cid obs ans (e'.carryOut m d obs ans).engine.store
      (e'.carryOut m d obs ans).calls (e'.carryOut m d obs ans).returned := by
  unfold carryOut
  split_ifs with hcancel hok
  · have hneedless : CancelDone d ans [] := .needless hcancel
    have h := recomputeCase_placeQuotes hm hd hneedless hexec (by rw [hstore, hcancel]; rfl)
    rwa [List.nil_append] at h
  · have hdropped : (e'.dropOrders d.plan.toCancel).store =
        d.plan.toCancel.foldl StateStore.removeOrder e.store := by
      rw [← hstore]
      rfl
    exact recomputeCase_placeQuotes hm hd (.acknowledged hok) hexec hdropped
  · simp only [mapStore, hstore]
    exact .cancelFailed m d hm hd (by simpa using hok) hcancel

end Cases

/-- Every recompute is of one of the cases. -/
theorem recompute_cases (e : Engine) (cid : ConditionId) (obs : Observation) (ans : Answers) :
    RecomputeCase e cid obs ans (e.recompute cid obs ans).engine.store
      (e.recompute cid obs ans).calls (e.recompute cid obs ans).returned := by
  cases hm : e.markets.get? cid with
  | none =>
    obtain ⟨hnone, hrec⟩ := recompute_of_none obs ans hm
    rw [hrec]
    exact .idle hnone fun m hm' => by rw [hm] at hm'; cases hm'
  | some m =>
    cases hsight : m.sight obs with
    | error why =>
      obtain ⟨hnone, hrec⟩ := recompute_of_error ans hm hsight
      rw [hrec]
      exact recomputeCase_maybePullOnBadBook hm hnone
    | ok micro =>
      obtain ⟨hd, hrec⟩ := recompute_of_ok ans hm hsight
      rw [hrec]
      exact recomputeCase_carryOut hm hd rfl rfl

end Engine

end Polymaker
