import Polymaker.Engine.Recompute

/-!
# What a recompute makes of order ids

Nothing is decided by the id of an order, by the time its local copy was made, or by the cash ledger
as long as the daily loss comes out alike.

* `SameOrder`, `SameOrders`: orders that are the same up to ids and the age of their copies;
* `reconcile_rel`: a plan on such orders places the same quotes and cancels the same orders;
* `CashLedger`, `Engine.apart`: an engine with other orders and another cash ledger;
* `Link`, `Observation.through`: what an engine sees through its own connection to the exchange;
* `evaluate_withLedger`, `decided_apart`: the verdict and the decision of two such engines.
-/

namespace Polymaker

open RiskManager (RiskDecision)

/-! ### Orders up to ids -/

/-- Two orders with related ids that are the same but for the age of their local copies. -/
structure SameOrder (S : OrderId → OrderId → Prop) (o o' : OpenOrder) : Prop where
  orderId : S o.orderId o'.orderId
  tokenId : o.tokenId = o'.tokenId
  side : o.side = o'.side
  price : o.price = o'.price
  size : o.size = o'.size
  state : o.state = o'.state

/-- Two collections of tracked orders that are the same up to ids, in the same order. -/
def SameOrders (S : OrderId → OrderId → Prop) (d d' : Dict OrderId OpenOrder) : Prop :=
  List.Forall₂ (fun e e' => S e.1 e'.1 ∧ SameOrder S e.2 e'.2) d.entries d'.entries

section Orders

variable {S : OrderId → OrderId → Prop} {d d' : Dict OrderId OpenOrder} {l l' : List OpenOrder}

theorem SameOrders.values (h : SameOrders S d d') :
    List.Forall₂ (SameOrder S) d.values d'.values :=
  List.rel_map (fun _ _ he => he.2) h

theorem forall₂_map_orderId (h : List.Forall₂ (SameOrder S) l l') :
    List.Forall₂ S (l.map OpenOrder.orderId) (l'.map OpenOrder.orderId) :=
  List.rel_map (fun _ _ ho => ho.orderId) h

/-- The orders of a token. -/
theorem forall₂_filter_token (h : List.Forall₂ (SameOrder S) l l') (tok : TokenId) :
    List.Forall₂ (SameOrder S) (l.filter fun o => decide (o.tokenId = tok))
      (l'.filter fun o => decide (o.tokenId = tok)) := by
  refine List.rel_filter (fun o o' ho => ?_) h
  simp only [decide_eq_true_eq, ho.tokenId]

/-- The notional of resting orders has no ids in it. -/
theorem restingBuyNotional_rel (h : List.Forall₂ (SameOrder S) l l') (tokens : List TokenId) :
    RiskManager.restingBuyNotional l tokens = RiskManager.restingBuyNotional l' tokens := by
  unfold RiskManager.restingBuyNotional
  congr 1
  induction h with
  | nil => rfl
  | @cons o o' l l' ho _ ih =>
    have hsame : decide (o.side = .buy ∧ o.tokenId ∈ tokens) =
        decide (o'.side = .buy ∧ o'.tokenId ∈ tokens) := by rw [ho.side, ho.tokenId]
    rw [List.filter_cons, List.filter_cons, hsame]
    split_ifs
    · rw [List.map_cons, List.map_cons, ih, ho.price, ho.size]
    · exact ih

/-- A plan on orders that are the same up to ids places the same quotes and cancels the same
orders. -/
theorem reconcile_rel (hS : Relator.BiUnique S) (h : List.Forall₂ (SameOrder S) l l')
    (targets : TargetQuotes) (t : Tolerance) :
    (reconcile targets l t).toPlace = (reconcile targets l' t).toPlace ∧
      List.Forall₂ S (reconcile targets l t).toCancel (reconcile targets l' t).toCancel := by
  have hfit : ∀ q o o', SameOrder S o o' → (t.Fits q o ↔ t.Fits q o') := by
    intro q o o' ho
    unfold Tolerance.Fits
    rw [ho.tokenId, ho.side, ho.price, ho.size]
  have hassign := FirstFit.assign_rel hS (fun o o' (ho : SameOrder S o o') => ho.orderId) hfit h
    .nil targets.quotes
  refine ⟨FirstFit.unmet_rel hassign, ?_⟩
  refine List.rel_filter (fun i i' hi => ?_) (forall₂_map_orderId h)
  have hkeep : i ∈ (FirstFit.used (matchTargets t l targets.quotes)).map OpenOrder.orderId ↔
      i' ∈ (FirstFit.used (matchTargets t l' targets.quotes)).map OpenOrder.orderId :=
    List.rel_mem hS hi (forall₂_map_orderId (FirstFit.used_rel hassign))
  simp only [decide_eq_true_eq, hkeep]

end Orders

/-! ### The cash ledger -/

/-- The part of the manager's state that knows about cash. -/
structure CashLedger where
  netCash : ℚ
  dayStartEquity : ℚ
  cashAdjustments : ℚ

/-- The manager with another ledger. -/
def RiskManager.withLedger (r : RiskManager) (k : CashLedger) : RiskManager :=
  { r with
    netCash := k.netCash
    dayStartEquity := k.dayStartEquity
    cashAdjustments := k.cashAdjustments }

/-- The store with other orders. -/
def StateStore.withOrders (s : StateStore) (orders : Dict OrderId OpenOrder) : StateStore :=
  { s with orders }

/-- Two verdicts that have the same consequences: only what is reported may differ. -/
structure SameVerdict (rd rd' : RiskDecision) : Prop where
  halt : rd.halt = rd'.halt
  reduceOnly : rd.reduceOnly = rd'.reduceOnly
  sizeScale : rd.sizeScale = rd'.sizeScale

namespace RiskManager

variable {r : RiskManager} {s : StateStore} {k : CashLedger} {orders : Dict OrderId OpenOrder}

@[simp] theorem withLedger_cfg : (r.withLedger k).cfg = r.cfg := rfl

@[simp] theorem withLedger_failureFraction :
    (r.withLedger k).failureFraction = r.failureFraction := rfl

@[simp] theorem withLedger_prune (now : ℚ) :
    (r.withLedger k).prune now = (r.prune now).withLedger k := by
  unfold prune withLedger
  dsimp only
  split
  · rfl
  · split_ifs <;> rfl

@[simp] theorem withLedger_noteOrderResult (ok : Bool) (now : ℚ) :
    (r.withLedger k).noteOrderResult ok now = (r.noteOrderResult ok now).withLedger k :=
  withLedger_prune (r := { r with recentOrderResults := r.recentOrderResults ++ [(now, ok)] }) now

/-- The ledger decides about a halt through the daily loss alone. -/
theorem globalHalt_withLedger
    (h : (r.withLedger k).DailyLossHit (s.withOrders orders) ↔ r.DailyLossHit s) (now : ℚ) :
    ((r.withLedger k).globalHalt (s.withOrders orders) now).1 =
        ((r.globalHalt s now).1).withLedger k ∧
      ((r.withLedger k).globalHalt (s.withOrders orders) now).2.isSome =
        (r.globalHalt s now).2.isSome := by
  have hkilled : (r.withLedger k).killed = r.killed := rfl
  unfold globalHalt errorRate
  simp only [hkilled, withLedger_prune, withLedger_failureFraction, withLedger_cfg]
  by_cases hkill : r.killed = true
  · rw [if_pos hkill, if_pos hkill]
    exact ⟨rfl, rfl⟩
  · rw [if_neg hkill, if_neg hkill]
    by_cases hloss : r.DailyLossHit s
    · rw [if_pos hloss, if_pos (h.2 hloss)]
      exact ⟨rfl, rfl⟩
    · rw [if_neg hloss, if_neg (mt h.1 hloss)]
      split_ifs <;> exact ⟨rfl, rfl⟩

/-- The verdict where nothing is halted, from the notionals it looks at. -/
def verdictOf (cfg : RiskConfig) (wsStale : Bool) (cost market total resting globalResting : ℚ) :
    RiskDecision :=
  if wsStale then ⟨true, false, 0, .wsStale⟩
  else if cfg.maxMarketNotionalUsdc ≤ market + resting then ⟨false, true, 1, .marketCap⟩
  else if cfg.maxEventGroupLossUsdc ≤ cost then ⟨false, true, 1, .eventGroupCap⟩
  else if cfg.maxTotalExposureUsdc ≤ total + globalResting then
    ⟨false, true, 1, .totalExposureCap⟩
  else
    ⟨false, false, min (headroom market cfg.maxMarketNotionalUsdc)
      (min (headroom total cfg.maxTotalExposureUsdc) (headroom cost cfg.maxEventGroupLossUsdc)),
      .clear⟩

theorem evaluate_eq (r : RiskManager) (s : StateStore) (m : MarketMeta) (wsStale : Bool)
    (cost resting globalResting : ℚ) (now : ℚ) :
    r.evaluate s m wsStale cost resting (some globalResting) now =
      match r.globalHalt s now with
      | (r, some why) => (r, ⟨true, false, 0, .halted why⟩)
      | (r, none) => (r, verdictOf r.cfg wsStale cost (r.marketNotional s m) (r.totalExposure s)
          (max 0 resting) (max 0 globalResting)) := by
  unfold evaluate verdictOf
  generalize r.globalHalt s now = halt
  obtain ⟨r, _ | why⟩ := halt
  · dsimp only
    split_ifs <;> rfl
  · rfl

/-- What a gate says, and the manager it leaves, where the daily loss comes out alike. -/
theorem evaluate_withLedger
    (h : (r.withLedger k).DailyLossHit (s.withOrders orders) ↔ r.DailyLossHit s) (m : MarketMeta)
    (wsStale : Bool) (cost resting globalResting now : ℚ) :
    ((r.withLedger k).evaluate (s.withOrders orders) m wsStale cost resting (some globalResting)
          now).1 =
        (r.evaluate s m wsStale cost resting (some globalResting) now).1.withLedger k ∧
      SameVerdict (r.evaluate s m wsStale cost resting (some globalResting) now).2
        ((r.withLedger k).evaluate (s.withOrders orders) m wsStale cost resting
          (some globalResting) now).2 := by
  obtain ⟨hr, hhalt⟩ := globalHalt_withLedger h now
  rw [evaluate_eq, evaluate_eq]
  generalize r.globalHalt s now = a at hr hhalt ⊢
  generalize (r.withLedger k).globalHalt (s.withOrders orders) now = b at hr hhalt ⊢
  obtain ⟨r₁, _ | why⟩ := a
  · obtain ⟨r₂, _ | why⟩ := b
    · dsimp only at hr
      subst hr
      exact ⟨rfl, rfl, rfl, rfl⟩
    · cases hhalt
  · obtain ⟨r₂, _ | why'⟩ := b
    · cases hhalt
    · exact ⟨hr, rfl, rfl, rfl⟩

end RiskManager

/-! ### Two engines -/

/-- The engine with other orders and another cash ledger. -/
def Engine.apart (e : Engine) (orders : Dict OrderId OpenOrder) (k : CashLedger) : Engine :=
  { e with store := e.store.withOrders orders, risk := e.risk.withLedger k }

/-- What an engine sees through its own connection: whether it lost sight of the user stream or
its heartbeat, and the pressure on its rate budget. -/
structure Link where
  userBlind : Bool
  hbBlind : Bool
  orderPressure : ℚ

/-- An observation as an engine in paper mode or not makes it through its link. -/
def Observation.through (obs : Observation) (paper : Bool) (l : Link) : Observation :=
  { obs with
    paper
    userBlind := l.userBlind
    hbBlind := l.hbBlind
    orderPressure := l.orderPressure }

namespace Engine

variable {S : OrderId → OrderId → Prop} {e : Engine} {orders : Dict OrderId OpenOrder}
  {k : CashLedger} {obs : Observation} {m : Market} {paper paper' : Bool} {l l' : Link} {micro : ℚ}

theorem ordersFor_apart (h : SameOrders S e.store.orders orders) (tok : TokenId) :
    List.Forall₂ (SameOrder S) (e.store.ordersFor tok)
      ((e.apart orders k).store.ordersFor tok) := forall₂_filter_token h.values tok

theorem ordersOf_apart (h : SameOrders S e.store.orders orders) (i : MarketMeta) :
    List.Forall₂ (SameOrder S) (e.ordersOf i) ((e.apart orders k).ordersOf i) :=
  List.rel_append (ordersFor_apart h i.yes) (ordersFor_apart h i.no)

/-- The resting notionals have no ids in them. -/
theorem marketResting_apart (h : SameOrders S e.store.orders orders) (i : MarketMeta) :
    (e.apart orders k).marketResting i = e.marketResting i :=
  (restingBuyNotional_rel (ordersOf_apart h i) i.tokens).symm

theorem globalResting_apart (h : SameOrders S e.store.orders orders) :
    (e.apart orders k).globalResting = e.globalResting := by
  have hall : ∀ toks : List TokenId, List.Forall₂ (SameOrder S) (toks.flatMap e.store.ordersFor)
      (toks.flatMap (e.apart orders k).store.ordersFor) := by
    intro toks
    induction toks with
    | nil => exact .nil
    | cons tok toks ih =>
      rw [List.flatMap_cons, List.flatMap_cons]
      exact List.rel_append (ordersFor_apart h tok) ih
  exact (restingBuyNotional_rel (hall e.allTokens) e.allTokens).symm

/-- The daily loss comes out alike at the marks of the market's fair value. -/
def LossAgrees (e e' : Engine) (m : Market) (obs : Observation) (micro : ℚ) : Prop :=
  (e'.valued m obs micro).risk.DailyLossHit e'.store ↔
    (e.valued m obs micro).risk.DailyLossHit e.store

theorem verdict_apart (h : SameOrders S e.store.orders orders)
    (hblind : m.blind (obs.through paper' l') = m.blind (obs.through paper l))
    (hloss : LossAgrees e (e.apart orders k) m obs micro) :
    ((e.apart orders k).verdict m (obs.through paper' l') micro).1 =
        (e.verdict m (obs.through paper l) micro).1.withLedger k ∧
      SameVerdict (e.verdict m (obs.through paper l) micro).2
        ((e.apart orders k).verdict m (obs.through paper' l') micro).2 := by
  set v := e.valued m obs micro with hv
  have hone : e.valued m (obs.through paper l) micro = v := rfl
  have hother : (e.apart orders k).valued m (obs.through paper' l') micro = v.apart orders k := rfl
  have hloss' : (v.risk.withLedger k).DailyLossHit (v.store.withOrders orders) ↔
      v.risk.DailyLossHit v.store := hloss
  have hcost : (v.apart orders k).eventGroupCost m.info = v.eventGroupCost m.info := rfl
  unfold verdict
  rw [marketResting_apart h, globalResting_apart h, hone, hother]
  unfold gate
  rw [hblind, hcost]
  exact RiskManager.evaluate_withLedger hloss' m.info (m.blind (obs.through paper l))
    (v.eventGroupCost m.info) (e.marketResting m.info) e.globalResting obs.now

/-- Two decisions that ask for the same: the regime, the quotes to place, and the orders to cancel
up to their ids. -/
structure SameDecision (S : OrderId → OrderId → Prop) (d d' : Decision) : Prop where
  regime : d.regime = d'.regime
  toPlace : d.plan.toPlace = d'.plan.toPlace
  toCancel : List.Forall₂ S d.plan.toCancel d'.plan.toCancel

theorem decideWith_apart (hS : Relator.BiUnique S) (h : SameOrders S e.store.orders orders)
    (hblind : m.blind (obs.through paper' l') = m.blind (obs.through paper l)) (micro fv : ℚ)
    {rd rd' : RiskDecision} (hrd : SameVerdict rd rd') :
    ((e.apart orders k).decideWith m (obs.through paper' l') micro fv rd').1 =
        (e.decideWith m (obs.through paper l) micro fv rd).1 ∧
      SameDecision S (e.decideWith m (obs.through paper l) micro fv rd).2
        ((e.apart orders k).decideWith m (obs.through paper' l') micro fv rd').2 := by
  have hregime : (e.apart orders k).regimeInputs m (obs.through paper' l') fv rd' =
      e.regimeInputs m (obs.through paper l) fv rd := by
    unfold regimeInputs
    rw [hblind, hrd.halt, hrd.reduceOnly]
    rfl
  have hquote : ∀ regime, (e.apart orders k).quoteInputs m (obs.through paper' l') micro fv rd'
      regime = e.quoteInputs m (obs.through paper l) micro fv rd regime := by
    intro regime
    unfold quoteInputs
    rw [hrd.halt, hrd.reduceOnly, hrd.sizeScale]
    rfl
  unfold decideWith
  simp only [hregime, hquote]
  obtain ⟨hplace, hcancel⟩ := reconcile_rel hS (ordersOf_apart h m.info)
    (constructQuotes (e.quoteInputs m (obs.through paper l) micro fv rd
      (m.regime.decide (e.regimeInputs m (obs.through paper l) fv rd) m.profile).2)) (tolerance m)
  exact ⟨trivial, rfl, hplace, hcancel⟩

/-- **Decisions know no ids.**  Two engines that track the same orders up to ids, see equally much
and agree on the daily loss, decide the same. -/
theorem decided_apart (hS : Relator.BiUnique S) (h : SameOrders S e.store.orders orders)
    (hblind : m.blind (obs.through paper' l') = m.blind (obs.through paper l))
    (hloss : LossAgrees e (e.apart orders k) m obs micro) (cid : ConditionId) :
    ((e.apart orders k).decided cid m (obs.through paper' l') micro).1 =
        ((e.decided cid m (obs.through paper l) micro).1).apart orders k ∧
      SameDecision S (e.decided cid m (obs.through paper l) micro).2
        ((e.apart orders k).decided cid m (obs.through paper' l') micro).2 := by
  obtain ⟨hrisk, hverdict⟩ := verdict_apart h hblind hloss
  have hvalued : (e.apart orders k).valued m (obs.through paper' l') micro =
      (e.valued m obs micro).apart orders k := rfl
  obtain ⟨hmarket, hsame⟩ := decideWith_apart (e := e.valued m obs micro) (k := k) hS h hblind
    micro (m.fairValue obs micro) hverdict
  refine ⟨?_, hsame⟩
  unfold decided decision
  dsimp only
  rw [hrisk, hvalued]
  exact congrArg (fun m' => ({ e.valued m obs micro with
    risk := (e.verdict m (obs.through paper l) micro).1 }.setMarket cid m').apart orders k) hmarket

end Engine

end Polymaker
