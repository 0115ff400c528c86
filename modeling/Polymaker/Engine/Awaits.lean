import Polymaker.Engine.Snapshot
import Polymaker.Engine.Renaming
import Polymaker.State.Tracker

/-!
# A recompute, await by await

A recompute waits for the gateway up to five times while it holds its market's lock, and at each of
these awaits every other task of the engine may run.  Here a recompute is cut at its awaits.

* `Suspended`: where the holder of a lock waits, with what it goes on with; `Suspended.call` is the
  call it waits for;
* `Engine.begin`, `Engine.resume`: from the lock to the first await, and from one await to the next;
* `Tasks`, `TaskStep`, `Tasks.step`: the engine with the holders of its locks, and what its tasks
  do;
* `run_recompute`: where nothing else happens at the awaits, the pieces make up `Engine.recompute`.
-/

namespace Polymaker

/-- Where the holder of a market's lock waits, with what it goes on with. -/
inductive Suspended
  /-- `_pull_all_quotes` cancels; on a bad book the sweep flag is dropped afterwards. -/
  | pulling (ids : List OrderId) (dropsSweep : Bool)
  /-- The cancels of a plan. -/
  | cancelling (m : MarketMeta) (d : Decision) (obs : Observation)
  | placing (m : MarketMeta) (quotes : List Quote)
  /-- `_quarantine` cancels the first token, -/
  | sweepingYes (m : MarketMeta)
  /-- and the second, -/
  | sweepingNo (m : MarketMeta)
  /-- and reads the open orders. -/
  | rereading (m : MarketMeta)
  /-- `_refresh_token_orders` of a failed cancel or of the heartbeat. -/
  | resyncing (m : MarketMeta) (graceS : ℚ)

/-- The call that is waited for. -/
def Suspended.call : Suspended → GatewayCall
  | .pulling ids _ => .cancel ids
  | .cancelling _ d _ => .cancel d.plan.toCancel
  | .placing _ quotes => .place quotes
  | .sweepingYes m => .cancelAsset m.yes
  | .sweepingNo m => .cancelAsset m.no
  | .rereading _ => .openOrders
  | .resyncing _ _ => .openOrders

/-- What the gateway answers to the call waited for, when, and the pressure on the order budget by
then. -/
structure Reply where
  ans : Answers
  orderPressure : ℚ
  now : ℚ

namespace Engine

/-! ### From await to await -/

/-- The sweep flag of a market is taken down. -/
def dropSweep (e : Engine) (cid : ConditionId) : Engine :=
  match e.markets.get? cid with
  | none => e
  | some m => e.setMarket cid { m with sweep := false }

/-- `_pull_all_quotes` up to its await. -/
def startPull (e : Engine) (m : MarketMeta) (dropsSweep : Bool) : Option Suspended :=
  let ids := (e.ordersOf m).map OpenOrder.orderId
  if ids = [] then none else some (.pulling ids dropsSweep)

/-- The placement half up to its await. -/
def startPlace (m : MarketMeta) (d : Decision) (obs : Observation) : Option Suspended :=
  if d.issued obs = [] then none else some (.placing m (d.issued obs))

/-- The execution of a plan up to its first await. -/
def startPlan (m : MarketMeta) (d : Decision) (obs : Observation) : Option Suspended :=
  if d.plan.toCancel = [] then startPlace m d obs else some (.cancelling m d obs)

/-- `_maybe_pull_on_bad_book` up to its await. -/
def beginOnBadBook (e : Engine) (cid : ConditionId) (m : Market) (obs : Observation) :
    Engine × Option Suspended :=
  match e.haltedOrBlind m obs with
  | (r, true) =>
    let e := ({ e with risk := r } : Engine).setMarket cid { m with bookUnusableSince := none }
    (e, e.startPull m.info false)
  | (r, false) =>
    let since := m.bookUnusableSince.getD obs.now
    let e := ({ e with risk := r } : Engine).setMarket cid { m with bookUnusableSince := some since }
    if badBookPullAfterS ≤ obs.now - since then
      match e.startPull m.info true with
      | none => (e.dropSweep cid, none)
      | some wait => (e, some wait)
    else (e, none)

/-- `_recompute_locked` from the lock to its first await, or to its end. -/
def begin (e : Engine) (cid : ConditionId) (obs : Observation) : Engine × Option Suspended :=
  match e.markets.get? cid with
  | none => (e, none)
  | some m =>
    match m.sight obs with
    | .error _ => e.beginOnBadBook cid m obs
    | .ok micro =>
      let (e', d) := e.decided cid m obs micro
      (e', startPlan m.info d obs)

/-- From the answer to a call to the next await, or to the end. -/
def resume (e : Engine) (cid : ConditionId) (r : Reply) : Suspended → Engine × Option Suspended
  | .pulling ids dropsSweep =>
    let e := if r.ans.cancelOk then e.dropOrders ids else e
    (if dropsSweep then e.dropSweep cid else e, none)
  | .cancelling m d obs =>
    if r.ans.cancelOk then
      (e.dropOrders d.plan.toCancel, startPlace m d { obs with orderPressure := r.orderPressure })
    else (e, some (.resyncing m 10))
  | .placing m quotes =>
    let placed := place e.execution quotes r.ans.place r.now
    let e :=
      { e with
        risk := e.risk.noteOrderResult (placed.length == quotes.length) r.now
        store := placed.foldl StateStore.upsertOrder e.store }
    -- an incomplete batch is quarantined
    (e, if placed.length < quotes.length then some (.sweepingYes m) else none)
  | .sweepingYes m => (e.mapStore fun s => dropToken s m.yes, some (.sweepingNo m))
  | .sweepingNo m => (e.mapStore fun s => dropToken s m.no, some (.rereading m))
  | .rereading m => (e.mapStore fun s => refreshTokenOrders s m r.ans.openOrders 0 r.now, none)
  | .resyncing m graceS =>
    (e.mapStore fun s => refreshTokenOrders s m r.ans.openOrders graceS r.now, none)

end Engine

/-! ### The tasks -/

/-- The engine, and who holds the lock of which market. -/
structure Tasks where
  engine : Engine
  holders : ConditionId → Option Suspended

/-- What a task of the engine does between two awaits. -/
inductive TaskStep
  /-- `_recompute` takes the market's lock. -/
  | recompute (cid : ConditionId) (obs : Observation)
  /-- The call that the holder of the lock waits for is answered. -/
  | reply (cid : ConditionId) (r : Reply)
  /-- The heartbeat is back, and its loop takes the market's lock to read the open orders. -/
  | resync (cid : ConditionId)
  /-- `_reconcile_loop` takes the market's lock, with the open orders it read before. -/
  | snapshot (cid : ConditionId) (live : List OpenOrder) (now : ℚ)
  /-- The user stream delivers an order event. -/
  | order (ev : OrderEvent) (now : ℚ)
  /-- Anything else, which leaves the open orders alone. -/
  | elsewhere (e : Engine)

namespace Tasks

/-- The lock of a market is handed over, or released. -/
def hold (t : Tasks) (cid : ConditionId) (out : Engine × Option Suspended) : Tasks :=
  ⟨out.1, Function.update t.holders cid out.2⟩

/-- One task runs to its next await.  Who finds a lock taken waits until it is released, so a task
that takes a lock is a step of its own only where the lock is free. -/
def step (t : Tasks) : TaskStep → Tasks
  | .recompute cid obs => if (t.holders cid).isSome then t else t.hold cid (t.engine.begin cid obs)
  | .reply cid r =>
    match t.holders cid with
    | none => t
    | some wait => t.hold cid (t.engine.resume cid r wait)
  | .resync cid =>
    if (t.holders cid).isSome then t
    else
      match t.engine.markets.get? cid with
      | none => t
      | some m => t.hold cid (t.engine, some (.resyncing m.info 0))
  | .snapshot cid live now =>
    if (t.holders cid).isSome then t
    else
      match t.engine.markets.get? cid with
      | none => t
      | some m => { t with engine := t.engine.mapStore fun s => applySnapshot s m.info live now }
  | .order ev now =>
    { t with engine := t.engine.mapStore fun s =>
        (UserEventProcessor.onOrder ⟨s, Dict.empty⟩ ev now).store }
  | .elsewhere e => { t with engine := { e with store := e.store.withOrders t.engine.store.orders } }

end Tasks

/-! ### A recompute on its own -/

namespace Engine

/-- The calls waited for in turn, where nothing else happens in between and the reply is always the
same, and the engine they lead to. -/
def Serves (cid : ConditionId) (r : Reply) : Engine × Option Suspended → List GatewayCall → Engine →
    Prop
  | (e, none), [], e' => e = e'
  | (e, some wait), call :: calls, e' =>
    wait.call = call ∧ Serves cid r (e.resume cid r wait) calls e'
  | (_, none), _ :: _, _ => False
  | (_, some _), [], _ => False

variable {e : Engine} {cid : ConditionId} {m : Market} {obs : Observation} {ans : Answers}

theorem dropSweep_setMarket (e : Engine) (cid : ConditionId) (m : Market) :
    (e.setMarket cid m).dropSweep cid = e.setMarket cid { m with sweep := false } := by
  have hget : (e.setMarket cid m).markets.get? cid = some m := by simp [setMarket]
  unfold dropSweep
  rw [hget]
  simp [setMarket, Dict.set_set]

theorem serves_quarantine (e : Engine) (r : Reply) (m : MarketMeta) :
    Serves cid r (e, some (.sweepingYes m)) (quarantineCalls m)
      (e.mapStore fun s => quarantine s m r.ans.openOrders r.now) :=
  ⟨rfl, rfl, rfl, rfl⟩

theorem serves_placeQuotes (e : Engine) (m : Market) (d : Decision) (obs : Observation)
    (ans : Answers) (pressure : ℚ) :
    Serves cid ⟨ans, pressure, obs.now⟩ (e, startPlace m.info d obs)
      (e.placeQuotes m d obs ans).calls (e.placeQuotes m d obs ans).engine := by
  unfold placeQuotes startPlace
  simp only
  split_ifs with hnone hshort
  · rfl
  · refine ⟨rfl, ?_⟩
    simp only [resume, if_pos hshort]
    exact serves_quarantine _ _ m.info
  · refine ⟨rfl, ?_⟩
    simp only [resume, if_neg hshort]
    rfl

theorem serves_carryOut (e : Engine) (m : Market) (d : Decision) (obs : Observation)
    (ans : Answers) :
    Serves cid ⟨ans, obs.orderPressure, obs.now⟩ (e, startPlan m.info d obs)
      (e.carryOut m d obs ans).calls (e.carryOut m d obs ans).engine := by
  unfold carryOut startPlan
  split_ifs with hcancel hok
  · exact serves_placeQuotes e m d obs ans _
  · refine ⟨rfl, ?_⟩
    simp only [resume, if_pos hok]
    exact serves_placeQuotes _ m d obs ans _
  · refine ⟨rfl, ?_⟩
    simp only [resume, if_neg hok]
    exact ⟨rfl, rfl⟩

theorem serves_pull (e : Engine) (m : Market) (obs : Observation) (ans : Answers) (pressure : ℚ) :
    Serves cid ⟨ans, pressure, obs.now⟩ (e, e.startPull m.info false)
      (e.pullAllQuotes m.info ans).calls (e.pullAllQuotes m.info ans).engine := by
  unfold pullAllQuotes startPull
  simp only
  split_ifs with hnil hok
  · rfl
  · refine ⟨rfl, ?_⟩
    simp [resume, hok, Serves]
  · refine ⟨rfl, ?_⟩
    simp [resume, hok, Serves]

/-- The sweep flag goes after the quotes, or with them where nothing is waited for. -/
theorem serves_pull_dropSweep (e : Engine) (cid : ConditionId) (m : Market) (obs : Observation)
    (ans : Answers) (pressure : ℚ) :
    Serves cid ⟨ans, pressure, obs.now⟩
      (match (e.setMarket cid m).startPull m.info true with
        | none => ((e.setMarket cid m).dropSweep cid, none)
        | some wait => (e.setMarket cid m, some wait))
      ((e.setMarket cid { m with sweep := false }).pullAllQuotes m.info ans).calls
      ((e.setMarket cid { m with sweep := false }).pullAllQuotes m.info ans).engine := by
  have horders : (e.setMarket cid { m with sweep := false }).ordersOf m.info =
      (e.setMarket cid m).ordersOf m.info := ordersOf_congr rfl m.info
  unfold pullAllQuotes startPull
  simp only [horders]
  by_cases hnil : ((e.setMarket cid m).ordersOf m.info).map OpenOrder.orderId = []
  · rw [if_pos hnil, if_pos hnil]
    exact dropSweep_setMarket e cid m
  · rw [if_neg hnil, if_neg hnil]
    have hdrop : ∀ ids, ((e.setMarket cid m).dropOrders ids).dropSweep cid =
        (e.setMarket cid { m with sweep := false }).dropOrders ids := fun ids =>
      dropSweep_setMarket (e.dropOrders ids) cid m
    split_ifs with hok
    · exact ⟨rfl, by simp [resume, hok, Serves, hdrop]⟩
    · exact ⟨rfl, by simp [resume, hok, Serves, dropSweep_setMarket]⟩

theorem serves_beginOnBadBook (e : Engine) (cid : ConditionId) (m : Market) (obs : Observation)
    (ans : Answers) (pressure : ℚ) :
    Serves cid ⟨ans, pressure, obs.now⟩ (e.beginOnBadBook cid m obs)
      (e.maybePullOnBadBook cid m obs ans).calls (e.maybePullOnBadBook cid m obs ans).engine := by
  unfold beginOnBadBook maybePullOnBadBook
  rcases e.haltedOrBlind m obs with ⟨r, _ | _⟩
  · simp only
    split_ifs with hgrace
    · exact serves_pull_dropSweep { e with risk := r } cid
        { m with bookUnusableSince := some (m.bookUnusableSince.getD obs.now) } obs ans pressure
    · rfl
  · exact serves_pull (({ e with risk := r } : Engine).setMarket cid
      { m with bookUnusableSince := none }) m obs ans pressure

/-- Answered in turn, the calls of a recompute lead it from its lock to its end. -/
theorem serves_begin (e : Engine) (cid : ConditionId) (obs : Observation) (ans : Answers) :
    Serves cid ⟨ans, obs.orderPressure, obs.now⟩ (e.begin cid obs) (e.recompute cid obs ans).calls
      (e.recompute cid obs ans).engine := by
  unfold begin
  cases hm : e.markets.get? cid with
  | none =>
    obtain ⟨-, hrec⟩ := recompute_of_none obs ans hm
    rw [hrec]
    rfl
  | some m =>
    cases hsight : m.sight obs with
    | error why =>
      obtain ⟨-, hrec⟩ := recompute_of_error ans hm hsight
      simp only [hsight, hrec]
      exact serves_beginOnBadBook e cid m obs ans _
    | ok micro =>
      obtain ⟨-, hrec⟩ := recompute_of_ok ans hm hsight
      simp only [hsight, hrec]
      exact serves_carryOut _ m _ obs ans

end Engine

namespace Tasks

variable {cid : ConditionId} {r : Reply}

/-- The replies to the calls of a recompute, with nothing in between. -/
theorem run_replies {out : Engine × Option Suspended} {calls : List GatewayCall} {e' : Engine}
    (h : Engine.Serves cid r out calls e') (t : Tasks) :
    Run.run step (t.hold cid out) (List.replicate calls.length (.reply cid r)) =
      t.hold cid (e', none) := by
  induction calls generalizing out t with
  | nil =>
    obtain ⟨e, _ | wait⟩ := out
    · obtain rfl : e = e' := h
      rfl
    · exact h.elim
  | cons call calls ih =>
    obtain ⟨e, _ | wait⟩ := out
    · exact h.elim
    · have hstep : (t.hold cid (e, some wait)).step (.reply cid r) =
          (t.hold cid (e, some wait)).hold cid (e.resume cid r wait) := by
        simp [step, hold]
      rw [List.length_cons, List.replicate_succ, Run.run_cons, hstep, ih h.2]
      simp [hold]

/-- **A recompute is its pieces.**  Where the lock is free and nothing else happens at the awaits,
the pieces of a recompute, up to as many replies as it makes calls, leave the engine as
`Engine.recompute` does, and the lock free; the calls waited for are the calls it makes. -/
theorem run_recompute (t : Tasks) (obs : Observation) (ans : Answers)
    (hfree : t.holders cid = none) :
    Run.run step t (.recompute cid obs ::
        List.replicate (t.engine.recompute cid obs ans).calls.length
          (.reply cid ⟨ans, obs.orderPressure, obs.now⟩)) =
        ⟨(t.engine.recompute cid obs ans).engine, t.holders⟩ ∧
      Engine.Serves cid ⟨ans, obs.orderPressure, obs.now⟩ (t.engine.begin cid obs)
        (t.engine.recompute cid obs ans).calls (t.engine.recompute cid obs ans).engine := by
  have hserves := t.engine.serves_begin cid obs ans
  have hbegin : t.step (.recompute cid obs) = t.hold cid (t.engine.begin cid obs) := by
    simp [step, hfree]
  refine ⟨?_, hserves⟩
  rw [Run.run_cons, hbegin, run_replies hserves, hold, ← hfree, Function.update_eq_self]

/-- A market without orders waits once, to place its four quotes. -/
theorem run_recompute_of_no_orders :
    let m : Market := { info := ⟨"a", "ya", "na", 1 / 100, 5, 0, 0, none, none⟩, profile := {} }
    let book := OrderBook.ofTouch (48 / 100) (52 / 100) 100
    let obs : Observation :=
      ⟨100, some book, some book, 0, 0, 0, 0, false, false, false, false, 0⟩
    let ans : Answers := ⟨true, some [[some "o1", some "o2", some "o3", some "o4"]], none⟩
    let e : Engine := ⟨{}, Dict.empty.set "a" m, StateStore.open .fresh, .new {}, Dict.empty⟩
    let t := Run.run step ⟨e, fun _ => none⟩ [.recompute "a" obs, .reply "a" ⟨ans, 0, 100⟩]
    t.engine = (e.recompute "a" obs ans).engine ∧ t.holders "a" = none ∧
      (t.engine.ordersOf m.info).map OpenOrder.orderId = ["o1", "o2", "o3", "o4"] := by
  intro m book obs ans e t
  have hcalls : (e.recompute "a" obs ans).calls.length = 1 := by decide +kernel
  have hrun : t = ⟨(e.recompute "a" obs ans).engine, fun _ => none⟩ := by
    have h := (@run_recompute "a" ⟨e, fun _ => none⟩ obs ans rfl).1
    rw [hcalls] at h
    exact h
  rw [hrun]
  exact ⟨rfl, rfl, by decide +kernel⟩

end Tasks

end Polymaker
