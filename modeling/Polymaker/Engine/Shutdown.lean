import Polymaker.Domain
import Polymaker.Lib.Executor
import Mathlib.Data.List.Count

/-!
# Shutting down

Every call of the client runs on one pool of eight threads (`_io` of `gateway.py`).  `shutdown` of
`engine.py` cancels its tasks, drains that pool, and then asks it to cancel all orders.

* `ClientCall`: the calls that matter to what rests on the exchange, and what each may do there;
* `Session`, `SessionEvent`, `Session.step`: the pool, the resting orders and how far the shutdown
  is, and what happens in any order;
* `orders_outlive_shutdown`: a drained pool takes no more calls, so the `cancel_all` that comes
  after it is never sent, and what rests stays resting.
-/

namespace Polymaker

/-- A call of the client. -/
inductive ClientCall
  | place (quotes : List Quote)
  | cancel (ids : List OrderId)
  | cancelAsset (tok : TokenId)
  | cancelAll
  | read
  deriving DecidableEq, Repr

namespace ClientCall

/-- The orders that a call may take off the exchange. -/
def Targets : ClientCall → OpenOrder → Prop
  | .cancel ids, o => o.orderId ∈ ids
  | .cancelAsset tok, o => o.tokenId = tok
  | .cancelAll, _ => True
  | .place _, _ | .read, _ => False

instance : (c : ClientCall) → (o : OpenOrder) → Decidable (c.Targets o)
  | .cancel ids, o => inferInstanceAs (Decidable (o.orderId ∈ ids))
  | .cancelAsset tok, o => inferInstanceAs (Decidable (o.tokenId = tok))
  | .cancelAll, _ => .isTrue trivial
  | .place _, _ | .read, _ => .isFalse id

/-- The orders that a call may bring to the exchange. -/
def Posts : ClientCall → OpenOrder → Prop
  | .place quotes, o => ∃ q ∈ quotes, q.tokenId = o.tokenId ∧ q.side = o.side ∧ q.price = o.price
  | _, _ => False

instance : (c : ClientCall) → (o : OpenOrder) → Decidable (c.Posts o)
  | .place quotes, o => inferInstanceAs
      (Decidable (∃ q ∈ quotes, q.tokenId = o.tokenId ∧ q.side = o.side ∧ q.price = o.price))
  | .cancel _, _ | .cancelAsset _, _ | .cancelAll, _ | .read, _ => .isFalse id

/-- What the exchange may make of a call, which may fail or succeed in part. -/
def Allows (c : ClientCall) (resting resting' : List OpenOrder) : Prop :=
  (∀ o ∈ resting, ¬ c.Targets o → o ∈ resting') ∧ ∀ o ∈ resting', o ∈ resting ∨ c.Posts o

instance (c : ClientCall) (resting resting' : List OpenOrder) :
    Decidable (c.Allows resting resting') := inferInstanceAs (Decidable (_ ∧ _))

end ClientCall

/-- How far the shutdown is. -/
inductive ShutdownStage
  | quoting
  /-- The tasks are cancelled and awaited. -/
  | stopping
  | draining
  | cancelling
  /-- `cancel_all` was asked for, and is awaited. -/
  | awaiting
  | closed
  deriving DecidableEq, Repr

/-- The pool of the gateway, what rests on the exchange, and how far the shutdown is. -/
structure Session where
  crew : Executor.Crew ClientCall
  resting : List OpenOrder
  stage : ShutdownStage

/-- What happens in a session. -/
inductive SessionEvent
  /-- A task makes a call. -/
  | called (c : ClientCall)
  /-- A thread takes up a call. -/
  | taken
  /-- A running call ends, with these orders resting. -/
  | ended (i : ℕ) (resting : List OpenOrder)
  /-- The task that made a call is cancelled. -/
  | withdrawn (i : ℕ)
  /-- The exchange changes what rests. -/
  | exchange (resting : List OpenOrder)
  /-- The shutdown goes on; the drain may get its thread in time or not. -/
  | advanced (drains : Bool)

namespace Session

/-- `max_workers`. -/
def maxWorkers : ℕ := 8

/-- A session with these orders resting. -/
def start (resting : List OpenOrder) : Session := ⟨Executor.idle, resting, .quoting⟩

/-- `cancel_all` is queued or running. -/
def CancelsAll (s : Session) : Prop :=
  .cancelAll ∈ s.crew.queued ∨ .cancelAll ∈ s.crew.running

instance (s : Session) : Decidable s.CancelsAll := inferInstanceAs (Decidable (_ ∨ _))

/-- What an event is to the pool.  `drain` and `close` shut it down. -/
def orders (s : Session) : SessionEvent → List (Executor.Order ClientCall)
  | .called c => [.submit c]
  | .taken => [.take]
  | .ended i resting =>
    if ∃ c ∈ s.crew.running[i]?, c.Allows s.resting resting then [.finish i] else []
  | .withdrawn i => [.withdraw i]
  | .exchange _ => []
  | .advanced drains =>
    match s.stage with
    | .draining => if drains then [.shutDown] else []
    | .cancelling => [.submit .cancelAll]
    | .awaiting => if s.CancelsAll then [] else [.shutDown]
    | _ => []

/-- What rests after an event. -/
def restingAfter (s : Session) : SessionEvent → List OpenOrder
  | .ended i resting =>
    if ∃ c ∈ s.crew.running[i]?, c.Allows s.resting resting then resting else s.resting
  | .exchange resting => resting
  | _ => s.resting

/-- How far the shutdown is after an event. -/
def stageAfter (s : Session) : SessionEvent → ShutdownStage
  | .advanced _ =>
    match s.stage with
    | .quoting => .stopping
    | .stopping => .draining
    | .draining => .cancelling
    | .cancelling => .awaiting
    | .awaiting => if s.CancelsAll then .awaiting else .closed
    | .closed => .closed
  | _ => s.stage

/-- One event. -/
def step (s : Session) (e : SessionEvent) : Session :=
  ⟨Run.run (Executor.step maxWorkers) s.crew (s.orders e), s.restingAfter e, s.stageAfter e⟩

variable {s : Session} {o : OpenOrder}

/-- The pool of a session runs what its events are to it. -/
theorem exists_orders_run (s : Session) (es : List SessionEvent) :
    ∃ os, (Run.run step s es).crew = Run.run (Executor.step maxWorkers) s.crew os := by
  induction es generalizing s with
  | nil => exact ⟨[], rfl⟩
  | cons e es ih =>
    obtain ⟨os, hos⟩ := ih (s.step e)
    refine ⟨s.orders e ++ os, ?_⟩
    rw [Run.run_cons, hos, Run.run_append]
    rfl

/-- At most eight calls run at a time. -/
theorem length_running_le (resting : List OpenOrder) (es : List SessionEvent) :
    (Run.run step (start resting) es).crew.running.length ≤ maxWorkers := by
  obtain ⟨os, hos⟩ := exists_orders_run (start resting) es
  rw [hos]
  exact Executor.length_running_run_le maxWorkers os

/-- A pool that was shut down has nothing queued. -/
theorem closed_of_isShut {resting : List OpenOrder} {es : List SessionEvent}
    (h : (Run.run step (start resting) es).crew.isShut = true) :
    Executor.Closed (Run.run step (start resting) es).crew := by
  obtain ⟨os, hos⟩ := exists_orders_run (start resting) es
  rw [hos] at h ⊢
  exact Executor.closed_of_isShut h

/-- An order is left alone: no call takes it off, and the exchange does not either. -/
structure LeftAlone (o : OpenOrder) (s : Session) : Prop where
  closed : Executor.Closed s.crew
  resting : o ∈ s.resting
  untouched : ∀ c ∈ s.crew.running, ¬ c.Targets o

/-- The exchange itself does not take an order off. -/
def Keeps (o : OpenOrder) (s : Session) : SessionEvent → Prop
  | .exchange resting => o ∈ s.resting → o ∈ resting
  | _ => True

theorem leftAlone_step (h : LeftAlone o s) (e : SessionEvent) (hkeeps : Keeps o s e) :
    LeftAlone o (s.step e) := by
  obtain ⟨hclosed, l, -, hperm⟩ :=
    Executor.exists_ended_of_closed maxWorkers h.closed (s.orders e)
  refine ⟨hclosed, ?_, fun c hc => h.untouched c (hperm.subset (List.mem_append_right l hc))⟩
  change o ∈ s.restingAfter e
  cases e with
  | ended i resting =>
    change o ∈ if ∃ c ∈ s.crew.running[i]?, c.Allows s.resting resting then resting else s.resting
    split_ifs with hallows
    · obtain ⟨c, hc, hkept, -⟩ := hallows
      exact hkept o h.resting (h.untouched c (List.mem_of_getElem? hc))
    · exact h.resting
  | exchange resting => exact hkeeps h.resting
  | _ => exact h.resting

/-- **What rests outlives the shutdown.**  In any session whose pool has been drained: the calls
that still end are those that were running, so no `cancel_all` is sent any more, and an order that
rests then, which none of those calls takes off and the exchange keeps, rests to the end. -/
theorem orders_outlive_shutdown (resting : List OpenOrder) (pre post : List SessionEvent)
    {o : OpenOrder} (hshut : (Run.run step (start resting) pre).crew.isShut = true)
    (hrest : o ∈ (Run.run step (start resting) pre).resting)
    (hfree : ∀ c ∈ (Run.run step (start resting) pre).crew.running, ¬ c.Targets o)
    (hkeeps : Run.EachStep step (Keeps o) (Run.run step (start resting) pre) post) :
    let s := Run.run step (start resting) pre
    let s' := Run.run step (start resting) (pre ++ post)
    (∃ l, s'.crew.ended = s.crew.ended ++ l ∧ l.Subperm s.crew.running) ∧ o ∈ s'.resting := by
  intro s s'
  have hs' : s' = Run.run step s post := Run.run_append step (start resting) pre post
  have hclosed : Executor.Closed s.crew := closed_of_isShut hshut
  constructor
  · obtain ⟨os, hos⟩ := exists_orders_run s post
    obtain ⟨-, l, hended, hperm⟩ :=
      Executor.exists_ended_of_closed maxWorkers hclosed os
    rw [hs', hos]
    exact ⟨l, hended, (List.sublist_append_left ..).subperm.trans hperm.subperm⟩
  · have halone : LeftAlone o (Run.run step s post) :=
      (Run.always_of_valid (fun s e => leftAlone_step (s := s) (e := e)) ⟨hclosed, hrest, hfree⟩
        hkeeps).last
    rw [hs']
    exact halone.resting

/-- A quote is placed and rests; the engine shuts down to the end; nothing was sent to cancel it. -/
theorem orders_outlive_shutdown_of_quote :
    let q : Quote := ⟨"yes", .buy, 48 / 100, 100⟩
    let o : OpenOrder := ⟨"o", "yes", .buy, 48 / 100, 100, .live, 0⟩
    let pre : List SessionEvent := [.called (.place [q]), .taken, .ended 0 [o], .advanced true,
      .advanced true, .advanced true]
    let s := Run.run step (start []) (pre ++ [.advanced true, .taken, .advanced true])
    s.stage = .closed ∧ s.crew.ended = [.place [q]] ∧ o ∈ s.resting := by
  intro q o pre s
  obtain ⟨-, hrest⟩ := orders_outlive_shutdown [] pre [.advanced true, .taken, .advanced true]
    (o := o) (by decide +kernel) (by decide +kernel) (by decide +kernel) (by simp [Keeps])
  exact ⟨by decide +kernel, by decide +kernel, hrest⟩

end Session

end Polymaker
