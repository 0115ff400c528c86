import Polymaker.Lib.Run
import Polymaker.State.Positions

/-!
# A restart between two operations

The positions of the store are a mirror of a table: every operation that moves a position writes it
through, and reopening the database loads the rows of positive size.

* `StateStore.InStep`: memory shows what a reopened database would;
* `StoreOp`, `StateStore.perform`: the operations that reach a position or a fill;
* `inStep_perform`: an operation keeps memory in step with the database;
* `restart_invisible`: closing and reopening the store between two operations changes no position,
  and nothing that later fills and reversals answer or do.
-/

namespace Polymaker

/-! ### Positions as a mirror -/

/-- Reopening the database shows the positions that memory shows. -/
def StateStore.InStep (s : StateStore) : Prop := s.mirror.InStep held Position.flat

theorem inStep_open (db : Db) : (StateStore.open db).InStep :=
  Mirror.inStep_reload (m := ⟨Dict.empty, db.positions⟩)

theorem StateStore.InStep.open_position {s : StateStore} (h : s.InStep) (tok : TokenId) :
    (StateStore.open s.db).position tok = s.position tok := (h tok).symm

section Mirrors

variable {s : StateStore} {tok : TokenId} {size avg : ℚ}

theorem setPosition_mirror :
    (s.setPosition tok size avg).mirror =
      s.mirror.write tok ⟨max 0 size, if 0 < size then avg else 0⟩ := rfl

theorem dropUntrackedPositions_mirror (tracked : List TokenId) :
    (s.dropUntrackedPositions tracked).1.mirror =
      s.mirror.drop (s.dropUntrackedPositions tracked).2 := rfl

/-- What `set_position` writes is held, or flat without a price. -/
theorem held_setPosition (size avg : ℚ) :
    held ⟨max 0 size, if 0 < size then avg else 0⟩ ∨
      (⟨max 0 size, if 0 < size then avg else 0⟩ : Position) = Position.flat := by
  by_cases h : 0 < size
  · exact .inl (decide_eq_true (lt_max_of_lt_right h))
  · refine .inr ?_
    rw [if_neg h, max_eq_left (not_lt.1 h)]; rfl

end Mirrors

/-! ### One operation -/

/-- An operation of the store that reaches a position, a fill or a guard, at the time it reads. -/
inductive StoreOp
  | applyFill (f : Fill)
  | reverseFill (t : TradeId)
  | markFillSettled (t : TradeId)
  | setPosition (tok : TokenId) (size avgPrice : ℚ)
  | reconcilePositions (api : Dict TokenId (ℚ × ℚ)) (authoritative : Bool) (now : ℚ)
  | forceSetPosition (tok : TokenId) (size avgPrice : ℚ)
  | dropUntrackedPositions (tracked : List TokenId)
  | markInflight (tok : TokenId) (now : ℚ)
  | clearInflight (tok : TokenId)

/-- The store after an operation. -/
def StateStore.perform (s : StateStore) : StoreOp → StateStore
  | .applyFill f => (s.applyFill f).1
  | .reverseFill t => (s.reverseFill t).1
  | .markFillSettled t => s.markFillSettled t
  | .setPosition tok size avg => s.setPosition tok size avg
  | .reconcilePositions api authoritative now => (s.reconcilePositions api authoritative now).1
  | .forceSetPosition tok size avg => s.forceSetPosition tok size avg
  | .dropUntrackedPositions tracked => (s.dropUntrackedPositions tracked).1
  | .markInflight tok now => s.markInflight tok now
  | .clearInflight tok => s.clearInflight tok

section Steps

variable {s : StateStore}

theorem StateStore.InStep.recordFill (h : s.InStep) (f : Fill) : (s.recordFill f).InStep := by
  unfold StateStore.InStep
  rw [recordFill_mirror]
  exact h.write _ (held_apply _ f)

theorem StateStore.InStep.applyFill (h : s.InStep) (f : Fill) : (s.applyFill f).1.InStep := by
  by_cases hdup : f.tradeId ∈ s.db.fills
  · rwa [applyFill_of_mem hdup]
  · rw [applyFill_of_not_mem hdup]
    exact h.recordFill f

theorem StateStore.InStep.reverseFill (h : s.InStep) (t : TradeId) :
    (s.reverseFill t).1.InStep := by
  obtain ⟨r, -, -, -, heq⟩ | ⟨-, heq⟩ := storeReverseFill_cases s t <;> rw [heq]
  · exact h.recordFill _
  · exact h

theorem StateStore.InStep.markFillSettled (h : s.InStep) (t : TradeId) :
    (s.markFillSettled t).InStep := by
  have hmirror : (s.markFillSettled t).mirror = s.mirror := by
    unfold StateStore.markFillSettled
    split <;> rfl
  unfold StateStore.InStep
  rwa [hmirror]

theorem StateStore.InStep.setPosition (h : s.InStep) (tok : TokenId) (size avg : ℚ) :
    (s.setPosition tok size avg).InStep := by
  unfold StateStore.InStep
  rw [setPosition_mirror]
  exact h.write _ (held_setPosition size avg)

theorem StateStore.InStep.adoptPositions (h : s.InStep) (api : List (TokenId × ℚ × ℚ)) (now : ℚ) :
    (s.adoptPositions api now).InStep := by
  refine List.foldlRecOn api _ h fun s hs e _ => ?_
  obtain ⟨tok, size, avg⟩ := e
  show StateStore.InStep (if s.guardBlocks tok now then s else s.setPosition tok size avg)
  split_ifs
  · exact hs
  · exact hs.setPosition tok size avg

theorem StateStore.InStep.closeAbsent (h : s.InStep) (held : List (TokenId × Position))
    (api : Dict TokenId (ℚ × ℚ)) (now : ℚ) : (s.closeAbsent held api now).1.InStep := by
  refine List.foldlRecOn (motive := fun acc : StateStore × List TokenId => acc.1.InStep) held _ h
    fun acc hacc e _ => ?_
  obtain ⟨tok, pos⟩ := e
  dsimp only
  split_ifs
  · exact hacc
  · exact hacc
  · exact hacc.setPosition tok 0 0

theorem StateStore.InStep.reconcilePositions (h : s.InStep) (api : Dict TokenId (ℚ × ℚ))
    (authoritative : Bool) (now : ℚ) : (s.reconcilePositions api authoritative now).1.InStep := by
  have hadopt := h.adoptPositions api.entries now
  unfold StateStore.reconcilePositions
  cases authoritative
  · exact hadopt
  · exact hadopt.closeAbsent _ _ _

theorem StateStore.InStep.dropUntrackedPositions (h : s.InStep) (tracked : List TokenId) :
    (s.dropUntrackedPositions tracked).1.InStep := by
  unfold StateStore.InStep
  rw [dropUntrackedPositions_mirror]
  exact h.drop _

end Steps

/-- An operation keeps memory in step with the database. -/
theorem inStep_perform {s : StateStore} (h : s.InStep) (op : StoreOp) : (s.perform op).InStep := by
  cases op with
  | applyFill f => exact h.applyFill f
  | reverseFill t => exact h.reverseFill t
  | markFillSettled t => exact h.markFillSettled t
  | setPosition tok size avg => exact h.setPosition tok size avg
  | reconcilePositions api authoritative now =>
    exact h.reconcilePositions api authoritative now
  | forceSetPosition tok size avg => exact h.setPosition tok size avg
  | dropUntrackedPositions tracked => exact h.dropUntrackedPositions tracked
  | markInflight tok now => exact h
  | clearInflight tok => exact h

/-! ### Two stores that cannot be told apart -/

/-- A call that reports a fill to the store or takes one back. -/
inductive FillCall
  | applyFill (f : Fill)
  | reverseFill (t : TradeId)

/-- What such a call returns: whether the fill was new, or the fill that was taken back. -/
inductive FillAnswer
  | applied (fresh : Bool)
  | undone (f : Option Fill)
  deriving DecidableEq

/-- The store after a call, and what the call returns. -/
def StateStore.fillCall (s : StateStore) : FillCall → StateStore × FillAnswer
  | .applyFill f => ((s.applyFill f).1, .applied (s.applyFill f).2)
  | .reverseFill t => ((s.reverseFill t).1, .undone (s.reverseFill t).2)

/-- The stores have the same database and show the same positions; their maps may differ. -/
structure SamePositions (s s' : StateStore) : Prop where
  db : s.db = s'.db
  position : ∀ tok, s.position tok = s'.position tok

theorem SamePositions.recordFill {s s' : StateStore} (h : SamePositions s s') (f : Fill) :
    SamePositions (s.recordFill f) (s'.recordFill f) where
  db := by
    have hpos := h.position f.tokenId
    have hdb : ∀ st : StateStore, (st.recordFill f).db =
        (st.db.insertFill f).persistPosition f.tokenId ((st.recordFill f).position f.tokenId) :=
      fun _ => rfl
    rw [hdb, hdb, recordFill_position, recordFill_position, h.db, hpos]
  position := fun tok => by
    rw [recordFill_position, recordFill_position, h.position, h.position]

/-- A call answers the same in both stores and leaves them alike. -/
theorem SamePositions.fillCall {s s' : StateStore} (h : SamePositions s s') (c : FillCall) :
    SamePositions (s.fillCall c).1 (s'.fillCall c).1 ∧ (s.fillCall c).2 = (s'.fillCall c).2 := by
  cases c with
  | applyFill f =>
    by_cases hdup : f.tradeId ∈ s.db.fills
    · have hdup' : f.tradeId ∈ s'.db.fills := h.db ▸ hdup
      simp only [StateStore.fillCall, applyFill_of_mem hdup, applyFill_of_mem hdup']
      exact ⟨h, trivial⟩
    · have hdup' : f.tradeId ∉ s'.db.fills := h.db ▸ hdup
      simp only [StateStore.fillCall, applyFill_of_not_mem hdup, applyFill_of_not_mem hdup']
      exact ⟨h.recordFill f, trivial⟩
  | reverseFill t =>
    -- the rows decide, and both stores have the same rows
    have hcase := storeReverseFill_cases s' t
    rw [← h.db] at hcase
    simp only [StateStore.fillCall]
    obtain ⟨r, hr, hst, hrev, heq⟩ | ⟨hnone, heq⟩ := storeReverseFill_cases s t <;>
      obtain ⟨r', hr', hst', hrev', heq'⟩ | ⟨hnone', heq'⟩ := hcase
    · obtain rfl := Option.some.inj (hr.symm.trans hr')
      rw [heq, heq']
      exact ⟨h.recordFill _, rfl⟩
    · exact absurd (hnone' r hr hst) hrev
    · exact absurd (hnone r' hr' hst') hrev'
    · rw [heq, heq']
      exact ⟨h, rfl⟩

theorem samePositions_open {s : StateStore} (h : s.InStep) :
    SamePositions (StateStore.open s.db) s := ⟨rfl, h.open_position⟩

/-! ### The main theorem -/

/-- Closing the store and reopening its database changes no position, and nothing that later fills
and reversals return or do to a position. -/
def RestartInvisible (s : StateStore) : Prop :=
  (∀ tok, (StateStore.open s.db).position tok = s.position tok) ∧
    ∀ calls : List FillCall,
      Run.answers StateStore.fillCall (StateStore.open s.db) calls =
        Run.answers StateStore.fillCall s calls ∧
      ∀ tok, (Run.run (fun s c => (s.fillCall c).1) (StateStore.open s.db) calls).position tok =
        (Run.run (fun s c => (s.fillCall c).1) s calls).position tok

theorem restartInvisible_of_inStep {s : StateStore} (h : s.InStep) : RestartInvisible s := by
  refine ⟨h.open_position, fun calls => ?_⟩
  obtain ⟨hrun, hans⟩ :=
    Run.answers_of_bisim (fun _ _ c h => h.fillCall c) (samePositions_open h) calls
  exact ⟨hans, hrun.position⟩

/-- **A restart is invisible.**  In a store opened on any database, between any two operations of
any run, closing the store and reopening the database changes no position, and nothing that later
fills and reversals return or do to a position. -/
theorem restart_invisible (db : Db) (ops : List StoreOp) :
    Run.Always StateStore.perform RestartInvisible (StateStore.open db) ops := by
  have hstep : Run.Always StateStore.perform StateStore.InStep (StateStore.open db) ops :=
    Run.always_of_step (P := StateStore.InStep) (fun _ op h => inStep_perform h op)
      (inStep_open db) ops
  exact fun pre hpre => restartInvisible_of_inStep (hstep pre hpre)

end Polymaker
