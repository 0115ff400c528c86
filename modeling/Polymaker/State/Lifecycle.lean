import Polymaker.Domain

/-!
# The lifecycle of a trade

What trade accounting is for, stated for one trade on its own: a trade is unseen until it is
matched, pending until it settles or fails, and then final.  Inventory is added on the way into
`pending` and subtracted on the way from `pending` to `reversed`; no other transition moves it.

`moves_unseen` is the whole guarantee: whatever statuses arrive, in whatever order and however
often, what they move is a prefix of one addition followed by one subtraction.
-/

namespace Polymaker

/-- Where a trade stands. -/
inductive Phase
  | unseen
  | pending
  | settled
  | reversed
  deriving DecidableEq, Repr

/-- What a transition does to inventory. -/
inductive Move
  | add
  | subtract
  deriving DecidableEq, Repr

/-- The phase after a status. -/
def Phase.next : Phase → TradeState → Phase
  | .unseen, .matched => .pending
  | .pending, .confirmed => .settled
  | .pending, .failed => .reversed
  | ph, _ => ph

/-- What a status moves. -/
def Phase.move : Phase → TradeState → List Move
  | .unseen, .matched => [.add]
  | .pending, .failed => [.subtract]
  | _, _ => []

/-- The phase after a list of statuses. -/
def Phase.run (ph : Phase) (sts : List TradeState) : Phase := sts.foldl Phase.next ph

/-- What a list of statuses moves. -/
def Phase.moves : Phase → List TradeState → List Move
  | _, [] => []
  | ph, st :: sts => ph.move st ++ (ph.next st).moves sts

theorem Phase.moves_append (ph : Phase) (xs ys : List TradeState) :
    ph.moves (xs ++ ys) = ph.moves xs ++ (ph.run xs).moves ys := by
  induction xs generalizing ph with
  | nil => rfl
  | cons st xs ih => simp [Phase.moves, Phase.run, ih, List.append_assoc]

/-- Settled and reversed are final. -/
def Phase.Final (ph : Phase) : Prop := ph = .settled ∨ ph = .reversed

theorem Phase.next_of_final {ph : Phase} (h : ph.Final) (st : TradeState) : ph.next st = ph := by
  rcases h with rfl | rfl <;> cases st <;> rfl

theorem Phase.moves_of_final {ph : Phase} (h : ph.Final) (sts : List TradeState) :
    ph.moves sts = [] := by
  induction sts with
  | nil => rfl
  | cons st sts ih =>
    have hm : ph.move st = [] := by rcases h with rfl | rfl <;> cases st <;> rfl
    rw [Phase.moves, hm, Phase.next_of_final h, ih, List.append_nil]

theorem Phase.moves_pending (sts : List TradeState) :
    Phase.pending.moves sts <+: [Move.subtract] := by
  induction sts with
  | nil => exact List.nil_prefix
  | cons st sts ih =>
    cases st with
    | matched => exact ih
    | mined => exact ih
    | retrying => exact ih
    | confirmed => rw [show Phase.pending.moves (.confirmed :: sts) = Phase.settled.moves sts from rfl,
        Phase.moves_of_final (.inl rfl)]; exact List.nil_prefix
    | failed => rw [show Phase.pending.moves (.failed :: sts) = .subtract :: Phase.reversed.moves sts
        from rfl, Phase.moves_of_final (.inr rfl)]

/-- **A trade moves inventory at most twice**: once in, and then at most once out. -/
theorem Phase.moves_unseen (sts : List TradeState) :
    Phase.unseen.moves sts <+: [Move.add, Move.subtract] := by
  induction sts with
  | nil => exact List.nil_prefix
  | cons st sts ih =>
    cases st with
    | matched => exact (List.prefix_cons_inj _).2 (Phase.moves_pending sts)
    | mined => exact ih
    | retrying => exact ih
    | confirmed => exact ih
    | failed => exact ih

theorem Phase.moves_unseen_cases (sts : List TradeState) :
    Phase.unseen.moves sts = [] ∨ Phase.unseen.moves sts = [.add] ∨
      Phase.unseen.moves sts = [.add, .subtract] := by
  rcases List.prefix_cons_iff.1 (Phase.moves_unseen sts) with h | ⟨ms, h, hms⟩
  · exact .inl h
  · rcases List.prefix_cons_iff.1 hms with rfl | ⟨ms, rfl, -⟩
    · exact .inr (.inl h)
    · obtain rfl := List.prefix_nil.1 ((List.prefix_cons_inj _).1 hms)
      exact .inr (.inr h)

theorem Phase.run_ne_unseen {ph : Phase} (h : ph ≠ .unseen) (sts : List TradeState) :
    ph.run sts ≠ .unseen := by
  induction sts generalizing ph with
  | nil => exact h
  | cons st sts ih =>
    refine ih ?_
    cases ph <;> cases st <;> simp_all [Phase.next]

theorem Phase.run_of_matched {ph : Phase} {sts : List TradeState} (h : TradeState.matched ∈ sts) :
    ph.run sts ≠ .unseen := by
  induction sts generalizing ph with
  | nil => simp at h
  | cons st sts ih =>
    rcases List.mem_cons.1 h with rfl | h
    · exact Phase.run_ne_unseen (by cases ph <;> simp [Phase.next]) sts
    · exact ih h

/-- A confirmation of a trade that was matched before is final. -/
theorem Phase.final_of_matched_confirmed {sts : List TradeState} (h : TradeState.matched ∈ sts) :
    (Phase.unseen.run (sts ++ [.confirmed])).Final := by
  have hne : Phase.unseen.run sts ≠ .unseen := Phase.run_of_matched h
  unfold Phase.run at hne ⊢
  rw [List.foldl_append]
  cases hph : sts.foldl Phase.next .unseen with
  | unseen => exact absurd hph hne
  | pending => exact .inl rfl
  | settled => exact .inl rfl
  | reversed => exact .inr rfl

end Polymaker
