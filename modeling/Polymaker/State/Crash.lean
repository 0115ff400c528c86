import Polymaker.State.Tracker

/-!
# Crashes inside `apply_fill`

`apply_fill` commits twice: the row of the fill, and then the position.  A crash leaves the database
as the commits that were made before it left it, and the fill is delivered again to the process
that reopens it.

* `applyFillCommits`: the database after each commit of a call;
* `durable s f n`: what a crash after `n` commits leaves;
* `crash_atomic_iff`: the second delivery restores the positions of an uninterrupted call, unless
  the crash came between the commits and the fill moves the position of its token.
-/

namespace Polymaker

/-- The database after each commit of `apply_fill`. -/
def StateStore.applyFillCommits (s : StateStore) (f : Fill) : List Db :=
  if f.tradeId ∈ s.db.fills then [s.db] else [s.db.insertFill f, (s.recordFill f).db]

/-- What a crash after `n` commits of `apply_fill` leaves. -/
def StateStore.durable (s : StateStore) (f : Fill) (n : ℕ) : Db :=
  ((s.applyFillCommits f).take n).getLastD s.db

/-- The positions after a crash after `n` commits, a reopening, and a second delivery. -/
def StateStore.recovered (s : StateStore) (f : Fill) (n : ℕ) (tok : TokenId) : Position :=
  ((StateStore.open (s.durable f n)).applyFill f).1.position tok

section Commits

variable {s : StateStore} {f : Fill}

/-- The last commit is the database of the uninterrupted call. -/
theorem durable_of_length_le {n : ℕ} (h : (s.applyFillCommits f).length ≤ n) :
    s.durable f n = (s.applyFill f).1.db := by
  unfold StateStore.durable
  rw [List.take_of_length_le h, StateStore.applyFillCommits, StateStore.applyFill]
  split_ifs <;> rfl

theorem durable_zero : s.durable f 0 = s.db := rfl

theorem durable_one (hnew : f.tradeId ∉ s.db.fills) : s.durable f 1 = s.db.insertFill f := by
  unfold StateStore.durable StateStore.applyFillCommits
  rw [if_neg hnew]; rfl

theorem durable_of_two_le (hnew : f.tradeId ∉ s.db.fills) {n : ℕ} (hn : 2 ≤ n) :
    s.durable f n = (s.recordFill f).db := by
  have hlen : (s.applyFillCommits f).length = 2 := by
    unfold StateStore.applyFillCommits
    rw [if_neg hnew]; rfl
  rw [durable_of_length_le (by omega), applyFill_of_not_mem hnew]

end Commits

/-! ### When a fill does not move a position -/

/-- A position as `_load` builds it or `apply_fill` leaves it: held, or flat. -/
theorem open_position_flat_or_pos (db : Db) (tok : TokenId) :
    (StateStore.open db).position tok = Position.flat ∨
      0 < ((StateStore.open db).position tok).size := by
  rw [open_position]
  cases hrow : db.positions.get? tok with
  | none => exact .inl rfl
  | some pos =>
    by_cases hpos : 0 < pos.size
    · rw [Option.filter_some_pos (by simpa using hpos)]
      exact .inr hpos
    · rw [Option.filter_some_neg (by simpa using hpos)]
      exact .inl rfl

/-- A fill leaves a held position only when its size is zero. -/
theorem apply_eq_self_of_pos {pos : Position} {f : Fill} (hpos : 0 < pos.size) :
    pos.apply f = pos ↔ f.size = 0 := by
  constructor
  · intro h
    have hsize : max 0 (pos.size + f.signed) = pos.size := congrArg Position.size h
    rcases max_choice 0 (pos.size + f.signed) with hm | hm <;> rw [hm] at hsize
    · exact absurd hsize hpos.ne
    · have h0 : f.signed = 0 := by linarith
      unfold Fill.signed at h0
      cases hside : f.side <;> simp only [hside] at h0
      · exact h0
      · exact neg_eq_zero.1 h0
  · intro h
    have hne : pos.size ≠ 0 := hpos.ne'
    have hsigned : f.signed = 0 := by
      unfold Fill.signed
      cases f.side <;> simp [h]
    have hmax : max 0 (pos.size + f.signed) = pos.size := by
      rw [hsigned, add_zero, max_eq_right hpos.le]
    unfold Position.apply
    cases f.side <;> simp [hmax, h, hne, not_le.2 hpos]

/-- A fill leaves a flat position when it does not add to it. -/
theorem apply_flat_eq_flat {f : Fill} : Position.flat.apply f = Position.flat ↔ f.signed ≤ 0 := by
  constructor
  · intro h
    have hsize : max 0 (0 + f.signed) = 0 := congrArg Position.size h
    rw [zero_add] at hsize
    exact max_eq_left_iff.1 hsize
  · intro h
    refine Position.apply_eq_flat ?_
    rw [Position.apply_size, show Position.flat.size = 0 from rfl, zero_add, max_eq_left h]

/-- The fill does not move the position of its token: it has no size, or it takes from nothing. -/
def Immaterial (pos : Position) (f : Fill) : Prop :=
  f.size = 0 ∨ pos.size = 0 ∧ f.signed ≤ 0

theorem apply_eq_self_iff {pos : Position} (hpos : pos = Position.flat ∨ 0 < pos.size) (f : Fill) :
    pos.apply f = pos ↔ Immaterial pos f := by
  unfold Immaterial
  rcases hpos with rfl | hpos
  · rw [apply_flat_eq_flat]
    have hzero : f.size = 0 → f.signed ≤ 0 := by
      intro h
      unfold Fill.signed
      cases f.side <;> simp [h]
    constructor
    · exact fun h => .inr ⟨rfl, h⟩
    · rintro (h | ⟨-, h⟩)
      · exact hzero h
      · exact h
  · rw [apply_eq_self_of_pos hpos]
    constructor
    · exact .inl
    · rintro (h | ⟨h, -⟩)
      · exact h
      · exact absurd h hpos.ne'

/-! ### Recovery -/

/-- **When `apply_fill` is crash-atomic.**  For a database and a fill whose trade id is new, a crash
after `n` commits, a reopening and a second delivery give the positions of an uninterrupted call if
and only if the crash did not come between the two commits, or the fill does not move its
position. -/
theorem crash_atomic_iff (db : Db) (f : Fill) (hnew : f.tradeId ∉ db.fills) (n : ℕ) :
    (∀ tok, (StateStore.open db).recovered f n tok =
      ((StateStore.open db).applyFill f).1.position tok) ↔
    n ≠ 1 ∨ Immaterial ((StateStore.open db).position f.tokenId) f := by
  set s := StateStore.open db with hs
  have hnew' : f.tradeId ∉ s.db.fills := hnew
  rw [applyFill_of_not_mem hnew']
  rcases Nat.lt_trichotomy n 1 with hn | rfl | hn
  · -- nothing was committed: the second delivery is the first one
    obtain rfl : n = 0 := by omega
    refine iff_of_true (fun tok => ?_) (.inl (by decide))
    rw [StateStore.recovered, durable_zero]
    exact congrArg (fun out => out.1.position tok) (applyFill_of_not_mem hnew')
  · -- the row is there and the position is not: the second delivery is a duplicate
    have hdup : f.tradeId ∈ (StateStore.open (s.durable f 1)).db.fills := by
      rw [durable_one hnew']
      exact Dict.mem_set.2 (.inl rfl)
    have hrec : ∀ tok, s.recovered f 1 tok = s.position tok := by
      intro tok
      rw [StateStore.recovered, applyFill_of_mem hdup, durable_one hnew', hs, open_position,
        open_position]
      rfl
    simp only [hrec, recordFill_position, ne_eq, not_true_eq_false, false_or]
    rw [← apply_eq_self_iff (open_position_flat_or_pos db f.tokenId)]
    constructor
    · intro h
      have htok := h f.tokenId
      rw [if_pos rfl] at htok
      exact htok.symm
    · intro h tok
      split_ifs with htok
      · rw [htok]; exact h.symm
      · rfl
  · -- both commits were made: the second delivery is a duplicate of a complete call
    refine iff_of_true (fun tok => ?_) (.inl (by omega))
    have hdup : f.tradeId ∈ (StateStore.open (s.durable f n)).db.fills := by
      rw [durable_of_two_le hnew' hn]
      exact Dict.mem_set.2 (.inl rfl)
    rw [StateStore.recovered, applyFill_of_mem hdup, durable_of_two_le hnew' hn,
      open_recordFill_position, recordFill_position]
    rfl

/-- A first purchase of 100 shares, cut between the commits: after the reopening the fill counts as
a duplicate and no share is held. -/
theorem not_crash_atomic_of_cut_between :
    let f : Fill := ⟨"k", .buy, 1 / 2, 100, "t", 0, true⟩
    f.tradeId ∉ Db.fresh.fills ∧
      ((StateStore.open .fresh).recovered f 1 "k").size = 0 ∧
      (((StateStore.open .fresh).applyFill f).1.position "k").size = 100 := by
  decide +kernel

/-- A sale of a token that is not held survives even a crash between the commits. -/
theorem crash_atomic_of_unheld_sale :
    let f : Fill := ⟨"k", .sell, 1 / 2, 100, "t", 0, true⟩
    (StateStore.open .fresh).recovered f 1 "k" =
      ((StateStore.open .fresh).applyFill f).1.position "k" :=
  (crash_atomic_iff .fresh ⟨"k", .sell, 1 / 2, 100, "t", 0, true⟩ (by decide) 1).2
    (.inr (.inr (by decide +kernel))) "k"

end Polymaker
