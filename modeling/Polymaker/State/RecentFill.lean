import Mathlib.Data.List.Pairwise
import Polymaker.State.PositionFrame
import Polymaker.State.Restart

/-!
# The recent-fill guard

`_guard_blocks` distrusts a read of the exchange for a token while a trade of it is in flight, and
for a while after its last fill.  The store keeps one timestamp for a token, that of the fill it
applied last; a fill that is delivered late and a reversal carry an old one.

* `FillHistory`: the store, and beside it the fills it let through;
* `clocked_run`: the timestamp the store keeps is that of the fill applied last;
* `untouched_iff`: a token that has a recent fill is left alone by every read if and only if a trade
  of it is in flight or the fill applied last is recent.
-/

namespace Polymaker

/-- The store, and the fills it let through since it was opened, oldest first. -/
structure FillHistory where
  store : StateStore
  applied : List Fill

/-- The fill that an operation lets through. -/
def StateStore.appliedBy (s : StateStore) : StoreOp → Option Fill
  | .applyFill f => if f.tradeId ∈ s.db.fills then none else some f
  | .reverseFill t => (s.reverseFill t).2.map Fill.reversed
  | _ => none

namespace FillHistory

/-- The store of a process that was just started. -/
def start (db : Db) : FillHistory := ⟨.open db, []⟩

/-- One operation. -/
def step (h : FillHistory) (op : StoreOp) : FillHistory :=
  ⟨h.store.perform op, h.applied ++ (h.store.appliedBy op).toList⟩

/-- The fill of a token that was applied last, a reversal included. -/
def lastFill (h : FillHistory) (tok : TokenId) : Option Fill :=
  (h.applied.filter fun f => decide (f.tokenId = tok)).getLast?

/-- A fill of the token other than a reversal was applied that is recent at time `now`. -/
def HasRecentFill (h : FillHistory) (tok : TokenId) (now : ℚ) : Prop :=
  ∃ f ∈ h.applied, f.tokenId = tok ∧ ¬ IsReverse f.tradeId ∧ now - f.ts < fillSettleGraceS

/-- No read of the exchange at time `now` changes the position of the token or closes it. -/
def Untouched (h : FillHistory) (tok : TokenId) (now : ℚ) : Prop :=
  ∀ (api : Dict TokenId (ℚ × ℚ)) (authoritative : Bool),
    (h.store.reconcilePositions api authoritative now).1.position tok = h.store.position tok ∧
      tok ∉ (h.store.reconcilePositions api authoritative now).2

/-- The timestamp the store keeps for a token is that of the fill applied last. -/
def Clocked (h : FillHistory) : Prop :=
  ∀ tok, h.store.lastFillTs.get? tok = (h.lastFill tok).map Fill.ts

end FillHistory

/-! ### What the store remembers -/

section Clock

variable {s : StateStore}

theorem reconcilePositions_lastFillTs (api : Dict TokenId (ℚ × ℚ)) (authoritative : Bool)
    (now : ℚ) : (s.reconcilePositions api authoritative now).1.lastFillTs = s.lastFillTs := by
  rw [show (s.reconcilePositions api authoritative now).1 = _ from
    reconcilePositions_others s api authoritative now]

/-- An operation overwrites the timestamp of the token whose fill it lets through. -/
theorem perform_lastFillTs (op : StoreOp) :
    (s.perform op).lastFillTs =
      match s.appliedBy op with
      | none => s.lastFillTs
      | some f => s.lastFillTs.set f.tokenId f.ts := by
  cases op with
  | applyFill f =>
    unfold StateStore.perform StateStore.appliedBy
    by_cases hdup : f.tradeId ∈ s.db.fills
    · simp only [applyFill_of_mem hdup, if_pos hdup]
    · simp only [applyFill_of_not_mem hdup, if_neg hdup]
      rfl
  | reverseFill t =>
    unfold StateStore.perform StateStore.appliedBy
    obtain ⟨r, -, -, -, heq⟩ | ⟨-, heq⟩ := storeReverseFill_cases s t <;> simp only [heq] <;> rfl
  | markFillSettled t =>
    show (s.markFillSettled t).lastFillTs = s.lastFillTs
    unfold StateStore.markFillSettled
    split <;> rfl
  | reconcilePositions api authoritative now =>
    exact reconcilePositions_lastFillTs api authoritative now
  | setPosition tok size avg => rfl
  | forceSetPosition tok size avg => rfl
  | dropUntrackedPositions tracked => rfl
  | markInflight tok now => rfl
  | clearInflight tok => rfl

end Clock

namespace FillHistory

variable {h : FillHistory}

theorem lastFill_step (op : StoreOp) (tok : TokenId) :
    (h.step op).lastFill tok =
      match h.store.appliedBy op with
      | none => h.lastFill tok
      | some f => if tok = f.tokenId then some f else h.lastFill tok := by
  unfold lastFill step
  cases h.store.appliedBy op with
  | none => simp
  | some f =>
    rw [Option.toList_some, List.filter_append]
    by_cases htok : tok = f.tokenId
    · simp [htok]
    · simp [htok, Ne.symm htok]

theorem Clocked.step (hc : h.Clocked) (op : StoreOp) : (h.step op).Clocked := by
  intro tok
  rw [lastFill_step]
  show (h.store.perform op).lastFillTs.get? tok = _
  rw [perform_lastFillTs]
  cases h.store.appliedBy op with
  | none => exact hc tok
  | some f =>
    dsimp only
    rw [Dict.get?_set]
    split_ifs
    · rfl
    · exact hc tok

/-- In every state of a run the store remembers the fill applied last. -/
theorem clocked_run (db : Db) (ops : List StoreOp) :
    (Run.run FillHistory.step (.start db) ops).Clocked :=
  (Run.always_of_step (P := Clocked) (fun _ op hc => hc.step op) (fun _ => rfl) ops).last

/-! ### What the guard protects -/

/-- Reads leave a token alone exactly when the guard protects it. -/
theorem untouched_iff_guardBlocks (tok : TokenId) (now : ℚ) :
    h.Untouched tok now ↔ h.store.guardBlocks tok now := by
  constructor
  · intro hall
    by_contra hguard
    obtain ⟨api, hne⟩ := exists_read_of_not_guardBlocks hguard
    exact hne (hall api false).1
  · intro hguard api authoritative
    exact reconcilePositions_of_guardBlocks hguard api authoritative

/-- The fill of the token that was applied last is recent at time `now`. -/
def LastFillRecent (h : FillHistory) (tok : TokenId) (now : ℚ) : Prop :=
  ∃ f, h.lastFill tok = some f ∧ now - f.ts < fillSettleGraceS

theorem exists_lastFill {f : Fill} {tok : TokenId} (hf : f ∈ h.applied) (htok : f.tokenId = tok) :
    ∃ g, h.lastFill tok = some g := by
  have hmem : f ∈ h.applied.filter fun f => decide (f.tokenId = tok) :=
    List.mem_filter.2 ⟨hf, decide_eq_true htok⟩
  exact ⟨_, List.getLast?_eq_some_getLast (List.ne_nil_of_mem hmem)⟩

/-- Once a fill of the token was applied, the guard looks at the fill applied last. -/
theorem Clocked.guardBlocks_iff (hc : h.Clocked) {tok : TokenId} {now : ℚ}
    (hrecent : h.HasRecentFill tok now) :
    h.store.guardBlocks tok now ↔ 0 < h.store.inflight tok ∨ h.LastFillRecent tok now := by
  obtain ⟨f, hf, htok, -, -⟩ := hrecent
  obtain ⟨g, hg⟩ := exists_lastFill hf htok
  have hts : h.store.lastFillTs.getD tok 0 = g.ts := by
    unfold Dict.getD
    rw [hc tok, hg]; rfl
  unfold StateStore.guardBlocks LastFillRecent
  simp only [hts, hg, Option.some.injEq, exists_eq_left']

/-- **When a recent fill is protected.**  After every run of a store opened on any database, a
recent fill of a token keeps every read of the exchange from changing or closing its position if and
only if, whenever there is such a fill, a trade of the token is in flight or the fill of the token
that was applied last is recent. -/
theorem untouched_iff (db : Db) (ops : List StoreOp) (tok : TokenId) (now : ℚ) :
    let h := Run.run FillHistory.step (.start db) ops
    (h.HasRecentFill tok now → h.Untouched tok now) ↔
      (h.HasRecentFill tok now → 0 < h.store.inflight tok ∨ h.LastFillRecent tok now) := by
  intro h
  refine forall_congr' fun hrecent => ?_
  rw [untouched_iff_guardBlocks, (clocked_run db ops).guardBlocks_iff hrecent]

/-- A purchase of second 100 is followed by the late delivery of a sale of second 80; or by the
failure of a purchase of second 80.  At second 101 an authoritative read that does not list the
token yet closes the position in both histories. -/
theorem not_untouched_of_late_fill :
    let fresh : Fill := ⟨"y", .buy, 1 / 2, 50, "a", 100, true⟩
    let late : Fill := ⟨"y", .sell, 1 / 2, 20, "b", 80, true⟩
    let failing : Fill := ⟨"y", .buy, 1 / 2, 20, "b", 80, true⟩
    let h := Run.run FillHistory.step (.start .fresh) [.applyFill fresh, .applyFill late]
    let h' := Run.run FillHistory.step (.start .fresh)
      [.applyFill failing, .applyFill fresh, .reverseFill "b"]
    (h.HasRecentFill "y" 101 ∧ (h.store.reconcilePositions .empty true 101).2 = ["y"] ∧
      ¬ h.Untouched "y" 101) ∧
    (h'.HasRecentFill "y" 101 ∧ (h'.store.reconcilePositions .empty true 101).2 = ["y"] ∧
      ¬ h'.Untouched "y" 101) := by
  intro fresh late failing h h'
  have hclosed : (h.store.reconcilePositions .empty true 101).2 = ["y"] := by decide +kernel
  have hclosed' : (h'.store.reconcilePositions .empty true 101).2 = ["y"] := by decide +kernel
  have hrecent : 101 - fresh.ts < fillSettleGraceS := by decide +kernel
  refine ⟨⟨⟨fresh, by decide +kernel, rfl, by decide, hrecent⟩, hclosed, fun hun => ?_⟩,
    ⟨fresh, by decide +kernel, rfl, by decide, hrecent⟩, hclosed', fun hun => ?_⟩
  · exact (hun .empty true).2 (by rw [hclosed]; exact List.mem_cons_self)
  · exact (hun .empty true).2 (by rw [hclosed']; exact List.mem_cons_self)

/-- Where the fills of a token are applied in the order of their timestamps, a recent one is
protected. -/
theorem untouched_of_in_order (db : Db) (ops : List StoreOp) (tok : TokenId) (now : ℚ)
    (hord : ((Run.run FillHistory.step (.start db) ops).applied.filter fun f =>
      decide (f.tokenId = tok)).Pairwise fun f g => f.ts ≤ g.ts)
    (hrecent : (Run.run FillHistory.step (.start db) ops).HasRecentFill tok now) :
    (Run.run FillHistory.step (.start db) ops).Untouched tok now := by
  rw [untouched_iff_guardBlocks, (clocked_run db ops).guardBlocks_iff hrecent]
  obtain ⟨f, hf, htok, -, hnow⟩ := hrecent
  have hmem : f ∈ (Run.run FillHistory.step (.start db) ops).applied.filter fun f =>
      decide (f.tokenId = tok) := List.mem_filter.2 ⟨hf, decide_eq_true htok⟩
  have hle := hord.rel_getLast_of_rel_getLast_getLast hmem le_rfl
  exact .inr ⟨_, List.getLast?_eq_some_getLast (List.ne_nil_of_mem hmem), by linarith⟩

end FillHistory

end Polymaker
