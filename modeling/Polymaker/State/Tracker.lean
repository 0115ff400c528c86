import Polymaker.Lib.Mirror
import Polymaker.State.Store

/-!
# User-stream events over the store

`UserEventProcessor.on_trade` and `on_order` of `state/tracker.py`.  What a call of `on_trade` does
beside changing the state is recorded as a list of effects:

* `Effect.fill f`: `apply_fill` let `f` through, so the position of its token moved;
* `Effect.onFill f`: the `on_fill` callback was called with `f`.

`onTrade_cases` lists everything a call can do, with the guards under which it does it; the proofs
about runs use it and do not unfold `onTrade`.
-/

namespace Polymaker

/-- A normalized trade event of the user stream, its numbers being floats of the host. -/
structure TradeEvent (F : Type := ℚ) where
  tokenId : TokenId
  ourSide : Side
  price : F
  size : F
  tradeId : TradeId
  status : TradeState
  ts : F
  deriving DecidableEq, Repr

/-- A normalized order event of the user stream. -/
structure OrderEvent (F : Type := ℚ) where
  orderId : OrderId
  tokenId : TokenId
  side : Side
  price : F
  remainingSize : F
  isCancel : Bool
  deriving DecidableEq, Repr

/-- The fill a match is applied as. -/
def TradeEvent.fill (ev : TradeEvent) : Fill :=
  ⟨ev.tokenId, ev.ourSide, ev.price, ev.size, ev.tradeId, ev.ts, true⟩

@[simp] theorem TradeEvent.fill_tradeId (ev : TradeEvent) : ev.fill.tradeId = ev.tradeId := rfl

@[simp] theorem TradeEvent.fill_tokenId (ev : TradeEvent) : ev.fill.tokenId = ev.tokenId := rfl

/-- A match is recorded as a row that reads back as the same fill. -/
@[simp] theorem TradeEvent.fill_row_fill (ev : TradeEvent) :
    ev.fill.row.fill ev.tradeId = ev.fill := rfl

/-- An effect of a call other than its change of the processor's own state. -/
inductive Effect
  | fill (f : Fill)
  | onFill (f : Fill)
  deriving DecidableEq, Repr

/-- The fills that moved inventory. -/
def fillsOf (effs : List Effect) : List Fill :=
  effs.filterMap fun
    | .fill f => some f
    | .onFill _ => none

@[simp] theorem fillsOf_nil : fillsOf [] = [] := rfl

@[simp] theorem fillsOf_fill (f : Fill) (effs : List Effect) :
    fillsOf (.fill f :: effs) = f :: fillsOf effs := rfl

@[simp] theorem fillsOf_onFill (f : Fill) (effs : List Effect) :
    fillsOf (.onFill f :: effs) = fillsOf effs := rfl

/-- A trade event at the local time `now`. -/
structure TimedEvent where
  ev : TradeEvent
  now : ℚ
  deriving DecidableEq

/-- The processor: the store, and the fills applied in this process and not settled yet. -/
structure UserEventProcessor where
  store : StateStore
  applied : Dict TradeId Fill
  deriving DecidableEq

/-- A process started on a database. -/
def UserEventProcessor.start (db : Db) : UserEventProcessor := ⟨StateStore.open db, Dict.empty⟩

/-- `_reverse_fill` and `_reverse_effects`: undo a fill applied in this process. -/
def UserEventProcessor.reverseFill (p : UserEventProcessor) (prior : Fill) (ev : TradeEvent) :
    UserEventProcessor × List Effect :=
  match p.store.applyFill prior.reversed with
  | (s, true) =>
    ({ p with store := s.clearInflight ev.tokenId },
      [.fill prior.reversed, .onFill prior.reversed])
  | (s, false) => ({ p with store := s }, [])

/-- `on_trade` at local time `now`. -/
def UserEventProcessor.onTrade (p : UserEventProcessor) (ev : TradeEvent) (now : ℚ) :
    UserEventProcessor × List Effect :=
  match ev.status with
  | .matched =>
    if ev.tradeId ∈ p.applied then (p, [])
    else
      match p.store.applyFill ev.fill with
      | (_, false) => (p, [])
      | (s, true) =>
        (⟨s.markInflight ev.tokenId now, p.applied.set ev.tradeId ev.fill⟩,
          [.fill ev.fill, .onFill ev.fill])
  | .confirmed =>
    let s :=
      if ev.tradeId ∈ p.applied ∨ 0 < p.store.inflight ev.tokenId then
        p.store.clearInflight ev.tokenId
      else p.store
    (⟨s.markFillSettled ev.tradeId, p.applied.erase ev.tradeId⟩, [])
  | .mined => (p, [])
  | .retrying => (p, [])
  | .failed =>
    match p.applied.get? ev.tradeId with
    | some prior =>
      UserEventProcessor.reverseFill { p with applied := p.applied.erase ev.tradeId } prior ev
    | none =>
      match p.store.reverseFill ev.tradeId with
      | (s, some undone) =>
        ({ p with store := s.clearInflight ev.tokenId }, [.fill undone.reversed])
      | (s, none) => ({ p with store := s.clearInflight ev.tokenId }, [])

/-- `on_order` at local time `now`: a cancelled or exhausted order leaves, any other is tracked as
live with what remains of it. -/
def UserEventProcessor.onOrder (p : UserEventProcessor) (ev : OrderEvent) (now : ℚ) :
    UserEventProcessor :=
  if ev.isCancel ∨ ev.remainingSize ≤ 0 then { p with store := p.store.removeOrder ev.orderId }
  else
    { p with
      store := p.store.upsertOrder
        ⟨ev.orderId, ev.tokenId, ev.side, ev.price, ev.remainingSize, .live, now⟩ }

/-- A cancellation removes the order. -/
theorem onOrder_of_cancel (p : UserEventProcessor) {ev : OrderEvent} (h : ev.isCancel) (now : ℚ) :
    (p.onOrder ev now).store = p.store.removeOrder ev.orderId := by
  unfold UserEventProcessor.onOrder
  rw [if_pos (.inl h)]

/-! ### What the store operations leave alone -/

section Frames

variable (s : StateStore) (f : Fill) (t : TradeId) (tok : TokenId) (now : ℚ)

@[simp] theorem recordFill_fills : (s.recordFill f).db.fills = s.db.fills.set f.tradeId f.row := rfl

@[simp] theorem recordFill_position (k : TokenId) :
    (s.recordFill f).position k =
      if k = f.tokenId then (s.position f.tokenId).apply f else s.position k := by
  simp [StateStore.recordFill, StateStore.moveInventory, StateStore.position]

theorem recordFill_size (k : TokenId) :
    ((s.recordFill f).position k).size =
      if k = f.tokenId then max 0 ((s.position k).size + f.signed) else (s.position k).size := by
  rw [recordFill_position]
  split_ifs with hk
  · rw [hk, Position.apply_size]
  · rfl

@[simp] theorem recordFill_inflight (k : TokenId) : (s.recordFill f).inflight k = s.inflight k := rfl

@[simp] theorem markInflight_db : (s.markInflight tok now).db = s.db := rfl

@[simp] theorem markInflight_inflight (k : TokenId) :
    (s.markInflight tok now).inflight k =
      if k = tok then s.inflight tok + 1 else s.inflight k := by
  simp [StateStore.markInflight, StateStore.inflight]

@[simp] theorem clearInflight_inflight (k : TokenId) :
    (s.clearInflight tok).inflight k = if k = tok then s.inflight tok - 1 else s.inflight k := by
  unfold StateStore.clearInflight
  by_cases h : 0 < s.inflight tok
  · rw [if_pos h]
    exact Dict.getD_set _ _ _ _ _
  · have h0 : s.inflight tok = 0 := by omega
    simp only [if_neg h]
    show s.inflight k = _
    split_ifs with hk
    · rw [hk, h0]
    · rfl

/-- A guard that may be released leaves the database. -/
@[simp] theorem ite_clearInflight_db {c : Prop} [Decidable c] :
    (if c then s.clearInflight tok else s).db = s.db := by
  split_ifs <;> rfl

/-- A guard that may be released leaves the positions. -/
@[simp] theorem ite_clearInflight_position {c : Prop} [Decidable c] (k : TokenId) :
    (if c then s.clearInflight tok else s).position k = s.position k := by
  split_ifs <;> rfl

@[simp] theorem markFillSettled_positions :
    (s.markFillSettled t).db.positions = s.db.positions := by
  unfold StateStore.markFillSettled
  split <;> rfl

@[simp] theorem markFillSettled_position (k : TokenId) :
    (s.markFillSettled t).position k = s.position k := by
  unfold StateStore.markFillSettled
  split <;> rfl

@[simp] theorem markFillSettled_inflight (k : TokenId) :
    (s.markFillSettled t).inflight k = s.inflight k := by
  unfold StateStore.markFillSettled
  split <;> rfl

/-- Settling changes one row, and only its status. -/
theorem markFillSettled_get? (u : TradeId) :
    (s.markFillSettled t).db.fills.get? u =
      if u = t then (s.db.fills.get? t).map fun r => { r with status := .confirmed }
      else s.db.fills.get? u := by
  unfold StateStore.markFillSettled
  cases h : s.db.fills.get? t with
  | none =>
    split_ifs with hu
    · rw [hu, h]; rfl
    · rfl
  | some r => simp

@[simp] theorem mem_markFillSettled (u : TradeId) :
    u ∈ (s.markFillSettled t).db.fills ↔ u ∈ s.db.fills := by
  rw [Dict.mem_iff_isSome, markFillSettled_get?, Dict.mem_iff_isSome]
  split_ifs with hu
  · rw [hu, Option.isSome_map]
  · rfl

end Frames

/-! ### What a restart reads back -/

theorem open_position (db : Db) (tok : TokenId) :
    (StateStore.open db).position tok =
      ((db.positions.get? tok).filter fun pos => decide (0 < pos.size)).getD Position.flat := by
  simp [StateStore.open, StateStore.position, Dict.getD]

/-- The positions in memory and on disk. -/
def StateStore.mirror (s : StateStore) : Mirror TokenId Position := ⟨s.positions, s.db.positions⟩

/-- A row that `_load` reads. -/
def held (pos : Position) : Bool := decide (0 < pos.size)

section Mirrors

variable {s : StateStore} {f : Fill}

theorem recordFill_mirror :
    (s.recordFill f).mirror = s.mirror.write f.tokenId ((s.position f.tokenId).apply f) := by
  have hpos : (StateStore.moveInventory { s with db := s.db.insertFill f } f).position f.tokenId =
      (s.position f.tokenId).apply f := by
    show (s.positions.set _ _).getD _ _ = _
    rw [Dict.getD_set, if_pos rfl]; rfl
  show Mirror.mk (s.positions.set _ _) (s.db.positions.replace _ _) = _
  rw [hpos]; rfl

/-- What a fill leaves is held, or flat without a price. -/
theorem held_apply (pos : Position) (f : Fill) :
    held (pos.apply f) ∨ pos.apply f = Position.flat := by
  by_cases h : 0 < (pos.apply f).size
  · exact .inl (decide_eq_true h)
  · exact .inr (Position.apply_eq_flat (not_lt.1 h))

/-- What `_persist_position` writes is what `_load` reads: a flat position loses only a row. -/
theorem open_recordFill_position (s : StateStore) (f : Fill) (tok : TokenId) :
    (StateStore.open (s.recordFill f).db).position tok =
      if tok = f.tokenId then (s.position f.tokenId).apply f
      else (StateStore.open s.db).position tok := by
  show ((s.recordFill f).mirror.reload held).view Position.flat tok = _
  rw [recordFill_mirror, Mirror.view_reload_write (held_apply _ f)]; rfl

end Mirrors

/-! ### The call by cases -/

theorem applyFill_of_mem {s : StateStore} {f : Fill} (h : f.tradeId ∈ s.db.fills) :
    s.applyFill f = (s, false) := if_pos h

theorem applyFill_of_not_mem {s : StateStore} {f : Fill} (h : f.tradeId ∉ s.db.fills) :
    s.applyFill f = (s.recordFill f, true) := if_neg h

/-- `reverse_fill` acts exactly on an unsettled row without a recorded reversal. -/
theorem storeReverseFill_cases (s : StateStore) (t : TradeId) :
    (∃ r, s.db.fills.get? t = some r ∧ r.status = .matched ∧ reverseId t ∉ s.db.fills ∧
      s.reverseFill t = (s.recordFill (r.fill t).reversed, some (r.fill t))) ∨
    ((∀ r, s.db.fills.get? t = some r → r.status = .matched → reverseId t ∈ s.db.fills) ∧
      s.reverseFill t = (s, none)) := by
  unfold StateStore.reverseFill
  by_cases hrev : reverseId t ∈ s.db.fills
  · exact .inr ⟨fun _ _ _ => hrev, if_pos hrev⟩
  · rw [if_neg hrev]
    cases hr : s.db.fills.get? t with
    | none => exact .inr ⟨fun _ h => by simp at h, rfl⟩
    | some r =>
      cases hst : r.status with
      | confirmed =>
        refine .inr ⟨fun r' h h' => ?_, by simp only [hst]⟩
        rw [← Option.some.inj h, hst] at h'
        exact absurd h' (by decide)
      | matched =>
        refine .inl ⟨r, rfl, hst, hrev, ?_⟩
        simp only [hst, applyFill_of_not_mem (f := (r.fill t).reversed) hrev]

/-- Everything a call of `on_trade` can do. -/
inductive OnTradeCase (p : UserEventProcessor) (ev : TradeEvent) (now : ℚ) :
    UserEventProcessor × List Effect → Prop
  /-- A status that changes nothing, or a match already counted. -/
  | idle (h : ev.status = .mined ∨ ev.status = .retrying ∨
        ev.status = .matched ∧ (ev.tradeId ∈ p.applied ∨ ev.tradeId ∈ p.store.db.fills)) :
      OnTradeCase p ev now (p, [])
  /-- A new match: inventory moves, the guard is set, the fill is remembered and reported. -/
  | applied (hst : ev.status = .matched) (happ : ev.tradeId ∉ p.applied)
      (hnew : ev.tradeId ∉ p.store.db.fills) :
      OnTradeCase p ev now
        (⟨(p.store.recordFill ev.fill).markInflight ev.tokenId now,
          p.applied.set ev.tradeId ev.fill⟩, [.fill ev.fill, .onFill ev.fill])
  /-- A confirmation. -/
  | confirmed (hst : ev.status = .confirmed) :
      OnTradeCase p ev now
        (⟨(if ev.tradeId ∈ p.applied ∨ 0 < p.store.inflight ev.tokenId then
            p.store.clearInflight ev.tokenId else p.store).markFillSettled ev.tradeId,
          p.applied.erase ev.tradeId⟩, [])
  /-- The failure of a fill applied in this process: inventory and cash are undone. -/
  | undone (prior : Fill) (hst : ev.status = .failed) (happ : p.applied.get? ev.tradeId = some prior)
      (hnew : reverseId prior.tradeId ∉ p.store.db.fills) :
      OnTradeCase p ev now
        (⟨(p.store.recordFill prior.reversed).clearInflight ev.tokenId, p.applied.erase ev.tradeId⟩,
          [.fill prior.reversed, .onFill prior.reversed])
  /-- The failure of a fill applied in this process whose reversal id is taken. -/
  | blocked (prior : Fill) (hst : ev.status = .failed)
      (happ : p.applied.get? ev.tradeId = some prior)
      (hold : reverseId prior.tradeId ∈ p.store.db.fills) :
      OnTradeCase p ev now (⟨p.store, p.applied.erase ev.tradeId⟩, [])
  /-- The failure of an unsettled fill of an earlier process: inventory is undone. -/
  | undoneRow (r : FillRow) (hst : ev.status = .failed) (happ : ev.tradeId ∉ p.applied)
      (hrow : p.store.db.fills.get? ev.tradeId = some r) (hrs : r.status = .matched)
      (hnew : reverseId ev.tradeId ∉ p.store.db.fills) :
      OnTradeCase p ev now
        (⟨(p.store.recordFill (r.fill ev.tradeId).reversed).clearInflight ev.tokenId, p.applied⟩,
          [.fill (r.fill ev.tradeId).reversed])
  /-- The failure of a trade with nothing to undo. -/
  | released (hst : ev.status = .failed) (happ : ev.tradeId ∉ p.applied)
      (hrow : ∀ r, p.store.db.fills.get? ev.tradeId = some r → r.status = .matched →
        reverseId ev.tradeId ∈ p.store.db.fills) :
      OnTradeCase p ev now (⟨p.store.clearInflight ev.tokenId, p.applied⟩, [])

theorem onTrade_cases (p : UserEventProcessor) (ev : TradeEvent) (now : ℚ) :
    OnTradeCase p ev now (p.onTrade ev now) := by
  unfold UserEventProcessor.onTrade
  cases hst : ev.status with
  | mined => exact .idle (.inl hst)
  | retrying => exact .idle (.inr (.inl hst))
  | confirmed => exact .confirmed hst
  | matched =>
    by_cases happ : ev.tradeId ∈ p.applied
    · simp only [if_pos happ]
      exact .idle (.inr (.inr ⟨hst, .inl happ⟩))
    · by_cases hnew : ev.tradeId ∈ p.store.db.fills
      · simp only [if_neg happ, applyFill_of_mem (f := ev.fill) hnew]
        exact .idle (.inr (.inr ⟨hst, .inr hnew⟩))
      · simp only [if_neg happ, applyFill_of_not_mem (f := ev.fill) hnew]
        exact .applied hst happ hnew
  | failed =>
    cases happ : p.applied.get? ev.tradeId with
    | some prior =>
      by_cases hnew : reverseId prior.tradeId ∈ p.store.db.fills
      · simp only [UserEventProcessor.reverseFill, applyFill_of_mem (f := prior.reversed) hnew]
        exact .blocked prior hst happ hnew
      · simp only [UserEventProcessor.reverseFill, applyFill_of_not_mem (f := prior.reversed) hnew]
        exact .undone prior hst happ hnew
    | none =>
      have happ' := Dict.get?_eq_none_iff.1 happ
      obtain ⟨r, hrow, hrs, hnew, heq⟩ | ⟨hrow, heq⟩ := storeReverseFill_cases p.store ev.tradeId
      · simp only [heq]
        exact .undoneRow r hst happ' hrow hrs hnew
      · simp only [heq]
        exact .released hst happ' hrow

/-- The cases determine the call. -/
theorem onTrade_eq_of_case {p : UserEventProcessor} {ev : TradeEvent} (now : ℚ)
    {out : UserEventProcessor × List Effect} (h : OnTradeCase p ev now out) :
    p.onTrade ev now = out := by
  unfold UserEventProcessor.onTrade
  cases h with
  | idle h =>
    rcases h with hst | hst | ⟨hst, happ | hold⟩
    · simp only [hst]
    · simp only [hst]
    · simp only [hst, if_pos happ]
    · simp only [hst, applyFill_of_mem (f := ev.fill) hold]
      split_ifs <;> rfl
  | applied hst happ hnew =>
    simp only [hst, if_neg happ, applyFill_of_not_mem (f := ev.fill) hnew]
  | confirmed hst => simp only [hst]
  | undone prior hst happ hnew =>
    simp only [hst, happ, UserEventProcessor.reverseFill,
      applyFill_of_not_mem (f := prior.reversed) hnew]
  | blocked prior hst happ hold =>
    simp only [hst, happ, UserEventProcessor.reverseFill,
      applyFill_of_mem (f := prior.reversed) hold]
  | undoneRow r hst happ hrow hrs hnew =>
    have hrev : p.store.reverseFill ev.tradeId =
        (p.store.recordFill (r.fill ev.tradeId).reversed, some (r.fill ev.tradeId)) := by
      unfold StateStore.reverseFill
      simp only [if_neg hnew, hrow, hrs, applyFill_of_not_mem (f := (r.fill ev.tradeId).reversed) hnew]
    simp only [hst, Dict.get?_eq_none_iff.2 happ, hrev]
  | released hst happ hrow =>
    obtain ⟨r, hr, hrs, hnew, -⟩ | ⟨-, hrev⟩ := storeReverseFill_cases p.store ev.tradeId
    · exact absurd (hrow r hr hrs) hnew
    · simp only [hst, Dict.get?_eq_none_iff.2 happ, hrev]

/-! ### The fill an event applies -/

/-- The fill an event lets through, read off the state it arrives in. -/
def UserEventProcessor.pendingFill (p : UserEventProcessor) (ev : TradeEvent) : Option Fill :=
  match ev.status with
  | .matched =>
    if ev.tradeId ∈ p.applied ∨ ev.tradeId ∈ p.store.db.fills then none else some ev.fill
  | .failed =>
    match p.applied.get? ev.tradeId with
    | some prior =>
      if reverseId prior.tradeId ∈ p.store.db.fills then none else some prior.reversed
    | none =>
      match p.store.db.fills.get? ev.tradeId with
      | some r =>
        if r.status = .matched ∧ reverseId ev.tradeId ∉ p.store.db.fills then
          some (r.fill ev.tradeId).reversed
        else none
      | none => none
  | _ => none

theorem fillsOf_onTrade (p : UserEventProcessor) (ev : TradeEvent) (now : ℚ) :
    fillsOf (p.onTrade ev now).2 = (p.pendingFill ev).toList := by
  have hcase := onTrade_cases p ev now
  unfold UserEventProcessor.pendingFill
  generalize p.onTrade ev now = out at hcase ⊢
  cases hcase with
  | idle h =>
    rcases h with hst | hst | ⟨hst, hold⟩
    · simp [hst]
    · simp [hst]
    · simp [hst, hold]
  | applied hst happ hnew => simp [hst, happ, hnew]
  | confirmed hst => simp [hst]
  | undone prior hst happ hnew => simp [hst, happ, hnew]
  | blocked prior hst happ hold => simp [hst, happ, hold]
  | undoneRow r hst happ hrow hrs hnew =>
    simp [hst, Dict.get?_eq_none_iff.2 happ, hrow, hrs, hnew]
  | released hst happ hrow =>
    cases hr : p.store.db.fills.get? ev.tradeId with
    | none => simp [hst, Dict.get?_eq_none_iff.2 happ]
    | some r =>
      have hno : ¬ (r.status = .matched ∧ reverseId ev.tradeId ∉ p.store.db.fills) := fun h =>
        h.2 (hrow r hr h.1)
      simp [hst, Dict.get?_eq_none_iff.2 happ, hno]

/-- A call moves positions as the fill it lets through does. -/
theorem onTrade_position (p : UserEventProcessor) (ev : TradeEvent) (now : ℚ) (tok : TokenId) :
    (p.onTrade ev now).1.store.position tok =
      match p.pendingFill ev with
      | none => p.store.position tok
      | some g => (p.store.recordFill g).position tok := by
  have hcase := onTrade_cases p ev now
  have hfills := fillsOf_onTrade p ev now
  generalize p.onTrade ev now = out at hcase hfills ⊢
  cases hcase with
  | idle => rw [Option.toList_eq_nil_iff.1 hfills.symm]
  | applied => rw [Option.toList_eq_singleton_iff.1 hfills.symm]; rfl
  | confirmed =>
    rw [Option.toList_eq_nil_iff.1 hfills.symm, markFillSettled_position]
    split_ifs <;> rfl
  | undone => rw [Option.toList_eq_singleton_iff.1 hfills.symm]; rfl
  | blocked => rw [Option.toList_eq_nil_iff.1 hfills.symm]
  | undoneRow => rw [Option.toList_eq_singleton_iff.1 hfills.symm]; rfl
  | released => rw [Option.toList_eq_nil_iff.1 hfills.symm]; rfl

/-! ### Replay -/

/-- The position of a token after the fills of a log, from a starting position of each token. -/
def replay (start : TokenId → Position) (log : List Fill) (tok : TokenId) : Position :=
  (log.filter fun f => decide (f.tokenId = tok)).foldl Position.apply (start tok)

@[simp] theorem replay_nil (start : TokenId → Position) (tok : TokenId) :
    replay start [] tok = start tok := rfl

theorem replay_concat (start : TokenId → Position) (log : List Fill) (f : Fill) (tok : TokenId) :
    replay start (log ++ [f]) tok =
      if tok = f.tokenId then (replay start log f.tokenId).apply f else replay start log tok := by
  unfold replay
  rw [List.filter_append, List.foldl_append]
  by_cases h : tok = f.tokenId
  · subst h; simp
  · simp [h, Ne.symm h]

end Polymaker
