import Polymaker.Engine.Divergence
import Polymaker.Engine.Frame
import Polymaker.State.Restart
import Polymaker.Risk.Valuation

/-!
# The running engine

What moves positions, cash and hold clocks once the engine has started: trades of the user stream
with the callback `Engine._on_fill`, reads of the exchange in `_reconcile_loop`, the corrections of
`_check_position_divergence`, and recomputes.

* `Engine.onFill`, `Engine.syncPositionClock`, `Engine.seedPositionClocks`: the callback and the
  hold clocks;
* `LiveEngine`, `LiveEngine.startUp`: the engine beside the tasks it runs, and how it starts;
* `EngineEvent`, `LiveEngine.step`: the steps of all tasks, in any order;
* `trade_position`, `reads_position`, `balances_position`: what a step leaves of a position;
* `trade_risk`, `trade_positionSince`: what a trade does to cash and clocks, from the fill it
  applies and whether the callback sees it.
-/

namespace Polymaker

/-! ### When a position is held -/

theorem apply_size_pos {pos : Position} {g : Fill} :
    0 < (pos.apply g).size ↔ 0 < pos.size + g.signed := by
  rw [Position.apply_size, lt_max_iff]
  exact or_iff_right (lt_irrefl 0)

theorem ofRead_size_pos {size avg : ℚ} : 0 < (Position.ofRead size avg).size ↔ 0 < size := by
  unfold Position.ofRead
  rw [lt_max_iff]
  exact or_iff_right (lt_irrefl 0)

/-! ### The callback -/

/-- `_only_traded`. -/
def Markets.onlyTraded (m : Markets) (read : Dict TokenId (ℚ × ℚ)) : Dict TokenId (ℚ × ℚ) :=
  read.filter fun tok _ => decide (tok ∈ m.tokenCid)

namespace Engine

/-- `_sync_position_clock`, called with a time. -/
def syncPositionClock (e : Engine) (tok : TokenId) (size ts : ℚ) : Engine :=
  { e with
    positionSince :=
      if 0 < size then
        if tok ∈ e.positionSince then e.positionSince else e.positionSince.set tok ts
      else e.positionSince.erase tok }

/-- `_seed_position_clocks` at time `ts`. -/
def seedPositionClocks (e : Engine) (ts : ℚ) : Engine :=
  { e with
    positionSince := e.store.positions.entries.foldl (fun since (tok, pos) =>
      if 0 < pos.size ∧ tok ∉ since then since.set tok ts else since) e.positionSince }

/-- `_on_fill` on cash and the hold clock: a fill of a token that is not traded is ignored, and a
reversal moves no clock. -/
def onFill (e : Engine) (tokenCid : Dict TokenId ConditionId) (f : Fill) : Engine :=
  if f.tokenId ∈ tokenCid then
    let e' := { e with risk := e.risk.noteFill f }
    if IsReverse f.tradeId then e'
    else e'.syncPositionClock f.tokenId (e'.store.position f.tokenId).size f.ts
  else e

/-- The callback, for what a call of `on_trade` reports. -/
def report (e : Engine) (tokenCid : Dict TokenId ConditionId) (effs : List Effect) : Engine :=
  effs.foldl (fun e eff => match eff with
    | .onFill f => e.onFill tokenCid f
    | .fill _ => e) e

end Engine

/-! ### The system -/

/-- The engine, the fills its processor holds, and the versions of the tokens whose balances the
divergence check waits for. -/
structure LiveEngine where
  engine : Engine
  applied : Dict TradeId Fill
  waiting : Option (Dict TokenId Catalog.VersionValue)

namespace LiveEngine

/-- The processor of the user stream. -/
def proc (l : LiveEngine) : UserEventProcessor := ⟨l.engine.store, l.applied⟩

/-- The divergence check. -/
def checkRun (l : LiveEngine) : CheckRun := ⟨l.proc, l.waiting, []⟩

/-- Change the store. -/
def mapStore (l : LiveEngine) (f : StateStore → StateStore) : LiveEngine :=
  { l with engine := l.engine.mapStore f }

/-- Change the risk manager. -/
def mapRisk (l : LiveEngine) (f : RiskManager → RiskManager) : LiveEngine :=
  { l with engine := { l.engine with risk := f l.engine.risk } }

/-- `__init__`, the positions part of `_startup_reconcile` with the read it gets at time `now`, and
the baseline of the day.  Without a read no clock is seeded. -/
def startUp (m : Markets) (execution : ExecutionConfig) (markets : Dict ConditionId Market)
    (cfg : RiskConfig) (db : Db) (read : Option (Dict TokenId (ℚ × ℚ))) (now : ℚ) : LiveEngine :=
  let s := ((StateStore.open db).dropUntrackedPositions m.tokenCid.keys).1
  let e : Engine := ⟨execution, markets, s, .new cfg, Dict.empty⟩
  let started := match read with
    | none => e
    | some read =>
      ({ e with store := (s.reconcilePositions (m.onlyTraded read) false now).1 }
        : Engine).seedPositionClocks now
  ⟨{ started with risk := started.risk.resetDay started.store }, Dict.empty, none⟩

/-- A trade of the user stream at local time `now`. -/
def onTrade (l : LiveEngine) (m : Markets) (ev : TradeEvent) (now : ℚ) : LiveEngine :=
  let out := l.proc.onTrade ev now
  { l with
    engine := ({ l.engine with store := out.1.store } : Engine).report m.tokenCid out.2
    applied := out.1.applied }

end LiveEngine

/-- A step of one of the tasks. -/
inductive EngineEvent
  /-- The user stream delivers a trade event at local time `now`. -/
  | trade (ev : TradeEvent) (now : ℚ)
  /-- The user stream delivers an order event. -/
  | order (ev : OrderEvent) (now : ℚ)
  /-- `_reconcile_loop` drops the guards that are too old. -/
  | expire (maxAgeS now : ℚ)
  /-- `_reconcile_loop` reads the positions of the account. -/
  | positions (read : Option (Dict TokenId (ℚ × ℚ))) (now : ℚ)
  /-- The open orders of a token are read. -/
  | openOrders (tok : TokenId) (live : List OpenOrder) (graceS now : ℚ)
  /-- Orders were cancelled by someone else than a recompute. -/
  | cancelled (ids : List OrderId)
  /-- `_check_position_divergence` starts. -/
  | check
  /-- The balances it waits for arrive, at local time `now`. -/
  | balances (chain : Option (Option String → TokenId → ℚ)) (now : ℚ)
  /-- `_reconcile_cash`. -/
  | cash (exchangeCash : ℚ)
  /-- A market is recomputed. -/
  | recompute (cid : ConditionId) (obs : Observation) (ans : Answers)
  /-- A new day. -/
  | resetDay
  /-- The kill switch. -/
  | kill

namespace LiveEngine

/-- One step. -/
def step (m : Markets) (l : LiveEngine) : EngineEvent → LiveEngine
  | .trade ev now => l.onTrade m ev now
  | .order ev now => l.mapStore fun s => (UserEventProcessor.onOrder ⟨s, l.applied⟩ ev now).store
  | .expire maxAgeS now => l.mapStore fun s => (s.expireInflight maxAgeS now).1
  | .positions none _ => l
  | .positions (some read) now =>
    l.mapStore fun s => (s.reconcilePositions (m.onlyTraded read) true now).1
  | .openOrders tok live graceS now => l.mapStore fun s => s.replaceOpenOrders tok live graceS now
  | .cancelled ids => { l with engine := l.engine.dropOrders ids }
  | .check => { l with waiting := (m.step l.checkRun .check).waiting }
  | .balances chain _ =>
    let k := m.step l.checkRun (.answer chain)
    { l.mapStore fun _ => k.proc.store with waiting := k.waiting }
  | .cash exchangeCash => l.mapRisk fun r => (r.reconcileCash exchangeCash).1
  | .recompute cid obs ans => { l with engine := (l.engine.recompute cid obs ans).engine }
  | .resetDay => l.mapRisk fun r => r.resetDay l.engine.store
  | .kill => l.mapRisk RiskManager.kill

/-! ### Trades -/

/-- The callback sees the fill of a trade event: a match, or the failure of one of this process. -/
def Reported (l : LiveEngine) (ev : TradeEvent) : Prop :=
  ev.status = .matched ∨ ev.tradeId ∈ l.applied

instance (l : LiveEngine) (ev : TradeEvent) : Decidable (l.Reported ev) :=
  inferInstanceAs (Decidable (_ ∨ _))

/-- What a call of `on_trade` does beside changing the processor, from the fill it applies. -/
theorem effects_onTrade (l : LiveEngine) (ev : TradeEvent) (now : ℚ) :
    (l.proc.onTrade ev now).2 =
      match l.proc.pendingFill ev with
      | none => []
      | some g => if l.Reported ev then [.fill g, .onFill g] else [.fill g] := by
  have hcase := onTrade_cases l.proc ev now
  have hfills := fillsOf_onTrade l.proc ev now
  generalize l.proc.onTrade ev now = out at hcase hfills ⊢
  cases hcase with
  | idle => rw [Option.toList_eq_nil_iff.1 hfills.symm]
  | applied hst =>
    have hrep : l.Reported ev := .inl hst
    rw [Option.toList_eq_singleton_iff.1 hfills.symm]
    exact (if_pos hrep).symm
  | confirmed => rw [Option.toList_eq_nil_iff.1 hfills.symm]
  | undone prior hst happ =>
    have hrep : l.Reported ev := .inr (Dict.mem_of_get? happ)
    rw [Option.toList_eq_singleton_iff.1 hfills.symm]
    exact (if_pos hrep).symm
  | blocked => rw [Option.toList_eq_nil_iff.1 hfills.symm]
  | undoneRow r hst happ =>
    have hrep : ¬ l.Reported ev := by
      rintro (h | h)
      · rw [hst] at h; cases h
      · exact happ h
    rw [Option.toList_eq_singleton_iff.1 hfills.symm]
    exact (if_neg hrep).symm
  | released => rw [Option.toList_eq_nil_iff.1 hfills.symm]

/-- A call moves one position, that of the fill it applies. -/
theorem positions_onTrade (l : LiveEngine) (ev : TradeEvent) (now : ℚ) :
    (l.proc.onTrade ev now).1.store.positions =
      match l.proc.pendingFill ev with
      | none => l.engine.store.positions
      | some g => l.engine.store.positions.set g.tokenId
          ((l.engine.store.position g.tokenId).apply g) := by
  have hcase := onTrade_cases l.proc ev now
  have hfills := fillsOf_onTrade l.proc ev now
  generalize l.proc.onTrade ev now = out at hcase hfills ⊢
  cases hcase with
  | idle => rw [Option.toList_eq_nil_iff.1 hfills.symm]; rfl
  | applied => rw [Option.toList_eq_singleton_iff.1 hfills.symm]; rfl
  | confirmed =>
    rw [Option.toList_eq_nil_iff.1 hfills.symm]
    unfold StateStore.markFillSettled
    split <;> split_ifs <;> rfl
  | undone => rw [Option.toList_eq_singleton_iff.1 hfills.symm]; rfl
  | blocked => rw [Option.toList_eq_nil_iff.1 hfills.symm]; rfl
  | undoneRow => rw [Option.toList_eq_singleton_iff.1 hfills.symm]; rfl
  | released => rw [Option.toList_eq_nil_iff.1 hfills.symm]; rfl

theorem onFill_store (e : Engine) (tokenCid : Dict TokenId ConditionId) (f : Fill) :
    (e.onFill tokenCid f).store = e.store := by
  unfold Engine.onFill
  dsimp only
  split_ifs <;> rfl

/-- The engine after a trade, from the fill it applies. -/
theorem engine_onTrade (l : LiveEngine) (m : Markets) (ev : TradeEvent) (now : ℚ) :
    (l.onTrade m ev now).engine =
      let e : Engine := { l.engine with store := (l.proc.onTrade ev now).1.store }
      match l.proc.pendingFill ev with
      | none => e
      | some g => if l.Reported ev then e.onFill m.tokenCid g else e := by
  unfold onTrade Engine.report
  simp only [effects_onTrade]
  cases l.proc.pendingFill ev with
  | none => rfl
  | some g =>
    dsimp only
    split_ifs <;> rfl

section Trade

variable {l : LiveEngine} (m : Markets) {ev : TradeEvent} (now : ℚ)

theorem trade_store : (l.onTrade m ev now).engine.store = (l.proc.onTrade ev now).1.store := by
  rw [engine_onTrade]
  cases l.proc.pendingFill ev with
  | none => rfl
  | some g =>
    dsimp only
    split_ifs
    · rw [onFill_store]
    · rfl

/-- A trade that applies nothing leaves positions, cash and clocks. -/
theorem trade_of_none (h : l.proc.pendingFill ev = none) :
    (l.onTrade m ev now).engine.store.positions = l.engine.store.positions ∧
      (l.onTrade m ev now).engine.risk = l.engine.risk ∧
      (l.onTrade m ev now).engine.positionSince = l.engine.positionSince := by
  refine ⟨?_, ?_, ?_⟩
  · rw [trade_store, positions_onTrade, h]
  · rw [engine_onTrade, h]
  · rw [engine_onTrade, h]

variable {g : Fill} (h : l.proc.pendingFill ev = some g)
include h

theorem trade_positions : (l.onTrade m ev now).engine.store.positions =
    l.engine.store.positions.set g.tokenId ((l.engine.store.position g.tokenId).apply g) := by
  rw [trade_store, positions_onTrade, h]

theorem trade_position (tok : TokenId) : (l.onTrade m ev now).engine.store.position tok =
    if tok = g.tokenId then (l.engine.store.position g.tokenId).apply g
    else l.engine.store.position tok := by
  unfold StateStore.position
  rw [trade_positions m now h, Dict.getD_set]
  rfl

/-- Cash moves with a fill of a traded token that the callback sees. -/
theorem trade_risk : (l.onTrade m ev now).engine.risk =
    if l.Reported ev ∧ g.tokenId ∈ m.tokenCid then l.engine.risk.noteFill g else l.engine.risk := by
  rw [engine_onTrade, h]
  unfold Engine.onFill Engine.syncPositionClock
  dsimp only
  by_cases hrep : l.Reported ev <;> by_cases htok : g.tokenId ∈ m.tokenCid <;>
    by_cases hrev : IsReverse g.tradeId <;> simp [hrep, htok, hrev]

/-- The clock of the token moves with a fill of a traded token that the callback sees and that is
no reversal. -/
theorem trade_positionSince : (l.onTrade m ev now).engine.positionSince =
    if l.Reported ev ∧ g.tokenId ∈ m.tokenCid ∧ ¬ IsReverse g.tradeId then
      if 0 < ((l.engine.store.position g.tokenId).apply g).size then
        if g.tokenId ∈ l.engine.positionSince then l.engine.positionSince
        else l.engine.positionSince.set g.tokenId g.ts
      else l.engine.positionSince.erase g.tokenId
    else l.engine.positionSince := by
  have hsize : ((l.proc.onTrade ev now).1.store.position g.tokenId).size =
      ((l.engine.store.position g.tokenId).apply g).size := by
    rw [← trade_store m, trade_position m now h, if_pos rfl]
  rw [engine_onTrade, h]
  unfold Engine.onFill Engine.syncPositionClock
  by_cases hrep : l.Reported ev <;> by_cases htok : g.tokenId ∈ m.tokenCid <;>
    by_cases hrev : IsReverse g.tradeId <;> simp [hrep, htok, hrev, hsize]

end Trade

/-! ### Reads -/

theorem onlyTraded_get? (m : Markets) (read : Dict TokenId (ℚ × ℚ)) (tok : TokenId) :
    (m.onlyTraded read).get? tok = if tok ∈ m.tokenCid then read.get? tok else none := by
  unfold Markets.onlyTraded
  rw [Dict.get?_filter]
  split_ifs with h
  · cases read.get? tok <;> simp [Option.filter, h]
  · cases read.get? tok <;> simp [Option.filter, h]

/-- What a read of the account leaves of a position. -/
theorem reads_position (l : LiveEngine) (m : Markets) (read : Dict TokenId (ℚ × ℚ)) (now : ℚ)
    (tok : TokenId) :
    (l.step m (.positions (some read) now)).engine.store.position tok =
      if l.engine.store.guardBlocks tok now then l.engine.store.position tok
      else
        match (m.onlyTraded read).get? tok with
        | some (size, avg) => .ofRead size avg
        | none =>
          if 0 < (l.engine.store.position tok).size then .flat
          else l.engine.store.position tok := by
  refine (reconcilePositions_position l.engine.store (m.onlyTraded read) true now tok).trans ?_
  cases (m.onlyTraded read).get? tok with
  | none => simp
  | some size => rfl

/-- What the corrections leave of a position. -/
theorem correctPositions_position (m : Markets) {balances : List (TokenId × ℚ)}
    (hnd : (balances.map Prod.fst).Nodup) (s : StateStore) (tok : TokenId) :
    (m.correctPositions s balances).1.position tok =
      match balances.lookup tok with
      | none => s.position tok
      | some size =>
        if Diverges s tok size then .ofRead size (s.position tok).avgPrice
        else s.position tok := by
  induction balances generalizing s with
  | nil => rfl
  | cons e balances ih =>
    obtain ⟨k, size⟩ := e
    rw [List.map_cons, List.nodup_cons] at hnd
    rw [Dict.lookup_cons_eq_ite, Markets.correctPositions]
    by_cases hk : tok = k
    · -- no later balance is of this token
      subst hk
      have hnone : balances.lookup tok = none := by
        rw [← Option.not_isSome_iff_eq_none, Dict.lookup_isSome_iff]; exact hnd.1
      by_cases hd : Diverges s tok size
      · simp only [if_pos hd, ih hnd.2, hnone, if_true, StateStore.forceSetPosition,
          setPosition_position]
        rfl
      · simp only [if_neg hd, ih hnd.2, hnone, if_true]
    · have hforced : (s.forceSetPosition k size (s.position k).avgPrice).position tok =
          s.position tok := by
        rw [StateStore.forceSetPosition, setPosition_position, if_neg hk]
      by_cases hd : Diverges s k size
      · simp only [if_pos hd, ih hnd.2, if_neg hk, hforced]
        cases balances.lookup tok with
        | none => rfl
        | some size' => simp only [diverges_forceSetPosition hk]
      · simp only [if_neg hd, ih hnd.2, if_neg hk]

/-- What the balances leave of a position. -/
theorem balances_position (l : LiveEngine) (m : Markets)
    (chain : Option (Option String → TokenId → ℚ)) (now : ℚ) (tok : TokenId) :
    (l.step m (.balances chain now)).engine.store.position tok =
      match (l.checkRun.answered chain).bind fun onchain => onchain.get? tok with
      | none => l.engine.store.position tok
      | some size =>
        if Diverges l.engine.store tok size then
          .ofRead size (l.engine.store.position tok).avgPrice
        else l.engine.store.position tok := by
  show (m.step l.checkRun (.answer chain)).proc.store.position tok = _
  unfold Markets.step
  cases hans : l.checkRun.answered chain with
  | none => simp only [hans]; rfl
  | some onchain =>
    simp only [hans]
    exact correctPositions_position m onchain.nodup _ tok

end LiveEngine

/-! ### Everything else -/

/-- The step moves no position and no clock. -/
def EngineEvent.Quiet : EngineEvent → Prop
  | .trade _ _ | .positions (some _) _ | .balances _ _ => False
  | _ => True

/-- The steps that are not quiet. -/
theorem EngineEvent.quiet_or (e : EngineEvent) :
    e.Quiet ∨ (∃ ev now, e = .trade ev now) ∨ (∃ read now, e = .positions (some read) now) ∨
      ∃ chain now, e = .balances chain now := by
  cases e with
  | trade ev now => exact .inr (.inl ⟨ev, now, rfl⟩)
  | positions read now =>
    cases read with
    | none => exact .inl trivial
    | some read => exact .inr (.inr (.inl ⟨read, now, rfl⟩))
  | balances chain now => exact .inr (.inr (.inr ⟨chain, now, rfl⟩))
  | order | expire | openOrders | cancelled | check | cash | recompute | resetDay | kill =>
    exact .inl trivial

theorem Engine.recompute_positions (e : Engine) (cid : ConditionId) (obs : Observation)
    (ans : Answers) :
    (e.recompute cid obs ans).engine.store.positions = e.store.positions ∧
      (e.recompute cid obs ans).engine.positionSince = e.positionSince := by
  cases hm : e.markets.get? cid with
  | none =>
    rw [(Engine.recompute_of_none obs ans hm).2]
    exact ⟨rfl, rfl⟩
  | some m =>
    obtain ⟨m', s', r', heq, -, -, hpos, -⟩ := Engine.recompute_frame obs ans hm
    rw [heq]
    exact ⟨hpos, rfl⟩

namespace LiveEngine

/-- A quiet step moves no position and no clock. -/
theorem quiet_frame (l : LiveEngine) (m : Markets) {e : EngineEvent} (h : e.Quiet) :
    (l.step m e).engine.store.positions = l.engine.store.positions ∧
      (l.step m e).engine.positionSince = l.engine.positionSince := by
  cases e with
  | trade => exact h.elim
  | balances => exact h.elim
  | positions read =>
    cases read with
    | none => exact ⟨rfl, rfl⟩
    | some => exact h.elim
  | recompute cid obs ans => exact l.engine.recompute_positions cid obs ans
  | order ev now =>
    refine ⟨?_, rfl⟩
    show (UserEventProcessor.onOrder ⟨l.engine.store, l.applied⟩ ev now).store.positions = _
    unfold UserEventProcessor.onOrder
    split_ifs
    · rfl
    · exact foldl_upsertOrder_positions
        [⟨ev.orderId, ev.tokenId, ev.side, ev.price, ev.remainingSize, .live, now⟩] l.engine.store
  | cancelled ids => exact ⟨foldl_removeOrder_positions ids l.engine.store, rfl⟩
  | expire | openOrders | check | cash | resetDay | kill => exact ⟨rfl, rfl⟩

theorem quiet_position (l : LiveEngine) (m : Markets) {e : EngineEvent} (h : e.Quiet)
    (tok : TokenId) : (l.step m e).engine.store.position tok = l.engine.store.position tok :=
  position_congr (l.quiet_frame m h).1 tok

/-- Reads move no clock. -/
theorem reads_positionSince (l : LiveEngine) (m : Markets) (read : Option (Dict TokenId (ℚ × ℚ)))
    (now : ℚ) : (l.step m (.positions read now)).engine.positionSince = l.engine.positionSince := by
  cases read <;> rfl

/-! ### Positions -/

/-- Every position is held, or flat without a price. -/
def Settled (l : LiveEngine) : Prop :=
  ∀ tok, 0 < (l.engine.store.position tok).size ∨ l.engine.store.position tok = .flat

theorem ofRead_settled (size avg : ℚ) :
    0 < (Position.ofRead size avg).size ∨ Position.ofRead size avg = .flat := by
  rcases held_setPosition size avg with h | h
  · exact .inl (of_decide_eq_true h)
  · exact .inr h

theorem Settled.step {l : LiveEngine} (h : l.Settled) (m : Markets) (e : EngineEvent) :
    (l.step m e).Settled := by
  intro tok
  rcases e.quiet_or with hquiet | ⟨ev, now, rfl⟩ | ⟨read, now, rfl⟩ | ⟨chain, now, rfl⟩
  · rw [quiet_position l m hquiet]
    exact h tok
  · show _ < ((l.onTrade m ev now).engine.store.position tok).size ∨
      (l.onTrade m ev now).engine.store.position tok = _
    cases hpend : l.proc.pendingFill ev with
    | none =>
      rw [position_congr (trade_of_none m now hpend).1]
      exact h tok
    | some g =>
      rw [trade_position m now hpend]
      split_ifs
      · exact (held_apply _ g).imp of_decide_eq_true id
      · exact h tok
  · rw [reads_position]
    by_cases hguard : l.engine.store.guardBlocks tok now
    · rw [if_pos hguard]
      exact h tok
    · rw [if_neg hguard]
      cases (m.onlyTraded read).get? tok with
      | some sizeAvg => exact ofRead_settled _ _
      | none =>
        dsimp only
        split_ifs
        · exact .inr rfl
        · exact h tok
  · rw [balances_position]
    cases (l.checkRun.answered chain).bind fun onchain => onchain.get? tok with
    | none => exact h tok
    | some size =>
      dsimp only
      split_ifs
      · exact ofRead_settled _ _
      · exact h tok

theorem dropUntrackedPositions_position (s : StateStore) (tracked : List TokenId) (tok : TokenId) :
    (s.dropUntrackedPositions tracked).1.position tok =
      if tok ∈ tracked then s.position tok else .flat := by
  have hget : (s.dropUntrackedPositions tracked).1.positions.get? tok =
      if tok ∈ s.positions.keys.filter (fun tok => decide (tok ∉ tracked)) then none
      else s.positions.get? tok := Dict.get?_eraseAll s.positions _ tok
  unfold StateStore.position Dict.getD
  rw [hget]
  by_cases htracked : tok ∈ tracked
  · rw [if_pos htracked, if_neg fun hmem => by simpa [htracked] using List.mem_filter.1 hmem]
  · rw [if_neg htracked]
    by_cases hmem : tok ∈ s.positions
    · rw [if_pos (List.mem_filter.2 ⟨hmem, decide_eq_true htracked⟩)]
      rfl
    · rw [Dict.get?_eq_none_iff.2 hmem]
      split_ifs <;> rfl

section StartUp

variable (m : Markets) (execution : ExecutionConfig) (markets : Dict ConditionId Market)
  (cfg : RiskConfig) (db : Db) (read : Option (Dict TokenId (ℚ × ℚ))) (now : ℚ)

/-- What the start-up takes over of a position: what the database holds of a traded token, or what
the read lists of it. -/
theorem startUp_position (tok : TokenId) :
    ((startUp m execution markets cfg db read now).engine.store.position tok = .flat) ∨
    tok ∈ m.tokenCid ∧
      ((∃ row, db.positions.get? tok = some row ∧ 0 < row.size ∧
          (startUp m execution markets cfg db read now).engine.store.position tok = row) ∨
        ∃ listed size avg, read = some listed ∧ listed.get? tok = some (size, avg) ∧
          (startUp m execution markets cfg db read now).engine.store.position tok =
            .ofRead size avg) := by
  have hdropped (tok : TokenId) :
      ((StateStore.open db).dropUntrackedPositions m.tokenCid.keys).1.position tok = .flat ∨
      tok ∈ m.tokenCid ∧ ∃ row, db.positions.get? tok = some row ∧ 0 < row.size ∧
        ((StateStore.open db).dropUntrackedPositions m.tokenCid.keys).1.position tok = row := by
    rw [dropUntrackedPositions_position, open_position]
    split_ifs with htok
    · cases hrow : db.positions.get? tok with
      | none => exact .inl rfl
      | some row =>
        by_cases hpos : 0 < row.size
        · exact .inr ⟨htok, row, rfl, hpos, by simp [Option.filter, hpos]⟩
        · exact .inl (by simp [Option.filter, hpos])
    · exact .inl rfl
  cases read with
  | none => exact (hdropped tok).imp id fun h => ⟨h.1, .inl h.2⟩
  | some listed =>
    have hpos := reconcilePositions_position
      ((StateStore.open db).dropUntrackedPositions m.tokenCid.keys).1 (m.onlyTraded listed) false
      now tok
    have hstart : (startUp m execution markets cfg db (some listed) now).engine.store.position tok =
        _ := hpos
    rw [hstart, onlyTraded_get?]
    simp only [Bool.false_eq_true, false_and, if_false]
    by_cases htok : tok ∈ m.tokenCid
    · rw [if_pos htok]
      split_ifs
      · exact (hdropped tok).imp id fun h => ⟨h.1, .inl h.2⟩
      · cases hget : listed.get? tok with
        | none => exact (hdropped tok).imp id fun h => ⟨h.1, .inl h.2⟩
        | some sizeAvg => exact .inr ⟨htok, .inr ⟨listed, sizeAvg.1, sizeAvg.2, rfl, hget, rfl⟩⟩
    · rw [if_neg htok]
      split_ifs <;> exact (hdropped tok).imp id fun h => ⟨h.1, .inl h.2⟩

theorem settled_startUp : (startUp m execution markets cfg db read now).Settled := by
  intro tok
  rcases startUp_position m execution markets cfg db read now tok with h | ⟨-, h | h⟩
  · exact .inr h
  · obtain ⟨row, -, hpos, h⟩ := h
    rw [h]
    exact .inl hpos
  · obtain ⟨-, size, avg, -, -, h⟩ := h
    rw [h]
    exact ofRead_settled size avg

end StartUp

end LiveEngine

end Polymaker
