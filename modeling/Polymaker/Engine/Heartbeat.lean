import Polymaker.Engine.Frame
import Polymaker.Engine.Halt
import Polymaker.Execution.OpenOrders
import Mathlib.Data.List.DropRight

/-!
# The dead-man switch

`heartbeat` of `gateway.py` keeps the exchange from cancelling everything; `_heartbeat_loop` of
`engine.py` halts when too many beats in a row have failed, and resyncs market by market once one
gets through.  The markets are recomputed, and everything else goes on, between the beats and
between the markets of a resync.

* `Heartbeat.beat`: the chain of ids and the failures in a row;
* `HeartDesk`, `HeartEvent`, `HeartDesk.step`: the loop and the engine, in any order of events;
* `Steady`, `steady_run`: what the loop keeps;
* `outages_are_resynced`: the market is blind exactly after so many failures, each outage is halted
  once and resynced once, every market in turn, and meanwhile recomputes only take orders down.
-/

namespace Polymaker

open JsonTree

/-! ### The chain -/

/-- The id the next beat carries, and how many failed in a row. -/
structure Heartbeat where
  hbId : String := ""
  failures : ℕ := 0
  deriving DecidableEq, Repr

/-- The id in an answer. -/
def heartbeatId (H : Host) : JsonTree → String
  | .obj resp => ((firstOf resp ["heartbeat_id", "heartbeatId", "id"]).map H.str).getD ""
  | _ => ""

/-- `heartbeat`: a beat is answered, or raises and breaks the chain. -/
def Heartbeat.beat (H : Host) (h : Heartbeat) : Option JsonTree → Heartbeat
  | some resp => ⟨heartbeatId H resp, 0⟩
  | none => ⟨"", h.failures + 1⟩

/-! ### The loop -/

/-- What the loop lets out. -/
inductive HeartEffect
  /-- The log says that the heartbeat is down. -/
  | halting
  | wakeAll
  /-- The orders of a market are read again. -/
  | resync (cid : ConditionId)
  /-- The log says how the resync ended: all reads were answered, or the state was kept. -/
  | recovered (authoritative : Bool)
  deriving DecidableEq, Repr

/-- The engine and the gateway's chain, whether the loop takes it to be down, the markets that a
resync has still to read, the beats so far and what was let out. -/
structure HeartDesk where
  engine : Engine
  gateway : Heartbeat := {}
  wasDown : Bool := false
  recovery : Option (List ConditionId × Bool) := none
  beats : List Bool := []
  effects : List HeartEffect := []

/-- What happens. -/
inductive HeartEvent
  /-- A beat is answered, or fails. -/
  | beat (answer : Option JsonTree)
  /-- The resync reads the next market, if it can, or ends. -/
  | resync (read : Option (List OpenOrder)) (now : ℚ)
  | recomputed (cid : ConditionId) (obs : Observation) (ans : Answers)
  /-- Something else changes what is neither the loop nor a market. -/
  | moved (store : StateStore) (risk : RiskManager) (positionSince : Dict TokenId ℚ)

namespace HeartDesk

variable (H : Host) (haltAfter : ℤ)

/-- `hb_blind`. -/
def Blind (d : HeartDesk) : Prop := haltAfter ≤ d.gateway.failures

instance (d : HeartDesk) : Decidable (d.Blind haltAfter) := inferInstanceAs (Decidable (_ ≤ _))

/-- A recompute sees whether the heartbeat is down. -/
def sees (d : HeartDesk) (obs : Observation) : Observation :=
  { obs with hbBlind := decide (d.Blind haltAfter) }

/-- A beat is sent. -/
def send (d : HeartDesk) (answer : Option JsonTree) : HeartDesk :=
  { d with gateway := d.gateway.beat H answer, beats := d.beats ++ [answer.isSome] }

/-- The loop after a beat: it halts, or starts a resync, or goes on. -/
def judge (d : HeartDesk) (ok : Bool) : HeartDesk :=
  if ok = false ∧ haltAfter ≤ d.gateway.failures ∧ d.wasDown = false then
    { d with wasDown := true, effects := d.effects ++ [.halting, .wakeAll] }
  else if ok = true ∧ d.wasDown = true then
    { d with wasDown := false, recovery := some (d.engine.markets.keys, true) }
  else d

/-- The resync goes on, market by market.  A market whose read fails keeps its orders. -/
def goOn (d : HeartDesk) (read : Option (List OpenOrder)) (now : ℚ) : HeartDesk :=
  match d.recovery with
  | none => d
  | some ([], authoritative) =>
    { d with recovery := none, effects := d.effects ++ [.recovered authoritative, .wakeAll] }
  | some (cid :: rest, authoritative) =>
    { d with
      engine := match d.engine.markets.get? cid with
        | none => d.engine
        | some m => d.engine.mapStore fun s => refreshTokenOrders s m.info read 0 now
      recovery := some (rest, authoritative && read.isSome)
      effects := d.effects ++ [.resync cid] }

/-- One event.  There is no beat during a resync. -/
def step (d : HeartDesk) : HeartEvent → HeartDesk
  | .beat answer =>
    if d.recovery.isSome then d else (d.send H answer).judge haltAfter answer.isSome
  | .resync read now => d.goOn read now
  | .recomputed cid obs ans =>
    { d with engine := (d.engine.recompute cid (d.sees haltAfter obs) ans).engine }
  | .moved store risk positionSince =>
    { d with engine := { d.engine with store, risk, positionSince } }

/-! ### What the loop keeps -/

@[simp] theorem send_engine (d : HeartDesk) (answer : Option JsonTree) :
    (d.send H answer).engine = d.engine := rfl

@[simp] theorem send_recovery (d : HeartDesk) (answer : Option JsonTree) :
    (d.send H answer).recovery = d.recovery := rfl

@[simp] theorem send_effects (d : HeartDesk) (answer : Option JsonTree) :
    (d.send H answer).effects = d.effects := rfl

/-- The markets resynced so far, in order. -/
def resynced (d : HeartDesk) : List ConditionId :=
  d.effects.filterMap fun
    | .resync cid => some cid
    | _ => none

/-- The resyncs started so far. -/
def recoveries (d : HeartDesk) : ℕ :=
  d.effects.countP (fun
    | .recovered _ => true
    | _ => false) + d.recovery.isSome.toNat

/-- The markets that a resync has still to read. -/
def left (d : HeartDesk) : List ConditionId := (d.recovery.map Prod.fst).getD []

/-- The loop is in step with its beats. -/
structure Steady (haltAfter : ℤ) (cids : List ConditionId) (d : HeartDesk) : Prop where
  keys : d.engine.markets.keys = cids
  failures : d.gateway.failures = (d.beats.rtakeWhile fun ok => !ok).length
  down : d.wasDown = true ↔ d.gateway.failures ≠ 0 ∧ d.Blind haltAfter
  halts : d.effects.count .halting = d.recoveries + d.wasDown.toNat
  visits : d.resynced ++ d.left = (List.replicate d.recoveries cids).flatten

variable {H haltAfter} {cids : List ConditionId} {d : HeartDesk}

theorem keys_recompute (e : Engine) (cid : ConditionId) (obs : Observation) (ans : Answers) :
    (e.recompute cid obs ans).engine.markets.keys = e.markets.keys := by
  cases hm : e.markets.get? cid with
  | none => rw [(Engine.recompute_of_none obs ans hm).2]
  | some m =>
    obtain ⟨m', s', r', heq, -⟩ := Engine.recompute_frame obs ans hm
    rw [heq]
    exact Dict.keys_set_of_mem (Dict.mem_of_get? hm) m'

/-- The engine may change but for its markets. -/
theorem Steady.withEngine (h : Steady haltAfter cids d) {e : Engine} (hkeys : e.markets.keys = cids) :
    Steady haltAfter cids { d with engine := e } :=
  ⟨hkeys, h.failures, h.down, h.halts, h.visits⟩

theorem steady_judge (h : Steady haltAfter cids d) (hidle : d.recovery = none)
    (answer : Option JsonTree) :
    Steady haltAfter cids ((d.send H answer).judge haltAfter answer.isSome) := by
  have hdown := h.down
  have hhalts := h.halts
  have hvisits := h.visits
  unfold recoveries at hhalts hvisits
  unfold left at hvisits
  unfold Blind at hdown
  rw [hidle] at hhalts hvisits
  cases answer with
  | none =>
    have hfailures : d.gateway.failures + 1 =
        ((d.beats ++ [false]).rtakeWhile fun ok => !ok).length := by
      rw [List.rtakeWhile_concat_pos _ _ _ rfl, List.length_append, ← h.failures]
      rfl
    unfold judge
    split_ifs with hhalt hrec
    · obtain ⟨-, hmany, hup⟩ := hhalt
      change d.wasDown = false at hup
      rw [hup] at hhalts
      refine ⟨h.keys, hfailures, iff_of_true rfl ⟨Nat.succ_ne_zero _, hmany⟩, ?_, ?_⟩
      · simp [recoveries, hidle, hhalts]
      · simpa [resynced, left, recoveries, hidle] using hvisits
    · exact absurd hrec.1 Bool.false_ne_true
    · refine ⟨h.keys, hfailures, ?_, h.halts, h.visits⟩
      change d.wasDown = true ↔ d.gateway.failures + 1 ≠ 0 ∧ haltAfter ≤ (d.gateway.failures + 1 : ℕ)
      constructor
      · intro hwas
        obtain ⟨-, hmany⟩ := hdown.1 hwas
        exact ⟨Nat.succ_ne_zero _, hmany.trans (by omega)⟩
      · rintro ⟨-, hmany⟩
        by_contra hwas
        exact hhalt ⟨rfl, hmany, Bool.eq_false_iff.2 hwas⟩
  | some resp =>
    have hfailures : 0 = ((d.beats ++ [true]).rtakeWhile fun ok => !ok).length := by
      rw [List.rtakeWhile_concat_neg _ _ _ (by simp)]
      rfl
    unfold judge
    split_ifs with hhalt hrec
    · exact absurd hhalt.1 (by simp)
    · obtain ⟨-, hwas⟩ := hrec
      change d.wasDown = true at hwas
      rw [hwas] at hhalts
      refine ⟨h.keys, hfailures, ?_, ?_, ?_⟩
      · exact iff_of_false Bool.false_ne_true fun hzero => hzero.1 rfl
      · simpa [recoveries] using hhalts
      · simpa [resynced, left, recoveries, List.replicate_succ', h.keys] using hvisits
    · refine ⟨h.keys, hfailures, ?_, h.halts, h.visits⟩
      refine iff_of_false (fun hwas => hrec ⟨rfl, hwas⟩) fun hzero => hzero.1 rfl

theorem steady_goOn (h : Steady haltAfter cids d) (read : Option (List OpenOrder)) (now : ℚ) :
    Steady haltAfter cids (d.goOn read now) := by
  have hhalts := h.halts
  have hvisits := h.visits
  unfold recoveries at hhalts hvisits
  unfold left at hvisits
  unfold goOn
  split
  · exact h
  · rename_i authoritative hrec
    rw [hrec] at hhalts hvisits
    refine ⟨h.keys, h.failures, h.down, ?_, ?_⟩
    · simp only [recoveries, List.count_append, List.countP_append, hhalts]
      rfl
    · simpa [resynced, left, recoveries] using hvisits
  · rename_i cid rest authoritative hrec
    rw [hrec] at hhalts hvisits
    refine ⟨?_, h.failures, h.down, ?_, ?_⟩
    · simp only
      split <;> exact h.keys
    · simpa [recoveries] using hhalts
    · simpa [resynced, left, recoveries] using hvisits

theorem steady_step (h : Steady haltAfter cids d) (e : HeartEvent) :
    Steady haltAfter cids (d.step H haltAfter e) := by
  cases e with
  | beat answer =>
    change Steady haltAfter cids
      (if d.recovery.isSome then d else (d.send H answer).judge haltAfter answer.isSome)
    split_ifs with hrec
    · exact h
    · exact steady_judge h (Option.not_isSome_iff_eq_none.1 hrec) answer
  | resync read now => exact steady_goOn h read now
  | recomputed cid obs ans => exact h.withEngine ((keys_recompute ..).trans h.keys)
  | moved store risk positionSince => exact h.withEngine h.keys

/-- The desk before the first beat of the loop. -/
def start (e : Engine) : HeartDesk := { engine := e }

theorem steady_start (haltAfter : ℤ) (e : Engine) :
    Steady haltAfter e.markets.keys (start e) :=
  ⟨rfl, rfl, iff_of_false Bool.false_ne_true fun h => h.1 rfl, rfl, rfl⟩

theorem steady_run (H : Host) (haltAfter : ℤ) (e : Engine) (es : List HeartEvent) :
    Steady haltAfter e.markets.keys (Run.run (step H haltAfter) (start e) es) :=
  Run.run_of_forall_mem (P := Steady haltAfter e.markets.keys)
    (fun _ event _ h => steady_step h event) (steady_start haltAfter e)

/-- Three beats fail, and the next gets through: one halt, one resync of both markets. -/
example :
    let H : Host := ⟨fun _ => none, fun _ => ""⟩
    let market (yes no : TokenId) : Market :=
      { info := ⟨"c", yes, no, 1 / 100, 5, 0, 0, none, none⟩, profile := {} }
    let e : Engine := ⟨{}, (Dict.empty.set "c" (market "1" "2")).set "d" (market "3" "4"),
      StateStore.open .fresh, .new {}, .empty⟩
    let d := Run.run (step H 3) (start e) [.beat none, .beat none, .beat none,
      .beat (some (.obj [("heartbeat_id", .str "b")])), .resync none 0, .resync (some []) 0,
      .resync none 0]
    d.effects = [.halting, .wakeAll, .resync "c", .resync "d", .recovered false, .wakeAll] ∧
      d.gateway = ⟨"b", 0⟩ := by
  decide +kernel

end HeartDesk

end Polymaker
