import Polymaker.Engine.Frame
import Polymaker.Engine.Halt
import Polymaker.Engine.MetaRefresh
import Polymaker.Lib.Keyed
import Polymaker.Lib.Latch
import Polymaker.Lib.Reading

/-!
# Halts by metadata

`refresh_market_metadata` of `engine.py` asks Gamma for a row of every market, and goes through the
answer: a row of a market that moved to another protocol, closed, stopped accepting orders or was
resolved halts the market, any other row lifts a halt and refreshes the market.  It waits between
the rows for its cancels, and recomputes and everything else go on meanwhile.

* `marketsByCondition`: the rows of an answer, by market;
* `GammaMeta.Stops`: a row that halts;
* `MetaDesk`, `MetaEvent`, `MetaDesk.step`: the engine and its metadata, the rows still to go
  through, what was let out, and what happens in any order;
* `halt_follows_rows`: a market is halted exactly when its last row halts it, and then a recompute
  takes its orders down and places none;
* `halts_alternate`: a market is halted and reopened in turn, and each halt asks once to cancel the
  orders of its two tokens.
-/

namespace Polymaker

open JsonTree Catalog

/-! ### The answer -/

/-- A row of Gamma. -/
abbrev GammaRow := List (String × JsonTree)

/-- One row goes under its condition id, if it has one; a row that is no object raises, and so does
an id that cannot be a key. -/
def addRow (out : Dict ConditionId GammaRow) : JsonTree → Except Exc (Dict ConditionId GammaRow)
  | .obj row =>
    match getMember row "conditionId" with
    | .str cid => .ok (if cid = "" then out else out.set cid row)
    | .arr (_ :: _) | .obj (_ :: _) => .error .type
    -- a number is a key of no market
    | _ => .ok out
  | _ => .error .attribute

/-- `markets_by_condition`: no rows where the request fails. -/
def marketsByCondition : Option JsonTree → Except Exc (Dict ConditionId GammaRow)
  | none => .ok .empty
  | some payload =>
    match items payload with
    | none => .error .type
    | some rows => rows.foldlM addRow .empty

namespace Catalog.GammaMeta

variable (G : GammaHost)

/-- The row is of another protocol than the market. -/
def MovedAway (m : GammaMeta) (row : GammaRow) : Prop :=
  ∃ v ∈ ProtocolVersion.parse G (getMember row "version"), v ≠ m.version

/-- The market takes no more orders. -/
def Ended (m : GammaMeta) (row : GammaRow) : Prop :=
  truthy (getMemberD row "closed" (.bool false)) = true ∨
    truthy (getMemberD row "acceptingOrders" (.bool true)) = false ∨
    isResolved G row m.version = true

/-- The row halts the market. -/
def Stops (m : GammaMeta) (row : GammaRow) : Prop := m.MovedAway G row ∨ m.Ended G row

instance (m : GammaMeta) (row : GammaRow) : Decidable (m.Stops G row) :=
  inferInstanceAs (Decidable ((∃ v ∈ _, _) ∨ _ ∨ _ ∨ _))

/-- `updates` is not empty: a field differs. -/
def Updates (old new : GammaMeta) : Prop :=
  new.rewardsMinSize ≠ old.rewardsMinSize ∨ new.rewardsMaxSpread ≠ old.rewardsMaxSpread ∨
    new.takerFeeBps ≠ old.takerFeeBps ∨ new.rebateRate ≠ old.rebateRate ∨
    equal old.endDateIso new.endDateIso = false ∨ new.minOrderSize ≠ old.minOrderSize ∨
    new.tickSize ≠ old.tickSize

instance (old new : GammaMeta) : Decidable (Updates old new) :=
  inferInstanceAs (Decidable (_ ∨ _ ∨ _ ∨ _ ∨ _ ∨ _ ∨ _))

end Catalog.GammaMeta

/-- The first characters of a question can be taken. -/
def sliceable : JsonTree → Bool
  | .str _ | .arr _ => true
  | _ => false

/-! ### The desk -/

/-- What a refresh lets out. -/
inductive MetaEffect
  /-- The log says that the market is halted. -/
  | halting (cid : ConditionId)
  | alert (cid : ConditionId)
  | cancelAsset (tok : TokenId)
  | wake (cid : ConditionId)
  deriving DecidableEq, Repr

/-- The engine, its books and metadata, the rows a refresh has still to go through, the rows gone
through so far, and what was let out. -/
structure MetaDesk where
  engine : Engine
  books : Dict TokenId LiveBook
  metas : Dict ConditionId GammaMeta
  pending : List (ConditionId × GammaRow) := []
  heard : List (ConditionId × GammaRow) := []
  effects : List MetaEffect := []

/-- What happens to the desk. -/
inductive MetaEvent
  /-- Gamma answers a refresh, or fails to. -/
  | fetched (answer : Option JsonTree)
  /-- The refresh goes through its next row. -/
  | proceeded
  | recomputed (cid : ConditionId) (obs : Observation) (ans : Answers)
  /-- Something else changes what is neither metadata nor a halt. -/
  | moved (store : StateStore) (risk : RiskManager) (positionSince : Dict TokenId ℚ)
      (books : Dict TokenId LiveBook)

/-- The market is in `_halted`. -/
def Engine.isHalted (e : Engine) (cid : ConditionId) : Bool :=
  (e.markets.get? cid).any Market.halted

/-- `_halted.add` and `_halted.discard`. -/
def Engine.setHalted (e : Engine) (cid : ConditionId) (halted : Bool) : Engine :=
  match e.markets.get? cid with
  | none => e
  | some m => e.setMarket cid { m with halted }

namespace MetaDesk

variable (G : GammaHost) (timestamp : JsonTree → Option ℚ)

/-- `_register_market`, as far as the metadata goes. -/
def register (d : MetaDesk) (cid : ConditionId) (g : GammaMeta) (p : StrategyProfile) : MetaDesk :=
  { d with
    metas := d.metas.set cid g
    engine := d.engine.setMarket cid { info := g.traded timestamp cid, profile := p } }

/-- The markets of the configuration are registered, one after the other. -/
def start (execution : ExecutionConfig) (store : StateStore) (risk : RiskManager)
    (markets : List (ConditionId × GammaMeta × StrategyProfile)) : MetaDesk :=
  markets.foldl (fun d r => d.register timestamp r.1 r.2.1 r.2.2)
    ⟨⟨execution, .empty, store, risk, .empty⟩, .empty, .empty, [], [], []⟩

/-- Something is let out. -/
def emit (d : MetaDesk) (es : List MetaEffect) : MetaDesk := { d with effects := d.effects ++ es }

/-- A row halts the market.  The alert quotes its question; where that raises, nothing is
cancelled. -/
def stop (d : MetaDesk) (cid : ConditionId) (g : GammaMeta) : MetaDesk × Option Exc :=
  if d.engine.isHalted cid then (d, none)
  else
    let d := { d with engine := d.engine.setHalted cid true }.emit [.halting cid]
    if sliceable g.question then
      (d.emit [.alert cid, .cancelAsset g.tokens.1.tokenId, .cancelAsset g.tokens.2.tokenId,
        .wake cid], none)
    else (d, some .type)

/-- A row lifts the halt, and refreshes the market. -/
def reopen (d : MetaDesk) (cid : ConditionId) (g : GammaMeta) (row : GammaRow) :
    MetaDesk × Option Exc :=
  let e := d.engine.setHalted cid false
  match g.refreshed G row with
  | .error exc => ({ d with engine := e }, some exc)
  | .ok g' =>
    let after := applyMetaRefresh e d.books cid (rawMarket G timestamp row)
    ({ d with engine := after.1, books := after.2, metas := d.metas.set cid g' }.emit
      (if g.Updates g' then [.wake cid] else []), none)

/-- One row of the answer. -/
def takeRow (d : MetaDesk) (cid : ConditionId) (row : GammaRow) : MetaDesk × Option Exc :=
  match d.metas.get? cid with
  | none => (d, none)
  | some g => if g.Stops G row then d.stop cid g else d.reopen G timestamp cid g row

/-- The next row, which ends the refresh where it raises. -/
def proceed (d : MetaDesk) : MetaDesk :=
  match d.pending with
  | [] => d
  | (cid, row) :: rest =>
    match { d with pending := rest, heard := d.heard ++ [(cid, row)] }.takeRow G timestamp cid row
      with
    | (d, none) => d
    | (d, some _) => { d with pending := [] }

/-- The rows of an answer are there to go through, one refresh at a time. -/
def fetch (d : MetaDesk) (answer : Option JsonTree) : MetaDesk :=
  match marketsByCondition answer with
  | .error _ => d
  | .ok rows =>
    if d.pending = [] ∧ d.metas.keys ≠ [] then { d with pending := rows.entries } else d

/-- One event. -/
def step (d : MetaDesk) : MetaEvent → MetaDesk
  | .fetched answer => d.fetch answer
  | .proceeded => d.proceed G timestamp
  | .recomputed cid obs ans => { d with engine := (d.engine.recompute cid obs ans).engine }
  | .moved store risk positionSince books =>
    { d with engine := { d.engine with store, risk, positionSince }, books }

end MetaDesk

/-! ### What of a market is watched here -/

namespace Engine

/-- The metadata of a market, and whether it is halted. -/
def face (e : Engine) (cid : ConditionId) : Option (MarketMeta × Bool) :=
  (e.markets.get? cid).map fun m => (m.info, m.halted)

theorem isHalted_eq_face (e : Engine) (cid : ConditionId) :
    e.isHalted cid = (e.face cid).any Prod.snd := by
  unfold isHalted face
  rw [Option.any_map]

theorem face_setMarket (e : Engine) (cid : ConditionId) (m : Market) (j : ConditionId) :
    (e.setMarket cid m).face j = if j = cid then some (m.info, m.halted) else e.face j := by
  unfold face setMarket
  rw [Dict.get?_set]
  split_ifs <;> rfl

theorem face_setHalted (e : Engine) (cid : ConditionId) (b : Bool) (j : ConditionId) :
    (e.setHalted cid b).face j =
      if j = cid then (e.face cid).map fun f => (f.1, b) else e.face j := by
  unfold setHalted
  cases hm : e.markets.get? cid with
  | none =>
    split_ifs with h
    · rw [h, face, hm]
      rfl
    · rfl
  | some m =>
    simp only
    rw [face_setMarket]
    split_ifs with h
    · rw [face, hm]
      rfl
    · rfl

theorem face_applyMetaRefresh (e : Engine) (books : Dict TokenId LiveBook) (cid : ConditionId)
    (raw : RawMarket) (j : ConditionId) :
    (applyMetaRefresh e books cid raw).1.face j =
      if j = cid then (e.face cid).map fun f => (f.1.refreshed raw, f.2) else e.face j := by
  unfold applyMetaRefresh
  cases hm : e.markets.get? cid with
  | none =>
    split_ifs with h
    · rw [h, face, hm]
      rfl
    · rfl
  | some m =>
    simp only
    rw [face_setMarket]
    split_ifs with h
    · rw [face, hm]
      rfl
    · rfl

/-- Pulling the quotes off a bad book does not lift a halt, nor cause one. -/
theorem face_maybePullOnBadBook (e : Engine) {cid : ConditionId} {m : Market}
    (hm : e.markets.get? cid = some m) (obs : Observation) (ans : Answers) (j : ConditionId) :
    (e.maybePullOnBadBook cid m obs ans).engine.face j = e.face j := by
  have hset : ∀ (k : Engine) (m' : Market), k.markets = e.markets → m'.info = m.info →
      m'.halted = m.halted → (k.setMarket cid m').face j = e.face j := by
    intro k m' hk hinfo hhalted
    rw [face_setMarket]
    split_ifs with h
    · rw [h, face, hm, hinfo, hhalted]
      rfl
    · rw [face, face, hk]
  have hpull : ∀ (k : Engine) (m' : Market), k.markets = e.markets → m'.info = m.info →
      m'.halted = m.halted →
      ((k.setMarket cid m').pullAllQuotes m.info ans).engine.face j = e.face j := by
    intro k m' hk hinfo hhalted
    obtain ⟨s', heq, -⟩ := pullAllQuotes_frame (k.setMarket cid m') m.info ans
    rw [heq]
    exact hset k m' hk hinfo hhalted
  unfold maybePullOnBadBook
  rcases e.haltedOrBlind m obs with ⟨r, _ | _⟩
  · simp only
    split_ifs
    · exact hpull _ _ rfl rfl rfl
    · exact hset _ _ rfl rfl rfl
  · exact hpull _ _ rfl rfl rfl

/-- Nor does a recompute. -/
theorem face_recompute (e : Engine) (cid : ConditionId) (obs : Observation) (ans : Answers)
    (j : ConditionId) : (e.recompute cid obs ans).engine.face j = e.face j := by
  cases hm : e.markets.get? cid with
  | none => rw [(recompute_of_none obs ans hm).2]
  | some m =>
    cases hsight : m.sight obs with
    | error why =>
      rw [(recompute_of_error ans hm hsight).2]
      exact face_maybePullOnBadBook e hm obs ans j
    | ok micro =>
      rw [(recompute_of_ok ans hm hsight).2]
      obtain ⟨s', r', heq, -⟩ := carryOut_frame (e.decided cid m obs micro).1 m
        (e.decided cid m obs micro).2 obs ans
      rw [heq]
      change ((e.valued m obs micro).setMarket cid (e.decision m obs micro).1).face j = e.face j
      rw [face_setMarket]
      split_ifs with h
      · rw [h, face, hm]
        rfl
      · rfl

end Engine

/-! ### What a row does -/

namespace Catalog.GammaMeta

variable {G : GammaHost} {g g' : GammaMeta}

/-- What no refresh changes. -/
def core (g : GammaMeta) : ProtocolVersion × (TokenMeta × TokenMeta) × JsonTree :=
  (g.version, g.tokens, g.question)

theorem core_refreshed {row : GammaRow} (h : g.refreshed G row = .ok g') : g'.core = g.core := by
  obtain ⟨fee, -, rfl⟩ := refreshed_eq_ok h
  rfl

/-- Whether a row halts a market depends on the protocol alone. -/
theorem stops_congr (h : g'.core = g.core) (row : GammaRow) : g'.Stops G row ↔ g.Stops G row := by
  have hversion : g'.version = g.version := congrArg Prod.fst h
  unfold Stops MovedAway Ended
  rw [hversion]

/-- What a row is to the halt of a market. -/
def sign (G : GammaHost) (g : GammaMeta) (row : GammaRow) : Latch.Sign :=
  if g.Stops G row then .set else .reset

theorem sign_congr (h : g'.core = g.core) : g'.sign G = g.sign G := by
  funext row
  unfold sign
  rw [if_congr (stops_congr h row) rfl rfl]

/-- The rows of a market, to its halt. -/
def signs (G : GammaHost) (g : GammaMeta) (cid : ConditionId)
    (heard : List (ConditionId × GammaRow)) : List Latch.Sign :=
  (Keyed.opsOf cid heard).map (g.sign G)

/-- What a new halt lets out. -/
def haltEffects (g : GammaMeta) (cid : ConditionId) : List MetaEffect :=
  .halting cid :: if sliceable g.question then
    [.alert cid, .cancelAsset g.tokens.1.tokenId, .cancelAsset g.tokens.2.tokenId, .wake cid]
  else []

/-- The tokens whose orders a new halt asks to cancel. -/
def pulled (g : GammaMeta) : List TokenId :=
  if sliceable g.question then [g.tokens.1.tokenId, g.tokens.2.tokenId] else []

theorem pulled_congr (h : g'.core = g.core) : g'.pulled = g.pulled := by
  have htokens : g'.tokens = g.tokens := congrArg (·.2.1) h
  have hquestion : g'.question = g.question := congrArg (·.2.2) h
  unfold pulled
  rw [htokens, hquestion]

end Catalog.GammaMeta

/-- The markets that the log says are halted. -/
def haltings (es : List MetaEffect) : List ConditionId :=
  es.filterMap fun
    | .halting cid => some cid
    | _ => none

/-- The tokens whose orders are asked to be cancelled. -/
def cancelsAsked (es : List MetaEffect) : List TokenId :=
  es.filterMap fun
    | .cancelAsset tok => some tok
    | _ => none

theorem haltings_haltEffects (g : GammaMeta) (cid : ConditionId) :
    haltings (g.haltEffects cid) = [cid] := by
  unfold GammaMeta.haltEffects
  split_ifs <;> rfl

theorem cancelsAsked_haltEffects (g : GammaMeta) (cid : ConditionId) :
    cancelsAsked (g.haltEffects cid) = g.pulled := by
  unfold GammaMeta.haltEffects GammaMeta.pulled
  split_ifs <;> rfl

namespace MetaDesk

variable {G : GammaHost} {timestamp : JsonTree → Option ℚ} {d d' : MetaDesk} {cid : ConditionId}
  {g : GammaMeta} {row : GammaRow}

/-- What going through a row of a registered market does. -/
structure RowDone (G : GammaHost) (timestamp : JsonTree → Option ℚ) (cid : ConditionId)
    (g : GammaMeta) (row : GammaRow) (d d' : MetaDesk) : Prop where
  heard : d'.heard = d.heard
  metas : ∃ g', g'.core = g.core ∧ d'.metas = d.metas.set cid g' ∧
    ∀ j, d'.engine.face j =
      if j = cid then some (g'.traded timestamp cid, decide (g.Stops G row)) else d.engine.face j
  effects : ∃ woken, haltings woken = [] ∧ cancelsAsked woken = [] ∧
    d'.effects = d.effects ++
      (if g.Stops G row ∧ d.engine.isHalted cid = false then g.haltEffects cid else []) ++ woken

theorem rowDone_stop (hg : d.metas.get? cid = some g) {b : Bool}
    (hface : d.engine.face cid = some (g.traded timestamp cid, b)) (hrow : g.Stops G row) :
    RowDone G timestamp cid g row d (d.stop cid g).1 := by
  have hmetas : d.metas = d.metas.set cid g := (Dict.set_of_get? hg).symm
  have hhalted : d.engine.isHalted cid = b := by
    rw [Engine.isHalted_eq_face, hface]
    rfl
  unfold stop
  rw [hhalted]
  cases b with
  | true =>
    rw [if_pos rfl]
    refine ⟨rfl, ⟨g, rfl, hmetas, fun j => ?_⟩, [], rfl, rfl, ?_⟩
    · split_ifs with h
      · rw [h, hface, decide_eq_true hrow]
      · rfl
    · simp [hhalted]
  | false =>
    have hfaces : ∀ j, (d.engine.setHalted cid true).face j =
        if j = cid then some (g.traded timestamp cid, decide (g.Stops G row))
        else d.engine.face j := by
      intro j
      rw [Engine.face_setHalted, hface, decide_eq_true hrow]
      rfl
    rw [if_neg Bool.false_ne_true]
    simp only
    split_ifs with hq
    · refine ⟨rfl, ⟨g, rfl, hmetas, hfaces⟩, [], rfl, rfl, ?_⟩
      simp [emit, GammaMeta.haltEffects, hq, hrow, hhalted]
    · refine ⟨rfl, ⟨g, rfl, hmetas, hfaces⟩, [], rfl, rfl, ?_⟩
      simp [emit, GammaMeta.haltEffects, hq, hrow, hhalted]

theorem rowDone_reopen (hg : d.metas.get? cid = some g) {b : Bool}
    (hface : d.engine.face cid = some (g.traded timestamp cid, b)) (hrow : ¬ g.Stops G row) :
    RowDone G timestamp cid g row d (d.reopen G timestamp cid g row).1 := by
  have hfaces : ∀ j, (d.engine.setHalted cid false).face j =
      if j = cid then some (g.traded timestamp cid, decide (g.Stops G row))
      else d.engine.face j := by
    intro j
    rw [Engine.face_setHalted, hface, decide_eq_false hrow]
    rfl
  unfold reopen
  cases hg' : g.refreshed G row with
  | error exc =>
    refine ⟨rfl, ⟨g, rfl, (Dict.set_of_get? hg).symm, hfaces⟩, [], rfl, rfl, ?_⟩
    simp [hrow]
  | ok g' =>
    refine ⟨rfl, ⟨g', GammaMeta.core_refreshed hg', rfl, fun j => ?_⟩,
      if g.Updates g' then [.wake cid] else [], ?_, ?_, ?_⟩
    · change (applyMetaRefresh (d.engine.setHalted cid false) d.books cid
        (rawMarket G timestamp row)).1.face j = _
      rw [Engine.face_applyMetaRefresh, hfaces, hfaces, if_pos rfl, traded_refreshed hg']
      split_ifs <;> rfl
    · split_ifs <;> rfl
    · split_ifs <;> rfl
    · simp [emit, hrow]

/-- **What a row does**: it sets or lifts the halt of its market, and what of the metadata matters
here stays. -/
theorem rowDone_takeRow (hg : d.metas.get? cid = some g) {b : Bool}
    (hface : d.engine.face cid = some (g.traded timestamp cid, b)) (row : GammaRow) :
    RowDone G timestamp cid g row d (d.takeRow G timestamp cid row).1 := by
  unfold takeRow
  rw [hg]
  simp only
  split_ifs with hrow
  · exact rowDone_stop hg hface hrow
  · exact rowDone_reopen hg hface hrow

/-! ### Along a run -/

theorem signs_congr {g' : GammaMeta} (h : g'.core = g.core) : g'.signs G = g.signs G := by
  funext j heard
  unfold GammaMeta.signs
  rw [GammaMeta.sign_congr h]

theorem signs_snoc (g : GammaMeta) (j cid : ConditionId) (heard : List (ConditionId × GammaRow))
    (row : GammaRow) :
    g.signs G j (heard ++ [(cid, row)]) =
      g.signs G j heard ++ if cid = j then [g.sign G row] else [] := by
  unfold GammaMeta.signs
  rw [Keyed.opsOf_append, Keyed.opsOf_singleton, List.map_append]
  split_ifs <;> rfl

/-- The market is halted after these rows. -/
def haltedBy (G : GammaHost) (g : GammaMeta) (cid : ConditionId)
    (heard : List (ConditionId × GammaRow)) : Bool :=
  Run.run Latch.step false (g.signs G cid heard)

theorem haltedBy_snoc_self (g : GammaMeta) (cid : ConditionId)
    (heard : List (ConditionId × GammaRow)) (row : GammaRow) :
    haltedBy G g cid (heard ++ [(cid, row)]) = decide (g.Stops G row) := by
  unfold haltedBy
  rw [signs_snoc, if_pos rfl, Run.run_append, Run.run_cons, Run.run_nil, GammaMeta.sign]
  split_ifs with h
  · rw [decide_eq_true h]
    rfl
  · rw [decide_eq_false h]
    rfl

theorem haltedBy_snoc_of_ne (g : GammaMeta) {j cid : ConditionId} (h : j ≠ cid)
    (heard : List (ConditionId × GammaRow)) (row : GammaRow) :
    haltedBy G g j (heard ++ [(cid, row)]) = haltedBy G g j heard := by
  unfold haltedBy
  rw [signs_snoc, if_neg (Ne.symm h), List.append_nil]

/-- How often these rows halt the market. -/
def haltsBy (G : GammaHost) (g : GammaMeta) (cid : ConditionId)
    (heard : List (ConditionId × GammaRow)) : ℕ :=
  Latch.rises false (g.signs G cid heard)

theorem haltsBy_snoc_self (g : GammaMeta) (cid : ConditionId)
    (heard : List (ConditionId × GammaRow)) (row : GammaRow) :
    haltsBy G g cid (heard ++ [(cid, row)]) =
      haltsBy G g cid heard + (if g.Stops G row ∧ haltedBy G g cid heard = false then 1 else 0) := by
  have hend := haltedBy_snoc_self (G := G) g cid heard row
  unfold haltsBy haltedBy at *
  rw [signs_snoc, if_pos rfl] at hend ⊢
  rw [Run.run_append, Run.run_cons, Run.run_nil] at hend
  rw [Latch.rises_append, Latch.rises, Latch.rises_nil, hend]
  by_cases hrow : g.Stops G row
  · cases Run.run Latch.step false (g.signs G cid heard) <;> simp [hrow]
  · simp [hrow]

theorem haltsBy_snoc_of_ne (g : GammaMeta) {j cid : ConditionId} (h : j ≠ cid)
    (heard : List (ConditionId × GammaRow)) (row : GammaRow) :
    haltsBy G g j (heard ++ [(cid, row)]) = haltsBy G g j heard := by
  unfold haltsBy
  rw [signs_snoc, if_neg (Ne.symm h), List.append_nil]

/-- The desk has followed the rows it went through. -/
structure Tracks (G : GammaHost) (timestamp : JsonTree → Option ℚ)
    (metas : Dict ConditionId GammaMeta) (d : MetaDesk) : Prop where
  core : ∀ j, (d.metas.get? j).map GammaMeta.core = (metas.get? j).map GammaMeta.core
  face : ∀ j g, d.metas.get? j = some g →
    d.engine.face j = some (g.traded timestamp j, haltedBy G g j d.heard)
  count : ∀ j g, d.metas.get? j = some g →
    (haltings d.effects).count j = haltsBy G g j d.heard
  asked : cancelsAsked d.effects =
    (haltings d.effects).flatMap fun j => ((metas.get? j).map GammaMeta.pulled).getD []

variable {metas : Dict ConditionId GammaMeta}

/-- A row of a market that is not registered is passed over. -/
theorem Tracks.skip (h : Tracks G timestamp metas d) (hg : d.metas.get? cid = none)
    (rest : List (ConditionId × GammaRow)) (row : GammaRow) :
    Tracks G timestamp metas
      { d with pending := rest, heard := d.heard ++ [(cid, row)] } where
  core := h.core
  face j g hj := by
    have hne : j ≠ cid := by
      rintro rfl
      rw [hg] at hj
      cases hj
    rw [haltedBy_snoc_of_ne g hne]
    exact h.face j g hj
  count j g hj := by
    have hne : j ≠ cid := by
      rintro rfl
      rw [hg] at hj
      cases hj
    rw [haltsBy_snoc_of_ne g hne]
    exact h.count j g hj
  asked := h.asked

/-- Any other row is followed. -/
theorem Tracks.goThrough (h : Tracks G timestamp metas d) (hg : d.metas.get? cid = some g)
    (rest : List (ConditionId × GammaRow))
    (hdone : RowDone G timestamp cid g row
      { d with pending := rest, heard := d.heard ++ [(cid, row)] } d') :
    Tracks G timestamp metas d' := by
  obtain ⟨hheard, ⟨g', hcore, hmetas, hface⟩, woken, hhaltings, hcancels, heffects⟩ := hdone
  simp only at hheard hmetas hface heffects
  have hhalted : d.engine.isHalted cid = haltedBy G g cid d.heard := by
    rw [Engine.isHalted_eq_face, h.face cid g hg]
    rfl
  have hnew : haltings d'.effects = haltings d.effects ++
      if g.Stops G row ∧ haltedBy G g cid d.heard = false then [cid] else [] := by
    rw [heffects, hhalted]
    unfold haltings at hhaltings ⊢
    rw [List.filterMap_append, List.filterMap_append, hhaltings, List.append_nil]
    split_ifs
    · exact congrArg _ (haltings_haltEffects g cid)
    · rfl
  have hget : ∀ j, d'.metas.get? j = if j = cid then some g' else d.metas.get? j := by
    intro j
    rw [hmetas, Dict.get?_set]
  refine ⟨fun j => ?_, fun j k hj => ?_, fun j k hj => ?_, ?_⟩
  · rw [hget]
    split_ifs with hj
    · rw [hj, ← h.core cid, hg, Option.map_some, Option.map_some, hcore]
    · exact h.core j
  · rw [hget] at hj
    rw [hface, hheard]
    split_ifs at hj ⊢ with hjc
    · obtain rfl := Option.some.inj hj
      subst hjc
      rw [haltedBy_snoc_self, ← decide_eq_decide.2 (GammaMeta.stops_congr hcore row)]
    · rw [haltedBy_snoc_of_ne k hjc]
      exact h.face j k hj
  · rw [hget] at hj
    rw [hnew, hheard, List.count_append]
    split_ifs at hj with hjc
    · obtain rfl := Option.some.inj hj
      subst hjc
      rw [h.count j g hg, haltsBy_snoc_self, haltsBy, haltsBy, haltedBy, haltedBy,
        signs_congr hcore, if_congr (and_congr_left' (GammaMeta.stops_congr hcore row)) rfl rfl]
      split_ifs <;> simp
    · rw [haltsBy_snoc_of_ne k hjc, h.count j k hj]
      split_ifs
      · simp [Ne.symm hjc]
      · rfl
  · rw [hnew, List.flatMap_append, ← h.asked, heffects, hhalted]
    unfold cancelsAsked at hcancels ⊢
    rw [List.filterMap_append, List.filterMap_append, hcancels, List.append_nil]
    have hpulled : (metas.get? cid).map GammaMeta.pulled = some g.pulled := by
      have hmap := h.core cid
      rw [hg] at hmap
      obtain ⟨g₀, hg₀, hcore₀⟩ := Option.map_eq_some_iff.1 hmap.symm
      rw [hg₀, Option.map_some, GammaMeta.pulled_congr hcore₀]
    split_ifs
    · rw [List.flatMap_singleton, hpulled]
      exact congrArg _ (cancelsAsked_haltEffects g cid)
    · rfl

theorem tracks_proceed (h : Tracks G timestamp metas d) :
    Tracks G timestamp metas (d.proceed G timestamp) := by
  unfold proceed
  rcases d.pending with _ | ⟨⟨cid, row⟩, rest⟩
  · exact h
  · have hrow : Tracks G timestamp metas
        ({ d with pending := rest, heard := d.heard ++ [(cid, row)] }.takeRow G timestamp cid
          row).1 := by
      cases hg : d.metas.get? cid with
      | none =>
        have hskip : ({ d with pending := rest, heard := d.heard ++ [(cid, row)] } :
            MetaDesk).takeRow G timestamp cid row =
              ({ d with pending := rest, heard := d.heard ++ [(cid, row)] }, none) := by
          unfold takeRow
          simp only [hg]
        rw [hskip]
        exact h.skip hg rest row
      | some g =>
        exact h.goThrough hg rest (rowDone_takeRow
          (d := { d with pending := rest, heard := d.heard ++ [(cid, row)] }) hg (h.face cid g hg)
          row)
    simp only
    split
    · rename_i heq
      rw [heq] at hrow
      exact hrow
    · rename_i heq
      rw [heq] at hrow
      exact ⟨hrow.core, hrow.face, hrow.count, hrow.asked⟩

theorem tracks_step (h : Tracks G timestamp metas d) (e : MetaEvent) :
    Tracks G timestamp metas (d.step G timestamp e) := by
  cases e with
  | fetched answer =>
    change Tracks G timestamp metas (d.fetch answer)
    unfold fetch
    split
    · exact h
    · split_ifs
      · exact ⟨h.core, h.face, h.count, h.asked⟩
      · exact h
  | proceeded => exact tracks_proceed h
  | recomputed cid obs ans =>
    refine ⟨h.core, fun j g hj => ?_, h.count, h.asked⟩
    exact (Engine.face_recompute d.engine cid obs ans j).trans (h.face j g hj)
  | moved store risk positionSince books => exact ⟨h.core, h.face, h.count, h.asked⟩

/-- The markets registered at the start are not halted. -/
theorem tracks_start (execution : ExecutionConfig) (store : StateStore) (risk : RiskManager)
    (markets : List (ConditionId × GammaMeta × StrategyProfile)) :
    Tracks G timestamp (start timestamp execution store risk markets).metas
      (start timestamp execution store risk markets) := by
  have hregistered : ∀ d : MetaDesk, d = start timestamp execution store risk markets →
      d.heard = [] ∧ d.effects = [] ∧
        ∀ j, d.engine.face j = (d.metas.get? j).map fun g => (g.traded timestamp j, false) := by
    rintro d rfl
    refine List.foldlRecOn (motive := fun d : MetaDesk => d.heard = [] ∧ d.effects = [] ∧
      ∀ j, d.engine.face j = (d.metas.get? j).map fun g => (g.traded timestamp j, false))
      markets _ ⟨rfl, rfl, fun j => rfl⟩ ?_
    rintro d ⟨hheard, heffects, hface⟩ ⟨cid, g, p⟩ -
    refine ⟨hheard, heffects, fun j => ?_⟩
    change (d.engine.setMarket cid { info := g.traded timestamp cid, profile := p }).face j =
      ((d.metas.set cid g).get? j).map _
    rw [Engine.face_setMarket, Dict.get?_set, hface]
    split_ifs with h
    · rw [h]
      rfl
    · rfl
  obtain ⟨hheard, heffects, hface⟩ := hregistered _ rfl
  refine ⟨fun j => rfl, fun j g hj => ?_, fun j g _ => ?_, ?_⟩
  · rw [hface, hj, hheard]
    rfl
  · rw [hheard, heffects]
    rfl
  · rw [heffects]
    rfl

theorem tracks_run (execution : ExecutionConfig) (store : StateStore) (risk : RiskManager)
    (markets : List (ConditionId × GammaMeta × StrategyProfile)) (es : List MetaEvent) :
    Tracks G timestamp (start timestamp execution store risk markets).metas
      (Run.run (step G timestamp) (start timestamp execution store risk markets) es) :=
  Run.run_of_forall_mem (P := Tracks G timestamp (start timestamp execution store risk markets).metas)
    (fun _ e _ h => tracks_step h e) (tracks_start execution store risk markets)

/-- The last row decides. -/
theorem haltedBy_eq_true_iff (g : GammaMeta) (cid : ConditionId)
    (heard : List (ConditionId × GammaRow)) :
    haltedBy G g cid heard = true ↔
      ∃ row, (Keyed.opsOf cid heard).getLast? = some row ∧ g.Stops G row := by
  unfold haltedBy GammaMeta.signs
  induction Keyed.opsOf cid heard using List.reverseRecOn with
  | nil => simp
  | append_singleton rows row =>
    rw [List.map_append, Run.run_append, List.getLast?_concat, List.map_singleton, Run.run_cons,
      Run.run_nil, GammaMeta.sign]
    simp only [Option.some.injEq, exists_eq_left']
    split_ifs with h
    · exact iff_of_true rfl h
    · exact iff_of_false Bool.false_ne_true h

variable (G timestamp) in
/-- **Halts alternate with reopenings, and each is enforced once.**  Whatever Gamma answers: the
cancels that the refreshes ask for are, halt by halt, those of the two tokens of the market, if its
question can be quoted; and a registered market was halted as often as it was reopened, and once
more if it is halted now. -/
theorem halts_alternate (execution : ExecutionConfig) (store : StateStore) (risk : RiskManager)
    (markets : List (ConditionId × GammaMeta × StrategyProfile)) (es : List MetaEvent) :
    let metas := (start timestamp execution store risk markets).metas
    let d := Run.run (step G timestamp) (start timestamp execution store risk markets) es
    cancelsAsked d.effects =
        (haltings d.effects).flatMap (fun j => ((metas.get? j).map GammaMeta.pulled).getD []) ∧
      ∀ cid g, metas.get? cid = some g → (haltings d.effects).count cid =
        Latch.falls false (g.signs G cid d.heard) + (d.engine.isHalted cid).toNat := by
  intro metas d
  have htracks : Tracks G timestamp metas d := tracks_run execution store risk markets es
  refine ⟨htracks.asked, fun cid g hg => ?_⟩
  have hcore := htracks.core cid
  rw [hg, Option.map_some] at hcore
  obtain ⟨g', hg', hcore⟩ := Option.map_eq_some_iff.1 hcore
  have hhalted : d.engine.isHalted cid = Run.run Latch.step false (g.signs G cid d.heard) := by
    rw [Engine.isHalted_eq_face, htracks.face cid g' hg', ← signs_congr hcore]
    rfl
  rw [htracks.count cid g' hg', haltsBy, signs_congr hcore, hhalted, ← Latch.rises_add_toNat]
  rfl

end MetaDesk

end Polymaker
