import Polymaker.Engine.Success

/-!
# Enforcing a halt

A halt reaches the orders of a market by two ways: off a bad book through `_pull_all_quotes`, and on
a usable one through the gate, the regime, an empty target set and its plan.

* `Engine.consulted`: the manager as a recompute asks it for a halt;
* `Engine.HaltActive`: the market is blind or halted by metadata, or everything is halted;
* `Engine.Enforces`: every order of the market is asked to be cancelled, and nothing is placed;
* `halt_enforced`: a recompute enforces an active halt, whatever the books and the answers.

The daily loss is judged by the marks, and a usable book is marked before the manager is asked:
`unhalted_of_recovered_mark` is a loss that was past its limit before that, and is not after.
-/

namespace Polymaker

open RiskManager (RiskDecision)

/-! ### The stages of a halt -/

theorem RiskManager.evaluate_halt (r : RiskManager) (s : StateStore) (m : MarketMeta)
    {wsStale : Bool} (cost resting : ℚ) (globalResting : Option ℚ) {now : ℚ}
    (h : wsStale = true ∨ (r.globalHalt s now).2.isSome = true) :
    (r.evaluate s m wsStale cost resting globalResting now).2.halt = true := by
  unfold evaluate
  rcases hhalt : r.globalHalt s now with ⟨r', _ | why⟩
  · rw [hhalt] at h
    obtain rfl : wsStale = true := h.resolve_right (by simp)
    rfl
  · rfl

theorem RegimeMachine.decide_of_riskHalt (rm : RegimeMachine) {i : RegimeInputs}
    (p : StrategyProfile) (h : i.riskHalt = true) : rm.decide i p = (rm, .halted) :=
  if_pos (.inl h)

theorem constructQuotes_of_halted {i : QuoteInputs} (h : i.regime = .halted) :
    (constructQuotes i).quotes = [] := by
  simp only [constructQuotes, h]

/-- Without targets every order is cancelled and nothing placed. -/
theorem reconcile_of_no_quotes {targets : TargetQuotes} (h : targets.quotes = [])
    (live : List OpenOrder) (t : Tolerance) :
    reconcile targets live t = ⟨live.map OpenOrder.orderId, []⟩ := by
  have hmatch : matchTargets t live targets.quotes = [] := by rw [h]; rfl
  simp only [reconcile, hmatch, FirstFit.used_nil, FirstFit.unmet_nil, List.map_nil,
    List.not_mem_nil, not_false_eq_true, decide_true, List.filter_true]

namespace Engine

/-- The manager as a recompute asks it for a halt: on a usable book both tokens were marked at the
fair value before. -/
def consulted (e : Engine) (m : Market) (obs : Observation) : RiskManager :=
  match m.sight obs with
  | .error _ => e.risk
  | .ok micro => (e.valued m obs micro).risk

/-- The market is blind or halted by metadata, or everything is halted. -/
def HaltActive (e : Engine) (m : Market) (obs : Observation) : Prop :=
  m.blind obs = true ∨ ((e.consulted m obs).globalHalt e.store obs.now).2.isSome = true

instance (e : Engine) (m : Market) (obs : Observation) : Decidable (e.HaltActive m obs) :=
  inferInstanceAs (Decidable (_ ∨ _))

/-- Every tracked order on the tokens is asked to be cancelled, and nothing is placed. -/
structure Enforces (e : Engine) (m : MarketMeta) (pass : Pass) : Prop where
  cancelled : ∀ o ∈ e.store.orders.values, o.tokenId ∈ m.tokens →
    ∃ ids, .cancel ids ∈ pass.calls ∧ o.orderId ∈ ids
  unplaced : ∀ quotes, .place quotes ∉ pass.calls
  none_returned : pass.returned = []

variable {e : Engine} {cid : ConditionId} {m : Market} {obs : Observation}

/-- It is enough to cancel the orders of the market, where there are any. -/
theorem enforces_of_cancel {pass : Pass} (calls : List GatewayCall)
    (hcalls : pass.calls = if e.ordersOf m.info = [] then []
      else .cancel ((e.ordersOf m.info).map OpenOrder.orderId) :: calls)
    (hplace : ∀ quotes, .place quotes ∉ calls) (hreturned : pass.returned = []) :
    e.Enforces m.info pass where
  cancelled o ho htok := by
    obtain ⟨i, hget⟩ := Dict.mem_values_iff.1 ho
    have hmem : o ∈ e.ordersOf m.info := mem_ordersOf.2 ⟨⟨i, hget⟩, htok⟩
    rw [if_neg (List.ne_nil_of_mem hmem)] at hcalls
    rw [hcalls]
    exact ⟨_, List.mem_cons_self, List.mem_map_of_mem hmem⟩
  unplaced quotes := by
    rw [hcalls]
    split_ifs
    · exact List.not_mem_nil
    · rw [List.mem_cons, not_or]
      exact ⟨by simp, hplace quotes⟩
  none_returned := hreturned

/-! ### Off a bad book -/

theorem haltedOrBlind_of_haltActive {why : BadBook} (hsight : m.sight obs = .error why)
    (h : e.HaltActive m obs) : (e.haltedOrBlind m obs).2 = true := by
  have hrisk : e.consulted m obs = e.risk := by
    unfold consulted
    rw [hsight]
  unfold HaltActive at h
  rw [hrisk] at h
  unfold haltedOrBlind
  split_ifs with hblind
  · rfl
  · exact h.resolve_left hblind

theorem enforces_pullAllQuotes {e' : Engine} (hstore : e'.store = e.store) (ans : Answers) :
    e.Enforces m.info (e'.pullAllQuotes m.info ans) := by
  have horders := ordersOf_congr hstore m.info
  refine enforces_of_cancel [] ?_ (fun _ => List.not_mem_nil) ?_
  · unfold pullAllQuotes
    simp only [horders, List.map_eq_nil_iff]
    split_ifs <;> rfl
  · unfold pullAllQuotes
    simp only
    split_ifs <;> rfl

/-! ### On a usable book -/

/-- A halted decision plans to cancel every order. -/
theorem decision_of_haltActive {micro : ℚ} (hsight : m.sight obs = .ok micro)
    (h : e.HaltActive m obs) :
    (e.decision m obs micro).2.plan =
        ⟨(e.ordersOf m.info).map OpenOrder.orderId, []⟩ := by
  have hrisk : e.consulted m obs = (e.valued m obs micro).risk := by
    unfold consulted
    rw [hsight]
  unfold HaltActive at h
  rw [hrisk] at h
  have hhalt : (e.verdict m obs micro).2.halt = true := by
    unfold verdict gate
    exact RiskManager.evaluate_halt _ _ _ _ _ _ h
  have hregime : (m.regime.decide ((e.valued m obs micro).regimeInputs m obs
      (m.fairValue obs micro) (e.verdict m obs micro).2) m.profile).2 = .halted := by
    rw [RegimeMachine.decide_of_riskHalt _ _ hhalt]
  exact reconcile_of_no_quotes (constructQuotes_of_halted hregime) _ _

theorem enforces_carryOut {e' : Engine} {d : Decision}
    (hplan : d.plan = ⟨(e.ordersOf m.info).map OpenOrder.orderId, []⟩) (ans : Answers) :
    e.Enforces m.info (e'.carryOut m d obs ans) := by
  have hissued : d.issued obs = [] := by
    unfold Decision.issued
    rw [hplan]
    exact ite_self _
  have hquiet : ∀ k : Engine, k.placeQuotes m d obs ans = ⟨k, [], []⟩ := fun k => if_pos hissued
  -- a failed cancel is followed by a read of the open orders
  have hreads : ∀ quotes, GatewayCall.place quotes ∉
      if ans.cancelOk then [] else [GatewayCall.openOrders] := fun quotes => by
    split_ifs <;> simp
  refine enforces_of_cancel (if ans.cancelOk then [] else [.openOrders]) ?_ hreads ?_
  · unfold carryOut
    simp only [hplan, hquiet, List.map_eq_nil_iff]
    split_ifs <;> rfl
  · unfold carryOut
    simp only [hplan, hquiet]
    split_ifs <;> rfl

/-- A recompute of a market that is blind takes its orders down. -/
theorem enforces_of_blind (ans : Answers) (hm : e.markets.get? cid = some m)
    (h : m.blind obs = true) : e.Enforces m.info (e.recompute cid obs ans) := by
  have hactive : e.HaltActive m obs := .inl h
  cases hsight : m.sight obs with
  | error why =>
    obtain ⟨m', -, -, hpull⟩ := e.maybePullOnBadBook_eq cid m obs ans
    rw [(recompute_of_error ans hm hsight).2, hpull,
      if_pos (.inl (haltedOrBlind_of_haltActive hsight hactive))]
    refine enforces_pullAllQuotes ?_ ans
    rfl
  | ok micro =>
    rw [(recompute_of_ok ans hm hsight).2]
    exact enforces_carryOut (decision_of_haltActive hsight hactive) ans

end Engine

open Engine

/-- **A halt is enforced whatever the book looks like.**  For every state of the engine, every
content of the books and every answer of the gateway: where the market is blind or halted by
metadata, or everything is halted at the marks the recompute works with, it asks to cancel every
tracked order of the market and places nothing. -/
theorem halt_enforced (e : Engine) (cid : ConditionId) (m : Market) (obs : Observation)
    (ans : Answers) (hm : e.markets.get? cid = some m) (h : e.HaltActive m obs) :
    e.Enforces m.info (e.recompute cid obs ans) := by
  cases hsight : m.sight obs with
  | error why =>
    obtain ⟨-, hrec⟩ := recompute_of_error ans hm hsight
    obtain ⟨m', -, -, hpull⟩ := e.maybePullOnBadBook_eq cid m obs ans
    have hpulls : e.PullsOnBadBook m obs := .inl (haltedOrBlind_of_haltActive hsight h)
    rw [hrec, hpull, if_pos hpulls]
    refine enforces_pullAllQuotes ?_ ans
    rfl
  | ok micro =>
    obtain ⟨-, hrec⟩ := recompute_of_ok ans hm hsight
    rw [hrec]
    exact enforces_carryOut (decision_of_haltActive hsight h) ans

/-- A market halted by metadata that has no book: its order is asked to be cancelled, though the
cancel fails. -/
theorem halt_enforced_of_missing_book :
    let m : Market :=
      { info := ⟨"c", "yes", "no", 1 / 100, 5, 0, 0, none, none⟩, profile := {}, halted := true }
    let obs : Observation := ⟨100, none, none, 0, 0, 0, 0, false, false, false, false, 0⟩
    let s := (StateStore.open .fresh).upsertOrder ⟨"o", "yes", .buy, 48 / 100, 100, .live, 0⟩
    let e : Engine := ⟨{}, Dict.empty.set "c" m, s, .new {}, Dict.empty⟩
    let ans : Answers := ⟨false, none, none⟩
    e.ordersOf m.info ≠ [] ∧ e.Enforces m.info (e.recompute "c" obs ans) := by
  intro m obs s e ans
  refine ⟨by decide +kernel, halt_enforced e "c" m obs ans (by decide +kernel) (.inl rfl)⟩

/-- A thousand shares bought at 70 cents are marked at 45: the daily loss of 250 halts everything.
The next book is at 50 cents; its recompute finds the halt active, marks the shares, and places
quotes. -/
theorem unhalted_of_recovered_mark :
    let m : Market :=
      { info := ⟨"c", "yes", "no", 1 / 100, 5, 0, 0, none, none⟩
        profile := { layers := 1, qMaxUsdc := 2000 } }
    let obs (fv : ℚ) : Observation :=
      ⟨100, some (.ofTouch (fv - 1 / 100) (fv + 1 / 100) 100),
        some (.ofTouch (1 - fv - 1 / 100) (1 - fv + 1 / 100) 100), 0, 0, 0, 0, false, false, false,
        false, 0⟩
    let s := StateStore.open ⟨Dict.empty.set "yes" ⟨1000, 70 / 100⟩, Dict.empty⟩
    let e : Engine :=
      ⟨{}, Dict.empty.set "c" m, s, (RiskManager.new {}).resetDay s, Dict.empty⟩
    let ans : Answers := ⟨true, some [[some "o1", some "o2", some "o3"]], none⟩
    let e' := (e.recompute "c" (obs (45 / 100)) ans).engine
    (e'.risk.globalHalt e'.store 100).2 = some (.dailyLoss (-250)) ∧
      ¬ e'.Enforces m.info (e'.recompute "c" (obs (50 / 100)) ans) := by
  intro m obs s e ans e'
  have hcalls : (e'.recompute "c" (obs (50 / 100)) ans).calls =
      [.place [⟨"yes", .buy, 48 / 100, 7812 / 100⟩, ⟨"no", .buy, 48 / 100, 10417 / 100⟩,
        ⟨"yes", .sell, 52 / 100, 1000⟩]] := by decide +kernel
  have hplaced : ∃ quotes, .place quotes ∈ (e'.recompute "c" (obs (50 / 100)) ans).calls :=
    ⟨_, by rw [hcalls]; exact List.mem_singleton_self _⟩
  obtain ⟨quotes, hquotes⟩ := hplaced
  exact ⟨by decide +kernel, fun h => h.unplaced quotes hquotes⟩

end Polymaker
