import Polymaker.Engine.EntryGates
import Polymaker.Engine.FixedPoint
import Polymaker.Engine.Hedge
import Polymaker.Engine.Live

/-!
# The event-group cap

`_event_group_cost` adds up size times average price over the markets of an event, and the gate
compares it with `max_event_group_loss_usdc`.  The bids that rest in the group are not in it, and
neither is a position without an average price.

* `Engine.groupCommitted`: what is committed to the event of a market, filled and resting;
* `gateCloses_iff`: what closes the gate;
* `Closes`: a recompute of a market whose event is committed up to its cap wants no bid, and
  `GateKept`: the gate is closed to it;
* `Counted`: every held position of an event adds to its cost;
* `FilledToCap`, `CountedKept`: the conditions on a step, in the state it arrives in;
* `group_cap`: what holds along runs.
-/

namespace Polymaker

namespace Engine

/-! ### What is committed -/

/-- The market belongs to an event. -/
def HasEvent (mkt : MarketMeta) : Prop := mkt.eventId ≠ none ∧ mkt.eventId ≠ some ""

instance (mkt : MarketMeta) : Decidable (HasEvent mkt) := inferInstanceAs (Decidable (_ ∧ _))

/-- The tokens of the markets that share the event of a market. -/
def groupTokensOf (e : Engine) (mkt : MarketMeta) : List TokenId :=
  (e.markets.values.filter fun k => decide (k.info.eventId = mkt.eventId)).flatMap fun k =>
    k.info.tokens

/-- What is committed to the event of a market: the cost of the filled positions, and the resting
bids. -/
def groupCommitted (e : Engine) (mkt : MarketMeta) : ℚ :=
  e.eventGroupCost mkt + e.store.restingBuys (e.groupTokensOf mkt)

/-- The tokens of all markets that belong to an event. -/
def eventTokens (e : Engine) : List TokenId :=
  ((e.markets.values.map Market.info).filter fun mkt => decide (HasEvent mkt)).flatMap
    MarketMeta.tokens

/-! ### The gate -/

/-- The gate lets no bid of the market through, on the microprice given. -/
def GateCloses (e : Engine) (mkt : Market) (obs : Observation) (micro : ℚ) : Prop :=
  (e.verdict mkt obs micro).2.halt = true ∨ (e.verdict mkt obs micro).2.reduceOnly = true

/-- Something else than the event-group cap closes the gate: a halt, a blind market, or one of the
two caps that count resting bids. -/
def ClosedOtherwise (e : Engine) (mkt : Market) (obs : Observation) (micro : ℚ) : Prop :=
  ((e.valued mkt obs micro).risk.globalHalt e.store obs.now).2 ≠ none ∨
  mkt.blind obs = true ∨
  e.risk.cfg.maxMarketNotionalUsdc ≤
    (e.valued mkt obs micro).risk.marketNotional e.store mkt.info +
      max 0 (e.marketResting mkt.info) ∨
  e.risk.cfg.maxTotalExposureUsdc ≤
    (e.valued mkt obs micro).risk.totalExposure e.store + max 0 e.globalResting

theorem gateCloses_iff (e : Engine) (mkt : Market) (obs : Observation) (micro : ℚ) :
    e.GateCloses mkt obs micro ↔
      e.risk.cfg.maxEventGroupLossUsdc ≤ e.eventGroupCost mkt.info ∨
        e.ClosedOtherwise mkt obs micro := by
  have hcost : (e.valued mkt obs micro).eventGroupCost mkt.info = e.eventGroupCost mkt.info := by
    unfold eventGroupCost
    rfl
  unfold GateCloses verdict gate ClosedOtherwise
  rw [hcost]
  change (((e.valued mkt obs micro).risk.evaluate e.store mkt.info _ _ _ _ _).2.halt = true ∨
    ((e.valued mkt obs micro).risk.evaluate e.store mkt.info _ _ _ _ _).2.reduceOnly = true) ↔ _
  cases hhalt : ((e.valued mkt obs micro).risk.globalHalt e.store obs.now).2 with
  | none =>
    rw [RiskManager.evaluate_of_running hhalt]
    have hcfg : (e.valued mkt obs micro).risk.cfg = e.risk.cfg := rfl
    rw [hcfg]
    simp only [Option.getD_some]
    split_ifs with hblind hmarket hevent htotal <;> simp [*]
  | some why =>
    refine iff_of_true (.inl ?_) (.inr (.inl (by simp)))
    unfold RiskManager.evaluate
    rcases hglobal : (e.valued mkt obs micro).risk.globalHalt e.store obs.now with ⟨r, why'⟩
    rw [hglobal] at hhalt
    simp only at hhalt
    rw [hhalt]

/-- A decision that wants a bid was let through by the gate. -/
theorem no_bid_of_gateCloses {e : Engine} {cid : ConditionId} {mkt : Market} {obs : Observation}
    {micro : ℚ} (hm : e.markets.get? cid = some mkt) (hsight : mkt.sight obs = .ok micro)
    (h : e.GateCloses mkt obs micro) {d : Decision} (hd : e.decision? cid obs = some d) :
    ∀ q ∈ d.targets.quotes, q.side ≠ .buy := by
  intro q hq hbuy
  rw [decision?_of_ok hm hsight] at hd
  obtain rfl := Option.some.inj hd
  have hclear : (e.verdict mkt obs micro).2.halt = false ∧
      (e.verdict mkt obs micro).2.reduceOnly = false := (targets_of_bids ⟨q, hq, hbuy⟩).1
  rcases h with h | h
  · rw [hclear.1] at h; cases h
  · rw [hclear.2] at h; cases h

end Engine

open Engine

namespace LiveEngine

/-! ### The two promises -/

/-- A recompute of a market whose event is committed up to the cap wants no bid. -/
def Closes (l : LiveEngine) : EngineEvent → Prop
  | .recompute cid obs _ => ∀ mkt, l.engine.markets.get? cid = some mkt → HasEvent mkt.info →
      l.engine.risk.cfg.maxEventGroupLossUsdc ≤ l.engine.groupCommitted mkt.info →
      ∀ d, l.engine.decision? cid obs = some d → ∀ q ∈ d.targets.quotes, q.side ≠ .buy
  | _ => True

/-- Every held position of an event adds to its cost. -/
def Counted (l : LiveEngine) : Prop :=
  ∀ tok ∈ l.engine.eventTokens, 0 < (l.engine.store.position tok).size →
    0 < (l.engine.store.position tok).size * (l.engine.store.position tok).avgPrice

/-- The gate is closed to a market whose event is committed up to the cap, when its book can be
quoted on. -/
def GateKept (l : LiveEngine) : EngineEvent → Prop
  | .recompute cid obs _ => ∀ mkt micro, l.engine.markets.get? cid = some mkt →
      HasEvent mkt.info → mkt.sight obs = .ok micro →
      l.engine.risk.cfg.maxEventGroupLossUsdc ≤ l.engine.groupCommitted mkt.info →
      l.engine.GateCloses mkt obs micro
  | _ => True

/-- Where the event is committed up to the cap, its filled positions alone reach it, or something
else closes the gate. -/
def FilledToCap (l : LiveEngine) : EngineEvent → Prop
  | .recompute cid obs _ => ∀ mkt micro, l.engine.markets.get? cid = some mkt →
      HasEvent mkt.info → mkt.sight obs = .ok micro →
      l.engine.risk.cfg.maxEventGroupLossUsdc ≤ l.engine.groupCommitted mkt.info →
      l.engine.risk.cfg.maxEventGroupLossUsdc ≤ l.engine.eventGroupCost mkt.info ∨
        l.engine.ClosedOtherwise mkt obs micro
  | _ => True

end LiveEngine

/-- The fill leaves a price: it is bought at one, or sells what has one. -/
def Position.PricedBy (pos : Position) (f : Fill) : Prop :=
  match f.side with
  | .buy =>
    if pos.size ≤ 0 then 0 < f.price else 0 < pos.avgPrice * pos.size + f.price * f.size
  | .sell => 0 < pos.size

namespace LiveEngine

/-- For the tokens of events: a fill that leaves shares leaves a price, a read that lists shares
lists a price, and a correction leaves shares only where there were some. -/
def CountedKept (m : Markets) (l : LiveEngine) : EngineEvent → Prop
  | .trade ev _ => ∀ g, l.proc.pendingFill ev = some g → g.tokenId ∈ l.engine.eventTokens →
      0 < (l.engine.store.position g.tokenId).size + g.signed →
      (l.engine.store.position g.tokenId).PricedBy g
  | .positions (some read) now => ∀ tok ∈ l.engine.eventTokens,
      ¬ l.engine.store.guardBlocks tok now → tok ∈ m.tokenCid →
      ∀ size avg, read.get? tok = some (size, avg) → 0 < size → 0 < avg
  | .balances chain _ => ∀ onchain tok size, l.checkRun.answered chain = some onchain →
      onchain.get? tok = some size → tok ∈ l.engine.eventTokens →
      Diverges l.engine.store tok size → 0 < size → 0 < (l.engine.store.position tok).size
  | _ => True

theorem gateKept_iff (l : LiveEngine) (e : EngineEvent) : l.GateKept e ↔ l.FilledToCap e := by
  cases e with
  | recompute cid obs ans =>
    unfold GateKept FilledToCap
    simp only [gateCloses_iff]
  | _ => exact Iff.rfl

/-- A recompute wants no bid that the gate does not let through. -/
theorem closes_of_gateKept {l : LiveEngine} {e : EngineEvent} (h : l.GateKept e) : l.Closes e := by
  cases e with
  | recompute cid obs ans =>
    intro mkt hm hevent hcap d hd
    obtain ⟨micro, hsight, -⟩ := exists_sight_of_decision hm hd
    exact no_bid_of_gateCloses hm hsight (h mkt micro hm hevent hsight hcap) hd
  | _ => trivial

/-! ### Prices -/

theorem counted_iff {l : LiveEngine} : l.Counted ↔ ∀ tok ∈ l.engine.eventTokens,
    0 < (l.engine.store.position tok).size → 0 < (l.engine.store.position tok).avgPrice :=
  forall₃_congr fun _ _ hsize => mul_pos_iff_of_pos_left hsize

end LiveEngine

/-- A fill leaves a price exactly as said. -/
theorem avgPrice_apply_pos_iff {pos : Position} {f : Fill}
    (hset : 0 < pos.size ∨ pos = .flat) (hprice : 0 < pos.size → 0 < pos.avgPrice)
    (hleft : 0 < pos.size + f.signed) : 0 < (pos.apply f).avgPrice ↔ pos.PricedBy f := by
  have hheld : ¬ max 0 (pos.size + f.signed) ≤ 0 := not_le.2 (lt_max_of_lt_right hleft)
  unfold Position.apply Position.PricedBy
  simp only [if_neg hheld]
  cases hside : f.side with
  | buy =>
    have hsum : 0 < pos.size + f.size := by
      unfold Fill.signed at hleft
      rwa [hside] at hleft
    dsimp only
    split_ifs
    · exact Iff.rfl
    · exact div_pos_iff_of_pos_right hsum
  | sell =>
    constructor
    · intro h
      refine hset.resolve_right fun hflat => ?_
      rw [hflat] at h
      exact absurd h (lt_irrefl 0)
    · exact hprice

namespace LiveEngine

variable {m : Markets} {l : LiveEngine}

theorem markets_onTrade (l : LiveEngine) (m : Markets) (ev : TradeEvent) (now : ℚ) :
    (l.onTrade m ev now).engine.markets = l.engine.markets := by
  rw [engine_onTrade]
  cases l.proc.pendingFill ev with
  | none => rfl
  | some g =>
    unfold Engine.onFill
    dsimp only
    split_ifs <;> rfl

/-- No step changes which tokens belong to events. -/
theorem eventTokens_step (l : LiveEngine) (m : Markets) (e : EngineEvent) :
    (l.step m e).engine.eventTokens = l.engine.eventTokens := by
  unfold eventTokens
  cases e with
  | trade ev now =>
    rw [show l.step m (.trade ev now) = l.onTrade m ev now from rfl, markets_onTrade]
  | recompute cid obs ans =>
    rw [← infos_recompute l.engine cid obs ans]
    rfl
  | positions read => cases read <;> rfl
  | _ => rfl

/-- A trade goes on counting every held position if it leaves a price, and only then. -/
theorem counted_onTrade_iff (hset : l.Settled) (h : l.Counted) (ev : TradeEvent) (now : ℚ) :
    (l.onTrade m ev now).Counted ↔ CountedKept m l (.trade ev now) := by
  have htokens : (l.onTrade m ev now).engine.eventTokens = l.engine.eventTokens :=
    l.eventTokens_step m (.trade ev now)
  rw [counted_iff] at h ⊢
  rw [htokens]
  cases hpend : l.proc.pendingFill ev with
  | none =>
    simp only [position_congr (trade_of_none m now hpend).1]
    exact iff_of_true h fun g hg => by rw [hpend] at hg; cases hg
  | some g =>
    have hkept : CountedKept m l (.trade ev now) ↔ (g.tokenId ∈ l.engine.eventTokens →
        0 < (l.engine.store.position g.tokenId).size + g.signed →
        (l.engine.store.position g.tokenId).PricedBy g) := by
      unfold CountedKept
      simp only [hpend, Option.some.injEq, forall_eq']
    have hpos := trade_position m now hpend
    rw [hkept]
    constructor
    · intro hall htok hleft
      have hg := hall g.tokenId htok
      rw [hpos, if_pos rfl] at hg
      exact (avgPrice_apply_pos_iff (hset g.tokenId) (h g.tokenId htok) hleft).1
        (hg (lt_max_of_lt_right hleft))
    · intro hkept tok htok hheld
      rw [hpos] at hheld ⊢
      split_ifs at hheld ⊢ with heq
      · subst heq
        have hleft : 0 < (l.engine.store.position g.tokenId).size + g.signed := by
          rw [Position.apply_size, lt_max_iff] at hheld
          exact hheld.resolve_left (lt_irrefl 0)
        exact (avgPrice_apply_pos_iff (hset g.tokenId) (h g.tokenId htok) hleft).2
          (hkept htok hleft)
      · exact h tok htok hheld

theorem ofRead_avgPrice {size : ℚ} (h : 0 < size) (avg : ℚ) :
    (Position.ofRead size avg).avgPrice = avg := if_pos h

/-- A read goes on counting every held position if what it lists has a price, and only then. -/
theorem counted_positions_iff (h : l.Counted) (read : Dict TokenId (ℚ × ℚ)) (now : ℚ) :
    (l.step m (.positions (some read) now)).Counted ↔
      CountedKept m l (.positions (some read) now) := by
  rw [counted_iff] at h ⊢
  rw [eventTokens_step]
  refine forall₂_congr fun tok htok => ?_
  rw [reads_position, onlyTraded_get?]
  by_cases hguard : l.engine.store.guardBlocks tok now
  · rw [if_pos hguard]
    exact iff_of_true (h tok htok) fun hno => absurd hguard hno
  rw [if_neg hguard]
  by_cases htraded : tok ∈ m.tokenCid
  · rw [if_pos htraded]
    simp only [hguard, htraded, not_false_eq_true, true_implies]
    cases hget : read.get? tok with
    | some sizeAvg =>
      simp only [Option.some.injEq, ofRead_size_pos]
      constructor
      · rintro hpriced size avg rfl hsize
        exact (ofRead_avgPrice hsize avg) ▸ hpriced hsize
      · intro hlisted hsize
        rw [ofRead_avgPrice hsize]
        exact hlisted _ _ rfl hsize
    | none =>
      refine iff_of_true (fun hheld => ?_) fun size avg hno => by cases hno
      split_ifs at hheld ⊢ with hsize
      · exact absurd hheld (lt_irrefl 0)
      · exact h tok htok hheld
  · rw [if_neg htraded]
    refine iff_of_true (fun hheld => ?_) fun _ hno => absurd hno htraded
    dsimp only at hheld ⊢
    split_ifs at hheld ⊢ with hsize
    · exact absurd hheld (lt_irrefl 0)
    · exact h tok htok hheld

/-- A correction goes on counting every held position if it leaves shares only where there were
some, and only then. -/
theorem counted_balances_iff (hset : l.Settled) (h : l.Counted)
    (chain : Option (Option String → TokenId → ℚ)) (now : ℚ) :
    (l.step m (.balances chain now)).Counted ↔ CountedKept m l (.balances chain now) := by
  rw [counted_iff] at h ⊢
  rw [eventTokens_step]
  simp only [balances_position]
  constructor
  · intro hall onchain tok size hans hget htok hd hsize
    have hpriced := hall tok htok
    simp only [hans, Option.bind_some, hget, if_pos hd, ofRead_size_pos] at hpriced
    -- a flat position has no price to keep
    refine (hset tok).resolve_right fun hflat => ?_
    have havg := hpriced hsize
    rw [ofRead_avgPrice hsize, hflat] at havg
    exact absurd havg (lt_irrefl 0)
  · intro hkept tok htok
    cases hans : l.checkRun.answered chain with
    | none => exact h tok htok
    | some onchain =>
      simp only [Option.bind_some]
      cases hget : onchain.get? tok with
      | none => exact h tok htok
      | some size =>
        by_cases hd : Diverges l.engine.store tok size
        · simp only [if_pos hd, ofRead_size_pos]
          intro hsize
          rw [ofRead_avgPrice hsize]
          exact h tok htok (hkept onchain tok size hans hget htok hd hsize)
        · simp only [if_neg hd]
          exact h tok htok

/-- **One step** goes on counting every held position if it meets the condition, and only then. -/
theorem counted_step_iff (hset : l.Settled) (h : l.Counted) (e : EngineEvent) :
    (l.step m e).Counted ↔ CountedKept m l e := by
  rcases e.quiet_or with hquiet | ⟨ev, now, rfl⟩ | ⟨read, now, rfl⟩ | ⟨chain, now, rfl⟩
  · have hkept : CountedKept m l e := by
      cases e with
      | positions read => cases read <;> trivial
      | trade | balances => exact hquiet.elim
      | _ => trivial
    refine iff_of_true ?_ hkept
    unfold Counted
    simp only [eventTokens_step, quiet_position l m hquiet]
    exact h
  · exact counted_onTrade_iff hset h ev now
  · exact counted_positions_iff h read now
  · exact counted_balances_iff hset h chain now

end LiveEngine

open LiveEngine

/-- **What the event-group cap sees.**  Along every run of the engine after start-up: the gate is
closed to the markets of an event that is committed up to the cap if and only if the filled
positions alone reach it, or something else closes it, at every recompute; and no bid is wanted
then.  Every held position of an event adds to the cost if and only if that is so at the start and
every step meets the condition. -/
theorem group_cap (m : Markets) (execution : ExecutionConfig) (markets : Dict ConditionId Market)
    (cfg : RiskConfig) (db : Db) (read : Option (Dict TokenId (ℚ × ℚ))) (now : ℚ)
    (es : List EngineEvent) :
    let start := LiveEngine.startUp m execution markets cfg db read now
    (Run.EachStep (LiveEngine.step m) GateKept start es ↔
      Run.EachStep (LiveEngine.step m) FilledToCap start es) ∧
    (Run.EachStep (LiveEngine.step m) FilledToCap start es →
      Run.EachStep (LiveEngine.step m) Closes start es) ∧
    (Run.Always (LiveEngine.step m) Counted start es ↔
      Counted start ∧ Run.EachStep (LiveEngine.step m) (CountedKept m) start es) := by
  intro start
  have hset : start.Settled := settled_startUp m execution markets cfg db read now
  have hiff (h : start.Counted) : Run.Always (LiveEngine.step m) Counted start es ↔
      Run.EachStep (LiveEngine.step m) (CountedKept m) start es :=
    Run.always_iff_eachStep (I := LiveEngine.Settled) (P := LiveEngine.Counted)
      (fun l e h => h.step m e)
      (fun l e hset h => counted_step_iff hset h e) hset h
  refine ⟨?_, fun h pre e post heq => ?_, ?_⟩
  · exact forall₄_congr fun pre e post _ => gateKept_iff _ e
  · exact closes_of_gateKept ((gateKept_iff _ e).2 (h pre e post heq))
  constructor
  · intro hall
    have hstart : start.Counted := hall [] List.nil_prefix
    exact ⟨hstart, (hiff hstart).1 hall⟩
  · rintro ⟨hstart, hkept⟩
    exact (hiff hstart).2 hkept

/-- A bid of 120 dollars rests in one market of an event whose cap is 100, and the other market is
bid for; and a correction finds 100 shares of a flat token, which cost the event nothing. -/
theorem not_group_cap_of_resting_bid :
    let a : Market :=
      { info := ⟨"a", "ya", "na", 1 / 100, 5, 0, 0, none, some "e"⟩, profile := {} }
    let b : Market :=
      { info := ⟨"b", "yb", "nb", 1 / 100, 5, 0, 0, none, some "e"⟩, profile := {} }
    let mkt : Catalog.MarketMeta :=
      { conditionId := "a", question := "", slug := "", tokens := (⟨"ya", "Yes"⟩, ⟨"na", "No"⟩),
        tickSize := 1 / 100, negRisk := false, minOrderSize := 5, rewardsMinSize := 0,
        rewardsMaxSpread := 0, rewardsDailyRate := 0, makerFeeBps := 0, takerFeeBps := 0,
        feesEnabled := false, endDateIso := none, eventId := some "e" }
    let m : Markets := ⟨(((Dict.empty.set "ya" "a").set "na" "a").set "yb" "b").set "nb" "b",
      Dict.empty.set "a" mkt⟩
    let book := OrderBook.ofTouch (48 / 100) (52 / 100) 100
    let obs : Observation :=
      ⟨100, some book, some book, 0, 0, 0, 0, false, false, false, false, 0⟩
    let start := LiveEngine.startUp m {} ((Dict.empty.set "a" a).set "b" b)
      { maxEventGroupLossUsdc := 100 } .fresh none 0
    let rests : EngineEvent := .order ⟨"o", "yb", .buy, 40 / 100, 300, false⟩ 1
    let corrects : EngineEvent := .balances (some fun _ tok => if tok = "ya" then 100 else 0) 5
    let l := Run.run (LiveEngine.step m) start [.check, corrects]
    ¬ Run.EachStep (LiveEngine.step m) Closes start
        [rests, .recompute "a" obs ⟨true, none, none⟩] ∧
      l.engine.store.position "ya" = ⟨100, 0⟩ ∧ l.engine.eventGroupCost a.info = 0 ∧
      ¬ Run.Always (LiveEngine.step m) Counted start [.check, corrects] := by
  intro a b mkt m book obs start rests corrects l
  have hpos : l.engine.store.position "ya" = ⟨100, 0⟩ := by decide +kernel
  refine ⟨fun h => ?_, hpos, by decide +kernel, fun h => ?_⟩
  · rw [Run.eachStep_cons, Run.eachStep_cons] at h
    have hget : (start.step m rests).engine.markets.get? "a" = some a := by decide +kernel
    have hfull : (start.step m rests).engine.risk.cfg.maxEventGroupLossUsdc ≤
        (start.step m rests).engine.groupCommitted a.info := by decide +kernel
    have hbids : ∃ d, (start.step m rests).engine.decision? "a" obs = some d ∧
        d.targets.Bids := by
      have hok : a.sight obs = .ok (1 / 2) := by decide +kernel
      exact ⟨_, decision?_of_ok hget hok, by decide +kernel⟩
    obtain ⟨d, hd, q, hq, hbuy⟩ := hbids
    exact h.2.1 a hget (by decide +kernel) hfull d hd q hq hbuy
  · have hlast : l.Counted := h.last
    have hcost := hlast "ya" (by decide +kernel) (by rw [hpos]; norm_num)
    rw [hpos] at hcost
    norm_num at hcost

end Polymaker
