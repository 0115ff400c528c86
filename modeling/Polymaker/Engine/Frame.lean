import Polymaker.Engine.Recompute

/-!
# What a recompute leaves alone

A recompute of a market changes that market's own state, the local orders, the marks of its two
tokens and the error window.

* `RiskManager.SameLedger`: two states of the manager that differ in the error window at most;
* `Engine.seen`: the engine with the marks of what the market looks like now;
* `recompute_frame`: the frame of a recompute;
* `keyed_recompute`, `infos_recompute`: what it keeps.
-/

namespace Polymaker

/-! ### The risk manager -/

namespace RiskManager

/-- The manager `r'` is `r` with another error window. -/
def SameLedger (r r' : RiskManager) : Prop := ∃ w, r' = { r with recentOrderResults := w }

theorem SameLedger.refl (r : RiskManager) : SameLedger r r := ⟨r.recentOrderResults, rfl⟩

theorem SameLedger.trans {r r' r'' : RiskManager} (h : SameLedger r r') (h' : SameLedger r' r'') :
    SameLedger r r'' := by
  obtain ⟨w, rfl⟩ := h
  obtain ⟨w', rfl⟩ := h'
  exact ⟨w', rfl⟩

theorem sameLedger_prune (r : RiskManager) (now : ℚ) : SameLedger r (r.prune now) := by
  unfold prune
  simp only
  split
  · exact .refl r
  · split_ifs
    · exact ⟨_, rfl⟩
    · exact .refl r

theorem sameLedger_noteOrderResult (r : RiskManager) (ok : Bool) (now : ℚ) :
    SameLedger r (r.noteOrderResult ok now) :=
  SameLedger.trans ⟨r.recentOrderResults ++ [(now, ok)], rfl⟩ (sameLedger_prune _ now)

theorem sameLedger_globalHalt (r : RiskManager) (s : StateStore) (now : ℚ) :
    SameLedger r (r.globalHalt s now).1 := by
  unfold globalHalt errorRate
  simp only
  split_ifs
  · exact .refl r
  · exact .refl r
  · exact sameLedger_prune r now
  · exact sameLedger_prune r now

theorem sameLedger_evaluate (r : RiskManager) (s : StateStore) (m : MarketMeta) (wsStale : Bool)
    (cost resting : ℚ) (globalResting : Option ℚ) (now : ℚ) :
    SameLedger r (r.evaluate s m wsStale cost resting globalResting now).1 := by
  have h := sameLedger_globalHalt r s now
  unfold evaluate
  generalize r.globalHalt s now = halt at h ⊢
  obtain ⟨r', _ | why⟩ := halt
  · simp only
    split_ifs <;> exact h
  · exact h

variable {r r' : RiskManager} {s : StateStore}

theorem SameLedger.cfg (h : SameLedger r r') : r'.cfg = r.cfg := by
  obtain ⟨w, rfl⟩ := h; rfl

theorem SameLedger.totalExposure (h : SameLedger r r') :
    r'.totalExposure s = r.totalExposure s := by
  obtain ⟨w, rfl⟩ := h; rfl

theorem SameLedger.marketNotional (h : SameLedger r r') (m : MarketMeta) :
    r'.marketNotional s m = r.marketNotional s m := by
  obtain ⟨w, rfl⟩ := h; rfl

end RiskManager

/-! ### The store -/

theorem position_congr {s s' : StateStore} (h : s'.positions = s.positions) (tok : TokenId) :
    s'.position tok = s.position tok := by
  unfold StateStore.position
  rw [h]

section Positions

variable (r : RiskManager) {s s' : StateStore} (h : s'.positions = s.positions)
include h

theorem RiskManager.totalExposure_congr : r.totalExposure s' = r.totalExposure s := by
  unfold totalExposure
  rw [h]

theorem RiskManager.marketNotional_congr (m : MarketMeta) :
    r.marketNotional s' m = r.marketNotional s m := by
  unfold marketNotional
  rw [position_congr h, position_congr h]

theorem RiskManager.globalHalt_congr (now : ℚ) : r.globalHalt s' now = r.globalHalt s now := by
  have hpnl : r.dailyPnl s' = r.dailyPnl s := by
    unfold dailyPnl equity inventoryValue
    rw [h]
  have hhit : r.DailyLossHit s' ↔ r.DailyLossHit s := by
    unfold DailyLossHit
    rw [hpnl]
  unfold globalHalt
  simp only [hhit, hpnl]

/-- The gate reads the positions of the store, and nothing else of it. -/
theorem RiskManager.evaluate_congr (m : MarketMeta) (wsStale : Bool) (cost resting : ℚ)
    (globalResting : Option ℚ) (now : ℚ) :
    r.evaluate s' m wsStale cost resting globalResting now =
      r.evaluate s m wsStale cost resting globalResting now := by
  unfold evaluate
  rw [globalHalt_congr r h]
  simp only [totalExposure_congr _ h, marketNotional_congr _ h]

end Positions

theorem refreshTokenOrders_positions (s : StateStore) (m : MarketMeta)
    (read : Option (List OpenOrder)) (graceS now : ℚ) :
    (refreshTokenOrders s m read graceS now).positions = s.positions := by
  cases read <;> rfl

theorem dropToken_positions (s : StateStore) (tok : TokenId) :
    (dropToken s tok).positions = s.positions := foldl_removeOrder_positions _ s

theorem quarantine_positions (s : StateStore) (m : MarketMeta) (read : Option (List OpenOrder))
    (now : ℚ) : (quarantine s m read now).positions = s.positions := by
  unfold quarantine
  rw [refreshTokenOrders_positions]
  exact (dropToken_positions _ m.no).trans (dropToken_positions s m.yes)

theorem StateStore.Keyed.refreshTokenOrders {s : StateStore} (h : s.Keyed) (m : MarketMeta)
    (read : Option (List OpenOrder)) (graceS now : ℚ) :
    (refreshTokenOrders s m read graceS now).Keyed := by
  cases read with
  | none => exact h
  | some live =>
    exact (h.replaceOpenOrders m.yes _ graceS now).replaceOpenOrders m.no _ graceS now

theorem StateStore.Keyed.quarantine {s : StateStore} (h : s.Keyed) (m : MarketMeta)
    (read : Option (List OpenOrder)) (now : ℚ) : (quarantine s m read now).Keyed := by
  have hdropped : (m.tokens.foldl dropToken s).Keyed :=
    (h.foldl_removeOrder _).foldl_removeOrder _
  exact hdropped.refreshTokenOrders m read 0 now

namespace Engine

theorem pullAllQuotes_frame (e : Engine) (m : MarketMeta) (ans : Answers) :
    ∃ s', (e.pullAllQuotes m ans).engine = { e with store := s' } ∧
      s'.positions = e.store.positions := by
  unfold pullAllQuotes
  simp only
  split_ifs
  · exact ⟨e.store, rfl, rfl⟩
  · exact ⟨_, rfl, foldl_removeOrder_positions _ e.store⟩
  · exact ⟨e.store, rfl, rfl⟩

theorem placeQuotes_frame (e : Engine) (m : Market) (d : Decision) (obs : Observation)
    (ans : Answers) :
    ∃ s' r', (e.placeQuotes m d obs ans).engine = { e with store := s', risk := r' } ∧
      s'.positions = e.store.positions ∧ e.risk.SameLedger r' := by
  unfold placeQuotes
  simp only
  split_ifs
  · exact ⟨e.store, e.risk, rfl, rfl, .refl _⟩
  · refine ⟨_, _, rfl, ?_, RiskManager.sameLedger_noteOrderResult ..⟩
    rw [quarantine_positions]
    exact foldl_upsertOrder_positions _ e.store
  · exact ⟨_, _, rfl, foldl_upsertOrder_positions _ e.store,
      RiskManager.sameLedger_noteOrderResult ..⟩

theorem carryOut_frame (e : Engine) (m : Market) (d : Decision) (obs : Observation)
    (ans : Answers) :
    ∃ s' r', (e.carryOut m d obs ans).engine = { e with store := s', risk := r' } ∧
      s'.positions = e.store.positions ∧ e.risk.SameLedger r' := by
  unfold carryOut
  split_ifs
  · exact placeQuotes_frame e m d obs ans
  · obtain ⟨s', r', heq, hpos, hrisk⟩ :=
      placeQuotes_frame (e.dropOrders d.plan.toCancel) m d obs ans
    exact ⟨s', r', heq, hpos.trans (foldl_removeOrder_positions _ e.store), hrisk⟩
  · exact ⟨_, e.risk, rfl, refreshTokenOrders_positions .., .refl _⟩

/-- The engine with the marks of what the market looks like now. -/
def seen (e : Engine) (m : Market) (obs : Observation) : Engine :=
  match m.sight obs with
  | .error _ => e
  | .ok micro => e.valued m obs micro

@[simp] theorem seen_store (e : Engine) (m : Market) (obs : Observation) :
    (e.seen m obs).store = e.store := by
  unfold seen
  split <;> rfl

@[simp] theorem seen_markets (e : Engine) (m : Market) (obs : Observation) :
    (e.seen m obs).markets = e.markets := by
  unfold seen
  split <;> rfl

/-- **The frame of a recompute.** -/
theorem recompute_frame {e : Engine} {cid : ConditionId} {m : Market} (obs : Observation)
    (ans : Answers) (hm : e.markets.get? cid = some m) :
    ∃ m' s' r', (e.recompute cid obs ans).engine =
        { e with markets := e.markets.set cid m', store := s', risk := r' } ∧
      m'.info = m.info ∧ m'.profile = m.profile ∧ s'.positions = e.store.positions ∧
      (e.seen m obs).risk.SameLedger r' := by
  cases hsight : m.sight obs with
  | ok micro =>
    obtain ⟨-, hrec⟩ := recompute_of_ok ans hm hsight
    obtain ⟨s', r', heq, hpos, hrisk⟩ := carryOut_frame (e.decided cid m obs micro).1 m
      (e.decided cid m obs micro).2 obs ans
    refine ⟨(e.decision m obs micro).1, s', r', hrec ▸ heq, rfl, rfl, hpos, ?_⟩
    unfold seen
    rw [hsight]
    exact (RiskManager.sameLedger_evaluate ..).trans hrisk
  | error why =>
    obtain ⟨-, hrec⟩ := recompute_of_error ans hm hsight
    obtain ⟨m', hinfo, hprofile, heq⟩ := e.maybePullOnBadBook_eq cid m obs ans
    have hrisk : (e.seen m obs).risk.SameLedger (e.haltedOrBlind m obs).1 := by
      unfold seen
      rw [hsight]
      unfold haltedOrBlind
      split_ifs
      · exact .refl _
      · exact RiskManager.sameLedger_globalHalt ..
    rw [hrec, heq]
    split_ifs
    · obtain ⟨s', heq', hpos⟩ := pullAllQuotes_frame
        ({ e with risk := (e.haltedOrBlind m obs).1 }.setMarket cid m') m.info ans
      exact ⟨m', s', _, heq', hinfo, hprofile, hpos, hrisk⟩
    · exact ⟨m', e.store, _, rfl, hinfo, hprofile, rfl, hrisk⟩

/-! ### What it keeps -/

/-- A recompute keeps the orders under their ids. -/
theorem keyed_recompute {e : Engine} (hk : e.store.Keyed) (cid : ConditionId) (obs : Observation)
    (ans : Answers) : (e.recompute cid obs ans).engine.store.Keyed := by
  have hcase := recompute_cases e cid obs ans
  generalize (e.recompute cid obs ans).engine.store = s at hcase ⊢
  generalize (e.recompute cid obs ans).calls = calls at hcase
  generalize (e.recompute cid obs ans).returned = returned at hcase
  cases hcase with
  | idle => exact hk
  | pulled => exact hk.foldl_removeOrder _
  | pullFailed => exact hk
  | cancelFailed m => exact hk.refreshTokenOrders m.info _ _ _
  | cancelled => exact hk.foldl_removeOrder _
  | complete => exact (hk.foldl_removeOrder _).foldl_upsertOrder _
  | quarantined m => exact ((hk.foldl_removeOrder _).foldl_upsertOrder _).quarantine m.info _ _

/-- A recompute keeps the metadata of the markets. -/
theorem infos_recompute (e : Engine) (cid : ConditionId) (obs : Observation) (ans : Answers) :
    (e.recompute cid obs ans).engine.markets.values.map Market.info =
      e.markets.values.map Market.info := by
  cases hm : e.markets.get? cid with
  | none => rw [(recompute_of_none obs ans hm).2]
  | some m =>
    obtain ⟨m', s', r', heq, hinfo, -⟩ := recompute_frame obs ans hm
    rw [heq]
    exact Dict.map_values_set hm hinfo

/-- The tokens of all markets are those of the metadata. -/
theorem allTokens_eq (e : Engine) :
    e.allTokens = ((e.markets.values.map Market.info).flatMap MarketMeta.tokens).dedup := by
  unfold allTokens
  rw [List.flatMap_map]

theorem allTokens_recompute (e : Engine) (cid : ConditionId) (obs : Observation) (ans : Answers) :
    (e.recompute cid obs ans).engine.allTokens = e.allTokens := by
  rw [allTokens_eq, allTokens_eq, infos_recompute]

end Engine

end Polymaker
