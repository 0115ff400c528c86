import Polymaker.Engine.Live

/-!
# Scope

The engine is meant to know of the tokens it trades alone: `_only_traded` filters the reads of the
account, and `_on_fill` the cash of fills.  Trade events reach the store before that.

* `Scoped`: only traded tokens are held;
* `Valued`: a trade moves equity by the difference between mark and price, on every share, and one
  of a token that is not traded moves nothing;
* `InScope`: the condition on a trade, in the state it arrives in, under which both hold;
* `OwnTrade`: a condition that is enough for it;
* `scope_iff`: a run keeps to both if and only if every step of it is in scope.
-/

namespace Polymaker

namespace LiveEngine

/-- `equity` of the risk manager. -/
def equity (l : LiveEngine) : ℚ := l.engine.risk.equity l.engine.store

/-- Only traded tokens are held. -/
def Scoped (m : Markets) (l : LiveEngine) : Prop :=
  ∀ tok, 0 < (l.engine.store.position tok).size → tok ∈ m.tokenCid

/-- No figure of the risk manager moves from `l` to `l'`. -/
structure SameFigures (l l' : LiveEngine) : Prop where
  equity : l'.equity = l.equity
  totalExposure : l'.engine.risk.totalExposure l'.engine.store =
    l.engine.risk.totalExposure l.engine.store
  marketNotional (mkt : MarketMeta) : l'.engine.risk.marketNotional l'.engine.store mkt =
    l.engine.risk.marketNotional l.engine.store mkt

/-- A trade that applies a fill of a marked token moves equity by the difference between mark and
price on every share; if the token is not traded, it moves no figure. -/
def Valued (m : Markets) (l : LiveEngine) : EngineEvent → Prop
  | .trade ev now => ∀ g, l.proc.pendingFill ev = some g →
      (∀ p, l.engine.risk.marks.get? g.tokenId = some p →
        (l.onTrade m ev now).equity = l.equity + (p - g.price) * g.signed) ∧
      (g.tokenId ∉ m.tokenCid → l.SameFigures (l.onTrade m ev now))
  | _ => True

/-- The shares of a sale that were not held. -/
def oversold (l : LiveEngine) (g : Fill) : ℚ :=
  max 0 (-((l.engine.store.position g.tokenId).size + g.signed))

/-- The cash of a fill that the ledger does not see. -/
def unseenCash (m : Markets) (l : LiveEngine) (ev : TradeEvent) (g : Fill) : ℚ :=
  if l.Reported ev ∧ g.tokenId ∈ m.tokenCid then 0 else g.price * g.signed

/-- The fill that the trade applies is of a traded token or adds no shares; and of a marked token,
what was sold without being held and the cash that the ledger does not see cancel out. -/
def InScope (m : Markets) (l : LiveEngine) : EngineEvent → Prop
  | .trade ev _ => ∀ g, l.proc.pendingFill ev = some g →
      (g.tokenId ∈ m.tokenCid ∨ g.signed ≤ 0) ∧
      ∀ p, l.engine.risk.marks.get? g.tokenId = some p →
        l.oversold g * p + unseenCash m l ev g = 0
  | _ => True

/-- The fill that the trade applies is of a traded token; and of a marked one, the callback sees it
and it sells no more than is held. -/
def OwnTrade (m : Markets) (l : LiveEngine) : EngineEvent → Prop
  | .trade ev _ => ∀ g, l.proc.pendingFill ev = some g →
      g.tokenId ∈ m.tokenCid ∧ (g.tokenId ∈ l.engine.risk.marks →
        l.Reported ev ∧ 0 ≤ (l.engine.store.position g.tokenId).size + g.signed)
  | _ => True

theorem inScope_of_ownTrade {m : Markets} {l : LiveEngine} {e : EngineEvent}
    (h : OwnTrade m l e) : InScope m l e := by
  cases e with
  | trade ev now =>
    intro g hpend
    obtain ⟨htok, hmarked⟩ := h g hpend
    refine ⟨.inl htok, fun p hp => ?_⟩
    obtain ⟨hrep, hsize⟩ := hmarked (Dict.mem_of_get? hp)
    unfold oversold unseenCash
    rw [if_pos ⟨hrep, htok⟩, max_eq_left (neg_nonpos.2 hsize)]
    ring
  | _ => trivial

/-! ### One trade -/

section Trade

variable {m : Markets} {l : LiveEngine} {ev : TradeEvent} (now : ℚ) {g : Fill}
  (hpend : l.proc.pendingFill ev = some g)
include hpend

/-- The cash that a trade moves is that of its fill, less what the ledger does not see. -/
theorem netCash_onTrade : (l.onTrade m ev now).engine.risk.netCash =
    l.engine.risk.netCash - g.price * g.signed + unseenCash m l ev g := by
  have hcash : g.cash = -(g.price * g.signed) := by
    unfold Fill.cash Fill.signed
    cases g.side <;> ring
  unfold unseenCash
  rw [trade_risk m now hpend]
  split_ifs
  · show l.engine.risk.netCash + g.cash = _
    rw [hcash]
    ring
  · ring

theorem marks_onTrade : (l.onTrade m ev now).engine.risk.marks = l.engine.risk.marks := by
  rw [trade_risk m now hpend]
  split_ifs <;> rfl

/-- The equity after a trade of a marked token. -/
theorem equity_onTrade (hset : l.Settled) {p : ℚ}
    (hp : l.engine.risk.marks.get? g.tokenId = some p) :
    (l.onTrade m ev now).equity = l.equity + (p - g.price) * g.signed +
      (l.oversold g * p + unseenCash m l ev g) := by
  have hworth := worth_set (trade_positions m now hpend)
    fun tok pos => l.engine.risk.marks.getD tok pos.avgPrice
  have hmark (pos : Position) : l.engine.risk.marks.getD g.tokenId pos.avgPrice = p := by
    unfold Dict.getD
    rw [hp, Option.getD_some]
  have hsize : 0 ≤ (l.engine.store.position g.tokenId).size := by
    rcases hset g.tokenId with h | h
    · exact h.le
    · rw [h]; exact le_rfl
  have hclip (x : ℚ) : max 0 x = x + max 0 (-x) := by
    rcases le_total 0 x with h | h
    · rw [max_eq_right h, max_eq_left (neg_nonpos.2 h), add_zero]
    · rw [max_eq_left h, max_eq_right (neg_nonneg.2 h), add_neg_cancel]
  have hafter : max 0 ((l.engine.store.position g.tokenId).apply g).size =
      (l.engine.store.position g.tokenId).size + g.signed + l.oversold g := by
    rw [max_eq_right (Position.apply_size_nonneg _ g), Position.apply_size, hclip]
    rfl
  rw [hmark, hmark, hafter, max_eq_right hsize] at hworth
  unfold equity RiskManager.equity
  rw [netCash_onTrade now hpend, RiskManager.inventoryValue_eq_worth,
    RiskManager.inventoryValue_eq_worth, marks_onTrade now hpend]
  linarith

/-- A fill of a token that is not traded, which adds no shares to none, moves no figure. -/
theorem sameFigures_onTrade (hset : l.Settled) (hscoped : l.Scoped m)
    (htok : g.tokenId ∉ m.tokenCid) (hsigned : g.signed ≤ 0) :
    l.SameFigures (l.onTrade m ev now) := by
  have hflat : l.engine.store.position g.tokenId = .flat :=
    (hset g.tokenId).resolve_left fun h => htok (hscoped _ h)
  have hafter : (l.engine.store.position g.tokenId).apply g = .flat := by
    refine Position.apply_eq_flat ?_
    rw [Position.apply_size, hflat]
    exact max_le le_rfl (by rw [Position.flat]; linarith)
  have hrisk : (l.onTrade m ev now).engine.risk = l.engine.risk := by
    rw [trade_risk m now hpend, if_neg fun h => htok h.2]
  have hworth (price : TokenId → Position → ℚ) :
      (l.onTrade m ev now).engine.store.worth price = l.engine.store.worth price := by
    have h := worth_set (trade_positions m now hpend) price
    rw [hafter, hflat] at h
    exact add_right_cancel h
  have hpos (tok : TokenId) : (l.onTrade m ev now).engine.store.position tok =
      l.engine.store.position tok := by
    rw [trade_position m now hpend]
    split_ifs with heq
    · rw [heq, hafter, hflat]
    · rfl
  refine ⟨?_, ?_, fun mkt => ?_⟩
  · unfold equity RiskManager.equity
    rw [hrisk, RiskManager.inventoryValue_eq_worth, RiskManager.inventoryValue_eq_worth, hworth]
  · rw [hrisk, RiskManager.totalExposure_eq_worth, RiskManager.totalExposure_eq_worth, hworth]
  · unfold RiskManager.marketNotional
    rw [hrisk, hpos, hpos]

/-- Only traded tokens are held after a trade, if its fill is of one or adds no shares. -/
theorem scoped_onTrade_iff (hset : l.Settled) (hscoped : l.Scoped m) :
    (l.onTrade m ev now).Scoped m ↔ g.tokenId ∈ m.tokenCid ∨ g.signed ≤ 0 := by
  constructor
  · intro h
    by_contra hno
    obtain ⟨htok, hsigned⟩ := not_or.1 hno
    have hflat : l.engine.store.position g.tokenId = .flat :=
      (hset g.tokenId).resolve_left fun h => htok (hscoped _ h)
    refine htok (h g.tokenId ?_)
    rw [trade_position m now hpend, if_pos rfl, Position.apply_size, hflat]
    exact lt_max_of_lt_right (by rw [Position.flat]; linarith [not_le.1 hsigned])
  · intro h tok htok
    rw [trade_position m now hpend] at htok
    split_ifs at htok with heq
    · rw [heq]
      rcases h with h | hsigned
      · exact h
      · -- a sale leaves shares where there were some
        refine hscoped _ ?_
        rw [Position.apply_size, lt_max_iff] at htok
        rcases htok with htok | htok <;> linarith
    · exact hscoped tok htok

end Trade

/-- A trade keeps the engine in scope if it meets the condition, and only then. -/
theorem scoped_and_valued_onTrade_iff {m : Markets} {l : LiveEngine} {ev : TradeEvent} {now : ℚ}
    {g : Fill} (hpend : l.proc.pendingFill ev = some g) (hset : l.Settled) (hscoped : l.Scoped m) :
    ((l.onTrade m ev now).Scoped m ∧ Valued m l (.trade ev now)) ↔ InScope m l (.trade ev now) := by
  have hvalued : Valued m l (.trade ev now) ↔
      (∀ p, l.engine.risk.marks.get? g.tokenId = some p →
        l.oversold g * p + unseenCash m l ev g = 0) ∧
      (g.tokenId ∉ m.tokenCid → l.SameFigures (l.onTrade m ev now)) := by
    unfold Valued
    simp only [hpend, Option.some.injEq, forall_eq']
    refine and_congr_left' (forall₂_congr fun p hp => ?_)
    rw [equity_onTrade now hpend hset hp]
    exact add_eq_left
  have hscope : InScope m l (.trade ev now) ↔ (g.tokenId ∈ m.tokenCid ∨ g.signed ≤ 0) ∧
      ∀ p, l.engine.risk.marks.get? g.tokenId = some p →
        l.oversold g * p + unseenCash m l ev g = 0 := by
    unfold InScope
    simp only [hpend, Option.some.injEq, forall_eq']
  rw [hvalued, hscope, scoped_onTrade_iff now hpend hset hscoped]
  constructor
  · exact fun h => ⟨h.1, h.2.1⟩
  · exact fun h => ⟨h.1, h.2, fun htok =>
      sameFigures_onTrade now hpend hset hscoped htok (h.1.resolve_left htok)⟩

/-! ### The other steps -/

/-- The divergence check waits for traded tokens. -/
def AsksTraded (m : Markets) (l : LiveEngine) : Prop :=
  ∀ wanted, l.waiting = some wanted → ∀ tok ∈ wanted, tok ∈ m.tokenCid

theorem AsksTraded.step {m : Markets} {l : LiveEngine} (h : l.AsksTraded m) (e : EngineEvent) :
    (l.step m e).AsksTraded m := by
  intro wanted hwanted tok htok
  have hkeep : l.waiting = some wanted → tok ∈ m.tokenCid := fun hw => h wanted hw tok htok
  cases e with
  | check =>
    have hcheck : (m.step l.checkRun .check).waiting = some wanted := hwanted
    unfold Markets.step at hcheck
    dsimp only at hcheck
    split at hcheck
    · exact hkeep hcheck
    · split_ifs at hcheck
      · exact hkeep hcheck
      · rw [← Option.some.inj hcheck] at htok
        exact (List.mem_filter.1 (mem_tokenVersions htok)).1
  | balances chain now =>
    -- once the balances have arrived, the check waits no longer
    have hans : (m.step l.checkRun (.answer chain)).waiting = some wanted := hwanted
    unfold Markets.step at hans
    cases hchain : l.checkRun.answered chain <;> simp only [hchain] at hans <;> cases hans
  | positions read => cases read <;> exact hkeep hwanted
  | _ => exact hkeep hwanted

/-- A balance that arrives is of a traded token. -/
theorem AsksTraded.mem {m : Markets} {l : LiveEngine} (h : l.AsksTraded m)
    {chain : Option (Option String → TokenId → ℚ)} {tok : TokenId} {size : ℚ}
    (hsize : ((l.checkRun.answered chain).bind fun onchain => onchain.get? tok) = some size) :
    tok ∈ m.tokenCid := by
  obtain ⟨onchain, hans, hget⟩ := Option.bind_eq_some_iff.1 hsize
  obtain ⟨wanted, hwanted, hread⟩ := Option.bind_eq_some_iff.1 hans
  exact h wanted hwanted tok (mem_of_tokenBalances hread (Dict.mem_of_get? hget))

/-- Reads and corrections reach traded tokens alone. -/
theorem scoped_step {m : Markets} {l : LiveEngine} (hscoped : l.Scoped m) (hasks : l.AsksTraded m)
    {e : EngineEvent} (h : ∀ ev now, e ≠ .trade ev now) : (l.step m e).Scoped m := by
  intro tok htok
  by_contra hno
  have hpos : ¬ 0 < (l.engine.store.position tok).size := fun hpos => hno (hscoped tok hpos)
  rcases e.quiet_or with hquiet | ⟨ev, now, rfl⟩ | ⟨read, now, rfl⟩ | ⟨chain, now, rfl⟩
  · rw [quiet_position l m hquiet] at htok
    exact hpos htok
  · exact h ev now rfl
  · rw [reads_position, onlyTraded_get?, if_neg hno, if_neg hpos, ite_self] at htok
    exact hpos htok
  · rw [balances_position] at htok
    cases hsize : (l.checkRun.answered chain).bind fun onchain => onchain.get? tok with
    | none =>
      rw [hsize] at htok
      exact hpos htok
    | some size => exact hno (hasks.mem hsize)

/-- **One step** keeps the engine in scope if it meets the condition, and only then. -/
theorem scoped_and_valued_step_iff {m : Markets} {l : LiveEngine}
    (hI : l.Settled ∧ l.AsksTraded m) (hscoped : l.Scoped m) (e : EngineEvent) :
    (l.step m e).Scoped m ∧ Valued m l e ↔ InScope m l e := by
  by_cases htrade : ∃ ev now, e = .trade ev now
  · obtain ⟨ev, now, rfl⟩ := htrade
    cases hpend : l.proc.pendingFill ev with
    | none =>
      refine iff_of_true ⟨?_, fun g hg => ?_⟩ fun g hg => ?_
      · intro tok htok
        rw [show l.step m (.trade ev now) = l.onTrade m ev now from rfl,
          position_congr (trade_of_none m now hpend).1] at htok
        exact hscoped tok htok
      · rw [hpend] at hg; cases hg
      · rw [hpend] at hg; cases hg
    | some g => exact scoped_and_valued_onTrade_iff hpend hI.1 hscoped
  · have hother : ∀ ev now, e ≠ .trade ev now := fun ev now heq => htrade ⟨ev, now, heq⟩
    have htrivial : Valued m l e ∧ InScope m l e := by
      cases e with
      | trade ev now => exact absurd rfl (hother ev now)
      | _ => exact ⟨trivial, trivial⟩
    exact iff_of_true ⟨scoped_step hscoped hI.2 hother, htrivial.1⟩ htrivial.2

end LiveEngine

open LiveEngine

/-- **When the engine knows of its own tokens alone.**  Along every run of the engine after
start-up, only traded tokens are held and every trade moves equity by the difference between mark
and price on every share, or moves nothing if its token is not traded, if and only if every step is
in scope; and every step is where each fill is of a traded token and, if that is marked, is seen by
the callback and sells no more than is held. -/
theorem scope_iff (m : Markets) (execution : ExecutionConfig) (markets : Dict ConditionId Market)
    (cfg : RiskConfig) (db : Db) (read : Option (Dict TokenId (ℚ × ℚ))) (now : ℚ)
    (es : List EngineEvent) :
    let start := LiveEngine.startUp m execution markets cfg db read now
    (Run.Always (LiveEngine.step m) (Scoped m) start es ∧
        Run.EachStep (LiveEngine.step m) (Valued m) start es ↔
      Run.EachStep (LiveEngine.step m) (InScope m) start es) ∧
    (Run.EachStep (LiveEngine.step m) (OwnTrade m) start es →
      Run.EachStep (LiveEngine.step m) (InScope m) start es) := by
  intro start
  have hI : start.Settled ∧ start.AsksTraded m := by
    refine ⟨settled_startUp m execution markets cfg db read now, fun wanted hw => ?_⟩
    cases hw
  have hscoped : start.Scoped m := by
    intro tok htok
    rcases startUp_position m execution markets cfg db read now tok with h | h
    · rw [h] at htok
      exact absurd htok (lt_irrefl 0)
    · exact h.1
  refine ⟨?_, fun h pre e post heq => inScope_of_ownTrade (h pre e post heq)⟩
  exact Run.always_and_eachStep_iff (I := fun l => l.Settled ∧ l.AsksTraded m) (P := Scoped m)
    (fun l e h => ⟨h.1.step m e, h.2.step e⟩)
    (fun l e h hs => scoped_and_valued_step_iff h hs e) hI hscoped

/-- A purchase of a token that is not traded: its 370 shares are held and counted at cost, and no
cash was paid for them. -/
theorem not_scoped_of_manual_purchase :
    let m : Markets := ⟨(Dict.empty.set "y" "c").set "n" "c", Dict.empty⟩
    let start := LiveEngine.startUp m {} Dict.empty {} .fresh none 0
    let es : List EngineEvent := [.trade ⟨"s", .buy, 54 / 100, 370, "t", .matched, 1⟩ 1]
    let l := Run.run (LiveEngine.step m) start es
    "s" ∉ m.tokenCid ∧ l.equity = start.equity + 1998 / 10 ∧
      l.engine.risk.totalExposure l.engine.store = 1998 / 10 ∧
      ¬ (Run.Always (LiveEngine.step m) (Scoped m) start es ∧
        Run.EachStep (LiveEngine.step m) (Valued m) start es) := by
  intro m start es l
  have htok : "s" ∉ m.tokenCid := by decide +kernel
  refine ⟨htok, by decide +kernel, by decide +kernel, fun hall => ?_⟩
  have hlast : Scoped m l := hall.1.last
  exact htok (hlast "s" (by decide +kernel))

end Polymaker
