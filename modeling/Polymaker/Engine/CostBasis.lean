import Mathlib.Tactic.FieldSimp
import Polymaker.Engine.Live
import Polymaker.Lib.Blend

/-!
# Cash, cost basis and realised profit

The risk manager keeps the cash and the store keeps the average prices.  A purchase turns cash into
cost basis, and a sale turns cost basis into cash and realises the difference of the prices.

* `AppliedFill`: a fill with the position just before it; a log of them gives the realised profit,
  the signed sum of a token and the prices paid since it was last flat;
* `basis_apply`, `Explained.apply`: one fill moves cash, basis and profit together, and the position
  stays explained by the log;
* `CostRun`: the engine beside the log of the fills its processor applies;
* `costs_reconcile`: what holds after every run of matches and confirmations.
-/

namespace Polymaker

/-! ### Logs of applied fills -/

/-- A fill that was applied, with the position just before it. -/
structure AppliedFill where
  fill : Fill
  before : Position
  deriving DecidableEq

namespace AppliedFill

/-- What a sale realises: its price less the average price just before, for each share. -/
def gain (a : AppliedFill) : ℚ :=
  match a.fill.side with
  | .buy => 0
  | .sell => (a.fill.price - a.before.avgPrice) * a.fill.size

/-- The prices paid since the token was last flat, from those before this fill. -/
def paid (prices : List ℚ) (a : AppliedFill) : List ℚ :=
  if (a.before.apply a.fill).size ≤ 0 then []
  else
    match a.fill.side with
    | .buy => prices ++ [a.fill.price]
    | .sell => prices

/-- The fill has a positive size, and a sale does not exceed the holding. -/
def Covered (a : AppliedFill) : Prop :=
  0 < a.fill.size ∧ (a.fill.side = .sell → a.fill.size ≤ a.before.size)

end AppliedFill

/-- The profit realised by the sales of a log. -/
def realised (log : List AppliedFill) : ℚ := (log.map AppliedFill.gain).sum

/-- The part of a log about one token. -/
def onToken (log : List AppliedFill) (tok : TokenId) : List AppliedFill :=
  log.filter fun a => decide (a.fill.tokenId = tok)

/-- The signed sum of the fills of a token. -/
def signedSum (log : List AppliedFill) (tok : TokenId) : ℚ :=
  ((onToken log tok).map fun a => a.fill.signed).sum

/-- The prices paid for a token since it was last flat. -/
def paidSinceFlat (log : List AppliedFill) (tok : TokenId) : List ℚ :=
  (onToken log tok).foldl AppliedFill.paid []

section Concat

variable {log : List AppliedFill} {a : AppliedFill} {tok : TokenId}

theorem realised_concat : realised (log ++ [a]) = realised log + a.gain := by
  simp [realised]

theorem onToken_concat : onToken (log ++ [a]) tok =
    if a.fill.tokenId = tok then onToken log tok ++ [a] else onToken log tok := by
  unfold onToken
  rw [List.filter_append, List.filter_singleton]
  split_ifs <;> simp_all

theorem signedSum_concat (h : a.fill.tokenId = tok) :
    signedSum (log ++ [a]) tok = signedSum log tok + a.fill.signed := by
  unfold signedSum
  rw [onToken_concat, if_pos h]
  simp

theorem paidSinceFlat_concat (h : a.fill.tokenId = tok) :
    paidSinceFlat (log ++ [a]) tok = a.paid (paidSinceFlat log tok) := by
  unfold paidSinceFlat
  rw [onToken_concat, if_pos h, List.foldl_append]
  rfl

end Concat

/-! ### One fill -/

/-- What a position cost. -/
def Position.basis (pos : Position) : ℚ := pos.size * pos.avgPrice

section Apply

variable {pos : Position} {g : Fill}

theorem Position.apply_avgPrice_of_flat (h : pos.size = 0) (hside : g.side = .buy)
    (hpos : 0 < g.size) : (pos.apply g).avgPrice = g.price := by
  simp [Position.apply, Fill.signed, hside, h, hpos]

theorem Position.apply_avgPrice_of_held (h : 0 < pos.size) (hside : g.side = .buy)
    (hpos : 0 < g.size) : (pos.apply g).avgPrice =
      (pos.avgPrice * pos.size + g.price * g.size) / (pos.size + g.size) := by
  have hsum : 0 < pos.size + g.size := add_pos h hpos
  simp [Position.apply, Fill.signed, hside, not_le.2 h, not_le.2 hsum]

theorem Position.apply_avgPrice_of_sell (hside : g.side = .sell) (h : (pos.apply g).size ≠ 0) :
    (pos.apply g).avgPrice = pos.avgPrice := by
  have hpos : ¬ (pos.apply g).size ≤ 0 := fun hle =>
    h (le_antisymm hle (pos.apply_size_nonneg g))
  rw [Position.apply_size] at hpos
  simp only [Position.apply, hside]
  exact if_neg hpos

theorem Fill.signed_of_buy (hside : g.side = .buy) : g.signed = g.size := by
  simp [Fill.signed, hside]

theorem Fill.signed_of_sell (hside : g.side = .sell) : g.signed = -g.size := by
  simp [Fill.signed, hside]

/-- A covered fill is not cut off at zero. -/
theorem apply_size_of_covered (hc : AppliedFill.Covered ⟨g, pos⟩) (h0 : 0 ≤ pos.size) :
    (pos.apply g).size = pos.size + g.signed := by
  obtain ⟨hpos, hheld⟩ := hc
  rw [Position.apply_size]
  refine max_eq_right ?_
  cases hside : g.side with
  | buy =>
    rw [Fill.signed_of_buy hside]
    exact add_nonneg h0 hpos.le
  | sell =>
    rw [Fill.signed_of_sell hside, ← sub_eq_add_neg]
    exact sub_nonneg.2 (hheld hside)

/-- **One fill** moves the basis and the cash by what it realises. -/
theorem basis_apply (hc : AppliedFill.Covered ⟨g, pos⟩) (h0 : 0 ≤ pos.size) :
    (pos.apply g).basis + g.cash = pos.basis + AppliedFill.gain ⟨g, pos⟩ := by
  have hsize := apply_size_of_covered hc h0
  have hpos : 0 < g.size := hc.1
  unfold Position.basis AppliedFill.gain
  cases hside : g.side with
  | buy =>
    have hcash : g.cash = -(g.price * g.size) := by simp [Fill.cash, hside]
    rw [hsize, hcash, Fill.signed_of_buy hside]
    rcases h0.eq_or_lt with hflat | hheld
    · rw [Position.apply_avgPrice_of_flat hflat.symm hside hpos, ← hflat]
      ring
    · have hsum : pos.size + g.size ≠ 0 := (add_pos hheld hpos).ne'
      rw [Position.apply_avgPrice_of_held hheld hside hpos, mul_div_cancel₀ _ hsum]
      ring
  | sell =>
    have hcash : g.cash = g.price * g.size := by simp [Fill.cash, hside]
    have hsold : pos.size + g.signed = pos.size - g.size := by
      rw [Fill.signed_of_sell hside, sub_eq_add_neg]
    have hbasis : (pos.apply g).size * (pos.apply g).avgPrice =
        (pos.size - g.size) * pos.avgPrice := by
      by_cases hz : (pos.apply g).size = 0
      · rw [hz, ← hsold, ← hsize, hz, zero_mul, zero_mul]
      · rw [Position.apply_avgPrice_of_sell hside hz, hsize, hsold]
    rw [hbasis, hcash]
    ring

end Apply

/-- A position as the log of the applied fills explains it. -/
structure Explained (log : List AppliedFill) (tok : TokenId) (pos : Position) : Prop where
  size_eq : pos.size = signedSum log tok
  nonneg : 0 ≤ pos.size
  flat : pos.size = 0 → pos.avgPrice = 0
  between : pos.size ≠ 0 → Between (paidSinceFlat log tok) pos.avgPrice

namespace Explained

variable {log : List AppliedFill} {tok : TokenId} {pos : Position}

theorem nil (tok : TokenId) : Explained [] tok .flat where
  size_eq := rfl
  nonneg := le_rfl
  flat _ := rfl
  between h := absurd rfl h

/-- A fill of another token explains nothing new. -/
theorem other (h : Explained log tok pos) {a : AppliedFill} (ha : a.fill.tokenId ≠ tok) :
    Explained (log ++ [a]) tok pos := by
  have hlog : onToken (log ++ [a]) tok = onToken log tok := by rw [onToken_concat, if_neg ha]
  refine ⟨?_, h.nonneg, h.flat, ?_⟩
  · unfold signedSum
    rw [hlog]
    exact h.size_eq
  · unfold paidSinceFlat
    rw [hlog]
    exact h.between

/-- A fill of the token keeps its position explained. -/
theorem apply {g : Fill} (h : Explained log g.tokenId pos) (hc : AppliedFill.Covered ⟨g, pos⟩) :
    Explained (log ++ [⟨g, pos⟩]) g.tokenId (pos.apply g) where
  size_eq := by
    rw [signedSum_concat rfl, ← h.size_eq]
    exact apply_size_of_covered hc h.nonneg
  nonneg := pos.apply_size_nonneg g
  flat hz := by rw [Position.apply_eq_flat hz.le]; rfl
  between hz := by
    have hheld : ¬ (pos.apply g).size ≤ 0 := fun hle =>
      hz (le_antisymm hle (pos.apply_size_nonneg g))
    rw [paidSinceFlat_concat rfl, AppliedFill.paid, if_neg hheld]
    cases hside : g.side with
    | buy =>
      rcases h.nonneg.eq_or_lt with hflat | hpos
      · rw [Position.apply_avgPrice_of_flat hflat.symm hside hc.1]
        exact .of_mem (List.mem_append_right _ (List.mem_singleton.2 rfl))
      · rw [Position.apply_avgPrice_of_held hpos hside hc.1]
        exact (h.between hpos.ne').mean hpos.le hc.1.le (add_pos hpos hc.1)
    | sell =>
      -- what is left after the sale was held before it
      have hpos : pos.size ≠ 0 := by
        intro h0
        have hle : g.size ≤ pos.size := hc.2 hside
        exact absurd hc.1 (not_lt.2 (hle.trans h0.le))
      rw [Position.apply_avgPrice_of_sell hside hz]
      exact h.between hpos

end Explained

/-! ### The run -/

/-- The sum of size times average price over the tokens. -/
def StateStore.costBasis (s : StateStore) : ℚ := s.positions.sum fun _ pos => pos.basis

theorem costBasis_set {s s' : StateStore} {tok : TokenId} {pos : Position}
    (h : s'.positions = s.positions.set tok pos) :
    s'.costBasis + (s.position tok).basis = s.costBasis + pos.basis := by
  have hset := Dict.sum_set (fun _ pos => pos.basis) s.positions tok pos
  have hold : (s.positions.get? tok).elim 0 Position.basis = (s.position tok).basis := by
    unfold StateStore.position Dict.getD
    cases s.positions.get? tok with
    | none => exact (zero_mul _).symm
    | some pos => rfl
  unfold StateStore.costBasis
  rw [h, ← hold]
  exact hset

/-- The engine, and the log of the fills its processor applied. -/
structure CostRun where
  live : LiveEngine
  log : List AppliedFill

namespace CostRun

/-- An empty store and an empty ledger, at time `now`. -/
def start (m : Markets) (execution : ExecutionConfig) (markets : Dict ConditionId Market)
    (cfg : RiskConfig) (now : ℚ) : CostRun :=
  ⟨.startUp m execution markets cfg .fresh none now, []⟩

/-- A trade event: the fills that `on_trade` applies are logged. -/
def step (m : Markets) (c : CostRun) (e : TimedEvent) : CostRun where
  live := c.live.onTrade m e.ev e.now
  log := c.log ++ (fillsOf (c.live.proc.onTrade e.ev e.now).2).map fun f =>
    ⟨f, c.live.engine.store.position f.tokenId⟩

/-- A match or a confirmation of a traded token, of a positive size as the parser lets through; a
sale that is applied does not exceed the holding. -/
structure Valid (m : Markets) (c : CostRun) (e : TimedEvent) : Prop where
  status : e.ev.status = .matched ∨ e.ev.status = .confirmed
  traded : e.ev.tokenId ∈ m.tokenCid
  size_pos : 0 < e.ev.size
  held : ∀ f ∈ fillsOf (c.live.proc.onTrade e.ev e.now).2, f.side = .sell →
    f.size ≤ (c.live.engine.store.position f.tokenId).size

/-- Cash and cost basis are the realised profit, and the log explains every position. -/
structure Reconciled (c : CostRun) : Prop where
  cash : c.live.engine.risk.netCash + c.live.engine.store.costBasis = realised c.log
  explained : ∀ tok, Explained c.log tok (c.live.engine.store.position tok)

theorem reconciled_start (m : Markets) (execution : ExecutionConfig)
    (markets : Dict ConditionId Market) (cfg : RiskConfig) (now : ℚ) :
    (start m execution markets cfg now).Reconciled where
  cash := add_zero (0 : ℚ)
  explained := .nil

section Step

variable {m : Markets} {c : CostRun} {e : TimedEvent}

/-- A step of a run of matches and confirmations applies nothing, or the fill of a match. -/
theorem Valid.pending (hv : Valid m c e) :
    c.live.proc.pendingFill e.ev = none ∨
      e.ev.status = .matched ∧ c.live.proc.pendingFill e.ev = some e.ev.fill := by
  unfold UserEventProcessor.pendingFill
  rcases hv.status with hst | hst
  · rw [hst]
    dsimp only
    split_ifs
    · exact .inl rfl
    · exact .inr ⟨rfl, rfl⟩
  · rw [hst]
    exact .inl rfl

/-- A duplicate or a confirmation moves neither ledger. -/
theorem Reconciled.step_of_none (h : c.Reconciled)
    (hnone : c.live.proc.pendingFill e.ev = none) : (c.step m e).Reconciled := by
  obtain ⟨hpos, hrisk, -⟩ := LiveEngine.trade_of_none m e.now hnone
  have hlog : (c.step m e).log = c.log := by
    rw [CostRun.step, fillsOf_onTrade, hnone]
    exact List.append_nil _
  constructor
  · rw [hlog, ← h.cash]
    unfold CostRun.step StateStore.costBasis
    rw [hpos, hrisk]
  · intro tok
    have hsame : (c.step m e).live.engine.store.position tok =
        c.live.engine.store.position tok := congrArg (·.getD tok Position.flat) hpos
    rw [hlog, hsame]
    exact h.explained tok

/-- The fill of a match moves the two ledgers by opposite amounts, up to what it realises. -/
theorem Reconciled.step_of_some (h : c.Reconciled) {g : Fill}
    (hsome : c.live.proc.pendingFill e.ev = some g) (hst : e.ev.status = .matched)
    (htok : g.tokenId ∈ m.tokenCid)
    (hcov : AppliedFill.Covered ⟨g, c.live.engine.store.position g.tokenId⟩) :
    (c.step m e).Reconciled := by
  set pos := c.live.engine.store.position g.tokenId with hpos
  have hlog : (c.step m e).log = c.log ++ [⟨g, pos⟩] := by
    rw [CostRun.step, fillsOf_onTrade, hsome]
    rfl
  have hex := h.explained g.tokenId
  constructor
  · have hrisk : (c.step m e).live.engine.risk = c.live.engine.risk.noteFill g :=
      (LiveEngine.trade_risk m e.now hsome).trans (if_pos ⟨.inl hst, htok⟩)
    have hcash : (c.step m e).live.engine.risk.netCash =
        c.live.engine.risk.netCash + g.cash := by rw [hrisk]; rfl
    have hbasis : (c.step m e).live.engine.store.costBasis + pos.basis =
        c.live.engine.store.costBasis + (pos.apply g).basis :=
      costBasis_set (LiveEngine.trade_positions m e.now hsome)
    have hmove := basis_apply hcov hex.nonneg
    rw [hlog, realised_concat, ← h.cash, hcash]
    linarith
  · intro tok
    have hnew : (c.step m e).live.engine.store.position tok =
        if tok = g.tokenId then pos.apply g else c.live.engine.store.position tok :=
      LiveEngine.trade_position m e.now hsome tok
    rw [hlog, hnew]
    split_ifs with heq
    · rw [heq]
      exact hex.apply hcov
    · exact (h.explained tok).other (Ne.symm heq)

theorem Reconciled.step (h : c.Reconciled) (hv : Valid m c e) : (c.step m e).Reconciled := by
  rcases hv.pending with hnone | ⟨hst, hsome⟩
  · exact h.step_of_none hnone
  · have hfills : fillsOf (c.live.proc.onTrade e.ev e.now).2 = [e.ev.fill] := by
      rw [fillsOf_onTrade, hsome]
      rfl
    refine h.step_of_some hsome hst hv.traded ⟨hv.size_pos, hv.held e.ev.fill ?_⟩
    rw [hfills]
    exact List.mem_singleton.2 rfl

end Step

end CostRun

/-- The average price is zero exactly when nothing is held, as far as the prices paid are
positive. -/
theorem Explained.avgPrice_eq_zero_iff {log : List AppliedFill} {tok : TokenId} {pos : Position}
    (h : Explained log tok pos) (hpaid : ∀ p ∈ paidSinceFlat log tok, 0 < p) :
    pos.avgPrice = 0 ↔ pos.size = 0 := by
  constructor
  · intro h0
    by_contra hne
    exact ((h.between hne).lt_of_forall hpaid).ne' h0
  · exact h.flat

/-- **Cash and cost basis are the realised profit**, after every run of matches and confirmations
with duplicates. -/
theorem costs_reconcile (m : Markets) (execution : ExecutionConfig)
    (markets : Dict ConditionId Market) (cfg : RiskConfig) (now : ℚ) (es : List TimedEvent)
    (hes : Run.EachStep (CostRun.step m) (CostRun.Valid m)
      (.start m execution markets cfg now) es) :
    let c := Run.run (CostRun.step m) (.start m execution markets cfg now) es
    c.live.engine.risk.netCash + c.live.engine.store.costBasis = realised c.log ∧
      ∀ tok, let pos := c.live.engine.store.position tok
        pos.size = signedSum c.log tok ∧ (pos.size = 0 → pos.avgPrice = 0) ∧
        (pos.size ≠ 0 → Between (paidSinceFlat c.log tok) pos.avgPrice) ∧
        ((∀ p ∈ paidSinceFlat c.log tok, 0 < p) → (pos.avgPrice = 0 ↔ pos.size = 0)) := by
  intro c
  have hall := Run.always_of_valid (P := CostRun.Reconciled) (V := CostRun.Valid m)
    (fun c e h hv => h.step hv) (CostRun.reconciled_start m execution markets cfg now) hes
  have hrec : c.Reconciled := hall.last
  refine ⟨hrec.cash, fun tok => ?_⟩
  have hex := hrec.explained tok
  exact ⟨hex.size_eq, hex.flat, hex.between, hex.avgPrice_eq_zero_iff⟩

/-- Ten shares are bought at 0.40, reported twice and confirmed, thirty are added at 0.60, and
twenty of the forty are sold at 0.65: two dollars are realised, and twenty shares at 0.55 are
left. -/
theorem costs_reconcile_of_round_trip :
    let m : Markets := ⟨Dict.empty.set "y" "c", Dict.empty⟩
    let buys : TradeEvent := ⟨"y", .buy, 40 / 100, 10, "t1", .matched, 1⟩
    let confirms : TradeEvent := { buys with status := .confirmed }
    let adds : TradeEvent := ⟨"y", .buy, 60 / 100, 30, "t2", .matched, 2⟩
    let sells : TradeEvent := ⟨"y", .sell, 65 / 100, 20, "t3", .matched, 3⟩
    let es : List TimedEvent :=
      [⟨buys, 1⟩, ⟨buys, 2⟩, ⟨confirms, 3⟩, ⟨buys, 4⟩, ⟨adds, 5⟩, ⟨sells, 6⟩]
    let c := Run.run (CostRun.step m) (.start m {} Dict.empty {} 0) es
    let pos := c.live.engine.store.position "y"
    c.live.engine.risk.netCash + c.live.engine.store.costBasis = realised c.log ∧
      Between (paidSinceFlat c.log "y") pos.avgPrice ∧
      (pos.avgPrice = 0 ↔ pos.size = 0) ∧ pos = ⟨20, 55 / 100⟩ ∧ realised c.log = 2 := by
  intro m buys confirms adds sells es
  have hvalid : Run.EachStep (CostRun.step m) (CostRun.Valid m) (.start m {} Dict.empty {} 0)
      es := by
    simp only [es, Run.eachStep_cons, Run.eachStep_nil, and_true]
    refine ⟨⟨?_, ?_, ?_, ?_⟩, ⟨?_, ?_, ?_, ?_⟩, ⟨?_, ?_, ?_, ?_⟩, ⟨?_, ?_, ?_, ?_⟩,
      ⟨?_, ?_, ?_, ?_⟩, ?_, ?_, ?_, ?_⟩
    all_goals decide +kernel
  have hrec := costs_reconcile m {} Dict.empty {} 0 es hvalid
  refine ⟨hrec.1, (hrec.2 "y").2.2.1 ?_, (hrec.2 "y").2.2.2 ?_, ?_, ?_⟩
  all_goals decide +kernel

/-- Ten shares are bought for nothing: they are held at an average price of zero. -/
theorem not_zero_exactly_when_flat_of_free_purchase :
    let m : Markets := ⟨Dict.empty.set "y" "c", Dict.empty⟩
    let buys : TradeEvent := ⟨"y", .buy, 0, 10, "t1", .matched, 1⟩
    let start := CostRun.start m {} Dict.empty {} 0
    let c := Run.run (CostRun.step m) start [⟨buys, 1⟩]
    let pos := c.live.engine.store.position "y"
    Run.EachStep (CostRun.step m) (CostRun.Valid m) start [⟨buys, 1⟩] ∧
      pos = ⟨10, 0⟩ ∧ ¬ (pos.avgPrice = 0 ↔ pos.size = 0) := by
  intro m buys start c pos
  have hpos : pos = ⟨10, 0⟩ := by decide +kernel
  refine ⟨?_, hpos, ?_⟩
  · rw [Run.eachStep_cons]
    refine ⟨⟨?_, ?_, ?_, ?_⟩, Run.eachStep_nil⟩
    all_goals decide +kernel
  · rw [hpos]
    norm_num

end Polymaker
