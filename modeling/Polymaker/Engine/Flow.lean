import Mathlib.Tactic.LinearCombination
import Polymaker.Config
import Polymaker.Lib.Dict
import Polymaker.MarketData.Wire
import Polymaker.Strategy.FlowBound

/-!
# Trade prints

`Engine._on_trade` of `engine.py`: a print on either token of a market enters the market's one flow
estimator, with the sign of its aggressor and whatever its token, and may flag a sweep.

* `TapeMarket`, `Tape`: what the engine keeps for the prints;
* `Tape.onTrade`; `FlowEvent`, `Tape.step`: prints, and the decays of the quoter between them;
* `flow?_run`: the flow of a market is fed the prints on its tokens, in order;
* `Twins`, `Twins.run`: estimators that saw one print with opposite signs never meet again;
* `sameStrength_iff`: when replacing a NO print by its complement leaves the strength of the flow.
-/

namespace Polymaker

/-- The print on the YES token that means the same as a print on the NO token. -/
def TradePrint.complement (p : TradePrint) (yes : TokenId) : TradePrint :=
  { p with assetId := yes, aggressor := p.aggressor.opposite, price := 1 - p.price }

/-- The settings of the sweep detector. -/
structure SweepSettings where
  eventSweepMult : ℚ := 4
  eventSweepFrac : ℚ := 4 / 5
  deriving DecidableEq, Repr

/-- What the engine keeps for the prints of one market. -/
structure TapeMarket where
  profile : StrategyProfile
  settings : SweepSettings
  flow : FlowEstimator ℝ
  sweep : Bool

/-- What the engine keeps for the prints: the market of each token, and the books. -/
structure Tape where
  tokenCid : Dict TokenId ConditionId
  markets : Dict ConditionId TapeMarket
  books : Dict TokenId LiveBook

/-- The size near the touch on the side that the aggressor takes. -/
def LiveBook.consumed (b : LiveBook) (aggressor : Side) : Option ℚ :=
  match b.book.bestBid, b.book.bestAsk with
  | some bb, some ba =>
    match aggressor with
    | .buy => some (b.book.asks.depthWithin ba.price (ba.price + 3 * b.tickSize))
    | .sell => some (b.book.bids.depthWithin (bb.price - 3 * b.tickSize) bb.price)
  | _, _ => none

/-- A print is a sweep: it is large, and it ate through the book. -/
def TapeMarket.isSweep (m : TapeMarket) (book : Option LiveBook) (tp : TradePrint) : Bool :=
  let base := m.profile.baseSizeUsdc / max tp.price (1 / 100)
  if tp.size < m.settings.eventSweepMult * base then false
  else
    match book.bind fun b => b.consumed tp.aggressor with
    | none => false
    | some consumed => decide (0 < consumed ∧ m.settings.eventSweepFrac * consumed ≤ tp.size)

/-- A print on a market. -/
noncomputable def TapeMarket.onTrade (m : TapeMarket) (book : Option LiveBook) (tp : TradePrint) :
    TapeMarket :=
  { m with
    flow := m.flow.update tp.aggressor tp.size tp.ts 1
    sweep := m.sweep || m.isSweep book tp }

/-- Change what is kept for a market. -/
noncomputable def Tape.mapMarket (t : Tape) (cid : ConditionId)
    (change : TapeMarket → TapeMarket) : Tape :=
  match t.markets.get? cid with
  | none => t
  | some m => { t with markets := t.markets.set cid (change m) }

/-- `_on_trade`; a token and its market are registered together. -/
noncomputable def Tape.onTrade (t : Tape) (tp : TradePrint) : Tape :=
  match t.tokenCid.get? tp.assetId with
  | none => t
  | some cid => t.mapMarket cid fun m => m.onTrade (t.books.get? tp.assetId) tp

/-- A print, or the decay that a recompute of a market makes at time `now`. -/
inductive FlowEvent
  | trade (tp : TradePrint)
  | recompute (cid : ConditionId) (now : ℚ)

/-- One event. -/
noncomputable def Tape.step (t : Tape) : FlowEvent → Tape
  | .trade tp => t.onTrade tp
  | .recompute cid now => t.mapMarket cid fun m => { m with flow := m.flow.decayTo now }

/-- The flow of a market. -/
noncomputable def Tape.flow? (t : Tape) (cid : ConditionId) : Option (FlowEstimator ℝ) :=
  (t.markets.get? cid).map TapeMarket.flow

/-! ### What reaches the estimator of a market -/

/-- What an event feeds to the estimator of a market. -/
noncomputable def FlowEvent.op? (tokenCid : Dict TokenId ConditionId) (cid : ConditionId) :
    FlowEvent → Option (FlowOp ℝ)
  | .trade tp =>
    if tokenCid.get? tp.assetId = some cid then some (.update tp.aggressor tp.size tp.ts 1)
    else none
  | .recompute cid' now => if cid' = cid then some (.decayTo now) else none

section Feeding

variable {t : Tape} {cid : ConditionId}

theorem op?_trade {tokenCid : Dict TokenId ConditionId} {tp : TradePrint}
    (h : tokenCid.get? tp.assetId = some cid) :
    (FlowEvent.trade tp).op? tokenCid cid = some (.update tp.aggressor tp.size tp.ts 1) := if_pos h

theorem tokenCid_mapMarket (t : Tape) (cid : ConditionId) (change : TapeMarket → TapeMarket) :
    (t.mapMarket cid change).tokenCid = t.tokenCid := by
  unfold Tape.mapMarket
  split <;> rfl

theorem flow?_mapMarket (t : Tape) (cid cid' : ConditionId) (change : TapeMarket → TapeMarket)
    (op : FlowOp ℝ) (hop : ∀ m : TapeMarket, (change m).flow = m.flow.step op) :
    (t.mapMarket cid' change).flow? cid =
      if cid' = cid then (t.flow? cid).map fun f => f.step op else t.flow? cid := by
  unfold Tape.mapMarket Tape.flow?
  cases hm : t.markets.get? cid' with
  | none =>
    split_ifs with hcid
    · rw [← hcid, hm]; rfl
    · rfl
  | some m =>
    dsimp only
    rw [Dict.get?_set]
    split_ifs with h1 h2 h2
    · rw [h1, hm, Option.map_some, Option.map_some, Option.map_some, hop]
    · exact absurd h1.symm h2
    · exact absurd h2.symm h1
    · rfl

theorem tokenCid_step (e : FlowEvent) : (t.step e).tokenCid = t.tokenCid := by
  cases e with
  | trade tp =>
    unfold Tape.step Tape.onTrade
    dsimp only
    split
    · rfl
    · exact tokenCid_mapMarket ..
  | recompute cid now => exact tokenCid_mapMarket ..

/-- An event feeds the estimator of a market what it has for it. -/
theorem flow?_step (t : Tape) (cid : ConditionId) (e : FlowEvent) :
    (t.step e).flow? cid =
      match e.op? t.tokenCid cid with
      | none => t.flow? cid
      | some op => (t.flow? cid).map fun f => f.step op := by
  cases e with
  | trade tp =>
    unfold Tape.step Tape.onTrade FlowEvent.op?
    dsimp only
    cases htok : t.tokenCid.get? tp.assetId with
    | none => simp
    | some cid' =>
      rw [flow?_mapMarket t cid cid' _ (.update tp.aggressor tp.size tp.ts 1) fun _ => rfl]
      simp only [Option.some.injEq]
      split_ifs <;> rfl
  | recompute cid' now =>
    unfold Tape.step FlowEvent.op?
    dsimp only
    rw [flow?_mapMarket t cid cid' _ (.decayTo now) fun _ => rfl]
    split_ifs <;> rfl

/-- Over a run the estimator of a market sees what the events have for it, in their order. -/
theorem flow?_run (es : List FlowEvent) {f : FlowEstimator ℝ} (hf : t.flow? cid = some f) :
    (Run.run Tape.step t es).flow? cid =
      some (Run.run FlowEstimator.step f (es.filterMap (FlowEvent.op? t.tokenCid cid))) := by
  induction es generalizing t f with
  | nil => exact hf
  | cons e es ih =>
    have hstep := flow?_step t cid e
    have hcid := tokenCid_step (t := t) e
    rw [Run.run_cons, List.filterMap_cons]
    cases hop : e.op? t.tokenCid cid with
    | none =>
      rw [hop] at hstep
      rw [ih (hstep.trans hf), hcid]
    | some op =>
      rw [hop, hf] at hstep
      rw [ih hstep, hcid]
      rfl

end Feeding

/-! ### Estimators that saw opposite signs -/

section TwinEstimators

variable {h : ℝ} {hpos : 0 < h} {e e' : Ewma ℝ} {f g : FlowEstimator ℝ}

/-- Two means that have seen a value and share decay and clock. -/
structure Ewma.Twin (hpos : 0 < h) (e e' : Ewma ℝ) : Prop where
  decay : e.decay = .halfLife h hpos
  decay' : e'.decay = .halfLife h hpos
  initialized : e.initialized = true
  initialized' : e'.initialized = true
  lastTs : e.lastTs = e'.lastTs

/-- What both see next keeps them apart, or together. -/
theorem Ewma.Twin.update (ht : e.Twin hpos e') (x ts : ℝ) :
    (e.update x ts).Twin hpos (e'.update x ts) ∧
      ((e.update x ts).value = (e'.update x ts).value ↔ e.value = e'.value) := by
  rcases lt_or_ge ts e.lastTs with hts | hts
  · rw [Ewma.update_stale ht.initialized hts, Ewma.update_stale ht.initialized' (ht.lastTs ▸ hts)]
    exact ⟨⟨ht.decay, ht.decay', ht.initialized, ht.initialized', ht.lastTs⟩, Iff.rfl⟩
  · rw [Ewma.update_fresh ht.initialized hts, Ewma.update_fresh ht.initialized' (ht.lastTs ▸ hts)]
    refine ⟨⟨ht.decay, ht.decay', ht.initialized, ht.initialized', rfl⟩, ?_⟩
    dsimp only
    rw [← ht.lastTs, ht.decay, ht.decay', ← sub_eq_zero, blend_sub_blend_left, mul_eq_zero,
      or_iff_right (Decay.halfLife_ne_zero _), sub_eq_zero]

theorem Ewma.Twin.decayTo (ht : e.Twin hpos e') (ts : ℝ) :
    (e.decayTo ts).Twin hpos (e'.decayTo ts) ∧
      ((e.decayTo ts).value = (e'.decayTo ts).value ↔ e.value = e'.value) := by
  rcases lt_or_ge e.lastTs ts with hts | hts
  · rw [Ewma.decayTo_ahead ht.initialized hts, Ewma.decayTo_ahead ht.initialized' (ht.lastTs ▸ hts)]
    refine ⟨⟨ht.decay, ht.decay', ht.initialized, ht.initialized', rfl⟩, ?_⟩
    dsimp only
    rw [← ht.lastTs, ht.decay, ht.decay']
    exact mul_left_inj' (Decay.halfLife_ne_zero _)
  · rw [Ewma.decayTo_behind hts, Ewma.decayTo_behind (ht.lastTs ▸ hts)]
    exact ⟨ht, Iff.rfl⟩

/-- Estimators with one mean square, whose signed means are twins. -/
structure Twins (hpos : 0 < h) (f g : FlowEstimator ℝ) : Prop where
  sq : f.sq = g.sq
  signed : f.signed.Twin hpos g.signed

theorem Twins.step (ht : Twins hpos f g) (op : FlowOp ℝ) :
    Twins hpos (f.step op) (g.step op) ∧
      ((f.step op).signed.value = (g.step op).signed.value ↔ f.signed.value = g.signed.value) := by
  cases op with
  | update aggressor size ts flowScale =>
    obtain ⟨htwin, hiff⟩ :=
      ht.signed.update (FlowEstimator.signedFlow aggressor size flowScale) ts
    refine ⟨⟨?_, htwin⟩, hiff⟩
    show f.sq.update _ ts = g.sq.update _ ts
    rw [ht.sq]
  | decayTo ts =>
    obtain ⟨htwin, hiff⟩ := ht.signed.decayTo ts
    refine ⟨⟨?_, htwin⟩, hiff⟩
    show f.sq.decayTo ts = g.sq.decayTo ts
    rw [ht.sq]

theorem Twins.run (ht : Twins hpos f g) (ops : List (FlowOp ℝ)) :
    Twins hpos (Run.run FlowEstimator.step f ops) (Run.run FlowEstimator.step g ops) ∧
      ((Run.run FlowEstimator.step f ops).signed.value =
        (Run.run FlowEstimator.step g ops).signed.value ↔ f.signed.value = g.signed.value) := by
  induction ops generalizing f g with
  | nil => exact ⟨ht, Iff.rfl⟩
  | cons op ops ih =>
    obtain ⟨htwins, hiff⟩ := ht.step op
    obtain ⟨hrun, hrunIff⟩ := ih htwins
    exact ⟨hrun, hrunIff.trans hiff⟩

/-- Their strengths agree where the signed flows do, or where there is too little flow to tell. -/
theorem Twins.z_eq_iff (ht : Twins hpos f g) :
    f.z Real.sqrt = g.z Real.sqrt ↔
      f.signed.value = g.signed.value ∨ f.rms Real.sqrt ≤ 1 / 10 ^ 9 := by
  have hrms : f.rms Real.sqrt = g.rms Real.sqrt := by
    unfold FlowEstimator.rms
    rw [ht.sq]
  unfold FlowEstimator.z
  rw [← hrms]
  by_cases hflow : 1 / 10 ^ 9 < f.rms Real.sqrt
  · have hne : f.rms Real.sqrt ≠ 0 := (lt_trans (by norm_num) hflow).ne'
    rw [if_pos hflow, if_pos hflow, div_left_inj' hne, or_iff_left (not_le.2 hflow)]
  · rw [if_neg hflow, if_neg hflow]
    exact iff_of_true rfl (.inr (not_lt.1 hflow))

/-- The weight of a print at time `ts` is not zero: it is the first, or ahead of the clock. -/
def FlowEstimator.Weighs (f : FlowEstimator ℝ) (ts : ℝ) : Prop :=
  f.signed.initialized = false ∨ f.signed.lastTs < ts

@[simp] theorem signedFlow_opposite (aggressor : Side) (size flowScale : ℝ) :
    FlowEstimator.signedFlow aggressor.opposite size flowScale =
      -FlowEstimator.signedFlow aggressor size flowScale := by
  unfold FlowEstimator.signedFlow
  cases aggressor <;> simp [Side.opposite]

/-- A print and its opposite differ where the print has a size and a weight. -/
theorem signed_update_opposite_iff (hdecay : f.signed.decay = .halfLife h hpos) (aggressor : Side)
    (size ts : ℝ) :
    (f.update aggressor size ts 1).signed.value =
        (f.update aggressor.opposite size ts 1).signed.value ↔ size = 0 ∨ ¬ f.Weighs ts := by
  have hzero : FlowEstimator.signedFlow aggressor size (1 : ℝ) = 0 ↔ size = 0 := by
    unfold FlowEstimator.signedFlow
    cases aggressor <;> simp
  show (f.signed.update _ ts).value = (f.signed.update _ ts).value ↔ _
  rw [signedFlow_opposite, ← hzero]
  generalize FlowEstimator.signedFlow aggressor size (1 : ℝ) = x
  unfold FlowEstimator.Weighs
  cases hinit : f.signed.initialized with
  | false =>
    rw [Ewma.update_first hinit, Ewma.update_first hinit]
    dsimp only
    rw [self_eq_neg]
    simp
  | true =>
    rcases lt_or_ge ts f.signed.lastTs with hts | hts
    · rw [Ewma.update_stale hinit hts, Ewma.update_stale hinit hts]
      exact iff_of_true rfl (.inr (by simp [hts.le]))
    · rw [Ewma.update_fresh hinit hts, Ewma.update_fresh hinit hts]
      dsimp only
      rw [← sub_eq_zero, blend_sub_blend_right, mul_eq_zero, hdecay, sub_neg_eq_add,
        add_self_eq_zero, or_comm]
      refine or_congr_right ?_
      rcases hts.lt_or_eq with hlt | heq
      · have hless : (Decay.halfLife h hpos).share (ts - f.signed.lastTs) < 1 :=
          Decay.halfLife_lt_one (sub_pos.2 hlt)
        exact iff_of_false (sub_pos.2 hless).ne' (by simp [hlt])
      · rw [heq, sub_self, Decay.halfLife_zero, sub_self]
        exact iff_of_true rfl (by simp)

theorem decay_run (f : FlowEstimator ℝ) (ops : List (FlowOp ℝ)) :
    (Run.run FlowEstimator.step f ops).signed.decay = f.signed.decay := by
  refine (Run.always_of_step (P := fun g : FlowEstimator ℝ => g.signed.decay = f.signed.decay)
    (fun g op hg => ?_) rfl ops).last
  cases op with
  | update aggressor size ts flowScale =>
    show (g.signed.update _ ts).decay = _
    unfold Ewma.update
    split_ifs <;> exact hg
  | decayTo ts =>
    show (g.signed.decayTo ts).decay = _
    unfold Ewma.decayTo
    split_ifs <;> exact hg

/-- A print and its opposite leave twins. -/
theorem twins_update (hdecay : f.signed.decay = .halfLife h hpos) (aggressor : Side)
    (size ts : ℝ) :
    Twins hpos (f.update aggressor size ts 1) (f.update aggressor.opposite size ts 1) := by
  unfold FlowEstimator.update
  rw [signedFlow_opposite]
  generalize FlowEstimator.signedFlow aggressor size (1 : ℝ) = x
  refine ⟨by simp only [neg_mul_neg], ?_⟩
  dsimp only
  cases hinit : f.signed.initialized with
  | false =>
    rw [Ewma.update_first hinit, Ewma.update_first hinit]
    exact ⟨hdecay, hdecay, rfl, rfl, rfl⟩
  | true =>
    rcases lt_or_ge ts f.signed.lastTs with hts | hts
    · rw [Ewma.update_stale hinit hts, Ewma.update_stale hinit hts]
      exact ⟨hdecay, hdecay, hinit, hinit, rfl⟩
    · rw [Ewma.update_fresh hinit hts, Ewma.update_fresh hinit hts]
      exact ⟨hdecay, hdecay, hinit, hinit, rfl⟩

end TwinEstimators

/-! ### When flow is measured in one space -/

/-- Both tokens of the market lead to `cid`, whose estimator has seen nothing yet. -/
structure Registered {h : ℝ} (hpos : 0 < h) (t : Tape) (m : MarketMeta) (cid : ConditionId) :
    Prop where
  yes : t.tokenCid.get? m.yes = some cid
  no : t.tokenCid.get? m.no = some cid
  flow : t.flow? cid = some (.new (.halfLife h hpos))

/-- The estimators show the same strength, and lead to the same fair value. -/
def SameStrength (f g : FlowEstimator ℝ) : Prop :=
  f.z Real.sqrt = g.z Real.sqrt ∧
    ∀ microprice tick weight : ℝ, fairValueIn microprice (f.z Real.sqrt) tick weight =
      fairValueIn microprice (g.z Real.sqrt) tick weight

/-- **When the token of a print does not matter.**  Take any prints, with decays of the quoter
between them, and replace one print on a NO token by its complement on the YES token: the estimator
of the market shows the same strength if and only if the print has no size, has no weight since the
clock of the estimator is not behind it, or the flow is in the end too small to be told from
none. -/
theorem sameStrength_iff {h : ℝ} {hpos : 0 < h} {t : Tape} {m : MarketMeta} {cid : ConditionId}
    (hreg : Registered hpos t m cid) (pre post : List FlowEvent) {p : TradePrint}
    (hp : p.assetId = m.no) :
    ∃ before seen mirrored : FlowEstimator ℝ,
      (Run.run Tape.step t pre).flow? cid = some before ∧
      (Run.run Tape.step t (pre ++ .trade p :: post)).flow? cid = some seen ∧
      (Run.run Tape.step t (pre ++ .trade (p.complement m.yes) :: post)).flow? cid =
        some mirrored ∧
      (SameStrength seen mirrored ↔
        p.size = 0 ∨ ¬ before.Weighs p.ts ∨ seen.rms Real.sqrt ≤ 1 / 10 ^ 9) := by
  set ops := pre.filterMap (FlowEvent.op? t.tokenCid cid)
  set ops' := post.filterMap (FlowEvent.op? t.tokenCid cid)
  set before := Run.run FlowEstimator.step (.new (.halfLife h hpos)) ops with hbefore
  have hop : (FlowEvent.trade p).op? t.tokenCid cid =
      some (.update p.aggressor p.size p.ts 1) := op?_trade (by rw [hp]; exact hreg.no)
  have hop' : (FlowEvent.trade (p.complement m.yes)).op? t.tokenCid cid =
      some (.update p.aggressor.opposite p.size p.ts 1) := op?_trade hreg.yes
  refine ⟨before, Run.run FlowEstimator.step (before.update p.aggressor p.size p.ts 1) ops',
    Run.run FlowEstimator.step (before.update p.aggressor.opposite p.size p.ts 1) ops',
    flow?_run pre hreg.flow, ?_, ?_, ?_⟩
  · rw [flow?_run _ hreg.flow, List.filterMap_append, List.filterMap_cons_some hop,
      Run.run_append, Run.run_cons]
    rfl
  · rw [flow?_run _ hreg.flow, List.filterMap_append, List.filterMap_cons_some hop',
      Run.run_append, Run.run_cons]
    rfl
  · have hdecay : before.signed.decay = .halfLife h hpos := decay_run _ ops
    obtain ⟨htwins, hvalue⟩ := (twins_update hdecay p.aggressor p.size p.ts).run ops'
    have hsame : ∀ f g : FlowEstimator ℝ, SameStrength f g ↔ f.z Real.sqrt = g.z Real.sqrt :=
      fun f g => ⟨And.left, fun hz => ⟨hz, fun _ _ _ => by rw [hz]⟩⟩
    rw [hsame, htwins.z_eq_iff, hvalue, signed_update_opposite_iff hdecay, Rat.cast_eq_zero,
      or_assoc]

/-- A market of two tokens, nothing of which has traded yet. -/
noncomputable def quietTape : Tape :=
  ⟨(Dict.empty.set "y" "c").set "n" "c",
    Dict.empty.set "c" ⟨{}, {}, .new (.halfLife 120 (by norm_num)), false⟩, Dict.empty⟩

/-- A binary market. -/
def quietMarket : MarketMeta :=
  ⟨"c", "y", "n", 1 / 100, 5, 0, 0, none, none⟩

theorem registered_quietTape :
    Registered (h := 120) (by norm_num) quietTape quietMarket "c" := ⟨rfl, rfl, rfl⟩

/-- A print on the NO token that comes late, between two on the YES token, may be on either. -/
theorem sameStrength_iff_late_print :
    let p : TradePrint := ⟨"n", "c", .buy, 2 / 5, 10, 3⟩
    let pre : List FlowEvent := [.trade ⟨"y", "c", .buy, 3 / 5, 10, 5⟩]
    let post : List FlowEvent := [.trade ⟨"y", "c", .sell, 3 / 5, 20, 6⟩]
    ∃ seen mirrored : FlowEstimator ℝ,
      (Run.run Tape.step quietTape (pre ++ .trade p :: post)).flow? "c" = some seen ∧
      (Run.run Tape.step quietTape (pre ++ .trade (p.complement "y") :: post)).flow? "c" =
        some mirrored ∧
      SameStrength seen mirrored := by
  intro p pre post
  obtain ⟨before, seen, mirrored, hbefore, hseen, hmirrored, hiff⟩ :=
    sameStrength_iff registered_quietTape pre post (p := p) rfl
  refine ⟨seen, mirrored, hseen, hmirrored, hiff.2 (.inr (.inl ?_))⟩
  rw [flow?_run _ registered_quietTape.flow,
    List.filterMap_cons_some (op?_trade registered_quietTape.yes)] at hbefore
  obtain rfl := Option.some.inj hbefore
  -- the clock of the estimator is at 5, and the print is of time 3
  rintro (hnew | hahead)
  · cases hnew
  · revert hahead
    show ¬ ((5 : ℚ) : ℝ) < ((3 : ℚ) : ℝ)
    norm_num

/-- A purchase of 10 NO shares is the first print: it counts as flow towards YES, with strength 1
and a fair value half a tick up, where the sale of 10 YES shares that it amounts to has strength -1
and lowers the fair value by half a tick. -/
theorem not_sameStrength_no_buy :
    let p : TradePrint := ⟨"n", "c", .buy, 2 / 5, 10, 1⟩
    ∃ seen mirrored : FlowEstimator ℝ,
      (Run.run Tape.step quietTape [.trade p]).flow? "c" = some seen ∧
      (Run.run Tape.step quietTape [.trade (p.complement "y")]).flow? "c" = some mirrored ∧
      seen.z Real.sqrt = 1 ∧ mirrored.z Real.sqrt = -1 ∧
      fairValueIn (1 / 2) (seen.z Real.sqrt) (1 / 100) (1 / 2) = 101 / 200 ∧
      fairValueIn (1 / 2) (mirrored.z Real.sqrt) (1 / 100) (1 / 2) = 99 / 200 ∧
      ¬ SameStrength seen mirrored := by
  intro p
  have hroot : Real.sqrt 100 = 10 := by
    rw [show (100 : ℝ) = 10 ^ 2 by norm_num, Real.sqrt_sq (by norm_num)]
  have hbuy : ((FlowEstimator.new (.halfLife 120 (by norm_num))).update .buy 10 1 1).z
      Real.sqrt = 1 := by
    norm_num [FlowEstimator.z, FlowEstimator.rms, FlowEstimator.update, FlowEstimator.new,
      FlowEstimator.signedFlow, Ewma.update, hroot]
  have hsell : ((FlowEstimator.new (.halfLife 120 (by norm_num))).update .sell 10 1 1).z
      Real.sqrt = -1 := by
    norm_num [FlowEstimator.z, FlowEstimator.rms, FlowEstimator.update, FlowEstimator.new,
      FlowEstimator.signedFlow, Ewma.update, hroot]
  refine ⟨(FlowEstimator.new (.halfLife 120 (by norm_num))).update .buy 10 1 1,
    (FlowEstimator.new (.halfLife 120 (by norm_num))).update .sell 10 1 1, ?_, ?_, hbuy, hsell,
    ?_, ?_, fun hsame => ?_⟩
  · rw [flow?_run _ registered_quietTape.flow,
      List.filterMap_cons_some (op?_trade registered_quietTape.no)]
    show some (FlowEstimator.update _ .buy ((10 : ℚ) : ℝ) ((1 : ℚ) : ℝ) 1) = _
    rw [Rat.cast_one, Rat.cast_ofNat]
  · rw [flow?_run _ registered_quietTape.flow,
      List.filterMap_cons_some (op?_trade registered_quietTape.yes)]
    show some (FlowEstimator.update _ .sell ((10 : ℚ) : ℝ) ((1 : ℚ) : ℝ) 1) = _
    rw [Rat.cast_one, Rat.cast_ofNat]
  · rw [hbuy]
    norm_num [fairValueIn]
  · rw [hsell]
    norm_num [fairValueIn]
  · have hz := hsame.1
    rw [hbuy, hsell] at hz
    norm_num at hz

end Polymaker
