import Polymaker.Execution.Reconciler
import Polymaker.Lib.Run
import Polymaker.Strategy.MergeEdge

/-!
# Churn and the merge edge

The reconciler keeps an order that is close to its target.  It was priced for an earlier fair value,
and the other token is bid at the price of this one.

* `Requote`: one recompute of a market, `requote`: the orders it leaves;
* `KeepsEdge`: the bids resting on the two tokens cost less than one;
* `Requote.EdgeKept`: no bid this recompute keeps costs one or more with a bid it posts, and
  `keepsEdge_requote_iff`: exactly then it keeps the edge;
* `Requote.Begins`: every resting bid is less than the edge above the fair value of its token, or so
  far above it that no target is near;
* `keeps_edge_of_fresh`: along every run the edge is kept, if every recompute begins so, and
  `begins_of_tolerance`: tolerances for which it does.
-/

namespace Polymaker

open QuoteInputs Rounding

/-! ### Runs of recomputes -/

/-- An order, as the quote it stands for. -/
def OpenOrder.quote (o : OpenOrder) : Quote := ⟨o.tokenId, o.side, o.price, o.size⟩

@[simp] theorem OpenOrder.quote_price (o : OpenOrder) : o.quote.price = o.price := rfl

theorem Realises.quote_eq {q : Quote} {o : OpenOrder} (h : Realises q o) : o.quote = q := by
  obtain ⟨⟨htok, hside⟩, hprice, hsize⟩ := h
  unfold OpenOrder.quote
  rw [htok, hside, hprice, hsize]

/-- One recompute: what the quoter reads, and what its placements became. -/
structure Requote where
  inputs : QuoteInputs
  placed : List OpenOrder

namespace Requote

variable (e : Requote)

/-- The churn tolerances of the market. -/
def tolerance : Tolerance :=
  ⟨e.inputs.m.tickSize, e.inputs.profile.repriceTicks, e.inputs.profile.resizeFrac⟩

/-- The targets, each with the order kept for it. -/
def matched (live : List OpenOrder) : List (Quote × Option OpenOrder) :=
  matchTargets e.tolerance live (constructQuotes e.inputs).quotes

/-- What has to be done. -/
def plan (live : List OpenOrder) : ReconcilePlan :=
  reconcile (constructQuotes e.inputs) live e.tolerance

end Requote

/-- The orders a recompute leaves. -/
def requote (live : List OpenOrder) (e : Requote) : List OpenOrder :=
  (e.plan live).leaves live e.placed

/-- A recompute of the market under the profile, its calls all succeeding. -/
structure Requote.Succeeds (m : MarketMeta) (p : StrategyProfile) (live : List OpenOrder)
    (e : Requote) : Prop where
  market : e.inputs.m = m
  profile : e.inputs.profile = p
  carried : CarriedOut (e.plan live) live e.placed

/-! ### The edge of a pair -/

/-- Two bids, one of each token. -/
def Complementary (m : MarketMeta) (a b : Quote) : Prop :=
  (a.side = .buy ∧ b.side = .buy) ∧
    (a.tokenId = m.yes ∧ b.tokenId = m.no ∨ a.tokenId = m.no ∧ b.tokenId = m.yes)

instance (m : MarketMeta) (a b : Quote) : Decidable (Complementary m a b) :=
  inferInstanceAs (Decidable (_ ∧ _))

theorem Complementary.symm {m : MarketMeta} {a b : Quote} (h : Complementary m a b) :
    Complementary m b a :=
  ⟨h.1.symm, h.2.symm.imp And.symm And.symm⟩

/-- **The churn tolerance does not give away the merge edge**: each bid resting on one token and
each resting on the other cost less than one. -/
def KeepsEdge (m : MarketMeta) (live : List OpenOrder) : Prop :=
  ∀ o ∈ live, ∀ o' ∈ live, Complementary m o.quote o'.quote → o.price + o'.price < 1

instance (m : MarketMeta) (live : List OpenOrder) : Decidable (KeepsEdge m live) :=
  inferInstanceAs (Decidable (∀ o ∈ live, ∀ o' ∈ live, _))

/-- No bid the recompute keeps, nor on inputs out of the ordinary one it posts, costs one or more
with a bid it posts. -/
structure Requote.EdgeKept (e : Requote) (live : List OpenOrder) : Prop where
  kept : ∀ q' o q, (q', some o) ∈ e.matched live → (q, none) ∈ e.matched live →
    Complementary e.inputs.m o.quote q → o.price + q.price < 1
  posted : ¬ Ordinary e.inputs → ∀ q q', (q, none) ∈ e.matched live → (q', none) ∈ e.matched live →
    Complementary e.inputs.m q q' → q.price + q'.price < 1

/-- The bids of an ordinary target set keep the edge. -/
theorem Ordinary.add_lt_one {i : QuoteInputs} (h : Ordinary i) {q q' : Quote}
    (hq : q ∈ (constructQuotes i).quotes) (hq' : q' ∈ (constructQuotes i).quotes)
    (hpair : Complementary i.m q q') : q.price + q'.price < 1 := by
  obtain ⟨⟨hbuy, hbuy'⟩, ⟨hyes, hno⟩ | ⟨hno, hyes⟩⟩ := hpair
  · exact h.yes_add_no_lt_one hq hbuy hyes hq' hbuy' hno
  · rw [add_comm]
    exact h.yes_add_no_lt_one hq' hbuy' hyes hq hbuy hno

/-! ### One recompute -/

section Step

variable {m : MarketMeta} {p : StrategyProfile} {live : List OpenOrder} {e : Requote}

/-- The orders left are those kept for a target, and those placed for one. -/
theorem mem_requote_iff (hid : (live.map OpenOrder.orderId).Nodup) (h : e.Succeeds m p live)
    {o : OpenOrder} :
    o ∈ requote live e ↔ (∃ q, (q, some o) ∈ e.matched live) ∨ o ∈ e.placed := by
  unfold requote Requote.plan
  rw [mem_leaves_iff hid h.carried, FirstFit.mem_used_refill h.carried.realised, FirstFit.mem_used]
  rfl

/-- The orders placed are the targets that nothing was kept for. -/
theorem map_quote_placed (h : e.Succeeds m p live) :
    e.placed.map OpenOrder.quote = FirstFit.unmet (e.matched live) := by
  have hquotes : List.Forall₂ (fun q o => q = OpenOrder.quote o) (e.plan live).toPlace e.placed :=
    h.carried.realised.imp fun _ _ hreal => hreal.quote_eq.symm
  rw [← List.forall₂_map_right_iff, List.forall₂_eq_eq_eq] at hquotes
  exact hquotes.symm

theorem unmet_of_mem_placed (h : e.Succeeds m p live) {o : OpenOrder} (ho : o ∈ e.placed) :
    (o.quote, none) ∈ e.matched live := by
  rw [← FirstFit.mem_unmet, ← map_quote_placed h]
  exact List.mem_map_of_mem ho

theorem exists_placed_of_unmet (h : e.Succeeds m p live) {q : Quote}
    (hq : (q, none) ∈ e.matched live) : ∃ o ∈ e.placed, o.quote = q := by
  rw [← FirstFit.mem_unmet, ← map_quote_placed h] at hq
  exact List.mem_map.1 hq

/-- **One recompute** keeps the edge exactly when what it keeps does, with what it posts. -/
theorem keepsEdge_requote_iff (hid : (live.map OpenOrder.orderId).Nodup) (h : e.Succeeds m p live)
    (hedge : KeepsEdge m live) : KeepsEdge m (requote live e) ↔ e.EdgeKept live := by
  have hmem := fun {o : OpenOrder} => mem_requote_iff (o := o) hid h
  constructor
  · intro hafter
    refine ⟨fun q' o q ho hq hpair => ?_, fun _ q q' hq hq' hpair => ?_⟩
    · obtain ⟨o', ho', rfl⟩ := exists_placed_of_unmet h hq
      rw [h.market] at hpair
      exact hafter o (hmem.2 (.inl ⟨q', ho⟩)) o' (hmem.2 (.inr ho')) hpair
    · obtain ⟨o, ho, rfl⟩ := exists_placed_of_unmet h hq
      obtain ⟨o', ho', rfl⟩ := exists_placed_of_unmet h hq'
      rw [h.market] at hpair
      exact hafter o (hmem.2 (.inr ho)) o' (hmem.2 (.inr ho')) hpair
  · intro hkept o ho o' ho' hpair
    have hpair' := hpair
    rw [← h.market] at hpair'
    rcases hmem.1 ho with ⟨q, hq⟩ | hplaced <;> rcases hmem.1 ho' with ⟨q', hq'⟩ | hplaced'
    · -- both rested before
      exact hedge o (FirstFit.mem_assign_some hq).1 o' (FirstFit.mem_assign_some hq').1 hpair
    · rw [← OpenOrder.quote_price o']
      exact hkept.kept q o o'.quote hq (unmet_of_mem_placed h hplaced') hpair'
    · rw [add_comm, ← OpenOrder.quote_price o]
      exact hkept.kept q' o' o.quote hq' (unmet_of_mem_placed h hplaced) hpair'.symm
    · have hnew := unmet_of_mem_placed h hplaced
      have hnew' := unmet_of_mem_placed h hplaced'
      rw [← OpenOrder.quote_price o, ← OpenOrder.quote_price o']
      by_cases hordinary : Ordinary e.inputs
      · exact hordinary.add_lt_one (FirstFit.mem_requests hnew) (FirstFit.mem_requests hnew') hpair'
      · exact hkept.posted hordinary _ _ hnew hnew' hpair'

end Step

/-! ### Fresh orders -/

/-- The most that a bid of a leg costs: below its fair value by the edge, up to rounding, or a
tick. -/
def QuoteInputs.bidCap (i : QuoteInputs) (l : Leg) : ℚ :=
  max (l.fv - (i.profile.minEdgeTicks - eps) * i.m.tickSize) i.m.tickSize

/-- The order is less than the edge above the fair value of its leg. -/
def Fresh (i : QuoteInputs) (l : Leg) (o : OpenOrder) : Prop :=
  o.price < l.fv + (i.profile.minEdgeTicks - eps) * i.m.tickSize

instance (i : QuoteInputs) (l : Leg) (o : OpenOrder) : Decidable (Fresh i l o) :=
  inferInstanceAs (Decidable (_ < _))

/-- The order is too far above every bid of its leg to be kept for one. -/
def Requote.OutOfReach (e : Requote) (l : Leg) (o : OpenOrder) : Prop :=
  e.inputs.bidCap l + (e.tolerance.repriceTicks * e.tolerance.tick + eps) < o.price

instance (e : Requote) (l : Leg) (o : OpenOrder) : Decidable (e.OutOfReach l o) :=
  inferInstanceAs (Decidable (_ < _))

/-- What a recompute begins with: ordinary inputs, a tick with six decimals, and resting bids that
are fresh or out of reach. -/
structure Requote.Begins (e : Requote) (live : List OpenOrder) : Prop where
  ordinary : Ordinary e.inputs
  grid : OnGrid 6 e.inputs.m.tickSize
  bids : ∀ o ∈ live, o.side = .buy → ∀ l ∈ e.inputs.legs, o.tokenId = l.tokenId →
    Fresh e.inputs l o ∨ e.OutOfReach l o

/-- No bid rests at the end of the price range. -/
def InRange (m : MarketMeta) (live : List OpenOrder) : Prop :=
  ∀ o ∈ live, o.side = .buy → o.price < 1 - m.tickSize

section Fresh

variable {m : MarketMeta} {p : StrategyProfile} {live : List OpenOrder} {e : Requote}
  {i : QuoteInputs}

/-- The leg of a bid that is complementary to one of a leg. -/
theorem exists_other_leg (hne : i.m.yes ≠ i.m.no) {l : Leg} (hl : l ∈ i.legs)
    {a b : Quote} (htok : b.tokenId = l.tokenId) (h : Complementary i.m a b) :
    ∃ k ∈ i.legs, a.tokenId = k.tokenId ∧ k.fv + l.fv = 1 := by
  rcases mem_legs_iff.1 hl with rfl | rfl <;> rcases h.2 with ⟨ha, hb⟩ | ⟨ha, hb⟩
  · exact absurd (htok.symm.trans hb) hne
  · exact ⟨i.noLeg, mem_legs_iff.2 (.inr rfl), ha, sub_add_cancel _ _⟩
  · exact ⟨i.yesLeg, mem_legs_iff.2 (.inl rfl), ha, add_sub_cancel _ _⟩
  · exact absurd (hb.symm.trans htok) hne

/-- A bid of a target set is one of a leg, and costs at most what bids of the leg do. -/
theorem Ordinary.exists_leg (h : Ordinary i) (hgrid : OnGrid 6 i.m.tickSize) {q : Quote}
    (hq : q ∈ (constructQuotes i).quotes) (hbuy : q.side = .buy) :
    ∃ l ∈ i.legs, q.tokenId = l.tokenId ∧ q.price ≤ i.bidCap l := by
  obtain ⟨l, hl, top, j, hbids, rfl⟩ := buy_mem_iff.1 ⟨hq, hbuy⟩
  exact ⟨l, hl, rfl, hbids.layerPrice_le_of_onGrid h.tick_pos h.step hgrid⟩

/-- The edge of an ordinary profile, as a price. -/
theorem Ordinary.edge_pos (h : Ordinary i) :
    0 < (i.profile.minEdgeTicks - eps) * i.m.tickSize := by
  have hedge : (1 : ℚ) ≤ i.profile.minEdgeTicks := by exact_mod_cast h.edge
  have heps : eps < 1 := by norm_num [eps]
  exact mul_pos (sub_pos.2 (heps.trans_le hedge)) h.tick_pos

theorem Ordinary.bidCap_lt (h : Ordinary i) {l : Leg} (hl : l ∈ i.legs) :
    i.bidCap l < 1 - i.m.tickSize := by
  have hedge := h.edge_pos
  have htick := h.tick_lt
  obtain ⟨hlow, hhigh⟩ := h.fv_mem
  have hfv : l.fv ≤ 1 - i.m.tickSize := by
    rcases mem_legs_iff.1 hl with rfl | rfl
    · exact hhigh
    · show 1 - i.fv ≤ _
      linarith
  exact max_lt (by linarith) (by linarith)

/-- A recompute that begins so keeps the edge. -/
theorem Requote.Begins.edgeKept (h : e.Begins live) (hrange : InRange e.inputs.m live) :
    e.EdgeKept live where
  kept q' o q ho hq hpair := by
    obtain ⟨hbuy, hbuy'⟩ := hpair.1
    obtain ⟨hlive, -, hfits⟩ := FirstFit.mem_assign_some ho
    obtain ⟨l, hl, htok, hle⟩ := h.ordinary.exists_leg h.grid (FirstFit.mem_requests hq) hbuy'
    obtain ⟨k, hk, htok', hsum⟩ := exists_other_leg h.ordinary.tokens hl htok hpair
    -- the target of the order is a bid of the same leg, so the order is in reach
    obtain ⟨k', hk', htarget, hcap⟩ := h.ordinary.exists_leg h.grid (FirstFit.mem_requests ho)
      (hfits.1.2 ▸ hbuy)
    obtain rfl : k = k' := eq_of_tokenId h.ordinary.tokens hk hk'
      (htok'.symm.trans (hfits.1.1.trans htarget))
    have hreach : o.price - q'.price ≤ e.tolerance.repriceTicks * e.tolerance.tick + eps :=
      (le_abs_self _).trans hfits.2.1
    have hnear : ¬ e.OutOfReach k o := by
      unfold Requote.OutOfReach
      linarith
    have hfresh : Fresh e.inputs k o := (h.bids o hlive hbuy k hk htok').resolve_right hnear
    rcases le_max_iff.1 hle with hprice | hprice
    · calc o.price + q.price
          < k.fv + (e.inputs.profile.minEdgeTicks - eps) * e.inputs.m.tickSize +
              (l.fv - (e.inputs.profile.minEdgeTicks - eps) * e.inputs.m.tickSize) :=
            add_lt_add_of_lt_of_le hfresh hprice
        _ = 1 := by rw [← hsum]; ring
    · have hend := hrange o hlive hbuy
      linarith
  posted hnot := absurd h.ordinary hnot

/-- What a recompute leaves is in the price range. -/
theorem Requote.Begins.inRange (h : e.Begins live) (hid : (live.map OpenOrder.orderId).Nodup)
    (hs : e.Succeeds m p live) (hrange : InRange m live) : InRange m (requote live e) := by
  intro o ho hbuy
  rcases (mem_requote_iff hid hs).1 ho with ⟨q, hq⟩ | hplaced
  · exact hrange o (FirstFit.mem_assign_some hq).1 hbuy
  · obtain ⟨l, hl, -, hle⟩ := h.ordinary.exists_leg h.grid
      (FirstFit.mem_requests (unmet_of_mem_placed hs hplaced)) hbuy
    rw [← hs.market]
    exact hle.trans_lt (h.ordinary.bidCap_lt hl)

/-- **Tolerances that give nothing away**: where orders are kept within less than twice the edge,
and both legs have room for the edge above a tick, every resting bid is fresh or out of reach. -/
theorem begins_of_tolerance (h : Ordinary e.inputs) (hgrid : OnGrid 6 e.inputs.m.tickSize)
    (hroom : ∀ l ∈ e.inputs.legs,
      (1 + (e.inputs.profile.minEdgeTicks - eps)) * e.inputs.m.tickSize ≤ l.fv)
    (htol : e.tolerance.repriceTicks * e.tolerance.tick + eps <
      2 * ((e.inputs.profile.minEdgeTicks - eps) * e.inputs.m.tickSize)) :
    e.Begins live := by
  refine ⟨h, hgrid, fun o _ _ l hl _ => or_iff_not_imp_right.2 fun hnear => ?_⟩
  have hcap : e.inputs.bidCap l =
      l.fv - (e.inputs.profile.minEdgeTicks - eps) * e.inputs.m.tickSize := by
    refine max_eq_left ?_
    have hl' := hroom l hl
    linarith
  unfold Requote.OutOfReach at hnear
  rw [hcap, not_lt] at hnear
  unfold Fresh
  linarith

end Fresh

/-! ### Runs -/

/-- What the recomputes of a run keep. -/
structure Keeping (m : MarketMeta) (live : List OpenOrder) : Prop where
  ids : (live.map OpenOrder.orderId).Nodup
  range : InRange m live
  edge : KeepsEdge m live

theorem Keeping.requote {m : MarketMeta} {p : StrategyProfile} {live : List OpenOrder} {e : Requote}
    (h : Keeping m live) (hs : e.Succeeds m p live) (hbegins : e.Begins live) :
    Keeping m (requote live e) where
  ids := nodup_orderId_leaves h.ids hs.carried
  range := hbegins.inRange h.ids hs h.range
  edge := (keepsEdge_requote_iff h.ids hs h.edge).2 (hbegins.edgeKept (hs.market ▸ h.range))

/-- **When the merge edge is kept.**  Along every run of recomputes that starts without resting
orders, each bid on one token and each on the other cost less than one, if at every recompute the
bids that rest are less than the edge above the fair value of their tokens, or out of reach. -/
theorem keeps_edge_of_fresh (m : MarketMeta) (p : StrategyProfile) (es : List Requote)
    (hrun : Run.EachStep requote (Requote.Succeeds m p) [] es)
    (hbegins : Run.EachStep requote (fun live e => e.Begins live) [] es) :
    Run.Always requote (KeepsEdge m) [] es := by
  have hnone : Keeping m [] :=
    ⟨List.nodup_nil, fun _ h => absurd h List.not_mem_nil, fun _ h => absurd h List.not_mem_nil⟩
  have hboth : Run.EachStep requote (fun live e => e.Succeeds m p live ∧ e.Begins live) [] es :=
    fun pre e post heq => ⟨hrun pre e post heq, hbegins pre e post heq⟩
  have hall : Run.Always requote (Keeping m) [] es :=
    Run.always_of_valid (fun _ _ h hstep => h.requote hstep.1 hstep.2) hnone hboth
  exact fun pre hpre => (hall pre hpre).edge

/-- A sticky profile: tight quotes, repriced on moves of more than three ticks. -/
def stickyProfile : StrategyProfile :=
  { gamma := 3 / 5, deltaMinTicks := 1, cVol := 3 / 2, cTox := 3, baseSizeUsdc := 22
    qMaxUsdc := 100, layers := 1, repriceTicks := 3, resizeFrac := 3 / 5 }

/-- A recompute under that profile, at a fair value and seeing these books. -/
def requoteAt (fv : ℚ) (yesView noView : BookView) (placed : List OpenOrder) : Requote :=
  ⟨{ m := ⟨"c", "yes", "no", 1 / 100, 5, 0, 0, none, none⟩, regime := .quiet, fv, volShort := 0
     toxicity := 0, yesView, noView, posYes := .flat, posNo := .flat, profile := stickyProfile
     now := 0 }, placed⟩

theorem ordinary_requoteAt {fv : ℚ} (hlow : 1 / 100 ≤ fv) (hhigh : fv ≤ 99 / 100)
    (yesView noView : BookView) (placed : List OpenOrder) :
    Ordinary (requoteAt fv yesView noView placed).inputs where
  tokens := by simp [requoteAt]
  tick_pos := by norm_num [requoteAt]
  tick_lt := by norm_num [requoteAt]
  whole := ⟨100, by norm_num [requoteAt]⟩
  tick_large := by norm_num [requoteAt]
  fv_mem := ⟨hlow, hhigh.trans (by norm_num [requoteAt])⟩
  edge := by simp [requoteAt, stickyProfile]
  step := by simp [requoteAt, stickyProfile]

/-- The tick of these recomputes has six decimals. -/
theorem onGrid_requoteAt (fv : ℚ) (yesView noView : BookView) (placed : List OpenOrder) :
    OnGrid 6 (requoteAt fv yesView noView placed).inputs.m.tickSize :=
  ⟨10000, by norm_num [requoteAt]⟩

/-- Fair value falls by a tick, and both bids are kept; it falls by four more, and both are
replaced. -/
theorem keeps_edge_of_moves :
    let view := (OrderBook.ofTouch (49 / 100) (51 / 100) 100).view
    let y : OpenOrder := ⟨"y1", "yes", .buy, 49 / 100, 449 / 10, .live, 0⟩
    let n : OpenOrder := ⟨"n1", "no", .buy, 49 / 100, 449 / 10, .live, 0⟩
    let y' : OpenOrder := ⟨"y2", "yes", .buy, 44 / 100, 50, .live, 2⟩
    let n' : OpenOrder := ⟨"n2", "no", .buy, 54 / 100, 2037 / 50, .live, 2⟩
    Run.Always requote (KeepsEdge ⟨"c", "yes", "no", 1 / 100, 5, 0, 0, none, none⟩) []
      [requoteAt (1 / 2) view view [y, n], requoteAt (49 / 100) view view [],
        requoteAt (45 / 100) (OrderBook.ofTouch (44 / 100) (46 / 100) 100).view
          (OrderBook.ofTouch (54 / 100) (56 / 100) 100).view [y', n']] := by
  intro view y n y' n'
  have hleft : requote [] (requoteAt (1 / 2) view view [y, n]) = [y, n] := by decide +kernel
  have hkept : requote [y, n] (requoteAt (49 / 100) view view []) = [y, n] := by decide +kernel
  refine keeps_edge_of_fresh _ stickyProfile _ ?_ ?_
  · rw [Run.eachStep_cons, Run.eachStep_cons, Run.eachStep_cons, hleft, hkept]
    exact ⟨⟨rfl, rfl, by decide +kernel⟩, ⟨rfl, rfl, by decide +kernel⟩,
      ⟨rfl, rfl, by decide +kernel⟩, Run.eachStep_nil⟩
  · rw [Run.eachStep_cons, Run.eachStep_cons, Run.eachStep_cons, hleft, hkept]
    refine ⟨⟨ordinary_requoteAt (by norm_num) (by norm_num) .., onGrid_requoteAt .., ?_⟩,
      ⟨ordinary_requoteAt (by norm_num) (by norm_num) .., onGrid_requoteAt .., ?_⟩,
      ⟨ordinary_requoteAt (by norm_num) (by norm_num) .., onGrid_requoteAt .., ?_⟩,
      Run.eachStep_nil⟩
    · exact fun o ho => absurd ho List.not_mem_nil
    · decide +kernel
    · decide +kernel

/-- NO first joins its book at 0.46.  When fair value falls by three ticks, the YES bid at 0.49 is
close enough to be kept, and NO is bid at 0.52. -/
theorem not_keeps_edge_of_kept_bid :
    let m : MarketMeta := ⟨"c", "yes", "no", 1 / 100, 5, 0, 0, none, none⟩
    let y : OpenOrder := ⟨"y1", "yes", .buy, 49 / 100, 449 / 10, .live, 0⟩
    let n : OpenOrder := ⟨"n1", "no", .buy, 46 / 100, 4783 / 100, .live, 0⟩
    let n' : OpenOrder := ⟨"n2", "no", .buy, 52 / 100, 4231 / 100, .live, 1⟩
    let es : List Requote :=
      [requoteAt (1 / 2) (OrderBook.ofTouch (49 / 100) (54 / 100) 100).view
          (OrderBook.ofTouch (46 / 100) (51 / 100) 100).view [y, n],
        requoteAt (47 / 100) (OrderBook.ofTouch (46 / 100) (48 / 100) 100).view
          (OrderBook.ofTouch (52 / 100) (54 / 100) 100).view [n']]
    (1 ≤ stickyProfile.minEdgeTicks ∧ 1 ≤ stickyProfile.deltaMinTicks ∧
        0 ≤ stickyProfile.repriceTicks) ∧
      Run.EachStep requote (Requote.Succeeds m stickyProfile) [] es ∧
      ¬ Run.Always requote (KeepsEdge m) [] es := by
  intro m y n n' es
  refine ⟨by decide, ?_, fun h => absurd h.last (by decide +kernel)⟩
  rw [Run.eachStep_cons, Run.eachStep_cons]
  exact ⟨⟨rfl, rfl, by decide +kernel⟩, ⟨rfl, rfl, by decide +kernel⟩, Run.eachStep_nil⟩

end Polymaker
