import Polymaker.Engine.Success
import Polymaker.Engine.TickSize
import Polymaker.Execution.Choices
import Polymaker.Strategy.TickGrid

/-!
# Repricing after a change of tick

`_apply_meta_refresh` takes over a new tick and has the market recomputed.  The recompute may keep a
resting order that is within `reprice_ticks` of the new ticks of a target, on whatever grid it was
priced.

* `mem_ordersOf_recompute_iff`: after a recompute all of whose calls succeed, the orders of the
  market are those its plan keeps and those it placed;
* `Reprices`: the choice of the plan keeps no order off the grid, and leaves no target off the grid
  to be placed;
* `all_on_tick_iff`: no order off the new grid is left exactly then;
* `OffGridShut`, `OffGridBehind`: the resting orders off the grid are listed after others that are
  on it and close to the same targets;
* `tick_change_reprices`: the one is enough, and the other takes place.
-/

namespace Polymaker

namespace Engine

variable {e : Engine} {cid : ConditionId} {m : Market} {obs : Observation} {ans : Answers}
  {d : Decision}

/-- **The orders of the market** after a recompute that succeeds and sheds nothing. -/
theorem mem_ordersOf_recompute_iff (hk : e.store.Keyed) (hm : e.markets.get? cid = some m)
    (hne : m.info.yes ≠ m.info.no) (hd : e.decision? cid obs = some d)
    (hs : e.Succeeds cid m obs ans) {o : OpenOrder} :
    o ∈ (e.recompute cid obs ans).engine.ordersOf m.info ↔
      o ∈ (planChoice d.targets (e.ordersOf m.info) (tolerance m)).orders ∨
        o ∈ e.receipts cid obs ans := by
  have hleft := filter_ordersOf_of_succeeds hk hm hs hne hd o.tokenId
  have hmem := congrArg (o ∈ ·) hleft
  simp only [List.mem_filter, decide_true, and_true] at hmem
  rw [hmem, ReconcilePlan.leaves, List.mem_append]
  obtain ⟨i, -, -, -, -, hplan⟩ := exists_inputs_of_decision hm hd
  rw [hplan]
  exact or_congr_left (perm_orders_planChoice (nodup_ordersOf hk hne)).mem_iff

/-- What was placed has the prices of the targets that nothing was kept for. -/
theorem prices_of_receipts (hm : e.markets.get? cid = some m) (hd : e.decision? cid obs = some d)
    (hshed : ¬ Shed obs d.regime) (hs : e.Succeeds cid m obs ans) :
    List.Forall₂ Realises
      (planChoice d.targets (e.ordersOf m.info) (tolerance m)).unmatched
      (e.receipts cid obs ans) := by
  obtain ⟨i, -, -, -, -, hplan⟩ := exists_inputs_of_decision hm hd
  have hposts : e.posts cid obs =
      (planChoice d.targets (e.ordersOf m.info) (tolerance m)).unmatched := by
    simp only [posts, hd, Decision.issued, if_neg hshed]
    rw [hplan, reconcile_eq]
  rw [← hposts]
  exact realises_place hs.complete

end Engine

/-- A choice keeps no order off the grid, and leaves no target off the grid to be placed; no target
is where the tick has six decimals and divides one. -/
structure Reprices {targets : TargetQuotes} {live : List OpenOrder} {tol : Tolerance} (t : ℚ)
    (c : Choice targets live tol) : Prop where
  kept : ∀ k o, c.item k = some o → OnTick t o.price
  placed : DividesUnit t ∨ ∀ k, c.item k = none → OnTick t (targets.quotes.get k).price

section Resting

variable {targets : TargetQuotes} {live : List OpenOrder} {tol : Tolerance} {t : ℚ}

/-- An order is on the grid, close to a target and listed before another order. -/
structure Ahead (targets : TargetQuotes) (live : List OpenOrder) (tol : Tolerance) (t : ℚ)
    (k : Fin targets.quotes.length) (o o' : OpenOrder) : Prop where
  mem : o' ∈ live
  before : live.idxOf o' < live.idxOf o
  fits : tol.Fits (targets.quotes.get k) o'
  on_grid : OnTick t o'.price

/-- Each order off the grid that is close to a target is listed after one on the grid that is, too,
and to no other target. -/
def OffGridShut (targets : TargetQuotes) (live : List OpenOrder) (tol : Tolerance) (t : ℚ) : Prop :=
  ∀ k, ∀ o ∈ live, tol.Fits (targets.quotes.get k) o → ¬ OnTick t o.price →
    ∃ o', Ahead targets live tol t k o o' ∧ ∀ k', tol.Fits (targets.quotes.get k') o' → k' = k

/-- Each order off the grid that is close to a target is listed after one on the grid that is,
too. -/
def OffGridBehind (targets : TargetQuotes) (live : List OpenOrder) (tol : Tolerance) (t : ℚ) :
    Prop :=
  ∀ k, ∀ o ∈ live, tol.Fits (targets.quotes.get k) o → ¬ OnTick t o.price →
    ∃ o', Ahead targets live tol t k o o'

/-- No order off the grid is close to a target. -/
theorem offGridShut_of_far
    (h : ∀ o ∈ live, ¬ OnTick t o.price → ∀ q ∈ targets.quotes, ¬ tol.Fits q o) :
    OffGridShut targets live tol t := fun _ o ho hfit hoff =>
  absurd hfit (h o ho hoff _ (List.get_mem _ _))

/-- The two come to the same where no order is close to two targets. -/
theorem offGridShut_iff_of_no_overlap
    (h : ∀ o ∈ live, ∀ k k', tol.Fits (targets.quotes.get k) o →
      tol.Fits (targets.quotes.get k') o → k' = k) :
    OffGridShut targets live tol t ↔ OffGridBehind targets live tol t := by
  refine forall₂_congr fun k o => forall₃_congr fun _ _ _ => exists_congr fun o' => ?_
  exact and_iff_left_of_imp fun ho' k' hfit => h o' ho'.mem k k' ho'.fits hfit

variable {c : Choice targets live tol}

theorem reprices_of_shut (hserved : c.FirstComeServed) (ht : DividesUnit t)
    (hshut : OffGridShut targets live tol t) : Reprices t c where
  kept k o hk := by
    refine not_not.1 (hserved.not_of_reserved (fun o => ¬ OnTick t o.price) ?_ hk)
    intro k o hrel hoff
    obtain ⟨o', hahead, halone⟩ := hshut k o hrel.1 hrel.2 hoff
    exact ⟨o', hahead.before, ⟨hahead.mem, hahead.fits⟩, fun k' hrel' => halone k' hrel'.2⟩
  placed := .inl ht

theorem offGridBehind_of_reprices (hserved : c.FirstComeServed) (h : Reprices t c) :
    OffGridBehind targets live tol t := by
  intro k o ho hfit hoff
  have htotal : ∀ (k : Fin targets.quotes.length) o o',
      (o ∈ live ∧ tol.Fits (targets.quotes.get k) o) →
      (o' ∈ live ∧ tol.Fits (targets.quotes.get k) o') →
      live.idxOf o < live.idxOf o' ∨ o = o' ∨ live.idxOf o' < live.idxOf o := by
    intro k o o' ho _
    rcases lt_trichotomy (live.idxOf o) (live.idxOf o') with hlt | heq | hlt
    · exact .inl hlt
    · exact .inr (.inl ((List.idxOf_inj ho.1).1 heq))
    · exact .inr (.inr hlt)
  obtain ⟨o', hbefore, hrel, hon⟩ := hserved.exists_before htotal
    (fun o => ¬ OnTick t o.price) (fun k o hk => not_not.2 (h.kept k o hk)) ⟨ho, hfit⟩ hoff
  exact ⟨o', hrel.1, hbefore, hrel.2, not_not.1 hon⟩

end Resting

namespace Engine

/-- After a recompute that succeeds and sheds nothing, every order of the market is on the grid of
its tick exactly when the choice that is first come, first served reprices the others. -/
theorem all_on_tick_iff {e : Engine} {cid : ConditionId} {m : Market} {obs : Observation}
    {ans : Answers} {d : Decision} (hk : e.store.Keyed) (hm : e.markets.get? cid = some m)
    (hne : m.info.yes ≠ m.info.no) (hd : e.decision? cid obs = some d)
    (hshed : ¬ Shed obs d.regime) (hs : e.Succeeds cid m obs ans) :
    (∀ o ∈ (e.recompute cid obs ans).engine.ordersOf m.info, OnTick m.info.tickSize o.price) ↔
      ∀ c : Choice d.targets (e.ordersOf m.info) (tolerance m), c.FirstComeServed →
        Reprices m.info.tickSize c := by
  have hid := nodup_ordersOf hk hne
  have hreceipts := prices_of_receipts hm hd hshed hs
  simp only [mem_ordersOf_recompute_iff hk hm hne hd hs]
  constructor
  · intro h c hserved
    obtain rfl := hserved.eq_planChoice hid
    refine ⟨fun k o hitem => h o (.inl (Choice.mem_orders_iff.2 ⟨k, hitem⟩)),
      .inr fun k hitem => ?_⟩
    obtain ⟨o, ho, hreal⟩ := FirstFit.exists_of_mem_right hreceipts.flip
      (Choice.mem_unmatched_iff.2 ⟨k, hitem, rfl⟩)
    rw [← hreal.2.1]
    exact h o (.inr ho)
  · rintro h o (ho | ho)
    · obtain ⟨k, hitem⟩ := Choice.mem_orders_iff.1 ho
      exact (h _ (firstComeServed_planChoice hid)).kept k o hitem
    · obtain ⟨q, hq, hreal⟩ := FirstFit.exists_of_mem_right hreceipts ho
      obtain ⟨k, hitem, rfl⟩ := Choice.mem_unmatched_iff.1 hq
      rw [hreal.2.1]
      rcases (h _ (firstComeServed_planChoice hid)).placed with hunit | hplaced
      · obtain ⟨i, hinfo, -, -, htargets, -⟩ := exists_inputs_of_decision hm hd
        have hmem : d.targets.quotes.get k ∈ (constructQuotes i).quotes :=
          htargets ▸ List.get_mem _ _
        rw [← hinfo] at hunit ⊢
        exact onTick_of_mem_constructQuotes hunit hmem
      · exact hplaced k hitem

end Engine

/-! ### After a metadata refresh -/

/-- The market that a refresh leaves. -/
def Market.refreshed (m : Market) (raw : RawMarket) : Market :=
  { m with info := m.info.refreshed raw }

theorem markets_applyMetaRefresh {e : Engine} {cid : ConditionId} {m : Market}
    (hm : e.markets.get? cid = some m) (books : Dict TokenId LiveBook) (raw : RawMarket) :
    (applyMetaRefresh e books cid raw).1.markets.get? cid = some (m.refreshed raw) := by
  unfold applyMetaRefresh
  rw [hm]
  exact (Dict.get?_set _ _ _ _).trans (if_pos rfl)

theorem store_applyMetaRefresh (e : Engine) (books : Dict TokenId LiveBook) (cid : ConditionId)
    (raw : RawMarket) : (applyMetaRefresh e books cid raw).1.store = e.store := by
  unfold applyMetaRefresh
  split <;> rfl

theorem tickSize_refreshed {m : Market} {raw : RawMarket} {t : ℚ}
    (h : m.info.newTick raw = some t) : (m.refreshed raw).info.tickSize = t := by
  obtain ⟨hraw, -⟩ := Option.filter_eq_some_iff.1 h
  unfold Market.refreshed MarketMeta.refreshed
  rw [hraw]
  rfl

/-- **When a change of tick reprices every order.**  After a refresh that takes over a new tick, and
a recompute that succeeds and sheds nothing, no order off the new grid is left on the market, if the
tick has six decimals and divides one, and each resting order off the grid that is close to a target
is listed after one on the grid that is close to this target alone; and none is left only if it is
listed after one on the grid that is close to the target. -/
theorem tick_change_reprices (e : Engine) (books : Dict TokenId LiveBook) (cid : ConditionId)
    {m : Market} {raw : RawMarket} {t : ℚ} {obs : Observation} (ans : Answers) {d : Decision}
    (hk : e.store.Keyed) (hm : e.markets.get? cid = some m) (hne : m.info.yes ≠ m.info.no)
    (ht : m.info.newTick raw = some t)
    (hd : (applyMetaRefresh e books cid raw).1.decision? cid obs = some d)
    (hshed : ¬ Shed obs d.regime)
    (hs : (applyMetaRefresh e books cid raw).1.Succeeds cid (m.refreshed raw) obs ans) :
    let tol := Engine.tolerance (m.refreshed raw)
    let left := ((applyMetaRefresh e books cid raw).1.recompute cid obs ans).engine.ordersOf m.info
    (DividesUnit t → OffGridShut d.targets (e.ordersOf m.info) tol t →
        ∀ o ∈ left, OnTick t o.price) ∧
      ((∀ o ∈ left, OnTick t o.price) → OffGridBehind d.targets (e.ordersOf m.info) tol t) := by
  intro tol left
  have hstore := store_applyMetaRefresh e books cid raw
  have hid := Engine.nodup_ordersOf hk hne
  have h := Engine.all_on_tick_iff (hstore ▸ hk) (markets_applyMetaRefresh hm books raw) hne hd
    hshed hs
  rw [tickSize_refreshed ht, Engine.ordersOf_congr hstore] at h
  constructor
  · intro hunit hshut
    exact h.2 fun c hserved => reprices_of_shut hserved hunit hshut
  · intro hall
    have hserved : (planChoice d.targets (e.ordersOf m.info) tol).FirstComeServed :=
      firstComeServed_planChoice hid
    exact offGridBehind_of_reprices hserved (h.1 hall _ hserved)

/-- Of two bids before the tick went from 0.001 to 0.01 the one at 0.48 is kept for the target, and
the one at 0.481, as close to it but listed later, is cancelled. -/
theorem tick_change_reprices_second_order :
    let m : Market :=
      { info := ⟨"c", "yes", "no", 1 / 1000, 5, 0, 0, none, none⟩, profile := { layers := 1 } }
    let book := OrderBook.ofTouch (48 / 100) (52 / 100) 100
    let obs : Observation :=
      ⟨100, some book, some book, 0, 0, 0, 0, false, false, false, false, 0⟩
    let e : Engine := ⟨{}, Dict.empty.set "c" m,
      ((StateStore.open .fresh).upsertOrder ⟨"a", "yes", .buy, 48 / 100, 104, .live, 0⟩).upsertOrder
        ⟨"b", "yes", .buy, 481 / 1000, 104, .live, 0⟩, .new {}, Dict.empty⟩
    let e' := (applyMetaRefresh e .empty "c" ⟨none, none, none, none, some (1 / 100)⟩).1
    ∀ o ∈ (e'.recompute "c" obs ⟨true, some [[some "o1"]], none⟩).engine.ordersOf m.info,
      OnTick (1 / 100) o.price := by
  intro m book obs e e'
  let a : OpenOrder := ⟨"a", "yes", .buy, 48 / 100, 104, .live, 0⟩
  let b : OpenOrder := ⟨"b", "yes", .buy, 481 / 1000, 104, .live, 0⟩
  let d := (e'.decision? "c" obs).get (by decide +kernel)
  have hd : e'.decision? "c" obs = some d := (Option.some_get _).symm
  have hshed : ¬ Shed obs d.regime := by decide +kernel
  have hlive : e.ordersOf m.info = [a, b] := by decide +kernel
  have hgrid : OnTick (1 / 100) a.price := ⟨48, by norm_num [a]⟩
  -- only the target of YES is close to them
  have hclose : ∀ k, (Engine.tolerance (m.refreshed ⟨none, none, none, none, some (1 / 100)⟩)).Fits
      (d.targets.quotes.get k) b → k.val = 0 := by decide +kernel
  have hclose' : ∀ k, (Engine.tolerance (m.refreshed ⟨none, none, none, none, some (1 / 100)⟩)).Fits
      (d.targets.quotes.get k) a ↔ k.val = 0 := by decide +kernel
  refine (tick_change_reprices e .empty "c" _ (((keyed_open _).upsertOrder _).upsertOrder _)
    (by decide +kernel) (by decide) (by decide +kernel) hd hshed
    ⟨fun _ => rfl, by decide +kernel, by decide +kernel, by decide +kernel⟩).1
    ⟨⟨10 ^ 4, by norm_num⟩, ⟨100, by norm_num⟩⟩ fun k o ho hfit hoff => ?_
  rw [hlive] at ho ⊢
  obtain rfl | rfl : o = a ∨ o = b := by simpa using ho
  · exact absurd hgrid hoff
  · have hk := hclose k hfit
    refine ⟨a, ⟨by simp, by decide +kernel, (hclose' k).2 hk, hgrid⟩, fun k' hfit' => Fin.ext ?_⟩
    rw [(hclose' k').1 hfit', hk]

/-- A bid at 0.481 before the tick went from 0.001 to 0.01 is within two of the new ticks of the
target 0.48, and stays. -/
theorem off_grid_order_kept :
    let m : Market :=
      { info := ⟨"c", "yes", "no", 1 / 1000, 5, 0, 0, none, none⟩, profile := { layers := 1 } }
    let book := OrderBook.ofTouch (48 / 100) (52 / 100) 100
    let obs : Observation :=
      ⟨100, some book, some book, 0, 0, 0, 0, false, false, false, false, 0⟩
    let e : Engine := ⟨{}, Dict.empty.set "c" m,
      (StateStore.open .fresh).upsertOrder ⟨"a", "yes", .buy, 481 / 1000, 104, .live, 0⟩, .new {},
      Dict.empty⟩
    let raw : RawMarket := ⟨none, none, none, none, some (1 / 100)⟩
    let e' := (applyMetaRefresh e .empty "c" raw).1
    let ans : Answers := ⟨true, some [[some "o1"]], none⟩
    (∀ o ∈ e.ordersOf m.info, OnTick m.info.tickSize o.price) ∧
      m.info.newTick raw = some (1 / 100) ∧ e'.Succeeds "c" (m.refreshed raw) obs ans ∧
      (e'.decision? "c" obs).map (fun d => (d.plan.toCancel, d.plan.toPlace.length)) =
        some ([], 1) ∧
      ¬ ∀ o ∈ (e'.recompute "c" obs ans).engine.ordersOf m.info, OnTick (1 / 100) o.price := by
  intro m book obs e raw e' ans
  have hlive : e.ordersOf m.info = [⟨"a", "yes", .buy, 481 / 1000, 104, .live, 0⟩] := by
    decide +kernel
  refine ⟨?_, by decide +kernel, ⟨fun _ => rfl, by decide +kernel, by decide +kernel,
    by decide +kernel⟩, by decide +kernel, fun h => ?_⟩
  · rw [hlive]
    intro o ho
    obtain rfl := List.mem_singleton.1 ho
    exact ⟨481, by norm_num⟩
  · obtain ⟨k, hk⟩ := h ⟨"a", "yes", .buy, 481 / 1000, 104, .live, 0⟩ (by decide +kernel)
    -- 48.1 ticks
    have hticks : (k : ℚ) * 10 = 481 := by linarith
    have : k * 10 = 481 := by exact_mod_cast hticks
    omega

end Polymaker
