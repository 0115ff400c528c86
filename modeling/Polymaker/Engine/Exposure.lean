import Polymaker.Engine.Success
import Polymaker.Lib.Run

/-!
# The exposure caps

`RiskManager.evaluate` compares what is committed before a recompute with the caps; the sizes of
what the recompute then places are decided without them.

* `Engine.committed`, `Engine.marketCommitted`: marked filled inventory and resting bids, over all
  markets and on one;
* `Engine.HasRoom`: two entry legs fit under the caps;
* `withinCaps_iff`: after a recompute whose calls succeed, the caps hold exactly when the bids it
  posts, less those it cancels, fit, and `fitsCaps_of_hasRoom`: they do where two legs fit;
* `caps_hold_of_room`: along a run, over any markets in any order.
-/

namespace Polymaker

open RiskManager (restingBuyNotional)

/-! ### What is committed -/

namespace Engine

/-- What is committed over all markets: the filled inventory at its marks, and the resting bids. -/
def committed (e : Engine) : ℚ := e.risk.totalExposure e.store + e.store.restingBuys e.allTokens

/-- What is committed on one market. -/
def marketCommitted (e : Engine) (m : MarketMeta) : ℚ :=
  e.risk.marketNotional e.store m + e.store.restingBuys m.tokens

/-- Both sums are below their caps. -/
structure BelowCaps (e : Engine) (m : MarketMeta) : Prop where
  total : e.committed < e.risk.cfg.maxTotalExposureUsdc
  market : e.marketCommitted m < e.risk.cfg.maxMarketNotionalUsdc

/-- Both sums are at most their caps. -/
structure WithinCaps (e : Engine) (m : MarketMeta) : Prop where
  total : e.committed ≤ e.risk.cfg.maxTotalExposureUsdc
  market : e.marketCommitted m ≤ e.risk.cfg.maxMarketNotionalUsdc

/-- The bids that are posted fit under both caps, at the marks the recompute sets. -/
structure FitsCaps (e : Engine) (cid : ConditionId) (m : Market) (obs : Observation) : Prop where
  total : (e.seen m obs).committed + e.netBids cid m obs ≤ e.risk.cfg.maxTotalExposureUsdc
  market : (e.seen m obs).marketCommitted m.info + e.netBids cid m obs ≤
    e.risk.cfg.maxMarketNotionalUsdc

/-! ### One recompute -/

variable {e : Engine} {cid : ConditionId} {m : Market} {obs : Observation} {ans : Answers}

@[simp] theorem seen_cfg (e : Engine) (m : Market) (obs : Observation) :
    (e.seen m obs).risk.cfg = e.risk.cfg := by
  unfold seen
  split <;> rfl

theorem committed_of_succeeds (hk : e.store.Keyed) (hm : e.markets.get? cid = some m)
    (hs : e.Succeeds cid m obs ans) :
    (e.recompute cid obs ans).engine.committed =
        (e.seen m obs).committed + e.netBids cid m obs ∧
      (e.recompute cid obs ans).engine.marketCommitted m.info =
        (e.seen m obs).marketCommitted m.info + e.netBids cid m obs := by
  have htokens := allTokens_recompute e cid obs ans
  have hseen : (e.seen m obs).allTokens = e.allTokens := by
    unfold allTokens
    rw [seen_markets]
  have hall := restingBuys_of_succeeds hk hm hs (tokens_subset_allTokens hm)
  have hown := restingBuys_of_succeeds hk hm hs (List.Subset.refl m.info.tokens)
  obtain ⟨m', s', r', heq, -, -, hpos, hrisk⟩ := recompute_frame obs ans hm
  unfold committed marketCommitted
  rw [htokens, hall, hown, hseen, seen_store, heq, hrisk.totalExposure, hrisk.marketNotional,
    RiskManager.totalExposure_congr _ hpos, RiskManager.marketNotional_congr _ hpos]
  exact ⟨(add_assoc ..).symm, (add_assoc ..).symm⟩

/-- **The caps hold after a recompute** all of whose calls succeed, exactly when what it posts
fits. -/
theorem withinCaps_iff (hk : e.store.Keyed) (hm : e.markets.get? cid = some m)
    (hs : e.Succeeds cid m obs ans) :
    (e.recompute cid obs ans).engine.WithinCaps m.info ↔ e.FitsCaps cid m obs := by
  obtain ⟨htotal, hmarket⟩ := committed_of_succeeds hk hm hs
  obtain ⟨m', s', r', heq, -, -, -, hrisk⟩ := recompute_frame obs ans hm
  have hcfg : (e.recompute cid obs ans).engine.risk.cfg = e.risk.cfg := by
    rw [heq, hrisk.cfg, seen_cfg]
  constructor
  · intro h
    exact ⟨htotal ▸ hcfg ▸ h.total, hmarket ▸ hcfg ▸ h.market⟩
  · intro h
    exact ⟨htotal ▸ hcfg ▸ h.total, hmarket ▸ hcfg ▸ h.market⟩

/-! ### Room for two legs -/

/-- Two entry legs fit under both caps, with the inventory at the marks of the observation; the tick
has the decimals of the market, the layers do not climb, and no resting order is worth less than
nothing. -/
structure HasRoom (e : Engine) (m : Market) (obs : Observation) : Prop where
  tick : Rounding.OnGrid m.info.priceDecimals m.info.tickSize
  step : 0 ≤ m.profile.layerStepTicks * m.info.tickSize
  orders : ∀ o ∈ e.store.orders.values, 0 ≤ o.price * o.size
  total : (e.seen m obs).committed + 2 * m.profile.entryLeg ≤ e.risk.cfg.maxTotalExposureUsdc
  market : (e.seen m obs).marketCommitted m.info + 2 * m.profile.entryLeg ≤
    e.risk.cfg.maxMarketNotionalUsdc

theorem cancelledBids_nonneg (cid : ConditionId) (m : Market) (obs : Observation)
    (h : ∀ o ∈ e.store.orders.values, 0 ≤ o.price * o.size) : 0 ≤ e.cancelledBids cid m obs := by
  unfold cancelledBids restingBuyNotional
  refine List.sum_nonneg fun x hx => ?_
  obtain ⟨o, ho, rfl⟩ := List.mem_map.1 hx
  exact h o (List.mem_filter.1 (List.mem_filter.1 ho).1).1

/-- What is posted never bids more than two legs. -/
theorem bidNotional_posts_le (obs : Observation) (hm : e.markets.get? cid = some m)
    (htick : Rounding.OnGrid m.info.priceDecimals m.info.tickSize)
    (hstep : 0 ≤ m.profile.layerStepTicks * m.info.tickSize) :
    bidNotional (e.posts cid obs) ≤ 2 * m.profile.entryLeg := by
  have hnone : bidNotional [] ≤ 2 * m.profile.entryLeg :=
    mul_nonneg zero_le_two m.profile.entryLeg_nonneg
  unfold posts
  cases hd : e.decision? cid obs with
  | none => exact hnone
  | some d =>
    simp only [Decision.issued]
    split_ifs
    · exact hnone
    · obtain ⟨i, hinfo, hprofile, htox, htargets, hplan⟩ := exists_inputs_of_decision hm hd
      rw [hplan, htargets, ← hprofile]
      rw [← hinfo] at htick hstep
      rw [← hprofile] at hstep
      exact bidNotional_le_of_sublist_constructQuotes htick hstep
        (htox ▸ le_max_left 0 (-obs.markout)) (toPlace_sublist ..)

theorem fitsCaps_of_hasRoom (hm : e.markets.get? cid = some m) (h : e.HasRoom m obs) :
    e.FitsCaps cid m obs := by
  have hposts := bidNotional_posts_le obs hm h.tick h.step
  have hcancels := cancelledBids_nonneg cid m obs h.orders
  have htotal := h.total
  have hmarket := h.market
  constructor <;> unfold netBids <;> linarith

/-! ### Runs -/

/-- What happens to the engine: a recompute of some market, or anything else, after which the
engine is as given. -/
inductive Change
  | recompute (cid : ConditionId) (obs : Observation) (ans : Answers)
  | outside (e' : Engine)

/-- One change. -/
def change (e : Engine) : Change → Engine
  | .recompute cid obs ans => (e.recompute cid obs ans).engine
  | .outside e' => e'

/-- Whatever else happens leaves every order under its id. -/
def Orderly (_ : Engine) : Change → Prop
  | .recompute .. => True
  | .outside e' => e'.store.Keyed

/-- The guarantee of one change: where a recompute begins below both caps and all of its calls
succeed, both caps hold when it ends. -/
def CapsHold (e : Engine) : Change → Prop
  | .recompute cid obs ans => ∀ m, e.markets.get? cid = some m → e.Succeeds cid m obs ans →
      e.BelowCaps m.info → (e.recompute cid obs ans).engine.WithinCaps m.info
  | .outside _ => True

/-- A recompute that begins below both caps, and all of whose calls succeed, begins with room for
two legs. -/
def BeginsWithRoom (e : Engine) : Change → Prop
  | .recompute cid obs ans => ∀ m, e.markets.get? cid = some m → e.Succeeds cid m obs ans →
      e.BelowCaps m.info → e.HasRoom m obs
  | .outside _ => True

theorem capsHold_of_beginsWithRoom (hk : e.store.Keyed) {c : Change} (h : e.BeginsWithRoom c) :
    e.CapsHold c := by
  cases c with
  | outside e' => trivial
  | recompute cid obs ans =>
    intro m hm hs hbelow
    exact (withinCaps_iff hk hm hs).2 (fitsCaps_of_hasRoom hm (h m hm hs hbelow))

theorem keyed_change (hk : e.store.Keyed) {c : Change} (h : e.Orderly c) :
    (e.change c).store.Keyed := by
  cases c with
  | outside e' => exact h
  | recompute cid obs ans => exact keyed_recompute hk cid obs ans

end Engine

open Engine

/-- **When the exposure caps hold.**  Along every run, in which any markets are recomputed in any
order and anything else may happen in between, every recompute keeps both caps, if each that begins
below them begins with room for two entry legs. -/
theorem caps_hold_of_room (e : Engine) (changes : List Change) (hk : e.store.Keyed)
    (hout : Run.EachStep Engine.change Orderly e changes)
    (hroom : Run.EachStep Engine.change BeginsWithRoom e changes) :
    Run.EachStep Engine.change CapsHold e changes := by
  induction changes generalizing e with
  | nil => exact Run.eachStep_nil
  | cons c changes ih =>
    obtain ⟨hc, hout⟩ := Run.eachStep_cons.1 hout
    obtain ⟨hbegins, hroom⟩ := Run.eachStep_cons.1 hroom
    exact Run.eachStep_cons.2
      ⟨capsHold_of_beginsWithRoom hk hbegins, ih (e.change c) (keyed_change hk hc) hout hroom⟩

/-- Two markets of the default profile, with room under the default caps. -/
theorem caps_hold_of_two_markets :
    let a : Market := { info := ⟨"a", "ya", "na", 1 / 100, 5, 0, 0, none, none⟩, profile := {} }
    let b : Market := { info := ⟨"b", "yb", "nb", 1 / 100, 5, 0, 0, none, none⟩, profile := {} }
    let book := OrderBook.ofTouch (48 / 100) (52 / 100) 100
    let obs : Observation :=
      ⟨100, some book, some book, 0, 0, 0, 0, false, false, false, false, 0⟩
    let e : Engine := ⟨{}, (Dict.empty.set "a" a).set "b" b, StateStore.open .fresh, .new {},
      Dict.empty⟩
    Run.EachStep Engine.change CapsHold e
      [.recompute "a" obs ⟨true, some [[some "o1", some "o2", some "o3", some "o4"]], none⟩,
        .recompute "b" obs ⟨true, some [[some "o5", some "o6", some "o7", some "o8"]], none⟩] := by
  intro a b book obs e
  have hgrid : ∀ m : Market, m.info.priceDecimals = 2 → m.info.tickSize = 1 / 100 →
      Rounding.OnGrid m.info.priceDecimals m.info.tickSize := fun m hdec htick => by
    rw [hdec, htick]
    exact ⟨1, by norm_num⟩
  refine caps_hold_of_room e _ (keyed_open _) ?_ ?_
  · exact Run.eachStep_cons.2 ⟨trivial, Run.eachStep_cons.2 ⟨trivial, Run.eachStep_nil⟩⟩
  · refine Run.eachStep_cons.2 ⟨fun m hm _ _ => ?_,
      Run.eachStep_cons.2 ⟨fun m hm _ _ => ?_, Run.eachStep_nil⟩⟩
    · obtain rfl : a = m := Option.some.inj (hm ▸ by decide +kernel)
      refine ⟨hgrid a (by decide +kernel) rfl, ?_, ?_, ?_, ?_⟩ <;> decide +kernel
    · obtain rfl : b = m := Option.some.inj (hm ▸ by decide +kernel)
      refine ⟨hgrid b (by decide +kernel) rfl, ?_, ?_, ?_, ?_⟩ <;> decide +kernel

/-- The second market is recomputed below both caps, and its bids take the total over its cap. -/
theorem caps_broken_of_second_market :
    let a : Market :=
      { info := ⟨"a", "ya", "na", 1 / 100, 5, 0, 0, none, none⟩, profile := { layers := 1 } }
    let b : Market :=
      { info := ⟨"b", "yb", "nb", 1 / 100, 5, 0, 0, none, none⟩, profile := { layers := 1 } }
    let book := OrderBook.ofTouch (48 / 100) (52 / 100) 100
    let obs : Observation :=
      ⟨100, some book, some book, 0, 0, 0, 0, false, false, false, false, 0⟩
    let e : Engine := ⟨{}, (Dict.empty.set "a" a).set "b" b, StateStore.open .fresh,
      .new { maxTotalExposureUsdc := 150 }, Dict.empty⟩
    let ans : Answers := ⟨true, some [[some "o3", some "o4"]], none⟩
    let first : Change := .recompute "a" obs ⟨true, some [[some "o1", some "o2"]], none⟩
    let k := e.change first
    k.markets.get? "b" = some b ∧ k.Succeeds "b" b obs ans ∧ k.BelowCaps b.info ∧
      k.committed = 62502 / 625 ∧ (k.recompute "b" obs ans).engine.committed = 125004 / 625 ∧
      ¬ Run.EachStep Engine.change CapsHold e [first, .recompute "b" obs ans] := by
  intro a b book obs e ans first k
  have hget : k.markets.get? "b" = some b := by decide +kernel
  have hsucceeds : k.Succeeds "b" b obs ans :=
    ⟨fun _ => rfl, by decide +kernel, by decide +kernel, by decide +kernel⟩
  have hbelow : k.BelowCaps b.info := by constructor <;> decide +kernel
  have hbefore : k.committed = 62502 / 625 := by decide +kernel
  have hafter : (k.recompute "b" obs ans).engine.committed = 125004 / 625 := by decide +kernel
  refine ⟨hget, hsucceeds, hbelow, hbefore, hafter, fun h => ?_⟩
  rw [Run.eachStep_cons, Run.eachStep_cons] at h
  have hwithin := (h.2.1 b hget hsucceeds hbelow).total
  rw [hafter] at hwithin
  exact absurd hwithin (by decide +kernel)

end Polymaker
