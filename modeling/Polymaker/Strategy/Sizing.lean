import Mathlib.Logic.Relation
import Mathlib.Order.Bounds.Defs
import Polymaker.Strategy.EntryCost
import Polymaker.Strategy.Legs

/-!
# The sizes of a leg

A leg splits its share budget over as many layers as can each meet the floor.

* `QuoteInputs.bidsOf`: the orders a leg bids, and `quotes_eq`: a target set is those of both legs
  and the exits;
* `ConsolidateStep`: one round of the loop that drops layers, which ends (`wellFounded_consolidate`)
  where `consolidate` says (`consolidate_run`), and that is the largest number of layers that score
  (`isGreatest_consolidate`);
* `Sized`: how a leg sizes its orders from a touch;
* `entry_sizing`: every leg does.
-/

namespace Polymaker

open Rounding

namespace QuoteInputs

variable (i : QuoteInputs)

instance : Decidable i.QuotesBoth := inferInstanceAs (Decidable (_ ∨ _))

instance : Decidable i.LetsExit := inferInstanceAs (Decidable (_ ∧ _))

/-- The orders a leg bids. -/
def bidsOf (l : Leg) : List Quote :=
  if i.QuotesBoth ∧ l.u < i.profile.qSoftFrac then
    entryQuotes i l.tokenId l.target l.view l.fv l.mid l.u
  else []

/-- The floor of an order: the exchange minimum and the scoring size. -/
def orderFloor : ℚ := max i.rewardFloor i.m.minOrderSize

variable {i}

theorem QuotesBoth.letsExit (h : i.QuotesBoth) : i.LetsExit := by
  constructor <;> rcases h with hr | hr <;> rw [hr] <;> decide

/-- A regime that lets quotes rest quotes both sides, or reduces only. -/
theorem LetsExit.quotesBoth_iff (h : i.LetsExit) : i.QuotesBoth ↔ i.regime ≠ .reduceOnly := by
  unfold QuotesBoth
  cases hr : i.regime with
  | event => exact absurd hr h.1
  | halted => exact absurd hr h.2
  | quiet => simp
  | trending => simp
  | reduceOnly => simp

/-- **A target set** is the bids of both legs, and the exits. -/
theorem quotes_eq (i : QuoteInputs) :
    (constructQuotes i).quotes =
      i.bidsOf i.yesLeg ++ i.bidsOf i.noLeg ++ if i.LetsExit then i.exits else [] := by
  by_cases hlets : i.LetsExit
  · rw [constructQuotes_of_letsExit hlets, if_pos hlets]
    have hyes : i.addYes ↔ i.QuotesBoth ∧ i.yesLeg.u < i.profile.qSoftFrac :=
      and_congr hlets.quotesBoth_iff.symm Iff.rfl
    have hno : i.addNo ↔ i.QuotesBoth ∧ i.noLeg.u < i.profile.qSoftFrac :=
      and_congr hlets.quotesBoth_iff.symm neg_lt
    unfold entries bidsOf
    simp only [hyes, hno]
    rfl
  · have hnone : ∀ l, i.bidsOf l = [] := fun l => if_neg fun h => hlets h.1.letsExit
    rw [hnone, hnone, if_neg hlets]
    exact List.eq_nil_iff_forall_not_mem.2 fun q hq => hlets (letsExit_of_mem hq)

theorem mem_bidsOf_iff {l : Leg} {q : Quote} :
    q ∈ i.bidsOf l ↔
      ∃ top j, i.Bids l top j ∧ q = ⟨l.tokenId, .buy, i.layerPrice top j, i.layerSize l top⟩ := by
  unfold bidsOf
  split_ifs with h
  · rw [mem_leg_iff]
    exact ⟨fun ⟨top, j, htop, hlays, heq⟩ => ⟨top, j, ⟨h.1, h.2, htop, hlays⟩, heq⟩,
      fun ⟨top, j, hbids, heq⟩ => ⟨top, j, hbids.top_eq, hbids.lays_out, heq⟩⟩
  · exact iff_of_false List.not_mem_nil fun ⟨_, _, hbids, _⟩ => h ⟨hbids.both, hbids.inside⟩

/-- The bids of a leg are of one size, and at some of its layers, in order. -/
theorem exists_bidsOf_eq_map {l : Leg} {top : ℚ} (htop : i.top l = some top) :
    ∃ prices : List ℚ,
      prices.Sublist ((List.range (i.layerCount l top)).map (i.layerPrice top)) ∧
      i.bidsOf l = prices.map fun price => ⟨l.tokenId, .buy, price, i.layerSize l top⟩ := by
  unfold bidsOf entryQuotes
  simp only
  rw [show placeBid l.target l.view i.m.tickSize i.m.priceDecimals l.fv i.profile.minEdgeTicks l.mid
    i.rewardBand = some top from htop]
  simp only
  unfold addLayers
  simp only
  split_ifs
  · exact ⟨[], List.nil_sublist _, rfl⟩
  · exact ⟨[], List.nil_sublist _, rfl⟩
  · exact ⟨[], List.nil_sublist _, rfl⟩
  · exact ⟨_, List.filter_sublist.trans (List.takeWhile_prefix _).sublist, rfl⟩
  · exact ⟨[], List.nil_sublist _, rfl⟩

end QuoteInputs

/-! ### Dropping layers -/

section Consolidate

variable {totalSize exchangeMin rewardFloor : ℚ}

/-- One round of the loop that drops layers. -/
def ConsolidateStep (totalSize exchangeMin rewardFloor : ℚ) (n m : ℕ) : Prop :=
  1 < n ∧ TooSmall exchangeMin rewardFloor (perLayer totalSize n) ∧ n = m + 1

/-- The loop ends. -/
theorem wellFounded_consolidate (totalSize exchangeMin rewardFloor : ℚ) :
    WellFounded fun m n => ConsolidateStep totalSize exchangeMin rewardFloor n m :=
  Subrelation.wf (fun {m n} h => (show m < n by obtain ⟨-, -, rfl⟩ := h; exact m.lt_succ_self))
    wellFounded_lt

/-- It ends where `consolidate` says. -/
theorem consolidate_run (totalSize exchangeMin rewardFloor : ℚ) {n : ℕ} (hn : 1 ≤ n) :
    Relation.ReflTransGen (ConsolidateStep totalSize exchangeMin rewardFloor) n
        (consolidate totalSize exchangeMin rewardFloor n) ∧
      ∀ m, ¬ ConsolidateStep totalSize exchangeMin rewardFloor
        (consolidate totalSize exchangeMin rewardFloor n) m := by
  fun_induction consolidate totalSize exchangeMin rewardFloor n with
  | case1 => exact absurd hn (by decide)
  | case2 => exact ⟨.refl, fun m h => absurd h.1 (lt_irrefl 1)⟩
  | case3 n hsmall ih =>
    obtain ⟨hrun, hend⟩ := ih (by omega)
    exact ⟨.head ⟨by omega, hsmall, rfl⟩ hrun, hend⟩
  | case4 n hlarge => exact ⟨.refl, fun m h => hlarge h.2.1⟩

/-- It ends at the largest number of layers that each meet the floor. -/
theorem isGreatest_consolidate (hpos : 0 < rewardFloor) (hmin : exchangeMin ≤ rewardFloor)
    (hone : rewardFloor ≤ perLayer totalSize 1) {n : ℕ} (hn : 1 ≤ n) :
    IsGreatest {k | (1 ≤ k ∧ k ≤ n) ∧ rewardFloor ≤ perLayer totalSize k}
      (consolidate totalSize exchangeMin rewardFloor n) := by
  have hsmall : ∀ per, TooSmall exchangeMin rewardFloor per ↔ per < rewardFloor := fun per =>
    ⟨fun h => h.elim (fun hlt => hlt.trans_le hmin) fun hlt => hlt.2, fun h => .inr ⟨hpos, h⟩⟩
  fun_induction consolidate totalSize exchangeMin rewardFloor n with
  | case1 => exact absurd hn (by decide)
  | case2 => exact ⟨⟨⟨le_refl 1, le_refl 1⟩, hone⟩, fun k hk => hk.1.2⟩
  | case3 n hper ih =>
    obtain ⟨⟨⟨hlow, hhigh⟩, hfloor⟩, hmax⟩ := ih (by omega)
    refine ⟨⟨⟨hlow, by omega⟩, hfloor⟩, fun k hkmem => ?_⟩
    obtain ⟨⟨hk, hkn⟩, hkper⟩ := hkmem
    refine hmax ⟨⟨hk, ?_⟩, hkper⟩
    -- the number dropped does not meet the floor
    have hne : k ≠ n + 2 := fun heq => (hsmall _).1 hper |>.not_ge (heq ▸ hkper)
    omega
  | case4 n hper =>
    exact ⟨⟨⟨by omega, le_refl _⟩, not_lt.1 fun h => hper ((hsmall _).2 h)⟩, fun k hk => hk.1.2⟩

end Consolidate

/-! ### Sizes -/

theorem onGrid_sizeShares (baseUsdc price scale : ℚ) (m : MarketMeta) :
    OnGrid 2 (sizeShares baseUsdc price scale m) := by
  unfold sizeShares
  simp only
  split_ifs
  · exact onGrid_toDecimals 2 _
  · exact ⟨0, by norm_num⟩

theorem perLayer_one {totalSize : ℚ} (h : OnGrid 2 totalSize) :
    perLayer totalSize 1 = totalSize := by
  unfold perLayer
  rw [Nat.cast_one, div_one, toDecimals_of_onGrid h]

/-- A layer holds no more than all of them. -/
theorem perLayer_le {totalSize : ℚ} (hgrid : OnGrid 2 totalSize) (hpos : 0 ≤ totalSize) {n : ℕ}
    (hn : 1 ≤ n) : perLayer totalSize n ≤ totalSize := by
  have hcast : (1 : ℚ) ≤ n := by exact_mod_cast hn
  exact toDecimals_le_of_onGrid hgrid (div_le_self hpos hcast)

/-- **How a leg sizes its orders** from a touch: nothing when its budget is below the floor;
otherwise over the largest number of layers that meet it, which the loop ends at. -/
structure Sized (i : QuoteInputs) (l : Leg) (top : ℚ) : Prop where
  dust : i.legSize l top < i.orderFloor → i.bidsOf l = []
  split : i.orderFloor ≤ i.legSize l top → ∃ k : ℕ,
    Relation.ReflTransGen (ConsolidateStep (i.legSize l top) i.m.minOrderSize i.orderFloor)
      (max 1 i.profile.layers).toNat k ∧
    (∀ n, ¬ ConsolidateStep (i.legSize l top) i.m.minOrderSize i.orderFloor k n) ∧
    IsGreatest {k : ℕ | (1 ≤ k ∧ (k : ℤ) ≤ max 1 i.profile.layers) ∧
      i.orderFloor ≤ perLayer (i.legSize l top) k} k ∧
    (∀ q ∈ i.bidsOf l, q.size = perLayer (i.legSize l top) k) ∧ (i.bidsOf l).length ≤ k ∧
    ((i.bidsOf l).map Quote.size).sum ≤ i.legSize l top + 5 / 1000 * k

theorem sized {i : QuoteInputs} (hfloor : 0 < i.orderFloor) {l : Leg} {top : ℚ}
    (htop : i.top l = some top) : Sized i l top := by
  have hgrid : OnGrid 2 (i.legSize l top) := onGrid_sizeShares _ _ _ _
  have hlayers : 1 ≤ (max 1 i.profile.layers).toNat := by omega
  constructor
  · intro hdust
    refine List.eq_nil_iff_forall_not_mem.2 fun q hq => ?_
    obtain ⟨top', j, hbids, -⟩ := QuoteInputs.mem_bidsOf_iff.1 hq
    obtain rfl := Option.some.inj (htop.symm.trans hbids.top_eq)
    have hlays := hbids.lays_out
    refine hlays.scores ⟨hfloor, (perLayer_le hgrid hlays.some_size.le ?_).trans_lt hdust⟩
    exact consolidate_pos _ _ _ _
  · intro hbudget
    obtain ⟨hrun, hend⟩ := consolidate_run (i.legSize l top) i.m.minOrderSize i.orderFloor hlayers
    have hgreat := isGreatest_consolidate hfloor (le_max_right _ _)
      (hbudget.trans_eq (perLayer_one hgrid).symm) hlayers
    obtain ⟨prices, hprices, hquotes⟩ := QuoteInputs.exists_bidsOf_eq_map htop
    have hlen : prices.length ≤ i.layerCount l top := by
      simpa using hprices.length_le
    have hset : {k : ℕ | (1 ≤ k ∧ (k : ℤ) ≤ max 1 i.profile.layers) ∧
        i.orderFloor ≤ perLayer (i.legSize l top) k} =
        {k | (1 ≤ k ∧ k ≤ (max 1 i.profile.layers).toNat) ∧
          i.orderFloor ≤ perLayer (i.legSize l top) k} := by
      refine Set.ext fun k => and_congr_left' (and_congr_right' ?_)
      omega
    refine ⟨i.layerCount l top, hrun, hend, hset ▸ hgreat, ?_, ?_, ?_⟩
    · rw [hquotes]
      rintro q hq
      obtain ⟨price, -, rfl⟩ := List.mem_map.1 hq
      rfl
    · rw [hquotes, List.length_map]
      exact hlen
    · have hper : 0 ≤ i.layerSize l top := hfloor.le.trans hgreat.1.2
      have hsum : ((i.bidsOf l).map Quote.size).sum = prices.length * i.layerSize l top := by
        rw [hquotes, List.map_map]
        show (prices.map fun _ => i.layerSize l top).sum = _
        rw [List.map_const', List.sum_replicate, nsmul_eq_mul]
      calc ((i.bidsOf l).map Quote.size).sum = prices.length * i.layerSize l top := hsum
        _ ≤ i.layerCount l top * i.layerSize l top :=
          mul_le_mul_of_nonneg_right (by exact_mod_cast hlen) hper
        _ ≤ i.legSize l top + i.layerCount l top / 200 :=
          mul_perLayer_le _ (consolidate_pos _ _ _ _)
        _ = i.legSize l top + 5 / 1000 * i.layerCount l top := by ring

/-- **Entry sizing.**  Each leg, where it finds a touch, keeps within its budget and rests no dust;
where it finds none it bids nothing, and the loop that drops layers always ends. -/
theorem entry_sizing (i : QuoteInputs) (hfloor : 0 < i.orderFloor) :
    (constructQuotes i).quotes =
        i.bidsOf i.yesLeg ++ i.bidsOf i.noLeg ++ (if i.LetsExit then i.exits else []) ∧
      (∀ l ∈ i.legs, (i.top l = none → i.bidsOf l = []) ∧
        ∀ top, i.top l = some top → Sized i l top) ∧
      ∀ totalSize exchangeMin rewardFloor,
        WellFounded fun m n => ConsolidateStep totalSize exchangeMin rewardFloor n m := by
  refine ⟨i.quotes_eq, fun l _ => ⟨fun hnone => ?_, fun top htop => sized hfloor htop⟩,
    wellFounded_consolidate⟩
  refine List.eq_nil_iff_forall_not_mem.2 fun q hq => ?_
  obtain ⟨top, j, hbids, -⟩ := QuoteInputs.mem_bidsOf_iff.1 hq
  cases hnone.symm.trans hbids.top_eq

/-- A market at even odds sizes both legs from 0.48. -/
theorem entry_sizing_at_even_odds :
    let m : MarketMeta := ⟨"c", "yes", "no", 1 / 100, 5, 50, 3, none, none⟩
    let view := (OrderBook.ofTouch (48 / 100) (52 / 100) 100).view
    let i : QuoteInputs :=
      { m, regime := .quiet, fv := 1 / 2, volShort := 0, toxicity := 0, yesView := view
        noView := view, posYes := .flat, posNo := .flat, profile := {}, now := 0 }
    Sized i i.yesLeg (48 / 100) ∧ Sized i i.noLeg (48 / 100) := by
  intro m view i
  have h := (entry_sizing i (by decide +kernel)).2.1
  exact ⟨(h i.yesLeg (by simp [QuoteInputs.legs])).2 _ (by decide +kernel),
    (h i.noLeg (by simp [QuoteInputs.legs])).2 _ (by decide +kernel)⟩

end Polymaker
