import Mathlib.Algebra.Order.Ring.Rat
import Mathlib.Algebra.Order.Group.Abs
import Mathlib.Tactic.Linarith
import Polymaker.Domain
import Polymaker.Lib.FirstFit

/-!
# The reconciler

`reconcile` of `execution/reconciler.py`: target quotes against live orders, to cancels and
placements.

* `Tolerance`, `Fits`: when a live order satisfies a target;
* `reconcile`: each target keeps the first free order that fits, the other orders are cancelled and
  the other targets placed;
* `leaves`: the orders a plan leaves once it is carried out;
* `isNoop_reconcile_leaves`: the same targets ask for nothing more then, exactly when every order
  placed is within the tolerances of its own target;
* `isNoop_reconcile_iff_of_keys`: what it takes where no two targets compete for a token and side.
-/

namespace Polymaker

/-- The churn tolerances a market is reconciled with. -/
structure Tolerance where
  tick : ℚ
  repriceTicks : ℤ
  resizeFrac : ℚ
  deriving DecidableEq, Repr

namespace Tolerance

/-- `price_close` and `size_close`. -/
def Close (t : Tolerance) (q : Quote) (price size : ℚ) : Prop :=
  |price - q.price| ≤ t.repriceTicks * t.tick + eps ∧
    (q.size ≤ 0 ∨ |size - q.size| ≤ t.resizeFrac * q.size + eps)

instance (t : Tolerance) (q : Quote) (price size : ℚ) : Decidable (t.Close q price size) :=
  inferInstanceAs (Decidable (_ ∧ _))

/-- A live order of the target's token and side that is close to it. -/
def Fits (t : Tolerance) (q : Quote) (o : OpenOrder) : Prop :=
  (o.tokenId = q.tokenId ∧ o.side = q.side) ∧ t.Close q o.price o.size

instance (t : Tolerance) (q : Quote) (o : OpenOrder) : Decidable (t.Fits q o) :=
  inferInstanceAs (Decidable (_ ∧ _))

/-- The target is within the tolerances of itself: they are not negative for it. -/
def Reflexive (t : Tolerance) (q : Quote) : Prop := t.Close q q.price q.size

instance (t : Tolerance) (q : Quote) : Decidable (t.Reflexive q) :=
  inferInstanceAs (Decidable (t.Close q _ _))

/-- Where anything fits a target, the target fits itself. -/
theorem Fits.reflexive {t : Tolerance} {q : Quote} {o : OpenOrder} (h : t.Fits q o) :
    t.Reflexive q := by
  obtain ⟨-, hprice, hsize⟩ := h
  unfold Reflexive Close
  rw [sub_self, sub_self, abs_zero]
  refine ⟨(abs_nonneg _).trans hprice, ?_⟩
  rcases hsize with hsize | hsize
  · exact .inl hsize
  · exact .inr ((abs_nonneg _).trans hsize)

/-- Tolerances that are not negative make every target fit itself. -/
theorem reflexive_of_nonneg {t : Tolerance} (htick : 0 ≤ t.tick) (hreprice : 0 ≤ t.repriceTicks)
    (hresize : 0 ≤ t.resizeFrac) (q : Quote) : t.Reflexive q := by
  have hreprice' : (0 : ℚ) ≤ t.repriceTicks := by exact_mod_cast hreprice
  unfold Reflexive Close
  rw [sub_self, sub_self, abs_zero]
  refine ⟨add_nonneg (mul_nonneg hreprice' htick) eps_pos.le, ?_⟩
  rcases le_or_gt q.size 0 with hsize | hsize
  · exact .inl hsize
  · exact .inr (add_nonneg (mul_nonneg hresize hsize.le) eps_pos.le)

end Tolerance

/-- The order a quote was placed as. -/
def Realises (q : Quote) (o : OpenOrder) : Prop :=
  (o.tokenId = q.tokenId ∧ o.side = q.side) ∧ o.price = q.price ∧ o.size = q.size

instance (q : Quote) (o : OpenOrder) : Decidable (Realises q o) :=
  inferInstanceAs (Decidable (_ ∧ _))

theorem Realises.fits {q : Quote} {o : OpenOrder} (h : Realises q o) {t : Tolerance}
    (hself : t.Reflexive q) : t.Fits q o := by
  obtain ⟨hkey, hprice, hsize⟩ := h
  refine ⟨hkey, ?_⟩
  rw [hprice, hsize]
  exact hself

/-- What has to be done. -/
structure ReconcilePlan where
  toCancel : List OrderId
  toPlace : List Quote
  deriving DecidableEq, Repr

/-- `is_noop`. -/
def ReconcilePlan.isNoop (p : ReconcilePlan) : Bool := p.toCancel.isEmpty && p.toPlace.isEmpty

theorem ReconcilePlan.isNoop_iff {p : ReconcilePlan} :
    p.isNoop = true ↔ p.toPlace = [] ∧ p.toCancel = [] := by
  simp only [isNoop, Bool.and_eq_true, List.isEmpty_iff]
  exact and_comm

/-- The loop of `reconcile`: each target with the live order kept for it. -/
def matchTargets (t : Tolerance) (live : List OpenOrder) (quotes : List Quote) :
    List (Quote × Option OpenOrder) :=
  FirstFit.assign t.Fits OpenOrder.orderId live [] quotes

/-- `reconcile`. -/
def reconcile (targets : TargetQuotes) (live : List OpenOrder) (t : Tolerance) : ReconcilePlan :=
  let matched := matchTargets t live targets.quotes
  let keep := (FirstFit.used matched).map OpenOrder.orderId
  { toCancel := (live.map OpenOrder.orderId).filter fun i => decide (i ∉ keep)
    toPlace := FirstFit.unmet matched }

/-- The orders left when a plan is carried out: those it does not cancel, and those placed. -/
def ReconcilePlan.leaves (p : ReconcilePlan) (live placed : List OpenOrder) : List OpenOrder :=
  live.filter (fun o => decide (o.orderId ∉ p.toCancel)) ++ placed

/-! ### The plan -/

variable {targets : TargetQuotes} {live : List OpenOrder} {t : Tolerance}

theorem mem_toCancel {i : OrderId} :
    i ∈ (reconcile targets live t).toCancel ↔ i ∈ live.map OpenOrder.orderId ∧
      i ∉ (FirstFit.used (matchTargets t live targets.quotes)).map OpenOrder.orderId := by
  simp only [reconcile, List.mem_filter, decide_eq_true_eq]

/-- An order kept for a target is not cancelled. -/
theorem not_mem_toCancel_of_used {o : OpenOrder}
    (h : o ∈ FirstFit.used (matchTargets t live targets.quotes)) :
    o.orderId ∉ (reconcile targets live t).toCancel := fun hin =>
  (mem_toCancel.1 hin).2 (List.mem_map_of_mem h)

theorem mem_of_used {o : OpenOrder} (h : o ∈ FirstFit.used (matchTargets t live targets.quotes)) :
    o ∈ live ∧ ∃ q ∈ targets.quotes, t.Fits q o := by
  obtain ⟨q, hmem⟩ := FirstFit.mem_used.1 h
  obtain ⟨hlive, -, hfit⟩ := FirstFit.mem_assign_some hmem
  exact ⟨hlive, q, FirstFit.mem_requests hmem, hfit⟩

/-- What is placed is a target. -/
theorem mem_of_toPlace {q : Quote} (h : q ∈ (reconcile targets live t).toPlace) :
    q ∈ targets.quotes := FirstFit.mem_requests (FirstFit.mem_unmet.1 h)

theorem toPlace_sublist (targets : TargetQuotes) (live : List OpenOrder) (t : Tolerance) :
    List.Sublist (reconcile targets live t).toPlace targets.quotes := by
  have h := FirstFit.unmet_sublist (matchTargets t live targets.quotes)
  rwa [matchTargets, FirstFit.map_fst_assign] at h

/-- An order that is neither cancelled nor forgotten stands for a target. -/
theorem exists_fits_of_kept (hid : (live.map OpenOrder.orderId).Nodup) {o : OpenOrder}
    (ho : o ∈ live) (hkept : o.orderId ∉ (reconcile targets live t).toCancel) :
    o ∈ FirstFit.used (matchTargets t live targets.quotes) := by
  by_contra hnot
  refine hkept (mem_toCancel.2 ⟨List.mem_map_of_mem ho, fun hin => ?_⟩)
  obtain ⟨o', ho', heq⟩ := List.mem_map.1 hin
  obtain rfl := List.inj_on_of_nodup_map hid (mem_of_used ho').1 ho heq
  exact hnot ho'

/-- Nothing is asked for exactly when every target is met and every order kept. -/
theorem isNoop_reconcile_iff :
    (reconcile targets live t).isNoop = true ↔
      FirstFit.unmet (matchTargets t live targets.quotes) = [] ∧
        ∀ o ∈ live, o.orderId ∈
          (FirstFit.used (matchTargets t live targets.quotes)).map OpenOrder.orderId := by
  rw [ReconcilePlan.isNoop_iff]
  refine and_congr_right fun _ => ?_
  rw [List.eq_nil_iff_forall_not_mem]
  constructor
  · intro h o ho
    by_contra hnot
    exact h o.orderId (mem_toCancel.2 ⟨List.mem_map_of_mem ho, hnot⟩)
  · intro h i hi
    obtain ⟨hlive, hnot⟩ := mem_toCancel.1 hi
    obtain ⟨o, ho, rfl⟩ := List.mem_map.1 hlive
    exact hnot (h o ho)

/-- A plan depends on the live orders of each token apart. -/
theorem isNoop_reconcile_congr {live' : List OpenOrder}
    (h : ∀ tok, live.filter (fun o => decide (o.tokenId = tok)) =
      live'.filter fun o => decide (o.tokenId = tok)) :
    (reconcile targets live t).isNoop = (reconcile targets live' t).isNoop := by
  have hmatch : matchTargets t live targets.quotes = matchTargets t live' targets.quotes :=
    FirstFit.assign_congr (c := fun q o => decide (o.tokenId = q.tokenId))
      (fun _ _ hfit => decide_eq_true hfit.1.1) (fun q _ => h q.tokenId) []
  have hmem : ∀ o, o ∈ live ↔ o ∈ live' := fun o => by
    have ho := congrArg (o ∈ ·) (h o.tokenId)
    simpa using ho
  rw [Bool.eq_iff_iff, isNoop_reconcile_iff, isNoop_reconcile_iff, hmatch]
  simp only [hmem]

/-! ### After a plan is carried out -/

/-- Each placement became an order of its own. -/
structure CarriedOut (p : ReconcilePlan) (live placed : List OpenOrder) : Prop where
  realised : List.Forall₂ Realises p.toPlace placed
  fresh : ∀ o ∈ placed, ∀ o' ∈ live, o.orderId ≠ o'.orderId
  distinct : (placed.map OpenOrder.orderId).Nodup

instance (p : ReconcilePlan) (live placed : List OpenOrder) : Decidable (CarriedOut p live placed) :=
  decidable_of_iff (List.Forall₂ Realises p.toPlace placed ∧
      (∀ o ∈ placed, ∀ o' ∈ live, o.orderId ≠ o'.orderId) ∧ (placed.map OpenOrder.orderId).Nodup)
    ⟨fun h => ⟨h.1, h.2.1, h.2.2⟩, fun h => ⟨h.realised, h.fresh, h.distinct⟩⟩

/-- **The same targets ask for nothing more**, exactly when what was placed is within the
tolerances of its own target. -/
theorem isNoop_reconcile_leaves {placed : List OpenOrder}
    (hdone : CarriedOut (reconcile targets live t) live placed) :
    (reconcile targets ((reconcile targets live t).leaves live placed) t).isNoop = true ↔
      ∀ q ∈ (reconcile targets live t).toPlace, t.Reflexive q := by
  constructor
  · intro h q hq
    obtain ⟨o, -, hfit⟩ := FirstFit.exists_fits_of_met (isNoop_reconcile_iff.1 h).1
      (mem_of_toPlace hq)
    exact hfit.reflexive
  · intro hself
    have hfits : List.Forall₂ t.Fits (FirstFit.unmet (matchTargets t live targets.quotes))
        placed :=
      ((List.forall₂_and_left _ _).2 ⟨hself, hdone.realised⟩).imp
        fun _ _ h => h.2.fits h.1
    have hmatch : matchTargets t ((reconcile targets live t).leaves live placed) targets.quotes =
        FirstFit.refill (matchTargets t live targets.quotes) placed :=
      FirstFit.assign_refill (fun o ho => decide_eq_true (not_mem_toCancel_of_used ho)) hfits
        hdone.fresh hdone.distinct
    rw [isNoop_reconcile_iff, hmatch]
    refine ⟨FirstFit.unmet_refill hfits, fun o ho => ?_⟩
    rcases List.mem_append.1 ho with ho | ho
    · -- an order that stays was kept for a target
      obtain ⟨hlive, hkept⟩ := List.mem_filter.1 ho
      have hin : o.orderId ∈
          (FirstFit.used (matchTargets t live targets.quotes)).map OpenOrder.orderId := by
        by_contra hnot
        exact of_decide_eq_true hkept (mem_toCancel.2 ⟨List.mem_map_of_mem hlive, hnot⟩)
      obtain ⟨o', ho', heq⟩ := List.mem_map.1 hin
      exact List.mem_map.2 ⟨o', (FirstFit.mem_used_refill hfits).2 (.inl ho'), heq⟩
    · exact List.mem_map_of_mem ((FirstFit.mem_used_refill hfits).2 (.inr ho))

/-- The token and side of a target. -/
def Quote.key (q : Quote) : TokenId × Side := (q.tokenId, q.side)

/-- The token and side of an order. -/
def OpenOrder.key (o : OpenOrder) : TokenId × Side := (o.tokenId, o.side)

theorem Tolerance.Fits.key_eq {q : Quote} {o : OpenOrder} (h : t.Fits q o) : q.key = o.key := by
  rw [Quote.key, OpenOrder.key, h.1.1, h.1.2]

theorem Realises.key_eq {q : Quote} {o : OpenOrder} (h : Realises q o) : q.key = o.key := by
  rw [Quote.key, OpenOrder.key, h.1.1, h.1.2]

/-- Where no two targets and no two orders share token and side, nothing is asked for exactly when
each target has an order that fits and each order a target. -/
theorem isNoop_reconcile_iff_of_keys (hid : (live.map OpenOrder.orderId).Nodup)
    (hq : (targets.quotes.map Quote.key).Nodup) (ho : (live.map OpenOrder.key).Nodup) :
    (reconcile targets live t).isNoop = true ↔
      (∀ q ∈ targets.quotes, ∃ o ∈ live, t.Fits q o) ∧
        ∀ o ∈ live, ∃ q ∈ targets.quotes, t.Fits q o := by
  rw [isNoop_reconcile_iff]
  exact FirstFit.met_iff_of_keys (fun _ _ hfit => hfit.key_eq) hid hq ho

theorem nodup_orderId_leaves {p : ReconcilePlan} (hid : (live.map OpenOrder.orderId).Nodup)
    {placed : List OpenOrder} (hdone : CarriedOut p live placed) :
    ((p.leaves live placed).map OpenOrder.orderId).Nodup := by
  rw [ReconcilePlan.leaves, List.map_append]
  refine (hid.sublist (List.filter_sublist.map _)).append hdone.distinct ?_
  intro i hstay hnew
  obtain ⟨o, ho, rfl⟩ := List.mem_map.1 hnew
  obtain ⟨o', ho', heq⟩ := List.mem_map.1 hstay
  exact hdone.fresh o ho o' (List.mem_filter.1 ho').1 heq.symm

/-- The orders that stand for the targets once the plan is carried out, in the targets' order. -/
theorem map_key_used_refill {placed : List OpenOrder}
    (hdone : CarriedOut (reconcile targets live t) live placed) :
    (FirstFit.used (FirstFit.refill (matchTargets t live targets.quotes) placed)).map
      OpenOrder.key = targets.quotes.map Quote.key := by
  have hold : ∀ q o, (q, some o) ∈ matchTargets t live targets.quotes → q.key = o.key :=
    fun q o hmem => (FirstFit.mem_assign_some hmem).2.2.key_eq
  have hnew : List.Forall₂ (fun q o => Quote.key q = OpenOrder.key o)
      (FirstFit.unmet (matchTargets t live targets.quotes)) placed :=
    hdone.realised.imp fun _ _ hreal => hreal.key_eq
  rw [FirstFit.map_used_refill hold hnew, matchTargets, FirstFit.map_fst_assign]

/-- They are the orders left. -/
theorem mem_leaves_iff (hid : (live.map OpenOrder.orderId).Nodup) {placed : List OpenOrder}
    (hdone : CarriedOut (reconcile targets live t) live placed) {o : OpenOrder} :
    o ∈ (reconcile targets live t).leaves live placed ↔
      o ∈ FirstFit.used (FirstFit.refill (matchTargets t live targets.quotes) placed) := by
  rw [FirstFit.mem_used_refill hdone.realised, ReconcilePlan.leaves, List.mem_append,
    List.mem_filter]
  refine or_congr_left ⟨fun h => ?_, fun h => ?_⟩
  · exact exists_fits_of_kept hid h.1 (of_decide_eq_true h.2)
  · exact ⟨(mem_of_used h).1, decide_eq_true (not_mem_toCancel_of_used h)⟩

/-- Targets that do not share token and side leave orders that do not. -/
theorem nodup_key_leaves (hid : (live.map OpenOrder.orderId).Nodup) {placed : List OpenOrder}
    (hdone : CarriedOut (reconcile targets live t) live placed)
    (hq : (targets.quotes.map Quote.key).Nodup) :
    (((reconcile targets live t).leaves live placed).map OpenOrder.key).Nodup := by
  rw [← map_key_used_refill hdone] at hq
  refine List.Nodup.map_on ?_ (nodup_orderId_leaves hid hdone).of_map
  intro o ho o' ho' heq
  exact List.inj_on_of_nodup_map hq ((mem_leaves_iff hid hdone).1 ho)
    ((mem_leaves_iff hid hdone).1 ho') heq

/-- An order left stands for a target of the plan that left it. -/
theorem exists_target_of_mem_leaves (hid : (live.map OpenOrder.orderId).Nodup)
    {placed : List OpenOrder} (hdone : CarriedOut (reconcile targets live t) live placed)
    {o : OpenOrder} (ho : o ∈ (reconcile targets live t).leaves live placed) :
    ∃ q ∈ targets.quotes, q.key = o.key := by
  have hkey := List.mem_map_of_mem (f := OpenOrder.key) ((mem_leaves_iff hid hdone).1 ho)
  rw [map_key_used_refill hdone] at hkey
  exact List.mem_map.1 hkey

/-- Every target has an order left. -/
theorem exists_mem_leaves_of_target (hid : (live.map OpenOrder.orderId).Nodup)
    {placed : List OpenOrder} (hdone : CarriedOut (reconcile targets live t) live placed)
    {q : Quote} (hq : q ∈ targets.quotes) :
    ∃ o ∈ (reconcile targets live t).leaves live placed, o.key = q.key := by
  have hkey := List.mem_map_of_mem (f := Quote.key) hq
  rw [← map_key_used_refill hdone] at hkey
  obtain ⟨o, ho, heq⟩ := List.mem_map.1 hkey
  exact ⟨o, (mem_leaves_iff hid hdone).2 ho, heq⟩

end Polymaker
