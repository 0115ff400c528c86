import Polymaker.Execution.Reconciler
import Polymaker.Lib.Matching

/-!
# What a plan keeps

A plan is a choice of live orders to keep, each for a target of its own; the rest of it follows.

* `Choice`: a matching of the targets to live orders that fit them; `orders`, `unmatched`,
  `cancelled`, `cost`: what is kept, what has to be placed and cancelled, and how many actions that
  takes;
* `planChoice`: the choice of `reconcile`, and `reconcile_eq`: the plan is the one that follows
  from it;
* `reconcile_reaches_targets`: carried out, the plan leaves an order for each target and nothing
  more to do;
* `FirstComeServed`: no target passes over an order, listed before its own, that no earlier target
  has;
* `smallestPlan_iff`: no choice takes fewer actions than the plan exactly when no chain leads from a
  target without an order to an order without a target, in the choice that is first come, first
  served; `smallestPlan_of_no_overlap`: targets that do not compete for an order are enough.
-/

namespace Polymaker

/-- A choice of orders to keep: each target has an order of its own that fits it, or none. -/
abbrev Choice (targets : TargetQuotes) (live : List OpenOrder) (t : Tolerance) : Type :=
  Matching fun (k : Fin targets.quotes.length) o => o ∈ live ∧ t.Fits (targets.quotes.get k) o

variable {targets : TargetQuotes} {live : List OpenOrder} {t : Tolerance}

namespace Choice

/-- The targets, each with the order kept for it. -/
def pairs (c : Choice targets live t) : List (Quote × Option OpenOrder) :=
  (List.finRange targets.quotes.length).map fun k => (targets.quotes.get k, c.item k)

/-- The orders kept. -/
def orders (c : Choice targets live t) : List OpenOrder := FirstFit.used c.pairs

/-- The targets that no order is kept for, in their order. -/
def unmatched (c : Choice targets live t) : List Quote := FirstFit.unmet c.pairs

/-- The ids of the orders that are not kept. -/
def cancelled (c : Choice targets live t) : List OrderId :=
  (live.map OpenOrder.orderId).filter fun i => decide (i ∉ c.orders.map OpenOrder.orderId)

/-- The cancels and placements it takes. -/
def cost (c : Choice targets live t) : ℕ := c.cancelled.length + c.unmatched.length

/-- Each order that fits a target, and is listed before the one kept for it, is kept for an earlier
target; so is each that fits a target no order is kept for. -/
def FirstComeServed (c : Choice targets live t) : Prop :=
  c.FirstCome fun o o' => live.idxOf o < live.idxOf o'

variable (c : Choice targets live t)

theorem orders_eq : c.orders = (List.finRange targets.quotes.length).filterMap c.item := by
  unfold orders pairs FirstFit.used
  rw [List.filterMap_map]
  rfl

theorem mem_orders_iff {c : Choice targets live t} {o : OpenOrder} :
    o ∈ c.orders ↔ ∃ k, c.item k = some o := by
  rw [orders_eq, List.mem_filterMap]
  simp

theorem mem_unmatched_iff {c : Choice targets live t} {q : Quote} :
    q ∈ c.unmatched ↔ ∃ k, c.item k = none ∧ targets.quotes.get k = q := by
  unfold unmatched pairs
  rw [FirstFit.mem_unmet, List.mem_map]
  simp [and_comm]

theorem mem_live {o : OpenOrder} (h : o ∈ c.orders) : o ∈ live := by
  obtain ⟨k, hk⟩ := mem_orders_iff.1 h
  exact (c.rel hk).1

/-- The orders kept and the targets without one make up the targets. -/
theorem length_orders_add : c.orders.length + c.unmatched.length = targets.quotes.length := by
  have hsplit := List.length_eq_length_filter_add (l := c.pairs) fun x => x.2.isSome
  have hused : c.orders.length = (c.pairs.filter fun x => x.2.isSome).length := by
    unfold orders FirstFit.used
    rw [List.length_filterMap_eq_countP, List.countP_eq_length_filter]
  have hunmet : c.unmatched.length = (c.pairs.filter fun x => !x.2.isSome).length := by
    unfold unmatched FirstFit.unmet
    rw [List.length_map]
    simp only [Option.not_isSome]
  have hpairs : c.pairs.length = targets.quotes.length := by simp [pairs]
  omega

theorem size_eq : c.size = c.orders.length := by
  rw [orders_eq, List.length_filterMap_eq_countP, List.countP_eq_length_filter]
  unfold Matching.size Matching.served
  rw [← List.toFinset_card_of_nodup ((List.nodup_finRange _).filter _)]
  congr 1
  ext k
  simp

theorem nodup_orders : c.orders.Nodup := by
  rw [orders_eq]
  exact (List.nodup_finRange _).filterMap fun k k' o hk hk' => c.inj hk hk'

/-- The ids split into those of the orders kept and the others. -/
theorem perm_cancelled_append (hid : (live.map OpenOrder.orderId).Nodup) :
    (c.cancelled ++ c.orders.map OpenOrder.orderId).Perm (live.map OpenOrder.orderId) := by
  have hkept : (c.orders.map OpenOrder.orderId).Nodup :=
    c.nodup_orders.map_on fun o ho o' ho' heq =>
      List.inj_on_of_nodup_map hid (c.mem_live ho) (c.mem_live ho') heq
  have hdisj : c.cancelled.Disjoint (c.orders.map OpenOrder.orderId) := fun i hi hi' =>
    of_decide_eq_true (List.mem_filter.1 hi).2 hi'
  refine (List.perm_ext_iff_of_nodup ((hid.filter _).append hkept hdisj) hid).2 fun i => ?_
  rw [List.mem_append, List.mem_filter, decide_eq_true_eq]
  constructor
  · rintro (h | h)
    · exact h.1
    · obtain ⟨o, ho, rfl⟩ := List.mem_map.1 h
      exact List.mem_map_of_mem (c.mem_live ho)
  · intro h
    by_cases hi : i ∈ c.orders.map OpenOrder.orderId
    · exact .inr hi
    · exact .inl ⟨h, hi⟩

/-- The more orders are kept, the fewer actions. -/
theorem cost_add (hid : (live.map OpenOrder.orderId).Nodup) :
    c.cost + 2 * c.size = live.length + targets.quotes.length := by
  have hsplit := (c.perm_cancelled_append hid).length_eq
  rw [List.length_append, List.length_map, List.length_map] at hsplit
  have hlen := c.length_orders_add
  rw [size_eq, cost]
  omega

end Choice

/-- The choice of `reconcile`. -/
def planChoice (targets : TargetQuotes) (live : List OpenOrder) (t : Tolerance) :
    Choice targets live t :=
  FirstFit.matching t.Fits OpenOrder.orderId live targets.quotes

theorem pairs_planChoice : (planChoice targets live t).pairs = matchTargets t live targets.quotes :=
  FirstFit.map_matching live targets.quotes

/-- The plan follows from its choice. -/
theorem reconcile_eq :
    reconcile targets live t =
      ⟨(planChoice targets live t).cancelled, (planChoice targets live t).unmatched⟩ := by
  unfold reconcile Choice.cancelled Choice.unmatched Choice.orders
  rw [pairs_planChoice]

/-! ### Reaching the targets -/

/-- The orders that are not cancelled are those the plan keeps. -/
theorem perm_orders_planChoice (hid : (live.map OpenOrder.orderId).Nodup) :
    (live.filter fun o => decide (o.orderId ∉ (reconcile targets live t).toCancel)).Perm
      (planChoice targets live t).orders := by
  have horders : (planChoice targets live t).orders =
      FirstFit.used (matchTargets t live targets.quotes) := by
    rw [Choice.orders, pairs_planChoice]
  refine (List.perm_ext_iff_of_nodup (hid.of_map.filter _)
    (Choice.nodup_orders _)).2 fun o => ?_
  rw [List.mem_filter, decide_eq_true_eq, horders]
  exact ⟨fun h => exists_fits_of_kept hid h.1 h.2,
    fun h => ⟨(mem_of_used h).1, not_mem_toCancel_of_used h⟩⟩

/-- A plan carried out leaves an order for each target. -/
theorem length_leaves (hid : (live.map OpenOrder.orderId).Nodup) {placed : List OpenOrder}
    (hdone : CarriedOut (reconcile targets live t) live placed) :
    ((reconcile targets live t).leaves live placed).length = targets.quotes.length := by
  have hplaced : (planChoice targets live t).unmatched.length = placed.length := by
    have hlen := hdone.realised.length_eq
    rwa [reconcile_eq] at hlen
  rw [ReconcilePlan.leaves, List.length_append, (perm_orders_planChoice hid).length_eq, ← hplaced]
  exact Choice.length_orders_add _

/-- **The plan reaches its targets and is then quiet.**  The live ids split into those it cancels
and those of the orders it keeps, each for a target of its own; it places the targets that have
none; and once it is carried out there is an order for each target, and the same targets ask for
nothing. -/
theorem reconcile_reaches_targets (targets : TargetQuotes) {live : List OpenOrder} {t : Tolerance}
    (hid : (live.map OpenOrder.orderId).Nodup) (htick : 0 ≤ t.tick)
    (hreprice : 0 ≤ t.repriceTicks) (hresize : 0 ≤ t.resizeFrac) :
    ∃ c : Choice targets live t,
      ((reconcile targets live t).toCancel ++ c.orders.map OpenOrder.orderId).Perm
        (live.map OpenOrder.orderId) ∧
      (live.filter fun o => decide (o.orderId ∉ (reconcile targets live t).toCancel)).Perm
        c.orders ∧
      (reconcile targets live t).toPlace = c.unmatched ∧
      ∀ placed, CarriedOut (reconcile targets live t) live placed →
        ((reconcile targets live t).leaves live placed).length = targets.quotes.length ∧
        reconcile targets ((reconcile targets live t).leaves live placed) t = ⟨[], []⟩ := by
  refine ⟨planChoice targets live t, ?_, perm_orders_planChoice hid, by rw [reconcile_eq],
    fun placed hdone => ⟨length_leaves hid hdone, ?_⟩⟩
  · rw [reconcile_eq]
    exact Choice.perm_cancelled_append _ hid
  · have hself : ∀ q ∈ (reconcile targets live t).toPlace, t.Reflexive q := fun q _ =>
      Tolerance.reflexive_of_nonneg htick hreprice hresize q
    have hquiet := ReconcilePlan.isNoop_iff.1 ((isNoop_reconcile_leaves hdone).2 hself)
    cases hplan : reconcile targets ((reconcile targets live t).leaves live placed) t with
    | mk toCancel toPlace =>
      rw [hplan] at hquiet
      obtain ⟨rfl, rfl⟩ := hquiet
      rfl

/-- A ladder of two bids moves up by three ticks: the upper bid stays for the lower target, the
other is replaced, and the next plan is empty. -/
theorem reconcile_reaches_moved_ladder :
    let targets : TargetQuotes := ⟨"c", .quiet, [⟨"yes", .buy, 52 / 100, 10⟩,
      ⟨"yes", .buy, 50 / 100, 10⟩]⟩
    let live : List OpenOrder := [⟨"a", "yes", .buy, 47 / 100, 10, .live, 0⟩,
      ⟨"b", "yes", .buy, 49 / 100, 10, .live, 0⟩]
    let placed : List OpenOrder := [⟨"p", "yes", .buy, 52 / 100, 10, .live, 1⟩]
    let t : Tolerance := ⟨1 / 100, 1, 1 / 4⟩
    (reconcile targets live t).leaves live placed =
        [⟨"b", "yes", .buy, 49 / 100, 10, .live, 0⟩, ⟨"p", "yes", .buy, 52 / 100, 10, .live, 1⟩] ∧
      reconcile targets ((reconcile targets live t).leaves live placed) t = ⟨[], []⟩ := by
  intro targets live placed t
  obtain ⟨-, -, -, -, h⟩ := reconcile_reaches_targets targets
    (show (live.map OpenOrder.orderId).Nodup by decide) (show 0 ≤ t.tick by decide +kernel)
    (show 0 ≤ t.repriceTicks by decide) (show 0 ≤ t.resizeFrac by decide +kernel)
  exact ⟨by decide +kernel, (h placed (by decide +kernel)).2⟩

/-! ### The smallest plan -/

/-- No choice of orders to keep takes fewer actions than the plan; and where some choice takes none,
the plan is empty. -/
structure SmallestPlan (targets : TargetQuotes) (live : List OpenOrder) (t : Tolerance) : Prop where
  least : ∀ c : Choice targets live t,
    (reconcile targets live t).toCancel.length + (reconcile targets live t).toPlace.length ≤ c.cost
  empty : ∀ c : Choice targets live t, c.cancelled = [] → c.unmatched = [] →
    (reconcile targets live t).isNoop = true

theorem firstComeServed_planChoice (hid : (live.map OpenOrder.orderId).Nodup) :
    (planChoice targets live t).FirstComeServed := FirstFit.firstCome_matching hid targets.quotes

/-- Serving the targets first come, first served leaves no choice. -/
theorem Choice.FirstComeServed.eq_planChoice {c : Choice targets live t} (h : c.FirstComeServed)
    (hid : (live.map OpenOrder.orderId).Nodup) : c = planChoice targets live t := by
  ext1
  funext k
  refine Matching.FirstCome.item_eq (fun a a' o o' ho ho' => ?_) h
    (firstComeServed_planChoice hid) k
  rcases lt_trichotomy (live.idxOf o) (live.idxOf o') with hlt | heq | hlt
  · exact .inl hlt
  · exact .inr (.inl ((List.idxOf_inj ho.1).1 heq))
  · exact .inr (.inr hlt)

/-- Fewer actions are more orders kept. -/
theorem Choice.cost_le_iff (hid : (live.map OpenOrder.orderId).Nodup)
    {c d : Choice targets live t} : c.cost ≤ d.cost ↔ d.size ≤ c.size := by
  have hc := c.cost_add hid
  have hd := d.cost_add hid
  omega

/-- A plan that takes no more actions than any choice is empty where some choice takes none. -/
theorem SmallestPlan.of_least (h : ∀ c : Choice targets live t,
    (planChoice targets live t).cost ≤ c.cost) : SmallestPlan targets live t where
  least c := by
    rw [reconcile_eq]
    exact h c
  empty c hcancelled hunmatched := by
    have hnone : c.cost = 0 := by
      rw [Choice.cost, hcancelled, hunmatched]
      rfl
    have hplan : (planChoice targets live t).cost = 0 := Nat.le_zero.1 (hnone ▸ h c)
    obtain ⟨hcancelled', hunmatched'⟩ := Nat.add_eq_zero_iff.1 hplan
    rw [ReconcilePlan.isNoop_iff, reconcile_eq]
    exact ⟨List.length_eq_zero_iff.1 hunmatched', List.length_eq_zero_iff.1 hcancelled'⟩

theorem smallestPlan_iff_not_improvable (hid : (live.map OpenOrder.orderId).Nodup) :
    SmallestPlan targets live t ↔ ¬ (planChoice targets live t).Improvable := by
  rw [← Matching.isLargest_iff]
  constructor
  · intro h c
    have hle := h.least c
    rw [reconcile_eq] at hle
    exact (Choice.cost_le_iff hid).1 hle
  · exact fun h => .of_least fun c => (Choice.cost_le_iff hid).2 (h c)

/-- **The plan is a smallest one** exactly when, the orders being kept first come, first served, no
chain of targets and orders that would do for them leads from a target without an order to an order
no target has. -/
theorem smallestPlan_iff (targets : TargetQuotes) {live : List OpenOrder} (t : Tolerance)
    (hid : (live.map OpenOrder.orderId).Nodup) :
    SmallestPlan targets live t ↔
      ∀ c : Choice targets live t, c.FirstComeServed → ¬ c.Improvable := by
  rw [smallestPlan_iff_not_improvable hid]
  constructor
  · intro h c hserved
    rwa [hserved.eq_planChoice hid]
  · exact fun h => h _ (firstComeServed_planChoice hid)

/-- A ladder at 0.50 and 0.51 is to move down by one tick, and the upper bid is listed first: it is
kept for the upper target, and the lower bid, which both targets could have, for the lower one. -/
theorem smallestPlan_of_ladder :
    let targets : TargetQuotes := ⟨"c", .quiet, [⟨"yes", .buy, 50 / 100, 10⟩,
      ⟨"yes", .buy, 49 / 100, 10⟩]⟩
    let live : List OpenOrder := [⟨"b", "yes", .buy, 51 / 100, 10, .live, 0⟩,
      ⟨"a", "yes", .buy, 50 / 100, 10, .live, 0⟩]
    SmallestPlan targets live ⟨1 / 100, 1, 1 / 4⟩ := by
  intro targets live
  have hid : (live.map OpenOrder.orderId).Nodup := by decide
  have hserved : ∀ k, (planChoice targets live ⟨1 / 100, 1, 1 / 4⟩).item k ≠ none := by
    decide +kernel
  refine (smallestPlan_iff targets _ hid).2 fun c hfirst => ?_
  rw [hfirst.eq_planChoice hid]
  exact Matching.not_improvable_of_served hserved

/-- Targets that do not compete for an order get a smallest plan. -/
theorem smallestPlan_of_no_overlap (hid : (live.map OpenOrder.orderId).Nodup)
    (h : ∀ k k' : Fin targets.quotes.length, ∀ o ∈ live, t.Fits (targets.quotes.get k) o →
      t.Fits (targets.quotes.get k') o → k = k') : SmallestPlan targets live t := by
  refine (smallestPlan_iff_not_improvable hid).2 ?_
  exact Matching.FirstCome.not_improvable (firstComeServed_planChoice hid)
    fun k k' o hk hk' => h k k' o hk.1 hk.2 hk'.2

/-- A ladder at 0.50 and 0.51 is to move down by one tick, which is within the tolerance.  Listed
with the lower bid first, that bid is kept for the upper target, the upper bid is cancelled and
placed again at 0.49; kept for the targets in their order, both bids could stay. -/
theorem not_smallestPlan_of_ladder :
    let targets : TargetQuotes := ⟨"c", .quiet, [⟨"yes", .buy, 50 / 100, 10⟩,
      ⟨"yes", .buy, 49 / 100, 10⟩]⟩
    let live : List OpenOrder := [⟨"a", "yes", .buy, 50 / 100, 10, .live, 0⟩,
      ⟨"b", "yes", .buy, 51 / 100, 10, .live, 0⟩]
    let t : Tolerance := ⟨1 / 100, 1, 1 / 4⟩
    (live.map OpenOrder.orderId).Nodup ∧
      reconcile targets live t = ⟨["b"], [⟨"yes", .buy, 49 / 100, 10⟩]⟩ ∧
      ¬ SmallestPlan targets live t := by
  intro targets live t
  refine ⟨by decide, by decide +kernel, fun h => ?_⟩
  let c : Choice targets live t :=
    { item := fun k => if k.1 = 0 then some ⟨"b", "yes", .buy, 51 / 100, 10, .live, 0⟩
        else some ⟨"a", "yes", .buy, 50 / 100, 10, .live, 0⟩
      rel := by decide +kernel
      inj := by decide +kernel }
  exact absurd (h.empty c (by decide +kernel) (by decide +kernel)) (by decide +kernel)

end Polymaker
