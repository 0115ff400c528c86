import Mathlib.Algebra.BigOperators.Group.List.Basic
import Polymaker.Execution.Choices
import Polymaker.Execution.Churn
import Polymaker.Strategy.ExitUrgency

/-!
# Churn and the size of an exit

An exit is floored to what is held, so that it cannot be rejected for selling more.  The reconciler
keeps an older exit that is close to it.

* `NoOversell`: no more of a token rests for sale than is held;
* `restingSells_requote`: what rests is what the exit of the token keeps, or is placed as;
* `Requote.SellsCovered`: no exit keeps an order larger than the position, and
  `Requote.sellsCovered_of_small`: none is larger that rests;
* `no_oversell_iff`: a recompute leaves no more for sale than is held exactly then.
-/

namespace Polymaker

open QuoteInputs

/-- What rests for sale of a token. -/
def restingSells (tok : TokenId) (orders : List OpenOrder) : ℚ :=
  ((orders.filter fun o => decide (o.key = (tok, Side.sell))).map OpenOrder.size).sum

/-- **Resting exits never oversell**: no more of a token rests for sale than is held. -/
def NoOversell (i : QuoteInputs) (orders : List OpenOrder) : Prop :=
  ∀ l ∈ i.legs, restingSells l.tokenId orders ≤ l.pos.size

instance (i : QuoteInputs) (orders : List OpenOrder) : Decidable (NoOversell i orders) :=
  inferInstanceAs (Decidable (∀ l ∈ i.legs, _))

/-- The exit of a leg. -/
def QuoteInputs.exitOf (i : QuoteInputs) (l : Leg) : Quote :=
  ⟨l.tokenId, .sell, i.exitAt l, exitSize l.pos⟩

namespace Requote

/-- The first resting order listed that is close to a quote. -/
def firstFit (e : Requote) (live : List OpenOrder) (q : Quote) : Option OpenOrder :=
  live.find? fun o => decide (e.tolerance.Fits q o)

/-- The first resting order that is close to an exit is no larger than what is held, and no position
without an exit is negative. -/
structure SellsCovered (e : Requote) (live : List OpenOrder) : Prop where
  kept : ∀ l ∈ e.inputs.legs, e.inputs.Offers l →
    ∀ o ∈ e.firstFit live (e.inputs.exitOf l), o.size ≤ l.pos.size
  flat : ∀ l ∈ e.inputs.legs, ¬ e.inputs.Offers l → 0 ≤ l.pos.size

/-- It is enough that no resting sale is larger than what is held of its token. -/
theorem sellsCovered_of_small {e : Requote} {live : List OpenOrder}
    (hheld : ∀ l ∈ e.inputs.legs, 0 ≤ l.pos.size)
    (h : ∀ l ∈ e.inputs.legs, ∀ o ∈ live, o.key = (l.tokenId, Side.sell) → o.size ≤ l.pos.size) :
    e.SellsCovered live where
  kept l hl _ o ho := by
    have hfind : live.find? (fun o => decide (e.tolerance.Fits (e.inputs.exitOf l) o)) = some o := ho
    have hfits : e.tolerance.Fits (e.inputs.exitOf l) o := by simpa using List.find?_some hfind
    exact h l hl o (List.mem_of_find?_eq_some hfind) (Prod.ext hfits.1.1 hfits.1.2)
  flat l hl _ := hheld l hl

end Requote

section Step

variable {live : List OpenOrder} {e : Requote}

/-- The orders left of one token and side are those its targets keep, and the others as placed. -/
theorem restingSells_eq (hid : (live.map OpenOrder.orderId).Nodup)
    (hdone : CarriedOut (e.plan live) live e.placed) (tok : TokenId) :
    let matched := matchTargets e.tolerance live (e.inputs.sellsOf tok)
    restingSells tok (requote live e) =
      ((FirstFit.used matched).map OpenOrder.size).sum +
        ((FirstFit.unmet matched).map Quote.size).sum := by
  intro matched
  have hclass : (e.matched live).filter (fun x => decide (x.1.key = (tok, Side.sell))) =
      matched := by
    have hsells : e.inputs.sellsOf tok = (constructQuotes e.inputs).quotes.filter
        fun q => decide (q.key = (tok, Side.sell)) := by
      refine List.filter_congr fun q _ => ?_
      rw [decide_eq_decide, Quote.key, Prod.mk.injEq]
      exact and_comm
    show _ = matchTargets _ _ (e.inputs.sellsOf tok)
    rw [hsells]
    have hkey : ∀ q o, e.tolerance.Fits q o → Quote.key q = OpenOrder.key o :=
      fun _ _ hfit => hfit.key_eq
    exact FirstFit.filter_assign hkey hid _ fun _ _ _ => Iff.rfl
  have hkept : ((live.filter fun o => decide (o.orderId ∉ (e.plan live).toCancel)).filter
      fun o => decide (o.key = (tok, Side.sell))).Perm (FirstFit.used matched) := by
    have hperm : (live.filter fun o => decide (o.orderId ∉ (e.plan live).toCancel)).Perm
        (planChoice (constructQuotes e.inputs) live e.tolerance).orders :=
      perm_orders_planChoice hid
    rw [Choice.orders, pairs_planChoice] at hperm
    have hold : ∀ q o, (q, some o) ∈ e.matched live → Quote.key q = OpenOrder.key o :=
      fun q o hmem => (FirstFit.mem_assign_some hmem).2.2.key_eq
    rw [← hclass, ← FirstFit.filter_used hold]
    exact hperm.filter _
  have hplaced : (e.placed.filter fun o => decide (o.key = (tok, Side.sell))).map OpenOrder.size =
      (FirstFit.unmet matched).map Quote.size := by
    have hquotes := map_quote_placed (e := e) (m := e.inputs.m) (p := e.inputs.profile)
      ⟨rfl, rfl, hdone⟩
    rw [← hclass, ← FirstFit.filter_unmet, ← hquotes, List.filter_map, List.map_map]
    rfl
  unfold restingSells requote ReconcilePlan.leaves
  rw [List.filter_append, List.map_append, List.sum_append, (hkept.map _).sum_eq, hplaced]

/-- **What rests for sale** after a recompute is the order that the exit of the token keeps, or the
exit itself; and nothing where there is none. -/
theorem restingSells_requote (hid : (live.map OpenOrder.orderId).Nodup)
    (hne : e.inputs.m.yes ≠ e.inputs.m.no) (hdone : CarriedOut (e.plan live) live e.placed)
    {l : Leg} (hl : l ∈ e.inputs.legs) :
    (e.inputs.Offers l → restingSells l.tokenId (requote live e) =
      ((e.firstFit live (e.inputs.exitOf l)).map OpenOrder.size).getD (exitSize l.pos)) ∧
    (¬ e.inputs.Offers l → restingSells l.tokenId (requote live e) = 0) := by
  have hrests := restingSells_eq hid hdone l.tokenId
  have hsells := sellsOf_eq_exitsOf hne hl
  refine ⟨fun h => ?_, fun h => ?_⟩
  · rw [hrests, hsells, exitsOf_of_offers h]
    have hpick : FirstFit.pick e.tolerance.Fits OpenOrder.orderId live []
        (e.inputs.exitOf l) = e.firstFit live (e.inputs.exitOf l) := by
      unfold FirstFit.pick Requote.firstFit
      simp only [List.not_mem_nil, not_false_iff, true_and]
    change (List.map _ (FirstFit.used (FirstFit.assign _ _ _ [] [e.inputs.exitOf l]))).sum +
      (List.map _ (FirstFit.unmet (FirstFit.assign _ _ _ [] [e.inputs.exitOf l]))).sum = _
    cases hfirst : e.firstFit live (e.inputs.exitOf l) with
    | none =>
      rw [FirstFit.assign_cons_none (hpick.trans hfirst)]
      simp [QuoteInputs.exitOf]
    | some o =>
      rw [FirstFit.assign_cons_some (hpick.trans hfirst)]
      simp
  · rw [hrests, hsells, exitsOf_of_not_offers h]
    simp [matchTargets]

end Step

/-- **When resting exits do not oversell.**  A recompute whose calls all succeed leaves no more of a
token for sale than is held, exactly when the first listed order close to an exit is no larger than
what is held, and no position without an exit is negative. -/
theorem no_oversell_iff (e : Requote) {live : List OpenOrder}
    (hid : (live.map OpenOrder.orderId).Nodup) (hne : e.inputs.m.yes ≠ e.inputs.m.no)
    (hdone : CarriedOut (e.plan live) live e.placed) :
    NoOversell e.inputs (requote live e) ↔ e.SellsCovered live := by
  have hrests := fun {l : Leg} (hl : l ∈ e.inputs.legs) => restingSells_requote hid hne hdone hl
  constructor
  · intro h
    refine ⟨fun l hl hoffers o ho => ?_, fun l hl hoffers => ?_⟩
    · have hle := h l hl
      rw [(hrests hl).1 hoffers, Option.mem_def.1 ho] at hle
      exact hle
    · have hle := h l hl
      rwa [(hrests hl).2 hoffers] at hle
  · intro h l hl
    by_cases hoffers : e.inputs.Offers l
    · rw [(hrests hl).1 hoffers]
      cases hfirst : e.firstFit live (e.inputs.exitOf l) with
      | none => exact exitSize_le l.pos
      | some o => exact h.kept l hl hoffers o hfirst
    · rw [(hrests hl).2 hoffers]
      exact h.flat l hl hoffers

/-- A recompute of a market at even odds that only reduces a position in YES. -/
def reduceAt (size : ℚ) : Requote :=
  let view := (OrderBook.ofTouch (48 / 100) (52 / 100) 100).view
  ⟨{ m := ⟨"c", "yes", "no", 1 / 100, 5, 0, 0, none, none⟩, regime := .reduceOnly, fv := 1 / 2
     volShort := 0, toxicity := 0, yesView := view, noView := view, posYes := ⟨size, 1 / 2⟩
     posNo := .flat, profile := {}, now := 0 }, []⟩

/-- An exit of a hundred shares stays for the hundred held. -/
theorem no_oversell_of_hundred_held :
    let live : List OpenOrder := [⟨"s", "yes", .sell, 51 / 100, 100, .live, 0⟩]
    let e := reduceAt 100
    requote live e = live ∧ NoOversell e.inputs (requote live e) := by
  intro live e
  refine ⟨by decide +kernel, (no_oversell_iff e (by decide) (by decide +kernel)
    (by decide +kernel)).2 ⟨fun l hl _ o ho => ?_, fun l hl _ => ?_⟩⟩
  · obtain rfl : o = ⟨"s", "yes", .sell, 51 / 100, 100, .live, 0⟩ :=
      List.mem_singleton.1 (List.mem_of_find?_eq_some ho)
    rcases mem_legs_iff.1 hl with rfl | rfl
    · decide +kernel
    · have hnone : e.firstFit live (e.inputs.exitOf e.inputs.noLeg) = none := by decide +kernel
      cases hnone.symm.trans ho
  · rcases mem_legs_iff.1 hl with rfl | rfl <;> decide +kernel

/-- Ten of a hundred shares are sold elsewhere.  The exit of a hundred is within the tolerance of
one of ninety, and stays. -/
theorem not_noOversell_of_shrunk_position :
    let live : List OpenOrder := [⟨"s", "yes", .sell, 51 / 100, 100, .live, 0⟩]
    let e := reduceAt 90
    (live.map OpenOrder.orderId).Nodup ∧ CarriedOut (e.plan live) live e.placed ∧
      e.plan live = ⟨[], []⟩ ∧ ¬ NoOversell e.inputs (requote live e) := by
  intro live e
  exact ⟨by decide, by decide +kernel, by decide +kernel, by decide +kernel⟩

end Polymaker
