import Polymaker.Lib.Dict
import Polymaker.Lib.Run
import Mathlib.Algebra.Order.Ring.Rat
import Mathlib.Tactic.Linarith

/-!
# Alerts

`alert` of `alerts.py` posts an alert to a webhook, unless one of the same key was posted a short
while before; what is critical is posted always.

* `Alert`, `Alerter`, `Alerter.alert`: the alerter, with what it posted;
* `Limited`, `limited_snoc`: what it keeps;
* `alerts_limited`: what is posted, how far apart, and what is dropped.
-/

namespace Polymaker

/-- An alert at its time. -/
structure Alert where
  key : String
  message : String
  critical : Bool
  now : ℚ
  deriving DecidableEq

/-- The alerter, with what it posted. -/
structure Alerter where
  url : String
  minInterval : ℚ
  lastSent : Dict String ℚ := Dict.empty
  posted : List Alert := []

namespace Alerter

/-- A key was posted too short a while before. -/
def Recent (a : Alerter) (x : Alert) : Prop := x.now - a.lastSent.getD x.key 0 < a.minInterval

instance (a : Alerter) (x : Alert) : Decidable (a.Recent x) := inferInstanceAs (Decidable (_ < _))

/-- `alert`. -/
def alert (a : Alerter) (x : Alert) : Alerter :=
  if a.url = "" then a
  else if x.critical = false ∧ a.Recent x then a
  else { a with lastSent := a.lastSent.set x.key x.now, posted := a.posted ++ [x] }

/-- One post of a key has come too short a while before an alert. -/
def Covers (minInterval : ℚ) (p x : Alert) : Prop :=
  p.key = x.key ∧ p.now ≤ x.now ∧ x.now - p.now < minInterval

/-- What the alerter keeps over the alerts so far. -/
structure Limited (url : String) (minInterval : ℚ) (xs : List Alert) (a : Alerter) : Prop where
  config : a.url = url ∧ a.minInterval = minInterval
  sent : ∀ k t, a.lastSent.get? k = some t → ∃ p ∈ a.posted, p.key = k ∧ p.now = t
  last : ∀ p ∈ a.posted, ∃ t, a.lastSent.get? p.key = some t ∧ p.now ≤ t
  sublist : a.posted.Sublist xs
  spaced : a.posted.Pairwise fun p q =>
    p.key = q.key → q.critical = false → minInterval ≤ q.now - p.now
  covered : url ≠ "" → ∀ x ∈ xs, x ∈ a.posted ∨
    x.critical = false ∧ (x.now < minInterval ∨ ∃ p ∈ a.posted, Covers minInterval p x)

variable {url : String} {minInterval : ℚ} {xs : List Alert} {a : Alerter}

theorem limited_snoc (h : Limited url minInterval xs a) {x : Alert} (hx : ∀ y ∈ xs, y.now ≤ x.now) :
    Limited url minInterval (xs ++ [x]) (a.alert x) := by
  obtain ⟨⟨rfl, rfl⟩, hsent, hlast, hsublist, hspaced, hcovered⟩ := h
  have hposted : ∀ p ∈ a.posted, p.now ≤ x.now := fun p hp => hx p (hsublist.subset hp)
  unfold alert
  split_ifs with hurl hrecent
  · exact ⟨⟨rfl, rfl⟩, hsent, hlast, hsublist.trans (List.sublist_append_left ..), hspaced,
      fun hne => absurd hurl hne⟩
  · obtain ⟨hcritical, hrecent⟩ := hrecent
    refine ⟨⟨rfl, rfl⟩, hsent, hlast, hsublist.trans (List.sublist_append_left ..), hspaced,
      fun hne y hy => ?_⟩
    rcases List.mem_append.1 hy with hy | hy
    · exact hcovered hne y hy
    · obtain rfl := List.mem_singleton.1 hy
      refine .inr ⟨hcritical, ?_⟩
      unfold Recent Dict.getD at hrecent
      cases hget : a.lastSent.get? y.key with
      | none =>
        rw [hget, Option.getD_none, sub_zero] at hrecent
        exact .inl hrecent
      | some t =>
        rw [hget, Option.getD_some] at hrecent
        obtain ⟨p, hp, hkey, rfl⟩ := hsent _ _ hget
        exact .inr ⟨p, hp, hkey, hposted p hp, hrecent⟩
  · refine ⟨⟨rfl, rfl⟩, fun k t hget => ?_, fun p hp => ?_, hsublist.append (.refl _), ?_,
      fun hne y hy => ?_⟩
    · rw [Dict.get?_set] at hget
      split_ifs at hget with hk
      · exact ⟨x, by simp, hk.symm, Option.some.inj hget⟩
      · obtain ⟨p, hp, hkey, hnow⟩ := hsent k t hget
        exact ⟨p, List.mem_append_left _ hp, hkey, hnow⟩
    · rw [Dict.get?_set]
      split_ifs with hk
      · refine ⟨x.now, rfl, ?_⟩
        rcases List.mem_append.1 hp with hp | hp
        · exact hposted p hp
        · exact (List.mem_singleton.1 hp ▸ le_refl _)
      · rcases List.mem_append.1 hp with hp | hp
        · exact hlast p hp
        · exact absurd (congrArg Alert.key (List.mem_singleton.1 hp)) hk
    · rw [List.pairwise_append]
      refine ⟨hspaced, List.pairwise_singleton _ _, fun p hp q hq hkey hcritical => ?_⟩
      obtain rfl := List.mem_singleton.1 hq
      obtain ⟨t, hget, hle⟩ := hlast p hp
      have hold : ¬ a.Recent q := fun h => hrecent ⟨hcritical, h⟩
      unfold Recent Dict.getD at hold
      rw [← hkey, hget, Option.getD_some, not_lt] at hold
      linarith
    · rcases List.mem_append.1 hy with hy | hy
      · rcases hcovered hne y hy with hin | ⟨hcritical, hearly | ⟨p, hp, hcover⟩⟩
        · exact .inl (List.mem_append_left _ hin)
        · exact .inr ⟨hcritical, .inl hearly⟩
        · exact .inr ⟨hcritical, .inr ⟨p, List.mem_append_left _ hp, hcover⟩⟩
      · exact .inl (List.mem_append_right _ hy)

theorem limited_run (url : String) (minInterval : ℚ) {xs : List Alert}
    (hclock : xs.Pairwise fun x y => x.now ≤ y.now) :
    Limited url minInterval xs (Run.run alert { url, minInterval } xs) := by
  induction xs using List.reverseRecOn with
  | nil =>
    exact ⟨⟨rfl, rfl⟩, fun k t hget => by simp at hget, fun p hp => absurd hp List.not_mem_nil,
      .refl _, .nil, fun _ x hx => absurd hx List.not_mem_nil⟩
  | append_singleton xs x ih =>
    obtain ⟨hclock, -, hx⟩ := List.pairwise_append.1 hclock
    rw [Run.run_append]
    exact limited_snoc (ih hclock) fun y hy => hx y hy x (List.mem_singleton_self x)

/-- **What is posted** of a run of alerts, whose clock does not go back, to a webhook.  Alerts are
posted in their order; one that is not critical comes at least the interval after every earlier post
of its key; and an alert is only dropped if it is not critical, and less than the interval before it
one of its key was posted, or the clock had just started. -/
theorem alerts_limited {url : String} (hurl : url ≠ "") (minInterval : ℚ) {xs : List Alert}
    (hclock : xs.Pairwise fun x y => x.now ≤ y.now) :
    let posted := (Run.run alert { url, minInterval } xs).posted
    posted.Sublist xs ∧
      (posted.Pairwise fun p q =>
        p.key = q.key → q.critical = false → minInterval ≤ q.now - p.now) ∧
      ∀ x ∈ xs, x ∈ posted ∨ x.critical = false ∧
        (x.now < minInterval ∨ ∃ p ∈ posted, Covers minInterval p x) := by
  have h := limited_run url minInterval hclock
  exact ⟨h.sublist, h.spaced, h.covered hurl⟩

/-- Four alerts, of which the second is dropped. -/
theorem alerts_limited_four :
    let xs : List Alert := [⟨"k", "a", false, 100⟩, ⟨"k", "b", false, 110⟩, ⟨"k", "c", true, 120⟩,
      ⟨"k", "d", false, 150⟩]
    let posted := (Run.run alert { url := "hook", minInterval := 30 } xs).posted
    posted.length = 3 ∧ posted.Sublist xs ∧
      (posted.Pairwise fun p q => p.key = q.key → q.critical = false → 30 ≤ q.now - p.now) ∧
      ∀ x ∈ xs, x ∈ posted ∨ x.critical = false ∧
        (x.now < 30 ∨ ∃ p ∈ posted, Covers 30 p x) :=
  ⟨by decide +kernel, alerts_limited (by decide) 30 (by decide +kernel)⟩

end Alerter

end Polymaker
