import Polymaker.Engine.Recompute
import Polymaker.Lib.Run

/-!
# The next wake of a quoter

`_next_wake_s` chooses how long a quoter sleeps when no event wakes it.  A pull off a bad book takes
effect on the first recompute after the grace, which no event need bring about.

* `RegimeMachine.cooloffRemaining`, `Engine.nextWakeS`: the delay;
* `Engine.PullPending`, `pullDelay`: orders rest on a bad book, and how long the wake may take;
* `nextWakeS_le_iff`: what keeps the delay within a bound of a second or more;
* `next_wake_honours_pull_iff`: when the delay is no longer than a pending pull allows;
* `Quoter`, `Quoter.step`, `Quoter.TimesOut`: a quoter that is woken by its own timer alone;
* `pulled_of_honoured`: where every delay is short enough, the quotes are pulled within a second of
  the grace.
-/

namespace Polymaker

/-- `cooloff_remaining`. -/
def RegimeMachine.cooloffRemaining (rm : RegimeMachine) (now : ℚ) : ℚ := max 0 (rm.eventUntil - now)

namespace Engine

variable {e : Engine} {cid : ConditionId} {m : Market} {since now : ℚ}

/-- The shares of both tokens of a market. -/
def sharesHeld (e : Engine) (m : MarketMeta) : ℚ :=
  (e.store.position m.yes).size + (e.store.position m.no).size

/-- `_next_wake_s`. -/
def nextWakeS (e : Engine) (cid : ConditionId) (baseTick now : ℚ) : ℚ :=
  match e.markets.get? cid with
  | none => max 1 baseTick
  | some m =>
    let cd := m.regime.cooloffRemaining now
    -- a cool-off is left right when it ends
    let wake := if 0 < cd then min baseTick (cd + 1 / 2) else baseTick
    -- what is held is looked after more often
    let wake := if m.info.minOrderSize ≤ e.sharesHeld m.info then min wake 10 else wake
    max 1 wake

/-- The book of a market has been bad since a time, and orders of it rest. -/
structure PullPending (e : Engine) (cid : ConditionId) (m : Market) (since : ℚ) : Prop where
  market : e.markets.get? cid = some m
  unusable : m.bookUnusableSince = some since
  resting : e.ordersOf m.info ≠ []

/-- How long the next wake may take: what is left of the grace, and a second at least. -/
def pullDelay (since now : ℚ) : ℚ := max 1 (badBookPullAfterS - (now - since))

/-! ### The delay -/

theorem one_le_nextWakeS (e : Engine) (cid : ConditionId) (baseTick now : ℚ) :
    1 ≤ e.nextWakeS cid baseTick now := by
  unfold nextWakeS
  split
  · exact le_max_left _ _
  · exact le_max_left _ _

/-- **What keeps the delay within a bound**: the baseline tick, the end of a cool-off, or the tick
of a market that is held. -/
theorem nextWakeS_le_iff (hm : e.markets.get? cid = some m) (baseTick : ℚ) {bound : ℚ}
    (hbound : 1 ≤ bound) :
    e.nextWakeS cid baseTick now ≤ bound ↔
      baseTick ≤ bound ∨ (now < m.regime.eventUntil ∧ m.regime.eventUntil - now + 1 / 2 ≤ bound) ∨
        (m.info.minOrderSize ≤ e.sharesHeld m.info ∧ 10 ≤ bound) := by
  have hcooling : 0 < m.regime.cooloffRemaining now ↔ now < m.regime.eventUntil := by
    unfold RegimeMachine.cooloffRemaining
    rw [lt_max_iff, sub_pos, or_iff_right (lt_irrefl _)]
  have hleft : now < m.regime.eventUntil →
      m.regime.cooloffRemaining now = m.regime.eventUntil - now := fun h =>
    max_eq_right (sub_nonneg.2 h.le)
  unfold nextWakeS
  simp only [hm, hcooling]
  rw [max_le_iff, and_iff_right hbound]
  by_cases hcool : now < m.regime.eventUntil
  · rw [if_pos hcool, hleft hcool]
    split_ifs with hheld
    · rw [min_le_iff, min_le_iff, or_assoc]
      simp only [hcool, hheld, true_and]
    · rw [min_le_iff]
      simp only [hcool, hheld, true_and, false_and, or_false]
  · rw [if_neg hcool]
    split_ifs with hheld
    · rw [min_le_iff]
      simp only [hcool, hheld, true_and, false_and, false_or]
    · simp only [hcool, hheld, false_and, or_false]

end Engine

open Engine

/-- **When the next wake honours a pending pull.**  In every state with a bad book and resting
orders, the delay is within what is left of the grace, or a second, exactly when one of the three
things that `_next_wake_s` knows of is. -/
theorem next_wake_honours_pull_iff (e : Engine) {cid : ConditionId} {m : Market} {since : ℚ}
    (h : e.PullPending cid m since) (baseTick now : ℚ) :
    e.nextWakeS cid baseTick now ≤ pullDelay since now ↔
      baseTick ≤ pullDelay since now ∨
        (now < m.regime.eventUntil ∧
          m.regime.eventUntil - now + 1 / 2 ≤ pullDelay since now) ∨
        (m.info.minOrderSize ≤ e.sharesHeld m.info ∧ 10 ≤ pullDelay since now) :=
  nextWakeS_le_iff h.market baseTick (le_max_left _ _)

/-- A market with an order resting, before its book is looked at. -/
def Engine.restingOne (regime : RegimeMachine) : Engine :=
  ⟨{}, Dict.empty.set "c"
      { info := ⟨"c", "yes", "no", 1 / 100, 5, 0, 0, none, none⟩, profile := {}, regime },
    (StateStore.open .fresh).upsertOrder ⟨"o", "yes", .buy, 48 / 100, 100, .live, 0⟩, .new {},
    Dict.empty⟩

/-- What is seen of a market whose books are gone. -/
def Observation.swept (now : ℚ) : Observation :=
  ⟨now, none, none, 0, 0, 0, 0, false, false, false, false, 0⟩

/-- A cool-off that ends in two seconds wakes the quoter in time. -/
theorem next_wake_honours_pull_in_cooloff :
    let e := ((Engine.restingOne ⟨102⟩).recompute "c" (.swept 100) ⟨true, none, none⟩).engine
    e.nextWakeS "c" 60 100 ≤ pullDelay 100 100 := by
  intro e
  let m : Market :=
    { info := ⟨"c", "yes", "no", 1 / 100, 5, 0, 0, none, none⟩, profile := {}, regime := ⟨102⟩
      bookUnusableSince := some 100 }
  have h : e.PullPending "c" m 100 :=
    ⟨by decide +kernel, by decide +kernel, by decide +kernel⟩
  exact (next_wake_honours_pull_iff e h 60 100).2 (.inr (.inl (by decide +kernel)))

/-- A book is swept and stays silent: the pull is due in three seconds, and the quoter sleeps for a
minute. -/
theorem not_next_wake_honours_pull :
    let e := ((Engine.restingOne {}).recompute "c" (.swept 100) ⟨true, none, none⟩).engine
    (∃ m, e.PullPending "c" m 100) ∧ pullDelay 100 100 = 3 ∧ e.nextWakeS "c" 60 100 = 60 ∧
      ¬ e.nextWakeS "c" 60 100 ≤ pullDelay 100 100 := by
  intro e
  refine ⟨⟨{ info := ⟨"c", "yes", "no", 1 / 100, 5, 0, 0, none, none⟩, profile := {}
             bookUnusableSince := some 100 }, ?_, ?_, ?_⟩, ?_, ?_, ?_⟩ <;> decide +kernel

/-! ### A quoter without events -/

/-- A quoter at the end of a recompute. -/
structure Quoter where
  engine : Engine
  now : ℚ

namespace Quoter

variable {cid : ConditionId} {baseTick : ℚ}

/-- A wake: the market is recomputed. -/
def step (cid : ConditionId) (q : Quoter) (w : Observation × Answers) : Quoter :=
  ⟨(q.engine.recompute cid w.1 w.2).engine, w.1.now⟩

/-- No event comes before the delay is over, and the book is still bad then. -/
def TimesOut (cid : ConditionId) (baseTick : ℚ) (q : Quoter) (w : Observation × Answers) : Prop :=
  w.1.now = q.now + q.engine.nextWakeS cid baseTick q.now ∧
    ∀ m, q.engine.markets.get? cid = some m → ∃ why, m.sight w.1 = .error why

/-- The delay honours every pending pull. -/
def Honours (cid : ConditionId) (baseTick : ℚ) (q : Quoter) : Prop :=
  ∀ m since, q.engine.PullPending cid m since →
    q.engine.nextWakeS cid baseTick q.now ≤ pullDelay since q.now

end Quoter

theorem Engine.calls_pullAllQuotes {e e' : Engine} {m : MarketMeta} (h : e.ordersOf m ≠ [])
    (hstore : e'.store = e.store) (ans : Answers) :
    (e'.pullAllQuotes m ans).calls = [.cancel ((e.ordersOf m).map OpenOrder.orderId)] := by
  have hids : (e.ordersOf m).map OpenOrder.orderId ≠ [] := by simpa using h
  unfold pullAllQuotes
  simp only [ordersOf_congr hstore m, if_neg hids]
  split_ifs <;> rfl

/-- A recompute on a bad book with a pull pending pulls the quotes, or leaves everything for a later
wake within the grace. -/
theorem Engine.PullPending.recompute {e : Engine} {cid : ConditionId} {m : Market} {since : ℚ}
    (h : e.PullPending cid m since) {w : Observation × Answers} {why : BadBook}
    (hsight : m.sight w.1 = .error why) :
    (e.recompute cid w.1 w.2).calls = [.cancel ((e.ordersOf m.info).map OpenOrder.orderId)] ∨
      w.1.now - since < badBookPullAfterS ∧
        (e.recompute cid w.1 w.2).engine.PullPending cid m since ∧
        (e.recompute cid w.1 w.2).engine.store = e.store := by
  have hsince : m.bookUnusableSince.getD w.1.now = since := by rw [h.unusable, Option.getD_some]
  rw [(recompute_of_error w.2 h.market hsight).2]
  by_cases hpulls : e.PullsOnBadBook m w.1
  · left
    obtain ⟨m', -, -, heq⟩ := e.maybePullOnBadBook_eq cid m w.1 w.2
    rw [heq, if_pos hpulls]
    refine calls_pullAllQuotes h.resting ?_ w.2
    rfl
  · obtain ⟨hunhalted, hgrace⟩ := not_or.1 hpulls
    rw [hsince] at hgrace
    have hwaits : e.maybePullOnBadBook cid m w.1 w.2 =
        ⟨{ e with risk := (e.haltedOrBlind m w.1).1 }.setMarket cid
          { m with bookUnusableSince := some since }, [], []⟩ := by
      rcases hhalt : e.haltedOrBlind m w.1 with ⟨r, _ | _⟩
      · rw [maybePullOnBadBook, hhalt]
        simp only [hsince]
        exact if_neg hgrace
      · exact absurd (by rw [hhalt]) hunhalted
    have hsame : { m with bookUnusableSince := some since } = m := by rw [← h.unusable]
    rw [hwaits, hsame]
    refine .inr ⟨not_le.1 hgrace, ⟨?_, h.unusable, h.resting⟩, rfl⟩
    show (e.markets.set cid m).get? cid = some m
    rw [Dict.get?_set, if_pos rfl]

/-- **Where every delay honours the pull**, a quoter that no event wakes pulls its quotes off a bad
book within a second of the grace. -/
theorem pulled_of_honoured {cid : ConditionId} {baseTick : ℚ} {m : Market} {since : ℚ}
    {q : Quoter} {ws : List (Observation × Answers)} (h : q.engine.PullPending cid m since)
    (hgrace : q.now - since < badBookPullAfterS)
    (hwakes : Run.EachStep (Quoter.step cid) (Quoter.TimesOut cid baseTick) q ws)
    (hhonours : Run.Always (Quoter.step cid) (Quoter.Honours cid baseTick) q ws)
    (hlong : badBookPullAfterS - (q.now - since) ≤ ws.length) :
    ∃ before w after, ws = before ++ w :: after ∧
      w.1.now - since < badBookPullAfterS + 1 ∧
      ((Run.run (Quoter.step cid) q before).engine.recompute cid w.1 w.2).calls =
        [.cancel ((q.engine.ordersOf m.info).map OpenOrder.orderId)] := by
  induction ws generalizing q with
  | nil => exact absurd hlong (not_le.2 (by simpa using hgrace))
  | cons w ws ih =>
    obtain ⟨⟨hnow, hbad⟩, hrest⟩ := Run.eachStep_cons.1 hwakes
    obtain ⟨hhonour, hlater⟩ := Run.always_cons.1 hhonours
    obtain ⟨why, hsight⟩ := hbad m h.market
    have hleast := q.engine.one_le_nextWakeS cid baseTick q.now
    have hmost : w.1.now - since < badBookPullAfterS + 1 := by
      have hdelay := hhonour m since h
      rcases le_max_iff.1 hdelay with hone | hleft <;> linarith
    rcases h.recompute (w := w) hsight with hpull | ⟨hearly, hpending, hstore⟩
    · exact ⟨[], w, ws, rfl, hmost, hpull⟩
    · have hshort : badBookPullAfterS - (w.1.now - since) ≤ ws.length := by
        rw [List.length_cons] at hlong
        push_cast at hlong
        linarith
      obtain ⟨before, w', after, rfl, hsoon, hcalls⟩ :=
        ih (q := q.step cid w) hpending hearly hrest hlater hshort
      refine ⟨w :: before, w', after, rfl, hsoon, ?_⟩
      have horders : (q.step cid w).engine.ordersOf m.info = q.engine.ordersOf m.info :=
        ordersOf_congr hstore m.info
      rw [Run.run_cons, hcalls, horders]

end Polymaker
