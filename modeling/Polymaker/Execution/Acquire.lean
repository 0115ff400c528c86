import Polymaker.Domain
import Polymaker.Execution.RateLimit

/-!
# Waiting for the order bucket

`ExecutionGateway.place` acquires a token for every quote at once.  The loop of `acquire` sleeps for
what is missing, and looks again.

* `Service`: the clock while one acquire is served, `TokenBucket.asleep`: the bucket before each of
  its passes, and `Service.Keeps`: every sleep lasts at least as long as was asked for;
* `Ends`: some pass grants;
* `refill_refill`: reads of the pressure during a sleep do not change what the next pass finds;
* `ends_iff`: an acquire ends, after two passes at most, exactly when it asks for no more than the
  capacity;
* `orderBucket`, `place_ends_iff`: so a placement ends where the budget has room for all its quotes.
-/

namespace Polymaker

/-- The clock while an acquire is served: when each pass reads it, and the reads of the pressure
during the sleep after that pass. -/
structure Service where
  wake : ℕ → ℚ
  reads : ℕ → List ℚ

namespace TokenBucket

variable {b : TokenBucket} {n : ℚ} {s : Service}

/-- The bucket before a pass of an acquire of `n`. -/
def asleep (b : TokenBucket) (n : ℚ) (s : Service) : ℕ → TokenBucket
  | 0 => b
  | k + 1 =>
    (s.reads k).foldl (fun b now => (b.pressure now).1) ((b.asleep n s k).pass n (s.wake k)).1

/-- Some pass grants. -/
def Ends (b : TokenBucket) (n : ℚ) (s : Service) : Prop :=
  ∃ k, ((b.asleep n s k).pass n (s.wake k)).2 = none

end TokenBucket

/-- The clock does not run back, and every sleep lasts at least as long as it was asked for. -/
structure Service.Keeps (s : Service) (b : TokenBucket) (n : ℚ) : Prop where
  starts : b.last ≤ s.wake 0
  sleeps : ∀ k d, ((b.asleep n s k).pass n (s.wake k)).2 = some d →
    s.wake k + d ≤ s.wake (k + 1) ∧ (s.wake k :: s.reads k ++ [s.wake (k + 1)]).Pairwise (· ≤ ·)

namespace TokenBucket

variable {b : TokenBucket} {n : ℚ} {s : Service}

/-! ### Sleeping -/

/-- A refill on the way changes nothing. -/
theorem refill_refill (hrate : 0 < b.rate) {t u : ℚ} (h : t ≤ u) :
    (b.refill t).refill u = b.refill u := by
  have hflow : 0 ≤ (u - t) * b.rate := mul_nonneg (sub_nonneg.2 h) hrate.le
  have hsum : b.tokens + (t - b.last) * b.rate + (u - t) * b.rate =
      b.tokens + (u - b.last) * b.rate := by ring
  unfold refill
  simp only
  rw [min_add, hsum, ← min_assoc, min_eq_left (le_add_of_nonneg_right hflow)]

theorem refill_foldl_pressure (hrate : 0 < b.rate) {reads : List ℚ} {u : ℚ}
    (h : (reads ++ [u]).Pairwise (· ≤ ·)) :
    (reads.foldl (fun b now => (b.pressure now).1) b).refill u = b.refill u := by
  induction reads generalizing b with
  | nil => rfl
  | cons t reads ih =>
    obtain ⟨hfirst, hrest⟩ := List.pairwise_cons.1 h
    have hle : t ≤ u := hfirst u (List.mem_append_right _ (List.mem_singleton_self u))
    rw [List.foldl_cons, ih (b := (b.pressure t).1) hrate hrest]
    exact refill_refill hrate hle

theorem refill_last (b : TokenBucket) (now : ℚ) : (b.refill now).last = now := rfl

/-! ### Ending -/

theorem capacity_foldl_pressure (b : TokenBucket) (reads : List ℚ) :
    (reads.foldl (fun b now => (b.pressure now).1) b).capacity = b.capacity := by
  induction reads generalizing b with
  | nil => rfl
  | cons t reads ih => exact (ih _).trans rfl

theorem capacity_asleep (b : TokenBucket) (n : ℚ) (s : Service) (k : ℕ) :
    (b.asleep n s k).capacity = b.capacity := by
  induction k with
  | zero => rfl
  | succ k ih =>
    rw [asleep, capacity_foldl_pressure]
    exact (capacity_step (b.asleep n s k) (.pass n (s.wake k))).trans ih

/-- What is granted was in the bucket. -/
theorem le_capacity_of_ends (h : b.Ends n s) : n ≤ b.capacity := by
  obtain ⟨k, hgrant⟩ := h
  unfold pass at hgrant
  simp only at hgrant
  split_ifs at hgrant with hn
  exact hn.trans ((min_le_left _ _).trans_eq (capacity_asleep b n s k))

/-- After one sleep there is enough for an amount that the bucket can hold. -/
theorem ends_of_le_capacity (hrate : 0 < b.rate) (hs : s.Keeps b n) (h : n ≤ b.capacity) :
    b.Ends n s := by
  by_cases hfirst : n ≤ (b.refill (s.wake 0)).tokens
  · exact ⟨0, by simp [asleep, pass, hfirst]⟩
  · have hshort : b.pass n (s.wake 0) = (b.refill (s.wake 0),
        some ((n - (b.refill (s.wake 0)).tokens) / b.rate)) := if_neg hfirst
    obtain ⟨hslept, hordered⟩ := hs.sleeps 0 _ (congrArg Prod.snd hshort)
    have hasleep : b.asleep n s 1 =
        (s.reads 0).foldl (fun b now => (b.pressure now).1) (b.refill (s.wake 0)) := by
      show (s.reads 0).foldl _ (b.pass n (s.wake 0)).1 = _
      rw [hshort]
    have hnext : (b.asleep n s 1).refill (s.wake 1) = (b.refill (s.wake 0)).refill (s.wake 1) := by
      rw [hasleep]
      exact refill_foldl_pressure (b := b.refill (s.wake 0)) hrate (List.pairwise_cons.1 hordered).2
    have hflow : n - (b.refill (s.wake 0)).tokens ≤ (s.wake 1 - s.wake 0) * b.rate := by
      rw [← div_le_iff₀ hrate]
      linarith
    have henough : n ≤ ((b.asleep n s 1).refill (s.wake 1)).tokens := by
      rw [hnext]
      refine le_min h ?_
      rw [refill_last]
      show n ≤ _ + (s.wake 1 - s.wake 0) * b.rate
      linarith
    refine ⟨1, ?_⟩
    unfold pass
    simp only
    rw [if_pos henough]

/-- **When an acquire ends.** -/
theorem ends_iff (hrate : 0 < b.rate) (hs : s.Keeps b n) : b.Ends n s ↔ n ≤ b.capacity :=
  ⟨le_capacity_of_ends, ends_of_le_capacity hrate hs⟩

end TokenBucket

open TokenBucket

/-- The bucket of order posts that `ExecutionGateway.__init__` makes. -/
def orderBucket (rateBudgetFraction now : ℚ) : TokenBucket :=
  .new (200 * rateBudgetFraction) (some (500 * rateBudgetFraction)) now

/-- **When a placement gets past its rate limiter.**  After any earlier calls, with every sleep as
long as asked for, the acquire of a token for each quote ends exactly when the bucket can hold as
many. -/
theorem place_ends_iff {rateBudgetFraction : ℚ} (hbudget : 0 < rateBudgetFraction) (opened : ℚ)
    {earlier : List BucketCall}
    (hearlier : Run.EachStep TokenBucket.step Valid (orderBucket rateBudgetFraction opened) earlier)
    (quotes : List Quote) {s : Service}
    (hs : s.Keeps (Run.run TokenBucket.step (orderBucket rateBudgetFraction opened) earlier)
      quotes.length) :
    (Run.run TokenBucket.step (orderBucket rateBudgetFraction opened) earlier).Ends
        quotes.length s ↔ (quotes.length : ℚ) ≤ 500 * rateBudgetFraction := by
  have hcapacity : 0 ≤ (orderBucket rateBudgetFraction opened).capacity :=
    mul_nonneg (by norm_num) hbudget.le
  have hrate : 0 < (orderBucket rateBudgetFraction opened).rate := rate_new_pos _ _ _
  have hfull : (orderBucket rateBudgetFraction opened).InRange := inRange_new hcapacity
  obtain ⟨-, hsame, hcap⟩ := (inRange_run hfull hrate hearlier).last
  rw [ends_iff (hsame.symm ▸ hrate) hs, hcap]
  rfl

/-- A clock that passes two units of time between two passes, with a read of the pressure during the
first sleep. -/
def everyTwo : Service := ⟨fun k => 2 * k, fun k => if k = 0 then [1] else []⟩

theorem wake_everyTwo (k : ℕ) : everyTwo.wake (k + 2) = 2 * ((k : ℚ) + 1) + 2 := by
  show 2 * ((k + 2 : ℕ) : ℚ) = _
  push_cast
  ring

/-- A bucket of two tokens a unit of time that was drained two units ago is drained again. -/
theorem pass_drained (last : ℚ) :
    TokenBucket.pass ⟨2, 5, 0, last⟩ 4 (last + 2) = (⟨2, 5, 0, last + 2⟩, none) := by
  have htokens : min 5 (0 + (last + 2 - last) * 2) = (4 : ℚ) := by
    rw [add_sub_cancel_left]
    norm_num
  simp only [TokenBucket.pass, TokenBucket.refill, htokens]
  norm_num

theorem asleep_drained (k : ℕ) :
    (⟨2, 5, 0, 0⟩ : TokenBucket).asleep 4 everyTwo (k + 2) = ⟨2, 5, 0, 2 * (k + 1)⟩ := by
  induction k with
  | zero => decide +kernel
  | succ k ih =>
    show ((TokenBucket.asleep _ _ _ (k + 2)).pass 4 (everyTwo.wake (k + 2))).1 = _
    rw [ih, wake_everyTwo, pass_drained]
    push_cast
    ring_nf

/-- Every pass but the first grants. -/
theorem granted_drained (k : ℕ) :
    (((⟨2, 5, 0, 0⟩ : TokenBucket).asleep 4 everyTwo (k + 1)).pass 4 (everyTwo.wake (k + 1))).2 =
      none := by
  cases k with
  | zero => decide +kernel
  | succ k =>
    rw [asleep_drained, wake_everyTwo, pass_drained]

/-- Four quotes on a hundredth of the documented limits, where an earlier call has drained the
bucket: the first pass has to sleep. -/
theorem place_ends_four_quotes :
    let q : Quote := ⟨"yes", .buy, 48 / 100, 10⟩
    let quotes : List Quote := [q, q, q, q]
    let b := Run.run TokenBucket.step (orderBucket (1 / 100) 0) [.pass 5 0]
    (b.pass quotes.length 0).2 = some 2 ∧ b.Ends quotes.length everyTwo := by
  intro q quotes b
  have hb : b = ⟨2, 5, 0, 0⟩ := by decide +kernel
  have hfour : (quotes.length : ℚ) = 4 := by norm_num [quotes]
  have hfirst : (b.pass quotes.length 0).2 = some 2 := by decide +kernel
  have hvalid : Run.EachStep TokenBucket.step Valid (orderBucket (1 / 100) 0) [.pass 5 0] :=
    Run.eachStep_cons.2 ⟨⟨le_rfl, by norm_num [BucketCall.wanted]⟩, Run.eachStep_nil⟩
  have hkeeps : everyTwo.Keeps b quotes.length := by
    refine ⟨by decide +kernel, fun k d hd => ?_⟩
    cases k with
    | zero =>
      have hwake : everyTwo.wake 0 = 0 := by norm_num [everyTwo]
      rw [hwake] at hd
      obtain rfl : 2 = d := Option.some.inj (hfirst.symm.trans hd)
      decide +kernel
    | succ k =>
      rw [hb, hfour, granted_drained] at hd
      cases hd
  exact ⟨hfirst, (place_ends_iff (by norm_num) 0 hvalid quotes hkeeps).2 (by norm_num [hfour])⟩

/-- A bucket of half a token is full at every pass, and sends away who asks for a whole one. -/
theorem pass_half {last now : ℚ} (hlast : last ≤ now) :
    TokenBucket.pass ⟨1 / 5, 1 / 2, 1 / 2, last⟩ 1 now =
      (⟨1 / 5, 1 / 2, 1 / 2, now⟩, some (5 / 2)) := by
  have hflow : (1 / 2 : ℚ) ≤ 1 / 2 + (now - last) * (1 / 5) := by linarith
  simp only [TokenBucket.pass, TokenBucket.refill, min_eq_left hflow]
  norm_num

theorem asleep_half (k : ℕ) :
    ∃ last ≤ 10 * (k : ℚ),
      (orderBucket (1 / 1000) 0).asleep 1 ⟨fun k => 10 * k, fun _ => []⟩ k =
        ⟨1 / 5, 1 / 2, 1 / 2, last⟩ := by
  induction k with
  | zero => exact ⟨0, by norm_num, by decide +kernel⟩
  | succ k ih =>
    obtain ⟨last, hlast, hbucket⟩ := ih
    refine ⟨10 * k, by push_cast; linarith, ?_⟩
    show ((TokenBucket.asleep _ _ _ k).pass 1 (10 * k)).1 = _
    rw [hbucket, pass_half hlast]

/-- One quote on a thousandth of the documented limits: the bucket holds half a token, and no clock
that sleeps as long as it is asked to gets the quote past it. -/
theorem place_never_ends :
    let quotes : List Quote := [⟨"yes", .buy, 48 / 100, 10⟩]
    let b := orderBucket (1 / 1000) 0
    (∃ s : Service, s.Keeps b quotes.length) ∧
      ∀ s : Service, s.Keeps b quotes.length → ¬ b.Ends quotes.length s := by
  intro quotes b
  have hone : (quotes.length : ℚ) = 1 := by simp [quotes]
  rw [hone]
  refine ⟨⟨⟨fun k => 10 * k, fun _ => []⟩, by decide +kernel, fun k d hd => ?_⟩,
    fun s hs hends => ?_⟩
  · obtain ⟨last, hlast, hbucket⟩ := asleep_half k
    rw [hbucket, pass_half hlast] at hd
    obtain rfl := Option.some.inj hd
    constructor
    · push_cast; linarith
    · simp
  · have hle := le_capacity_of_ends hends
    revert hle
    decide +kernel

end Polymaker
