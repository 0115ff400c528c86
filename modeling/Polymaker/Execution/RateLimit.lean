import Mathlib.Algebra.BigOperators.Group.List.Basic
import Mathlib.Algebra.Order.Field.Basic
import Mathlib.Data.Rat.Defs
import Mathlib.Algebra.Order.Ring.Rat
import Mathlib.Tactic.Linarith
import Mathlib.Tactic.Ring
import Polymaker.Lib.Run

/-!
# The rate limiter

`TokenBucket` of `execution/ratelimit.py`.  An acquire is a run of passes of its loop: each refills
the bucket and grants the amount, or sleeps for what is missing.

* `TokenBucket`, `refill`, `pass`, `pressure`: the bucket and what moves it;
* `BucketCall`, `BucketCall.Valid`: a pass, or a read of the pressure, on a clock that does not run
  back.  Acquires that are served one at a time, with reads between and during them, are such calls;
* `InRange`: the tokens are between none and the capacity, `inRange_step`: and stay so;
* `credit`: what a bucket can still grant up to a time, from the start of an interval on;
* `add_credit_le`: a call uses up what it grants of it;
* `rate_limit_honoured`: so no interval is granted more than the capacity and what flows in.
-/

namespace Polymaker

/-- `TokenBucket`. -/
structure TokenBucket where
  rate : ℚ
  capacity : ℚ
  tokens : ℚ
  last : ℚ
  deriving DecidableEq, Repr

namespace TokenBucket

/-- `__init__`. -/
def new (ratePerS : ℚ) (burst : Option ℚ) (now : ℚ) : TokenBucket :=
  let capacity := match burst with
    | some b => b
    | none => max 1 ratePerS
  { rate := max ratePerS (1 / 1000), capacity, tokens := capacity, last := now }

/-- `_refill`. -/
def refill (b : TokenBucket) (now : ℚ) : TokenBucket :=
  { b with tokens := min b.capacity (b.tokens + (now - b.last) * b.rate), last := now }

/-- One pass of the loop of `acquire`, and the sleep it asks for where the tokens are short. -/
def pass (b : TokenBucket) (n now : ℚ) : TokenBucket × Option ℚ :=
  let b := b.refill now
  if n ≤ b.tokens then ({ b with tokens := b.tokens - n }, none)
  else (b, some ((n - b.tokens) / b.rate))

/-- `pressure`. -/
def pressure (b : TokenBucket) (now : ℚ) : TokenBucket × ℚ :=
  let b := b.refill now
  (b, 1 - min 1 (b.tokens / b.capacity))

end TokenBucket

/-- A call that moves a bucket: a pass of an acquire of an amount, or a read of the pressure. -/
inductive BucketCall
  | pass (n now : ℚ)
  | read (now : ℚ)
  deriving DecidableEq, Repr

namespace BucketCall

/-- When it reads the clock. -/
def now : BucketCall → ℚ
  | pass _ now => now
  | read now => now

/-- The amount it asks for. -/
def wanted : BucketCall → ℚ
  | pass n _ => n
  | read _ => 0

end BucketCall

namespace TokenBucket

/-- The bucket after a call. -/
def step (b : TokenBucket) : BucketCall → TokenBucket
  | .pass n now => (b.pass n now).1
  | .read now => (b.pressure now).1

/-- The amount a call is granted. -/
def grant (b : TokenBucket) : BucketCall → ℚ
  | .pass n now => if (b.pass n now).2 = none then n else 0
  | .read _ => 0

/-- The clock does not run back, and no negative amount is asked for. -/
def Valid (b : TokenBucket) (c : BucketCall) : Prop := b.last ≤ c.now ∧ 0 ≤ c.wanted

/-- The amounts granted along calls, each with its time. -/
def grants (b : TokenBucket) (calls : List BucketCall) : List (ℚ × ℚ) :=
  Run.answers (fun b c => (b.step c, (c.now, b.grant c))) b calls

/-- The total amount granted from one time to another. -/
def grantedIn (b : TokenBucket) (start stop : ℚ) (calls : List BucketCall) : ℚ :=
  (((b.grants calls).filter fun g => decide (start ≤ g.1 ∧ g.1 ≤ stop)).map Prod.snd).sum

/-- The tokens are between none and the capacity. -/
structure InRange (b : TokenBucket) : Prop where
  nonneg : 0 ≤ b.tokens
  le_capacity : b.tokens ≤ b.capacity

variable {b : TokenBucket} {c : BucketCall} {start stop : ℚ}

/-! ### One call -/

theorem rate_new_pos (ratePerS : ℚ) (burst : Option ℚ) (now : ℚ) :
    0 < (new ratePerS burst now).rate :=
  lt_max_of_lt_right (by norm_num)

theorem inRange_new {ratePerS : ℚ} {burst : Option ℚ} {now : ℚ}
    (h : 0 ≤ (new ratePerS burst now).capacity) : InRange (new ratePerS burst now) :=
  ⟨h, le_rfl⟩

/-- A refill adds what flowed in, up to the capacity. -/
theorem inRange_refill (h : b.InRange) (hrate : 0 < b.rate) {now : ℚ} (hnow : b.last ≤ now) :
    (b.refill now).InRange := by
  have hflow : 0 ≤ (now - b.last) * b.rate := mul_nonneg (sub_nonneg.2 hnow) hrate.le
  refine ⟨le_min (h.nonneg.trans h.le_capacity) ?_, min_le_left _ _⟩
  linarith [h.nonneg]

@[simp] theorem rate_step (b : TokenBucket) (c : BucketCall) : (b.step c).rate = b.rate := by
  cases c with
  | pass n now => simp only [step, pass]; split_ifs <;> rfl
  | read now => rfl

@[simp] theorem capacity_step (b : TokenBucket) (c : BucketCall) :
    (b.step c).capacity = b.capacity := by
  cases c with
  | pass n now => simp only [step, pass]; split_ifs <;> rfl
  | read now => rfl

@[simp] theorem last_step (b : TokenBucket) (c : BucketCall) : (b.step c).last = c.now := by
  cases c with
  | pass n now => simp only [step, pass]; split_ifs <;> rfl
  | read now => rfl

/-- What a call grants is taken out of the refilled bucket. -/
theorem tokens_step (b : TokenBucket) (c : BucketCall) :
    (b.step c).tokens = (b.refill c.now).tokens - b.grant c := by
  cases c with
  | pass n now =>
    by_cases hn : n ≤ (b.refill now).tokens <;> simp [step, grant, pass, BucketCall.now, hn]
  | read now => exact (sub_zero _).symm

/-- It is no more than is in there. -/
theorem grant_mem (h : (b.refill c.now).InRange) (hwanted : 0 ≤ c.wanted) :
    0 ≤ b.grant c ∧ b.grant c ≤ (b.refill c.now).tokens := by
  cases c with
  | pass n now =>
    by_cases hn : n ≤ (b.refill now).tokens
    · simpa [grant, pass, hn] using ⟨hwanted, hn⟩
    · simpa [grant, pass, hn] using h.nonneg
  | read now => exact ⟨le_rfl, h.nonneg⟩

/-- A call keeps the tokens in range. -/
theorem inRange_step (h : b.InRange) (hrate : 0 < b.rate) (hc : b.Valid c) :
    (b.step c).InRange := by
  have hrefill := inRange_refill h hrate hc.1
  obtain ⟨hpos, hle⟩ := grant_mem hrefill hc.2
  refine ⟨?_, ?_⟩
  · rw [tokens_step]
    exact sub_nonneg.2 hle
  · rw [tokens_step, capacity_step]
    exact (sub_le_self _ hpos).trans hrefill.le_capacity

/-! ### The credit of a bucket -/

/-- What a bucket can still grant up to `stop`, counted from `start` on: its tokens and what flows
in, and no more than a full bucket at `start`. -/
def credit (b : TokenBucket) (start stop : ℚ) : ℚ :=
  if b.last < start then b.capacity + b.rate * (stop - start)
  else if b.last ≤ stop then b.tokens + b.rate * (stop - b.last)
  else 0

/-- The part of a grant that falls into an interval. -/
def grantIn (b : TokenBucket) (start stop : ℚ) (c : BucketCall) : ℚ :=
  if start ≤ c.now ∧ c.now ≤ stop then b.grant c else 0

theorem credit_nonneg (h : b.InRange) (hrate : 0 < b.rate) (hle : start ≤ stop) :
    0 ≤ b.credit start stop := by
  unfold credit
  split_ifs with hbefore hinside
  · exact add_nonneg (h.nonneg.trans h.le_capacity) (mul_nonneg hrate.le (sub_nonneg.2 hle))
  · exact add_nonneg h.nonneg (mul_nonneg hrate.le (sub_nonneg.2 hinside))
  · exact le_rfl

theorem credit_le (h : b.InRange) (hrate : 0 < b.rate) (hle : start ≤ stop) :
    b.credit start stop ≤ b.capacity + b.rate * (stop - start) := by
  have hcapacity := h.nonneg.trans h.le_capacity
  have hspan : 0 ≤ b.rate * (stop - start) := mul_nonneg hrate.le (sub_nonneg.2 hle)
  unfold credit
  split_ifs with hbefore hinside
  · exact le_rfl
  · have hflow : b.rate * (stop - b.last) ≤ b.rate * (stop - start) :=
      mul_le_mul_of_nonneg_left (sub_le_sub_left (not_lt.1 hbefore) stop) hrate.le
    exact add_le_add h.le_capacity hflow
  · exact add_nonneg hcapacity hspan

/-- **A call uses up** what it is granted in the interval. -/
theorem add_credit_le (h : b.InRange) (hrate : 0 < b.rate) (hle : start ≤ stop) (hc : b.Valid c) :
    b.grantIn start stop c + (b.step c).credit start stop ≤ b.credit start stop := by
  have hlast : b.last ≤ c.now := hc.1
  have hnonneg := credit_nonneg h hrate hle
  have htokens := tokens_step b c
  have hfull : (b.refill c.now).tokens ≤ b.capacity := min_le_left _ _
  have hflow : (b.refill c.now).tokens ≤ b.tokens + (c.now - b.last) * b.rate := min_le_right _ _
  have hafter : (b.step c).credit start stop =
      if c.now < start then b.capacity + b.rate * (stop - start)
      else if c.now ≤ stop then (b.step c).tokens + b.rate * (stop - c.now) else 0 := by
    unfold credit
    rw [rate_step, capacity_step, last_step]
  rw [hafter]
  unfold grantIn
  rcases lt_or_ge c.now start with hbefore | hfrom
  · -- before the interval
    rw [if_neg fun hin => hin.1.not_gt hbefore, if_pos hbefore, zero_add]
    unfold credit
    rw [if_pos (hlast.trans_lt hbefore)]
  · rcases le_or_gt c.now stop with huntil | hafter
    · rw [if_pos ⟨hfrom, huntil⟩, if_neg hfrom.not_gt, if_pos huntil, htokens]
      unfold credit
      split_ifs with hold hinside
      · -- the first call in the interval finds a full bucket at most
        have hspan : b.rate * (stop - c.now) ≤ b.rate * (stop - start) :=
          mul_le_mul_of_nonneg_left (sub_le_sub_left hfrom stop) hrate.le
        linarith
      · have hsum : (c.now - b.last) * b.rate + b.rate * (stop - c.now) =
            b.rate * (stop - b.last) := by ring
        linarith
      · exact absurd (hlast.trans huntil) hinside
    · -- past it
      rw [if_neg fun hin => hin.2.not_gt hafter, if_neg hfrom.not_gt, if_neg hafter.not_ge,
        zero_add]
      exact hnonneg

/-! ### Runs -/

theorem grantedIn_cons (b : TokenBucket) (c : BucketCall) (calls : List BucketCall) :
    b.grantedIn start stop (c :: calls) =
      b.grantIn start stop c + (b.step c).grantedIn start stop calls := by
  unfold grantedIn grants grantIn
  rw [Run.answers, List.filter_cons]
  simp only [decide_eq_true_eq]
  split_ifs
  · rw [List.map_cons, List.sum_cons]
  · rw [zero_add]

theorem grantedIn_le_credit (h : b.InRange) (hrate : 0 < b.rate) (hle : start ≤ stop)
    {calls : List BucketCall} (hcalls : Run.EachStep step Valid b calls) :
    b.grantedIn start stop calls ≤ b.credit start stop := by
  induction calls generalizing b with
  | nil => exact credit_nonneg h hrate hle
  | cons c calls ih =>
    obtain ⟨hc, hcalls⟩ := Run.eachStep_cons.1 hcalls
    have hrest := ih (inRange_step h hrate hc) (by rwa [rate_step]) hcalls
    have hcall := add_credit_le h hrate hle hc
    rw [grantedIn_cons]
    linarith

/-- The rate and the capacity do not change, and the tokens stay in range. -/
theorem inRange_run (h : b.InRange) (hrate : 0 < b.rate) {calls : List BucketCall}
    (hcalls : Run.EachStep step Valid b calls) :
    Run.Always step (fun s => s.InRange ∧ s.rate = b.rate ∧ s.capacity = b.capacity) b calls := by
  refine Run.always_of_valid (V := Valid) (fun s c hs hc => ?_) ⟨h, rfl, rfl⟩ hcalls
  obtain ⟨hin, hsame, hcap⟩ := hs
  exact ⟨inRange_step hin (hsame ▸ hrate) hc, by rw [rate_step, hsame], by rw [capacity_step, hcap]⟩

end TokenBucket

open TokenBucket

/-- **The rate limiter honours its budget.**  Along calls on a clock that does not run back, the
tokens of a bucket stay between none and its capacity, and an interval is granted no more than the
capacity and what flows in over its length. -/
theorem rate_limit_honoured (ratePerS : ℚ) (burst : Option ℚ) (opened : ℚ)
    (hcapacity : 0 < (TokenBucket.new ratePerS burst opened).capacity) {calls : List BucketCall}
    (hcalls : Run.EachStep TokenBucket.step Valid (.new ratePerS burst opened) calls) :
    Run.Always TokenBucket.step (fun b => 0 ≤ b.tokens ∧
        b.tokens ≤ (TokenBucket.new ratePerS burst opened).capacity)
      (.new ratePerS burst opened) calls ∧
    ∀ start stop, start ≤ stop →
      (TokenBucket.new ratePerS burst opened).grantedIn start stop calls ≤
        (TokenBucket.new ratePerS burst opened).capacity +
          (TokenBucket.new ratePerS burst opened).rate * (stop - start) := by
  have hnew := inRange_new hcapacity.le
  have hrate := rate_new_pos ratePerS burst opened
  constructor
  · intro before hbefore
    obtain ⟨hin, -, hcap⟩ := inRange_run hnew hrate hcalls before hbefore
    exact ⟨hin.nonneg, hcap ▸ hin.le_capacity⟩
  · exact fun start stop hle => (grantedIn_le_credit hnew hrate hle hcalls).trans
      (credit_le hnew hrate hle)

/-- Two tokens a second: of two acquires of two at once the second is granted a second later. -/
theorem rate_limit_honoured_two_acquires :
    let b := TokenBucket.new 2 none 0
    let calls : List BucketCall := [.pass 2 0, .pass 2 0, .read (1 / 2), .pass 2 1]
    b.grantedIn 0 1 calls = 4 ∧ b.grantedIn 0 1 calls ≤ b.capacity + b.rate * (1 - 0) := by
  intro b calls
  have hcalls : Run.EachStep TokenBucket.step Valid b calls := by
    simp only [calls, Run.eachStep_cons, Run.eachStep_nil]
    unfold Valid
    decide +kernel
  exact ⟨by decide +kernel,
    (rate_limit_honoured 2 none 0 (by decide +kernel) hcalls).2 0 1 (by norm_num)⟩

end Polymaker
