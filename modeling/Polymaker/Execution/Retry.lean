import Polymaker.Lib.Payload
import Mathlib.Algebra.BigOperators.Group.List.Basic
import Mathlib.Algebra.Order.Ring.Rat
import Mathlib.Data.List.Range
import Mathlib.Tactic.Linarith

/-!
# Reading with retries

`_get_json_with_retry` of `gateway.py` asks again, after a while, where an answer says that the
service is busy or no answer comes.

* `HttpAttempt`, `FetchError`: what an attempt meets, and what the reader may raise;
* `getJson`: the reader, with its waits;
* `get_json_run`: which attempt counts, and how long the reader waits.
-/

namespace Polymaker

open JsonTree

/-- What an attempt meets. -/
inductive HttpAttempt
  /-- An answer, with its `Retry-After` and its body, `none` where that is no JSON. -/
  | answered (status : ℕ) (retryAfter : String) (body : Option JsonTree)
  /-- No answer. -/
  | broken

/-- What the reader raises. -/
inductive FetchError
  | status (code : ℕ)
  | transport
  | body
  deriving DecidableEq, Repr

/-- `_RETRY_STATUS`. -/
def retryStatus : List ℕ := [429, 500, 502, 503, 504]

namespace HttpAttempt

/-- The reader asks again. -/
def Retryable : HttpAttempt → Prop
  | .answered status _ _ => status ∈ retryStatus
  | .broken => True

instance : DecidablePred Retryable
  | .answered status _ _ => inferInstanceAs (Decidable (status ∈ retryStatus))
  | .broken => inferInstanceAs (Decidable True)

/-- What the reader makes of the attempt that counts. -/
def result : HttpAttempt → Except FetchError JsonTree
  | .answered status _ body =>
    if 200 ≤ status ∧ status < 300 then
      match body with
      | some json => .ok json
      | none => .error .body
    else .error (.status status)
  | .broken => .error .transport

/-- How long to wait after the attempt with a number: as the answer says, or twice as long as the
time before and a little more. -/
def delay (H : Host) (jitter : ℕ → ℚ) (k : ℕ) : HttpAttempt → ℚ
  | .answered _ retryAfter _ =>
    match H.floatOfString retryAfter with
    | some seconds => min seconds 5
    | none => min (1 / 2 * 2 ^ k + jitter k * (1 / 4)) 5
  | .broken => min (1 / 2 * 2 ^ k + jitter k * (1 / 4)) 5

theorem delay_le (H : Host) (jitter : ℕ → ℚ) (k : ℕ) (a : HttpAttempt) : a.delay H jitter k ≤ 5 := by
  unfold delay
  split
  · split <;> exact min_le_right _ _
  · exact min_le_right _ _

end HttpAttempt

variable (H : Host) (jitter : ℕ → ℚ) (attempt : ℕ → HttpAttempt)

/-- `_get_json_with_retry` from an attempt on, with so many more after it at most: its waits, and
what it gives. -/
def getJson : ℕ → ℕ → List ℚ × Except FetchError JsonTree
  | 0, k => ([], (attempt k).result)
  | n + 1, k =>
    if (attempt k).Retryable then
      let (waits, r) := getJson n (k + 1)
      ((attempt k).delay H jitter k :: waits, r)
    else ([], (attempt k).result)

/-- **Which attempt counts**: the first that need not be repeated, or the last one allowed.  The
reader waits after each one before it, for five seconds at most. -/
theorem get_json_run (n k : ℕ) :
    let (waits, r) := getJson H jitter attempt n k
    ∃ j ≤ n, r = (attempt (k + j)).result ∧ (∀ i < j, (attempt (k + i)).Retryable) ∧
      ((attempt (k + j)).Retryable → j = n) ∧
      waits = (List.range j).map (fun i => (attempt (k + i)).delay H jitter (k + i)) ∧
      waits.sum ≤ 5 * j := by
  induction n generalizing k with
  | zero => exact ⟨0, le_rfl, rfl, by simp, fun _ => rfl, rfl, by simp⟩
  | succ n ih =>
    by_cases hretry : (attempt k).Retryable
    · obtain ⟨j, hj, hresult, hbefore, hlast, hwaits, hsum⟩ := ih (k + 1)
      simp only [getJson, if_pos hretry]
      refine ⟨j + 1, by omega, ?_, fun i hi => ?_, fun h => ?_, ?_, ?_⟩
      · rw [hresult, Nat.add_right_comm, Nat.add_assoc]
      · cases i with
        | zero => exact hretry
        | succ i =>
          have hi' := hbefore i (by omega)
          rwa [Nat.add_right_comm, Nat.add_assoc] at hi'
      · rw [← Nat.add_assoc, Nat.add_right_comm] at h
        rw [hlast h]
      · rw [hwaits, List.range_succ_eq_map, List.map_cons, List.map_map]
        refine congrArg _ (List.map_congr_left fun i _ => ?_)
        simp only [Function.comp_apply, Nat.succ_eq_add_one]
        rw [Nat.add_right_comm, Nat.add_assoc]
      · have hdelay := HttpAttempt.delay_le H jitter k (attempt k)
        rw [List.sum_cons]
        push_cast
        linarith
    · simp only [getJson, if_neg hretry]
      exact ⟨0, Nat.zero_le _, rfl, by simp, fun h => absurd h hretry, rfl, by simp⟩

/-- The service is busy once. -/
example :
    getJson ⟨fun s => if s = "2" then some 2 else none, fun _ => ""⟩ (fun _ => 0)
      (fun k => if k = 0 then .answered 429 "2" none else .answered 200 "" (some (.arr []))) 2 0 =
    ([2], .ok (.arr [])) := by
  rfl

end Polymaker
