import Mathlib.Algebra.BigOperators.Group.List.Basic
import Mathlib.Algebra.Order.Floor.Ring
import Mathlib.Data.Rat.Floor
import Mathlib.Tactic.Linarith
import Polymaker.Domain
import Polymaker.Lib.Reading

/-!
# The live self-test

The sell stage of `moneydoctor.py`: the shares of a market buy are sold again, with retries.  A
retry sells what the wallet holds, and the wallet may hold more than was bought.

* `fillOf`, `floorCents`: what a response says, and an amount in whole hundredths;
* `sellWithRetry`: the amounts of the sell orders, over the responses and the balances read;
* `sellWithRetry_succ_iff`: there is an order after every attempt that is retried;
* `Movement`, `SellRound`, `SelfTest`: what moves the balance that the stage reads;
* `SelfTest.surplus`, `centGap`: what the wallet holds besides the rest of the purchase, and how
  much of that does not show in whole hundredths;
* `sells_only_bought_iff`: no order sells more than is left of the purchase exactly when at every
  retry the surplus does not show.
-/

namespace Polymaker

open JsonTree Raising

/-- `math.floor(x * 100) / 100`. -/
def floorCents (x : ℚ) : ℚ := ⌊x * 100⌋ / 100

/-- How far an amount is from the next whole hundredth. -/
def centGap (x : ℚ) : ℚ := (⌊x * 100⌋ + 1) / 100 - x

theorem floorCents_le (x : ℚ) : floorCents x ≤ x := by
  unfold floorCents
  rw [div_le_iff₀ (by norm_num)]
  exact Int.floor_le _

theorem centGap_pos (x : ℚ) : 0 < centGap x := by
  unfold centGap
  rw [sub_pos, lt_div_iff₀ (by norm_num)]
  exact Int.lt_floor_add_one _

/-- Whole hundredths stay within a bound when the amount stays below the next one. -/
theorem floorCents_le_iff {x y : ℚ} : floorCents x ≤ y ↔ x - y < centGap y := by
  have hfloor : ⌊x * 100⌋ ≤ ⌊y * 100⌋ ↔ x * 100 < ⌊y * 100⌋ + 1 := by
    rw [← Int.lt_add_one_iff, Int.floor_lt, Int.cast_add, Int.cast_one]
  calc floorCents x ≤ y ↔ (⌊x * 100⌋ : ℚ) ≤ y * 100 := div_le_iff₀ (by norm_num)
    _ ↔ ⌊x * 100⌋ ≤ ⌊y * 100⌋ := Int.le_floor.symm
    _ ↔ x * 100 < ⌊y * 100⌋ + 1 := hfloor
    _ ↔ x < (⌊y * 100⌋ + 1) / 100 := (lt_div_iff₀ (by norm_num)).symm
    _ ↔ x - y < centGap y := (sub_lt_sub_iff_right y).symm

section Responses

variable (H : Host)

/-- `_f`: zero for what is no number; a number beyond the range of floats raises. -/
def floatOrZero (x : JsonTree) : Except Exc ℚ := do
  pure ((← tryExcept [.value, .type] (number H x)).getD 0)

/-- What a response says: shares, dollars and status. -/
structure MarketFill where
  shares : ℚ
  usd : ℚ
  status : String
  deriving DecidableEq, Repr

/-- `_fill`. -/
def fillOf (resp : JsonTree) (side : Side) : Except Exc MarketFill :=
  match resp with
  | .obj d => do
    let status := H.str (getMemberD d "status" (.str ""))
    let making ← floatOrZero H (getMember d "makingAmount")
    let taking ← floatOrZero H (getMember d "takingAmount")
    match side with
    | .buy => pure ⟨taking, making, status⟩
    | .sell => pure ⟨making, taking, status⟩
  | _ => pure ⟨0, 0, "?"⟩

/-- The fill ends the stage: the order was matched. -/
def MarketFill.Matched (f : MarketFill) : Prop := f.status = "matched" ∧ 0 < f.shares

instance (f : MarketFill) : Decidable f.Matched := inferInstanceAs (Decidable (_ ∧ _))

end Responses

/-! ### The loop -/

/-- What one attempt gives: the response to the order, and the balance read after it. -/
structure Attempt where
  response : JsonTree
  balance : Option ℚ

/-- What the stage does: the amounts of its sell orders, and the shares it reports as sold, `none`
where an exception leaves it. -/
structure SellStage where
  orders : List ℚ
  sold : Option ℚ
  deriving DecidableEq, Repr

/-- The amount of the order after a read: what is available. -/
def retryAmount (bal : ℚ) : ℚ := floorCents (max 0 bal)

section Loop

variable (H : Host) (minOrderSize : ℚ)

/-- `_sell_with_retry`, over the attempts that are left. -/
def sellWithRetry : ℚ → List Attempt → SellStage
  | _, [] => ⟨[], some 0⟩
  | amount, a :: rest =>
    match fillOf H a.response .sell with
    -- the order is out, and nothing follows it
    | .error _ => ⟨[amount], none⟩
    | .ok fill =>
      if fill.Matched then ⟨[amount], some fill.shares⟩
      else
        match a.balance with
        -- without a balance no sell can be sized
        | none => ⟨[amount], some 0⟩
        | some bal =>
          if retryAmount bal < minOrderSize then ⟨[amount], some 0⟩
          else
            let later := sellWithRetry (retryAmount bal) rest
            { later with orders := amount :: later.orders }

/-- The attempt is followed by another one, on a balance. -/
def Attempt.Retries (a : Attempt) (bal : ℚ) : Prop :=
  (∃ fill, fillOf H a.response .sell = .ok fill ∧ ¬ fill.Matched) ∧ a.balance = some bal ∧
    minOrderSize ≤ retryAmount bal

variable {H minOrderSize}

theorem sellWithRetry_cons_of_retries {a : Attempt} {bal : ℚ} (h : a.Retries H minOrderSize bal)
    (amount : ℚ) (rest : List Attempt) :
    (sellWithRetry H minOrderSize amount (a :: rest)).orders =
      amount :: (sellWithRetry H minOrderSize (retryAmount bal) rest).orders := by
  obtain ⟨⟨fill, hfill, hmatched⟩, hbal, hmin⟩ := h
  rw [sellWithRetry, hfill, hbal]
  simp only [if_neg hmatched, if_neg (not_lt.2 hmin)]

theorem sellWithRetry_cons_of_stops {a : Attempt} (h : ∀ bal, ¬ a.Retries H minOrderSize bal)
    (amount : ℚ) (rest : List Attempt) :
    (sellWithRetry H minOrderSize amount (a :: rest)).orders = [amount] := by
  rw [sellWithRetry]
  cases hfill : fillOf H a.response .sell with
  | error e => rfl
  | ok fill =>
    dsimp only
    split_ifs with hmatched
    · rfl
    · split
      · rfl
      · rename_i bal hbal
        rw [if_pos (not_le.1 fun hmin => h bal ⟨⟨fill, hfill, hmatched⟩, hbal, hmin⟩)]

theorem sellWithRetry_zero (amount : ℚ) (a : Attempt) (rest : List Attempt) :
    (sellWithRetry H minOrderSize amount (a :: rest)).orders[0]? = some amount := by
  by_cases h : ∃ bal, a.Retries H minOrderSize bal
  · obtain ⟨bal, h⟩ := h
    rw [sellWithRetry_cons_of_retries h]
    rfl
  · rw [sellWithRetry_cons_of_stops (not_exists.1 h)]
    rfl

/-- A balance that is retried on is the one that was read. -/
theorem Attempt.Retries.unique {a : Attempt} {bal bal' : ℚ} (h : a.Retries H minOrderSize bal)
    (h' : a.Retries H minOrderSize bal') : bal = bal' :=
  Option.some.inj (h.2.1.symm.trans h'.2.1)

/-- The order after the first attempt. -/
theorem sellWithRetry_one_iff (amount : ℚ) (a : Attempt) (rest : List Attempt) (x : ℚ) :
    (sellWithRetry H minOrderSize amount (a :: rest)).orders[1]? = some x ↔
      rest ≠ [] ∧ ∃ bal, a.Retries H minOrderSize bal ∧ x = retryAmount bal := by
  by_cases h : ∃ bal, a.Retries H minOrderSize bal
  · obtain ⟨bal, h⟩ := h
    rw [sellWithRetry_cons_of_retries h, List.getElem?_cons_succ]
    cases rest with
    | nil => simp [sellWithRetry]
    | cons b rest =>
      rw [sellWithRetry_zero]
      constructor
      · intro hx
        exact ⟨List.cons_ne_nil b rest, bal, h, (Option.some.inj hx).symm⟩
      · rintro ⟨-, bal', h', rfl⟩
        rw [h.unique h']
  · rw [sellWithRetry_cons_of_stops (not_exists.1 h)]
    refine iff_of_false (by simp) ?_
    rintro ⟨-, bal, hbal, -⟩
    exact h ⟨bal, hbal⟩

/-- **The orders after the first.**  There is one for every attempt that is reached, is retried and
is not the last, and it sells what the balance shows. -/
theorem sellWithRetry_succ_iff (amount : ℚ) (as : List Attempt) (i : ℕ) (x : ℚ) :
    (sellWithRetry H minOrderSize amount as).orders[i + 1]? = some x ↔
      i + 1 < as.length ∧ (∀ a ∈ as.take i, ∃ bal, a.Retries H minOrderSize bal) ∧
        ∃ a bal, as[i]? = some a ∧ a.Retries H minOrderSize bal ∧ x = retryAmount bal := by
  induction i generalizing amount as with
  | zero =>
    cases as with
    | nil => simp [sellWithRetry]
    | cons a rest =>
      rw [sellWithRetry_one_iff, ← List.length_pos_iff]
      simp
  | succ i ih =>
    cases as with
    | nil => simp [sellWithRetry]
    | cons a rest =>
      by_cases h : ∃ bal, a.Retries H minOrderSize bal
      · obtain ⟨bal, hbal⟩ := h
        rw [sellWithRetry_cons_of_retries hbal, List.getElem?_cons_succ, ih]
        simp only [List.length_cons, Nat.add_lt_add_iff_right, List.take_succ_cons,
          List.forall_mem_cons, List.getElem?_cons_succ]
        rw [and_iff_right (⟨bal, hbal⟩ : ∃ bal, a.Retries H minOrderSize bal)]
      · rw [sellWithRetry_cons_of_stops (not_exists.1 h)]
        refine iff_of_false (by simp) ?_
        rintro ⟨-, hbefore, -⟩
        exact h (hbefore a (by simp))

end Loop

/-! ### What moves the balance -/

/-- What moved the balance by the time it is read: the part of the purchase that has settled, and
the part of the sales that was taken out. -/
structure Movement where
  settled : ℚ
  debited : ℚ
  deriving DecidableEq, Repr

/-- The shares on chain, with those held before the test. -/
def Movement.balance (v : Movement) (before : ℚ) : ℚ := before + v.settled - v.debited

/-- One attempt in the world: the response to the order, the shares it sold, and the movement behind
the balance, `none` where no balance is read. -/
structure SellRound where
  response : JsonTree
  filled : ℚ
  movement : Option Movement

/-- What the code sees of it. -/
def SellRound.attempt (before : ℚ) (r : SellRound) : Attempt :=
  ⟨r.response, r.movement.map (·.balance before)⟩

/-- A self-test from the purchase on: the exchange minimum, the shares held before, the response to
the purchase, the part of it that has settled when `_wait_settled` reads, and the attempts. -/
structure SelfTest where
  minOrderSize : ℚ
  before : ℚ
  buy : JsonTree
  settled : Option ℚ
  rounds : List SellRound

namespace SelfTest

variable (H : Host) (t : SelfTest)

/-- `bought`; where the response raises no stage follows, as after a purchase of nothing. -/
def bought : ℚ :=
  match fillOf H t.buy .buy with
  | .ok fill => fill.shares
  | .error _ => 0

/-- `_wait_settled`: the last balance, or the one before when none is read. -/
def waitSettled : ℚ :=
  match t.settled with
  | some x => t.before + x
  | none => t.before

/-- `got`. -/
def got : ℚ := t.waitSettled - t.before

/-- `sell_amt`. -/
def sellAmt : ℚ := floorCents (max t.got (t.bought H))

/-- The sell stage of `run_moneydoctor`, five attempts at most; there is none without a purchase. -/
def sellStage : SellStage :=
  if 0 < t.bought H then
    sellWithRetry H t.minOrderSize (t.sellAmt H) ((t.rounds.take 5).map (·.attempt t.before))
  else ⟨[], none⟩

/-- What was sold in the stage before an attempt. -/
def soldBefore (i : ℕ) : ℚ := ((t.rounds.take i).map SellRound.filled).sum

/-- The accounts of a purchase of some shares: neither the response nor a balance shows more of it,
and no balance is negative. -/
structure Accounts (N : ℚ) : Prop where
  bought : t.bought H ≤ N
  settled : ∀ x ∈ t.settled, x ≤ N
  nonneg : ∀ r ∈ t.rounds, ∀ v ∈ r.movement, 0 ≤ v.balance t.before

/-- Every order, together with what was sold before it, is within the purchase. -/
def SellsOnly (N : ℚ) : Prop :=
  ∀ (i : ℕ) (amount : ℚ), (t.sellStage H).orders[i]? = some amount → amount + t.soldBefore i ≤ N

/-- After an attempt the sale is tried again, on a balance. -/
def Resells (i : ℕ) (v : Movement) : Prop :=
  0 < t.bought H ∧ i + 1 < (t.rounds.take 5).length ∧
    (∀ r ∈ t.rounds.take i, ∃ bal, (r.attempt t.before).Retries H t.minOrderSize bal) ∧
      ∃ r, t.rounds[i]? = some r ∧ r.movement = some v ∧
        (r.attempt t.before).Retries H t.minOrderSize (v.balance t.before)

/-- What the wallet holds besides the rest of the purchase: the shares from before and what was sold
and not yet taken out, less what was bought and has not yet settled. -/
def surplus (N : ℚ) (i : ℕ) (v : Movement) : ℚ :=
  t.before + (t.soldBefore (i + 1) - v.debited) - (N - v.settled)

/-- What is left of the purchase after an attempt. -/
def left (N : ℚ) (i : ℕ) : ℚ := N - t.soldBefore (i + 1)

/-! ### What is sold -/

variable {H t}

/-- There is an order after an attempt exactly when the sale is tried again, and it sells the whole
balance. -/
theorem sellStage_succ_iff {i : ℕ} {x : ℚ} :
    (t.sellStage H).orders[i + 1]? = some x ↔
      ∃ v, t.Resells H i v ∧ x = retryAmount (v.balance t.before) := by
  have hplace : i + 1 < (t.rounds.take 5).length → i < 5 := by
    rw [List.length_take]
    omega
  unfold sellStage Resells
  split_ifs with hbought
  · rw [sellWithRetry_succ_iff, List.length_map, ← List.map_take, List.forall_mem_map,
      List.take_take]
    constructor
    · rintro ⟨hlast, hbefore, a, bal, ha, hretry, rfl⟩
      rw [List.getElem?_map, List.getElem?_take_of_lt (hplace hlast)] at ha
      rw [min_eq_left (hplace hlast).le] at hbefore
      obtain ⟨r, hr, rfl⟩ := Option.map_eq_some_iff.1 ha
      obtain ⟨v, hv, rfl⟩ := Option.map_eq_some_iff.1 hretry.2.1
      exact ⟨v, ⟨hbought, hlast, hbefore, r, hr, hv, hretry⟩, rfl⟩
    · rintro ⟨v, ⟨-, hlast, hbefore, r, hr, -, hretry⟩, rfl⟩
      rw [min_eq_left (hplace hlast).le]
      refine ⟨hlast, hbefore, r.attempt t.before, v.balance t.before, ?_, hretry, rfl⟩
      rw [List.getElem?_map, List.getElem?_take_of_lt (hplace hlast), hr]
      rfl
  · refine iff_of_false (by simp) ?_
    rintro ⟨v, ⟨hpos, -⟩, -⟩
    exact hbought hpos

theorem sellAmt_le {N : ℚ} (h : t.Accounts H N) (hpos : 0 < t.bought H) : t.sellAmt H ≤ N := by
  have hgot : t.got ≤ N := by
    unfold got waitSettled
    split
    · rename_i x hx
      rw [add_sub_cancel_left]
      exact h.settled x hx
    · rw [sub_self]
      exact hpos.le.trans h.bought
  exact (floorCents_le _).trans (max_le hgot h.bought)

/-- The first order is within the purchase. -/
theorem first_order_le {N amount : ℚ} (h : t.Accounts H N)
    (horder : (t.sellStage H).orders[0]? = some amount) : amount + t.soldBefore 0 ≤ N := by
  unfold sellStage at horder
  split_ifs at horder with hpos
  · cases hrounds : (t.rounds.take 5).map (·.attempt t.before) with
    | nil =>
      rw [hrounds] at horder
      simp [sellWithRetry] at horder
    | cons a rest =>
      rw [hrounds, sellWithRetry_zero] at horder
      obtain rfl := Option.some.inj horder
      rw [show t.soldBefore 0 = 0 from rfl, add_zero]
      exact sellAmt_le h hpos
  · simp at horder

/-- An order after a read is within the purchase exactly when the surplus does not show. -/
theorem retry_le_iff {N : ℚ} {i : ℕ} {v : Movement} (hv : 0 ≤ v.balance t.before) :
    retryAmount (v.balance t.before) + t.soldBefore (i + 1) ≤ N ↔
      t.surplus N i v < centGap (t.left N i) := by
  have hsurplus : t.surplus N i v = v.balance t.before - t.left N i := by
    unfold surplus left Movement.balance
    ring
  unfold retryAmount
  rw [max_eq_right hv, hsurplus, ← le_sub_iff_add_le]
  exact floorCents_le_iff

end SelfTest

open SelfTest

/-- **When the self-test sells only what it bought.**  No order sells more than is left of the
purchase exactly when, at every attempt that is tried again, the shares held before, those sold and
not yet taken out counted and those not yet settled discounted, stay below the next whole hundredth
of what is left. -/
theorem sells_only_bought_iff (H : Host) (t : SelfTest) {N : ℚ} (h : t.Accounts H N) :
    t.SellsOnly H N ↔ ∀ i v, t.Resells H i v → t.surplus N i v < centGap (t.left N i) := by
  have hread : ∀ {i v}, t.Resells H i v → 0 ≤ v.balance t.before := fun ⟨_, _, _, r, hr, hv, _⟩ =>
    h.nonneg r (List.mem_of_getElem? hr) _ hv
  constructor
  · intro hsells i v hre
    exact (retry_le_iff (hread hre)).1 (hsells (i + 1) _ (sellStage_succ_iff.2 ⟨v, hre, rfl⟩))
  · intro hsurplus i amount horder
    cases i with
    | zero => exact first_order_le h horder
    | succ i =>
      obtain ⟨v, hre, rfl⟩ := sellStage_succ_iff.1 horder
      exact (retry_le_iff (hread hre)).2 (hsurplus i v hre)

/-- A wallet without shares before the test, read after every sale was taken out, sells only what
was bought. -/
theorem sellsOnly_of_empty_wallet {H : Host} {t : SelfTest} {N : ℚ} (h : t.Accounts H N)
    (hbefore : t.before = 0)
    (hread : ∀ i v, t.Resells H i v → t.soldBefore (i + 1) ≤ v.debited ∧ v.settled ≤ N) :
    t.SellsOnly H N := by
  intro i amount horder
  cases i with
  | zero => exact first_order_le h horder
  | succ i =>
    obtain ⟨v, hre, rfl⟩ := sellStage_succ_iff.1 horder
    obtain ⟨-, -, -, r, hr, hv, -⟩ := id hre
    obtain ⟨hdebited, hsettled⟩ := hread i v hre
    refine (retry_le_iff (h.nonneg r (List.mem_of_getElem? hr) v hv)).2 ?_
    have hnone : t.surplus N i v ≤ 0 := by
      unfold surplus
      rw [hbefore]
      linarith
    exact hnone.trans_lt (centGap_pos _)

/-! ### A first sale that fails -/

/-- A host that reads the two amounts of the example. -/
def Host.ofEight : Host where
  floatOfString s := if s = "8" then some 8 else if s = "4" then some 4 else none
  repr _ := ""

/-- A purchase of eight shares, and a first sale that is refused while the chain already shows
them. -/
def SelfTest.refusedOnce (before : ℚ) : SelfTest where
  minOrderSize := 5
  before := before
  buy := .obj [("status", .str "matched"), ("makingAmount", .str "4"), ("takingAmount", .str "8")]
  settled := some 8
  rounds :=
    [⟨.obj [("status", .str "failed"), ("error", .str "timeout")], 0, some ⟨8, 0⟩⟩,
      ⟨.obj [("status", .str "matched"), ("makingAmount", .str "8"), ("takingAmount", .str "4")], 8,
        some ⟨8, 8⟩⟩]

/-- The accounts of the example, whatever was held before. -/
theorem accounts_refusedOnce {before : ℚ} (hbefore : 0 ≤ before) :
    (SelfTest.refusedOnce before).Accounts Host.ofEight 8 where
  bought := by
    change (SelfTest.refusedOnce 0).bought Host.ofEight ≤ 8
    decide +kernel
  settled x hx := (Option.some.inj hx).ge
  nonneg r hr v hv := by
    have hcases : v = ⟨8, 0⟩ ∨ v = ⟨8, 8⟩ := by
      simp only [SelfTest.refusedOnce, List.mem_cons, List.not_mem_nil, or_false] at hr
      rcases hr with rfl | rfl
      · exact .inl (Option.some.inj hv).symm
      · exact .inr (Option.some.inj hv).symm
    rcases hcases with rfl | rfl <;>
      simp only [Movement.balance, SelfTest.refusedOnce] <;> linarith

/-- An empty wallet: the second order sells the eight shares again, and no more. -/
theorem sells_only_bought_empty_wallet :
    (SelfTest.refusedOnce 0).SellsOnly Host.ofEight 8 := by
  refine (sells_only_bought_iff Host.ofEight (SelfTest.refusedOnce 0)
    (accounts_refusedOnce le_rfl)).2 ?_
  rintro i v ⟨-, hlast, -, r, hr, hv, -⟩
  have hi : i = 0 := by
    change i + 1 < 2 at hlast
    omega
  subst hi
  obtain rfl := Option.some.inj hr
  obtain rfl := Option.some.inj hv
  decide +kernel

/-- Fifty shares were held before: the second order sells fifty-eight. -/
theorem not_sells_only_bought :
    (SelfTest.refusedOnce 50).Accounts Host.ofEight 8 ∧
      ((SelfTest.refusedOnce 50).sellStage Host.ofEight).orders = [8, 58] ∧
        ¬ (SelfTest.refusedOnce 50).SellsOnly Host.ofEight 8 := by
  have horders : ((SelfTest.refusedOnce 50).sellStage Host.ofEight).orders = [8, 58] := by
    decide +kernel
  refine ⟨accounts_refusedOnce (by norm_num), horders, fun hsells => ?_⟩
  have hsold := hsells 1 58 (by rw [horders]; rfl)
  exact absurd hsold (by decide +kernel)

end Polymaker
