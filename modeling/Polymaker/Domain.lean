import Mathlib.Data.List.Infix
import Mathlib.Data.Rat.Defs
import Mathlib.Algebra.Order.Ring.Rat
import Mathlib.Tactic.Common

/-!
# Domain types

The types of `domain.py` that the modelled components speak.  Prices, sizes and times are exact
rationals.

* `Side`, `Regime`, `OrderState`, `TradeState`: the enumerations;
* `MarketMeta`: a market;
* `Position`, `OpenOrder`, `Fill`: live trading state.  A position does not repeat its token: it
  is always stored under it;
* `Quote`, `TargetQuotes`: what the strategy wants resting;
* `reverseId`: the trade id under which the reversal of a trade is recorded, and `IsReverse`, the
  ids of that form.
-/

namespace Polymaker

abbrev TokenId := String
abbrev TradeId := String
abbrev OrderId := String
abbrev ConditionId := String

/-- Order side. -/
inductive Side
  | buy
  | sell
  deriving DecidableEq, Repr

/-- The other side. -/
def Side.opposite : Side → Side
  | .buy => .sell
  | .sell => .buy

/-- Per-market quoting regime. -/
inductive Regime
  | quiet
  | trending
  | event
  | reduceOnly
  | halted
  deriving DecidableEq, Repr

/-- Lifecycle of one of our orders. -/
inductive OrderState
  | draft
  | posted
  | live
  | partiallyFilled
  | canceled
  | rejected
  | done
  deriving DecidableEq, Repr

/-- Lifecycle of an on-chain match. -/
inductive TradeState
  | matched
  | mined
  | confirmed
  | retrying
  | failed
  deriving DecidableEq, Repr

/-- What the components read of a market's metadata.  `endDate` is the timestamp of
`end_date_iso`, where it has one that parses. -/
structure MarketMeta where
  conditionId : ConditionId
  yes : TokenId
  no : TokenId
  tickSize : ℚ
  minOrderSize : ℚ
  rewardsMinSize : ℚ
  rewardsMaxSpread : ℚ
  endDate : Option ℚ
  eventId : Option String
  deriving DecidableEq, Repr

/-- The two tokens of a market. -/
def MarketMeta.tokens (m : MarketMeta) : List TokenId := [m.yes, m.no]

/-- Shares held of one token, at an average price. -/
@[ext] structure Position where
  size : ℚ
  avgPrice : ℚ
  deriving DecidableEq, Repr

/-- The position of a token we do not hold. -/
def Position.flat : Position := ⟨0, 0⟩

/-- One of our resting orders as we believe it exists; `size` is what remains of it. -/
structure OpenOrder where
  orderId : OrderId
  tokenId : TokenId
  side : Side
  price : ℚ
  size : ℚ
  state : OrderState
  createdTs : ℚ
  deriving DecidableEq, Repr

/-- `_EPS` of the quoter and of the reconciler. -/
def eps : ℚ := 1 / 10 ^ 9

theorem eps_pos : 0 < eps := by decide +kernel

theorem eps_lt_one : eps < 1 := by decide +kernel

/-- One intended resting order. -/
structure Quote where
  tokenId : TokenId
  side : Side
  price : ℚ
  size : ℚ
  deriving DecidableEq, Repr

/-- The full desired set of resting orders of a market. -/
structure TargetQuotes where
  conditionId : ConditionId
  regime : Regime
  quotes : List Quote
  deriving DecidableEq, Repr

/-- One match of ours. -/
structure Fill where
  tokenId : TokenId
  side : Side
  price : ℚ
  size : ℚ
  tradeId : TradeId
  ts : ℚ
  isMaker : Bool
  deriving DecidableEq, Repr

/-- The change of size a fill asks for. -/
def Fill.signed (f : Fill) : ℚ :=
  match f.side with
  | .buy => f.size
  | .sell => -f.size

/-- The change of cash a fill makes: a sale brings cash in, a purchase takes it out. -/
def Fill.cash (f : Fill) : ℚ :=
  f.price * f.size * match f.side with
    | .sell => 1
    | .buy => -1

/-! ### Reversal ids -/

/-- The id under which the reversal of a trade is recorded. -/
def reverseId (t : TradeId) : TradeId := t ++ ":reverse"

/-- The trade id ends in `:reverse`. -/
def IsReverse (t : TradeId) : Prop := ":reverse".toList <:+ t.toList

instance (t : TradeId) : Decidable (IsReverse t) :=
  inferInstanceAs (Decidable (":reverse".toList <:+ t.toList))

theorem isReverse_reverseId (t : TradeId) : IsReverse (reverseId t) := by
  unfold IsReverse reverseId
  rw [String.toList_append]
  exact List.suffix_append _ _

theorem reverseId_injective : Function.Injective reverseId := fun _ _ h =>
  (String.append_left_inj ":reverse").1 h

@[simp] theorem reverseId_inj {t u : TradeId} : reverseId t = reverseId u ↔ t = u :=
  reverseId_injective.eq_iff

theorem ne_reverseId {t : TradeId} (h : ¬ IsReverse t) (u : TradeId) : t ≠ reverseId u := by
  rintro rfl
  exact h (isReverse_reverseId u)

/-- The synthetic fill that undoes `f`: the opposite side, recorded under the reversal id. -/
def Fill.reversed (f : Fill) : Fill :=
  ⟨f.tokenId, f.side.opposite, f.price, f.size, reverseId f.tradeId, f.ts, true⟩

@[simp] theorem Fill.reversed_tokenId (f : Fill) : f.reversed.tokenId = f.tokenId := rfl

@[simp] theorem Fill.reversed_tradeId (f : Fill) : f.reversed.tradeId = reverseId f.tradeId := rfl

@[simp] theorem Fill.reversed_signed (f : Fill) : f.reversed.signed = -f.signed := by
  unfold Fill.reversed Fill.signed
  cases f.side <;> simp [Side.opposite]

@[simp] theorem Fill.reversed_cash (f : Fill) : f.reversed.cash = -f.cash := by
  unfold Fill.reversed Fill.cash
  cases f.side <;> simp [Side.opposite]

end Polymaker
