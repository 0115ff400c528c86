import Polymaker.State.Tracker

/-!
# Parsing user-stream frames

`normalize_trade` of `userstream/parse.py`, over a frame whose fields were read as the source reads
them: `str(…)` where it calls `str`, `none` where a field is missing or a number does not parse.
Case mapping is that of the ASCII letters, in which statuses, sides and addresses are written.

* `TradeFrame`, `MakerOrder`: a `trade` message;
* `makerEvent`: the event of one maker order, `none` when it is not ours or not usable;
* `normalizeTrade`: the events of a frame, one for each of our maker orders in it;
* `tradeKey`: the trade id of an event.  It depends on the length of the frame's list and on the
  place of our order in it.
-/

namespace Polymaker

/-- An entry of `maker_orders`. -/
structure MakerOrder where
  makerAddress : String
  outcome : Option String
  matchedAmount : Option ℚ
  price : Option ℚ
  deriving DecidableEq, Repr

/-- A `trade` message. -/
structure TradeFrame where
  status : String
  assetId : TokenId
  side : String
  outcome : Option String
  timestamp : Option ℚ
  id : String
  makerOrders : List MakerOrder
  deriving DecidableEq, Repr

/-- The characters of `s.lower()`. -/
def lower (s : String) : List Char := s.toList.map Char.toLower

/-- The characters of `s.upper()`. -/
def upper (s : String) : List Char := s.toList.map Char.toUpper

/-- `_STATUS`, looked up in upper case. -/
def parseStatus (raw : String) : Option TradeState :=
  if upper raw = "MATCHED".toList then some .matched
  else if upper raw = "MINED".toList then some .mined
  else if upper raw = "CONFIRMED".toList then some .confirmed
  else if upper raw = "RETRYING".toList then some .retrying
  else if upper raw = "FAILED".toList then some .failed
  else none

/-- `_side`: anything but `SELL` is a purchase. -/
def parseSide (raw : String) : Side := if upper raw = "SELL".toList then .sell else .buy

/-- `_ts`: milliseconds above `1e12`, seconds below, zero when it does not parse. -/
def parseTs (raw : Option ℚ) : ℚ :=
  match raw with
  | none => 0
  | some v => if 1000000000000 < v then v / 1000 else v

/-- The place of a maker order in its frame, when the frame lists more than one. -/
abbrev Slot := Option ℕ

/-- The slot of the `i`-th of `n` maker orders. -/
def slotOf (n i : ℕ) : Slot := if 1 < n then some i else none

/-- The trade id of an event: the frame's, with the place of the order when it has a slot. -/
def tradeKey (id : String) : Slot → TradeId
  | none => id
  | some i => id ++ ":" ++ toString i

/-- The token our side of the match is on, and our side. -/
def ourLeg (msg : TradeFrame) (otherToken : TokenId → Option TokenId) (mo : MakerOrder) :
    TokenId × Side :=
  if mo.outcome = msg.outcome then (msg.assetId, (parseSide msg.side).opposite)
  else
    let token := match otherToken msg.assetId with
      | some t => if t = "" then msg.assetId else t
      | none => msg.assetId
    (token, parseSide msg.side)

/-- The body of the loop over `maker_orders`. -/
def makerEvent (msg : TradeFrame) (status : TradeState) (ourAddress : String)
    (otherToken : TokenId → Option TokenId) (i : ℕ) (mo : MakerOrder) : Option TradeEvent :=
  if lower mo.makerAddress ≠ lower ourAddress then none
  else
    match mo.matchedAmount, mo.price with
    | some size, some price =>
      if size ≤ 0 then none
      else
        some
          { tokenId := (ourLeg msg otherToken mo).1
            ourSide := (ourLeg msg otherToken mo).2
            price
            size
            tradeId := tradeKey msg.id (slotOf msg.makerOrders.length i)
            status
            ts := parseTs msg.timestamp }
    | _, _ => none

/-- `normalize_trade`. -/
def normalizeTrade (msg : TradeFrame) (ourAddress : String)
    (otherToken : TokenId → Option TokenId) : List TradeEvent :=
  match parseStatus msg.status with
  | none => []
  | some status =>
    msg.makerOrders.zipIdx.filterMap fun mi => makerEvent msg status ourAddress otherToken mi.2 mi.1

/-- `UserStream._on_trade`: the events of a frame, one after the other. -/
def onTradeFrame (p : UserEventProcessor) (msg : TradeFrame) (ourAddress : String)
    (otherToken : TokenId → Option TokenId) (now : ℚ) : UserEventProcessor :=
  (normalizeTrade msg ourAddress otherToken).foldl (fun p ev => (p.onTrade ev now).1) p

/-! ### Keys -/

theorem toString_nat_injective {i j : ℕ} (h : toString i = toString j) : i = j := by
  have hd : Nat.toDigits 10 i = Nat.toDigits 10 j := by
    rw [← Nat.toList_repr, ← Nat.toList_repr]
    exact congrArg String.toList h
  rw [← Nat.ofDigitChars_ten_toDigits (n := i), hd, Nat.ofDigitChars_ten_toDigits]

/-- Within one trade, events of different slots have different keys. -/
theorem tradeKey_inj {id : String} {σ τ : Slot} : tradeKey id σ = tradeKey id τ ↔ σ = τ := by
  have hne : ∀ i : ℕ, id ≠ id ++ ":" ++ toString i := by
    intro i h
    have hlen := congrArg String.length h
    simp only [String.length_append] at hlen
    have hcolon : ":".length = 1 := rfl
    omega
  constructor
  · intro h
    cases σ with
    | none =>
      cases τ with
      | none => rfl
      | some j => exact absurd h (hne j)
    | some i =>
      cases τ with
      | none => exact absurd h.symm (hne i)
      | some j =>
        have hdigits : id ++ ":" ++ toString i = id ++ ":" ++ toString j := h
        rw [String.append_assoc, String.append_assoc, String.append_right_inj,
          String.append_right_inj] at hdigits
        rw [toString_nat_injective hdigits]
  · rintro rfl
    rfl

/-! ### Our maker orders -/

/-- A maker order of ours with a positive amount and a price that parse. -/
def Ours (ourAddress : String) (mo : MakerOrder) : Prop :=
  lower mo.makerAddress = lower ourAddress ∧ mo.price.isSome ∧
    ∃ size ∈ mo.matchedAmount, 0 < size

instance (ourAddress : String) (mo : MakerOrder) : Decidable (Ours ourAddress mo) :=
  inferInstanceAs (Decidable (_ ∧ _ ∧ ∃ size ∈ mo.matchedAmount, 0 < size))

/-- An event is emitted exactly for the maker orders that are ours. -/
theorem makerEvent_isSome_iff {msg : TradeFrame} {status : TradeState} {ourAddress : String}
    {otherToken : TokenId → Option TokenId} {i : ℕ} {mo : MakerOrder} :
    (makerEvent msg status ourAddress otherToken i mo).isSome ↔ Ours ourAddress mo := by
  unfold makerEvent Ours
  cases mo.matchedAmount <;> cases mo.price <;> simp
  split_ifs <;> simp_all

/-- What an emitted event says. -/
theorem makerEvent_eq_some {msg : TradeFrame} {status : TradeState} {ourAddress : String}
    {otherToken : TokenId → Option TokenId} {i : ℕ} {mo : MakerOrder} {ev : TradeEvent}
    (h : makerEvent msg status ourAddress otherToken i mo = some ev) :
    some ev.size = mo.matchedAmount ∧ some ev.price = mo.price ∧
      (ev.tokenId, ev.ourSide) = ourLeg msg otherToken mo ∧ ev.status = status ∧
      ev.tradeId = tradeKey msg.id (slotOf msg.makerOrders.length i) := by
  unfold makerEvent at h
  cases hs : mo.matchedAmount <;> cases hp : mo.price <;> simp only [hs, hp] at h
  all_goals split_ifs at h
  obtain rfl := Option.some.inj h
  exact ⟨rfl, rfl, rfl, rfl, rfl⟩

end Polymaker
