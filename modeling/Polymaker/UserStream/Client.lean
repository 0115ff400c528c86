import Polymaker.MarketData.Service
import Polymaker.UserStream.Wire

/-!
# The user stream

`UserStream._handle` of `userstream/client.py`: the messages of a batch, one after the other.  What
is fed is any state, with functions on it that do not raise.

* `UserHooks`: our address, the maps between tokens and markets, the journal and the processor;
* `UserStream.onTrade`, `UserStream.onOrder`, `dispatch`, `handle`: the stream;
* `UserMessageRaises`, `isSome_dispatch`: the messages on which it raises;
* `UserHooks.ofProcessor`, `onTrade_of_reads`: fed to the processor of the store, a message with the
  fields of a frame has the effect of the frame.
-/

namespace Polymaker

open JsonTree Raising

/-- What the stream is built with. -/
structure UserHooks (σ : Type*) (F : Type := ℚ) where
  address : String
  otherToken : TokenId → Option TokenId
  conditionOfToken : TokenId → Option ConditionId
  journal : Option (String → Message F → F → σ → σ)
  onTrade : TradeEvent F → ConditionId → σ → σ
  onOrder : OrderEvent F → ConditionId → σ → σ

namespace UserStream

variable {σ : Type*} {F : Type} [HostFloat F] (H : Host F) (hooks : UserHooks σ F)

/-- The market of an event: that of its token, else the one the message names. -/
def conditionOf (msg : Message F) (token : TokenId) : ConditionId :=
  match hooks.conditionOfToken token with
  | some cond => if cond = "" then strMember H msg "market" "" else cond
  | none => strMember H msg "market" ""

/-- `_journal_write`: the timestamp is read again, outside of what is handled. -/
def journalWrite (kind : String) (s : σ) (payload : Message F) : σ × Option Exc :=
  match hooks.journal with
  | some write => into s (userTs H payload) fun ts => write kind payload ts s
  | none => (s, none)

/-- `_on_trade`. -/
def onTrade (s : σ) (msg : Message F) : σ × Option Exc :=
  andThen (journalWrite H hooks "user_trade" s msg) fun s =>
    into s (wireTrade H msg hooks.address hooks.otherToken) fun evs =>
      evs.foldl (fun s ev => hooks.onTrade ev (conditionOf H hooks msg ev.tokenId) s) s

/-- `_on_order`. -/
def onOrder (s : σ) (msg : Message F) : σ × Option Exc :=
  andThen (journalWrite H hooks "user_order" s msg) fun s =>
    into s (wireOrder H msg) fun
      | some ev => hooks.onOrder ev (conditionOf H hooks msg ev.tokenId) s
      | none => s

/-- The body of the loop of `_handle`. -/
def dispatch (s : σ) (msg : Message F) : σ × Option Exc :=
  if eventType msg = "trade" then onTrade H hooks s msg
  else if eventType msg = "order" then onOrder H hooks s msg
  else (s, none)

/-- `_handle`. -/
def handle (s : σ) (raw : Loaded F) : σ × Option Exc := handleLoaded (dispatch H hooks) s raw

/-- A message on which the stream raises. -/
def UserMessageRaises (msg : Message F) : Prop :=
  (eventType msg = "trade" ∧
    ((hooks.journal.isSome ∧ Huge (getMember msg "timestamp")) ∨ TradeRaises H hooks.address msg)) ∨
  (eventType msg = "order" ∧
    ((hooks.journal.isSome ∧ Huge (getMember msg "timestamp")) ∨ OrderRaises H msg))

variable {H hooks}

theorem isSome_journalWrite {kind : String} {s : σ} {msg : Message F} :
    (journalWrite H hooks kind s msg).2.isSome ↔
      hooks.journal.isSome ∧ Huge (getMember msg "timestamp") := by
  unfold journalWrite
  cases hooks.journal with
  | none => simp
  | some write =>
    simp only [isSome_into, userTs_eq_wireTs, raises_wireTs]
    simp

/-- The stream raises on these messages and on no others, whatever it feeds. -/
theorem isSome_dispatch (s : σ) (msg : Message F) :
    (dispatch H hooks s msg).2.isSome ↔ UserMessageRaises H hooks msg := by
  unfold dispatch UserMessageRaises
  split_ifs with htrade horder
  · rw [onTrade, isSome_andThen, isSome_into, raises_wireTrade, ← Option.not_isSome_iff_eq_none,
      isSome_journalWrite, htrade]
    simp only [true_and, String.reduceEq, false_and, or_false]
    tauto
  · rw [onOrder, isSome_andThen, isSome_into, raises_wireOrder, ← Option.not_isSome_iff_eq_none,
      isSome_journalWrite, horder]
    simp only [true_and, String.reduceEq, false_and, false_or]
    tauto
  · simp [htrade, horder]

end UserStream

/-! ### The processor -/

/-- A stream that feeds the processor of the store and keeps no journal, at one local time. -/
def UserHooks.ofProcessor (address : String) (otherToken : TokenId → Option TokenId) (now : ℚ) :
    UserHooks UserEventProcessor where
  address := address
  otherToken := otherToken
  conditionOfToken _ := none
  journal := none
  onTrade ev _ p := (p.onTrade ev now).1
  onOrder ev _ p := p.onOrder ev now

/-- **A message with the fields of a frame has the effect of the frame.** -/
theorem onTrade_of_reads {H : Host} {msg : Message} {fr : TradeFrame} (h : Reads H msg fr)
    (address : String) (otherToken : TokenId → Option TokenId) (now : ℚ) (p : UserEventProcessor) :
    UserStream.onTrade H (.ofProcessor address otherToken now) p msg =
      (onTradeFrame p fr address otherToken now, none) := by
  have htrade : wireTrade H msg address otherToken = .ok (normalizeTrade fr address otherToken) :=
    wireTrade_of_reads h
  change into p (wireTrade H msg address otherToken) _ = _
  rw [htrade]
  rfl

end Polymaker
