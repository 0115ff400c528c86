import Polymaker.Lib.Dict
import Polymaker.MarketData.BookUpdates
import Polymaker.MarketData.Wire

/-!
# The market stream

`MarketDataService._handle` of `marketdata/service.py`: the messages of a batch, dispatched one
after the other.  What listens downstream is any state and any functions on it that do not raise.

* `BookOps`: what the service does with the book of a token; a change of a level may raise;
* `MarketHooks`, `MarketDataService`: the listeners, and the books with the state of the listeners;
* `onBook`, `onPriceChange`, `onLastTrade`, `onTickChange`, `dispatch`: the service on a message;
* `handleLoaded`, `handle`: a frame, from what `json.loads` gives;
* `MarketMessageRaises`, `ChangeStuck`, `DispatchRaises`: a message on which a parser raises, a
  change on which the book does, and a message on which the service does, in the state in which it
  arrives; `isSome_dispatch`: it raises on these and on no others.
-/

namespace Polymaker

open JsonTree Raising

/-- `OrderBook`, as far as the service uses it: a new tick, a snapshot and a change of one level. -/
class BookOps (F : outParam Type) (B : Type) where
  setTickSize : B → F → B
  applySnapshot : B → List (F × F) → List (F × F) → F → Option String → F → B
  applyDelta : B → Side → F → F → F → F → Except Exc B

/-- Over the rationals no change raises. -/
instance : BookOps ℚ LiveBook where
  setTickSize := LiveBook.setTickSize
  applySnapshot := LiveBook.applySnapshot
  applyDelta b side price size ts now := .ok (b.applyDelta side price size ts now)

/-- What the service calls: the journal, if there is one, the listener for changed books, the one
for prints, and the order in which a set of tokens is gone through. -/
structure MarketHooks (σ : Type*) (F : Type := ℚ) where
  journal : Option (String → Message F → F → σ → σ)
  onDirty : ConditionId → TokenId → σ → σ
  onTrade : TradePrint F → σ → σ
  setOrder : List TokenId → List TokenId
  setOrder_perm : ∀ l, (setOrder l).Perm l

/-- The service: its books, the market of each token, and the state of what listens. -/
structure MarketDataService (σ : Type*) (B : Type := LiveBook) where
  books : Dict TokenId B
  tokenCondition : Dict TokenId ConditionId
  downstream : σ

section Frame

variable {F : Type} {σ : Type*}

/-- `msg.get("event_type")`, empty where it is no string. -/
def eventType (msg : Message F) : String :=
  match getMember msg "event_type" with
  | .str s => s
  | _ => ""

/-- The hash a book keeps; one that is no string is kept as its text. -/
def hashOf (H : Host F) : JsonTree F → Option String
  | .null => none
  | x => some (H.str x)

/-- `_handle` of either stream: a text that does not decode is passed over, and the objects of one
that does are handled one after the other. -/
def handleLoaded (dispatch : σ → Message F → σ × Option Exc) (s : σ) (raw : Loaded F) :
    σ × Option Exc :=
  match tryExcept [.decode, .type] raw with
  | .ok (some data) => runAll dispatch s (objects data)
  | .ok none => (s, none)
  | .error e => (s, some e)

end Frame

namespace MarketDataService

variable {σ : Type*} {F B : Type}

section Service

variable (H : Host F) (hooks : MarketHooks σ F) (now : F)

/-- `_wake`: the market of a token is told, if it has one. -/
def wake (s : MarketDataService σ B) (token : TokenId) : MarketDataService σ B :=
  match s.tokenCondition.get? token with
  | some cond =>
    if cond = "" then s else { s with downstream := hooks.onDirty cond token s.downstream }
  | none => s

/-- `_journal_write`. -/
def journalWrite (kind : String) (payload : Message F) (ts : F) (s : MarketDataService σ B) :
    MarketDataService σ B :=
  match hooks.journal with
  | some write => { s with downstream := write kind payload ts s.downstream }
  | none => s

variable [HostFloat F] [BookOps F B]

/-- The book after a snapshot: a tick size of zero is none. -/
def snapshot (upd : BookUpdate F) (book : B) : B :=
  let book := match upd.tickSize with
    | some tick => if HostFloat.eq tick (HostFloat.ofRat 0) then book
      else BookOps.setTickSize book tick
    | none => book
  BookOps.applySnapshot book upd.bids upd.asks upd.ts (hashOf H upd.bookHash) now

/-- `_on_book`. -/
def onBook (s : MarketDataService σ B) (msg : Message F) : MarketDataService σ B × Option Exc :=
  into s (parseBook H msg) fun
    | none => s
    | some upd =>
      match s.books.get? upd.assetId with
      | none => s
      | some book =>
        let s := { s with books := s.books.set upd.assetId (snapshot H now upd book) }
        (journalWrite hooks "book" msg upd.ts s).wake hooks upd.assetId

/-- The books after one change; a token without a book is skipped. -/
def applyChange (s : MarketDataService σ B) (ch : PriceChange F) :
    MarketDataService σ B × Option Exc :=
  match s.books.get? ch.assetId with
  | some book =>
    into s (BookOps.applyDelta book ch.side ch.price ch.size ch.ts now) fun book =>
      { s with books := s.books.set ch.assetId book }
  | none => (s, none)

/-- The tokens that some changes touch, each once. -/
def touched (books : Dict TokenId B) (changes : List (PriceChange F)) : List TokenId :=
  ((changes.map PriceChange.assetId).filter fun token => (books.get? token).isSome).dedup

/-- The rest of `_on_price_change`, once the changes are applied. -/
def tellChanges (msg : Message F) (changes : List (PriceChange F)) (touched : List TokenId)
    (s : MarketDataService σ B) : MarketDataService σ B :=
  let s' := match changes with
    | ch :: _ => journalWrite hooks "price_change" msg ch.ts s
    | [] => s
  (hooks.setOrder touched).foldl (fun s token => s.wake hooks token) s'

/-- `_on_price_change`: a change that raises leaves those before it applied, and nobody told. -/
def onPriceChange (s : MarketDataService σ B) (msg : Message F) :
    MarketDataService σ B × Option Exc :=
  match parsePriceChanges H msg with
  | .ok changes =>
    andThen (runAll (applyChange now) s changes) fun s' =>
      (tellChanges hooks msg changes (touched s.books changes) s', none)
  | .error e => (s, some e)

/-- `_on_last_trade`. -/
def onLastTrade (s : MarketDataService σ B) (msg : Message F) :
    MarketDataService σ B × Option Exc :=
  into s (parseLastTrade H msg) fun
    | none => s
    | some tp =>
      match s.books.get? tp.assetId with
      | none => s
      | some _ =>
        let s := journalWrite hooks "last_trade_price" msg tp.ts s
        { s with downstream := hooks.onTrade tp s.downstream }

/-- `_on_tick_change`. -/
def onTickChange (s : MarketDataService σ B) (msg : Message F) :
    MarketDataService σ B × Option Exc :=
  into s (parseTickSizeChange H msg) fun
    | none => s
    | some tc =>
      match s.books.get? tc.assetId with
      | none => s
      | some book =>
        { s with books := s.books.set tc.assetId (BookOps.setTickSize book tc.tickSize) }

/-- `_dispatch`. -/
def dispatch (s : MarketDataService σ B) (msg : Message F) : MarketDataService σ B × Option Exc :=
  if eventType msg = "book" then s.onBook H hooks now msg
  else if eventType msg = "price_change" then s.onPriceChange H hooks now msg
  else if eventType msg = "last_trade_price" then s.onLastTrade H hooks msg
  else if eventType msg = "tick_size_change" then s.onTickChange H msg
  else (s, none)

/-- `_handle`. -/
def handle (s : MarketDataService σ B) (raw : Loaded F) : MarketDataService σ B × Option Exc :=
  handleLoaded (dispatch H hooks now) s raw

end Service

/-! ### What telling leaves -/

section Tell

variable {hooks : MarketHooks σ F}

@[simp] theorem wake_books (s : MarketDataService σ B) (token : TokenId) :
    (s.wake hooks token).books = s.books := by
  unfold wake
  split
  · split_ifs <;> rfl
  · rfl

@[simp] theorem wake_tokenCondition (s : MarketDataService σ B) (token : TokenId) :
    (s.wake hooks token).tokenCondition = s.tokenCondition := by
  unfold wake
  split
  · split_ifs <;> rfl
  · rfl

@[simp] theorem journalWrite_books (kind : String) (msg : Message F) (ts : F)
    (s : MarketDataService σ B) : (journalWrite hooks kind msg ts s).books = s.books := by
  unfold journalWrite
  split <;> rfl

@[simp] theorem journalWrite_tokenCondition (kind : String) (msg : Message F) (ts : F)
    (s : MarketDataService σ B) :
    (journalWrite hooks kind msg ts s).tokenCondition = s.tokenCondition := by
  unfold journalWrite
  split <;> rfl

theorem foldl_wake_books (tokens : List TokenId) (s : MarketDataService σ B) :
    (tokens.foldl (fun s token => s.wake hooks token) s).books = s.books := by
  induction tokens generalizing s with
  | nil => rfl
  | cons token tokens ih => rw [List.foldl_cons, ih, wake_books]

theorem tellChanges_books (msg : Message F) (changes : List (PriceChange F)) (tokens : List TokenId)
    (s : MarketDataService σ B) :
    (tellChanges hooks msg changes tokens s).books = s.books := by
  unfold tellChanges
  rw [foldl_wake_books]
  cases changes with
  | nil => rfl
  | cons ch changes => exact journalWrite_books _ _ _ _

end Tell

/-! ### The messages on which it raises -/

section Raise

variable [BookOps F B] (H : Host F) (now : F)

/-- A change on which the book of its token raises. -/
def ChangeStuck (s : MarketDataService σ B) (ch : PriceChange F) : Prop :=
  ∃ book ∈ s.books.get? ch.assetId,
    Raises (BookOps.applyDelta book ch.side ch.price ch.size ch.ts now)

theorem isSome_applyChange {now : F} (s : MarketDataService σ B) (ch : PriceChange F) :
    (applyChange now s ch).2.isSome ↔ ChangeStuck now s ch := by
  unfold applyChange ChangeStuck
  cases s.books.get? ch.assetId with
  | none => simp
  | some book => simp [isSome_into]

variable [HostFloat F]

/-- A message on which a parser raises. -/
def MarketMessageRaises (msg : Message F) : Prop :=
  (eventType msg = "book" ∧ BookRaises H msg) ∨
    (eventType msg = "price_change" ∧ PriceChangeRaises H msg) ∨
      (eventType msg = "last_trade_price" ∧ LastTradeRaises H msg) ∨
        (eventType msg = "tick_size_change" ∧ TickSizeChangeRaises msg)

/-- A message on which the service raises in this state: a parser does, or a book does on a change,
those before it being applied. -/
def DispatchRaises (s : MarketDataService σ B) (msg : Message F) : Prop :=
  MarketMessageRaises H msg ∨ eventType msg = "price_change" ∧
    ∃ changes, parsePriceChanges H msg = .ok changes ∧
      ¬ Run.EachStep (fun s ch => (applyChange now s ch).1) (fun s ch => ¬ ChangeStuck now s ch) s
        changes

variable {H now} {hooks : MarketHooks σ F}

theorem isSome_onPriceChange (s : MarketDataService σ B) (msg : Message F) :
    (s.onPriceChange H hooks now msg).2.isSome ↔ PriceChangeRaises H msg ∨
      ∃ changes, parsePriceChanges H msg = .ok changes ∧
        ¬ Run.EachStep (fun s ch => (applyChange now s ch).1) (fun s ch => ¬ ChangeStuck now s ch) s
          changes := by
  unfold onPriceChange
  rw [← raises_parsePriceChanges]
  cases parsePriceChanges H msg with
  | error e => simp
  | ok changes =>
    simp only [isSome_andThen, isSome_runAll isSome_applyChange, Option.isSome_none,
      Bool.false_eq_true, false_and, or_false, not_escapes_ok, Except.ok.injEq, exists_eq_left',
      false_or]

/-- The service raises on these messages and on no others. -/
theorem isSome_dispatch (s : MarketDataService σ B) (msg : Message F) :
    (dispatch H hooks now s msg).2.isSome ↔ DispatchRaises H now s msg := by
  unfold dispatch DispatchRaises MarketMessageRaises
  split_ifs with hbook hchange htrade htick
  · rw [onBook, isSome_into, raises_parseBook, hbook]
    simp
  · rw [isSome_onPriceChange, hchange]
    simp
  · rw [onLastTrade, isSome_into, raises_parseLastTrade, htrade]
    simp
  · rw [onTickChange, isSome_into, raises_parseTickSizeChange, htick]
    simp
  · simp [hbook, hchange, htrade, htick]

end Raise

end MarketDataService

end Polymaker
