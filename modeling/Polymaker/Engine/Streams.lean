import Polymaker.MarketData.SortedBook
import Polymaker.UserStream.Client

/-!
# Bad messages on the two streams

A frame of either stream is a message or a batch of messages.  An exception that leaves the handler
closes the socket, and with it goes what the batch still held.

* `HandlesAlone`: a frame does not raise, and leads where its messages lead in frames of their own;
* `handlesAlone_iff`: the case of a handler that raises on some messages in some states;
* `streams_handle_alone_iff`: both streams handle a frame so exactly when it decodes, or is refused,
  and no message of it raises in the state in which it arrives;
* `market_handles_alone_iff`: where no price is no number, that is up to the frame alone;
* `lost_after_bad_message`: what follows the first such message of a batch has no effect.
-/

namespace Polymaker

open JsonTree Raising

section Handler

variable {σ : Type*} {F : Type}

/-- The frame is handled without raising, and every message of it has the effect it has in a frame
of its own. -/
def HandlesAlone (handle : σ → Loaded F → σ × Option Exc) (s : σ) (raw : Loaded F) : Prop :=
  (handle s raw).2 = none ∧
    (handle s raw).1 = Run.run (fun s msg => (handle s (.ok (.obj msg))).1) s raw.objects

/-- `json.loads` raises something else than what the handlers name. -/
abbrev LoadEscapes (raw : Loaded F) : Prop := Escapes [.decode, .type] raw

theorem handlesAlone_iff {dispatch : σ → Message F → σ × Option Exc} {bad : σ → Message F → Prop}
    (hbad : ∀ s msg, (dispatch s msg).2.isSome ↔ bad s msg) (s : σ) (raw : Loaded F) :
    HandlesAlone (handleLoaded dispatch) s raw ↔ ¬ LoadEscapes raw ∧
      Run.EachStep (fun s msg => (dispatch s msg).1) (fun s msg => ¬ bad s msg) s raw.objects := by
  cases raw with
  | ok data =>
    refine (isolated_iff hbad s (objects data)).trans ?_
    rw [and_iff_right (not_escapes_ok data)]
    rfl
  | error e =>
    have hnil : Loaded.objects (.error e : Loaded F) = [] := rfl
    have hhandle : handleLoaded dispatch s (.error e) =
        if e ∈ [Exc.decode, .type] then (s, none) else (s, some e) := by
      unfold handleLoaded tryExcept
      by_cases he : e ∈ [Exc.decode, .type] <;> simp only [he, if_true, if_false]
    unfold HandlesAlone LoadEscapes
    rw [hnil, escapes_error, not_not, hhandle]
    split_ifs with he <;> simp [he]

end Handler

section Streams

variable {F : Type} [HostFloat F] {σ τ : Type*} (H : Host F) {D : SortedDict F}
  (marketHooks : MarketHooks σ F) (userHooks : UserHooks τ F) (now : F)

open MarketDataService in
/-- **When a bad message takes down no stream.**  In every state, whatever the frame is, whatever
floats and sorted dictionaries the host has and whatever listens downstream, each stream handles the
messages of the frame as if each had come alone, exactly when `json.loads` raises nothing that the
handlers do not name, and no message raises in the state in which it arrives: on the market stream
its parser does not, and no change of it removes a level that its book has lost track of; on the
user stream its parser does not. -/
theorem streams_handle_alone_iff (s : MarketDataService σ (SortedBook D)) (t : τ)
    (raw : Loaded F) :
    (HandlesAlone (MarketDataService.handle H marketHooks now) s raw ↔ ¬ LoadEscapes raw ∧
        Run.EachStep (fun s msg => (MarketDataService.dispatch H marketHooks now s msg).1)
          (fun s msg => ¬ MessageBreaks H now s msg) s raw.objects) ∧
      (HandlesAlone (UserStream.handle H userHooks) t raw ↔ ¬ LoadEscapes raw ∧
        ∀ msg ∈ raw.objects, ¬ UserStream.UserMessageRaises H userHooks msg) := by
  refine ⟨handlesAlone_iff isSome_dispatch_iff_breaks s raw, ?_⟩
  refine (handlesAlone_iff UserStream.isSome_dispatch t raw).trans ?_
  rw [Run.eachStep_const_iff]

open MarketDataService in
/-- Where no price of the books and of the frame is no number, and the dictionaries keep their
promise, the market stream raises on a frame exactly where `json.loads` or a parser does. -/
theorem market_handles_alone_iff (hD : D.Lawful) {s : MarketDataService σ (SortedBook D)}
    (hs : s.OrderedBooks) {raw : Loaded F} (hraw : ∀ msg ∈ raw.objects, OrderedLevels H msg) :
    HandlesAlone (MarketDataService.handle H marketHooks now) s raw ↔ ¬ LoadEscapes raw ∧
      ∀ msg ∈ raw.objects, ¬ MarketMessageRaises H msg := by
  refine (handlesAlone_iff isSome_dispatch_iff_breaks s raw).trans (and_congr_right fun _ => ?_)
  refine (Run.eachStep_iff_of_valid (V := fun _ msg => OrderedLevels H msg)
    (fun s msg hs hmsg => hs.dispatch hD hmsg)
    (fun s msg hs hmsg => not_congr (hs.messageBreaks_iff hD hmsg)) hs
    (Run.eachStep_const_iff.2 hraw)).trans ?_
  exact Run.eachStep_const_iff

variable {H userHooks}

/-- What follows the first bad message of a batch has no effect: a fill in it is not booked. -/
theorem lost_after_bad_message {pre : List (Message F)} {msg : Message F} {data : JsonTree F}
    {post : List (Message F)} (hdata : objects data = pre ++ msg :: post)
    (hpre : ∀ m ∈ pre, ¬ UserStream.UserMessageRaises H userHooks m)
    (hmsg : UserStream.UserMessageRaises H userHooks msg) (t : τ) :
    UserStream.handle H userHooks t (.ok data) =
      UserStream.dispatch H userHooks
        (Run.run (fun t m => (UserStream.dispatch H userHooks t m).1) t pre) msg := by
  change runAll _ t (objects data) = _
  rw [hdata]
  exact runAll_of_first_bad UserStream.isSome_dispatch (Run.eachStep_const_iff.2 hpre) hmsg post

end Streams

/-! ### Frames that break off -/

/-- A host that reads no number from a text but that which stands for none. -/
def Host.readingNan : Host ExtFloat :=
  ⟨fun s => if s = "nan" then some .nan else none, fun _ => "?"⟩

/-- A host that reads no number from a text. -/
def Host.ofNumbers : Host := ⟨fun _ => none, fun _ => "?"⟩

/-- Listeners that note what is dirty. -/
def MarketHooks.noting (F : Type) : MarketHooks (List (ConditionId × TokenId)) F where
  journal := none
  onDirty cond token l := l ++ [(cond, token)]
  onTrade _ l := l
  setOrder l := l
  setOrder_perm l := .refl l

/-- A snapshot of a book with one bid. -/
def oneBid {F : Type} [HostFloat F] : Message F :=
  [("event_type", .str "book"), ("asset_id", .str "yes"),
    ("bids", .arr [.obj [("price", .float (HostFloat.ofRat (1 / 2))), ("size", .int 10)]]),
    ("asks", .arr [])]

/-- A change of one bid. -/
def changeBid (price size : JsonTree ExtFloat) : Message ExtFloat :=
  [("event_type", .str "price_change"),
    ("price_changes", .arr [.obj [("asset_id", .str "yes"), ("side", .str "BUY"),
      ("price", price), ("size", size)]])]

/-- A change whose list is a number. -/
def changesFive : Message ExtFloat :=
  [("event_type", .str "price_change"), ("price_changes", .int 5)]

/-- A fill of ours. -/
def oneFill : Message :=
  [("event_type", .str "trade"), ("status", .str "MATCHED"), ("asset_id", .str "yes"),
    ("side", .str "SELL"), ("outcome", .str "Yes"), ("id", .str "t"),
    ("maker_orders", .arr [.obj [("maker_address", .str "0xme"), ("outcome", .str "Yes"),
      ("matched_amount", .float 50), ("price", .float (1 / 2))]])]

/-- A trade whose only maker order is `null`. -/
def makerNull : Message :=
  [("event_type", .str "trade"), ("status", .str "MATCHED"), ("maker_orders", .arr [.null])]

/-- A stream with one market. -/
def oneMarket : MarketDataService (List (ConditionId × TokenId))
    (SortedBook (SortedDict.bisected ExtFloat)) :=
  ⟨Dict.empty.set "yes" (.new (.fin (1 / 100))), Dict.empty.set "yes" "c", []⟩

/-- A list of changes that is a number takes the snapshot behind it down; after a bid at no number
and one at 0.3 the removal of the bid at 0.5 raises, and so does a text that decodes with an
exception of its own; and a maker order that is `null` takes the fill behind it down. -/
theorem not_streams_handle_alone :
    let market := MarketDataService.handle Host.readingNan (.noting ExtFloat) (.fin 0)
    let user := UserStream.handle Host.ofNumbers (.ofProcessor "0xme" (fun _ => none) 0)
    let books : Loaded ExtFloat := .ok (.arr [.obj changesFive, .obj oneBid])
    let nan : Loaded ExtFloat := .ok (.arr [.obj oneBid, .obj (changeBid (.str "nan") (.int 1)),
      .obj (changeBid (.float (.fin (3 / 10))) (.int 1)),
      .obj (changeBid (.float (.fin (1 / 2))) (.int 0))])
    let trades : Loaded := .ok (.arr [.obj makerNull, .obj oneFill])
    ((market oneMarket books).2 = some .type ∧ (market oneMarket books).1.downstream = [] ∧
        (market oneMarket (.ok (.obj oneBid))).1.downstream = [("c", "yes")] ∧
          ¬ HandlesAlone market oneMarket books) ∧
      ((market oneMarket nan).2 = some .value ∧ ¬ HandlesAlone market oneMarket nan) ∧
      (∀ e ∈ [Exc.value, .recursion], (market oneMarket (.error e)).2 = some e) ∧
      (user (.start .fresh) trades).2 = some .attribute ∧
        (user (.start .fresh) trades).1.store.position "yes" = .flat ∧
          ((user (.start .fresh) (.ok (.obj oneFill))).1.store.position "yes").size = 50 ∧
            ¬ HandlesAlone user (.start .fresh) trades := by
  intro market user books nan trades
  have hmarket : (market oneMarket books).2 = some .type := by decide +kernel
  have hnan : (market oneMarket nan).2 = some .value := by decide +kernel
  have huser : (user (.start .fresh) trades).2 = some .attribute := by decide +kernel
  have hraises : ∀ e ∈ [Exc.value, .recursion], (market oneMarket (.error e)).2 = some e := by
    intro e he
    fin_cases he <;> rfl
  refine ⟨⟨hmarket, by decide +kernel, by decide +kernel, fun h => ?_⟩, ⟨hnan, fun h => ?_⟩,
    hraises, huser, by decide +kernel, by decide +kernel, fun h => ?_⟩
  · have hnone := h.1
    rw [hmarket] at hnone
    exact absurd hnone (by simp)
  · have hnone := h.1
    rw [hnan] at hnone
    exact absurd hnone (by simp)
  · have hnone := h.1
    rw [huser] at hnone
    exact absurd hnone (by simp)

end Polymaker
