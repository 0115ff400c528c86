import Polymaker.Lib.SortedDict
import Polymaker.MarketData.Service

/-!
# Order books over sorted dictionaries

`OrderBook` of `marketdata/orderbook.py` as its updates are written, each side being a sorted
dictionary of the package, whatever floats come as prices.

* `SortedBook`: the book, and its updates as `BookOps`; a change raises exactly where the dictionary
  of its side does (`raises_applyDelta`);
* `SortedBook.live`: over the rationals and sides kept sorted, it is the live book;
* `Ordered`, `OrderedLevels`: a book, and a message, without a price that is no number;
* `MessageBreaks`, `isSome_dispatch_iff_breaks`, `messageBreaks_iff`: the messages on which the
  service raises over such books, and that only a parser does as long as no such price comes.
-/

namespace Polymaker

open JsonTree Raising

/-- `OrderBook`, with the dictionaries of the package. -/
structure SortedBook {F : Type} (D : SortedDict F) where
  bids : D.Carrier
  asks : D.Carrier
  tickSize : F
  lastUpdateTs : F
  localTs : F
  bookHash : Option String
  staleSnapshots : ℕ

namespace SortedBook

variable {F : Type} [HostFloat F] {D : SortedDict F}

/-- `__init__`. -/
def new (tickSize : F) : SortedBook D :=
  ⟨D.ofRows [], D.ofRows [], tickSize, HostFloat.ofRat 0, HostFloat.ofRat 0, none, 0⟩

/-- The rows of a snapshot that are kept. -/
def positiveRows (rows : List (F × F)) : List (F × F) :=
  rows.filter fun e => decide (HostFloat.lt (HostFloat.ofRat 0) e.2)

/-- `apply_snapshot`. -/
def applySnapshot (b : SortedBook D) (bids asks : List (F × F)) (ts : F) (hash : Option String)
    (now : F) : SortedBook D :=
  if HostFloat.lt (HostFloat.ofRat 0) ts ∧ HostFloat.lt (HostFloat.ofRat 0) b.lastUpdateTs ∧
      HostFloat.lt ts b.lastUpdateTs then
    { b with staleSnapshots := b.staleSnapshots + 1 }
  else
    { b with
      bids := D.ofRows (positiveRows bids)
      asks := D.ofRows (positiveRows asks)
      lastUpdateTs := ts
      localTs := now
      bookHash := hash }

/-- The side that a change is on. -/
def sideOf (b : SortedBook D) : Side → D.Carrier
  | .buy => b.bids
  | .sell => b.asks

/-- The book with another side. -/
def withSide (b : SortedBook D) (side : Side) (d : D.Carrier) : SortedBook D :=
  match side with
  | .buy => { b with bids := d }
  | .sell => { b with asks := d }

/-- The change of one level: a size of zero removes it. -/
def changeLevel (d : D.Carrier) (price size : F) : Except Exc D.Carrier :=
  if HostFloat.le size (HostFloat.ofRat 0) then
    match D.pop d price with
    | some d => .ok d
    | none => .error .value
  else .ok (D.set d price size)

/-- `apply_delta`. -/
def applyDelta (b : SortedBook D) (side : Side) (price size ts now : F) :
    Except Exc (SortedBook D) := do
  let d ← changeLevel (b.sideOf side) price size
  pure { b.withSide side d with lastUpdateTs := ts, localTs := now }

/-- `set_tick_size`. -/
def setTickSize (b : SortedBook D) (tickSize : F) : SortedBook D := { b with tickSize := tickSize }

instance : BookOps F (SortedBook D) where
  setTickSize := setTickSize
  applySnapshot := applySnapshot
  applyDelta := applyDelta

/-- The level is there, and the list of the keys does not find it. -/
def Stuck (b : SortedBook D) (side : Side) (price : F) : Prop := D.pop (b.sideOf side) price = none

/-- A change raises exactly where it removes a level that is stuck. -/
theorem raises_applyDelta {b : SortedBook D} {side : Side} {price size ts now : F} :
    Raises (b.applyDelta side price size ts now) ↔
      HostFloat.le size (HostFloat.ofRat 0) ∧ b.Stuck side price := by
  unfold applyDelta changeLevel Stuck
  split_ifs with hsize
  · cases D.pop (b.sideOf side) price <;> simp [hsize, bind, Except.bind]
  · simp [hsize, bind, Except.bind]

/-! ### Over the rationals -/

end SortedBook

/-- The dictionary of a side that is kept sorted. -/
def SortedDict.levels : SortedDict ℚ where
  Carrier := Levels
  ofRows rows := rows.foldl (fun l e => l.put e.1 e.2) Levels.empty
  set := Levels.put
  pop l p := some (l.pop p)

namespace SortedBook

/-- The live book. -/
def live (b : SortedBook SortedDict.levels) : LiveBook :=
  ⟨⟨b.bids, b.asks⟩, b.tickSize, b.lastUpdateTs, b.localTs, b.bookHash, b.staleSnapshots⟩

/-- **Over the rationals the book is the live book**, update by update, and no change raises. -/
theorem live_updates (b : SortedBook SortedDict.levels) :
    (∀ tick, (b.setTickSize tick).live = b.live.setTickSize tick) ∧
      (∀ bids asks ts hash now, (b.applySnapshot bids asks ts hash now).live =
        b.live.applySnapshot bids asks ts hash now) ∧
      ∀ side price size ts now,
        (b.applyDelta side price size ts now).map live =
          .ok (b.live.applyDelta side price size ts now) := by
  refine ⟨fun _ => rfl, fun bids asks ts hash now => ?_, fun side price size ts now => ?_⟩
  · unfold applySnapshot LiveBook.applySnapshot
    simp only [HostFloat.lt_rat, HostFloat.ofRat_rat]
    split_ifs with h h' h'
    · rfl
    · exact absurd h h'
    · exact absurd h' h
    · rfl
  · unfold applyDelta changeLevel LiveBook.applyDelta LiveBook.changeLevel
    simp only [HostFloat.le_rat, HostFloat.ofRat_rat]
    cases side <;> by_cases h : size ≤ 0
    all_goals
      simp only [h, if_true, if_false]
      rfl

end SortedBook

/-! ### Prices that are no number -/

namespace SortedBook

variable {F : Type} [HostFloat F] {D : SortedDict F}

/-- No price that ever came was no number. -/
structure Ordered (b : SortedBook D) : Prop where
  bids : D.Ordered b.bids
  asks : D.Ordered b.asks

theorem Ordered.sideOf {b : SortedBook D} (h : b.Ordered) (side : Side) :
    D.Ordered (b.sideOf side) := by
  cases side
  · exact h.bids
  · exact h.asks

theorem Ordered.not_stuck {b : SortedBook D} (h : b.Ordered) (hD : D.Lawful) (side : Side)
    (price : F) : ¬ b.Stuck side price := by
  intro hstuck
  have hsome := hD.pop _ (h.sideOf side) price
  rw [hstuck] at hsome
  exact absurd hsome (by simp)

theorem Ordered.applySnapshot {b : SortedBook D} (h : b.Ordered) {bids asks : List (F × F)}
    (hbids : ∀ r ∈ bids, ¬ HostFloat.IsNan r.1) (hasks : ∀ r ∈ asks, ¬ HostFloat.IsNan r.1)
    (ts : F) (hash : Option String) (now : F) :
    (b.applySnapshot bids asks ts hash now).Ordered := by
  unfold SortedBook.applySnapshot
  split_ifs
  · exact ⟨h.bids, h.asks⟩
  · exact ⟨.ofRows fun r hr => hbids r (List.mem_filter.1 hr).1,
      .ofRows fun r hr => hasks r (List.mem_filter.1 hr).1⟩

theorem Ordered.applyDelta {b b' : SortedBook D} (h : b.Ordered) {side : Side} {price : F}
    (hprice : ¬ HostFloat.IsNan price) {size ts now : F}
    (hb : b.applyDelta side price size ts now = .ok b') : b'.Ordered := by
  unfold SortedBook.applyDelta at hb
  obtain ⟨d, hd, rfl⟩ : ∃ d, changeLevel (b.sideOf side) price size = .ok d ∧
      b' = { b.withSide side d with lastUpdateTs := ts, localTs := now } := by
    cases hd : changeLevel (b.sideOf side) price size with
    | error e => rw [hd] at hb; cases hb
    | ok d => rw [hd] at hb; exact ⟨d, rfl, (Except.ok.inj hb).symm⟩
  have hside : D.Ordered d := by
    unfold changeLevel at hd
    split_ifs at hd
    · cases hpop : D.pop (b.sideOf side) price with
      | none => rw [hpop] at hd; cases hd
      | some d' =>
        rw [hpop] at hd
        obtain rfl := Except.ok.inj hd
        exact .pop (h.sideOf side) hpop
    · obtain rfl := Except.ok.inj hd
      exact .set (h.sideOf side) hprice size
  cases side
  · exact ⟨hside, h.asks⟩
  · exact ⟨h.bids, hside⟩

end SortedBook

namespace MarketDataService

variable {σ : Type*} {F : Type} [HostFloat F] {D : SortedDict F} {H : Host F}
  {hooks : MarketHooks σ F} {now : F} {s : MarketDataService σ (SortedBook D)} {msg : Message F}

/-- A change that removes a level which is stuck in its book. -/
def RemovesStuck (s : MarketDataService σ (SortedBook D)) (ch : PriceChange F) : Prop :=
  ∃ book ∈ s.books.get? ch.assetId,
    HostFloat.le ch.size (HostFloat.ofRat 0) ∧ book.Stuck ch.side ch.price

theorem changeStuck_iff {ch : PriceChange F} : ChangeStuck now s ch ↔ RemovesStuck s ch :=
  exists_congr fun _ => and_congr_right fun _ => SortedBook.raises_applyDelta

variable (H now) in
/-- A message on which a parser raises, or a change of which removes a level that is stuck, those
before it being applied. -/
def MessageBreaks (s : MarketDataService σ (SortedBook D)) (msg : Message F) : Prop :=
  MarketMessageRaises H msg ∨ eventType msg = "price_change" ∧
    ∃ changes, parsePriceChanges H msg = .ok changes ∧
      ¬ Run.EachStep (fun s ch => (applyChange now s ch).1) (fun s ch => ¬ RemovesStuck s ch) s
        changes

/-- The service with its books raises on these messages and on no others. -/
theorem isSome_dispatch_iff_breaks (s : MarketDataService σ (SortedBook D)) (msg : Message F) :
    (dispatch H hooks now s msg).2.isSome ↔ MessageBreaks H now s msg := by
  refine (isSome_dispatch s msg).trans ?_
  unfold DispatchRaises MessageBreaks
  simp only [changeStuck_iff]

/-- All its books are ordered. -/
def OrderedBooks (s : MarketDataService σ (SortedBook D)) : Prop :=
  ∀ token, ∀ book ∈ s.books.get? token, book.Ordered

variable (H) in
/-- A message none of whose prices of levels is no number. -/
structure OrderedLevels (msg : Message F) : Prop where
  book : ∀ upd, parseBook H msg = .ok (some upd) → ∀ r ∈ upd.bids ++ upd.asks, ¬ HostFloat.IsNan r.1
  changes : ∀ changes, parsePriceChanges H msg = .ok changes →
    ∀ ch ∈ changes, ¬ HostFloat.IsNan ch.price

theorem OrderedBooks.set (h : s.OrderedBooks) {token : TokenId} {book : SortedBook D}
    (hbook : book.Ordered) : OrderedBooks { s with books := s.books.set token book } := by
  intro t b hb
  rw [Dict.get?_set] at hb
  split_ifs at hb with heq
  · obtain rfl := Option.some.inj hb
    exact hbook
  · exact h t b hb

theorem OrderedBooks.applyChange (h : s.OrderedBooks) {ch : PriceChange F}
    (hch : ¬ HostFloat.IsNan ch.price) : OrderedBooks (applyChange now s ch).1 := by
  unfold MarketDataService.applyChange
  cases hget : s.books.get? ch.assetId with
  | none => exact h
  | some book =>
    cases hdelta : BookOps.applyDelta book ch.side ch.price ch.size ch.ts now with
    | error e =>
      simp only [hdelta]
      exact h
    | ok book' =>
      simp only [hdelta]
      exact h.set ((h _ book hget).applyDelta hch hdelta)

/-- With ordered books and prices that are numbers, no change of a message is stuck. -/
theorem OrderedBooks.eachStep (now : F) (hD : D.Lawful) (h : s.OrderedBooks)
    {changes : List (PriceChange F)} (hchanges : ∀ ch ∈ changes, ¬ HostFloat.IsNan ch.price) :
    Run.EachStep (fun s ch => (MarketDataService.applyChange now s ch).1)
        (fun s ch => ¬ RemovesStuck s ch) s changes ∧
      OrderedBooks
        (Run.run (fun s ch => (MarketDataService.applyChange now s ch).1) s changes) := by
  induction changes generalizing s with
  | nil => exact ⟨Run.eachStep_nil, h⟩
  | cons ch changes ih =>
    obtain ⟨hch, hchanges⟩ := List.forall_mem_cons.1 hchanges
    obtain ⟨hsteps, hend⟩ := ih (h.applyChange hch) hchanges
    refine ⟨Run.eachStep_cons.2 ⟨?_, hsteps⟩, hend⟩
    rintro ⟨book, hbook, -, hstuck⟩
    exact (h _ book hbook).not_stuck hD ch.side ch.price hstuck

/-- A message none of whose prices is no number leaves the books ordered. -/
theorem OrderedBooks.dispatch (hD : D.Lawful) (h : s.OrderedBooks) (hmsg : OrderedLevels H msg) :
    OrderedBooks (dispatch H hooks now s msg).1 := by
  unfold MarketDataService.dispatch
  split_ifs
  · unfold onBook
    cases hparse : parseBook H msg with
    | error e => exact h
    | ok upd =>
      cases upd with
      | none => exact h
      | some upd =>
        cases hget : s.books.get? upd.assetId with
        | none =>
          simp only [into, hget]
          exact h
        | some book =>
          simp only [into, hget]
          have hlevels := hmsg.book upd hparse
          have hsnap : (snapshot H now upd book).Ordered := by
            have hbook := h _ book hget
            refine SortedBook.Ordered.applySnapshot ?_
              (fun r hr => hlevels r (List.mem_append_left _ hr))
              (fun r hr => hlevels r (List.mem_append_right _ hr)) _ _ _
            split
            · split_ifs
              · exact hbook
              · exact ⟨hbook.bids, hbook.asks⟩
            · exact hbook
          intro t b hb
          rw [wake_books, journalWrite_books] at hb
          exact h.set hsnap t b hb
  · unfold onPriceChange
    cases hparse : parsePriceChanges H msg with
    | error e => exact h
    | ok changes =>
      obtain ⟨hsteps, hend⟩ := h.eachStep now hD (hmsg.changes changes hparse)
      have hfree : Run.EachStep (fun s ch => (MarketDataService.applyChange now s ch).1)
          (fun s (ch : PriceChange F) => ¬ ChangeStuck now s ch) s changes := by
        simpa only [changeStuck_iff] using hsteps
      have hall := runAll_append isSome_applyChange hfree []
      rw [List.append_nil] at hall
      simp only [hall]
      intro t b hb
      rw [runAll, andThen, tellChanges_books] at hb
      exact hend t b hb
  · unfold onLastTrade
    rcases parseLastTrade H msg with e | _ | tp
    · exact h
    · exact h
    · cases hget : s.books.get? tp.assetId with
      | none =>
        simp only [into, hget]
        exact h
      | some book =>
        simp only [into, hget]
        intro t b hb
        rw [journalWrite_books] at hb
        exact h t b hb
  · unfold onTickChange
    rcases parseTickSizeChange H msg with e | _ | tc
    · exact h
    · exact h
    · cases hget : s.books.get? tc.assetId with
      | none =>
        simp only [into, hget]
        exact h
      | some book =>
        simp only [into, hget]
        have hbook := h _ book hget
        exact h.set ⟨hbook.bids, hbook.asks⟩
  · exact h

/-- With ordered books and prices that are numbers, the service raises where a parser does. -/
theorem OrderedBooks.messageBreaks_iff (hD : D.Lawful) (h : s.OrderedBooks)
    (hmsg : OrderedLevels H msg) : MessageBreaks H now s msg ↔ MarketMessageRaises H msg := by
  unfold MessageBreaks
  refine or_iff_left ?_
  rintro ⟨-, changes, hparse, hstuck⟩
  exact hstuck (h.eachStep now hD (hmsg.changes changes hparse)).1

end MarketDataService

end Polymaker
