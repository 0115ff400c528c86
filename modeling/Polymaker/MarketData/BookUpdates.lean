import Mathlib.Algebra.Order.BigOperators.Group.List
import Polymaker.Domain
import Polymaker.Lib.Blend
import Polymaker.Lib.Run
import Polymaker.MarketData.OrderBook

/-!
# Updates of the order book

The mutators of `OrderBook` in `marketdata/orderbook.py`, and what they keep.

* `Levels.put`, `Levels.pop`: one level is set or removed;
* `LiveBook`, `applySnapshot`, `applyDelta`: the book with its clock; a snapshot older than the last
  update is counted and ignored;
* `BookOp`, `LiveBook.step`: the updates as events;
* `positive_run`: every size on a book that updates built is positive;
* `microprice_between`: the microprice of such a book lies between its best prices.
-/

namespace Polymaker

namespace Levels

/-! ### One level -/

/-- Insert an entry at its price, in place of the one that has it. -/
def putEntry (p s : ℚ) : List (ℚ × ℚ) → List (ℚ × ℚ)
  | [] => [(p, s)]
  | e :: l =>
    if p < e.1 then (p, s) :: e :: l
    else if p = e.1 then (p, s) :: l
    else e :: putEntry p s l

theorem eq_or_mem_of_mem_putEntry {p s : ℚ} {l : List (ℚ × ℚ)} {e : ℚ × ℚ}
    (h : e ∈ putEntry p s l) : e = (p, s) ∨ e ∈ l := by
  induction l with
  | nil => exact .inl (List.mem_singleton.1 h)
  | cons f l ih =>
    unfold putEntry at h
    split_ifs at h with hlt heq
    · exact List.mem_cons.1 h
    · exact (List.mem_cons.1 h).imp_right (List.mem_cons_of_mem f)
    · rcases List.mem_cons.1 h with rfl | h
      · exact .inr List.mem_cons_self
      · exact (ih h).imp_right (List.mem_cons_of_mem f)

theorem ascending_putEntry (p s : ℚ) {l : List (ℚ × ℚ)}
    (h : l.Pairwise fun a b => a.1 < b.1) :
    (putEntry p s l).Pairwise fun a b => a.1 < b.1 := by
  induction l with
  | nil => exact List.pairwise_singleton _ _
  | cons e l ih =>
    obtain ⟨hhead, htail⟩ := List.pairwise_cons.1 h
    unfold putEntry
    split_ifs with hlt heq
    · refine List.pairwise_cons.2 ⟨fun f hf => ?_, h⟩
      rcases List.mem_cons.1 hf with rfl | hf
      · exact hlt
      · exact hlt.trans (hhead f hf)
    · exact List.pairwise_cons.2 ⟨fun f hf => heq ▸ hhead f hf, htail⟩
    · refine List.pairwise_cons.2 ⟨fun f hf => ?_, ih htail⟩
      rcases eq_or_mem_of_mem_putEntry hf with rfl | hf
      · exact lt_of_le_of_ne (not_lt.1 hlt) (Ne.symm heq)
      · exact hhead f hf

/-- The side without levels. -/
def empty : Levels := ⟨[], List.Pairwise.nil⟩

/-- `book[price] = size`. -/
def put (l : Levels) (p s : ℚ) : Levels :=
  ⟨putEntry p s l.entries, ascending_putEntry p s l.ascending⟩

/-- `book.pop(price, None)`. -/
def pop (l : Levels) (p : ℚ) : Levels :=
  ⟨l.entries.filter fun e => decide (e.1 ≠ p), l.ascending.filter _⟩

/-- The side of a snapshot: the rows of positive size, a later one in place of an earlier. -/
def ofRows (rows : List (ℚ × ℚ)) : Levels :=
  (rows.filter fun e => decide (0 < e.2)).foldl (fun l e => l.put e.1 e.2) empty

/-- Every size is positive. -/
def Positive (l : Levels) : Prop := ∀ e ∈ l.entries, 0 < e.2

theorem positive_empty : empty.Positive := fun _ he => absurd he List.not_mem_nil

theorem Positive.put {l : Levels} (h : l.Positive) {p s : ℚ} (hs : 0 < s) :
    (l.put p s).Positive := by
  intro e he
  rcases eq_or_mem_of_mem_putEntry he with rfl | he
  · exact hs
  · exact h e he

theorem Positive.pop {l : Levels} (h : l.Positive) (p : ℚ) : (l.pop p).Positive := fun e he =>
  h e (List.mem_filter.1 he).1

theorem positive_ofRows (rows : List (ℚ × ℚ)) : (ofRows rows).Positive :=
  List.foldlRecOn (motive := Positive) _ _ positive_empty fun _ hl _ he =>
    hl.put (of_decide_eq_true (List.mem_filter.1 he).2)

/-! ### The size near the touch -/

theorem sum_sizes_pos {l : List (ℚ × ℚ)} (h : ∀ e ∈ l, 0 < e.2) (hne : l ≠ []) :
    0 < (l.map Prod.snd).sum := by
  refine List.sum_pos _ (fun x hx => ?_) (by simpa using hne)
  obtain ⟨e, he, rfl⟩ := List.mem_map.1 hx
  exact h e he

theorem sliceTo_ne_nil {α : Type*} {l : List α} (hne : l ≠ []) {n : ℤ} (hn : 1 ≤ n) :
    sliceTo l n ≠ [] := by
  unfold sliceTo
  rw [if_pos (by omega)]
  intro h
  rcases List.take_eq_nil_iff.1 h with h0 | hnil
  · omega
  · exact hne hnil

theorem mem_of_mem_sliceTo {α : Type*} {l : List α} {n : ℤ} {a : α} (h : a ∈ sliceTo l n) :
    a ∈ l := by
  unfold sliceTo at h
  split_ifs at h <;> exact List.mem_of_mem_take h

theorem topSizeHigh_pos {l : Levels} (h : l.Positive) (hne : l.entries ≠ []) {n : ℤ} (hn : 1 ≤ n) :
    0 < l.topSizeHigh n :=
  sum_sizes_pos (fun e he => h e (List.mem_reverse.1 (mem_of_mem_sliceTo he)))
    (sliceTo_ne_nil (by simpa using hne) hn)

theorem topSizeLow_pos {l : Levels} (h : l.Positive) (hne : l.entries ≠ []) {n : ℤ} (hn : 1 ≤ n) :
    0 < l.topSizeLow n :=
  sum_sizes_pos (fun e he => h e (mem_of_mem_sliceTo he)) (sliceTo_ne_nil hne hn)

end Levels

/-! ### The book -/

/-- `OrderBook` with its clocks; `staleSnapshots` counts the snapshots that were ignored. -/
structure LiveBook where
  book : OrderBook
  tickSize : ℚ
  lastUpdateTs : ℚ
  localTs : ℚ
  bookHash : Option String
  staleSnapshots : ℕ

namespace LiveBook

/-- `__init__`. -/
def new (tickSize : ℚ) : LiveBook := ⟨⟨.empty, .empty⟩, tickSize, 0, 0, none, 0⟩

/-- `apply_snapshot` at local time `now`; a timestamp of zero stands for none. -/
def applySnapshot (b : LiveBook) (bids asks : List (ℚ × ℚ)) (ts : ℚ) (hash : Option String)
    (now : ℚ) : LiveBook :=
  if 0 < ts ∧ 0 < b.lastUpdateTs ∧ ts < b.lastUpdateTs then
    { b with staleSnapshots := b.staleSnapshots + 1 }
  else
    { b with
      book := ⟨.ofRows bids, .ofRows asks⟩
      lastUpdateTs := ts
      localTs := now
      bookHash := hash }

/-- The change of one level: a size of zero removes it. -/
def changeLevel (l : Levels) (price size : ℚ) : Levels :=
  if size ≤ 0 then l.pop price else l.put price size

/-- `apply_delta` at local time `now`. -/
def applyDelta (b : LiveBook) (side : Side) (price size ts now : ℚ) : LiveBook :=
  { b with
    book := match side with
      | .buy => ⟨changeLevel b.book.bids price size, b.book.asks⟩
      | .sell => ⟨b.book.bids, changeLevel b.book.asks price size⟩
    lastUpdateTs := ts
    localTs := now }

/-- `set_tick_size`. -/
def setTickSize (b : LiveBook) (tickSize : ℚ) : LiveBook := { b with tickSize := tickSize }

end LiveBook

/-- An update of the book, at the local time it reads. -/
inductive BookOp
  | snapshot (bids asks : List (ℚ × ℚ)) (ts : ℚ) (hash : Option String) (now : ℚ)
  | delta (side : Side) (price size ts now : ℚ)
  | tickSize (tickSize : ℚ)

/-- One update. -/
def LiveBook.step (b : LiveBook) : BookOp → LiveBook
  | .snapshot bids asks ts hash now => b.applySnapshot bids asks ts hash now
  | .delta side price size ts now => b.applyDelta side price size ts now
  | .tickSize tickSize => b.setTickSize tickSize

/-! ### Positive sizes -/

/-- Every size on either side is positive. -/
structure OrderBook.Positive (b : OrderBook) : Prop where
  bids : b.bids.Positive
  asks : b.asks.Positive

theorem positive_changeLevel {l : Levels} (h : l.Positive) (price size : ℚ) :
    (LiveBook.changeLevel l price size).Positive := by
  unfold LiveBook.changeLevel
  split_ifs with hs
  · exact h.pop price
  · exact h.put (not_le.1 hs)

theorem positive_step {b : LiveBook} (h : b.book.Positive) (op : BookOp) :
    (b.step op).book.Positive := by
  cases op with
  | snapshot bids asks ts hash now =>
    unfold LiveBook.step LiveBook.applySnapshot
    dsimp only
    split_ifs
    · exact h
    · exact ⟨Levels.positive_ofRows bids, Levels.positive_ofRows asks⟩
  | delta side price size ts now =>
    cases side with
    | buy => exact ⟨positive_changeLevel h.bids price size, h.asks⟩
    | sell => exact ⟨h.bids, positive_changeLevel h.asks price size⟩
  | tickSize tickSize => exact h

/-- Updates leave no level without size on the book. -/
theorem positive_run (tickSize : ℚ) (ops : List BookOp) :
    (Run.run LiveBook.step (.new tickSize) ops).book.Positive :=
  (Run.always_of_step (P := fun b : LiveBook => b.book.Positive) (fun _ op h => positive_step h op)
    (s := .new tickSize) ⟨Levels.positive_empty, Levels.positive_empty⟩ ops).last

/-! ### The microprice -/

section Microprice

variable {b : OrderBook} {bb ba : BookLevel}

theorem bids_ne_nil (h : b.bestBid = some bb) : b.bids.entries ≠ [] := by
  intro hnil
  simp [OrderBook.bestBid, hnil] at h

theorem asks_ne_nil (h : b.bestAsk = some ba) : b.asks.entries ≠ [] := by
  intro hnil
  simp [OrderBook.bestAsk, hnil] at h

/-- On an uncrossed book of positive sizes the microprice lies between the best prices. -/
theorem microprice_between (hpos : b.Positive) (hbb : b.bestBid = some bb)
    (hba : b.bestAsk = some ba) (hle : bb.price ≤ ba.price) {levels : ℤ} (hlevels : 1 ≤ levels) :
    ∃ micro, b.microprice levels = some micro ∧ bb.price ≤ micro ∧ micro ≤ ba.price := by
  have hbid := Levels.topSizeHigh_pos hpos.bids (bids_ne_nil hbb) hlevels
  have hask := Levels.topSizeLow_pos hpos.asks (asks_ne_nil hba) hlevels
  have htotal := add_pos hbid hask
  refine ⟨(ba.price * b.bids.topSizeHigh levels + bb.price * b.asks.topSizeLow levels) /
    (b.bids.topSizeHigh levels + b.asks.topSizeLow levels), ?_, ?_, ?_⟩
  · unfold OrderBook.microprice
    simp only [hbb, hba, if_neg (not_le.2 htotal)]
  · exact le_mean hbid.le hask.le htotal hle le_rfl
  · exact mean_le hbid.le hask.le htotal le_rfl hle

end Microprice

end Polymaker
