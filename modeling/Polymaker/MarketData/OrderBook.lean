import Mathlib.Algebra.BigOperators.Group.List.Basic
import Mathlib.Algebra.Order.Ring.Rat
import Mathlib.Tactic.Common

/-!
# The order book

The reads of `OrderBook` in `marketdata/orderbook.py`.  One book is kept for each outcome token.

* `Levels`: one side of a book, sizes by ascending price, the order being a field;
* `bestBid`, `bestAsk`: the touch;
* `microprice`: the depth-weighted mid over the top levels;
* `view`: the snapshot the quoter reads.
-/

namespace Polymaker

/-- One side of a book: price and size of each level, prices ascending. -/
structure Levels where
  entries : List (ℚ × ℚ)
  ascending : entries.Pairwise fun a b => a.1 < b.1

/-- A price and the size resting there. -/
structure BookLevel where
  price : ℚ
  size : ℚ
  deriving DecidableEq, Repr

/-- The two sides of one token's book. -/
structure OrderBook where
  bids : Levels
  asks : Levels

/-- What the quoter reads of a book. -/
structure BookView where
  bestBid : Option ℚ
  bestBidSize : ℚ
  bestAsk : Option ℚ
  bestAskSize : ℚ
  secondBid : Option ℚ
  secondAsk : Option ℚ
  bidDepth : ℚ
  askDepth : ℚ
  deriving DecidableEq, Repr

/-- `_empty_view`. -/
def BookView.empty : BookView := ⟨none, 0, none, 0, none, none, 0, 0⟩

/-- The slice `[:n]` of a list; a negative `n` counts from its end. -/
def sliceTo {α : Type*} (l : List α) (n : ℤ) : List α :=
  if 0 ≤ n then l.take n.toNat else l.take (l.length - n.natAbs)

namespace Levels

/-- The level at an entry. -/
def level (e : ℚ × ℚ) : BookLevel := ⟨e.1, e.2⟩

/-- `_top_size` from the high end, the bids. -/
def topSizeHigh (l : Levels) (levels : ℤ) : ℚ :=
  ((sliceTo l.entries.reverse levels).map Prod.snd).sum

/-- `_top_size` from the low end, the asks. -/
def topSizeLow (l : Levels) (levels : ℤ) : ℚ := ((sliceTo l.entries levels).map Prod.snd).sum

/-- `depth_within` on one side. -/
def depthWithin (l : Levels) (lo hi : ℚ) : ℚ :=
  ((l.entries.filter fun e => decide (lo ≤ e.1 ∧ e.1 ≤ hi)).map Prod.snd).sum

end Levels

namespace OrderBook

/-- The book with one level on each side. -/
def ofTouch (bid ask size : ℚ) : OrderBook :=
  ⟨⟨[(bid, size)], List.pairwise_singleton _ _⟩, ⟨[(ask, size)], List.pairwise_singleton _ _⟩⟩

/-- `is_empty`: a side is missing. -/
def isEmpty (b : OrderBook) : Bool := b.bids.entries.isEmpty || b.asks.entries.isEmpty

/-- `best_bid`: the highest bid. -/
def bestBid (b : OrderBook) : Option BookLevel := b.bids.entries.getLast?.map Levels.level

/-- `best_ask`: the lowest ask. -/
def bestAsk (b : OrderBook) : Option BookLevel := b.asks.entries.head?.map Levels.level

/-- `microprice`: each best price weighted by the size on the other side. -/
def microprice (b : OrderBook) (levels : ℤ) : Option ℚ :=
  match b.bestBid, b.bestAsk with
  | some bb, some ba =>
    let bidSz := b.bids.topSizeHigh levels
    let askSz := b.asks.topSizeLow levels
    let total := bidSz + askSz
    if total ≤ 0 then some ((bb.price + ba.price) / 2)
    else some ((ba.price * bidSz + bb.price * askSz) / total)
  | _, _ => none

/-- `_nth_bid`: the `n`-th highest bid of more than the minimum size. -/
def nthBid (b : OrderBook) (n : ℕ) (minSize : ℚ) : Option BookLevel :=
  (b.bids.entries.reverse.filter fun e => decide (minSize < e.2))[n]?.map Levels.level

/-- `_nth_ask`: the `n`-th lowest ask of more than the minimum size. -/
def nthAsk (b : OrderBook) (n : ℕ) (minSize : ℚ) : Option BookLevel :=
  (b.asks.entries.filter fun e => decide (minSize < e.2))[n]?.map Levels.level

/-- `view`, of the band and the minimum size given. -/
def viewWith (b : OrderBook) (bandFrac minSize : ℚ) : BookView :=
  let bb := b.nthBid 0 minSize
  let ba := b.nthAsk 0 minSize
  let sb := b.nthBid 1 minSize
  let sa := b.nthAsk 1 minSize
  let depths := match bb, ba with
    | some bb, some ba =>
      let mid := (bb.price + ba.price) / 2
      (b.bids.depthWithin bb.price (mid * (1 + bandFrac)),
        b.asks.depthWithin (mid * (1 - bandFrac)) ba.price)
    | _, _ => (0, 0)
  { bestBid := bb.map BookLevel.price
    bestBidSize := (bb.map BookLevel.size).getD 0
    bestAsk := ba.map BookLevel.price
    bestAskSize := (ba.map BookLevel.size).getD 0
    secondBid := sb.map BookLevel.price
    secondAsk := sa.map BookLevel.price
    bidDepth := depths.1
    askDepth := depths.2 }

/-- `view` with its defaults, a band of 5 % and no minimum size. -/
def view (b : OrderBook) : BookView := b.viewWith (1 / 20) 0

end OrderBook

end Polymaker
