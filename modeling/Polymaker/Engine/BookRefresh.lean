import Polymaker.MarketData.Staleness

/-!
# The REST refresh of a book

`_refresh_book` of `engine.py` reads a token's book over REST and, where the best prices have
drifted, applies it as a snapshot stamped with the local time of the apply.

* `Levels.sizeAt`: what rests at a price, and how each update changes it;
* `Delta`, `latestAt`: a change delivered by the stream, and the last one of a price and side;
* `RestBook`, `LiveBook.drift`, `refreshBook`: the answer, the test and the refresh;
* `RefreshRace`: a refresh with the deltas that arrive while it waits, all newer than its answer;
* `keepsNewer_iff`: the refresh keeps them if and only if it replaces nothing or the answer has
  them already.
-/

namespace Polymaker

/-! ### What rests at a price -/

namespace Levels

/-- The size in a list of levels at a price. -/
def sizeIn (l : List (ℚ × ℚ)) (p : ℚ) : ℚ :=
  ((l.find? fun e => decide (e.1 = p)).map Prod.snd).getD 0

/-- The size resting at a price. -/
def sizeAt (l : Levels) (p : ℚ) : ℚ := sizeIn l.entries p

theorem sizeIn_cons (e : ℚ × ℚ) (l : List (ℚ × ℚ)) (p : ℚ) :
    sizeIn (e :: l) p = if e.1 = p then e.2 else sizeIn l p := by
  unfold sizeIn
  by_cases h : e.1 = p <;> simp [h]

theorem sizeIn_putEntry (l : List (ℚ × ℚ)) (p s q : ℚ) :
    sizeIn (putEntry p s l) q = if p = q then s else sizeIn l q := by
  induction l with
  | nil => rw [putEntry, sizeIn_cons]
  | cons e l ih =>
    rw [putEntry]
    by_cases hlt : p < e.1
    · rw [if_pos hlt, sizeIn_cons]
    · by_cases heq : p = e.1
      · rw [if_neg hlt, if_pos heq, sizeIn_cons, sizeIn_cons, ← heq]
        split_ifs <;> rfl
      · rw [if_neg hlt, if_neg heq, sizeIn_cons, sizeIn_cons, ih]
        -- the entry passed has another price than the one inserted
        split_ifs with he hp <;> first | rfl | exact absurd (hp.trans he.symm) heq

theorem sizeIn_filter_ne (l : List (ℚ × ℚ)) (p q : ℚ) :
    sizeIn (l.filter fun e => decide (e.1 ≠ p)) q = if p = q then 0 else sizeIn l q := by
  induction l with
  | nil => simp [sizeIn]
  | cons e l ih =>
    by_cases he : e.1 = p
    · rw [List.filter_cons_of_neg (by simpa using he), ih, sizeIn_cons, he]
      split_ifs <;> rfl
    · rw [List.filter_cons_of_pos (by simpa using he), sizeIn_cons, sizeIn_cons, ih]
      split_ifs with hq hp <;> first | rfl | exact absurd (hq.trans hp.symm) he

/-- A change sets the size at its price and leaves the others. -/
theorem sizeAt_changeLevel (l : Levels) (p s q : ℚ) :
    (LiveBook.changeLevel l p s).sizeAt q = if p = q then max s 0 else l.sizeAt q := by
  unfold LiveBook.changeLevel
  by_cases hs : s ≤ 0
  · rw [if_pos hs, max_eq_right hs]
    exact sizeIn_filter_ne l.entries p q
  · rw [if_neg hs, max_eq_left (not_le.1 hs).le]
    exact sizeIn_putEntry l.entries p s q

end Levels

/-- The size resting at a price of a side. -/
def OrderBook.sizeAt (b : OrderBook) : Side → ℚ → ℚ
  | .buy, p => b.bids.sizeAt p
  | .sell, p => b.asks.sizeAt p

theorem sizeAt_applyDelta (b : LiveBook) (side s : Side) (price size ts now p : ℚ) :
    (b.applyDelta side price size ts now).book.sizeAt s p =
      if side = s ∧ price = p then max size 0 else b.book.sizeAt s p := by
  cases side <;> cases s
  · simpa [OrderBook.sizeAt, LiveBook.applyDelta] using Levels.sizeAt_changeLevel b.book.bids _ _ _
  · simp [OrderBook.sizeAt, LiveBook.applyDelta]
  · simp [OrderBook.sizeAt, LiveBook.applyDelta]
  · simpa [OrderBook.sizeAt, LiveBook.applyDelta] using Levels.sizeAt_changeLevel b.book.asks _ _ _

/-! ### Deltas -/

/-- A change delivered by the stream, at the local time it is applied. -/
structure Delta where
  side : Side
  price : ℚ
  size : ℚ
  ts : ℚ
  now : ℚ
  deriving DecidableEq

namespace Delta

/-- The update it makes. -/
def op (d : Delta) : BookOp := .delta d.side d.price d.size d.ts d.now

/-- What it leaves at its price. -/
def resting (d : Delta) : ℚ := max d.size 0

end Delta

/-- The delta delivered last of those at a price of a side. -/
def latestAt (deltas : List Delta) (side : Side) (p : ℚ) : Option Delta :=
  (deltas.filter fun d => decide (d.side = side ∧ d.price = p)).getLast?

/-- After a run of deltas each price has the size of its latest one. -/
theorem sizeAt_run (b : LiveBook) (deltas : List Delta) (side : Side) (p : ℚ) :
    (Run.run LiveBook.step b (deltas.map Delta.op)).book.sizeAt side p =
      ((latestAt deltas side p).map Delta.resting).getD (b.book.sizeAt side p) := by
  induction deltas using List.reverseRecOn with
  | nil => rfl
  | append_singleton deltas d ih =>
    rw [List.map_append, Run.run_append]
    change (LiveBook.applyDelta _ d.side d.price d.size d.ts d.now).book.sizeAt side p = _
    rw [sizeAt_applyDelta, ih]
    unfold latestAt
    rw [List.filter_append]
    split_ifs with hd
    · simp [hd, Delta.resting]
    · simp [List.filter_cons_of_neg, hd]

/-! ### The refresh -/

/-- The answer of `get_full_book`: the rows of each side and the hash. -/
structure RestBook where
  bids : List (ℚ × ℚ)
  asks : List (ℚ × ℚ)
  hash : Option String

/-- The book that its rows make. -/
def RestBook.book (r : RestBook) : OrderBook := ⟨.ofRows r.bids, .ofRows r.asks⟩

/-- One side has drifted: it is missing here or there alone, or its best price differs from one of
the answer that is not zero by more than a tick. -/
def sideDrift (cur rest : Option ℚ) (tickSize : ℚ) : Bool :=
  cur.isSome != rest.isSome ||
    match cur, rest with
    | some c, some r => decide (r ≠ 0 ∧ tickSize < |c - r|)
    | _, _ => false

namespace LiveBook

/-- `drift`: the best price of either side. -/
def drift (b : LiveBook) (r : RestBook) : Bool :=
  sideDrift (b.book.bestBid.map BookLevel.price) (r.bids.map Prod.fst).max? b.tickSize ||
    sideDrift (b.book.bestAsk.map BookLevel.price) (r.asks.map Prod.fst).min? b.tickSize

end LiveBook

/-- `_refresh_book` once `get_full_book` has answered, on the book its token has by then. -/
def refreshBook (book : Option LiveBook) (levels : Option RestBook) (now : ℚ) :
    Option LiveBook :=
  match levels with
  | none => book
  | some r => book.map fun b =>
    if b.drift r then b.applySnapshot r.bids r.asks now r.hash now else b

/-- A refresh whose answer the server made at `takenAt`, and the deltas delivered before the apply,
all of them newer. -/
structure RefreshRace where
  start : LiveBook
  takenAt : ℚ
  deltas : List Delta
  newer : ∀ d ∈ deltas, takenAt < d.ts
  levels : Option RestBook
  now : ℚ

namespace RefreshRace

/-- The book when the answer is applied. -/
def before (r : RefreshRace) : LiveBook := Run.run LiveBook.step r.start (r.deltas.map Delta.op)

/-- The book after the refresh. -/
def after (r : RefreshRace) : Option LiveBook := refreshBook (some r.before) r.levels r.now

/-- The book still holds the size of the latest delta at each price and side that has one. -/
def KeepsNewer (r : RefreshRace) : Prop :=
  ∀ side p d, latestAt r.deltas side p = some d →
    r.after.map (fun b => b.book.sizeAt side p) = some d.resting

/-- An answer that replaces the book has the size of the latest delta at each price and side that
has one. -/
def AnswerCaughtUp (r : RefreshRace) : Prop :=
  ∀ rest, r.levels = some rest → r.before.drift rest → ¬ r.before.Stale r.now →
    ∀ side p d, latestAt r.deltas side p = some d → rest.book.sizeAt side p = d.resting

theorem sizeAt_before {r : RefreshRace} {side : Side} {p : ℚ} {d : Delta}
    (h : latestAt r.deltas side p = some d) : r.before.book.sizeAt side p = d.resting := by
  unfold before
  rw [sizeAt_run, h]
  rfl

/-- The refresh replaces the book with the answer, or leaves its levels alone. -/
theorem after_cases (r : RefreshRace) :
    (∃ rest, r.levels = some rest ∧ r.before.drift rest ∧ ¬ r.before.Stale r.now ∧
        ∀ side p, r.after.map (fun b => b.book.sizeAt side p) = some (rest.book.sizeAt side p)) ∨
      (∀ rest, r.levels = some rest → r.before.drift rest → r.before.Stale r.now) ∧
        ∀ side p,
          r.after.map (fun b => b.book.sizeAt side p) = some (r.before.book.sizeAt side p) := by
  unfold after refreshBook
  cases hlevels : r.levels with
  | none => exact .inr ⟨fun _ h => (Option.some_ne_none _ h.symm).elim, fun _ _ => rfl⟩
  | some rest =>
    by_cases hdrift : r.before.drift rest
    · by_cases hstale : r.before.Stale r.now
      · refine .inr ⟨fun _ _ _ => hstale, fun side p => ?_⟩
        simp [hdrift, LiveBook.applySnapshot_of_stale hstale]
      · refine .inl ⟨rest, rfl, hdrift, hstale, fun side p => ?_⟩
        simp [hdrift, LiveBook.applySnapshot_of_not_stale hstale, RestBook.book]
    · refine .inr ⟨fun _ h hd => ?_, fun side p => ?_⟩
      · obtain rfl := Option.some.inj h
        exact absurd hd hdrift
      · simp [hdrift]

/-- **When a refresh never undoes newer updates.**  The book still holds what the latest deltas say
if and only if the answer does not replace it, or has all of that already. -/
theorem keepsNewer_iff (r : RefreshRace) : r.KeepsNewer ↔ r.AnswerCaughtUp := by
  rcases r.after_cases with ⟨rest, hlevels, hdrift, hstale, hafter⟩ | ⟨hkept, hafter⟩
  · constructor
    · intro h rest' hlevels' _ _ side p d hd
      obtain rfl := Option.some.inj (hlevels.symm.trans hlevels')
      exact Option.some.inj ((hafter side p).symm.trans (h side p d hd))
    · intro h side p d hd
      rw [hafter, h rest hlevels hdrift hstale side p d hd]
  · refine iff_of_true (fun side p d hd => ?_) fun rest hlevels hdrift hstale => ?_
    · rw [hafter, sizeAt_before hd]
    · exact absurd (hkept rest hlevels hdrift) hstale

/-- The book and the answer have a bid at 0.50 and an ask at 0.55; a bid at 0.52 arrives while the
answer is on its way, moves the best bid by two ticks, and is lost. -/
theorem newer_bid_lost : ¬ ∀ r : RefreshRace, r.KeepsNewer := by
  intro h
  have hlost := h
    { start := (LiveBook.new (1 / 100)).applySnapshot [(1 / 2, 100)] [(11 / 20, 100)] 99 none 99
      takenAt := 100
      deltas := [⟨.buy, 13 / 25, 50, 101, 101⟩]
      newer := by simp; norm_num
      levels := some ⟨[(1 / 2, 100)], [(11 / 20, 100)], none⟩
      now := 102 } .buy (13 / 25) ⟨.buy, 13 / 25, 50, 101, 101⟩ (by decide +kernel)
  exact absurd hlost (by decide +kernel)

end RefreshRace

end Polymaker
