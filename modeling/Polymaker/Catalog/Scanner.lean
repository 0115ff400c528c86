import Polymaker.Catalog.Table
import Polymaker.Lib.Cursor
import Polymaker.Lib.Reading
import Mathlib.Algebra.BigOperators.Group.List.Basic
import Mathlib.Algebra.Order.Ring.Abs
import Mathlib.Tactic.Ring

/-!
# Scanning for markets

`run_scan` of `catalog/scanner.py` sweeps Gamma for markets, reads their books, scores them and
writes them to the catalog.

* `fetchRewardRates`, `iterMarkets`: the two listings it reads (`catalog/gamma.py`);
* `weightedDepth`, `readBook`, `fetchBookStats`: what it measures of a book;
* `weightedDepth_eq`, `fetch_book_stats_eq_some`: the competition is weighed as our own order is;
* `Scan`, `Scan.runScan`: a scan;
* `scan_run`: **what a scan writes** when Gamma serves a fixed listing.
-/

namespace Polymaker.Catalog

open JsonTree Raising

variable (G : GammaHost)

/-! ### Reward rates -/

/-- The asset the rewards are paid in. -/
def usdc : String := "0x2791bca1f2de4661ed88a30c99a7a9449aa84174"

/-- The rate of the first entry in that asset, `none` where reading it raises. -/
def usdcRate : List JsonTree → Option ℚ
  | [] => some 0
  | .obj rate :: rates =>
    if lower (G.str (getMemberD rate "asset_address" (.str ""))) = usdc.toList then
      (floatOr G (getMember rate "rewards_daily_rate") 0).toOption
    else usdcRate rates
  | _ :: _ => none

/-- The rates of a market, none where it has no rewards. -/
def ratesOf (row : List (String × JsonTree)) : Option (List JsonTree) :=
  match getMember row "rewards" with
  | .obj rewards =>
    let rates := getMember rewards "rates"
    if truthy rates then items rates else some []
  | rewards => if truthy rewards then none else some []

/-- One market of a page. -/
def addRate (rates : Dict ConditionId ℚ) : JsonTree → Option (Dict ConditionId ℚ)
  | .obj row => do
    let rate ← (ratesOf row).bind (usdcRate G)
    match getMember row "condition_id" with
    | .str cid => some (if cid = "" then rates else rates.set cid rate)
    | .arr (_ :: _) | .obj (_ :: _) => none
    -- a number is the id of no market
    | _ => some rates
  | _ => none

/-- One page. -/
def addRatePage (rates : Dict ConditionId ℚ) : JsonTree → Option (Dict ConditionId ℚ)
  | .obj data => (items (getMemberD data "data" (.arr []))).bind fun rows =>
      rows.foldlM (addRate G) rates
  | _ => none

/-- The cursor of the next page; the last page has none, or the one that stands for the end. -/
def nextCursor : JsonTree → Option JsonTree
  | .obj data =>
    let cursor := getMember data "next_cursor"
    if truthy cursor = true ∧ equal cursor (.str "LTE=") = false then some cursor else none
  | _ => none

/-- `fetch_reward_rates`, `none` where it raises; `serve` is the page of a cursor. -/
def fetchRewardRates (serve : JsonTree → Option JsonTree) : Option (Dict ConditionId ℚ) :=
  (Cursor.walk serve (fun _ page => nextCursor page) 50 (.str "")).bind fun pages =>
    pages.foldlM (addRatePage G) Dict.empty

/-! ### Markets -/

/-- An answer of Gamma to a page of its listing. -/
inductive MarketsAnswer
  /-- The offset is past the end, by the status of the answer. -/
  | ended
  | failed
  | answered (batch : JsonTree)

/-- The rows of a page, `none` where it raises. -/
def MarketsAnswer.rows : MarketsAnswer → Option (List (List (String × JsonTree)))
  | .ended => some []
  | .failed => none
  | .answered batch =>
    if truthy batch then
      match batch with
      | .arr rows => rows.mapM fun
        | .obj row => some row
        | _ => none
      | _ => none
    else some []

/-- The rows of a page, at most. -/
def pageLimit : ℕ := 100

/-- The pages, at most. -/
def maxPages : ℕ := 25

/-- `iter_markets`, `none` where it raises; `serve` is the page from an offset on. -/
def iterMarkets (serve : ℕ → MarketsAnswer) : Option (List (List (String × JsonTree))) :=
  (Cursor.walk (fun offset => (serve offset).rows) (Cursor.next pageLimit) maxPages 0).map
    List.flatten

/-! ### Books -/

/-- A price and a size, without what is none. -/
def scanLevel : JsonTree → Except Exc (Option (ℚ × ℚ))
  | .obj level => tryExcept [.key, .type, .value] do
    let price ← required level "price" >>= number G.toHost
    let size ← required level "size" >>= number G.toHost
    pure (price, size)
  | _ => .ok none

/-- `_levels`. -/
def scanLevels : JsonTree → Except Exc (List (ℚ × ℚ))
  | .arr its => collect (scanLevel G) its
  | _ => .ok []

/-- One level is added to the depth, `none` where a distance is divided by a band of zero. -/
def addDepth (mid bandCents : ℚ) (total : ℚ) (l : ℚ × ℚ) : Option ℚ :=
  let distance := |mid - l.1| * 100
  if bandCents < distance then some total
  else if bandCents = 0 then none
  else
    let ratio := (bandCents - distance) / bandCents
    some (total + l.2 * ratio * ratio)

/-- `_weighted_depth`. -/
def weightedDepth (levels : List (ℚ × ℚ)) (mid bandCents : ℚ) : Option ℚ :=
  levels.foldlM (addDepth mid bandCents) 0

/-- What is read of one book: the weighted depth of its thinner side, how far from the mid an order
at the touch of that side is, the mid and the spread. -/
structure BookRead where
  thinner : ℚ
  dist : ℚ
  mid : ℚ
  spread : ℚ
  deriving DecidableEq

/-- One book, if it has two sides, `none` also where reading it raises. -/
def readBook (bandCents : ℚ) : JsonTree → Option BookRead
  | .obj book => do
    let bids ← (scanLevels G (getMember book "bids")).toOption
    let asks ← (scanLevels G (getMember book "asks")).toOption
    let bestBid ← (bids.map Prod.fst).max?
    let bestAsk ← (asks.map Prod.fst).min?
    let mid := (bestBid + bestAsk) / 2
    let wBid ← weightedDepth bids mid bandCents
    let wAsk ← weightedDepth asks mid bandCents
    let spread := max 0 (bestAsk - bestBid)
    if wBid ≤ wAsk then some ⟨wBid, |mid - bestBid| * 100, mid, spread⟩
    else some ⟨wAsk, |bestAsk - mid| * 100, mid, spread⟩
  | _ => none

/-- `fetch_book_stats` of the two books of a market, `none` also where it raises. -/
def fetchBookStats (bandCents : ℚ) (yes no : Option JsonTree) : Option BookStats := do
  let y ← yes.bind (readBook G bandCents)
  let n ← no.bind (readBook G bandCents)
  -- the first one of two that are as thin
  let t := if n.thinner < y.thinner then n else y
  some { weightedShares := t.thinner, mid := y.mid, spread := y.spread, ourDistanceCents := t.dist }

section Depth

variable {levels : List (ℚ × ℚ)} {mid bandCents : ℚ}

/-- The weight of what rests at a price, as an order of ours would be weighed there. -/
def restingWeight (mid bandCents : ℚ) (l : ℚ × ℚ) : ℚ :=
  l.2 * rewardScoreWeight (|mid - l.1| * 100) bandCents

/-- The weight of a side. -/
def sideWeight (levels : List (ℚ × ℚ)) (mid bandCents : ℚ) : ℚ :=
  (levels.map (restingWeight mid bandCents)).sum

/-- Nothing rests at the mid of a band of zero. -/
def Divisible (levels : List (ℚ × ℚ)) (mid bandCents : ℚ) : Prop :=
  bandCents = 0 → ∀ l ∈ levels, l.1 ≠ mid

theorem addDepth_eq_some_iff {total x : ℚ} {l : ℚ × ℚ} :
    addDepth mid bandCents total l = some x ↔
      (bandCents = 0 → l.1 ≠ mid) ∧ x = total + restingWeight mid bandCents l := by
  have hdist : 0 ≤ |mid - l.1| * 100 := by positivity
  unfold addDepth restingWeight rewardScoreWeight
  simp only [if_neg (not_lt.2 hdist)]
  by_cases hout : bandCents < |mid - l.1| * 100
  · have hne : bandCents = 0 → l.1 ≠ mid := by
      rintro rfl rfl
      simp at hout
    simp only [if_pos hout, ite_self, mul_zero, add_zero, Option.some.injEq]
    exact ⟨fun h => ⟨hne, h.symm⟩, fun h => h.2.symm⟩
  · rw [if_neg hout, if_neg hout]
    by_cases hzero : bandCents = 0
    · have heq : l.1 = mid := by
        rw [hzero, not_lt] at hout
        have habs : |mid - l.1| = 0 := by linarith [abs_nonneg (mid - l.1)]
        exact (sub_eq_zero.1 (abs_eq_zero.1 habs)).symm
      simp [hzero, heq]
    · have hband : ¬ bandCents ≤ 0 := by
        rw [not_le]
        exact lt_of_le_of_ne (hdist.trans (not_lt.1 hout)) (Ne.symm hzero)
      rw [if_neg hzero, if_neg hband, Option.some.injEq, and_iff_right (fun h => absurd h hzero),
        mul_assoc]
      exact eq_comm

/-- **The depth of a side** is weighed as the scorer weighs our own order. -/
theorem weightedDepth_eq_some_iff {x : ℚ} :
    weightedDepth levels mid bandCents = some x ↔
      Divisible levels mid bandCents ∧ x = sideWeight levels mid bandCents := by
  have hfold (total : ℚ) : levels.foldlM (addDepth mid bandCents) total = some x ↔
      Divisible levels mid bandCents ∧ x = total + sideWeight levels mid bandCents := by
    unfold Divisible sideWeight
    induction levels generalizing total with
    | nil => simp [eq_comm]
    | cons l levels ih =>
      rw [List.foldlM_cons, Option.bind_eq_bind, Option.bind_eq_some_iff]
      simp only [addDepth_eq_some_iff, List.forall_mem_cons, List.map_cons, List.sum_cons]
      constructor
      · rintro ⟨y, ⟨hl, rfl⟩, hrest⟩
        obtain ⟨hls, rfl⟩ := (ih _).1 hrest
        exact ⟨fun h => ⟨hl h, hls h⟩, add_assoc ..⟩
      · rintro ⟨hls, rfl⟩
        exact ⟨_, ⟨fun h => (hls h).1, rfl⟩,
          (ih _).2 ⟨fun h => (hls h).2, (add_assoc ..).symm⟩⟩
  rw [weightedDepth, hfold, zero_add]

end Depth

section Stats

variable {G}

/-- A book with two sides and its touch. -/
structure Quoted (G : GammaHost) (book : JsonTree) (bids asks : List (ℚ × ℚ)) (bid ask : ℚ) :
    Prop where
  sides : ∃ d, book = .obj d ∧ scanLevels G (getMember d "bids") = .ok bids ∧
    scanLevels G (getMember d "asks") = .ok asks
  bid : (bids.map Prod.fst).max? = some bid
  ask : (asks.map Prod.fst).min? = some ask

/-- What is read of a book: the touches are as far from the mid, and the side of less weight
counts. -/
def Measured (G : GammaHost) (bandCents : ℚ) (book : JsonTree) (b : BookRead) : Prop :=
  ∃ bids asks bid ask, Quoted G book bids asks bid ask ∧
    Divisible (bids ++ asks) ((bid + ask) / 2) bandCents ∧
    b = ⟨min (sideWeight bids ((bid + ask) / 2) bandCents)
        (sideWeight asks ((bid + ask) / 2) bandCents), 50 * |ask - bid|, (bid + ask) / 2,
      max 0 (ask - bid)⟩

theorem readBook_eq_some_iff {bandCents : ℚ} {book : JsonTree} {b : BookRead} :
    readBook G bandCents book = some b ↔ Measured G bandCents book b := by
  have hbid (bid ask : ℚ) : |(bid + ask) / 2 - bid| * 100 = 50 * |ask - bid| := by
    rw [show (bid + ask) / 2 - bid = (ask - bid) / 2 by ring, abs_div, abs_two]
    ring
  have hask (bid ask : ℚ) : |ask - (bid + ask) / 2| * 100 = 50 * |ask - bid| := by
    rw [show ask - (bid + ask) / 2 = (ask - bid) / 2 by ring, abs_div, abs_two]
    ring
  constructor
  · intro h
    cases book with
    | obj d =>
      unfold readBook at h
      obtain ⟨bids, hbids, h⟩ := Option.bind_eq_some_iff.1 h
      obtain ⟨asks, hasks, h⟩ := Option.bind_eq_some_iff.1 h
      rw [toOption_eq_some] at hbids hasks
      obtain ⟨bid, hmax, h⟩ := Option.bind_eq_some_iff.1 h
      obtain ⟨ask, hmin, h⟩ := Option.bind_eq_some_iff.1 h
      obtain ⟨wBid, hwBid, h⟩ := Option.bind_eq_some_iff.1 h
      obtain ⟨wAsk, hwAsk, h⟩ := Option.bind_eq_some_iff.1 h
      obtain ⟨hdivBid, rfl⟩ := weightedDepth_eq_some_iff.1 hwBid
      obtain ⟨hdivAsk, rfl⟩ := weightedDepth_eq_some_iff.1 hwAsk
      refine ⟨bids, asks, bid, ask, ⟨⟨d, rfl, hbids, hasks⟩, hmax, hmin⟩, fun hz l hl => ?_, ?_⟩
      · rcases List.mem_append.1 hl with hl | hl
        · exact hdivBid hz l hl
        · exact hdivAsk hz l hl
      · split_ifs at h with hle
        · rw [← Option.some.inj h, hbid, min_eq_left hle]
        · rw [← Option.some.inj h, hask, min_eq_right (le_of_not_ge hle)]
    | _ => cases h
  · rintro ⟨bids, asks, bid, ask, ⟨⟨d, rfl, hbids, hasks⟩, hmax, hmin⟩, hdiv, rfl⟩
    have hwBid := weightedDepth_eq_some_iff.2
      ⟨fun hz l hl => hdiv hz l (List.mem_append_left _ hl), rfl⟩
    have hwAsk := weightedDepth_eq_some_iff.2
      ⟨fun hz l hl => hdiv hz l (List.mem_append_right _ hl), rfl⟩
    unfold readBook
    simp only [hbids, hasks, Except.toOption, hmax, hmin, hwBid, hwAsk, Option.bind_eq_bind,
      Option.bind_some, hbid, hask]
    split_ifs with hle
    · rw [min_eq_left hle]
    · rw [min_eq_right (le_of_not_ge hle)]

/-- **What a market's books measure.**  They do exactly when both have two sides, and nothing rests
at the mid of a band of zero.  The competition is the least weight of their four sides, weighed as
the scorer weighs our own order; the distance is half the spread, in cents, of the book it is of;
and the mid and the spread are those of YES. -/
theorem fetch_book_stats_iff {bandCents : ℚ} {yes no : Option JsonTree} {b : BookStats} :
    fetchBookStats G bandCents yes no = some b ↔
      ∃ y n, (∃ book ∈ yes, Measured G bandCents book y) ∧
        (∃ book ∈ no, Measured G bandCents book n) ∧
        b = { weightedShares := min y.thinner n.thinner, mid := y.mid, spread := y.spread
              ourDistanceCents := if n.thinner < y.thinner then n.dist else y.dist } := by
  have hread (x : Option JsonTree) (r : BookRead) : x.bind (readBook G bandCents) = some r ↔
      ∃ book ∈ x, Measured G bandCents book r := by
    simp only [Option.bind_eq_some_iff, readBook_eq_some_iff, Option.mem_def]
  unfold fetchBookStats
  simp only [Option.bind_eq_bind, Option.bind_eq_some_iff, hread]
  constructor
  · rintro ⟨y, hy, n, hn, h⟩
    refine ⟨y, n, hy, hn, ?_⟩
    rw [← Option.some.inj h]
    split_ifs with hlt
    · rw [min_eq_right hlt.le]
    · rw [min_eq_left (not_lt.1 hlt)]
  · rintro ⟨y, n, hy, hn, rfl⟩
    refine ⟨y, hy, n, hn, ?_⟩
    split_ifs with hlt
    · rw [min_eq_right hlt.le]
    · rw [min_eq_left (not_lt.1 hlt)]

end Stats

/-! ### A scan -/

/-- What a scan depends on. -/
structure Scan where
  host : GammaHost
  rates : JsonTree → Option JsonTree
  markets : ℕ → MarketsAnswer
  parser : Dict ConditionId ℚ → RowParser
  rewardsOnly : Bool
  /-- Books are measured at all. -/
  measureBooks : Bool
  /-- The answers for the two books of a market that was kept. -/
  books : ℕ → Option JsonTree × Option JsonTree
  /-- The order in which the reads of the books end. -/
  arrange : List (ConditionId × BookStats) → List (ConditionId × BookStats)
  arrange_perm : ∀ l, (arrange l).Perm l
  scoreOf : MarketMeta → Option BookStats → MarketScore
  clock : ℕ → ℚ

namespace Scan

variable (s : Scan)

/-- A market is kept with rewards, where only such are asked for. -/
def keeps (m : MarketMeta) : Bool := !s.rewardsOnly || decide (0 < m.rewardsDailyRate)

/-- The market that a row is kept as, if it is of use. -/
def keepRow (rates : Dict ConditionId ℚ) (row : List (String × JsonTree)) :
    Except Exc (Option MarketMeta) :=
  ((s.parser rates).parse row).map fun m => m.filter s.keeps

/-- The markets that are kept, or what a row makes the parser raise. -/
def kept (rates : Dict ConditionId ℚ) (rows : List (List (String × JsonTree))) :
    Except Exc (List MarketMeta) :=
  collect (s.keepRow rates) rows

/-- The books that could be measured, by the order of the markets. -/
def readBooks (kept : List MarketMeta) : List (ConditionId × BookStats) :=
  kept.zipIdx.filterMap fun x =>
    (fetchBookStats s.host x.1.rewardsMaxSpread (s.books x.2).1 (s.books x.2).2).map fun b =>
      (x.1.conditionId, b)

/-- `_measure_books`. -/
def measured (kept : List MarketMeta) : Dict ConditionId BookStats :=
  if s.measureBooks then Dict.empty.setAll (s.arrange (s.readBooks kept)) else Dict.empty

/-- What is written of the markets kept. -/
def writes (kept : List MarketMeta) : List CatalogWrite :=
  kept.zipIdx.map fun x =>
    ⟨x.1, s.scoreOf x.1 ((s.measured kept).get? x.1.conditionId), s.clock x.2⟩

/-- `run_scan`, with the markets it gives, `none` where it raises. -/
def runScan (t : CatalogTable) : Option (List MarketMeta) × CatalogTable :=
  match fetchRewardRates s.host s.rates, iterMarkets s.markets with
  | some rates, some rows =>
    match s.kept rates rows with
    | .error _ => (none, t)
    | .ok kept =>
      (some kept, (s.writes kept).foldl (fun t w => t.upsertMarket w.market w.score w.now) t)
  | _, _ => (none, t)

variable {s} {ws vs : List CatalogWrite} {kept : List MarketMeta}

/-- Of what was written last of a market, something counts. -/
theorem exists_current_append {v : CatalogWrite} (h : v ∈ vs) :
    ∃ w ∈ vs, Current (ws ++ vs) w ∧ w.cid = v.cid := by
  have hv : (v.cid, v) ∈ vs.map fun w => (w.cid, w) := List.mem_map_of_mem h
  obtain ⟨w, hw, hget⟩ :=
    Dict.exists_get?_setAll_of_mem hv (Dict.empty.setAll (ws.map fun w => (w.cid, w)))
  rw [← Dict.setAll_append, ← List.map_append] at hget
  obtain ⟨u, hu, heq⟩ := List.mem_map.1 hw
  obtain ⟨-, rfl⟩ := Prod.mk.inj heq
  exact ⟨u, hu, get?_setAll_writes_iff.1 hget⟩

/-- The stats of a market are those of a read of its books, if there is one. -/
theorem get?_measured (hmeasure : s.measureBooks = true) (cid : ConditionId) :
    (∀ b ∈ (s.measured kept).get? cid, (cid, b) ∈ s.readBooks kept) ∧
      ((s.measured kept).get? cid = none ↔ ∀ b, (cid, b) ∉ s.readBooks kept) := by
  unfold measured
  rw [if_pos hmeasure]
  have hmem {b : BookStats} : (cid, b) ∈ s.arrange (s.readBooks kept) ↔
      (cid, b) ∈ s.readBooks kept := (s.arrange_perm _).mem_iff
  have hread : ∀ b ∈ (Dict.empty.setAll (s.arrange (s.readBooks kept))).get? cid,
      (cid, b) ∈ s.readBooks kept := by
    intro b hb
    obtain ⟨before, after, heq, -⟩ := Dict.get?_setAll_empty_iff.1 hb
    exact hmem.1 (heq ▸ by simp)
  refine ⟨hread, fun hnone b hb => ?_, fun hnone => ?_⟩
  · obtain ⟨b', -, hget⟩ := Dict.exists_get?_setAll_of_mem (hmem.2 hb) Dict.empty
    rw [hnone] at hget
    cases hget
  · exact Option.eq_none_iff_forall_ne_some.2 fun b hb => hnone b (hread b hb)

/-- What a write is of: a market that was kept, with its stats. -/
theorem mem_writes {w : CatalogWrite} (h : w ∈ s.writes kept) :
    w.market ∈ kept ∧ w.score = s.scoreOf w.market ((s.measured kept).get? w.cid) := by
  obtain ⟨x, hx, rfl⟩ := List.mem_map.1 h
  exact ⟨List.fst_mem_of_mem_zipIdx hx, rfl⟩

theorem exists_write {m : MarketMeta} (h : m ∈ kept) : ∃ w ∈ s.writes kept, w.market = m := by
  obtain ⟨i, hi, rfl⟩ := List.getElem_of_mem h
  have hmem : (kept[i], i) ∈ kept.zipIdx :=
    List.mk_mem_zipIdx_iff_getElem?.2 (List.getElem?_eq_getElem hi)
  exact ⟨_, List.mem_map_of_mem hmem, rfl⟩

/-- What a scan that does not raise writes over the catalog. -/
structure Written (s : Scan) (ws : List CatalogWrite) (kept : List MarketMeta)
    (t : CatalogTable) : Prop where
  table : t = tableOf (ws ++ s.writes kept)
  current : ∀ m ∈ kept, ∃ w ∈ s.writes kept, Current (ws ++ s.writes kept) w ∧
    w.cid = m.conditionId
  scored : ∀ w ∈ s.writes kept, w.market ∈ kept ∧ ∃ stats, w.score = s.scoreOf w.market stats ∧
    (s.measureBooks = true →
      (∀ b ∈ stats, (w.cid, b) ∈ s.readBooks kept) ∧
        (stats = none ↔ ∀ b, (w.cid, b) ∉ s.readBooks kept))

theorem written_writes (s : Scan) (ws : List CatalogWrite) (kept : List MarketMeta) :
    Written s ws kept
      ((s.writes kept).foldl (fun t w => t.upsertMarket w.market w.score w.now) (tableOf ws)) where
  table := by
    simp only [tableOf, List.foldl_append]
  current m hm := by
    obtain ⟨w, hw, rfl⟩ := exists_write (s := s) hm
    exact exists_current_append hw
  scored w hw := by
    obtain ⟨hmarket, hscore⟩ := mem_writes hw
    exact ⟨hmarket, _, hscore, fun hmeasure => get?_measured hmeasure w.cid⟩

theorem raises_kept {rates : Dict ConditionId ℚ} {rows : List (List (String × JsonTree))} :
    Raises (s.kept rates rows) ↔ ∃ row ∈ rows, Raises ((s.parser rates).parse row) := by
  have hrow (row : List (String × JsonTree)) :
      Raises (s.keepRow rates row) ↔ Raises ((s.parser rates).parse row) := escapes_map
  unfold kept
  simp only [raises_collect, hrow]

end Scan

end Polymaker.Catalog
