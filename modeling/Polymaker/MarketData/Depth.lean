import Polymaker.MarketData.BookUpdates

/-!
# The depth in the band

What `OrderBook.view` says of a book that updates built.

* `FirstTwo`: the two prices that lead a side, in either direction;
* `depthFrom`, `depthTo`: all that rests at or above a price, at or below it;
* `ReportsDepth`: the view gives the two highest bids, the two lowest asks and the whole depth of
  the band around the mid on both sides;
* `TouchIsBand`: nothing but the touch is inside the band, on either side;
* `reportsDepth_iff`: the view sums from the touch into the spread, so it reports the depth of the
  band exactly on such books.
-/

namespace Polymaker

namespace BookView

/-- `mid`. -/
def mid (v : BookView) : Option ℚ :=
  match v.bestBid, v.bestAsk with
  | some bb, some ba => some ((bb + ba) / 2)
  | _, _ => none

/-- The excess of bids in a depth of `bid` and `ask`; zero where there is none. -/
def balance (bid ask : ℚ) : ℚ := if 0 < bid + ask then (bid - ask) / (bid + ask) else 0

/-- `imbalance`. -/
def imbalance (v : BookView) : ℚ := balance v.bidDepth v.askDepth

theorem balance_mem {bid ask : ℚ} (hbid : 0 ≤ bid) (hask : 0 ≤ ask) :
    -1 ≤ balance bid ask ∧ balance bid ask ≤ 1 := by
  unfold balance
  split_ifs with h
  · rw [le_div_iff₀ h, div_le_iff₀ h]
    constructor <;> linarith
  · norm_num

end BookView

/-! ### The leading prices -/

/-- `first` is the price of the list that comes before all others, `none` in the empty list. -/
def Leads (before : ℚ → ℚ → Prop) (prices : List ℚ) : Option ℚ → Prop
  | none => prices = []
  | some p => p ∈ prices ∧ ∀ q ∈ prices, q ≠ p → before p q

/-- The two prices that come before all others. -/
def FirstTwo (before : ℚ → ℚ → Prop) (prices : List ℚ) (first second : Option ℚ) : Prop :=
  Leads before prices first ∧
    Leads before (prices.filter fun p => decide (some p ≠ first)) second

section FirstTwo

variable {before : ℚ → ℚ → Prop}

theorem leads_head {l : List ℚ} (h : l.Pairwise before) : Leads before l l[0]? := by
  cases l with
  | nil => rfl
  | cons p l =>
    refine ⟨List.mem_cons_self, fun q hq hne => ?_⟩
    exact List.rel_of_pairwise_cons h ((List.mem_cons.1 hq).resolve_left hne)

/-- The first two entries of a strictly ordered list lead it. -/
theorem firstTwo_of_pairwise {l : List ℚ} (h : l.Pairwise before) (hne : ∀ p, ¬ before p p) :
    FirstTwo before l l[0]? l[1]? := by
  refine ⟨leads_head h, ?_⟩
  cases l with
  | nil => rfl
  | cons p l =>
    obtain ⟨hhead, htail⟩ := List.pairwise_cons.1 h
    have hrest : (p :: l).filter (fun q => decide (some q ≠ (p :: l)[0]?)) = l := by
      rw [List.filter_cons_of_neg (by simp), List.filter_eq_self]
      intro q hq
      have hqp : q ≠ p := fun heq => hne p (heq ▸ hhead q hq)
      simpa using hqp
    rw [hrest]
    exact leads_head htail

theorem Leads.reverse {l : List ℚ} {first : Option ℚ} (h : Leads before l first) :
    Leads before l.reverse first := by
  cases first with
  | none => exact List.reverse_eq_nil_iff.2 h
  | some p => exact ⟨List.mem_reverse.2 h.1, fun q hq => h.2 q (List.mem_reverse.1 hq)⟩

theorem FirstTwo.reverse {l : List ℚ} {first second : Option ℚ}
    (h : FirstTwo before l first second) : FirstTwo before l.reverse first second := by
  refine ⟨h.1.reverse, ?_⟩
  rw [List.filter_reverse]
  exact h.2.reverse

end FirstTwo

/-! ### Sums over the levels of a band -/

section Sums

variable {l : List (ℚ × ℚ)} {p q : ℚ × ℚ → Bool}

theorem sum_filter_nonneg (h : ∀ e ∈ l, 0 < e.2) (p : ℚ × ℚ → Bool) :
    0 ≤ ((l.filter p).map Prod.snd).sum := by
  refine List.sum_nonneg fun x hx => ?_
  obtain ⟨e, he, rfl⟩ := List.mem_map.1 hx
  exact (h e (List.mem_filter.1 he).1).le

/-- Of two selections of which one has all the entries of the other, the sums of positive sizes
agree if and only if the selections do. -/
theorem sum_filter_eq_iff (h : ∀ e ∈ l, 0 < e.2) (hpq : ∀ e ∈ l, p e → q e) :
    ((l.filter p).map Prod.snd).sum = ((l.filter q).map Prod.snd).sum ↔
      ∀ e ∈ l, q e → p e := by
  have hinner : (l.filter q).filter p = l.filter p := by
    rw [List.filter_filter]
    refine List.filter_congr fun e he => ?_
    cases hp : p e
    · rfl
    · exact hpq e he hp
  have hsplit : ((l.filter q).map Prod.snd).sum = ((l.filter p).map Prod.snd).sum +
      (((l.filter q).filter fun e => !p e).map Prod.snd).sum := by
    rw [← ((List.filter_append_perm p (l.filter q)).map Prod.snd).sum_eq, List.map_append,
      List.sum_append, hinner]
  rw [hsplit, left_eq_add]
  constructor
  · intro hzero e he hq
    by_contra hp
    have hmem : e ∈ (l.filter q).filter fun e => !p e :=
      List.mem_filter.2 ⟨List.mem_filter.2 ⟨he, hq⟩, by simpa using hp⟩
    have hpos : ∀ f ∈ (l.filter q).filter fun e => !p e, 0 < f.2 := fun f hf =>
      h f (List.mem_filter.1 (List.mem_filter.1 hf).1).1
    exact (Levels.sum_sizes_pos hpos (List.ne_nil_of_mem hmem)).ne' hzero
  · intro hall
    have hnil : (l.filter q).filter (fun e => !p e) = [] := by
      refine List.filter_eq_nil_iff.2 fun e he => ?_
      obtain ⟨he, hq⟩ := List.mem_filter.1 he
      simpa using hall e he hq
    rw [hnil]
    rfl

/-- Where the levels summed are those at the touch, if a bound lets them, and the band either has
the touch in it or is empty, the two depths agree if and only if the band is the touch. -/
theorem sum_touch_eq_iff (h : ∀ e ∈ l, 0 < e.2) {touch : ℚ} {bound : Prop}
    (hp : ∀ e ∈ l, p e ↔ e.1 = touch ∧ bound)
    (hq : (∀ e ∈ l, e.1 = touch → q e) ∨ ∀ e ∈ l, ¬ q e) :
    ((l.filter p).map Prod.snd).sum = ((l.filter q).map Prod.snd).sum ↔
      ∀ e ∈ l, q e ↔ e.1 = touch ∧ bound := by
  rcases hq with hq | hq
  · have hpq : ∀ e ∈ l, p e → q e := fun e he hpe => hq e he ((hp e he).1 hpe).1
    rw [sum_filter_eq_iff h hpq]
    refine forall₂_congr fun e he => ?_
    rw [← hp e he]
    exact ⟨fun hqp => ⟨hqp, hpq e he⟩, fun hiff => hiff.1⟩
  · have hqp : ∀ e ∈ l, q e → p e := fun e he hqe => absurd hqe (hq e he)
    rw [eq_comm, sum_filter_eq_iff h hqp]
    refine forall₂_congr fun e he => ?_
    rw [← hp e he]
    exact ⟨fun hpq => ⟨hqp e he, hpq⟩, fun hiff => hiff.2⟩

end Sums

/-! ### The view -/

namespace Levels

/-- The prices of the levels. -/
def prices (l : Levels) : List ℚ := l.entries.map Prod.fst

/-- All that rests at or above a price. -/
def depthFrom (l : Levels) (lo : ℚ) : ℚ :=
  ((l.entries.filter fun e => decide (lo ≤ e.1)).map Prod.snd).sum

/-- All that rests at or below a price. -/
def depthTo (l : Levels) (hi : ℚ) : ℚ :=
  ((l.entries.filter fun e => decide (e.1 ≤ hi)).map Prod.snd).sum

theorem pairwise_prices (l : Levels) : l.prices.Pairwise (· < ·) :=
  List.pairwise_map.2 l.ascending

theorem pairwise_reverse_prices (l : Levels) : l.prices.reverse.Pairwise (· > ·) :=
  List.pairwise_reverse.2 l.pairwise_prices

end Levels

/-- The view gives the two highest bids, the two lowest asks and the whole depth of the band around
the mid, and its imbalance, between -1 and 1, is that of the whole band. -/
structure ReportsDepth (b : OrderBook) (bandFrac : ℚ) (v : BookView) : Prop where
  bids : FirstTwo (· > ·) b.bids.prices v.bestBid v.secondBid
  asks : FirstTwo (· < ·) b.asks.prices v.bestAsk v.secondAsk
  bidDepth : ∀ mid ∈ v.mid, v.bidDepth = b.bids.depthFrom (mid * (1 - bandFrac))
  askDepth : ∀ mid ∈ v.mid, v.askDepth = b.asks.depthTo (mid * (1 + bandFrac))
  imbalance : -1 ≤ v.imbalance ∧ v.imbalance ≤ 1
  whole : ∀ mid ∈ v.mid, v.imbalance =
    BookView.balance (b.bids.depthFrom (mid * (1 - bandFrac)))
      (b.asks.depthTo (mid * (1 + bandFrac)))

/-- The bids in the band around the mid are the best bid alone, the asks the best ask alone; a touch
beyond the other end of the band does not count. -/
def TouchIsBand (b : OrderBook) (bb ba : BookLevel) (bandFrac : ℚ) : Prop :=
  let mid := (bb.price + ba.price) / 2
  (∀ e ∈ b.bids.entries,
      mid * (1 - bandFrac) ≤ e.1 ↔ e.1 = bb.price ∧ bb.price ≤ mid * (1 + bandFrac)) ∧
    ∀ e ∈ b.asks.entries,
      e.1 ≤ mid * (1 + bandFrac) ↔ e.1 = ba.price ∧ mid * (1 - bandFrac) ≤ ba.price

section View

variable {b : OrderBook} {bb ba : BookLevel}

/-- No bid is above the best one. -/
theorem le_bestBid (hbb : b.bestBid = some bb) {e : ℚ × ℚ} (he : e ∈ b.bids.entries) :
    e.1 ≤ bb.price := by
  obtain ⟨f, hf, rfl⟩ := Option.map_eq_some_iff.1 hbb
  obtain ⟨l, hl⟩ := List.getLast?_eq_some_iff.1 hf
  have hasc := b.bids.ascending
  rw [hl] at he hasc
  rcases List.mem_append.1 he with he | he
  · exact (List.pairwise_append.1 hasc).2.2 e he f List.mem_cons_self |>.le
  · rw [List.mem_singleton.1 he]
    exact le_rfl

/-- No ask is below the best one. -/
theorem bestAsk_le (hba : b.bestAsk = some ba) {e : ℚ × ℚ} (he : e ∈ b.asks.entries) :
    ba.price ≤ e.1 := by
  obtain ⟨f, hf, rfl⟩ := Option.map_eq_some_iff.1 hba
  obtain ⟨l, hl⟩ := List.head?_eq_some_iff.1 hf
  have hasc := b.asks.ascending
  rw [hl] at he hasc
  rcases List.mem_cons.1 he with rfl | he
  · exact le_rfl
  · exact (List.rel_of_pairwise_cons hasc he).le

theorem nthBid_zero (h : b.bids.Positive) (n : ℕ) :
    b.nthBid n 0 = b.bids.entries.reverse[n]?.map Levels.level := by
  unfold OrderBook.nthBid
  rw [List.filter_eq_self.2 fun e he => decide_eq_true (h e (List.mem_reverse.1 he))]

theorem nthAsk_zero (h : b.asks.Positive) (n : ℕ) :
    b.nthAsk n 0 = b.asks.entries[n]?.map Levels.level := by
  unfold OrderBook.nthAsk
  rw [List.filter_eq_self.2 fun e he => decide_eq_true (h e he)]

theorem nthBid_first (h : b.bids.Positive) (hbb : b.bestBid = some bb) :
    b.nthBid 0 0 = some bb := by
  rw [nthBid_zero h, ← List.head?_eq_getElem?, List.head?_reverse]
  exact hbb

theorem nthAsk_first (h : b.asks.Positive) (hba : b.bestAsk = some ba) :
    b.nthAsk 0 0 = some ba := by
  rw [nthAsk_zero h, ← List.head?_eq_getElem?]
  exact hba

theorem map_price_level (e : Option (ℚ × ℚ)) :
    (e.map Levels.level).map BookLevel.price = e.map Prod.fst := by
  cases e <;> rfl

theorem firstTwo_bids (h : b.bids.Positive) :
    FirstTwo (· > ·) b.bids.prices ((b.nthBid 0 0).map BookLevel.price)
      ((b.nthBid 1 0).map BookLevel.price) := by
  have hprice : ∀ n, (b.nthBid n 0).map BookLevel.price = b.bids.prices.reverse[n]? := by
    intro n
    rw [nthBid_zero h, map_price_level, ← List.getElem?_map, List.map_reverse]
    rfl
  rw [hprice, hprice, ← List.reverse_reverse b.bids.prices]
  simpa using (firstTwo_of_pairwise b.bids.pairwise_reverse_prices (lt_irrefl ·)).reverse

theorem firstTwo_asks (h : b.asks.Positive) :
    FirstTwo (· < ·) b.asks.prices ((b.nthAsk 0 0).map BookLevel.price)
      ((b.nthAsk 1 0).map BookLevel.price) := by
  have hprice : ∀ n, (b.nthAsk n 0).map BookLevel.price = b.asks.prices[n]? := by
    intro n
    rw [nthAsk_zero h, map_price_level, ← List.getElem?_map]
    rfl
  rw [hprice, hprice]
  exact firstTwo_of_pairwise b.asks.pairwise_prices (lt_irrefl ·)

/-- The bids summed are those at the touch, so that depth is the depth from `lo` if and only if the
touch is all there is from `lo`. -/
theorem depthWithin_eq_depthFrom_iff (h : b.bids.Positive) (hbb : b.bestBid = some bb)
    (lo hi : ℚ) :
    b.bids.depthWithin bb.price hi = b.bids.depthFrom lo ↔
      ∀ e ∈ b.bids.entries, lo ≤ e.1 ↔ e.1 = bb.price ∧ bb.price ≤ hi := by
  have hp : ∀ e ∈ b.bids.entries,
      decide (bb.price ≤ e.1 ∧ e.1 ≤ hi) = true ↔ e.1 = bb.price ∧ bb.price ≤ hi := by
    intro e he
    have hle := le_bestBid hbb he
    rw [decide_eq_true_iff]
    constructor
    · rintro ⟨hge, hhi⟩
      exact ⟨le_antisymm hle hge, hge.trans hhi⟩
    · rintro ⟨heq, hhi⟩
      exact ⟨heq.ge, heq ▸ hhi⟩
  have hq : (∀ e ∈ b.bids.entries, e.1 = bb.price → decide (lo ≤ e.1) = true) ∨
      ∀ e ∈ b.bids.entries, ¬ decide (lo ≤ e.1) = true := by
    rcases le_or_gt lo bb.price with hlo | hlo
    · exact .inl fun e _ heq => decide_eq_true (heq ▸ hlo)
    · exact .inr fun e he => by simpa using (le_bestBid hbb he).trans_lt hlo
  unfold Levels.depthWithin Levels.depthFrom
  simpa only [decide_eq_true_iff] using sum_touch_eq_iff h hp hq

/-- The same of the asks. -/
theorem depthWithin_eq_depthTo_iff (h : b.asks.Positive) (hba : b.bestAsk = some ba)
    (lo hi : ℚ) :
    b.asks.depthWithin lo ba.price = b.asks.depthTo hi ↔
      ∀ e ∈ b.asks.entries, e.1 ≤ hi ↔ e.1 = ba.price ∧ lo ≤ ba.price := by
  have hp : ∀ e ∈ b.asks.entries,
      decide (lo ≤ e.1 ∧ e.1 ≤ ba.price) = true ↔ e.1 = ba.price ∧ lo ≤ ba.price := by
    intro e he
    have hle := bestAsk_le hba he
    rw [decide_eq_true_iff]
    constructor
    · rintro ⟨hlo, hge⟩
      exact ⟨le_antisymm hge hle, hlo.trans hge⟩
    · rintro ⟨heq, hlo⟩
      exact ⟨heq ▸ hlo, heq.le⟩
  have hq : (∀ e ∈ b.asks.entries, e.1 = ba.price → decide (e.1 ≤ hi) = true) ∨
      ∀ e ∈ b.asks.entries, ¬ decide (e.1 ≤ hi) = true := by
    rcases le_or_gt ba.price hi with hhi | hhi
    · exact .inl fun e _ heq => decide_eq_true (heq ▸ hhi)
    · exact .inr fun e he => by simpa using hhi.trans_le (bestAsk_le hba he)
  unfold Levels.depthWithin Levels.depthTo
  simpa only [decide_eq_true_iff] using sum_touch_eq_iff h hp hq

theorem depthWithin_nonneg {l : Levels} (h : l.Positive) (lo hi : ℚ) : 0 ≤ l.depthWithin lo hi :=
  sum_filter_nonneg h _

/-- The view of a book of positive sizes. -/
theorem reportsDepth_iff_of_positive (h : b.Positive) (hbb : b.bestBid = some bb)
    (hba : b.bestAsk = some ba) (bandFrac : ℚ) :
    ReportsDepth b bandFrac (b.viewWith bandFrac 0) ↔ TouchIsBand b bb ba bandFrac := by
  have hmid : (b.viewWith bandFrac 0).mid = some ((bb.price + ba.price) / 2) := by
    simp [BookView.mid, OrderBook.viewWith, nthBid_first h.bids hbb, nthAsk_first h.asks hba]
  have hbid : (b.viewWith bandFrac 0).bidDepth =
      b.bids.depthWithin bb.price ((bb.price + ba.price) / 2 * (1 + bandFrac)) := by
    simp [OrderBook.viewWith, nthBid_first h.bids hbb, nthAsk_first h.asks hba]
  have hask : (b.viewWith bandFrac 0).askDepth =
      b.asks.depthWithin ((bb.price + ba.price) / 2 * (1 - bandFrac)) ba.price := by
    simp [OrderBook.viewWith, nthBid_first h.bids hbb, nthAsk_first h.asks hba]
  have htouch : ((b.viewWith bandFrac 0).bidDepth =
        b.bids.depthFrom ((bb.price + ba.price) / 2 * (1 - bandFrac)) ∧
      (b.viewWith bandFrac 0).askDepth =
        b.asks.depthTo ((bb.price + ba.price) / 2 * (1 + bandFrac))) ↔
      TouchIsBand b bb ba bandFrac := by
    rw [hbid, hask, depthWithin_eq_depthFrom_iff h.bids hbb,
      depthWithin_eq_depthTo_iff h.asks hba]
    exact Iff.rfl
  rw [← htouch]
  constructor
  · intro hv
    exact ⟨hv.bidDepth _ hmid, hv.askDepth _ hmid⟩
  · rintro ⟨hb, ha⟩
    refine ⟨firstTwo_bids h.bids, firstTwo_asks h.asks, ?_, ?_, ?_, ?_⟩
    · intro mid hm
      obtain rfl := Option.some.inj (hmid.symm.trans hm)
      exact hb
    · intro mid hm
      obtain rfl := Option.some.inj (hmid.symm.trans hm)
      exact ha
    · refine BookView.balance_mem ?_ ?_
      · rw [hbid]
        exact depthWithin_nonneg h.bids _ _
      · rw [hask]
        exact depthWithin_nonneg h.asks _ _
    · intro mid hm
      obtain rfl := Option.some.inj (hmid.symm.trans hm)
      unfold BookView.imbalance
      rw [hb, ha]

end View

/-- **When the view reports the depth it names.**  Of a book that updates built, with both sides
present, the view's prices are the two highest bids and the two lowest asks, its depths those of the
whole band and its imbalance theirs, if and only if each side of the band is just the touch. -/
theorem reportsDepth_iff (tickSize : ℚ) (ops : List BookOp) (bb ba : BookLevel) (bandFrac : ℚ) :
    let b := (Run.run LiveBook.step (.new tickSize) ops).book
    b.bestBid = some bb → b.bestAsk = some ba →
      (ReportsDepth b bandFrac (b.viewWith bandFrac 0) ↔ TouchIsBand b bb ba bandFrac) :=
  fun hbb hba => reportsDepth_iff_of_positive (positive_run tickSize ops) hbb hba bandFrac

/-- A bid at 0.40 and one at 0.50, an ask at 0.52: the far bid is outside the band of 5 %. -/
theorem reportsDepth_of_thin_book :
    let b := (Run.run LiveBook.step (.new (1 / 100))
      [.snapshot [(2 / 5, 100), (1 / 2, 100)] [(13 / 25, 80)] 1 none 1]).book
    ReportsDepth b (1 / 20) (b.viewWith (1 / 20) 0) := by
  refine (reportsDepth_iff (1 / 100) _ ⟨1 / 2, 100⟩ ⟨13 / 25, 80⟩ (1 / 20) ?_ ?_).2 ⟨?_, ?_⟩
  all_goals decide +kernel

/-- Bids at 0.49 and 0.50, both inside the band of 5 % around 0.51: the view counts one of them. -/
theorem not_reportsDepth_of_second_bid :
    ¬ ∀ (ops : List BookOp) (bb ba : BookLevel) (bandFrac : ℚ),
      let b := (Run.run LiveBook.step (.new (1 / 100)) ops).book
      b.bestBid = some bb → b.bestAsk = some ba → bb.price < ba.price → 0 < bandFrac →
        bandFrac < 1 → ReportsDepth b bandFrac (b.viewWith bandFrac 0) := by
  intro h
  have hv := h [.snapshot [(49 / 100, 100), (1 / 2, 100)] [(13 / 25, 80)] 1 none 1] ⟨1 / 2, 100⟩
    ⟨13 / 25, 80⟩ (1 / 20) (by decide +kernel) (by decide +kernel) (by norm_num) (by norm_num)
    (by norm_num)
  exact absurd (hv.bidDepth (51 / 100) (by decide +kernel)) (by decide +kernel)

end Polymaker
