import Polymaker.MarketData.BookUpdates

/-!
# Stale snapshots

`OrderBook.apply_snapshot` judges a snapshot by `last_update_ts` alone, which every update that is
applied overwrites.  A book is run here together with the timestamps of the updates it has applied.

* `LiveBook.Stale`: the guard of `apply_snapshot`;
* `StampedBook`, `StampedBook.step`: the book with the timestamps applied so far;
* `stamped_step`: `last_update_ts` is the timestamp of the update applied last, not the largest one;
* `NoRewind`, `Outdated`: a snapshot older than some applied update leaves the book alone, and when
  the guard sees it;
* `noRewind_run_iff`: a run never rewinds if and only if every such snapshot is older than the
  update applied last as well, or lists what the book holds;
* `outdated_of_inOrder`: deltas that arrive in order are enough.
-/

namespace Polymaker

namespace LiveBook

/-- The guard of `apply_snapshot`: the snapshot is older than the last update. -/
def Stale (b : LiveBook) (ts : ℚ) : Prop := 0 < ts ∧ 0 < b.lastUpdateTs ∧ ts < b.lastUpdateTs

instance (b : LiveBook) (ts : ℚ) : Decidable (b.Stale ts) := by unfold Stale; infer_instance

theorem applySnapshot_of_stale {b : LiveBook} {ts : ℚ} (h : b.Stale ts) (bids asks : List (ℚ × ℚ))
    (hash : Option String) (now : ℚ) :
    b.applySnapshot bids asks ts hash now = { b with staleSnapshots := b.staleSnapshots + 1 } :=
  if_pos h

theorem applySnapshot_of_not_stale {b : LiveBook} {ts : ℚ} (h : ¬ b.Stale ts)
    (bids asks : List (ℚ × ℚ)) (hash : Option String) (now : ℚ) :
    b.applySnapshot bids asks ts hash now =
      { b with
        book := ⟨.ofRows bids, .ofRows asks⟩
        lastUpdateTs := ts
        localTs := now
        bookHash := hash } :=
  if_neg h

/-- The timestamps an update adds to those applied: none when it is ignored. -/
def appliedTs (b : LiveBook) : BookOp → List ℚ
  | .snapshot _ _ ts _ _ => if b.Stale ts then [] else [ts]
  | .delta _ _ _ ts _ => [ts]
  | .tickSize _ => []

end LiveBook

/-- A book with the timestamps of the updates it has applied, the last one first. -/
structure StampedBook where
  live : LiveBook
  applied : List ℚ

namespace StampedBook

/-- The book of `__init__`. -/
def new (tickSize : ℚ) : StampedBook := ⟨.new tickSize, []⟩

/-- One update. -/
def step (s : StampedBook) (op : BookOp) : StampedBook :=
  ⟨s.live.step op, s.live.appliedTs op ++ s.applied⟩

/-- The update carries a timestamp of its own, or none is needed. -/
def Timed (_ : StampedBook) : BookOp → Prop
  | .snapshot _ _ ts _ _ => 0 < ts
  | .delta _ _ _ ts _ => 0 < ts
  | .tickSize _ => True

/-- What the run keeps: `last_update_ts` is the timestamp of the update applied last. -/
structure Stamped (s : StampedBook) : Prop where
  pos : ∀ t ∈ s.applied, 0 < t
  last : s.live.lastUpdateTs = s.applied.headD 0

theorem stamped_new (tickSize : ℚ) : (new tickSize).Stamped :=
  ⟨fun _ h => absurd h List.not_mem_nil, rfl⟩

theorem stamped_step {s : StampedBook} {op : BookOp} (h : s.Stamped) (hop : s.Timed op) :
    (s.step op).Stamped := by
  cases op with
  | snapshot bids asks ts hash now =>
    by_cases hs : s.live.Stale ts
    · refine ⟨?_, ?_⟩
      · simpa [step, LiveBook.appliedTs, hs] using h.pos
      · simpa [step, LiveBook.step, LiveBook.appliedTs, hs, LiveBook.applySnapshot_of_stale hs]
          using h.last
    · refine ⟨?_, ?_⟩
      · simpa [step, LiveBook.appliedTs, hs] using ⟨hop, h.pos⟩
      · simp [step, LiveBook.step, LiveBook.appliedTs, hs, LiveBook.applySnapshot_of_not_stale hs]
  | delta side price size ts now =>
    refine ⟨?_, rfl⟩
    simpa [step, LiveBook.appliedTs] using ⟨hop, h.pos⟩
  | tickSize tickSize => exact ⟨h.pos, h.last⟩

/-! ### Rewinding -/

/-- A snapshot older than some update already applied leaves bids and asks unchanged. -/
def NoRewind (s : StampedBook) : BookOp → Prop
  | .snapshot bids asks ts hash now =>
    (∃ t ∈ s.applied, ts < t) → (s.live.applySnapshot bids asks ts hash now).book = s.live.book
  | _ => True

/-- A snapshot older than some update already applied is older than the one applied last, or it
lists what the book holds. -/
def Outdated (s : StampedBook) : BookOp → Prop
  | .snapshot bids asks ts _ _ =>
    (∃ t ∈ s.applied, ts < t) →
      (∃ t ∈ s.applied.head?, ts < t) ∨ (⟨.ofRows bids, .ofRows asks⟩ : OrderBook) = s.live.book
  | _ => True

/-- On stamped books the guard compares with the update applied last. -/
theorem stale_iff {s : StampedBook} (h : s.Stamped) {ts : ℚ} (hts : 0 < ts) :
    s.live.Stale ts ↔ ∃ t ∈ s.applied.head?, ts < t := by
  unfold LiveBook.Stale
  rw [h.last]
  cases happ : s.applied with
  | nil => simp
  | cons t l =>
    have ht : 0 < t := h.pos t (happ ▸ List.mem_cons_self)
    simp [hts, ht]

theorem noRewind_iff {s : StampedBook} (h : s.Stamped) {op : BookOp} (hop : s.Timed op) :
    s.NoRewind op ↔ s.Outdated op := by
  cases op with
  | snapshot bids asks ts hash now =>
    refine imp_congr_right fun _ => ?_
    rw [← stale_iff h hop]
    by_cases hs : s.live.Stale ts
    · simp [LiveBook.applySnapshot_of_stale hs, hs]
    · simp [LiveBook.applySnapshot_of_not_stale hs, hs]
  | delta side price size ts now => exact Iff.rfl
  | tickSize tickSize => exact Iff.rfl

/-- **When a stale snapshot never rewinds the book.**  Along every run of timed updates, in any
order, every snapshot older than some applied update leaves bids and asks unchanged if and only if
every such snapshot is older than the update applied last or lists what the book holds. -/
theorem noRewind_run_iff (tickSize : ℚ) (ops : List BookOp)
    (hops : Run.EachStep step Timed (new tickSize) ops) :
    Run.EachStep step NoRewind (new tickSize) ops ↔
      Run.EachStep step Outdated (new tickSize) ops :=
  Run.eachStep_iff_of_valid (I := Stamped) (fun _ _ => stamped_step) (fun _ _ h => noRewind_iff h)
    (stamped_new tickSize) hops

/-- A delta and an older snapshot, which is ignored. -/
theorem noRewind_of_one_delta :
    Run.EachStep step NoRewind (new (1 / 100))
      [.delta .buy (1 / 2) 100 10 1, .snapshot [] [] 7 none 2] := by
  refine (noRewind_run_iff (1 / 100) _ ?_).2 ?_
  · simp only [Run.eachStep_cons, Run.eachStep_nil, Timed]
    norm_num
  · simp only [Run.eachStep_cons, Run.eachStep_nil, Outdated, step, LiveBook.appliedTs]
    norm_num

/-- Two deltas out of order, then an empty snapshot between them in time: it is older than the
first, and it empties the book. -/
theorem rewinds_of_deltas_out_of_order :
    ¬ ∀ ops : List BookOp, Run.EachStep step Timed (new (1 / 100)) ops →
      Run.EachStep step NoRewind (new (1 / 100)) ops := by
  intro h
  have hrun := h [.delta .buy (1 / 2) 100 10 1, .delta .buy (51 / 100) 50 5 2,
    .snapshot [] [] 7 none 3] (by
      simp only [Run.eachStep_cons, Run.eachStep_nil, Timed]
      norm_num)
  simp only [Run.eachStep_cons] at hrun
  obtain ⟨-, -, hsnap, -⟩ := hrun
  have hbids := congrArg (fun b : OrderBook => b.bids.entries) (hsnap ⟨10, by decide, by norm_num⟩)
  exact absurd hbids (by decide +kernel)

/-! ### Deltas in order -/

/-- A delta is not older than the update applied last. -/
def InOrder (s : StampedBook) : BookOp → Prop
  | .delta _ _ _ ts _ => ∀ t ∈ s.applied.head?, t ≤ ts
  | _ => True

/-- Later updates have later timestamps. -/
def Newest (s : StampedBook) : Prop := s.applied.Pairwise (· ≥ ·)

theorem exists_le_last {s : StampedBook} (h : s.Newest) {t : ℚ} (ht : t ∈ s.applied) :
    ∃ u ∈ s.applied.head?, t ≤ u := by
  unfold Newest at h
  cases happ : s.applied with
  | nil => exact absurd (happ ▸ ht) List.not_mem_nil
  | cons u l =>
    rw [happ] at h ht
    refine ⟨u, rfl, ?_⟩
    rcases List.mem_cons.1 ht with rfl | ht
    · exact le_rfl
    · exact List.rel_of_pairwise_cons h ht

theorem newest_step {s : StampedBook} {op : BookOp} (h : s.Stamped) (hn : s.Newest)
    (hop : s.Timed op) (hin : s.InOrder op) : (s.step op).Newest := by
  have hcons : ∀ {ts}, (∀ t ∈ s.applied.head?, t ≤ ts) → (ts :: s.applied).Pairwise (· ≥ ·) := by
    intro ts hts
    refine List.pairwise_cons.2 ⟨fun t ht => ?_, hn⟩
    obtain ⟨u, hu, hle⟩ := exists_le_last hn ht
    exact hle.trans (hts u hu)
  cases op with
  | snapshot bids asks ts hash now =>
    by_cases hs : s.live.Stale ts
    · simpa [Newest, step, LiveBook.appliedTs, hs] using hn
    · have hlast : ∀ t ∈ s.applied.head?, t ≤ ts := by
        intro t ht
        by_contra hlt
        exact hs ((stale_iff h hop).2 ⟨t, ht, not_le.1 hlt⟩)
      simpa [Newest, step, LiveBook.appliedTs, hs] using hcons hlast
  | delta side price size ts now => exact hcons hin
  | tickSize tickSize => exact hn

theorem outdated_of_newest {s : StampedBook} (hn : s.Newest) (op : BookOp) : s.Outdated op := by
  cases op with
  | snapshot bids asks ts hash now =>
    rintro ⟨t, ht, hlt⟩
    obtain ⟨u, hu, hle⟩ := exists_le_last hn ht
    exact .inl ⟨u, hu, hlt.trans_le hle⟩
  | delta side price size ts now => trivial
  | tickSize tickSize => trivial

/-- Where deltas arrive in order, every stale snapshot is outdated, wherever it arrives. -/
theorem outdated_of_inOrder (tickSize : ℚ) {ops : List BookOp}
    (hops : Run.EachStep step Timed (new tickSize) ops)
    (hin : Run.EachStep step InOrder (new tickSize) ops) :
    Run.EachStep step Outdated (new tickSize) ops := by
  have hall : Run.Always step (fun s => s.Stamped ∧ s.Newest) (new tickSize) ops :=
    Run.always_of_valid (V := fun s op => s.Timed op ∧ s.InOrder op)
      (fun _ _ h hop => ⟨stamped_step h.1 hop.1, newest_step h.1 h.2 hop.1 hop.2⟩)
      ⟨stamped_new tickSize, List.Pairwise.nil⟩
      fun pre op post heq => ⟨hops pre op post heq, hin pre op post heq⟩
  intro pre op post heq
  exact outdated_of_newest (hall pre ⟨op :: post, heq.symm⟩).2 op

end StampedBook

end Polymaker
