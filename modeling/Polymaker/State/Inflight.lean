import Polymaker.Lib.Run
import Polymaker.State.Tracker

/-!
# The in-flight guard

`inflight` is a bare counter per token.  Beside it we keep the record it is meant to summarize: the
trades whose match was applied and which have seen neither `CONFIRMED` nor `FAILED` since.

* `Guarded`: the processor with that record;
* `Exact`: the counter of every token is the number of recorded trades on it;
* `GuardKept`: the condition on an event, in the state it arrives in, under which the counter stays
  exact;
* `exact_iff_guardKept`: a run from the start of a process stays exact if and only if every event
  of it meets the condition.
-/

namespace Polymaker

/-- The processor and the unsettled trades, each with the token it was matched on. -/
structure Guarded where
  proc : UserEventProcessor
  unsettled : Dict TradeId TokenId
  deriving DecidableEq

def Guarded.start (db : Db) : Guarded := ⟨.start db, Dict.empty⟩

/-- Deliver an event: a trade becomes unsettled when its match is applied, and stops being so when
it sees `CONFIRMED` or `FAILED`. -/
def Guarded.step (s : Guarded) (e : TimedEvent) : Guarded where
  proc := (s.proc.onTrade e.ev e.now).1
  unsettled :=
    match e.ev.status with
    | .matched =>
      if .fill e.ev.fill ∈ (s.proc.onTrade e.ev e.now).2 then
        s.unsettled.set e.ev.tradeId e.ev.tokenId
      else s.unsettled
    | .confirmed | .failed => s.unsettled.erase e.ev.tradeId
    | .mined | .retrying => s.unsettled

/-- The number of unsettled trades on a token. -/
def Guarded.unsettledOn (s : Guarded) (tok : TokenId) : ℕ := s.unsettled.values.count tok

/-- The guard counts the unsettled trades. -/
def Guarded.Exact (s : Guarded) : Prop := ∀ tok, s.proc.store.inflight tok = s.unsettledOn tok

/-- A terminal event is for a trade this process holds, on the token it was matched on and, for a
failure, with no reversal of it on record; or no trade on its token is in flight. -/
def GuardKept (s : Guarded) (e : TimedEvent) : Prop :=
  match e.ev.status with
  | .matched | .mined | .retrying => True
  | .confirmed =>
    match s.proc.applied.get? e.ev.tradeId with
    | some f => f.tokenId = e.ev.tokenId
    | none => s.proc.store.inflight e.ev.tokenId = 0
  | .failed =>
    match s.proc.applied.get? e.ev.tradeId with
    | some f => f.tokenId = e.ev.tokenId ∧ reverseId e.ev.tradeId ∉ s.proc.store.db.fills
    | none => s.proc.store.inflight e.ev.tokenId = 0

/-- The unsettled trades are those held in memory. -/
structure Tracks (s : Guarded) : Prop where
  tokens : ∀ t, s.unsettled.get? t = (s.proc.applied.get? t).map Fill.tokenId
  ids : ∀ t f, s.proc.applied.get? t = some f → f.tradeId = t

theorem tracks_start (db : Db) : Tracks (.start db) := ⟨fun _ => rfl, fun _ _ h => by cases h⟩

theorem exact_start (db : Db) : (Guarded.start db).Exact := fun _ => rfl

theorem Tracks.erase {s : Guarded} (h : Tracks s) (t : TradeId) (st : StateStore) :
    Tracks ⟨⟨st, s.proc.applied.erase t⟩, s.unsettled.erase t⟩ where
  tokens := fun u => by
    simp only [Dict.get?_erase]
    split_ifs
    · rfl
    · exact h.tokens u
  ids := fun u f hu => by
    simp only [Dict.get?_erase] at hu
    split_ifs at hu
    exact h.ids u f hu

/-- A trade that is not held is no more in the record than in memory. -/
theorem Tracks.erase_of_not_mem {s : Guarded} (h : Tracks s) {t : TradeId}
    (ht : t ∉ s.proc.applied) (st : StateStore) :
    Tracks ⟨⟨st, s.proc.applied⟩, s.unsettled.erase t⟩ := by
  have herase := h.erase t st
  rwa [Dict.erase_of_not_mem ht] at herase

theorem Tracks.set {s : Guarded} (h : Tracks s) {f : Fill} (st : StateStore) :
    Tracks ⟨⟨st, s.proc.applied.set f.tradeId f⟩, s.unsettled.set f.tradeId f.tokenId⟩ where
  tokens := fun u => by
    simp only [Dict.get?_set]
    split_ifs
    · rfl
    · exact h.tokens u
  ids := fun u g hu => by
    simp only [Dict.get?_set] at hu
    split_ifs at hu with heq
    · rw [← Option.some.inj hu, heq]
    · exact h.ids u g hu

theorem Tracks.not_mem {s : Guarded} (h : Tracks s) {t : TradeId} (ht : t ∉ s.proc.applied) :
    t ∉ s.unsettled := by
  rw [← Dict.get?_eq_none_iff, h.tokens, Dict.get?_eq_none_iff.2 ht]; rfl

/-! ### One match -/

/-- A match that is applied raises the counter of its token and is one more unsettled trade. -/
theorem exact_match {s : Guarded} (h : Tracks s) (hex : s.Exact) {f : Fill}
    (hf : f.tradeId ∉ s.proc.applied) {applied : Dict TradeId Fill} {ts : ℚ} :
    Guarded.Exact ⟨⟨(s.proc.store.recordFill f).markInflight f.tokenId ts, applied⟩,
      s.unsettled.set f.tradeId f.tokenId⟩ := by
  intro k
  show _ = (s.unsettled.set f.tradeId f.tokenId).values.count k
  rw [Dict.count_values_set_of_not_mem (h.not_mem hf), markInflight_inflight]
  have hk := hex k
  unfold Guarded.unsettledOn at hk
  split_ifs with h1 h2 h2
  · rw [← h1, recordFill_inflight, hk]
  · exact absurd h1.symm h2
  · exact absurd h2.symm h1
  · rw [recordFill_inflight, hk, Nat.add_zero]

/-! ### One terminal event -/

section Terminal

variable {s : Guarded} {t : TradeId} {tok : TokenId} {p : UserEventProcessor}

/-- A terminal event of a held trade that takes one from the counter of `tok` is exact when the
trade was matched on `tok`. -/
theorem exact_release_iff (h : Tracks s) (hex : s.Exact) {f : Fill}
    (hf : s.proc.applied.get? t = some f)
    (hp : ∀ k, p.store.inflight k =
      if k = tok then s.proc.store.inflight tok - 1 else s.proc.store.inflight k) :
    Guarded.Exact ⟨p, s.unsettled.erase t⟩ ↔ f.tokenId = tok := by
  have hrow : s.unsettled.get? t = some f.tokenId := by rw [h.tokens, hf]; rfl
  have hcount : ∀ k, (s.unsettled.erase t).values.count k + (if f.tokenId = k then 1 else 0) =
      s.proc.store.inflight k := fun k => by
    rw [hex k]; exact Dict.count_values_erase hrow k
  constructor
  · intro hex'
    by_contra hne
    have h1 := hcount f.tokenId
    have h2 : p.store.inflight f.tokenId = (s.unsettled.erase t).values.count f.tokenId :=
      hex' f.tokenId
    rw [hp, if_neg hne] at h2
    rw [if_pos rfl] at h1
    omega
  · rintro rfl k
    have h1 := hcount k
    show p.store.inflight k = (s.unsettled.erase t).values.count k
    rw [hp]
    split_ifs with hk
    · subst hk
      rw [if_pos rfl] at h1
      omega
    · rw [if_neg (Ne.symm hk)] at h1
      omega

/-- A terminal event of a held trade that leaves the counters is never exact. -/
theorem not_exact_of_kept (h : Tracks s) (hex : s.Exact) {f : Fill}
    (hf : s.proc.applied.get? t = some f)
    (hp : ∀ k, p.store.inflight k = s.proc.store.inflight k) :
    ¬ Guarded.Exact ⟨p, s.unsettled.erase t⟩ := by
  intro hex'
  have hrow : s.unsettled.get? t = some f.tokenId := by rw [h.tokens, hf]; rfl
  have h1 : _ = s.unsettledOn f.tokenId := Dict.count_values_erase hrow f.tokenId
  have h2 : p.store.inflight f.tokenId = (s.unsettled.erase t).values.count f.tokenId :=
    hex' f.tokenId
  rw [hp, hex f.tokenId] at h2
  rw [if_pos rfl] at h1
  omega

/-- A terminal event of a trade that is not held, and that takes one from the counter of `tok`, is
exact when that counter is zero. -/
theorem exact_stray_iff (h : Tracks s) (hex : s.Exact) (ht : t ∉ s.proc.applied)
    (hp : ∀ k, p.store.inflight k =
      if k = tok then s.proc.store.inflight tok - 1 else s.proc.store.inflight k) :
    Guarded.Exact ⟨p, s.unsettled.erase t⟩ ↔ s.proc.store.inflight tok = 0 := by
  rw [Dict.erase_of_not_mem (h.not_mem ht)]
  constructor
  · intro hex'
    have h1 : p.store.inflight tok = s.unsettledOn tok := hex' tok
    have h2 := hex tok
    rw [hp, if_pos rfl] at h1
    omega
  · intro h0 k
    show p.store.inflight k = s.unsettledOn k
    rw [hp, ← hex k]
    split_ifs with hk
    · subst hk; omega
    · rfl

end Terminal

/-! ### One event -/

/-- The step of the record and the counters, by cases of the call. -/
theorem guarded_step {s : Guarded} (h : Tracks s) (e : TimedEvent) :
    Tracks (s.step e) ∧ (s.Exact → ((s.step e).Exact ↔ GuardKept s e)) := by
  obtain ⟨ev, now⟩ := e
  have hcase := onTrade_cases s.proc ev now
  unfold Guarded.step GuardKept
  simp only
  generalize s.proc.onTrade ev now = out at hcase ⊢
  cases hcase with
  | idle hst =>
    have hsame : Tracks ⟨s.proc, s.unsettled⟩ ∧
        (s.Exact → (Guarded.Exact ⟨s.proc, s.unsettled⟩ ↔ True)) :=
      ⟨h, fun hex => iff_of_true hex trivial⟩
    rcases hst with hst | hst | ⟨hst, -⟩ <;> simpa only [hst, List.not_mem_nil, if_false] using hsame
  | applied hst happ hnew =>
    have hfill : Effect.fill ev.fill ∈ [Effect.fill ev.fill, .onFill ev.fill] := by simp
    simp only [hst, if_pos hfill]
    exact ⟨h.set (f := ev.fill) _, fun hex => iff_of_true (exact_match h hex (f := ev.fill) happ)
      trivial⟩
  | confirmed hst =>
    simp only [hst]
    refine ⟨h.erase _ _, fun hex => ?_⟩
    cases hf : s.proc.applied.get? ev.tradeId with
    | some f =>
      refine exact_release_iff h hex hf fun k => ?_
      rw [markFillSettled_inflight, if_pos (.inl (Dict.mem_of_get? hf)), clearInflight_inflight]
    | none =>
      refine exact_stray_iff h hex (Dict.get?_eq_none_iff.1 hf) fun k => ?_
      rw [markFillSettled_inflight]
      by_cases h0 : 0 < s.proc.store.inflight ev.tokenId
      · rw [if_pos (.inr h0), clearInflight_inflight]
      · -- the counter is zero, and taking one from it leaves it
        have hno : ¬ (ev.tradeId ∈ s.proc.applied ∨ 0 < s.proc.store.inflight ev.tokenId) := by
          rw [not_or]; exact ⟨Dict.get?_eq_none_iff.1 hf, h0⟩
        rw [if_neg hno]
        split_ifs with hk
        · subst hk; omega
        · rfl
  | undone prior hst hf hnew =>
    have hid := h.ids _ _ hf
    rw [hid] at hnew
    simp only [hst, hf, and_iff_left hnew]
    exact ⟨h.erase _ _, fun hex => exact_release_iff h hex hf fun k => by simp⟩
  | blocked prior hst hf hold =>
    have hid := h.ids _ _ hf
    rw [hid] at hold
    simp only [hst, hf, hold, not_true_eq_false, and_false, iff_false]
    exact ⟨h.erase _ _, fun hex => not_exact_of_kept h hex hf fun _ => rfl⟩
  | undoneRow r hst happ =>
    simp only [hst, Dict.get?_eq_none_iff.2 happ]
    exact ⟨h.erase_of_not_mem happ _, fun hex => exact_stray_iff h hex happ fun k => by simp⟩
  | released hst happ =>
    simp only [hst, Dict.get?_eq_none_iff.2 happ]
    exact ⟨h.erase_of_not_mem happ _, fun hex => exact_stray_iff h hex happ fun k => by simp⟩

/-! ### Runs -/

/-- **When the guard is exact.**  Along a run of one process, on any database, the counters are the
numbers of unsettled trades in every state if and only if every event meets `GuardKept` when it
arrives. -/
theorem exact_iff_guardKept (db : Db) (es : List TimedEvent) :
    Run.Always Guarded.step Guarded.Exact (.start db) es ↔
      Run.EachStep Guarded.step GuardKept (.start db) es :=
  Run.always_iff_eachStep (I := Tracks) (fun _ e h => (guarded_step h e).1)
    (fun _ e h hex => (guarded_step h e).2 hex) (tracks_start db) (exact_start db)

/-- Two trades are matched on one token and the confirmation of the first is delivered twice: the
second delivery releases the guard of the trade that is still unsettled. -/
theorem not_exact_of_duplicate_confirmed :
    let ev : TradeId → TradeState → TimedEvent := fun t st => ⟨⟨"k", .buy, 1 / 2, 100, t, st, 0⟩, 0⟩
    let es := [ev "t1" .matched, ev "t2" .matched, ev "t1" .confirmed, ev "t1" .confirmed]
    (Run.run Guarded.step (.start .fresh) es).proc.store.inflight "k" = 0 ∧
      (Run.run Guarded.step (.start .fresh) es).unsettledOn "k" = 1 ∧
      ¬ Run.Always Guarded.step Guarded.Exact (.start .fresh) es := by
  intro ev es
  have h0 : (Run.run Guarded.step (.start .fresh) es).proc.store.inflight "k" = 0 := by decide
  have h1 : (Run.run Guarded.step (.start .fresh) es).unsettledOn "k" = 1 := by
    decide +kernel
  refine ⟨h0, h1, fun hall => ?_⟩
  have hlast := hall.last "k"
  omega

end Polymaker
