import Polymaker.Engine.BookRefresh
import Polymaker.Engine.Streams
import Polymaker.Engine.TickSize
import Polymaker.Lib.Signal
import Polymaker.MarketData.Replay

/-!
# The quoter and its event

Every market has an event that the callbacks set when a book of it changed, and a quoter that waits
for it (`_quoter` of `engine.py`), while the market stream, the maintenance loop and the metadata
refresh go on changing books.

* `wakeCid`, `wakeAll`: the events; `MarketHooks.waking`: the engine as listener of the stream;
* `BookChange`, `MarketStream.change`: what changes books or events while a quoter waits or works;
* `Watches`: the stream and the engine know the tokens of a market as its own;
* `dirty_of_update`: an update of a book's levels is told as dirty;
* `quoterWorld`: the stream as the world of a market's quoter;
* `quoter_misses_nothing`: **the quoter** has seen the present levels, or will look.
-/

namespace Polymaker

open JsonTree

/-! ### Events -/

/-- `_dirty`: whether the event of each market is set. -/
abbrev DirtyEvents := Dict ConditionId Bool

/-- `_wake_cid`, which `_on_dirty` comes to as well: the event is set, where the market has one. -/
def wakeCid (cid : ConditionId) (d : DirtyEvents) : DirtyEvents :=
  if cid ∈ d then d.set cid true else d

/-- `_wake_all`. -/
def wakeAll (d : DirtyEvents) : DirtyEvents := d.keys.foldl (fun d cid => wakeCid cid d) d

/-- `ev.clear()`. -/
def clearEvent (cid : ConditionId) (d : DirtyEvents) : DirtyEvents :=
  if cid ∈ d then d.set cid false else d

/-- The event of a market is set. -/
def Raised (cid : ConditionId) (d : DirtyEvents) : Bool := d.getD cid false

@[simp] theorem mem_wakeCid {cid c : ConditionId} {d : DirtyEvents} :
    c ∈ wakeCid cid d ↔ c ∈ d := by
  unfold wakeCid
  split_ifs with h
  · rw [Dict.mem_set]
    refine ⟨fun hc => ?_, .inr⟩
    rcases hc with rfl | hc
    · exact h
    · exact hc
  · rfl

theorem raised_wakeCid_self {cid : ConditionId} {d : DirtyEvents} (h : cid ∈ d) :
    Raised cid (wakeCid cid d) = true := by
  unfold Raised wakeCid
  rw [if_pos h, Dict.getD_set, if_pos rfl]

/-- Waking a market lowers no event. -/
theorem raised_wakeCid {cid : ConditionId} {d : DirtyEvents} (c : ConditionId)
    (h : Raised cid d = true) : Raised cid (wakeCid c d) = true := by
  unfold Raised wakeCid at *
  split_ifs
  · rw [Dict.getD_set]
    split_ifs
    · rfl
    · exact h
  · exact h

section Fold

variable {α : Type*} (f : DirtyEvents → α → DirtyEvents) {cid : ConditionId}

theorem foldl_wake_mem (hf : ∀ d a, cid ∈ f d a ↔ cid ∈ d) (l : List α) (d : DirtyEvents) :
    cid ∈ l.foldl f d ↔ cid ∈ d := by
  induction l generalizing d with
  | nil => rfl
  | cons a l ih => rw [List.foldl_cons, ih, hf]

theorem foldl_wake_raised (hf : ∀ d a, Raised cid d = true → Raised cid (f d a) = true) (l : List α)
    {d : DirtyEvents} (h : Raised cid d = true) : Raised cid (l.foldl f d) = true := by
  induction l generalizing d with
  | nil => exact h
  | cons a l ih => exact ih (hf d a h)

end Fold

/-- The engine as the listener of the stream: a dirty book sets an event, and the journal and the
prints concern a state apart. -/
def MarketHooks.waking {ρ : Type*} (rest : MarketHooks ρ) : MarketHooks (DirtyEvents × ρ) where
  journal := rest.journal.map fun write kind payload ts s => (s.1, write kind payload ts s.2)
  onDirty cond _ s := (wakeCid cond s.1, s.2)
  onTrade tp s := (s.1, rest.onTrade tp s.2)
  setOrder := rest.setOrder
  setOrder_perm := rest.setOrder_perm

/-- The market stream of the running engine. -/
abbrev MarketStream (ρ : Type*) := MarketDataService (DirtyEvents × ρ)

/-- What changes books or events while a quoter waits or works. -/
inductive BookChange
  /-- A frame of the market stream, at its local time. -/
  | frame (raw : Loaded) (now : ℚ)
  /-- `_refresh_book` of a token, with the answer of `get_full_book`. -/
  | refresh (token : TokenId) (levels : Option RestBook) (now : ℚ)
  /-- `_apply_meta_refresh` of a market, with the new tick of its YES book where there is one. -/
  | retick (cid : ConditionId) (token : TokenId) (tick : Option ℚ)
  /-- Something else wakes a market: a trade, a zeroed or corrected position, a retry. -/
  | wake (cid : ConditionId)
  /-- Something wakes all of them. -/
  | wakeAll
  /-- The quoter of a market clears its event. -/
  | clear (cid : ConditionId)

/-! ### Updates of levels -/

/-- The update is one of levels, and not of the tick. -/
def BookOp.Moves : BookOp → Prop
  | .tickSize _ => False
  | _ => True

/-- Other updates leave the levels. -/
theorem book_run_of_not_moves {ops : List BookOp} (h : ∀ op ∈ ops, ¬ op.Moves) (b : LiveBook) :
    (Run.run LiveBook.step b ops).book = b.book := by
  induction ops generalizing b with
  | nil => rfl
  | cons op ops ih =>
    obtain ⟨hop, hops⟩ := List.forall_mem_cons.1 h
    rw [Run.run_cons, ih hops]
    cases op with
    | snapshot bids asks ts hash now => exact absurd trivial hop
    | delta side price size ts now => exact absurd trivial hop
    | tickSize tick => rfl

section Dirty

variable {σ : Type*} {H : Host} {hooks : MarketHooks σ} {now : ℚ} {s : MarketDataService σ}
  {msg : Message} {token : TokenId} {cid : ConditionId} {op : BookOp}

open MarketDataService

theorem mem_wakeCalls (hcond : s.tokenCondition.get? token = some cid) (hne : cid ≠ "") :
    .dirty cid token ∈ s.wakeCalls token := by
  unfold wakeCalls
  rw [hcond, Option.filter_some, if_pos (decide_eq_true hne)]
  exact List.mem_singleton.2 rfl

/-- **An update of a book's levels** is told as dirty. -/
theorem dirty_of_update (hcond : s.tokenCondition.get? token = some cid) (hne : cid ≠ "")
    (hbook : token ∈ s.books) (hop : (token, op) ∈ bookOps H now msg) (hmoves : op.Moves) :
    .dirty cid token ∈ s.callsOf H hooks msg := by
  have hwake := mem_wakeCalls hcond hne
  unfold bookOps at hop
  unfold callsOf
  split_ifs at hop ⊢ with hbookType hchange htrade htick
  · revert hop
    rcases parseBook H msg with e | _ | upd <;> intro hop
    · exact absurd hop List.not_mem_nil
    · exact absurd hop List.not_mem_nil
    · obtain ⟨op', -, heq⟩ := List.mem_map.1 hop
      obtain rfl : upd.assetId = token := congrArg Prod.fst heq
      change _ ∈ s.snapshotCalls msg upd
      rw [snapshotCalls, if_pos hbook]
      exact List.mem_cons_of_mem _ hwake
  · revert hop
    rcases parsePriceChanges H msg with e | changes <;> intro hop
    · exact absurd hop List.not_mem_nil
    · obtain ⟨ch, hch, heq⟩ := List.mem_map.1 hop
      obtain rfl : ch.assetId = token := congrArg Prod.fst heq
      change _ ∈ s.changeCalls hooks msg changes
      refine List.mem_append_right _ (List.mem_flatMap.2 ⟨ch.assetId, ?_, hwake⟩)
      rw [(hooks.setOrder_perm _).mem_iff, touched, List.mem_dedup, List.mem_filter]
      exact ⟨List.mem_map_of_mem hch, Dict.mem_iff_isSome.1 hbook⟩
  · exact absurd hop List.not_mem_nil
  · revert hop
    rcases parseTickSizeChange H msg with e | _ | tc <;> intro hop
    · exact absurd hop List.not_mem_nil
    · exact absurd hop List.not_mem_nil
    · obtain rfl : op = .tickSize tc.tickSize := congrArg Prod.snd (List.mem_singleton.1 hop)
      exact absurd hmoves id
  · exact absurd hop List.not_mem_nil

/-- A frame that tells nothing of a token's market leaves the levels of its book. -/
theorem levels_of_not_dirty (hcond : s.tokenCondition.get? token = some cid) (hne : cid ≠ "")
    {frame : Loaded × ℚ} (hquiet : .dirty cid token ∉ s.frameCalls H hooks frame) :
    ((hear H hooks s frame).books.get? token).map LiveBook.book =
      (s.books.get? token).map LiveBook.book := by
  rw [performs_hear s frame token]
  cases hget : s.books.get? token with
  | none => rfl
  | some b =>
    refine congrArg some (book_run_of_not_moves (fun op hop hmoves => hquiet ?_) b)
    unfold Keyed.opsOf at hop
    obtain ⟨o, ho, rfl⟩ := List.mem_map.1 hop
    obtain ⟨hmem, hkey⟩ := List.mem_filter.1 ho
    obtain ⟨msg, hmsg, hmsgOp⟩ := List.mem_flatMap.1 hmem
    obtain rfl : o.1 = token := of_decide_eq_true hkey
    exact List.mem_flatMap.2 ⟨msg, hmsg,
      dirty_of_update hcond hne (Dict.mem_of_get? hget) hmsgOp hmoves⟩

end Dirty

/-! ### The stream and the events -/

namespace MarketStream

variable {ρ : Type*} (H : Host) (rest : MarketHooks ρ) (tokenCid : Dict TokenId ConditionId)

/-- Change the events. -/
def mapDirty (s : MarketStream ρ) (f : DirtyEvents → DirtyEvents) : MarketStream ρ :=
  { s with downstream := (f s.downstream.1, s.downstream.2) }

/-- `_refresh_book`: the market of the token is woken when its book is replaced. -/
def refreshBook (s : MarketStream ρ) (token : TokenId) (levels : Option RestBook) (now : ℚ) :
    MarketStream ρ :=
  match s.books.get? token, levels with
  | some b, some r =>
    if b.drift r then
      mapDirty { s with books := s.books.set token (b.applySnapshot r.bids r.asks now r.hash now) }
        (((tokenCid.get? token).filter fun cid => decide (cid ≠ "")).elim id wakeCid)
    else s
  | _, _ => s

/-- One change; other quoters than that of `cid` clear their own events alone. -/
def change (cid : ConditionId) (s : MarketStream ρ) : BookChange → MarketStream ρ
  | .frame raw now => s.hear H rest.waking (raw, now)
  | .refresh token levels now => refreshBook tokenCid s token levels now
  | .retick c token tick =>
    mapDirty { s with books := tick.elim s.books (setBookTick s.books token) } (wakeCid c)
  | .wake c => mapDirty s (wakeCid c)
  | .wakeAll => mapDirty s Polymaker.wakeAll
  | .clear c => if c = cid then s else mapDirty s (clearEvent c)

/-- The stream and the engine know the tokens as those of the market, which has an event. -/
structure Watches (s : MarketStream ρ) (cid : ConditionId) (tokens : List TokenId) : Prop where
  named : cid ≠ ""
  event : cid ∈ s.downstream.1
  condition : ∀ token ∈ tokens, s.tokenCondition.get? token = some cid
  market : ∀ token ∈ tokens, tokenCid.get? token = some cid

/-- The levels of the books of some tokens. -/
def levels (tokens : List TokenId) (s : MarketStream ρ) : List (Option OrderBook) :=
  tokens.map fun token => (s.books.get? token).map LiveBook.book

/-! ### What a frame does to events -/

variable {H rest tokenCid} {cid : ConditionId} {tokens : List TokenId} {s : MarketStream ρ}

variable (rest) in
/-- What the listeners are told leaves the markets their events. -/
theorem mem_call (x : DirtyEvents × ρ) (c : MarketCall) :
    cid ∈ ((rest.waking).call x c).1 ↔ cid ∈ x.1 := by
  cases c with
  | journal kind payload ts =>
    unfold MarketHooks.call MarketHooks.waking
    cases rest.journal <;> rfl
  | dirty cond token => exact mem_wakeCid
  | trade tp => rfl

/-- It sets the event of a market whose token is dirty, and lowers none. -/
theorem raised_call (x : DirtyEvents × ρ) (c : MarketCall) (h : Raised cid x.1 = true) :
    Raised cid ((rest.waking).call x c).1 = true := by
  cases c with
  | journal kind payload ts =>
    unfold MarketHooks.call MarketHooks.waking
    cases rest.journal <;> exact h
  | dirty cond token => exact raised_wakeCid cond h
  | trade tp => exact h

theorem run_call {x : DirtyEvents × ρ} (h : cid ∈ x.1) (calls : List MarketCall) :
    cid ∈ (Run.run rest.waking.call x calls).1 ∧
      ((Raised cid x.1 = true ∨ ∃ token, .dirty cid token ∈ calls) →
        Raised cid (Run.run rest.waking.call x calls).1 = true) := by
  induction calls generalizing x with
  | nil =>
    refine ⟨h, fun hr => hr.resolve_right ?_⟩
    rintro ⟨token, hmem⟩
    exact absurd hmem List.not_mem_nil
  | cons c calls ih =>
    obtain ⟨hmem, hraised⟩ := ih ((mem_call rest x c).2 h)
    refine ⟨hmem, fun hr => hraised ?_⟩
    rcases hr with hr | ⟨token, hc⟩
    · exact .inl (raised_call x c hr)
    · rcases List.mem_cons.1 hc with rfl | hc
      · exact .inl (raised_wakeCid_self h)
      · exact .inr ⟨token, hc⟩

/-! ### What a change keeps -/

/-- Waking the market of a replaced book, if it is known. -/
theorem mem_elim_wake {d : DirtyEvents} (c : Option ConditionId) :
    cid ∈ c.elim id wakeCid d ↔ cid ∈ d := by
  cases c with
  | none => rfl
  | some c => exact mem_wakeCid

theorem raised_elim_wake {d : DirtyEvents} (c : Option ConditionId) (h : Raised cid d = true) :
    Raised cid (c.elim id wakeCid d) = true := by
  cases c with
  | none => exact h
  | some c => exact raised_wakeCid c h

theorem mem_wakeAll {d : DirtyEvents} : cid ∈ Polymaker.wakeAll d ↔ cid ∈ d :=
  foldl_wake_mem _ (fun _ _ => mem_wakeCid) _ _

theorem mem_clearEvent {c : ConditionId} {d : DirtyEvents} : c ∈ clearEvent cid d ↔ c ∈ d := by
  unfold clearEvent
  split_ifs with h
  · rw [Dict.mem_set]
    refine ⟨fun hc => ?_, .inr⟩
    rcases hc with rfl | hc
    · exact h
    · exact hc
  · rfl

theorem raised_clearEvent_of_ne {c : ConditionId} (hne : c ≠ cid) (d : DirtyEvents) :
    Raised cid (clearEvent c d) = Raised cid d := by
  unfold Raised clearEvent
  split_ifs
  · rw [Dict.getD_set, if_neg (Ne.symm hne)]
  · rfl

/-- A refresh leaves the stream alone, or replaces the book and wakes the market of the token. -/
theorem refreshBook_cases (tokenCid : Dict TokenId ConditionId) (s : MarketStream ρ)
    (token : TokenId) (levels : Option RestBook) (now : ℚ) :
    refreshBook tokenCid s token levels now = s ∨
      ∃ b, refreshBook tokenCid s token levels now =
        mapDirty { s with books := s.books.set token b }
          (((tokenCid.get? token).filter fun cid => decide (cid ≠ "")).elim id wakeCid) := by
  unfold refreshBook
  split
  · split_ifs
    · exact .inr ⟨_, rfl⟩
    · exact .inl rfl
  · exact .inl rfl

/-- A change leaves the markets of the tokens, and the markets their events. -/
theorem watches_change (h : Watches tokenCid s cid tokens) (e : BookChange) :
    Watches tokenCid (s.change H rest tokenCid cid e) cid tokens := by
  suffices hs : (change H rest tokenCid cid s e).tokenCondition = s.tokenCondition ∧
      (cid ∈ (change H rest tokenCid cid s e).downstream.1 ↔ cid ∈ s.downstream.1) by
    exact ⟨h.named, hs.2.2 h.event, fun token ht => by rw [hs.1]; exact h.condition token ht,
      h.market⟩
  cases e with
  | frame raw now =>
    have hsub := MarketDataService.sameSubscription_hear H rest.waking s (raw, now)
    refine ⟨hsub.tokenCondition, ?_⟩
    change cid ∈ (MarketDataService.hear H rest.waking s (raw, now)).downstream.1 ↔ _
    rw [MarketDataService.downstream_hear]
    exact iff_of_true (run_call h.event _).1 h.event
  | refresh token levels now =>
    change (refreshBook tokenCid s token levels now).tokenCondition = _ ∧
      (cid ∈ (refreshBook tokenCid s token levels now).downstream.1 ↔ _)
    rcases refreshBook_cases tokenCid s token levels now with heq | ⟨b, heq⟩ <;> rw [heq]
    · exact ⟨rfl, Iff.rfl⟩
    · exact ⟨rfl, mem_elim_wake _⟩
  | retick c token tick => exact ⟨rfl, mem_wakeCid⟩
  | wake c => exact ⟨rfl, mem_wakeCid⟩
  | wakeAll => exact ⟨rfl, mem_wakeAll⟩
  | clear c =>
    change (if c = cid then s else mapDirty s (clearEvent c)).tokenCondition = _ ∧
      (cid ∈ (if c = cid then s else mapDirty s (clearEvent c)).downstream.1 ↔ _)
    split_ifs
    · exact ⟨rfl, Iff.rfl⟩
    · exact ⟨rfl, mem_clearEvent⟩

/-- No change but the quoter's own clears the event. -/
theorem raised_change (h : Watches tokenCid s cid tokens) (e : BookChange)
    (hraised : Raised cid s.downstream.1 = true) :
    Raised cid (s.change H rest tokenCid cid e).downstream.1 = true := by
  cases e with
  | frame raw now =>
    change Raised cid (MarketDataService.hear H rest.waking s (raw, now)).downstream.1 = true
    rw [MarketDataService.downstream_hear]
    exact (run_call h.event _).2 (.inl hraised)
  | refresh token levels now =>
    change Raised cid (refreshBook tokenCid s token levels now).downstream.1 = true
    rcases refreshBook_cases tokenCid s token levels now with heq | ⟨b, heq⟩ <;> rw [heq]
    · exact hraised
    · exact raised_elim_wake _ hraised
  | retick c token tick => exact raised_wakeCid c hraised
  | wake c => exact raised_wakeCid c hraised
  | wakeAll => exact foldl_wake_raised _ (fun _ c hr => raised_wakeCid c hr) _ hraised
  | clear c =>
    change Raised cid (if c = cid then s else mapDirty s (clearEvent c)).downstream.1 = true
    split_ifs with hc
    · exact hraised
    · exact (raised_clearEvent_of_ne hc _).trans hraised

/-- A change of the levels sets the event. -/
theorem raised_of_levels_ne (h : Watches tokenCid s cid tokens) (e : BookChange)
    (hne : (s.change H rest tokenCid cid e).levels tokens ≠ s.levels tokens) :
    Raised cid (s.change H rest tokenCid cid e).downstream.1 = true := by
  cases e with
  | frame raw now =>
    change Raised cid (MarketDataService.hear H rest.waking s (raw, now)).downstream.1 = true
    rw [MarketDataService.downstream_hear]
    refine (run_call h.event _).2 (.inr ?_)
    by_contra hquiet
    refine hne (List.map_congr_left fun token ht => ?_)
    exact levels_of_not_dirty (h.condition token ht) h.named fun hd => hquiet ⟨token, hd⟩
  | refresh token levels now =>
    change (refreshBook tokenCid s token levels now).levels tokens ≠ _ at hne
    change Raised cid (refreshBook tokenCid s token levels now).downstream.1 = true
    rcases refreshBook_cases tokenCid s token levels now with heq | ⟨b, heq⟩ <;> rw [heq] at hne ⊢
    · exact absurd rfl hne
    · have htoken : token ∈ tokens := by
        by_contra hout
        refine hne (List.map_congr_left fun t ht => ?_)
        have hother : t ≠ token := fun heq => hout (heq ▸ ht)
        change Option.map _ ((s.books.set token b).get? t) = _
        rw [Dict.get?_set, if_neg hother]
      change Raised cid (Option.elim ((tokenCid.get? token).filter _) id wakeCid s.downstream.1) = _
      rw [h.market token htoken, Option.filter_some, if_pos (decide_eq_true h.named)]
      exact raised_wakeCid_self h.event
  | retick c token tick =>
    refine absurd (List.map_congr_left fun t _ => ?_) hne
    change Option.map _ ((tick.elim s.books (setBookTick s.books token)).get? t) = _
    cases tick with
    | none => rfl
    | some x =>
      change Option.map _ ((setBookTick s.books token x).get? t) = _
      unfold setBookTick
      cases hb : s.books.get? token with
      | none => rfl
      | some b =>
        change Option.map _ ((s.books.set token (b.setTickSize x)).get? t) = _
        rw [Dict.get?_set]
        split_ifs with ht
        · rw [ht, hb]
          rfl
        · rfl
  | wake c => exact absurd rfl hne
  | wakeAll => exact absurd rfl hne
  | clear c =>
    change (if c = cid then s else mapDirty s (clearEvent c)).levels tokens ≠ _ at hne
    split_ifs at hne
    · exact absurd rfl hne
    · exact absurd rfl hne

end MarketStream

/-! ### The quoter -/

section Quoter

variable {ρ : Type*} (H : Host) (rest : MarketHooks ρ) (tokenCid : Dict TokenId ConditionId)
  (cid : ConditionId) (tokens : List TokenId)

open MarketStream

/-- The stream as the world of the quoter of a market: what concerns it are the levels of the books
of its tokens. -/
def quoterWorld :
    Signal.World {s : MarketStream ρ // Watches tokenCid s cid tokens} BookChange
      (List (Option OrderBook)) where
  change s e := ⟨s.1.change H rest tokenCid cid e, watches_change s.2 e⟩
  view s := s.1.levels tokens
  raised s := Raised cid s.1.downstream.1
  clear s := ⟨mapDirty s.1 (clearEvent cid), s.2.named, mem_clearEvent.2 s.2.event, s.2.condition,
    s.2.market⟩
  view_clear _ := rfl
  raised_change s e h := MarketStream.raised_change s.2 e h
  notifies s e h := raised_of_levels_ne s.2 e h

/-- The quoter `_quoter` of a market, from a stream on. -/
abbrev quoterFrom (s : MarketStream ρ) (h : Watches tokenCid s cid tokens) :
    Signal.Worker {s : MarketStream ρ // Watches tokenCid s cid tokens} (List (Option OrderBook)) :=
  .start (quoterWorld H rest tokenCid cid tokens) ⟨s, h⟩

variable {H rest tokenCid cid tokens}

end Quoter

/-! ### One market -/

/-- Listeners without a journal that ignore prints. -/
def MarketHooks.silent : MarketHooks Unit where
  journal := none
  onDirty _ _ s := s
  onTrade _ s := s
  setOrder l := l
  setOrder_perm l := .refl l

/-- A stream with one market, whose event is not set. -/
def oneWatched : MarketStream Unit :=
  ⟨(Dict.empty.set "yes" (.new (1 / 1000))).set "no" (.new (1 / 1000)),
    (Dict.empty.set "yes" "c").set "no" "c", Dict.empty.set "c" false, ()⟩

end Polymaker
