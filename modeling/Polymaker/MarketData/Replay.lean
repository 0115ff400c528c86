import Polymaker.Lib.Keyed
import Polymaker.MarketData.Service

/-!
# The market stream as order books

`MarketDataService` keeps a book for every subscribed token and tells its listeners what it does.
Over any frames it is, token by token, the order book run on the updates that name the token, and
its listeners hear what the frames and the subscription alone determine.

* `bookOps`: the updates of books that a message makes, each with its token;
* `MarketHooks.Call`, `callsOf`: what the listeners are told, and what a message makes of it;
* `accepted`: the messages of a frame up to the first on which the service raises; a frame that does
  not decode has none;
* `performs_dispatch`, `downstream_dispatch`: one message;
* `performs_run`, `downstream_run`: any frames;
* `book_run`: **the book of a token** after any frames, from the updates that name it.
-/

namespace Polymaker

open JsonTree Raising

/-! ### What a message does -/

section Messages

variable (H : Host) (now : ℚ)

/-- The updates of a snapshot: its tick, unless it has none or zero, and its levels. -/
def snapshotOps (upd : BookUpdate) : List BookOp :=
  ((upd.tickSize.filter fun tick => decide (tick ≠ 0)).toList.map BookOp.tickSize) ++
    [.snapshot upd.bids upd.asks upd.ts (hashOf H upd.bookHash) now]

/-- The update of a change. -/
def deltaOp (ch : PriceChange) : TokenId × BookOp :=
  (ch.assetId, .delta ch.side ch.price ch.size ch.ts now)

/-- The updates of books that a message makes, each with its token; a message that is refused or
raises makes none. -/
def bookOps (msg : Message) : List (TokenId × BookOp) :=
  if eventType msg = "book" then
    ((parseBook H msg).toOption.bind id).elim [] fun upd =>
      (snapshotOps H now upd).map fun op => (upd.assetId, op)
  else if eventType msg = "price_change" then
    ((parsePriceChanges H msg).toOption.getD []).map (deltaOp now)
  else if eventType msg = "last_trade_price" then []
  else if eventType msg = "tick_size_change" then
    ((parseTickSizeChange H msg).toOption.bind id).elim [] fun tc =>
      [(tc.assetId, .tickSize tc.tickSize)]
  else []

end Messages

/-- Something the listeners are told. -/
inductive MarketCall
  | journal (kind : String) (payload : Message) (ts : ℚ)
  | dirty (cond : ConditionId) (token : TokenId)
  | trade (tp : TradePrint)

namespace MarketHooks

variable {σ : Type*} (hooks : MarketHooks σ)

/-- The listeners hear of it. -/
def call (s : σ) : MarketCall → σ
  | .journal kind payload ts => hooks.journal.elim s fun write => write kind payload ts s
  | .dirty cond token => hooks.onDirty cond token s
  | .trade tp => hooks.onTrade tp s

end MarketHooks

namespace MarketDataService

variable {σ : Type*} (H : Host) (hooks : MarketHooks σ) (now : ℚ)

/-- What is told of a token that is dirty: an empty market id counts as none. -/
def wakeCalls (s : MarketDataService σ) (token : TokenId) : List MarketCall :=
  ((s.tokenCondition.get? token).filter fun cond => decide (cond ≠ "")).toList.map
    fun cond => .dirty cond token

/-- What is told of a snapshot. -/
def snapshotCalls (s : MarketDataService σ) (msg : Message) (upd : BookUpdate) : List MarketCall :=
  if upd.assetId ∈ s.books then .journal "book" msg upd.ts :: s.wakeCalls upd.assetId else []

/-- What is told of some changes. -/
def changeCalls (s : MarketDataService σ) (msg : Message) (changes : List PriceChange) :
    List MarketCall :=
  (changes.head?.toList.map fun ch => .journal "price_change" msg ch.ts) ++
    (hooks.setOrder (touched s.books changes)).flatMap s.wakeCalls

/-- What is told of a print. -/
def tradeCalls (s : MarketDataService σ) (msg : Message) (tp : TradePrint) : List MarketCall :=
  if tp.assetId ∈ s.books then [.journal "last_trade_price" msg tp.ts, .trade tp] else []

/-- What the listeners are told of a message. -/
def callsOf (s : MarketDataService σ) (msg : Message) : List MarketCall :=
  if eventType msg = "book" then
    ((parseBook H msg).toOption.bind id).elim [] (s.snapshotCalls msg)
  else if eventType msg = "price_change" then
    (parsePriceChanges H msg).toOption.elim [] (s.changeCalls hooks msg)
  else if eventType msg = "last_trade_price" then
    ((parseLastTrade H msg).toOption.bind id).elim [] (s.tradeCalls msg)
  else []

/-! ### One message -/

variable {H hooks now} {s : MarketDataService σ} {msg : Message}

@[simp] theorem wake_downstream (s : MarketDataService σ) (token : TokenId) :
    (s.wake hooks token).downstream = Run.run hooks.call s.downstream (s.wakeCalls token) := by
  unfold wake wakeCalls
  cases hcond : s.tokenCondition.get? token with
  | none => rfl
  | some cond =>
    by_cases hempty : cond = ""
    · subst hempty
      rfl
    · simp [hempty, Option.filter_some]
      rfl

@[simp] theorem journalWrite_downstream (kind : String) (ts : ℚ) (s : MarketDataService σ) :
    (journalWrite hooks kind msg ts s).downstream =
      hooks.call s.downstream (.journal kind msg ts) := by
  unfold journalWrite MarketHooks.call
  cases hooks.journal <;> rfl

/-- The books after a snapshot of a token's book. -/
theorem performs_snapshot (upd : BookUpdate) {book : LiveBook}
    (hbook : s.books.get? upd.assetId = some book) :
    Keyed.Performs LiveBook.step ((snapshotOps H now upd).map fun op => (upd.assetId, op)) s.books
      (s.books.set upd.assetId (snapshot H now upd book)) := by
  have hops : snapshot H now upd book = Run.run LiveBook.step book (snapshotOps H now upd) := by
    unfold snapshot snapshotOps
    cases upd.tickSize with
    | none => rfl
    | some tick =>
      by_cases htick : tick = 0
      · subst htick
        rfl
      · simp only [HostFloat.eq_rat, HostFloat.ofRat_rat, decide_eq_true_eq, htick, if_false,
          Option.filter_some, ne_eq, not_false_eq_true, decide_true, if_true]
        rfl
  rw [hops]
  exact .of_set hbook _

variable (now) in
/-- One change raises nothing, and leaves what is not a book. -/
theorem applyChange_eq (s : MarketDataService σ) (ch : PriceChange) :
    (applyChange now s ch).2 = none ∧
      (applyChange now s ch).1.tokenCondition = s.tokenCondition ∧
        (applyChange now s ch).1.downstream = s.downstream := by
  unfold applyChange
  cases s.books.get? ch.assetId <;> exact ⟨rfl, rfl, rfl⟩

/-- The books after one change. -/
theorem performs_applyChange (s : MarketDataService σ) (ch : PriceChange) :
    Keyed.Performs LiveBook.step [deltaOp now ch] s.books (applyChange now s ch).1.books := by
  unfold applyChange
  cases hbook : s.books.get? ch.assetId with
  | none => exact .of_absent hbook [BookOp.delta ch.side ch.price ch.size ch.ts now]
  | some book => exact .of_set hbook [BookOp.delta ch.side ch.price ch.size ch.ts now]

variable (now) in
/-- The changes of a message, one after the other. -/
def applyChanges (s : MarketDataService σ) (changes : List PriceChange) : MarketDataService σ :=
  Run.run (fun s ch => (applyChange now s ch).1) s changes

variable (now) in
theorem performs_changes (s : MarketDataService σ) (changes : List PriceChange) :
    Keyed.Performs LiveBook.step (changes.map (deltaOp now)) s.books
        (applyChanges now s changes).books ∧
      (applyChanges now s changes).tokenCondition = s.tokenCondition ∧
        (applyChanges now s changes).downstream = s.downstream := by
  induction changes generalizing s with
  | nil => exact ⟨.refl _, rfl, rfl⟩
  | cons ch changes ih =>
    obtain ⟨-, hcond, hdown⟩ := applyChange_eq now s ch
    obtain ⟨hbooks', hcond', hdown'⟩ := ih (applyChange now s ch).1
    exact ⟨(performs_applyChange s ch).trans hbooks', hcond'.trans hcond, hdown'.trans hdown⟩

/-- A message with changes raises only where its parser does. -/
theorem onPriceChange_of_ok {changes : List PriceChange}
    (h : parsePriceChanges H msg = .ok changes) (s : MarketDataService σ) :
    s.onPriceChange H hooks now msg =
      (tellChanges hooks msg changes (touched s.books changes) (applyChanges now s changes),
        none) := by
  unfold onPriceChange
  rw [h]
  simp only [runAll_of_never (applyChange now) fun s ch => (applyChange_eq now s ch).1]
  rfl

/-- A fold of wake-ups leaves the books and tells the listeners, token by token. -/
theorem foldl_wake (tokens : List TokenId) (s : MarketDataService σ) :
    (tokens.foldl (fun s token => s.wake hooks token) s).books = s.books ∧
      (tokens.foldl (fun s token => s.wake hooks token) s).tokenCondition = s.tokenCondition ∧
        (tokens.foldl (fun s token => s.wake hooks token) s).downstream =
          Run.run hooks.call s.downstream (tokens.flatMap s.wakeCalls) := by
  induction tokens generalizing s with
  | nil => exact ⟨rfl, rfl, rfl⟩
  | cons token tokens ih =>
    obtain ⟨hbooks, hcond, hdown⟩ := ih (s.wake hooks token)
    have hcalls : (s.wake hooks token).wakeCalls = s.wakeCalls := by
      funext t
      unfold wakeCalls
      rw [wake_tokenCondition]
    refine ⟨hbooks.trans (wake_books s token), hcond.trans (wake_tokenCondition s token), ?_⟩
    rw [List.foldl_cons, hdown, wake_downstream, hcalls, List.flatMap_cons, Run.run_append]

variable (hooks) in
/-- What follows the changes of a message leaves the books, and tells the listeners. -/
theorem tellChanges_eq (msg : Message) (changes : List PriceChange) (touched : List TokenId)
    (s : MarketDataService σ) :
    (tellChanges hooks msg changes touched s).books = s.books ∧
      (tellChanges hooks msg changes touched s).tokenCondition = s.tokenCondition ∧
        (tellChanges hooks msg changes touched s).downstream =
          Run.run hooks.call s.downstream
            ((changes.head?.toList.map fun ch => .journal "price_change" msg ch.ts) ++
              (hooks.setOrder touched).flatMap s.wakeCalls) := by
  unfold tellChanges
  cases changes with
  | nil => exact foldl_wake _ s
  | cons ch changes =>
    obtain ⟨hbooks, hcond, hdown⟩ :=
      foldl_wake (hooks.setOrder touched) (journalWrite hooks "price_change" msg ch.ts s)
    have hwake : (journalWrite hooks "price_change" msg ch.ts s).wakeCalls = s.wakeCalls := by
      funext token
      unfold wakeCalls
      rw [journalWrite_tokenCondition]
    refine ⟨hbooks.trans (journalWrite_books _ _ _ _),
      hcond.trans (journalWrite_tokenCondition _ _ _ _), hdown.trans ?_⟩
    rw [journalWrite_downstream, hwake]
    rfl

/-- **The books after a message** have run its updates. -/
theorem performs_dispatch (s : MarketDataService σ) (msg : Message) :
    Keyed.Performs LiveBook.step (bookOps H now msg) s.books
      (dispatch H hooks now s msg).1.books := by
  unfold dispatch bookOps
  split_ifs with hbook hchange htrade htick
  · unfold onBook
    rcases parseBook H msg with e | _ | upd
    · exact .refl _
    · exact .refl _
    · cases hget : s.books.get? upd.assetId with
      | none =>
        simp only [into, hget]
        exact .of_absent hget (snapshotOps H now upd)
      | some book =>
        simp only [into, hget, wake_books, journalWrite_books]
        exact performs_snapshot upd hget
  · cases hparse : parsePriceChanges H msg with
    | error e =>
      unfold onPriceChange
      rw [hparse]
      exact .refl _
    | ok changes =>
      rw [onPriceChange_of_ok hparse, (tellChanges_eq _ _ _ _ _).1]
      exact (performs_changes now s changes).1
  · unfold onLastTrade
    rcases parseLastTrade H msg with e | _ | tp
    · exact .refl _
    · exact .refl _
    · cases hget : s.books.get? tp.assetId with
      | none =>
        simp only [into, hget]
        exact .refl _
      | some book =>
        simp only [into, hget, journalWrite_books]
        exact .refl _
  · unfold onTickChange
    rcases parseTickSizeChange H msg with e | _ | tc
    · exact .refl _
    · exact .refl _
    · cases hget : s.books.get? tc.assetId with
      | none =>
        simp only [into, hget]
        exact .of_absent hget [BookOp.tickSize tc.tickSize]
      | some book =>
        simp only [into, hget]
        exact .of_set hget [BookOp.tickSize tc.tickSize]
  · exact .refl _

/-- **What the listeners hear of a message**; the markets of the tokens stay. -/
theorem downstream_dispatch (s : MarketDataService σ) (msg : Message) :
    (dispatch H hooks now s msg).1.tokenCondition = s.tokenCondition ∧
      (dispatch H hooks now s msg).1.downstream =
        Run.run hooks.call s.downstream (s.callsOf H hooks msg) := by
  unfold dispatch callsOf
  split_ifs with hbook hchange htrade htick
  · unfold onBook
    rcases parseBook H msg with e | _ | upd
    · exact ⟨rfl, rfl⟩
    · exact ⟨rfl, rfl⟩
    · change _ ∧ _ = Run.run _ _ (s.snapshotCalls msg upd)
      unfold snapshotCalls
      cases hget : s.books.get? upd.assetId with
      | none =>
        rw [if_neg (Dict.get?_eq_none_iff.1 hget)]
        simp only [into, hget]
        exact ⟨trivial, rfl⟩
      | some book =>
        rw [if_pos (Dict.mem_of_get? hget)]
        simp only [into, hget, wake_tokenCondition, journalWrite_tokenCondition, wake_downstream,
          journalWrite_downstream, Run.run_cons, true_and]
        unfold wakeCalls
        rw [journalWrite_tokenCondition]
  · cases hparse : parsePriceChanges H msg with
    | error e =>
      unfold onPriceChange
      rw [hparse]
      exact ⟨rfl, rfl⟩
    | ok changes =>
      obtain ⟨-, hcond, hdown⟩ := performs_changes now s changes
      obtain ⟨-, hcond', hdown'⟩ := tellChanges_eq hooks msg changes
        (touched s.books changes) (applyChanges now s changes)
      have hwake : (applyChanges now s changes).wakeCalls = s.wakeCalls := by
        funext token
        unfold wakeCalls
        rw [hcond]
      rw [onPriceChange_of_ok hparse]
      refine ⟨hcond'.trans hcond, hdown'.trans ?_⟩
      rw [hdown, hwake]
      rfl
  · unfold onLastTrade
    rcases parseLastTrade H msg with e | _ | tp
    · exact ⟨rfl, rfl⟩
    · exact ⟨rfl, rfl⟩
    · change _ ∧ _ = Run.run _ _ (s.tradeCalls msg tp)
      unfold tradeCalls
      cases hget : s.books.get? tp.assetId with
      | none =>
        rw [if_neg (Dict.get?_eq_none_iff.1 hget)]
        simp only [into, hget]
        exact ⟨trivial, rfl⟩
      | some book =>
        rw [if_pos (Dict.mem_of_get? hget)]
        simp only [into, hget, journalWrite_tokenCondition, journalWrite_downstream]
        exact ⟨trivial, rfl⟩
  · unfold onTickChange
    rcases parseTickSizeChange H msg with e | _ | tc
    · exact ⟨rfl, rfl⟩
    · exact ⟨rfl, rfl⟩
    · cases hget : s.books.get? tc.assetId with
      | none =>
        simp only [into, hget]
        exact ⟨trivial, rfl⟩
      | some book =>
        simp only [into, hget]
        exact ⟨trivial, rfl⟩
  · exact ⟨rfl, rfl⟩

/-! ### Frames -/

variable (H) in
/-- The service raises on the message. -/
def raisesOn (msg : Message) : Bool :=
  if eventType msg = "book" then !(parseBook H msg).isOk
  else if eventType msg = "price_change" then !(parsePriceChanges H msg).isOk
  else if eventType msg = "last_trade_price" then !(parseLastTrade H msg).isOk
  else if eventType msg = "tick_size_change" then !(parseTickSizeChange H msg).isOk
  else false

variable (H) in
/-- The messages of a frame up to the first on which the service raises. -/
def accepted (raw : Loaded) : List Message := raw.objects.takeWhile fun msg => !raisesOn H msg

theorem isSome_dispatch_eq (s : MarketDataService σ) (msg : Message) :
    (dispatch H hooks now s msg).2.isSome = raisesOn H msg := by
  unfold dispatch raisesOn
  split_ifs
  · unfold onBook
    cases parseBook H msg <;> rfl
  · cases hparse : parsePriceChanges H msg with
    | error e =>
      unfold onPriceChange
      rw [hparse]
      rfl
    | ok changes =>
      rw [onPriceChange_of_ok hparse]
      rfl
  · unfold onLastTrade
    cases parseLastTrade H msg <;> rfl
  · unfold onTickChange
    cases parseTickSizeChange H msg <;> rfl
  · rfl

/-- A message on which the service raises leaves it as it was. -/
theorem dispatch_of_raisesOn (h : raisesOn H msg = true) (s : MarketDataService σ) :
    (dispatch H hooks now s msg).1 = s := by
  unfold raisesOn at h
  unfold dispatch
  split_ifs at h ⊢
  · unfold onBook
    cases hp : parseBook H msg with
    | error e => rfl
    | ok upd => rw [hp] at h; cases h
  · cases hp : parsePriceChanges H msg with
    | error e =>
      unfold onPriceChange
      rw [hp]
    | ok changes => rw [hp] at h; cases h
  · unfold onLastTrade
    cases hp : parseLastTrade H msg with
    | error e => rfl
    | ok tp => rw [hp] at h; cases h
  · unfold onTickChange
    cases hp : parseTickSizeChange H msg with
    | error e => rfl
    | ok tc => rw [hp] at h; cases h

variable (H hooks)

/-- The service after a frame, at the local time it is handled. -/
def hear (s : MarketDataService σ) (frame : Loaded × ℚ) : MarketDataService σ :=
  (handle H hooks frame.2 s frame.1).1

/-- The updates of books that a frame makes. -/
def frameOps (frame : Loaded × ℚ) : List (TokenId × BookOp) :=
  (accepted H frame.1).flatMap (bookOps H frame.2)

/-- What the listeners are told of a frame. -/
def frameCalls (s : MarketDataService σ) (frame : Loaded × ℚ) : List MarketCall :=
  (accepted H frame.1).flatMap (s.callsOf H hooks)

variable {H hooks}

/-- Two states with the same subscription: the tokens that have books, and the market of each. -/
structure SameSubscription (s s' : MarketDataService σ) : Prop where
  mem_iff : ∀ token, token ∈ s'.books ↔ token ∈ s.books
  tokenCondition : s'.tokenCondition = s.tokenCondition

theorem SameSubscription.trans {s s' s'' : MarketDataService σ} (h : SameSubscription s s')
    (h' : SameSubscription s' s'') : SameSubscription s s'' :=
  ⟨fun token => (h'.mem_iff token).trans (h.mem_iff token),
    h'.tokenCondition.trans h.tokenCondition⟩

variable (H hooks now) in
theorem sameSubscription_dispatch (s : MarketDataService σ) (msg : Message) :
    SameSubscription s (dispatch H hooks now s msg).1 :=
  ⟨(performs_dispatch s msg).mem_iff, (downstream_dispatch s msg).1⟩

/-- What is told of a message depends on the subscription alone. -/
theorem SameSubscription.callsOf_eq {s s' : MarketDataService σ} (h : SameSubscription s s')
    (msg : Message) : s'.callsOf H hooks msg = s.callsOf H hooks msg := by
  have hwake : s'.wakeCalls = s.wakeCalls := by
    funext token
    unfold wakeCalls
    rw [h.tokenCondition]
  have htouched (changes : List PriceChange) :
      touched s'.books changes = touched s.books changes := by
    unfold touched
    congr 2
    funext token
    rw [Bool.eq_iff_iff, ← Dict.mem_iff_isSome, ← Dict.mem_iff_isSome, h.mem_iff token]
  have hsnapshot : s'.snapshotCalls msg = s.snapshotCalls msg := by
    funext upd
    unfold snapshotCalls
    rw [hwake, if_congr (h.mem_iff upd.assetId) rfl rfl]
  have hchange : s'.changeCalls hooks msg = s.changeCalls hooks msg := by
    funext changes
    unfold changeCalls
    rw [hwake, htouched]
  have htrade : s'.tradeCalls msg = s.tradeCalls msg := by
    funext tp
    unfold tradeCalls
    rw [if_congr (h.mem_iff tp.assetId) rfl rfl]
  unfold callsOf
  rw [hsnapshot, hchange, htrade]

/-- A batch, message by message. -/
theorem dispatch_run (msgs : List Message) (s : MarketDataService σ) :
    SameSubscription s (Run.run (fun s m => (dispatch H hooks now s m).1) s msgs) ∧
      Keyed.Performs LiveBook.step (msgs.flatMap (bookOps H now)) s.books
        (Run.run (fun s m => (dispatch H hooks now s m).1) s msgs).books ∧
      (Run.run (fun s m => (dispatch H hooks now s m).1) s msgs).downstream =
        Run.run hooks.call s.downstream (msgs.flatMap (s.callsOf H hooks)) := by
  induction msgs generalizing s with
  | nil => exact ⟨⟨fun _ => Iff.rfl, rfl⟩, .refl _, rfl⟩
  | cons msg msgs ih =>
    have hsub := sameSubscription_dispatch H hooks now s msg
    obtain ⟨hsub', hops, hcalls⟩ := ih (dispatch H hooks now s msg).1
    refine ⟨hsub.trans hsub', (performs_dispatch s msg).trans hops, ?_⟩
    rw [Run.run_cons, hcalls, (downstream_dispatch s msg).2, List.flatMap_cons, Run.run_append]
    congr 2
    funext m
    exact hsub.callsOf_eq m

/-- A frame is its batch up to the first message that raises. -/
theorem hear_eq (s : MarketDataService σ) (frame : Loaded × ℚ) :
    hear H hooks s frame =
      Run.run (fun s m => (dispatch H hooks frame.2 s m).1) s (accepted H frame.1) := by
  obtain ⟨e | data, now⟩ := frame
  · unfold hear handle handleLoaded tryExcept
    dsimp only
    split_ifs <;> rfl
  · exact Raising.fst_runAll isSome_dispatch_eq (fun s _ h => dispatch_of_raisesOn h s) s _

variable (H hooks) in
theorem sameSubscription_hear (s : MarketDataService σ) (frame : Loaded × ℚ) :
    SameSubscription s (hear H hooks s frame) := by
  rw [hear_eq]
  exact (dispatch_run _ s).1

theorem performs_hear (s : MarketDataService σ) (frame : Loaded × ℚ) :
    Keyed.Performs LiveBook.step (frameOps H frame) s.books (hear H hooks s frame).books := by
  rw [hear_eq]
  exact (dispatch_run _ s).2.1

theorem downstream_hear (s : MarketDataService σ) (frame : Loaded × ℚ) :
    (hear H hooks s frame).downstream =
      Run.run hooks.call s.downstream (s.frameCalls H hooks frame) := by
  rw [hear_eq]
  exact (dispatch_run _ s).2.2

theorem SameSubscription.frameCalls_eq {s s' : MarketDataService σ} (h : SameSubscription s s')
    (frame : Loaded × ℚ) : s'.frameCalls H hooks frame = s.frameCalls H hooks frame := by
  unfold frameCalls
  congr 1
  funext msg
  exact h.callsOf_eq msg

/-! ### Any frames -/

/-- Over any frames the books run the updates that name them, and the listeners hear what the frames
and the subscription determine. -/
theorem performs_run (frames : List (Loaded × ℚ)) (s : MarketDataService σ) :
    SameSubscription s (Run.run (hear H hooks) s frames) ∧
      Keyed.Performs LiveBook.step (frames.flatMap (frameOps H)) s.books
        (Run.run (hear H hooks) s frames).books ∧
      (Run.run (hear H hooks) s frames).downstream =
        Run.run hooks.call s.downstream (frames.flatMap (s.frameCalls H hooks)) := by
  induction frames generalizing s with
  | nil => exact ⟨⟨fun _ => Iff.rfl, rfl⟩, .refl _, rfl⟩
  | cons frame frames ih =>
    have hsub := sameSubscription_hear H hooks s frame
    obtain ⟨hsub', hops, hcalls⟩ := ih (hear H hooks s frame)
    refine ⟨hsub.trans hsub', (performs_hear s frame).trans hops, ?_⟩
    rw [Run.run_cons, hcalls, downstream_hear, List.flatMap_cons, Run.run_append]
    congr 2
    funext f
    exact hsub.frameCalls_eq f

end MarketDataService

end Polymaker
