import Polymaker.Engine.Recompute
import Polymaker.MarketData.BookUpdates

/-!
# The tick of a market

A market's tick is kept in three places: its metadata, from which a recompute takes the tick it
quotes, reconciles and signs with, and the books of its two tokens.

* `setMarkets`, `onBook`, `onTickChange`, `applyMetaRefresh`: the code that writes a tick;
* `TickDesk`: the engine and its books, with the tick last reported for each market;
* `TickAgrees`: all places have the tick reported last;
* `Repeats`: a report repeats what the places it does not write have already;
* `ticks_agree_iff`: the places agree all along a run if and only if every report is a repetition.
-/

namespace Polymaker

/-! ### Frames -/

/-- `set_markets`: a book for every token that has none. -/
def setMarkets (books : Dict TokenId LiveBook) (tokens : List TokenId) : Dict TokenId LiveBook :=
  tokens.foldl (fun books tok =>
    if tok ∈ books then books else books.set tok (.new (1 / 1000))) books

/-- `_on_book`: the frame's tick, unless it is absent or zero, and then its levels. -/
def onBook (books : Dict TokenId LiveBook) (asset : TokenId) (bids asks : List (ℚ × ℚ)) (ts : ℚ)
    (hash : Option String) (tickSize : Option ℚ) (now : ℚ) : Dict TokenId LiveBook :=
  match books.get? asset with
  | none => books
  | some b =>
    let b := match tickSize.filter fun t => decide (t ≠ 0) with
      | some t => b.setTickSize t
      | none => b
    books.set asset (b.applySnapshot bids asks ts hash now)

/-- `set_tick_size` on the book of a token, where it has one. -/
def setBookTick (books : Dict TokenId LiveBook) (tok : TokenId) (tickSize : ℚ) :
    Dict TokenId LiveBook :=
  match books.get? tok with
  | none => books
  | some b => books.set tok (b.setTickSize tickSize)

/-- `_on_tick_change`. -/
def onTickChange (books : Dict TokenId LiveBook) (asset : TokenId) (tickSize : ℚ) :
    Dict TokenId LiveBook := setBookTick books asset tickSize

/-! ### Metadata -/

/-- What a metadata refresh reads of a market, each field where the answer has it; an end date that
does not parse leaves the market without one. -/
structure RawMarket where
  rewardsMinSize : Option ℚ
  rewardsMaxSpread : Option ℚ
  endDate : Option (Option ℚ)
  orderMinSize : Option ℚ
  orderPriceMinTickSize : Option ℚ

/-- The metadata with the fields of the answer. -/
def MarketMeta.refreshed (m : MarketMeta) (raw : RawMarket) : MarketMeta :=
  { m with
    rewardsMinSize := raw.rewardsMinSize.getD m.rewardsMinSize
    rewardsMaxSpread := raw.rewardsMaxSpread.getD m.rewardsMaxSpread
    endDate := raw.endDate.getD m.endDate
    minOrderSize := raw.orderMinSize.getD m.minOrderSize
    tickSize := raw.orderPriceMinTickSize.getD m.tickSize }

/-- The tick of the answer where it differs, `updates["tick_size"]`. -/
def MarketMeta.newTick (m : MarketMeta) (raw : RawMarket) : Option ℚ :=
  raw.orderPriceMinTickSize.filter fun t => decide (t ≠ m.tickSize)

/-- The tick that `place` signs the orders of a market with. -/
def MarketMeta.signingTick (m : MarketMeta) : ℚ := m.tickSize

/-- `_apply_meta_refresh`: a new tick goes to the YES book too. -/
def applyMetaRefresh (e : Engine) (books : Dict TokenId LiveBook) (cid : ConditionId)
    (raw : RawMarket) : Engine × Dict TokenId LiveBook :=
  match e.markets.get? cid with
  | none => (e, books)
  | some m =>
    (e.setMarket cid { m with info := m.info.refreshed raw },
      match m.info.newTick raw with
      | none => books
      | some t => setBookTick books m.info.yes t)

/-! ### Runs -/

/-- An event that may report a tick. -/
inductive TickEvent
  | book (asset : TokenId) (bids asks : List (ℚ × ℚ)) (ts : ℚ) (hash : Option String)
      (tickSize : Option ℚ) (now : ℚ)
  | tickChange (asset : TokenId) (tickSize : ℚ)
  | metaRefresh (cid : ConditionId) (raw : RawMarket)

namespace TickEvent

/-- The event refreshes the metadata of a market. -/
def Refreshes : TickEvent → ConditionId → Prop
  | .metaRefresh cid' _, cid => cid' = cid
  | _, _ => False

/-- What a market becomes under an event. -/
def marketAfter (e : TickEvent) (cid : ConditionId) (m : Market) : Market :=
  match e with
  | .metaRefresh cid' raw => if cid' = cid then { m with info := m.info.refreshed raw } else m
  | _ => m

@[simp] theorem tokens_marketAfter (e : TickEvent) (cid : ConditionId) (m : Market) :
    (e.marketAfter cid m).info.tokens = m.info.tokens := by
  cases e with
  | metaRefresh cid' raw =>
    change (if cid' = cid then { m with info := m.info.refreshed raw } else m).info.tokens = _
    split_ifs <;> rfl
  | _ => rfl

theorem marketAfter_of_not_refreshes {e : TickEvent} {cid : ConditionId} (h : ¬ e.Refreshes cid)
    (m : Market) : e.marketAfter cid m = m := by
  cases e with
  | metaRefresh cid' raw => exact if_neg h
  | _ => rfl

end TickEvent

/-- The engine and its books, with the tick last reported for each market. -/
structure TickDesk where
  engine : Engine
  books : Dict TokenId LiveBook
  reported : ConditionId → Option ℚ

namespace TickDesk

/-- The subscribed engine, before any report. -/
def start (e : Engine) : TickDesk :=
  ⟨e, setMarkets .empty (e.markets.values.flatMap fun m => m.info.tokens), fun _ => none⟩

/-- The tokens of a market. -/
def tokensOf (d : TickDesk) (cid : ConditionId) : List TokenId :=
  ((d.engine.markets.get? cid).map fun m => m.info.tokens).getD []

/-- The tick an event reports for a market. -/
def reports (d : TickDesk) (cid : ConditionId) : TickEvent → Option ℚ
  | .book asset _ _ _ _ tickSize _ =>
    if asset ∈ d.tokensOf cid then tickSize.filter fun t => decide (t ≠ 0) else none
  | .tickChange asset tickSize => if asset ∈ d.tokensOf cid then some tickSize else none
  | .metaRefresh cid' raw => if cid' = cid then raw.orderPriceMinTickSize else none

/-- One event. -/
def step (d : TickDesk) (e : TickEvent) : TickDesk :=
  let reported := fun cid => (d.reports cid e).or (d.reported cid)
  match e with
  | .book asset bids asks ts hash tickSize now =>
    ⟨d.engine, onBook d.books asset bids asks ts hash tickSize now, reported⟩
  | .tickChange asset tickSize => ⟨d.engine, onTickChange d.books asset tickSize, reported⟩
  | .metaRefresh cid raw =>
    let (engine, books) := applyMetaRefresh d.engine d.books cid raw
    ⟨engine, books, reported⟩

/-- The tick of a token's book. -/
def bookTick (d : TickDesk) (tok : TokenId) : Option ℚ :=
  (d.books.get? tok).map LiveBook.tickSize

/-- What a recompute of the market hands on, and the books of both its tokens, have the tick `t`. -/
structure TickAgrees (d : TickDesk) (m : Market) (t : ℚ) : Prop where
  quoting : ∀ obs micro fv rd regime,
    (d.engine.quoteInputs m obs micro fv rd regime).m.tickSize = t
  reconciling : (Engine.tolerance m).tick = t
  signing : m.info.signingTick = t
  books : ∀ tok ∈ m.info.tokens, d.bookTick tok = some t

/-- Every place has the tick reported last for its market. -/
def Agrees (d : TickDesk) : Prop :=
  ∀ cid m t, d.engine.markets.get? cid = some m → d.reported cid = some t → d.TickAgrees m t

/-- The tick an event writes to the book of a token. -/
def written (d : TickDesk) (tok : TokenId) : TickEvent → Option ℚ
  | .book asset _ _ _ _ tickSize _ =>
    if asset = tok then tickSize.filter fun t => decide (t ≠ 0) else none
  | .tickChange asset tickSize => if asset = tok then some tickSize else none
  | .metaRefresh cid raw =>
    (d.engine.markets.get? cid).bind fun m =>
      if m.info.yes = tok then m.info.newTick raw else none

/-- The event is a report of the tick the places it does not write have already; and where it
writes a market's books without a report for that market, it repeats the last one. -/
def Repeats (d : TickDesk) (e : TickEvent) : Prop :=
  ∀ cid m, d.engine.markets.get? cid = some m →
    (∀ t, d.reports cid e = some t →
      (¬ e.Refreshes cid → m.info.tickSize = t) ∧
        ∀ tok ∈ m.info.tokens, d.written tok e = none → d.bookTick tok = some t) ∧
    (d.reports cid e = none → ∀ t, d.reported cid = some t →
      ∀ tok ∈ m.info.tokens, ∀ u, d.written tok e = some u → u = t)

/-- Both tokens of every market have a book. -/
def Subscribed (d : TickDesk) : Prop :=
  ∀ cid m, d.engine.markets.get? cid = some m → ∀ tok ∈ m.info.tokens, (d.bookTick tok).isSome

/-! ### One event -/

theorem tickAgrees_iff {d : TickDesk} {m : Market} {t : ℚ} :
    d.TickAgrees m t ↔ m.info.tickSize = t ∧ ∀ tok ∈ m.info.tokens, d.bookTick tok = some t :=
  ⟨fun h => ⟨h.reconciling, h.books⟩, fun h => ⟨fun _ _ _ _ _ => h.1, h.1, h.1, h.2⟩⟩

theorem tickSize_applySnapshot (b : LiveBook) (bids asks : List (ℚ × ℚ)) (ts : ℚ)
    (hash : Option String) (now : ℚ) :
    (b.applySnapshot bids asks ts hash now).tickSize = b.tickSize := by
  unfold LiveBook.applySnapshot
  split_ifs <;> rfl

theorem map_tickSize_setBookTick (books : Dict TokenId LiveBook) (asset tok : TokenId) (t : ℚ) :
    ((setBookTick books asset t).get? tok).map LiveBook.tickSize =
      ((books.get? tok).map LiveBook.tickSize).map fun u => if asset = tok then t else u := by
  unfold setBookTick
  by_cases htok : asset = tok
  · subst htok
    cases h : books.get? asset <;> simp [h, LiveBook.setTickSize]
  · cases books.get? asset <;> simp [htok, Ne.symm htok, Function.comp_def]

theorem map_tickSize_onBook (books : Dict TokenId LiveBook) (asset tok : TokenId)
    (bids asks : List (ℚ × ℚ)) (ts : ℚ) (hash : Option String) (tickSize : Option ℚ) (now : ℚ) :
    ((onBook books asset bids asks ts hash tickSize now).get? tok).map LiveBook.tickSize =
      ((books.get? tok).map LiveBook.tickSize).map fun u =>
        if asset = tok then (tickSize.filter fun t => decide (t ≠ 0)).getD u else u := by
  unfold onBook
  by_cases htok : asset = tok
  · subst htok
    cases h : books.get? asset with
    | none => simp [h]
    | some b =>
      cases tickSize.filter fun t => decide (t ≠ 0) <;>
        simp [tickSize_applySnapshot, LiveBook.setTickSize]
  · cases books.get? asset <;> simp [htok, Ne.symm htok, Function.comp_def]

/-- A book has the tick the event writes to it, else the one it had. -/
theorem bookTick_step (d : TickDesk) (e : TickEvent) (tok : TokenId) :
    (d.step e).bookTick tok = (d.bookTick tok).map fun u => (d.written tok e).getD u := by
  cases e with
  | book asset bids asks ts hash tickSize now =>
    refine (map_tickSize_onBook d.books asset tok bids asks ts hash tickSize now).trans ?_
    unfold written bookTick
    by_cases h : asset = tok <;> simp [h]
  | tickChange asset tickSize =>
    refine (map_tickSize_setBookTick d.books asset tok tickSize).trans ?_
    unfold written bookTick
    by_cases h : asset = tok <;> simp [h]
  | metaRefresh cid raw =>
    unfold step written bookTick applyMetaRefresh
    cases hm : d.engine.markets.get? cid with
    | none => simp [hm, Function.comp_def]
    | some m =>
      cases ht : m.info.newTick raw with
      | none => simp [hm, ht, Function.comp_def]
      | some t =>
        have hset := map_tickSize_setBookTick d.books m.info.yes tok t
        by_cases h : m.info.yes = tok <;> simpa [hm, ht, h] using hset

/-- A market after an event. -/
theorem markets_step (d : TickDesk) (e : TickEvent) (cid : ConditionId) :
    (d.step e).engine.markets.get? cid = (d.engine.markets.get? cid).map (e.marketAfter cid) := by
  cases e with
  | book asset bids asks ts hash tickSize now => exact (congrFun Option.map_id _).symm
  | tickChange asset tickSize => exact (congrFun Option.map_id _).symm
  | metaRefresh cid' raw =>
    unfold step applyMetaRefresh TickEvent.marketAfter
    by_cases hcid : cid' = cid
    · subst hcid
      cases hm : d.engine.markets.get? cid' <;> simp [hm, Engine.setMarket]
    · cases hm : d.engine.markets.get? cid' <;>
        simp [hm, hcid, Ne.symm hcid, Engine.setMarket]

/-- A tick reported for a market is the one written to its books. -/
theorem eq_of_written {d : TickDesk} {e : TickEvent} {cid : ConditionId} {m : Market} {t u : ℚ}
    {tok : TokenId} (hm : d.engine.markets.get? cid = some m) (ht : d.reports cid e = some t)
    (htok : tok ∈ m.info.tokens) (hu : d.written tok e = some u) : u = t := by
  have htokens : tok ∈ d.tokensOf cid := by simpa [tokensOf, hm] using htok
  cases e with
  | book asset bids asks ts hash tickSize now =>
    simp only [written] at hu
    split_ifs at hu with h
    subst h
    exact Option.some.inj (hu.symm.trans ((if_pos htokens).symm.trans ht))
  | tickChange asset tickSize =>
    simp only [written] at hu
    split_ifs at hu with h
    subst h
    exact Option.some.inj (hu.symm.trans ((if_pos htokens).symm.trans ht))
  | metaRefresh cid' raw =>
    simp only [reports] at ht
    split_ifs at ht with h
    subst h
    simp only [written] at hu
    rw [hm, Option.bind_some] at hu
    split_ifs at hu
    exact Option.some.inj ((Option.filter_eq_some_iff.1 hu).1.symm.trans ht)

/-- Where a report refreshes the metadata, its tick is the reported one, and else the one it had. -/
theorem tickSize_of_refreshes {d : TickDesk} {e : TickEvent} {cid : ConditionId}
    (h : e.Refreshes cid) (m : Market) :
    (e.marketAfter cid m).info.tickSize = (d.reports cid e).getD m.info.tickSize := by
  cases e with
  | metaRefresh cid' raw =>
    obtain rfl : cid' = cid := h
    have hreports : d.reports cid' (.metaRefresh cid' raw) = raw.orderPriceMinTickSize := if_pos rfl
    have hafter : (TickEvent.metaRefresh cid' raw).marketAfter cid' m =
        { m with info := m.info.refreshed raw } := if_pos rfl
    rw [hafter, hreports]
    simp [MarketMeta.refreshed]
  | book => exact h.elim
  | tickChange => exact h.elim

/-- Without a report the metadata keeps its tick. -/
theorem tickSize_of_not_reports {d : TickDesk} {e : TickEvent} {cid : ConditionId}
    (ht : d.reports cid e = none) (m : Market) :
    (e.marketAfter cid m).info.tickSize = m.info.tickSize := by
  by_cases h : e.Refreshes cid
  · rw [tickSize_of_refreshes (d := d) h, ht, Option.getD_none]
  · rw [TickEvent.marketAfter_of_not_refreshes h]

theorem subscribed_step {d : TickDesk} (h : d.Subscribed) (e : TickEvent) :
    (d.step e).Subscribed := by
  intro cid m' hm' tok htok
  rw [markets_step] at hm'
  obtain ⟨m, hm, rfl⟩ := Option.map_eq_some_iff.1 hm'
  rw [TickEvent.tokens_marketAfter] at htok
  rw [bookTick_step, Option.isSome_map]
  exact h cid m hm tok htok

/-- After a report the places have its tick if those it does not write had it already, and only
then. -/
theorem tickAgrees_step_of_reports {d : TickDesk} (hsub : d.Subscribed) {e : TickEvent}
    {cid : ConditionId} {m : Market} {t : ℚ} (hm : d.engine.markets.get? cid = some m)
    (ht : d.reports cid e = some t) :
    (d.step e).TickAgrees (e.marketAfter cid m) t ↔ (¬ e.Refreshes cid → m.info.tickSize = t) ∧
      ∀ tok ∈ m.info.tokens, d.written tok e = none → d.bookTick tok = some t := by
  rw [tickAgrees_iff, TickEvent.tokens_marketAfter]
  refine and_congr ?_ (forall₂_congr fun tok htok => ?_)
  · by_cases href : e.Refreshes cid
    · refine iff_of_true ?_ fun h => absurd href h
      rw [tickSize_of_refreshes (d := d) href, ht, Option.getD_some]
    · rw [TickEvent.marketAfter_of_not_refreshes href]
      exact ⟨fun h _ => h, fun h => h href⟩
  · rw [bookTick_step]
    cases hw : d.written tok e with
    | none => simp
    | some u =>
      obtain rfl := eq_of_written hm ht htok hw
      obtain ⟨v, hv⟩ := Option.isSome_iff_exists.1 (hsub cid m hm tok htok)
      simp [hv]

/-- Without a report the places keep their tick if what is written is that tick, and only then. -/
theorem tickAgrees_step_of_not_reports {d : TickDesk} {e : TickEvent} {cid : ConditionId}
    {m : Market} {t : ℚ} (hnone : d.reports cid e = none) (h : d.TickAgrees m t) :
    (d.step e).TickAgrees (e.marketAfter cid m) t ↔
      ∀ tok ∈ m.info.tokens, ∀ u, d.written tok e = some u → u = t := by
  obtain ⟨hmeta, hbooks⟩ := tickAgrees_iff.1 h
  rw [tickAgrees_iff, TickEvent.tokens_marketAfter, tickSize_of_not_reports hnone]
  refine (and_iff_right hmeta).trans (forall₂_congr fun tok htok => ?_)
  rw [bookTick_step, hbooks tok htok]
  cases d.written tok e <;> simp

/-- The places agree after an event if and only if it is a repetition. -/
theorem agrees_step_iff {d : TickDesk} (hsub : d.Subscribed) (h : d.Agrees) (e : TickEvent) :
    (d.step e).Agrees ↔ d.Repeats e := by
  have hreported : ∀ cid, (d.step e).reported cid = (d.reports cid e).or (d.reported cid) := by
    intro cid
    cases e <;> rfl
  constructor
  · intro hafter cid m hm
    have hm' := (markets_step d e cid).trans (congrArg (Option.map (e.marketAfter cid)) hm)
    refine ⟨fun t ht => ?_, fun hnone t ht => ?_⟩
    · exact (tickAgrees_step_of_reports hsub hm ht).1
        (hafter cid _ t hm' (by rw [hreported, ht]; rfl))
    · exact (tickAgrees_step_of_not_reports hnone (h cid m t hm ht)).1
        (hafter cid _ t hm' (by rw [hreported, hnone, ht]; rfl))
  · intro hrep cid m' t hm' ht
    rw [markets_step] at hm'
    obtain ⟨m, hm, rfl⟩ := Option.map_eq_some_iff.1 hm'
    obtain ⟨hloud, hsilent⟩ := hrep cid m hm
    rw [hreported] at ht
    cases hreports : d.reports cid e with
    | some v =>
      obtain rfl : v = t := by simpa [hreports] using ht
      exact (tickAgrees_step_of_reports hsub hm hreports).2 (hloud v hreports)
    | none =>
      have ht : d.reported cid = some t := by simpa [hreports] using ht
      exact (tickAgrees_step_of_not_reports hreports (h cid m t hm ht)).2 (hsilent hreports t ht)

/-- Where the places agree, a repetition never changes the tick of a market of two tokens. -/
theorem tick_eq_of_repeats {d : TickDesk} {e : TickEvent} {cid : ConditionId} {m : Market}
    {t u : ℚ} (h : d.Agrees) (hrep : d.Repeats e) (hm : d.engine.markets.get? cid = some m)
    (hne : m.info.yes ≠ m.info.no) (ht : d.reported cid = some t)
    (hu : d.reports cid e = some u) : u = t := by
  obtain ⟨hmeta, hbooks⟩ := tickAgrees_iff.1 (h cid m t hm ht)
  obtain ⟨hrepMeta, hrepBooks⟩ := (hrep cid m hm).1 u hu
  by_cases href : e.Refreshes cid
  · have hno : m.info.no ∈ m.info.tokens := List.mem_cons_of_mem _ List.mem_cons_self
    have hwritten : d.written m.info.no e = none := by
      cases e with
      | metaRefresh cid' raw =>
        obtain rfl : cid' = cid := href
        simp only [written]
        rw [hm, Option.bind_some, if_neg hne]
      | book => exact href.elim
      | tickChange => exact href.elim
    exact Option.some.inj ((hrepBooks _ hno hwritten).symm.trans (hbooks _ hno))
  · exact (hrepMeta href).symm.trans hmeta

/-! ### Runs -/

/-- Subscribing gives a book to every token without one. -/
theorem get?_setMarkets (tokens : List TokenId) (books : Dict TokenId LiveBook) (tok : TokenId) :
    (setMarkets books tokens).get? tok =
      if tok ∈ tokens then some ((books.get? tok).getD (.new (1 / 1000))) else books.get? tok := by
  induction tokens generalizing books with
  | nil => rfl
  | cons t tokens ih =>
    change (setMarkets (if t ∈ books then books else books.set t (.new (1 / 1000))) tokens).get? tok
      = _
    rw [ih]
    by_cases ht : t ∈ books
    · rw [if_pos ht]
      by_cases htok : tok = t
      · subst htok
        obtain ⟨b, hb⟩ := Dict.exists_get?_of_mem ht
        simp [hb]
      · simp [htok]
    · rw [if_neg ht]
      by_cases htok : tok = t
      · subst htok
        simp [Dict.get?_eq_none_iff.2 ht]
      · simp [htok]

theorem subscribed_start (e : Engine) : (start e).Subscribed := by
  intro cid m hm tok htok
  have hmem : tok ∈ e.markets.values.flatMap fun m => m.info.tokens :=
    List.mem_flatMap.2 ⟨m, Dict.mem_values_iff.2 ⟨cid, hm⟩, htok⟩
  unfold bookTick start
  rw [Option.isSome_map, get?_setMarkets, if_pos hmem]
  rfl

/-- **When every place has the tick reported last.**  Along every run of frames and refreshes of a
subscribed engine, a recompute quotes, reconciles and signs with the tick reported last for its
market, and both books have it, if and only if every event repeats what the places it does not write
have already. -/
theorem ticks_agree_iff (e : Engine) (es : List TickEvent) :
    Run.Always step Agrees (start e) es ↔ Run.EachStep step Repeats (start e) es :=
  Run.always_iff_eachStep (I := Subscribed) (fun _ e h => subscribed_step h e)
    (fun _ e hsub h => agrees_step_iff hsub h e) (subscribed_start e) fun _ _ _ _ h => by cases h

/-- Both books say 0.01, as the metadata do; then a frame of the YES token changes the tick to
0.001, and orders are still signed with 0.01. -/
theorem signs_with_old_tick :
    let m : MarketMeta := ⟨"c", "yes", "no", 1 / 100, 5, 0, 0, none, none⟩
    let e : Engine := ⟨{}, Dict.empty.set "c" { info := m, profile := {} },
      StateStore.open .fresh, .new {}, Dict.empty⟩
    ¬ ∀ es : List TickEvent, Run.Always step Agrees (start e) es := by
  intro m e h
  have hlast := (h [.book "yes" [(1 / 2, 100)] [(13 / 25, 100)] 1 none (some (1 / 100)) 1,
    .book "no" [(12 / 25, 100)] [(1 / 2, 100)] 1 none (some (1 / 100)) 1,
    .tickChange "yes" (1 / 1000)]).last
  have hsign := (hlast "c" { info := m, profile := {} } (1 / 1000) (by decide +kernel)
    (by decide +kernel)).signing
  exact absurd hsign (by decide +kernel)

end TickDesk

end Polymaker
