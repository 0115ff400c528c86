import Polymaker.Lib.FirstUse
import Polymaker.Lib.Run
import Polymaker.UserStream.Parse

/-!
# Frames of one trade

A trade has a fixed set of maker orders, and frames about it list some of them, in some order.  The
store accepts an event when its key is new, and the key of a maker order is the slot the frame gives
it.

* `Trade`, `Listing`: the trade, and a frame that lists maker orders of it;
* `deliveries`: the events of a listing, each tagged with its maker order and its slot;
* `Tagged`: the processor with the log of the fills it applied, tagged alike;
* `log_eq_firsts`: what is applied is the first delivery under each slot;
* `applied_once_iff`: every listed order of ours is applied exactly once if and only if each is the
  first of ours delivered under exactly one slot.
-/

namespace Polymaker

/-- A trade with its maker orders, named by `ι`. -/
structure Trade (ι : Type*) where
  id : String
  assetId : TokenId
  side : String
  outcome : Option String
  makerOrder : ι → MakerOrder

/-- A `MATCHED` frame about a trade: the maker orders it lists, in order. -/
structure Listing (ι : Type*) where
  listed : List ι
  timestamp : Option ℚ
  now : ℚ

section Frames

variable {ι : Type*} (t : Trade ι) (ourAddress : String) (otherToken : TokenId → Option TokenId)

/-- The message of a listing. -/
def Trade.frame (fr : Listing ι) : TradeFrame where
  status := "MATCHED"
  assetId := t.assetId
  side := t.side
  outcome := t.outcome
  timestamp := fr.timestamp
  id := t.id
  makerOrders := fr.listed.map t.makerOrder

/-- The events of a listing, each with its maker order and its slot. -/
def deliveries (fr : Listing ι) : List ((ι × Slot) × TimedEvent) :=
  fr.listed.zipIdx.filterMap fun ji =>
    (makerEvent (t.frame fr) .matched ourAddress otherToken ji.2 (t.makerOrder ji.1)).map fun ev =>
      ((ji.1, slotOf fr.listed.length ji.2), ⟨ev, fr.now⟩)

/-- The slots under which a run of listings delivers our maker orders, in order. -/
def slotsOf (frs : List (Listing ι)) : List (ι × Slot) :=
  frs.flatMap fun fr => fr.listed.zipIdx.filterMap fun ji =>
    if Ours ourAddress (t.makerOrder ji.1) then some (ji.1, slotOf fr.listed.length ji.2) else none

/-- The processor and the fills it applied, each tagged with its maker order and its slot. -/
structure Tagged (ι : Type*) where
  proc : UserEventProcessor
  log : List ((ι × Slot) × Fill)

/-- Deliver one tagged event. -/
def Tagged.step (s : Tagged ι) (d : (ι × Slot) × TimedEvent) : Tagged ι :=
  ⟨(s.proc.onTrade d.2.ev d.2.now).1,
    s.log ++ (fillsOf (s.proc.onTrade d.2.ev d.2.now).2).map (Prod.mk d.1)⟩

/-- Deliver a run of listings. -/
def Trade.deliver (p : UserEventProcessor) (frs : List (Listing ι)) : Tagged ι :=
  Run.run Tagged.step ⟨p, []⟩ (frs.flatMap (deliveries t ourAddress otherToken))

/-! ### The tags change nothing -/

theorem deliveries_events (fr : Listing ι) :
    (deliveries t ourAddress otherToken fr).map (fun d => d.2.ev) =
      normalizeTrade (t.frame fr) ourAddress otherToken := by
  have hst : parseStatus (t.frame fr).status = some .matched := by
    show parseStatus "MATCHED" = _
    decide +kernel
  unfold deliveries normalizeTrade
  simp only [hst]
  rw [List.map_filterMap, show (t.frame fr).makerOrders = fr.listed.map t.makerOrder from rfl,
    List.zipIdx_map, List.filterMap_map]
  refine List.filterMap_congr fun ji _ => ?_
  simp [Function.comp_def]

/-- One frame, event by event. -/
theorem run_deliveries_proc (s : Tagged ι) (fr : Listing ι) :
    (Run.run Tagged.step s (deliveries t ourAddress otherToken fr)).proc =
      onTradeFrame s.proc (t.frame fr) ourAddress otherToken fr.now := by
  have hnow : ∀ d ∈ deliveries t ourAddress otherToken fr, d.2.now = fr.now := by
    intro d hd
    obtain ⟨ji, -, hji⟩ := List.mem_filterMap.1 hd
    obtain ⟨ev, -, rfl⟩ := Option.map_eq_some_iff.1 hji
    rfl
  unfold onTradeFrame
  rw [← deliveries_events]
  generalize deliveries t ourAddress otherToken fr = ds at hnow
  induction ds generalizing s with
  | nil => rfl
  | cons d ds ih =>
    obtain ⟨hd, hds⟩ := List.forall_mem_cons.1 hnow
    rw [Run.run_cons, List.map_cons, List.foldl_cons, ih _ hds, ← hd]
    rfl

theorem deliver_proc (p : UserEventProcessor) (frs : List (Listing ι)) :
    (t.deliver ourAddress otherToken p frs).proc =
      frs.foldl (fun p fr => onTradeFrame p (t.frame fr) ourAddress otherToken fr.now) p := by
  unfold Trade.deliver
  suffices h : ∀ s : Tagged ι, (Run.run Tagged.step s
      (frs.flatMap (deliveries t ourAddress otherToken))).proc =
      frs.foldl (fun p fr => onTradeFrame p (t.frame fr) ourAddress otherToken fr.now) s.proc from
    h ⟨p, []⟩
  induction frs with
  | nil => exact fun _ => rfl
  | cons fr frs ih =>
    intro s
    rw [List.flatMap_cons, Run.run_append, ih, run_deliveries_proc, List.foldl_cons]

theorem deliveries_tags (frs : List (Listing ι)) :
    (frs.flatMap (deliveries t ourAddress otherToken)).map Prod.fst =
      slotsOf t ourAddress frs := by
  unfold slotsOf
  rw [List.map_flatMap]
  refine List.flatMap_congr fun fr _ => ?_
  unfold deliveries
  rw [List.map_filterMap]
  refine List.filterMap_congr fun ji _ => ?_
  have hours : (makerEvent (t.frame fr) .matched ourAddress otherToken ji.2
      (t.makerOrder ji.1)).isSome ↔ Ours ourAddress (t.makerOrder ji.1) := makerEvent_isSome_iff
  split_ifs with h
  · obtain ⟨ev, hev⟩ := Option.isSome_iff_exists.1 (hours.2 h)
    rw [hev]; rfl
  · rw [← hours, Option.not_isSome_iff_eq_none] at h
    rw [h]; rfl

/-! ### What is applied -/

/-- The keys of the trade that the processor has seen are those of the slots `seen`. -/
structure SlotsSeen (id : String) (p : UserEventProcessor) (seen : List Slot) : Prop where
  rows : ∀ σ, tradeKey id σ ∈ p.store.db.fills ↔ σ ∈ seen
  applied : ∀ σ, tradeKey id σ ∈ p.applied → σ ∈ seen

/-- A tagged event of the trade: a match under the key of its slot. -/
def TagOf (id : String) (d : (ι × Slot) × TimedEvent) : Prop :=
  d.2.ev.status = .matched ∧ d.2.ev.tradeId = tradeKey id d.1.2

/-- An event under a slot that was seen is dropped, an event under a new slot is applied. -/
theorem tagged_step {id : String} {s : Tagged ι} {seen : List Slot}
    (h : SlotsSeen id s.proc seen) {d : (ι × Slot) × TimedEvent} (hd : TagOf id d) :
    (d.1.2 ∈ seen ∧ s.step d = s) ∨
    (d.1.2 ∉ seen ∧ SlotsSeen id (s.step d).proc (d.1.2 :: seen) ∧
      (s.step d).log = s.log ++ [(d.1, d.2.ev.fill)]) := by
  obtain ⟨hst, hkey⟩ := hd
  by_cases hσ : d.1.2 ∈ seen
  · have hold : d.2.ev.tradeId ∈ s.proc.store.db.fills := by rw [hkey]; exact (h.rows _).2 hσ
    have hidle : OnTradeCase s.proc d.2.ev d.2.now (s.proc, []) :=
      .idle (.inr (.inr ⟨hst, .inr hold⟩))
    refine .inl ⟨hσ, ?_⟩
    unfold Tagged.step
    rw [onTrade_eq_of_case d.2.now hidle]
    simp
  · have hnew : d.2.ev.tradeId ∉ s.proc.store.db.fills := by rw [hkey]; exact mt (h.rows _).1 hσ
    have happ : d.2.ev.tradeId ∉ s.proc.applied := by rw [hkey]; exact mt (h.applied _) hσ
    refine .inr ⟨hσ, ⟨fun σ => ?_, fun σ hin => ?_⟩, ?_⟩
    · show _ ∈ ((s.proc.onTrade d.2.ev d.2.now).1).store.db.fills ↔ _
      rw [onTrade_eq_of_case d.2.now (OnTradeCase.applied hst happ hnew), markInflight_db,
        recordFill_fills, Dict.mem_set, h.rows, TradeEvent.fill_tradeId, hkey, tradeKey_inj,
        List.mem_cons]
    · have hin' : tradeKey id σ ∈ ((s.proc.onTrade d.2.ev d.2.now).1).applied := hin
      rw [onTrade_eq_of_case d.2.now (OnTradeCase.applied hst happ hnew), Dict.mem_set, hkey,
        tradeKey_inj] at hin'
      exact List.mem_cons.2 (hin'.imp_right (h.applied σ))
    · unfold Tagged.step
      rw [onTrade_eq_of_case d.2.now (OnTradeCase.applied hst happ hnew)]
      simp

/-- Over a run of tagged events, the log grows by the first delivery under each new slot. -/
theorem log_eq_firsts {id : String} {ds : List ((ι × Slot) × TimedEvent)} {s : Tagged ι}
    {seen : List Slot} (h : SlotsSeen id s.proc seen) (hds : ∀ d ∈ ds, TagOf id d) :
    (Run.run Tagged.step s ds).log.map Prod.fst =
      s.log.map Prod.fst ++ FirstUse.firsts seen (ds.map Prod.fst) := by
  induction ds generalizing s seen with
  | nil => simp [FirstUse.firsts]
  | cons d ds ih =>
    obtain ⟨hd, hds⟩ := List.forall_mem_cons.1 hds
    rw [Run.run_cons, List.map_cons, FirstUse.firsts]
    obtain ⟨hσ, heq⟩ | ⟨hσ, hseen, hlog⟩ := tagged_step h hd
    · rw [heq, if_pos hσ]
      exact ih h hds
    · rw [if_neg hσ, ih hseen hds, hlog, List.map_append, List.append_assoc]
      rfl

theorem tagOf_deliveries {fr : Listing ι} {d : (ι × Slot) × TimedEvent}
    (hd : d ∈ deliveries t ourAddress otherToken fr) : TagOf t.id d := by
  obtain ⟨ji, -, hji⟩ := List.mem_filterMap.1 hd
  obtain ⟨ev, hev, rfl⟩ := Option.map_eq_some_iff.1 hji
  obtain ⟨-, -, -, hst, hkey⟩ := makerEvent_eq_some hev
  refine ⟨hst, hkey.trans ?_⟩
  show tradeKey t.id (slotOf (fr.listed.map t.makerOrder).length ji.2) = _
  rw [List.length_map]

/-- A fill of the log is the match of its maker order, whatever frame brought it. -/
structure MatchOf (t : Trade ι) (ourAddress : String) (otherToken : TokenId → Option TokenId)
    (j : ι) (f : Fill) : Prop where
  ours : Ours ourAddress (t.makerOrder j)
  size : some f.size = (t.makerOrder j).matchedAmount
  price : some f.price = (t.makerOrder j).price
  leg : ∀ fr, (f.tokenId, f.side) = ourLeg (t.frame fr) otherToken (t.makerOrder j)

theorem matchOf_deliveries {fr : Listing ι} {d : (ι × Slot) × TimedEvent}
    (hd : d ∈ deliveries t ourAddress otherToken fr) :
    MatchOf t ourAddress otherToken d.1.1 d.2.ev.fill := by
  obtain ⟨ji, -, hji⟩ := List.mem_filterMap.1 hd
  obtain ⟨ev, hev, rfl⟩ := Option.map_eq_some_iff.1 hji
  obtain ⟨hsize, hprice, hleg, -, -⟩ := makerEvent_eq_some hev
  exact ⟨makerEvent_isSome_iff.1 (by rw [hev]; rfl), hsize, hprice, fun _ => hleg⟩

variable {t ourAddress otherToken}

/-- Every entry of the log is an event that was delivered. -/
theorem mem_log {ds : List ((ι × Slot) × TimedEvent)} {s : Tagged ι} {id : String}
    {seen : List Slot} (h : SlotsSeen id s.proc seen) (hds : ∀ d ∈ ds, TagOf id d)
    {x : (ι × Slot) × Fill} (hx : x ∈ (Run.run Tagged.step s ds).log) :
    x ∈ s.log ∨ ∃ d ∈ ds, x = (d.1, d.2.ev.fill) := by
  induction ds generalizing s seen with
  | nil => exact .inl hx
  | cons d ds ih =>
    obtain ⟨hd, hds⟩ := List.forall_mem_cons.1 hds
    rw [Run.run_cons] at hx
    obtain ⟨-, heq⟩ | ⟨-, hseen, hlog⟩ := tagged_step h hd
    · rw [heq] at hx
      exact (ih h hds hx).imp_right fun ⟨d', hd', hxd⟩ => ⟨d', List.mem_cons_of_mem _ hd', hxd⟩
    · rcases ih hseen hds hx with hin | ⟨d', hd', hxd⟩
      · rw [hlog, List.mem_append, List.mem_singleton] at hin
        exact hin.imp_right fun hxd => ⟨d, List.mem_cons_self, hxd⟩
      · exact .inr ⟨d', List.mem_cons_of_mem _ hd', hxd⟩

/-- Positions are the replay of the log from where they started. -/
theorem tagged_replay (p : UserEventProcessor) (ds : List ((ι × Slot) × TimedEvent))
    (tok : TokenId) :
    (Run.run Tagged.step ⟨p, []⟩ ds).proc.store.position tok =
      replay p.store.position ((Run.run Tagged.step ⟨p, []⟩ ds).log.map Prod.snd) tok := by
  have hall : Run.Always Tagged.step (fun s : Tagged ι => ∀ tok, s.proc.store.position tok =
      replay p.store.position (s.log.map Prod.snd) tok) ⟨p, []⟩ ds := by
    refine Run.always_of_step (fun s d h tok => ?_) (fun tok => rfl) ds
    show (s.proc.onTrade d.2.ev d.2.now).1.store.position tok = replay _ (List.map _ (_ ++ _)) tok
    rw [onTrade_position, fillsOf_onTrade, List.map_append, List.map_map]
    cases s.proc.pendingFill d.2.ev with
    | none => simpa using h tok
    | some g =>
      have hone : List.map (Prod.snd ∘ Prod.mk d.1) (some g).toList = [g] := rfl
      rw [hone, replay_concat, ← h, ← h]
      exact recordFill_position s.proc.store g tok
  exact hall.last tok

end Frames

/-! ### The main theorem -/

/-- **When fills are exactly-once over frames.**  A processor that has not seen the trade is given
any run of frames about it.  What it does is what the client does with the frames; its positions are
the replay of a log in which every entry is the match of a maker order of ours; and every order of
ours that a frame listed is in the log exactly once if and only if each of them is the first of ours
delivered under exactly one slot. -/
theorem applied_once_iff {ι : Type*} [DecidableEq ι] (t : Trade ι) (ourAddress : String)
    (otherToken : TokenId → Option TokenId) (p : UserEventProcessor)
    (hfresh : ∀ σ, tradeKey t.id σ ∉ p.store.db.fills ∧ tradeKey t.id σ ∉ p.applied)
    (frs : List (Listing ι)) :
    let s := t.deliver ourAddress otherToken p frs
    (s.proc =
      frs.foldl (fun p fr => onTradeFrame p (t.frame fr) ourAddress otherToken fr.now) p) ∧
    (∀ tok, s.proc.store.position tok = replay p.store.position (s.log.map Prod.snd) tok) ∧
    (∀ x ∈ s.log, MatchOf t ourAddress otherToken x.1.1 x.2) ∧
    ((∀ j, Ours ourAddress (t.makerOrder j) → (∃ fr ∈ frs, j ∈ fr.listed) →
        (s.log.filter fun x => decide (x.1.1 = j)).length = 1) ↔
      ∀ j, Ours ourAddress (t.makerOrder j) → (∃ fr ∈ frs, j ∈ fr.listed) →
        ∃! σ, FirstUse.owner (slotsOf t ourAddress frs) σ = some j) := by
  intro s
  have hseen : SlotsSeen t.id (⟨p, []⟩ : Tagged ι).proc [] :=
    ⟨fun σ => iff_of_false (hfresh σ).1 List.not_mem_nil, fun σ hin => absurd hin (hfresh σ).2⟩
  have hds : ∀ d ∈ frs.flatMap (deliveries t ourAddress otherToken), TagOf t.id d := by
    intro d hd
    obtain ⟨fr, -, hfr⟩ := List.mem_flatMap.1 hd
    exact tagOf_deliveries t ourAddress otherToken hfr
  have hlog : s.log.map Prod.fst = FirstUse.firsts [] (slotsOf t ourAddress frs) := by
    rw [← deliveries_tags t ourAddress otherToken]
    exact log_eq_firsts hseen hds
  have hcount : ∀ j, (s.log.filter fun x => decide (x.1.1 = j)).length =
      ((FirstUse.firsts [] (slotsOf t ourAddress frs)).filter fun d => decide (d.1 = j)).length := by
    intro j
    rw [← hlog, List.filter_map, List.length_map]
    rfl
  refine ⟨deliver_proc t ourAddress otherToken p frs, tagged_replay p _, fun x hx => ?_, ?_⟩
  · obtain hin | ⟨d, hd, rfl⟩ := mem_log hseen hds hx
    · exact absurd hin List.not_mem_nil
    · obtain ⟨fr, -, hfr⟩ := List.mem_flatMap.1 hd
      exact matchOf_deliveries t ourAddress otherToken hfr
  · simp only [hcount, FirstUse.count_firsts_eq_one_iff]

/-- One purchase of 50 of ours, listed alone in a first frame. -/
def loneTrade : Trade Bool where
  id := "t"
  assetId := "no"
  side := "BUY"
  outcome := some "No"
  makerOrder := fun own =>
    ⟨if own then "0xme" else "0xother", some "Yes", some 50, some (1 / 2)⟩

/-- The other token of the two-token market of `loneTrade`. -/
def loneOther (tok : TokenId) : Option TokenId :=
  if tok = "no" then some "yes" else if tok = "yes" then some "no" else none

/-- Frames that list our order alone, again and again, apply it once. -/
theorem applied_once_of_lone_frames :
    let s := loneTrade.deliver "0xMe" loneOther (.start .fresh)
      [⟨[true], none, 0⟩, ⟨[true], none, 1⟩]
    (s.log.filter fun x => decide (x.1.1 = true)).length = 1 := by
  intro s
  have hfresh : ∀ σ, tradeKey loneTrade.id σ ∉ (UserEventProcessor.start .fresh).store.db.fills ∧
      tradeKey loneTrade.id σ ∉ (UserEventProcessor.start .fresh).applied :=
    fun σ => ⟨Dict.not_mem_empty _, Dict.not_mem_empty _⟩
  have hslots : slotsOf loneTrade "0xMe" [⟨[true], none, 0⟩, ⟨[true], none, 1⟩] =
      [(true, none), (true, none)] := by decide +kernel
  refine (applied_once_iff loneTrade "0xMe" loneOther (.start .fresh) hfresh
    [⟨[true], none, 0⟩, ⟨[true], none, 1⟩]).2.2.2.2 ?_ true (by decide +kernel)
    ⟨_, List.mem_cons_self, List.mem_cons_self⟩
  rw [hslots]
  rintro (_ | _) - ⟨fr, hfr, hin⟩
  · simp only [List.mem_cons, List.not_mem_nil, or_false] at hfr
    rcases hfr with rfl | rfl <;> simp at hin
  · refine ⟨none, rfl, fun σ hσ => ?_⟩
    cases σ with
    | none => rfl
    | some i => simp [FirstUse.owner] at hσ

/-- The order is listed alone in one frame and beside another maker's order in the next: it is
applied under both keys, and 100 shares are held for a purchase of 50. -/
theorem applied_twice_of_relisted :
    let s := loneTrade.deliver "0xMe" loneOther (.start .fresh)
      [⟨[true], none, 0⟩, ⟨[false, true], none, 1⟩]
    (s.log.filter fun x => decide (x.1.1 = true)).length = 2 ∧
      (s.proc.store.position "yes").size = 100 := by
  decide +kernel

end Polymaker
