import Mathlib.Data.List.Forall2
import Polymaker.Lib.Dict
import Polymaker.UserStream.Wire

/-!
# The direction of a fill

A market has two tokens, and a position on either is worth one on YES, with its sign.  A match moves
us the other way than the taker, whether our order was on the token of the taker (a direct match) or
on the other one (a mint or a merge).

* `yesChange`: what a purchase or a sale of one of the tokens changes, in YES shares;
* `SwapsTokens`: a map from a token of a known market to the other one;
* `MarketTokens.otherToken`: the map of the engine, which is one;
* `ourOrders`: the maker orders of a message that are ours and usable;
* `RightEvent`, `RightOrRefused`: an event is right for its order, and so are all that are returned;
* `Settles`: what the parser needs to know of an order: a side that is named, and where the outcome
  is not the taker's, the other token;
* `fill_direction_iff`: the events returned are right exactly when it knows that of every order.
-/

namespace Polymaker

open JsonTree Raising

/-! ### YES shares -/

/-- The change of our YES-equivalent position by a purchase or a sale of a token. -/
def yesChange (isYes : Bool) (side : Side) (size : ℚ) : ℚ :=
  match isYes, side with
  | true, .buy | false, .sell => size
  | true, .sell | false, .buy => -size

theorem yesChange_opposite (isYes : Bool) (side : Side) (size : ℚ) :
    yesChange isYes side.opposite size = -yesChange isYes side size := by
  cases isYes <;> cases side <;> simp [yesChange, Side.opposite]

theorem yesChange_not (isYes : Bool) (side : Side) (size : ℚ) :
    yesChange (!isYes) side size = -yesChange isYes side size := by
  cases isYes <;> cases side <;> simp [yesChange]

/-- The map swaps the two tokens of every market it knows. -/
structure SwapsTokens (isYes : TokenId → Bool) (otherToken : TokenId → Option TokenId) : Prop where
  swap : ∀ t t', otherToken t = some t' → otherToken t' = some t
  opposite : ∀ t t', otherToken t = some t' → isYes t' = !isYes t

/-- `MarketMeta.other_token`. -/
def MarketMeta.otherToken (m : MarketMeta) (t : TokenId) : TokenId :=
  if t = m.yes then m.no else m.yes

/-- What the engine knows of the tokens: the market of each, and the markets.  Both tokens of a
market are registered under it. -/
structure MarketTokens where
  tokenCid : Dict TokenId ConditionId
  metas : Dict ConditionId MarketMeta
  registered : ∀ t cid, tokenCid.get? t = some cid → cid ≠ "" ∧ ∃ m, metas.get? cid = some m ∧
    t ∈ m.tokens ∧ m.yes ≠ m.no ∧ ∀ t' ∈ m.tokens, tokenCid.get? t' = some cid

/-- `Engine._other_token`. -/
def MarketTokens.otherToken (w : MarketTokens) (t : TokenId) : Option TokenId :=
  match w.tokenCid.get? t with
  | some cid => if cid = "" then none else (w.metas.get? cid).map (·.otherToken t)
  | none => none

/-- The map of the engine swaps the tokens of the markets it knows. -/
theorem MarketTokens.swapsTokens (w : MarketTokens) {isYes : TokenId → Bool}
    (hyes : ∀ cid m, w.metas.get? cid = some m → isYes m.yes ∧ ¬ isYes m.no) :
    SwapsTokens isYes w.otherToken := by
  have hboth : ∀ t t', w.otherToken t = some t' →
      w.otherToken t' = some t ∧ isYes t' = !isYes t := by
    intro t t' h
    cases hcid : w.tokenCid.get? t with
    | none => simp [otherToken, hcid] at h
    | some cid =>
      obtain ⟨hne, m, hm, ht, hdistinct, hall⟩ := w.registered t cid hcid
      obtain ⟨hyesm, hnom⟩ := hyes cid m hm
      have hother : ∀ t' ∈ m.tokens, w.otherToken t' = some (m.otherToken t') := by
        intro t' ht'
        simp [otherToken, hall t' ht', hne, hm]
      obtain rfl : m.otherToken t = t' := by
        rw [hother t ht] at h
        exact Option.some.inj h
      simp only [MarketMeta.tokens, List.mem_cons, List.not_mem_nil, or_false] at ht
      rcases ht with rfl | rfl
      · have hno : m.otherToken m.yes = m.no := if_pos rfl
        rw [hno, hother m.no (by simp [MarketMeta.tokens])]
        exact ⟨congrArg some (if_neg hdistinct.symm), by simp [hyesm, hnom]⟩
      · have hyes : m.otherToken m.no = m.yes := if_neg hdistinct.symm
        rw [hyes, hother m.yes (by simp [MarketMeta.tokens])]
        exact ⟨congrArg some (if_pos rfl), by simp [hyesm, hnom]⟩
  exact ⟨fun t t' h => (hboth t t' h).1, fun t t' h => (hboth t t' h).2⟩

/-! ### The orders of a message -/

section Orders

variable (H : Host) (isYes : TokenId → Bool) (otherToken : TokenId → Option TokenId)
  (ourAddress : String) (msg : Message)

/-- The maker orders of a message that are ours and usable. -/
def ourOrders : List OurOrder := (itemsOrEmpty (makerOrders msg)).filterMap (usable H ourAddress)

/-- The order is on the outcome of the taker. -/
def SameOutcome (o : OurOrder) : Prop := equal (getMember o.mo "outcome") (getMember msg "outcome")

instance (o : OurOrder) : Decidable (SameOutcome msg o) := inferInstanceAs (Decidable (_ = true))

/-- The side that the message names. -/
def takerSide : Option Side := sideNamed (H.str (getMember msg "side"))

/-- The event moves us by the amount of the order, the other way than the taker, on the token whose
outcome the order names. -/
structure RightEvent (ev : TradeEvent) (o : OurOrder) : Prop where
  size : ev.size = o.size
  same : SameOutcome msg o → ev.tokenId = takerAsset H msg
  other : ¬ SameOutcome msg o → otherToken (takerAsset H msg) = some ev.tokenId
  change : ∃ side ∈ takerSide H msg, yesChange (isYes ev.tokenId) ev.ourSide ev.size =
    -yesChange (isYes (takerAsset H msg)) side o.size

/-- Every event that is returned is right, for an order of ours each; an order may get none. -/
def RightOrRefused : Prop :=
  ∀ evs, wireTrade H msg ourAddress otherToken = .ok evs →
    List.SublistForall₂ (RightEvent H isYes otherToken msg) evs (ourOrders H ourAddress msg)

/-- What the parser needs to know of an order. -/
def Settles (o : OurOrder) : Prop :=
  (takerSide H msg).isSome ∧ (SameOutcome msg o ∨ ∃ t ∈ otherToken (takerAsset H msg), t ≠ "")

instance (o : OurOrder) : Decidable (Settles H otherToken msg o) :=
  inferInstanceAs (Decidable (_ ∧ (_ ∨ ∃ t ∈ otherToken (takerAsset H msg), t ≠ "")))

end Orders

section Direction

variable {H : Host} {isYes : TokenId → Bool} {otherToken : TokenId → Option TokenId}
  {ourAddress : String} {msg : Message}

theorem wireSide_of_named {side : Side} (h : side ∈ takerSide H msg) :
    wireSide H (getMember msg "side") = side := by
  unfold takerSide sideNamed at h
  unfold wireSide
  split_ifs at h with hbuy hsell
  · obtain rfl := Option.some.inj h
    rw [hbuy, if_neg (by decide)]
  · obtain rfl := Option.some.inj h
    rw [if_pos hsell]
  · exact absurd h (by simp)

theorem wireLeg_of_same {o : OurOrder} (hsame : SameOutcome msg o) :
    wireLeg H msg otherToken o.mo =
      (takerAsset H msg, (wireSide H (getMember msg "side")).opposite) := if_pos hsame

theorem wireLeg_of_known {o : OurOrder} (hsame : ¬ SameOutcome msg o) {t : TokenId}
    (ht : otherToken (takerAsset H msg) = some t) :
    wireLeg H msg otherToken o.mo =
      (if t = "" then takerAsset H msg else t, wireSide H (getMember msg "side")) := by
  unfold wireLeg
  rw [if_neg (show ¬ equal (getMember o.mo "outcome") (getMember msg "outcome") from hsame), ht]

/-- The event of an order is right exactly when the parser knows what it needs. -/
theorem rightEvent_iff (hswap : SwapsTokens isYes otherToken) {status : TradeState} {ts : ℚ}
    {n i : ℕ} {o : OurOrder} :
    RightEvent H isYes otherToken msg
      (wireEvent H msg otherToken status ts n i o.mo o.size o.price) o ↔
    Settles H otherToken msg o := by
  by_cases hsame : SameOutcome msg o
  · constructor
    · intro hright
      obtain ⟨side, hside, -⟩ := hright.change
      exact ⟨Option.isSome_of_mem hside, .inl hsame⟩
    · rintro ⟨hnamed, -⟩
      obtain ⟨side, hside⟩ := Option.isSome_iff_exists.1 hnamed
      refine ⟨rfl, fun _ => ?_, fun hother => absurd hsame hother, side, hside, ?_⟩
      · simp only [wireEvent, wireLeg_of_same hsame]
      · simp only [wireEvent, wireLeg_of_same hsame, wireSide_of_named hside, yesChange_opposite]
  · constructor
    · intro hright
      obtain ⟨side, hside, -⟩ := hright.change
      have hother := hright.other hsame
      refine ⟨Option.isSome_of_mem hside, .inr ⟨_, hother, fun hempty => ?_⟩⟩
      rw [hempty] at hother
      -- an empty other token would be the token of the taker, which is not its own other one
      simp only [wireEvent, wireLeg_of_known hsame hother, if_true] at hempty
      have hflip := hswap.opposite _ _ hother
      rw [hempty] at hflip
      simp at hflip
    · rintro ⟨hnamed, hsame' | ⟨t, ht, hne⟩⟩
      · exact absurd hsame' hsame
      · obtain ⟨side, hside⟩ := Option.isSome_iff_exists.1 hnamed
        have hknown : otherToken (takerAsset H msg) = some t := ht
        refine ⟨rfl, fun hsame' => absurd hsame' hsame, fun _ => ?_, side, hside, ?_⟩
        · simp only [wireEvent, wireLeg_of_known hsame hknown, if_neg hne, hknown]
        · simp only [wireEvent, wireLeg_of_known hsame hknown, if_neg hne, wireSide_of_named hside,
            hswap.opposite _ _ hknown, yesChange_not]

/-- The events at their places, each with its order. -/
theorem forall₂_filterMap_usable {status : TradeState} {ts : ℚ} {n : ℕ} (l : List JsonTree)
    (k : ℕ) :
    List.Forall₂ (fun ev o => ∃ i,
        ev = wireEvent H msg otherToken status ts n i o.mo o.size o.price)
      ((l.zipIdx k).filterMap fun mi => (usable H ourAddress mi.1).map fun o =>
        wireEvent H msg otherToken status ts n mi.2 o.mo o.size o.price)
      (l.filterMap (usable H ourAddress)) := by
  induction l generalizing k with
  | nil => exact .nil
  | cons x l ih =>
    rw [List.zipIdx_cons, List.filterMap_cons, List.filterMap_cons]
    cases usable H ourAddress x with
    | none => exact ih (k + 1)
    | some o => exact .cons ⟨k, rfl⟩ (ih (k + 1))

/-- Where a relation of related items is a property of the second, it holds of the lists when that
holds of every item of the second. -/
theorem forall₂_iff_forall {α β : Type*} {R S : α → β → Prop} {Q : β → Prop}
    (hRS : ∀ a b, R a b → (S a b ↔ Q b)) {l : List α} {l' : List β} (h : List.Forall₂ R l l') :
    List.Forall₂ S l l' ↔ ∀ b ∈ l', Q b := by
  induction h with
  | nil => simp
  | cons hab _ ih => rw [List.forall₂_cons, List.forall_mem_cons, hRS _ _ hab, ih]

variable (otherToken) in
/-- The events of a frame that does not raise, each with its order. -/
theorem forall₂_events {status : TradeState}
    (hstatus : wireStatus (strMember H msg "status" "") = some status)
    (h : ¬ TradeRaises H ourAddress msg) :
    ∃ evs ts n, wireTrade H msg ourAddress otherToken = .ok evs ∧
      List.Forall₂ (fun ev o => ∃ i,
        ev = wireEvent H msg otherToken status ts n i o.mo o.size o.price) evs
        (ourOrders H ourAddress msg) := by
  obtain ⟨ts, -, htrade⟩ := wireTrade_eq_ok otherToken hstatus h
  exact ⟨_, ts, _, htrade, forall₂_filterMap_usable _ 0⟩

/-- An event that is returned is right for some order of ours. -/
theorem RightOrRefused.exists_rightEvent {evs : List TradeEvent} {ev : TradeEvent}
    (h : RightOrRefused H isYes otherToken ourAddress msg)
    (htrade : wireTrade H msg ourAddress otherToken = .ok evs) (hev : ev ∈ evs) :
    ∃ o ∈ ourOrders H ourAddress msg, RightEvent H isYes otherToken msg ev o := by
  obtain ⟨os, hos, hsub⟩ := List.sublistForall₂_iff.1 (h evs htrade)
  clear htrade h
  induction hos with
  | nil => exact absurd hev List.not_mem_nil
  | @cons ev' o evs' os' hright _ ih =>
    rcases List.mem_cons.1 hev with rfl | hev
    · exact ⟨o, hsub.subset List.mem_cons_self, hright⟩
    · exact ih hev ((List.sublist_cons_self o os').trans hsub)

end Direction

/-- **When the direction of a fill is right or refused.**  On a message of a known status that does
not raise, every event returned moves us the other way than the taker, by the amount and on the
token of its order, exactly when the message names the side of the taker and, for every order on the
other outcome, the other token is known. -/
theorem fill_direction_iff (H : Host) {isYes : TokenId → Bool}
    {otherToken : TokenId → Option TokenId} (hswap : SwapsTokens isYes otherToken)
    (ourAddress : String) (msg : Message) :
    RightOrRefused H isYes otherToken ourAddress msg ↔
      wireStatus (strMember H msg "status" "") = none ∨ TradeRaises H ourAddress msg ∨
        ∀ o ∈ ourOrders H ourAddress msg, Settles H otherToken msg o := by
  cases hstatus : wireStatus (strMember H msg "status" "") with
  | none =>
    refine iff_of_true (fun evs hevs => ?_) (.inl rfl)
    unfold wireTrade at hevs
    rw [hstatus] at hevs
    obtain rfl := Except.ok.inj hevs
    exact .nil
  | some status =>
    rw [or_iff_right (by simp)]
    by_cases hraises : TradeRaises H ourAddress msg
    · refine iff_of_true (fun evs hevs => ?_) (.inl hraises)
      have hraise : Raises (wireTrade H msg ourAddress otherToken) := raises_wireTrade.2 hraises
      obtain ⟨e, he⟩ := raises_iff.1 hraise
      rw [hevs] at he
      exact absurd he (by simp)
    · rw [or_iff_right hraises]
      obtain ⟨evs, ts, n, htrade, hevents⟩ := forall₂_events otherToken hstatus hraises
      -- there are as many events as orders, so each event is the one of its order
      have hright : RightOrRefused H isYes otherToken ourAddress msg ↔
          List.Forall₂ (RightEvent H isYes otherToken msg) evs (ourOrders H ourAddress msg) := by
        constructor
        · intro hright
          obtain ⟨os, hos, hsub⟩ := List.sublistForall₂_iff.1 (hright evs htrade)
          have hlen : os.length = (ourOrders H ourAddress msg).length :=
            hos.length_eq.symm.trans hevents.length_eq
          rwa [hsub.eq_of_length hlen] at hos
        · intro hall evs' hevs'
          obtain rfl : evs = evs' := Except.ok.inj (htrade.symm.trans hevs')
          exact List.sublistForall₂_iff.2 ⟨_, hall, List.Sublist.refl _⟩
      rw [hright]
      refine forall₂_iff_forall (fun ev o hev => ?_) hevents
      obtain ⟨i, rfl⟩ := hev
      exact rightEvent_iff hswap

/-! ### Two frames -/

/-- A host whose numbers are numbers, and whose `null` is written as it is. -/
def Host.writingNull : Host := ⟨fun _ => none, fun _ => "None"⟩

/-- The tokens of one market. -/
def swapYesNo (t : TokenId) : Option TokenId :=
  if t = "yes" then some "no" else if t = "no" then some "yes" else none

theorem swapsTokens_swapYesNo : SwapsTokens (fun t => t = "yes") swapYesNo where
  swap t t' h := by
    unfold swapYesNo at h ⊢
    split_ifs at h with hyes hno
    · obtain rfl := Option.some.inj h
      simp [hyes]
    · obtain rfl := Option.some.inj h
      simp [hno]
  opposite t t' h := by
    unfold swapYesNo at h
    split_ifs at h with hyes hno
    · obtain rfl := Option.some.inj h
      simp [hyes]
    · obtain rfl := Option.some.inj h
      simp [hno]

/-- A maker order of ours of fifty shares. -/
def fiftyOn (outcome : String) : JsonTree :=
  .obj [("maker_address", .str "0xme"), ("outcome", .str outcome), ("matched_amount", .float 50),
    ("price", .float (1 / 2))]

/-- A match of a taker on YES. -/
def matchOfYes (side : JsonTree) (orders : List JsonTree) : Message :=
  [("event_type", .str "trade"), ("status", .str "MATCHED"), ("asset_id", .str "yes"),
    ("side", side), ("outcome", .str "Yes"), ("id", .str "t"), ("maker_orders", .arr orders)]

/-- A purchase on YES, matched with a sale of ours on YES and a purchase of ours on NO. -/
theorem fill_direction_of_two_orders :
    RightOrRefused Host.writingNull (fun t => t = "yes") swapYesNo "0xMe"
      (matchOfYes (.str "buy") [fiftyOn "Yes", fiftyOn "No"]) := by
  refine (fill_direction_iff Host.writingNull swapsTokens_swapYesNo "0xMe" _).2 (.inr (.inr ?_))
  have horders : ∀ o ∈ ourOrders Host.writingNull "0xMe"
      (matchOfYes (.str "buy") [fiftyOn "Yes", fiftyOn "No"]),
      Settles Host.writingNull swapYesNo (matchOfYes (.str "buy") [fiftyOn "Yes", fiftyOn "No"])
        o := by
    decide +kernel
  exact horders

/-- The other token is not known: a purchase of ours on NO is booked as one on YES, with the taker.
The side is missing: whoever the taker was, our order on the token is booked as a sale. -/
theorem not_fill_direction :
    (wireTrade Host.writingNull (matchOfYes (.str "BUY") [fiftyOn "No"]) "0xMe" (fun _ => none) =
        .ok [⟨"yes", .buy, 1 / 2, 50, "t", .matched, 0⟩] ∧
      ¬ RightOrRefused Host.writingNull (fun t => t = "yes") (fun _ => none) "0xMe"
        (matchOfYes (.str "BUY") [fiftyOn "No"])) ∧
    wireTrade Host.writingNull (matchOfYes .null [fiftyOn "Yes"]) "0xMe" swapYesNo =
        .ok [⟨"yes", .sell, 1 / 2, 50, "t", .matched, 0⟩] ∧
      ¬ RightOrRefused Host.writingNull (fun t => t = "yes") swapYesNo "0xMe"
        (matchOfYes .null [fiftyOn "Yes"]) := by
  have hunknown : wireTrade Host.writingNull (matchOfYes (.str "BUY") [fiftyOn "No"]) "0xMe"
      (fun _ => none) = .ok [⟨"yes", .buy, 1 / 2, 50, "t", .matched, 0⟩] := by
    decide +kernel
  have hnone : wireTrade Host.writingNull (matchOfYes .null [fiftyOn "Yes"]) "0xMe" swapYesNo =
      .ok [⟨"yes", .sell, 1 / 2, 50, "t", .matched, 0⟩] := by
    decide +kernel
  refine ⟨⟨hunknown, fun h => ?_⟩, hnone, fun h => ?_⟩
  · obtain ⟨o, ho, hright⟩ := h.exists_rightEvent hunknown List.mem_cons_self
    have hother : ∀ o ∈ ourOrders Host.writingNull "0xMe"
        (matchOfYes (.str "BUY") [fiftyOn "No"]),
        ¬ SameOutcome (matchOfYes (.str "BUY") [fiftyOn "No"]) o := by
      decide +kernel
    exact absurd (hright.other (hother o ho)) (by simp)
  · obtain ⟨o, -, hright⟩ := h.exists_rightEvent hnone List.mem_cons_self
    obtain ⟨side, hside, -⟩ := hright.change
    have hmissing : takerSide Host.writingNull (matchOfYes .null [fiftyOn "Yes"]) = none := by
      decide +kernel
    rw [hmissing] at hside
    exact absurd hside (by simp)

end Polymaker
