import Polymaker.MarketData.Wire
import Polymaker.UserStream.Parse

/-!
# User messages

`normalize_trade` and `normalize_order` of `userstream/parse.py`, over the decoded JSON object of a
message.

* `userTs`, `wireStatus`, `wireSide`: a timestamp, a status and a side, whatever stands there;
* `makerFill`, `wireTrade`, `wireOrder`: the parsers;
* `MakerRaises`, `TradeRaises`, `OrderRaises`: the messages on which one raises, and
  `raises_wireTrade`, `raises_wireOrder`: they raise on these and on no others;
* `OurOrder`, `usable`, `wireTrade_eq_ok`: the events of a frame that does not raise, one for each
  usable maker order of ours;
* `Reads`, `wireTrade_of_reads`: on a frame whose fields are what they should be, the parser is
  `normalizeTrade`.
-/

namespace Polymaker

open JsonTree Raising

section Parsers

variable {F : Type} [HostFloat F] (H : Host F)

/-- `_ts`: what is missing does not parse. -/
def userTs (msg : Message F) : Except Exc F := do
  match ← tryExcept [.value, .type] (number H (getMember msg "timestamp")) with
  | some v =>
    pure (if HostFloat.lt (HostFloat.ofRat 1000000000000) v then
      HostFloat.div v (HostFloat.ofRat 1000) else v)
  | none => pure (HostFloat.ofRat 0)

/-- `_STATUS`, looked up in upper case. -/
def wireStatus (raw : String) : Option TradeState :=
  if upperText raw = "MATCHED".toList then some .matched
  else if upperText raw = "MINED".toList then some .mined
  else if upperText raw = "CONFIRMED".toList then some .confirmed
  else if upperText raw = "RETRYING".toList then some .retrying
  else if upperText raw = "FAILED".toList then some .failed
  else none

/-- `_side`: anything but `SELL` is a purchase. -/
def wireSide (x : JsonTree F) : Side :=
  if upperText (H.str x) = "SELL".toList then .sell else .buy

/-- `str(msg.get("asset_id", ""))` of a trade. -/
def takerAsset (msg : Message F) : TokenId := strMember H msg "asset_id" ""

/-- The token our side of the match is on, and our side. -/
def wireLeg (msg : Message F) (otherToken : TokenId → Option TokenId) (mo : Message F) :
    TokenId × Side :=
  if equal (getMember mo "outcome") (getMember msg "outcome") then
    (takerAsset H msg, (wireSide H (getMember msg "side")).opposite)
  else
    let token := match otherToken (takerAsset H msg) with
      | some t => if t = "" then takerAsset H msg else t
      | none => takerAsset H msg
    (token, wireSide H (getMember msg "side"))

/-- A maker order is ours. -/
def IsOurs (ourAddress : String) (mo : Message F) : Prop :=
  lower (strMember H mo "maker_address" "") = lower ourAddress

instance (ourAddress : String) (mo : Message F) : Decidable (IsOurs H ourAddress mo) :=
  inferInstanceAs (Decidable (_ = _))

/-- `mo.get("matched_amount", 0)`. -/
def amountOf (mo : Message F) : JsonTree F := getMemberD mo "matched_amount" (.int 0)

/-- `mo.get("price", 0)`. -/
def priceOf (mo : Message F) : JsonTree F := getMemberD mo "price" (.int 0)

/-- The event of the `i`-th of `n` maker orders. -/
def wireEvent (msg : Message F) (otherToken : TokenId → Option TokenId) (status : TradeState) (ts : F)
    (n i : ℕ) (mo : Message F) (size price : F) : TradeEvent F where
  tokenId := (wireLeg H msg otherToken mo).1
  ourSide := (wireLeg H msg otherToken mo).2
  price := price
  size := size
  tradeId := tradeKey (strMember H msg "id" "") (slotOf n i)
  status := status
  ts := ts

/-- The body of the loop over `maker_orders`. -/
def makerFill (msg : Message F) (ourAddress : String) (otherToken : TokenId → Option TokenId)
    (status : TradeState) (ts : F) (n i : ℕ) : JsonTree F → Except Exc (Option (TradeEvent F))
  | .obj mo =>
    if IsOurs H ourAddress mo then do
      match ← tryExcept [.value, .type] (pair H (amountOf mo) (priceOf mo)) with
      | none => pure none
      | some (size, price) =>
        pure (if HostFloat.le size (HostFloat.ofRat 0) then none
          else some (wireEvent H msg otherToken status ts n i mo size price))
    else pure none
  -- what is no object has no `get`
  | _ => .error .attribute

/-- `msg.get("maker_orders", [])`. -/
def makerOrders (msg : Message F) : JsonTree F := getMemberD msg "maker_orders" (.arr [])

/-- `normalize_trade`. -/
def wireTrade (msg : Message F) (ourAddress : String) (otherToken : TokenId → Option TokenId) :
    Except Exc (List (TradeEvent F)) :=
  match wireStatus (strMember H msg "status" "") with
  | none => pure []
  | some status => do
    let ts ← userTs H msg
    let orders ← iterateOrEmpty (makerOrders msg)
    collect (fun mi => makerFill H msg ourAddress otherToken status ts orders.length mi.2 mi.1)
      orders.zipIdx

/-- `msg.get("original_size", msg.get("size", 0))`. -/
def originalOf (msg : Message F) : JsonTree F :=
  getMemberD msg "original_size" (getMemberD msg "size" (.int 0))

/-- `msg.get("size_matched", 0)`. -/
def matchedOf (msg : Message F) : JsonTree F := getMemberD msg "size_matched" (.int 0)

/-- Whether an order event is a cancellation. -/
def isCancel (msg : Message F) : Bool :=
  let status := upperText (strMember H msg "status" "")
  status = "CANCELED".toList || status = "CANCELLED".toList ||
    equal (getMember msg "type") (.str "CANCELLATION")

/-- `normalize_order`. -/
def wireOrder (msg : Message F) : Except Exc (Option (OrderEvent F)) :=
  tryExcept parseErrors do
    let asset ← required msg "asset_id"
    let original ← number H (originalOf msg)
    let sizeMatched ← number H (matchedOf msg)
    let price ← number H (priceOf msg)
    pure
      { orderId := strMember H msg "id" ""
        tokenId := H.str asset
        side := wireSide H (getMember msg "side")
        price
        remainingSize := HostFloat.sub original sizeMatched
        isCancel := isCancel H msg }

end Parsers

/-! ### The messages on which a parser raises -/

section Raise

variable {F : Type} [HostFloat F] (H : Host F)

/-- An entry of `maker_orders` that raises: it is no object, or ours with a huge number. -/
def MakerRaises (ourAddress : String) : JsonTree F → Prop
  | .obj mo => IsOurs H ourAddress mo ∧ PairHuge H (amountOf mo) (priceOf mo)
  | _ => True

/-- A trade that raises. -/
def TradeRaises (ourAddress : String) (msg : Message F) : Prop :=
  (wireStatus (strMember H msg "status" "")).isSome ∧
    (Huge (getMember msg "timestamp") ∨ ¬ Iterable (makerOrders msg) ∨
      ∃ mo ∈ itemsOrEmpty (makerOrders msg), MakerRaises H ourAddress mo)

/-- An order event that raises. -/
def OrderRaises (msg : Message F) : Prop :=
  (msg.lookup "asset_id").isSome ∧
    (Huge (originalOf msg) ∨ Readable H (originalOf msg) ∧ PairHuge H (matchedOf msg) (priceOf msg))

variable {H} {msg : Message F} {ourAddress : String} {otherToken : TokenId → Option TokenId}

/-- The timestamp of a user message is read like that of a market message. -/
theorem userTs_eq_wireTs : userTs H msg = wireTs H msg := by
  unfold userTs wireTs
  split
  · rename_i hnull
    rw [hnull]
    rfl
  · rfl

theorem raises_makerFill {status : TradeState} {ts : F} {n i : ℕ} {mo : JsonTree F} :
    Raises (makerFill H msg ourAddress otherToken status ts n i mo) ↔
      MakerRaises H ourAddress mo := by
  cases mo with
  | obj mo =>
    rw [makerFill, MakerRaises]
    split_ifs with hours
    · rw [raises_bind, raises_tryExcept, escapes_pair (by simp) (by simp) (by simp), or_iff_left]
      · rw [and_iff_right hours]
      · rintro ⟨r, -, hr⟩
        cases r <;> simp at hr
    · simp [hours]
  | _ => simp [makerFill, MakerRaises]

/-- The loop over the maker orders of a trade. -/
theorem raises_makerFills {status : TradeState} {ts : F} :
    Raises (iterateOrEmpty (makerOrders msg) >>= fun orders =>
      collect (fun mi => makerFill H msg ourAddress otherToken status ts orders.length mi.2 mi.1)
        orders.zipIdx) ↔
    ¬ Iterable (makerOrders msg) ∨
      ∃ mo ∈ itemsOrEmpty (makerOrders msg), MakerRaises H ourAddress mo := by
  have hitems : ∀ l : List (JsonTree F), (∃ mi ∈ l.zipIdx, MakerRaises H ourAddress mi.1) ↔
      ∃ mo ∈ l, MakerRaises H ourAddress mo := by
    intro l
    conv_rhs => rw [← List.zipIdx_map_fst 0 l]
    simp only [List.mem_map, exists_exists_and_eq_and]
  rw [raises_bind, raises_iterateOrEmpty]
  simp only [iterateOrEmpty_eq_ok, raises_collect, raises_makerFill, hitems]
  by_cases hit : Iterable (makerOrders msg) <;> simp [hit]

theorem raises_wireTrade :
    Raises (wireTrade H msg ourAddress otherToken) ↔ TradeRaises H ourAddress msg := by
  unfold wireTrade TradeRaises
  split
  · rename_i hstatus
    simp [hstatus]
  · rename_i status hstatus
    refine (raises_bind_of_const fun ts _ => raises_makerFills).trans ?_
    rw [userTs_eq_wireTs, raises_wireTs, hstatus]
    simp

theorem raises_wireOrder : Raises (wireOrder H msg) ↔ OrderRaises H msg := by
  unfold wireOrder OrderRaises
  rw [raises_tryExcept]
  refine escapes_required_bind_of_const fun asset => ?_
  rw [escapes_float_bind fun original => escapes_float_bind fun sizeMatched =>
    escapes_float_bind (P := False) fun price => by simp]
  simp only [and_false, or_false]
  rfl

end Raise

/-! ### The events of a frame -/

section Events

/-- A maker order of ours with an amount that is not zero or less, and a price. -/
structure OurOrder (F : Type := ℚ) where
  mo : Message F
  size : F
  price : F

variable {F : Type} [HostFloat F] (H : Host F) (ourAddress : String)

/-- An entry of `maker_orders` that is one. -/
def usable : JsonTree F → Option (OurOrder F)
  | .obj mo =>
    match number? H (amountOf mo), number? H (priceOf mo) with
    | some size, some price =>
      if IsOurs H ourAddress mo ∧ ¬ HostFloat.le size (HostFloat.ofRat 0) then
        some ⟨mo, size, price⟩
      else none
    | _, _ => none
  | _ => none

variable {H ourAddress} {msg : Message F} {otherToken : TokenId → Option TokenId}

/-- An entry that does not raise gives an event exactly when it is usable. -/
theorem makerFill_eq_ok {status : TradeState} {ts : F} {n i : ℕ} {mo : JsonTree F}
    (h : ¬ MakerRaises H ourAddress mo) :
    makerFill H msg ourAddress otherToken status ts n i mo =
      .ok ((usable H ourAddress mo).map fun o =>
        wireEvent H msg otherToken status ts n i o.mo o.size o.price) := by
  cases mo with
  | obj mo =>
    rw [makerFill, usable]
    rw [MakerRaises] at h
    by_cases hours : IsOurs H ourAddress mo
    · have hpair : ¬ PairHuge H (amountOf mo) (priceOf mo) := fun hp => h ⟨hours, hp⟩
      rw [if_pos hours, tryExcept_of_not_escapes
        (mt (escapes_pair (by simp) (by simp) (by simp)).1 hpair), toOption_pair]
      cases number? H (amountOf mo) with
      | none => rfl
      | some size =>
        cases number? H (priceOf mo) with
        | none => rfl
        | some price =>
          by_cases hsize : HostFloat.le size (HostFloat.ofRat 0)
          · simp [hsize, pure, Except.pure, bind, Except.bind]
          · simp [hsize, hours, pure, Except.pure, bind, Except.bind]
    · rw [if_neg hours]
      cases number? H (amountOf mo) <;> cases number? H (priceOf mo) <;>
        simp [hours, pure, Except.pure]
  | _ => exact absurd trivial h

variable (otherToken) in
/-- **The events of a frame** that does not raise: one for each usable maker order, at its place. -/
theorem wireTrade_eq_ok {status : TradeState}
    (hstatus : wireStatus (strMember H msg "status" "") = some status)
    (h : ¬ TradeRaises H ourAddress msg) :
    ∃ ts, userTs H msg = .ok ts ∧ wireTrade H msg ourAddress otherToken =
      .ok ((itemsOrEmpty (makerOrders msg)).zipIdx.filterMap fun mi =>
        (usable H ourAddress mi.1).map fun o =>
          wireEvent H msg otherToken status ts (itemsOrEmpty (makerOrders msg)).length mi.2 o.mo
            o.size o.price) := by
  have hcalm := fun hrest => h ⟨by rw [hstatus]; rfl, hrest⟩
  obtain ⟨ts, hts⟩ : ∃ ts, userTs H msg = .ok ts := by
    refine exists_ok_of_not_raises fun hraises => hcalm (.inl ?_)
    rwa [userTs_eq_wireTs, raises_wireTs] at hraises
  have hit : Iterable (makerOrders msg) := by
    by_contra hnot
    exact hcalm (.inr (.inl hnot))
  have hmakers : ∀ mo ∈ itemsOrEmpty (makerOrders msg), ¬ MakerRaises H ourAddress mo :=
    fun mo hmo hraises => hcalm (.inr (.inr ⟨mo, hmo, hraises⟩))
  refine ⟨ts, hts, ?_⟩
  unfold wireTrade
  rw [hstatus]
  simp only [hts, iterateOrEmpty_eq_ok.2 ⟨hit, rfl⟩, bind, Except.bind]
  exact collect_eq_ok fun mi hmi => makerFill_eq_ok (hmakers _ (List.fst_mem_of_mem_zipIdx hmi))

end Events

/-! ### Frames whose fields are what they should be -/

section Frames

variable (H : Host)

/-- A member that is a text or missing. -/
def TextOrNone (x : JsonTree) (text : Option String) : Prop :=
  x = match text with
    | some s => .str s
    | none => .null

/-- An entry of `maker_orders` is an object with the fields of a maker order. -/
structure ReadsMaker (x : JsonTree) (mo : MakerOrder) : Prop where
  fields : ∃ d, x = .obj d ∧ strMember H d "maker_address" "" = mo.makerAddress ∧
    TextOrNone (getMember d "outcome") mo.outcome ∧
      (¬ Huge (amountOf d) ∧ number? H (amountOf d) = mo.matchedAmount) ∧
        ¬ Huge (priceOf d) ∧ number? H (priceOf d) = mo.price

/-- A message has the fields of a frame. -/
structure Reads (msg : Message) (fr : TradeFrame) : Prop where
  status : strMember H msg "status" "" = fr.status
  assetId : takerAsset H msg = fr.assetId
  side : H.str (getMember msg "side") = fr.side
  outcome : TextOrNone (getMember msg "outcome") fr.outcome
  timestamp : ¬ Huge (getMember msg "timestamp") ∧
    number? H (getMember msg "timestamp") = fr.timestamp
  id : strMember H msg "id" "" = fr.id
  makerOrders : ∃ l, makerOrders msg = .arr l ∧ List.Forall₂ (ReadsMaker H) l fr.makerOrders
  ascii : Ascii fr.status ∧ Ascii fr.side

variable {H} {msg : Message} {fr : TradeFrame} {ourAddress : String}
  {otherToken : TokenId → Option TokenId}

theorem equal_iff_of_texts {x y : JsonTree} {s t : Option String} (hx : TextOrNone x s)
    (hy : TextOrNone y t) : equal x y ↔ s = t := by
  unfold TextOrNone at hx hy
  subst hx hy
  cases s <;> cases t <;> simp [equal, JsonTree.worth]

theorem wireStatus_of_ascii {s : String} (h : Ascii s) : wireStatus s = parseStatus s := by
  unfold wireStatus parseStatus upper
  rw [upperText_of_ascii h]

theorem wireSide_of_ascii {x : JsonTree} (h : Ascii (H.str x)) :
    wireSide H x = parseSide (H.str x) := by
  unfold wireSide parseSide upper
  rw [upperText_of_ascii h]

theorem userTs_of_not_huge (h : ¬ Huge (getMember msg "timestamp")) :
    userTs H msg = .ok (parseTs (number? H (getMember msg "timestamp"))) := by
  unfold userTs
  rw [tryExcept_number (by simp) (by simp) (by simp) h]
  cases number? H (getMember msg "timestamp") <;> rfl

theorem exists_of_forall₂ {α β : Type*} {R : α → β → Prop} {l : List α} {l' : List β}
    (h : List.Forall₂ R l l') {a : α} (ha : a ∈ l) : ∃ b, R a b := by
  induction h with
  | nil => exact absurd ha List.not_mem_nil
  | cons hab _ ih =>
    rcases List.mem_cons.1 ha with rfl | ha
    · exact ⟨_, hab⟩
    · exact ih ha

/-- Related lists give the same where related items do at every place. -/
theorem filterMap_zipIdx_of_forall₂ {α β γ : Type*} {R : α → β → Prop} {f : α → ℕ → Option γ}
    {g : β → ℕ → Option γ} (hfg : ∀ a b i, R a b → f a i = g b i) {l : List α} {l' : List β}
    (h : List.Forall₂ R l l') (k : ℕ) :
    ((l.zipIdx k).filterMap fun ai => f ai.1 ai.2) =
      (l'.zipIdx k).filterMap fun bi => g bi.1 bi.2 := by
  induction h generalizing k with
  | nil => rfl
  | cons hab _ ih =>
    rw [List.zipIdx_cons, List.zipIdx_cons, List.filterMap_cons, List.filterMap_cons, ih,
      hfg _ _ _ hab]

/-- A message with the fields of a frame does not raise. -/
theorem Reads.not_raises (h : Reads H msg fr) : ¬ TradeRaises H ourAddress msg := by
  obtain ⟨l, hl, hmakers⟩ := h.makerOrders
  rintro ⟨-, hts | hit | ⟨x, hx, hraises⟩⟩
  · exact h.timestamp.1 hts
  · rw [hl] at hit
    exact hit fun _ => rfl
  · rw [hl] at hx
    obtain ⟨mo, ⟨d, rfl, -, -, hamount, hprice⟩⟩ := exists_of_forall₂ hmakers hx
    rcases hraises with ⟨-, hhuge | ⟨-, hhuge⟩⟩
    · exact hamount.1 hhuge
    · exact hprice.1 hhuge

theorem Reads.wireLeg (h : Reads H msg fr) {d : Message} {mo : MakerOrder}
    (houtcome : TextOrNone (getMember d "outcome") mo.outcome) :
    wireLeg H msg otherToken d = ourLeg fr otherToken mo := by
  have hside : wireSide H (getMember msg "side") = parseSide fr.side := by
    rw [← h.side]
    exact wireSide_of_ascii (by rw [h.side]; exact h.ascii.2)
  unfold Polymaker.wireLeg ourLeg
  rw [h.assetId, hside]
  exact if_congr (equal_iff_of_texts houtcome h.outcome) rfl rfl

/-- An entry gives the event of the maker order it reads as. -/
theorem Reads.makerEvent (h : Reads H msg fr) {status : TradeState} {i n : ℕ} {x : JsonTree}
    {mo : MakerOrder} (hmo : ReadsMaker H x mo) (hn : n = fr.makerOrders.length) :
    ((usable H ourAddress x).map fun o =>
      wireEvent H msg otherToken status (parseTs fr.timestamp) n i o.mo o.size o.price) =
    makerEvent fr status ourAddress otherToken i mo := by
  obtain ⟨d, rfl, haddress, houtcome, ⟨-, hamount⟩, -, hprice⟩ := hmo
  have hours : IsOurs H ourAddress d ↔ lower mo.makerAddress = lower ourAddress := by
    unfold IsOurs
    rw [haddress]
  have hleg : Polymaker.wireLeg H msg otherToken d = ourLeg fr otherToken mo := h.wireLeg houtcome
  simp only [usable, hamount, hprice, hours, Polymaker.makerEvent]
  cases mo.matchedAmount with
  | none => simp
  | some size =>
    cases mo.price with
    | none => simp
    | some price =>
      by_cases haddr : lower mo.makerAddress = lower ourAddress
      · by_cases hsize : size ≤ 0
        · simp [haddr, hsize]
        · simp [haddr, hsize, wireEvent, hleg, h.id, hn]
      · simp [haddr]

/-- **The two readings of a trade agree**: on a message with the fields of a frame, the parser gives
the events of the frame. -/
theorem wireTrade_of_reads (h : Reads H msg fr) :
    wireTrade H msg ourAddress otherToken = .ok (normalizeTrade fr ourAddress otherToken) := by
  have hstatus : wireStatus (strMember H msg "status" "") = parseStatus fr.status := by
    rw [h.status, wireStatus_of_ascii h.ascii.1]
  unfold normalizeTrade
  cases hparse : parseStatus fr.status with
  | none =>
    rw [hparse] at hstatus
    unfold wireTrade
    rw [hstatus]
    rfl
  | some status =>
    rw [hparse] at hstatus
    obtain ⟨l, hl, hmakers⟩ := h.makerOrders
    have hcalm : ¬ TradeRaises H ourAddress msg := h.not_raises
    obtain ⟨ts, hts, htrade⟩ := wireTrade_eq_ok otherToken hstatus hcalm
    have hitems : itemsOrEmpty (makerOrders msg) = l := by
      rw [hl]
      rfl
    obtain rfl : ts = parseTs fr.timestamp := by
      rw [userTs_of_not_huge h.timestamp.1, h.timestamp.2] at hts
      exact (Except.ok.inj hts).symm
    rw [htrade, hitems]
    have hevent : ∀ (x : JsonTree) (mo : MakerOrder) (i : ℕ), ReadsMaker H x mo →
        ((usable H ourAddress x).map fun o => wireEvent H msg otherToken status
          (parseTs fr.timestamp) l.length i o.mo o.size o.price) =
        makerEvent fr status ourAddress otherToken i mo :=
      fun x mo i hmo => h.makerEvent hmo hmakers.length_eq
    exact congrArg Except.ok (filterMap_zipIdx_of_forall₂ hevent hmakers 0)

end Frames

end Polymaker
