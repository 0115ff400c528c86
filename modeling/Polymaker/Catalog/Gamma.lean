import Polymaker.Catalog.Store
import Polymaker.Lib.Dict
import Polymaker.Lib.Reading
import Polymaker.Lib.Rounding
import Polymaker.UserStream.Parse

/-!
# Parsing a Gamma row

`parse_market` of `catalog/gamma.py`, over a row as `json.loads` reads it.

* `GammaHost`: what the parser needs of the host language;
* `GammaMeta`: the market it builds.  What the parser takes over unread stays a JSON value;
* `ProtocolVersion.parse`, `jsonList`, `outcomeIds`, `isResolved`, `parseTokens`, `eventIdOf`: its
  parts;
* `floatOr`: a number with a default, which also replaces a zero;
* `marketFields`, `parseMarket`: the fields of a market, and the market, if the row is of use;
* `refreshable_of_parseMarket`: the seven fields that a refresh takes over too.
-/

namespace Polymaker.Catalog

open JsonTree Raising Rounding

/-- The parts of the host language that the parser rests on: `json.loads`, the digits of
`str.isdigit`, and that the empty string is no number. -/
structure GammaHost extends Host where
  loads : String → Option JsonTree
  isDigit : Char → Bool
  floatOfString_empty : floatOfString "" = none

/-- A market as `parse_market` builds it. -/
structure GammaMeta where
  conditionId : JsonTree
  question : JsonTree
  slug : JsonTree
  tokens : TokenMeta × TokenMeta
  tickSize : ℚ
  negRisk : Bool
  minOrderSize : ℚ
  rewardsMinSize : ℚ
  rewardsMaxSpread : ℚ
  rewardsDailyRate : ℚ
  makerFeeBps : ℤ
  takerFeeBps : ℤ
  feesEnabled : Bool
  rebateRate : ℚ
  endDateIso : JsonTree
  eventId : Option String
  bestBid : ℚ
  bestAsk : ℚ
  liquidityNum : ℚ
  volumeNum : ℚ
  volume24hr : ℚ
  version : ProtocolVersion
  scannedTs : ℚ
  resolved : Bool

/-! ### Texts -/

/-- The characters that `str.strip` takes off. -/
def isSpace (c : Char) : Bool :=
  let n := c.toNat
  (9 ≤ n && n ≤ 13) || (28 ≤ n && n ≤ 32) || n ∈ [0x85, 0xA0, 0x1680, 0x2028, 0x2029, 0x202F,
    0x205F, 0x3000] || (0x2000 ≤ n && n ≤ 0x200A)

/-- The characters of `s.strip().lower()`. -/
def stripLower (s : String) : List Char :=
  ((lower s).dropWhile isSpace).reverse.dropWhile isSpace |>.reverse

/-- `str(value or "").strip().lower()`. -/
def normalized (G : GammaHost) (value : JsonTree) : List Char :=
  stripLower (if truthy value then G.str value else "")

/-- `ProtocolVersion.parse`. -/
def ProtocolVersion.parse (G : GammaHost) (raw : JsonTree) : Option ProtocolVersion :=
  [ProtocolVersion.v1, .v2].find? fun v => decide (v.value.toList = normalized G raw)

/-- `is_decimal_id`. -/
def isDecimalId (G : GammaHost) (value : String) : Bool :=
  value.toList.all G.isDigit && !value.toList.isEmpty

/-! ### Parts of a row -/

/-- `float(value or dflt)`. -/
def floatOr (G : GammaHost) (value : JsonTree) (dflt : ℚ) : Except Exc ℚ :=
  if truthy value then number G.toHost value else .ok dflt

/-- `_json_list`: an array, or a string that holds one. -/
def jsonList (G : GammaHost) : JsonTree → List JsonTree
  | .arr items => items
  | .str s =>
    match G.loads s with
    | some (.arr items) => items
    | _ => []
  | _ => []

/-- `_outcome_ids`. -/
def outcomeIds (G : GammaHost) (raw : List (String × JsonTree)) : ProtocolVersion → List JsonTree
  | .v2 => jsonList G (getMember raw "positionIds")
  | .v1 => jsonList G (getMember raw "clobTokenIds")

/-- `_is_resolved`. -/
def isResolved (G : GammaHost) (raw : List (String × JsonTree)) (version : ProtocolVersion) :
    Bool :=
  let key := match version with
    | .v2 => "resolutionStatus"
    | .v1 => "umaResolutionStatus"
  decide (normalized G (getMember raw key) = "resolved".toList)

/-- The two tokens: two outcomes, and two ids that are decimal. -/
def parseTokens (G : GammaHost) (raw : List (String × JsonTree)) (version : ProtocolVersion) :
    Option (TokenMeta × TokenMeta) :=
  match outcomeIds G raw version, jsonList G (getMember raw "outcomes") with
  | [yes, no], [yesOutcome, noOutcome] =>
    if isDecimalId G (G.str yes) && isDecimalId G (G.str no) then
      some (⟨G.str yes, G.str yesOutcome⟩, ⟨G.str no, G.str noOutcome⟩)
    else none
  | _, _ => none

/-- `raw.get("feeSchedule") or {}`, of which members are read. -/
def feeSchedule (raw : List (String × JsonTree)) : Except Exc (List (String × JsonTree)) :=
  match getMember raw "feeSchedule" with
  | .obj fee => .ok fee
  | fee => if truthy fee then .error .attribute else .ok []

/-- The id of the first event, where there is one. -/
def eventIdOf (G : GammaHost) (raw : List (String × JsonTree)) : Except Exc (Option String) :=
  match getMember raw "events" with
  | .arr (.obj event :: _) =>
    match getMember event "id" with
    | .null => .ok none
    | x => .ok (some (G.str x))
  | .arr (_ :: _) => .error .attribute
  | .obj (_ :: _) => .error .key
  | .str s => if s = "" then .ok none else .error .attribute
  | events => if truthy events then .error .type else .ok none

/-- `rate_map.get(condition_id, 0.0)`. -/
def dailyRate (rewardRates : Dict ConditionId ℚ) : JsonTree → Except Exc ℚ
  | .str cid => .ok (rewardRates.getD cid 0)
  | .arr _ | .obj _ => .error .type
  | _ => .ok 0

/-- A fee rate in basis points. -/
def feeBps (rate : ℚ) : ℤ := halfEven (rate * 10000)

/-! ### The market -/

/-- The fields of a market, read in this order. -/
def marketFields (G : GammaHost) (rewardRates : Dict ConditionId ℚ) (now : ℚ)
    (raw : List (String × JsonTree)) (version : ProtocolVersion) (tokens : TokenMeta × TokenMeta) :
    Except Exc GammaMeta := do
  let conditionId ← required raw "conditionId"
  let fee ← feeSchedule raw
  let takerRate ← floatOr G (getMember fee "rate") 0
  let eventId ← eventIdOf G raw
  let tickSize ← floatOr G (getMember raw "orderPriceMinTickSize") (1 / 1000)
  let minOrderSize ← floatOr G (getMember raw "orderMinSize") 5
  let rewardsMinSize ← floatOr G (getMember raw "rewardsMinSize") 0
  let rewardsMaxSpread ← floatOr G (getMember raw "rewardsMaxSpread") 0
  let rewardsDailyRate ← dailyRate rewardRates conditionId
  let rebateRate ← floatOr G (getMember fee "rebateRate") 0
  let bestBid ← floatOr G (getMember raw "bestBid") 0
  let bestAsk ← floatOr G (getMember raw "bestAsk") 0
  let liquidityNum ← floatOr G (getMember raw "liquidityNum") 0
  let volumeNum ← floatOr G (getMember raw "volumeNum") 0
  let volume24hr ← floatOr G (if truthy (getMember raw "volume24hrClob") then
    getMember raw "volume24hrClob" else getMember raw "volume24hr") 0
  pure
    { conditionId, tokens, tickSize, minOrderSize, rewardsMinSize, rewardsMaxSpread
      rewardsDailyRate, rebateRate, eventId, bestBid, bestAsk, liquidityNum, volumeNum, volume24hr
      version
      question := getMemberD raw "question" (.str "")
      slug := getMemberD raw "slug" (.str "")
      negRisk := truthy (getMember raw "negRisk")
      makerFeeBps := 0
      takerFeeBps := feeBps takerRate
      feesEnabled := truthy (getMember raw "feesEnabled")
      endDateIso := getMember raw "endDate"
      scannedTs := now
      resolved := isResolved G raw version }

/-- `parse_market`: a market, none where the row is of no use, or what the parser does not
handle. -/
def parseMarket (G : GammaHost) (rewardRates : Dict ConditionId ℚ) (now : ℚ)
    (raw : List (String × JsonTree)) : Except Exc (Option GammaMeta) :=
  if truthy (getMember raw "acceptingOrders") then
    match ProtocolVersion.parse G (getMember raw "version") with
    | none => .ok none
    | some version =>
      match parseTokens G raw version with
      | none => .ok none
      | some tokens =>
        tryExcept [.key, .value, .type] (marketFields G rewardRates now raw version tokens)
  else .ok none

theorem exists_of_parseMarket {G : GammaHost} {rewardRates : Dict ConditionId ℚ} {now : ℚ}
    {raw : List (String × JsonTree)}
    (h : (parseMarket G rewardRates now raw).toOption.join.isSome) :
    ∃ m, parseMarket G rewardRates now raw = .ok (some m) := by
  cases hparse : parseMarket G rewardRates now raw with
  | error e =>
    rw [hparse] at h
    cases h
  | ok o =>
    rw [hparse] at h
    obtain ⟨m, hm⟩ := Option.isSome_iff_exists.1 h
    exact ⟨m, congrArg Except.ok hm⟩

/-- The fields that a refresh takes over. -/
@[ext] structure Refreshable where
  rewardsMinSize : ℚ
  rewardsMaxSpread : ℚ
  takerFeeBps : ℤ
  rebateRate : ℚ
  endDateIso : JsonTree
  minOrderSize : ℚ
  tickSize : ℚ

/-- Those of a market. -/
def GammaMeta.refreshable (m : GammaMeta) : Refreshable :=
  ⟨m.rewardsMinSize, m.rewardsMaxSpread, m.takerFeeBps, m.rebateRate, m.endDateIso, m.minOrderSize,
    m.tickSize⟩

/-- How the parser reads them. -/
structure ParsedFrom (G : GammaHost) (raw : List (String × JsonTree)) (m : Refreshable) : Prop where
  rewardsMinSize : floatOr G (getMember raw "rewardsMinSize") 0 = .ok m.rewardsMinSize
  rewardsMaxSpread : floatOr G (getMember raw "rewardsMaxSpread") 0 = .ok m.rewardsMaxSpread
  fees : ∃ fee takerRate, feeSchedule raw = .ok fee ∧
    floatOr G (getMember fee "rate") 0 = .ok takerRate ∧ m.takerFeeBps = feeBps takerRate ∧
    floatOr G (getMember fee "rebateRate") 0 = .ok m.rebateRate
  endDateIso : m.endDateIso = getMember raw "endDate"
  minOrderSize : floatOr G (getMember raw "orderMinSize") 5 = .ok m.minOrderSize
  tickSize : floatOr G (getMember raw "orderPriceMinTickSize") (1 / 1000) = .ok m.tickSize

theorem refreshable_of_marketFields {G : GammaHost} {rewardRates : Dict ConditionId ℚ} {now : ℚ}
    {raw : List (String × JsonTree)} {version : ProtocolVersion} {tokens : TokenMeta × TokenMeta}
    {m : GammaMeta} (h : marketFields G rewardRates now raw version tokens = .ok m) :
    ParsedFrom G raw m.refreshable := by
  unfold marketFields at h
  obtain ⟨conditionId, -, h⟩ := bind_eq_ok.1 h
  obtain ⟨fee, hfee, h⟩ := bind_eq_ok.1 h
  obtain ⟨rate, hrate, h⟩ := bind_eq_ok.1 h
  obtain ⟨eventId, -, h⟩ := bind_eq_ok.1 h
  obtain ⟨tick, htick, h⟩ := bind_eq_ok.1 h
  obtain ⟨size, hsize, h⟩ := bind_eq_ok.1 h
  obtain ⟨rmin, hrmin, h⟩ := bind_eq_ok.1 h
  obtain ⟨rmax, hrmax, h⟩ := bind_eq_ok.1 h
  obtain ⟨daily, -, h⟩ := bind_eq_ok.1 h
  obtain ⟨rebate, hrebate, h⟩ := bind_eq_ok.1 h
  obtain ⟨bid, -, h⟩ := bind_eq_ok.1 h
  obtain ⟨ask, -, h⟩ := bind_eq_ok.1 h
  obtain ⟨liquidity, -, h⟩ := bind_eq_ok.1 h
  obtain ⟨volume, -, h⟩ := bind_eq_ok.1 h
  obtain ⟨volume24hr, -, h⟩ := bind_eq_ok.1 h
  obtain rfl := Except.ok.inj h
  exact ⟨hrmin, hrmax, ⟨fee, rate, hfee, hrate, rfl, hrebate⟩, rfl, hsize, htick⟩

theorem refreshable_of_parseMarket {G : GammaHost} {rewardRates : Dict ConditionId ℚ} {now : ℚ}
    {raw : List (String × JsonTree)} {m : GammaMeta}
    (h : parseMarket G rewardRates now raw = .ok (some m)) : ParsedFrom G raw m.refreshable := by
  unfold parseMarket at h
  split at h
  · split at h
    · cases h
    · rename_i version _
      split at h
      · cases h
      · rename_i tokens _
        cases hfields : marketFields G rewardRates now raw version tokens with
        | ok m' =>
          rw [hfields] at h
          obtain rfl := Option.some.inj (Except.ok.inj h)
          exact refreshable_of_marketFields hfields
        | error e =>
          rw [hfields, tryExcept] at h
          split_ifs at h
          cases h
  · cases h

end Polymaker.Catalog
