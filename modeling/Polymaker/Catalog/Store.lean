import Mathlib.Data.Rat.Defs
import Polymaker.Domain
import Polymaker.Lib.Json

/-!
# The catalog

Markets are cached in the catalog as JSON (`catalog/store.py`), and read back when Gamma cannot be
reached.

* `ProtocolVersion`, `VersionValue`: the two position systems, and what a `version` field can hold:
  a member of the enumeration, or a string that only equals one;
* `MarketMeta`: a market with all its fields;
* `isV2`, `ledger`, `balanceReads`, `VersionValue.value?`: where the code branches on the version;
* `dumpMeta`, `loadMeta`: the cache, and `loadMeta_dumpMeta`: what comes back;
* `preserves_routing_iff`: it routes like the market that was stored exactly when the version was a
  string before.
-/

namespace Polymaker.Catalog

open JsonTree

/-! ### Versions -/

/-- Which position system a market settles in. -/
inductive ProtocolVersion
  | v1
  | v2
  deriving DecidableEq, Repr

/-- The string a member is. -/
def ProtocolVersion.value : ProtocolVersion → String
  | .v1 => "v1"
  | .v2 => "v2"

/-- What a `version` field holds: a member, or a plain string. -/
inductive VersionValue
  | member (v : ProtocolVersion)
  | plain (s : String)
  deriving DecidableEq, Repr

namespace VersionValue

/-- The string, by which values are compared and hashed. -/
def str : VersionValue → String
  | .member v => v.value
  | .plain s => s

/-- `is`: a string is no member, also where it equals one. -/
def Is (x : VersionValue) (v : ProtocolVersion) : Prop := x = .member v

instance (x : VersionValue) (v : ProtocolVersion) : Decidable (x.Is v) :=
  inferInstanceAs (Decidable (x = _))

/-- `.value`, which a plain string lacks. -/
def value? : VersionValue → Option String
  | .member v => some v.value
  | .plain _ => none

/-- A version as JSON keeps it: a member is written as its string, and read back as one. -/
def reloaded (x : VersionValue) : VersionValue := .plain x.str

end VersionValue

/-- The Conditional Tokens contract. -/
def ctfLedger : String := "0x4D97DCd97eC945f40cF65F87097ACe5EA0476045"

/-- The PositionManager contract. -/
def positionManager : String := "0x006F54F7f9A22e0000CC2AB60031000000ae9fEF"

/-- `_LEDGERS`, by the string its keys are. -/
def ledgers : List (String × String) :=
  [(ProtocolVersion.v1.value, ctfLedger), (ProtocolVersion.v2.value, positionManager)]

/-- `ledger_for`: a lookup by equality. -/
def ledgerFor (x : VersionValue) : Option String := ledgers.lookup x.str

/-- The reads `token_balances` makes: for each member of the enumeration, the tokens whose version
is that member, from its ledger. -/
def ledgerReads (wanted : List (TokenId × VersionValue)) : List (Option String × TokenId) :=
  [ProtocolVersion.v1, ProtocolVersion.v2].flatMap fun v =>
    (wanted.filter fun t => decide (t.2.Is v)).map fun t => (ledgerFor (.member v), t.1)

/-! ### Markets -/

/-- A token of a market. -/
structure TokenMeta where
  tokenId : TokenId
  outcome : String
  deriving DecidableEq, Repr

/-- The metadata of a market. -/
structure MarketMeta where
  conditionId : ConditionId
  question : String
  slug : String
  tokens : TokenMeta × TokenMeta
  tickSize : ℚ
  negRisk : Bool
  minOrderSize : ℚ
  rewardsMinSize : ℚ
  rewardsMaxSpread : ℚ
  rewardsDailyRate : ℚ
  makerFeeBps : ℤ
  takerFeeBps : ℤ
  feesEnabled : Bool
  endDateIso : Option String
  eventId : Option String
  rebateRate : ℚ := 0
  bestBid : ℚ := 0
  bestAsk : ℚ := 0
  liquidityNum : ℚ := 0
  volumeNum : ℚ := 0
  volume24hr : ℚ := 0
  version : VersionValue := .member .v1
  scannedTs : ℚ := 0
  resolved : Bool := false
  deriving DecidableEq, Repr

namespace MarketMeta

variable (m : MarketMeta)

/-- `is_v2`. -/
def isV2 : Bool := decide (m.version.Is .v2)

/-- `ledger`. -/
def ledger : Option String := ledgerFor m.version

/-- The balance reads of both tokens. -/
def balanceReads : List (Option String × TokenId) :=
  ledgerReads [(m.tokens.1.tokenId, m.version), (m.tokens.2.tokenId, m.version)]

/-- What the trading components read of a market, `timestamp` being how dates are parsed. -/
def traded (timestamp : String → Option ℚ) : Polymaker.MarketMeta :=
  ⟨m.conditionId, m.tokens.1.tokenId, m.tokens.2.tokenId, m.tickSize, m.minOrderSize,
    m.rewardsMinSize, m.rewardsMaxSpread, m.endDateIso.bind timestamp, m.eventId⟩

end MarketMeta

/-! ### The cache -/

/-- A token as a JSON object. -/
instance : Codec TokenMeta where
  enc t := .obj [("token_id", Codec.enc t.tokenId), ("outcome", Codec.enc t.outcome)]
  dec
    | .obj d =>
      -- no other keyword is accepted
      if d.all fun e => decide (e.1 ∈ ["token_id", "outcome"]) then do
        let tokenId ← member d "token_id"
        let outcome ← member d "outcome"
        some ⟨tokenId, outcome⟩
      else none
    | _ => none
  dec_enc t := by rfl

/-- The fields of a market, in order. -/
def metaFields : List String :=
  ["condition_id", "question", "slug", "tokens", "tick_size", "neg_risk", "min_order_size",
    "rewards_min_size", "rewards_max_spread", "rewards_daily_rate", "maker_fee_bps",
    "taker_fee_bps", "fees_enabled", "end_date_iso", "event_id", "rebate_rate", "best_bid",
    "best_ask", "liquidity_num", "volume_num", "volume_24hr", "version", "scanned_ts", "resolved"]

/-- `_dump_meta`. -/
def dumpMeta (m : MarketMeta) : JsonTree :=
  .obj [("condition_id", Codec.enc m.conditionId), ("question", Codec.enc m.question),
    ("slug", Codec.enc m.slug), ("tokens", Codec.enc m.tokens),
    ("tick_size", Codec.enc m.tickSize), ("neg_risk", Codec.enc m.negRisk),
    ("min_order_size", Codec.enc m.minOrderSize), ("rewards_min_size", Codec.enc m.rewardsMinSize),
    ("rewards_max_spread", Codec.enc m.rewardsMaxSpread),
    ("rewards_daily_rate", Codec.enc m.rewardsDailyRate),
    ("maker_fee_bps", Codec.enc m.makerFeeBps), ("taker_fee_bps", Codec.enc m.takerFeeBps),
    ("fees_enabled", Codec.enc m.feesEnabled), ("end_date_iso", Codec.enc m.endDateIso),
    ("event_id", Codec.enc m.eventId), ("rebate_rate", Codec.enc m.rebateRate),
    ("best_bid", Codec.enc m.bestBid), ("best_ask", Codec.enc m.bestAsk),
    ("liquidity_num", Codec.enc m.liquidityNum), ("volume_num", Codec.enc m.volumeNum),
    ("volume_24hr", Codec.enc m.volume24hr), ("version", Codec.enc m.version.str),
    ("scanned_ts", Codec.enc m.scannedTs), ("resolved", Codec.enc m.resolved)]

/-- The version of a blob: it stays the string it was read as. -/
def loadVersion (d : List (String × JsonTree)) : Option VersionValue :=
  match d.lookup "version" with
  | some x => (Codec.dec x).map VersionValue.plain
  | none => some (.member .v1)

/-- `MarketMeta(**d)`, with the tokens of `_load_meta`. -/
def MarketMeta.ofMembers (d : List (String × JsonTree)) : Option MarketMeta :=
  -- no other keyword is accepted
  if d.all fun e => decide (e.1 ∈ metaFields) then do
    let tokens ← member d "tokens"
    let conditionId ← member d "condition_id"
    let question ← member d "question"
    let slug ← member d "slug"
    let tickSize ← member d "tick_size"
    let negRisk ← member d "neg_risk"
    let minOrderSize ← member d "min_order_size"
    let rewardsMinSize ← member d "rewards_min_size"
    let rewardsMaxSpread ← member d "rewards_max_spread"
    let rewardsDailyRate ← member d "rewards_daily_rate"
    let makerFeeBps ← member d "maker_fee_bps"
    let takerFeeBps ← member d "taker_fee_bps"
    let feesEnabled ← member d "fees_enabled"
    let endDateIso ← member d "end_date_iso"
    let eventId ← member d "event_id"
    let rebateRate ← memberD d "rebate_rate" 0
    let bestBid ← memberD d "best_bid" 0
    let bestAsk ← memberD d "best_ask" 0
    let liquidityNum ← memberD d "liquidity_num" 0
    let volumeNum ← memberD d "volume_num" 0
    let volume24hr ← memberD d "volume_24hr" 0
    let version ← loadVersion d
    let scannedTs ← memberD d "scanned_ts" 0
    let resolved ← memberD d "resolved" false
    some { conditionId, question, slug, tokens, tickSize, negRisk, minOrderSize, rewardsMinSize
           rewardsMaxSpread, rewardsDailyRate, makerFeeBps, takerFeeBps, feesEnabled, endDateIso
           eventId, rebateRate, bestBid, bestAsk, liquidityNum, volumeNum, volume24hr, version
           scannedTs, resolved }
  else none

/-- `_load_meta`, of a blob as `json.loads` reads it. -/
def loadMeta : JsonTree → Option MarketMeta
  | .obj d => MarketMeta.ofMembers d
  | _ => none

/-- **What comes back** from the cache is the market, its version a plain string. -/
theorem loadMeta_dumpMeta (m : MarketMeta) :
    loadMeta (dumpMeta m) = some { m with version := m.version.reloaded } := by
  show MarketMeta.ofMembers _ = _
  unfold MarketMeta.ofMembers
  rw [if_pos (by rfl)]
  -- the fields without a default, then those with one around the version
  iterate 15 refine Option.bind_eq_some_iff.2 ⟨_, member_of_lookup rfl, ?_⟩
  iterate 6 refine Option.bind_eq_some_iff.2 ⟨_, memberD_of_lookup rfl _, ?_⟩
  refine Option.bind_eq_some_iff.2 ⟨m.version.reloaded, rfl, ?_⟩
  iterate 2 refine Option.bind_eq_some_iff.2 ⟨_, memberD_of_lookup rfl _, ?_⟩
  rfl

/-! ### Routing -/

/-- A market routes like another where the code branches on the version, and is the same
otherwise. -/
structure RoutesLike (m' m : MarketMeta) : Prop where
  is_v2 : m'.isV2 = m.isV2
  ledger : m'.ledger = m.ledger
  identity : ∀ v, m'.version.Is v ↔ m.version.Is v
  balances : m'.balanceReads = m.balanceReads
  value : m'.version.value? = m.version.value?
  fields : { m' with version := m.version } = m

/-- **Catalog persistence preserves protocol routing** for the market. -/
def PreservesRouting (m : MarketMeta) : Prop :=
  ∃ m', loadMeta (dumpMeta m) = some m' ∧ RoutesLike m' m

/-- The ledger is looked up by equality, and survives. -/
theorem ledger_reloaded (m : MarketMeta) :
    MarketMeta.ledger { m with version := m.version.reloaded } = m.ledger := rfl

/-- So does what the trading components read. -/
theorem traded_reloaded (m : MarketMeta) (timestamp : String → Option ℚ) :
    MarketMeta.traded { m with version := m.version.reloaded } timestamp = m.traded timestamp := rfl

/-- No version that comes back is a member. -/
theorem not_is_reloaded (x : VersionValue) (v : ProtocolVersion) : ¬ x.reloaded.Is v := by
  intro h
  cases h

/-- A market that comes back is on the V1 route. -/
theorem isV2_reloaded (m : MarketMeta) :
    MarketMeta.isV2 { m with version := m.version.reloaded } = false :=
  decide_eq_false (not_is_reloaded _ _)

/-- The balances of a market that comes back are not read at all. -/
theorem balanceReads_reloaded (m : MarketMeta) :
    MarketMeta.balanceReads { m with version := m.version.reloaded } = [] := by
  simp [MarketMeta.balanceReads, ledgerReads, not_is_reloaded]

/-- **Routing is preserved exactly** when the version was no member before. -/
theorem preserves_routing_iff (m : MarketMeta) :
    PreservesRouting m ↔ ∃ s, m.version = .plain s := by
  unfold PreservesRouting
  rw [loadMeta_dumpMeta]
  constructor
  · rintro ⟨m', hload, hroutes⟩
    obtain rfl := Option.some.inj hload
    have hvalue := hroutes.value
    cases hversion : m.version with
    | plain s => exact ⟨s, rfl⟩
    | member v =>
      -- a member has a value, and what came back has none
      rw [hversion] at hvalue
      cases hvalue
  · rintro ⟨s, hversion⟩
    have hsame : { m with version := m.version.reloaded } = m := by
      rw [hversion]
      cases m
      cases hversion
      rfl
    rw [hsame]
    exact ⟨m, rfl, rfl, rfl, fun _ => Iff.rfl, rfl, rfl, rfl⟩

/-- A V2 market comes back on the V1 route, with no value to log. -/
theorem not_preserves_routing_of_v2 :
    let m : MarketMeta :=
      { conditionId := "c", question := "Will it?", slug := "will-it"
        tokens := (⟨"11", "Yes"⟩, ⟨"12", "No"⟩), tickSize := 1 / 100, negRisk := false
        minOrderSize := 5, rewardsMinSize := 50, rewardsMaxSpread := 3, rewardsDailyRate := 20
        makerFeeBps := 0, takerFeeBps := 0, feesEnabled := false, endDateIso := none
        eventId := none, version := .member .v2 }
    m.isV2 = true ∧ ¬ PreservesRouting m := by
  refine ⟨rfl, ?_⟩
  rintro ⟨m', hload, hroutes⟩
  rw [loadMeta_dumpMeta] at hload
  obtain rfl := Option.some.inj hload
  cases hroutes.is_v2

end Polymaker.Catalog
