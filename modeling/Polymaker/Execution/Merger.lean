import Polymaker.Catalog.Store
import Polymaker.Execution.ConditionId

/-!
# The merger

`Merger.merge` of `merge.py`: which contract call it submits for a pair of positions, and through
which wallet.  Building the client, signing and sending are not modelled.

* `MergeConfig`, `canMerge`: the wallet, and whether any path can run;
* `Route`, `ContractCall`: how a call is submitted, and the calls;
* `toBytes32`, and `toBytes32_of_writes`: the condition id of a V1 call;
* `Merger.request`: the call that is submitted, if any;
* `request_eq_some_iff`: when it is which: for a positive amount alone, on the contract of the
  market's version, with the market's own condition.
-/

namespace Polymaker

open Bytes Catalog

/-! ### The wallet -/

/-- What the merger reads of the configuration. -/
structure MergeConfig where
  signatureType : ℤ := 2
  mergeV2Enabled : Bool := false
  hasBuilderCreds : Bool := false
  deriving DecidableEq, Repr

namespace MergeConfig

variable (c : MergeConfig)

/-- `can_merge_v1`: an EOA or a Safe, or else builder credentials. -/
def canMergeV1 : Bool :=
  if c.signatureType = 0 ∨ c.signatureType = 2 then true else c.hasBuilderCreds

/-- `can_merge_v2`. -/
def canMergeV2 : Bool := if c.mergeV2Enabled then c.canMergeV1 else false

/-- `can_merge`. -/
def canMerge : Bool := c.canMergeV1 || c.canMergeV2

/-- The gate of the V2 path adds nothing to it. -/
theorem canMerge_eq : c.canMerge = c.canMergeV1 := by
  unfold canMerge canMergeV2
  split_ifs <;> simp

end MergeConfig

/-! ### Calls -/

/-- Through which wallet a call is submitted. -/
inductive Route
  | eoa
  | safe
  | depositWallet
  deriving DecidableEq, Repr

/-- A call of `mergePositions`, or of the router's `merge`. -/
inductive ContractCall
  /-- On Conditional Tokens, for a collateral, a parent collection and a partition. -/
  | conditionalTokens (collateral : String) (parent condition : List UInt8) (partition : List ℕ)
      (amount : ℤ)
  /-- On the adapter of negative-risk markets. -/
  | negRiskAdapter (condition : List UInt8) (amount : ℤ)
  /-- On the router of V2. -/
  | router (condition : List UInt8) (amount : ℤ)
  deriving DecidableEq, Repr

/-- `CONDITIONAL_TOKENS`. -/
def conditionalTokensAddress : String := "0x4D97DCd97eC945f40cF65F87097ACe5EA0476045"

/-- `NEG_RISK_ADAPTER`. -/
def negRiskAdapterAddress : String := "0xadA2005600Dec949baf300f4C6120000bDB6eAab"

/-- `USDC_COLLATERAL`. -/
def usdcCollateral : String := "0x2791Bca1f2de4661ED88A30C99A7a9449Aa84174"

/-- `ROUTER`. -/
def routerAddress : String := "0x12121212006e4CD160D18e3f00711DA5c3372600"

namespace ContractCall

/-- The contract that is called. -/
def target : ContractCall → String
  | .conditionalTokens .. => conditionalTokensAddress
  | .negRiskAdapter .. => negRiskAdapterAddress
  | .router .. => routerAddress

/-- The condition whose positions are merged. -/
def condition : ContractCall → List UInt8
  | .conditionalTokens _ _ condition _ _ => condition
  | .negRiskAdapter condition _ => condition
  | .router condition _ => condition

/-- How much of each position is merged, in base units. -/
def amount : ContractCall → ℤ
  | .conditionalTokens _ _ _ _ amount => amount
  | .negRiskAdapter _ amount => amount
  | .router _ amount => amount

end ContractCall

/-- `_to_bytes32`: a text of fewer than 64 digits is padded on the left, a longer one is not cut. -/
def toBytes32 (hexStr : String) : Option (List UInt8) :=
  let s := match hexStr.toList with
    | '0' :: 'x' :: text => text
    | text => text
  Hex.decode (List.replicate (64 - s.length) '0' ++ s)

/-- The `mergePositions` call of a V1 market, of `_merge_eoa` and of `_inner_merge_call`. -/
def innerMergeCall (condition : List UInt8) (amountRaw : ℤ) (negRisk : Bool) : ContractCall :=
  if negRisk then .negRiskAdapter condition amountRaw
  else .conditionalTokens usdcCollateral (List.replicate 32 0) condition [1, 2] amountRaw

namespace Merger

variable (c : MergeConfig) (u : UnicodeDigits)

/-- `_merge_v2`, up to the submission; a Safe is passed over, and its owner sends the call. -/
def requestV2 (conditionId : String) (amountRaw : ℤ) (positionId : Option String) :
    Option (Route × ContractCall) :=
  if c.mergeV2Enabled then
    match v2ConditionBytes31 u conditionId positionId with
    | .ok (some condition) =>
      some (if c.signatureType = 0 ∨ c.signatureType = 2 then .eoa else .depositWallet,
        .router condition amountRaw)
    | _ => none
  else none

/-- `_merge_eoa`, `_merge_safe` and `_merge_deposit_wallet`, up to the submission. -/
def requestV1 (conditionId : String) (amountRaw : ℤ) (negRisk : Bool) :
    Option (Route × ContractCall) :=
  (toBytes32 conditionId).map fun condition =>
    (if c.signatureType = 0 then .eoa else if c.signatureType = 2 then .safe else .depositWallet,
      innerMergeCall condition amountRaw negRisk)

/-- `merge`, up to the submission: an exception on the way is caught, and nothing is submitted. -/
def request (conditionId : String) (amountRaw : ℤ) (negRisk : Bool) (version : VersionValue)
    (positionId : Option String) : Option (Route × ContractCall) :=
  if amountRaw ≤ 0 ∨ ¬ c.canMerge then none
  else if version.Is .v2 then requestV2 c u conditionId amountRaw positionId
  else requestV1 c conditionId amountRaw negRisk

end Merger

/-! ### What is submitted -/

/-- **The condition of a V1 call** has the bytes its text spells, padded to 32. -/
theorem toBytes32_of_writes {mark text : List Char} {bytes : List UInt8}
    (hmark : mark ∈ [[], ['0', 'x']]) (htext : Hex.Writes text bytes) (hlen : bytes.length ≤ 32) :
    toBytes32 (String.ofList (mark ++ text)) =
      some (List.replicate (32 - bytes.length) 0 ++ bytes) := by
  have hdigits := fun c (hc : c ∈ text) => Hex.digit?_of_mem_writes htext hc
  have hx : Hex.digit? 'x' = none := by decide
  have hpad : 64 - text.length = 2 * (32 - bytes.length) := by
    rw [Hex.length_of_writes htext]
    omega
  have hread : Hex.decode (List.replicate (64 - text.length) '0' ++ text) =
      some (List.replicate (32 - bytes.length) 0 ++ bytes) := by
    rw [hpad]
    exact Hex.decode_of_writes ((Hex.writes_replicate_zero _).append htext)
  unfold toBytes32
  rw [String.toList_ofList]
  simp only [List.mem_cons, List.not_mem_nil, or_false] at hmark
  rcases hmark with rfl | rfl
  · rw [List.nil_append]
    split
    · obtain ⟨n, hn⟩ := hdigits 'x' (by simp)
      cases hx.symm.trans hn
    · exact hread
  · exact hread

namespace Merger

variable {c : MergeConfig} {u : UnicodeDigits} {conditionId : String} {amountRaw : ℤ}
  {negRisk : Bool} {version : VersionValue} {positionId : Option String} {route : Route}
  {call : ContractCall}

theorem requestV2_eq_some_iff :
    requestV2 c u conditionId amountRaw positionId = some (route, call) ↔
      c.mergeV2Enabled = true ∧ ∃ condition,
        v2ConditionBytes31 u conditionId positionId = .ok (some condition) ∧
          route = (if c.signatureType = 0 ∨ c.signatureType = 2 then .eoa else .depositWallet) ∧
            call = .router condition amountRaw := by
  unfold requestV2
  by_cases hgate : c.mergeV2Enabled = true
  · rw [if_pos hgate]
    rcases v2ConditionBytes31 u conditionId positionId with e | _ | condition
    · simp [hgate]
    · simp [hgate]
    · simp [hgate, eq_comm]
  · rw [if_neg hgate]
    simp [hgate]

/-- **What is submitted, and when.** -/
theorem request_eq_some_iff :
    request c u conditionId amountRaw negRisk version positionId = some (route, call) ↔
      0 < amountRaw ∧ c.canMerge = true ∧
        if version.Is .v2 then
          requestV2 c u conditionId amountRaw positionId = some (route, call)
        else requestV1 c conditionId amountRaw negRisk = some (route, call) := by
  unfold request
  by_cases hnot : amountRaw ≤ 0 ∨ ¬ c.canMerge = true
  · rw [if_pos hnot]
    refine iff_of_false (by simp) fun h => ?_
    rcases hnot with hle | hcannot
    · exact absurd h.1 (not_lt.2 hle)
    · exact hcannot h.2.1
  · rw [if_neg hnot]
    rw [not_or, not_le, not_not] at hnot
    by_cases hv2 : version.Is .v2 <;> simp [hnot.1, hnot.2, hv2]

/-- A call that is submitted is for the amount asked, which is positive. -/
theorem amount_of_request
    (h : request c u conditionId amountRaw negRisk version positionId = some (route, call)) :
    0 < amountRaw ∧ call.amount = amountRaw := by
  obtain ⟨hpos, -, h⟩ := request_eq_some_iff.1 h
  refine ⟨hpos, ?_⟩
  split_ifs at h with hv2
  · obtain ⟨-, condition, -, -, rfl⟩ := requestV2_eq_some_iff.1 h
    rfl
  · obtain ⟨condition, -, heq⟩ := Option.map_eq_some_iff.1 h
    rw [Prod.mk.injEq] at heq
    rw [← heq.2, innerMergeCall]
    split_ifs <;> rfl

end Merger

end Polymaker
