import Polymaker.Engine.Divergence
import Polymaker.Execution.Merger
import Polymaker.Lib.Rounding
import Polymaker.Lib.SingleFlight

/-!
# Merging pairs

A recompute that finds enough pairs of YES and NO starts a task that merges them on chain
(`_maybe_merge`, `_merge_task` of `engine.py`).  Tasks of several markets run beside one another and
beside whatever else moves balances; one lock serialises their transactions.

* `MergeRequest`, `MergeStage`: what a task was started for, and where it is once it has the lock;
* `MergeDesk`, `MergeEvent`, `MergeDesk.step`: the tasks, the balances on chain, and what happens to
  either, in any order;
* `merges_exclusive`: one merge a market, one transaction at a time, and no market stays busy;
* `Covered`: every transaction on its way asks for no more than the engine saw, nor than the ledger
  holds; `KeepsFunds`: no other move takes out what it asks for;
* `merges_covered`: under that condition every transaction stays covered.
-/

namespace Polymaker

open Catalog Rounding

/-- What a merge was started for. -/
structure MergeRequest where
  market : Catalog.MarketMeta
  amount : ℚ

/-- Where a merge is once it holds the chain lock. -/
inductive MergeStage
  /-- It waits for the balances of both tokens. -/
  | reading
  /-- A call for `raw` base units is on its way. -/
  | submitting (raw : ℤ) (route : Route) (call : ContractCall)

/-- What each ledger holds of a token, in shares. -/
abbrev Balances := Option String → TokenId → ℚ

/-- The merges that have not ended, and the balances on chain. -/
structure MergeDesk where
  pool : SingleFlight.Pool ConditionId MergeRequest MergeStage
  chain : Balances

/-- Something that happens to the merges, or to the balances. -/
inductive MergeEvent
  /-- A recompute of the market ends, having read these positions. -/
  | recomputed (cid : ConditionId) (market : Catalog.MarketMeta) (mergeMinSize yes no : ℚ)
      (paper : Bool)
  /-- A task gets the lock. -/
  | acquired (i : ℕ)
  /-- A task gets its balances, if they can be read, and submits, if a client can be built. -/
  | answered (i : ℕ) (readable reachable : Bool)
  /-- A transaction comes to its end, well or not, with these balances. -/
  | settled (i : ℕ) (chain : Balances)
  /-- Balances move otherwise. -/
  | moved (chain : Balances)

namespace MergeDesk

variable (c : MergeConfig) (u : UnicodeDigits)

/-- Before any recompute. -/
def start (chain : Balances) : MergeDesk := ⟨.empty, chain⟩

/-- The balances a merge reads: of both tokens, from the ledger of the market's version. -/
def readBalances (m : Catalog.MarketMeta) (chain : Balances) (readable : Bool) :
    Option (Dict TokenId ℚ) :=
  tokenBalances
    ((Dict.empty.set m.tokens.1.tokenId m.version).set m.tokens.2.tokenId m.version)
    (if readable then some chain else none)

/-- The base units a merge asks for. -/
def rawAmount (r : MergeRequest) (bals : Dict TokenId ℚ) : ℤ :=
  truncate (min (min r.amount (bals.getD r.market.tokens.1.tokenId 0))
    (bals.getD r.market.tokens.2.tokenId 0) * 10 ^ 6)

/-- What a merge submits on the balances it read, if anything. -/
def submission (r : MergeRequest) (bals : Dict TokenId ℚ) : Option MergeStage :=
  (Merger.request c u r.market.conditionId (rawAmount r bals) r.market.negRisk r.market.version
    (some r.market.tokens.1.tokenId)).map fun call =>
      .submitting (rawAmount r bals) call.1 call.2

/-- A merge gets its balances; without any, or without a call to submit, it ends. -/
def answer (chain : Balances) (readable reachable : Bool) (r : MergeRequest) :
    MergeStage → Option MergeStage
  | .reading =>
    (readBalances r.market chain readable).bind fun bals =>
      if reachable then submission c u r bals else none
  | stage => some stage

/-- The transaction of a merge comes to its end, and so does the merge. -/
def settle : MergeStage → Option MergeStage
  | .reading => some .reading
  | .submitting .. => none

/-- The task at a position has a transaction on its way. -/
def Submits (d : MergeDesk) (i : ℕ) : Bool :=
  ((d.pool.tasks[i]?).bind fun t => t.inside.bind fun stage => some (settle stage).isNone).getD
    false

/-- One event.  `_maybe_merge` starts a task for enough pairs, if none of the market is busy. -/
def step (d : MergeDesk) : MergeEvent → MergeDesk
  | .recomputed cid market mergeMinSize yes no paper =>
    if min yes no < mergeMinSize ∨ paper = true then d
    else { d with pool := d.pool.spawn cid ⟨market, min yes no⟩ }
  | .acquired i => { d with pool := d.pool.enter i .reading }
  | .answered i readable reachable =>
    { d with pool := d.pool.proceed i fun _ r => answer c u d.chain readable reachable r }
  | .settled i chain =>
    if d.Submits i then ⟨d.pool.proceed i fun _ _ => settle, chain⟩ else d
  | .moved chain => { d with chain }

/-! ### One at a time -/

variable {c u} {d : MergeDesk}

theorem exclusive_step (h : d.pool.Exclusive) (e : MergeEvent) : (d.step c u e).pool.Exclusive := by
  cases e with
  | recomputed cid market mergeMinSize yes no paper =>
    unfold step
    dsimp only
    split_ifs
    · exact h
    · exact SingleFlight.Pool.exclusive_spawn h cid _
  | acquired i => exact SingleFlight.Pool.exclusive_enter h i .reading
  | answered i readable reachable =>
    exact SingleFlight.Pool.exclusive_proceed h i fun _ r => answer c u d.chain readable reachable r
  | settled i chain =>
    unfold step
    dsimp only
    split_ifs
    · exact SingleFlight.Pool.exclusive_proceed h i fun _ _ => settle
    · exact h
  | moved chain => exact h

theorem exclusive_run (chain : Balances) (es : List MergeEvent) :
    Run.Always (step c u) (fun d => d.pool.Exclusive) (start chain) es :=
  Run.always_of_step (P := fun d : MergeDesk => d.pool.Exclusive)
    (fun _ e h => exclusive_step h e) SingleFlight.Pool.exclusive_empty es

/-- A task that is inside can end. -/
theorem exists_end_of_inside {i : ℕ} {t : SingleFlight.Task ConditionId MergeRequest MergeStage}
    (ht : d.pool.tasks[i]? = some t) {stage : MergeStage} (hstage : t.inside = some stage) :
    ∃ e, (d.step c u e).pool = d.pool.finish i t.key := by
  cases stage with
  | reading =>
    refine ⟨.answered i true false, ?_⟩
    have hnone : answer c u d.chain true false t.request .reading = none := by
      change (readBalances t.request.market d.chain true).bind (fun _ => none) = none
      cases readBalances t.request.market d.chain true <;> rfl
    change d.pool.proceed i (fun _ r => answer c u d.chain true false r) = _
    unfold SingleFlight.Pool.proceed
    simp only [ht, hstage, hnone]
  | submitting raw route call =>
    refine ⟨.settled i d.chain, ?_⟩
    have hsubmits : d.Submits i = true := by
      unfold Submits
      rw [ht, Option.bind_some, hstage]
      rfl
    unfold step
    simp only [hsubmits, if_true]
    unfold SingleFlight.Pool.proceed
    simp only [ht, hstage, settle]

/-- **No merge is stuck**: from any state of a run, the merges that are left can end, and then no
market is busy. -/
theorem exists_drained {n : ℕ} (h : d.pool.Exclusive) (hn : d.pool.tasks.length = n) :
    ∃ es, (Run.run (step c u) d es).pool.tasks = [] ∧ (Run.run (step c u) d es).pool.busy = [] := by
  induction n generalizing d with
  | zero =>
    have hnil : d.pool.tasks = [] := List.length_eq_zero_iff.1 hn
    refine ⟨[], hnil, List.eq_nil_iff_forall_not_mem.2 fun k hk => ?_⟩
    have hmem := (h.busy k).1 hk
    rw [hnil] at hmem
    exact absurd hmem List.not_mem_nil
  | succ n ih =>
    have hne : d.pool.tasks ≠ [] := fun hnil => by simp [hnil] at hn
    obtain ⟨t, ht, hmove⟩ := h.exists_move hne
    obtain ⟨i, hi⟩ := List.getElem?_of_mem ht
    have hlt : i < d.pool.tasks.length := (List.getElem?_eq_some_iff.1 hi).1
    rcases hmove with hin | ⟨hout, hfree⟩
    · obtain ⟨stage, hstage⟩ := Option.isSome_iff_exists.1 hin
      obtain ⟨e, he⟩ := exists_end_of_inside (c := c) (u := u) hi hstage
      have hlen : (d.step c u e).pool.tasks.length = n := by
        rw [he]
        change (d.pool.tasks.eraseIdx i).length = n
        rw [List.length_eraseIdx_of_lt hlt, hn, Nat.add_sub_cancel]
      obtain ⟨es, hes⟩ := ih (exclusive_step h e) hlen
      exact ⟨e :: es, hes⟩
    · have henter : (d.step c u (.acquired i)).pool.tasks =
          d.pool.tasks.set i { t with inside := some .reading } := by
        change (d.pool.enter i .reading).tasks = _
        unfold SingleFlight.Pool.enter
        simp only [hi, hout, hfree, Option.isNone_none, and_self, if_true]
      have hget : (d.step c u (.acquired i)).pool.tasks[i]? =
          some { t with inside := some .reading } := by
        rw [henter, List.getElem?_set_self hlt]
      obtain ⟨e, he⟩ := exists_end_of_inside (c := c) (u := u) hget rfl
      have hlen : ((d.step c u (.acquired i)).step c u e).pool.tasks.length = n := by
        rw [he]
        change ((d.step c u (.acquired i)).pool.tasks.eraseIdx i).length = n
        rw [henter, List.length_eraseIdx_of_lt (by rwa [List.length_set]), List.length_set, hn,
          Nat.add_sub_cancel]
      obtain ⟨es, hes⟩ := ih (exclusive_step (exclusive_step h _) e) hlen
      exact ⟨.acquired i :: e :: es, hes⟩

/-! ### Transactions are covered -/

/-- A balance is that of the ledger of its token's version, which is a member of the enumeration. -/
theorem of_get?_tokenBalances {wanted : Dict TokenId VersionValue} {chain : Balances}
    {out : Dict TokenId ℚ} (h : tokenBalances wanted (some chain) = some out) {tok : TokenId} {x : ℚ}
    (hx : out.get? tok = some x) :
    ∃ v, (tok, VersionValue.member v) ∈ wanted.entries ∧ x = chain (ledgerFor (.member v)) tok := by
  unfold tokenBalances at h
  split_ifs at h
  · rw [← Option.some.inj h] at hx
    cases hx
  · obtain rfl := Option.some.inj h
    revert hx
    refine List.foldlRecOn (motive := fun out : Dict TokenId ℚ => out.get? tok = some x → _) _ _
      (fun hx => by cases hx) ?_
    intro out ih read hread hx
    rw [Dict.get?_set] at hx
    split_ifs at hx with htok
    · obtain ⟨v, -, hv⟩ := List.mem_flatMap.1 hread
      obtain ⟨e, he, rfl⟩ := List.mem_map.1 hv
      obtain ⟨hmem, his⟩ := List.mem_filter.1 he
      have hversion : e.2 = .member v := of_decide_eq_true his
      refine ⟨v, ?_, ?_⟩
      · rw [htok, ← hversion]
        exact hmem
      · rw [htok]
        exact (Option.some.inj hx).symm
    · exact ih hx

/-- A balance that a merge has read of one of its tokens is that of the market's ledger. -/
theorem of_getD_readBalances {m : Catalog.MarketMeta} {chain : Balances} {readable : Bool}
    {bals : Dict TokenId ℚ} (h : readBalances m chain readable = some bals) {tok : TokenId}
    (hpos : 0 < bals.getD tok 0) : bals.getD tok 0 = chain m.ledger tok := by
  cases hx : bals.get? tok with
  | none =>
    rw [Dict.getD, hx] at hpos
    exact absurd hpos (lt_irrefl _)
  | some x =>
    rw [Dict.getD, hx, Option.getD_some]
    cases readable with
    | false =>
      change tokenBalances _ none = some bals at h
      unfold tokenBalances at h
      split_ifs at h with hnil
      · rw [← Option.some.inj h] at hx
        cases hx
      · cases h
    | true =>
      obtain ⟨v, hmem, rfl⟩ := of_get?_tokenBalances h hx
      have hversion : m.version = .member v := by
        rw [Dict.mem_entries_iff, Dict.get?_set, Dict.get?_set] at hmem
        split_ifs at hmem
        · exact Option.some.inj hmem
        · exact Option.some.inj hmem
        · cases hmem
      unfold Catalog.MarketMeta.ledger
      rw [hversion]

/-- A call asks for something, for no more than the engine saw of either token, and for no more than
the ledger holds. -/
structure Funded (c : MergeConfig) (u : UnicodeDigits) (r : MergeRequest) (raw : ℤ) (route : Route)
    (call : ContractCall) (chain : Balances) : Prop where
  pos : 0 < raw
  seen : (raw : ℚ) / 10 ^ 6 ≤ r.amount
  yes : (raw : ℚ) / 10 ^ 6 ≤ chain r.market.ledger r.market.tokens.1.tokenId
  no : (raw : ℚ) / 10 ^ 6 ≤ chain r.market.ledger r.market.tokens.2.tokenId
  request : Merger.request c u r.market.conditionId raw r.market.negRisk r.market.version
    (some r.market.tokens.1.tokenId) = some (route, call)

theorem funded_of_submission {r : MergeRequest} {bals : Dict TokenId ℚ} {chain : Balances}
    {readable : Bool} (hread : readBalances r.market chain readable = some bals) {raw : ℤ}
    {route : Route} {call : ContractCall}
    (h : submission c u r bals = some (.submitting raw route call)) :
    Funded c u r raw route call chain := by
  obtain ⟨⟨route', call'⟩, hrequest, heq⟩ := Option.map_eq_some_iff.1 h
  obtain ⟨rfl, rfl, rfl⟩ := MergeStage.submitting.inj heq
  obtain ⟨hpos, -⟩ := Merger.amount_of_request hrequest
  have hle := truncate_le_of_pos hpos
  have hmillion : (0 : ℚ) < 10 ^ 6 := by positivity
  rw [← div_le_iff₀ hmillion] at hle
  change (rawAmount r bals : ℚ) / 10 ^ 6 ≤ _ at hle
  have hshares : (0 : ℚ) < (rawAmount r bals : ℚ) / 10 ^ 6 :=
    div_pos (Int.cast_pos.2 hpos) hmillion
  obtain ⟨hpair, hno⟩ := le_min_iff.1 hle
  obtain ⟨hseen, hyes⟩ := le_min_iff.1 hpair
  refine ⟨hpos, hseen, ?_, ?_, hrequest⟩
  · rw [← of_getD_readBalances hread (hshares.trans_le hyes)]
    exact hyes
  · rw [← of_getD_readBalances hread (hshares.trans_le hno)]
    exact hno

variable (c u) in
/-- Every transaction on its way is funded. -/
def Covered (d : MergeDesk) : Prop :=
  ∀ t ∈ d.pool.tasks, ∀ raw route call, t.inside = some (.submitting raw route call) →
    Funded c u t.request raw route call d.chain

/-- No other move takes shares of the two tokens out while a transaction on them is on its way. -/
def KeepsFunds (d : MergeDesk) : MergeEvent → Prop
  | .moved chain =>
    ∀ t ∈ d.pool.tasks, ∀ raw route call, t.inside = some (.submitting raw route call) →
      ∀ tok ∈ [t.request.market.tokens.1.tokenId, t.request.market.tokens.2.tokenId],
        d.chain t.request.market.ledger tok ≤ chain t.request.market.ledger tok
  | _ => True

/-- After the transaction of a task has come to its end, none is on its way. -/
theorem not_submitting_of_settled (h : d.pool.Exclusive) {i : ℕ} (hsubmits : d.Submits i = true)
    {t' : SingleFlight.Task ConditionId MergeRequest MergeStage}
    (ht' : t' ∈ (d.pool.proceed i fun _ _ => settle).tasks) (raw : ℤ) (route : Route)
    (call : ContractCall) : t'.inside ≠ some (.submitting raw route call) := by
  intro hsub
  unfold Submits at hsubmits
  cases ht : d.pool.tasks[i]? with
  | none =>
    rw [ht] at hsubmits
    cases hsubmits
  | some t =>
    rw [ht] at hsubmits
    cases hstage : t.inside with
    | none =>
      simp [hstage] at hsubmits
    | some stage =>
      cases stage with
      | reading => simp [hstage, settle] at hsubmits
      | submitting raw' route' call' =>
        have hfinish : d.pool.proceed i (fun _ _ => settle) = d.pool.finish i t.key := by
          unfold SingleFlight.Pool.proceed
          simp only [ht, hstage, settle]
        have hex := SingleFlight.Pool.exclusive_finish h ht (by rw [hstage]; rfl)
        rw [hfinish] at ht'
        have hlocked : (d.pool.finish i t.key).locked = true :=
          hex.locked_iff.2 ⟨t', ht', by rw [hsub]; rfl⟩
        exact absurd hlocked Bool.false_ne_true

theorem covered_step (hex : d.pool.Exclusive) (h : Covered c u d) {e : MergeEvent}
    (hkeeps : KeepsFunds d e) : Covered c u (d.step c u e) := by
  intro t' ht' raw route call hsub
  cases e with
  | recomputed cid market mergeMinSize yes no paper =>
    unfold step at ht' ⊢
    dsimp only at ht' ⊢
    split_ifs at ht' ⊢
    · exact h t' ht' raw route call hsub
    · rcases SingleFlight.Pool.mem_spawn ht' with ht | hout
      · exact h t' ht raw route call hsub
      · rw [hout] at hsub
        cases hsub
  | acquired i =>
    rcases SingleFlight.Pool.mem_enter ht' with ht | hreading
    · exact h t' ht raw route call hsub
    · rw [hreading] at hsub
      cases hsub
  | answered i readable reachable =>
    rcases SingleFlight.Pool.mem_proceed ht' with ht | ⟨t, stage, stage', ht, hstage, hnext, rfl⟩
    · exact h t' ht raw route call hsub
    · obtain rfl := Option.some.inj hsub
      cases stage with
      | reading =>
        obtain ⟨bals, hread, hsubmit⟩ := Option.bind_eq_some_iff.1 hnext
        split_ifs at hsubmit
        exact funded_of_submission hread hsubmit
      | submitting raw' route' call' =>
        obtain ⟨rfl, rfl, rfl⟩ := MergeStage.submitting.inj (Option.some.inj hnext)
        exact h t (List.mem_of_getElem? ht) _ _ _ hstage
  | settled i chain =>
    unfold step at ht' ⊢
    dsimp only at ht' ⊢
    split_ifs at ht' ⊢ with hsubmits
    · -- the one transaction on its way is the one that ends
      exact absurd hsub (not_submitting_of_settled hex hsubmits ht' raw route call)
    · exact h t' ht' raw route call hsub
  | moved chain =>
    obtain ⟨hpos, hseen, hyes, hno, hrequest⟩ := h t' ht' raw route call hsub
    have hmove := hkeeps t' ht' raw route call hsub
    exact ⟨hpos, hseen, hyes.trans (hmove _ (by simp)), hno.trans (hmove _ (by simp)), hrequest⟩

variable (c u)

/-- **Merges are exclusive.**  After any events a market has at most one merge, at most one merge
holds the lock, the busy markets are those with a merge, and what is left can end, after which no
market is busy. -/
theorem merges_exclusive (chain : Balances) (es : List MergeEvent) :
    let d := Run.run (step c u) (start chain) es
    (d.pool.tasks.map SingleFlight.Task.key).Nodup ∧
      (∀ t ∈ d.pool.tasks, ∀ t' ∈ d.pool.tasks, t.inside.isSome = true → t'.inside.isSome = true →
        t = t') ∧
      (∀ k, k ∈ d.pool.busy ↔ ∃ t ∈ d.pool.tasks, t.key = k) ∧
      ∃ later, (Run.run (step c u) d later).pool.tasks = [] ∧
        (Run.run (step c u) d later).pool.busy = [] := by
  intro d
  have h : d.pool.Exclusive := (exclusive_run chain es).last
  refine ⟨h.keys, fun t ht t' ht' hin hin' => ?_, fun k => ?_, exists_drained h rfl⟩
  · obtain ⟨i, hi⟩ := List.getElem?_of_mem ht
    obtain ⟨j, hj⟩ := List.getElem?_of_mem ht'
    exact h.inside_unique hi hj hin hin'
  · rw [h.busy k, List.mem_map]

end MergeDesk

/-! ### One merge -/

/-- A market with a condition id of 32 bytes. -/
def mergeMarket : Catalog.MarketMeta where
  conditionId := "0x00000000000000000000000000000000000000000000000000000000000000c0"
  question := "q"
  slug := "s"
  tokens := (⟨"1", "Yes"⟩, ⟨"2", "No"⟩)
  tickSize := 1 / 100
  negRisk := false
  minOrderSize := 5
  rewardsMinSize := 0
  rewardsMaxSpread := 0
  rewardsDailyRate := 0
  makerFeeBps := 0
  takerFeeBps := 0
  feesEnabled := false
  endDateIso := none
  eventId := none

/-- Two recomputes of the market find pairs, the one merge they start submits, and shares come
in. -/
def mergeEvents : List MergeEvent :=
  [.recomputed "c" mergeMarket 20 30 40 false, .recomputed "c" mergeMarket 20 30 40 false,
    .acquired 0, .answered 0 true true, .moved fun _ _ => 50]

/-- One transaction, for the 25 pairs that the ledger holds of the 30. -/
example : ((Run.run (MergeDesk.step {} ⟨fun _ => false, fun _ => none⟩)
    (MergeDesk.start fun _ _ => 25) mergeEvents).pool.tasks.map fun t => t.inside.bind fun stage =>
      match stage with
      | .reading => none
      | .submitting raw route _ => some (raw, route)) = [some (25000000, .safe)] := by
  decide +kernel

end Polymaker
