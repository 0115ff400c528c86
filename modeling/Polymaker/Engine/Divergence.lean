import Mathlib.Algebra.Order.Group.Abs
import Polymaker.Catalog.Store
import Polymaker.Lib.Run
import Polymaker.State.Positions

/-!
# The divergence check

`Engine._check_position_divergence` chooses the tokens with no trade in flight, awaits their
balances on chain, and overwrites the positions that are off.  While it waits, the user stream goes
on delivering trades.

* `CheckRun`, `CheckStep`: the check and the trades that are delivered around it, in any order;
* `Overwrite`: a position the check overwrote, with the number of its trades in flight then;
* `OnlyIdle`: no position was overwritten while a trade of its token was in flight;
* `onlyIdle_iff`: a run keeps to that if and only if no balance that arrives is off for a token that
  has a trade in flight by then;
* `onlyIdle_of_quiet`: it does where no match of a chosen token is delivered during the wait.
-/

namespace Polymaker

/-! ### The check -/

/-- What the engine knows of its tokens: the market of each, and the markets. -/
structure Markets where
  tokenCid : Dict TokenId ConditionId
  metas : Dict ConditionId Catalog.MarketMeta

/-- The market of a token; an empty id counts as none. -/
def Markets.marketOf (m : Markets) (tok : TokenId) : Option ConditionId :=
  (m.tokenCid.get? tok).filter fun cid => decide (cid ≠ "")

/-- `_token_versions`: the version of the market of each token, where the market is known. -/
def Markets.tokenVersions (m : Markets) (tokens : List TokenId) :
    Dict TokenId Catalog.VersionValue :=
  tokens.foldl (fun out tok =>
    match (m.marketOf tok).bind m.metas.get? with
    | some mkt => out.set tok mkt.version
    | none => out) Dict.empty

/-- `token_balances`, where `chain` is what each ledger answers for a token, or `none` when a call
fails. -/
def tokenBalances (wanted : Dict TokenId Catalog.VersionValue)
    (chain : Option (Option String → TokenId → ℚ)) : Option (Dict TokenId ℚ) :=
  if wanted.entries = [] then some Dict.empty
  else chain.map fun balanceOf =>
    (Catalog.ledgerReads wanted.entries).foldl
      (fun out read => out.set read.2 (balanceOf read.1 read.2)) Dict.empty

/-- The position is off by more than a share and more than two percent. -/
def Diverges (s : StateStore) (tok : TokenId) (chainSize : ℚ) : Prop :=
  max 1 (2 / 100 * chainSize) < |(s.position tok).size - chainSize|

instance (s : StateStore) (tok : TokenId) (chainSize : ℚ) : Decidable (Diverges s tok chainSize) :=
  inferInstanceAs (Decidable (_ < _))

/-- A position that was overwritten: what it held, what it holds now, how many trades of the token
were in flight, and the market that was woken. -/
structure Overwrite where
  tokenId : TokenId
  internal : ℚ
  onchain : ℚ
  inflight : ℕ
  woken : Option ConditionId
  deriving DecidableEq

/-- The overwrite of a token at the balance `chainSize`. -/
def Markets.overwrite (m : Markets) (s : StateStore) (tok : TokenId) (chainSize : ℚ) : Overwrite :=
  ⟨tok, (s.position tok).size, chainSize, s.inflight tok, m.marketOf tok⟩

/-- The loop over the balances. -/
def Markets.correctPositions (m : Markets) (s : StateStore) :
    List (TokenId × ℚ) → StateStore × List Overwrite
  | [] => (s, [])
  | (tok, chainSize) :: rest =>
    if Diverges s tok chainSize then
      let out := m.correctPositions
        (s.forceSetPosition tok chainSize (s.position tok).avgPrice) rest
      (out.1, m.overwrite s tok chainSize :: out.2)
    else m.correctPositions s rest

/-- The user stream and the check: the versions of the tokens whose balances it waits for, and what
it has overwritten. -/
structure CheckRun where
  proc : UserEventProcessor
  waiting : Option (Dict TokenId Catalog.VersionValue)
  overwrites : List Overwrite

def CheckRun.start (p : UserEventProcessor) : CheckRun := ⟨p, none, []⟩

/-- A step of the check, or a trade that the user stream delivers. -/
inductive CheckStep
  /-- The check starts: it runs up to the await. -/
  | check
  /-- A trade event at local time `now`. -/
  | trade (ev : TradeEvent) (now : ℚ)
  /-- The balances arrive: the check runs to its end. -/
  | answer (chain : Option (Option String → TokenId → ℚ))

/-- The tokens the check chooses. -/
def Markets.idleTokens (m : Markets) (s : StateStore) : List TokenId :=
  m.tokenCid.keys.filter fun tok => decide (s.inflight tok = 0)

/-- The balances that the check gets when `chain` answers, where it waits for any and none fails. -/
def CheckRun.answered (s : CheckRun) (chain : Option (Option String → TokenId → ℚ)) :
    Option (Dict TokenId ℚ) :=
  s.waiting.bind fun wanted => tokenBalances wanted chain

/-- One step.  One task runs the checks, so none starts while another waits. -/
def Markets.step (m : Markets) (s : CheckRun) : CheckStep → CheckRun
  | .check =>
    match s.waiting with
    | some _ => s
    | none =>
      let versions := m.tokenVersions (m.idleTokens s.proc.store)
      if versions.entries = [] then s else { s with waiting := some versions }
  | .trade ev now => { s with proc := (s.proc.onTrade ev now).1 }
  | .answer chain =>
    match s.answered chain with
    | none => { s with waiting := none }
    | some onchain =>
      let out := m.correctPositions s.proc.store onchain.entries
      ⟨{ s.proc with store := out.1 }, none, s.overwrites ++ out.2⟩

/-- No position was overwritten while a trade of its token was in flight. -/
def OnlyIdle (s : CheckRun) : Prop := ∀ o ∈ s.overwrites, o.inflight = 0

/-! ### What the loop overwrites -/

section Loop

variable {m : Markets} {s : StateStore}

/-- Overwriting one position leaves the others as far off as they were. -/
theorem diverges_forceSetPosition {tok tok' : TokenId} (h : tok' ≠ tok) (size avg chainSize : ℚ) :
    Diverges (s.forceSetPosition tok size avg) tok' chainSize ↔ Diverges s tok' chainSize := by
  unfold Diverges StateStore.forceSetPosition
  rw [setPosition_position, if_neg h]

theorem overwrite_forceSetPosition {tok tok' : TokenId} (h : tok' ≠ tok) (size avg chainSize : ℚ) :
    m.overwrite (s.forceSetPosition tok size avg) tok' chainSize =
      m.overwrite s tok' chainSize := by
  unfold Markets.overwrite StateStore.forceSetPosition
  rw [setPosition_position, if_neg h, setPosition_inflight]

/-- The loop overwrites the positions that are off when the balances arrive. -/
theorem mem_correctPositions {l : List (TokenId × ℚ)} (hnd : (l.map Prod.fst).Nodup)
    {o : Overwrite} :
    o ∈ (m.correctPositions s l).2 ↔
      ∃ tok size, (tok, size) ∈ l ∧ Diverges s tok size ∧ o = m.overwrite s tok size := by
  induction l generalizing s with
  | nil => simp [Markets.correctPositions]
  | cons e l ih =>
    obtain ⟨tok, size⟩ := e
    rw [List.map_cons, List.nodup_cons] at hnd
    obtain ⟨hfresh, hnd⟩ := hnd
    have hne : ∀ {tok' size'}, (tok', size') ∈ l → tok' ≠ tok := by
      rintro tok' size' hmem rfl
      exact hfresh (List.mem_map.2 ⟨_, hmem, rfl⟩)
    by_cases hd : Diverges s tok size
    · rw [Markets.correctPositions, if_pos hd, List.mem_cons, ih hnd]
      constructor
      · rintro (rfl | ⟨tok', size', hmem, hd', rfl⟩)
        · exact ⟨tok, size, List.mem_cons_self, hd, rfl⟩
        · exact ⟨tok', size', List.mem_cons_of_mem _ hmem,
            (diverges_forceSetPosition (hne hmem) _ _ _).1 hd',
            overwrite_forceSetPosition (hne hmem) _ _ _⟩
      · rintro ⟨tok', size', hmem, hd', rfl⟩
        rcases List.mem_cons.1 hmem with heq | hmem
        · obtain ⟨rfl, rfl⟩ := Prod.ext_iff.1 heq
          exact .inl rfl
        · exact .inr ⟨tok', size', hmem, (diverges_forceSetPosition (hne hmem) _ _ _).2 hd',
            (overwrite_forceSetPosition (hne hmem) _ _ _).symm⟩
    · rw [Markets.correctPositions, if_neg hd, ih hnd]
      constructor
      · rintro ⟨tok', size', hmem, hd', rfl⟩
        exact ⟨tok', size', List.mem_cons_of_mem _ hmem, hd', rfl⟩
      · rintro ⟨tok', size', hmem, hd', rfl⟩
        rcases List.mem_cons.1 hmem with heq | hmem
        · obtain ⟨rfl, rfl⟩ := Prod.ext_iff.1 heq
          exact absurd hd' hd
        · exact ⟨tok', size', hmem, hd', rfl⟩

end Loop

/-! ### Runs -/

/-- The balances that arrive are off for no token that has a trade in flight by then. -/
def AnsweredInTime (s : CheckRun) : CheckStep → Prop
  | .check | .trade _ _ => True
  | .answer chain =>
    ∀ onchain tok size, s.answered chain = some onchain → onchain.get? tok = some size →
      0 < s.proc.store.inflight tok → ¬ Diverges s.proc.store tok size

/-- A step overwrites idle positions only if it meets the condition, and only then. -/
theorem onlyIdle_step_iff (m : Markets) {s : CheckRun} (h : OnlyIdle s) (e : CheckStep) :
    OnlyIdle (m.step s e) ↔ AnsweredInTime s e := by
  cases e with
  | check =>
    refine iff_of_true ?_ trivial
    unfold Markets.step
    dsimp only
    split
    · exact h
    · split_ifs <;> exact h
  | trade ev now => exact iff_of_true h trivial
  | answer chain =>
    unfold Markets.step AnsweredInTime
    cases hans : s.answered chain with
    | none =>
      simp only [hans]
      exact iff_of_true h fun _ _ _ hno => by cases hno
    | some onchain =>
      simp only [hans]
      unfold OnlyIdle
      constructor
      · intro hall onchain' tok size heq hget hfly hd
        obtain rfl := Option.some.inj heq
        have hmem := (mem_correctPositions (m := m) (s := s.proc.store) onchain.nodup).2
          ⟨tok, size, Dict.mem_entries_iff.2 hget, hd, rfl⟩
        have h0 : s.proc.store.inflight tok = 0 := hall _ (List.mem_append_right _ hmem)
        omega
      · intro hcond o ho
        rcases List.mem_append.1 ho with ho | ho
        · exact h o ho
        · obtain ⟨tok, size, hmem, hd, rfl⟩ := (mem_correctPositions onchain.nodup).1 ho
          by_contra hfly
          have hget := Dict.mem_entries_iff.1 hmem
          exact hcond onchain tok size rfl hget (Nat.pos_of_ne_zero hfly) hd

/-- **When the check overwrites idle positions only.**  Along a run of checks and trades, from any
state of the user stream, no position is overwritten while a trade of its token is in flight if and
only if no balance that arrives is off for a token that has a trade in flight by then. -/
theorem onlyIdle_iff (m : Markets) (p : UserEventProcessor) (es : List CheckStep) :
    Run.Always m.step OnlyIdle (.start p) es ↔ Run.EachStep m.step AnsweredInTime (.start p) es :=
  Run.always_iff_eachStep (I := fun _ => True) (fun _ _ _ => trivial)
    (fun _ e _ h => onlyIdle_step_iff m h e) trivial fun _ ho => absurd ho List.not_mem_nil

/-- A purchase is matched while the check waits, and the chain answers what it held before: 100
shares in flight are overwritten by none. -/
theorem not_onlyIdle_of_matched_in_between :
    let mkt : Catalog.MarketMeta :=
      { conditionId := "c", question := "", slug := "", tokens := (⟨"y", "Yes"⟩, ⟨"n", "No"⟩),
        tickSize := 1 / 100, negRisk := false, minOrderSize := 5, rewardsMinSize := 0,
        rewardsMaxSpread := 0, rewardsDailyRate := 0, makerFeeBps := 0, takerFeeBps := 0,
        feesEnabled := false, endDateIso := none, eventId := none }
    let m : Markets :=
      ⟨(Dict.empty.set "y" "c").set "n" "c", Dict.empty.set "c" mkt⟩
    let es : List CheckStep :=
      [.check, .trade ⟨"y", .buy, 1 / 2, 100, "t", .matched, 0⟩ 0, .answer (some fun _ _ => 0)]
    let s := Run.run m.step (.start (.start .fresh)) es
    s.overwrites = [⟨"y", 100, 0, 1, some "c"⟩] ∧ s.proc.store.inflight "y" = 1 ∧
      s.proc.store.position "y" = .flat ∧
      ¬ Run.Always m.step OnlyIdle (.start (.start .fresh)) es := by
  intro mkt m es s
  have hover : s.overwrites = [⟨"y", 100, 0, 1, some "c"⟩] := by decide +kernel
  refine ⟨hover, by decide +kernel, by decide +kernel, fun hall => ?_⟩
  have hlast : OnlyIdle s := hall.last
  have h0 := hlast ⟨"y", 100, 0, 1, some "c"⟩ (by rw [hover]; exact List.mem_cons_self)
  exact absurd h0 (by decide)

/-! ### Quiet waits -/

/-- Only a match of a token raises the number of its trades in flight. -/
theorem onTrade_inflight_le (p : UserEventProcessor) {ev : TradeEvent} (now : ℚ) {tok : TokenId}
    (h : ev.status = .matched → ev.tokenId ≠ tok) :
    (p.onTrade ev now).1.store.inflight tok ≤ p.store.inflight tok := by
  have hclear : ∀ st : StateStore,
      (st.clearInflight ev.tokenId).inflight tok ≤ st.inflight tok := by
    intro st
    rw [clearInflight_inflight]
    split_ifs with htok
    · rw [htok]; exact Nat.sub_le _ _
    · exact le_rfl
  have hcase := onTrade_cases p ev now
  generalize p.onTrade ev now = out at hcase ⊢
  cases hcase with
  | idle => exact le_rfl
  | applied hst =>
    show ((p.store.recordFill ev.fill).markInflight ev.tokenId now).inflight tok ≤ _
    rw [markInflight_inflight, if_neg (h hst).symm, recordFill_inflight]
  | confirmed =>
    show (StateStore.markFillSettled _ _).inflight tok ≤ _
    rw [markFillSettled_inflight]
    split_ifs
    · exact hclear p.store
    · exact le_rfl
  | undone prior => exact hclear (p.store.recordFill prior.reversed)
  | blocked => exact le_rfl
  | undoneRow r => exact hclear (p.store.recordFill (r.fill ev.tradeId).reversed)
  | released => exact hclear p.store

theorem mem_tokenVersions {m : Markets} {tokens : List TokenId} {tok : TokenId}
    (h : tok ∈ m.tokenVersions tokens) : tok ∈ tokens := by
  revert h
  refine List.foldlRecOn (motive := fun out : Dict TokenId Catalog.VersionValue =>
    tok ∈ out → tok ∈ tokens) tokens _ (fun h => absurd h (Dict.not_mem_empty tok)) ?_
  intro out ih tok' hmem h
  split at h
  · rcases Dict.mem_set.1 h with rfl | h
    · exact hmem
    · exact ih h
  · exact ih h

/-- Balances are read of the tokens that were asked for. -/
theorem mem_of_tokenBalances {wanted : Dict TokenId Catalog.VersionValue}
    {chain : Option (Option String → TokenId → ℚ)} {onchain : Dict TokenId ℚ}
    (h : tokenBalances wanted chain = some onchain) {tok : TokenId} (htok : tok ∈ onchain) :
    tok ∈ wanted := by
  unfold tokenBalances at h
  split_ifs at h
  · rw [← Option.some.inj h] at htok
    exact absurd htok (Dict.not_mem_empty tok)
  · obtain ⟨balanceOf, -, rfl⟩ := Option.map_eq_some_iff.1 h
    revert htok
    refine List.foldlRecOn (motive := fun out : Dict TokenId ℚ => tok ∈ out → tok ∈ wanted) _ _
      (fun htok => absurd htok (Dict.not_mem_empty tok)) ?_
    intro out ih read hread htok
    rcases Dict.mem_set.1 htok with rfl | htok
    · obtain ⟨v, -, hv⟩ := List.mem_flatMap.1 hread
      obtain ⟨e, he, rfl⟩ := List.mem_map.1 hv
      exact Dict.mem_def.2 (List.mem_map.2 ⟨e, (List.mem_filter.1 he).1, rfl⟩)
    · exact ih htok

/-- The check waits for tokens with no trade in flight. -/
def WaitsForIdle (s : CheckRun) : Prop :=
  ∀ wanted, s.waiting = some wanted → ∀ tok ∈ wanted, s.proc.store.inflight tok = 0

/-- No match of a token is delivered while the check waits for its balance. -/
def QuietWait (s : CheckRun) : CheckStep → Prop
  | .check | .answer _ => True
  | .trade ev _ => ev.status = .matched → ∀ wanted, s.waiting = some wanted → ev.tokenId ∉ wanted

theorem waitsForIdle_step (m : Markets) {s : CheckRun} (h : WaitsForIdle s) {e : CheckStep}
    (he : QuietWait s e) : WaitsForIdle (m.step s e) := by
  cases e with
  | check =>
    cases hw : s.waiting with
    | some wanted =>
      have hsame : m.step s .check = s := by unfold Markets.step; simp only [hw]
      rwa [hsame]
    | none =>
      intro wanted hwanted tok htok
      unfold Markets.step at hwanted ⊢
      simp only [hw] at hwanted ⊢
      split_ifs at hwanted ⊢ with hempty
      · rw [hw] at hwanted; cases hwanted
      · obtain rfl := Option.some.inj hwanted
        have hidle := mem_tokenVersions htok
        exact of_decide_eq_true (List.mem_filter.1 hidle).2
  | trade ev now =>
    intro wanted hwanted tok htok
    have hle : (s.proc.onTrade ev now).1.store.inflight tok ≤ s.proc.store.inflight tok :=
      onTrade_inflight_le s.proc now fun hst heq => he hst wanted hwanted (heq ▸ htok)
    have h0 := h wanted hwanted tok htok
    exact Nat.le_zero.1 (h0 ▸ hle)
  | answer chain =>
    intro wanted hwanted
    unfold Markets.step at hwanted
    dsimp only at hwanted
    split at hwanted <;> cases hwanted

/-- A check that waits for idle tokens overwrites idle tokens. -/
theorem answeredInTime_of_waitsForIdle {s : CheckRun} (h : WaitsForIdle s) (e : CheckStep) :
    AnsweredInTime s e := by
  cases e with
  | check => trivial
  | trade => trivial
  | answer chain =>
    intro onchain tok size hans hget hfly
    obtain ⟨wanted, hw, hb⟩ := Option.bind_eq_some_iff.1 hans
    have h0 := h wanted hw tok (mem_of_tokenBalances hb (Dict.mem_of_get? hget))
    omega

/-- Where every wait is quiet, the check overwrites idle positions only. -/
theorem onlyIdle_of_quiet (m : Markets) (p : UserEventProcessor) {es : List CheckStep}
    (h : Run.EachStep m.step QuietWait (.start p) es) :
    Run.Always m.step OnlyIdle (.start p) es := by
  have hiff := Run.always_iff_eachStep_of_valid (I := WaitsForIdle) (P := OnlyIdle)
    (C := fun _ _ => True) (fun _ _ hI hV => waitsForIdle_step m hI hV)
    (fun _ e hI _ hP => iff_of_true
      ((onlyIdle_step_iff m hP e).2 (answeredInTime_of_waitsForIdle hI e)) trivial)
    (fun _ hno => by cases hno) (fun _ ho => absurd ho List.not_mem_nil) h
  exact hiff.2 fun _ _ _ _ => trivial

end Polymaker
