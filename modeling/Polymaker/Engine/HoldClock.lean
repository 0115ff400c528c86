import Polymaker.Engine.Live

/-!
# The hold clock

`_position_since` says since when a token is held; the exit urgency of a recompute is taken from it.

* `ClockRun`: the running engine, and beside it every time at which a token was found flat;
* `ClockMatches`: a traded token has a clock exactly when it is held, and the clock does not start
  before the token was flat for the last time;
* `ClockKept`: the condition on a step, in the state it arrives in, under which that stays so;
* `clock_matches_iff`: a run keeps the clocks right if and only if every step meets the condition.
-/

namespace Polymaker

/-- The running engine, and the times at which tokens were found flat. -/
structure ClockRun where
  live : LiveEngine
  flats : List (TokenId × ℚ)

namespace ClockRun

/-- The token is held. -/
def Holds (k : ClockRun) (tok : TokenId) : Prop := 0 < (k.live.engine.store.position tok).size

instance (k : ClockRun) (tok : TokenId) : Decidable (k.Holds tok) :=
  inferInstanceAs (Decidable (_ < _))

/-- The clocks. -/
def since (k : ClockRun) : Dict TokenId ℚ := k.live.engine.positionSince

/-- The traded tokens that are not held, at a time. -/
def flatAt (m : Markets) (l : LiveEngine) (now : ℚ) : List (TokenId × ℚ) :=
  (m.tokenCid.keys.filter fun tok => decide (¬ 0 < (l.engine.store.position tok).size)).map
    fun tok => (tok, now)

/-- The tokens that a step finds flat: the one that a fill closes or leaves so, at the time of the
fill, and every traded token that is not held after a read of the positions or the balances. -/
def leftFlat (m : Markets) (l : LiveEngine) (e : EngineEvent) : List (TokenId × ℚ) :=
  match e with
  | .trade ev _ =>
    match l.proc.pendingFill ev with
    | some g =>
      if 0 < ((l.engine.store.position g.tokenId).apply g).size then [] else [(g.tokenId, g.ts)]
    | none => []
  | .positions (some _) now | .balances (some _) now => flatAt m (l.step m e) now
  | _ => []

/-- One step. -/
def step (m : Markets) (k : ClockRun) (e : EngineEvent) : ClockRun :=
  ⟨k.live.step m e, k.flats ++ leftFlat m k.live e⟩

end ClockRun

open ClockRun

/-- The clock of a token matches its holding. -/
structure ClockRun.Clocked (k : ClockRun) (tok : TokenId) : Prop where
  running : tok ∈ k.since ↔ k.Holds tok
  not_earlier : ∀ ts, k.since.get? tok = some ts → ∀ t, (tok, t) ∈ k.flats → t ≤ ts

/-- The clocks of the traded tokens match the holdings. -/
def ClockMatches (m : Markets) (k : ClockRun) : Prop := ∀ tok ∈ m.tokenCid, k.Clocked tok

/-- A fill of a traded token that reaches the clock opens no position before the token was flat for
the last time, and one that does not reach it opens and closes none.  A read lists a traded token
whose position it overwrites as held exactly when it is, and so does a correction. -/
def ClockKept (m : Markets) (k : ClockRun) : EngineEvent → Prop
  | .trade ev _ => ∀ g, k.live.proc.pendingFill ev = some g → g.tokenId ∈ m.tokenCid →
      let size := (k.live.engine.store.position g.tokenId).size
      if k.live.Reported ev ∧ ¬ IsReverse g.tradeId then
        size ≤ 0 → 0 < size + g.signed → ∀ t, (g.tokenId, t) ∈ k.flats → t ≤ g.ts
      else (0 < size ↔ 0 < size + g.signed)
  | .positions (some read) now => ∀ tok ∈ m.tokenCid, ¬ k.live.engine.store.guardBlocks tok now →
      (k.Holds tok ↔ ∃ size avg, read.get? tok = some (size, avg) ∧ 0 < size)
  | .balances chain _ => ∀ onchain tok size, k.live.checkRun.answered chain = some onchain →
      onchain.get? tok = some size → tok ∈ m.tokenCid → Diverges k.live.engine.store tok size →
      (k.Holds tok ↔ 0 < size)
  | _ => True

section Step

variable {m : Markets} {k : ClockRun}

/-- Where no clock moves, the clocks go on matching exactly when no traded token is opened or
closed. -/
theorem clockMatches_iff_of_since {k' : ClockRun} (h : ClockMatches m k) {new : List (TokenId × ℚ)}
    (hsince : k'.since = k.since) (hflats : k'.flats = k.flats ++ new)
    (hnew : ∀ e ∈ new, ¬ k'.Holds e.1) :
    ClockMatches m k' ↔ ∀ tok ∈ m.tokenCid, (k.Holds tok ↔ k'.Holds tok) := by
  constructor
  · intro h' tok htok
    rw [← (h tok htok).running, ← (h' tok htok).running, hsince]
  · intro hholds tok htok
    refine ⟨by rw [hsince, (h tok htok).running, hholds tok htok], fun ts hts t ht => ?_⟩
    rw [hsince] at hts
    rw [hflats, List.mem_append] at ht
    rcases ht with ht | ht
    · exact (h tok htok).not_earlier ts hts t ht
    · -- a token that has a clock is held, and none that is held was found flat
      have hheld := (hholds tok htok).1 ((h tok htok).running.1 (Dict.mem_of_get? hts))
      exact absurd hheld (hnew _ ht)

/-- Tokens that are found flat are not held. -/
theorem not_holds_of_mem_flatAt {l : LiveEngine} {flats : List (TokenId × ℚ)} {now : ℚ} :
    ∀ e ∈ flatAt m l now, ¬ (⟨l, flats⟩ : ClockRun).Holds e.1 := by
  intro e he
  obtain ⟨tok, htok, rfl⟩ := List.mem_map.1 he
  exact of_decide_eq_true (List.mem_filter.1 htok).2

/-- Where no position and no clock moves, the clocks go on matching. -/
theorem ClockMatches.of_same (h : ClockMatches m k) {k' : ClockRun}
    (hpos : k'.live.engine.store.positions = k.live.engine.store.positions)
    (hsince : k'.since = k.since) (hflats : k'.flats = k.flats) : ClockMatches m k' := by
  have hflats' : k'.flats = k.flats ++ [] := by rw [hflats, List.append_nil]
  refine (clockMatches_iff_of_since h hsince hflats' fun e he => absurd he List.not_mem_nil).2 ?_
  intro tok _
  unfold Holds
  rw [position_congr hpos]

theorem clockMatches_step_quiet (h : ClockMatches m k) {e : EngineEvent} (hquiet : e.Quiet) :
    ClockMatches m (k.step m e) ∧ ClockKept m k e := by
  have hflat : leftFlat m k.live e = [] ∧ ClockKept m k e := by
    cases e with
    | positions read =>
      cases read with
      | none => exact ⟨rfl, trivial⟩
      | some => exact hquiet.elim
    | trade | balances => exact hquiet.elim
    | _ => exact ⟨rfl, trivial⟩
  obtain ⟨hpos, hsince⟩ := k.live.quiet_frame m hquiet
  refine ⟨h.of_same hpos hsince ?_, hflat.2⟩
  show k.flats ++ leftFlat m k.live e = k.flats
  rw [hflat.1, List.append_nil]

theorem clockMatches_step_positions (h : ClockMatches m k) (read : Dict TokenId (ℚ × ℚ))
    (now : ℚ) : ClockMatches m (k.step m (.positions (some read) now)) ↔
      ClockKept m k (.positions (some read) now) := by
  have hsince : (k.step m (.positions (some read) now)).since = k.since :=
    k.live.reads_positionSince m (some read) now
  rw [clockMatches_iff_of_since h hsince rfl not_holds_of_mem_flatAt]
  refine forall₂_congr fun tok htok => ?_
  show (_ ↔ 0 < ((k.live.step m (.positions (some read) now)).engine.store.position tok).size) ↔ _
  rw [LiveEngine.reads_position, LiveEngine.onlyTraded_get?, if_pos htok]
  by_cases hguard : k.live.engine.store.guardBlocks tok now
  · rw [if_pos hguard]
    exact iff_of_true Iff.rfl fun hno => absurd hguard hno
  · rw [if_neg hguard]
    simp only [hguard, not_false_eq_true, true_implies]
    cases hget : read.get? tok with
    | some sizeAvg =>
      obtain ⟨size, avg⟩ := sizeAvg
      simp [ofRead_size_pos]
    | none =>
      -- a position that the read does not list is closed
      have hflat : ¬ 0 < (if 0 < (k.live.engine.store.position tok).size then Position.flat
          else k.live.engine.store.position tok).size := by
        split_ifs with hheld
        · exact lt_irrefl 0
        · exact hheld
      simp [hflat]

theorem clockMatches_step_balances (h : ClockMatches m k)
    (chain : Option (Option String → TokenId → ℚ)) (now : ℚ) :
    ClockMatches m (k.step m (.balances chain now)) ↔ ClockKept m k (.balances chain now) := by
  have hsince : (k.step m (.balances chain now)).since = k.since := rfl
  have hnew : ∀ e ∈ leftFlat m k.live (.balances chain now),
      ¬ (k.step m (.balances chain now)).Holds e.1 := by
    cases chain with
    | none => exact fun e he => absurd he List.not_mem_nil
    | some chain => exact not_holds_of_mem_flatAt
  rw [clockMatches_iff_of_since h hsince rfl hnew]
  have hpos (tok : TokenId) : (k.step m (.balances chain now)).Holds tok ↔
      0 < ((k.live.step m (.balances chain now)).engine.store.position tok).size := Iff.rfl
  simp only [hpos, LiveEngine.balances_position]
  constructor
  · intro hall onchain tok size hans hget htok hd
    have htok' := hall tok htok
    simpa only [hans, Option.bind_some, hget, if_pos hd, ofRead_size_pos] using htok'
  · intro hkept tok htok
    cases hans : k.live.checkRun.answered chain with
    | none => exact Iff.rfl
    | some onchain =>
      simp only [Option.bind_some]
      cases hget : onchain.get? tok with
      | none => exact Iff.rfl
      | some size =>
        by_cases hd : Diverges k.live.engine.store tok size
        · simp only [if_pos hd, ofRead_size_pos]
          exact hkept onchain tok size hans hget htok hd
        · simp only [if_neg hd]
          exact Iff.rfl

theorem leftFlat_trade (l : LiveEngine) (ev : TradeEvent) (now : ℚ) :
    leftFlat m l (.trade ev now) =
      match l.proc.pendingFill ev with
      | some g =>
        if 0 < ((l.engine.store.position g.tokenId).apply g).size then [] else [(g.tokenId, g.ts)]
      | none => [] := rfl

section Trade

variable {ev : TradeEvent} (now : ℚ) {g : Fill} (hpend : k.live.proc.pendingFill ev = some g)
include hpend

theorem holds_step_trade (tok : TokenId) : (k.step m (.trade ev now)).Holds tok ↔
    if tok = g.tokenId then 0 < (k.live.engine.store.position g.tokenId).size + g.signed
    else k.Holds tok := by
  show 0 < ((k.live.onTrade m ev now).engine.store.position tok).size ↔ _
  rw [LiveEngine.trade_position m now hpend]
  split_ifs with htok
  · rw [apply_size_pos]
  · exact Iff.rfl

theorem flats_step_trade : (k.step m (.trade ev now)).flats = k.flats ++
    if 0 < (k.live.engine.store.position g.tokenId).size + g.signed then []
    else [(g.tokenId, g.ts)] := by
  show k.flats ++ leftFlat m k.live (.trade ev now) = _
  rw [leftFlat_trade, hpend]
  simp only [apply_size_pos]

theorem since_step_trade : (k.step m (.trade ev now)).since =
    if k.live.Reported ev ∧ g.tokenId ∈ m.tokenCid ∧ ¬ IsReverse g.tradeId then
      if 0 < (k.live.engine.store.position g.tokenId).size + g.signed then
        if g.tokenId ∈ k.since then k.since else k.since.set g.tokenId g.ts
      else k.since.erase g.tokenId
    else k.since := by
  refine (LiveEngine.trade_positionSince m now hpend).trans ?_
  simp only [apply_size_pos]
  rfl

/-- The condition on a trade that applies a fill. -/
theorem clockKept_trade : ClockKept m k (.trade ev now) ↔ (g.tokenId ∈ m.tokenCid →
    if k.live.Reported ev ∧ ¬ IsReverse g.tradeId then
      (k.live.engine.store.position g.tokenId).size ≤ 0 →
        0 < (k.live.engine.store.position g.tokenId).size + g.signed →
          ∀ t, (g.tokenId, t) ∈ k.flats → t ≤ g.ts
    else (k.Holds g.tokenId ↔
      0 < (k.live.engine.store.position g.tokenId).size + g.signed)) := by
  unfold ClockKept
  simp only [hpend, Option.some.injEq, forall_eq']
  exact Iff.rfl

/-- A fill that the clock does not see. -/
theorem clockMatches_step_unseen (h : ClockMatches m k)
    (hno : ¬ (k.live.Reported ev ∧ g.tokenId ∈ m.tokenCid ∧ ¬ IsReverse g.tradeId)) :
    ClockMatches m (k.step m (.trade ev now)) ↔ ClockKept m k (.trade ev now) := by
  have hsince := since_step_trade (m := m) now hpend
  rw [if_neg hno] at hsince
  have hnew : ∀ e ∈ (if 0 < (k.live.engine.store.position g.tokenId).size + g.signed then []
      else [(g.tokenId, g.ts)]), ¬ (k.step m (.trade ev now)).Holds e.1 := by
    intro e he
    split_ifs at he with hpos
    · exact absurd he List.not_mem_nil
    · rw [List.mem_singleton.1 he, holds_step_trade now hpend, if_pos rfl]
      exact hpos
  rw [clockMatches_iff_of_since h hsince (flats_step_trade now hpend) hnew,
    clockKept_trade now hpend]
  simp only [holds_step_trade now hpend]
  constructor
  · intro hall htok
    have hunseen : ¬ (k.live.Reported ev ∧ ¬ IsReverse g.tradeId) := fun hseen =>
      hno ⟨hseen.1, htok, hseen.2⟩
    rw [if_neg hunseen]
    simpa using hall g.tokenId htok
  · intro hkept tok htok
    split_ifs with heq
    · subst heq
      have hunseen : ¬ (k.live.Reported ev ∧ ¬ IsReverse g.tradeId) := fun hseen =>
        hno ⟨hseen.1, htok, hseen.2⟩
      simpa only [if_neg hunseen] using hkept htok
    · exact Iff.rfl

/-- The clock of the token, after a fill that it sees. -/
theorem clocked_step_seen (h : k.Clocked g.tokenId)
    (hseen : k.live.Reported ev ∧ g.tokenId ∈ m.tokenCid ∧ ¬ IsReverse g.tradeId) :
    (k.step m (.trade ev now)).Clocked g.tokenId ↔
      ((k.live.engine.store.position g.tokenId).size ≤ 0 →
        0 < (k.live.engine.store.position g.tokenId).size + g.signed →
          ∀ t, (g.tokenId, t) ∈ k.flats → t ≤ g.ts) := by
  have hsince := since_step_trade (m := m) now hpend
  have hflats := flats_step_trade (m := m) now hpend
  have hholds := holds_step_trade (m := m) now hpend g.tokenId
  rw [if_pos hseen] at hsince
  rw [if_pos rfl] at hholds
  by_cases hafter : 0 < (k.live.engine.store.position g.tokenId).size + g.signed
  · rw [if_pos hafter] at hsince
    rw [if_pos hafter, List.append_nil] at hflats
    by_cases hmem : g.tokenId ∈ k.since
    · -- the position stays open, and the clock goes on
      have hheld : ¬ (k.live.engine.store.position g.tokenId).size ≤ 0 :=
        not_le.2 (h.running.1 hmem)
      rw [if_pos hmem] at hsince
      refine iff_of_true ⟨?_, ?_⟩ fun hflat => absurd hflat hheld
      · rw [hsince, hholds]
        exact iff_of_true hmem hafter
      · rw [hsince, hflats]
        exact h.not_earlier
    · -- the position opens, and the clock starts
      have hflat : (k.live.engine.store.position g.tokenId).size ≤ 0 :=
        not_lt.1 fun hheld => hmem (h.running.2 hheld)
      rw [if_neg hmem] at hsince
      constructor
      · intro h' _ _ t ht
        refine h'.not_earlier g.ts ?_ t (by rwa [hflats])
        rw [hsince, Dict.get?_set, if_pos rfl]
      · intro hkept
        refine ⟨?_, fun ts hts t ht => ?_⟩
        · rw [hsince, hholds]
          exact iff_of_true (Dict.mem_set.2 (.inl rfl)) hafter
        · rw [hsince, Dict.get?_set, if_pos rfl] at hts
          rw [hflats] at ht
          rw [← Option.some.inj hts]
          exact hkept hflat hafter t ht
  · -- the position is flat, and the clock stops
    rw [if_neg hafter] at hsince
    refine iff_of_true ⟨?_, fun ts hts => ?_⟩ fun _ hafter' => absurd hafter' hafter
    · rw [hsince, hholds]
      exact iff_of_false (fun hmem => (Dict.mem_erase.1 hmem).1 rfl) hafter
    · rw [hsince, Dict.get?_erase, if_pos rfl] at hts
      cases hts

/-- The clocks of the other tokens. -/
theorem clocked_step_other {tok : TokenId} (hne : tok ≠ g.tokenId) :
    (k.step m (.trade ev now)).Clocked tok ↔ k.Clocked tok := by
  have hget : (k.step m (.trade ev now)).since.get? tok = k.since.get? tok := by
    rw [since_step_trade now hpend]
    split_ifs
    · rfl
    · rw [Dict.get?_set, if_neg hne]
    · rw [Dict.get?_erase, if_neg hne]
    · rfl
  have hflats (t : ℚ) : (tok, t) ∈ (k.step m (.trade ev now)).flats ↔ (tok, t) ∈ k.flats := by
    rw [flats_step_trade now hpend, List.mem_append]
    refine or_iff_left fun hmem => ?_
    split_ifs at hmem
    · exact absurd hmem List.not_mem_nil
    · exact hne (Prod.ext_iff.1 (List.mem_singleton.1 hmem)).1
  have hholds := holds_step_trade (m := m) now hpend tok
  rw [if_neg hne] at hholds
  constructor
  · rintro ⟨hrun, htime⟩
    refine ⟨?_, fun ts hts t ht => htime ts (hget ▸ hts) t ((hflats t).2 ht)⟩
    rw [← hholds, ← hrun, Dict.mem_iff_isSome, Dict.mem_iff_isSome, hget]
  · rintro ⟨hrun, htime⟩
    refine ⟨?_, fun ts hts t ht => htime ts (hget ▸ hts) t ((hflats t).1 ht)⟩
    rw [hholds, ← hrun, Dict.mem_iff_isSome, Dict.mem_iff_isSome, hget]

/-- A fill that the clock sees. -/
theorem clockMatches_step_seen (h : ClockMatches m k)
    (hseen : k.live.Reported ev ∧ g.tokenId ∈ m.tokenCid ∧ ¬ IsReverse g.tradeId) :
    ClockMatches m (k.step m (.trade ev now)) ↔ ClockKept m k (.trade ev now) := by
  have hstep := clocked_step_seen now hpend (h g.tokenId hseen.2.1) hseen
  rw [clockKept_trade now hpend, if_pos ⟨hseen.1, hseen.2.2⟩, ← hstep]
  constructor
  · exact fun hall htok => hall g.tokenId htok
  · intro hkept tok htok
    by_cases hne : tok = g.tokenId
    · rw [hne]
      exact hkept hseen.2.1
    · exact (clocked_step_other now hpend hne).2 (h tok htok)

end Trade

/-- **One step** keeps the clocks right if it meets the condition, and only then. -/
theorem clockMatches_step_iff (h : ClockMatches m k) (e : EngineEvent) :
    ClockMatches m (k.step m e) ↔ ClockKept m k e := by
  rcases e.quiet_or with hquiet | ⟨ev, now, rfl⟩ | ⟨read, now, rfl⟩ | ⟨chain, now, rfl⟩
  · obtain ⟨hmatch, hkept⟩ := clockMatches_step_quiet h hquiet
    exact iff_of_true hmatch hkept
  · cases hpend : k.live.proc.pendingFill ev with
    | none =>
      obtain ⟨hpos, -, hsince⟩ := LiveEngine.trade_of_none m now hpend
      refine iff_of_true (h.of_same hpos hsince ?_) fun g hg => by rw [hpend] at hg; cases hg
      show k.flats ++ leftFlat m k.live (.trade ev now) = k.flats
      rw [leftFlat_trade, hpend, List.append_nil]
    | some g =>
      by_cases hseen : k.live.Reported ev ∧ g.tokenId ∈ m.tokenCid ∧ ¬ IsReverse g.tradeId
      · exact clockMatches_step_seen now hpend h hseen
      · exact clockMatches_step_unseen now hpend h hseen
  · exact clockMatches_step_positions h read now
  · exact clockMatches_step_balances h chain now

end Step

/-! ### The start -/

/-- Seeding starts the clocks of the held tokens. -/
theorem mem_seedPositionClocks (e : Engine) (ts : ℚ) (tok : TokenId) :
    tok ∈ (e.seedPositionClocks ts).positionSince ↔
      tok ∈ e.positionSince ∨ 0 < (e.store.position tok).size := by
  have hloop : ∀ (l : List (TokenId × Position)) (since : Dict TokenId ℚ),
      tok ∈ l.foldl (fun since (e : TokenId × Position) =>
        if 0 < e.2.size ∧ e.1 ∉ since then since.set e.1 ts else since) since ↔
      tok ∈ since ∨ ∃ pos, (tok, pos) ∈ l ∧ 0 < pos.size := by
    intro l
    induction l with
    | nil => simp
    | cons e l ih =>
      intro since
      rw [List.foldl_cons, ih]
      obtain ⟨k, pos⟩ := e
      have hset : tok ∈ (if 0 < pos.size ∧ k ∉ since then since.set k ts else since) ↔
          tok ∈ since ∨ tok = k ∧ 0 < pos.size := by
        split_ifs with hnew
        · rw [Dict.mem_set]
          tauto
        · refine ⟨.inl, ?_⟩
          rintro (h | ⟨rfl, h⟩)
          · exact h
          · exact not_not.1 fun hno => hnew ⟨h, hno⟩
      rw [hset]
      simp only [List.mem_cons, Prod.mk.injEq, or_and_right, exists_or, or_assoc]
      refine or_congr Iff.rfl (or_congr ?_ Iff.rfl)
      constructor
      · rintro ⟨h, hpos⟩
        exact ⟨pos, ⟨h, rfl⟩, hpos⟩
      · rintro ⟨_, ⟨h, rfl⟩, hpos⟩
        exact ⟨h, hpos⟩
  refine (hloop e.store.positions.entries e.positionSince).trans (or_congr Iff.rfl ?_)
  constructor
  · rintro ⟨pos, hmem, hpos⟩
    rwa [position_of_get? (Dict.mem_entries_iff.1 hmem)]
  · intro hpos
    exact ⟨_, Dict.mem_entries_iff.2 (get?_of_held hpos), hpos⟩

/-- The engine as it has started, with its clocks seeded; what is not held then is flat. -/
def ClockRun.start (m : Markets) (execution : ExecutionConfig) (markets : Dict ConditionId Market)
    (cfg : RiskConfig) (db : Db) (read : Dict TokenId (ℚ × ℚ)) (now : ℚ) : ClockRun :=
  let l := LiveEngine.startUp m execution markets cfg db (some read) now
  ⟨l, flatAt m l now⟩

theorem clockMatches_start (m : Markets) (execution : ExecutionConfig)
    (markets : Dict ConditionId Market) (cfg : RiskConfig) (db : Db)
    (read : Dict TokenId (ℚ × ℚ)) (now : ℚ) :
    ClockMatches m (.start m execution markets cfg db read now) := by
  intro tok _
  have hrunning : tok ∈ (ClockRun.start m execution markets cfg db read now).since ↔
      (ClockRun.start m execution markets cfg db read now).Holds tok :=
    (mem_seedPositionClocks _ now tok).trans (or_iff_right (Dict.not_mem_empty tok))
  refine ⟨hrunning, fun ts hts t ht => ?_⟩
  exact absurd (hrunning.1 (Dict.mem_of_get? hts)) (not_holds_of_mem_flatAt _ ht)

/-- **When the hold clock matches the holding.**  Along every run of the engine that starts with
seeded clocks, a traded token has a clock exactly when it is held, and none starts before the token
was flat for the last time, if and only if every step meets the condition. -/
theorem clock_matches_iff (m : Markets) (execution : ExecutionConfig)
    (markets : Dict ConditionId Market) (cfg : RiskConfig) (db : Db)
    (read : Dict TokenId (ℚ × ℚ)) (now : ℚ) (es : List EngineEvent) :
    Run.Always (ClockRun.step m) (ClockMatches m) (.start m execution markets cfg db read now) es ↔
      Run.EachStep (ClockRun.step m) (ClockKept m) (.start m execution markets cfg db read now)
        es :=
  Run.always_iff_eachStep (I := fun _ => True) (P := ClockMatches m) (fun _ _ _ => trivial)
    (fun _ e _ h => clockMatches_step_iff h e) trivial
    (clockMatches_start m execution markets cfg db read now)

/-- A position that a read has closed is bought again eight hundred seconds later: it is held since
the first purchase, as far as the clock can tell, though it was flat in between. -/
theorem not_clockMatches_of_closed_elsewhere :
    let m : Markets := ⟨(Dict.empty.set "y" "c").set "n" "c", Dict.empty⟩
    let es : List EngineEvent :=
      [.trade ⟨"y", .buy, 1 / 2, 100, "t", .matched, 100⟩ 100,
        .trade ⟨"y", .buy, 1 / 2, 100, "t", .confirmed, 101⟩ 101,
        .positions (some Dict.empty) 200,
        .trade ⟨"y", .buy, 1 / 2, 100, "u", .matched, 1000⟩ 1000]
    let start := ClockRun.start m {} Dict.empty {} .fresh Dict.empty 0
    let k := Run.run (ClockRun.step m) start es
    k.flats = [("y", 0), ("n", 0), ("y", 200), ("n", 200)] ∧ k.since.get? "y" = some 100 ∧
      k.live.engine.heldS "y" 1000 = 900 ∧
        ¬ Run.Always (ClockRun.step m) (ClockMatches m) start es := by
  intro m es start k
  have hflats : k.flats = [("y", 0), ("n", 0), ("y", 200), ("n", 200)] := by decide +kernel
  have hsince : k.since.get? "y" = some 100 := by decide +kernel
  refine ⟨hflats, hsince, by decide +kernel, fun hall => ?_⟩
  have hlast : ClockMatches m k := hall.last
  have hle := (hlast "y" (by decide +kernel)).not_earlier 100 hsince 200
    (by rw [hflats]; simp)
  norm_num at hle

end Polymaker
