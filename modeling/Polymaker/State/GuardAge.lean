import Polymaker.Lib.Run
import Polymaker.State.Positions

/-!
# The age of an in-flight guard

A token's guard has one timestamp, that of the mark it was raised by, for all the trades it counts.
Beside it we keep what it stands for: the marks of the token that are not settled, a clear settling
the oldest of them.

* `GuardCall`, `Watched`: the calls that move guards, and the store with the unsettled marks;
* `YoungKept`: no call of `expire_inflight` reports or releases a guard of which every unsettled
  mark is young;
* `youngKept_iff`: that is, some unsettled mark is as old as the timestamp;
* `LeavesOld`: the condition on a call under which that stays so;
* `youngKept_run_iff`: it does all along a run if and only if every call meets the condition.
-/

namespace Polymaker

/-- A call that moves the guard of a token. -/
inductive GuardCall
  | mark (tok : TokenId) (now : ℚ)
  | clear (tok : TokenId)
  | expire (maxAgeS now : ℚ)

/-- The store, and the times of the unsettled marks of each token, oldest mark first. -/
structure Watched where
  store : StateStore
  unsettled : TokenId → List ℚ

namespace Watched

/-- A store that was just opened. -/
def start (db : Db) : Watched := ⟨.open db, fun _ => []⟩

/-- One call; a clear settles the oldest mark of its token. -/
def step (w : Watched) : GuardCall → Watched
  | .mark tok now =>
    ⟨w.store.markInflight tok now,
      fun k => if k = tok then w.unsettled k ++ [now] else w.unsettled k⟩
  | .clear tok =>
    ⟨w.store.clearInflight tok,
      fun k => if k = tok then (w.unsettled k).tail else w.unsettled k⟩
  | .expire maxAgeS now => ⟨(w.store.expireInflight maxAgeS now).1, w.unsettled⟩

/-- Whatever age and time `expire_inflight` is called with, it reports a token, or changes its
guard, only where some unsettled mark of the token is older than that. -/
def YoungKept (w : Watched) : Prop :=
  ∀ maxAgeS now tok,
    tok ∈ (w.store.expireInflight maxAgeS now).2 ∨
      (w.store.expireInflight maxAgeS now).1.inflight tok ≠ w.store.inflight tok →
    ∃ m ∈ w.unsettled tok, maxAgeS < now - m

/-- A clear settles the only mark in flight of its token, or leaves some mark unsettled that is not
later than the timestamp of the guard. -/
def LeavesOld (w : Watched) : GuardCall → Prop
  | .mark _ _ | .expire _ _ => True
  | .clear tok => 1 < w.store.inflight tok →
    ∀ ts, w.store.inflightTs.get? tok = some ts → ∃ m ∈ (w.unsettled tok).tail, m ≤ ts

end Watched

/-! ### The timestamps -/

section Stamps

variable {s : StateStore} {tok : TokenId}

/-- A token is reported where its timestamp is too old. -/
theorem mem_expireInflight_iff {maxAgeS now : ℚ} :
    tok ∈ (s.expireInflight maxAgeS now).2 ↔
      ∃ ts, s.inflightTs.get? tok = some ts ∧ maxAgeS < now - ts := by
  unfold StateStore.expireInflight
  simp only [List.mem_map, List.mem_filter, Prod.exists, exists_and_right, exists_eq_right,
    decide_eq_true_eq, Dict.mem_entries_iff]

theorem getD_foldl_set_zero (l : List TokenId) (d : Dict TokenId ℕ) (k : TokenId) :
    (l.foldl (fun counts tok => counts.set tok 0) d).getD k 0 =
      if k ∈ l then 0 else d.getD k 0 := by
  induction l generalizing d with
  | nil => simp
  | cons j l ih =>
    rw [List.foldl_cons, ih, Dict.getD_set]
    by_cases hk : k = j <;> simp [hk]

/-- The guard of a token that is not reported stays. -/
theorem expireInflight_inflight_of_not_mem {maxAgeS now : ℚ}
    (h : tok ∉ (s.expireInflight maxAgeS now).2) :
    (s.expireInflight maxAgeS now).1.inflight tok = s.inflight tok :=
  (getD_foldl_set_zero _ _ _).trans (if_neg h)

theorem expireInflight_inflightTs (maxAgeS now : ℚ) :
    (s.expireInflight maxAgeS now).1.inflightTs.get? tok =
      if tok ∈ (s.expireInflight maxAgeS now).2 then none else s.inflightTs.get? tok :=
  Dict.get?_eraseAll _ _ _

theorem markInflight_inflightTs (k : TokenId) (now : ℚ) :
    (s.markInflight k now).inflightTs.get? tok =
      if tok = k then some ((s.inflightTs.get? k).getD now) else s.inflightTs.get? tok := by
  unfold StateStore.markInflight
  dsimp only
  split_ifs with hmem hk hk
  · obtain ⟨ts, hts⟩ := Dict.exists_get?_of_mem hmem
    rw [hk, hts, Option.getD_some]
  · rfl
  · rw [Dict.get?_set, if_pos hk, Dict.get?_eq_none_iff.2 hmem, Option.getD_none]
  · rw [Dict.get?_set, if_neg hk]

/-- A clear takes the timestamp with the last of the marks in flight. -/
theorem clearInflight_inflightTs (k : TokenId) :
    (s.clearInflight k).inflightTs.get? tok =
      if tok = k ∧ s.inflight k ≤ 1 then none else s.inflightTs.get? tok := by
  have hcount : (if 0 < s.inflight k then s.inflightCount.set k (s.inflight k - 1)
      else s.inflightCount).getD k 0 = s.inflight k - 1 := by
    split_ifs with hpos
    · rw [Dict.getD_set, if_pos rfl]
    · have hzero : s.inflight k = 0 := Nat.eq_zero_of_not_pos hpos
      rw [show s.inflightCount.getD k 0 = s.inflight k from rfl, hzero]
  unfold StateStore.clearInflight
  dsimp only
  rw [hcount]
  by_cases hlast : s.inflight k ≤ 1
  · rw [if_pos (Nat.sub_eq_zero_of_le hlast), Dict.get?_erase]
    simp [hlast]
  · rw [if_neg (by omega), if_neg fun h => hlast h.2]

end Stamps

namespace Watched

variable {w : Watched}

/-- A time between a timestamp and the marks after it. -/
theorem exists_le_of_forall_lt {ts : ℚ} {marks : List ℚ} (h : ∀ m ∈ marks, ts < m) :
    ∃ u, ts < u ∧ ∀ m ∈ marks, u ≤ m := by
  induction marks with
  | nil => exact ⟨ts + 1, by linarith, by simp⟩
  | cons m marks ih =>
    obtain ⟨hm, hmarks⟩ := List.forall_mem_cons.1 h
    obtain ⟨u, hu, hle⟩ := ih hmarks
    refine ⟨min u m, lt_min hu hm, List.forall_mem_cons.2 ⟨min_le_right u m, fun m' hm' => ?_⟩⟩
    exact (min_le_left u m).trans (hle m' hm')

/-- No young guard is released exactly when each timestamp has an unsettled mark as old. -/
theorem youngKept_iff :
    w.YoungKept ↔
      ∀ tok ts, w.store.inflightTs.get? tok = some ts → ∃ m ∈ w.unsettled tok, m ≤ ts := by
  constructor
  · intro h tok ts hts
    by_contra hyoung
    have hlt : ∀ m ∈ w.unsettled tok, ts < m := fun m hm =>
      not_le.1 fun hle => hyoung ⟨m, hm, hle⟩
    obtain ⟨u, hu, hle⟩ := exists_le_of_forall_lt hlt
    -- seen from time zero, the guard is older than `-u`, and no mark is
    obtain ⟨m, hm, hage⟩ := h (-u) 0 tok (.inl (mem_expireInflight_iff.2 ⟨ts, hts, by linarith⟩))
    have := hle m hm
    linarith
  · intro h maxAgeS now tok hmoved
    have hmem : tok ∈ (w.store.expireInflight maxAgeS now).2 := by
      rcases hmoved with hmem | hne
      · exact hmem
      · by_contra hnot
        exact hne (expireInflight_inflight_of_not_mem hnot)
    obtain ⟨ts, hts, hage⟩ := mem_expireInflight_iff.1 hmem
    obtain ⟨m, hm, hle⟩ := h tok ts hts
    exact ⟨m, hm, by linarith⟩

theorem youngKept_start (db : Db) : (start db).YoungKept :=
  youngKept_iff.2 fun tok ts h => by cases h

theorem youngKept_mark (h : w.YoungKept) (tok : TokenId) (now : ℚ) :
    (w.step (.mark tok now)).YoungKept := by
  rw [youngKept_iff] at h ⊢
  intro k ts hts
  change (w.store.markInflight tok now).inflightTs.get? k = some ts at hts
  change ∃ m ∈ (if k = tok then w.unsettled k ++ [now] else w.unsettled k), m ≤ ts
  rw [markInflight_inflightTs] at hts
  by_cases hk : k = tok
  · subst hk
    rw [if_pos rfl, Option.some.injEq] at hts
    rw [if_pos rfl]
    cases hold : w.store.inflightTs.get? k with
    | none =>
      -- the guard is raised by this mark
      rw [hold, Option.getD_none] at hts
      exact ⟨now, List.mem_append_right _ (List.mem_singleton_self now), hts.le⟩
    | some ts' =>
      rw [hold, Option.getD_some] at hts
      obtain ⟨m, hm, hle⟩ := h k ts' hold
      exact ⟨m, List.mem_append_left _ hm, hts ▸ hle⟩
  · rw [if_neg hk] at hts ⊢
    exact h k ts hts

theorem youngKept_expire (h : w.YoungKept) (maxAgeS now : ℚ) :
    (w.step (.expire maxAgeS now)).YoungKept := by
  rw [youngKept_iff] at h ⊢
  intro k ts hts
  change (w.store.expireInflight maxAgeS now).1.inflightTs.get? k = some ts at hts
  rw [expireInflight_inflightTs] at hts
  split_ifs at hts
  exact h k ts hts

/-- A clear moves no timestamp, so that the mark it settles may have been the only one as old. -/
theorem youngKept_clear_iff (h : w.YoungKept) (tok : TokenId) :
    (w.step (.clear tok)).YoungKept ↔ w.LeavesOld (.clear tok) := by
  rw [youngKept_iff] at h ⊢
  change (∀ k ts, (w.store.clearInflight tok).inflightTs.get? k = some ts →
    ∃ m ∈ (if k = tok then (w.unsettled k).tail else w.unsettled k), m ≤ ts) ↔ _
  simp only [clearInflight_inflightTs]
  constructor
  · intro hafter hmany ts hts
    have hkept : ¬ (tok = tok ∧ w.store.inflight tok ≤ 1) := fun hlast => by omega
    have := hafter tok ts (by rw [if_neg hkept, hts])
    rwa [if_pos rfl] at this
  · intro hold k ts hts
    by_cases hk : k = tok
    · subst hk
      by_cases hlast : w.store.inflight k ≤ 1
      · rw [if_pos ⟨rfl, hlast⟩] at hts
        cases hts
      · rw [if_neg fun hand => hlast hand.2] at hts
        rw [if_pos rfl]
        exact hold (not_le.1 hlast) ts hts
    · rw [if_neg fun hand => hk hand.1] at hts
      rw [if_neg hk]
      exact h k ts hts

/-- One call keeps it exactly when it meets the condition. -/
theorem youngKept_step_iff (h : w.YoungKept) (e : GuardCall) :
    (w.step e).YoungKept ↔ w.LeavesOld e := by
  cases e with
  | mark tok now => exact iff_of_true (youngKept_mark h tok now) trivial
  | clear tok => exact youngKept_clear_iff h tok
  | expire maxAgeS now => exact iff_of_true (youngKept_expire h maxAgeS now) trivial

/-- **When no young guard is released.**  Along a run of marks, clears and expiries from the start
of a process, no `expire_inflight` reports or releases a guard of which every unsettled mark is
young, if and only if each clear settles the only mark in flight of its token or leaves one
unsettled that is as old as the guard's timestamp. -/
theorem youngKept_run_iff (db : Db) (es : List GuardCall) :
    Run.Always step YoungKept (start db) es ↔ Run.EachStep step LeavesOld (start db) es :=
  Run.always_iff_eachStep (I := fun _ => True) (P := YoungKept) (fun _ _ _ => trivial)
    (fun _ e _ h => youngKept_step_iff h e) trivial (youngKept_start db)

/-- Of two trades that overlap the first settles after 101 s.  With a limit of 60 s the guard is
dropped a second later, although the only unsettled mark is 10 s old. -/
theorem young_guard_released :
    let es : List GuardCall := [.mark "yes" 0, .mark "yes" 92, .clear "yes"]
    let w := Run.run step (start .fresh) es
    w.unsettled "yes" = [92] ∧ w.store.inflight "yes" = 1 ∧
      (w.store.expireInflight 60 102).2 = ["yes"] ∧
      (w.store.expireInflight 60 102).1.inflight "yes" = 0 ∧
      ¬ Run.Always step YoungKept (start .fresh) es := by
  intro es w
  refine ⟨by decide +kernel, by decide +kernel, by decide +kernel, by decide +kernel, fun h => ?_⟩
  obtain ⟨m, hm, hage⟩ := h.last 60 102 "yes" (.inl (by decide +kernel))
  have hmarks : (Run.run step (start .fresh) es).unsettled "yes" = [92] := by decide +kernel
  rw [hmarks, List.mem_singleton] at hm
  rw [hm] at hage
  norm_num at hage

end Watched

end Polymaker
