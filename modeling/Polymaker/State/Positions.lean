import Polymaker.State.Tracker

/-!
# Positions that are overwritten

The part of `StateStore` that sets positions without a fill: a read of the exchange or of the chain
replaces what the fills added up to.

* `setPosition`, `forceSetPosition`: one position is overwritten;
* `guardBlocks`: the optimistic view of a token is newer than any read of the exchange;
* `expireInflight`: a guard that was never released is dropped;
* `reconcilePositions`: every token the guard does not protect takes the size the exchange reports;
* `dropUntrackedPositions`: the tokens that are not traded are forgotten;
* `Shows`: a lookup that an overwritten position is seen through, as are the positions in memory and
  the rows of the table;
* `Shows.reconcilePositions`, `mem_reconcilePositions_iff`: what such a lookup sees of a token after
  `reconcilePositions`, and when the token is reported as closed.
-/

namespace Polymaker

/-- `set_position`: a size below zero counts as zero, and a flat position has no price. -/
def StateStore.setPosition (s : StateStore) (tok : TokenId) (size avgPrice : ℚ) : StateStore :=
  let pos : Position := ⟨max 0 size, if 0 < size then avgPrice else 0⟩
  { s with
    positions := s.positions.set tok pos
    db := s.db.persistPosition tok pos }

/-- `force_set_position`: what else it does is a line in the log. -/
def StateStore.forceSetPosition (s : StateStore) (tok : TokenId) (size avgPrice : ℚ) :
    StateStore :=
  s.setPosition tok size avgPrice

/-- `_FILL_SETTLE_GRACE_S`. -/
def fillSettleGraceS : ℚ := 15

/-- `_guard_blocks` at time `now`: a trade of the token is in flight, or its last fill is recent. -/
def StateStore.guardBlocks (s : StateStore) (tok : TokenId) (now : ℚ) : Prop :=
  0 < s.inflight tok ∨ now - s.lastFillTs.getD tok 0 < fillSettleGraceS

instance (s : StateStore) (tok : TokenId) (now : ℚ) : Decidable (s.guardBlocks tok now) :=
  inferInstanceAs (Decidable (_ ∨ _))

/-- `expire_inflight` at time `now`: the guards that are older than `maxAgeS` are dropped, and their
tokens returned. -/
def StateStore.expireInflight (s : StateStore) (maxAgeS now : ℚ) : StateStore × List TokenId :=
  let stale := (s.inflightTs.entries.filter fun e => decide (maxAgeS < now - e.2)).map Prod.fst
  ({ s with
      inflightCount := stale.foldl (fun counts tok => counts.set tok 0) s.inflightCount
      inflightTs := s.inflightTs.eraseAll stale }, stale)

/-- The first loop of `reconcile_positions`: the sizes and prices of the response are taken over,
but for the guarded tokens. -/
def StateStore.adoptPositions (s : StateStore) (api : List (TokenId × ℚ × ℚ)) (now : ℚ) :
    StateStore :=
  api.foldl (fun s (tok, size, avg) =>
    if s.guardBlocks tok now then s else s.setPosition tok size avg) s

/-- The second loop of `reconcile_positions`, over a copy `held` of the positions: a held token
that the response does not list is closed, but for the guarded tokens.  The closed ones are
returned. -/
def StateStore.closeAbsent (s : StateStore) (held : List (TokenId × Position))
    (api : Dict TokenId (ℚ × ℚ)) (now : ℚ) : StateStore × List TokenId :=
  held.foldl (fun (s, zeroed) (tok, pos) =>
    if pos.size ≤ 0 ∨ tok ∈ api then (s, zeroed)
    else if s.guardBlocks tok now then (s, zeroed)
    else (s.setPosition tok 0 0, zeroed ++ [tok])) (s, [])

/-- `reconcile_positions` at time `now`; only an authoritative response closes what it does not
list. -/
def StateStore.reconcilePositions (s : StateStore) (api : Dict TokenId (ℚ × ℚ))
    (authoritative : Bool) (now : ℚ) : StateStore × List TokenId :=
  let s' := s.adoptPositions api.entries now
  if authoritative then s'.closeAbsent s'.positions.entries api now else (s', [])

/-- `drop_untracked_positions`, with the tokens that were dropped. -/
def StateStore.dropUntrackedPositions (s : StateStore) (tracked : List TokenId) :
    StateStore × List TokenId :=
  let dropped := s.positions.keys.filter fun tok => decide (tok ∉ tracked)
  ({ s with
      positions := s.positions.eraseAll dropped
      db := { s.db with positions := s.db.positions.eraseAll dropped } }, dropped)

/-! ### What they leave alone -/

section Frames

variable {s : StateStore} {tok : TokenId} {size avg : ℚ}

@[simp] theorem setPosition_inflight (k : TokenId) :
    (s.setPosition tok size avg).inflight k = s.inflight k := rfl

@[simp] theorem setPosition_position (k : TokenId) :
    (s.setPosition tok size avg).position k =
      if k = tok then ⟨max 0 size, if 0 < size then avg else 0⟩ else s.position k :=
  Dict.getD_set _ _ _ _ _

@[simp] theorem guardBlocks_setPosition (k : TokenId) (now : ℚ) :
    (s.setPosition tok size avg).guardBlocks k now ↔ s.guardBlocks k now := Iff.rfl

end Frames

/-! ### What a read of the exchange leaves -/

/-- The position that a reported size and price are taken over as. -/
def Position.ofRead (size avgPrice : ℚ) : Position := ⟨max 0 size, if 0 < size then avgPrice else 0⟩

/-- The held tokens that an authoritative response closes. -/
def StateStore.absent (s : StateStore) (held : List (TokenId × Position))
    (api : Dict TokenId (ℚ × ℚ)) (now : ℚ) : List TokenId :=
  (held.filter fun e => decide (0 < e.2.size ∧ e.1 ∉ api ∧ ¬ s.guardBlocks e.1 now)).map Prod.fst

section Reconcile

variable {s : StateStore} {api : Dict TokenId (ℚ × ℚ)} {now : ℚ} {tok : TokenId}

theorem guardBlocks_adoptPositions (l : List (TokenId × ℚ × ℚ)) (k : TokenId) :
    (s.adoptPositions l now).guardBlocks k now ↔ s.guardBlocks k now := by
  refine List.foldlRecOn (motive := fun s' : StateStore =>
    s'.guardBlocks k now ↔ s.guardBlocks k now) l _ Iff.rfl fun s' hs' e _ => ?_
  dsimp only
  split_ifs
  · exact hs'
  · rw [guardBlocks_setPosition, hs']

/-- What a lookup of one token answers: a value of the size and price it is overwritten with. -/
structure Shows {β : Type*} (tok : TokenId) (look : StateStore → β) (value : ℚ → ℚ → β) :
    Prop where
  setPosition : ∀ (s : StateStore) k size avg,
    look (s.setPosition k size avg) = if tok = k then value size avg else look s

theorem shows_position (tok : TokenId) : Shows tok (·.position tok) Position.ofRead :=
  ⟨fun s k _ _ => Dict.getD_set s.positions k tok _ _⟩

section Shows

variable {β : Type*} {look : StateStore → β} {value : ℚ → ℚ → β}

theorem Shows.adoptPositions (h : Shows tok look value) (s : StateStore)
    {l : List (TokenId × ℚ × ℚ)} (hnd : (l.map Prod.fst).Nodup) (now : ℚ) :
    look (s.adoptPositions l now) =
      match l.lookup tok with
      | none => look s
      | some (size, avg) => if s.guardBlocks tok now then look s else value size avg := by
  induction l generalizing s with
  | nil => rfl
  | cons e l ih =>
    obtain ⟨k, size, avg⟩ := e
    rw [List.map_cons, List.nodup_cons] at hnd
    have hcons : s.adoptPositions ((k, size, avg) :: l) now =
        (if s.guardBlocks k now then s else s.setPosition k size avg).adoptPositions l now := rfl
    rw [hcons, ih _ hnd.2, Dict.lookup_cons_eq_ite]
    by_cases hk : tok = k
    · -- no later entry has this key
      subst hk
      have hnone : l.lookup tok = none := by
        rw [← Option.not_isSome_iff_eq_none, Dict.lookup_isSome_iff]; exact hnd.1
      rw [hnone, if_pos rfl]
      dsimp only
      split_ifs
      · rfl
      · rw [h.setPosition, if_pos rfl]
    · rw [if_neg hk]
      by_cases hguard : s.guardBlocks k now
      · simp only [if_pos hguard]
      · simp only [if_neg hguard, h.setPosition, if_neg hk, guardBlocks_setPosition]

theorem Shows.foldl_setPosition_zero (h : Shows tok look value) (l : List TokenId)
    (s : StateStore) :
    look (l.foldl (fun s tok => s.setPosition tok 0 0) s) =
      if tok ∈ l then value 0 0 else look s := by
  induction l generalizing s with
  | nil => simp
  | cons k l ih =>
    rw [List.foldl_cons, ih, h.setPosition]
    by_cases hk : tok = k <;> simp [hk]

end Shows

/-- A held token is closed, or passed over. -/
theorem absent_cons (k : TokenId) (pos : Position) (held : List (TokenId × Position)) :
    s.absent ((k, pos) :: held) api now =
      if 0 < pos.size ∧ k ∉ api ∧ ¬ s.guardBlocks k now then k :: s.absent held api now
      else s.absent held api now := by
  unfold StateStore.absent
  rw [List.filter_cons]
  simp only [decide_eq_true_eq]
  split_ifs <;> rfl

theorem closeAbsent_eq (held : List (TokenId × Position)) :
    s.closeAbsent held api now =
      ((s.absent held api now).foldl (fun s tok => s.setPosition tok 0 0) s,
        s.absent held api now) := by
  suffices haux : ∀ (s : StateStore) (zeroed : List TokenId),
      held.foldl (fun (s, zeroed) (tok, pos) =>
        if pos.size ≤ 0 ∨ tok ∈ api then (s, zeroed)
        else if s.guardBlocks tok now then (s, zeroed)
        else (s.setPosition tok 0 0, zeroed ++ [tok])) (s, zeroed) =
      ((s.absent held api now).foldl (fun s tok => s.setPosition tok 0 0) s,
        zeroed ++ s.absent held api now) from haux s []
  induction held with
  | nil => intro s zeroed; simp [StateStore.absent]
  | cons e held ih =>
    intro s zeroed
    obtain ⟨k, pos⟩ := e
    rw [List.foldl_cons, absent_cons]
    by_cases hpass : pos.size ≤ 0 ∨ k ∈ api
    · have hopen : ¬ (0 < pos.size ∧ k ∉ api ∧ ¬ s.guardBlocks k now) := by
        rintro ⟨hpos, hapi, -⟩
        rcases hpass with h | h
        · exact absurd h (not_le.2 hpos)
        · exact hapi h
      simp only [if_pos hpass, if_neg hopen, ih]
    · by_cases hguard : s.guardBlocks k now
      · have hopen : ¬ (0 < pos.size ∧ k ∉ api ∧ ¬ s.guardBlocks k now) := fun h => h.2.2 hguard
        simp only [if_neg hpass, if_pos hguard, if_neg hopen, ih]
      · have hclosed : 0 < pos.size ∧ k ∉ api ∧ ¬ s.guardBlocks k now := by
          rw [not_or, not_le] at hpass
          exact ⟨hpass.1, hpass.2, hguard⟩
        -- overwriting `k` leaves the guards, and with them the rest of the list
        have hrest : (s.setPosition k 0 0).absent held api now = s.absent held api now := rfl
        simp only [if_neg hpass, if_neg hguard, if_pos hclosed, ih, hrest, List.foldl_cons,
          List.append_assoc, List.singleton_append]

theorem position_of_get? {pos : Position} (h : s.positions.get? tok = some pos) :
    s.position tok = pos := by
  unfold StateStore.position Dict.getD
  rw [h]; rfl

/-- A token that is held is tracked. -/
theorem get?_of_held (h : 0 < (s.position tok).size) :
    s.positions.get? tok = some (s.position tok) := by
  cases hget : s.positions.get? tok with
  | none =>
    have hflat : s.position tok = Position.flat := by
      unfold StateStore.position Dict.getD
      rw [hget]; rfl
    rw [hflat] at h
    exact absurd h (lt_irrefl 0)
  | some pos => rw [position_of_get? hget]

theorem mem_absent_iff (s' : StateStore) :
    tok ∈ s.absent s'.positions.entries api now ↔
      0 < (s'.position tok).size ∧ tok ∉ api ∧ ¬ s.guardBlocks tok now := by
  unfold StateStore.absent
  simp only [List.mem_map, List.mem_filter, Prod.exists, exists_and_right, exists_eq_right,
    decide_eq_true_eq, Dict.mem_entries_iff]
  constructor
  · rintro ⟨pos, hget, hpos, hrest⟩
    exact ⟨by rwa [position_of_get? hget], hrest⟩
  · rintro ⟨hpos, hrest⟩
    exact ⟨s'.position tok, get?_of_held hpos, hpos, hrest⟩

/-- What a lookup answers after a read of the exchange. -/
theorem Shows.reconcilePositions {β : Type*} {look : StateStore → β} {value : ℚ → ℚ → β}
    (h : Shows tok look value) (s : StateStore) (api : Dict TokenId (ℚ × ℚ)) (authoritative : Bool)
    (now : ℚ) :
    look (s.reconcilePositions api authoritative now).1 =
      if s.guardBlocks tok now then look s
      else
        match api.get? tok with
        | some (size, avg) => value size avg
        | none => if authoritative ∧ 0 < (s.position tok).size then value 0 0 else look s := by
  have hadopt := h.adoptPositions s api.nodup now
  have hheld := (shows_position tok).adoptPositions s api.nodup now
  rw [show api.entries.lookup tok = api.get? tok from rfl] at hadopt hheld
  unfold StateStore.reconcilePositions
  cases authoritative with
  | false =>
    simp only [Bool.false_eq_true, if_false, false_and, hadopt]
    cases api.get? tok <;> simp
  | true =>
    simp only [if_true, true_and, closeAbsent_eq, h.foldl_setPosition_zero, mem_absent_iff,
      guardBlocks_adoptPositions, hadopt, hheld]
    cases hget : api.get? tok with
    | some read =>
      simp [Dict.mem_of_get? hget]
    | none =>
      have hapi : tok ∉ api := Dict.get?_eq_none_iff.1 hget
      by_cases hguard : s.guardBlocks tok now
      · simp [hguard]
      · simp [hguard, hapi]

/-- What a read of the exchange leaves of a position. -/
theorem reconcilePositions_position (s : StateStore) (api : Dict TokenId (ℚ × ℚ))
    (authoritative : Bool) (now : ℚ) (tok : TokenId) :
    (s.reconcilePositions api authoritative now).1.position tok =
      if s.guardBlocks tok now then s.position tok
      else
        match api.get? tok with
        | some (size, avg) => .ofRead size avg
        | none =>
          if authoritative ∧ 0 < (s.position tok).size then .flat else s.position tok :=
  (shows_position tok).reconcilePositions s api authoritative now

/-- A token is closed exactly when the response is authoritative and does not list it, the guard
does not protect it, and it is held. -/
theorem mem_reconcilePositions_iff (s : StateStore) (api : Dict TokenId (ℚ × ℚ))
    (authoritative : Bool) (now : ℚ) (tok : TokenId) :
    tok ∈ (s.reconcilePositions api authoritative now).2 ↔
      authoritative ∧ tok ∉ api ∧ ¬ s.guardBlocks tok now ∧ 0 < (s.position tok).size := by
  unfold StateStore.reconcilePositions
  cases authoritative with
  | false => simp
  | true =>
    simp only [if_true, true_and, closeAbsent_eq, mem_absent_iff, guardBlocks_adoptPositions]
    have hread : tok ∉ api → (s.adoptPositions api.entries now).position tok = s.position tok := by
      intro hapi
      rw [(shows_position tok).adoptPositions s api.nodup,
        show api.entries.lookup tok = none from Dict.get?_eq_none_iff.2 hapi]
    constructor
    · rintro ⟨hpos, hapi, hguard⟩
      exact ⟨hapi, hguard, hread hapi ▸ hpos⟩
    · rintro ⟨hapi, hguard, hpos⟩
      exact ⟨(hread hapi).symm ▸ hpos, hapi, hguard⟩

/-- The guard protects a position from any read. -/
theorem reconcilePositions_of_guardBlocks (h : s.guardBlocks tok now)
    (api : Dict TokenId (ℚ × ℚ)) (authoritative : Bool) :
    (s.reconcilePositions api authoritative now).1.position tok = s.position tok ∧
      tok ∉ (s.reconcilePositions api authoritative now).2 := by
  rw [reconcilePositions_position, if_pos h, mem_reconcilePositions_iff]
  exact ⟨rfl, fun hmem => hmem.2.2.1 h⟩

/-- Without the guard some read changes the position. -/
theorem exists_read_of_not_guardBlocks (h : ¬ s.guardBlocks tok now) :
    ∃ api : Dict TokenId (ℚ × ℚ),
      (s.reconcilePositions api false now).1.position tok ≠ s.position tok := by
  refine ⟨Dict.empty.set tok (max 0 (s.position tok).size + 1, 0), fun heq => ?_⟩
  have hsize := congrArg Position.size heq
  rw [reconcilePositions_position, if_neg h, Dict.get?_set, if_pos rfl] at hsize
  have hread : max 0 (max 0 (s.position tok).size + 1) = (s.position tok).size := hsize
  have hle := le_max_right 0 (max 0 (s.position tok).size + 1)
  have hsz := le_max_right 0 (s.position tok).size
  linarith

end Reconcile

end Polymaker
