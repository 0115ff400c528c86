import Polymaker.State.Positions

/-!
# What a read of the exchange may change

`reconcile_positions` runs two loops over different tokens, with a guard for each token.  Together
they change exactly what they may, in memory and in the table.

* `ReadCloses`: the read closes a token;
* `ReadFrame`: what becomes of the positions of every token;
* `reconcilePositions_others`: nothing but positions is touched;
* `reconcilePositions_frame`: both copies of the positions are in the frame, and the list returned
  is that of the closed tokens.
-/

namespace Polymaker

variable {s : StateStore} {api : Dict TokenId (ℚ × ℚ)} {authoritative : Bool} {now : ℚ}

/-- The read closes a token: it is authoritative and does not list the token, the guard does not
protect it, and it is tracked with a positive size. -/
def ReadCloses (s : StateStore) (api : Dict TokenId (ℚ × ℚ)) (authoritative : Bool) (now : ℚ)
    (tok : TokenId) : Prop :=
  authoritative ∧ tok ∉ api ∧ ¬ s.guardBlocks tok now ∧
    ∃ pos, s.positions.get? tok = some pos ∧ 0 < pos.size

/-- What becomes of a copy of the positions: the guarded tokens keep theirs, the other tokens that
the read lists take what it says, those it closes are flat, and every other token is left alone. -/
structure ReadFrame (s : StateStore) (api : Dict TokenId (ℚ × ℚ)) (authoritative : Bool) (now : ℚ)
    (before after : Dict TokenId Position) : Prop where
  guarded : ∀ tok, s.guardBlocks tok now → after.get? tok = before.get? tok
  listed : ∀ tok size avg, ¬ s.guardBlocks tok now → api.get? tok = some (size, avg) →
    after.get? tok = some ⟨max 0 size, if 0 < size then avg else 0⟩
  closed : ∀ tok, ReadCloses s api authoritative now tok → after.get? tok = some ⟨0, 0⟩
  others : ∀ tok, tok ∉ api → ¬ ReadCloses s api authoritative now tok →
    after.get? tok = before.get? tok

/-- A token that is held is tracked with a positive size. -/
theorem held_iff {tok : TokenId} :
    0 < (s.position tok).size ↔ ∃ pos, s.positions.get? tok = some pos ∧ 0 < pos.size := by
  constructor
  · exact fun h => ⟨_, get?_of_held h, h⟩
  · rintro ⟨pos, hget, hpos⟩
    rwa [position_of_get? hget]

theorem shows_positions (tok : TokenId) :
    Shows tok (·.positions.get? tok) fun size avg => some (.ofRead size avg) :=
  ⟨fun s k _ _ => Dict.get?_set s.positions k tok _⟩

theorem shows_rows (tok : TokenId) :
    Shows tok (·.db.positions.get? tok) fun size avg => some (.ofRead size avg) :=
  ⟨fun s k _ _ => Dict.get?_replace s.db.positions k tok _⟩

/-- A copy that every overwritten position is seen in is in the frame. -/
theorem readFrame_of_shows {copy : StateStore → Dict TokenId Position}
    (h : ∀ tok, Shows tok (fun s => (copy s).get? tok) fun size avg => some (.ofRead size avg)) :
    ReadFrame s api authoritative now (copy s)
      (copy (s.reconcilePositions api authoritative now).1) where
  guarded tok hguard := by
    rw [(h tok).reconcilePositions, if_pos hguard]
  listed tok size avg hguard hget := by
    rw [(h tok).reconcilePositions, if_neg hguard, hget]
    rfl
  closed tok hcloses := by
    obtain ⟨hauth, hapi, hguard, hheld⟩ := hcloses
    rw [(h tok).reconcilePositions, if_neg hguard, Dict.get?_eq_none_iff.2 hapi]
    exact if_pos ⟨hauth, held_iff.2 hheld⟩
  others tok hapi hopen := by
    rw [(h tok).reconcilePositions]
    by_cases hguard : s.guardBlocks tok now
    · exact if_pos hguard
    · rw [if_neg hguard, Dict.get?_eq_none_iff.2 hapi]
      exact if_neg fun hheld => hopen ⟨hheld.1, hapi, hguard, held_iff.1 hheld.2⟩

/-- The stores agree on everything but positions. -/
def SameButPositions (s s' : StateStore) : Prop :=
  s' = { s with positions := s'.positions, db := { s.db with positions := s'.db.positions } }

theorem SameButPositions.setPosition {s' : StateStore} (h : SameButPositions s s') (tok : TokenId)
    (size avg : ℚ) : SameButPositions s (s'.setPosition tok size avg) := by
  unfold SameButPositions at h ⊢
  rw [h]
  rfl

/-- A read moves positions and nothing else. -/
theorem reconcilePositions_others (s : StateStore) (api : Dict TokenId (ℚ × ℚ))
    (authoritative : Bool) (now : ℚ) :
    SameButPositions s (s.reconcilePositions api authoritative now).1 := by
  have hadopt : SameButPositions s (s.adoptPositions api.entries now) := by
    refine List.foldlRecOn (motive := SameButPositions s) api.entries _ rfl fun s' hs' e _ => ?_
    obtain ⟨tok, size, avg⟩ := e
    dsimp only
    split_ifs
    · exact hs'
    · exact hs'.setPosition tok size avg
  unfold StateStore.reconcilePositions
  cases authoritative with
  | false => exact hadopt
  | true =>
    simp only [if_true, closeAbsent_eq]
    exact List.foldlRecOn (motive := SameButPositions s) _ _ hadopt fun s' hs' tok _ =>
      hs'.setPosition tok 0 0

/-- No token is reported twice. -/
theorem nodup_reconcilePositions (s : StateStore) (api : Dict TokenId (ℚ × ℚ))
    (authoritative : Bool) (now : ℚ) : (s.reconcilePositions api authoritative now).2.Nodup := by
  unfold StateStore.reconcilePositions
  cases authoritative with
  | false => exact List.nodup_nil
  | true =>
    simp only [if_true, closeAbsent_eq]
    exact (s.adoptPositions api.entries now).positions.nodup.sublist (List.filter_sublist.map _)

/-- **A read of the exchange changes exactly what it may**, in memory and in the table; the tokens
returned are those it closes, each once; and nothing else of the store is touched. -/
theorem reconcilePositions_frame (s : StateStore) (api : Dict TokenId (ℚ × ℚ))
    (authoritative : Bool) (now : ℚ) :
    ReadFrame s api authoritative now s.positions
        (s.reconcilePositions api authoritative now).1.positions ∧
      ReadFrame s api authoritative now s.db.positions
        (s.reconcilePositions api authoritative now).1.db.positions ∧
      (∀ tok, tok ∈ (s.reconcilePositions api authoritative now).2 ↔
        ReadCloses s api authoritative now tok) ∧
      (s.reconcilePositions api authoritative now).2.Nodup ∧
      SameButPositions s (s.reconcilePositions api authoritative now).1 := by
  refine ⟨readFrame_of_shows shows_positions, readFrame_of_shows shows_rows, fun tok => ?_,
    nodup_reconcilePositions s api authoritative now,
    reconcilePositions_others s api authoritative now⟩
  rw [mem_reconcilePositions_iff, held_iff, ReadCloses]

end Polymaker
