import Polymaker.State.Refinement

/-!
# Every trade is accounted for exactly once

What `run_refines` says about one trade, tied to inventory.

* `position_eq_replay`: every position, in memory and after a restart, is the replay of the log;
* `new_fills`: a step logs nothing, the fill of the match it delivers, or the reversal of a fill
  logged before;
* `exactly_once`: a trade is added at most once and subtracted at most once, after it was added and
  by what was added, and never after it was confirmed.
-/

namespace Polymaker

/-! ### Positions are the replay of the log -/

/-- Memory and database both hold the positions the log replays to. -/
def Mirrors (s : Traced) : Prop :=
  ∀ tok, s.proc.store.position tok = replay (fun _ => .flat) s.log tok ∧
    (StateStore.open s.proc.store.db).position tok = replay (fun _ => .flat) s.log tok

theorem mirrors_init : Mirrors Traced.init := fun _ => ⟨rfl, rfl⟩

theorem mirrors_restart {s : Traced} (h : Mirrors s) : Mirrors (s.step .restart) := fun tok =>
  ⟨(h tok).2, (h tok).2⟩

/-- A step that logs `f` and moves positions as `recordFill f` does keeps the replay. -/
theorem mirrors_record {s : Traced} (h : Mirrors s) {p : UserEventProcessor} {f : Fill}
    (hpos : ∀ tok, p.store.position tok = (s.proc.store.recordFill f).position tok)
    (hdb : p.store.db = (s.proc.store.recordFill f).db) : Mirrors ⟨p, s.log ++ [f]⟩ := by
  intro tok
  rw [replay_concat, hpos, hdb, recordFill_position, open_recordFill_position]
  split_ifs with htok
  · rw [(h f.tokenId).1]; exact ⟨rfl, rfl⟩
  · exact h tok

/-- A step that moves no position and logs nothing keeps the replay. -/
theorem mirrors_same {s : Traced} (h : Mirrors s) {p : UserEventProcessor}
    (hpos : ∀ tok, p.store.position tok = s.proc.store.position tok)
    (hdb : p.store.db.positions = s.proc.store.db.positions) : Mirrors ⟨p, s.log ++ []⟩ := by
  intro tok
  have hopen : (StateStore.open p.store.db).position tok =
      (StateStore.open s.proc.store.db).position tok := by
    simp only [StateStore.open, StateStore.position, hdb]
  rw [List.append_nil, hpos, hopen]
  exact h tok

theorem mirrors_deliver {s : Traced} (h : Mirrors s) (ev : TradeEvent) (now : ℚ) :
    Mirrors (s.step (.deliver ev now)) := by
  have hcase := onTrade_cases s.proc ev now
  show Mirrors ⟨(s.proc.onTrade ev now).1, s.log ++ fillsOf (s.proc.onTrade ev now).2⟩
  generalize s.proc.onTrade ev now = out at hcase ⊢
  cases hcase with
  | idle => exact mirrors_same h (fun _ => rfl) rfl
  | applied => exact mirrors_record h (fun _ => rfl) rfl
  | confirmed =>
    refine mirrors_same h (fun tok => ?_) ?_
    · rw [markFillSettled_position, ite_clearInflight_position]
    · rw [markFillSettled_positions, ite_clearInflight_db]
  | undone => exact mirrors_record h (fun _ => rfl) rfl
  | blocked => exact mirrors_same h (fun _ => rfl) rfl
  | undoneRow => exact mirrors_record h (fun _ => rfl) rfl
  | released => exact mirrors_same h (fun _ => rfl) rfl

theorem mirrors_step {s : Traced} (h : Mirrors s) (e : ProcessStep) : Mirrors (s.step e) := by
  cases e with
  | deliver ev now => exact mirrors_deliver h ev now
  | restart => exact mirrors_restart h

/-- In every reachable state the positions are the replay of the log, in memory and on disk. -/
theorem position_eq_replay (es : List ProcessStep) : Mirrors (Run.run Traced.step .init es) := by
  have hall : Run.Always Traced.step Mirrors .init es :=
    Run.always_of_step (P := Mirrors) (fun _ e h => mirrors_step h e) mirrors_init es
  exact hall.last

/-! ### Where the fills of the log come from -/

/-- What an event logs: nothing, the fill it was matched with, or the reversal of a logged fill of
its trade. -/
theorem new_fills {s : Traced} (h : Consistent s) {ev : TradeEvent} (now : ℚ)
    (hid : ¬ IsReverse ev.tradeId) :
    fillsOf (s.proc.onTrade ev now).2 = [] ∨
    (ev.status = .matched ∧ fillsOf (s.proc.onTrade ev now).2 = [ev.fill]) ∨
    (∃ g ∈ s.log, g.tradeId = ev.tradeId ∧ fillsOf (s.proc.onTrade ev now).2 = [g.reversed]) := by
  have hcase := onTrade_cases s.proc ev now
  generalize s.proc.onTrade ev now = out at hcase ⊢
  cases hcase with
  | idle => exact .inl rfl
  | applied hst => exact .inr (.inl ⟨hst, rfl⟩)
  | confirmed => exact .inl rfl
  | undone prior _ happ =>
    obtain ⟨-, -, r, hr, -, hrf⟩ := h.applied_row _ _ happ
    subst hrf
    exact .inr (.inr ⟨_, h.row_logged _ r hid hr, rfl, rfl⟩)
  | blocked => exact .inl rfl
  | undoneRow r _ _ hr => exact .inr (.inr ⟨_, h.row_logged _ r hid hr, rfl, rfl⟩)
  | released => exact .inl rfl

/-- Every subtraction of the log undoes an addition logged before it. -/
def Paired (log : List Fill) : Prop :=
  ∀ pre f post, log = pre ++ f :: post → IsReverse f.tradeId → ∃ g ∈ pre, f = g.reversed

theorem paired_nil : Paired [] := fun pre f post h => by simp at h

theorem paired_concat {log : List Fill} {f : Fill} (h : Paired log)
    (hf : IsReverse f.tradeId → ∃ g ∈ log, f = g.reversed) : Paired (log ++ [f]) := by
  intro pre g post hlog hg
  rcases List.eq_nil_or_concat post with rfl | ⟨post', x, rfl⟩
  · obtain ⟨rfl, hfg⟩ := List.append_inj' hlog rfl
    obtain rfl := (List.cons.inj hfg).1
    exact hf hg
  · rw [List.concat_eq_append, ← List.cons_append, ← List.append_assoc] at hlog
    exact h pre g post' (List.append_inj' hlog rfl).1 hg

theorem paired_step {s : Traced} (h : Consistent s) (hp : Paired s.log) {e : ProcessStep}
    (he : e.Plain) : Paired (s.step e).log := by
  cases e with
  | restart => exact hp
  | deliver ev now =>
    show Paired (s.log ++ fillsOf (s.proc.onTrade ev now).2)
    rcases new_fills h now he with heq | ⟨-, heq⟩ | ⟨g, hg, -, heq⟩ <;> rw [heq]
    · rwa [List.append_nil]
    · exact paired_concat hp fun hrev => absurd hrev he
    · exact paired_concat hp fun _ => ⟨g, hg, rfl⟩

theorem paired_run {s : Traced} (h : Consistent s) (hp : Paired s.log) {es : List ProcessStep}
    (hes : ∀ e ∈ es, e.Plain) : Paired (Run.run Traced.step s es).log := by
  have hboth : Consistent (Run.run Traced.step s es) ∧ Paired (Run.run Traced.step s es).log :=
    Run.run_of_forall_mem (P := fun s => Consistent s ∧ Paired s.log)
      (fun s e he hs => ⟨consistent_step hs.1 (hes e he), paired_step hs.1 hs.2 (hes e he)⟩)
      ⟨h, hp⟩
  exact hboth.2

/-- Every addition of the log is the fill of a match the run delivered. -/
theorem logged_of_matched {es : List ProcessStep} (hes : ∀ e ∈ es, e.Plain) {f : Fill}
    (hf : f ∈ (Run.run Traced.step .init es).log) (hid : ¬ IsReverse f.tradeId) :
    ∃ ev now, ProcessStep.deliver ev now ∈ es ∧ ev.status = .matched ∧ ev.fill = f := by
  induction es using List.reverseRecOn with
  | nil => simp [Traced.init] at hf
  | append_singleton es e ih =>
    have hes' : ∀ e ∈ es, e.Plain := fun e he => hes e (List.mem_append_left _ he)
    have hc := (run_refines consistent_init hes' hid).1
    have hold : f ∈ (Run.run Traced.step .init es).log →
        ∃ ev now, ProcessStep.deliver ev now ∈ es ++ [e] ∧ ev.status = .matched ∧
          ev.fill = f := by
      intro hf
      obtain ⟨ev, now, hev, hst, hfill⟩ := ih hes' hf
      exact ⟨ev, now, List.mem_append_left _ hev, hst, hfill⟩
    rw [Run.run_append] at hf
    cases e with
    | restart => exact hold hf
    | deliver ev now =>
      rcases List.mem_append.1 hf with hf | hf
      · exact hold hf
      · have he : ¬ IsReverse ev.tradeId := hes (.deliver ev now) (by simp)
        rcases new_fills hc now he with heq | ⟨hst, heq⟩ | ⟨g, -, -, heq⟩ <;> rw [heq] at hf
        · simp at hf
        · exact ⟨ev, now, List.mem_append_right _ (by simp), hst, (List.mem_singleton.1 hf).symm⟩
        · rw [List.mem_singleton.1 hf] at hid
          exact absurd (isReverse_reverseId _) hid

/-! ### The main theorem -/

/-- After a confirmation that follows the match, a run moves nothing of the trade any more. -/
theorem moves_after_confirmed {es pre post : List ProcessStep} {ev : TradeEvent} {now : ℚ}
    (hes : ∀ e ∈ es, e.Plain) (hsplit : es = pre ++ .deliver ev now :: post)
    (hst : ev.status = .confirmed) (hm : .matched ∈ statusesOf ev.tradeId pre) :
    movesOf ev.tradeId (Run.run Traced.step .init es).log =
      movesOf ev.tradeId (Run.run Traced.step .init pre).log := by
  have hev : ¬ IsReverse ev.tradeId := hes (.deliver ev now) (by simp [hsplit])
  have hpre : ∀ e ∈ pre, e.Plain := fun e he => hes e (by simp [hsplit, he])
  obtain ⟨-, hall⟩ := run_refines consistent_init hes hev
  obtain ⟨-, hp⟩ := run_refines consistent_init hpre hev
  have hph : phaseOf Traced.init.proc.store.db.fills ev.tradeId = .unseen := rfl
  have hsts : statusesOf ev.tradeId es =
      (statusesOf ev.tradeId pre ++ [.confirmed]) ++ statusesOf ev.tradeId post := by
    simp [statusesOf, hsplit, ProcessStep.statusOf, hst]
  have hone : Phase.moves ((Phase.unseen.run (statusesOf ev.tradeId pre))) [.confirmed] = [] := by
    cases Phase.unseen.run (statusesOf ev.tradeId pre) <;> rfl
  have hfinal := Phase.moves_of_final (Phase.final_of_matched_confirmed hm)
    (statusesOf ev.tradeId post)
  rw [hall.moves, hp.moves, hph, hsts, Phase.moves_append, hfinal, Phase.moves_append, hone,
    List.append_nil, List.append_nil]

/-- **Exactly-once trade accounting.**  Over every run of trade events and restarts on an empty
database, the log holds of each trade nothing, its addition, or its addition and then its
subtraction; a subtraction undoes the addition fill for fill; nothing follows a confirmation of a
matched trade; and the positions, in memory and after a restart, are the replay of the log. -/
theorem exactly_once (es : List ProcessStep) (hes : ∀ e ∈ es, e.Plain) :
    let s := Run.run Traced.step .init es
    (∀ t, ¬ IsReverse t → movesOf t s.log = [] ∨ movesOf t s.log = [.add] ∨
      movesOf t s.log = [.add, .subtract]) ∧
    (∀ f ∈ s.log, ¬ IsReverse f.tradeId →
      ∃ ev now, .deliver ev now ∈ es ∧ ev.status = .matched ∧ ev.fill = f) ∧
    (∀ pre f post, s.log = pre ++ f :: post → IsReverse f.tradeId → ∃ g ∈ pre, f = g.reversed) ∧
    (∀ pre ev now post, es = pre ++ .deliver ev now :: post → ev.status = .confirmed →
      .matched ∈ statusesOf ev.tradeId pre →
      movesOf ev.tradeId s.log = movesOf ev.tradeId (Run.run Traced.step .init pre).log) ∧
    (∀ tok, s.proc.store.position tok = replay (fun _ => .flat) s.log tok ∧
      (StateStore.open s.proc.store.db).position tok = replay (fun _ => .flat) s.log tok) := by
  refine ⟨fun t ht => ?_, fun f hf hid => logged_of_matched hes hf hid,
    paired_run consistent_init paired_nil hes,
    fun pre ev now post hsplit hst hm => moves_after_confirmed hes hsplit hst hm,
    position_eq_replay es⟩
  obtain ⟨-, hf⟩ := run_refines consistent_init hes ht
  have hph : phaseOf Traced.init.proc.store.db.fills t = .unseen := rfl
  rw [hf.moves, hph]
  exact Phase.moves_unseen_cases (statusesOf t es)

/-- A run that matches a trade, restarts, sees it fail, and then sees the match again: it is added
once and subtracted once. -/
theorem exactly_once_of_failed_after_restart :
    let matched : TradeEvent := ⟨"k", .buy, 1 / 2, 100, "t", .matched, 0⟩
    let es : List ProcessStep := [.deliver matched 0, .restart,
      .deliver { matched with status := .failed } 1, .deliver matched 2]
    movesOf "t" (Run.run Traced.step .init es).log = [.add, .subtract] ∧
      (Run.run Traced.step .init es).proc.store.position "k" =
        replay (fun _ => .flat) (Run.run Traced.step .init es).log "k" := by
  intro matched es
  have hes : ∀ e ∈ es, e.Plain := by decide
  exact ⟨by decide, ((exactly_once es hes).2.2.2.2 "k").1⟩

end Polymaker
