import Polymaker.Lib.Run
import Polymaker.State.Lifecycle
import Polymaker.State.Tracker

/-!
# The event processor refines the trade lifecycle

Runs of the event processor over trade events and process restarts.  A restart keeps the database
and nothing else.

* `Traced`: the processor with the log of the fills that moved inventory, oldest first;
* `phaseOf`: the phase of a trade, read off the `fills` table;
* `Consistent`: what ties the in-memory map, the table and the log together;
* `step_refines`: one step of the processor is one step of the lifecycle of the trade it is about,
  and no step for any other trade;
* `run_refines`: over a run, what the log does to a trade is what its lifecycle says.
-/

namespace Polymaker

/-- What can happen to the processor. -/
inductive ProcessStep
  | deliver (ev : TradeEvent) (now : ℚ)
  | restart
  deriving DecidableEq

/-- The processor and the fills that moved inventory so far. -/
structure Traced where
  proc : UserEventProcessor
  log : List Fill

/-- A first process on an empty database. -/
def Traced.init : Traced := ⟨.start .fresh, []⟩

/-- One step: deliver an event, or restart the process on its database. -/
def Traced.step (s : Traced) : ProcessStep → Traced
  | .deliver ev now => ⟨(s.proc.onTrade ev now).1, s.log ++ fillsOf (s.proc.onTrade ev now).2⟩
  | .restart => ⟨.start s.proc.store.db, s.log⟩

/-- The trade events of a run are not about reversal ids. -/
def ProcessStep.Plain : ProcessStep → Prop
  | .deliver ev _ => ¬ IsReverse ev.tradeId
  | .restart => True

instance (e : ProcessStep) : Decidable e.Plain := by
  cases e <;> unfold ProcessStep.Plain <;> infer_instance

/-- The status a step delivers for the trade `t`, if it is about it. -/
def ProcessStep.statusOf (t : TradeId) : ProcessStep → Option TradeState
  | .deliver ev _ => if ev.tradeId = t then some ev.status else none
  | .restart => none

/-- The statuses a run delivers for the trade `t`. -/
def statusesOf (t : TradeId) (es : List ProcessStep) : List TradeState :=
  es.filterMap (ProcessStep.statusOf t)

/-- What a log does to the trade `t`. -/
def movesOf (t : TradeId) (log : List Fill) : List Move :=
  log.filterMap fun f =>
    if f.tradeId = t then some .add else if f.tradeId = reverseId t then some .subtract else none

theorem movesOf_append (t : TradeId) (xs ys : List Fill) :
    movesOf t (xs ++ ys) = movesOf t xs ++ movesOf t ys := List.filterMap_append

theorem movesOf_add {t : TradeId} {f : Fill} (h : f.tradeId = t) : movesOf t [f] = [.add] := by
  simp [movesOf, h]

theorem movesOf_subtract {t : TradeId} {f : Fill} (ht : ¬ IsReverse t)
    (h : f.tradeId = reverseId t) : movesOf t [f] = [.subtract] := by
  simp [movesOf, h, (ne_reverseId ht t).symm]

theorem movesOf_other {t : TradeId} {f : Fill} (h : f.tradeId ≠ t) (h' : f.tradeId ≠ reverseId t) :
    movesOf t [f] = [] := by
  simp [movesOf, h, h']

/-! ### The phase of a trade in the table -/

/-- The phase of a trade, read off the table. -/
def phaseOf (fills : Dict TradeId FillRow) (t : TradeId) : Phase :=
  match fills.get? t with
  | none => .unseen
  | some r =>
    if reverseId t ∈ fills then .reversed
    else match r.status with
      | .matched => .pending
      | .confirmed => .settled

section Phase

variable {fills : Dict TradeId FillRow} {t u : TradeId} {r : FillRow}

theorem phaseOf_unseen (h : t ∉ fills) : phaseOf fills t = .unseen := by
  rw [phaseOf, Dict.get?_eq_none_iff.2 h]

theorem phaseOf_reversed (h : t ∈ fills) (hr : reverseId t ∈ fills) :
    phaseOf fills t = .reversed := by
  obtain ⟨r, hrow⟩ := Dict.exists_get?_of_mem h
  simp only [phaseOf, hrow, if_pos hr]

theorem phaseOf_pending (h : fills.get? t = some r) (hs : r.status = .matched)
    (hr : reverseId t ∉ fills) : phaseOf fills t = .pending := by
  simp only [phaseOf, h, if_neg hr, hs]

theorem phaseOf_ne_unseen (h : t ∈ fills) : phaseOf fills t ≠ .unseen := by
  obtain ⟨r, hrow⟩ := Dict.exists_get?_of_mem h
  simp only [phaseOf, hrow]
  split_ifs
  · decide
  · cases r.status <;> decide

/-- The phase of a trade depends on its own row and on the presence of its reversal. -/
theorem phaseOf_congr {fills' : Dict TradeId FillRow} (h : fills'.get? t = fills.get? t)
    (hr : reverseId t ∈ fills' ↔ reverseId t ∈ fills) : phaseOf fills' t = phaseOf fills t := by
  simp only [phaseOf, h, hr]

/-- A row recorded under an id that is neither `t` nor its reversal leaves the phase of `t`. -/
theorem phaseOf_set_of_ne (h : t ≠ u) (hr : reverseId t ≠ u) :
    phaseOf (fills.set u r) t = phaseOf fills t :=
  phaseOf_congr (by simp [h]) (by simp [hr])

end Phase

/-! ### Consistency of the map, the table and the log -/

/-- What ties the two dedupe layers and the log together. -/
structure Consistent (s : Traced) : Prop where
  /-- Every fill in memory is the unsettled, unreversed row of its trade. -/
  applied_row : ∀ t f, s.proc.applied.get? t = some f → ¬ IsReverse t ∧
    reverseId t ∉ s.proc.store.db.fills ∧
    ∃ r, s.proc.store.db.fills.get? t = some r ∧ r.status = .matched ∧ r.fill t = f
  /-- A reversal is recorded only beside the row it reverses. -/
  reversed_row : ∀ t, reverseId t ∈ s.proc.store.db.fills → t ∈ s.proc.store.db.fills
  /-- Every row of a trade was logged when it was recorded. -/
  row_logged : ∀ t r, ¬ IsReverse t → s.proc.store.db.fills.get? t = some r → r.fill t ∈ s.log

theorem consistent_init : Consistent Traced.init where
  applied_row := fun t f h => by simp [Traced.init, UserEventProcessor.start] at h
  reversed_row := fun t h => by
    simp [Traced.init, UserEventProcessor.start, StateStore.open, Db.fresh] at h
  row_logged := fun t r _ h => by
    simp [Traced.init, UserEventProcessor.start, StateStore.open, Db.fresh] at h

theorem consistent_restart {s : Traced} (h : Consistent s) : Consistent (s.step .restart) where
  applied_row := fun t f ha => by simp [Traced.step, UserEventProcessor.start] at ha
  reversed_row := h.reversed_row
  row_logged := h.row_logged

/-- Recording the reversal of a row keeps what the table and the log say of all trades but the
reversed one. -/
theorem consistent_reversal {s : Traced} (h : Consistent s) {t : TradeId} {r : FillRow}
    (hrow : s.proc.store.db.fills.get? t = some r) {p : UserEventProcessor} {effs : List Effect}
    (hfills : p.store.db.fills =
      s.proc.store.db.fills.set (reverseId t) (r.fill t).reversed.row)
    (happ : ∀ u f, p.applied.get? u = some f → u ≠ t ∧ s.proc.applied.get? u = some f) :
    Consistent ⟨p, s.log ++ fillsOf effs⟩ where
  applied_row := fun u f hu => by
    obtain ⟨hne, hu⟩ := happ u f hu
    obtain ⟨hur, hnr, q, hq, hqs, hqf⟩ := h.applied_row u f hu
    refine ⟨hur, ?_, q, ?_, hqs, hqf⟩
    · simp only [hfills, Dict.mem_set, not_or, reverseId_inj]
      exact ⟨hne, hnr⟩
    · simp only [hfills, Dict.get?_set, if_neg (ne_reverseId hur t)]
      exact hq
  reversed_row := fun u hu => by
    simp only [hfills, Dict.mem_set, reverseId_inj] at hu ⊢
    rcases hu with rfl | hu
    · exact .inr (Dict.mem_of_get? hrow)
    · exact .inr (h.reversed_row u hu)
  row_logged := fun u q hur hu => by
    simp only [hfills, Dict.get?_set, if_neg (ne_reverseId hur t)] at hu
    exact List.mem_append_left _ (h.row_logged u q hur hu)

/-- Settling a trade takes it out of memory and changes the status of its row. -/
theorem consistent_settled {s : Traced} (h : Consistent s) (t : TradeId) {st : StateStore}
    (hdb : st.db = s.proc.store.db) :
    Consistent ⟨⟨st.markFillSettled t, s.proc.applied.erase t⟩, s.log⟩ where
  applied_row := fun u f hu => by
    simp only [Dict.get?_erase] at hu
    split_ifs at hu with hut
    obtain ⟨hur, hnr, r, hr, hrs, hrf⟩ := h.applied_row u f hu
    refine ⟨hur, ?_, r, ?_, hrs, hrf⟩
    · rw [mem_markFillSettled, hdb]; exact hnr
    · rw [markFillSettled_get?, if_neg hut, hdb]; exact hr
  reversed_row := fun u hu => by
    rw [mem_markFillSettled, hdb] at hu ⊢
    exact h.reversed_row u hu
  row_logged := fun u r hur hu => by
    rw [markFillSettled_get?, hdb] at hu
    split_ifs at hu with hut
    · subst hut
      obtain ⟨q, hq, rfl⟩ := Option.map_eq_some_iff.1 hu
      exact h.row_logged u q hur hq
    · exact h.row_logged u r hur hu

/-- A new match puts its row, its fill in memory and its entry in the log down together. -/
theorem consistent_applied {s : Traced} (h : Consistent s) {ev : TradeEvent} (now : ℚ)
    (hid : ¬ IsReverse ev.tradeId) (hnew : ev.tradeId ∉ s.proc.store.db.fills) :
    Consistent ⟨⟨(s.proc.store.recordFill ev.fill).markInflight ev.tokenId now,
      s.proc.applied.set ev.tradeId ev.fill⟩, s.log ++ [ev.fill]⟩ where
  applied_row := fun t f ht => by
    simp only [Dict.get?_set, markInflight_db, recordFill_fills, TradeEvent.fill_tradeId,
      Dict.mem_set, not_or] at ht ⊢
    split_ifs at ht with hte
    · obtain rfl := Option.some.inj ht
      subst hte
      have hnr : reverseId ev.tradeId ∉ s.proc.store.db.fills := fun hr =>
        hnew (h.reversed_row _ hr)
      exact ⟨hid, ⟨(ne_reverseId hid _).symm, hnr⟩, ev.fill.row, if_pos rfl, rfl, rfl⟩
    · obtain ⟨htr, hnr, r, hr, hrs, hrf⟩ := h.applied_row t f ht
      exact ⟨htr, ⟨(ne_reverseId hid _).symm, hnr⟩, r, by rw [if_neg hte, hr], hrs, hrf⟩
  reversed_row := fun t ht => by
    simp only [markInflight_db, recordFill_fills, TradeEvent.fill_tradeId, Dict.mem_set] at ht ⊢
    rcases ht with ht | ht
    · exact absurd ht.symm (ne_reverseId hid t)
    · exact .inr (h.reversed_row t ht)
  row_logged := fun t r htr ht => by
    simp only [markInflight_db, recordFill_fills, TradeEvent.fill_tradeId, Dict.get?_set] at ht
    split_ifs at ht with hte
    · obtain rfl := Option.some.inj ht
      rw [hte]
      simp
    · exact List.mem_append_left _ (h.row_logged t r htr ht)

theorem consistent_deliver {s : Traced} (h : Consistent s) {ev : TradeEvent} {now : ℚ}
    (hid : ¬ IsReverse ev.tradeId) : Consistent (s.step (.deliver ev now)) := by
  have hcase := onTrade_cases s.proc ev now
  show Consistent ⟨(s.proc.onTrade ev now).1, s.log ++ fillsOf (s.proc.onTrade ev now).2⟩
  generalize s.proc.onTrade ev now = out at hcase ⊢
  cases hcase with
  | idle => simpa using h
  | applied _ _ hnew => exact consistent_applied h now hid hnew
  | confirmed => simpa using consistent_settled h ev.tradeId (ite_clearInflight_db _ _)
  | undone prior _ happ hnew =>
    obtain ⟨-, -, r, hr, -, hrf⟩ := h.applied_row _ _ happ
    subst hrf
    refine consistent_reversal h hr rfl fun u f hu => ?_
    simp only [Dict.get?_erase] at hu
    split_ifs at hu with hue
    exact ⟨hue, hu⟩
  | blocked prior _ happ hold =>
    obtain ⟨-, hnr, r, -, -, hrf⟩ := h.applied_row _ _ happ
    subst hrf
    exact absurd hold hnr
  | undoneRow r _ happ hrow _ _ =>
    refine consistent_reversal h hrow rfl fun u f hu => ⟨?_, hu⟩
    rintro rfl
    exact happ (Dict.mem_of_get? hu)
  | released => simpa using ⟨h.applied_row, h.reversed_row, h.row_logged⟩

/-- The invariant holds in every state of a run. -/
theorem consistent_step {s : Traced} (h : Consistent s) {e : ProcessStep} (he : e.Plain) :
    Consistent (s.step e) := by
  cases e with
  | deliver ev now => exact consistent_deliver h he
  | restart => exact consistent_restart h

/-! ### One step of the processor is one step of the lifecycle -/

/-- From `s` to `s'` the trade `t` went through the statuses `sts`: its phase ran through them, and
the log grew by what they move. -/
structure Follows (t : TradeId) (sts : List TradeState) (s s' : Traced) : Prop where
  phase : phaseOf s'.proc.store.db.fills t = (phaseOf s.proc.store.db.fills t).run sts
  moves : movesOf t s'.log = movesOf t s.log ++ (phaseOf s.proc.store.db.fills t).moves sts

theorem Follows.refl (t : TradeId) (s : Traced) : Follows t [] s s := ⟨rfl, by simp [Phase.moves]⟩

theorem Follows.trans {t : TradeId} {xs ys : List TradeState} {s s' s'' : Traced}
    (h : Follows t xs s s') (h' : Follows t ys s' s'') : Follows t (xs ++ ys) s s'' where
  phase := by rw [h'.phase, h.phase, Phase.run, Phase.run, Phase.run, List.foldl_append]
  moves := by rw [h'.moves, h.moves, h.phase, Phase.moves_append, List.append_assoc]

/-- A step that keeps the phase of `t` and logs nothing of `t` takes `t` nowhere. -/
theorem Follows.of_other {t : TradeId} {s s' : Traced} {fs : List Fill}
    (hph : phaseOf s'.proc.store.db.fills t = phaseOf s.proc.store.db.fills t)
    (hlog : s'.log = s.log ++ fs) (hfs : movesOf t fs = []) : Follows t [] s s' where
  phase := hph
  moves := by rw [hlog, movesOf_append, hfs]; rfl

theorem Follows.of_status {t : TradeId} {s s' : Traced} {fs : List Fill} {st : TradeState}
    (hph : phaseOf s'.proc.store.db.fills t = (phaseOf s.proc.store.db.fills t).next st)
    (hlog : s'.log = s.log ++ fs)
    (hfs : movesOf t fs = (phaseOf s.proc.store.db.fills t).move st) : Follows t [st] s s' where
  phase := hph
  moves := by rw [hlog, movesOf_append, hfs, Phase.moves, Phase.moves, List.append_nil]

theorem phaseOf_markFillSettled (st : StateStore) (t u : TradeId) :
    phaseOf (st.markFillSettled u).db.fills t =
      if t = u then (phaseOf st.db.fills t).next .confirmed else phaseOf st.db.fills t := by
  have hrev := mem_markFillSettled st u (reverseId t)
  split_ifs with htu
  · subst htu
    simp only [phaseOf, markFillSettled_get?, if_true, hrev]
    cases st.db.fills.get? t with
    | none => rfl
    | some r =>
      by_cases hr : reverseId t ∈ st.db.fills
      · simp only [Option.map_some, if_pos hr, Phase.next]
      · simp only [Option.map_some, if_neg hr]
        cases r.status <;> rfl
  · exact phaseOf_congr (by rw [markFillSettled_get?, if_neg htu]) hrev

/-- Recording the reversal of a pending trade reverses it. -/
theorem phaseOf_record_reversal {st : StateStore} {f : Fill} {t : TradeId} {r : FillRow}
    (hf : f.tradeId = reverseId t) (hrow : st.db.fills.get? t = some r) :
    phaseOf (st.recordFill f).db.fills t = .reversed := by
  refine phaseOf_reversed ?_ ?_
  · rw [recordFill_fills, Dict.mem_set]
    exact .inr (Dict.mem_of_get? hrow)
  · rw [recordFill_fills, Dict.mem_set, hf]
    exact .inl rfl

/-- The reversal of a row that can still be undone takes its trade from pending to reversed. -/
theorem follows_reversal {s s' : Traced} {ev : TradeEvent} {r : FillRow}
    (hid : ¬ IsReverse ev.tradeId) (hst : ev.status = .failed)
    (hr : s.proc.store.db.fills.get? ev.tradeId = some r) (hrs : r.status = .matched)
    (hnr : reverseId ev.tradeId ∉ s.proc.store.db.fills)
    (hfills : s'.proc.store.db.fills =
      (s.proc.store.recordFill (r.fill ev.tradeId).reversed).db.fills)
    (hlog : s'.log = s.log ++ [(r.fill ev.tradeId).reversed]) :
    Follows ev.tradeId [ev.status] s s' := by
  have hph := phaseOf_pending hr hrs hnr
  refine Follows.of_status ?_ hlog ?_
  · rw [hph, hst, hfills]
    exact phaseOf_record_reversal rfl hr
  · rw [hph, hst]
    exact movesOf_subtract hid rfl

/-- An event takes its own trade through its status. -/
theorem follows_deliver {s : Traced} (h : Consistent s) {ev : TradeEvent} {now : ℚ}
    (hid : ¬ IsReverse ev.tradeId) :
    Follows ev.tradeId [ev.status] s (s.step (.deliver ev now)) := by
  have hcase := onTrade_cases s.proc ev now
  show Follows _ _ _ ⟨(s.proc.onTrade ev now).1, s.log ++ fillsOf (s.proc.onTrade ev now).2⟩
  generalize s.proc.onTrade ev now = out at hcase ⊢
  cases hcase with
  | idle hst =>
    -- a status without a transition, or a match of a trade that is no longer unseen
    have hidle : ∀ ph : Phase, (ev.status = .matched → ph ≠ .unseen) →
        ph.next ev.status = ph ∧ ph.move ev.status = [] := by
      intro ph hne
      rcases hst with hst | hst | ⟨hst, -⟩ <;> rw [hst] at hne ⊢ <;> cases ph <;>
        simp_all [Phase.next, Phase.move]
    obtain ⟨hn, hm⟩ := hidle (phaseOf s.proc.store.db.fills ev.tradeId) fun hm => by
      rcases hst with hst | hst | ⟨-, happ | hold⟩
      · rw [hst] at hm; cases hm
      · rw [hst] at hm; cases hm
      · obtain ⟨f, hf⟩ := Dict.exists_get?_of_mem happ
        obtain ⟨-, -, r, hr, -, -⟩ := h.applied_row _ _ hf
        exact phaseOf_ne_unseen (Dict.mem_of_get? hr)
      · exact phaseOf_ne_unseen hold
    exact Follows.of_status hn.symm rfl hm.symm
  | applied hst happ hnew =>
    have hph : phaseOf s.proc.store.db.fills ev.tradeId = .unseen := phaseOf_unseen hnew
    have hnr : reverseId ev.tradeId ∉ s.proc.store.db.fills := fun hr =>
      hnew (h.reversed_row _ hr)
    refine Follows.of_status ?_ rfl ?_
    · rw [hph, hst]
      refine phaseOf_pending (r := ev.fill.row) ?_ rfl ?_
      · simp
      · simpa using ⟨(ne_reverseId hid _).symm, hnr⟩
    · rw [hph, hst]
      exact movesOf_add rfl
  | confirmed hst =>
    refine Follows.of_status ?_ rfl ?_
    · rw [phaseOf_markFillSettled, if_pos rfl, hst]
      split_ifs <;> rfl
    · rw [hst]
      cases phaseOf s.proc.store.db.fills ev.tradeId <;> rfl
  | undone prior hst happ hnew =>
    obtain ⟨-, hnr, r, hr, hrs, hrf⟩ := h.applied_row _ _ happ
    subst hrf
    exact follows_reversal hid hst hr hrs hnr rfl rfl
  | blocked prior hst happ hold =>
    obtain ⟨-, hnr, r, -, -, hrf⟩ := h.applied_row _ _ happ
    subst hrf
    exact absurd hold hnr
  | undoneRow r hst happ hr hrs hnr => exact follows_reversal hid hst hr hrs hnr rfl rfl
  | released hst happ hrow =>
    have hne : phaseOf s.proc.store.db.fills ev.tradeId ≠ .pending := by
      cases hr : s.proc.store.db.fills.get? ev.tradeId with
      | none => rw [phaseOf_unseen (Dict.get?_eq_none_iff.1 hr)]; decide
      | some r =>
        cases hrs : r.status with
        | matched => rw [phaseOf_reversed (Dict.mem_of_get? hr) (hrow r hr hrs)]; decide
        | confirmed =>
          simp only [phaseOf, hr, hrs]
          split_ifs <;> decide
    refine Follows.of_status ?_ rfl ?_ <;> rw [hst]
    · show phaseOf s.proc.store.db.fills ev.tradeId = _
      cases hph : phaseOf s.proc.store.db.fills ev.tradeId <;> first | rfl | exact absurd hph hne
    · cases hph : phaseOf s.proc.store.db.fills ev.tradeId <;> first | rfl | exact absurd hph hne

/-- An event takes no other trade anywhere. -/
theorem follows_deliver_other {s : Traced} (h : Consistent s) {ev : TradeEvent} {now : ℚ}
    {t : TradeId} (hid : ¬ IsReverse ev.tradeId) (ht : ¬ IsReverse t) (hne : ev.tradeId ≠ t) :
    Follows t [] s (s.step (.deliver ev now)) := by
  have hcase := onTrade_cases s.proc ev now
  show Follows _ _ _ ⟨(s.proc.onTrade ev now).1, s.log ++ fillsOf (s.proc.onTrade ev now).2⟩
  generalize s.proc.onTrade ev now = out at hcase ⊢
  have hrev : reverseId t ≠ reverseId ev.tradeId := fun he => hne (reverseId_inj.1 he).symm
  cases hcase with
  | idle => exact Follows.of_other rfl rfl rfl
  | applied _ _ hnew =>
    have hr : reverseId t ≠ ev.tradeId := (ne_reverseId hid t).symm
    exact Follows.of_other (phaseOf_set_of_ne (Ne.symm hne) hr) rfl
      (movesOf_other hne (Ne.symm hr))
  | confirmed =>
    refine Follows.of_other ?_ rfl rfl
    rw [phaseOf_markFillSettled, if_neg (Ne.symm hne)]
    split_ifs <;> rfl
  | undone prior _ happ hnew =>
    obtain ⟨-, -, r, -, -, hrf⟩ := h.applied_row _ _ happ
    subst hrf
    exact Follows.of_other (phaseOf_set_of_ne (ne_reverseId ht _) hrev) rfl
      (movesOf_other (ne_reverseId ht _).symm hrev.symm)
  | blocked => exact Follows.of_other rfl rfl rfl
  | undoneRow r =>
    exact Follows.of_other (phaseOf_set_of_ne (ne_reverseId ht _) hrev) rfl
      (movesOf_other (ne_reverseId ht _).symm hrev.symm)
  | released => exact Follows.of_other rfl rfl rfl

/-- **The processor refines the lifecycle**: a step takes a trade through the status it delivers
for it, and nowhere otherwise. -/
theorem step_refines {s : Traced} (h : Consistent s) {e : ProcessStep} (he : e.Plain)
    {t : TradeId} (ht : ¬ IsReverse t) : Follows t (statusesOf t [e]) s (s.step e) := by
  cases e with
  | restart => exact Follows.of_other rfl (List.append_nil _).symm rfl
  | deliver ev now =>
    by_cases hte : ev.tradeId = t
    · subst hte
      simpa [statusesOf, ProcessStep.statusOf] using follows_deliver h he
    · simpa [statusesOf, ProcessStep.statusOf, hte] using follows_deliver_other h he ht hte

/-- A run takes a trade through the statuses it delivers for it. -/
theorem run_refines {s : Traced} (h : Consistent s) {es : List ProcessStep}
    (hes : ∀ e ∈ es, e.Plain) {t : TradeId} (ht : ¬ IsReverse t) :
    Consistent (Run.run Traced.step s es) ∧
      Follows t (statusesOf t es) s (Run.run Traced.step s es) := by
  induction es generalizing s with
  | nil => exact ⟨h, Follows.refl t s⟩
  | cons e es ih =>
    obtain ⟨he, hes⟩ := List.forall_mem_cons.1 hes
    obtain ⟨hc, hf⟩ := ih (consistent_step h he) hes
    have happ : statusesOf t (e :: es) = statusesOf t [e] ++ statusesOf t es := by
      rw [statusesOf, statusesOf, statusesOf, ← List.filterMap_append]; rfl
    rw [happ]
    exact ⟨hc, (step_refines h he ht).trans hf⟩

end Polymaker
