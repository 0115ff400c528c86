import Polymaker.Lib.Run
import Polymaker.Risk.Manager
import Polymaker.State.Tracker

/-!
# A failed trade and the run without it

A trade that is matched and then fails is undone by an opposite fill.  We compare the run with the
run from which the events of that trade are deleted.

* `Account`: the processor with the risk manager it reports its fills to;
* `Shadow t w a b`: `a` is `b` with the trade `t` on top.  Outside the window from the match to the
  failure (`w = none`) the two agree on sizes and cash; inside it (`w = some f`) they differ by the
  fill `f` exactly;
* `Unclamped`: the condition on an event inside the window: the fill it applies would not be cut
  off at zero, with the trade or without it;
* `no_trace`: under that condition both runs end with the same sizes and the same cash.
-/

namespace Polymaker

/-- The processor and the risk manager. -/
structure Account where
  proc : UserEventProcessor
  risk : RiskManager
  deriving DecidableEq

/-- Report the fills of `on_fill` to the risk manager. -/
def noteFills (r : RiskManager) (effs : List Effect) : RiskManager :=
  effs.foldl (fun r eff => match eff with
    | .onFill f => r.noteFill f
    | .fill _ => r) r

/-- `on_trade` with `on_fill` wired to `note_fill`. -/
def Account.step (a : Account) (e : TimedEvent) : Account :=
  ⟨(a.proc.onTrade e.ev e.now).1, noteFills a.risk (a.proc.onTrade e.ev e.now).2⟩

/-- The size held of a token. -/
def Account.holding (a : Account) (tok : TokenId) : ℚ := (a.proc.store.position tok).size

/-- The fills table. -/
def Account.fills (a : Account) : Dict TradeId FillRow := a.proc.store.db.fills

@[simp] theorem noteFills_nil (r : RiskManager) : noteFills r [] = r := rfl

theorem noteFills_applied_netCash (r : RiskManager) (f : Fill) :
    (noteFills r [.fill f, .onFill f]).netCash = r.netCash + f.cash := rfl

/-! ### The relation between the two runs -/

/-- What the trade adds to the holding of a token inside its window. -/
def windowShift (w : Option Fill) (tok : TokenId) : ℚ :=
  match w with
  | none => 0
  | some f => if tok = f.tokenId then f.signed else 0

/-- What the trade adds to cash inside its window. -/
def windowCash (w : Option Fill) : ℚ := (w.map Fill.cash).getD 0

/-- `a` is `b` with the trade `t` on top. -/
structure Shadow (t : TradeId) (w : Option Fill) (a b : Account) : Prop where
  fills : ∀ u, u ≠ t → u ≠ reverseId t → a.fills.get? u = b.fills.get? u
  applied : ∀ u, u ≠ t → a.proc.applied.get? u = b.proc.applied.get? u
  ids : ∀ u f, b.proc.applied.get? u = some f → f.tradeId = u
  holding : ∀ tok, a.holding tok = b.holding tok + windowShift w tok
  cash : a.risk.netCash = b.risk.netCash + windowCash w

/-- The fill the event applies stays clear of zero, with the fill `f` in the book and without. -/
def Unclamped (f : Fill) (a : Account) (e : TimedEvent) : Prop :=
  ∀ g ∈ a.proc.pendingFill e.ev, g.tokenId = f.tokenId →
    max 0 f.signed ≤ a.holding f.tokenId + g.signed

instance (f : Fill) (a : Account) (e : TimedEvent) : Decidable (Unclamped f a e) :=
  inferInstanceAs (Decidable (∀ g ∈ a.proc.pendingFill e.ev, g.tokenId = f.tokenId →
    max 0 f.signed ≤ a.holding f.tokenId + g.signed))

/-- A fill that is not cut off at zero moves both holdings alike. -/
theorem max_zero_shift {x o g : ℚ} (h : max 0 o ≤ x + o + g) :
    max 0 (x + o + g) = max 0 (x + g) + o := by
  have h0 : 0 ≤ x + o + g := (le_max_left 0 o).trans h
  have ho : o ≤ x + o + g := (le_max_right 0 o).trans h
  rw [max_eq_right h0, max_eq_right (by linarith)]
  ring

section Shadow

variable {t : TradeId} {w : Option Fill} {a b : Account}

theorem Shadow.mem_fills (h : Shadow t w a b) {u : TradeId} (hu : u ≠ t) (hr : u ≠ reverseId t) :
    u ∈ a.fills ↔ u ∈ b.fills := by
  rw [Dict.mem_iff_isSome, Dict.mem_iff_isSome, h.fills u hu hr]

theorem Shadow.mem_applied (h : Shadow t w a b) {u : TradeId} (hu : u ≠ t) :
    u ∈ a.proc.applied ↔ u ∈ b.proc.applied := by
  rw [Dict.mem_iff_isSome, Dict.mem_iff_isSome, h.applied u hu]

/-- Both accounts record the same fill of another trade. -/
theorem Shadow.record (h : Shadow t w a b) {g : Fill} {a' b' : Account}
    (hclear : ∀ f, w = some f → g.tokenId = f.tokenId →
      max 0 f.signed ≤ a.holding f.tokenId + g.signed)
    (hfa : a'.fills = a.fills.set g.tradeId g.row) (hfb : b'.fills = b.fills.set g.tradeId g.row)
    (hpa : ∀ tok, a'.holding tok = ((a.proc.store.recordFill g).position tok).size)
    (hpb : ∀ tok, b'.holding tok = ((b.proc.store.recordFill g).position tok).size)
    (happ : ∀ u, u ≠ t → a'.proc.applied.get? u = b'.proc.applied.get? u)
    (hids : ∀ u f, b'.proc.applied.get? u = some f → f.tradeId = u)
    (hcash : a'.risk.netCash - a.risk.netCash = b'.risk.netCash - b.risk.netCash) :
    Shadow t w a' b' where
  fills := fun u hu hr => by
    rw [hfa, hfb, Dict.get?_set, Dict.get?_set, h.fills u hu hr]
  applied := happ
  ids := hids
  holding := fun tok => by
    have hx := h.holding tok
    rw [hpa, hpb, recordFill_position, recordFill_position]
    split_ifs with htok
    · rw [← htok, Position.apply_size, Position.apply_size]
      show max 0 (a.holding tok + g.signed) = max 0 (b.holding tok + g.signed) + _
      rw [hx]
      cases w with
      | none => simp [windowShift]
      | some f =>
        unfold windowShift at hx ⊢
        simp only at hx ⊢
        split_ifs at hx ⊢ with hf
        · have hc := hclear f rfl (htok ▸ hf)
          rw [← hf, hx] at hc
          exact max_zero_shift hc
        · simp
    · exact hx
  cash := by
    have hc := h.cash
    linarith

/-- An event of the trade that moves nothing keeps the relation. -/
theorem Shadow.left (h : Shadow t w a b) {a' : Account}
    (hfills : ∀ u, u ≠ t → u ≠ reverseId t → a'.fills.get? u = a.fills.get? u)
    (happ : ∀ u, u ≠ t → a'.proc.applied.get? u = a.proc.applied.get? u)
    (hpos : ∀ tok, a'.holding tok = a.holding tok) (hcash : a'.risk.netCash = a.risk.netCash) :
    Shadow t w a' b where
  fills := fun u hu hr => (hfills u hu hr).trans (h.fills u hu hr)
  applied := fun u hu => (happ u hu).trans (h.applied u hu)
  ids := h.ids
  holding := fun tok => (hpos tok).trans (h.holding tok)
  cash := hcash.trans h.cash

end Shadow

theorem ids_set {d : Dict TradeId Fill} (h : ∀ u f, d.get? u = some f → f.tradeId = u) (f : Fill) :
    ∀ u g, (d.set f.tradeId f).get? u = some g → g.tradeId = u := by
  intro u g hu
  rw [Dict.get?_set] at hu
  split_ifs at hu with huf
  · rw [← Option.some.inj hu, huf]
  · exact h u g hu

theorem ids_erase {d : Dict TradeId Fill} (h : ∀ u f, d.get? u = some f → f.tradeId = u)
    (t : TradeId) : ∀ u g, (d.erase t).get? u = some g → g.tradeId = u := by
  intro u g hu
  rw [Dict.get?_erase] at hu
  split_ifs at hu
  exact h u g hu

/-! ### An event of another trade -/

/-- Both accounts know the same of another trade. -/
theorem Shadow.sight {t : TradeId} {w : Option Fill} {a b : Account} (h : Shadow t w a b)
    {u : TradeId} (hne : u ≠ t) (hid : ¬ IsReverse u) (ht : ¬ IsReverse t) :
    a.fills.get? u = b.fills.get? u ∧ a.proc.applied.get? u = b.proc.applied.get? u ∧
      (reverseId u ∈ a.fills ↔ reverseId u ∈ b.fills) :=
  ⟨h.fills u hne (ne_reverseId hid t), h.applied u hne,
    h.mem_fills (ne_reverseId ht _).symm fun heq => hne (reverseId_inj.1 heq)⟩

/-- Both accounts forget the fill of another trade. -/
theorem Shadow.forget {t : TradeId} {w : Option Fill} {a b : Account} (h : Shadow t w a b)
    (u : TradeId) : ∀ v, v ≠ t →
      (a.proc.applied.erase u).get? v = (b.proc.applied.erase u).get? v := by
  intro v hv
  rw [Dict.get?_erase, Dict.get?_erase, h.applied v hv]

/-- Both accounts do the same with an event of another trade. -/
theorem Shadow.other {t : TradeId} {w : Option Fill} {a b : Account} (h : Shadow t w a b)
    {e : TimedEvent} (hne : e.ev.tradeId ≠ t) (hid : ¬ IsReverse e.ev.tradeId) (ht : ¬ IsReverse t)
    (hclear : ∀ f, w = some f → Unclamped f a e) : Shadow t w (a.step e) (b.step e) := by
  obtain ⟨hrow, hprior, hrev⟩ := h.sight hne hid ht
  have hfill : e.ev.tradeId ∈ a.fills ↔ e.ev.tradeId ∈ b.fills :=
    h.mem_fills hne (ne_reverseId hid t)
  have happl : e.ev.tradeId ∈ a.proc.applied ↔ e.ev.tradeId ∈ b.proc.applied := h.mem_applied hne
  have hcase := onTrade_cases a.proc e.ev e.now
  have hpend : ∀ g, a.proc.pendingFill e.ev = some g → ∀ f, w = some f → g.tokenId = f.tokenId →
      max 0 f.signed ≤ a.holding f.tokenId + g.signed := fun g hg f hf => hclear f hf g hg
  unfold Account.step
  generalize hout : a.proc.onTrade e.ev e.now = out at hcase ⊢
  have hfills := fillsOf_onTrade a.proc e.ev e.now
  rw [hout] at hfills
  cases hcase with
  | idle hst =>
    have hb : OnTradeCase b.proc e.ev e.now (b.proc, []) :=
      .idle (hst.imp_right fun hst => hst.imp_right fun hst =>
        ⟨hst.1, hst.2.imp happl.1 hfill.1⟩)
    rw [onTrade_eq_of_case e.now hb]
    exact h
  | applied hst happ hnew =>
    rw [onTrade_eq_of_case e.now (OnTradeCase.applied (p := b.proc) hst (mt happl.2 happ)
      (mt hfill.2 hnew))]
    refine h.record (g := e.ev.fill) (hpend _ ?_) rfl rfl (fun _ => rfl) (fun _ => rfl)
      (fun u hu => ?_) (ids_set h.ids e.ev.fill) ?_
    · exact (Option.toList_eq_singleton_iff.1 hfills.symm)
    · show (a.proc.applied.set _ _).get? u = (b.proc.applied.set _ _).get? u
      rw [Dict.get?_set, Dict.get?_set, h.applied u hu]
    · rw [noteFills_applied_netCash, noteFills_applied_netCash]; ring
  | confirmed hst =>
    rw [onTrade_eq_of_case e.now (OnTradeCase.confirmed (p := b.proc) hst)]
    exact
      { fills := fun u hu hr => by
          have hu' := h.fills u hu hr
          simp only [Account.fills, markFillSettled_get?, ite_clearInflight_db] at hrow hu' ⊢
          rw [hu', hrow]
        applied := h.forget _
        ids := ids_erase h.ids _
        holding := fun tok => by
          simp only [Account.holding, markFillSettled_position, ite_clearInflight_position]
          exact h.holding tok
        cash := h.cash }
  | undone prior hst happ hnew =>
    have hpid : prior.tradeId = e.ev.tradeId := h.ids _ _ (hprior ▸ happ)
    have hnew' : reverseId prior.tradeId ∉ b.proc.store.db.fills := by
      rw [hpid] at hnew ⊢; exact mt hrev.2 hnew
    rw [onTrade_eq_of_case e.now (OnTradeCase.undone (p := b.proc) prior hst
      (hprior ▸ happ) hnew')]
    refine h.record (g := prior.reversed) (hpend _ ?_) rfl rfl (fun _ => rfl) (fun _ => rfl)
      (h.forget _) (ids_erase h.ids _) ?_
    · exact (Option.toList_eq_singleton_iff.1 hfills.symm)
    · rw [noteFills_applied_netCash, noteFills_applied_netCash]; ring
  | blocked prior hst happ hold =>
    have hpid : prior.tradeId = e.ev.tradeId := h.ids _ _ (hprior ▸ happ)
    have hold' : reverseId prior.tradeId ∈ b.proc.store.db.fills := by
      rw [hpid] at hold ⊢; exact hrev.1 hold
    rw [onTrade_eq_of_case e.now (OnTradeCase.blocked (p := b.proc) prior hst
      (hprior ▸ happ) hold')]
    exact ⟨h.fills, h.forget _, ids_erase h.ids _, h.holding, h.cash⟩
  | undoneRow r hst happ hr hrs hnew =>
    rw [onTrade_eq_of_case e.now (OnTradeCase.undoneRow (p := b.proc) r hst
      (mt happl.2 happ) (hrow ▸ hr) hrs (mt hrev.2 hnew))]
    refine h.record (g := (r.fill e.ev.tradeId).reversed) (hpend _ ?_) rfl rfl (fun _ => rfl)
      (fun _ => rfl) h.applied h.ids ?_
    · exact (Option.toList_eq_singleton_iff.1 hfills.symm)
    · simp [noteFills]
  | released hst happ hr =>
    rw [onTrade_eq_of_case e.now (OnTradeCase.released (p := b.proc) hst
      (mt happl.2 happ) fun r hbr hrs => hrev.1 (hr r (hrow.trans hbr) hrs))]
    exact ⟨h.fills, h.applied, h.ids, h.holding, h.cash⟩

/-! ### What the accounts say of the trade itself -/

/-- Another trade's event leaves what the account holds of the trade `t`. -/
structure SameView (t : TradeId) (a a' : Account) : Prop where
  applied : a'.proc.applied.get? t = a.proc.applied.get? t
  row : t ∈ a'.fills ↔ t ∈ a.fills
  reversal : reverseId t ∈ a'.fills ↔ reverseId t ∈ a.fills

theorem SameView.refl (t : TradeId) (a : Account) : SameView t a a := ⟨rfl, Iff.rfl, Iff.rfl⟩

/-- A recorded fill whose id is neither the trade nor its reversal. -/
theorem SameView.record {t : TradeId} {a a' : Account} {g : Fill} (hg : t ≠ g.tradeId)
    (hr : reverseId t ≠ g.tradeId) (hfills : a'.fills = a.fills.set g.tradeId g.row)
    (happ : a'.proc.applied.get? t = a.proc.applied.get? t) : SameView t a a' where
  applied := happ
  row := by rw [hfills, Dict.mem_set, or_iff_right hg]
  reversal := by rw [hfills, Dict.mem_set, or_iff_right hr]

theorem sameView_of_other {t : TradeId} {a : Account} {e : TimedEvent} (hne : e.ev.tradeId ≠ t)
    (hid : ¬ IsReverse e.ev.tradeId) (ht : ¬ IsReverse t)
    (hids : ∀ f, a.proc.applied.get? e.ev.tradeId = some f → f.tradeId = e.ev.tradeId) :
    SameView t a (a.step e) := by
  have hcase := onTrade_cases a.proc e.ev e.now
  have herase : (a.proc.applied.erase e.ev.tradeId).get? t = a.proc.applied.get? t := by
    rw [Dict.get?_erase, if_neg hne.symm]
  have hrev : reverseId t ≠ reverseId e.ev.tradeId := fun heq => hne (reverseId_inj.1 heq).symm
  unfold Account.step
  generalize a.proc.onTrade e.ev e.now = out at hcase ⊢
  cases hcase with
  | idle => exact SameView.refl t a
  | applied =>
    refine SameView.record (g := e.ev.fill) hne.symm (ne_reverseId hid t).symm rfl ?_
    rw [Dict.get?_set, if_neg hne.symm]
  | confirmed =>
    refine ⟨herase, ?_, ?_⟩
    · rw [Account.fills, mem_markFillSettled, ite_clearInflight_db]; rfl
    · rw [Account.fills, mem_markFillSettled, ite_clearInflight_db]; rfl
  | undone prior _ happ =>
    have hpid := hids prior happ
    refine SameView.record (g := prior.reversed) ?_ ?_ rfl herase
    · rw [Fill.reversed_tradeId]; exact ne_reverseId ht _
    · rw [Fill.reversed_tradeId, hpid]; exact hrev
  | blocked => exact ⟨herase, Iff.rfl, Iff.rfl⟩
  | undoneRow r =>
    exact SameView.record (g := (r.fill e.ev.tradeId).reversed) (ne_reverseId ht _) hrev rfl rfl
  | released => exact ⟨rfl, Iff.rfl, Iff.rfl⟩

/-- Outside its window: the trade is not in memory, and a row of it has been reversed. -/
structure Quiet (t : TradeId) (a : Account) : Prop where
  applied : t ∉ a.proc.applied
  reversed : t ∈ a.fills → reverseId t ∈ a.fills

/-- Inside its window: the trade is in memory as the fill `f`, recorded and not reversed. -/
structure Pending (t : TradeId) (f : Fill) (a : Account) : Prop where
  applied : a.proc.applied.get? t = some f
  id : f.tradeId = t
  row : t ∈ a.fills
  reversal : reverseId t ∉ a.fills

theorem Quiet.of_sameView {t : TradeId} {a a' : Account} (h : Quiet t a) (hv : SameView t a a') :
    Quiet t a' where
  applied := by
    rw [← Dict.get?_eq_none_iff, hv.applied]; exact Dict.get?_eq_none_iff.2 h.applied
  reversed := fun hrow => hv.reversal.2 (h.reversed (hv.row.1 hrow))

theorem Pending.of_sameView {t : TradeId} {f : Fill} {a a' : Account} (h : Pending t f a)
    (hv : SameView t a a') : Pending t f a' where
  applied := hv.applied.trans h.applied
  id := h.id
  row := hv.row.2 h.row
  reversal := fun hr => h.reversal (hv.reversal.1 hr)

/-! ### An event of the trade itself -/

section Own

variable {t : TradeId} {w : Option Fill} {a b : Account} {e : TimedEvent}

/-- Outside the window an event of the trade moves nothing, unless it is its first match. -/
theorem Shadow.own_quiet (h : Shadow t w a b) (hq : Quiet t a) (he : e.ev.tradeId = t)
    (hm : e.ev.status = .matched → t ∈ a.fills) :
    Shadow t w (a.step e) b ∧ SameView t a (a.step e) := by
  subst he
  have hcase := onTrade_cases a.proc e.ev e.now
  unfold Account.step
  generalize a.proc.onTrade e.ev e.now = out at hcase ⊢
  cases hcase with
  | idle => exact ⟨h, SameView.refl _ a⟩
  | applied hst _ hnew => exact absurd (hm hst) hnew
  | confirmed =>
    refine ⟨h.left (fun u hu _ => ?_) (fun u hu => ?_) (fun tok => ?_) rfl, ?_, ?_, ?_⟩
    · rw [Account.fills, markFillSettled_get?, if_neg hu, ite_clearInflight_db]; rfl
    · rw [Dict.get?_erase, if_neg hu]
    · rw [Account.holding, markFillSettled_position, ite_clearInflight_position]; rfl
    · rw [Dict.get?_erase, if_pos rfl, Dict.get?_eq_none_iff.2 hq.applied]
    · rw [Account.fills, mem_markFillSettled, ite_clearInflight_db]; rfl
    · rw [Account.fills, mem_markFillSettled, ite_clearInflight_db]; rfl
  | undone prior _ happ => exact absurd (Dict.mem_of_get? happ) hq.applied
  | blocked prior _ happ => exact absurd (Dict.mem_of_get? happ) hq.applied
  | undoneRow r _ _ hrow _ hnew => exact absurd (hq.reversed (Dict.mem_of_get? hrow)) hnew
  | released =>
    exact ⟨h.left (fun _ _ _ => rfl) (fun _ _ => rfl) (fun _ => rfl) rfl, rfl, Iff.rfl, Iff.rfl⟩

/-- Inside the window an event of the trade that is not terminal does nothing. -/
theorem step_own_pending {f : Fill} (hp : Pending t f a) (he : e.ev.tradeId = t)
    (hc : e.ev.status ≠ .confirmed) (hf : e.ev.status ≠ .failed) : a.step e = a := by
  subst he
  have hcase := onTrade_cases a.proc e.ev e.now
  unfold Account.step
  generalize a.proc.onTrade e.ev e.now = out at hcase ⊢
  cases hcase with
  | idle => rfl
  | applied _ _ hnew => exact absurd hp.row hnew
  | confirmed hst => exact absurd hst hc
  | undone _ hst => exact absurd hst hf
  | blocked _ hst => exact absurd hst hf
  | undoneRow _ hst => exact absurd hst hf
  | released hst => exact absurd hst hf

/-- The first match opens the window. -/
theorem Shadow.own_matched (h : Shadow t none a b) (hq : Quiet t a) (he : e.ev.tradeId = t)
    (hst : e.ev.status = .matched) (hnew : t ∉ a.fills) (hrev : reverseId t ∉ a.fills)
    (ht : ¬ IsReverse t) (hroom : 0 ≤ a.holding e.ev.tokenId + e.ev.fill.signed) :
    Shadow t (some e.ev.fill) (a.step e) b ∧ Pending t e.ev.fill (a.step e) := by
  subst he
  unfold Account.step
  rw [onTrade_eq_of_case e.now (OnTradeCase.applied hst hq.applied hnew)]
  refine ⟨⟨fun u hu hr => ?_, fun u hu => ?_, h.ids, fun tok => ?_, ?_⟩, ?_, rfl, ?_, ?_⟩
  · show (a.fills.set e.ev.tradeId e.ev.fill.row).get? u = b.fills.get? u
    rw [Dict.get?_set, if_neg hu]
    exact h.fills u hu hr
  · show (a.proc.applied.set e.ev.tradeId e.ev.fill).get? u = b.proc.applied.get? u
    rw [Dict.get?_set, if_neg hu]
    exact h.applied u hu
  · have hx : a.holding tok = b.holding tok + 0 := h.holding tok
    rw [add_zero] at hx
    show ((a.proc.store.recordFill e.ev.fill).position tok).size =
      b.holding tok + if tok = e.ev.fill.tokenId then e.ev.fill.signed else 0
    rw [recordFill_size]
    split_ifs with htok
    · rw [htok] at hx ⊢
      rw [← hx]
      exact max_eq_right hroom
    · rw [add_zero]; exact hx
  · have hc : a.risk.netCash = b.risk.netCash + 0 := h.cash
    rw [add_zero] at hc
    rw [noteFills_applied_netCash, hc]; rfl
  · show (a.proc.applied.set e.ev.tradeId e.ev.fill).get? e.ev.tradeId = some e.ev.fill
    rw [Dict.get?_set, if_pos rfl]
  · show e.ev.tradeId ∈ a.fills.set e.ev.tradeId e.ev.fill.row
    exact Dict.mem_set.2 (.inl rfl)
  · show reverseId e.ev.tradeId ∉ a.fills.set e.ev.tradeId e.ev.fill.row
    rw [Dict.mem_set, not_or]
    exact ⟨(ne_reverseId ht _).symm, hrev⟩

/-- The failure closes the window: the opposite fill takes back exactly what the match added. -/
theorem Shadow.own_failed {f : Fill} (h : Shadow t (some f) a b) (hp : Pending t f a)
    (he : e.ev.tradeId = t) (hst : e.ev.status = .failed)
    (hb : ∀ tok, 0 ≤ b.holding tok) :
    Shadow t none (a.step e) b ∧ Quiet t (a.step e) ∧ t ∈ (a.step e).fills := by
  subst he
  have hid := hp.id
  have hnew : reverseId f.tradeId ∉ a.proc.store.db.fills := by rw [hid]; exact hp.reversal
  unfold Account.step
  rw [onTrade_eq_of_case e.now (OnTradeCase.undone f hst hp.applied hnew)]
  refine ⟨⟨fun u hu hr => ?_, fun u hu => ?_, h.ids, fun tok => ?_, ?_⟩, ⟨?_, fun _ => ?_⟩, ?_⟩
  · show (a.fills.set (reverseId f.tradeId) f.reversed.row).get? u = b.fills.get? u
    rw [Dict.get?_set, hid, if_neg hr]
    exact h.fills u hu hr
  · show (a.proc.applied.erase e.ev.tradeId).get? u = b.proc.applied.get? u
    rw [Dict.get?_erase, if_neg hu]
    exact h.applied u hu
  · have hx : a.holding tok = b.holding tok + if tok = f.tokenId then f.signed else 0 :=
      h.holding tok
    show ((a.proc.store.recordFill f.reversed).position tok).size = b.holding tok + 0
    rw [recordFill_size, add_zero, Fill.reversed_tokenId, Fill.reversed_signed]
    split_ifs at hx ⊢ with htok
    · show max 0 (a.holding tok + -f.signed) = b.holding tok
      rw [hx, add_neg_cancel_right]
      exact max_eq_right (hb tok)
    · rw [add_zero] at hx; exact hx
  · have hc : a.risk.netCash = b.risk.netCash + f.cash := h.cash
    rw [noteFills_applied_netCash, Fill.reversed_cash, hc]
    simp [windowCash]
  · simp
  · show reverseId e.ev.tradeId ∈ a.fills.set (reverseId f.tradeId) f.reversed.row
    rw [hid]
    exact Dict.mem_set.2 (.inl rfl)
  · exact Dict.mem_set.2 (.inr hp.row)

end Own

/-! ### Runs -/

theorem holding_nonneg_step {a : Account} (h : ∀ tok, 0 ≤ a.holding tok) (e : TimedEvent) :
    ∀ tok, 0 ≤ (a.step e).holding tok := by
  intro tok
  show 0 ≤ ((a.proc.onTrade e.ev e.now).1.store.position tok).size
  rw [onTrade_position]
  cases a.proc.pendingFill e.ev with
  | none => exact h tok
  | some g =>
    simp only [recordFill_position]
    split_ifs
    · exact Position.apply_size_nonneg _ _
    · exact h tok

theorem holding_nonneg_run {a : Account} (h : ∀ tok, 0 ≤ a.holding tok) (es : List TimedEvent) :
    ∀ tok, 0 ≤ (Run.run Account.step a es).holding tok :=
  Run.run_of_forall_mem (P := fun a : Account => ∀ tok, 0 ≤ a.holding tok)
    (fun _ e _ h => holding_nonneg_step h e) h

/-- The run without the events of a trade. -/
def without (t : TradeId) (es : List TimedEvent) : List TimedEvent :=
  es.filter fun e => decide (e.ev.tradeId ≠ t)

@[simp] theorem without_append (t : TradeId) (es fs : List TimedEvent) :
    without t (es ++ fs) = without t es ++ without t fs := List.filter_append _ _

theorem without_cons_of_eq {t : TradeId} {e : TimedEvent} (h : e.ev.tradeId = t)
    (es : List TimedEvent) : without t (e :: es) = without t es :=
  List.filter_cons_of_neg (by simpa using h)

theorem without_cons_of_ne {t : TradeId} {e : TimedEvent} (h : e.ev.tradeId ≠ t)
    (es : List TimedEvent) : without t (e :: es) = e :: without t es :=
  List.filter_cons_of_pos (by simpa using h)

/-- A stretch outside the window. -/
theorem Shadow.run_quiet {t : TradeId} {a b : Account} (h : Shadow t none a b) (hq : Quiet t a)
    (ht : ¬ IsReverse t) {es : List TimedEvent} (hids : ∀ e ∈ es, ¬ IsReverse e.ev.tradeId)
    (hm : ∀ e ∈ es, e.ev.tradeId = t → e.ev.status = .matched → t ∈ a.fills) :
    Shadow t none (Run.run Account.step a es) (Run.run Account.step b (without t es)) ∧
      SameView t a (Run.run Account.step a es) := by
  induction es generalizing a b with
  | nil => exact ⟨h, SameView.refl t a⟩
  | cons e es ih =>
    obtain ⟨hid, hids⟩ := List.forall_mem_cons.1 hids
    obtain ⟨hme, hm⟩ := List.forall_mem_cons.1 hm
    have hstep : Shadow t none (a.step e)
        (Run.run Account.step b (without t [e])) ∧ SameView t a (a.step e) := by
      by_cases he : e.ev.tradeId = t
      · rw [without_cons_of_eq he]
        exact h.own_quiet hq he (hme he)
      · rw [without_cons_of_ne he]
        have hs : Shadow t none (a.step e) (b.step e) := h.other he hid ht fun _ hf => nomatch hf
        exact ⟨hs, sameView_of_other he hid ht fun f hf =>
          h.ids _ _ ((h.applied _ he).symm.trans hf)⟩
    obtain ⟨hs, hv⟩ := hstep
    obtain ⟨hs', hv'⟩ := ih hs (hq.of_sameView hv) hids fun e' he' h1 h2 =>
      hv.row.2 (hm e' he' h1 h2)
    have hsplit : without t (e :: es) = without t [e] ++ without t es := by
      rw [← without_append]; rfl
    rw [hsplit, Run.run_append]
    exact ⟨hs', hv'.applied.trans hv.applied, hv'.row.trans hv.row,
      hv'.reversal.trans hv.reversal⟩

/-- A stretch inside the window. -/
theorem Shadow.run_pending {t : TradeId} {f : Fill} {a b : Account} (h : Shadow t (some f) a b)
    (hp : Pending t f a) (ht : ¬ IsReverse t) {es : List TimedEvent}
    (hids : ∀ e ∈ es, ¬ IsReverse e.ev.tradeId)
    (hopen : ∀ e ∈ es, e.ev.tradeId = t → e.ev.status ≠ .confirmed ∧ e.ev.status ≠ .failed)
    (hclear : Run.EachStep Account.step (Unclamped f) a es) :
    Shadow t (some f) (Run.run Account.step a es) (Run.run Account.step b (without t es)) ∧
      Pending t f (Run.run Account.step a es) := by
  induction es generalizing a b with
  | nil => exact ⟨h, hp⟩
  | cons e es ih =>
    obtain ⟨hid, hids⟩ := List.forall_mem_cons.1 hids
    obtain ⟨hoe, hopen⟩ := List.forall_mem_cons.1 hopen
    obtain ⟨hce, hclear⟩ := Run.eachStep_cons.1 hclear
    by_cases he : e.ev.tradeId = t
    · rw [without_cons_of_eq he, Run.run_cons, step_own_pending hp he (hoe he).1 (hoe he).2]
      rw [step_own_pending hp he (hoe he).1 (hoe he).2] at hclear
      exact ih h hp hids hopen hclear
    · rw [without_cons_of_ne he, Run.run_cons, Run.run_cons]
      have hs : Shadow t (some f) (a.step e) (b.step e) :=
        h.other he hid ht fun f' hf => by cases hf; exact hce
      have hv : SameView t a (a.step e) := sameView_of_other he hid ht fun g hg =>
        h.ids _ _ ((h.applied _ he).symm.trans hg)
      exact ih hs (hp.of_sameView hv) hids hopen hclear

/-! ### The main theorem -/

/-- The run `pre ++ m :: (mid ++ x :: post)` matches the trade `t` first at `m` and fails it at `x`,
with no terminal event of it in between. -/
structure MatchedThenFailed (t : TradeId) (pre : List TimedEvent) (m : TimedEvent)
    (mid : List TimedEvent) (x : TimedEvent) : Prop where
  matched : m.ev.tradeId = t ∧ m.ev.status = .matched
  first : ∀ e ∈ pre, e.ev.tradeId = t → e.ev.status ≠ .matched
  unsettled : ∀ e ∈ mid, e.ev.tradeId = t → e.ev.status ≠ .confirmed ∧ e.ev.status ≠ .failed
  failed : x.ev.tradeId = t ∧ x.ev.status = .failed

/-- No size is cut off at zero from the match to the failure: not by the match, and not by a fill
inside the window. -/
structure WindowClear (a : Account) (m : TimedEvent) (mid : List TimedEvent) : Prop where
  room : 0 ≤ a.holding m.ev.tokenId + m.ev.fill.signed
  inside : Run.EachStep Account.step (Unclamped m.ev.fill) (a.step m) mid

/-- A process started on a database. -/
def Account.start (db : Db) (r : RiskManager) : Account := ⟨.start db, r⟩

theorem start_holding_nonneg (db : Db) (r : RiskManager) (tok : TokenId) :
    0 ≤ (Account.start db r).holding tok := by
  show 0 ≤ ((StateStore.open db).position tok).size
  rw [open_position]
  cases db.positions.get? tok with
  | none => exact le_rfl
  | some pos =>
    by_cases hpos : 0 < pos.size
    · rw [Option.filter_some_pos (by simpa using hpos)]; exact hpos.le
    · rw [Option.filter_some_neg (by simpa using hpos)]; exact le_rfl

theorem shadow_start (t : TradeId) (db : Db) (r : RiskManager) :
    Shadow t none (.start db r) (.start db r) where
  fills := fun _ _ _ => rfl
  applied := fun _ _ => rfl
  ids := fun _ _ h => nomatch h
  holding := fun _ => (add_zero _).symm
  cash := (add_zero _).symm

/-- **A failed trade leaves no trace.**  Let a run of one process match a trade that is new to the
database and later fail it without a confirmation in between.  If no size is cut off at zero from
the match to the failure, the run without the events of the trade ends with the same size of every
token and the same cash. -/
theorem no_trace (db : Db) (r : RiskManager) {t : TradeId} {pre mid post : List TimedEvent}
    {m x : TimedEvent} (hids : ∀ e ∈ pre ++ m :: (mid ++ x :: post), ¬ IsReverse e.ev.tradeId)
    (hnew : t ∉ db.fills) (hrev : reverseId t ∉ db.fills) (h : MatchedThenFailed t pre m mid x)
    (hclear : WindowClear (Run.run Account.step (.start db r) pre) m mid) :
    let a := Run.run Account.step (.start db r) (pre ++ m :: (mid ++ x :: post))
    let b := Run.run Account.step (.start db r) (without t (pre ++ m :: (mid ++ x :: post)))
    (∀ tok, a.holding tok = b.holding tok) ∧ a.risk.netCash = b.risk.netCash := by
  simp only [List.forall_mem_append, List.forall_mem_cons] at hids
  obtain ⟨hpre, hm, hmid, -, hpost⟩ := hids
  have ht : ¬ IsReverse t := by rw [← h.matched.1]; exact hm
  have hq : Quiet t (.start db r) := ⟨Dict.not_mem_empty t, fun hin => absurd hin hnew⟩
  -- before the match
  obtain ⟨h1, hv1⟩ := (shadow_start t db r).run_quiet hq ht hpre fun e he het hst =>
    absurd hst (h.first e he het)
  -- the match
  obtain ⟨h2, hp2⟩ := h1.own_matched (hq.of_sameView hv1) h.matched.1 h.matched.2
    (mt hv1.row.1 hnew) (mt hv1.reversal.1 hrev) ht hclear.room
  -- inside the window
  obtain ⟨h3, hp3⟩ := h2.run_pending hp2 ht hmid h.unsettled hclear.inside
  -- the failure, and what follows it
  have hb := holding_nonneg_run (holding_nonneg_run (start_holding_nonneg db r) (without t pre))
    (without t mid)
  obtain ⟨h4, hq4, hrow4⟩ := h3.own_failed hp3 h.failed.1 h.failed.2 hb
  obtain ⟨h5, -⟩ := h4.run_quiet hq4 ht hpost fun _ _ _ _ => hrow4
  rw [without_append, without_cons_of_eq h.matched.1, without_append,
    without_cons_of_eq h.failed.1]
  simp only [Run.run_append, Run.run_cons]
  exact ⟨fun tok => by simpa [windowShift] using h5.holding tok,
    by simpa [windowCash] using h5.cash⟩

/-- A purchase of 100 fails after another trade sold 30 of the shares: the run without it ends with
the same 20 shares and the same cash. -/
theorem no_trace_of_failed_buy :
    let ev : TradeId → Side → ℚ → TradeState → TimedEvent := fun t side size st =>
      ⟨⟨"k", side, 1 / 2, size, t, st, 0⟩, 0⟩
    let es := [ev "u" .buy 50 .matched, ev "t" .buy 100 .matched, ev "v" .sell 30 .matched,
      ev "t" .buy 100 .failed]
    let a := Run.run Account.step (.start .fresh (.new {})) es
    let b := Run.run Account.step (.start .fresh (.new {})) (without "t" es)
    a.holding "k" = 20 ∧ a.holding "k" = b.holding "k" ∧ a.risk.netCash = b.risk.netCash := by
  intro ev es a b
  have hclear : WindowClear
      (Run.run Account.step (.start .fresh (.new {})) [ev "u" .buy 50 .matched])
      (ev "t" .buy 100 .matched) [ev "v" .sell 30 .matched] := by
    refine ⟨by decide +kernel, ?_⟩
    simp only [Run.eachStep_cons, Run.eachStep_nil, and_true]
    decide +kernel
  have h : MatchedThenFailed "t" [ev "u" .buy 50 .matched] (ev "t" .buy 100 .matched)
      [ev "v" .sell 30 .matched] (ev "t" .buy 100 .failed) :=
    ⟨⟨rfl, rfl⟩, by decide, by decide, ⟨rfl, rfl⟩⟩
  have hids : ∀ e ∈ [ev "u" .buy 50 .matched] ++ ev "t" .buy 100 .matched ::
      ([ev "v" .sell 30 .matched] ++ ev "t" .buy 100 .failed :: []),
      ¬ IsReverse e.ev.tradeId := by decide
  have hmain := no_trace .fresh (.new {}) hids (by decide) (by decide) h hclear
  exact ⟨by decide +kernel, hmain.1 "k", hmain.2⟩

/-- A sale of 100 against a holding of 50 is cut off at zero when it is matched; its failure then
adds 100 shares, where the run without it holds the 50. -/
theorem trace_of_failed_oversell :
    let ev : TradeId → Side → ℚ → TradeState → TimedEvent := fun t side size st =>
      ⟨⟨"k", side, 1 / 2, size, t, st, 0⟩, 0⟩
    let es := [ev "u" .buy 50 .matched, ev "t" .sell 100 .matched, ev "t" .sell 100 .failed]
    (Run.run Account.step (.start .fresh (.new {})) es).holding "k" = 100 ∧
      (Run.run Account.step (.start .fresh (.new {})) (without "t" es)).holding "k" = 50 := by
  decide +kernel

end Polymaker
