import Polymaker.Engine.Recompute
import Polymaker.Lib.Run

/-!
# Custody of live orders

Every gateway call of a recompute may succeed, fail, or fail after taking effect.  `Fate` says what
the exchange did, and the calls a recompute makes are replayed on the exchange's live orders.

* `Turn`, `Desk`: one recompute with its answers and the exchange's side of it, and the two sides
  together;
* `NeverForgotten`: an order that was tracked or returned by the placement, and that is live
  afterwards, is tracked afterwards, unless a successful read omitted it;
* `Abandoned`: an order that the quarantine drops although it outlives the cancel of its token, and
  that no read brings back;
* `never_forgotten_step_iff`, `never_forgotten_iff`: nothing is forgotten if and only if nothing is
  abandoned, in one recompute and along a run.
-/

namespace Polymaker

open Engine

/-- The exchange's side of one recompute: the orders that calls which failed removed all the same,
the orders the placement made live, the tokens whose `cancel_asset` succeeded, and the orders that
left on their own. -/
structure Fate where
  applied : List OrderId
  posted : List OrderId
  assetOk : TokenId → Bool
  left : List OrderId

/-- One recompute, with everything it meets. -/
structure Turn where
  cid : ConditionId
  obs : Observation
  ans : Answers
  fate : Fate

/-- The engine, and the orders live on the exchange. -/
structure Desk where
  engine : Engine
  live : List OrderId

/-- What the recompute of a turn comes to. -/
def Turn.pass (t : Turn) (e : Engine) : Pass := e.recompute t.cid t.obs t.ans

section Custody

variable (tokenOf : OrderId → TokenId)

/-- The live orders after one call.  An acknowledged cancel removed its orders. -/
def Turn.afterCall (t : Turn) (live : List OrderId) : GatewayCall → List OrderId
  | .cancel ids => live.filter fun i =>
      decide (¬ (i ∈ ids ∧ (t.ans.cancelOk = true ∨ i ∈ t.fate.applied)))
  | .place _ => live ++ t.fate.posted
  | .cancelAsset tok => live.filter fun i =>
      decide (¬ (tokenOf i = tok ∧ (t.fate.assetOk tok = true ∨ i ∈ t.fate.applied)))
  | .openOrders => live

/-- The live orders after a list of calls. -/
def Turn.afterCalls (t : Turn) (live : List OrderId) (calls : List GatewayCall) : List OrderId :=
  (calls.foldl (t.afterCall tokenOf) live).filter fun i => decide (i ∉ t.fate.left)

/-- One turn. -/
def Desk.step (k : Desk) (t : Turn) : Desk :=
  ⟨(t.pass k.engine).engine, t.afterCalls tokenOf k.live (t.pass k.engine).calls⟩

/-- The order is missing from a read that succeeded. -/
def OmittedByRead (t : Turn) (calls : List GatewayCall) (i : OrderId) : Prop :=
  .openOrders ∈ calls ∧ ∃ snapshot, t.ans.openOrders = some snapshot ∧
    i ∉ snapshot.map OpenOrder.orderId

/-- The guarantee of one turn. -/
def NeverForgotten (k : Desk) (t : Turn) : Prop :=
  ∀ i ∈ (k.step tokenOf t).live,
    i ∈ k.engine.store.orders ∨ i ∈ (t.pass k.engine).returned.map OpenOrder.orderId →
    i ∈ (k.step tokenOf t).engine.store.orders ∨ OmittedByRead t (t.pass k.engine).calls i

/-- Every order is stored under its id, with the token it has on the exchange. -/
structure Custodial (s : StateStore) : Prop where
  keyed : s.Keyed
  token : ∀ i o, s.orders.get? i = some o → o.tokenId = tokenOf i

/-- The orders the gateway reports have the token they have on the exchange, and what a placement
makes live is new. -/
structure AnswersMatch (k : Desk) (t : Turn) : Prop where
  returned : ∀ o ∈ (t.pass k.engine).returned, o.tokenId = tokenOf o.orderId
  read : ∀ snapshot, t.ans.openOrders = some snapshot →
    ∀ o ∈ snapshot, o.tokenId = tokenOf o.orderId
  posted : ∀ i ∈ t.fate.posted, i ∉ k.engine.store.orders

/-- A turn abandons an order: its placement comes back short, the read that follows the quarantine
fails, and the order, tracked or returned for a token of the market, is live and outlives the
failed cancel of its token. -/
structure Abandoned (k : Desk) (t : Turn) (i : OrderId) : Prop where
  exists_short : ∃ m d, k.engine.markets.get? t.cid = some m ∧
    k.engine.decision? t.cid t.obs = some d ∧
    (d.plan.toCancel = [] ∨ t.ans.cancelOk = true) ∧
    (k.engine.placed d t.obs t.ans).length < (d.issued t.obs).length ∧
    tokenOf i ∈ m.info.tokens ∧
    ((i ∈ k.engine.store.orders ∧ i ∉ d.plan.toCancel) ∨
      i ∈ (k.engine.placed d t.obs t.ans).map OpenOrder.orderId) ∧
    ((i ∈ k.live ∧ i ∉ d.plan.toCancel) ∨ i ∈ t.fate.posted)
  unread : t.ans.openOrders = none
  survives : t.fate.assetOk (tokenOf i) = false ∧ i ∉ t.fate.applied
  stays : i ∉ t.fate.left

variable {tokenOf}

/-! ### Resync and quarantine -/

theorem custodial_open (db : Db) : Custodial tokenOf (StateStore.open db) :=
  ⟨keyed_open db, fun i o h => by simp [StateStore.open] at h⟩

theorem Custodial.replaceOpenOrders {s : StateStore} (h : Custodial tokenOf s) (tok : TokenId)
    {live : List OpenOrder} (hlive : ∀ o ∈ live, o.tokenId = tokenOf o.orderId) (graceS now : ℚ) :
    Custodial tokenOf (s.replaceOpenOrders tok live graceS now) := by
  refine ⟨h.keyed.replaceOpenOrders tok live graceS now, fun i o ho => ?_⟩
  rcases mem_or_get?_of_replaceOpenOrders ho with ⟨hmem, rfl⟩ | hold
  · exact hlive o hmem
  · exact h.token i o hold

theorem Custodial.refreshTokenOrders {s : StateStore} (h : Custodial tokenOf s) (m : MarketMeta)
    {read : Option (List OpenOrder)}
    (hread : ∀ snapshot, read = some snapshot → ∀ o ∈ snapshot, o.tokenId = tokenOf o.orderId)
    (graceS now : ℚ) : Custodial tokenOf (refreshTokenOrders s m read graceS now) := by
  cases read with
  | none => exact h
  | some snapshot =>
    have hlive : ∀ tok, ∀ o ∈ snapshot.filter (fun o => decide (o.tokenId = tok)),
        o.tokenId = tokenOf o.orderId := fun tok o ho =>
      hread snapshot rfl o (List.mem_filter.1 ho).1
    exact (h.replaceOpenOrders m.yes (hlive m.yes) graceS now).replaceOpenOrders m.no
      (hlive m.no) graceS now

/-- An order a snapshot lists is tracked after one token of it, where it was before or is of that
token. -/
theorem mem_replaceOpenOrders_of_listed {s : StateStore} (h : Custodial tokenOf s) (tok : TokenId)
    {snapshot : List OpenOrder} (hsnap : ∀ o ∈ snapshot, o.tokenId = tokenOf o.orderId)
    (graceS now : ℚ) {i : OrderId} (hi : i ∈ snapshot.map OpenOrder.orderId)
    (hor : i ∈ s.orders ∨ tokenOf i = tok) :
    i ∈ (s.replaceOpenOrders tok (snapshot.filter fun o => decide (o.tokenId = tok)) graceS
      now).orders := by
  obtain ⟨o', -, -, hsome⟩ | ⟨hnot, hfilter⟩ := replaceOpenOrders_get? s tok
    (snapshot.filter fun o => decide (o.tokenId = tok)) graceS now i
  · exact Dict.mem_of_get? hsome
  · -- it is not listed for this token, so it is of another one
    obtain ⟨o', ho', hid⟩ := List.mem_map.1 hi
    have hother : tokenOf i ≠ tok := by
      intro heq
      refine hnot (List.mem_map.2 ⟨o', List.mem_filter.2 ⟨ho', decide_eq_true ?_⟩, hid⟩)
      rw [hsnap o' ho', hid, heq]
    obtain ⟨o, ho⟩ := Dict.exists_get?_of_mem (hor.resolve_right hother)
    refine Dict.mem_of_get? (v := o) ?_
    rw [hfilter, ho]
    refine Option.filter_some_pos (decide_eq_true (.inl ?_))
    rw [h.token i o ho]
    exact hother

/-- A resync keeps what the snapshot lists, and brings back what it lists for the market. -/
theorem mem_refreshTokenOrders_of_listed {s : StateStore} (h : Custodial tokenOf s)
    (m : MarketMeta) {snapshot : List OpenOrder}
    (hsnap : ∀ o ∈ snapshot, o.tokenId = tokenOf o.orderId) (graceS now : ℚ) {i : OrderId}
    (hi : i ∈ snapshot.map OpenOrder.orderId)
    (hor : i ∈ s.orders ∨ tokenOf i ∈ m.tokens) :
    i ∈ (refreshTokenOrders s m (some snapshot) graceS now).orders := by
  have hyes : Custodial tokenOf (s.replaceOpenOrders m.yes
      (snapshot.filter fun o => decide (o.tokenId = m.yes)) graceS now) :=
    h.replaceOpenOrders m.yes (fun o ho => hsnap o (List.mem_filter.1 ho).1) graceS now
  refine mem_replaceOpenOrders_of_listed hyes m.no hsnap graceS now hi ?_
  simp only [MarketMeta.tokens, List.mem_cons, List.not_mem_nil, or_false] at hor
  rcases hor with hin | htok | htok
  · exact .inl (mem_replaceOpenOrders_of_listed h m.yes hsnap graceS now hi (.inl hin))
  · exact .inl (mem_replaceOpenOrders_of_listed h m.yes hsnap graceS now hi (.inr htok))
  · exact .inr htok

theorem Custodial.foldl_removeOrder {s : StateStore} (h : Custodial tokenOf s)
    (ids : List OrderId) : Custodial tokenOf (ids.foldl StateStore.removeOrder s) := by
  refine ⟨h.keyed.foldl_removeOrder ids, fun i o ho => ?_⟩
  rw [foldl_removeOrder_get?] at ho
  split_ifs at ho
  exact h.token i o ho

theorem Custodial.upsertOrder {s : StateStore} (h : Custodial tokenOf s) {o : OpenOrder}
    (hl : o.state = .live) (htok : o.tokenId = tokenOf o.orderId) :
    Custodial tokenOf (s.upsertOrder o) := by
  refine ⟨h.keyed.upsertOrder o, fun i o' hget => ?_⟩
  rw [upsertOrder_of_live s hl] at hget
  simp only [Dict.get?_set] at hget
  split_ifs at hget with hi
  · rw [← Option.some.inj hget, htok, hi]
  · exact h.token i o' hget

theorem Custodial.foldl_upsertOrder {s : StateStore} (h : Custodial tokenOf s)
    {orders : List OpenOrder} (hl : ∀ o ∈ orders, o.state = .live)
    (htok : ∀ o ∈ orders, o.tokenId = tokenOf o.orderId) :
    Custodial tokenOf (orders.foldl StateStore.upsertOrder s) := by
  induction orders generalizing s with
  | nil => exact h
  | cons o orders ih =>
    obtain ⟨ho, hl⟩ := List.forall_mem_cons.1 hl
    obtain ⟨hto, htok⟩ := List.forall_mem_cons.1 htok
    exact ih (h.upsertOrder ho hto) hl htok

theorem mem_dropToken {s : StateStore} (h : Custodial tokenOf s) (tok : TokenId) {i : OrderId} :
    i ∈ (dropToken s tok).orders ↔ i ∈ s.orders ∧ tokenOf i ≠ tok := by
  unfold dropToken
  rw [mem_foldl_removeOrder, and_comm]
  refine and_congr_right fun hin => not_congr ?_
  obtain ⟨o, ho⟩ := Dict.exists_get?_of_mem hin
  constructor
  · intro hmem
    obtain ⟨o', ho', rfl⟩ := List.mem_map.1 hmem
    rw [← h.token _ _ (h.keyed.get?_of_mem ho'), (mem_ordersFor.1 ho').2]
  · intro htok
    refine List.mem_map.2 ⟨o, mem_ordersFor.2 ⟨⟨i, ho⟩, ?_⟩, h.keyed i o ho⟩
    rw [h.token i o ho, htok]

theorem Custodial.dropToken {s : StateStore} (h : Custodial tokenOf s) (tok : TokenId) :
    Custodial tokenOf (dropToken s tok) := h.foldl_removeOrder _

/-- The quarantine drops exactly the orders of the market. -/
theorem mem_dropTokens {s : StateStore} (h : Custodial tokenOf s) (m : MarketMeta) {i : OrderId} :
    i ∈ (m.tokens.foldl Polymaker.dropToken s).orders ↔
      i ∈ s.orders ∧ tokenOf i ∉ m.tokens := by
  show i ∈ (Polymaker.dropToken (Polymaker.dropToken s m.yes) m.no).orders ↔ _
  rw [mem_dropToken (h.dropToken m.yes), mem_dropToken h]
  simp only [MarketMeta.tokens, List.mem_cons, List.not_mem_nil, or_false, not_or, and_assoc,
    ne_eq]

theorem Custodial.dropTokens {s : StateStore} (h : Custodial tokenOf s) (m : MarketMeta) :
    Custodial tokenOf (m.tokens.foldl Polymaker.dropToken s) :=
  (h.dropToken m.yes).dropToken m.no

/-- The quarantine drops every order of the market, and the read that follows brings back what it
lists. -/
theorem mem_quarantine_or_omitted {s : StateStore} (h : Custodial tokenOf s) (m : MarketMeta)
    {read : Option (List OpenOrder)} (now : ℚ)
    (hread : ∀ snapshot, read = some snapshot → ∀ o ∈ snapshot, o.tokenId = tokenOf o.orderId)
    {i : OrderId} (hi : i ∈ s.orders) :
    i ∈ (quarantine s m read now).orders ∨
      (∃ snapshot, read = some snapshot ∧ i ∉ snapshot.map OpenOrder.orderId) ∨
      (read = none ∧ tokenOf i ∈ m.tokens) := by
  unfold quarantine
  cases read with
  | none =>
    by_cases htok : tokenOf i ∈ m.tokens
    · exact .inr (.inr ⟨rfl, htok⟩)
    · exact .inl ((mem_dropTokens h m).2 ⟨hi, htok⟩)
  | some snapshot =>
    by_cases hlisted : i ∈ snapshot.map OpenOrder.orderId
    · left
      refine mem_refreshTokenOrders_of_listed (h.dropTokens m) m (hread snapshot rfl) 0 now
        hlisted ?_
      rw [mem_dropTokens h]
      exact or_iff_not_imp_right.2 fun htok => ⟨hi, htok⟩
    · exact .inr (.inl ⟨snapshot, rfl, hlisted⟩)

theorem not_mem_quarantine_of_unread {s : StateStore} (h : Custodial tokenOf s) (m : MarketMeta)
    (now : ℚ) {i : OrderId} (htok : tokenOf i ∈ m.tokens) :
    i ∉ (quarantine s m none now).orders := fun hin =>
  ((mem_dropTokens h m).1 hin).2 htok

/-! ### The live orders after the calls -/

theorem mem_afterCancels {d : Decision} {t : Turn} {calls : List GatewayCall}
    (h : CancelDone d t.ans calls) (live : List OrderId) {i : OrderId} :
    i ∈ calls.foldl (t.afterCall tokenOf) live ↔ i ∈ live ∧ i ∉ d.plan.toCancel := by
  cases h with
  | needless hnil => simp [hnil]
  | acknowledged hok =>
    rw [List.foldl_cons, List.foldl_nil, Turn.afterCall, List.mem_filter, decide_eq_true_eq, hok]
    simp

/-- After a quarantine: what stayed or was posted, without what the two cancels removed. -/
theorem mem_afterCalls_quarantine {d : Decision} {t : Turn} {calls : List GatewayCall}
    (h : CancelDone d t.ans calls) (m : MarketMeta) (quotes : List Quote) (live : List OrderId)
    {i : OrderId} :
    i ∈ t.afterCalls tokenOf live (calls ++ .place quotes :: quarantineCalls m) ↔
      ((i ∈ live ∧ i ∉ d.plan.toCancel) ∨ i ∈ t.fate.posted) ∧
        (¬ (tokenOf i = m.yes ∧ (t.fate.assetOk m.yes = true ∨ i ∈ t.fate.applied)) ∧
          ¬ (tokenOf i = m.no ∧ (t.fate.assetOk m.no = true ∨ i ∈ t.fate.applied))) ∧
        i ∉ t.fate.left := by
  have hcalls : calls ++ .place quotes :: quarantineCalls m =
      calls ++ [.place quotes, .cancelAsset m.yes, .cancelAsset m.no, .openOrders] := rfl
  rw [hcalls, Turn.afterCalls, List.foldl_append]
  simp only [List.foldl_cons, List.foldl_nil, Turn.afterCall, List.mem_filter, List.mem_append,
    decide_eq_true_eq, mem_afterCancels h]
  rw [and_assoc, and_assoc, and_assoc]

/-- For an order of the market, they remove what the cancel of its own token removes. -/
theorem outlives_iff {t : Turn} {m : MarketMeta} {i : OrderId} (htok : tokenOf i ∈ m.tokens) :
    (¬ (tokenOf i = m.yes ∧ (t.fate.assetOk m.yes = true ∨ i ∈ t.fate.applied)) ∧
      ¬ (tokenOf i = m.no ∧ (t.fate.assetOk m.no = true ∨ i ∈ t.fate.applied))) ↔
      t.fate.assetOk (tokenOf i) = false ∧ i ∉ t.fate.applied := by
  have hcut : t.fate.assetOk (tokenOf i) = false ∧ i ∉ t.fate.applied ↔
      ¬ (t.fate.assetOk (tokenOf i) = true ∨ i ∈ t.fate.applied) := by
    rw [not_or, Bool.not_eq_true]
  rw [hcut]
  simp only [MarketMeta.tokens, List.mem_cons, List.not_mem_nil, or_false] at htok
  constructor
  · rintro ⟨hyes, hno⟩ hout
    rcases htok with heq | heq
    · exact hyes ⟨heq, heq ▸ hout⟩
    · exact hno ⟨heq, heq ▸ hout⟩
  · intro hout
    exact ⟨fun h => hout (h.1 ▸ h.2), fun h => hout (h.1 ▸ h.2)⟩

/-! ### One turn -/

variable {k : Desk} {t : Turn}

/-- The tracked orders before the placement's quarantine. -/
theorem custodial_beforeQuarantine (hk : Custodial tokenOf k.engine.store) {d : Decision}
    (hret : ∀ o ∈ k.engine.placed d t.obs t.ans, o.tokenId = tokenOf o.orderId) :
    Custodial tokenOf ((k.engine.placed d t.obs t.ans).foldl StateStore.upsertOrder
      (d.plan.toCancel.foldl StateStore.removeOrder k.engine.store)) :=
  (hk.foldl_removeOrder _).foldl_upsertOrder (fun _ ho => state_of_mem_place ho) hret

theorem mem_beforeQuarantine {d : Decision} {i : OrderId} :
    i ∈ ((k.engine.placed d t.obs t.ans).foldl StateStore.upsertOrder
      (d.plan.toCancel.foldl StateStore.removeOrder k.engine.store)).orders ↔
      i ∈ (k.engine.placed d t.obs t.ans).map OpenOrder.orderId ∨
        (i ∉ d.plan.toCancel ∧ i ∈ k.engine.store.orders) := by
  have hl : ∀ o ∈ k.engine.placed d t.obs t.ans, o.state = .live := fun _ ho =>
    state_of_mem_place ho
  rw [mem_foldl_upsertOrder hl, mem_foldl_removeOrder]

/-- A turn that abandons nothing forgets nothing. -/
theorem neverForgotten_of_not_abandoned (hk : Custodial tokenOf k.engine.store)
    (hans : AnswersMatch tokenOf k t) (hnone : ∀ i, ¬ Abandoned tokenOf k t i) :
    NeverForgotten tokenOf k t := by
  intro i hlive htracked
  have hcase := recompute_cases k.engine t.cid t.obs t.ans
  obtain ⟨hret, hread, hnew⟩ := hans
  simp only [Desk.step, Turn.pass] at hlive htracked hret ⊢
  generalize (k.engine.recompute t.cid t.obs t.ans).engine.store = s at hcase ⊢
  generalize (k.engine.recompute t.cid t.obs t.ans).calls = calls at hcase hlive ⊢
  generalize (k.engine.recompute t.cid t.obs t.ans).returned = returned at hcase htracked hret
  have hleft : i ∉ t.fate.left := of_decide_eq_true (List.mem_filter.1 hlive).2
  have hlive' := (List.mem_filter.1 hlive).1
  cases hcase with
  | idle => exact .inl (by simpa using htracked)
  | pullFailed => exact .inl (by simpa using htracked)
  | pulled m hm hd hok =>
    -- an acknowledged cancel removed what is dropped
    refine .inl (mem_foldl_removeOrder.2 ⟨fun hin => ?_, by simpa using htracked⟩)
    rw [List.foldl_cons, List.foldl_nil, Turn.afterCall, List.mem_filter, decide_eq_true_eq]
      at hlive'
    exact hlive'.2 ⟨hin, .inl hok⟩
  | cancelFailed m d hm hd hok hcancel =>
    have hin : i ∈ k.engine.store.orders := by simpa using htracked
    cases hsnap : t.ans.openOrders with
    | none => exact .inl hin
    | some snapshot =>
      by_cases hlisted : i ∈ snapshot.map OpenOrder.orderId
      · exact .inl (mem_refreshTokenOrders_of_listed hk m.info (hread snapshot hsnap) 10 t.obs.now
          hlisted (.inl hin))
      · exact .inr ⟨by simp, snapshot, hsnap, hlisted⟩
  | cancelled m d calls hm hd hcalls hnil =>
    rw [mem_afterCancels hcalls] at hlive'
    exact .inl (mem_foldl_removeOrder.2 ⟨hlive'.2, by simpa using htracked⟩)
  | complete m d calls hm hd hcalls hsome hall =>
    rw [List.foldl_append, List.foldl_cons, List.foldl_nil, Turn.afterCall, List.mem_append,
      mem_afterCancels hcalls] at hlive'
    refine .inl (mem_beforeQuarantine.2 ?_)
    rcases htracked with hin | hin
    · rcases hlive' with ⟨-, hkept⟩ | hposted
      · exact .inr ⟨hkept, hin⟩
      · exact absurd hin (hnew i hposted)
    · exact .inl hin
  | quarantined m d calls hm hd hcalls hshort =>
    obtain ⟨hpresent, hout, -⟩ := (mem_afterCalls_quarantine hcalls ..).1 hlive
    have hbefore : i ∈ (k.engine.placed d t.obs t.ans).map OpenOrder.orderId ∨
        (i ∉ d.plan.toCancel ∧ i ∈ k.engine.store.orders) := by
      rcases htracked with hin | hin
      · rcases hpresent with ⟨-, hkept⟩ | hposted
        · exact .inr ⟨hkept, hin⟩
        · exact absurd hin (hnew i hposted)
      · exact .inl hin
    obtain hin | ⟨snapshot, hsnap, hnot⟩ | ⟨hunread, htok⟩ :=
      mem_quarantine_or_omitted (custodial_beforeQuarantine hk hret) m.info t.obs.now hread
        (mem_beforeQuarantine.2 hbefore)
    · exact .inl hin
    · exact .inr ⟨by simp [quarantineCalls], snapshot, hsnap, hnot⟩
    · refine absurd ⟨⟨m, d, hm, hd, ?_, hshort, htok, ?_, hpresent⟩, hunread,
        (outlives_iff htok).1 hout, hleft⟩ (hnone i)
      · cases hcalls with
        | needless hnil => exact .inl hnil
        | acknowledged hok => exact .inr hok
      · exact hbefore.symm.imp_left And.symm

/-- A turn that abandons an order forgets it. -/
theorem not_neverForgotten_of_abandoned (hk : Custodial tokenOf k.engine.store)
    (hans : AnswersMatch tokenOf k t) {i : OrderId} (h : Abandoned tokenOf k t i) :
    ¬ NeverForgotten tokenOf k t := by
  obtain ⟨⟨m, d, hm, hd, hcancel, hshort, htok, htracked, hpresent⟩, hunread, hout, hleft⟩ := h
  intro hnever
  have hnever := hnever i
  have hcase := recompute_cases k.engine t.cid t.obs t.ans
  obtain ⟨hret, hread, hnew⟩ := hans
  simp only [Desk.step, Turn.pass] at hnever hret
  generalize (k.engine.recompute t.cid t.obs t.ans).engine.store = s at hcase hnever
  generalize (k.engine.recompute t.cid t.obs t.ans).calls = calls at hcase hnever
  generalize (k.engine.recompute t.cid t.obs t.ans).returned = returned at hcase hnever hret
  -- the decision and the short placement leave one case
  cases hcase with
  | idle hnone => rw [hd] at hnone; cases hnone
  | pulled m' hm' hnone => rw [hd] at hnone; cases hnone
  | pullFailed m' hm' hnone => rw [hd] at hnone; cases hnone
  | cancelFailed m' d' hm' hd' hok hne =>
    rw [hd] at hd'
    obtain rfl := Option.some.inj hd'
    rcases hcancel with hnil | hok'
    · exact hne hnil
    · rw [hok] at hok'; cases hok'
  | cancelled m' d' calls hm' hd' hcalls hnil =>
    rw [hd] at hd'
    obtain rfl := Option.some.inj hd'
    rw [hnil] at hshort
    exact Nat.not_lt_zero _ hshort
  | complete m' d' calls hm' hd' hcalls hsome hall =>
    rw [hd] at hd'
    obtain rfl := Option.some.inj hd'
    omega
  | quarantined m' d' calls hm' hd' hcalls hshort' =>
    rw [hm] at hm'
    rw [hd] at hd'
    obtain rfl := Option.some.inj hm'
    obtain rfl := Option.some.inj hd'
    have hlive := (mem_afterCalls_quarantine hcalls m.info (d.issued t.obs) k.live).2
      ⟨hpresent, (outlives_iff htok).2 hout, hleft⟩
    rcases hnever hlive (htracked.imp_left And.left) with hin | ⟨-, snapshot, hsnap, -⟩
    · rw [hunread] at hin
      exact not_mem_quarantine_of_unread (custodial_beforeQuarantine hk hret) m.info t.obs.now
        htok hin
    · rw [hunread] at hsnap
      cases hsnap

/-- **One recompute forgets nothing if and only if it abandons nothing.** -/
theorem never_forgotten_step_iff (hk : Custodial tokenOf k.engine.store)
    (hans : AnswersMatch tokenOf k t) :
    NeverForgotten tokenOf k t ↔ ∀ i, ¬ Abandoned tokenOf k t i :=
  ⟨fun hnever _ h => not_neverForgotten_of_abandoned hk hans h hnever,
    neverForgotten_of_not_abandoned hk hans⟩

/-! ### Runs -/

theorem Custodial.quarantine {s : StateStore} (h : Custodial tokenOf s) (m : MarketMeta)
    {read : Option (List OpenOrder)} (now : ℚ)
    (hread : ∀ snapshot, read = some snapshot → ∀ o ∈ snapshot, o.tokenId = tokenOf o.orderId) :
    Custodial tokenOf (quarantine s m read now) :=
  (h.dropTokens m).refreshTokenOrders m hread 0 now

/-- A turn keeps the books of orders matching. -/
theorem custodial_step (hk : Custodial tokenOf k.engine.store) (hans : AnswersMatch tokenOf k t) :
    Custodial tokenOf (k.step tokenOf t).engine.store := by
  have hcase := recompute_cases k.engine t.cid t.obs t.ans
  obtain ⟨hret, hread, -⟩ := hans
  simp only [Desk.step, Turn.pass] at hret ⊢
  generalize (k.engine.recompute t.cid t.obs t.ans).engine.store = s at hcase ⊢
  generalize (k.engine.recompute t.cid t.obs t.ans).calls = calls at hcase
  generalize (k.engine.recompute t.cid t.obs t.ans).returned = returned at hcase hret
  cases hcase with
  | idle => exact hk
  | pulled => exact hk.foldl_removeOrder _
  | pullFailed => exact hk
  | cancelFailed m => exact hk.refreshTokenOrders m.info hread 10 t.obs.now
  | cancelled => exact hk.foldl_removeOrder _
  | complete => exact custodial_beforeQuarantine hk hret
  | quarantined m =>
    exact (custodial_beforeQuarantine hk hret).quarantine m.info t.obs.now hread

/-- **When no live order is forgotten.**  Along every run of recomputes, of any markets and with
any answers, from a local state that matches the exchange, every recompute forgets nothing if and
only if no recompute abandons an order. -/
theorem never_forgotten_iff (tokenOf : OrderId → TokenId) (k : Desk) (ts : List Turn)
    (hk : Custodial tokenOf k.engine.store)
    (hans : Run.EachStep (Desk.step tokenOf) (AnswersMatch tokenOf) k ts) :
    Run.EachStep (Desk.step tokenOf) (NeverForgotten tokenOf) k ts ↔
      Run.EachStep (Desk.step tokenOf) (fun k t => ∀ i, ¬ Abandoned tokenOf k t i) k ts :=
  Run.eachStep_iff_of_valid (I := fun k : Desk => Custodial tokenOf k.engine.store)
    (fun _ _ => custodial_step) (fun _ _ => never_forgotten_step_iff) hk hans

/-- A market with one order resting, a placement that raises and a resync that succeeds: the run
forgets nothing. -/
theorem never_forgotten_of_read :
    let m : MarketMeta := ⟨"c", "yes", "no", 1 / 100, 5, 0, 0, none, none⟩
    let o : OpenOrder := ⟨"o1", "yes", .buy, 48 / 100, 10417 / 100, .live, 0⟩
    let book := OrderBook.ofTouch (48 / 100) (52 / 100) 100
    let e : Engine := ⟨{}, Dict.empty.set "c" { info := m, profile := {} },
      (StateStore.open .fresh).upsertOrder o, .new {}, Dict.empty⟩
    let obs : Observation :=
      ⟨100, some book, some book, 0, 0, 0, 0, false, false, false, false, 0⟩
    let t : Turn := ⟨"c", obs, ⟨true, none, some [o]⟩, ⟨[], [], fun _ => false, []⟩⟩
    Run.EachStep (Desk.step fun _ => "yes") (NeverForgotten fun _ => "yes") ⟨e, ["o1"]⟩ [t] := by
  intro m o book e obs t
  have hk : Custodial (fun _ => "yes") e.store := by
    show Custodial (fun _ => "yes") ((StateStore.open .fresh).upsertOrder o)
    exact (custodial_open .fresh).upsertOrder rfl rfl
  have hreturned : (t.pass e).returned = [] := by decide +kernel
  have hans : AnswersMatch (fun _ => "yes") ⟨e, ["o1"]⟩ t := by
    refine ⟨by rw [hreturned]; simp, ?_, by simp [t]⟩
    rintro snapshot hsnap o' ho'
    obtain rfl := Option.some.inj hsnap
    rw [List.mem_singleton.1 ho']
  refine (never_forgotten_iff _ ⟨e, ["o1"]⟩ [t] hk ?_).2 ?_
  · exact Run.eachStep_cons.2 ⟨hans, Run.eachStep_nil⟩
  · exact Run.eachStep_cons.2 ⟨fun i h => absurd h.unread (by simp [t]), Run.eachStep_nil⟩

/-- The same market, with the cancel of its tokens and the read failing as well: the resting order
is live on the exchange and is tracked no more. -/
theorem forgotten_of_failed_quarantine :
    let m : MarketMeta := ⟨"c", "yes", "no", 1 / 100, 5, 0, 0, none, none⟩
    let o : OpenOrder := ⟨"o1", "yes", .buy, 48 / 100, 10417 / 100, .live, 0⟩
    let book := OrderBook.ofTouch (48 / 100) (52 / 100) 100
    let e : Engine := ⟨{}, Dict.empty.set "c" { info := m, profile := { layers := 1 } },
      (StateStore.open .fresh).upsertOrder o, .new {}, Dict.empty⟩
    let obs : Observation :=
      ⟨100, some book, some book, 0, 0, 0, 0, false, false, false, false, 0⟩
    let t : Turn := ⟨"c", obs, ⟨true, none, none⟩, ⟨[], [], fun _ => false, []⟩⟩
    let k : Desk := ⟨e, ["o1"]⟩
    Custodial (fun _ => "yes") e.store ∧ AnswersMatch (fun _ => "yes") k t ∧
      "o1" ∈ e.store.orders ∧ "o1" ∈ (k.step (fun _ => "yes") t).live ∧
      "o1" ∉ (k.step (fun _ => "yes") t).engine.store.orders ∧
      ¬ NeverForgotten (fun _ => "yes") k t := by
  intro m o book e obs t k
  have hk : Custodial (fun _ => "yes") e.store := by
    show Custodial (fun _ => "yes") ((StateStore.open .fresh).upsertOrder o)
    exact (custodial_open .fresh).upsertOrder rfl rfl
  have hreturned : (t.pass e).returned = [] := by decide +kernel
  have hin : "o1" ∈ e.store.orders := by decide +kernel
  have hlive : "o1" ∈ (k.step (fun _ => "yes") t).live := by decide +kernel
  have hgone : "o1" ∉ (k.step (fun _ => "yes") t).engine.store.orders := by decide +kernel
  refine ⟨hk, ⟨by rw [hreturned]; simp, by simp [t], by simp [t]⟩, hin, hlive, hgone, fun h => ?_⟩
  rcases h "o1" hlive (.inl hin) with hback | ⟨-, snapshot, hsnap, -⟩
  · exact hgone hback
  · cases hsnap

end Custody

end Polymaker
