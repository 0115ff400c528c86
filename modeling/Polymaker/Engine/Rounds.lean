import Polymaker.Engine.Live
import Polymaker.Engine.Renaming
import Polymaker.Execution.OpenOrders

/-!
# Rounds of the reconcile loop

A round drops the in-flight guards that are too old, takes over the positions and the open orders
that the exchange lists, and now and then the balances on chain and the cash.

* `Round`, `Engine.reconcileRound`: a round of `_reconcile_loop`;
* `readPositions_apart`, `exists_slowerLoops_apart`: but for the open orders, a round knows no ids,
  and the cash moves the ledger alone;
* `applyTokens_listed`: where every local order is listed, the local copies are made anew;
* `applyTokens_nil`: where nothing is listed, the orders of idle tokens leave once they are older
  than the grace.
-/

namespace Polymaker

/-- What a round of `_reconcile_loop` meets; what it does not read, or fails to read, is `none`. -/
structure Round where
  now : ℚ
  maxAgeS : ℚ
  positions : Option (Dict TokenId (ℚ × ℚ))
  balances : Option (Dict TokenId ℚ)
  cash : Option ℚ
  newDay : Bool

namespace Engine

/-- The part of a round before the open orders: the guards that are too old, and the positions. -/
def readPositions (e : Engine) (m : Markets) (r : Round) : Engine :=
  let e := e.mapStore fun s => (s.expireInflight r.maxAgeS r.now).1
  match r.positions with
  | none => e
  | some read => e.mapStore fun s => (s.reconcilePositions (m.onlyTraded read) true r.now).1

/-- The open orders, market by market. -/
def readOrders (e : Engine) (read : Option (List OpenOrder)) (now : ℚ) : Engine :=
  e.mapStore fun s => e.markets.values.foldl (fun s k => reconcileOrders s k.info read now) s

/-- The balances on chain. -/
def readBalances (e : Engine) (m : Markets) : Option (Dict TokenId ℚ) → Engine
  | none => e
  | some balances => e.mapStore fun s => (m.correctPositions s balances.entries).1

/-- `_reconcile_cash`, which does nothing in paper mode. -/
def readCash (e : Engine) (paper : Bool) (cash : Option ℚ) : Engine :=
  match paper, cash with
  | false, some cash => { e with risk := (e.risk.reconcileCash cash).1 }
  | _, _ => e

/-- The slower loops, and a new day. -/
def slowerLoops (e : Engine) (m : Markets) (paper : Bool) (r : Round) : Engine :=
  let e := (e.readBalances m r.balances).readCash paper r.cash
  if r.newDay then { e with risk := e.risk.resetDay e.store } else e

/-- A round, with what it reads of the open orders. -/
def reconcileRound (e : Engine) (m : Markets) (paper : Bool) (read : Option (List OpenOrder))
    (r : Round) : Engine :=
  ((e.readPositions m r).readOrders read r.now).slowerLoops m paper r

/-- The tokens of the markets, market by market. -/
def tokens (e : Engine) : List TokenId := e.markets.values.flatMap fun k => k.info.tokens

end Engine

/-! ### What knows no orders -/

section Stores

variable (s : StateStore) (orders : Dict OrderId OpenOrder)

@[simp] theorem withOrders_withOrders (o : Dict OrderId OpenOrder) :
    (s.withOrders o).withOrders orders = s.withOrders orders := rfl

/-- What works on the store as if there were no orders leaves them alone. -/
theorem orders_of_withOrders {f : StateStore → StateStore}
    (h : ∀ s orders, f (s.withOrders orders) = (f s).withOrders orders) :
    (f s).orders = s.orders := by
  change (f (s.withOrders s.orders)).orders = s.orders
  rw [h]
  rfl

theorem adoptPositions_withOrders (api : List (TokenId × ℚ × ℚ)) (now : ℚ) :
    (s.withOrders orders).adoptPositions api now =
      (s.adoptPositions api now).withOrders orders := by
  unfold StateStore.adoptPositions
  refine List.foldl_hom (fun s : StateStore => s.withOrders orders) fun s a => ?_
  have hguard : (s.withOrders orders).guardBlocks a.1 now ↔ s.guardBlocks a.1 now := Iff.rfl
  simp only [hguard]
  split_ifs <;> rfl

theorem closeAbsent_withOrders (held : List (TokenId × Position)) (api : Dict TokenId (ℚ × ℚ))
    (now : ℚ) : ((s.withOrders orders).closeAbsent held api now).1 =
      (s.closeAbsent held api now).1.withOrders orders := by
  unfold StateStore.closeAbsent
  refine congrArg Prod.fst (@List.foldl_hom (StateStore × List TokenId) _ _
    (fun out => (out.1.withOrders orders, out.2)) _ _ held (s, []) fun out a => ?_)
  have hguard : (out.1.withOrders orders).guardBlocks a.1 now ↔ out.1.guardBlocks a.1 now := Iff.rfl
  simp only [hguard]
  split_ifs <;> rfl

theorem reconcilePositions_withOrders (api : Dict TokenId (ℚ × ℚ)) (authoritative : Bool)
    (now : ℚ) : ((s.withOrders orders).reconcilePositions api authoritative now).1 =
      (s.reconcilePositions api authoritative now).1.withOrders orders := by
  unfold StateStore.reconcilePositions
  rw [adoptPositions_withOrders]
  dsimp only
  split_ifs
  · exact closeAbsent_withOrders _ orders _ api now
  · rfl

variable {s} in
theorem correctPositions_withOrders (m : Markets) (balances : List (TokenId × ℚ)) :
    (m.correctPositions (s.withOrders orders) balances).1 =
      (m.correctPositions s balances).1.withOrders orders := by
  induction balances generalizing s with
  | nil => rfl
  | cons b balances ih =>
    obtain ⟨tok, chainSize⟩ := b
    have hoff : Diverges (s.withOrders orders) tok chainSize ↔ Diverges s tok chainSize := Iff.rfl
    unfold Markets.correctPositions
    simp only [hoff]
    split_ifs
    · exact ih (s := s.forceSetPosition tok chainSize (s.position tok).avgPrice)
    · exact ih

end Stores

namespace Engine

variable {e : Engine} {orders : Dict OrderId OpenOrder} {k : CashLedger}

theorem readPositions_apart (m : Markets) (r : Round) :
    (e.apart orders k).readPositions m r = (e.readPositions m r).apart orders k := by
  unfold readPositions
  cases r.positions with
  | none => rfl
  | some read =>
    have hread := reconcilePositions_withOrders (e.store.expireInflight r.maxAgeS r.now).1 orders
      (m.onlyTraded read) true r.now
    exact congrArg (fun s => { e.apart orders k with store := s }) hread

theorem readPositions_orders (m : Markets) (r : Round) :
    (e.readPositions m r).store.orders = e.store.orders := by
  unfold readPositions
  cases r.positions with
  | none => rfl
  | some read =>
    exact orders_of_withOrders
      (f := fun s => (s.reconcilePositions (m.onlyTraded read) true r.now).1) _
      fun s orders => reconcilePositions_withOrders s orders _ true r.now

@[simp] theorem readPositions_markets (m : Markets) (r : Round) :
    (e.readPositions m r).markets = e.markets := by
  unfold readPositions
  cases r.positions <;> rfl

theorem readBalances_apart (m : Markets) (balances : Option (Dict TokenId ℚ)) :
    (e.apart orders k).readBalances m balances = (e.readBalances m balances).apart orders k := by
  cases balances with
  | none => rfl
  | some balances =>
    have hread := correctPositions_withOrders (s := e.store) orders m balances.entries
    exact congrArg (fun s => { e.apart orders k with store := s }) hread

theorem readBalances_orders (m : Markets) (balances : Option (Dict TokenId ℚ)) :
    (e.readBalances m balances).store.orders = e.store.orders := by
  cases balances with
  | none => rfl
  | some balances =>
    exact orders_of_withOrders (f := fun s => (m.correctPositions s balances.entries).1) _
      fun s orders => correctPositions_withOrders orders m balances.entries

/-- The cash moves the ledger alone. -/
theorem exists_readCash (e : Engine) (orders : Dict OrderId OpenOrder) (k : CashLedger)
    (cash : Option ℚ) : ∃ k', (e.apart orders k).readCash false cash = e.apart orders k' := by
  cases cash with
  | none => exact ⟨k, rfl⟩
  | some cash =>
    dsimp only [readCash, RiskManager.reconcileCash]
    split_ifs
    · exact ⟨k, rfl⟩
    · exact ⟨⟨cash, k.dayStartEquity, k.cashAdjustments + (cash - k.netCash)⟩, rfl⟩

/-- The slower loops know no orders. -/
theorem exists_slowerLoops_apart (e : Engine) (orders : Dict OrderId OpenOrder) (k : CashLedger)
    (m : Markets) (r : Round) :
    ∃ k', (e.apart orders k).slowerLoops m false r = (e.slowerLoops m true r).apart orders k' := by
  obtain ⟨k', hcash⟩ := exists_readCash (e.readBalances m r.balances) orders k r.cash
  have hpaper : (e.readBalances m r.balances).readCash true r.cash = e.readBalances m r.balances :=
    rfl
  unfold slowerLoops
  rw [readBalances_apart, hcash, hpaper]
  dsimp only
  split_ifs
  · exact ⟨⟨k'.netCash, ((e.readBalances m r.balances).apart orders k').risk.equity
      ((e.readBalances m r.balances).apart orders k').store, k'.cashAdjustments⟩, rfl⟩
  · exact ⟨k', rfl⟩

theorem slowerLoops_orders (e : Engine) (m : Markets) (r : Round) :
    (e.slowerLoops m true r).store.orders = e.store.orders := by
  unfold slowerLoops
  dsimp only
  split_ifs <;> exact readBalances_orders m r.balances

end Engine

/-! ### The open orders -/

/-- An order without the age of its local copy. -/
def OpenOrder.undated (o : OpenOrder) : OpenOrder := { o with createdTs := 0 }

theorem applyToken_eq (live : List OpenOrder) (now : ℚ) (s : StateStore) (tok : TokenId) :
    applyToken live now s tok = s.withOrders (applyToken live now s tok).orders := by
  unfold applyToken
  split_ifs <;> rfl

/-- The snapshot touches the orders alone. -/
theorem applyTokens_eq (live : List OpenOrder) (now : ℚ) (toks : List TokenId) (s : StateStore) :
    toks.foldl (applyToken live now) s =
      s.withOrders (toks.foldl (applyToken live now) s).orders := by
  induction toks generalizing s with
  | nil => rfl
  | cons tok toks ih =>
    rw [List.foldl_cons, ih, applyToken_eq]
    rfl

theorem StateStore.Keyed.applyToken {s : StateStore} (h : s.Keyed) (live : List OpenOrder) (now : ℚ)
    (tok : TokenId) : (applyToken live now s tok).Keyed := by
  unfold Polymaker.applyToken
  split_ifs
  · exact h.replaceOpenOrders tok _ _ now
  · exact h

theorem StateStore.Keyed.applyTokens {s : StateStore} (h : s.Keyed) (live : List OpenOrder)
    (now : ℚ) (toks : List TokenId) : (toks.foldl (Polymaker.applyToken live now) s).Keyed :=
  Run.run_of_forall_mem (P := StateStore.Keyed) (fun _ tok _ hs => hs.applyToken live now tok) h

/-- Storing orders that are there makes their local copies anew. -/
theorem map_undated_foldl_set {l : List OpenOrder} {d : Dict OrderId OpenOrder}
    (h : ∀ o ∈ l, ∃ o₀, d.get? o.orderId = some o₀ ∧ o.undated = o₀.undated) :
    (l.foldl (fun d o => d.set o.orderId o) d).values.map OpenOrder.undated =
      d.values.map OpenOrder.undated := by
  induction l generalizing d with
  | nil => rfl
  | cons o l ih =>
    obtain ⟨⟨o₀, hget, hsame⟩, h⟩ := List.forall_mem_cons.1 h
    rw [List.foldl_cons, ih, Dict.map_values_set hget hsame]
    intro o' ho'
    obtain ⟨o₁, hget', hsame'⟩ := h o' ho'
    rw [Dict.get?_set]
    split_ifs with hid
    · rw [hid, hget] at hget'
      obtain rfl := Option.some.inj hget'
      exact ⟨o, rfl, hsame'.trans hsame.symm⟩
    · exact ⟨o₁, hget', hsame'⟩

/-- Where every local order is listed, and nothing else, the local copies are made anew. -/
theorem applyToken_listed {s : StateStore} {live : List OpenOrder} (hk : s.Keyed)
    (h : (live.map OpenOrder.undated).Perm (s.orders.values.map OpenOrder.undated)) (now : ℚ)
    (tok : TokenId) :
    (applyToken live now s tok).orders.values.map OpenOrder.undated =
      s.orders.values.map OpenOrder.undated := by
  unfold applyToken
  split_ifs
  · have hkept : (s.orders.filter fun _ o => decide (o.tokenId ≠ tok ∨
        o.orderId ∈ (live.filter fun o => decide (o.tokenId = tok)).map OpenOrder.orderId ∨
        now - o.createdTs < defaultGraceS)) = s.orders := by
      ext1
      refine List.filter_eq_self.2 fun e he => decide_eq_true ?_
      by_cases htok : e.2.tokenId = tok
      · have hin : e.2.undated ∈ live.map OpenOrder.undated :=
          h.mem_iff.2 (List.mem_map_of_mem (List.mem_map_of_mem he))
        obtain ⟨o, ho, hsame⟩ := List.mem_map.1 hin
        have hid : o.undated.orderId = e.2.undated.orderId := by rw [hsame]
        have htok' : o.undated.tokenId = tok := by rw [hsame]; exact htok
        refine .inr (.inl (List.mem_map.2 ⟨o, List.mem_filter.2 ⟨ho, ?_⟩, hid⟩))
        exact decide_eq_true htok'
      · exact .inl htok
    unfold StateStore.replaceOpenOrders
    rw [hkept]
    refine map_undated_foldl_set fun o ho => ?_
    have hin : o.undated ∈ s.orders.values.map OpenOrder.undated :=
      h.mem_iff.1 (List.mem_map_of_mem (List.mem_filter.1 ho).1)
    obtain ⟨o₀, ho₀, hsame⟩ := List.mem_map.1 hin
    obtain ⟨i, hi⟩ := Dict.mem_values_iff.1 ho₀
    have hid : o₀.undated.orderId = o.undated.orderId := by rw [hsame]
    refine ⟨o₀, ?_, hsame.symm⟩
    rw [← show o₀.orderId = o.orderId from hid, hk i o₀ hi, hi]
  · rfl

theorem applyTokens_listed {s : StateStore} {live : List OpenOrder} (hk : s.Keyed)
    (h : (live.map OpenOrder.undated).Perm (s.orders.values.map OpenOrder.undated)) (now : ℚ)
    (toks : List TokenId) :
    (toks.foldl (applyToken live now) s).orders.values.map OpenOrder.undated =
      s.orders.values.map OpenOrder.undated := by
  refine (Run.run_of_forall_mem (P := fun s' : StateStore => s'.Keyed ∧
    s'.orders.values.map OpenOrder.undated = s.orders.values.map OpenOrder.undated)
    (fun s' tok _ hs => ⟨hs.1.applyToken live now tok, ?_⟩) ⟨hk, rfl⟩).2
  rw [applyToken_listed hs.1 (hs.2 ▸ h), hs.2]

/-- Where nothing is listed, an order stays unless its token is idle and it is older than the
grace. -/
theorem applyTokens_nil (now : ℚ) (toks : List TokenId) (s : StateStore) :
    (toks.foldl (applyToken [] now) s).orders = s.orders.filter fun _ o =>
      decide (∀ tok ∈ toks, s.inflight tok = 0 → o.tokenId = tok →
        now - o.createdTs < defaultGraceS) := by
  induction toks generalizing s with
  | nil =>
    ext1
    exact (List.filter_eq_self.2 fun e _ => decide_eq_true fun tok htok => by cases htok).symm
  | cons tok toks ih =>
    have hinflight : ∀ tok', (applyToken [] now s tok).inflight tok' = s.inflight tok' := by
      intro tok'
      rw [applyToken_eq]
      rfl
    rw [List.foldl_cons, ih]
    simp only [hinflight, List.forall_mem_cons]
    unfold applyToken
    ext1
    split_ifs with hidle
    · refine (List.filter_filter ..).trans (List.filter_congr fun e _ => ?_)
      simp only [← Bool.decide_and, hidle, List.filter_nil, List.map_nil, List.not_mem_nil,
        false_or, decide_eq_decide, forall_const]
      rw [imp_iff_not_or, and_comm]
    · refine List.filter_congr fun e _ => ?_
      simp only [hidle, false_imp_iff, true_and]

namespace Engine

theorem readOrders_some (e : Engine) (live : List OpenOrder) (now : ℚ) :
    e.readOrders (some live) now =
      { e with
        store := e.store.withOrders (e.tokens.foldl (applyToken live now) e.store).orders } := by
  rw [← applyTokens_eq, tokens, List.foldl_flatMap]
  rfl

end Engine

end Polymaker
