import Polymaker.Catalog.Table
import Polymaker.Engine.MetaHalt
import Polymaker.Lib.Raising

/-!
# Resolving the markets

At the start the engine asks Gamma for a row of every market of its trade list, and is to take the
market from its catalog where it gets none (`_resolve_markets` of `engine.py`).

* `MarketEntry`, `GammaLookups`, `liveMarket`: the trade list, and the row of an entry;
* `MarketRoll`, `resolveEntry`, `resolveMarkets`: what the engine knows of its markets;
* `Known`, `isSome_cachedMeta_iff`: the entries the catalog has a market for;
* `resolve_ok_iff`: **a start** resolves its markets exactly when it takes none from the catalog.
-/

namespace Polymaker

open JsonTree Catalog

/-! ### Rows -/

/-- One line of the trade list; what is absent is empty. -/
structure MarketEntry where
  slug : String
  conditionId : ConditionId
  profile : String
  named : slug ≠ "" ∨ conditionId ≠ ""

/-- What Gamma answers to the lookups of a market, `none` where the request fails. -/
structure GammaLookups where
  bySlug : String → Option JsonTree
  byConditionId : ConditionId → Option JsonTree

/-- `_one`: the first of the rows. -/
def oneRow : Option JsonTree → Option GammaRow
  | some (.arr (.obj row :: _)) => some row
  | _ => none

/-- `_live_market`: by the slug, and else by the condition id. -/
def liveMarket (gamma : GammaLookups) (e : MarketEntry) : Option GammaRow :=
  (if e.slug = "" then none else oneRow (gamma.bySlug e.slug)).or
    (if e.conditionId = "" then none else oneRow (gamma.byConditionId e.conditionId))

/-! ### The registry -/

/-- The catalog, and what the engine knows of its markets. -/
structure MarketRoll where
  catalog : CatalogTable
  metas : Dict ConditionId Catalog.MarketMeta
  profiles : Dict ConditionId StrategyProfile
  tokenCid : Dict TokenId ConditionId

/-- What a start depends on. -/
structure Resolver where
  gamma : GammaLookups
  /-- `fetch_reward_rates` is answered. -/
  rated : Bool
  parser : RowParser
  /-- `profile_for`, `none` where it raises. -/
  profileFor : MarketEntry → Option StrategyProfile
  /-- `score_market` without a book. -/
  scoreOf : Catalog.MarketMeta → MarketScore

/-- What ends a start. -/
inductive StartError
  | unrated
  /-- The profile of an entry is unknown. -/
  | profile
  /-- A row makes the parser raise. -/
  | row
  /-- The version of a market from the catalog is a string, which has no `value` to log. -/
  | version
  deriving DecidableEq, Repr

/-- `_register_market`. -/
def MarketRoll.register (r : MarketRoll) (m : Catalog.MarketMeta) (p : StrategyProfile) :
    MarketRoll where
  catalog := r.catalog
  metas := r.metas.set m.conditionId m
  profiles := r.profiles.set m.conditionId p
  tokenCid := (r.tokenCid.set m.tokens.1.tokenId m.conditionId).set m.tokens.2.tokenId m.conditionId

/-- `_cached_meta`. -/
def MarketRoll.cachedMeta (r : MarketRoll) (e : MarketEntry) : Option Catalog.MarketMeta :=
  (if e.slug = "" then none else r.catalog.getBySlug e.slug).or
    (if e.conditionId = "" then none else r.catalog.get e.conditionId)

namespace Resolver

variable (R : Resolver)

/-- The market that the row of an entry is parsed to, if there is one. -/
def parsed (e : MarketEntry) : Except Exc (Option Catalog.MarketMeta) :=
  match liveMarket R.gamma e with
  | none | some [] => .ok none
  | some row => R.parser.parse row

/-- A market is registered, if its profile is known. -/
def enroll (r : MarketRoll) (m : Catalog.MarketMeta) (e : MarketEntry) :
    Except StartError MarketRoll :=
  match R.profileFor e with
  | some p => .ok (r.register m p)
  | none => .error .profile

/-- One entry, at its time. -/
def resolveEntry (r : MarketRoll) (x : MarketEntry × ℚ) : Except StartError MarketRoll :=
  match R.parsed x.1 with
  | .error _ => .error .row
  | .ok (some m) =>
    R.enroll { r with catalog := r.catalog.upsertMarket m (R.scoreOf m) x.2 } m x.1
  | .ok none =>
    match r.cachedMeta x.1 with
    | none => .ok r
    | some m =>
      -- the warning that the market may be stale tells its version
      match m.version.value? with
      | none => .error .version
      | some _ => R.enroll r m x.1

/-- `_resolve_markets`. -/
def resolveMarkets (r : MarketRoll) (entries : List (MarketEntry × ℚ)) :
    Except StartError MarketRoll :=
  if entries = [] then .ok r
  else if R.rated = false then .error .unrated
  else entries.foldlM R.resolveEntry r

end Resolver

/-! ### The catalog -/

/-- The catalog has a market for the entry. -/
def Known (ws : List CatalogWrite) (e : MarketEntry) : Prop :=
  ∃ w, Current ws w ∧ ((e.slug ≠ "" ∧ w.market.slug = e.slug) ∨
    (e.conditionId ≠ "" ∧ w.cid = e.conditionId))

section Cache

variable {ws : List CatalogWrite} {slug : String} {cid : ConditionId} {m : Catalog.MarketMeta}

theorem isSome_getBySlug_iff :
    ((tableOf ws).getBySlug slug).isSome ↔ ∃ w, Current ws w ∧ w.market.slug = slug := by
  unfold CatalogTable.getBySlug
  constructor
  · intro h
    obtain ⟨r, hfind, -⟩ := Option.bind_eq_some_iff.1 (Option.eq_some_of_isSome h)
    obtain ⟨w, hw, rfl⟩ := mem_values_tableOf_iff.1 (List.mem_of_find?_eq_some hfind)
    have hslug := List.find?_some hfind
    exact ⟨w, hw, of_decide_eq_true hslug⟩
  · rintro ⟨w, hw, hslug⟩
    have hsome : ((tableOf ws).values.find? fun r => decide (r.slug = slug)).isSome :=
      List.find?_isSome.2 ⟨w.row, mem_values_tableOf_iff.2 ⟨w, hw, rfl⟩, decide_eq_true hslug⟩
    obtain ⟨r, hfind⟩ := Option.isSome_iff_exists.1 hsome
    obtain ⟨w', -, rfl⟩ := mem_values_tableOf_iff.1 (List.mem_of_find?_eq_some hfind)
    have hload : loadMeta w'.row.metaJson =
        some { w'.market with version := w'.market.version.reloaded } := loadMeta_dumpMeta w'.market
    rw [hfind, Option.bind_some, hload, Option.isSome_some]

theorem isSome_get_iff : ((tableOf ws).get cid).isSome ↔ ∃ w, Current ws w ∧ w.cid = cid := by
  rw [Option.isSome_iff_exists]
  constructor
  · rintro ⟨m, hget⟩
    obtain ⟨w, hw, hcid, -⟩ := get_tableOf_iff.1 hget
    exact ⟨w, hw, hcid⟩
  · rintro ⟨w, hw, hcid⟩
    exact ⟨_, get_tableOf_iff.2 ⟨w, hw, hcid, rfl⟩⟩

/-- Whatever comes from the catalog has a string for its version. -/
theorem version_of_getBySlug (h : (tableOf ws).getBySlug slug = some m) :
    m.version.value? = none := by
  obtain ⟨r, hfind, hload⟩ := Option.bind_eq_some_iff.1 h
  obtain ⟨w, -, rfl⟩ := mem_values_tableOf_iff.1 (List.mem_of_find?_eq_some hfind)
  obtain rfl := Option.some.inj ((loadMeta_dumpMeta w.market).symm.trans hload)
  rfl

theorem version_of_get (h : (tableOf ws).get cid = some m) : m.version.value? = none := by
  obtain ⟨w, -, -, rfl⟩ := get_tableOf_iff.1 h
  rfl

variable {r : MarketRoll} {e : MarketEntry}

theorem isSome_cachedMeta_iff (h : r.catalog = tableOf ws) :
    (r.cachedMeta e).isSome ↔ Known ws e := by
  have hite {α : Type} {p : Prop} [Decidable p] (x : Option α) :
      (if p then none else x).isSome ↔ ¬ p ∧ x.isSome := by
    split_ifs with hp <;> simp [hp]
  unfold MarketRoll.cachedMeta Known
  rw [h, Option.isSome_or, Bool.or_eq_true, hite, hite, isSome_getBySlug_iff, isSome_get_iff]
  constructor
  · rintro (⟨hne, w, hw, heq⟩ | ⟨hne, w, hw, heq⟩)
    · exact ⟨w, hw, .inl ⟨hne, heq⟩⟩
    · exact ⟨w, hw, .inr ⟨hne, heq⟩⟩
  · rintro ⟨w, hw, ⟨hne, heq⟩ | ⟨hne, heq⟩⟩
    · exact .inl ⟨hne, w, hw, heq⟩
    · exact .inr ⟨hne, w, hw, heq⟩

theorem version_of_cachedMeta (h : r.catalog = tableOf ws) (hm : r.cachedMeta e = some m) :
    m.version.value? = none := by
  unfold MarketRoll.cachedMeta at hm
  rw [h] at hm
  rcases Option.or_eq_some_iff.1 hm with hslug | ⟨-, hcid⟩
  · split_ifs at hslug
    exact version_of_getBySlug hslug
  · split_ifs at hcid
    exact version_of_get hcid

end Cache

/-! ### A start -/

/-- What was written to the catalog, and the markets registered so far. -/
structure Resolving where
  written : List CatalogWrite
  markets : List (Catalog.MarketMeta × StrategyProfile)

/-- What the engine knows then. -/
def Resolving.roll (a : Resolving) : MarketRoll where
  catalog := tableOf a.written
  metas := Dict.empty.setAll (a.markets.map fun x => (x.1.conditionId, x.1))
  profiles := Dict.empty.setAll (a.markets.map fun x => (x.1.conditionId, x.2))
  tokenCid := Dict.empty.setAll (a.markets.flatMap fun x =>
    [(x.1.tokens.1.tokenId, x.1.conditionId), (x.1.tokens.2.tokenId, x.1.conditionId)])

namespace Resolver

variable (R : Resolver)

/-- What an entry writes to the catalog. -/
def writeOf (x : MarketEntry × ℚ) : Option CatalogWrite :=
  (R.parsed x.1).toOption.join.bind fun m =>
    (R.profileFor x.1).map fun _ => ⟨m, R.scoreOf m, x.2⟩

/-- What is registered for it. -/
def marketOf (x : MarketEntry × ℚ) : Option (Catalog.MarketMeta × StrategyProfile) :=
  (R.parsed x.1).toOption.join.bind fun m => (R.profileFor x.1).map fun p => (m, p)

/-- An entry goes through: its row parses and its profile is known, or neither Gamma nor the catalog
has a market for it; a row that makes the parser raise does not. -/
def GoesThrough (a : Resolving) (x : MarketEntry × ℚ) : Prop :=
  (∃ m, R.parsed x.1 = .ok (some m)) ∧ (R.profileFor x.1).isSome ∨
    R.parsed x.1 = .ok none ∧ ¬ Known a.written x.1

/-- An entry that goes through. -/
def follow (a : Resolving) (x : MarketEntry × ℚ) : Resolving :=
  ⟨a.written ++ (R.writeOf x).toList, a.markets ++ (R.marketOf x).toList⟩

variable {R} {a : Resolving} {x : MarketEntry × ℚ} {r : MarketRoll}

theorem ok_eq_ok_iff {b : Resolving} {P : Prop} (hP : P) :
    (Except.ok b.roll : Except StartError MarketRoll) = .ok r ↔ P ∧ r = b.roll := by
  rw [Except.ok.injEq, and_iff_right hP]
  exact eq_comm

theorem resolveEntry_eq_ok_iff :
    R.resolveEntry a.roll x = .ok r ↔ R.GoesThrough a x ∧ r = (R.follow a x).roll := by
  unfold resolveEntry GoesThrough follow writeOf marketOf
  rcases hparsed : R.parsed x.1 with e | _ | m
  case error => simp
  case ok.some =>
    unfold enroll
    cases hprofile : R.profileFor x.1 with
    | none => simp
    | some p =>
      have hnext : (MarketRoll.register
          { a.roll with catalog := a.roll.catalog.upsertMarket m (R.scoreOf m) x.2 } m p) =
            Resolving.roll ⟨a.written ++ [⟨m, R.scoreOf m, x.2⟩], a.markets ++ [(m, p)]⟩ := by
        simp [MarketRoll.register, Resolving.roll, tableOf, Dict.setAll]
      change Except.ok _ = _ ↔ _
      rw [hnext]
      exact ok_eq_ok_iff (.inl ⟨⟨m, rfl⟩, rfl⟩)
  case ok.none =>
    have hcatalog : a.roll.catalog = tableOf a.written := rfl
    have hknown := isSome_cachedMeta_iff (e := x.1) hcatalog
    cases hcached : a.roll.cachedMeta x.1 with
    | none =>
      rw [hcached] at hknown
      have hunknown : ¬ Known a.written x.1 := fun h => by cases hknown.2 h
      have hnothing : (.ok none : Except Exc (Option Catalog.MarketMeta)).toOption.join = none :=
        rfl
      rw [hnothing]
      simp only [Option.bind_none, Option.toList_none, List.append_nil]
      exact ok_eq_ok_iff (Or.inr ⟨trivial, hunknown⟩)
    | some m =>
      rw [hcached] at hknown
      simp [hknown.1 rfl, version_of_cachedMeta hcatalog hcached]

theorem run_follow (a : Resolving) (xs : List (MarketEntry × ℚ)) :
    Run.run R.follow a xs =
      ⟨a.written ++ xs.filterMap R.writeOf, a.markets ++ xs.filterMap R.marketOf⟩ := by
  induction xs generalizing a with
  | nil => simp
  | cons x xs ih =>
    rw [Run.run_cons, ih]
    unfold follow
    cases hwrite : R.writeOf x <;> cases hmarket : R.marketOf x <;> simp [hwrite, hmarket]

theorem version_of_parsed {e : MarketEntry} {m : Catalog.MarketMeta}
    (h : (R.parsed e).toOption.join = some m) : ∃ v, m.version = .member v := by
  unfold parsed at h
  split at h
  · cases h
  · cases h
  · rename_i row _ _
    cases hrow : R.parser.parse row with
    | error e =>
      rw [hrow] at h
      cases h
    | ok o =>
      rw [hrow] at h
      obtain rfl : o = some m := h
      exact R.parser.version hrow

/-- What is registered has a version that is a member. -/
theorem version_of_registered {ws : List CatalogWrite} {xs : List (MarketEntry × ℚ)}
    {cid : ConditionId} {m : Catalog.MarketMeta}
    (h : (Resolving.roll ⟨ws, xs.filterMap R.marketOf⟩).metas.get? cid = some m) :
    ∃ v, m.version = .member v := by
  obtain ⟨before, after, hmem, -⟩ := Dict.get?_setAll_empty_iff.1 h
  have hm : (cid, m) ∈ (xs.filterMap R.marketOf).map fun x => (x.1.conditionId, x.1) := by
    rw [hmem]
    simp
  obtain ⟨y, hy, heq⟩ := List.mem_map.1 hm
  obtain ⟨x, -, hx⟩ := List.mem_filterMap.1 hy
  obtain ⟨m', hparsed, hpair⟩ := Option.bind_eq_some_iff.1 hx
  obtain ⟨p, -, rfl⟩ := Option.map_eq_some_iff.1 hpair
  obtain ⟨-, rfl⟩ := Prod.mk.inj heq
  exact version_of_parsed hparsed

/-- **A start resolves its markets** exactly when it takes none of them from the catalog: the rates
are fetched, and each entry has a row that parses and a known profile, or it has no row of use and
no market was ever written for it, by a scan, by an earlier start or by an entry before it; and no
row makes the parser raise.  Then the markets registered are
those that were parsed, the last one where there are several, and the version of each is a member,
as the routing of orders and balances needs it. -/
theorem resolve_ok_iff (R : Resolver) (ws : List CatalogWrite) (xs : List (MarketEntry × ℚ))
    (r : MarketRoll) :
    (R.resolveMarkets (Resolving.roll ⟨ws, []⟩) xs = .ok r ↔
      (xs = [] ∨ R.rated = true) ∧
        (∀ before x after, xs = before ++ x :: after →
          R.GoesThrough ⟨ws ++ before.filterMap R.writeOf, before.filterMap R.marketOf⟩ x) ∧
        r = Resolving.roll ⟨ws ++ xs.filterMap R.writeOf, xs.filterMap R.marketOf⟩) ∧
      (R.resolveMarkets (Resolving.roll ⟨ws, []⟩) xs = .ok r →
        ∀ cid m, r.metas.get? cid = some m → ∃ v, m.version = .member v) := by
  have hiff : R.resolveMarkets (Resolving.roll ⟨ws, []⟩) xs = .ok r ↔
      (xs = [] ∨ R.rated = true) ∧
        (∀ before x after, xs = before ++ x :: after →
          R.GoesThrough ⟨ws ++ before.filterMap R.writeOf, before.filterMap R.marketOf⟩ x) ∧
        r = Resolving.roll ⟨ws ++ xs.filterMap R.writeOf, xs.filterMap R.marketOf⟩ := by
    unfold resolveMarkets
    by_cases hempty : xs = []
    · subst hempty
      rw [if_pos rfl]
      exact (ok_eq_ok_iff trivial).trans (by simp)
    · rw [if_neg hempty, or_iff_right hempty]
      cases hrated : R.rated with
      | false => simp
      | true =>
        have hrun := Raising.foldlM_eq_ok_iff (f := Resolving.roll) (C := R.GoesThrough)
          (fun a x r => resolveEntry_eq_ok_iff) ⟨ws, []⟩ xs r
        simp only [run_follow, Run.EachStep, List.nil_append] at hrun
        simpa using hrun
  refine ⟨hiff, fun hok cid m hm => ?_⟩
  obtain ⟨-, -, rfl⟩ := hiff.1 hok
  exact version_of_registered hm

/-- Gamma is down, and the market of the only entry was resolved by an earlier start. -/
example :
    let m : Catalog.MarketMeta :=
      { conditionId := "c", question := "Will it?", slug := "will-it"
        tokens := (⟨"11", "Yes"⟩, ⟨"12", "No"⟩), tickSize := 1 / 100, negRisk := false
        minOrderSize := 5, rewardsMinSize := 50, rewardsMaxSpread := 3, rewardsDailyRate := 20
        makerFeeBps := 0, takerFeeBps := 0, feesEnabled := false, endDateIso := none
        eventId := none }
    let R : Resolver := ⟨⟨fun _ => none, fun _ => none⟩, true, ⟨fun _ => .ok none, nofun⟩,
      fun _ => some {}, fun m => scoreMarket 0 m none none⟩
    let e : MarketEntry := ⟨"will-it", "", "political-longdated", .inl (by decide)⟩
    R.resolveMarkets (Resolving.roll ⟨[⟨m, R.scoreOf m, 1⟩], []⟩) [(e, 2)] =
      .error .version := by
  rfl

end Resolver

end Polymaker
