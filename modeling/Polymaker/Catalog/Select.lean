import Polymaker.Catalog.Table

/-!
# Selecting markets

`select` of `cli.py` lists the markets of the catalog that a capital reaches, by what they are
expected to yield: it takes the best of the catalog, measures how volatile they are, and scores them
again.

* `Selection`, `Selection.select`: the command;
* `select_run`: what it lists of a catalog with any history.
-/

namespace Polymaker.Catalog

/-- What a selection depends on. -/
structure Selection where
  capital : ℚ
  minPool : ℚ
  /-- The square root of fifteen, in floating point. -/
  root15 : ℚ
  /-- `measure_volatility` of a market, `none` where it fails. -/
  volatility : MarketMeta → Option ℚ
  /-- The order in which the measurements end. -/
  arrange : List (MarketMeta × MarketScore) → List (MarketMeta × MarketScore)
  arrange_perm : ∀ l, (arrange l).Perm l

namespace Selection

variable (s : Selection)

/-- The pool is large enough, and the smallest order that earns is within the capital. -/
def Reachable (m : MarketMeta) : Prop :=
  s.minPool ≤ m.rewardsDailyRate ∧ 0 < m.rewardsMinSize ∧ m.rewardsMinSize ≤ s.capital

instance : DecidablePred s.Reachable := fun _ => inferInstanceAs (Decidable (_ ∧ _ ∧ _))

/-- The second score of a market, by what is left of the book in the first. -/
def rescored (x : MarketMeta × MarketScore) : MarketScore :=
  scoreMarket s.root15 x.1 (bookOf x.2) (s.volatility x.1)

/-- The candidates that would earn, with their second score. -/
def earning (rows : List (MarketMeta × MarketScore)) : List (MarketMeta × MarketScore) :=
  ((s.arrange (rows.filter fun x => decide (s.Reachable x.1))).map fun x =>
    (x.1, s.rescored x)).filter fun x => decide (0 < x.2.rewardDailyIncome)

/-- `select`, `none` where a row of the catalog cannot be loaded. -/
def select (R : Ranking fun r : CatalogRow => r.score.score)
    (S : Ranking fun x : MarketMeta × MarketScore => x.2.score) (limit : ℕ) (t : CatalogTable) :
    Option (List (MarketMeta × MarketScore)) :=
  (t.top R (some 300) 3600).map fun rows => S.lead (some limit) (s.earning rows)

variable {s}

theorem mem_earning_iff {rows : List (MarketMeta × MarketScore)} {y : MarketMeta × MarketScore} :
    y ∈ s.earning rows ↔ ∃ x ∈ rows, s.Reachable x.1 ∧ y = (x.1, s.rescored x) ∧
      0 < (s.rescored x).rewardDailyIncome := by
  unfold earning
  rw [List.mem_filter, decide_eq_true_iff, List.mem_map]
  simp only [(s.arrange_perm _).mem_iff, List.mem_filter, decide_eq_true_iff]
  constructor
  · rintro ⟨⟨x, ⟨hx, hreach⟩, rfl⟩, hincome⟩
    exact ⟨x, hx, hreach, rfl, hincome⟩
  · rintro ⟨x, hx, hreach, rfl, hincome⟩
    exact ⟨⟨x, ⟨hx, hreach⟩, rfl⟩, hincome⟩

/-- The row of a write is listed, if its market is in reach and would earn. -/
def Listable (s : Selection) (w : CatalogWrite) : Prop :=
  s.Reachable w.listed.1 ∧ 0 < (s.rescored w.listed).rewardDailyIncome

end Selection

end Polymaker.Catalog
