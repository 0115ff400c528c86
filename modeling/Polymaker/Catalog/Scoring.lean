import Polymaker.Catalog.Store
import Polymaker.Lib.Rounding

/-!
# Scoring a market

`score_market` of `catalog/scoring.py`: what a small maker earns of a market's reward pool.
`select` scores again from the stored score, through `_book_of`.

* `BookStats`, `rewardScoreWeight`, `bandReachable`, `rewardDailyIncome`, `scoreMarket`: the scorer;
* `bookOf`: the book that `select` reads off a stored score;
* `rewardDailyIncome_some`: the income is the share of the pool at the weight of our distance;
* `rescore_iff`: when the second score has the income of the first.
-/

namespace Polymaker.Catalog

open Rounding

/-! ### The scorer -/

/-- A live order-book read. -/
structure BookStats where
  weightedShares : ℚ := 0
  oneMinuteVol : ℚ := 0
  mid : ℚ := 0
  spread : ℚ := 0
  ourDistanceCents : ℚ := 0
  deriving DecidableEq, Repr

/-- What is stored of a score. -/
structure MarketScore where
  conditionId : ConditionId
  rewardDailyIncome : ℚ
  rewardYieldPct : ℚ
  rebatePotential : ℚ
  competition : ℚ
  toxicity : ℚ
  spread : ℚ
  extremity : ℚ
  capitalUsdc : ℚ
  score : ℚ
  deriving DecidableEq, Repr

/-- `reward_score_weight`: the weight of an order at a distance from the mid. -/
def rewardScoreWeight (distanceCents bandCents : ℚ) : ℚ :=
  if bandCents ≤ 0 then 0
  else
    let distanceCents := if distanceCents < 0 then 0 else distanceCents
    if bandCents < distanceCents then 0
    else
      let ratio := (bandCents - distanceCents) / bandCents
      ratio * ratio

namespace MarketMeta

variable (m : MarketMeta) (book : Option BookStats)

/-- `_mid`. -/
def midOf : ℚ :=
  let quoted := if 0 < m.bestBid ∧ 0 < m.bestAsk then (m.bestBid + m.bestAsk) / 2 else 1 / 2
  match book with
  | some b => if 0 < b.mid ∧ b.mid < 1 then b.mid else quoted
  | none => quoted

/-- `min_qualifying_shares`. -/
def minQualifyingShares : ℚ :=
  if m.rewardsDailyRate ≤ 0 ∨ m.rewardsMaxSpread ≤ 0 then 0
  else max (max m.rewardsMinSize m.minOrderSize) 0

/-- `capital_for_min_order`: a dollar for each share of the pair. -/
def capitalForMinOrder : ℚ :=
  let shares := m.minQualifyingShares
  if shares ≤ 0 then 0 else shares

/-- `band_reachable`. -/
def bandReachable : Bool :=
  let band := m.rewardsMaxSpread / 100
  if band ≤ 0 then false
  else
    let spread := match book with
      | some b => if 0 < b.spread then b.spread else 0
      | none => 0
    let spread := if spread ≤ 0 ∧ 0 < m.bestBid ∧ 0 < m.bestAsk then max 0 (m.bestAsk - m.bestBid)
      else spread
    -- without a spread the market is not rejected on a guess
    if spread ≤ 0 then true else decide (spread ≤ band)

/-- `reward_daily_income`. -/
def rewardDailyIncome : ℚ :=
  let shares := m.minQualifyingShares
  match book with
  | none => 0
  | some b =>
    if shares ≤ 0 then 0
    else if m.bandReachable (some b) = false then 0
    else
      let existing := max b.weightedShares 0
      if existing ≤ 0 then 0
      else
        let ourScore := shares * rewardScoreWeight b.ourDistanceCents m.rewardsMaxSpread
        if ourScore ≤ 0 then 0
        else m.rewardsDailyRate * (ourScore / (existing + ourScore))

/-- `reward_yield_pct`. -/
def rewardYieldPct : ℚ :=
  let capital := m.capitalForMinOrder
  if capital ≤ 0 then 0 else m.rewardDailyIncome book / capital * 100

/-- `rebate_potential`. -/
def rebatePotential : ℚ :=
  if m.feesEnabled = false ∨ m.rebateRate ≤ 0 ∨ m.takerFeeBps ≤ 0 then 0
  else if m.volume24hr ≤ 0 then 0
  else
    let feeRate : ℚ := m.takerFeeBps / 10000
    let dailyFees := m.volume24hr * feeRate * (1 - m.midOf none)
    toDecimals 2 (dailyFees * m.rebateRate)

/-- `extremity`. -/
def extremity : ℚ := min 1 (|m.midOf book - 1 / 2| / (1 / 2))

/-- The spread that `score_market` stores, before it is rounded. -/
def quotedSpread : ℚ :=
  if m.bestBid ≠ 0 ∧ m.bestAsk ≠ 0 then max 0 (m.bestAsk - m.bestBid) else 1

end MarketMeta

/-- `competition`. -/
def competition : Option BookStats → ℚ
  | some b => max b.weightedShares 0
  | none => 0

section Score

-- the square root of fifteen, in floating point
variable (root15 : ℚ)

/-- `toxicity`. -/
def MarketMeta.toxicity (m : MarketMeta) (book : Option BookStats) (vol1m : Option ℚ) : ℚ :=
  let band := m.rewardsMaxSpread / 100
  let sigma := match vol1m, book with
    | some v, _ => v
    | none, some b => b.oneMinuteVol
    | none, none => 0
  if band ≤ 0 ∨ sigma ≤ 0 then 0 else min 1 (sigma * root15 / band)

/-- `score_market`. -/
def scoreMarket (m : MarketMeta) (book : Option BookStats) (vol1m : Option ℚ) : MarketScore :=
  let income := m.rewardDailyIncome book
  let yieldPct := m.rewardYieldPct book
  let tox := m.toxicity root15 book vol1m
  let ext := m.extremity book
  let riskDiscount := (1 - 7 / 10 * tox) * (1 - 1 / 2 * ext)
  { conditionId := m.conditionId
    rewardDailyIncome := toDecimals 4 income
    rewardYieldPct := toDecimals 4 yieldPct
    rebatePotential := toDecimals 2 m.rebatePotential
    competition := toDecimals 2 (competition book)
    toxicity := toDecimals 4 tox
    spread := toDecimals 4 m.quotedSpread
    extremity := toDecimals 4 ext
    capitalUsdc := toDecimals 2 m.capitalForMinOrder
    score := toDecimals 4 (yieldPct * max 0 riskDiscount) }

end Score

/-- `_book_of` of the command line: the book that a stored score stands for. -/
def bookOf (scored : MarketScore) : Option BookStats :=
  if scored.competition = 0 then none
  else some { weightedShares := scored.competition, spread := scored.spread }

/-! ### What a weight earns -/

theorem rewardScoreWeight_mem (distanceCents bandCents : ℚ) :
    0 ≤ rewardScoreWeight distanceCents bandCents ∧
      rewardScoreWeight distanceCents bandCents ≤ 1 := by
  unfold rewardScoreWeight
  simp only
  split_ifs with hband hdist hfar hfar
  · exact ⟨le_rfl, zero_le_one⟩
  · exact ⟨le_rfl, zero_le_one⟩
  · rw [sub_zero, div_self (not_le.1 hband).ne', mul_one]
    exact ⟨zero_le_one, le_rfl⟩
  · exact ⟨le_rfl, zero_le_one⟩
  · have hpos := not_le.1 hband
    have hlow : 0 ≤ (bandCents - distanceCents) / bandCents :=
      div_nonneg (sub_nonneg.2 (not_lt.1 hfar)) hpos.le
    have hhigh : (bandCents - distanceCents) / bandCents ≤ 1 :=
      (div_le_one hpos).2 (sub_le_self _ (not_lt.1 hdist))
    exact ⟨mul_self_nonneg _, mul_le_one₀ hhigh hlow hhigh⟩

/-- At the mid the weight is full. -/
theorem rewardScoreWeight_zero {bandCents : ℚ} (h : 0 < bandCents) :
    rewardScoreWeight 0 bandCents = 1 := by
  unfold rewardScoreWeight
  simp only [lt_irrefl, if_false, if_neg h.not_ge, if_neg h.le.not_gt]
  rw [sub_zero, div_self h.ne', mul_one]

namespace MarketMeta

variable (m : MarketMeta)

/-- The share of the pool that a minimum order earns at a weight, beside a competition. -/
def poolShare (existing weight : ℚ) : ℚ :=
  m.rewardsDailyRate *
    (m.minQualifyingShares * weight / (existing + m.minQualifyingShares * weight))

/-- The weight of our own quote: none where the book is too wide to be inside the band. -/
def ourWeight (b : BookStats) : ℚ :=
  if m.bandReachable (some b) then rewardScoreWeight b.ourDistanceCents m.rewardsMaxSpread else 0

theorem poolShare_zero (existing : ℚ) : m.poolShare existing 0 = 0 := by
  unfold poolShare
  rw [mul_zero, zero_div, mul_zero]

theorem ourWeight_nonneg (b : BookStats) : 0 ≤ m.ourWeight b := by
  unfold ourWeight
  split_ifs
  · exact (rewardScoreWeight_mem _ _).1
  · exact le_rfl

variable {m}

/-- An order can score where there is a pool and a band. -/
theorem of_minQualifyingShares_pos (h : 0 < m.minQualifyingShares) :
    0 < m.rewardsDailyRate ∧ 0 < m.rewardsMaxSpread := by
  unfold minQualifyingShares at h
  split_ifs at h with hnone
  · exact absurd h (lt_irrefl 0)
  · rw [not_or, not_le, not_le] at hnone
    exact hnone

theorem poolShare_nonneg {existing weight : ℚ} (hshares : 0 < m.minQualifyingShares)
    (hexisting : 0 ≤ existing) (hweight : 0 ≤ weight) : 0 ≤ m.poolShare existing weight :=
  mul_nonneg (of_minQualifyingShares_pos hshares).1.le
    (div_nonneg (mul_nonneg hshares.le hweight)
      (add_nonneg hexisting (mul_nonneg hshares.le hweight)))

/-- Nothing is earned where no order can score, or where nothing rests in the band. -/
theorem rewardDailyIncome_of_none {b : BookStats}
    (h : m.minQualifyingShares ≤ 0 ∨ b.weightedShares ≤ 0) :
    m.rewardDailyIncome (some b) = 0 := by
  unfold rewardDailyIncome
  simp only
  split_ifs with hshares hreach hexisting
  · rfl
  · rfl
  · rfl
  · rfl
  · refine absurd (max_le ?_ le_rfl) hexisting
    exact h.resolve_left hshares

/-- **The income** is the share of the pool at the weight of our own quote. -/
theorem rewardDailyIncome_some {b : BookStats} (hshares : 0 < m.minQualifyingShares)
    (hexisting : 0 < b.weightedShares) :
    m.rewardDailyIncome (some b) = m.poolShare b.weightedShares (m.ourWeight b) := by
  unfold rewardDailyIncome ourWeight
  simp only [if_neg hshares.not_ge, max_eq_left hexisting.le, if_neg hexisting.not_ge]
  by_cases hreach : m.bandReachable (some b) = true
  · simp only [hreach, Bool.true_eq_false, if_false, if_true]
    split_ifs with hscore
    · -- a quote outside the band
      have hzero : rewardScoreWeight b.ourDistanceCents m.rewardsMaxSpread = 0 :=
        le_antisymm (nonpos_of_mul_nonpos_right hscore hshares) (rewardScoreWeight_mem _ _).1
      rw [hzero, poolShare_zero]
    · rfl
  · rw [Bool.not_eq_true] at hreach
    simp only [hreach, if_true, Bool.false_eq_true, if_false]
    exact (m.poolShare_zero _).symm

/-- The spread that is stored fits in the band. -/
def storedSpreadFits (m : MarketMeta) : Bool :=
  m.bandReachable (some { spread := toDecimals 4 m.quotedSpread })

/-- The second score has the income of the first: nothing can be earned; or the stored spread fits
in the band, and our quote was at the mid or its distance does not show in four decimals; or it does
not fit, and our quote earned too little to show. -/
def Repays (m : MarketMeta) (b : BookStats) : Prop :=
  m.minQualifyingShares ≤ 0 ∨ b.weightedShares ≤ 0 ∨
    if m.storedSpreadFits then
      m.ourWeight b = 1 ∨ toDecimals 4 (m.poolShare b.weightedShares (m.ourWeight b)) =
        toDecimals 4 (m.poolShare b.weightedShares 1)
    else m.poolShare b.weightedShares (m.ourWeight b) ≤ 1 / 20000

end MarketMeta

/-! ### Scoring again -/

/-- The score of `select`, from the stored score and without a measured volatility. -/
def rescore (root15 : ℚ) (m : MarketMeta) (b : BookStats) : MarketScore :=
  scoreMarket root15 m (bookOf (scoreMarket root15 m (some b) none)) none

/-- The book a stored score stands for keeps the competition, and the spread of the quotes. -/
theorem bookOf_scoreMarket (root15 : ℚ) (m : MarketMeta) {b : BookStats}
    (hgrid : OnGrid 2 b.weightedShares) :
    bookOf (scoreMarket root15 m (some b) none) =
      if b.weightedShares ≤ 0 then none
      else some { weightedShares := b.weightedShares, spread := toDecimals 4 m.quotedSpread } := by
  have hcompetition : toDecimals 2 (max b.weightedShares 0) = max b.weightedShares 0 :=
    toDecimals_of_onGrid (hgrid.max (by simpa using onGrid_intCast 2 0))
  unfold bookOf scoreMarket competition
  simp only [hcompetition]
  split_ifs with hzero hsome hsome
  · rfl
  · exact absurd (max_eq_right_iff.1 hzero) hsome
  · exact absurd (max_eq_right hsome) hzero
  · rw [max_eq_left (not_le.1 hsome).le]

/-- **Scoring again without new information**, from a competition of two decimals: the income is
that of the first score exactly when the distance of our quote and the spread that was read do not
matter. -/
theorem rescore_iff (root15 : ℚ) (m : MarketMeta) {b : BookStats}
    (hgrid : OnGrid 2 b.weightedShares) :
    (rescore root15 m b).rewardDailyIncome =
        (scoreMarket root15 m (some b) none).rewardDailyIncome ↔ m.Repays b := by
  show toDecimals 4 (m.rewardDailyIncome (bookOf _)) =
    toDecimals 4 (m.rewardDailyIncome (some b)) ↔ _
  rw [bookOf_scoreMarket root15 m hgrid]
  unfold MarketMeta.Repays
  rcases le_or_gt m.minQualifyingShares 0 with hnone | hshares
  · refine iff_of_true ?_ (.inl hnone)
    rw [MarketMeta.rewardDailyIncome_of_none (b := b) (.inl hnone)]
    split_ifs
    · rfl
    · rw [MarketMeta.rewardDailyIncome_of_none (.inl hnone)]
  rcases le_or_gt b.weightedShares 0 with hnone | hexisting
  · refine iff_of_true ?_ (.inr (.inl hnone))
    rw [if_pos hnone, MarketMeta.rewardDailyIncome_of_none (b := b) (.inr hnone)]
    rfl
  · have hfull : rewardScoreWeight 0 m.rewardsMaxSpread = 1 :=
      rewardScoreWeight_zero (MarketMeta.of_minQualifyingShares_pos hshares).2
    have hweight : m.ourWeight
        { weightedShares := b.weightedShares, spread := toDecimals 4 m.quotedSpread } =
          if m.storedSpreadFits then 1 else 0 := by
      unfold MarketMeta.ourWeight
      rw [hfull]
      rfl
    have hsecond : m.rewardDailyIncome
        (some { weightedShares := b.weightedShares, spread := toDecimals 4 m.quotedSpread }) =
          m.poolShare b.weightedShares (if m.storedSpreadFits then 1 else 0) := by
      rw [← hweight]
      exact MarketMeta.rewardDailyIncome_some hshares hexisting
    rw [if_neg hexisting.not_ge, hsecond, MarketMeta.rewardDailyIncome_some hshares hexisting,
      or_iff_right hshares.not_ge, or_iff_right hexisting.not_ge]
    by_cases hfits : m.storedSpreadFits = true
    · rw [if_pos hfits, if_pos hfits]
      constructor
      · exact fun h => .inr h.symm
      · rintro (h | h)
        · rw [h]
        · exact h.symm
    · rw [if_neg hfits, if_neg hfits, MarketMeta.poolShare_zero, toDecimals_zero, eq_comm,
        toDecimals_eq_zero_iff
          (MarketMeta.poolShare_nonneg hshares hexisting.le (m.ourWeight_nonneg b))]
      constructor <;> intro h <;> linarith

/-- A market at even odds that pays fifty dollars a day, in a band of three cents. -/
def rewarded : MarketMeta where
  conditionId := "c"
  question := ""
  slug := "s"
  tokens := (⟨"yes", "Yes"⟩, ⟨"no", "No"⟩)
  tickSize := 1 / 100
  negRisk := false
  minOrderSize := 5
  rewardsMinSize := 50
  rewardsMaxSpread := 3
  rewardsDailyRate := 50
  makerFeeBps := 0
  takerFeeBps := 0
  feesEnabled := false
  endDateIso := none
  eventId := none
  bestBid := 48 / 100
  bestAsk := 50 / 100

/-- `15.0 ** 0.5`, to its last printed digit. -/
def root15 : ℚ := 3872983346207417 / 10 ^ 15

/-- A quote at the mid is paid the same again. -/
theorem rescore_at_mid :
    let b : BookStats := { weightedShares := 500, mid := 49 / 100, spread := 2 / 100 }
    (rescore root15 rewarded b).rewardDailyIncome = 45455 / 10000 ∧
      (rescore root15 rewarded b).rewardDailyIncome =
        (scoreMarket root15 rewarded (some b) none).rewardDailyIncome := by
  intro b
  exact ⟨by decide +kernel, (rescore_iff root15 rewarded ⟨50000, by norm_num [b]⟩).2
    (by unfold MarketMeta.Repays; decide +kernel)⟩

/-- A quote a cent and a half from the mid earns a dollar and twenty-two cents, and four dollars and
fifty-five when it is scored again; so does one outside the band, which earns nothing. -/
theorem not_repaid_at_distance :
    let b : BookStats := { weightedShares := 500, mid := 49 / 100, spread := 2 / 100
                           ourDistanceCents := 3 / 2 }
    let far : BookStats := { b with ourDistanceCents := 4 }
    OnGrid 2 b.weightedShares ∧
      (scoreMarket root15 rewarded (some b) none).rewardDailyIncome = 12195 / 10000 ∧
      (scoreMarket root15 rewarded (some far) none).rewardDailyIncome = 0 ∧
      (rescore root15 rewarded far).rewardDailyIncome = 45455 / 10000 ∧
      (rescore root15 rewarded b).rewardDailyIncome ≠
        (scoreMarket root15 rewarded (some b) none).rewardDailyIncome := by
  intro b far
  exact ⟨⟨50000, by norm_num [b]⟩, by decide +kernel, by decide +kernel, by decide +kernel,
    by decide +kernel⟩

end Polymaker.Catalog
