import Polymaker.Lib.Rounding
import Polymaker.MarketData.OrderBook
import Polymaker.Strategy.Regime

/-!
# Quote construction

The pure quoter of `strategy/quoting.py`: market state, inventory and profile to target quotes.

* `roundToTick`, `computeFairValue`, `exitUrgency`: the price and urgency helpers;
* `QuoteInputs` and its derived quantities: inventory, skew, half-spread, size scale;
* `placeBid`, `sizeShares`, `addLayers`: one entry leg, `entryQuotes`;
* `maybeExit`: the exit of one token;
* `constructQuotes`: both entries, then both exits;
* `side_of_mem_entries`, `side_of_mem_exits`: entries buy and exits sell, so a target set with a
  bid comes from a regime that quotes both sides (`calm_of_buy_mem`), and one without is made of
  exits (`constructQuotes_eq_exits`).
-/

namespace Polymaker

open Rounding

/-! ### Prices -/

/-- `price_decimals`: the decimals of the tick, printed with six and stripped of zeros. -/
def MarketMeta.priceDecimals (m : MarketMeta) : ℕ :=
  ((List.range 7).find? fun d =>
    decide ((10 : ℤ) ^ (6 - d) ∣ halfEven (m.tickSize * 10 ^ 6))).getD 6

/-- `round_to_tick`. -/
def roundToTick (price tick : ℚ) (decimals : ℕ) (up : Bool) : ℚ :=
  let n := price / tick
  let n := if up then ⌈n - eps⌉ else ⌊n + eps⌋
  let p := toDecimals decimals (n * tick)
  min (max p tick) (1 - tick)

/-- The default `weight` of `compute_fair_value`. -/
def flowWeight : ℚ := 1 / 2

/-- `compute_fair_value`. -/
def computeFairValue (microprice flowZ tick weight : ℚ) : ℚ :=
  let fv := microprice + weight * flowZ * tick
  min (max fv tick) (1 - tick)

/-- `exit_urgency`: how hard to chase the touch, from how long the position was held. -/
def exitUrgency (heldS halfLifeS : ℚ) : ℚ :=
  if halfLifeS ≤ 0 then 1
  else
    let u := heldS / halfLifeS
    if u ≤ 0 then 0 else min 1 (u * u)

/-- `_clamp`. -/
def clamp (x lo hi : ℚ) : ℚ := min (max x lo) hi

/-! ### Inputs -/

/-- What the quoter reads. -/
structure QuoteInputs where
  m : MarketMeta
  regime : Regime
  fv : ℚ
  volShort : ℚ
  toxicity : ℚ
  yesView : BookView
  noView : BookView
  posYes : Position
  posNo : Position
  profile : StrategyProfile
  now : ℚ
  riskSizeScale : ℚ := 1
  yesExitUrgency : ℚ := 0
  noExitUrgency : ℚ := 0
  midPrice : ℚ := 0
  deriving DecidableEq, Repr

namespace QuoteInputs

variable (i : QuoteInputs)

/-- `net_shares`: inventory in YES-equivalent shares. -/
def netShares : ℚ := i.posYes.size - i.posNo.size

/-- `q_max_shares`. -/
def qMaxShares : ℚ := i.profile.qMaxUsdc / max i.fv i.m.tickSize

/-- `u`: inventory as a fraction of its cap. -/
def u : ℚ := if 0 < i.qMaxShares then clamp (i.netShares / i.qMaxShares) (-1) 1 else 0

/-- `reward_floor`. -/
def rewardFloor : ℚ := i.m.rewardsMinSize * i.profile.rewardSizeMult

/-- `skew`. -/
def skew : ℚ := i.profile.gamma * i.volShort * i.u

/-- `base`: the least half-spread. -/
def base : ℚ := i.profile.deltaMinTicks * i.m.tickSize

/-- `reward_band`. -/
def rewardBand : ℚ := i.m.rewardsMaxSpread / 100

/-- `r`: the reservation price. -/
def r : ℚ := i.fv - i.skew

/-- `mid`. -/
def mid : ℚ := if 0 < i.midPrice then i.midPrice else i.fv

/-- `room`: what the band leaves for the half-spread. -/
def room : ℚ := i.rewardBand - |i.fv - i.mid| - i.profile.minEdgeTicks * i.m.tickSize

/-- `delta`: the half-spread, kept inside the reward band in `QUIET` where the band has room. -/
def delta : ℚ :=
  let d := i.base + i.profile.cVol * i.volShort + i.profile.cTox * i.toxicity
  let d :=
    if i.regime = .quiet ∧ 0 < i.rewardBand then
      if i.base - eps ≤ i.room then clamp d i.base (max i.base i.room) else d
    else d
  max d i.m.tickSize

/-- `common_scale`. -/
def commonScale : ℚ :=
  (if i.regime = .trending then 1 / 2 else 1) * (1 / (1 + i.toxicity * 10))
    * clamp i.riskSizeScale 0 1

/-- `add_yes`. -/
def addYes : Prop := i.regime ≠ .reduceOnly ∧ i.u < i.profile.qSoftFrac

instance : Decidable i.addYes := inferInstanceAs (Decidable (_ ∧ _))

/-- `add_no`. -/
def addNo : Prop := i.regime ≠ .reduceOnly ∧ -i.profile.qSoftFrac < i.u

instance : Decidable i.addNo := inferInstanceAs (Decidable (_ ∧ _))

end QuoteInputs

/-! ### Entries -/

/-- `_place_bid`: join the touch or sit behind it, never cross, keep the edge to fair value. -/
def placeBid (target : ℚ) (view : BookView) (tick : ℚ) (dec : ℕ) (fv : ℚ) (minEdgeTicks : ℤ)
    (mid rewardBand : ℚ) : Option ℚ :=
  let price := min target (fv - minEdgeTicks * tick)
  let price := if 0 < rewardBand then min price (mid + rewardBand - tick) else price
  let price := match view.bestBid with
    | some b => if b ≤ price then b else price
    | none => price
  let price := match view.bestAsk with
    | some a => if a ≤ price then a - tick else price
    | none => price
  let p := roundToTick price tick dec false
  if p ≤ 0 ∨ 1 ≤ p then none
  else
    match view.bestAsk with
    | some a => if a ≤ p then none else some p
    | none => some p

/-- `_size_shares`. -/
def sizeShares (baseUsdc price scale : ℚ) (m : MarketMeta) : ℚ :=
  let shares := baseUsdc / max price m.tickSize * max scale 0
  if 0 < shares then toDecimals 2 shares else 0

/-- `per`: the size of one of `n` layers. -/
def perLayer (totalSize : ℚ) (n : ℕ) : ℚ := toDecimals 2 (totalSize / n)

/-- A layer this small does not score, or is below the exchange minimum. -/
def TooSmall (exchangeMin rewardFloor per : ℚ) : Prop :=
  per < exchangeMin ∨ (0 < rewardFloor ∧ per < rewardFloor)

instance (exchangeMin rewardFloor per : ℚ) : Decidable (TooSmall exchangeMin rewardFloor per) :=
  inferInstanceAs (Decidable (_ ∨ _))

/-- The loop of `_add_layers` that drops layers until each one scores. -/
def consolidate (totalSize exchangeMin rewardFloor : ℚ) : ℕ → ℕ
  | 0 | 1 => 1
  | n + 2 =>
    if TooSmall exchangeMin rewardFloor (perLayer totalSize (n + 2)) then
      consolidate totalSize exchangeMin rewardFloor (n + 1)
    else n + 2

/-- `_add_layers`, stepping down from the touch: the quotes it appends. -/
def addLayers (tokenId : TokenId) (side : Side) (topPrice tick : ℚ) (dec : ℕ) (totalSize : ℚ)
    (layers stepTicks : ℤ) (exchangeMin rewardFloor mid rewardBand : ℚ) : List Quote :=
  if totalSize ≤ 0 then []
  else
    let rewardFloor := max rewardFloor exchangeMin
    let n := consolidate totalSize exchangeMin rewardFloor (max 1 layers).toNat
    let per := perLayer totalSize n
    if per < exchangeMin ∨ per ≤ 0 then []
    else if 0 < rewardFloor ∧ per < rewardFloor then []
    else
      let prices := (List.range n).map fun i : ℕ =>
        toDecimals dec (topPrice - i * stepTicks * tick)
      -- the first layer outside the band ends the loop
      let inBand := prices.takeWhile fun price =>
        decide (¬ (0 < rewardBand ∧ rewardBand + eps < |mid - price|))
      (inBand.filter fun price => decide (0 < price ∧ price < 1)).map fun price =>
        ⟨tokenId, side, price, per⟩

/-- One entry leg of `construct_quotes`: `target` is where the bid wants to be, `fv` and `mid` are
in the token's own price space, and `u` is the utilisation on the leg's own side. -/
def entryQuotes (i : QuoteInputs) (tokenId : TokenId) (target : ℚ) (view : BookView)
    (fv mid u : ℚ) : List Quote :=
  let tick := i.m.tickSize
  let dec := i.m.priceDecimals
  match placeBid target view tick dec fv i.profile.minEdgeTicks mid i.rewardBand with
  | none => []
  | some price =>
    addLayers tokenId .buy price tick dec
      (sizeShares i.profile.baseSizeUsdc price (i.commonScale * (1 - max u 0)) i.m)
      i.profile.layers i.profile.layerStepTicks i.m.minOrderSize i.rewardFloor mid i.rewardBand

/-! ### Exits -/

/-- The price of `_maybe_exit`: it walks from fair value plus `delta` to one tick above the best
bid as the urgency goes to one, and never crosses that bid. -/
def exitPrice (tokenFv delta : ℚ) (view : BookView) (tick : ℚ) (dec : ℕ) (urgency : ℚ)
    (regime : Regime) : ℚ :=
  let passive := tokenFv + delta
  let floor := match view.bestBid with
    | some b => b + tick
    | none => passive
  let urgency := if regime = .reduceOnly then max urgency (1 / 2) else urgency
  let target := passive * (1 - urgency) + floor * urgency
  let target := match view.bestBid with
    | some b => max target (b + tick)
    | none => target
  roundToTick target tick dec true

/-- The size of `_maybe_exit`, floored as selling more than is held is rejected. -/
def exitSize (pos : Position) : ℚ := ⌊pos.size * 100⌋ / 100

/-- `_maybe_exit`: the quotes it appends, one at most. -/
def maybeExit (tokenId : TokenId) (pos : Position) (tokenFv delta : ℚ) (view : BookView)
    (tick : ℚ) (dec : ℕ) (urgency : ℚ) (m : MarketMeta) (regime : Regime) : List Quote :=
  let price := exitPrice tokenFv delta view tick dec urgency regime
  let size := exitSize pos
  if pos.size < m.minOrderSize then []
  else if 0 < price ∧ price < 1 ∧ m.minOrderSize ≤ size then [⟨tokenId, .sell, price, size⟩]
  else []

/-! ### The target set -/

/-- The entry bids of both legs; the NO leg is measured from the NO token's own midpoint. -/
def QuoteInputs.entries (i : QuoteInputs) : List Quote :=
  (if i.addYes then
    entryQuotes i i.m.yes (i.r - i.delta) i.yesView i.fv i.mid i.u
  else []) ++
  (if i.addNo then
    entryQuotes i i.m.no (1 - i.r - i.delta) i.noView (1 - i.fv) (1 - i.mid) (-i.u)
  else [])

/-- The exits of both tokens. -/
def QuoteInputs.exits (i : QuoteInputs) : List Quote :=
  maybeExit i.m.yes i.posYes i.fv i.delta i.yesView i.m.tickSize i.m.priceDecimals
    i.yesExitUrgency i.m i.regime ++
  maybeExit i.m.no i.posNo (1 - i.fv) i.delta i.noView i.m.tickSize i.m.priceDecimals
    i.noExitUrgency i.m i.regime

/-- `construct_quotes`. -/
def constructQuotes (i : QuoteInputs) : TargetQuotes :=
  match i.regime with
  | .event | .halted => ⟨i.m.conditionId, i.regime, []⟩
  | _ => ⟨i.m.conditionId, i.regime, i.entries ++ i.exits⟩

/-! ### Sides and tokens -/

theorem mem_addLayers {tok : TokenId} {side : Side} {topPrice tick : ℚ} {dec : ℕ} {totalSize : ℚ}
    {layers stepTicks : ℤ} {exchangeMin rewardFloor mid rewardBand : ℚ} {q : Quote}
    (h : q ∈ addLayers tok side topPrice tick dec totalSize layers stepTicks exchangeMin
      rewardFloor mid rewardBand) : q.tokenId = tok ∧ q.side = side := by
  unfold addLayers at h
  simp only at h
  split_ifs at h
  all_goals first
    | exact absurd h List.not_mem_nil
    | (obtain ⟨price, -, rfl⟩ := List.mem_map.1 h; exact ⟨rfl, rfl⟩)

/-- An entry leg bids for its own token. -/
theorem mem_entryQuotes {i : QuoteInputs} {tok : TokenId} {target : ℚ} {view : BookView}
    {fv mid u : ℚ} {q : Quote} (h : q ∈ entryQuotes i tok target view fv mid u) :
    q.tokenId = tok ∧ q.side = .buy := by
  unfold entryQuotes at h
  simp only at h
  split at h
  · exact absurd h List.not_mem_nil
  · exact mem_addLayers h

/-- An exit is one offer of its own token. -/
theorem maybeExit_cases (tok : TokenId) (pos : Position) (tokenFv delta : ℚ) (view : BookView)
    (tick : ℚ) (dec : ℕ) (urgency : ℚ) (m : MarketMeta) (regime : Regime) :
    maybeExit tok pos tokenFv delta view tick dec urgency m regime = [] ∨
    ∃ price size, maybeExit tok pos tokenFv delta view tick dec urgency m regime =
      [⟨tok, .sell, price, size⟩] := by
  unfold maybeExit
  simp only
  split_ifs
  · exact .inl rfl
  · exact .inr ⟨_, _, rfl⟩
  · exact .inl rfl

theorem QuoteInputs.side_of_mem_entries {i : QuoteInputs} {q : Quote} (h : q ∈ i.entries) :
    q.side = .buy ∧ q.tokenId ∈ i.m.tokens := by
  unfold QuoteInputs.entries at h
  rcases List.mem_append.1 h with h | h <;> split_ifs at h <;>
    first
    | exact absurd h List.not_mem_nil
    | (obtain ⟨htok, hside⟩ := mem_entryQuotes h
       exact ⟨hside, by simp [MarketMeta.tokens, htok]⟩)

/-- The exits sell, one token each. -/
theorem QuoteInputs.exits_cases (i : QuoteInputs) :
    ∃ ys ns : List Quote, i.exits = ys ++ ns ∧
      (ys = [] ∨ ∃ price size, ys = [⟨i.m.yes, .sell, price, size⟩]) ∧
      (ns = [] ∨ ∃ price size, ns = [⟨i.m.no, .sell, price, size⟩]) :=
  ⟨_, _, rfl, maybeExit_cases .., maybeExit_cases ..⟩

theorem QuoteInputs.side_of_mem_exits {i : QuoteInputs} {q : Quote} (h : q ∈ i.exits) :
    q.side = .sell ∧ q.tokenId ∈ i.m.tokens := by
  obtain ⟨ys, ns, heq, hys, hns⟩ := i.exits_cases
  rw [heq] at h
  rcases hys with rfl | ⟨p, s, rfl⟩ <;> rcases hns with rfl | ⟨p', s', rfl⟩ <;>
    simp only [List.nil_append, List.append_nil, List.cons_append, List.mem_cons,
      List.not_mem_nil, or_false] at h
  · exact ⟨by rw [h], by simp [MarketMeta.tokens, h]⟩
  · exact ⟨by rw [h], by simp [MarketMeta.tokens, h]⟩
  · rcases h with h | h <;> exact ⟨by rw [h], by simp [MarketMeta.tokens, h]⟩

/-- The regime lets quotes rest. -/
def QuoteInputs.LetsExit (i : QuoteInputs) : Prop := i.regime ≠ .event ∧ i.regime ≠ .halted

theorem constructQuotes_of_letsExit {i : QuoteInputs} (h : i.LetsExit) :
    (constructQuotes i).quotes = i.entries ++ i.exits := by
  unfold constructQuotes
  split
  · exact absurd ‹_› h.1
  · exact absurd ‹_› h.2
  · rfl

theorem letsExit_of_mem {i : QuoteInputs} {q : Quote} (h : q ∈ (constructQuotes i).quotes) :
    i.LetsExit := by
  constructor <;> intro hr <;> simp only [constructQuotes, hr, List.not_mem_nil] at h

theorem mem_entries_of_buy {i : QuoteInputs} {q : Quote} (h : q ∈ (constructQuotes i).quotes)
    (hbuy : q.side = .buy) : q ∈ i.entries := by
  rw [constructQuotes_of_letsExit (letsExit_of_mem h)] at h
  refine (List.mem_append.1 h).resolve_right fun hexit => ?_
  rw [(QuoteInputs.side_of_mem_exits hexit).1] at hbuy
  cases hbuy

theorem mem_exits_of_sell {i : QuoteInputs} {q : Quote} (h : q ∈ (constructQuotes i).quotes)
    (hsell : q.side = .sell) : i.LetsExit ∧ q ∈ i.exits := by
  have hlets := letsExit_of_mem h
  rw [constructQuotes_of_letsExit hlets] at h
  refine ⟨hlets, (List.mem_append.1 h).resolve_left fun hentry => ?_⟩
  rw [(QuoteInputs.side_of_mem_entries hentry).1] at hsell
  cases hsell

/-- The targets are for the market's own tokens. -/
theorem tokenId_mem_of_mem_constructQuotes {i : QuoteInputs} {q : Quote}
    (h : q ∈ (constructQuotes i).quotes) : q.tokenId ∈ i.m.tokens := by
  rw [constructQuotes_of_letsExit (letsExit_of_mem h)] at h
  rcases List.mem_append.1 h with h | h
  · exact (QuoteInputs.side_of_mem_entries h).2
  · exact (QuoteInputs.side_of_mem_exits h).2

/-- A bid is quoted in a regime that quotes both sides. -/
theorem calm_of_buy_mem {i : QuoteInputs} {q : Quote} (h : q ∈ (constructQuotes i).quotes)
    (hbuy : q.side = .buy) : i.regime = .trending ∨ i.regime = .quiet := by
  have hlets := letsExit_of_mem h
  have hentry := mem_entries_of_buy h hbuy
  cases hreg : i.regime with
  | quiet => exact .inr rfl
  | trending => exact .inl rfl
  | event => exact absurd hreg hlets.1
  | halted => exact absurd hreg hlets.2
  | reduceOnly =>
    -- neither leg is added
    have hyes : ¬ i.addYes := fun ha => ha.1 hreg
    have hno : ¬ i.addNo := fun ha => ha.1 hreg
    simp only [QuoteInputs.entries, if_neg hyes, if_neg hno, List.append_nil] at hentry
    exact absurd hentry List.not_mem_nil

/-- A target set without bids is made of exits. -/
theorem constructQuotes_eq_exits {i : QuoteInputs}
    (h : ∀ q ∈ (constructQuotes i).quotes, q.side = .sell) :
    (constructQuotes i).quotes = [] ∨ (constructQuotes i).quotes = i.exits := by
  by_cases hlets : i.LetsExit
  · right
    rw [constructQuotes_of_letsExit hlets] at h ⊢
    have hnone : i.entries = [] := by
      rw [List.eq_nil_iff_forall_not_mem]
      intro q hq
      have hsell := h q (List.mem_append_left _ hq)
      rw [(QuoteInputs.side_of_mem_entries hq).1] at hsell
      cases hsell
    rw [hnone, List.nil_append]
  · left
    rw [List.eq_nil_iff_forall_not_mem]
    exact fun q hq => hlets (letsExit_of_mem hq)

end Polymaker
