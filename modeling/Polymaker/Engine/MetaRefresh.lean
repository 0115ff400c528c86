import Polymaker.Catalog.Gamma
import Polymaker.Engine.TickSize

/-!
# Refreshing and parsing metadata

`_apply_meta_refresh` decodes seven fields that `parse_market` decodes too, each its own way.

* `GammaMeta.refreshed`: the fields a refresh takes over, over a row;
* `GammaMeta.traded`, `traded_refreshed`: what the engine reads of a market, which is refreshed as
  `MarketMeta.refreshed` has it;
* `roundToTickChecked`, `RegimeMachine.decideChecked`: the two divisions by the tick, which raise
  where it is zero;
* `Complete`: a row that has the seven fields;
* `exists_refreshed`, `refreshable_eq_iff`: what a refresh makes of such a row, and when the parser
  makes the same of it;
* `refresh_agrees_iff`: they agree exactly when neither the order size nor the tick is a zero.
-/

namespace Polymaker

open JsonTree Raising Rounding

/-! ### The tick as a divisor -/

/-- A division as the host language has it. -/
def checkedDiv (x y : ℚ) : Option ℚ := if y = 0 then none else some (x / y)

theorem isSome_checkedDiv_iff {x y : ℚ} : (checkedDiv x y).isSome ↔ y ≠ 0 := by
  unfold checkedDiv
  split_ifs with h <;> simp [h]

/-- `round_to_tick`, `none` where it raises. -/
def roundToTickChecked (price tick : ℚ) (decimals : ℕ) (up : Bool) : Option ℚ :=
  (checkedDiv price tick).map fun _ => roundToTick price tick decimals up

/-- `jump_ticks`, `none` where it raises. -/
def RegimeInputs.jumpTicksChecked (i : RegimeInputs) : Option ℚ :=
  match i.prevFv with
  | some prev => checkedDiv |i.fv - prev| i.tick
  | none => some 0

/-- `decide`, `none` where it raises: a halt is decided before the jump is measured. -/
def RegimeMachine.decideChecked (rm : RegimeMachine) (i : RegimeInputs) (p : StrategyProfile) :
    Option (RegimeMachine × Regime) :=
  if i.riskHalt ∨ i.wsStale ∨ i.marketResolved ∨ i.EndsWithin p.haltBeforeHours then
    some (rm.decide i p)
  else i.jumpTicksChecked.map fun _ => rm.decide i p

/-- Neither function divides by zero. -/
structure Divides (tick : ℚ) : Prop where
  round : ∀ price decimals up, (roundToTickChecked price tick decimals up).isSome
  decide : ∀ (rm : RegimeMachine) (i : RegimeInputs) (p : StrategyProfile), i.tick = tick →
    (rm.decideChecked i p).isSome

/-- They do not exactly when the tick is not zero. -/
theorem divides_iff {tick : ℚ} : Divides tick ↔ tick ≠ 0 := by
  constructor
  · intro h
    have hround := h.round 0 0 true
    rw [roundToTickChecked, Option.isSome_map] at hround
    exact isSome_checkedDiv_iff.1 hround
  · intro h
    refine ⟨fun price decimals up => ?_, fun rm i p htick => ?_⟩
    · rw [roundToTickChecked, Option.isSome_map]
      exact isSome_checkedDiv_iff.2 h
    · unfold RegimeMachine.decideChecked
      split_ifs
      · rfl
      · rw [Option.isSome_map, RegimeInputs.jumpTicksChecked, htick]
        split
        · exact isSome_checkedDiv_iff.2 h
        · rfl

namespace Catalog

variable {G : GammaHost} {raw : List (String × JsonTree)} {old new parsed : GammaMeta}

/-! ### The refresh -/

/-- `_fnum`: a number, `none` where there is none or it does not parse. -/
def fnum (G : GammaHost) (v : JsonTree) : Except Exc (Option ℚ) :=
  tryExcept [.value, .type] (number G.toHost v)

/-- The market with the fields of a row that has them.  A field that does not differ is left, which
comes to the same. -/
def GammaMeta.refreshed (G : GammaHost) (old : GammaMeta) (raw : List (String × JsonTree)) :
    Except Exc GammaMeta := do
  let fee ← feeSchedule raw
  let rate ← fnum G (getMember fee "rate")
  let rewardsMinSize ← fnum G (getMember raw "rewardsMinSize")
  let rewardsMaxSpread ← fnum G (getMember raw "rewardsMaxSpread")
  let rebateRate ← fnum G (getMember fee "rebateRate")
  let minOrderSize ← fnum G (getMember raw "orderMinSize")
  let tickSize ← fnum G (getMember raw "orderPriceMinTickSize")
  pure
    { old with
      rewardsMinSize := rewardsMinSize.getD old.rewardsMinSize
      rewardsMaxSpread := rewardsMaxSpread.getD old.rewardsMaxSpread
      takerFeeBps := (rate.map feeBps).getD old.takerFeeBps
      rebateRate := rebateRate.getD old.rebateRate
      endDateIso := match getMember raw "endDate" with
        | .null => old.endDateIso
        | date => date
      minOrderSize := minOrderSize.getD old.minOrderSize
      tickSize := tickSize.getD old.tickSize }

/-- What a refresh reads of a number, where it does not raise. -/
theorem eq_number?_of_fnum {v : JsonTree} {o : Option ℚ} (h : fnum G v = .ok o) :
    o = number? G.toHost v := by
  have hesc : ¬ Escapes [.value, .type] (number G.toHost v) := by
    rw [← raises_tryExcept, raises_iff]
    rintro ⟨e, he⟩
    rw [fnum, he] at h
    cases h
  rw [fnum, tryExcept_of_not_escapes hesc] at h
  exact (Except.ok.inj h).symm

/-- A number that reads is what the refresh takes. -/
theorem fnum_of_number? {v : JsonTree} {x : ℚ} (h : number? G.toHost v = some x) :
    fnum G v = .ok (some x) := by
  rw [fnum, number?_eq_some.1 h]
  rfl

/-- **What a refresh leaves**, where it does not raise. -/
theorem refreshed_eq_ok (h : old.refreshed G raw = .ok new) :
    ∃ fee, feeSchedule raw = .ok fee ∧ new =
      { old with
        rewardsMinSize :=
          (number? G.toHost (getMember raw "rewardsMinSize")).getD old.rewardsMinSize
        rewardsMaxSpread :=
          (number? G.toHost (getMember raw "rewardsMaxSpread")).getD old.rewardsMaxSpread
        takerFeeBps :=
          ((number? G.toHost (getMember fee "rate")).map feeBps).getD old.takerFeeBps
        rebateRate := (number? G.toHost (getMember fee "rebateRate")).getD old.rebateRate
        endDateIso := match getMember raw "endDate" with
          | .null => old.endDateIso
          | date => date
        minOrderSize := (number? G.toHost (getMember raw "orderMinSize")).getD old.minOrderSize
        tickSize :=
          (number? G.toHost (getMember raw "orderPriceMinTickSize")).getD old.tickSize } := by
  unfold GammaMeta.refreshed at h
  obtain ⟨fee, hfee, h⟩ := bind_eq_ok.1 h
  obtain ⟨rate, hrate, h⟩ := bind_eq_ok.1 h
  obtain ⟨rmin, hrmin, h⟩ := bind_eq_ok.1 h
  obtain ⟨rmax, hrmax, h⟩ := bind_eq_ok.1 h
  obtain ⟨rebate, hrebate, h⟩ := bind_eq_ok.1 h
  obtain ⟨size, hsize, h⟩ := bind_eq_ok.1 h
  obtain ⟨tick, htick, h⟩ := bind_eq_ok.1 h
  obtain rfl := Except.ok.inj h
  obtain rfl := eq_number?_of_fnum hrate
  obtain rfl := eq_number?_of_fnum hrmin
  obtain rfl := eq_number?_of_fnum hrmax
  obtain rfl := eq_number?_of_fnum hrebate
  obtain rfl := eq_number?_of_fnum hsize
  obtain rfl := eq_number?_of_fnum htick
  exact ⟨fee, hfee, rfl⟩

/-- What the trading components read of a market, `timestamp` being how a date is parsed. -/
def GammaMeta.traded (timestamp : JsonTree → Option ℚ) (cid : ConditionId) (m : GammaMeta) :
    Polymaker.MarketMeta :=
  ⟨cid, m.tokens.1.tokenId, m.tokens.2.tokenId, m.tickSize, m.minOrderSize, m.rewardsMinSize,
    m.rewardsMaxSpread, timestamp m.endDateIso, m.eventId⟩

/-- What a refresh reads of a row for them. -/
def rawMarket (G : GammaHost) (timestamp : JsonTree → Option ℚ) (raw : List (String × JsonTree)) :
    RawMarket where
  rewardsMinSize := number? G.toHost (getMember raw "rewardsMinSize")
  rewardsMaxSpread := number? G.toHost (getMember raw "rewardsMaxSpread")
  endDate := match getMember raw "endDate" with
    | .null => none
    | date => some (timestamp date)
  orderMinSize := number? G.toHost (getMember raw "orderMinSize")
  orderPriceMinTickSize := number? G.toHost (getMember raw "orderPriceMinTickSize")

/-- **The engine's market** is refreshed with them. -/
theorem traded_refreshed (h : old.refreshed G raw = .ok new) (timestamp : JsonTree → Option ℚ)
    (cid : ConditionId) :
    new.traded timestamp cid =
      (old.traded timestamp cid).refreshed (rawMarket G timestamp raw) := by
  obtain ⟨fee, -, rfl⟩ := refreshed_eq_ok h
  unfold GammaMeta.traded MarketMeta.refreshed rawMarket
  congr 1
  simp only
  split <;> rfl

/-! ### Rows with the seven fields -/

/-- The row has the seven fields, numbers but for the date, and its tick is not negative. -/
structure Complete (G : GammaHost) (raw : List (String × JsonTree)) : Prop where
  numbers : ∀ key ∈ ["rewardsMinSize", "rewardsMaxSpread", "orderMinSize",
    "orderPriceMinTickSize"], Readable G.toHost (getMember raw key)
  fees : ∃ fee, feeSchedule raw = .ok fee ∧
    ∀ key ∈ ["rate", "rebateRate"], Readable G.toHost (getMember fee key)
  endDate : ∃ s, getMember raw "endDate" = .str s
  tick_nonneg : ∀ x ∈ number? G.toHost (getMember raw "orderPriceMinTickSize"), 0 ≤ x

/-- A number that counts as false is zero. -/
theorem number_of_not_truthy {v : JsonTree} {x : ℚ} (h : number? G.toHost v = some x)
    (hv : truthy v = false) : x = 0 := by
  cases v with
  | null => cases h
  | bool b =>
    obtain rfl : b = false := hv
    exact (Option.some.inj h).symm
  | int k =>
    obtain rfl : k = 0 := by simpa [truthy] using hv
    rw [number?_eq_some, number] at h
    split_ifs at h
    simpa using (Except.ok.inj h).symm
  | float y =>
    obtain rfl : y = 0 := by simpa [truthy] using hv
    exact (Option.some.inj h).symm
  | str s =>
    obtain rfl : s = "" := by simpa [truthy] using hv
    rw [number?_eq_some, number, G.floatOfString_empty] at h
    cases h
  | arr items => cases h
  | obj members => cases h

/-- The parser reads a number as the refresh does, unless it is a zero and the default is not. -/
theorem floatOr_eq_iff {v : JsonTree} {x : ℚ} (h : number? G.toHost v = some x) (dflt : ℚ) :
    floatOr G v dflt = .ok x ↔ truthy v = true ∨ dflt = 0 := by
  unfold floatOr
  cases hv : truthy v with
  | true => simp [number?_eq_some.1 h]
  | false =>
    obtain rfl := number_of_not_truthy h hv
    simp

/-- What the refresh makes of such a row. -/
structure Refreshes (G : GammaHost) (raw : List (String × JsonTree)) (m : Refreshable) : Prop where
  rewardsMinSize : number? G.toHost (getMember raw "rewardsMinSize") = some m.rewardsMinSize
  rewardsMaxSpread : number? G.toHost (getMember raw "rewardsMaxSpread") = some m.rewardsMaxSpread
  fees : ∃ fee takerRate, feeSchedule raw = .ok fee ∧
    number? G.toHost (getMember fee "rate") = some takerRate ∧ m.takerFeeBps = feeBps takerRate ∧
    number? G.toHost (getMember fee "rebateRate") = some m.rebateRate
  endDateIso : m.endDateIso = getMember raw "endDate"
  minOrderSize : number? G.toHost (getMember raw "orderMinSize") = some m.minOrderSize
  tickSize : number? G.toHost (getMember raw "orderPriceMinTickSize") = some m.tickSize

theorem exists_refreshed (h : Complete G raw) (old : GammaMeta) :
    ∃ new, old.refreshed G raw = .ok new ∧ Refreshes G raw new.refreshable := by
  obtain ⟨fee, hfee, hrates⟩ := h.fees
  obtain ⟨rate, hrate⟩ := Option.isSome_iff_exists.1 (hrates "rate" (by simp))
  obtain ⟨rebate, hrebate⟩ := Option.isSome_iff_exists.1 (hrates "rebateRate" (by simp))
  obtain ⟨rmin, hrmin⟩ := Option.isSome_iff_exists.1 (h.numbers "rewardsMinSize" (by simp))
  obtain ⟨rmax, hrmax⟩ := Option.isSome_iff_exists.1 (h.numbers "rewardsMaxSpread" (by simp))
  obtain ⟨size, hsize⟩ := Option.isSome_iff_exists.1 (h.numbers "orderMinSize" (by simp))
  obtain ⟨tick, htick⟩ := Option.isSome_iff_exists.1 (h.numbers "orderPriceMinTickSize" (by simp))
  obtain ⟨date, hdate⟩ := h.endDate
  obtain ⟨new, hnew⟩ : ∃ new, old.refreshed G raw = .ok new := by
    unfold GammaMeta.refreshed
    simp only [hfee, fnum_of_number? hrate, fnum_of_number? hrmin, fnum_of_number? hrmax,
      fnum_of_number? hrebate, fnum_of_number? hsize, fnum_of_number? htick, bind, Except.bind]
    exact ⟨_, rfl⟩
  refine ⟨new, hnew, ?_⟩
  obtain ⟨fee', hfee', rfl⟩ := refreshed_eq_ok hnew
  obtain rfl := Except.ok.inj (hfee.symm.trans hfee')
  unfold GammaMeta.refreshable
  simp only [hrmin, hrmax, hrate, hrebate, hsize, htick, hdate]
  exact ⟨hrmin, hrmax, ⟨fee, rate, hfee, hrate, rfl, hrebate⟩, hdate.symm, hsize, htick⟩

/-! ### Agreement -/

/-- The refresh leaves the market with the seven fields the parser gives it; so where the parsed
tick is positive, the refreshed one is, and nothing divides by zero. -/
def RefreshAgrees (G : GammaHost) (raw : List (String × JsonTree)) (old parsed : GammaMeta) :
    Prop :=
  ∃ new, old.refreshed G raw = .ok new ∧ new.refreshable = parsed.refreshable ∧
    (0 < parsed.tickSize → 0 < new.tickSize ∧ Divides new.tickSize)

/-- Neither the order size nor the tick of the row is a zero. -/
def NoZero (raw : List (String × JsonTree)) : Prop :=
  truthy (getMember raw "orderMinSize") = true ∧
    truthy (getMember raw "orderPriceMinTickSize") = true

/-- The two decoders give the same fields exactly then. -/
theorem refreshable_eq_iff {m m' : Refreshable} (hrefresh : Refreshes G raw m)
    (hparse : ParsedFrom G raw m') : m = m' ↔ NoZero raw := by
  have hsize := floatOr_eq_iff hrefresh.minOrderSize 5
  have htick := floatOr_eq_iff hrefresh.tickSize (1 / 1000)
  rw [or_iff_left (by norm_num)] at hsize htick
  unfold NoZero
  rw [← hsize, ← htick]
  constructor
  · rintro rfl
    exact ⟨hparse.minOrderSize, hparse.tickSize⟩
  · rintro ⟨hsize, htick⟩
    have hmin := (floatOr_eq_iff hrefresh.rewardsMinSize 0).2 (.inr rfl)
    have hmax := (floatOr_eq_iff hrefresh.rewardsMaxSpread 0).2 (.inr rfl)
    obtain ⟨fee, rate, hfee, hrate, hbps, hrebate⟩ := hrefresh.fees
    obtain ⟨fee', rate', hfee', hrate', hbps', hrebate'⟩ := hparse.fees
    obtain rfl := Except.ok.inj (hfee.symm.trans hfee')
    have hsame := ((floatOr_eq_iff hrate 0).2 (.inr rfl)).symm.trans hrate'
    have hback := ((floatOr_eq_iff hrebate 0).2 (.inr rfl)).symm.trans hrebate'
    ext1
    · exact Except.ok.inj (hmin.symm.trans hparse.rewardsMinSize)
    · exact Except.ok.inj (hmax.symm.trans hparse.rewardsMaxSpread)
    · rw [hbps, hbps', Except.ok.inj hsame]
    · exact Except.ok.inj hback
    · rw [hrefresh.endDateIso, hparse.endDateIso]
    · exact Except.ok.inj (hsize.symm.trans hparse.minOrderSize)
    · exact Except.ok.inj (htick.symm.trans hparse.tickSize)

/-- **When refreshing agrees with parsing.**  For a row that the parser accepts and that has the
seven fields, and every market there is, the refresh leaves what the parser gives, and no division
by zero, if and only if neither the order size nor the tick of the row is a zero. -/
theorem refresh_agrees_iff (G : GammaHost) (rewardRates : Dict ConditionId ℚ) (now : ℚ)
    (raw : List (String × JsonTree)) (old parsed : GammaMeta)
    (hparse : parseMarket G rewardRates now raw = .ok (some parsed)) (h : Complete G raw) :
    RefreshAgrees G raw old parsed ↔ NoZero raw := by
  obtain ⟨new, hnew, hrefresh⟩ := exists_refreshed h old
  have heq := refreshable_eq_iff hrefresh (refreshable_of_parseMarket hparse)
  constructor
  · rintro ⟨new', hnew', hsame, -⟩
    obtain rfl := Except.ok.inj (hnew.symm.trans hnew')
    exact heq.1 hsame
  · intro hzero
    have hsame := heq.2 hzero
    refine ⟨new, hnew, hsame, fun hpos => ?_⟩
    have htick : new.tickSize = parsed.tickSize := congrArg Refreshable.tickSize hsame
    rw [htick]
    exact ⟨hpos, divides_iff.2 hpos.ne'⟩

/-- A row with a tick of 0.01 and an order size of 5. -/
theorem refresh_agrees_of_numbers :
    let G : GammaHost := ⟨⟨fun _ => none, fun _ => ""⟩, fun _ => none, Char.isDigit, rfl⟩
    let raw : List (String × JsonTree) :=
      [("acceptingOrders", .bool true), ("version", .str "v2"), ("conditionId", .str "c"),
        ("positionIds", .arr [.str "11", .str "12"]), ("outcomes", .arr [.str "Yes", .str "No"]),
        ("feeSchedule", .obj [("rate", .float (1 / 100)), ("rebateRate", .int 0)]),
        ("rewardsMinSize", .int 0), ("rewardsMaxSpread", .float (7 / 2)),
        ("endDate", .str "2026-11-03T12:00:00Z"), ("orderMinSize", .int 5),
        ("orderPriceMinTickSize", .float (1 / 100))]
    ∃ parsed, parseMarket G .empty 0 raw = .ok (some parsed) ∧
      ∀ old, RefreshAgrees G raw old parsed := by
  intro G raw
  obtain ⟨parsed, hparse⟩ : ∃ parsed, parseMarket G .empty 0 raw = .ok (some parsed) :=
    exists_of_parseMarket (by decide +kernel)
  have hcomplete : Complete G raw :=
    ⟨by decide +kernel, ⟨_, rfl, by decide +kernel⟩, ⟨_, rfl⟩, by decide +kernel⟩
  exact ⟨parsed, hparse, fun old =>
    (refresh_agrees_iff G .empty 0 raw old parsed hparse hcomplete).2
      ⟨by decide +kernel, by decide +kernel⟩⟩

/-- A tick that the row has as the number zero is parsed as 0.001 and refreshed to zero, which both
functions divide by. -/
theorem not_refreshAgrees_of_zero_tick :
    let G : GammaHost := ⟨⟨fun _ => none, fun _ => ""⟩, fun _ => none, Char.isDigit, rfl⟩
    let raw : List (String × JsonTree) :=
      [("acceptingOrders", .bool true), ("version", .str "v2"), ("conditionId", .str "c"),
        ("positionIds", .arr [.str "11", .str "12"]), ("outcomes", .arr [.str "Yes", .str "No"]),
        ("feeSchedule", .obj [("rate", .float (1 / 100)), ("rebateRate", .int 0)]),
        ("rewardsMinSize", .int 0), ("rewardsMaxSpread", .float (7 / 2)),
        ("endDate", .str "2026-11-03T12:00:00Z"), ("orderMinSize", .int 5),
        ("orderPriceMinTickSize", .int 0)]
    ∃ parsed, parseMarket G .empty 0 raw = .ok (some parsed) ∧ Complete G raw ∧
      parsed.tickSize = 1 / 1000 ∧ (∀ new, parsed.refreshed G raw = .ok new → new.tickSize = 0) ∧
      ¬ Divides 0 ∧ ¬ RefreshAgrees G raw parsed parsed := by
  intro G raw
  obtain ⟨parsed, hparse⟩ : ∃ parsed, parseMarket G .empty 0 raw = .ok (some parsed) :=
    exists_of_parseMarket (by decide +kernel)
  have htick : (parseMarket G .empty 0 raw).toOption.join.map GammaMeta.tickSize =
      some (1 / 1000) := by
    decide +kernel
  rw [hparse] at htick
  replace htick : parsed.tickSize = 1 / 1000 := Option.some.inj htick
  have hraw : number? G.toHost (getMember raw "orderPriceMinTickSize") = some 0 := by decide +kernel
  have hzero : ∀ new, parsed.refreshed G raw = .ok new → new.tickSize = 0 := by
    intro new hnew
    obtain ⟨fee, -, rfl⟩ := refreshed_eq_ok hnew
    simp only [hraw, Option.getD_some]
  refine ⟨parsed, hparse, ⟨by decide +kernel, ⟨_, rfl, by decide +kernel⟩, ⟨_, rfl⟩,
    by decide +kernel⟩, htick, hzero, fun h => divides_iff.1 h rfl, ?_⟩
  rintro ⟨new, hnew, hsame, -⟩
  have hticks : new.tickSize = parsed.tickSize := congrArg Refreshable.tickSize hsame
  rw [hzero new hnew, htick] at hticks
  norm_num at hticks

end Catalog

end Polymaker
