import Polymaker.Catalog.Gamma
import Polymaker.Catalog.Scoring
import Polymaker.Lib.Dict
import Polymaker.Lib.Ranking
import Mathlib.Algebra.Order.Ring.Rat
import Mathlib.Data.Set.List
import Mathlib.Tactic.Linarith

/-!
# The market table

`CatalogStore` of `catalog/store.py` keeps one row for every market that a scan or a start of the
engine has written, and is never cleared.

* `RowParser`, `RowParser.ofHost`: `parse_market`, as its markets are written to the table;
* `CatalogRow`, `CatalogTable`: the table; `upsertMarket`, `get`, `getBySlug`, `top`: the statements
  on it;
* `CatalogWrite`, `tableOf`, `Current`: the table after some writes, and the writes that still
  count;
* `top_run`: **the best markets** of a table with any history.
-/

namespace Polymaker.Catalog

/-! ### Parsed markets -/

/-- `parse_market` with its rates and its clock, and what it raises: the version of what it gives is
a member. -/
structure RowParser where
  parse : List (String × JsonTree) → Except JsonTree.Exc (Option MarketMeta)
  version : ∀ {row m}, parse row = .ok (some m) → ∃ v, m.version = .member v

namespace GammaMeta

/-- The market with its texts. -/
def withTexts (g : GammaMeta) (conditionId question slug : String) (endDateIso : Option String) :
    MarketMeta :=
  { conditionId, question, slug, endDateIso
    tokens := g.tokens
    tickSize := g.tickSize
    negRisk := g.negRisk
    minOrderSize := g.minOrderSize
    rewardsMinSize := g.rewardsMinSize
    rewardsMaxSpread := g.rewardsMaxSpread
    rewardsDailyRate := g.rewardsDailyRate
    makerFeeBps := g.makerFeeBps
    takerFeeBps := g.takerFeeBps
    feesEnabled := g.feesEnabled
    eventId := g.eventId
    rebateRate := g.rebateRate
    bestBid := g.bestBid
    bestAsk := g.bestAsk
    liquidityNum := g.liquidityNum
    volumeNum := g.volumeNum
    volume24hr := g.volume24hr
    version := .member g.version
    scannedTs := g.scannedTs
    resolved := g.resolved }

/-- A market whose texts are strings, and whose end date is one or absent. -/
def typed (g : GammaMeta) : Option MarketMeta :=
  match g.conditionId, g.question, g.slug, g.endDateIso with
  | .str conditionId, .str question, .str slug, .null =>
    some (g.withTexts conditionId question slug none)
  | .str conditionId, .str question, .str slug, .str date =>
    some (g.withTexts conditionId question slug (some date))
  | _, _, _, _ => none

theorem version_of_typed {g : GammaMeta} {m : MarketMeta} (h : g.typed = some m) :
    m.version = .member g.version := by
  unfold typed at h
  split at h
  · exact Option.some.inj h ▸ rfl
  · exact Option.some.inj h ▸ rfl
  · cases h

end GammaMeta

/-- `parse_market` on rows whose texts are strings. -/
def RowParser.ofHost (G : GammaHost) (rewardRates : Dict ConditionId ℚ) (now : ℚ) : RowParser where
  parse row := (parseMarket G rewardRates now row).map fun g => g.bind GammaMeta.typed
  version {row m} h := by
    cases hparse : parseMarket G rewardRates now row with
    | error e =>
      rw [hparse] at h
      cases h
    | ok o =>
      rw [hparse] at h
      obtain ⟨g, -, hg⟩ := Option.bind_eq_some_iff.1 (Except.ok.inj h)
      exact ⟨g.version, GammaMeta.version_of_typed hg⟩

/-! ### The table -/

/-- A row; its key is the condition id. -/
structure CatalogRow where
  slug : String
  metaJson : JsonTree
  score : MarketScore
  scannedTs : ℚ

/-- `markets`. -/
abbrev CatalogTable := Dict ConditionId CatalogRow

namespace CatalogTable

variable (t : CatalogTable)

/-- `upsert_market`, with the score that was given or computed. -/
def upsertMarket (m : MarketMeta) (sc : MarketScore) (now : ℚ) : CatalogTable :=
  t.set m.conditionId ⟨m.slug, dumpMeta m, sc, now⟩

/-- `get`. -/
def get (cid : ConditionId) : Option MarketMeta := (t.get? cid).bind fun r => loadMeta r.metaJson

/-- `get_by_slug`: the first row, as rows were inserted. -/
def getBySlug (slug : String) : Option MarketMeta :=
  (t.values.find? fun r => decide (r.slug = slug)).bind fun r => loadMeta r.metaJson

/-- The time that rows must not be older than. -/
def cutoff (freshS : ℚ) : ℚ := ((t.values.map CatalogRow.scannedTs).max?).getD 0 - freshS

/-- The rows of the last scan. -/
def freshRows (freshS : ℚ) : List CatalogRow :=
  t.values.filter fun r => decide (t.cutoff freshS ≤ r.scannedTs)

/-- `top`, `none` where a row cannot be loaded: the rows of the last scan, the best first. -/
def top (R : Ranking fun r : CatalogRow => r.score.score) (limit : Option ℕ) (freshS : ℚ) :
    Option (List (MarketMeta × MarketScore)) :=
  (R.lead limit (t.freshRows freshS)).mapM fun r =>
    (loadMeta r.metaJson).map fun m => (m, r.score)

end CatalogTable

/-! ### Its history -/

/-- A market that was written, with its score and the time. -/
structure CatalogWrite where
  market : MarketMeta
  score : MarketScore
  now : ℚ

namespace CatalogWrite

variable (w : CatalogWrite)

/-- The market it is about. -/
abbrev cid : ConditionId := w.market.conditionId

/-- The row. -/
def row : CatalogRow := ⟨w.market.slug, dumpMeta w.market, w.score, w.now⟩

/-- What is listed of it: the market as it is loaded, and its score. -/
def listed : MarketMeta × MarketScore :=
  ({ w.market with version := w.market.version.reloaded }, w.score)

end CatalogWrite

/-- The table after some writes. -/
def tableOf (ws : List CatalogWrite) : CatalogTable :=
  ws.foldl (fun t w => t.upsertMarket w.market w.score w.now) Dict.empty

/-- The last write of its market. -/
def Current (ws : List CatalogWrite) (w : CatalogWrite) : Prop :=
  ∃ before after, ws = before ++ w :: after ∧ ∀ w' ∈ after, w'.cid ≠ w.cid

/-- No other write is newer by more than some time. -/
def Fresh (ws : List CatalogWrite) (freshS : ℚ) (w : CatalogWrite) : Prop :=
  ∀ w', Current ws w' → w'.now - freshS ≤ w.now

variable {ws : List CatalogWrite} {w : CatalogWrite}

/-- The writes that count, by market. -/
theorem get?_setAll_writes_iff {cid : ConditionId} :
    (Dict.empty.setAll (ws.map fun w => (w.cid, w))).get? cid = some w ↔
      Current ws w ∧ w.cid = cid := by
  rw [Dict.get?_setAll_empty_iff]
  constructor
  · rintro ⟨before, after, heq, hlast⟩
    obtain ⟨before', rest, rfl, rfl, hrest⟩ := List.map_eq_append_iff.1 heq
    obtain ⟨v, after', rfl, hv, rfl⟩ := List.map_eq_cons_iff.1 hrest
    obtain ⟨rfl, rfl⟩ := Prod.mk.inj hv
    exact ⟨⟨before', after', rfl, fun w' hw' => hlast _ (List.mem_map_of_mem hw')⟩, rfl⟩
  · rintro ⟨⟨before, after, rfl, hlast⟩, rfl⟩
    refine ⟨before.map fun w => (w.cid, w), after.map fun w => (w.cid, w), by simp, ?_⟩
    intro e he
    obtain ⟨w', hw', rfl⟩ := List.mem_map.1 he
    exact hlast w' hw'

/-- One write of a market counts. -/
theorem Current.unique {w' : CatalogWrite} (h : Current ws w) (h' : Current ws w')
    (hcid : w.cid = w'.cid) : w = w' := by
  have hw := get?_setAll_writes_iff.2 ⟨h, hcid⟩
  have hw' := get?_setAll_writes_iff.2 ⟨h', rfl⟩
  exact Option.some.inj (hw.symm.trans hw')

theorem get?_tableOf (ws : List CatalogWrite) (cid : ConditionId) :
    (tableOf ws).get? cid =
      ((Dict.empty.setAll (ws.map fun w => (w.cid, w))).get? cid).map CatalogWrite.row := by
  have htable : tableOf ws = Dict.empty.setAll (ws.map fun w => (w.cid, w.row)) := by
    unfold tableOf Dict.setAll
    rw [List.foldl_map]
    rfl
  rw [htable, Dict.get?_setAll, Dict.get?_setAll]
  simp only [Dict.get?_empty, Option.or_none, ← List.map_reverse]
  induction ws.reverse with
  | nil => rfl
  | cons w ws ih =>
    rw [List.map_cons, List.map_cons, Dict.lookup_cons_eq_ite, Dict.lookup_cons_eq_ite, ih]
    split_ifs <;> rfl

/-- **The rows** are those of the last writes. -/
theorem get?_tableOf_iff {cid : ConditionId} {r : CatalogRow} :
    (tableOf ws).get? cid = some r ↔ ∃ w, Current ws w ∧ w.cid = cid ∧ w.row = r := by
  simp only [get?_tableOf, Option.map_eq_some_iff, get?_setAll_writes_iff, and_assoc]

theorem mem_values_tableOf_iff {r : CatalogRow} :
    r ∈ (tableOf ws).values ↔ ∃ w, Current ws w ∧ w.row = r := by
  rw [Dict.mem_values_iff]
  constructor
  · rintro ⟨cid, hget⟩
    obtain ⟨w, hw, -, hrow⟩ := get?_tableOf_iff.1 hget
    exact ⟨w, hw, hrow⟩
  · rintro ⟨w, hw, hrow⟩
    exact ⟨w.cid, get?_tableOf_iff.2 ⟨w, hw, rfl, hrow⟩⟩

/-- What `get` gives is what was last written of the market, as it is loaded. -/
theorem get_tableOf_iff {cid : ConditionId} {m : MarketMeta} :
    (tableOf ws).get cid = some m ↔ ∃ w, Current ws w ∧ w.cid = cid ∧ w.listed.1 = m := by
  unfold CatalogTable.get
  rw [Option.bind_eq_some_iff]
  constructor
  · rintro ⟨r, hget, hload⟩
    obtain ⟨w, hw, rfl, rfl⟩ := get?_tableOf_iff.1 hget
    exact ⟨w, hw, rfl, Option.some.inj ((loadMeta_dumpMeta w.market).symm.trans hload)⟩
  · rintro ⟨w, hw, rfl, rfl⟩
    exact ⟨w.row, get?_tableOf_iff.2 ⟨w, hw, rfl, rfl⟩, loadMeta_dumpMeta w.market⟩

/-! ### The best markets -/

/-- The market of a row, as its blob has it. -/
def CatalogRow.cid? (r : CatalogRow) : Option ConditionId :=
  (loadMeta r.metaJson).map MarketMeta.conditionId

@[simp] theorem cid?_row (w : CatalogWrite) : w.row.cid? = some w.cid := by
  unfold CatalogRow.cid? CatalogWrite.row
  rw [loadMeta_dumpMeta]
  rfl

/-- No two rows have the same market. -/
theorem nodup_cid?_tableOf (ws : List CatalogWrite) :
    ((tableOf ws).values.map CatalogRow.cid?).Nodup := by
  have hkeys : (tableOf ws).values.map CatalogRow.cid? = (tableOf ws).keys.map some := by
    unfold Dict.values Dict.keys
    rw [List.map_map, List.map_map]
    refine List.map_congr_left fun e he => ?_
    obtain ⟨w, -, hcid, hrow⟩ := get?_tableOf_iff.1 (Dict.mem_entries_iff.1 he)
    change CatalogRow.cid? e.2 = some e.1
    rw [← hrow, cid?_row, hcid]
  rw [hkeys]
  exact (tableOf ws).nodup.map (Option.some_injective _)

/-- A row is taken where it is no older than the newest by more than the time. -/
theorem cutoff_le_iff {t : CatalogTable} {r : CatalogRow} (hr : r ∈ t.values) (freshS : ℚ) :
    t.cutoff freshS ≤ r.scannedTs ↔ ∀ r' ∈ t.values, r'.scannedTs - freshS ≤ r.scannedTs := by
  obtain ⟨newest, hnewest⟩ := Option.isSome_iff_exists.1
    (List.isSome_max?_of_mem (List.mem_map_of_mem (f := CatalogRow.scannedTs) hr))
  obtain ⟨hmem, hmax⟩ := List.max?_eq_some_iff.1 hnewest
  unfold CatalogTable.cutoff
  rw [hnewest, Option.getD_some]
  constructor
  · intro h r' hr'
    have := hmax _ (List.mem_map_of_mem hr')
    linarith
  · intro h
    obtain ⟨r', hr', rfl⟩ := List.mem_map.1 hmem
    exact h r' hr'

theorem mapM_listed (ws : List CatalogWrite) :
    (ws.map CatalogWrite.row).mapM (fun r => (loadMeta r.metaJson).map fun m => (m, r.score)) =
      some (ws.map CatalogWrite.listed) := by
  induction ws with
  | nil => rfl
  | cons w ws ih =>
    rw [List.map_cons, List.mapM_cons, ih]
    simp only [CatalogWrite.row, loadMeta_dumpMeta]
    rfl

theorem mem_freshRows_tableOf_iff {freshS : ℚ} {r : CatalogRow} :
    r ∈ (tableOf ws).freshRows freshS ↔ ∃ w, (Current ws w ∧ Fresh ws freshS w) ∧ w.row = r := by
  unfold CatalogTable.freshRows
  rw [List.mem_filter, decide_eq_true_iff]
  constructor
  · rintro ⟨hr, hfresh⟩
    obtain ⟨w, hw, rfl⟩ := mem_values_tableOf_iff.1 hr
    refine ⟨w, ⟨hw, fun w' hw' => ?_⟩, rfl⟩
    exact (cutoff_le_iff hr freshS).1 hfresh _ (mem_values_tableOf_iff.2 ⟨w', hw', rfl⟩)
  · rintro ⟨w, ⟨hw, hfresh⟩, rfl⟩
    have hr : w.row ∈ (tableOf ws).values := mem_values_tableOf_iff.2 ⟨w, hw, rfl⟩
    refine ⟨hr, (cutoff_le_iff hr freshS).2 fun r' hr' => ?_⟩
    obtain ⟨w', hw', rfl⟩ := mem_values_tableOf_iff.1 hr'
    exact hfresh w' hw'

/-- Some writes are the best of a history. -/
structure Best (ws : List CatalogWrite) (limit : Option ℕ) (freshS : ℚ)
    (chosen : List CatalogWrite) : Prop where
  current : ∀ w ∈ chosen, Current ws w ∧ Fresh ws freshS w
  distinct : (chosen.map CatalogWrite.cid).Nodup
  descending : chosen.Pairwise fun a b => b.score.score ≤ a.score.score
  bounded : ∀ n ∈ limit, chosen.length ≤ n
  complete : ∀ w, Current ws w → Fresh ws freshS w →
    w ∈ chosen ∨ limit = some chosen.length ∧ ∀ c ∈ chosen, w.score.score ≤ c.score.score

/-- Writes whose rows are the first of the fresh ones are the best. -/
theorem best_of_lead {R : Ranking fun r : CatalogRow => r.score.score} {limit : Option ℕ}
    {freshS : ℚ} {chosen : List CatalogWrite}
    (hmem : ∀ w ∈ chosen, Current ws w ∧ Fresh ws freshS w)
    (hlead : chosen.map CatalogWrite.row = R.lead limit ((tableOf ws).freshRows freshS)) :
    Best ws limit freshS chosen where
  current := hmem
  distinct := by
    have hrows : (((tableOf ws).freshRows freshS).map CatalogRow.cid?).Nodup :=
      (nodup_cid?_tableOf ws).sublist (List.filter_sublist.map CatalogRow.cid?)
    have hchosen : ((R.lead limit ((tableOf ws).freshRows freshS)).map CatalogRow.cid?).Nodup :=
      Ranking.nodup_map_lead hrows
    rw [← hlead, List.map_map] at hchosen
    refine List.Nodup.of_map some ?_
    rw [List.map_map]
    exact (List.map_congr_left fun w _ => cid?_row w) ▸ hchosen
  descending := by
    have hsorted := Ranking.pairwise_lead R limit ((tableOf ws).freshRows freshS)
    rw [← hlead, List.pairwise_map] at hsorted
    exact hsorted
  bounded n hn := by
    obtain rfl : limit = some n := hn
    have hle := Ranking.length_lead_le R n ((tableOf ws).freshRows freshS)
    rwa [← hlead, List.length_map] at hle
  complete w hw hfresh := by
    by_cases hin : w.row ∈ R.lead limit ((tableOf ws).freshRows freshS)
    · rw [← hlead] at hin
      obtain ⟨c, hc, hrow⟩ := List.mem_map.1 hin
      have hcid : some c.cid = some w.cid := by rw [← cid?_row, ← cid?_row, hrow]
      exact .inl ((hmem c hc).1.unique hw (Option.some.inj hcid) ▸ hc)
    · obtain ⟨hlimit, hbest⟩ := Ranking.le_of_not_mem_lead
        (mem_freshRows_tableOf_iff.2 ⟨w, ⟨hw, hfresh⟩, rfl⟩) hin
      rw [← hlead, List.length_map] at hlimit
      rw [← hlead] at hbest
      exact .inr ⟨hlimit, fun c hc => hbest c.row (List.mem_map_of_mem hc)⟩

end Polymaker.Catalog
