import StockMarket.Analytics.Service
import Mathlib.Algebra.BigOperators.Ring.List

/-! # Sector allocation against assets under management

The two pipelines join and filter alike, so the sectors partition the rows that
the position value is summed over. Only the last stage rounds, each percentage
by at most half a hundredth.
-/

namespace StockMarket.Analytics
open Aggregation Stocks AnalyticsService

section Sums

theorem sum_map_some (values : List ℚ) : sum (values.map some) = some values.sum := by
  induction values with
  | nil => rfl
  | cons value values ih =>
    have hcons : sum ((value :: values).map some) =
        ((value : WithTop ℚ) + (show WithTop ℚ from sum (values.map some))) := rfl
    rw [hcons, ih]
    rfl

theorem numbers_of_sum {values : List Number} {total : ℚ} (h : sum values = some total) :
    ∃ numbers : List ℚ, values = numbers.map some ∧ numbers.sum = total := by
  induction values generalizing total with
  | nil => exact ⟨[], rfl, Option.some.inj h⟩
  | cons value values ih =>
    obtain ⟨x, y, hx, hy, htotal⟩ := WithTop.add_eq_coe.mp h
    obtain ⟨numbers, rfl, rfl⟩ := ih hy.symm
    exact ⟨x :: numbers, by rw [List.map_cons]; exact congrArg (· :: _) hx.symm, by
      rw [List.sum_cons]
      exact_mod_cast htotal⟩

theorem sum_perm {values values' : List Number} (h : values.Perm values') :
    sum values = sum values' := List.Perm.sum_eq (M := WithTop ℚ) h

end Sums

section Pipelines
variable (positions : List Position) (stocks : Collection)

/-- The rows that both pipelines keep: a position with shares and its stock. -/
def heldStocks : List (Position × StockDoc) :=
  unwind (lookup Position.stockId (fun doc : StockDoc => doc.id) stocks.docs
    (positions.filter fun position => 0 < position.shares))

theorem totalPositionValue_eq : totalPositionValue positions stocks =
    ((group (fun _ => ()) (heldStocks positions stocks)).map fun g =>
      sum (g.2.map marketValue)).head? := rfl

theorem sectorTotals_eq : sectorTotals positions stocks =
    (group (fun row => row.2.sector) (heldStocks positions stocks)).map fun g =>
      (g.1, sum (g.2.map marketValue)) := rfl

theorem mem_heldStocks {positions : List Position} {stocks : Collection}
    {row : Position × StockDoc} : row ∈ heldStocks positions stocks ↔
      (row.1 ∈ positions ∧ 0 < row.1.shares) ∧ row.2 ∈ stocks.docs ∧ row.2.id = row.1.stockId := by
  obtain ⟨position, doc⟩ := row
  simp [heldStocks, mem_unwind_lookup]

theorem unroundedPositionValue_eq : unroundedPositionValue positions stocks =
    sum ((heldStocks positions stocks).map marketValue) := by
  rw [unroundedPositionValue, totalPositionValue_eq, group_unit]
  split
  · rename_i hnone
    rw [hnone]
    rfl
  · rfl

theorem sum_sectorTotals : sum ((sectorTotals positions stocks).map Prod.snd) =
    sum ((heldStocks positions stocks).map marketValue) := by
  rw [sectorTotals_eq, List.map_map]
  exact sum_group (M := WithTop ℚ) _ _ _

/-- The second grouping only adds the grand total to each sector. -/
theorem getSectorAllocation_perm (sorting : Ties.Sorting largestFirst) :
    (getSectorAllocation sorting positions stocks).Perm
      ((sectorTotals positions stocks).map fun s =>
        project (unroundedPositionValue positions stocks) s.1 s.2) := by
  refine (sorting.perm _).trans (.of_eq ?_)
  rw [unroundedPositionValue_eq, ← sum_sectorTotals, group_unit]
  split
  · rename_i hnone
    rw [hnone]
    rfl
  · simp [unwind]

theorem sectors_perm (sorting : Ties.Sorting largestFirst) :
    ((getSectorAllocation sorting positions stocks).map SectorAllocationEntry.sector).Perm
      ((heldStocks positions stocks).map fun row => row.2.sector).dedup := by
  have h := (getSectorAllocation_perm positions stocks sorting).map SectorAllocationEntry.sector
  rw [List.map_map] at h
  rw [← group_keys]
  simpa [sectorTotals_eq, Function.comp_def, project] using h

variable {positions stocks}

/-- Where the whole is positive, every percentage is a number, the rounded part of it. -/
theorem percentages_perm (sorting : Ties.Sorting largestFirst) {total : ℚ}
    (htotal : unroundedPositionValue positions stocks = some total) (hpos : 0 < total) :
    ∃ parts : List ℚ, parts.sum = 100 ∧
      ((getSectorAllocation sorting positions stocks).map SectorAllocationEntry.percentage).Perm
        ((parts.map (roundTo 2)).map some) := by
  have hsum : sum ((sectorTotals positions stocks).map Prod.snd) = some total := by
    rw [sum_sectorTotals, ← unroundedPositionValue_eq, htotal]
  obtain ⟨values, hvalues, rfl⟩ := numbers_of_sum hsum
  refine ⟨values.map fun value => value / values.sum * 100, ?_, ?_⟩
  · have hparts : values.map (fun value => value / values.sum * 100) =
        values.map fun value => value * (100 / values.sum) :=
      List.map_congr_left fun value _ => div_mul_comm value values.sum 100 |>.trans (mul_comm _ _)
    rw [hparts, List.sum_map_mul_right, List.map_id', mul_div_cancel₀ _ hpos.ne']
  · refine ((getSectorAllocation_perm positions stocks sorting).map _).trans (.of_eq ?_)
    have hshare (value : ℚ) : (project (some values.sum) "" (some value)).percentage =
        some (roundTo 2 (value / values.sum * 100)) := by
      rw [project, share, if_pos hpos]
      rfl
    rw [htotal, List.map_map, List.map_map]
    calc (sectorTotals positions stocks).map _
        = ((sectorTotals positions stocks).map Prod.snd).map fun value =>
            (project (some values.sum) "" value).percentage := by
          rw [List.map_map]
          rfl
      _ = _ := by
          rw [hvalues, List.map_map, List.map_map]
          exact List.map_congr_left fun value _ => hshare value

end Pipelines

/-- With positive prices the value of the positions is a number, and positive as soon as
one position with shares finds its stock. -/
theorem unroundedPositionValue_pos {positions : List Position} {stocks : Collection}
    (hprice : ∀ doc ∈ stocks.docs, ∃ price, 0 < price ∧ doc.currentPrice = .bson (some price)) :
    ∃ total, unroundedPositionValue positions stocks = some total ∧ 0 ≤ total ∧
      (0 < total ↔ heldStocks positions stocks ≠ []) := by
  have hvalue : ∀ row ∈ heldStocks positions stocks, ∃ x, 0 < x ∧ marketValue row = some x := by
    intro row hrow
    obtain ⟨⟨-, hshares⟩, hdoc, -⟩ := mem_heldStocks.mp hrow
    obtain ⟨price, hpos, heq⟩ := hprice row.2 hdoc
    exact ⟨row.1.shares * price, mul_pos hshares hpos, by rw [marketValue, heq]; rfl⟩
  rw [unroundedPositionValue_eq]
  generalize heldStocks positions stocks = rows at hvalue ⊢
  induction rows with
  | nil => exact ⟨0, rfl, le_refl _, by simp⟩
  | cons row rows ih =>
    obtain ⟨x, hx, hrow⟩ := hvalue row List.mem_cons_self
    obtain ⟨total, htotal, hnonneg, -⟩ := ih fun r hr => hvalue r (List.mem_cons_of_mem _ hr)
    refine ⟨x + total, ?_, by linarith, iff_of_true (by linarith) (by simp)⟩
    have hcons : sum ((row :: rows).map marketValue) = ((show WithTop ℚ from marketValue row) +
        (show WithTop ℚ from sum (rows.map marketValue))) := rfl
    rw [hcons, hrow, htotal]
    rfl

/-- The sector totals add up to the value of the positions; each sector with a held stock
appears once; and where that value is positive the `n` percentages add up to 100, within
`n` roundings. -/
theorem getSectorAllocation_partition (sorting : Ties.Sorting largestFirst)
    (positions : List Position) (stocks : Collection) :
    sum ((sectorTotals positions stocks).map Prod.snd) =
        unroundedPositionValue positions stocks ∧
      ((getSectorAllocation sorting positions stocks).map SectorAllocationEntry.sector).Nodup ∧
      (∀ sector,
        sector ∈ (getSectorAllocation sorting positions stocks).map SectorAllocationEntry.sector ↔
          ∃ position ∈ positions, 0 < position.shares ∧
            ∃ doc ∈ stocks.docs, doc.id = position.stockId ∧ doc.sector = sector) ∧
      ∀ total, unroundedPositionValue positions stocks = some total → 0 < total →
        ∃ percentages, sum ((getSectorAllocation sorting positions stocks).map
            SectorAllocationEntry.percentage) = some percentages ∧
          |percentages - 100| ≤
            (getSectorAllocation sorting positions stocks).length * (5 / 1000) := by
  refine ⟨?_, ?_, ?_, ?_⟩
  · rw [sum_sectorTotals, unroundedPositionValue_eq]
  · exact (sectors_perm positions stocks sorting).nodup_iff.mpr (List.nodup_dedup _)
  · intro sector
    rw [(sectors_perm positions stocks sorting).mem_iff, List.mem_dedup, List.mem_map]
    constructor
    · rintro ⟨row, hrow, rfl⟩
      obtain ⟨⟨hposition, hshares⟩, hdoc, hid⟩ := mem_heldStocks.mp hrow
      exact ⟨row.1, hposition, hshares, row.2, hdoc, hid, rfl⟩
    · rintro ⟨position, hposition, hshares, doc, hdoc, hid, rfl⟩
      exact ⟨(position, doc), mem_heldStocks.mpr ⟨⟨hposition, hshares⟩, hdoc, hid⟩, rfl⟩
  · intro total htotal hpos
    obtain ⟨parts, hparts, hperm⟩ := percentages_perm sorting htotal hpos
    refine ⟨(parts.map (roundTo 2)).sum, ?_, ?_⟩
    · rw [sum_perm hperm, sum_map_some]
    · have hlength : (getSectorAllocation sorting positions stocks).length = parts.length := by
        simpa using hperm.length_eq
      have hround (x : ℚ) : |roundTo 2 x - x| ≤ 5 / 1000 :=
        (abs_roundTo_sub_le 2 x).trans (by norm_num)
      rw [hlength, ← hparts]
      exact abs_sum_map_sub_le hround parts

section Example

def sampleDoc (id : ObjectId) (sector : String) (price : ℚ) : StockDoc where
  id := id
  ticker := sector
  companyName := sector
  sector := sector
  currentPrice := .bson (some price)
  description := ""
  isListed := true
  priceHistory := []

/-- Stocks of three sectors at the prices 10, 20 and 30. -/
def threeSectors : Collection where
  docs :=
    [sampleDoc (.ofText "65de9f00a1b2c3d4e5f6a7d1" (by decide)) "Energy" 10,
      sampleDoc (.ofText "65de9f00a1b2c3d4e5f6a7d2" (by decide)) "Tech" 20,
      sampleDoc (.ofText "65de9f00a1b2c3d4e5f6a7d3" (by decide)) "Retail" 30]
  nodup := by decide

/-- Three equal values, a position that was sold, and one whose stock is gone. -/
def fivePositions : List Position :=
  [⟨.ofText "65de9f00a1b2c3d4e5f6a7d1" (by decide), 6⟩,
    ⟨.ofText "65de9f00a1b2c3d4e5f6a7d1" (by decide), 0⟩,
    ⟨.ofText "65de9f00a1b2c3d4e5f6a7d2" (by decide), 3⟩,
    ⟨.ofText "65de9f00a1b2c3d4e5f6a7d3" (by decide), 2⟩,
    ⟨.ofText "65de9f00a1b2c3d4e5f6a7d4" (by decide), 4⟩]

example : getSectorAllocation (.stable _) fivePositions threeSectors =
    [⟨"Energy", some 60, some (3333 / 100)⟩, ⟨"Tech", some 60, some (3333 / 100)⟩,
      ⟨"Retail", some 60, some (3333 / 100)⟩] := by decide +kernel

theorem getSectorAllocation_partition_thirds : ∃ percentages,
    sum ((getSectorAllocation (.stable _) fivePositions threeSectors).map
      SectorAllocationEntry.percentage) = some percentages ∧
        |percentages - 100| ≤
          (getSectorAllocation (.stable _) fivePositions threeSectors).length * (5 / 1000) :=
  (getSectorAllocation_partition (.stable _) fivePositions threeSectors).2.2.2 180
    (by decide +kernel) (by norm_num)

end Example
end StockMarket.Analytics
