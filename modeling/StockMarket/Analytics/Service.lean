import StockMarket.Platform
import StockMarket.Ties
import StockMarket.Aggregation
import StockMarket.Stocks.Store
import Mathlib.Algebra.Order.Monoid.WithTop

/-! # Assets under management and sector allocation

The two pipelines of `AnalyticsService` over the positions and the stocks they
are joined with, stage after stage. Arithmetic is exact.
-/

namespace StockMarket.Analytics
open Aggregation Stocks

/-- What the pipelines read of a position. -/
structure Position where
  stockId : ObjectId
  shares : ℚ
  deriving DecidableEq

structure AumResult where
  walletBalances : Number
  positionValues : Number
  totalAum : Number
  deriving DecidableEq

structure SectorAllocationEntry where
  sector : String
  totalValue : Number
  percentage : Number
  deriving DecidableEq

/-- `$toDouble: { $toString: price }`. A stored price has the driver's form. -/
def toDouble (price : Decimal) : Number := price.parseFloat

/-- `$sum`: one `NaN` makes the sum `NaN`, as a top element does. -/
def sum (values : List Number) : Number := List.sum (α := WithTop ℚ) values

/-- The order MongoDB sorts numbers in, with `NaN` below all others. -/
def atMost : Number → Number → Prop
  | none, _ => True
  | some _, none => False
  | some x, some y => x ≤ y

/-- `$sort: { totalValue: -1 }` -/
def largestFirst (a b : SectorAllocationEntry) : Prop := atMost b.totalValue a.totalValue

instance : (x y : Number) → Decidable (atMost x y)
  | none, _ => .isTrue trivial
  | some _, none => .isFalse id
  | some x, some y => inferInstanceAs (Decidable (x ≤ y))

instance : DecidableRel largestFirst := fun _ _ => inferInstanceAs (Decidable (atMost _ _))

theorem atMost_total (x y : Number) : atMost x y ∨ atMost y x := by
  rcases x with _ | x
  · exact .inl trivial
  · rcases y with _ | y
    · exact .inr trivial
    · exact le_total x y

theorem atMost_trans {x y z : Number} (hxy : atMost x y) (hyz : atMost y z) : atMost x z := by
  rcases x with _ | x
  · trivial
  · rcases y with _ | y
    · cases hxy
    · rcases z with _ | z
      · cases hyz
      · exact le_trans (α := ℚ) hxy hyz

instance : Std.Total largestFirst := ⟨fun a b => atMost_total b.totalValue a.totalValue⟩

instance : IsTrans SectorAllocationEntry largestFirst :=
  ⟨fun _ _ _ hab hbc => atMost_trans hbc hab⟩

/-- `$multiply: ['$shares', { $toDouble: { $toString: '$stock.currentPrice' } }]` -/
def marketValue (row : Position × StockDoc) : Number :=
  (toDouble row.2.currentPrice).map (row.1.shares * ·)

/-- The pipeline of `getAum`, and `posResult?.totalPositionValue`: there is no result if
there are no rows. -/
def totalPositionValue (positions : List Position) (stocks : Collection) : Option Number :=
  let matching := positions.filter fun position => 0 < position.shares
  let joined := lookup Position.stockId (fun doc : StockDoc => doc.id) stocks.docs matching
  ((group (fun _ => ()) (unwind joined)).map fun g => sum (g.2.map marketValue)).head?

/-- The pipeline of `getSectorAllocation` up to its first `$group`: the sectors and their
totals, before anything is rounded. -/
def sectorTotals (positions : List Position) (stocks : Collection) : List (String × Number) :=
  let matching := positions.filter fun position => 0 < position.shares
  let joined := lookup Position.stockId (fun doc : StockDoc => doc.id) stocks.docs matching
  (group (fun row => row.2.sector) (unwind joined)).map fun g => (g.1, sum (g.2.map marketValue))

def share : (grandTotal totalValue : Number) → Number
  | some grandTotal, totalValue =>
      if 0 < grandTotal then totalValue.map fun value => value / grandTotal * 100 else some 0
  | none, _ => some 0

/-- The last `$project`. -/
def project (grandTotal : Number) (sector : String) (totalValue : Number) :
    SectorAllocationEntry where
  sector := sector
  totalValue := totalValue.map (roundTo 2)
  percentage := (share grandTotal totalValue).map (roundTo 2)

namespace AnalyticsService

/-- The unrounded value that `getAum` goes on with. -/
def unroundedPositionValue (positions : List Position) (stocks : Collection) : Number :=
  (totalPositionValue positions stocks).getD (some 0)

/-- `walletAum` is the reply of the wallet service, if it replies. -/
def getAum (walletAum : Except Exception (Option Number)) (positions : List Position)
    (stocks : Collection) : AumResult :=
  let positionValues := (unroundedPositionValue positions stocks).map (toFixed 2)
  let walletBalances := match walletAum with
    | .ok totalWalletBalance => totalWalletBalance.getD (some 0)
    | .error _ => some 0
  { walletBalances
    positionValues
    totalAum := (Option.map₂ (· + ·) walletBalances positionValues).map (toFixed 2) }

/-- Equal totals come in any order. -/
def getSectorAllocation (sorting : Ties.Sorting largestFirst) (positions : List Position)
    (stocks : Collection) : List SectorAllocationEntry :=
  let all := (group (fun _ => ()) (sectorTotals positions stocks)).map fun g =>
    (sum (g.2.map Prod.snd), g.2)
  sorting.order ((unwind all).map fun row => project row.1 row.2.1 row.2.2)

end AnalyticsService
end StockMarket.Analytics
