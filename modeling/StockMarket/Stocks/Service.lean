import StockMarket.Stocks.Store

/-! # The stock service

`StockService` with the `CacheService` under it, each function as the calls it
makes in the order it makes them.
-/

namespace StockMarket.Stocks
open Interleaving Prog

namespace RedisKeys

def stockCache (stockId : ObjectId) : String := s!"cache:stock:{stockId}"
def stockCatalogue : String := "cache:stock:catalogue"

end RedisKeys

/-- The cache logs and swallows what Redis throws. -/
def swallow {α : Type} (p : Call α) (fallback : α) : Call α := catching p fun _ => pure fallback

/-- The data of an answered query, or what the driver throws. -/
def await {α : Type} (p : Call (Except Exception α)) : Call α := do
  let reply ← p
  ofExcept reply

structure UpdateStockDto where
  companyName : Option String
  sector : Option String
  currentPrice : Option ℚ
  description : Option String
  currentPrice_pos : ∀ price ∈ currentPrice, 0 < price

/-- Every field is optional; the numbers default to 1 and 20. -/
structure StockQueryDto where
  sector : Option String
  search : Option String
  page : Option ℚ
  limit : Option ℚ
  page_ge : ∀ x ∈ page, 1 ≤ x
  limit_ge : ∀ x ∈ limit, 1 ≤ x

/-- A text that is left out, or empty, is no condition. -/
def given (text : Option String) : Option String := text.filter (· ≠ "")

namespace StockService

def findById (id : ObjectId) : Call StockDoc := do
  match ← swallow (query (.getStockCache (RedisKeys.stockCache id))) none with
  | some cached => pure cached
  | none => do
      match ← query (.findStock id) with
      | none => raise (.notFound "Stock not found")
      | some stock => do
          swallow (query (.setStockCache (RedisKeys.stockCache id) stock)) ()
          pure stock

def findListedById (id : ObjectId) : Call StockDoc := do
  let stock ← findById id
  if ¬stock.isListed then
    raise (.notFound "This stock is not available for new buy orders")
  else
    pure stock

/-- The lines `update` and `delist` share: the write, and the two invalidations. -/
def updateAndInvalidate (id : ObjectId) (set : StockUpdate) : Call StockDoc := do
  match ← query (.updateStock id set) with
  | none => raise (.notFound "Stock not found")
  | some updated => do
      swallow (query (.delCache (RedisKeys.stockCache id))) ()
      swallow (query (.delCache RedisKeys.stockCatalogue)) ()
      pure updated

def update (id : ObjectId) (dto : UpdateStockDto) : Call StockDoc := do
  let newPrice ← match dto.currentPrice with
    | none => pure none
    | some price => do
        let recordedAt ← query .newDate
        pure (some (PriceHistoryEntry.mk (.bson (some price)) recordedAt))
  let updated ← updateAndInvalidate id
    (.fields (given dto.companyName) (given dto.sector) dto.description newPrice)
  match dto.currentPrice with
  | none => pure updated
  | some price => do
      query (.emitPriceUpdated { stockId := id, ticker := updated.ticker, newPrice := price })
      pure updated

def delist (id : ObjectId) : Call StockDoc := updateAndInvalidate id .delisted

/-- The key of a query the catalogue is cached for. -/
def cacheKey (dto : StockQueryDto) : Option String :=
  if dto.page = some 1 ∧ given dto.search = none ∧ given dto.sector = none then
    some RedisKeys.stockCatalogue
  else none

def cachedCatalogue : Option String → Call (Option Catalogue)
  | none => pure none
  | some key => swallow (query (.getCatalogueCache key)) none

def queryCatalogue (dto : StockQueryDto) : Call Catalogue := do
  let filter : StockFilter := { sector := given dto.sector, search := given dto.search }
  let page := dto.page.getD 1
  let limit := dto.limit.getD 20
  let data ← await (query (.findStocks filter ((page - 1) * limit) limit))
  let total ← await (query (.countStocks filter))
  pure { data, total }

def cacheCatalogue (result : Catalogue) : Option String → Call Unit
  | none => pure ()
  | some key => swallow (query (.setCatalogueCache key result)) ()

def findAll (dto : StockQueryDto) : Call Catalogue := do
  match ← cachedCatalogue (cacheKey dto) with
  | some cached => pure cached
  | none => do
      let result ← queryCatalogue dto
      cacheCatalogue result (cacheKey dto)
      pure result

end StockService
end StockMarket.Stocks
