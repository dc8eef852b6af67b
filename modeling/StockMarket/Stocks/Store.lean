import StockMarket.Platform
import StockMarket.Ties
import StockMarket.Interleaving.Pool

/-! # Stocks, the catalogue, and their caches

The stock collection of the trading service, the two kinds of cached JSON in
Redis, and the operations `StockService` makes on them.
-/

namespace StockMarket.Stocks
open Interleaving

/-- Milliseconds, as `new Date()` counts them. -/
abbrev Time := ℕ

structure PriceHistoryEntry where
  price : Decimal
  recordedAt : Time
  deriving DecidableEq, Repr

structure Stock where
  id : ObjectId
  ticker : String
  companyName : String
  sector : String
  currentPrice : Decimal
  description : String
  isListed : Bool
  deriving DecidableEq

structure StockDoc extends Stock where
  priceHistory : List PriceHistoryEntry
  deriving DecidableEq

/-- What is left of a stock after `JSON.stringify` and `JSON.parse`. -/
def Stock.viaJson (stock : Stock) : Stock :=
  { stock with currentPrice := stock.currentPrice.viaJson }

def PriceHistoryEntry.viaJson (entry : PriceHistoryEntry) : PriceHistoryEntry :=
  { entry with price := entry.price.viaJson }

def StockDoc.viaJson (doc : StockDoc) : StockDoc where
  toStock := doc.toStock.viaJson
  priceHistory := doc.priceHistory.map PriceHistoryEntry.viaJson

/-- The price of a stock, whatever form the field has. -/
def Stock.price (stock : Stock) : ℚ := stock.currentPrice.toFloat

@[simp] theorem StockDoc.price_viaJson (doc : StockDoc) : doc.viaJson.price = doc.price := by
  simp only [StockDoc.viaJson, Stock.viaJson, Stock.price]
  cases doc.currentPrice <;> rfl

@[simp] theorem StockDoc.isListed_viaJson (doc : StockDoc) :
    doc.viaJson.isListed = doc.isListed := rfl

structure Collection where
  docs : List StockDoc
  nodup : (docs.map fun doc => doc.id).Nodup

def PRICE_HISTORY_MAX : ℕ := 365

/-- What `findByIdAndUpdate` is given: the fields of an update, where a new price also goes to
the end of the price history, or `{ $set: { isListed: false } }`. -/
inductive StockUpdate where
  | fields (companyName sector description : Option String) (newPrice : Option PriceHistoryEntry)
  | delisted
  deriving DecidableEq, Repr

/-- `$push` with `$each` and `$slice: -PRICE_HISTORY_MAX`. -/
def pushPrice (history : List PriceHistoryEntry) (entry : PriceHistoryEntry) :
    List PriceHistoryEntry :=
  (history ++ [entry]).drop (history.length + 1 - PRICE_HISTORY_MAX)

def StockUpdate.apply (doc : StockDoc) : StockUpdate → StockDoc
  | .fields companyName sector description newPrice =>
      { doc with
        companyName := companyName.getD doc.companyName
        sector := sector.getD doc.sector
        description := description.getD doc.description
        currentPrice := newPrice.elim doc.currentPrice PriceHistoryEntry.price
        priceHistory := newPrice.elim doc.priceHistory (pushPrice doc.priceHistory) }
  | .delisted => { doc with isListed := false }

@[simp] theorem StockUpdate.id_apply (doc : StockDoc) (set : StockUpdate) :
    (set.apply doc).id = doc.id := by
  cases set <;> rfl

namespace Collection

def find (stocks : Collection) (id : ObjectId) : Option StockDoc :=
  stocks.docs.find? fun doc => doc.id = id

def update (stocks : Collection) (id : ObjectId) (set : StockUpdate) : Collection where
  docs := stocks.docs.map fun doc => if doc.id = id then set.apply doc else doc
  nodup := by
    have hids : ((stocks.docs.map fun doc => if doc.id = id then set.apply doc else doc).map
        fun doc => doc.id) = stocks.docs.map fun doc => doc.id := by
      rw [List.map_map]
      refine List.map_congr_left ?_
      intro doc _
      simp only [Function.comp_apply]
      split
      · exact StockUpdate.id_apply doc set
      · rfl
    rw [hids]
    exact stocks.nodup

theorem find_update (stocks : Collection) (id other : ObjectId) (set : StockUpdate) :
    (stocks.update id set).find other =
      if other = id then (stocks.find id).map set.apply else stocks.find other := by
  have hid (doc : StockDoc) : (if doc.id = id then set.apply doc else doc).id = doc.id := by
    split
    · exact StockUpdate.id_apply doc set
    · rfl
  rw [find, update, List.find?_map]
  simp only [Function.comp_def, hid]
  by_cases h : other = id
  · subst h
    rw [if_pos rfl, find]
    cases hfind : stocks.docs.find? fun doc => doc.id = other with
    | none => rfl
    | some doc =>
      have hdoc : doc.id = other := of_decide_eq_true (List.find?_some hfind :)
      rw [Option.map_some, Option.map_some, if_pos hdoc]
  · rw [if_neg h, find]
    cases hfind : stocks.docs.find? fun doc => doc.id = other with
    | none => rfl
    | some doc =>
      have hdoc : doc.id = other := of_decide_eq_true (List.find?_some hfind :)
      rw [Option.map_some, if_neg (hdoc ▸ h)]

end Collection

/-- The filter of `findAll`: listed stocks, of a sector, whose company or ticker matches. -/
structure StockFilter where
  sector : Option String
  search : Option String
  deriving DecidableEq, Repr

/-- A page of the catalogue, and how many stocks there are on all pages. -/
structure Catalogue where
  data : List Stock
  total : ℕ
  deriving DecidableEq

def Catalogue.viaJson (catalogue : Catalogue) : Catalogue :=
  { catalogue with data := catalogue.data.map Stock.viaJson }

structure PriceUpdatedEvent where
  stockId : ObjectId
  ticker : String
  newPrice : ℚ
  deriving DecidableEq

/-- What MongoDB makes of the parts of a query that are not its filter's equalities. -/
structure Server where
  /-- The texts `$regex` matches with the option `i`, if the pattern is one. -/
  regex : String → Option (String → Bool)
  /-- A number as a skip or a limit; a limit of 0 is none. -/
  count : ℚ → Option ℕ
  count_natCast : ∀ n : ℕ, count n = some n
  count_pos : ∀ x, 1 ≤ x → ∀ n ∈ count x, 0 < n
  /-- The order of `sort({ companyName: 1 })`. -/
  sorting : Ties.Sorting fun a b : StockDoc => a.companyName ≤ b.companyName
  /-- What the driver throws when a query is refused. -/
  refusal : Exception

structure Store where
  stocks : Collection
  stockCache : String → Option StockDoc
  catalogueCache : String → Option Catalogue
  now : Time
  outbox : List PriceUpdatedEvent

inductive StockOp where
  | newDate
  | findStock (id : ObjectId)
  /-- `stockModel.findByIdAndUpdate(id, set, { new: true })` -/
  | updateStock (id : ObjectId) (set : StockUpdate)
  /-- `stockModel.find(filter, { priceHistory: 0 }).sort({ companyName: 1 }).skip(…).limit(…)` -/
  | findStocks (filter : StockFilter) (skip limit : ℚ)
  /-- `stockModel.countDocuments(filter)` -/
  | countStocks (filter : StockFilter)
  | getStockCache (key : String)
  | setStockCache (key : String) (doc : StockDoc)
  | getCatalogueCache (key : String)
  | setCatalogueCache (key : String) (result : Catalogue)
  | delCache (key : String)
  | emitPriceUpdated (event : PriceUpdatedEvent)
  deriving DecidableEq

def StockOp.isCache : StockOp → Bool
  | .getStockCache _ => true
  | .setStockCache _ _ => true
  | .getCatalogueCache _ => true
  | .setCatalogueCache _ _ => true
  | .delCache _ => true
  | _ => false

/-- What each operation answers. A query may be refused. -/
abbrev StockOp.Reply : StockOp → Type
  | .newDate => Time
  | .findStock _ => Option StockDoc
  | .updateStock _ _ => Option StockDoc
  | .findStocks _ _ _ => Except Exception (List Stock)
  | .countStocks _ => Except Exception ℕ
  | .getStockCache _ => Option StockDoc
  | .setStockCache _ _ => Unit
  | .getCatalogueCache _ => Option Catalogue
  | .setCatalogueCache _ _ => Unit
  | .delCache _ => Unit
  | .emitPriceUpdated _ => Unit

/-- The texts a search matches, if its pattern is one. -/
def Server.search (server : Server) : Option String → Option (String → Bool)
  | none => some fun _ => true
  | some pattern => server.regex pattern

def Collection.select (server : Server) (stocks : Collection) (filter : StockFilter) :
    Option (List StockDoc) := do
  let search ← server.search filter.search
  return stocks.docs.filter fun doc =>
    doc.isListed ∧ filter.sector.all (doc.sector = ·) ∧
      (search doc.companyName ∨ search doc.ticker)

def Collection.findPage (server : Server) (stocks : Collection) (filter : StockFilter)
    (skip limit : ℚ) : Option (List Stock) := do
  let docs ← stocks.select server filter
  let skip ← server.count skip
  let limit ← server.count limit
  let behind := (server.sorting.order docs).drop skip
  return (if limit = 0 then behind else behind.take limit).map StockDoc.toStock

def exec (server : Server) : (op : StockOp) → Store → op.Reply × Store
  | .newDate, s => (s.now, s)
  | .findStock id, s => (s.stocks.find id, s)
  | .updateStock id set, s =>
      ((s.stocks.update id set).find id, { s with stocks := s.stocks.update id set })
  | .findStocks filter skip limit, s =>
      (match s.stocks.findPage server filter skip limit with
        | some data => .ok data
        | none => .error server.refusal, s)
  | .countStocks filter, s =>
      (match s.stocks.select server filter with
        | some docs => .ok docs.length
        | none => .error server.refusal, s)
  | .getStockCache key, s => (s.stockCache key, s)
  | .setStockCache key doc, s =>
      ((), { s with stockCache := Function.update s.stockCache key (some doc.viaJson) })
  | .getCatalogueCache key, s => (s.catalogueCache key, s)
  | .setCatalogueCache key result, s =>
      ((), { s with catalogueCache := Function.update s.catalogueCache key (some result.viaJson) })
  | .delCache key, s =>
      ((), { s with
        stockCache := Function.update s.stockCache key none
        catalogueCache := Function.update s.catalogueCache key none })
  | .emitPriceUpdated event, s => ((), { s with outbox := s.outbox ++ [event] })

inductive Environment where
  | expire (key : String)
  | tick (ms : Time)

def backend (server : Server) : Backend StockOp StockOp.Reply Store Environment where
  exec := exec server
  env
    | .expire key, s =>
        { s with
          stockCache := Function.update s.stockCache key none
          catalogueCache := Function.update s.catalogueCache key none }
    | .tick ms, s => { s with now := s.now + ms }

abbrev Call (α : Type) := Prog StockOp StockOp.Reply Exception α

abbrev query (op : StockOp) : Call op.Reply := Prog.send op

end StockMarket.Stocks
