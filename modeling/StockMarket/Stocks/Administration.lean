import StockMarket.Stocks.Pool
import StockMarket.Interleaving.Interpretation

/-! # Creating stocks beside changing them

`create` looks for its ticker before it inserts, and the two unique indexes
decide when several calls do so at once. The pool holds `create` and the calls
on single stocks side by side.
-/

namespace StockMarket.Stocks
open Interleaving Prog

/-- White space and line ends, as `String.prototype.trim` takes them. -/
def isTrimmed (c : Char) : Bool :=
  let n := c.toNat
  (9 ≤ n && n ≤ 13) || n == 0x20 || n == 0xA0 || n == 0x1680 || (0x2000 ≤ n && n ≤ 0x200A) ||
    n == 0x2028 || n == 0x2029 || n == 0x202F || n == 0x205F || n == 0x3000 || n == 0xFEFF

/-- `s.trim()` -/
def trim (s : String) : String :=
  String.ofList ((s.toList.dropWhile isTrimmed).reverse.dropWhile isTrimmed).reverse

/-- `s.toUpperCase()` of a text in ASCII. -/
def toUpperCase (s : String) : String := String.ofList (s.toList.map Char.toUpper)

/-- The setters of the schema. -/
def StockDoc.cast (doc : StockDoc) : StockDoc :=
  { doc with ticker := trim (toUpperCase doc.ticker), companyName := trim doc.companyName }

/-- The `required` validators of the schema, which reject empty strings. -/
def StockDoc.Valid (doc : StockDoc) : Prop :=
  doc.ticker ≠ "" ∧ doc.companyName ≠ "" ∧ doc.sector ≠ ""

instance (doc : StockDoc) : Decidable doc.Valid := inferInstanceAs (Decidable (_ ∧ _ ∧ _))

/-- The unique indexes on `_id` and on the ticker admit the document. -/
def Collection.Admits (stocks : Collection) (doc : StockDoc) : Prop :=
  (∀ other ∈ stocks.docs, other.id ≠ doc.id) ∧ ∀ other ∈ stocks.docs, other.ticker ≠ doc.ticker

instance (stocks : Collection) (doc : StockDoc) : Decidable (stocks.Admits doc) :=
  inferInstanceAs (Decidable (_ ∧ _))

namespace Collection

def insert (stocks : Collection) (doc : StockDoc) (h : stocks.Admits doc) : Collection where
  docs := stocks.docs ++ [doc]
  nodup := by
    rw [List.map_append, List.nodup_append]
    refine ⟨stocks.nodup, List.nodup_singleton _, ?_⟩
    intro id hid other hother
    obtain ⟨present, hpresent, rfl⟩ := List.mem_map.mp hid
    obtain rfl := List.mem_singleton.mp hother
    exact h.1 present hpresent

theorem Admits.find_eq_none {stocks : Collection} {doc : StockDoc} (h : stocks.Admits doc) :
    stocks.find doc.id = none := by
  rw [find, List.find?_eq_none]
  intro other hother
  simpa using h.1 other hother

theorem find_insert {stocks : Collection} {doc : StockDoc} (h : stocks.Admits doc)
    (id : ObjectId) :
    (stocks.insert doc h).find id = if doc.id = id then some doc else stocks.find id := by
  by_cases hid : doc.id = id
  · subst hid
    have hnone := h.find_eq_none
    rw [find] at hnone
    simp [find, insert, List.find?_append, hnone]
  · simp [find, insert, List.find?_append, hid]

end Collection

/-- What `stockModel.create` comes to: the document, or what Mongoose or MongoDB throws. -/
inductive Saved where
  | created (doc : StockDoc)
  | invalid
  | duplicate
  deriving DecidableEq

inductive AdminOp where
  /-- An operation of the calls on single stocks -/
  | single (op : StockOp)
  | findByTicker (ticker : String)
  | createStock (doc : StockDoc)
  deriving DecidableEq

abbrev AdminOp.Reply : AdminOp → Type
  | .single op => op.Reply
  | .findByTicker _ => Option StockDoc
  | .createStock _ => Saved

def execAdmin (server : Server) : (op : AdminOp) → Store → op.Reply × Store
  | .single op, s => exec server op s
  | .findByTicker ticker, s => (s.stocks.docs.find? fun doc => doc.ticker = ticker, s)
  | .createStock doc, s =>
      if ¬doc.cast.Valid then (.invalid, s)
      else if h : s.stocks.Admits doc.cast then
        (.created doc.cast, { s with stocks := s.stocks.insert doc.cast h })
      else (.duplicate, s)

def adminBackend (server : Server) : Backend AdminOp AdminOp.Reply Store Environment where
  exec := execAdmin server
  env := (backend server).env

abbrev AdminCall (α : Type) := Prog AdminOp AdminOp.Reply Exception α

/-- A call on single stocks in the larger pool. -/
def single {α : Type} (p : Call α) : AdminCall α :=
  p.substitute fun op => send (AdminOp.single op)

/-- The pattern of a ticker is one to five letters from A to Z. -/
structure CreateStockDto where
  ticker : String
  companyName : String
  sector : String
  currentPrice : ℚ
  description : Option String
  ticker_length : 1 ≤ ticker.toList.length ∧ ticker.toList.length ≤ 5
  ticker_letters : ticker.toList.all fun c => 'A' ≤ c ∧ c ≤ 'Z'
  companyName_ne : companyName ≠ ""
  sector_ne : sector ≠ ""
  currentPrice_pos : 0 < currentPrice

namespace StockService

/-- The document `create` saves. Mongoose gives it its id. -/
def newStock (id : ObjectId) (dto : CreateStockDto) (recordedAt : Time) : StockDoc where
  id := id
  ticker := toUpperCase dto.ticker
  companyName := dto.companyName
  sector := dto.sector
  currentPrice := .bson (some dto.currentPrice)
  description := dto.description.getD ""
  isListed := true
  priceHistory := [⟨.bson (some dto.currentPrice), recordedAt⟩]

def create (id : ObjectId) (dto : CreateStockDto) : AdminCall StockDoc := do
  match ← send (AdminOp.findByTicker (toUpperCase dto.ticker)) with
  | some _ => raise (.conflict s!"Stock with ticker \"{dto.ticker}\" already exists")
  | none => do
      let recordedAt ← send (AdminOp.single .newDate)
      match ← send (AdminOp.createStock (newStock id dto recordedAt)) with
      | .created stock => do
          single (swallow (query (.delCache RedisKeys.stockCatalogue)) ())
          pure stock
      | .invalid => raise (.driver "Stock validation failed")
      | .duplicate => raise (.driver "E11000 duplicate key error")

end StockService

inductive AdminRequest where
  | create (id : ObjectId) (dto : CreateStockDto)
  | single (request : Request)

def AdminRequest.serve : AdminRequest → AdminCall StockDoc
  | .create id dto => StockService.create id dto
  | .single request => Stocks.single request.serve

abbrev AdminState := Config ℕ AdminOp AdminOp.Reply Store Exception StockDoc
abbrev AdminEntry := Entry ℕ AdminOp AdminOp.Reply

/-- The pool before any of its calls has done anything. -/
def AdminState.start (store : Store) (requests : ℕ → AdminRequest) : AdminState :=
  Config.start store fun i => (requests i).serve

end StockMarket.Stocks
