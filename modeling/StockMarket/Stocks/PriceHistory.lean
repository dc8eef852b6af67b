import StockMarket.Stocks.Administration
import StockMarket.Stocks.Coherence
import Mathlib.Data.List.DropRight

/-! # The price history of a stock

Whatever calls run side by side, the history of a stock is the tail of the prices
that creating and updating it have set, in the order in which the store has
carried the writes out.
-/

namespace StockMarket.Stocks
open Interleaving Prog

/-- Keeping the last entries of a list and pushing one more keeps the last entries of all. -/
theorem rtake_push {α : Type*} (l : List α) (a : α) (n : ℕ) :
    (l.rtake n ++ [a]).rtake n = (l ++ [a]).rtake n := by
  simp only [List.rtake_eq_reverse_take_reverse, List.reverse_append, List.reverse_reverse,
    List.reverse_singleton, List.singleton_append]
  cases n with
  | zero => rfl
  | succ n => simp [List.take_take]

theorem rtake_min {α : Type*} (l : List α) (n : ℕ) : l.rtake (min n l.length) = l.rtake n := by
  rw [List.rtake, List.rtake]
  congr 1
  omega

/-- A price as the schema keeps it. -/
def decimal (price : ℚ) : Decimal := .bson (some price)

def StockUpdate.pushed : StockUpdate → Option Decimal
  | .fields _ _ _ newPrice => newPrice.map PriceHistoryEntry.price
  | .delisted => none

/-- The document is what the prices, oldest first, have made of it. -/
structure Follows (prices : List ℚ) (doc : StockDoc) : Prop where
  history : doc.priceHistory.map PriceHistoryEntry.price =
    (prices.map decimal).rtake PRICE_HISTORY_MAX
  current : (prices.map decimal).getLast? = some doc.currentPrice

section Documents
variable {prices : List ℚ} {doc : StockDoc} {set : StockUpdate}

theorem pushPrice_eq (history : List PriceHistoryEntry) (entry : PriceHistoryEntry) :
    (pushPrice history entry).map PriceHistoryEntry.price =
      (history.map PriceHistoryEntry.price ++ [entry.price]).rtake PRICE_HISTORY_MAX := by
  simp [pushPrice, List.rtake, List.map_drop]

theorem priceHistory_fields (doc : StockDoc) (companyName sector description : Option String)
    (newPrice : Option PriceHistoryEntry) :
    (StockUpdate.apply doc (.fields companyName sector description newPrice)).priceHistory =
      newPrice.elim doc.priceHistory (pushPrice doc.priceHistory) := rfl

/-- An update without a price changes neither the price nor the history. -/
theorem StockUpdate.apply_unpriced (doc : StockDoc) (hset : set.pushed = none) :
    (set.apply doc).priceHistory = doc.priceHistory ∧
      (set.apply doc).currentPrice = doc.currentPrice := by
  cases set with
  | delisted => exact ⟨rfl, rfl⟩
  | fields companyName sector description newPrice =>
    cases newPrice with
    | none => exact ⟨rfl, rfl⟩
    | some entry => cases hset

theorem StockUpdate.apply_priced (doc : StockDoc) {price : Decimal}
    (hset : set.pushed = some price) :
    (set.apply doc).priceHistory.map PriceHistoryEntry.price =
        (doc.priceHistory.map PriceHistoryEntry.price ++ [price]).rtake PRICE_HISTORY_MAX ∧
      (set.apply doc).currentPrice = price := by
  cases set with
  | delisted => cases hset
  | fields companyName sector description newPrice =>
    cases newPrice with
    | none => cases hset
    | some entry =>
      obtain rfl : entry.price = price := Option.some.inj hset
      rw [priceHistory_fields, Option.elim_some]
      exact ⟨pushPrice_eq doc.priceHistory entry, rfl⟩

theorem Follows.unpriced (h : Follows prices doc) (hset : set.pushed = none) :
    Follows prices (set.apply doc) := by
  obtain ⟨hhistory, hcurrent⟩ := StockUpdate.apply_unpriced doc hset
  exact ⟨by rw [hhistory, h.history], by rw [hcurrent, h.current]⟩

theorem Follows.priced (h : Follows prices doc) {price : ℚ}
    (hset : set.pushed = some (decimal price)) : Follows (prices ++ [price]) (set.apply doc) := by
  obtain ⟨hhistory, hcurrent⟩ := StockUpdate.apply_priced doc hset
  constructor
  · rw [hhistory, h.history, rtake_push, List.map_append, List.map_singleton]
  · rw [hcurrent, List.map_append, List.map_singleton, List.getLast?_concat]

theorem follows_newStock (id : ObjectId) (dto : CreateStockDto) (recordedAt : Time) :
    Follows [dto.currentPrice] (StockService.newStock id dto recordedAt).cast := by
  constructor
  · simp [StockService.newStock, StockDoc.cast, decimal, List.rtake, PRICE_HISTORY_MAX]
  · rfl

end Documents

def AdminRequest.price : AdminRequest → Option ℚ
  | .create _ dto => some dto.currentPrice
  | .single (.update _ dto) => dto.currentPrice
  | .single _ => none

/-- Updates push just this price. -/
def SetsPrice (price : Option ℚ) : StockOp → Prop
  | .updateStock _ set => set.pushed = price.map decimal
  | _ => True

/-- What a request may send, by the price it sets. -/
def AdminRequest.MaySend (r : AdminRequest) : AdminOp → Prop
  | .single op => SetsPrice r.price op
  | .findByTicker _ => True
  | .createStock doc =>
      ∃ id dto recordedAt, r = .create id dto ∧ doc = StockService.newStock id dto recordedAt

section Sends
variable {price : Option ℚ} {α : Type}

theorem sends_swallow {op : StockOp} (hop : SetsPrice price op) (fallback : op.Reply) :
    (swallow (query op) fallback).Sends (SetsPrice price) := by
  apply Sends.catching
  · exact sends_send hop
  · exact fun _ => trivial

theorem sends_findById (id : ObjectId) :
    (StockService.findById id).Sends (SetsPrice price) := by
  apply (sends_swallow (by trivial) _).bind
  intro cached
  cases cached with
  | some doc => trivial
  | none =>
    apply Sends.send (by trivial)
    intro found
    cases found with
    | none => trivial
    | some doc => exact (sends_swallow (by trivial) _).bind fun _ => trivial

theorem sends_updateAndInvalidate (id : ObjectId) {set : StockUpdate}
    (hset : set.pushed = price.map decimal) :
    (StockService.updateAndInvalidate id set).Sends (SetsPrice price) := by
  have hop : SetsPrice price (.updateStock id set) := hset
  apply Sends.send hop
  intro updated
  cases updated with
  | none => trivial
  | some doc =>
    apply (sends_swallow (by trivial) _).bind
    intro _
    exact (sends_swallow (by trivial) _).bind fun _ => trivial

theorem sends_update (id : ObjectId) (dto : UpdateStockDto) :
    (StockService.update id dto).Sends (SetsPrice dto.currentPrice) := by
  rw [StockService.update]
  rcases hprice : dto.currentPrice with _ | price
  · exact (sends_updateAndInvalidate id rfl).bind fun _ => trivial
  · apply Sends.send (by trivial)
    intro recordedAt
    apply (sends_updateAndInvalidate id rfl).bind
    intro updated
    exact Sends.send (by trivial) fun _ => trivial

theorem Request.sends (r : Request) :
    r.serve.Sends (SetsPrice (AdminRequest.single r).price) := by
  cases r with
  | findById id => exact sends_findById id
  | findListedById id =>
    apply (sends_findById id).bind
    intro stock
    split <;> trivial
  | update id dto => exact sends_update id dto
  | delist id => exact sends_updateAndInvalidate id rfl

theorem Sends.single {r : AdminRequest} {p : Call α} (hp : p.Sends (SetsPrice r.price)) :
    (Stocks.single p).Sends r.MaySend :=
  hp.substitute _ fun _ hop => sends_send hop

theorem AdminRequest.sends (r : AdminRequest) : r.serve.Sends r.MaySend := by
  cases r with
  | single request => exact Sends.single request.sends
  | create id dto =>
    apply Sends.send (by trivial)
    intro existing
    cases existing with
    | some doc => trivial
    | none =>
      apply Sends.send (by trivial)
      intro recordedAt
      apply Sends.send ⟨id, dto, recordedAt, rfl, rfl⟩
      intro saved
      cases saved with
      | created stock =>
        apply (Sends.single (sends_swallow (by trivial) _)).bind
        intro _
        trivial
      | invalid => trivial
      | duplicate => trivial

end Sends

/-- A write of the stock: an insertion, or an update that has found it. -/
def AdminOp.writes (id : ObjectId) : (op : AdminOp) → op.Reply → Bool
  | .createStock _, .created doc => doc.id = id
  | .single (.updateStock id' _), updated => id' = id && (updated : Option StockDoc).isSome
  | _, _ => false

/-- The prices the requests have set for the stock, oldest first. -/
def pricesSet (requests : ℕ → AdminRequest) (id : ObjectId) (log : List AdminEntry) : List ℚ :=
  log.reverse.filterMap fun e =>
    if e.reaction.op.writes id e.reaction.reply then (requests e.caller).price else none

section Invariant
variable {server : Server} {requests : ℕ → AdminRequest} {id : ObjectId} {s : Store}
  {log : List AdminEntry} {i : ℕ} {op : AdminOp} {reply : op.Reply}

theorem pricesSet_cons_written (h : op.writes id reply = true) :
    pricesSet requests id (⟨i, op, reply⟩ :: log) =
      pricesSet requests id log ++ (requests i).price.toList := by
  rw [pricesSet, List.reverse_cons, List.filterMap_append, pricesSet]
  cases hprice : (requests i).price <;> simp [h, hprice]

theorem pricesSet_cons_unwritten (h : op.writes id reply = false) :
    pricesSet requests id (⟨i, op, reply⟩ :: log) = pricesSet requests id log := by
  rw [pricesSet, List.reverse_cons, List.filterMap_append, pricesSet]
  simp [h]

/-- The stock is what its prices have made of it; while it is absent it has none. -/
structure Kept (requests : ℕ → AdminRequest) (id : ObjectId) (s : Store) (log : List AdminEntry) :
    Prop where
  absent : s.stocks.find id = none → pricesSet requests id log = []
  follows : ∀ doc, s.stocks.find id = some doc → Follows (pricesSet requests id log) doc

/-- An operation that does not write the stock leaves it as it is. -/
theorem Kept.unwritten (h : Kept requests id s log) {s' : Store}
    (hfind : s'.stocks.find id = s.stocks.find id) (hop : op.writes id reply = false) :
    Kept requests id s' (⟨i, op, reply⟩ :: log) := by
  constructor
  · intro hnone
    rw [pricesSet_cons_unwritten hop]
    exact h.absent (hfind ▸ hnone)
  · intro doc hdoc
    rw [pricesSet_cons_unwritten hop]
    exact h.follows doc (hfind ▸ hdoc)

/-- A write that leaves a document which follows the longer list of prices. -/
theorem Kept.written {s' : Store} {doc : StockDoc} (hfind : s'.stocks.find id = some doc)
    (hop : op.writes id reply = true)
    (hdoc : Follows (pricesSet requests id log ++ (requests i).price.toList) doc) :
    Kept requests id s' (⟨i, op, reply⟩ :: log) := by
  constructor
  · intro hnone
    rw [hfind] at hnone
    cases hnone
  · intro doc' hdoc'
    obtain rfl : doc = doc' := Option.some.inj (hfind.symm.trans hdoc')
    rw [pricesSet_cons_written hop]
    exact hdoc

/-- An update keeps the invariant, with a price and without. -/
theorem Kept.update (server : Server) (h : Kept requests id s log) {set : StockUpdate}
    {found : ObjectId} (hset : SetsPrice (requests i).price (.updateStock found set)) :
    Kept requests id (exec server (.updateStock found set) s).2
      (⟨i, .single (.updateStock found set), (exec server (.updateStock found set) s).1⟩ ::
        log) := by
  have hexec : (exec server (.updateStock found set) s).2.stocks.find id =
      if id = found then (s.stocks.find found).map set.apply else s.stocks.find id :=
    Collection.find_update s.stocks found id set
  have hreply : (exec server (.updateStock found set) s).1 = (s.stocks.find found).map set.apply :=
    (Collection.find_update s.stocks found found set).trans (if_pos rfl)
  by_cases hid : id = found
  · subst hid
    rw [if_pos rfl] at hexec
    cases hfind : s.stocks.find id with
    | none =>
      rw [hfind] at hexec hreply
      exact h.unwritten (hexec.trans hfind.symm) (by simp [AdminOp.writes, hreply])
    | some doc =>
      rw [hfind] at hexec hreply
      apply Kept.written hexec (by simp [AdminOp.writes, hreply])
      have hset' : set.pushed = (requests i).price.map decimal := hset
      rcases hprice : (requests i).price with _ | price
      · rw [hprice] at hset'
        simpa using (h.follows doc hfind).unpriced hset'
      · rw [hprice] at hset'
        exact (h.follows doc hfind).priced hset'
  · rw [if_neg hid] at hexec
    exact h.unwritten hexec (by simp [AdminOp.writes, Ne.symm hid])

theorem Kept.create (h : Kept requests id s log) {doc : StockDoc} (hadmits : s.stocks.Admits doc)
    {s' : Store} (hs' : s'.stocks = s.stocks.insert doc hadmits)
    (hprice : Follows (requests i).price.toList doc) (saved : StockDoc) :
    Kept requests id s' (⟨i, .createStock saved, (.created doc : Saved)⟩ :: log) := by
  have hfind := Collection.find_insert hadmits id
  rw [← hs'] at hfind
  by_cases hid : doc.id = id
  · rw [if_pos hid] at hfind
    have hnone : pricesSet requests id log = [] := h.absent (hid ▸ hadmits.find_eq_none)
    apply Kept.written hfind (by simp [AdminOp.writes, hid])
    rwa [hnone]
  · rw [if_neg hid] at hfind
    exact h.unwritten hfind (by simp [AdminOp.writes, hid])

theorem Kept.step (h : Kept requests id s log) (op : AdminOp) (hmay : (requests i).MaySend op) :
    Kept requests id (execAdmin server op s).2
      (⟨i, op, (execAdmin server op s).1⟩ :: log) := by
  cases op with
  | findByTicker ticker => exact h.unwritten rfl rfl
  | single op =>
    cases op with
    | updateStock found set => exact h.update server hmay
    | _ => exact h.unwritten rfl rfl
  | createStock doc =>
    obtain ⟨id', dto, recordedAt, hrequest, rfl⟩ := hmay
    have hprice : (requests i).price = some dto.currentPrice := by rw [hrequest]; rfl
    rw [execAdmin]
    split
    · exact h.unwritten rfl rfl
    · split
      · rename_i hadmits
        refine h.create hadmits rfl ?_ _
        rw [hprice]
        exact follows_newStock id' dto recordedAt
      · exact h.unwritten rfl rfl

end Invariant

section Runs
variable (requests : ℕ → AdminRequest)

/-- Requests send what they may, and operations end in any way. -/
def administration : Protocol ℕ AdminOp AdminOp.Reply Exception StockDoc where
  may i _ op := (requests i).MaySend op
  ends _ _ _ := True
  post _ _ _ := True

def anySchedule : Assumption ℕ AdminOp AdminOp.Reply Store Environment Exception where
  call _ _ _ _ _ := True
  env _ := True

variable {requests}

theorem kept_run (server : Server) {store : Store} {id : ObjectId}
    (hnew : store.stocks.find id = none) (sched : List (Choice ℕ Environment Exception)) :
    Kept requests id ((AdminState.start store requests).run (adminBackend server) sched).store
      ((AdminState.start store requests).run (adminBackend server) sched).log := by
  have hstart : (AdminState.start store requests).Conforms (administration requests) :=
    Config.conforms_start fun i => Obeys.of_sends (requests i).sends fun _ _ hop => hop
  have hfits : anySchedule.Fits (administration requests) := fun _ _ _ _ _ _ => trivial
  have hempty : Kept requests id (AdminState.start store requests).store
      (AdminState.start store requests).log := by
    refine ⟨fun _ => rfl, ?_⟩
    intro doc hdoc
    cases hnew.symm.trans hdoc
  have hall : anySchedule.Along (adminBackend server) (AdminState.start store requests) sched :=
    Assumption.along_of_forall _ _ (fun _ _ _ _ _ => trivial) (fun _ => trivial) _ sched
  refine (Config.run_invariant hfits ?_ ?_ hstart hempty sched hall).2
  · intro s log i op _ h hmay _
    exact h.step op hmay
  · intro s log y h _
    cases y with
    | expire key => exact ⟨h.absent, h.follows⟩
    | tick ms => exact ⟨h.absent, h.follows⟩

/-- Whatever calls create, update and delist stocks, in whatever order their operations
are carried out and however they end: the history of a stock that the run has created is
not empty, holds the last 365 of the prices set for it, and ends with its current price. -/
theorem priceHistory_run (server : Server) (store : Store) (requests : ℕ → AdminRequest)
    (sched : List (Choice ℕ Environment Exception)) {id : ObjectId} {doc : StockDoc}
    (hnew : store.stocks.find id = none)
    (hdoc : ((AdminState.start store requests).run (adminBackend server) sched).store.stocks.find
      id = some doc) :
    let prices := pricesSet requests id
      ((AdminState.start store requests).run (adminBackend server) sched).log
    doc.priceHistory ≠ [] ∧
      doc.priceHistory.map PriceHistoryEntry.price =
        (prices.map decimal).drop (prices.length - min 365 prices.length) ∧
      doc.priceHistory.getLast?.map PriceHistoryEntry.price = some doc.currentPrice := by
  intro prices
  have h : Follows prices doc := (kept_run server hnew sched).follows doc hdoc
  have hlast : (doc.priceHistory.map PriceHistoryEntry.price).getLast? = some doc.currentPrice := by
    rw [h.history, List.rtake, List.getLast?_drop, if_neg, h.current]
    have hne : prices ≠ [] := by
      intro hnil
      have hcurrent := h.current
      simp [hnil] at hcurrent
    have hpos := List.length_pos_iff.mpr hne
    simp [PRICE_HISTORY_MAX]
    omega
  refine ⟨?_, ?_, ?_⟩
  · rintro hnil
    simp [hnil] at hlast
  · rw [h.history, ← rtake_min, List.rtake, List.length_map]
    rfl
  · rw [← List.getLast?_map, hlast]

end Runs

section Example

def sampleId : ObjectId := .ofText "65de9f00a1b2c3d4e5f6a7c1" (by decide)

def sampleDto : CreateStockDto where
  ticker := "ACME"
  companyName := " Acme Ltd "
  sector := "Energy"
  currentPrice := 10
  description := none
  ticker_length := by decide
  ticker_letters := by decide
  companyName_ne := by decide
  sector_ne := by decide
  currentPrice_pos := by decide

/-- A stock is created, and updated with a price and without one. -/
def sampleRequests : ℕ → AdminRequest
  | 0 => .create sampleId sampleDto
  | 1 => .single (.update sampleId newPrice)
  | 2 => .single (.update sampleId { newPrice with
      currentPrice := none, description := some "Pumps", currentPrice_pos := by simp })
  | _ => .single (.delist sampleId)

/-- The update with a price is carried out, but its answer is lost. -/
def sampleSchedule : List (Choice ℕ Environment Exception) :=
  [.step 0 .done, .step 0 .done, .step 0 .done, .env (.tick 5), .step 1 .done, .step 2 .done,
    .step 3 .done, .step 1 (.lost (.driver "timeout")), .step 0 .done]

theorem priceHistory_run_twice : ∃ doc,
    ((AdminState.start (.cold ⟨[], .nil⟩ 0) sampleRequests).run (adminBackend sampleServer)
      sampleSchedule).store.stocks.find sampleId = some doc ∧ doc.priceHistory ≠ [] ∧
        doc.priceHistory.map PriceHistoryEntry.price = [decimal 10, decimal 15] ∧
        doc.priceHistory.getLast?.map PriceHistoryEntry.price = some doc.currentPrice := by
  have hnew : (Store.cold ⟨[], .nil⟩ 0).stocks.find sampleId = none := rfl
  have hsome : (((AdminState.start (.cold ⟨[], .nil⟩ 0) sampleRequests).run
      (adminBackend sampleServer) sampleSchedule).store.stocks.find sampleId).isSome := by
    decide +kernel
  obtain ⟨doc, hdoc⟩ := Option.isSome_iff_exists.mp hsome
  have h := priceHistory_run sampleServer _ sampleRequests sampleSchedule hnew hdoc
  exact ⟨doc, hdoc, h.1, h.2.1.trans (by decide +kernel), h.2.2⟩

end Example
end StockMarket.Stocks
