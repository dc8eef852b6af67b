import StockMarket.Alerts.Store
import StockMarket.Paging

/-! # The alert worker and the alert service

`AlertConsumer.onPriceUpdated` reads the waiting alerts of a stock batch by
batch. `AlertService.checkAlertsForStock` reads them all at once.
-/

namespace StockMarket.Alerts
open Interleaving Prog

structure PriceUpdatedEvent where
  stockId : String
  ticker : String
  newPrice : ℚ
  deriving DecidableEq, Repr

/-- The test both services filter by: an alert fires at the new price. -/
def fires (newPrice : ℚ) (alert : Alert) : Bool :=
  match alert.targetPrice.parseFloat, alert.direction with
  | some target, .above => target ≤ newPrice
  | some target, .below => newPrice ≤ target
  | none, _ => false

namespace AlertConsumer

def BATCH_SIZE : ℕ := 500
def NOTIFICATION_CHUNK : ℕ := 50

def message (event : PriceUpdatedEvent) (alert : Alert) : PriceAlertMessage where
  userId := alert.memberId
  email := alert.memberEmail
  name := alert.memberName
  ticker := event.ticker
  companyName := none
  targetPrice := alert.targetPrice.parseFloat
  currentPrice := event.newPrice
  direction := alert.direction
  alertId := some alert.id

/-- `Promise.all` over the emits of one chunk: all of them are sent, and an
error is thrown if one failed. -/
def emitChunk (event : PriceUpdatedEvent) : List Alert → Call Unit
  | [] => pure ()
  | alert :: chunk => finallyDo (query (.emit (message event alert))) (emitChunk event chunk)

/-- The `for` loop over the chunks of one batch, counting what it has sent. -/
def emitChunks (event : PriceUpdatedEvent) : List (List Alert) → ℕ → Call ℕ
  | [], totalTriggered => pure totalTriggered
  | chunk :: chunks, totalTriggered => do
      emitChunk event chunk
      emitChunks event chunks (totalTriggered + chunk.length)

/-- One pass of the `while` loop behind the query: mark, then emit. -/
def announce (event : PriceUpdatedEvent) (alerts : List Alert) (totalTriggered : ℕ) : Call ℕ := do
  let toTrigger := alerts.filter (fires event.newPrice)
  if 0 < toTrigger.length then do
    query (.updateTriggered (toTrigger.map Alert.id))
    emitChunks event (Paging.chunks NOTIFICATION_CHUNK toTrigger) totalTriggered
  else
    pure totalTriggered

/-- The `while` loop from a page on, for at most `fuel` pages. It returns how
many alerts it has triggered, and nothing when the fuel has run out. -/
def pages (event : PriceUpdatedEvent) : ℕ → ℕ → ℕ → Call (Option ℕ)
  | 0, _, _ => pure none
  | fuel + 1, page, totalTriggered => do
      let alerts ← query (.findWaiting event.stockId (page * BATCH_SIZE) (some BATCH_SIZE))
      if alerts.docs.length = 0 then
        pure (some totalTriggered)
      else do
        let totalTriggered ← announce event alerts.docs totalTriggered
        if alerts.docs.length < BATCH_SIZE then
          pure (some totalTriggered)
        else
          pages event fuel (page + 1) totalTriggered

def onPriceUpdated (fuel : ℕ) (event : PriceUpdatedEvent) : Call (Option ℕ) :=
  pages event fuel 0 0

end AlertConsumer

namespace AlertService

/-- The message for one alert, to a trader that is still there. -/
def message (newPrice : ℚ) (stock : Option Trading.Stock) (alert : Alert)
    (trader : Trading.Trader) : PriceAlertMessage where
  userId := alert.memberId
  email := trader.email
  name := trader.fullName
  ticker := alert.ticker
  companyName := some ((stock.map Trading.Stock.companyName).getD alert.ticker)
  targetPrice := alert.targetPrice.parseFloat
  currentPrice := newPrice
  direction := alert.direction
  alertId := none

/-- The loop over the alerts, which skips one whose trader is gone. -/
def notifyAll (newPrice : ℚ) (stock : Option Trading.Stock)
    (traders : List (String × Trading.Trader)) : List Alert → Call Unit
  | [] => pure ()
  | alert :: alerts =>
      match traders.lookup alert.memberId with
      | none => notifyAll newPrice stock traders alerts
      | some trader => do
          query (.emit (message newPrice stock alert trader))
          notifyAll newPrice stock traders alerts

def checkAlertsForStock (stockId : String) (newPrice : ℚ) : Call Unit := do
  let alerts ← query (.findWaiting stockId 0 none)
  let toTrigger := alerts.docs.filter (fires newPrice)
  if toTrigger.length = 0 then
    pure ()
  else do
    query (.updateTriggered (toTrigger.map Alert.id))
    let traders ← query (.findTraders (toTrigger.map Alert.memberId).eraseDups)
    let stock ← query (.findStock stockId)
    notifyAll newPrice stock traders toTrigger

end AlertService
end StockMarket.Alerts
