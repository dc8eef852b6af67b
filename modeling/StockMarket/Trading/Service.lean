import StockMarket.Trading.Store

/-! # The services of the trading service

`CacheService`, `LockService`, `TraderService`, `StockService`, `WalletClient`,
`OrderService` and `PositionService`, each function as the calls it makes in
the order it makes them. Every call is given a number of its own, which makes
its lock tokens its own.
-/

namespace StockMarket.Trading
open Interleaving Prog

namespace RedisKeys

def memberLock (memberId : String) : String := s!"lock:trading:member:{memberId}"
def stockCache (stockId : String) : String := s!"cache:stock:{stockId}"
def portfolioCache (memberId : String) : String := s!"cache:portfolio:{memberId}"

end RedisKeys

/-- The cache logs and swallows what Redis throws. -/
def swallow {α : Type} (p : Call α) (fallback : α) : Call α := catching p fun _ => pure fallback

theorem sends_swallow {Q : TradingOp → Prop} {op : TradingOp} (hop : Q op) (fallback : op.Reply) :
    (swallow (query op) fallback).Sends Q := by
  apply Sends.catching
  · exact sends_send hop
  · exact fun _ => trivial

namespace LockService

def maxRetries : ℕ := 3

/-- The `while` loop over the attempts that are left. -/
def acquire (uuid : ℕ) (memberId : String) : ℕ → Call (Option Token)
  | 0 => pure none
  | left + 1 => do
      let token : Token := (uuid, maxRetries - (left + 1))
      let ok ← query (.setLock (RedisKeys.memberLock memberId) token)
      if ok then pure (some token) else acquire uuid memberId left

def release (memberId : String) (token : Token) : Call Unit := do
  let _ ← query (.evalRelease (RedisKeys.memberLock memberId) token)
  pure ()

def acquireOrThrow (uuid : ℕ) (memberId : String) : Call Token := do
  match ← acquire uuid memberId maxRetries with
  | none => raise (.conflict "Another operation is in progress. Please retry in a moment.")
  | some token => pure token

def withMemberLock {α : Type} (uuid : ℕ) (memberId : String) (fn : Call α) : Call α := do
  let token ← acquireOrThrow uuid memberId
  finallyDo fn (release memberId token)

end LockService

namespace TraderService

def assertCanTrade (memberId : String) : Call Trader := do
  match ← query (.findTrader memberId) with
  | none => raise (.notFound "Trader profile not found")
  | some trader =>
      if trader.status = .suspended then
        raise (.forbidden "Your account is suspended")
      else if trader.kycStatus ≠ .approved then
        raise (.forbidden "KYC verification must be approved before trading")
      else
        pure trader

end TraderService

namespace StockService

def findById (stockId : String) : Call Stock := do
  match ← swallow (query (.getStockCache (RedisKeys.stockCache stockId))) none with
  | some cached => pure cached
  | none => do
      match ← query (.findStock stockId) with
      | none => raise (.notFound "Stock not found")
      | some stock => do
          swallow (query (.setStockCache (RedisKeys.stockCache stockId) stock)) ()
          pure stock

def findListedById (stockId : String) : Call Stock := do
  let stock ← findById stockId
  if ¬stock.isListed then
    raise (.notFound "This stock is not available for new buy orders")
  else
    pure stock

end StockService

namespace WalletClient

/-- The body of an answered request, or what axios throws. -/
def post (request : Call (Except Exception ℚ)) : Call ℚ := do
  let response ← request
  ofExcept response

/-- What `deduct` throws in place of an error. -/
def deductError (err : Exception) : Exception :=
  let message := err.responseMessage.getD "Wallet service error"
  if err.responseStatus.any fun status => 400 ≤ status ∧ status < 500 then .badGateway message
  else .serviceUnavailable "Wallet service is unavailable"

def deduct (userId : String) (amount : Number) (orderId : String) : Call ℚ :=
  catching (post (query (.postDeduct userId amount orderId))) fun err => raise (deductError err)

def credit (userId : String) (amount : Number) (orderId : String) : Call ℚ :=
  catching (post (query (.postCredit userId amount orderId))) fun _ =>
    raise (.serviceUnavailable "Wallet service is unavailable")

end WalletClient

structure PlaceOrderDto where
  stockId : String
  shares : ℕ
  shares_pos : 0 < shares

namespace OrderService

def upsertPosition (memberId stockId ticker companyName : String) (shares : ℕ)
    (pricePerShare : Number) : Call Unit := do
  let cost := pricePerShare.map fun price : ℚ => shares * price
  match ← query (.findPosition memberId stockId) with
  | none => do
      let created ← query (.createPosition memberId stockId
        { ticker, companyName, shares, avgBuyPrice := pricePerShare, totalInvested := cost })
      if created then pure () else raise (.driver "E11000 duplicate key error")
  | some existing => do
      let prevShares := existing.shares
      let prevTotal := existing.totalInvested
      let newShares := prevShares + shares
      let newTotal := Option.map₂ (fun total cost : ℚ => total + cost) prevTotal cost
      let newAvg := newTotal.map fun total : ℚ => total / newShares
      query (.updatePosition memberId stockId shares newAvg newTotal)

/-- The event of an executed order; a purchase has no profit or loss. -/
def tradeExecuted (trader : Trader) (order : Order) (orderId : ℕ) : TradeExecutedEvent where
  userId := order.memberId
  email := trader.email
  name := trader.fullName
  tradeType := order.type
  ticker := order.ticker
  companyName := order.companyName
  shares := order.shares
  pricePerShare := order.pricePerShare
  totalAmount := order.totalAmount
  profitLoss := order.profitLoss
  transactionId := toString orderId

/-- The lines both orders end with: mark EXECUTED, drop the cached portfolio and
publish the event. -/
def markExecuted (memberId : String) (orderId : ℕ) (event : TradeExecutedEvent) :
    Call (Option Order) := do
  let executed ← query (.updateOrder orderId .executed)
  swallow (query (.delPortfolioCache (RedisKeys.portfolioCache memberId))) ()
  query (.emitTradeExecuted event)
  pure executed

def buyOrder (memberId : String) (dto : PlaceOrderDto) (stock : Stock) : Order :=
  let pricePerShare := stock.currentPrice.parseFloat
  { memberId
    stockId := dto.stockId
    ticker := stock.ticker
    companyName := stock.companyName
    type := .buy
    status := .pending
    shares := dto.shares
    pricePerShare
    totalAmount := pricePerShare.map fun price : ℚ => dto.shares * price
    profitLoss := none
    rejectionReason := none
    executedAt := none }

/-- What `buy` does under the member's lock. -/
def buyLocked (memberId : String) (dto : PlaceOrderDto) (trader : Trader) (stock : Stock) :
    Call (Option Order) := do
  let order := buyOrder memberId dto stock
  let orderId ← query (.createOrder order)
  let _ ← catching (WalletClient.deduct memberId order.totalAmount (toString orderId)) fun err => do
    let _ ← query (.updateOrder orderId (.rejected err.message))
    raise err
  upsertPosition memberId dto.stockId stock.ticker stock.companyName dto.shares
    order.pricePerShare
  markExecuted memberId orderId (tradeExecuted trader order orderId)

def buy (uuid : ℕ) (memberId : String) (dto : PlaceOrderDto) : Call (Option Order) := do
  let trader ← TraderService.assertCanTrade memberId
  let stock ← StockService.findListedById dto.stockId
  LockService.withMemberLock uuid memberId (buyLocked memberId dto trader stock)

/-- The PENDING order `sell` creates, from the position it has decremented. -/
def sellOrder (memberId : String) (dto : PlaceOrderDto) (stock : Stock) (position : Position) :
    Order :=
  let pricePerShare := stock.currentPrice.parseFloat
  { memberId
    stockId := dto.stockId
    ticker := stock.ticker
    companyName := stock.companyName
    type := .sell
    status := .pending
    shares := dto.shares
    pricePerShare
    totalAmount := pricePerShare.map fun price : ℚ => dto.shares * price
    profitLoss := some (Option.map₂
      (fun price avgBuyPrice : ℚ => (price - avgBuyPrice) * dto.shares)
      pricePerShare position.avgBuyPrice)
    rejectionReason := none
    executedAt := none }

/-- What `sell` does once the shares are taken. -/
def sellDecremented (memberId : String) (dto : PlaceOrderDto) (trader : Trader) (stock : Stock)
    (position : Position) : Call (Option Order) := do
  let order := sellOrder memberId dto stock position
  let orderId ← query (.createOrder order)
  let _ ← catching (WalletClient.credit memberId order.totalAmount (toString orderId)) fun err => do
    let _ ← query (.incPosition memberId dto.stockId none dto.shares)
    let _ ← query (.updateOrder orderId (.rejected err.message))
    raise err
  if position.shares = 0 then
    query (.deletePosition memberId dto.stockId)
  else
    pure ()
  markExecuted memberId orderId (tradeExecuted trader order orderId)

/-- What `sell` does under the member's lock. -/
def sellLocked (memberId : String) (dto : PlaceOrderDto) (trader : Trader) (stock : Stock) :
    Call (Option Order) := do
  match ← query (.incPosition memberId dto.stockId (some dto.shares) (-dto.shares)) with
  | none => raise (.badRequest "Insufficient shares or position not found")
  | some position => sellDecremented memberId dto trader stock position

def sell (uuid : ℕ) (memberId : String) (dto : PlaceOrderDto) : Call (Option Order) := do
  let trader ← TraderService.assertCanTrade memberId
  let stock ← StockService.findById dto.stockId
  LockService.withMemberLock uuid memberId (sellLocked memberId dto trader stock)

end OrderService

namespace PositionService

/-- `pos.shares * currentPrice - totalInvested`, before it is rounded. -/
def unrealizedPnL (pos : Position) (currentPrice : ℚ) : ℚ :=
  pos.shares * currentPrice - pos.totalInvested.getD 0

def portfolioPosition (stockId : String) (pos : Position) (stock : Option Stock) :
    PortfolioPosition :=
  let currentPrice := stock.elim 0 fun stock => stock.currentPrice.toFloat
  let avgBuyPrice := pos.avgBuyPrice.getD 0
  let totalInvested := pos.totalInvested.getD 0
  let currentValue := pos.shares * currentPrice
  let unrealized := unrealizedPnL pos currentPrice
  let unrealizedPnLPercent := if 0 < totalInvested then unrealized / totalInvested * 100 else 0
  { stockId
    ticker := pos.ticker
    companyName := pos.companyName
    shares := pos.shares
    avgBuyPrice
    totalInvested
    currentPrice
    currentValue := toFixed 2 currentValue
    unrealizedPnL := toFixed 2 unrealized
    unrealizedPnLPercent := toFixed 2 unrealizedPnLPercent }

def portfolioSummary (positions : List PortfolioPosition) : PortfolioSummary :=
  let totalInvested := (positions.map PortfolioPosition.totalInvested).sum
  let totalCurrentValue := (positions.map PortfolioPosition.currentValue).sum
  { positions
    totalInvested := toFixed 2 totalInvested
    totalCurrentValue := toFixed 2 totalCurrentValue
    totalUnrealizedPnL := toFixed 2 (totalCurrentValue - totalInvested) }

def portfolioPositions : List (String × Position) → Call (List PortfolioPosition)
  | [] => pure []
  | (stockId, pos) :: positions => do
      let stock ← catching (some <$> StockService.findById stockId) fun _ => pure none
      let rest ← portfolioPositions positions
      pure (portfolioPosition stockId pos stock :: rest)

def getPortfolio (memberId : String) : Call PortfolioSummary := do
  let cacheKey := RedisKeys.portfolioCache memberId
  match ← swallow (query (.getPortfolioCache cacheKey)) none with
  | some cached => pure cached
  | none => do
      let positions ← query (.findPositions memberId)
      let portfolioPositions ← portfolioPositions positions
      let summary := portfolioSummary portfolioPositions
      swallow (query (.setPortfolioCache cacheKey summary)) ()
      pure summary

end PositionService
end StockMarket.Trading
