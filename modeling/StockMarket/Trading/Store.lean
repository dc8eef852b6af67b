import StockMarket.Wallet.Service
import Mathlib.Data.List.AList

/-! # The trading service's documents, keys and store operations

MongoDB with traders, stocks, orders and positions, Redis with locks and
cached JSON, and the wallet service behind its internal HTTP interface. The
wallet's own store is part of the state, so that a request moves real money.
-/

namespace StockMarket.Trading
open Interleaving

abbrev Time := Wallet.Time

inductive TraderStatus where
  | active | suspended
  deriving DecidableEq, Repr

inductive KycStatus where
  | pending | approved | rejected
  deriving DecidableEq, Repr

inductive OrderType where
  | buy | sell
  deriving DecidableEq, Repr

inductive OrderStatus where
  | pending | executed | rejected
  deriving DecidableEq, Repr

structure Trader where
  fullName : String
  email : String
  status : TraderStatus
  kycStatus : KycStatus
  deriving DecidableEq, Repr

structure Stock where
  ticker : String
  companyName : String
  currentPrice : Decimal
  isListed : Bool
  deriving DecidableEq, Repr

/-- The stock as the Redis cache gives it back. -/
def Stock.viaJson (stock : Stock) : Stock :=
  { stock with currentPrice := stock.currentPrice.viaJson }

structure Order where
  memberId : String
  stockId : String
  ticker : String
  companyName : String
  type : OrderType
  status : OrderStatus
  shares : ℕ
  pricePerShare : Number
  totalAmount : Number
  profitLoss : Option Number
  rejectionReason : Option String
  executedAt : Option Time
  deriving DecidableEq, Repr

/-- The two `$set` documents an order is updated with. -/
inductive OrderUpdate where
  | executed
  | rejected (rejectionReason : String)
  deriving DecidableEq, Repr

def OrderUpdate.apply (now : Time) (order : Order) : OrderUpdate → Order
  | .executed => { order with status := .executed, executedAt := some now }
  | .rejected rejectionReason =>
      { order with status := .rejected, rejectionReason := some rejectionReason }

structure Position where
  ticker : String
  companyName : String
  shares : ℤ
  avgBuyPrice : Number
  totalInvested : Number
  deriving DecidableEq, Repr

structure PortfolioPosition where
  stockId : String
  ticker : String
  companyName : String
  shares : ℤ
  avgBuyPrice : ℚ
  totalInvested : ℚ
  currentPrice : ℚ
  currentValue : ℚ
  unrealizedPnL : ℚ
  unrealizedPnLPercent : ℚ
  deriving DecidableEq, Repr

structure PortfolioSummary where
  positions : List PortfolioPosition
  totalInvested : ℚ
  totalCurrentValue : ℚ
  totalUnrealizedPnL : ℚ
  deriving DecidableEq, Repr

structure TradeExecutedEvent where
  userId : String
  email : String
  name : String
  tradeType : OrderType
  ticker : String
  companyName : String
  shares : ℕ
  pricePerShare : Number
  totalAmount : Number
  profitLoss : Option Number
  transactionId : String
  deriving DecidableEq, Repr

/-- A lock token: the call that took it, and at which attempt. -/
abbrev Token := ℕ × ℕ

/-- Positions are unique in `(memberId, stockId)`. -/
structure Store where
  traders : String → Option Trader
  stocks : String → Option Stock
  orders : List Order
  positions : AList fun _ : String × String => Position
  locks : String → Option Token
  stockCache : String → Option Stock
  portfolioCache : String → Option PortfolioSummary
  wallet : Wallet.Store
  now : Time
  outbox : List TradeExecutedEvent

namespace Store

def position (s : Store) (memberId stockId : String) : Option Position :=
  s.positions.lookup (memberId, stockId)

/-- The shares held, 0 where there is no position. -/
def shares (s : Store) (memberId stockId : String) : ℤ :=
  (s.position memberId stockId).elim 0 Position.shares

def setPosition (s : Store) (memberId stockId : String) (position : Position) : Store :=
  { s with positions := s.positions.insert (memberId, stockId) position }

def deletePosition (s : Store) (memberId stockId : String) : Store :=
  { s with positions := s.positions.erase (memberId, stockId) }

def orderStatus (s : Store) (orderId : ℕ) : Option OrderStatus :=
  s.orders[orderId]?.map Order.status

end Store

/-- The calls the services make on MongoDB, Redis, the wallet service and
Kafka. -/
inductive TradingOp where
  | findTrader (memberId : String)
  | findStock (stockId : String)
  | getStockCache (key : String)
  | setStockCache (key : String) (stock : Stock)
  | getPortfolioCache (key : String)
  | setPortfolioCache (key : String) (summary : PortfolioSummary)
  | delPortfolioCache (key : String)
  /-- `redis.set(key, token, 'PX', ttl, 'NX')` -/
  | setLock (key : String) (token : Token)
  | evalRelease (key : String) (token : Token)
  | createOrder (doc : Order)
  | updateOrder (orderId : ℕ) (set : OrderUpdate)
  /-- `positionModel.findOneAndUpdate({ memberId, stockId, shares: { $gte } },
  { $inc: { shares } })` -/
  | incPosition (memberId stockId : String) (gte : Option ℤ) (shares : ℤ)
  | findPosition (memberId stockId : String)
  | findPositions (memberId : String)
  | createPosition (memberId stockId : String) (doc : Position)
  /-- `positionModel.findOneAndUpdate({ memberId, stockId }, { $inc: { shares }, $set })` -/
  | updatePosition (memberId stockId : String) (shares : ℤ) (avgBuyPrice totalInvested : Number)
  | deletePosition (memberId stockId : String)
  /-- `axios.post('/api/v1/internal/wallet/deduct', { userId, amount, orderId })` -/
  | postDeduct (userId : String) (amount : Number) (orderId : String)
  /-- `axios.post('/api/v1/internal/wallet/credit', { userId, amount, orderId })` -/
  | postCredit (userId : String) (amount : Number) (orderId : String)
  | emitTradeExecuted (event : TradeExecutedEvent)
  deriving DecidableEq

/-- What each operation answers. `createPosition` answers `false` when the
unique index refuses the document; an HTTP request answers the balance or the
error that axios makes of the response. -/
abbrev TradingOp.Reply : TradingOp → Type
  | .findTrader _ => Option Trader
  | .findStock _ => Option Stock
  | .getStockCache _ => Option Stock
  | .setStockCache _ _ => Unit
  | .getPortfolioCache _ => Option PortfolioSummary
  | .setPortfolioCache _ _ => Unit
  | .delPortfolioCache _ => Unit
  | .setLock _ _ => Bool
  | .evalRelease _ _ => Bool
  | .createOrder _ => ℕ
  | .updateOrder _ _ => Option Order
  | .incPosition _ _ _ _ => Option Position
  | .findPosition _ _ => Option Position
  | .findPositions _ => List (String × Position)
  | .createPosition _ _ _ => Bool
  | .updatePosition _ _ _ _ _ => Unit
  | .deletePosition _ _ => Unit
  | .postDeduct _ _ _ => Except Exception ℚ
  | .postCredit _ _ _ => Except Exception ℚ
  | .emitTradeExecuted _ => Unit

/-- One request to the wallet service: the DTO is validated, and the service
function runs on the wallet's store, where its own calls may fail. -/
def postWallet (remote : Wallet.Faults) (serve : Wallet.InternalMoveDto → Wallet.Call ℚ)
    (userId : String) (amount : Number) (orderId : String) (wallet : Wallet.Store) :
    Except Exception ℚ × Wallet.Store :=
  match amount with
  | none => (.error (.axios (some 400) (some "Validation failed")), wallet)
  | some amount =>
      if h : 0 < amount then
        let out := (serve ⟨userId, amount, orderId, h⟩).run Wallet.exec remote wallet
        (out.1.mapError fun e => .axios (some e.status) (some e.bodyMessage), out.2)
      else (.error (.axios (some 400) (some "Validation failed")), wallet)

/-- Each operation is one atomic step; a wallet request is one for the caller. -/
def exec (remote : Wallet.Faults) : (op : TradingOp) → Store → op.Reply × Store
  | .findTrader memberId, s => (s.traders memberId, s)
  | .findStock stockId, s => (s.stocks stockId, s)
  | .getStockCache key, s => (s.stockCache key, s)
  | .setStockCache key stock, s =>
      ((), { s with stockCache := Function.update s.stockCache key (some stock.viaJson) })
  | .getPortfolioCache key, s => (s.portfolioCache key, s)
  | .setPortfolioCache key summary, s =>
      ((), { s with portfolioCache := Function.update s.portfolioCache key (some summary) })
  | .delPortfolioCache key, s =>
      ((), { s with portfolioCache := Function.update s.portfolioCache key none })
  | .setLock key token, s =>
      match s.locks key with
      | some _ => (false, s)
      | none => (true, { s with locks := Function.update s.locks key (some token) })
  | .evalRelease key token, s =>
      if s.locks key = some token then
        (true, { s with locks := Function.update s.locks key none })
      else (false, s)
  | .createOrder doc, s => (s.orders.length, { s with orders := s.orders ++ [doc] })
  | .updateOrder orderId set, s =>
      let orders := s.orders.modify orderId (OrderUpdate.apply s.now · set)
      (orders[orderId]?, { s with orders := orders })
  | .incPosition memberId stockId gte shares, s =>
      match s.position memberId stockId with
      | some position =>
          if gte.all (· ≤ position.shares) then
            let position := { position with shares := position.shares + shares }
            (some position, s.setPosition memberId stockId position)
          else (none, s)
      | none => (none, s)
  | .findPosition memberId stockId, s => (s.position memberId stockId, s)
  | .findPositions memberId, s =>
      (s.positions.entries.filterMap fun e =>
        if e.1.1 = memberId then some (e.1.2, e.2) else none, s)
  | .createPosition memberId stockId doc, s =>
      match s.position memberId stockId with
      | some _ => (false, s)
      | none => (true, s.setPosition memberId stockId doc)
  | .updatePosition memberId stockId shares avgBuyPrice totalInvested, s =>
      match s.position memberId stockId with
      | some position =>
          ((), s.setPosition memberId stockId { position with
            shares := position.shares + shares
            avgBuyPrice := avgBuyPrice
            totalInvested := totalInvested })
      | none => ((), s)
  | .deletePosition memberId stockId, s => ((), s.deletePosition memberId stockId)
  | .postDeduct userId amount orderId, s =>
      let serve := Wallet.InternalWalletService.deduct 0
      let out := postWallet remote serve userId amount orderId s.wallet
      (out.1, { s with wallet := out.2 })
  | .postCredit userId amount orderId, s =>
      let serve := Wallet.InternalWalletService.credit 0
      let out := postWallet remote serve userId amount orderId s.wallet
      (out.1, { s with wallet := out.2 })
  | .emitTradeExecuted event, s => ((), { s with outbox := s.outbox ++ [event] })

abbrev Call (α : Type) := Prog TradingOp TradingOp.Reply Exception α

abbrev query (op : TradingOp) : Call op.Reply := Prog.send op

/-- How each operation of one order ends. No order sends one operation twice. -/
abbrev Faults := TradingOp → Outcome Exception

def answered : Faults := fun _ => .done

end StockMarket.Trading
