import StockMarket.Trading.Effects
import StockMarket.Interleaving.Pool

/-! # Orders side by side

A pool of buys and sells over one store, whose calls interleave at their
operations. Meanwhile locks expire, caches are evicted, time passes, and
prices and traders change.
-/

namespace StockMarket.Trading
open Interleaving Prog OrderService

inductive Request where
  | buy (memberId : String) (dto : PlaceOrderDto)
  | sell (memberId : String) (dto : PlaceOrderDto)

namespace Request

def memberId : Request → String
  | .buy memberId _ => memberId
  | .sell memberId _ => memberId

def dto : Request → PlaceOrderDto
  | .buy _ dto => dto
  | .sell _ dto => dto

/-- The call a request becomes. Its number makes its lock tokens its own. -/
def serve (uuid : ℕ) : Request → Call (Option Order)
  | .buy memberId dto => OrderService.buy uuid memberId dto
  | .sell memberId dto => OrderService.sell uuid memberId dto

end Request

inductive Environment where
  | expire (key : String)
  | evictStock (key : String)
  | evictPortfolio (key : String)
  | tick (ms : Time)
  | setStock (stockId : String) (stock : Option Stock)
  | setTrader (memberId : String) (trader : Option Trader)

def Environment.isExpiry : Environment → Bool
  | .expire _ => true
  | _ => false

def backend (remote : Wallet.Faults) : Backend TradingOp TradingOp.Reply Store Environment where
  exec := exec remote
  env
    | .expire key, s => { s with locks := Function.update s.locks key none }
    | .evictStock key, s => { s with stockCache := Function.update s.stockCache key none }
    | .evictPortfolio key, s =>
        { s with portfolioCache := Function.update s.portfolioCache key none }
    | .tick ms, s => { s with now := s.now + ms }
    | .setStock stockId stock, s => { s with stocks := Function.update s.stocks stockId stock }
    | .setTrader memberId trader, s =>
        { s with traders := Function.update s.traders memberId trader }

theorem accounts_env (remote : Wallet.Faults) (y : Environment) (s : Store) :
    ((backend remote).env y s).accounts = s.accounts := by
  cases y <;> rfl

abbrev State := Config ℕ TradingOp TradingOp.Reply Store Exception (Option Order)
abbrev LogEntry := Entry ℕ TradingOp TradingOp.Reply
abbrev Schedule := List (Choice ℕ Environment Exception)

/-- The pool before any of its calls has done anything. -/
def State.start (store : Store) (requests : ℕ → Request) : State :=
  Config.start store fun i => (requests i).serve i

/-- An order's shares, counted as bought. -/
def Order.signedShares (order : Order) : ℤ :=
  match order.type with
  | .buy => order.shares
  | .sell => -order.shares

/-- The shares of one stock an order has brought, once it is EXECUTED. -/
def Order.executedShares (stockId : String) (order : Order) : ℤ :=
  if order.stockId = stockId ∧ order.status = .executed then order.signedShares else 0

/-- The money an order has brought, once it is EXECUTED. -/
def Order.executedCash (order : Order) : ℚ :=
  if order.status = .executed then
    match order.type with
    | .buy => -order.totalAmount.getD 0
    | .sell => order.totalAmount.getD 0
  else 0

end StockMarket.Trading
