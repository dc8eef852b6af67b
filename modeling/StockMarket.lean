import StockMarket.Rounding
import StockMarket.Platform
import StockMarket.Interleaving.Program
import StockMarket.Interleaving.Interpretation
import StockMarket.Interleaving.Pool
import StockMarket.Interleaving.Protocol
import StockMarket.Interleaving.Typestate
import StockMarket.Interleaving.Sequence
import StockMarket.Interleaving.Monitor
import StockMarket.Interleaving.Tally
import StockMarket.Interleaving.Path
import StockMarket.Interleaving.Lock
import StockMarket.Keyset
import StockMarket.Ties
import StockMarket.Aggregation
import StockMarket.Calendar
import StockMarket.Wallet.Store
import StockMarket.Wallet.Effects
import StockMarket.Wallet.Service
import StockMarket.Wallet.Inserts
import StockMarket.Wallet.Protocol
import StockMarket.Wallet.Log
import StockMarket.Wallet.Idempotency
import StockMarket.Wallet.Balance
import StockMarket.Wallet.Audit
import StockMarket.Wallet.Sequential
import StockMarket.Wallet.Ledger
import StockMarket.Wallet.Completions
import StockMarket.Wallet.Bookkeeping
import StockMarket.Wallet.AdjustmentKeys
import StockMarket.Wallet.Reconciliation
import StockMarket.Wallet.Chain
import StockMarket.Wallet.Withdrawal
import StockMarket.Wallet.Settlement
import StockMarket.Wallet.Hold
import StockMarket.Wallet.Locking
import StockMarket.Wallet.History
import StockMarket.AverageCost
import StockMarket.LastWrite
import StockMarket.Trading.Store
import StockMarket.Trading.Service
import StockMarket.Trading.Effects
import StockMarket.Trading.Pool
import StockMarket.Trading.Account
import StockMarket.Trading.Settled
import StockMarket.Trading.LockedOrders
import StockMarket.Trading.Conservation
import StockMarket.Trading.Protocol
import StockMarket.Trading.Oversell
import StockMarket.Trading.Overlap
import StockMarket.Trading.Admission
import StockMarket.Trading.Atomicity
import StockMarket.Trading.Locking
import StockMarket.Trading.Portfolio
import StockMarket.Trading.PortfolioCache
import StockMarket.Trading.PortfolioRest
import StockMarket.Trading.Sell
import StockMarket.Trading.Buy
import StockMarket.Trading.CostBasis
import StockMarket.Trading.Session
import StockMarket.Trading.CachedPrice
import StockMarket.Trading.History
import StockMarket.Members.Service
import StockMarket.Trading.MemberEvents
import StockMarket.Trading.Redelivery
import StockMarket.Stocks.Store
import StockMarket.Stocks.Service
import StockMarket.Stocks.Catalogue
import StockMarket.Stocks.Pool
import StockMarket.Stocks.Administration
import StockMarket.Stocks.Coherence
import StockMarket.Stocks.PriceHistory
import StockMarket.Analytics.Service
import StockMarket.Analytics.Allocation
import StockMarket.Members.ReadModel
import StockMarket.Paging
import StockMarket.Base64
import StockMarket.Alerts.Store
import StockMarket.Alerts.Service
import StockMarket.Alerts.Batches
import StockMarket.Alerts.Triggering
import StockMarket.Alerts.Pool
import StockMarket.Alerts.Announcements
import StockMarket.Auth.Store
import StockMarket.Auth.Service
import StockMarket.Auth.Sequential
import StockMarket.Auth.Verification
import StockMarket.Auth.SingleUse
import StockMarket.Auth.Token
import StockMarket.Auth.Sessions
import StockMarket.Auth.Rotation
import StockMarket.Auth.Enumeration
import StockMarket.Auth.Exchange
import StockMarket.Auth.Activation
import StockMarket.Cms.Service
import StockMarket.Cms.Administrators
import StockMarket.Notifications.Service
import StockMarket.Notifications.Retry
import StockMarket.Notifications.Log
import StockMarket.Notifications.Delivery
import StockMarket.Notifications.Progress
import StockMarket.Notifications.Trace
import StockMarket.Notifications.Consumers
import StockMarket.Notifications.Keys
import StockMarket.Numeral
import StockMarket.Wallet.Stripe
import StockMarket.Wallet.Deposits
import StockMarket.Trading.Lifecycle
import StockMarket.Gateway.Guards
import StockMarket.Cms.Access
import StockMarket.Cms.Sessions
import StockMarket.Cms.Lockout
import StockMarket.Members.Profiles
import StockMarket.Members.Registration
import StockMarket.Members.Adults
import StockMarket.Members.Transparency
import StockMarket.Trading.Eligibility
import StockMarket.Routing
import StockMarket.Gateway.Routes
import StockMarket.Gateway.Reach
import StockMarket.Alerts.Lifetimes
