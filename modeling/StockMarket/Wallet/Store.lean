import StockMarket.Platform
import StockMarket.Rounding
import StockMarket.Interleaving.Pool
import Mathlib.Data.List.Basic

/-! # The wallet service's documents, keys and store operations

One MongoDB database with wallets and transactions, one Redis with the lock
keys, and the Kafka topic the service writes to. Wallets are found by their
unique `userId`. Transactions are never deleted, so a transaction's place in
the collection serves as its `_id`.
-/

namespace StockMarket.Wallet
open Interleaving

/-- Milliseconds, as `Date.now()` counts them. -/
abbrev Time := ℕ

inductive TransactionType where
  | deposit | withdrawal | buy | sell | adjustment | manualCredit | manualDebit
  deriving DecidableEq, Repr

inductive TransactionStatus where
  | pending | completed | rejected
  deriving DecidableEq, Repr

/-- The enumeration's value, as error messages show it. -/
def TransactionStatus.text : TransactionStatus → String
  | .pending => "pending"
  | .completed => "completed"
  | .rejected => "rejected"

structure WalletDoc where
  userId : String
  balance : ℚ
  currency : String
  lastDepositAt : Option Time
  deriving DecidableEq, Repr

structure Transaction where
  userId : String
  type : TransactionType
  status : TransactionStatus
  amount : ℚ
  balanceBefore : ℚ
  balanceAfter : Option ℚ
  currency : String
  idempotencyKey : String
  stripePaymentIntentId : Option String
  stripeSessionId : Option String
  adjustmentNote : Option String
  processedByCmsUserId : Option String
  rejectionReason : Option String
  processedAt : Option Time
  createdAt : Time
  deriving DecidableEq, Repr

/-- The two `$set` documents a transaction is updated with. -/
inductive TransactionUpdate where
  | completed (balanceAfter : ℚ) (processedByCmsUserId : Option String)
  | rejected (reason : String) (processedByCmsUserId : Option String)
  deriving DecidableEq, Repr

def TransactionUpdate.status : TransactionUpdate → TransactionStatus
  | .completed _ _ => .completed
  | .rejected _ _ => .rejected

/-- `...(processedByCmsUserId ? { processedByCmsUserId } : {})`. -/
def Transaction.setCmsUser (t : Transaction) : Option String → Transaction
  | some cmsUserId =>
      if cmsUserId = "" then t else { t with processedByCmsUserId := some cmsUserId }
  | none => t

def TransactionUpdate.apply (now : Time) (t : Transaction) : TransactionUpdate → Transaction
  | .completed balanceAfter cmsUserId =>
      { t with
        status := .completed
        balanceAfter := some balanceAfter
        processedAt := some now }.setCmsUser cmsUserId
  | .rejected reason cmsUserId =>
      { t with
        status := .rejected
        rejectionReason := some reason
        processedAt := some now }.setCmsUser cmsUserId

inductive WalletEvent where
  | walletCredited (userId email name : String) (amount newBalance : ℚ) (currency : String)
      (transactionId : ℕ)
  | withdrawalRequested (userId email name : String) (amount : ℚ) (currency : String)
      (transactionId : ℕ)
  | withdrawalProcessed (userId email name : String) (amount : ℚ) (approved : Bool)
      (rejectionReason : Option String) (currency : String) (transactionId : ℕ)
  deriving DecidableEq, Repr

structure Store where
  wallets : String → Option WalletDoc
  transactions : List Transaction
  locks : String → Option ℕ
  now : Time
  outbox : List WalletEvent

namespace Store

def empty : Store := ⟨fun _ => none, [], fun _ => none, 0, []⟩

/-- The stored balance, 0 while there is no wallet. -/
def balance (s : Store) (userId : String) : ℚ := (s.wallets userId).elim 0 WalletDoc.balance

def status (s : Store) (transactionId : ℕ) : Option TransactionStatus :=
  s.transactions[transactionId]?.map Transaction.status

def HasKey (s : Store) (key : String) : Prop :=
  ∃ t ∈ s.transactions, t.idempotencyKey = key

instance (s : Store) (key : String) : Decidable (s.HasKey key) :=
  inferInstanceAs (Decidable (∃ t ∈ s.transactions, t.idempotencyKey = key))

def setWallet (s : Store) (userId : String) (w : WalletDoc) : Store :=
  { s with wallets := Function.update s.wallets userId (some w) }

end Store

/-- The calls the services make on MongoDB, Redis, Kafka and the clock. -/
inductive WalletOp where
  /-- `transactionModel.countDocuments({ idempotencyKey })` -/
  | countByIdempotencyKey (key : String)
  | createTransaction (doc : Transaction)
  | findTransaction (transactionId : ℕ)
  | updateTransaction (transactionId : ℕ) (set : TransactionUpdate)
  | findWallet (userId : String)
  /-- `walletModel.findOneAndUpdate({ userId }, { $setOnInsert }, { upsert: true, new: true })` -/
  | ensureWallet (userId : String)
  /-- `walletModel.findOneAndUpdate({ userId, balance: { $gte } }, { $inc: { balance } },
  { new: true })`; a deposit also sets `lastDepositAt` -/
  | incBalance (userId : String) (gte : Option ℚ) (amount : ℚ) (isDeposit : Bool)
  /-- `walletModel.findByIdAndUpdate(wallet._id, { $set: { balance } })` -/
  | setBalance (userId : String) (balance : ℚ)
  /-- `redis.set(key, token, 'EX', ttl, 'NX')` -/
  | setLock (key : String) (token : ℕ)
  | evalRelease (key : String) (token : ℕ)
  | emit (event : WalletEvent)
  | dateNow
  deriving DecidableEq, Repr

namespace WalletOp

def isIncBalance : WalletOp → Bool
  | .incBalance _ _ _ _ => true
  | _ => false

def isSetBalance : WalletOp → Bool
  | .setBalance _ _ => true
  | _ => false

def isUpdate : WalletOp → Bool
  | .updateTransaction _ _ => true
  | _ => false

def isCompletion : WalletOp → Bool
  | .updateTransaction _ (.completed _ _) => true
  | _ => false

end WalletOp

/-- What each operation answers. `createTransaction` answers `none` when the
unique index on `idempotencyKey` refuses the document. -/
abbrev WalletOp.Reply : WalletOp → Type
  | .countByIdempotencyKey _ => ℕ
  | .createTransaction _ => Option ℕ
  | .findTransaction _ => Option Transaction
  | .updateTransaction _ _ => Unit
  | .findWallet _ => Option WalletDoc
  | .ensureWallet _ => WalletDoc
  | .incBalance _ _ _ _ => Option WalletDoc
  | .setBalance _ _ => Unit
  | .setLock _ _ => Bool
  | .evalRelease _ _ => Bool
  | .emit _ => Unit
  | .dateNow => Time

/-- A wallet as `$setOnInsert` creates it. -/
def WalletDoc.fresh (userId : String) : WalletDoc := ⟨userId, 0, "USD", none⟩

/-- The filter of a conditional `$inc`. -/
def WalletDoc.Covers (w : WalletDoc) : Option ℚ → Prop
  | some amount => amount ≤ w.balance
  | none => True

instance (w : WalletDoc) (gte : Option ℚ) : Decidable (w.Covers gte) :=
  match gte with
  | some amount => inferInstanceAs (Decidable (amount ≤ w.balance))
  | none => .isTrue trivial

/-- The document after `$inc`, and `$set: { lastDepositAt }` for a deposit. -/
def WalletDoc.inc (w : WalletDoc) (amount : ℚ) (isDeposit : Bool) (now : Time) : WalletDoc :=
  { w with
    balance := w.balance + amount
    lastDepositAt := if isDeposit then some now else w.lastDepositAt }

/-- Each operation is one atomic step of MongoDB or Redis. -/
def exec : (op : WalletOp) → Store → op.Reply × Store
  | .countByIdempotencyKey key, s =>
      ((s.transactions.filter fun t => t.idempotencyKey = key).length, s)
  | .createTransaction doc, s =>
      if s.HasKey doc.idempotencyKey then (none, s)
      else (some s.transactions.length,
        { s with transactions := s.transactions ++ [{ doc with createdAt := s.now }] })
  | .findTransaction transactionId, s => (s.transactions[transactionId]?, s)
  | .updateTransaction transactionId set, s =>
      ((), { s with transactions := s.transactions.modify transactionId (set.apply s.now) })
  | .findWallet userId, s => (s.wallets userId, s)
  | .ensureWallet userId, s =>
      match s.wallets userId with
      | some w => (w, s)
      | none => (.fresh userId, s.setWallet userId (.fresh userId))
  | .incBalance userId gte amount isDeposit, s =>
      match s.wallets userId with
      | some w =>
          if w.Covers gte then
            (some (w.inc amount isDeposit s.now), s.setWallet userId (w.inc amount isDeposit s.now))
          else (none, s)
      | none => (none, s)
  | .setBalance userId balance, s =>
      match s.wallets userId with
      | some w => ((), s.setWallet userId { w with balance := balance })
      | none => ((), s)
  | .setLock key token, s =>
      match s.locks key with
      | some _ => (false, s)
      | none => (true, { s with locks := Function.update s.locks key (some token) })
  | .evalRelease key token, s =>
      if s.locks key = some token then
        (true, { s with locks := Function.update s.locks key none })
      else (false, s)
  | .emit event, s => ((), { s with outbox := s.outbox ++ [event] })
  | .dateNow, s => (s.now, s)

/-- What happens to the store unasked: a lock key reaches its TTL, time passes. -/
inductive Environment where
  | expire (key : String)
  | tick (ms : Time)
  deriving DecidableEq, Repr

def Environment.isTick : Environment → Bool
  | .expire _ => false
  | .tick _ => true

def backend : Backend WalletOp WalletOp.Reply Store Environment where
  exec := exec
  env
    | .expire key, s => { s with locks := Function.update s.locks key none }
    | .tick ms, s => { s with now := s.now + ms }

abbrev Call (α : Type) := Prog WalletOp WalletOp.Reply Exception α

abbrev query (op : WalletOp) : Call op.Reply := Prog.send op

/-- How each operation of one request ends. No request sends one operation twice. -/
abbrev Faults := WalletOp → Outcome Exception

def answered : Faults := fun _ => .done

end StockMarket.Wallet
