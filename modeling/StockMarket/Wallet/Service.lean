import StockMarket.Wallet.Store

/-! # The services of the wallet service

`TransactionService`, `LockService`, `WalletService` and `InternalWalletService`,
each function as the calls it makes in the order it makes them. `randomUUID`
is a number every call is given and no other call has.
-/

namespace StockMarket.Wallet
open Interleaving Prog

structure CreateTransactionInput where
  userId : String
  type : TransactionType
  status : TransactionStatus
  amount : ℚ
  balanceBefore : ℚ
  balanceAfter : Option ℚ := none
  currency : String
  idempotencyKey : String
  stripePaymentIntentId : Option String := none
  stripeSessionId : Option String := none
  adjustmentNote : Option String := none
  processedByCmsUserId : Option String := none
  processedAt : Option Time := none

/-- The document `create` hands to the driver, which adds `createdAt`. -/
def CreateTransactionInput.doc (input : CreateTransactionInput) : Transaction where
  userId := input.userId
  type := input.type
  status := input.status
  amount := input.amount
  balanceBefore := input.balanceBefore
  balanceAfter := input.balanceAfter
  currency := input.currency
  idempotencyKey := input.idempotencyKey
  stripePaymentIntentId := input.stripePaymentIntentId
  stripeSessionId := input.stripeSessionId
  adjustmentNote := input.adjustmentNote
  processedByCmsUserId := input.processedByCmsUserId
  rejectionReason := none
  processedAt := input.processedAt
  createdAt := 0

namespace TransactionService

def create (input : CreateTransactionInput) : Call ℕ := do
  match ← query (.createTransaction input.doc) with
  | some transactionId => pure transactionId
  | none => raise (.conflict s!"Transaction already processed: {input.idempotencyKey}")

def markCompleted (transactionId : ℕ) (balanceAfter : ℚ)
    (processedByCmsUserId : Option String := none) : Call Unit :=
  query (.updateTransaction transactionId (.completed balanceAfter processedByCmsUserId))

def markRejected (transactionId : ℕ) (reason : String)
    (processedByCmsUserId : Option String := none) : Call Unit :=
  query (.updateTransaction transactionId (.rejected reason processedByCmsUserId))

def existsByIdempotencyKey (key : String) : Call Bool := do
  let count ← query (.countByIdempotencyKey key)
  pure (decide (0 < count))

def findById (transactionId : ℕ) : Call (Option Transaction) :=
  query (.findTransaction transactionId)

end TransactionService

def walletLock (userId : String) : String := s!"lock:wallet:{userId}"

namespace LockService

def acquire (uuid : ℕ) (userId : String) : Call (Option ℕ) := do
  let ok ← query (.setLock (walletLock userId) uuid)
  pure (if ok then some uuid else none)

def release (userId : String) (token : ℕ) : Call Unit := do
  let _ ← query (.evalRelease (walletLock userId) token)
  pure ()

def withLock {α : Type} (uuid : ℕ) (userId : String) (fn : Call α) : Call α := do
  match ← acquire uuid userId with
  | none =>
      raise (.serviceUnavailable
        "Wallet is currently locked by another operation. Please retry in a moment.")
  | some token => finallyDo fn (release userId token)

end LockService

structure StripeDepositInput where
  userId : String
  amount : ℚ
  currency : String
  idempotencyKey : String
  stripeSessionId : String
  stripePaymentIntentId : Option String
  /-- the session was created from an `InitiateDepositDto` -/
  amount_pos : 0 < amount

structure MemberContext where
  userId : String
  email : String
  name : String

structure WithdrawDto where
  amount : ℚ
  amount_pos : 0 < amount

/-- `InternalDeductDto` and `InternalCreditDto`, which have the same fields. -/
structure InternalMoveDto where
  userId : String
  amount : ℚ
  orderId : String
  amount_pos : 0 < amount

/-- The lines that deposits, deducts and credits share: insert the PENDING
record, move the balance, and complete the record or give up. -/
def recordThenMove (record : CreateTransactionInput) (gte : Option ℚ) (amount : ℚ)
    (isDeposit : Bool) (giveUp : ℕ → Call (ℕ × ℚ)) : Call (ℕ × ℚ) := do
  let transactionId ← TransactionService.create record
  match ← query (.incBalance record.userId gte amount isDeposit) with
  | none => giveUp transactionId
  | some updated => do
      TransactionService.markCompleted transactionId updated.balance
      pure (transactionId, updated.balance)

namespace WalletService

def ensureWallet (userId : String) : Call WalletDoc := query (.ensureWallet userId)

def getWallet (userId : String) : Call WalletDoc := do
  match ← query (.findWallet userId) with
  | none => raise (.notFound "Wallet not found. Please make a deposit to create one.")
  | some wallet => pure wallet

def processStripeDeposit (uuid : ℕ) (input : StripeDepositInput) : Call Unit := do
  let alreadyProcessed ← TransactionService.existsByIdempotencyKey input.idempotencyKey
  if alreadyProcessed then
    pure ()
  else
    LockService.withLock uuid input.userId do
      let wallet ← ensureWallet input.userId
      let (transactionId, balanceAfter) ← recordThenMove
        { userId := input.userId
          type := .deposit
          status := .pending
          amount := input.amount
          balanceBefore := wallet.balance
          currency := input.currency
          idempotencyKey := input.idempotencyKey
          stripePaymentIntentId := input.stripePaymentIntentId
          stripeSessionId := some input.stripeSessionId }
        none input.amount true
        (fun _ => raise (.notFound "Wallet not found during deposit credit"))
      query (.emit (.walletCredited input.userId "" "" input.amount balanceAfter input.currency
        transactionId))

/-- The hold still running `elapsed` milliseconds after the last deposit. -/
def holdRemaining (holdMs elapsed : ℤ) : Option ℤ :=
  if elapsed < holdMs then some (holdMs - elapsed) else none

def requestWithdrawal (withdrawalHoldHrs uuid : ℕ) (member : MemberContext) (dto : WithdrawDto) :
    Call (ℕ × String) := do
  let wallet ← getWallet member.userId
  match wallet.lastDepositAt with
  | some lastDepositAt => do
      let now ← query .dateNow
      match holdRemaining (withdrawalHoldHrs * 60 * 60 * 1000) ((now : ℤ) - lastDepositAt) with
      | some remainingMs =>
          let remainingHrs := ⌈(remainingMs : ℚ) / (60 * 60 * 1000)⌉
          raise (.badRequest
            s!"Withdrawals are locked for {remainingHrs} more hour(s) after your last deposit.")
      | none => submit wallet
  | none => submit wallet
where
  submit (wallet : WalletDoc) : Call (ℕ × String) := do
    if wallet.balance < dto.amount then
      let available := toFixedText 2 wallet.balance
      let requested := toFixedText 2 dto.amount
      raise (.badRequest s!"Insufficient balance. Available: ${available}, Requested: ${requested}")
    else
      let transactionId ← TransactionService.create
        { userId := member.userId
          type := .withdrawal
          status := .pending
          amount := dto.amount
          balanceBefore := wallet.balance
          currency := wallet.currency
          idempotencyKey := s!"withdrawal:{member.userId}:{uuid}" }
      query (.emit (.withdrawalRequested member.userId member.email member.name dto.amount
        wallet.currency transactionId))
      pure (transactionId, "Withdrawal request submitted. Pending CMS approval.")

/-- The checks both decisions on a withdrawal begin with. -/
def findPendingWithdrawal (transactionId : ℕ) : Call Transaction := do
  match ← TransactionService.findById transactionId with
  | none => raise (.notFound "Transaction not found")
  | some transaction =>
      if transaction.type ≠ .withdrawal then
        raise (.badRequest "Transaction is not a withdrawal")
      else if transaction.status ≠ .pending then
        raise (.conflict s!"Transaction is already {transaction.status.text}")
      else
        pure transaction

def approveWithdrawal (uuid transactionId : ℕ) (cmsUserId : String) (member : MemberContext) :
    Call Unit := do
  let transaction ← findPendingWithdrawal transactionId
  let amount := transaction.amount
  LockService.withLock uuid transaction.userId do
    match ← query (.incBalance transaction.userId (some amount) (-amount) false) with
    | none => do
        TransactionService.markRejected transactionId "Insufficient balance at time of approval"
          cmsUserId
        query (.emit (.withdrawalProcessed member.userId member.email member.name amount false
          (some "Insufficient balance at time of approval") transaction.currency transactionId))
        raise (.badRequest "Insufficient balance. Withdrawal has been automatically rejected.")
    | some updated => do
        TransactionService.markCompleted transactionId updated.balance cmsUserId
        query (.emit (.withdrawalProcessed member.userId member.email member.name amount true none
          transaction.currency transactionId))

def rejectWithdrawal (transactionId : ℕ) (reason cmsUserId : String) (member : MemberContext) :
    Call Unit := do
  let transaction ← findPendingWithdrawal transactionId
  TransactionService.markRejected transactionId reason cmsUserId
  query (.emit (.withdrawalProcessed transaction.userId member.email member.name transaction.amount
    false (some reason) transaction.currency transactionId))

/-- The body of `manualAdjustment`, with the number format its sum is taken in:
`parseFloat` reads the balance as a number, and `String` prints a number. -/
def manualAdjustmentWith (format : Rounding.Format) (uuid : ℕ) (targetUserId : String) (amount : ℚ)
    (justification cmsUserId : String) : Call (ℚ × ℕ) :=
  LockService.withLock uuid targetUserId do
    let wallet ← getWallet targetUserId
    let currentBalance := format.read wallet.balance
    let newBalance := format.read (currentBalance + amount)
    if newBalance < 0 then
      let current := toFixedText 2 currentBalance
      let adjustment := numberText (format.print amount)
      raise (.badRequest ("Adjustment would result in negative balance. " ++
        s!"Current: ${current}, Adjustment: ${adjustment}"))
    else
      query (.setBalance targetUserId (toFixed 6 newBalance))
      let processedAt ← query .dateNow
      let transactionId ← TransactionService.create
        { userId := targetUserId
          type := if 0 ≤ amount then .manualCredit else .manualDebit
          status := .completed
          amount := format.print |amount|
          balanceBefore := format.print currentBalance
          balanceAfter := some (format.print newBalance)
          currency := wallet.currency
          idempotencyKey := s!"manual:{cmsUserId}:{targetUserId}:{uuid}"
          processedByCmsUserId := some cmsUserId
          adjustmentNote := some justification
          processedAt := some processedAt }
      pure (toFixed 2 newBalance, transactionId)

/-- `manualAdjustment` in exact decimal arithmetic: the sum of the balance and
the amount is assumed not to be rounded. -/
def manualAdjustment (uuid : ℕ) (targetUserId : String) (amount : ℚ)
    (justification cmsUserId : String) : Call (ℚ × ℕ) :=
  manualAdjustmentWith .exact uuid targetUserId amount justification cmsUserId

end WalletService

namespace InternalWalletService

/-- What deduct and credit do once the key is known: answer the balance. -/
def currentBalance (userId : String) : Call ℚ := do
  match ← query (.findWallet userId) with
  | none => raise (.notFound "Wallet not found")
  | some wallet => pure wallet.balance

def deduct (uuid : ℕ) (dto : InternalMoveDto) : Call ℚ := do
  let idempotencyKey := s!"trade:deduct:{dto.orderId}"
  let already ← TransactionService.existsByIdempotencyKey idempotencyKey
  if already then
    currentBalance dto.userId
  else
    LockService.withLock uuid dto.userId do
      match ← query (.findWallet dto.userId) with
      | none => raise (.notFound "Wallet not found")
      | some wallet =>
          if wallet.balance < dto.amount then
            let available := toFixedText 2 wallet.balance
            let required := toFixedText 2 dto.amount
            raise (.badRequest
              s!"Insufficient wallet balance. Available: {available}, Required: {required}")
          else
            let (_, newBalance) ← recordThenMove
              { userId := dto.userId
                type := .buy
                status := .pending
                amount := dto.amount
                balanceBefore := wallet.balance
                currency := wallet.currency
                idempotencyKey := idempotencyKey }
              (some dto.amount) (-dto.amount) false
              (fun transactionId => do
                TransactionService.markRejected transactionId
                  "Insufficient balance (concurrent race)" "system"
                raise (.badRequest "Insufficient wallet balance"))
            pure newBalance

def credit (uuid : ℕ) (dto : InternalMoveDto) : Call ℚ := do
  let idempotencyKey := s!"trade:credit:{dto.orderId}"
  let already ← TransactionService.existsByIdempotencyKey idempotencyKey
  if already then
    currentBalance dto.userId
  else
    LockService.withLock uuid dto.userId do
      match ← query (.findWallet dto.userId) with
      | none => raise (.notFound "Wallet not found")
      | some wallet =>
          let (_, newBalance) ← recordThenMove
            { userId := dto.userId
              type := .sell
              status := .pending
              amount := dto.amount
              balanceBefore := wallet.balance
              currency := wallet.currency
              idempotencyKey := idempotencyKey }
            none dto.amount false
            (fun _ => raise (.notFound "Wallet not found during credit"))
          pure newBalance

end InternalWalletService

inductive Request where
  | ensureWallet (userId : String)
  | processStripeDeposit (input : StripeDepositInput)
  | requestWithdrawal (member : MemberContext) (dto : WithdrawDto)
  | approveWithdrawal (transactionId : ℕ) (cmsUserId : String) (member : MemberContext)
  | rejectWithdrawal (transactionId : ℕ) (reason cmsUserId : String) (member : MemberContext)
  | deduct (dto : InternalMoveDto)
  | credit (dto : InternalMoveDto)
  | manualAdjustment (targetUserId : String) (amount : ℚ) (justification cmsUserId : String)

/-- What the functions return, put into one type. -/
inductive Response where
  | done
  | wallet (wallet : WalletDoc)
  | withdrawal (transactionId : ℕ) (message : String)
  | newBalance (newBalance : ℚ)
  | adjusted (newBalance : ℚ) (transactionId : ℕ)
  deriving DecidableEq, Repr

/-- The call that serves a request, given its own `uuid`. The amount of an
adjustment arrives as a decimal and is read as a number. -/
def Request.serveWith (format : Rounding.Format) (withdrawalHoldHrs uuid : ℕ) :
    Request → Call Response
  | .ensureWallet userId => do
      let wallet ← WalletService.ensureWallet userId
      pure (.wallet wallet)
  | .processStripeDeposit input => do
      WalletService.processStripeDeposit uuid input
      pure .done
  | .requestWithdrawal member dto => do
      let (transactionId, message) ←
        WalletService.requestWithdrawal withdrawalHoldHrs uuid member dto
      pure (.withdrawal transactionId message)
  | .approveWithdrawal transactionId cmsUserId member => do
      WalletService.approveWithdrawal uuid transactionId cmsUserId member
      pure .done
  | .rejectWithdrawal transactionId reason cmsUserId member => do
      WalletService.rejectWithdrawal transactionId reason cmsUserId member
      pure .done
  | .deduct dto => do
      let newBalance ← InternalWalletService.deduct uuid dto
      pure (.newBalance newBalance)
  | .credit dto => do
      let newBalance ← InternalWalletService.credit uuid dto
      pure (.newBalance newBalance)
  | .manualAdjustment targetUserId amount justification cmsUserId => do
      let (newBalance, transactionId) ← WalletService.manualAdjustmentWith format uuid targetUserId
        (format.read amount) justification cmsUserId
      pure (.adjusted newBalance transactionId)

/-- The same in exact decimal arithmetic. -/
def Request.serve (withdrawalHoldHrs uuid : ℕ) (r : Request) : Call Response :=
  r.serveWith .exact withdrawalHoldHrs uuid

/-- A state of the running service: calls are numbered, and a call's number
serves as its `uuid`. -/
abbrev State := Config ℕ WalletOp WalletOp.Reply Store Exception Response

/-- The service with one call for each number, none of which has begun. -/
def State.startWith (format : Rounding.Format) (withdrawalHoldHrs : ℕ) (store : Store)
    (requests : ℕ → Request) : State :=
  Config.start store fun i => (requests i).serveWith format withdrawalHoldHrs i

/-- The same in exact decimal arithmetic. -/
def State.start (withdrawalHoldHrs : ℕ) (store : Store) (requests : ℕ → Request) : State :=
  State.startWith .exact withdrawalHoldHrs store requests

@[simp] theorem State.start_log (withdrawalHoldHrs : ℕ) (store : Store) (requests : ℕ → Request) :
    (State.start withdrawalHoldHrs store requests).log = [] := rfl

abbrev Schedule := List (Choice ℕ Environment Exception)

end StockMarket.Wallet
