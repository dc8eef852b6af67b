import StockMarket.Numeral
import StockMarket.Wallet.Service

/-! # Deposits through Stripe

A deposit begins with a checkout session, whose metadata say what it is for, and
ends with the webhook that reads them back. Stripe keeps the sessions and signs the
events.
-/

namespace StockMarket.Wallet
open Interleaving Prog

/-- What a checkout session is created with: a numeric amount may be `NaN` once it
has been a text. -/
structure StripeDepositMeta where
  userId : String
  amount : Number
  currency : String
  idempotencyKey : String
  deriving DecidableEq, Repr

/-- The metadata of a session, each of them possibly missing. -/
structure SessionMetadata where
  userId : Option String
  amount : Option String
  currency : Option String
  idempotencyKey : Option String
  deriving DecidableEq, Repr

/-- The arguments of `checkout.sessions.create`. There is one line item, of quantity 1. -/
structure SessionParams where
  currency : String
  description : String
  unitAmount : ℤ
  metadata : SessionMetadata
  successUrl : String
  cancelUrl : String
  deriving DecidableEq, Repr

/-- What Stripe answers about a new session. -/
structure CreatedSession where
  id : String
  url : Option String
  deriving DecidableEq, Repr

structure CheckoutSessionResult where
  sessionId : String
  checkoutUrl : String
  deriving DecidableEq, Repr

/-- The text is there and not empty. -/
def truthy (text : Option String) : Option String := text.filter fun s => s ≠ ""

/-- `Math.round`: halves go up. -/
def mathRound (x : ℚ) : ℤ := ⌊x + 1 / 2⌋

namespace StripeService

/-- What `createDepositSession` asks Stripe for, in cents. -/
def sessionParams (userId : String) (amount : ℚ) (currency idempotencyKey : String)
    (successUrl cancelUrl : String) : SessionParams where
  currency := String.ofList (currency.toList.map Char.toLower)
  description := s!"Deposit ${numberText amount} to your trading wallet"
  unitAmount := mathRound (amount * 100)
  metadata :=
    { userId := some userId
      amount := some (numberText amount)
      currency := some currency
      idempotencyKey := some idempotencyKey }
  successUrl := successUrl
  cancelUrl := cancelUrl

def createDepositSession (create : SessionParams → Except Exception CreatedSession)
    (params : SessionParams) : Except Exception CheckoutSessionResult := do
  let session ← create params
  match truthy session.url with
  | none => .error (.badRequest "Stripe did not return a checkout URL")
  | some url => pure { sessionId := session.id, checkoutUrl := url }

def extractDepositMeta (metadata : Option SessionMetadata) : Option StripeDepositMeta := do
  let metadata ← metadata
  let userId ← truthy metadata.userId
  let amount ← truthy metadata.amount
  let currency ← truthy metadata.currency
  let idempotencyKey ← truthy metadata.idempotencyKey
  pure { userId, amount := parseFloat amount, currency, idempotencyKey }

end StripeService

/-- `@IsNumber({ maxDecimalPlaces: 2 }) @IsPositive() @Min(10) @Max(100000)` -/
structure InitiateDepositDto where
  amount : ℚ
  decimals : HasDecimals 2 amount
  min : 10 ≤ amount
  max : amount ≤ 100000

/-- `wallet.minDeposit` and `wallet.maxDeposit`. -/
structure DepositLimits where
  minDeposit : ℚ
  maxDeposit : ℚ
  deriving DecidableEq, Repr

namespace WalletService

def depositParams (uuid : ℕ) (member : MemberContext) (dto : InitiateDepositDto) : SessionParams :=
  StripeService.sessionParams member.userId dto.amount "USD" s!"deposit:{member.userId}:{uuid}"
    "https://dashboard.stripe.com/test/payments" "https://dashboard.stripe.com/test/payments"

def initiateDeposit (limits : DepositLimits)
    (create : SessionParams → Except Exception CreatedSession) (uuid : ℕ) (member : MemberContext)
    (dto : InitiateDepositDto) : Except Exception CheckoutSessionResult :=
  if dto.amount < limits.minDeposit ∨ limits.maxDeposit < dto.amount then
    let min := numberText limits.minDeposit
    let max := numberText limits.maxDeposit
    .error (.badRequest s!"Deposit amount must be between ${min} and ${max}")
  else
    StripeService.createDepositSession create (depositParams uuid member dto)

end WalletService

/-- `payment_intent`: an id, an object, or null. -/
inductive PaymentIntent where
  | id (text : String)
  | object (id : String)
  | null
  deriving DecidableEq, Repr

/-- `typeof session.payment_intent === 'string' ? … : undefined` -/
def PaymentIntent.text : PaymentIntent → Option String
  | .id text => some text
  | .object _ => none
  | .null => none

/-- A session of the account. Only `createDepositSession` fills in all four metadata. -/
structure StripeSession where
  id : String
  paymentStatus : String
  paymentIntent : PaymentIntent
  metadata : Option SessionMetadata
  amount_pos : ∀ data, StripeService.extractDepositMeta metadata = some data →
    0 < data.amount.getD 0

def StripeSession.deposit (session : StripeSession) : Option StripeDepositInput :=
  match h : StripeService.extractDepositMeta session.metadata with
  | none => none
  | some data => some
      { userId := data.userId
        amount := data.amount.getD 0
        currency := data.currency
        idempotencyKey := data.idempotencyKey
        stripeSessionId := session.id
        stripePaymentIntentId := session.paymentIntent.text
        amount_pos := session.amount_pos data h }

structure StripeWebhookEvent where
  type : String
  session : StripeSession

/-- `POST /wallet/deposit/webhook` -/
structure WebhookRequest where
  rawBody : Option String
  signature : Option String

namespace StripeWebhookController

def deposit (event : StripeWebhookEvent) : Option StripeDepositInput :=
  if event.type = "checkout.session.completed" ∧ event.session.paymentStatus = "paid" then
    event.session.deposit
  else none

/-- `constructEvent` verifies the signature of the body. -/
def handleWebhook (constructEvent : String → String → Except String StripeWebhookEvent)
    (uuid : ℕ) (req : WebhookRequest) : Call Bool :=
  match truthy req.signature with
  | none => raise (.badRequest "Missing stripe-signature header")
  | some signature =>
      match req.rawBody with
      | none => raise (.badRequest "Missing raw body — ensure rawBody: true in NestFactory")
      | some rawBody =>
          match constructEvent rawBody signature with
          | .error message => raise (.badRequest s!"Webhook signature invalid: {message}")
          | .ok event =>
              match deposit event with
              | none => pure true
              | some input => do
                  WalletService.processStripeDeposit uuid input
                  pure true

end StripeWebhookController
end StockMarket.Wallet
