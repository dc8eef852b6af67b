import StockMarket.Notifications.Service

/-! # The five consumers

What each consumer makes of an event: the mail to send, and the key under which
it is sent once.
-/

namespace StockMarket.Notifications

structure OtpEvent where
  userId : ObjectId
  email : String
  name : String
  otp : String
  expiresInMinutes : ℕ
  deriving DecidableEq

structure WalletCreditedEvent where
  userId : ObjectId
  email : String
  name : String
  amount : ℚ
  newBalance : ℚ
  currency : String
  transactionId : ObjectId
  deriving DecidableEq

inductive TradeType where
  | buy | sell
  deriving DecidableEq, Repr

def TradeType.text : TradeType → String
  | .buy => "BUY"
  | .sell => "SELL"

structure TradeExecutedEvent where
  userId : ObjectId
  email : String
  name : String
  tradeType : TradeType
  ticker : String
  companyName : String
  shares : ℚ
  pricePerShare : ℚ
  totalAmount : ℚ
  profitLoss : Option ℚ
  transactionId : ObjectId
  deriving DecidableEq

inductive AlertDirection where
  | above | below
  deriving DecidableEq, Repr

/-- In the case in which the services send it. -/
def AlertDirection.text : AlertDirection → String
  | .above => "above"
  | .below => "below"

/-- The worker leaves `companyName` out. -/
structure PriceAlertEvent where
  userId : ObjectId
  email : String
  name : String
  ticker : String
  companyName : Option String
  targetPrice : ℚ
  currentPrice : ℚ
  direction : AlertDirection
  deriving DecidableEq

inductive CmsRole where
  | administrator | analyst | supportAgent
  deriving DecidableEq, Repr

def CmsRole.text : CmsRole → String
  | .administrator => "administrator"
  | .analyst => "analyst"
  | .supportAgent => "support_agent"

structure CmsProvisionedEvent where
  userId : ObjectId
  email : String
  name : String
  role : CmsRole
  temporaryPassword : String
  deriving DecidableEq

/-- A field of a context that may be `undefined`. -/
def optional (field : String) (value : Option Value) : TemplateContext :=
  (value.map fun v => (field, v)).toList

namespace OtpConsumer

def buildKey (event : OtpEvent) : String := s!"notification:OTP_SEND:{event.userId}:{event.otp}"

def handle (event : OtpEvent) : ProcessOptions where
  userId := event.userId.text
  email := event.email
  type := .otpSend
  subject := "Your Verification Code"
  templateName := "otp"
  templateContext :=
    [("name", .text event.name), ("otp", .text event.otp),
      ("expiresInMinutes", .number event.expiresInMinutes)]
  idempotencyKey := buildKey event

end OtpConsumer

def PriceAlertConsumer.handle (event : PriceAlertEvent) : ProcessOptions where
  userId := event.userId.text
  email := event.email
  type := .priceAlert
  subject := s!"Price Alert Triggered — {event.ticker}"
  templateName := "price-alert"
  templateContext :=
    [("name", .text event.name), ("ticker", .text event.ticker)] ++
      optional "companyName" (event.companyName.map .text) ++
      [("currentPrice", .number event.currentPrice), ("targetPrice", .number event.targetPrice),
        ("direction", .text event.direction.text)]
  idempotencyKey :=
    s!"notification:PRICE_ALERT:{event.userId}:{event.ticker}:{numberText event.targetPrice}"

def TradeConsumer.handle (event : TradeExecutedEvent) : ProcessOptions where
  userId := event.userId.text
  email := event.email
  type := .tradeExecuted
  subject := s!"{event.tradeType.text} Order Executed — {event.ticker}"
  templateName := "trade-confirmation"
  templateContext :=
    [("name", .text event.name), ("tradeType", .text event.tradeType.text),
      ("ticker", .text event.ticker), ("companyName", .text event.companyName),
      ("shares", .number event.shares), ("pricePerShare", .number event.pricePerShare),
      ("totalAmount", .number event.totalAmount)] ++
      optional "profitLoss" (event.profitLoss.map .number) ++
      [("transactionId", .text event.transactionId.text)]
  idempotencyKey := s!"notification:TRADE_EXECUTED:{event.userId}:{event.transactionId}"

def WalletConsumer.handle (event : WalletCreditedEvent) : ProcessOptions where
  userId := event.userId.text
  email := event.email
  type := .walletCredited
  subject := "Wallet Credited Successfully"
  templateName := "wallet-credit"
  templateContext :=
    [("name", .text event.name), ("amount", .number event.amount),
      ("newBalance", .number event.newBalance), ("currency", .text event.currency),
      ("transactionId", .text event.transactionId.text)]
  idempotencyKey := s!"notification:WALLET_CREDITED:{event.userId}:{event.transactionId}"

def CmsConsumer.handle (event : CmsProvisionedEvent) : ProcessOptions where
  userId := event.userId.text
  email := event.email
  type := .cmsProvisioned
  subject := "Your CMS Account Has Been Created"
  templateName := "cms-provisioning"
  templateContext :=
    [("name", .text event.name), ("email", .text event.email), ("role", .text event.role.text),
      ("temporaryPassword", .text event.temporaryPassword)]
  idempotencyKey := s!"notification:CMS_PROVISIONED:{event.userId}:{event.email}"

end StockMarket.Notifications
