import StockMarket.Notifications.Consumers

/-! # The idempotency keys

Every key is the kind of the notification, the user, and a detail that each
consumer takes from its event. Two keys agree when all three do.
-/

namespace StockMarket

theorem ObjectId.append_inj {id id' : ObjectId} {rest rest' : String} :
    id.text ++ rest = id'.text ++ rest' ↔ id = id' ∧ rest = rest' := by
  constructor
  · intro h
    have hlist := congrArg String.toList h
    rw [String.toList_append, String.toList_append] at hlist
    have hparts := List.append_inj hlist (id.length_text.trans id'.length_text.symm)
    exact ⟨ObjectId.ext_text (String.toList_inj.mp hparts.1), String.toList_inj.mp hparts.2⟩
  · rintro ⟨rfl, rfl⟩
    rfl

/-- What stands before the first colon can be read back. -/
theorem takeWhile_colon {head : String} (hhead : ':' ∉ head.toList) (rest : String) :
    (head ++ ":" ++ rest).toList.takeWhile (· != ':') = head.toList := by
  have hall : ∀ c ∈ head.toList, (c != ':') = true := by
    intro c hc
    rw [bne_iff_ne]
    rintro rfl
    exact hhead hc
  simp [String.toList_append, List.takeWhile_append_of_pos hall]

theorem append_colon_inj {head head' rest rest' : String} (hhead : ':' ∉ head.toList)
    (hhead' : ':' ∉ head'.toList) :
    head ++ ":" ++ rest = head' ++ ":" ++ rest' ↔ head = head' ∧ rest = rest' := by
  constructor
  · intro h
    have hsame : head = head' := by
      rw [← String.toList_inj, ← takeWhile_colon hhead rest, h, takeWhile_colon hhead' rest']
    rw [hsame] at h
    exact ⟨hsame, String.append_right_inj _ |>.mp h⟩
  · rintro ⟨rfl, rfl⟩
    rfl

end StockMarket

namespace StockMarket.Notifications

/-- The text of the enumeration, as the keys spell it. -/
def NotificationType.text : NotificationType → String
  | .otpSend => "OTP_SEND"
  | .walletCredited => "WALLET_CREDITED"
  | .tradeExecuted => "TRADE_EXECUTED"
  | .priceAlert => "PRICE_ALERT"
  | .cmsProvisioned => "CMS_PROVISIONED"

theorem NotificationType.text_plain (type : NotificationType) : ':' ∉ type.text.toList := by
  cases type <;> decide

theorem NotificationType.text_inj {type type' : NotificationType} (h : type.text = type'.text) :
    type = type' := by
  cases type <;> cases type' <;> first | rfl | exact absurd h (by decide)

/-- Something that happened and publishes a notification: the document it is
about, and the event that is sent. -/
inductive Occurrence where
  | otp (otpId : ObjectId) (event : OtpEvent)
  | alert (alertId : ObjectId) (event : PriceAlertEvent)
  | deposit (event : WalletCreditedEvent)
  | order (event : TradeExecutedEvent)
  | cmsAccount (event : CmsProvisionedEvent)
  deriving DecidableEq

namespace Occurrence

def options : Occurrence → ProcessOptions
  | .otp _ event => OtpConsumer.handle event
  | .alert _ event => PriceAlertConsumer.handle event
  | .deposit event => WalletConsumer.handle event
  | .order event => TradeConsumer.handle event
  | .cmsAccount event => CmsConsumer.handle event

def kind (o : Occurrence) : NotificationType := o.options.type

@[simp] theorem kind_otp (otpId : ObjectId) (event : OtpEvent) :
    (otp otpId event).kind = .otpSend := rfl

@[simp] theorem kind_alert (alertId : ObjectId) (event : PriceAlertEvent) :
    (alert alertId event).kind = .priceAlert := rfl

@[simp] theorem kind_deposit (event : WalletCreditedEvent) :
    (deposit event).kind = .walletCredited := rfl

@[simp] theorem kind_order (event : TradeExecutedEvent) : (order event).kind = .tradeExecuted := rfl

@[simp] theorem kind_cmsAccount (event : CmsProvisionedEvent) :
    (cmsAccount event).kind = .cmsProvisioned := rfl

def key (o : Occurrence) : String := o.options.idempotencyKey

/-- The document: an OTP, an alert, a wallet transaction, an order or a CMS user. -/
def documentId : Occurrence → ObjectId
  | .otp otpId _ => otpId
  | .alert alertId _ => alertId
  | .deposit event => event.transactionId
  | .order event => event.transactionId
  | .cmsAccount event => event.userId

def Different (o o' : Occurrence) : Prop := o.kind ≠ o'.kind ∨ o.documentId ≠ o'.documentId

instance (o o' : Occurrence) : Decidable (o.Different o') := inferInstanceAs (Decidable (_ ∨ _))

/-- The ticker of an alert contains no colon. -/
def TickerPlain : Occurrence → Prop
  | .alert _ event => ':' ∉ event.ticker.toList
  | _ => True

instance : DecidablePred TickerPlain
  | .alert _ event => inferInstanceAs (Decidable (':' ∉ event.ticker.toList))
  | .otp _ _ => .isTrue trivial
  | .deposit _ => .isTrue trivial
  | .order _ => .isTrue trivial
  | .cmsAccount _ => .isTrue trivial

/-- Two OTPs of one user with the same code, or two alerts of one member on the
same ticker at the same target price. -/
def Repeats : Occurrence → Occurrence → Prop
  | .otp _ event, .otp _ event' => event.userId = event'.userId ∧ event.otp = event'.otp
  | .alert _ event, .alert _ event' =>
      event.userId = event'.userId ∧ event.ticker = event'.ticker ∧
        numberText event.targetPrice = numberText event'.targetPrice
  | _, _ => False

def userId : Occurrence → ObjectId
  | .otp _ event => event.userId
  | .alert _ event => event.userId
  | .deposit event => event.userId
  | .order event => event.userId
  | .cmsAccount event => event.userId

def detail : Occurrence → String
  | .otp _ event => event.otp
  | .alert _ event => event.ticker ++ ":" ++ numberText event.targetPrice
  | .deposit event => event.transactionId.text
  | .order event => event.transactionId.text
  | .cmsAccount event => event.email

theorem key_eq (o : Occurrence) :
    o.key = "notification:" ++ (o.kind.text ++ ":" ++ (o.userId.text ++ (":" ++ o.detail))) := by
  cases o with
  | otp otpId event =>
    have hhead : "notification:OTP_SEND:" = "notification:" ++ ("OTP_SEND" ++ ":") := by
      decide
    change OtpConsumer.buildKey event = _
    unfold OtpConsumer.buildKey
    simp only [userId, detail, kind_otp, NotificationType.text, ToString.toString, hhead,
      String.append_assoc]
  | alert alertId event =>
    have hhead : "notification:PRICE_ALERT:" = "notification:" ++ ("PRICE_ALERT" ++ ":") := by
      decide
    simp only [key, options, PriceAlertConsumer.handle, userId, detail, kind_alert,
      NotificationType.text, ToString.toString, hhead, String.append_assoc]
  | deposit event =>
    have hhead : "notification:WALLET_CREDITED:" =
        "notification:" ++ ("WALLET_CREDITED" ++ ":") := by
      decide
    simp only [key, options, WalletConsumer.handle, userId, detail, kind_deposit,
      NotificationType.text, ToString.toString, hhead, String.append_assoc]
  | order event =>
    have hhead : "notification:TRADE_EXECUTED:" = "notification:" ++ ("TRADE_EXECUTED" ++ ":") := by
      decide
    simp only [key, options, TradeConsumer.handle, userId, detail, kind_order,
      NotificationType.text, ToString.toString, hhead, String.append_assoc]
  | cmsAccount event =>
    have hhead : "notification:CMS_PROVISIONED:" =
        "notification:" ++ ("CMS_PROVISIONED" ++ ":") := by
      decide
    simp only [key, options, CmsConsumer.handle, userId, detail, kind_cmsAccount,
      NotificationType.text, ToString.toString, hhead, String.append_assoc]

theorem key_eq_key_iff {o o' : Occurrence} :
    o.key = o'.key ↔ o.kind = o'.kind ∧ o.userId = o'.userId ∧ o.detail = o'.detail := by
  rw [key_eq, key_eq, String.append_right_inj,
    append_colon_inj (NotificationType.text_plain _) (NotificationType.text_plain _),
    ObjectId.append_inj, String.append_right_inj]
  constructor
  · rintro ⟨hkind, huser, hdetail⟩
    exact ⟨NotificationType.text_inj hkind, huser, hdetail⟩
  · rintro ⟨hkind, huser, hdetail⟩
    exact ⟨congrArg _ hkind, huser, hdetail⟩

/-- The keys of two different occurrences differ, unless a code or a target
price of one user comes up again. -/
theorem keys_differ_iff {o o' : Occurrence} (hplain : o.TickerPlain) (hplain' : o'.TickerPlain)
    (hdiff : o.Different o') : o.key ≠ o'.key ↔ ¬o.Repeats o' := by
  apply not_congr
  rw [key_eq_key_iff]
  constructor
  · rintro ⟨hkind, huser, hdetail⟩
    have hid : o.documentId ≠ o'.documentId := hdiff.resolve_left fun h => h hkind
    cases o <;> cases o' <;> simp only [kind_otp, kind_alert, kind_deposit, kind_order,
      kind_cmsAccount, reduceCtorEq] at hkind
    case otp.otp => exact ⟨huser, hdetail⟩
    case alert.alert => exact ⟨huser, append_colon_inj hplain hplain' |>.mp hdetail⟩
    case deposit.deposit => exact absurd (ObjectId.ext_text hdetail) hid
    case order.order => exact absurd (ObjectId.ext_text hdetail) hid
    case cmsAccount.cmsAccount => exact absurd huser hid
  · intro h
    cases o <;> cases o' <;> first | exact h.elim | skip
    case otp.otp => exact ⟨rfl, h.1, h.2⟩
    case alert.alert => exact ⟨rfl, h.1, append_colon_inj hplain hplain' |>.mpr h.2⟩

section Example

def member : ObjectId := .ofText "66c1f0aa90d3b5e7128f4a01" (by decide)

def transaction : ObjectId := .ofText "66c1f0aa90d3b5e7128f4a02" (by decide)

def firstAlert : ObjectId := .ofText "66c1f0aa90d3b5e7128f4a03" (by decide)

def secondAlert : ObjectId := .ofText "66c1f0aa90d3b5e7128f4a04" (by decide)

def alertEvent (currentPrice : ℚ) : PriceAlertEvent where
  userId := member
  email := "maya@example.com"
  name := "Maya"
  ticker := "ACME"
  companyName := none
  targetPrice := 150
  currentPrice := currentPrice
  direction := .above

def depositEvent : WalletCreditedEvent where
  userId := member
  email := "maya@example.com"
  name := "Maya"
  amount := 25
  newBalance := 125
  currency := "USD"
  transactionId := transaction

theorem keys_differ_alert_deposit :
    (alert firstAlert (alertEvent 151)).key ≠ (deposit depositEvent).key :=
  (keys_differ_iff (by decide) (by trivial) (by decide +kernel)).mpr fun h => h

/-- An alert that has triggered is made again, and triggers again. -/
def again : ℕ → Occurrence
  | 0 => alert firstAlert (alertEvent 151)
  | _ => alert secondAlert (alertEvent 160)

/-- The second alert has the key of the first, and its mail is never sent. -/
theorem alert_made_again_not_mailed :
    let setting : Setting := ⟨3, fun templateName _ => .ok templateName⟩
    let c := (State.start setting Store.empty fun n => (again n).options).run backend
      (List.replicate 5 (.step 0 .done) ++ List.replicate 5 (.step 1 .done))
    (again 0).TickerPlain ∧ (again 1).TickerPlain ∧ (again 0).Different (again 1) ∧
      (again 0).key = (again 1).key ∧ c.result 0 = some (.ok ()) ∧ c.result 1 = some (.ok ()) ∧
      c.store.mails.map Mail.subject = [(again 0).options.subject] := by
  decide +kernel

end Example

end Occurrence

end StockMarket.Notifications
