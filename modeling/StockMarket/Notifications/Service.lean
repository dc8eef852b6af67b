import StockMarket.Platform
import StockMarket.Interleaving.Pool

/-! # The notification service

The five consumers, `ProcessorService`, and the services it works with: the
notification log with its unique index, the processed keys in Redis, and the
mail transport. A log entry's id is its place: nothing is ever deleted.
-/

namespace StockMarket.Notifications
open Interleaving Prog

abbrev Time := ℕ

inductive NotificationType where
  | otpSend | walletCredited | tradeExecuted | priceAlert | cmsProvisioned
  deriving DecidableEq, Repr

inductive NotificationStatus where
  | pending | sent | failed | retrying | dead
  deriving DecidableEq, Repr

/-- A value of a template's context. One that is `undefined` is left out. -/
inductive Value where
  | text (value : String)
  | number (value : ℚ)
  deriving DecidableEq, Repr

abbrev TemplateContext := List (String × Value)

structure Notification where
  userId : String
  email : String
  type : NotificationType
  payload : TemplateContext
  idempotencyKey : String
  status : NotificationStatus
  attempts : ℕ
  errorMessage : Option String
  sentAt : Option Time
  deriving DecidableEq, Repr

/-- The `required` validators of the schema, which reject empty strings. -/
def Notification.Valid (doc : Notification) : Prop := doc.userId ≠ "" ∧ doc.email ≠ ""

instance (doc : Notification) : Decidable doc.Valid := inferInstanceAs (Decidable (_ ∧ _))

inductive NotificationUpdate where
  | sent
  | failed (errorMessage : String)
  | retrying (attempts : ℕ)
  | dead (errorMessage : String)
  deriving DecidableEq, Repr

def NotificationUpdate.status : NotificationUpdate → NotificationStatus
  | .sent => .sent
  | .failed _ => .failed
  | .retrying _ => .retrying
  | .dead _ => .dead

def NotificationUpdate.apply (now : Time) (doc : Notification) :
    NotificationUpdate → Notification
  | .sent => { doc with status := .sent, sentAt := some now }
  | .failed errorMessage => { doc with status := .failed, errorMessage := some errorMessage }
  | .retrying attempts => { doc with status := .retrying, attempts }
  | .dead errorMessage => { doc with status := .dead, errorMessage := some errorMessage }

structure Mail where
  recipient : String
  subject : String
  html : String
  deriving DecidableEq, Repr

/-- The log, the processed keys, the clock, and the mails handed over. -/
structure Store where
  notifications : List Notification
  processed : String → Bool
  now : Time
  mails : List Mail

def Store.empty : Store := ⟨[], fun _ => false, 0, []⟩

def Store.HasKey (s : Store) (key : String) : Prop :=
  ∃ doc ∈ s.notifications, doc.idempotencyKey = key

instance (s : Store) (key : String) : Decidable (s.HasKey key) :=
  inferInstanceAs (Decidable (∃ doc ∈ s.notifications, _))

inductive NotificationOp where
  | getProcessed (key : String)
  /-- `redis.set(key, '1', { EX: ttl })` -/
  | setProcessed (key : String)
  /-- `notification.save()` of a new document -/
  | create (doc : Notification)
  /-- `notificationModel.findByIdAndUpdate(id, set)` -/
  | update (logId : ℕ) (set : NotificationUpdate)
  /-- `transporter.sendMail(mail)` -/
  | sendMail (mail : Mail)
  deriving DecidableEq, Repr

/-- What `save` comes to: the id, or what Mongoose or MongoDB throws. -/
inductive Saved where
  | created (logId : ℕ)
  | invalid
  | duplicate
  deriving DecidableEq, Repr

abbrev NotificationOp.Reply : NotificationOp → Type
  | .getProcessed _ => Bool
  | .setProcessed _ => Unit
  | .create _ => Saved
  | .update _ _ => Unit
  | .sendMail _ => Unit

def exec : (op : NotificationOp) → Store → op.Reply × Store
  | .getProcessed key, s => (s.processed key, s)
  | .setProcessed key, s => ((), { s with processed := Function.update s.processed key true })
  | .create doc, s =>
      if ¬doc.Valid then (.invalid, s)
      else if s.HasKey doc.idempotencyKey then (.duplicate, s)
      else (.created s.notifications.length, { s with notifications := s.notifications ++ [doc] })
  | .update logId set, s =>
      ((), { s with notifications := s.notifications.modify logId fun doc => set.apply s.now doc })
  | .sendMail mail, s => ((), { s with mails := s.mails ++ [mail] })

inductive Environment where
  | expire (key : String)
  | tick (ms : Time)
  deriving DecidableEq, Repr

def backend : Backend NotificationOp NotificationOp.Reply Store Environment where
  exec := exec
  env
    | .expire key, s => { s with processed := Function.update s.processed key false }
    | .tick ms, s => { s with now := s.now + ms }

abbrev Call (α : Type) := Prog NotificationOp NotificationOp.Reply Exception α

abbrev query (op : NotificationOp) : Call op.Reply := Prog.send op

namespace IdempotencyService

def isDuplicate (key : String) : Call Bool := query (.getProcessed key)

def markProcessed (key : String) : Call Unit := query (.setProcessed key)

end IdempotencyService

namespace NotificationLogService

def createPending (userId email : String) (type : NotificationType) (payload : TemplateContext)
    (idempotencyKey : String) : Call ℕ := do
  match ← query (.create
    { userId, email, type, payload, idempotencyKey
      status := .pending
      attempts := 0
      errorMessage := none
      sentAt := none }) with
  | .created logId => pure logId
  | .invalid => raise (.driver "Notification validation failed")
  | .duplicate => raise (.driver "E11000 duplicate key error")

def markSent (logId : ℕ) : Call Unit := query (.update logId .sent)

def markFailed (logId : ℕ) (errorMessage : String) : Call Unit :=
  query (.update logId (.failed errorMessage))

def markRetrying (logId attempts : ℕ) : Call Unit := query (.update logId (.retrying attempts))

def markDead (logId : ℕ) (errorMessage : String) : Call Unit :=
  query (.update logId (.dead errorMessage))

end NotificationLogService

def EmailService.sendEmail (recipient subject html : String) : Call Unit :=
  query (.sendMail { recipient, subject, html })

namespace RetryService
variable {Op : Type} {Reply : Op → Type} {α : Type}

/-- The loop with `left` attempts to go after `attempt` of them. -/
def attempts (operation : Prog Op Reply Exception α)
    (onRetry : ℕ → Prog Op Reply Exception Unit) (onDead : String → Prog Op Reply Exception Unit) :
    (left attempt : ℕ) → Prog Op Reply Exception (Option α)
  | 0, _ => pure none
  | left + 1, attempt =>
      operation.handle fun
        | .ok result => pure (some result)
        | .error e =>
            if left = 0 then do
              onDead e.message
              pure none
            else do
              onRetry (attempt + 1)
              attempts operation onRetry onDead left (attempt + 1)

def executeWithRetry (operation : Prog Op Reply Exception α) (maxAttempts : ℕ)
    (onRetry : ℕ → Prog Op Reply Exception Unit)
    (onDead : String → Prog Op Reply Exception Unit) : Prog Op Reply Exception (Option α) :=
  attempts operation onRetry onDead maxAttempts 0

end RetryService

structure ProcessOptions where
  userId : String
  email : String
  type : NotificationType
  subject : String
  templateName : String
  templateContext : TemplateContext
  idempotencyKey : String
  deriving DecidableEq, Repr

/-- How often a mail is tried, and what Handlebars makes of a template. -/
structure Setting where
  maxAttempts : ℕ
  render : String → TemplateContext → Except Exception String

namespace ProcessorService

/-- One attempt: the mail, and the two notes that it was sent. -/
def attempt (options : ProcessOptions) (logId : ℕ) (html : String) : Call Unit := do
  EmailService.sendEmail options.email options.subject html
  NotificationLogService.markSent logId
  IdempotencyService.markProcessed options.idempotencyKey

def deliver (setting : Setting) (options : ProcessOptions) (logId : ℕ) : Call Unit :=
  match setting.render options.templateName options.templateContext with
  | .error e => NotificationLogService.markFailed logId e.message
  | .ok html => do
      let _ ← RetryService.executeWithRetry (attempt options logId html) setting.maxAttempts
        (fun attempt => NotificationLogService.markRetrying logId attempt)
        (fun errorMessage => NotificationLogService.markDead logId errorMessage)
      pure ()

/-- Every error of `createPending` counts as a duplicate. -/
def process (setting : Setting) (options : ProcessOptions) : Call Unit := do
  let isDuplicate ← IdempotencyService.isDuplicate options.idempotencyKey
  if isDuplicate then
    pure ()
  else
    (NotificationLogService.createPending options.userId options.email options.type
      options.templateContext options.idempotencyKey).handle fun
      | .error _ => pure ()
      | .ok logId => deliver setting options logId

end ProcessorService

/-- A state of the running service: one `process` call for each number. -/
abbrev State := Config ℕ NotificationOp NotificationOp.Reply Store Exception Unit

def State.start (setting : Setting) (store : Store) (calls : ℕ → ProcessOptions) : State :=
  Config.start store fun i => ProcessorService.process setting (calls i)

abbrev Schedule := List (Choice ℕ Environment Exception)

end StockMarket.Notifications
