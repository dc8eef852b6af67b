import StockMarket.Members.Service

/-! # The auth service's documents and the operations on them

Users, one-time passwords, and the messages sent to Kafka. Ids are places in
their collections: nothing is ever deleted.
-/

namespace StockMarket.Auth
open Interleaving
open Members (MemberRegisteredEvent)

abbrev Time := Wallet.Time

inductive UserStatus where
  | pendingVerification | active | suspended
  deriving DecidableEq, Repr

inductive OtpPurpose where
  | emailVerification | passwordReset
  deriving DecidableEq, Repr

/-- What a hash field holds: a plain text, or what `bcrypt.hash` has made of the
first 72 bytes of a text with a salt of its own. -/
inductive Hash where
  | text (content : String)
  | bcrypt (salt : ℕ) (bytes : List UInt8)
  deriving DecidableEq

structure User where
  email : String
  nationalId : String
  fullName : String
  dateOfBirth : CalendarDate
  passwordHash : Hash
  status : UserStatus
  emailVerified : Bool
  suspensionReason : Option String
  refreshTokenHash : Option Hash
  walletBalance : ℚ
  kycStatus : String
  deriving DecidableEq

/-- The paths a `save` has found modified. -/
structure UserUpdate where
  passwordHash : Hash
  emailVerified : Option Bool
  status : Option UserStatus
  deriving DecidableEq

def UserUpdate.apply (set : UserUpdate) (user : User) : User :=
  { user with
    passwordHash := set.passwordHash
    emailVerified := set.emailVerified.getD user.emailVerified
    status := set.status.getD user.status }

/-- `{ refreshTokenHash }`. -/
def User.setRefreshToken (hash : Hash) (user : User) : User :=
  { user with refreshTokenHash := some hash }

/-- `$unset: { refreshTokenHash: 1 }`. -/
def User.unsetRefreshToken (user : User) : User := { user with refreshTokenHash := none }

structure OtpVerification where
  userId : ℕ
  code : String
  purpose : OtpPurpose
  used : Bool
  expiresAt : Time
  createdAt : Time
  deriving DecidableEq, Repr

structure OtpEvent where
  userId : ℕ
  email : String
  name : String
  otp : String
  expiresInMinutes : ℕ
  deriving DecidableEq, Repr

structure Store where
  users : List User
  otps : List OtpVerification
  now : Time
  otpOutbox : List OtpEvent
  memberOutbox : List MemberRegisteredEvent

/-- A document with its id, from a list whose places are the ids. -/
def withIds {α : Type} (docs : List α) : List (ℕ × α) := docs.zipIdx.map Prod.swap

def findOne {α : Type} (docs : List α) (p : α → Bool) : Option (ℕ × α) :=
  (withIds docs).find? fun doc => p doc.2

/-- `sort({ createdAt: -1 })` and `findOne`: some document that none is newer
than. Which one it is among equals is MongoDB's choice. -/
structure NewestFirst where
  pick : List (ℕ × OtpVerification) → Option (ℕ × OtpVerification)
  mem : ∀ docs doc, pick docs = some doc → doc ∈ docs
  newest : ∀ docs doc, pick docs = some doc → ∀ other ∈ docs, other.2.createdAt ≤ doc.2.createdAt
  exhaustive : ∀ docs, pick docs = none → docs = []

def Store.otpsFor (s : Store) (userId : ℕ) (purpose : OtpPurpose) : List (ℕ × OtpVerification) :=
  (withIds s.otps).filter fun doc => doc.2.userId = userId ∧ doc.2.purpose = purpose

/-- A unique index refuses the user. -/
def Store.Refuses (s : Store) (doc : User) : Prop :=
  ∃ user ∈ s.users, user.email = doc.email ∨ user.nationalId = doc.nationalId

instance (s : Store) (doc : User) : Decidable (s.Refuses doc) :=
  inferInstanceAs (Decidable (∃ user ∈ s.users, _))

inductive AuthOp where
  | dateNow
  | findUser (email : String)
  | findUserById (userId : ℕ)
  /-- `userModel.findOne({ $or: [{ email }, { nationalId }] })` -/
  | findUserOr (email nationalId : String)
  | createUser (doc : User)
  | saveUser (userId : ℕ) (set : UserUpdate)
  /-- `userModel.findByIdAndUpdate(id, { refreshTokenHash })` -/
  | setRefreshToken (userId : ℕ) (refreshTokenHash : Hash)
  /-- `userModel.findByIdAndUpdate(id, { $unset: { refreshTokenHash: 1 } })` -/
  | unsetRefreshToken (userId : ℕ)
  /-- `otpModel.updateMany({ userId, purpose, used: false }, { $set: { used: true } })` -/
  | invalidateOtps (userId : ℕ) (purpose : OtpPurpose)
  | createOtp (userId : ℕ) (code : String) (purpose : OtpPurpose) (expiresAt : Time)
  /-- `otpModel.findOne({ userId, purpose }).sort({ createdAt: -1 })` -/
  | findNewestOtp (userId : ℕ) (purpose : OtpPurpose) (call : ℕ)
  /-- `otp.save()` after `otp.used = true` -/
  | saveOtpUsed (otpId : ℕ)
  /-- `otpModel.findOne({ userId, purpose, used: true, code, createdAt: { $gte } })` -/
  | findUsedOtp (userId : ℕ) (purpose : OtpPurpose) (code : String) (since : Time)
  | emitOtp (event : OtpEvent)
  | emitMemberRegistered (event : MemberRegisteredEvent)
  deriving DecidableEq

/-- What each operation answers. `createUser` answers nothing when a unique
index refuses the document. -/
abbrev AuthOp.Reply : AuthOp → Type
  | .dateNow => Time
  | .findUser _ => Option (ℕ × User)
  | .findUserById _ => Option User
  | .findUserOr _ _ => Option (ℕ × User)
  | .createUser _ => Option ℕ
  | .saveUser _ _ => Unit
  | .setRefreshToken _ _ => Unit
  | .unsetRefreshToken _ => Unit
  | .invalidateOtps _ _ => Unit
  | .createOtp _ _ _ _ => Unit
  | .findNewestOtp _ _ _ => Option (ℕ × OtpVerification)
  | .saveOtpUsed _ => Unit
  | .findUsedOtp _ _ _ _ => Option (ℕ × OtpVerification)
  | .emitOtp _ => Unit
  | .emitMemberRegistered _ => Unit

def OtpVerification.markUsed (otp : OtpVerification) : OtpVerification := { otp with used := true }

/-- Each operation is one atomic step. `newest` is what the sorted query finds in
each call. -/
def exec (newest : ℕ → NewestFirst) : (op : AuthOp) → Store → op.Reply × Store
  | .dateNow, s => (s.now, s)
  | .findUser email, s => (findOne s.users fun user => user.email = email, s)
  | .findUserById userId, s => (s.users[userId]?, s)
  | .findUserOr email nationalId, s =>
      (findOne s.users fun user => user.email = email ∨ user.nationalId = nationalId, s)
  | .createUser doc, s =>
      if s.Refuses doc then (none, s)
      else (some s.users.length, { s with users := s.users ++ [doc] })
  | .saveUser userId set, s => ((), { s with users := s.users.modify userId set.apply })
  | .setRefreshToken userId hash, s =>
      ((), { s with users := s.users.modify userId (User.setRefreshToken hash) })
  | .unsetRefreshToken userId, s =>
      ((), { s with users := s.users.modify userId User.unsetRefreshToken })
  | .invalidateOtps userId purpose, s =>
      ((), { s with otps := s.otps.map fun otp =>
        if otp.userId = userId ∧ otp.purpose = purpose ∧ ¬otp.used then otp.markUsed else otp })
  | .createOtp userId code purpose expiresAt, s =>
      ((), { s with otps := s.otps ++
        [{ userId, code, purpose, used := false, expiresAt, createdAt := s.now }] })
  | .findNewestOtp userId purpose call, s => ((newest call).pick (s.otpsFor userId purpose), s)
  | .saveOtpUsed otpId, s => ((), { s with otps := s.otps.modify otpId OtpVerification.markUsed })
  | .findUsedOtp userId purpose code since, s =>
      (findOne s.otps fun otp => otp.userId = userId ∧ otp.purpose = purpose ∧ otp.used ∧
        otp.code = code ∧ since ≤ otp.createdAt, s)
  | .emitOtp event, s => ((), { s with otpOutbox := s.otpOutbox ++ [event] })
  | .emitMemberRegistered event, s => ((), { s with memberOutbox := s.memberOutbox ++ [event] })

abbrev Call (α : Type) := Prog AuthOp AuthOp.Reply Exception α

abbrev query (op : AuthOp) : Call op.Reply := Prog.send op

end StockMarket.Auth
