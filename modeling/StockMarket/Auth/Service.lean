import StockMarket.Auth.Store

/-! # Registration and password reset

`OtpService` and the functions of `AuthService` that work with one-time
passwords. Every call is given a number of its own, for the salts it hashes
with and for its sorted query, and the random bytes it draws.
-/

namespace StockMarket.Auth
open Interleaving Prog

/-- How many bytes of its input `bcrypt` looks at. -/
def bcryptBytes : ℕ := 72

def hashPassword (salt : ℕ) (password : String) : Hash :=
  .bcrypt salt (password.toUTF8.toList.take bcryptBytes)

def generateOtp (randomBytes : List (Fin 256)) : String :=
  String.ofList (randomBytes.map fun b => Nat.digitChar (b.val % 10))

def addMinutes (date : Time) (minutes : ℕ) : Time := date + minutes * 60000

def calculateAge (dateOfBirth today : CalendarDate) : ℤ :=
  let age := today.year - dateOfBirth.year
  let monthDiff := today.month - dateOfBirth.month
  if monthDiff < 0 ∨ (monthDiff = 0 ∧ today.day < dateOfBirth.day) then age - 1 else age

def MIN_MEMBER_AGE : ℤ := 18

namespace OtpService

def createAndSend (expiresMinutes : ℕ) (randomBytes : List (Fin 256)) (userId : ℕ) (user : User)
    (purpose : OtpPurpose) : Call Unit := do
  query (.invalidateOtps userId purpose)
  let code := generateOtp randomBytes
  let now ← query .dateNow
  let expiresAt := addMinutes now expiresMinutes
  query (.createOtp userId code purpose expiresAt)
  query (.emitOtp
    { userId, email := user.email, name := user.fullName, otp := code,
      expiresInMinutes := expiresMinutes })

def validate (call : ℕ) (userId : ℕ) (code : String) (purpose : OtpPurpose) :
    Call OtpVerification := do
  match ← query (.findNewestOtp userId purpose call) with
  | none => raise (.badRequest "No pending OTP found. Request a new one.")
  | some (otpId, otp) =>
      if otp.used then
        raise (.badRequest "OTP has already been used. Request a new one.")
      else do
        let now ← query .dateNow
        if otp.expiresAt < now then
          raise (.badRequest "OTP has expired. Please request a new one.")
        else if otp.code ≠ code then
          raise (.badRequest "Incorrect OTP code.")
        else do
          query (.saveOtpUsed otpId)
          pure otp.markUsed

def graceWindow : Time := 15 * 60 * 1000

def wasVerified (userId : ℕ) (code : String) (purpose : OtpPurpose) : Call Bool := do
  let now ← query .dateNow
  let otp ← query (.findUsedOtp userId purpose code (now - graceWindow))
  pure otp.isSome

end OtpService

structure RegisterDto where
  fullName : String
  email : String
  nationalId : String
  dateOfBirth : CalendarDate
  deriving DecidableEq, Repr

def RegisterDto.user (dto : RegisterDto) : User where
  email := dto.email
  nationalId := dto.nationalId
  fullName := dto.fullName
  dateOfBirth := dto.dateOfBirth
  passwordHash := .text "PENDING"
  status := .pendingVerification
  emailVerified := false
  suspensionReason := none
  refreshTokenHash := none
  walletBalance := 0
  kycStatus := "none"

namespace AuthService

def register (expiresMinutes : ℕ) (randomBytes : List (Fin 256)) (dto : RegisterDto) :
    Call String := do
  let existing ← query (.findUserOr dto.email dto.nationalId)
  if existing.any fun doc => doc.2.email = dto.email then
    raise (.conflict "An account with this email already exists")
  else if existing.any fun doc => doc.2.nationalId = dto.nationalId then
    raise (.conflict "An account with this national ID already exists")
  else do
    let now ← query .dateNow
    if calculateAge dto.dateOfBirth (.ofTime now) < MIN_MEMBER_AGE then
      raise (.badRequest s!"You must be at least {MIN_MEMBER_AGE} years old to register")
    else do
      match ← query (.createUser dto.user) with
      | none => raise (.driver "E11000 duplicate key error")
      | some userId => do
          OtpService.createAndSend expiresMinutes randomBytes userId dto.user .emailVerification
          pure "Registration successful. Check your console (dev) for the OTP."

def findUserByEmailOrFail (email : String) : Call (ℕ × User) := do
  match ← query (.findUser email) with
  | none => raise (.notFound "User not found")
  | some user => pure user

def verifyOtp (call : ℕ) (email code : String) : Call String := do
  let user ← findUserByEmailOrFail email
  let _ ← OtpService.validate call user.1 code .emailVerification
  pure "OTP verified. Proceed to set your password."

def resendOtp (expiresMinutes : ℕ) (randomBytes : List (Fin 256)) (email : String) :
    Call String := do
  match ← query (.findUser email) with
  | none => pure "If that email is registered, a new OTP has been sent."
  | some (userId, user) =>
      if user.emailVerified then
        raise (.badRequest "Email is already verified")
      else do
        OtpService.createAndSend expiresMinutes randomBytes userId user .emailVerification
        pure "A new OTP has been sent."

def memberRegistered (userId : ℕ) (user : User) : Members.MemberRegisteredEvent where
  userId := toString userId
  fullName := user.fullName
  email := user.email
  nationalId := user.nationalId
  dateOfBirth := user.dateOfBirth

def activation (user : User) (passwordHash : Hash) : UserUpdate where
  passwordHash := passwordHash
  emailVerified := if user.emailVerified then none else some true
  status := if user.status = .active then none else some .active

def setPassword (call : ℕ) (email code password : String) : Call String := do
  let (userId, user) ← findUserByEmailOrFail email
  let verified ← OtpService.wasVerified userId code .emailVerification
  if ¬verified then
    raise (.badRequest "OTP not verified or session expired. Please re-verify.")
  else do
    query (.saveUser userId (activation user (hashPassword call password)))
    catching (query (.emitMemberRegistered (memberRegistered userId user))) fun _ => pure ()
    pure "Password set successfully. You can now log in."

def forgotPassword (expiresMinutes : ℕ) (randomBytes : List (Fin 256)) (email : String) :
    Call String := do
  match ← query (.findUser email) with
  | none => pure "If that email is registered, a reset OTP has been sent."
  | some (userId, user) => do
      OtpService.createAndSend expiresMinutes randomBytes userId user .passwordReset
      pure "If that email is registered, a reset OTP has been sent."

def resetPassword (call : ℕ) (email code newPassword : String) : Call String := do
  let user ← findUserByEmailOrFail email
  let _ ← OtpService.validate call user.1 code .passwordReset
  query (.saveUser user.1 ⟨hashPassword call newPassword, none, none⟩)
  query (.unsetRefreshToken user.1)
  pure "Password reset successfully. Please log in."

end AuthService

inductive Request where
  | register (dto : RegisterDto)
  | verifyOtp (email code : String)
  | resendOtp (email : String)
  | setPassword (email code password : String)
  | forgotPassword (email : String)
  | resetPassword (email code newPassword : String)
  deriving DecidableEq, Repr

/-- What the service is configured with and what chance gives each call. -/
structure Setting where
  expiresMinutes : ℕ
  randomBytes : ℕ → List (Fin 256)
  newest : ℕ → NewestFirst

def Request.serve (setting : Setting) (call : ℕ) : Request → Call String
  | .register dto => AuthService.register setting.expiresMinutes (setting.randomBytes call) dto
  | .verifyOtp email code => AuthService.verifyOtp call email code
  | .resendOtp email =>
      AuthService.resendOtp setting.expiresMinutes (setting.randomBytes call) email
  | .setPassword email code password => AuthService.setPassword call email code password
  | .forgotPassword email =>
      AuthService.forgotPassword setting.expiresMinutes (setting.randomBytes call) email
  | .resetPassword email code newPassword =>
      AuthService.resetPassword call email code newPassword

end StockMarket.Auth
