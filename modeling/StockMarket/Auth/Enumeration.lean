import StockMarket.Auth.Rotation

/-! # What a stranger learns about an email

Login, `resendOtp` and `forgotPassword` are open to everybody. Their answers to
someone who does not know the password are compared over two states of the
account behind an email.
-/

namespace StockMarket.Auth
open Interleaving Prog

/-- An account as the three requests tell accounts apart. -/
inductive Account where
  | absent
  | unverified
  | suspended (reason : String)
  | verified
  deriving DecidableEq, Repr

def User.account (user : User) : Account :=
  if ¬user.emailVerified then .unverified
  else if user.status = .suspended then .suspended (user.suspensionReason.getD "")
  else .verified

def Store.account (s : Store) (email : String) : Account :=
  match s.userOf email with
  | none => .absent
  | some (_, user) => user.account

namespace Account

/-- Login lets a stranger see that an account is not verified, or suspended and why. -/
def signIn : Account → Account
  | .absent => .verified
  | account => account

/-- `resendOtp` lets a stranger see whether there is an account and whether it is verified. -/
def resend : Account → Account
  | .suspended _ => .verified
  | account => account

end Account

/-- Nobody has this password for the email. -/
def Store.Stranger (s : Store) (email password : String) : Prop :=
  ∀ user ∈ s.userOf email, ¬comparePassword password user.2.passwordHash

instance (s : Store) (email password : String) : Decidable (s.Stranger email password) :=
  inferInstanceAs (Decidable (∀ user ∈ s.userOf email, _))

section Answers
variable (tokenHash : TokenHash) (setting : SessionSetting) (n : ℕ) (s : Store) (email : String)

def loginAnswer (password : String) : Except Exception (TokenPair × MemberProfile) :=
  ((AuthService.login tokenHash setting n email password).run (exec setting.newest) answered s).1

def answer (request : Request) : Except Exception String :=
  ((request.serve setting.toSetting n).run (exec setting.newest) answered s).1

def Account.loginMessage : Account → String
  | .absent => "Invalid email or password"
  | .unverified => "Email not verified. Please complete registration."
  | .suspended reason => AuthService.suspendedMessage (some reason)
  | .verified => "Invalid email or password"

/-- A stranger's login is refused with the message of the account. -/
theorem loginAnswer_stranger {password : String} (h : s.Stranger email password) :
    loginAnswer tokenHash setting n s email password =
      .error (.unauthorized (s.account email).loginMessage) := by
  rw [loginAnswer, AuthService.login, run_send_bind_done _ _ _ _ rfl]
  have hfind : exec setting.newest (.findUser email) s = (s.userOf email, s) := rfl
  rw [hfind, Store.account]
  rcases huser : s.userOf email with _ | ⟨userId, user⟩
  · rfl
  · have hpassword : ¬comparePassword password user.passwordHash := h (userId, user) huser
    dsimp only
    rw [User.account]
    by_cases hverified : user.emailVerified
    · by_cases hsuspended : user.status = .suspended
      · rw [if_neg (not_not.mpr hverified), if_pos hsuspended, if_neg (not_not.mpr hverified),
          if_pos hsuspended]
        rfl
      · rw [if_neg (not_not.mpr hverified), if_neg hsuspended, if_pos hpassword,
          if_neg (not_not.mpr hverified), if_neg hsuspended]
        rfl
    · rw [if_pos hverified, if_pos hverified]
      rfl

def Account.resendAnswer : Account → Except Exception String
  | .absent => .ok "If that email is registered, a new OTP has been sent."
  | .unverified => .ok "A new OTP has been sent."
  | .suspended _ => .error (.badRequest "Email is already verified")
  | .verified => .error (.badRequest "Email is already verified")

theorem answer_resendOtp :
    answer setting n s (.resendOtp email) = (s.account email).resendAnswer := by
  have hfind : exec setting.newest (.findUser email) s = (s.userOf email, s) := rfl
  rw [answer, Request.serve, AuthService.resendOtp, run_send_bind_done _ _ _ _ rfl, hfind,
    Store.account]
  rcases huser : s.userOf email with _ | ⟨userId, user⟩
  · rfl
  · dsimp only
    rw [User.account]
    by_cases hverified : user.emailVerified
    · rw [if_pos hverified, if_neg (not_not.mpr hverified)]
      by_cases hsuspended : user.status = .suspended
      · rw [if_pos hsuspended]
        rfl
      · rw [if_neg hsuspended]
        rfl
    · rw [if_neg hverified, if_pos hverified]
      rfl

theorem answer_forgotPassword :
    answer setting n s (.forgotPassword email) =
      .ok "If that email is registered, a reset OTP has been sent." := by
  have hfind : exec setting.newest (.findUser email) s = (s.userOf email, s) := rfl
  rw [answer, Request.serve, AuthService.forgotPassword, run_send_bind_done _ _ _ _ rfl, hfind]
  rcases huser : s.userOf email with _ | ⟨userId, user⟩
  · rfl
  · rfl

end Answers

section Messages

/-- After the words all messages begin with, an empty reason adds nothing, and any other
a colon and itself. -/
theorem suspendedMessage_eq (reason : String) :
    (AuthService.suspendedMessage (some reason)).toList =
      "Account suspended".toList ++ if reason = "" then [] else ": ".toList ++ reason.toList := by
  rw [AuthService.suspendedMessage, Option.getD_some]
  by_cases h : reason = ""
  · rw [if_pos h, if_pos h, List.append_nil]
  · rw [if_neg h, if_neg h, String.toList_append]
    rfl

theorem suspendedMessage_inj {a b : String}
    (h : AuthService.suspendedMessage (some a) = AuthService.suspendedMessage (some b)) :
    a = b := by
  have hlist := congrArg String.toList h
  rw [suspendedMessage_eq, suspendedMessage_eq] at hlist
  have htail := List.append_cancel_left hlist
  by_cases ha : a = ""
  · by_cases hb : b = ""
    · rw [ha, hb]
    · simp [if_pos ha, if_neg hb] at htail
  · by_cases hb : b = ""
    · simp [if_neg ha, if_pos hb] at htail
    · rw [if_neg ha, if_neg hb] at htail
      exact String.toList_inj.mp (List.append_cancel_left htail)

/-- No message about a suspension begins like another refusal. -/
theorem suspendedMessage_ne {reason message : String} (h : message.toList.head? ≠ some 'A') :
    AuthService.suspendedMessage (some reason) ≠ message := by
  rintro rfl
  rw [suspendedMessage_eq] at h
  exact h rfl

/-- The messages to two accounts are the same where login does not tell them apart. -/
theorem loginMessage_eq_iff (a b : Account) :
    a.loginMessage = b.loginMessage ↔ a.signIn = b.signIn := by
  cases a <;> cases b <;>
    simp only [Account.loginMessage, Account.signIn, reduceCtorEq, Account.suspended.injEq,
      String.reduceEq, iff_false]
  case suspended.suspended reason reason' =>
    exact ⟨suspendedMessage_inj, congrArg fun reason => AuthService.suspendedMessage (some reason)⟩
  case suspended.absent => exact suspendedMessage_ne (by decide)
  case suspended.unverified => exact suspendedMessage_ne (by decide)
  case suspended.verified => exact suspendedMessage_ne (by decide)
  case absent.suspended => exact (suspendedMessage_ne (by decide)).symm
  case unverified.suspended => exact (suspendedMessage_ne (by decide)).symm
  case verified.suspended => exact (suspendedMessage_ne (by decide)).symm

theorem resendAnswer_eq_iff (a b : Account) :
    a.resendAnswer = b.resendAnswer ↔ a.resend = b.resend := by
  cases a <;> cases b <;> simp [Account.resendAnswer, Account.resend]

end Messages

/-- What a stranger's requests tell about an account: login whether it is unverified, or
suspended and why; `resendOtp` whether it exists, and whether it is verified;
`forgotPassword` nothing. -/
theorem answers_alike_iff (tokenHash : TokenHash) (setting : SessionSetting) (n : ℕ)
    (email password : String) (s s' : Store) (h : s.Stranger email password)
    (h' : s'.Stranger email password) :
    (loginAnswer tokenHash setting n s email password =
        loginAnswer tokenHash setting n s' email password ↔
      (s.account email).signIn = (s'.account email).signIn) ∧
    (answer setting n s (.resendOtp email) = answer setting n s' (.resendOtp email) ↔
      (s.account email).resend = (s'.account email).resend) ∧
    answer setting n s (.forgotPassword email) = answer setting n s' (.forgotPassword email) := by
  refine ⟨?_, ?_, ?_⟩
  · rw [loginAnswer_stranger tokenHash setting n s email h,
      loginAnswer_stranger tokenHash setting n s' email h', ← loginMessage_eq_iff]
    simp
  · rw [answer_resendOtp, answer_resendOtp, resendAnswer_eq_iff]
  · rw [answer_forgotPassword, answer_forgotPassword]

section Example

/-- The account of `activeMember` before its password is set. -/
def unverifiedMember : User :=
  { activeMember with
    passwordHash := .text "PENDING"
    status := .pendingVerification
    emailVerified := false }

/-- The account of `activeMember` after an administrator has suspended it. -/
def suspendedMember : User :=
  { activeMember with status := .suspended, suspensionReason := some "Fraud review" }

/-- The answers to a login with a guessed password, and to `resendOtp`, where the email's
account is the only one. -/
def strangersAnswers (users : List User) :
    Except Exception (TokenPair × MemberProfile) × Except Exception String :=
  let s := noSessions users 1709164800000
  (loginAnswer .bcrypt sampleSessions 0 s "one@example.com" "guessed!1",
    answer sampleSessions 0 s (.resendOtp "one@example.com"))

/-- A stranger sees whether the email is registered, and in what status. -/
theorem answers_differ :
    (strangersAnswers []).1 ≠ (strangersAnswers [unverifiedMember]).1 ∧
    (strangersAnswers []).1 ≠ (strangersAnswers [suspendedMember]).1 ∧
    (strangersAnswers []).2 ≠ (strangersAnswers [unverifiedMember]).2 ∧
    (strangersAnswers []).2 ≠ (strangersAnswers [activeMember]).2 := by
  decide +kernel

/-- Login does not tell a verified account from none. -/
theorem answers_alike_iff_verified :
    (loginAnswer .bcrypt sampleSessions 0 (noSessions [] 1709164800000) "one@example.com"
        "guessed!1" =
      loginAnswer .bcrypt sampleSessions 0 (noSessions [activeMember] 1709164800000)
        "one@example.com" "guessed!1") ∧
    answer sampleSessions 0 (noSessions [] 1709164800000) (.forgotPassword "one@example.com") =
      answer sampleSessions 0 (noSessions [activeMember] 1709164800000)
        (.forgotPassword "one@example.com") := by
  have h := answers_alike_iff .bcrypt sampleSessions 0 "one@example.com" "guessed!1"
    (noSessions [] 1709164800000) (noSessions [activeMember] 1709164800000) (by decide +kernel)
    (by decide +kernel)
  exact ⟨h.1.mpr (by decide +kernel), h.2.2⟩

end Example

end StockMarket.Auth
