import StockMarket.Auth.Sequential
import StockMarket.Auth.Token

/-! # Login, refresh and logout

A user has one session at most: a hash of the refresh token issued last. Whoever
presents a refresh token gets a new pair, and the hash of the new refresh token
replaces the old one.
-/

namespace StockMarket.Auth
open Interleaving Prog

/-- How refresh tokens are hashed, with a salt, and compared. -/
structure TokenHash where
  hash : ℕ → String → Hash
  compare : String → Hash → Bool

/-- `bcrypt.hash` and `bcrypt.compare`. -/
def TokenHash.bcrypt : TokenHash := ⟨hashPassword, comparePassword⟩

def TokenHash.fingerprint : TokenHash :=
  ⟨fun _ token => .text token, fun token hash => hash = .text token⟩

structure SessionSetting extends Setting where
  accessExpiresIn : ℕ
  signing : Signing

structure TokenPair where
  accessToken : Token
  refreshToken : Token
  deriving DecidableEq, Repr

structure MemberProfile where
  id : ℕ
  fullName : String
  email : String
  walletBalance : ℚ
  status : UserStatus
  kycStatus : String
  deriving DecidableEq, Repr

def User.profile (user : User) (userId : ℕ) : MemberProfile where
  id := userId
  fullName := user.fullName
  email := user.email
  walletBalance := user.walletBalance
  status := user.status
  kycStatus := user.kycStatus

namespace TokenService

def refreshExpiresIn : ℕ := 7 * 24 * 60 * 60

/-- `jwtService.sign`: the token expires that many seconds from now. -/
def sign (expiresIn userId : ℕ) (user : User) : Call Token := do
  let now ← query .dateNow
  let iat := now / 1000
  pure (.signed { sub := userId, email := user.email, iat, exp := iat + expiresIn })

def issueTokenPair (tokenHash : TokenHash) (setting : SessionSetting) (call userId : ℕ)
    (user : User) : Call TokenPair := do
  let accessToken ← sign setting.accessExpiresIn userId user
  let refreshToken ← sign refreshExpiresIn userId user
  let hash := tokenHash.hash call (refreshToken.text setting.signing)
  query (.setRefreshToken userId hash)
  pure { accessToken, refreshToken }

def verifyRefreshToken (token : Token) : Call JwtPayload := do
  let now ← query .dateNow
  match token.verify now with
  | none => raise (.driver "invalid token")
  | some payload => pure payload

def revokeRefreshToken (userId : ℕ) : Call Unit := query (.unsetRefreshToken userId)

end TokenService

namespace AuthService

def suspendedMessage (suspensionReason : Option String) : String :=
  let reason := suspensionReason.getD ""
  if reason = "" then "Account suspended" else "Account suspended: " ++ reason

def login (tokenHash : TokenHash) (setting : SessionSetting) (call : ℕ)
    (email password : String) : Call (TokenPair × MemberProfile) := do
  match ← query (.findUser email) with
  | none => raise (.unauthorized "Invalid email or password")
  | some (userId, user) =>
      if ¬user.emailVerified then
        raise (.unauthorized "Email not verified. Please complete registration.")
      else if user.status = .suspended then
        raise (.unauthorized (suspendedMessage user.suspensionReason))
      else if ¬comparePassword password user.passwordHash then
        raise (.unauthorized "Invalid email or password")
      else do
        let tokens ← TokenService.issueTokenPair tokenHash setting call userId user
        pure (tokens, user.profile userId)

def sessionNotFound : Exception := .unauthorized "Session not found. Please log in again."

def reuseDetected : Exception := .unauthorized "Refresh token reuse detected. All sessions revoked."

def refresh (tokenHash : TokenHash) (setting : SessionSetting) (call : ℕ)
    (refreshToken : Token) : Call TokenPair := do
  let payload ← catching (TokenService.verifyRefreshToken refreshToken) fun _ =>
    raise (.unauthorized "Invalid or expired refresh token")
  match ← query (.findUserById payload.sub) with
  | none => raise sessionNotFound
  | some user =>
      match user.refreshTokenHash with
      | none => raise sessionNotFound
      | some hash =>
          if ¬tokenHash.compare (refreshToken.text setting.signing) hash then do
            TokenService.revokeRefreshToken payload.sub
            raise reuseDetected
          else if user.status = .suspended then
            raise (.unauthorized "Account suspended")
          else
            TokenService.issueTokenPair tokenHash setting call payload.sub user

def logout (userId : ℕ) : Call String := do
  TokenService.revokeRefreshToken userId
  pure "Logged out successfully"

end AuthService

/-- The requests about sessions. The id of a logout is the subject of an access token. -/
inductive SessionRequest where
  | login (email password : String)
  | refresh (refreshToken : Token)
  | logout (userId : ℕ)
  deriving DecidableEq, Repr

inductive SessionAnswer where
  | loggedIn (tokens : TokenPair) (member : MemberProfile)
  | refreshed (tokens : TokenPair)
  | loggedOut (message : String)
  deriving DecidableEq, Repr

def SessionRequest.serve (tokenHash : TokenHash) (setting : SessionSetting) (call : ℕ) :
    SessionRequest → Call SessionAnswer
  | .login email password => do
      let (tokens, member) ← AuthService.login tokenHash setting call email password
      pure (.loggedIn tokens member)
  | .refresh refreshToken => do
      let tokens ← AuthService.refresh tokenHash setting call refreshToken
      pure (.refreshed tokens)
  | .logout userId => do
      let message ← AuthService.logout userId
      pure (.loggedOut message)

namespace Store

def issued (s : Store) (setting : SessionSetting) (userId : ℕ) (user : User) : TokenPair :=
  let token (expiresIn : ℕ) : Token := .signed
    { sub := userId, email := user.email, iat := s.now / 1000, exp := s.now / 1000 + expiresIn }
  { accessToken := token setting.accessExpiresIn
    refreshToken := token TokenService.refreshExpiresIn }

/-- The hash of the refresh token issued now takes the place of the old one. -/
def openSession (s : Store) (tokenHash : TokenHash) (setting : SessionSetting) (n userId : ℕ)
    (user : User) : Store :=
  let hash := tokenHash.hash n ((s.issued setting userId user).refreshToken.text setting.signing)
  { s with users := s.users.modify userId (User.setRefreshToken hash) }

def closeSession (s : Store) (userId : ℕ) : Store :=
  { s with users := s.users.modify userId User.unsetRefreshToken }

/-- What a refresh looks at: the claims of an unexpired token, its user, and the stored
hash. -/
structure Session (s : Store) (token : Token) (payload : JwtPayload) (user : User) (hash : Hash) :
    Prop where
  verified : token.verify s.now = some payload
  stored : s.users[payload.sub]? = some user
  hash : user.refreshTokenHash = some hash

end Store

/-- How a session request served alone can end. -/
inductive SessionServed (tokenHash : TokenHash) (setting : SessionSetting) (n : ℕ) (s : Store) :
    SessionRequest → Except Exception SessionAnswer × Store → Prop
  | refused (r : SessionRequest) (e : Exception)
      (he : ∀ token, r = .refresh token → e ≠ AuthService.reuseDetected) :
      SessionServed tokenHash setting n s r (.error e, s)
  | loggedIn (email password : String) (userId : ℕ) (user : User)
      (huser : s.userOf email = some (userId, user)) (hverified : user.emailVerified)
      (hactive : user.status ≠ .suspended)
      (hpassword : comparePassword password user.passwordHash) :
      SessionServed tokenHash setting n s (.login email password)
        (.ok (.loggedIn (s.issued setting userId user) (user.profile userId)),
          s.openSession tokenHash setting n userId user)
  | refreshed (token : Token) (payload : JwtPayload) (user : User) (hash : Hash)
      (hsession : s.Session token payload user hash)
      (hmatch : tokenHash.compare (token.text setting.signing) hash)
      (hactive : user.status ≠ .suspended) :
      SessionServed tokenHash setting n s (.refresh token)
        (.ok (.refreshed (s.issued setting payload.sub user)),
          s.openSession tokenHash setting n payload.sub user)
  | reused (token : Token) (payload : JwtPayload) (user : User) (hash : Hash)
      (hsession : s.Session token payload user hash)
      (hmatch : ¬tokenHash.compare (token.text setting.signing) hash) :
      SessionServed tokenHash setting n s (.refresh token)
        (.error AuthService.reuseDetected, s.closeSession payload.sub)
  | loggedOut (userId : ℕ) (message : String) :
      SessionServed tokenHash setting n s (.logout userId)
        (.ok (.loggedOut message), s.closeSession userId)

theorem modify_user {users : List User} {f : User → User} {userId other : ℕ} {user : User}
    (h : (users.modify userId f)[other]? = some user) :
    (other ≠ userId ∧ users[other]? = some user) ∨
      other = userId ∧ ∃ old, users[userId]? = some old ∧ user = f old := by
  by_cases hother : userId = other
  · subst hother
    rw [List.getElem?_modify_eq] at h
    obtain ⟨old, hold, hf⟩ := Option.map_eq_some_iff.mp h
    exact .inr ⟨rfl, old, hold, hf.symm⟩
  · rw [List.getElem?_modify_ne _ _ hother] at h
    exact .inl ⟨Ne.symm hother, h⟩

section Run
variable (tokenHash : TokenHash) (setting : SessionSetting) (n : ℕ) (s : Store)

theorem run_issueTokenPair (userId : ℕ) (user : User) :
    (TokenService.issueTokenPair tokenHash setting n userId user).run (exec setting.newest) answered
        s =
      (.ok (s.issued setting userId user), s.openSession tokenHash setting n userId user) := rfl

theorem served_login (email password : String) :
    SessionServed tokenHash setting n s (.login email password)
      (((SessionRequest.login email password).serve tokenHash setting n).run (exec setting.newest)
        answered s) := by
  have hrefused (e : Exception) : SessionServed tokenHash setting n s (.login email password)
      (.error e, s) := by
    apply SessionServed.refused
    intro token h
    cases h
  rw [SessionRequest.serve, AuthService.login, bind_bind, run_send_bind_done _ _ _ _ rfl]
  have hfind : exec setting.newest (.findUser email) s = (s.userOf email, s) := rfl
  rw [hfind]
  rcases huser : s.userOf email with _ | ⟨userId, user⟩
  · exact hrefused _
  dsimp only
  by_cases hverified : user.emailVerified
  · by_cases hsuspended : user.status = .suspended
    · rw [if_neg (not_not.mpr hverified), if_pos hsuspended]
      exact hrefused _
    · by_cases hpassword : comparePassword password user.passwordHash
      · rw [if_neg (not_not.mpr hverified), if_neg hsuspended, if_neg (not_not.mpr hpassword),
          bind_bind, run_bind, run_issueTokenPair]
        exact .loggedIn email password userId user huser hverified hsuspended hpassword
      · rw [if_neg (not_not.mpr hverified), if_neg hsuspended, if_pos hpassword]
        exact hrefused _
  · rw [if_pos hverified]
    exact hrefused _

theorem run_refresh (token : Token) :
    ((SessionRequest.refresh token).serve tokenHash setting n).run (exec setting.newest) answered
        s =
      match token.verify s.now with
      | none => (.error (.unauthorized "Invalid or expired refresh token"), s)
      | some payload =>
          match s.users[payload.sub]? with
          | none => (.error AuthService.sessionNotFound, s)
          | some user =>
              match user.refreshTokenHash with
              | none => (.error AuthService.sessionNotFound, s)
              | some hash =>
                  if ¬tokenHash.compare (token.text setting.signing) hash then
                    (.error AuthService.reuseDetected, s.closeSession payload.sub)
                  else if user.status = .suspended then
                    (.error (.unauthorized "Account suspended"), s)
                  else
                    (.ok (.refreshed (s.issued setting payload.sub user)),
                      s.openSession tokenHash setting n payload.sub user) := by
  have hnow : exec setting.newest .dateNow s = (s.now, s) := rfl
  rw [SessionRequest.serve, AuthService.refresh, bind_bind, run_catching_bind,
    TokenService.verifyRefreshToken, run_send_bind_done _ _ _ _ rfl, hnow]
  rcases token.verify s.now with _ | payload
  · rfl
  have hfind : exec setting.newest (.findUserById payload.sub) s = (s.users[payload.sub]?, s) := rfl
  simp only [pure_eq, run_ret]
  rw [bind_bind, run_send_bind_done _ _ _ _ rfl, hfind]
  rcases s.users[payload.sub]? with _ | user
  · rfl
  rcases hhash : user.refreshTokenHash with _ | hash
  · simp only [hhash]
    rfl
  simp only [hhash]
  split
  · rfl
  · split
    · rfl
    · rw [run_bind, run_issueTokenPair]
      rfl

theorem served_refresh (token : Token) :
    SessionServed tokenHash setting n s (.refresh token)
      (((SessionRequest.refresh token).serve tokenHash setting n).run (exec setting.newest)
        answered s) := by
  have hrefused (e : Exception) (he : e ≠ AuthService.reuseDetected) :
      SessionServed tokenHash setting n s (.refresh token) (.error e, s) := by
    apply SessionServed.refused
    intro _ _
    exact he
  rw [run_refresh]
  split
  · exact hrefused _ (by decide)
  · rename_i payload hverified
    split
    · exact hrefused _ (by decide)
    · rename_i user hstored
      split
      · exact hrefused _ (by decide)
      · rename_i hash hhash
        have hsession : s.Session token payload user hash := ⟨hverified, hstored, hhash⟩
        split
        · rename_i hmatch
          exact .reused token payload user hash hsession hmatch
        · rename_i hmatch
          split
          · exact hrefused _ (by decide)
          · rename_i hactive
            exact .refreshed token payload user hash hsession (not_not.mp hmatch) hactive

theorem sessionServed (r : SessionRequest) :
    SessionServed tokenHash setting n s r
      ((r.serve tokenHash setting n).run (exec setting.newest) answered s) := by
  cases r with
  | login email password => exact served_login tokenHash setting n s email password
  | refresh token => exact served_refresh tokenHash setting n s token
  | logout userId => exact .loggedOut userId _

end Run

end StockMarket.Auth
