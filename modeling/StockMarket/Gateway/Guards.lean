import StockMarket.Platform

/-! # Who a request is from

The gateway verifies a token once and passes the user on in headers. The services
trust the headers: the CMS routes check the role in them.
-/

namespace StockMarket.Gateway

/-- The claims the gateway reads from a token, whose subject is an id. -/
structure JwtPayload (ι : Type) where
  sub : ι
  email : String
  role : Option String
  type : Option String
  deriving DecidableEq, Repr

structure AuthenticatedUser (ι : Type) where
  userId : ι
  email : String
  role : String
  deriving DecidableEq, Repr

/-- `x-user-id`, `x-user-email` and `x-user-role`. -/
structure UserHeaders (ι : Type) where
  userId : Option ι
  email : Option String
  role : Option String
  deriving DecidableEq, Repr

def UserHeaders.none {ι : Type} : UserHeaders ι := ⟨.none, .none, .none⟩

def AuthenticatedUser.headers {ι : Type} (user : AuthenticatedUser ι) : UserHeaders ι :=
  ⟨some user.userId, some user.email, some user.role⟩

section Guards
variable {ι : Type}

/-- `validate(payload)`. An id is never empty. -/
def JwtStrategy.validate (payload : JwtPayload ι) : Except Exception (AuthenticatedUser ι) :=
  if payload.email = "" then .error (.unauthorized "Malformed token payload")
  else .ok
    { userId := payload.sub
      email := payload.email
      role := payload.role.getD (payload.type.getD "member") }

/-- The gateway's guard on a route that is not public, given what the token of the
request has been verified to. -/
def JwtAuthGuard.canActivate (verified : Option (JwtPayload ι)) :
    Except Exception (AuthenticatedUser ι) :=
  match verified with
  | none =>
      .error (.unauthorized "Authentication required. Please provide a valid Bearer token.")
  | some payload => JwtStrategy.validate payload

def CmsJwtAuthGuard.CMS_ROLES : List String := ["administrator", "support_agent", "analyst"]

/-- The guard of the auth, user and wallet services. -/
def CmsJwtAuthGuard.canActivate (headers : UserHeaders ι) : Except Exception Unit :=
  let role := headers.role.getD ""
  if role = "" then
    .error (.unauthorized "Missing x-user-role — request did not pass through gateway")
  else if role ∉ CMS_ROLES then .error (.unauthorized "This route requires a CMS account")
  else .ok ()

/-- The guard of the trading service, which has one message. -/
def TradingCmsJwtAuthGuard.canActivate (headers : UserHeaders ι) : Except Exception Unit :=
  let role := headers.role.getD ""
  if role = "" ∨ role ∉ CmsJwtAuthGuard.CMS_ROLES then
    .error (.unauthorized "This route requires a CMS account")
  else .ok ()

/-- The check of `@Roles(…)`, with the text each service gives a missing header. -/
def RolesGuard.canActivate (missing : String) (required : List String) (headers : UserHeaders ι) :
    Except Exception Unit :=
  let role := headers.role.getD ""
  if required = [] then .ok ()
  else if role = "" then .error (.unauthorized missing)
  else if role ∉ required then
    let roles := String.intercalate ", " required
    .error (.forbidden s!"Insufficient role. Required: [{roles}]. Got: {role}")
  else .ok ()

/-- `CurrentUser` in a service: a request without an id has not come through the gateway. -/
def currentUser (headers : UserHeaders ι) : Except Exception (AuthenticatedUser ι) :=
  match headers.userId with
  | none => .error (.unauthorized "Missing x-user-id — request did not pass through gateway")
  | some userId =>
      .ok ⟨userId, headers.email.getD "", headers.role.getD "member"⟩

end Guards

section Lemmas
variable {ι : Type} {payload : JwtPayload ι} {user : AuthenticatedUser ι} {headers : UserHeaders ι}

theorem validate_eq_ok (h : JwtStrategy.validate payload = .ok user) :
    user.userId = payload.sub ∧ user.email = payload.email ∧
      user.role = payload.role.getD (payload.type.getD "member") := by
  rw [JwtStrategy.validate] at h
  split at h
  · cases h
  · cases h
    exact ⟨rfl, rfl, rfl⟩

theorem JwtAuthGuard.eq_ok {verified : Option (JwtPayload ι)}
    (h : canActivate verified = .ok user) :
    ∃ payload, verified = some payload ∧ JwtStrategy.validate payload = .ok user := by
  rcases verified with _ | payload
  · cases h
  · exact ⟨payload, rfl, h⟩

theorem exists_role {role : String} (h : headers.role.getD "" = role) (hne : role ≠ "") :
    headers.role = some role := by
  rcases hrole : headers.role with _ | text
  · rw [hrole] at h
    exact absurd h.symm hne
  · rw [hrole] at h
    exact congrArg some h

theorem CmsJwtAuthGuard.eq_ok (h : canActivate headers = .ok ()) :
    ∃ role ∈ CMS_ROLES, headers.role = some role := by
  simp only [canActivate] at h
  split at h
  · cases h
  split at h
  · cases h
  rename_i hne hmem
  exact ⟨_, not_not.mp hmem, exists_role rfl hne⟩

theorem RolesGuard.eq_ok {missing : String} {required : List String} (hsome : required ≠ [])
    (h : canActivate missing required headers = .ok ()) :
    ∃ role ∈ required, headers.role = some role := by
  simp only [canActivate, if_neg hsome] at h
  split at h
  · cases h
  split at h
  · cases h
  rename_i hne hmem
  exact ⟨_, not_not.mp hmem, exists_role rfl hne⟩

theorem TradingCmsJwtAuthGuard.eq_ok (h : canActivate headers = .ok ()) :
    ∃ role ∈ CmsJwtAuthGuard.CMS_ROLES, headers.role = some role := by
  simp only [canActivate] at h
  split at h
  · cases h
  rename_i hrole
  obtain ⟨hne, hmem⟩ := not_or.mp hrole
  exact ⟨_, not_not.mp hmem, exists_role rfl hne⟩

theorem currentUser_eq_ok (h : currentUser headers = .ok user) :
    headers.userId = some user.userId := by
  rw [currentUser] at h
  rcases hid : headers.userId with _ | id
  · rw [hid] at h
    cases h
  · rw [hid] at h
    cases h
    rfl

end Lemmas
end StockMarket.Gateway
