import StockMarket.Auth.Token
import StockMarket.Cms.Administrators
import StockMarket.Gateway.Guards
import StockMarket.Interleaving.Interpretation

/-! # Sessions of the CMS

Login, passwords, the seeding of the first administrator, and the guards before the
functions that only administrators may use. A session is a token of eight hours. No
table of sessions is kept.
-/

namespace StockMarket.Cms
open Interleaving Prog
open Auth (Hash Time hashPassword comparePassword findOne)
open Gateway (JwtPayload AuthenticatedUser)

def CmsRole.text : CmsRole → String
  | .administrator => "administrator"
  | .analyst => "analyst"
  | .supportAgent => "support_agent"

structure CmsJwtPayload where
  sub : ℕ
  email : String
  role : CmsRole
  iat : ℕ
  exp : ℕ
  deriving DecidableEq, Repr

/-- What the gateway reads from it. -/
def CmsJwtPayload.claims (payload : CmsJwtPayload) : JwtPayload ℕ :=
  ⟨payload.sub, payload.email, some payload.role.text, some "cms"⟩

/-- A text presented as a token. Members' tokens are signed with the same secret. -/
inductive AccessToken where
  | cms (payload : CmsJwtPayload)
  | member (payload : Auth.JwtPayload)
  | forged (text : String)
  deriving DecidableEq, Repr

/-- The accounts, the clock, and the CMS tokens that have been signed. -/
structure AccessStore where
  accounts : Store
  now : Time
  issued : List CmsJwtPayload

/-- Only what has been signed verifies, until it expires. -/
def AccessToken.verify (issued : List CmsJwtPayload) (now : Time) :
    AccessToken → Option (JwtPayload ℕ)
  | .cms payload =>
      if payload ∈ issued ∧ now / 1000 < payload.exp then some payload.claims else none
  | .member payload =>
      if now / 1000 < payload.exp then some ⟨payload.sub, payload.email, none, none⟩ else none
  | .forged _ => none

/-- `{ passwordHash, mustChangePassword: false }`. -/
def CmsUser.setPassword (hash : Hash) (user : CmsUser) : CmsUser :=
  { user with passwordHash := hash, mustChangePassword := false }

inductive AccessOp where
  | accounts (op : CmsOp)
  | dateNow
  /-- `cmsUserModel.findOne({ email, isActive: true })` -/
  | findActive (email : String)
  /-- `cmsUserModel.find({ isActive: true })` -/
  | listActive
  /-- `countDocuments({ role: ADMINISTRATOR })` -/
  | countAdministrators
  /-- `user.save()` after a new password -/
  | savePassword (id : ℕ) (passwordHash : Hash)
  /-- `jwtService.sign(payload, { expiresIn: '8h' })` -/
  | sign (payload : CmsJwtPayload)
  /-- the gateway's verification of a bearer token -/
  | verify (token : AccessToken)
  deriving DecidableEq

abbrev AccessOp.Reply : AccessOp → Type
  | .accounts op => op.Reply
  | .dateNow => Time
  | .findActive _ => Option (ℕ × CmsUser)
  | .listActive => List (ℕ × CmsUser)
  | .countAdministrators => ℕ
  | .savePassword _ _ => Unit
  | .sign _ => Unit
  | .verify _ => Option (JwtPayload ℕ)

def execAccess : (op : AccessOp) → AccessStore → op.Reply × AccessStore
  | .accounts op, s =>
      let out := exec op s.accounts
      (out.1, { s with accounts := out.2 })
  | .dateNow, s => (s.now, s)
  | .findActive email, s =>
      (findOne s.accounts.users fun user => user.email = email ∧ user.isActive, s)
  | .listActive, s =>
      ((Auth.withIds s.accounts.users).filter fun doc => doc.2.isActive, s)
  | .countAdministrators, s =>
      (s.accounts.users.countP fun user => user.role = .administrator, s)
  | .savePassword id passwordHash, s =>
      let users := s.accounts.users.modify id (CmsUser.setPassword passwordHash)
      ((), { s with accounts := { s.accounts with users } })
  | .sign payload, s => ((), { s with issued := payload :: s.issued })
  | .verify token, s => (token.verify s.issued s.now, s)

structure Tick where
  ms : ℕ

def accessBackend : Backend AccessOp AccessOp.Reply AccessStore Tick where
  exec := execAccess
  env x s := { s with now := s.now + x.ms }

/-- A call that goes through the guards. -/
abbrev AccessCall (α : Type) := Prog AccessOp AccessOp.Reply Exception α

abbrev access (op : AccessOp) : AccessCall op.Reply := Prog.send op

/-- A function of the accounts, as part of such a call. -/
def lift {α : Type} (p : Call α) : AccessCall α := p.substitute fun op => access (.accounts op)

structure LoginUser where
  id : ℕ
  email : String
  fullName : String
  role : CmsRole
  mustChangePassword : Bool
  deriving DecidableEq, Repr

namespace CmsAuthService

def expiresIn : ℕ := 8 * 60 * 60

def login (setting : Setting) (email password : String) :
    AccessCall (CmsJwtPayload × LoginUser) := do
  match ← access (.findActive (setting.toLowerCase email)) with
  | none => raise (.unauthorized "Invalid credentials")
  | some (id, user) =>
      if ¬comparePassword password user.passwordHash then
        raise (.unauthorized "Invalid credentials")
      else do
        let now ← access .dateNow
        let accessToken : CmsJwtPayload :=
          { sub := id
            email := user.email
            role := user.role
            iat := now / 1000
            exp := now / 1000 + expiresIn }
        access (.sign accessToken)
        pure (accessToken,
          { id, email := user.email, fullName := user.fullName, role := user.role
            mustChangePassword := user.mustChangePassword })

def listUsers : AccessCall (List (ℕ × CmsUser)) := access .listActive

def getUserById (id : ℕ) : AccessCall CmsUser := do
  match ← access (.accounts (.findUser id)) with
  | none => raise (.notFound "CMS user not found")
  | some user => pure user

def changePassword (call : ℕ) (userId : ℕ) (currentPassword newPassword : String) :
    AccessCall Unit := do
  match ← access (.accounts (.findUser userId)) with
  | none => raise (.notFound "CMS user not found")
  | some user =>
      if ¬comparePassword currentPassword user.passwordHash then
        raise (.unauthorized "Current password is incorrect")
      else
        access (.savePassword userId (hashPassword call newPassword))

/-- The environment's e-mail and password of the first administrator. -/
structure Seed where
  email : String
  password : String
  deriving DecidableEq, Repr

def seedSuperAdmin (setting : Setting) (call : ℕ) (seed : Seed) : AccessCall Unit := do
  let count ← access .countAdministrators
  if 0 < count then pure ()
  else do
    let created ← access (.accounts (.createUser
      { email := setting.toLowerCase seed.email
        fullName := "Omar Al-Admin"
        role := .administrator
        passwordHash := hashPassword call seed.password
        mustChangePassword := false
        isActive := true
        createdByUserId := none }))
    match created with
    | none => raise (.driver "E11000 duplicate key error")
    | some _ => pure ()

/-- `onApplicationBootstrap` logs what goes wrong. -/
def onApplicationBootstrap (setting : Setting) (call : ℕ) (seed : Seed) : AccessCall Unit :=
  catching (seedSuperAdmin setting call seed) fun _ => pure ()

end CmsAuthService

/-- A missing token verifies to nothing. -/
def verifyBearer : Option AccessToken → AccessCall (Option (JwtPayload ℕ))
  | none => pure none
  | some token => access (.verify token)

/-- The guards before a CMS route, at the gateway and in the service. -/
def clearance (roles : List CmsRole) (verified : Option (JwtPayload ℕ)) :
    Except Exception (AuthenticatedUser ℕ) := do
  let user ← Gateway.JwtAuthGuard.canActivate verified
  Gateway.CmsJwtAuthGuard.canActivate user.headers
  Gateway.RolesGuard.canActivate "Missing x-user-role — request did not pass through gateway"
    (roles.map CmsRole.text) user.headers
  pure user

def authorize (roles : List CmsRole) (token : Option AccessToken) :
    AccessCall (AuthenticatedUser ℕ) := do
  let verified ← verifyBearer token
  Prog.ofExcept (clearance roles verified)

/-- The routes of the CMS accounts, and a restart of the service. -/
inductive AccessRequest where
  | login (email password : String)
  | createUser (token : Option AccessToken) (dto : CreateCmsUserDto)
  | listUsers (token : Option AccessToken)
  | getUserById (token : Option AccessToken) (id : ℕ)
  | deactivateUser (token : Option AccessToken) (id : ℕ)
  | changePassword (token : Option AccessToken) (currentPassword newPassword : String)
  | bootstrap (seed : CmsAuthService.Seed)

inductive AccessResponse where
  | loggedIn (accessToken : CmsJwtPayload) (user : LoginUser)
  | created (user : CreatedUser)
  | users (users : List (ℕ × CmsUser))
  | user (user : CmsUser)
  | done
  deriving DecidableEq

def AccessRequest.serve (setting : Setting) (call : ℕ) : AccessRequest → AccessCall AccessResponse
  | .login email password => do
      let (accessToken, user) ← CmsAuthService.login setting email password
      pure (.loggedIn accessToken user)
  | .createUser token dto => do
      let user ← authorize [.administrator] token
      let created ← lift (CmsAuthService.createUser setting call dto user.userId)
      pure (.created created)
  | .listUsers token => do
      let _ ← authorize [.administrator] token
      let users ← CmsAuthService.listUsers
      pure (.users users)
  | .getUserById token id => do
      let _ ← authorize [.administrator] token
      let user ← CmsAuthService.getUserById id
      pure (.user user)
  | .deactivateUser token id => do
      let user ← authorize [.administrator] token
      lift (CmsAuthService.deactivateUser id user.userId)
      pure .done
  | .changePassword token currentPassword newPassword => do
      let user ← authorize [] token
      CmsAuthService.changePassword call user.userId currentPassword newPassword
      pure .done
  | .bootstrap seed => do
      CmsAuthService.onApplicationBootstrap setting call seed
      pure .done

/-- The token a route for administrators is called with. -/
def AccessRequest.administration : AccessRequest → Option (Option AccessToken)
  | .createUser token _ => some token
  | .listUsers token => some token
  | .getUserById token _ => some token
  | .deactivateUser token _ => some token
  | _ => none

abbrev AccessState := Config ℕ AccessOp AccessOp.Reply AccessStore Exception AccessResponse
abbrev AccessSchedule := List (Choice ℕ Tick Exception)

def AccessState.start (setting : Setting) (store : AccessStore) (requests : ℕ → AccessRequest) :
    AccessState :=
  Config.start store fun i => (requests i).serve setting i

end StockMarket.Cms
