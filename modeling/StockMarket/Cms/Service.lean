import StockMarket.Auth.Service

/-! # The accounts of the CMS

`CmsAuthService` as far as accounts are made and deactivated. Ids are places in
the collection of CMS users: nothing is ever deleted.
-/

namespace StockMarket.Cms
open Interleaving Prog
open Auth (Hash hashPassword withIds findOne)

inductive CmsRole where
  | administrator | analyst | supportAgent
  deriving DecidableEq, Repr

structure CmsUser where
  email : String
  fullName : String
  role : CmsRole
  passwordHash : Hash
  mustChangePassword : Bool
  isActive : Bool
  createdByUserId : Option ℕ
  deriving DecidableEq

structure CmsProvisionedEvent where
  userId : ℕ
  email : String
  name : String
  role : CmsRole
  temporaryPassword : String
  deriving DecidableEq, Repr

structure Store where
  users : List CmsUser
  outbox : List CmsProvisionedEvent

/-- `countDocuments({ role: ADMINISTRATOR, isActive: true })`. -/
def Store.activeAdministrators (s : Store) : ℕ :=
  s.users.countP fun user => user.role = .administrator ∧ user.isActive

/-- The unique index refuses the email. -/
def Store.Refuses (s : Store) (email : String) : Prop := ∃ user ∈ s.users, user.email = email

instance (s : Store) (email : String) : Decidable (s.Refuses email) :=
  inferInstanceAs (Decidable (∃ user ∈ s.users, _))

/-- `{ isActive: false }`. -/
def CmsUser.deactivate (user : CmsUser) : CmsUser := { user with isActive := false }

inductive CmsOp where
  | findUserByEmail (email : String)
  | createUser (doc : CmsUser)
  | findUser (id : ℕ)
  /-- `cmsUserModel.countDocuments({ role, isActive: true })` -/
  | countActiveAdministrators
  /-- `cmsUserModel.findByIdAndUpdate(id, { isActive: false })` -/
  | deactivate (id : ℕ)
  | emit (event : CmsProvisionedEvent)
  deriving DecidableEq

def CmsOp.isDeactivate : CmsOp → Bool
  | .deactivate _ => true
  | _ => false

/-- What each operation answers. `createUser` answers nothing when the unique
index refuses the document. -/
abbrev CmsOp.Reply : CmsOp → Type
  | .findUserByEmail _ => Option (ℕ × CmsUser)
  | .createUser _ => Option ℕ
  | .findUser _ => Option CmsUser
  | .countActiveAdministrators => ℕ
  | .deactivate _ => Unit
  | .emit _ => Unit

def exec : (op : CmsOp) → Store → op.Reply × Store
  | .findUserByEmail email, s => (findOne s.users fun user => user.email = email, s)
  | .createUser doc, s =>
      if s.Refuses doc.email then (none, s)
      else (some s.users.length, { s with users := s.users ++ [doc] })
  | .findUser id, s => (s.users[id]?, s)
  | .countActiveAdministrators, s => (s.activeAdministrators, s)
  | .deactivate id, s => ((), { s with users := s.users.modify id CmsUser.deactivate })
  | .emit event, s => ((), { s with outbox := s.outbox ++ [event] })

def backend : Backend CmsOp CmsOp.Reply Store Empty where
  exec := exec
  env x := x.elim

abbrev Call (α : Type) := Prog CmsOp CmsOp.Reply Exception α

abbrev query (op : CmsOp) : Call op.Reply := Prog.send op

structure CreateCmsUserDto where
  email : String
  fullName : String
  role : CmsRole
  deriving DecidableEq, Repr

structure CreatedUser where
  id : ℕ
  email : String
  fullName : String
  role : CmsRole
  deriving DecidableEq, Repr

/-- What chance gives each call, and `String.prototype.toLowerCase`. -/
structure Setting where
  randomBytes : ℕ → List (Fin 256)
  toLowerCase : String → String

namespace CmsAuthService

def chars : List Char :=
  "ABCDEFGHJKLMNPQRSTUVWXYZabcdefghijkmnopqrstuvwxyz23456789@#$!".toList

def generateTemporaryPassword (randomBytes : List (Fin 256)) : String :=
  String.ofList (randomBytes.map fun b => chars.getD (b.val % chars.length) 'A')

/-- The event is sent without waiting for it, so that no error comes back. -/
def emit (event : CmsProvisionedEvent) : Call Unit :=
  catching (query (.emit event)) fun _ => pure ()

def createUser (setting : Setting) (call : ℕ) (dto : CreateCmsUserDto) (createdByUserId : ℕ) :
    Call CreatedUser := do
  let email := setting.toLowerCase dto.email
  match ← query (.findUserByEmail email) with
  | some _ => raise (.conflict "A CMS user with this email already exists")
  | none => do
      let temporaryPassword := generateTemporaryPassword (setting.randomBytes call)
      match ← query (.createUser
        { email := email
          fullName := dto.fullName
          role := dto.role
          passwordHash := hashPassword call temporaryPassword
          mustChangePassword := true
          isActive := true
          createdByUserId := some createdByUserId }) with
      | none => raise (.driver "E11000 duplicate key error")
      | some userId => do
          emit { userId, email, name := dto.fullName, role := dto.role, temporaryPassword }
          pure { id := userId, email, fullName := dto.fullName, role := dto.role }

def isLastAdministrator (user : CmsUser) (adminCount : ℕ) : Prop :=
  user.role = .administrator ∧ adminCount ≤ 1

instance (user : CmsUser) (adminCount : ℕ) : Decidable (isLastAdministrator user adminCount) :=
  inferInstanceAs (Decidable (_ ∧ _))

def deactivateUser (id requestingUserId : ℕ) : Call Unit := do
  if id = requestingUserId then
    raise (.forbidden "You cannot deactivate your own account")
  else do
    match ← query (.findUser id) with
    | none => raise (.notFound "CMS user not found")
    | some user => do
        let adminCount ← query .countActiveAdministrators
        if isLastAdministrator user adminCount then
          raise (.forbidden "Cannot deactivate the last administrator")
        else do
          query (.deactivate id)
          pure ()

end CmsAuthService

/-- What an administrator can ask for. The id of who asks comes last. -/
inductive Request where
  | createUser (dto : CreateCmsUserDto) (createdByUserId : ℕ)
  | deactivateUser (id requestingUserId : ℕ)
  deriving DecidableEq, Repr

/-- Who asks. -/
def Request.requestingUserId : Request → ℕ
  | .createUser _ createdByUserId => createdByUserId
  | .deactivateUser _ requestingUserId => requestingUserId

/-- What the functions return, put into one type. -/
inductive Response where
  | created (user : CreatedUser)
  | done
  deriving DecidableEq, Repr

def Request.serve (setting : Setting) (call : ℕ) : Request → Call Response
  | .createUser dto createdByUserId => do
      let user ← CmsAuthService.createUser setting call dto createdByUserId
      pure (.created user)
  | .deactivateUser id requestingUserId => do
      CmsAuthService.deactivateUser id requestingUserId
      pure .done

/-- A state of the running service, whose calls are numbered. -/
abbrev State := Config ℕ CmsOp CmsOp.Reply Store Exception Response

/-- The service with one call for each number, none of which has begun. -/
def State.start (setting : Setting) (store : Store) (requests : ℕ → Request) : State :=
  Config.start store fun i => (requests i).serve setting i

abbrev Schedule := List (Choice ℕ Empty Exception)

end StockMarket.Cms
