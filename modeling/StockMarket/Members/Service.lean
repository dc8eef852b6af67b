import StockMarket.Trading.Store

/-! # The member service

The source of truth for a member's status and KYC decision: `MemberService`,
`MemberRegisteredConsumer` and `MemberEventsService`, with the documents, the
profile cache and the emitted events they work on.
-/

namespace StockMarket.Members
open Interleaving Prog
open Trading (KycStatus)

inductive MemberStatus where
  | pendingVerification | active | suspended
  deriving DecidableEq, Repr

/-- A member document, whose id is that of the account it belongs to. -/
structure Member where
  fullName : String
  email : String
  nationalId : String
  dateOfBirth : CalendarDate
  status : MemberStatus
  kycStatus : KycStatus
  suspensionReason : Option String
  deriving DecidableEq, Repr

/-- The paths a `save` has found modified. -/
structure MemberUpdate where
  status : Option MemberStatus
  suspensionReason : Option (Option String)
  kycStatus : Option KycStatus
  deriving DecidableEq, Repr

def MemberUpdate.apply (set : MemberUpdate) (member : Member) : Member :=
  { member with
    status := set.status.getD member.status
    suspensionReason := set.suspensionReason.getD member.suspensionReason
    kycStatus := set.kycStatus.getD member.kycStatus }

/-- A path is modified where its value is another one than was read. -/
def modified {α : Type} [DecidableEq α] (old new : α) : Option α :=
  if old = new then none else some new

@[simp] theorem getD_modified {α : Type} [DecidableEq α] (old new : α) :
    (modified old new).getD old = new := by
  by_cases h : old = new <;> simp [modified, h]

namespace Member

/-- The update that sets the status and its reason. -/
def standing (member : Member) (status : MemberStatus) (suspensionReason : Option String) :
    MemberUpdate where
  status := modified member.status status
  suspensionReason := modified member.suspensionReason suspensionReason
  kycStatus := none

/-- The update that sets the KYC decision. -/
def decided (member : Member) (kycStatus : KycStatus) : MemberUpdate where
  status := none
  suspensionReason := none
  kycStatus := modified member.kycStatus kycStatus

@[simp] theorem apply_standing (member : Member) (status : MemberStatus)
    (suspensionReason : Option String) :
    (member.standing status suspensionReason).apply member =
      { member with status, suspensionReason } := by
  simp [MemberUpdate.apply, standing]

@[simp] theorem apply_decided (member : Member) (kycStatus : KycStatus) :
    (member.decided kycStatus).apply member = { member with kycStatus } := by
  simp [MemberUpdate.apply, decided]

end Member

structure MemberRegisteredEvent where
  userId : String
  fullName : String
  email : String
  nationalId : String
  dateOfBirth : CalendarDate
  deriving DecidableEq, Repr

/-- The id fields of a payload. One that the publisher does not write is
`undefined` to whoever reads it. -/
structure PayloadIds where
  userId : Option String
  memberId : Option String
  deriving DecidableEq, Repr

inductive MemberEvent where
  | registered (event : MemberRegisteredEvent)
  | suspended (ids : PayloadIds) (reason : Option String)
  | activated (ids : PayloadIds)
  | kycUpdated (ids : PayloadIds) (kycStatus : KycStatus) (rejectionReason : Option String)
  deriving DecidableEq, Repr

structure Store where
  members : AList fun _ : String => Member
  profileCache : String → Option Member
  outbox : List MemberEvent

/-- One of the unique indexes, on `_id`, `email` and `nationalId`, refuses the
document. -/
def Store.Refuses (s : Store) (memberId : String) (doc : Member) : Prop :=
  memberId ∈ s.members ∨
    ∃ e ∈ s.members.entries, e.2.email = doc.email ∨ e.2.nationalId = doc.nationalId

instance (s : Store) (memberId : String) (doc : Member) : Decidable (s.Refuses memberId doc) :=
  inferInstanceAs (Decidable (_ ∨ _))

inductive MemberOp where
  | createMember (memberId : String) (doc : Member)
  | findMember (memberId : String)
  | saveMember (memberId : String) (set : MemberUpdate)
  | delProfileCache (key : String)
  | emit (event : MemberEvent)
  deriving DecidableEq

/-- What each operation answers. `createMember` answers `false` when a unique
index refuses the document. -/
abbrev MemberOp.Reply : MemberOp → Type
  | .createMember _ _ => Bool
  | .findMember _ => Option Member
  | .saveMember _ _ => Unit
  | .delProfileCache _ => Unit
  | .emit _ => Unit

def exec : (op : MemberOp) → Store → op.Reply × Store
  | .createMember memberId doc, s =>
      if s.Refuses memberId doc then (false, s)
      else (true, { s with members := s.members.insert memberId doc })
  | .findMember memberId, s => (s.members.lookup memberId, s)
  | .saveMember memberId set, s =>
      match s.members.lookup memberId with
      | some member => ((), { s with members := s.members.insert memberId (set.apply member) })
      | none => ((), s)
  | .delProfileCache key, s =>
      ((), { s with profileCache := Function.update s.profileCache key none })
  | .emit event, s => ((), { s with outbox := s.outbox ++ [event] })

abbrev Call (α : Type) := Prog MemberOp MemberOp.Reply Exception α

abbrev query (op : MemberOp) : Call op.Reply := Prog.send op

namespace RedisKeys

def memberProfile (userId : String) : String := s!"cache:member:{userId}"

end RedisKeys

/-- The cache logs and swallows what Redis throws. -/
def CacheService.del (key : String) : Call Unit :=
  catching (query (.delProfileCache key)) fun _ => pure ()

namespace MemberEventsService

/-- The payloads name the member by `userId`. -/
def payloadIds (userId : String) : PayloadIds := ⟨some userId, none⟩

def emitMemberSuspended (userId : String) (reason : Option String) : Call Unit :=
  query (.emit (.suspended (payloadIds userId) reason))

def emitMemberActivated (userId : String) : Call Unit :=
  query (.emit (.activated (payloadIds userId)))

def emitMemberKycUpdated (userId : String) (kycStatus : KycStatus)
    (rejectionReason : Option String) : Call Unit :=
  query (.emit (.kycUpdated (payloadIds userId) kycStatus rejectionReason))

end MemberEventsService

def MemberRegisteredEvent.member (event : MemberRegisteredEvent) : Member where
  fullName := event.fullName
  email := event.email
  nationalId := event.nationalId
  dateOfBirth := event.dateOfBirth
  status := .active
  kycStatus := .pending
  suspensionReason := none

/-- A duplicate key is logged and ignored. -/
def MemberRegisteredConsumer.handle (event : MemberRegisteredEvent) : Call Unit := do
  let _ ← query (.createMember event.userId event.member)
  pure ()

structure CmsSuspendDto where
  reason : Option String
  deriving DecidableEq, Repr

structure CmsKycDto where
  kycStatus : KycStatus
  rejectionReason : Option String
  kycStatus_decides : kycStatus ≠ .pending
  deriving DecidableEq, Repr

/-- `!dto.rejectionReason`. -/
def CmsKycDto.lacksReason (dto : CmsKycDto) : Bool :=
  dto.rejectionReason.getD "" = ""

namespace MemberService

def findOrFail (memberId : String) : Call Member := do
  match ← query (.findMember memberId) with
  | none => raise (.notFound "Member not found")
  | some member => pure member

def suspendMember (memberId : String) (dto : CmsSuspendDto) : Call Member := do
  let member ← findOrFail memberId
  if member.status = .suspended then
    raise (.badRequest "Member is already suspended")
  else do
    let set := member.standing .suspended dto.reason
    query (.saveMember memberId set)
    CacheService.del (RedisKeys.memberProfile memberId)
    MemberEventsService.emitMemberSuspended memberId dto.reason
    pure (set.apply member)

def unsuspendMember (memberId : String) : Call Member := do
  let member ← findOrFail memberId
  if member.status ≠ .suspended then
    raise (.badRequest "Member is not suspended")
  else do
    let set := member.standing .active none
    query (.saveMember memberId set)
    CacheService.del (RedisKeys.memberProfile memberId)
    MemberEventsService.emitMemberActivated memberId
    pure (set.apply member)

def updateKyc (memberId : String) (dto : CmsKycDto) : Call Member := do
  if dto.kycStatus = .rejected ∧ dto.lacksReason then
    raise (.badRequest "rejectionReason is required when rejecting KYC")
  else do
    let member ← findOrFail memberId
    let set := member.decided dto.kycStatus
    query (.saveMember memberId set)
    CacheService.del (RedisKeys.memberProfile memberId)
    MemberEventsService.emitMemberKycUpdated memberId dto.kycStatus dto.rejectionReason
    pure (set.apply member)

end MemberService

inductive Request where
  | suspendMember (memberId : String) (dto : CmsSuspendDto)
  | unsuspendMember (memberId : String)
  | updateKyc (memberId : String) (dto : CmsKycDto)
  deriving DecidableEq, Repr

namespace Request

def memberId : Request → String
  | .suspendMember memberId _ => memberId
  | .unsuspendMember memberId => memberId
  | .updateKyc memberId _ => memberId

def serve : Request → Call Member
  | .suspendMember memberId dto => MemberService.suspendMember memberId dto
  | .unsuspendMember memberId => MemberService.unsuspendMember memberId
  | .updateKyc memberId dto => MemberService.updateKyc memberId dto

end Request

/-- The store after the requests, served one after another. -/
def serveAll (requests : List Request) (s : Store) : Store :=
  requests.foldl (fun s r => (r.serve.run exec (fun _ => .done) s).2) s

section Again
variable {s : Store} {memberId : String} {doc : Member}

theorem refuses_iff : s.Refuses memberId doc ↔ (s.members.lookup memberId).isSome ∨
    ∃ other member, s.members.lookup other = some member ∧
      (member.email = doc.email ∨ member.nationalId = doc.nationalId) := by
  rw [Store.Refuses, ← AList.lookup_isSome]
  apply or_congr_right
  constructor
  · rintro ⟨⟨other, member⟩, hmem, hsame⟩
    exact ⟨other, member, AList.mem_lookup_iff.mpr hmem, hsame⟩
  · rintro ⟨other, member, hmem, hsame⟩
    exact ⟨⟨other, member⟩, AList.mem_lookup_iff.mp hmem, hsame⟩

/-- No operation takes a member away or changes what its indexes are on. -/
theorem lookup_exec (op : MemberOp) {member : Member}
    (h : s.members.lookup memberId = some member) :
    ∃ member', (exec op s).2.members.lookup memberId = some member' ∧
      member'.email = member.email ∧ member'.nationalId = member.nationalId := by
  cases op with
  | createMember other doc =>
    rw [exec]
    split
    · exact ⟨member, h, rfl, rfl⟩
    · rename_i hrefuses
      have hne : memberId ≠ other := by
        rintro rfl
        exact hrefuses (refuses_iff.mpr (.inl (by rw [h]; rfl)))
      exact ⟨member, (AList.lookup_insert_ne hne).trans h, rfl, rfl⟩
  | saveMember other set =>
    rw [exec]
    split
    · rename_i old hold
      by_cases hother : memberId = other
      · subst other
        obtain rfl := Option.some.inj (h.symm.trans hold)
        apply Exists.intro (set.apply member)
        constructor
        · exact AList.lookup_insert s.members
        · exact ⟨rfl, rfl⟩
      · exact ⟨member, (AList.lookup_insert_ne hother).trans h, rfl, rfl⟩
    · exact ⟨member, h, rfl, rfl⟩
  | findMember other => exact ⟨member, h, rfl, rfl⟩
  | delProfileCache key => exact ⟨member, h, rfl, rfl⟩
  | emit event => exact ⟨member, h, rfl, rfl⟩

/-- A document that is refused once is refused ever after. -/
theorem Store.Refuses.exec (op : MemberOp) (h : s.Refuses memberId doc) :
    (exec op s).2.Refuses memberId doc := by
  rw [refuses_iff] at h ⊢
  rcases h with hid | ⟨other, member, hmember, hsame⟩
  · obtain ⟨member, hmember⟩ := Option.isSome_iff_exists.mp hid
    obtain ⟨member', hlookup, -⟩ := lookup_exec op hmember
    exact .inl (by rw [hlookup]; rfl)
  · obtain ⟨member', hlookup, hemail, hnational⟩ := lookup_exec op hmember
    exact .inr ⟨other, member', hlookup, by rwa [hemail, hnational]⟩

theorem Store.Refuses.calls (h : s.Refuses memberId doc) (calls : List (Call Unit)) :
    (calls.foldl (fun s call => (call.run Members.exec (fun _ => .done) s).2) s).Refuses
      memberId doc := by
  induction calls generalizing s with
  | nil => exact h
  | cons call calls ih =>
    apply ih
    exact (sends_true call).run_invariant Members.exec _ (I := fun s => s.Refuses memberId doc)
      (fun op x _ hx => hx.exec op) s h

/-- A registration that was handled leaves its document refused. -/
theorem refuses_handle (s : Store) (event : MemberRegisteredEvent) :
    ((MemberRegisteredConsumer.handle event).run exec (fun _ => .done) s).2.Refuses event.userId
      event.member := by
  rw [MemberRegisteredConsumer.handle, run_send_bind_done _ _ _ _ rfl]
  by_cases h : s.Refuses event.userId event.member
  · simp [exec, h]
  · apply refuses_iff.mpr
    apply Or.inl
    simp [exec, h]

/-- Where its document is refused, a registration changes nothing. -/
theorem handle_of_refuses {event : MemberRegisteredEvent}
    (h : s.Refuses event.userId event.member) :
    (MemberRegisteredConsumer.handle event).run exec (fun _ => .done) s = (.ok (), s) := by
  rw [MemberRegisteredConsumer.handle, run_send_bind_done _ _ _ _ rfl]
  simp [exec, h]

end Again
end StockMarket.Members
