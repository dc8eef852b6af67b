import StockMarket.Interleaving.Interpretation
import StockMarket.Interleaving.Protocol
import StockMarket.Members.Service
import StockMarket.Stocks.Administration

/-! # The member's profile and its cache

A profile is served from the cache where Redis has one, and fills it otherwise. Members
change their names, the CMS decides about them, and registrations come in beside that.
-/

namespace StockMarket.Members
open Interleaving Prog
open Stocks (trim)

/-- The body of `PUT /members/me` and its validators, which let a `null` through. -/
structure UpdateMemberDto where
  fullName : Option (Option String)
  fullName_length : ∀ name, fullName = some (some name) → 2 ≤ name.length ∧ name.length ≤ 100
  deriving DecidableEq

namespace UpdateMemberDto

def name (dto : UpdateMemberDto) : Option (Option String) := dto.fullName.map (Option.map trim)

/-- The `required` validator refuses the cast name. -/
def LacksName (dto : UpdateMemberDto) : Prop := dto.name = some none ∨ dto.name = some (some "")

instance (dto : UpdateMemberDto) : Decidable dto.LacksName := inferInstanceAs (Decidable (_ ∨ _))

/-- `$set: dto` -/
def apply (dto : UpdateMemberDto) (member : Member) : Member :=
  { member with fullName := dto.name.join.getD member.fullName }

end UpdateMemberDto

inductive ProfileOp where
  | member (op : MemberOp)
  | getProfileCache (key : String)
  | setProfileCache (key : String) (member : Member)
  /-- `memberModel.findByIdAndUpdate(id, { $set: dto }, { new: true })` -/
  | updateMember (memberId : String) (dto : UpdateMemberDto)
  deriving DecidableEq

abbrev ProfileOp.Reply : ProfileOp → Type
  | .member op => op.Reply
  | .getProfileCache _ => Option Member
  | .setProfileCache _ _ => Unit
  | .updateMember _ _ => Option Member

def execProfile : (op : ProfileOp) → Store → op.Reply × Store
  | .member op, s => exec op s
  | .getProfileCache key, s => (s.profileCache key, s)
  | .setProfileCache key member, s =>
      ((), { s with profileCache := Function.update s.profileCache key (some member) })
  | .updateMember memberId dto, s =>
      match s.members.lookup memberId with
      | some member =>
          (some (dto.apply member),
            { s with members := s.members.insert memberId (dto.apply member) })
      | none => (none, s)

structure Expiry where
  key : String

def Expiry.apply (x : Expiry) (s : Store) : Store :=
  { s with profileCache := Function.update s.profileCache x.key none }

def profileBackend : Backend ProfileOp ProfileOp.Reply Store Expiry where
  exec := execProfile
  env := Expiry.apply

abbrev ProfileCall (α : Type) := Prog ProfileOp ProfileOp.Reply Exception α

abbrev ask (op : ProfileOp) : ProfileCall op.Reply := Prog.send op

/-- A function that only deletes from the cache, as part of such a call. -/
def lift {α : Type} (p : Call α) : ProfileCall α := p.substitute fun op => ask (.member op)

namespace CacheService

/-- What Redis throws is a miss. -/
def get (key : String) : ProfileCall (Option Member) :=
  catching (ask (.getProfileCache key)) fun _ => pure none

def set (key : String) (member : Member) : ProfileCall Unit :=
  catching (ask (.setProfileCache key member)) fun _ => pure ()

end CacheService

namespace MemberService

/-- A cache miss: the member is read and cached. -/
def readMember (missing memberId : String) : ProfileCall Member := do
  match ← ask (.member (.findMember memberId)) with
  | none => raise (.notFound missing)
  | some member => do
      CacheService.set (RedisKeys.memberProfile memberId) member
      pure member

/-- `getProfile` and `getMemberById`, which differ in the text for a missing member. -/
def cachedMember (missing memberId : String) : ProfileCall Member := do
  match ← CacheService.get (RedisKeys.memberProfile memberId) with
  | some cached => pure cached
  | none => readMember missing memberId

def getProfile (userId : String) : ProfileCall Member :=
  cachedMember "Member profile not found" userId

def getMemberById (memberId : String) : ProfileCall Member :=
  cachedMember "Member not found" memberId

/-- The validators run on the cast update, before it is sent. -/
def updateProfile (userId : String) (dto : UpdateMemberDto) : ProfileCall Member := do
  if dto.LacksName then
    raise (.driver "Validation failed: fullName: Path `fullName` is required.")
  else do
    match ← ask (.updateMember userId dto) with
    | none => raise (.notFound "Member profile not found")
    | some member => do
        lift (CacheService.del (RedisKeys.memberProfile userId))
        pure member

end MemberService

/-- What members and the CMS ask for, and the registrations that are consumed. -/
inductive ProfileRequest where
  | getProfile (userId : String)
  | getMemberById (memberId : String)
  | updateProfile (userId : String) (dto : UpdateMemberDto)
  | decide (request : Request)
  | registered (event : MemberRegisteredEvent)

namespace ProfileRequest

def serve : ProfileRequest → ProfileCall (Option Member)
  | .getProfile userId => some <$> MemberService.getProfile userId
  | .getMemberById memberId => some <$> MemberService.getMemberById memberId
  | .updateProfile userId dto => some <$> MemberService.updateProfile userId dto
  | .decide request => some <$> lift request.serve
  | .registered event => do
      lift (MemberRegisteredConsumer.handle event)
      pure none

def shows : ProfileRequest → Option String
  | .getProfile userId => some userId
  | .getMemberById memberId => some memberId
  | .updateProfile userId _ => some userId
  | _ => none

end ProfileRequest

abbrev ProfileState := Config ℕ ProfileOp ProfileOp.Reply Store Exception (Option Member)
abbrev ProfileSchedule := List (Choice ℕ Expiry Exception)

def ProfileState.start (store : Store) (requests : ℕ → ProfileRequest) : ProfileState :=
  Config.start store fun i => (requests i).serve

def Store.Coherent (s : Store) : Prop :=
  ∀ memberId profile, s.profileCache (RedisKeys.memberProfile memberId) = some profile →
    s.members.lookup memberId = some profile

theorem memberProfile_injective : Function.Injective RedisKeys.memberProfile := by
  intro memberId memberId' h
  have h' : "cache:member:" ++ memberId = "cache:member:" ++ memberId' := h
  exact (String.append_right_inj _).mp h'

section Pool

abbrev ProfileHistory := List (Reaction ProfileOp ProfileOp.Reply)

/-- Where a call can have its profile from. -/
def Seen (h : ProfileHistory) (memberId : String) (profile : Member) : Prop :=
  ⟨.member (.findMember memberId), some profile⟩ ∈ h ∨
    ⟨.getProfileCache (RedisKeys.memberProfile memberId), some profile⟩ ∈ h ∨
      ∃ dto, ⟨.updateMember memberId dto, some profile⟩ ∈ h

/-- A call caches what it has read under the member's own key. -/
def mayProfile (h : ProfileHistory) : ProfileOp → Prop
  | .setProfileCache key profile => ∃ memberId, key = RedisKeys.memberProfile memberId ∧
      ⟨.member (.findMember memberId), some profile⟩ ∈ h
  | _ => True

def profileProtocol (requests : ℕ → ProfileRequest) :
    Protocol ℕ ProfileOp ProfileOp.Reply Exception (Option Member) where
  may _ := mayProfile
  ends _ _ _ := True
  post i := Returns fun h answer => ∀ memberId ∈ (requests i).shows, ∀ profile ∈ answer,
    Seen h memberId profile

variable {α : Type} {h : ProfileHistory} {memberId : String}

/-- Nothing is assumed of a call that fills no key. -/
theorem obeys_lift (p : Call α) :
    (lift p).Obeys mayProfile (fun _ _ => True) (Returns fun _ _ => True) h := by
  have hsends : (lift p).Sends fun op => ∀ h, mayProfile h op := by
    apply Sends.substitute (fun op => ask (.member op)) (sends_true p)
    intro op _
    apply sends_send
    exact fun _ => trivial
  refine (Obeys.of_sends hsends fun h op hop => hop h).mono ?_
  intro _ res _
  rcases res with e | a <;> trivial

/-- A lookup of the cache answers what Redis has, or misses. -/
theorem obeys_get (key : String) :
    (CacheService.get key).Obeys mayProfile (fun _ _ => True)
      (Returns fun h cached => ∀ profile ∈ cached, ⟨.getProfileCache key, some profile⟩ ∈ h) h := by
  apply Obeys.caught (ProfileOp.getProfileCache key)
  · trivial
  · rintro cached profile ⟨⟩
    exact List.mem_cons_self
  · rintro e profile ⟨⟩
  · rintro e cached profile ⟨⟩

theorem obeys_set {profile : Member} (hread : ⟨.member (.findMember memberId), some profile⟩ ∈ h) :
    (CacheService.set (RedisKeys.memberProfile memberId) profile).Obeys mayProfile
      (fun _ _ => True)
      (Returns fun h' _ => ⟨.member (.findMember memberId), some profile⟩ ∈ h') h := by
  apply Obeys.caught (ProfileOp.setProfileCache (RedisKeys.memberProfile memberId) profile)
  · exact ⟨memberId, rfl, hread⟩
  · exact fun _ => List.mem_cons_of_mem _ hread
  · exact fun _ => hread
  · exact fun _ _ => List.mem_cons_of_mem _ hread

theorem obeys_cachedMember (missing memberId : String) :
    (MemberService.cachedMember missing memberId).Obeys mayProfile (fun _ _ => True)
      (Returns fun h profile => Seen h memberId profile) [] := by
  apply (obeys_get _).bindReturns
  intro h cached hcached
  cases cached with
  | none =>
    apply Obeys.send trivial
    intro found
    cases found with
    | none => trivial
    | some profile =>
      apply (obeys_set List.mem_cons_self).bindReturns
      intro h' _ hread
      exact .inl hread
  | some profile => exact .inr (.inl (hcached profile rfl))

theorem lift_del (key : String) : lift (CacheService.del key) =
    catching (ask (.member (.delProfileCache key))) fun _ => pure () := by
  rw [lift, CacheService.del, catching, substitute_handle, substitute_send]
  congr 1
  funext res
  cases res <;> rfl

theorem obeys_del {x : Reaction ProfileOp ProfileOp.Reply} (hx : x ∈ h) (key : String) :
    (lift (CacheService.del key)).Obeys mayProfile (fun _ _ => True)
      (Returns fun h' _ => x ∈ h') h := by
  rw [lift_del]
  apply Obeys.caught (ProfileOp.member (.delProfileCache key))
  · trivial
  · exact fun _ => List.mem_cons_of_mem _ hx
  · exact fun _ => hx
  · exact fun _ _ => List.mem_cons_of_mem _ hx

theorem obeys_updateProfile (userId : String) (dto : UpdateMemberDto) :
    (MemberService.updateProfile userId dto).Obeys mayProfile (fun _ _ => True)
      (Returns fun h profile => Seen h userId profile) [] := by
  rw [MemberService.updateProfile]
  split
  · trivial
  apply Obeys.send trivial
  intro found
  cases found with
  | none => trivial
  | some profile =>
    apply (obeys_del List.mem_cons_self _).bindReturns
    intro h _ hupdated
    exact .inr (.inr ⟨dto, hupdated⟩)

theorem ProfileRequest.obeys_serve (r : ProfileRequest) :
    r.serve.Obeys mayProfile (fun _ _ => True) (Returns fun h answer =>
      ∀ memberId ∈ r.shows, ∀ profile ∈ answer, Seen h memberId profile) [] := by
  cases r with
  | getProfile userId =>
    apply (obeys_cachedMember _ userId).bindReturns
    rintro h profile hseen _ ⟨⟩ _ ⟨⟩
    exact hseen
  | getMemberById memberId =>
    apply (obeys_cachedMember _ memberId).bindReturns
    rintro h profile hseen _ ⟨⟩ _ ⟨⟩
    exact hseen
  | updateProfile userId dto =>
    apply (obeys_updateProfile userId dto).bindReturns
    rintro h profile hseen _ ⟨⟩ _ ⟨⟩
    exact hseen
  | decide request =>
    apply (obeys_lift request.serve).bindReturns
    rintro h profile _ _ ⟨⟩
  | registered event =>
    apply (obeys_lift (MemberRegisteredConsumer.handle event)).bindReturns
    rintro h _ _ _ ⟨⟩

end Pool

section Run
variable {store : Store} {requests : ℕ → ProfileRequest} {s : Store} {memberId : String}
  {profile : Member}

def anyProfileSchedule : Assumption ℕ ProfileOp ProfileOp.Reply Store Expiry Exception where
  call _ _ _ _ _ := True
  env _ := True

theorem conforms_run (store : Store) (requests : ℕ → ProfileRequest) (sched : ProfileSchedule) :
    ((ProfileState.start store requests).run profileBackend sched).Conforms
      (profileProtocol requests) :=
  (Config.run_invariant (A := anyProfileSchedule) (I := fun _ _ => True)
    (fun _ _ _ _ _ _ => trivial) (fun _ _ _ _ _ _ _ _ => trivial) (fun _ _ _ _ _ => trivial)
    (Config.conforms_start fun i => (requests i).obeys_serve) trivial sched
    (Assumption.along_of_forall _ _ (fun _ _ _ _ _ => trivial) (fun _ => trivial) _ _)).1

/-- The member had this profile at some time of the run. -/
def Stored (store : Store) (requests : ℕ → ProfileRequest) (sched : ProfileSchedule)
    (memberId : String) (profile : Member) : Prop :=
  ∃ earlier later, sched = earlier ++ later ∧
    ((ProfileState.start store requests).run profileBackend earlier).store.members.lookup memberId =
      some profile

theorem Stored.append {sched : ProfileSchedule} (h : Stored store requests sched memberId profile)
    (more : ProfileSchedule) : Stored store requests (sched ++ more) memberId profile := by
  obtain ⟨earlier, later, rfl, hprofile⟩ := h
  exact ⟨earlier, later ++ more, List.append_assoc .., hprofile⟩

/-- What is cached was cached before, or has just been set. -/
theorem profileCache_exec {key : String} (op : ProfileOp)
    (h : (execProfile op s).2.profileCache key = some profile) :
    s.profileCache key = some profile ∨ op = .setProfileCache key profile := by
  cases op with
  | member op =>
    cases op with
    | delProfileCache key' =>
      by_cases hk : key = key'
      · subst hk
        simp [execProfile, exec] at h
      · exact .inl (by simpa [execProfile, exec, Function.update_of_ne hk] using h)
    | createMember memberId doc =>
      simp only [execProfile, exec] at h
      split at h <;> exact .inl h
    | saveMember memberId set =>
      simp only [execProfile, exec] at h
      split at h <;> exact .inl h
    | _ => exact .inl h
  | setProfileCache key' read =>
    by_cases hk : key = key'
    · subst hk
      simp only [execProfile, Function.update_self, Option.some.injEq] at h
      exact .inr (by rw [h])
    · exact .inl (by simpa [execProfile, Function.update_of_ne hk] using h)
  | updateMember memberId dto =>
    simp only [execProfile] at h
    split at h <;> exact .inl h
  | getProfileCache key' => exact .inl h

theorem lookup_updateMember {dto : UpdateMemberDto}
    (h : (execProfile (.updateMember memberId dto) s).1 = some profile) :
    (execProfile (.updateMember memberId dto) s).2.members.lookup memberId = some profile := by
  rw [execProfile] at h ⊢
  split at h
  · exact (AList.lookup_insert s.members).trans h
  · cases h

/-- What a call has read of the collection was stored then. -/
theorem stored_of_found {sched : ProfileSchedule} {i : ℕ}
    (h : ⟨.member (.findMember memberId), some profile⟩ ∈
      own i ((ProfileState.start store requests).run profileBackend sched).log) :
    Stored store requests sched memberId profile := by
  rcases Config.mem_log_run profileBackend (mem_own.mp h) with
    hnone | ⟨earlier, o, later, hsched, -, -, hreply⟩
  · cases hnone
  · exact ⟨earlier, .step i o :: later, hsched, hreply.symm⟩

/-- What is cached in a run was stored in it. -/
theorem stored_of_cached (hstart : store.Coherent) (sched : ProfileSchedule)
    (h : ((ProfileState.start store requests).run profileBackend sched).store.profileCache
      (RedisKeys.memberProfile memberId) = some profile) :
    Stored store requests sched memberId profile := by
  induction sched using List.reverseRecOn with
  | nil => exact ⟨[], [], rfl, hstart memberId profile h⟩
  | append_singleton sched ch ih =>
    rw [Config.run_append, Config.run_cons, Config.run_nil] at h
    obtain ⟨-, hstep⟩ := Config.step_cases (B := profileBackend) (A := anyProfileSchedule)
      (conforms_run store requests sched) (fun _ _ _ _ _ _ => trivial) ch (by
        cases ch <;> first | trivial | (simp only [Assumption.Meets]; split <;> trivial))
    rcases hstep with ⟨hx, -⟩ | ⟨x, -, hx, -⟩ | ⟨i, op, o, hmay, -, -, hx, -⟩
    · rw [hx] at h
      exact (ih h).append [ch]
    · rw [hx] at h
      refine (ih ?_).append [ch]
      by_cases hk : RedisKeys.memberProfile memberId = x.key
      · simp [profileBackend, Expiry.apply, hk] at h
      · simpa [profileBackend, Expiry.apply, Function.update_of_ne hk] using h
    · rw [hx] at h
      rcases profileCache_exec op h with hold | rfl
      · exact (ih hold).append [ch]
      · obtain ⟨memberId', hkey, hread⟩ := hmay
        obtain rfl := memberProfile_injective hkey
        exact (stored_of_found hread).append [ch]

/-- Nobody changes a member's e-mail or national id. -/
theorem lookup_execProfile (op : ProfileOp) {member : Member}
    (h : s.members.lookup memberId = some member) :
    ∃ member', (execProfile op s).2.members.lookup memberId = some member' ∧
      member'.email = member.email ∧ member'.nationalId = member.nationalId := by
  cases op with
  | member op => exact lookup_exec op h
  | updateMember other dto =>
    rw [execProfile]
    split
    · rename_i old hold
      by_cases hother : memberId = other
      · subst other
        obtain rfl := Option.some.inj (h.symm.trans hold)
        exact ⟨dto.apply member, AList.lookup_insert s.members, rfl, rfl⟩
      · exact ⟨member, (AList.lookup_insert_ne hother).trans h, rfl, rfl⟩
    · exact ⟨member, h, rfl, rfl⟩
  | getProfileCache key => exact ⟨member, h, rfl, rfl⟩
  | setProfileCache key read => exact ⟨member, h, rfl, rfl⟩

theorem Stored.identity {sched : ProfileSchedule}
    (h : Stored store requests sched memberId profile) :
    ∃ member, ((ProfileState.start store requests).run profileBackend
      sched).store.members.lookup memberId = some member ∧ member.email = profile.email ∧
        member.nationalId = profile.nationalId := by
  obtain ⟨earlier, later, rfl, hprofile⟩ := h
  rw [Config.run_append]
  refine Config.run_store profileBackend (I := fun s => ∃ member,
    s.members.lookup memberId = some member ∧ member.email = profile.email ∧
      member.nationalId = profile.nationalId) ?_ ?_ _ ⟨profile, hprofile, rfl, rfl⟩ later
  · rintro op s ⟨member, hmember, hemail, hnational⟩
    obtain ⟨member', hmember', hemail', hnational'⟩ := lookup_execProfile op hmember
    exact ⟨member', hmember', hemail'.trans hemail, hnational'.trans hnational⟩
  · exact fun _ _ h => h

end Run

/-- However the calls interleave and whatever Redis loses, a profile that is answered is
one the member has had in that run, with the e-mail and national id it has now. -/
theorem served_profile_was_stored (store : Store) (hstart : store.Coherent)
    (requests : ℕ → ProfileRequest) (sched : ProfileSchedule) (i : ℕ) (memberId : String)
    (hshows : (requests i).shows = some memberId) (profile : Member) :
    let c := (ProfileState.start store requests).run profileBackend sched
    c.result i = some (.ok (some profile)) →
      Stored store requests sched memberId profile ∧
        ∃ member, c.store.members.lookup memberId = some member ∧
          member.email = profile.email ∧ member.nationalId = profile.nationalId := by
  intro c hresult
  have hstored : Stored store requests sched memberId profile := by
    rcases (conforms_run store requests sched).returned hresult memberId hshows profile rfl with
      hfound | hcached | ⟨dto, hupdated⟩
    · exact stored_of_found hfound
    · rcases Config.mem_log_run profileBackend (mem_own.mp hcached) with
        hnone | ⟨earlier, o, later, rfl, -, -, hreply⟩
      · cases hnone
      · exact (stored_of_cached hstart earlier hreply.symm).append _
    · rcases Config.mem_log_run profileBackend (mem_own.mp hupdated) with
        hnone | ⟨earlier, o, later, rfl, ho, ⟨next, failed, hcall⟩, hreply⟩
      · cases hnone
      · refine ⟨earlier ++ [.step i o], later, by simp, ?_⟩
        rw [Config.run_append, Config.run_cons, Config.run_nil,
          (Config.step_applies profileBackend hcall ho).1]
        exact lookup_updateMember hreply.symm
  exact ⟨hstored, hstored.identity⟩

section Example

def oneMember : Store where
  members := (∅ : AList fun _ : String => Member).insert "m1"
    ⟨"Member One", "one@example.com", "1", ⟨1995, 6, 15⟩, .active, .pending, none⟩
  profileCache _ := none
  outbox := []

def lookBesideSuspension : ℕ → ProfileRequest
  | 0 => .getProfile "m1"
  | _ => .decide (.suspendMember "m1" ⟨some "audit"⟩)

/-- The look reads before the suspension and fills after it. -/
def fillAfterSuspension : ProfileSchedule :=
  [.step 0 .done, .step 0 .done, .step 1 .done, .step 1 .done, .step 1 .done, .step 1 .done,
    .step 0 .done]

theorem served_profile_was_stored_stale : ∃ profile : Member,
    Stored oneMember lookBesideSuspension fillAfterSuspension "m1" profile ∧
      ∃ member, ((ProfileState.start oneMember lookBesideSuspension).run profileBackend
        fillAfterSuspension).store.members.lookup "m1" = some member ∧
          member.email = profile.email ∧ member.nationalId = profile.nationalId := by
  have hstart : oneMember.Coherent := by rintro memberId profile ⟨⟩
  exact ⟨_, served_profile_was_stored oneMember hstart lookBesideSuspension fillAfterSuspension 0
    "m1" rfl ⟨"Member One", "one@example.com", "1", ⟨1995, 6, 15⟩, .active, .pending, none⟩
    (by decide +kernel)⟩

end Example
end StockMarket.Members
