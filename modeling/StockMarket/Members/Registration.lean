import StockMarket.Auth.Verification
import StockMarket.Interleaving.Protocol
import StockMarket.Members.Profiles
import StockMarket.Members.ReadModel

/-! # Registrations across the services

The auth service emits an event for every account it activates. The user service and the
trading service make their own document of it. Kafka may deliver an event again and out of
order, and the services go on working meanwhile.
-/

namespace StockMarket.Auth
open Interleaving Prog
open Members (MemberRegisteredEvent)

abbrev AccountState := Config ℕ AuthOp AuthOp.Reply Store Exception String
abbrev AccountSchedule := List (Choice ℕ Environment Exception)
abbrev AccountHistory := List (Reaction AuthOp AuthOp.Reply)
abbrev AccountLog := List (Entry ℕ AuthOp AuthOp.Reply)

def AccountState.start (setting : Setting) (store : Store) (requests : ℕ → Request) :
    AccountState :=
  Config.start { store with memberOutbox := [] } fun i => (requests i).serve setting i

/-- The unique indexes, on `email` and `nationalId`. -/
def Distinct (users : List User) : Prop :=
  ∀ (i j : ℕ) (user other : User), users[i]? = some user → users[j]? = some other →
    user.email = other.email ∨ user.nationalId = other.nationalId → i = j

def User.Activated (user : User) : Prop := user.status = .active ∧ user.emailVerified

section Protocol
variable {h : AccountHistory} {ends : AuthOp → Outcome Exception → Prop}

/-- What a request has read before it creates or saves a user, and saved before it emits an
event. -/
def mayRegister (h : AccountHistory) : AuthOp → Prop
  | .createUser doc => ∃ now, ⟨.dateNow, now⟩ ∈ h ∧
      MIN_MEMBER_AGE ≤ calculateAge doc.dateOfBirth (.ofTime now)
  | .saveUser userId set => (∃ email user, ⟨.findUser email, some (userId, user)⟩ ∈ h) ∧
      (set.status = none ∨ set.status = some .active) ∧
      (set.emailVerified = none ∨ set.emailVerified = some true)
  | .emitMemberRegistered event => ∃ email userId user hash,
      ⟨.findUser email, some (userId, user)⟩ ∈ h ∧
      ⟨.saveUser userId (AuthService.activation user hash), ()⟩ ∈ h ∧
      event = AuthService.memberRegistered userId user
  | _ => True

def accountProtocol : Protocol ℕ AuthOp AuthOp.Reply Exception String where
  may _ := mayRegister
  ends _ _ _ := True
  post _ := Returns fun _ _ => True

def Harmless (op : AuthOp) : Prop := ∀ h, mayRegister h op

theorem obeys_harmless {α : Type} {p : Call α} (hp : p.Sends Harmless) :
    p.Obeys mayRegister ends (Returns fun _ _ => True) h := by
  refine (Obeys.of_sends hp fun h op hop => hop h).mono ?_
  intro _ res _
  cases res <;> trivial

theorem obeys_harmless_from {α : Type} {p : Call α} (hp : p.Sends Harmless) :
    p.Obeys mayRegister ends (Returns fun h' _ => h <:+ h') h := by
  refine (Obeys.of_sends_from hp fun h' op _ hop => hop h').mono ?_
  intro _ res hsuffix
  cases res
  · trivial
  · exact hsuffix

theorem sends_createAndSend (expiresMinutes : ℕ) (randomBytes : List (Fin 256)) (userId : ℕ)
    (user : User) (purpose : OtpPurpose) :
    (OtpService.createAndSend expiresMinutes randomBytes userId user purpose).Sends Harmless := by
  apply Sends.send
  · exact fun _ => trivial
  intro invalidated
  apply Sends.send
  · exact fun _ => trivial
  intro now
  apply Sends.send
  · exact fun _ => trivial
  intro stored
  apply sends_send
  exact fun _ => trivial

theorem sends_validate (call userId : ℕ) (code : String) (purpose : OtpPurpose) :
    (OtpService.validate call userId code purpose).Sends Harmless := by
  apply Sends.send
  · exact fun _ => trivial
  intro newest
  rcases newest with _ | ⟨otpId, otp⟩
  · trivial
  dsimp only
  split
  · trivial
  apply Sends.send
  · exact fun _ => trivial
  intro now
  split
  · trivial
  split
  · trivial
  apply Sends.send
  · exact fun _ => trivial
  · exact fun _ => trivial

theorem obeys_register (expiresMinutes : ℕ) (randomBytes : List (Fin 256)) (dto : RegisterDto) :
    (AuthService.register expiresMinutes randomBytes dto).Obeys mayRegister ends
      (Returns fun _ _ => True) h := by
  apply Obeys.send trivial
  intro existing
  split
  · trivial
  split
  · trivial
  apply Obeys.send trivial
  intro now
  split
  · trivial
  · rename_i hage
    apply Obeys.send ⟨now, List.mem_cons_self, not_lt.mp hage⟩
    intro created
    rcases created with _ | userId
    · trivial
    · apply obeys_harmless
      exact (sends_createAndSend _ _ _ _ _).bind fun _ => trivial

/-- A user that is found stays in the history of what follows. -/
theorem obeys_findUserByEmailOrFail (email : String) :
    (AuthService.findUserByEmailOrFail email).Obeys mayRegister ends
      (Returns fun h' doc => ⟨.findUser email, some doc⟩ ∈ h') h := by
  apply Obeys.send trivial
  intro found
  rcases found with _ | doc
  · trivial
  · exact List.mem_cons_self

theorem sends_wasVerified (userId : ℕ) (code : String) (purpose : OtpPurpose) :
    (OtpService.wasVerified userId code purpose).Sends Harmless := by
  apply Sends.send
  · exact fun _ => trivial
  intro now
  apply Sends.send
  · exact fun _ => trivial
  · exact fun _ => trivial

theorem obeys_setPassword (call : ℕ) (email code password : String) :
    (AuthService.setPassword call email code password).Obeys mayRegister ends
      (Returns fun _ _ => True) h := by
  apply (obeys_findUserByEmailOrFail email).bindReturns
  rintro h₁ ⟨userId, user⟩ hfound
  apply (obeys_harmless_from (sends_wasVerified userId code .emailVerification)).bindReturns
  intro h₂ verified hsuffix
  have hfound₂ := hsuffix.subset hfound
  split
  · trivial
  -- the account is activated, whatever it was before
  have hmay : mayRegister h₂ (.saveUser userId
      (AuthService.activation user (hashPassword call password))) := by
    refine ⟨⟨email, user, hfound₂⟩, ?_, ?_⟩
    · by_cases hactive : user.status = .active <;> simp [AuthService.activation, hactive]
    · by_cases hmail : user.emailVerified <;> simp [AuthService.activation, hmail]
  apply Obeys.send hmay
  intro saved
  apply Obeys.send
  · exact ⟨email, userId, user, hashPassword call password, List.mem_cons_of_mem _ hfound₂,
      List.mem_cons_self, rfl⟩
  · exact fun _ => trivial

theorem obeys_resetPassword (call : ℕ) (email code newPassword : String) :
    (AuthService.resetPassword call email code newPassword).Obeys mayRegister ends
      (Returns fun _ _ => True) h := by
  apply (obeys_findUserByEmailOrFail email).bindReturns
  rintro h₁ ⟨userId, user⟩ hfound
  apply (obeys_harmless_from (sends_validate call userId code .passwordReset)).bindReturns
  intro h₂ otp hsuffix
  apply Obeys.send ⟨⟨email, user, hsuffix.subset hfound⟩, .inl rfl, .inl rfl⟩
  intro saved
  apply obeys_harmless
  apply Sends.send
  · exact fun _ => trivial
  · exact fun _ => trivial

theorem Request.obeys_serve (setting : Setting) (call : ℕ) (r : Request) :
    (r.serve setting call).Obeys mayRegister ends (Returns fun _ _ => True) [] := by
  cases r with
  | register dto => exact obeys_register _ _ dto
  | verifyOtp email code =>
    apply (obeys_findUserByEmailOrFail email).bindReturns
    intro h₁ doc _
    apply obeys_harmless
    exact (sends_validate call doc.1 code .emailVerification).bind fun _ => trivial
  | resendOtp email =>
    apply obeys_harmless
    apply Sends.send
    · exact fun _ => trivial
    intro found
    rcases found with _ | ⟨userId, user⟩
    · trivial
    dsimp only
    split
    · trivial
    · exact (sends_createAndSend _ _ _ _ _).bind fun _ => trivial
  | setPassword email code password => exact obeys_setPassword call email code password
  | forgotPassword email =>
    apply obeys_harmless
    apply Sends.send
    · exact fun _ => trivial
    intro found
    rcases found with _ | ⟨userId, user⟩
    · trivial
    · exact (sends_createAndSend _ _ _ _ _).bind fun _ => trivial
  | resetPassword email code newPassword => exact obeys_resetPassword call email code newPassword

end Protocol

section Accounts
variable {newest : ℕ → NewestFirst} {s s' : Store} {log : AccountLog} {op : AuthOp} {i : ℕ}

/-- A user later on: what its registration says is the same, and what is active stays so. -/
structure User.Later (userId : ℕ) (user user' : User) : Prop where
  registration : AuthService.memberRegistered userId user' =
    AuthService.memberRegistered userId user
  status : user.status = .active → user'.status = .active
  verified : user.emailVerified → user'.emailVerified

theorem User.Later.refl (userId : ℕ) (user : User) : user.Later userId user := ⟨rfl, id, id⟩

/-- Every user is still there. -/
def Store.Continues (s s' : Store) : Prop :=
  ∀ (userId : ℕ) (user : User), s.users[userId]? = some user →
    ∃ user', s'.users[userId]? = some user' ∧ user.Later userId user'

theorem Store.Continues.modify {f : User → User} {userId : ℕ}
    (hf : ∀ (id : ℕ) (user : User), user.Later id (f user)) :
    s.Continues { s with users := s.users.modify userId f } := by
  intro id user huser
  exact getElem?_modify_kept f (R := fun a b => a.Later id b) (User.Later.refl id) (hf id) huser

theorem continues_exec {h : AccountHistory} (hop : mayRegister h op) :
    s.Continues (exec newest op s).2 := by
  have hsame {s' : Store} (h : s'.users = s.users) : s.Continues s' := fun id user huser =>
    ⟨user, by rw [h, huser], .refl id user⟩
  cases op with
  | createUser doc =>
    rw [exec]
    split
    · exact hsame rfl
    · exact fun id user huser => ⟨user, getElem?_append_of_some huser _, .refl id user⟩
  | saveUser userId set =>
    obtain ⟨-, hstatus, hverified⟩ := hop
    refine Store.Continues.modify fun id user => ⟨rfl, fun hactive => ?_, fun hmail => ?_⟩
    · rcases hstatus with hnone | hsome
      · simp [UserUpdate.apply, hnone, hactive]
      · simp [UserUpdate.apply, hsome]
    · rcases hverified with hnone | hsome
      · simp [UserUpdate.apply, hnone, hmail]
      · simp [UserUpdate.apply, hsome]
  | setRefreshToken userId hash => exact Store.Continues.modify fun _ user => ⟨rfl, id, id⟩
  | unsetRefreshToken userId => exact Store.Continues.modify fun _ user => ⟨rfl, id, id⟩
  | _ => exact hsame rfl

theorem of_getElem?_concat {α : Type} {docs : List α} {new doc : α} {j : ℕ}
    (h : (docs ++ [new])[j]? = some doc) : docs[j]? = some doc ∨ (j = docs.length ∧ doc = new) := by
  rw [List.getElem?_append] at h
  split at h
  · exact .inl h
  · rw [List.getElem?_singleton] at h
    split at h
    · exact .inr ⟨by omega, (Option.some.inj h).symm⟩
    · cases h

theorem distinct_exec (h : Distinct s.users) (op : AuthOp) :
    Distinct (exec newest op s).2.users := by
  have hmodify {f : User → User} {userId : ℕ}
      (hf : ∀ user, (f user).email = user.email ∧ (f user).nationalId = user.nationalId) :
      Distinct (s.users.modify userId f) := by
    have hback {j : ℕ} {user : User} (huser : (s.users.modify userId f)[j]? = some user) :
        ∃ old, s.users[j]? = some old ∧ user.email = old.email ∧
          user.nationalId = old.nationalId := by
      rw [List.getElem?_modify] at huser
      obtain ⟨old, hold, rfl⟩ := Option.map_eq_some_iff.mp huser
      by_cases hj : userId = j
      · exact ⟨old, hold, by simp [hj, hf old]⟩
      · exact ⟨old, hold, by simp [hj]⟩
    intro j k user other huser hother hsame
    obtain ⟨old, hold, hemail, hnational⟩ := hback huser
    obtain ⟨old', hold', hemail', hnational'⟩ := hback hother
    exact h j k old old' hold hold' (by rwa [← hemail, ← hemail', ← hnational, ← hnational'])
  cases op with
  | createUser doc =>
    rw [exec]
    split
    · exact h
    · rename_i hrefuses
      have hnew {j : ℕ} {user : User} (huser : s.users[j]? = some user) :
          ¬(user.email = doc.email ∨ user.nationalId = doc.nationalId) := fun hsame =>
        hrefuses ⟨user, List.mem_of_getElem? huser, hsame⟩
      intro j k user other huser hother hsame
      rcases of_getElem?_concat huser with hold | ⟨hj, hdoc⟩
      · rcases of_getElem?_concat hother with hold' | ⟨hk, hdoc'⟩
        · exact h j k user other hold hold' hsame
        · exact absurd (hdoc' ▸ hsame) (hnew hold)
      · rcases of_getElem?_concat hother with hold' | ⟨hk, hdoc'⟩
        · exact absurd ((hdoc ▸ hsame).imp Eq.symm Eq.symm) (hnew hold')
        · rw [hj, hk]
  | saveUser userId set => exact hmodify fun _ => ⟨rfl, rfl⟩
  | setRefreshToken userId hash => exact hmodify fun _ => ⟨rfl, rfl⟩
  | unsetRefreshToken userId => exact hmodify fun _ => ⟨rfl, rfl⟩
  | _ => exact h

/-- The event is the registration of an account that is active. -/
def Store.Registers (s : Store) (event : MemberRegisteredEvent) : Prop :=
  ∃ (userId : ℕ) (user : User), s.users[userId]? = some user ∧ user.Activated ∧
    event = AuthService.memberRegistered userId user

/-- What was read and saved of a user holds of it, and every event registers an account. -/
structure Enrolled (s : Store) (log : AccountLog) : Prop where
  distinct : Distinct s.users
  found : ∀ k email userId user, ⟨k, .findUser email, some (userId, user)⟩ ∈ log →
    ∃ user', s.users[userId]? = some user' ∧ user.Later userId user'
  saved : ∀ k userId set, ⟨k, .saveUser userId set, ()⟩ ∈ log →
    ∃ user', s.users[userId]? = some user' ∧ (set.status = some .active → user'.status = .active) ∧
      (set.emailVerified = some true → user'.emailVerified)
  emitted : ∀ event ∈ s.memberOutbox, s.Registers event

theorem Store.Registers.continues {event : MemberRegisteredEvent} (h : s.Registers event)
    (hs : s.Continues s') : s'.Registers event := by
  obtain ⟨userId, user, huser, ⟨hactive, hverified⟩, rfl⟩ := h
  obtain ⟨user', huser', hlater⟩ := hs userId user huser
  exact ⟨userId, user', huser', ⟨hlater.status hactive, hlater.verified hverified⟩,
    hlater.registration.symm⟩

/-- An event is emitted of a user whose activation was saved. -/
theorem Enrolled.registers (h : Enrolled s log) {email : String} {userId : ℕ} {user : User}
    {hash : Hash} (hfound : ⟨i, .findUser email, some (userId, user)⟩ ∈ log)
    (hsaved : ⟨i, .saveUser userId (AuthService.activation user hash), ()⟩ ∈ log) :
    s.Registers (AuthService.memberRegistered userId user) := by
  obtain ⟨user', huser', hlater⟩ := h.found i email userId user hfound
  obtain ⟨user'', huser'', hactive, hverified⟩ := h.saved i userId _ hsaved
  obtain rfl := Option.some.inj (huser'.symm.trans huser'')
  refine ⟨userId, user', huser', ⟨?_, ?_⟩, hlater.registration.symm⟩
  · by_cases hold : user.status = .active
    · exact hlater.status hold
    · exact hactive (by simp [AuthService.activation, hold])
  · by_cases hold : user.emailVerified
    · exact hlater.verified hold
    · exact hverified (by simp [AuthService.activation, hold])

theorem outbox_exec {event : MemberRegisteredEvent}
    (h : event ∈ (exec newest op s).2.memberOutbox) :
    event ∈ s.memberOutbox ∨ op = .emitMemberRegistered event := by
  cases op with
  | emitMemberRegistered new =>
    rcases List.mem_append.mp h with h | h
    · exact .inl h
    · obtain rfl := List.mem_singleton.mp h
      exact .inr rfl
  | createUser doc =>
    rw [exec] at h
    split at h <;> exact .inl h
  | _ => exact .inl h

theorem Enrolled.exec (h : Enrolled s log) (hop : mayRegister (own i log) op) :
    Enrolled (exec newest op s).2 (⟨i, op, (exec newest op s).1⟩ :: log) := by
  have hcontinues : s.Continues (Auth.exec newest op s).2 := continues_exec hop
  refine ⟨distinct_exec h.distinct op, ?_, ?_, ?_⟩
  · intro k email userId user hentry
    rcases List.mem_cons.mp hentry with hnew | hentry
    · rw [Entry.mk.injEq] at hnew
      obtain ⟨rfl, hnew⟩ := hnew
      obtain ⟨rfl, hreply⟩ := reaction_eq hnew.symm
      have hfind : findOne s.users (fun user => user.email = email) = some (userId, user) := hreply
      exact hcontinues userId user (findOne_some hfind).1
    · obtain ⟨user', huser', hlater⟩ := h.found k email userId user hentry
      obtain ⟨user'', huser'', hlater'⟩ := hcontinues userId user' huser'
      exact ⟨user'', huser'', hlater'.registration.trans hlater.registration,
        hlater'.status ∘ hlater.status, hlater'.verified ∘ hlater.verified⟩
  · intro k userId set hentry
    rcases List.mem_cons.mp hentry with hnew | hentry
    · rw [Entry.mk.injEq] at hnew
      obtain ⟨rfl, hnew⟩ := hnew
      obtain ⟨rfl, -⟩ := reaction_eq hnew.symm
      obtain ⟨⟨email, user, hfound⟩, -⟩ := hop
      obtain ⟨user', huser', -⟩ := h.found k email userId user (mem_own.mp hfound)
      refine ⟨set.apply user', ?_, ?_, ?_⟩
      · simp [Auth.exec, huser']
      · intro hactive
        simp [UserUpdate.apply, hactive]
      · intro hverified
        simp [UserUpdate.apply, hverified]
    · obtain ⟨user', huser', hactive, hverified⟩ := h.saved k userId set hentry
      obtain ⟨user'', huser'', hlater⟩ := hcontinues userId user' huser'
      exact ⟨user'', huser'', hlater.status ∘ hactive, hlater.verified ∘ hverified⟩
  · intro event hevent
    rcases outbox_exec hevent with hold | rfl
    · exact (h.emitted event hold).continues hcontinues
    · obtain ⟨email, userId, user, hash, hfound, hsaved, rfl⟩ := hop
      exact (h.registers (mem_own.mp hfound) (mem_own.mp hsaved)).continues hcontinues

end Accounts

section Run
variable {setting : Setting} {store : Store} {requests : ℕ → Request}

theorem enrolled_run (hstore : Distinct store.users) (sched : AccountSchedule) :
    Enrolled ((AccountState.start setting store requests).run (backend setting) sched).store
      ((AccountState.start setting store requests).run (backend setting) sched).log := by
  refine (Config.run_invariant (A := ⟨fun _ _ _ _ _ => True, fun _ => True⟩) (P := accountProtocol)
    (fun _ _ _ _ _ _ => trivial) (fun _ _ _ _ _ hI hmay _ => hI.exec hmay)
    (fun s log x hI _ => ?_) (Config.conforms_start fun i => (requests i).obeys_serve setting i) ?_
    sched (Assumption.along_of_forall _ _ (fun _ _ _ _ _ => trivial) (fun _ => trivial) _ _)).2
  · cases x
    exact ⟨hI.distinct, hI.found, hI.saved, hI.emitted⟩
  · exact ⟨hstore, fun _ _ _ _ h => (by cases h), fun _ _ _ h => (by cases h),
      fun _ h => (by cases h)⟩

end Run

/-- Events that speak of one account in one way. -/
def Consistent (events : List MemberRegisteredEvent) : Prop :=
  ∀ event ∈ events, ∀ other ∈ events, event.userId = other.userId ∨ event.email = other.email ∨
    event.nationalId = other.nationalId → event = other

theorem Enrolled.consistent {s : Store} {log : AccountLog} (h : Enrolled s log) :
    Consistent s.memberOutbox := by
  intro event hevent other hother hsame
  obtain ⟨userId, user, huser, -, rfl⟩ := h.emitted event hevent
  obtain ⟨userId', user', huser', -, rfl⟩ := h.emitted other hother
  obtain rfl : userId = userId' := by
    rcases hsame with hid | hsame
    · exact append_number_inj (congrArg (fun text => "" ++ ":" ++ text) hid)
    · exact h.distinct userId userId' user user' huser huser' hsame
  rw [Option.some.inj (huser.symm.trans huser')]

end StockMarket.Auth

namespace StockMarket.Members
open Interleaving Prog
open Auth (Consistent AccountState AccountSchedule)
open Trading (Trader Traders Misses)

section Protocol
variable {h : ProfileHistory} {r : ProfileRequest}

/-- Only a registration that is consumed creates a member, and no trader is found by what
the others emit. -/
def mayCreate (r : ProfileRequest) (_ : ProfileHistory) : ProfileOp → Prop
  | .member (.createMember memberId doc) =>
      ∃ event, r = .registered event ∧ memberId = event.userId ∧ doc = event.member
  | .member (.emit event) => ∀ memberId, Misses memberId event
  | _ => True

/-- A registration that is consumed has tried to create its member. -/
def Tried (r : ProfileRequest) (h : ProfileHistory) : Prop :=
  ∀ event, r = .registered event →
    ∃ created, ⟨.member (.createMember event.userId event.member), created⟩ ∈ h

def registrationProtocol (requests : ℕ → ProfileRequest) :
    Protocol ℕ ProfileOp ProfileOp.Reply Exception (Option Member) where
  may i := mayCreate (requests i)
  ends _ _ _ := True
  post i := Returns fun h _ => Tried (requests i) h

def Common (op : ProfileOp) : Prop := ∀ r h, mayCreate r h op

theorem sends_findOrFail (memberId : String) :
    (MemberService.findOrFail memberId).Sends fun op => Common (.member op) := by
  apply Sends.send
  · exact fun _ _ => trivial
  intro found
  cases found with
  | none => trivial
  | some member => trivial

theorem sends_decided {set : MemberUpdate} {memberId : String} {event : MemberEvent}
    {member : Member} (hevent : ∀ memberId, Misses memberId event) :
    (do
      query (.saveMember memberId set)
      CacheService.del (RedisKeys.memberProfile memberId)
      query (.emit event)
      pure (set.apply member) : Call Member).Sends fun op => Common (.member op) := by
  apply Sends.send
  · exact fun _ _ => trivial
  intro saved
  have hdel : (CacheService.del (RedisKeys.memberProfile memberId)).Sends
      fun op => Common (.member op) := by
    apply Sends.catching
    · exact sends_send fun _ _ => trivial
    · exact fun _ => trivial
  apply hdel.bind
  intro deleted
  apply Sends.send
  · exact fun _ _ => hevent
  · exact fun _ => trivial

theorem sends_serve (request : Request) :
    request.serve.Sends fun op => Common (.member op) := by
  cases request with
  | suspendMember memberId dto =>
    apply (sends_findOrFail memberId).bind
    intro member
    split
    · trivial
    · exact sends_decided fun _ => rfl
  | unsuspendMember memberId =>
    apply (sends_findOrFail memberId).bind
    intro member
    split
    · trivial
    · exact sends_decided fun _ => rfl
  | updateKyc memberId dto =>
    rw [Request.serve, MemberService.updateKyc]
    split
    · trivial
    · apply (sends_findOrFail memberId).bind
      intro member
      exact sends_decided fun _ => rfl

theorem sends_cachedMember (missing memberId : String) :
    (MemberService.cachedMember missing memberId).Sends Common := by
  have hread : (MemberService.readMember missing memberId).Sends Common := by
    apply Sends.send
    · exact fun _ _ => trivial
    intro found
    cases found with
    | none => trivial
    | some member =>
      have hset : (CacheService.set (RedisKeys.memberProfile memberId) member).Sends Common := by
        apply Sends.catching
        · exact sends_send fun _ _ => trivial
        · exact fun _ => trivial
      exact hset.bind fun _ => trivial
  have hget : (CacheService.get (RedisKeys.memberProfile memberId)).Sends Common := by
    apply Sends.catching
    · exact sends_send fun _ _ => trivial
    · exact fun _ => trivial
  apply hget.bind
  intro cached
  cases cached with
  | none => exact hread
  | some member => trivial

theorem sends_updateProfile (userId : String) (dto : UpdateMemberDto) :
    (MemberService.updateProfile userId dto).Sends Common := by
  rw [MemberService.updateProfile]
  split
  · trivial
  apply Sends.send
  · exact fun _ _ => trivial
  intro found
  cases found with
  | none => trivial
  | some member =>
    have hdel : (lift (CacheService.del (RedisKeys.memberProfile userId))).Sends Common := by
      rw [lift_del]
      apply Sends.catching
      · exact sends_send fun _ _ => trivial
      · exact fun _ => trivial
    exact hdel.bind fun _ => trivial

theorem obeys_common {p : ProfileCall (Option Member)} (hp : p.Sends Common)
    (hr : ∀ event, r ≠ .registered event) :
    p.Obeys (mayCreate r) (fun _ _ => True) (Returns fun h _ => Tried r h) h := by
  refine (Obeys.of_sends hp fun h op hop => hop r h).mono ?_
  intro _ res _
  rcases res with e | answer
  · trivial
  · exact fun event hevent => absurd hevent (hr event)

theorem ProfileRequest.obeys_registration (r : ProfileRequest) :
    r.serve.Obeys (mayCreate r) (fun _ _ => True) (Returns fun h _ => Tried r h) [] := by
  cases r with
  | getProfile userId =>
    exact obeys_common ((sends_cachedMember _ userId).bind fun _ => trivial) (by rintro _ ⟨⟩)
  | getMemberById memberId =>
    exact obeys_common ((sends_cachedMember _ memberId).bind fun _ => trivial) (by rintro _ ⟨⟩)
  | updateProfile userId dto =>
    exact obeys_common ((sends_updateProfile userId dto).bind fun _ => trivial) (by rintro _ ⟨⟩)
  | decide request =>
    have hlift : (lift request.serve).Sends Common := by
      apply Sends.substitute (fun op => ask (.member op)) (sends_serve request)
      intro op hop
      exact sends_send hop
    exact obeys_common (hlift.bind fun _ => trivial) (by rintro _ ⟨⟩)
  | registered event =>
    rw [ProfileRequest.serve, lift, MemberRegisteredConsumer.handle, substitute_bind,
      substitute_send, bind_bind]
    apply Obeys.send ⟨event, rfl, rfl, rfl⟩
    rintro created _ ⟨⟩
    exact ⟨created, List.mem_cons_self⟩

end Protocol

section Mirrors
variable {events : List MemberRegisteredEvent} {s : Store} {memberId : String} {member : Member}

/-- The member is the one the event registers, except for what may change later. -/
structure MemberRegisteredEvent.Registers (event : MemberRegisteredEvent) (memberId : String)
    (member : Member) : Prop where
  userId : event.userId = memberId
  email : event.email = member.email
  nationalId : event.nationalId = member.nationalId
  dateOfBirth : event.dateOfBirth = member.dateOfBirth

/-- A member that is there was there before, as the same person, or has just been created. -/
theorem of_lookup_execProfile {op : ProfileOp}
    (h : (execProfile op s).2.members.lookup memberId = some member) :
    (∃ old, s.members.lookup memberId = some old ∧ old.email = member.email ∧
      old.nationalId = member.nationalId ∧ old.dateOfBirth = member.dateOfBirth) ∨
      op = .member (.createMember memberId member) := by
  have hinsert {other : String} {old new : Member} (hold : s.members.lookup other = some old)
      (hsame : old.email = new.email ∧ old.nationalId = new.nationalId ∧
        old.dateOfBirth = new.dateOfBirth)
      (h : (s.members.insert other new).lookup memberId = some member) :
      ∃ old, s.members.lookup memberId = some old ∧ old.email = member.email ∧
        old.nationalId = member.nationalId ∧ old.dateOfBirth = member.dateOfBirth := by
    by_cases hother : memberId = other
    · subst other
      rw [AList.lookup_insert] at h
      obtain rfl := Option.some.inj h
      exact ⟨old, hold, hsame⟩
    · rw [AList.lookup_insert_ne hother] at h
      exact ⟨member, h, rfl, rfl, rfl⟩
  cases op with
  | member op =>
    cases op with
    | createMember other doc =>
      simp only [execProfile, exec] at h
      split at h
      · exact .inl ⟨member, h, rfl, rfl, rfl⟩
      · by_cases hother : memberId = other
        · subst other
          rw [AList.lookup_insert] at h
          obtain rfl := Option.some.inj h
          exact .inr rfl
        · rw [AList.lookup_insert_ne hother] at h
          exact .inl ⟨member, h, rfl, rfl, rfl⟩
    | saveMember other set =>
      simp only [execProfile, exec] at h
      split at h
      · rename_i old hold
        have hsame : old.email = (set.apply old).email ∧
            old.nationalId = (set.apply old).nationalId ∧
            old.dateOfBirth = (set.apply old).dateOfBirth := ⟨rfl, rfl, rfl⟩
        exact .inl (hinsert hold hsame h)
      · exact .inl ⟨member, h, rfl, rfl, rfl⟩
    | _ => exact .inl ⟨member, h, rfl, rfl, rfl⟩
  | updateMember other dto =>
    simp only [execProfile] at h
    split at h
    · rename_i old hold
      have hsame : old.email = (dto.apply old).email ∧
          old.nationalId = (dto.apply old).nationalId ∧
          old.dateOfBirth = (dto.apply old).dateOfBirth := ⟨rfl, rfl, rfl⟩
      exact .inl (hinsert hold hsame h)
    · exact .inl ⟨member, h, rfl, rfl, rfl⟩
  | _ => exact .inl ⟨member, h, rfl, rfl, rfl⟩

/-- Every member comes from an event, every event that was tried has its member, and no
trader is found by what was emitted. -/
structure Mirrors (events : List MemberRegisteredEvent) (s : Store)
    (log : List (Entry ℕ ProfileOp ProfileOp.Reply)) : Prop where
  stored : ∀ memberId member, s.members.lookup memberId = some member →
    ∃ event ∈ events, event.Registers memberId member
  tried : ∀ event ∈ events, ∀ i created,
    ⟨i, .member (.createMember event.userId event.member), created⟩ ∈ log →
      ∃ member, s.members.lookup event.userId = some member
  missed : ∀ event ∈ s.outbox, ∀ memberId, Misses memberId event

/-- A consistent registration finds its member there, or creates it. -/
theorem Mirrors.lookup_createMember {log : List (Entry ℕ ProfileOp ProfileOp.Reply)}
    (h : Mirrors events s log) (hevents : Consistent events) {event : MemberRegisteredEvent}
    (hevent : event ∈ events) : ∃ member, (execProfile (.member (.createMember event.userId
      event.member)) s).2.members.lookup event.userId = some member := by
  simp only [execProfile, exec]
  split
  · rename_i hrefuses
    rcases refuses_iff.mp hrefuses with hthere | ⟨other, member, hmember, hsame⟩
    · exact Option.isSome_iff_exists.mp hthere
    · obtain ⟨event', hevent', hregisters⟩ := h.stored other member hmember
      have heq : event' = event := hevents event' hevent' event hevent
        (.inr (by rw [hregisters.email, hregisters.nationalId]; exact hsame))
      exact ⟨member, by rw [← heq, hregisters.userId, hmember]⟩
  · exact ⟨event.member, AList.lookup_insert _⟩

theorem outbox_execProfile {op : ProfileOp} {event : MemberEvent}
    (h : event ∈ (execProfile op s).2.outbox) :
    event ∈ s.outbox ∨ op = .member (.emit event) := by
  cases op with
  | member op =>
    cases op with
    | emit new =>
      rcases List.mem_append.mp h with h | h
      · exact .inl h
      · obtain rfl := List.mem_singleton.mp h
        exact .inr rfl
    | createMember memberId doc =>
      simp only [execProfile, exec] at h
      split at h <;> exact .inl h
    | saveMember memberId set =>
      simp only [execProfile, exec] at h
      split at h <;> exact .inl h
    | _ => exact .inl h
  | updateMember memberId dto =>
    simp only [execProfile] at h
    split at h <;> exact .inl h
  | _ => exact .inl h

theorem Mirrors.exec {log : List (Entry ℕ ProfileOp ProfileOp.Reply)} (h : Mirrors events s log)
    (hevents : Consistent events) {r : ProfileRequest}
    (hr : ∀ event, r = .registered event → event ∈ events) {i : ℕ} {op : ProfileOp}
    (hop : mayCreate r (own i log) op) :
    Mirrors events (execProfile op s).2 (⟨i, op, (execProfile op s).1⟩ :: log) := by
  refine ⟨?_, ?_, ?_⟩
  · intro memberId member hmember
    rcases of_lookup_execProfile hmember with ⟨old, hold, hemail, hnational, hbirth⟩ | rfl
    · obtain ⟨event, hevent, hregisters⟩ := h.stored memberId old hold
      exact ⟨event, hevent, hregisters.userId, hregisters.email.trans hemail,
        hregisters.nationalId.trans hnational, hregisters.dateOfBirth.trans hbirth⟩
    · obtain ⟨event, hregistered, rfl, rfl⟩ := hop
      exact ⟨event, hr event hregistered, rfl, rfl, rfl, rfl⟩
  · intro event hevent k created hentry
    rcases List.mem_cons.mp hentry with hnew | hentry
    · rw [Entry.mk.injEq] at hnew
      obtain ⟨rfl, -⟩ := reaction_eq hnew.2.symm
      exact h.lookup_createMember hevents hevent
    · obtain ⟨member, hmember⟩ := h.tried event hevent k created hentry
      obtain ⟨member', hmember', -⟩ := lookup_execProfile op hmember
      exact ⟨member', hmember'⟩
  · intro event hevent
    rcases outbox_execProfile hevent with hold | rfl
    · exact h.missed event hold
    · exact hop

end Mirrors

section Run
variable {events : List MemberRegisteredEvent} {store : Store} {requests : ℕ → ProfileRequest}

/-- The user service before any registration. -/
structure Store.Fresh (s : Store) : Prop where
  members : s.members = ∅
  outbox : s.outbox = []

theorem mirrors_run (hstore : store.Fresh) (hevents : Consistent events)
    (hrequests : ∀ i event, requests i = .registered event → event ∈ events)
    (sched : ProfileSchedule) :
    let c := (ProfileState.start store requests).run profileBackend sched
    c.Conforms (registrationProtocol requests) ∧ Mirrors events c.store c.log := by
  refine Config.run_invariant (A := anyProfileSchedule) (P := registrationProtocol requests)
    (fun _ _ _ _ _ _ => trivial)
    (fun x l i op _ hI hmay _ => hI.exec hevents (fun event => hrequests i event) hmay)
    (fun x l y hI _ => ⟨hI.stored, hI.tried, hI.missed⟩)
    (Config.conforms_start fun i => (requests i).obeys_registration) ?_ sched
    (Assumption.along_of_forall _ _ (fun _ _ _ _ _ => trivial) (fun _ => trivial) _ _)
  refine ⟨?_, fun _ _ _ _ hentry => (by cases hentry), ?_⟩
  · intro memberId member hmember
    have hnone : (∅ : AList fun _ : String => Member).lookup memberId = some member :=
      hstore.members ▸ hmember
    cases hnone
  · intro event hevent
    have hnone : event ∈ ([] : List MemberEvent) := hstore.outbox ▸ hevent
    cases hnone

end Run

section Copies
variable {events seen : List MemberRegisteredEvent} {traders : Traders} {fresh : ℕ → String}

/-- The document the trading service makes of a registration. -/
def MemberRegisteredEvent.trader (event : MemberRegisteredEvent) : Trader where
  fullName := event.fullName
  email := event.email
  status := .active
  kycStatus := .pending

/-- The traders are those of the registrations. -/
def Copies (seen : List MemberRegisteredEvent) (traders : Traders) : Prop :=
  ∀ memberId trader, traders.lookup memberId = some trader ↔
    ∃ event ∈ seen, event.userId = memberId ∧ trader = event.trader

/-- A registration adds its own trader, or writes it again. -/
theorem Copies.registered (h : Copies seen traders) (hevents : Consistent events)
    (hseen : seen ⊆ events) {event : MemberRegisteredEvent} (hevent : event ∈ events)
    (made : String) : Copies (event :: seen)
      (Trading.MemberEventConsumer.handle made (.registered event) traders) := by
  have hrefuses : ¬traders.Refuses event.userId event.email := by
    rintro ⟨⟨other, trader⟩, hentry, hne, hemail⟩
    obtain ⟨event', hevent', hid, rfl⟩ := (h other trader).mp (AList.mem_lookup_iff.mpr hentry)
    have heq : event' = event := hevents event' (hseen hevent') event hevent (.inr (.inl hemail))
    exact hne (hid.symm.trans (by rw [heq]))
  intro memberId trader
  by_cases hid : event.userId = memberId
  · subst hid
    rw [Trading.lookup_handle_registered made event hrefuses, Option.some.injEq]
    constructor
    · rintro rfl
      exact ⟨event, List.mem_cons_self, rfl, rfl⟩
    · rintro ⟨event', hevent', hsame, rfl⟩
      rcases List.mem_cons.mp hevent' with rfl | hevent'
      · rfl
      · rw [hevents event' (hseen hevent') event hevent (.inl hsame)]
        rfl
  · rw [Trading.MemberEventConsumer.handle, Trading.TraderService.upsertFromRegistration,
      if_neg hrefuses, AList.lookup_insert_ne (Ne.symm hid), h memberId trader]
    simp [hid]

/-- An event that no trader is found by leaves them all. -/
theorem Copies.missed (h : Copies seen traders) {event : MemberEvent}
    (hevent : ∀ memberId, Misses memberId event) {made : String}
    (hmade : ∀ event ∈ seen, made ≠ event.userId) :
    Trading.MemberEventConsumer.handle made event traders = traders := by
  have hnone : traders.lookup made = none := by
    refine Option.eq_none_iff_forall_ne_some.mpr ?_
    intro trader htrader
    obtain ⟨event', hevent', hid, -⟩ := (h made trader).mp htrader
    exact hmade event' hevent' hid.symm
  have hfind (set : Trader → Trader) : traders.findByIdAndUpdate made set = traders := by
    rw [Traders.findByIdAndUpdate, hnone]
  cases event with
  | registered event => exact absurd rfl (hevent event.userId)
  | suspended ids reason =>
    rw [Trading.MemberEventConsumer.handle, show ids.memberId = none from hevent made]
    exact hfind _
  | activated ids =>
    rw [Trading.MemberEventConsumer.handle, show ids.memberId = none from hevent made]
    exact hfind _
  | kycUpdated ids kycStatus reason =>
    rw [Trading.MemberEventConsumer.handle, show ids.memberId = none from hevent made]
    exact hfind _

theorem Copies.handleAll (h : Copies seen traders) (hevents : Consistent events)
    (hseen : seen ⊆ events) (hfresh : ∀ n, ∀ event ∈ events, fresh n ≠ event.userId)
    {delivered : List MemberEvent} (hdelivered : ∀ event ∈ delivered,
      (∃ registration ∈ events, event = .registered registration) ∨
        ∀ memberId, Misses memberId event) (n : ℕ) (memberId : String) (trader : Trader) :
    (Trading.MemberEventConsumer.handleAll fresh n delivered traders).lookup memberId =
        some trader ↔
      ∃ event, (event ∈ seen ∨ .registered event ∈ delivered) ∧ event.userId = memberId ∧
        trader = event.trader := by
  induction delivered generalizing seen traders n with
  | nil => simpa [Trading.MemberEventConsumer.handleAll] using h memberId trader
  | cons event delivered ih =>
    have hdelivered' := fun event' h => hdelivered event' (List.mem_cons_of_mem _ h)
    rw [Trading.MemberEventConsumer.handleAll]
    rcases hdelivered event List.mem_cons_self with ⟨registration, hregistration, rfl⟩ | hmisses
    · rw [ih (h.registered hevents hseen hregistration _)
        (List.cons_subset.mpr ⟨hregistration, hseen⟩) hdelivered']
      simp only [List.mem_cons, MemberEvent.registered.injEq, or_assoc, or_left_comm]
    · rw [h.missed hmisses fun event' hevent' => hfresh n event' (hseen hevent'),
        ih h hseen hdelivered']
      have hne (registration : MemberRegisteredEvent) : .registered registration ≠ event := by
        rintro rfl
        exact hmisses registration.userId rfl
      simp only [List.mem_cons, hne, false_or]

/-- A trading service that has started from nothing. -/
theorem lookup_delivered (hevents : Consistent events)
    (hfresh : ∀ n, ∀ event ∈ events, fresh n ≠ event.userId) {delivered : List MemberEvent}
    (hdelivered : ∀ event ∈ delivered,
      (∃ registration ∈ events, event = .registered registration) ∨
        ∀ memberId, Misses memberId event) (n : ℕ) (memberId : String) (trader : Trader) :
    (Trading.MemberEventConsumer.handleAll fresh n delivered ∅).lookup memberId = some trader ↔
      ∃ event, .registered event ∈ delivered ∧ event.userId = memberId ∧
        trader = event.trader := by
  have hempty : Copies [] (∅ : Traders) := fun memberId trader => by simp
  rw [hempty.handleAll hevents (List.nil_subset _) hfresh hdelivered]
  simp

end Copies

section Accounts
variable {setting : Auth.Setting} {accounts : Auth.Store} {calls : ℕ → Auth.Request}
  {store : Store} {requests : ℕ → ProfileRequest}

/-- The registrations that are consumed have been emitted. -/
def Consumes (emitted : List MemberRegisteredEvent) (requests : ℕ → ProfileRequest) : Prop :=
  ∀ i event, requests i = .registered event → event ∈ emitted

/-- Every member is an active account of the auth service with the same identity, and a
registration that has been consumed has its member. Nothing is assumed of the order of the
registrations, of how often they are delivered, or of the calls beside them. -/
theorem members_are_accounts (haccounts : Auth.Distinct accounts.users)
    (sched : AccountSchedule) (hstore : store.Fresh)
    (hconsumes : Consumes ((AccountState.start setting accounts calls).run
      (Auth.backend setting) sched).store.memberOutbox requests) (sched' : ProfileSchedule) :
    let users := ((AccountState.start setting accounts calls).run (Auth.backend setting)
      sched).store.users
    let c := (ProfileState.start store requests).run profileBackend sched'
    (∀ memberId member, c.store.members.lookup memberId = some member →
      ∃ (userId : ℕ) (user : Auth.User), memberId = toString userId ∧
        users[userId]? = some user ∧ user.Activated ∧ member.email = user.email ∧
        member.nationalId = user.nationalId ∧ member.dateOfBirth = user.dateOfBirth) ∧
    ∀ i event, requests i = .registered event → ∀ answer, c.result i = some (.ok answer) →
      ∃ member, c.store.members.lookup event.userId = some member := by
  intro users c
  have henrolled := @Auth.enrolled_run setting accounts calls haccounts sched
  obtain ⟨hconforms, hmirrors⟩ :=
    mirrors_run hstore henrolled.consistent hconsumes sched'
  refine ⟨?_, ?_⟩
  · intro memberId member hmember
    obtain ⟨event, hevent, hregisters⟩ := hmirrors.stored memberId member hmember
    obtain ⟨userId, user, huser, hactivated, rfl⟩ := henrolled.emitted event hevent
    exact ⟨userId, user, hregisters.userId.symm, huser, hactivated, hregisters.email.symm,
      hregisters.nationalId.symm, hregisters.dateOfBirth.symm⟩
  · intro i event hi answer hresult
    obtain ⟨created, htried⟩ := hconforms.returned hresult event hi
    exact hmirrors.tried event (hconsumes i event hi) i created (mem_own.mp htried)

/-- The traders are those of the registrations delivered to the trading service, active and
with KYC pending, whatever else it is sent from the user service. -/
theorem traders_are_registrations (haccounts : Auth.Distinct accounts.users)
    (sched : AccountSchedule) (hstore : store.Fresh)
    (hconsumes : Consumes ((AccountState.start setting accounts calls).run
      (Auth.backend setting) sched).store.memberOutbox requests) (sched' : ProfileSchedule)
    (delivered : List MemberEvent) (fresh : ℕ → String)
    (hfresh : ∀ n (userId : ℕ), fresh n ≠ toString userId)
    (hdelivered : ∀ event ∈ delivered,
      (∃ registration ∈ ((AccountState.start setting accounts calls).run (Auth.backend setting)
        sched).store.memberOutbox, event = .registered registration) ∨
      event ∈ ((ProfileState.start store requests).run profileBackend sched').store.outbox)
    (n : ℕ) (memberId : String) (trader : Trader) :
    (Trading.MemberEventConsumer.handleAll fresh n delivered ∅).lookup memberId = some trader ↔
      ∃ event, .registered event ∈ delivered ∧ event.userId = memberId ∧
        trader = event.trader := by
  have henrolled := @Auth.enrolled_run setting accounts calls haccounts sched
  obtain ⟨-, hmirrors⟩ := mirrors_run hstore henrolled.consistent hconsumes sched'
  refine lookup_delivered henrolled.consistent ?_
    (fun event hevent => (hdelivered event hevent).imp_right (hmirrors.missed event)) n memberId
    trader
  intro n event hevent
  obtain ⟨userId, user, -, -, rfl⟩ := henrolled.emitted event hevent
  exact hfresh n userId

end Accounts

section Example

def joins : ℕ → Auth.Request
  | 0 => .register Auth.newcomer
  | 1 => .verifyOtp "one@example.com" "000000"
  | _ => .setPassword "one@example.com" "000000" "Passw0rd!"

def joinSchedule : AccountSchedule :=
  List.replicate 9 (.step 0 .done) ++ List.replicate 9 (.step 1 .done) ++
    List.replicate 9 (.step 2 .done)

def joined : MemberRegisteredEvent where
  userId := "0"
  fullName := "Member One"
  email := "one@example.com"
  nationalId := "12345"
  dateOfBirth := ⟨1995, 6, 15⟩

/-- The registration comes twice, with a suspension beside it. -/
def comesTwice : ℕ → ProfileRequest
  | 0 => .registered joined
  | 1 => .registered joined
  | _ => .decide (.suspendMember "0" ⟨some "audit"⟩)

def comeSchedule : ProfileSchedule :=
  .step 0 .done :: List.replicate 4 (.step 2 .done) ++ [.step 1 .done]

theorem distinct_nil : Auth.Distinct [] := fun _ _ _ _ h => by cases h

theorem emptyStore_fresh : emptyStore.Fresh := ⟨rfl, rfl⟩

theorem consumes_joined : Consumes ((AccountState.start Auth.sample
    (Auth.opening [] 1709164800000) joins).run (Auth.backend Auth.sample)
      joinSchedule).store.memberOutbox comesTwice := by
  have hemitted : joined ∈ ((AccountState.start Auth.sample (Auth.opening [] 1709164800000)
      joins).run (Auth.backend Auth.sample) joinSchedule).store.memberOutbox := by decide +kernel
  rintro (_ | _ | i) event h
  · exact ProfileRequest.registered.inj h ▸ hemitted
  · exact ProfileRequest.registered.inj h ▸ hemitted
  · cases h

theorem members_are_accounts_twice :
    ∃ member, ((ProfileState.start emptyStore comesTwice).run profileBackend
      comeSchedule).store.members.lookup "0" = some member :=
  (members_are_accounts distinct_nil joinSchedule emptyStore_fresh consumes_joined
    comeSchedule).2 1 joined rfl none (by decide +kernel)

theorem fresh_ne_number (n userId : ℕ) : "fresh:" ++ toString n ≠ toString userId := by
  intro h
  have hchar : 'f' ∈ Nat.toDigits 10 userId := by
    have hlist : 'f' ∈ (toString userId).toList := by simp [← h]
    rwa [Nat.toString_eq_ofList_toDigits, String.toList_ofList] at hlist
  have hdigit := Nat.isDigit_of_mem_toDigits (by decide) (by decide) hchar
  revert hdigit
  decide

/-- The trader of a suspended member stays active, and is the same after a second delivery. -/
theorem traders_are_registrations_suspended :
    (Trading.MemberEventConsumer.handleAll (fun n => "fresh:" ++ toString n) 0
      [.registered joined, .suspended ⟨some "0", none⟩ (some "audit"), .registered joined]
      ∅).lookup "0" = some joined.trader := by
  refine (traders_are_registrations distinct_nil joinSchedule emptyStore_fresh consumes_joined
    comeSchedule _ _ fresh_ne_number ?_ 0 "0" joined.trader).mpr
      ⟨joined, List.mem_cons_self, rfl, rfl⟩
  have hemitted := consumes_joined 0 joined rfl
  have hsuspended : .suspended ⟨some "0", none⟩ (some "audit") ∈ ((ProfileState.start emptyStore
      comesTwice).run profileBackend comeSchedule).store.outbox := by decide +kernel
  simp only [List.forall_mem_cons, List.not_mem_nil, false_imp_iff, implies_true, and_true]
  exact ⟨.inl ⟨joined, hemitted, rfl⟩, .inr hsuspended, .inl ⟨joined, hemitted, rfl⟩⟩

end Example
end StockMarket.Members
