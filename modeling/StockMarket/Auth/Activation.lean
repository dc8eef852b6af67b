import StockMarket.Auth.Rotation

/-! # What setting a password does to an account

All requests of the auth service, one after the other. Setting a password asks for a
verified code and nothing else, so it works again, on any account, as long as the code
is vouched for.
-/

namespace StockMarket.Auth
open Interleaving Prog

inductive Operation where
  | account (request : Request)
  | session (request : SessionRequest)
  deriving DecidableEq, Repr

inductive Answer where
  | message (text : String)
  | session (answer : SessionAnswer)
  deriving DecidableEq, Repr

def Operation.serve (setting : SessionSetting) (call : ℕ) : Operation → Call Answer
  | .account r => do
      let text ← r.serve setting.toSetting call
      pure (.message text)
  | .session r => do
      let answer ← r.serve .bcrypt setting call
      pure (.session answer)

abbrev OperationEvent := Event Operation Environment

section Users
variable {n : ℕ} {users : List User}

/-- What the `n`-th call may do to a user: activate the account, and hash a password
with its own salt. -/
structure Carries (n : ℕ) (user later : User) : Prop where
  status : later.status = user.status ∨ later.status = .active
  passwordHash : later.passwordHash = user.passwordHash ∨
    ∃ bytes, later.passwordHash = .bcrypt n bytes

theorem carries_setRefreshToken (hash : Hash) (user : User) :
    Carries n user (user.setRefreshToken hash) := ⟨.inl rfl, .inl rfl⟩

theorem carries_unsetRefreshToken (user : User) : Carries n user user.unsetRefreshToken :=
  ⟨.inl rfl, .inl rfl⟩

theorem carries_activation (found user : User) (password : String) :
    Carries n user ((AuthService.activation found (hashPassword n password)).apply user) := by
  constructor
  · by_cases hactive : found.status = .active
    · left
      simp [AuthService.activation, UserUpdate.apply, hactive]
    · right
      simp [AuthService.activation, UserUpdate.apply, hactive]
  · exact .inr ⟨_, rfl⟩

theorem carries_reset (user : User) (password : String) :
    Carries n user ((UserUpdate.mk (hashPassword n password) none none).apply user) :=
  ⟨.inl rfl, .inr ⟨_, rfl⟩⟩

/-- The passwords were hashed by calls before the `n`-th. -/
def SaltsBefore (n : ℕ) (users : List User) : Prop :=
  ∀ user ∈ users, ∀ salt bytes, user.passwordHash = .bcrypt salt bytes → salt < n

/-- The users as the `n`-th call may leave them: no activated user is pending again, and
what has been hashed, earlier calls or this one have hashed. -/
structure Evolves (n : ℕ) (users later : List User) : Prop where
  left : ∀ (userId : ℕ) (user : User), users[userId]? = some user →
    user.status ≠ .pendingVerification →
      ∃ user', later[userId]? = some user' ∧ user'.status ≠ .pendingVerification
  salts : SaltsBefore n users → SaltsBefore (n + 1) later

theorem Evolves.refl (users : List User) : Evolves n users users where
  left _ user huser hstatus := ⟨user, huser, hstatus⟩
  salts h user huser salt bytes hhash := Nat.lt_succ_of_lt (h user huser salt bytes hhash)

theorem Evolves.concat (users : List User) {doc : User} {content : String}
    (hdoc : doc.passwordHash = .text content) : Evolves n users (users ++ [doc]) := by
  constructor
  · intro userId user huser hstatus
    exact ⟨user, getElem?_append_of_some huser _, hstatus⟩
  · intro h user huser salt bytes hhash
    rcases List.mem_append.mp huser with hold | hnew
    · exact Nat.lt_succ_of_lt (h user hold salt bytes hhash)
    · rw [List.mem_singleton.mp hnew, hdoc] at hhash
      cases hhash

theorem Evolves.modify {later : List User} (h : Evolves n users later) (id : ℕ)
    {f : User → User} (hf : ∀ user, Carries n user (f user)) :
    Evolves n users (later.modify id f) := by
  constructor
  · intro userId user huser hstatus
    obtain ⟨user', huser', hstatus'⟩ := h.left userId user huser hstatus
    by_cases hid : id = userId
    · refine ⟨f user', by simp [hid, huser'], ?_⟩
      rcases (hf user').status with hsame | hactive
      · rw [hsame]
        exact hstatus'
      · rw [hactive]
        decide
    · exact ⟨user', by rw [List.getElem?_modify_ne _ _ hid, huser'], hstatus'⟩
  · intro hsalts user huser salt bytes hhash
    obtain ⟨userId, huser⟩ := List.mem_iff_getElem?.mp huser
    rcases modify_user huser with ⟨-, hstored⟩ | ⟨rfl, old, hold, rfl⟩
    · exact h.salts hsalts user (List.mem_of_getElem? hstored) salt bytes hhash
    · rcases (hf old).passwordHash with hsame | ⟨bytes', hnew⟩
      · exact h.salts hsalts old (List.mem_of_getElem? hold) salt bytes (hsame ▸ hhash)
      · rw [hnew, Hash.bcrypt.injEq] at hhash
        omega

end Users

section Step
variable {setting : SessionSetting} {n : ℕ} {s : Store}

theorem Served.evolves {r : Request} {res : Except Exception String} {s' : Store}
    (h : Served setting.toSetting n s r (res, s')) : Evolves n s.users s'.users := by
  cases h with
  | refused r e => exact .refl _
  | registered dto message hfree => exact .concat _ rfl
  | verified email code message userId otpId user otp huser hotp => exact .refl _
  | resentUnknown email message huser => exact .refl _
  | resent email message userId user huser hunverified => exact .refl _
  | activated email code password message userId otpId user otp huser hotp =>
    exact (Evolves.refl _).modify userId fun _ => carries_activation user _ password
  | forgotUnknown email message huser => exact .refl _
  | forgot email message userId user huser => exact .refl _
  | reset email code newPassword message userId otpId user otp huser hotp =>
    apply Evolves.modify
    · exact (Evolves.refl _).modify userId fun _ => carries_reset _ newPassword
    · exact carries_unsetRefreshToken

theorem SessionServed.evolves {r : SessionRequest} {res : Except Exception SessionAnswer}
    {s' : Store} (h : SessionServed .bcrypt setting n s r (res, s')) :
    Evolves n s.users s'.users := by
  cases h with
  | refused r e he => exact .refl _
  | loggedIn email password userId user huser hverified hactive hpassword =>
    exact (Evolves.refl _).modify userId (carries_setRefreshToken _)
  | refreshed token payload user hash hsession hmatch hactive =>
    exact (Evolves.refl _).modify payload.sub (carries_setRefreshToken _)
  | reused token payload user hash hsession hmatch =>
    exact (Evolves.refl _).modify payload.sub carries_unsetRefreshToken
  | loggedOut userId message =>
    exact (Evolves.refl _).modify userId carries_unsetRefreshToken

theorem run_wrap {α β : Type} (p : Call α) (f : α → β) :
    ((p >>= fun a => pure (f a)).run (exec setting.newest) answered s).2 =
      (p.run (exec setting.newest) answered s).2 := by
  rw [run_bind]
  cases (p.run (exec setting.newest) answered s).1 with
  | ok a => rfl
  | error e => rfl

theorem occur_account (r : Request) :
    ((Event.call (.account r) : OperationEvent).occur (backend setting.toSetting)
        (Operation.serve setting) n s).2 =
      ((r.serve setting.toSetting n).run (exec setting.newest) answered s).2 :=
  run_wrap (r.serve setting.toSetting n) Answer.message

theorem occur_session (r : SessionRequest) :
    ((Event.call (.session r) : OperationEvent).occur (backend setting.toSetting)
        (Operation.serve setting) n s).2 =
      ((r.serve .bcrypt setting n).run (exec setting.newest) answered s).2 :=
  run_wrap (r.serve .bcrypt setting n) Answer.session

theorem evolves_occur (e : OperationEvent) : Evolves n s.users
    (e.occur (backend setting.toSetting) (Operation.serve setting) n s).2.users := by
  cases e with
  | env x =>
    cases x
    exact .refl _
  | call op =>
    cases op with
    | account r =>
      rw [occur_account]
      exact (served setting.toSetting n s r).evolves
    | session r =>
      rw [occur_session]
      exact (sessionServed .bcrypt setting n s r).evolves

end Step

section Runs
variable (setting : SessionSetting) (n : ℕ) (start : Store)

/-- The store after a run whose first event is the `n`-th. -/
def Store.afterOperations (events : List OperationEvent) : Store :=
  Interleaving.after (backend setting.toSetting) (Operation.serve setting) n start events

/-- No call of `setPassword` changes the password or the status of a user whose status
has left pending before. -/
def KeepsActivated (events : List OperationEvent) : Prop :=
  ∀ first second email code password later (userId : ℕ) (user : User), events =
      first ++ second ++ .call (.account (.setPassword email code password)) :: later →
    (start.afterOperations setting n first).users[userId]? = some user →
    user.status ≠ .pendingVerification →
    ∃ old new : User,
      (start.afterOperations setting n (first ++ second)).users[userId]? = some old ∧
      (start.afterOperations setting n (first ++ second ++
        [.call (.account (.setPassword email code password))])).users[userId]? = some new ∧
      new.passwordHash = old.passwordHash ∧ new.status = old.status

/-- Whenever `setPassword` is called for a user whose status is not pending any more, no
used one-time password of the last 15 minutes vouches for the code. -/
def Unvouched (events : List OperationEvent) : Prop :=
  ∀ before email code password later userId user otpId otp,
    events = before ++ .call (.account (.setPassword email code password)) :: later →
    (start.afterOperations setting n before).userOf email = some (userId, user) →
    user.status ≠ .pendingVerification →
    ¬(start.afterOperations setting n before).Vouches userId code otpId otp

end Runs

section Runs
variable {setting : SessionSetting} {n : ℕ} {start : Store}

theorem afterOperations_concat (events : List OperationEvent) (e : OperationEvent) :
    start.afterOperations setting n (events ++ [e]) =
      (e.occur (backend setting.toSetting) (Operation.serve setting) (n + events.length)
        (start.afterOperations setting n events)).2 := by
  rw [Store.afterOperations, after_append]
  rfl

/-- A status that has left pending does not come back to it. -/
theorem left_after {userId : ℕ} {user : User} {first : List OperationEvent}
    (huser : (start.afterOperations setting n first).users[userId]? = some user)
    (hstatus : user.status ≠ .pendingVerification) (second : List OperationEvent) :
    ∃ user', (start.afterOperations setting n (first ++ second)).users[userId]? = some user' ∧
      user'.status ≠ .pendingVerification := by
  induction second using List.reverseRecOn with
  | nil =>
    rw [List.append_nil]
    exact ⟨user, huser, hstatus⟩
  | append_singleton second e ih =>
    obtain ⟨user', huser', hstatus'⟩ := ih
    rw [← List.append_assoc, afterOperations_concat]
    exact (evolves_occur e).left userId user' huser' hstatus'

theorem salts_after (h : SaltsBefore n start.users) (events : List OperationEvent) :
    SaltsBefore (n + events.length) (start.afterOperations setting n events).users := by
  induction events using List.reverseRecOn with
  | nil => exact h
  | append_singleton events e ih =>
    rw [afterOperations_concat, List.length_append]
    exact (evolves_occur e).salts ih

/-- Setting a password changes no user, or the user of the email, for whose code some
one-time password vouches. -/
theorem setPassword_cases (setting : SessionSetting) (n : ℕ) (s : Store)
    (email code password : String) :
    let s' := ((Event.call (.account (.setPassword email code password)) : OperationEvent).occur
      (backend setting.toSetting) (Operation.serve setting) n s).2
    s'.users = s.users ∨ ∃ userId user otpId otp, s.userOf email = some (userId, user) ∧
      s.Vouches userId code otpId otp ∧ s'.users = s.users.modify userId
        (AuthService.activation user (hashPassword n password)).apply := by
  intro s'
  have hserved := served setting.toSetting n s (.setPassword email code password)
  have hs' : s' = _ := occur_account (.setPassword email code password)
  rw [hs']
  generalize ((Request.setPassword email code password).serve setting.toSetting n).run
    (exec setting.newest) answered s = out at hserved
  cases hserved with
  | refused r e => exact .inl rfl
  | activated _ _ _ message userId otpId user otp huser hotp =>
    exact .inr ⟨userId, user, otpId, otp, huser, hotp, rfl⟩

/-- Where a one-time password vouches for the code, the user of the email is changed. -/
theorem setPassword_overwrites {s : Store} {email code password : String} {userId otpId : ℕ}
    {user : User} {otp : OtpVerification} (huser : s.userOf email = some (userId, user))
    (hotp : s.Vouches userId code otpId otp) :
    ((Event.call (.account (.setPassword email code password)) : OperationEvent).occur
        (backend setting.toSetting) (Operation.serve setting) n s).2.users[userId]? =
      some ((AuthService.activation user (hashPassword n password)).apply user) := by
  have hrun := run_setPassword setting.toSetting n huser hotp password
  rw [occur_account, Request.serve, hrun, List.getElem?_modify_eq, (userOf_some huser).1]
  rfl

/-- Where no one-time password vouches for the code, an activated account keeps its
password and status. Where the hashes in the database were made before the run, it does
so nowhere else. -/
theorem keeps_activated_iff (setting : SessionSetting) (n : ℕ) (start : Store)
    (events : List OperationEvent) :
    (Unvouched setting n start events → KeepsActivated setting n start events) ∧
      (SaltsBefore n start.users →
        KeepsActivated setting n start events → Unvouched setting n start events) := by
  constructor
  · intro h first second email code password later userId user hevents huser hstatus
    obtain ⟨old, hold, hleft⟩ := left_after huser hstatus second
    rw [afterOperations_concat]
    have hcases := setPassword_cases setting (n + (first ++ second).length)
      (start.afterOperations setting n (first ++ second)) email code password
    rcases hcases with hsame | ⟨id, found, otpId, otp, hfound, hotp, hchanged⟩
    · rw [hsame]
      exact ⟨old, old, hold, hold, rfl, rfl⟩
    · by_cases hid : id = userId
      · subst hid
        obtain rfl := Option.some.inj ((userOf_some hfound).1.symm.trans hold)
        exact absurd hotp (h (first ++ second) email code password later id found otpId otp
          hevents hfound hleft)
      · rw [hchanged, List.getElem?_modify_ne _ _ hid]
        exact ⟨old, old, hold, hold, rfl, rfl⟩
  · intro hsalts h before email code password later userId user otpId otp hevents huser hstatus hotp
    have hstored := (userOf_some huser).1
    obtain ⟨old, new, hold, hnew, hpassword, -⟩ := h before [] email code password later userId user
      (by rw [List.append_nil, hevents]) hstored hstatus
    rw [List.append_nil] at hold hnew
    rw [afterOperations_concat, setPassword_overwrites huser hotp] at hnew
    obtain rfl := Option.some.inj (hstored.symm.trans hold)
    -- the new hash has the salt of this call, which no hash has had before
    have hlt := salts_after hsalts before user (List.mem_of_getElem? hstored) (n + before.length) _
      (hpassword.symm.trans (congrArg User.passwordHash (Option.some.inj hnew)).symm)
    omega

end Runs

section Example

/-- Setting a password with the code of the registration. -/
def setNewcomerPassword (password : String) : OperationEvent :=
  .call (.account (.setPassword "one@example.com" "000000" password))

def registration : List OperationEvent :=
  [.call (.account (.register newcomer)),
    .call (.account (.verifyOtp "one@example.com" "000000")), setNewcomerPassword "Passw0rd!"]

/-- The account with the password that call `n` has set. -/
def activated (n : ℕ) (password : String) : User :=
  (AuthService.activation newcomer.user (hashPassword n password)).apply newcomer.user

/-- The same code sets another password on the active account. -/
theorem password_set_again : ¬KeepsActivated sampleSessions 0 (opening [] 1709164800000)
    (registration ++ [setNewcomerPassword "An0ther0ne"]) := by
  intro h
  have hfirst : ((opening [] 1709164800000).afterOperations sampleSessions 0
      registration).users[0]? = some (activated 2 "Passw0rd!") := by
    decide +kernel
  have hsecond : ((opening [] 1709164800000).afterOperations sampleSessions 0
      (registration ++ [] ++ [setNewcomerPassword "An0ther0ne"])).users[0]? =
        some (activated 3 "An0ther0ne") := by
    decide +kernel
  obtain ⟨old, new, hold, hnew, hpassword, -⟩ :=
    h registration [] "one@example.com" "000000" "An0ther0ne" [] 0 _ rfl hfirst (by decide)
  rw [List.append_nil] at hold
  obtain rfl := Option.some.inj (hfirst.symm.trans hold)
  obtain rfl := Option.some.inj (hsecond.symm.trans hnew)
  exact absurd hpassword (by decide +kernel)

end Example

end StockMarket.Auth
