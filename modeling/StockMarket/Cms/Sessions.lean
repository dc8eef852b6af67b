import StockMarket.Auth.Sequential
import StockMarket.Cms.Access

/-! # Who holds a session

A token that verifies comes from a login of an account that was active at that time
and had that password. The routes for administrators are only served to such tokens.
-/

namespace StockMarket.Cms
open Interleaving Prog
open Gateway (JwtPayload AuthenticatedUser)

abbrev AccessHistory := List (Reaction AccessOp AccessOp.Reply)
abbrev AccessEntry := Entry ℕ AccessOp AccessOp.Reply

theorem CmsRole.text_inj {role role' : CmsRole} (h : role.text = role'.text) : role = role' := by
  cases role <;> cases role' <;> first | rfl | exact absurd h (by decide)

/-- The role the gateway passes on. -/
def roleOf (payload : JwtPayload ℕ) : String := payload.role.getD (payload.type.getD "member")

/-- The call has presented the token, and it has verified as an administrator's. -/
def Granted (token : Option AccessToken) (h : AccessHistory) : Prop :=
  ∃ t payload, token = some t ∧ ⟨.verify t, some payload⟩ ∈ h ∧
    roleOf payload = CmsRole.administrator.text

theorem Granted.suffix {token : Option AccessToken} {h h' : AccessHistory} (hg : Granted token h)
    (hh : h <:+ h') : Granted token h' := by
  obtain ⟨t, payload, ht, hmem, hrole⟩ := hg
  exact ⟨t, payload, ht, hh.subset hmem, hrole⟩

/-- What a login has seen when it signs a token. -/
def LoginSeen (setting : Setting) (email password : String) (payload : CmsJwtPayload)
    (h : AccessHistory) : Prop :=
  ∃ (user : CmsUser) (now : Auth.Time),
    ⟨.findActive (setting.toLowerCase email), some (payload.sub, user)⟩ ∈ h ∧
      Auth.comparePassword password user.passwordHash ∧ ⟨.dateNow, now⟩ ∈ h ∧
      payload = ⟨payload.sub, user.email, user.role, now / 1000,
        now / 1000 + CmsAuthService.expiresIn⟩

namespace AccessRequest

/-- What a call serving `r` may send after the operations `h` of its own. -/
def May (setting : Setting) (r : AccessRequest) (h : AccessHistory) : AccessOp → Prop
  | .accounts (.createUser _) =>
      (∃ token, r.administration = some token ∧ Granted token h) ∨
        ⟨.countAdministrators, (0 : ℕ)⟩ ∈ h
  | .accounts (.deactivate _) => ∃ token, r.administration = some token ∧ Granted token h
  | .sign payload => ∃ email password, r = .login email password ∧
      LoginSeen setting email password payload h
  | _ => True

/-- A route for administrators only answers one. -/
def Answered (r : AccessRequest) (h : AccessHistory) : Prop :=
  ∀ token, r.administration = some token → Granted token h

end AccessRequest

def accessProtocol (setting : Setting) (requests : ℕ → AccessRequest) :
    Protocol ℕ AccessOp AccessOp.Reply Exception AccessResponse where
  may i := (requests i).May setting
  ends _ _ _ := True
  post i := Returns fun h _ => (requests i).Answered h

section Walk
variable {setting : Setting} {call : ℕ} {r : AccessRequest} {α : Type} {h : AccessHistory}

abbrev AccessRequest.Follows (setting : Setting) (r : AccessRequest)
    (Q : AccessHistory → α → Prop) (h : AccessHistory) (p : AccessCall α) : Prop :=
  p.Obeys (r.May setting) (fun _ _ => True) (Returns Q) h

theorem follows_access {op : AccessOp} {Q : AccessHistory → op.Reply → Prop}
    (hop : r.May setting h op) (hQ : ∀ reply, Q (⟨op, reply⟩ :: h) reply) :
    r.Follows setting Q h (access op) :=
  Obeys.last op hop hQ

/-- The guards let a user through with what the token has verified to. -/
theorem clearance_eq_ok {roles : List CmsRole} {verified : Option (JwtPayload ℕ)}
    {user : AuthenticatedUser ℕ} (h : clearance roles verified = .ok user) :
    ∃ payload, verified = some payload ∧ user.role = roleOf payload ∧
      (roles ≠ [] → user.role ∈ roles.map CmsRole.text) := by
  rw [clearance] at h
  rcases huser : Gateway.JwtAuthGuard.canActivate verified with e | user'
  · rw [huser] at h
    cases h
  rw [huser] at h
  change (Gateway.CmsJwtAuthGuard.canActivate user'.headers >>= _) = _ at h
  rcases hcms : Gateway.CmsJwtAuthGuard.canActivate user'.headers with e | _
  · rw [hcms] at h
    cases h
  rw [hcms] at h
  change (Gateway.RolesGuard.canActivate _ _ user'.headers >>= _) = _ at h
  rcases hroles : Gateway.RolesGuard.canActivate
    "Missing x-user-role — request did not pass through gateway" (roles.map CmsRole.text)
    user'.headers with e | _
  · rw [hroles] at h
    cases h
  rw [hroles] at h
  cases h
  obtain ⟨payload, hpayload, hvalid⟩ := Gateway.JwtAuthGuard.eq_ok huser
  refine ⟨payload, hpayload, (Gateway.validate_eq_ok hvalid).2.2, ?_⟩
  intro hne
  obtain ⟨role, hrole, hheader⟩ := Gateway.RolesGuard.eq_ok (by simpa using hne) hroles
  obtain rfl : user.role = role := Option.some.inj hheader
  exact hrole

theorem follows_authorize (roles : List CmsRole) (token : Option AccessToken) :
    r.Follows setting (fun h user => ∃ t payload, token = some t ∧
      ⟨.verify t, some payload⟩ ∈ h ∧ user.role = roleOf payload ∧
        (roles ≠ [] → user.role ∈ roles.map CmsRole.text)) [] (authorize roles token) := by
  refine Obeys.bindReturns (Q := fun (h : AccessHistory) (verified : Option (JwtPayload ℕ)) =>
    ∀ payload, verified = some payload → ∃ t, token = some t ∧ ⟨.verify t, some payload⟩ ∈ h)
    ?_ ?_
  · cases token with
    | none =>
      intro payload hpayload
      cases hpayload
    | some t =>
      refine follows_access trivial ?_
      rintro verified payload rfl
      exact ⟨t, rfl, List.mem_cons_self⟩
  · intro h verified hverified
    rw [obeys_ofExcept]
    rcases huser : clearance roles verified with e | user
    · trivial
    · obtain ⟨payload, hpayload, hrole, hroles⟩ := clearance_eq_ok huser
      obtain ⟨t, ht, hmem⟩ := hverified payload hpayload
      exact ⟨t, payload, ht, hmem, hrole, hroles⟩

/-- The rest of a route for administrators, which may send anything of theirs. -/
theorem follows_administration {token : Option AccessToken} {k : AuthenticatedUser ℕ → AccessCall α}
    (hr : r.administration = some token)
    (hk : ∀ user, (k user).Sends fun op => ∀ payload, op ≠ .sign payload) :
    r.Follows setting (fun h _ => r.Answered h) []
      (authorize [.administrator] token >>= k) := by
  refine Obeys.bindReturns (follows_authorize [.administrator] token) ?_
  rintro h user ⟨t, payload, ht, hmem, hrole, hroles⟩
  have hgranted : Granted token h := by
    refine ⟨t, payload, ht, hmem, ?_⟩
    rw [← hrole]
    exact List.mem_singleton.mp (hroles (by simp))
  refine (Obeys.of_sends_from (hk user) ?_).mono ?_
  · intro h' op hh hop
    have hlater := hgranted.suffix hh
    cases op with
    | accounts op =>
      cases op with
      | createUser doc => exact .inl ⟨token, hr, hlater⟩
      | deactivate id => exact ⟨token, hr, hlater⟩
      | _ => trivial
    | sign payload => exact absurd rfl (hop payload)
    | _ => trivial
  · intro h' res hh
    rcases res with e | a
    · trivial
    · intro token' htoken
      cases hr.symm.trans htoken
      exact hgranted.suffix hh

theorem sends_lift (p : Call α) :
    (lift p).Sends fun op => ∀ payload, op ≠ .sign payload := by
  apply Sends.substitute (fun op => access (.accounts op)) (sends_true p)
  intro op _
  apply sends_send
  simp

theorem answered_of_none (hr : r.administration = none) (h : AccessHistory) : r.Answered h := by
  intro token htoken
  rw [hr] at htoken
  cases htoken

theorem follows_login (email password : String) :
    (AccessRequest.login email password).Follows setting (fun _ _ => True) []
      (CmsAuthService.login setting email password) := by
  apply Obeys.send trivial
  intro found
  rcases found with _ | ⟨id, user⟩
  · trivial
  dsimp only
  split
  · trivial
  rename_i hpassword
  apply Obeys.send trivial
  intro now
  apply Obeys.send
  · refine ⟨email, password, rfl, user, now, ?_, ?_, ?_, rfl⟩
    · simp
    · simpa using hpassword
    · simp
  · exact fun _ => trivial

theorem follows_bootstrap (seed : CmsAuthService.Seed) :
    r.Follows setting (fun _ _ => True) []
      (CmsAuthService.onApplicationBootstrap setting call seed) := by
  have hseed : r.Follows setting (fun _ _ => True) []
      (CmsAuthService.seedSuperAdmin setting call seed) := by
    apply Obeys.send trivial
    intro count
    split
    · trivial
    rename_i hcount
    apply Obeys.send
    · have hzero : count = (0 : ℕ) := Nat.eq_zero_of_not_pos hcount
      subst hzero
      exact .inr (by simp)
    · intro created
      cases created with
      | none => trivial
      | some id => trivial
  apply hseed.handle
  intro h res _
  cases res with
  | error e => trivial
  | ok _ => trivial

theorem AccessRequest.follows_serve (r : AccessRequest) :
    r.Follows setting (fun h _ => r.Answered h) [] (r.serve setting call) := by
  cases r with
  | login email password =>
    exact (follows_login email password).bindReturns fun _ _ _ => answered_of_none rfl _
  | createUser token dto =>
    apply follows_administration rfl
    exact fun user => (sends_lift _).bind fun _ => trivial
  | listUsers token =>
    apply follows_administration rfl
    intro user
    have hlist : (CmsAuthService.listUsers).Sends fun op => ∀ payload, op ≠ .sign payload :=
      sends_send (by simp)
    exact hlist.bind fun _ => trivial
  | getUserById token id =>
    apply follows_administration rfl
    intro user
    have hget : (CmsAuthService.getUserById id).Sends fun op => ∀ payload, op ≠ .sign payload := by
      apply Sends.send (by simp)
      intro found
      cases found with
      | none => trivial
      | some user => trivial
    exact hget.bind fun _ => trivial
  | deactivateUser token id =>
    apply follows_administration rfl
    exact fun user => (sends_lift _).bind fun _ => trivial
  | changePassword token currentPassword newPassword =>
    apply (follows_authorize [] token).bindReturns
    intro h user _
    have hchange : (AccessRequest.changePassword token currentPassword newPassword).Follows setting
        (fun _ _ => True) h
        (CmsAuthService.changePassword call user.userId currentPassword newPassword) := by
      apply Obeys.send trivial
      intro found
      cases found with
      | none => trivial
      | some user =>
        dsimp only
        split
        · trivial
        · exact follows_access trivial fun _ => trivial
    exact hchange.bindReturns fun h' _ _ => answered_of_none rfl h'
  | bootstrap seed =>
    exact (follows_bootstrap seed).bindReturns fun _ _ _ => answered_of_none rfl _

end Walk

section Step
variable {setting : Setting} {requests : ℕ → AccessRequest} {s : AccessStore}
  {log : List AccessEntry} {i : ℕ} {op : AccessOp}

/-- Accounts stay, and keep their e-mail and role. -/
def AccountsKept (users users' : List CmsUser) : Prop :=
  ∀ (id : ℕ) (user : CmsUser), users[id]? = some user →
    ∃ user', users'[id]? = some user' ∧ user'.email = user.email ∧ user'.role = user.role

theorem AccountsKept.refl (users : List CmsUser) : AccountsKept users users :=
  fun _ user huser => ⟨user, huser, rfl, rfl⟩

theorem AccountsKept.modify {f : CmsUser → CmsUser} (users : List CmsUser) (n : ℕ)
    (hf : ∀ user, (f user).email = user.email ∧ (f user).role = user.role) :
    AccountsKept users (users.modify n f) := by
  intro id user huser
  by_cases hid : n = id
  · subst hid
    exact ⟨f user, by simp [huser], hf user⟩
  · exact ⟨user, by simp [hid, huser], rfl, rfl⟩

theorem accountsKept_exec (op : CmsOp) (s : Store) : AccountsKept s.users (exec op s).2.users := by
  cases op with
  | createUser doc =>
    simp only [exec]
    split
    · exact .refl _
    · intro id user huser
      have hlt : id < s.users.length := (List.getElem?_eq_some_iff.mp huser).1
      exact ⟨user, (List.getElem?_append_left hlt).trans huser, rfl, rfl⟩
  | deactivate id => exact .modify _ _ fun _ => ⟨rfl, rfl⟩
  | _ => exact .refl _

theorem accountsKept_execAccess (op : AccessOp) (s : AccessStore) :
    AccountsKept s.accounts.users (execAccess op s).2.accounts.users := by
  cases op with
  | accounts op => exact accountsKept_exec op s.accounts
  | savePassword id passwordHash => exact .modify _ _ fun _ => ⟨rfl, rfl⟩
  | _ => exact .refl _

/-- What is known of the accounts and tokens that calls have seen. -/
structure SessionInvariant (setting : Setting) (requests : ℕ → AccessRequest) (s : AccessStore)
    (log : List AccessEntry) : Prop where
  found : ∀ i email id user, ⟨.findActive email, some (id, user)⟩ ∈ own i log →
    user.isActive ∧ ∃ user', s.accounts.users[id]? = some user' ∧ user'.email = user.email ∧
      user'.role = user.role
  issued : ∀ payload ∈ s.issued, ∃ i email password, requests i = .login email password ∧
    LoginSeen setting email password payload (own i log)
  verified : ∀ i token payload, ⟨.verify token, some payload⟩ ∈ own i log →
    roleOf payload ≠ "member" → ∃ p ∈ s.issued, token = .cms p ∧ payload = p.claims
  clock : ∀ (i : ℕ) (now : Auth.Time), ⟨.dateNow, now⟩ ∈ own i log → now ≤ s.now

/-- A token that verifies as anything but a member's is one of the CMS. -/
theorem AccessToken.verify_cms {issued : List CmsJwtPayload} {now : Auth.Time} {token : AccessToken}
    {payload : JwtPayload ℕ} (h : token.verify issued now = some payload)
    (hrole : roleOf payload ≠ "member") :
    ∃ p ∈ issued, token = .cms p ∧ payload = p.claims ∧ now / 1000 < p.exp := by
  cases token with
  | cms p =>
    rw [verify, Option.ite_none_right_eq_some, Option.some.injEq] at h
    exact ⟨p, h.1.1, rfl, h.2.symm, h.1.2⟩
  | member p =>
    rw [verify, Option.ite_none_right_eq_some, Option.some.injEq] at h
    rw [← h.2] at hrole
    exact absurd rfl hrole
  | forged text => cases h

theorem LoginSeen.later {email password : String} {payload : CmsJwtPayload} {j : ℕ}
    (e : AccessEntry) (h : LoginSeen setting email password payload (own j log)) :
    LoginSeen setting email password payload (own j (e :: log)) := by
  obtain ⟨user, now, hfound, hpassword, hnow, hpayload⟩ := h
  exact ⟨user, now, mem_own_cons.mpr (.inr hfound), hpassword, mem_own_cons.mpr (.inr hnow),
    hpayload⟩

theorem mem_issued_exec {p : CmsJwtPayload} (h : p ∈ (execAccess op s).2.issued) :
    op = .sign p ∨ p ∈ s.issued := by
  cases op with
  | sign payload =>
    rcases List.mem_cons.mp h with rfl | hold
    · exact .inl rfl
    · exact .inr hold
  | _ => exact .inr h

theorem issued_exec (op : AccessOp) {p : CmsJwtPayload} (h : p ∈ s.issued) :
    p ∈ (execAccess op s).2.issued := by
  cases op with
  | sign payload => exact List.mem_cons_of_mem _ h
  | _ => exact h

theorem now_execAccess (op : AccessOp) (s : AccessStore) : (execAccess op s).2.now = s.now := by
  cases op <;> rfl

theorem findActive_some {email : String} {id : ℕ} {user : CmsUser}
    (h : (execAccess (.findActive email) s).1 = some (id, user)) :
    user.isActive ∧ s.accounts.users[id]? = some user := by
  have hfound : Auth.findOne s.accounts.users
      (fun user => decide (user.email = email ∧ user.isActive)) = some (id, user) := h
  obtain ⟨huser, hp⟩ := Auth.findOne_some hfound
  exact ⟨(of_decide_eq_true hp).2, huser⟩

theorem SessionInvariant.step (hI : SessionInvariant setting requests s log)
    (hmay : (requests i).May setting (own i log) op) :
    SessionInvariant setting requests (execAccess op s).2
      (⟨i, op, (execAccess op s).1⟩ :: log) := by
  refine ⟨?_, ?_, ?_, ?_⟩
  · intro j email id user hmem
    have hstored : user.isActive ∧ ∃ user', s.accounts.users[id]? = some user' ∧
        user'.email = user.email ∧ user'.role = user.role := by
      rcases mem_own_exec hmem with ⟨-, rfl, hreply⟩ | hold
      · obtain ⟨hactive, huser⟩ := findActive_some hreply
        exact ⟨hactive, user, huser, rfl, rfl⟩
      · exact hI.found j email id user hold
    obtain ⟨hactive, user', huser', hemail, hrole⟩ := hstored
    obtain ⟨user'', huser'', hemail', hrole'⟩ := accountsKept_execAccess op s id user' huser'
    exact ⟨hactive, user'', huser'', hemail'.trans hemail, hrole'.trans hrole⟩
  · intro payload hpayload
    rcases mem_issued_exec hpayload with rfl | hold
    · obtain ⟨email, password, hr, hseen⟩ := hmay
      exact ⟨i, email, password, hr, hseen.later _⟩
    · obtain ⟨j, email, password, hr, hseen⟩ := hI.issued payload hold
      exact ⟨j, email, password, hr, hseen.later _⟩
  · intro j token payload hmem hrole
    rcases mem_own_exec hmem with ⟨-, rfl, hreply⟩ | hold
    · obtain ⟨p, hp, htoken, hclaims, -⟩ := AccessToken.verify_cms hreply hrole
      exact ⟨p, hp, htoken, hclaims⟩
    · obtain ⟨p, hp, htoken, hclaims⟩ := hI.verified j token payload hold hrole
      exact ⟨p, issued_exec op hp, htoken, hclaims⟩
  · intro j now hmem
    rw [now_execAccess]
    rcases mem_own_exec hmem with ⟨-, rfl, hreply⟩ | hold
    · exact hreply.symm.le
    · exact hI.clock j now hold

end Step

section Run
variable {setting : Setting} {requests : ℕ → AccessRequest}

def anySchedule : Assumption ℕ AccessOp AccessOp.Reply AccessStore Tick Exception where
  call _ _ _ _ _ := True
  env _ := True

theorem along_anySchedule (c : AccessState) (sched : AccessSchedule) :
    anySchedule.Along accessBackend c sched :=
  Assumption.along_of_forall accessBackend anySchedule (fun _ _ _ _ _ => trivial)
    (fun _ => trivial) c sched

theorem sessionInvariant_run (setting : Setting) {store : AccessStore}
    (hstart : store.issued = []) (requests : ℕ → AccessRequest) (sched : AccessSchedule) :
    let c := (AccessState.start setting store requests).run accessBackend sched
    c.Conforms (accessProtocol setting requests) ∧
      SessionInvariant setting requests c.store c.log := by
  refine Config.run_invariant (B := accessBackend) (A := anySchedule)
    (P := accessProtocol setting requests) (I := SessionInvariant setting requests)
    (fun _ _ _ _ _ _ => trivial) (fun s log i op o hI hmay _ => hI.step hmay)
    (fun s log x hI _ => ⟨hI.found, hI.issued, hI.verified, fun i now hmem => ?_⟩)
    (Config.conforms_start fun i => (requests i).follows_serve) ⟨?_, ?_, ?_, ?_⟩ sched
    (along_anySchedule _ sched)
  · exact (hI.clock i now hmem).trans (Nat.le_add_right _ _)
  · rintro i email id user ⟨⟩
  · intro payload hpayload
    have hnone : payload ∈ store.issued := hpayload
    rw [hstart] at hnone
    cases hnone
  · rintro i token payload ⟨⟩
  · rintro i now ⟨⟩

/-- The login a token comes from: the account was active and had the password. -/
structure ComesFrom (setting : Setting) (requests : ℕ → AccessRequest) (c : AccessState)
    (p : CmsJwtPayload) (user : CmsUser) (now : Auth.Time) : Prop where
  login : ∃ i email password, requests i = .login email password ∧
    ⟨i, .findActive (setting.toLowerCase email), some (p.sub, user)⟩ ∈ c.log ∧
      Auth.comparePassword password user.passwordHash ∧ ⟨i, .dateNow, now⟩ ∈ c.log
  active : user.isActive
  past : now ≤ c.store.now
  claims : p = ⟨p.sub, user.email, user.role, now / 1000, now / 1000 + CmsAuthService.expiresIn⟩
  account : ∃ user', c.store.accounts.users[p.sub]? = some user' ∧ user'.email = user.email ∧
    user'.role = user.role

theorem SessionInvariant.comesFrom {c : AccessState}
    (hI : SessionInvariant setting requests c.store c.log) {p : CmsJwtPayload}
    (hp : p ∈ c.store.issued) : ∃ user now, ComesFrom setting requests c p user now := by
  obtain ⟨i, email, password, hr, user, now, hfound, hpassword, hnow, hclaims⟩ := hI.issued p hp
  obtain ⟨hactive, haccount⟩ := hI.found i _ p.sub user hfound
  exact ⟨user, now, ⟨i, email, password, hr, mem_own.mp hfound, hpassword, mem_own.mp hnow⟩,
    hactive, hI.clock i now hnow, hclaims, haccount⟩

theorem before_of_seconds {t u : ℕ} (h : t / 1000 < u / 1000 + 8 * 60 * 60) :
    t < u + 8 * 60 * 60 * 1000 := by
  omega

end Run

/-- In every state of every run, a token that is not a member's only verifies within
eight hours of the login it comes from, and carries the role its account still has. -/
theorem session_comes_from_login (setting : Setting) (store : AccessStore)
    (hstart : store.issued = []) (requests : ℕ → AccessRequest) (sched : AccessSchedule)
    (token : AccessToken) (payload : JwtPayload ℕ) :
    let c := (AccessState.start setting store requests).run accessBackend sched
    token.verify c.store.issued c.store.now = some payload → roleOf payload ≠ "member" →
      ∃ p user now, token = .cms p ∧ ComesFrom setting requests c p user now ∧
        roleOf payload = user.role.text ∧ c.store.now < now + 8 * 60 * 60 * 1000 := by
  intro c hverify hrole
  obtain ⟨-, hI⟩ := sessionInvariant_run setting hstart requests sched
  obtain ⟨p, hp, htoken, hclaims, hexp⟩ := AccessToken.verify_cms hverify hrole
  obtain ⟨user, now, hfrom⟩ := hI.comesFrom hp
  refine ⟨p, user, now, htoken, hfrom, ?_, ?_⟩
  · rw [hclaims, hfrom.claims]
    rfl
  · have hexp' : (c.store.now : ℕ) / 1000 < (now : ℕ) / 1000 + 8 * 60 * 60 := by
      rw [hfrom.claims] at hexp
      exact hexp
    exact before_of_seconds hexp'

/-- A route for administrators has only ever served a token that comes from the login
of an administrator. -/
theorem administration_comes_from_login (setting : Setting) (store : AccessStore)
    (hstart : store.issued = []) (requests : ℕ → AccessRequest) (sched : AccessSchedule) (i : ℕ)
    (token : Option AccessToken) (hadmin : (requests i).administration = some token)
    (response : AccessResponse) :
    let c := (AccessState.start setting store requests).run accessBackend sched
    c.result i = some (.ok response) →
      ∃ p user now, token = some (.cms p) ∧ ComesFrom setting requests c p user now ∧
        user.role = .administrator := by
  intro c hresult
  obtain ⟨hconforms, hI⟩ := sessionInvariant_run setting hstart requests sched
  obtain ⟨t, payload, rfl, hmem, hrole⟩ := hconforms.returned hresult token hadmin
  obtain ⟨p, hp, rfl, rfl⟩ := hI.verified i t payload hmem (by rw [hrole]; decide)
  obtain ⟨user, now, hfrom⟩ := hI.comesFrom hp
  refine ⟨p, user, now, rfl, hfrom, ?_⟩
  apply CmsRole.text_inj
  rw [← hrole, hfrom.claims]
  rfl

section Example

def oneAdministrator : AccessStore where
  accounts :=
    { users := [⟨"omar@stockmarket.com", "Omar", .administrator,
        Auth.hashPassword 0 "Admin@1234!", false, true, none⟩]
      outbox := [] }
  now := 5000
  issued := []

def omarsToken : CmsJwtPayload := ⟨0, "omar@stockmarket.com", .administrator, 5, 28805⟩

def loginThenList : ℕ → AccessRequest
  | 0 => .login "omar@stockmarket.com" "Admin@1234!"
  | _ => .listUsers (some (.cms omarsToken))

def oneAfterTheOther : AccessSchedule :=
  [.step 0 .done, .step 0 .done, .step 0 .done, .env ⟨1000⟩, .step 1 .done, .step 1 .done]

theorem session_comes_from_login_omar :
    let c := (AccessState.start plain oneAdministrator loginThenList).run accessBackend
      oneAfterTheOther
    ∃ p user now, AccessToken.cms omarsToken = .cms p ∧
      ComesFrom plain loginThenList c p user now ∧
        roleOf omarsToken.claims = user.role.text ∧ c.store.now < now + 8 * 60 * 60 * 1000 :=
  session_comes_from_login plain oneAdministrator rfl loginThenList oneAfterTheOther
    (.cms omarsToken) omarsToken.claims (by decide +kernel) (by decide)

theorem administration_comes_from_login_omar :
    let c := (AccessState.start plain oneAdministrator loginThenList).run accessBackend
      oneAfterTheOther
    ∃ p user now, some (AccessToken.cms omarsToken) = some (.cms p) ∧
      ComesFrom plain loginThenList c p user now ∧ user.role = .administrator := by
  have hresult : ∃ response, ((AccessState.start plain oneAdministrator loginThenList).run
      accessBackend oneAfterTheOther).result 1 = some (.ok response) := by
    have hok : (((AccessState.start plain oneAdministrator loginThenList).run accessBackend
        oneAfterTheOther).result 1).any Except.isOk = true := by decide +kernel
    rcases hresult : ((AccessState.start plain oneAdministrator loginThenList).run accessBackend
      oneAfterTheOther).result 1 with _ | _ | response <;> rw [hresult] at hok
    · cases hok
    · cases hok
    · exact ⟨response, rfl⟩
  obtain ⟨response, hresponse⟩ := hresult
  exact administration_comes_from_login plain oneAdministrator rfl loginThenList oneAfterTheOther 1
    _ rfl response hresponse

end Example
end StockMarket.Cms
