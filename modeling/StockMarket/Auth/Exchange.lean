import StockMarket.Auth.Rotation
import StockMarket.Interleaving.Protocol

/-! # Refresh tokens exchanged side by side

Any number of logins, refreshes and logouts, with an exact fingerprint for the stored
hash. A refresh reads the hash, compares it with its token, and overwrites it later
without looking at it again.
-/

namespace StockMarket.Auth
open Interleaving Prog

abbrev SessionState := Config ℕ AuthOp AuthOp.Reply Store Exception SessionAnswer

def SessionState.start (setting : SessionSetting) (store : Store)
    (requests : ℕ → SessionRequest) : SessionState :=
  Config.start store fun i => (requests i).serve .fingerprint setting i

abbrev AuthSchedule := List (Choice ℕ Environment Exception)

abbrev AuthHistory := List (Reaction AuthOp AuthOp.Reply)

abbrev AuthLog := List (Entry ℕ AuthOp AuthOp.Reply)

/-- What a refresh has read before it overwrites the hash of a user. -/
structure Matched (signing : Signing) (token : Token) (userId : ℕ) (payload : JwtPayload)
    (user : User) : Prop where
  signed : token = .signed payload
  subject : userId = payload.sub
  hash : user.refreshTokenHash = some (.text (token.text signing))

/-- What a session call may send: a refresh overwrites the hash of the user it has read. -/
def MaySession (signing : Signing) (r : SessionRequest) (h : AuthHistory) : AuthOp → Prop
  | .dateNow => True
  | .findUser _ => True
  | .findUserById _ => True
  | .unsetRefreshToken _ => True
  | .setRefreshToken userId _ => ∀ token, r = .refresh token → ∃ payload user now iat iat',
      Matched signing token userId payload user ∧
        h = [⟨.dateNow, iat'⟩, ⟨.dateNow, iat⟩, ⟨.findUserById payload.sub, some user⟩,
          ⟨.dateNow, now⟩]
  | _ => False

/-- A call that has issued tokens has written a hash. -/
def Issued (h : AuthHistory) : Prop := ∃ userId hash, ⟨.setRefreshToken userId hash, ()⟩ ∈ h

def sessionProtocol (signing : Signing) (requests : ℕ → SessionRequest) :
    Protocol ℕ AuthOp AuthOp.Reply Exception SessionAnswer where
  may i := MaySession signing (requests i)
  ends _ _ _ := True
  post _ := Returns fun h answer => ∀ tokens, answer = .refreshed tokens → Issued h

section Programs
variable {setting : SessionSetting} {call userId : ℕ} {user : User} {r : SessionRequest}
  {h : AuthHistory}

theorem obeys_issueTokenPair
    (hmay : ∀ iat iat' hash, MaySession setting.signing r
      (⟨.dateNow, iat'⟩ :: ⟨.dateNow, iat⟩ :: h) (.setRefreshToken userId hash)) :
    Obeys (MaySession setting.signing r) (fun _ _ => True) (Returns fun h' _ => Issued h') h
      (TokenService.issueTokenPair .fingerprint setting call userId user) := by
  simp only [TokenService.issueTokenPair, TokenService.sign, bind_bind]
  apply Obeys.send
  · trivial
  · intro iat
    apply Obeys.send
    · trivial
    · intro iat'
      apply Obeys.send
      · exact hmay iat iat' _
      · intro _
        exact ⟨userId, _, List.mem_cons_self⟩

theorem obeys_refresh (token : Token) :
    Obeys (MaySession setting.signing (.refresh token)) (fun _ _ => True)
      (Returns fun h _ => Issued h) [] (AuthService.refresh .fingerprint setting call token) := by
  have hverify : Obeys (MaySession setting.signing (.refresh token)) (fun _ _ => True)
      (Returns fun h payload => ∃ now, h = [⟨.dateNow, now⟩] ∧ token = .signed payload) []
      (catching (TokenService.verifyRefreshToken token) fun _ =>
        raise (.unauthorized "Invalid or expired refresh token")) := by
    have hasked : Obeys (MaySession setting.signing (.refresh token)) (fun _ _ => True)
        (Returns fun h payload => ∃ now, h = [⟨.dateNow, now⟩] ∧ token = .signed payload) []
        (TokenService.verifyRefreshToken token) := by
      apply Obeys.send
      · trivial
      · intro now
        split
        · trivial
        · rename_i payload hpayload
          exact ⟨now, rfl, (Token.verify_some.mp hpayload).1⟩
    apply hasked.handle
    intro h res hres
    cases res with
    | ok payload => exact hres
    | error e => trivial
  apply hverify.bindReturns
  rintro _ payload ⟨now, rfl, hsigned⟩
  apply Obeys.send
  · trivial
  · intro found
    rcases found with _ | user
    · trivial
    · dsimp only
      rcases hhash : user.refreshTokenHash with _ | hash
      · trivial
      · dsimp only
        split
        · apply Obeys.send
          · trivial
          · intro _
            trivial
        · rename_i hmatch
          split
          · trivial
          · apply obeys_issueTokenPair
            intro iat iat' _ token' hr
            cases hr
            have hstored : hash = .text (token.text setting.signing) :=
              of_decide_eq_true (not_not.mp hmatch)
            exact ⟨payload, user, now, iat, iat', ⟨hsigned, rfl, hstored ▸ hhash⟩, rfl⟩

theorem obeys_session (setting : SessionSetting) (call : ℕ) (r : SessionRequest) :
    Obeys (MaySession setting.signing r) (fun _ _ => True)
      (Returns fun h answer => ∀ tokens, answer = .refreshed tokens → Issued h) []
      (r.serve .fingerprint setting call) := by
  cases r with
  | login email password =>
    have hissues (userId : ℕ) (user : User) (h : AuthHistory) :
        Obeys (MaySession setting.signing (.login email password)) (fun _ _ => True)
          (Returns fun h' _ => Issued h') h
          (TokenService.issueTokenPair .fingerprint setting call userId user) := by
      apply obeys_issueTokenPair
      intro iat iat' hash token hr
      cases hr
    have hlogin : Obeys (MaySession setting.signing (.login email password)) (fun _ _ => True)
        (Returns fun h' _ => Issued h') []
        (AuthService.login .fingerprint setting call email password) := by
      apply Obeys.send
      · trivial
      · intro found
        rcases found with _ | ⟨userId, user⟩
        · trivial
        · dsimp only
          split
          · trivial
          · split
            · trivial
            · split
              · trivial
              · apply (hissues userId user _).bindReturns
                intro h tokens hissued
                exact hissued
    apply hlogin.bindReturns
    intro h tokens _ _ hanswer
    cases hanswer
  | refresh token =>
    apply (obeys_refresh token).bindReturns
    intro h tokens hissued _ _
    exact hissued
  | logout userId =>
    apply Obeys.bindReturns (Q := fun _ _ => True)
    · apply Obeys.send
      · trivial
      · intro _
        trivial
    · intro h message _ tokens hanswer
      cases hanswer

end Programs

def SessionRequest.presented : SessionRequest → Option Token
  | .refresh token => some token
  | _ => none

def AuthOp.readsUser : AuthOp → Bool
  | .findUserById _ => true
  | _ => false

/-- The hash of a refresh token that an operation stores. -/
def AuthOp.writtenHash : AuthOp → Option Hash
  | .setRefreshToken _ hash => some hash
  | _ => none

/-- The token that an operation gives a new one for. -/
def exchangedBy (requests : ℕ → SessionRequest) (e : Entry ℕ AuthOp AuthOp.Reply) : Option Token :=
  match e.reaction.op.writtenHash with
  | some _ => (requests e.caller).presented
  | none => none

/-- Whenever a hash is written, nobody has exchanged the presented token since it was
compared, and the hash is not that of a token that has been exchanged. -/
def exclusive (signing : Signing) (requests : ℕ → SessionRequest) :
    Assumption ℕ AuthOp AuthOp.Reply Store Environment Exception where
  call _ log i op o := ∀ hash ∈ op.writtenHash, o.applies →
    (∀ token ∈ (requests i).presented, hash ≠ .text (token.text signing) ∧
      ∀ e ∈ since i AuthOp.readsUser log, exchangedBy requests e ≠ some token) ∧
    ∀ e ∈ log, ∀ token ∈ exchangedBy requests e, hash ≠ .text (token.text signing)
  env _ := True

section Once
variable {signing : Signing} {newest : ℕ → NewestFirst} {requests : ℕ → SessionRequest} {s : Store}
  {log : AuthLog}

def Exchanged (requests : ℕ → SessionRequest) (token : Token) (log : AuthLog) : Prop :=
  ∃ e ∈ log, exchangedBy requests e = some token

/-- The user's stored hash is not that of a token that has been exchanged. -/
def Spent (signing : Signing) (requests : ℕ → SessionRequest) (log : AuthLog) (userId : ℕ)
    (user : User) : Prop :=
  ∀ payload, payload.sub = userId → Exchanged requests (.signed payload) log →
    user.refreshTokenHash ≠ some (.text ((Token.signed payload).text signing))

/-- The hash of an exchanged token is stored nowhere any more, nor has it been read
since, and nothing is exchanged by two calls. -/
structure SingleExchanges (signing : Signing) (requests : ℕ → SessionRequest) (s : Store)
    (log : AuthLog) : Prop where
  spent : ∀ userId user, s.users[userId]? = some user → Spent signing requests log userId user
  reads : Recorded (fun (e : Entry ℕ AuthOp AuthOp.Reply) older => ∀ userId user,
    e.reaction = ⟨.findUserById userId, some user⟩ → Spent signing requests older userId user) log
  alone : ∀ e ∈ log, ∀ e' ∈ log, ∀ token, exchangedBy requests e = some token →
    exchangedBy requests e' = some token → e.caller = e'.caller

theorem exchanged_cons_iff {token : Token} {e : Entry ℕ AuthOp AuthOp.Reply} :
    Exchanged requests token (e :: log) ↔
      exchangedBy requests e = some token ∨ Exchanged requests token log :=
  List.exists_mem_cons_iff ..

theorem exchangedBy_some {token : Token} {e : Entry ℕ AuthOp AuthOp.Reply} :
    exchangedBy requests e = some token ↔
      (∃ hash, e.reaction.op.writtenHash = some hash) ∧ requests e.caller = .refresh token := by
  rw [exchangedBy]
  constructor
  · intro h
    split at h
    · rename_i hash hwritten
      refine ⟨⟨hash, hwritten⟩, ?_⟩
      cases hr : requests e.caller with
      | refresh token' =>
        rw [hr] at h
        exact congrArg SessionRequest.refresh (Option.some.inj h)
      | login email password =>
        rw [hr] at h
        cases h
      | logout userId =>
        rw [hr] at h
        cases h
    · cases h
  · rintro ⟨⟨hash, hwritten⟩, hr⟩
    rw [hwritten, hr]
    rfl

/-- An operation that writes no hash exchanges nothing. -/
theorem exchanged_cons_of_none {token : Token} {i : ℕ} {op : AuthOp} {reply : op.Reply}
    (h : op.writtenHash = none) :
    Exchanged requests token (⟨i, op, reply⟩ :: log) ↔ Exchanged requests token log := by
  rw [exchanged_cons_iff, exchangedBy_some, h, or_iff_right]
  rintro ⟨⟨hash, hwritten⟩, -⟩
  cases hwritten

theorem SingleExchanges.spent_step (hI : SingleExchanges signing requests s log) {i : ℕ}
    {op : AuthOp} {o : Outcome Exception} (ho : o.applies)
    (hmay : MaySession signing (requests i) (own i log) op)
    (hexclusive : (exclusive signing requests).call s log i op o) {userId : ℕ} {user : User}
    (huser : (exec newest op s).2.users[userId]? = some user) :
    Spent signing requests (⟨i, op, (exec newest op s).1⟩ :: log) userId user := by
  intro payload hsub hexchanged
  cases op with
  | setRefreshToken id hash =>
    obtain ⟨hpresented, hothers⟩ := hexclusive hash rfl ho
    rw [exchanged_cons_iff, exchangedBy_some] at hexchanged
    rcases modify_user huser with ⟨hother, hstored⟩ | ⟨rfl, old, -, rfl⟩
    · rcases hexchanged with ⟨-, hr⟩ | hold
      · obtain ⟨payload', _, _, _, _, ⟨hsigned, hid, -⟩, -⟩ := hmay _ hr
        cases hsigned
        exact absurd (hsub.symm.trans hid.symm) hother
      · exact hI.spent userId user hstored payload hsub hold
    · have hnew : hash ≠ .text ((Token.signed payload).text signing) := by
        rcases hexchanged with ⟨-, hr⟩ | ⟨e, he, hold⟩
        · apply (hpresented (.signed payload) _).1
          simp only at hr
          rw [hr]
          rfl
        · exact hothers e he _ hold
      intro hsame
      exact hnew (Option.some.inj hsame)
  | unsetRefreshToken id =>
    rw [exchanged_cons_of_none rfl] at hexchanged
    rcases modify_user huser with ⟨-, hstored⟩ | ⟨rfl, old, -, rfl⟩
    · exact hI.spent userId user hstored payload hsub hexchanged
    · intro hsame
      cases hsame
  | dateNow =>
    exact hI.spent userId user huser payload hsub ((exchanged_cons_of_none rfl).mp hexchanged)
  | findUser email =>
    exact hI.spent userId user huser payload hsub ((exchanged_cons_of_none rfl).mp hexchanged)
  | findUserById id =>
    exact hI.spent userId user huser payload hsub ((exchanged_cons_of_none rfl).mp hexchanged)
  | _ => exact absurd hmay id

/-- A token is exchanged for the first time: it was compared with a hash that has not been
written over since. -/
theorem SingleExchanges.not_exchanged (hI : SingleExchanges signing requests s log) {i : ℕ}
    {userId : ℕ} {hash : Hash} {o : Outcome Exception} {token : Token} (ho : o.applies)
    (hmay : MaySession signing (requests i) (own i log) (.setRefreshToken userId hash))
    (hexclusive : (exclusive signing requests).call s log i (.setRefreshToken userId hash) o)
    (hr : requests i = .refresh token) : ¬Exchanged requests token log := by
  rintro ⟨e, he, hexchanged⟩
  obtain ⟨payload, user, now, iat, iat', ⟨rfl, -, hstored⟩, hown⟩ := hmay token hr
  have hsplit : e ∈ since i AuthOp.readsUser log ∨ _ := mem_since_or he
  rcases hsplit with hsince | ⟨newer, x, older, rfl, hkind, hbefore⟩
  · apply ((hexclusive hash rfl ho).1 (.signed payload) _).2 e hsince hexchanged
    rw [hr]
    rfl
  · -- what the call has read is what it has compared
    have hx : x ∈ own i (newer ++ ⟨i, x⟩ :: older) :=
      mem_own.mpr (List.mem_append_right _ List.mem_cons_self)
    have hread : x = ⟨.findUserById payload.sub, some user⟩ := by
      rw [hown] at hx
      simp only [List.mem_cons, List.not_mem_nil, or_false] at hx
      rcases hx with rfl | rfl | rfl | rfl
      · cases hkind
      · cases hkind
      · rfl
      · cases hkind
    subst hread
    rcases hbefore with rfl | hold
    · cases (exchangedBy_some.mp hexchanged).1.choose_spec
    · exact hI.reads.split payload.sub user rfl payload rfl ⟨e, hold, hexchanged⟩ hstored

theorem SingleExchanges.step (hI : SingleExchanges signing requests s log) {i : ℕ} {op : AuthOp}
    {o : Outcome Exception} (ho : o.applies)
    (hmay : MaySession signing (requests i) (own i log) op)
    (hexclusive : (exclusive signing requests).call s log i op o) :
    SingleExchanges signing requests (exec newest op s).2
      (⟨i, op, (exec newest op s).1⟩ :: log) := by
  -- no older entry exchanges what this one does
  have hfirst {token : Token}
      (h : exchangedBy requests ⟨i, op, (exec newest op s).1⟩ = some token) :
      ¬Exchanged requests token log := by
    obtain ⟨⟨hash, hwritten⟩, hr⟩ := exchangedBy_some.mp h
    cases op with
    | setRefreshToken userId hash => exact hI.not_exchanged ho hmay hexclusive hr
    | _ => cases hwritten
  constructor
  · intro userId user huser
    exact hI.spent_step ho hmay hexclusive huser
  · constructor
    · intro userId user hread
      obtain ⟨rfl, hstored⟩ := reaction_eq hread
      exact hI.spent userId user hstored
    · exact hI.reads
  · intro e he e' he' token h h'
    rcases List.mem_cons.mp he with rfl | hold
    · rcases List.mem_cons.mp he' with rfl | hold'
      · rfl
      · exact absurd ⟨e', hold', h'⟩ (hfirst h)
    · rcases List.mem_cons.mp he' with rfl | hold'
      · exact absurd ⟨e, hold, h⟩ (hfirst h')
      · exact hI.alone e hold e' hold' token h h'

end Once

section Run
variable {setting : SessionSetting} {store : Store} {requests : ℕ → SessionRequest}
  {sched : AuthSchedule}

theorem run_singleExchanges (hexclusive : (exclusive setting.signing requests).Along
    (backend setting.toSetting) (SessionState.start setting store requests) sched) :
    let c := (SessionState.start setting store requests).run (backend setting.toSetting) sched
    c.Conforms (sessionProtocol setting.signing requests) ∧
      SingleExchanges setting.signing requests c.store c.log := by
  apply Config.run_applied (A := exclusive setting.signing requests)
  · intro _ _ _ _ _ _
    trivial
  · intro s log i op o hI hmay hcall ho
    exact hI.step ho hmay hcall
  · intro s log x hI _
    cases x with
    | tick ms => exact ⟨hI.spent, hI.reads, hI.alone⟩
  · exact Config.conforms_start fun i => obeys_session setting i (requests i)
  · constructor
    · rintro userId user - payload - ⟨e, he, -⟩
      cases he
    · trivial
    · intro e he
      cases he
  · exact hexclusive

/-- Where refreshes with one token keep apart, and no token comes back, at most one of
them returns a new pair. -/
theorem exchanged_once (hexclusive : (exclusive setting.signing requests).Along
    (backend setting.toSetting) (SessionState.start setting store requests) sched) :
    let c := (SessionState.start setting store requests).run (backend setting.toSetting) sched
    ∀ i j token tokens tokens', requests i = .refresh token → requests j = .refresh token →
      c.result i = some (.ok (.refreshed tokens)) → c.result j = some (.ok (.refreshed tokens')) →
      i = j := by
  intro c i j token tokens tokens' hi hj hresi hresj
  obtain ⟨hconforms, hI⟩ := run_singleExchanges hexclusive
  have hwrote (k : ℕ) (pair : TokenPair) (hk : requests k = .refresh token)
      (hres : c.result k = some (.ok (.refreshed pair))) :
      ∃ e ∈ c.log, exchangedBy requests e = some token ∧ e.caller = k := by
    obtain ⟨userId, hash, hmem⟩ := hconforms.returned hres pair rfl
    exact ⟨_, mem_own.mp hmem, exchangedBy_some.mpr ⟨⟨hash, rfl⟩, hk⟩, rfl⟩
  obtain ⟨e, he, hexchanged, rfl⟩ := hwrote i tokens hi hresi
  obtain ⟨e', he', hexchanged', rfl⟩ := hwrote j tokens' hj hresj
  exact hI.alone e he e' he' token hexchanged hexchanged'

end Run

section Example

/-- A login, then refreshes with the token it has got. -/
def oneLogin : ℕ → SessionRequest
  | 0 => .login "one@example.com" "Passw0rd!"
  | _ => .refresh (memberToken 1709164800 604800)

def oneMember : Store := opening [activeMember] 1709164800000

def steps (i n : ℕ) : AuthSchedule := List.replicate n (.step i .done)

instance (signing : Signing) (requests : ℕ → SessionRequest) (s : Store) (log : AuthLog) (i : ℕ)
    (op : AuthOp) (o : Outcome Exception) :
    Decidable ((exclusive signing requests).call s log i op o) :=
  inferInstanceAs (Decidable (∀ hash ∈ op.writtenHash, _))

instance (signing : Signing) (requests : ℕ → SessionRequest) (x : Environment) :
    Decidable ((exclusive signing requests).env x) := .isTrue trivial

def oneAfterAnother : AuthSchedule :=
  steps 0 4 ++ .env (.tick 1000) :: steps 1 5 ++ .env (.tick 1000) :: steps 2 3

theorem exchanged_once_oneAfterAnother :
    let c := (SessionState.start sampleSessions oneMember oneLogin).run
      (backend sampleSessions.toSetting) oneAfterAnother
    (∃ tokens, c.result 1 = some (.ok (.refreshed tokens))) ∧
      ∀ i j token tokens tokens', oneLogin i = .refresh token → oneLogin j = .refresh token →
        c.result i = some (.ok (.refreshed tokens)) →
        c.result j = some (.ok (.refreshed tokens')) → i = j := by
  intro c
  have hrun : c.result 1 = some (.ok (.refreshed
        ⟨memberToken 1709164801 900, memberToken 1709164801 604800⟩)) ∧
      (exclusive sampleSessions.signing oneLogin).Along (backend sampleSessions.toSetting)
        (SessionState.start sampleSessions oneMember oneLogin) oneAfterAnother := by
    decide +kernel
  exact ⟨⟨_, hrun.1⟩, exchanged_once hrun.2⟩

/-- Two refreshes have compared the hash before either overwrites it. -/
def bothCompared : AuthSchedule :=
  steps 0 4 ++ .env (.tick 1000) :: steps 1 2 ++ steps 2 2 ++ steps 1 3 ++
    .env (.tick 1000) :: steps 2 3

/-- Both get a new pair for the same token. -/
theorem exchanged_twice :
    let c := (SessionState.start sampleSessions oneMember oneLogin).run
      (backend sampleSessions.toSetting) bothCompared
    oneLogin 1 = .refresh (memberToken 1709164800 604800) ∧ oneLogin 2 = oneLogin 1 ∧
      (∃ tokens, c.result 1 = some (.ok (.refreshed tokens))) ∧
      ∃ tokens, c.result 2 = some (.ok (.refreshed tokens)) := by
  intro c
  have hboth : c.result 1 = some (.ok (.refreshed
        ⟨memberToken 1709164801 900, memberToken 1709164801 604800⟩)) ∧
      c.result 2 = some (.ok (.refreshed
        ⟨memberToken 1709164802 900, memberToken 1709164802 604800⟩)) := by
    decide +kernel
  exact ⟨rfl, rfl, ⟨_, hboth.1⟩, ⟨_, hboth.2⟩⟩

end Example

end StockMarket.Auth
