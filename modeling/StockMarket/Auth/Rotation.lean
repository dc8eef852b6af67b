import StockMarket.Auth.Sessions
import StockMarket.Auth.Verification

/-! # Which refresh tokens are accepted

Login, refresh and logout calls, one after the other. The stored hash covers the
first 72 bytes of the refresh token, and these are the same for all tokens of one
user, so a refresh succeeds with any unexpired token of a user who has a session.
-/

namespace StockMarket.Auth
open Interleaving Prog

abbrev SessionEvent := Event SessionRequest Environment

/-- A session request and the result its caller sees. -/
abbrev SessionExchange := SessionRequest × Except Exception SessionAnswer

def Token.subject : Token → Option ℕ
  | .signed payload => some payload.sub
  | .forged _ => none

def SessionAnswer.issued : SessionAnswer → Option Token
  | .loggedIn tokens _ => some tokens.refreshToken
  | .refreshed tokens => some tokens.refreshToken
  | .loggedOut _ => none

namespace SessionExchange

/-- The refresh token that the caller has got. -/
def issued : SessionExchange → Option Token
  | (_, .ok answer) => answer.issued
  | (_, .error _) => none

/-- The caller is told that the user's session is over. -/
def Revokes (userId : ℕ) : SessionExchange → Prop
  | (.logout id, .ok _) => id = userId
  | (.refresh token, .error e) => token.subject = some userId ∧ e = AuthService.reuseDetected
  | _ => False

instance (userId : ℕ) (x : SessionExchange) : Decidable (x.Revokes userId) :=
  match x with
  | (.logout id, .ok _) => inferInstanceAs (Decidable (id = userId))
  | (.refresh _, .error _) => inferInstanceAs (Decidable (_ ∧ _))
  | (.login _ _, _) => .isFalse id
  | (.logout _, .error _) => .isFalse id
  | (.refresh _, .ok _) => .isFalse id

end SessionExchange

/-- The refresh token issued to the user last, unless revoked since, after one more
exchange. -/
def noteExchange (userId : ℕ) (current : Option Token) (x : SessionExchange) : Option Token :=
  match x.issued with
  | some token => if token.subject = some userId then some token else current
  | none => if x.Revokes userId then none else current

/-- The refresh token issued to the user last and not revoked since. -/
def latestToken (userId : ℕ) (history : List SessionExchange) : Option Token :=
  history.foldl (noteExchange userId) none

def noSessions (users : List User) (now : Time) : Store :=
  opening (users.map User.unsetRefreshToken) now

section Runs
variable (setting : SessionSetting)

def Store.afterSessions (start : Store) (events : List SessionEvent) : Store :=
  Interleaving.after (backend setting.toSetting) (SessionRequest.serve .bcrypt setting) 0 start
    events

def Store.seenIn (start : Store) (events : List SessionEvent) : List SessionExchange :=
  Interleaving.exchanges (backend setting.toSetting) (SessionRequest.serve .bcrypt setting) 0 start
    events

/-- The `n`-th event, a refresh with this token, is answered with a new pair. -/
def Refreshes (n : ℕ) (s : Store) (token : Token) : Prop :=
  ∃ tokens, (((SessionRequest.refresh token).serve .bcrypt setting n).run (exec setting.newest)
    answered s).1 = .ok (.refreshed tokens)

/-- Every refresh that succeeds presents the refresh token issued to its user last and
not revoked since. -/
def OnlyLatestRefreshes (start : Store) (events : List SessionEvent) : Prop :=
  ∀ before token later, events = before ++ .call (.refresh token) :: later →
    Refreshes setting before.length (start.afterSessions setting before) token →
    ∃ userId, token.subject = some userId ∧
      latestToken userId (start.seenIn setting before) = some token

/-- Whenever an unexpired token of a user who has a session and is not suspended is
presented, it is the refresh token issued last. -/
def OnlyLatestPresented (start : Store) (events : List SessionEvent) : Prop :=
  ∀ before token later payload user, events = before ++ .call (.refresh token) :: later →
    token.verify (start.afterSessions setting before).now = some payload →
    (start.afterSessions setting before).users[payload.sub]? = some user →
    user.status ≠ .suspended →
    latestToken payload.sub (start.seenIn setting before) ≠ none →
    latestToken payload.sub (start.seenIn setting before) = some token

end Runs

section Latest
variable {userId : ℕ} {history : List SessionExchange} {x : SessionExchange} {token : Token}

theorem latestToken_concat :
    latestToken userId (history ++ [x]) = noteExchange userId (latestToken userId history) x := by
  rw [latestToken, List.foldl_append]
  rfl

theorem latestToken_issued (hx : x.issued = some token) : latestToken userId (history ++ [x]) =
    if token.subject = some userId then some token else latestToken userId history := by
  rw [latestToken_concat, noteExchange, hx]

theorem latestToken_not_issued (hx : x.issued = none) : latestToken userId (history ++ [x]) =
    if x.Revokes userId then none else latestToken userId history := by
  rw [latestToken_concat, noteExchange, hx]

end Latest

/-- The stored hash of a user who has a session is that of some token of the user, and
of all of them. -/
structure Tracks (signing : Signing) (s : Store) (history : List SessionExchange) : Prop where
  session : ∀ (userId : ℕ) (user : User), s.users[userId]? = some user →
    (user.refreshTokenHash = none ↔ latestToken userId history = none)
  hash : ∀ (userId : ℕ) (user : User) (hash : Hash), s.users[userId]? = some user →
    user.refreshTokenHash = some hash → ∃ salt, hash =
      .bcrypt salt ((tokenStart (signing.objectId userId)).toUTF8.toList.take bcryptBytes)

section Tracking
variable {setting : SessionSetting} {s : Store} {history : List SessionExchange}
  {x : SessionExchange}

@[simp] theorem subject_issued {userId : ℕ} {user : User} :
    (s.issued setting userId user).refreshToken.subject = some userId := rfl

theorem Tracks.kept (h : Tracks setting.signing s history) (hissued : x.issued = none)
    (hrevokes : ∀ userId, ¬x.Revokes userId) : Tracks setting.signing s (history ++ [x]) := by
  constructor
  · intro userId user huser
    rw [latestToken_not_issued hissued, if_neg (hrevokes userId)]
    exact h.session userId user huser
  · exact h.hash

theorem Tracks.closed (h : Tracks setting.signing s history) {userId : ℕ}
    (hissued : x.issued = none) (hrevokes : ∀ other, x.Revokes other ↔ userId = other) :
    Tracks setting.signing (s.closeSession userId) (history ++ [x]) := by
  constructor
  · intro other user huser
    rw [latestToken_not_issued hissued]
    rcases modify_user huser with ⟨hother, hstored⟩ | ⟨rfl, old, -, rfl⟩
    · rw [if_neg fun hrev => hother ((hrevokes other).mp hrev).symm]
      exact h.session other user hstored
    · rw [if_pos ((hrevokes other).mpr rfl)]
      exact iff_of_true rfl rfl
  · intro other user hash huser hhash
    rcases modify_user huser with ⟨-, hstored⟩ | ⟨rfl, old, -, rfl⟩
    · exact h.hash other user hash hstored hhash
    · cases hhash

theorem Tracks.opened (h : Tracks setting.signing s history) {userId n : ℕ} {owner : User}
    (hissued : x.issued = some (s.issued setting userId owner).refreshToken) :
    Tracks setting.signing (s.openSession .bcrypt setting n userId owner) (history ++ [x]) := by
  constructor
  · intro other user huser
    rw [latestToken_issued hissued, subject_issued]
    rcases modify_user huser with ⟨hother, hstored⟩ | ⟨rfl, old, -, rfl⟩
    · rw [if_neg fun hsub => hother (Option.some.inj hsub).symm]
      exact h.session other user hstored
    · rw [if_pos rfl]
      constructor
      · intro hnone
        cases hnone
      · intro hnone
        cases hnone
  · intro other user hash huser hhash
    rcases modify_user huser with ⟨-, hstored⟩ | ⟨rfl, old, -, rfl⟩
    · exact h.hash other user hash hstored hhash
    · obtain rfl := Option.some.inj hhash
      refine ⟨n, ?_⟩
      exact congrArg (Hash.bcrypt n) (take_text_signed setting.signing _)

theorem Tracks.step (h : Tracks setting.signing s history) (n : ℕ) (r : SessionRequest) :
    Tracks setting.signing
      ((r.serve .bcrypt setting n).run (exec setting.newest) answered s).2
      (history ++ [(r, ((r.serve .bcrypt setting n).run (exec setting.newest) answered s).1)]) := by
  have hserved := sessionServed .bcrypt setting n s r
  generalize (r.serve .bcrypt setting n).run (exec setting.newest) answered s = out at hserved
  cases hserved with
  | refused r e he =>
    apply h.kept rfl
    intro userId hrevokes
    cases r with
    | refresh token => exact he token rfl hrevokes.2
    | login email password => exact hrevokes
    | logout id => exact hrevokes
  | loggedIn email password userId user huser hverified hactive hpassword => exact h.opened rfl
  | refreshed token payload user hash hsession hmatch hactive => exact h.opened rfl
  | reused token payload user hash hsession hmatch =>
    apply h.closed rfl
    intro other
    obtain ⟨rfl, -⟩ := Token.verify_some.mp hsession.verified
    constructor
    · intro hrevokes
      exact Option.some.inj hrevokes.1
    · rintro rfl
      exact ⟨rfl, rfl⟩
  | loggedOut userId message =>
    apply h.closed rfl
    intro other
    exact Iff.rfl

theorem tracks_noSessions (users : List User) (now : Time) :
    Tracks setting.signing (noSessions users now) [] := by
  have hnone (userId : ℕ) (user : User)
      (huser : (noSessions users now).users[userId]? = some user) :
      user.refreshTokenHash = none := by
    obtain ⟨old, -, rfl⟩ := List.mem_map.mp (List.mem_of_getElem? huser)
    rfl
  constructor
  · intro userId user huser
    exact iff_of_true (hnone userId user huser) rfl
  · intro userId user hash huser hhash
    rw [hnone userId user huser] at hhash
    cases hhash

theorem tracks_run (setting : SessionSetting) (users : List User) (now : Time)
    (events : List SessionEvent) :
    Tracks setting.signing ((noSessions users now).afterSessions setting events)
      ((noSessions users now).seenIn setting events) := by
  apply exchanges_invariant (I := Tracks setting.signing)
  · exact tracks_noSessions users now
  · intro n s history r h
    exact h.step n r
  · intro s history env h
    cases env with
    | tick ms => exact ⟨h.session, h.hash⟩

/-- A refresh succeeds exactly with an unexpired token of a user who has a session and
is not suspended. -/
theorem refreshes_iff (h : Tracks setting.signing s history) (n : ℕ) (token : Token) :
    Refreshes setting n s token ↔ ∃ payload user, token.verify s.now = some payload ∧
      s.users[payload.sub]? = some user ∧ user.status ≠ .suspended ∧
        latestToken payload.sub history ≠ none := by
  constructor
  · rintro ⟨tokens, hok⟩
    have hserved := sessionServed .bcrypt setting n s (.refresh token)
    generalize ((SessionRequest.refresh token).serve .bcrypt setting n).run (exec setting.newest)
      answered s = out at hserved hok
    cases hserved with
    | refused r e he => cases hok
    | reused token payload user hash hsession hmatch => cases hok
    | refreshed token payload user hash hsession hmatch hactive =>
      refine ⟨payload, user, hsession.verified, hsession.stored, hactive, ?_⟩
      intro hnone
      have hclosed := (h.session payload.sub user hsession.stored).mpr hnone
      rw [hsession.hash] at hclosed
      cases hclosed
  · rintro ⟨payload, user, hverified, hstored, hactive, hlatest⟩
    have hopen : user.refreshTokenHash ≠ none := fun hclosed =>
      hlatest ((h.session payload.sub user hstored).mp hclosed)
    obtain ⟨hash, hhash⟩ := Option.ne_none_iff_exists'.mp hopen
    obtain ⟨salt, rfl⟩ := h.hash payload.sub user hash hstored hhash
    obtain ⟨rfl, -⟩ := Token.verify_some.mp hverified
    -- the compared bytes are those of every token of the user
    have hmatch : TokenHash.bcrypt.compare ((Token.signed payload).text setting.signing)
        (.bcrypt salt ((tokenStart (setting.signing.objectId payload.sub)).toUTF8.toList.take
          bcryptBytes)) :=
      decide_eq_true (take_text_signed setting.signing payload)
    simp only [Refreshes, run_refresh, hverified, hstored, hhash, hmatch, not_true_eq_false,
      if_false, hactive]
    exact ⟨_, rfl⟩

end Tracking

/-- The refreshes of a run succeed with nothing but the latest refresh token exactly
where nothing else is presented while a session is open. -/
theorem only_latest_iff (setting : SessionSetting) (users : List User) (now : Time)
    (events : List SessionEvent) :
    OnlyLatestRefreshes setting (noSessions users now) events ↔
      OnlyLatestPresented setting (noSessions users now) events := by
  constructor
  · intro h before token later payload user hevents hverified hstored hactive hlatest
    have hok := (refreshes_iff (tracks_run setting users now before) before.length token).mpr
      ⟨payload, user, hverified, hstored, hactive, hlatest⟩
    obtain ⟨userId, hsubject, htoken⟩ := h before token later hevents hok
    obtain ⟨rfl, -⟩ := Token.verify_some.mp hverified
    obtain rfl := Option.some.inj hsubject
    exact htoken
  · intro h before token later hevents hok
    obtain ⟨payload, user, hverified, hstored, hactive, hlatest⟩ :=
      (refreshes_iff (tracks_run setting users now before) before.length token).mp hok
    refine ⟨payload.sub, ?_, h before token later payload user hevents hverified hstored hactive
      hlatest⟩
    obtain ⟨rfl, -⟩ := Token.verify_some.mp hverified
    rfl

section Example

/-- The ids of the first ten documents end in their digits. -/
def sampleId (n : ℕ) : ObjectId where
  text := String.ofList ("65de9f00a1b2c3d4e5f6a7b".toList ++ [Nat.digitChar (n % 10)])
  length_text := by
    rw [String.toList_ofList, List.length_append]
    rfl
  hex_text := by
    have hfirst : "65de9f00a1b2c3d4e5f6a7b".toList.all fun c => c ∈ "0123456789abcdef".toList := by
      decide
    have hlast (d : ℕ) : d < 10 → Nat.digitChar d ∈ "0123456789abcdef".toList := by
      revert d
      decide
    intro c hc
    rw [String.toList_ofList] at hc
    rcases List.mem_append.mp hc with hc | hc
    · exact of_decide_eq_true (List.all_eq_true.mp hfirst c hc)
    · rw [List.mem_singleton.mp hc]
      exact hlast _ (Nat.mod_lt _ (by decide))

def sampleSessions : SessionSetting where
  toSetting := sample
  accessExpiresIn := 900
  signing :=
    { objectId := sampleId, signature := fun _ => "4Adcj3UFYzPUVaVF43FmMab6RlaQD8A9V8wFzzht-KQ" }

def activeMember : User where
  email := "one@example.com"
  nationalId := "12345"
  fullName := "Member One"
  dateOfBirth := ⟨1995, 6, 15⟩
  passwordHash := hashPassword 0 "Passw0rd!"
  status := .active
  emailVerified := true
  suspensionReason := none
  refreshTokenHash := none
  walletBalance := 0
  kycStatus := "none"

/-- What the member's tokens say that are signed at a moment and expire later. -/
def memberToken (iat expiresIn : ℕ) : Token :=
  .signed { sub := 0, email := "one@example.com", iat, exp := iat + expiresIn }

def twoLogins (token : Token) : List SessionEvent :=
  [.call (.login "one@example.com" "Passw0rd!"), .env (.tick 60000),
    .call (.login "one@example.com" "Passw0rd!"), .call (.refresh token)]

/-- The refresh token of the first login is accepted, and so is the access token of the
second. -/
theorem older_token_accepted :
    ¬OnlyLatestRefreshes sampleSessions (noSessions [activeMember] 1709164800000)
        (twoLogins (memberToken 1709164800 604800)) ∧
      ¬OnlyLatestRefreshes sampleSessions (noSessions [activeMember] 1709164800000)
        (twoLogins (memberToken 1709164860 900)) := by
  -- What comes before the refresh is the same for both tokens.
  have hlatest : latestToken 0 ((noSessions [activeMember] 1709164800000).seenIn sampleSessions
      [.call (.login "one@example.com" "Passw0rd!"), .env (.tick 60000),
        .call (.login "one@example.com" "Passw0rd!")]) =
      some (memberToken 1709164860 604800) := by
    decide +kernel
  have hfails (token : Token) (hok : Refreshes sampleSessions 3
        ((noSessions [activeMember] 1709164800000).afterSessions sampleSessions
          ((twoLogins token).take 3)) token)
      (hsubject : token.subject = some 0) (hother : token ≠ memberToken 1709164860 604800) :
      ¬OnlyLatestRefreshes sampleSessions (noSessions [activeMember] 1709164800000)
        (twoLogins token) := by
    intro h
    obtain ⟨userId, hsub, htoken⟩ := h ((twoLogins token).take 3) token [] rfl hok
    obtain rfl := Option.some.inj (hsubject.symm.trans hsub)
    exact hother (Option.some.inj (htoken.symm.trans hlatest))
  constructor
  · apply hfails
    · exact ⟨⟨memberToken 1709164860 900, memberToken 1709164860 604800⟩, by decide +kernel⟩
    · rfl
    · decide
  · apply hfails
    · exact ⟨⟨memberToken 1709164860 900, memberToken 1709164860 604800⟩, by decide +kernel⟩
    · rfl
    · decide

end Example

end StockMarket.Auth
