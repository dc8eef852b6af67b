import StockMarket.Auth.Sequential
import Mathlib.Data.List.MinMax

/-! # Passwords and verified codes

`used` says two things of a one-time password: a verification has accepted it,
or a newer one has replaced it. `setPassword` takes either for the first.
-/

namespace StockMarket.Auth
open Interleaving Prog

section Extension

/-- A one-time password later on: only its flag may have gone up. -/
structure OtpVerification.Kept (otp otp' : OtpVerification) : Prop where
  userId : otp'.userId = otp.userId
  code : otp'.code = otp.code
  purpose : otp'.purpose = otp.purpose
  createdAt : otp'.createdAt = otp.createdAt
  used : otp.used → otp'.used

theorem OtpVerification.Kept.refl (otp : OtpVerification) : otp.Kept otp :=
  ⟨rfl, rfl, rfl, rfl, id⟩

theorem OtpVerification.Kept.trans {otp otp' otp'' : OtpVerification} (h : otp.Kept otp')
    (h' : otp'.Kept otp'') : otp.Kept otp'' where
  userId := h'.userId.trans h.userId
  code := h'.code.trans h.code
  purpose := h'.purpose.trans h.purpose
  createdAt := h'.createdAt.trans h.createdAt
  used := fun hu => h'.used (h.used hu)

theorem OtpVerification.kept_markUsed (otp : OtpVerification) : otp.Kept otp.markUsed :=
  ⟨rfl, rfl, rfl, rfl, fun _ => rfl⟩

/-- A later store: one-time passwords are kept, and so are users' emails. -/
structure Store.Extends (s s' : Store) : Prop where
  otps : ∀ (otpId : ℕ) (otp : OtpVerification), s.otps[otpId]? = some otp →
    ∃ otp', s'.otps[otpId]? = some otp' ∧ otp.Kept otp'
  users : ∀ (userId : ℕ) (user : User), s.users[userId]? = some user →
    ∃ user', s'.users[userId]? = some user' ∧ user'.email = user.email

theorem Store.Extends.refl (s : Store) : s.Extends s where
  otps _ otp h := ⟨otp, h, .refl otp⟩
  users _ user h := ⟨user, h, rfl⟩

theorem Store.Extends.trans {s s' s'' : Store} (h : s.Extends s') (h' : s'.Extends s'') :
    s.Extends s'' where
  otps otpId otp hotp := by
    obtain ⟨otp', hotp', hkept⟩ := h.otps otpId otp hotp
    obtain ⟨otp'', hotp'', hkept'⟩ := h'.otps otpId otp' hotp'
    exact ⟨otp'', hotp'', hkept.trans hkept'⟩
  users userId user huser := by
    obtain ⟨user', huser', hemail⟩ := h.users userId user huser
    obtain ⟨user'', huser'', hemail'⟩ := h'.users userId user' huser'
    exact ⟨user'', huser'', hemail'.trans hemail⟩

theorem getElem?_append_of_some {α : Type} {docs : List α} {i : ℕ} {doc : α}
    (h : docs[i]? = some doc) (new : List α) : (docs ++ new)[i]? = some doc :=
  (List.getElem?_append_left (List.getElem?_eq_some_iff.mp h).1).trans h

theorem getElem?_modify_kept {α : Type} {docs : List α} (f : α → α) {R : α → α → Prop}
    (hrefl : ∀ a, R a a) (hf : ∀ a, R a (f a)) {id i : ℕ} {doc : α} (h : docs[i]? = some doc) :
    ∃ doc', (docs.modify id f)[i]? = some doc' ∧ R doc doc' := by
  rw [List.getElem?_modify, h]
  by_cases hi : id = i
  · exact ⟨f doc, by simp [hi], hf doc⟩
  · exact ⟨doc, by simp [hi], hrefl doc⟩

theorem extends_users {s : Store} {users : List User}
    (h : ∀ (userId : ℕ) (user : User), s.users[userId]? = some user →
      ∃ user', users[userId]? = some user' ∧ user'.email = user.email) :
    s.Extends { s with users := users } where
  otps _ otp hotp := ⟨otp, hotp, .refl otp⟩
  users := h

theorem extends_otps {s : Store} {otps : List OtpVerification}
    (h : ∀ (otpId : ℕ) (otp : OtpVerification), s.otps[otpId]? = some otp →
      ∃ otp', otps[otpId]? = some otp' ∧ otp.Kept otp') :
    s.Extends { s with otps := otps } where
  otps := h
  users _ user huser := ⟨user, huser, rfl⟩

theorem extends_exec (newest : ℕ → NewestFirst) (op : AuthOp) (s : Store) :
    s.Extends (exec newest op s).2 := by
  cases op with
  | createUser doc =>
    rw [exec]
    split
    · exact .refl s
    · exact extends_users fun userId user h =>
        ⟨user, getElem?_append_of_some h _, rfl⟩
  | saveUser userId set =>
    exact extends_users fun _ _ h => getElem?_modify_kept set.apply
      (R := fun a b => b.email = a.email) (fun _ => rfl) (fun _ => rfl) h
  | setRefreshToken userId hash =>
    exact extends_users fun _ _ h => getElem?_modify_kept (User.setRefreshToken hash)
      (R := fun a b => b.email = a.email) (fun _ => rfl) (fun _ => rfl) h
  | unsetRefreshToken userId =>
    exact extends_users fun _ _ h => getElem?_modify_kept User.unsetRefreshToken
      (R := fun a b => b.email = a.email) (fun _ => rfl) (fun _ => rfl) h
  | invalidateOtps userId purpose =>
    apply extends_otps
    intro otpId otp h
    rw [List.getElem?_map, h]
    refine ⟨_, rfl, ?_⟩
    dsimp only
    split
    · exact otp.kept_markUsed
    · exact .refl otp
  | createOtp userId code purpose expiresAt =>
    exact extends_otps fun otpId otp h => ⟨otp, getElem?_append_of_some h _, .refl otp⟩
  | saveOtpUsed otpId =>
    exact extends_otps fun _ _ h =>
      getElem?_modify_kept _ .refl OtpVerification.kept_markUsed h
  | emitOtp event => exact ⟨(Store.Extends.refl s).otps, (Store.Extends.refl s).users⟩
  | emitMemberRegistered event =>
    exact ⟨(Store.Extends.refl s).otps, (Store.Extends.refl s).users⟩
  | _ => exact .refl s

variable (setting : Setting)

theorem extends_occur (n : ℕ) (s : Store) (e : AuthEvent) :
    s.Extends (e.occur (backend setting) (fun call r => r.serve setting call) n s).2 := by
  cases e with
  | env x =>
    cases x
    exact ⟨(Store.Extends.refl s).otps, (Store.Extends.refl s).users⟩
  | call r =>
    exact (sends_true _).run_invariant (exec setting.newest) _ (I := fun s' => s.Extends s')
      (fun op x _ hx => hx.trans (extends_exec setting.newest op x)) s (.refl s)

theorem extends_after (n : ℕ) (s : Store) (events : List AuthEvent) :
    s.Extends (after (backend setting) (fun call r => r.serve setting call) n s events) :=
  after_invariant _ _ (I := fun _ s' => s.Extends s')
    (fun n s' e _ h => h.trans (extends_occur setting n s' e)) (.refl s)

end Extension

section Marks
variable {setting : Setting} {n : ℕ} {s : Store} {otpId : ℕ} {otp' : OtpVerification}

def Store.Owned (s : Store) : Prop := ∀ otp ∈ s.otps, otp.userId < s.users.length

theorem Store.Owned.sendOtp (h : s.Owned) {userId : ℕ} (huser : userId < s.users.length)
    (user : User) (purpose : OtpPurpose) : (s.sendOtp setting n userId user purpose).Owned := by
  intro otp hotp
  rcases List.mem_append.mp hotp with hold | hnew
  · obtain ⟨old, hmem, rfl⟩ := List.mem_map.mp hold
    split
    · exact h old hmem
    · exact h old hmem
  · rw [List.mem_singleton.mp hnew]
    exact huser

theorem Store.Owned.useOtp (h : s.Owned) (otpId : ℕ) : (s.useOtp otpId).Owned := by
  intro otp hotp
  obtain ⟨i, hi⟩ := List.mem_iff_getElem?.mp hotp
  rw [Store.useOtp, List.getElem?_modify] at hi
  obtain ⟨old, hold, rfl⟩ := Option.map_eq_some_iff.mp hi
  have hlt := h old (List.mem_of_getElem? hold)
  split
  · exact hlt
  · exact hlt

theorem lt_of_userOf {email : String} {userId : ℕ} {user : User}
    (h : s.userOf email = some (userId, user)) : userId < s.users.length :=
  (List.getElem?_eq_some_iff.mp (userOf_some h).1).1

theorem Served.owned {r : Request} {out : Except Exception String × Store}
    (h : Served setting n s r out) (hs : s.Owned) : out.2.Owned := by
  cases h with
  | registered dto message h =>
    refine Store.Owned.sendOtp ?_ ?_ dto.user _
    · intro otp hotp
      simpa using Nat.lt_succ_of_lt (hs otp hotp)
    · simp
  | verified email code message userId otpId user otp huser hotp => exact hs.useOtp otpId
  | resent email message userId user huser hunverified =>
    exact hs.sendOtp (lt_of_userOf huser) user _
  | forgot email message userId user huser => exact hs.sendOtp (lt_of_userOf huser) user _
  | activated email code password message userId otpId user otp huser hotp =>
    intro otp hotp
    simpa using hs otp hotp
  | reset email code newPassword message userId otpId user otp huser hotp =>
    intro otp hotp
    simp only [List.length_modify]
    exact hs.useOtp otpId otp hotp
  | _ => exact hs

/-- Where a one-time password stands after a new one was sent: it is the new
one, unused, or it was there, and replaced if it was an unused one of the same
user and purpose. -/
theorem getElem?_sendOtp {userId : ℕ} {user : User} {purpose : OtpPurpose}
    (h : (s.sendOtp setting n userId user purpose).otps[otpId]? = some otp') :
    ¬otp'.used ∨ s.otps[otpId]? = some otp' ∨
      ∃ otp, s.otps[otpId]? = some otp ∧ otp' = otp.markUsed ∧ otp.userId = userId ∧
        otp.purpose = purpose ∧ ¬otp.used := by
  rw [Store.sendOtp, List.getElem?_append] at h
  split at h
  · rw [List.getElem?_map] at h
    obtain ⟨otp, hotp, rfl⟩ := Option.map_eq_some_iff.mp h
    split
    · exact .inr (.inr ⟨otp, hotp, rfl, ‹_›⟩)
    · exact .inr (.inl hotp)
  · obtain ⟨_, hnew⟩ := List.getElem?_eq_some_iff.mp h
    rw [List.getElem_singleton] at hnew
    exact .inl (hnew ▸ Bool.false_ne_true)

theorem getElem?_useOtp {id : ℕ} (h : (s.useOtp id).otps[otpId]? = some otp') :
    s.otps[otpId]? = some otp' ∨
      ∃ otp, s.otps[otpId]? = some otp ∧ otp' = otp.markUsed ∧ id = otpId := by
  rw [Store.useOtp, List.getElem?_modify] at h
  obtain ⟨otp, hotp, rfl⟩ := Option.map_eq_some_iff.mp h
  split
  · exact .inr ⟨otp, hotp, rfl, ‹_›⟩
  · exact .inl hotp

/-- The accepted one-time password is stored, and is the user's for the purpose. -/
theorem Store.Accepts.stored {userId : ℕ} {code : String} {purpose : OtpPurpose}
    {otp : OtpVerification} (h : s.Accepts setting n userId code purpose otpId otp) :
    s.otps[otpId]? = some otp ∧ otp.userId = userId ∧ otp.purpose = purpose := by
  obtain ⟨hstored, huser, hpurpose, -⟩ := pick_stored h.picked
  exact ⟨hstored, huser, hpurpose⟩

/-- `verifyOtp(email, code)`, served in `s`, succeeds on this one-time password of
the user's: the flag of an EMAIL_VERIFICATION one with that code goes up. -/
structure VerifiesOn (setting : Setting) (n : ℕ) (s : Store) (email code : String) (otpId : ℕ)
    (otp : OtpVerification) : Prop where
  succeeds : ∃ message, (((Request.verifyOtp email code).serve setting n).run
    (exec setting.newest) answered s).1 = .ok message
  stored : s.otps[otpId]? = some otp
  flag : ¬otp.used ∧ (((Request.verifyOtp email code).serve setting n).run
    (exec setting.newest) answered s).2.otps[otpId]? = some otp.markUsed
  purpose : otp.purpose = .emailVerification
  code : otp.code = code
  owner : ∃ user, s.userOf email = some (otp.userId, user)

/-- `resendOtp(email)`, served in `s`, replaces this one-time password, which
nobody has verified. -/
structure Replaces (s : Store) (email : String) (otpId : ℕ) (otp : OtpVerification) : Prop where
  stored : s.otps[otpId]? = some otp
  purpose : otp.purpose = .emailVerification
  unverified : ¬otp.used
  owner : ∃ user, s.userOf email = some (otp.userId, user) ∧ ¬user.emailVerified

/-- What puts up the flag of an EMAIL_VERIFICATION one-time password. -/
theorem used_occur (hs : s.Owned) (e : AuthEvent)
    (h : (e.occur (backend setting) (fun call r => r.serve setting call) n s).2.otps[otpId]? =
      some otp') (hpurpose : otp'.purpose = .emailVerification) (hused : otp'.used) :
    s.otps[otpId]? = some otp' ∨
      (∃ email code otp, e = .call (.verifyOtp email code) ∧
        VerifiesOn setting n s email code otpId otp) ∨
      ∃ email otp, e = .call (.resendOtp email) ∧ Replaces s email otpId otp := by
  cases e with
  | env x =>
    cases x
    exact .inl h
  | call r =>
    have hserved := served setting n s r
    simp only [Event.occur] at h
    generalize hout : (r.serve setting n).run (exec setting.newest) answered s = out at hserved
    rw [show (r.serve setting n).run (backend setting).exec (fun _ => .done) s = out from hout] at h
    cases hserved with
    | refused r e => exact .inl h
    | resentUnknown email message huser => exact .inl h
    | forgotUnknown email message huser => exact .inl h
    | activated email code password message userId otpId user otp huser hotp => exact .inl h
    | registered dto message hrefuses =>
      rcases getElem?_sendOtp h with hnew | hold | ⟨otp, hotp, -, huser, -⟩
      · exact absurd hused hnew
      · exact .inl hold
      · have hlt := hs otp (List.mem_of_getElem? hotp)
        omega
    | verified email code message userId id user otp huser hotp =>
      rcases getElem?_useOtp h with hold | ⟨otp₀, hotp₀, rfl, rfl⟩
      · exact .inl hold
      · obtain ⟨hstored, rfl, hfor⟩ := hotp.stored
        obtain rfl := Option.some.inj (hotp₀.symm.trans hstored)
        refine .inr (.inl ⟨email, code, otp₀, rfl, ?_⟩)
        exact ⟨⟨message, by rw [hout]⟩, hstored, ⟨hotp.unused, by rw [hout]; exact h⟩, hfor,
          hotp.code, user, huser⟩
    | resent email message userId user huser hunverified =>
      rcases getElem?_sendOtp h with hnew | hold | ⟨otp, hotp, -, rfl, hfor, hunused⟩
      · exact absurd hused hnew
      · exact .inl hold
      · exact .inr (.inr ⟨email, otp, rfl, hotp, hfor, hunused, user, huser, hunverified⟩)
    | forgot email message userId user huser =>
      rcases getElem?_sendOtp h with hnew | hold | ⟨otp, hotp, rfl, -, hfor, -⟩
      · exact absurd hused hnew
      · exact .inl hold
      · exact absurd (hfor.symm.trans hpurpose) (by decide)
    | reset email code newPassword message userId id user otp huser hotp =>
      rcases getElem?_useOtp h with hold | ⟨otp₀, hotp₀, rfl, rfl⟩
      · exact .inl hold
      · obtain ⟨hstored, -, hfor⟩ := hotp.stored
        obtain rfl := Option.some.inj (hotp₀.symm.trans hstored)
        exact absurd (hfor.symm.trans hpurpose) (by decide)

end Marks

/-- The users of a database in which no one-time password has been made yet. -/
def opening (users : List User) (now : Time) : Store where
  users := users
  otps := []
  now := now
  otpOutbox := []
  memberOutbox := []

def Store.after (start : Store) (setting : Setting) (events : List AuthEvent) : Store :=
  Interleaving.after (backend setting) (fun call r => r.serve setting call) 0 start events

section Runs
variable {setting : Setting} {users : List User} {now : Time}

theorem owned_after (events : List AuthEvent) : ((opening users now).after setting events).Owned :=
  after_invariant _ _ (I := fun _ (s : Store) => s.Owned)
    (fun n s e _ hs => by
      cases e with
      | env x =>
        cases x
        exact hs
      | call r => exact (served setting n s r).owned hs)
    (fun _ h => absurd h List.not_mem_nil)

theorem extends_later (setting : Setting) (start : Store) (first rest : List AuthEvent) :
    (start.after setting first).Extends (start.after setting (first ++ rest)) := by
  rw [Store.after, Store.after, after_append]
  exact extends_after setting _ _ rest

/-- A flag that is up was put up by a verification or by a new one-time password. -/
theorem explained (events : List AuthEvent) {otpId : ℕ} {otp : OtpVerification}
    (h : ((opening users now).after setting events).otps[otpId]? = some otp)
    (hpurpose : otp.purpose = .emailVerification) (hused : otp.used) :
    (∃ first email code otp₀ rest, events = first ++ .call (.verifyOtp email code) :: rest ∧
      VerifiesOn setting first.length ((opening users now).after setting first) email code otpId
        otp₀) ∨
    ∃ first email otp₀ rest, events = first ++ .call (.resendOtp email) :: rest ∧
      Replaces ((opening users now).after setting first) email otpId otp₀ := by
  induction events using List.reverseRecOn with
  | nil => simp [Store.after, opening] at h
  | append_singleton events e ih =>
    rw [Store.after, after_concat] at h
    rcases used_occur (owned_after events) e h hpurpose hused with
      hold | ⟨email, code, otp₀, rfl, hverifies⟩ | ⟨email, otp₀, rfl, hreplaces⟩
    · rcases ih hold with
        ⟨first, email, code, otp₀, rest, rfl, hverifies⟩ |
        ⟨first, email, otp₀, rest, rfl, hreplaces⟩
      · exact .inl ⟨first, email, code, otp₀, rest ++ [e], by simp, hverifies⟩
      · exact .inr ⟨first, email, otp₀, rest ++ [e], by simp, hreplaces⟩
    · exact .inl ⟨events, email, code, otp₀, [], rfl, hverifies⟩
    · exact .inr ⟨events, email, otp₀, [], rfl, hreplaces⟩

theorem email_later {start : Store} {first rest : List AuthEvent} {email email' : String}
    {userId : ℕ} {user user' : User}
    (h : (start.after setting first).userOf email = some (userId, user))
    (h' : (start.after setting (first ++ rest)).userOf email' = some (userId, user')) :
    email = email' := by
  obtain ⟨hstored, hemail⟩ := userOf_some h
  obtain ⟨hstored', hemail'⟩ := userOf_some h'
  obtain ⟨later, hlater, hsame⟩ :=
    (extends_later setting start first rest).users userId user hstored
  obtain rfl := Option.some.inj (hstored'.symm.trans hlater)
  rw [← hemail, ← hemail', hsame]

/-- A one-time password that vouches for a user's code had the code before, was as
old, and belonged to the email. -/
theorem vouches_before {start : Store} {first rest : List AuthEvent} {email email' code : String}
    {userId otpId : ℕ} {user owner : User} {otp otp₀ : OtpVerification}
    (huser : (start.after setting (first ++ rest)).userOf email = some (userId, user))
    (hotp : (start.after setting (first ++ rest)).Vouches userId code otpId otp)
    (hstored : (start.after setting first).otps[otpId]? = some otp₀)
    (howner : (start.after setting first).userOf email' = some (otp₀.userId, owner)) :
    email' = email ∧ otp₀.code = code ∧
      (start.after setting (first ++ rest)).now - OtpService.graceWindow ≤ otp₀.createdAt := by
  obtain ⟨later, hlater, hkept⟩ := (extends_later setting start first rest).otps otpId otp₀ hstored
  obtain rfl := Option.some.inj (hotp.stored.symm.trans hlater)
  have hsame : userId = otp₀.userId := hotp.userId.symm.trans hkept.userId
  exact ⟨email_later howner (hsame ▸ huser), hkept.code.symm.trans hotp.code,
    hkept.createdAt ▸ hotp.recent⟩

/-- A `setPassword` that succeeds has found its user and a used one-time password. -/
theorem setPassword_vouched {n : ℕ} {s : Store} {email code password message : String}
    (h : (((Request.setPassword email code password).serve setting n).run (exec setting.newest)
      answered s).1 = .ok message) :
    ∃ userId user otpId otp, s.userOf email = some (userId, user) ∧
      s.Vouches userId code otpId otp := by
  have hserved := served setting n s (.setPassword email code password)
  generalize ((Request.setPassword email code password).serve setting n).run
    (exec setting.newest) answered s = out at hserved h
  cases hserved with
  | refused r e => cases h
  | activated _ _ _ _ userId otpId user otp huser hotp =>
    exact ⟨userId, user, otpId, otp, huser, hotp⟩

end Runs

/-- In the run so far, `verifyOtp(email, code)` has succeeded on a one-time password
of the user's that is at most 15 minutes old. -/
def VerifiedBefore (setting : Setting) (start : Store) (run : List AuthEvent)
    (email code : String) : Prop :=
  ∃ first rest otpId otp, run = first ++ .call (.verifyOtp email code) :: rest ∧
    VerifiesOn setting first.length (start.after setting first) email code otpId otp ∧
    (start.after setting run).now - OtpService.graceWindow ≤ otp.createdAt

/-- In the run so far, `resendOtp(email)` has replaced a one-time password with this
code that nobody had verified and that is at most 15 minutes old. -/
def ReplacedBefore (setting : Setting) (start : Store) (run : List AuthEvent)
    (email code : String) : Prop :=
  ∃ first rest otpId otp, run = first ++ .call (.resendOtp email) :: rest ∧
    Replaces (start.after setting first) email otpId otp ∧ otp.code = code ∧
    (start.after setting run).now - OtpService.graceWindow ≤ otp.createdAt

/-- The request succeeds as the next event of the run. -/
def Succeeds (setting : Setting) (start : Store) (run : List AuthEvent) (r : Request) : Prop :=
  ∃ message, ((r.serve setting run.length).run (exec setting.newest) answered
    (start.after setting run)).1 = .ok message

instance (setting : Setting) (start : Store) (run : List AuthEvent) (r : Request) :
    Decidable (Succeeds setting start run r) :=
  match h : ((r.serve setting run.length).run (exec setting.newest) answered
    (start.after setting run)).1 with
  | .ok message => .isTrue ⟨message, h⟩
  | .error _ => .isFalse fun ⟨message, hm⟩ => by rw [h] at hm; cases hm

/-- After any run, a `setPassword` that succeeds had its code verified, as long as
the code is not that of a one-time password replaced unverified. -/
theorem setPassword_verified (setting : Setting) (users : List User) (now : Time)
    (run : List AuthEvent) (email code password : String)
    (hreplaced : ¬ReplacedBefore setting (opening users now) run email code)
    (hsucceeds : Succeeds setting (opening users now) run (.setPassword email code password)) :
    VerifiedBefore setting (opening users now) run email code := by
  obtain ⟨message, hmessage⟩ := hsucceeds
  obtain ⟨userId, user, otpId, otp, huser, hotp⟩ := setPassword_vouched hmessage
  rcases explained run hotp.stored hotp.purpose hotp.used with
    ⟨first, email', code', otp₀, rest, rfl, hverifies⟩ |
    ⟨first, email', otp₀, rest, rfl, hreplaces⟩
  · obtain ⟨owner, howner⟩ := hverifies.owner
    obtain ⟨rfl, hcode, hrecent⟩ := vouches_before huser hotp hverifies.stored howner
    obtain rfl : code' = code := hverifies.code.symm.trans hcode
    exact ⟨first, rest, otpId, otp₀, rfl, hverifies, hrecent⟩
  · obtain ⟨owner, howner, -⟩ := hreplaces.owner
    obtain ⟨rfl, hcode, hrecent⟩ := vouches_before huser hotp hreplaces.stored howner
    exact absurd ⟨first, rest, otpId, otp₀, rfl, hreplaces, hcode, hrecent⟩ hreplaced

section Example

/-- Among the newest, the one stored first. -/
def latest : NewestFirst where
  pick docs := docs.argmax fun doc => doc.2.createdAt
  mem _ _ h := List.argmax_mem h
  newest _ _ h _ hother :=
    List.le_of_mem_argmax (f := fun doc : ℕ × OtpVerification => doc.2.createdAt) hother h
  exhaustive _ h := List.argmax_eq_none.mp h

/-- Call number `n` draws the code of six digits `n`. -/
def sample : Setting where
  expiresMinutes := 10
  randomBytes n := List.replicate 6 (Fin.ofNat 256 n)
  newest _ := latest

def newcomer : RegisterDto where
  fullName := "Member One"
  email := "one@example.com"
  nationalId := "12345"
  dateOfBirth := ⟨1995, 6, 15⟩

def verifiedRun : List AuthEvent :=
  [.call (.register newcomer), .call (.verifyOtp "one@example.com" "000000")]

theorem setPassword_verified_newcomer :
    VerifiedBefore sample (opening [] 1709164800000) verifiedRun "one@example.com" "000000" := by
  refine setPassword_verified sample [] 1709164800000 verifiedRun "one@example.com" "000000"
    "Passw0rd!" ?_ ?_
  · rintro ⟨first, rest, otpId, otp, hrun, -⟩
    have hmem : (.call (.resendOtp "one@example.com") : AuthEvent) ∈ verifiedRun := by simp [hrun]
    simp [verifiedRun] at hmem
  · decide +kernel

/-- Registration, then a new code is asked for. Nobody verifies anything. -/
def replacedRun : List AuthEvent :=
  [.call (.register newcomer), .call (.resendOtp "one@example.com")]

/-- The replaced code sets a password. -/
theorem unverified_setPassword :
    Succeeds sample (opening [] 1709164800000) replacedRun
        (.setPassword "one@example.com" "000000" "Passw0rd!") ∧
      ¬VerifiedBefore sample (opening [] 1709164800000) replacedRun "one@example.com" "000000" := by
  refine ⟨by decide +kernel, ?_⟩
  rintro ⟨first, rest, otpId, otp, hrun, -⟩
  have hmem : (.call (.verifyOtp "one@example.com" "000000") : AuthEvent) ∈ replacedRun := by
    simp [hrun]
  simp [replacedRun] at hmem

end Example
end StockMarket.Auth
