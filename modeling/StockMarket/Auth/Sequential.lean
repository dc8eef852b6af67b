import StockMarket.Auth.Service
import StockMarket.Interleaving.Sequence

/-! # What each request comes to

One inversion of every request served alone: it is refused and changes nothing,
or it does one of a few things to users and one-time passwords.
-/

namespace StockMarket.Auth
open Interleaving Prog

def answered : AuthOp → Outcome Exception := fun _ => .done

inductive Environment where
  | tick (ms : Time)

def backend (setting : Setting) : Backend AuthOp AuthOp.Reply Store Environment where
  exec := exec setting.newest
  env
    | .tick ms, s => { s with now := s.now + ms }

abbrev AuthEvent := Event Request Environment

namespace Store

def userOf (s : Store) (email : String) : Option (ℕ × User) :=
  findOne s.users fun user => user.email = email

/-- A new one-time password takes the place of the unused ones. -/
def sendOtp (s : Store) (setting : Setting) (n userId : ℕ) (user : User) (purpose : OtpPurpose) :
    Store :=
  { s with
    otps := (s.otps.map fun otp =>
        if otp.userId = userId ∧ otp.purpose = purpose ∧ ¬otp.used then otp.markUsed else otp) ++
      [{ userId, code := generateOtp (setting.randomBytes n), purpose, used := false,
         expiresAt := addMinutes s.now setting.expiresMinutes, createdAt := s.now }]
    otpOutbox := s.otpOutbox ++
      [{ userId, email := user.email, name := user.fullName,
         otp := generateOtp (setting.randomBytes n),
         expiresInMinutes := setting.expiresMinutes }] }

def useOtp (s : Store) (otpId : ℕ) : Store :=
  { s with otps := s.otps.modify otpId OtpVerification.markUsed }

/-- A validation of the code accepts this one-time password. -/
structure Accepts (s : Store) (setting : Setting) (n userId : ℕ) (code : String)
    (purpose : OtpPurpose) (otpId : ℕ) (otp : OtpVerification) : Prop where
  picked : (setting.newest n).pick (s.otpsFor userId purpose) = some (otpId, otp)
  unused : ¬otp.used
  unexpired : s.now ≤ otp.expiresAt
  code : otp.code = code

/-- The query of `wasVerified` finds this one-time password. -/
structure Vouches (s : Store) (userId : ℕ) (code : String) (otpId : ℕ) (otp : OtpVerification) :
    Prop where
  stored : s.otps[otpId]? = some otp
  userId : otp.userId = userId
  purpose : otp.purpose = .emailVerification
  used : otp.used
  code : otp.code = code
  recent : s.now - OtpService.graceWindow ≤ otp.createdAt

end Store

section Find
variable {α : Type} {docs : List α} {p : α → Bool} {id : ℕ} {doc : α}

theorem mem_withIds : (id, doc) ∈ withIds docs ↔ docs[id]? = some doc := by
  simp [withIds, List.mem_zipIdx_iff_getElem?]

theorem findOne_some (h : findOne docs p = some (id, doc)) : docs[id]? = some doc ∧ p doc := by
  obtain ⟨hp, -⟩ := List.find?_eq_some_iff_append.mp h
  exact ⟨mem_withIds.mp (List.mem_of_find?_eq_some h), hp⟩

theorem findOne_isSome :
    (findOne docs p).isSome ↔ ∃ (id : ℕ) (doc : α), docs[id]? = some doc ∧ p doc := by
  rw [findOne, List.find?_isSome]
  constructor
  · rintro ⟨⟨id, doc⟩, hmem, hp⟩
    exact ⟨id, doc, mem_withIds.mp hmem, hp⟩
  · rintro ⟨id, doc, hdoc, hp⟩
    exact ⟨(id, doc), mem_withIds.mpr hdoc, hp⟩

theorem userOf_some {s : Store} {email : String} {user : User}
    (h : s.userOf email = some (id, user)) :
    s.users[id]? = some user ∧ user.email = email := by
  obtain ⟨hstored, hp⟩ := findOne_some h
  exact ⟨hstored, of_decide_eq_true hp⟩

/-- The query for the newest one-time password answers with a stored one. -/
theorem pick_stored {newest : NewestFirst} {s : Store} {userId otpId : ℕ} {purpose : OtpPurpose}
    {otp : OtpVerification} (h : newest.pick (s.otpsFor userId purpose) = some (otpId, otp)) :
    s.otps[otpId]? = some otp ∧ otp.userId = userId ∧ otp.purpose = purpose ∧
      ∀ other ∈ s.otps, other.userId = userId → other.purpose = purpose →
        other.createdAt ≤ otp.createdAt := by
  obtain ⟨hmem, hfor⟩ := List.mem_filter.mp (newest.mem _ _ h)
  obtain ⟨huser, hpurpose⟩ := of_decide_eq_true hfor
  refine ⟨mem_withIds.mp hmem, huser, hpurpose, ?_⟩
  intro other hother huser' hpurpose'
  obtain ⟨id, hid⟩ := List.mem_iff_getElem?.mp hother
  apply newest.newest _ _ h (id, other)
  exact List.mem_filter.mpr ⟨mem_withIds.mpr hid, decide_eq_true ⟨huser', hpurpose'⟩⟩

end Find

/-- How a request served alone can end. -/
inductive Served (setting : Setting) (n : ℕ) (s : Store) :
    Request → Except Exception String × Store → Prop
  | refused (r : Request) (e : Exception) : Served setting n s r (.error e, s)
  | registered (dto : RegisterDto) (message : String) (h : ¬s.Refuses dto.user) :
      Served setting n s (.register dto) (.ok message,
        Store.sendOtp { s with users := s.users ++ [dto.user] } setting n s.users.length dto.user
          .emailVerification)
  | verified (email code message : String) (userId otpId : ℕ) (user : User)
      (otp : OtpVerification) (huser : s.userOf email = some (userId, user))
      (hotp : s.Accepts setting n userId code .emailVerification otpId otp) :
      Served setting n s (.verifyOtp email code) (.ok message, s.useOtp otpId)
  | resentUnknown (email message : String) (huser : s.userOf email = none) :
      Served setting n s (.resendOtp email) (.ok message, s)
  | resent (email message : String) (userId : ℕ) (user : User)
      (huser : s.userOf email = some (userId, user)) (hunverified : ¬user.emailVerified) :
      Served setting n s (.resendOtp email)
        (.ok message, s.sendOtp setting n userId user .emailVerification)
  | activated (email code password message : String) (userId otpId : ℕ) (user : User)
      (otp : OtpVerification) (huser : s.userOf email = some (userId, user))
      (hotp : s.Vouches userId code otpId otp) :
      Served setting n s (.setPassword email code password) (.ok message,
        { s with
          users := s.users.modify userId
            (AuthService.activation user (hashPassword n password)).apply
          memberOutbox := s.memberOutbox ++ [AuthService.memberRegistered userId user] })
  | forgotUnknown (email message : String) (huser : s.userOf email = none) :
      Served setting n s (.forgotPassword email) (.ok message, s)
  | forgot (email message : String) (userId : ℕ) (user : User)
      (huser : s.userOf email = some (userId, user)) :
      Served setting n s (.forgotPassword email)
        (.ok message, s.sendOtp setting n userId user .passwordReset)
  | reset (email code newPassword message : String) (userId otpId : ℕ) (user : User)
      (otp : OtpVerification) (huser : s.userOf email = some (userId, user))
      (hotp : s.Accepts setting n userId code .passwordReset otpId otp) :
      Served setting n s (.resetPassword email code newPassword) (.ok message,
        { s.useOtp otpId with
          users := (s.users.modify userId
            (UserUpdate.mk (hashPassword n newPassword) none none).apply).modify userId
            User.unsetRefreshToken })

section Run
variable {setting : Setting} {n : ℕ} {s : Store} {β : Type}

theorem run_findUser_none (setting : Setting) {email : String} (h : s.userOf email = none)
    (k : ℕ × User → Call β) :
    ∃ e, (AuthService.findUserByEmailOrFail email >>= k).run (exec setting.newest) answered s =
      (.error e, s) := by
  refine ⟨.notFound "User not found", ?_⟩
  have hfind : (exec setting.newest (.findUser email) s).1 = none := h
  rw [AuthService.findUserByEmailOrFail, bind_bind, run_send_bind_done _ _ _ _ rfl]
  simp only [hfind]
  rfl

theorem run_findUser_some {email : String} {user : ℕ × User} (h : s.userOf email = some user)
    (k : ℕ × User → Call β) :
    (AuthService.findUserByEmailOrFail email >>= k).run (exec setting.newest) answered s =
      (k user).run (exec setting.newest) answered s := by
  have hfind : (exec setting.newest (.findUser email) s).1 = some user := h
  rw [AuthService.findUserByEmailOrFail, bind_bind, run_send_bind_done _ _ _ _ rfl]
  simp only [hfind]
  rfl

/-- A request that begins with a user's email is refused without the user. -/
theorem served_findUser {email : String} {r : Request} {k : ℕ × User → Call String}
    (hk : ∀ userId user, s.userOf email = some (userId, user) →
      Served setting n s r ((k (userId, user)).run (exec setting.newest) answered s)) :
    Served setting n s r
      ((AuthService.findUserByEmailOrFail email >>= k).run (exec setting.newest) answered s) := by
  rcases huser : s.userOf email with _ | ⟨userId, user⟩
  · obtain ⟨e, he⟩ := run_findUser_none setting huser k
    rw [he]
    exact .refused r e
  · rw [run_findUser_some huser]
    exact hk userId user huser

theorem served_findUserOrNone {email : String} {r : Request} {k : Option (ℕ × User) → Call String}
    (hnone : s.userOf email = none →
      Served setting n s r ((k none).run (exec setting.newest) answered s))
    (hsome : ∀ userId user, s.userOf email = some (userId, user) →
      Served setting n s r ((k (some (userId, user))).run (exec setting.newest) answered s)) :
    Served setting n s r
      ((query (.findUser email) >>= k).run (exec setting.newest) answered s) := by
  rw [run_send_bind_done _ _ _ _ rfl]
  have hfind : exec setting.newest (.findUser email) s = (s.userOf email, s) := rfl
  rw [hfind]
  rcases huser : s.userOf email with _ | ⟨userId, user⟩
  · exact hnone huser
  · exact hsome userId user huser

/-- A validation throws and changes nothing, or accepts the newest one-time
password and marks it. -/
theorem run_validate (setting : Setting) (n userId : ℕ) (code : String) (purpose : OtpPurpose)
    (s : Store) :
    (∃ e, (OtpService.validate n userId code purpose).run (exec setting.newest) answered s =
      (.error e, s)) ∨
    ∃ otpId otp, s.Accepts setting n userId code purpose otpId otp ∧
      (OtpService.validate n userId code purpose).run (exec setting.newest) answered s =
        (.ok otp.markUsed, s.useOtp otpId) := by
  rw [OtpService.validate, run_send_bind_done _ _ _ _ rfl]
  rcases hpick : (setting.newest n).pick (s.otpsFor userId purpose) with _ | ⟨otpId, otp⟩
  · have hfind : exec setting.newest (.findNewestOtp userId purpose n) s = (none, s) := by
      simp only [exec, hpick]
    simp only [hfind]
    exact .inl ⟨_, rfl⟩
  · have hfind : exec setting.newest (.findNewestOtp userId purpose n) s =
        (some (otpId, otp), s) := by
      simp only [exec, hpick]
    simp only [hfind]
    by_cases hused : otp.used
    · rw [if_pos hused]
      exact .inl ⟨_, rfl⟩
    · rw [if_neg hused, run_send_bind_done _ _ _ _ rfl]
      have hnow : exec setting.newest .dateNow s = (s.now, s) := rfl
      simp only [hnow]
      by_cases hexpired : otp.expiresAt < s.now
      · rw [if_pos hexpired]
        exact .inl ⟨_, rfl⟩
      · by_cases hcode : otp.code ≠ code
        · rw [if_neg hexpired, if_pos hcode]
          exact .inl ⟨_, rfl⟩
        · rw [if_neg hexpired, if_neg hcode]
          refine .inr ⟨otpId, otp, ?_, rfl⟩
          exact ⟨hpick, hused, Nat.le_of_not_lt hexpired, not_not.mp hcode⟩

/-- A request that validates a code is refused without an accepted one. -/
theorem served_validate {userId : ℕ} {code : String} {purpose : OtpPurpose} {r : Request}
    {k : OtpVerification → Call String}
    (hk : ∀ otpId otp, s.Accepts setting n userId code purpose otpId otp →
      Served setting n s r
        ((k otp.markUsed).run (exec setting.newest) answered (s.useOtp otpId))) :
    Served setting n s r
      ((OtpService.validate n userId code purpose >>= k).run (exec setting.newest) answered s) := by
  rw [run_bind]
  rcases run_validate setting n userId code purpose s with ⟨e, he⟩ | ⟨otpId, otp, hotp, hrun⟩
  · rw [he]
    exact .refused r e
  · rw [hrun]
    exact hk otpId otp hotp

theorem run_createAndSend (setting : Setting) (n userId : ℕ) (user : User) (purpose : OtpPurpose)
    (s : Store) :
    (OtpService.createAndSend setting.expiresMinutes (setting.randomBytes n) userId user
      purpose).run (exec setting.newest) answered s =
      (.ok (), s.sendOtp setting n userId user purpose) := rfl

/-- `wasVerified` asks whether some one-time password vouches for the code. -/
theorem run_wasVerified (setting : Setting) (userId : ℕ) (code : String) (s : Store) :
    ∃ verified, (OtpService.wasVerified userId code .emailVerification).run (exec setting.newest)
        answered s = (.ok verified, s) ∧
      (verified = true ↔ ∃ otpId otp, s.Vouches userId code otpId otp) := by
  refine ⟨_, rfl, ?_⟩
  simp only [exec]
  rw [findOne_isSome]
  constructor
  · rintro ⟨otpId, otp, hstored, hp⟩
    obtain ⟨huser, hpurpose, hused, hcode, hrecent⟩ := of_decide_eq_true hp
    exact ⟨otpId, otp, hstored, huser, hpurpose, hused, hcode, hrecent⟩
  · rintro ⟨otpId, otp, hotp⟩
    exact ⟨otpId, otp, hotp.stored,
      decide_eq_true ⟨hotp.userId, hotp.purpose, hotp.used, hotp.code, hotp.recent⟩⟩

theorem served_register (setting : Setting) (n : ℕ) (s : Store) (dto : RegisterDto) :
    Served setting n s (.register dto)
      ((AuthService.register setting.expiresMinutes (setting.randomBytes n) dto).run
        (exec setting.newest) answered s) := by
  have hfind : exec setting.newest (.findUserOr dto.email dto.nationalId) s =
      (findOne s.users fun user => user.email = dto.email ∨ user.nationalId = dto.nationalId,
        s) := rfl
  have hnow : exec setting.newest .dateNow s = (s.now, s) := rfl
  rw [AuthService.register, run_send_bind_done _ _ _ _ rfl]
  simp only [hfind]
  split
  · exact .refused _ _
  split
  · exact .refused _ _
  rw [run_send_bind_done _ _ _ _ rfl]
  simp only [hnow]
  split
  · exact .refused _ _
  rw [run_send_bind_done _ _ _ _ rfl]
  by_cases hrefuses : s.Refuses dto.user
  · have hcreate : exec setting.newest (.createUser dto.user) s = (none, s) := by
      rw [exec, if_pos hrefuses]
    simp only [hcreate]
    exact .refused _ _
  · have hcreate : exec setting.newest (.createUser dto.user) s =
        (some s.users.length, { s with users := s.users ++ [dto.user] }) := by
      rw [exec, if_neg hrefuses]
    simp only [hcreate]
    rw [run_bind, run_createAndSend]
    exact .registered dto _ hrefuses

theorem served_setPassword (setting : Setting) (n : ℕ) (s : Store)
    (email code password : String) :
    Served setting n s (.setPassword email code password)
      ((AuthService.setPassword n email code password).run (exec setting.newest) answered s) := by
  apply served_findUser
  intro userId user huser
  obtain ⟨verified, hrun, hvouches⟩ := run_wasVerified setting userId code s
  simp only [run_bind, hrun, andThen_ok]
  cases verified with
  | false => exact .refused _ _
  | true =>
    obtain ⟨otpId, otp, hotp⟩ := hvouches.mp rfl
    exact .activated email code password _ userId otpId user otp huser hotp

/-- Setting a password with a code that some one-time password vouches for. -/
theorem run_setPassword (setting : Setting) (n : ℕ) {email code : String} {userId otpId : ℕ}
    {user : User} {otp : OtpVerification} (huser : s.userOf email = some (userId, user))
    (hotp : s.Vouches userId code otpId otp) (password : String) :
    ((AuthService.setPassword n email code password).run (exec setting.newest) answered s).2 =
      { s with
        users := s.users.modify userId
          (AuthService.activation user (hashPassword n password)).apply
        memberOutbox := s.memberOutbox ++ [AuthService.memberRegistered userId user] } := by
  obtain ⟨verified, hrun, hvouches⟩ := run_wasVerified setting userId code s
  obtain rfl := hvouches.mpr ⟨otpId, otp, hotp⟩
  rw [AuthService.setPassword, run_findUser_some huser]
  simp only [run_bind, hrun, andThen_ok]
  rfl

/-- The inversion of the requests. -/
theorem served (setting : Setting) (n : ℕ) (s : Store) (r : Request) :
    Served setting n s r ((r.serve setting n).run (exec setting.newest) answered s) := by
  cases r with
  | register dto => exact served_register setting n s dto
  | setPassword email code password => exact served_setPassword setting n s email code password
  | verifyOtp email code =>
    apply served_findUser
    intro userId user huser
    apply served_validate
    intro otpId otp hotp
    exact .verified email code _ userId otpId user otp huser hotp
  | resetPassword email code newPassword =>
    apply served_findUser
    intro userId user huser
    apply served_validate
    intro otpId otp hotp
    exact .reset email code newPassword _ userId otpId user otp huser hotp
  | resendOtp email =>
    apply served_findUserOrNone
    · intro hnone
      exact .resentUnknown email _ hnone
    · intro userId user huser
      dsimp only
      by_cases hverified : user.emailVerified
      · rw [if_pos hverified]
        exact .refused _ _
      · rw [if_neg hverified, run_bind, run_createAndSend]
        exact .resent email _ userId user huser hverified
  | forgotPassword email =>
    apply served_findUserOrNone
    · intro hnone
      exact .forgotUnknown email _ hnone
    · intro userId user huser
      dsimp only
      rw [run_bind, run_createAndSend]
      exact .forgot email _ userId user huser

end Run
end StockMarket.Auth
