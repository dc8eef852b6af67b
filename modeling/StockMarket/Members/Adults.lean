import StockMarket.Calendar
import StockMarket.Members.Registration

/-! # Members are of age

Nobody registers before the eighteenth birthday, and the calendar never goes back. So an
account, and the member the user service makes of it, is an adult's at any later time.
-/

namespace StockMarket.Auth
open Interleaving Prog

/-- An age is reached on the birthday. -/
theorem le_calculateAge_iff {n : ℤ} {dateOfBirth today : CalendarDate} :
    n ≤ calculateAge dateOfBirth today ↔ dateOfBirth.addYears n ≤ today := by
  simp only [calculateAge, CalendarDate.le_iff, CalendarDate.addYears]
  split <;> omega

/-- The birthday that makes a member has come. -/
def OfAge (dateOfBirth : CalendarDate) (now : Time) : Prop :=
  dateOfBirth.addYears MIN_MEMBER_AGE ≤ .ofTime now

theorem OfAge.later {dateOfBirth : CalendarDate} {now now' : Time} (h : OfAge dateOfBirth now)
    (hnow : now ≤ now') : OfAge dateOfBirth now' :=
  CalendarDate.le_trans h (CalendarDate.ofTime_mono hnow)

section Accounts
variable {newest : ℕ → NewestFirst} {s : Store} {log : AccountLog} {op : AuthOp} {i : ℕ}

/-- Every user is of age, and no request has been told a time that is yet to come. -/
structure Adults (s : Store) (log : AccountLog) : Prop where
  users : ∀ user ∈ s.users, OfAge user.dateOfBirth s.now
  told : ∀ k now, ⟨k, .dateNow, now⟩ ∈ log → now ≤ s.now

theorem now_exec (op : AuthOp) : (exec newest op s).2.now = s.now := by
  cases op with
  | createUser doc =>
    rw [exec]
    split <;> rfl
  | _ => rfl

/-- A user has the date of birth of the registration. -/
theorem of_mem_users_exec {user : User} (h : user ∈ (exec newest op s).2.users) :
    (∃ old ∈ s.users, old.dateOfBirth = user.dateOfBirth) ∨ op = .createUser user := by
  have hmodify {f : User → User} {userId : ℕ} (h : user ∈ s.users.modify userId f)
      (hf : ∀ user, (f user).dateOfBirth = user.dateOfBirth) :
      ∃ old ∈ s.users, old.dateOfBirth = user.dateOfBirth := by
    obtain ⟨j, hj⟩ := List.mem_iff_getElem?.mp h
    rw [List.getElem?_modify] at hj
    obtain ⟨old, hold, rfl⟩ := Option.map_eq_some_iff.mp hj
    refine ⟨old, List.mem_of_getElem? hold, ?_⟩
    by_cases hid : userId = j
    · simp [hid, hf old]
    · simp [hid]
  cases op with
  | createUser doc =>
    rw [exec] at h
    split at h
    · exact .inl ⟨user, h, rfl⟩
    · rcases List.mem_append.mp h with hold | hnew
      · exact .inl ⟨user, hold, rfl⟩
      · rw [List.mem_singleton.mp hnew]
        exact .inr rfl
  | saveUser userId set => exact .inl (hmodify h fun _ => rfl)
  | setRefreshToken userId hash => exact .inl (hmodify h fun _ => rfl)
  | unsetRefreshToken userId => exact .inl (hmodify h fun _ => rfl)
  | _ => exact .inl ⟨user, h, rfl⟩

theorem Adults.exec (h : Adults s log) (hop : mayRegister (own i log) op) :
    Adults (exec newest op s).2 (⟨i, op, (exec newest op s).1⟩ :: log) := by
  refine ⟨?_, ?_⟩
  · intro user huser
    rw [now_exec]
    rcases of_mem_users_exec huser with ⟨old, hold, hbirth⟩ | rfl
    · exact hbirth ▸ h.users old hold
    · obtain ⟨now, htold, hage⟩ := hop
      exact OfAge.later (le_calculateAge_iff.mp hage) (h.told i now (mem_own.mp htold))
  · intro k now hentry
    rw [now_exec]
    rcases List.mem_cons.mp hentry with hnew | hold
    · rw [Entry.mk.injEq] at hnew
      obtain ⟨rfl, hreply⟩ := reaction_eq hnew.2.symm
      exact le_of_eq hreply.symm
    · exact h.told k now hold

theorem adults_run {setting : Setting} {store : Store} {requests : ℕ → Request}
    (hstore : ∀ user ∈ store.users, OfAge user.dateOfBirth store.now) (sched : AccountSchedule) :
    Adults ((AccountState.start setting store requests).run (backend setting) sched).store
      ((AccountState.start setting store requests).run (backend setting) sched).log := by
  refine (Config.run_invariant (A := ⟨fun _ _ _ _ _ => True, fun _ => True⟩) (P := accountProtocol)
    (fun _ _ _ _ _ _ => trivial) (fun _ _ _ _ _ hI hmay _ => hI.exec hmay)
    (fun s log x hI _ => ?_) (Config.conforms_start fun i => (requests i).obeys_serve setting i) ?_
    sched (Assumption.along_of_forall _ _ (fun _ _ _ _ _ => trivial) (fun _ => trivial) _ _)).2
  · cases x with
    | tick ms =>
      have hlater : s.now ≤ s.now + ms := Nat.le_add_right ..
      exact ⟨fun user huser => (hI.users user huser).later hlater, fun k now hentry =>
        (hI.told k now hentry).trans hlater⟩
  · exact ⟨hstore, fun _ _ h => (by cases h)⟩

end Accounts
end StockMarket.Auth

namespace StockMarket.Members
open Interleaving
open Auth (AccountState AccountSchedule OfAge)

/-- At every moment of every run of the services, each account and each member is of
somebody who has turned eighteen. -/
theorem members_are_of_age {setting : Auth.Setting} {accounts : Auth.Store}
    {calls : ℕ → Auth.Request} {store : Store} {requests : ℕ → ProfileRequest}
    (haccounts : Auth.Distinct accounts.users)
    (hage : ∀ user ∈ accounts.users, OfAge user.dateOfBirth accounts.now)
    (sched : AccountSchedule) (hstore : store.Fresh)
    (hconsumes : Consumes ((AccountState.start setting accounts calls).run
      (Auth.backend setting) sched).store.memberOutbox requests) (sched' : ProfileSchedule) :
    let auth := ((AccountState.start setting accounts calls).run (Auth.backend setting)
      sched).store
    (∀ user ∈ auth.users, OfAge user.dateOfBirth auth.now) ∧
      ∀ memberId member, ((ProfileState.start store requests).run profileBackend
        sched').store.members.lookup memberId = some member →
          OfAge member.dateOfBirth auth.now := by
  intro auth
  have hadults := @Auth.adults_run setting accounts calls hage sched
  have henrolled := @Auth.enrolled_run setting accounts calls haccounts sched
  obtain ⟨-, hmirrors⟩ := mirrors_run hstore henrolled.consistent hconsumes sched'
  refine ⟨hadults.users, ?_⟩
  intro memberId member hmember
  obtain ⟨event, hevent, hregisters⟩ := hmirrors.stored memberId member hmember
  obtain ⟨userId, user, huser, -, rfl⟩ := henrolled.emitted event hevent
  rw [← hregisters.dateOfBirth]
  exact hadults.users user (List.mem_of_getElem? huser)

theorem members_are_of_age_twice :
    OfAge ⟨1995, 6, 15⟩ ((AccountState.start Auth.sample (Auth.opening [] 1709164800000)
      joins).run (Auth.backend Auth.sample) joinSchedule).store.now := by
  have hmember : ((ProfileState.start emptyStore comesTwice).run profileBackend
      comeSchedule).store.members.lookup "0" = some ((joined.member.standing .suspended
        (some "audit")).apply joined.member) := by decide +kernel
  have hnobody : ∀ user ∈ (Auth.opening [] 1709164800000).users,
      OfAge user.dateOfBirth (Auth.opening [] 1709164800000).now := fun _ h => by cases h
  have hage := (members_are_of_age distinct_nil hnobody joinSchedule emptyStore_fresh
    consumes_joined comeSchedule).2 "0" _ hmember
  exact hage

end StockMarket.Members
