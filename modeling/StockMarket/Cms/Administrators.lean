import StockMarket.Cms.Service
import StockMarket.Interleaving.Protocol

/-! # An administrator remains

A deactivation counts the active administrators before it updates the account.
Where no count is stale by then, one remains; two that have counted each other
leave none.
-/

namespace StockMarket.Cms
open Interleaving Prog

section Count
variable {s : Store}

def CmsUser.counts (user : CmsUser) : Bool := user.role = .administrator ∧ user.isActive

theorem activeAdministrators_eq (s : Store) :
    s.activeAdministrators = s.users.countP CmsUser.counts := rfl

@[simp] theorem counts_deactivate (user : CmsUser) : user.deactivate.counts = false := by
  simp [CmsUser.counts, CmsUser.deactivate]

theorem activeAdministrators_deactivate (s : Store) (id : ℕ) :
    (exec (.deactivate id) s).2.activeAdministrators +
      (if (s.users[id]?).any CmsUser.counts then 1 else 0) = s.activeAdministrators := by
  simp only [activeAdministrators_eq, exec]
  induction s.users generalizing id with
  | nil => simp
  | cons user users ih =>
    cases id with
    | zero => simp [List.countP_cons]
    | succ id =>
      have hrest := ih id
      simp only [List.modify_succ_cons, List.countP_cons, List.getElem?_cons_succ]
      omega

/-- No other operation takes an administrator away. -/
theorem activeAdministrators_le_exec {op : CmsOp} (hop : ∀ id, op ≠ .deactivate id) :
    s.activeAdministrators ≤ (exec op s).2.activeAdministrators := by
  cases op with
  | deactivate id => exact absurd rfl (hop id)
  | createUser doc =>
    simp only [exec]
    split
    · exact le_rfl
    · simp [activeAdministrators_eq]
  | findUserByEmail email => exact le_rfl
  | findUser id => exact le_rfl
  | countActiveAdministrators => exact le_rfl
  | emit event => exact le_rfl

end Count

/-- The account may be deactivated when the check that protects the last
administrator, made at that moment, lets it pass. -/
theorem one_le_deactivate {s : Store} (hs : 1 ≤ s.activeAdministrators) {id : ℕ}
    (hpasses : ∀ user, s.users[id]? = some user →
      ¬CmsAuthService.isLastAdministrator user s.activeAdministrators) :
    1 ≤ (exec (.deactivate id) s).2.activeAdministrators := by
  have hcount := activeAdministrators_deactivate s id
  rcases huser : s.users[id]? with _ | user
  · simp only [huser, Option.any_none, Bool.false_eq_true, if_false] at hcount
    omega
  · by_cases hcounts : user.counts
    · have hrole := (of_decide_eq_true hcounts).1
      have hmore : ¬s.activeAdministrators ≤ 1 := fun hle => hpasses user huser ⟨hrole, hle⟩
      simp only [huser, Option.any_some, hcounts, if_true] at hcount
      omega
    · simp only [huser, Option.any_some, hcounts, Bool.false_eq_true, if_false] at hcount
      omega

/-- A deactivation is sent once the caller has found the account and a count for
which the check lets it pass. -/
def MayDeactivate (h : List (Reaction CmsOp CmsOp.Reply)) (op : CmsOp) : Prop :=
  ∀ id, op = .deactivate id → ∃ (user : CmsUser) (adminCount : ℕ),
    ⟨.findUser id, some user⟩ ∈ h ∧ ⟨.countActiveAdministrators, adminCount⟩ ∈ h ∧
      ¬CmsAuthService.isLastAdministrator user adminCount

def protocol : Protocol ℕ CmsOp CmsOp.Reply Exception Response where
  may _ := MayDeactivate
  ends _ _ _ := True
  post _ _ _ := True

section Walk
variable {setting : Setting} {call : ℕ}

theorem sends_createUser (dto : CreateCmsUserDto) (createdByUserId : ℕ) :
    (CmsAuthService.createUser setting call dto createdByUserId).Sends
      fun op => ∀ id, op ≠ .deactivate id := by
  apply Sends.send (by simp)
  intro existing
  cases existing with
  | some user => trivial
  | none =>
    apply Sends.send (by simp)
    intro created
    cases created with
    | none => trivial
    | some userId =>
      apply Sends.bind
      · apply Sends.handle
        · exact sends_send (by simp)
        · intro res
          cases res <;> trivial
      · intro _
        trivial

theorem obeys_deactivateUser (id requestingUserId : ℕ) :
    Obeys MayDeactivate (fun _ _ => True) (Returns fun _ _ => True) []
      (CmsAuthService.deactivateUser id requestingUserId) := by
  unfold CmsAuthService.deactivateUser
  split
  · trivial
  apply Obeys.send
  · intro id' hid
    cases hid
  · intro found
    cases found with
    | none => trivial
    | some user =>
      apply Obeys.send
      · intro id' hid
        cases hid
      · intro adminCount
        split
        · trivial
        rename_i hpasses
        apply Obeys.send
        · intro id' hid
          cases hid
          exact ⟨user, adminCount, by simp, by simp, hpasses⟩
        · intro _
          trivial

theorem Request.obeys_serve (r : Request) :
    Obeys MayDeactivate (fun _ _ => True) (fun _ _ => True) [] (r.serve setting call) := by
  cases r with
  | createUser dto createdByUserId =>
    have hsends : ((Request.createUser dto createdByUserId).serve setting call).Sends
        fun op => ∀ id, op ≠ .deactivate id :=
      (sends_createUser dto createdByUserId).bind fun _ => trivial
    apply Obeys.of_sends hsends
    intro h op hop id hid
    exact absurd hid (hop id)
  | deactivateUser id requestingUserId =>
    have hobeys : Obeys MayDeactivate (fun _ _ => True) (Returns fun _ _ => True) []
        ((Request.deactivateUser id requestingUserId).serve setting call) :=
      (obeys_deactivateUser id requestingUserId).bindReturns fun _ _ _ => trivial
    exact hobeys.mono fun _ _ _ => trivial

end Walk

/-- The number of active administrators that the call has counted. -/
def countRead : Reaction CmsOp CmsOp.Reply → Option ℕ
  | ⟨.countActiveAdministrators, adminCount⟩ => some adminCount
  | _ => none

/-- No count is stale: whenever an account is deactivated, there are still as many
active administrators as the call has counted. -/
def freshCounts : Assumption ℕ CmsOp CmsOp.Reply Store Empty Exception where
  call s log i op o := op.isDeactivate → o.applies → ∀ x ∈ own i log,
    ∀ adminCount ∈ countRead x, adminCount ≤ s.activeAdministrators
  env _ := True

instance (s : Store) (log : List (Entry ℕ CmsOp CmsOp.Reply)) (i : ℕ) (op : CmsOp)
    (o : Outcome Exception) : Decidable (freshCounts.call s log i op o) :=
  inferInstanceAs (Decidable (_ → _ → ∀ x ∈ own i log, ∀ adminCount ∈ countRead x, _))

instance (x : Empty) : Decidable (freshCounts.env x) := .isTrue trivial

/-- An account that was found is still there, in the same role. -/
def FoundRole (s : Store) (log : List (Entry ℕ CmsOp CmsOp.Reply)) : Prop :=
  ∀ i id (user : CmsUser), ⟨.findUser id, some user⟩ ∈ own i log →
    ∃ user', s.users[id]? = some user' ∧ user'.role = user.role

theorem role_exec {s : Store} {id : ℕ} {user : CmsUser} (op : CmsOp)
    (h : s.users[id]? = some user) :
    ∃ user', (exec op s).2.users[id]? = some user' ∧ user'.role = user.role := by
  cases op with
  | createUser doc =>
    simp only [exec]
    split
    · exact ⟨user, h, rfl⟩
    · have hlt : id < s.users.length := (List.getElem?_eq_some_iff.mp h).1
      exact ⟨user, (List.getElem?_append_left hlt).trans h, rfl⟩
  | deactivate other =>
    simp only [exec, List.getElem?_modify, h]
    by_cases hother : other = id
    · exact ⟨user.deactivate, by simp [hother], rfl⟩
    · exact ⟨user, by simp [hother], rfl⟩
  | findUserByEmail email => exact ⟨user, h, rfl⟩
  | findUser other => exact ⟨user, h, rfl⟩
  | countActiveAdministrators => exact ⟨user, h, rfl⟩
  | emit event => exact ⟨user, h, rfl⟩

theorem FoundRole.step {s : Store} {log : List (Entry ℕ CmsOp CmsOp.Reply)}
    (hI : FoundRole s log) (j : ℕ) (op : CmsOp) :
    FoundRole (exec op s).2 (⟨j, op, (exec op s).1⟩ :: log) := by
  intro i id user hmem
  have hstored : ∃ user', s.users[id]? = some user' ∧ user'.role = user.role := by
    rcases mem_own_exec hmem with ⟨-, rfl, hreply⟩ | hold
    · exact ⟨user, hreply, rfl⟩
    · exact hI i id user hold
  obtain ⟨user', hstored, hrole⟩ := hstored
  obtain ⟨user'', hlater, hsame⟩ := role_exec op hstored
  exact ⟨user'', hlater, hsame.trans hrole⟩

/-- What holds as long as no count is stale. -/
structure Remains (s : Store) (log : List (Entry ℕ CmsOp CmsOp.Reply)) : Prop where
  found : FoundRole s log
  remains : 1 ≤ s.activeAdministrators

/-- A call that was let pass by the number it counted is let pass by the number there is. -/
theorem Remains.step {s : Store} {log : List (Entry ℕ CmsOp CmsOp.Reply)} (hI : Remains s log)
    {i : ℕ} {op : CmsOp} {o : Outcome Exception} (hmay : MayDeactivate (own i log) op)
    (hfresh : freshCounts.call s log i op o) (ho : o.applies) :
    Remains (exec op s).2 (⟨i, op, (exec op s).1⟩ :: log) := by
  refine ⟨hI.found.step i op, ?_⟩
  by_cases hop : ∃ id, op = .deactivate id
  · obtain ⟨id, rfl⟩ := hop
    obtain ⟨found, adminCount, hfound, hcount, hpasses⟩ := hmay id rfl
    have hle : adminCount ≤ s.activeAdministrators := hfresh rfl ho _ hcount adminCount rfl
    obtain ⟨user', huser', hrole⟩ := hI.found i id found hfound
    apply one_le_deactivate hI.remains
    intro user huser hlast
    obtain rfl := Option.some.inj (huser.symm.trans huser')
    apply hpasses
    constructor
    · rw [← hrole]
      exact hlast.1
    · exact hle.trans hlast.2
  · rw [not_exists] at hop
    exact hI.remains.trans (activeAdministrators_le_exec hop)

/-- In a run in which no count is stale when its caller updates, there is an active
administrator in every state reached. -/
theorem administrator_remains (setting : Setting) {store : Store} (requests : ℕ → Request)
    (hstore : 1 ≤ store.activeAdministrators) (sched : Schedule)
    (hfresh : freshCounts.Along backend (State.start setting store requests) sched) :
    ∀ before later, sched = before ++ later →
      1 ≤ ((State.start setting store requests).run backend before).store.activeAdministrators := by
  rintro before later rfl
  have hbefore : freshCounts.Along backend (State.start setting store requests) before :=
    ((Assumption.along_append _ _ _ before later).mp hfresh).1
  have hstart : Remains store [] := ⟨fun i id user h => absurd h List.not_mem_nil, hstore⟩
  have hfits : freshCounts.Fits protocol := fun _ _ _ _ _ _ => trivial
  have hconforms : (State.start setting store requests).Conforms protocol :=
    Config.conforms_start fun i => (requests i).obeys_serve
  exact (Config.run_applied (I := Remains) hfits
    (fun _ _ _ _ _ hI hmay hcond ho => hI.step hmay hcond ho)
    (fun _ _ x _ _ => x.elim) hconforms hstart before hbefore).2.remains

section Example

def twoAdministrators : Store where
  users :=
    [⟨"omar@stockmarket.com", "Omar", .administrator, .text "first", false, true, none⟩,
      ⟨"lina@stockmarket.com", "Lina", .administrator, .text "second", false, true, some 0⟩]
  outbox := []

/-- Call number `n` is made by account `n`: each of the two deactivates the other. -/
def eachOther (n : ℕ) : Request := .deactivateUser (1 - n) n

def plain : Setting where
  randomBytes _ := []
  toLowerCase email := email

def inTurn : Schedule := List.replicate 3 (.step 0 .done) ++ List.replicate 3 (.step 1 .done)

/-- The second call counts one administrator, and is refused. -/
theorem administrator_remains_inTurn :
    let c := (State.start plain twoAdministrators eachOther).run backend inTurn
    c.result 0 = some (.ok .done) ∧
      c.result 1 = some (.error (.forbidden "Cannot deactivate the last administrator")) ∧
      ∀ before later, inTurn = before ++ later →
        1 ≤ ((State.start plain twoAdministrators eachOther).run backend
          before).store.activeAdministrators := by
  refine ⟨by decide +kernel, by decide +kernel, ?_⟩
  exact administrator_remains plain eachOther (by decide) inTurn (by decide +kernel)

/-- Both count two administrators before either is deactivated. -/
def sideBySide : Schedule :=
  [.step 0 .done, .step 1 .done, .step 0 .done, .step 1 .done, .step 0 .done, .step 1 .done]

/-- Nobody is left, although no two calls are by one administrator. -/
theorem no_administrator_left :
    let c := (State.start plain twoAdministrators eachOther).run backend sideBySide
    (Function.Injective fun n => (eachOther n).requestingUserId) ∧
      twoAdministrators.activeAdministrators = 2 ∧ c.result 0 = some (.ok .done) ∧
      c.result 1 = some (.ok .done) ∧ c.store.activeAdministrators = 0 := by
  refine ⟨fun _ _ hsame => hsame, ?_⟩
  decide +kernel

end Example
end StockMarket.Cms
