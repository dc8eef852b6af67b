import StockMarket.Auth.Verification
import StockMarket.Interleaving.Protocol

/-! # One-time passwords, side by side

Any number of calls make and validate one-time passwords. A validation reads the
newest one, checks it, and saves it without looking at it again.
-/

namespace StockMarket.Auth
open Interleaving Prog

inductive OtpRequest where
  | createAndSend (userId : ℕ) (user : User) (purpose : OtpPurpose)
  | validate (userId : ℕ) (code : String) (purpose : OtpPurpose)
  deriving DecidableEq

def OtpRequest.serve (setting : Setting) (call : ℕ) : OtpRequest → Call (Option OtpVerification)
  | .createAndSend userId user purpose => do
      OtpService.createAndSend setting.expiresMinutes (setting.randomBytes call) userId user purpose
      pure none
  | .validate userId code purpose => do
      let otp ← OtpService.validate call userId code purpose
      pure (some otp)

abbrev OtpState := Config ℕ AuthOp AuthOp.Reply Store Exception (Option OtpVerification)

def OtpState.start (setting : Setting) (store : Store) (requests : ℕ → OtpRequest) : OtpState :=
  Config.start store fun i => (requests i).serve setting i

abbrev OtpSchedule := List (Choice ℕ Environment Exception)

abbrev OtpHistory := List (Reaction AuthOp AuthOp.Reply)

abbrev OtpLog := List (Entry ℕ AuthOp AuthOp.Reply)

/-- What a validation has read. -/
abbrev found (userId : ℕ) (purpose : OtpPurpose) (call otpId : ℕ) (otp : OtpVerification) :
    Reaction AuthOp AuthOp.Reply :=
  ⟨.findNewestOtp userId purpose call, some (otpId, otp)⟩

/-- What a validation has checked before it saves. -/
structure Checked (call : ℕ) (r : OtpRequest) (userId : ℕ) (code : String) (purpose : OtpPurpose)
    (otp : OtpVerification) (now : Time) : Prop where
  request : r = .validate userId code purpose
  unused : ¬otp.used
  unexpired : now ≤ otp.expiresAt
  code : otp.code = code

/-- What a call may send: a validation asks for the newest one-time password, then
for the time, and then saves. -/
def MayOtp (call : ℕ) (r : OtpRequest) (h : OtpHistory) : AuthOp → Prop
  | .findNewestOtp userId purpose call' =>
      h = [] ∧ call' = call ∧ ∃ code, r = .validate userId code purpose
  | .dateNow => ∀ userId code purpose, r = .validate userId code purpose →
      ∃ otpId otp, h = [found userId purpose call otpId otp]
  | .saveOtpUsed otpId => ∃ userId code purpose otp now,
      Checked call r userId code purpose otp now ∧
        h = [⟨.dateNow, now⟩, found userId purpose call otpId otp]
  | _ => True

/-- A validation that has returned has saved what it read. -/
def Validated (call : ℕ) (r : OtpRequest) (h : OtpHistory) (res : Option OtpVerification) : Prop :=
  ∀ saved, res = some saved → ∃ userId code purpose otpId otp now,
    Checked call r userId code purpose otp now ∧ saved = otp.markUsed ∧
      h = [⟨.saveOtpUsed otpId, ()⟩, ⟨.dateNow, now⟩, found userId purpose call otpId otp]

def otpProtocol (requests : ℕ → OtpRequest) :
    Protocol ℕ AuthOp AuthOp.Reply Exception (Option OtpVerification) where
  may i := MayOtp i (requests i)
  ends _ _ _ := True
  post i := Returns (Validated i (requests i))

theorem obeys_validate (call userId : ℕ) (code : String) (purpose : OtpPurpose) :
    Obeys (MayOtp call (.validate userId code purpose)) (fun _ _ => True)
      (Returns fun h saved => Validated call (.validate userId code purpose) h (some saved)) []
      (OtpService.validate call userId code purpose) := by
  apply Obeys.send
  · exact ⟨rfl, rfl, code, rfl⟩
  · intro newest
    rcases newest with _ | ⟨otpId, otp⟩
    · trivial
    · dsimp only
      split
      · trivial
      · rename_i hunused
        apply Obeys.send
        · intro userId' code' purpose' hr
          cases hr
          exact ⟨otpId, otp, rfl⟩
        · intro now
          split
          · trivial
          · rename_i hunexpired
            split
            · trivial
            · rename_i hcode
              have hchecked : Checked call (.validate userId code purpose) userId code purpose otp
                  now := ⟨rfl, hunused, Nat.le_of_not_lt hunexpired, not_not.mp hcode⟩
              apply Obeys.send
              · exact ⟨userId, code, purpose, otp, now, hchecked, rfl⟩
              · intro _ saved hsaved
                cases hsaved
                exact ⟨userId, code, purpose, otpId, otp, now, hchecked, rfl, rfl⟩

theorem obeys_serve (setting : Setting) (call : ℕ) (r : OtpRequest) :
    Obeys (MayOtp call r) (fun _ _ => True) (Returns (Validated call r)) []
      (r.serve setting call) := by
  cases r with
  | createAndSend userId user purpose =>
    have hsends : (OtpService.createAndSend setting.expiresMinutes (setting.randomBytes call) userId
        user purpose).Sends (fun op => ∀ h,
          MayOtp call (.createAndSend userId user purpose) h op) := by
      apply Sends.send
      · exact fun _ => trivial
      · intro _
        apply Sends.send
        · intro h userId' code purpose' hr
          cases hr
        · intro now
          apply Sends.send
          · exact fun _ => trivial
          · intro _
            exact ⟨fun _ => trivial, fun _ => trivial, fun _ => trivial⟩
    have hobeys : Obeys (MayOtp call (.createAndSend userId user purpose)) (fun _ _ => True)
        (fun _ _ => True) [] (OtpService.createAndSend setting.expiresMinutes
          (setting.randomBytes call) userId user purpose) :=
      Obeys.of_sends hsends fun h op hop => hop h
    apply hobeys.bind
    · intro h _ _ saved hsaved
      cases hsaved
    · intro _ _ _
      trivial
  | validate userId code purpose =>
    apply (obeys_validate call userId code purpose).bindReturns
    intro h saved hsaved
    exact hsaved

theorem conforms_otp (setting : Setting) (store : Store) (requests : ℕ → OtpRequest)
    (sched : OtpSchedule) :
    ((OtpState.start setting store requests).run (backend setting) sched).Conforms
        (otpProtocol requests) ∧
      (otpProtocol requests).Lawful
        ((OtpState.start setting store requests).run (backend setting) sched).log := by
  apply Config.run_invariant (A := ⟨fun _ _ _ _ _ => True, fun _ => True⟩)
    (I := fun _ log => (otpProtocol requests).Lawful log)
  · intro _ _ _ _ _ _
    trivial
  · intro _ _ _ _ _ hlawful hmay _
    exact ⟨hmay, hlawful⟩
  · intro _ _ _ hlawful _
    exact hlawful
  · exact Config.conforms_start fun i => obeys_serve setting i (requests i)
  · trivial
  · exact Assumption.along_of_forall _ _ (fun _ _ _ _ _ => trivial) (fun _ => trivial) _ _

/-- What a validation that accepts a code has found: the newest one-time password of
the user for the purpose, unused and unexpired. -/
structure Store.Offers (s : Store) (userId : ℕ) (code : String) (purpose : OtpPurpose) (otpId : ℕ)
    (otp : OtpVerification) : Prop where
  stored : s.otps[otpId]? = some otp
  ofUser : otp.userId = userId
  forPurpose : otp.purpose = purpose
  newest : ∀ other ∈ s.otps, other.userId = userId → other.purpose = purpose →
    other.createdAt ≤ otp.createdAt
  unused : ¬otp.used
  unexpired : s.now ≤ otp.expiresAt
  code : otp.code = code

section Provenance
variable {setting : Setting} {store : Store} {requests : ℕ → OtpRequest} {sched : OtpSchedule}
  {i : ℕ}

theorem now_le_run (c : OtpState) (sched : OtpSchedule) :
    c.store.now ≤ (c.run (backend setting) sched).store.now := by
  apply Config.run_le (backend setting) (f := Store.now)
  · intro op s
    cases op with
    | createUser doc =>
      simp only [backend, exec]
      split <;> exact le_rfl
    | _ => exact le_rfl
  · intro x s
    cases x with
    | tick ms => exact Nat.le_add_right _ _

/-- Whoever has saved read the one-time password at some step before, when it was the
newest, unused and unexpired. -/
theorem offered_of_validated {saved : OtpVerification}
    (h : Validated i (requests i)
      (own i ((OtpState.start setting store requests).run (backend setting) sched).log)
      (some saved)) :
    ∃ userId code purpose otpId otp before o later, requests i = .validate userId code purpose ∧
      saved = otp.markUsed ∧ ⟨.saveOtpUsed otpId, ()⟩ ∈
        own i ((OtpState.start setting store requests).run (backend setting) sched).log ∧
      sched = before ++ .step i o :: later ∧
      ((OtpState.start setting store requests).run (backend setting) before).Sending i
        (.findNewestOtp userId purpose i) ∧
      ((OtpState.start setting store requests).run (backend setting) before).store.Offers userId
        code purpose otpId otp := by
  obtain ⟨userId, code, purpose, otpId, otp, now, hchecked, hsaved, hown⟩ := h saved rfl
  -- the step that asked for the time
  have htime : ⟨.dateNow, now⟩ ∈
      own i ((OtpState.start setting store requests).run (backend setting) sched).log := by
    simp [hown]
  rcases Config.mem_log_run (backend setting) (mem_own.mp htime) with hstart |
    ⟨before, o, later, rfl, -, ⟨next, failed, hcall⟩, hnow⟩
  · cases hstart
  -- what it had read until then is what it read at all
  obtain ⟨hmay, -⟩ := (conforms_otp setting store requests before).1 i _ hcall
  obtain ⟨otpId', otp', hread⟩ := hmay userId code purpose hchecked.request
  obtain ⟨rest, hrest⟩ := Config.own_suffix (backend setting)
    (OtpState.start setting store requests) i before (.step i o :: later)
  rw [hread, hown] at hrest
  have hsame : some (found userId purpose i otpId' otp') =
      some (found userId purpose i otpId otp) := by
    simpa using congrArg List.getLast? hrest
  cases hsame
  have hfound : found userId purpose i otpId otp ∈
      own i ((OtpState.start setting store requests).run (backend setting) before).log := by
    rw [hread]
    exact List.mem_singleton_self _
  rcases Config.mem_log_run (backend setting) (mem_own.mp hfound) with hstart |
    ⟨first, o', between, rfl, -, hsending, hpick⟩
  · cases hstart
  · refine ⟨userId, code, purpose, otpId, otp, first, o', between ++ .step i o :: later,
      hchecked.request, hsaved, hown ▸ List.mem_cons_self, by simp, hsending, ?_⟩
    obtain ⟨hstored, huser, hpurpose, hnewest⟩ := pick_stored hpick.symm
    have hlater : ((OtpState.start setting store requests).run (backend setting) first).store.now ≤
        now := by
      rw [hnow, Config.run_append]
      exact now_le_run _ _
    exact ⟨hstored, huser, hpurpose, hnewest, hchecked.unused, hlater.trans hchecked.unexpired,
      hchecked.code⟩

end Provenance

/-- The operation asks for a newest one-time password. -/
def AuthOp.asksOtp : AuthOp → Bool
  | .findNewestOtp _ _ _ => true
  | _ => false

def AuthOp.savedOtp : AuthOp → Option ℕ
  | .saveOtpUsed otpId => some otpId
  | _ => none

/-- Since call `j` has read, some call has saved the one-time password. -/
def SavedSince (j otpId : ℕ) (log : OtpLog) : Prop :=
  ∃ e ∈ log.takeWhile fun e => ¬(e.caller = j ∧ e.reaction.op.asksOtp),
    e.reaction.op.savedOtp = some otpId

instance (j otpId : ℕ) (log : OtpLog) : Decidable (SavedSince j otpId log) :=
  inferInstanceAs (Decidable (∃ e ∈ _, _))

/-- Whenever a validation saves a one-time password, no other has saved it since this
one has read it. -/
def apart : Assumption ℕ AuthOp AuthOp.Reply Store Environment Exception where
  call _ log i op o := ∀ otpId ∈ op.savedOtp, o.applies → ¬SavedSince i otpId log
  env _ := True

section Once
variable {setting : Setting} {requests : ℕ → OtpRequest} {s : Store} {log : OtpLog}

/-- Some call has saved the one-time password. -/
def Saved (otpId : ℕ) (log : OtpLog) : Prop := ∃ i, ⟨i, .saveOtpUsed otpId, ()⟩ ∈ log

/-- What was saved before a query counts as used in its answer. -/
def ReadsUsed : OtpLog → Prop :=
  Recorded fun e older => ∀ userId purpose call otpId otp,
    e.reaction = found userId purpose call otpId otp → Saved otpId older → otp.used

/-- What was saved stays used, what was found stays stored, and nothing is saved by
two calls. -/
structure SingleSaves (s : Store) (log : OtpLog) : Prop where
  used : ∀ otpId, Saved otpId log → ∃ otp, s.otps[otpId]? = some otp ∧ otp.used
  stored : ∀ i userId purpose call otpId otp, ⟨i, found userId purpose call otpId otp⟩ ∈ log →
    ∃ later, s.otps[otpId]? = some later
  reads : ReadsUsed log
  alone : ∀ i j otpId, ⟨i, .saveOtpUsed otpId, ()⟩ ∈ log → ⟨j, .saveOtpUsed otpId, ()⟩ ∈ log →
    i = j

theorem saved_cons_iff {otpId i : ℕ} {op : AuthOp} {reply : op.Reply} :
    Saved otpId (⟨i, op, reply⟩ :: log) ↔ op = .saveOtpUsed otpId ∨ Saved otpId log := by
  constructor
  · rintro ⟨j, hj⟩
    rcases List.mem_cons.mp hj with heq | hold
    · cases heq
      exact .inl rfl
    · exact .inr ⟨j, hold⟩
  · rintro (rfl | ⟨j, hj⟩)
    · exact ⟨i, List.mem_cons_self⟩
    · exact ⟨j, List.mem_cons_of_mem _ hj⟩

/-- A call that has read the one-time password unused, and since then nobody has saved
it, is the first to save it. -/
theorem not_saved {j userId call otpId : ℕ} {purpose : OtpPurpose} {otp : OtpVerification}
    (hreads : ReadsUsed log) (hunused : ¬otp.used)
    (hread : ∀ x, ⟨j, x⟩ ∈ log → x.op.asksOtp → x = found userId purpose call otpId otp)
    (hapart : ¬SavedSince j otpId log) : ¬Saved otpId log := by
  rintro ⟨i, hsaved⟩
  have hsplit : _ ∈ since j AuthOp.asksOtp log ∨ _ := mem_since_or hsaved
  rcases hsplit with hsince | ⟨newer, x, older, rfl, hkind, hbefore⟩
  · exact hapart ⟨_, hsince, rfl⟩
  · obtain rfl := hread x (List.mem_append_right _ List.mem_cons_self) hkind
    rcases hbefore with heq | hold
    · cases heq
    · exact hunused (hreads.split userId purpose call otpId otp rfl ⟨i, hold⟩)

/-- No operation takes a one-time password away or makes a used one unused. -/
theorem otp_exec (newest : ℕ → NewestFirst) {otpId : ℕ} {otp : OtpVerification} (op : AuthOp)
    (h : s.otps[otpId]? = some otp) :
    ∃ later, (exec newest op s).2.otps[otpId]? = some later ∧ (otp.used → later.used) := by
  cases op with
  | invalidateOtps userId purpose =>
    simp only [exec, List.getElem?_map, h, Option.map_some]
    refine ⟨_, rfl, ?_⟩
    intro hused
    split
    · rfl
    · exact hused
  | createOtp userId code purpose expiresAt =>
    exact ⟨otp, (List.getElem?_append_left (List.getElem?_eq_some_iff.mp h).1).trans h, id⟩
  | saveOtpUsed id =>
    simp only [exec, List.getElem?_modify, h, Option.map_eq_map, Option.map_some]
    refine ⟨_, rfl, ?_⟩
    intro hused
    split
    · rfl
    · exact hused
  | createUser doc =>
    simp only [exec]
    split <;> exact ⟨otp, h, id⟩
  | _ => exact ⟨otp, h, id⟩

theorem SingleSaves.step (hI : SingleSaves s log) {i : ℕ} {op : AuthOp} {o : Outcome Exception}
    (ho : o.applies) (hmay : MayOtp i (requests i) (own i log) op)
    (hapart : apart.call s log i op o) :
    SingleSaves (exec setting.newest op s).2
      (⟨i, op, (exec setting.newest op s).1⟩ :: log) := by
  -- the answer to the query for the newest one-time password
  have hfound {userId call otpId : ℕ} {purpose : OtpPurpose} {otp : OtpVerification}
      (h : (⟨op, (exec setting.newest op s).1⟩ : Reaction AuthOp AuthOp.Reply) =
        found userId purpose call otpId otp) :
      s.otps[otpId]? = some otp := by
    obtain ⟨rfl, hpick⟩ := reaction_eq h
    exact (pick_stored hpick).1
  constructor
  · intro otpId hsaved
    rcases saved_cons_iff.mp hsaved with rfl | hold
    · obtain ⟨userId, code, purpose, otp, now, -, hown⟩ := hmay
      have hread : ⟨i, found userId purpose i otpId otp⟩ ∈ log := by
        rw [← mem_own, hown]
        simp
      obtain ⟨later, hlater⟩ := hI.stored _ _ _ _ _ _ hread
      exact ⟨later.markUsed, by simp [exec, hlater], rfl⟩
    · obtain ⟨otp, hotp, hused⟩ := hI.used otpId hold
      obtain ⟨later, hlater, hkept⟩ := otp_exec setting.newest op hotp
      exact ⟨later, hlater, hkept hused⟩
  · intro j userId purpose call otpId otp hmem
    have hbefore : ∃ before, s.otps[otpId]? = some before := by
      rcases List.mem_cons.mp hmem with heq | hold
      · rw [Entry.mk.injEq] at heq
        exact ⟨otp, hfound heq.2.symm⟩
      · exact hI.stored _ _ _ _ _ _ hold
    obtain ⟨before, hbefore⟩ := hbefore
    obtain ⟨later, hlater, -⟩ := otp_exec setting.newest op hbefore
    exact ⟨later, hlater⟩
  · constructor
    · intro userId purpose call otpId otp heq hsaved
      obtain ⟨stored, hstored, hused⟩ := hI.used otpId hsaved
      obtain rfl := Option.some.inj ((hfound heq).symm.trans hstored)
      exact hused
    · exact hI.reads
  · intro j k otpId hj hk
    by_cases hop : op = .saveOtpUsed otpId
    · subst hop
      obtain ⟨userId, code, purpose, otp, now, hchecked, hown⟩ := hmay
      have hread (x : Reaction AuthOp AuthOp.Reply) (hmem : ⟨i, x⟩ ∈ log) (hasks : x.op.asksOtp) :
          x = found userId purpose i otpId otp := by
        rw [← mem_own, hown] at hmem
        rcases List.mem_cons.mp hmem with rfl | hmem
        · cases hasks
        · exact List.mem_singleton.mp hmem
      have hnot : ¬Saved otpId log :=
        not_saved hI.reads hchecked.unused hread (hapart otpId rfl ho)
      rcases List.mem_cons.mp hj with hj | hj
      · rcases List.mem_cons.mp hk with hk | hk
        · cases hj
          cases hk
          rfl
        · exact absurd ⟨k, hk⟩ hnot
      · exact absurd ⟨j, hj⟩ hnot
    · have hold {m : ℕ} (hm : ⟨m, .saveOtpUsed otpId, ()⟩ ∈
          (⟨i, op, (exec setting.newest op s).1⟩ :: log : OtpLog)) :
          ⟨m, .saveOtpUsed otpId, ()⟩ ∈ log := by
        rcases List.mem_cons.mp hm with heq | hold
        · rw [Entry.mk.injEq] at heq
          exact absurd (reaction_eq heq.2.symm).1 hop
        · exact hold
      exact hI.alone j k otpId (hold hj) (hold hk)

end Once

section Run
variable {setting : Setting} {store : Store} {requests : ℕ → OtpRequest} {sched : OtpSchedule}

/-- The validation has returned, and the one-time password it accepted is this one. -/
def AcceptedBy (c : OtpState) (i otpId : ℕ) : Prop :=
  (∃ saved, c.result i = some (.ok (some saved))) ∧
    ∃ e ∈ c.log, e.caller = i ∧ e.reaction.op.savedOtp = some otpId

theorem AcceptedBy.mem {c : OtpState} {i otpId : ℕ} (h : AcceptedBy c i otpId) :
    ⟨i, .saveOtpUsed otpId, ()⟩ ∈ c.log := by
  obtain ⟨-, ⟨caller, op, reply⟩, hmem, rfl, hsaved⟩ := h
  cases op with
  | saveOtpUsed id =>
    cases hsaved
    exact hmem
  | _ => cases hsaved

theorem run_singleSaves (hapart : apart.Along (backend setting)
    (OtpState.start setting store requests) sched) :
    SingleSaves ((OtpState.start setting store requests).run (backend setting) sched).store
      ((OtpState.start setting store requests).run (backend setting) sched).log := by
  suffices hrun : ((OtpState.start setting store requests).run (backend setting) sched).Conforms
      (otpProtocol requests) ∧ SingleSaves
      ((OtpState.start setting store requests).run (backend setting) sched).store
      ((OtpState.start setting store requests).run (backend setting) sched).log from hrun.2
  apply Config.run_applied (A := apart)
  · intro _ _ _ _ _ _
    trivial
  · intro s log i op o hI hmay hcall ho
    exact hI.step ho hmay hcall
  · intro s log x hI _
    cases x with
    | tick ms => exact ⟨hI.used, hI.stored, hI.reads, hI.alone⟩
  · exact Config.conforms_start fun i => obeys_serve setting i (requests i)
  · constructor
    · rintro otpId ⟨i, hi⟩
      cases hi
    · intro i userId purpose call otpId otp hmem
      cases hmem
    · trivial
    · intro i j otpId hi
      cases hi
  · exact hapart

/-- Every validation that returns has accepted the newest one-time password of its
user and purpose, unused and unexpired when it was read. Where validations keep
apart, no one-time password is accepted by two of them. -/
theorem single_use (hapart : apart.Along (backend setting)
    (OtpState.start setting store requests) sched) :
    let c := (OtpState.start setting store requests).run (backend setting) sched
    (∀ i saved, c.result i = some (.ok (some saved)) →
      ∃ userId code purpose otpId otp before o later,
        requests i = .validate userId code purpose ∧ saved = otp.markUsed ∧
        AcceptedBy c i otpId ∧ sched = before ++ .step i o :: later ∧
        ((OtpState.start setting store requests).run (backend setting) before).Sending i
          (.findNewestOtp userId purpose i) ∧
        ((OtpState.start setting store requests).run (backend setting) before).store.Offers
          userId code purpose otpId otp) ∧
    ∀ i j otpId, AcceptedBy c i otpId → AcceptedBy c j otpId → i = j := by
  intro c
  constructor
  · intro i saved hi
    have hvalidated := (conforms_otp setting store requests sched).1.returned hi
    obtain ⟨userId, code, purpose, otpId, otp, before, o, later, hrequest, hsaved, hmem, hrest⟩ :=
      offered_of_validated hvalidated
    exact ⟨userId, code, purpose, otpId, otp, before, o, later, hrequest, hsaved,
      ⟨⟨saved, hi⟩, _, mem_own.mp hmem, rfl, rfl⟩, hrest⟩
  · intro i j otpId hi hj
    exact (run_singleSaves hapart).alone i j otpId hi.mem hj.mem

end Run

section Example

def oneOtp : Store where
  users := []
  otps := [⟨0, "904311", .passwordReset, false, 1709165400000, 1709164800000⟩]
  now := 1709164800000
  otpOutbox := []
  memberOutbox := []

def validations (_ : ℕ) : OtpRequest := .validate 0 "904311" .passwordReset

instance (s : Store) (log : OtpLog) (i : ℕ) (op : AuthOp) (o : Outcome Exception) :
    Decidable (apart.call s log i op o) :=
  inferInstanceAs (Decidable (∀ otpId ∈ op.savedOtp, _))

instance (x : Environment) : Decidable (apart.env x) := .isTrue trivial

def oneByOne : OtpSchedule := List.replicate 3 (.step 0 .done) ++ List.replicate 3 (.step 1 .done)

theorem single_use_oneByOne :
    let c := (OtpState.start sample oneOtp validations).run (backend sample) oneByOne
    (∀ i saved, c.result i = some (.ok (some saved)) →
      ∃ userId code purpose otpId otp before o later,
        validations i = .validate userId code purpose ∧ saved = otp.markUsed ∧
        AcceptedBy c i otpId ∧ oneByOne = before ++ .step i o :: later ∧
        ((OtpState.start sample oneOtp validations).run (backend sample) before).Sending i
          (.findNewestOtp userId purpose i) ∧
        ((OtpState.start sample oneOtp validations).run (backend sample) before).store.Offers
          userId code purpose otpId otp) ∧
    ∀ i j otpId, AcceptedBy c i otpId → AcceptedBy c j otpId → i = j :=
  single_use (by decide +kernel)

/-- Two validations read the code before either has saved it. -/
def bothRead : OtpSchedule :=
  [.step 0 .done, .step 1 .done, .step 0 .done, .step 1 .done, .step 0 .done, .step 1 .done]

/-- Both accept it. -/
theorem accepted_twice :
    let c := (OtpState.start sample oneOtp validations).run (backend sample) bothRead
    AcceptedBy c 0 0 ∧ AcceptedBy c 1 0 := by
  let saved : OtpVerification :=
    ⟨0, "904311", .passwordReset, true, 1709165400000, 1709164800000⟩
  exact ⟨⟨⟨saved, by decide +kernel⟩, by decide +kernel⟩,
    ⟨⟨saved, by decide +kernel⟩, by decide +kernel⟩⟩

end Example

end StockMarket.Auth
