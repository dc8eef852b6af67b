import StockMarket.Notifications.Service
import StockMarket.Interleaving.Protocol

/-! # Who works on a log entry

The unique index lets one call make the entry of a key. That call alone updates
it, and alone sends mails for the key, so the entry's status is the one this
call has written last.
-/

namespace StockMarket.Notifications
open Interleaving Prog

abbrev History := List (Reaction NotificationOp NotificationOp.Reply)

abbrev Log := List (Entry ℕ NotificationOp NotificationOp.Reply)

/-- The call has made the log entry `logId` under the key. -/
def Created (key : String) (logId : ℕ) (h : History) : Prop :=
  ∃ doc : Notification, doc.idempotencyKey = key ∧ ⟨.create doc, .created logId⟩ ∈ h

def Mailed (h : History) : Prop := ∃ mail, ⟨.sendMail mail, ()⟩ ∈ h

/-- The status a call has written last, or the one its entry is made with. -/
def writtenStatus : History → NotificationStatus
  | [] => .pending
  | ⟨.update _ set, _⟩ :: _ => set.status
  | _ :: h => writtenStatus h

def MayProcess (key : String) (h : History) : NotificationOp → Prop
  | .getProcessed key' => key' = key
  | .setProcessed key' => key' = key ∧ Mailed h
  | .create doc => doc.idempotencyKey = key ∧ doc.status = .pending ∧ writtenStatus h = .pending
  | .update logId _ => Created key logId h
  | .sendMail _ => ∃ logId, Created key logId h

def protocol (key : ℕ → String) :
    Protocol ℕ NotificationOp NotificationOp.Reply Exception Unit where
  may i := MayProcess (key i)
  ends _ _ _ := True
  post _ _ _ := True

section Walk
variable {key : String} {h : History} {logId : ℕ}

theorem Created.cons (hc : Created key logId h) (x : Reaction NotificationOp NotificationOp.Reply) :
    Created key logId (x :: h) := by
  obtain ⟨doc, hkey, hmem⟩ := hc
  exact ⟨doc, hkey, List.mem_cons_of_mem x hmem⟩

theorem Mailed.cons (hm : Mailed h) (x : Reaction NotificationOp NotificationOp.Reply) :
    Mailed (x :: h) := by
  obtain ⟨mail, hmem⟩ := hm
  exact ⟨mail, List.mem_cons_of_mem x hmem⟩

theorem mailed_cons_iff {op : NotificationOp} (hop : ∀ mail, op ≠ .sendMail mail)
    (reply : op.Reply) : Mailed (⟨op, reply⟩ :: h) ↔ Mailed h := by
  constructor
  · rintro ⟨mail, hmem⟩
    rcases List.mem_cons.mp hmem with heq | hmem
    · cases heq
      exact absurd rfl (hop mail)
    · exact ⟨mail, hmem⟩
  · exact fun hm => hm.cons _

theorem created_cons_iff {op : NotificationOp} {reply : op.Reply}
    (hop : ∀ doc n, (⟨op, reply⟩ : Reaction _ _) ≠ ⟨.create doc, .created n⟩) :
    Created key logId (⟨op, reply⟩ :: h) ↔ Created key logId h := by
  constructor
  · rintro ⟨doc, hkey, hmem⟩
    rcases List.mem_cons.mp hmem with heq | hmem
    · exact absurd heq.symm (hop doc logId)
    · exact ⟨doc, hkey, hmem⟩
  · exact fun hc => hc.cons _

/-- The histories in which the entry is made. -/
abbrev Made (key : String) (logId : ℕ) {α : Type} (h : History) (_ : Except Exception α) : Prop :=
  Created key logId h

theorem obeys_update (set : NotificationUpdate) (hc : Created key logId h) :
    Obeys (MayProcess key) (fun _ _ => True) (Made key logId) h (query (.update logId set)) :=
  Obeys.once _ hc (fun _ _ => hc.cons _) (fun _ _ => hc) fun _ _ _ => hc.cons _

theorem obeys_attempt {options : ProcessOptions} (html : String)
    (hkey : options.idempotencyKey = key) (hc : Created key logId h) :
    Obeys (MayProcess key) (fun _ _ => True) (Made key logId) h
      (ProcessorService.attempt options logId html) := by
  apply obeys_send_bind.mpr
  constructor
  · exact ⟨logId, hc⟩
  · constructor
    · intro _ r
      have hmade := hc.cons ⟨.sendMail ⟨options.email, options.subject, html⟩, r⟩
      have hmailed : Mailed (⟨.sendMail ⟨options.email, options.subject, html⟩, r⟩ :: h) :=
        ⟨_, List.mem_cons_self⟩
      apply obeys_send_bind.mpr
      constructor
      · exact hmade
      · constructor
        · intro _ r'
          exact ⟨⟨hkey, hmailed.cons _⟩, fun _ _ => (hmade.cons _).cons _, fun _ =>
            ⟨fun _ => hmade.cons _, fun _ _ => (hmade.cons _).cons _⟩⟩
        · intro e
          exact ⟨fun _ => hmade, fun _ _ => hmade.cons _⟩
    · intro e
      exact ⟨fun _ => hc, fun _ _ => hc.cons _⟩

theorem obeys_attempts {α : Type} {operation : Call α} {onRetry : ℕ → Call Unit}
    {onDead : String → Call Unit}
    (hoperation : ∀ h, Created key logId h →
      Obeys (MayProcess key) (fun _ _ => True) (Made key logId) h operation)
    (hretry : ∀ attempt h, Created key logId h →
      Obeys (MayProcess key) (fun _ _ => True) (Made key logId) h (onRetry attempt))
    (hdead : ∀ e h, Created key logId h →
      Obeys (MayProcess key) (fun _ _ => True) (Made key logId) h (onDead e))
    (left attempt : ℕ) (hc : Created key logId h) :
    Obeys (MayProcess key) (fun _ _ => True) (Made key logId) h
      (RetryService.attempts operation onRetry onDead left attempt) := by
  induction left generalizing h attempt with
  | zero => exact hc
  | succ left ih =>
    apply (hoperation h hc).handle
    intro h' res hc'
    cases res with
    | ok result => exact hc'
    | error e =>
      simp only
      split
      · exact (hdead _ h' hc').bind (fun _ _ hc'' => hc'') fun _ _ hc'' => hc''
      · exact (hretry _ h' hc').bind (fun _ _ hc'' => ih _ hc'') fun _ _ hc'' => hc''

theorem obeys_deliver (setting : Setting) {options : ProcessOptions}
    (hkey : options.idempotencyKey = key) (hc : Created key logId h) :
    Obeys (MayProcess key) (fun _ _ => True) (Made key logId) h
      (ProcessorService.deliver setting options logId) := by
  unfold ProcessorService.deliver
  split
  · exact obeys_update _ hc
  · rename_i html _
    have hattempts : Obeys (MayProcess key) (fun _ _ => True) (Made key logId) h
        (RetryService.attempts (ProcessorService.attempt options logId html)
          (fun attempt => NotificationLogService.markRetrying logId attempt)
          (fun errorMessage => NotificationLogService.markDead logId errorMessage)
          setting.maxAttempts 0) := by
      apply obeys_attempts
      · intro _ hc'
        exact obeys_attempt html hkey hc'
      · intro _ _ hc'
        exact obeys_update _ hc'
      · intro _ _ hc'
        exact obeys_update _ hc'
      · exact hc
    exact hattempts.bind (fun _ _ hc' => hc') fun _ _ hc' => hc'

theorem obeys_createPending (userId email : String) (type : NotificationType)
    (payload : TemplateContext) (hstatus : writtenStatus h = .pending) :
    Obeys (MayProcess key) (fun _ _ => True)
      (fun h' res => ∀ logId, res = .ok logId → Created key logId h') h
      (NotificationLogService.createPending userId email type payload key) := by
  apply obeys_send_bind.mpr
  constructor
  · exact ⟨rfl, rfl, hstatus⟩
  · constructor
    · intro _ saved
      cases saved with
      | created newId =>
        intro logId hres
        cases hres
        exact ⟨_, rfl, List.mem_cons_self⟩
      | invalid =>
        intro logId hres
        cases hres
      | duplicate =>
        intro logId hres
        cases hres
    · intro e
      constructor
      · intro _ logId hres
        cases hres
      · intro _ _ logId hres
        cases hres

theorem obeys_process (setting : Setting) (options : ProcessOptions) :
    Obeys (MayProcess options.idempotencyKey) (fun _ _ => True) (fun _ _ => True) []
      (ProcessorService.process setting options) := by
  unfold ProcessorService.process
  apply obeys_send_bind.mpr
  constructor
  · rfl
  · constructor
    · intro _ isDuplicate
      cases isDuplicate with
      | true => trivial
      | false =>
        apply (obeys_createPending _ _ _ _ rfl).handle
        intro h' res hres
        cases res with
        | ok logId => exact (obeys_deliver setting rfl (hres logId rfl)).mono fun _ _ _ => trivial
        | error e => trivial
    · intro e
      exact ⟨fun _ => trivial, fun _ _ => trivial⟩

end Walk

section Ownership
variable (key : ℕ → String)

/-- The entry `logId` is call `i`'s: it has the status this call has written last,
no other entry has its key, and no other call has made it. -/
structure Owns (s : Store) (log : Log) (i logId : ℕ) : Prop where
  stored : ∃ doc, s.notifications[logId]? = some doc ∧ doc.idempotencyKey = key i ∧
    doc.status = writtenStatus (own i log)
  only : ∀ n doc, s.notifications[n]? = some doc → doc.idempotencyKey = key i → n = logId
  alone : ∀ j, Created (key j) logId (own j log) → j = i

/-- Whoever has made an entry owns it. -/
def Kept (s : Store) (log : Log) : Prop :=
  ∀ i logId, Created (key i) logId (own i log) → Owns key s log i logId

variable {key} {s : Store} {log : Log} {i j logId : ℕ}

@[simp] theorem NotificationUpdate.apply_idempotencyKey (now : Time) (doc : Notification)
    (set : NotificationUpdate) :
    (set.apply now doc).idempotencyKey = doc.idempotencyKey := by
  cases set <;> rfl

@[simp] theorem NotificationUpdate.apply_status (now : Time) (doc : Notification)
    (set : NotificationUpdate) : (set.apply now doc).status = set.status := by
  cases set <;> rfl

/-- An entry is made under a new key, at the next place, or not at all. -/
theorem exec_create_cases (doc : Notification) (s : Store) :
    (doc.Valid ∧ ¬s.HasKey doc.idempotencyKey ∧
      (exec (.create doc) s).1 = .created s.notifications.length ∧
      (exec (.create doc) s).2.notifications = s.notifications ++ [doc]) ∨
    ((∀ logId, (exec (.create doc) s).1 ≠ .created logId) ∧ (exec (.create doc) s).2 = s) := by
  by_cases hvalid : doc.Valid
  · by_cases hhas : s.HasKey doc.idempotencyKey
    · exact .inr (by simp [exec, hvalid, hhas])
    · exact .inl (by simp [exec, hvalid, hhas])
  · exact .inr (by simp [exec, hvalid])

/-- What a call has made, it had made before, or makes now. -/
theorem created_own_cons {op : NotificationOp}
    (h : Created (key i) logId (own i (⟨j, op, (exec op s).1⟩ :: log))) :
    Created (key i) logId (own i log) ∨ (j = i ∧ ∃ doc, op = .create doc ∧
      doc.idempotencyKey = key i ∧ (exec (.create doc) s).1 = .created logId) := by
  obtain ⟨doc, hkey, hmem⟩ := h
  rcases mem_own_exec hmem with ⟨hj, hop, hreply⟩ | hold
  · exact .inr ⟨hj, doc, hop, hkey, hreply⟩
  · exact .inl ⟨doc, hkey, hold⟩

theorem Created.own_cons (h : Created (key i) logId (own i log))
    (x : Entry ℕ NotificationOp NotificationOp.Reply) :
    Created (key i) logId (own i (x :: log)) := by
  by_cases hx : x.caller = i
  · subst hx
    rw [own_cons_self]
    exact h.cons _
  · rwa [own_cons_ne hx]

theorem Mailed.own_cons (h : Mailed (own i log)) (x : Entry ℕ NotificationOp NotificationOp.Reply) :
    Mailed (own i (x :: log)) := by
  by_cases hx : x.caller = i
  · subst hx
    rw [Interleaving.own_cons_self]
    exact h.cons _
  · rwa [own_cons_ne hx]

theorem writtenStatus_own_cons {op : NotificationOp} (hop : ∀ n set, op ≠ .update n set)
    (reply : op.Reply) :
    writtenStatus (own i (⟨j, op, reply⟩ :: log)) = writtenStatus (own i log) := by
  by_cases hj : j = i
  · subst hj
    rw [own_cons_self]
    cases op with
    | update n set => exact absurd rfl (hop n set)
    | _ => rfl
  · rw [own_cons_ne hj]

/-- An operation that makes no entry and updates none. -/
theorem Kept.frame (hI : Kept key s log) {op : NotificationOp} (j : ℕ)
    (hop : ∀ n set, op ≠ .update n set)
    (hcreate : ∀ doc logId, op = .create doc → (exec (.create doc) s).1 ≠ .created logId)
    (hsame : (exec op s).2.notifications = s.notifications) :
    Kept key (exec op s).2 (⟨j, op, (exec op s).1⟩ :: log) := by
  have hold (i logId : ℕ) (h : Created (key i) logId (own i (⟨j, op, (exec op s).1⟩ :: log))) :
      Created (key i) logId (own i log) := by
    rcases created_own_cons h with h | ⟨-, doc, hdoc, -, hreply⟩
    · exact h
    · exact absurd hreply (hcreate doc logId hdoc)
  intro i logId h
  have howns := hI i logId (hold i logId h)
  constructor
  · rw [hsame, writtenStatus_own_cons hop]
    exact howns.stored
  · rw [hsame]
    exact howns.only
  · intro i' h'
    exact howns.alone i' (hold i' logId h')

theorem Kept.create (hI : Kept key s log) {doc : Notification} (hkey : doc.idempotencyKey = key j)
    (hstatus : doc.status = .pending) (hwritten : writtenStatus (own j log) = .pending) :
    Kept key (exec (.create doc) s).2 (⟨j, .create doc, (exec (.create doc) s).1⟩ :: log) := by
  rcases exec_create_cases doc s with ⟨-, hfree, hreply, hstore⟩ | ⟨hrefused, hsame⟩
  · have hlt {i n : ℕ} (h : Created (key i) n (own i log)) : n < s.notifications.length := by
      obtain ⟨other, hother, -⟩ := (hI i n h).stored
      exact (List.getElem?_eq_some_iff.mp hother).1
    have hcases {i n : ℕ}
        (h : Created (key i) n (own i (⟨j, .create doc, (exec (.create doc) s).1⟩ :: log))) :
        Created (key i) n (own i log) ∨ (i = j ∧ n = s.notifications.length) := by
      apply (created_own_cons h).imp_right
      rintro ⟨rfl, doc', hdoc, -, hmade⟩
      cases hdoc
      rw [hreply] at hmade
      cases hmade
      exact ⟨rfl, rfl⟩
    -- no entry had the new key, so the old entries keep theirs to themselves
    have hfresh {n : ℕ} {other : Notification} (hother : s.notifications[n]? = some other) :
        other.idempotencyKey ≠ key j := by
      intro hsame
      exact hfree ⟨other, List.mem_of_getElem? hother, hsame.trans hkey.symm⟩
    intro i n h
    rcases hcases h with hold | ⟨rfl, rfl⟩
    · have howns := hI i n hold
      constructor
      · rw [hstore, List.getElem?_append_left (hlt hold), writtenStatus_own_cons (by simp)]
        exact howns.stored
      · intro m other hother hsame
        rw [hstore] at hother
        rcases getElem?_concat_cases hother with hother | ⟨-, rfl⟩
        · exact howns.only m other hother hsame
        · obtain ⟨mine, hmine, hmineKey, -⟩ := howns.stored
          exact absurd (hmineKey.trans (hsame.symm.trans hkey)) (hfresh hmine)
      · intro i' h'
        rcases hcases h' with hold' | ⟨rfl, rfl⟩
        · exact howns.alone i' hold'
        · exact absurd (hlt hold) (lt_irrefl _)
    · constructor
      · refine ⟨doc, by rw [hstore]; simp, hkey, ?_⟩
        rw [writtenStatus_own_cons (by simp), hwritten, hstatus]
      · intro m other hother hsame
        rw [hstore] at hother
        rcases getElem?_concat_cases hother with hother | ⟨rfl, -⟩
        · exact absurd hsame (hfresh hother)
        · rfl
      · intro i' h'
        rcases hcases h' with hold' | ⟨rfl, -⟩
        · exact absurd (hlt hold') (lt_irrefl _)
        · rfl
  · apply hI.frame j (by simp) _ (by rw [hsame])
    intro doc' n hdoc
    cases hdoc
    exact hrefused n

theorem exec_update_back {n m : ℕ} {set : NotificationUpdate} {doc : Notification}
    (h : (exec (.update n set) s).2.notifications[m]? = some doc) :
    ∃ before, s.notifications[m]? = some before ∧ before.idempotencyKey = doc.idempotencyKey := by
  simp only [exec, List.getElem?_modify, Option.map_eq_map, Option.map_eq_some_iff] at h
  obtain ⟨before, hbefore, rfl⟩ := h
  refine ⟨before, hbefore, ?_⟩
  split <;> simp

theorem Kept.update (hI : Kept key s log) {n : ℕ} (set : NotificationUpdate)
    (hmade : Created (key j) n (own j log)) :
    Kept key (exec (.update n set) s).2 (⟨j, .update n set, ()⟩ :: log) := by
  have hold {i m : ℕ} (h : Created (key i) m (own i (⟨j, .update n set, ()⟩ :: log))) :
      Created (key i) m (own i log) := by
    rcases created_own_cons (s := s) h with h | ⟨-, doc, hdoc, -⟩
    · exact h
    · cases hdoc
  intro i m h
  have howns := hI i m (hold h)
  constructor
  · obtain ⟨doc, hdoc, hkey, hstatus⟩ := howns.stored
    by_cases hm : n = m
    · subst hm
      obtain rfl : i = j := (hI j n hmade).alone i (hold h)
      refine ⟨set.apply s.now doc, ?_, by simpa using hkey, ?_⟩
      · simp [exec, hdoc]
      · rw [own_cons_self, NotificationUpdate.apply_status]
        rfl
    · have hj : j ≠ i := by
        rintro rfl
        obtain ⟨mine, hmine, hmineKey, -⟩ := (hI j n hmade).stored
        exact hm (howns.only n mine hmine hmineKey)
      refine ⟨doc, ?_, hkey, ?_⟩
      · simpa [exec, List.getElem?_modify, hm] using hdoc
      · rw [own_cons_ne hj]
        exact hstatus
  · intro m' doc hdoc hkey
    obtain ⟨before, hbefore, hsame⟩ := exec_update_back hdoc
    exact howns.only m' before hbefore (hsame.trans hkey)
  · intro i' h'
    exact howns.alone i' (hold h')

theorem Kept.step (hI : Kept key s log) {op : NotificationOp}
    (hmay : MayProcess (key j) (own j log) op) :
    Kept key (exec op s).2 (⟨j, op, (exec op s).1⟩ :: log) := by
  cases op with
  | getProcessed key' => exact hI.frame j (by simp) (by simp) rfl
  | setProcessed key' => exact hI.frame j (by simp) (by simp) rfl
  | create doc => exact hI.create hmay.1 hmay.2.1 hmay.2.2
  | update n set => exact hI.update set hmay
  | sendMail mail => exact hI.frame j (by simp) (by simp) rfl

/-- Two calls that have made entries under one key are the same. -/
theorem Kept.eq_of_created (hI : Kept key s log) {n m : ℕ} (hi : Created (key i) n (own i log))
    (hj : Created (key j) m (own j log)) (hkey : key i = key j) : i = j ∧ n = m := by
  obtain ⟨doc, hdoc, hdocKey, -⟩ := (hI j m hj).stored
  obtain rfl : m = n := (hI i n hi).only m doc hdoc (hdocKey.trans hkey.symm)
  exact ⟨((hI i m hi).alone j hj).symm, rfl⟩

theorem Kept.status_eq (hI : Kept key s log) {n : ℕ} (hi : Created (key i) n (own i log))
    {doc : Notification} (hdoc : doc ∈ s.notifications) (hkey : doc.idempotencyKey = key i) :
    doc.status = writtenStatus (own i log) := by
  obtain ⟨mine, hmine, -, hstatus⟩ := (hI i n hi).stored
  obtain ⟨m, hm⟩ := List.mem_iff_getElem?.mp hdoc
  obtain rfl : m = n := (hI i n hi).only m doc hm hkey
  obtain rfl := Option.some.inj (hm.symm.trans hmine)
  exact hstatus

end Ownership

theorem exists_update_of_writtenStatus {h : History} (hne : writtenStatus h ≠ .pending) :
    ∃ n set, ⟨.update n set, ()⟩ ∈ h ∧ NotificationUpdate.status set = writtenStatus h := by
  induction h with
  | nil => exact absurd rfl hne
  | cons x h ih =>
    rcases x with ⟨op, reply⟩
    cases op with
    | update n set => exact ⟨n, set, List.mem_cons_self, rfl⟩
    | _ =>
      obtain ⟨n, set, hmem, hset⟩ := ih hne
      exact ⟨n, set, List.mem_cons_of_mem _ hmem, hset⟩

section Run
variable (setting : Setting) (store : Store) (calls : ℕ → ProcessOptions) (sched : Schedule)

theorem run_kept :
    ((State.start setting store calls).run backend sched).Conforms
        (protocol fun i => (calls i).idempotencyKey) ∧
      Kept (fun i => (calls i).idempotencyKey)
        ((State.start setting store calls).run backend sched).store
        ((State.start setting store calls).run backend sched).log := by
  apply Config.run_invariant (A := ⟨fun _ _ _ _ _ => True, fun _ => True⟩)
  · intro _ _ _ _ _ _
    trivial
  · intro x l i op o hI hmay _
    exact hI.step hmay
  · intro x l y hI _
    cases y with
    | expire key => exact fun i n h => ⟨(hI i n h).stored, (hI i n h).only, (hI i n h).alone⟩
    | tick ms => exact fun i n h => ⟨(hI i n h).stored, (hI i n h).only, (hI i n h).alone⟩
  · exact Config.conforms_start fun i => obeys_process setting (calls i)
  · intro i n h
    obtain ⟨doc, -, hmem⟩ := h
    exact absurd hmem List.not_mem_nil
  · exact Assumption.along_of_forall backend _ (fun _ _ _ _ _ => trivial) (fun _ => trivial) _ _

/-- A call that has handed over a mail has made the log entry of its key. -/
theorem created_of_mailed {i : ℕ}
    (h : Mailed (own i ((State.start setting store calls).run backend sched).log)) :
    ∃ logId, Created (calls i).idempotencyKey logId
      (own i ((State.start setting store calls).run backend sched).log) := by
  obtain ⟨mail, hmail⟩ := h
  have hlawful := Config.run_lawful (P := protocol fun i => (calls i).idempotencyKey)
    (A := ⟨fun _ _ _ _ _ => True, fun _ => True⟩) (B := backend) (fun _ _ _ _ _ _ => trivial)
    (Config.conforms_start (x := store) fun i => obeys_process setting (calls i)) trivial sched
    (Assumption.along_of_forall backend _ (fun _ _ _ _ _ => trivial) (fun _ => trivial) _ _)
  obtain ⟨before, hsub, logId, doc, hkey, hmem⟩ := hlawful.mem (mem_own.mp hmail)
  exact ⟨logId, doc, hkey, hsub hmem⟩

end Run

end StockMarket.Notifications
