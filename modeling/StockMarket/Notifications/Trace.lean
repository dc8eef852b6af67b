import StockMarket.Notifications.Log
import StockMarket.Notifications.Keys
import StockMarket.Notifications.Progress

/-! # What an acknowledged event leaves behind

A call that returns acknowledges its event. It may have been turned away by the
log entry of an earlier call, so what that call has left behind counts.
-/

namespace StockMarket.Notifications
open Interleaving Prog

/-- The call has handed over a mail, or written `FAILED` or `DEAD`. -/
def Accounted (h : History) : Prop :=
  Mailed h ∨ writtenStatus h = .failed ∨ writtenStatus h = .dead

/-- A log entry is made unless its key has one, and a call that has handed over no
mail gets its notes through. -/
def entriesTracked :
    Assumption ℕ NotificationOp NotificationOp.Reply Store Environment Exception where
  call s log i op o :=
    match op with
    | .create doc => s.HasKey doc.idempotencyKey ∨ (doc.Valid ∧ o = .done)
    | .update _ (.retrying _) => Mailed (own i log) ∨ o = .done
    | .update _ (.failed _) => Mailed (own i log) ∨ o.applies
    | .update _ (.dead _) => Mailed (own i log) ∨ o.applies
    | _ => True
  env _ := True

namespace Progress

/-- What the stage of call `i` says of its history. -/
structure Tells (key : String) (h : History) (stage : Progress) : Prop where
  mailed : Mailed h ↔ stage = .mailed
  made : (∃ logId, Created key logId h) ↔ stage = .pending ∨ stage = .mailed ∨ stage = .closed
  closed : stage = .closed → writtenStatus h = .failed ∨ writtenStatus h = .dead

section Stages
variable {key : ℕ → String} {call : ℕ} {h : History} {stage : Progress}

theorem Tells.start {k : String} : Tells k [] .start := by
  constructor
  · simp [Mailed]
  · simp [Created]
  · intro hclosed
    cases hclosed

theorem Tells.turnedAway (ht : Tells (key call) h .start) : Tells (key call) h .away := by
  constructor
  · rw [ht.mailed]
    simp
  · rw [ht.made]
    simp
  · intro hclosed
    cases hclosed

/-- An operation that makes no entry and hands over no mail, and moves to a stage
with the same meaning. -/
theorem Tells.quiet (ht : Tells (key call) h stage) {op : NotificationOp} {reply : op.Reply}
    {stage' : Progress} (hmail : ∀ mail, op ≠ .sendMail mail)
    (hmade : ∀ doc n, (⟨op, reply⟩ : Reaction _ _) ≠ ⟨.create doc, .created n⟩)
    (hstage : stage' = stage ∨ (stage = .start ∧ (stage' = .known ∨ stage' = .away)))
    (hwritten : stage ≠ .closed) : Tells (key call) (⟨op, reply⟩ :: h) stage' := by
  constructor
  · rw [mailed_cons_iff hmail, ht.mailed]
    rcases hstage with rfl | ⟨rfl, rfl | rfl⟩ <;> simp
  · simp only [created_cons_iff hmade, ht.made]
    rcases hstage with rfl | ⟨rfl, rfl | rfl⟩ <;> simp
  · rintro rfl
    rcases hstage with rfl | ⟨-, hknown | haway⟩
    · exact absurd rfl hwritten
    · cases hknown
    · cases haway

theorem Tells.sendMail (ht : Tells (key call) h stage) (hstage : Working stage) (mail : Mail) :
    Tells (key call) (⟨.sendMail mail, ()⟩ :: h) .mailed := by
  constructor
  · exact iff_of_true ⟨mail, List.mem_cons_self⟩ rfl
  · obtain ⟨logId, hmade⟩ := ht.made.mpr (hstage.imp_right .inl)
    exact iff_of_true ⟨logId, hmade.cons _⟩ (by simp)
  · intro hclosed
    cases hclosed

theorem Tells.create (ht : Tells (key call) h .start) {doc : Notification}
    (hdoc : doc.idempotencyKey = key call) (logId : ℕ) :
    Tells (key call) (⟨.create doc, .created logId⟩ :: h) .pending := by
  constructor
  · rw [mailed_cons_iff (by simp), ht.mailed]
    simp
  · exact iff_of_true ⟨logId, doc, hdoc, List.mem_cons_self⟩ (.inl rfl)
  · intro hclosed
    cases hclosed

theorem Tells.update (ht : Tells (key call) h stage) (hstage : Working stage) (logId : ℕ)
    (set : NotificationUpdate) {o : Outcome Exception} (ho : o.applies) :
    Tells (key call) (⟨.update logId set, ()⟩ :: h)
      ((progress key).move stage (.update logId set) () o) := by
  have hopen : stage ≠ .closed := by
    rintro rfl
    simp [Working] at hstage
  have hsame : Tells (key call) (⟨.update logId set, ()⟩ :: h) stage :=
    ht.quiet (by simp) (by simp) (.inl rfl) hopen
  have hclose (hset : set.status = .failed ∨ set.status = .dead) (hpending : stage = .pending) :
      Tells (key call) (⟨.update logId set, ()⟩ :: h) .closed := by
    subst hpending
    constructor
    · rw [hsame.mailed]
      simp
    · rw [hsame.made]
      simp
    · intro _
      exact hset
  cases set with
  | sent => exact hsame
  | retrying attempts => exact hsame
  | failed errorMessage =>
    by_cases hpending : stage = .pending
    · simpa [progress, hpending, ho] using hclose (.inl rfl) hpending
    · simpa [progress, hpending] using hsame
  | dead errorMessage =>
    by_cases hpending : stage = .pending
    · simpa [progress, hpending, ho] using hclose (.inr rfl) hpending
    · simpa [progress, hpending] using hsame

end Stages

end Progress

/-- Every entry was made by a call, every processed key was mailed, and a call that
was turned away was turned away by another's entry or mail. -/
structure Traced (key : ℕ → String) (s : Store) (log : Log) (stages : ℕ → Progress) : Prop where
  tells : ∀ i, Progress.Tells (key i) (own i log) (stages i)
  away : ∀ i, stages i = .away → ∃ j logId, key j = key i ∧ Created (key j) logId (own j log)
  known : ∀ i, stages i = .known → ∃ j, key j = key i ∧ Mailed (own j log)
  processed : ∀ k, s.processed k → ∃ j, key j = k ∧ Mailed (own j log)
  stored : ∀ doc ∈ s.notifications, ∃ j logId, key j = doc.idempotencyKey ∧
    Created (key j) logId (own j log)

section Steps
variable {key : ℕ → String} {s s' : Store} {log : Log} {stages : ℕ → Progress} {i : ℕ}

theorem Traced.creator_of_hasKey (hI : Traced key s log stages) {k : String} (h : s.HasKey k) :
    ∃ j logId, key j = k ∧ Created (key j) logId (own j log) := by
  obtain ⟨doc, hdoc, rfl⟩ := h
  exact hI.stored doc hdoc

/-- One more operation of call `i`, which moves on to `stage`. -/
theorem Traced.advance (hI : Traced key s log stages)
    {x : Reaction NotificationOp NotificationOp.Reply} {stage : Progress}
    (htells : Progress.Tells (key i) (x :: own i log) stage)
    (haway : stage = .away → ∃ j logId, key j = key i ∧ Created (key j) logId (own j log))
    (hknown : stage = .known → ∃ j, key j = key i ∧ Mailed (own j log))
    (hprocessed : ∀ k, s'.processed k → s.processed k ∨ (key i = k ∧ Mailed (own i log)))
    (hstored : ∀ doc ∈ s'.notifications,
      (∃ before ∈ s.notifications, before.idempotencyKey = doc.idempotencyKey) ∨
        (key i = doc.idempotencyKey ∧ ∃ logId, Created (key i) logId (x :: own i log))) :
    Traced key s' (⟨i, x⟩ :: log) (Function.update stages i stage) := by
  have hcreated {k : String} (h : ∃ j logId, key j = k ∧ Created (key j) logId (own j log)) :
      ∃ j logId, key j = k ∧ Created (key j) logId (own j (⟨i, x⟩ :: log)) := by
    obtain ⟨j, logId, hkey, hmade⟩ := h
    exact ⟨j, logId, hkey, hmade.own_cons _⟩
  have hmailed {k : String} (h : ∃ j, key j = k ∧ Mailed (own j log)) :
      ∃ j, key j = k ∧ Mailed (own j (⟨i, x⟩ :: log)) := by
    obtain ⟨j, hkey, hmail⟩ := h
    exact ⟨j, hkey, hmail.own_cons _⟩
  constructor
  · exact fun j => Typestate.forall_update (R := fun j h stage => Progress.Tells (key j) h stage)
      hI.tells htells j
  · intro j hj
    by_cases h : j = i
    · subst h
      rw [Function.update_self] at hj
      exact hcreated (haway hj)
    · rw [Function.update_of_ne h] at hj
      exact hcreated (hI.away j hj)
  · intro j hj
    by_cases h : j = i
    · subst h
      rw [Function.update_self] at hj
      exact hmailed (hknown hj)
    · rw [Function.update_of_ne h] at hj
      exact hmailed (hI.known j hj)
  · intro k hk
    rcases hprocessed k hk with hold | hnew
    · exact hmailed (hI.processed k hold)
    · exact hmailed ⟨i, hnew⟩
  · intro doc hdoc
    rcases hstored doc hdoc with ⟨before, hbefore, hkey⟩ | ⟨hkey, logId, hmade⟩
    · exact hkey ▸ hcreated (hI.stored before hbefore)
    · refine ⟨i, logId, hkey, ?_⟩
      rwa [own_cons_self]

theorem Traced.step (hI : Traced key s log stages) {op : NotificationOp} {o : Outcome Exception}
    (ho : o.applies) (hmay : (progress key).may i (stages i) op)
    (hcall : entriesTracked.call s log i op o) :
    Traced key (exec op s).2 (⟨i, op, (exec op s).1⟩ :: log)
      (Function.update stages i ((progress key).move (stages i) op (exec op s).1 o)) := by
  have ht := hI.tells i
  cases op with
  | getProcessed key' =>
    obtain ⟨hstart, rfl⟩ := hmay
    rw [hstart] at ht ⊢
    have hmove : ((progress key).move .start (.getProcessed (key i)) (s.processed (key i)) o =
          .known ∧ s.processed (key i) = true) ∨
        (progress key).move .start (.getProcessed (key i)) (s.processed (key i)) o = .start := by
      cases s.processed (key i) <;> cases o <;> simp [progress]
    apply hI.advance
    · apply ht.quiet (by simp) (by simp) _ (by simp)
      exact hmove.elim (fun h => .inr ⟨rfl, .inl h.1⟩) .inl
    · intro haway
      rcases hmove with ⟨hknown, -⟩ | hsame
      · exact absurd (hknown.symm.trans haway) (by simp)
      · exact absurd (hsame.symm.trans haway) (by simp)
    · intro hknown
      rcases hmove with ⟨-, hprocessed⟩ | hsame
      · exact hI.processed _ hprocessed
      · exact absurd (hsame.symm.trans hknown) (by simp)
    · exact fun k hk => .inl hk
    · exact fun doc hdoc => .inl ⟨doc, hdoc, rfl⟩
  | setProcessed key' =>
    obtain ⟨hmailed, rfl⟩ := hmay
    rw [hmailed] at ht ⊢
    apply hI.advance
    · exact ht.quiet (by simp) (by simp) (.inl rfl) (by simp)
    · simp [progress]
    · simp [progress]
    · intro k hk
      by_cases hsame : k = key i
      · exact .inr ⟨hsame.symm, ht.mailed.mpr rfl⟩
      · exact .inl (by simpa [exec, hsame] using hk)
    · exact fun doc hdoc => .inl ⟨doc, hdoc, rfl⟩
  | create doc =>
    obtain ⟨hstart, hdoc⟩ := hmay
    rw [hstart] at ht ⊢
    rcases exec_create_cases doc s with ⟨-, hfree, hreply, hstore⟩ | ⟨hrefused, hsame⟩
    · obtain ⟨-, rfl⟩ := hcall.resolve_left hfree
      have htells := ht.create hdoc s.notifications.length
      rw [hreply]
      apply hI.advance htells
      · simp
      · simp
      · intro k hk
        simp only [exec] at hk
        split at hk <;> exact .inl hk
      · intro doc' hdoc'
        rw [hstore] at hdoc'
        rcases List.mem_append.mp hdoc' with hold | hnew
        · exact .inl ⟨doc', hold, rfl⟩
        · obtain rfl := List.mem_singleton.mp hnew
          exact .inr ⟨hdoc.symm, htells.made.mpr (.inl rfl)⟩
    · -- the key was taken, for nothing else is turned away
      have hhas : s.HasKey doc.idempotencyKey := by
        by_contra hfree
        have hvalid := (hcall.resolve_left hfree).1
        exact hrefused s.notifications.length (by simp [exec, hvalid, hfree])
      have hmove : (progress key).move .start (.create doc) (exec (.create doc) s).1 o = .away := by
        generalize (exec (.create doc) s).1 = reply at hrefused
        cases reply with
        | created n => exact absurd rfl (hrefused n)
        | invalid => cases o <;> rfl
        | duplicate => cases o <;> rfl
      rw [hmove, hsame]
      apply hI.advance
      · apply ht.quiet (by simp) _ (.inr ⟨rfl, .inr rfl⟩) (by simp)
        intro doc' n heq
        rw [Reaction.mk.injEq, NotificationOp.create.injEq] at heq
        obtain ⟨rfl, hreply⟩ := heq
        exact hrefused n (eq_of_heq hreply)
      · intro _
        rw [← hdoc]
        exact hI.creator_of_hasKey hhas
      · simp
      · exact fun k hk => .inl hk
      · exact fun doc' hdoc' => .inl ⟨doc', hdoc', rfl⟩
  | update n set =>
    have hmove : (progress key).move (stages i) (.update n set) () o = stages i ∨
        (progress key).move (stages i) (.update n set) () o = .closed := by
      cases set <;> simp only [progress, true_or] <;> split <;> simp
    have hopen : stages i ≠ .away ∧ stages i ≠ .known := by
      rcases hmay with h | h <;> simp [h]
    apply hI.advance
    · exact ht.update hmay n set ho
    · intro haway
      rcases hmove with hsame | hclosed
      · exact absurd (hsame.symm.trans haway) hopen.1
      · exact absurd (hclosed.symm.trans haway) (by simp)
    · intro hknown
      rcases hmove with hsame | hclosed
      · exact absurd (hsame.symm.trans hknown) hopen.2
      · exact absurd (hclosed.symm.trans hknown) (by simp)
    · exact fun k hk => .inl hk
    · intro doc hdoc
      obtain ⟨m, hm⟩ := List.mem_iff_getElem?.mp hdoc
      obtain ⟨before, hbefore, hkey⟩ := exec_update_back hm
      exact .inl ⟨before, List.mem_of_getElem? hbefore, hkey⟩
  | sendMail mail =>
    have hmove : (progress key).move (stages i) (.sendMail mail) () o = .mailed := by
      simp [progress, ho]
    rw [show (exec (.sendMail mail) s).1 = () from rfl, hmove]
    apply hI.advance
    · exact ht.sendMail hmay mail
    · simp
    · simp
    · exact fun k hk => .inl hk
    · exact fun doc hdoc => .inl ⟨doc, hdoc, rfl⟩

theorem Traced.failed (hI : Traced key s log stages) {op : NotificationOp} {e : Exception}
    (hmay : (progress key).may i (stages i) op)
    (hcall : entriesTracked.call s log i op (.failed e)) (reply : op.Reply) :
    Traced key s log
      (Function.update stages i ((progress key).move (stages i) op reply (.failed e))) := by
  have hunmoved (h : (progress key).move (stages i) op reply (.failed e) = stages i) :
      Traced key s log
        (Function.update stages i ((progress key).move (stages i) op reply (.failed e))) := by
    rw [h, Function.update_eq_self]
    exact hI
  cases op with
  | getProcessed key' =>
    apply hunmoved
    cases reply <;> rfl
  | setProcessed key' => exact hunmoved rfl
  | sendMail mail => exact hunmoved rfl
  | update n set =>
    apply hunmoved
    cases set <;> simp [progress, Outcome.applies]
  | create doc =>
    obtain ⟨hstart, hdoc⟩ := hmay
    have hmove : (progress key).move (stages i) (.create doc) reply (.failed e) = .away := by
      cases reply <;> rfl
    have hhas : s.HasKey doc.idempotencyKey := hcall.resolve_right (by simp)
    have ht := hI.tells i
    rw [hstart] at ht
    rw [hmove]
    constructor
    · exact fun j => Typestate.forall_update_failed
        (R := fun j stage => Progress.Tells (key j) (own j log) stage) hI.tells ht.turnedAway j
    · intro j hj
      by_cases h : j = i
      · subst h
        rw [← hdoc]
        exact hI.creator_of_hasKey hhas
      · rw [Function.update_of_ne h] at hj
        exact hI.away j hj
    · intro j hj
      by_cases h : j = i
      · subst h
        rw [Function.update_self] at hj
        cases hj
      · rw [Function.update_of_ne h] at hj
        exact hI.known j hj
    · exact hI.processed
    · exact hI.stored

theorem Traced.env (hI : Traced key s log stages) (x : Environment) :
    Traced key (backend.env x s) log stages := by
  cases x with
  | tick ms => exact ⟨hI.tells, hI.away, hI.known, hI.processed, hI.stored⟩
  | expire k =>
    constructor
    · exact hI.tells
    · exact hI.away
    · exact hI.known
    · intro k' hk'
      by_cases hsame : k' = k
      · simp [backend, hsame] at hk'
      · exact hI.processed k' (by simpa [backend, hsame] using hk')
    · exact hI.stored

end Steps

section Run
variable {setting : Setting} {calls : ℕ → ProcessOptions} {sched : Schedule}

def InFlight (c : State) (i : ℕ) : Prop := own i c.log ≠ [] ∧ ∃ op, c.Sending i op

/-- No process dies between making a log entry and accounting for it. -/
def CrashesAccounted (c : State) (calls : ℕ → ProcessOptions) (sched : Schedule) : Prop :=
  ∀ before i later, sched = before ++ .crash i :: later →
    (∃ logId, Created (calls i).idempotencyKey logId (own i (c.run backend before).log)) →
      Accounted (own i (c.run backend before).log)

theorem run_traced (hattempts : 1 ≤ setting.maxAttempts)
    (htracked : entriesTracked.Along backend (State.start setting Store.empty calls) sched) :
    ∃ stages, (progress fun i => (calls i).idempotencyKey).On (fun _ => Progress.Settled)
        ((State.start setting Store.empty calls).run backend sched) stages ∧
      Traced (fun i => (calls i).idempotencyKey)
        ((State.start setting Store.empty calls).run backend sched).store
        ((State.start setting Store.empty calls).run backend sched).log stages := by
  refine ⟨(progress fun i => (calls i).idempotencyKey).run backend
    (State.start setting Store.empty calls) (fun _ => .start) sched, ?_⟩
  apply Typestate.run_invariant (A := entriesTracked) (a := [])
    (I := fun s log _ stages => Traced (fun i => (calls i).idempotencyKey) s log stages)
  · intro s log _ stages i op o hI hcall
    cases op with
    | update n set =>
      have hmailed : Mailed (own i log) → stages i = .mailed := (hI.tells i).mailed.mp
      cases set with
      | sent => trivial
      | retrying attempts => exact hcall.imp_left hmailed
      | failed errorMessage => exact hcall.imp_left hmailed
      | dead errorMessage => exact hcall.imp_left hmailed
    | _ => trivial
  · intro s log _ stages i op hI hmay hcall
    exact hI.step rfl hmay hcall
  · intro s log _ stages i op e hI hmay hcall
    exact hI.failed hmay hcall _
  · intro s log _ stages i op e hI hmay hcall
    exact hI.step rfl hmay hcall
  · intro s log _ stages x hI _
    exact hI.env x
  · intro i p hp
    cases hp
    exact Progress.follows_process hattempts rfl
  · constructor
    · intro i
      exact Progress.Tells.start
    · intro i hi
      cases hi
    · intro i hi
      cases hi
    · intro k hk
      cases hk
    · intro doc hdoc
      cases hdoc
  · exact htracked

/-- A mail for the key of call `i` was handed over, or the log has a `FAILED` or
`DEAD` entry of the key, or another call for the key is at work. -/
def Visible (calls : ℕ → ProcessOptions) (c : State) (i : ℕ) : Prop :=
  (∃ j, (calls j).idempotencyKey = (calls i).idempotencyKey ∧ Mailed (own j c.log)) ∨
  (∃ doc ∈ c.store.notifications, doc.idempotencyKey = (calls i).idempotencyKey ∧
    (doc.status = .failed ∨ doc.status = .dead)) ∨
  ∃ j, j ≠ i ∧ (calls j).idempotencyKey = (calls i).idempotencyKey ∧ InFlight c j

theorem visible_of_accounted {i j : ℕ} {logId : ℕ}
    (hkey : (calls j).idempotencyKey = (calls i).idempotencyKey)
    (hmade : Created (calls j).idempotencyKey logId
      (own j ((State.start setting Store.empty calls).run backend sched).log))
    (haccounted : Accounted (own j ((State.start setting Store.empty calls).run backend
      sched).log)) :
    Visible calls ((State.start setting Store.empty calls).run backend sched) i := by
  rcases haccounted with hmailed | hwritten
  · exact .inl ⟨j, hkey, hmailed⟩
  · obtain ⟨doc, hdoc, hdocKey, hstatus⟩ :=
      ((run_kept setting Store.empty calls sched).2 j logId hmade).stored
    rw [← hstatus] at hwritten
    exact .inr (.inl ⟨doc, List.mem_of_getElem? hdoc, hdocKey.trans hkey, hwritten⟩)

/-- Whenever a call has returned, its event has left a trace. -/
theorem leaves_trace (hattempts : 1 ≤ setting.maxAttempts)
    (htracked : entriesTracked.Along backend (State.start setting Store.empty calls) sched)
    (hcrashes : CrashesAccounted (State.start setting Store.empty calls) calls sched) {i : ℕ}
    (hi : ((State.start setting Store.empty calls).run backend sched).result i = some (.ok ())) :
    Visible calls ((State.start setting Store.empty calls).run backend sched) i := by
  obtain ⟨stages, hon, htraced⟩ := run_traced hattempts htracked
  have hret := Config.result_ok_iff.mp hi
  have haccounted {j : ℕ} (hstage : stages j = .mailed ∨ stages j = .closed) :
      Accounted (own j ((State.start setting Store.empty calls).run backend sched).log) := by
    rcases hstage with hmailed | hclosed
    · exact .inl ((htraced.tells j).mailed.mpr hmailed)
    · exact .inr ((htraced.tells j).closed hclosed)
  obtain ⟨hpending, hstart⟩ := hon i _ hret
  rcases hstage : stages i with _ | _ | _ | _ | _ | _
  · exact absurd hstage (hstart rfl)
  · exact .inl (htraced.known i hstage)
  · -- turned away by the entry of call `j`
    obtain ⟨j, logId, hkey, hmade⟩ := htraced.away i hstage
    have hworked := (htraced.tells j).made.mp ⟨logId, hmade⟩
    rcases hcall : ((State.start setting Store.empty calls).run backend sched).calls j with
      _ | ⟨a | e | ⟨op, next, failed⟩⟩
    · exact visible_of_accounted hkey hmade (Config.run_crashed backend
        (Q := fun j h => (∃ logId, Created (calls j).idempotencyKey logId h) → Accounted h)
        (fun j hj => by cases hj) sched hcrashes j hcall ⟨logId, hmade⟩)
    · exact visible_of_accounted hkey hmade (haccounted (hworked.resolve_left (hon j _ hcall).1))
    · exact visible_of_accounted hkey hmade (haccounted (hworked.resolve_left (hon j _ hcall).1))
    · refine .inr (.inr ⟨j, ?_, hkey, ?_, op, next, failed, hcall⟩)
      · rintro rfl
        rw [hret] at hcall
        cases hcall
      · obtain ⟨doc, -, hmem⟩ := hmade
        exact List.ne_nil_of_mem hmem
  · exact absurd hstage hpending
  · exact .inl ⟨i, rfl, (htraced.tells i).mailed.mpr hstage⟩
  · obtain ⟨logId, hmade⟩ := (htraced.tells i).made.mpr (by simp [hstage])
    exact visible_of_accounted rfl hmade (haccounted (.inr hstage))

end Run

section Example

def isMail (x : Reaction NotificationOp NotificationOp.Reply) : Bool :=
  match x.op with
  | .sendMail _ => true
  | _ => false

theorem mailed_iff_any {h : History} : Mailed h ↔ h.any isMail := by
  rw [List.any_eq_true]
  constructor
  · rintro ⟨mail, hmem⟩
    exact ⟨_, hmem, rfl⟩
  · rintro ⟨⟨op, reply⟩, hmem, hmail⟩
    cases op with
    | sendMail mail => exact ⟨mail, hmem⟩
    | _ => cases hmail

instance (h : History) : Decidable (Mailed h) := decidable_of_iff _ mailed_iff_any.symm

instance (s : Store) (log : Log) (i : ℕ) (op : NotificationOp) (o : Outcome Exception) :
    Decidable (entriesTracked.call s log i op o) :=
  match op with
  | .create doc =>
      inferInstanceAs (Decidable (s.HasKey doc.idempotencyKey ∨ (doc.Valid ∧ o = .done)))
  | .update _ (.retrying _) => inferInstanceAs (Decidable (Mailed (own i log) ∨ o = .done))
  | .update _ (.failed _) => inferInstanceAs (Decidable (Mailed (own i log) ∨ o.applies))
  | .update _ (.dead _) => inferInstanceAs (Decidable (Mailed (own i log) ∨ o.applies))
  | .update _ .sent => .isTrue trivial
  | .getProcessed _ => .isTrue trivial
  | .setProcessed _ => .isTrue trivial
  | .sendMail _ => .isTrue trivial

instance (x : Environment) : Decidable (entriesTracked.env x) := .isTrue trivial

def credited (_ : ℕ) : ProcessOptions := WalletConsumer.handle Occurrence.depositEvent

def twoAttempts : Setting where
  maxAttempts := 2
  render templateName _ := .ok templateName

def mailServerDown : Outcome Exception := .failed (.driver "Connection timeout")

/-- Both attempts fail, and the event is delivered again. -/
def bothFail : Schedule :=
  [.step 0 .done, .step 0 .done, .step 0 mailServerDown, .step 0 .done, .step 0 mailServerDown,
    .step 0 .done, .step 1 .done, .step 1 .done]

theorem leaves_trace_bothFail :
    Visible credited ((State.start twoAttempts Store.empty credited).run backend bothFail) 1 := by
  apply leaves_trace (by decide) (by decide +kernel)
  · intro before i later hsplit
    have hmem : Choice.crash i ∈ bothFail := hsplit ▸ by simp
    simp [bothFail] at hmem
  · decide +kernel

/-- What the wallet service announces: the address is left empty. -/
def creditedByWallet (_ : ℕ) : ProcessOptions :=
  WalletConsumer.handle { Occurrence.depositEvent with email := "" }

/-- The log refuses the entry, and the event is acknowledged. -/
theorem empty_email_leaves_nothing :
    let c := (State.start twoAttempts Store.empty creditedByWallet).run backend
      (List.replicate 2 (.step 0 .done))
    c.result 0 = some (.ok ()) ∧ ¬Visible creditedByWallet c 0 := by
  intro c
  constructor
  · decide +kernel
  · have hmails : c.log.any (fun e => isMail e.reaction) = false := by decide +kernel
    have hcallers : c.log.map Entry.caller = [0, 0] := by decide +kernel
    rintro (⟨j, -, mail, hmem⟩ | ⟨doc, hdoc, -⟩ | ⟨j, hj, -, hown, -⟩)
    · rw [List.any_eq_false] at hmails
      exact hmails _ (mem_own.mp hmem) rfl
    · have hempty : c.store.notifications = [] := by decide +kernel
      rw [hempty] at hdoc
      cases hdoc
    · obtain ⟨x, hx⟩ := List.exists_mem_of_ne_nil _ hown
      have hcaller : j ∈ c.log.map Entry.caller := List.mem_map_of_mem (mem_own.mp hx)
      rw [hcallers] at hcaller
      exact hj (by simpa using hcaller)

end Example

end StockMarket.Notifications
