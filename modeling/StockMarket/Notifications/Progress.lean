import StockMarket.Notifications.Retry

/-! # How far a call has come

A call checks its key, is turned away or makes its log entry, and then works on
the entry until a mail is handed over or `FAILED` or `DEAD` is written. Once it
is over, its entry is not left as it was made.
-/

namespace StockMarket.Notifications
open Interleaving Prog

inductive Progress where
  | start | known | away | pending | mailed | closed
  deriving DecidableEq

def progress (key : ℕ → String) :
    Typestate ℕ NotificationOp NotificationOp.Reply Exception Progress where
  may i stage
    | .getProcessed key' => stage = .start ∧ key' = key i
    | .create doc => stage = .start ∧ doc.idempotencyKey = key i
    | .sendMail _ => stage = .pending ∨ stage = .mailed
    | .update _ _ => stage = .pending ∨ stage = .mailed
    | .setProcessed key' => stage = .mailed ∧ key' = key i
  ends _ stage op o :=
    match op with
    | .update _ (.retrying _) => stage = .mailed ∨ o = .done
    | .update _ (.failed _) => stage = .mailed ∨ o.applies
    | .update _ (.dead _) => stage = .mailed ∨ o.applies
    | _ => True
  move stage op reply o :=
    match op, reply, o with
    | .getProcessed _, true, .done => .known
    | .create _, .created _, .done => .pending
    | .create _, _, _ => .away
    | .sendMail _, _, o => if o.applies then .mailed else stage
    | .update _ (.failed _), _, o => if stage = .pending ∧ o.applies then .closed else stage
    | .update _ (.dead _), _, o => if stage = .pending ∧ o.applies then .closed else stage
    | _, _, _ => stage

namespace Progress

section Walk
variable {key : ℕ → String} {call : ℕ}

/-- A call is over: its entry is not left as it was made, and if the call has
returned, it did not give up before it knew. -/
abbrev Settled (stage : Progress) (res : Except Exception Unit) : Prop :=
  stage ≠ .pending ∧ (res = .ok () → stage ≠ .start)

abbrev Working (stage : Progress) : Prop := stage = .pending ∨ stage = .mailed

/-- A call that has written `FAILED` or `DEAD`, or has handed over a mail. -/
abbrev Closed {α : Type} (stage : Progress) (_ : Except Exception α) : Prop :=
  stage = .mailed ∨ stage = .closed

/-- After an attempt: it has returned only if the mail was handed over. -/
abbrev Attempted (stage : Progress) (res : Except Exception Unit) : Prop :=
  stage = .mailed ∨ (stage = .pending ∧ ∃ e, res = .error e)

theorem follows_sendMail (mail : Mail) {stage : Progress} (hstage : Working stage) :
    (progress key).Follows call Attempted (query (.sendMail mail)) stage := by
  apply Typestate.follows_send hstage
  · intro _ _
    exact .inl rfl
  · intro e _ _
    rcases hstage with rfl | rfl
    · exact .inr ⟨rfl, e, rfl⟩
    · exact .inl rfl
  · intro _ _ _
    exact .inl rfl

theorem follows_mailed {op : NotificationOp} (hmay : (progress key).may call .mailed op)
    (hmove : ∀ r o, (progress key).move .mailed op r o = .mailed) :
    (progress key).Follows call (fun stage _ => stage = .mailed) (query op) .mailed :=
  Typestate.follows_send hmay (fun _ r => hmove r _) (fun _ r _ => hmove r _) fun _ r _ => hmove r _

theorem follows_attempt {options : ProcessOptions} (hkey : options.idempotencyKey = key call)
    (logId : ℕ) (html : String) {stage : Progress} (hstage : Working stage) :
    (progress key).Follows call Attempted (ProcessorService.attempt options logId html) stage := by
  have hsent : (progress key).Follows call (fun stage _ => stage = .mailed)
      (NotificationLogService.markSent logId) .mailed :=
    follows_mailed (.inr rfl) fun _ _ => rfl
  have hprocessed : (progress key).Follows call (fun stage _ => stage = .mailed)
      (IdempotencyService.markProcessed options.idempotencyKey) .mailed :=
    follows_mailed ⟨rfl, hkey⟩ fun _ _ => rfl
  apply (follows_sendMail _ hstage).bind
  · intro stage' _ hattempted
    rcases hattempted with rfl | ⟨-, e, he⟩
    · apply hsent.bind
      · rintro _ _ rfl
        apply Typestate.Follows.mono hprocessed
        rintro _ _ rfl
        exact .inl rfl
      · rintro _ _ rfl
        exact .inl rfl
    · cases he
  · intro _ _ hattempted
    exact hattempted.imp_right fun h => ⟨h.1, _, rfl⟩

theorem follows_closing {set : NotificationUpdate} (logId : ℕ)
    (hset : set.status = .failed ∨ set.status = .dead) {stage : Progress} (hstage : Working stage) :
    (progress key).Follows call Closed (query (.update logId set)) stage := by
  have hmove (o : Outcome Exception) (ho : stage = .mailed ∨ o.applies) :
      (progress key).move stage (.update logId set) () o = .mailed ∨
        (progress key).move stage (.update logId set) () o = .closed := by
    rcases hstage with rfl | rfl
    · have happlies : o.applies = true := ho.resolve_left (by simp)
      cases set <;> simp [progress, happlies, NotificationUpdate.status] at hset ⊢
    · cases set <;> simp [progress]
  have hends (o : Outcome Exception) (ho : (progress key).ends call stage (.update logId set) o) :
      stage = .mailed ∨ o.applies := by
    cases set with
    | failed errorMessage => exact ho
    | dead errorMessage => exact ho
    | sent => simp [NotificationUpdate.status] at hset
    | retrying attempts => simp [NotificationUpdate.status] at hset
  apply Typestate.follows_send
  · exact hstage
  · intro ho _
    exact hmove _ (hends _ ho)
  · intro e _ ho
    exact hmove _ (hends _ ho)
  · intro e _ ho
    exact hmove _ (hends _ ho)

theorem follows_retrying (logId attempt : ℕ) {stage : Progress} (hstage : Working stage) :
    (progress key).Follows call
      (fun stage' res => stage' = .mailed ∨ (stage' = .pending ∧ ∃ r, res = .ok r))
      (NotificationLogService.markRetrying logId attempt) stage := by
  apply Typestate.follows_send
  · exact hstage
  · intro _ _
    rcases hstage with rfl | rfl
    · exact .inr ⟨rfl, _, rfl⟩
    · exact .inl rfl
  · intro e _ ho
    rcases ho with rfl | ho
    · exact .inl rfl
    · cases ho
  · intro e _ ho
    rcases ho with rfl | ho
    · exact .inl rfl
    · cases ho

theorem follows_attempts {operation : Call Unit} {onRetry : ℕ → Call Unit}
    {onDead : String → Call Unit}
    (hoperation : ∀ stage, Working stage → (progress key).Follows call Attempted operation stage)
    (hretry : ∀ attempt stage, Working stage → (progress key).Follows call
      (fun stage' res => stage' = .mailed ∨ (stage' = .pending ∧ ∃ r, res = .ok r))
      (onRetry attempt) stage)
    (hdead : ∀ e stage, Working stage → (progress key).Follows call Closed (onDead e) stage)
    (left attempt : ℕ) {stage : Progress} (hstage : Working stage) :
    (progress key).Follows call Closed
      (RetryService.attempts operation onRetry onDead (left + 1) attempt) stage := by
  apply RetryService.follows_loop Working Working _ _ _ attempt hstage
  · exact .inl (Nat.succ_ne_zero left)
  · intro stage' hstage'
    apply (hoperation stage' hstage').mono
    rintro _ res (rfl | ⟨rfl, e, rfl⟩)
    · exact ⟨fun _ _ => .inl rfl, fun _ _ => .inr rfl⟩
    · exact ⟨fun _ h => (by cases h), fun _ _ => .inl rfl⟩
  · intro n stage' hstage'
    apply (hretry n stage' hstage').mono
    rintro _ res (rfl | ⟨rfl, r, rfl⟩)
    · exact ⟨fun _ _ => .inr rfl, fun _ _ => .inl rfl⟩
    · exact ⟨fun _ _ => .inl rfl, fun _ h => (by cases h)⟩
  · intro e stage' hstage'
    exact hdead e stage' hstage'

theorem follows_deliver {setting : Setting} (hattempts : 1 ≤ setting.maxAttempts)
    {options : ProcessOptions} (hkey : options.idempotencyKey = key call) (logId : ℕ) :
    (progress key).Follows call Closed (ProcessorService.deliver setting options logId)
      .pending := by
  unfold ProcessorService.deliver
  split
  · exact follows_closing logId (.inl rfl) (.inl rfl)
  · rename_i html _
    obtain ⟨left, hleft⟩ := Nat.exists_eq_add_of_le' hattempts
    have hdead (errorMessage : String) (stage : Progress) (hstage : Working stage) :
        (progress key).Follows call Closed (NotificationLogService.markDead logId errorMessage)
          stage :=
      follows_closing logId (.inr rfl) hstage
    have hloop := follows_attempts (fun _ hstage => follows_attempt hkey logId html hstage)
      (fun attempt _ hstage => follows_retrying logId attempt hstage) hdead left 0 (.inl rfl)
    rw [RetryService.executeWithRetry, hleft]
    exact hloop.bind (fun _ _ hclosed => hclosed) fun _ _ hclosed => hclosed

theorem follows_createPending (userId email : String) (type : NotificationType)
    (payload : TemplateContext) : (progress key).Follows call
      (fun stage res => (∃ logId, res = .ok logId ∧ stage = .pending) ∨
        (∃ e, res = .error e ∧ stage = .away))
      (NotificationLogService.createPending userId email type payload (key call)) .start := by
  have hsave (doc : Notification) (hdoc : doc.idempotencyKey = key call) :
      (progress key).Follows call
        (fun stage res => (∃ logId, res = .ok (.created logId) ∧ stage = .pending) ∨
          ((∀ logId, res ≠ .ok (.created logId)) ∧ stage = .away))
        (query (.create doc)) .start := by
    apply Typestate.follows_send
    · exact ⟨rfl, hdoc⟩
    · intro _ saved
      cases saved with
      | created logId => exact .inl ⟨logId, rfl, rfl⟩
      | invalid => exact .inr ⟨by simp, rfl⟩
      | duplicate => exact .inr ⟨by simp, rfl⟩
    · intro e saved _
      cases saved <;> exact .inr ⟨by simp, rfl⟩
    · intro e saved _
      cases saved <;> exact .inr ⟨by simp, rfl⟩
  apply (hsave _ rfl).bind
  · rintro stage saved (⟨logId, hsaved, rfl⟩ | ⟨hno, rfl⟩)
    · cases hsaved
      exact .inl ⟨logId, rfl, rfl⟩
    · cases saved with
      | created logId => exact absurd rfl (hno logId)
      | invalid => exact .inr ⟨_, rfl, rfl⟩
      | duplicate => exact .inr ⟨_, rfl, rfl⟩
  · rintro stage e (⟨logId, hsaved, -⟩ | ⟨-, rfl⟩)
    · cases hsaved
    · exact .inr ⟨e, rfl, rfl⟩

theorem follows_process {setting : Setting} (hattempts : 1 ≤ setting.maxAttempts)
    {options : ProcessOptions} (hkey : options.idempotencyKey = key call) :
    (progress key).Follows call Settled (ProcessorService.process setting options) .start := by
  have hcheck : (progress key).Follows call
      (fun stage res => (res = .ok true ∧ stage = .known) ∨ (res ≠ .ok true ∧ stage = .start))
      (IdempotencyService.isDuplicate options.idempotencyKey) .start := by
    apply Typestate.follows_send
    · exact ⟨rfl, hkey⟩
    · intro _ isDuplicate
      cases isDuplicate with
      | true => exact .inl ⟨rfl, rfl⟩
      | false => exact .inr ⟨by simp, rfl⟩
    · intro e isDuplicate _
      cases isDuplicate <;> exact .inr ⟨by simp, rfl⟩
    · intro e isDuplicate _
      cases isDuplicate <;> exact .inr ⟨by simp, rfl⟩
  apply hcheck.bind
  · rintro stage isDuplicate (⟨htrue, rfl⟩ | ⟨hfalse, rfl⟩)
    · cases htrue
      exact ⟨by simp, by simp⟩
    · cases isDuplicate with
      | true => exact absurd rfl hfalse
      | false =>
        rw [hkey]
        apply (follows_createPending options.userId options.email options.type
          options.templateContext).handle
        rintro stage res (⟨logId, rfl, rfl⟩ | ⟨e, rfl, rfl⟩)
        · apply (follows_deliver hattempts hkey logId).mono
          rintro _ _ (rfl | rfl)
          · exact ⟨by simp, by simp⟩
          · exact ⟨by simp, by simp⟩
        · exact ⟨by simp, by simp⟩
  · rintro stage e (⟨htrue, -⟩ | ⟨-, rfl⟩)
    · cases htrue
    · exact ⟨by simp, by simp⟩

end Walk

end Progress
end StockMarket.Notifications
