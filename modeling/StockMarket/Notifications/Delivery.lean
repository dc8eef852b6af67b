import StockMarket.Notifications.Log
import StockMarket.Notifications.Retry

/-! # One mail for each key

An attempt hands the mail over and then makes two notes of it. As long as both
notes are made, a mail that was answered ends its call's attempts.
-/

namespace StockMarket.Notifications
open Interleaving Prog

/-- The notes that a mail was sent: `markSent` and `markProcessed`. -/
def NotificationOp.IsNote : NotificationOp → Prop
  | .update _ .sent => True
  | .setProcessed _ => True
  | _ => False

/-- Every `markSent` and every `markProcessed` succeeds. -/
def notesMade : Assumption ℕ NotificationOp NotificationOp.Reply Store Environment Exception where
  call _ _ _ op o := op.IsNote → o = .done
  env _ := True

/-- The calls whose `sendEmail` has succeeded, once for each success. -/
def senders (answers : List (ℕ × NotificationOp)) : List ℕ :=
  answers.filterMap fun e =>
    match e.2 with
    | .sendMail _ => some e.1
    | _ => none

inductive Delivery where
  | unsent | sent | dead
  deriving DecidableEq

def deliveries : Typestate ℕ NotificationOp NotificationOp.Reply Exception Delivery where
  may _ stage
    | .sendMail _ => stage = .unsent
    | .update _ (.dead _) => stage = .unsent
    | _ => True
  ends _ _ op o := op.IsNote → o = .done
  move stage op _ o :=
    match op, o with
    | .sendMail _, .done => .sent
    | .update _ (.dead _), .done => .dead
    | .update _ (.dead _), .lost _ => .dead
    | _, _ => stage

section Walk
variable {call : ℕ}

/-- A call that has thrown has not had a mail answered. -/
abbrev Unsent {α : Type} (stage : Delivery) (res : Except Exception α) : Prop :=
  ∀ e, res = .error e → stage = .unsent

theorem follows_note {op : NotificationOp} (hmay : ∀ stage, deliveries.may call stage op)
    (hnote : op.IsNote) (stage : Delivery) :
    deliveries.Follows call Unsent (query op) stage := by
  apply Typestate.follows_send (hmay stage)
  · intro _ r e he
    cases he
  · intro e r hends
    cases hends hnote
  · intro e r hends
    cases hends hnote

theorem follows_attempt (options : ProcessOptions) (logId : ℕ) (html : String) :
    deliveries.Follows call Unsent (ProcessorService.attempt options logId html) .unsent := by
  have hsend : deliveries.Follows call Unsent
      (EmailService.sendEmail options.email options.subject html) .unsent := by
    apply Typestate.follows_send rfl
    · intro _ r e he
      cases he
    · intro _ _ _ _ _
      rfl
    · intro _ _ _ _ _
      rfl
  have hsent (stage : Delivery) : deliveries.Follows call Unsent
      (NotificationLogService.markSent logId) stage := by
    apply follows_note
    · intro _
      trivial
    · trivial
  have hprocessed (stage : Delivery) : deliveries.Follows call Unsent
      (IdempotencyService.markProcessed options.idempotencyKey) stage := by
    apply follows_note
    · intro _
      trivial
    · trivial
  apply hsend.bind
  · intro stage _ _
    apply (hsent stage).bind
    · intro stage' _ _
      exact hprocessed stage'
    · intro _ _ h e he
      cases he
      exact h _ rfl
  · intro _ _ h e he
    cases he
    exact h _ rfl

theorem follows_attempts {α : Type} {operation : Call α} {onRetry : ℕ → Call Unit}
    {onDead : String → Call Unit}
    (hoperation : deliveries.Follows call Unsent operation .unsent)
    (hretry : ∀ attempt, deliveries.Follows call (fun stage _ => stage = .unsent)
      (onRetry attempt) .unsent)
    (hdead : ∀ e, deliveries.Follows call (fun _ _ => True) (onDead e) .unsent)
    (left attempt : ℕ) : deliveries.Follows call (fun _ _ => True)
      (RetryService.attempts operation onRetry onDead left attempt) .unsent := by
  apply RetryService.follows_loop (· = .unsent) (· = .unsent) _ _ _ attempt rfl
  · exact .inr fun _ _ => trivial
  · rintro _ rfl
    apply hoperation.mono
    intro _ _ hunsent
    exact ⟨fun _ _ => trivial, hunsent⟩
  · rintro n _ rfl
    apply (hretry n).mono
    rintro _ _ rfl
    exact ⟨fun _ _ => rfl, fun _ _ => trivial⟩
  · rintro e _ rfl
    exact hdead e

theorem follows_deliver (setting : Setting) (options : ProcessOptions) (logId : ℕ) :
    deliveries.Follows call (fun _ _ => True) (ProcessorService.deliver setting options logId)
      .unsent := by
  unfold ProcessorService.deliver
  split
  · apply Typestate.follows_send <;> intros <;> trivial
  · rename_i html _
    have hretry (attempt : ℕ) : deliveries.Follows call (fun stage _ => stage = .unsent)
        (NotificationLogService.markRetrying logId attempt) .unsent :=
      Typestate.follows_send trivial (fun _ _ => rfl) (fun _ _ _ => rfl) fun _ _ _ => rfl
    have hdead (errorMessage : String) : deliveries.Follows call (fun _ _ => True)
        (NotificationLogService.markDead logId errorMessage) .unsent :=
      Typestate.follows_send rfl (fun _ _ => trivial) (fun _ _ _ => trivial) fun _ _ _ => trivial
    have hattempts := follows_attempts (follows_attempt options logId html) hretry hdead
      setting.maxAttempts 0
    exact hattempts.bind (fun _ _ _ => trivial) fun _ _ _ => trivial

theorem follows_process (setting : Setting) (options : ProcessOptions) :
    deliveries.Follows call (fun _ _ => True) (ProcessorService.process setting options)
      .unsent := by
  have hcheck : deliveries.Follows call (fun stage _ => stage = .unsent)
      (IdempotencyService.isDuplicate options.idempotencyKey) .unsent :=
    Typestate.follows_send trivial (fun _ _ => rfl) (fun _ _ _ => rfl) fun _ _ _ => rfl
  apply hcheck.bind
  · rintro _ isDuplicate rfl
    cases isDuplicate with
    | true => trivial
    | false =>
      have hcreate : deliveries.Follows call (fun stage _ => stage = .unsent)
          (NotificationLogService.createPending options.userId options.email options.type
            options.templateContext options.idempotencyKey) .unsent := by
        have hsave (doc : Notification) : deliveries.Follows call (fun stage _ => stage = .unsent)
            (query (.create doc)) .unsent :=
          Typestate.follows_send trivial (fun _ _ => rfl) (fun _ _ _ => rfl) fun _ _ _ => rfl
        apply (hsave _).bind
        · rintro _ saved rfl
          cases saved <;> rfl
        · rintro _ _ rfl
          rfl
      apply hcreate.handle
      rintro _ res rfl
      cases res with
      | ok logId => exact follows_deliver setting options logId
      | error e => trivial
  · intro _ _ _
    trivial

end Walk

section Count

theorem length_le_one_of_nodup {α : Type} {l : List α} (hnodup : l.Nodup)
    (hsame : ∀ a ∈ l, ∀ b ∈ l, a = b) : l.length ≤ 1 := by
  rcases l with _ | ⟨a, _ | ⟨b, l⟩⟩
  · exact Nat.zero_le 1
  · exact le_rfl
  · obtain rfl := hsame a (by simp) b (by simp)
    simp at hnodup

/-- What the stage of call `i` says of its answers and its history. -/
structure Delivery.Tells (answers : List (ℕ × NotificationOp)) (i : ℕ) (h : History)
    (stage : Delivery) : Prop where
  count : (senders answers).count i = if stage = .sent then 1 else 0
  mailed : stage = .sent → Mailed h
  dead : ∀ n errorMessage, ⟨.update n (.dead errorMessage), ()⟩ ∈ h → stage = .dead

variable {answers : List (ℕ × NotificationOp)} {i j : ℕ} {h : History} {stage : Delivery}
  {op : NotificationOp}

theorem count_senders_sendMail (mail : Mail) :
    (senders (answers ++ [(j, .sendMail mail)])).count i =
      (senders answers).count i + if j = i then 1 else 0 := by
  rw [senders, List.filterMap_append, List.count_append]
  simp [senders, List.count_singleton]

theorem senders_concat_of_ne (hop : ∀ mail, op ≠ .sendMail mail) :
    senders (answers ++ [(j, op)]) = senders answers := by
  rw [senders, List.filterMap_append]
  cases op with
  | sendMail mail => exact absurd rfl (hop mail)
  | _ => simp [senders]

theorem Delivery.Tells.other (ht : stage.Tells answers i h) (hj : j ≠ i) :
    stage.Tells (answers ++ [(j, op)]) i h := by
  constructor
  · rw [← ht.count]
    cases op with
    | sendMail mail => rw [count_senders_sendMail, if_neg hj, Nat.add_zero]
    | _ => rw [senders_concat_of_ne (by simp)]
  · exact ht.mailed
  · exact ht.dead

/-- An operation that is neither a mail nor the last note of a failure. -/
theorem Delivery.Tells.quiet (ht : stage.Tells answers i h) {reply : op.Reply}
    (hmail : ∀ mail, op ≠ .sendMail mail) (hdead : ∀ n e, op ≠ .update n (.dead e)) :
    stage.Tells (answers ++ [(i, op)]) i (⟨op, reply⟩ :: h) ∧
      stage.Tells answers i (⟨op, reply⟩ :: h) := by
  have hold (n : ℕ) (e : String) (hmem : ⟨.update n (.dead e), ()⟩ ∈ (⟨op, reply⟩ :: h : History)) :
      stage = .dead := by
    rcases List.mem_cons.mp hmem with heq | hmem
    · cases heq
      exact absurd rfl (hdead n e)
    · exact ht.dead n e hmem
  constructor
  · constructor
    · rw [senders_concat_of_ne hmail]
      exact ht.count
    · exact fun hs => (ht.mailed hs).cons _
    · exact hold
  · exact ⟨ht.count, fun hs => (ht.mailed hs).cons _, hold⟩

/-- One operation of a call, answered or lost, keeps what its stage says. -/
theorem Delivery.Tells.step (ht : stage.Tells answers i h) (hmay : deliveries.may i stage op)
    (reply : op.Reply) :
    (deliveries.move stage op reply .done).Tells (answers ++ [(i, op)]) i (⟨op, reply⟩ :: h) ∧
      ∀ e, (deliveries.move stage op reply (.lost e)).Tells answers i (⟨op, reply⟩ :: h) := by
  cases op with
  | getProcessed key => exact (ht.quiet (by simp) (by simp)).imp_right fun hl _ => hl
  | setProcessed key => exact (ht.quiet (by simp) (by simp)).imp_right fun hl _ => hl
  | create doc => exact (ht.quiet (by simp) (by simp)).imp_right fun hl _ => hl
  | sendMail mail =>
    obtain rfl : stage = .unsent := hmay
    have hno (n : ℕ) (e : String)
        (hmem : ⟨.update n (.dead e), ()⟩ ∈ (⟨.sendMail mail, reply⟩ :: h : History)) : False := by
      rcases List.mem_cons.mp hmem with heq | hmem
      · cases heq
      · cases ht.dead n e hmem
    constructor
    · constructor
      · rw [count_senders_sendMail, ht.count, if_pos rfl]
        rfl
      · exact fun _ => ⟨mail, List.mem_cons_self⟩
      · exact fun n e hmem => (hno n e hmem).elim
    · intro e
      constructor
      · exact ht.count
      · intro hs
        cases hs
      · exact fun n e hmem => (hno n e hmem).elim
  | update n set =>
    cases set with
    | dead errorMessage =>
      obtain rfl : stage = .unsent := hmay
      constructor
      · constructor
        · rw [senders_concat_of_ne (by simp), ht.count]
          rfl
        · intro hs
          cases hs
        · exact fun _ _ _ => rfl
      · intro e
        constructor
        · exact ht.count
        · intro hs
          cases hs
        · exact fun _ _ _ => rfl
    | sent => exact (ht.quiet (by simp) (by simp)).imp_right fun hl _ => hl
    | failed errorMessage => exact (ht.quiet (by simp) (by simp)).imp_right fun hl _ => hl
    | retrying attempts => exact (ht.quiet (by simp) (by simp)).imp_right fun hl _ => hl

theorem move_failed (stage : Delivery) (op : NotificationOp) (reply : op.Reply) (e : Exception) :
    deliveries.move stage op reply (.failed e) = stage := by
  cases op with
  | update n set => cases set <;> rfl
  | _ => rfl

end Count

section Run
variable (setting : Setting) (store : Store) (calls : ℕ → ProcessOptions) {sched : Schedule}

theorem run_tells (hnotes : notesMade.Along backend (State.start setting store calls) sched) :
    ∃ stages : ℕ → Delivery, ∀ i, (stages i).Tells
      ((State.start setting store calls).answers backend sched) i
      (own i ((State.start setting store calls).run backend sched).log) := by
  suffices hrun : deliveries.On (fun _ _ _ => True) ((State.start setting store calls).run backend
      sched) (deliveries.run backend (State.start setting store calls) (fun _ => .unsent) sched) ∧
      ∀ i, (deliveries.run backend (State.start setting store calls) (fun _ => .unsent) sched
        i).Tells ([] ++ (State.start setting store calls).answers backend sched) i
        (own i ((State.start setting store calls).run backend sched).log) from ⟨_, hrun.2⟩
  apply Typestate.run_invariant (A := notesMade)
    (I := fun _ log answers stages => ∀ i, (stages i : Delivery).Tells answers i (own i log))
  · intro _ _ _ _ _ _ _ _ hcall
    exact hcall
  · intro x log answers stages i op hI hmay _ j
    by_cases hj : j = i
    · subst hj
      rw [own_cons_self, Function.update_self]
      exact ((hI j).step hmay _).1
    · rw [own_cons_ne (Ne.symm hj), Function.update_of_ne hj]
      exact (hI j).other (Ne.symm hj)
  · intro x log answers stages i op e hI _ _ j
    rw [move_failed, Function.update_eq_self]
    exact hI j
  · intro x log answers stages i op e hI hmay _ j
    exact Typestate.forall_update (R := fun j h (stage : Delivery) => stage.Tells answers j h) hI
      (((hI i).step hmay _).2 e) j
  · intro x log answers stages y hI _
    exact hI
  · intro i p hp
    cases hp
    exact follows_process setting (calls i)
  · intro i
    constructor
    · rfl
    · intro hs
      cases hs
    · intro n e hmem
      cases hmem
  · exact hnotes

/-- Along every schedule whose notes are made, at most one `sendEmail` call for a
key succeeds, and a log entry of the key is `DEAD` only if none has. -/
theorem mailed_at_most_once (key : String)
    (hnotes : notesMade.Along backend (State.start setting store calls) sched) :
    let sends := (senders ((State.start setting store calls).answers backend sched)).filter
      fun i => (calls i).idempotencyKey = key
    sends.length ≤ 1 ∧ ∀ doc ∈ ((State.start setting store calls).run backend
      sched).store.notifications, doc.idempotencyKey = key → doc.status = .dead → sends = [] := by
  intro sends
  obtain ⟨stages, htells⟩ := run_tells setting store calls hnotes
  have hkept := (run_kept setting store calls sched).2
  have hsent {i : ℕ} (hi : i ∈ sends) : (calls i).idempotencyKey = key ∧ stages i = .sent := by
    obtain ⟨hmem, hkey⟩ := List.mem_filter.mp hi
    constructor
    · exact of_decide_eq_true hkey
    · by_contra hstage
      have hcount := (htells i).count
      rw [if_neg hstage, List.count_eq_zero] at hcount
      exact hcount hmem
  have hcreated {i : ℕ} (hi : i ∈ sends) :=
    created_of_mailed setting store calls sched ((htells i).mailed (hsent hi).2)
  constructor
  · have hsame (i : ℕ) (hi : i ∈ sends) (j : ℕ) (hj : j ∈ sends) : i = j := by
      obtain ⟨n, hn⟩ := hcreated hi
      obtain ⟨m, hm⟩ := hcreated hj
      exact (hkept.eq_of_created hn hm ((hsent hi).1.trans (hsent hj).1.symm)).1
    have hnodup : sends.Nodup := by
      apply List.Nodup.filter
      rw [List.nodup_iff_count_le_one]
      intro i
      rw [(htells i).count]
      split <;> omega
    exact length_le_one_of_nodup hnodup hsame
  · intro doc hdoc hkey hdead
    rw [List.eq_nil_iff_forall_not_mem]
    intro i hi
    obtain ⟨n, hn⟩ := hcreated hi
    have hwritten : writtenStatus (own i _) = .dead :=
      (hkept.status_eq hn hdoc (hkey.trans (hsent hi).1.symm)).symm.trans hdead
    obtain ⟨m, set, hmem, hset⟩ := exists_update_of_writtenStatus (by rw [hwritten]; simp)
    rw [hwritten] at hset
    cases set with
    | dead errorMessage =>
      have hstage := (htells i).dead m errorMessage hmem
      rw [(hsent hi).2] at hstage
      cases hstage
    | sent => cases hset
    | failed errorMessage => cases hset
    | retrying attempts => cases hset

end Run

section Example

instance : DecidablePred NotificationOp.IsNote
  | .update _ .sent => .isTrue trivial
  | .update _ (.failed _) => .isFalse id
  | .update _ (.retrying _) => .isFalse id
  | .update _ (.dead _) => .isFalse id
  | .setProcessed _ => .isTrue trivial
  | .getProcessed _ => .isFalse id
  | .create _ => .isFalse id
  | .sendMail _ => .isFalse id

instance (s : Store) (log : Log) (i : ℕ) (op : NotificationOp) (o : Outcome Exception) :
    Decidable (notesMade.call s log i op o) :=
  inferInstanceAs (Decidable (op.IsNote → o = .done))

instance (x : Environment) : Decidable (notesMade.env x) := .isTrue trivial

def otpEvent (_ : ℕ) : ProcessOptions where
  userId := "66c1f0aa90d3b5e7128f4a01"
  email := "maya@example.com"
  type := .otpSend
  subject := "Your Verification Code"
  templateName := "otp"
  templateContext := [("otp", .text "904311")]
  idempotencyKey := "notification:OTP_SEND:66c1f0aa90d3b5e7128f4a01:904311"

def withAttempts (maxAttempts : ℕ) : Setting where
  maxAttempts := maxAttempts
  render templateName _ := .ok templateName

def unreachable : Exception := .driver "connect ECONNREFUSED"

/-- The first send fails, the second does not, and the event is delivered again. -/
def sentAtSecond : Schedule :=
  [.step 0 .done, .step 0 .done, .step 0 (.failed unreachable)] ++
    List.replicate 4 (.step 0 .done) ++ [.env (.expire (otpEvent 0).idempotencyKey)] ++
    List.replicate 3 (.step 1 .done)

theorem mailed_once_sentAtSecond :
    let sends := (senders ((State.start (withAttempts 3) Store.empty otpEvent).answers backend
      sentAtSecond)).filter fun i => (otpEvent i).idempotencyKey = (otpEvent 0).idempotencyKey
    sends.length ≤ 1 ∧ ∀ doc ∈ ((State.start (withAttempts 3) Store.empty otpEvent).run backend
      sentAtSecond).store.notifications, doc.idempotencyKey = (otpEvent 0).idempotencyKey →
        doc.status = .dead → sends = [] :=
  mailed_at_most_once (withAttempts 3) Store.empty otpEvent (otpEvent 0).idempotencyKey
    (by decide +kernel)

/-- The mail is sent, but `markSent` fails. -/
def noteFails : Schedule := List.replicate 3 (.step 0 .done) ++ [.step 0 (.failed unreachable)]

/-- Where attempts are left, the mail is sent again; where none are, a call whose
mail has succeeded ends `DEAD`. -/
theorem mailed_again :
    senders ((State.start (withAttempts 3) Store.empty otpEvent).answers backend
      (noteFails ++ List.replicate 4 (.step 0 .done))) = [0, 0] ∧
    senders ((State.start (withAttempts 1) Store.empty otpEvent).answers backend
      (noteFails ++ [.step 0 .done])) = [0] ∧
    ((State.start (withAttempts 1) Store.empty otpEvent).run backend
      (noteFails ++ [.step 0 .done])).store.notifications.map Notification.status = [.dead] := by
  decide +kernel

end Example

end StockMarket.Notifications
