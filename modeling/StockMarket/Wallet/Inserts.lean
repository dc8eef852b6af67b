import StockMarket.Wallet.Service

/-! # The records each request inserts

Every service function is walked through once for the documents it may insert:
their type, their owner and the idempotency key they are entered under.
-/

namespace StockMarket.Wallet
open Interleaving Prog

/-- The operation inserts no document that is not in `P`. -/
def Inserting (P : Transaction → Prop) (op : WalletOp) : Prop :=
  ∀ doc, op = .createTransaction doc → P doc

def Request.Inserts (uuid : ℕ) : Request → Transaction → Prop
  | .processStripeDeposit input, doc =>
      doc.type = .deposit ∧ doc.userId = input.userId ∧
        doc.idempotencyKey = input.idempotencyKey
  | .requestWithdrawal member _, doc =>
      doc.type = .withdrawal ∧ doc.userId = member.userId ∧
        doc.idempotencyKey = s!"withdrawal:{member.userId}:{uuid}"
  | .deduct dto, doc =>
      doc.type = .buy ∧ doc.userId = dto.userId ∧
        doc.idempotencyKey = s!"trade:deduct:{dto.orderId}"
  | .credit dto, doc =>
      doc.type = .sell ∧ doc.userId = dto.userId ∧
        doc.idempotencyKey = s!"trade:credit:{dto.orderId}"
  | .manualAdjustment targetUserId _ _ cmsUserId, doc =>
      doc.type ≠ .withdrawal ∧ doc.userId = targetUserId ∧
        doc.idempotencyKey = s!"manual:{cmsUserId}:{targetUserId}:{uuid}"
  | .ensureWallet _, _ => False
  | .approveWithdrawal _ _ _, _ => False
  | .rejectWithdrawal _ _ _ _, _ => False

section Walk
variable {P : Transaction → Prop}

theorem inserting_of_ne {op : WalletOp} (h : ∀ doc, op ≠ .createTransaction doc) :
    Inserting P op :=
  fun doc hdoc => absurd hdoc (h doc)

theorem sends_create {input : CreateTransactionInput} (hdoc : P input.doc) :
    (TransactionService.create input).Sends (Inserting P) := by
  apply Sends.send
  · intro doc heq
    cases heq
    exact hdoc
  · intro reply
    cases reply <;> trivial

theorem sends_withLock {α : Type} {uuid : ℕ} {owner : String} {fn : Call α}
    (hfn : fn.Sends (Inserting P)) :
    (LockService.withLock uuid owner fn).Sends (Inserting P) := by
  apply Sends.bind
  · apply Sends.send (inserting_of_ne (by simp))
    intro ok
    cases ok <;> trivial
  · intro token
    cases token with
    | none => trivial
    | some token =>
      apply hfn.handle
      intro res
      apply Sends.handle
      · exact Sends.send (inserting_of_ne (by simp)) fun _ => trivial
      · intro done
        cases done <;> cases res <;> trivial

theorem sends_recordThenMove {record : CreateTransactionInput} {gte : Option ℚ} {amount : ℚ}
    {isDeposit : Bool} {giveUp : ℕ → Call (ℕ × ℚ)} (hdoc : P record.doc)
    (hgive : ∀ id, (giveUp id).Sends (Inserting P)) :
    (recordThenMove record gte amount isDeposit giveUp).Sends (Inserting P) := by
  apply Sends.bind (sends_create hdoc)
  intro id
  apply Sends.send (inserting_of_ne (by simp))
  intro reply
  cases reply with
  | none => exact hgive id
  | some w => exact Sends.send (inserting_of_ne (by simp)) fun _ => trivial

theorem sends_findPendingWithdrawal (transactionId : ℕ) :
    (WalletService.findPendingWithdrawal transactionId).Sends (Inserting P) := by
  apply Sends.send (inserting_of_ne (by simp))
  intro reply
  cases reply with
  | none => trivial
  | some t =>
    dsimp only
    split
    · trivial
    · split <;> trivial

theorem sends_getWallet (owner : String) :
    (WalletService.getWallet owner).Sends (Inserting P) := by
  apply Sends.send (inserting_of_ne (by simp))
  intro reply
  cases reply <;> trivial

theorem sends_movement {uuid : ℕ} {key owner : String} {k : Option WalletDoc → Call ℚ}
    (hk : ∀ reply, (k reply).Sends (Inserting P)) :
    (TransactionService.existsByIdempotencyKey key >>= fun already =>
      if already then InternalWalletService.currentBalance owner else
        LockService.withLock uuid owner (query (.findWallet owner) >>= k)).Sends
      (Inserting P) := by
  apply Sends.bind
  · exact Sends.send (inserting_of_ne (by simp)) fun _ => trivial
  · intro already
    split
    · apply Sends.send (inserting_of_ne (by simp))
      intro reply
      cases reply <;> trivial
    · exact sends_withLock (Sends.send (inserting_of_ne (by simp)) hk)

end Walk

section Requests
variable (withdrawalHoldHrs uuid : ℕ)

theorem sends_processStripeDeposit (input : StripeDepositInput) :
    (WalletService.processStripeDeposit uuid input).Sends
      (Inserting ((Request.processStripeDeposit input).Inserts uuid)) := by
  apply Sends.bind
  · exact Sends.send (inserting_of_ne (by simp)) fun _ => trivial
  · intro already
    split
    · trivial
    apply sends_withLock
    apply Sends.send (inserting_of_ne (by simp))
    intro wallet
    apply Sends.bind
    · exact sends_recordThenMove ⟨rfl, rfl, rfl⟩ fun _ => trivial
    · intro out
      exact Sends.send (inserting_of_ne (by simp)) fun _ => trivial

theorem sends_requestWithdrawal (member : MemberContext) (dto : WithdrawDto) :
    (WalletService.requestWithdrawal withdrawalHoldHrs uuid member dto).Sends
      (Inserting ((Request.requestWithdrawal member dto).Inserts uuid)) := by
  have hsubmit (wallet : WalletDoc) :
      (WalletService.requestWithdrawal.submit uuid member dto wallet).Sends
        (Inserting ((Request.requestWithdrawal member dto).Inserts uuid)) := by
    rw [WalletService.requestWithdrawal.submit]
    split
    · trivial
    apply Sends.bind
    · exact sends_create ⟨rfl, rfl, rfl⟩
    · intro id
      exact Sends.send (inserting_of_ne (by simp)) fun _ => trivial
  apply Sends.bind (sends_getWallet _)
  intro wallet
  split
  · apply Sends.send (inserting_of_ne (by simp))
    intro now
    split
    · trivial
    · exact hsubmit wallet
  · exact hsubmit wallet

theorem sends_approveWithdrawal (transactionId : ℕ) (cmsUserId : String)
    (member : MemberContext) :
    (WalletService.approveWithdrawal uuid transactionId cmsUserId member).Sends
      (Inserting ((Request.approveWithdrawal transactionId cmsUserId member).Inserts uuid)) := by
  apply Sends.bind (sends_findPendingWithdrawal _)
  intro t
  apply sends_withLock
  apply Sends.send (inserting_of_ne (by simp))
  intro reply
  cases reply <;> exact Sends.send (inserting_of_ne (by simp)) fun _ =>
    Sends.send (inserting_of_ne (by simp)) fun _ => trivial

theorem sends_rejectWithdrawal (transactionId : ℕ) (reason cmsUserId : String)
    (member : MemberContext) :
    (WalletService.rejectWithdrawal transactionId reason cmsUserId member).Sends (Inserting
      ((Request.rejectWithdrawal transactionId reason cmsUserId member).Inserts uuid)) := by
  apply Sends.bind (sends_findPendingWithdrawal _)
  intro t
  apply Sends.send (inserting_of_ne (by simp))
  intro _
  exact Sends.send (inserting_of_ne (by simp)) fun _ => trivial

theorem sends_deduct (dto : InternalMoveDto) :
    (InternalWalletService.deduct uuid dto).Sends
      (Inserting ((Request.deduct dto).Inserts uuid)) := by
  apply sends_movement
  intro reply
  cases reply with
  | none => trivial
  | some wallet =>
    dsimp only
    split
    · trivial
    · apply Sends.bind
      · apply sends_recordThenMove ⟨rfl, rfl, rfl⟩
        intro id
        exact Sends.send (inserting_of_ne (by simp)) fun _ => trivial
      · intro out
        trivial

theorem sends_credit (dto : InternalMoveDto) :
    (InternalWalletService.credit uuid dto).Sends
      (Inserting ((Request.credit dto).Inserts uuid)) := by
  apply sends_movement
  intro reply
  cases reply with
  | none => trivial
  | some wallet =>
    apply Sends.bind
    · exact sends_recordThenMove ⟨rfl, rfl, rfl⟩ fun _ => trivial
    · intro out
      trivial

theorem sends_manualAdjustment (targetUserId : String) (amount : ℚ)
    (justification cmsUserId : String) :
    (WalletService.manualAdjustment uuid targetUserId amount justification cmsUserId).Sends
      (Inserting ((Request.manualAdjustment targetUserId amount justification cmsUserId).Inserts
        uuid)) := by
  apply sends_withLock
  apply Sends.bind (sends_getWallet _)
  intro wallet
  dsimp only
  split
  · trivial
  apply Sends.send (inserting_of_ne (by simp))
  intro _
  apply Sends.send (inserting_of_ne (by simp))
  intro processedAt
  apply Sends.bind
  · apply sends_create
    constructor
    · dsimp only [CreateTransactionInput.doc]
      split <;> simp
    · exact ⟨rfl, rfl⟩
  · intro id
    trivial

theorem Request.sends_inserts (r : Request) :
    (r.serve withdrawalHoldHrs uuid).Sends (Inserting (r.Inserts uuid)) := by
  cases r with
  | ensureWallet owner => exact Sends.send (inserting_of_ne (by simp)) fun _ => trivial
  | processStripeDeposit input =>
    exact (sends_processStripeDeposit uuid input).bind fun _ => trivial
  | requestWithdrawal member dto =>
    exact (sends_requestWithdrawal withdrawalHoldHrs uuid member dto).bind fun _ => trivial
  | approveWithdrawal transactionId cmsUserId member =>
    exact (sends_approveWithdrawal uuid transactionId cmsUserId member).bind fun _ => trivial
  | rejectWithdrawal transactionId reason cmsUserId member =>
    exact (sends_rejectWithdrawal uuid transactionId reason cmsUserId member).bind fun _ => trivial
  | deduct dto => exact (sends_deduct uuid dto).bind fun _ => trivial
  | credit dto => exact (sends_credit uuid dto).bind fun _ => trivial
  | manualAdjustment targetUserId amount justification cmsUserId =>
    exact (sends_manualAdjustment uuid targetUserId amount justification cmsUserId).bind
      fun _ => trivial

end Requests
end StockMarket.Wallet
