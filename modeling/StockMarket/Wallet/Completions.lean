import StockMarket.Wallet.Ledger
import StockMarket.Interleaving.Sequence

/-! # What a call run alone completes

A call that runs from its beginning to its end either leaves a user's balance
and COMPLETED records as they are, or completes one record of the user and moves
the balance by the amount that record says.
-/

namespace StockMarket.Wallet
open Interleaving Prog

def Store.completed (s : Store) (userId : String) (transactionId : ℕ) : Option Transaction :=
  s.transactions[transactionId]?.filter fun t => t.userId = userId ∧ t.status = .completed

/-- Neither the balance nor a COMPLETED record of the user has changed. -/
structure Kept (userId : String) (s s' : Store) : Prop where
  balance : s'.balance userId = s.balance userId
  records : s'.completed userId = s.completed userId

/-- What a call has done for the user. `timely` tells whether the record it has
completed, if any, began at the balance the call found. -/
inductive Settles (userId : String) (timely : Prop) (s s' : Store) : Prop
  | kept (h : Kept userId s s') (htimely : timely)
  | entered (transactionId : ℕ) (t : Transaction)
      (fresh : s.completed userId transactionId = none)
      (records : s'.completed userId =
        Function.update (s.completed userId) transactionId (some t))
      (moved : s'.balance userId = s.balance userId + t.type.sign * t.amount)
      (after : t.balanceAfter = some (s'.balance userId))
      (before : timely ↔ t.balanceBefore = s.balance userId)

/-- The approval is carried out on a balance other than the one at the request. -/
def Late (s : Store) (transactionId : ℕ) (userId : String) : Prop :=
  ∃ t, s.transactions[transactionId]? = some t ∧ t.userId = userId ∧ t.type = .withdrawal ∧
    t.status = .pending ∧ s.locks (walletLock userId) = none ∧
    ∃ w, s.wallets userId = some w ∧ w.Covers (some t.amount) ∧ t.balanceBefore ≠ w.balance

/-- An approval that is carried out finds the balance that its record was written with. -/
def Timely (s : Store) (userId : String) : Event Request Environment → Prop
  | .call (.approveWithdrawal transactionId _ _) => ¬Late s transactionId userId
  | _ => True

def NoAdjustments (events : List (Event Request Environment)) : Prop :=
  ∀ targetUserId amount justification cmsUserId,
    .call (.manualAdjustment targetUserId amount justification cmsUserId) ∉ events

section Kept
variable {userId : String} {s s' s'' : Store}

theorem Kept.rfl : Kept userId s s := ⟨Eq.refl _, Eq.refl _⟩

theorem Kept.trans (h : Kept userId s s') (h' : Kept userId s' s'') : Kept userId s s'' :=
  ⟨h'.balance.trans h.balance, h'.records.trans h.records⟩

theorem Kept.settles {timely : Prop} (h : Kept userId s s') (h' : Settles userId timely s' s'') :
    Settles userId timely s s'' := by
  rcases h' with ⟨hkept, htimely⟩ | ⟨id, t, hopen, hrecords, hmoved, hafter, hbefore⟩
  · exact .kept (h.trans hkept) htimely
  · rw [h.records] at hopen hrecords
    rw [h.balance] at hmoved hbefore
    exact .entered id t hopen hrecords hmoved hafter hbefore

theorem Kept.of_same (hw : s'.wallets = s.wallets) (ht : s'.transactions = s.transactions) :
    Kept userId s s' :=
  ⟨by rw [Store.balance, hw, Store.balance], by
    funext id
    rw [Store.completed, ht, Store.completed]⟩

theorem completed_modify (userId : String) (f : Transaction → Transaction) {id : ℕ}
    {t : Transaction} (ht : s.transactions[id]? = some t) :
    Store.completed { s with transactions := s.transactions.modify id f } userId =
      Function.update (s.completed userId) id
        (if (f t).userId = userId ∧ (f t).status = .completed then some (f t) else none) := by
  funext j
  by_cases hj : j = id
  · subst hj
    simp [Store.completed, ht, Option.filter]
  · rw [Function.update_of_ne hj]
    simp [Store.completed, Ne.symm hj]

theorem completed_eq_none (userId : String) {id : ℕ} {t : Transaction}
    (ht : s.transactions[id]? = some t) (hstatus : t.status ≠ .completed) :
    s.completed userId id = none := by
  simp [Store.completed, ht, hstatus]

theorem kept_locked (userId : String) (uuid : ℕ) (owner : String) (s : Store) : Kept userId s
    { s with locks := Function.update s.locks (walletLock owner) (some uuid) } :=
  .of_same rfl rfl

theorem kept_exec_create {doc : Transaction} (hdoc : doc.status ≠ .completed) (s : Store) :
    Kept userId s (exec (.createTransaction doc) s).2 := by
  by_cases hk : s.HasKey doc.idempotencyKey
  · rw [exec, if_pos hk]
    exact .rfl
  rw [exec, if_neg hk]
  refine ⟨rfl, funext ?_⟩
  intro id
  rcases lt_trichotomy id s.transactions.length with hid | rfl | hid
  · simp [Store.completed, List.getElem?_append_left hid]
  · simp [Store.completed, Option.filter, hdoc]
  · have hlength : (s.transactions ++ [{ doc with createdAt := s.now }]).length ≤ id := by
      rw [List.length_append, List.length_singleton]
      exact hid
    simp only [Store.completed]
    rw [List.getElem?_eq_none hlength, List.getElem?_eq_none hid.le]

theorem kept_exec_rejected {id : ℕ} {t : Transaction} (ht : s.transactions[id]? = some t)
    (hstatus : t.status ≠ .completed) (reason : String) (cmsUserId : Option String) :
    Kept userId s (exec (.updateTransaction id (.rejected reason cmsUserId)) s).2 := by
  refine ⟨rfl, ?_⟩
  rw [exec, completed_modify userId _ ht, TransactionUpdate.status_apply,
    if_neg (by simp [TransactionUpdate.status]), ← completed_eq_none userId ht hstatus]
  exact Function.update_eq_self _ _

theorem kept_exec_quiet (op : WalletOp) (s : Store) (hop : op.quiet) :
    Kept userId s (exec op s).2 := by
  have hchange := change_exec op s
  generalize (exec op s).2 = s' at hchange ⊢
  cases hchange <;> first | exact .of_same rfl rfl | cases hop

theorem kept_exec_ensureWallet (owner : String) (s : Store) :
    Kept userId s (exec (.ensureWallet owner) s).2 := by
  refine ⟨balance_exec_of_not_moves rfl, ?_⟩
  rcases hw : s.wallets owner with _ | w
  · simp only [exec, hw]
    rfl
  · simp only [exec, hw]

end Kept

section Completed
variable {userId : String} {s : Store}

/-- Completing a record sets its `balanceAfter` and leaves its `balanceBefore`. -/
theorem TransactionUpdate.balances_apply (now : Time) (t : Transaction) (balanceAfter : ℚ)
    (cmsUserId : Option String) :
    (apply now t (.completed balanceAfter cmsUserId)).balanceBefore = t.balanceBefore ∧
      (apply now t (.completed balanceAfter cmsUserId)).balanceAfter = some balanceAfter := by
  rw [apply]
  rcases cmsUserId with _ | c
  · exact ⟨rfl, rfl⟩
  · rw [Transaction.setCmsUser]
    split <;> exact ⟨rfl, rfl⟩

/-- Moving a balance by what a record says, then completing the record. -/
theorem settles_completed {id : ℕ} {t : Transaction} {w : WalletDoc} {timely : Prop}
    (ht : s.transactions[id]? = some t) (hstatus : t.status ≠ .completed)
    (hw : s.wallets t.userId = some w) (isDeposit : Bool) (cmsUserId : Option String)
    (hother : t.userId ≠ userId → timely)
    (hbefore : t.userId = userId → (timely ↔ t.balanceBefore = w.balance)) :
    Settles userId timely s (exec (.updateTransaction id
      (.completed (w.balance + t.type.sign * t.amount) cmsUserId))
        (s.setWallet t.userId (w.inc (t.type.sign * t.amount) isDeposit s.now))).2 := by
  obtain ⟨hsameUser, hsameType, hsameAmount, -⟩ := TransactionUpdate.same_apply s.now t
    (.completed (w.balance + t.type.sign * t.amount) cmsUserId)
  obtain ⟨hb, ha⟩ := TransactionUpdate.balances_apply s.now t (w.balance + t.type.sign * t.amount)
    cmsUserId
  have hrecords := completed_modify (s := s.setWallet t.userId
    (w.inc (t.type.sign * t.amount) isDeposit s.now)) userId
    (TransactionUpdate.apply s.now · (.completed (w.balance + t.type.sign * t.amount) cmsUserId))
    ht
  have hbalance := balance_setWallet s t.userId
    (w.inc (t.type.sign * t.amount) isDeposit s.now) userId
  simp only [hsameUser, TransactionUpdate.status_apply, TransactionUpdate.status, and_true]
    at hrecords
  by_cases hu : t.userId = userId
  · rw [if_pos hu] at hrecords hbalance
    have hfound : s.balance userId = w.balance := by simp [Store.balance, ← hu, hw]
    refine .entered id _ (completed_eq_none userId ht hstatus) hrecords ?_ ?_ ?_
    · rw [hsameType, hsameAmount, hfound]
      exact hbalance
    · rw [ha]
      exact congrArg some hbalance.symm
    · rw [hb, hfound]
      exact hbefore hu
  · rw [if_neg hu] at hrecords hbalance
    refine .kept ⟨hbalance, hrecords.trans ?_⟩ (hother hu)
    exact Function.update_eq_self_iff.mpr (completed_eq_none userId ht hstatus).symm

/-- Wherever it is asked for, the wallet is there, with the balance answered. -/
theorem wallets_exec_ensureWallet (owner : String) (s : Store) :
    (exec (.ensureWallet owner) s).2.wallets owner = some (exec (.ensureWallet owner) s).1 := by
  rcases hw : s.wallets owner with _ | w
  · simp [exec, hw, Store.setWallet]
  · simp [exec, hw]

end Completed

section Services
variable {userId : String} {α β : Type}

theorem run_query (op : WalletOp) (k : op.Reply → Call α) (s : Store) :
    (query op >>= k).run exec answered s = (k (exec op s).1).run exec answered (exec op s).2 :=
  run_send_bind_done exec answered k s rfl

/-- What the wallets and the records decide. -/
def Bookkept (P : Store → Prop) : Prop :=
  ∀ x y : Store, y.wallets = x.wallets → y.transactions = x.transactions → P x → P y

theorem bookkept_kept (s : Store) : Bookkept (Kept userId s) :=
  fun _ _ hw ht h => h.trans (.of_same hw ht)

theorem bookkept_settles (userId : String) (timely : Prop) (s : Store) :
    Bookkept (Settles userId timely s) := by
  rintro x y hw ht (⟨hkept, htimely⟩ | ⟨id, t, hopen, hrecords, hmoved, hafter, hbefore⟩)
  · exact .kept (hkept.trans (.of_same hw ht)) htimely
  · obtain ⟨hbalance, hsame⟩ : Kept userId x y := .of_same hw ht
    rw [← hsame] at hrecords
    rw [← hbalance] at hmoved hafter
    exact .entered id t hopen hrecords hmoved hafter hbefore

section Bookkept
variable {P : Store → Prop} (hP : Bookkept P)
include hP

theorem Bookkept.exec_quiet {op : WalletOp} (hop : op.quiet) {s : Store} (hs : P s) :
    P (exec op s).2 := by
  have hchange := change_exec op s
  generalize (exec op s).2 = s' at hchange ⊢
  cases hchange <;> first | exact hP s _ rfl rfl hs | cases hop

theorem Bookkept.run_quiet {p : Call α} (hp : p.Sends fun op => op.quiet) {s : Store} (hs : P s) :
    P (p.run exec answered s).2 :=
  hp.run_invariant exec answered (fun _ _ hop hx => hP.exec_quiet hop hx) s hs

theorem Bookkept.bind_quiet {p : Call α} {k : α → Call β}
    (hk : ∀ a, (k a).Sends fun op => op.quiet) {s : Store} (hs : P (p.run exec answered s).2) :
    P ((p >>= k).run exec answered s).2 := by
  rw [run_bind]
  rcases (p.run exec answered s).1 with e | a
  · exact hs
  · exact hP.run_quiet (hk a) hs

/-- What happens under the lock, if it can be had, decides. -/
theorem Bookkept.withLock (uuid : ℕ) (owner : String) (fn : Call α) {s : Store}
    (htaken : s.locks (walletLock owner) = none → P (fn.run exec answered
      { s with locks := Function.update s.locks (walletLock owner) (some uuid) }).2)
    (hrefused : s.locks (walletLock owner) ≠ none → P s) :
    P ((LockService.withLock uuid owner fn).run exec answered s).2 := by
  rcases hlock : s.locks (walletLock owner) with _ | token
  · obtain ⟨r, s', hrun, hwallets, htransactions, -⟩ :=
      @run_withLock_taken answered uuid s _ owner fn rfl hlock
    rw [hrun]
    exact hP _ _ hwallets htransactions (htaken hlock)
  · rw [LockService.withLock, LockService.acquire, bind_bind, run_query]
    simp only [exec, hlock]
    exact hrefused (by simp [hlock])

theorem Bookkept.movement (uuid : ℕ) (key owner : String) {k : Option WalletDoc → Call ℚ}
    {s : Store} (hs : P s) (hk : P ((k (s.wallets owner)).run exec answered
      { s with locks := Function.update s.locks (walletLock owner) (some uuid) }).2) :
    P ((TransactionService.existsByIdempotencyKey key >>= fun already =>
      if already then InternalWalletService.currentBalance owner else
        LockService.withLock uuid owner (query (.findWallet owner) >>= k)).run exec
          answered s).2 := by
  rw [TransactionService.existsByIdempotencyKey, bind_bind, run_query]
  simp only [pure_eq, ret_bind]
  split
  · refine hP.run_quiet (Sends.send rfl ?_) hs
    intro reply
    cases reply <;> trivial
  refine hP.withLock uuid _ _ ?_ fun _ => hs
  intro _
  rw [run_query]
  exact hk

end Bookkept

theorem run_getWallet {P : Store → Prop} (owner : String) {k : WalletDoc → Call α} {s : Store}
    (hmissing : s.wallets owner = none → P s)
    (hfound : ∀ w, s.wallets owner = some w → P ((k w).run exec answered s).2) :
    P ((WalletService.getWallet owner >>= k).run exec answered s).2 := by
  rw [WalletService.getWallet, bind_bind, run_query]
  rcases hw : s.wallets owner with _ | w
  · simp only [exec, hw, raise_bind, run_raise]
    exact hmissing hw
  · simp only [exec, hw, pure_eq, ret_bind]
    exact hfound w hw

/-- The decisions on a withdrawal begin with a read of a pending record. -/
theorem run_findPendingWithdrawal {P : Store → Prop} (transactionId : ℕ)
    {k : Transaction → Call α} {s : Store}
    (hno : (¬∃ t, s.transactions[transactionId]? = some t ∧ t.type = .withdrawal ∧
      t.status = .pending) → P s)
    (hk : ∀ t, s.transactions[transactionId]? = some t → t.type = .withdrawal →
      t.status = .pending → P ((k t).run exec answered s).2) :
    P ((WalletService.findPendingWithdrawal transactionId >>= k).run exec answered s).2 := by
  rw [WalletService.findPendingWithdrawal, TransactionService.findById, bind_bind, run_query]
  rcases ht : s.transactions[transactionId]? with _ | t
  · simp only [exec, ht]
    refine hno ?_
    rintro ⟨t', h, -⟩
    simp [ht] at h
  simp only [exec, ht]
  split
  · rename_i htype
    refine hno ?_
    rintro ⟨t', h, h', -⟩
    exact htype (Option.some.inj (ht.symm.trans h) ▸ h')
  split
  · rename_i hstatus
    refine hno ?_
    rintro ⟨t', h, -, h'⟩
    exact hstatus (Option.some.inj (ht.symm.trans h) ▸ h')
  rename_i htype hstatus
  exact hk t ht (not_not.mp htype) (not_not.mp hstatus)

theorem kept_create (input : CreateTransactionInput) (h : input.status ≠ .completed) (s : Store) :
    Kept userId s ((TransactionService.create input).run exec answered s).2 := by
  have hkept : Kept userId s (exec (.createTransaction input.doc) s).2 := kept_exec_create h s
  rw [TransactionService.create, run_query]
  split <;> exact hkept

/-- Between the insertion and the completion the record is not COMPLETED. -/
theorem settles_recordThenMove {record : CreateTransactionInput} {gte : Option ℚ} {amount : ℚ}
    {isDeposit : Bool} {giveUp : ℕ → Call (ℕ × ℚ)} (s : Store) (hstatus : record.status = .pending)
    (hamount : record.type.sign * record.amount = amount)
    (hbefore : ∀ w, s.wallets record.userId = some w → record.balanceBefore = w.balance)
    (hgive : ∀ id x t, x.transactions[id]? = some t → t.status ≠ .completed →
      Kept userId x ((giveUp id).run exec answered x).2) :
    Settles userId True s
      ((recordThenMove record gte amount isDeposit giveUp).run exec answered s).2 := by
  subst hamount
  rw [recordThenMove, TransactionService.create, bind_bind, run_query]
  by_cases hk : s.HasKey record.doc.idempotencyKey
  · rw [show exec (.createTransaction record.doc) s = (none, s) from if_pos hk]
    exact .kept .rfl trivial
  have hdoc : record.doc.status ≠ .completed := by
    rw [show record.doc.status = record.status from rfl, hstatus]
    simp
  have hkept : Kept userId s (exec (.createTransaction record.doc) s).2 := kept_exec_create hdoc s
  have hwallets : (exec (.createTransaction record.doc) s).2.wallets = s.wallets := by
    rw [exec, if_neg hk]
  have hreply : (exec (.createTransaction record.doc) s).1 = some s.transactions.length := by
    rw [exec, if_neg hk]
  obtain ⟨-, hstored⟩ := exec_create_some hreply
  generalize (exec (.createTransaction record.doc) s).2 = y at hkept hwallets hstored
  rw [hreply]
  apply hkept.settles
  simp only [pure_eq, ret_bind]
  rw [run_query]
  rcases hw : y.wallets record.userId with _ | w
  · simp only [exec, hw]
    exact .kept (hgive _ y _ hstored hdoc) trivial
  by_cases hc : w.Covers gte
  · simp only [exec, hw, if_pos hc, TransactionService.markCompleted]
    rw [run_query]
    refine settles_completed hstored hdoc hw isDeposit none (fun _ => trivial) ?_
    intro _
    exact iff_of_true trivial (hbefore w (hwallets ▸ hw))
  · simp only [exec, hw, if_neg hc]
    exact .kept (hgive _ y _ hstored hdoc) trivial

theorem settles_processStripeDeposit (uuid : ℕ) (input : StripeDepositInput) (s : Store) :
    Settles userId True s
      ((WalletService.processStripeDeposit uuid input).run exec answered s).2 := by
  have hP := bookkept_settles userId True s
  rw [WalletService.processStripeDeposit, TransactionService.existsByIdempotencyKey, bind_bind,
    run_query]
  simp only [pure_eq, ret_bind]
  split
  · exact .kept .rfl trivial
  refine hP.withLock uuid _ _ ?_ fun _ => .kept .rfl trivial
  intro _
  rw [WalletService.ensureWallet, run_query]
  refine hP.bind_quiet (fun out => ?_) ?_
  · exact sends_send rfl
  have hlocked := (kept_locked userId uuid input.userId s).trans
    (kept_exec_ensureWallet input.userId _)
  refine hlocked.settles ?_
  apply settles_recordThenMove
  case hstatus => rfl
  case hamount => exact one_mul _
  case hgive => exact fun _ _ _ _ _ => .rfl
  intro w hw
  exact congrArg WalletDoc.balance
    (Option.some.inj ((wallets_exec_ensureWallet input.userId _).symm.trans hw))

theorem settles_deduct (uuid : ℕ) (dto : InternalMoveDto) (s : Store) :
    Settles userId True s ((InternalWalletService.deduct uuid dto).run exec answered s).2 := by
  have hP := bookkept_settles userId True s
  refine hP.movement uuid _ _ (.kept .rfl trivial) ?_
  rcases hw : s.wallets dto.userId with _ | wallet
  · exact .kept (.of_same rfl rfl) trivial
  dsimp only
  split
  · exact .kept (.of_same rfl rfl) trivial
  refine hP.bind_quiet (fun _ => ?_) ?_
  · trivial
  refine (kept_locked userId uuid dto.userId s).settles ?_
  apply settles_recordThenMove
  case hstatus => rfl
  case hamount => exact neg_one_mul _
  case hbefore =>
    exact fun w hw' => congrArg WalletDoc.balance (Option.some.inj (hw.symm.trans hw'))
  case hgive =>
    intro id x t ht hstatus
    rw [TransactionService.markRejected, run_query]
    exact kept_exec_rejected ht hstatus _ _

theorem settles_credit (uuid : ℕ) (dto : InternalMoveDto) (s : Store) :
    Settles userId True s ((InternalWalletService.credit uuid dto).run exec answered s).2 := by
  have hP := bookkept_settles userId True s
  refine hP.movement uuid _ _ (.kept .rfl trivial) ?_
  rcases hw : s.wallets dto.userId with _ | wallet
  · exact .kept (.of_same rfl rfl) trivial
  refine hP.bind_quiet (fun _ => ?_) ?_
  · trivial
  refine (kept_locked userId uuid dto.userId s).settles ?_
  apply settles_recordThenMove
  case hstatus => rfl
  case hamount => exact one_mul _
  case hbefore =>
    exact fun w hw' => congrArg WalletDoc.balance (Option.some.inj (hw.symm.trans hw'))
  case hgive => exact fun _ _ _ _ _ => .rfl

theorem kept_requestWithdrawal (withdrawalHoldHrs uuid : ℕ) (member : MemberContext)
    (dto : WithdrawDto) (s : Store) :
    Kept userId s ((WalletService.requestWithdrawal withdrawalHoldHrs uuid member dto).run exec
      answered s).2 := by
  have hsubmit (wallet : WalletDoc) :
      Kept userId s ((WalletService.requestWithdrawal.submit uuid member dto wallet).run exec
        answered s).2 := by
    rw [WalletService.requestWithdrawal.submit]
    split
    · exact .rfl
    refine (bookkept_kept s).bind_quiet (fun transactionId => ?_) ?_
    · exact Sends.send rfl fun _ => trivial
    refine kept_create _ ?_ s
    intro h
    cases h
  refine run_getWallet _ (fun _ => .rfl) ?_
  intro wallet _
  split
  · rw [run_query]
    split
    · exact .rfl
    · exact hsubmit wallet
  · exact hsubmit wallet

theorem kept_rejectWithdrawal (transactionId : ℕ) (reason cmsUserId : String)
    (member : MemberContext) (s : Store) :
    Kept userId s ((WalletService.rejectWithdrawal transactionId reason cmsUserId member).run exec
      answered s).2 := by
  refine run_findPendingWithdrawal transactionId (fun _ => .rfl) ?_
  intro t ht _ hstatus
  rw [TransactionService.markRejected, run_query]
  exact (kept_exec_rejected ht (by simp [hstatus]) _ _).trans (kept_exec_quiet _ _ rfl)

theorem settles_approveWithdrawal (uuid transactionId : ℕ) (cmsUserId : String)
    (member : MemberContext) (s : Store) :
    Settles userId (¬Late s transactionId userId) s
      ((WalletService.approveWithdrawal uuid transactionId cmsUserId member).run exec
        answered s).2 := by
  have hP := bookkept_settles userId (¬Late s transactionId userId) s
  refine run_findPendingWithdrawal transactionId ?_ ?_
  · intro hno
    exact .kept .rfl fun ⟨t, ht, _, htype, hstatus, _⟩ => hno ⟨t, ht, htype, hstatus⟩
  intro t ht htype hstatus
  have hpending : t.status ≠ .completed := by simp [hstatus]
  have honly {t' : Transaction} (ht' : s.transactions[transactionId]? = some t') : t' = t :=
    Option.some.inj (ht'.symm.trans ht)
  refine hP.withLock uuid _ _ ?_ ?_
  swap
  · intro hheld
    refine .kept .rfl ?_
    rintro ⟨t', ht', rfl, -, -, hfree, -⟩
    exact hheld (honly ht' ▸ hfree)
  intro hfree
  rw [run_query]
  have hreject (x : Store) (hx : x.transactions = s.transactions) (hw : x.wallets = s.wallets)
      (hlate : ¬Late s transactionId userId) : Settles userId (¬Late s transactionId userId) s
      ((TransactionService.markRejected transactionId "Insufficient balance at time of approval"
        cmsUserId >>= fun _ => query (.emit (.withdrawalProcessed member.userId member.email
          member.name t.amount false (some "Insufficient balance at time of approval") t.currency
          transactionId)) >>= fun _ => (raise (.badRequest
            "Insufficient balance. Withdrawal has been automatically rejected.") :
              Call Unit)).run exec answered x).2 := by
    rw [TransactionService.markRejected, run_query, run_query]
    refine .kept (((Kept.of_same hw hx).trans ?_).trans (kept_exec_quiet _ _ rfl)) hlate
    exact kept_exec_rejected (hx ▸ ht) hpending _ _
  rcases hw : s.wallets t.userId with _ | w
  · simp only [exec, hw]
    refine hreject _ rfl rfl ?_
    rintro ⟨t', ht', rfl, -, -, -, w', hw', -⟩
    simp [honly ht', hw] at hw'
  by_cases hc : w.Covers (some t.amount)
  · simp only [exec, hw, if_pos hc, TransactionService.markCompleted]
    rw [run_query]
    have hother : t.userId ≠ userId → ¬Late s transactionId userId := by
      rintro hne ⟨t', ht', hu, -⟩
      exact hne (honly ht' ▸ hu)
    have hbefore : t.userId = userId →
        (¬Late s transactionId userId ↔ t.balanceBefore = w.balance) := by
      rintro rfl
      rw [not_iff_comm]
      constructor
      · exact fun hne => ⟨t, ht, rfl, htype, hstatus, hfree, w, hw, hc, hne⟩
      · rintro ⟨t', ht', -, -, -, -, w', hw', -, hne⟩
        rwa [honly ht', Option.some.inj (hw'.symm.trans hw)] at hne
    have hsettled := settles_completed ht hpending hw false cmsUserId hother hbefore
    rw [htype, show TransactionType.withdrawal.sign * t.amount = -t.amount from neg_one_mul _]
      at hsettled
    refine hP _ _ ?_ ?_ hsettled <;> rfl
  · simp only [exec, hw, if_neg hc]
    refine hreject _ rfl rfl ?_
    rintro ⟨t', ht', rfl, -, -, -, w', hw', hc', -⟩
    obtain rfl := honly ht'
    exact hc (Option.some.inj (hw'.symm.trans hw) ▸ hc')

/-- What an event of a sequential run does for the user. -/
theorem settles_occur (withdrawalHoldHrs : ℕ) (userId : String) {e : Event Request Environment}
    (he : NoAdjustments [e]) (n : ℕ) (s : Store) :
    Settles userId (Timely s userId e) s
      (e.occur backend (Request.serve withdrawalHoldHrs) n s).2 := by
  have hserve {α : Type} {timely : Prop} (p : Call α) (respond : α → Response)
      (h : Settles userId timely s (p.run exec answered s).2) :
      Settles userId timely s
        ((p >>= fun a => pure (respond a)).run exec answered s).2 := by
    refine (bookkept_settles userId timely s).bind_quiet ?_ h
    intro _
    trivial
  cases e with
  | env y => cases y <;> exact .kept (.of_same rfl rfl) trivial
  | call r =>
    cases r with
    | ensureWallet owner => exact hserve _ _ (.kept (kept_exec_ensureWallet owner s) trivial)
    | processStripeDeposit input => exact hserve _ _ (settles_processStripeDeposit n input s)
    | requestWithdrawal member dto =>
      exact hserve _ _ (.kept (kept_requestWithdrawal withdrawalHoldHrs n member dto s) trivial)
    | approveWithdrawal transactionId cmsUserId member =>
      exact hserve _ _ (settles_approveWithdrawal n transactionId cmsUserId member s)
    | rejectWithdrawal transactionId reason cmsUserId member =>
      exact hserve _ _ (.kept (kept_rejectWithdrawal transactionId reason cmsUserId member s)
        trivial)
    | deduct dto => exact hserve _ _ (settles_deduct n dto s)
    | credit dto => exact hserve _ _ (settles_credit n dto s)
    | manualAdjustment targetUserId amount justification cmsUserId =>
      exact absurd List.mem_cons_self (he targetUserId amount justification cmsUserId)

end Services
end StockMarket.Wallet
