import StockMarket.Wallet.Log

/-! # Deciding a withdrawal

Both decisions read the record before they act on it, and neither reads it
again: the lock of the wallet orders the debits, but not the reads. What the
lock does give is that a debit whose record is still PENDING belongs to the
owner of the lock.
-/

namespace StockMarket.Wallet
open Interleaving Prog

section Debits
variable {requests : ℕ → Request} {t : ℕ}

/-- The entry is a balance change made by an approval of the withdrawal. -/
def debits (requests : ℕ → Request) (t : ℕ) (e : LogEntry) : Bool :=
  moves e.reaction && decide ((requests e.caller).approval = some t)

theorem debits_iff {e : LogEntry} :
    debits requests t e = true ↔
      moves e.reaction = true ∧ (requests e.caller).approval = some t := by
  simp [debits]

/-- How often the withdrawal was debited. -/
def timesDebited (requests : ℕ → Request) (t : ℕ) (log : List LogEntry) : ℕ :=
  log.countP (debits requests t)

/-- An approval changes a balance in one way: it takes the amount it found
under the lock of the owner. -/
theorem Request.May.debit {reliable : Prop} {uuid : ℕ} {r : Request} {h : History} {op : WalletOp}
    {x : op.Reply} (hmay : r.May reliable uuid h op) (hmoves : moves ⟨op, x⟩ = true)
    (ht : r.approval = some t) :
    ¬Tried h ∧ ∃ transaction, Found h t transaction ∧ transaction.type = .withdrawal ∧
      op = .incBalance transaction.userId (some transaction.amount) (-transaction.amount) false ∧
      Holds uuid (walletLock transaction.userId) h := by
  obtain ⟨hmov, -, hadj⟩ := Request.only_approval ht
  cases op with
  | incBalance userId gte amount isDeposit =>
    obtain ⟨htried, ⟨m, hm, -⟩ |
      ⟨t', transaction, ht', hf, htype, -, rfl, rfl, rfl, rfl, hh⟩⟩ := hmay
    · simp [hmov] at hm
    · cases ht.symm.trans ht'
      exact ⟨htried, transaction, hf, htype, rfl, hh⟩
  | setBalance userId balance =>
    obtain ⟨-, _, _, ha, -⟩ := hmay
    simp [hadj] at ha
  | _ => simp [moves] at hmoves

/-- Every store call is answered and no lock expires. -/
def undisturbed : Assumption ℕ WalletOp WalletOp.Reply Store Environment Exception where
  call _ _ _ _ o := o = .done
  env x := x.isTick

instance (s : Store) (log : List LogEntry) (i : ℕ) (op : WalletOp) (o : Outcome Exception) :
    Decidable (undisturbed.call s log i op o) :=
  inferInstanceAs (Decidable (o = .done))

instance (x : Environment) : Decidable (undisturbed.env x) :=
  inferInstanceAs (Decidable (x.isTick = true))

/-- Locks do not expire, no debit is carried out unanswered, its record is
completed, and an approval only debits while the record is still PENDING. -/
def debitsPending (requests : ℕ → Request) :
    Assumption ℕ WalletOp WalletOp.Reply Store Environment Exception where
  call s _ i op o := (requests i).EndsWell op o ∧
    ∀ t ∈ (requests i).approval, op.isIncBalance → s.status t = some .pending
  env x := x.isTick

instance (requests : ℕ → Request) (s : Store) (log : List LogEntry) (i : ℕ) (op : WalletOp)
    (o : Outcome Exception) : Decidable ((debitsPending requests).call s log i op o) :=
  inferInstanceAs (Decidable (_ ∧ ∀ t ∈ (requests i).approval, _ → _))

instance (requests : ℕ → Request) (x : Environment) :
    Decidable ((debitsPending requests).env x) :=
  inferInstanceAs (Decidable (x.isTick = true))

/-- The debits of one withdrawal: at most one, and while the record is PENDING
its author still has the lock of the wallet. -/
structure DebitInvariant (requests : ℕ → Request) (t : ℕ) (s : Store) (log : List LogEntry) :
    Prop where
  found : FoundStored s log
  locks : LocksHeld s log
  settled : ∀ i, (requests i).approval = some t → Completed (own i log) t →
    ∃ transaction : Transaction, s.transactions[t]? = some transaction ∧
      transaction.status ≠ .pending
  held : ∀ e ∈ log, debits requests t e = true →
    ∃ transaction : Transaction, s.transactions[t]? = some transaction ∧
      (transaction.status = .pending → s.locks (walletLock transaction.userId) = some e.caller)
  once : timesDebited requests t log ≤ 1

variable {s : Store} {log : List LogEntry} {i : ℕ} {op : WalletOp}

theorem record_exec_settled (op : WalletOp) {transaction : Transaction}
    (ht : s.transactions[t]? = some transaction) (hst : transaction.status ≠ .pending) :
    ∃ t', (exec op s).2.transactions[t]? = some t' ∧ t'.status ≠ .pending := by
  obtain ⟨t', ht', -, hstatus⟩ := record_exec op ht
  refine ⟨t', ht', ?_⟩
  rcases hstatus with h | ⟨set, -, h⟩ <;> rw [h]
  · exact hst
  · exact set.status_ne_pending

theorem DebitInvariant.step_settled (hI : DebitInvariant requests t s log)
    (hmay : (requests i).May True i (own i log) op) {j : ℕ} (hj : (requests j).approval = some t)
    (hc : Completed (own j (⟨i, op, (exec op s).1⟩ :: log)) t) :
    ∃ transaction : Transaction, (exec op s).2.transactions[t]? = some transaction ∧
      transaction.status ≠ .pending := by
  obtain ⟨balanceAfter, cmsUserId, hmem⟩ := hc
  rcases mem_own_exec hmem with ⟨rfl, rfl, -⟩ | hold
  · -- the completion is being carried out: its author has found the record
    rcases hmay with ⟨m, hm, -⟩ | ⟨-, -, -, transaction, hf, -⟩ | ⟨hr, -⟩
    · simp [(Request.only_approval hj).1] at hm
    · obtain ⟨t₀, ht₀, -⟩ := hI.found i t transaction hf
      refine ⟨(TransactionUpdate.completed balanceAfter cmsUserId).apply s.now t₀, ?_, ?_⟩
      · simp [exec, ht₀]
      · rw [TransactionUpdate.status_apply]
        exact TransactionUpdate.status_ne_pending _
    · simp [(Request.only_approval hj).2.1] at hr
  · obtain ⟨transaction, ht, hst⟩ := hI.settled j hj ⟨_, _, hold⟩
    exact record_exec_settled op ht hst

/-- While the record is PENDING, nobody takes the lock from the debit's author,
and the author keeps it. -/
theorem DebitInvariant.step_lock (hI : DebitInvariant requests t s log)
    (hmay : (requests i).May True i (own i log) op) {e : LogEntry} (he : e ∈ log)
    (hd : debits requests t e = true) {transaction : Transaction}
    (ht : s.transactions[t]? = some transaction) (hst : transaction.status = .pending) :
    (exec op s).2.locks (walletLock transaction.userId) = some e.caller := by
  obtain ⟨hmoves, happ⟩ := debits_iff.mp hd
  have hlock : s.locks (walletLock transaction.userId) = some e.caller := by
    obtain ⟨transaction', ht', hheld⟩ := hI.held e he hd
    cases ht.symm.trans ht'
    exact hheld hst
  rcases locks_exec op s with h | ⟨key, token, rfl, hfree, h⟩ | ⟨key, token, rfl, hown, h⟩ <;>
    rw [h]
  · exact hlock
  · rw [Function.update_of_ne (fun hk => by simp [hk, hfree] at hlock), hlock]
  · obtain ⟨rfl, hrelease⟩ := hmay
    rw [Function.update_of_ne (fun hk => ?_), hlock]
    -- the author itself would release, having completed the record before
    obtain rfl : e.caller = token := Option.some.inj (hlock.symm.trans (hk ▸ hown))
    have hmoved : Moved (own e.caller log) := ⟨e.reaction, mem_own.mpr he, hmoves⟩
    obtain ⟨transaction', ht', hsettled⟩ :=
      hI.settled _ happ (hrelease trivial t happ hmoved)
    cases ht.symm.trans ht'
    exact hsettled hst

/-- The author of a debit has the lock of the wallet when it debits. -/
theorem DebitInvariant.debit_holds (hI : DebitInvariant requests t s log)
    (hmay : (requests i).May True i (own i log) op)
    (hd : debits requests t ⟨i, op, (exec op s).1⟩ = true) :
    ¬Tried (own i log) ∧ op.isIncBalance ∧ ∃ transaction : Transaction,
      s.transactions[t]? = some transaction ∧
        s.locks (walletLock transaction.userId) = some i := by
  obtain ⟨hmoves, happ⟩ := debits_iff.mp hd
  obtain ⟨htried, transaction, hf, -, rfl, hh⟩ := hmay.debit hmoves happ
  obtain ⟨t', ht', hsame⟩ := hI.found i t transaction hf
  exact ⟨htried, rfl, t', ht', by rw [hsame.userId]; exact hI.locks i _ hh⟩

/-- Before a debit of a PENDING record there has been none. -/
theorem DebitInvariant.no_debit_before (hI : DebitInvariant requests t s log)
    {transaction : Transaction} (ht : s.transactions[t]? = some transaction)
    (hst : transaction.status = .pending)
    (hlock : s.locks (walletLock transaction.userId) = some i) (hmoved : ¬Moved (own i log)) :
    ∀ e ∈ log, ¬debits requests t e = true := by
  intro e he hd
  obtain ⟨transaction', ht', hheld⟩ := hI.held e he hd
  cases ht.symm.trans ht'
  obtain rfl : e.caller = i := Option.some.inj ((hheld hst).symm.trans hlock)
  exact hmoved ⟨e.reaction, mem_own.mpr he, (debits_iff.mp hd).1⟩

theorem DebitInvariant.step (hI : DebitInvariant requests t s log) {o : Outcome Exception}
    (hmay : (requests i).May True i (own i log) op)
    (hcond : (debitsPending requests).call s log i op o) :
    DebitInvariant requests t (exec op s).2 (⟨i, op, (exec op s).1⟩ :: log) := by
  refine ⟨hI.found.step i op, hI.locks.step hmay, fun j hj hc => hI.step_settled hmay hj hc, ?_, ?_⟩
  · intro e he hd
    rcases List.mem_cons.mp he with rfl | he
    · obtain ⟨-, hinc, transaction, ht, hlock⟩ := hI.debit_holds hmay hd
      obtain ⟨t', ht', hsame, hstatus⟩ := record_exec op ht
      refine ⟨t', ht', ?_⟩
      intro _
      rw [hsame.userId]
      rcases locks_exec op s with h | ⟨_, _, rfl, -⟩ | ⟨_, _, rfl, -⟩
      · rw [h, hlock]
      · cases hinc
      · cases hinc
    · obtain ⟨transaction, ht, -⟩ := hI.held e he hd
      obtain ⟨t', ht', hsame, hstatus⟩ := record_exec op ht
      refine ⟨t', ht', ?_⟩
      intro hst
      rw [hsame.userId]
      rcases hstatus with h | ⟨set, -, h⟩ <;> rw [h] at hst
      · exact hI.step_lock hmay he hd ht hst
      · exact absurd hst set.status_ne_pending
  · rw [timesDebited, List.countP_cons]
    split
    · rename_i hd
      obtain ⟨htried, hinc, transaction, ht, hlock⟩ := hI.debit_holds hmay hd
      have hst : transaction.status = .pending := by
        have h := hcond.2 t (debits_iff.mp hd).2 hinc
        simpa [Store.status, ht] using h
      have hnone : log.countP (debits requests t) = 0 := List.countP_eq_zero.mpr
        (hI.no_debit_before ht hst hlock fun hm => htried hm.tried)
      omega
    · exact hI.once

theorem DebitInvariant.start (requests : ℕ → Request) (t : ℕ) (s : Store) :
    DebitInvariant requests t s [] := by
  refine ⟨?_, fun i key hh => hh.elim, ?_, ?_, ?_⟩
  · intro i id x hf
    simp [Found] at hf
  · intro i _ hc
    simp [Completed] at hc
  · intro e he
    cases he
  · simp [timesDebited]

theorem DebitInvariant.tick (hI : DebitInvariant requests t s log) {x : Environment}
    (hx : x.isTick) : DebitInvariant requests t (backend.env x s) log := by
  cases x with
  | expire key => cases hx
  | tick ms => exact ⟨hI.found, hI.locks, hI.settled, hI.held, hI.once⟩

/-- While approvals only debit what is still PENDING, a withdrawal is debited
at most once. -/
theorem timesDebited_le_one (withdrawalHoldHrs : ℕ) (store : Store) (requests : ℕ → Request)
    (sched : Schedule) (t : ℕ)
    (hs : (debitsPending requests).Along backend
      (State.start withdrawalHoldHrs store requests) sched) :
    timesDebited requests t
      ((State.start withdrawalHoldHrs store requests).run backend sched).log ≤ 1 :=
  (Config.run_invariant (P := protocol True requests) (I := DebitInvariant requests t)
    (fun _ _ _ _ _ h _ => And.left h) (fun _ _ _ _ _ hI hmay hcond => hI.step hmay hcond)
    (fun _ _ _ hI hx => hI.tick hx) (State.conforms_start True withdrawalHoldHrs store requests)
    (.start requests t store) sched hs).2.once

/-- A wallet of 100 with one PENDING withdrawal of 40. -/
def pendingForty : Store where
  wallets := Function.update (fun _ => none) "member" (some ⟨"member", 100, "USD", none⟩)
  transactions := [
    { userId := "member"
      type := .withdrawal
      status := .pending
      amount := 40
      balanceBefore := 100
      balanceAfter := none
      currency := "USD"
      idempotencyKey := "withdrawal:member:1"
      stripePaymentIntentId := none
      stripeSessionId := none
      adjustmentNote := none
      processedByCmsUserId := none
      rejectionReason := none
      processedAt := none
      createdAt := 0 }]
  locks := fun _ => none
  now := 0
  outbox := []

/-- Two agents approve the same withdrawal. -/
def approvedTwice (_ : ℕ) : Request :=
  .approveWithdrawal 0 "cms" ⟨"member", "member@mail", "Member"⟩

theorem timesDebited_le_one_sequential :
    timesDebited approvedTwice 0 ((State.start 24 pendingForty approvedTwice).run backend
      (List.replicate 6 (.step 0 .done) ++ [.step 1 .done])).log ≤ 1 :=
  timesDebited_le_one 24 pendingForty approvedTwice _ 0 (by decide +kernel)

/-- Both agents read PENDING before the first takes the lock. -/
def bothReadFirst : Schedule :=
  [.step 0 .done, .step 1 .done] ++ List.replicate 5 (.step 0 .done) ++
    List.replicate 5 (.step 1 .done)

/-- Both approvals then succeed, and 40 is taken twice. -/
theorem withdrawal_debited_twice :
    let c := (State.start 24 pendingForty approvedTwice).run backend bothReadFirst
    undisturbed.Along backend (State.start 24 pendingForty approvedTwice) bothReadFirst ∧
      c.result 0 = some (.ok .done) ∧ c.result 1 = some (.ok .done) ∧
      timesDebited approvedTwice 0 c.log = 2 ∧ c.store.balance "member" = 20 := by
  decide +kernel

end Debits

end StockMarket.Wallet
