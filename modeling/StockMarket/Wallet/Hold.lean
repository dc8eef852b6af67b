import StockMarket.Wallet.Inserts
import StockMarket.Wallet.Withdrawal

/-! # The hold on withdrawals

A withdrawal is held back for some hours after a deposit. The hold is looked at
once, when the withdrawal is requested: what an approval debits was requested
after the hold, whatever has been deposited since.
-/

namespace StockMarket.Wallet
open Interleaving Prog

def holdMs (withdrawalHoldHrs : ℕ) : ℕ := withdrawalHoldHrs * 60 * 60 * 1000

/-- The wallet that a request has read was last deposited into, if ever, at least
the hold before the time that it has read. -/
def HoldPassed (withdrawalHoldHrs : ℕ) (userId : String) (h : History) : Prop :=
  ∃ wallet : WalletDoc, ⟨.findWallet userId, some wallet⟩ ∈ h ∧
    ∀ depositedAt ∈ wallet.lastDepositAt, ∃ requestedAt : Time,
      ⟨.dateNow, requestedAt⟩ ∈ h ∧ depositedAt + holdMs withdrawalHoldHrs ≤ requestedAt

theorem HoldPassed.mono {withdrawalHoldHrs : ℕ} {userId : String} {h h' : History} (hsub : h ⊆ h')
    (hp : HoldPassed withdrawalHoldHrs userId h) : HoldPassed withdrawalHoldHrs userId h' := by
  obtain ⟨wallet, hfind, hpassed⟩ := hp
  refine ⟨wallet, hsub hfind, ?_⟩
  intro depositedAt hd
  obtain ⟨requestedAt, hnow, hle⟩ := hpassed depositedAt hd
  exact ⟨requestedAt, hsub hnow, hle⟩

/-- A withdrawal is only entered by a request of its owner that has seen the hold
pass. -/
def MayEnter (withdrawalHoldHrs : ℕ) (r : Request) (h : History) (op : WalletOp) : Prop :=
  Inserting (fun doc => doc.type = .withdrawal →
    ∃ member dto, r = .requestWithdrawal member dto ∧ doc.userId = member.userId ∧
      HoldPassed withdrawalHoldHrs member.userId h) op

def holdProtocol (withdrawalHoldHrs : ℕ) (requests : ℕ → Request) :
    Protocol ℕ WalletOp WalletOp.Reply Exception Response where
  may i := MayEnter withdrawalHoldHrs (requests i)
  ends _ _ _ := True
  post _ _ _ := True

section Walk
variable {withdrawalHoldHrs uuid : ℕ}

theorem holdRemaining_none {now depositedAt : ℕ}
    (h : WalletService.holdRemaining
      (withdrawalHoldHrs * 60 * 60 * 1000) ((now : ℤ) - depositedAt) = none) :
    depositedAt + holdMs withdrawalHoldHrs ≤ now := by
  unfold WalletService.holdRemaining at h
  split at h
  · cases h
  · rw [holdMs]
    omega

theorem obeys_requestWithdrawal (member : MemberContext) (dto : WithdrawDto) :
    Obeys (MayEnter withdrawalHoldHrs (.requestWithdrawal member dto)) (fun _ _ => True)
      (Returns fun _ _ => True) []
      (WalletService.requestWithdrawal withdrawalHoldHrs uuid member dto) := by
  have hsubmit (h : History) (wallet : WalletDoc)
      (hpassed : HoldPassed withdrawalHoldHrs member.userId h) :
      Obeys (MayEnter withdrawalHoldHrs (.requestWithdrawal member dto)) (fun _ _ => True)
        (Returns fun _ _ => True) h
        (WalletService.requestWithdrawal.submit uuid member dto wallet) := by
    unfold WalletService.requestWithdrawal.submit
    split
    · trivial
    apply Obeys.bindReturns (Q := fun _ _ => True)
    · apply Obeys.send
      · intro doc hdoc _
        cases hdoc
        exact ⟨member, dto, rfl, rfl, hpassed⟩
      · intro reply
        cases reply <;> trivial
    · intro h' id _
      exact Obeys.send (inserting_of_ne (by simp)) fun _ => trivial
  apply Obeys.bindReturns (Q := fun (h : History) (wallet : WalletDoc) =>
    ⟨.findWallet member.userId, some wallet⟩ ∈ h)
  · apply Obeys.send (inserting_of_ne (by simp))
    intro reply
    cases reply with
    | none => trivial
    | some wallet => exact List.mem_cons_self
  · intro h wallet hfind
    split
    · rename_i depositedAt hdeposit
      apply Obeys.send (inserting_of_ne (by simp))
      intro now
      split
      · trivial
      · rename_i hnone
        apply hsubmit
        refine ⟨wallet, List.mem_cons_of_mem _ hfind, ?_⟩
        intro depositedAt' hd
        obtain rfl := Option.some.inj (hdeposit.symm.trans hd)
        exact ⟨now, List.mem_cons_self, holdRemaining_none hnone⟩
    · rename_i hnever
      apply hsubmit
      refine ⟨wallet, hfind, ?_⟩
      intro depositedAt hd
      cases hnever.symm.trans hd

theorem Request.obeys_hold (r : Request) :
    Obeys (MayEnter withdrawalHoldHrs r) (fun _ _ => True) (fun _ _ => True) []
      (r.serve withdrawalHoldHrs uuid) := by
  -- who is no request for a withdrawal inserts no withdrawal
  have hother (hr : ∀ doc, r.Inserts uuid doc → doc.type ≠ .withdrawal) :
      Obeys (MayEnter withdrawalHoldHrs r) (fun _ _ => True) (fun _ _ => True) []
        (r.serve withdrawalHoldHrs uuid) := by
    apply Obeys.of_sends (r.sends_inserts withdrawalHoldHrs uuid)
    intro h op hop doc hdoc htype
    exact absurd htype (hr doc (hop doc hdoc))
  cases r with
  | requestWithdrawal member dto =>
    have hobeys : Obeys (MayEnter withdrawalHoldHrs (.requestWithdrawal member dto))
        (fun _ _ => True) (Returns fun _ _ => True) []
        ((Request.requestWithdrawal member dto).serve withdrawalHoldHrs uuid) :=
      (obeys_requestWithdrawal member dto).bindReturns fun _ _ _ => trivial
    exact hobeys.mono fun _ _ _ => trivial
  | processStripeDeposit input => exact hother fun doc hdoc => by simp [hdoc.1]
  | deduct dto => exact hother fun doc hdoc => by simp [hdoc.1]
  | credit dto => exact hother fun doc hdoc => by simp [hdoc.1]
  | manualAdjustment targetUserId amount justification cmsUserId =>
    exact hother fun doc hdoc => hdoc.1
  | ensureWallet userId => exact hother fun doc hdoc => hdoc.elim
  | approveWithdrawal transactionId cmsUserId member => exact hother fun doc hdoc => hdoc.elim
  | rejectWithdrawal transactionId reason cmsUserId member =>
    exact hother fun doc hdoc => hdoc.elim

end Walk

/-- The call has inserted the record of a withdrawal its member asks for, having
seen the hold pass. -/
structure Requested (withdrawalHoldHrs : ℕ) (requests : ℕ → Request) (log : List LogEntry)
    (transactionId : ℕ) (userId : String) (j : ℕ) : Prop where
  request : ∃ member dto, requests j = .requestWithdrawal member dto ∧ member.userId = userId
  inserted : ∃ doc, ⟨.createTransaction doc, some transactionId⟩ ∈ own j log
  passed : HoldPassed withdrawalHoldHrs userId (own j log)

/-- Every withdrawal from record number `old` on was requested after the hold. -/
def AllRequested (withdrawalHoldHrs : ℕ) (requests : ℕ → Request) (old : ℕ) (s : Store)
    (log : List LogEntry) : Prop :=
  ∀ (id : ℕ) (t : Transaction), old ≤ id → s.transactions[id]? = some t →
    t.type = .withdrawal → ∃ j, Requested withdrawalHoldHrs requests log id t.userId j

section Invariant
variable {withdrawalHoldHrs : ℕ} {requests : ℕ → Request} {s : Store} {log : List LogEntry}

theorem Requested.cons {id : ℕ} {userId : String} {j : ℕ}
    (h : Requested withdrawalHoldHrs requests log id userId j) (e : LogEntry) :
    Requested withdrawalHoldHrs requests (e :: log) id userId j := by
  have hsub : own j log ⊆ own j (e :: log) := fun x hx => own_log_cons e hx
  obtain ⟨doc, hdoc⟩ := h.inserted
  exact ⟨h.request, ⟨doc, hsub hdoc⟩, h.passed.mono hsub⟩

theorem AllRequested.step {old : ℕ} (hI : AllRequested withdrawalHoldHrs requests old s log)
    {i : ℕ} {op : WalletOp} (hmay : MayEnter withdrawalHoldHrs (requests i) (own i log) op) :
    AllRequested withdrawalHoldHrs requests old (exec op s).2
      (⟨i, op, (exec op s).1⟩ :: log) := by
  intro id t hid ht htype
  rcases hold : s.transactions[id]? with _ | t₀
  · obtain ⟨doc, rfl, hfresh, rfl, rfl⟩ := record_exec_new hold ht
    obtain ⟨member, dto, hrequest, howner, hpassed⟩ := hmay doc rfl htype
    refine ⟨i, ⟨member, dto, hrequest, howner.symm⟩, ⟨doc, ?_⟩, ?_⟩
    · simp [exec, if_neg hfresh]
    · rw [own_cons_self]
      exact howner ▸ hpassed.mono (List.subset_cons_self _ _)
  · obtain ⟨t', ht', hsame, -⟩ := record_exec op hold
    obtain rfl := Option.some.inj (ht.symm.trans ht')
    obtain ⟨j, hj⟩ := hI id t₀ hid hold (hsame.type.symm.trans htype)
    rw [hsame.userId]
    exact ⟨j, hj.cons _⟩

theorem now_exec (op : WalletOp) (s : Store) : (exec op s).2.now = s.now := by
  have hchange := change_exec op s
  generalize (exec op s).2 = s' at hchange ⊢
  cases hchange <;> rfl

theorem now_env (x : Environment) (s : Store) : s.now ≤ (backend.env x s).now := by
  cases x with
  | expire key => exact le_rfl
  | tick ms => exact Nat.le_add_right _ _

end Invariant

/-- In the run so far, call `j` has requested the withdrawal for the member. It read
the wallet at some moment of the run, and the hold after the deposit that was the
latest then had passed when it read the clock. -/
structure RequestedAfterHold (withdrawalHoldHrs : ℕ) (requests : ℕ → Request) (start : State)
    (run : Schedule) (transactionId : ℕ) (userId : String) (j : ℕ) : Prop where
  request : ∃ member dto, requests j = .requestWithdrawal member dto ∧ member.userId = userId
  inserted : ∃ doc, ⟨.createTransaction doc, some transactionId⟩ ∈
    own j (start.run backend run).log
  passed : ∃ before o later wallet, run = before ++ .step j o :: later ∧
    (start.run backend before).Sending j (.findWallet userId) ∧
    (start.run backend before).store.wallets userId = some wallet ∧
    ∀ depositedAt ∈ wallet.lastDepositAt, ∃ requestedAt : Time,
      ⟨.dateNow, requestedAt⟩ ∈ own j (start.run backend run).log ∧
      depositedAt + holdMs withdrawalHoldHrs ≤ requestedAt ∧
      requestedAt ≤ (start.run backend run).store.now

section Run
variable {withdrawalHoldHrs : ℕ} {store : Store} {requests : ℕ → Request} {run : Schedule}

theorem Requested.afterHold {id : ℕ} {userId : String} {j : ℕ}
    (h : Requested withdrawalHoldHrs requests
      ((State.start withdrawalHoldHrs store requests).run backend run).log id userId j) :
    RequestedAfterHold withdrawalHoldHrs requests (State.start withdrawalHoldHrs store requests)
      run id userId j := by
  obtain ⟨wallet, hfind, hpassed⟩ := h.passed
  refine ⟨h.request, h.inserted, ?_⟩
  rcases Config.mem_log_run backend (mem_own.mp hfind) with hnil | hread
  · cases hnil
  obtain ⟨before, o, later, rfl, -, hsending, hwallet⟩ := hread
  refine ⟨before, o, later, wallet, rfl, hsending, hwallet.symm, ?_⟩
  intro depositedAt hd
  obtain ⟨requestedAt, hnow, hle⟩ := hpassed depositedAt hd
  refine ⟨requestedAt, hnow, hle, ?_⟩
  rcases Config.mem_log_run backend (mem_own.mp hnow) with hnil | hclock
  · cases hnil
  obtain ⟨first, o', rest, hsplit, -, -, rfl⟩ := hclock
  rw [hsplit, Config.run_append]
  exact Config.run_le backend (f := Store.now) (fun op x => (now_exec op x).ge)
    (fun y x => now_env y x) _ _

/-- What was found of a record in a run is stored, and a withdrawal among the
records of the run was requested in it. -/
theorem requested_of_found (withdrawalHoldHrs : ℕ) (store : Store) (requests : ℕ → Request)
    (run : Schedule) {t i : ℕ} {transaction : Transaction} (ht : store.transactions.length ≤ t)
    (hfound : Found (own i ((State.start withdrawalHoldHrs store requests).run backend run).log) t
      transaction) (htype : transaction.type = .withdrawal) :
    ∃ j, RequestedAfterHold withdrawalHoldHrs requests
      (State.start withdrawalHoldHrs store requests) run t transaction.userId j := by
  have hstored : FoundStored ((State.start withdrawalHoldHrs store requests).run backend run).store
      ((State.start withdrawalHoldHrs store requests).run backend run).log := by
    refine (Config.run_invariant (I := FoundStored) (fits_of_unreliable unrestricted requests)
      (fun x l i op o hI _ _ => hI.step i op) (fun x l y hI _ => ?_)
      (State.conforms_start False withdrawalHoldHrs store requests) ?_ run
      (along_unrestricted _ _)).2
    · cases y <;> exact hI
    · intro i id x hf
      exact absurd hf List.not_mem_nil
  have hall : AllRequested withdrawalHoldHrs requests store.transactions.length
      ((State.start withdrawalHoldHrs store requests).run backend run).store
      ((State.start withdrawalHoldHrs store requests).run backend run).log := by
    have hfits : unrestricted.Fits (holdProtocol withdrawalHoldHrs requests) :=
      fun _ _ _ _ _ _ => trivial
    have hconforms : (State.start withdrawalHoldHrs store requests).Conforms
        (holdProtocol withdrawalHoldHrs requests) :=
      Config.conforms_start fun i => (requests i).obeys_hold
    refine (Config.run_invariant
      (I := AllRequested withdrawalHoldHrs requests store.transactions.length) hfits
      (fun x l i op o hI hmay _ => hI.step hmay) (fun x l y hI _ => ?_) hconforms ?_ run
      (along_unrestricted _ _)).2
    · cases y <;> exact hI
    · intro id t hid ht
      exact absurd (List.getElem?_eq_some_iff.mp ht).1 (Nat.not_lt.mpr hid)
  obtain ⟨t', ht', hsame⟩ := hstored i t transaction hfound
  obtain ⟨j, hj⟩ := hall t t' ht ht' (hsame.type.trans htype)
  rw [hsame.userId] at hj
  exact ⟨j, hj.afterHold⟩

/-- Every debit that an approval makes is of a withdrawal that was requested once the
hold had passed. -/
theorem debit_after_hold (withdrawalHoldHrs : ℕ) (store : Store) (requests : ℕ → Request)
    (run : Schedule) {t i : ℕ} {op : WalletOp} (ht : store.transactions.length ≤ t)
    (hsending : ((State.start withdrawalHoldHrs store requests).run backend run).Sending i op)
    (hdebit : debits requests t ⟨i, op, (exec op ((State.start withdrawalHoldHrs store
      requests).run backend run).store).1⟩ = true) :
    ∃ userId amount j, op = .incBalance userId (some amount) (-amount) false ∧
      RequestedAfterHold withdrawalHoldHrs requests
        (State.start withdrawalHoldHrs store requests) run t userId j := by
  have hconforms : ((State.start withdrawalHoldHrs store requests).run backend run).Conforms
      (protocol False requests) :=
    (Config.run_invariant (I := fun _ _ => True) (fits_of_unreliable unrestricted requests)
      (fun _ _ _ _ _ _ _ _ => trivial) (fun _ _ _ _ _ => trivial)
      (State.conforms_start False withdrawalHoldHrs store requests) trivial run
      (along_unrestricted _ _)).1
  obtain ⟨hmoves, happroves⟩ := debits_iff.mp hdebit
  obtain ⟨next, failed, hcall⟩ := hsending
  obtain ⟨hmay, -⟩ := hconforms i _ hcall
  obtain ⟨-, transaction, hfound, htype, hop, -⟩ := Request.May.debit hmay hmoves happroves
  obtain ⟨j, hj⟩ := requested_of_found withdrawalHoldHrs store requests run ht hfound htype
  exact ⟨transaction.userId, transaction.amount, j, hop, hj⟩

end Run
section Example

/-- Two days after the last deposit into a wallet of 100. -/
def twoDaysAfter : Store where
  wallets := Function.update (fun _ => none) "member" (some ⟨"member", 100, "USD", some 0⟩)
  transactions := []
  locks := fun _ => none
  now := 2 * 24 * 60 * 60 * 1000
  outbox := []

/-- A withdrawal of 40 is requested, 50 are deposited, and the withdrawal approved. -/
def withdrawDepositApprove : ℕ → Request
  | 0 => .requestWithdrawal ⟨"member", "member@mail", "Member"⟩ ⟨40, by decide⟩
  | 1 => .processStripeDeposit ⟨"member", 50, "USD", "deposit:member:1", "session", none,
      by decide⟩
  | _ => .approveWithdrawal 0 "cms" ⟨"member", "member@mail", "Member"⟩

def requestedApproved : Schedule :=
  List.replicate 4 (.step 0 .done) ++ List.replicate 2 (.step 2 .done)

theorem debit_after_hold_forty :
    ∃ userId amount j, WalletOp.incBalance "member" (some 40) (-40) false =
        .incBalance userId (some amount) (-amount) false ∧
      RequestedAfterHold 48 withdrawDepositApprove
        (State.start 48 twoDaysAfter withdrawDepositApprove) requestedApproved 0 userId j :=
  debit_after_hold 48 twoDaysAfter withdrawDepositApprove requestedApproved (t := 0) (i := 2)
    (by decide) (by decide +kernel) (by decide +kernel)

/-- The same with the deposit in between. -/
def requestedDepositedApproved : Schedule :=
  List.replicate 4 (.step 0 .done) ++ List.replicate 8 (.step 1 .done) ++
    List.replicate 2 (.step 2 .done)

/-- The debit is made at the very time of the latest deposit. -/
theorem debit_within_hold :
    let c := (State.start 48 twoDaysAfter withdrawDepositApprove).run backend
      requestedDepositedApproved
    let op := WalletOp.incBalance "member" (some 40) (-40) false
    c.Sending 2 op ∧ debits withdrawDepositApprove 0 ⟨2, op, (exec op c.store).1⟩ = true ∧
      (c.store.wallets "member").bind WalletDoc.lastDepositAt = some c.store.now ∧
      c.store.now < c.store.now + holdMs 48 := by
  decide +kernel

end Example
end StockMarket.Wallet
