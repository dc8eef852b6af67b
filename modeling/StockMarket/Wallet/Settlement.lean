import StockMarket.Wallet.Withdrawal

/-! # The status of a withdrawal and its money

`markCompleted` and `markRejected` overwrite whatever they find. Where every
decision still acts on a PENDING and undebited record, the status agrees with
the debits and is final.
-/

namespace StockMarket.Wallet
open Interleaving Prog

/-- The requests that make and decide withdrawals. -/
def Request.isWithdrawal : Request → Bool
  | .requestWithdrawal _ _ => true
  | .approveWithdrawal _ _ _ => true
  | .rejectWithdrawal _ _ _ _ => true
  | _ => false

theorem Request.others_of_isWithdrawal {r : Request} (hr : r.isWithdrawal) :
    r.movement = none ∧ r.adjustment = none := by
  cases r <;> simp_all [isWithdrawal, movement, adjustment]

section Settlement
variable {requests : ℕ → Request} {t : ℕ}

/-- Nothing disturbs the calls, an approval only debits while the record is
PENDING, and a rejection only updates it while it is PENDING and undebited. -/
def decidesPending (requests : ℕ → Request) :
    Assumption ℕ WalletOp WalletOp.Reply Store Environment Exception where
  call s log i op o := o = .done ∧
    (∀ t ∈ (requests i).approval, op.isIncBalance → s.status t = some .pending) ∧
    ∀ t ∈ (requests i).rejection, op.isUpdate →
      s.status t = some .pending ∧ ∀ e ∈ log, ¬debits requests t e = true
  env x := x.isTick

instance (requests : ℕ → Request) (s : Store) (log : List LogEntry) (i : ℕ) (op : WalletOp)
    (o : Outcome Exception) : Decidable ((decidesPending requests).call s log i op o) :=
  inferInstanceAs (Decidable (_ ∧ (∀ t ∈ (requests i).approval, _ → _) ∧
    ∀ t ∈ (requests i).rejection, _ → _ ∧ ∀ e ∈ log, _))

instance (requests : ℕ → Request) (x : Environment) :
    Decidable ((decidesPending requests).env x) :=
  inferInstanceAs (Decidable (x.isTick = true))

theorem debitsPending_of_decidesPending {s : Store} {log : List LogEntry} {i : ℕ} {op : WalletOp}
    {o : Outcome Exception} (h : (decidesPending requests).call s log i op o) :
    (debitsPending requests).call s log i op o :=
  ⟨fun _ => ⟨fun _ => by rw [h.1]; rfl, fun _ _ => h.1⟩, h.2.1⟩

/-- The status of the record agrees with the debits. An approval that was
refused the debit knows, as long as it has the lock, that there is none. -/
structure SettledInvariant (requests : ℕ → Request) (t : ℕ) (s : Store) (log : List LogEntry) :
    Prop extends DebitInvariant requests t s log where
  completed : s.status t = some .completed → ∃ e ∈ log, debits requests t e = true
  rejected : s.status t = some .rejected → ∀ e ∈ log, ¬debits requests t e = true
  refused : ∀ (i : ℕ) (transaction : Transaction), (requests i).approval = some t →
    s.transactions[t]? = some transaction → Tried (own i log) → ¬Moved (own i log) →
    Holds i (walletLock transaction.userId) (own i log) → ∀ e ∈ log, ¬debits requests t e = true

variable {s : Store} {log : List LogEntry} {i : ℕ} {op : WalletOp} {o : Outcome Exception}

/-- What may happen to the status: a new record is PENDING, and an update
comes from an approval that has its answer or from a rejection. -/
theorem status_step (hpool : ∀ i, (requests i).isWithdrawal)
    (hmay : (requests i).May True i (own i log) op) {st : TransactionStatus}
    (hst : (exec op s).2.status t = some st) :
    (s.status t = none ∧ st = .pending) ∨ s.status t = some st ∨
    ∃ set, op = .updateTransaction t set ∧ st = set.status ∧
      (((requests i).approval = some t ∧ Tried (own i log) ∧ (st = .completed ↔ Moved (own i log)) ∧
        ∃ transaction, Found (own i log) t transaction ∧
          Holds i (walletLock transaction.userId) (own i log)) ∨
      ((requests i).rejection = some t ∧ st = .rejected)) := by
  obtain ⟨hmov, hadj⟩ := Request.others_of_isWithdrawal (hpool i)
  obtain ⟨t', ht', rfl⟩ := Option.map_eq_some_iff.mp hst
  rcases hold : s.transactions[t]? with _ | t₀
  · obtain ⟨doc, rfl, -, -, rfl⟩ := record_exec_new hold ht'
    exact .inl ⟨by simp [Store.status, hold], hmay.1 hadj⟩
  · obtain ⟨t'', ht'', -, hstatus⟩ := record_exec op hold
    cases ht'.symm.trans ht''
    rcases hstatus with h | ⟨set, rfl, h⟩
    · exact .inr (.inl (by simp [Store.status, hold, h]))
    · refine .inr (.inr ⟨set, rfl, h, ?_⟩)
      rcases hmay with ⟨m, hm, -⟩ | ⟨ha, htried, hiff, hh⟩ | ⟨hr, hset, -⟩
      · simp [hmov] at hm
      · exact .inl ⟨ha, htried, h ▸ hiff, hh⟩
      · exact .inr ⟨hr, h.trans hset⟩

/-- An approval that marks the record REJECTED knows that there is no debit. -/
theorem SettledInvariant.no_debit_of_refused (hI : SettledInvariant requests t s log)
    (happ : (requests i).approval = some t) (htried : Tried (own i log))
    (hmoved : ¬Moved (own i log)) {transaction : Transaction} (hf : Found (own i log) t transaction)
    (hh : Holds i (walletLock transaction.userId) (own i log)) :
    ∀ e ∈ log, ¬debits requests t e = true := by
  obtain ⟨t', ht', hsame⟩ := hI.found i t transaction hf
  exact hI.refused i t' happ ht' htried hmoved (by rw [hsame.userId]; exact hh)

theorem SettledInvariant.step_completed (hpool : ∀ i, (requests i).isWithdrawal)
    (hI : SettledInvariant requests t s log) (hmay : (requests i).May True i (own i log) op)
    (hst : (exec op s).2.status t = some .completed) :
    ∃ e ∈ log, debits requests t e = true := by
  rcases status_step hpool hmay hst with ⟨-, h⟩ | h | ⟨set, rfl, -, ⟨happ, -, hiff, -⟩ | ⟨-, h⟩⟩
  · cases h
  · exact hI.completed h
  · obtain ⟨x, hx, hmoves⟩ := hiff.mp rfl
    exact ⟨⟨i, x⟩, mem_own.mp hx, debits_iff.mpr ⟨hmoves, happ⟩⟩
  · cases h

theorem SettledInvariant.step_rejected (hpool : ∀ i, (requests i).isWithdrawal)
    (hI : SettledInvariant requests t s log) (hmay : (requests i).May True i (own i log) op)
    (hcond : (decidesPending requests).call s log i op o)
    (hst : (exec op s).2.status t = some .rejected) :
    ∀ e ∈ (⟨i, op, (exec op s).1⟩ :: log : List LogEntry), ¬debits requests t e = true := by
  have hnew (h : s.status t ≠ some .pending ∨ op.isIncBalance = false) :
      ¬debits requests t ⟨i, op, (exec op s).1⟩ = true := by
    intro hd
    obtain ⟨-, hinc, -⟩ := hI.debit_holds hmay hd
    rcases h with h | h
    · exact h (hcond.2.1 t (debits_iff.mp hd).2 hinc)
    · simp [h] at hinc
  rw [List.forall_mem_cons]
  rcases status_step hpool hmay hst with ⟨-, h⟩ | h |
    ⟨set, rfl, -, ⟨happ, htried, hiff, transaction, hf, hh⟩ | ⟨hr, -⟩⟩
  · cases h
  · exact ⟨hnew (.inl (by simp [h])), hI.rejected h⟩
  · have hmoved : ¬Moved (own i log) := fun h => by cases hiff.mpr h
    exact ⟨hnew (.inr rfl), hI.no_debit_of_refused happ htried hmoved hf hh⟩
  · exact ⟨hnew (.inr rfl), (hcond.2.2 t hr rfl).2⟩

theorem SettledInvariant.step_refused (hpool : ∀ i, (requests i).isWithdrawal)
    (hI : SettledInvariant requests t s log) (hmay : (requests i).May True i (own i log) op)
    (hcond : (decidesPending requests).call s log i op o) {j : ℕ} {transaction : Transaction}
    (happ : (requests j).approval = some t)
    (ht : (exec op s).2.transactions[t]? = some transaction)
    (htried : Tried (own j (⟨i, op, (exec op s).1⟩ :: log)))
    (hmoved : ¬Moved (own j (⟨i, op, (exec op s).1⟩ :: log)))
    (hh : Holds j (walletLock transaction.userId) (own j (⟨i, op, (exec op s).1⟩ :: log))) :
    ∀ e ∈ (⟨i, op, (exec op s).1⟩ :: log : List LogEntry), ¬debits requests t e = true := by
  have huser {t₀ : Transaction} (ht₀ : s.transactions[t]? = some t₀) :
      transaction.userId = t₀.userId := by
    obtain ⟨t', ht', hsame, -⟩ := record_exec op ht₀
    cases ht.symm.trans ht'
    exact hsame.userId
  refine List.forall_mem_cons.mpr ⟨fun hd => ?_, fun e he hd => ?_⟩
  · obtain ⟨-, -, t₀, ht₀, hlock⟩ := hI.debit_holds hmay hd
    by_cases hij : i = j
    · subst hij
      rw [own_cons_self] at hmoved
      exact hmoved (moved_cons.mpr (.inl (debits_iff.mp hd).1))
    · rw [own_cons_ne hij] at hh
      rw [huser ht₀] at hh
      exact hij (Option.some.inj (hlock.symm.trans (hI.locks j _ hh)))
  · obtain ⟨t₀, ht₀, -⟩ := hI.held e he hd
    rw [huser ht₀] at hh
    by_cases hij : i = j
    · subst hij
      rw [own_cons_self] at htried hmoved hh
      have hmoved' : ¬Moved (own i log) := fun h => hmoved (moved_cons.mpr (.inr h))
      rcases tried_cons.mp htried with htry | htried'
      · -- the debit is being refused: under the lock, the record is still PENDING
        cases op with
        | incBalance userId gte amount isDeposit =>
          have hst : t₀.status = .pending := by
            have h := hcond.2.1 t happ rfl
            simpa [Store.status, ht₀] using h
          have hlock := hI.locks i _ ((holds_cons_of_ne (by simp)).mp hh)
          exact hI.no_debit_before ht₀ hst hlock hmoved' e he hd
        | setBalance userId balance =>
          obtain ⟨-, _, _, ha, -⟩ := hmay
          simp [(Request.others_of_isWithdrawal (hpool i)).2] at ha
        | _ => simp [tries] at htry
      · rcases hh.of_cons with hh | ⟨lock, token, rfl⟩
        · exact hI.refused i t₀ happ ht₀ htried' hmoved' hh e he hd
        · exact hmay.2 htried'
    · rw [own_cons_ne hij] at htried hmoved hh
      exact hI.refused j t₀ happ ht₀ htried hmoved hh e he hd

theorem SettledInvariant.step (hpool : ∀ i, (requests i).isWithdrawal)
    (hI : SettledInvariant requests t s log) (hmay : (requests i).May True i (own i log) op)
    (hcond : (decidesPending requests).call s log i op o) :
    SettledInvariant requests t (exec op s).2 (⟨i, op, (exec op s).1⟩ :: log) where
  toDebitInvariant := hI.toDebitInvariant.step hmay (debitsPending_of_decidesPending hcond)
  completed hst := by
    obtain ⟨e, he, hd⟩ := hI.step_completed hpool hmay hst
    exact ⟨e, List.mem_cons_of_mem _ he, hd⟩
  rejected := hI.step_rejected hpool hmay hcond
  refused _ _ := hI.step_refused hpool hmay hcond

/-- A settled record keeps its status. -/
theorem SettledInvariant.status_final (hpool : ∀ i, (requests i).isWithdrawal)
    (hI : SettledInvariant requests t s log) (hmay : (requests i).May True i (own i log) op)
    (hcond : (decidesPending requests).call s log i op o) {st : TransactionStatus}
    (hst : s.status t = some st) (hsettled : st ≠ .pending) : (exec op s).2.status t = some st := by
  obtain ⟨t₀, ht₀, rfl⟩ := Option.map_eq_some_iff.mp hst
  obtain ⟨t', ht', -⟩ := record_exec op ht₀
  have hnew : (exec op s).2.status t = some t'.status := by simp [Store.status, ht']
  rw [hnew]
  rcases status_step hpool hmay hnew with ⟨h, -⟩ | h |
    ⟨set, rfl, hset, ⟨happ, htried, hiff, transaction, hf, hh⟩ | ⟨hr, -⟩⟩
  · simp [hst] at h
  · rw [← h, hst]
  · -- an approval overwrites a settled status with itself
    cases hs : t₀.status with
    | pending => exact absurd hs hsettled
    | completed =>
      by_cases hmoved : Moved (own i log)
      · rw [hiff.mpr hmoved]
      · obtain ⟨e, he, hd⟩ := hI.completed (hst.trans (by rw [hs]))
        exact absurd hd (hI.no_debit_of_refused happ htried hmoved hf hh e he)
    | rejected =>
      have hmoved : ¬Moved (own i log) := by
        rintro ⟨x, hx, hmoves⟩
        exact hI.rejected (hst.trans (by rw [hs])) _ (mem_own.mp hx) (debits_iff.mpr ⟨hmoves, happ⟩)
      cases hs' : t'.status with
      | pending => exact absurd (hset.symm.trans hs') set.status_ne_pending
      | completed => exact absurd (hiff.mp hs') hmoved
      | rejected => rfl
  · have h := (hcond.2.2 t hr rfl).1
    simp only [hst, Option.some.injEq] at h
    exact absurd h hsettled

theorem SettledInvariant.tick (hI : SettledInvariant requests t s log) {x : Environment}
    (hx : x.isTick) : SettledInvariant requests t (backend.env x s) log := by
  refine ⟨hI.toDebitInvariant.tick hx, ?_, ?_, ?_⟩ <;> cases x with
  | expire key => cases hx
  | tick ms => first | exact hI.completed | exact hI.rejected | exact hI.refused

theorem decidesPending_fits (requests : ℕ → Request) :
    (decidesPending requests).Fits (protocol True requests) :=
  fun _ _ _ _ _ hcond _ => (debitsPending_of_decidesPending hcond).1

/-- What a debit of the withdrawal took, read off the stored record. -/
theorem debit_amount {store : Store} (hfound : FoundStored store log)
    (hl : (protocol True requests).Lawful log) {e : LogEntry} (he : e ∈ log)
    (hd : debits requests t e = true) :
    ∃ (transaction : Transaction) (wallet : WalletDoc), store.transactions[t]? = some transaction ∧
      ⟨e.caller, .incBalance transaction.userId (some transaction.amount) (-transaction.amount)
        false, some wallet⟩ ∈ log := by
  obtain ⟨j, op, reply⟩ := e
  obtain ⟨hmoves, happ⟩ := debits_iff.mp hd
  obtain ⟨h, hsub, hmay⟩ := hl.mem he
  obtain ⟨-, transaction, hf, -, rfl, -⟩ := Request.May.debit (x := reply) hmay hmoves happ
  obtain ⟨t', ht', hsame⟩ := hfound j t transaction (hsub hf)
  obtain ⟨wallet, rfl⟩ := Option.isSome_iff_exists.mp hmoves
  exact ⟨t', wallet, ht', by rw [hsame.userId, hsame.amount]; exact he⟩

/-- While every decision acts on a PENDING and undebited record, a withdrawal
is COMPLETED only with its debit, REJECTED only without one, and a status once
settled stays: `s₁` is any part of a run and `s₂` any continuation. -/
theorem withdrawal_settled (withdrawalHoldHrs : ℕ) (store : Store) (requests : ℕ → Request)
    (s₁ s₂ : Schedule) (t : ℕ) (hpool : ∀ i, (requests i).isWithdrawal)
    (hopen : ∀ st, store.status t = some st → st = .pending)
    (hs : (decidesPending requests).Along backend
      (State.start withdrawalHoldHrs store requests) (s₁ ++ s₂)) :
    let c₁ := (State.start withdrawalHoldHrs store requests).run backend s₁
    let c := (State.start withdrawalHoldHrs store requests).run backend (s₁ ++ s₂)
    (c.store.status t = some .completed →
      ∃ (i : ℕ) (transaction : Transaction) (wallet : WalletDoc),
        c.store.transactions[t]? = some transaction ∧
        ⟨i, .incBalance transaction.userId (some transaction.amount) (-transaction.amount) false,
          some wallet⟩ ∈ c.log) ∧
    (c.store.status t = some .rejected → timesDebited requests t c.log = 0) ∧
    ∀ st, st ≠ .pending → c₁.store.status t = some st → c.store.status t = some st := by
  intro c₁ c
  have hstart : SettledInvariant requests t store [] := by
    refine ⟨.start requests t store, ?_, ?_, ?_⟩
    · intro h
      cases hopen _ h
    · intro _ e he
      cases he
    · intro _ _ _ _ _ _ _ e he
      cases he
  have hfits := decidesPending_fits requests
  have hconf := State.conforms_start True withdrawalHoldHrs store requests
  obtain ⟨hs₁, hs₂⟩ := (Assumption.along_append backend _ _ _ _).mp hs
  obtain ⟨hconf₁, hinv₁⟩ := Config.run_invariant (I := SettledInvariant requests t) hfits
    (fun _ _ _ _ _ hI hmay hcond => hI.step hpool hmay hcond) (fun _ _ _ hI hx => hI.tick hx) hconf
    hstart s₁ hs₁
  -- the continuation keeps the invariant together with any status settled so far
  obtain ⟨-, hinv, hfinal⟩ := Config.run_invariant
    (I := fun s log => SettledInvariant requests t s log ∧
      ∀ st, st ≠ .pending → c₁.store.status t = some st → s.status t = some st) hfits
    (fun _ _ _ _ _ hI hmay hcond => ⟨hI.1.step hpool hmay hcond, fun st hne hst =>
      hI.1.status_final hpool hmay hcond (hI.2 st hne hst) hne⟩)
    (fun _ _ x hI hx => ⟨hI.1.tick hx, by
      cases x with
      | expire key => cases hx
      | tick ms => exact hI.2⟩) hconf₁ ⟨hinv₁, fun _ _ h => h⟩ s₂ hs₂
  rw [← Config.run_append] at hinv hfinal
  refine ⟨?_, fun hst => List.countP_eq_zero.mpr (hinv.rejected hst), hfinal⟩
  intro hst
  obtain ⟨e, he, hd⟩ := hinv.completed hst
  obtain ⟨transaction, wallet, ht, hmem⟩ :=
    debit_amount hinv.found (Config.run_lawful hfits hconf trivial _ hs) he hd
  exact ⟨e.caller, transaction, wallet, ht, hmem⟩

/-- One agent approves a withdrawal, every other rejects it. -/
def approvedAndRejected : ℕ → Request
  | 0 => .approveWithdrawal 0 "cms" ⟨"member", "member@mail", "Member"⟩
  | _ => .rejectWithdrawal 0 "unverified" "cms" ⟨"member", "member@mail", "Member"⟩

theorem withdrawal_settled_sequential :
    let c₁ := (State.start 24 pendingForty approvedAndRejected).run backend
      (List.replicate 6 (.step 0 .done))
    let c := (State.start 24 pendingForty approvedAndRejected).run backend
      (List.replicate 6 (.step 0 .done) ++ [.step 1 .done])
    (c.store.status 0 = some .completed →
      ∃ (i : ℕ) (transaction : Transaction) (wallet : WalletDoc),
        c.store.transactions[0]? = some transaction ∧
        ⟨i, .incBalance transaction.userId (some transaction.amount) (-transaction.amount) false,
          some wallet⟩ ∈ c.log) ∧
    (c.store.status 0 = some .rejected → timesDebited approvedAndRejected 0 c.log = 0) ∧
    ∀ st, st ≠ .pending → c₁.store.status 0 = some st → c.store.status 0 = some st :=
  withdrawal_settled 24 pendingForty approvedAndRejected _ _ 0
    (fun i => by cases i <;> rfl)
    (fun st h => (Option.some.inj (h.symm.trans (by rfl : _ = some TransactionStatus.pending))))
    (by decide +kernel)

/-- Both agents read PENDING, then the approval runs to its end. -/
def approvedMeanwhile : Schedule :=
  [.step 0 .done, .step 1 .done] ++ List.replicate 5 (.step 0 .done)

/-- The rejection then overwrites COMPLETED, and 40 stays taken. -/
theorem completed_withdrawal_rejected :
    let start := State.start 24 pendingForty approvedAndRejected
    let c₁ := start.run backend approvedMeanwhile
    let c := start.run backend (approvedMeanwhile ++ List.replicate 2 (.step 1 .done))
    undisturbed.Along backend start (approvedMeanwhile ++ List.replicate 2 (.step 1 .done)) ∧
      c.result 0 = some (.ok .done) ∧ c.result 1 = some (.ok .done) ∧
      c₁.store.status 0 = some .completed ∧ c.store.status 0 = some .rejected ∧
      timesDebited approvedAndRejected 0 c.log = 1 ∧ c.store.balance "member" = 60 := by
  decide +kernel

end Settlement

end StockMarket.Wallet
