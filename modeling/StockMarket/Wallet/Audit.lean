import StockMarket.Wallet.Balance

/-! # The audit trail of balance changes

Deposits, deducts and credits insert their record before they move money, and
an approval moves only what a record asks for, so their changes are recorded
at every moment, also after a crash. A manual adjustment writes first.
-/

namespace StockMarket.Wallet
open Interleaving Prog

/-- A record of the user with the amount of the change is stored, in whatever
status. A debit is recorded by what it takes. -/
def Store.Records (s : Store) (userId : String) (change : ℚ) : Prop :=
  ∃ t ∈ s.transactions, t.userId = userId ∧ |t.amount| = |change|

instance (s : Store) (userId : String) (change : ℚ) : Decidable (s.Records userId change) :=
  inferInstanceAs (Decidable (∃ t ∈ s.transactions, _))

theorem Store.records_iff {s : Store} {userId : String} {change : ℚ} :
    s.Records userId change ↔ ∃ (id : ℕ) (t : Transaction), s.transactions[id]? = some t ∧
      t.userId = userId ∧ |t.amount| = |change| := by
  constructor
  · rintro ⟨t, ht, h⟩
    obtain ⟨id, hid⟩ := List.mem_iff_getElem?.mp ht
    exact ⟨id, t, hid, h⟩
  · rintro ⟨id, t, ht, h⟩
    exact ⟨t, List.mem_iff_getElem?.mpr ⟨id, ht⟩, h⟩

/-- Records are never taken out, and keep their owner and amount. -/
theorem records_exec (op : WalletOp) {s : Store} {userId : String} {change : ℚ}
    (h : s.Records userId change) : (exec op s).2.Records userId change := by
  obtain ⟨id, t, ht, hu, ha⟩ := Store.records_iff.mp h
  obtain ⟨t', ht', hsame, -⟩ := record_exec op ht
  exact Store.records_iff.mpr ⟨id, t', ht', hsame.userId.trans hu, by rw [hsame.amount, ha]⟩

/-- Every balance change the run makes has its record in the store it ends in. -/
def Audited (c : State) (sched : Schedule) : Prop :=
  ∀ s₁ ch s₂, sched = s₁ ++ ch :: s₂ → ∀ userId,
    let before := (c.run backend s₁).store.balance userId
    let after := (c.run backend (s₁ ++ [ch])).store.balance userId
    after ≠ before → (c.run backend sched).store.Records userId (after - before)

/-- A manual adjustment only writes a new balance when a record of the change
is already stored. -/
def recordedBefore : Assumption ℕ WalletOp WalletOp.Reply Store Environment Exception where
  call s _ _ op o :=
    match op with
    | .setBalance userId balance =>
        o.applies → (s.wallets userId).isSome → balance ≠ s.balance userId →
          s.Records userId (balance - s.balance userId)
    | _ => True
  env _ := True

section Trail
variable {requests : ℕ → Request} {s : Store} {log : List LogEntry}

/-- What a call has inserted or found before it moves money is stored. -/
structure TrailInvariant (requests : ℕ → Request) (s : Store) (log : List LogEntry) : Prop where
  created : ∀ i m id, (requests i).movement = some m → Created (own i log) id m.key →
    ∃ t : Transaction, s.transactions[id]? = some t ∧ t.userId = m.userId ∧ t.amount = |m.amount|
  found : FoundStored s log

theorem TrailInvariant.step (hI : TrailInvariant requests s log) {i : ℕ} {op : WalletOp}
    (hmay : (requests i).May False i (own i log) op) :
    TrailInvariant requests (exec op s).2 (⟨i, op, (exec op s).1⟩ :: log) := by
  refine ⟨?_, hI.found.step i op⟩
  intro j m id hm hc
  rcases hc.of_log_cons with hold | ⟨doc, rfl, rfl, -, -, hnew⟩
  · obtain ⟨t, ht, hu, ha⟩ := hI.created j m id hm hold
    obtain ⟨t', ht', hsame, -⟩ := record_exec op ht
    exact ⟨t', ht', hsame.userId.trans hu, hsame.amount.trans ha⟩
  · obtain ⟨hu, -, ha⟩ := hmay.2 m hm
    exact ⟨_, hnew, hu, ha⟩

/-- The increment of a call is recorded before it is sent. -/
theorem TrailInvariant.records_increment (hI : TrailInvariant requests s log) {i : ℕ}
    {userId : String} {gte : Option ℚ} {amount : ℚ} {isDeposit : Bool}
    (hmay : (requests i).MayIncrement i (own i log) userId gte amount isDeposit) :
    s.Records userId amount := by
  obtain ⟨-, ⟨m, hm, rfl, -, rfl, -, id, hc⟩ | ⟨t, transaction, -, hf, -, -, rfl, -, rfl, -⟩⟩ :=
    hmay
  · obtain ⟨t, ht, hu, ha⟩ := hI.created i m id hm hc
    exact Store.records_iff.mpr ⟨id, t, ht, hu, by rw [ha, abs_abs]⟩
  · obtain ⟨t', ht', hsame⟩ := hI.found i t transaction hf
    exact Store.records_iff.mpr ⟨t, t', ht', hsame.userId, by rw [hsame.amount, abs_neg]⟩

/-- A balance an operation changes is that of the wallet it writes, and the
change is recorded. -/
theorem TrailInvariant.records_change (hI : TrailInvariant requests s log) {i : ℕ} {op : WalletOp}
    {o : Outcome Exception} (hmay : (requests i).May False i (own i log) op)
    (hcond : recordedBefore.call s log i op o) (ho : o.applies) {userId : String}
    (hchange : (exec op s).2.balance userId ≠ s.balance userId) :
    s.Records userId ((exec op s).2.balance userId - s.balance userId) := by
  rcases hm : moves ⟨op, (exec op s).1⟩ with _ | _
  · exact absurd (balance_exec_of_not_moves hm) hchange
  cases op with
  | incBalance owner gte amount isDeposit =>
    obtain ⟨-, hbalance⟩ := exec_incBalance_moves userId hm
    rw [hbalance] at hchange ⊢
    split at hchange
    · rename_i hu
      subst hu
      rw [if_pos rfl, add_sub_cancel_left]
      exact hI.records_increment hmay
    · simp at hchange
  | setBalance owner balance =>
    rcases hw : (s.wallets owner).isSome with _ | _
    · have hnone : s.wallets owner = none := by simpa using hw
      simp [exec, hnone] at hchange
    · rw [balance_exec_setBalance hw] at hchange ⊢
      split at hchange
      · rename_i hu
        subst hu
        rw [if_pos rfl]
        exact hcond ho hw hchange
      · simp at hchange
  | _ => simp [moves] at hm

theorem TrailInvariant.run (withdrawalHoldHrs : ℕ) (store : Store) (requests : ℕ → Request)
    (sched : Schedule) :
    let c := (State.start withdrawalHoldHrs store requests).run backend sched
    c.Conforms (protocol False requests) ∧ TrailInvariant requests c.store c.log := by
  refine Config.run_invariant (I := TrailInvariant requests) (fits_of_unreliable unrestricted _)
    (fun _ _ _ _ _ hI hmay _ => hI.step hmay) (fun s log y hI _ => ?_)
    (State.conforms_start False withdrawalHoldHrs store requests) ⟨?_, ?_⟩ sched
    (along_unrestricted _ sched)
  · cases y <;> exact ⟨hI.created, hI.found⟩
  · intro i m id _ hc
    simp [Created] at hc
  · intro i id t hf
    simp [Found] at hf

/-- Right after each step that meets the condition, what it changed is recorded. -/
theorem records_step {c : State} (hc : c.Conforms (protocol False requests))
    (hI : TrailInvariant requests c.store c.log) {ch : Choice ℕ Environment Exception}
    (hch : recordedBefore.Meets c ch) (userId : String)
    (hchange : (c.step backend ch).store.balance userId ≠ c.store.balance userId) :
    (c.step backend ch).store.Records userId
      ((c.step backend ch).store.balance userId - c.store.balance userId) := by
  obtain ⟨-, hcases⟩ := Config.step_cases (B := backend) hc
    (fits_of_unreliable recordedBefore requests) ch hch
  rcases hcases with ⟨hs, -⟩ | ⟨y, -, hs, -⟩ | ⟨i, op, o, hmay, hcond, ho, hs, -⟩ <;>
    rw [hs] at hchange ⊢
  · exact absurd rfl hchange
  · cases y <;> exact absurd rfl hchange
  · exact records_exec op (hI.records_change hmay hcond ho hchange)

/-- The one operation that can change a balance no record asks for leaves the
records alone. -/
theorem records_setBalance {s : Store} {owner userId : String} {balance change : ℚ}
    (h : (exec (.setBalance owner balance) s).2.Records userId change) :
    s.Records userId change := by
  rcases hw : s.wallets owner with _ | w <;>
    simpa [Store.Records, exec, hw, Store.setWallet] using h

end Trail

/-- The audit trail is complete in every state a run reaches exactly where no
manual adjustment writes a new balance before its change is recorded. -/
theorem audited_iff (withdrawalHoldHrs : ℕ) (store : Store) (requests : ℕ → Request)
    (sched : Schedule) :
    (∀ reached, reached <+: sched →
        Audited (State.start withdrawalHoldHrs store requests) reached) ↔
      recordedBefore.Along backend (State.start withdrawalHoldHrs store requests) sched := by
  rw [Assumption.along_iff_split]
  constructor
  · intro haudit s₁ ch s₂ hs
    cases ch with
    | crash i => trivial
    | env y => trivial
    | step i o =>
      simp only [Assumption.Meets]
      split
      swap
      · trivial
      rename_i op next failed hi
      cases op with
      | setBalance owner balance =>
        intro ho hw hne
        obtain ⟨hstore, -⟩ := Config.step_applies backend hi ho
        have hlast := haudit (s₁ ++ [.step i o]) ⟨s₂, by simp [hs]⟩ s₁ (.step i o) [] rfl owner
        have hafter : ((State.start withdrawalHoldHrs store requests).run backend
            (s₁ ++ [.step i o])).store = (exec (.setBalance owner balance)
              ((State.start withdrawalHoldHrs store requests).run backend s₁).store).2 := by
          rw [Config.run_append]
          exact hstore
        simp only [hafter, balance_exec_setBalance hw, if_true] at hlast
        exact records_setBalance (hlast hne)
      | _ => trivial
  · rintro hmeets reached ⟨rest, rfl⟩ s₁ ch s₂ rfl userId before after hchange
    obtain ⟨hc, hI⟩ := TrailInvariant.run withdrawalHoldHrs store requests s₁
    have hstep := records_step hc hI (hmeets s₁ ch (s₂ ++ rest) (by simp)) userId
    have hafter : ((State.start withdrawalHoldHrs store requests).run backend (s₁ ++ [ch])) =
        ((State.start withdrawalHoldHrs store requests).run backend s₁).step backend ch :=
      Config.run_append ..
    simp only [before, after, hafter] at hchange ⊢
    rw [Config.run_append, Config.run_cons]
    refine Config.run_store backend (I := fun s => s.Records userId _)
      (fun op _ => records_exec op) (fun y _ h => ?_) _ (hstep hchange) s₂
    cases y <;> exact h

/-- A credit by hand of 10, whose process dies after the balance is written. -/
def crashedAdjustment : Schedule := List.replicate 3 (.step 0 .done) ++ [.crash 0]

/-- The balance has grown from 100 to 110, and nothing is recorded. -/
theorem adjustment_unrecorded :
    ¬Audited (State.start 24 hundred fun _ => .manualAdjustment "member" 10 "goodwill" "cms")
      crashedAdjustment := by
  intro h
  have hlast := h (List.replicate 2 (.step 0 .done)) (.step 0 .done) [.crash 0] rfl "member"
  revert hlast
  decide +kernel

end StockMarket.Wallet
