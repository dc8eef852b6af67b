import StockMarket.Wallet.Log

/-! # Movements under an idempotency key

The unique index lets one call insert the record of a key, and only that call
goes on to write the balance. Nothing else is needed: the early check may race
and locks may expire.
-/

namespace StockMarket.Wallet
open Interleaving Prog

/-- The entry is a balance change made by a call carrying the key. -/
def movesFor (requests : ℕ → Request) (key : String) (e : LogEntry) : Bool :=
  moves e.reaction && decide ((requests e.caller).movement.map Movement.key = some key)

def timesMoved (requests : ℕ → Request) (key : String) (log : List LogEntry) : ℕ :=
  log.countP (movesFor requests key)

theorem movesFor_iff {requests : ℕ → Request} {key : String} {e : LogEntry} :
    movesFor requests key e = true ↔
      moves e.reaction = true ∧ ∃ m, (requests e.caller).movement = some m ∧ m.key = key := by
  simp [movesFor]

/-- The record of a key has one author, and only its author moves money. -/
structure KeyInvariant (requests : ℕ → Request) (key : String) (s : Store)
    (log : List LogEntry) : Prop where
  taken : ∀ i id, Created (own i log) id key → s.HasKey key
  author : ∀ i j a b, Created (own i log) a key → Created (own j log) b key → i = j
  mover : ∀ e ∈ log, movesFor requests key e = true → ∃ id, Created (own e.caller log) id key
  once : timesMoved requests key log ≤ 1

theorem KeyInvariant.step {requests : ℕ → Request} {key : String} {s : Store}
    {log : List LogEntry} (hI : KeyInvariant requests key s log) {i : ℕ} {op : WalletOp}
    (hmay : (requests i).May False i (own i log) op) :
    KeyInvariant requests key (exec op s).2 (⟨i, op, (exec op s).1⟩ :: log) := by
  have hmover (hmoves : movesFor requests key ⟨i, op, (exec op s).1⟩ = true) :
      ¬Tried (own i log) ∧ ∃ id, Created (own i log) id key := by
    obtain ⟨hm, m, hr, rfl⟩ := movesFor_iff.mp hmoves
    exact (hmay.move hm hr).2
  refine ⟨?_, ?_, ?_, ?_⟩
  · intro j id hc
    rcases hc.of_log_cons with hold | ⟨doc, -, -, rfl, -, hnew⟩
    · exact hasKey_exec op (hI.taken j id hold)
    · exact Store.hasKey_iff.mpr ⟨id, _, hnew, rfl⟩
  · intro j k a b hj hk
    rcases hj.of_log_cons with hj | ⟨_, rfl, -, rfl, hno, -⟩ <;>
      rcases hk.of_log_cons with hk | ⟨_, rfl, -, hkey, hno', -⟩
    · exact hI.author j k a b hj hk
    · exact absurd (hI.taken j a hj) (hkey ▸ hno')
    · exact absurd (hI.taken k b hk) hno
    · rfl
  · intro e he hmoves
    rcases List.mem_cons.mp he with rfl | he
    · obtain ⟨-, id, hc⟩ := hmover hmoves
      exact ⟨id, hc.log_cons _⟩
    · obtain ⟨id, hc⟩ := hI.mover e he hmoves
      exact ⟨id, hc.log_cons _⟩
  · rw [timesMoved, List.countP_cons]
    split
    · rename_i hmoves
      obtain ⟨htried, id, hc⟩ := hmover hmoves
      -- a second mover would be the author again, who has not tried yet
      have hnone : log.countP (movesFor requests key) = 0 := by
        refine List.countP_eq_zero.mpr fun e he hme => htried ?_
        obtain ⟨id', hc'⟩ := hI.mover e he hme
        obtain rfl := hI.author _ _ _ _ hc' hc
        exact Moved.tried ⟨e.reaction, mem_own.mpr he, (movesFor_iff.mp hme).1⟩
      omega
    · exact hI.once

/-- Whatever the schedule, a key's balance change is applied at most once. -/
theorem timesMoved_le_one (withdrawalHoldHrs : ℕ) (store : Store) (requests : ℕ → Request)
    (sched : Schedule) (key : String) :
    timesMoved requests key
      ((State.start withdrawalHoldHrs store requests).run backend sched).log ≤ 1 := by
  have hstart : KeyInvariant requests key store [] := by
    refine ⟨?_, ?_, ?_, by simp [timesMoved]⟩
    · intro i id hc
      simp [Created] at hc
    · intro i j a b hc _
      simp [Created] at hc
    · intro e he
      cases he
  refine (Config.run_invariant (I := KeyInvariant requests key) (fits_of_unreliable unrestricted _)
    (fun _ _ _ _ _ hI hmay _ => hI.step hmay) (fun s log y hI _ => ?_)
    (State.conforms_start False withdrawalHoldHrs store requests) hstart sched
    (along_unrestricted _ sched)).2.once
  cases y <;> exact ⟨hI.taken, hI.author, hI.mover, hI.once⟩

section Acknowledgement
variable {requests : ℕ → Request} {key : String}

/-- A call only counts the key when every record carrying it is COMPLETED. -/
def completedWhenCounted (key : String) :
    Assumption ℕ WalletOp WalletOp.Reply Store Environment Exception where
  call s _ _ op _ := op = .countByIdempotencyKey key →
    ∀ t ∈ s.transactions, t.idempotencyKey = key → t.status = .completed
  env _ := True

instance (key : String) (s : Store) (log : List LogEntry) (i : ℕ) (op : WalletOp)
    (o : Outcome Exception) : Decidable ((completedWhenCounted key).call s log i op o) :=
  inferInstanceAs (Decidable (_ → _))

instance (key : String) (x : Environment) : Decidable ((completedWhenCounted key).env x) :=
  .isTrue trivial

/-- Among movements, a COMPLETED record of the key and a nonzero count of it
both mean that its balance change is in the log. -/
structure RecordInvariant (requests : ℕ → Request) (key : String) (s : Store)
    (log : List LogEntry) : Prop where
  record : ∀ i id k, Created (own i log) id k →
    ∃ t : Transaction, s.transactions[id]? = some t ∧ t.idempotencyKey = k
  completed : ∀ (id : ℕ) (t : Transaction), s.transactions[id]? = some t →
    t.idempotencyKey = key → t.status = .completed → ∃ e ∈ log, movesFor requests key e = true
  counted : ∀ i, Counted (own i log) key → ∃ e ∈ log, movesFor requests key e = true

theorem RecordInvariant.step (hpool : ∀ i, (requests i).movement.isSome) {s : Store}
    {log : List LogEntry} (hI : RecordInvariant requests key s log) {i : ℕ} {op : WalletOp}
    {o : Outcome Exception} (hmay : (requests i).May False i (own i log) op)
    (hcond : (completedWhenCounted key).call s log i op o) :
    RecordInvariant requests key (exec op s).2 (⟨i, op, (exec op s).1⟩ :: log) := by
  obtain ⟨m, hm⟩ := Option.isSome_iff_exists.mp (hpool i)
  obtain ⟨happ, hrej, hadj⟩ := Request.only_movement hm
  have hmore (h : ∃ e ∈ log, movesFor requests key e = true) :
      ∃ e ∈ (⟨i, op, (exec op s).1⟩ :: log : List LogEntry), movesFor requests key e = true := by
    obtain ⟨e, he, hmoves⟩ := h
    exact ⟨e, List.mem_cons_of_mem _ he, hmoves⟩
  refine ⟨fun j id k hc => ?_, fun id t ht hk hst => hmore ?_, fun j hc => hmore ?_⟩
  · rcases hc.of_log_cons with hold | ⟨doc, -, -, rfl, -, hnew⟩
    · obtain ⟨t, ht, rfl⟩ := hI.record j id k hold
      obtain ⟨t', ht', hsame, -⟩ := record_exec op ht
      exact ⟨t', ht', hsame.idempotencyKey⟩
    · exact ⟨_, hnew, rfl⟩
  · rcases hold : s.transactions[id]? with _ | t₀
    · obtain ⟨doc, rfl, -, -, rfl⟩ := record_exec_new hold ht
      simp [hmay.1 hadj] at hst
    · obtain ⟨t', ht', hsame, hstatus⟩ := record_exec op hold
      cases ht.symm.trans ht'
      have hk₀ : t₀.idempotencyKey = key := hsame.idempotencyKey.symm.trans hk
      rcases hstatus with hstatus | ⟨set, rfl, hstatus⟩
      · exact hI.completed id t₀ hold hk₀ (hstatus.symm.trans hst)
      · rcases hmay with ⟨m', hm', hc, hmoved⟩ | ⟨ha, -⟩ | ⟨hr, -⟩
        · obtain ⟨t₁, ht₁, hkey⟩ := hI.record i id m'.key hc
          cases hold.symm.trans ht₁
          obtain ⟨x, hx, hmoves⟩ := hmoved (hstatus.symm.trans hst)
          exact ⟨⟨i, x⟩, mem_own.mp hx, movesFor_iff.mpr ⟨hmoves, m', hm', hkey.symm.trans hk₀⟩⟩
        · simp [happ] at ha
        · simp [hrej] at hr
  · obtain ⟨n, hn, hmem⟩ := hc
    rcases mem_own_exec hmem with ⟨-, rfl, hx⟩ | hold
    · obtain ⟨t, ht⟩ := List.length_pos_iff_exists_mem.mp (hx.symm ▸ hn)
      obtain ⟨htm, hkey⟩ := List.mem_filter.mp ht
      obtain ⟨id, hid⟩ := List.mem_iff_getElem?.mp htm
      have hkey' : t.idempotencyKey = key := of_decide_eq_true hkey
      exact hI.completed id t hid hkey' (hcond rfl t htm hkey')
    · exact hI.counted j ⟨n, hn, hold⟩

/-- When nobody counts an unfinished record, a movement that returns normally
has been made, by itself or by an earlier call with its key. -/
theorem acknowledged_moved (withdrawalHoldHrs : ℕ) (store : Store) (requests : ℕ → Request)
    (sched : Schedule) (i : ℕ) (m : Movement) (a : Response)
    (hpool : ∀ j, (requests j).movement.isSome) (hm : (requests i).movement = some m)
    (hretry : ∀ j m', (requests j).movement = some m' → m'.key = m.key → m' = m)
    (hnew : ¬store.HasKey m.key)
    (hs : (completedWhenCounted m.key).Along backend
      (State.start withdrawalHoldHrs store requests) sched)
    (hret : ((State.start withdrawalHoldHrs store requests).run backend sched).result i =
      some (.ok a)) :
    ∃ j wallet, (requests j).movement = some m ∧
      ⟨j, .incBalance m.userId m.gte m.amount m.isDeposit, some wallet⟩ ∈
        ((State.start withdrawalHoldHrs store requests).run backend sched).log := by
  have hstart : RecordInvariant requests m.key store [] := by
    refine ⟨?_, ?_, ?_⟩
    · intro j id k hc
      simp [Created] at hc
    · intro id t ht hk _
      exact absurd (Store.hasKey_iff.mpr ⟨id, t, ht, hk⟩) hnew
    · intro j hc
      simp [Counted] at hc
  have hfits := fits_of_unreliable (completedWhenCounted m.key) requests
  have hconf := State.conforms_start False withdrawalHoldHrs store requests
  obtain ⟨hend, hinv⟩ := Config.run_invariant (I := RecordInvariant requests m.key) hfits
    (fun _ _ _ _ _ hI hmay hcond => hI.step hpool hmay hcond) (fun s log y hI _ => by
      cases y <;> exact ⟨hI.record, hI.completed, hI.counted⟩) hconf hstart sched hs
  have hlawful := Config.run_lawful hfits hconf trivial sched hs
  have hmoved : ∃ e ∈ ((State.start withdrawalHoldHrs store requests).run backend sched).log,
      movesFor requests m.key e = true := by
    rcases hend.returned hret m hm with hc | ⟨x, hx, hmoves⟩
    · exact hinv.counted i hc
    · exact ⟨⟨i, x⟩, mem_own.mp hx, movesFor_iff.mpr ⟨hmoves, m, hm, rfl⟩⟩
  obtain ⟨⟨j, op, reply⟩, he, hmovesFor⟩ := hmoved
  obtain ⟨hmoves, m', hm', hkey⟩ := movesFor_iff.mp hmovesFor
  obtain rfl := hretry j m' hm' hkey
  obtain ⟨h, -, hmay⟩ := hlawful.mem he
  obtain ⟨rfl, -, -⟩ := Request.May.move (x := reply) hmay hmoves hm'
  obtain ⟨wallet, rfl⟩ := Option.isSome_iff_exists.mp hmoves
  exact ⟨j, wallet, hm', he⟩

def paidSession : StripeDepositInput where
  userId := "member"
  amount := 100
  currency := "USD"
  idempotencyKey := "session"
  stripeSessionId := "session"
  stripePaymentIntentId := none
  amount_pos := by norm_num

/-- A delivery that runs to its end, then a redelivery. -/
def deliveredTwice : Schedule := List.replicate 8 (.step 0 .done) ++ [.step 1 .done]

theorem acknowledged_moved_redelivery :
    ∃ j wallet, (Request.processStripeDeposit paidSession).movement = some paidSession.movement ∧
      ⟨j, .incBalance "member" none 100 true, some wallet⟩ ∈
        ((State.start 24 .empty fun _ => .processStripeDeposit paidSession).run backend
          deliveredTwice).log :=
  acknowledged_moved 24 .empty (fun _ => .processStripeDeposit paidSession) deliveredTwice 1
    paidSession.movement .done (fun _ => rfl) rfl (fun _ _ h _ => (Option.some.inj h).symm)
    (by decide) (by decide +kernel) (by decide +kernel)

/-- The first delivery inserts the record, its balance update throws and it
releases the lock. Then the redelivery runs. -/
def throwsAfterInsert : Schedule :=
  List.replicate 4 (.step 0 .done) ++
    [.step 0 (.failed (.driver "connection closed")), .step 0 .done, .step 1 .done]

/-- The redelivery is answered normally, and no balance was ever changed. -/
theorem redelivery_acknowledged_unmoved :
    let c := (State.start 24 .empty fun _ => .processStripeDeposit paidSession).run backend
      throwsAfterInsert
    c.result 1 = some (.ok .done) ∧
      timesMoved (fun _ => .processStripeDeposit paidSession) "session" c.log = 0 ∧
      c.store.balance "member" = 0 := by
  decide +kernel

end Acknowledgement

end StockMarket.Wallet
