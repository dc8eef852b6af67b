import StockMarket.Wallet.Log
import Mathlib.Algebra.BigOperators.Group.List.Basic

/-! # Balances over whole runs

Increments commute and a guarded one keeps the balance nonnegative, whatever
happens in between. The one absolute write is that of a manual adjustment: it
cannot make a balance negative, but it can overwrite what others have added.
-/

namespace StockMarket.Wallet
open Interleaving Prog

section Effects
variable {s : Store} {userId : String}

theorem balance_setWallet (s : Store) (owner : String) (w : WalletDoc) (userId : String) :
    (s.setWallet owner w).balance userId =
      if owner = userId then w.balance else s.balance userId := by
  by_cases h : owner = userId
  · subst h
    simp [Store.setWallet, Store.balance]
  · simp [Store.setWallet, Store.balance, Function.update_of_ne (Ne.symm h), h]

/-- An increment that found a wallet its filter accepts. -/
theorem exec_incBalance_moves (userId : String) {owner : String} {gte : Option ℚ} {amount : ℚ}
    {isDeposit : Bool} (h : moves ⟨.incBalance owner gte amount isDeposit,
      (exec (.incBalance owner gte amount isDeposit) s).1⟩ = true) :
    (∀ least ∈ gte, least ≤ s.balance owner) ∧
      (exec (.incBalance owner gte amount isDeposit) s).2.balance userId =
        s.balance userId + if owner = userId then amount else 0 := by
  rcases hw : s.wallets owner with _ | w
  · simp [moves, exec, hw] at h
  · by_cases hc : w.Covers gte
    · refine ⟨?_, ?_⟩
      · intro least hl
        cases hl
        simpa [Store.balance, hw] using show least ≤ w.balance from hc
      · simp only [exec, hw, if_pos hc, balance_setWallet, WalletDoc.inc]
        split
        · rename_i ho
          simp [Store.balance, ← ho, hw]
        · simp
    · simp [moves, exec, hw, hc] at h

/-- Only carried-out balance writes change a balance. -/
theorem balance_exec_of_not_moves {op : WalletOp} (h : moves ⟨op, (exec op s).1⟩ = false) :
    (exec op s).2.balance userId = s.balance userId := by
  have hchange := change_exec op s
  generalize (exec op s).2 = s' at hchange ⊢
  cases hchange with
  | opened owner hw =>
    rw [balance_setWallet]
    split
    · rename_i ho
      simp [Store.balance, ← ho, hw, WalletDoc.fresh]
    · rfl
  | incremented owner gte amount isDeposit w hw hc => simp [moves, exec, hw, hc] at h
  | overwritten owner balance w hw => simp [moves] at h
  | _ => rfl

theorem balance_exec_setBalance {owner : String} {balance : ℚ} (hw : (s.wallets owner).isSome) :
    (exec (.setBalance owner balance) s).2.balance userId =
      if owner = userId then balance else s.balance userId := by
  obtain ⟨w, hw⟩ := Option.isSome_iff_exists.mp hw
  simp [exec, hw, balance_setWallet]

theorem wallets_exec_isSome (op : WalletOp) (h : (s.wallets userId).isSome) :
    ((exec op s).2.wallets userId).isSome := by
  have hset (owner : String) (w : WalletDoc) : ((s.setWallet owner w).wallets userId).isSome := by
    by_cases ho : userId = owner <;> simp [Store.setWallet, ho, h]
  have hchange := change_exec op s
  generalize (exec op s).2 = s' at hchange ⊢
  cases hchange with
  | opened owner hw => exact hset _ _
  | incremented owner gte amount isDeposit w hw hc => exact hset _ _
  | overwritten owner balance w hw => exact hset _ _
  | _ => exact h

end Effects

/-- Every increment either adds or is filtered on what it takes. -/
theorem Request.MayIncrement.guarded {uuid : ℕ} {r : Request} {h : History} {userId : String}
    {gte : Option ℚ} {amount : ℚ} {isDeposit : Bool}
    (hmay : r.MayIncrement uuid h userId gte amount isDeposit) :
    0 < amount ∨ gte = some (-amount) := by
  obtain ⟨-, ⟨m, -, -, rfl, rfl, -⟩ | ⟨t, transaction, -, -, -, -, -, rfl, rfl, -⟩⟩ := hmay
  · exact m.guarded
  · exact .inr (by rw [neg_neg])

theorem balance_nonneg_step {reliable : Prop} {uuid : ℕ} {r : Request} {h : History} {op : WalletOp}
    {s : Store} (hmay : r.May reliable uuid h op) (hs : ∀ userId, 0 ≤ s.balance userId)
    (userId : String) : 0 ≤ (exec op s).2.balance userId := by
  rcases hm : moves ⟨op, (exec op s).1⟩ with _ | _
  · rw [balance_exec_of_not_moves hm]
    exact hs userId
  · cases op with
    | incBalance owner gte amount isDeposit =>
      obtain ⟨hcovers, hbalance⟩ := exec_incBalance_moves userId hm
      rw [hbalance]
      have hold := hs userId
      split
      · rename_i ho
        subst ho
        rcases hmay.guarded with hpos | rfl
        · linarith
        · linarith [hcovers _ rfl]
      · linarith
    | setBalance owner balance =>
      obtain ⟨-, amount, wallet, -, -, hnonneg, rfl⟩ := hmay
      rcases hw : (s.wallets owner).isSome with _ | _
      · have hnone : s.wallets owner = none := by simpa using hw
        simpa [exec, hnone] using hs userId
      · rw [balance_exec_setBalance hw]
        split
        · exact toFixed_nonneg hnonneg
        · exact hs userId
    | _ => simp [moves] at hm

/-- No balance is ever negative: nothing is assumed of locks or crashes. -/
theorem balance_nonneg (withdrawalHoldHrs : ℕ) (store : Store) (requests : ℕ → Request)
    (sched : Schedule) (hstart : ∀ userId, 0 ≤ store.balance userId) (userId : String) :
    0 ≤ ((State.start withdrawalHoldHrs store requests).run backend sched).store.balance userId :=
  (Config.run_invariant (I := fun s _ => ∀ userId, 0 ≤ s.balance userId)
    (fits_of_unreliable unrestricted requests)
    (fun _ _ _ _ _ hI hmay _ => balance_nonneg_step hmay hI) (fun s _ y hI _ => by
      cases y <;> exact hI)
    (State.conforms_start False withdrawalHoldHrs store requests) hstart sched
    (along_unrestricted _ sched)).2 userId

/-- A debit by hand on a wallet just opened by `ensureWallet`. -/
theorem balance_nonneg_opened :
    0 ≤ ((State.start 24 (exec (.ensureWallet "member") .empty).2 fun _ =>
      .manualAdjustment "member" (-5) "chargeback" "cms").run backend
        (List.replicate 6 (.step 0 .done))).store.balance "member" := by
  refine balance_nonneg 24 _ _ _ ?_ "member"
  intro userId
  rw [balance_exec_of_not_moves rfl]
  exact le_rfl

section Conservation
variable {format : Rounding.Format} {requests : ℕ → Request} {userId : String}

/-- What a request adds to a wallet when it writes the balance. An approval
takes the amount of the record it approves. -/
def Request.signedAmount (s : Store) (userId : String) (r : Request) : ℚ :=
  match r.movement, r.approval.bind (s.transactions[·]?), r.adjustment with
  | some m, _, _ => if m.userId = userId then m.amount else 0
  | none, some t, _ => if t.userId = userId then -t.amount else 0
  | none, none, some (owner, amount) => if owner = userId then amount else 0
  | none, none, none => 0

/-- The calls that have performed their balance write, newest first. -/
def writers (log : List LogEntry) : List ℕ :=
  (log.filter fun e => moves e.reaction).map Entry.caller

/-- The balance of the wallet as the call has read it. -/
def balanceRead (userId : String) : Reaction WalletOp WalletOp.Reply → Option ℚ
  | ⟨.findWallet owner, reply⟩ => if owner = userId then reply.map WalletDoc.balance else none
  | _ => none

/-- An adjustment only writes while the balance is still the one it has read.
Their sum needs no more than the six decimals that are kept, and as a sum of
numbers it is less than half the last of them off. -/
def adjustsUnchanged (format : Rounding.Format) (requests : ℕ → Request) :
    Assumption ℕ WalletOp WalletOp.Reply Store Environment Exception where
  call s log i op _ := op.isSetBalance → ∀ adjustment ∈ (requests i).adjustment,
    ∀ x ∈ own i log, ∀ balance ∈ balanceRead adjustment.1 x,
      s.balance adjustment.1 = balance ∧ HasDecimals 6 (balance + adjustment.2) ∧
        |format.sum balance adjustment.2 - (balance + adjustment.2)| < 1 / 2 / 10 ^ 6
  env _ := True

instance (format : Rounding.Format) (requests : ℕ → Request) (s : Store) (log : List LogEntry)
    (i : ℕ) (op : WalletOp) (o : Outcome Exception) :
    Decidable ((adjustsUnchanged format requests).call s log i op o) :=
  inferInstanceAs (Decidable (_ → ∀ adjustment ∈ (requests i).adjustment,
    ∀ x ∈ own i log, ∀ balance ∈ balanceRead adjustment.1 x, _))

instance (format : Rounding.Format) (requests : ℕ → Request) (x : Environment) :
    Decidable ((adjustsUnchanged format requests).env x) :=
  .isTrue trivial

/-- The sum of doubles below a billion is as good as exact. -/
theorem adjustsUnchanged_double {s : Store} {log : List LogEntry} {i : ℕ} {op : WalletOp}
    {o : Outcome Exception} (hsmall : ∀ adjustment ∈ (requests i).adjustment,
      |adjustment.2| < 2 ^ 30 ∧
        ∀ x ∈ own i log, ∀ balance ∈ balanceRead adjustment.1 x, |balance| < 2 ^ 30) :
    (adjustsUnchanged .double requests).call s log i op o ↔
      (adjustsUnchanged .exact requests).call s log i op o := by
  have hnear {x y : ℚ} (hx : |x| < 2 ^ 30) (hy : |y| < 2 ^ 30) :
      |Rounding.Format.double.sum x y - (x + y)| < 1 / 2 / 10 ^ 6 := by
    have hsum := Rounding.Format.abs_double_sum_sub_le (k := 30) (by decide)
      (by exact_mod_cast hx) (by exact_mod_cast hy)
    exact lt_of_le_of_lt hsum (by norm_num)
  constructor
  · intro h hset adjustment hadj x hx balance hbalance
    obtain ⟨hsame, hdec, -⟩ := h hset adjustment hadj x hx balance hbalance
    exact ⟨hsame, hdec, by norm_num⟩
  · intro h hset adjustment hadj x hx balance hbalance
    obtain ⟨hsame, hdec, -⟩ := h hset adjustment hadj x hx balance hbalance
    obtain ⟨hamount, hbalances⟩ := hsmall adjustment hadj
    exact ⟨hsame, hdec, hnear (hbalances x hx balance hbalance) hamount⟩

/-- At ten billion it is not: a millionth more is written as two. -/
example : toFixed 6 (Rounding.Format.double.sum (10 ^ 10) (1 / 10 ^ 6)) =
    10 ^ 10 + 2 / 10 ^ 6 := by decide +kernel

/-- The balance is what the writers so far have made of the initial one. -/
structure LedgerInvariant (requests : ℕ → Request) (initial : ℚ) (userId : String) (s : Store)
    (log : List LogEntry) : Prop where
  found : FoundStored s log
  read : ∀ i owner wallet, ⟨.findWallet owner, some wallet⟩ ∈ own i log →
    (s.wallets owner).isSome
  approved : ∀ i ∈ writers log, ∀ t, (requests i).approval = some t →
    ∃ transaction : Transaction, s.transactions[t]? = some transaction
  balance : s.balance userId =
    initial + ((writers log).map fun i => (requests i).signedAmount s userId).sum

/-- The amount does not change with the store once the record exists. -/
theorem signedAmount_exec {s : Store} {r : Request} (op : WalletOp)
    (hr : ∀ t, r.approval = some t →
      ∃ transaction : Transaction, s.transactions[t]? = some transaction) :
    r.signedAmount (exec op s).2 userId = r.signedAmount s userId := by
  rcases ht : r.approval with _ | t
  · simp [Request.signedAmount, ht]
  · obtain ⟨transaction, hs⟩ := hr t ht
    obtain ⟨t', ht', hsame, -⟩ := record_exec op hs
    simp [Request.signedAmount, ht, hs, ht', (Request.only_approval ht).1, hsame.userId,
      hsame.amount]

theorem writers_cons (e : LogEntry) (log : List LogEntry) :
    writers (e :: log) = if moves e.reaction then e.caller :: writers log else writers log := by
  rw [writers, List.filter_cons]
  split <;> simp_all [writers]

/-- The one write of a request adds its signed amount. -/
theorem balance_exec_of_moves {initial : ℚ} {s : Store} {log : List LogEntry}
    (hI : LedgerInvariant requests initial userId s log) {i : ℕ} {op : WalletOp}
    {o : Outcome Exception} (hmay : (requests i).MayWith format False i (own i log) op)
    (hcond : (adjustsUnchanged format requests).call s log i op o)
    (hm : moves ⟨op, (exec op s).1⟩ = true) :
    (∀ t, (requests i).approval = some t →
      ∃ transaction : Transaction, s.transactions[t]? = some transaction) ∧
    (exec op s).2.balance userId = s.balance userId + (requests i).signedAmount s userId := by
  cases op with
  | incBalance owner gte amount isDeposit =>
    obtain ⟨-, hbalance⟩ := exec_incBalance_moves userId hm
    rw [hbalance]
    obtain ⟨-, ⟨m, hr, rfl, rfl, rfl, rfl, -⟩ |
      ⟨t, transaction, ht, hfound, -, -, rfl, rfl, rfl, rfl, -⟩⟩ := hmay
    · refine ⟨?_, by simp [Request.signedAmount, hr]⟩
      intro t ht
      simp [(Request.only_movement hr).1] at ht
    · obtain ⟨t', hs, hsame⟩ := hI.found i t transaction hfound
      refine ⟨?_, ?_⟩
      · intro _ h
        cases ht.symm.trans h
        exact ⟨t', hs⟩
      · simp [Request.signedAmount, ht, (Request.only_approval ht).1, hs, hsame.userId,
          hsame.amount]
  | setBalance owner balance =>
    obtain ⟨-, amount, wallet, hadj, hread, hnonneg, rfl⟩ := hmay
    obtain ⟨hsame, hdec, hnear⟩ :=
      hcond rfl _ hadj _ hread wallet.balance (by simp [balanceRead])
    obtain ⟨hr, ha⟩ : (requests i).movement = none ∧ (requests i).approval = none := by
      cases h : requests i <;>
        simp [h, Request.adjustment, Request.movement, Request.approval] at hadj ⊢
    refine ⟨fun t ht => by simp [ha] at ht, ?_⟩
    rw [balance_exec_setBalance (hI.read i owner wallet hread),
      toFixed_eq_of_near hnonneg hdec hnear]
    simp only [Request.signedAmount, hr, ha, hadj, Option.bind_none]
    split
    · rename_i ho
      subst ho
      rw [hsame]
    · rw [add_zero]
  | _ => simp [moves] at hm

theorem LedgerInvariant.step {initial : ℚ} {s : Store} {log : List LogEntry}
    (hI : LedgerInvariant requests initial userId s log) {i : ℕ} {op : WalletOp}
    {o : Outcome Exception} (hmay : (requests i).MayWith format False i (own i log) op)
    (hcond : (adjustsUnchanged format requests).call s log i op o) :
    LedgerInvariant requests initial userId (exec op s).2 (⟨i, op, (exec op s).1⟩ :: log) := by
  have hread (j : ℕ) (owner : String) (wallet : WalletDoc)
      (h : ⟨.findWallet owner, some wallet⟩ ∈ own j (⟨i, op, (exec op s).1⟩ :: log)) :
      ((exec op s).2.wallets owner).isSome := by
    apply wallets_exec_isSome op
    rcases mem_own_exec h with ⟨-, rfl, hreply⟩ | hold
    · exact Option.isSome_iff_exists.mpr ⟨wallet, hreply⟩
    · exact hI.read j owner wallet hold
  have hkeep (t : ℕ) (h : ∃ transaction : Transaction, s.transactions[t]? = some transaction) :
      ∃ transaction : Transaction, (exec op s).2.transactions[t]? = some transaction := by
    obtain ⟨transaction, hs⟩ := h
    obtain ⟨t', ht', -⟩ := record_exec op hs
    exact ⟨t', ht'⟩
  have hsum : ((writers log).map fun j => (requests j).signedAmount (exec op s).2 userId) =
      (writers log).map fun j => (requests j).signedAmount s userId :=
    List.map_congr_left fun j hj => signedAmount_exec op (hI.approved j hj)
  rcases hm : moves ⟨op, (exec op s).1⟩ with _ | _
  · refine ⟨hI.found.step i op, hread, ?_, ?_⟩
    · intro j hj t ht
      rw [writers_cons, hm] at hj
      exact hkeep t (hI.approved j hj t ht)
    · rw [writers_cons, hm, if_neg Bool.false_ne_true, hsum, balance_exec_of_not_moves hm]
      exact hI.balance
  · obtain ⟨happroved, hbalance⟩ := balance_exec_of_moves hI hmay hcond hm
    refine ⟨hI.found.step i op, hread, ?_, ?_⟩
    · intro j hj t ht
      rw [writers_cons, hm, if_pos rfl] at hj
      rcases List.mem_cons.mp hj with rfl | hj
      · exact hkeep t (happroved t ht)
      · exact hkeep t (hI.approved j hj t ht)
    · rw [writers_cons, hm, if_pos rfl, List.map_cons, List.sum_cons, hsum, hbalance, hI.balance,
        signedAmount_exec op happroved]
      ring

def hundred : Store := Store.empty.setWallet "member" ⟨"member", 100, "USD", none⟩

end Conservation

end StockMarket.Wallet
