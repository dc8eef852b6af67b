import StockMarket.Wallet.Completions

/-! # The ledger under the wallet's calls

A call that keeps a user's COMPLETED records, or completes one, leaves the gap
between balance and ledger as it was; a manual adjustment moves it by what it
rounds away.
-/

namespace StockMarket.Wallet
open Interleaving Prog

section Ledger
variable {userId : String} {s s' : Store}

theorem sum_map_eq_sum_getElem? {γ : Type} (f : γ → ℚ) {l : List γ} {n : ℕ} (hn : l.length ≤ n) :
    (l.map f).sum = ∑ i ∈ Finset.range n, l[i]?.elim 0 f := by
  induction l generalizing n with
  | nil => simp
  | cons a l ih =>
    cases n with
    | zero => cases hn
    | succ n =>
      rw [Finset.sum_range_succ', List.map_cons, List.sum_cons, ih (Nat.le_of_succ_le_succ hn)]
      simp [add_comm]

theorem ledger_eq_sum (userId : String) {n : ℕ} (hn : s.transactions.length ≤ n) :
    ledger s.transactions userId = ∑ id ∈ Finset.range n,
      (s.completed userId id).elim 0 fun t => t.type.sign * t.amount := by
  rw [ledger, sum_map_eq_sum_getElem? _ hn]
  refine Finset.sum_congr rfl ?_
  intro id _
  rw [Store.completed]
  rcases s.transactions[id]? with _ | t
  · rfl
  · by_cases h : t.userId = userId ∧ t.status = .completed
    · simp [Transaction.entry, Option.filter, h]
    · simp [Transaction.entry, Option.filter, h]

theorem Kept.gap_eq (h : Kept userId s s') : gap s' userId = gap s userId := by
  rw [gap, gap, h.balance, ledger_eq_sum userId (le_max_left s'.transactions.length
    s.transactions.length), ledger_eq_sum userId (le_max_right s'.transactions.length
    s.transactions.length), h.records]

/-- The record that is completed enters what the balance is moved by. -/
theorem Settles.gap_eq {timely : Prop} (h : Settles userId timely s s') :
    gap s' userId = gap s userId := by
  rcases h with ⟨hkept, -⟩ | ⟨id, t, hopen, hrecords, hmoved, -⟩
  · exact hkept.gap_eq
  obtain ⟨n, hs, hs', hid⟩ : ∃ n, s.transactions.length ≤ n ∧ s'.transactions.length ≤ n ∧ id < n :=
    ⟨s.transactions.length + s'.transactions.length + (id + 1), by omega, by omega, by omega⟩
  have hdiff : ledger s'.transactions userId - ledger s.transactions userId =
      t.type.sign * t.amount := by
    rw [ledger_eq_sum userId hs', ledger_eq_sum userId hs, ← Finset.sum_sub_distrib,
      Finset.sum_eq_single id (fun j _ hj => ?_) fun h => absurd (Finset.mem_range.mpr hid) h]
    · simp [hrecords, hopen]
    · rw [hrecords, Function.update_of_ne hj, sub_self]
  rw [gap, gap, hmoved, ← hdiff]
  ring

end Ledger

section Adjustment
variable {userId : String}

theorem bookkept_gap (userId : String) (g : ℚ) : Bookkept fun s => gap s userId = g :=
  fun _ _ hw ht h => (gap_congr hw ht).trans h

theorem gap_create_entered (input : CreateTransactionInput) {s : Store} {owner : String}
    {w : WalletDoc} {balance : ℚ} (hw : s.wallets owner = some w)
    (hfresh : ¬s.HasKey input.idempotencyKey) (howner : input.userId = owner)
    (hstatus : input.status = .completed) :
    gap ((TransactionService.create input).run exec answered
      (s.setWallet owner { w with balance := balance })).2 userId = gap s userId +
        if owner = userId then balance - (w.balance + input.type.sign * input.amount) else 0 := by
  refine Eq.trans ?_ (gap_entered input.doc balance hw hfresh howner hstatus)
  rw [TransactionService.create, run_query]
  split <;> rfl

/-- What an adjustment of the user's wallet rounds away when it writes. -/
def rounding (s : Store) (userId : String) : Event Request Environment → ℚ
  | .call (.manualAdjustment targetUserId amount _ _) =>
      if targetUserId = userId ∧ s.locks (walletLock userId) = none ∧ (s.wallets userId).isSome ∧
          0 ≤ s.balance userId + amount then
        toFixed 6 (s.balance userId + amount) - (s.balance userId + amount)
      else 0
  | _ => 0

/-- A manual adjustment enters the amount it was given. -/
theorem gap_manualAdjustment (uuid : ℕ) (targetUserId : String) (amount : ℚ)
    (justification cmsUserId : String) (s : Store)
    (hfresh : ¬s.HasKey s!"manual:{cmsUserId}:{targetUserId}:{uuid}") :
    gap ((WalletService.manualAdjustment uuid targetUserId amount justification cmsUserId).run exec
      answered s).2 userId = gap s userId +
        rounding s userId
          (.call (.manualAdjustment targetUserId amount justification cmsUserId)) := by
  refine (bookkept_gap userId _).withLock uuid _ _ ?_ ?_
  swap
  · intro hheld
    rw [rounding, if_neg (by rintro ⟨rfl, h, -⟩; exact hheld h), add_zero]
  intro hfree
  refine run_getWallet (P := fun x => gap x userId = _) _ ?_ ?_
  · intro hnone
    have hw : s.wallets targetUserId = none := hnone
    rw [rounding, if_neg (by rintro ⟨rfl, -, h, -⟩; simp [hw] at h), add_zero]
    rfl
  intro wallet hsome
  have hw : s.wallets targetUserId = some wallet := hsome
  have hbalance : s.balance targetUserId = wallet.balance := by simp [Store.balance, hw]
  dsimp only [Rounding.Format.exact_read, Rounding.Format.exact_print]
  split
  · rename_i hneg
    rw [rounding, if_neg (by rintro ⟨rfl, -, -, h⟩; rw [hbalance] at h; linarith), add_zero]
    rfl
  rename_i hnonneg
  rw [run_query]
  simp only [exec, hw]
  rw [run_query]
  have hsign : (if 0 ≤ amount then TransactionType.manualCredit else .manualDebit).sign * |amount| =
      amount := by
    split
    · rename_i h
      exact (one_mul _).trans (abs_of_nonneg h)
    · rename_i h
      rw [abs_of_neg (not_le.mp h)]
      exact neg_mul_neg 1 amount |>.trans (one_mul amount)
  refine (bookkept_gap userId _).bind_quiet (fun _ => ?_) ?_
  · trivial
  apply (gap_create_entered _ (by exact hw) (by exact hfresh) rfl rfl).trans
  rw [hsign, rounding]
  by_cases hu : targetUserId = userId
  · subst hu
    rw [if_pos rfl, if_pos ⟨rfl, hfree, by simp [hw], by rw [hbalance]; exact not_lt.mp hnonneg⟩,
      hbalance]
    rfl
  · rw [if_neg hu, if_neg fun h => hu h.1]
    rfl

end Adjustment
end StockMarket.Wallet
