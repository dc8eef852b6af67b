import StockMarket.Wallet.Sequential

/-! # The ledger of a wallet

What a user's COMPLETED records add up to, and how far the balance is from it.
A single operation moves that gap in few ways.
-/

namespace StockMarket.Wallet
open Interleaving Prog

/-- The sum of the amounts of the user's COMPLETED records of these types. -/
def Store.total (s : Store) (userId : String) (types : List TransactionType) : ℚ :=
  ((s.transactions.filter fun t =>
    t.userId = userId ∧ t.status = .completed ∧ t.type ∈ types).map Transaction.amount).sum

/-- The balance is what the COMPLETED records say. -/
def Reconciles (s : Store) (userId : String) : Prop :=
  s.balance userId = s.total userId [.deposit, .sell, .manualCredit] -
    s.total userId [.buy, .withdrawal, .manualDebit]

instance (s : Store) (userId : String) : Decidable (Reconciles s userId) :=
  inferInstanceAs (Decidable (_ = _))

/-- Whether a COMPLETED record of the type adds or takes. -/
def TransactionType.sign : TransactionType → ℚ
  | .deposit => 1
  | .sell => 1
  | .manualCredit => 1
  | .buy => -1
  | .withdrawal => -1
  | .manualDebit => -1
  | .adjustment => 0

def Transaction.entry (userId : String) (t : Transaction) : ℚ :=
  if t.userId = userId ∧ t.status = .completed then t.type.sign * t.amount else 0

/-- The sum of the contributions of all records. -/
def ledger (transactions : List Transaction) (userId : String) : ℚ :=
  (transactions.map (Transaction.entry userId)).sum

/-- What the balance exceeds the ledger by. -/
def gap (s : Store) (userId : String) : ℚ := s.balance userId - ledger s.transactions userId

section Ledger
variable {userId : String}

theorem ledger_eq_total (s : Store) (userId : String) :
    ledger s.transactions userId = s.total userId [.deposit, .sell, .manualCredit] -
      s.total userId [.buy, .withdrawal, .manualDebit] := by
  simp only [ledger, Store.total]
  induction s.transactions with
  | nil => simp
  | cons t l ih =>
    rw [List.map_cons, List.sum_cons, ih, Transaction.entry]
    by_cases h : t.userId = userId ∧ t.status = .completed
    · rw [if_pos h]
      cases ht : t.type <;> simp [h.1, h.2, ht, TransactionType.sign] <;> ring
    · rw [if_neg h, List.filter_cons_of_neg (by simpa using fun hu hs => absurd ⟨hu, hs⟩ h),
        List.filter_cons_of_neg (by simpa using fun hu hs => absurd ⟨hu, hs⟩ h), zero_add]

theorem reconciles_iff_gap (s : Store) (userId : String) :
    Reconciles s userId ↔ gap s userId = 0 := by
  rw [Reconciles, gap, ledger_eq_total, sub_eq_zero]

theorem ledger_append (l : List Transaction) (t : Transaction) :
    ledger (l ++ [t]) userId = ledger l userId + t.entry userId := by
  simp [ledger]

theorem gap_congr {s s' : Store} (hw : s'.wallets = s.wallets)
    (ht : s'.transactions = s.transactions) : gap s' userId = gap s userId := by
  rw [gap, gap, Store.balance, hw, ht, Store.balance]

/-- The operations that touch neither a wallet nor a record. -/
def WalletOp.quiet : WalletOp → Bool
  | .createTransaction _ => false
  | .updateTransaction _ _ => false
  | .ensureWallet _ => false
  | .incBalance _ _ _ _ => false
  | .setBalance _ _ => false
  | _ => true

/-- Overwriting a balance, then inserting a completed record. -/
theorem gap_entered {s : Store} {owner : String} {w : WalletDoc} (doc : Transaction) (balance : ℚ)
    (hw : s.wallets owner = some w) (hfresh : ¬s.HasKey doc.idempotencyKey)
    (howner : doc.userId = owner) (hstatus : doc.status = .completed) :
    gap (exec (.createTransaction doc) (s.setWallet owner { w with balance := balance })).2 userId =
      gap s userId +
        if owner = userId then balance - (w.balance + doc.type.sign * doc.amount) else 0 := by
  have hentry : Transaction.entry userId { doc with createdAt := s.now } =
      if owner = userId then doc.type.sign * doc.amount else 0 := by
    simp [Transaction.entry, howner, hstatus]
  have hno : ¬(s.setWallet owner { w with balance := balance }).HasKey doc.idempotencyKey := hfresh
  have hsplit : gap (exec (.createTransaction doc)
      (s.setWallet owner { w with balance := balance })).2 userId =
        (s.setWallet owner { w with balance := balance }).balance userId -
          ledger (s.transactions ++ [{ doc with createdAt := s.now }]) userId := by
    rw [exec, if_neg hno]
    rfl
  rw [hsplit, ledger_append, hentry, balance_setWallet, gap]
  by_cases hu : owner = userId
  · subst hu
    rw [if_pos rfl, if_pos rfl, if_pos rfl, Store.balance, hw, Option.elim_some]
    ring
  · rw [if_neg hu, if_neg hu, if_neg hu]
    ring

end Ledger
end StockMarket.Wallet
