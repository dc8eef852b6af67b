import StockMarket.Wallet.Store

/-! # What an operation does to the store

For each part of the store, the operations that change it and how. Records
keep their owner, amount, type and key for good, and a settled record never
becomes pending again.
-/

namespace StockMarket.Wallet
open Interleaving

/-- The fields of a record that no update touches. -/
structure Transaction.Same (t t' : Transaction) : Prop where
  userId : t'.userId = t.userId
  type : t'.type = t.type
  amount : t'.amount = t.amount
  idempotencyKey : t'.idempotencyKey = t.idempotencyKey

theorem Transaction.Same.refl (t : Transaction) : t.Same t := ⟨rfl, rfl, rfl, rfl⟩

theorem Transaction.Same.trans {t₁ t₂ t₃ : Transaction} (h : t₁.Same t₂) (h' : t₂.Same t₃) :
    t₁.Same t₃ :=
  ⟨h'.userId.trans h.userId, h'.type.trans h.type, h'.amount.trans h.amount,
    h'.idempotencyKey.trans h.idempotencyKey⟩

theorem Transaction.same_setCmsUser (t : Transaction) (cmsUserId : Option String) :
    t.Same (t.setCmsUser cmsUserId) := by
  cases cmsUserId with
  | none => exact .refl t
  | some c =>
    rw [setCmsUser]
    split
    · exact .refl t
    · exact ⟨rfl, rfl, rfl, rfl⟩

@[simp] theorem Transaction.status_setCmsUser (t : Transaction) (cmsUserId : Option String) :
    (t.setCmsUser cmsUserId).status = t.status := by
  cases cmsUserId with
  | none => rfl
  | some c =>
    rw [setCmsUser]
    split <;> rfl

theorem TransactionUpdate.same_apply (now : Time) (t : Transaction) (set : TransactionUpdate) :
    t.Same (set.apply now t) := by
  cases set with
  | completed balanceAfter cmsUserId =>
    obtain ⟨hu, ht, ha, hk⟩ := Transaction.same_setCmsUser { t with
      status := .completed, balanceAfter := some balanceAfter, processedAt := some now } cmsUserId
    exact ⟨hu, ht, ha, hk⟩
  | rejected reason cmsUserId =>
    obtain ⟨hu, ht, ha, hk⟩ := Transaction.same_setCmsUser { t with
      status := .rejected, rejectionReason := some reason, processedAt := some now } cmsUserId
    exact ⟨hu, ht, ha, hk⟩

@[simp] theorem TransactionUpdate.status_apply (now : Time) (t : Transaction)
    (set : TransactionUpdate) : (set.apply now t).status = set.status := by
  cases set <;> simp [apply, status]

theorem TransactionUpdate.status_ne_pending (set : TransactionUpdate) : set.status ≠ .pending := by
  cases set <;> simp [status]

variable {op : WalletOp} {s : Store}

/-- What an operation can do to the store, and what that takes. -/
inductive Change (s : Store) : WalletOp → Store → Prop
  | nothing (op : WalletOp) : Change s op s
  | inserted (doc : Transaction) (fresh : ¬s.HasKey doc.idempotencyKey) :
      Change s (.createTransaction doc)
        { s with transactions := s.transactions ++ [{ doc with createdAt := s.now }] }
  | updated (transactionId : ℕ) (set : TransactionUpdate) :
      Change s (.updateTransaction transactionId set)
        { s with transactions := s.transactions.modify transactionId (set.apply s.now) }
  | opened (userId : String) (missing : s.wallets userId = none) :
      Change s (.ensureWallet userId) (s.setWallet userId (.fresh userId))
  | incremented (userId : String) (gte : Option ℚ) (amount : ℚ) (isDeposit : Bool) (w : WalletDoc)
      (found : s.wallets userId = some w) (covers : w.Covers gte) :
      Change s (.incBalance userId gte amount isDeposit)
        (s.setWallet userId (w.inc amount isDeposit s.now))
  | overwritten (userId : String) (balance : ℚ) (w : WalletDoc)
      (found : s.wallets userId = some w) :
      Change s (.setBalance userId balance) (s.setWallet userId { w with balance := balance })
  | locked (key : String) (token : ℕ) (free : s.locks key = none) :
      Change s (.setLock key token) { s with locks := Function.update s.locks key (some token) }
  | released (key : String) (token : ℕ) (own : s.locks key = some token) :
      Change s (.evalRelease key token) { s with locks := Function.update s.locks key none }
  | emitted (event : WalletEvent) : Change s (.emit event) { s with outbox := s.outbox ++ [event] }

theorem change_exec (op : WalletOp) (s : Store) : Change s op (exec op s).2 := by
  cases op with
  | createTransaction doc =>
    by_cases hk : s.HasKey doc.idempotencyKey
    · rw [exec, if_pos hk]
      exact .nothing _
    · rw [exec, if_neg hk]
      exact .inserted doc hk
  | updateTransaction transactionId set => exact .updated transactionId set
  | ensureWallet userId =>
    rcases hw : s.wallets userId with _ | w <;> simp only [exec, hw]
    · exact .opened userId hw
    · exact .nothing _
  | incBalance userId gte amount isDeposit =>
    rcases hw : s.wallets userId with _ | w <;> simp only [exec, hw]
    · exact .nothing _
    · by_cases hc : w.Covers gte
      · rw [if_pos hc]
        exact .incremented userId gte amount isDeposit w hw hc
      · rw [if_neg hc]
        exact .nothing _
  | setBalance userId balance =>
    rcases hw : s.wallets userId with _ | w <;> simp only [exec, hw]
    · exact .nothing _
    · exact .overwritten userId balance w hw
  | setLock key token =>
    rcases hk : s.locks key with _ | owner <;> simp only [exec, hk]
    · exact .locked key token hk
    · exact .nothing _
  | evalRelease key token =>
    by_cases hk : s.locks key = some token
    · rw [exec, if_pos hk]
      exact .released key token hk
    · rw [exec, if_neg hk]
      exact .nothing _
  | emit event => exact .emitted event
  | _ => exact .nothing _

/-- Records come in one by one at the end and are updated in place. -/
theorem transactions_exec (op : WalletOp) (s : Store) :
    (exec op s).2.transactions = s.transactions ∨
    (∃ doc, op = .createTransaction doc ∧ ¬s.HasKey doc.idempotencyKey ∧
      (exec op s).2.transactions = s.transactions ++ [{ doc with createdAt := s.now }]) ∨
    ∃ transactionId set, op = .updateTransaction transactionId set ∧
      (exec op s).2.transactions = s.transactions.modify transactionId (set.apply s.now) := by
  have hchange := change_exec op s
  generalize (exec op s).2 = s' at hchange ⊢
  cases hchange with
  | inserted doc hk => exact .inr (.inl ⟨doc, rfl, hk, rfl⟩)
  | updated transactionId set => exact .inr (.inr ⟨transactionId, set, rfl, rfl⟩)
  | _ => exact .inl rfl

/-- A record stays where it is and keeps its immutable fields. -/
theorem record_exec (op : WalletOp) {id : ℕ} {t : Transaction} (ht : s.transactions[id]? = some t) :
    ∃ t', (exec op s).2.transactions[id]? = some t' ∧ t.Same t' ∧
      (t'.status = t.status ∨
        ∃ set, op = .updateTransaction id set ∧ t'.status = set.status) := by
  rcases transactions_exec op s with h | ⟨doc, -, -, h⟩ | ⟨k, set, rfl, h⟩ <;> rw [h]
  · exact ⟨t, ht, .refl t, .inl rfl⟩
  · obtain ⟨hlt, -⟩ := List.getElem?_eq_some_iff.mp ht
    exact ⟨t, by rw [List.getElem?_append_left hlt, ht], .refl t, .inl rfl⟩
  · rw [List.getElem?_modify, ht]
    by_cases hk : k = id
    · subst hk
      exact ⟨set.apply s.now t, by simp, set.same_apply _ _, .inr ⟨set, rfl, by simp⟩⟩
    · exact ⟨t, by simp [hk], .refl t, .inl rfl⟩

/-- A record that was not there before is the one just created. -/
theorem record_exec_new {id : ℕ} {t : Transaction} (hnew : s.transactions[id]? = none)
    (ht : (exec op s).2.transactions[id]? = some t) :
    ∃ doc, op = .createTransaction doc ∧ ¬s.HasKey doc.idempotencyKey ∧
      id = s.transactions.length ∧ t = { doc with createdAt := s.now } := by
  have hlen := List.getElem?_eq_none_iff.mp hnew
  rcases transactions_exec op s with h | ⟨doc, rfl, hk, h⟩ | ⟨k, set, rfl, h⟩ <;> rw [h] at ht
  · simp [hnew] at ht
  · have hid : id = s.transactions.length := by
      have hlt := (List.getElem?_eq_some_iff.mp ht).1
      simp only [List.length_append, List.length_singleton] at hlt
      omega
    subst hid
    exact ⟨doc, rfl, hk, rfl, by simpa using ht.symm⟩
  · simp [List.getElem?_modify, hnew] at ht

theorem Store.hasKey_iff {key : String} :
    s.HasKey key ↔ ∃ (id : ℕ) (t : Transaction), s.transactions[id]? = some t ∧
      t.idempotencyKey = key := by
  constructor
  · rintro ⟨t, ht, hk⟩
    obtain ⟨id, hid⟩ := List.mem_iff_getElem?.mp ht
    exact ⟨id, t, hid, hk⟩
  · rintro ⟨id, t, ht, hk⟩
    exact ⟨t, List.mem_iff_getElem?.mpr ⟨id, ht⟩, hk⟩

theorem hasKey_exec (op : WalletOp) {key : String} (hk : s.HasKey key) :
    (exec op s).2.HasKey key := by
  obtain ⟨id, t, ht, rfl⟩ := Store.hasKey_iff.mp hk
  obtain ⟨t', ht', hsame, -⟩ := record_exec op ht
  exact Store.hasKey_iff.mpr ⟨id, t', ht', hsame.idempotencyKey⟩

/-- An insertion that is answered takes a key nobody had. -/
theorem exec_create_some {doc : Transaction} {id : ℕ}
    (h : (exec (.createTransaction doc) s).1 = some id) :
    ¬s.HasKey doc.idempotencyKey ∧
      (exec (.createTransaction doc) s).2.transactions[id]? =
        some { doc with createdAt := s.now } := by
  by_cases hk : s.HasKey doc.idempotencyKey
  · simp [exec, hk] at h
  · obtain rfl : s.transactions.length = id := by simpa [exec, hk] using h
    exact ⟨hk, by simp [exec, if_neg hk]⟩

/-- A lock changes hands only where its caller took it while it was free, or
gave back what was its own. -/
theorem locks_exec (op : WalletOp) (s : Store) :
    (exec op s).2.locks = s.locks ∨
    (∃ key token, op = .setLock key token ∧ s.locks key = none ∧
      (exec op s).2.locks = Function.update s.locks key (some token)) ∨
    ∃ key token, op = .evalRelease key token ∧ s.locks key = some token ∧
      (exec op s).2.locks = Function.update s.locks key none := by
  have hchange := change_exec op s
  generalize (exec op s).2 = s' at hchange ⊢
  cases hchange with
  | locked key token hk => exact .inr (.inl ⟨key, token, rfl, hk, rfl⟩)
  | released key token hk => exact .inr (.inr ⟨key, token, rfl, hk, rfl⟩)
  | _ => exact .inl rfl

end StockMarket.Wallet
