import StockMarket.Wallet.Sequential
import StockMarket.Wallet.Inserts
import StockMarket.Interleaving.Sequence

/-! # The keys of manual adjustments

A manual adjustment makes its idempotency key of a fresh uuid, and every other
call writes a key of another kind.
-/

namespace StockMarket.Wallet
open Interleaving Prog

section Keys
variable {n : ℕ}

/-- The key of the `n`-th call if it is an adjustment, or a key of another kind. -/
def KeyOf (n : ℕ) (key : String) : Prop :=
  (∃ cmsUserId userId : String, key = s!"manual:{cmsUserId}:{userId}:{n}") ∨
    key.toList.head? ≠ some 'm'

/-- The keys of different calls differ where one of them is an adjustment's. -/
theorem KeyOf.ne {key : String} (h : KeyOf n key) {m : ℕ} (hnm : n ≠ m)
    (cmsUserId userId : String) : key ≠ s!"manual:{cmsUserId}:{userId}:{m}" := by
  rintro rfl
  rcases h with ⟨c, u, h⟩ | h
  · exact hnm (append_number_inj h).symm
  · simp [ToString.toString] at h

/-- The operation inserts no record but one with the call's own key. -/
def OwnKey (n : ℕ) (op : WalletOp) : Prop :=
  ∀ doc, op = .createTransaction doc → KeyOf n doc.idempotencyKey

/-- The key under which a checkout session is deposited: `initiateDeposit` makes
it and the webhook hands it back. -/
def StripeDepositInput.Initiated (input : StripeDepositInput) : Prop :=
  ∃ uuid : String, input.idempotencyKey = s!"deposit:{input.userId}:{uuid}"

theorem Request.sends_ownKey (withdrawalHoldHrs n : ℕ) (r : Request)
    (hr : ∀ input, r = .processStripeDeposit input → input.Initiated) :
    (r.serve withdrawalHoldHrs n).Sends (OwnKey n) := by
  apply (r.sends_inserts withdrawalHoldHrs n).mono
  intro op hop doc hdoc
  have hinserts := hop doc hdoc
  cases r with
  | processStripeDeposit input =>
    obtain ⟨initiated, hkey⟩ := hr input rfl
    apply Or.inr
    simp [hinserts.2.2, hkey, ToString.toString]
  | requestWithdrawal member dto =>
    apply Or.inr
    simp [hinserts.2.2, ToString.toString]
  | deduct dto =>
    apply Or.inr
    simp [hinserts.2.2, ToString.toString]
  | credit dto =>
    apply Or.inr
    simp [hinserts.2.2, ToString.toString]
  | manualAdjustment targetUserId amount justification cmsUserId =>
    exact .inl ⟨cmsUserId, targetUserId, hinserts.2.2⟩
  | ensureWallet owner => exact hinserts.elim
  | approveWithdrawal transactionId cmsUserId member => exact hinserts.elim
  | rejectWithdrawal transactionId reason cmsUserId member => exact hinserts.elim

/-- No adjustment numbered `n` or later has its key in the store yet. -/
def FreshKeys (n : ℕ) (s : Store) : Prop :=
  ∀ t ∈ s.transactions, ∀ m, n ≤ m → ∀ cmsUserId userId : String,
    t.idempotencyKey ≠ s!"manual:{cmsUserId}:{userId}:{m}"

theorem FreshKeys.exec {s : Store} (h : FreshKeys (n + 1) s) {op : WalletOp} (hop : OwnKey n op) :
    FreshKeys (n + 1) (exec op s).2 := by
  intro t ht m hm cmsUserId userId
  obtain ⟨id, hid⟩ := List.mem_iff_getElem?.mp ht
  rcases hold : s.transactions[id]? with _ | t₀
  · obtain ⟨doc, rfl, -, -, rfl⟩ := record_exec_new hold hid
    exact (hop doc rfl).ne (by omega) _ _
  · obtain ⟨t', ht', hsame, -⟩ := record_exec op hold
    cases hid.symm.trans ht'
    rw [hsame.idempotencyKey]
    exact h t₀ (List.mem_of_getElem? hold) m hm _ _

end Keys
end StockMarket.Wallet
