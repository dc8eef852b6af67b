import StockMarket.Wallet.Protocol
import StockMarket.Wallet.Effects

/-! # The log of a wallet run

What the log says about its callers, and how a new entry changes what a call
has created, found or holds.
-/

namespace StockMarket.Wallet
open Interleaving Prog

/-- An operation the store has carried out, with its caller. -/
abbrev LogEntry := Entry ℕ WalletOp WalletOp.Reply

/-- Nothing is assumed of a schedule: calls throw and crash, locks expire. -/
def unrestricted : Assumption ℕ WalletOp WalletOp.Reply Store Environment Exception where
  call _ _ _ _ _ := True
  env _ := True

theorem along_unrestricted (c : State) (sched : Schedule) :
    unrestricted.Along backend c sched :=
  Assumption.along_of_forall backend unrestricted (fun _ _ _ _ _ => trivial) (fun _ => trivial) c
    sched

theorem fits_of_unreliable (A : Assumption ℕ WalletOp WalletOp.Reply Store Environment Exception)
    (requests : ℕ → Request) : A.Fits (protocol False requests) :=
  fun _ _ _ _ _ _ hf => hf.elim

/-- The one way a call with a movement changes a balance. -/
theorem Request.May.move {reliable : Prop} {uuid : ℕ} {r : Request} {h : History} {op : WalletOp}
    {x : op.Reply} {m : Movement} (hmay : r.May reliable uuid h op)
    (hmoves : moves ⟨op, x⟩ = true) (hm : r.movement = some m) :
    op = .incBalance m.userId m.gte m.amount m.isDeposit ∧ ¬Tried h ∧
      ∃ transactionId, Created h transactionId m.key := by
  obtain ⟨happ, -, hadj⟩ := Request.only_movement hm
  cases op with
  | incBalance userId gte amount isDeposit =>
    obtain ⟨htried, ⟨m', hm', rfl, rfl, rfl, rfl, hc⟩ | ⟨t, _, ht, -⟩⟩ := hmay
    · cases hm.symm.trans hm'
      exact ⟨rfl, htried, hc⟩
    · simp [happ] at ht
  | setBalance userId balance =>
    obtain ⟨-, _, _, ha, -⟩ := hmay
    simp [hadj] at ha
  | _ => simp [moves] at hmoves

section Entries
variable {i j : ℕ} {log : List LogEntry} {op : WalletOp} {s : Store} {id : ℕ} {key : String}

theorem own_log_cons {x : Reaction WalletOp WalletOp.Reply} (e : LogEntry)
    (hx : x ∈ own i log) : x ∈ own i (e :: log) :=
  mem_own_cons.mpr (.inr hx)

theorem Created.log_cons (e : LogEntry) (h : Created (own i log) id key) :
    Created (own i (e :: log)) id key := by
  obtain ⟨doc, hk, hd⟩ := h
  exact ⟨doc, hk, own_log_cons e hd⟩

/-- An insertion in the extended log is an old one, or the one just answered. -/
theorem Created.of_log_cons (h : Created (own i (⟨j, op, (exec op s).1⟩ :: log)) id key) :
    Created (own i log) id key ∨
      ∃ doc, j = i ∧ op = .createTransaction doc ∧ doc.idempotencyKey = key ∧
        ¬s.HasKey doc.idempotencyKey ∧
        (exec op s).2.transactions[id]? = some { doc with createdAt := s.now } := by
  obtain ⟨doc, rfl, hd⟩ := h
  rcases mem_own_exec hd with ⟨hj, rfl, hreply⟩ | hold
  · exact .inr ⟨doc, hj, rfl, rfl, exec_create_some hreply⟩
  · exact .inl ⟨doc, rfl, hold⟩

/-- Whoever has taken a lock and not released it is its owner in the store. -/
def LocksHeld (s : Store) (log : List LogEntry) : Prop :=
  ∀ i key, Holds i key (own i log) → s.locks key = some i

theorem holds_cons_of_ne {x : Reaction WalletOp WalletOp.Reply}
    (hx : ∀ key token, x.op ≠ .setLock key token ∧ x.op ≠ .evalRelease key token) {h : History} :
    Holds i key (x :: h) ↔ Holds i key h := by
  obtain ⟨op, reply⟩ := x
  cases op with
  | setLock k token => exact absurd rfl (hx k token).1
  | evalRelease k token => exact absurd rfl (hx k token).2
  | _ => rfl

theorem Holds.of_cons {x : Reaction WalletOp WalletOp.Reply} {h : History}
    (hh : Holds i key (x :: h)) : Holds i key h ∨ ∃ lock token, x.op = .setLock lock token := by
  obtain ⟨op, reply⟩ := x
  cases op with
  | setLock lock token => exact .inr ⟨lock, token, rfl⟩
  | evalRelease lock token => exact .inl hh.2
  | _ => exact .inl hh

theorem LocksHeld.step {reliable : Prop} {r : Request} (hI : LocksHeld s log)
    (hmay : r.May reliable i (own i log) op) :
    LocksHeld (exec op s).2 (⟨i, op, (exec op s).1⟩ :: log) := by
  intro j k hk
  have hother (hj : i ≠ j) : Holds j k (own j log) := by rwa [own_cons_ne hj] at hk
  cases op with
  | setLock lock token =>
    obtain ⟨rfl, -⟩ := hmay
    rcases hlock : s.locks lock with _ | owner
    · -- nobody holds the lock that has just been taken
      have hold (hk : Holds j k (own j log)) :
          Function.update s.locks lock (some token) k = some j := by
        rw [Function.update_of_ne (fun h => by simp [← h, hI j k hk] at hlock), hI j k hk]
      simp only [exec, hlock] at hk ⊢
      by_cases hj : token = j
      · subst hj
        rw [own_cons_self] at hk
        rcases hk with ⟨rfl, -, -⟩ | hk
        · exact Function.update_self ..
        · exact hold hk
      · exact hold (hother hj)
    · simp only [exec, hlock] at hk ⊢
      by_cases hj : token = j
      · subst hj
        rw [own_cons_self] at hk
        rcases hk with ⟨-, -, hfalse⟩ | hk
        · cases hfalse
        · exact hI _ k hk
      · exact hI j k (hother hj)
  | evalRelease lock token =>
    obtain ⟨rfl, -⟩ := hmay
    have hheld : Holds j k (own j log) ∧ (s.locks lock = some token → k ≠ lock) := by
      by_cases hj : token = j
      · subst hj
        rw [own_cons_self] at hk
        exact ⟨hk.2, fun _ => Ne.symm hk.1⟩
      · refine ⟨hother hj, fun hlock h => hj ?_⟩
        subst h
        exact Option.some.inj (hlock.symm.trans (hI j k (hother hj)))
    obtain ⟨hh, hne⟩ := hheld
    by_cases hlock : s.locks lock = some token
    · simp only [exec, if_pos hlock]
      rw [Function.update_of_ne (hne hlock), hI j k hh]
    · simp only [exec, if_neg hlock]
      exact hI j k hh
  | _ =>
    have hh : Holds j k (own j log) := by
      by_cases hj : i = j
      · subst hj
        rw [own_cons_self] at hk
        exact (holds_cons_of_ne (by simp)).mp hk
      · exact hother hj
    rcases locks_exec _ s with h | ⟨_, _, h, -⟩ | ⟨_, _, h, -⟩
    · rw [h, hI j k hh]
    · cases h
    · cases h

/-- A record that was found is still there, with the same immutable fields. -/
def FoundStored (s : Store) (log : List LogEntry) : Prop :=
  ∀ i id t, Found (own i log) id t → ∃ t', s.transactions[id]? = some t' ∧ t.Same t'

theorem FoundStored.step (hI : FoundStored s log) (j : ℕ) (op : WalletOp) :
    FoundStored (exec op s).2 (⟨j, op, (exec op s).1⟩ :: log) := by
  intro i id t hf
  have hstored : ∃ t', s.transactions[id]? = some t' ∧ t.Same t' := by
    rcases mem_own_exec hf with ⟨-, rfl, hreply⟩ | hold
    · exact ⟨t, hreply, .refl t⟩
    · exact hI i id t hold
  obtain ⟨t', ht', hsame⟩ := hstored
  obtain ⟨t'', ht'', hsame', -⟩ := record_exec op ht'
  exact ⟨t'', ht'', hsame.trans hsame'⟩

end Entries

end StockMarket.Wallet
