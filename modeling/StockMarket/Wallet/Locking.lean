import StockMarket.Wallet.Effects
import StockMarket.Wallet.Service
import StockMarket.Interleaving.Lock

/-! # The wallet locks as entries with a token

`withLock` makes one attempt.
-/

namespace StockMarket.Wallet
open Interleaving Prog

def locks : Locks WalletOp WalletOp.Reply Store String ℕ where
  acquire := .setLock
  release := .evalRelease
  granted _ _ ok := ok
  entry s := s.locks

def Expires (y : Environment) (key : String) : Prop := y = .expire key

theorem lawful_locks : locks.Lawful backend Expires where
  acquire h := by
    cases h
    exact ⟨rfl, rfl⟩
  release h := by
    cases h
    exact ⟨rfl, rfl⟩
  acquire_release _ _ _ _ h := by cases h
  granted key token s := by
    cases hkey : s.locks key <;> simp [locks, backend, exec, hkey]
  acquired key token s := by
    cases hkey : s.locks key <;> simp [locks, backend, exec, hkey]
  released key token s := by
    by_cases h : s.locks key = some token <;> simp [locks, backend, exec, h]
  quiet op s hquiet := by
    rcases locks_exec op s with h | ⟨key, token, rfl, -⟩ | ⟨key, token, rfl, -⟩
    · exact h
    · exact absurd rfl (hquiet key token).1
    · exact absurd rfl (hquiet key token).2
  env y s key := by
    cases y with
    | tick ms => exact .inl rfl
    | expire key' =>
      by_cases h : key = key'
      · subst h
        exact .inr ⟨rfl, Function.update_self ..⟩
      · exact .inl (Function.update_of_ne h ..)

def locked : Exception := .serviceUnavailable
  "Wallet is currently locked by another operation. Please retry in a moment."

theorem withLock_eq_guard {α : Type} (uuid : ℕ) (userId : String) (fn : Call α) :
    LockService.withLock uuid userId fn = locks.guard (walletLock userId) [uuid] locked fn := by
  change Prog.call (WalletOp.setLock (walletLock userId) uuid) _ _ =
    Prog.call (WalletOp.setLock (walletLock userId) uuid) _ _
  congr 1
  funext ok
  cases ok <;> rfl

end StockMarket.Wallet
