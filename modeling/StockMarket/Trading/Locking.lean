import StockMarket.Trading.Pool
import StockMarket.Trading.Atomicity
import StockMarket.Wallet.Locking

/-! # The member locks as entries with a token

`withMemberLock` makes up to three attempts, each with a token of its own.
-/

namespace StockMarket.Trading
open Interleaving Prog

def locks : Locks TradingOp TradingOp.Reply Store String Token where
  acquire := .setLock
  release := .evalRelease
  granted _ _ ok := ok
  entry s := s.locks

/-- A key reaches its TTL. -/
def Expires (y : Environment) (key : String) : Prop := y = .expire key

theorem lawful_locks (remote : Wallet.Faults) : locks.Lawful (backend remote) Expires where
  acquire h := by
    cases h
    exact ⟨rfl, rfl⟩
  release h := by
    cases h
    exact ⟨rfl, rfl⟩
  acquire_release _ _ _ _ h := by cases h
  granted key token s := by
    cases hkey : s.locks key <;> simp [locks, backend, exec, hkey]
  acquired key token s := by
    cases hkey : s.locks key <;> simp [locks, backend, exec, hkey]
  released key token s := by
    by_cases h : s.locks key = some token <;> simp [locks, backend, exec, h]
  quiet op s hquiet := by
    cases op with
    | setLock key token => exact absurd rfl (hquiet key token).1
    | evalRelease key token => exact absurd rfl (hquiet key token).2
    | incPosition memberId stockId gte shares =>
      simp only [locks, backend, exec]
      repeat' split
      all_goals rfl
    | createPosition memberId stockId doc =>
      simp only [locks, backend, exec]
      split <;> rfl
    | updatePosition memberId stockId shares avgBuyPrice totalInvested =>
      simp only [locks, backend, exec]
      split <;> rfl
    | _ => rfl
  env y s key := by
    cases y with
    | expire key' =>
      by_cases h : key = key'
      · subst h
        exact .inr ⟨rfl, Function.update_self ..⟩
      · exact .inl (Function.update_of_ne h ..)
    | _ => exact .inl rfl

/-- What is thrown when the lock is held at the last attempt. -/
def locked : Exception :=
  .conflict "Another operation is in progress. Please retry in a moment."

def attempts (uuid : ℕ) : List Token := [(uuid, 0), (uuid, 1), (uuid, 2)]

theorem withMemberLock_eq_guard {α : Type} (uuid : ℕ) (memberId : String) (fn : Call α) :
    LockService.withMemberLock uuid memberId fn =
      locks.guard (RedisKeys.memberLock memberId) (attempts uuid) locked fn := by
  change Prog.call (TradingOp.setLock (RedisKeys.memberLock memberId) (uuid, 0)) _ _ =
    Prog.call (TradingOp.setLock (RedisKeys.memberLock memberId) (uuid, 0)) _ _
  congr 1
  funext ok
  cases ok with
  | true => rfl
  | false =>
    change Prog.call (TradingOp.setLock (RedisKeys.memberLock memberId) (uuid, 1)) _ _ =
      Prog.call (TradingOp.setLock (RedisKeys.memberLock memberId) (uuid, 1)) _ _
    congr 1
    funext ok
    cases ok with
    | true => rfl
    | false =>
      change Prog.call (TradingOp.setLock (RedisKeys.memberLock memberId) (uuid, 2)) _ _ =
        Prog.call (TradingOp.setLock (RedisKeys.memberLock memberId) (uuid, 2)) _ _
      congr 1
      funext ok
      cases ok <;> rfl

/-- Calls under the wallet locks and calls under the member locks exclude each other, each kind
by its own keys. -/
theorem locks_exclude {α β : Type} (remote : Wallet.Faults) (uuid : ℕ → ℕ)
    (huuid : Function.Injective uuid) (userId : ℕ → String) (fn : ℕ → Wallet.Call α)
    (hfn : ∀ i, (fn i).Sends Wallet.locks.Quiet) (wallets : Wallet.Store)
    (walletSchedule : Wallet.Schedule) (memberId : ℕ → String) (order : ℕ → Call β)
    (horder : ∀ i, (order i).Sends locks.Quiet) (store : Store) (schedule : Schedule) :
    Locks.MutualExclusion Wallet.locks Wallet.backend Wallet.Expires
        (fun i => Wallet.walletLock (userId i)) (fun i => [uuid i]) Wallet.locked fn
        (fun i => Wallet.LockService.withLock (uuid i) (userId i) (fn i)) wallets walletSchedule ∧
      Locks.MutualExclusion locks (backend remote) Expires
        (fun i => RedisKeys.memberLock (memberId i)) (fun i => attempts (uuid i)) locked order
        (fun i => LockService.withMemberLock (uuid i) (memberId i) (order i)) store schedule := by
  constructor
  · simp only [Wallet.withLock_eq_guard]
    refine Locks.mutualExclusion Wallet.lawful_locks hfn ?_ wallets
      walletSchedule
    intro i j token hi hj
    exact huuid ((List.mem_singleton.mp hi).symm.trans (List.mem_singleton.mp hj))
  · simp only [withMemberLock_eq_guard]
    refine Locks.mutualExclusion (lawful_locks remote) horder ?_ store
      schedule
    intro i j token hi hj
    have hfirst {k : ℕ} (h : token ∈ attempts (uuid k)) : token.1 = uuid k := by
      simp only [attempts, List.mem_cons, List.not_mem_nil, or_false] at h
      rcases h with rfl | rfl | rfl <;> rfl
    exact huuid ((hfirst hi).symm.trans (hfirst hj))

/-- A client that reads while it has the lock, and one that is refused meanwhile. -/
theorem locks_exclude_reader :
    Locks.MutualExclusion Wallet.locks Wallet.backend Wallet.Expires
        (fun _ => Wallet.walletLock "m") (fun i => [i]) Wallet.locked
        (fun _ => Wallet.query (.findWallet "m"))
        (fun i => Wallet.LockService.withLock i "m" (Wallet.query (.findWallet "m")))
        sampleStore.wallet [.step 0 .done, .step 1 .done, .step 0 .done, .step 0 .done] ∧
      Locks.MutualExclusion locks (backend Wallet.answered) Expires
        (fun _ => RedisKeys.memberLock "m") attempts locked
        (fun _ => query (.findPosition "m" "s"))
        (fun i => LockService.withMemberLock i "m" (query (.findPosition "m" "s")))
        sampleStore [.step 0 .done, .step 1 .done, .step 0 .done, .step 0 .done] := by
  refine locks_exclude Wallet.answered id Function.injective_id (fun _ => "m") _ (fun _ => ?_) _ _
    (fun _ => "m") _ (fun _ => ?_) _ _
  · exact ⟨fun _ _ => ⟨nofun, nofun⟩, fun _ => trivial, fun _ => trivial⟩
  · exact ⟨fun _ _ => ⟨nofun, nofun⟩, fun _ => trivial, fun _ => trivial⟩

end StockMarket.Trading
