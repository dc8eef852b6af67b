import StockMarket.Trading.LockedOrders
import StockMarket.Trading.Atomicity

/-! # Shares and cash under the member lock

A buy or sell is outside its member's lock in the beginning and at the end, and
holds it while it works on the account. So the account of a member whose orders
are at rest is settled.
-/

namespace StockMarket.Trading
open Interleaving Prog OrderService Monitor

section Lock
variable {remote : Wallet.Faults} {opening : String → ℚ} {i : ℕ} {memberId : String}

/-- Outside its member's lock in the beginning and at the end. -/
abbrev KeepsLock (remote : Wallet.Faults) (opening : String → ℚ) (i : ℕ) (memberId : String)
    {α : Type} (p : Call α) : Prop :=
  accounts.Guarded (backend remote) (Dependable remote) (fun m a => a.Settled (opening m)) i
    memberId (fun m _ => m = none) p none

/-- With the lock comes a settled account. -/
def Entered (opening : String → ℚ) (i : ℕ) (memberId : String) (m : Option Account) :
    Option Token → Prop
  | some token => token.1 = i ∧ ∃ a, m = some a ∧ a.Settled (opening memberId)
  | none => m = none

theorem holder_update_ne {s : Store} {owner : Option Token} {memberId other : String}
    (h : other ≠ memberId) :
    accounts.holder other
      { s with locks := Function.update s.locks (RedisKeys.memberLock memberId) owner } =
      accounts.holder other s := by
  have hkey : RedisKeys.memberLock other ≠ RedisKeys.memberLock memberId :=
    fun heq => h (memberLock_inj heq)
  simp only [accounts, Function.update_of_ne hkey]

theorem bids_setLock (memberId : String) (token : Token) : accounts.Bids (backend remote) token.1
    memberId (.setLock (RedisKeys.memberLock memberId) token) (· = true) := by
  intro s
  rcases hlock : s.locks (RedisKeys.memberLock memberId) with _ | owner
  · have hnone : accounts.holder memberId s = none := by simp [accounts, hlock]
    simp only [backend, exec, hlock]
    refine ⟨fun _ => rfl, fun other hother => holder_update_ne hother, .inr hnone, fun _ =>
      ⟨hnone, ?_⟩⟩
    simp [accounts]
  · simp only [backend, exec, hlock]
    exact ⟨fun _ => rfl, fun _ _ => trivial, .inl trivial, fun h => by cases h⟩

theorem releases_evalRelease (memberId : String) (token : Token) :
    accounts.Releases (backend remote) token.1 memberId
      (.evalRelease (RedisKeys.memberLock memberId) token) := by
  intro s
  by_cases hlock : s.locks (RedisKeys.memberLock memberId) = some token
  · simp only [backend, exec, hlock, if_true]
    exact ⟨fun _ => rfl, fun other hother => holder_update_ne hother,
      .inr (by simp [accounts, hlock])⟩
  · simp only [backend, exec, hlock, if_false]
    exact ⟨fun _ => rfl, fun _ _ => trivial, .inl trivial⟩

theorem guarded_acquire (memberId : String) (left : ℕ) :
    accounts.Guarded (backend remote) (Dependable remote) (fun m a => a.Settled (opening m)) i
      memberId (fun m res => match res with
        | .ok token => Entered opening i memberId m token
        | .error _ => m = none) (LockService.acquire i memberId left) none := by
  induction left with
  | zero => exact rfl
  | succ left ih =>
    refine guarded_bid (bids_setLock memberId (i, LockService.maxRetries - (left + 1))) ?_ ?_
      fun e => rfl
    · rintro _ rfl a ha
      exact ⟨rfl, a, rfl, ha⟩
    · intro ok hok
      rw [Bool.not_eq_true] at hok
      subst hok
      exact ih

theorem guarded_acquireOrThrow (memberId : String) :
    accounts.Guarded (backend remote) (Dependable remote) (fun m a => a.Settled (opening m)) i
      memberId (fun m res => match res with
        | .ok token => Entered opening i memberId m (some token)
        | .error _ => m = none) (LockService.acquireOrThrow i memberId) none := by
  refine Guarded.bind (guarded_acquire memberId _) ?_ fun _ _ h => h
  intro m token htoken
  cases token <;> exact htoken

/-- A body that keeps the account settled, under the lock. -/
theorem keepsLock_withMemberLock {α : Type} {fn : Call α}
    (hfn : ∀ a : Account, a.Settled (opening memberId) →
      Works remote opening i memberId (fun a' _ => a'.Settled (opening memberId)) fn a) :
    KeepsLock remote opening i memberId (LockService.withMemberLock i memberId fn) := by
  refine Guarded.bind (guarded_acquireOrThrow memberId) ?_ fun _ _ h => h
  rintro _ token ⟨rfl, a, rfl, ha⟩
  apply Guarded.handle (hfn a ha)
  rintro _ res ⟨a', rfl, ha'⟩
  refine guarded_release ha' (releases_evalRelease memberId token) ?_ fun _ => rfl
  intro _
  cases res <;> rfl

theorem keepsLock_order {α : Type} {findStock : Call Stock} {body : Trader → Stock → Call α}
    (hfind : findStock.Sends fun op => op.passive)
    (hbody : ∀ trader stock, ∀ a : Account, a.Settled (opening memberId) →
      Works remote opening i memberId (fun a' _ => a'.Settled (opening memberId))
        (body trader stock) a) :
    KeepsLock remote opening i memberId (do
      let trader ← TraderService.assertCanTrade memberId
      let stock ← findStock
      LockService.withMemberLock i memberId (body trader stock)) := by
  have hquiet {β : Type} {p : Call β} (hp : p.Sends fun op => op.passive) :
      KeepsLock remote opening i memberId p := guarded_of_quiet (hp.mono (quiet_of_passive remote))
  refine Guarded.bind (hquiet (assertCanTrade_passive memberId)) ?_ fun _ _ h => h
  rintro _ trader rfl
  refine Guarded.bind (hquiet hfind) ?_ fun _ _ h => h
  rintro _ stock rfl
  exact keepsLock_withMemberLock (hbody trader stock)

theorem keepsLock_serve (remote : Wallet.Faults) (opening : String → ℚ) (uuid : ℕ) (r : Request) :
    KeepsLock remote opening uuid r.memberId (r.serve uuid) := by
  cases r with
  | buy memberId dto =>
    exact keepsLock_order (findListedById_passive dto.stockId) fun _ _ _ ha => works_buyLocked ha
  | sell memberId dto =>
    exact keepsLock_order (findById_passive dto.stockId) fun _ _ _ ha => works_sellLocked ha

end Lock

/-- Every buy and sell of the member has not begun or has ended. A call that has
died never ends. -/
def AtRest (requests : ℕ → Request) (memberId : String) (c : State) : Prop :=
  ∀ i, (requests i).memberId = memberId → own i c.log = [] ∨ (c.result i).isSome

/-- Shares and cash are conserved: whenever a member's orders are at rest, the
positions and the wallet are what the EXECUTED orders make them. -/
theorem settled_at_rest (remote : Wallet.Faults) (store : Store) (requests : ℕ → Request)
    (hstart : store.orders = [] ∧ store.positions = ∅) (sched : Schedule)
    (hs : (dependable remote).Along (backend remote) (State.start store requests) sched)
    (memberId : String)
    (hrest : AtRest requests memberId ((State.start store requests).run (backend remote) sched)) :
    (((State.start store requests).run (backend remote) sched).store.account memberId).Settled
      (store.wallet.balance memberId) := by
  have hopening (memberId : String) :
      (store.account memberId).Settled (store.wallet.balance memberId) := by
    obtain ⟨horders, hpositions⟩ := hstart
    have hposition (stockId : String) : (store.account memberId).positions stockId = none := by
      simp [Store.account, Store.position, hpositions]
    have hnone : (store.account memberId).orders = [] := by
      simp [Store.account, Store.ordersOf, horders]
    refine ⟨?_, ?_, ?_, ?_⟩
    · intro stockId
      simp [Account.shares, hposition, Account.executedShares, hnone]
    · intro stockId
      simp [hposition, Account.executedShares, hnone]
    · rw [Account.executedCash, hnone]
      exact (add_zero _).symm
    · intro entry hentry
      rw [hnone] at hentry
      cases hentry
  have hquiet (y : Environment) (hy : (dependable remote).env y) (s : Store) (memberId : String) :
      accounts.resource memberId ((backend remote).env y s) = accounts.resource memberId s ∧
        accounts.holder memberId ((backend remote).env y s) = accounts.holder memberId s := by
    refine ⟨account_congr (accounts_env remote y s) memberId, ?_⟩
    cases y with
    | expire key => cases hy
    | _ => rfl
  have hbegin := monitored_start (M := accounts) (B := backend remote) (y := store)
    hopening fun i => keepsLock_serve remote store.wallet.balance i (requests i)
  obtain ⟨inside, hc⟩ := hbegin.run (fun _ _ _ _ _ h => h) hquiet sched hs
  exact hc.idle hrest

/-- The key under which the wallet service enters the movement of a request. -/
def TradingOp.walletKey : TradingOp → Option String
  | .postDeduct _ _ orderId => some s!"trade:deduct:{orderId}"
  | .postCredit _ _ orderId => some s!"trade:credit:{orderId}"
  | _ => none

/-- The wallet service, when its own calls are answered and the order is new to
it, moves the money of a request once or not at all. -/
theorem dependable_of_fresh {s : Store} {op : TradingOp}
    (hfresh : ∀ key ∈ op.walletKey, ¬s.wallet.HasKey key) :
    Dependable Wallet.answered s op .done := by
  have hposted {transfer : Wallet.InternalMoveDto → Wallet.Transfer} {userId orderId : String}
      {amount : Number} {sign : ℚ} {out : Except Exception ℚ × Wallet.Store}
      (hsign : ∀ a h, (transfer ⟨userId, a, orderId, h⟩).movement.userId = userId ∧
        (transfer ⟨userId, a, orderId, h⟩).movement.amount = sign * a)
      (h : Posted transfer userId amount orderId
        (Carries transfer userId amount orderId Wallet.answered s.wallet)
        (Confirms transfer userId amount orderId Wallet.answered s.wallet) s.wallet out) :
      TransfersOnce s { s with wallet := out.2 } ((.done : Outcome Exception) = .done ∧
        Answered out.1) true userId amount sign := by
    cases h with
    | answered b w' h made =>
      obtain ⟨a, ha, hamount, hmade⟩ := made
      refine .inl ⟨⟨rfl, b, rfl⟩, a, hamount, ?_⟩
      intro owner
      obtain ⟨huser, hmoved⟩ := hsign a ha
      rw [hmade.balance owner, huser, hmoved]
      simp only [eq_comm]
    | kept e w' h same =>
      refine .inr ⟨?_, fun _ => same⟩
      rintro ⟨-, b, hb⟩
      cases hb
    | lost e w' h hno made =>
      obtain ⟨a, ha, wallet, hamount, hmoves⟩ := h
      exact absurd ⟨a, ha, wallet, hamount, hmoves, rfl, rfl, rfl⟩ hno
  cases op with
  | postDeduct userId amount orderId =>
    exact hposted (fun a h => ⟨rfl, (neg_one_mul a).symm⟩)
      (posted_postWallet amount fun a h => Wallet.served_deduct 0 ⟨userId, a, orderId, h⟩
        (hfresh _ rfl))
  | postCredit userId amount orderId =>
    exact hposted (fun a h => ⟨rfl, (one_mul a).symm⟩)
      (posted_postWallet amount fun a h => Wallet.served_credit 0 ⟨userId, a, orderId, h⟩
        (hfresh _ rfl))
  | _ => exact fun _ => rfl

/-- All calls are answered, wallet requests are for new orders, and no lock expires. -/
def freshlyAnswered : Assumption ℕ TradingOp TradingOp.Reply Store Environment Exception where
  call s _ _ op o := o = .done ∧ ∀ key ∈ op.walletKey, ¬s.wallet.HasKey key
  env y := y.isExpiry = false

/-- A member buys eight shares and sells five of them at the same time. -/
def buyAndSell : ℕ → Request
  | 0 => .buy "m" ⟨"s", 8, by decide⟩
  | 1 => .sell "m" fiveShares
  | _ => .sell "other" fiveShares

/-- Both look up trader and stock, then the buy has the lock first. -/
def buyFirst : Schedule :=
  [0, 1, 0, 1, 0, 1, 0, 1, 0, 0, 0, 0, 0, 0, 0, 0, 0, 1, 1, 1, 1, 1, 1, 1, 1].map
    fun i => .step i .done

theorem settled_buyAndSell :
    (((State.start unopened buyAndSell).run (backend Wallet.answered) buyFirst).store.account
      "m").Settled 100 := by
  have hanswered : freshlyAnswered.Along (backend Wallet.answered)
      (State.start unopened buyAndSell) buyFirst := by
    simp only [freshlyAnswered]
    decide +kernel
  have hdependable : (dependable Wallet.answered).Along (backend Wallet.answered)
      (State.start unopened buyAndSell) buyFirst := by
    apply hanswered.mono
    · rintro s l i op o ⟨rfl, hfresh⟩
      exact dependable_of_fresh hfresh
    · exact fun y hy => hy
  refine settled_at_rest Wallet.answered unopened buyAndSell ⟨rfl, rfl⟩ buyFirst hdependable "m" ?_
  intro i hi
  rcases i with _ | _ | i
  · exact .inr (by decide +kernel)
  · exact .inr (by decide +kernel)
  · simp [buyAndSell, Request.memberId] at hi

end StockMarket.Trading
