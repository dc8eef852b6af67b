import StockMarket.Trading.Effects

/-! # What an order needs before it begins

Both orders look up the trader and the stock and take the member's lock. None
of that touches the accounts, and it succeeds under conditions that can be read
off the store.
-/

namespace StockMarket.Trading
open Interleaving Prog

theorem stockCache_inj {stockId other : String}
    (h : RedisKeys.stockCache stockId = RedisKeys.stockCache other) : stockId = other :=
  (String.append_right_inj _).mp h

/-- The stock `findById` sees: the cached one, unless there is none or Redis fails. -/
def stockSeen (faults : Faults) (s : Store) (stockId : String) : Option Stock :=
  let key := RedisKeys.stockCache stockId
  match if faults (.getStockCache key) = .done then s.stockCache key else none with
  | some cached => some cached
  | none => if faults (.findStock stockId) = .done then s.stocks stockId else none

/-- An active, approved trader, a stock that is seen and free for the order,
and a free lock, with the calls that find that out answered. -/
structure Admitted (faults : Faults) (uuid : ℕ) (s : Store) (memberId stockId : String)
    (free : Stock → Prop) (trader : Trader) (stock : Stock) : Prop where
  answered : faults (.findTrader memberId) = .done
  found : s.traders memberId = some trader
  active : trader.status ≠ .suspended
  approved : trader.kycStatus = .approved
  seen : stockSeen faults s stockId = some stock
  free : free stock
  locked : faults (.setLock (RedisKeys.memberLock memberId) (uuid, 0)) = .done
  unlocked : s.locks (RedisKeys.memberLock memberId) = none

section Guards
variable {faults : Faults} {remote : Wallet.Faults} {uuid : ℕ} {memberId : String}
  {findStock : Call Stock}

/-- Everything an order does before it runs under the member's lock. -/
def guards (uuid : ℕ) (memberId : String) (findStock : Call Stock) :
    Call (Trader × Stock × Token) := do
  let trader ← TraderService.assertCanTrade memberId
  let stock ← findStock
  let token ← LockService.acquireOrThrow uuid memberId
  pure (trader, stock, token)

/-- An order is its guards, and then its body with the release as cleanup. -/
theorem order_eq_guards {α : Type} {uuid : ℕ} {memberId : String} {findStock : Call Stock}
    (body : Trader → Stock → Call α) :
    (do
      let trader ← TraderService.assertCanTrade memberId
      let stock ← findStock
      LockService.withMemberLock uuid memberId (body trader stock)) =
    guards uuid memberId findStock >>= fun g =>
      finallyDo (body g.1 g.2.1) (LockService.release memberId g.2.2) := by
  simp only [guards, LockService.withMemberLock, bind_bind, pure_eq, ret_bind]

theorem assertCanTrade_passive (memberId : String) :
    (TraderService.assertCanTrade memberId).Sends fun op => op.passive := by
  refine Sends.send rfl ?_
  intro reply
  cases reply with
  | none => trivial
  | some trader =>
    dsimp only
    split
    · trivial
    · split <;> trivial

theorem findById_passive (stockId : String) :
    (StockService.findById stockId).Sends fun op => op.passive := by
  apply Sends.bind
  · apply sends_swallow
    rfl
  intro cached
  cases cached with
  | some stock => trivial
  | none =>
    apply Sends.send
    · rfl
    intro reply
    cases reply with
    | none => trivial
    | some stock =>
      apply Sends.bind
      · apply sends_swallow
        rfl
      · exact fun _ => trivial

theorem findListedById_passive (stockId : String) :
    (StockService.findListedById stockId).Sends fun op => op.passive := by
  apply Sends.bind (findById_passive stockId)
  intro stock
  split <;> trivial

/-- The guards only read, fill the cache and take the lock. -/
theorem guards_quiet (uuid : ℕ) (memberId : String)
    (hfind : findStock.Sends fun op => op.passive) :
    (guards uuid memberId findStock).Sends fun op => op.quiet := by
  have hacquire (left : ℕ) : (LockService.acquire uuid memberId left).Sends fun op => op.quiet := by
    induction left with
    | zero => trivial
    | succ left ih =>
      refine Sends.send rfl ?_
      intro ok
      split
      · trivial
      · exact ih
  apply Sends.bind ((assertCanTrade_passive memberId).mono TradingOp.quiet_of_passive)
  intro trader
  apply Sends.bind (hfind.mono TradingOp.quiet_of_passive)
  intro stock
  apply Sends.bind
  · apply Sends.bind (hacquire _)
    intro token
    cases token <;> trivial
  · exact fun token => trivial

theorem run_assertCanTrade (remote : Wallet.Faults) (faults : Faults) (memberId : String)
    (s : Store) :
    ∃ r, (TraderService.assertCanTrade memberId).run (exec remote) faults s = (r, s) ∧
      ∀ trader, r = .ok trader ↔ faults (.findTrader memberId) = .done ∧
        s.traders memberId = some trader ∧ trader.status ≠ .suspended ∧
        trader.kycStatus = .approved := by
  rw [TraderService.assertCanTrade]
  by_cases hdone : faults (.findTrader memberId) = .done
  swap
  · obtain ⟨e, hrun⟩ := run_read_bind_thrown (exec remote) faults _ (x := s) rfl hdone
    exact ⟨_, hrun, fun _ => iff_of_false (by simp) fun h => hdone h.1⟩
  rw [run_send_bind_done (exec remote) faults _ s hdone,
    show exec remote (.findTrader memberId) s = (s.traders memberId, s) from rfl]
  rcases htrader : s.traders memberId with _ | trader
  · exact ⟨_, rfl, fun _ => iff_of_false (by simp) fun h => by cases h.2.1⟩
  · by_cases hsuspended : trader.status = .suspended
    · simp only [hsuspended, if_true, run_raise]
      refine ⟨_, rfl, fun _ => iff_of_false (by simp) ?_⟩
      rintro ⟨-, h, hactive, -⟩
      cases h
      exact hactive hsuspended
    · by_cases hkyc : trader.kycStatus = .approved
      · simp only [hsuspended, hkyc, if_false, pure_eq, run_ret, ne_eq, not_true_eq_false]
        refine ⟨_, rfl, fun _ => ⟨fun h => ?_, fun h => ?_⟩⟩
        · cases h
          exact ⟨hdone, rfl, hsuspended, hkyc⟩
        · rw [Option.some.inj h.2.1]
      · simp only [hsuspended, if_false, ne_eq, hkyc, not_false_eq_true, if_true, run_raise]
        refine ⟨_, rfl, fun _ => iff_of_false (by simp) ?_⟩
        rintro ⟨-, h, -, happroved⟩
        cases h
        exact hkyc happroved

/-- A swallowed call always goes on, with the fallback if it threw. -/
theorem run_swallow (remote : Wallet.Faults) (faults : Faults) (op : TradingOp)
    (fallback : op.Reply) (s : Store) :
    ∃ x, (swallow (query op) fallback).run (exec remote) faults s =
        (.ok (if faults op = .done then (exec remote op s).1 else fallback), x) ∧
      (x = s ∨ x = (exec remote op s).2) := by
  rw [swallow, catching, run_handle, run_send]
  cases faults op with
  | done => exact ⟨_, rfl, .inr rfl⟩
  | failed e => exact ⟨_, rfl, .inl rfl⟩
  | lost e => exact ⟨_, rfl, .inr rfl⟩

theorem run_findById (remote : Wallet.Faults) (faults : Faults) (stockId : String) (s : Store) :
    ∃ r x, (StockService.findById stockId).run (exec remote) faults s = (r, x) ∧
      x.locks = s.locks ∧ ∀ stock, r = .ok stock ↔ stockSeen faults s stockId = some stock := by
  obtain ⟨x, hget, hx⟩ : ∃ x, (swallow (query (.getStockCache (RedisKeys.stockCache stockId)))
      none).run (exec remote) faults s = (.ok (if faults (.getStockCache (RedisKeys.stockCache
        stockId)) = .done then s.stockCache (RedisKeys.stockCache stockId) else none), x) ∧
      (x = s ∨ x = s) :=
    run_swallow remote faults (.getStockCache (RedisKeys.stockCache stockId)) none s
  obtain rfl : x = s := hx.elim id id
  rw [StockService.findById, run_bind, hget, stockSeen]
  simp only [andThen_ok]
  generalize (if faults (.getStockCache (RedisKeys.stockCache stockId)) = .done
    then x.stockCache (RedisKeys.stockCache stockId) else none) = cached
  rcases cached with _ | cached
  · by_cases hdone : faults (.findStock stockId) = .done
    · rcases hstock : x.stocks stockId with _ | stock
      · refine ⟨.error (.notFound "Stock not found"), x, ?_, rfl, ?_⟩
        · rw [run_send_bind_done (exec remote) faults _ x hdone,
            show exec remote (.findStock stockId) x = (none, x) from congrArg (·, x) hstock]
          rfl
        · intro _
          simp [hdone]
      · obtain ⟨y, hset, hy⟩ := run_swallow remote faults
          (.setStockCache (RedisKeys.stockCache stockId) stock) () x
        refine ⟨.ok stock, y, ?_, by rcases hy with rfl | rfl <;> rfl, ?_⟩
        · rw [run_send_bind_done (exec remote) faults _ x hdone,
            show exec remote (.findStock stockId) x = (some stock, x) from congrArg (·, x) hstock]
          simp only [run_bind, hset]
          rfl
        · intro _
          simp [hdone]
    · obtain ⟨e, hrun⟩ := run_read_bind_thrown (exec remote) faults _ (x := x) rfl hdone
      exact ⟨_, x, hrun, rfl, fun _ => by simp [hdone]⟩
  · exact ⟨_, x, rfl, rfl, fun _ => by simp⟩

theorem run_findListedById (remote : Wallet.Faults) (faults : Faults) (stockId : String)
    (s : Store) :
    ∃ r x, (StockService.findListedById stockId).run (exec remote) faults s = (r, x) ∧
      x.locks = s.locks ∧
      ∀ stock, r = .ok stock ↔ stockSeen faults s stockId = some stock ∧ stock.isListed := by
  obtain ⟨r, x, hrun, hlocks, hr⟩ := run_findById remote faults stockId s
  rw [StockService.findListedById, run_bind, hrun]
  rcases r with e | stock
  · refine ⟨_, x, rfl, hlocks, ?_⟩
    intro stock
    apply iff_of_false (by simp)
    intro h
    cases (hr stock).mpr h.1
  · have hseen := (hr stock).mp rfl
    by_cases hlisted : stock.isListed
    · refine ⟨.ok stock, x, by simp [hlisted], hlocks, fun stock' => ⟨fun h => ?_, fun h => ?_⟩⟩
      · cases h
        exact ⟨hseen, hlisted⟩
      · rw [Option.some.inj (hseen.symm.trans h.1)]
    · refine ⟨.error (.notFound "This stock is not available for new buy orders"), x,
        by simp [hlisted], hlocks, fun stock' => iff_of_false (by simp) fun h => ?_⟩
      rw [← Option.some.inj (hseen.symm.trans h.1)] at h
      exact hlisted h.2

/-- The lock cannot be had while another call holds it. -/
theorem run_acquire_held (remote : Wallet.Faults) (faults : Faults) (uuid : ℕ) {memberId : String}
    {s : Store} {owner : Token} (hheld : s.locks (RedisKeys.memberLock memberId) = some owner)
    (left : ℕ) : ∃ r, (LockService.acquire uuid memberId left).run (exec remote) faults s = (r, s) ∧
      ∀ token, r ≠ .ok (some token) := by
  induction left with
  | zero => exact ⟨_, rfl, by simp⟩
  | succ left ih =>
    have hset (token : Token) :
        exec remote (.setLock (RedisKeys.memberLock memberId) token) s = (false, s) := by
      simp [exec, hheld]
    simp only [LockService.acquire]
    by_cases hdone : faults (.setLock (RedisKeys.memberLock memberId)
        (uuid, LockService.maxRetries - (left + 1))) = .done
    · rw [run_send_bind_done (exec remote) faults _ s hdone, hset]
      exact ih
    · obtain ⟨e, hrun⟩ := run_read_bind_thrown (exec remote) faults _ (x := s) (by rw [hset]) hdone
      exact ⟨_, hrun, by simp⟩

/-- With no other call running, only the first attempt at the lock can succeed. -/
theorem run_acquireOrThrow (remote : Wallet.Faults) (faults : Faults) (uuid : ℕ) (memberId : String)
    (s : Store) : ∃ r x, (LockService.acquireOrThrow uuid memberId).run (exec remote) faults s =
        (r, x) ∧ ((∃ token, r = .ok token) ↔
          faults (.setLock (RedisKeys.memberLock memberId) (uuid, 0)) = .done ∧
            s.locks (RedisKeys.memberLock memberId) = none) := by
  rw [LockService.acquireOrThrow, run_bind]
  rcases hlock : s.locks (RedisKeys.memberLock memberId) with _ | owner
  · rw [show LockService.maxRetries = 2 + 1 from rfl, LockService.acquire,
      show LockService.maxRetries - (2 + 1) = 0 from rfl]
    by_cases hdone : faults (.setLock (RedisKeys.memberLock memberId) (uuid, 0)) = .done
    · rw [run_send_bind_done (exec remote) faults _ s hdone]
      simp only [exec, hlock, if_true, pure_eq, run_ret, andThen_ok]
      exact ⟨_, _, rfl, fun _ => ⟨hdone, trivial⟩, fun _ => ⟨_, rfl⟩⟩
    · obtain ⟨e, y, hrun, -⟩ := run_send_bind_thrown (exec remote) faults _ s hdone
      rw [hrun]
      exact ⟨_, y, rfl, iff_of_false (by simp) fun h => hdone h.1⟩
  · obtain ⟨r, hrun, hr⟩ := run_acquire_held remote faults uuid hlock LockService.maxRetries
    rw [hrun]
    rcases r with e | _ | token
    · exact ⟨_, s, rfl, iff_of_false (by simp) fun h => by cases h.2⟩
    · exact ⟨.error (.conflict "Another operation is in progress. Please retry in a moment."), s,
        rfl, iff_of_false (by simp) fun h => by cases h.2⟩
    · exact absurd rfl (hr token)

theorem run_guards (remote : Wallet.Faults) (faults : Faults) (uuid : ℕ) (memberId stockId : String)
    {free : Stock → Prop} (s : Store)
    (hfind : ∀ s, ∃ r x, findStock.run (exec remote) faults s = (r, x) ∧ x.locks = s.locks ∧
      ∀ stock, r = .ok stock ↔ stockSeen faults s stockId = some stock ∧ free stock) :
    ∃ r x, (guards uuid memberId findStock).run (exec remote) faults s = (r, x) ∧
      ∀ trader stock, (∃ token, r = .ok (trader, stock, token)) ↔
        Admitted faults uuid s memberId stockId free trader stock := by
  obtain ⟨r₁, hrun₁, hr₁⟩ := run_assertCanTrade remote faults memberId s
  rw [guards, run_bind, hrun₁]
  rcases r₁ with e | trader
  · refine ⟨_, s, rfl, ?_⟩
    intro trader _
    apply iff_of_false (by simp)
    intro h
    cases (hr₁ trader).mpr ⟨h.answered, h.found, h.active, h.approved⟩
  obtain ⟨hanswered, hfound, hactive, happroved⟩ := (hr₁ trader).mp rfl
  obtain ⟨r₂, x₂, hrun₂, hlocks, hr₂⟩ := hfind s
  simp only [andThen_ok]
  rw [run_bind, hrun₂]
  rcases r₂ with e | stock
  · refine ⟨_, x₂, rfl, ?_⟩
    intro _ stock
    apply iff_of_false (by simp)
    intro h
    cases (hr₂ stock).mpr ⟨h.seen, h.free⟩
  obtain ⟨hseen, hfree⟩ := (hr₂ stock).mp rfl
  obtain ⟨r₃, x₃, hrun₃, hr₃⟩ := run_acquireOrThrow remote faults uuid memberId x₂
  simp only [andThen_ok]
  rw [run_bind, hrun₃]
  rw [hlocks] at hr₃
  rcases r₃ with e | token
  · refine ⟨_, x₃, rfl, ?_⟩
    intro _ _
    apply iff_of_false (by simp)
    intro h
    obtain ⟨token, ⟨⟩⟩ := hr₃.mpr ⟨h.locked, h.unlocked⟩
  · obtain ⟨hlocked, hunlocked⟩ := hr₃.mp ⟨token, rfl⟩
    refine ⟨.ok (trader, stock, token), x₃, rfl, fun trader' stock' => ⟨?_, fun h => ?_⟩⟩
    · rintro ⟨_, ⟨⟩⟩
      exact ⟨hanswered, hfound, hactive, happroved, hseen, hfree, hlocked, hunlocked⟩
    · rw [Option.some.inj (hfound.symm.trans h.found), Option.some.inj (hseen.symm.trans h.seen)]
      exact ⟨token, rfl⟩

theorem Admitted.unique {s : Store} {stockId : String} {free : Stock → Prop}
    {trader trader' : Trader} {stock stock' : Stock}
    (h : Admitted faults uuid s memberId stockId free trader stock)
    (h' : Admitted faults uuid s memberId stockId free trader' stock') :
    trader' = trader ∧ stock' = stock :=
  ⟨Option.some.inj (h'.found.symm.trans h.found), Option.some.inj (h'.seen.symm.trans h.seen)⟩

/-- An order that is not admitted throws and leaves the accounts alone. One
that is leaves them as its body does, and returns only what its body returns. -/
def OrderRun (remote : Wallet.Faults) (faults : Faults) (uuid : ℕ) (memberId stockId : String)
    (free : Stock → Prop) (body : Trader → Stock → Call (Option Order)) (s : Store)
    (out : Except Exception (Option Order) × Store) : Prop :=
  ((¬∃ trader stock, Admitted faults uuid s memberId stockId free trader stock) ∧
    out.2.accounts = s.accounts ∧ ∃ e, out.1 = .error e) ∨
  ∃ trader stock x, Admitted faults uuid s memberId stockId free trader stock ∧
    x.accounts = s.accounts ∧
    out.2.accounts = ((body trader stock).run (exec remote) faults x).2.accounts ∧
    ∀ a, out.1 = .ok a → ((body trader stock).run (exec remote) faults x).1 = .ok a

theorem run_order (uuid : ℕ) (memberId : String) (remote : Wallet.Faults) (faults : Faults)
    {stockId : String} {free : Stock → Prop} (s : Store)
    (hpassive : findStock.Sends fun op => op.passive)
    (hfind : ∀ s, ∃ r x, findStock.run (exec remote) faults s = (r, x) ∧ x.locks = s.locks ∧
      ∀ stock, r = .ok stock ↔ stockSeen faults s stockId = some stock ∧ free stock)
    (body : Trader → Stock → Call (Option Order)) :
    let order : Call (Option Order) := do
      let trader ← TraderService.assertCanTrade memberId
      let stock ← findStock
      LockService.withMemberLock uuid memberId (body trader stock)
    OrderRun remote faults uuid memberId stockId free body s
      (order.run (exec remote) faults s) := by
  intro order
  have hsame := (guards_quiet uuid memberId hpassive).run_eq (exec remote)
    faults (accounts_exec remote) s
  have horder : order = guards uuid memberId findStock >>= fun g =>
      finallyDo (body g.1 g.2.1) (LockService.release memberId g.2.2) := order_eq_guards body
  obtain ⟨r, x, hrun, hr⟩ := run_guards remote faults uuid memberId stockId s hfind
  rw [hrun] at hsame
  rw [horder, run_bind, hrun]
  rcases r with e | ⟨trader, stock, token⟩
  · refine .inl ⟨?_, hsame, e, rfl⟩
    rintro ⟨trader, stock, h⟩
    obtain ⟨token, ⟨⟩⟩ := (hr trader stock).mpr h
  · refine .inr ⟨trader, stock, x, (hr trader stock).mp ⟨token, rfl⟩, hsame, ?_⟩
    simp only [andThen_ok, finallyDo, run_handle]
    rw [← run_handle]
    generalize (body trader stock).run (exec remote) faults x = out
    obtain ⟨res, y⟩ := out
    refine ⟨Sends.run_eq (exec remote) faults (Q := fun op => op.quiet) (accounts_exec remote) ?_ y,
      fun a ha => ?_⟩
    · refine Sends.bind (Sends.send rfl fun _ => trivial) ?_
      intro _
      cases res <;> trivial
    · rw [LockService.release, ← bind_eq, bind_bind, run_bind, run_send] at ha
      cases ho : faults (.evalRelease (RedisKeys.memberLock memberId) token) with
      | done =>
        rw [ho] at ha
        cases res <;> exact ha
      | failed e =>
        rw [ho] at ha
        cases ha
      | lost e =>
        rw [ho] at ha
        cases ha

end Guards
end StockMarket.Trading
