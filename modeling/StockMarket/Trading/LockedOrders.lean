import StockMarket.Trading.Settled
import StockMarket.Trading.Effects
import StockMarket.Interleaving.Monitor

/-! # Orders under the member lock

The lock of a member guards the member's account. The body of a buy or sell
takes a settled account to a settled account, along every way it may end.
-/

namespace StockMarket.Trading
open Interleaving Prog OrderService Monitor

/-- Each member's account, guarded by the member's lock. -/
def accounts : Monitor ℕ String Store Account where
  resource memberId s := s.account memberId
  holder memberId s := (s.locks (RedisKeys.memberLock memberId)).map Prod.fst

theorem memberLock_inj {memberId other : String}
    (h : RedisKeys.memberLock memberId = RedisKeys.memberLock other) : memberId = other :=
  (String.append_right_inj _).mp h

theorem quiet_of_passive (remote : Wallet.Faults) (op : TradingOp) (hop : op.passive) :
    accounts.Quiet (backend remote) op := fun s =>
  ⟨account_congr (accounts_exec remote op s (op.quiet_of_passive hop)), fun _ => by
    simp only [accounts, backend, locks_exec_of_passive remote op s hop]⟩

section Operations
variable (remote : Wallet.Faults) (opening : String → ℚ) (i : ℕ) (memberId : String) {α : Type}

/-- Under its member's lock, the program ends with an account and a result in `Q`. -/
abbrev Works (Q : Account → Except Exception α → Prop) (p : Call α) (a : Account) : Prop :=
  accounts.Within (backend remote) (Dependable remote) (fun m a => a.Settled (opening m)) i
    memberId Q p a

variable {remote opening i memberId} {Q : Account → Except Exception α → Prop} {a : Account}
  {order : Order} {orderId : ℕ} {stockId : String}

theorem Dependable.done {s : Store} {op : TradingOp} {o : Outcome Exception}
    (h : Dependable remote s op o) (hop : op.isDatabase) : o = .done := by
  cases op <;> first | exact h hop | cases hop

/-- A database call that changes no other account and no lock. -/
theorem works_send {op : TradingOp} {f : op.Reply → Call α} (hop : op.isDatabase)
    (h : ∀ s, s.account memberId = a → ∃ a', (exec remote op s).2.locks = s.locks ∧
      (∀ other, other ≠ memberId → (exec remote op s).2.account other = s.account other) ∧
      (exec remote op s).2.account memberId = a' ∧
      Works remote opening i memberId Q (f (exec remote op s).1) a') :
    Works remote opening i memberId Q (query op >>= f) a := by
  refine within_send (fun s o ho => ho.done hop) ?_
  intro s hs
  obtain ⟨_, hlocks, hother, rfl, hf⟩ := h s hs
  refine ⟨⟨hother, ?_⟩, hf⟩
  intro other
  simp only [accounts, backend, hlocks]

theorem works_createOrder {f : ℕ → Call α} (horder : order.memberId = memberId)
    (hf : ∀ orderId, Works remote opening i memberId Q (f orderId) (a.enter order orderId)) :
    Works remote opening i memberId Q (query (.createOrder order) >>= f) a := by
  subst horder
  apply works_send rfl
  intro s hs
  refine ⟨_, rfl, ?_, ?_, hf s.orders.length⟩
  · exact fun other h => account_createOrder_ne remote h s
  · rw [account_createOrder, hs]

theorem works_updateOrder {set : OrderUpdate} {f : Option Order → Call α}
    (horder : order.memberId = memberId)
    (hf : ∀ reply now, Works remote opening i memberId Q (f reply)
      (a.enter (set.apply now order) orderId)) :
    Works remote opening i memberId Q (query (.updateOrder orderId set) >>= f)
      (a.enter order orderId) := by
  apply works_send rfl
  intro s hs
  refine ⟨_, rfl, ?_, account_updateOrder remote set hs, hf _ s.now⟩
  intro other h
  have hmem : (order, orderId) ∈ s.ordersOf memberId := by
    rw [show s.ordersOf memberId = a.orders ++ [(order, orderId)] from congrArg Account.orders hs]
    simp
  exact account_updateOrder_ne remote set (mem_ordersOf.mp hmem).1 (horder ▸ h)

theorem works_findPosition {f : Option Position → Call α}
    (hf : Works remote opening i memberId Q (f (a.positions stockId)) a) :
    Works remote opening i memberId Q (query (.findPosition memberId stockId) >>= f) a := by
  apply works_send rfl
  intro s hs
  refine ⟨a, rfl, fun _ _ => rfl, hs, ?_⟩
  subst hs
  exact hf

/-- An operation that puts another position in the place of the first. -/
theorem works_setPosition {op : TradingOp} {f : op.Reply → Call α} {position : Option Position}
    {reply : op.Reply} (hop : op.isDatabase)
    (hexec : ∀ s, s.account memberId = a → exec remote op s = (reply, match position with
      | some position => s.setPosition memberId stockId position
      | none => s.deletePosition memberId stockId))
    (hf : Works remote opening i memberId Q (f reply) (a.setPosition stockId position)) :
    Works remote opening i memberId Q (query op >>= f) a := by
  apply works_send hop
  intro s hs
  rw [hexec s hs]
  cases position with
  | none =>
    exact ⟨_, rfl, fun other h => account_deletePosition_ne h stockId,
      by rw [account_deletePosition, hs], hf⟩
  | some position =>
    exact ⟨_, rfl, fun other h => account_setPosition_ne h stockId position,
      by rw [account_setPosition, hs], hf⟩

theorem works_createPosition {doc : Position} {f : Bool → Call α}
    (hposition : a.positions stockId = none)
    (hf : Works remote opening i memberId Q (f true) (a.setPosition stockId (some doc))) :
    Works remote opening i memberId Q (query (.createPosition memberId stockId doc) >>= f) a := by
  refine works_setPosition rfl ?_ hf
  intro s hs
  have hnone : s.position memberId stockId = none := by rw [← hposition, ← hs]; rfl
  simp [exec, hnone]

theorem works_updatePosition {shares : ℤ} {avgBuyPrice totalInvested : Number} {f : Unit → Call α}
    {position : Position} (hposition : a.positions stockId = some position)
    (hf : Works remote opening i memberId Q (f ()) (a.setPosition stockId (some
      { position with
        shares := position.shares + shares
        avgBuyPrice := avgBuyPrice
        totalInvested := totalInvested }))) :
    Works remote opening i memberId Q
      (query (.updatePosition memberId stockId shares avgBuyPrice totalInvested) >>= f) a := by
  refine works_setPosition rfl ?_ hf
  intro s hs
  have hsome : s.position memberId stockId = some position := by rw [← hposition, ← hs]; rfl
  simp [exec, hsome]

theorem works_deletePosition {f : Unit → Call α}
    (hf : Works remote opening i memberId Q (f ()) (a.setPosition stockId none)) :
    Works remote opening i memberId Q (query (.deletePosition memberId stockId) >>= f) a :=
  works_setPosition rfl (fun _ _ => rfl) hf

/-- The decrement with its guard, and the increment that gives shares back. -/
theorem works_incPosition {gte : Option ℤ} {shares : ℤ} {f : Option Position → Call α}
    (hnone : (∀ position, a.positions stockId = some position → ¬gte.all (· ≤ position.shares)) →
      Works remote opening i memberId Q (f none) a)
    (hsome : ∀ position, a.positions stockId = some position → gte.all (· ≤ position.shares) →
      Works remote opening i memberId Q
        (f (some { position with shares := position.shares + shares }))
        (a.setPosition stockId (some { position with shares := position.shares + shares }))) :
    Works remote opening i memberId Q
      (query (.incPosition memberId stockId gte shares) >>= f) a := by
  have hstored (s : Store) (hs : s.account memberId = a) :
      s.position memberId stockId = a.positions stockId := by rw [← hs]; rfl
  by_cases h : ∃ position, a.positions stockId = some position ∧ gte.all (· ≤ position.shares)
  · obtain ⟨position, hposition, hgte⟩ := h
    refine works_setPosition rfl ?_ (hsome position hposition hgte)
    intro s hs
    simp [exec, hstored s hs, hposition, hgte]
  · have hkeeps (s : Store) (hs : s.account memberId = a) :
        exec remote (.incPosition memberId stockId gte shares) s = (none, s) := by
      cases hposition : a.positions stockId with
      | none => simp [exec, hstored s hs, hposition]
      | some position =>
        have hgte : ¬gte.all (· ≤ position.shares) := fun hgte => h ⟨position, hposition, hgte⟩
        simp [exec, hstored s hs, hposition, hgte]
    apply works_send rfl
    intro s hs
    rw [hkeeps s hs]
    exact ⟨a, rfl, fun _ _ => rfl, hs, hnone fun position hposition hgte =>
      h ⟨position, hposition, hgte⟩⟩

/-- What a wallet call leaves of an account: the money moved, or a thrown error. -/
def Transferred (amount : Number) (sign : ℚ) (a a' : Account) : Except Exception ℚ → Prop
  | .ok _ => ∃ total, amount = some total ∧ a' = a.move (sign * total)
  | .error _ => a' = a

private theorem works_post (op : TradingOp) (P : op.Reply → Prop) {next : op.Reply → Call ℚ}
    {failed : Exception → Call ℚ} {amount : Number} {sign : ℚ}
    (hop : ∀ s o, Dependable remote s op o → TransfersOnce s (exec remote op s).2
      (o = .done ∧ P (exec remote op s).1) o.applies memberId amount sign)
    (hstore : ∀ s, (exec remote op s).2 = { s with wallet := (exec remote op s).2.wallet })
    (hok : ∀ r, P r → ∃ b, next r = .ret b) (herror : ∀ r, ¬P r → ∃ e, next r = .raise e)
    (hfailed : ∀ e, ∃ e', failed e = .raise e') :
    Works remote opening i memberId (Transferred amount sign a) (.call op next failed) a := by
  refine .inr ?_
  intro s o hs ho
  have hlocks (other : String) : accounts.holder other ((backend remote).exec op s).2 =
      accounts.holder other s := by
    simp only [backend]
    rw [hstore]
    rfl
  have haccount (other : String) : accounts.resource other ((backend remote).exec op s).2 =
      { s.account other with balance := (exec remote op s).2.wallet.balance other } := by
    simp only [backend, accounts]
    rw [hstore]
    rfl
  rcases hop s o ho with ⟨⟨rfl, hp⟩, total, htotal, hmoved⟩ | ⟨hno, hsame⟩
  · obtain ⟨b, hb⟩ := hok _ hp
    have hafter : accounts.resource memberId ((backend remote).exec op s).2 =
        a.move (sign * total) := by
      rw [haccount, hmoved, if_pos rfl, ← hs]
      rfl
    refine ⟨fun _ => ⟨fun other hne => ?_, hlocks⟩, fun _ => ?_, fun e => ⟨?_, ?_⟩⟩
    · rw [haccount, hmoved, if_neg hne, add_zero]
      rfl
    · rw [hafter]
      simp only [backend, hb]
      exact within_ret ⟨total, htotal, rfl⟩
    · rintro ⟨⟩
    · rintro ⟨⟩
  · have hkept (happlies : o.applies) (other : String) :
        accounts.resource other ((backend remote).exec op s).2 = s.account other := by
      rw [haccount, hsame happlies]
      rfl
    refine ⟨fun happlies => ⟨fun other _ => hkept happlies other, hlocks⟩, ?_, fun e => ⟨?_, ?_⟩⟩
    · rintro rfl
      obtain ⟨e, he⟩ := herror (exec remote op s).1 fun hp => hno ⟨rfl, hp⟩
      rw [hkept rfl, show s.account memberId = a from hs]
      simp only [backend, he]
      exact within_raise rfl
    · rintro -
      obtain ⟨e', he'⟩ := hfailed e
      rw [he']
      exact within_raise rfl
    · rintro rfl
      obtain ⟨e', he'⟩ := hfailed e
      rw [hkept rfl, show s.account memberId = a from hs, he']
      exact within_raise rfl

theorem works_deduct (amount : Number) (orderId : String) :
    Works remote opening i memberId (Transferred amount (-1) a)
      (WalletClient.deduct memberId amount orderId) a := by
  refine works_post (.postDeduct memberId amount orderId) Answered (fun _ _ ho => ho)
    (fun _ => rfl) ?_ ?_ fun e => ⟨_, rfl⟩
  · rintro _ ⟨b, rfl⟩
    exact ⟨b, rfl⟩
  · intro r hr
    cases r with
    | ok b => exact absurd ⟨b, rfl⟩ hr
    | error e => exact ⟨_, rfl⟩

theorem works_credit (amount : Number) (orderId : String) :
    Works remote opening i memberId (Transferred amount 1 a)
      (WalletClient.credit memberId amount orderId) a := by
  refine works_post (.postCredit memberId amount orderId) Answered (fun _ _ ho => ho)
    (fun _ => rfl) ?_ ?_ fun e => ⟨_, rfl⟩
  · rintro _ ⟨b, rfl⟩
    exact ⟨b, rfl⟩
  · intro r hr
    cases r with
    | ok b => exact absurd ⟨b, rfl⟩ hr
    | error e => exact ⟨_, rfl⟩

end Operations

section Orders
variable {remote : Wallet.Faults} {opening : String → ℚ} {i : ℕ} {memberId : String} {a : Account}
  {dto : PlaceOrderDto} {trader : Trader} {stock : Stock}

theorem works_upsertPosition (ticker companyName : String) (shares : ℕ) (pricePerShare : Number)
    (stockId : String) : Works remote opening i memberId
      (fun a' res => (∃ position : Position, a' = a.setPosition stockId (some position) ∧
        position.shares = a.shares stockId + shares) ∧ ∃ u, res = .ok u)
      (upsertPosition memberId stockId ticker companyName shares pricePerShare) a := by
  apply works_findPosition
  cases hposition : a.positions stockId with
  | none =>
    refine works_createPosition hposition (within_ret ⟨⟨_, rfl, ?_⟩, _, rfl⟩)
    simp [Account.shares, hposition]
  | some existing =>
    refine works_updatePosition (f := .ret) hposition (within_ret ⟨⟨_, rfl, ?_⟩, _, rfl⟩)
    simp [Account.shares, hposition]

theorem works_markExecuted {order : Order} {orderId : ℕ} (event : TradeExecutedEvent)
    (horder : order.memberId = memberId) : Works remote opening i memberId
      (fun a' _ => ∃ now, a' = a.enter (OrderUpdate.apply now order .executed) orderId)
      (markExecuted memberId orderId event) (a.enter order orderId) := by
  refine works_updateOrder horder fun reply now => within_of_quiet ?_ fun _ => ⟨now, rfl⟩
  apply Sends.bind
  · exact sends_swallow (quiet_of_passive remote _ rfl) _
  intro deleted
  apply Sends.send (quiet_of_passive remote _ rfl)
  exact fun _ => trivial

/-- A wallet call whose error is undone and thrown on. -/
theorem works_orUndo {order : Order} {orderId : ℕ} {amount : Number} {sign : ℚ}
    {transfer : Call ℚ} {undo : Exception → Call ℚ}
    (htransfer : Works remote opening i memberId (Transferred amount sign (a.enter order orderId))
      transfer (a.enter order orderId))
    (hundo : ∀ err, Works remote opening i memberId
      (fun a' res => a'.Settled (opening memberId) ∧ ∃ e, res = .error e)
      (undo err) (a.enter order orderId)) :
    Works remote opening i memberId (fun a' res => match res with
        | .ok _ => ∃ total, amount = some total ∧ a' = (a.move (sign * total)).enter order orderId
        | .error _ => a'.Settled (opening memberId))
      (catching transfer undo) (a.enter order orderId) := by
  apply Within.handle htransfer
  intro a' res hres
  cases res with
  | ok b => exact within_ret hres
  | error err =>
    obtain rfl : a' = a.enter order orderId := hres
    apply Within.mono (hundo err)
    rintro a' _ ⟨hsettled, e, rfl⟩
    exact hsettled

/-- What an executed order has brought: shares against its total, or the other way. -/
theorem executed_buyOrder (now : Time) {total : ℚ}
    (htotal : (buyOrder memberId dto stock).totalAmount = some total) :
    let order := OrderUpdate.apply now (buyOrder memberId dto stock) .executed
    order.executedShares dto.stockId = dto.shares ∧ order.executedCash = -1 * total := by
  refine ⟨if_pos ⟨rfl, rfl⟩, ?_⟩
  calc
    _ = -(buyOrder memberId dto stock).totalAmount.getD 0 := rfl
    _ = -1 * total := by rw [htotal, Option.getD_some, neg_one_mul]

theorem executed_sellOrder (now : Time) {left : Position} {total : ℚ}
    (htotal : (sellOrder memberId dto stock left).totalAmount = some total) :
    let order := OrderUpdate.apply now (sellOrder memberId dto stock left) .executed
    order.executedShares dto.stockId = -dto.shares ∧ order.executedCash = 1 * total := by
  refine ⟨if_pos ⟨rfl, rfl⟩, ?_⟩
  calc
    _ = (sellOrder memberId dto stock left).totalAmount.getD 0 := rfl
    _ = 1 * total := by rw [htotal, Option.getD_some, one_mul]

theorem works_buyLocked (ha : a.Settled (opening memberId)) :
    Works remote opening i memberId (fun a' _ => a'.Settled (opening memberId))
      (buyLocked memberId dto trader stock) a := by
  refine works_createOrder rfl ?_
  intro orderId
  refine Within.bind (works_orUndo (works_deduct _ _) ?_) ?_ fun _ _ h => h
  · intro err
    exact works_updateOrder rfl fun _ now => within_raise ⟨ha.enter_rejected rfl, _, rfl⟩
  rintro _ _ ⟨total, htotal, rfl⟩
  refine Within.bind (works_upsertPosition ..) ?_ ?_
  swap
  · intro _ _ h
    obtain ⟨-, u, hu⟩ := h
    cases hu
  rintro _ _ ⟨⟨position, rfl, hshares⟩, -⟩
  rw [Account.enter_setPosition]
  refine Within.mono (works_markExecuted _ rfl) ?_
  rintro _ _ ⟨now, rfl⟩
  obtain ⟨hexecuted, hcash⟩ := executed_buyOrder now htotal
  have hbought : position.shares = a.shares dto.stockId + dto.shares := hshares
  refine ha.enter (.inl rfl) rfl hcash.symm ?_ ?_
  · rw [hexecuted]
    exact hbought
  · have hnonneg := ha.shares_nonneg dto.stockId
    have hpos := dto.shares_pos
    simp only [Option.isSome_some, Option.elim, true_iff]
    omega

theorem works_rollback {position : Position} {order : Order} {orderId : ℕ} (err : Exception)
    (ha : a.Settled (opening memberId)) (hposition : a.positions dto.stockId = some position)
    (horder : order.memberId = memberId) :
    Works remote opening i memberId
      (fun a' res => a'.Settled (opening memberId) ∧ ∃ e, res = .error e)
      (do
        let _ ← query (.incPosition memberId dto.stockId none dto.shares)
        let _ ← query (.updateOrder orderId (.rejected err.message))
        raise err : Call ℚ)
      ((a.setPosition dto.stockId (some
        { position with shares := position.shares - dto.shares })).enter order orderId) := by
  apply works_incPosition
  · intro hnone
    exact absurd rfl (hnone _ (Account.setPosition_self ..))
  intro left hleft _
  obtain rfl := Option.some.inj ((Account.setPosition_self ..).symm.trans hleft)
  rw [Account.enter_setPosition, Account.setPosition_setPosition]
  simp only [sub_add_cancel]
  rw [← hposition, Account.setPosition_same]
  exact works_updateOrder horder fun _ now => within_raise ⟨ha.enter_rejected rfl, _, rfl⟩

theorem works_sellDecremented {position : Position} (ha : a.Settled (opening memberId))
    (hposition : a.positions dto.stockId = some position) (hle : dto.shares ≤ position.shares) :
    let left := { position with shares := position.shares - dto.shares }
    Works remote opening i memberId (fun a' _ => a'.Settled (opening memberId))
      (sellDecremented memberId dto trader stock left) (a.setPosition dto.stockId (some left)) := by
  intro left
  refine works_createOrder rfl ?_
  intro orderId
  refine Within.bind (works_orUndo (works_credit _ _) fun err =>
    works_rollback err ha hposition rfl) ?_ fun _ _ h => h
  rintro _ _ ⟨total, htotal, rfl⟩
  -- what is left of the position settles the account, whether it is kept or deleted
  have hlast (kept : Option Position) (hshares : kept.elim 0 Position.shares = left.shares)
      (hdocument : kept.isSome ↔ 0 < left.shares) :
      Works remote opening i memberId (fun a' _ => a'.Settled (opening memberId))
        (markExecuted memberId orderId
          (tradeExecuted trader (sellOrder memberId dto stock left) orderId))
        (((a.move (1 * total)).setPosition dto.stockId kept).enter
          (sellOrder memberId dto stock left) orderId) := by
    refine Within.mono (works_markExecuted _ rfl) ?_
    rintro _ _ ⟨now, rfl⟩
    obtain ⟨hexecuted, hcash⟩ := executed_sellOrder now htotal
    refine ha.enter (.inl rfl) rfl hcash.symm ?_ (hshares ▸ hdocument)
    rw [hexecuted, hshares]
    simp [Account.shares, hposition, left, sub_eq_add_neg]
  by_cases hzero : left.shares = 0
  · simp only [hzero, if_true]
    apply works_deletePosition
    rw [Account.enter_setPosition, Account.setPosition_move, Account.setPosition_setPosition]
    exact hlast none hzero.symm (by simp [hzero])
  · simp only [hzero, if_false]
    have hpos : 0 < left.shares := by
      have hleft : left.shares = position.shares - dto.shares := rfl
      omega
    exact hlast (some left) rfl (by simp [hpos])

theorem works_sellLocked (ha : a.Settled (opening memberId)) :
    Works remote opening i memberId (fun a' _ => a'.Settled (opening memberId))
      (sellLocked memberId dto trader stock) a := by
  refine works_incPosition (fun _ => within_raise ha) ?_
  intro position hposition hgte
  have hle : (dto.shares : ℤ) ≤ position.shares := by simpa using hgte
  exact works_sellDecremented ha hposition hle

end Orders
end StockMarket.Trading
