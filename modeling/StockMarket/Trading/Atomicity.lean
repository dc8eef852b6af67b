import StockMarket.Trading.Admission

/-! # Orders under failing steps

An order touches positions, orders and, over HTTP, the wallet. What a run
leaves behind depends on which of its calls fail, and whether a failed call was
carried out all the same. For both kinds of order the patterns that leave all
or nothing are given exactly.
-/

namespace StockMarket.Trading
open Interleaving Prog OrderService

/-- The wallet has moved the order's total for the member, entered under the
key made of the order's id. -/
def MovedUnder (key : String) (sign : ℚ) (memberId : String) (orderId : ℕ) (s s' : Store) : Prop :=
  ∃ (order : Order) (t : Wallet.Transaction), s'.orders[orderId]? = some order ∧
    t ∈ s'.wallet.transactions ∧ t.idempotencyKey = key ∧ t.userId = memberId ∧
    order.totalAmount = some t.amount ∧ 0 < t.amount ∧
    s'.wallet.balance memberId = s.wallet.balance memberId + sign * t.amount

/-- Money moved, shares changed by `delta` and the order EXECUTED: all of it,
or none of it with shares and balance as before. -/
def AllOrNothing (key : String) (sign : ℚ) (delta : ℤ) (memberId stockId : String)
    (s s' : Store) : Prop :=
  let moved := MovedUnder key sign memberId s.orders.length s s'
  (moved ↔ s'.shares memberId stockId = s.shares memberId stockId + delta) ∧
  (moved ↔ s'.orderStatus s.orders.length = some .executed) ∧
  (¬moved → s'.shares memberId stockId = s.shares memberId stockId ∧
    s'.wallet.balance memberId = s.wallet.balance memberId)

section Verdicts
variable {key : String} {sign : ℚ} {delta : ℤ} {memberId stockId : String} {s s' : Store}

theorem allOrNothing_congr {x x' : Store} (h : x.accounts = s.accounts)
    (h' : x'.accounts = s'.accounts) : AllOrNothing key sign delta memberId stockId x x' ↔
      AllOrNothing key sign delta memberId stockId s s' := by
  obtain ⟨hp, ho, hw⟩ := accounts_eq_iff.mp h
  obtain ⟨hp', ho', hw'⟩ := accounts_eq_iff.mp h'
  simp only [AllOrNothing, MovedUnder, Store.shares, Store.position, Store.orderStatus, hp, ho, hw,
    hp', ho', hw']

theorem not_movedUnder (hsign : sign ≠ 0)
    (hbalance : s'.wallet.balance memberId = s.wallet.balance memberId) (orderId : ℕ) :
    ¬MovedUnder key sign memberId orderId s s' := by
  rintro ⟨_, t, -, -, -, -, -, hpos, h⟩
  rw [hbalance, left_eq_add] at h
  exact mul_ne_zero hsign hpos.ne' h

theorem allOrNothing_of_unchanged (hsign : sign ≠ 0) (hdelta : delta ≠ 0)
    (hbalance : s'.wallet.balance memberId = s.wallet.balance memberId)
    (hshares : s'.shares memberId stockId = s.shares memberId stockId)
    (hstatus : s'.orderStatus s.orders.length ≠ some .executed) :
    AllOrNothing key sign delta memberId stockId s s' := by
  have hno : ¬MovedUnder key sign memberId s.orders.length s s' := not_movedUnder hsign hbalance _
  refine ⟨⟨fun h => absurd h hno, fun h => ?_⟩, ⟨fun h => absurd h hno, fun h => absurd h hstatus⟩,
    fun _ => ⟨hshares, hbalance⟩⟩
  rw [hshares] at h
  omega

theorem allOrNothing_self (key : String) {sign : ℚ} {delta : ℤ} (hsign : sign ≠ 0)
    (hdelta : delta ≠ 0) (memberId stockId : String) (s : Store) :
    AllOrNothing key sign delta memberId stockId s s :=
  allOrNothing_of_unchanged hsign hdelta rfl rfl (by simp [Store.orderStatus])

theorem not_allOrNothing_of_shares_only (hsign : sign ≠ 0)
    (hbalance : s'.wallet.balance memberId = s.wallet.balance memberId)
    (hshares : s'.shares memberId stockId = s.shares memberId stockId + delta) :
    ¬AllOrNothing key sign delta memberId stockId s s' :=
  fun h => not_movedUnder hsign hbalance _ (h.1.mpr hshares)

theorem allOrNothing_of_complete (hmoved : MovedUnder key sign memberId s.orders.length s s')
    (hshares : s'.shares memberId stockId = s.shares memberId stockId + delta)
    (hstatus : s'.orderStatus s.orders.length = some .executed) :
    AllOrNothing key sign delta memberId stockId s s' :=
  ⟨iff_of_true hmoved hshares, iff_of_true hmoved hstatus, fun h => absurd hmoved h⟩

theorem not_allOrNothing_of_unexecuted (hmoved : MovedUnder key sign memberId s.orders.length s s')
    (hstatus : s'.orderStatus s.orders.length ≠ some .executed) :
    ¬AllOrNothing key sign delta memberId stockId s s' :=
  fun h => hstatus (h.2.1.mp hmoved)

theorem not_allOrNothing_of_balance
    (hbalance : s'.wallet.balance memberId ≠ s.wallet.balance memberId)
    (hstatus : s'.orderStatus s.orders.length ≠ some .executed) :
    ¬AllOrNothing key sign delta memberId stockId s s' :=
  fun h => hbalance (h.2.2 fun hmoved => hstatus (h.2.1.mp hmoved)).2

theorem movedUnder_of_credit {amount : Number} {orderId : String} {n : ℕ} {order : Order}
    (hmade : MadeFor Wallet.InternalMoveDto.crediting memberId amount orderId s.wallet s'.wallet)
    (horder : s'.orders[n]? = some order) (htotal : order.totalAmount = amount) :
    MovedUnder s!"trade:credit:{orderId}" 1 memberId n s s' := by
  obtain ⟨a, ha, rfl, ⟨t, htx, huser, hkey, hamount⟩, hbalance⟩ := hmade
  have hta : t.amount = a := hamount.trans (abs_of_pos ha)
  refine ⟨order, t, horder, by simp [htx], hkey, huser, by rw [htotal, hta], by rwa [hta], ?_⟩
  rw [hbalance memberId, hta, one_mul]
  exact congrArg _ (if_pos rfl)

theorem movedUnder_of_debit {amount : Number} {orderId : String} {n : ℕ} {order : Order}
    (hmade : MadeFor Wallet.InternalMoveDto.deduction memberId amount orderId s.wallet s'.wallet)
    (horder : s'.orders[n]? = some order) (htotal : order.totalAmount = amount) :
    MovedUnder s!"trade:deduct:{orderId}" (-1) memberId n s s' := by
  obtain ⟨a, ha, rfl, ⟨t, htx, huser, hkey, hamount⟩, hbalance⟩ := hmade
  have hta : t.amount = a := hamount.trans ((abs_neg a).trans (abs_of_pos ha))
  refine ⟨order, t, horder, by simp [htx], hkey, huser, by rw [htotal, hta], by rwa [hta], ?_⟩
  rw [hbalance memberId, hta, neg_one_mul]
  exact congrArg _ (if_pos rfl)

end Verdicts

section Parts
variable {remote : Wallet.Faults} {faults : Faults} {memberId stockId : String} {x : Store}
  {l : List Order} {order : Order} {position : Position}

theorem orderStatus_last (h : x.orders = l ++ [order]) :
    x.orderStatus l.length = some order.status := by
  simp [Store.orderStatus, h]

theorem exec_updateOrder (remote : Wallet.Faults) (set : OrderUpdate)
    (h : x.orders = l ++ [order]) :
    exec remote (.updateOrder l.length set) x = (some (OrderUpdate.apply x.now order set),
      { x with orders := l ++ [OrderUpdate.apply x.now order set] }) := by
  simp only [exec, h, modify_length_append]
  rw [List.getElem?_concat_length]

theorem run_markExecuted (remote : Wallet.Faults) (faults : Faults) (memberId : String)
    (event : TradeExecutedEvent) (h : x.orders = l ++ [order]) :
    ∃ r y, (markExecuted memberId l.length event).run (exec remote) faults x = (r, y) ∧
      y.positions = x.positions ∧ y.wallet = x.wallet ∧
      y.orders = l ++ [if (faults (.updateOrder l.length .executed)).applies
        then OrderUpdate.apply x.now order .executed else order] ∧
      ∀ a, r = .ok a → (faults (.updateOrder l.length .executed)).applies ∧
        a = some (OrderUpdate.apply x.now order .executed) := by
  rw [markExecuted]
  by_cases hdone : faults (.updateOrder l.length .executed) = .done
  · have happ : (faults (.updateOrder l.length .executed)).applies := by rw [hdone]; rfl
    rw [run_send_bind_done (exec remote) faults _ x hdone, exec_updateOrder remote _ h, if_pos happ]
    obtain ⟨y, hdel, hy⟩ := run_swallow remote faults
      (.delPortfolioCache (RedisKeys.portfolioCache memberId)) ()
      { x with orders := l ++ [OrderUpdate.apply x.now order .executed] }
    have hsame : y.positions = x.positions ∧ y.wallet = x.wallet ∧
        y.orders = l ++ [OrderUpdate.apply x.now order .executed] := by
      rcases hy with rfl | rfl <;> exact ⟨rfl, rfl, rfl⟩
    rw [run_bind, hdel, andThen_ok, run_bind, run_send]
    obtain ⟨hpositions, hwallet, horders⟩ := hsame
    cases faults (.emitTradeExecuted event) with
    | done =>
      simp only [andThen_ok, pure_eq, run_ret]
      exact ⟨_, _, rfl, hpositions, hwallet, horders, fun a ha => ⟨happ, (Except.ok.inj ha).symm⟩⟩
    | failed e =>
      simp only [andThen_error, run_raise]
      exact ⟨_, _, rfl, hpositions, hwallet, horders, fun _ h => by cases h⟩
    | lost e =>
      simp only [andThen_error, run_raise]
      exact ⟨_, _, rfl, hpositions, hwallet, horders, fun _ h => by cases h⟩
  · obtain ⟨e, y, hrun, hy⟩ := run_send_bind_thrown (exec remote) faults _ x hdone
    refine ⟨_, y, hrun, ?_⟩
    rw [exec_updateOrder remote _ h] at hy
    split at hy <;> rename_i happ
    · rw [hy, if_pos happ]
      exact ⟨rfl, rfl, rfl, fun _ h => by cases h⟩
    · rw [hy, if_neg happ]
      exact ⟨rfl, rfl, h, fun _ h => by cases h⟩

theorem exec_incPosition (remote : Wallet.Faults)
    (h : x.position memberId stockId = some position) (gte : Option ℤ)
    (hgte : gte.all (· ≤ position.shares)) (shares : ℤ) :
    exec remote (.incPosition memberId stockId gte shares) x =
      (some { position with shares := position.shares + shares },
        x.setPosition memberId stockId { position with shares := position.shares + shares }) := by
  simp only [exec, h, if_pos hgte]

/-- The order is the last one and not EXECUTED, and the wallet is untouched. -/
structure Unexecuted (l : List Order) (order : Order) (x y : Store) : Prop where
  wallet : y.wallet = x.wallet
  last : ∃ order', y.orders = l ++ [order'] ∧ order'.totalAmount = order.totalAmount ∧
    order'.status ≠ .executed

/-- What both orders end with when the wallet call throws. -/
theorem run_reject (α : Type) (remote : Wallet.Faults) (faults : Faults)
    (horders : x.orders = l ++ [order]) (hstatus : order.status ≠ .executed) (err : Exception) :
    ∃ e y, (query (.updateOrder l.length (.rejected err.message)) >>= fun _ =>
        (raise err : Call α)).run (exec remote) faults x = (.error e, y) ∧
      Unexecuted l order x y ∧ y.positions = x.positions := by
  have hexec := exec_updateOrder remote (.rejected err.message) horders
  by_cases hdone : faults (.updateOrder l.length (.rejected err.message)) = .done
  · rw [run_send_bind_done (exec remote) faults _ x hdone, hexec]
    exact ⟨err, _, rfl, ⟨rfl, _, rfl, rfl, by simp [OrderUpdate.apply]⟩, rfl⟩
  · obtain ⟨e, y, hrun, hy⟩ := run_send_bind_thrown (exec remote) faults
      (fun _ => (raise err : Call α)) x hdone
    refine ⟨e, y, hrun, ?_⟩
    rw [hexec] at hy
    split at hy <;> subst hy
    · exact ⟨⟨rfl, _, rfl, rfl, by simp [OrderUpdate.apply]⟩, rfl⟩
    · exact ⟨⟨rfl, order, horders, rfl, hstatus⟩, rfl⟩

end Parts

def sampleStock : Stock := ⟨"ACME", "Acme", .bson (some 10), true⟩

def samplePosition : Position := ⟨"ACME", "Acme", 10, some 10, some 100⟩

def sampleWallet : Wallet.WalletDoc := ⟨"m", 100, "USD", none⟩

/-- A member `m` with the wallet and a position in the stock `s`. -/
def sampleStore : Store where
  traders _ := some ⟨"Ada", "ada@example.com", .active, .approved⟩
  stocks _ := some sampleStock
  orders := []
  positions := AList.singleton ("m", "s") samplePosition
  locks _ := none
  stockCache _ := none
  portfolioCache _ := none
  wallet := { Wallet.Store.empty with wallets := fun _ => some sampleWallet }
  now := 0
  outbox := []

/-- The sample store before its member's first trade. -/
def unopened : Store := { sampleStore with positions := ∅ }

def fiveShares : PlaceOrderDto := ⟨"s", 5, by decide⟩

end StockMarket.Trading
