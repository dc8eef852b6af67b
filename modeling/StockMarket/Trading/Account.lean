import StockMarket.Trading.Pool

/-! # The account of a member

What a member owns and has ordered: the positions, the orders with their ids,
and the balance of the wallet. Every operation of an order touches the account
of its own member only.
-/

namespace StockMarket.Trading
open Interleaving Prog OrderService

structure Account where
  positions : String → Option Position
  orders : List (Order × ℕ)
  balance : ℚ

namespace Account

/-- The shares held of a stock, 0 where there is no position. -/
def shares (a : Account) (stockId : String) : ℤ := (a.positions stockId).elim 0 Position.shares

/-- The shares of EXECUTED buys less those of EXECUTED sells. -/
def executedShares (a : Account) (stockId : String) : ℤ :=
  (a.orders.map fun entry => entry.1.executedShares stockId).sum

/-- The totals of EXECUTED sells less those of EXECUTED buys. -/
def executedCash (a : Account) : ℚ := (a.orders.map fun entry => entry.1.executedCash).sum

def enter (a : Account) (order : Order) (orderId : ℕ) : Account :=
  { a with orders := a.orders ++ [(order, orderId)] }

def setPosition (a : Account) (stockId : String) (position : Option Position) : Account :=
  { a with positions := Function.update a.positions stockId position }

/-- The account with more or less money. -/
def move (a : Account) (amount : ℚ) : Account := { a with balance := a.balance + amount }

section Updates
variable (a : Account) (order : Order) (orderId : ℕ) (stockId : String)
  (position : Option Position) (amount : ℚ)

@[simp] theorem enter_positions : (a.enter order orderId).positions = a.positions := rfl

@[simp] theorem setPosition_self :
    (a.setPosition stockId position).positions stockId = position := by
  simp [setPosition]

theorem setPosition_ne {other : String} (h : other ≠ stockId) :
    (a.setPosition stockId position).positions other = a.positions other :=
  Function.update_of_ne h ..

@[simp] theorem setPosition_setPosition (position' : Option Position) :
    (a.setPosition stockId position).setPosition stockId position' =
      a.setPosition stockId position' := by
  simp [setPosition]

@[simp] theorem setPosition_same : a.setPosition stockId (a.positions stockId) = a := by
  simp [setPosition]

@[simp] theorem move_positions : (a.move amount).positions = a.positions := rfl

@[simp] theorem executedShares_enter : (a.enter order orderId).executedShares stockId =
    a.executedShares stockId + order.executedShares stockId := by
  simp [executedShares, enter]

@[simp] theorem executedCash_enter :
    (a.enter order orderId).executedCash = a.executedCash + order.executedCash := by
  simp [executedCash, enter]

@[simp] theorem executedShares_setPosition (other : String) :
    (a.setPosition stockId position).executedShares other = a.executedShares other := rfl

@[simp] theorem executedCash_setPosition :
    (a.setPosition stockId position).executedCash = a.executedCash := rfl

@[simp] theorem executedShares_move : (a.move amount).executedShares stockId =
    a.executedShares stockId := rfl

@[simp] theorem executedCash_move : (a.move amount).executedCash = a.executedCash := rfl

theorem enter_setPosition : (a.enter order orderId).setPosition stockId position =
    (a.setPosition stockId position).enter order orderId := rfl

theorem setPosition_move : (a.setPosition stockId position).move amount =
    (a.move amount).setPosition stockId position := rfl

end Updates
end Account

theorem zipIdx_modify {α : Type} (f : α → α) (l : List α) (n : ℕ) :
    (l.modify n f).zipIdx = l.zipIdx.map fun e => if e.2 = n then (f e.1, e.2) else e := by
  apply List.ext_getElem?
  intro m
  rw [List.getElem?_map, List.getElem?_zipIdx, List.getElem?_zipIdx, List.getElem?_modify]
  rcases l[m]? with _ | a
  · rfl
  · by_cases h : n = m <;> simp [h, eq_comm]

def Store.ordersOf (s : Store) (memberId : String) : List (Order × ℕ) :=
  s.orders.zipIdx.filter fun entry => entry.1.memberId = memberId

def Store.account (s : Store) (memberId : String) : Account :=
  ⟨s.position memberId, s.ordersOf memberId, s.wallet.balance memberId⟩

section Effects
variable {s : Store} {memberId other stockId : String} {order : Order} {orderId : ℕ}

theorem mem_ordersOf : (order, orderId) ∈ s.ordersOf memberId ↔
    s.orders[orderId]? = some order ∧ order.memberId = memberId := by
  simp [Store.ordersOf, List.mem_zipIdx_iff_getElem?]

theorem nodup_ordersOf (s : Store) (memberId : String) :
    ((s.ordersOf memberId).map Prod.snd).Nodup := by
  apply List.Nodup.sublist (List.filter_sublist.map Prod.snd)
  rw [List.zipIdx_map_snd]
  exact List.nodup_range'

theorem account_congr {s' : Store} (h : s'.accounts = s.accounts) (memberId : String) :
    s'.account memberId = s.account memberId := by
  obtain ⟨hp, ho, hw⟩ := accounts_eq_iff.mp h
  simp only [Store.account, Store.ordersOf, ho, hw, Account.mk.injEq, and_true]
  funext stockId
  rw [Store.position, Store.position, hp]

theorem account_setPosition (s : Store) (memberId stockId : String) (position : Position) :
    (s.setPosition memberId stockId position).account memberId =
      (s.account memberId).setPosition stockId (some position) := by
  simp only [Store.account, Account.setPosition, Account.mk.injEq]
  refine ⟨?_, rfl, rfl⟩
  funext other
  by_cases h : other = stockId
  · subst h
    simp [Store.position, Store.setPosition]
  · simp [Store.position, Store.setPosition, AList.lookup_insert_ne, h]

theorem account_setPosition_ne (h : other ≠ memberId) (stockId : String) (position : Position) :
    (s.setPosition memberId stockId position).account other = s.account other := by
  simp only [Store.account, Account.mk.injEq]
  refine ⟨?_, rfl, rfl⟩
  funext other'
  simp [Store.position, Store.setPosition, AList.lookup_insert_ne, h]

theorem account_deletePosition (s : Store) (memberId stockId : String) :
    (s.deletePosition memberId stockId).account memberId =
      (s.account memberId).setPosition stockId none := by
  simp only [Store.account, Account.setPosition, Account.mk.injEq]
  refine ⟨?_, rfl, rfl⟩
  funext other
  by_cases h : other = stockId
  · subst h
    simp [Store.position, Store.deletePosition]
  · simp [Store.position, Store.deletePosition, AList.lookup_erase_ne, h]

theorem account_deletePosition_ne (h : other ≠ memberId) (stockId : String) :
    (s.deletePosition memberId stockId).account other = s.account other := by
  simp only [Store.account, Account.mk.injEq]
  refine ⟨?_, rfl, rfl⟩
  funext other'
  simp [Store.position, Store.deletePosition, AList.lookup_erase_ne, h]

theorem account_createOrder (remote : Wallet.Faults) (order : Order) (s : Store) :
    (exec remote (.createOrder order) s).2.account order.memberId =
      (s.account order.memberId).enter order s.orders.length := by
  simp only [Store.account, Account.enter, Account.mk.injEq]
  refine ⟨rfl, ?_, rfl⟩
  simp [exec, Store.ordersOf, List.zipIdx_append]

theorem account_createOrder_ne (remote : Wallet.Faults) (h : other ≠ order.memberId) (s : Store) :
    (exec remote (.createOrder order) s).2.account other = s.account other := by
  simp only [Store.account, Account.mk.injEq]
  refine ⟨rfl, ?_, rfl⟩
  simp [exec, Store.ordersOf, List.zipIdx_append, Ne.symm h]

@[simp] theorem memberId_apply (now : Time) (order : Order) (set : OrderUpdate) :
    (OrderUpdate.apply now order set).memberId = order.memberId := by
  cases set <;> rfl

/-- An update rewrites the order where it stands, in whatever account. -/
theorem ordersOf_updateOrder (remote : Wallet.Faults) (orderId : ℕ) (set : OrderUpdate) (s : Store)
    (memberId : String) : (exec remote (.updateOrder orderId set) s).2.ordersOf memberId =
      (s.ordersOf memberId).map fun entry =>
        if entry.2 = orderId then (set.apply s.now entry.1, entry.2) else entry := by
  simp only [exec, Store.ordersOf, zipIdx_modify, List.filter_map]
  congr 1
  apply List.filter_congr
  intro entry _
  simp only [Function.comp_apply]
  split <;> simp

theorem account_updateOrder (remote : Wallet.Faults) {a : Account} (set : OrderUpdate)
    (h : s.account memberId = a.enter order orderId) :
    (exec remote (.updateOrder orderId set) s).2.account memberId =
      a.enter (set.apply s.now order) orderId := by
  have horders : s.ordersOf memberId = a.orders ++ [(order, orderId)] :=
    congrArg Account.orders h
  -- the id is that of the last entry and of no other
  have hfresh (entry : Order × ℕ) (he : entry ∈ a.orders) : entry.2 ≠ orderId := by
    have hnodup := nodup_ordersOf s memberId
    rw [horders, List.map_append, List.nodup_append'] at hnodup
    rintro rfl
    exact hnodup.2.2 (List.mem_map_of_mem he) (by simp)
  have hkept : (a.orders.map fun entry =>
      if entry.2 = orderId then (set.apply s.now entry.1, entry.2) else entry) = a.orders := by
    calc
      _ = a.orders.map id := List.map_congr_left fun entry he => if_neg (hfresh entry he)
      _ = a.orders := List.map_id _
  have hposition := congrArg Account.positions h
  have hbalance := congrArg Account.balance h
  simp only [Store.account, ordersOf_updateOrder, horders, List.map_append, hkept, Account.enter,
    List.map_cons, List.map_nil, if_true, Account.mk.injEq, true_and]
  exact ⟨hposition, hbalance⟩

theorem account_updateOrder_ne (remote : Wallet.Faults) (set : OrderUpdate)
    (horder : s.orders[orderId]? = some order) (h : other ≠ order.memberId) :
    (exec remote (.updateOrder orderId set) s).2.account other = s.account other := by
  have hkept : (s.ordersOf other).map (fun entry =>
      if entry.2 = orderId then (set.apply s.now entry.1, entry.2) else entry) =
        s.ordersOf other := by
    calc
      _ = (s.ordersOf other).map id := List.map_congr_left fun entry he => if_neg ?_
      _ = s.ordersOf other := List.map_id _
    obtain ⟨hstored, hmember⟩ := mem_ordersOf.mp he
    rintro hid
    rw [hid, horder, Option.some.injEq] at hstored
    exact h (hstored ▸ hmember.symm)
  simp only [Store.account, ordersOf_updateOrder, hkept]
  rfl

end Effects
end StockMarket.Trading
