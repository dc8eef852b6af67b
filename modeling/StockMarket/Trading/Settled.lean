import StockMarket.Trading.Account
import StockMarket.Interleaving.Pool

/-! # Settled accounts

What a step may do when the database answers and the wallet moves money once or
not at all, and what makes a member's account settled.
-/

namespace StockMarket.Trading
open Interleaving

def TradingOp.isDatabase : TradingOp → Bool
  | .findTrader _ => true
  | .findStock _ => true
  | .createOrder _ => true
  | .updateOrder _ _ => true
  | .incPosition _ _ _ _ => true
  | .findPosition _ _ => true
  | .findPositions _ => true
  | .createPosition _ _ _ => true
  | .updatePosition _ _ _ _ _ => true
  | .deletePosition _ _ => true
  | _ => false

def Answered (response : Except Exception ℚ) : Prop := ∃ b, response = .ok b

/-- A wallet request that succeeds has moved `sign` times its amount for the user,
and one that does not has moved nothing. -/
def TransfersOnce (s s' : Store) (succeeded carried : Prop) (userId : String) (amount : Number)
    (sign : ℚ) : Prop :=
  (succeeded ∧ ∃ a, amount = some a ∧ ∀ owner, s'.wallet.balance owner =
    s.wallet.balance owner + if owner = userId then sign * a else 0) ∨
  (¬succeeded ∧ (carried → ∀ owner, s'.wallet.balance owner = s.wallet.balance owner))

/-- Database calls succeed, and wallet calls move money once or not at all. -/
def Dependable (remote : Wallet.Faults) (s : Store) (op : TradingOp) (o : Outcome Exception) :
    Prop :=
  match op with
  | .postDeduct userId amount orderId =>
      let out : Except Exception ℚ × Store := exec remote (.postDeduct userId amount orderId) s
      TransfersOnce s out.2 (o = .done ∧ Answered out.1) o.applies userId amount (-1)
  | .postCredit userId amount orderId =>
      let out : Except Exception ℚ × Store := exec remote (.postCredit userId amount orderId) s
      TransfersOnce s out.2 (o = .done ∧ Answered out.1) o.applies userId amount 1
  | op => op.isDatabase → o = .done

def dependable (remote : Wallet.Faults) :
    Assumption ℕ TradingOp TradingOp.Reply Store Environment Exception where
  call s _ _ op o := Dependable remote s op o
  env y := y.isExpiry = false

namespace Account

/-- The positions hold what the executed orders have brought, the wallet has
changed by what they have cost, and every order is EXECUTED or REJECTED. -/
structure Settled (opening : ℚ) (a : Account) : Prop where
  shares : ∀ stockId, a.shares stockId = a.executedShares stockId
  document : ∀ stockId, (a.positions stockId).isSome ↔ 0 < a.executedShares stockId
  cash : a.balance = opening + a.executedCash
  closed : ∀ entry ∈ a.orders, entry.1.status = .executed ∨ entry.1.status = .rejected

section Settled
variable {opening : ℚ} {a : Account} {order : Order} {orderId : ℕ}

/-- A settled account has a position for a stock exactly where it has shares. -/
theorem Settled.isSome_iff (h : a.Settled opening) (stockId : String) :
    (a.positions stockId).isSome ↔ 0 < a.shares stockId := by
  rw [h.shares]
  exact h.document stockId

theorem Settled.shares_nonneg (h : a.Settled opening) (stockId : String) :
    0 ≤ a.shares stockId := by
  have hiff := h.isSome_iff stockId
  cases hposition : a.positions stockId with
  | none => simp [Account.shares, hposition]
  | some position =>
    rw [hposition] at hiff
    exact (hiff.mp rfl).le

/-- One more order settles with the position and the money it has moved. -/
theorem Settled.enter (h : a.Settled opening) {stockId : String} {position : Option Position}
    {amount : ℚ} (hstatus : order.status = .executed ∨ order.status = .rejected)
    (hstock : order.stockId = stockId) (hcash : amount = order.executedCash)
    (hshares : position.elim 0 Position.shares =
      a.shares stockId + order.executedShares stockId)
    (hdocument : position.isSome ↔ 0 < position.elim 0 Position.shares) :
    (((a.move amount).setPosition stockId position).enter order orderId).Settled opening := by
  have hother {other : String} (hne : other ≠ stockId) : order.executedShares other = 0 :=
    if_neg fun heq => hne (heq.1.symm.trans hstock)
  have hshares' (other : String) : (((a.move amount).setPosition stockId position).enter order
      orderId).shares other = a.shares other + order.executedShares other := by
    by_cases hne : other = stockId
    · subst hne
      simpa [Account.shares] using hshares
    · simp [Account.shares, setPosition_ne _ _ _ hne, hother hne]
  have hexecuted (other : String) : (((a.move amount).setPosition stockId position).enter order
      orderId).executedShares other = a.shares other + order.executedShares other := by
    rw [executedShares_enter, executedShares_setPosition, executedShares_move, h.shares]
  refine ⟨fun other => (hshares' other).trans (hexecuted other).symm, ?_, ?_, ?_⟩
  · intro other
    rw [hexecuted]
    by_cases hne : other = stockId
    · subst hne
      simpa [← hshares] using hdocument
    · simpa [setPosition_ne _ _ _ hne, hother hne] using h.isSome_iff other
  · have hcash' := h.cash
    rw [executedCash_enter, executedCash_setPosition, executedCash_move, ← hcash, ← add_assoc,
      ← hcash']
    rfl
  · intro entry hentry
    rcases List.mem_append.mp hentry with hold | hnew
    · exact h.closed entry hold
    · rw [List.mem_singleton.mp hnew]
      exact hstatus

theorem Settled.enter_rejected (h : a.Settled opening) (hstatus : order.status = .rejected) :
    (a.enter order orderId).Settled opening := by
  have hexecuted (stockId : String) : order.executedShares stockId = 0 :=
    if_neg fun heq => by rw [hstatus] at heq; cases heq.2
  have hsame : ((a.move 0).setPosition order.stockId (a.positions order.stockId)).enter order
      orderId = a.enter order orderId := by
    simp [Account.move, Account.setPosition, Account.enter]
  rw [← hsame]
  apply h.enter (.inr hstatus) rfl
  · simp [Order.executedCash, hstatus]
  · rw [hexecuted, add_zero]
    rfl
  · exact h.isSome_iff order.stockId

end Settled
end Account

end StockMarket.Trading
