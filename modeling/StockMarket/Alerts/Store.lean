import StockMarket.Trading.Store

/-! # Price alerts and the operations on them

The alert documents in the order MongoDB stores them, the traders and stocks
their owners and companies are read from, and the messages sent to Kafka.
-/

namespace StockMarket.Alerts
open Interleaving

inductive Direction where
  | above | below
  deriving DecidableEq, Repr

structure Alert where
  id : String
  memberId : String
  stockId : String
  ticker : String
  targetPrice : Decimal
  direction : Direction
  triggered : Bool
  memberEmail : String
  memberName : String
  deriving DecidableEq, Repr

structure Collection where
  docs : List Alert
  nodup : (docs.map Alert.id).Nodup

namespace Collection

def find (c : Collection) (p : Alert → Bool) : Collection :=
  ⟨c.docs.filter p, c.nodup.sublist (List.filter_sublist.map _)⟩

def skip (c : Collection) (n : ℕ) : Collection :=
  ⟨c.docs.drop n, c.nodup.sublist ((List.drop_sublist _ _).map _)⟩

/-- `limit(n)`, or no limit. -/
def limit (c : Collection) : Option ℕ → Collection
  | some n => ⟨c.docs.take n, c.nodup.sublist ((List.take_sublist _ _).map _)⟩
  | none => c

/-- Set the flag of one document if its id is listed. -/
def mark (ids : List String) (alert : Alert) : Alert :=
  if alert.id ∈ ids then { alert with triggered := true } else alert

@[simp] theorem id_mark (ids : List String) (alert : Alert) : (mark ids alert).id = alert.id := by
  unfold mark
  split <;> rfl

/-- `updateMany({ _id: { $in: ids } }, { $set: { triggered: true } })`. -/
def trigger (c : Collection) (ids : List String) : Collection :=
  ⟨c.docs.map (mark ids), by
    rw [List.map_map, show Alert.id ∘ mark ids = Alert.id from funext (id_mark ids)]
    exact c.nodup⟩

/-- `{ stockId, triggered: false }`. -/
def waiting (stockId : String) (alert : Alert) : Bool :=
  alert.stockId = stockId ∧ ¬alert.triggered

end Collection

/-- The message on `notification.price.alert`. The worker leaves `companyName`
out, the trading service `alertId`. -/
structure PriceAlertMessage where
  userId : String
  email : String
  name : String
  ticker : String
  companyName : Option String
  targetPrice : Number
  currentPrice : ℚ
  direction : Direction
  alertId : Option String
  deriving DecidableEq, Repr

/-- What one of the services reads: the worker's alerts are in `alerts`, those of the
trading service in `pricealerts`. -/
structure Store where
  alerts : Collection
  traders : String → Option Trading.Trader
  stocks : String → Option Trading.Stock
  outbox : List PriceAlertMessage

inductive AlertOp where
  /-- `alertModel.find({ stockId, triggered: false }).skip(skip).limit(limit)` -/
  | findWaiting (stockId : String) (skip : ℕ) (limit : Option ℕ)
  /-- `alertModel.updateMany({ _id: { $in: ids } }, { $set: { triggered: true } })` -/
  | updateTriggered (ids : List String)
  /-- `traderModel.find({ _id: { $in: ids } })` -/
  | findTraders (ids : List String)
  | findStock (stockId : String)
  | emit (message : PriceAlertMessage)
  deriving DecidableEq

abbrev AlertOp.Reply : AlertOp → Type
  | .findWaiting _ _ _ => Collection
  | .updateTriggered _ => Unit
  | .findTraders _ => List (String × Trading.Trader)
  | .findStock _ => Option Trading.Stock
  | .emit _ => Unit

def exec : (op : AlertOp) → Store → op.Reply × Store
  | .findWaiting stockId skip limit, s =>
      (((s.alerts.find (Collection.waiting stockId)).skip skip).limit limit, s)
  | .updateTriggered ids, s => ((), { s with alerts := s.alerts.trigger ids })
  | .findTraders ids, s => (ids.filterMap fun id => (s.traders id).map (id, ·), s)
  | .findStock stockId, s => (s.stocks stockId, s)
  | .emit message, s => ((), { s with outbox := s.outbox ++ [message] })

/-- A call of the alert worker or of the alert service. -/
abbrev Call (α : Type) := Prog AlertOp AlertOp.Reply Exception α

abbrev query (op : AlertOp) : Call op.Reply := Prog.send op

end StockMarket.Alerts
