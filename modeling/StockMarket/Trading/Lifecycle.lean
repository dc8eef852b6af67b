import StockMarket.Trading.Overlap
import StockMarket.Trading.Conservation

/-! # The life of an order

An order is placed PENDING and settled at most once, by the call that has placed
it. Whatever the other calls do, and whatever fails, it is never touched again: the
order a member is answered with is the order that stays on record.
-/

namespace StockMarket.Trading
open Interleaving Prog OrderService

/-- What an order may be found as later. -/
inductive Order.Becomes (order : Order) : Order → Prop
  | kept : order.Becomes order
  | settled (pending : order.status = .pending) (set : OrderUpdate) (now : Time) :
      order.Becomes (set.apply now order)

section Becomes
variable {order order' order'' : Order}

theorem OrderUpdate.status_apply_ne_pending (set : OrderUpdate) (now : Time) (order : Order) :
    (set.apply now order).status ≠ .pending := by
  cases set <;> simp [apply]

theorem Order.Becomes.eq (h : order.Becomes order') (hsettled : order.status ≠ .pending) :
    order' = order := by
  cases h with
  | kept => rfl
  | settled pending set now => exact absurd pending hsettled

theorem Order.Becomes.trans (h : order.Becomes order') (h' : order'.Becomes order'') :
    order.Becomes order'' := by
  cases h with
  | kept => exact h'
  | settled pending set now =>
    rw [h'.eq (set.status_apply_ne_pending now order)]
    exact .settled pending set now

end Becomes

/-- Every order of the earlier collection is still there. -/
def StillThere (orders orders' : List Order) : Prop :=
  ∀ (orderId : ℕ) (order : Order), orders[orderId]? = some order →
    ∃ order', orders'[orderId]? = some order' ∧ order.Becomes order'

section Step
variable {remote : Wallet.Faults} {requests : ℕ → Request} {s : Store} {log : List LogEntry}
  {i : ℕ} {op : TradingOp}

theorem StillThere.refl (orders : List Order) : StillThere orders orders :=
  fun _ order horder => ⟨order, horder, .kept⟩

theorem StillThere.trans {orders orders' orders'' : List Order} (h : StillThere orders orders')
    (h' : StillThere orders' orders'') : StillThere orders orders'' := by
  intro orderId order horder
  obtain ⟨order', horder', hbecomes⟩ := h orderId order horder
  obtain ⟨order'', horder'', hbecomes'⟩ := h' orderId order' horder'
  exact ⟨order'', horder'', hbecomes.trans hbecomes'⟩

/-- An order is updated by the one call that has placed it, which finds it PENDING. -/
theorem OrdersKept.updated (hI : OrdersKept requests s log) {orderId : ℕ} {set : OrderUpdate}
    (hmay : (requests i).May (own i log) (.updateOrder orderId set)) :
    ∃ placed, s.orders[orderId]? = some placed ∧ (requests i).Places placed := by
  obtain ⟨⟨placed, hplaced⟩, hopen⟩ := hmay
  obtain ⟨-, hplaces, hstored⟩ := hI.stored i orderId placed hplaced
  exact ⟨placed, hstored hopen, hplaces⟩

theorem stillThere_exec (hI : OrdersKept requests s log)
    (hmay : (requests i).May (own i log) op) :
    StillThere s.orders (exec remote op s).2.orders := by
  cases op with
  | createOrder placed =>
    intro orderId order horder
    refine ⟨order, ?_, .kept⟩
    obtain ⟨hlt, -⟩ := List.getElem?_eq_some_iff.mp horder
    simp only [exec]
    rw [List.getElem?_append_left hlt, horder]
  | updateOrder settledId set =>
    obtain ⟨placed, hstored, hplaces⟩ := hI.updated hmay
    intro orderId order horder
    simp only [exec, List.getElem?_modify]
    by_cases hid : settledId = orderId
    · subst hid
      cases hstored.symm.trans horder
      exact ⟨set.apply s.now placed, by simp [horder], .settled hplaces.1 set s.now⟩
    · exact ⟨order, by simp [hid, horder], .kept⟩
  | _ =>
    rw [orders_exec (by simp) (by simp)]
    exact .refl _

/-- An order that a call was answered with, on record and for what it asked. -/
def Recorded (r : Request) (s : Store) (orderId : ℕ) (order : Order) : Prop :=
  s.orders[orderId]? = some order ∧ order.status = .executed ∧ order.executedAt.isSome ∧
    order.memberId = r.memberId ∧ order.stockId = r.dto.stockId ∧
    order.signedShares = r.signedShares

/-- Whatever an update to EXECUTED was answered with is recorded. -/
def Acknowledged (requests : ℕ → Request) (s : Store) (log : List LogEntry) : Prop :=
  ∀ i orderId answer, ⟨.updateOrder orderId .executed, answer⟩ ∈ own i log →
    ∃ order, answer = some order ∧ Recorded (requests i) s orderId order

theorem Recorded.later {r : Request} {s' : Store} {orderId : ℕ} {order : Order}
    (h : Recorded r s orderId order) (hlater : StillThere s.orders s'.orders) :
    Recorded r s' orderId order := by
  obtain ⟨horder, hstatus, hrest⟩ := h
  obtain ⟨order', horder', hbecomes⟩ := hlater orderId order horder
  obtain rfl := hbecomes.eq (by simp [hstatus])
  exact ⟨horder', hstatus, hrest⟩

theorem Acknowledged.step (hI : OrdersKept requests s log) (hA : Acknowledged requests s log)
    (hmay : (requests i).May (own i log) op) :
    Acknowledged requests (exec remote op s).2 (⟨i, op, (exec remote op s).1⟩ :: log) := by
  intro j orderId answer hmem
  rcases mem_own_exec hmem with ⟨rfl, rfl, rfl⟩ | hold
  · obtain ⟨placed, hstored, hplaces⟩ := hI.updated hmay
    refine ⟨OrderUpdate.apply s.now placed .executed, ?_, ?_, rfl, rfl, ?_⟩
    · simp [exec, hstored]
    · simp [exec, hstored]
    · exact hplaces.2
  · obtain ⟨order, hanswer, hrecorded⟩ := hA j orderId answer hold
    exact ⟨order, hanswer, hrecorded.later (stillThere_exec hI hmay)⟩

end Step

/-! ## What a call returns -/

/-- The result is the answer to an update to EXECUTED. -/
def Answer (h : History) (answer : Option Order) : Prop :=
  ∃ orderId, ⟨.updateOrder orderId .executed, answer⟩ ∈ h

/-- Anything may be sent. A call that returns gives the answer to its own update. -/
def answering : Protocol ℕ TradingOp TradingOp.Reply Exception (Option Order) where
  may _ _ _ := True
  ends _ _ _ := True
  post _ := Returns Answer

section Walk
variable {α : Type} {h : History}

abbrev Answers (h : History) (p : Call (Option Order)) : Prop :=
  p.Obeys (fun _ _ => True) (fun _ _ => True) (Returns Answer) h

/-- What a call does before it returns its answer does not matter. -/
theorem answers_bind (p : Call α) {k : α → Call (Option Order)} (hk : ∀ h a, Answers h (k a)) :
    Answers h (p >>= k) :=
  (Obeys.of_sends (sends_true p) fun _ _ _ => trivial).bind (fun h' a _ => hk h' a)
    fun _ _ _ => trivial

theorem answers_markExecuted (memberId : String) (orderId : ℕ) (event : TradeExecutedEvent) :
    Answers h (markExecuted memberId orderId event) := by
  refine Obeys.send trivial ?_
  intro answer
  -- the deletion that is swallowed only adds to the history
  refine Obeys.bind (Obeys.extends (sends_true _) fun _ _ _ => trivial) ?_ fun _ _ _ => trivial
  rintro _ _ ⟨swallowed, rfl, -⟩
  refine Obeys.send trivial ?_
  intro emitted
  exact ⟨orderId, by simp⟩

theorem answers_withMemberLock {uuid : ℕ} {memberId : String} {fn : Call (Option Order)}
    (hfn : ∀ h, Answers h fn) : Answers h (LockService.withMemberLock uuid memberId fn) := by
  apply answers_bind
  intro h' token
  apply (hfn h').finallyDo
  intro h'' res hres
  refine (Obeys.extends (sends_true _) fun _ _ _ => trivial).mono ?_
  rintro _ done ⟨new, rfl, -⟩
  cases done with
  | error e => trivial
  | ok u =>
    cases res with
    | error e => trivial
    | ok answer =>
      obtain ⟨orderId, hmem⟩ := hres
      exact ⟨orderId, List.mem_append_right _ hmem⟩

theorem answers_serve (uuid : ℕ) (r : Request) : Answers [] (r.serve uuid) := by
  cases r with
  | buy memberId dto =>
    apply answers_bind
    intro _ trader
    apply answers_bind
    intro _ stock
    apply answers_withMemberLock
    intro _
    apply answers_bind
    intro _ orderId
    apply answers_bind
    intro _ deducted
    apply answers_bind
    intro _ upserted
    exact answers_markExecuted _ _ _
  | sell memberId dto =>
    apply answers_bind
    intro _ trader
    apply answers_bind
    intro _ stock
    apply answers_withMemberLock
    intro _
    apply answers_bind
    intro _ position
    cases position with
    | none => trivial
    | some position =>
      apply answers_bind
      intro _ orderId
      apply answers_bind
      intro _ credited
      dsimp only
      split
      · apply answers_bind
        intro _ deleted
        exact answers_markExecuted _ _ _
      · exact answers_markExecuted _ _ _

end Walk

section Run
variable {remote : Wallet.Faults} {requests : ℕ → Request}

/-- The orders are kept, and what has been acknowledged is recorded. -/
theorem ordersKept_run (remote : Wallet.Faults) (store : Store) (requests : ℕ → Request)
    (sched : Schedule) :
    let c := (State.start store requests).run (backend remote) sched
    c.Conforms (protocol requests) ∧ OrdersKept requests c.store c.log ∧
      Acknowledged requests c.store c.log := by
  refine Config.run_invariant (B := backend remote) (A := unrestricted) (P := protocol requests)
    (I := fun s log => OrdersKept requests s log ∧ Acknowledged requests s log)
    (fun _ _ _ _ _ _ => trivial) ?_ ?_
    (Config.conforms_start fun i => follows_serve i (requests i)) ⟨⟨?_, ?_⟩, ?_⟩ sched
    (Assumption.along_of_forall _ _ (fun _ _ _ _ _ => trivial) (fun _ => trivial) _ sched)
  · rintro s log i op o ⟨hI, hA⟩ hmay -
    exact ⟨hI.step hmay, hA.step hI hmay⟩
  · rintro s log y ⟨hI, hA⟩ -
    cases y <;> exact ⟨⟨hI.stored, hI.once⟩, hA⟩
  · rintro i orderId order ⟨⟩
  · rintro i j orderId order order' ⟨⟩
  · rintro i orderId answer ⟨⟩

end Run

/-- From any state of any run on, whatever fails: an order is settled at most once,
from PENDING to EXECUTED or REJECTED, and nothing else of it ever changes. -/
theorem orders_settle_once (remote : Wallet.Faults) (store : Store) (requests : ℕ → Request)
    (sched later : Schedule) :
    let c := (State.start store requests).run (backend remote) sched
    StillThere c.store.orders (c.run (backend remote) later).store.orders := by
  intro c
  obtain ⟨hconforms, hI, -⟩ := ordersKept_run remote store requests sched
  refine (Config.run_invariant (B := backend remote) (A := unrestricted) (P := protocol requests)
    (I := fun s log => OrdersKept requests s log ∧ StillThere c.store.orders s.orders)
    (fun _ _ _ _ _ _ => trivial) ?_ ?_ hconforms ⟨hI, .refl _⟩ later
    (Assumption.along_of_forall _ _ (fun _ _ _ _ _ => trivial) (fun _ => trivial) _ later)).2.2
  · rintro s log i op o ⟨hI, hthere⟩ hmay -
    exact ⟨hI.step hmay, hthere.trans (stillThere_exec hI hmay)⟩
  · rintro s log y ⟨hI, hthere⟩ -
    cases y <;> exact ⟨⟨hI.stored, hI.once⟩, hthere⟩

/-- A member is only answered with an EXECUTED order for what was asked, and that order
stays on record just so, whatever happens afterwards. -/
theorem acknowledged_order_durable (remote : Wallet.Faults) (store : Store)
    (requests : ℕ → Request) (sched later : Schedule) (i : ℕ) (answer : Option Order)
    (hreturned : ((State.start store requests).run (backend remote) sched).result i =
      some (.ok answer)) :
    ∃ orderId order, answer = some order ∧
      Recorded (requests i)
        (((State.start store requests).run (backend remote) sched).run (backend remote)
          later).store orderId order := by
  obtain ⟨hconforms, hI, hA⟩ := ordersKept_run remote store requests sched
  have hanswers : ((State.start store requests).run (backend remote) sched).Conforms answering :=
    (Config.run_invariant (A := unrestricted) (P := answering) (I := fun _ _ => True)
      (fun _ _ _ _ _ _ => trivial) (fun _ _ _ _ _ _ _ _ => trivial) (fun _ _ _ _ _ => trivial)
      (Config.conforms_start fun i => answers_serve i (requests i)) trivial sched
      (Assumption.along_of_forall _ _ (fun _ _ _ _ _ => trivial) (fun _ => trivial) _ sched)).1
  obtain ⟨orderId, hmem⟩ := hanswers.returned hreturned
  obtain ⟨order, rfl, hrecorded⟩ := hA i orderId answer hmem
  refine ⟨orderId, order, rfl, ?_⟩
  refine (Config.run_invariant (B := backend remote) (A := unrestricted) (P := protocol requests)
    (I := fun s log => OrdersKept requests s log ∧ Recorded (requests i) s orderId order)
    (fun _ _ _ _ _ _ => trivial) ?_ ?_ hconforms ⟨hI, hrecorded⟩ later
    (Assumption.along_of_forall _ _ (fun _ _ _ _ _ => trivial) (fun _ => trivial) _ later)).2.2
  · rintro s log j op o ⟨hI, hrecorded⟩ hmay -
    exact ⟨hI.step hmay, hrecorded.later (stillThere_exec hI hmay)⟩
  · rintro s log y ⟨hI, hrecorded⟩ -
    cases y <;> exact ⟨⟨hI.stored, hI.once⟩, hrecorded⟩

theorem acknowledged_order_durable_buyFirst :
    ∃ orderId order, ((State.start unopened buyAndSell).run (backend Wallet.answered)
        buyFirst).result 0 = some (.ok (some order)) ∧
      Recorded (.buy "m" ⟨"s", 8, by decide⟩)
        (((State.start unopened buyAndSell).run (backend Wallet.answered) buyFirst).run
          (backend Wallet.answered) [.crash 1, .env (.expire "lock:member:m")]).store orderId
        order := by
  have hreturned : ∃ answer, ((State.start unopened buyAndSell).run (backend Wallet.answered)
      buyFirst).result 0 = some (.ok answer) := by
    have hok : (((State.start unopened buyAndSell).run (backend Wallet.answered)
        buyFirst).result 0).any Except.isOk = true := by decide +kernel
    rcases hresult : ((State.start unopened buyAndSell).run (backend Wallet.answered)
      buyFirst).result 0 with _ | _ | answer <;> rw [hresult] at hok
    · cases hok
    · cases hok
    · exact ⟨answer, rfl⟩
  obtain ⟨answer, hanswer⟩ := hreturned
  obtain ⟨orderId, order, rfl, hrecorded⟩ := acknowledged_order_durable Wallet.answered unopened
    buyAndSell buyFirst [.crash 1, .env (.expire "lock:member:m")] 0 answer hanswer
  exact ⟨orderId, order, hanswer, hrecorded⟩

end StockMarket.Trading
