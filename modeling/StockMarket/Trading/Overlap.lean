import StockMarket.Trading.Oversell

/-! # Bought shares when calls overlap

Once all calls have returned, the orders say what was bought and sold. The
position has no fewer shares than that exactly where, on the way, none was
deleted with shares in it and none was added to after it was gone.
-/

namespace StockMarket.Trading
open Interleaving Prog OrderService

/-- The shares of one member and one stock an order has brought, once it is
EXECUTED. -/
def Order.executedFor (memberId stockId : String) (order : Order) : ℤ :=
  if order.memberId = memberId then order.executedShares stockId else 0

/-- The shares of EXECUTED buys less those of EXECUTED sells. -/
def Store.executedShares (s : Store) (memberId stockId : String) : ℤ :=
  (s.orders.map (Order.executedFor memberId stockId)).sum

/-- What the calls for one member and one stock have marked EXECUTED so far. -/
def executedOn (memberId stockId : String) (requests : ℕ → Request) (i : ℕ) (h : History) : ℤ :=
  if (requests i).On memberId stockId then (requests i).executed h else 0

theorem sum_map_modify {α : Type} (g : α → ℤ) (f : α → α) {l : List α} {n : ℕ} {a : α}
    (h : l[n]? = some a) : ((l.modify n f).map g).sum = (l.map g).sum + (g (f a) - g a) := by
  induction l generalizing n with
  | nil => cases h
  | cons b l ih =>
    cases n with
    | zero =>
      cases h
      simp only [List.modify_zero_cons, List.map_cons, List.sum_cons]
      omega
    | succ n =>
      have htail := ih h
      simp only [List.modify_succ_cons, List.map_cons, List.sum_cons]
      omega

section Orders
variable {remote : Wallet.Faults} {requests : ℕ → Request} {s : Store} {log : List LogEntry}
  {memberId stockId : String} {i : ℕ} {h : History} {op : TradingOp} {order : Order}

theorem executedFor_pending (hstatus : order.status = .pending) :
    order.executedFor memberId stockId = 0 := by
  rw [Order.executedFor, Order.executedShares, if_neg (c := _ ∧ _) (by simp [hstatus]), ite_self]

/-- What a placed order counts for once it is EXECUTED. -/
theorem executedFor_executed {r : Request} (hplaces : r.Places order) (now : Time) :
    (OrderUpdate.apply now order .executed).executedFor memberId stockId =
      if r.On memberId stockId then r.signedShares else 0 := by
  obtain ⟨-, hmember, hstock, hshares⟩ := hplaces
  have hsigned : (OrderUpdate.apply now order .executed).signedShares = r.signedShares := hshares
  simp only [Order.executedFor, Order.executedShares, hsigned, Request.On, ← hmember, ← hstock]
  by_cases hm : order.memberId = memberId <;> by_cases hs : order.stockId = stockId <;>
    simp [OrderUpdate.apply, hm, hs]

theorem executedFor_rejected (now : Time) (message : String) :
    (OrderUpdate.apply now order (.rejected message)).executedFor memberId stockId = 0 := by
  rw [Order.executedFor, Order.executedShares, if_neg (c := _ ∧ _) (by simp [OrderUpdate.apply]),
    ite_self]

theorem orders_exec (hop : ∀ order, op ≠ .createOrder order)
    (hop' : ∀ orderId set, op ≠ .updateOrder orderId set) :
    (exec remote op s).2.orders = s.orders := by
  cases op with
  | createOrder order => exact absurd rfl (hop order)
  | updateOrder orderId set => exact absurd rfl (hop' orderId set)
  | incPosition owner stock gte shares =>
    simp only [exec]
    split
    · split <;> rfl
    · rfl
  | _ => simp only [exec] <;> first | rfl | (split <;> rfl)

/-- A call's order is stored as it was placed until the call settles it, and
nobody else has placed it. -/
structure OrdersKept (requests : ℕ → Request) (s : Store) (log : List LogEntry) : Prop where
  stored : ∀ i orderId order, ⟨.createOrder order, orderId⟩ ∈ own i log →
    orderId < s.orders.length ∧ (requests i).Places order ∧
      (¬(own i log).any isSettling → s.orders[orderId]? = some order)
  once : ∀ i j orderId order order', ⟨.createOrder order, orderId⟩ ∈ own i log →
    ⟨.createOrder order', orderId⟩ ∈ own j log → i = j

theorem any_own_cons (j : ℕ) (x : LogEntry) (P : Reaction TradingOp TradingOp.Reply → Bool)
    (hj : (own j log).any P) : (own j (x :: log)).any P := by
  by_cases hx : x.caller = j
  · subst hx
    rw [own_cons_self, List.any_cons, hj, Bool.or_true]
  · rwa [own_cons_ne hx]

theorem length_orders_exec (remote : Wallet.Faults) (op : TradingOp) (s : Store) :
    s.orders.length ≤ (exec remote op s).2.orders.length := by
  cases op with
  | createOrder order => simp [exec]
  | updateOrder orderId set => simp [exec]
  | _ => rw [orders_exec (by simp) (by simp)]

theorem OrdersKept.step (hI : OrdersKept requests s log)
    (hmay : (requests i).May (own i log) op) :
    OrdersKept requests (exec remote op s).2 (⟨i, op, (exec remote op s).1⟩ :: log) := by
  refine ⟨?_, ?_⟩
  · intro j orderId order hmem
    rcases mem_own_exec hmem with ⟨rfl, rfl, rfl⟩ | hold
    · exact ⟨by simp [exec], hmay.1, fun _ => by simp [exec]⟩
    · obtain ⟨hlt, hplaces, hstored⟩ := hI.stored j orderId order hold
      refine ⟨hlt.trans_le (length_orders_exec remote op s), hplaces, ?_⟩
      intro hopen
      have hbefore := hstored fun hsettled => hopen (any_own_cons j _ _ hsettled)
      cases op with
      | createOrder placed =>
        simp only [exec]
        rw [List.getElem?_append_left hlt, hbefore]
      | updateOrder settledId set =>
        simp only [exec]
        by_cases hid : settledId = orderId
        · -- the order is settled by the one call that has placed it
          subst hid
          obtain ⟨⟨placed, hplaced⟩, -⟩ := hmay
          obtain rfl := hI.once i j settledId placed order hplaced hold
          exact absurd (by simp [isSettling]) hopen
        · simp [hid, hbefore]
      | _ => rwa [orders_exec (by simp) (by simp)]
  · intro j j' orderId order order' hmem hmem'
    rcases mem_own_exec hmem with ⟨hj, rfl, hid⟩ | hold <;>
      rcases mem_own_exec hmem' with ⟨hj', hop', hid'⟩ | hold'
    · exact hj.symm.trans hj'
    · have hlt := (hI.stored j' orderId order' hold').1
      have hlength : s.orders.length = orderId := hid
      omega
    · subst hop'
      have hlt := (hI.stored j orderId order hold).1
      have hlength : s.orders.length = orderId := hid'
      omega
    · exact hI.once j j' orderId order order' hold hold'

theorem executedOn_nil (i : ℕ) : executedOn memberId stockId requests i [] = 0 := by
  simp [executedOn, Request.executed]

theorem executedOn_cons_of_same {x : Reaction TradingOp TradingOp.Reply} (hx : ¬isExecution x) :
    executedOn memberId stockId requests i (x :: h) =
      executedOn memberId stockId requests i h := by
  simp [executedOn, Request.executed, hx]

theorem any_isExecution_of_not_settling (hopen : ¬h.any isSettling) : ¬h.any isExecution := by
  simp only [List.any_eq_true, not_exists, not_and] at hopen ⊢
  rintro ⟨op, reply⟩ hx hexecution
  apply hopen _ hx
  cases op <;> first | rfl | cases hexecution

variable (remote memberId stockId) in
/-- One operation changes what is EXECUTED by what its sender has marked. -/
theorem executedShares_step (hI : OrdersKept requests s log)
    (hmay : (requests i).May (own i log) op) :
    (exec remote op s).2.executedShares memberId stockId = s.executedShares memberId stockId +
      (executedOn memberId stockId requests i (⟨op, (exec remote op s).1⟩ :: own i log) -
        executedOn memberId stockId requests i (own i log)) := by
  cases op with
  | createOrder order =>
    rw [executedOn_cons_of_same ?_, sub_self, add_zero]
    · simp [exec, Store.executedShares, executedFor_pending hmay.1.1]
    · exact Bool.false_ne_true
  | updateOrder orderId set =>
    obtain ⟨⟨order, horder⟩, hopen⟩ := hmay
    obtain ⟨-, hplaces, hstored⟩ := hI.stored i orderId order horder
    have hsum := sum_map_modify (Order.executedFor memberId stockId)
      (OrderUpdate.apply s.now · set) (hstored hopen)
    rw [executedFor_pending hplaces.1, sub_zero] at hsum
    have hexec : (exec remote (.updateOrder orderId set) s).2.executedShares memberId stockId =
        s.executedShares memberId stockId +
          (OrderUpdate.apply s.now order set).executedFor memberId stockId := hsum
    rw [hexec]
    cases set with
    | executed =>
      have hnot := any_isExecution_of_not_settling hopen
      rw [executedFor_executed hplaces]
      simp [executedOn, Request.executed, isExecution, hnot]
    | rejected message =>
      rw [executedFor_rejected, executedOn_cons_of_same ?_, sub_self]
      exact Bool.false_ne_true
  | _ =>
    rw [executedOn_cons_of_same ?_, sub_self, add_zero, Store.executedShares,
      orders_exec (by simp) (by simp)]
    · rfl
    · exact Bool.false_ne_true

end Orders

section Run
variable {remote : Wallet.Faults} {requests : ℕ → Request} {memberId stockId : String}

/-- The EXECUTED orders are those the calls have marked. -/
theorem executedShares_run (remote : Wallet.Faults) (store : Store) (requests : ℕ → Request)
    (memberId stockId : String) (sched : Schedule) :
    let c := (State.start store requests).run (backend remote) sched
    c.Conforms (protocol requests) ∧ c.store.executedShares memberId stockId =
      store.executedShares memberId stockId +
        tally (executedOn memberId stockId requests) c.log := by
  have hrun := Config.run_invariant (B := backend remote) (A := unrestricted)
    (P := protocol requests) (E := Environment) (α := Option Order)
    (I := fun s log => OrdersKept requests s log ∧ s.executedShares memberId stockId =
      store.executedShares memberId stockId + tally (executedOn memberId stockId requests) log)
    (fun _ _ _ _ _ _ => trivial) ?_ ?_ (c := State.start store requests)
    (Config.conforms_start fun i => follows_serve i (requests i)) ?_ sched
    (Assumption.along_of_forall _ _ (fun _ _ _ _ _ => trivial) (fun _ => trivial) _ sched)
  · exact ⟨hrun.1, hrun.2.2⟩
  · rintro s log i op o ⟨hI, hsum⟩ hmay -
    refine ⟨hI.step hmay, ?_⟩
    calc
      _ = s.executedShares memberId stockId + _ :=
        executedShares_step remote memberId stockId hI hmay
      _ = _ := by rw [hsum, add_assoc, ← tally_cons executedOn_nil]; rfl
  · rintro s log y ⟨hI, hsum⟩ -
    cases y <;> exact ⟨⟨hI.stored, hI.once⟩, hsum⟩
  · refine ⟨⟨?_, ?_⟩, (add_zero _).symm⟩
    · rintro i orderId order ⟨⟩
    · rintro i j orderId order order' ⟨⟩

def Returned (c : State) (i : ℕ) : Prop := ∃ order, c.result i = some (.ok order)

/-- Once the calls for a member and a stock have returned, what they have brought
is what they have marked EXECUTED. -/
theorem tally_eq_of_returned {c : State} (hc : c.Conforms (protocol requests))
    (hreturned : ∀ i, (requests i).On memberId stockId → own i c.log = [] ∨ Returned c i) :
    tally (netOn memberId stockId requests) c.log =
      tally (executedOn memberId stockId requests) c.log := by
  apply tally_congr
  intro i
  by_cases hon : (requests i).On memberId stockId
  · rcases hreturned i hon with hnone | ⟨order, hresult⟩
    · rw [hnone, netOn_nil, executedOn_nil]
    · obtain ⟨hnet, hexecuted⟩ := Request.Done.net_eq (hc.returned hresult)
      rw [netOn, executedOn, hnet, hexecuted]
  · rw [netOn, executedOn, if_neg hon, if_neg hon]

end Run

/-- Once all calls for a member and a stock have returned, the position has at
least the shares of the EXECUTED buys less those of the EXECUTED sells exactly
where every step has kept shares. -/
theorem executed_le_shares_iff (remote : Wallet.Faults) (store : Store) (requests : ℕ → Request)
    (memberId stockId : String) (sched : Schedule)
    (hstart : store.executedShares memberId stockId = store.shares memberId stockId ∧
      0 ≤ store.shares memberId stockId) :
    let c := (State.start store requests).run (backend remote) sched
    (∀ i, (requests i).On memberId stockId → own i c.log = [] ∨ Returned c i) →
      (c.store.executedShares memberId stockId ≤ c.store.shares memberId stockId ↔
        (keepsShares memberId stockId).Along (backend remote) (State.start store requests)
          sched) := by
  intro c hreturned
  obtain ⟨hconforms, hexecuted⟩ := executedShares_run remote store requests memberId stockId sched
  obtain ⟨-, hle, halong⟩ := missing_run remote requests hstart.2 sched
  have htally : tally (netOn memberId stockId requests) c.log =
      tally (executedOn memberId stockId requests) c.log :=
    tally_eq_of_returned hconforms hreturned
  have hmissing : missing memberId stockId requests c =
      c.store.executedShares memberId stockId - store.shares memberId stockId -
        c.store.shares memberId stockId := by
    have hexecuted' : c.store.executedShares memberId stockId =
        store.executedShares memberId stockId +
          tally (executedOn memberId stockId requests) c.log := hexecuted
    rw [missing, htally]
    omega
  rw [missing_start] at hle halong
  rw [← halong]
  have hle' : -store.shares memberId stockId ≤ missing memberId stockId requests c := hle
  constructor
  · intro h
    show missing memberId stockId requests c = _
    omega
  · intro h
    have h' : missing memberId stockId requests c = -store.shares memberId stockId := h
    omega

theorem returned_overlapping {sched : Schedule}
    (hfinal : ∀ i < 3, (((State.start unopened overlapping).run (backend Wallet.answered)
      sched).result i).any Except.isOk) (i : ℕ) (hi : (overlapping i).On "m" "s") :
    own i ((State.start unopened overlapping).run (backend Wallet.answered) sched).log = [] ∨
      Returned ((State.start unopened overlapping).run (backend Wallet.answered) sched) i := by
  refine .inr ?_
  have hlt : i < 3 := by
    match i with
    | 0 | 1 | 2 => decide
    | n + 3 => simp [overlapping, Request.On, Request.memberId] at hi
  have hok := hfinal i hlt
  rcases hresult : ((State.start unopened overlapping).run (backend Wallet.answered) sched).result
    i with _ | _ | order <;> rw [hresult] at hok
  · cases hok
  · cases hok
  · exact ⟨order, hresult⟩

/-- One order after the other keeps the shares. -/
theorem keepsShares_inTurn : (keepsShares "m" "s").Along (backend Wallet.answered)
    (State.start unopened overlapping) inTurn :=
  (executed_le_shares_iff Wallet.answered unopened overlapping "m" "s" inTurn (by decide +kernel)
    (returned_overlapping (by decide +kernel))).mp (by decide +kernel)

/-- Every call is answered and returns. Five shares were bought more than sold,
and the position is gone. -/
theorem bought_shares_deleted :
    let c := (State.start unopened overlapping).run (backend Wallet.answered) overlap
    (∀ i, (overlapping i).On "m" "s" → own i c.log = [] ∨ Returned c i) ∧
      c.store.executedShares "m" "s" = 5 ∧ c.store.shares "m" "s" = 0 ∧
      ¬c.store.executedShares "m" "s" ≤ c.store.shares "m" "s" := by
  intro c
  have hexecuted : c.store.executedShares "m" "s" = 5 := by decide +kernel
  have hshares : c.store.shares "m" "s" = 0 := by decide +kernel
  refine ⟨returned_overlapping (by decide +kernel), hexecuted, hshares, ?_⟩
  rw [hexecuted, hshares]
  decide

end StockMarket.Trading
