import StockMarket.Trading.Buy
import StockMarket.Trading.Sell
import StockMarket.Trading.Overlap

/-! # The price an order takes from the cache

A cached stock comes back with its price as the plain object the JSON text
parses to. An order created from it is compared with one that reads the stock
from MongoDB.
-/

namespace StockMarket.Trading
open Interleaving Prog OrderService

/-- What fills and empties the stock cache while no stock changes. -/
inductive Lookup where
  | findById (stockId : String) (faults : Faults)
  | evict (key : String)

def Store.lookUp (remote : Wallet.Faults) (s : Store) : Lookup → Store
  | .findById stockId faults => ((StockService.findById stockId).run (exec remote) faults s).2
  | .evict key => (backend remote).env (.evictStock key) s

def Store.afterLookups (remote : Wallet.Faults) (s : Store) (lookups : List Lookup) : Store :=
  lookups.foldl (Store.lookUp remote) s

def CacheHit (faults : Faults) (s : Store) (stockId : String) : Prop :=
  faults (.getStockCache (RedisKeys.stockCache stockId)) = .done ∧
    s.stockCache (RedisKeys.stockCache stockId) ≠ none

section Lookups
variable {remote : Wallet.Faults} {s s' : Store}

/-- Lookups leave all but the cache alone, and the cache holds what JSON makes of stored
stocks. -/
structure Looked (s s' : Store) : Prop where
  stocks : s'.stocks = s.stocks
  accounts : s'.accounts = s.accounts
  cached : ∀ stockId stock', s'.stockCache (RedisKeys.stockCache stockId) = some stock' →
    ∃ stock, s.stocks stockId = some stock ∧ stock' = stock.viaJson

/-- A `findById` changes nothing, or caches the stock. -/
theorem findById_store (remote : Wallet.Faults) (faults : Faults) (stockId : String) (s : Store) :
    let x := ((StockService.findById stockId).run (exec remote) faults s).2
    x = s ∨ ∃ stock, s.stocks stockId = some stock ∧
      x = (exec remote (.setStockCache (RedisKeys.stockCache stockId) stock) s).2 := by
  intro x
  obtain ⟨y, hget, hy⟩ := run_swallow remote faults
    (.getStockCache (RedisKeys.stockCache stockId)) none s
  obtain rfl : y = s := hy.elim id id
  have hx : x = ((StockService.findById stockId).run (exec remote) faults y).2 := rfl
  rw [StockService.findById, run_bind, hget, andThen_ok] at hx
  generalize (if faults (.getStockCache (RedisKeys.stockCache stockId)) = .done
    then (exec remote (.getStockCache (RedisKeys.stockCache stockId)) y).1 else none) = cached at hx
  rcases cached with _ | cached
  · by_cases hdone : faults (.findStock stockId) = .done
    · dsimp only at hx
      rw [run_send_bind_done (exec remote) faults _ y hdone] at hx
      have hread : exec remote (.findStock stockId) y = (y.stocks stockId, y) := rfl
      rw [hread] at hx
      rcases hstock : y.stocks stockId with _ | stock
      · simp only [hstock] at hx
        exact .inl hx
      · obtain ⟨z, hset, hz⟩ := run_swallow remote faults
          (.setStockCache (RedisKeys.stockCache stockId) stock) () y
        simp only [hstock, run_bind, hset] at hx
        rcases hz with rfl | hz
        · exact .inl hx
        · exact .inr ⟨stock, rfl, hx.trans hz⟩
    · obtain ⟨e, hrun⟩ := run_read_bind_thrown (exec remote) faults _ (x := y) rfl hdone
      dsimp only at hx
      rw [hrun] at hx
      exact .inl hx
  · exact .inl hx

theorem Looked.step (h : Looked s s') (lookup : Lookup) : Looked s (s'.lookUp remote lookup) := by
  cases lookup with
  | findById stockId faults =>
    rcases findById_store remote faults stockId s' with hx | ⟨stock, hstock, hx⟩
    · rw [Store.lookUp, hx]
      exact h
    · rw [Store.lookUp, hx]
      refine ⟨h.stocks, h.accounts, ?_⟩
      intro other stock' hcached
      simp only [exec] at hcached
      by_cases hother : other = stockId
      · subst hother
        rw [Function.update_self] at hcached
        exact ⟨stock, by rw [← h.stocks, hstock], (Option.some.inj hcached).symm⟩
      · rw [Function.update_of_ne fun hkey => hother (stockCache_inj hkey)] at hcached
        exact h.cached other stock' hcached
  | evict key =>
    refine ⟨h.stocks, h.accounts, ?_⟩
    intro stockId stock' hcached
    simp only [Store.lookUp, backend] at hcached
    by_cases hkey : RedisKeys.stockCache stockId = key
    · subst hkey
      rw [Function.update_self] at hcached
      cases hcached
    · rw [Function.update_of_ne hkey] at hcached
      exact h.cached stockId stock' hcached

theorem looked_afterLookups (remote : Wallet.Faults) (hcold : ∀ key, s.stockCache key = none)
    (lookups : List Lookup) : Looked s (s.afterLookups remote lookups) := by
  induction lookups using List.reverseRecOn with
  | nil => exact ⟨rfl, rfl, fun _ _ hcached => by cases (hcold _).symm.trans hcached⟩
  | append_singleton lookups lookup ih =>
    rw [Store.afterLookups, List.foldl_concat]
    exact ih.step lookup

/-- The price in the form an order reads it: the stored one on a miss, `NaN` on a hit. -/
theorem parseFloat_seen (h : Looked s s') {faults : Faults} {stockId : String} {stock seen : Stock}
    {p : ℚ} (hstock : s.stocks stockId = some stock) (hprice : stock.currentPrice = .bson (some p))
    (hseen : stockSeen faults s' stockId = some seen) :
    seen.currentPrice.parseFloat = some p ↔ ¬CacheHit faults s' stockId := by
  rw [stockSeen] at hseen
  by_cases hhit : CacheHit faults s' stockId
  · obtain ⟨hdone, hfilled⟩ := hhit
    obtain ⟨stock', hcached⟩ := Option.ne_none_iff_exists'.mp hfilled
    obtain ⟨stored, hstored, rfl⟩ := h.cached stockId stock' hcached
    obtain rfl := Option.some.inj (hstock.symm.trans hstored)
    simp only [hdone, if_true, hcached, Option.some.injEq] at hseen
    refine iff_of_false ?_ (not_not.mpr ⟨hdone, hfilled⟩)
    rw [← hseen, Stock.viaJson, hprice]
    exact fun hnan => by cases hnan
  · have hnone : (if faults (.getStockCache (RedisKeys.stockCache stockId)) = .done
        then s'.stockCache (RedisKeys.stockCache stockId) else none) = none := by
      by_contra hfilled
      split at hfilled
      · exact hhit ⟨‹_›, hfilled⟩
      · exact hfilled rfl
    rw [hnone] at hseen
    dsimp only at hseen
    split at hseen
    · rw [h.stocks, hstock] at hseen
      obtain rfl := Option.some.inj hseen
      exact iff_of_true (by rw [hprice]; rfl) hhit
    · cases hseen

end Lookups

section Orders

/-- Of orders, the operation creates only such with this price. -/
def TradingOp.Prices (price : Number) : TradingOp → Prop
  | .createOrder doc => doc.pricePerShare = price
  | _ => True

theorem prices_of_neutral (price : Number) (op : TradingOp) (hop : ¬op.isTrade) :
    op.Prices price := by
  cases op <;> trivial

variable {memberId : String} {dto : PlaceOrderDto} {trader : Trader} {stock : Stock}

theorem markExecuted_prices (price : Number) (memberId : String) (orderId : ℕ)
    (event : TradeExecutedEvent) :
    (markExecuted memberId orderId event).Sends (TradingOp.Prices price) := by
  apply Sends.send trivial
  intro executed
  apply Sends.bind
  · exact sends_swallow trivial _
  intro deleted
  apply Sends.send trivial
  exact fun _ => trivial

theorem buyLocked_prices (memberId : String) (dto : PlaceOrderDto) (trader : Trader)
    (stock : Stock) :
    (buyLocked memberId dto trader stock).Sends
      (TradingOp.Prices stock.currentPrice.parseFloat) := by
  apply Sends.send
  · rfl
  intro orderId
  apply Sends.bind
  · apply Sends.catching
    · exact (deduct_neutral ..).mono (prices_of_neutral _)
    · intro err
      apply Sends.send trivial
      exact fun _ => trivial
  intro deducted
  apply Sends.bind
  · apply Sends.send trivial
    intro existing
    cases existing with
    | none =>
      apply Sends.send trivial
      intro created
      cases created <;> trivial
    | some existing => exact sends_send trivial
  · exact fun _ => markExecuted_prices ..

theorem sellLocked_prices (memberId : String) (dto : PlaceOrderDto) (trader : Trader)
    (stock : Stock) :
    (sellLocked memberId dto trader stock).Sends
      (TradingOp.Prices stock.currentPrice.parseFloat) := by
  refine Sends.send trivial ?_
  intro reply
  cases reply with
  | none => trivial
  | some position =>
    refine Sends.send rfl ?_
    intro orderId
    apply Sends.bind
    · apply Sends.catching
      · exact (credit_neutral ..).mono (prices_of_neutral _)
      · intro err
        apply Sends.send trivial
        intro restored
        apply Sends.send trivial
        exact fun _ => trivial
    intro credited
    dsimp only
    split
    · apply Sends.send trivial
      exact fun _ => markExecuted_prices ..
    · exact markExecuted_prices ..

/-- The orders from the `n`-th on have this price. -/
def PricedFrom (n : ℕ) (price : Number) (s : Store) : Prop :=
  n ≤ s.orders.length ∧ ∀ k order, n ≤ k → s.orders[k]? = some order → order.pricePerShare = price

theorem pricePerShare_apply (now : Time) (order : Order) (set : OrderUpdate) :
    (OrderUpdate.apply now order set).pricePerShare = order.pricePerShare := by
  cases set <;> rfl

theorem PricedFrom.step {remote : Wallet.Faults} {n : ℕ} {price : Number} (op : TradingOp)
    (s : Store) (hop : op.Prices price) (h : PricedFrom n price s) :
    PricedFrom n price (exec remote op s).2 := by
  obtain ⟨hn, hpriced⟩ := h
  refine ⟨hn.trans (length_orders_exec remote op s), ?_⟩
  cases op with
  | createOrder doc =>
    intro k order hk horder
    rcases getElem?_concat_cases horder with hold | ⟨-, rfl⟩
    · exact hpriced k order hk hold
    · exact hop
  | updateOrder orderId set =>
    intro k order hk horder
    simp only [exec, List.getElem?_modify] at horder
    obtain ⟨old, hold, rfl⟩ := Option.map_eq_some_iff.mp horder
    have hprice := hpriced k old hk hold
    split
    · rw [pricePerShare_apply]
      exact hprice
    · exact hprice
  | _ => rwa [orders_exec (by simp) (by simp)]

/-- An order that is created takes the price of the stock it has seen. -/
theorem createdOrder_price (remote : Wallet.Faults) (uuid : ℕ) (request : Request) (faults : Faults)
    {s : Store} {order : Order}
    (h : ((request.serve uuid).run (exec remote) faults s).2.orders[s.orders.length]? =
      some order) :
    ∃ seen, stockSeen faults s request.dto.stockId = some seen ∧
      order.pricePerShare = seen.currentPrice.parseFloat := by
  have hbody {stockId : String} {free : Stock → Prop}
      {body : Trader → Stock → Call (Option Order)} {out : Except Exception (Option Order) × Store}
      (hrun : OrderRun remote faults uuid request.memberId stockId free body s out)
      (hprices : ∀ trader stock, (body trader stock).Sends
        (TradingOp.Prices stock.currentPrice.parseFloat))
      (hcreated : out.2.orders[s.orders.length]? = some order) :
      ∃ seen, stockSeen faults s stockId = some seen ∧
        order.pricePerShare = seen.currentPrice.parseFloat := by
    rcases hrun with ⟨-, hsame, -⟩ | ⟨trader, stock, x, hadmitted, hx, hsame, -⟩
    · rw [(accounts_eq_iff.mp hsame).2.1, List.getElem?_eq_none (Nat.le_refl _)] at hcreated
      cases hcreated
    · obtain ⟨-, horders, -⟩ := accounts_eq_iff.mp hx
      rw [(accounts_eq_iff.mp hsame).2.1, ← horders] at hcreated
      have hfrom : PricedFrom x.orders.length stock.currentPrice.parseFloat
          ((body trader stock).run (exec remote) faults x).2 := by
        refine (hprices trader stock).run_invariant (exec remote) faults PricedFrom.step x ?_
        refine ⟨Nat.le_refl _, ?_⟩
        intro k order hk horder
        rw [List.getElem?_eq_none hk] at horder
        cases horder
      exact ⟨stock, hadmitted.seen, hfrom.2 _ order (Nat.le_refl _) hcreated⟩
  cases request with
  | buy memberId dto =>
    exact hbody (run_buy remote faults uuid memberId dto s) (buyLocked_prices memberId dto) h
  | sell memberId dto =>
    exact hbody (run_sell remote faults uuid memberId dto s) (sellLocked_prices memberId dto) h

end Orders

/-- An order carries the stored price exactly where its stock does not come from the cache. -/
theorem pricePerShare_eq_stored_iff (remote : Wallet.Faults) (s : Store)
    (hcold : ∀ key, s.stockCache key = none) (lookups : List Lookup) (uuid : ℕ)
    (request : Request) (faults : Faults) (stock : Stock) (p : ℚ)
    (hstock : s.stocks request.dto.stockId = some stock)
    (hprice : stock.currentPrice = .bson (some p)) (order : Order)
    (hcreated : ((request.serve uuid).run (exec remote) faults
      (s.afterLookups remote lookups)).2.orders[s.orders.length]? = some order) :
    order.pricePerShare = some p ↔
      ¬CacheHit faults (s.afterLookups remote lookups) request.dto.stockId := by
  have hlooked := looked_afterLookups remote hcold lookups
  have horders : (s.afterLookups remote lookups).orders = s.orders :=
    (accounts_eq_iff.mp hlooked.accounts).2.1
  rw [← horders] at hcreated
  obtain ⟨seen, hseen, hpriced⟩ := createdOrder_price remote uuid request faults hcreated
  rw [hpriced]
  exact parseFloat_seen hlooked hstock hprice hseen

/-- The orders that are made of a member's request, after lookups. -/
def ordersAfter (lookups : List Lookup) (request : Request) : List (OrderType × Number) :=
  let s := sampleStore.afterLookups Wallet.answered lookups
  (((request.serve 0).run (exec Wallet.answered) answered s).2.orders).map fun order =>
    (order.type, order.pricePerShare)

def boughtOrder : Order :=
  { buyOrder "m" fiveShares sampleStock with status := .executed, executedAt := some 0 }

/-- Without a lookup before it, it has the stored price. -/
theorem pricePerShare_eq_stored_iff_miss :
    boughtOrder.pricePerShare = some 10 ↔ ¬CacheHit answered sampleStore "s" :=
  pricePerShare_eq_stored_iff Wallet.answered sampleStore (fun _ => rfl) [] 0
    (.buy "m" fiveShares) answered sampleStock 10 rfl rfl boughtOrder (by decide +kernel)

/-- After one `findById` of the stock, the price of a buy and of a sell is not a number. -/
theorem pricePerShare_nan_on_hit :
    ordersAfter [] (.buy "m" fiveShares) = [(.buy, some 10)] ∧
    ordersAfter [.findById "s" answered] (.buy "m" fiveShares) = [(.buy, none)] ∧
    ordersAfter [] (.sell "m" fiveShares) = [(.sell, some 10)] ∧
    ordersAfter [.findById "s" answered] (.sell "m" fiveShares) = [(.sell, none)] := by
  decide +kernel

end StockMarket.Trading
