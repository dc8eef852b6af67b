import StockMarket.Trading.Portfolio
import StockMarket.Interleaving.Tally

/-! # The cached portfolio and the stored positions

An order drops the cached portfolio when it has changed a position, and a look that
missed the cache fills it from the positions it has read. Where no fill comes after the
drop of a change it has not seen, and no sell is rolled back that the cached portfolio
has seen take its shares, a portfolio read while no order is in flight is the stored one.
-/

namespace StockMarket.Trading.Portfolio
open Interleaving Prog OrderService PositionService

theorem portfolioCache_injective : Function.Injective RedisKeys.portfolioCache := by
  intro memberId memberId' h
  have h' : "cache:portfolio:" ++ memberId = "cache:portfolio:" ++ memberId' := h
  exact (String.append_right_inj _).mp h'

def positionsOf (s : Store) (memberId : String) : List (String × Position) :=
  s.positions.entries.filterMap fun e => if e.1.1 = memberId then some (e.1.2, e.2) else none

/-- The price a portfolio shows of a stock, 0 where there is none. -/
def price (stock : Option Stock) : ℚ := stock.elim 0 fun stock => stock.currentPrice.toFloat

def summaryOf (stocks : String → Option Stock) (positions : List (String × Position)) :
    PortfolioSummary :=
  portfolioSummary (positions.map fun e => portfolioPosition e.1 e.2 (stocks e.1))

/-- The portfolio shows the positions the member has, in some order, at the prices there are. -/
def Reports (s : Store) (memberId : String) (summary : PortfolioSummary) : Prop :=
  ∃ positions : List (String × Position), positions.Perm (positionsOf s memberId) ∧
    summary = summaryOf s.stocks positions

def Dropped (key : String) (j : ℕ) (log : List LogEntry) : Prop :=
  ∃ e ∈ log, e.caller = j ∧ e.reaction.op = .delPortfolioCache key

instance (key : String) (j : ℕ) (log : List LogEntry) : Decidable (Dropped key j log) :=
  inferInstanceAs (Decidable (∃ e ∈ log, _ ∧ _))

/-- A change of a position of the member whose portfolio is cached under the key. -/
def changedUnder (key : String) (x : Reaction TradingOp TradingOp.Reply) : Bool :=
  (changed x).any fun memberId => RedisKeys.portfolioCache memberId = key

def filledKey : TradingOp → Option String
  | .setPortfolioCache key _ => some key
  | _ => none

def isRollback : TradingOp → Bool
  | .incPosition _ _ none _ => true
  | _ => false

/-- Of the changes a portfolio has not seen, each has its drop still to come, and one that
gives shares back comes with the decrement that took them. -/
def Harmless (key : String) (unseen log : List LogEntry) : Prop :=
  ∀ e ∈ unseen, changedUnder key e.reaction = true →
    ¬Dropped key e.caller log ∧
      (isRollback e.reaction.op = true →
        ∃ d ∈ unseen, d.caller = e.caller ∧ isDecrement d.reaction = true)

instance (key : String) (unseen log : List LogEntry) : Decidable (Harmless key unseen log) :=
  inferInstanceAs (Decidable (∀ e ∈ unseen, _ → _ ∧ _))

def lastFiller (key : String) (log : List LogEntry) : Option ℕ :=
  (log.find? fun e => filledKey e.reaction.op = some key).map fun e => e.caller

/-- A fill is harmless; and where shares are given back while a portfolio is cached, it was
read before they were taken. -/
def InTime (s : Store) (log : List LogEntry) (i : ℕ) : TradingOp → Prop
  | .setPortfolioCache key _ => Harmless key (since i isFindPositions log) log
  | .incPosition memberId stockId none _ =>
      s.portfolioCache (RedisKeys.portfolioCache memberId) ≠ none →
        s.position memberId stockId ≠ none →
          ∃ c ∈ lastFiller (RedisKeys.portfolioCache memberId) log,
            ∃ d ∈ since c isFindPositions log, d.caller = i ∧ isDecrement d.reaction = true
  | _ => True

instance (s : Store) (log : List LogEntry) (i : ℕ) : DecidablePred (InTime s log i)
  | .setPortfolioCache key _ => inferInstanceAs (Decidable (Harmless key _ log))
  | .incPosition _ _ none _ => inferInstanceAs (Decidable (_ → _ → ∃ c ∈ _, ∃ d ∈ _, _))
  | .incPosition _ _ (some _) _ | .createPosition _ _ _ | .updatePosition _ _ _ _ _
  | .deletePosition _ _ | .findPosition _ _ | .findPositions _ | .createOrder _
  | .updateOrder _ _ | .findTrader _ | .findStock _ | .getStockCache _ | .setStockCache _ _
  | .getPortfolioCache _ | .delPortfolioCache _ | .setLock _ _ | .evalRelease _ _
  | .postDeduct _ _ _ | .postCredit _ _ _ | .emitTradeExecuted _ => .isTrue trivial

/-- The operations that must be are answered, fills and rollbacks come in time, and no
price changes. -/
def timely (store : Store) :
    Assumption ℕ TradingOp TradingOp.Reply Store Environment Exception where
  call s log i op o := Ends op o ∧ InTime s log i op
  env
    | .setStock stockId stock => price stock = price (store.stocks stockId)
    | _ => True

def after (memberId stockId : String) (before : Option Position) :
    Reaction TradingOp TradingOp.Reply → Option Position
  | ⟨.incPosition memberId' stockId' _ _, position⟩ =>
      if position.isSome ∧ memberId' = memberId ∧ stockId' = stockId then position else before
  | ⟨.createPosition memberId' stockId' doc, created⟩ =>
      if created ∧ memberId' = memberId ∧ stockId' = stockId then some doc else before
  | ⟨.updatePosition memberId' stockId' shares avgBuyPrice totalInvested, _⟩ =>
      if memberId' = memberId ∧ stockId' = stockId then
        before.map fun position => { position with
          shares := position.shares + shares
          avgBuyPrice := avgBuyPrice
          totalInvested := totalInvested }
      else before
  | ⟨.deletePosition memberId' stockId', _⟩ =>
      if memberId' = memberId ∧ stockId' = stockId then none else before
  | _ => before

/-- The position as the operations of the log leave it. -/
def replay (store : Store) (memberId stockId : String) : List LogEntry → Option Position
  | [] => store.position memberId stockId
  | e :: log => after memberId stockId (replay store memberId stockId log) e.reaction

section Positions
variable {remote : Wallet.Faults} {s : Store} {memberId stockId : String}

theorem position_setPosition_eq (s : Store) (memberId' stockId' : String) (position : Position) :
    (s.setPosition memberId' stockId' position).position memberId stockId =
      if memberId' = memberId ∧ stockId' = stockId then some position
      else s.position memberId stockId := by
  split
  · rename_i h
    obtain ⟨rfl, rfl⟩ := h
    exact position_setPosition s memberId' stockId' position
  · rename_i h
    exact AList.lookup_insert_ne fun heq => h (by simpa [eq_comm] using heq)

theorem position_exec (remote : Wallet.Faults) (op : TradingOp) (s : Store)
    (memberId stockId : String) :
    (exec remote op s).2.position memberId stockId =
      after memberId stockId (s.position memberId stockId) ⟨op, (exec remote op s).1⟩ := by
  cases op with
  | incPosition memberId' stockId' gte shares =>
    simp only [exec, after]
    split
    · split
      · simp [position_setPosition_eq]
      · simp
    · simp
  | createPosition memberId' stockId' doc =>
    rcases hposition : s.position memberId' stockId' with _ | position
    · simp [exec, after, hposition, position_setPosition_eq]
    · simp [exec, after, hposition]
  | updatePosition memberId' stockId' shares avgBuyPrice totalInvested =>
    simp only [exec, after]
    split
    · rename_i position hposition
      rw [position_setPosition_eq]
      split
      · rename_i heq
        obtain ⟨rfl, rfl⟩ := heq
        rw [hposition, Option.map_some]
      · rfl
    · rename_i hnone
      split
      · rename_i heq
        obtain ⟨rfl, rfl⟩ := heq
        rw [hnone, Option.map_none]
      · rfl
  | deletePosition memberId' stockId' =>
    simp only [exec, after]
    split
    · rename_i heq
      obtain ⟨rfl, rfl⟩ := heq
      exact position_deletePosition s memberId' stockId'
    · rename_i hne
      exact AList.lookup_erase_ne fun heq => hne (by simpa [eq_comm] using heq)
  | setLock key token =>
    simp only [exec, after]
    split <;> rfl
  | evalRelease key token =>
    simp only [exec, after]
    split <;> rfl
  | _ => rfl

end Positions

def Lists (position : String → Option Position) (positions : List (String × Position)) : Prop :=
  positions.Nodup ∧ ∀ stockId p, (stockId, p) ∈ positions ↔ position stockId = some p

theorem Lists.perm {position : String → Option Position}
    {positions positions' : List (String × Position)} (h : Lists position positions)
    (h' : Lists position positions') :
    positions.Perm positions' := by
  refine (List.perm_ext_iff_of_nodup h.1 h'.1).mpr ?_
  intro e
  obtain ⟨stockId, p⟩ := e
  rw [h.2, h'.2]

theorem lists_positionsOf (s : Store) (memberId : String) :
    Lists (s.position memberId) (positionsOf s memberId) := by
  constructor
  · refine s.positions.nodupKeys.nodup.filterMap ?_
    intro e e' x hx hx'
    obtain ⟨⟨memberId₁, stockId₁⟩, position₁⟩ := e
    obtain ⟨⟨memberId₂, stockId₂⟩, position₂⟩ := e'
    obtain ⟨hmember, heq⟩ := Option.ite_none_right_eq_some.mp hx
    obtain ⟨hmember', heq'⟩ := Option.ite_none_right_eq_some.mp hx'
    cases hmember
    cases hmember'
    cases heq
    cases heq'
    rfl
  · intro stockId p
    rw [Store.position, ← Option.mem_def, AList.mem_lookup_iff, positionsOf, List.mem_filterMap]
    constructor
    · rintro ⟨⟨⟨memberId', stockId'⟩, position⟩, hin, hlisted⟩
      obtain ⟨hmember, heq⟩ := Option.ite_none_right_eq_some.mp hlisted
      cases hmember
      cases heq
      exact hin
    · intro hin
      exact ⟨_, hin, if_pos rfl⟩

/-- The cached portfolio is of the positions its filler has read, and what has been changed
since is harmless. -/
def Cached (store : Store) (memberId : String) (log : List LogEntry) (summary : PortfolioSummary) :
    Prop :=
  ∃ c newer older positions, lastFiller (RedisKeys.portfolioCache memberId) log = some c ∧
    log = newer ++ ⟨c, .findPositions memberId, positions⟩ :: older ∧
    summary = summaryOf store.stocks positions ∧
    Harmless (RedisKeys.portfolioCache memberId) newer log

/-- What an operation was sent after and answered, by what had been carried out before it. -/
structure Observed (store : Store) (requests : ℕ → ClientRequest) (e : LogEntry)
    (older : List LogEntry) : Prop where
  may : (requests e.caller).May (own e.caller older) e.reaction.op
  read : ∀ memberId positions, e.reaction = ⟨.findPositions memberId, positions⟩ →
    Lists (fun stockId => replay store memberId stockId older) positions
  hit : ∀ memberId summary,
    e.reaction = ⟨.getPortfolioCache (RedisKeys.portfolioCache memberId), some summary⟩ →
      Cached store memberId older summary
  priced : ∀ stockId stock, Seen [e.reaction] stockId stock →
    price stock = price (store.stocks stockId)
  inc : ∀ memberId stockId gte shares position,
    e.reaction = ⟨.incPosition memberId stockId gte shares, some position⟩ →
      ∃ before, replay store memberId stockId older = some before ∧
        position = { before with shares := before.shares + shares }
  missing : ∀ memberId stockId shares,
    e.reaction = ⟨.incPosition memberId stockId none shares, none⟩ →
      replay store memberId stockId older = none

structure Consistent (store : Store) (requests : ℕ → ClientRequest) (s : Store)
    (log : List LogEntry) : Prop where
  stored : ∀ memberId stockId, s.position memberId stockId = replay store memberId stockId log
  cached : ∀ memberId summary,
    s.portfolioCache (RedisKeys.portfolioCache memberId) = some summary →
      Cached store memberId log summary
  stocks : ∀ stockId, price (s.stocks stockId) = price (store.stocks stockId)
  stockCache : ∀ stockId stock, s.stockCache (RedisKeys.stockCache stockId) = some stock →
    price (some stock) = price (store.stocks stockId)
  recorded : Recorded (Observed store requests) log

section Step
variable {store s : Store} {requests : ℕ → ClientRequest} {remote : Wallet.Faults}
  {log newer older : List LogEntry} {i : ℕ} {op : TradingOp} {key memberId stockId : String}
  {summary : PortfolioSummary}

theorem portfolioPosition_congr {stock stock' : Option Stock} (h : price stock = price stock')
    (position : Position) :
    portfolioPosition stockId position stock = portfolioPosition stockId position stock' := by
  have h' : (stock.elim 0 fun stock => stock.currentPrice.toFloat) =
      stock'.elim 0 fun stock => stock.currentPrice.toFloat := h
  simp only [portfolioPosition, h']

theorem Observed.once {e : LogEntry} (h : Observed store requests e older)
    (hkind : isFindPositions e.reaction.op = true) :
    ∀ x ∈ own e.caller older, isFindPositions x.op = false := by
  obtain ⟨j, op, reply⟩ := e
  cases op with
  | findPositions memberId => exact h.may.2
  | _ => cases hkind

theorem since_read {j : ℕ} {positions : List (String × Position)}
    (hrecorded : Recorded (Observed store requests)
      (newer ++ ⟨j, .findPositions memberId, positions⟩ :: older)) :
    since j isFindPositions (newer ++ ⟨j, .findPositions memberId, positions⟩ :: older) = newer :=
  hrecorded.since_eq rfl fun _ _ hobs => hobs.once

/-- A change is sent by the member's order, and before its drop. -/
theorem may_of_changed {r : ClientRequest} {h : History} {reply : op.Reply} (hmay : r.May h op)
    (hchanged : changed ⟨op, reply⟩ = some memberId) :
    r.Trades memberId ∧ ∀ x ∈ h, isDel x.op = false := by
  cases op with
  | incPosition memberId' stockId gte shares =>
    obtain ⟨-, heq⟩ := Option.ite_none_right_eq_some.mp hchanged
    cases heq
    rcases gte with _ | gte
    · exact ⟨hmay.1, hmay.2.1⟩
    · exact ⟨hmay.1, fun x hx => (hmay.2 x hx).1⟩
  | createPosition memberId' stockId doc =>
    obtain ⟨-, heq⟩ := Option.ite_none_right_eq_some.mp hchanged
    cases heq
    exact hmay
  | updatePosition memberId' stockId shares avgBuyPrice totalInvested =>
    cases hchanged
    exact hmay
  | deletePosition memberId' stockId =>
    cases hchanged
    exact hmay
  | _ => cases hchanged

theorem changedUnder_iff {x : Reaction TradingOp TradingOp.Reply} :
    changedUnder (RedisKeys.portfolioCache memberId) x = true ↔ changed x = some memberId := by
  rw [changedUnder, Option.any_eq_true]
  constructor
  · rintro ⟨memberId', hchanged, hkey⟩
    rw [hchanged, portfolioCache_injective (of_decide_eq_true hkey)]
  · intro hchanged
    exact ⟨memberId, hchanged, decide_eq_true rfl⟩

theorem Harmless.cons {reply : op.Reply} (h : Harmless key newer log)
    (hop : op ≠ .delPortfolioCache key)
    (hnew : changedUnder key ⟨op, reply⟩ = true → ¬Dropped key i log ∧ (isRollback op = true →
      ∃ d ∈ newer, d.caller = i ∧ isDecrement d.reaction = true)) :
    Harmless key (⟨i, op, reply⟩ :: newer) (⟨i, op, reply⟩ :: log) := by
  have hdropped (j : ℕ) : Dropped key j (⟨i, op, reply⟩ :: log) ↔ Dropped key j log := by
    simp [Dropped, hop]
  intro e he hchanged
  rw [hdropped]
  have hall : ¬Dropped key e.caller log ∧ (isRollback e.reaction.op = true →
      ∃ d ∈ newer, d.caller = e.caller ∧ isDecrement d.reaction = true) := by
    rcases List.mem_cons.mp he with rfl | he
    · exact hnew hchanged
    · exact h e he hchanged
  refine ⟨hall.1, ?_⟩
  intro hrollback
  obtain ⟨d, hd, hcaller, hdecrement⟩ := hall.2 hrollback
  exact ⟨d, List.mem_cons_of_mem _ hd, hcaller, hdecrement⟩

/-- A cached portfolio stays what it is until its key is dropped or filled again. -/
theorem Cached.cons {reply : op.Reply} (h : Cached store memberId log summary)
    (hrecorded : Recorded (Observed store requests) log)
    (hop : op ≠ .delPortfolioCache (RedisKeys.portfolioCache memberId))
    (hfill : filledKey op ≠ some (RedisKeys.portfolioCache memberId))
    (hnew : changedUnder (RedisKeys.portfolioCache memberId) ⟨op, reply⟩ = true →
      ¬Dropped (RedisKeys.portfolioCache memberId) i log ∧ (isRollback op = true →
        ∃ c ∈ lastFiller (RedisKeys.portfolioCache memberId) log,
          ∃ d ∈ since c isFindPositions log, d.caller = i ∧ isDecrement d.reaction = true)) :
    Cached store memberId (⟨i, op, reply⟩ :: log) summary := by
  obtain ⟨c, newer, older, positions, hfiller, hlog, hsummary, hharmless⟩ := h
  refine ⟨c, ⟨i, op, reply⟩ :: newer, older, positions, ?_, by rw [hlog, List.cons_append],
    hsummary, hharmless.cons hop fun hchanged => ?_⟩
  · rw [lastFiller, List.find?_cons_of_neg (by simpa using hfill), ← lastFiller, hfiller]
  · refine ⟨(hnew hchanged).1, ?_⟩
    intro hrollback
    obtain ⟨c', hc', d, hd, hcaller, hdecrement⟩ := (hnew hchanged).2 hrollback
    obtain rfl : c = c' := Option.some.inj (hfiller.symm.trans hc')
    rw [hlog] at hd hrecorded
    rw [since_read hrecorded] at hd
    exact ⟨d, hd, hcaller, hdecrement⟩

/-- Writes of positions and locks leave the stocks and the caches alone. -/
theorem caches_exec (remote : Wallet.Faults) (op : TradingOp) (s : Store)
    (hstock : ∀ key stock, op ≠ .setStockCache key stock)
    (hset : ∀ key summary, op ≠ .setPortfolioCache key summary)
    (hdel : ∀ key, op ≠ .delPortfolioCache key) :
    (exec remote op s).2.stockCache = s.stockCache ∧
      (exec remote op s).2.portfolioCache = s.portfolioCache := by
  cases op with
  | setStockCache key stock => exact absurd rfl (hstock key stock)
  | setPortfolioCache key summary => exact absurd rfl (hset key summary)
  | delPortfolioCache key => exact absurd rfl (hdel key)
  | incPosition memberId stockId gte shares =>
    simp only [exec]
    split
    · split <;> exact ⟨rfl, rfl⟩
    · exact ⟨rfl, rfl⟩
  | setLock _ _ | evalRelease _ _ | createPosition _ _ _ | updatePosition _ _ _ _ _ =>
    simp only [exec]
    split <;> exact ⟨rfl, rfl⟩
  | _ => exact ⟨rfl, rfl⟩

theorem portfolioCache_exec (h : (exec remote op s).2.portfolioCache key = some summary) :
    (s.portfolioCache key = some summary ∧ op ≠ .delPortfolioCache key ∧ filledKey op ≠ some key) ∨
      op = .setPortfolioCache key summary := by
  cases op with
  | setPortfolioCache key' read =>
    by_cases hk : key = key'
    · subst hk
      simp only [exec, Function.update_self, Option.some.injEq] at h
      exact .inr (by rw [h])
    · simp only [exec, Function.update_of_ne hk] at h
      exact .inl ⟨h, by simp, by simpa [filledKey] using Ne.symm hk⟩
  | delPortfolioCache key' =>
    by_cases hk : key = key'
    · subst hk
      simp [exec] at h
    · simp only [exec, Function.update_of_ne hk] at h
      exact .inl ⟨h, by simpa using Ne.symm hk, by simp [filledKey]⟩
  | setStockCache key' stock => exact .inl ⟨h, by simp, by simp [filledKey]⟩
  | _ =>
    rw [(caches_exec remote _ s (by simp) (by simp) (by simp)).2] at h
    exact .inl ⟨h, by simp, by simp [filledKey]⟩

theorem stockCache_exec {stock : Stock} (h : (exec remote op s).2.stockCache key = some stock) :
    s.stockCache key = some stock ∨
      ∃ read, op = .setStockCache key read ∧ stock = read.viaJson := by
  cases op with
  | setStockCache key' read =>
    by_cases hk : key = key'
    · subst hk
      simp only [exec, Function.update_self, Option.some.injEq] at h
      exact .inr ⟨read, rfl, h.symm⟩
    · simp only [exec, Function.update_of_ne hk] at h
      exact .inl h
  | setPortfolioCache key' summary => exact .inl h
  | delPortfolioCache key' => exact .inl h
  | _ =>
    rw [(caches_exec remote _ s (by simp) (by simp) (by simp)).1] at h
    exact .inl h

theorem stocks_exec (remote : Wallet.Faults) (op : TradingOp) (s : Store) :
    (exec remote op s).2.stocks = s.stocks := by
  cases op with
  | incPosition memberId stockId gte shares =>
    simp only [exec]
    split
    · split <;> rfl
    · rfl
  | setLock _ _ | evalRelease _ _ | createPosition _ _ _ | updatePosition _ _ _ _ _ =>
    simp only [exec]
    split <;> rfl
  | _ => rfl

theorem price_viaJson (stock : Stock) : price (some stock.viaJson) = price (some stock) := by
  obtain ⟨ticker, companyName, currentPrice, isListed⟩ := stock
  cases currentPrice <;> rfl

/-- What a call has been told of a stock has its price. -/
theorem price_of_seen {stock : Option Stock} (hrecorded : Recorded (Observed store requests) log)
    (hseen : Seen (own i log) stockId stock) : price stock = price (store.stocks stockId) := by
  have hprice {x : Reaction TradingOp TradingOp.Reply} (hx : x ∈ own i log)
      (hone : Seen [x] stockId stock) : price stock = price (store.stocks stockId) := by
    obtain ⟨newer, older, rfl⟩ := List.append_of_mem (mem_own.mp hx)
    exact hrecorded.split.priced stockId stock hone
  rcases hseen with hfound | ⟨cached, rfl, hhit⟩
  · exact hprice hfound (.inl List.mem_cons_self)
  · exact hprice hhit (.inr ⟨cached, rfl, List.mem_cons_self⟩)

theorem summary_of_computed (hrecorded : Recorded (Observed store requests) log)
    (hcomputed : Computed memberId (own i log) summary) :
    ∃ positions, ⟨.findPositions memberId, positions⟩ ∈ own i log ∧
      summary = summaryOf store.stocks positions := by
  obtain ⟨positions, entries, hread, hentries, rfl⟩ := hcomputed
  refine ⟨positions, hread, congrArg portfolioSummary ?_⟩
  clear hread
  induction hentries with
  | nil => rfl
  | @cons e entry positions entries hentry _ ih =>
    obtain ⟨stock, hseen, rfl⟩ := hentry
    rw [List.map_cons, ← ih, portfolioPosition_congr (price_of_seen hrecorded hseen)]

theorem incPosition_replies {position : Position} {gte : Option ℤ} {shares : ℤ}
    (h : (exec remote (.incPosition memberId stockId gte shares) s).1 = some position) :
    ∃ before, s.position memberId stockId = some before ∧
      position = { before with shares := before.shares + shares } := by
  simp only [exec] at h
  split at h
  · rename_i before hbefore
    split at h
    · exact ⟨before, hbefore, (Option.some.inj h).symm⟩
    · cases h
  · cases h

/-- A rollback fails only where there is no position. -/
theorem incPosition_missing {shares : ℤ}
    (h : (exec remote (.incPosition memberId stockId none shares) s).1 = none) :
    s.position memberId stockId = none := by
  simp only [exec] at h
  split at h
  · cases h
  · assumption

theorem Consistent.observed (h : Consistent store requests s log)
    (hmay : (requests i).May (own i log) op) :
    Observed store requests ⟨i, op, (exec remote op s).1⟩ log := by
  have hstored (memberId stockId : String) := h.stored memberId stockId
  refine ⟨hmay, ?_, ?_, ?_, ?_, ?_⟩
  · intro memberId positions he
    obtain ⟨rfl, hreply⟩ := reaction_eq he
    rw [← hreply, ← funext (hstored memberId)]
    exact lists_positionsOf s memberId
  · intro memberId summary he
    obtain ⟨rfl, hreply⟩ := reaction_eq he
    exact h.cached memberId summary hreply
  · intro stockId stock hseen
    rcases hseen with hfound | ⟨cached, rfl, hhit⟩
    · obtain ⟨rfl, hreply⟩ := reaction_eq (List.mem_singleton.mp hfound).symm
      rw [← hreply]
      exact h.stocks stockId
    · obtain ⟨rfl, hreply⟩ := reaction_eq (List.mem_singleton.mp hhit).symm
      exact h.stockCache stockId cached hreply
  · intro memberId stockId gte shares position he
    obtain ⟨rfl, hreply⟩ := reaction_eq he
    rw [← hstored]
    exact incPosition_replies hreply
  · intro memberId stockId shares he
    obtain ⟨rfl, hreply⟩ := reaction_eq he
    rw [← hstored]
    exact incPosition_missing hreply

theorem harmless_change (hmay : (requests i).May (own i log) op)
    (hin : InTime s log i op)
    (hcached : s.portfolioCache (RedisKeys.portfolioCache memberId) = some summary)
    (hchanged : changed ⟨op, (exec remote op s).1⟩ = some memberId) :
    ¬Dropped (RedisKeys.portfolioCache memberId) i log ∧ (isRollback op = true →
      ∃ c ∈ lastFiller (RedisKeys.portfolioCache memberId) log,
        ∃ d ∈ since c isFindPositions log, d.caller = i ∧ isDecrement d.reaction = true) := by
  constructor
  · rintro ⟨e, he, rfl, hdel⟩
    have hno := (may_of_changed hmay hchanged).2 e.reaction (mem_own.mpr he)
    simp [hdel, isDel] at hno
  · intro hrollback
    cases op with
    | incPosition memberId' stockId gte shares =>
      cases gte with
      | some gte => cases hrollback
      | none =>
        obtain ⟨hsome, heq⟩ := Option.ite_none_right_eq_some.mp hchanged
        cases heq
        obtain ⟨position, hposition⟩ := Option.isSome_iff_exists.mp hsome
        obtain ⟨before, hbefore, -⟩ := incPosition_replies hposition
        exact hin (by simp [hcached]) (by simp [hbefore])
    | _ => cases hrollback

/-- A portfolio that is filled in time is of positions its filler has read. -/
theorem Consistent.fill {reply : Unit} (h : Consistent store requests s log)
    (hmay : (requests i).May (own i log)
      (.setPortfolioCache (RedisKeys.portfolioCache memberId) summary))
    (hin : InTime s log i (.setPortfolioCache (RedisKeys.portfolioCache memberId) summary)) :
    Cached store memberId
      (⟨i, .setPortfolioCache (RedisKeys.portfolioCache memberId) summary, reply⟩ :: log)
      summary := by
  obtain ⟨memberId', hkey, hcomputed⟩ := hmay
  obtain rfl := portfolioCache_injective hkey
  obtain ⟨positions, hread, hsummary⟩ := summary_of_computed h.recorded hcomputed
  obtain ⟨newer, older, hlog⟩ := List.append_of_mem (mem_own.mp hread)
  have hrecorded := h.recorded
  rw [hlog] at hrecorded
  have hharmless : Harmless (RedisKeys.portfolioCache memberId) (since i isFindPositions log) log :=
    hin
  have hsince : since i isFindPositions log = newer := by
    rw [hlog]
    exact since_read hrecorded
  rw [hsince] at hharmless
  refine ⟨i, _, older, positions, ?_, by rw [hlog, List.cons_append], hsummary,
    hharmless.cons (by simp) fun hchanged => ?_⟩
  · rw [lastFiller, List.find?_cons_of_pos (by simp [filledKey]), Option.map_some]
  · cases changedUnder_iff.mp hchanged

theorem Consistent.exec (h : Consistent store requests s log)
    (hmay : (requests i).May (own i log) op) (hin : InTime s log i op) :
    Consistent store requests (exec remote op s).2 (⟨i, op, (exec remote op s).1⟩ :: log) := by
  refine ⟨?_, ?_, ?_, ?_, h.observed hmay, h.recorded⟩
  · intro memberId stockId
    rw [position_exec, h.stored, replay]
  · intro memberId summary hcached
    rcases portfolioCache_exec hcached with ⟨hold, hop, hfill⟩ | rfl
    · exact (h.cached memberId summary hold).cons h.recorded hop hfill fun hchanged =>
        harmless_change hmay hin hold (changedUnder_iff.mp hchanged)
    · exact h.fill hmay hin
  · intro stockId
    rw [stocks_exec]
    exact h.stocks stockId
  · intro stockId stock hstock
    rcases stockCache_exec hstock with hold | ⟨read, rfl, rfl⟩
    · exact h.stockCache stockId stock hold
    · obtain ⟨stockId', hkey, hfound⟩ := hmay
      obtain rfl := stockCache_inj hkey
      rw [price_viaJson]
      exact price_of_seen h.recorded (.inl hfound)

theorem Consistent.env (h : Consistent store requests s log) {y : Environment}
    (hy : (timely store).env y) : Consistent store requests ((backend remote).env y s) log := by
  obtain ⟨hstored, hcached, hstocks, hstockCache, hrecorded⟩ := h
  cases y with
  | evictStock key =>
    refine ⟨hstored, hcached, hstocks, ?_, hrecorded⟩
    intro stockId stock hstock
    by_cases hk : RedisKeys.stockCache stockId = key
    · simp [backend, hk] at hstock
    · exact hstockCache stockId stock (by simpa [backend, hk] using hstock)
  | evictPortfolio key =>
    refine ⟨hstored, ?_, hstocks, hstockCache, hrecorded⟩
    intro memberId summary hsummary
    by_cases hk : RedisKeys.portfolioCache memberId = key
    · simp [backend, hk] at hsummary
    · exact hcached memberId summary (by simpa [backend, hk] using hsummary)
  | setStock stockId' stock =>
    refine ⟨hstored, hcached, ?_, hstockCache, hrecorded⟩
    intro stockId
    by_cases hid : stockId = stockId'
    · subst hid
      simp only [backend, Function.update_self]
      exact hy
    · simp only [backend, Function.update_of_ne hid]
      exact hstocks stockId
  | _ => exact ⟨hstored, hcached, hstocks, hstockCache, hrecorded⟩

end Step

def Cold (s : Store) : Prop := ∀ key, s.portfolioCache key = none ∧ s.stockCache key = none

theorem consistent_run {remote : Wallet.Faults} {store : Store} {requests : ℕ → ClientRequest}
    (hcold : Cold store) {sched : Schedule}
    (halong : (timely store).Along (backend remote) (State.start store requests) sched) :
    ((State.start store requests).run (backend remote) sched).Conforms (protocol requests) ∧
      Consistent store requests ((State.start store requests).run (backend remote) sched).store
        ((State.start store requests).run (backend remote) sched).log := by
  refine Config.run_invariant (A := timely store) (I := Consistent store requests)
    (fun _ _ _ _ _ h => h.1) (fun x l i op o hI hmay hcall => hI.exec hmay hcall.2)
    (fun x l y hI hy => hI.env hy) (conforms_start store requests) ?_ sched halong
  refine ⟨fun _ _ => rfl, ?_, fun _ => rfl, ?_, trivial⟩
  · intro memberId summary hcached
    cases (hcold _).1.symm.trans hcached
  · intro stockId stock hstock
    cases (hcold _).2.symm.trans hstock

end StockMarket.Trading.Portfolio
