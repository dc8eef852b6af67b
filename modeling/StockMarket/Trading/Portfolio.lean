import StockMarket.Trading.Protocol

/-! # Orders and portfolios side by side

A pool of buys, sells and looks at the portfolio, and what each call may send, by
what it has sent before. The wallet may fail at any call; Redis never does, nor
MongoDB where an order is about to write a position or has written one.
-/

namespace StockMarket.Trading.Portfolio
open Interleaving Prog OrderService PositionService

inductive ClientRequest where
  | order (r : Request)
  | getPortfolio (memberId : String)

abbrev Answer := Option Order ⊕ PortfolioSummary

namespace ClientRequest

def serve (uuid : ℕ) : ClientRequest → Call Answer
  | .order r => do
      let order ← r.serve uuid
      pure (.inl order)
  | .getPortfolio memberId => do
      let summary ← PositionService.getPortfolio memberId
      pure (.inr summary)

def isOrder : ClientRequest → Bool
  | .order _ => true
  | .getPortfolio _ => false

def Trades (memberId : String) : ClientRequest → Prop
  | .order r => r.memberId = memberId
  | .getPortfolio _ => False

end ClientRequest

abbrev State := Config ℕ TradingOp TradingOp.Reply Store Exception Answer

/-- The pool before any of its calls has done anything. -/
def State.start (store : Store) (requests : ℕ → ClientRequest) : State :=
  Config.start store fun i => (requests i).serve i

def isFindPositions : TradingOp → Bool
  | .findPositions _ => true
  | _ => false

def isInc : TradingOp → Bool
  | .incPosition _ _ _ _ => true
  | _ => false

def isDel : TradingOp → Bool
  | .delPortfolioCache _ => true
  | _ => false

/-- The member whose position the operation has changed. -/
def changed : Reaction TradingOp TradingOp.Reply → Option String
  | ⟨.incPosition memberId _ _ _, position⟩ => if position.isSome then some memberId else none
  | ⟨.createPosition memberId _ _, created⟩ => if created then some memberId else none
  | ⟨.updatePosition memberId _ _ _ _, _⟩ => some memberId
  | ⟨.deletePosition memberId _, _⟩ => some memberId
  | _ => none

/-- The shares a sell's decrement or rollback has brought to a position. -/
def delta (memberId stockId : String) : Reaction TradingOp TradingOp.Reply → ℤ
  | ⟨.incPosition memberId' stockId' _ shares, position⟩ =>
      if position.isSome ∧ memberId' = memberId ∧ stockId' = stockId then shares else 0
  | _ => 0

def moved (memberId stockId : String) (h : History) : ℤ := (h.map (delta memberId stockId)).sum

/-- The stock, or its absence, is what the call has been told. -/
def Seen (h : History) (stockId : String) (stock : Option Stock) : Prop :=
  ⟨.findStock stockId, stock⟩ ∈ h ∨
    ∃ cached, stock = some cached ∧
      ⟨.getStockCache (RedisKeys.stockCache stockId), some cached⟩ ∈ h

/-- The entry of a portfolio is made of the stock the call has seen. -/
def Quoted (h : History) (e : String × Position) (entry : PortfolioPosition) : Prop :=
  ∃ stock, Seen h e.1 stock ∧ entry = portfolioPosition e.1 e.2 stock

/-- The call has read the member's positions and has seen the stock of each. -/
def Computed (memberId : String) (h : History) (summary : PortfolioSummary) : Prop :=
  ∃ positions entries, ⟨.findPositions memberId, positions⟩ ∈ h ∧
    List.Forall₂ (Quoted h) positions entries ∧
    summary = portfolioSummary entries

namespace ClientRequest

/-- What a call may send after the operations `h` of its own. Positions are changed
before the portfolio is dropped, shares taken before anything else is changed, and
given back only if they were taken. -/
def May (r : ClientRequest) (h : History) : TradingOp → Prop
  | .findPositions memberId =>
      r = .getPortfolio memberId ∧ ∀ x ∈ h, isFindPositions x.op = false
  | .setStockCache key stock =>
      ∃ stockId, key = RedisKeys.stockCache stockId ∧ ⟨.findStock stockId, some stock⟩ ∈ h
  | .setPortfolioCache key summary =>
      ∃ memberId, key = RedisKeys.portfolioCache memberId ∧ Computed memberId h summary
  | .incPosition memberId _ (some _) _ =>
      r.Trades memberId ∧ ∀ x ∈ h, isDel x.op = false ∧ changed x = none
  | .incPosition memberId stockId none shares =>
      r.Trades memberId ∧ (∀ x ∈ h, isDel x.op = false) ∧ ∃ gte position,
        ⟨.incPosition memberId stockId (some gte) (-shares), some position⟩ ∈ h
  | .createPosition memberId _ _ => r.Trades memberId ∧ ∀ x ∈ h, isDel x.op = false
  | .updatePosition memberId _ _ _ _ => r.Trades memberId ∧ ∀ x ∈ h, isDel x.op = false
  | .deletePosition memberId _ => r.Trades memberId ∧ ∀ x ∈ h, isDel x.op = false
  | _ => True

end ClientRequest

/-- The operations that may throw, with or without having been carried out. -/
def mayThrow : TradingOp → Bool
  | .findTrader _ => true
  | .findPosition _ _ => true
  | .findPositions _ => true
  | .updateOrder _ (.rejected _) => true
  | .postDeduct _ _ _ => true
  | .postCredit _ _ _ => true
  | .emitTradeExecuted _ => true
  | _ => false

def Ends (op : TradingOp) (o : Outcome Exception) : Prop := mayThrow op = true ∨ o = .done

/-- The order has dropped the cached portfolio; or it has only taken shares and given them
back, unless there was no position any more to give them back to. -/
def Settled (memberId : String) (h : History) : Prop :=
  ⟨.delPortfolioCache (RedisKeys.portfolioCache memberId), ()⟩ ∈ h ∨
    (∀ x ∈ h, changed x ≠ none → isInc x.op = true) ∧
      ((∀ stockId, moved memberId stockId h = 0) ∨
        ∃ stockId shares, ⟨.incPosition memberId stockId none shares, none⟩ ∈ h)

/-- What a request's result says about what it has sent. -/
def ClientRequest.Post (r : ClientRequest) (h : History) (res : Except Exception Answer) : Prop :=
  match r with
  | .order r => Settled r.memberId h
  | .getPortfolio memberId => ∀ summary, res = .ok (.inr summary) →
      ⟨.getPortfolioCache (RedisKeys.portfolioCache memberId), some summary⟩ ∈ h ∨
        Computed memberId h summary

section Walk
variable {r : ClientRequest} {h h' h'' : History} {memberId stockId : String}

/-- Later, with nothing changed and no portfolio dropped since. -/
def Grown (h h' : History) : Prop :=
  ∃ new : History, h' = new ++ h ∧ ∀ x ∈ new, changed x = none ∧ isDel x.op = false

theorem Grown.refl (h : History) : Grown h h := ⟨[], rfl, by simp⟩

theorem Grown.trans (hg : Grown h h') (hg' : Grown h' h'') : Grown h h'' := by
  obtain ⟨new, rfl, hnew⟩ := hg
  obtain ⟨new', rfl, hnew'⟩ := hg'
  refine ⟨new' ++ new, (List.append_assoc ..).symm, ?_⟩
  intro x hx
  exact (List.mem_append.mp hx).elim (hnew' x) (hnew x)

theorem Grown.cons (hg : Grown h h') {x : Reaction TradingOp TradingOp.Reply}
    (hx : changed x = none) (hdel : isDel x.op = false) : Grown h (x :: h') := by
  refine hg.trans ⟨[x], rfl, ?_⟩
  intro y hy
  obtain rfl := List.mem_singleton.mp hy
  exact ⟨hx, hdel⟩

theorem Grown.mem (hg : Grown h h') {x : Reaction TradingOp TradingOp.Reply} (hx : x ∈ h) :
    x ∈ h' := by
  obtain ⟨new, rfl, -⟩ := hg
  exact List.mem_append_right new hx

theorem Grown.cases (hg : Grown h h') {x : Reaction TradingOp TradingOp.Reply} (hx : x ∈ h') :
    (changed x = none ∧ isDel x.op = false) ∨ x ∈ h := by
  obtain ⟨new, rfl, hnew⟩ := hg
  exact (List.mem_append.mp hx).imp_left (hnew x)

theorem delta_of_unchanged {x : Reaction TradingOp TradingOp.Reply}
    (hx : changed x ≠ some memberId) : delta memberId stockId x = 0 := by
  obtain ⟨op, reply⟩ := x
  cases op with
  | incPosition memberId' stockId' gte shares =>
    refine if_neg fun hyes => hx ?_
    rw [changed, if_pos hyes.1, hyes.2.1]
  | _ => rfl

theorem moved_of_unchanged (hh : ∀ x ∈ h, changed x ≠ some memberId) :
    moved memberId stockId h = 0 := by
  refine List.sum_eq_zero ?_
  intro n hn
  obtain ⟨x, hx, rfl⟩ := List.mem_map.mp hn
  exact delta_of_unchanged (hh x hx)

theorem moved_append (new h : History) :
    moved memberId stockId (new ++ h) = moved memberId stockId new + moved memberId stockId h := by
  rw [moved, List.map_append, List.sum_append, moved, moved]

theorem Grown.moved (hg : Grown h h') : moved memberId stockId h' = moved memberId stockId h := by
  obtain ⟨new, rfl, hnew⟩ := hg
  rw [moved_append, moved_of_unchanged fun x hx => by simp [(hnew x hx).1], zero_add]

theorem Grown.settled (hg : Grown h h') (hs : Settled memberId h) : Settled memberId h' := by
  rcases hs with hdel | ⟨hinc, hmoved⟩
  · exact .inl (hg.mem hdel)
  · refine .inr ⟨?_, hmoved.imp (fun h0 id => hg.moved.trans (h0 id)) ?_⟩
    · intro x hx hx'
      rcases hg.cases hx with hidle | hold
      · exact absurd hidle.1 hx'
      · exact hinc x hold hx'
    · rintro ⟨id, shares, hin⟩
      exact ⟨id, shares, hg.mem hin⟩

theorem Grown.untouched (hg : Grown [] h) : Settled memberId h := by
  refine hg.settled (.inr ⟨?_, .inl fun _ => rfl⟩)
  intro x hx
  cases hx

theorem Grown.undropped (hg : Grown [] h) : ∀ x ∈ h, isDel x.op = false ∧ changed x = none :=
  fun x hx => (hg.cases hx).elim And.symm fun hnil => by cases hnil

def plain : TradingOp → Bool
  | .findPositions _ => false
  | .setStockCache _ _ => false
  | .setPortfolioCache _ _ => false
  | .incPosition _ _ _ _ => false
  | .createPosition _ _ _ => false
  | .updatePosition _ _ _ _ _ => false
  | .deletePosition _ _ => false
  | .delPortfolioCache _ => false
  | _ => true

theorem may_of_plain {op : TradingOp} (hop : plain op = true) : r.May h op := by
  cases op <;> trivial

theorem idle_of_plain {op : TradingOp} (hop : plain op = true) (reply : op.Reply) :
    changed ⟨op, reply⟩ = none ∧ isDel op = false := by
  cases op <;> first | exact ⟨rfl, rfl⟩ | cases hop

theorem Grown.plain (hg : Grown h h') {op : TradingOp} (hop : plain op = true) (reply : op.Reply) :
    Grown h (⟨op, reply⟩ :: h') := hg.cons (idle_of_plain hop reply).1 (idle_of_plain hop reply).2

/-- A call that keeps to the protocol, however its operations end as far as they may. -/
abbrev ClientRequest.Keeps {α : Type} (r : ClientRequest)
    (post : History → Except Exception α → Prop) (h : History) (p : Call α) : Prop :=
  p.Obeys r.May Ends post h

theorem keeps_plain {α : Type} {p : Call α} (hp : p.Sends fun op => plain op) (hg : Grown h h') :
    r.Keeps (fun h'' _ => Grown h h'') h' p := by
  refine (Obeys.extends hp fun _ _ => may_of_plain).mono ?_
  intro h'' res hnew
  obtain ⟨new, rfl, hplain⟩ := hnew
  exact hg.trans ⟨new, rfl, fun x hx => idle_of_plain (hplain x hx) x.reply⟩

theorem keeps_call {α : Type} {op : TradingOp} {next : op.Reply → Call α}
    {failed : Exception → Call α} {post : History → Except Exception α → Prop}
    (hop : mayThrow op = false) (hmay : r.May h op)
    (hnext : ∀ reply, r.Keeps post (⟨op, reply⟩ :: h) (next reply)) :
    r.Keeps post h (.call op next failed) := by
  have hends (o : Outcome Exception) (ho : Ends op o) : o = .done :=
    ho.resolve_left (by simp [hop])
  apply Obeys.call op hmay
  · exact fun _ => hnext
  · intro e hend
    cases hends _ hend
  · intro e hend
    cases hends _ hend

theorem keeps_answered {α : Type} {op : TradingOp} {k : op.Reply → Call α}
    {post : History → Except Exception α → Prop} (hop : mayThrow op = false) (hmay : r.May h op)
    (hk : ∀ reply, r.Keeps post (⟨op, reply⟩ :: h) (k reply)) :
    r.Keeps post h (query op >>= k) := keeps_call hop hmay hk

/-- What Redis would throw is swallowed, but it throws nothing. -/
theorem keeps_swallow {α : Type} {op : TradingOp} {fallback : op.Reply} {k : op.Reply → Call α}
    {post : History → Except Exception α → Prop} (hop : mayThrow op = false) (hmay : r.May h op)
    (hk : ∀ reply, r.Keeps post (⟨op, reply⟩ :: h) (k reply)) :
    r.Keeps post h (swallow (query op) fallback >>= k) := keeps_call hop hmay hk

/-- `findById` returns a stock it has seen, and throws where it has seen that there is none. -/
theorem keeps_findById (stockId : String) :
    r.Keeps (fun h' res => Grown h h' ∧ Seen h' stockId res.toOption) h
      (StockService.findById stockId) := by
  have hself := Grown.refl h
  refine keeps_swallow rfl trivial ?_
  intro cached
  cases cached with
  | some stock => exact ⟨hself.cons rfl rfl, .inr ⟨stock, rfl, List.mem_cons_self⟩⟩
  | none =>
    refine keeps_answered rfl trivial ?_
    intro found
    cases found with
    | none => exact ⟨(hself.cons rfl rfl).cons rfl rfl, .inl List.mem_cons_self⟩
    | some stock =>
      refine keeps_swallow rfl ⟨stockId, rfl, List.mem_cons_self⟩ ?_
      intro filled
      exact ⟨((hself.cons rfl rfl).cons rfl rfl).cons rfl rfl, .inl (.tail _ List.mem_cons_self)⟩

theorem keeps_findListedById (stockId : String) :
    r.Keeps (fun h' _ => Grown h h') h (StockService.findListedById stockId) := by
  refine (keeps_findById stockId).bind ?_ fun h' e hfound => hfound.1
  intro h' stock hfound
  split
  · exact hfound.1
  · exact hfound.1

theorem plain_assertCanTrade (memberId : String) :
    (TraderService.assertCanTrade memberId).Sends fun op => plain op := by
  refine Sends.send rfl ?_
  intro reply
  cases reply with
  | none => trivial
  | some trader =>
    dsimp only
    split
    · trivial
    · split <;> trivial

theorem plain_acquireOrThrow (uuid : ℕ) (memberId : String) :
    (LockService.acquireOrThrow uuid memberId).Sends fun op => plain op := by
  have hacquire (left : ℕ) : (LockService.acquire uuid memberId left).Sends fun op => plain op := by
    induction left with
    | zero => trivial
    | succ left ih =>
      refine Sends.send rfl ?_
      intro ok
      split
      · trivial
      · exact ih
  refine Sends.bind (hacquire _) ?_
  intro token
  cases token <;> trivial

/-- Both orders end by dropping the cached portfolio, whether Kafka takes the event or not. -/
theorem keeps_markExecuted (memberId : String) (orderId : ℕ) (event : TradeExecutedEvent) :
    r.Keeps (fun h' _ => Settled memberId h') h (markExecuted memberId orderId event) := by
  refine keeps_answered rfl trivial ?_
  intro executed
  refine keeps_swallow rfl trivial ?_
  intro deleted
  apply Obeys.step
  · trivial
  · intro _ emitted
    exact .inl (.tail _ List.mem_cons_self)
  · intro e _
    exact .inl List.mem_cons_self
  · intro e _ emitted
    exact .inl (.tail _ List.mem_cons_self)

/-- A call that has thrown has not returned anything. -/
theorem of_error {α : Type} {P : α → Prop} {e : Exception} (a : α)
    (ha : (.error e : Except Exception α) = .ok a) : P a := by
  cases ha

/-- A wallet call that is tried, with a handler that ends in a throw. -/
theorem keeps_catching {α : Type} {transfer : Call α} {undo : Exception → Call α}
    {Q : History → Prop} (htransfer : transfer.Sends fun op => plain op) (hg : Grown h h')
    (hundo : ∀ err h'', Grown h h'' →
      r.Keeps (fun h' res => (∃ e, res = .error e) ∧ Q h') h'' (undo err)) :
    r.Keeps (fun h'' res => (∀ a, res = .ok a → Grown h h'') ∧ ∀ e, res = .error e → Q h'') h'
      (catching transfer undo) := by
  refine (keeps_plain htransfer hg).handle ?_
  intro h'' res hg'
  cases res with
  | ok a =>
    refine ⟨fun _ _ => hg', ?_⟩
    intro e he
    cases he
  | error err =>
    refine (hundo err h'' hg').mono ?_
    intro h' res hres
    obtain ⟨⟨e, rfl⟩, hQ⟩ := hres
    exact ⟨of_error, fun _ _ => hQ⟩

section Orders
variable {dto : PlaceOrderDto} {trader : Trader} {stock : Stock}

theorem keeps_upsertPosition {ticker companyName : String} {pricePerShare : Number}
    (htrades : r.Trades memberId) (hg : Grown [] h) :
    r.Keeps (fun h' res => ∀ e, res = .error e → Grown [] h') h
      (upsertPosition memberId stockId ticker companyName dto.shares pricePerShare) := by
  have hreturned {h' : History} (e : Exception) (he : (.ok () : Except Exception Unit) = .error e) :
      Grown [] h' := by
    cases he
  apply Obeys.step
  · trivial
  · intro _ existing
    have hg' : Grown [] (⟨.findPosition memberId stockId, existing⟩ :: h) := hg.plain rfl existing
    have hundropped := fun x hx => (hg'.undropped x hx).1
    cases existing with
    | none =>
      refine keeps_answered rfl ⟨htrades, hundropped⟩ ?_
      intro created
      cases created with
      | false => exact fun _ _ => hg'.cons rfl rfl
      | true => exact hreturned
    | some existing => exact keeps_call rfl ⟨htrades, hundropped⟩ fun _ => hreturned
  · exact fun _ _ _ _ => hg
  · exact fun _ _ reply _ _ => hg.plain rfl reply

theorem keeps_buyLocked (htrades : r.Trades memberId) (hg : Grown [] h) :
    r.Keeps (fun h' _ => Settled memberId h') h (buyLocked memberId dto trader stock) := by
  refine keeps_answered rfl trivial ?_
  intro orderId
  have hcreated : Grown [] (⟨.createOrder (buyOrder memberId dto stock), orderId⟩ :: h) :=
    hg.plain rfl orderId
  -- a deduction that fails is followed by the rejection of the order
  refine (keeps_catching (Q := Grown []) (sends_deduct rfl) hcreated ?_).bind
    ?_ fun h' e hthrown => (hthrown.2 e rfl).untouched
  · intro err h' hg'
    apply Obeys.step
    · trivial
    · exact fun _ _ => ⟨⟨err, rfl⟩, hg'.plain rfl _⟩
    · exact fun e _ => ⟨⟨e, rfl⟩, hg'⟩
    · exact fun e _ _ => ⟨⟨e, rfl⟩, hg'.plain rfl _⟩
  · intro h' b hdeducted
    apply (keeps_upsertPosition htrades (hdeducted.1 b rfl)).bind
    · exact fun h'' _ _ => keeps_markExecuted ..
    · exact fun h'' e hthrown => (hthrown e rfl).untouched

/-- What a sell begins with under its lock. -/
abbrev decrement (memberId stockId : String) (shares : ℤ) (position : Position) :
    Reaction TradingOp TradingOp.Reply :=
  ⟨.incPosition memberId stockId (some shares) (-shares), some position⟩

/-- The shares were taken and, as far as there was a position, given back. -/
theorem settled_of_rollback {shares : ℤ} {position : Position} {restored : Option Position}
    {h₀ : History} (hg₀ : Grown [] h₀)
    (hg : Grown (decrement memberId stockId shares position :: h₀) h)
    (hg' : Grown (⟨.incPosition memberId stockId none shares, restored⟩ :: h) h') :
    Settled memberId h' := by
  refine hg'.settled (.inr ⟨?_, ?_⟩)
  · intro x hx hchanged
    rcases List.mem_cons.mp hx with rfl | hx
    · rfl
    rcases hg.cases hx with hidle | hx
    · exact absurd hidle.1 hchanged
    rcases List.mem_cons.mp hx with rfl | hx
    · rfl
    · exact absurd (hg₀.undropped x hx).2 hchanged
  · rcases restored with _ | restored
    · exact .inr ⟨stockId, shares, List.mem_cons_self⟩
    · refine .inl ?_
      intro id
      have hnil : moved memberId id h₀ = 0 := hg₀.moved
      have hold : moved memberId id h = _ := hg.moved
      rw [moved, List.map_cons, List.sum_cons, ← moved, hold, moved, List.map_cons, List.sum_cons,
        ← moved, hnil]
      by_cases hid : stockId = id
      · simp [delta, hid]
      · simp [delta, hid]

theorem keeps_sellDecremented {position : Position} {h₀ : History} (htrades : r.Trades memberId)
    (hg₀ : Grown [] h₀) (hg : Grown (decrement memberId dto.stockId dto.shares position :: h₀) h) :
    r.Keeps (fun h' _ => Settled memberId h') h
      (sellDecremented memberId dto trader stock position) := by
  have hundropped {h' : History}
      (hg' : Grown (decrement memberId dto.stockId dto.shares position :: h₀) h') :
      ∀ x ∈ h', isDel x.op = false := by
    intro x hx
    rcases hg'.cases hx with hidle | hx
    · exact hidle.2
    rcases List.mem_cons.mp hx with rfl | hx
    · rfl
    · exact (hg₀.undropped x hx).1
  refine keeps_answered rfl trivial ?_
  intro orderId
  have hcreated : Grown _ (⟨.createOrder (sellOrder memberId dto stock position), orderId⟩ :: h) :=
    hg.plain rfl orderId
  refine (keeps_catching (Q := Settled memberId) (sends_credit rfl) hcreated
    ?_).bind ?_ fun h' e hthrown => hthrown.2 e rfl
  · intro err h' hg'
    refine keeps_answered rfl
      ⟨htrades, hundropped hg', dto.shares, position, hg'.mem List.mem_cons_self⟩ fun reply => ?_
    have hgiven := Grown.refl (⟨.incPosition memberId dto.stockId none dto.shares, reply⟩ :: h')
    apply Obeys.step
    · trivial
    · exact fun _ _ => ⟨⟨err, rfl⟩, settled_of_rollback hg₀ hg' (hgiven.plain rfl _)⟩
    · exact fun e _ => ⟨⟨e, rfl⟩, settled_of_rollback hg₀ hg' hgiven⟩
    · exact fun e _ _ => ⟨⟨e, rfl⟩, settled_of_rollback hg₀ hg' (hgiven.plain rfl _)⟩
  · intro h' b hcredited
    dsimp only
    split
    · exact keeps_answered rfl ⟨htrades, hundropped (hcredited.1 b rfl)⟩ fun _ =>
        keeps_markExecuted ..
    · exact keeps_markExecuted ..

theorem keeps_sellLocked (htrades : r.Trades memberId) (hg : Grown [] h) :
    r.Keeps (fun h' _ => Settled memberId h') h (sellLocked memberId dto trader stock) := by
  refine keeps_answered rfl ⟨htrades, hg.undropped⟩ ?_
  intro reply
  cases reply with
  | none => exact (hg.cons rfl rfl).untouched
  | some position => exact keeps_sellDecremented htrades hg (Grown.refl _)

/-- Nothing is changed before the lock is held, nor after the body. -/
theorem keeps_order {uuid : ℕ} {findStock : Call Stock}
    {body : Trader → Stock → Call (Option Order)}
    (hfind : ∀ h, Grown [] h → r.Keeps (fun h' _ => Grown [] h') h findStock)
    (hbody : ∀ trader stock h, Grown [] h →
      r.Keeps (fun h' _ => Settled memberId h') h (body trader stock)) :
    r.Keeps (fun h _ => Settled memberId h) [] (do
      let trader ← TraderService.assertCanTrade memberId
      let stock ← findStock
      LockService.withMemberLock uuid memberId (body trader stock)) := by
  refine (keeps_plain (plain_assertCanTrade memberId) (Grown.refl [])).bind
    ?_ fun h e hg => hg.untouched
  intro h trader hg
  refine (hfind h hg).bind ?_ fun h e hg => hg.untouched
  intro h stock hg
  refine (keeps_plain (plain_acquireOrThrow uuid memberId) hg).bind
    ?_ fun h e hg => hg.untouched
  intro h token hg
  refine (hbody trader stock h hg).finallyDo ?_
  intro h' res hs
  refine keeps_answered rfl trivial ?_
  intro released
  exact ((Grown.refl h').plain rfl released).settled hs

theorem keeps_serve_order (uuid : ℕ) (r : Request) :
    (ClientRequest.order r).Keeps (fun h _ => Settled r.memberId h) [] (r.serve uuid) := by
  cases r with
  | buy memberId dto =>
    refine keeps_order ?_ fun _ _ _ => keeps_buyLocked rfl
    intro h hg
    exact (keeps_findListedById dto.stockId).mono fun h' res hg' => hg.trans hg'
  | sell memberId dto =>
    refine keeps_order ?_ fun _ _ _ => keeps_sellLocked rfl
    intro h hg
    exact (keeps_findById dto.stockId).mono fun h' res hfound => hg.trans hfound.1

end Orders

theorem Seen.grown {stock : Option Stock} (hs : Seen h stockId stock) (hg : Grown h h') :
    Seen h' stockId stock := by
  rcases hs with hfound | ⟨cached, rfl, hhit⟩
  · exact .inl (hg.mem hfound)
  · exact .inr ⟨cached, rfl, hg.mem hhit⟩

theorem Computed.grown {summary : PortfolioSummary} (hc : Computed memberId h summary)
    (hg : Grown h h') : Computed memberId h' summary := by
  obtain ⟨positions, entries, hread, hentries, hsummary⟩ := hc
  refine ⟨positions, entries, hg.mem hread, hentries.imp ?_, hsummary⟩
  rintro e entry ⟨stock, hseen, hentry⟩
  exact ⟨stock, hseen.grown hg, hentry⟩

/-- What the lookup of a position's stock gives, an absent stock included. -/
theorem keeps_lookup (stockId : String) :
    r.Keeps (fun h' res => Grown h h' ∧ ∀ stock, res = .ok stock → Seen h' stockId stock) h
      (catching (some <$> StockService.findById stockId) fun _ => pure none) := by
  have hfind : r.Keeps (fun h' res => Grown h h' ∧ Seen h' stockId res.toOption.join) h
      (some <$> StockService.findById stockId) :=
    (keeps_findById stockId).bind (fun h' stock hfound => hfound) fun h' e hfound => hfound
  refine hfind.handle ?_
  intro h' res hfound
  cases res with
  | ok stock =>
    refine ⟨hfound.1, ?_⟩
    intro stock' hstock
    cases hstock
    exact hfound.2
  | error e =>
    refine ⟨hfound.1, ?_⟩
    intro stock' hstock
    cases hstock
    exact hfound.2

theorem keeps_portfolioPositions (positions : List (String × Position)) :
    r.Keeps (fun h' res => Grown h h' ∧ ∀ entries, res = .ok entries →
        List.Forall₂ (Quoted h') positions entries) h
      (portfolioPositions positions) := by
  induction positions generalizing h with
  | nil =>
    refine ⟨Grown.refl h, ?_⟩
    intro entries hentries
    cases hentries
    exact .nil
  | cons e positions ih =>
    obtain ⟨stockId, position⟩ := e
    apply (keeps_lookup stockId).bind
    · intro h' stock hseen
      apply Obeys.bind ih
      · intro h'' entries hrest
        refine ⟨hseen.1.trans hrest.1, ?_⟩
        intro entries' hentries
        cases hentries
        exact .cons ⟨stock, (hseen.2 stock rfl).grown hrest.1, rfl⟩ (hrest.2 entries rfl)
      · intro h'' e hrest
        exact ⟨hseen.1.trans hrest.1, of_error⟩
    · intro h' e hseen
      exact ⟨hseen.1, of_error⟩

theorem keeps_getPortfolio (memberId : String) :
    (ClientRequest.getPortfolio memberId).Keeps (fun h res => ∀ summary, res = .ok summary →
        ⟨.getPortfolioCache (RedisKeys.portfolioCache memberId), some summary⟩ ∈ h ∨
          Computed memberId h summary) [] (PositionService.getPortfolio memberId) := by
  refine keeps_swallow rfl trivial ?_
  intro cached
  rcases cached with _ | summary
  swap
  · intro summary' hsummary
    cases hsummary
    exact .inl List.mem_cons_self
  refine obeys_send_bind.mpr ⟨⟨rfl, ?_⟩, ?_, fun e => ⟨fun _ => of_error, fun _ _ => of_error⟩⟩
  · intro x hx
    obtain rfl := List.mem_singleton.mp hx
    rfl
  · intro _ positions
    refine (keeps_portfolioPositions positions).bind ?_
      fun h e _ => of_error
    intro h entries hrest
    have hcomputed : Computed memberId h (portfolioSummary entries) :=
      ⟨positions, entries, hrest.1.mem List.mem_cons_self, hrest.2 entries rfl, rfl⟩
    refine keeps_swallow rfl ⟨memberId, rfl, hcomputed⟩ ?_
    intro _ summary hsummary
    cases hsummary
    exact .inr (hcomputed.grown ((Grown.refl h).cons rfl rfl))

theorem ClientRequest.keeps (uuid : ℕ) (r : ClientRequest) : r.Keeps r.Post [] (r.serve uuid) := by
  cases r with
  | order r =>
    exact (keeps_serve_order uuid r).bind (fun h order hs => hs) fun h e hs => hs
  | getPortfolio memberId =>
    apply (keeps_getPortfolio memberId).bind
    · intro h summary hshown summary' hsummary
      cases hsummary
      exact hshown summary rfl
    · intro h e _ summary hsummary
      cases hsummary

end Walk

def protocol (requests : ℕ → ClientRequest) :
    Protocol ℕ TradingOp TradingOp.Reply Exception Answer where
  may i := (requests i).May
  ends _ := Ends
  post i := (requests i).Post

theorem conforms_start (store : Store) (requests : ℕ → ClientRequest) :
    (State.start store requests).Conforms (protocol requests) :=
  Config.conforms_start fun i => (requests i).keeps i

end StockMarket.Trading.Portfolio
