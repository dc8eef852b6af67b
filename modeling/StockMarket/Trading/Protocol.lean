import StockMarket.Trading.Pool
import StockMarket.Trading.Admission
import StockMarket.Interleaving.Protocol

/-! # What the orders send

The protocol of a buy and of a sell: which writes of orders and positions a
call may send, given those it has had carried out, and which it has had when it
returns. Locks and the wallet play no part in it.
-/

namespace StockMarket.Trading
open Interleaving Prog OrderService

/-- The operations of one call with their replies, newest first. -/
abbrev History := List (Reaction TradingOp TradingOp.Reply)

/-- The operations that may write an order or a position. -/
def TradingOp.isTrade : TradingOp → Bool
  | .createOrder _ => true
  | .updateOrder _ _ => true
  | .incPosition _ _ _ _ => true
  | .createPosition _ _ _ => true
  | .updatePosition _ _ _ _ _ => true
  | .deletePosition _ _ => true
  | _ => false

def isUpsert : Reaction TradingOp TradingOp.Reply → Bool
  | ⟨.createPosition _ _ _, created⟩ => created
  | ⟨.updatePosition _ _ _ _ _, _⟩ => true
  | _ => false

def isDecrement : Reaction TradingOp TradingOp.Reply → Bool
  | ⟨.incPosition _ _ (some _) _, position⟩ => position.isSome
  | _ => false

/-- A sell gave its shares back to a position that was there. -/
def isRestore : Reaction TradingOp TradingOp.Reply → Bool
  | ⟨.incPosition _ _ none _, position⟩ => position.isSome
  | _ => false

def isCreation : Reaction TradingOp TradingOp.Reply → Bool
  | ⟨.createOrder _, _⟩ => true
  | _ => false

def isSettling : Reaction TradingOp TradingOp.Reply → Bool
  | ⟨.updateOrder _ _, _⟩ => true
  | _ => false

def isExecution : Reaction TradingOp TradingOp.Reply → Bool
  | ⟨.updateOrder _ .executed, _⟩ => true
  | _ => false

namespace Request

/-- The shares a request is about, counted as bought. -/
def signedShares : Request → ℤ
  | .buy _ dto => dto.shares
  | .sell _ dto => -dto.shares

def On (memberId stockId : String) (r : Request) : Prop :=
  r.memberId = memberId ∧ r.dto.stockId = stockId

instance (memberId stockId : String) (r : Request) : Decidable (r.On memberId stockId) :=
  inferInstanceAs (Decidable (_ ∧ _))

/-- The shares a buy has added by its upsert, or a sell has taken and not given
back. -/
def net (r : Request) (h : History) : ℤ :=
  match r with
  | .buy _ dto => if h.any isUpsert then dto.shares else 0
  | .sell _ dto => if h.any isDecrement ∧ ¬h.any isRestore then -dto.shares else 0

/-- The shares of the order a request has marked EXECUTED. -/
def executed (r : Request) (h : History) : ℤ := if h.any isExecution then r.signedShares else 0

/-- A PENDING order for what the request asks. -/
def Places (r : Request) (order : Order) : Prop :=
  order.status = .pending ∧ order.memberId = r.memberId ∧ order.stockId = r.dto.stockId ∧
    order.signedShares = r.signedShares

/-- What a call serving `r` may send after the operations `h` of its own. -/
def May (r : Request) (h : History) : TradingOp → Prop
  | .createOrder order => r.Places order ∧ ¬h.any isCreation ∧ ¬h.any isSettling
  | .updateOrder orderId _ =>
      (∃ order, ⟨.createOrder order, orderId⟩ ∈ h) ∧ ¬h.any isSettling
  | .incPosition memberId stockId gte shares =>
      ∃ dto, r = .sell memberId dto ∧ stockId = dto.stockId ∧
        ((gte = some (dto.shares : ℤ) ∧ shares = -dto.shares ∧ ¬h.any isDecrement ∧
            ¬h.any isRestore) ∨
          (gte = none ∧ shares = dto.shares ∧ h.any isDecrement ∧ ¬h.any isRestore))
  | .createPosition memberId stockId doc =>
      ∃ dto, r = .buy memberId dto ∧ stockId = dto.stockId ∧ doc.shares = dto.shares ∧
        ¬h.any isUpsert
  | .updatePosition memberId stockId shares _ _ =>
      ∃ dto, r = .buy memberId dto ∧ stockId = dto.stockId ∧ shares = dto.shares ∧
        ¬h.any isUpsert
  | .deletePosition memberId stockId => ∃ dto, r = .sell memberId dto ∧ stockId = dto.stockId
  | _ => True

def Moved (r : Request) (h : History) : Prop :=
  match r with
  | .buy _ _ => h.any isUpsert
  | .sell _ _ => h.any isDecrement ∧ ¬h.any isRestore

/-- A call that returns has moved the shares and marked its order EXECUTED. -/
def Done (r : Request) (h : History) : Prop := h.any isExecution ∧ r.Moved h

theorem Done.net_eq {r : Request} {h : History} (hd : r.Done h) :
    r.net h = r.signedShares ∧ r.executed h = r.signedShares := by
  obtain ⟨hexecution, hmoved⟩ := hd
  refine ⟨?_, if_pos hexecution⟩
  cases r with
  | buy memberId dto => exact if_pos hmoved
  | sell memberId dto => exact if_pos hmoved

end Request

/-- The protocol of a pool of orders. Operations may end in any way. -/
def protocol (requests : ℕ → Request) :
    Protocol ℕ TradingOp TradingOp.Reply Exception (Option Order) where
  may i := (requests i).May
  ends _ _ _ := True
  post i := Returns fun h _ => (requests i).Done h

section Walk
variable {r : Request} {h h' : History} {α : Type}

/-- A call made for `r` keeps to the protocol and, when it returns, `Q` holds. -/
abbrev Request.Follows (r : Request) (Q : History → α → Prop) (h : History) (p : Call α) : Prop :=
  p.Obeys r.May (fun _ _ => True) (Returns Q) h

/-- Later, with no order or position written since. -/
def Later (h h' : History) : Prop := ∃ new : History, h' = new ++ h ∧ ∀ x ∈ new, ¬x.op.isTrade

theorem Later.refl (h : History) : Later h h := ⟨[], rfl, by simp⟩

theorem Later.cons (hl : Later h h') {x : Reaction TradingOp TradingOp.Reply}
    (hx : ¬x.op.isTrade) : Later h (x :: h') := by
  obtain ⟨new, rfl, hnew⟩ := hl
  exact ⟨x :: new, rfl, fun y hy => (List.mem_cons.mp hy).elim (fun heq => heq ▸ hx) (hnew y)⟩

theorem Later.mem (hl : Later h h') {x : Reaction TradingOp TradingOp.Reply} (hx : x ∈ h) :
    x ∈ h' := by
  obtain ⟨new, rfl, -⟩ := hl
  exact List.mem_append_right _ hx

/-- What only writes of orders and positions can be is as it was. -/
theorem Later.any (hl : Later h h') {P : Reaction TradingOp TradingOp.Reply → Bool}
    (hP : ∀ x, P x → x.op.isTrade) : h'.any P = h.any P := by
  obtain ⟨new, rfl, hnew⟩ := hl
  have hnone : new.any P = false := by
    rw [List.any_eq_false]
    exact fun x hx hp => hnew x hx (hP x hp)
  rw [List.any_append, hnone, Bool.false_or]

theorem Later.marks (hl : Later h h') : h'.any isUpsert = h.any isUpsert ∧
    h'.any isDecrement = h.any isDecrement ∧ h'.any isRestore = h.any isRestore ∧
    h'.any isCreation = h.any isCreation ∧ h'.any isSettling = h.any isSettling ∧
    h'.any isExecution = h.any isExecution := by
  refine ⟨hl.any ?_, hl.any ?_, hl.any ?_, hl.any ?_, hl.any ?_, hl.any ?_⟩ <;>
    rintro ⟨op, reply⟩ hx <;> cases op <;> first | rfl | cases hx

theorem Later.moved (hl : Later h h') : r.Moved h' ↔ r.Moved h := by
  obtain ⟨hupsert, hdecrement, hrestore, -⟩ := hl.marks
  cases r <;> simp only [Request.Moved, hupsert, hdecrement, hrestore]

theorem Later.done (hl : Later h h') : r.Done h' ↔ r.Done h := by
  simp only [Request.Done, hl.moved, hl.marks.2.2.2.2.2]

theorem may_of_neutral {op : TradingOp} (hop : ¬op.isTrade) : r.May h op := by
  cases op <;> trivial

/-- Where nothing is written, only the history grows. -/
theorem obeys_neutral {post : History → Except Exception α → Prop} {p : Call α}
    (hp : p.Sends fun op => ¬op.isTrade) (hpost : ∀ h' res, Later h h' → post h' res) :
    p.Obeys r.May (fun _ _ => True) post h := by
  exact (Obeys.extends hp fun _ _ => may_of_neutral).mono hpost

theorem neutral_of_quiet (op : TradingOp) (hop : op.quiet) : ¬op.isTrade := by
  cases op <;> first | exact Bool.false_ne_true | cases hop

/-- The order is placed, and neither executed nor rejected so far. -/
def Open (h : History) (orderId : ℕ) : Prop :=
  (∃ order, ⟨.createOrder order, orderId⟩ ∈ h) ∧ ¬h.any isSettling

theorem Later.open {orderId : ℕ} (hl : Later h h') (ho : Open h orderId) : Open h' orderId := by
  obtain ⟨⟨order, horder⟩, hsettling⟩ := ho
  exact ⟨⟨order, hl.mem horder⟩, hl.marks.2.2.2.2.1 ▸ hsettling⟩

theorem follows_markExecuted {memberId : String} {orderId : ℕ} {event : TradeExecutedEvent}
    (ho : Open h orderId) (hm : r.Moved h) :
    r.Follows (fun h' _ => r.Done h') h (markExecuted memberId orderId event) := by
  apply Obeys.send ho
  intro reply
  apply obeys_neutral
  · apply Sends.bind
    · exact sends_swallow (neutral_of_quiet _ rfl) _
    intro deleted
    apply Sends.send
    · exact neutral_of_quiet _ rfl
    · exact fun _ => trivial
  · intro h' res hl
    cases res with
    | error e => trivial
    | ok a =>
      refine hl.done.mpr ⟨rfl, ?_⟩
      cases r <;> exact hm

/-- A wallet call that is tried, with a handler that ends in a throw. -/
theorem follows_catching {transfer : Call ℚ} {undo : Exception → Call ℚ}
    (htransfer : transfer.Sends fun op => ¬op.isTrade)
    (hundo : ∀ err h', Later h h' → r.Follows (fun _ _ => False) h' (undo err)) :
    r.Follows (fun h' _ => Later h h') h (catching transfer undo) := by
  refine Obeys.handle (obeys_neutral htransfer fun h' res hl => hl) ?_
  intro h' res hl
  cases res with
  | ok b => exact hl
  | error err =>
    apply (hundo err h' hl).mono
    intro h'' res hres
    cases res with
    | ok b => exact hres.elim
    | error e => trivial

theorem sends_deduct {Q : TradingOp → Prop} {userId : String} {amount : Number} {orderId : String}
    (hQ : Q (.postDeduct userId amount orderId)) :
    (WalletClient.deduct userId amount orderId).Sends Q := by
  apply Sends.handle
  · refine Sends.send hQ ?_
    intro response
    cases response <;> trivial
  · intro res
    cases res <;> trivial

theorem sends_credit {Q : TradingOp → Prop} {userId : String} {amount : Number} {orderId : String}
    (hQ : Q (.postCredit userId amount orderId)) :
    (WalletClient.credit userId amount orderId).Sends Q := by
  apply Sends.handle
  · refine Sends.send hQ ?_
    intro response
    cases response <;> trivial
  · intro res
    cases res <;> trivial

theorem deduct_neutral (userId : String) (amount : Number) (orderId : String) :
    (WalletClient.deduct userId amount orderId).Sends fun op => ¬op.isTrade :=
  sends_deduct Bool.false_ne_true

theorem credit_neutral (userId : String) (amount : Number) (orderId : String) :
    (WalletClient.credit userId amount orderId).Sends fun op => ¬op.isTrade :=
  sends_credit Bool.false_ne_true

section Bodies
variable {memberId : String} {dto : PlaceOrderDto} {trader : Trader} {stock : Stock}

theorem follows_upsertPosition {ticker companyName : String} {pricePerShare : Number} {orderId : ℕ}
    (ho : Open h orderId) (hno : ¬h.any isUpsert) :
    (Request.buy memberId dto).Follows (fun h' _ => Open h' orderId ∧ h'.any isUpsert) h
      (upsertPosition memberId dto.stockId ticker companyName dto.shares pricePerShare) := by
  obtain ⟨⟨order, horder⟩, hsettling⟩ := ho
  apply Obeys.send trivial
  intro existing
  cases existing with
  | none =>
    apply Obeys.send ⟨dto, rfl, rfl, rfl, hno⟩
    intro created
    cases created with
    | false => trivial
    | true => exact ⟨⟨⟨order, .tail _ (.tail _ horder)⟩, hsettling⟩, rfl⟩
  | some existing =>
    apply Obeys.send
    · exact ⟨dto, rfl, rfl, rfl, hno⟩
    intro reply
    exact ⟨⟨⟨order, .tail _ (.tail _ horder)⟩, hsettling⟩, rfl⟩

theorem follows_buyLocked (hl : Later [] h) :
    (Request.buy memberId dto).Follows (fun h' _ => (Request.buy memberId dto).Done h') h
      (buyLocked memberId dto trader stock) := by
  obtain ⟨hupsert, -, -, hcreation, hsettling, -⟩ := hl.marks
  apply Obeys.send ⟨⟨rfl, rfl, rfl, rfl⟩, by simp [hcreation], by simp [hsettling]⟩
  intro orderId
  have ho : Open (⟨.createOrder (buyOrder memberId dto stock), orderId⟩ :: h) orderId :=
    ⟨⟨_, List.mem_cons_self⟩, by simp [isSettling, hsettling]⟩
  refine Obeys.bindReturns (follows_catching (deduct_neutral ..) ?_) ?_
  · intro err h' hl'
    apply Obeys.send (hl'.open ho)
    exact fun _ => trivial
  intro h' _ hl'
  have hno : ¬h'.any isUpsert := by simp [hl'.marks.1, isUpsert, hupsert]
  apply (follows_upsertPosition (hl'.open ho) hno).bindReturns
  intro h'' _ hdone
  exact follows_markExecuted hdone.1 hdone.2

theorem follows_sellDecremented {position : Position} (hdecrement : h.any isDecrement)
    (hrestore : ¬h.any isRestore) (hcreation : ¬h.any isCreation) (hsettling : ¬h.any isSettling) :
    (Request.sell memberId dto).Follows (fun h' _ => (Request.sell memberId dto).Done h') h
      (sellDecremented memberId dto trader stock position) := by
  apply Obeys.send ⟨⟨rfl, rfl, rfl, rfl⟩, hcreation, hsettling⟩
  intro orderId
  have ho : Open (⟨.createOrder (sellOrder memberId dto stock position), orderId⟩ :: h) orderId :=
    ⟨⟨_, List.mem_cons_self⟩, by simpa [isSettling] using hsettling⟩
  refine Obeys.bindReturns (follows_catching (credit_neutral ..) ?_) ?_
  · intro err h' hl'
    obtain ⟨-, hdecrement', hrestore', -⟩ := hl'.marks
    have hdecremented : h'.any isDecrement := by
      rw [hdecrement']
      exact hdecrement
    have hunrestored : ¬h'.any isRestore := by
      rw [hrestore']
      exact hrestore
    apply Obeys.send ⟨dto, rfl, rfl, .inr ⟨rfl, rfl, hdecremented, hunrestored⟩⟩
    intro restored
    obtain ⟨⟨order, horder⟩, hopen⟩ := hl'.open ho
    apply Obeys.send ⟨⟨order, .tail _ horder⟩, hopen⟩
    exact fun _ => trivial
  · intro h' _ hl'
    have hmoved : (Request.sell memberId dto).Moved h' := hl'.moved.mpr ⟨hdecrement, hrestore⟩
    obtain ⟨⟨order, horder⟩, hopen⟩ := hl'.open ho
    dsimp only
    split
    · exact Obeys.send ⟨dto, rfl, rfl⟩ fun _ =>
        follows_markExecuted ⟨⟨order, .tail _ horder⟩, hopen⟩ hmoved
    · exact follows_markExecuted ⟨⟨order, horder⟩, hopen⟩ hmoved

theorem follows_sellLocked (hl : Later [] h) :
    (Request.sell memberId dto).Follows (fun h' _ => (Request.sell memberId dto).Done h') h
      (sellLocked memberId dto trader stock) := by
  obtain ⟨-, hdecrement, hrestore, hcreation, hsettling, -⟩ := hl.marks
  refine Obeys.send ⟨dto, rfl, rfl, .inl ⟨rfl, rfl, by simp [hdecrement], by simp [hrestore]⟩⟩ ?_
  intro reply
  cases reply with
  | none => trivial
  | some position =>
    apply follows_sellDecremented rfl
    · simp [isRestore, hrestore]
    · simp [isCreation, hcreation]
    · simp [isSettling, hsettling]

end Bodies

/-- What happens before and after the body writes nothing. -/
theorem follows_order {uuid : ℕ} {memberId : String} {findStock : Call Stock}
    {body : Trader → Stock → Call (Option Order)}
    (hfind : findStock.Sends fun op => op.passive)
    (hbody : ∀ trader stock h, Later [] h →
      r.Follows (fun h' _ => r.Done h') h (body trader stock)) :
    r.Follows (fun h _ => r.Done h) [] (do
      let trader ← TraderService.assertCanTrade memberId
      let stock ← findStock
      LockService.withMemberLock uuid memberId (body trader stock)) := by
  rw [order_eq_guards]
  have hguards : (guards uuid memberId findStock).Sends fun op => ¬op.isTrade :=
    (guards_quiet uuid memberId hfind).mono neutral_of_quiet
  refine Obeys.bindReturns (Q := fun h' _ => Later [] h') (obeys_neutral hguards ?_) ?_
  · intro h' res hl
    cases res with
    | ok g => exact hl
    | error e => trivial
  · intro h' g hl
    apply (hbody g.1 g.2.1 h' hl).finallyDo
    intro h'' res hres
    apply Obeys.step
    · trivial
    · intro _ released
      cases res with
      | ok a =>
        have hl : Later h'' (⟨.evalRelease _ _, released⟩ :: h'') :=
          (Later.refl h'').cons Bool.false_ne_true
        exact hl.done.mpr hres
      | error e => trivial
    · exact fun _ _ => trivial
    · exact fun _ _ _ => trivial

theorem follows_serve (uuid : ℕ) (r : Request) :
    r.Follows (fun h _ => r.Done h) [] (r.serve uuid) := by
  cases r with
  | buy memberId dto =>
    exact follows_order (findListedById_passive dto.stockId) fun _ _ _ => follows_buyLocked
  | sell memberId dto =>
    exact follows_order (findById_passive dto.stockId) fun _ _ _ => follows_sellLocked

end Walk
end StockMarket.Trading
