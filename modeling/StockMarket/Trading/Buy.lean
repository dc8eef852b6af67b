import StockMarket.Trading.Atomicity

/-! # A buy under failing calls

The money is taken before the shares are entered, and only an error of the
deduct is compensated, without a refund. Where the calls that fail leave all of
the buy or none of it is given exactly.
-/

namespace StockMarket.Trading
open Interleaving Prog OrderService

section Upsert
variable {remote : Wallet.Faults} {faults : Faults} {memberId : String} {order : Order} {x : Store}

/-- The position after the shares of a buy are entered: a new one, or the old
one with the cost added to what it already cost. -/
def upserted (order : Order) : Option Position → Position
  | none =>
      { ticker := order.ticker
        companyName := order.companyName
        shares := order.shares
        avgBuyPrice := order.pricePerShare
        totalInvested := order.pricePerShare.map fun price : ℚ => order.shares * price }
  | some existing =>
      let newTotal := Option.map₂ (fun total cost : ℚ => total + cost) existing.totalInvested
        (order.pricePerShare.map fun price : ℚ => order.shares * price)
      { existing with
        shares := existing.shares + order.shares
        avgBuyPrice := newTotal.map fun total : ℚ => total / (existing.shares + order.shares : ℤ)
        totalInvested := newTotal }

/-- The write that enters it. -/
abbrev upsertWrite (order : Order) (existing : Option Position) : TradingOp :=
  let position := upserted order existing
  match existing with
  | none => .createPosition order.memberId order.stockId position
  | some _ => .updatePosition order.memberId order.stockId order.shares position.avgBuyPrice
      position.totalInvested

def UpsertAnswered (faults : Faults) (order : Order) (x : Store) : Prop :=
  faults (.findPosition order.memberId order.stockId) = .done ∧
  faults (upsertWrite order (x.position order.memberId order.stockId)) = .done

theorem run_upsertPosition (remote : Wallet.Faults) (faults : Faults) (order : Order) (x : Store) :
    ∃ r y, (upsertPosition order.memberId order.stockId order.ticker order.companyName order.shares
        order.pricePerShare).run (exec remote) faults x = (r, y) ∧
      y.orders = x.orders ∧ y.wallet = x.wallet ∧
      ((UpsertAnswered faults order x ∧ r = .ok () ∧ y.position order.memberId order.stockId =
          some (upserted order (x.position order.memberId order.stockId))) ∨
        ¬UpsertAnswered faults order x ∧ ∃ e, r = .error e) := by
  rw [upsertPosition, UpsertAnswered]
  by_cases hfind : faults (.findPosition order.memberId order.stockId) = .done
  swap
  · obtain ⟨e, hrun⟩ := run_read_bind_thrown (exec remote) faults _ (x := x) rfl hfind
    exact ⟨_, x, hrun, rfl, rfl, .inr ⟨fun h => hfind h.1, e, rfl⟩⟩
  have hread : exec remote (.findPosition order.memberId order.stockId) x =
      (x.position order.memberId order.stockId, x) := rfl
  rw [run_send_bind_done (exec remote) faults _ x hfind, hread]
  rcases hposition : x.position order.memberId order.stockId with _ | existing
  · have hexec : exec remote (upsertWrite order none) x =
        (true, x.setPosition order.memberId order.stockId (upserted order none)) := by
      simp only [exec, upsertWrite, hposition]
    by_cases hwrite : faults (upsertWrite order none) = .done
    · refine ⟨.ok (), x.setPosition order.memberId order.stockId (upserted order none), ?_, rfl,
        rfl, .inl ⟨⟨hfind, hwrite⟩, rfl, position_setPosition ..⟩⟩
      exact (run_send_bind_done (exec remote) faults _ x hwrite).trans (by rw [hexec]; rfl)
    · obtain ⟨e, y, hrun, hy⟩ := run_send_bind_thrown (exec remote) faults
        (fun created : Bool => if created then pure ()
          else raise (.driver "E11000 duplicate key error")) x hwrite
      refine ⟨_, y, hrun, ?_, ?_, .inr ⟨fun h => hwrite h.2, e, rfl⟩⟩ <;> rw [hy, hexec] <;>
        split <;> rfl
  · have hexec : exec remote (upsertWrite order (some existing)) x =
        ((), x.setPosition order.memberId order.stockId (upserted order (some existing))) := by
      simp only [exec, upsertWrite, hposition, upserted]
    have hsend := run_send (exec remote) faults (upsertWrite order (some existing)) x
    rw [hexec] at hsend
    cases hwrite : faults (upsertWrite order (some existing)) with
    | done =>
      rw [hwrite] at hsend
      exact ⟨_, _, hsend, rfl, rfl, .inl ⟨⟨hfind, rfl⟩, rfl, position_setPosition ..⟩⟩
    | failed e =>
      rw [hwrite] at hsend
      exact ⟨_, _, hsend, rfl, rfl, .inr ⟨by simp, e, rfl⟩⟩
    | lost e =>
      rw [hwrite] at hsend
      exact ⟨_, _, hsend, rfl, rfl, .inr ⟨by simp, e, rfl⟩⟩

end Upsert

section Buy
variable {remote : Wallet.Faults} {faults : Faults} {memberId : String} {dto : PlaceOrderDto}
  {trader : Trader} {stock : Stock} {order : Order} {s : Store}

def Deducted (remote : Wallet.Faults) (faults : Faults) (order : Order) (s : Store) : Prop :=
  (faults (.postDeduct order.memberId order.totalAmount (toString s.orders.length))).applies ∧
  Carries Wallet.InternalMoveDto.deduction order.memberId order.totalAmount
    (toString s.orders.length) remote s.wallet

def DeductConfirmed (remote : Wallet.Faults) (faults : Faults) (order : Order) (s : Store) : Prop :=
  faults (.postDeduct order.memberId order.totalAmount (toString s.orders.length)) = .done ∧
  Confirms Wallet.InternalMoveDto.deduction order.memberId order.totalAmount
    (toString s.orders.length) remote s.wallet

theorem DeductConfirmed.deducted (h : DeductConfirmed remote faults order s) :
    Deducted remote faults order s :=
  ⟨by rw [h.1]; rfl, h.2.carries⟩

/-- The calls that follow an answered deduct succeed. -/
def PurchaseFinishes (faults : Faults) (order : Order) (s : Store) : Prop :=
  UpsertAnswered faults order s ∧ (faults (.updateOrder s.orders.length .executed)).applies

inductive PurchaseEnd (remote : Wallet.Faults) (faults : Faults) (order : Order) (x : Store) :
    Except Exception (Option Order) × Store → Prop
  | unwritten (e : Exception) (y : Store) (h : faults (.createOrder order) ≠ .done)
      (wallet : y.wallet = x.wallet) (positions : y.positions = x.positions)
      (orders : y.orders = x.orders ∨ y.orders = x.orders ++ [order]) :
      PurchaseEnd remote faults order x (.error e, y)
  | confirmed (r : Except Exception (Option Order)) (y : Store) (order' : Order)
      (created : faults (.createOrder order) = .done)
      (h : DeductConfirmed remote faults order x)
      (made : MadeFor Wallet.InternalMoveDto.deduction order.memberId order.totalAmount
        (toString x.orders.length) x.wallet y.wallet)
      (last : y.orders = x.orders ++ [order']) (total : order'.totalAmount = order.totalAmount)
      (finished : (PurchaseFinishes faults order x ∧ order'.status = .executed ∧
          y.position order.memberId order.stockId =
            some (upserted order (x.position order.memberId order.stockId))) ∨
        ¬PurchaseFinishes faults order x ∧ order'.status = .pending)
      (returned : ∀ a, r = .ok a → PurchaseFinishes faults order x ∧
        ∃ now, a = some (OrderUpdate.apply now order .executed)) :
      PurchaseEnd remote faults order x (r, y)
  | rejected (e : Exception) (y : Store) (created : faults (.createOrder order) = .done)
      (hno : ¬DeductConfirmed remote faults order x)
      (wallet : (¬Deducted remote faults order x ∧
          ∀ owner, y.wallet.balance owner = x.wallet.balance owner) ∨
        Deducted remote faults order x ∧ MadeFor Wallet.InternalMoveDto.deduction order.memberId
          order.totalAmount (toString x.orders.length) x.wallet y.wallet)
      (last : ∃ order', y.orders = x.orders ++ [order'] ∧
        order'.totalAmount = order.totalAmount ∧ order'.status ≠ .executed)
      (positions : y.positions = x.positions) :
      PurchaseEnd remote faults order x (.error e, y)

theorem run_buyLocked (remote : Wallet.Faults) (faults : Faults) (memberId : String)
    (dto : PlaceOrderDto) {x : Store} (hfresh : ¬x.wallet.HasKey s!"trade:deduct:{x.orders.length}")
    (trader : Trader) (stock : Stock) :
    PurchaseEnd remote faults (buyOrder memberId dto stock) x
      ((buyLocked memberId dto trader stock).run (exec remote) faults x) := by
  set order := buyOrder memberId dto stock with horder
  rw [buyLocked, ← horder]
  have hcreate : exec remote (.createOrder order) x =
      (x.orders.length, { x with orders := x.orders ++ [order] }) := rfl
  by_cases hdone : faults (.createOrder order) = .done
  swap
  · obtain ⟨e, y, hrun, hy⟩ := run_send_bind_thrown (exec remote) faults _ x hdone
    rw [hrun]
    rw [hcreate] at hy
    split at hy <;> subst hy
    · exact .unwritten e _ hdone rfl rfl (.inr rfl)
    · exact .unwritten e _ hdone rfl rfl (.inl rfl)
  obtain ⟨r, w', hdeduct, hposted⟩ := posted_deduct remote faults
    memberId order.totalAmount (toString x.orders.length)
    (s := { x with orders := x.orders ++ [order] }) hfresh
  let x' : Store := { x with orders := x.orders ++ [order], wallet := w' }
  have hpending : order.status ≠ .executed := by simp [horder, buyOrder]
  rw [run_send_bind_done (exec remote) faults _ x hdone, hcreate, run_catching_bind, hdeduct]
  rcases r with e | b
  · obtain ⟨hno, hmoved⟩ := hposted.error fun h =>
      (show DeductConfirmed remote faults order x from h).deducted
    obtain ⟨e', y, hrun, hun, hpositions⟩ := run_reject (Option Order) remote faults
      (x := x') (l := x.orders) rfl hpending e
    have hcase : PurchaseEnd remote faults order x (.error e', y) :=
      .rejected e' y hdone hno (by rw [hun.wallet]; exact hmoved) hun.last hpositions
    rw [← hrun] at hcase
    simp only [bind_bind, raise_bind]
    exact hcase
  · cases hposted with
    | answered b w' h made =>
      obtain ⟨r, y, hupsert, horders, hwallet, hcase⟩ := run_upsertPosition remote faults order x'
      have hmade : MadeFor Wallet.InternalMoveDto.deduction order.memberId order.totalAmount
          (toString x.orders.length) x.wallet y.wallet := by rw [hwallet]; exact made
      change PurchaseEnd remote faults order x ((upsertPosition order.memberId order.stockId
        order.ticker order.companyName order.shares order.pricePerShare >>= fun _ =>
          markExecuted memberId x.orders.length (tradeExecuted trader order x.orders.length)).run
            (exec remote) faults x')
      rw [run_bind, hupsert]
      rcases hcase with ⟨hanswered, rfl, hposition⟩ | ⟨hno, e, rfl⟩
      · obtain ⟨r, z, hrun, hpositions, hw, hlast, hok⟩ := run_markExecuted remote
          faults memberId (tradeExecuted trader order x.orders.length)
          (show y.orders = x.orders ++ [order] from horders)
        rw [andThen_ok, hrun]
        refine .confirmed r z _ hdone h (by rw [hw]; exact hmade) hlast (by split <;> rfl) ?_
          fun a ha => ⟨⟨hanswered, (hok a ha).1⟩, y.now, (hok a ha).2⟩
        by_cases happ : (faults (.updateOrder x.orders.length .executed)).applies
        · refine .inl ⟨⟨hanswered, happ⟩, by rw [if_pos happ]; rfl, ?_⟩
          simpa only [Store.position, hpositions] using hposition
        · exact .inr ⟨fun h => happ h.2, by rw [if_neg happ]; rfl⟩
      · exact .confirmed _ y order hdone h hmade horders rfl (.inr ⟨fun h => hno h.1, rfl⟩)
          fun _ h => by cases h

/-- A purchase settles where the deduct is not carried out for a written order,
or is answered and every later call succeeds. -/
def PurchaseSettles (remote : Wallet.Faults) (faults : Faults) (order : Order) (s : Store) : Prop :=
  faults (.createOrder order) = .done → Deducted remote faults order s →
    DeductConfirmed remote faults order s ∧ PurchaseFinishes faults order s

theorem purchaseSettles_congr {x : Store} (hpositions : x.positions = s.positions)
    (horders : x.orders = s.orders) (hwallet : x.wallet = s.wallet) :
    PurchaseSettles remote faults order x ↔ PurchaseSettles remote faults order s := by
  simp only [PurchaseSettles, DeductConfirmed, Deducted, PurchaseFinishes, UpsertAnswered,
    Store.position, hpositions, horders, hwallet]

theorem shares_upserted (order : Order) (s : Store) :
    (upserted order (s.position order.memberId order.stockId)).shares =
      s.shares order.memberId order.stockId + order.shares := by
  rw [Store.shares]
  cases s.position order.memberId order.stockId with
  | none => exact (zero_add _).symm
  | some existing => rfl

theorem PurchaseEnd.allOrNothing_iff {out : Except Exception (Option Order) × Store}
    (h : PurchaseEnd remote faults order s out) (hpos : 0 < order.shares)
    (hpending : order.status = .pending) :
    AllOrNothing s!"trade:deduct:{s.orders.length}" (-1) order.shares order.memberId order.stockId s
      out.2 ↔ PurchaseSettles remote faults order s := by
  have hdelta : (order.shares : ℤ) ≠ 0 := by omega
  have hsign : (-1 : ℚ) ≠ 0 := neg_ne_zero.mpr one_ne_zero
  cases h with
  | unwritten e y hno wallet positions orders =>
    refine iff_of_true (allOrNothing_of_unchanged hsign hdelta (by rw [wallet]) ?_ ?_)
      fun h => absurd h hno
    · simp only [Store.shares, Store.position, positions]
    · rcases orders with orders | orders
      · simp [Store.orderStatus, orders]
      · rw [orderStatus_last orders, hpending]
        simp
  | confirmed r y order' created h made last total finished returned =>
    have hmoved := movedUnder_of_debit (s := s) made
      (by rw [last, List.getElem?_concat_length]) total
    rcases finished with ⟨hgo, hstatus, hposition⟩ | ⟨hno, hstatus⟩
    · refine iff_of_true (allOrNothing_of_complete hmoved ?_ ?_) fun _ _ => ⟨h, hgo⟩
      · rw [shares_eq hposition, shares_upserted]
      · rw [orderStatus_last last, hstatus]
    · refine iff_of_false (not_allOrNothing_of_unexecuted hmoved ?_) fun hs =>
        hno (hs created h.deducted).2
      rw [orderStatus_last last, hstatus]
      simp
  | rejected e y created hno wallet last positions =>
    obtain ⟨order', hlast, htotal, hstatus⟩ := last
    have hunexecuted : y.orderStatus s.orders.length ≠ some .executed := by
      rw [orderStatus_last hlast]
      exact fun h => hstatus (Option.some.inj h)
    rcases wallet with ⟨hnot, same⟩ | ⟨hdeducted, made⟩
    · refine iff_of_true (allOrNothing_of_unchanged hsign hdelta (same _) ?_ hunexecuted)
        fun _ h => absurd h hnot
      simp only [Store.shares, Store.position, positions]
    · exact iff_of_false (not_allOrNothing_of_unexecuted (movedUnder_of_debit made
        (by rw [hlast, List.getElem?_concat_length]) htotal) hunexecuted)
        fun hs => hno (hs created hdeducted).1

theorem run_buy (remote : Wallet.Faults) (faults : Faults) (uuid : ℕ) (memberId : String)
    (dto : PlaceOrderDto) (s : Store) :
    OrderRun remote faults uuid memberId dto.stockId (fun stock => stock.isListed)
      (buyLocked memberId dto) s ((buy uuid memberId dto).run (exec remote) faults s) :=
  run_order uuid memberId remote faults s (findListedById_passive dto.stockId)
    (run_findListedById remote faults dto.stockId) (buyLocked memberId dto)

/-- The failures under which a buy leaves all or nothing: an admitted buy
settles. -/
def BuySettles (remote : Wallet.Faults) (faults : Faults) (uuid : ℕ) (memberId : String)
    (dto : PlaceOrderDto) (s : Store) : Prop :=
  ∀ trader stock, Admitted faults uuid s memberId dto.stockId (fun stock => stock.isListed) trader
    stock → PurchaseSettles remote faults (buyOrder memberId dto stock) s

/-- A buy leaves all or nothing exactly where it settles. -/
theorem buy_allOrNothing_iff (remote : Wallet.Faults) (faults : Faults) (uuid : ℕ)
    (memberId : String) (dto : PlaceOrderDto) (s : Store)
    (hfresh : ¬s.wallet.HasKey s!"trade:deduct:{s.orders.length}") :
    AllOrNothing s!"trade:deduct:{s.orders.length}" (-1) dto.shares memberId dto.stockId s
      ((buy uuid memberId dto).run (exec remote) faults s).2 ↔
    BuySettles remote faults uuid memberId dto s := by
  have hdelta : (dto.shares : ℤ) ≠ 0 := by have := dto.shares_pos; omega
  rcases run_buy remote faults uuid memberId dto s with
    ⟨hno, haccounts, -⟩ | ⟨trader, stock, x, hadm, hx, haccounts, -⟩
  · rw [allOrNothing_congr rfl haccounts]
    exact iff_of_true (allOrNothing_self _ (neg_ne_zero.mpr one_ne_zero) hdelta _ _ _)
      fun trader stock hadm => absurd ⟨trader, stock, hadm⟩ hno
  · obtain ⟨hp, ho, hw⟩ := accounts_eq_iff.mp hx
    have hbody := (run_buyLocked remote faults memberId dto (x := x)
      (by rw [ho, hw]; exact hfresh) trader stock).allOrNothing_iff
        dto.shares_pos rfl
    rw [purchaseSettles_congr hp ho hw, ho] at hbody
    rw [allOrNothing_congr hx.symm haccounts]
    refine hbody.trans ⟨?_, fun h => h trader stock hadm⟩
    intro h trader' stock' hadm'
    obtain ⟨-, rfl⟩ := hadm.unique hadm'
    exact h

/-- With every call answered, five shares are bought on top of the ten. -/
theorem buy_allOrNothing_answered :
    AllOrNothing "trade:deduct:0" (-1) 5 "m" "s" sampleStore
      ((buy 0 "m" fiveShares).run (exec Wallet.answered) answered sampleStore).2 := by
  refine (buy_allOrNothing_iff Wallet.answered answered 0 "m" fiveShares sampleStore
    (by decide)).mpr ?_
  intro trader stock hadm _ _
  obtain rfl : sampleStock = stock := Option.some.inj hadm.seen
  have hcovers : sampleWallet.Covers (some (5 * 10)) := by decide +kernel
  have hconfirmed : DeductConfirmed Wallet.answered answered (buyOrder "m" fiveShares sampleStock)
      sampleStore :=
    ⟨rfl, 5 * 10, by norm_num, sampleWallet, rfl,
      { found := rfl, covers := hcovers, read := rfl, recorded := rfl, moved := rfl, counted := rfl,
        locked := rfl, free := rfl, answered := rfl, completed := rfl, released := rfl }⟩
  exact ⟨hconfirmed, ⟨rfl, rfl⟩, rfl⟩

def upsertFails : Faults
  | .updatePosition _ _ _ _ _ => .failed (.driver "timeout")
  | _ => .done

/-- The money is taken, no share is entered, and the order stays PENDING. -/
theorem buy_debited_and_pending :
    let s' := ((buy 0 "m" fiveShares).run (exec Wallet.answered) upsertFails sampleStore).2
    (s'.wallet.balance "m" = 50 ∧ s'.shares "m" "s" = 10 ∧ s'.orderStatus 0 = some .pending) ∧
    ¬AllOrNothing "trade:deduct:0" (-1) 5 "m" "s" sampleStore s' := by
  intro s'
  have hend : s'.wallet.balance "m" = 50 ∧ s'.shares "m" "s" = 10 ∧
      s'.orderStatus 0 = some .pending := by decide +kernel
  refine ⟨hend, not_allOrNothing_of_balance ?_ ?_⟩
  · rw [hend.1]
    decide +kernel
  · rw [show sampleStore.orders.length = 0 from rfl, hend.2.2]
    simp

end Buy
end StockMarket.Trading
