import StockMarket.Trading.Atomicity

/-! # A sell under failing calls

The shares are taken before the order is written, and every error of the credit
is treated as if no money had moved. Where the calls that fail leave all of the
sell or none of it is given exactly.
-/

namespace StockMarket.Trading
open Interleaving Prog OrderService

section Parts
variable {remote : Wallet.Faults} {faults : Faults} {memberId stockId : String} {x : Store}
  {l : List Order} {order : Order} {position : Position}

/-- What `sell` does when the credit throws: the shares go back where that call
is carried out. -/
theorem run_rollback (α : Type) (remote : Wallet.Faults) (faults : Faults)
    (h : x.position memberId stockId = some position)
    (horders : x.orders = l ++ [order]) (hstatus : order.status ≠ .executed) (shares : ℤ)
    (err : Exception) :
    ∃ e y, (query (.incPosition memberId stockId none shares) >>= fun _ =>
        query (.updateOrder l.length (.rejected err.message)) >>= fun _ =>
          (raise err : Call α)).run (exec remote) faults x = (.error e, y) ∧
      Unexecuted l order x y ∧ y.shares memberId stockId = position.shares +
        if (faults (.incPosition memberId stockId none shares)).applies then shares else 0 := by
  have hexec := exec_incPosition remote h none rfl shares
  have hback : (x.setPosition memberId stockId
      { position with shares := position.shares + shares }).shares memberId stockId =
        position.shares + shares := shares_setPosition x memberId stockId _
  by_cases hdone : faults (.incPosition memberId stockId none shares) = .done
  · have happ : (faults (.incPosition memberId stockId none shares)).applies := by rw [hdone]; rfl
    rw [run_send_bind_done (exec remote) faults _ x hdone, hexec, if_pos happ]
    obtain ⟨e, y, hrun, hun, hpositions⟩ := run_reject α remote faults
      (x := x.setPosition memberId stockId { position with shares := position.shares + shares })
      horders hstatus err
    refine ⟨e, y, hrun, ⟨hun.wallet, hun.last⟩, ?_⟩
    simpa only [Store.shares, Store.position, hpositions] using hback
  · obtain ⟨e, y, hrun, hy⟩ := run_send_bind_thrown (exec remote) faults
      (fun _ => query (.updateOrder l.length (.rejected err.message)) >>= fun _ =>
        (raise err : Call α)) x hdone
    refine ⟨e, y, hrun, ?_⟩
    rw [hexec] at hy
    split at hy <;> rename_i happ <;> subst hy
    · rw [if_pos happ]
      exact ⟨⟨rfl, order, horders, rfl, hstatus⟩, hback⟩
    · rw [if_neg happ, add_zero]
      exact ⟨⟨rfl, order, horders, rfl, hstatus⟩, shares_eq h⟩

/-- What `sell` ends with once the credit is answered: an empty position is
deleted, and the order is marked EXECUTED if that went well. -/
theorem run_finishSell (remote : Wallet.Faults) (faults : Faults) (event : TradeExecutedEvent)
    (h : x.position memberId stockId = some position) (horders : x.orders = l ++ [order]) :
    ∃ r y order', (if position.shares = 0 then
          query (.deletePosition memberId stockId) >>= fun _ => markExecuted memberId l.length event
        else markExecuted memberId l.length event).run (exec remote) faults x = (r, y) ∧
      y.wallet = x.wallet ∧ y.orders = l ++ [order'] ∧ order'.totalAmount = order.totalAmount ∧
      (if (position.shares = 0 → faults (.deletePosition memberId stockId) = .done) ∧
          (faults (.updateOrder l.length .executed)).applies
        then order'.status = .executed ∧ y.shares memberId stockId = position.shares
        else order'.status = order.status) ∧
      ∀ a, r = .ok a → a = some (OrderUpdate.apply x.now order .executed) ∧
        y.position memberId stockId = if position.shares = 0 then none else some position := by
  by_cases hempty : position.shares = 0
  · rw [if_pos hempty]
    by_cases hdone : faults (.deletePosition memberId stockId) = .done
    · have hgone := position_deletePosition x memberId stockId
      rw [run_send_bind_done (exec remote) faults _ x hdone]
      obtain ⟨r, y, hrun, hpositions, hwallet, hlast, hok⟩ := run_markExecuted remote
        faults memberId (x := x.deletePosition memberId stockId) event horders
      have hposition : y.position memberId stockId = none := by
        simpa only [Store.position, hpositions] using hgone
      refine ⟨r, y, _, hrun, hwallet, hlast, ?_, ?_, fun a ha => ⟨(hok a ha).2, ?_⟩⟩
      · split <;> rfl
      · by_cases happ : (faults (.updateOrder l.length .executed)).applies
        · rw [if_pos ⟨fun _ => hdone, happ⟩, if_pos happ]
          exact ⟨rfl, by rw [Store.shares, hposition, hempty]; rfl⟩
        · rw [if_neg fun h => happ h.2, if_neg happ]
      · rw [hposition, if_pos hempty]
    · obtain ⟨e, y, hrun, hy⟩ := run_send_bind_thrown (exec remote) faults
        (fun _ => markExecuted memberId l.length event) x hdone
      refine ⟨_, y, order, hrun, ?_, ?_, rfl, ?_, fun _ h => by cases h⟩
      · rw [hy]
        split <;> rfl
      · rw [hy]
        split <;> exact horders
      · rw [if_neg fun h => hdone (h.1 hempty)]
  · rw [if_neg hempty]
    obtain ⟨r, y, hrun, hpositions, hwallet, hlast, hok⟩ := run_markExecuted remote
      faults memberId event horders
    have hposition : y.position memberId stockId = some position := by
      simpa only [Store.position, hpositions] using h
    refine ⟨r, y, _, hrun, hwallet, hlast, ?_, ?_, fun a ha => ⟨(hok a ha).2, ?_⟩⟩
    · split <;> rfl
    · by_cases happ : (faults (.updateOrder l.length .executed)).applies
      · rw [if_pos ⟨fun h => absurd h hempty, happ⟩, if_pos happ]
        exact ⟨rfl, shares_eq hposition⟩
      · rw [if_neg fun h => happ h.2, if_neg happ]
    · rw [hposition, if_neg hempty]

end Parts

section Sell
variable {remote : Wallet.Faults} {faults : Faults} {memberId : String} {dto : PlaceOrderDto}
  {trader : Trader} {stock : Stock} {position : Position} {s : Store}

/-- `sell`'s first write: it takes the shares if they are there. -/
abbrev takeShares (memberId : String) (dto : PlaceOrderDto) : TradingOp :=
  .incPosition memberId dto.stockId (some dto.shares) (-dto.shares)

def Credited (remote : Wallet.Faults) (faults : Faults) (order : Order) (s : Store) : Prop :=
  (faults (.postCredit order.memberId order.totalAmount (toString s.orders.length))).applies ∧
  Carries Wallet.InternalMoveDto.crediting order.memberId order.totalAmount
    (toString s.orders.length) remote s.wallet

def CreditConfirmed (remote : Wallet.Faults) (faults : Faults) (order : Order) (s : Store) : Prop :=
  faults (.postCredit order.memberId order.totalAmount (toString s.orders.length)) = .done ∧
  Confirms Wallet.InternalMoveDto.crediting order.memberId order.totalAmount
    (toString s.orders.length) remote s.wallet

theorem CreditConfirmed.credited {order : Order} (h : CreditConfirmed remote faults order s) :
    Credited remote faults order s :=
  ⟨by rw [h.1]; rfl, h.2.carries⟩

/-- The calls that follow an answered credit succeed. -/
def SaleFinishes (faults : Faults) (position : Position) (order : Order) (s : Store) : Prop :=
  (position.shares = 0 → faults (.deletePosition order.memberId order.stockId) = .done) ∧
  (faults (.updateOrder s.orders.length .executed)).applies

instance (faults : Faults) (position : Position) (order : Order) (s : Store) :
    Decidable (SaleFinishes faults position order s) :=
  inferInstanceAs (Decidable (_ ∧ _))

inductive SaleEnd (remote : Wallet.Faults) (faults : Faults) (position : Position) (order : Order)
    (x : Store) : Except Exception (Option Order) × Store → Prop
  | unwritten (e : Exception) (y : Store) (h : faults (.createOrder order) ≠ .done)
      (wallet : y.wallet = x.wallet)
      (kept : y.position order.memberId order.stockId = some position) :
      SaleEnd remote faults position order x (.error e, y)
  | confirmed (r : Except Exception (Option Order)) (y : Store) (order' : Order)
      (created : faults (.createOrder order) = .done)
      (h : CreditConfirmed remote faults order x)
      (made : MadeFor Wallet.InternalMoveDto.crediting order.memberId order.totalAmount
        (toString x.orders.length) x.wallet y.wallet)
      (last : y.orders = x.orders ++ [order']) (total : order'.totalAmount = order.totalAmount)
      (finished : if SaleFinishes faults position order x
        then order'.status = .executed ∧ y.shares order.memberId order.stockId = position.shares
        else order'.status = .pending)
      (returned : ∀ a, r = .ok a → a = some (OrderUpdate.apply x.now order .executed) ∧
        y.position order.memberId order.stockId =
          if position.shares = 0 then none else some position) :
      SaleEnd remote faults position order x (r, y)
  | rolledBack (e : Exception) (y : Store) (created : faults (.createOrder order) = .done)
      (hno : ¬CreditConfirmed remote faults order x)
      (wallet : (¬Credited remote faults order x ∧
          ∀ owner, y.wallet.balance owner = x.wallet.balance owner) ∨
        Credited remote faults order x ∧ MadeFor Wallet.InternalMoveDto.crediting order.memberId
          order.totalAmount (toString x.orders.length) x.wallet y.wallet)
      (last : ∃ order', y.orders = x.orders ++ [order'] ∧
        order'.totalAmount = order.totalAmount ∧ order'.status ≠ .executed)
      (shares : y.shares order.memberId order.stockId = position.shares +
        if (faults (.incPosition order.memberId order.stockId none order.shares)).applies
          then (order.shares : ℤ) else 0) :
      SaleEnd remote faults position order x (.error e, y)

theorem run_sellDecremented (remote : Wallet.Faults) (faults : Faults) (dto : PlaceOrderDto)
    {x : Store}
    (hfresh : ¬x.wallet.HasKey s!"trade:credit:{x.orders.length}")
    (hposition : x.position memberId dto.stockId = some position) (trader : Trader)
    (stock : Stock) :
    SaleEnd remote faults position (sellOrder memberId dto stock position) x
      ((sellDecremented memberId dto trader stock position).run (exec remote) faults x) := by
  set order := sellOrder memberId dto stock position with horder
  rw [sellDecremented, ← horder]
  by_cases hdone : faults (.createOrder order) = .done
  swap
  · obtain ⟨e, y, hrun, hy⟩ := run_send_bind_thrown (exec remote) faults _ x hdone
    rw [hrun]
    refine .unwritten e y hdone ?_ ?_ <;> rw [hy] <;> split
    · rfl
    · rfl
    · exact hposition
    · exact hposition
  obtain ⟨r, w', hcredit, hposted⟩ := posted_credit remote faults
    memberId order.totalAmount (toString x.orders.length)
    (s := { x with orders := x.orders ++ [order] }) hfresh
  let x' : Store := { x with orders := x.orders ++ [order], wallet := w' }
  have hposition' : x'.position memberId dto.stockId = some position := hposition
  have hpending : order.status ≠ .executed := by simp [horder, sellOrder]
  have hcreate : exec remote (.createOrder order) x =
      (x.orders.length, { x with orders := x.orders ++ [order] }) := rfl
  rw [run_send_bind_done (exec remote) faults _ x hdone, hcreate, run_catching_bind, hcredit]
  rcases r with e | b
  · obtain ⟨hno, hmoved⟩ := hposted.error fun h =>
      (show CreditConfirmed remote faults order x from h).credited
    obtain ⟨e', y, hrun, hun, hback⟩ := run_rollback (Option Order) remote faults
      hposition' (l := x.orders) rfl hpending dto.shares e
    simp only [bind_bind, raise_bind]
    have hcase : SaleEnd remote faults position order x (.error e', y) :=
      .rolledBack e' y hdone hno (by rw [hun.wallet]; exact hmoved) hun.last hback
    rw [← hrun] at hcase
    exact hcase
  · cases hposted with
    | answered b w' h made =>
      obtain ⟨r, y, order', hrun, hw, hlast, htotal, hend, hok⟩ := run_finishSell remote faults
        (tradeExecuted trader order x.orders.length) hposition' (l := x.orders) rfl
      have hcase : SaleEnd remote faults position order x (r, y) :=
        .confirmed r y order' hdone h (by rw [hw]; exact made) hlast htotal hend hok
      rw [← hrun] at hcase
      exact hcase

/-- A sale settles where the order is written, and then either the credit is
answered and every later call goes through, or the wallet has moved nothing and
the shares are given back. -/
def SaleSettles (remote : Wallet.Faults) (faults : Faults) (position : Position) (order : Order)
    (s : Store) : Prop :=
  faults (.createOrder order) = .done ∧
  (CreditConfirmed remote faults order s ∧ SaleFinishes faults position order s ∨
    ¬Credited remote faults order s ∧
      (faults (.incPosition order.memberId order.stockId none order.shares)).applies)

theorem saleSettles_congr {order : Order} {x : Store} (horders : x.orders = s.orders)
    (hwallet : x.wallet = s.wallet) : SaleSettles remote faults position order x ↔
      SaleSettles remote faults position order s := by
  simp only [SaleSettles, CreditConfirmed, Credited, SaleFinishes, horders, hwallet]

theorem SaleEnd.allOrNothing_iff {order : Order} {x : Store}
    {out : Except Exception (Option Order) × Store} (h : SaleEnd remote faults position order x out)
    (hpos : 0 < order.shares) (hshares : position.shares =
      s.shares order.memberId order.stockId + -order.shares)
    (horders : x.orders = s.orders) (hwallet : x.wallet = s.wallet) :
    AllOrNothing s!"trade:credit:{s.orders.length}" 1 (-order.shares) order.memberId order.stockId s
      out.2 ↔ SaleSettles remote faults position order x := by
  have hdelta : -(order.shares : ℤ) ≠ 0 := by omega
  cases h with
  | unwritten e y hno wallet kept =>
    refine iff_of_false (not_allOrNothing_of_shares_only one_ne_zero ?_ ?_) fun h => hno h.1
    · rw [wallet, hwallet]
    · rw [shares_eq kept, hshares]
  | confirmed r y order' created h made last total finished returned =>
    rw [hwallet] at made
    rw [horders] at last made
    have hmoved : MovedUnder s!"trade:credit:{s.orders.length}" 1 order.memberId s.orders.length s
        y := movedUnder_of_credit made (by rw [last, List.getElem?_concat_length]) total
    split at finished <;> rename_i hgo
    · refine iff_of_true (allOrNothing_of_complete hmoved (finished.2.trans hshares) ?_)
        ⟨created, .inl ⟨h, hgo⟩⟩
      rw [orderStatus_last last, finished.1]
    · refine iff_of_false (not_allOrNothing_of_unexecuted hmoved ?_) ?_
      · rw [orderStatus_last last, finished]
        simp
      · rintro ⟨-, ⟨-, h'⟩ | ⟨h', -⟩⟩
        · exact hgo h'
        · exact h' h.credited
  | rolledBack e y created hno wallet last shares =>
    obtain ⟨order', hlast, htotal, hstatus⟩ := last
    rw [horders] at hlast
    have hunexecuted : y.orderStatus s.orders.length ≠ some .executed := by
      rw [orderStatus_last hlast]
      exact fun h => hstatus (Option.some.inj h)
    rcases wallet with ⟨hcredited, same⟩ | ⟨hcredited, made⟩
    · have hbalance : y.wallet.balance order.memberId = s.wallet.balance order.memberId := by
        rw [same, hwallet]
      split at shares <;> rename_i happ
      · rw [hshares, neg_add_cancel_right] at shares
        exact iff_of_true (allOrNothing_of_unchanged one_ne_zero hdelta hbalance shares hunexecuted)
          ⟨created, .inr ⟨hcredited, happ⟩⟩
      · rw [add_zero, hshares] at shares
        apply iff_of_false (not_allOrNothing_of_shares_only one_ne_zero hbalance shares)
        rintro ⟨-, ⟨h', -⟩ | ⟨-, h'⟩⟩
        · exact hno h'
        · exact happ h'
    · rw [hwallet, horders] at made
      refine iff_of_false (not_allOrNothing_of_unexecuted (movedUnder_of_credit made
        (by rw [hlast, List.getElem?_concat_length]) htotal) hunexecuted) ?_
      rintro ⟨-, ⟨h', -⟩ | ⟨h', -⟩⟩
      · exact hno h'
      · exact h' hcredited

/-- The failures under which a sell leaves all or nothing: an admitted sell that
takes shares has that call answered, and settles from there. -/
def SellSettles (remote : Wallet.Faults) (faults : Faults) (uuid : ℕ) (memberId : String)
    (dto : PlaceOrderDto) (s : Store) : Prop :=
  ∀ trader stock position,
    Admitted faults uuid s memberId dto.stockId (fun _ => True) trader stock →
    s.position memberId dto.stockId = some position → dto.shares ≤ position.shares →
    (faults (takeShares memberId dto)).applies → faults (takeShares memberId dto) = .done ∧
      let left := { position with shares := position.shares - dto.shares }
      SaleSettles remote faults left (sellOrder memberId dto stock left) s

/-- A sell under the lock is refused, or has its shares taken and goes on, or
fails as it takes them. -/
theorem run_sellLocked (remote : Wallet.Faults) (faults : Faults) (memberId : String)
    (dto : PlaceOrderDto) (trader : Trader) (stock : Stock) (s : Store) :
    let out := (sellLocked memberId dto trader stock).run (exec remote) faults s
    ((¬∃ position, s.position memberId dto.stockId = some position ∧ dto.shares ≤ position.shares) ∧
      ∃ e, out = (.error e, s)) ∨
    ∃ position, s.position memberId dto.stockId = some position ∧ dto.shares ≤ position.shares ∧
      let left := { position with shares := position.shares - dto.shares }
      let x := s.setPosition memberId dto.stockId left
      (faults (takeShares memberId dto) = .done ∧
        out = (sellDecremented memberId dto trader stock left).run (exec remote) faults x) ∨
      faults (takeShares memberId dto) ≠ .done ∧
        ∃ e, out = (.error e, if (faults (takeShares memberId dto)).applies then x else s) := by
  intro out
  by_cases htake : ∃ position, s.position memberId dto.stockId = some position ∧
      dto.shares ≤ position.shares
  · obtain ⟨position, hposition, hle⟩ := htake
    have hexec := exec_incPosition remote hposition (some dto.shares) (by simpa using hle)
      (-dto.shares)
    refine .inr ⟨position, hposition, hle, ?_⟩
    by_cases hdone : faults (takeShares memberId dto) = .done
    · refine .inl ⟨hdone, ?_⟩
      simp only [out, sellLocked]
      rw [run_send_bind_done (exec remote) faults _ s hdone, hexec]
      rfl
    · obtain ⟨e, y, hrun, hy⟩ := run_send_bind_thrown (exec remote) faults _ s hdone
      rw [hexec] at hy
      exact .inr ⟨hdone, e, hrun.trans (by rw [hy]; rfl)⟩
  · have hexec : exec remote (takeShares memberId dto) s = (none, s) := by
      rcases hposition : s.position memberId dto.stockId with _ | position
      · simp [exec, hposition]
      · have hlt : ¬(dto.shares : ℤ) ≤ position.shares := fun h => htake ⟨position, hposition, h⟩
        simp [exec, hposition, hlt]
    refine .inl ⟨htake, ?_⟩
    by_cases hdone : faults (takeShares memberId dto) = .done
    · refine ⟨.badRequest "Insufficient shares or position not found", ?_⟩
      simp only [out, sellLocked]
      rw [run_send_bind_done (exec remote) faults _ s hdone, hexec]
      rfl
    · obtain ⟨e, y, hrun, hy⟩ := run_send_bind_thrown (exec remote) faults _ s hdone
      exact ⟨e, hrun.trans (by rw [hy, hexec, ite_self])⟩

theorem sellLocked_allOrNothing (remote : Wallet.Faults) (faults : Faults) (memberId : String)
    (dto : PlaceOrderDto) (trader : Trader) (stock : Stock)
    (hfresh : ¬s.wallet.HasKey s!"trade:credit:{s.orders.length}") :
    AllOrNothing s!"trade:credit:{s.orders.length}" 1 (-dto.shares) memberId dto.stockId s
      ((sellLocked memberId dto trader stock).run (exec remote) faults s).2 ↔
    ∀ position, s.position memberId dto.stockId = some position → dto.shares ≤ position.shares →
      (faults (takeShares memberId dto)).applies → faults (takeShares memberId dto) = .done ∧
        let left := { position with shares := position.shares - dto.shares }
        SaleSettles remote faults left (sellOrder memberId dto stock left) s := by
  have hdelta : -(dto.shares : ℤ) ≠ 0 := by have := dto.shares_pos; omega
  have hself := allOrNothing_self s!"trade:credit:{s.orders.length}" one_ne_zero hdelta memberId
    dto.stockId s
  rcases run_sellLocked remote faults memberId dto trader stock s with
    ⟨hno, e, hrun⟩ | ⟨position, hposition, hle, hcase⟩
  · rw [hrun]
    exact iff_of_true hself fun position h hle => absurd ⟨position, h, hle⟩ hno
  have honly {P : Position → Prop} : (∀ position',
      s.position memberId dto.stockId = some position' → dto.shares ≤ position'.shares →
        P position') ↔ P position :=
    ⟨fun h => h position hposition hle, fun h position' h' _ =>
      (Option.some.inj (hposition.symm.trans h')) ▸ h⟩
  have hshares : (position.shares - dto.shares : ℤ) =
      s.shares memberId dto.stockId + -dto.shares := by
    rw [shares_eq hposition, sub_eq_add_neg]
  rw [honly]
  rcases hcase with ⟨hdone, hrun⟩ | ⟨hdone, e, hrun⟩ <;> rw [hrun]
  · have hend := run_sellDecremented remote faults dto
      (x := s.setPosition memberId dto.stockId
        { position with shares := position.shares - dto.shares })
      hfresh (position_setPosition ..) trader stock
    apply (hend.allOrNothing_iff (s := s) dto.shares_pos hshares rfl rfl).trans
    exact ⟨fun h _ => ⟨hdone, h⟩, fun h => (h (by rw [hdone]; rfl)).2⟩
  · split <;> rename_i happ
    · refine iff_of_false (not_allOrNothing_of_shares_only one_ne_zero rfl ?_)
        fun h => hdone (h happ).1
      rw [shares_setPosition, hshares]
    · exact iff_of_true hself fun h => absurd h happ

theorem run_sell (remote : Wallet.Faults) (faults : Faults) (uuid : ℕ) (memberId : String)
    (dto : PlaceOrderDto) (s : Store) :
    OrderRun remote faults uuid memberId dto.stockId (fun _ => True) (sellLocked memberId dto) s
      ((sell uuid memberId dto).run (exec remote) faults s) :=
  run_order uuid memberId remote faults s (findById_passive dto.stockId)
    (by simpa only [and_true] using run_findById remote faults dto.stockId)
    (sellLocked memberId dto)

/-- A sell leaves all or nothing exactly where it settles. -/
theorem sell_allOrNothing_iff (remote : Wallet.Faults) (faults : Faults) (uuid : ℕ)
    (memberId : String) (dto : PlaceOrderDto) (s : Store)
    (hfresh : ¬s.wallet.HasKey s!"trade:credit:{s.orders.length}") :
    AllOrNothing s!"trade:credit:{s.orders.length}" 1 (-dto.shares) memberId dto.stockId s
      ((sell uuid memberId dto).run (exec remote) faults s).2 ↔
    SellSettles remote faults uuid memberId dto s := by
  have hdelta : -(dto.shares : ℤ) ≠ 0 := by have := dto.shares_pos; omega
  rcases run_sell remote faults uuid memberId dto s with
    ⟨hno, haccounts, -⟩ | ⟨trader, stock, x, hadm, hx, haccounts, -⟩
  · rw [allOrNothing_congr rfl haccounts]
    exact iff_of_true (allOrNothing_self _ one_ne_zero hdelta _ _ _)
      fun trader stock _ hadm => absurd ⟨trader, stock, hadm⟩ hno
  · obtain ⟨hp, ho, hw⟩ := accounts_eq_iff.mp hx
    have hbody := sellLocked_allOrNothing remote faults memberId dto trader stock (s := x)
      (by rw [ho, hw]; exact hfresh)
    simp only [saleSettles_congr ho hw, Store.position, hp, ho] at hbody
    rw [allOrNothing_congr hx.symm haccounts]
    refine hbody.trans ⟨?_, fun h position =>
      h trader stock position hadm⟩
    intro h trader' stock' position hadm'
    obtain ⟨-, rfl⟩ := hadm.unique hadm'
    exact h position

/-- With every call answered, five of the ten shares are sold. -/
theorem sell_allOrNothing_answered :
    AllOrNothing "trade:credit:0" 1 (-5) "m" "s" sampleStore
      ((sell 0 "m" fiveShares).run (exec Wallet.answered) answered sampleStore).2 := by
  refine (sell_allOrNothing_iff Wallet.answered answered 0 "m" fiveShares sampleStore
    (by decide)).mpr ?_
  intro trader stock position hadm hposition _ _
  obtain rfl : samplePosition = position := Option.some.inj hposition
  obtain rfl : sampleStock = stock := Option.some.inj hadm.seen
  have hconfirmed : CreditConfirmed Wallet.answered answered
      (sellOrder "m" fiveShares sampleStock samplePosition) sampleStore :=
    ⟨rfl, 5 * 10, by norm_num, sampleWallet, rfl,
      { found := rfl, covers := trivial, read := rfl, recorded := rfl, moved := rfl, counted := rfl,
        locked := rfl, free := rfl, answered := rfl, completed := rfl, released := rfl }⟩
  exact ⟨rfl, rfl, .inl ⟨hconfirmed, fun h => (by cases h), rfl⟩⟩

/-- The credit is carried out, but its response never arrives. -/
def creditLost : Faults
  | .postCredit _ _ _ => .lost (.axios none none)
  | _ => .done

/-- The wallet is credited, the shares come back, and the order is REJECTED. -/
theorem sell_credited_and_rolled_back :
    let s' := ((sell 0 "m" fiveShares).run (exec Wallet.answered) creditLost sampleStore).2
    (s'.wallet.balance "m" = 150 ∧ s'.shares "m" "s" = 10 ∧
      s'.orderStatus 0 = some .rejected) ∧
    ¬AllOrNothing "trade:credit:0" 1 (-5) "m" "s" sampleStore s' := by
  intro s'
  have hend : s'.wallet.balance "m" = 150 ∧ s'.shares "m" "s" = 10 ∧
      s'.orderStatus 0 = some .rejected := by decide +kernel
  refine ⟨hend, not_allOrNothing_of_balance ?_ ?_⟩
  · rw [hend.1]
    decide +kernel
  · rw [show sampleStore.orders.length = 0 from rfl, hend.2.2]
    simp

end Sell
end StockMarket.Trading
