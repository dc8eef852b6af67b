import StockMarket.Trading.Buy
import StockMarket.Trading.Sell
import StockMarket.Trading.CostBasis

/-! # A member's trades in one stock

Successful buys and sells of one member and one stock, each finished before the
next. Between two of them anything may happen that leaves the position alone. The
document keeps the books of `CostBasis`, and so its averages, profits and losses
are those of the average-cost method exactly where the trades allow it.
-/

namespace StockMarket.Trading
open Interleaving Prog OrderService AverageCost CostBasis

section Success
variable {remote : Wallet.Faults} {faults : Faults} {uuid : ℕ} {memberId : String}
  {dto : PlaceOrderDto} {s : Store} {order : Order}

/-- A total that the wallet accepts has a price, and the price is positive. -/
theorem price_of_made {transfer : Wallet.InternalMoveDto → Wallet.Transfer}
    {userId orderId : String} {price : Number} {shares : ℕ} {w w' : Wallet.Store}
    (h : MadeFor transfer userId (price.map fun p : ℚ => shares * p) orderId w w') :
    ∃ p, price = some p ∧ 0 < p := by
  obtain ⟨a, ha, hprice, -⟩ := h
  cases price with
  | none => cases hprice
  | some p =>
    cases hprice
    exact ⟨p, rfl, pos_of_mul_pos_right ha (Nat.cast_nonneg shares)⟩

theorem buy_success (hfresh : ¬s.wallet.HasKey s!"trade:deduct:{s.orders.length}")
    (hok : ((buy uuid memberId dto).run (exec remote) faults s).1 = .ok (some order)) :
    ∃ (stock : Stock) (p : ℚ) (now : Time), stock.currentPrice.parseFloat = some p ∧ 0 < p ∧
      order = OrderUpdate.apply now (buyOrder memberId dto stock) .executed ∧
      ((buy uuid memberId dto).run (exec remote) faults s).2.position memberId dto.stockId =
        some (upserted (buyOrder memberId dto stock) (s.position memberId dto.stockId)) := by
  rcases run_buy remote faults uuid memberId dto s with
    ⟨-, -, e, herror⟩ | ⟨trader, stock, x, -, hx, haccounts, hbody⟩
  · cases hok.symm.trans herror
  obtain ⟨hp, ho, hw⟩ := accounts_eq_iff.mp hx
  have hpositions := (accounts_eq_iff.mp haccounts).1
  have hend := run_buyLocked remote faults memberId dto (x := x) (by rw [ho, hw]; exact hfresh)
    trader stock
  replace hbody := hbody _ hok
  generalize (buyLocked memberId dto trader stock).run (exec remote) faults x = out at *
  cases hend with
  | unwritten e y => cases hbody
  | rejected e y => cases hbody
  | confirmed r y order' created h made last total finished returned =>
    obtain ⟨hgo, now, horder⟩ := returned _ hbody
    obtain ⟨p, hprice, hpos⟩ := price_of_made made
    rcases finished with ⟨-, -, hposition⟩ | ⟨hno, -⟩
    · refine ⟨stock, p, now, hprice, hpos, Option.some.inj horder, ?_⟩
      simp only [Store.position, hp] at hposition
      rw [Store.position, hpositions]
      exact hposition
    · exact absurd hgo hno

theorem sell_success (hfresh : ¬s.wallet.HasKey s!"trade:credit:{s.orders.length}")
    (hok : ((sell uuid memberId dto).run (exec remote) faults s).1 = .ok (some order)) :
    ∃ (stock : Stock) (p : ℚ) (now : Time) (position : Position),
      stock.currentPrice.parseFloat = some p ∧ 0 < p ∧
      s.position memberId dto.stockId = some position ∧ dto.shares ≤ position.shares ∧
      let left := { position with shares := position.shares - dto.shares }
      order = OrderUpdate.apply now (sellOrder memberId dto stock left) .executed ∧
      ((sell uuid memberId dto).run (exec remote) faults s).2.position memberId dto.stockId =
        if left.shares = 0 then none else some left := by
  rcases run_sell remote faults uuid memberId dto s with
    ⟨-, -, e, herror⟩ | ⟨trader, stock, x, -, hx, haccounts, hbody⟩
  · cases hok.symm.trans herror
  obtain ⟨hp, ho, hw⟩ := accounts_eq_iff.mp hx
  have hpositions := (accounts_eq_iff.mp haccounts).1
  have hfresh' : ¬x.wallet.HasKey s!"trade:credit:{x.orders.length}" := by
    rw [ho, hw]
    exact hfresh
  replace hbody := hbody _ hok
  rcases run_sellLocked remote faults memberId dto trader stock x with
    ⟨-, e, hrun⟩ | ⟨position, hposition, hle, ⟨-, hrun⟩ | ⟨-, e, hrun⟩⟩ <;>
    rw [hrun] at hbody hpositions
  · cases hbody
  · have hend := run_sellDecremented remote faults dto
      (x := x.setPosition memberId dto.stockId
        { position with shares := position.shares - dto.shares })
      hfresh' (position_setPosition ..) trader stock
    generalize Prog.run _ _ (sellDecremented memberId dto trader stock _) _ = out at *
    cases hend with
    | unwritten e y => cases hbody
    | rolledBack e y => cases hbody
    | confirmed r y order' created h made last total finished returned =>
      obtain ⟨horder, hleft⟩ := returned _ hbody
      obtain ⟨p, hprice, hpos⟩ := price_of_made made
      refine ⟨stock, p, _, position, hprice, hpos, ?_, hle, Option.some.inj horder, ?_⟩
      · simpa only [Store.position, hp] using hposition
      · rw [Store.position, hpositions]
        exact hleft
  · cases hbody

end Success

def Order.trade (order : Order) : Trade ℚ :=
  match order.type with
  | .buy => .buy order.shares (order.pricePerShare.getD 0)
  | .sell => .sell order.shares (order.pricePerShare.getD 0)

/-- An order that was executed, and the position it has left. -/
structure Stage where
  order : Order
  position : Option Position

/-- The position after the last of some stages. -/
def left (stages : List Stage) : Option Position := stages.head?.bind Stage.position

def trades (stages : List Stage) : List (Trade ℚ) := stages.map fun stage => stage.order.trade

/-- The successful buys and sells of one member and one stock, the latest first.
Each starts in any store that has the position the last one left, under any
failures that it survives, and with an order id that is new to the wallet. -/
inductive Session (memberId stockId : String) : List Stage → Prop
  | nil : Session memberId stockId []
  | buy {stages : List Stage} {remote : Wallet.Faults} {faults : Faults} {uuid : ℕ}
      {dto : PlaceOrderDto} {s : Store} {order : Order} (earlier : Session memberId stockId stages)
      (stock : dto.stockId = stockId) (position : s.position memberId stockId = left stages)
      (fresh : ¬s.wallet.HasKey s!"trade:deduct:{s.orders.length}")
      (ok : ((buy uuid memberId dto).run (exec remote) faults s).1 = .ok (some order)) :
      Session memberId stockId (⟨order,
        ((buy uuid memberId dto).run (exec remote) faults s).2.position memberId stockId⟩ :: stages)
  | sell {stages : List Stage} {remote : Wallet.Faults} {faults : Faults} {uuid : ℕ}
      {dto : PlaceOrderDto} {s : Store} {order : Order} (earlier : Session memberId stockId stages)
      (stock : dto.stockId = stockId) (position : s.position memberId stockId = left stages)
      (fresh : ¬s.wallet.HasKey s!"trade:credit:{s.orders.length}")
      (ok : ((sell uuid memberId dto).run (exec remote) faults s).1 = .ok (some order)) :
      Session memberId stockId (⟨order, ((sell uuid memberId dto).run (exec remote) faults
        s).2.position memberId stockId⟩ :: stages)

/-- The position is where the book is open, with its numbers. -/
def Records : Option Position → Option (Book ℚ) → Prop
  | none, none => True
  | some position, some b => position.shares = b.shares ∧ position.avgBuyPrice = some b.average ∧
      position.totalInvested = some b.invested
  | _, _ => False

/-- What a stage enters, given the trades before it. -/
structure Booked (stage : Stage) (earlier : List (Trade ℚ)) : Prop where
  executed : stage.order.status = .executed
  total : stage.order.totalAmount =
    stage.order.pricePerShare.map fun price : ℚ => stage.order.shares * price
  priced : stage.order.pricePerShare.isSome
  profitLoss : stage.order.type = .sell →
    stage.order.profitLoss = some (some (CostBasis.profit (book earlier) stage.order.trade))
  records : Records stage.position (book (stage.order.trade :: earlier))

def AllBooked : List Stage → Prop
  | [] => True
  | stage :: stages => Booked stage (trades stages) ∧ AllBooked stages

section Stages
variable {now : Time} {memberId : String} {dto : PlaceOrderDto} {stock : Stock} {p : ℚ}

theorem trade_buyOrder (hprice : stock.currentPrice.parseFloat = some p) :
    (OrderUpdate.apply now (buyOrder memberId dto stock) .executed).trade = .buy dto.shares p := by
  simp [Order.trade, OrderUpdate.apply, buyOrder, hprice]

theorem trade_sellOrder {left : Position} (hprice : stock.currentPrice.parseFloat = some p) :
    (OrderUpdate.apply now (sellOrder memberId dto stock left) .executed).trade =
      .sell dto.shares p := by
  simp [Order.trade, OrderUpdate.apply, sellOrder, hprice]

theorem booked_buy (now : Time) (memberId : String) (dto : PlaceOrderDto)
    (hprice : stock.currentPrice.parseFloat = some p) {position : Option Position}
    {earlier : List (Trade ℚ)} (hrecords : Records position (book earlier)) :
    Booked ⟨OrderUpdate.apply now (buyOrder memberId dto stock) .executed,
      some (upserted (buyOrder memberId dto stock) position)⟩ earlier := by
  refine ⟨rfl, rfl, ?_, fun h => (by cases h), ?_⟩
  · simp [OrderUpdate.apply, buyOrder, hprice]
  · rw [trade_buyOrder hprice, book]
    generalize book earlier = b at hrecords
    rcases position with _ | existing <;> rcases b with _ | b
    · exact ⟨rfl, hprice, by simp [upserted, buyOrder, hprice]⟩
    · exact (hrecords : False).elim
    · exact (hrecords : False).elim
    · obtain ⟨hshares, -, hinvested⟩ := hrecords
      refine ⟨?_, ?_, ?_⟩ <;> simp [upserted, buyOrder, hprice, hshares, hinvested]

theorem booked_sell (now : Time) (memberId : String) (dto : PlaceOrderDto)
    (hprice : stock.currentPrice.parseFloat = some p) {position : Position}
    (hle : dto.shares ≤ position.shares) {earlier : List (Trade ℚ)}
    (hrecords : Records (some position) (book earlier)) :
    let left := { position with shares := position.shares - dto.shares }
    Booked ⟨OrderUpdate.apply now (sellOrder memberId dto stock left) .executed,
      if left.shares = 0 then none else some left⟩ earlier := by
  intro left
  rcases hbook : book earlier with _ | b <;> rw [hbook] at hrecords
  · exact (hrecords : False).elim
  obtain ⟨hshares, haverage, hinvested⟩ := hrecords
  refine ⟨rfl, rfl, ?_, ?_, ?_⟩
  · simp [OrderUpdate.apply, sellOrder, hprice]
  · intro _
    rw [trade_sellOrder hprice, hbook]
    simp [OrderUpdate.apply, sellOrder, hprice, left, haverage, CostBasis.profit]
  · rw [trade_sellOrder hprice, book, hbook, Book.after]
    have hempty : left.shares = 0 ↔ b.shares = dto.shares := by
      simp only [left]
      omega
    by_cases hall : b.shares = dto.shares
    · rw [if_pos (hempty.mpr hall), if_pos hall]
      trivial
    · rw [if_neg (hempty.not.mpr hall), if_neg hall]
      refine ⟨?_, haverage, hinvested⟩
      simp only [left]
      omega

end Stages

/-- Every stage of a session enters its trade, every trade is one the method
knows, and the last position is where the book stands. -/
theorem Session.booked {memberId stockId : String} {stages : List Stage}
    (h : Session memberId stockId stages) :
    Valid (trades stages) ∧ Records (left stages) (book (trades stages)) ∧ AllBooked stages := by
  induction h with
  | nil => exact ⟨trivial, trivial, trivial⟩
  | @buy stages remote faults uuid dto s order earlier stock position fresh ok ih =>
    subst stock
    obtain ⟨hvalid, hrecords, hall⟩ := ih
    obtain ⟨stock, p, now, hprice, hpos, rfl, hafter⟩ := buy_success fresh ok
    rw [hafter, position]
    have hbooked := booked_buy now memberId dto hprice hrecords
    refine ⟨?_, hbooked.records, hbooked, hall⟩
    rw [trades, List.map_cons, trade_buyOrder hprice]
    exact ⟨dto.shares_pos, hpos, hvalid⟩
  | @sell stages remote faults uuid dto s order earlier stock position fresh ok ih =>
    subst stock
    obtain ⟨hvalid, hrecords, hall⟩ := ih
    obtain ⟨stock, p, now, held, hprice, hpos, hheld, hle, rfl, hafter⟩ := sell_success fresh ok
    rw [← position, hheld] at hrecords
    have hbooked := booked_sell now memberId dto hprice hle hrecords
    rw [hafter]
    refine ⟨?_, hbooked.records, hbooked, hall⟩
    rw [trades, List.map_cons, trade_sellOrder hprice]
    refine ⟨dto.shares_pos, hpos, ?_, hvalid⟩
    have hfits := book_fits hvalid
    rcases hbook : book (trades stages) with _ | b <;> rw [hbook] at hrecords hfits
    · exact (hrecords : False).elim
    · have hheld := hfits.1
      have hshares := hrecords.1
      rw [trades] at hheld
      omega

/-- The stored average and the recorded profit or loss are those of the
average-cost method, and the average lies between the lowest and the highest
price paid since the position was opened. -/
structure Agrees (stage : Stage) (earlier : List (Trade ℚ)) : Prop where
  average : ∀ position ∈ stage.position,
    position.avgBuyPrice = some (holding (stage.order.trade :: earlier)).average
  profitLoss : stage.order.type = .sell →
    stage.order.profitLoss = some (some ((holding earlier).profit stage.order.trade))
  between : ∀ position ∈ stage.position, ∀ a ∈ position.avgBuyPrice,
    (∃ p ∈ paid (stage.order.trade :: earlier), p ≤ a) ∧
      ∃ p ∈ paid (stage.order.trade :: earlier), a ≤ p

def AllAgree : List Stage → Prop
  | [] => True
  | stage :: stages => Agrees stage (trades stages) ∧ AllAgree stages

theorem Records.book {position : Position} {b : Option (Book ℚ)} (h : Records (some position) b) :
    ∃ b' ∈ b, position.avgBuyPrice = some b'.average := by
  rcases b with _ | b
  · exact (h : False).elim
  · exact ⟨b, rfl, h.2.1⟩

theorem Booked.agrees {stage : Stage} {earlier : List (Trade ℚ)} (h : Booked stage earlier)
    (hv : Valid (stage.order.trade :: earlier)) (hclean : Clean (stage.order.trade :: earlier))
    (hbefore : Clean earlier) : Agrees stage earlier := by
  have haverage (position : Position) (hposition : position ∈ stage.position) :
      position.avgBuyPrice = some (holding (stage.order.trade :: earlier)).average ∧
        0 < (holding (stage.order.trade :: earlier)).shares := by
    have hrecords := h.records
    rw [hposition] at hrecords
    obtain ⟨b, hb, ha⟩ := hrecords.book
    have hfits := book_fits hv
    rw [hb] at hfits
    exact ⟨ha.trans (congrArg some (average_eq hv hclean b hb)), hfits.2.1⟩
  refine ⟨fun position hposition => (haverage position hposition).1, ?_, ?_⟩
  · intro htype
    rw [h.profitLoss htype, profit_eq hv hbefore]
  · intro position hposition a ha
    obtain ⟨hstored, hopen⟩ := haverage position hposition
    obtain rfl := Option.some.inj (hstored.symm.trans ha)
    exact average_between hv hopen

theorem Booked.clean {stage : Stage} {earlier : List (Trade ℚ)} (h : Booked stage earlier)
    (hv : Valid (stage.order.trade :: earlier)) (hbefore : Clean earlier)
    (hagrees : Agrees stage earlier) : Clean (stage.order.trade :: earlier) := by
  rcases htrade : stage.order.trade with ⟨n, p⟩ | ⟨n, p⟩ <;> rw [htrade] at hv
  · refine ⟨?_, hbefore⟩
    intro hsold
    obtain ⟨b, hb, hne⟩ := average_ne hv hbefore hsold
    have hrecords := h.records
    rw [htrade, hb] at hrecords
    rcases hposition : stage.position with _ | position <;> rw [hposition] at hrecords
    · exact (hrecords : False).elim
    · have hstored := hagrees.average position hposition
      rw [htrade, hrecords.2.1] at hstored
      exact hne (Option.some.inj hstored)
  · exact hbefore

/-- The stored averages and the recorded profits and losses are those of the
average-cost method exactly where nothing is ever bought into a position that
was sold from since it was opened. -/
theorem agrees_iff_clean {memberId stockId : String} {stages : List Stage}
    (h : Session memberId stockId stages) : AllAgree stages ↔ Clean (trades stages) := by
  obtain ⟨hv, -, hall⟩ := h.booked
  clear h
  induction stages with
  | nil => exact Iff.rfl
  | cons stage stages ih =>
    obtain ⟨hbooked, hall⟩ := hall
    have ih := ih hv.tail hall
    constructor
    · rintro ⟨hagrees, hagree⟩
      exact hbooked.clean hv (ih.mp hagree) hagrees
    · intro hclean
      exact ⟨hbooked.agrees hv hclean hclean.tail, ih.mpr hclean.tail⟩

/-- The store once its cached stocks have expired. -/
def Store.expired (s : Store) : Store := { s with stockCache := fun _ => none }

/-- Ten shares are bought at 10, five are sold, and five are bought again. -/
def opened := (buy 0 "m" ⟨"s", 10, by decide⟩).run (exec Wallet.answered) answered unopened
def reduced := (sell 1 "m" fiveShares).run (exec Wallet.answered) answered opened.2.expired
def extended := (buy 2 "m" fiveShares).run (exec Wallet.answered) answered reduced.2.expired

def sampleOrder (type : OrderType) (shares : ℕ) (profitLoss : Option Number) : Order where
  memberId := "m"
  stockId := "s"
  ticker := "ACME"
  companyName := "Acme"
  type := type
  status := .executed
  shares := shares
  pricePerShare := some 10
  totalAmount := some (shares * 10)
  profitLoss := profitLoss
  rejectionReason := none
  executedAt := some 0

def openedStage : Stage := ⟨sampleOrder .buy 10 none, opened.2.position "m" "s"⟩
def reducedStage : Stage := ⟨sampleOrder .sell 5 (some (some 0)), reduced.2.position "m" "s"⟩
def extendedStage : Stage := ⟨sampleOrder .buy 5 none, extended.2.position "m" "s"⟩

theorem session_opened : Session "m" "s" [openedStage] :=
  .buy .nil rfl rfl (by decide) (by decide +kernel)

theorem session_reduced : Session "m" "s" [reducedStage, openedStage] :=
  .sell session_opened rfl rfl (by decide +kernel) (by decide +kernel)

theorem session_extended : Session "m" "s" [extendedStage, reducedStage, openedStage] :=
  .buy session_reduced rfl rfl (by decide +kernel) (by decide +kernel)

/-- A purchase and a sale of a part of it are booked right. -/
theorem agrees_reduced : AllAgree [reducedStage, openedStage] :=
  (agrees_iff_clean session_reduced).mpr (by decide)

/-- Every share has cost 10, and the position says 15. -/
theorem repurchase_disagrees : Session "m" "s" [extendedStage, reducedStage, openedStage] ∧
    extendedStage.position = some ⟨"ACME", "Acme", 10, some 15, some 150⟩ ∧
    (holding (trades [extendedStage, reducedStage, openedStage])).average = 10 ∧
    ¬AllAgree [extendedStage, reducedStage, openedStage] := by
  have hposition : extendedStage.position = some ⟨"ACME", "Acme", 10, some 15, some 150⟩ := by
    decide +kernel
  have haverage : (holding (trades [extendedStage, reducedStage, openedStage])).average = 10 := by
    decide +kernel
  refine ⟨session_extended, hposition, haverage, ?_⟩
  intro h
  have hstored : some 15 = some (10 : ℚ) := haverage ▸ h.1.average _ hposition
  exact absurd hstored (by decide +kernel)

/-- The sum of an amount over the orders of one type. -/
def sumOver (type : OrderType) (amount : Order → Number) (stages : List Stage) : ℚ :=
  (((stages.map Stage.order).filter (·.type = type)).map fun order => (amount order).getD 0).sum

/-- The profit or loss realised by the sells, and that of the shares still held
at a price for each. -/
def totalProfit (stages : List Stage) (currentPrice : ℚ) : ℚ :=
  sumOver .sell (fun order => order.profitLoss.getD none) stages +
    (left stages).elim 0 (PositionService.unrealizedPnL · currentPrice)

/-- What the sells have brought in and the remaining shares would, less what the
buys have cost. -/
def netWorth (stages : List Stage) (currentPrice : ℚ) : ℚ :=
  sumOver .sell Order.totalAmount stages +
    (left stages).elim 0 (fun position => position.shares * currentPrice) -
    sumOver .buy Order.totalAmount stages

theorem sumOver_cons (type : OrderType) (amount : Order → Number) (stage : Stage)
    (stages : List Stage) : sumOver type amount (stage :: stages) =
      (if stage.order.type = type then (amount stage.order).getD 0 else 0) +
        sumOver type amount stages := by
  by_cases h : stage.order.type = type <;> simp [sumOver, h]

/-- The sums over the orders are those over the trades. -/
theorem AllBooked.sums {stages : List Stage} (h : AllBooked stages) :
    sumOver .sell (fun order => order.profitLoss.getD none) stages = realised (trades stages) ∧
      sumOver .sell Order.totalAmount stages = proceeds (trades stages) ∧
      sumOver .buy Order.totalAmount stages = spent (trades stages) := by
  induction stages with
  | nil => exact ⟨rfl, rfl, rfl⟩
  | cons stage stages ih =>
    obtain ⟨hbooked, hall⟩ := h
    obtain ⟨hrealised, hproceeds, hspent⟩ := ih hall
    obtain ⟨p, hp⟩ := Option.isSome_iff_exists.mp hbooked.priced
    simp only [sumOver_cons, hrealised, hproceeds, hspent, hbooked.total]
    rw [show trades (stage :: stages) = stage.order.trade :: trades stages from rfl]
    cases htype : stage.order.type with
    | buy =>
      have htrade : stage.order.trade = .buy stage.order.shares p := by
        simp [Order.trade, htype, hp]
      simp [htrade, hp, realised, CostBasis.profit, proceeds, spent]
    | sell =>
      have htrade : stage.order.trade = .sell stage.order.shares p := by
        simp [Order.trade, htype, hp]
      rw [hbooked.profitLoss htype]
      simp [htrade, hp, realised, proceeds, spent]

/-- What the profits leave out of the account is the gap of the books. -/
theorem netWorth_sub_totalProfit {stages : List Stage} (h : AllBooked stages)
    (hrecords : Records (left stages) (book (trades stages))) (c : ℚ) :
    netWorth stages c - totalProfit stages c = gap (trades stages) := by
  obtain ⟨hrealised, hproceeds, hspent⟩ := h.sums
  rw [netWorth, totalProfit, hrealised, hproceeds, hspent, gap]
  rcases hleft : left stages with _ | position <;>
    rcases hbook : book (trades stages) with _ | b <;> rw [hleft, hbook] at hrecords
  · simp only [Option.elim, invested]
    ring
  · exact (hrecords : False).elim
  · exact (hrecords : False).elim
  · simp only [Option.elim, invested, PositionService.unrealizedPnL, hrecords.2.2, Option.getD_some]
    ring

/-- Realised and unrealised profit make up the account exactly where nothing was
bought into a position that was sold from, and the remaining position was not
sold from either. -/
theorem totalProfit_eq_iff {memberId stockId : String} {stages : List Stage}
    (h : Session memberId stockId stages) (c : ℚ) :
    totalProfit stages c = netWorth stages c ↔
      Clean (trades stages) ∧ ¬SoldFrom (trades stages) := by
  obtain ⟨hv, hrecords, hall⟩ := h.booked
  rw [← gap_eq_zero_iff hv, ← netWorth_sub_totalProfit hall hrecords c, sub_eq_zero]
  exact eq_comm

/-- While nothing is sold, the profit is what the shares have gained. -/
theorem totalProfit_opened : totalProfit [openedStage] 12 = netWorth [openedStage] 12 :=
  (totalProfit_eq_iff session_opened 12).mpr (by decide)

/-- Nothing is gained or lost at a price that never moves, and the profits come
to -50. -/
theorem totalProfit_reduced : Session "m" "s" [reducedStage, openedStage] ∧
    totalProfit [reducedStage, openedStage] 10 = -50 ∧ netWorth [reducedStage, openedStage] 10 = 0 ∧
    totalProfit [reducedStage, openedStage] 10 ≠ netWorth [reducedStage, openedStage] 10 := by
  have hprofit : totalProfit [reducedStage, openedStage] 10 = -50 := by decide +kernel
  have hworth : netWorth [reducedStage, openedStage] 10 = 0 := by decide +kernel
  refine ⟨session_reduced, hprofit, hworth, ?_⟩
  rw [hprofit, hworth]
  decide +kernel

end StockMarket.Trading
