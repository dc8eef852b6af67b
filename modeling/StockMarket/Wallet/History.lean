import StockMarket.Ties
import StockMarket.Wallet.Store

/-! # Transaction history and the withdrawal queue, page by page

Both lists are sorted by `createdAt` alone, and each page is a query of its own:
where transactions were created in the same millisecond, the database may sort
them differently for every page.
-/

namespace StockMarket.Wallet
open Ties

/-- A transaction with its `_id`. -/
abbrev TransactionDoc := Transaction × ℕ

/-- `sort({ createdAt: -1 })` -/
abbrev newestFirst (a b : TransactionDoc) : Prop := b.1.createdAt ≤ a.1.createdAt

/-- `sort({ createdAt: 1 })` -/
abbrev oldestFirst (a b : TransactionDoc) : Prop := a.1.createdAt ≤ b.1.createdAt

instance : Std.Total newestFirst := ⟨fun a b => le_total b.1.createdAt a.1.createdAt⟩
instance : Std.Total oldestFirst := ⟨fun a b => le_total a.1.createdAt b.1.createdAt⟩
instance : IsTrans TransactionDoc newestFirst := ⟨fun _ _ _ hab hbc => hbc.trans hab⟩
instance : IsTrans TransactionDoc oldestFirst := ⟨fun _ _ _ hab hbc => hab.trans hbc⟩

structure TransactionHistoryQuery where
  userId : String
  type : Option TransactionType
  fromDate : Option Time
  toDate : Option Time
  page : ℕ
  limit : ℕ
  deriving DecidableEq

structure PaginationMeta where
  total : ℕ
  page : ℕ
  limit : ℕ
  totalPages : ℕ
  hasNextPage : Bool
  hasPrevPage : Bool
  deriving DecidableEq

structure PaginatedResult where
  items : List TransactionDoc
  pagination : PaginationMeta
  deriving DecidableEq

def found (filter : Transaction → Bool) (transactions : List Transaction) : List TransactionDoc :=
  transactions.zipIdx.filter fun doc => filter doc.1

namespace TransactionService

/-- The two queries behind a page: `find(filter).sort(…).skip(…).limit(limit)` with one of
the orders the sort key allows, and `countDocuments(filter)`. -/
def paginate {before : TransactionDoc → TransactionDoc → Prop} (sort : Ties.Sorting before)
    (filter : Transaction → Bool) (transactions : List Transaction) (page limit : ℕ) :
    PaginatedResult :=
  let skip := (page - 1) * limit
  let total := (found filter transactions).length
  -- `Math.ceil(total / limit)`
  let totalPages := (total + limit - 1) / limit
  { items := ((sort.order (found filter transactions)).drop skip).take limit
    pagination :=
      { total := total
        page := page
        limit := limit
        totalPages := totalPages
        hasNextPage := page < totalPages
        hasPrevPage := 1 < page } }

def historyFilter (query : TransactionHistoryQuery) (transaction : Transaction) : Bool :=
  transaction.userId = query.userId ∧
    query.type.all (transaction.type = ·) ∧
    query.fromDate.all (· ≤ transaction.createdAt) ∧
    query.toDate.all (transaction.createdAt ≤ ·)

def findHistory (sort : Ties.Sorting newestFirst) (transactions : List Transaction)
    (query : TransactionHistoryQuery) : PaginatedResult :=
  paginate sort (historyFilter query) transactions query.page query.limit

def pendingFilter (transaction : Transaction) : Bool :=
  transaction.type = .withdrawal ∧ transaction.status = .pending

def findPendingWithdrawals (sort : Ties.Sorting oldestFirst) (transactions : List Transaction)
    (page limit : ℕ) : PaginatedResult :=
  paginate sort pendingFilter transactions page limit

end TransactionService

/-- Pages 1 to `totalPages` hold every document once, and exactly the last has no next one. -/
def Complete (fetch : ℕ → PaginatedResult) (docs : List TransactionDoc) : Prop :=
  let totalPages := (fetch 1).pagination.totalPages
  ((List.range' 1 totalPages).flatMap fun page => (fetch page).items).Perm docs ∧
    ∀ page ∈ List.range' 1 totalPages,
      (fetch page).pagination.hasNextPage ↔ page ≠ totalPages

instance (fetch : ℕ → PaginatedResult) (docs : List TransactionDoc) :
    Decidable (Complete fetch docs) :=
  inferInstanceAs (Decidable (_ ∧ _))

theorem nodup_found (filter : Transaction → Bool) (transactions : List Transaction) :
    (found filter transactions).Nodup := by
  refine List.Nodup.filter _ (List.Nodup.of_map Prod.snd ?_)
  rw [List.zipIdx_map_snd]
  exact List.nodup_range'

/-- Whatever the sort key, all pages together are complete exactly where no boundary
falls between documents that tie. -/
theorem complete_paginate_iff {before : TransactionDoc → TransactionDoc → Prop}
    [DecidableRel before] [Std.Total before] [IsTrans TransactionDoc before]
    (filter : Transaction → Bool) (transactions : List Transaction) {limit : ℕ}
    (hlimit : 1 ≤ limit) :
    (∀ sorts : ℕ → Ties.Sorting before,
      Complete (fun page => TransactionService.paginate (sorts page) filter transactions page limit)
        (found filter transactions)) ↔
      ∀ doc ∈ found filter transactions,
        OnOnePage before limit (found filter transactions) doc := by
  set docs := found filter transactions with hdocs
  set totalPages := (docs.length + limit - 1) / limit with htotal
  have hpages : docs.length ≤ totalPages * limit := by
    have hdiv := Nat.div_add_mod (docs.length + limit - 1) limit
    have hmod := Nat.mod_lt (docs.length + limit - 1) hlimit
    rw [← htotal, Nat.mul_comm] at hdiv
    omega
  rw [← perm_pages_iff hlimit (nodup_found filter transactions) hpages]
  have hflat (sorts : ℕ → Ties.Sorting before) :
      ((List.range' 1 totalPages).flatMap fun page =>
        (TransactionService.paginate (sorts page) filter transactions page limit).items) =
      (List.range totalPages).flatMap fun n => page limit n ((sorts (n + 1)).order docs) := by
    rw [List.range'_eq_map_range, List.flatMap_map]
    refine List.flatMap_congr ?_
    intro n _
    rw [Nat.add_comm]
    rfl
  constructor
  · intro h sorts
    have := (h fun page => sorts (page - 1)).1
    exact (hflat fun page => sorts (page - 1)) ▸ this
  · intro h sorts
    constructor
    · exact (hflat sorts).symm ▸ h fun n => sorts (n + 1)
    · intro page hpage
      have hle : page ≤ totalPages := by
        have hlt : page < 1 + totalPages := (List.mem_range'_1.mp hpage).2
        omega
      have hnext : (TransactionService.paginate (sorts page) filter transactions page
          limit).pagination.hasNextPage = decide (page < totalPages) := rfl
      rw [hnext, decide_eq_true_iff]
      exact ⟨fun hlt => hlt.ne, fun hne => lt_of_le_of_ne hle hne⟩

/-- Reading all pages of a history, or of the queue, gives every transaction once exactly
where those created at the same time are on one page in every order. -/
theorem complete_iff_ties_on_one_page (transactions : List Transaction)
    (query : TransactionHistoryQuery) (limit : ℕ) (hlimit : 1 ≤ limit ∧ limit ≤ 100) :
    ((∀ sorts : ℕ → Ties.Sorting newestFirst,
      Complete
        (fun page => TransactionService.findHistory (sorts page) transactions
          { query with page := page, limit := limit })
        (found (TransactionService.historyFilter query) transactions)) ↔
      ∀ doc ∈ found (TransactionService.historyFilter query) transactions,
        OnOnePage newestFirst limit
          (found (TransactionService.historyFilter query) transactions) doc) ∧
    ((∀ sorts : ℕ → Ties.Sorting oldestFirst,
      Complete
        (fun page => TransactionService.findPendingWithdrawals (sorts page) transactions page limit)
        (found TransactionService.pendingFilter transactions)) ↔
      ∀ doc ∈ found TransactionService.pendingFilter transactions,
        OnOnePage oldestFirst limit
          (found TransactionService.pendingFilter transactions) doc) := by
  constructor
  · exact complete_paginate_iff (TransactionService.historyFilter query) transactions hlimit.1
  · exact complete_paginate_iff TransactionService.pendingFilter transactions hlimit.1

section Tie

/-- A withdrawal request, as `requestWithdrawal` records it. -/
def requested (key : String) (amount : ℚ) (createdAt : Time) : Transaction where
  userId := "u"
  type := .withdrawal
  status := .pending
  amount := amount
  balanceBefore := 100
  balanceAfter := none
  currency := "USD"
  idempotencyKey := key
  stripePaymentIntentId := none
  stripeSessionId := none
  adjustmentNote := none
  processedByCmsUserId := none
  rejectionReason := none
  processedAt := none
  createdAt := createdAt

/-- Two requests of one user, recorded in the same millisecond. -/
def twoAtOnce : List Transaction := [requested "a" 10 5, requested "b" 20 5]

/-- The first page is sorted stably, the second the other way round. -/
def turnedRound (before : TransactionDoc → TransactionDoc → Prop) [DecidableRel before]
    [Std.Total before] [IsTrans TransactionDoc before] (page : ℕ) : Ties.Sorting before :=
  if page = 1 then .stable before else .reversed before

/-- With one transaction on a page, both pages hold the first request and none the second,
in the history and in the queue. -/
theorem request_on_both_pages :
    (¬∀ sorts : ℕ → Ties.Sorting newestFirst,
      Complete (fun page => TransactionService.findHistory (sorts page) twoAtOnce
        ⟨"u", none, none, none, page, 1⟩) twoAtOnce.zipIdx) ∧
    ¬∀ sorts : ℕ → Ties.Sorting oldestFirst,
      Complete (fun page => TransactionService.findPendingWithdrawals (sorts page) twoAtOnce page 1)
        twoAtOnce.zipIdx := by
  constructor
  · intro h
    exact absurd (h (turnedRound newestFirst)) (by decide +kernel)
  · intro h
    exact absurd (h (turnedRound oldestFirst)) (by decide +kernel)

/-- Two requests at once fit on a page of two. -/
theorem complete_iff_ties_on_one_page_two :
    ((∀ sorts : ℕ → Ties.Sorting newestFirst,
      Complete (fun page => TransactionService.findHistory (sorts page) twoAtOnce
        ⟨"u", none, none, none, page, 2⟩) twoAtOnce.zipIdx) ∧
    ∀ sorts : ℕ → Ties.Sorting oldestFirst,
      Complete (fun page => TransactionService.findPendingWithdrawals (sorts page) twoAtOnce page 2)
        twoAtOnce.zipIdx) := by
  have h := complete_iff_ties_on_one_page twoAtOnce ⟨"u", none, none, none, 1, 1⟩ 2 (by decide)
  exact ⟨h.1.mpr (by decide +kernel), h.2.mpr (by decide +kernel)⟩

end Tie

end StockMarket.Wallet
