import StockMarket.Keyset
import StockMarket.Trading.Store
import Mathlib.Data.String.Basic

/-! # A member's order history

`getHistory` hands out a member's orders from the newest down. It reads one
order more than a page holds, to learn whether there is a next page, and gives
the last id of the page as the cursor behind which that page starts.
-/

namespace StockMarket

/-- Ids compare like their bytes. -/
instance : LinearOrder ObjectId := LinearOrder.lift' ObjectId.text fun _ _ => ObjectId.ext_text

namespace Trading
open Keyset

def OrderType.text : OrderType → String
  | .buy => "buy"
  | .sell => "sell"

def OrderStatus.text : OrderStatus → String
  | .pending => "pending"
  | .executed => "executed"
  | .rejected => "rejected"

structure OrderDoc where
  id : ObjectId
  order : Order
  deriving DecidableEq

structure Orders where
  docs : List OrderDoc
  nodup : (docs.map OrderDoc.id).Nodup

/-- Only the limit has a rule of its own: it is at least 1. -/
structure OrderHistoryQueryDto where
  cursor : Option String
  limit : Option ℕ
  type : Option String
  status : Option String
  limit_pos : ∀ n ∈ limit, 1 ≤ n

/-- `query.limit ?? 20` -/
def OrderHistoryQueryDto.pageSize (query : OrderHistoryQueryDto) : ℕ := query.limit.getD 20

theorem OrderHistoryQueryDto.pageSize_pos (query : OrderHistoryQueryDto) : 0 < query.pageSize := by
  rw [pageSize]
  cases h : query.limit with
  | none => decide
  | some n => exact query.limit_pos n h

/-- The same query from another cursor. -/
def OrderHistoryQueryDto.after (query : OrderHistoryQueryDto) (cursor : Option String) :
    OrderHistoryQueryDto :=
  { query with cursor := cursor }

/-- A filter that is left out, or empty, selects every text. -/
def selects (filter : Option String) (text : String) : Bool :=
  (filter.filter (· ≠ "")).all (· = text)

/-- The filter of a history query, but for its cursor. -/
def OrderHistoryQueryDto.matches (memberId : ObjectId) (query : OrderHistoryQueryDto)
    (doc : OrderDoc) : Bool :=
  doc.order.memberId = memberId.text ∧ selects query.type doc.order.type.text ∧
    selects query.status doc.order.status.text

structure OrderHistory where
  data : List OrderDoc
  nextCursor : Option String
  deriving DecidableEq

/-- `orderModel.find(filter).sort({ _id: -1 }).limit(limit)` -/
def Orders.find (orders : Orders) (filter : OrderDoc → Bool) (limit : ℕ) : List OrderDoc :=
  (sorted OrderDoc.id (orders.docs.filter filter)).take limit

namespace OrderService

/-- What `new Types.ObjectId` throws. -/
def invalidId : Exception :=
  .driver "input must be a 24 character hex string, 12 byte Uint8Array, or an integer"

/-- The cursor's id, `none` without a cursor. -/
def cursorId (cursor : Option String) : Except Exception (Option ObjectId) :=
  match cursor.filter (· ≠ "") with
  | none => .ok none
  | some text =>
      match ObjectId.parse? text with
      | some id => .ok (some id)
      | none => .error invalidId

def getHistory (orders : Orders) (memberId : String) (query : OrderHistoryQueryDto) :
    Except Exception OrderHistory :=
  match ObjectId.parse? memberId with
  | none => .error invalidId
  | some memberId => do
      let cursor ← cursorId query.cursor
      let found := orders.find
        (fun doc => query.matches memberId doc && cursor.all (doc.id < ·)) (query.pageSize + 1)
      let hasMore := query.pageSize < found.length
      let data := if hasMore then found.take query.pageSize else found
      let nextCursor := if hasMore then data.getLast?.map (·.id.text) else none
      return { data := data, nextCursor := nextCursor }

/-- The calls of a client that follows `nextCursor` until it is `null`. The `call`-th
of them finds the collection `orders call`. -/
def followCursor (orders : ℕ → Orders) (memberId : String) (query : OrderHistoryQueryDto) :
    ℕ → ℕ → Option String → Option (List (List OrderDoc))
  | 0, _, _ => none
  | fuel + 1, call, cursor =>
      match getHistory (orders call) memberId (query.after cursor) with
      | .error _ => none
      | .ok page =>
          match page.nextCursor with
          | none => some [page.data]
          | some next =>
              (followCursor orders memberId query fuel (call + 1) (some next)).map (page.data :: ·)

end OrderService

/-- A collection that only gains orders from call to call, with larger ids than it has. -/
structure Growth where
  orders : ℕ → Orders
  inserted : ℕ → List OrderDoc
  docs_succ : ∀ n, (orders (n + 1)).docs = (orders n).docs ++ inserted n
  larger : ∀ n, ∀ old ∈ (orders n).docs, ∀ new ∈ inserted n, old.id < new.id

namespace Growth
variable (g : Growth)

theorem mem_of_first {doc : OrderDoc} (h : doc ∈ (g.orders 0).docs) (n : ℕ) :
    doc ∈ (g.orders n).docs := by
  induction n with
  | zero => exact h
  | succ n ih =>
    rw [g.docs_succ]
    exact List.mem_append_left _ ih

/-- An order is in the first collection, or larger than all in it. -/
theorem mem_cases {n : ℕ} {doc : OrderDoc} (h : doc ∈ (g.orders n).docs) :
    doc ∈ (g.orders 0).docs ∨ ∀ old ∈ (g.orders 0).docs, old.id < doc.id := by
  induction n with
  | zero => exact .inl h
  | succ n ih =>
    rw [g.docs_succ] at h
    rcases List.mem_append.mp h with h | h
    · exact ih h
    · exact .inr fun old hold => g.larger n old (g.mem_of_first hold n) doc h

end Growth

section Walk
variable (g : Growth) (member : ObjectId) (query : OrderHistoryQueryDto)

/-- The matching orders of the first collection, from the newest down. -/
def history : List OrderDoc :=
  sorted OrderDoc.id ((g.orders 0).docs.filter (query.matches member))

theorem nodup_ids_filter (orders : Orders) (filter : OrderDoc → Bool) :
    ((orders.docs.filter filter).map OrderDoc.id).Nodup :=
  orders.nodup.sublist (List.filter_sublist.map OrderDoc.id)

theorem descending_history : Descending OrderDoc.id (history g member query) :=
  descending_sorted (nodup_ids_filter _ _)

variable {g member query}

theorem mem_history {doc : OrderDoc} :
    doc ∈ history g member query ↔ doc ∈ (g.orders 0).docs ∧ query.matches member doc := by
  rw [history, mem_sorted, List.mem_filter]

/-- Where the walk stands before a call: `k` orders have been handed out, and the cursor
is the id of the last one. -/
def Reached (g : Growth) (member : ObjectId) (query : OrderHistoryQueryDto)
    (call k : ℕ) (cursor : Option ObjectId) : Prop :=
  (call = 0 ∧ k = 0 ∧ cursor = none) ∨
    ∃ n doc, k = n + 1 ∧ (history g member query)[n]? = some doc ∧ cursor = some doc.id

/-- Below the cursor are the orders not handed out yet, whatever was inserted. -/
theorem sorted_below {call k : ℕ} {cursor : Option ObjectId}
    (h : Reached g member query call k cursor) :
    sorted OrderDoc.id ((g.orders call).docs.filter
      fun doc => query.matches member doc && cursor.all (doc.id < ·)) =
        (history g member query).drop k := by
  rcases h with ⟨rfl, rfl, rfl⟩ | ⟨n, last, rfl, hlast, rfl⟩
  · simp [history]
  · rw [← (descending_history g member query).filter_lt hlast]
    apply Descending.eq_of_mem_iff (descending_sorted (nodup_ids_filter _ _))
      ((descending_history g member query).filter _)
    intro doc
    have hfirst := (mem_history.mp (List.mem_of_getElem? hlast)).1
    simp only [mem_sorted, List.mem_filter, mem_history, Option.all_some, Bool.and_eq_true,
      decide_eq_true_eq]
    constructor
    · rintro ⟨hdoc, hmatches, hlt⟩
      rcases g.mem_cases hdoc with hold | hnew
      · exact ⟨⟨hold, hmatches⟩, hlt⟩
      · exact absurd (hlt.trans (hnew last hfirst)) (lt_irrefl _)
    · rintro ⟨⟨hdoc, hmatches⟩, hlt⟩
      exact ⟨g.mem_of_first hdoc call, hmatches, hlt⟩

theorem cursorId_text (cursor : Option ObjectId) :
    OrderService.cursorId (cursor.map ObjectId.text) = .ok cursor := by
  cases cursor with
  | none => rfl
  | some id =>
    have hne : id.text ≠ "" := fun h => by simpa [h] using id.length_text
    simp [OrderService.cursorId, Option.filter, hne]

/-- One page: the next `pageSize` orders, and a cursor if there are more. -/
theorem getHistory_reached {call k : ℕ} {cursor : Option ObjectId}
    (h : Reached g member query call k cursor) :
    let left := (history g member query).drop k
    OrderService.getHistory (g.orders call) member.text (query.after (cursor.map ObjectId.text)) =
      .ok { data := left.take query.pageSize
            nextCursor :=
              if query.pageSize < left.length then
                (left.take query.pageSize).getLast?.map (·.id.text)
              else none } := by
  intro left
  have hfound : (g.orders call).find
      (fun doc => query.matches member doc && cursor.all (doc.id < ·)) (query.pageSize + 1) =
        left.take (query.pageSize + 1) := congrArg (List.take _) (sorted_below h)
  have hmore : query.pageSize < (left.take (query.pageSize + 1)).length ↔
      query.pageSize < left.length := by
    rw [List.length_take]
    omega
  have hget : OrderService.getHistory (g.orders call) member.text
      (query.after (cursor.map ObjectId.text)) =
        let found := left.take (query.pageSize + 1)
        let data := if query.pageSize < found.length then found.take query.pageSize else found
        .ok { data := data
              nextCursor :=
                if query.pageSize < found.length then data.getLast?.map (·.id.text)
                else none } := by
    simp only [OrderService.getHistory, ObjectId.parse?_text, OrderHistoryQueryDto.after,
      cursorId_text]
    rw [← hfound]
    rfl
  rw [hget]
  simp only [hmore]
  by_cases hlt : query.pageSize < left.length
  · simp only [if_pos hlt, List.take_take, Nat.min_eq_left (Nat.le_succ _)]
  · simp only [if_neg hlt]
    rw [List.take_of_length_le (by omega), List.take_of_length_le (by omega)]

/-- A full page with more behind it leads to the next one. -/
theorem reached_next (call : ℕ) {k : ℕ}
    (hlt : query.pageSize < ((history g member query).drop k).length) :
    ∃ last, (((history g member query).drop k).take query.pageSize).getLast? = some last ∧
      Reached g member query (call + 1) (k + query.pageSize) (some last.id) := by
  have hpos := query.pageSize_pos
  rw [List.length_drop] at hlt
  have hidx : k + (query.pageSize - 1) < (history g member query).length := by omega
  have hlast : (((history g member query).drop k).take query.pageSize).getLast? =
      some (history g member query)[k + (query.pageSize - 1)] := by
    have hlen : (((history g member query).drop k).take query.pageSize).length =
        query.pageSize := by
      rw [List.length_take, List.length_drop]
      omega
    rw [List.getLast?_eq_getElem?, hlen, List.getElem?_take_of_lt (by omega), List.getElem?_drop,
      List.getElem?_eq_getElem hidx]
  refine ⟨_, hlast, .inr ⟨k + (query.pageSize - 1), _, by omega, ?_, rfl⟩⟩
  exact List.getElem?_eq_getElem hidx

/-- The walk hands out what was left, page by page. -/
theorem followCursor_reached {fuel call k : ℕ} {cursor : Option ObjectId}
    (h : Reached g member query call k cursor)
    (hfuel : (history g member query).length - k < fuel * query.pageSize) :
    ∃ pages, OrderService.followCursor g.orders member.text query fuel call
        (cursor.map ObjectId.text) = some pages ∧
      pages.flatten = (history g member query).drop k := by
  induction fuel generalizing call k cursor with
  | zero => simp at hfuel
  | succ fuel ih =>
    have hpage := getHistory_reached h
    set left := (history g member query).drop k with hleft
    simp only [OrderService.followCursor, hpage]
    by_cases hlt : query.pageSize < left.length
    · obtain ⟨last, hlast, hnext⟩ := reached_next call hlt
      rw [← hleft] at hlast
      have hless : (history g member query).length - (k + query.pageSize) <
          fuel * query.pageSize := by
        rw [hleft, List.length_drop] at hlt
        rw [Nat.succ_mul] at hfuel
        omega
      obtain ⟨pages, hrun, hflat⟩ := ih hnext hless
      refine ⟨left.take query.pageSize :: pages, ?_, ?_⟩
      · simp only [if_pos hlt, hlast, Option.map_some]
        rw [Option.map_some] at hrun
        rw [hrun, Option.map_some]
      · rw [List.flatten_cons, hflat, ← List.drop_drop, ← hleft, List.take_append_drop]
    · refine ⟨[left.take query.pageSize], ?_, ?_⟩
      · simp only [if_neg hlt]
      · rw [List.flatten_singleton, List.take_of_length_le (by omega)]

end Walk

/-- Following the cursor ends, and hands out every matching order of the first collection
once, from the newest down. -/
theorem pages_are_history (g : Growth) (member : ObjectId) (query : OrderHistoryQueryDto)
    (extra : ℕ) :
    ∃ pages, OrderService.followCursor g.orders member.text query
        ((g.orders 0).docs.length / query.pageSize + 1 + extra) 0 none = some pages ∧
      pages.flatten.Pairwise (fun newer older => older.id < newer.id) ∧
      ∀ doc, doc ∈ pages.flatten ↔
        doc ∈ (g.orders 0).docs ∧ query.matches member doc := by
  have hlen : (history g member query).length ≤ (g.orders 0).docs.length := by
    rw [history, length_sorted]
    exact List.length_filter_le _ _
  have hfuel : (history g member query).length - 0 <
      ((g.orders 0).docs.length / query.pageSize + 1 + extra) * query.pageSize := by
    have hdiv := Nat.lt_div_mul_add (a := (g.orders 0).docs.length) query.pageSize_pos
    rw [Nat.add_mul, Nat.add_mul, Nat.one_mul]
    omega
  have hstart : Reached g member query 0 0 none := .inl ⟨rfl, rfl, rfl⟩
  obtain ⟨pages, hrun, hflat⟩ := followCursor_reached hstart hfuel
  rw [List.drop_zero] at hflat
  refine ⟨pages, hrun, ?_, ?_⟩
  · rw [hflat]
    exact descending_history g member query
  · intro doc
    rw [hflat]
    exact mem_history

end Trading
end StockMarket
