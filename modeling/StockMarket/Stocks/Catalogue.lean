import StockMarket.Stocks.Service
import StockMarket.Interleaving.Sequence

/-! # The catalogue cache

All queries for the first page of the unfiltered catalogue share one cache key,
whatever their limit. Each answer is compared with the answer the same query
gets when Redis is down.
-/

namespace StockMarket.Stocks
open Interleaving Prog

def answered : StockOp → Outcome Exception := fun _ => .done

/-- Redis is down. -/
def uncached : StockOp → Outcome Exception :=
  fun op => if op.isCache then .failed (.driver "Connection is closed.") else .done

/-- The queries of a run, and the keys that expire between them. -/
abbrev CatalogueEvent := Event StockQueryDto Environment

section Serve
variable (server : Server)

def answer (outcome : StockOp → Outcome Exception) (dto : StockQueryDto) (s : Store) :
    Except Exception Catalogue :=
  ((StockService.findAll dto).run (exec server) outcome s).1.map Catalogue.viaJson

def Store.afterEvents (s : Store) (events : List CatalogueEvent) : Store :=
  after (backend server) (fun _ dto => StockService.findAll dto) 0 s events

end Serve

/-- No stock and no catalogue is cached yet. -/
def Store.cold (stocks : Collection) (now : Time) : Store where
  stocks := stocks
  stockCache := fun _ => none
  catalogueCache := fun _ => none
  now := now
  outbox := []

/-- A query for the first page, without sector and search. -/
def StockQueryDto.Keyed (dto : StockQueryDto) : Prop :=
  dto.page = some 1 ∧ given dto.search = none ∧ given dto.sector = none

instance (dto : StockQueryDto) : Decidable dto.Keyed := inferInstanceAs (Decidable (_ ∧ _))

/-- The stocks of the unfiltered catalogue. -/
def Collection.listed (stocks : Collection) : List StockDoc :=
  stocks.docs.filter fun doc => doc.isListed

/-- Where a query's limit cuts the unfiltered catalogue. -/
def cut (server : Server) (stocks : Collection) (dto : StockQueryDto) : Option ℕ :=
  (server.count (dto.limit.getD 20)).map fun n => min n stocks.listed.length

/-- The query whose answer is cached: of the queries that share the key, the first one
since the key last expired that MongoDB does not refuse. -/
def filler (server : Server) (events : List CatalogueEvent) : Option StockQueryDto :=
  events.foldl (fun cached event =>
    match event with
    | .env (.expire key) => if key = RedisKeys.stockCatalogue then none else cached
    | .env (.tick _) => cached
    | .call dto =>
        if cached = none ∧ dto.Keyed ∧ server.count (dto.limit.getD 20) ≠ none then some dto
        else cached) none

def listing (server : Server) (stocks : Collection) (dto : StockQueryDto) :
    Except Exception Catalogue :=
  let filter : StockFilter := { sector := given dto.sector, search := given dto.search }
  let limit := dto.limit.getD 20
  match stocks.findPage server filter ((dto.page.getD 1 - 1) * limit) limit,
      stocks.select server filter with
  | some data, some docs => .ok { data, total := docs.length }
  | _, _ => .error server.refusal

section Run
variable {server : Server} {outcome : StockOp → Outcome Exception} {s : Store}

theorem run_await_bind {α β : Type} {p : Call (Except Exception α)} {reply : Except Exception α}
    (hp : p.run (exec server) outcome s = (.ok reply, s)) (k : α → Call β) :
    (await p >>= k).run (exec server) outcome s =
      (andThen k reply).run (exec server) outcome s := by
  rw [await, bind_bind, run_bind, hp]
  cases reply <;> rfl

/-- The two queries of `findAll`, when MongoDB is up. -/
theorem run_queryCatalogue (hup : ∀ op, op.isCache = false → outcome op = .done)
    (dto : StockQueryDto) (s : Store) :
    (StockService.queryCatalogue dto).run (exec server) outcome s =
      (listing server s.stocks dto, s) := by
  have hquery (op : StockOp) (h : op.isCache = false) :
      (query op).run (exec server) outcome s =
        (.ok (exec server op s).1, (exec server op s).2) := by
    rw [run_send, hup op h]
  rw [StockService.queryCatalogue, run_await_bind (hquery (.findStocks _ _ _) rfl), listing]
  simp only [exec]
  cases hpage : s.stocks.findPage server
      { sector := given dto.sector, search := given dto.search }
      ((dto.page.getD 1 - 1) * dto.limit.getD 20) (dto.limit.getD 20) with
  | none => rfl
  | some data =>
    rw [andThen_ok, run_await_bind (hquery (.countStocks _) rfl)]
    simp only [exec]
    cases hselect : s.stocks.select server
      { sector := given dto.sector, search := given dto.search } with
    | none => rfl
    | some docs => rfl

theorem answer_uncached (dto : StockQueryDto) (s : Store) :
    answer server uncached dto s = (listing server s.stocks dto).map Catalogue.viaJson := by
  have hup (op : StockOp) (h : op.isCache = false) : uncached op = .done := by
    simp [uncached, h]
  have hget : (StockService.cachedCatalogue (StockService.cacheKey dto)).run (exec server) uncached
      s = (.ok none, s) := by
    cases StockService.cacheKey dto <;> rfl
  have hset (result : Catalogue) : (StockService.cacheCatalogue result
      (StockService.cacheKey dto)).run (exec server) uncached s = (.ok (), s) := by
    cases StockService.cacheKey dto <;> rfl
  rw [answer, StockService.findAll, run_bind, hget]
  simp only [andThen_ok]
  rw [run_bind, run_queryCatalogue hup]
  cases listing server s.stocks dto with
  | error e => rfl
  | ok result =>
    simp only [andThen_ok]
    rw [run_bind, hset]
    rfl

theorem answered_done (op : StockOp) (_ : op.isCache = false) : answered op = .done := rfl

/-- A query without the key goes to MongoDB and leaves the store alone. -/
theorem run_unkeyed {dto : StockQueryDto} (h : ¬dto.Keyed) (s : Store) :
    (StockService.findAll dto).run (exec server) answered s = (listing server s.stocks dto, s) := by
  have hkey : StockService.cacheKey dto = none := if_neg h
  rw [StockService.findAll, hkey, run_bind]
  simp only [StockService.cachedCatalogue, StockService.cacheCatalogue, pure_eq, run_ret,
    andThen_ok]
  rw [run_bind, run_queryCatalogue answered_done]
  cases listing server s.stocks dto <;> rfl

/-- A query with the key is answered from the cache. -/
theorem run_hit {dto : StockQueryDto} (h : dto.Keyed) {cached : Catalogue}
    (hcached : s.catalogueCache RedisKeys.stockCatalogue = some cached) :
    (StockService.findAll dto).run (exec server) answered s = (.ok cached, s) := by
  have hkey : StockService.cacheKey dto = some RedisKeys.stockCatalogue := if_pos h
  rw [StockService.findAll, hkey, StockService.cachedCatalogue, swallow, run_catching_bind,
    run_send]
  simp only [answered, exec, hcached]
  rfl

/-- Or from MongoDB, and then its answer is cached. -/
theorem run_miss {dto : StockQueryDto} (h : dto.Keyed)
    (hcached : s.catalogueCache RedisKeys.stockCatalogue = none) :
    (StockService.findAll dto).run (exec server) answered s =
      match listing server s.stocks dto with
      | .error e => (.error e, s)
      | .ok result => (.ok result,
          (exec server (.setCatalogueCache RedisKeys.stockCatalogue result) s).2) := by
  have hkey : StockService.cacheKey dto = some RedisKeys.stockCatalogue := if_pos h
  rw [StockService.findAll, hkey, StockService.cachedCatalogue, swallow, run_catching_bind,
    run_send]
  simp only [answered, exec, hcached]
  rw [run_bind, run_queryCatalogue answered_done]
  cases listing server s.stocks dto <;> rfl

end Run

section Limits
variable {server : Server} {stocks : Collection} {dto dto' : StockQueryDto}

theorem limit_ge_one (dto : StockQueryDto) : 1 ≤ dto.limit.getD 20 := by
  cases h : dto.limit with
  | none => norm_num
  | some x => exact dto.limit_ge x h

theorem select_keyed (h : dto.Keyed) :
    stocks.select server { sector := given dto.sector, search := given dto.search } =
      some stocks.listed := by
  obtain ⟨-, hsearch, hsector⟩ := h
  rw [hsearch, hsector]
  simp [Collection.select, Server.search, Collection.listed]

/-- With the key, MongoDB's answer is a beginning of the listed stocks. -/
theorem listing_keyed (h : dto.Keyed) :
    listing server stocks dto =
      match server.count (dto.limit.getD 20) with
      | none => .error server.refusal
      | some n => .ok
          { data := ((server.sorting.order stocks.listed).take n).map StockDoc.toStock
            total := stocks.listed.length } := by
  have hskip : server.count ((dto.page.getD 1 - 1) * dto.limit.getD 20) = some 0 := by
    rw [h.1, Option.getD_some, sub_self, zero_mul]
    exact_mod_cast server.count_natCast 0
  rw [listing, Collection.findPage, select_keyed h]
  simp only [Option.bind_eq_bind, Option.bind_some, hskip]
  cases hcount : server.count (dto.limit.getD 20) with
  | none => rfl
  | some n =>
    have hpos : n ≠ 0 := (server.count_pos _ (limit_ge_one dto) n hcount).ne'
    simp [hpos]

/-- Two queries with the key have one answer exactly where their limits cut the listed
stocks at one place. -/
theorem listing_eq_iff (h : dto.Keyed) (h' : dto'.Keyed) :
    (listing server stocks dto).map Catalogue.viaJson =
        (listing server stocks dto').map Catalogue.viaJson ↔
      cut server stocks dto = cut server stocks dto' := by
  have hlen : (server.sorting.order stocks.listed).length = stocks.listed.length :=
    (server.sorting.perm _).length_eq
  rw [listing_keyed h, listing_keyed h', cut, cut]
  cases server.count (dto.limit.getD 20) with
  | none =>
    cases server.count (dto'.limit.getD 20) with
    | none => simp
    | some m => simp [Except.map]
  | some n =>
    cases server.count (dto'.limit.getD 20) with
    | none => simp [Except.map]
    | some m =>
      simp only [Except.map, Except.ok.injEq, Catalogue.viaJson, Catalogue.mk.injEq, and_true,
        Option.map_some, Option.some.injEq]
      constructor
      · intro heq
        have := congrArg List.length heq
        simpa [List.length_take, hlen] using this
      · intro heq
        have htake : (server.sorting.order stocks.listed).take n =
            (server.sorting.order stocks.listed).take m := by
          rw [List.take_eq_take_iff, hlen]
          exact heq
        rw [htake]

end Limits

/-- What the events have left: the stocks as they were, and the filler's answer in the
cache. -/
structure Caches (server : Server) (stocks : Collection) (cached : Option StockQueryDto)
    (s : Store) : Prop where
  unchanged : s.stocks = stocks
  empty : cached = none → s.catalogueCache RedisKeys.stockCatalogue = none
  filled : ∀ dto ∈ cached, dto.Keyed ∧ ∃ result, listing server stocks dto = .ok result ∧
    s.catalogueCache RedisKeys.stockCatalogue = some result.viaJson

section Events
variable {server : Server} {stocks : Collection} {s : Store}

theorem listing_ok_iff {dto : StockQueryDto} (h : dto.Keyed) :
    (∃ result, listing server stocks dto = .ok result) ↔
      server.count (dto.limit.getD 20) ≠ none := by
  rw [listing_keyed h]
  cases server.count (dto.limit.getD 20) <;> simp

theorem Caches.call {cached : Option StockQueryDto} (h : Caches server stocks cached s)
    (dto : StockQueryDto) :
    Caches server stocks
      (if cached = none ∧ dto.Keyed ∧ server.count (dto.limit.getD 20) ≠ none then some dto
        else cached)
      ((StockService.findAll dto).run (exec server) answered s).2 := by
  by_cases hkeyed : dto.Keyed
  · cases cached with
    | some filled =>
      obtain ⟨-, result, -, hcached⟩ := h.filled filled rfl
      rw [run_hit hkeyed hcached, if_neg (by simp)]
      exact h
    | none =>
      rw [run_miss hkeyed (h.empty rfl), h.unchanged]
      cases hlisting : listing server stocks dto with
      | error e =>
        have hrefused : ¬server.count (dto.limit.getD 20) ≠ none := fun hcount => by
          obtain ⟨result, hresult⟩ : ∃ result, listing server stocks dto = .ok result :=
            (listing_ok_iff hkeyed).mpr hcount
          cases hlisting.symm.trans hresult
        rw [if_neg fun hand => hrefused hand.2.2]
        exact h
      | ok result =>
        rw [if_pos ⟨rfl, hkeyed, (listing_ok_iff hkeyed).mp ⟨result, hlisting⟩⟩]
        refine ⟨h.unchanged, fun hnone => (Option.some_ne_none _ hnone).elim, ?_⟩
        intro filled hfilled
        obtain rfl := Option.some.inj hfilled
        exact ⟨hkeyed, result, hlisting, by simp [exec]⟩
  · rw [run_unkeyed hkeyed, if_neg fun hand => hkeyed hand.2.1]
    exact h

theorem Caches.env {cached : Option StockQueryDto} (h : Caches server stocks cached s)
    (key : String) :
    Caches server stocks (if key = RedisKeys.stockCatalogue then none else cached)
      ((backend server).env (.expire key) s) := by
  by_cases hkey : key = RedisKeys.stockCatalogue
  · rw [if_pos hkey, hkey]
    refine ⟨h.unchanged, ?_, fun _ hmem => by cases hmem⟩
    intro _
    simp [backend]
  · have hother : ((backend server).env (.expire key) s).catalogueCache RedisKeys.stockCatalogue =
        s.catalogueCache RedisKeys.stockCatalogue := Function.update_of_ne (Ne.symm hkey) ..
    rw [if_neg hkey]
    refine ⟨h.unchanged, ?_, ?_⟩
    · intro hnone
      rw [hother]
      exact h.empty hnone
    · intro dto hdto
      rw [hother]
      exact h.filled dto hdto

theorem caches_afterEvents (stocks : Collection) (now : Time) (events : List CatalogueEvent) :
    Caches server stocks (filler server events)
      ((Store.cold stocks now).afterEvents server events) := by
  induction events using List.reverseRecOn with
  | nil => exact ⟨rfl, fun _ => rfl, fun _ hmem => by cases hmem⟩
  | append_singleton events event ih =>
    rw [filler, List.foldl_concat, Store.afterEvents, after_concat]
    cases event with
    | call dto => exact ih.call dto
    | env move =>
      cases move with
      | expire key => exact ih.env key
      | tick ms => exact ⟨ih.unchanged, ih.empty, ih.filled⟩

/-- A query after a run gets MongoDB's answer, or the one the filler got. -/
theorem answer_eq_uncached_iff {cached : Option StockQueryDto} (h : Caches server stocks cached s)
    (dto : StockQueryDto) :
    answer server answered dto s = answer server uncached dto s ↔
      ∀ filled ∈ cached, dto.Keyed → cut server stocks dto = cut server stocks filled := by
  rw [answer_uncached, h.unchanged]
  by_cases hkeyed : dto.Keyed
  · cases cached with
    | none =>
      rw [answer, run_miss hkeyed (h.empty rfl), h.unchanged]
      refine iff_of_true ?_ fun _ hmem => by cases hmem
      cases listing server stocks dto <;> rfl
    | some filled =>
      obtain ⟨hfilled, result, hresult, hcached⟩ := h.filled filled rfl
      have htwice : result.viaJson.viaJson = result.viaJson := by
        have hstock (stock : Stock) : stock.viaJson.viaJson = stock.viaJson := by
          simp only [Stock.viaJson]
          cases stock.currentPrice <;> rfl
        simp [Catalogue.viaJson, hstock]
      have hanswer : answer server answered dto s =
          (listing server stocks filled).map Catalogue.viaJson := by
        rw [answer, run_hit hkeyed hcached, hresult]
        exact congrArg Except.ok htwice
      rw [hanswer, eq_comm, listing_eq_iff hkeyed hfilled]
      simp [hkeyed]
  · rw [answer, run_unkeyed hkeyed, h.unchanged]
    exact iff_of_true rfl fun _ _ hk => absurd hk hkeyed

end Events

/-- Every answer is what MongoDB would have answered, exactly where every query that finds
an answer in the cache cuts the listed stocks at the place the query did that put it
there. -/
theorem transparent_iff (server : Server) (stocks : Collection) (now : Time)
    (events : List CatalogueEvent) :
    (∀ before dto later, events = before ++ .call dto :: later →
      answer server answered dto ((Store.cold stocks now).afterEvents server before) =
        answer server uncached dto ((Store.cold stocks now).afterEvents server before)) ↔
    ∀ before dto later, events = before ++ .call dto :: later →
      ∀ filled ∈ filler server before, dto.Keyed →
        cut server stocks dto = cut server stocks filled := by
  refine forall₄_congr ?_
  intro before dto later _
  exact answer_eq_uncached_iff (caches_afterEvents stocks now before) dto

section Example

/-- MongoDB that takes every pattern literally and rounds limits down. -/
def sampleServer : Server where
  regex pattern := some fun text => text = pattern
  count x := some ⌊x⌋₊
  count_natCast n := by simp
  count_pos x hx n hn := by
    obtain rfl := Option.some.inj hn
    exact Nat.floor_pos.mpr hx
  sorting := .stable _
  refusal := .driver "Failed to parse"

def sampleStock (name : String) (id : ObjectId) : StockDoc where
  id := id
  ticker := name
  companyName := name
  sector := "Tech"
  currentPrice := .bson (some 10)
  description := ""
  isListed := true
  priceHistory := []

def twoStocks : Collection where
  docs :=
    [sampleStock "AAA" (.ofText "65de9f00a1b2c3d4e5f6a7b1" (by decide)),
      sampleStock "BBB" (.ofText "65de9f00a1b2c3d4e5f6a7b2" (by decide))]
  nodup := by decide

def firstPage (limit : ℕ) (h : 0 < limit) : StockQueryDto where
  sector := none
  search := none
  page := some 1
  limit := some limit
  page_ge x hx := by
    obtain rfl := Option.some.inj hx
    exact le_refl _
  limit_ge x hx := by
    obtain rfl := Option.some.inj hx
    exact_mod_cast h

/-- After a first page of one stock, the first page of twenty has one stock. -/
theorem second_limit_ignored :
    ¬∀ before dto later,
      [Event.call (firstPage 1 (by decide)), .call (firstPage 20 (by decide))] =
        before ++ .call dto :: later →
      answer sampleServer answered dto ((Store.cold twoStocks 0).afterEvents sampleServer before) =
        answer sampleServer uncached dto
          ((Store.cold twoStocks 0).afterEvents sampleServer before) := by
  intro h
  have := h [.call (firstPage 1 (by decide))] (firstPage 20 (by decide)) [] rfl
  revert this
  decide +kernel

end Example
end StockMarket.Stocks
