import StockMarket.Stocks.Pool
import StockMarket.Stocks.Catalogue

/-! # The cached stock and the stored one

A write deletes the key of its stock, and a call that missed the cache sets the
key to the document it has read. Where every such fill comes before the deletes
of the writes it has not seen, whoever begins after a write has returned sees
that write or a later one.
-/

namespace StockMarket.Stocks
open Interleaving Prog

theorem stockCache_injective : Function.Injective RedisKeys.stockCache := by
  intro id id' h
  have h' : "cache:stock:" ++ id.text = "cache:stock:" ++ id'.text := h
  exact ObjectId.ext_text (by simpa [String.ext_iff] using h')

/-- The update of the stock that an operation carries out, if it is one. -/
def StockOp.updateOf (id : ObjectId) : StockOp → Option StockUpdate
  | .updateStock id' set => if id' = id then some set else none
  | _ => none

@[simp] theorem updateOf_self (id : ObjectId) (set : StockUpdate) :
    (StockOp.updateStock id set).updateOf id = some set := if_pos rfl

/-- The stock as the writes of the log leave it. -/
def replay (store : Store) (id : ObjectId) : List LogEntry → Option StockDoc
  | [] => store.stocks.find id
  | e :: log => (e.reaction.op.updateOf id).elim (replay store id log) fun set =>
      (replay store id log).map set.apply

def Deleted (key : String) (j : ℕ) (log : List LogEntry) : Prop :=
  ∃ e ∈ log, e.caller = j ∧ e.reaction.op = .delCache key

instance (key : String) (j : ℕ) (log : List LogEntry) : Decidable (Deleted key j log) :=
  inferInstanceAs (Decidable (∃ e ∈ log, _ ∧ _))

/-- A write to the stock that is cached under the key. -/
def StockOp.writesUnder (key : String) : StockOp → Bool
  | .updateStock id _ => RedisKeys.stockCache id = key
  | _ => false

def StockOp.filled : StockOp → Option String
  | .setStockCache key _ => some key
  | _ => none

/-- Of the writes since the call has read the document it caches, each has its delete
still to come. -/
def InTime (log : List LogEntry) (i : ℕ) (op : StockOp) : Prop :=
  ∀ key ∈ op.filled, ∀ e ∈ since i StockOp.isFindStock log,
    e.reaction.op.writesUnder key = true → ¬Deleted key e.caller log

instance (log : List LogEntry) (i : ℕ) (op : StockOp) : Decidable (InTime log i op) :=
  inferInstanceAs (Decidable (∀ key ∈ op.filled, ∀ e ∈ _, _ → _))

/-- Redis answers, and no fill comes after the delete of a write it has not seen. -/
def fillsInTime (reliable : ℕ → Prop) :
    Assumption ℕ StockOp StockOp.Reply Store Environment Exception where
  call _ log i op o := Ends (reliable i) op o ∧ InTime log i op
  env _ := True

/-- The document is one that the collection has had, and of the writes since then each
has its delete still to come; or the key has not been deleted at all. -/
def Fresh (store : Store) (id : ObjectId) (log : List LogEntry) (doc : StockDoc) : Prop :=
  (∃ newer older, log = newer ++ older ∧ (replay store id older).map StockDoc.viaJson = some doc ∧
      ∀ e ∈ newer, e.reaction.op.writesUnder (RedisKeys.stockCache id) = true →
        ¬Deleted (RedisKeys.stockCache id) e.caller log) ∨
    ∀ j, ¬Deleted (RedisKeys.stockCache id) j log

/-- What an operation was answered, by what had been carried out before it. -/
structure Observed (store : Store) (e : LogEntry) (older : List LogEntry) : Prop where
  found : ∀ id reply, e.reaction = ⟨.findStock id, reply⟩ → reply = replay store id older ∧
    ∀ x ∈ own e.caller older, x.op.isFindStock = false
  hit : ∀ id doc, e.reaction = ⟨.getStockCache (RedisKeys.stockCache id), some doc⟩ →
    Fresh store id older doc
  wrote : ∀ id set reply, e.reaction = ⟨.updateStock id set, reply⟩ →
    reply = (replay store id older).map set.apply ∧
      ∀ x ∈ own e.caller older, x.op.isUpdateStock = false

structure Coherent (store s : Store) (log : List LogEntry) : Prop where
  stored : ∀ id, s.stocks.find id = replay store id log
  cached : ∀ id doc, s.stockCache (RedisKeys.stockCache id) = some doc → Fresh store id log doc
  recorded : Recorded (Observed store) log

section Step
variable {server : Server} {store s : Store} {log : List LogEntry} {id : ObjectId} {op : StockOp}
  {doc : StockDoc} {i : ℕ}

theorem find_exec (server : Server) (op : StockOp) (s : Store) (id : ObjectId) :
    (exec server op s).2.stocks.find id =
      (op.updateOf id).elim (s.stocks.find id) fun set => (s.stocks.find id).map set.apply := by
  cases op with
  | updateStock id' set =>
    simp only [exec, Collection.find_update, StockOp.updateOf]
    by_cases h : id' = id
    · subst h
      simp
    · simp [h, Ne.symm h]
  | _ => rfl

/-- What is cached was cached before and not deleted, or has just been set. -/
theorem stockCache_exec {key : String} (h : (exec server op s).2.stockCache key = some doc) :
    (s.stockCache key = some doc ∧ op ≠ .delCache key) ∨
      ∃ read, op = .setStockCache key read ∧ doc = read.viaJson := by
  cases op with
  | setStockCache key' read =>
    by_cases hk : key = key'
    · subst hk
      simp only [exec, Function.update_self, Option.some.injEq] at h
      exact .inr ⟨read, rfl, h.symm⟩
    · simp only [exec, Function.update_of_ne hk] at h
      exact .inl ⟨h, by simp⟩
  | delCache key' =>
    by_cases hk : key = key'
    · subst hk
      simp [exec] at h
    · simp only [exec, Function.update_of_ne hk] at h
      exact .inl ⟨h, by simp [Ne.symm hk]⟩
  | _ => exact .inl ⟨h, by simp⟩

theorem deleted_cons {key : String} {j : ℕ} {reply : op.Reply} (hop : op ≠ .delCache key) :
    Deleted key j (⟨i, op, reply⟩ :: log) ↔ Deleted key j log := by
  simp [Deleted, hop]

/-- A fresh document stays so until its key is deleted. -/
theorem Fresh.cons {reply : op.Reply} (h : Fresh store id log doc)
    (hop : op ≠ .delCache (RedisKeys.stockCache id))
    (hwrite : op.writesUnder (RedisKeys.stockCache id) = true →
      ¬Deleted (RedisKeys.stockCache id) i log) :
    Fresh store id (⟨i, op, reply⟩ :: log) doc := by
  rcases h with ⟨newer, older, hlog, hdoc, hnewer⟩ | hnone
  · refine .inl ⟨⟨i, op, reply⟩ :: newer, older, by rw [hlog, List.cons_append], hdoc, ?_⟩
    intro e he hw
    rw [deleted_cons hop]
    rcases List.mem_cons.mp he with rfl | he
    · exact hwrite hw
    · exact hnewer e he hw
  · exact .inr fun j => (deleted_cons hop).not.mpr (hnone j)

theorem Observed.once_found {e : LogEntry} {older : List LogEntry} (h : Observed store e older)
    (hkind : e.reaction.op.isFindStock = true) :
    ∀ x ∈ own e.caller older, x.op.isFindStock = false := by
  obtain ⟨j, op, reply⟩ := e
  cases op with
  | findStock id => exact (h.found id reply rfl).2
  | _ => cases hkind

theorem Observed.once_written {e : LogEntry} {older : List LogEntry} (h : Observed store e older)
    (hkind : e.reaction.op.isUpdateStock = true) :
    ∀ x ∈ own e.caller older, x.op.isUpdateStock = false := by
  obtain ⟨j, op, reply⟩ := e
  cases op with
  | updateStock id set => exact (h.wrote id set reply rfl).2
  | _ => cases hkind

theorem Coherent.fill (h : Coherent store s log) (hfound : ⟨.findStock id, some doc⟩ ∈ own i log)
    (hin : InTime log i (.setStockCache (RedisKeys.stockCache id) doc)) :
    Fresh store id log doc.viaJson := by
  obtain ⟨newer, older, hlog⟩ := List.append_of_mem (mem_own.mp hfound)
  have hrecorded := h.recorded
  rw [hlog] at hrecorded
  have hread : some doc = replay store id older := (hrecorded.split.found id _ rfl).1
  have hsince : since i StockOp.isFindStock log = newer := by
    rw [hlog]
    exact hrecorded.since_eq rfl fun e older hobs => hobs.once_found
  refine .inl ⟨newer ++ [⟨i, .findStock id, some doc⟩], older, by simpa using hlog, ?_, ?_⟩
  · rw [← hread]
    rfl
  · intro e he
    rcases List.mem_append.mp he with hnew | hself
    · exact hin _ rfl e (hsince ▸ hnew)
    · obtain rfl := List.mem_singleton.mp hself
      simp [StockOp.writesUnder]

theorem Coherent.exec (h : Coherent store s log) (hmay : May (own i log) op)
    (hin : InTime log i op) :
    Coherent store (exec server op s).2 (⟨i, op, (exec server op s).1⟩ :: log) := by
  have hwrite (id : ObjectId) : op.writesUnder (RedisKeys.stockCache id) = true →
      ¬Deleted (RedisKeys.stockCache id) i log := by
    intro hw
    cases op with
    | updateStock id' set =>
      rintro ⟨e, he, rfl, hdel⟩
      have hno := (hmay e.reaction (mem_own.mpr he)).2
      simp [hdel, StockOp.isDelCache] at hno
    | _ => cases hw
  refine ⟨?_, ?_, ⟨?_, ?_, ?_⟩, h.recorded⟩
  · intro id
    rw [find_exec, h.stored, replay]
  · intro id doc hdoc
    rcases stockCache_exec hdoc with ⟨hold, hop⟩ | ⟨read, rfl, rfl⟩
    · exact (h.cached id doc hold).cons hop (hwrite id)
    · obtain ⟨id', hkey, hfound⟩ := hmay
      obtain rfl := stockCache_injective hkey
      exact (h.fill hfound hin).cons (by simp) (hwrite id)
  · intro id reply he
    obtain ⟨rfl, rfl⟩ := reaction_eq he
    exact ⟨h.stored id, hmay⟩
  · intro id doc he
    obtain ⟨rfl, hreply⟩ := reaction_eq he
    exact h.cached id doc hreply
  · intro id set reply he
    obtain ⟨rfl, rfl⟩ := reaction_eq he
    refine ⟨?_, fun x hx => (hmay x hx).1⟩
    rw [← h.stored]
    exact (Collection.find_update s.stocks id id set).trans (if_pos rfl)

theorem Coherent.env (h : Coherent store s log) (y : Environment) :
    Coherent store ((backend server).env y s) log := by
  cases y with
  | tick ms => exact ⟨h.stored, h.cached, h.recorded⟩
  | expire key =>
    refine ⟨h.stored, fun id doc hdoc => h.cached id doc ?_, h.recorded⟩
    by_cases hk : RedisKeys.stockCache id = key
    · simp [backend, hk] at hdoc
    · simpa [backend, hk] using hdoc

end Step

section Replay
variable {store : Store} {id : ObjectId} {log older newer : List LogEntry} {doc : StockDoc}

theorem isSome_replay (store : Store) (id : ObjectId) (log : List LogEntry) :
    (replay store id log).isSome = (store.stocks.find id).isSome := by
  induction log with
  | nil => rfl
  | cons e log ih =>
    rw [replay]
    cases e.reaction.op.updateOf id with
    | none => exact ih
    | some set => simpa using ih

/-- A stock that has been delisted is never listed again. -/
theorem replay_delisted {e : LogEntry} (he : e ∈ log)
    (hop : e.reaction.op.updateOf id = some .delisted) (hdoc : replay store id log = some doc) :
    doc.isListed = false := by
  induction log generalizing doc with
  | nil => cases he
  | cons first log ih =>
    rw [replay] at hdoc
    rcases List.mem_cons.mp he with rfl | he
    · rw [hop] at hdoc
      obtain ⟨previous, -, rfl⟩ := Option.map_eq_some_iff.mp hdoc
      rfl
    · cases hfirst : first.reaction.op.updateOf id with
      | none =>
        rw [hfirst] at hdoc
        exact ih he hdoc
      | some set =>
        rw [hfirst] at hdoc
        obtain ⟨previous, hprevious, rfl⟩ := Option.map_eq_some_iff.mp hdoc
        have hkeep := ih he hprevious
        cases set with
        | fields companyName sector description newPrice => exact hkeep
        | delisted => rfl

theorem StockUpdate.price_apply (set : StockUpdate) (doc : StockDoc) :
    (set.apply doc).price = set.newPrice.getD doc.price := by
  cases set with
  | fields companyName sector description newPrice => cases newPrice <;> rfl
  | delisted => rfl

/-- The price stays the one that was written until another is. -/
theorem replay_price {e : LogEntry} {set : StockUpdate} {price : ℚ}
    (hop : e.reaction.op.updateOf id = some set) (hprice : set.newPrice = some price)
    (hnewer : ∀ x ∈ newer, ∀ set' ∈ x.reaction.op.updateOf id, set'.newPrice = none)
    (hdoc : replay store id (newer ++ e :: older) = some doc) : doc.price = price := by
  induction newer generalizing doc with
  | nil =>
    rw [List.nil_append, replay, hop] at hdoc
    obtain ⟨previous, -, rfl⟩ := Option.map_eq_some_iff.mp hdoc
    rw [StockUpdate.price_apply, hprice, Option.getD_some]
  | cons first newer ih =>
    rw [List.cons_append, replay] at hdoc
    have hrest := fun x hx => hnewer x (List.mem_cons_of_mem first hx)
    cases hfirst : first.reaction.op.updateOf id with
    | none =>
      rw [hfirst] at hdoc
      exact ih hrest hdoc
    | some set' =>
      rw [hfirst] at hdoc
      obtain ⟨previous, hprevious, rfl⟩ := Option.map_eq_some_iff.mp hdoc
      rw [StockUpdate.price_apply, hnewer first List.mem_cons_self set' hfirst, Option.getD_none]
      exact ih hrest hprevious

end Replay

section Run
variable {server : Server} {store : Store} {requests : ℕ → Request} {reliable : ℕ → Prop}

theorem coherent_run {sched : Schedule}
    (halong : (fillsInTime reliable).Along (backend server) (State.start store requests) sched) :
    ((State.start store requests).run (backend server) sched).Conforms
        (protocol reliable requests) ∧
      Coherent store ((State.start store requests).run (backend server) sched).store
        ((State.start store requests).run (backend server) sched).log := by
  refine Config.run_invariant (A := fillsInTime reliable) (I := Coherent store)
    (fun _ _ _ _ _ h => h.1) (fun x l i op o hI hmay hcall => hI.exec hmay hcall.2)
    (fun x l y hI _ => hI.env y) (conforms_start reliable store requests) ?_ sched halong
  refine ⟨fun _ => rfl, fun _ _ _ => .inr ?_, trivial⟩
  rintro j ⟨e, he, -⟩
  cases he

/-- What a call sees that begins after a write has returned: a document the collection
has had since that write. -/
theorem saw_written {before later : Schedule} {r w : ℕ} {id : ObjectId} {set : StockUpdate}
    {doc written : StockDoc}
    (halong : (fillsInTime reliable).Along (backend server) (State.start store requests)
      (before ++ later))
    (hwrote : Wrote id set
      (own w ((State.start store requests).run (backend server) before).log) written)
    (hbegun : own r ((State.start store requests).run (backend server) before).log = [])
    (hsaw : Saw id
      (own r ((State.start store requests).run (backend server) (before ++ later)).log) doc) :
    ∃ newer log seen,
      ((State.start store requests).run (backend server) (before ++ later)).log = newer ++ log ∧
        ⟨w, .updateStock id set, some written⟩ ∈ log ∧ replay store id log = some seen ∧
          (doc = seen ∨ doc = seen.viaJson) := by
  obtain ⟨hwritten, hdeleted⟩ := hwrote
  have hrecorded := (coherent_run halong).2.recorded
  rcases hsaw with hhit | hfound
  · obtain ⟨newer, between, hlog⟩ := Config.mem_log_later _ hbegun hhit
    rw [hlog] at hrecorded
    rcases hrecorded.split.hit id doc rfl with ⟨unseen, log, hsplit, hdoc, hnewer⟩ | hnone
    · obtain ⟨seen, hseen, rfl⟩ := Option.map_eq_some_iff.mp hdoc
      refine ⟨newer ++ ⟨r, .getStockCache (RedisKeys.stockCache id), some seen.viaJson⟩ :: unseen,
        log, seen, ?_, ?_, hseen, .inr rfl⟩
      · rw [hlog, hsplit, List.append_assoc, List.cons_append]
      · -- the write has been followed by its delete, so it is not among those yet to be seen
        have hin := List.mem_append_right between (mem_own.mp hwritten)
        rw [hsplit] at hin
        refine (List.mem_append.mp hin).resolve_left ?_
        intro hunseen
        exact hnewer _ hunseen (by simp [StockOp.writesUnder])
          ⟨⟨w, .delCache _, ()⟩, List.mem_append_right between (mem_own.mp hdeleted), rfl, rfl⟩
    · exact absurd ⟨⟨w, .delCache _, ()⟩,
        List.mem_append_right between (mem_own.mp hdeleted), rfl, rfl⟩ (hnone w)
  · obtain ⟨newer, between, hlog⟩ := Config.mem_log_later _ hbegun hfound
    rw [hlog] at hrecorded
    refine ⟨newer ++ [⟨r, .findStock id, some doc⟩], _, doc, by rw [hlog]; simp, ?_,
      (hrecorded.split.found id _ rfl).1.symm, .inl rfl⟩
    exact List.mem_append_right between (mem_own.mp hwritten)

theorem missing_unfound {before later : Schedule} {r w : ℕ} {id : ObjectId} {set : StockUpdate}
    {written : StockDoc}
    (halong : (fillsInTime reliable).Along (backend server) (State.start store requests)
      (before ++ later))
    (hwrote : Wrote id set
      (own w ((State.start store requests).run (backend server) before).log) written)
    (hbegun : own r ((State.start store requests).run (backend server) before).log = []) :
    ⟨.findStock id, (none : Option StockDoc)⟩ ∉
      own r ((State.start store requests).run (backend server) (before ++ later)).log := by
  intro hmissing
  have hrecorded := (coherent_run halong).2.recorded
  obtain ⟨newer, between, hlog⟩ := Config.mem_log_later _ hbegun hmissing
  rw [hlog] at hrecorded
  have hnone : none = replay store id _ := (hrecorded.split.found id _ rfl).1
  obtain ⟨above, below, hbelow⟩ :=
    List.append_of_mem (List.mem_append_right between (mem_own.mp hwrote.1))
  rw [hbelow, ← List.cons_append, ← List.append_assoc] at hrecorded
  have hsome : some written = (replay store id below).map set.apply :=
    (hrecorded.split.wrote id set _ rfl).1
  have hfind := isSome_replay store id below
  have hfind' := isSome_replay store id (between ++
    ((State.start store requests).run (backend server) before).log)
  rw [← hnone, ← hfind] at hfind'
  have hisSome := congrArg Option.isSome hsome
  rw [Option.isSome_map, ← hfind'] at hisSome
  cases hisSome

/-- Whoever begins to read after a write has returned finds a delisted stock not listed,
and reads the price the write has set until another is set. -/
theorem read_after_write (server : Server) (store : Store) (requests : ℕ → Request)
    (reliable : ℕ → Prop) (before later : Schedule) (w r : ℕ) (id : ObjectId) (written : StockDoc)
    (halong : (fillsInTime reliable).Along (backend server) (State.start store requests)
      (before ++ later))
    (hreturned : ((State.start store requests).run (backend server) before).result w =
      some (.ok written))
    (hbegun : own r ((State.start store requests).run (backend server) before).log = []) :
    (requests w = .delist id → requests r = .findListedById id →
        ∀ res ∈ ((State.start store requests).run (backend server) (before ++ later)).result r,
          ∃ e, res = .error e) ∧
      ∀ dto price, requests w = .update id dto → dto.currentPrice = some price →
        requests r = .findById id →
        (∀ e ∈ since w StockOp.isUpdateStock
            ((State.start store requests).run (backend server) (before ++ later)).log,
          ∀ set ∈ e.reaction.op.updateOf id, set.newPrice = none) →
        ∀ res ∈ ((State.start store requests).run (backend server) (before ++ later)).result r,
          (∃ doc, res = .ok doc ∧ doc.price = price) ∨ ¬reliable r ∧ ∃ e, res = .error e := by
  have hwriter := (coherent_run ((Assumption.along_append _ _ _ before later).mp halong).1).1.ended
    hreturned
  constructor
  · intro hdelist hlisted res hres
    have hreader := (coherent_run halong).1.ended hres
    simp only [protocol, hdelist, hlisted] at hwriter hreader
    rcases res with e | doc
    · exact ⟨e, rfl⟩
    obtain ⟨newer, log, seen, -, hin, hseen, hdoc⟩ := saw_written halong hwriter hbegun hreader.1
    have hno := replay_delisted hin (updateOf_self id _) hseen
    have hyes : doc.isListed = true := hreader.2
    rcases hdoc with rfl | rfl
    · simp [hno] at hyes
    · simp [hno] at hyes
  · intro dto price hupdate hprice hfind hsince res hres
    have hreader := (coherent_run halong).1.ended hres
    simp only [protocol, hupdate, hfind] at hwriter hreader
    obtain ⟨set, hset, hwrote⟩ := hwriter
    rcases res with e | doc
    · exact .inr ⟨fun hreliable => missing_unfound halong hwrote hbegun (hreader hreliable), e, rfl⟩
    obtain ⟨newer, log, seen, hlog, hin, hseen, hdoc⟩ := saw_written halong hwrote hbegun hreader
    have hrecorded := (coherent_run halong).2.recorded
    obtain ⟨between, older, rfl⟩ := List.append_of_mem hin
    rw [hlog, ← List.append_assoc] at hsince hrecorded
    rw [hrecorded.since_eq rfl fun e older hobs => hobs.once_written] at hsince
    have hseenPrice : seen.price = price := replay_price (updateOf_self id set)
      (hset.trans hprice) (fun x hx => hsince x (List.mem_append_right newer hx)) hseen
    refine .inl ⟨doc, rfl, ?_⟩
    rcases hdoc with rfl | rfl
    · exact hseenPrice
    · rwa [StockDoc.price_viaJson]

end Run

section Example

def tracked : StockDoc := sampleStock "CCC" (.ofText "65de9f00a1b2c3d4e5f6a7b3" (by decide))

def trackedOnly : Collection where
  docs := [tracked]
  nodup := List.pairwise_singleton _ _

def newPrice : UpdateStockDto where
  companyName := none
  sector := none
  currentPrice := some 15
  description := none
  currentPrice_pos price hprice := by
    obtain rfl := Option.some.inj hprice
    decide

/-- A reader that has missed the cache, a write, and a reader that begins after it. -/
def readWriteRead (write : Request) (read : Request) : ℕ → Request
  | 1 => write
  | _ => read

instance (reliable : ℕ → Prop) [DecidablePred reliable] (s : Store) (log : List LogEntry) (i : ℕ)
    (op : StockOp) (o : Outcome Exception) :
    Decidable ((fillsInTime reliable).call s log i op o) :=
  inferInstanceAs (Decidable ((op.isCache = true ∨ reliable i → o = .done) ∧ InTime log i op))

instance (reliable : ℕ → Prop) (y : Environment) : Decidable ((fillsInTime reliable).env y) :=
  .isTrue trivial

/-- The fill comes between the write and its delete. -/
theorem read_after_write_filled :
    ∃ doc, ((State.start (.cold trackedOnly 0) (readWriteRead (.update tracked.id newPrice)
      (.findById tracked.id))).run (backend sampleServer) ([.step 0 .done, .step 0 .done,
        .step 1 .done, .step 1 .done, .step 0 .done, .step 1 .done, .step 1 .done, .step 1 .done] ++
          [.step 2 .done, .step 2 .done, .step 2 .done])).result 2 = some (.ok doc) ∧
      doc.price = 15 := by
  have h := (read_after_write sampleServer (.cold trackedOnly 0)
    (readWriteRead (.update tracked.id newPrice) (.findById tracked.id)) (fun _ => True)
    [.step 0 .done, .step 0 .done, .step 1 .done, .step 1 .done, .step 0 .done, .step 1 .done,
      .step 1 .done, .step 1 .done] [.step 2 .done, .step 2 .done, .step 2 .done] 1 2 tracked.id _
    (by decide) rfl rfl).2 newPrice 15 rfl rfl rfl (by decide) _ rfl
  rcases h with ⟨doc, hdoc, hprice⟩ | ⟨hno, -⟩
  · exact ⟨doc, congrArg some hdoc, hprice⟩
  · exact absurd trivial hno

/-- The fill comes after the delete: a call that begins after the delist has returned
finds the stock listed. -/
theorem delisted_stock_found :
    ((State.start (.cold trackedOnly 0) (readWriteRead (.delist tracked.id)
        (.findListedById tracked.id))).run (backend sampleServer) [.step 0 .done, .step 0 .done,
          .step 1 .done, .step 1 .done, .step 1 .done]).result 1 =
        some (.ok { tracked with isListed := false }) ∧
      own 2 ((State.start (.cold trackedOnly 0) (readWriteRead (.delist tracked.id)
        (.findListedById tracked.id))).run (backend sampleServer) [.step 0 .done, .step 0 .done,
          .step 1 .done, .step 1 .done, .step 1 .done]).log = [] ∧
      ((State.start (.cold trackedOnly 0) (readWriteRead (.delist tracked.id)
        (.findListedById tracked.id))).run (backend sampleServer) ([.step 0 .done, .step 0 .done,
          .step 1 .done, .step 1 .done, .step 1 .done] ++
            [.step 0 .done, .step 2 .done])).result 2 =
        some (.ok tracked.viaJson) := by
  decide

end Example
end StockMarket.Stocks
