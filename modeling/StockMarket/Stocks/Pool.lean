import StockMarket.Stocks.Service
import StockMarket.Interleaving.Protocol

/-! # Reading and changing stocks side by side

A pool of the calls that read or change single stocks, and what each of them
may send, by what it has sent before. Redis never fails; MongoDB and Kafka may,
but for calls that are told to be reliable.
-/

namespace StockMarket.Stocks
open Interleaving Prog

inductive Request where
  | findById (id : ObjectId)
  | findListedById (id : ObjectId)
  | update (id : ObjectId) (dto : UpdateStockDto)
  | delist (id : ObjectId)

def Request.serve : Request → Call StockDoc
  | .findById id => StockService.findById id
  | .findListedById id => StockService.findListedById id
  | .update id dto => StockService.update id dto
  | .delist id => StockService.delist id

abbrev State := Config ℕ StockOp StockOp.Reply Store Exception StockDoc
abbrev LogEntry := Entry ℕ StockOp StockOp.Reply
abbrev History := List (Reaction StockOp StockOp.Reply)
abbrev Schedule := List (Choice ℕ Environment Exception)

/-- The pool before any of its calls has done anything. -/
def State.start (store : Store) (requests : ℕ → Request) : State :=
  Config.start store fun i => (requests i).serve

namespace StockOp

def isFindStock : StockOp → Bool
  | .findStock _ => true
  | _ => false

def isUpdateStock : StockOp → Bool
  | .updateStock _ _ => true
  | _ => false

def isDelCache : StockOp → Bool
  | .delCache _ => true
  | _ => false

end StockOp

/-- The call looks for the stock once, caches only what it has found, and has not
invalidated anything when it writes, which it does once. -/
def May (h : History) : StockOp → Prop
  | .findStock _ => ∀ x ∈ h, x.op.isFindStock = false
  | .setStockCache key doc =>
      ∃ id, key = RedisKeys.stockCache id ∧ ⟨.findStock id, some doc⟩ ∈ h
  | .updateStock _ _ => ∀ x ∈ h, x.op.isUpdateStock = false ∧ x.op.isDelCache = false
  | _ => True

/-- Redis answers, and a reliable call is answered by MongoDB and Kafka as well. -/
def Ends (reliable : Prop) (op : StockOp) (o : Outcome Exception) : Prop :=
  op.isCache = true ∨ reliable → o = .done

/-- The call has seen the document in the cache or in the collection. -/
def Saw (id : ObjectId) (h : History) (doc : StockDoc) : Prop :=
  ⟨.getStockCache (RedisKeys.stockCache id), some doc⟩ ∈ h ∨ ⟨.findStock id, some doc⟩ ∈ h

/-- The call has written the document and then deleted its key. -/
def Wrote (id : ObjectId) (set : StockUpdate) (h : History) (doc : StockDoc) : Prop :=
  ⟨.updateStock id set, some doc⟩ ∈ h ∧ ⟨.delCache (RedisKeys.stockCache id), ()⟩ ∈ h

def StockUpdate.newPrice : StockUpdate → Option ℚ
  | .fields _ _ _ newPrice => newPrice.map fun entry => entry.price.toFloat
  | .delisted => none

/-- What a request's result says about what it has sent. -/
def Request.Post (reliable : Prop) : Request → History → Except Exception StockDoc → Prop
  | .findById id, h, .ok doc => Saw id h doc
  | .findById id, h, .error _ => reliable → ⟨.findStock id, (none : Option StockDoc)⟩ ∈ h
  | .findListedById id, h, .ok doc => Saw id h doc ∧ doc.isListed = true
  | .update id dto, h, .ok doc => ∃ set, set.newPrice = dto.currentPrice ∧ Wrote id set h doc
  | .delist id, h, .ok doc => Wrote id .delisted h doc
  | _, _, .error _ => True

section Obeys
variable {reliable : Prop} {α : Type} {post : History → Except Exception α → Prop} {h : History}

/-- What Redis would throw is swallowed, but it throws nothing. -/
theorem obeys_swallow {op : StockOp} {fallback : op.Reply} {k : op.Reply → Call α}
    (hcache : op.isCache = true) (hmay : May h op)
    (hk : ∀ r, Obeys May (Ends reliable) post (⟨op, r⟩ :: h) (k r)) :
    Obeys May (Ends reliable) post h (swallow (query op) fallback >>= k) := by
  apply Obeys.call op hmay
  · exact fun _ r => hk r
  · intro e hend
    cases hend (.inl hcache)
  · intro e hend
    cases hend (.inl hcache)

/-- `findById`, whatever becomes of what it returns or throws. -/
theorem obeys_findById (id : ObjectId) :
    Obeys May (Ends reliable) ((Request.findById id).Post reliable) []
      (StockService.findById id) := by
  refine obeys_swallow rfl trivial ?_
  intro cached
  cases cached with
  | some doc => exact .inl List.mem_cons_self
  | none =>
    apply Obeys.step
    · intro x hx
      obtain rfl := List.mem_singleton.mp hx
      rfl
    · intro _ found
      cases found with
      | none => exact fun _ => List.mem_cons_self
      | some doc =>
        refine obeys_swallow rfl ⟨id, rfl, List.mem_cons_self⟩ ?_
        intro filled
        exact .inr (List.mem_cons_of_mem _ List.mem_cons_self)
    · intro e hend hr
      cases hend (.inr hr)
    · intro e hend _ hr
      cases hend (.inr hr)

theorem obeys_findListedById (id : ObjectId) :
    Obeys May (Ends reliable) ((Request.findListedById id).Post reliable) []
      (StockService.findListedById id) := by
  refine (obeys_findById id).bind ?_ fun _ _ _ => trivial
  intro h' doc hsaw
  split
  · trivial
  · rename_i hlisted
    exact ⟨hsaw, by simpa using hlisted⟩

theorem obeys_updateAndInvalidate (id : ObjectId) (set : StockUpdate)
    (hfresh : ∀ x ∈ h, x.op.isUpdateStock = false ∧ x.op.isDelCache = false) :
    Obeys May (Ends reliable) (Returns fun h' doc => Wrote id set h' doc) h
      (StockService.updateAndInvalidate id set) := by
  apply Obeys.send hfresh
  intro updated
  cases updated with
  | none => trivial
  | some doc =>
    refine obeys_swallow rfl trivial ?_
    intro stockDeleted
    refine obeys_swallow rfl trivial ?_
    intro listDeleted
    exact ⟨List.mem_cons_of_mem _ (List.mem_cons_of_mem _ List.mem_cons_self),
      List.mem_cons_of_mem _ List.mem_cons_self⟩

theorem obeys_update (id : ObjectId) (dto : UpdateStockDto) :
    Obeys May (Ends reliable) ((Request.update id dto).Post reliable) []
      (StockService.update id dto) := by
  have hkeeps {set : StockUpdate} {h h' : History} {doc : StockDoc} (hsub : h ⊆ h')
      (hw : Wrote id set h doc) : Wrote id set h' doc := ⟨hsub hw.1, hsub hw.2⟩
  suffices hreturns : Obeys May (Ends reliable) (Returns fun h' doc => ∃ set : StockUpdate,
      set.newPrice = dto.currentPrice ∧ Wrote id set h' doc) [] (StockService.update id dto) by
    refine hreturns.mono ?_
    intro h' res hres
    cases res with
    | ok doc => exact hres
    | error e => trivial
  rw [StockService.update]
  rcases hprice : dto.currentPrice with _ | price
  · refine (obeys_updateAndInvalidate id _ (by simp)).bindReturns ?_
    intro h' doc hw
    exact ⟨_, rfl, hw⟩
  · refine Obeys.send trivial ?_
    intro recordedAt
    refine (obeys_updateAndInvalidate id _ ?_).bindReturns ?_
    · intro x hx
      obtain rfl := List.mem_singleton.mp hx
      exact ⟨rfl, rfl⟩
    · intro h' doc hw
      refine Obeys.send trivial ?_
      intro emitted
      exact ⟨_, rfl, hkeeps (List.subset_cons_self _ _) hw⟩

theorem Request.obeys (r : Request) :
    r.serve.Obeys May (Ends reliable) (r.Post reliable) [] := by
  cases r with
  | findById id => exact obeys_findById id
  | findListedById id => exact obeys_findListedById id
  | update id dto => exact obeys_update id dto
  | delist id =>
    refine (obeys_updateAndInvalidate id .delisted (by simp)).mono ?_
    intro h' res hres
    cases res with
    | ok doc => exact hres
    | error e => trivial

end Obeys

def protocol (reliable : ℕ → Prop) (requests : ℕ → Request) :
    Protocol ℕ StockOp StockOp.Reply Exception StockDoc where
  may _ h op := May h op
  ends i op o := Ends (reliable i) op o
  post i h res := (requests i).Post (reliable i) h res

theorem conforms_start (reliable : ℕ → Prop) (store : Store) (requests : ℕ → Request) :
    (State.start store requests).Conforms (protocol reliable requests) :=
  Config.conforms_start fun i => (requests i).obeys

end StockMarket.Stocks
