import StockMarket.Alerts.Service
import StockMarket.Interleaving.Protocol

/-! # Workers side by side

A pool of price events over one collection of alerts, whose handlers interleave
at their operations, die, and meet failing emits. A handler claims an alert
when it marks it, and emits at most one message for every claim.
-/

namespace StockMarket.Alerts
open Interleaving Prog

/-- A price event handed to a worker, with the fuel of its loop. A redelivery
is a further request. -/
structure Request where
  event : PriceUpdatedEvent
  fuel : ℕ
  deriving DecidableEq, Repr

def Request.serve (r : Request) : Call (Option ℕ) := AlertConsumer.onPriceUpdated r.fuel r.event

/-- Nothing but the workers writes. -/
def backend : Backend AlertOp AlertOp.Reply Store Empty where
  exec := exec
  env := Empty.elim

abbrev State := Config ℕ AlertOp AlertOp.Reply Store Exception (Option ℕ)
abbrev LogEntry := Entry ℕ AlertOp AlertOp.Reply
abbrev Schedule := List (Choice ℕ Empty Exception)

/-- The operations of one call with their replies, newest first. -/
abbrev History := List (Reaction AlertOp AlertOp.Reply)

/-- The pool before any event is handled and any message sent. -/
def State.start (store : Store) (requests : ℕ → Request) : State :=
  Config.start { store with outbox := [] } fun i => (requests i).serve

def isClaim (id : String) : Reaction AlertOp AlertOp.Reply → Bool
  | ⟨.updateTriggered ids, _⟩ => id ∈ ids
  | _ => false

def isEmit (id : String) : Reaction AlertOp AlertOp.Reply → Bool
  | ⟨.emit message, _⟩ => message.alertId = some id
  | _ => false

def claims (id : String) (h : History) : ℕ := h.countP (isClaim id)

def emits (id : String) (h : History) : ℕ := h.countP (isEmit id)

/-- A message goes out for an alert the call has claimed more often than it has
sent messages for it. -/
def May (h : History) : AlertOp → Prop
  | .emit message => ∃ id, message.alertId = some id ∧ emits id h < claims id h
  | _ => True

/-- No emit fails, and no mark is made whose reply is lost. -/
def Careful (ends : AlertOp → Outcome Exception → Prop) : Prop :=
  ∀ op o, ends op o →
    match op with
    | .emit _ => o = .done
    | .updateTriggered _ => ∀ e, o ≠ .lost e
    | _ => True

section Walk
variable {ends : AlertOp → Outcome Exception → Prop} {h : History} {ids : List String}

/-- Messages are still to be sent for the claimed alerts `ids`, and if nothing
has failed, for no others. -/
structure Owing (ends : AlertOp → Outcome Exception → Prop) (ids : List String) (h : History) :
    Prop where
  claimed : ∀ id, emits id h + ids.count id ≤ claims id h
  exact : Careful ends → ∀ id, claims id h ≤ emits id h + ids.count id

theorem Owing.read (ho : Owing ends ids h) {op : AlertOp} {reply : op.Reply}
    (hop : ∀ id, ¬isClaim id ⟨op, reply⟩ ∧ ¬isEmit id ⟨op, reply⟩) :
    Owing ends ids (⟨op, reply⟩ :: h) := by
  constructor
  · intro id
    rw [emits, claims, List.countP_cons_of_neg (hop id).2, List.countP_cons_of_neg (hop id).1]
    exact ho.claimed id
  · intro hcareful id
    rw [emits, claims, List.countP_cons_of_neg (hop id).2, List.countP_cons_of_neg (hop id).1]
    exact ho.exact hcareful id

theorem Owing.claim (ho : Owing ends [] h) (hids : ids.Nodup) :
    Owing ends ids (⟨.updateTriggered ids, ()⟩ :: h) := by
  have hcount (id : String) : claims id (⟨.updateTriggered ids, ()⟩ :: h) =
      claims id h + ids.count id := by
    rw [claims, List.countP_cons, ← claims, hids.count]
    simp [isClaim]
  have hsame (id : String) : emits id (⟨.updateTriggered ids, ()⟩ :: h) = emits id h :=
    List.countP_cons_of_neg Bool.false_ne_true
  constructor
  · intro id
    have hold := ho.claimed id
    rw [List.count_nil, Nat.add_zero] at hold
    rw [hcount, hsame]
    omega
  · intro hcareful id
    have hold := ho.exact hcareful id
    rw [List.count_nil, Nat.add_zero] at hold
    rw [hcount, hsame]
    omega

theorem Owing.emit {id : String} (ho : Owing ends (id :: ids) h) {message : PriceAlertMessage}
    (hmessage : message.alertId = some id) : Owing ends ids (⟨.emit message, ()⟩ :: h) := by
  have hcount (id' : String) : emits id' (⟨.emit message, ()⟩ :: h) =
      emits id' h + if id = id' then 1 else 0 := by
    rw [emits, List.countP_cons, ← emits]
    simp [isEmit, hmessage]
  have hsame (id' : String) : claims id' (⟨.emit message, ()⟩ :: h) = claims id' h :=
    List.countP_cons_of_neg Bool.false_ne_true
  constructor
  · intro id'
    have hold := ho.claimed id'
    rw [List.count_cons] at hold
    rw [hcount, hsame]
    simp only [beq_iff_eq] at hold
    omega
  · intro hcareful id'
    have hold := ho.exact hcareful id'
    rw [List.count_cons] at hold
    rw [hcount, hsame]
    simp only [beq_iff_eq] at hold
    omega

/-- Where something may fail, a message may be given up. -/
theorem Owing.drop (first : List String) (ho : Owing ends (first ++ ids) h)
    (hcareless : ¬Careful ends) : Owing ends ids h where
  claimed id := by
    have hold := ho.claimed id
    rw [List.count_append] at hold
    omega
  exact hcareful := absurd hcareful hcareless

theorem Owing.drop_all (ho : Owing ends ids h) (hcareless : ¬Careful ends) : Owing ends [] h :=
  (show Owing ends (ids ++ []) h from ids.append_nil.symm ▸ ho).drop ids hcareless

theorem Owing.may {id : String} (ho : Owing ends (id :: ids) h) {message : PriceAlertMessage}
    (hmessage : message.alertId = some id) : May h (.emit message) := by
  refine ⟨id, hmessage, ?_⟩
  have hold := ho.claimed id
  rw [List.count_cons_self] at hold
  omega

theorem owing_nil (ends : AlertOp → Outcome Exception → Prop) : Owing ends [] [] where
  claimed _ := Nat.le_refl _
  exact _ _ := Nat.le_refl _

variable {event : PriceUpdatedEvent}

/-- The messages before `later` are sent or given up, and given up only where
something has failed. -/
def Sent (ends : AlertOp → Outcome Exception → Prop) (later : List String) {α : Type} (h : History)
    (res : Except Exception α) : Prop :=
  Owing ends later h ∧ (Careful ends → ∃ a, res = .ok a)

theorem Sent.settled {α : Type} {later : List String} {e : Exception}
    (hs : Sent ends later h (.error e : Except Exception α)) : Owing ends [] h := by
  have hcareless : ¬Careful ends := fun hcareful => by
    obtain ⟨a, ha⟩ := hs.2 hcareful
    cases ha
  exact hs.1.drop_all hcareless

theorem obeys_emitChunk (chunk : List Alert) {later : List String}
    (ho : Owing ends (chunk.map Alert.id ++ later) h) :
    (AlertConsumer.emitChunk event chunk).Obeys May ends (Sent ends later) h := by
  induction chunk generalizing h with
  | nil => exact ⟨ho, fun _ => ⟨(), rfl⟩⟩
  | cons alert chunk ih =>
    -- The error of a failed emit waits until the rest of the chunk is sent.
    have hrest {h' : History} (res : Except Exception Unit)
        (hres : Careful ends → res = .ok ()) (ho' : Owing ends (chunk.map Alert.id ++ later) h') :
        ((AlertConsumer.emitChunk event chunk).handle (andThen fun _ => ofExcept res)).Obeys May
          ends (Sent ends later) h' := by
      apply (ih ho').handle
      intro h'' done hdone
      cases done with
      | error e => exact hdone
      | ok a =>
        rw [andThen_ok, obeys_ofExcept]
        exact ⟨hdone.1, fun hcareful => ⟨(), hres hcareful⟩⟩
    apply Obeys.call (AlertOp.emit (AlertConsumer.message event alert)) (ho.may rfl)
    · intro _ _
      exact hrest (.ok ()) (fun _ => rfl) (ho.emit rfl)
    · intro e hend
      have hcareless : ¬Careful ends := fun hcareful => by cases hcareful _ _ hend
      exact hrest (.error e) (absurd · hcareless) (ho.drop [alert.id] hcareless)
    · intro e hend _
      have hcareless : ¬Careful ends := fun hcareful => by cases hcareful _ _ hend
      exact hrest (.error e) (absurd · hcareless) (ho.emit rfl)

theorem obeys_emitChunks (chunks : List (List Alert)) (totalTriggered : ℕ)
    (ho : Owing ends (chunks.flatten.map Alert.id) h) :
    (AlertConsumer.emitChunks event chunks totalTriggered).Obeys May ends
      (fun h' _ => Owing ends [] h') h := by
  induction chunks generalizing totalTriggered h with
  | nil => exact ho
  | cons chunk chunks ih =>
    rw [List.flatten_cons, List.map_append] at ho
    exact (obeys_emitChunk chunk ho).bind (fun h' a hs => ih _ hs.1) fun h' e hs => hs.settled

theorem obeys_announce (alerts : Collection) (totalTriggered : ℕ) (ho : Owing ends [] h) :
    (AlertConsumer.announce event alerts.docs totalTriggered).Obeys May ends
      (fun h' _ => Owing ends [] h') h := by
  have hids : ((alerts.docs.filter (fires event.newPrice)).map Alert.id).Nodup :=
    alerts.nodup.sublist (List.filter_sublist.map _)
  rw [AlertConsumer.announce]
  split
  · apply Obeys.step
    · trivial
    · intro _ updated
      apply obeys_emitChunks
      rw [Paging.chunks_flatten (by decide)]
      exact ho.claim hids
    · exact fun _ _ => ho
    · intro e hend _
      have hcareless : ¬Careful ends := fun hcareful => hcareful _ _ hend e rfl
      exact (ho.claim hids).drop_all hcareless
  · exact ho

/-- Between two batches nothing is owed, and so at the end, however it comes. -/
theorem obeys_pages (fuel page totalTriggered : ℕ) (ho : Owing ends [] h) :
    (AlertConsumer.pages event fuel page totalTriggered).Obeys May ends
      (fun h' _ => Owing ends [] h') h := by
  induction fuel generalizing page totalTriggered h with
  | zero => exact ho
  | succ fuel ih =>
    have hread {reply : Collection} : Owing ends [] (⟨.findWaiting event.stockId
        (page * AlertConsumer.BATCH_SIZE) (some AlertConsumer.BATCH_SIZE), reply⟩ :: h) :=
      ho.read fun _ => ⟨Bool.false_ne_true, Bool.false_ne_true⟩
    apply Obeys.step
    · trivial
    · intro _ alerts
      split
      · exact hread
      · apply (obeys_announce alerts totalTriggered hread).bind
        · intro h' total ho'
          split
          · exact ho'
          · exact ih _ _ ho'
        · exact fun h' e ho' => ho'
    · exact fun _ _ => ho
    · exact fun _ _ _ => hread

end Walk

/-- The protocol of a pool of workers whose operations end as `ends` allows. -/
def protocol (ends : AlertOp → Outcome Exception → Prop) :
    Protocol ℕ AlertOp AlertOp.Reply Exception (Option ℕ) where
  may _ := May
  ends _ := ends
  post _ h _ := Owing ends [] h

theorem conforms_start (ends : AlertOp → Outcome Exception → Prop) (store : Store)
    (requests : ℕ → Request) : (State.start store requests).Conforms (protocol ends) :=
  Config.conforms_start fun i => obeys_pages (requests i).fuel 0 0 (owing_nil ends)

end StockMarket.Alerts
