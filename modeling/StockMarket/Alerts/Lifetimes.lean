import StockMarket.Alerts.Service
import StockMarket.Interleaving.Interpretation
import StockMarket.Ties
import StockMarket.Trading.History

/-! # Alerts from their creation to their removal

Members create and remove alerts in the trading service, which keeps them in
`pricealerts`. The alert worker reads a collection of its own, `alerts`, and what it
announces is never an alert that a member has created. The requests of both interleave at
their operations, and the stocks and traders they read change meanwhile.
-/

namespace StockMarket.Alerts
open Interleaving Prog
open Trading (Time)

/-- The body of `POST /alerts` and its validators. -/
structure CreateAlertDto where
  stockId : String
  targetPrice : ℚ
  direction : Direction
  decimals : HasDecimals 2 targetPrice
  positive : 0 < targetPrice
  deriving DecidableEq

namespace Collection

def insert (c : Collection) (alert : Alert) (h : alert.id ∉ c.docs.map Alert.id) : Collection :=
  ⟨c.docs ++ [alert], by
    rw [List.map_append, List.nodup_append]
    refine ⟨c.nodup, List.nodup_singleton _, fun id hid id' hid' heq => h ?_⟩
    obtain rfl := List.mem_singleton.mp hid'
    exact heq ▸ hid⟩

/-- `deleteOne({ _id: id })` -/
def remove (c : Collection) (id : String) : Collection := c.find fun alert => alert.id ≠ id

end Collection

/-- The worker's store, whose `alerts` only the worker knows, and the trading service's
alerts with what they are sorted by. -/
structure System where
  store : Store
  priceAlerts : Collection
  createdAt : String → Time
  now : Time

/-- `alertModel` is the trading service's, of `pricealerts`. -/
inductive SystemOp where
  | worker (op : AlertOp)
  | findStock (stockId : String)
  | findTrader (memberId : String)
  /-- `alertModel.create(alert)`, under an id that Mongoose has generated -/
  | create (alert : Alert)
  /-- `alertModel.find({ memberId }).sort({ createdAt: -1 })` -/
  | findByMember (memberId : String)
  /-- `alertModel.findOne({ _id: id, memberId })` -/
  | findOne (id memberId : String)
  | deleteOne (id : String)
  deriving DecidableEq

/-- A creation answers whether the id was new. -/
abbrev SystemOp.Reply : SystemOp → Type
  | .worker op => op.Reply
  | .findStock _ => Option Trading.Stock
  | .findTrader _ => Option Trading.Trader
  | .create _ => Bool
  | .findByMember _ => List Alert
  | .findOne _ _ => Option Alert
  | .deleteOne _ => Unit

/-- `sort({ createdAt: -1 })` -/
abbrev newestFirst (createdAt : String → Time) (a b : Alert) : Prop :=
  createdAt b.id ≤ createdAt a.id

instance (createdAt : String → Time) : Std.Total (newestFirst createdAt) :=
  ⟨fun a b => le_total (createdAt b.id) (createdAt a.id)⟩

instance (createdAt : String → Time) : IsTrans Alert (newestFirst createdAt) :=
  ⟨fun _ _ _ hab hbc => hbc.trans hab⟩

section Backend
variable (sorting : (createdAt : String → Time) → Ties.Sorting (newestFirst createdAt))

def execSystem : (op : SystemOp) → System → op.Reply × System
  | .worker op, s => ((exec op s.store).1, { s with store := (exec op s.store).2 })
  | .findStock stockId, s => (s.store.stocks stockId, s)
  | .findTrader memberId, s => (s.store.traders memberId, s)
  | .create alert, s =>
      if h : alert.id ∈ s.priceAlerts.docs.map Alert.id then (false, s)
      else
        (true, { s with
          priceAlerts := s.priceAlerts.insert alert h
          createdAt := Function.update s.createdAt alert.id s.now })
  | .findByMember memberId, s =>
      ((sorting s.createdAt).order (s.priceAlerts.docs.filter fun a => a.memberId = memberId), s)
  | .findOne id memberId, s =>
      (s.priceAlerts.docs.find? fun a => a.id = id ∧ a.memberId = memberId, s)
  | .deleteOne id, s => ((), { s with priceAlerts := s.priceAlerts.remove id })

inductive Change where
  | tick (now : Time)
  | stock (id : String) (doc : Option Trading.Stock)
  | trader (id : String) (doc : Option Trading.Trader)

def Change.apply : Change → System → System
  | .tick now, s => { s with now }
  | .stock id doc, s =>
      { s with store := { s.store with stocks := Function.update s.store.stocks id doc } }
  | .trader id doc, s =>
      { s with store := { s.store with traders := Function.update s.store.traders id doc } }

def systemBackend : Backend SystemOp SystemOp.Reply System Change where
  exec := execSystem sorting
  env := Change.apply

end Backend

abbrev SystemCall (α : Type) := Prog SystemOp SystemOp.Reply Exception α

abbrev await (op : SystemOp) : SystemCall op.Reply := Prog.send op

/-- A call of the worker among the requests of the service. -/
def lift {α : Type} (p : Call α) : SystemCall α := p.substitute fun op => await (.worker op)

namespace AlertService
open Trading.OrderService (invalidId)

def newAlert (id memberId stockId : ObjectId) (dto : CreateAlertDto) (stock : Trading.Stock)
    (trader : Trading.Trader) : Alert where
  id := id.text
  memberId := memberId.text
  stockId := stockId.text
  ticker := stock.ticker
  targetPrice := .bson (some dto.targetPrice)
  direction := dto.direction
  triggered := false
  memberEmail := trader.email
  memberName := trader.fullName

/-- The `required` validators of `PriceAlert`. -/
def Valid (alert : Alert) : Prop :=
  alert.ticker ≠ "" ∧ alert.memberEmail ≠ "" ∧ alert.memberName ≠ ""

instance (alert : Alert) : Decidable (Valid alert) := inferInstanceAs (Decidable (_ ∧ _))

/-- `create(memberId, dto)`, with the id Mongoose generates for the document. -/
@[irreducible] def create (id : ObjectId) (memberId : String) (dto : CreateAlertDto) :
    SystemCall Alert :=
  match ObjectId.parse? dto.stockId with
  | none => .raise invalidId
  | some stockId => do
      let stock ← await (.findStock stockId.text)
      match stock with
      | none => .raise (.notFound "Stock not found")
      | some stock =>
          match ObjectId.parse? memberId with
          | none => .raise invalidId
          | some memberId => do
              let trader ← await (.findTrader memberId.text)
              match trader with
              | none => .raise (.notFound "Trader profile not found")
              | some trader => do
                  let alert := newAlert id memberId stockId dto stock trader
                  if Valid alert then do
                    let created ← await (.create alert)
                    if created then pure alert else .raise (.driver "E11000 duplicate key error")
                  else .raise (.driver "PriceAlert validation failed")

@[irreducible] def findByMember (memberId : String) : SystemCall (List Alert) :=
  match ObjectId.parse? memberId with
  | none => .raise invalidId
  | some memberId => await (.findByMember memberId.text)

@[irreducible] def remove (alertId : ObjectId) (memberId : String) : SystemCall Unit :=
  match ObjectId.parse? memberId with
  | none => .raise invalidId
  | some memberId => do
      let alert ← await (.findOne alertId.text memberId.text)
      match alert with
      | none => .raise (.notFound "Alert not found")
      | some _ => await (.deleteOne alertId.text)

end AlertService

inductive SystemRequest where
  | create (id : ObjectId) (memberId : String) (dto : CreateAlertDto)
  | findAll (memberId : String)
  | remove (alertId : ObjectId) (memberId : String)
  /-- the worker's handler, with the fuel of its loop: its module has it as a provider
  only, so that as things stand no event arrives at it -/
  | priceUpdated (event : PriceUpdatedEvent) (fuel : ℕ)
  deriving DecidableEq

inductive Answer where
  | alert (alert : Alert)
  | alerts (alerts : List Alert)
  | removed
  | handled
  deriving DecidableEq

namespace SystemRequest

def serve : SystemRequest → SystemCall Answer
  | .create id memberId dto => .alert <$> AlertService.create id memberId dto
  | .findAll memberId => .alerts <$> AlertService.findByMember memberId
  | .remove alertId memberId => (fun _ => .removed) <$> AlertService.remove alertId memberId
  | .priceUpdated event fuel =>
      (fun _ => .handled) <$> lift (AlertConsumer.onPriceUpdated fuel event)

/-- The request is to create this alert, for the member it is from. -/
def Makes (alert : Alert) : SystemRequest → Prop
  | .create id memberId dto => ∃ member stockId stock trader,
      ObjectId.parse? memberId = some member ∧ ObjectId.parse? dto.stockId = some stockId ∧
        alert = AlertService.newAlert id member stockId dto stock trader
  | _ => False

/-- The request is to remove the alert of this id, from this member. -/
def Removes (id memberId : String) : SystemRequest → Prop
  | .remove alertId member => alertId.text = id ∧
      (ObjectId.parse? member).map ObjectId.text = some memberId
  | _ => False

end SystemRequest

/-- What a message of the worker says is true of the alert it was sent for. -/
structure Announces (message : PriceAlertMessage) (price : ℚ) (alert : Alert) : Prop where
  user : message.userId = alert.memberId
  targetPrice : message.targetPrice = alert.targetPrice.parseFloat
  direction : message.direction = alert.direction
  currentPrice : message.currentPrice = price
  fires : fires price alert
  alertId : message.alertId = some alert.id

section Announcing
variable {stockId : String} {price : ℚ} {h : List (Reaction AlertOp AlertOp.Reply)}
  {ends : AlertOp → Outcome Exception → Prop} {alerts : List Alert}

/-- A message goes out for an alert that was read as waiting, at a price it fires at. -/
def mayAnnounce (stockId : String) (price : ℚ) (h : List (Reaction AlertOp AlertOp.Reply)) :
    AlertOp → Prop
  | .emit message => ∃ skip limit reply alert, ⟨.findWaiting stockId skip limit, reply⟩ ∈ h ∧
      alert ∈ reply.docs ∧ Announces message price alert
  | _ => True

def ForAlerts (price : ℚ) (alerts : List Alert) : AlertOp → Prop
  | .emit message => ∃ alert ∈ alerts, Announces message price alert
  | _ => True

theorem mayAnnounce_of_read {skip : ℕ} {limit : Option ℕ} {reply : Collection}
    (hread : ⟨.findWaiting stockId skip limit, reply⟩ ∈ h)
    (h' : List (Reaction AlertOp AlertOp.Reply)) (op : AlertOp) (hsuffix : h <:+ h')
    (hop : ForAlerts price reply.docs op) : mayAnnounce stockId price h' op := by
  cases op with
  | emit message =>
    obtain ⟨alert, halert, hmessage⟩ := hop
    exact ⟨skip, limit, reply, alert, hsuffix.subset hread, halert, hmessage⟩
  | _ => trivial

theorem sends_emitChunk {event : PriceUpdatedEvent} {chunk : List Alert}
    (hchunk : ∀ alert ∈ chunk, alert ∈ alerts ∧ fires event.newPrice alert) :
    (AlertConsumer.emitChunk event chunk).Sends (ForAlerts event.newPrice alerts) := by
  induction chunk with
  | nil => trivial
  | cons alert chunk ih =>
    obtain ⟨⟨halert, hfires⟩, hrest⟩ := List.forall_mem_cons.mp hchunk
    have hmessage : Announces (AlertConsumer.message event alert) event.newPrice alert :=
      ⟨rfl, rfl, rfl, rfl, hfires, rfl⟩
    rw [AlertConsumer.emitChunk, finallyDo]
    refine (sends_send ⟨alert, halert, hmessage⟩).handle ?_
    intro res
    apply (ih hrest).handle
    intro done
    cases done with
    | error e => trivial
    | ok a => cases res <;> trivial

theorem sends_emitChunks {event : PriceUpdatedEvent} {chunks : List (List Alert)}
    (hchunks : ∀ alert ∈ chunks.flatten, alert ∈ alerts ∧ fires event.newPrice alert)
    (total : ℕ) :
    (AlertConsumer.emitChunks event chunks total).Sends (ForAlerts event.newPrice alerts) := by
  induction chunks generalizing total with
  | nil => trivial
  | cons chunk chunks ih =>
    rw [List.flatten_cons] at hchunks
    refine (sends_emitChunk fun alert halert => hchunks alert ?_).bind fun _ =>
      ih (fun alert halert => hchunks alert ?_) _
    · exact List.mem_append_left _ halert
    · exact List.mem_append_right _ halert

theorem sends_announce (event : PriceUpdatedEvent) (alerts : List Alert) (total : ℕ) :
    (AlertConsumer.announce event alerts total).Sends (ForAlerts event.newPrice alerts) := by
  rw [AlertConsumer.announce]
  split
  · refine Sends.send trivial ?_
    intro updated
    apply sends_emitChunks
    intro alert halert
    rw [Paging.chunks_flatten (by decide)] at halert
    exact ⟨(List.mem_filter.mp halert).1, (List.mem_filter.mp halert).2⟩
  · trivial

theorem obeys_worker (event : PriceUpdatedEvent) (fuel page total : ℕ) :
    (AlertConsumer.pages event fuel page total).Obeys (mayAnnounce event.stockId event.newPrice)
      ends (fun _ _ => True) h := by
  induction fuel generalizing page total h with
  | zero => trivial
  | succ fuel ih =>
    apply Obeys.step
    · trivial
    · intro _ alerts
      split
      · trivial
      · have hannounce : (AlertConsumer.announce event alerts.docs total).Obeys
            (mayAnnounce event.stockId event.newPrice) ends (fun _ _ => True)
            (⟨.findWaiting event.stockId (page * AlertConsumer.BATCH_SIZE)
              (some AlertConsumer.BATCH_SIZE), alerts⟩ :: h) := by
          apply (Obeys.of_sends_from (sends_announce event alerts.docs total) ?_).mono
          · exact fun _ _ _ => trivial
          · exact fun h' op => mayAnnounce_of_read List.mem_cons_self h' op
        apply hannounce.bind
        · intro h' total' _
          split
          · trivial
          · exact ih _ _
        · exact fun _ _ _ => trivial
    · exact fun _ _ => trivial
    · exact fun _ _ _ => trivial

end Announcing

section Protocol

abbrev SystemHistory := List (Reaction SystemOp SystemOp.Reply)

def SystemOp.isCreate : SystemOp → Bool
  | .create _ => true
  | _ => false

def maySystem (r : SystemRequest) (h : SystemHistory) : SystemOp → Prop
  | .worker (.emit message) => ∃ event fuel skip limit reply alert,
      r = .priceUpdated event fuel ∧
        ⟨.worker (.findWaiting event.stockId skip limit), reply⟩ ∈ h ∧
          alert ∈ Collection.docs reply ∧ Announces message event.newPrice alert
  | .create alert => r.Makes alert ∧ ∀ x ∈ h, x.op.isCreate = false
  | .deleteOne id => ∃ memberId alert, r.Removes id memberId ∧
      ⟨.findOne id memberId, some alert⟩ ∈ h
  | _ => True

/-- Where an answer comes from. -/
def Answered (h : SystemHistory) : SystemRequest → Answer → Prop
  | .remove alertId _, _ => ⟨.deleteOne alertId.text, ()⟩ ∈ h
  | .findAll _, .alerts alerts => ∃ memberId, ⟨.findByMember memberId, alerts⟩ ∈ h
  | _, _ => True

def systemProtocol (requests : ℕ → SystemRequest) :
    Protocol ℕ SystemOp SystemOp.Reply Exception Answer where
  may i := maySystem (requests i)
  ends _ _ _ := True
  post i := Returns fun h answer => Answered h (requests i) answer

/-- What the worker has had answered is in the history of the system. -/
def Told (h : List (Reaction AlertOp AlertOp.Reply)) (h' : SystemHistory) : Prop :=
  ∀ x ∈ h, (⟨.worker x.op, x.reply⟩ : Reaction SystemOp SystemOp.Reply) ∈ h'

theorem told_nil : Told [] [] := by
  intro x hx
  cases hx

theorem Told.cons {h : List (Reaction AlertOp AlertOp.Reply)} {h' : SystemHistory}
    (htold : Told h h') {op : AlertOp} {reply : op.Reply} :
    Told (⟨op, reply⟩ :: h) (⟨.worker op, reply⟩ :: h') := by
  intro x hx
  rcases List.mem_cons.mp hx with rfl | hx
  · exact List.mem_cons_self
  · exact List.mem_cons_of_mem _ (htold x hx)

theorem obeys_lift {α : Type} {p : Call α} (event : PriceUpdatedEvent) (fuel : ℕ)
    (hp : p.Obeys (mayAnnounce event.stockId event.newPrice) (fun _ _ => True) (fun _ _ => True)
      []) :
    (lift p).Obeys (maySystem (.priceUpdated event fuel)) (fun _ _ => True)
      (Returns fun _ _ => True) [] := by
  have hbody (op : AlertOp) (h : List (Reaction AlertOp AlertOp.Reply)) (h' : SystemHistory)
      (htold : Told h h') (hop : mayAnnounce event.stockId event.newPrice h op) :
      (await (.worker op)).Obeys (maySystem (.priceUpdated event fuel)) (fun _ _ => True)
        (Answers (fun _ _ => True) Told h op) h' := by
    apply Obeys.once (SystemOp.worker op)
    · cases op with
      | emit message =>
        obtain ⟨skip, limit, reply, alert, hread, halert, hmessage⟩ := hop
        exact ⟨event, fuel, skip, limit, reply, alert, rfl, htold _ hread, halert, hmessage⟩
      | _ => trivial
    · exact fun _ reply => ⟨trivial, htold.cons⟩
    · exact fun e _ => .inl ⟨trivial, htold⟩
    · exact fun e _ reply => .inr ⟨trivial, reply, htold.cons⟩
  apply (Obeys.substitute hbody hp told_nil).mono
  intro h' res _
  cases res <;> trivial

theorem obeys_create (id : ObjectId) (memberId : String) (dto : CreateAlertDto) :
    (AlertService.create id memberId dto).Obeys (maySystem (.create id memberId dto))
      (fun _ _ => True) (Returns fun _ _ => True) [] := by
  rw [AlertService.create]
  rcases hstock : ObjectId.parse? dto.stockId with _ | stockId
  · trivial
  apply Obeys.send trivial
  intro stock
  cases stock with
  | none => trivial
  | some stock =>
    dsimp only
    rcases hmember : ObjectId.parse? memberId with _ | member
    · trivial
    apply Obeys.send trivial
    intro trader
    cases trader with
    | none => trivial
    | some trader =>
      have hmakes : (SystemRequest.create id memberId dto).Makes
          (AlertService.newAlert id member stockId dto stock trader) :=
        ⟨member, stockId, stock, trader, hmember, hstock, rfl⟩
      dsimp only
      split
      · apply Obeys.send ⟨hmakes, by simp [SystemOp.isCreate]⟩
        intro created
        cases created <;> trivial
      · trivial

theorem obeys_findByMember (memberId : String) :
    (AlertService.findByMember memberId).Obeys (maySystem (.findAll memberId)) (fun _ _ => True)
      (Returns fun h alerts => Answered h (.findAll memberId) (.alerts alerts)) [] := by
  rw [AlertService.findByMember]
  rcases ObjectId.parse? memberId with _ | member
  · trivial
  · refine Obeys.last (SystemOp.findByMember member.text) trivial ?_
    intro alerts
    exact ⟨member.text, List.mem_cons_self⟩

theorem obeys_remove (alertId : ObjectId) (memberId : String) :
    (AlertService.remove alertId memberId).Obeys (maySystem (.remove alertId memberId))
      (fun _ _ => True) (Returns fun h _ => Answered h (.remove alertId memberId) .removed) [] := by
  rw [AlertService.remove]
  rcases hmember : ObjectId.parse? memberId with _ | member
  · trivial
  apply Obeys.send trivial
  intro found
  cases found with
  | none => trivial
  | some alert =>
    have hremoves : (SystemRequest.remove alertId memberId).Removes alertId.text member.text :=
      ⟨rfl, by rw [hmember]; rfl⟩
    refine Obeys.last (SystemOp.deleteOne alertId.text) ?_ ?_
    · exact ⟨member.text, alert, hremoves, List.mem_cons_self⟩
    · exact fun _ => List.mem_cons_self

theorem SystemRequest.obeys_serve (r : SystemRequest) :
    r.serve.Obeys (maySystem r) (fun _ _ => True) (Returns fun h answer => Answered h r answer)
      [] := by
  cases r with
  | create id memberId dto => exact (obeys_create id memberId dto).map fun _ _ _ => trivial
  | findAll memberId => exact (obeys_findByMember memberId).map fun _ _ halerts => halerts
  | remove alertId memberId => exact (obeys_remove alertId memberId).map fun _ _ hgone => hgone
  | priceUpdated event fuel =>
    exact (obeys_lift event fuel (obeys_worker event fuel 0 0)).map fun _ _ _ => trivial

end Protocol

abbrev SystemState := Config ℕ SystemOp SystemOp.Reply System Exception Answer
abbrev SystemLog := List (Entry ℕ SystemOp SystemOp.Reply)
abbrev SystemSchedule := List (Choice ℕ Change Exception)

/-- Before the first request, and before any message. -/
def SystemState.start (s : System) (requests : ℕ → SystemRequest) : SystemState :=
  Config.start { s with store := { s.store with outbox := [] } } fun i => (requests i).serve

abbrev stateAfter
    (sorting : (createdAt : String → Time) → Ties.Sorting (newestFirst createdAt)) (s : System)
    (requests : ℕ → SystemRequest) (sched : SystemSchedule) : SystemState :=
  (SystemState.start s requests).run (systemBackend sorting) sched

def anySystemSchedule : Assumption ℕ SystemOp SystemOp.Reply System Change Exception where
  call _ _ _ _ _ := True
  env _ := True

/-- An alert without its mark. -/
def Alert.terms (alert : Alert) : Alert := { alert with triggered := false }

section Grounds
variable (start : System) (requests : ℕ → SystemRequest)

/-- The alert was there from the start, or a member has asked for it. -/
def Made (alert : Alert) : Prop := alert ∈ start.priceAlerts.docs ∨ ∃ i, (requests i).Makes alert

/-- Up to its mark the worker has had the alert from the start. -/
def Kept (alert : Alert) : Prop := ∃ old ∈ start.store.alerts.docs, old.terms = alert.terms

/-- The message is for an alert that the worker has had from the start, at a price that was
reported for its stock. -/
def Caused (message : PriceAlertMessage) : Prop :=
  ∃ i event fuel, requests i = .priceUpdated event fuel ∧
    ∃ alert ∈ start.store.alerts.docs, alert.stockId = event.stockId ∧
      Announces message event.newPrice alert

/-- The id is that of an alert from the start, or has been used to create one. -/
def Known (log : SystemLog) (id : String) : Prop :=
  id ∈ start.priceAlerts.docs.map Alert.id ∨
    ∃ i alert reply, ⟨i, .create alert, reply⟩ ∈ log ∧ alert.id = id

/-- What is stored, read and sent has its ground in the start or in a request. -/
structure Grounded (s : System) (log : SystemLog) : Prop where
  stored : ∀ alert ∈ s.priceAlerts.docs, Made start requests alert ∧ Known start log alert.id
  found : ∀ i id memberId alert, ⟨i, .findOne id memberId, some alert⟩ ∈ log →
    Made start requests alert ∧ Known start log id ∧ alert.id = id ∧ alert.memberId = memberId
  kept : ∀ alert ∈ s.store.alerts.docs, Kept start alert
  read : ∀ i stockId skip limit reply,
    ⟨i, .worker (.findWaiting stockId skip limit), reply⟩ ∈ log →
      ∀ alert ∈ Collection.docs reply, Kept start alert ∧ alert.stockId = stockId
  sent : ∀ message ∈ s.store.outbox, Caused start requests message

end Grounds

section Step
variable {sorting : (createdAt : String → Time) → Ties.Sorting (newestFirst createdAt)}
  {start : System} {requests : ℕ → SystemRequest} {s : System} {log : SystemLog}
  {alert old : Alert} {op : SystemOp} {i : ℕ}

theorem Known.cons {id : String} (h : Known start log id) (e : Entry ℕ SystemOp SystemOp.Reply) :
    Known start (e :: log) id := by
  obtain hstart | ⟨j, alert, reply, hcreated, hid⟩ := h
  · exact .inl hstart
  · exact .inr ⟨j, alert, reply, List.mem_cons_of_mem _ hcreated, hid⟩

theorem terms_mark (ids : List String) (alert : Alert) :
    (Collection.mark ids alert).terms = alert.terms := by
  unfold Collection.mark
  split <;> rfl

theorem Announces.congr {message : PriceAlertMessage} {price : ℚ}
    (h : Announces message price alert) (hterms : old.terms = alert.terms) :
    Announces message price old := by
  have hunmarked : Announces message price alert.terms :=
    ⟨h.user, h.targetPrice, h.direction, h.currentPrice, h.fires, h.alertId⟩
  rw [← hterms] at hunmarked
  exact ⟨hunmarked.user, hunmarked.targetPrice, hunmarked.direction, hunmarked.currentPrice,
    hunmarked.fires, hunmarked.alertId⟩

/-- An operation leaves the members' alerts as they were, or creates one. -/
theorem docs_execSystem (h : alert ∈ (execSystem sorting op s).2.priceAlerts.docs) :
    alert ∈ s.priceAlerts.docs ∨ op = .create alert := by
  cases op with
  | create new =>
    simp only [execSystem] at h
    split at h
    · exact .inl h
    · rcases List.mem_append.mp h with h | h
      · exact .inl h
      · obtain rfl := List.mem_singleton.mp h
        exact .inr rfl
  | deleteOne id => exact .inl (List.mem_filter.mp h).1
  | _ => exact .inl h

/-- No operation changes more of the worker's alerts than their marks. -/
theorem terms_execSystem (h : alert ∈ (execSystem sorting op s).2.store.alerts.docs) :
    ∃ old ∈ s.store.alerts.docs, old.terms = alert.terms := by
  cases op with
  | worker op =>
    cases op with
    | updateTriggered ids =>
      obtain ⟨old, hold, rfl⟩ := List.mem_map.mp h
      exact ⟨old, hold, (terms_mark ids old).symm⟩
    | _ => exact ⟨alert, h, rfl⟩
  | create new =>
    simp only [execSystem] at h
    split at h <;> exact ⟨alert, h, rfl⟩
  | _ => exact ⟨alert, h, rfl⟩

theorem outbox_execSystem {message : PriceAlertMessage}
    (h : message ∈ (execSystem sorting op s).2.store.outbox) :
    message ∈ s.store.outbox ∨ op = .worker (.emit message) := by
  cases op with
  | worker op =>
    cases op with
    | emit new =>
      rcases List.mem_append.mp h with h | h
      · exact .inl h
      · obtain rfl := List.mem_singleton.mp h
        exact .inr rfl
    | _ => exact .inl h
  | create new =>
    simp only [execSystem] at h
    split at h <;> exact .inl h
  | _ => exact .inl h

theorem mem_findWaiting {stockId : String} {skip : ℕ} {limit : Option ℕ}
    (h : alert ∈ (exec (.findWaiting stockId skip limit) s.store).1.docs) :
    alert ∈ s.store.alerts.docs ∧ alert.stockId = stockId := by
  have hwaiting : alert ∈ s.store.alerts.docs.filter (Collection.waiting stockId) := by
    cases limit with
    | none => exact List.mem_of_mem_drop h
    | some n => exact List.mem_of_mem_drop (List.mem_of_mem_take h)
  obtain ⟨hmem, hstock⟩ := List.mem_filter.mp hwaiting
  exact ⟨hmem, (of_decide_eq_true hstock).1⟩

theorem Grounded.exec (h : Grounded start requests s log)
    (hop : maySystem (requests i) (own i log) op) :
    Grounded start requests (execSystem sorting op s).2
      (⟨i, op, (execSystem sorting op s).1⟩ :: log) := by
  constructor
  · intro alert halert
    rcases docs_execSystem halert with hold | rfl
    · exact ⟨(h.stored alert hold).1, (h.stored alert hold).2.cons _⟩
    · exact ⟨.inr ⟨i, hop.1⟩, .inr ⟨i, alert, _, List.mem_cons_self, rfl⟩⟩
  · intro j id memberId alert hfound
    rcases List.mem_cons.mp hfound with hnew | hfound
    · rw [Entry.mk.injEq] at hnew
      obtain ⟨rfl, hnew⟩ := hnew
      obtain ⟨rfl, hreply⟩ := reaction_eq hnew.symm
      have hfind : s.priceAlerts.docs.find? (fun a => a.id = id ∧ a.memberId = memberId) =
          some alert := hreply
      have hmem := List.mem_of_find?_eq_some hfind
      obtain ⟨rfl, rfl⟩ : alert.id = id ∧ alert.memberId = memberId := by
        simpa using List.find?_some hfind
      exact ⟨(h.stored alert hmem).1, (h.stored alert hmem).2.cons _, rfl, rfl⟩
    · obtain ⟨hmade, hknown, hfields⟩ := h.found j id memberId alert hfound
      exact ⟨hmade, hknown.cons _, hfields⟩
  · intro alert halert
    obtain ⟨old, hold, hterms⟩ := terms_execSystem halert
    obtain ⟨first, hfirst, hsame⟩ := h.kept old hold
    exact ⟨first, hfirst, hsame.trans hterms⟩
  · intro j stockId skip limit reply hread
    rcases List.mem_cons.mp hread with hnew | hread
    · cases hnew
      intro alert halert
      obtain ⟨hmem, hstock⟩ := mem_findWaiting halert
      exact ⟨h.kept alert hmem, hstock⟩
    · exact h.read j stockId skip limit reply hread
  · intro message hmessage
    rcases outbox_execSystem hmessage with hold | rfl
    · exact h.sent message hold
    · obtain ⟨event, fuel, skip, limit, reply, alert, hrequest, hread, halert, hsays⟩ := hop
      obtain ⟨⟨old, hold, hterms⟩, hstock⟩ :=
        h.read i event.stockId skip limit reply (mem_own.mp hread) alert halert
      have hsame : old.terms.stockId = alert.terms.stockId := congrArg Alert.stockId hterms
      exact ⟨i, event, fuel, hrequest, old, hold, hsame.trans hstock, hsays.congr hterms⟩

theorem Grounded.change (h : Grounded start requests s log) (x : Change) :
    Grounded start requests (x.apply s) log := by
  cases x <;> exact ⟨h.stored, h.found, h.kept, h.read, h.sent⟩

end Step

/-- Mongoose generates every id once. -/
structure Fresh (start : System) (requests : ℕ → SystemRequest) : Prop where
  start : ∀ i id memberId dto, requests i = .create id memberId dto →
    id.text ∉ start.priceAlerts.docs.map Alert.id
  once : ∀ i j id memberId memberId' dto dto', requests i = .create id memberId dto →
    requests j = .create id memberId' dto' → i = j

section Run
variable {sorting : (createdAt : String → Time) → Ties.Sorting (newestFirst createdAt)}
  {s : System} {requests : ℕ → SystemRequest} {sched before later : SystemSchedule}

theorem fits_anySystemSchedule : anySystemSchedule.Fits (systemProtocol requests) :=
  fun _ _ _ _ _ _ => trivial

theorem along_anySystemSchedule (c : SystemState) (sched : SystemSchedule) :
    anySystemSchedule.Along (systemBackend sorting) c sched :=
  Assumption.along_of_forall _ _ (fun _ _ _ _ _ => trivial) (fun _ => trivial) _ _

variable (sorting s requests) in
theorem grounded_run (sched : SystemSchedule) :
    (stateAfter sorting s requests sched).Conforms (systemProtocol requests) ∧
      Grounded s requests (stateAfter sorting s requests sched).store
        (stateAfter sorting s requests sched).log := by
  refine Config.run_invariant fits_anySystemSchedule
    (fun _ _ _ _ _ hI hmay _ => hI.exec hmay) (fun _ _ x hI _ => hI.change x)
    (Config.conforms_start fun i => (requests i).obeys_serve) ?_ sched
    (along_anySystemSchedule _ _)
  constructor
  · intro alert halert
    exact ⟨.inl halert, .inl (List.mem_map_of_mem halert)⟩
  · intro i id memberId alert h
    cases h
  · intro alert halert
    exact ⟨alert, halert, rfl⟩
  · intro i stockId skip limit reply h
    cases h
  · intro message h
    cases h

variable (sorting s requests) in
theorem lawful_run (sched : SystemSchedule) :
    (systemProtocol requests).Lawful (stateAfter sorting s requests sched).log :=
  Config.run_lawful fits_anySystemSchedule
    (Config.conforms_start fun i => (requests i).obeys_serve) trivial sched
    (along_anySystemSchedule _ _)

theorem triggered_of_makes {r : SystemRequest} {alert : Alert} (h : r.Makes alert) :
    alert.triggered = false := by
  cases r with
  | create id memberId dto =>
    obtain ⟨member, stockId, stock, trader, -, -, rfl⟩ := h
    rfl
  | _ => cases h

/-- Whatever the order of steps and whatever fails, and even if the worker's handler were run,
a message is only sent for an alert that was the worker's from the start. What a member has
created is never marked: it waits as long as it is stored. -/
theorem created_never_fires
    (sorting : (createdAt : String → Time) → Ties.Sorting (newestFirst createdAt)) (s : System)
    (requests : ℕ → SystemRequest) (sched : SystemSchedule) :
    (∀ message ∈ (stateAfter sorting s requests sched).store.store.outbox,
      Caused s requests message) ∧
    ∀ alert ∈ (stateAfter sorting s requests sched).store.priceAlerts.docs,
      alert ∈ s.priceAlerts.docs ∨
        alert.triggered = false ∧ ∃ i, (requests i).Makes alert := by
  have hgrounded := (grounded_run sorting s requests sched).2
  constructor
  · exact hgrounded.sent
  · intro alert halert
    rcases (hgrounded.stored alert halert).1 with hold | ⟨i, hmakes⟩
    · exact .inl hold
    · exact .inr ⟨triggered_of_makes hmakes, i, hmakes⟩

section Removal
variable {start : System} {log log₀ : SystemLog} {alert other : Alert} {id : String} {i j : ℕ}

theorem exists_of_makes {r : SystemRequest} (h : r.Makes alert) :
    ∃ newId memberId dto member, r = .create newId memberId dto ∧ newId.text = alert.id ∧
      ObjectId.parse? memberId = some member ∧ member.text = alert.memberId := by
  cases r with
  | create newId memberId dto =>
    obtain ⟨member, stockId, stock, trader, hmember, -, rfl⟩ := h
    exact ⟨newId, memberId, dto, member, rfl, rfl, hmember, rfl⟩
  | _ => cases h

/-- Two requests that make alerts of one id are one. -/
theorem Fresh.makes_unique (hfresh : Fresh start requests) (h : (requests i).Makes alert)
    (h' : (requests j).Makes other) (hid : alert.id = other.id) : i = j := by
  obtain ⟨newId, memberId, dto, member, hr, htext, -⟩ := exists_of_makes h
  obtain ⟨newId', memberId', dto', member', hr', htext', -⟩ := exists_of_makes h'
  obtain rfl : newId = newId' := ObjectId.ext_text (by rw [htext, htext', hid])
  exact hfresh.once i j newId memberId memberId' dto dto' hr hr'

theorem Fresh.not_mem_start (hfresh : Fresh start requests) (h : (requests i).Makes alert) :
    alert.id ∉ start.priceAlerts.docs.map Alert.id := by
  obtain ⟨newId, memberId, dto, member, hr, htext, -⟩ := exists_of_makes h
  rw [← htext]
  exact hfresh.start i newId memberId dto hr

/-- An id belongs to one member for good. -/
theorem Fresh.owner (hfresh : Fresh start requests) (h : Made start requests alert)
    (h' : Made start requests other) (hid : alert.id = other.id) :
    alert.memberId = other.memberId := by
  rcases h with h | ⟨k, hmakes⟩
  · rcases h' with h' | ⟨k', hmakes'⟩
    · rw [List.inj_on_of_nodup_map start.priceAlerts.nodup h h' hid]
    · exact absurd (hid ▸ List.mem_map_of_mem h) (hfresh.not_mem_start hmakes')
  · rcases h' with h' | ⟨k', hmakes'⟩
    · exact absurd (hid ▸ List.mem_map_of_mem h') (hfresh.not_mem_start hmakes)
    · obtain rfl := hfresh.makes_unique hmakes hmakes' hid
      obtain ⟨newId, memberId, dto, member, hr, -, hparse, hmember⟩ := exists_of_makes hmakes
      obtain ⟨newId', memberId', dto', member', hr', -, hparse', hmember'⟩ :=
        exists_of_makes hmakes'
      rw [hr] at hr'
      cases hr'
      rw [hparse] at hparse'
      cases hparse'
      exact hmember.symm.trans hmember'

theorem mem_or_deleted (h : id ∈ s.priceAlerts.docs.map Alert.id) (op : SystemOp) :
    id ∈ (execSystem sorting op s).2.priceAlerts.docs.map Alert.id ∨ op = .deleteOne id := by
  obtain ⟨alert, halert, rfl⟩ := List.mem_map.mp h
  cases op with
  | create new =>
    simp only [execSystem]
    split
    · exact .inl h
    · exact .inl (List.mem_map.mpr ⟨alert, List.mem_append_left _ halert, rfl⟩)
  | deleteOne deleted =>
    by_cases hid : alert.id = deleted
    · exact .inr (by rw [hid])
    · exact .inl (List.mem_map.mpr ⟨alert, List.mem_filter.mpr ⟨halert, by simpa using hid⟩, rfl⟩)
  | _ => exact .inl h

/-- What is listed without the alert. -/
def Spares (id : String) : Reaction SystemOp SystemOp.Reply → Prop
  | ⟨.findByMember _, reply⟩ => id ∉ (show List Alert from reply).map Alert.id
  | _ => True

/-- The alert is gone, its id is used up, and what has been listed since `log₀` is without it. -/
structure Absent (start : System) (id : String) (log₀ : SystemLog) (s : System)
    (log : SystemLog) : Prop where
  gone : id ∉ s.priceAlerts.docs.map Alert.id
  known : Known start log id
  since : ∃ added, log = added ++ log₀ ∧ ∀ e ∈ added, Spares id e.reaction

theorem spares_exec (h : id ∉ s.priceAlerts.docs.map Alert.id) (op : SystemOp) :
    Spares id ⟨op, (execSystem sorting op s).1⟩ := by
  cases op with
  | findByMember memberId =>
    intro hmem
    obtain ⟨alert, halert, rfl⟩ := List.mem_map.mp hmem
    exact h (List.mem_map_of_mem (List.mem_filter.mp (((sorting _).perm _).mem_iff.mp halert)).1)
  | _ => trivial

/-- No request brings the alert back: the one that made it has made it. -/
theorem Absent.exec (hfresh : Fresh start requests) (hlawful : (systemProtocol requests).Lawful log)
    (h : Absent start id log₀ s log) {op : SystemOp}
    (hop : maySystem (requests i) (own i log) op) :
    Absent start id log₀ (execSystem sorting op s).2
      (⟨i, op, (execSystem sorting op s).1⟩ :: log) := by
  obtain ⟨hgone, hknown, added, rfl, hadded⟩ := h
  refine ⟨?_, hknown.cons _, _ :: added, rfl, ?_⟩
  · intro hmem
    obtain ⟨alert, halert, rfl⟩ := List.mem_map.mp hmem
    rcases docs_execSystem halert with hold | rfl
    · exact hgone (List.mem_map_of_mem hold)
    · obtain ⟨hmakes, hfirst⟩ := hop
      obtain hstart | ⟨j, other, reply, hcreated, hid⟩ := hknown
      · exact hfresh.not_mem_start hmakes hstart
      · obtain ⟨earlier, -, hmay⟩ := hlawful.mem hcreated
        obtain rfl := hfresh.makes_unique hmay.1 hmakes hid
        cases hfirst _ (mem_own.mpr hcreated)
  · exact List.forall_mem_cons.mpr ⟨spares_exec hgone op, hadded⟩

end Removal

theorem stateAfter_append (before later : SystemSchedule) :
    stateAfter sorting s requests (before ++ later) =
      (stateAfter sorting s requests before).run (systemBackend sorting) later :=
  Config.run_append _ _ _ _

theorem absent_step {first : SystemSchedule} {o : Outcome Exception} {id : String} {i : ℕ}
    (hsending : (stateAfter sorting s requests first).Sending i (.deleteOne id))
    (ho : o.applies) :
    Absent s id (stateAfter sorting s requests (first ++ [.step i o])).log
      (stateAfter sorting s requests (first ++ [.step i o])).store
      (stateAfter sorting s requests (first ++ [.step i o])).log := by
  obtain ⟨next, failed, hcall⟩ := hsending
  obtain ⟨hstore, hlog⟩ := Config.step_applies (systemBackend sorting) hcall ho
  have hgrounded := (grounded_run sorting s requests (first ++ [.step i o])).2
  have hlawful := lawful_run sorting s requests (first ++ [.step i o])
  rw [stateAfter_append, Config.run_cons, Config.run_nil] at hgrounded hlawful ⊢
  rw [hlog] at hgrounded hlawful
  refine ⟨?_, ?_, [], rfl, by simp⟩
  · rw [hstore]
    intro hmem
    obtain ⟨alert, halert, rfl⟩ := List.mem_map.mp hmem
    simpa using (List.mem_filter.mp halert).2
  · obtain ⟨memberId, alert, -, hfound⟩ := hlawful.1
    rw [hlog]
    exact (hgrounded.found i id memberId alert (List.mem_cons_of_mem _ (mem_own.mp hfound))).2.1

theorem absent_run {id : String} {i : ℕ} (hfresh : Fresh s requests)
    (h : ⟨i, .deleteOne id, ()⟩ ∈ (stateAfter sorting s requests before).log)
    (later : SystemSchedule) :
    ∃ log₀, log₀ <:+ (stateAfter sorting s requests before).log ∧
      Absent s id log₀ (stateAfter sorting s requests (before ++ later)).store
        (stateAfter sorting s requests (before ++ later)).log := by
  obtain hstart | ⟨first, o, rest, rfl, ho, hsending, -⟩ :=
    Config.mem_log_run (systemBackend sorting) h
  · cases hstart
  have hsplit : first ++ .step i o :: rest = first ++ [.step i o] ++ rest := by simp
  have hend := (Config.run_invariant (B := systemBackend sorting)
    (I := fun x l => (systemProtocol requests).Lawful l ∧ Absent s id
      (stateAfter sorting s requests (first ++ [.step i o])).log x l) fits_anySystemSchedule
    (fun _ _ _ _ _ hI hmay _ => ⟨⟨hmay, hI.1⟩, hI.2.exec hfresh hI.1 hmay⟩)
    (fun _ _ x hI _ => ⟨hI.1, by cases x <;> exact ⟨hI.2.gone, hI.2.known, hI.2.since⟩⟩)
    (grounded_run sorting s requests (first ++ [.step i o])).1
    ⟨lawful_run sorting s requests _, absent_step hsending ho⟩ (rest ++ later)
    (along_anySystemSchedule _ _)).2.2
  refine ⟨(stateAfter sorting s requests (first ++ [.step i o])).log, ?_, ?_⟩
  · rw [hsplit, stateAfter_append _ rest]
    exact Config.log_suffix (systemBackend sorting) _ rest
  · rw [hsplit, List.append_assoc, stateAfter_append (first ++ [Choice.step i o])]
    exact hend

/-- Only the member an alert is from removes it, whatever happens at the same time. -/
theorem removed_by_owner (hfresh : Fresh s requests) {alert : Alert}
    (halert : alert ∈ (stateAfter sorting s requests before).store.priceAlerts.docs)
    (hgone : alert.id ∉
      (stateAfter sorting s requests (before ++ later)).store.priceAlerts.docs.map Alert.id) :
    ∃ i, (requests i).Removes alert.id alert.memberId ∧
      ⟨i, .deleteOne alert.id, ()⟩ ∈ (stateAfter sorting s requests (before ++ later)).log := by
  obtain ⟨hconforms, hgrounded⟩ :=
    grounded_run sorting s requests before
  have hdeleted : ∃ i, ⟨i, .deleteOne alert.id, ()⟩ ∈
      (stateAfter sorting s requests (before ++ later)).log := by
    have hend := (Config.run_invariant (B := systemBackend sorting)
      (I := fun x l => alert.id ∈ x.priceAlerts.docs.map Alert.id ∨
        ∃ i, ⟨i, .deleteOne alert.id, ()⟩ ∈ l) fits_anySystemSchedule
      (fun x l i op o hI _ _ => ?_) (fun _ _ x hI _ => by cases x <;> exact hI) hconforms
      (.inl (List.mem_map_of_mem halert)) later (along_anySystemSchedule _ _)).2
    · rw [stateAfter_append] at hgone ⊢
      exact hend.resolve_left hgone
    · rcases hI with hmem | ⟨j, hj⟩
      · rcases mem_or_deleted hmem op with hmem | rfl
        · exact .inl hmem
        · exact .inr ⟨i, List.mem_cons_self⟩
      · exact .inr ⟨j, List.mem_cons_of_mem _ hj⟩
  obtain ⟨i, hi⟩ := hdeleted
  obtain ⟨earlier, hearlier, memberId, found, hremoves, hfound⟩ :=
    (lawful_run sorting s requests (before ++ later)).mem hi
  obtain ⟨hmade, -, hid, rfl⟩ := (grounded_run sorting s requests (before ++ later)).2.found i _ _ _
    (mem_own.mp (hearlier hfound))
  rw [hfresh.owner (hgrounded.stored alert halert).1 hmade hid.symm]
  exact ⟨i, hremoves, hi⟩

/-- A removal that has been answered is for good: the alert is stored never again, and no
list that is asked for later shows it. -/
theorem removed_for_good (hfresh : Fresh s requests) {i : ℕ} {alertId : ObjectId}
    {memberId : String} {answer : Answer} (hi : requests i = .remove alertId memberId)
    (hdone : (stateAfter sorting s requests before).result i = some (.ok answer))
    (later : SystemSchedule) :
    alertId.text ∉
        (stateAfter sorting s requests (before ++ later)).store.priceAlerts.docs.map Alert.id ∧
      ∀ j, own j (stateAfter sorting s requests before).log = [] →
        ∀ member alerts, requests j = .findAll member →
          (stateAfter sorting s requests (before ++ later)).result j = some (.ok (.alerts alerts)) →
          alertId.text ∉ alerts.map Alert.id := by
  have hdeleted := (grounded_run sorting s requests before).1.returned hdone
  simp only [systemProtocol, returns_ok, hi, Answered] at hdeleted
  obtain ⟨log₀, hsuffix, habsent⟩ := absent_run hfresh (mem_own.mp hdeleted) later
  refine ⟨habsent.gone, ?_⟩
  intro j hj member alerts hrequest hresult
  have hanswered := (grounded_run sorting s requests (before ++ later)).1.returned hresult
  simp only [systemProtocol, returns_ok, hrequest, Answered] at hanswered
  obtain ⟨memberId, hread⟩ := hanswered
  obtain ⟨added, hadded, hspares⟩ := habsent.since
  rw [mem_own, hadded, List.mem_append] at hread
  rcases hread with hlate | hearly
  · exact hspares _ hlate
  · have hnone := mem_own.mpr (hsuffix.subset hearly)
    rw [hj] at hnone
    cases hnone

end Run

section Example

def memberId : ObjectId := .ofText "65de9f00a1b2c3d4e5f6a7e1" (by decide)

def stockId : ObjectId := .ofText "65de9f00a1b2c3d4e5f6a7e2" (by decide)

def alertId : ObjectId := .ofText "65de9f00a1b2c3d4e5f6a7e3" (by decide)

def emptySystem : System where
  store :=
    { alerts := ⟨[], by simp⟩
      traders := fun id => if id = memberId.text then
        some ⟨"Member One", "one@example.com", .active, .approved⟩ else none
      stocks := fun id => if id = stockId.text then
        some ⟨"CCC", "C Corp", .bson (some 9), true⟩ else none
      outbox := [] }
  priceAlerts := ⟨[], by simp⟩
  createdAt _ := 0
  now := 0

def aboveTarget : CreateAlertDto where
  stockId := stockId.text
  targetPrice := 23 / 2
  direction := .above
  decimals := by decide +kernel
  positive := by decide +kernel

/-- An alert is created, removed, and looked for, and the price goes over its target. -/
def oneLifetime : ℕ → SystemRequest
  | 0 => .create alertId memberId.text aboveTarget
  | 1 => .remove alertId memberId.text
  | 2 => .findAll memberId.text
  | _ => .priceUpdated ⟨stockId.text, "CCC", 12⟩ 1

def stably (createdAt : String → Time) : Ties.Sorting (newestFirst createdAt) :=
  .stable (newestFirst createdAt)

theorem fresh_oneLifetime : Fresh emptySystem oneLifetime where
  start _ _ _ _ _ := List.not_mem_nil
  once i j id m m' dto dto' hi hj := by
    have hzero {k : ℕ} {m : String} {dto : CreateAlertDto}
        (hk : oneLifetime k = .create id m dto) : k = 0 := by
      rcases k with _ | _ | _ | k <;> simp [oneLifetime] at hk
      rfl
    rw [hzero hi, hzero hj]

def createdAndReported : SystemSchedule :=
  [.step 0 .done, .step 0 .done, .step 0 .done, .step 3 .done]

def removal : SystemSchedule := [.step 1 .done, .step 1 .done]

def created : Alert :=
  ⟨alertId.text, memberId.text, stockId.text, "CCC", .bson (some (23 / 2)), .above, false,
    "one@example.com", "Member One"⟩

/-- At a price it fires at, the alert waits on and nothing is sent. -/
example : fires 12 created = true ∧
    (stateAfter stably emptySystem oneLifetime createdAndReported).result 3 =
      some (.ok .handled) ∧
    (stateAfter stably emptySystem oneLifetime createdAndReported).store.priceAlerts.docs =
      [created] ∧
    (stateAfter stably emptySystem oneLifetime createdAndReported).store.store.outbox = [] := by
  decide +kernel

theorem removed_by_owner_alone :
    ∃ i, (oneLifetime i).Removes created.id created.memberId ∧ ⟨i, .deleteOne created.id, ()⟩ ∈
      (stateAfter stably emptySystem oneLifetime (createdAndReported ++ removal)).log :=
  removed_by_owner fresh_oneLifetime (by decide +kernel) (by decide +kernel)

/-- The member looks after the removal. -/
theorem removed_for_good_unseen :
    alertId.text ∉ (stateAfter stably emptySystem oneLifetime
      (createdAndReported ++ removal ++ [.step 2 .done])).store.priceAlerts.docs.map Alert.id ∧
    alertId.text ∉ ([] : List Alert).map Alert.id := by
  have hremoval : oneLifetime 1 = .remove alertId memberId.text := rfl
  have hdone : (stateAfter stably emptySystem oneLifetime
      (createdAndReported ++ removal)).result 1 = some (.ok .removed) := by
    decide +kernel
  obtain ⟨hgone, hlater⟩ := removed_for_good fresh_oneLifetime hremoval hdone [.step 2 .done]
  exact ⟨hgone, hlater 2 (by decide +kernel) memberId.text [] rfl (by decide +kernel)⟩

end Example
end StockMarket.Alerts
