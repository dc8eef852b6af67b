import StockMarket.Members.Service

/-! # The trading service's copy of the members

`MemberEventConsumer` follows the member topics and keeps one trader document
per member, through the writing half of `TraderService`.
-/

namespace StockMarket.Trading
open Members (MemberEvent MemberRegisteredEvent)

/-- The trader documents, whose emails a unique index keeps apart. -/
abbrev Traders := AList fun _ : String => Trader

/-- The index refuses the email: another trader has it. -/
def Traders.Refuses (traders : Traders) (memberId email : String) : Prop :=
  ∃ e ∈ traders.entries, e.1 ≠ memberId ∧ e.2.email = email

instance (traders : Traders) (memberId email : String) :
    Decidable (traders.Refuses memberId email) :=
  inferInstanceAs (Decidable (∃ e ∈ traders.entries, _))

/-- `traderModel.findByIdAndUpdate(id, { $set })`. -/
def Traders.findByIdAndUpdate (traders : Traders) (memberId : String) (set : Trader → Trader) :
    Traders :=
  match traders.lookup memberId with
  | some trader => traders.insert memberId (set trader)
  | none => traders

namespace TraderService

/-- A duplicate key on the email is logged and ignored. -/
def upsertFromRegistration (memberId fullName email : String) (traders : Traders) : Traders :=
  if traders.Refuses memberId email then traders
  else traders.insert memberId { fullName, email, status := .active, kycStatus := .pending }

def updateStatus (memberId : String) (status : TraderStatus) (traders : Traders) : Traders :=
  traders.findByIdAndUpdate memberId fun trader => { trader with status }

def updateKycStatus (memberId : String) (kycStatus : KycStatus) (traders : Traders) : Traders :=
  traders.findByIdAndUpdate memberId fun trader => { trader with kycStatus }

end TraderService

namespace MemberEventConsumer

/-- `new Types.ObjectId(id)`, which makes an id up when it is given none. -/
def objectId (fresh : String) : Option String → String
  | some memberId => memberId
  | none => fresh

/-- A registration is read by its `userId`, the other events by their
`memberId`. -/
def handle (fresh : String) : MemberEvent → Traders → Traders
  | .registered event, traders =>
      TraderService.upsertFromRegistration event.userId event.fullName event.email traders
  | .suspended ids _, traders =>
      TraderService.updateStatus (objectId fresh ids.memberId) .suspended traders
  | .activated ids, traders =>
      TraderService.updateStatus (objectId fresh ids.memberId) .active traders
  | .kycUpdated ids kycStatus _, traders =>
      TraderService.updateKycStatus (objectId fresh ids.memberId) kycStatus traders

/-- The documents after the events, the first of which is the `n`-th delivered. -/
def handleAll (fresh : ℕ → String) (n : ℕ) : List MemberEvent → Traders → Traders
  | [], traders => traders
  | event :: events, traders => handleAll fresh (n + 1) events (handle (fresh n) event traders)

end MemberEventConsumer

section Lookup
variable {memberId other : String}

theorem lookup_findByIdAndUpdate_of_ne (traders : Traders) (set : Trader → Trader)
    (h : other ≠ memberId) :
    (traders.findByIdAndUpdate other set).lookup memberId = traders.lookup memberId := by
  unfold Traders.findByIdAndUpdate
  cases traders.lookup other with
  | none => rfl
  | some trader => exact AList.lookup_insert_ne h.symm

/-- A registration that the index lets through leaves an active trader whose
KYC is pending. -/
theorem lookup_handle_registered (fresh : String) (event : MemberRegisteredEvent)
    {traders : Traders} (h : ¬traders.Refuses event.userId event.email) :
    (MemberEventConsumer.handle fresh (.registered event) traders).lookup event.userId =
      some { fullName := event.fullName, email := event.email, status := .active,
             kycStatus := .pending } := by
  rw [MemberEventConsumer.handle, TraderService.upsertFromRegistration, if_neg h]
  exact AList.lookup_insert _

/-- The consumer finds the trader of an event only under the payload's
`memberId`. -/
def Misses (memberId : String) : MemberEvent → Prop
  | .registered event => event.userId ≠ memberId
  | .suspended ids _ => ids.memberId = none
  | .activated ids => ids.memberId = none
  | .kycUpdated ids _ _ => ids.memberId = none

theorem lookup_handle_of_misses {fresh : String} (hfresh : fresh ≠ memberId) {event : MemberEvent}
    (h : Misses memberId event) (traders : Traders) :
    (MemberEventConsumer.handle fresh event traders).lookup memberId = traders.lookup memberId := by
  cases event with
  | registered event =>
    simp only [MemberEventConsumer.handle, TraderService.upsertFromRegistration]
    split
    · rfl
    · exact AList.lookup_insert_ne (Ne.symm h)
  | suspended ids reason =>
    simp only [MemberEventConsumer.handle, show ids.memberId = none from h]
    exact lookup_findByIdAndUpdate_of_ne traders _ hfresh
  | activated ids =>
    simp only [MemberEventConsumer.handle, show ids.memberId = none from h]
    exact lookup_findByIdAndUpdate_of_ne traders _ hfresh
  | kycUpdated ids kycStatus reason =>
    simp only [MemberEventConsumer.handle, show ids.memberId = none from h]
    exact lookup_findByIdAndUpdate_of_ne traders _ hfresh

/-- Events that miss a trader leave it as it was, however many are delivered. -/
theorem lookup_handleAll_of_misses {fresh : ℕ → String} (hfresh : ∀ n, fresh n ≠ memberId)
    {events : List MemberEvent} (h : ∀ event ∈ events, Misses memberId event) (n : ℕ)
    (traders : Traders) :
    (MemberEventConsumer.handleAll fresh n events traders).lookup memberId =
      traders.lookup memberId := by
  induction events generalizing n traders with
  | nil => rfl
  | cons event events ih =>
    rw [MemberEventConsumer.handleAll,
      ih (fun e he => h e (List.mem_cons_of_mem _ he)),
      lookup_handle_of_misses (hfresh n) (h event List.mem_cons_self)]

end Lookup
end StockMarket.Trading
