import StockMarket.Trading.MemberEvents
import StockMarket.LastWrite

/-! # Registrations delivered again

The topics are read at least once, so a registration that was handled may come
again, at any later place among the events. The member service refuses the
document it already has. The trading service makes its trader active and its
KYC pending once more.
-/

namespace StockMarket.Trading
open Interleaving Prog LastWrite
open Members (MemberEvent MemberRegisteredEvent)

/-- What the consumer is given: an event for the first time, or a registration
once more. -/
inductive Delivery where
  | first (event : MemberEvent)
  | again (event : MemberRegisteredEvent)
  deriving DecidableEq, Repr

namespace Delivery

def event : Delivery → MemberEvent
  | first event => event
  | again event => .registered event

def repeated : Delivery → Bool
  | first _ => false
  | again _ => true

end Delivery

/-- The events as they were before any of them was delivered again. -/
def originals (deliveries : List Delivery) : List MemberEvent :=
  (firsts Delivery.repeated deliveries).map Delivery.event

/-- What is delivered again was handled before. -/
def AtLeastOnce (deliveries : List Delivery) : Prop :=
  ∀ before event later, deliveries = before ++ .again event :: later →
    .first (.registered event) ∈ before

/-- The id field that the consumer reads is filled. -/
def Filled : MemberEvent → Prop
  | .registered _ => True
  | .suspended ids _ => ids.memberId.isSome
  | .activated ids => ids.memberId.isSome
  | .kycUpdated ids _ _ => ids.memberId.isSome

instance : DecidablePred Filled
  | .registered _ => .isTrue trivial
  | .suspended ids _ => inferInstanceAs (Decidable (ids.memberId.isSome = true))
  | .activated ids => inferInstanceAs (Decidable (ids.memberId.isSome = true))
  | .kycUpdated ids _ _ => inferInstanceAs (Decidable (ids.memberId.isSome = true))

/-- No two members share an email, among the events and the traders: the accounts
the events come from have a unique index on it. -/
structure OwnEmails (events : List MemberEvent) (traders : Traders) : Prop where
  distinct : ∀ e e' : MemberRegisteredEvent, .registered e ∈ events → .registered e' ∈ events →
    e.email = e'.email → e.userId = e'.userId
  stored : ∀ memberId trader, traders.lookup memberId = some trader →
    ∀ e : MemberRegisteredEvent, .registered e ∈ events → trader.email = e.email →
      memberId = e.userId

/-- What an event does to the status of a member's trader. -/
def statusWrite (memberId : String) : MemberEvent → Write TraderStatus
  | .registered event => if event.userId = memberId then .create .active else .skip
  | .suspended ids _ => if ids.memberId = some memberId then .set .suspended else .skip
  | .activated ids => if ids.memberId = some memberId then .set .active else .skip
  | .kycUpdated _ _ _ => .skip

/-- What an event does to the KYC status of a member's trader. -/
def kycWrite (memberId : String) : MemberEvent → Write KycStatus
  | .registered event => if event.userId = memberId then .create .pending else .skip
  | .suspended _ _ => .skip
  | .activated _ => .skip
  | .kycUpdated ids kycStatus _ =>
      if ids.memberId = some memberId then .set kycStatus else .skip

section Handle
variable {events : List MemberEvent} {traders : Traders} {memberId : String}

theorem OwnEmails.not_refuses (h : OwnEmails events traders) {e : MemberRegisteredEvent}
    (he : .registered e ∈ events) : ¬traders.Refuses e.userId e.email := by
  rintro ⟨⟨other, trader⟩, hmem, hne, hemail⟩
  apply hne
  exact h.stored other trader (AList.mem_lookup_iff.mpr hmem) e he hemail

theorem lookup_findByIdAndUpdate_self (traders : Traders) (memberId : String)
    (set : Trader → Trader) :
    (traders.findByIdAndUpdate memberId set).lookup memberId =
      (traders.lookup memberId).map set := by
  unfold Traders.findByIdAndUpdate
  cases h : traders.lookup memberId with
  | none => simp [h]
  | some trader => simp

/-- A document that is updated by its id, seen under any id. -/
theorem lookup_findByIdAndUpdate (traders : Traders) (owner memberId : String)
    (set : Trader → Trader) :
    (traders.findByIdAndUpdate owner set).lookup memberId =
      if owner = memberId then (traders.lookup memberId).map set
      else traders.lookup memberId := by
  split
  · subst owner
    exact lookup_findByIdAndUpdate_self traders memberId set
  · exact lookup_findByIdAndUpdate_of_ne traders set ‹_›

theorem lookup_upsertFromRegistration (h : OwnEmails events traders) {e : MemberRegisteredEvent}
    (he : .registered e ∈ events) (memberId : String) :
    (TraderService.upsertFromRegistration e.userId e.fullName e.email traders).lookup memberId =
      if e.userId = memberId then
        some { fullName := e.fullName, email := e.email, status := .active, kycStatus := .pending }
      else traders.lookup memberId := by
  rw [TraderService.upsertFromRegistration, if_neg (h.not_refuses he)]
  split
  · subst memberId
    exact AList.lookup_insert traders
  · exact AList.lookup_insert_ne (Ne.symm ‹_›)

/-- Handling an event of the sequence keeps the emails apart. -/
theorem OwnEmails.handle (fresh : String) (h : OwnEmails events traders) {event : MemberEvent}
    (hevent : event ∈ events) :
    OwnEmails events (MemberEventConsumer.handle fresh event traders) := by
  -- an update of a stored trader leaves its email alone
  have hupdate (owner : String) {set : Trader → Trader}
      (hset : ∀ trader, (set trader).email = trader.email) :
      OwnEmails events (traders.findByIdAndUpdate owner set) := by
    apply OwnEmails.mk h.distinct
    intro memberId trader htrader e he hemail
    rw [lookup_findByIdAndUpdate] at htrader
    split at htrader
    · obtain ⟨old, hold, rfl⟩ := Option.map_eq_some_iff.mp htrader
      rw [hset] at hemail
      exact h.stored memberId old hold e he hemail
    · exact h.stored memberId trader htrader e he hemail
  cases event with
  | registered event =>
    apply OwnEmails.mk h.distinct
    intro memberId trader htrader e he hemail
    rw [MemberEventConsumer.handle, lookup_upsertFromRegistration h hevent] at htrader
    split at htrader
    · cases htrader
      subst memberId
      exact h.distinct event e hevent he hemail
    · exact h.stored memberId trader htrader e he hemail
  | suspended ids reason => exact hupdate _ fun _ => rfl
  | activated ids => exact hupdate _ fun _ => rfl
  | kycUpdated ids kycStatus reason => exact hupdate _ fun _ => rfl

/-- One event writes status and KYC status of a trader as the two tables say. -/
theorem lookup_handle (fresh : String) (h : OwnEmails events traders) {event : MemberEvent}
    (hevent : event ∈ events) (hfilled : Filled event) (memberId : String) :
    ((MemberEventConsumer.handle fresh event traders).lookup memberId).map Trader.status =
        (statusWrite memberId event).apply ((traders.lookup memberId).map Trader.status) ∧
      ((MemberEventConsumer.handle fresh event traders).lookup memberId).map Trader.kycStatus =
        (kycWrite memberId event).apply ((traders.lookup memberId).map Trader.kycStatus) := by
  cases event with
  | registered event =>
    rw [MemberEventConsumer.handle, lookup_upsertFromRegistration h hevent]
    by_cases howner : event.userId = memberId <;>
      simp [statusWrite, kycWrite, howner, Write.apply]
  | suspended ids reason =>
    obtain ⟨owner, howner⟩ := Option.isSome_iff_exists.mp hfilled
    simp only [MemberEventConsumer.handle, TraderService.updateStatus, howner,
      MemberEventConsumer.objectId, lookup_findByIdAndUpdate, statusWrite, kycWrite,
      Option.some.injEq]
    split <;> simp [Write.apply, Function.comp_def]
  | activated ids =>
    obtain ⟨owner, howner⟩ := Option.isSome_iff_exists.mp hfilled
    simp only [MemberEventConsumer.handle, TraderService.updateStatus, howner,
      MemberEventConsumer.objectId, lookup_findByIdAndUpdate, statusWrite, kycWrite,
      Option.some.injEq]
    split <;> simp [Write.apply, Function.comp_def]
  | kycUpdated ids kycStatus reason =>
    obtain ⟨owner, howner⟩ := Option.isSome_iff_exists.mp hfilled
    simp only [MemberEventConsumer.handle, TraderService.updateKycStatus, howner,
      MemberEventConsumer.objectId, lookup_findByIdAndUpdate, statusWrite, kycWrite,
      Option.some.injEq]
    split <;> simp [Write.apply, Function.comp_def]

/-- Status and KYC status of a trader after any number of the events are the last
that were written. -/
theorem lookup_handleAll (h : OwnEmails events traders) {handled : List MemberEvent}
    (hhandled : ∀ event ∈ handled, event ∈ events ∧ Filled event) (fresh : ℕ → String) (n : ℕ)
    (memberId : String) :
    ((MemberEventConsumer.handleAll fresh n handled traders).lookup memberId).map Trader.status =
        settle (statusWrite memberId) ((traders.lookup memberId).map Trader.status) handled ∧
      ((MemberEventConsumer.handleAll fresh n handled traders).lookup memberId).map
          Trader.kycStatus =
        settle (kycWrite memberId) ((traders.lookup memberId).map Trader.kycStatus) handled := by
  induction handled generalizing n traders with
  | nil => exact ⟨rfl, rfl⟩
  | cons event handled ih =>
    obtain ⟨hevent, hfilled⟩ := hhandled event List.mem_cons_self
    obtain ⟨hstatus, hkyc⟩ := lookup_handle (fresh n) h hevent hfilled memberId
    have hrest := ih (h.handle (fresh n) hevent)
      (fun e he => hhandled e (List.mem_cons_of_mem _ he)) (n + 1)
    rw [hstatus, hkyc] at hrest
    exact hrest

end Handle

def traderAfter (fresh : ℕ → String) (events : List MemberEvent) (traders : Traders)
    (memberId : String) : Option Trader :=
  (MemberEventConsumer.handleAll fresh 0 events traders).lookup memberId

/-- Whenever the member's registration comes again, its trader is active or its
status is written by an event that comes later for the first time, and so for
the KYC status, which has to be pending. -/
def Reinstated (fresh : ℕ → String) (deliveries : List Delivery) (traders : Traders)
    (memberId : String) : Prop :=
  ∀ before event later, deliveries = before ++ .again event :: later → event.userId = memberId →
    let trader := traderAfter fresh (before.map Delivery.event) traders memberId
    (trader.map Trader.status = some .active ∨
        ∃ e, .first e ∈ later ∧ statusWrite memberId e ≠ .skip) ∧
      (trader.map Trader.kycStatus = some .pending ∨
        ∃ e, .first e ∈ later ∧ kycWrite memberId e ≠ .skip)

section Field
variable {α : Type} {write : MemberEvent → Write α} {v : α} {x : Option α} {memberId : String}
  {deliveries : List Delivery}

/-- A field that only a registration of the member creates, with the value `v`, is
there again when a registration comes again. -/
theorem AtLeastOnce.repeats (h : AtLeastOnce deliveries)
    (hwrite : ∀ e : MemberRegisteredEvent,
      write (.registered e) = if e.userId = memberId then .create v else .skip) :
    Repeats (fun d : Delivery => write d.event) Delivery.repeated v x deliveries := by
  intro before d later hsplit hrepeated
  cases d with
  | first e => cases hrepeated
  | again e =>
    have hhandled := h before e later hsplit
    have hw := hwrite e
    split at hw
    · apply Or.inr
      constructor
      · exact hw
      · apply isSome_settle_of_create (d := .first (.registered e)) _ hw
        exact List.mem_filter.mpr ⟨hhandled, rfl⟩
    · exact .inl hw

theorem covered_iff
    (hwrite : ∀ e : MemberRegisteredEvent,
      write (.registered e) = if e.userId = memberId then .create v else .skip) :
    Covered (fun d : Delivery => write d.event) Delivery.repeated v x deliveries ↔
      ∀ before event later, deliveries = before ++ .again event :: later →
        event.userId = memberId → settle write x (before.map Delivery.event) = some v ∨
          ∃ e, .first e ∈ later ∧ write e ≠ .skip := by
  have hlater (later : List Delivery) :
      (∃ d ∈ later, ¬d.repeated ∧ write d.event ≠ .skip) ↔
        ∃ e, .first e ∈ later ∧ write e ≠ .skip := by
    constructor
    · rintro ⟨d, hd, hfirst, hwrites⟩
      cases d with
      | first e => exact ⟨e, hd, hwrites⟩
      | again e => exact absurd rfl hfirst
    · rintro ⟨e, he, hwrites⟩
      exact ⟨.first e, he, Bool.false_ne_true, hwrites⟩
  simp only [Covered, hlater, settle_map]
  constructor
  · intro h before event later hsplit howner
    apply h before (.again event) later hsplit rfl
    simp [Delivery.event, hwrite, howner]
  · intro h before d later hsplit hrepeated hwrites
    cases d with
    | first e => cases hrepeated
    | again e =>
      apply h before e later hsplit
      by_contra howner
      exact hwrites ((hwrite e).trans (if_neg howner))

/-- Such a field is as if nothing had come again if and only if it has the value
whenever a registration does, or is written later for the first time. -/
theorem AtLeastOnce.settle_iff (h : AtLeastOnce deliveries) (memberId : String)
    (hwrite : ∀ e : MemberRegisteredEvent,
      write (.registered e) = if e.userId = memberId then .create v else .skip) :
    settle write x (deliveries.map Delivery.event) = settle write x (originals deliveries) ↔
      ∀ before event later, deliveries = before ++ .again event :: later →
        event.userId = memberId → settle write x (before.map Delivery.event) = some v ∨
          ∃ e, .first e ∈ later ∧ write e ≠ .skip := by
  rw [originals, settle_map, settle_map, settle_firsts_iff (h.repeats hwrite), covered_iff hwrite]

end Field

/-- The member service does nothing about a registration that comes again, whatever
has been asked of it in between. Status and KYC status of a trader come out as
if no registration had come again if and only if the trader is reinstated. -/
theorem redelivery_harmless_iff (fresh : ℕ → String) {deliveries : List Delivery}
    {traders : Traders} (hids : ∀ d ∈ deliveries, Filled d.event)
    (hemails : OwnEmails (deliveries.map Delivery.event) traders)
    (hagain : AtLeastOnce deliveries) :
    (∀ (s : Members.Store) (event : MemberRegisteredEvent) (calls : List (Members.Call Unit)),
      let handle := (Members.MemberRegisteredConsumer.handle event).run Members.exec
        fun _ => .done
      let later := calls.foldl (fun s call => (call.run Members.exec (fun _ => .done) s).2)
        (handle s).2
      handle later = (.ok (), later)) ∧
    ∀ memberId : String,
      let delivered := traderAfter fresh (deliveries.map Delivery.event) traders memberId
      let once := traderAfter fresh (originals deliveries) traders memberId
      (delivered.map Trader.status = once.map Trader.status ∧
          delivered.map Trader.kycStatus = once.map Trader.kycStatus) ↔
        Reinstated fresh deliveries traders memberId := by
  constructor
  · intro s event calls
    exact Members.handle_of_refuses ((Members.refuses_handle s event).calls calls)
  · intro memberId
    have hfilled (part : List Delivery) (hpart : part ⊆ deliveries) :
        ∀ event ∈ part.map Delivery.event,
          event ∈ deliveries.map Delivery.event ∧ Filled event := by
      intro event hevent
      obtain ⟨d, hd, rfl⟩ := List.mem_map.mp hevent
      exact ⟨List.mem_map_of_mem (hpart hd), hids d (hpart hd)⟩
    have hafter (part : List Delivery) (hpart : part ⊆ deliveries) :=
      lookup_handleAll hemails (hfilled part hpart) fresh 0 memberId
    obtain ⟨hstatus, hkyc⟩ := hafter deliveries fun _ h => h
    obtain ⟨honceStatus, honceKyc⟩ := hafter (firsts Delivery.repeated deliveries)
      fun _ h => List.mem_of_mem_filter h
    simp only [traderAfter]
    rw [hstatus, hkyc, originals, honceStatus, honceKyc, ← originals,
      hagain.settle_iff memberId fun _ => rfl, hagain.settle_iff memberId fun _ => rfl,
      Reinstated]
    simp only [← forall_and]
    refine forall_congr' fun before => forall_congr' fun event => forall_congr' fun later =>
      forall_congr' fun hsplit => forall_congr' fun howner => ?_
    have hbefore := hafter before fun d hd => by
      rw [hsplit]
      exact List.mem_append_left _ hd
    rw [traderAfter, hbefore.1, hbefore.2]

section Example

def registration : MemberRegisteredEvent where
  userId := "m1"
  fullName := "Member One"
  email := "one@example.com"
  nationalId := "1"
  dateOfBirth := ⟨1995, 6, 15⟩

def twiceThenSuspended : List Delivery :=
  [.first (.registered registration), .again registration,
    .first (.suspended ⟨none, some "m1"⟩ (some "audit"))]

theorem redelivery_harmless_at_once :
    let delivered := traderAfter (fun _ => "m0") (twiceThenSuspended.map Delivery.event) ∅ "m1"
    let once := traderAfter (fun _ => "m0") (originals twiceThenSuspended) ∅ "m1"
    delivered.map Trader.status = once.map Trader.status ∧
      delivered.map Trader.kycStatus = once.map Trader.kycStatus := by
  have hemails : OwnEmails (twiceThenSuspended.map Delivery.event) ∅ := by
    constructor
    · intro e e' he he' _
      simp only [twiceThenSuspended, List.map_cons, List.map_nil, Delivery.event, List.mem_cons,
        MemberEvent.registered.injEq, reduceCtorEq, List.not_mem_nil, or_false, or_self] at he he'
      rw [he, he']
    · intro memberId trader htrader
      cases htrader
  -- the only place of a registration that comes again
  have hplace {before later : List Delivery} {event : MemberRegisteredEvent}
      (hsplit : twiceThenSuspended = before ++ .again event :: later) :
      before = [.first (.registered registration)] ∧ event = registration := by
    rcases before with _ | ⟨d, _ | ⟨d', _ | ⟨d'', before⟩⟩⟩
    · grind [twiceThenSuspended]
    · grind [twiceThenSuspended]
    · grind [twiceThenSuspended]
    · simp [twiceThenSuspended] at hsplit
  have hagain : AtLeastOnce twiceThenSuspended := by
    intro before event later hsplit
    obtain ⟨rfl, rfl⟩ := hplace hsplit
    exact List.mem_singleton_self _
  have h := redelivery_harmless_iff (fun _ => "m0") (by decide) hemails hagain
  apply (h.2 "m1").mpr
  intro before event later hsplit _
  obtain ⟨rfl, rfl⟩ := hplace hsplit
  exact ⟨.inl (by decide +kernel), .inl (by decide +kernel)⟩

/-- A suspension, and then the registration once more. -/
def suspendedThenAgain : List Delivery :=
  [.first (.registered registration), .first (.suspended ⟨none, some "m1"⟩ (some "audit")),
    .again registration]

/-- The suspended member can trade again. -/
theorem registration_again_reactivates :
    (∀ d ∈ suspendedThenAgain, Filled d.event) ∧ AtLeastOnce suspendedThenAgain ∧
      (traderAfter (fun _ => "m0") (originals suspendedThenAgain) ∅ "m1").map Trader.status =
        some .suspended ∧
      (traderAfter (fun _ => "m0") (suspendedThenAgain.map Delivery.event) ∅ "m1").map
        Trader.status = some .active := by
  have hagain : AtLeastOnce suspendedThenAgain := by
    intro before event later hsplit
    rcases before with _ | ⟨d, _ | ⟨d', _ | ⟨d'', before⟩⟩⟩
    · grind [suspendedThenAgain]
    · grind [suspendedThenAgain]
    · grind [suspendedThenAgain]
    · simp [suspendedThenAgain] at hsplit
  exact ⟨by decide, hagain, by decide +kernel, by decide +kernel⟩

end Example
end StockMarket.Trading
