import StockMarket.Wallet.Stripe
import StockMarket.Wallet.Idempotency
import StockMarket.Interleaving.Tally
import Mathlib.Algebra.BigOperators.Ring.List
import Mathlib.Algebra.BigOperators.Ring.Finset

/-! # Deposits and what members were charged

The webhook reads back from a session what the member asked for. Whatever Stripe
delivers, however often, and whatever else the service does meanwhile, deposits never
credit a wallet with more than the member has paid.
-/

namespace StockMarket.Wallet
open Interleaving Prog

/-- The idempotency key of a checkout. -/
def depositKey (userId : String) (uuid : ℕ) : String := s!"deposit:{userId}:{uuid}"

section RoundTrip

/-- Rounding leaves an amount in whole cents as it is. -/
theorem mathRound_cents {amount : ℚ} (h : HasDecimals 2 amount) :
    (mathRound (amount * 100) : ℚ) = amount * 100 := by
  have hint : amount * 100 = ((amount * 100).num : ℚ) := by
    have hden : (amount * 100).den = 1 := by
      rw [HasDecimals] at h
      norm_num at h
      exact h
    exact ((Rat.den_eq_one_iff _).mp hden).symm
  have hhalf : ⌊((amount * 100).num : ℚ) + 1 / 2⌋ = (amount * 100).num := by
    rw [Int.floor_intCast_add]
    norm_num
  rw [mathRound, hint]
  exact_mod_cast congrArg (Int.cast (R := ℚ)) hhalf

theorem truthy_some {text : String} (h : text ≠ "") : truthy (some text) = some text := by
  simp [truthy, Option.filter, h]

theorem numberText_ne_empty {x : ℚ} (h : ∃ digits, HasDecimals digits x) : numberText x ≠ "" := by
  intro hempty
  have hread := parseFloat_numberText h
  have hnone : parseFloat "" = none := by decide +kernel
  rw [hempty, hnone] at hread
  cases hread

theorem depositKey_ne_empty (userId : String) (n : ℕ) : depositKey userId n ≠ "" := by
  intro h
  have := congrArg String.length h
  simp [depositKey, String.length_append] at this

/-- What was put into a session is read back from it. -/
theorem extractDepositMeta_depositParams (uuid : ℕ) {member : MemberContext}
    (hmember : member.userId ≠ "") (dto : InitiateDepositDto) :
    StripeService.extractDepositMeta (some (WalletService.depositParams uuid member dto).metadata) =
      some { userId := member.userId
             amount := some dto.amount
             currency := "USD"
             idempotencyKey := depositKey member.userId uuid } := by
  have htext := numberText_ne_empty ⟨2, dto.decimals⟩
  have hkey := depositKey_ne_empty member.userId uuid
  have hshow : s!"deposit:{member.userId}:{uuid}" = depositKey member.userId uuid := rfl
  simp only [StripeService.extractDepositMeta, WalletService.depositParams,
    StripeService.sessionParams, Option.bind_eq_bind, Option.bind_some, hshow, truthy_some hmember,
    truthy_some htext, truthy_some (show "USD" ≠ "" by decide), truthy_some hkey,
    parseFloat_numberText ⟨2, dto.decimals⟩, Option.pure_def]

theorem extractDepositMeta_of_no_member {uuid : ℕ} {member : MemberContext}
    {dto : InitiateDepositDto} (hmember : member.userId = "") :
    StripeService.extractDepositMeta (some (WalletService.depositParams uuid member dto).metadata) =
      none := by
  simp [StripeService.extractDepositMeta, WalletService.depositParams,
    StripeService.sessionParams, hmember, truthy, Option.filter]

/-- A session for a checkout asks the webhook for exactly that checkout. -/
theorem deposit_of_metadata {uuid : ℕ} {member : MemberContext} {dto : InitiateDepositDto}
    {session : StripeSession} (hmember : member.userId ≠ "")
    (hsession : session.metadata = some (WalletService.depositParams uuid member dto).metadata) :
    ∃ input, session.deposit = some input ∧ input.userId = member.userId ∧
      input.amount = dto.amount ∧ input.currency = "USD" ∧
      input.idempotencyKey = depositKey member.userId uuid ∧
      input.stripeSessionId = session.id := by
  have hmeta := extractDepositMeta_depositParams uuid hmember dto
  rw [← hsession] at hmeta
  rw [StripeSession.deposit]
  split
  · rename_i h
    rw [hmeta] at h
    cases h
  · rename_i data h
    rw [hmeta] at h
    cases h
    exact ⟨_, rfl, rfl, rfl, rfl, rfl, rfl⟩

/-- A session of a checkout, as Stripe may report it. -/
def checkoutSession (id status : String) (intent : PaymentIntent) (uuid : ℕ)
    (member : MemberContext) (hmember : member.userId ≠ "") (dto : InitiateDepositDto) :
    StripeSession where
  id := id
  paymentStatus := status
  paymentIntent := intent
  metadata := some (WalletService.depositParams uuid member dto).metadata
  amount_pos data hdata := by
    rw [extractDepositMeta_depositParams uuid hmember dto] at hdata
    cases hdata
    exact lt_of_lt_of_le (by norm_num) dto.min

/-- The deposit a webhook asks for, when its signature is right. -/
def WebhookRequest.deposit
    (constructEvent : String → String → Except String StripeWebhookEvent)
    (req : WebhookRequest) : Option StripeDepositInput := do
  let signature ← truthy req.signature
  let rawBody ← req.rawBody
  let event ← (constructEvent rawBody signature).toOption
  StripeWebhookController.deposit event

section Webhook
variable {constructEvent : String → String → Except String StripeWebhookEvent}
  {req : WebhookRequest}

theorem WebhookRequest.deposit_eq_some {input : StripeDepositInput}
    (h : req.deposit constructEvent = some input) :
    ∃ signature rawBody event, truthy req.signature = some signature ∧
      req.rawBody = some rawBody ∧ constructEvent rawBody signature = .ok event ∧
      StripeWebhookController.deposit event = some input := by
  simp only [deposit, Option.bind_eq_bind, Option.bind_eq_some_iff] at h
  obtain ⟨signature, hsignature, rawBody, hbody, event, hevent, hdeposit⟩ := h
  refine ⟨signature, rawBody, event, hsignature, hbody, ?_, hdeposit⟩
  rcases hc : constructEvent rawBody signature with message | event'
  · simp [hc, Except.toOption] at hevent
  · simp only [hc, Except.toOption, Option.some.injEq] at hevent
    rw [hevent]

theorem handleWebhook_of_deposit {input : StripeDepositInput} (uuid : ℕ)
    (h : req.deposit constructEvent = some input) :
    StripeWebhookController.handleWebhook constructEvent uuid req =
      (WalletService.processStripeDeposit uuid input >>= fun _ => pure true) := by
  obtain ⟨signature, rawBody, event, hsignature, hbody, hevent, hdeposit⟩ :=
    WebhookRequest.deposit_eq_some h
  simp only [StripeWebhookController.handleWebhook, hsignature, hbody, hevent, hdeposit]

theorem handleWebhook_of_no_deposit (uuid : ℕ) (h : req.deposit constructEvent = none) :
    (∃ e, StripeWebhookController.handleWebhook constructEvent uuid req = .raise e) ∨
      StripeWebhookController.handleWebhook constructEvent uuid req = .ret true := by
  rw [StripeWebhookController.handleWebhook]
  rcases hsignature : truthy req.signature with _ | signature
  · exact .inl ⟨_, rfl⟩
  rcases hbody : req.rawBody with _ | rawBody
  · exact .inl ⟨_, rfl⟩
  rcases hevent : constructEvent rawBody signature with message | event
  · exact .inl ⟨_, by simp only [hevent]; rfl⟩
  · simp only [WebhookRequest.deposit, hsignature, hbody, hevent, Except.toOption,
      Option.bind_eq_bind, Option.bind_some] at h
    exact .inr (by simp only [hevent, h]; rfl)

/-- A webhook about a paid checkout deposits, for the member who began it, exactly
what the session was to charge. -/
theorem webhook_deposits_what_was_charged {rawBody signature : String} {event : StripeWebhookEvent}
    {member : MemberContext} {dto : InitiateDepositDto} {uuid : ℕ}
    (hreq : req = ⟨some rawBody, some signature⟩) (hsignature : signature ≠ "")
    (hevent : constructEvent rawBody signature = .ok event)
    (hcompleted : event.type = "checkout.session.completed")
    (hpaid : event.session.paymentStatus = "paid") (hmember : member.userId ≠ "")
    (hsession : event.session.metadata =
      some (WalletService.depositParams uuid member dto).metadata) :
    ∃ input, (∀ i, StripeWebhookController.handleWebhook constructEvent i req =
        (WalletService.processStripeDeposit i input >>= fun _ => pure true)) ∧
      input.userId = member.userId ∧
      input.amount * 100 = (WalletService.depositParams uuid member dto).unitAmount ∧
      input.currency = "USD" ∧ input.stripeSessionId = event.session.id ∧
      input.idempotencyKey = depositKey member.userId uuid := by
  obtain ⟨input, hinput, huser, hamount, hcurrency, hkey, hid⟩ :=
    deposit_of_metadata hmember hsession
  have hdeposit : req.deposit constructEvent = some input := by
    rw [hreq, WebhookRequest.deposit]
    simp only [truthy_some hsignature, hevent, Except.toOption, Option.bind_eq_bind,
      Option.bind_some, StripeWebhookController.deposit]
    rw [if_pos ⟨hcompleted, hpaid⟩, hinput]
  refine ⟨input, fun i => handleWebhook_of_deposit i hdeposit, huser, ?_, hcurrency, hid, hkey⟩
  rw [hamount]
  exact (mathRound_cents dto.decimals).symm

def someMember : MemberContext := ⟨"member", "member@example.com", "Member"⟩

def someDeposit : InitiateDepositDto where
  amount := 1999 / 100
  decimals := by decide +kernel
  min := by norm_num
  max := by norm_num

def paidEvent : StripeWebhookEvent where
  type := "checkout.session.completed"
  session := checkoutSession "cs_1" "paid" .null 7 someMember (by decide) someDeposit

theorem webhook_deposits_what_was_charged_cents :
    ∃ input, (∀ i, StripeWebhookController.handleWebhook (fun _ _ => .ok paidEvent) i
        ⟨some "body", some "signature"⟩ =
          (WalletService.processStripeDeposit i input >>= fun _ => pure true)) ∧
      input.userId = "member" ∧
      input.amount * 100 = (WalletService.depositParams 7 someMember someDeposit).unitAmount ∧
      input.currency = "USD" ∧ input.stripeSessionId = "cs_1" ∧
      input.idempotencyKey = depositKey "member" 7 :=
  @webhook_deposits_what_was_charged (fun _ _ => .ok paidEvent) _ "body" "signature" paidEvent
    someMember someDeposit 7 rfl (by decide) rfl rfl rfl (by decide) rfl

end Webhook
end RoundTrip

/-! ## Credits against charges -/

structure Checkout where
  member : MemberContext
  dto : InitiateDepositDto

/-- What Stripe knows: the checkouts, each under its `uuid`, and those that are paid. -/
structure StripeAccount where
  checkouts : ℕ → Checkout
  paid : Finset ℕ

namespace StripeAccount

def params (account : StripeAccount) (n : ℕ) : SessionParams :=
  WalletService.depositParams n (account.checkouts n).member (account.checkouts n).dto

/-- An event is only signed for what has happened: a session that is paid, and that
names a deposit, is one that a member has begun and paid. -/
def Signs (account : StripeAccount)
    (constructEvent : String → String → Except String StripeWebhookEvent) : Prop :=
  ∀ rawBody signature event, constructEvent rawBody signature = .ok event →
    event.session.paymentStatus = "paid" →
    StripeService.extractDepositMeta event.session.metadata ≠ none →
    ∃ n ∈ account.paid, event.session.metadata = some (account.params n).metadata

/-- What Stripe has charged a member, in cents. -/
def charged (account : StripeAccount) (userId : String) : ℤ :=
  ∑ n ∈ account.paid with (account.checkouts n).member.userId = userId,
    (account.params n).unitAmount

end StripeAccount

/-- What the service is asked to do. Only the webhook processes deposits. -/
inductive Traffic where
  | webhook (req : WebhookRequest)
  | request (r : Request) (other : ∀ input, r ≠ .processStripeDeposit input)

def Traffic.serve (withdrawalHoldHrs : ℕ)
    (constructEvent : String → String → Except String StripeWebhookEvent) (uuid : ℕ) :
    Traffic → Call Response
  | .webhook req => do
      let _ ← StripeWebhookController.handleWebhook constructEvent uuid req
      pure .done
  | .request r _ => r.serve withdrawalHoldHrs uuid

def State.serving (withdrawalHoldHrs : ℕ)
    (constructEvent : String → String → Except String StripeWebhookEvent) (store : Store)
    (traffic : ℕ → Traffic) : State :=
  Config.start store fun i => (traffic i).serve withdrawalHoldHrs constructEvent i

/-- What a deposit entry of the log has added to a member's wallet. -/
def depositTo (userId : String) (e : LogEntry) : ℚ :=
  match e.reaction with
  | ⟨.incBalance owner _ amount true, some _⟩ => if owner = userId then amount else 0
  | _ => 0

/-- What deposits have added to a member's wallet. -/
def credited (userId : String) (log : List LogEntry) : ℚ := (log.map (depositTo userId)).sum

section Charges
variable {account : StripeAccount} {withdrawalHoldHrs : ℕ}
  {constructEvent : String → String → Except String StripeWebhookEvent}

/-- The request a call serves in the end. A webhook without a deposit sends nothing. -/
def Traffic.asRequest
    (constructEvent : String → String → Except String StripeWebhookEvent) : Traffic → Request
  | .webhook req =>
      match req.deposit constructEvent with
      | some input => .processStripeDeposit input
      | none => .ensureWallet ""
  | .request r _ => r

def trafficProtocol
    (constructEvent : String → String → Except String StripeWebhookEvent) (traffic : ℕ → Traffic) :
    Protocol ℕ WalletOp WalletOp.Reply Exception Response :=
  { protocol False (fun i => (traffic i).asRequest constructEvent) with post := fun _ _ _ => True }

theorem fits_traffic (traffic : ℕ → Traffic) :
    unrestricted.Fits (trafficProtocol constructEvent traffic) :=
  fits_of_unreliable unrestricted fun i => (traffic i).asRequest constructEvent

theorem conforms_traffic (store : Store) (traffic : ℕ → Traffic) :
    (State.serving withdrawalHoldHrs constructEvent store traffic).Conforms
      (trafficProtocol constructEvent traffic) := by
  refine Config.conforms_start ?_
  intro i
  rcases htraffic : traffic i with req | ⟨r, other⟩
  · rcases hreq : req.deposit constructEvent with _ | input
    · rcases handleWebhook_of_no_deposit i hreq with ⟨e, he⟩ | he <;>
        · simp only [Traffic.serve, he]
          exact trivial
    · have hfollows : (Request.processStripeDeposit input).Follows .exact False i
          (fun h _ => Counted h input.idempotencyKey ∨ Moved h) []
          (WalletService.processStripeDeposit i input) := follows_processStripeDeposit input
      have hrequest : (traffic i).asRequest constructEvent = .processStripeDeposit input := by
        simp only [htraffic, Traffic.asRequest, hreq]
      simp only [trafficProtocol, protocol, protocolWith, hrequest, Traffic.serve,
        handleWebhook_of_deposit i hreq]
      have hanswered : (WalletService.processStripeDeposit i input >>= fun _ => pure true).Obeys
          _ _ (fun _ _ => True) [] := hfollows.bind (fun _ _ _ => trivial) fun _ _ _ => trivial
      exact hanswered.bind (fun _ _ _ => trivial) fun _ _ _ => trivial
  · have hrequest : (traffic i).asRequest constructEvent = r := by
      simp only [htraffic, Traffic.asRequest]
    simp only [trafficProtocol, protocol, protocolWith, hrequest, Traffic.serve]
    exact (r.follows_serve withdrawalHoldHrs).mono fun _ _ _ => trivial

/-- Only a movement of a deposit sets the deposit flag. -/
theorem Request.May.isDeposit {reliable : Prop} {uuid : ℕ} {r : Request} {h : History}
    {userId : String} {gte : Option ℚ} {amount : ℚ}
    (hmay : r.May reliable uuid h (.incBalance userId gte amount true)) :
    ∃ input, r = .processStripeDeposit input ∧ userId = input.userId ∧ amount = input.amount := by
  obtain ⟨-, ⟨m, hm, huser, -, hamount, hflag, -⟩ | ⟨_, _, -, -, -, -, -, -, -, hflag, -⟩⟩ := hmay
  · cases r with
    | processStripeDeposit input =>
      cases hm
      exact ⟨input, rfl, huser, hamount⟩
    | deduct dto =>
      cases hm
      cases hflag
    | credit dto =>
      cases hm
      cases hflag
    | _ => cases hm
  · cases hflag

/-- What a genuine webhook deposits is a paid checkout. -/
theorem Traffic.paid_of_deposit (hsigns : account.Signs constructEvent) {t : Traffic}
    {input : StripeDepositInput}
    (ht : t.asRequest constructEvent = .processStripeDeposit input) :
    ∃ n ∈ account.paid, input.userId = (account.checkouts n).member.userId ∧
      input.idempotencyKey = depositKey input.userId n ∧
      input.amount * 100 = (account.params n).unitAmount := by
  rcases t with req | ⟨r, other⟩
  · rw [asRequest] at ht
    rcases hreq : req.deposit constructEvent with _ | input'
    · simp [hreq] at ht
    simp only [hreq, Request.processStripeDeposit.injEq] at ht
    subst ht
    obtain ⟨signature, rawBody, event, -, -, hevent, hdeposit⟩ :=
      WebhookRequest.deposit_eq_some hreq
    rw [StripeWebhookController.deposit] at hdeposit
    split at hdeposit
    · rename_i hpaid
      have hmeta : StripeService.extractDepositMeta event.session.metadata ≠ none := fun hnone => by
        rw [StripeSession.deposit] at hdeposit
        split at hdeposit
        · cases hdeposit
        · rename_i hsome
          rw [hnone] at hsome
          cases hsome
      obtain ⟨n, hn, hsession⟩ := hsigns rawBody signature event hevent hpaid.2 hmeta
      have hmember : (account.checkouts n).member.userId ≠ "" := fun hempty => hmeta (by
        rw [hsession]
        exact extractDepositMeta_of_no_member hempty)
      obtain ⟨input, hinput, huser, hamount, -, hkey, -⟩ := deposit_of_metadata hmember hsession
      cases hdeposit.symm.trans hinput
      refine ⟨n, hn, huser, huser ▸ hkey, ?_⟩
      rw [hamount]
      exact (mathRound_cents (account.checkouts n).dto.decimals).symm
    · cases hdeposit
  · exact absurd ht (other input)

/-- What a deposit entry adds is the charge of a paid checkout whose key its call carries. -/
theorem depositTo_eq_charge (hsigns : account.Signs constructEvent) {traffic : ℕ → Traffic}
    {log : List LogEntry} (hlog : (trafficProtocol constructEvent traffic).Lawful log)
    {userId : String} {e : LogEntry} (he : e ∈ log) (hne : depositTo userId e ≠ 0) :
    ∃ n ∈ account.paid, (account.checkouts n).member.userId = userId ∧
      movesFor (fun i => (traffic i).asRequest constructEvent) (depositKey userId n) e = true ∧
      100 * depositTo userId e = (account.params n).unitAmount := by
  obtain ⟨caller, op, reply⟩ := e
  obtain ⟨h, -, hmay⟩ := hlog.mem he
  cases op with
  | incBalance owner gte amount isDeposit =>
    rcases isDeposit with _ | _
    · exact absurd rfl hne
    rcases reply with _ | wallet
    · exact absurd rfl hne
    have hmay : ((traffic caller).asRequest constructEvent).May False caller h
      (.incBalance owner gte amount true) := hmay
    obtain ⟨input, hrequest, howner, hamount⟩ := hmay.isDeposit
    obtain ⟨n, hn, huser, hkey, hcharge⟩ := Traffic.paid_of_deposit hsigns hrequest
    have hto : owner = userId := by
      by_contra hother
      exact hne (if_neg hother)
    have hvalue : depositTo userId ⟨caller, .incBalance owner gte amount true, some wallet⟩ =
        amount := if_pos hto
    have huserId : input.userId = userId := howner.symm.trans hto
    refine ⟨n, hn, huser.symm.trans huserId, movesFor_iff.mpr ⟨rfl, input.movement, ?_, ?_⟩, ?_⟩
    · exact congrArg Request.movement hrequest
    · rw [← huserId]
      exact hkey
    · rw [hvalue, hamount, mul_comm]
      exact hcharge
  | _ => exact absurd rfl hne

theorem charge_nonneg (n : ℕ) : (0 : ℚ) ≤ (account.params n).unitAmount := by
  have hcents : ((account.params n).unitAmount : ℚ) = (account.checkouts n).dto.amount * 100 :=
    mathRound_cents (account.checkouts n).dto.decimals
  rw [hcents]
  linarith [(account.checkouts n).dto.min]

/-- Each key moves money at most once, however its webhook is delivered. -/
theorem traffic_moves_once (store : Store) (traffic : ℕ → Traffic) (sched : Schedule)
    (key : String) :
    timesMoved (fun i => (traffic i).asRequest constructEvent) key
      ((State.serving withdrawalHoldHrs constructEvent store traffic).run backend sched).log ≤
        1 := by
  have hstart : KeyInvariant (fun i => (traffic i).asRequest constructEvent) key store [] := by
    refine ⟨?_, ?_, ?_, by simp [timesMoved]⟩
    · intro i id hc
      simp [Created] at hc
    · intro i j a b hc _
      simp [Created] at hc
    · intro e he
      cases he
  refine (Config.run_invariant (I := KeyInvariant _ key) (fits_traffic traffic)
    (fun s log i op o hI hmay _ => ?_) (fun s log y hI _ => ?_) (conforms_traffic store traffic)
    hstart sched (along_unrestricted _ sched)).2.once
  · exact KeyInvariant.step hI (show ((traffic i).asRequest constructEvent).May _ _ _ _ from hmay)
  · cases y <;> exact ⟨hI.taken, hI.author, hI.mover, hI.once⟩

end Charges

/-- Whatever is delivered, however often, whatever else is served, and whatever fails
or crashes, deposits have not added more to a wallet than its member was charged. -/
theorem credited_le_charged (account : StripeAccount)
    (constructEvent : String → String → Except String StripeWebhookEvent)
    (hsigns : account.Signs constructEvent) (withdrawalHoldHrs : ℕ) (store : Store)
    (traffic : ℕ → Traffic) (sched : Schedule) (userId : String) :
    100 * credited userId
      ((State.serving withdrawalHoldHrs constructEvent store traffic).run backend sched).log ≤
      account.charged userId := by
  have hlawful := Config.run_lawful (fits_traffic traffic)
    (@conforms_traffic withdrawalHoldHrs constructEvent store traffic) trivial sched
    (along_unrestricted _ sched)
  have honce (n : ℕ) := @traffic_moves_once withdrawalHoldHrs constructEvent store traffic sched
    (depositKey userId n)
  generalize ((State.serving withdrawalHoldHrs constructEvent store traffic).run backend
    sched).log = log at hlawful honce
  rw [credited, ← List.sum_map_mul_left, StripeAccount.charged, Int.cast_sum]
  refine sum_le_of_countP_le_one (fun n _ => charge_nonneg n) (fun e he => ?_) fun n _ => honce n
  by_cases hne : depositTo userId e = 0
  · exact .inl (by rw [hne, mul_zero])
  · obtain ⟨n, hn, huser, hmoves, hcharge⟩ := depositTo_eq_charge hsigns hlawful he hne
    exact .inr ⟨n, Finset.mem_filter.mpr ⟨hn, huser⟩, hmoves, hcharge⟩

/-- One paid checkout, whose event is delivered to every call. -/
def paidAccount : StripeAccount where
  checkouts _ := ⟨someMember, someDeposit⟩
  paid := {7}

theorem credited_le_charged_redelivery :
    100 * credited "member" ((State.serving 24 (fun _ _ => .ok paidEvent) .empty fun _ =>
      .webhook ⟨some "body", some "signature"⟩).run backend deliveredTwice).log ≤
      paidAccount.charged "member" :=
  credited_le_charged paidAccount (fun _ _ => .ok paidEvent) (fun _ _ _ hevent _ _ => by
    cases hevent
    exact ⟨7, Finset.mem_singleton_self 7, rfl⟩) 24 .empty _ deliveredTwice "member"

/-- The first delivery is credited. -/
example : credited "member" ((State.serving 24 (fun _ _ => .ok paidEvent) .empty fun _ =>
    .webhook ⟨some "body", some "signature"⟩).run backend deliveredTwice).log = 1999 / 100 := by
  decide +kernel

end StockMarket.Wallet
