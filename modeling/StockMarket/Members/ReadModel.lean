import StockMarket.Trading.MemberEvents

/-! # Members and their traders

The member service names a member by `userId` in its payloads, the trading
service looks for `memberId`. No suspension, activation or KYC decision ever
reaches a trader, which stays as its registration made it.
-/

namespace StockMarket.Members
open Interleaving Prog
open Trading (Trader Traders TraderStatus)

def MemberStatus.value : MemberStatus → String
  | .pendingVerification => "pending_verification"
  | .active => "active"
  | .suspended => "suspended"

def traderValue : TraderStatus → String
  | .active => "active"
  | .suspended => "suspended"

/-- Both services know the member, with the same status and KYC decision. -/
def Agrees (memberId : String) (s : Store) (traders : Traders) : Prop :=
  ∃ member trader, s.members.lookup memberId = some member ∧
    traders.lookup memberId = some trader ∧
    traderValue trader.status = member.status.value ∧ trader.kycStatus = member.kycStatus

theorem agrees_iff_of_lookup {memberId : String} {s : Store} {traders : Traders} {member : Member}
    {trader : Trader} (hm : s.members.lookup memberId = some member)
    (ht : traders.lookup memberId = some trader) : Agrees memberId s traders ↔
      traderValue trader.status = member.status.value ∧ trader.kycStatus = member.kycStatus := by
  constructor
  · rintro ⟨member', trader', hm', ht', h⟩
    obtain rfl := Option.some.inj (hm.symm.trans hm')
    obtain rfl := Option.some.inj (ht.symm.trans ht')
    exact h
  · exact fun h => ⟨member, trader, hm, ht, h⟩

/-- Both services have handled the member's registration. -/
structure Registered (memberId : String) (s : Store) (traders : Traders) : Prop where
  member : ∃ member, s.members.lookup memberId = some member ∧ member.status = .active ∧
    member.kycStatus = .pending
  trader : ∃ trader, traders.lookup memberId = some trader ∧ trader.status = .active ∧
    trader.kycStatus = .pending

/-- A registration that neither service refuses registers the member. -/
theorem registered_handle (fresh : String) (event : MemberRegisteredEvent) {s : Store}
    {traders : Traders} (hs : ¬s.Refuses event.userId event.member)
    (ht : ¬traders.Refuses event.userId event.email) :
    Registered event.userId
      ((MemberRegisteredConsumer.handle event).run exec (fun _ => .done) s).2
      (Trading.MemberEventConsumer.handle fresh (.registered event) traders) := by
  have hrun : ((MemberRegisteredConsumer.handle event).run exec (fun _ => .done) s).2 =
      { s with members := s.members.insert event.userId event.member } := by
    change (exec (.createMember event.userId event.member) s).2 = _
    rw [exec, if_neg hs]
  rw [hrun]
  exact
    { member := ⟨event.member, AList.lookup_insert _, rfl, rfl⟩
      trader := ⟨_, Trading.lookup_handle_registered fresh event ht, rfl, rfl⟩ }

namespace Request

def apply : Request → Member → Member
  | .suspendMember _ dto, member =>
      if member.status = .suspended then member
      else (member.standing .suspended dto.reason).apply member
  | .unsuspendMember _, member =>
      if member.status ≠ .suspended then member
      else (member.standing .active none).apply member
  | .updateKyc _ dto, member =>
      if dto.kycStatus = .rejected ∧ dto.lacksReason then member
      else (member.decided dto.kycStatus).apply member

def suspends (memberId : String) : Request → Bool
  | .suspendMember owner _ => owner = memberId
  | _ => false

def unsuspends (memberId : String) : Request → Bool
  | .unsuspendMember owner => owner = memberId
  | _ => false

/-- The request approves or rejects the member, and gives a reason if it rejects. -/
def decidesKyc (memberId : String) : Request → Bool
  | .updateKyc owner dto => owner = memberId ∧ ¬(dto.kycStatus = .rejected ∧ dto.lacksReason)
  | _ => false

def applyAll (memberId : String) (requests : List Request) (member : Member) : Member :=
  requests.foldl (fun member r => if r.memberId = memberId then r.apply member else member) member

/-- Every suspension of the member is followed by a request that lifts it. -/
def Lifted (memberId : String) : List Request → Prop
  | [] => True
  | r :: later =>
      (r.suspends memberId → ∃ r ∈ later, r.unsuspends memberId) ∧ Lifted memberId later

end Request

def emitted (requests : List Request) (s : Store) : List MemberEvent :=
  (serveAll requests s).outbox.drop s.outbox.length

section Serve
variable {s : Store} {memberId : String}

theorem run_findOrFail_none (h : s.members.lookup memberId = none) (k : Member → Call Member) :
    ((MemberService.findOrFail memberId >>= k).run exec (fun _ => .done) s).2 = s := by
  rw [MemberService.findOrFail, bind_bind, run_send_bind_done _ _ _ _ rfl]
  simp only [exec, h]
  rfl

theorem run_findOrFail_some {member : Member} (h : s.members.lookup memberId = some member)
    (k : Member → Call Member) :
    (MemberService.findOrFail memberId >>= k).run exec (fun _ => .done) s =
      (k member).run exec (fun _ => .done) s := by
  rw [MemberService.findOrFail, bind_bind, run_send_bind_done _ _ _ _ rfl]
  simp only [exec, h]
  rfl

/-- How a request ends: with the store as it was, or with the member written
and one event emitted that no trader is found by. -/
inductive Served (r : Request) (s : Store) : Store → Prop
  | kept (h : (s.members.lookup r.memberId).map r.apply = s.members.lookup r.memberId) :
      Served r s s
  | written (member : Member) (profileCache : String → Option Member) (event : MemberEvent)
      (h : s.members.lookup r.memberId = some member)
      (hevent : ∀ memberId, Trading.Misses memberId event) :
      Served r s
        { members := s.members.insert r.memberId (r.apply member)
          profileCache := profileCache
          outbox := s.outbox ++ [event] }

theorem served_write {r : Request} {member : Member} (h : s.members.lookup r.memberId = some member)
    (set : MemberUpdate) (hset : r.apply member = set.apply member) {event : MemberEvent}
    (hevent : ∀ memberId, Trading.Misses memberId event) :
    Served r s ((do
      query (.saveMember r.memberId set)
      CacheService.del (RedisKeys.memberProfile r.memberId)
      query (.emit event)
      pure (set.apply member) : Call Member).run exec (fun _ => .done) s).2 := by
  change Served r s (exec (.emit event) (exec (.delProfileCache _)
    (exec (.saveMember r.memberId set) s).2).2).2
  simp only [exec, h, ← hset]
  exact .written member _ event h hevent

theorem served (r : Request) (s : Store) : Served r s (r.serve.run exec (fun _ => .done) s).2 := by
  rcases h : s.members.lookup r.memberId with _ | member
  · have hkept : Served r s s := .kept (by rw [h]; rfl)
    cases r with
    | suspendMember owner dto =>
      rwa [Request.serve, MemberService.suspendMember,
        run_findOrFail_none (show s.members.lookup owner = none from h)]
    | unsuspendMember owner =>
      rwa [Request.serve, MemberService.unsuspendMember,
        run_findOrFail_none (show s.members.lookup owner = none from h)]
    | updateKyc owner dto =>
      rw [Request.serve, MemberService.updateKyc]
      split
      · exact hkept
      · rwa [run_findOrFail_none (show s.members.lookup owner = none from h)]
  · have hkept (happly : r.apply member = member) : Served r s s :=
      .kept (by rw [h, Option.map_some, happly])
    cases r with
    | suspendMember owner dto =>
      rw [Request.serve, MemberService.suspendMember,
        run_findOrFail_some (show s.members.lookup owner = some member from h)]
      split
      · exact hkept (if_pos ‹_›)
      · exact served_write h _ (if_neg ‹_›) fun _ => rfl
    | unsuspendMember owner =>
      rw [Request.serve, MemberService.unsuspendMember,
        run_findOrFail_some (show s.members.lookup owner = some member from h)]
      split
      · exact hkept (if_pos ‹_›)
      · exact served_write h _ (if_neg ‹_›) fun _ => rfl
    | updateKyc owner dto =>
      rw [Request.serve, MemberService.updateKyc]
      split
      · exact hkept (if_pos ‹_›)
      · rw [run_findOrFail_some (show s.members.lookup owner = some member from h)]
        exact served_write h _ (if_neg ‹_›) fun _ => rfl

theorem lookup_serve (r : Request) (s : Store) (memberId : String) :
    (r.serve.run exec (fun _ => .done) s).2.members.lookup memberId =
      (s.members.lookup memberId).map fun member =>
        if r.memberId = memberId then r.apply member else member := by
  generalize hs : (r.serve.run exec (fun _ => .done) s).2 = s'
  have hserved := hs ▸ served r s
  by_cases hr : r.memberId = memberId
  · subst hr
    simp only [if_true]
    cases hserved with
    | kept h => exact h.symm
    | written member profileCache event h hevent =>
      rw [AList.lookup_insert, h]
      rfl
  · simp only [hr, if_false, Option.map_id']
    cases hserved with
    | kept h => rfl
    | written member profileCache event h hevent => exact AList.lookup_insert_ne (Ne.symm hr)

theorem lookup_serveAll (requests : List Request) (s : Store) (memberId : String) :
    (serveAll requests s).members.lookup memberId =
      (s.members.lookup memberId).map (Request.applyAll memberId requests) := by
  induction requests generalizing s with
  | nil => exact congrFun Option.map_id.symm _
  | cons r requests ih =>
    rw [serveAll, List.foldl_cons, ← serveAll, ih, lookup_serve, Option.map_map]
    rfl

theorem outbox_serveAll (requests : List Request) (s : Store) :
    ∃ events, (serveAll requests s).outbox = s.outbox ++ events ∧
      ∀ event ∈ events, ∀ memberId, Trading.Misses memberId event := by
  induction requests generalizing s with
  | nil => exact ⟨[], (List.append_nil _).symm, fun _ h => absurd h List.not_mem_nil⟩
  | cons r requests ih =>
    rw [serveAll, List.foldl_cons, ← serveAll]
    obtain ⟨events, hout, hmiss⟩ := ih (r.serve.run exec (fun _ => .done) s).2
    rw [hout]
    generalize hs : (r.serve.run exec (fun _ => .done) s).2 = s'
    cases hs ▸ served r s with
    | kept _ => exact ⟨events, rfl, hmiss⟩
    | written member profileCache event _ hevent =>
      exact ⟨event :: events, List.append_assoc .., List.forall_mem_cons.mpr ⟨hevent, hmiss⟩⟩

/-- Whatever is asked for, no trader is found by the events emitted for it. -/
theorem misses_emitted (requests : List Request) (s : Store) (memberId : String) :
    ∀ event ∈ emitted requests s, Trading.Misses memberId event := by
  obtain ⟨events, hout, hmiss⟩ := outbox_serveAll requests s
  rw [emitted, hout, List.drop_left]
  exact fun event h => hmiss event h memberId

end Serve

section Standing
variable {memberId : String} {member : Member}

/-- A request decides about the status of the member it names, or leaves it. -/
theorem status_apply (r : Request) (h : member.status ≠ .pendingVerification) :
    (r.apply member).status =
      if r.suspends r.memberId then .suspended
      else if r.unsuspends r.memberId then .active
      else member.status := by
  cases r with
  | suspendMember owner dto =>
    by_cases hs : member.status = .suspended
    · simp [Request.apply, Request.suspends, Request.memberId, hs]
    · simp [Request.apply, Request.suspends, Request.memberId, hs]
  | unsuspendMember owner =>
    by_cases hs : member.status = .suspended
    · simp [Request.apply, Request.suspends, Request.unsuspends, Request.memberId, hs]
    · have hactive : member.status = .active := by
        cases hm : member.status <;> simp_all
      simp [Request.apply, Request.suspends, Request.unsuspends, Request.memberId, hactive]
  | updateKyc owner dto =>
    simp only [Request.apply, Request.suspends, Request.unsuspends, Bool.false_eq_true, if_false]
    split <;> rfl

theorem kyc_apply (r : Request) (member : Member) :
    (r.apply member).kycStatus = .pending ↔
      member.kycStatus = .pending ∧ ¬r.decidesKyc r.memberId := by
  cases r with
  | suspendMember owner dto =>
    simp only [Request.apply, Request.decidesKyc, Bool.false_eq_true, not_false_eq_true, and_true]
    split <;> rfl
  | unsuspendMember owner =>
    simp only [Request.apply, Request.decidesKyc, Bool.false_eq_true, not_false_eq_true, and_true]
    split <;> rfl
  | updateKyc owner dto =>
    by_cases hr : dto.kycStatus = .rejected ∧ dto.lacksReason
    · simp [Request.apply, Request.decidesKyc, hr]
    · simp [Request.apply, Request.decidesKyc, Request.memberId, hr, dto.kycStatus_decides]

theorem suspends_of_ne {r : Request} (h : r.memberId ≠ memberId) : r.suspends memberId = false := by
  cases r with
  | suspendMember owner dto => exact decide_eq_false h
  | _ => rfl

theorem unsuspends_of_ne {r : Request} (h : r.memberId ≠ memberId) :
    r.unsuspends memberId = false := by
  cases r with
  | unsuspendMember owner => exact decide_eq_false h
  | _ => rfl

theorem decidesKyc_of_ne {r : Request} (h : r.memberId ≠ memberId) :
    r.decidesKyc memberId = false := by
  cases r with
  | updateKyc owner dto => exact decide_eq_false fun hr => h hr.1
  | _ => rfl

/-- Requests leave a suspended member only if the last of them that decides
about it is no suspension. -/
theorem status_applyAll (memberId : String) (requests : List Request)
    (h : member.status ≠ .pendingVerification) :
    (Request.applyAll memberId requests member).status = .active ↔
      Request.Lifted memberId requests ∧
        (member.status = .suspended → ∃ r ∈ requests, r.unsuspends memberId) := by
  induction requests generalizing member with
  | nil =>
    simp only [Request.applyAll, List.foldl_nil, Request.Lifted, true_and]
    cases hm : member.status <;> simp_all
  | cons r requests ih =>
    rw [Request.applyAll, List.foldl_cons, ← Request.applyAll, Request.Lifted]
    by_cases hr : r.memberId = memberId
    · subst hr
      have hstatus := status_apply r h
      rcases hs : r.suspends r.memberId with _ | _
      · rcases hu : r.unsuspends r.memberId with _ | _
        · simp only [hs, hu, Bool.false_eq_true, if_false] at hstatus
          rw [if_pos rfl, ih (hstatus ▸ h), hstatus]
          simp [hu]
        · simp only [hs, hu, Bool.false_eq_true, if_false, if_true] at hstatus
          rw [if_pos rfl, ih (by simp [hstatus]), hstatus]
          simp [hu]
      · simp only [hs, if_true] at hstatus
        rw [if_pos rfl, ih (by simp [hstatus]), hstatus]
        simp only [true_imp_iff, List.exists_mem_cons_iff]
        tauto
    · rw [if_neg hr, ih h]
      simp [suspends_of_ne hr, unsuspends_of_ne hr]

theorem kyc_applyAll (memberId : String) (requests : List Request) (member : Member) :
    (Request.applyAll memberId requests member).kycStatus = .pending ↔
      member.kycStatus = .pending ∧ ∀ r ∈ requests, ¬r.decidesKyc memberId := by
  induction requests generalizing member with
  | nil => simp [Request.applyAll]
  | cons r requests ih =>
    rw [Request.applyAll, List.foldl_cons, ← Request.applyAll, ih]
    by_cases hr : r.memberId = memberId
    · subst hr
      rw [if_pos rfl, kyc_apply, and_assoc, List.forall_mem_cons]
    · rw [if_neg hr]
      simp [decidesKyc_of_ne hr]

/-- From a registration on, the trader stands as it was registered, and the
member as the requests ask. -/
theorem Registered.agrees_iff {s : Store} {traders : Traders}
    (h : Registered memberId s traders) {fresh : ℕ → String} (hfresh : ∀ n, fresh n ≠ memberId)
    (requests : List Request) :
    Agrees memberId (serveAll requests s)
        (Trading.MemberEventConsumer.handleAll fresh 0 (emitted requests s) traders) ↔
      Request.Lifted memberId requests ∧ ∀ r ∈ requests, ¬r.decidesKyc memberId := by
  obtain ⟨member, hm, hactive, hpending⟩ := h.member
  obtain ⟨trader, ht, htactive, htpending⟩ := h.trader
  have hstatus := status_applyAll memberId requests (by simp [hactive] :
    member.status ≠ .pendingVerification)
  have hkyc := kyc_applyAll memberId requests member
  simp only [hactive, reduceCtorEq, false_imp_iff, and_true] at hstatus
  simp only [hpending, true_and] at hkyc
  rw [agrees_iff_of_lookup (by rw [lookup_serveAll, hm]; rfl)
    (by rw [Trading.lookup_handleAll_of_misses hfresh (misses_emitted requests s memberId), ht]),
    htactive, htpending, ← hstatus, ← hkyc, @eq_comm _ (traderValue .active)]
  refine and_congr ?_ eq_comm
  cases (Request.applyAll memberId requests member).status <;>
    simp [MemberStatus.value, traderValue]

end Standing

/-- Once every event of a run after the registration is delivered, the trader
agrees with the member if and only if every suspension was lifted again and no
KYC decision was made. -/
theorem trader_agrees_iff (event : MemberRegisteredEvent) {s : Store} {traders : Traders}
    (hs : ¬s.Refuses event.userId event.member)
    (ht : ¬traders.Refuses event.userId event.email) {fresh : ℕ → String}
    (hfresh : ∀ n, fresh n ≠ event.userId) (requests : List Request) :
    let start := ((MemberRegisteredConsumer.handle event).run exec (fun _ => .done) s).2
    let registered := Trading.MemberEventConsumer.handle (fresh 0) (.registered event) traders
    Agrees event.userId (serveAll requests start)
        (Trading.MemberEventConsumer.handleAll (fun n => fresh (n + 1)) 0
          (emitted requests start) registered) ↔
      Request.Lifted event.userId requests ∧ ∀ r ∈ requests, ¬r.decidesKyc event.userId :=
  (registered_handle (fresh 0) event hs ht).agrees_iff (fun n => hfresh (n + 1)) requests

section Example

def newcomer : MemberRegisteredEvent where
  userId := "m1"
  fullName := "Member One"
  email := "one@example.com"
  nationalId := "1"
  dateOfBirth := ⟨1995, 6, 15⟩

def emptyStore : Store where
  members := ∅
  profileCache _ := none
  outbox := []

theorem fresh_ne (n : ℕ) : "fresh:" ++ toString n ≠ newcomer.userId := by
  intro h
  have hhead := congrArg (fun t : String => t.toList.head?) h
  simp [newcomer] at hhead

theorem trader_agrees_unsuspended :
    let start := ((MemberRegisteredConsumer.handle newcomer).run exec (fun _ => .done)
      emptyStore).2
    let requests : List Request := [.suspendMember "m1" ⟨some "audit"⟩, .unsuspendMember "m1"]
    Agrees "m1" (serveAll requests start)
      (Trading.MemberEventConsumer.handleAll (fun n => "fresh:" ++ toString (n + 1)) 0
        (emitted requests start)
        (Trading.MemberEventConsumer.handle "fresh:0" (.registered newcomer) ∅)) :=
  (trader_agrees_iff newcomer (by decide) (by decide) fresh_ne _).mpr
    ⟨by simp [Request.Lifted, Request.unsuspends, Request.suspends, newcomer], by decide⟩

/-- One suspension is enough: the trader stays active and goes on trading. -/
theorem suspended_trader_active :
    let start := ((MemberRegisteredConsumer.handle newcomer).run exec (fun _ => .done)
      emptyStore).2
    let requests : List Request := [.suspendMember "m1" ⟨some "audit"⟩]
    ¬Agrees "m1" (serveAll requests start)
      (Trading.MemberEventConsumer.handleAll (fun n => "fresh:" ++ toString (n + 1)) 0
        (emitted requests start)
        (Trading.MemberEventConsumer.handle "fresh:0" (.registered newcomer) ∅)) := by
  intro start requests h
  have hreg := registered_handle "fresh:0" newcomer
    (by decide : ¬emptyStore.Refuses newcomer.userId newcomer.member)
    (by decide : ¬Traders.Refuses ∅ newcomer.userId newcomer.email)
  have hlifted := ((hreg.agrees_iff (fun n => fresh_ne (n + 1)) requests).mp h).1
  simp [requests, Request.Lifted, Request.suspends, newcomer] at hlifted

end Example
end StockMarket.Members
