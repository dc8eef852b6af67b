import StockMarket.Members.Profiles
import StockMarket.Members.ReadModel

/-! # The cache is a performance layer

Requests served one after another are answered as without the cache, whatever becomes of
the reads and fills of the cache and whichever keys expire. Only a deletion must reach
Redis.
-/

namespace StockMarket.Members
open Interleaving Prog

/-- Redis may fail to read or to fill a key. -/
def CacheMayFail (outcome : ProfileOp → Outcome Exception) : Prop :=
  ∀ op, outcome op = .done ∨ (∃ key, op = .getProfileCache key) ∨
    ∃ key member, op = .setProfileCache key member

def withoutCache : (op : ProfileOp) → ProfileCall op.Reply
  | .getProfileCache _ => pure none
  | .setProfileCache _ _ => pure ()
  | .member (.delProfileCache _) => pure ()
  | .member op => ask (.member op)
  | .updateMember memberId dto => ask (.updateMember memberId dto)

def ProfileRequest.plain (r : ProfileRequest) : ProfileCall (Option Member) :=
  r.serve.substitute withoutCache

/-- A request, how its operations end, and the keys that expire after it. -/
structure Round where
  request : ProfileRequest
  outcome : ProfileOp → Outcome Exception
  expired : List Expiry

def serveRounds : List Round → Store → List (Except Exception (Option Member)) × Store
  | [], s => ([], s)
  | round :: rounds, s =>
      let (answer, s') := round.request.serve.run execProfile round.outcome s
      let (answers, s'') := serveRounds rounds (round.expired.foldl (fun s x => x.apply s) s')
      (answer :: answers, s'')

/-- The answers where nothing is cached and every operation is answered. -/
def plainRounds : List Round → Store → List (Except Exception (Option Member)) × Store
  | [], s => ([], s)
  | round :: rounds, s =>
      let (answer, s') := round.request.plain.run execProfile (fun _ => .done) s
      let (answers, s'') := plainRounds rounds s'
      (answer :: answers, s'')

/-- The stores differ in what is cached only. -/
structure SameButCache (s t : Store) : Prop where
  members : s.members = t.members
  outbox : s.outbox = t.outbox

section Plain
variable {s t : Store} {outcome : ProfileOp → Outcome Exception}

/-- Without its cache an operation does to the rest what it does with it. -/
theorem withoutCache_member (op : MemberOp) (h : SameButCache s t) :
    ((withoutCache (.member op)).run execProfile (fun _ => .done) t).1 = .ok (exec op s).1 ∧
      SameButCache (exec op s).2
        ((withoutCache (.member op)).run execProfile (fun _ => .done) t).2 := by
  obtain ⟨members, cache, outbox⟩ := s
  obtain ⟨members', cache', outbox'⟩ := t
  obtain ⟨rfl, rfl⟩ := h
  cases op with
  | createMember memberId doc =>
    change Except.ok (exec _ _).1 = _ ∧ SameButCache _ (exec _ _).2
    by_cases hs : Store.Refuses ⟨members, cache, outbox⟩ memberId doc
    · have ht : Store.Refuses ⟨members, cache', outbox⟩ memberId doc := hs
      rw [exec, exec, if_pos hs, if_pos ht]
      exact ⟨rfl, rfl, rfl⟩
    · have ht : ¬Store.Refuses ⟨members, cache', outbox⟩ memberId doc := hs
      rw [exec, exec, if_neg hs, if_neg ht]
      exact ⟨rfl, rfl, rfl⟩
  | saveMember memberId set =>
    change _ ∧ SameButCache _ (exec _ _).2
    simp only [exec]
    split <;> exact ⟨rfl, rfl, rfl⟩
  | findMember memberId => exact ⟨rfl, rfl, rfl⟩
  | delProfileCache key => exact ⟨rfl, rfl, rfl⟩
  | emit event => exact ⟨rfl, rfl, rfl⟩

theorem CacheMayFail.done (houtcome : CacheMayFail outcome) (op : MemberOp) :
    outcome (.member op) = .done := by
  rcases houtcome (.member op) with hdone | ⟨key, ⟨⟩⟩ | ⟨key, member, ⟨⟩⟩
  exact hdone

theorem run_lift (houtcome : CacheMayFail outcome) {α : Type} (p : Call α) (s : Store) :
    (lift p).run execProfile outcome s = p.run exec (fun _ => .done) s := by
  obtain ⟨hanswer, hstore⟩ := run_substitute (fun op => ask (.member op)) exec execProfile outcome
    (R := fun x y => x = y) (fun op x y hxy => by
      subst hxy
      rw [run_send, houtcome.done op]
      exact ⟨rfl, rfl⟩) p (rfl : s = s)
  exact Prod.ext hanswer hstore.symm

/-- Without the cache a function that only deletes from it answers the same. -/
theorem plain_lift {α : Type} (p : Call α) (h : SameButCache s t) :
    (((lift p).substitute withoutCache).run execProfile (fun _ => .done) t).1 =
        (p.run exec (fun _ => .done) s).1 ∧
      SameButCache (p.run exec (fun _ => .done) s).2
        (((lift p).substitute withoutCache).run execProfile (fun _ => .done) t).2 := by
  have hbody : (fun op => (ask (.member op)).substitute withoutCache) =
      fun op => withoutCache (.member op) := funext fun op => substitute_send withoutCache _
  rw [lift, substitute_substitute, hbody]
  exact run_substitute _ exec execProfile _ (fun op _ _ => withoutCache_member op) p h

end Plain

section Coherent
variable {s : Store} {outcome : ProfileOp → Outcome Exception}

/-- A change of a member, whose key is deleted, leaves the other keys coherent. -/
theorem Store.Coherent.change (h : s.Coherent) (memberId : String) (member : Member)
    (outbox : List MemberEvent) :
    Store.Coherent
      { members := s.members.insert memberId member
        profileCache := Function.update s.profileCache (RedisKeys.memberProfile memberId) none
        outbox } := by
  intro other profile hcached
  dsimp only at hcached ⊢
  by_cases hother : other = memberId
  · subst hother
    simp at hcached
  · rw [Function.update_of_ne (memberProfile_injective.ne hother)] at hcached
    exact (AList.lookup_insert_ne hother).trans (h other profile hcached)

theorem Store.Coherent.fill (h : s.Coherent) {memberId : String} {member : Member}
    (hmember : s.members.lookup memberId = some member) :
    (execProfile (.setProfileCache (RedisKeys.memberProfile memberId) member) s).2.Coherent := by
  intro other profile hcached
  simp only [execProfile] at hcached ⊢
  by_cases hother : other = memberId
  · subst hother
    simp only [Function.update_self, Option.some.injEq] at hcached
    exact hmember.trans (congrArg some hcached)
  · rw [Function.update_of_ne (memberProfile_injective.ne hother)] at hcached
    exact h other profile hcached

theorem Store.Coherent.expire (h : s.Coherent) (x : Expiry) : (x.apply s).Coherent := by
  intro other profile hcached
  by_cases hk : RedisKeys.memberProfile other = x.key
  · simp [Expiry.apply, hk] at hcached
  · exact h other profile (by simpa [Expiry.apply, Function.update_of_ne hk] using hcached)

/-- A decision that writes deletes the key of what it has written. -/
theorem coherent_write (h : s.Coherent) {memberId : String} {member : Member}
    (hmember : s.members.lookup memberId = some member) (set : MemberUpdate) (event : MemberEvent) :
    ((do
      query (.saveMember memberId set)
      CacheService.del (RedisKeys.memberProfile memberId)
      query (.emit event)
      pure (set.apply member) : Call Member).run exec (fun _ => .done) s).2.Coherent := by
  change (exec (.emit event) (exec (.delProfileCache _)
    (exec (.saveMember memberId set) s).2).2).2.Coherent
  simp only [exec, hmember]
  exact h.change memberId _ _

theorem coherent_serve (h : s.Coherent) (r : Request) :
    (r.serve.run exec (fun _ => .done) s).2.Coherent := by
  rcases hmember : s.members.lookup r.memberId with _ | member
  · cases r with
    | suspendMember owner dto =>
      rwa [Request.serve, MemberService.suspendMember,
        run_findOrFail_none (show s.members.lookup owner = none from hmember)]
    | unsuspendMember owner =>
      rwa [Request.serve, MemberService.unsuspendMember,
        run_findOrFail_none (show s.members.lookup owner = none from hmember)]
    | updateKyc owner dto =>
      rw [Request.serve, MemberService.updateKyc]
      split
      · exact h
      · rwa [run_findOrFail_none (show s.members.lookup owner = none from hmember)]
  · cases r with
    | suspendMember owner dto =>
      rw [Request.serve, MemberService.suspendMember,
        run_findOrFail_some (show s.members.lookup owner = some member from hmember)]
      split
      · exact h
      · exact coherent_write h hmember _ _
    | unsuspendMember owner =>
      rw [Request.serve, MemberService.unsuspendMember,
        run_findOrFail_some (show s.members.lookup owner = some member from hmember)]
      split
      · exact h
      · exact coherent_write h hmember _ _
    | updateKyc owner dto =>
      rw [Request.serve, MemberService.updateKyc]
      split
      · exact h
      · rw [run_findOrFail_some (show s.members.lookup owner = some member from hmember)]
        exact coherent_write h hmember _ _

theorem coherent_handle (h : s.Coherent) (event : MemberRegisteredEvent) :
    ((MemberRegisteredConsumer.handle event).run exec (fun _ => .done) s).2.Coherent := by
  change (exec (.createMember event.userId event.member) s).2.Coherent
  rw [exec]
  split
  · exact h
  · rename_i hrefuses
    intro other profile hcached
    have hstored := h other profile hcached
    have hne : other ≠ event.userId := by
      rintro rfl
      exact hrefuses (refuses_iff.mpr (.inl (by rw [hstored]; rfl)))
    exact (AList.lookup_insert_ne hne).trans hstored

theorem coherent_updateProfile (h : s.Coherent) (userId : String) (dto : UpdateMemberDto) :
    (exec (.delProfileCache (RedisKeys.memberProfile userId))
      (execProfile (.updateMember userId dto) s).2).2.Coherent := by
  rcases hmember : s.members.lookup userId with _ | member
  · simp only [execProfile, hmember, exec]
    exact h.expire ⟨_⟩
  · simp only [execProfile, hmember, exec]
    exact h.change userId _ _

end Coherent

section Rounds
variable {s t : Store} {outcome : ProfileOp → Outcome Exception}

/-- A request is answered as without the cache, and leaves a cache that may be trusted. -/
structure Transparent (outcome : ProfileOp → Outcome Exception) {α : Type} (p : ProfileCall α)
    (s t : Store) : Prop where
  answer : (p.run execProfile outcome s).1 =
    ((p.substitute withoutCache).run execProfile (fun _ => .done) t).1
  same : SameButCache (p.run execProfile outcome s).2
    ((p.substitute withoutCache).run execProfile (fun _ => .done) t).2
  coherent : (p.run execProfile outcome s).2.Coherent

theorem Transparent.map {α β : Type} {p : ProfileCall α} (h : Transparent outcome p s t)
    (f : α → β) : Transparent outcome (f <$> p) s t := by
  have hwith : (f <$> p).run execProfile outcome s =
      ((p.run execProfile outcome s).1.map f, (p.run execProfile outcome s).2) := by
    change (p >>= fun a => pure (f a)).run execProfile outcome s = _
    rw [run_bind]
    rcases p.run execProfile outcome s with ⟨e | a, s'⟩ <;> rfl
  have hwithout : ((f <$> p).substitute withoutCache).run execProfile (fun _ => .done) t =
      (((p.substitute withoutCache).run execProfile (fun _ => .done) t).1.map f,
        ((p.substitute withoutCache).run execProfile (fun _ => .done) t).2) := by
    change ((p >>= fun a => pure (f a)).substitute withoutCache).run execProfile _ t = _
    rw [substitute_bind, run_bind]
    rcases (p.substitute withoutCache).run execProfile (fun _ => .done) t with ⟨e | a, t'⟩ <;> rfl
  exact ⟨by rw [hwith, hwithout, h.answer], by rw [hwith, hwithout]; exact h.same,
    by rw [hwith]; exact h.coherent⟩

theorem run_cachedMember (outcome : ProfileOp → Outcome Exception) (s : Store)
    (missing memberId : String) :
    (∃ profile, s.profileCache (RedisKeys.memberProfile memberId) = some profile ∧
        (MemberService.cachedMember missing memberId).run execProfile outcome s =
          (.ok profile, s)) ∨
      (MemberService.cachedMember missing memberId).run execProfile outcome s =
        (MemberService.readMember missing memberId).run execProfile outcome s := by
  rw [MemberService.cachedMember, CacheService.get, run_catching_bind, run_send]
  cases outcome (.getProfileCache (RedisKeys.memberProfile memberId)) with
  | done =>
    rcases hcached : s.profileCache (RedisKeys.memberProfile memberId) with _ | profile
    · simp only [execProfile, hcached, or_true]
    · refine .inl ⟨profile, rfl, ?_⟩
      simp only [execProfile, hcached]
      rfl
  | failed e => exact .inr rfl
  | lost e => exact .inr rfl

theorem run_readMember (houtcome : CacheMayFail outcome) (s : Store) (missing memberId : String) :
    ∃ s', (MemberService.readMember missing memberId).run execProfile outcome s =
        ((s.members.lookup memberId).elim (.error (.notFound missing)) .ok, s') ∧
      (s' = s ∨ ∃ member, s.members.lookup memberId = some member ∧
        s' = (execProfile (.setProfileCache (RedisKeys.memberProfile memberId) member) s).2) := by
  rw [MemberService.readMember, run_send_bind_done _ _ _ _ (houtcome.done _)]
  rcases hmember : s.members.lookup memberId with _ | member
  · exact ⟨s, by simp only [execProfile, exec, hmember]; rfl, .inl rfl⟩
  · simp only [execProfile, exec, hmember, CacheService.set, run_catching_bind, run_send]
    cases outcome (.setProfileCache (RedisKeys.memberProfile memberId) member) with
    | done => exact ⟨_, rfl, .inr ⟨member, rfl, rfl⟩⟩
    | failed e => exact ⟨_, rfl, .inl rfl⟩
    | lost e => exact ⟨_, rfl, .inr ⟨member, rfl, rfl⟩⟩

theorem plain_get (key : String) :
    (CacheService.get key).substitute withoutCache = pure none := by
  rw [CacheService.get, catching, substitute_handle, substitute_send]
  rfl

theorem plain_set (key : String) (member : Member) :
    (CacheService.set key member).substitute withoutCache = pure () := by
  rw [CacheService.set, catching, substitute_handle, substitute_send]
  rfl

/-- Without the cache a profile is looked up in the collection. -/
theorem plain_readMember (missing memberId : String) :
    (MemberService.readMember missing memberId).substitute withoutCache =
      ask (.member (.findMember memberId)) >>= fun found =>
        Prog.ofExcept (found.elim (.error (.notFound missing)) .ok) := by
  rw [MemberService.readMember, substitute_bind, substitute_send]
  change ask (.member (.findMember memberId)) >>= _ = _
  congr 1
  funext found
  rcases found with _ | member
  · rfl
  · dsimp only
    rw [substitute_bind, plain_set]
    rfl

theorem run_plain_cachedMember (missing memberId : String) (t : Store) :
    ((MemberService.cachedMember missing memberId).substitute withoutCache).run execProfile
        (fun _ => .done) t =
      ((t.members.lookup memberId).elim (.error (.notFound missing)) .ok, t) := by
  rw [MemberService.cachedMember, substitute_bind, plain_get]
  change ((MemberService.readMember missing memberId).substitute withoutCache).run _ _ t = _
  rw [plain_readMember, run_send_bind_done _ _ _ _ rfl]
  change (Prog.ofExcept ((t.members.lookup memberId).elim _ _)).run _ _ t = _
  rcases t.members.lookup memberId with _ | member <;> rfl

theorem transparent_cachedMember (houtcome : CacheMayFail outcome) (hs : s.Coherent)
    (h : SameButCache s t) (missing memberId : String) :
    Transparent outcome (MemberService.cachedMember missing memberId) s t := by
  have hplain := run_plain_cachedMember missing memberId t
  have hwith : ∃ s', SameButCache s' t ∧ s'.Coherent ∧
      (MemberService.cachedMember missing memberId).run execProfile outcome s =
        ((t.members.lookup memberId).elim (.error (.notFound missing)) .ok, s') := by
    rw [← h.members]
    rcases run_cachedMember outcome s missing memberId with ⟨profile, hcached, hrun⟩ | hrun
    · rw [hs memberId profile hcached]
      exact ⟨s, h, hs, hrun⟩
    · rw [hrun]
      obtain ⟨s', hread, rfl | ⟨member, hmember, rfl⟩⟩ := run_readMember houtcome s missing memberId
      · exact ⟨s', h, hs, hread⟩
      · refine ⟨_, ?_, hs.fill hmember, hread⟩
        exact ⟨h.members, h.outbox⟩
  obtain ⟨s', hsame, hcoherent, hrun⟩ := hwith
  exact ⟨by rw [hrun, hplain], by rw [hrun, hplain]; exact hsame, by rw [hrun]; exact hcoherent⟩

theorem transparent_del (houtcome : CacheMayFail outcome) (h : SameButCache s t) (key : String)
    (hs : (exec (.delProfileCache key) s).2.Coherent) (member : Member) :
    Transparent outcome (lift (CacheService.del key) >>= fun _ => pure member) s t := by
  have hwith : (lift (CacheService.del key) >>= fun _ => pure member).run execProfile outcome s =
      (.ok member, (exec (.delProfileCache key) s).2) := by
    rw [run_bind, run_lift houtcome]
    rfl
  have hplain : ((lift (CacheService.del key) >>= fun _ => pure member).substitute
      withoutCache).run execProfile (fun _ => .done) t = (.ok member, t) := by
    rw [substitute_bind, lift_del, catching, substitute_handle, substitute_send]
    rfl
  exact ⟨by rw [hwith, hplain], by rw [hwith, hplain]; exact ⟨h.members, h.outbox⟩,
    by rw [hwith]; exact hs⟩

/-- What follows an operation that has nothing to do with the cache. -/
theorem Transparent.update {α : Type} {memberId : String} {dto : UpdateMemberDto}
    {k : Option Member → ProfileCall α} (houtcome : CacheMayFail outcome)
    (hreply : (execProfile (.updateMember memberId dto) t).1 =
      (execProfile (.updateMember memberId dto) s).1)
    (hk : Transparent outcome (k (execProfile (.updateMember memberId dto) s).1)
      (execProfile (.updateMember memberId dto) s).2
      (execProfile (.updateMember memberId dto) t).2) :
    Transparent outcome (ask (.updateMember memberId dto) >>= k) s t := by
  have hdone : outcome (.updateMember memberId dto) = .done := by
    rcases houtcome (.updateMember memberId dto) with hdone | ⟨key, ⟨⟩⟩ | ⟨key, member, ⟨⟩⟩
    exact hdone
  have hwith := run_send_bind_done execProfile outcome k s hdone
  have hplain : ((ask (.updateMember memberId dto) >>= k).substitute withoutCache).run execProfile
      (fun _ => .done) t =
        ((k (execProfile (.updateMember memberId dto) s).1).substitute withoutCache).run execProfile
          (fun _ => .done) (execProfile (.updateMember memberId dto) t).2 := by
    rw [substitute_bind, substitute_send, ← hreply]
    exact run_send_bind_done execProfile _ _ t rfl
  exact ⟨by rw [hwith, hplain]; exact hk.answer, by rw [hwith, hplain]; exact hk.same,
    by rw [hwith]; exact hk.coherent⟩

theorem transparent_updateProfile (houtcome : CacheMayFail outcome) (hs : s.Coherent)
    (h : SameButCache s t) (userId : String) (dto : UpdateMemberDto) :
    Transparent outcome (MemberService.updateProfile userId dto) s t := by
  rw [MemberService.updateProfile]
  split
  · exact ⟨rfl, h, hs⟩
  have hcoherent := coherent_updateProfile hs userId dto
  rcases hmember : t.members.lookup userId with _ | member
  · apply Transparent.update houtcome
    · simp only [execProfile, h.members, hmember]
    · simp only [execProfile, h.members, hmember]
      exact ⟨rfl, h, hs⟩
  · simp only [execProfile, h.members, hmember] at hcoherent
    apply Transparent.update houtcome
    · simp only [execProfile, h.members, hmember]
    · simp only [execProfile, h.members, hmember]
      refine transparent_del houtcome ?_ _ hcoherent _
      exact ⟨rfl, h.outbox⟩

theorem ProfileRequest.transparent (houtcome : CacheMayFail outcome) (hs : s.Coherent)
    (h : SameButCache s t) (r : ProfileRequest) : Transparent outcome r.serve s t := by
  cases r with
  | getProfile userId => exact (transparent_cachedMember houtcome hs h _ userId).map some
  | getMemberById memberId => exact (transparent_cachedMember houtcome hs h _ memberId).map some
  | updateProfile userId dto => exact (transparent_updateProfile houtcome hs h userId dto).map some
  | decide request =>
    refine Transparent.map ⟨?_, ?_, ?_⟩ some
    · rw [run_lift houtcome, (plain_lift request.serve h).1]
    · rw [run_lift houtcome]
      exact (plain_lift request.serve h).2
    · rw [run_lift houtcome]
      exact coherent_serve hs request
  | registered event =>
    refine Transparent.map (p := lift (MemberRegisteredConsumer.handle event)) ⟨?_, ?_, ?_⟩
      fun _ => none
    · rw [run_lift houtcome, (plain_lift (MemberRegisteredConsumer.handle event) h).1]
    · rw [run_lift houtcome]
      exact (plain_lift (MemberRegisteredConsumer.handle event) h).2
    · rw [run_lift houtcome]
      exact coherent_handle hs event

theorem expire_foldl (expired : List Expiry) (hs : s.Coherent) (h : SameButCache s t) :
    (expired.foldl (fun s x => x.apply s) s).Coherent ∧
      SameButCache (expired.foldl (fun s x => x.apply s) s) t := by
  induction expired generalizing s with
  | nil => exact ⟨hs, h⟩
  | cons x expired ih => exact ih (hs.expire x) ⟨h.members, h.outbox⟩

end Rounds

/-- Requests one after another are answered as without a cache, and leave the members and
the events they would leave, while Redis may fail to read or to fill any key and lose any. -/
theorem cache_transparent (rounds : List Round)
    (houtcome : ∀ round ∈ rounds, CacheMayFail round.outcome) (s : Store) (hs : s.Coherent) :
    (serveRounds rounds s).1 = (plainRounds rounds s).1 ∧
      SameButCache (serveRounds rounds s).2 (plainRounds rounds s).2 := by
  have hrounds (s t : Store) (hs : s.Coherent) (h : SameButCache s t) :
      (serveRounds rounds s).1 = (plainRounds rounds t).1 ∧
        SameButCache (serveRounds rounds s).2 (plainRounds rounds t).2 := by
    induction rounds generalizing s t with
    | nil => exact ⟨rfl, h⟩
    | cons round rounds ih =>
      obtain ⟨houtcome, hrest⟩ := List.forall_mem_cons.mp houtcome
      have hround := round.request.transparent houtcome hs h
      obtain ⟨hcoherent, hsame⟩ := expire_foldl round.expired hround.coherent hround.same
      obtain ⟨hanswers, hstores⟩ := ih hrest _ _ hcoherent hsame
      refine ⟨?_, hstores⟩
      rw [serveRounds, plainRounds, ProfileRequest.plain]
      exact congrArg₂ List.cons hround.answer hanswers
  exact hrounds s s hs ⟨rfl, rfl⟩

section Example

def readsAndFillsFail : ProfileOp → Outcome Exception
  | .getProfileCache _ => .failed (.driver "connect ECONNREFUSED")
  | .setProfileCache _ _ => .failed (.driver "connect ECONNREFUSED")
  | _ => .done

theorem cacheMayFail_readsAndFillsFail : CacheMayFail readsAndFillsFail := by
  intro op
  cases op with
  | member op => exact .inl rfl
  | getProfileCache key => exact .inr (.inl ⟨key, rfl⟩)
  | setProfileCache key member => exact .inr (.inr ⟨key, member, rfl⟩)
  | updateMember memberId dto => exact .inl rfl

/-- A member registers, looks, is suspended and looks again. -/
def lookSuspendLook : List Round :=
  [⟨.registered newcomer, fun _ => .done, []⟩, ⟨.getProfile "m1", fun _ => .done, []⟩,
    ⟨.decide (.suspendMember "m1" ⟨some "audit"⟩), readsAndFillsFail, []⟩,
    ⟨.getProfile "m1", fun _ => .done, [⟨RedisKeys.memberProfile "m1"⟩]⟩]

theorem cache_transparent_suspended :
    (serveRounds lookSuspendLook emptyStore).1 = (plainRounds lookSuspendLook emptyStore).1 ∧
      SameButCache (serveRounds lookSuspendLook emptyStore).2
        (plainRounds lookSuspendLook emptyStore).2 := by
  refine cache_transparent lookSuspendLook ?_ emptyStore ?_
  · simp only [lookSuspendLook, List.forall_mem_cons]
    exact ⟨fun _ => .inl rfl, fun _ => .inl rfl, cacheMayFail_readsAndFillsFail,
      fun _ => .inl rfl, by simp⟩
  · rintro memberId profile ⟨⟩

end Example
end StockMarket.Members
