import StockMarket.Alerts.Pool
import StockMarket.Interleaving.Tally

/-! # Messages of interleaved workers

Marking does not ask whether an alert is still waiting. As long as every mark
finds its alerts waiting, each alert is announced once at most. As long as
nothing comes between a mark and its messages, none is lost.
-/

namespace StockMarket.Alerts
open Interleaving Prog

section Flags
variable {s : Store} {id : String}

/-- Every document of the id has been triggered. -/
def Store.Triggered (s : Store) (id : String) : Prop :=
  ∀ alert ∈ s.alerts.docs, alert.id = id → alert.triggered

instance (s : Store) (id : String) : Decidable (s.Triggered id) :=
  inferInstanceAs (Decidable (∀ alert ∈ s.alerts.docs, alert.id = id → alert.triggered))

theorem triggered_exec (op : AlertOp) (h : s.Triggered id) : (exec op s).2.Triggered id := by
  cases op with
  | updateTriggered ids =>
    intro alert halert hid
    obtain ⟨old, hold, rfl⟩ := List.mem_map.mp halert
    rw [Collection.id_mark] at hid
    unfold Collection.mark
    split
    · rfl
    · exact h old hold hid
  | _ => exact h

theorem triggered_update {ids : List String} (h : id ∈ ids) :
    (exec (.updateTriggered ids) s).2.Triggered id := by
  intro alert halert hid
  obtain ⟨old, -, rfl⟩ := List.mem_map.mp halert
  rw [Collection.id_mark] at hid
  simp [Collection.mark, hid, h]

end Flags

/-- A mark is made only of alerts that are still waiting. -/
def marksWaiting : Assumption ℕ AlertOp AlertOp.Reply Store Empty Exception where
  call s _ _ op o :=
    match op with
    | .updateTriggered ids =>
        o.applies → ∀ id ∈ ids, ∃ alert ∈ s.alerts.docs, alert.id = id ∧ ¬alert.triggered
    | _ => True
  env _ := True

instance (s : Store) (log : List LogEntry) (i : ℕ) (op : AlertOp) (o : Outcome Exception) :
    Decidable (marksWaiting.call s log i op o) :=
  match op with
  | .updateTriggered ids => inferInstanceAs (Decidable (o.applies → ∀ id ∈ ids, _))
  | .findWaiting _ _ _ => .isTrue trivial
  | .findTraders _ => .isTrue trivial
  | .findStock _ => .isTrue trivial
  | .emit _ => .isTrue trivial

instance (x : Empty) : Decidable (marksWaiting.env x) := .isTrue trivial

/-- How many messages have been sent for an alert. -/
def Store.messages (s : Store) (id : String) : ℕ :=
  s.outbox.countP fun message => message.alertId = some id

section Once
variable {s : Store} {log : List LogEntry}

/-- How often an alert has been claimed, by whichever worker. -/
def totalClaims (id : String) (log : List LogEntry) : ℤ := tally (fun _ h => (claims id h : ℤ)) log

def totalEmits (id : String) (log : List LogEntry) : ℤ := tally (fun _ h => (emits id h : ℤ)) log

/-- What the log says about claims and messages, where every mark finds its
alerts waiting. -/
structure OnceInvariant (s : Store) (log : List LogEntry) : Prop where
  lawful : ∀ i id, emits id (own i log) ≤ claims id (own i log)
  unclaimed : ∀ id, totalClaims id log = 0 ∨ (totalClaims id log = 1 ∧ s.Triggered id)
  sent : ∀ id, (s.messages id : ℤ) = totalEmits id log

theorem emits_le_claims_cons {h : History} {op : AlertOp} (hmay : May h op)
    (hle : ∀ id, emits id h ≤ claims id h) (reply : op.Reply) (id : String) :
    emits id (⟨op, reply⟩ :: h) ≤ claims id (⟨op, reply⟩ :: h) := by
  have hold := hle id
  cases op with
  | emit message =>
    obtain ⟨id', hid', hlt⟩ := hmay
    have hclaims : claims id (⟨.emit message, reply⟩ :: h) = claims id h :=
      List.countP_cons_of_neg Bool.false_ne_true
    rw [hclaims, emits, List.countP_cons, ← emits]
    by_cases hid : id' = id
    · subst hid
      simp only [isEmit, hid', decide_true, if_true]
      omega
    · simp only [isEmit, hid', Option.some.injEq, hid, decide_false, Bool.false_eq_true, if_false]
      omega
  | updateTriggered ids =>
    have hemits : emits id (⟨.updateTriggered ids, reply⟩ :: h) = emits id h :=
      List.countP_cons_of_neg Bool.false_ne_true
    rw [hemits, claims, List.countP_cons, ← claims]
    omega
  | _ => exact hold

theorem OnceInvariant.step (hI : OnceInvariant s log) {i : ℕ} {op : AlertOp}
    {o : Outcome Exception} (hmay : May (own i log) op) (hwait : marksWaiting.call s log i op o)
    (ho : o.applies) : OnceInvariant (exec op s).2 (⟨i, op, (exec op s).1⟩ :: log) := by
  constructor
  · intro j id
    by_cases hj : j = i
    · subst hj
      rw [own_cons_self]
      exact emits_le_claims_cons hmay (hI.lawful j) _ id
    · rw [own_cons_ne (Ne.symm hj)]
      exact hI.lawful j id
  · intro id
    have hcount : totalClaims id (⟨i, op, (exec op s).1⟩ :: log) = totalClaims id log +
        if isClaim id ⟨op, (exec op s).1⟩ then 1 else 0 := tally_countP_cons log (isClaim id) _ i
    rw [hcount]
    cases op with
    | updateTriggered ids =>
      by_cases hid : id ∈ ids
      · obtain ⟨alert, halert, hsame, hflag⟩ := hwait ho id hid
        rcases hI.unclaimed id with hzero | ⟨-, htriggered⟩
        · right
          rw [hzero]
          exact ⟨by simp [isClaim, hid], triggered_update hid⟩
        · exact absurd (htriggered alert halert hsame) hflag
      · simp only [isClaim, hid, decide_false, Bool.false_eq_true, if_false, add_zero]
        exact (hI.unclaimed id).imp_right fun h => ⟨h.1, triggered_exec _ h.2⟩
    | _ =>
      simp only [isClaim, Bool.false_eq_true, if_false, add_zero]
      exact (hI.unclaimed id).imp_right fun h => ⟨h.1, triggered_exec _ h.2⟩
  · intro id
    have hold := hI.sent id
    have hcount : totalEmits id (⟨i, op, (exec op s).1⟩ :: log) = totalEmits id log +
        if isEmit id ⟨op, (exec op s).1⟩ then 1 else 0 := tally_countP_cons log (isEmit id) _ i
    rw [hcount, ← hold]
    cases op with
    | emit message =>
      simp only [exec, Store.messages, List.countP_append, List.countP_singleton, isEmit]
      push_cast
      rfl
    | _ => exact (add_zero _).symm

theorem OnceInvariant.messages_le (hI : OnceInvariant s log) (id : String) :
    s.messages id ≤ 1 := by
  have hle : totalEmits id log ≤ totalClaims id log :=
    tally_mono fun i => by exact_mod_cast hI.lawful i id
  have hsent := hI.sent id
  rcases hI.unclaimed id with h | ⟨h, -⟩ <;> omega

theorem onceInvariant_start (store : Store) :
    OnceInvariant { store with outbox := [] } ([] : List LogEntry) where
  lawful _ _ := Nat.le_refl _
  unclaimed _ := .inl rfl
  sent _ := rfl

end Once

/-- Whatever the workers do side by side, an alert is announced once at most, as
long as every mark finds its alerts waiting. -/
theorem announced_once (store : Store) (requests : ℕ → Request) (sched : Schedule)
    (hs : marksWaiting.Along backend (State.start store requests) sched) (id : String) :
    ((State.start store requests).run backend sched).store.messages id ≤ 1 := by
  have hrun := Config.run_applied (I := OnceInvariant) (P := protocol fun _ _ => True)
    (A := marksWaiting) (B := backend) (fun _ _ _ _ _ _ => trivial)
    (fun _ _ _ _ _ hI hmay hwait ho => hI.step hmay hwait ho) (fun _ _ y _ _ => y.elim)
    (conforms_start _ store requests) (onceInvariant_start store) sched hs
  exact hrun.2.messages_le id

section Example

def lone : Store where
  alerts :=
    { docs := [{ id := "a1", memberId := "m1", stockId := "s1", ticker := "ACME",
                 targetPrice := .bson (some 10), direction := .above, triggered := false,
                 memberEmail := "one@example.com", memberName := "Member One" }]
      nodup := List.nodup_singleton _ }
  traders _ := none
  stocks _ := none
  outbox := []

def twoPrices (i : ℕ) : Request := ⟨⟨"s1", "ACME", if i = 0 then 12 else 13⟩, 1⟩

/-- One replica after the other: the second finds nothing to mark. -/
def inTurn : Schedule := [.step 0 .done, .step 0 .done, .step 0 .done, .step 1 .done]

theorem announced_once_inTurn :
    ((State.start lone twoPrices).run backend inTurn).store.messages "a1" ≤ 1 :=
  announced_once lone twoPrices inTurn (by decide +kernel) "a1"

def sideBySide : Schedule :=
  [.step 0 .done, .step 1 .done, .step 0 .done, .step 1 .done, .step 0 .done, .step 1 .done]

theorem announced_twice :
    ¬((State.start lone twoPrices).run backend sideBySide).store.messages "a1" ≤ 1 := by
  decide +kernel

end Example

/-- Emits are answered, and no reply to a mark is lost. -/
def unbrokenEnd : AlertOp → Outcome Exception → Bool
  | .emit _, .done => true
  | .emit _, _ => false
  | .updateTriggered _, .lost _ => false
  | _, _ => true

def unbroken : Assumption ℕ AlertOp AlertOp.Reply Store Empty Exception where
  call _ _ _ op o := unbrokenEnd op o
  env _ := True

instance (s : Store) (log : List LogEntry) (i : ℕ) (op : AlertOp) (o : Outcome Exception) :
    Decidable (unbroken.call s log i op o) := inferInstanceAs (Decidable (unbrokenEnd op o = true))

instance (x : Empty) : Decidable (unbroken.env x) := .isTrue trivial

theorem careful_unbroken : Careful fun op o => unbrokenEnd op o := by
  intro op o h
  cases op with
  | emit message =>
    cases o with
    | done => rfl
    | _ => cases h
  | updateTriggered ids =>
    intro e ho
    subst ho
    cases h
  | _ => trivial

/-- Whenever a worker dies, the alerts it has marked have had their messages. -/
def DiesSettled (c : State) (sched : Schedule) : Prop :=
  ∀ s₁ i s₂, sched = s₁ ++ .crash i :: s₂ →
    ∀ id, claims id (own i (c.run backend s₁).log) ≤ emits id (own i (c.run backend s₁).log)

def AtRest (c : State) : Prop := ∀ i, own i c.log = [] ∨ c.calls i = none ∨ (c.result i).isSome

section Kept
variable {before s : Store} {log : List LogEntry}

/-- Where triggered alerts and sent messages come from. -/
structure OriginInvariant (before s : Store) (log : List LogEntry) : Prop where
  claimed : ∀ id, s.Triggered id → before.Triggered id ∨ ∃ i, 0 < claims id (own i log)
  emitted : ∀ id i, 0 < emits id (own i log) → 0 < s.messages id

theorem OriginInvariant.step (hI : OriginInvariant before s log) (i : ℕ) (op : AlertOp) :
    OriginInvariant before (exec op s).2 (⟨i, op, (exec op s).1⟩ :: log) := by
  have hgrow {id : String} (h : ∃ j, 0 < claims id (own j log)) :
      ∃ j, 0 < claims id (own j (⟨i, op, (exec op s).1⟩ :: log)) := by
    obtain ⟨j, hj⟩ := h
    exact ⟨j, hj.trans_le (countP_own_le log (isClaim id) _ i j)⟩
  constructor
  · intro id h
    cases op with
    | updateTriggered ids =>
      by_cases hid : id ∈ ids
      · refine .inr ⟨i, ?_⟩
        rw [own_cons_self, claims, List.countP_cons]
        simp [isClaim, hid]
      · refine (hI.claimed id ?_).imp_right hgrow
        intro alert halert hsame
        have hkept : Collection.mark ids alert = alert := by simp [Collection.mark, hsame, hid]
        exact hkept ▸ h _ (List.mem_map_of_mem halert) (by rw [Collection.id_mark, hsame])
    | _ => exact (hI.claimed id h).imp_right hgrow
  · intro id j hj
    cases op with
    | emit message =>
      simp only [exec, Store.messages, List.countP_append, List.countP_singleton]
      by_cases hid : message.alertId = some id
      · simp [hid]
      · rw [emits, countP_own_of_not log (by simp [isEmit, hid])] at hj
        exact Nat.lt_of_lt_of_le (hI.emitted id j hj) (Nat.le_add_right _ _)
    | _ =>
      rw [emits, countP_own_of_not log Bool.false_ne_true] at hj
      exact hI.emitted id j hj

theorem originInvariant_start (store : Store) :
    OriginInvariant store { store with outbox := [] } ([] : List LogEntry) where
  claimed _ h := .inl h
  emitted _ _ h := absurd h (Nat.lt_irrefl 0)

end Kept

/-- When all handlers are over, an alert that waited at first and is triggered
now has had its message, as long as no emit fails and nothing comes between a
mark and its messages. -/
theorem none_lost (store : Store) (requests : ℕ → Request) (sched : Schedule)
    (hs : unbroken.Along backend (State.start store requests) sched)
    (hdies : DiesSettled (State.start store requests) sched)
    (hrest : AtRest ((State.start store requests).run backend sched)) (id : String)
    (hwaited : ¬store.Triggered id)
    (htriggered : ((State.start store requests).run backend sched).store.Triggered id) :
    0 < ((State.start store requests).run backend sched).store.messages id := by
  obtain ⟨hconforms, hI⟩ := Config.run_invariant (I := OriginInvariant store)
    (P := protocol fun op o => unbrokenEnd op o) (A := unbroken) (B := backend)
    (fun _ _ _ _ _ h => h) (fun _ _ i op _ hI _ _ => hI.step i op) (fun _ _ y _ _ => y.elim)
    (conforms_start _ store requests) (originInvariant_start store) sched hs
  obtain ⟨i, hclaimed⟩ := (hI.claimed id htriggered).resolve_left hwaited
  refine hI.emitted id i (hclaimed.trans_le ?_)
  rcases hrest i with hnone | hgone | hended
  · rw [hnone] at hclaimed
    exact absurd hclaimed (Nat.lt_irrefl 0)
  · exact Config.run_crashed backend (Q := fun _ h => ∀ id, claims id h ≤ emits id h)
      (fun j hj => by cases hj) sched hdies i hgone id
  · obtain ⟨res, hres⟩ := Option.isSome_iff_exists.mp hended
    have howing : Owing (fun op o => unbrokenEnd op o) []
        (own i ((State.start store requests).run backend sched).log) := by
      rcases hc : ((State.start store requests).run backend sched).calls i with
        _ | ⟨a | e | ⟨op, next, failed⟩⟩
      · simp [Config.result, hc] at hres
      · exact hconforms i _ hc
      · exact hconforms i _ hc
      · simp [Config.result, hc] at hres
    exact howing.exact careful_unbroken id

section Example

/-- The same price twice: the event and its redelivery. -/
def redelivered (_ : ℕ) : Request := ⟨⟨"s1", "ACME", 12⟩, 1⟩

theorem none_lost_inTurn :
    let final := (State.start lone twoPrices).run backend inTurn
    0 < final.store.messages "a1" := by
  have hcallers : ((State.start lone twoPrices).run backend inTurn).log.map Entry.caller =
      [1, 0, 0, 0] := by decide +kernel
  refine none_lost lone twoPrices inTurn (by decide +kernel) ?_ ?_ "a1" ?_ ?_
  · intro s₁ i s₂ h
    have hmem : Choice.crash i ∈ inTurn := by simp [h]
    simp [inTurn] at hmem
  · rintro (_ | _ | i)
    · exact .inr (.inr (by decide +kernel))
    · exact .inr (.inr (by decide +kernel))
    · exact .inl (own_eq_nil (by simp [callers, hcallers]))
  · decide
  · decide +kernel

/-- The worker dies between the mark and the message, and the redelivery, which
is handled to its end, finds nothing left to do. -/
def deadBetween : Schedule := [.step 0 .done, .step 0 .done, .crash 0, .step 1 .done]

theorem message_lost :
    let final := (State.start lone redelivered).run backend deadBetween
    AtRest final ∧ (final.result 1).any (·.isOk) ∧
      ¬(¬lone.Triggered "a1" → final.store.Triggered "a1" → 0 < final.store.messages "a1") := by
  have hcallers : ((State.start lone redelivered).run backend deadBetween).log.map Entry.caller =
      [1, 0, 0] := by decide +kernel
  refine ⟨?_, by decide +kernel, by decide +kernel⟩
  rintro (_ | _ | i)
  · exact .inr (.inl rfl)
  · exact .inr (.inr (by decide +kernel))
  · exact .inl (own_eq_nil (by simp [callers, hcallers]))

end Example

end StockMarket.Alerts
