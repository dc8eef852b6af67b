import StockMarket.Wallet.Reconciliation
import Mathlib.Data.List.Chain

/-! # The balances that records carry

Each record keeps the balance before and after its movement. A deposit, a
deduct and a credit write both from the movement itself. A withdrawal writes
the balance before it when it is requested, and is carried out when it is
approved: its record fits the others exactly where the balance did not change
in between.
-/

namespace StockMarket.Wallet
open Interleaving Prog

/-- The record's balances differ by its signed amount. -/
def Transaction.Balanced (t : Transaction) : Prop :=
  t.balanceAfter = some (t.balanceBefore + t.type.sign * t.amount)

/-- The next record starts at the balance at which this one ends. -/
def Transaction.LeadsTo (t t' : Transaction) : Prop := t.balanceAfter = some t'.balanceBefore

instance : DecidablePred Transaction.Balanced := fun _ => inferInstanceAs (Decidable (_ = _))
instance : DecidableRel Transaction.LeadsTo := fun _ _ => inferInstanceAs (Decidable (_ = _))

/-- The user's records that `s'` has COMPLETED and `s` has not. -/
def newlyCompleted (userId : String) (s s' : Store) : List ℕ :=
  (List.range s'.transactions.length).filter fun transactionId =>
    (s.completed userId transactionId).isNone ∧ (s'.completed userId transactionId).isSome

/-- The user's records in the order in which a sequential run completes them. The event
that completes a record is the one that moves the balance. -/
def completions (withdrawalHoldHrs : ℕ) (userId : String) :
    ℕ → Store → List (Event Request Environment) → List ℕ
  | _, _, [] => []
  | n, s, e :: events =>
      let s' := (e.occur backend (Request.serve withdrawalHoldHrs) n s).2
      newlyCompleted userId s s' ++ completions withdrawalHoldHrs userId (n + 1) s' events

/-- Every COMPLETED record of the user is balanced, and in the order of `ids` each
leads to the next. -/
def Chained (s : Store) (userId : String) (ids : List ℕ) : Prop :=
  (∀ t ∈ s.transactions, t.userId = userId → t.status = .completed → t.Balanced) ∧
    (ids.filterMap (s.completed userId)).IsChain Transaction.LeadsTo

instance (s : Store) (userId : String) (ids : List ℕ) : Decidable (Chained s userId ids) :=
  inferInstanceAs (Decidable (_ ∧ _))

/-- `ids` lists the COMPLETED records of the user, and the last one ends at the balance. -/
structure Listed (s : Store) (userId : String) (ids : List ℕ) : Prop where
  mem : ∀ id, id ∈ ids ↔ (s.completed userId id).isSome
  last : ∀ t ∈ (ids.filterMap (s.completed userId)).getLast?,
    t.balanceAfter = some (s.balance userId)

section Chain
variable {userId : String} {s s' : Store} {ids : List ℕ}

theorem balanced_iff_completed :
    (∀ t ∈ s.transactions, t.userId = userId → t.status = .completed → t.Balanced) ↔
      ∀ id, ∀ t ∈ s.completed userId id, t.Balanced := by
  constructor
  · intro h id t ht
    obtain ⟨hmem, hp⟩ := Option.mem_filter_iff.mp ht
    have hp : t.userId = userId ∧ t.status = .completed := by simpa using hp
    exact h t (List.mem_of_getElem? hmem) hp.1 hp.2
  · intro h t ht hu hstatus
    obtain ⟨id, hid⟩ := List.mem_iff_getElem?.mp ht
    exact h id t (Option.mem_filter_iff.mpr ⟨hid, by simp [hu, hstatus]⟩)

theorem newlyCompleted_kept (h : Kept userId s s') : newlyCompleted userId s s' = [] := by
  refine List.filter_eq_nil_iff.mpr ?_
  intro id _
  rw [h.records]
  cases s.completed userId id <;> simp

theorem newlyCompleted_entered {id : ℕ} {t : Transaction} (hopen : s.completed userId id = none)
    (hrecords : s'.completed userId = Function.update (s.completed userId) id (some t)) :
    newlyCompleted userId s s' = [id] := by
  have hid : id < s'.transactions.length := by
    have hsome : s'.completed userId id = some t := by rw [hrecords, Function.update_self]
    rw [Store.completed, Option.filter_eq_some_iff] at hsome
    exact (List.getElem?_eq_some_iff.mp hsome.1).1
  have hpred (j : ℕ) : ((s.completed userId j).isNone ∧ (s'.completed userId j).isSome) ↔
      j = id := by
    rw [hrecords]
    by_cases hj : j = id
    · subst hj
      simp [hopen]
    · rw [Function.update_of_ne hj]
      cases s.completed userId j <;> simp [hj]
  simp only [newlyCompleted, hpred]
  rw [List.filter_eq, List.count_eq_one_of_mem List.nodup_range (List.mem_range.mpr hid)]
  rfl

/-- The records as they are listed: those there were, and the one entered. -/
theorem Listed.filterMap_entered (h : Listed s userId ids) {id : ℕ} {t : Transaction}
    (hopen : s.completed userId id = none)
    (hrecords : s'.completed userId = Function.update (s.completed userId) id (some t)) :
    (ids ++ [id]).filterMap (s'.completed userId) =
      ids.filterMap (s.completed userId) ++ [t] := by
  rw [List.filterMap_append, hrecords]
  congr 1
  · refine List.filterMap_congr fun j hj => Function.update_of_ne (fun hji => ?_) _ _
    rw [hji, h.mem, hopen] at hj
    cases hj
  · simp

theorem Listed.step {timely : Prop} (h : Listed s userId ids) (hs : Settles userId timely s s') :
    Listed s' userId (ids ++ newlyCompleted userId s s') := by
  rcases hs with ⟨hkept, -⟩ | ⟨id, t, hopen, hrecords, -, hafter, -⟩
  · rw [newlyCompleted_kept hkept, List.append_nil]
    exact ⟨by rw [hkept.records]; exact h.mem, by
      rw [hkept.records, hkept.balance]
      exact h.last⟩
  · rw [newlyCompleted_entered hopen hrecords]
    constructor
    · intro j
      rw [List.mem_append, h.mem, hrecords, List.mem_singleton]
      by_cases hj : j = id
      · subst hj
        simp
      · simp [hj]
    · rw [h.filterMap_entered hopen hrecords]
      rintro t' ht'
      obtain rfl : t = t' := by simpa using ht'
      exact hafter

/-- The step that decides: the records stay in order exactly when the call is timely. -/
theorem Listed.chained_step {timely : Prop} (h : Listed s userId ids)
    (hs : Settles userId timely s s') :
    Chained s' userId (ids ++ newlyCompleted userId s s') ↔ Chained s userId ids ∧ timely := by
  simp only [Chained, balanced_iff_completed]
  rcases hs with ⟨hkept, htimely⟩ | ⟨id, t, hopen, hrecords, hmoved, hafter, hbefore⟩
  · rw [newlyCompleted_kept hkept, List.append_nil, hkept.records]
    exact (and_iff_left htimely).symm
  rw [newlyCompleted_entered hopen hrecords, h.filterMap_entered hopen hrecords]
  have hbalanced : t.Balanced ↔ timely := by
    rw [Transaction.Balanced, hafter, hbefore, hmoved, Option.some.injEq, add_left_inj, eq_comm]
  constructor
  · rintro ⟨hall, hchain⟩
    refine ⟨⟨fun j t' ht' => hall j t' ?_, (List.isChain_append.mp hchain).1⟩, hbalanced.mp ?_⟩
    · rw [hrecords, Function.update_of_ne]
      · exact ht'
      · rintro rfl
        simp [hopen] at ht'
    · refine hall id t ?_
      rw [hrecords, Function.update_self]
      rfl
  · rintro ⟨⟨hall, hchain⟩, htimely⟩
    refine ⟨fun j t' ht' => ?_, List.isChain_append.mpr ⟨hchain, .singleton t, ?_⟩⟩
    · rw [hrecords] at ht'
      by_cases hj : j = id
      · subst hj
        obtain rfl : t = t' := by simpa using ht'
        exact hbalanced.mpr htimely
      · rw [Function.update_of_ne hj] at ht'
        exact hall j t' ht'
    · rintro previous hprevious next hnext
      obtain rfl : t = next := by simpa using hnext
      rw [Transaction.LeadsTo, h.last previous hprevious, hbefore.mp htimely]

end Chain

section Run
variable {withdrawalHoldHrs : ℕ} {userId : String}

theorem NoAdjustments.left {first second : List (Event Request Environment)}
    (h : NoAdjustments (first ++ second)) : NoAdjustments first :=
  fun target amount justification cmsUserId he =>
    h target amount justification cmsUserId (List.mem_append_left _ he)

theorem NoAdjustments.right {first second : List (Event Request Environment)}
    (h : NoAdjustments (first ++ second)) : NoAdjustments second :=
  fun target amount justification cmsUserId he =>
    h target amount justification cmsUserId (List.mem_append_right _ he)

theorem completions_append (n : ℕ) (s : Store) (first second : List (Event Request Environment)) :
    completions withdrawalHoldHrs userId n s (first ++ second) =
      completions withdrawalHoldHrs userId n s first ++
        completions withdrawalHoldHrs userId (n + first.length)
          (after backend (Request.serve withdrawalHoldHrs) n s first) second := by
  induction first generalizing n s with
  | nil => rfl
  | cons e first ih =>
    simp only [List.cons_append, completions, after, List.length_cons, ih, List.append_assoc]
    rw [Nat.add_right_comm, Nat.add_assoc]

theorem completions_concat (s : Store) (events : List (Event Request Environment))
    (e : Event Request Environment) :
    completions withdrawalHoldHrs userId 0 s (events ++ [e]) =
      completions withdrawalHoldHrs userId 0 s events ++
        newlyCompleted userId (afterEvents withdrawalHoldHrs s events)
          (afterEvents withdrawalHoldHrs s (events ++ [e])) := by
  rw [completions_append, Nat.zero_add, afterEvents, afterEvents, after_concat]
  exact congrArg _ (List.append_nil _)

theorem listed_completions (withdrawalHoldHrs : ℕ) {store : Store}
    (hempty : store.transactions = []) (userId : String)
    {events : List (Event Request Environment)} (hno : NoAdjustments events) :
    Listed (afterEvents withdrawalHoldHrs store events) userId
      (completions withdrawalHoldHrs userId 0 store events) := by
  induction events using List.reverseRecOn with
  | nil =>
    have hnone (id : ℕ) : store.completed userId id = none := by simp [Store.completed, hempty]
    exact ⟨fun id => by simp [completions, afterEvents, hnone],
      fun t ht => by simp [completions] at ht⟩
  | append_singleton events e ih =>
    rw [completions_concat, afterEvents, after_concat]
    exact (ih hno.left).step (settles_occur withdrawalHoldHrs userId hno.right _ _)

/-- The records of a user complete their chain exactly in the runs in which every approval is
carried out at the balance its withdrawal was requested at. -/
theorem chained_iff_timely (withdrawalHoldHrs : ℕ) (store : Store) (userId : String)
    (events : List (Event Request Environment)) (hempty : store.transactions = [])
    (hno : NoAdjustments events) :
    Chained (afterEvents withdrawalHoldHrs store events) userId
        (completions withdrawalHoldHrs userId 0 store events) ↔
      ∀ part e rest, events = part ++ e :: rest →
        Timely (afterEvents withdrawalHoldHrs store part) userId e := by
  induction events using List.reverseRecOn with
  | nil => simp [Chained, completions, afterEvents, hempty]
  | append_singleton events e ih =>
    rw [forall_split_concat, ← ih hno.left, completions_concat, afterEvents, after_concat]
    exact (listed_completions withdrawalHoldHrs hempty userId hno.left).chained_step
      (settles_occur withdrawalHoldHrs userId hno.right _ _)

end Run

/-- A deposit of 200, a request for 80 of it, and its approval after what happens in
between. -/
def depositAndWithdraw (between : List (Event Request Environment)) :
    List (Event Request Environment) :=
  [.call (.processStripeDeposit ⟨"member", 200, "USD", "stripe:1", "1", none, by decide⟩),
    .call (.requestWithdrawal ⟨"member", "", ""⟩ ⟨80, by decide⟩)] ++ between ++
      [.call (.approveWithdrawal 1 "cms" ⟨"member", "", ""⟩)]

instance (s : Store) (transactionId : ℕ) (userId : String) :
    Decidable (Late s transactionId userId) :=
  decidable_of_iff (∃ t ∈ s.transactions[transactionId]?, t.userId = userId ∧ t.type = .withdrawal ∧
    t.status = .pending ∧ s.locks (walletLock userId) = none ∧
      ∃ w ∈ s.wallets userId, w.Covers (some t.amount) ∧ t.balanceBefore ≠ w.balance) (by
    simp [Late])

theorem chained_iff_timely_unchanged :
    Chained (afterEvents 0 .empty (depositAndWithdraw [])) "member"
      (completions 0 "member" 0 .empty (depositAndWithdraw [])) := by
  refine (chained_iff_timely 0 .empty "member" (depositAndWithdraw []) rfl ?_).mpr ?_
  · simp [NoAdjustments, depositAndWithdraw]
  · intro part e rest h
    rcases part with _ | ⟨a, _ | ⟨b, _ | ⟨c, part⟩⟩⟩
    · cases h
      trivial
    · cases h
      trivial
    · cases h
      rw [Timely]
      decide +kernel
    · simp [depositAndWithdraw] at h

/-- A deposit of 70 between the request and the approval: the record of the withdrawal says
that 80 took the balance from 200 to 190. -/
theorem late_approval_unchained :
    NoAdjustments (depositAndWithdraw
        [.call (.processStripeDeposit ⟨"member", 70, "USD", "stripe:2", "2", none, by decide⟩)]) ∧
      ¬Chained (afterEvents 0 .empty (depositAndWithdraw
          [.call (.processStripeDeposit ⟨"member", 70, "USD", "stripe:2", "2", none, by decide⟩)]))
        "member" (completions 0 "member" 0 .empty (depositAndWithdraw
          [.call (.processStripeDeposit ⟨"member", 70, "USD", "stripe:2", "2", none,
            by decide⟩)])) := by
  refine ⟨by simp [NoAdjustments, depositAndWithdraw], ?_⟩
  decide +kernel

end StockMarket.Wallet
