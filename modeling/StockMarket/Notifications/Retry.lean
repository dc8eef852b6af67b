import StockMarket.Notifications.Service
import StockMarket.Interleaving.Interpretation
import StockMarket.Interleaving.Typestate
import Mathlib.Data.Seq.Defs

/-! # The retry loop

The loop is followed with its three closures left open: the operation ends each
time as a sequence of outcomes says, finite or infinite, and the two callbacks
do not throw. Where a finite sequence is used up the operation does not end, and
the loop waits for it. The waits between the attempts take no part.
-/

namespace StockMarket.Notifications.RetryService
open Interleaving Prog
open Stream' (Seq)

inductive RetryOp where
  | operation
  | onRetry (attempt : ℕ)
  | onDead (error : String)
  deriving DecidableEq, Repr

abbrev RetryOp.Reply (α : Type) : RetryOp → Type
  | .operation => α
  | .onRetry _ => Unit
  | .onDead _ => Unit

/-- A call of a closure. One of the operation is kept with its outcome, if it has one. -/
inductive Event (α : Type) where
  | operation (outcome : Option (Except Exception α))
  | onRetry (attempt : ℕ)
  | onDead (error : String)

namespace Event
variable {α : Type}

def isOperation : Event α → Bool
  | .operation _ => true
  | _ => false

def isFailure : Event α → Bool
  | .operation (some (.error _)) => true
  | _ => false

def retry? : Event α → Option ℕ
  | .onRetry attempt => some attempt
  | _ => none

def dead? : Event α → Option String
  | .onDead error => some error
  | _ => none

end Event

/-- How often the operation has been called, and all calls in their order. -/
structure Trial (α : Type) where
  called : ℕ
  events : List (Event α)

section Loop
variable {α : Type} (outcomes : Seq (Except Exception α))

def answer : (op : RetryOp) → Trial α → Option (Except Exception (op.Reply α)) × Trial α
  | .operation, t =>
      (outcomes.get? t.called, ⟨t.called + 1, t.events ++ [.operation (outcomes.get? t.called)]⟩)
  | .onRetry attempt, t => (some (.ok ()), { t with events := t.events ++ [.onRetry attempt] })
  | .onDead error, t => (some (.ok ()), { t with events := t.events ++ [.onDead error] })

abbrev operation (α : Type) : Prog RetryOp (RetryOp.Reply α) Exception α :=
  send RetryOp.operation

abbrev onRetry (α : Type) (attempt : ℕ) : Prog RetryOp (RetryOp.Reply α) Exception Unit :=
  send (RetryOp.onRetry attempt)

abbrev onDead (α : Type) (error : String) : Prog RetryOp (RetryOp.Reply α) Exception Unit :=
  send (RetryOp.onDead error)

def loop (α : Type) (maxAttempts : ℕ) : Prog RetryOp (RetryOp.Reply α) Exception (Option α) :=
  executeWithRetry (operation α) maxAttempts (onRetry α) (onDead α)

/-- What the loop comes to, and the calls it has made. -/
def trial (maxAttempts : ℕ) : Option (Except Exception (Option α)) × Trial α :=
  (loop α maxAttempts).perform (answer outcomes) ⟨0, []⟩

def Failing (k : ℕ) : Prop := ∀ j < k, ∃ e, outcomes.get? j = some (.error e)

/-- The first success is the outcome at the place `i`, counted from zero. -/
structure FirstSuccess (i : ℕ) (a : α) : Prop where
  failing : Failing outcomes i
  success : outcomes.get? i = some (.ok a)

/-- What `k` failed attempts leave behind, each with its call of `onRetry`. -/
def rounds (k : ℕ) : List (Event α) :=
  (List.range k).flatMap fun j => [.operation (outcomes.get? j), .onRetry (j + 1)]

/-- The invariant of the loop: where it has come to after `attempt` failures. -/
def before (attempt : ℕ) : Trial α := ⟨attempt, rounds outcomes attempt⟩

variable {outcomes}

theorem Failing.mono {j k : ℕ} (h : Failing outcomes k) (hjk : j ≤ k) : Failing outcomes j :=
  fun i hi => h i (hi.trans_le hjk)

theorem rounds_succ (k : ℕ) : rounds outcomes (k + 1) =
    rounds outcomes k ++ [.operation (outcomes.get? k), .onRetry (k + 1)] := by
  simp [rounds, List.range_succ]

theorem perform_operation (t : Trial α) : (operation α).perform (answer outcomes) t =
    (outcomes.get? t.called, ⟨t.called + 1, t.events ++ [.operation (outcomes.get? t.called)]⟩) :=
  perform_send _ _ _

/-- One pass of the loop that fails and is not the last one allowed. -/
theorem perform_failed {e : Exception} (left attempt : ℕ)
    (h : outcomes.get? attempt = some (.error e)) :
    (attempts (operation α) (onRetry α) (onDead α) (left + 2) attempt).perform (answer outcomes)
        (before outcomes attempt) =
      (attempts (operation α) (onRetry α) (onDead α) (left + 1) (attempt + 1)).perform
        (answer outcomes) (before outcomes (attempt + 1)) := by
  rw [attempts, perform_handle, perform_operation]
  simp only [before, h]
  rw [if_neg (Nat.succ_ne_zero left), perform_send_bind _ _ rfl, rounds_succ, h]
  simp

/-- After `k` failures the loop has called back `k` times and goes on. -/
theorem perform_failing {k : ℕ} (left : ℕ) (h : Failing outcomes k) :
    (attempts (operation α) (onRetry α) (onDead α) (left + 1 + k) 0).perform (answer outcomes)
        (before outcomes 0) =
      (attempts (operation α) (onRetry α) (onDead α) (left + 1) k).perform (answer outcomes)
        (before outcomes k) := by
  induction k generalizing left with
  | zero => rfl
  | succ k ih =>
    obtain ⟨e, he⟩ := h k (Nat.lt_succ_self k)
    have hfirst := ih (left + 1) (h.mono (Nat.le_succ k))
    rw [show left + 1 + (k + 1) = left + 1 + 1 + k by omega, hfirst]
    exact perform_failed left k he

/-- How the loop ends: after `m` failures with their callbacks the operation has
been called once more, and `tail` is what has followed. -/
inductive Ends (outcomes : Seq (Except Exception α)) (n : ℕ) :
    ℕ → Option (Except Exception (Option α)) → List (Event α) → Prop
  | returned {m : ℕ} {a : α} (hm : m < n) (hfirst : FirstSuccess outcomes m a) :
      Ends outcomes n m (some (.ok (some a))) []
  | dead {m : ℕ} {e : Exception} (hm : m + 1 = n) (hfail : Failing outcomes n)
      (hlast : outcomes.get? m = some (.error e)) :
      Ends outcomes n m (some (.ok none)) [.onDead e.message]
  | waiting {m : ℕ} (hm : m < n) (hfail : Failing outcomes m) (hnone : outcomes.get? m = none) :
      Ends outcomes n m none []

/-- The outcomes reach a success, reach `n` failures, or are used up before. -/
theorem outcomes_cases (outcomes : Seq (Except Exception α)) (n : ℕ) :
    (∃ m < n, ∃ a, FirstSuccess outcomes m a) ∨ Failing outcomes n ∨
      ∃ m < n, Failing outcomes m ∧ outcomes.get? m = none := by
  induction n with
  | zero => exact .inr (.inl fun j hj => absurd hj (Nat.not_lt_zero j))
  | succ n ih =>
    rcases ih with ⟨m, hm, a, hfirst⟩ | hfail | ⟨m, hm, hwaiting⟩
    · exact .inl ⟨m, Nat.lt_succ_of_lt hm, a, hfirst⟩
    · rcases hn : outcomes.get? n with _ | e | a
      · exact .inr (.inr ⟨n, Nat.lt_succ_self n, hfail, hn⟩)
      · refine .inr (.inl ?_)
        intro j hj
        rcases Nat.lt_succ_iff_lt_or_eq.mp hj with hlt | rfl
        · exact hfail j hlt
        · exact ⟨e, hn⟩
      · exact .inl ⟨n, Nat.lt_succ_self n, a, hfail, hn⟩
    · exact .inr (.inr ⟨m, Nat.lt_succ_of_lt hm, hwaiting⟩)

/-- The run reaches its `m + 1`-st call of the operation. -/
theorem trial_eq {m n : ℕ} (hm : m < n) (hfail : Failing outcomes m) :
    trial outcomes n = (attempts (operation α) (onRetry α) (onDead α) (n - m) m).perform
      (answer outcomes) (before outcomes m) := by
  obtain ⟨left, rfl⟩ : ∃ left, n = left + 1 + m := ⟨n - m - 1, by omega⟩
  rw [Nat.add_sub_cancel]
  exact perform_failing left hfail

theorem trial_ends (outcomes : Seq (Except Exception α)) {n : ℕ} (hn : 1 ≤ n) :
    ∃ m result tail, Ends outcomes n m result tail ∧ trial outcomes n =
      (result, ⟨m + 1, rounds outcomes m ++ .operation (outcomes.get? m) :: tail⟩) := by
  have hpass {m : ℕ} (hm : m < n) : ∃ left, n - m = left + 1 := ⟨n - m - 1, by omega⟩
  rcases outcomes_cases outcomes n with ⟨m, hm, a, hfirst⟩ | hfail | ⟨m, hm, hfail, hnone⟩
  · obtain ⟨left, hleft⟩ := hpass hm
    refine ⟨m, _, _, .returned hm hfirst, ?_⟩
    rw [trial_eq hm hfirst.failing, hleft, attempts, perform_handle, perform_operation]
    simp [before, hfirst.success]
  · obtain ⟨m, rfl⟩ := Nat.exists_eq_add_of_le' hn
    have hm : m < m + 1 := Nat.lt_succ_self m
    obtain ⟨e, he⟩ := hfail m hm
    refine ⟨m, _, _, .dead rfl hfail he, ?_⟩
    rw [trial_eq hm (hfail.mono hm.le), Nat.add_sub_cancel_left, attempts,
      perform_handle, perform_operation]
    simp only [before, he, if_pos]
    rw [perform_send_bind _ _ rfl]
    simp
  · obtain ⟨left, hleft⟩ := hpass hm
    refine ⟨m, _, _, .waiting hm hfail hnone, ?_⟩
    rw [trial_eq hm hfail, hleft, attempts, perform_handle, perform_operation]
    simp [before, hnone]

theorem countP_operation_rounds (k : ℕ) : (rounds outcomes k).countP Event.isOperation = k := by
  induction k with
  | zero => rfl
  | succ k ih =>
    rw [rounds_succ, List.countP_append, ih]
    rfl

theorem countP_failure_rounds {k : ℕ} (h : Failing outcomes k) :
    (rounds outcomes k).countP Event.isFailure = k := by
  induction k with
  | zero => rfl
  | succ k ih =>
    obtain ⟨e, he⟩ := h k (Nat.lt_succ_self k)
    have hk := ih (h.mono (Nat.le_succ k))
    rw [rounds_succ, List.countP_append, hk, he]
    rfl

theorem retries_rounds (k : ℕ) :
    (rounds outcomes k).filterMap Event.retry? = List.range' 1 k := by
  induction k with
  | zero => rfl
  | succ k ih =>
    rw [rounds_succ, List.filterMap_append, ih, List.range'_concat, Nat.one_mul, Nat.add_comm 1 k]
    rfl

theorem deaths_rounds (k : ℕ) : (rounds outcomes k).filterMap Event.dead? = [] := by
  induction k with
  | zero => rfl
  | succ k ih =>
    rw [rounds_succ, List.filterMap_append, ih]
    rfl

theorem deaths_append (m : ℕ) (tail : List (Event α)) :
    (rounds outcomes m ++ .operation (outcomes.get? m) :: tail).filterMap Event.dead? =
      tail.filterMap Event.dead? := by
  rw [List.filterMap_append, deaths_rounds]
  rfl

theorem rounds_split (outcomes : Seq (Except Exception α)) {k m : ℕ} (hk : k < m) :
    ∃ after, rounds outcomes m =
      rounds outcomes k ++ .operation (outcomes.get? k) :: .onRetry (k + 1) :: after := by
  induction m with
  | zero => exact absurd hk (Nat.not_lt_zero k)
  | succ m ih =>
    rcases Nat.lt_succ_iff_lt_or_eq.mp hk with hlt | rfl
    · obtain ⟨after, hafter⟩ := ih hlt
      exact ⟨after ++ [.operation (outcomes.get? m), .onRetry (m + 1)],
        by simp [rounds_succ, hafter]⟩
    · exact ⟨[], rounds_succ k⟩

/-- What a run with these calls and this result has to do with its outcomes, for at most
`n` attempts. -/
structure Exact (outcomes : Seq (Except Exception α)) (n : ℕ)
    (result : Option (Except Exception (Option α))) (events : List (Event α)) : Prop where
  /-- The operation is called until its first success, and at most `n` times. -/
  calls_of_success : ∀ i a, FirstSuccess outcomes i a →
    events.countP Event.isOperation = min (i + 1) n
  calls_of_failing : Failing outcomes n → events.countP Event.isOperation = n
  /-- `onRetry` is called with 1, 2, …, once for each failure but the last one allowed. -/
  retries : events.filterMap Event.retry? =
    List.range' 1 (min (events.countP Event.isFailure) (n - 1))
  /-- It is called directly after the failure. -/
  retry_follows : ∀ k, k + 1 < n → Failing outcomes (k + 1) → ∃ before after,
    events = before ++ .operation (outcomes.get? k) :: .onRetry (k + 1) :: after ∧
      before.countP Event.isOperation = k
  /-- `onDead` is called once, with the last error, when the first `n` outcomes fail. -/
  dead : ∀ e, Failing outcomes n → outcomes.get? (n - 1) = some (.error e) →
    events.filterMap Event.dead? = [e.message]
  not_dead : ¬Failing outcomes n → events.filterMap Event.dead? = []
  /-- The result is that of the first success among the first `n` outcomes. -/
  returns : ∀ a, result = some (.ok (some a)) ↔ ∃ i < n, FirstSuccess outcomes i a
  returns_iff : (∃ a, result = some (.ok (some a))) ↔
    ∃ i < n, ∃ a, outcomes.get? i = some (.ok a)
  gives_up : result = some (.ok none) ↔ Failing outcomes n

theorem FirstSuccess.unique {i j : ℕ} {a b : α} (hi : FirstSuccess outcomes i a)
    (hj : FirstSuccess outcomes j b) : i = j ∧ a = b := by
  have hij : i = j := by
    rcases Nat.lt_trichotomy i j with h | h | h
    · obtain ⟨e, he⟩ := hj.failing i h
      simp [hi.success] at he
    · exact h
    · obtain ⟨e, he⟩ := hi.failing j h
      simp [hj.success] at he
  subst hij
  have hab := hi.success.symm.trans hj.success
  exact ⟨rfl, by simpa using hab⟩

theorem Failing.not_success {i k : ℕ} {a : α} (hfail : Failing outcomes k) (hi : i < k) :
    outcomes.get? i ≠ some (.ok a) := by
  obtain ⟨e, he⟩ := hfail i hi
  simp [he]

/-- A success has a first one at its place or before it. -/
theorem exists_firstSuccess {i : ℕ} {a : α} (h : outcomes.get? i = some (.ok a)) :
    ∃ m ≤ i, ∃ b, FirstSuccess outcomes m b := by
  rcases outcomes_cases outcomes (i + 1) with ⟨m, hm, b, hfirst⟩ | hfail | ⟨m, hm, -, hnone⟩
  · exact ⟨m, Nat.le_of_lt_succ hm, b, hfirst⟩
  · exact absurd h (hfail.not_success (Nat.lt_succ_self i))
  · have hend := outcomes.le_stable (Nat.le_of_lt_succ hm) hnone
    simp [h] at hend

section Ends
variable {n m : ℕ} {result : Option (Except Exception (Option α))} {tail : List (Event α)}

theorem Ends.lt (h : Ends outcomes n m result tail) : m < n := by
  cases h with
  | returned hm hfirst => exact hm
  | dead hm hfail hlast => exact hm ▸ Nat.lt_succ_self m
  | waiting hm hfail hnone => exact hm

theorem Ends.failing (h : Ends outcomes n m result tail) : Failing outcomes m := by
  cases h with
  | returned hm hfirst => exact hfirst.failing
  | dead hm hfail hlast => exact hfail.mono (hm ▸ Nat.le_succ m)
  | waiting hm hfail hnone => exact hfail

/-- The attempt after the `m` failed ones is the last one that is made. -/
theorem Ends.last (h : Ends outcomes n m result tail) (hfail : Failing outcomes (m + 1)) :
    m + 1 = n := by
  obtain ⟨e, he⟩ := hfail m (Nat.lt_succ_self m)
  cases h with
  | returned hm hfirst => simp [hfirst.success] at he
  | dead hm _ hlast => exact hm
  | waiting hm _ hnone => simp [hnone] at he

theorem Ends.firstSuccess (h : Ends outcomes n m result tail) {i : ℕ} {a : α}
    (hfirst : FirstSuccess outcomes i a) : min (i + 1) n = m + 1 := by
  cases h with
  | returned hm hfirst' =>
    obtain ⟨rfl, -⟩ := hfirst.unique hfirst'
    exact min_eq_left hm
  | dead hm hfail hlast =>
    have hi : n ≤ i := not_lt.mp fun hi => hfail.not_success hi hfirst.success
    rw [min_eq_right (hi.trans (Nat.le_succ i)), hm]
  | waiting hm hfail hnone =>
    exfalso
    rcases Nat.lt_or_ge i m with hi | hi
    · exact hfail.not_success hi hfirst.success
    · have hend := outcomes.le_stable hi hnone
      simp [hfirst.success] at hend

theorem Ends.gives_up (h : Ends outcomes n m result tail) :
    result = some (.ok none) ↔ Failing outcomes n := by
  cases h with
  | returned hm hfirst =>
    simp only [Option.some.injEq, Except.ok.injEq, reduceCtorEq, false_iff]
    exact fun hfail => hfail.not_success hm hfirst.success
  | dead hm hfail hlast => exact iff_of_true rfl hfail
  | waiting hm hfail hnone =>
    simp only [reduceCtorEq, false_iff]
    intro hall
    obtain ⟨e, he⟩ := hall m hm
    simp [hnone] at he

theorem Ends.returns (h : Ends outcomes n m result tail) (a : α) :
    result = some (.ok (some a)) ↔ ∃ i < n, FirstSuccess outcomes i a := by
  constructor
  · rintro rfl
    cases h with
    | returned hm hfirst => exact ⟨m, hm, hfirst⟩
  · rintro ⟨i, hi, hfirst⟩
    have him := h.firstSuccess hfirst
    rw [min_eq_left hi] at him
    obtain rfl : i = m := Nat.succ_injective him
    cases h with
    | returned hm hfirst' =>
      obtain ⟨-, rfl⟩ := hfirst.unique hfirst'
      rfl
    | dead hm hfail hlast => exact absurd hfirst.success (hfail.not_success hi)
    | waiting hm hfail hnone => simp [hfirst.success] at hnone

theorem Ends.countP_operation (h : Ends outcomes n m result tail) :
    (rounds outcomes m ++ .operation (outcomes.get? m) :: tail).countP Event.isOperation =
      m + 1 := by
  rw [List.countP_append, countP_operation_rounds]
  cases h <;> rfl

theorem Ends.retries (h : Ends outcomes n m result tail) :
    (rounds outcomes m ++ .operation (outcomes.get? m) :: tail).filterMap Event.retry? =
      List.range' 1 m := by
  rw [List.filterMap_append, retries_rounds]
  cases h <;> exact List.append_nil _

/-- Every failure but the last one allowed is followed by a callback. -/
theorem Ends.countP_failure (h : Ends outcomes n m result tail) :
    min ((rounds outcomes m ++ .operation (outcomes.get? m) :: tail).countP Event.isFailure)
      (n - 1) = m := by
  have hlt := h.lt
  rw [List.countP_append, countP_failure_rounds h.failing]
  cases h with
  | returned hm hfirst =>
    rw [hfirst.success]
    exact min_eq_left (Nat.le_sub_one_of_lt hlt)
  | dead hm hfail hlast =>
    rw [← hm, Nat.add_sub_cancel]
    exact min_eq_right (Nat.le_add_right m _)
  | waiting hm hfail hnone =>
    rw [hnone]
    exact min_eq_left (Nat.le_sub_one_of_lt hlt)

end Ends

/-- For every sequence of outcomes and every positive number of attempts the loop calls
its closures as often, with the arguments and in the order it is meant to, and its result
is that of the first success among the attempts. -/
theorem executeWithRetry_exact (outcomes : Seq (Except Exception α)) {maxAttempts : ℕ}
    (hattempts : 1 ≤ maxAttempts) : Exact outcomes maxAttempts (trial outcomes maxAttempts).1
      (trial outcomes maxAttempts).2.events := by
  obtain ⟨m, result, tail, h, htrial⟩ := trial_ends outcomes hattempts
  rw [htrial]
  constructor
  case calls_of_success =>
    intro i a hfirst
    rw [h.countP_operation, h.firstSuccess hfirst]
  case calls_of_failing =>
    intro hfail
    have hm : m + 1 = maxAttempts := h.last (hfail.mono h.lt)
    rw [h.countP_operation, hm]
  case retries => rw [h.retries, h.countP_failure]
  case retry_follows =>
    intro k hk hfail
    have hkm : k < m := by
      by_contra hle
      have hlast := h.last (hfail.mono (by omega))
      omega
    obtain ⟨after, hafter⟩ := rounds_split outcomes hkm
    refine ⟨rounds outcomes k, after ++ .operation (outcomes.get? m) :: tail, ?_,
      countP_operation_rounds k⟩
    simp [hafter]
  case dead =>
    intro e hfail hlast
    rw [deaths_append]
    have hresult := h.gives_up.mpr hfail
    cases h with
    | returned hm hfirst => simp at hresult
    | dead hm _ he =>
      obtain rfl : maxAttempts - 1 = m := by omega
      obtain rfl : e = _ := by simpa using hlast.symm.trans he
      rfl
    | waiting hm _ hnone => simp at hresult
  case not_dead =>
    intro hfail
    rw [deaths_append]
    cases h with
    | returned hm hfirst => rfl
    | dead hm hall hlast => exact absurd hall hfail
    | waiting hm _ hnone => rfl
  case returns => exact h.returns
  case returns_iff =>
    simp only [h.returns]
    constructor
    · rintro ⟨a, i, hi, hfirst⟩
      exact ⟨i, hi, a, hfirst.success⟩
    · rintro ⟨i, hi, a, ha⟩
      obtain ⟨j, hj, b, hfirst⟩ := exists_firstSuccess ha
      exact ⟨b, j, hj.trans_lt hi, hfirst⟩
  case gives_up => exact h.gives_up

/-- Two failures and a success: three attempts reach it, and two do not. -/
theorem executeWithRetry_exact_thrice :
    Exact (Seq.ofList [.error (.driver "refused"), .error (.driver "timed out"), .ok 7]) 3
        (some (.ok (some 7)))
        [.operation (some (.error (.driver "refused"))), .onRetry 1,
          .operation (some (.error (.driver "timed out"))), .onRetry 2,
          .operation (some (.ok 7))] ∧
      Exact (Seq.ofList [.error (.driver "refused"), .error (.driver "timed out"), .ok 7]) 2
        (some (.ok none))
        [.operation (some (.error (.driver "refused"))), .onRetry 1,
          .operation (some (.error (.driver "timed out"))), .onDead "timed out"] :=
  ⟨executeWithRetry_exact _ (by decide), executeWithRetry_exact _ (by decide)⟩

end Loop

section Closures
variable {Op : Type} {Reply : Op → Type} {α : Type} (operation : Prog Op Reply Exception α)
  (onRetry : ℕ → Prog Op Reply Exception Unit) (onDead : String → Prog Op Reply Exception Unit)

/-- The programs that a caller hands over. -/
def closures : (op : RetryOp) → Prog Op Reply Exception (op.Reply α)
  | .operation => operation
  | .onRetry attempt => onRetry attempt
  | .onDead error => onDead error

theorem attempts_eq_substitute (left attempt : ℕ) :
    attempts operation onRetry onDead left attempt =
      (attempts (RetryService.operation α) (RetryService.onRetry α) (RetryService.onDead α) left
        attempt).substitute (closures operation onRetry onDead) := by
  induction left generalizing attempt with
  | zero => rfl
  | succ left ih =>
    rw [attempts, attempts, substitute_handle, substitute_send, closures]
    congr 1
    funext res
    cases res with
    | ok result => rfl
    | error e =>
      simp only
      split
      · rw [substitute_bind, substitute_send, closures]
        rfl
      · rw [substitute_bind, substitute_send, closures, ih]

/-- Whatever the closures do, the calls of them are those of the loop. -/
theorem executeWithRetry_eq_substitute (maxAttempts : ℕ) :
    executeWithRetry operation maxAttempts onRetry onDead =
      (loop α maxAttempts).substitute (closures operation onRetry onDead) :=
  attempts_eq_substitute operation onRetry onDead maxAttempts 0

variable {σ : Type} (answers : (op : Op) → σ → Option (Except Exception (Reply op)) × σ)

/-- A program that returns, from every state. -/
def Returns {β : Type} (p : Prog Op Reply Exception β) : Prop :=
  ∀ x, ∃ r y, p.perform answers x = (some (.ok r), y)

variable {operation onRetry onDead}

/-- Over any store the loop ends as it does for the outcomes its operation has there. -/
theorem exists_outcomes (hretry : ∀ attempt, Returns answers (onRetry attempt))
    (hdead : ∀ error, Returns answers (onDead error)) (left attempt : ℕ) (x : σ) :
    ∃ rest : Seq (Except Exception α), ∀ (outcomes : Seq (Except Exception α)) (t : Trial α),
      (∀ j, outcomes.get? (t.called + j) = rest.get? j) →
        ((attempts operation onRetry onDead left attempt).perform answers x).1 =
          ((attempts (RetryService.operation α) (RetryService.onRetry α) (RetryService.onDead α)
            left attempt).perform (answer outcomes) t).1 := by
  induction left generalizing attempt x with
  | zero => exact ⟨.nil, fun _ _ _ => rfl⟩
  | succ left ih =>
    simp only [attempts, perform_handle, perform_operation]
    rcases operation.perform answers x with ⟨_ | e | a, y⟩
    · refine ⟨.nil, ?_⟩
      intro outcomes t hrest
      have hnext : outcomes.get? t.called = none := hrest 0
      rw [hnext]
    · by_cases hleft : left = 0
      · obtain ⟨_, y', hy'⟩ := hdead e.message y
        refine ⟨.cons (.error e) .nil, ?_⟩
        intro outcomes t hrest
        have hnext : outcomes.get? t.called = some (.error e) := hrest 0
        simp only [hnext, if_pos hleft]
        rw [perform_send_bind _ _ rfl, bind_eq, perform_handle, hy']
        rfl
      · obtain ⟨_, y', hy'⟩ := hretry (attempt + 1) y
        obtain ⟨rest, hrest'⟩ := ih (attempt + 1) y'
        refine ⟨.cons (.error e) rest, ?_⟩
        intro outcomes t hrest
        have hnext : outcomes.get? t.called = some (.error e) := hrest 0
        simp only [hnext, if_neg hleft]
        rw [perform_send_bind _ _ rfl, bind_eq, perform_handle, hy']
        apply hrest'
        intro j
        rw [Nat.add_assoc, Nat.add_comm 1 j]
        exact hrest (j + 1)
    · refine ⟨.cons (.ok a) .nil, ?_⟩
      intro outcomes t hrest
      have hnext : outcomes.get? t.called = some (.ok a) := hrest 0
      rw [hnext]
      rfl

theorem executeWithRetry_result (hretry : ∀ attempt, Returns answers (onRetry attempt))
    (hdead : ∀ error, Returns answers (onDead error)) (maxAttempts : ℕ) (x : σ) :
    ∃ outcomes : Seq (Except Exception α),
      ((executeWithRetry operation maxAttempts onRetry onDead).perform answers x).1 =
        (trial outcomes maxAttempts).1 := by
  obtain ⟨outcomes, h⟩ := exists_outcomes answers hretry hdead maxAttempts 0 x
  exact ⟨outcomes, h outcomes _ fun j => congrArg _ (Nat.zero_add j)⟩

end Closures

section Stages
variable {ι γ Op : Type} {Reply : Op → Type} {α : Type}
  {T : Typestate ι Op Reply Exception γ} {i : ι}
  {operation : Prog Op Reply Exception α} {onRetry : ℕ → Prog Op Reply Exception Unit}
  {onDead : String → Prog Op Reply Exception Unit} (trying failed : γ → Prop)
  {post : γ → Except Exception (Option α) → Prop}

/-- The rule of the loop: what every attempt keeps up to the next one. -/
theorem follows_loop
    (hoperation : ∀ g, trying g → T.Follows i (fun g' res =>
      (∀ a, res = .ok a → post g' (.ok (some a))) ∧ ∀ e, res = .error e → failed g') operation g)
    (hretry : ∀ attempt g, failed g → T.Follows i (fun g' res =>
      (∀ r, res = .ok r → trying g') ∧ ∀ e, res = .error e → post g' (.error e))
        (onRetry attempt) g)
    (hdead : ∀ error g, failed g → T.Follows i (fun g' res =>
      post g' (res.map fun _ => none)) (onDead error) g)
    {left : ℕ} (attempt : ℕ) {g : γ} (hg : trying g)
    (hleft : left ≠ 0 ∨ ∀ g', trying g' → post g' (.ok none)) :
    T.Follows i post (attempts operation onRetry onDead left attempt) g := by
  induction left generalizing attempt g with
  | zero => exact hleft.resolve_left (by simp) g hg
  | succ left ih =>
    apply (hoperation g hg).handle
    intro g' res hres
    cases res with
    | ok a => exact hres.1 a rfl
    | error e =>
      simp only
      split
      · apply (hdead _ g' (hres.2 e rfl)).bind
        · intro _ _ hpost
          exact hpost
        · intro _ _ hpost
          exact hpost
      · rename_i hmore
        apply (hretry _ g' (hres.2 e rfl)).bind
        · intro g'' r hnext
          exact ih _ (hnext.1 r rfl) (.inl hmore)
        · intro g'' e' hthrown
          exact hthrown.2 e' rfl

end Stages
end StockMarket.Notifications.RetryService
