import StockMarket.Interleaving.Program
import Mathlib.Data.List.Basic
import Mathlib.Data.List.Induction
import Mathlib.Order.Basic

/-! # Calls interleaved at their store operations

A pool holds any number of calls over one store. A schedule picks, step after
step, the call whose next operation is carried out, how that operation ends,
a call whose process dies, or a move of the environment such as an expiring
key. The log keeps every operation the store has carried out, newest first.
-/

namespace StockMarket.Interleaving

universe u v s t

/-- What a store does with an operation, and what can happen to it unasked. -/
structure Backend (Op : Type u) (Reply : Op → Type v) (σ : Type s) (E : Type t) where
  exec : (op : Op) → σ → Reply op × σ
  env : E → σ → σ

structure Reaction (Op : Type u) (Reply : Op → Type v) where
  op : Op
  reply : Reply op

/-- A carried-out operation and the call that sent it. -/
structure Entry (ι : Type t) (Op : Type u) (Reply : Op → Type v) where
  caller : ι
  reaction : Reaction Op Reply

inductive Choice (ι : Type u) (E : Type t) (ε : Type v) where
  | step (i : ι) (o : Outcome ε)
  | crash (i : ι)
  | env (x : E)

/-- The store, its log, and what is left of each call. A crashed call is gone. -/
structure Config (ι : Type t) (Op : Type u) (Reply : Op → Type v) (σ : Type s) (ε α : Type v) where
  store : σ
  log : List (Entry ι Op Reply)
  calls : ι → Option (Prog Op Reply ε α)

section Log
variable {ι : Type t} {Op : Type u} {Reply : Op → Type v} [DecidableEq ι]

/-- The operations one call has had carried out, newest first. -/
def own (i : ι) (log : List (Entry ι Op Reply)) : List (Reaction Op Reply) :=
  log.filterMap fun e => if e.caller = i then some e.reaction else none

@[simp] theorem own_cons_self (i : ι) (x : Reaction Op Reply) (log : List (Entry ι Op Reply)) :
    own i (⟨i, x⟩ :: log) = x :: own i log := by
  simp [own]

theorem own_cons_ne {i j : ι} (h : j ≠ i) (x : Reaction Op Reply)
    (log : List (Entry ι Op Reply)) : own i (⟨j, x⟩ :: log) = own i log := by
  simp [own, h]

theorem own_append (i : ι) (newer older : List (Entry ι Op Reply)) :
    own i (newer ++ older) = own i newer ++ own i older := List.filterMap_append

@[simp] theorem mem_own {i : ι} {x : Reaction Op Reply} {log : List (Entry ι Op Reply)} :
    x ∈ own i log ↔ ⟨i, x⟩ ∈ log := by
  simp only [own, List.mem_filterMap]
  constructor
  · rintro ⟨⟨j, y⟩, he, h⟩
    split at h
    · rename_i hj
      cases h
      simpa [← hj] using he
    · cases h
  · intro h
    exact ⟨⟨i, x⟩, h, by simp⟩

theorem mem_own_cons {i j : ι} {x y : Reaction Op Reply} {log : List (Entry ι Op Reply)} :
    x ∈ own i (⟨j, y⟩ :: log) ↔ (j = i ∧ x = y) ∨ x ∈ own i log := by
  simp [eq_comm (a := i), Entry.mk.injEq]

/-- What is in a call's history after one more operation of the pool: what was
there, or that operation if it is the call's own. -/
theorem mem_own_exec {σ : Type s} {exec : (op : Op) → σ → Reply op × σ} {i j : ι} {op op₀ : Op}
    {reply : Reply op₀} {y : σ} {log : List (Entry ι Op Reply)}
    (h : ⟨op₀, reply⟩ ∈ own i (⟨j, op, (exec op y).1⟩ :: log)) :
    (j = i ∧ op = op₀ ∧ (exec op₀ y).1 = reply) ∨ ⟨op₀, reply⟩ ∈ own i log := by
  apply (mem_own_cons.mp h).imp_left
  rintro ⟨hj, hx⟩
  cases hx
  exact ⟨hj, rfl, rfl⟩

/-- What has been carried out since the call last had an operation of the kind carried
out. -/
def since (i : ι) (kind : Op → Bool) (log : List (Entry ι Op Reply)) : List (Entry ι Op Reply) :=
  log.takeWhile fun e => ¬(e.caller = i ∧ kind e.reaction.op)

/-- An entry was made since then, or was there already. -/
theorem mem_since_or {i : ι} {kind : Op → Bool} {log : List (Entry ι Op Reply)}
    {e : Entry ι Op Reply} (h : e ∈ log) :
    e ∈ since i kind log ∨ ∃ newer x older, log = newer ++ ⟨i, x⟩ :: older ∧ kind x.op ∧
      (e = ⟨i, x⟩ ∨ e ∈ older) := by
  induction log with
  | nil => cases h
  | cons first log ih =>
    by_cases hfirst : first.caller = i ∧ kind first.reaction.op
    · obtain ⟨rfl, hkind⟩ := hfirst
      exact .inr ⟨[], first.reaction, log, rfl, hkind, List.mem_cons.mp h⟩
    · have hsince : since i kind (first :: log) = first :: since i kind log := by
        rw [since, List.takeWhile_cons, if_pos (decide_eq_true hfirst), since]
      rw [hsince]
      rcases List.mem_cons.mp h with rfl | hlog
      · exact .inl List.mem_cons_self
      · rcases ih hlog with hnew | ⟨newer, x, older, rfl, hkind, hold⟩
        · exact .inl (List.mem_cons_of_mem _ hnew)
        · exact .inr ⟨first :: newer, x, older, rfl, hkind, hold⟩

/-- Every entry was right, by what had been carried out before it. -/
def Recorded (P : Entry ι Op Reply → List (Entry ι Op Reply) → Prop) :
    List (Entry ι Op Reply) → Prop
  | [] => True
  | e :: log => P e log ∧ Recorded P log

omit [DecidableEq ι] in
theorem Recorded.split {P : Entry ι Op Reply → List (Entry ι Op Reply) → Prop}
    {newer older : List (Entry ι Op Reply)} {e : Entry ι Op Reply}
    (h : Recorded P (newer ++ e :: older)) : P e older := by
  induction newer with
  | nil => exact h.1
  | cons _ newer ih => exact ih h.2

omit [DecidableEq ι] in
theorem Recorded.older {P : Entry ι Op Reply → List (Entry ι Op Reply) → Prop}
    {newer older : List (Entry ι Op Reply)} (h : Recorded P (newer ++ older)) :
    Recorded P older := by
  induction newer with
  | nil => exact h
  | cons _ newer ih => exact ih h.2

/-- Where no call has two operations of the kind carried out, what has been carried out since
such an operation is what is newer than it. -/
theorem Recorded.since_eq {P : Entry ι Op Reply → List (Entry ι Op Reply) → Prop} {i : ι}
    {kind : Op → Bool} {newer older : List (Entry ι Op Reply)} {x : Reaction Op Reply}
    (h : Recorded P (newer ++ ⟨i, x⟩ :: older)) (hkind : kind x.op = true)
    (honce : ∀ e earlier, P e earlier → kind e.reaction.op = true →
      ∀ y ∈ own e.caller earlier, kind y.op = false) :
    since i kind (newer ++ ⟨i, x⟩ :: older) = newer := by
  have hnewer : ∀ e ∈ newer, decide (¬(e.caller = i ∧ kind e.reaction.op = true)) = true := by
    intro e he
    rw [decide_eq_true_iff]
    rintro ⟨rfl, hagain⟩
    obtain ⟨newest, between, rfl⟩ := List.append_of_mem he
    rw [List.append_assoc] at h
    have hno := honce _ _ h.split hagain x (by simp)
    simp [hkind] at hno
  rw [since, List.takeWhile_append_of_pos hnewer, List.takeWhile_cons, if_neg (by simp [hkind]),
    List.append_nil]

theorem reaction_eq {σ : Type s} {exec : (op : Op) → σ → Reply op × σ} {op op₀ : Op}
    {reply : Reply op₀} {y : σ} (h : (⟨op, (exec op y).1⟩ : Reaction Op Reply) = ⟨op₀, reply⟩) :
    op = op₀ ∧ (exec op₀ y).1 = reply := by
  rw [Reaction.mk.injEq] at h
  obtain ⟨rfl, hreply⟩ := h
  exact ⟨rfl, eq_of_heq hreply⟩

end Log

namespace Config
variable {ι : Type t} {Op : Type u} {Reply : Op → Type v} {σ : Type s} {E : Type t} {ε α : Type v}
  [DecidableEq ι] (B : Backend Op Reply σ E)

/-- The configuration before any call has done anything. -/
def start (x : σ) (calls : ι → Prog Op Reply ε α) : Config ι Op Reply σ ε α :=
  ⟨x, [], fun i => some (calls i)⟩

/-- The store carries out `op` for call `i`, which continues as `p`. -/
def advance (c : Config ι Op Reply σ ε α) (i : ι) (op : Op) (p : Prog Op Reply ε α) :
    Config ι Op Reply σ ε α :=
  ⟨(B.exec op c.store).2, ⟨i, op, (B.exec op c.store).1⟩ :: c.log,
    Function.update c.calls i (some p)⟩

/-- One scheduled step. A choice that does not apply changes nothing. -/
def step (c : Config ι Op Reply σ ε α) : Choice ι E ε → Config ι Op Reply σ ε α
  | .step i o =>
      match c.calls i with
      | some (.call op next failed) =>
          match o with
          | .done => c.advance B i op (next (B.exec op c.store).1)
          | .failed e => { c with calls := Function.update c.calls i (some (failed e)) }
          | .lost e => c.advance B i op (failed e)
      | _ => c
  | .crash i => { c with calls := Function.update c.calls i none }
  | .env x => { c with store := B.env x c.store }

def run (c : Config ι Op Reply σ ε α) (sched : List (Choice ι E ε)) : Config ι Op Reply σ ε α :=
  sched.foldl (step B) c

@[simp] theorem run_nil (c : Config ι Op Reply σ ε α) : c.run B [] = c := rfl

@[simp] theorem run_cons (c : Config ι Op Reply σ ε α) (ch : Choice ι E ε)
    (sched : List (Choice ι E ε)) : c.run B (ch :: sched) = (c.step B ch).run B sched := rfl

theorem run_append (c : Config ι Op Reply σ ε α) (s₁ s₂ : List (Choice ι E ε)) :
    c.run B (s₁ ++ s₂) = (c.run B s₁).run B s₂ := List.foldl_append

/-- What a carried-out operation leaves, whether its caller learns of it or not. -/
theorem step_applies {c : Config ι Op Reply σ ε α} {i : ι} {op : Op}
    {next : Reply op → Prog Op Reply ε α} {failed : ε → Prog Op Reply ε α} {o : Outcome ε}
    (hi : c.calls i = some (.call op next failed)) (ho : o.applies) :
    (c.step B (.step i o)).store = (B.exec op c.store).2 ∧
      (c.step B (.step i o)).log = ⟨i, op, (B.exec op c.store).1⟩ :: c.log := by
  cases o with
  | done => simp [step, hi, advance]
  | failed e => cases ho
  | lost e => simp [step, hi, advance]

/-- Where nothing is carried out, store and log stay as they are. -/
theorem step_of_not_applies {c : Config ι Op Reply σ ε α} {i : ι} {o : Outcome ε}
    (h : ∀ op next failed, c.calls i = some (.call op next failed) → ¬o.applies) :
    (c.step B (.step i o)).store = c.store ∧ (c.step B (.step i o)).log = c.log := by
  rcases hi : c.calls i with _ | ⟨a | e | ⟨op, next, failed⟩⟩
  · simp [step, hi]
  · simp [step, hi]
  · simp [step, hi]
  · cases o with
    | done => exact absurd rfl (h op next failed hi)
    | failed e => simp [step, hi]
    | lost e => exact absurd rfl (h op next failed hi)

/-- What every operation and every move of the environment keep of the store
holds after every schedule. -/
theorem run_store {I : σ → Prop} (hexec : ∀ op x, I x → I (B.exec op x).2)
    (henv : ∀ y x, I x → I (B.env y x)) (c : Config ι Op Reply σ ε α) (h0 : I c.store)
    (sched : List (Choice ι E ε)) : I (c.run B sched).store := by
  induction sched generalizing c with
  | nil => exact h0
  | cons ch sched ih =>
    apply ih
    cases ch with
    | crash i => exact h0
    | env y => exact henv y _ h0
    | step i o =>
      simp only [step]
      split
      · cases o with
        | done => exact hexec _ _ h0
        | failed e => exact h0
        | lost e => exact hexec _ _ h0
      · exact h0

/-- Call `i` is about to send `op`. -/
def Sending (c : Config ι Op Reply σ ε α) (i : ι) (op : Op) : Prop :=
  ∃ next failed, c.calls i = some (.call op next failed)

instance [DecidableEq Op] (c : Config ι Op Reply σ ε α) (i : ι) (op : Op) :
    Decidable (c.Sending i op) :=
  match h : c.calls i with
  | some (.call op' next failed) =>
      decidable_of_iff (op' = op) (by
        rw [Sending, h]
        constructor
        · rintro rfl
          exact ⟨next, failed, rfl⟩
        · rintro ⟨_, _, hcall⟩
          cases hcall
          rfl)
  | some (.ret _) => .isFalse (by simp [Sending, h])
  | some (.raise _) => .isFalse (by simp [Sending, h])
  | none => .isFalse (by simp [Sending, h])

/-- A step carries out an operation of its caller, or leaves the log as it was. -/
theorem log_step (c : Config ι Op Reply σ ε α) (ch : Choice ι E ε) :
    (c.step B ch).log = c.log ∨ ∃ i o op, ch = .step i o ∧ o.applies ∧ c.Sending i op ∧
      (c.step B ch).log = ⟨i, op, (B.exec op c.store).1⟩ :: c.log := by
  cases ch with
  | crash i => exact .inl rfl
  | env y => exact .inl rfl
  | step i o =>
    rcases hi : c.calls i with _ | ⟨a | e | ⟨op, next, failed⟩⟩
    · exact .inl (by simp only [step, hi])
    · exact .inl (by simp only [step, hi])
    · exact .inl (by simp only [step, hi])
    · by_cases ho : o.applies
      · exact .inr ⟨i, o, op, rfl, ho, ⟨next, failed, hi⟩, (step_applies B hi ho).2⟩
      · exact .inl (step_of_not_applies B fun _ _ _ _ => ho).2

/-- Every entry of the log was there at the start, or was made at some step by
what the store answered then. -/
theorem mem_log_run {c : Config ι Op Reply σ ε α} {sched : List (Choice ι E ε)} {i : ι} {op : Op}
    {reply : Reply op} (h : ⟨i, op, reply⟩ ∈ (c.run B sched).log) : ⟨i, op, reply⟩ ∈ c.log ∨
      ∃ before o later, sched = before ++ .step i o :: later ∧ o.applies ∧
        (c.run B before).Sending i op ∧ reply = (B.exec op (c.run B before).store).1 := by
  induction sched using List.reverseRecOn with
  | nil => exact .inl h
  | append_singleton sched ch ih =>
    rw [run_append, run_cons, run_nil] at h
    have hold (hin : ⟨i, op, reply⟩ ∈ (c.run B sched).log) : ⟨i, op, reply⟩ ∈ c.log ∨
        ∃ before o later, sched ++ [ch] = before ++ .step i o :: later ∧ o.applies ∧
          (c.run B before).Sending i op ∧ reply = (B.exec op (c.run B before).store).1 := by
      apply (ih hin).imp_right
      rintro ⟨before, o, later, rfl, ho, hsending, hreply⟩
      exact ⟨before, o, later ++ [ch], by simp, ho, hsending, hreply⟩
    rcases log_step B (c.run B sched) ch with hsame | ⟨j, o, op', rfl, ho, hsending, hcons⟩
    · exact hold (hsame ▸ h)
    · rw [hcons] at h
      rcases List.mem_cons.mp h with hnew | hin
      · cases hnew
        exact .inr ⟨sched, o, [], rfl, ho, hsending, rfl⟩
      · exact hold hin

theorem log_run (c : Config ι Op Reply σ ε α) (sched : List (Choice ι E ε)) :
    ∃ added, (c.run B sched).log = added ++ c.log ∧ ∀ e ∈ added, ∃ o, .step e.caller o ∈ sched := by
  induction sched generalizing c with
  | nil => exact ⟨[], rfl, by simp⟩
  | cons ch sched ih =>
    obtain ⟨added, hadded, hpicked⟩ := ih (c.step B ch)
    have hlater {e : Entry ι Op Reply} (he : e ∈ added) : ∃ o, .step e.caller o ∈ ch :: sched :=
      (hpicked e he).imp fun _ => List.mem_cons_of_mem ch
    rcases log_step B c ch with hsame | ⟨i, o, op, rfl, -, -, hcons⟩
    · exact ⟨added, by rw [run_cons, hadded, hsame], fun e => hlater⟩
    · refine ⟨added ++ [⟨i, op, (B.exec op c.store).1⟩], ?_, ?_⟩
      · rw [run_cons, hadded, hcons, List.append_assoc, List.singleton_append]
      · intro e he
        rcases List.mem_append.mp he with he | he
        · exact hlater he
        · obtain rfl := List.mem_singleton.mp he
          exact ⟨o, List.mem_cons_self⟩

theorem log_suffix (c : Config ι Op Reply σ ε α) (sched : List (Choice ι E ε)) :
    c.log <:+ (c.run B sched).log := by
  obtain ⟨added, hadded, -⟩ := log_run B c sched
  exact ⟨added, hadded.symm⟩

/-- A call that had done nothing comes after everything that was done. -/
theorem mem_log_later {c : Config ι Op Reply σ ε α} {before later : List (Choice ι E ε)} {i : ι}
    {x : Reaction Op Reply} (hbegun : own i (c.run B before).log = [])
    (hx : x ∈ own i (c.run B (before ++ later)).log) : ∃ newer between,
      (c.run B (before ++ later)).log = newer ++ ⟨i, x⟩ :: (between ++ (c.run B before).log) := by
  rw [run_append] at hx ⊢
  obtain ⟨added, hadded⟩ := log_suffix B (c.run B before) later
  rw [mem_own, ← hadded, List.mem_append] at hx
  have hnew : ⟨i, x⟩ ∉ (c.run B before).log := fun h => by
    rw [← mem_own, hbegun] at h
    cases h
  obtain ⟨newer, between, rfl⟩ := List.append_of_mem (hx.resolve_right hnew)
  exact ⟨newer, between, by rw [← hadded, List.append_assoc, List.cons_append]⟩

theorem own_suffix (c : Config ι Op Reply σ ε α) (i : ι) (before later : List (Choice ι E ε)) :
    own i (c.run B before).log <:+ own i (c.run B (before ++ later)).log := by
  rw [run_append]
  exact (log_suffix B (c.run B before) later).filterMap _

/-- A quantity that no operation and no move of the environment lowers only grows. -/
theorem run_le {M : Type*} [Preorder M] {f : σ → M} (hexec : ∀ op x, f x ≤ f (B.exec op x).2)
    (henv : ∀ y x, f x ≤ f (B.env y x)) (c : Config ι Op Reply σ ε α)
    (sched : List (Choice ι E ε)) : f c.store ≤ f (c.run B sched).store :=
  run_store B (I := fun x => f c.store ≤ f x) (fun op _ hx => hx.trans (hexec op _))
    (fun y _ hx => hx.trans (henv y _)) c le_rfl sched

/-- A call that is gone comes to nothing more, and only a crash takes one away. -/
theorem step_crashed {c : Config ι Op Reply σ ε α} {ch : Choice ι E ε} {i : ι}
    (h : (c.step B ch).calls i = none) : own i (c.step B ch).log = own i c.log ∧
      (c.calls i = none ∨ ch = .crash i) := by
  cases ch with
  | env y => exact ⟨rfl, .inl h⟩
  | crash j =>
    refine ⟨rfl, ?_⟩
    by_cases hj : i = j
    · exact .inr (by rw [hj])
    · exact .inl (by simpa [step, hj] using h)
  | step j o =>
    rcases hc : c.calls j with _ | ⟨a | e | ⟨op, next, failed⟩⟩
    · simp only [step, hc] at h ⊢
      exact ⟨trivial, .inl h⟩
    · simp only [step, hc] at h ⊢
      exact ⟨trivial, .inl h⟩
    · simp only [step, hc] at h ⊢
      exact ⟨trivial, .inl h⟩
    · by_cases hj : i = j
      · subst hj
        cases o <;> simp [step, hc, advance] at h
      · cases o <;> simp only [step, hc, advance, Function.update_of_ne hj] at h ⊢
        · exact ⟨own_cons_ne (Ne.symm hj) _ _, .inl h⟩
        · exact ⟨trivial, .inl h⟩
        · exact ⟨own_cons_ne (Ne.symm hj) _ _, .inl h⟩

/-- What held of a call's history whenever it crashed holds of it ever after. -/
theorem run_crashed {Q : ι → List (Reaction Op Reply) → Prop} {c : Config ι Op Reply σ ε α}
    (hc : ∀ i, c.calls i = none → Q i (own i c.log)) (sched : List (Choice ι E ε))
    (h : ∀ s₁ i s₂, sched = s₁ ++ .crash i :: s₂ → Q i (own i (c.run B s₁).log)) (i : ι)
    (hi : (c.run B sched).calls i = none) : Q i (own i (c.run B sched).log) := by
  induction sched using List.reverseRecOn with
  | nil => exact hc i hi
  | append_singleton sched ch ih =>
    rw [run_append, run_cons, run_nil] at hi ⊢
    obtain ⟨hown, hgone | hcrash⟩ := step_crashed B hi
    · rw [hown]
      exact ih (fun s₁ j s₂ hs => h s₁ j (s₂ ++ [ch]) (by rw [hs, List.append_assoc]; rfl)) hgone
    · rw [hown]
      exact h sched i [] (by rw [hcrash])

def result (c : Config ι Op Reply σ ε α) (i : ι) : Option (Except ε α) :=
  match c.calls i with
  | some (.ret a) => some (.ok a)
  | some (.raise e) => some (.error e)
  | _ => none

omit [DecidableEq ι] in
theorem result_eq_some {c : Config ι Op Reply σ ε α} {i : ι} {res : Except ε α} :
    c.result i = some res ↔ c.calls i = some (Prog.ofExcept res) := by
  rcases h : c.calls i with _ | ⟨b | e | ⟨op, next, failed⟩⟩ <;> cases res <;>
    simp [result, h, Prog.ofExcept]

omit [DecidableEq ι] in
theorem result_ok_iff {c : Config ι Op Reply σ ε α} {i : ι} {a : α} :
    c.result i = some (.ok a) ↔ c.calls i = some (.ret a) := by
  rcases h : c.calls i with _ | ⟨b | e | ⟨op, next, failed⟩⟩ <;> simp [result, h]

end Config

/-- What is assumed of the steps of a schedule: of an operation about to end in
some way, and of a move of the environment. -/
structure Assumption (ι : Type t) (Op : Type u) (Reply : Op → Type v) (σ : Type s) (E : Type t)
    (ε : Type v) where
  call : σ → List (Entry ι Op Reply) → ι → Op → Outcome ε → Prop
  env : E → Prop

namespace Assumption
variable {ι : Type t} {Op : Type u} {Reply : Op → Type v} {σ : Type s} {E : Type t} {ε α : Type v}
  [DecidableEq ι] (B : Backend Op Reply σ E) (A : Assumption ι Op Reply σ E ε)

/-- The next choice meets the assumption. -/
def Meets (c : Config ι Op Reply σ ε α) : Choice ι E ε → Prop
  | .step i o =>
      match c.calls i with
      | some (.call op _ _) => A.call c.store c.log i op o
      | _ => True
  | .crash _ => True
  | .env x => A.env x

/-- Every step of the schedule meets the assumption in the state it is taken in. -/
def Along (c : Config ι Op Reply σ ε α) : List (Choice ι E ε) → Prop
  | [] => True
  | ch :: sched => A.Meets c ch ∧ Along (c.step B ch) sched

instance [∀ x l i op o, Decidable (A.call x l i op o)] [∀ x, Decidable (A.env x)]
    (c : Config ι Op Reply σ ε α) (ch : Choice ι E ε) : Decidable (A.Meets c ch) :=
  match ch with
  | .step i o =>
      match h : c.calls i with
      | some (.call op _ _) => decidable_of_iff (A.call c.store c.log i op o) (by simp [Meets, h])
      | some (.ret _) => .isTrue (by simp [Meets, h])
      | some (.raise _) => .isTrue (by simp [Meets, h])
      | none => .isTrue (by simp [Meets, h])
  | .crash _ => .isTrue trivial
  | .env x => inferInstanceAs (Decidable (A.env x))

instance decidableAlong [∀ x l i op o, Decidable (A.call x l i op o)] [∀ x, Decidable (A.env x)] :
    (c : Config ι Op Reply σ ε α) → (sched : List (Choice ι E ε)) → Decidable (A.Along B c sched)
  | _, [] => .isTrue trivial
  | c, ch :: sched =>
      have := decidableAlong (c.step B ch) sched
      inferInstanceAs (Decidable (A.Meets c ch ∧ A.Along B (c.step B ch) sched))

/-- An assumption that every step meets holds along every schedule. -/
theorem along_of_forall (hcall : ∀ x l i op o, A.call x l i op o) (henv : ∀ x, A.env x)
    (c : Config ι Op Reply σ ε α) (sched : List (Choice ι E ε)) : A.Along B c sched := by
  induction sched generalizing c with
  | nil => trivial
  | cons ch sched ih =>
    refine ⟨?_, ih _⟩
    cases ch with
    | step i o =>
      simp only [Meets]
      split
      · exact hcall _ _ _ _ _
      · trivial
    | crash i => trivial
    | env x => exact henv x

/-- Where only the environment is assumed something of, its moves decide. -/
theorem along_of_env (hcall : ∀ x l i op o, A.call x l i op o) {sched : List (Choice ι E ε)}
    (henv : ∀ x, .env x ∈ sched → A.env x) (c : Config ι Op Reply σ ε α) : A.Along B c sched := by
  induction sched generalizing c with
  | nil => trivial
  | cons ch sched ih =>
    refine ⟨?_, ih (fun x hx => henv x (List.mem_cons_of_mem _ hx)) _⟩
    cases ch with
    | step i o =>
      simp only [Meets]
      split
      · exact hcall _ _ _ _ _
      · trivial
    | crash i => trivial
    | env x => exact henv x List.mem_cons_self

theorem Along.mono {A A' : Assumption ι Op Reply σ E ε}
    (hcall : ∀ x l i op o, A.call x l i op o → A'.call x l i op o)
    (henv : ∀ x, A.env x → A'.env x) {c : Config ι Op Reply σ ε α} {sched : List (Choice ι E ε)}
    (h : A.Along B c sched) : A'.Along B c sched := by
  induction sched generalizing c with
  | nil => trivial
  | cons ch sched ih =>
    refine ⟨?_, ih h.2⟩
    have hch := h.1
    cases ch with
    | step i o =>
      simp only [Meets] at hch ⊢
      split
      · rename_i op next failed hi
        rw [hi] at hch
        exact hcall _ _ _ _ _ hch
      · trivial
    | crash i => trivial
    | env x => exact henv x hch

theorem along_append (c : Config ι Op Reply σ ε α) (s₁ s₂ : List (Choice ι E ε)) :
    A.Along B c (s₁ ++ s₂) ↔ A.Along B c s₁ ∧ A.Along B (c.run B s₁) s₂ := by
  induction s₁ generalizing c with
  | nil => simp [Along]
  | cons ch s₁ ih => simp [Along, ih, and_assoc]

/-- A quantity that no step lowers is the same at the end of a schedule as at its
beginning exactly where every step keeps it. -/
theorem run_eq_iff_along {M : Type s} [PartialOrder M] {I : Config ι Op Reply σ ε α → Prop}
    {quantity : Config ι Op Reply σ ε α → M}
    (hstep : ∀ c ch, I c → I (c.step B ch) ∧ quantity c ≤ quantity (c.step B ch) ∧
      (quantity (c.step B ch) = quantity c ↔ A.Meets c ch))
    {c : Config ι Op Reply σ ε α} (hc : I c) (sched : List (Choice ι E ε)) :
    I (c.run B sched) ∧ quantity c ≤ quantity (c.run B sched) ∧
      (quantity (c.run B sched) = quantity c ↔ A.Along B c sched) := by
  induction sched generalizing c with
  | nil => exact ⟨hc, le_refl _, iff_of_true rfl trivial⟩
  | cons ch sched ih =>
    obtain ⟨hc', hle, hmeets⟩ := hstep c ch hc
    obtain ⟨hrun, hle', halong⟩ := ih hc'
    refine ⟨hrun, hle.trans hle', ?_, ?_⟩
    · intro heq
      have hsame : quantity (c.step B ch) = quantity c := le_antisymm (hle'.trans heq.le) hle
      exact ⟨hmeets.mp hsame, halong.mp (heq.trans hsame.symm)⟩
    · intro h
      exact (halong.mpr h.2).trans (hmeets.mpr h.1)

theorem along_iff_split (c : Config ι Op Reply σ ε α) (sched : List (Choice ι E ε)) :
    A.Along B c sched ↔
      ∀ s₁ ch s₂, sched = s₁ ++ ch :: s₂ → A.Meets (c.run B s₁) ch := by
  constructor
  · rintro h s₁ ch s₂ rfl
    exact ((along_append B A c s₁ (ch :: s₂)).mp h).2.1
  · intro h
    induction sched generalizing c with
    | nil => trivial
    | cons ch sched ih =>
      refine ⟨h [] ch sched rfl, ih _ fun s₁ ch' s₂ hs => ?_⟩
      exact h (ch :: s₁) ch' s₂ (by rw [hs]; rfl)

end Assumption
end StockMarket.Interleaving
