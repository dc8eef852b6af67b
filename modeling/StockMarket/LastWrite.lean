import Mathlib.Data.List.Basic
import Mathlib.Data.List.Induction

/-! # Registers whose last write counts

A register is created with a value and overwritten by later events. An event
may come again after it was handled, and its write is then made a second time.
-/

namespace StockMarket.LastWrite

variable {α δ : Type*}

/-- What an event does to a register that may not exist yet. -/
inductive Write (α : Type*) where
  | create (value : α)
  | set (value : α)
  | skip

def Write.apply : Write α → Option α → Option α
  | .create v, _ => some v
  | .set v, x => x.map fun _ => v
  | .skip, x => x

/-- What is written does not depend on the value there was. -/
theorem Write.apply_congr {a : Write α} (ha : a ≠ .skip) {x y : Option α}
    (h : x.isSome = y.isSome) : a.apply x = a.apply y := by
  cases a with
  | create v => rfl
  | set v => cases x <;> cases y <;> simp_all [Write.apply]
  | skip => exact absurd rfl ha

def settle (w : δ → Write α) (x : Option α) (events : List δ) : Option α :=
  events.foldl (fun x d => (w d).apply x) x

@[simp] theorem settle_nil (w : δ → Write α) (x : Option α) : settle w x [] = x := rfl

@[simp] theorem settle_concat (w : δ → Write α) (x : Option α) (events : List δ) (d : δ) :
    settle w x (events ++ [d]) = (w d).apply (settle w x events) := by
  simp [settle]

@[simp] theorem settle_cons (w : δ → Write α) (x : Option α) (d : δ) (events : List δ) :
    settle w x (d :: events) = settle w ((w d).apply x) events := rfl

theorem settle_map {γ : Type*} (w : δ → Write α) (f : γ → δ) (x : Option α) (events : List γ) :
    settle w x (events.map f) = settle (fun d => w (f d)) x events := by
  simp [settle, List.foldl_map]

theorem isSome_settle_of_create {w : δ → Write α} {x : Option α} {d : δ} {v : α} {events : List δ}
    (hd : d ∈ events) (hw : w d = .create v) : (settle w x events).isSome := by
  induction events using List.reverseRecOn with
  | nil => cases hd
  | append_singleton events a ih =>
    rw [settle_concat]
    rcases List.mem_append.mp hd with hold | hlast
    · have hthere := ih hold
      cases w a with
      | create u => rfl
      | set u => simpa [Write.apply] using hthere
      | skip => exact hthere
    · obtain rfl := List.mem_singleton.mp hlast
      rw [hw]
      rfl

/-- A statement about every place of a list, at one more event. -/
theorem forall_split_concat {P : List δ → δ → List δ → Prop} {events : List δ} {a : δ} :
    (∀ before d later, events ++ [a] = before ++ d :: later → P before d later) ↔
      (∀ before d later, events = before ++ d :: later → P before d (later ++ [a])) ∧
        P events a [] := by
  constructor
  · intro h
    constructor
    · intro before d later hsplit
      apply h
      rw [hsplit, List.append_assoc, List.cons_append]
    · exact h events a [] rfl
  · intro ⟨hbefore, hlast⟩ before d later hsplit
    induction later using List.reverseRecOn with
    | nil =>
      obtain ⟨rfl, hd⟩ := List.append_inj' hsplit rfl
      cases hd
      exact hlast
    | append_singleton later b =>
      rw [← List.cons_append, ← List.append_assoc] at hsplit
      obtain ⟨rfl, hb⟩ := List.append_inj' hsplit rfl
      cases hb
      exact hbefore before d later rfl

section Repeated
variable (w : δ → Write α) (repeated : δ → Bool) (v : α) (x : Option α) (events : List δ)

/-- The events without those that came again. -/
def firsts : List δ := events.filter fun d => !repeated d

/-- An event that comes again creates the register anew, with the same value each
time, and the register was there without it. -/
def Repeats : Prop :=
  ∀ before d later, events = before ++ d :: later → repeated d →
    w d = .skip ∨ (w d = .create v ∧ (settle w x (firsts repeated before)).isSome)

/-- Whenever an event comes again, the register has its value already, or is
written later by an event that comes for the first time. -/
def Covered : Prop :=
  ∀ before d later, events = before ++ d :: later → repeated d → w d ≠ .skip →
    settle w x before = some v ∨ ∃ d' ∈ later, ¬repeated d' ∧ w d' ≠ .skip

variable {w repeated v x events}

theorem firsts_concat_of_repeated {d : δ} (h : repeated d) :
    firsts repeated (events ++ [d]) = firsts repeated events := by
  simp [firsts, h]

theorem firsts_concat_of_not {d : δ} (h : ¬repeated d) :
    firsts repeated (events ++ [d]) = firsts repeated events ++ [d] := by
  simp [firsts, h]

/-- Whether the register exists does not depend on the events that came again. -/
theorem isSome_settle (h : Repeats w repeated v x events) :
    (settle w x events).isSome = (settle w x (firsts repeated events)).isSome := by
  induction events using List.reverseRecOn with
  | nil => rfl
  | append_singleton events d ih =>
    obtain ⟨hbefore, hlast⟩ := forall_split_concat.mp h
    have hsome := ih hbefore
    by_cases hd : repeated d
    · rw [settle_concat, firsts_concat_of_repeated hd]
      rcases hlast hd with hskip | ⟨hcreate, hthere⟩
      · rw [hskip]
        exact hsome
      · rw [hcreate, hthere]
        rfl
    · rw [firsts_concat_of_not hd, settle_concat, settle_concat]
      cases w d with
      | create u => rfl
      | set u => simpa [Write.apply] using hsome
      | skip => exact hsome

/-- The register holds what it would hold without the events that came again, or
what they have written. -/
theorem settle_firsts_or (h : Repeats w repeated v x events) :
    settle w x events = settle w x (firsts repeated events) ∨ settle w x events = some v := by
  induction events using List.reverseRecOn with
  | nil => exact .inl rfl
  | append_singleton events d ih =>
    obtain ⟨hbefore, hlast⟩ := forall_split_concat.mp h
    by_cases hd : repeated d
    · rw [settle_concat, firsts_concat_of_repeated hd]
      rcases hlast hd with hskip | ⟨hcreate, -⟩
      · rw [hskip]
        exact ih hbefore
      · rw [hcreate]
        exact .inr rfl
    · rw [firsts_concat_of_not hd, settle_concat, settle_concat]
      by_cases hskip : w d = .skip
      · rw [hskip]
        exact ih hbefore
      · exact .inl (Write.apply_congr hskip (isSome_settle hbefore))

/-- Events that come again leave no trace in the register if and only if each of
them is covered. -/
theorem settle_firsts_iff (h : Repeats w repeated v x events) :
    settle w x events = settle w x (firsts repeated events) ↔
      Covered w repeated v x events := by
  induction events using List.reverseRecOn with
  | nil => exact iff_of_true rfl fun before d later hsplit => by simp at hsplit
  | append_singleton events d ih =>
    obtain ⟨hbefore, hlast⟩ := forall_split_concat.mp h
    have hih := ih hbefore
    rw [Covered, forall_split_concat, settle_concat]
    by_cases hd : repeated d
    · have hlater (later : List δ) : (∃ d' ∈ later ++ [d], ¬repeated d' ∧ w d' ≠ .skip) ↔
          ∃ d' ∈ later, ¬repeated d' ∧ w d' ≠ .skip := by simp [hd]
      simp only [hlater, firsts_concat_of_repeated hd]
      rw [← Covered, ← hih]
      rcases hlast hd with hskip | ⟨hcreate, -⟩
      · simp [hskip, Write.apply]
      · have hnow : (repeated d → w d ≠ .skip → settle w x events = some v ∨
            ∃ d' ∈ [], ¬repeated d' ∧ w d' ≠ .skip) ↔ settle w x events = some v := by
          simp [hd, hcreate]
        rw [hnow, hcreate, Write.apply]
        rcases settle_firsts_or hbefore with hsettle | hsettle
        · rw [hsettle]
          exact ⟨fun hv => ⟨rfl, hv.symm⟩, fun hv => hv.2.symm⟩
        · rw [hsettle]
          exact ⟨fun hv => ⟨hv, rfl⟩, fun hv => hv.1⟩
    · rw [firsts_concat_of_not hd, settle_concat]
      by_cases hskip : w d = .skip
      · have hlater (later : List δ) : (∃ d' ∈ later ++ [d], ¬repeated d' ∧ w d' ≠ .skip) ↔
            ∃ d' ∈ later, ¬repeated d' ∧ w d' ≠ .skip := by simp [hskip]
        simp only [hlater, hskip, Write.apply, hd, Bool.false_eq_true, false_imp_iff, and_true]
        exact hih
      · -- an event that comes for the first time and writes covers all before it
        apply iff_of_true (Write.apply_congr hskip (isSome_settle hbefore))
        constructor
        · intro before d' later _ _ _
          exact .inr ⟨d, by simp, hd, hskip⟩
        · intro hrep
          exact absurd hrep hd

end Repeated
end StockMarket.LastWrite
