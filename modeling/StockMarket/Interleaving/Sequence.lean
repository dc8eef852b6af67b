import StockMarket.Interleaving.Pool

/-! # Calls one after another

A sequential run serves each request to its end before the next one begins.
Between two requests the environment may move. Requests are numbered by their
place in the run, and the number is at hand when a request is served.
-/

namespace StockMarket.Interleaving

universe u v s t w

inductive Event (R : Type w) (E : Type t) where
  | call (request : R)
  | env (x : E)

section Sequence
variable {Op : Type u} {Reply : Op → Type v} {σ : Type s} {E : Type t} {R : Type w} {ε α : Type v}
  (B : Backend Op Reply σ E) (serve : ℕ → R → Prog Op Reply ε α)

/-- The result of the `n`-th event, if it is a call, and the store after it.
Every operation of the call is answered. -/
def Event.occur (n : ℕ) (x : σ) : Event R E → Option (Except ε α) × σ
  | .call r =>
      let out := (serve n r).run B.exec (fun _ => .done) x
      (some out.1, out.2)
  | .env y => (none, B.env y x)

/-- The store after the events, the first of which is the `n`-th of the run. -/
def after (n : ℕ) (x : σ) : List (Event R E) → σ
  | [] => x
  | e :: events => after (n + 1) (e.occur B serve n x).2 events

@[simp] theorem after_nil (n : ℕ) (x : σ) : after B serve n x ([] : List (Event R E)) = x := rfl

theorem after_append (n : ℕ) (x : σ) (first second : List (Event R E)) :
    after B serve n x (first ++ second) =
      after B serve (n + first.length) (after B serve n x first) second := by
  induction first generalizing n x with
  | nil => rfl
  | cons e first ih =>
    simp only [List.cons_append, after, List.length_cons, ih]
    rw [Nat.add_right_comm, Nat.add_assoc]

theorem after_concat (x : σ) (events : List (Event R E)) (e : Event R E) :
    after B serve 0 x (events ++ [e]) =
      (e.occur B serve events.length (after B serve 0 x events)).2 := by
  rw [after_append, Nat.zero_add]
  rfl

/-- What is asked of every element and the part of a list before it. -/
theorem forall_split_concat {γ : Type w} {P : List γ → γ → Prop} {l : List γ} {a : γ} :
    (∀ part e rest, l ++ [a] = part ++ e :: rest → P part e) ↔
      (∀ part e rest, l = part ++ e :: rest → P part e) ∧ P l a := by
  constructor
  · exact fun h => ⟨fun part e rest hl => h part e (rest ++ [a]) (by simp [hl]), h l a [] rfl⟩
  · rintro ⟨h, ha⟩ part e rest hl
    rcases rest.eq_nil_or_concat with rfl | ⟨rest, b, rfl⟩
    · obtain ⟨rfl, he⟩ := List.append_inj' hl rfl
      cases he
      exact ha
    · have hconcat : l ++ [a] = (part ++ e :: rest) ++ [b] := by simpa using hl
      exact h part e rest (List.append_inj' hconcat rfl).1

theorem after_invariant {I : ℕ → σ → Prop} {events : List (Event R E)} {n : ℕ} {x : σ}
    (hstep : ∀ n x, ∀ e ∈ events, I n x → I (n + 1) (e.occur B serve n x).2) (h0 : I n x) :
    I (n + events.length) (after B serve n x events) := by
  induction events generalizing n x with
  | nil => exact h0
  | cons e events ih =>
    rw [List.length_cons, ← Nat.add_assoc, Nat.add_right_comm]
    exact ih (fun n x e' he' => hstep n x e' (List.mem_cons_of_mem e he'))
      (hstep n x e List.mem_cons_self h0)

/-- The request of an event with the result its caller sees. -/
def Event.exchange (n : ℕ) (x : σ) : Event R E → Option (R × Except ε α)
  | .call r => some (r, ((serve n r).run B.exec (fun _ => .done) x).1)
  | .env _ => none

/-- What the callers see of a run, in order. -/
def exchanges (n : ℕ) (x : σ) : List (Event R E) → List (R × Except ε α)
  | [] => []
  | e :: events =>
      (e.exchange B serve n x).toList ++ exchanges (n + 1) (e.occur B serve n x).2 events

theorem exchanges_append (n : ℕ) (x : σ) (first second : List (Event R E)) :
    exchanges B serve n x (first ++ second) = exchanges B serve n x first ++
      exchanges B serve (n + first.length) (after B serve n x first) second := by
  induction first generalizing n x with
  | nil => rfl
  | cons e first ih =>
    simp only [List.cons_append, exchanges, after, List.length_cons, ih, List.append_assoc]
    rw [Nat.add_right_comm, Nat.add_assoc]

theorem exchanges_concat (x : σ) (events : List (Event R E)) (e : Event R E) :
    exchanges B serve 0 x (events ++ [e]) = exchanges B serve 0 x events ++
      (e.exchange B serve events.length (after B serve 0 x events)).toList := by
  rw [exchanges_append, Nat.zero_add, exchanges, exchanges, List.append_nil]

/-- What every call keeps of the store and of what the callers have seen, and every move
of the environment of the store, every sequential run keeps. -/
theorem exchanges_invariant {I : σ → List (R × Except ε α) → Prop} {x : σ} (h0 : I x [])
    (hcall : ∀ n y l r, I y l →
      I ((serve n r).run B.exec (fun _ => .done) y).2
        (l ++ [(r, ((serve n r).run B.exec (fun _ => .done) y).1)]))
    (henv : ∀ y l z, I y l → I (B.env z y) l) (events : List (Event R E)) :
    I (after B serve 0 x events) (exchanges B serve 0 x events) := by
  induction events using List.reverseRecOn with
  | nil => exact h0
  | append_singleton events e ih =>
    rw [after_concat, exchanges_concat]
    cases e with
    | call r => exact hcall _ _ _ r ih
    | env z =>
      rw [Event.exchange, Option.toList_none, List.append_nil]
      exact henv _ _ z ih

end Sequence
end StockMarket.Interleaving
