import Mathlib.Logic.Function.Basic

/-! # Client calls as programs over a shared store

A call is cut at the operations it sends to the store: between two of them it
only computes. Every operation carries both continuations, one for its reply
and one for a thrown error, so that a handler and a cleanup are part of the
tree and no failure can be forgotten.
-/

namespace StockMarket.Interleaving

universe u v s t

/-- A call that sends operations `Op`, throws errors `ε` and returns `α`. -/
inductive Prog (Op : Type u) (Reply : Op → Type v) (ε α : Type v) where
  | ret (a : α)
  | raise (e : ε)
  | call (op : Op) (next : Reply op → Prog Op Reply ε α) (failed : ε → Prog Op Reply ε α)

/-- How an operation ends: answered, thrown without effect, or carried out by
the store although its caller sees a thrown error. -/
inductive Outcome (ε : Type v) where
  | done
  | failed (e : ε)
  | lost (e : ε)
  deriving DecidableEq

def Outcome.applies {ε : Type v} : Outcome ε → Bool
  | .done => true
  | .failed _ => false
  | .lost _ => true

namespace Prog
variable {Op : Type u} {Reply : Op → Type v} {ε α β : Type v}

def send (op : Op) : Prog Op Reply ε (Reply op) := .call op .ret .raise

/-- Continue with the result of a call, normal or thrown. Sequencing, handlers
and cleanups are instances of it. -/
def handle : Prog Op Reply ε α → (Except ε α → Prog Op Reply ε β) → Prog Op Reply ε β
  | .ret a, k => k (.ok a)
  | .raise e, k => k (.error e)
  | .call op next failed, k =>
      .call op (fun r => (next r).handle k) (fun e => (failed e).handle k)

/-- What a `then` continuation does with a result: a thrown error goes through. -/
def andThen (k : α → Prog Op Reply ε β) : Except ε α → Prog Op Reply ε β
  | .ok a => k a
  | .error e => .raise e

/-- What a `catch` clause does with a result: a normal result goes through. -/
def orElse (k : ε → Prog Op Reply ε α) : Except ε α → Prog Op Reply ε α
  | .ok a => .ret a
  | .error e => k e

/-- A call that sends nothing and ends with the given result. -/
def ofExcept : Except ε α → Prog Op Reply ε α
  | .ok a => .ret a
  | .error e => .raise e

instance : Monad (Prog Op Reply ε) where
  pure := .ret
  bind p k := p.handle (andThen k)

/-- `try p catch k`. -/
def catching (p : Prog Op Reply ε α) (k : ε → Prog Op Reply ε α) : Prog Op Reply ε α :=
  p.handle (orElse k)

/-- `try p finally cleanup`: an error of the cleanup replaces the result of `p`. -/
def finallyDo (p : Prog Op Reply ε α) (cleanup : Prog Op Reply ε β) : Prog Op Reply ε α :=
  p.handle fun res => cleanup.handle (andThen fun _ => ofExcept res)

@[simp] theorem pure_eq (a : α) : (pure a : Prog Op Reply ε α) = .ret a := rfl

theorem bind_eq (p : Prog Op Reply ε α) (k : α → Prog Op Reply ε β) :
    p >>= k = p.handle (andThen k) := rfl

@[simp] theorem handle_call (op : Op) (next : Reply op → Prog Op Reply ε α)
    (failed : ε → Prog Op Reply ε α) (k : Except ε α → Prog Op Reply ε β) :
    (Prog.call op next failed).handle k =
      .call op (fun r => (next r).handle k) (fun e => (failed e).handle k) := rfl

@[simp] theorem andThen_ok (k : α → Prog Op Reply ε β) (a : α) : andThen k (.ok a) = k a := rfl

@[simp] theorem andThen_error (k : α → Prog Op Reply ε β) (e : ε) :
    andThen k (.error e) = .raise e := rfl

theorem handle_handle {γ : Type v} (p : Prog Op Reply ε α) (k : Except ε α → Prog Op Reply ε β)
    (l : Except ε β → Prog Op Reply ε γ) :
    (p.handle k).handle l = p.handle fun res => (k res).handle l := by
  induction p with
  | ret a => rfl
  | raise e => rfl
  | call op next failed ihn ihf =>
    simp only [handle_call, call.injEq, heq_eq_eq, true_and]
    exact ⟨funext ihn, funext ihf⟩

@[simp] theorem raise_bind (e : ε) (k : α → Prog Op Reply ε β) :
    (Prog.raise e : Prog Op Reply ε α) >>= k = .raise e := rfl

@[simp] theorem ret_bind (a : α) (k : α → Prog Op Reply ε β) :
    (Prog.ret a : Prog Op Reply ε α) >>= k = k a := rfl

theorem bind_bind {γ : Type v} (p : Prog Op Reply ε α) (k : α → Prog Op Reply ε β)
    (l : β → Prog Op Reply ε γ) : (p >>= k) >>= l = p >>= fun a => k a >>= l := by
  simp only [bind_eq, handle_handle]
  congr 1
  funext res
  cases res <;> rfl

/-- Every operation the program may send, whatever happens, is in `Q`. -/
def Sends (Q : Op → Prop) : Prog Op Reply ε α → Prop
  | .ret _ => True
  | .raise _ => True
  | .call op next failed => Q op ∧ (∀ r, Sends Q (next r)) ∧ ∀ e, Sends Q (failed e)

theorem Sends.mono {Q Q' : Op → Prop} (hQ : ∀ op, Q op → Q' op) {p : Prog Op Reply ε α}
    (hp : p.Sends Q) : p.Sends Q' := by
  induction p with
  | ret a => trivial
  | raise e => trivial
  | call op next failed ihn ihf =>
    exact ⟨hQ op hp.1, fun r => ihn r (hp.2.1 r), fun e => ihf e (hp.2.2 e)⟩

theorem sends_true (p : Prog Op Reply ε α) : p.Sends fun _ => True := by
  induction p with
  | ret a => trivial
  | raise e => trivial
  | call op next failed ihn ihf => exact ⟨trivial, ihn, ihf⟩

theorem Sends.handle {Q : Op → Prop} {p : Prog Op Reply ε α}
    {k : Except ε α → Prog Op Reply ε β} (hp : p.Sends Q) (hk : ∀ res, (k res).Sends Q) :
    (p.handle k).Sends Q := by
  induction p with
  | ret a => exact hk _
  | raise e => exact hk _
  | call op next failed ihn ihf =>
    exact ⟨hp.1, fun r => ihn r (hp.2.1 r), fun e => ihf e (hp.2.2 e)⟩

theorem Sends.bind {Q : Op → Prop} {p : Prog Op Reply ε α} {k : α → Prog Op Reply ε β}
    (hp : p.Sends Q) (hk : ∀ a, (k a).Sends Q) : (p >>= k).Sends Q :=
  hp.handle fun res => by
    cases res with
    | ok a => exact hk a
    | error e => trivial

theorem sends_send {Q : Op → Prop} {op : Op} (hop : Q op) :
    (Prog.send op : Prog Op Reply ε (Reply op)).Sends Q :=
  ⟨hop, fun _ => trivial, fun _ => trivial⟩

theorem Sends.send {Q : Op → Prop} {op : Op} {k : Reply op → Prog Op Reply ε β} (hop : Q op)
    (hk : ∀ r, (k r).Sends Q) : (Prog.send op >>= k).Sends Q :=
  (sends_send hop).bind hk

theorem Sends.catching {Q : Op → Prop} {p : Prog Op Reply ε α} {k : ε → Prog Op Reply ε α}
    (hp : p.Sends Q) (hk : ∀ e, (k e).Sends Q) : (p.catching k).Sends Q := by
  apply hp.handle
  intro res
  cases res with
  | ok a => trivial
  | error e => exact hk e

section Sequential
variable {σ : Type s} (exec : (op : Op) → σ → Reply op × σ) (outcome : Op → Outcome ε)

/-- One call run alone. `outcome` decides how each of its operations ends. -/
def run : Prog Op Reply ε α → σ → Except ε α × σ
  | .ret a, x => (.ok a, x)
  | .raise e, x => (.error e, x)
  | .call op next failed, x =>
      match outcome op with
      | .done => (next (exec op x).1).run (exec op x).2
      | .failed e => (failed e).run x
      | .lost e => (failed e).run (exec op x).2

@[simp] theorem run_ret (a : α) (x : σ) :
    (Prog.ret a : Prog Op Reply ε α).run exec outcome x = (.ok a, x) := rfl

@[simp] theorem run_raise (e : ε) (x : σ) :
    (Prog.raise e : Prog Op Reply ε α).run exec outcome x = (.error e, x) := rfl

/-- Running through a continuation is running the call, then the continuation
from the store the call has left. -/
theorem run_handle (p : Prog Op Reply ε α) (k : Except ε α → Prog Op Reply ε β) (x : σ) :
    (p.handle k).run exec outcome x =
      (k (p.run exec outcome x).1).run exec outcome (p.run exec outcome x).2 := by
  induction p generalizing x with
  | ret a => rfl
  | raise e => rfl
  | call op next failed ihn ihf =>
    simp only [handle_call, run]
    cases outcome op with
    | done => exact ihn _ _
    | failed e => exact ihf _ _
    | lost e => exact ihf _ _

theorem run_bind (p : Prog Op Reply ε α) (k : α → Prog Op Reply ε β) (x : σ) :
    (p >>= k).run exec outcome x =
      (andThen k (p.run exec outcome x).1).run exec outcome (p.run exec outcome x).2 :=
  run_handle exec outcome p _ x

theorem run_catching_bind (p : Prog Op Reply ε α) (h : ε → Prog Op Reply ε α)
    (k : α → Prog Op Reply ε β) (x : σ) :
    (catching p h >>= k).run exec outcome x =
      match p.run exec outcome x with
      | (.ok a, y) => (k a).run exec outcome y
      | (.error e, y) => (h e >>= k).run exec outcome y := by
  rw [run_bind, catching, run_handle]
  rcases p.run exec outcome x with ⟨e | a, y⟩
  · exact (run_bind exec outcome (h e) k y).symm
  · rfl

theorem run_send (op : Op) (x : σ) :
    (send op : Prog Op Reply ε (Reply op)).run exec outcome x =
      match outcome op with
      | .done => (.ok (exec op x).1, (exec op x).2)
      | .failed e => (.error e, x)
      | .lost e => (.error e, (exec op x).2) := by
  simp only [send, run]

theorem run_send_bind_done {op : Op} (k : Reply op → Prog Op Reply ε β) (x : σ)
    (h : outcome op = .done) : (send op >>= k).run exec outcome x =
      (k (exec op x).1).run exec outcome (exec op x).2 := by
  rw [run_bind, run_send, h]
  rfl

/-- An operation that throws ends the program around it, carried out or not. -/
theorem run_send_bind_thrown {op : Op} (k : Reply op → Prog Op Reply ε β) (x : σ)
    (h : outcome op ≠ .done) : ∃ e y, (send op >>= k).run exec outcome x = (.error e, y) ∧
      y = if (outcome op).applies then (exec op x).2 else x := by
  rw [run_bind, run_send]
  cases ho : outcome op with
  | done => exact absurd ho h
  | failed e => exact ⟨e, x, rfl, rfl⟩
  | lost e => exact ⟨e, _, rfl, rfl⟩

/-- An operation that only reads leaves the store as it was. -/
theorem run_read_bind_thrown {op : Op} (k : Reply op → Prog Op Reply ε β) {x : σ}
    (hread : (exec op x).2 = x) (h : outcome op ≠ .done) :
    ∃ e, (send op >>= k).run exec outcome x = (.error e, x) := by
  obtain ⟨e, y, hrun, hy⟩ := run_send_bind_thrown exec outcome k x h
  rw [hread, ite_self] at hy
  exact ⟨e, hy ▸ hrun⟩

/-- What every operation a program may send keeps, every run of it keeps. -/
theorem Sends.run_invariant {Q : Op → Prop} {I : σ → Prop}
    (hQ : ∀ op x, Q op → I x → I (exec op x).2) {p : Prog Op Reply ε α} (hp : p.Sends Q) (x : σ)
    (h0 : I x) : I (p.run exec outcome x).2 := by
  induction p generalizing x with
  | ret a => exact h0
  | raise e => exact h0
  | call op next failed ihn ihf =>
    obtain ⟨hop, hnext, hfail⟩ := hp
    simp only [run]
    cases outcome op with
    | done => exact ihn _ (hnext _) _ (hQ op x hop h0)
    | failed e => exact ihf e (hfail e) x h0
    | lost e => exact ihf e (hfail e) _ (hQ op x hop h0)

/-- Operations that leave a part of the store alone leave it alone in every run. -/
theorem Sends.run_eq {τ : Type t} {Q : Op → Prop} {part : σ → τ}
    (hQ : ∀ op x, Q op → part (exec op x).2 = part x) {p : Prog Op Reply ε α} (hp : p.Sends Q)
    (x : σ) : part (p.run exec outcome x).2 = part x :=
  hp.run_invariant exec outcome (I := fun y => part y = part x)
    (fun op y hop hy => (hQ op y hop).trans hy) x rfl

end Sequential
end Prog
end StockMarket.Interleaving
