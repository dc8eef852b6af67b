import StockMarket.Interleaving.Protocol

/-! # Programs whose operations are programs

An operation can be replaced by a program over other operations, as a closure
that a function is given is by its body. It can also be answered at once, from a
state of its own: with a result, with a thrown error, or never.
-/

namespace StockMarket.Interleaving.Prog

universe u v s

variable {Op Op' : Type u} {Reply : Op → Type v} {Reply' : Op' → Type v} {ε α β : Type v}

section Substitution
variable (body : (op : Op) → Prog Op' Reply' ε (Reply op))

def substitute : Prog Op Reply ε α → Prog Op' Reply' ε α
  | .ret a => .ret a
  | .raise e => .raise e
  | .call op next failed => (body op).handle fun
      | .ok r => (next r).substitute
      | .error e => (failed e).substitute

theorem handle_ofExcept (p : Prog Op Reply ε α) : p.handle ofExcept = p := by
  induction p with
  | ret a => rfl
  | raise e => rfl
  | call op next failed ihn ihf =>
    simp only [handle_call, call.injEq, heq_eq_eq, true_and]
    exact ⟨funext ihn, funext ihf⟩

@[simp] theorem substitute_send (op : Op) :
    (send op : Prog Op Reply ε (Reply op)).substitute body = body op := by
  rw [send, substitute]
  calc _ = (body op).handle ofExcept := by
        congr 1
        funext res
        cases res <;> rfl
    _ = body op := handle_ofExcept _

theorem substitute_handle (p : Prog Op Reply ε α) (k : Except ε α → Prog Op Reply ε β) :
    (p.handle k).substitute body =
      (p.substitute body).handle fun res => (k res).substitute body := by
  induction p with
  | ret a => rfl
  | raise e => rfl
  | call op next failed ihn ihf =>
    rw [handle_call, substitute, substitute, handle_handle]
    congr 1
    funext res
    cases res with
    | ok r => exact ihn r
    | error e => exact ihf e

theorem substitute_bind (p : Prog Op Reply ε α) (k : α → Prog Op Reply ε β) :
    (p >>= k).substitute body = p.substitute body >>= fun a => (k a).substitute body := by
  rw [bind_eq, substitute_handle, bind_eq]
  congr 1
  funext res
  cases res <;> rfl

/-- A program sends what the bodies of its operations send. -/
theorem Sends.substitute {Q : Op → Prop} {Q' : Op' → Prop} {p : Prog Op Reply ε α}
    (hp : p.Sends Q) (hbody : ∀ op, Q op → (body op).Sends Q') : (p.substitute body).Sends Q' := by
  induction p with
  | ret a => trivial
  | raise e => trivial
  | call op next failed ihn ihf =>
    obtain ⟨hop, hnext, hfail⟩ := hp
    rw [Prog.substitute]
    apply (hbody op hop).handle
    intro res
    cases res with
    | ok r => exact ihn r (hnext r)
    | error e => exact ihf e (hfail e)

/-- Two substitutions one after the other are one. -/
theorem substitute_substitute {Op'' : Type u} {Reply'' : Op'' → Type v}
    (body' : (op : Op') → Prog Op'' Reply'' ε (Reply' op)) (p : Prog Op Reply ε α) :
    (p.substitute body).substitute body' = p.substitute fun op => (body op).substitute body' := by
  induction p with
  | ret a => rfl
  | raise e => rfl
  | call op next failed ihn ihf =>
    rw [substitute, substitute_handle, substitute]
    congr 1
    funext res
    cases res with
    | ok r => exact ihn r
    | error e => exact ihf e

end Substitution

section Protocols
variable {may : List (Reaction Op Reply) → Op → Prop} {ends : Op → Outcome ε → Prop}
  {post : List (Reaction Op Reply) → Except ε α → Prop}
  {may' : List (Reaction Op' Reply') → Op' → Prop} {ends' : Op' → Outcome ε → Prop}
  {R : List (Reaction Op Reply) → List (Reaction Op' Reply') → Prop}

/-- A body has ended as its operation may, and its history stands for the longer one. -/
def Answers (ends : Op → Outcome ε → Prop)
    (R : List (Reaction Op Reply) → List (Reaction Op' Reply') → Prop)
    (h : List (Reaction Op Reply)) (op : Op) (h' : List (Reaction Op' Reply')) :
    Except ε (Reply op) → Prop
  | .ok r => ends op .done ∧ R (⟨op, r⟩ :: h) h'
  | .error e => (ends op (.failed e) ∧ R h h') ∨ (ends op (.lost e) ∧ ∃ r, R (⟨op, r⟩ :: h) h')

/-- A program obeys, with bodies for its operations, the protocol that the bodies obey. -/
theorem Obeys.substitute {body : (op : Op) → Prog Op' Reply' ε (Reply op)}
    (hbody : ∀ op h h', R h h' → may h op →
      (body op).Obeys may' ends' (Answers ends R h op) h')
    {p : Prog Op Reply ε α} {h : List (Reaction Op Reply)} {h' : List (Reaction Op' Reply')}
    (hp : p.Obeys may ends post h) (hR : R h h') :
    (p.substitute body).Obeys may' ends' (fun h'' res => ∃ g, R g h'' ∧ post g res) h' := by
  induction p generalizing h h' with
  | ret a => exact ⟨h, hR, hp⟩
  | raise e => exact ⟨h, hR, hp⟩
  | call op next failed ihn ihf =>
    obtain ⟨hop, hnext, hfail⟩ := hp
    rw [Prog.substitute]
    apply (hbody op h h' hR hop).handle
    intro h'' res hres
    cases res with
    | ok r => exact ihn r (hnext hres.1 r) hres.2
    | error e =>
      rcases hres with ⟨hend, hR⟩ | ⟨hend, r, hR⟩
      · exact ihf e ((hfail e).1 hend) hR
      · exact ihf e ((hfail e).2 hend r) hR

end Protocols

section Simulation
variable (body : (op : Op) → Prog Op' Reply' ε (Reply op)) {σ τ : Type s}
  (exec : (op : Op) → σ → Reply op × σ) (exec' : (op : Op') → τ → Reply' op × τ)
  (outcome : Op' → Outcome ε) {R : σ → τ → Prop}

/-- Where each body answers what its operation would, and keeps the stores related, the
program and its substitution end alike. -/
theorem run_substitute (hbody : ∀ op x y, R x y →
      ((body op).run exec' outcome y).1 = .ok (exec op x).1 ∧
        R (exec op x).2 ((body op).run exec' outcome y).2)
    (p : Prog Op Reply ε α) {x : σ} {y : τ} (h : R x y) :
    ((p.substitute body).run exec' outcome y).1 = (p.run exec (fun _ => .done) x).1 ∧
      R (p.run exec (fun _ => .done) x).2 ((p.substitute body).run exec' outcome y).2 := by
  induction p generalizing x y with
  | ret a => exact ⟨rfl, h⟩
  | raise e => exact ⟨rfl, h⟩
  | call op next failed ihn ihf =>
    obtain ⟨hreply, hstores⟩ := hbody op x y h
    rw [substitute, run_handle, hreply]
    exact ihn _ hstores

end Simulation

section Answers
variable {σ : Type s} (answer : (op : Op) → σ → Option (Except ε (Reply op)) × σ)

/-- The result of a program whose operations are answered one after another, or
`none` where it waits for an answer that never comes. -/
def perform : Prog Op Reply ε α → σ → Option (Except ε α) × σ
  | .ret a, x => (some (.ok a), x)
  | .raise e, x => (some (.error e), x)
  | .call op next failed, x =>
      match answer op x with
      | (none, y) => (none, y)
      | (some (.ok r), y) => (next r).perform y
      | (some (.error e), y) => (failed e).perform y

@[simp] theorem perform_ret (a : α) (x : σ) :
    (Prog.ret a : Prog Op Reply ε α).perform answer x = (some (.ok a), x) := rfl

theorem perform_handle (p : Prog Op Reply ε α) (k : Except ε α → Prog Op Reply ε β) (x : σ) :
    (p.handle k).perform answer x =
      match p.perform answer x with
      | (none, y) => (none, y)
      | (some res, y) => (k res).perform answer y := by
  induction p generalizing x with
  | ret a => rfl
  | raise e => rfl
  | call op next failed ihn ihf =>
    rw [handle_call, perform, perform]
    rcases answer op x with ⟨_ | e | r, y⟩
    · rfl
    · exact ihf e y
    · exact ihn r y

theorem perform_send (op : Op) (x : σ) :
    (send op : Prog Op Reply ε (Reply op)).perform answer x = answer op x := by
  rw [send, perform]
  rcases h : answer op x with ⟨_ | e | r, y⟩ <;> rfl

theorem perform_send_bind {op : Op} (k : Reply op → Prog Op Reply ε β) {x y : σ} {r : Reply op}
    (h : answer op x = (some (.ok r), y)) :
    (send op >>= k).perform answer x = (k r).perform answer y := by
  rw [bind_eq, perform_handle, perform_send, h]
  rfl

end Answers

end StockMarket.Interleaving.Prog
