import StockMarket.Interleaving.Pool

/-! # The stage a call has reached

A typestate gives every call a stage, moved on by each of its operations. The
stage says which operation may come next, and how it is assumed to end. Unlike
a history it can tell an answered operation from one whose answer was lost.
-/

namespace StockMarket.Interleaving

universe u v s t w

structure Typestate (ι : Type t) (Op : Type u) (Reply : Op → Type v) (ε : Type v) (γ : Type w) where
  may : ι → γ → Op → Prop
  ends : ι → γ → Op → Outcome ε → Prop
  /-- The stage after an operation. The reply is the one the store gives, whether
  or not it is seen. -/
  move : γ → (op : Op) → Reply op → Outcome ε → γ

namespace Config
variable {ι : Type t} {Op : Type u} {Reply : Op → Type v} {σ : Type s} {E : Type t} {ε α : Type v}
  [DecidableEq ι] (B : Backend Op Reply σ E)

/-- The operation a step brings an answer to, with its caller. -/
def answer (c : Config ι Op Reply σ ε α) : Choice ι E ε → List (ι × Op)
  | .step i o =>
      match c.calls i with
      | some (.call op _ _) =>
          match o with
          | .done => [(i, op)]
          | .failed _ => []
          | .lost _ => []
      | _ => []
  | .crash _ => []
  | .env _ => []

/-- The operations that are answered along a schedule, oldest first. -/
def answers (c : Config ι Op Reply σ ε α) : List (Choice ι E ε) → List (ι × Op)
  | [] => []
  | ch :: sched => c.answer ch ++ answers (c.step B ch) sched

end Config

namespace Typestate
variable {ι : Type t} {Op : Type u} {Reply : Op → Type v} {ε α β : Type v} {γ : Type w}
  (T : Typestate ι Op Reply ε γ)

section Programs
variable (i : ι)

/-- From its stage on, the program sends only what it may, and ends in `post`. -/
def Follows (post : γ → Except ε α → Prop) : Prog Op Reply ε α → γ → Prop
  | .ret a, g => post g (.ok a)
  | .raise e, g => post g (.error e)
  | .call op next failed, g =>
      T.may i g op ∧ (T.ends i g op .done → ∀ r, Follows post (next r) (T.move g op r .done)) ∧
        ∀ e r, (T.ends i g op (.failed e) → Follows post (failed e) (T.move g op r (.failed e))) ∧
          (T.ends i g op (.lost e) → Follows post (failed e) (T.move g op r (.lost e)))

variable {T i} {post : γ → Except ε α → Prop} {post' : γ → Except ε β → Prop} {g : γ}

theorem Follows.mono {post₂ : γ → Except ε α → Prop} {p : Prog Op Reply ε α}
    (hp : T.Follows i post p g) (hpost : ∀ g' res, post g' res → post₂ g' res) :
    T.Follows i post₂ p g := by
  induction p generalizing g with
  | ret a => exact hpost _ _ hp
  | raise e => exact hpost _ _ hp
  | call op next failed ihn ihf =>
    obtain ⟨hop, hnext, hfail⟩ := hp
    constructor
    · exact hop
    · constructor
      · intro hd r
        exact ihn r (hnext hd r)
      · intro e r
        exact ⟨fun hf => ihf e ((hfail e r).1 hf), fun hl => ihf e ((hfail e r).2 hl)⟩

theorem Follows.handle {p : Prog Op Reply ε α} {k : Except ε α → Prog Op Reply ε β}
    (hp : T.Follows i post p g) (hk : ∀ g' res, post g' res → T.Follows i post' (k res) g') :
    T.Follows i post' (p.handle k) g := by
  induction p generalizing g with
  | ret a => exact hk _ _ hp
  | raise e => exact hk _ _ hp
  | call op next failed ihn ihf =>
    obtain ⟨hop, hnext, hfail⟩ := hp
    constructor
    · exact hop
    · constructor
      · intro hd r
        exact ihn r (hnext hd r)
      · intro e r
        exact ⟨fun hf => ihf e ((hfail e r).1 hf), fun hl => ihf e ((hfail e r).2 hl)⟩

theorem Follows.bind {p : Prog Op Reply ε α} {k : α → Prog Op Reply ε β}
    (hp : T.Follows i post p g) (hk : ∀ g' a, post g' (.ok a) → T.Follows i post' (k a) g')
    (he : ∀ g' e, post g' (.error e) → post' g' (.error e)) :
    T.Follows i post' (p >>= k) g := by
  apply hp.handle
  intro g' res hres
  cases res with
  | ok a => exact hk g' a hres
  | error e => exact he g' e hres

theorem follows_send {op : Op} {post : γ → Except ε (Reply op) → Prop} (hop : T.may i g op)
    (hdone : T.ends i g op .done → ∀ r, post (T.move g op r .done) (.ok r))
    (hfailed : ∀ e r, T.ends i g op (.failed e) → post (T.move g op r (.failed e)) (.error e))
    (hlost : ∀ e r, T.ends i g op (.lost e) → post (T.move g op r (.lost e)) (.error e)) :
    T.Follows i post (Prog.send op) g :=
  ⟨hop, hdone, fun e r => ⟨hfailed e r, hlost e r⟩⟩

end Programs

section Run
variable {σ : Type s} {E : Type t} [DecidableEq ι] (B : Backend Op Reply σ E)

def step (c : Config ι Op Reply σ ε α) (g : ι → γ) : Choice ι E ε → ι → γ
  | .step i o =>
      match c.calls i with
      | some (.call op _ _) => Function.update g i (T.move (g i) op (B.exec op c.store).1 o)
      | _ => g
  | .crash _ => g
  | .env _ => g

def run (c : Config ι Op Reply σ ε α) (g : ι → γ) : List (Choice ι E ε) → ι → γ
  | [] => g
  | ch :: sched => run (c.step B ch) (T.step B c g ch) sched

/-- What is left of every call follows the typestate. -/
def On (post : ι → γ → Except ε α → Prop) (c : Config ι Op Reply σ ε α) (g : ι → γ) : Prop :=
  ∀ i p, c.calls i = some p → T.Follows i (post i) p (g i)

variable {T B} {post : ι → γ → Except ε α → Prop} {c : Config ι Op Reply σ ε α} {g : ι → γ}

theorem On.update (hc : T.On post c g) {i : ι} {p : Prog Op Reply ε α} {g' : γ}
    (hp : T.Follows i (post i) p g') (x : σ) (l : List (Entry ι Op Reply)) :
    T.On post ⟨x, l, Function.update c.calls i (some p)⟩ (Function.update g i g') := by
  intro j q hq
  change Function.update c.calls i (some p) j = some q at hq
  by_cases hj : j = i
  · subst hj
    rw [Function.update_self] at hq ⊢
    obtain rfl := Option.some.inj hq
    exact hp
  · rw [Function.update_of_ne hj] at hq ⊢
    exact hc j q hq

/-- What is said of each call, its history and its stage, after one more operation. -/
theorem forall_update {R : ι → List (Reaction Op Reply) → γ → Prop}
    {l : List (Entry ι Op Reply)} (h : ∀ j, R j (own j l) (g j)) {i : ι} {x : Reaction Op Reply}
    {g' : γ} (hi : R i (x :: own i l) g') (j : ι) :
    R j (own j (⟨i, x⟩ :: l)) (Function.update g i g' j) := by
  by_cases hj : j = i
  · subst hj
    rwa [own_cons_self, Function.update_self]
  · rw [own_cons_ne (Ne.symm hj), Function.update_of_ne hj]
    exact h j

/-- What is said of each call and its stage, after an operation without effect. -/
theorem forall_update_failed {R : ι → γ → Prop} (h : ∀ j, R j (g j)) {i : ι} {g' : γ}
    (hi : R i g') (j : ι) : R j (Function.update g i g' j) := by
  by_cases hj : j = i
  · subst hj
    rwa [Function.update_self]
  · rw [Function.update_of_ne hj]
    exact h j

/-- The invariant rule. It may speak of the store, the log, the answers and the
stages, and every operation that may be sent keeps it, however it ends. -/
theorem run_invariant {A : Assumption ι Op Reply σ E ε}
    {I : σ → List (Entry ι Op Reply) → List (ι × Op) → (ι → γ) → Prop}
    (hends : ∀ x l a g i op o, I x l a g → A.call x l i op o → T.ends i (g i) op o)
    (hdone : ∀ x l a g i op, I x l a g → T.may i (g i) op → A.call x l i op .done →
      I (B.exec op x).2 (⟨i, op, (B.exec op x).1⟩ :: l) (a ++ [(i, op)])
        (Function.update g i (T.move (g i) op (B.exec op x).1 .done)))
    (hfailed : ∀ x l a g i op e, I x l a g → T.may i (g i) op → A.call x l i op (.failed e) →
      I x l a (Function.update g i (T.move (g i) op (B.exec op x).1 (.failed e))))
    (hlost : ∀ x l a g i op e, I x l a g → T.may i (g i) op → A.call x l i op (.lost e) →
      I (B.exec op x).2 (⟨i, op, (B.exec op x).1⟩ :: l) a
        (Function.update g i (T.move (g i) op (B.exec op x).1 (.lost e))))
    (henv : ∀ x l a g y, I x l a g → A.env y → I (B.env y x) l a g)
    (hc : T.On post c g) {a : List (ι × Op)} (h0 : I c.store c.log a g)
    (sched : List (Choice ι E ε)) (hs : A.Along B c sched) :
    T.On post (c.run B sched) (T.run B c g sched) ∧
      I (c.run B sched).store (c.run B sched).log (a ++ c.answers B sched)
        (T.run B c g sched) := by
  induction sched generalizing c g a with
  | nil =>
    rw [Config.answers, List.append_nil]
    exact ⟨hc, h0⟩
  | cons ch sched ih =>
    obtain ⟨hch, hs⟩ := hs
    rw [Config.answers, ← List.append_assoc]
    suffices hstep : T.On post (c.step B ch) (T.step B c g ch) ∧ I (c.step B ch).store
        (c.step B ch).log (a ++ c.answer ch) (T.step B c g ch) from ih hstep.1 hstep.2 hs
    cases ch with
    | env y =>
      rw [Config.answer, List.append_nil]
      exact ⟨hc, henv _ _ _ _ y h0 hch⟩
    | crash i =>
      rw [Config.answer, List.append_nil]
      constructor
      · intro j q hq
        by_cases hj : j = i
        · subst hj
          simp [Config.step] at hq
        · simp only [Config.step, Function.update_of_ne hj] at hq
          exact hc j q hq
      · exact h0
    | step i o =>
      rcases hi : c.calls i with _ | ⟨b | e | ⟨op, next, failed⟩⟩
      · simpa [Config.step, step, Config.answer, hi] using And.intro hc h0
      · simpa [Config.step, step, Config.answer, hi] using And.intro hc h0
      · simpa [Config.step, step, Config.answer, hi] using And.intro hc h0
      · obtain ⟨hmay, hnext, hfail⟩ := hc i _ hi
        simp only [Assumption.Meets, hi] at hch
        have hend := hends _ _ _ _ i op o h0 hch
        cases o with
        | done =>
          simp only [Config.step, step, Config.answer, hi, Config.advance]
          exact ⟨hc.update (hnext hend _) _ _, hdone _ _ _ _ i op h0 hmay hch⟩
        | failed e =>
          simp only [Config.step, step, Config.answer, hi, List.append_nil]
          exact ⟨hc.update ((hfail e _).1 hend) _ _, hfailed _ _ _ _ i op e h0 hmay hch⟩
        | lost e =>
          simp only [Config.step, step, Config.answer, hi, List.append_nil, Config.advance]
          exact ⟨hc.update ((hfail e _).2 hend) _ _, hlost _ _ _ _ i op e h0 hmay hch⟩

end Run
end Typestate
end StockMarket.Interleaving
