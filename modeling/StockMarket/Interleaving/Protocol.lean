import StockMarket.Interleaving.Pool

/-! # Protocols of calls and invariants of pools

A protocol says, from the operations a call has had carried out so far, which
operation it may send next and what it may return. It speaks of one program
only, so a program is checked against it without any thought of the others.
An invariant of the store and the log is then shown for one operation at a
time, with the protocol of the sender at hand.
-/

namespace StockMarket.Interleaving

universe u v s t

/-- What each call may send, how its operations may end, and what its result
says about the operations it has had carried out. -/
structure Protocol (ι : Type t) (Op : Type u) (Reply : Op → Type v) (ε α : Type v) where
  may : ι → List (Reaction Op Reply) → Op → Prop
  ends : ι → Op → Outcome ε → Prop
  post : ι → List (Reaction Op Reply) → Except ε α → Prop

namespace Prog
variable {Op : Type u} {Reply : Op → Type v} {ε α β : Type v}
  {may : List (Reaction Op Reply) → Op → Prop} {ends : Op → Outcome ε → Prop}

/-- After the operations `h` of its own, the program only sends what `may`
allows, whatever the replies and the allowed ends are, and finishes in `post`. -/
def Obeys (may : List (Reaction Op Reply) → Op → Prop) (ends : Op → Outcome ε → Prop)
    (post : List (Reaction Op Reply) → Except ε α → Prop) :
    List (Reaction Op Reply) → Prog Op Reply ε α → Prop
  | h, .ret a => post h (.ok a)
  | h, .raise e => post h (.error e)
  | h, .call op next failed =>
      may h op ∧ (ends op .done → ∀ r, Obeys may ends post (⟨op, r⟩ :: h) (next r)) ∧
        ∀ e, (ends op (.failed e) → Obeys may ends post h (failed e)) ∧
          (ends op (.lost e) → ∀ r, Obeys may ends post (⟨op, r⟩ :: h) (failed e))

variable {post : List (Reaction Op Reply) → Except ε α → Prop}
  {post' : List (Reaction Op Reply) → Except ε β → Prop} {h : List (Reaction Op Reply)}

@[simp] theorem obeys_ret (a : α) :
    Obeys may ends post h (.ret a) ↔ post h (.ok a) := Iff.rfl

theorem obeys_ofExcept (res : Except ε α) :
    Obeys may ends post h (ofExcept res) ↔ post h res := by
  cases res <;> rfl

/-- One operation, whatever is done with a reply and with an error. -/
theorem Obeys.call (op : Op) {next : Reply op → Prog Op Reply ε α} {failed : ε → Prog Op Reply ε α}
    (hop : may h op) (hdone : ends op .done → ∀ r, Obeys may ends post (⟨op, r⟩ :: h) (next r))
    (hfailed : ∀ e, ends op (.failed e) → Obeys may ends post h (failed e))
    (hlost : ∀ e, ends op (.lost e) → ∀ r, Obeys may ends post (⟨op, r⟩ :: h) (failed e)) :
    Obeys may ends post h (.call op next failed) :=
  ⟨hop, hdone, fun e => ⟨hfailed e, hlost e⟩⟩

theorem obeys_send_bind {op : Op} {k : Reply op → Prog Op Reply ε α} :
    Obeys may ends post h (send op >>= k) ↔
      may h op ∧ (ends op .done → ∀ r, Obeys may ends post (⟨op, r⟩ :: h) (k r)) ∧
        ∀ e, (ends op (.failed e) → post h (.error e)) ∧
          (ends op (.lost e) → ∀ r, post (⟨op, r⟩ :: h) (.error e)) := Iff.rfl

theorem Obeys.step {op : Op} {k : Reply op → Prog Op Reply ε α} (hop : may h op)
    (hdone : ends op .done → ∀ r, Obeys may ends post (⟨op, r⟩ :: h) (k r))
    (hfailed : ∀ e, ends op (.failed e) → post h (.error e))
    (hlost : ∀ e, ends op (.lost e) → ∀ r, post (⟨op, r⟩ :: h) (.error e)) :
    Obeys may ends post h (Prog.send op >>= k) :=
  Obeys.call op hop hdone hfailed hlost

/-- What holds of a call's normal result, and nothing about a thrown error. -/
def Returns (Q : List (Reaction Op Reply) → α → Prop) (h : List (Reaction Op Reply)) :
    Except ε α → Prop
  | .ok a => Q h a
  | .error _ => True

@[simp] theorem returns_ok (Q : List (Reaction Op Reply) → α → Prop) (a : α) :
    Returns Q h (.ok a : Except ε α) ↔ Q h a := Iff.rfl

/-- Where only the normal result matters, only the normal continuation does. -/
theorem Obeys.send {op : Op} {k : Reply op → Prog Op Reply ε α}
    {Q : List (Reaction Op Reply) → α → Prop} (hop : may h op)
    (hk : ∀ r, Obeys may ends (Returns Q) (⟨op, r⟩ :: h) (k r)) :
    Obeys may ends (Returns Q) h (Prog.send op >>= k) :=
  Obeys.step hop (fun _ => hk) (fun _ _ => trivial) fun _ _ _ => trivial

theorem Obeys.once (op : Op) {post : List (Reaction Op Reply) → Except ε (Reply op) → Prop}
    (hop : may h op) (hdone : ends op .done → ∀ r, post (⟨op, r⟩ :: h) (.ok r))
    (hfailed : ∀ e, ends op (.failed e) → post h (.error e))
    (hlost : ∀ e, ends op (.lost e) → ∀ r, post (⟨op, r⟩ :: h) (.error e)) :
    Obeys may ends post h (Prog.send op) :=
  Obeys.call op hop hdone hfailed hlost

theorem Obeys.last (op : Op) {Q : List (Reaction Op Reply) → Reply op → Prop} (hop : may h op)
    (hdone : ∀ r, Q (⟨op, r⟩ :: h) r) : Obeys may ends (Returns Q) h (Prog.send op) :=
  Obeys.once op hop (fun _ => hdone) (fun _ _ => trivial) fun _ _ _ => trivial

theorem Obeys.caught (op : Op) {k : ε → Prog Op Reply ε (Reply op)}
    {post : List (Reaction Op Reply) → Except ε (Reply op) → Prop} (hop : may h op)
    (hdone : ∀ r, post (⟨op, r⟩ :: h) (.ok r)) (hfailed : ∀ e, Obeys may ends post h (k e))
    (hlost : ∀ e r, Obeys may ends post (⟨op, r⟩ :: h) (k e)) :
    Obeys may ends post h (catching (Prog.send op) k) :=
  Obeys.call op hop (fun _ => hdone) (fun e _ => hfailed e) fun e _ => hlost e

theorem Obeys.mono {post₂ : List (Reaction Op Reply) → Except ε α → Prop} {p : Prog Op Reply ε α}
    (hp : Obeys may ends post h p) (hpost : ∀ h' res, post h' res → post₂ h' res) :
    Obeys may ends post₂ h p := by
  induction p generalizing h with
  | ret a => exact hpost _ _ hp
  | raise e => exact hpost _ _ hp
  | call op next failed ihn ihf =>
    obtain ⟨hop, hnext, hfail⟩ := hp
    exact ⟨hop, fun hd r => ihn r (hnext hd r), fun e =>
      ⟨fun hf => ihf e ((hfail e).1 hf), fun hl r => ihf e ((hfail e).2 hl r)⟩⟩

/-- A program followed by a continuation obeys the protocol when the program
does and the continuation does from everything the program may end in. -/
theorem Obeys.handle {p : Prog Op Reply ε α} {k : Except ε α → Prog Op Reply ε β}
    (hp : Obeys may ends post h p)
    (hk : ∀ h' res, post h' res → Obeys may ends post' h' (k res)) :
    Obeys may ends post' h (p.handle k) := by
  induction p generalizing h with
  | ret a => exact hk _ _ hp
  | raise e => exact hk _ _ hp
  | call op next failed ihn ihf =>
    obtain ⟨hop, hnext, hfail⟩ := hp
    exact ⟨hop, fun hd r => ihn r (hnext hd r), fun e =>
      ⟨fun hf => ihf e ((hfail e).1 hf), fun hl r => ihf e ((hfail e).2 hl r)⟩⟩

theorem Obeys.bind {p : Prog Op Reply ε α} {k : α → Prog Op Reply ε β}
    (hp : Obeys may ends post h p)
    (hk : ∀ h' a, post h' (.ok a) → Obeys may ends post' h' (k a))
    (he : ∀ h' e, post h' (.error e) → post' h' (.error e)) :
    Obeys may ends post' h (p >>= k) :=
  hp.handle fun h' res hres => by
    cases res with
    | ok a => exact hk h' a hres
    | error e => exact he h' e hres

/-- A program that sends only what may always be sent adds nothing else to its history. -/
theorem Obeys.extends {Q : Op → Prop} {p : Prog Op Reply ε α} (hp : p.Sends Q)
    (hmay : ∀ h op, Q op → may h op) :
    Obeys may ends (fun h' _ => ∃ new, h' = new ++ h ∧ ∀ x ∈ new, Q x.op) h p := by
  induction p generalizing h with
  | ret a => exact ⟨[], rfl, by simp⟩
  | raise e => exact ⟨[], rfl, by simp⟩
  | call op next failed ihn ihf =>
    obtain ⟨hop, hnext, hfail⟩ := hp
    have hgrow {r : Reply op} {h' : List (Reaction Op Reply)}
        (hnew : ∃ new, h' = new ++ ⟨op, r⟩ :: h ∧ ∀ x ∈ new, Q x.op) :
        ∃ new, h' = new ++ h ∧ ∀ x ∈ new, Q x.op := by
      obtain ⟨new, rfl, hnew⟩ := hnew
      refine ⟨new ++ [⟨op, r⟩], by simp, ?_⟩
      intro x hx
      rcases List.mem_append.mp hx with hx | hx
      · exact hnew x hx
      · rw [List.mem_singleton.mp hx]
        exact hop
    exact ⟨hmay h op hop, fun _ r => (ihn r (hnext r)).mono fun _ _ => hgrow, fun e =>
      ⟨fun _ => ihf e (hfail e), fun _ _ => (ihf e (hfail e)).mono fun _ _ => hgrow⟩⟩

/-- Such a program obeys a protocol that asks for nothing in the end. -/
theorem Obeys.of_sends {Q : Op → Prop} {p : Prog Op Reply ε α} (hp : p.Sends Q)
    (hmay : ∀ h op, Q op → may h op) : Obeys may ends (fun _ _ => True) h p :=
  (Obeys.extends hp hmay).mono fun _ _ _ => trivial

/-- A program that sends only what may be sent from here on. -/
theorem Obeys.of_sends_from {Q : Op → Prop} {p : Prog Op Reply ε α} (hp : p.Sends Q)
    (hmay : ∀ h' op, h <:+ h' → Q op → may h' op) :
    Obeys may ends (fun h' _ => h <:+ h') h p := by
  induction p generalizing h with
  | ret a => exact List.suffix_refl h
  | raise e => exact List.suffix_refl h
  | call op next failed ihn ihf =>
    obtain ⟨hop, hnext, hfail⟩ := hp
    have hsuffix (r : Reply op) : h <:+ ⟨op, r⟩ :: h := List.suffix_cons ..
    have hlater (r : Reply op) (h' : List (Reaction Op Reply)) (op' : Op)
        (hh : ⟨op, r⟩ :: h <:+ h') (hQ : Q op') : may h' op' :=
      hmay h' op' ((hsuffix r).trans hh) hQ
    have hop := hmay h op (List.suffix_refl h) hop
    refine ⟨hop, fun _ r => ?_, fun e => ⟨fun _ => ?_, fun _ r => ?_⟩⟩
    · exact (ihn r (hnext r) (hlater r)).mono fun _ _ => (hsuffix r).trans
    · exact ihf e (hfail e) hmay
    · exact (ihf e (hfail e) (hlater r)).mono fun _ _ => (hsuffix r).trans

theorem Obeys.bindReturns {p : Prog Op Reply ε α} {k : α → Prog Op Reply ε β}
    {Q : List (Reaction Op Reply) → α → Prop} {Q' : List (Reaction Op Reply) → β → Prop}
    (hp : Obeys may ends (Returns Q) h p)
    (hk : ∀ h' a, Q h' a → Obeys may ends (Returns Q') h' (k a)) :
    Obeys may ends (Returns Q') h (p >>= k) :=
  hp.bind hk fun _ _ _ => trivial

theorem Obeys.map {p : Prog Op Reply ε α} {f : α → β} {Q : List (Reaction Op Reply) → α → Prop}
    {Q' : List (Reaction Op Reply) → β → Prop} (hp : Obeys may ends (Returns Q) h p)
    (hf : ∀ h' a, Q h' a → Q' h' (f a)) : Obeys may ends (Returns Q') h (f <$> p) :=
  hp.bindReturns hf

theorem Obeys.finallyDo {p : Prog Op Reply ε α} {cleanup : Prog Op Reply ε β}
    {post'' : List (Reaction Op Reply) → Except ε α → Prop}
    (hp : Obeys may ends post h p)
    (hc : ∀ h' res, post h' res → Obeys may ends
      (fun h'' done => post'' h'' (done.bind fun _ => res)) h' cleanup) :
    Obeys may ends post'' h (p.finallyDo cleanup) :=
  hp.handle fun h' res hres => (hc h' res hres).handle fun h'' done hdone => by
    cases done with
    | ok _ => exact (obeys_ofExcept res).mpr hdone
    | error e => exact hdone

end Prog

section Invariant
variable {ι : Type t} {Op : Type u} {Reply : Op → Type v} {σ : Type s} {E : Type t} {ε α : Type v}
  [DecidableEq ι] {B : Backend Op Reply σ E} {A : Assumption ι Op Reply σ E ε}
  {P : Protocol ι Op Reply ε α}

/-- What is left of every call obeys its protocol. -/
def Config.Conforms (P : Protocol ι Op Reply ε α) (c : Config ι Op Reply σ ε α) : Prop :=
  ∀ i p, c.calls i = some p → p.Obeys (P.may i) (P.ends i) (P.post i) (own i c.log)

/-- Operations end only in ways the protocol reckons with. -/
def Assumption.Fits (A : Assumption ι Op Reply σ E ε) (P : Protocol ι Op Reply ε α) : Prop :=
  ∀ x l i op o, A.call x l i op o → P.ends i op o

theorem Config.conforms_start {x : σ} {calls : ι → Prog Op Reply ε α}
    (h : ∀ i, (calls i).Obeys (P.may i) (P.ends i) (P.post i) []) :
    (Config.start x calls).Conforms P := by
  intro i p hp
  cases hp
  exact h i

private theorem Config.conforms_update {c : Config ι Op Reply σ ε α} (hc : c.Conforms P) (i : ι)
    (p : Prog Op Reply ε α) (hp : p.Obeys (P.may i) (P.ends i) (P.post i) (own i c.log)) :
    Config.Conforms P { c with calls := Function.update c.calls i (some p) } := by
  intro j q hq
  by_cases hj : j = i
  · subst j
    simp only [Function.update_self, Option.some.injEq] at hq
    exact hq ▸ hp
  · simp only [Function.update_of_ne hj] at hq
    exact hc j q hq

private theorem Config.conforms_advance {c : Config ι Op Reply σ ε α} (hc : c.Conforms P) (i : ι)
    (op : Op) (p : Prog Op Reply ε α)
    (hp : p.Obeys (P.may i) (P.ends i) (P.post i) (⟨op, (B.exec op c.store).1⟩ :: own i c.log)) :
    (c.advance B i op p).Conforms P := by
  intro j q hq
  by_cases hj : j = i
  · subst j
    simp only [advance, Function.update_self, Option.some.injEq] at hq
    simpa [advance, ← hq] using hp
  · simp only [advance, Function.update_of_ne hj] at hq
    simpa [advance, own_cons_ne (Ne.symm hj)] using hc j q hq

/-- A step either leaves store and log alone, or is a move of the environment,
or carries out one operation its sender was allowed to send. -/
theorem Config.step_cases {c : Config ι Op Reply σ ε α} (hc : c.Conforms P) (hA : A.Fits P)
    (ch : Choice ι E ε) (hch : A.Meets c ch) :
    (c.step B ch).Conforms P ∧
      (((c.step B ch).store = c.store ∧ (c.step B ch).log = c.log) ∨
       (∃ x, A.env x ∧ (c.step B ch).store = B.env x c.store ∧ (c.step B ch).log = c.log) ∨
       ∃ i op o, P.may i (own i c.log) op ∧ A.call c.store c.log i op o ∧ o.applies ∧
         (c.step B ch).store = (B.exec op c.store).2 ∧
         (c.step B ch).log = ⟨i, op, (B.exec op c.store).1⟩ :: c.log) := by
  cases ch with
  | env x => exact ⟨hc, .inr (.inl ⟨x, hch, rfl, rfl⟩)⟩
  | crash i =>
    refine ⟨?_, .inl ⟨rfl, rfl⟩⟩
    intro j q hq
    by_cases hj : j = i
    · subst j
      simp [step] at hq
    · simp only [step, Function.update_of_ne hj] at hq
      exact hc j q hq
  | step i o =>
    have hidle (hn : c.step B (.step i o) = c) : (c.step B (.step i o)).Conforms P ∧
        (c.step B (.step i o)).store = c.store ∧ (c.step B (.step i o)).log = c.log := by
      rw [hn]
      exact ⟨hc, rfl, rfl⟩
    rcases hi : c.calls i with _ | ⟨a | e | ⟨op, next, failed⟩⟩
    · exact (hidle (by simp [step, hi])).imp_right .inl
    · exact (hidle (by simp [step, hi])).imp_right .inl
    · exact (hidle (by simp [step, hi])).imp_right .inl
    · obtain ⟨hop, hnext, hfail⟩ := hc i _ hi
      simp only [Assumption.Meets, hi] at hch
      have hend : P.ends i op o := hA _ _ _ _ _ hch
      cases o with
      | done =>
        have hs : c.step B (.step i .done) = c.advance B i op (next (B.exec op c.store).1) := by
          simp only [step, hi]
        rw [hs]
        exact ⟨conforms_advance hc i op _ (hnext hend _),
          .inr (.inr ⟨i, op, .done, hop, hch, rfl, rfl, rfl⟩)⟩
      | failed e =>
        have hs : c.step B (.step i (.failed e)) =
            { c with calls := Function.update c.calls i (some (failed e)) } := by
          simp only [step, hi]
        rw [hs]
        exact ⟨conforms_update hc i _ ((hfail e).1 hend), .inl ⟨rfl, rfl⟩⟩
      | lost e =>
        have hs : c.step B (.step i (.lost e)) = c.advance B i op (failed e) := by
          simp only [step, hi]
        rw [hs]
        exact ⟨conforms_advance hc i op _ ((hfail e).2 hend _),
          .inr (.inr ⟨i, op, .lost e, hop, hch, rfl, rfl, rfl⟩)⟩

/-- The invariant rule. What every carried-out operation that was allowed, and
every move of the environment, keep, every schedule keeps. -/
theorem Config.run_applied {I : σ → List (Entry ι Op Reply) → Prop} (hA : A.Fits P)
    (hcall : ∀ x l i op o, I x l → P.may i (own i l) op → A.call x l i op o → o.applies →
      I (B.exec op x).2 (⟨i, op, (B.exec op x).1⟩ :: l))
    (henv : ∀ x l y, I x l → A.env y → I (B.env y x) l)
    {c : Config ι Op Reply σ ε α} (hc : c.Conforms P) (h0 : I c.store c.log)
    (sched : List (Choice ι E ε)) (hs : A.Along B c sched) :
    (c.run B sched).Conforms P ∧ I (c.run B sched).store (c.run B sched).log := by
  induction sched generalizing c with
  | nil => exact ⟨hc, h0⟩
  | cons ch sched ih =>
    obtain ⟨hch, hs⟩ := hs
    obtain ⟨hc', hstep⟩ := Config.step_cases (B := B) hc hA ch hch
    refine ih hc' ?_ hs
    rcases hstep with ⟨hx, hl⟩ | ⟨y, hy, hx, hl⟩ | ⟨i, op, o, hmay, hcond, ho, hx, hl⟩ <;>
      rw [hx, hl]
    · exact h0
    · exact henv _ _ y h0 hy
    · exact hcall _ _ i op o h0 hmay hcond ho

/-- The invariant rule where it does not matter how operations end. -/
theorem Config.run_invariant {I : σ → List (Entry ι Op Reply) → Prop} (hA : A.Fits P)
    (hcall : ∀ x l i op o, I x l → P.may i (own i l) op → A.call x l i op o →
      I (B.exec op x).2 (⟨i, op, (B.exec op x).1⟩ :: l))
    (henv : ∀ x l y, I x l → A.env y → I (B.env y x) l)
    {c : Config ι Op Reply σ ε α} (hc : c.Conforms P) (h0 : I c.store c.log)
    (sched : List (Choice ι E ε)) (hs : A.Along B c sched) :
    (c.run B sched).Conforms P ∧ I (c.run B sched).store (c.run B sched).log :=
  Config.run_applied hA (fun x l i op o hI hmay hcond _ => hcall x l i op o hI hmay hcond) henv hc
    h0 sched hs

/-- Every operation in the log was allowed when it was sent. -/
def Protocol.Lawful (P : Protocol ι Op Reply ε α) : List (Entry ι Op Reply) → Prop
  | [] => True
  | e :: l => P.may e.caller (own e.caller l) e.reaction.op ∧ P.Lawful l

theorem Protocol.Lawful.mem {l : List (Entry ι Op Reply)} (hl : P.Lawful l)
    {e : Entry ι Op Reply} (he : e ∈ l) :
    ∃ h, h ⊆ own e.caller l ∧ P.may e.caller h e.reaction.op := by
  induction l with
  | nil => cases he
  | cons x l ih =>
    have hsub : own e.caller l ⊆ own e.caller (x :: l) := fun y hy =>
      mem_own_cons.mpr (.inr hy)
    rcases List.mem_cons.mp he with rfl | he
    · exact ⟨_, hsub, hl.1⟩
    · obtain ⟨h, hh, hmay⟩ := ih hl.2 he
      exact ⟨h, List.Subset.trans hh hsub, hmay⟩

theorem Config.run_lawful (hA : A.Fits P) {c : Config ι Op Reply σ ε α} (hc : c.Conforms P)
    (h0 : P.Lawful c.log) (sched : List (Choice ι E ε)) (hs : A.Along B c sched) :
    P.Lawful (c.run B sched).log :=
  (Config.run_invariant (I := fun _ l => P.Lawful l) hA
    (fun _ _ _ _ _ hl hmay _ => ⟨hmay, hl⟩) (fun _ _ _ hl _ => hl) hc h0 sched hs).2

/-- A call that has ended has established its own postcondition. -/
theorem Config.Conforms.ended {c : Config ι Op Reply σ ε α} (hc : c.Conforms P) {i : ι}
    {res : Except ε α} (hi : c.result i = some res) : P.post i (own i c.log) res :=
  (Prog.obeys_ofExcept res).mp (hc i _ (Config.result_eq_some.mp hi))

theorem Config.Conforms.returned {c : Config ι Op Reply σ ε α} (hc : c.Conforms P) {i : ι} {a : α}
    (hi : c.result i = some (.ok a)) : P.post i (own i c.log) (.ok a) :=
  hc.ended hi

end Invariant
end StockMarket.Interleaving
