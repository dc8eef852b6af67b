import StockMarket.Interleaving.Pool

/-! # The path of a call through its program

Whatever the other calls do, the operations that a call has had carried out are
those on one path through its program, and what is left of the call is where the
path has led.
-/

namespace StockMarket.Interleaving

universe u v s t

namespace Prog
variable {Op : Type u} {Reply : Op → Type v} {ε α : Type v}

/-- With the operations of the list carried out, newest first, the second program is
what is left of the first. Operations end as `ends` allows. -/
inductive Path (ends : Op → Outcome ε → Prop) (p : Prog Op Reply ε α) :
    List (Reaction Op Reply) → Prog Op Reply ε α → Prop
  | refl : Path ends p [] p
  | done {h : List (Reaction Op Reply)} {op : Op} {next : Reply op → Prog Op Reply ε α}
      {failed : ε → Prog Op Reply ε α} (r : Reply op) (hpath : Path ends p h (.call op next failed))
      (hends : ends op .done) : Path ends p (⟨op, r⟩ :: h) (next r)
  | failed {h : List (Reaction Op Reply)} {op : Op} {next : Reply op → Prog Op Reply ε α}
      {failed : ε → Prog Op Reply ε α} (e : ε) (hpath : Path ends p h (.call op next failed))
      (hends : ends op (.failed e)) : Path ends p h (failed e)
  | lost {h : List (Reaction Op Reply)} {op : Op} {next : Reply op → Prog Op Reply ε α}
      {failed : ε → Prog Op Reply ε α} (r : Reply op) (e : ε)
      (hpath : Path ends p h (.call op next failed)) (hends : ends op (.lost e)) :
      Path ends p (⟨op, r⟩ :: h) (failed e)

def Ended (p : Prog Op Reply ε α) : Prop := ∃ res, p = ofExcept res

theorem Ended.not_call {op : Op} {next : Reply op → Prog Op Reply ε α}
    {failed : ε → Prog Op Reply ε α} (h : (Prog.call op next failed).Ended) : False := by
  obtain ⟨res, hres⟩ := h
  cases res <;> cases hres

variable {ends : Op → Outcome ε → Prop} {p q : Prog Op Reply ε α} {h : List (Reaction Op Reply)}

/-- A path leads through operations the program may send. -/
theorem Path.sends {Q : Op → Prop} (hpath : Path ends p h q) (hp : p.Sends Q) :
    q.Sends Q ∧ ∀ x ∈ h, Q x.op := by
  induction hpath with
  | refl => exact ⟨hp, fun x hx => absurd hx List.not_mem_nil⟩
  | done r _ _ ih =>
    obtain ⟨⟨hop, hnext, -⟩, hh⟩ := ih
    exact ⟨hnext r, List.forall_mem_cons.mpr ⟨hop, hh⟩⟩
  | failed e _ _ ih => exact ⟨ih.1.2.2 e, ih.2⟩
  | lost r e _ _ ih =>
    obtain ⟨⟨hop, -, hfail⟩, hh⟩ := ih
    exact ⟨hfail e, List.forall_mem_cons.mpr ⟨hop, hh⟩⟩

end Prog

namespace Config
variable {ι : Type t} {Op : Type u} {Reply : Op → Type v} {σ : Type s} {E : Type t} {ε α : Type v}
  [DecidableEq ι] {B : Backend Op Reply σ E} {ends : Op → Outcome ε → Prop}
  {calls : ι → Prog Op Reply ε α} {c : Config ι Op Reply σ ε α}

theorem step_others (c : Config ι Op Reply σ ε α) {i j : ι} (h : i ≠ j) (o : Outcome ε) :
    (c.step B (.step j o)).calls i = c.calls i ∧
      own i (c.step B (.step j o)).log = own i c.log := by
  rcases hj : c.calls j with _ | ⟨a | e | ⟨op, next, failed⟩⟩
  · simp [step, hj]
  · simp [step, hj]
  · simp [step, hj]
  · cases o <;> simp [step, hj, advance, h, own_cons_ne (Ne.symm h)]

/-- What a step of a call comes to, for the store, the log and the call. -/
theorem step_call {c : Config ι Op Reply σ ε α} {i : ι} {op : Op}
    {next : Reply op → Prog Op Reply ε α} {failed : ε → Prog Op Reply ε α}
    (hi : c.calls i = some (.call op next failed)) (o : Outcome ε) :
    ((c.step B (.step i o)).store = c.store ∧ (c.step B (.step i o)).log = c.log ∧
        ∃ e, (c.step B (.step i o)).calls i = some (failed e)) ∨
      (c.step B (.step i o)).store = (B.exec op c.store).2 ∧
        (c.step B (.step i o)).log = ⟨i, op, (B.exec op c.store).1⟩ :: c.log ∧
          ((c.step B (.step i o)).calls i = some (next (B.exec op c.store).1) ∨
            ∃ e, (c.step B (.step i o)).calls i = some (failed e)) := by
  cases o with
  | done => exact .inr (by simp [step, hi, advance])
  | failed e => exact .inl ⟨by simp [step, hi], by simp [step, hi], e, by simp [step, hi]⟩
  | lost e =>
    refine .inr ⟨by simp [step, hi, advance], by simp [step, hi, advance], .inr ⟨e, ?_⟩⟩
    simp [step, hi, advance]

/-- Every call has come along a path of its program, and goes on from there if it has not
crashed. -/
def Traveled (ends : Op → Outcome ε → Prop) (calls : ι → Prog Op Reply ε α)
    (c : Config ι Op Reply σ ε α) : Prop :=
  ∀ i, ∃ q, (calls i).Path ends (own i c.log) q ∧ ∀ p, c.calls i = some p → p = q

theorem Traveled.path (h : c.Traveled ends calls) {i : ι} {p : Prog Op Reply ε α}
    (hp : c.calls i = some p) : (calls i).Path ends (own i c.log) p := by
  obtain ⟨q, hq, honly⟩ := h i
  exact honly p hp ▸ hq

theorem traveled_start (x : σ) : (Config.start x calls).Traveled ends calls :=
  fun i => ⟨calls i, .refl, fun _ hp => (Option.some.inj hp).symm⟩

/-- One call moves, and the others stay where they are. -/
theorem Traveled.update (h : c.Traveled ends calls) {i : ι} {p : Prog Op Reply ε α} {x : σ}
    {log : List (Entry ι Op Reply)} (hp : (calls i).Path ends (own i log) p)
    (hothers : ∀ j, j ≠ i → own j log = own j c.log) :
    Traveled ends calls ⟨x, log, Function.update c.calls i (some p)⟩ := by
  intro j
  by_cases hj : j = i
  · subst hj
    refine ⟨p, hp, ?_⟩
    intro p' hp'
    simp only [Function.update_self, Option.some.injEq] at hp'
    exact hp'.symm
  · obtain ⟨q, hq, honly⟩ := h j
    refine ⟨q, hothers j hj ▸ hq, fun p' hp' => honly p' ?_⟩
    simpa only [Function.update_of_ne hj] using hp'

theorem Traveled.step (h : c.Traveled ends calls) (ch : Choice ι E ε)
    (hends : ∀ i o op next failed, ch = .step i o → c.calls i = some (.call op next failed) →
      ends op o) : (c.step B ch).Traveled ends calls := by
  cases ch with
  | env y => exact h
  | crash i =>
    intro j
    obtain ⟨q, hq, honly⟩ := h j
    refine ⟨q, hq, fun p hp => honly p ?_⟩
    by_cases hj : j = i
    · simp [Config.step, hj] at hp
    · simpa [Config.step, hj] using hp
  | step i o =>
    rcases hi : c.calls i with _ | ⟨a | e | ⟨op, next, failed⟩⟩
    · simpa only [Config.step, hi] using h
    · simpa only [Config.step, hi] using h
    · simpa only [Config.step, hi] using h
    · have hend := hends i o op next failed rfl hi
      have hpath := h.path hi
      cases o with
      | done =>
        simp only [Config.step, hi, advance]
        refine h.update ?_ fun j hj => own_cons_ne (Ne.symm hj) _ _
        rw [own_cons_self]
        exact hpath.done _ hend
      | failed e =>
        simp only [Config.step, hi]
        exact h.update (hpath.failed e hend) fun _ _ => rfl
      | lost e =>
        simp only [Config.step, hi, advance]
        refine h.update ?_ fun j hj => own_cons_ne (Ne.symm hj) _ _
        rw [own_cons_self]
        exact hpath.lost _ e hend

theorem traveled_run {A : Assumption ι Op Reply σ E ε}
    (hA : ∀ x l i op o, A.call x l i op o → ends op o) (h : c.Traveled ends calls)
    (sched : List (Choice ι E ε)) (hs : A.Along B c sched) :
    (c.run B sched).Traveled ends calls := by
  induction sched generalizing c with
  | nil => exact h
  | cons ch sched ih =>
    refine ih (h.step ch ?_) hs.2
    rintro i o op next failed rfl hi
    have hmeets := hs.1
    simp only [Assumption.Meets, hi] at hmeets
    exact hA _ _ _ _ _ hmeets

end Config
end StockMarket.Interleaving
