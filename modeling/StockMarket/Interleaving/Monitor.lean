import StockMarket.Interleaving.Pool

/-! # Resources guarded by locks

A store may hold one resource for each key, with a lock to it. A call that has
won the lock of its key may change that resource only, and must leave it in its
invariant before it gives the lock back. Then every resource is in its
invariant whenever no call is at work on it, whatever the schedule. Only one
program at a time has to be looked at for that.
-/

namespace StockMarket.Interleaving

universe u v s t w x

/-- The resource of each key and the call that holds its lock. -/
structure Monitor (ι : Type t) (κ : Type w) (σ : Type s) (ν : Type x) where
  resource : κ → σ → ν
  holder : κ → σ → Option ι

namespace Monitor
variable {ι : Type t} {κ : Type w} {Op : Type u} {Reply : Op → Type v} {σ : Type s} {E : Type t}
  {ν : Type x} {ε α β : Type v} (M : Monitor ι κ σ ν) (B : Backend Op Reply σ E)

def Keeps (y y' : σ) : Prop := ∀ k, M.resource k y' = M.resource k y

/-- All but the resource of one key is as it was. -/
def Frame (k : κ) (y y' : σ) : Prop :=
  (∀ j, j ≠ k → M.resource j y' = M.resource j y) ∧ ∀ j, M.holder j y' = M.holder j y

def Quiet (op : Op) : Prop :=
  ∀ y, M.Keeps y (B.exec op y).2 ∧ ∀ k, M.holder k (B.exec op y).2 = M.holder k y

/-- The operation at most takes the lock of `k`, and only when nobody holds it.
A reply in `won` tells call `i` that it is the holder. -/
def Bids (i : ι) (k : κ) (op : Op) (won : Reply op → Prop) : Prop :=
  ∀ y, M.Keeps y (B.exec op y).2 ∧ (∀ j, j ≠ k → M.holder j (B.exec op y).2 = M.holder j y) ∧
    (M.holder k (B.exec op y).2 = M.holder k y ∨ M.holder k y = none) ∧
    (won (B.exec op y).1 → M.holder k y = none ∧ M.holder k (B.exec op y).2 = some i)

/-- The operation at most takes the lock of `k` from call `i`. -/
def Releases (i : ι) (k : κ) (op : Op) : Prop :=
  ∀ y, M.Keeps y (B.exec op y).2 ∧ (∀ j, j ≠ k → M.holder j (B.exec op y).2 = M.holder j y) ∧
    (M.holder k (B.exec op y).2 = M.holder k y ∨ M.holder k y = some i)

theorem Quiet.bids {op : Op} (h : M.Quiet B op) (i : ι) (k : κ) :
    M.Bids B i k op fun _ => False :=
  fun y => ⟨(h y).1, fun j _ => (h y).2 j, .inl ((h y).2 k), False.elim⟩

section Guarded
variable (ok : σ → Op → Outcome ε → Prop) (inv : κ → ν → Prop) (i : ι) (k : κ)

/-- The program keeps to the lock of `k`. Outside (`none`) it leaves all
resources alone until it wins the lock; inside it knows the value of the
resource, which is in the invariant at the beginning and at the release. -/
def Guarded (post : Option ν → Except ε α → Prop) : Prog Op Reply ε α → Option ν → Prop
  | .ret a, m => post m (.ok a)
  | .raise e, m => post m (.error e)
  | .call op next failed, none => ∃ won : Reply op → Prop, M.Bids B i k op won ∧
      (∀ r, won r → ∀ v, inv k v → Guarded post (next r) (some v)) ∧
      (∀ r, ¬won r → Guarded post (next r) none) ∧ ∀ e, Guarded post (failed e) none
  | .call op next failed, some v =>
      (inv k v ∧ M.Releases B i k op ∧
        (∀ r, Guarded post (next r) none) ∧ ∀ e, Guarded post (failed e) none) ∨
      ∀ y o, M.resource k y = v → ok y op o →
        (o.applies → M.Frame k y (B.exec op y).2) ∧
        (o = .done → Guarded post (next (B.exec op y).1) (some (M.resource k (B.exec op y).2))) ∧
        ∀ e, (o = .failed e → Guarded post (failed e) (some v)) ∧
          (o = .lost e → Guarded post (failed e) (some (M.resource k (B.exec op y).2)))

variable {M B ok inv i k} {post : Option ν → Except ε α → Prop}
  {post' : Option ν → Except ε β → Prop}

theorem Guarded.mono {post₂ : Option ν → Except ε α → Prop} {p : Prog Op Reply ε α} {m : Option ν}
    (hp : M.Guarded B ok inv i k post p m) (hpost : ∀ m' res, post m' res → post₂ m' res) :
    M.Guarded B ok inv i k post₂ p m := by
  induction p generalizing m with
  | ret a => exact hpost _ _ hp
  | raise e => exact hpost _ _ hp
  | call op next failed ihn ihf =>
    cases m with
    | none =>
      obtain ⟨won, hbids, hwon, hlost, hfail⟩ := hp
      exact ⟨won, hbids, fun r hr v hv => ihn r (hwon r hr v hv), fun r hr => ihn r (hlost r hr),
        fun e => ihf e (hfail e)⟩
    | some v =>
      rcases hp with ⟨hv, hrelease, hnext, hfail⟩ | hlocal
      · exact .inl ⟨hv, hrelease, fun r => ihn r (hnext r), fun e => ihf e (hfail e)⟩
      · refine .inr ?_
        intro y o hy ho
        obtain ⟨hframe, hnext, hfail⟩ := hlocal y o hy ho
        exact ⟨hframe, fun h => ihn _ (hnext h), fun e =>
          ⟨fun h => ihf e ((hfail e).1 h), fun h => ihf e ((hfail e).2 h)⟩⟩

theorem Guarded.handle {p : Prog Op Reply ε α} {m : Option ν}
    {f : Except ε α → Prog Op Reply ε β} (hp : M.Guarded B ok inv i k post p m)
    (hf : ∀ m' res, post m' res → M.Guarded B ok inv i k post' (f res) m') :
    M.Guarded B ok inv i k post' (p.handle f) m := by
  induction p generalizing m with
  | ret a => exact hf _ _ hp
  | raise e => exact hf _ _ hp
  | call op next failed ihn ihf =>
    cases m with
    | none =>
      obtain ⟨won, hbids, hwon, hlost, hfail⟩ := hp
      exact ⟨won, hbids, fun r hr v hv => ihn r (hwon r hr v hv), fun r hr => ihn r (hlost r hr),
        fun e => ihf e (hfail e)⟩
    | some v =>
      rcases hp with ⟨hv, hrelease, hnext, hfail⟩ | hlocal
      · exact .inl ⟨hv, hrelease, fun r => ihn r (hnext r), fun e => ihf e (hfail e)⟩
      · refine .inr ?_
        intro y o hy ho
        obtain ⟨hframe, hnext, hfail⟩ := hlocal y o hy ho
        exact ⟨hframe, fun h => ihn _ (hnext h), fun e =>
          ⟨fun h => ihf e ((hfail e).1 h), fun h => ihf e ((hfail e).2 h)⟩⟩

theorem Guarded.bind {p : Prog Op Reply ε α} {m : Option ν} {f : α → Prog Op Reply ε β}
    (hp : M.Guarded B ok inv i k post p m)
    (hf : ∀ m' a, post m' (.ok a) → M.Guarded B ok inv i k post' (f a) m')
    (he : ∀ m' e, post m' (.error e) → post' m' (.error e)) :
    M.Guarded B ok inv i k post' (p >>= f) m :=
  hp.handle fun m' res hres => by
    cases res with
    | ok a => exact hf m' a hres
    | error e => exact he m' e hres

theorem guarded_of_quiet {p : Prog Op Reply ε α} (hp : p.Sends (M.Quiet B)) :
    M.Guarded B ok inv i k (fun m _ => m = none) p none := by
  induction p with
  | ret a => rfl
  | raise e => rfl
  | call op next failed ihn ihf =>
    obtain ⟨hop, hnext, hfail⟩ := hp
    exact ⟨_, Quiet.bids M B hop i k, fun _ h => h.elim, fun r _ => ihn r (hnext r),
      fun e => ihf e (hfail e)⟩

theorem guarded_bid {op : Op} {won : Reply op → Prop} {f : Reply op → Prog Op Reply ε β}
    (hop : M.Bids B i k op won)
    (hwon : ∀ r, won r → ∀ v, inv k v → M.Guarded B ok inv i k post' (f r) (some v))
    (hlost : ∀ r, ¬won r → M.Guarded B ok inv i k post' (f r) none)
    (he : ∀ e, post' none (.error e)) :
    M.Guarded B ok inv i k post' (Prog.send op >>= f) none :=
  ⟨won, hop, hwon, hlost, he⟩

theorem guarded_release {op : Op} {v : ν} {f : Reply op → Prog Op Reply ε β} (hv : inv k v)
    (hop : M.Releases B i k op) (hf : ∀ r, M.Guarded B ok inv i k post' (f r) none)
    (he : ∀ e, post' none (.error e)) :
    M.Guarded B ok inv i k post' (Prog.send op >>= f) (some v) :=
  .inl ⟨hv, hop, hf, he⟩

variable (M B ok inv i k) in
/-- The program stays inside, and ends with a value of the resource and a result
in `Q`. -/
abbrev Within (Q : ν → Except ε α → Prop) (p : Prog Op Reply ε α) (v : ν) : Prop :=
  M.Guarded B ok inv i k (fun m res => ∃ v', m = some v' ∧ Q v' res) p (some v)

variable {Q : ν → Except ε α → Prop} {Q' : ν → Except ε β → Prop} {v : ν}

theorem within_ret {a : α} (h : Q v (.ok a)) : M.Within B ok inv i k Q (.ret a) v := ⟨v, rfl, h⟩

theorem within_raise {e : ε} (h : Q v (.error e)) : M.Within B ok inv i k Q (.raise e) v :=
  ⟨v, rfl, h⟩

theorem Within.mono {Q₂ : ν → Except ε α → Prop} {p : Prog Op Reply ε α}
    (hp : M.Within B ok inv i k Q p v) (hQ : ∀ v' res, Q v' res → Q₂ v' res) :
    M.Within B ok inv i k Q₂ p v :=
  Guarded.mono hp fun m res hres => by
    obtain ⟨v', hm, hv'⟩ := hres
    exact ⟨v', hm, hQ v' res hv'⟩

theorem Within.handle {p : Prog Op Reply ε α} {f : Except ε α → Prog Op Reply ε β}
    (hp : M.Within B ok inv i k Q p v)
    (hf : ∀ v' res, Q v' res → M.Within B ok inv i k Q' (f res) v') :
    M.Within B ok inv i k Q' (p.handle f) v :=
  Guarded.handle hp fun m res hres => by
    obtain ⟨v', rfl, hv'⟩ := hres
    exact hf v' res hv'

theorem Within.bind {p : Prog Op Reply ε α} {f : α → Prog Op Reply ε β}
    (hp : M.Within B ok inv i k Q p v)
    (hf : ∀ v' a, Q v' (.ok a) → M.Within B ok inv i k Q' (f a) v')
    (he : ∀ v' e, Q v' (.error e) → Q' v' (.error e)) :
    M.Within B ok inv i k Q' (p >>= f) v :=
  hp.handle fun v' res hres => by
    cases res with
    | ok a => exact hf v' a hres
    | error e => exact within_raise (he v' e hres)

/-- An operation that is answered and changes only the resource. -/
theorem within_send {op : Op} {f : Reply op → Prog Op Reply ε β}
    (hdone : ∀ y o, ok y op o → o = .done)
    (hf : ∀ y, M.resource k y = v → M.Frame k y (B.exec op y).2 ∧
      M.Within B ok inv i k Q' (f (B.exec op y).1) (M.resource k (B.exec op y).2)) :
    M.Within B ok inv i k Q' (Prog.send op >>= f) v :=
  .inr fun y o hy ho => by
    obtain rfl := hdone y o ho
    obtain ⟨hframe, hnext⟩ := hf y hy
    refine ⟨fun _ => hframe, fun _ => hnext, fun e => ⟨fun h => ?_, fun h => ?_⟩⟩ <;> cases h

/-- Quiet operations leave the resource as it is, however they end. -/
theorem within_of_quiet {p : Prog Op Reply ε α} (hp : p.Sends (M.Quiet B))
    (hQ : ∀ res, Q v res) : M.Within B ok inv i k Q p v := by
  induction p with
  | ret a => exact within_ret (hQ _)
  | raise e => exact within_raise (hQ _)
  | call op next failed ihn ihf =>
    obtain ⟨hop, hnext, hfail⟩ := hp
    refine .inr ?_
    intro y o hy _
    obtain ⟨hkeeps, hholder⟩ := hop y
    rw [hkeeps k, hy]
    exact ⟨fun _ => ⟨fun j _ => hkeeps j, hholder⟩, fun _ => ihn _ (hnext _), fun e =>
      ⟨fun _ => ihf e (hfail e), fun _ => ihf e (hfail e)⟩⟩

end Guarded

section Run
variable [DecidableEq ι] (ok : σ → Op → Outcome ε → Prop) (inv : κ → ν → Prop) (key : ι → κ)

/-- Some calls are inside: each holds the lock of its key. Every other resource
is in its invariant, and what is left of every call keeps to its lock. -/
structure Monitored (inside : ι → Prop) (c : Config ι Op Reply σ ε α) : Prop where
  held : ∀ i, inside i → M.holder (key i) c.store = some i
  begun : ∀ i, inside i → own i c.log ≠ []
  free : ∀ k, (∀ i, inside i → key i ≠ k) → inv k (M.resource k c.store)
  within : ∀ i p, c.calls i = some p → inside i → M.Guarded B ok inv i (key i)
    (fun m _ => m = none) p (some (M.resource (key i) c.store))
  without : ∀ i p, c.calls i = some p → ¬inside i →
    M.Guarded B ok inv i (key i) (fun m _ => m = none) p none

variable {M B ok inv key} {inside : ι → Prop} {c : Config ι Op Reply σ ε α}

theorem own_ne_nil_cons (x : Entry ι Op Reply) {log : List (Entry ι Op Reply)} (j : ι)
    (hj : own j log ≠ []) : own j (x :: log) ≠ [] := by
  by_cases h : x.caller = j
  · subst h
    rw [own_cons_self]
    exact List.cons_ne_nil _ _
  · rwa [own_cons_ne h]

/-- Two calls with one key are never inside together. -/
theorem Monitored.eq_of_key_eq (hc : M.Monitored B ok inv key inside c) {i j : ι} (hi : inside i)
    (hj : inside j) (hkey : key i = key j) : i = j := by
  have hboth := hc.held i hi
  rw [hkey, hc.held j hj] at hboth
  exact (Option.some.inj hboth).symm

/-- Where no call is at work on a resource, it is in its invariant. -/
theorem Monitored.idle (hc : M.Monitored B ok inv key inside c) {k : κ}
    (hidle : ∀ i, key i = k → own i c.log = [] ∨ (c.result i).isSome) :
    inv k (M.resource k c.store) := by
  apply hc.free k
  intro i hi hkey
  rcases hidle i hkey with hlog | hresult
  · exact hc.begun i hi hlog
  · simp only [Config.result] at hresult
    split at hresult
    · rename_i a hcall
      cases hc.within i _ hcall hi
    · rename_i e hcall
      cases hc.within i _ hcall hi
    · cases hresult

/-- Call `i` goes on as `p`, inside or not, and the others notice nothing. -/
theorem Monitored.proceed (hc : M.Monitored B ok inv key inside c) {i : ι} {P : Prop}
    {y : σ} {log : List (Entry ι Op Reply)} {p : Prog Op Reply ε α}
    (hlog : ∀ j, own j c.log ≠ [] → own j log ≠ [])
    (hothers : ∀ j, j ≠ i → inside j → M.holder (key j) y = M.holder (key j) c.store ∧
      M.resource (key j) y = M.resource (key j) c.store)
    (hfree : ∀ k, (P → key i ≠ k) → (∀ j, j ≠ i → inside j → key j ≠ k) →
      inv k (M.resource k y))
    (hin : P → own i log ≠ [] ∧ M.holder (key i) y = some i ∧
      M.Guarded B ok inv i (key i) (fun m _ => m = none) p (some (M.resource (key i) y)))
    (hout : ¬P → M.Guarded B ok inv i (key i) (fun m _ => m = none) p none) :
    M.Monitored B ok inv key (Function.update inside i P)
      ⟨y, log, Function.update c.calls i (some p)⟩ := by
  have hself : Function.update inside i P i = P := Function.update_self ..
  have hother {j : ι} (hj : j ≠ i) : Function.update inside i P j = inside j :=
    Function.update_of_ne hj ..
  refine ⟨?_, ?_, ?_, ?_, ?_⟩
  · intro j hj
    by_cases h : j = i
    · subst h
      exact (hin (hself.mp hj)).2.1
    · rw [hother h] at hj
      exact ((hothers j h hj).1).trans (hc.held j hj)
  · intro j hj
    by_cases h : j = i
    · subst h
      exact (hin (hself.mp hj)).1
    · rw [hother h] at hj
      exact hlog j (hc.begun j hj)
  · intro k hk
    exact hfree k (fun h => hk i (hself.mpr h)) fun j h hj => hk j ((hother h).mpr hj)
  · intro j q hq hj
    by_cases h : j = i
    · subst h
      simp only [Function.update_self, Option.some.injEq] at hq
      exact hq ▸ (hin (hself.mp hj)).2.2
    · rw [hother h] at hj
      simp only [Function.update_of_ne h] at hq
      rw [(hothers j h hj).2]
      exact hc.within j q hq hj
  · intro j q hq hj
    by_cases h : j = i
    · subst h
      simp only [Function.update_self, Option.some.injEq] at hq
      exact hq ▸ hout fun h => hj (hself.mpr h)
    · rw [hother h] at hj
      simp only [Function.update_of_ne h] at hq
      exact hc.without j q hq hj

/-- A call outside makes a step: it stays outside, or it has won the lock. -/
theorem Monitored.step_outside (hc : M.Monitored B ok inv key inside c) {i : ι} {op : Op}
    {next : Reply op → Prog Op Reply ε α} {failed : ε → Prog Op Reply ε α}
    (hi : c.calls i = some (.call op next failed)) (hout : ¬inside i) (o : Outcome ε) :
    ∃ inside', M.Monitored B ok inv key inside' (c.step B (.step i o)) := by
  obtain ⟨won, hbids, hwon, hlost, hfail⟩ := hc.without i _ hi hout
  obtain ⟨hkeeps, hholder, hbid, htaken⟩ := hbids c.store
  -- a call that is inside holds its lock, so the bid of another cannot take it
  have hothers (j : ι) (_ : j ≠ i) (hj : inside j) :
      M.holder (key j) (B.exec op c.store).2 = M.holder (key j) c.store ∧
        M.resource (key j) (B.exec op c.store).2 = M.resource (key j) c.store := by
    refine ⟨?_, hkeeps _⟩
    by_cases hkey : key j = key i
    · rw [hkey]
      apply hbid.resolve_right
      intro hnone
      rw [← hkey, hc.held j hj] at hnone
      cases hnone
    · exact hholder _ hkey
  have hfree (k : κ) (hk : ∀ j, j ≠ i → inside j → key j ≠ k) :
      inv k (M.resource k c.store) := by
    refine hc.free k fun j hj => hk j ?_ hj
    rintro rfl
    exact hout hj
  have hstay {p : Prog Op Reply ε α}
      (hp : M.Guarded B ok inv i (key i) (fun m _ => m = none) p none) :
      ∃ inside', M.Monitored B ok inv key inside' (c.advance B i op p) :=
    ⟨_, hc.proceed (P := False) (own_ne_nil_cons _) hothers
      (fun k _ hk => (hkeeps k).symm ▸ hfree k hk) False.elim fun _ => hp⟩
  cases o with
  | failed e =>
    simp only [Config.step, hi]
    exact ⟨_, hc.proceed (P := False) (fun j => id) (fun j _ _ => ⟨rfl, rfl⟩)
      (fun k _ hk => hfree k hk) False.elim fun _ => hfail e⟩
  | lost e =>
    simp only [Config.step, hi]
    exact hstay (hfail e)
  | done =>
    simp only [Config.step, hi]
    by_cases h : won (B.exec op c.store).1
    · obtain ⟨hnone, hmine⟩ := htaken h
      have hinv : inv (key i) (M.resource (key i) c.store) := by
        apply hfree
        intro j _ hj hkey
        rw [← hkey, hc.held j hj] at hnone
        cases hnone
      refine ⟨_, hc.proceed (P := True) (own_ne_nil_cons _) hothers
        (fun k _ hk => (hkeeps k).symm ▸ hfree k hk) (fun _ => ⟨by simp, hmine, ?_⟩)
        fun hno => absurd trivial hno⟩
      rw [hkeeps]
      exact hwon _ h _ hinv
    · exact hstay (hlost _ h)

/-- A resource that no call inside has the key of, call `i` among them. -/
theorem Monitored.free_of_ne (hc : M.Monitored B ok inv key inside c) {i : ι} {k : κ}
    (hkey : key i ≠ k) (hk : ∀ j, j ≠ i → inside j → key j ≠ k) : inv k (M.resource k c.store) := by
  apply hc.free k
  intro j hj
  by_cases h : j = i
  · exact h ▸ hkey
  · exact hk j h hj

/-- A call inside whose resource is in the invariant leaves it. -/
theorem Monitored.leave (hc : M.Monitored B ok inv key inside c) {i : ι} {op : Op}
    {next : Reply op → Prog Op Reply ε α} {failed : ε → Prog Op Reply ε α}
    (hi : c.calls i = some (.call op next failed)) (hin : inside i) (o : Outcome ε)
    (hinv : inv (key i) (M.resource (key i) c.store)) (hrelease : M.Releases B i (key i) op)
    (hnext : ∀ r, M.Guarded B ok inv i (key i) (fun m _ => m = none) (next r) none)
    (hfail : ∀ e, M.Guarded B ok inv i (key i) (fun m _ => m = none) (failed e) none) :
    ∃ inside', M.Monitored B ok inv key inside' (c.step B (.step i o)) := by
  obtain ⟨hkeeps, hholder, -⟩ := hrelease c.store
  have hleft (k : κ) (hk : ∀ j, j ≠ i → inside j → key j ≠ k) :
      inv k (M.resource k c.store) := by
    by_cases hkey : key i = k
    · exact hkey ▸ hinv
    · exact hc.free_of_ne hkey hk
  have hleave {p : Prog Op Reply ε α}
      (hp : M.Guarded B ok inv i (key i) (fun m _ => m = none) p none) :
      ∃ inside', M.Monitored B ok inv key inside' (c.advance B i op p) :=
    ⟨_, hc.proceed (P := False) (own_ne_nil_cons _)
      (fun j hj hinside => ⟨hholder _ fun hkey => hj (hc.eq_of_key_eq hinside hin hkey), hkeeps _⟩)
      (fun k _ hk => (hkeeps k).symm ▸ hleft k hk) False.elim fun _ => hp⟩
  cases o with
  | done =>
    simp only [Config.step, hi]
    exact hleave (hnext _)
  | lost e =>
    simp only [Config.step, hi]
    exact hleave (hfail e)
  | failed e =>
    simp only [Config.step, hi]
    exact ⟨_, hc.proceed (P := False) (fun j => id) (fun j _ _ => ⟨rfl, rfl⟩)
      (fun k _ hk => hleft k hk) False.elim fun _ => hfail e⟩

theorem Monitored.work (hc : M.Monitored B ok inv key inside c) {i : ι} {op : Op}
    {next : Reply op → Prog Op Reply ε α} {failed : ε → Prog Op Reply ε α}
    (hi : c.calls i = some (.call op next failed)) (hin : inside i) {o : Outcome ε}
    (hframe : o.applies → M.Frame (key i) c.store (B.exec op c.store).2)
    (hnext : o = .done → M.Guarded B ok inv i (key i) (fun m _ => m = none)
      (next (B.exec op c.store).1) (some (M.resource (key i) (B.exec op c.store).2)))
    (hfail : ∀ e, (o = .failed e → M.Guarded B ok inv i (key i) (fun m _ => m = none) (failed e)
        (some (M.resource (key i) c.store))) ∧
      (o = .lost e → M.Guarded B ok inv i (key i) (fun m _ => m = none) (failed e)
        (some (M.resource (key i) (B.exec op c.store).2)))) :
    ∃ inside', M.Monitored B ok inv key inside' (c.step B (.step i o)) := by
  have hwork {p : Prog Op Reply ε α} (happlies : o.applies)
      (hp : M.Guarded B ok inv i (key i) (fun m _ => m = none) p
        (some (M.resource (key i) (B.exec op c.store).2))) :
      ∃ inside', M.Monitored B ok inv key inside' (c.advance B i op p) := by
    obtain ⟨hothers, hholder⟩ := hframe happlies
    refine ⟨_, hc.proceed (P := True) (own_ne_nil_cons _)
      (fun j hj hinside =>
        ⟨hholder _, hothers _ fun hkey => hj (hc.eq_of_key_eq hinside hin hkey)⟩)
      (fun k hkey hk => ?_) (fun _ => ⟨by simp, (hholder _).trans (hc.held i hin), hp⟩)
      fun hno => absurd trivial hno⟩
    rw [hothers k (Ne.symm (hkey trivial))]
    exact hc.free_of_ne (hkey trivial) hk
  cases o with
  | done =>
    simp only [Config.step, hi]
    exact hwork rfl (hnext rfl)
  | lost e =>
    simp only [Config.step, hi]
    exact hwork rfl ((hfail e).2 rfl)
  | failed e =>
    simp only [Config.step, hi]
    exact ⟨_, hc.proceed (P := True) (fun j => id) (fun j _ _ => ⟨rfl, rfl⟩)
      (fun k hkey hk => hc.free_of_ne (hkey trivial) hk)
      (fun _ => ⟨hc.begun i hin, hc.held i hin, (hfail e).1 rfl⟩) fun hno => absurd trivial hno⟩

/-- A call inside makes a step: it works on its resource, or leaves it. -/
theorem Monitored.step_inside (hc : M.Monitored B ok inv key inside c) {i : ι} {op : Op}
    {next : Reply op → Prog Op Reply ε α} {failed : ε → Prog Op Reply ε α}
    (hi : c.calls i = some (.call op next failed)) (hin : inside i) {o : Outcome ε}
    (ho : ok c.store op o) :
    ∃ inside', M.Monitored B ok inv key inside' (c.step B (.step i o)) := by
  rcases hc.within i _ hi hin with ⟨hinv, hrelease, hnext, hfail⟩ | hlocal
  · exact hc.leave hi hin o hinv hrelease hnext hfail
  · obtain ⟨hframe, hnext, hfail⟩ := hlocal c.store o rfl ho
    exact hc.work hi hin hframe hnext hfail

/-- Every step keeps the calls to their locks, a crash as well: a call that dies
inside stays there for good. -/
theorem Monitored.step {A : Assumption ι Op Reply σ E ε}
    (hok : ∀ y l i op o, A.call y l i op o → ok y op o)
    (henv : ∀ z, A.env z → ∀ y k, M.resource k (B.env z y) = M.resource k y ∧
      M.holder k (B.env z y) = M.holder k y)
    (hc : M.Monitored B ok inv key inside c) (ch : Choice ι E ε) (hch : A.Meets c ch) :
    ∃ inside', M.Monitored B ok inv key inside' (c.step B ch) := by
  cases ch with
  | env z =>
    have hsame := henv z hch c.store
    refine ⟨inside, fun i hi => ((hsame _).2).trans (hc.held i hi), hc.begun, ?_, ?_, hc.without⟩
    · intro k hk
      exact (hsame k).1.symm ▸ hc.free k hk
    · intro i p hp hi
      exact (hsame (key i)).1.symm ▸ hc.within i p hp hi
  | crash i =>
    have hrest {j : ι} {p : Prog Op Reply ε α}
        (hp : Function.update c.calls i none j = some p) : c.calls j = some p := by
      by_cases h : j = i
      · subst h
        simp at hp
      · rwa [Function.update_of_ne h] at hp
    exact ⟨inside, hc.held, hc.begun, hc.free, fun j p hp => hc.within j p (hrest hp),
      fun j p hp => hc.without j p (hrest hp)⟩
  | step i o =>
    rcases hi : c.calls i with _ | ⟨a | e | ⟨op, next, failed⟩⟩
    · exact ⟨inside, by simpa only [Config.step, hi] using hc⟩
    · exact ⟨inside, by simpa only [Config.step, hi] using hc⟩
    · exact ⟨inside, by simpa only [Config.step, hi] using hc⟩
    · simp only [Assumption.Meets, hi] at hch
      by_cases hin : inside i
      · exact hc.step_inside hi hin (hok _ _ _ _ _ hch)
      · exact hc.step_outside hi hin o

theorem Monitored.run {A : Assumption ι Op Reply σ E ε}
    (hok : ∀ y l i op o, A.call y l i op o → ok y op o)
    (henv : ∀ z, A.env z → ∀ y k, M.resource k (B.env z y) = M.resource k y ∧
      M.holder k (B.env z y) = M.holder k y)
    (hc : M.Monitored B ok inv key inside c) (sched : List (Choice ι E ε))
    (hs : A.Along B c sched) : ∃ inside', M.Monitored B ok inv key inside' (c.run B sched) := by
  induction sched generalizing inside c with
  | nil => exact ⟨inside, hc⟩
  | cons ch sched ih =>
    obtain ⟨hch, hs⟩ := hs
    obtain ⟨inside', hc'⟩ := hc.step hok henv ch hch
    exact ih hc' hs

theorem monitored_start {y : σ} {calls : ι → Prog Op Reply ε α}
    (hinv : ∀ k, inv k (M.resource k y))
    (hcalls : ∀ i, M.Guarded B ok inv i (key i) (fun m _ => m = none) (calls i) none) :
    M.Monitored B ok inv key (fun _ => False) (Config.start y calls) := by
  refine ⟨fun i => False.elim, fun i => False.elim, fun k _ => hinv k, fun i p _ => False.elim, ?_⟩
  intro i p hp _
  cases hp
  exact hcalls i

end Run
end Monitor
end StockMarket.Interleaving
