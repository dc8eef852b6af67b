import StockMarket.Interleaving.Path

/-! # Locks that are entries with a token

A lock is an entry of the store. It is set to a client's token if there is no
entry, deleted by a release that finds its own token, and may expire. A client
tries its tokens one after another, runs its function once it has set the entry,
and releases the entry whatever the function's result.
-/

namespace StockMarket.Interleaving

universe u v s t w

/-- The operations on lock entries, and where the entries are. -/
structure Locks (Op : Type u) (Reply : Op → Type v) (σ : Type s) (κ : Type w)
    (τ : Type v) where
  acquire : κ → τ → Op
  release : κ → τ → Op
  granted : (k : κ) → (token : τ) → Reply (acquire k token) → Bool
  entry : σ → κ → Option τ

namespace Locks
variable {Op : Type u} {Reply : Op → Type v} {σ : Type s} {E : Type t} {κ : Type w} {τ ε α : Type v}
  (L : Locks Op Reply σ κ τ)

def Quiet (op : Op) : Prop := ∀ k token, op ≠ L.acquire k token ∧ op ≠ L.release k token

/-- The operation belongs to a client of the key with these tokens. -/
def Own (key : κ) (tokens : List τ) (op : Op) : Prop :=
  (∃ token ∈ tokens, op = L.acquire key token ∨ op = L.release key token) ∨ L.Quiet op

/-- An attempt was granted. -/
def Granted (key : κ) (token : τ) (h : List (Reaction Op Reply)) : Prop :=
  ∃ reply, ⟨L.acquire key token, reply⟩ ∈ h ∧ L.granted key token reply = true

/-- The operations on locks tell which lock and which token. -/
structure Distinct : Prop where
  acquire : ∀ {k k' token token'}, L.acquire k token = L.acquire k' token' → k = k' ∧ token = token'
  release : ∀ {k k' token token'}, L.release k token = L.release k' token' → k = k' ∧ token = token'
  acquire_release : ∀ k k' token token', L.acquire k token ≠ L.release k' token'

/-- Acquire and release are atomic, and nothing else changes entries but their expiry. -/
structure Lawful [DecidableEq κ] [DecidableEq τ] (B : Backend Op Reply σ E)
    (expires : E → κ → Prop) : Prop extends L.Distinct where
  granted : ∀ k token y, L.granted k token (B.exec (L.acquire k token) y).1 =
    (L.entry y k).isNone
  acquired : ∀ k token y, L.entry (B.exec (L.acquire k token) y).2 =
    if L.entry y k = none then Function.update (L.entry y) k (some token) else L.entry y
  released : ∀ k token y, L.entry (B.exec (L.release k token) y).2 =
    if L.entry y k = some token then Function.update (L.entry y) k none else L.entry y
  quiet : ∀ op y, L.Quiet op → L.entry (B.exec op y).2 = L.entry y
  env : ∀ x y k, L.entry (B.env x y) k = L.entry y k ∨ expires x k ∧ L.entry (B.env x y) k = none

section Programs
open Prog

/-- Tries the tokens until one is granted. -/
def tryAll (key : κ) : List τ → Prog Op Reply ε (Option τ)
  | [] => pure none
  | token :: tokens => do
      let reply ← send (L.acquire key token)
      if L.granted key token reply then pure (some token) else tryAll key tokens

def enter (key : κ) (token : τ) (fn : Prog Op Reply ε α) : Prog Op Reply ε α :=
  finallyDo fn (send (L.release key token))

/-- The function under the lock, or the error that it cannot be had. -/
def under (key : κ) (refused : ε) (fn : Prog Op Reply ε α) : Option τ → Prog Op Reply ε α
  | none => .raise refused
  | some token => L.enter key token fn

/-- A client that runs the function under the lock of the key. -/
def guard (key : κ) (tokens : List τ) (refused : ε) (fn : Prog Op Reply ε α) :
    Prog Op Reply ε α :=
  L.tryAll key tokens >>= L.under key refused fn

/-- Attempts that were all refused, newest first. -/
def Refused (key : κ) (tokens : List τ) (tried : List (Reaction Op Reply)) : Prop :=
  ∀ x ∈ tried, ∃ token ∈ tokens, ∃ reply,
    x = ⟨L.acquire key token, reply⟩ ∧ L.granted key token reply = false

variable (ends : Op → Outcome ε → Prop) (key : κ) (tokens : List τ) (refused : ε)
  (fn : Prog Op Reply ε α)

/-- What a client has had carried out, newest first, and what is left of it. -/
inductive Course : List (Reaction Op Reply) → Prog Op Reply ε α → Prop
  | trying (tried : List (Reaction Op Reply)) (left : List τ)
      (hrefused : L.Refused key tokens tried)
      (hlength : tried.length + left.length = tokens.length) (hleft : left ⊆ tokens) :
      Course tried (L.tryAll key left >>= L.under key refused fn)
  | unlocked (tried : List (Reaction Op Reply)) (e : ε) (hrefused : L.Refused key tokens tried)
      (hlength : tried.length ≤ tokens.length) : Course tried (.raise e)
  | unanswered (tried : List (Reaction Op Reply)) (token : τ) (reply : Reply (L.acquire key token))
      (e : ε) (hrefused : L.Refused key tokens tried) (hlength : tried.length < tokens.length)
      (htoken : token ∈ tokens) (hends : ends (L.acquire key token) (.lost e)) :
      Course (⟨L.acquire key token, reply⟩ :: tried) (.raise e)
  | inside (tried body : List (Reaction Op Reply)) (token : τ)
      (reply : Reply (L.acquire key token)) (f : Prog Op Reply ε α)
      (hrefused : L.Refused key tokens tried) (hlength : tried.length < tokens.length)
      (htoken : token ∈ tokens) (hgranted : L.granted key token reply = true)
      (hpath : fn.Path ends body f) :
      Course (body ++ ⟨L.acquire key token, reply⟩ :: tried) (L.enter key token f)
  | released (tried body : List (Reaction Op Reply)) (token : τ)
      (reply : Reply (L.acquire key token)) (res res' : Except ε α)
      (done : Reply (L.release key token)) (hrefused : L.Refused key tokens tried)
      (hlength : tried.length < tokens.length) (htoken : token ∈ tokens)
      (hgranted : L.granted key token reply = true) (hpath : fn.Path ends body (ofExcept res)) :
      Course (⟨L.release key token, done⟩ :: (body ++ ⟨L.acquire key token, reply⟩ :: tried))
        (ofExcept res')
  | unreleased (tried body : List (Reaction Op Reply)) (token : τ)
      (reply : Reply (L.acquire key token)) (res : Except ε α) (e : ε)
      (hrefused : L.Refused key tokens tried) (hlength : tried.length < tokens.length)
      (htoken : token ∈ tokens) (hgranted : L.granted key token reply = true)
      (hpath : fn.Path ends body (ofExcept res)) (hends : ends (L.release key token) (.failed e)) :
      Course (body ++ ⟨L.acquire key token, reply⟩ :: tried) (.raise e)

variable {L ends key tokens refused fn} {h : List (Reaction Op Reply)} {q : Prog Op Reply ε α}

theorem Refused.cons {tried : List (Reaction Op Reply)} (h : L.Refused key tokens tried) {token : τ}
    (htoken : token ∈ tokens) {reply : Reply (L.acquire key token)}
    (hno : L.granted key token reply = false) :
    L.Refused key tokens (⟨L.acquire key token, reply⟩ :: tried) := by
  intro x hx
  rcases List.mem_cons.mp hx with rfl | hx
  · exact ⟨token, htoken, reply, rfl, hno⟩
  · exact h x hx

theorem Course.move {op : Op} {next : Reply op → Prog Op Reply ε α}
    {failed : ε → Prog Op Reply ε α}
    (hc : L.Course ends key tokens refused fn h (.call op next failed)) :
    (ends op .done → ∀ r, L.Course ends key tokens refused fn (⟨op, r⟩ :: h) (next r)) ∧
      (∀ e, ends op (.failed e) → L.Course ends key tokens refused fn h (failed e)) ∧
      ∀ e, ends op (.lost e) → ∀ r,
        L.Course ends key tokens refused fn (⟨op, r⟩ :: h) (failed e) := by
  generalize hq : Prog.call op next failed = q at hc
  cases hc with
  | unlocked => cases hq
  | unanswered => cases hq
  | unreleased => cases hq
  | released tried body token reply res res' done => cases res' <;> cases hq
  | trying tried left hrefused hlength hleft =>
    rcases left with _ | ⟨token, left⟩
    · cases hq
    cases hq
    have htoken : token ∈ tokens := hleft List.mem_cons_self
    rw [List.length_cons] at hlength
    have hlt : h.length < tokens.length := by omega
    refine ⟨fun _ r => ?_, fun e _ => .unlocked h e hrefused (Nat.le_of_lt hlt), fun e hend r =>
      .unanswered h token r e hrefused hlt htoken hend⟩
    change L.Course ends key tokens refused fn _ ((if L.granted key token r then pure (some token)
      else L.tryAll key left) >>= L.under key refused fn)
    split
    · rename_i hgranted
      exact .inside h [] token r fn hrefused hlt htoken hgranted .refl
    · rename_i hno
      refine .trying _ left (hrefused.cons htoken (Bool.eq_false_iff.mpr hno)) ?_ fun x hx =>
        hleft (List.mem_cons_of_mem _ hx)
      rw [List.length_cons]
      omega
  | inside tried body token reply f hrefused hlength htoken hgranted hpath =>
    rcases f with a | e | ⟨_, next', failed'⟩
    · cases hq
      exact ⟨fun _ done => .released tried body token reply (.ok a) (.ok a) done hrefused hlength
          htoken hgranted hpath,
        fun e hend => .unreleased tried body token reply (.ok a) e hrefused hlength htoken hgranted
          hpath hend,
        fun e _ done => .released tried body token reply (.ok a) (.error e) done hrefused hlength
          htoken hgranted hpath⟩
    · cases hq
      exact ⟨fun _ done => .released tried body token reply (.error e) (.error e) done hrefused
          hlength htoken hgranted hpath,
        fun e' hend => .unreleased tried body token reply (.error e) e' hrefused hlength htoken
          hgranted hpath hend,
        fun e' _ done => .released tried body token reply (.error e) (.error e') done hrefused
          hlength htoken hgranted hpath⟩
    · cases hq
      exact ⟨fun hend r => .inside tried (⟨op, r⟩ :: body) token reply _ hrefused hlength htoken
          hgranted (hpath.done r hend),
        fun e hend => .inside tried body token reply _ hrefused hlength htoken hgranted
          (hpath.failed e hend),
        fun e hend r => .inside tried (⟨op, r⟩ :: body) token reply _ hrefused hlength htoken
          hgranted (hpath.lost r e hend)⟩

theorem Refused.not_granted (hL : L.Distinct) {tried : List (Reaction Op Reply)}
    (h : L.Refused key tokens tried) (token : τ) : ¬L.Granted key token tried := by
  rintro ⟨reply, hmem, hgranted⟩
  obtain ⟨_, -, reply', heq, hno⟩ := h _ hmem
  obtain ⟨-, rfl⟩ := hL.acquire (congrArg Reaction.op heq)
  cases heq
  simp [hgranted] at hno

theorem course_of_path (hpath : (L.guard key tokens refused fn).Path ends h q) :
    L.Course ends key tokens refused fn h q := by
  induction hpath with
  | refl =>
    refine .trying [] tokens (fun x hx => ?_) (Nat.zero_add _) fun _ hx => hx
    cases hx
  | done r _ hends ih => exact ih.move.1 hends r
  | failed e _ hends ih => exact ih.move.2.1 e hends
  | lost r e _ hends ih => exact ih.move.2.2 e hends r

theorem sends_guard (hfn : fn.Sends L.Quiet) :
    (L.guard key tokens refused fn).Sends (L.Own key tokens) := by
  have htry (left : List τ) (hleft : left ⊆ tokens) :
      (L.tryAll key left >>= L.under key refused fn).Sends (L.Own key tokens) := by
    induction left with
    | nil => trivial
    | cons token left ih =>
      have htoken : token ∈ tokens := hleft List.mem_cons_self
      refine ⟨.inl ⟨token, htoken, .inl rfl⟩, ?_, fun _ => trivial⟩
      intro r
      change Sends _ ((if L.granted key token r then pure (some token)
        else L.tryAll key left) >>= L.under key refused fn)
      split
      · change Sends _ (L.enter key token fn)
        refine Sends.handle (hfn.mono fun op hop => Or.inr hop) ?_
        intro res
        exact ⟨.inl ⟨token, htoken, .inr rfl⟩, fun _ => by cases res <;> trivial, fun _ => trivial⟩
      · exact ih fun x hx => hleft (List.mem_cons_of_mem _ hx)
  exact htry tokens fun _ hx => hx

/-- What a client does next: an attempt when nothing was granted or released, the release
of what it was granted, which ends it, or an operation of its function. -/
theorem Course.next (hL : L.Distinct) {op : Op} {next : Reply op → Prog Op Reply ε α}
    {failed : ε → Prog Op Reply ε α} (hfn : fn.Sends L.Quiet)
    (hc : L.Course ends key tokens refused fn h (.call op next failed)) :
    (∃ token ∈ tokens, op = L.acquire key token ∧ (∀ token, ¬L.Granted key token h) ∧
        ∀ token r, ⟨L.release key token, r⟩ ∉ h) ∨
      (∃ token ∈ tokens, op = L.release key token ∧ (∀ r, (next r).Ended) ∧
        ∀ e, (failed e).Ended) ∨
      L.Quiet op := by
  generalize hq : Prog.call op next failed = q at hc
  cases hc with
  | unlocked => cases hq
  | unanswered => cases hq
  | unreleased => cases hq
  | released tried body token reply res res' done => cases res' <;> cases hq
  | trying tried left hrefused hlength hleft =>
    rcases left with _ | ⟨token, left⟩
    · cases hq
    cases hq
    refine .inl ⟨token, hleft List.mem_cons_self, rfl, hrefused.not_granted hL,
      fun token' r hmem => ?_⟩
    obtain ⟨_, -, reply', heq, -⟩ := hrefused _ hmem
    exact hL.acquire_release _ _ _ _ (congrArg Reaction.op heq).symm
  | inside tried body token reply f hrefused hlength htoken hgranted hpath =>
    rcases f with a | e | ⟨_, next', failed'⟩
    · cases hq
      exact .inr (.inl ⟨token, htoken, rfl, fun _ => ⟨.ok a, rfl⟩, fun e => ⟨.error e, rfl⟩⟩)
    · cases hq
      exact .inr (.inl ⟨token, htoken, rfl, fun _ => ⟨.error e, rfl⟩, fun e => ⟨.error e, rfl⟩⟩)
    · cases hq
      exact .inr (.inr (hpath.sends hfn).1.1)

/-- Where every operation on locks is answered, a client that has ended has released what
it was granted. -/
theorem Course.release_mem (hL : L.Distinct) (hfn : fn.Sends L.Quiet)
    (hends : ∀ op o, ends op o → L.Quiet op ∨ o = .done) {res : Except ε α}
    (hc : L.Course ends key tokens refused fn h (ofExcept res)) {token : τ}
    (hgranted : L.Granted key token h) : ∃ r, ⟨L.release key token, r⟩ ∈ h := by
  generalize hq : ofExcept res = q at hc
  cases hc with
  | trying tried left hrefused => exact absurd hgranted (hrefused.not_granted hL token)
  | unlocked tried e hrefused => exact absurd hgranted (hrefused.not_granted hL token)
  | unanswered tried token' reply e hrefused hlength htoken hend =>
    rcases hends _ _ hend with hquiet | hdone
    · exact absurd rfl (hquiet key token').1
    · cases hdone
  | unreleased tried body token' reply res' e hrefused hlength htoken hg hpath hend =>
    rcases hends _ _ hend with hquiet | hdone
    · exact absurd rfl (hquiet key token').2
    · cases hdone
  | inside tried body token' reply f =>
    cases f <;> cases res <;> cases hq
  | released tried body token' reply res' res'' done hrefused hlength htoken hg hpath =>
    obtain ⟨reply', hmem, hreply'⟩ := hgranted
    rcases List.mem_cons.mp hmem with heq | hmem
    · exact absurd (congrArg Reaction.op heq) (hL.acquire_release _ _ _ _)
    rcases List.mem_append.mp hmem with hbody | hmem
    · exact absurd rfl ((hpath.sends hfn).2 _ hbody key token).1
    rcases List.mem_cons.mp hmem with heq | htried
    · obtain ⟨-, rfl⟩ := hL.acquire (congrArg Reaction.op heq)
      exact ⟨done, List.mem_cons_self⟩
    · exact absurd ⟨reply', htried, hreply'⟩ (hrefused.not_granted hL token)

end Programs

section Pool
variable {ι : Type t} [DecidableEq ι] [DecidableEq κ] [DecidableEq τ] (key : ι → κ)

/-- The call has been granted its lock and goes on to an operation of its function. -/
def Inside (c : Config ι Op Reply σ ε α) (i : ι) : Prop :=
  (∃ token, L.Granted (key i) token (own i c.log)) ∧ ∃ op, c.Sending i op ∧ L.Quiet op

def Held (c : Config ι Op Reply σ ε α) : Prop :=
  ∀ i token, L.Inside key c i → L.Granted (key i) token (own i c.log) →
    L.entry c.store (key i) = some token

/-- Once released, an entry does not hold the token any more. -/
def Gone (c : Config ι Op Reply σ ε α) : Prop :=
  ∀ i token r, ⟨L.release (key i) token, r⟩ ∈ own i c.log → L.entry c.store (key i) ≠ some token

variable {L key} {B : Backend Op Reply σ E} {expires : E → κ → Prop} {tokens : ι → List τ}
  {refused : ε} {fn : ι → Prog Op Reply ε α} {c : Config ι Op Reply σ ε α}
  {ends : Op → Outcome ε → Prop}

/-- A client's operation leaves an entry that holds another token than its own. -/
theorem Lawful.foreign (hB : L.Lawful B expires) {k k' : κ} {token : τ} {mine : List τ} {op : Op}
    {y : σ} (hop : L.Own k' mine op) (htoken : token ∉ mine) (hentry : L.entry y k = some token) :
    L.entry (B.exec op y).2 k = some token := by
  rcases hop with ⟨token', htoken', rfl | rfl⟩ | hquiet
  · rw [hB.acquired]
    split
    · rename_i hfree
      rw [Function.update_of_ne, hentry]
      rintro rfl
      simp [hfree] at hentry
    · exact hentry
  · rw [hB.released]
    split
    · rename_i hheld
      rw [Function.update_of_ne, hentry]
      rintro rfl
      rw [hentry, Option.some.injEq] at hheld
      exact htoken (hheld ▸ htoken')
    · exact hentry
  · rw [hB.quiet _ _ hquiet, hentry]

variable (hB : L.Lawful B expires) (hfn : ∀ i, (fn i).Sends L.Quiet)
  (hdisjoint : ∀ i j token, token ∈ tokens i → token ∈ tokens j → i = j)
  (hc : c.Traveled ends fun i => L.guard (key i) (tokens i) refused (fn i))
include hc hfn

omit [DecidableEq κ] [DecidableEq τ] in
theorem own_sending {i : ι} {op : Op} (h : c.Sending i op) : L.Own (key i) (tokens i) op := by
  obtain ⟨next, failed, hi⟩ := h
  exact ((hc.path hi).sends (sends_guard (hfn i))).1.1

omit [DecidableEq κ] [DecidableEq τ] in
theorem mem_granted {i : ι} {token : τ} (h : L.Granted (key i) token (own i c.log))
    (hL : L.Distinct) : token ∈ tokens i := by
  obtain ⟨q, hpath, -⟩ := hc i
  obtain ⟨reply, hmem, -⟩ := h
  rcases (hpath.sends (sends_guard (hfn i))).2 _ hmem with ⟨token', htoken', hop | hop⟩ | hquiet
  · exact (hL.acquire hop).2 ▸ htoken'
  · exact absurd hop (hL.acquire_release _ _ _ _)
  · exact absurd rfl (hquiet (key i) token).1

omit [DecidableEq κ] [DecidableEq τ] in
theorem mem_released {i : ι} {token : τ} {r : Reply (L.release (key i) token)}
    (h : ⟨L.release (key i) token, r⟩ ∈ own i c.log) (hL : L.Distinct) : token ∈ tokens i := by
  obtain ⟨q, hpath, -⟩ := hc i
  rcases (hpath.sends (sends_guard (hfn i))).2 _ h with ⟨token', htoken', hop | hop⟩ | hquiet
  · exact absurd hop.symm (hL.acquire_release _ _ _ _)
  · exact (hL.release hop).2 ▸ htoken'
  · exact absurd rfl (hquiet (key i) token).2

include hB

theorem foreign_step {i : ι} {o : Outcome ε} {k : κ} {token : τ} (hother : token ∉ tokens i)
    (hentry : L.entry c.store k = some token) :
    L.entry (c.step B (.step i o)).store k = some token := by
  rcases hi : c.calls i with _ | ⟨a | e | ⟨op, next, failed⟩⟩
  · simpa only [Config.step, hi] using hentry
  · simpa only [Config.step, hi] using hentry
  · simpa only [Config.step, hi] using hentry
  · rcases Config.step_call (B := B) hi o with ⟨hstore, -⟩ | ⟨hstore, -⟩ <;> rw [hstore]
    · exact hentry
    · exact hB.foreign (own_sending hfn hc ⟨next, failed, hi⟩) hother hentry

theorem held_mover (hheld : L.Held key c) {i : ι} {op : Op} {next : Reply op → Prog Op Reply ε α}
    {failed : ε → Prog Op Reply ε α} (hi : c.calls i = some (.call op next failed)) {o : Outcome ε}
    {token : τ} (hin : L.Inside key (c.step B (.step i o)) i)
    (hgranted : L.Granted (key i) token (own i (c.step B (.step i o)).log)) :
    L.entry (c.step B (.step i o)).store (key i) = some token := by
  obtain ⟨-, op', ⟨next', failed', hi'⟩, -⟩ := hin
  have hsends {p : Prog Op Reply ε α} (hp : (c.step B (.step i o)).calls i = some p) :
      ¬p.Ended := by
    rintro hended
    obtain rfl := Option.some.inj (hp.symm.trans hi')
    exact hended.not_call
  have hbefore (hquiet : L.Quiet op) (hg : L.Granted (key i) token (own i c.log)) :
      L.entry c.store (key i) = some token :=
    hheld i token ⟨⟨token, hg⟩, op, ⟨next, failed, hi⟩, hquiet⟩ hg
  have hnext := (course_of_path (hc.path hi)).next hB.toDistinct (hfn i)
  rcases Config.step_call (B := B) hi o with ⟨hstore, hlog, e, hcall⟩ | ⟨hstore, hlog, hcall⟩
  · rw [hlog] at hgranted
    rcases hnext with ⟨_, -, -, hno, -⟩ | ⟨_, -, -, -, hfailed⟩ | hquiet
    · exact absurd hgranted (hno token)
    · exact absurd (hfailed e) (hsends hcall)
    · rw [hstore, hbefore hquiet hgranted]
  · obtain ⟨reply, hmem, hreply⟩ := hgranted
    rw [hlog, own_cons_self] at hmem
    rcases hnext with ⟨mine, -, rfl, hno, -⟩ | ⟨_, -, -, hdone, hfailed⟩ | hquiet
    · rcases List.mem_cons.mp hmem with heq | hold
      · obtain ⟨-, rfl⟩ := hB.acquire (congrArg Reaction.op heq)
        cases heq
        rw [hB.granted, Option.isNone_iff_eq_none] at hreply
        rw [hstore, hB.acquired, if_pos hreply, Function.update_self]
      · exact absurd ⟨reply, hold, hreply⟩ (hno token)
    · rcases hcall with hcall | ⟨e, hcall⟩
      · exact absurd (hdone _) (hsends hcall)
      · exact absurd (hfailed e) (hsends hcall)
    · rcases List.mem_cons.mp hmem with heq | hold
      · exact absurd (congrArg Reaction.op heq).symm (hquiet (key i) token).1
      · rw [hstore, hB.quiet _ _ hquiet, hbefore hquiet ⟨reply, hold, hreply⟩]

include hdisjoint

theorem Held.step (hheld : L.Held key c) (ch : Choice ι E ε)
    (hexpire : ∀ y, ch = .env y → ∀ i token, L.Inside key c i → token ∈ tokens i →
      L.entry c.store (key i) = some token → ¬expires y (key i)) :
    L.Held key (c.step B ch) := by
  cases ch with
  | crash j =>
    rintro i token ⟨hgranted, op, ⟨next, failed, hi⟩, hquiet⟩
    refine hheld i token ⟨hgranted, op, ⟨next, failed, ?_⟩, hquiet⟩
    by_cases hij : i = j
    · simp [Config.step, hij] at hi
    · simpa [Config.step, hij] using hi
  | env y =>
    intro i token hin hgranted
    have hentry := hheld i token hin hgranted
    rcases hB.env y c.store (key i) with hsame | ⟨hexpires, -⟩
    · exact hsame.trans hentry
    · exact absurd hexpires
        (hexpire y rfl i token hin (mem_granted hfn hc hgranted hB.toDistinct) hentry)
  | step j o =>
    rcases hj : c.calls j with _ | ⟨a | e | ⟨op, next, failed⟩⟩
    · simpa only [Config.step, hj] using hheld
    · simpa only [Config.step, hj] using hheld
    · simpa only [Config.step, hj] using hheld
    intro i token hin hgranted
    by_cases hij : i = j
    · subst hij
      exact held_mover hB hfn hc hheld hj hin hgranted
    · obtain ⟨hcalls, hown⟩ := Config.step_others (B := B) c hij o
      rw [hown] at hgranted
      have hentry : L.entry c.store (key i) = some token := by
        obtain ⟨-, op', ⟨next', failed', hi⟩, hquiet⟩ := hin
        exact hheld i token ⟨⟨token, hgranted⟩, op', ⟨next', failed', hcalls ▸ hi⟩, hquiet⟩ hgranted
      rcases Config.step_call (B := B) hj o with ⟨hstore, -⟩ | ⟨hstore, -⟩
      · rw [hstore, hentry]
      · rw [hstore]
        refine hB.foreign (own_sending hfn hc ⟨next, failed, hj⟩) (fun htoken => hij ?_) hentry
        exact hdisjoint i j token (mem_granted hfn hc hgranted hB.toDistinct) htoken

theorem Gone.step (hgone : L.Gone key c) (ch : Choice ι E ε) : L.Gone key (c.step B ch) := by
  cases ch with
  | crash j => exact hgone
  | env y =>
    intro i token r hmem
    rcases hB.env y c.store (key i) with hsame | ⟨-, hnone⟩
    · exact fun hentry => hgone i token r hmem (hsame.symm.trans hentry)
    · exact fun hentry => by cases hnone.symm.trans hentry
  | step j o =>
    rcases hj : c.calls j with _ | ⟨a | e | ⟨op, next, failed⟩⟩
    · simpa only [Config.step, hj] using hgone
    · simpa only [Config.step, hj] using hgone
    · simpa only [Config.step, hj] using hgone
    intro i token r hmem hentry
    rcases Config.step_call (B := B) hj o with ⟨hstore, hlog, -⟩ | ⟨hstore, hlog, -⟩
    · rw [hlog] at hmem
      exact hgone i token r hmem (hstore ▸ hentry)
    rw [hlog, mem_own_cons] at hmem
    rw [hstore] at hentry
    rcases (course_of_path (hc.path hj)).next hB.toDistinct (hfn j) with
      ⟨mine, hmine, rfl, -, hno⟩ | ⟨mine, -, rfl, -⟩ | hquiet
    · have hold := hmem.resolve_left fun h =>
        hB.acquire_release _ _ _ _ (congrArg Reaction.op h.2).symm
      rw [hB.acquired] at hentry
      split at hentry
      · by_cases hk : key i = key j
        · rw [hk, Function.update_self, Option.some.injEq] at hentry
          obtain rfl := hdisjoint i j token (mem_released hfn hc hold hB.toDistinct)
            (hentry ▸ hmine)
          exact hno token r hold
        · rw [Function.update_of_ne hk] at hentry
          exact hgone i token r hold hentry
      · exact hgone i token r hold hentry
    · rw [hB.released] at hentry
      split at hentry
      · by_cases hk : key i = key j
        · simp [hk] at hentry
        · rw [Function.update_of_ne hk] at hentry
          exact hgone i token r (hmem.resolve_left fun h => hk (congrArg key h.1.symm)) hentry
      · rename_i hother
        refine hgone i token r (hmem.resolve_left fun h => hother ?_) hentry
        obtain ⟨hk, rfl⟩ := hB.release (congrArg Reaction.op h.2)
        rw [← hk, hentry]
    · have hold := hmem.resolve_left fun h =>
        (hquiet (key i) token).2 (congrArg Reaction.op h.2).symm
      rw [hB.quiet _ _ hquiet] at hentry
      exact hgone i token r hold hentry

omit hc hB hfn hdisjoint

def answering (L : Locks Op Reply σ κ τ) : Assumption ι Op Reply σ E ε where
  call _ _ _ op o := L.Quiet op ∨ o = .done
  env _ := True

/-- What the locks give to clients that run their functions under them. -/
structure MutualExclusion (L : Locks Op Reply σ κ τ) (B : Backend Op Reply σ E)
    (expires : E → κ → Prop) (key : ι → κ) (tokens : ι → List τ) (refused : ε)
    (fn calls : ι → Prog Op Reply ε α) (store : σ) (sched : List (Choice ι E ε)) : Prop where
  /-- No step of a client touches an entry that holds the token of another. -/
  foreign : ∀ i o k token, token ∉ tokens i →
    L.entry ((Config.start store calls).run B sched).store k = some token →
      L.entry (((Config.start store calls).run B sched).step B (.step i o)).store k = some token
  /-- Of the clients of a key at most one is inside, as long as no entry expires while its
  holder is inside. -/
  exclusive : (∀ before y later, sched = before ++ .env y :: later → ∀ i token, token ∈ tokens i →
      L.entry ((Config.start store calls).run B before).store (key i) = some token →
      L.Inside key ((Config.start store calls).run B before) i → ¬expires y (key i)) →
    ∀ i j, L.Inside key ((Config.start store calls).run B sched) i →
      L.Inside key ((Config.start store calls).run B sched) j → key i = key j → i = j
  /-- Every client is on its course: the function runs once, after an attempt was granted. -/
  course : ∀ i, ∃ q, L.Course (fun _ _ => True) (key i) (tokens i) refused (fn i)
    (own i ((Config.start store calls).run B sched).log) q ∧
      ∀ p, ((Config.start store calls).run B sched).calls i = some p → p = q
  /-- Whoever has ended has released its entry, whatever its result. -/
  released : (answering L).Along B (Config.start store calls) sched → ∀ i res token,
    ((Config.start store calls).run B sched).result i = some res →
      L.Granted (key i) token (own i ((Config.start store calls).run B sched).log) →
        (∃ r, ⟨L.release (key i) token, r⟩ ∈
          own i ((Config.start store calls).run B sched).log) ∧
        L.entry ((Config.start store calls).run B sched).store (key i) ≠ some token

/-- Clients with different tokens that run their functions under the locks. -/
theorem mutualExclusion (hB : L.Lawful B expires) (hfn : ∀ i, (fn i).Sends L.Quiet)
    (hdisjoint : ∀ i j token, token ∈ tokens i → token ∈ tokens j → i = j) (store : σ)
    (sched : List (Choice ι E ε)) :
    MutualExclusion L B expires key tokens refused fn
      (fun i => L.guard (key i) (tokens i) refused (fn i)) store sched := by
  let calls : ι → Prog Op Reply ε α := fun i => L.guard (key i) (tokens i) refused (fn i)
  let free : Assumption ι Op Reply σ E ε := ⟨fun _ _ _ _ _ => True, fun _ => True⟩
  have htraveled (s : List (Choice ι E ε)) :
      ((Config.start store calls).run B s).Traveled (fun _ _ => True) calls :=
    Config.traveled_run (A := free) (fun _ _ _ _ _ _ => trivial) (Config.traveled_start store) s
      (Assumption.along_of_forall B free (fun _ _ _ _ _ => trivial) (fun _ => trivial) _ s)
  refine ⟨?_, ?_, ?_, ?_⟩
  · intro i o k token hother hentry
    exact foreign_step hB hfn (htraveled sched) hother hentry
  · intro hexpire i j hi hj hkey
    have hheld : L.Held key ((Config.start store calls).run B sched) := by
      clear hi hj
      induction sched using List.reverseRecOn with
      | nil => exact fun i token hin => absurd hin.1 fun ⟨_, _, hmem, _⟩ => List.not_mem_nil hmem
      | append_singleton sched ch ih =>
        rw [Config.run_append, Config.run_cons, Config.run_nil]
        refine (ih fun before y later hs => ?_).step hB hfn hdisjoint (htraveled sched) ch ?_
        · exact hexpire before y (later ++ [ch]) (by rw [hs, List.append_assoc]; rfl)
        · rintro y rfl i token hin htoken hentry
          exact hexpire sched y [] rfl i token htoken hentry hin
    obtain ⟨token, hgi⟩ := hi.1
    obtain ⟨token', hgj⟩ := hj.1
    have hsame := hheld j token' hj hgj
    rw [← hkey, hheld i token hi hgi, Option.some.injEq] at hsame
    refine hdisjoint i j token (mem_granted hfn (htraveled sched) hgi hB.toDistinct) ?_
    exact hsame ▸ mem_granted hfn (htraveled sched) hgj hB.toDistinct
  · intro i
    obtain ⟨q, hpath, honly⟩ := htraveled sched i
    exact ⟨q, course_of_path hpath, honly⟩
  · intro hanswered i res token hres hgranted
    have hgone : L.Gone key ((Config.start store calls).run B sched) := by
      clear hanswered hres hgranted
      induction sched using List.reverseRecOn with
      | nil => exact fun i token r hmem => absurd hmem List.not_mem_nil
      | append_singleton sched ch ih =>
        rw [Config.run_append, Config.run_cons, Config.run_nil]
        exact ih.step hB hfn hdisjoint (htraveled sched) ch
    have hended : ((Config.start store calls).run B sched).Traveled
        (fun op o => L.Quiet op ∨ o = .done) calls :=
      Config.traveled_run (fun _ _ _ _ _ h => h) (Config.traveled_start store) sched hanswered
    have hpath := hended.path (Config.result_eq_some.mp hres)
    obtain ⟨r, hr⟩ := (course_of_path hpath).release_mem hB.toDistinct (hfn i) (fun _ _ h => h)
      hgranted
    exact ⟨⟨r, hr⟩, hgone i token r hr⟩

end Pool
end Locks
end StockMarket.Interleaving
