import StockMarket.Interleaving.Pool
import Mathlib.Algebra.Order.BigOperators.Group.Finset

/-! # Sums over the calls of a pool

What each call has done is read off its own history. Its sum over all calls of
the log changes, with every operation carried out, by what that operation has
changed for its sender.
-/

namespace StockMarket.Interleaving

universe u v t w

variable {ι : Type t} {Op : Type u} {Reply : Op → Type v} {M : Type w} [DecidableEq ι]
  [AddCommGroup M] {f : ι → List (Reaction Op Reply) → M} {log : List (Entry ι Op Reply)}

/-- The calls that have had an operation carried out. -/
def callers (log : List (Entry ι Op Reply)) : Finset ι := (log.map Entry.caller).toFinset

/-- A quantity of every call's own history, summed over the calls. -/
def tally (f : ι → List (Reaction Op Reply) → M) (log : List (Entry ι Op Reply)) : M :=
  ∑ i ∈ callers log, f i (own i log)

theorem own_eq_nil {i : ι} (h : i ∉ callers log) : own i log = [] := by
  rw [List.eq_nil_iff_forall_not_mem]
  intro x hx
  apply h
  simp only [callers, List.mem_toFinset, List.mem_map]
  exact ⟨_, mem_own.mp hx, rfl⟩

/-- Calls that have done nothing may be counted as well. -/
theorem tally_eq_sum (h0 : ∀ i, f i [] = 0) {s : Finset ι} (hs : callers log ⊆ s) :
    tally f log = ∑ i ∈ s, f i (own i log) :=
  Finset.sum_subset hs fun i _ hi => by rw [own_eq_nil hi, h0]

theorem tally_cons (h0 : ∀ i, f i [] = 0) (i : ι) (x : Reaction Op Reply)
    (log : List (Entry ι Op Reply)) :
    tally f (⟨i, x⟩ :: log) = tally f log + (f i (x :: own i log) - f i (own i log)) := by
  have hmem : i ∈ insert i (callers log) := Finset.mem_insert_self ..
  have hcallers : callers (⟨i, x⟩ :: log) = insert i (callers log) := by simp [callers]
  have hothers : ∑ j ∈ (insert i (callers log)).erase i, f j (own j (⟨i, x⟩ :: log)) =
      ∑ j ∈ (insert i (callers log)).erase i, f j (own j log) :=
    Finset.sum_congr rfl fun j hj => by rw [own_cons_ne (Finset.ne_of_mem_erase hj).symm]
  rw [tally, hcallers, tally_eq_sum h0 (Finset.subset_insert i _),
    ← Finset.sum_erase_add _ _ hmem, ← Finset.sum_erase_add _ _ hmem, hothers, own_cons_self,
    add_assoc, add_sub_cancel]

theorem sum_eq_tally (g : Reaction Op Reply → M) (log : List (Entry ι Op Reply)) :
    (log.map fun e => g e.reaction).sum = tally (fun _ h => (h.map g).sum) log := by
  induction log with
  | nil => rfl
  | cons e log ih =>
    obtain ⟨i, x⟩ := e
    rw [tally_cons fun _ => rfl, List.map_cons, List.sum_cons, ih, List.map_cons, List.sum_cons,
      add_sub_cancel_right, add_comm]

theorem tally_congr {g : ι → List (Reaction Op Reply) → M}
    (h : ∀ i, f i (own i log) = g i (own i log)) : tally f log = tally g log :=
  Finset.sum_congr rfl fun i _ => h i

theorem tally_mono [PartialOrder M] [IsOrderedAddMonoid M] {g : ι → List (Reaction Op Reply) → M}
    (h : ∀ i, f i (own i log) ≤ g i (own i log)) : tally f log ≤ tally g log :=
  Finset.sum_le_sum fun i _ => h i

section Counts
variable (P : Reaction Op Reply → Bool) (x : Reaction Op Reply) (log)

/-- A tally of the operations of a kind counts one more of them. -/
theorem tally_countP_cons (i : ι) :
    tally (fun _ h => (h.countP P : ℤ)) (⟨i, x⟩ :: log) =
      tally (fun _ h => (h.countP P : ℤ)) log + if P x then 1 else 0 := by
  rw [tally_cons fun _ => rfl, List.countP_cons, Int.natCast_add, add_sub_cancel_left]
  split <;> rfl

theorem countP_own_le (i j : ι) : (own j log).countP P ≤ (own j (⟨i, x⟩ :: log)).countP P := by
  by_cases hj : i = j
  · subst hj
    rw [own_cons_self, List.countP_cons]
    exact Nat.le_add_right _ _
  · rw [own_cons_ne hj]

variable {P x} in
theorem countP_own_of_not (hx : ¬P x) (i j : ι) :
    (own j (⟨i, x⟩ :: log)).countP P = (own j log).countP P := by
  by_cases hj : i = j
  · subst hj
    rw [own_cons_self, List.countP_cons_of_neg hx]
  · rw [own_cons_ne hj]

end Counts

section Once
variable {α κ N : Type*} [AddCommMonoid N]

theorem sum_map_ite (l : List α) (s : Finset κ) (w : κ → N) (p : κ → α → Bool) :
    (l.map fun x => ∑ n ∈ s, if p n x then w n else 0).sum = ∑ n ∈ s, l.countP (p n) • w n := by
  induction l with
  | nil => simp
  | cons x l ih =>
    rw [List.map_cons, List.sum_cons, ih, ← Finset.sum_add_distrib]
    refine Finset.sum_congr rfl ?_
    intro n _
    rw [List.countP_cons]
    split
    · rw [add_nsmul, one_nsmul, add_comm]
    · rw [add_zero, zero_add]

/-- Where every entry that counts is for one of finitely many reasons, and at most one
entry is for each, the entries do not come to more than the reasons. -/
theorem sum_le_of_countP_le_one [PartialOrder N] [IsOrderedAddMonoid N] {l : List α} {f : α → N}
    {s : Finset κ} {w : κ → N} {p : κ → α → Bool} (hw : ∀ n ∈ s, 0 ≤ w n)
    (hf : ∀ x ∈ l, f x = 0 ∨ ∃ n ∈ s, p n x = true ∧ f x = w n)
    (hp : ∀ n ∈ s, l.countP (p n) ≤ 1) : (l.map f).sum ≤ ∑ n ∈ s, w n := by
  have hterm (x : α) (n : κ) (hn : n ∈ s) : 0 ≤ (if p n x then w n else 0) := by
    split
    · exact hw n hn
    · exact le_rfl
  calc (l.map f).sum ≤ (l.map fun x => ∑ n ∈ s, if p n x then w n else 0).sum := by
        refine List.sum_le_sum ?_
        intro x hx
        rcases hf x hx with h0 | ⟨n, hn, hpn, hfx⟩
        · rw [h0]
          exact Finset.sum_nonneg (hterm x)
        · rw [hfx]
          have hone := Finset.single_le_sum (hterm x) hn
          rwa [if_pos hpn] at hone
    _ = ∑ n ∈ s, l.countP (p n) • w n := sum_map_ite l s w p
    _ ≤ ∑ n ∈ s, w n := Finset.sum_le_sum fun n hn => by
        have hone := nsmul_le_nsmul_left (hw n hn) (hp n hn)
        rwa [one_nsmul] at hone

end Once
end StockMarket.Interleaving
