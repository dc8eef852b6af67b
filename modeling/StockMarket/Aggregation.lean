import StockMarket.Rounding
import Mathlib.Algebra.BigOperators.Group.Finset.Piecewise
import Mathlib.Algebra.Order.Group.Abs
import Mathlib.Data.Finset.Dedup

/-! # Stages of an aggregation pipeline

A stage takes the documents of the one before it. Grouping loses none of them and
counts none twice, so a sum can be taken group by group.
-/

namespace StockMarket.Aggregation

variable {α β κ M : Type*}

section Stages
variable [DecidableEq κ]

/-- `$lookup`: each document with those of the other collection that carry its key. -/
def lookup (localField : α → κ) (foreignField : β → κ) (other : List β) (docs : List α) :
    List (α × List β) :=
  docs.map fun a => (a, other.filter fun b => foreignField b = localField a)

/-- `$unwind`: one document for each element of the list, and none for an empty one. -/
def unwind (docs : List (α × List β)) : List (α × β) :=
  docs.flatMap fun d => d.2.map fun b => (d.1, b)

/-- `$group`: each key that occurs, with its documents. -/
def group (key : α → κ) (docs : List α) : List (κ × List α) :=
  (docs.map key).dedup.map fun k => (k, docs.filter fun a => key a = k)

theorem mem_unwind_lookup {localField : α → κ} {foreignField : β → κ} {other : List β}
    {docs : List α} {a : α} {b : β} : (a, b) ∈ unwind (lookup localField foreignField other docs) ↔
      a ∈ docs ∧ b ∈ other ∧ foreignField b = localField a := by
  simp [unwind, lookup]

theorem group_keys (key : α → κ) (docs : List α) :
    (group key docs).map Prod.fst = (docs.map key).dedup := by
  simp [group, Function.comp_def]

theorem group_unit (docs : List α) :
    group (fun _ => ()) docs = if docs = [] then [] else [((), docs)] := by
  cases docs with
  | nil => rfl
  | cons a docs =>
    have hkeys : ((a :: docs).map fun _ => ()).dedup = [()] := by
      rw [List.map_const', List.length_cons, List.replicate_dedup (Nat.succ_ne_zero _)]
    rw [group, hkeys]
    simp

variable [AddCommMonoid M]

/-- Over any keys that cover the documents, the sums of the groups add up. -/
theorem sum_fiberwise (key : α → κ) (f : α → M) {keys : Finset κ} {docs : List α}
    (hkeys : ∀ a ∈ docs, key a ∈ keys) :
    ∑ k ∈ keys, ((docs.filter fun a => key a = k).map f).sum = (docs.map f).sum := by
  induction docs with
  | nil => simp
  | cons a docs ih =>
    have hrest := ih fun b hb => hkeys b (List.mem_cons_of_mem a hb)
    have hsplit (k : κ) : (((a :: docs).filter fun b => key b = k).map f).sum =
        (if key a = k then f a else 0) + ((docs.filter fun b => key b = k).map f).sum := by
      by_cases hk : key a = k <;> simp [hk]
    rw [Finset.sum_congr rfl fun k _ => hsplit k, Finset.sum_add_distrib, hrest,
      Finset.sum_ite_eq, if_pos (hkeys a List.mem_cons_self), List.map_cons, List.sum_cons]

/-- A sum taken group by group is the sum over all documents. -/
theorem sum_group (key : α → κ) (f : α → M) (docs : List α) :
    ((group key docs).map fun g => (g.2.map f).sum).sum = (docs.map f).sum := by
  have hnodup : (docs.map key).dedup.Nodup := List.nodup_dedup _
  rw [group, List.map_map]
  calc _ = ∑ k ∈ (docs.map key).dedup.toFinset, ((docs.filter fun a => key a = k).map f).sum :=
        (List.sum_toFinset _ hnodup).symm
    _ = (docs.map f).sum := by
        apply sum_fiberwise
        intro a ha
        simpa using ⟨a, ha, rfl⟩

end Stages

section Rounding
open Rounding

/-- `$round: [x, digits]` -/
def roundTo (digits : ℕ) (x : ℚ) : ℚ := roundEven (x * 10 ^ digits) / 10 ^ digits

theorem abs_roundTo_sub_le (digits : ℕ) (x : ℚ) : |roundTo digits x - x| ≤ 1 / 2 / 10 ^ digits := by
  have hpow : (0 : ℚ) < 10 ^ digits := by positivity
  have hscaled : roundTo digits x - x =
      (roundEven (x * 10 ^ digits) - x * 10 ^ digits) / 10 ^ digits := by
    rw [roundTo]
    field_simp
  rw [hscaled, abs_div, abs_of_pos hpow]
  exact div_le_div_of_nonneg_right (abs_roundEven_sub_le _) hpow.le

/-- What is off by at most `ε` in each place is off by at most `ε` times its length in all. -/
theorem abs_sum_map_sub_le {f : ℚ → ℚ} {ε : ℚ} (hf : ∀ x, |f x - x| ≤ ε) (l : List ℚ) :
    |(l.map f).sum - l.sum| ≤ l.length * ε := by
  induction l with
  | nil => simp
  | cons x l ih =>
    have hsplit : ((x :: l).map f).sum - (x :: l).sum =
        (f x - x) + ((l.map f).sum - l.sum) := by
      rw [List.map_cons, List.sum_cons, List.sum_cons]
      ring
    calc |((x :: l).map f).sum - (x :: l).sum|
        ≤ |f x - x| + |(l.map f).sum - l.sum| := hsplit ▸ abs_add_le _ _
      _ ≤ ε + l.length * ε := add_le_add (hf x) ih
      _ = (x :: l).length * ε := by
          rw [List.length_cons]
          push_cast
          ring

end Rounding
end StockMarket.Aggregation
