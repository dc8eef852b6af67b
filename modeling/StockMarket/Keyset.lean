import Mathlib.Data.List.Sort
import Mathlib.Data.List.Nodup

/-! # Lists in descending order of a key

A list with distinct keys has one descending order. What lies below the key of
an element is what stands behind that element, so a reader can go on from the
last key it has seen.
-/

namespace StockMarket.Keyset

universe u v
variable {α : Type u} {κ : Type v} [LinearOrder κ] (key : α → κ)

/-- Each key is smaller than all before it. -/
abbrev Descending (l : List α) : Prop := l.Pairwise fun a b => key b < key a

def sorted (l : List α) : List α := l.insertionSort fun a b => key b ≤ key a

variable {key} {l m : List α}

theorem mem_sorted {a : α} : a ∈ sorted key l ↔ a ∈ l := List.mem_insertionSort _

theorem length_sorted (l : List α) : (sorted key l).length = l.length :=
  List.length_insertionSort _ l

theorem descending_sorted (h : (l.map key).Nodup) : Descending key (sorted key l) := by
  have hle : (sorted key l).Pairwise fun a b => key b ≤ key a := by
    have : Std.Total fun a b : α => key b ≤ key a := ⟨fun a b => le_total (key b) (key a)⟩
    have : IsTrans α fun a b => key b ≤ key a := ⟨fun _ _ _ hab hbc => hbc.trans hab⟩
    exact List.pairwise_insertionSort _ l
  have hperm : ((sorted key l).map key).Perm (l.map key) :=
    (List.perm_insertionSort _ l).map key
  have hne : (sorted key l).Pairwise fun a b => key a ≠ key b :=
    List.pairwise_map.mp (hperm.nodup_iff.mpr h)
  exact (hle.and hne).imp fun hab => lt_of_le_of_ne hab.1 hab.2.symm

theorem Descending.nodup (h : Descending key l) : l.Nodup :=
  h.imp fun hab heq => absurd (heq ▸ hab) (lt_irrefl _)

/-- The order is determined by the elements. -/
theorem Descending.eq_of_mem_iff (hl : Descending key l) (hm : Descending key m)
    (h : ∀ a, a ∈ l ↔ a ∈ m) : l = m := by
  have hperm : l.Perm m := (List.perm_ext_iff_of_nodup hl.nodup hm.nodup).mpr h
  exact hperm.eq_of_pairwise (fun _ _ _ _ hab hba => absurd (hab.trans hba) (lt_irrefl _)) hl hm

/-- The elements below a key are those behind the element with that key. -/
theorem Descending.filter_lt (h : Descending key l) {k : ℕ} {a : α} (ha : l[k]? = some a) :
    l.filter (fun b => key b < key a) = l.drop (k + 1) := by
  induction l generalizing k with
  | nil => simp at ha
  | cons b l ih =>
    obtain ⟨hb, hl⟩ := List.pairwise_cons.mp h
    cases k with
    | zero =>
      obtain rfl : b = a := by simpa using ha
      rw [List.filter_cons_of_neg (by simp), List.drop_succ_cons, List.drop_zero,
        List.filter_eq_self]
      intro c hc
      exact decide_eq_true (hb c hc)
    | succ k =>
      have hmem : a ∈ l := List.mem_of_getElem? ha
      rw [List.filter_cons_of_neg (by simpa using (hb a hmem).le), List.drop_succ_cons]
      exact ih hl ha

end StockMarket.Keyset
