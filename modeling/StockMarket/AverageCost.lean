import Mathlib.Algebra.Order.Field.Basic
import Mathlib.Tactic.Linarith
import Mathlib.Tactic.FieldSimp
import Mathlib.Tactic.Ring

/-! # The average-cost method

A holding is a number of shares and what they cost. A purchase adds its price,
a sale removes the shares at their average cost. A history lists the trades
with the latest first.
-/

namespace StockMarket.AverageCost

/-- A purchase or a sale of some shares at a price for each. -/
inductive Trade (K : Type*) where
  | buy (shares : ℕ) (price : K)
  | sell (shares : ℕ) (price : K)

structure Holding (K : Type*) where
  shares : ℕ
  cost : K

section Method
variable {K : Type*} [Field K]

namespace Holding

def average (h : Holding K) : K := h.cost / h.shares

def after (h : Holding K) : Trade K → Holding K
  | .buy n p => ⟨h.shares + n, h.cost + n * p⟩
  | .sell n _ => ⟨h.shares - n, h.cost - n * h.average⟩

/-- What a trade realises: a sale its price over the average cost. -/
def profit (h : Holding K) : Trade K → K
  | .buy _ _ => 0
  | .sell n p => (p - h.average) * n

end Holding

def holding : List (Trade K) → Holding K
  | [] => ⟨0, 0⟩
  | t :: earlier => (holding earlier).after t

/-- The prices paid since the holding was last opened. -/
def paid : List (Trade K) → List K
  | [] => []
  | .buy _ p :: earlier => p :: paid earlier
  | .sell n _ :: earlier => if n < (holding earlier).shares then paid earlier else []

/-- Some shares were sold since the holding was opened, and some are left. -/
def SoldFrom : List (Trade K) → Prop
  | [] => False
  | .buy _ _ :: earlier => SoldFrom earlier
  | .sell n _ :: earlier => n < (holding earlier).shares

/-- Nothing is ever bought into a holding that was sold from. -/
def Clean : List (Trade K) → Prop
  | [] => True
  | .buy _ _ :: earlier => ¬SoldFrom earlier ∧ Clean earlier
  | .sell _ _ :: earlier => Clean earlier

instance decidableSoldFrom : (trades : List (Trade K)) → Decidable (SoldFrom trades)
  | [] => .isFalse id
  | .buy _ _ :: earlier => decidableSoldFrom earlier
  | .sell n _ :: earlier => inferInstanceAs (Decidable (n < (holding earlier).shares))

instance decidableClean : (trades : List (Trade K)) → Decidable (Clean trades)
  | [] => .isTrue trivial
  | .buy _ _ :: earlier =>
      have := decidableClean earlier
      inferInstanceAs (Decidable (¬SoldFrom earlier ∧ Clean earlier))
  | .sell _ _ :: earlier => decidableClean earlier

theorem Clean.tail {t : Trade K} {earlier : List (Trade K)} (h : Clean (t :: earlier)) :
    Clean earlier := by
  cases t with
  | buy n p => exact h.2
  | sell n p => exact h

theorem SoldFrom.open {trades : List (Trade K)} (h : SoldFrom trades) :
    0 < (holding trades).shares := by
  induction trades with
  | nil => exact h.elim
  | cons t earlier ih =>
    cases t with
    | buy n p =>
      have := ih h
      simp only [holding, Holding.after]
      omega
    | sell n p =>
      have hlt : n < (holding earlier).shares := h
      simp only [holding, Holding.after]
      omega

end Method

section Ordered
variable {K : Type*} [Field K] [LinearOrder K] [IsStrictOrderedRing K]

/-- Trades move some shares at a positive price, and no more are sold than held. -/
def Valid : List (Trade K) → Prop
  | [] => True
  | .buy n p :: earlier => 0 < n ∧ 0 < p ∧ Valid earlier
  | .sell n p :: earlier => 0 < n ∧ 0 < p ∧ n ≤ (holding earlier).shares ∧ Valid earlier

variable {trades : List (Trade K)}

omit [IsStrictOrderedRing K] in
theorem Valid.tail {t : Trade K} (hv : Valid (t :: trades)) : Valid trades := by
  cases t with
  | buy n p => exact hv.2.2
  | sell n p => exact hv.2.2.2

theorem cost_eq (h : Holding K) (hopen : 0 < h.shares) : h.cost = h.average * h.shares := by
  have hne : (h.shares : K) ≠ 0 := by exact_mod_cast hopen.ne'
  rw [Holding.average, div_mul_cancel₀ _ hne]

/-- A sale that leaves some shares leaves their average cost. -/
theorem average_after_sell {h : Holding K} {n : ℕ} (hn : n < h.shares) (p : K) :
    (h.after (.sell n p)).average = h.average := by
  have hcost := cost_eq h (by omega)
  have hcast : ((h.shares - n : ℕ) : K) = h.shares - n := Nat.cast_sub hn.le
  have hne : (h.shares : K) - n ≠ 0 := by
    rw [← hcast]
    exact_mod_cast (Nat.sub_pos_of_lt hn).ne'
  rw [Holding.average, Holding.after, hcast, div_eq_iff hne, hcost]
  ring

/-- Nothing held has cost nothing. -/
theorem cost_of_closed (hv : Valid trades) (hclosed : (holding trades).shares = 0) :
    (holding trades).cost = 0 := by
  induction trades with
  | nil => rfl
  | cons t earlier ih =>
    cases t with
    | buy n p =>
      have hn := hv.1
      simp only [holding, Holding.after] at hclosed
      omega
    | sell n p =>
      obtain ⟨hn, -, hle, hv⟩ := hv
      simp only [holding, Holding.after] at hclosed ⊢
      have hall : n = (holding earlier).shares := by omega
      rw [cost_eq (holding earlier) (by omega), hall]
      ring

/-- A purchase that opens the holding sets the average to its price. -/
theorem average_open (hv : Valid trades) (hclosed : (holding trades).shares = 0) {n : ℕ}
    (hn : 0 < n) (p : K) : (holding (.buy n p :: trades)).average = p := by
  have hne : (n : K) ≠ 0 := by exact_mod_cast hn.ne'
  simp only [holding, Holding.after, Holding.average, hclosed, cost_of_closed hv hclosed, zero_add]
  exact mul_div_cancel_left₀ p hne

/-- A weighted mean lies between its two terms. -/
theorem mean_between {a p : K} {m n : ℕ} (hn : 0 < m + n) :
    (a * m + n * p) / ((m + n : ℕ) : K) ∈ Set.Icc (min a p) (max a p) := by
  have hpos : (0 : K) < ((m + n : ℕ) : K) := by exact_mod_cast hn
  have hm : (0 : K) ≤ m := Nat.cast_nonneg m
  have hn : (0 : K) ≤ n := Nat.cast_nonneg n
  rw [Set.mem_Icc, le_div_iff₀ hpos, div_le_iff₀ hpos]
  push_cast
  constructor
  · nlinarith [mul_le_mul_of_nonneg_right (min_le_left a p) hm,
      mul_le_mul_of_nonneg_right (min_le_right a p) hn]
  · nlinarith [mul_le_mul_of_nonneg_right (le_max_left a p) hm,
      mul_le_mul_of_nonneg_right (le_max_right a p) hn]

/-- The average cost lies between the lowest and the highest price paid since
the holding was opened. -/
theorem average_between (hv : Valid trades) (hopen : 0 < (holding trades).shares) :
    (∃ p ∈ paid trades, p ≤ (holding trades).average) ∧
      ∃ p ∈ paid trades, (holding trades).average ≤ p := by
  induction trades with
  | nil => exact absurd hopen (lt_irrefl 0)
  | cons t earlier ih =>
    cases t with
    | buy n p =>
      obtain ⟨hn, -, hv⟩ := hv
      rcases Nat.eq_zero_or_pos (holding earlier).shares with hclosed | hheld
      · rw [average_open hv hclosed hn]
        exact ⟨⟨p, List.mem_cons_self, le_rfl⟩, p, List.mem_cons_self, le_rfl⟩
      · obtain ⟨⟨lo, hlo, hle⟩, hi, hhi, hge⟩ := ih hv hheld
        have hmean := mean_between (a := (holding earlier).average) (p := p)
          (m := (holding earlier).shares) (n := n) (by omega)
        rw [← cost_eq _ hheld] at hmean
        have hlow : ∃ q ∈ paid (.buy n p :: earlier), q ≤ min (holding earlier).average p := by
          rcases min_choice (holding earlier).average p with h | h <;> rw [h]
          · exact ⟨lo, List.mem_cons_of_mem _ hlo, hle⟩
          · exact ⟨p, List.mem_cons_self, le_rfl⟩
        have hhigh : ∃ q ∈ paid (.buy n p :: earlier), max (holding earlier).average p ≤ q := by
          rcases max_choice (holding earlier).average p with h | h <;> rw [h]
          · exact ⟨hi, List.mem_cons_of_mem _ hhi, hge⟩
          · exact ⟨p, List.mem_cons_self, le_rfl⟩
        obtain ⟨q, hq, hqle⟩ := hlow
        obtain ⟨r, hr, hrle⟩ := hhigh
        exact ⟨⟨q, hq, hqle.trans hmean.1⟩, r, hr, hmean.2.trans hrle⟩
    | sell n p =>
      obtain ⟨hn, -, hle, hv⟩ := hv
      have hlt : n < (holding earlier).shares := by
        simp only [holding, Holding.after] at hopen
        omega
      rw [holding, average_after_sell hlt, paid, if_pos hlt]
      exact ih hv (by omega)

end Ordered
end StockMarket.AverageCost
