import StockMarket.AverageCost

/-! # The cost basis a position keeps

A position's bookkeeping as `upsertPosition` and `sell` do it: a purchase
averages over everything ever invested since the position was opened, and a sale
leaves both the average and the invested total. How far that is from the
average-cost method is a matter of the trades alone.
-/

namespace StockMarket.Trading.CostBasis
open AverageCost

/-- What a position records of its trades. -/
structure Book (K : Type*) where
  shares : ℕ
  average : K
  invested : K

section Books
variable {K : Type*} [Field K]

/-- A purchase opens the book or adds to it; a sale of everything closes it. -/
def Book.after : Option (Book K) → Trade K → Option (Book K)
  | none, .buy n p => some ⟨n, p, n * p⟩
  | some b, .buy n p =>
      some ⟨b.shares + n, (b.invested + n * p) / (b.shares + n : ℕ), b.invested + n * p⟩
  | none, .sell _ _ => none
  | some b, .sell n _ => if b.shares = n then none else some { b with shares := b.shares - n }

def book : List (Trade K) → Option (Book K)
  | [] => none
  | t :: earlier => Book.after (book earlier) t

/-- The profit or loss a trade realises against the average of the book. -/
def profit (b : Option (Book K)) : Trade K → K
  | .buy _ _ => 0
  | .sell n p => b.elim 0 fun b => (p - b.average) * n

def realised : List (Trade K) → K
  | [] => 0
  | t :: earlier => profit (book earlier) t + realised earlier

def proceeds : List (Trade K) → K
  | [] => 0
  | .buy _ _ :: earlier => proceeds earlier
  | .sell n p :: earlier => n * p + proceeds earlier

def spent : List (Trade K) → K
  | [] => 0
  | .buy n p :: earlier => n * p + spent earlier
  | .sell _ _ :: earlier => spent earlier

/-- The invested total of the book, 0 where it is closed. -/
def invested (b : Option (Book K)) : K := b.elim 0 Book.invested

def atAverage (b : Option (Book K)) : K := b.elim 0 fun b => b.average * b.shares

/-- The profit that realised and unrealised profit together leave out: at any
price of the shares still held it is the same. -/
def gap (trades : List (Trade K)) : K :=
  proceeds trades - spent trades - realised trades + invested (book trades)

/-- What the gap would be if the shares still held were sold now. -/
def closing (trades : List (Trade K)) : K :=
  gap trades - (invested (book trades) - atAverage (book trades))

section Gap
variable {b : Book K} {earlier : List (Trade K)}

theorem gap_buy (n : ℕ) (p : K) (earlier : List (Trade K)) :
    gap (.buy n p :: earlier) = gap earlier := by
  simp only [gap, proceeds, spent, realised, profit, book]
  rcases book earlier with _ | b <;> simp only [Book.after, invested, Option.elim] <;> ring

/-- A sale of a part widens the gap by what the part cost. -/
theorem gap_sell_part (hbook : book earlier = some b) {n : ℕ} (hn : b.shares ≠ n) (p : K) :
    gap (.sell n p :: earlier) = gap earlier + b.average * n := by
  simp only [gap, proceeds, spent, realised, profit, book, hbook, Book.after, if_neg hn, invested,
    Option.elim]
  ring

theorem gap_sell_all (hbook : book earlier = some b) (p : K) :
    gap (.sell b.shares p :: earlier) = closing earlier := by
  simp only [closing, gap, proceeds, spent, realised, profit, book, hbook, Book.after, if_true,
    invested, atAverage, Option.elim]
  ring

end Gap

end Books

section Ordered
variable {K : Type*} [Field K] [LinearOrder K] [IsStrictOrderedRing K] {trades : List (Trade K)}

/-- A book that fits the shares held: open exactly while there are some, at a
positive average that the invested total covers. -/
def Fits : Option (Book K) → ℕ → Prop
  | none, held => held = 0
  | some b, held => b.shares = held ∧ 0 < held ∧ 0 < b.average ∧ b.average * b.shares ≤ b.invested

theorem book_fits (hv : Valid trades) : Fits (book trades) (holding trades).shares := by
  induction trades with
  | nil => exact rfl
  | cons t earlier ih =>
    cases t with
    | buy n p =>
      obtain ⟨hn, hp, hv⟩ := hv
      have hn' : (0 : K) < n := by exact_mod_cast hn
      have hfits := ih hv
      simp only [book, holding, Holding.after]
      rcases hbook : book earlier with _ | b <;> rw [hbook] at hfits
      · have hclosed : (holding earlier).shares = 0 := hfits
        exact ⟨by rw [hclosed, zero_add], by omega, hp, (mul_comm p (n : K)).le⟩
      · obtain ⟨hshares, hheld, haverage, hcovers⟩ := hfits
        have hpos : (0 : K) < ((b.shares + n : ℕ) : K) := by exact_mod_cast (by omega)
        have hinvested : 0 < b.invested + n * p := by
          have : 0 ≤ b.average * b.shares := by positivity
          have : 0 < n * p := mul_pos hn' hp
          linarith
        exact ⟨by rw [← hshares], by omega, div_pos hinvested hpos,
          (div_mul_cancel₀ _ hpos.ne').le⟩
    | sell n p =>
      obtain ⟨hn, -, hle, hv⟩ := hv
      have hfits := ih hv
      simp only [book, holding, Holding.after]
      rcases hbook : book earlier with _ | b <;> rw [hbook] at hfits
      · have hclosed : (holding earlier).shares = 0 := hfits
        omega
      · obtain ⟨hshares, hheld, haverage, hcovers⟩ := hfits
        simp only [Book.after]
        split <;> rename_i hall
        · show (holding earlier).shares - n = 0
          omega
        · refine ⟨by rw [← hshares], by omega, haverage, le_trans ?_ hcovers⟩
          exact mul_le_mul_of_nonneg_left (by exact_mod_cast Nat.sub_le _ _) haverage.le

/-- The gap a history leaves open, and the part of it that is there for good. -/
structure Gaps (trades : List (Trade K)) : Prop where
  covers : atAverage (book trades) ≤ invested (book trades)
  closing_nonneg : 0 ≤ closing trades
  clean_iff : Clean trades ↔ closing trades = 0
  sold : SoldFrom trades → 0 < gap trades
  unsold : ¬SoldFrom trades → atAverage (book trades) = invested (book trades)

theorem Gaps.buy {n : ℕ} {p : K} (hn : 0 < n) (h : Gaps trades) : Gaps (.buy n p :: trades) := by
  have heven : atAverage (book (.buy n p :: trades)) = invested (book (.buy n p :: trades)) := by
    rw [book]
    rcases book trades with _ | b
    · exact mul_comm p (n : K)
    · have hpos : ((b.shares + n : ℕ) : K) ≠ 0 := by exact_mod_cast (by omega)
      exact div_mul_cancel₀ _ hpos
  have hclosing : closing (.buy n p :: trades) = gap trades := by
    rw [closing, heven, gap_buy, sub_self, sub_zero]
  have hgap : closing trades ≤ gap trades := sub_le_self _ (sub_nonneg.mpr h.covers)
  refine ⟨heven.le, hclosing ▸ h.closing_nonneg.trans hgap, ?_, ?_, fun _ => heven⟩
  · rw [hclosing]
    by_cases hsold : SoldFrom trades
    · exact iff_of_false (fun hclean => hclean.1 hsold) (h.sold hsold).ne'
    · have hsame : closing trades = gap trades := by
        rw [closing, h.unsold hsold, sub_self, sub_zero]
      rw [← hsame, ← h.clean_iff]
      exact ⟨fun hclean => hclean.2, fun hclean => ⟨hsold, hclean⟩⟩
  · intro hsold
    rw [gap_buy]
    exact h.sold hsold

theorem Gaps.sell {n : ℕ} {p : K} (hn : 0 < n) (hle : n ≤ (holding trades).shares) (h : Gaps trades)
    (hfits : Fits (book trades) (holding trades).shares) : Gaps (.sell n p :: trades) := by
  rcases hbook : book trades with _ | b <;> rw [hbook] at hfits
  · have hclosed : (holding trades).shares = 0 := hfits
    omega
  obtain ⟨hshares, hheld, haverage, hcovers⟩ := hfits
  by_cases hall : b.shares = n
  · have hgone : book (.sell n p :: trades) = none := by
      simp only [book, hbook, Book.after, if_pos hall]
    have hclosing : closing (.sell n p :: trades) = closing trades := by
      rw [closing, hgone, ← hall, gap_sell_all hbook]
      simp [invested, atAverage]
    have hunsold : ¬SoldFrom (.sell n p :: trades) := fun hsold => by
      have hlt : n < (holding trades).shares := hsold
      omega
    exact ⟨by rw [hgone]; exact le_rfl, hclosing ▸ h.closing_nonneg, hclosing ▸ h.clean_iff,
      fun hsold => absurd hsold hunsold, fun _ => by rw [hgone]; rfl⟩
  · have hpart : book (.sell n p :: trades) = some { b with shares := b.shares - n } := by
      simp only [book, hbook, Book.after, if_neg hall]
    have hn' : (0 : K) < n := by exact_mod_cast hn
    have hcast : ((b.shares - n : ℕ) : K) = b.shares - n := Nat.cast_sub (by omega)
    have hclosing : closing (.sell n p :: trades) = closing trades := by
      rw [closing, hpart, gap_sell_part hbook hall, closing, hbook]
      simp only [invested, atAverage, Option.elim, hcast]
      ring
    have hpos : 0 < b.average * n := mul_pos haverage hn'
    have hgap : closing trades ≤ gap trades := sub_le_self _ (sub_nonneg.mpr h.covers)
    refine ⟨?_, hclosing ▸ h.closing_nonneg, hclosing ▸ h.clean_iff, ?_, ?_⟩
    · rw [hpart]
      simp only [invested, atAverage, Option.elim, hcast]
      linarith
    · intro _
      rw [gap_sell_part hbook hall]
      linarith [h.closing_nonneg]
    · intro hno
      have hlt : ¬n < (holding trades).shares := hno
      omega

theorem gaps (hv : Valid trades) : Gaps trades := by
  induction trades with
  | nil =>
    have hgap : gap ([] : List (Trade K)) = 0 := by
      simp [gap, proceeds, spent, realised, invested, book]
    have hclosing : closing ([] : List (Trade K)) = 0 := by
      simp [closing, hgap, invested, atAverage, book]
    exact ⟨le_rfl, hclosing.ge, iff_of_true trivial hclosing, fun h => h.elim, fun _ => rfl⟩
  | cons t earlier ih =>
    cases t with
    | buy n p => exact (ih hv.2.2).buy hv.1
    | sell n p => exact (ih hv.2.2.2).sell hv.1 hv.2.2.1 (book_fits hv.2.2.2)

/-- Realised and unrealised profit account for everything exactly where nothing
was bought into a holding sold from, and the holding itself was not sold from. -/
theorem gap_eq_zero_iff (hv : Valid trades) : gap trades = 0 ↔ Clean trades ∧ ¬SoldFrom trades := by
  have h := gaps hv
  by_cases hsold : SoldFrom trades
  · exact iff_of_false (h.sold hsold).ne' fun hc => hc.2 hsold
  · have hsame : closing trades = gap trades := by
      rw [closing, h.unsold hsold, sub_self, sub_zero]
    rw [← hsame, ← h.clean_iff]
    exact ⟨fun hclean => ⟨hclean, hsold⟩, fun hc => hc.1⟩

/-- In a clean history the book keeps the average cost, and while nothing is
sold from it the invested total is the cost. -/
theorem average_eq (hv : Valid trades) (hclean : Clean trades) :
    ∀ b ∈ book trades, b.average = (holding trades).average := by
  induction trades with
  | nil => simp [book]
  | cons t earlier ih =>
    cases t with
    | buy n p =>
      obtain ⟨hn, -, hv⟩ := hv
      obtain ⟨hunsold, hclean⟩ := hclean
      have hfits := book_fits hv
      have heven := (gaps hv).unsold hunsold
      rintro b hb
      rcases hbook : book earlier with _ | b' <;> rw [hbook] at hfits heven <;>
        simp only [book, hbook, Book.after, Option.mem_some_iff] at hb <;> subst hb
      · exact (average_open hv hfits hn p).symm
      · have hcost : b'.invested = (holding earlier).cost := by
          rw [cost_eq _ hfits.2.1, ← ih hv hclean b' hbook, ← hfits.1]
          exact heven.symm
        simp only [holding, Holding.after, Holding.average, hcost, hfits.1]
    | sell n p =>
      obtain ⟨hn, -, hle, hv⟩ := hv
      rintro b hb
      rcases hbook : book earlier with _ | b'
      · simp only [book, hbook, Book.after] at hb
        cases hb
      · have hfits := book_fits hv
        rw [hbook] at hfits
        simp only [book, hbook, Book.after] at hb
        split at hb <;> rename_i hall
        · cases hb
        · cases hb
          have hlt : n < (holding earlier).shares := by have := hfits.1; omega
          rw [holding, average_after_sell hlt]
          exact ih hv hclean b' hbook

/-- And so a clean history realises the profits of the method. -/
theorem profit_eq {t : Trade K} (hv : Valid (t :: trades)) (hclean : Clean trades) :
    profit (book trades) t = (holding trades).profit t := by
  cases t with
  | buy n p => rfl
  | sell n p =>
    obtain ⟨hn, -, hle, hv⟩ := hv
    have hfits := book_fits hv
    rcases hbook : book trades with _ | b <;> rw [hbook] at hfits
    · have hclosed : (holding trades).shares = 0 := hfits
      omega
    · simp only [profit, Option.elim, Holding.profit, average_eq hv hclean b hbook]

/-- The first purchase into a holding sold from takes the average of the book
away from the average cost. -/
theorem average_ne {n : ℕ} {p : K} (hv : Valid (.buy n p :: trades)) (hclean : Clean trades)
    (hsold : SoldFrom trades) :
    ∃ b ∈ book (.buy n p :: trades), b.average ≠ (holding (.buy n p :: trades)).average := by
  obtain ⟨hn, -, hv⟩ := hv
  have hfits := book_fits hv
  have hgaps := gaps hv
  rcases hbook : book trades with _ | b <;> rw [hbook] at hfits
  · have hclosed : (holding trades).shares = 0 := hfits
    exact absurd hsold.open (by omega)
  · have hpos : (0 : K) < ((b.shares + n : ℕ) : K) := by exact_mod_cast (by omega)
    have hcost : (holding trades).cost < b.invested := by
      have hclosing := hgaps.clean_iff.mp hclean
      have hgap := hgaps.sold hsold
      rw [closing, hbook] at hclosing
      rw [cost_eq _ hsold.open, ← average_eq hv hclean b hbook, ← hfits.1]
      simp only [invested, atAverage, Option.elim] at hclosing
      linarith
    refine ⟨_, by rw [book, hbook]; rfl, ne_of_gt ?_⟩
    simp only [holding, Holding.after, Holding.average, ← hfits.1]
    exact div_lt_div_of_pos_right (by linarith) hpos

end Ordered
end StockMarket.Trading.CostBasis
