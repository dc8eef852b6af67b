import Mathlib.Data.List.Basic
import Mathlib.Data.List.Nodup
import Mathlib.Data.List.Count

/-! # Lists read in pages

A list is cut into pages of one size. A reader who takes out of the list what
it selects on a page, and then skips as many elements as it has read, passes
over elements it has never seen.
-/

namespace StockMarket.Paging

universe u
variable {α : Type u}

section Chunks

/-- At most `fuel` pieces of a list. -/
def chunksFrom (size : ℕ) : ℕ → List α → List (List α)
  | 0, _ => []
  | _ + 1, [] => []
  | fuel + 1, a :: l => (a :: l).take size :: chunksFrom size fuel ((a :: l).drop size)

/-- The pieces of a list, all of one size but the last. -/
def chunks (size : ℕ) (l : List α) : List (List α) := chunksFrom size l.length l

theorem chunksFrom_flatten {size : ℕ} (hsize : 0 < size) {fuel : ℕ} {l : List α}
    (h : l.length ≤ fuel) : (chunksFrom size fuel l).flatten = l := by
  induction fuel generalizing l with
  | zero =>
    rw [List.length_eq_zero_iff.mp (Nat.le_zero.mp h)]
    rfl
  | succ fuel ih =>
    cases l with
    | nil => rfl
    | cons a l =>
      have hdrop : ((a :: l).drop size).length ≤ fuel := by
        rw [List.length_drop]
        omega
      rw [chunksFrom, List.flatten_cons, ih hdrop, List.take_append_drop]

theorem chunks_flatten {size : ℕ} (hsize : 0 < size) (l : List α) : (chunks size l).flatten = l :=
  chunksFrom_flatten hsize (Nat.le_refl _)

end Chunks

section Marking
variable (size : ℕ) (p : α → Bool)

/-- What is left to read behind the first page: as many elements as the page
has lost are skipped. -/
def rest (l : List α) : List α := (l.drop size).drop ((l.take size).countP p)

/-- What was skipped behind the first page. -/
def skipped (l : List α) : List α := (l.drop size).take ((l.take size).countP p)

theorem length_rest_le (l : List α) : (rest size p l).length ≤ l.length - size := by
  rw [rest, List.length_drop, List.length_drop]
  omega

/-- The elements the reader selects, page after page, up to the first page that
is not full. -/
def marked (l : List α) : List α :=
  if 0 < size ∧ size ≤ l.length then (l.take size).filter p ++ marked (rest size p l)
  else l.filter p
termination_by l.length
decreasing_by
  have := length_rest_le size p l
  omega

def Covered (l : List α) : Prop :=
  0 < size ∧ size ≤ l.length → (∀ a ∈ skipped size p l, ¬p a) ∧ Covered (rest size p l)
termination_by l.length
decreasing_by
  have := length_rest_le size p l
  omega

variable {size p} {l : List α}

theorem marked_of_full (hsize : 0 < size) (h : size ≤ l.length) :
    marked size p l = (l.take size).filter p ++ marked size p (rest size p l) := by
  rw [marked, if_pos ⟨hsize, h⟩]

theorem marked_of_short (h : l.length < size) : marked size p l = l.filter p := by
  rw [marked, if_neg (by omega)]

theorem covered_of_full (hsize : 0 < size) (h : size ≤ l.length) :
    Covered size p l ↔ (∀ a ∈ skipped size p l, ¬p a) ∧ Covered size p (rest size p l) := by
  rw [Covered]
  simp [hsize, h]

/-- A list is its first page, what is skipped, and the rest. -/
theorem page_append (size : ℕ) (p : α → Bool) (l : List α) :
    l.take size ++ (skipped size p l ++ rest size p l) = l := by
  rw [skipped, rest, List.take_append_drop, List.take_append_drop]

/-- Selected elements keep the order they are stored in, and satisfy `p`. -/
theorem marked_sublist (size : ℕ) (p : α → Bool) (l : List α) :
    (marked size p l).Sublist (l.filter p) := by
  induction l using marked.induct size p with
  | case1 l hfull ih =>
    rw [marked, if_pos hfull]
    conv_rhs => rw [← page_append size p l, List.filter_append, List.filter_append]
    exact (List.Sublist.refl _).append (ih.trans (List.sublist_append_right _ _))
  | case2 l hshort => rw [marked, if_neg hshort]

theorem mem_of_mem_marked {a : α} (h : a ∈ marked size p l) : a ∈ l ∧ p a :=
  List.mem_filter.mp ((marked_sublist size p l).subset h)

/-- Every element that should be selected is, exactly where no skipped element
should have been. -/
theorem covered_iff (hl : l.Nodup) : Covered size p l ↔ ∀ a ∈ l, p a → a ∈ marked size p l := by
  induction l using marked.induct size p with
  | case1 l hfull ih =>
    have hsplit := page_append size p l
    obtain ⟨-, htail, hpage⟩ := List.nodup_append.mp (hsplit ▸ hl)
    obtain ⟨-, hr, hskip⟩ := List.nodup_append.mp htail
    rw [covered_of_full hfull.1 hfull.2, marked_of_full hfull.1 hfull.2, ih hr]
    constructor
    · rintro ⟨hnone, hcov⟩ a ha hpa
      rw [← hsplit] at ha
      rcases List.mem_append.mp ha with hb | ha
      · exact List.mem_append_left _ (List.mem_filter.mpr ⟨hb, hpa⟩)
      · rcases List.mem_append.mp ha with hs | hr
        · exact absurd hpa (hnone a hs)
        · exact List.mem_append_right _ (hcov a hr hpa)
    · intro h
      -- Behind the page, only the rest can still select an element.
      have hmem {a : α} (ha : a ∈ skipped size p l ++ rest size p l) (hpa : p a) :
          a ∈ marked size p (rest size p l) := by
        have hal : a ∈ l := hsplit ▸ List.mem_append_right _ ha
        rcases List.mem_append.mp (h a hal hpa) with hb | hm
        · exact absurd rfl (hpage a (List.mem_filter.mp hb).1 a ha)
        · exact hm
      constructor
      · intro a ha hpa
        have hm := mem_of_mem_marked (hmem (List.mem_append_left _ ha) hpa)
        exact hskip a ha a hm.1 rfl
      · intro a ha hpa
        exact hmem (List.mem_append_right _ ha) hpa
  | case2 l hshort =>
    rw [marked, if_neg hshort, Covered]
    refine iff_of_true (fun hfull => absurd hfull hshort) ?_
    intro a ha hpa
    exact List.mem_filter.mpr ⟨ha, hpa⟩

end Marking

section Skip
variable [DecidableEq α] {size : ℕ} {p : α → Bool} {l m : List α}

theorem filter_not_mem_eq_self (h : ∀ a ∈ l, a ∉ m) : l.filter (fun a => a ∉ m) = l := by
  rw [List.filter_eq_self]
  simpa using h

/-- What a page keeps when its selected elements are taken out. -/
theorem filter_not_mem_filter (l : List α) (p : α → Bool) :
    l.filter (fun a => a ∉ l.filter p) = l.filter fun a => !p a := by
  apply List.filter_congr
  intro a ha
  simp [ha]

omit [DecidableEq α] in
theorem length_filter_not (l : List α) (p : α → Bool) :
    (l.filter fun a => !p a).length = l.length - l.countP p := by
  rw [← List.countP_eq_length_filter, List.length_eq_countP_add_countP p]
  simp

/-- Once the selected elements of page `n` are out of the list, the skip of
page `n + 1` leads to the rest behind page `n`. -/
theorem drop_unmarked (hl : l.Nodup) (n : ℕ) :
    (l.filter fun a => a ∉ ((l.drop (n * size)).take size).filter p).drop ((n + 1) * size) =
      rest size p (l.drop (n * size)) := by
  set before := l.take (n * size)
  set page := (l.drop (n * size)).take size with hpage
  set behind := (l.drop (n * size)).drop size with hbehind
  have hsplit : before ++ (page ++ behind) = l := by
    rw [hpage, hbehind, List.take_append_drop, List.take_append_drop]
  obtain ⟨-, htail, hbefore⟩ := List.nodup_append.mp (hsplit ▸ hl)
  obtain ⟨-, -, hdisj⟩ := List.nodup_append.mp htail
  have h₁ : before.filter (fun a => a ∉ page.filter p) = before :=
    filter_not_mem_eq_self fun a ha hm =>
      hbefore a ha a (List.mem_append_left _ (List.mem_filter.mp hm).1) rfl
  have h₂ : behind.filter (fun a => a ∉ page.filter p) = behind :=
    filter_not_mem_eq_self fun a ha hm => hdisj a (List.mem_filter.mp hm).1 a ha rfl
  have hrest : rest size p (l.drop (n * size)) = behind.drop (page.countP p) := rfl
  rw [hrest]
  conv_lhs => rw [← hsplit]
  rw [List.filter_append, List.filter_append, h₁, h₂, filter_not_mem_filter, ← List.append_assoc]
  have hsucc : (n + 1) * size = n * size + size := Nat.succ_mul n size
  have hlen : (before ++ page.filter fun a => !p a).length =
      before.length + (page.length - page.countP p) := by
    rw [List.length_append, length_filter_not]
  have hbefore_le : before.length ≤ n * size := List.length_take_le ..
  have hpage_le : page.length ≤ size := List.length_take_le ..
  have hcount : page.countP p ≤ page.length := List.countP_le_length
  rw [List.drop_append, List.drop_eq_nil_of_le (by omega), List.nil_append]
  by_cases hfull : page.length = size
  · -- A full page stands behind `n * size` elements.
    have hbefore_len : before.length = n * size := by
      rcases Nat.eq_zero_or_pos size with hzero | hpos
      · have hmul : n * size = 0 := by rw [hzero, Nat.mul_zero]
        omega
      · simp only [hpage, before, List.length_take, List.length_drop] at hfull ⊢
        omega
    congr 1
    omega
  · have hnil : behind = [] := by
      rw [hbehind, List.drop_eq_nil_iff]
      simp only [hpage, List.length_take] at hfull
      omega
    rw [hnil, List.drop_nil, List.drop_nil]

end Skip
end StockMarket.Paging
