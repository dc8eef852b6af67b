import Mathlib.Data.List.Sort
import Mathlib.Data.List.Nodup
import Mathlib.Data.List.Perm.Basic

/-! # Pages of a list sorted by a key that is not unique

A database sorts equal elements as it likes, and differently for each query.
Pages cut out of such orders hold every element once if no page boundary falls
into a group of equal elements, and only then.
-/

namespace StockMarket.Ties

universe u
variable {α : Type u} (le : α → α → Prop)

/-- What a query may do with the elements it sorts. -/
structure Sorting where
  order : List α → List α
  perm : ∀ l, (order l).Perm l
  sorted : ∀ l, (order l).Pairwise le

def page (limit n : ℕ) (l : List α) : List α := (l.drop (n * limit)).take limit

section Positions
variable [DecidableRel le]

/-- How many elements come before `a` in every order. -/
def ahead (docs : List α) (a : α) : ℕ := docs.countP fun b => le b a ∧ ¬le a b

/-- How many elements do not come after `a` in every order. -/
def upTo (docs : List α) (a : α) : ℕ := docs.countP fun b => le b a

/-- The elements equal to `a` are on the same page in every order. -/
def OnOnePage (limit : ℕ) (docs : List α) (a : α) : Prop :=
  ahead le docs a / limit = (upTo le docs a - 1) / limit

instance (limit : ℕ) (docs : List α) (a : α) : Decidable (OnOnePage le limit docs a) :=
  inferInstanceAs (Decidable (_ = _))

variable {le} [Std.Total le] [IsTrans α le] {docs l : List α} {a b : α} {i : ℕ}

omit [IsTrans α le] in
/-- An order leaves the elements that come before `a` in front of it. -/
theorem ahead_le (hperm : l.Perm docs) (hl : l.Pairwise le) (ha : l[i]? = some a) :
    ahead le docs a ≤ i := by
  rw [ahead, ← hperm.countP_eq]
  conv_lhs => rw [← List.take_append_drop i l, List.countP_append]
  have hbehind : (l.drop i).countP (fun b => le b a ∧ ¬le a b) = 0 := by
    rw [List.countP_eq_zero]
    intro b hb
    obtain ⟨j, hj, rfl⟩ := List.mem_iff_getElem.mp hb
    obtain ⟨hi, rfl⟩ := List.getElem?_eq_some_iff.mp ha
    rw [List.length_drop] at hj
    have hle : le l[i] l[i + j] := by
      rcases Nat.eq_zero_or_pos j with rfl | hpos
      · exact refl_of le _
      · exact List.pairwise_iff_getElem.mp hl i (i + j) hi (by omega) (by omega)
    rw [List.getElem_drop]
    simp [hle]
  have hfront : (l.take i).countP (fun b => le b a ∧ ¬le a b) ≤ i :=
    List.countP_le_length.trans (List.length_take_le i l)
  omega

omit [IsTrans α le] in
/-- An order leaves the elements that do not come before `a` behind it. -/
theorem lt_upTo (hperm : l.Perm docs) (hl : l.Pairwise le) (ha : l[i]? = some a) :
    i < upTo le docs a := by
  obtain ⟨hi, rfl⟩ := List.getElem?_eq_some_iff.mp ha
  rw [upTo, ← hperm.countP_eq]
  have hfront : (l.take (i + 1)).countP (fun b => le b l[i]) = (l.take (i + 1)).length := by
    rw [List.countP_eq_length]
    intro b hb
    obtain ⟨j, hj, rfl⟩ := List.mem_iff_getElem.mp hb
    rw [List.length_take] at hj
    rw [List.getElem_take]
    rcases Nat.lt_or_ge j i with hlt | hge
    · exact decide_eq_true (List.pairwise_iff_getElem.mp hl j i (by omega) hi hlt)
    · obtain rfl : j = i := by omega
      exact decide_eq_true (refl_of le _)
  have hle := (List.take_sublist (i + 1) l).countP_le (p := fun b => decide (le b l[i]))
  rw [hfront, List.length_take] at hle
  omega

theorem ahead_lt_upTo (ha : a ∈ docs) : ahead le docs a < upTo le docs a := by
  obtain ⟨i, hi, rfl⟩ := List.mem_iff_getElem.mp
    ((List.perm_insertionSort le docs).mem_iff.mpr ha)
  have hget := List.getElem?_eq_getElem hi
  have hsorted := List.pairwise_insertionSort le docs
  exact (ahead_le (List.perm_insertionSort le docs) hsorted hget).trans_lt
    (lt_upTo (List.perm_insertionSort le docs) hsorted hget)

/-- What stands in the stretch of `a` is equal to it. -/
theorem tied_of_between (hperm : l.Perm docs) (hl : l.Pairwise le) (hb : l[i]? = some b)
    (hge : ahead le docs a ≤ i) (hlt : i < upTo le docs a) : le a b ∧ le b a := by
  have hahead := ahead_le hperm hl hb
  have hupTo := lt_upTo hperm hl hb
  by_contra hnot
  rcases total_of le a b with hab | hba
  · have hlt : ¬le b a := fun hba => hnot ⟨hab, hba⟩
    have hmono : upTo le docs a ≤ ahead le docs b := by
      refine List.countP_mono_left ?_
      intro c _ hc
      have hca := of_decide_eq_true hc
      exact decide_eq_true ⟨trans_of le hca hab, fun hbc => hlt (trans_of le hbc hca)⟩
    omega
  · have hlt : ¬le a b := fun hab => hnot ⟨hab, hba⟩
    have hmono : upTo le docs b ≤ ahead le docs a := by
      refine List.countP_mono_left ?_
      intro c _ hc
      have hcb := of_decide_eq_true hc
      exact decide_eq_true ⟨trans_of le hcb hba, fun hac => hlt (trans_of le hac hcb)⟩
    omega

end Positions

section Pages
variable {le} {limit pages : ℕ} {docs l : List α}

theorem mem_page_iff {n : ℕ} {a : α} (hlimit : 0 < limit) :
    a ∈ page limit n l ↔ ∃ i, l[i]? = some a ∧ i / limit = n := by
  rw [page, List.mem_iff_getElem?]
  constructor
  · rintro ⟨j, hj⟩
    rw [List.getElem?_take] at hj
    split at hj
    · rename_i hlt
      rw [List.getElem?_drop] at hj
      refine ⟨n * limit + j, hj, ?_⟩
      rw [Nat.mul_comm, Nat.mul_add_div hlimit, Nat.div_eq_of_lt hlt, Nat.add_zero]
    · cases hj
  · rintro ⟨i, hi, rfl⟩
    refine ⟨i % limit, ?_⟩
    rw [List.getElem?_take_of_lt (Nat.mod_lt i hlimit), List.getElem?_drop, Nat.mul_comm,
      Nat.div_add_mod]
    exact hi

theorem nodup_page (hl : l.Nodup) (n : ℕ) : (page limit n l).Nodup :=
  hl.sublist ((List.take_sublist _ _).trans (List.drop_sublist _ _))

/-- The order of the elements for one query, that of another sorting for all others. -/
def Sorting.override [DecidableEq α] (sorting : Sorting le) (docs other : List α)
    (hperm : other.Perm docs) (hsorted : other.Pairwise le) : Sorting le where
  order l := if l = docs then other else sorting.order l
  perm l := by
    by_cases h : l = docs
    · rw [if_pos h, h]
      exact hperm
    · rw [if_neg h]
      exact sorting.perm l
  sorted _ := by
    split
    · exact hsorted
    · exact sorting.sorted _

variable [DecidableRel le] [Std.Total le] [IsTrans α le]

variable (le) in
def Sorting.stable : Sorting le where
  order l := l.insertionSort le
  perm l := List.perm_insertionSort le l
  sorted l := List.pairwise_insertionSort le l

variable (le) in
/-- The order in which equal elements are turned round. -/
def Sorting.reversed : Sorting le where
  order l := l.reverse.insertionSort le
  perm l := (List.perm_insertionSort le _).trans l.reverse_perm
  sorted l := List.pairwise_insertionSort le l.reverse

omit [IsTrans α le] in
/-- Where no page boundary falls between equal elements, an element is on the page that
the number of elements ahead of it leads to. -/
theorem mem_page_order_iff (hlimit : 0 < limit) (hfit : ∀ a ∈ docs, OnOnePage le limit docs a)
    (sorting : Sorting le) {n : ℕ} {a : α} :
    a ∈ page limit n (sorting.order docs) ↔ a ∈ docs ∧ ahead le docs a / limit = n := by
  have hperm := sorting.perm docs
  have hplace {i : ℕ} {b : α} (hb : (sorting.order docs)[i]? = some b) :
      ahead le docs b / limit = i / limit := by
    have hmem : b ∈ docs := hperm.mem_iff.mp (List.mem_of_getElem? hb)
    have hlow := Nat.div_le_div_right (c := limit) (ahead_le hperm (sorting.sorted docs) hb)
    have hlt := lt_upTo hperm (sorting.sorted docs) hb
    have hhigh : i / limit ≤ (upTo le docs b - 1) / limit := Nat.div_le_div_right (by omega)
    have hsame : ahead le docs b / limit = (upTo le docs b - 1) / limit := hfit b hmem
    omega
  rw [mem_page_iff hlimit]
  constructor
  · rintro ⟨i, hi, rfl⟩
    exact ⟨hperm.mem_iff.mp (List.mem_of_getElem? hi), hplace hi⟩
  · rintro ⟨ha, rfl⟩
    obtain ⟨i, hi⟩ := List.mem_iff_getElem?.mp (hperm.mem_iff.mpr ha)
    exact ⟨i, hi, (hplace hi).symm⟩

/-- Pages taken from any orders hold every element once. -/
theorem perm_pages (hlimit : 0 < limit) (hdocs : docs.Nodup) (hpages : docs.length ≤ pages * limit)
    (hfit : ∀ a ∈ docs, OnOnePage le limit docs a) (sortings : ℕ → Sorting le) :
    ((List.range pages).flatMap fun n => page limit n ((sortings n).order docs)).Perm docs := by
  have hnodup : ((List.range pages).flatMap fun n =>
      page limit n ((sortings n).order docs)).Nodup := by
    rw [List.nodup_flatMap]
    constructor
    · intro n _
      exact nodup_page (((sortings n).perm docs).nodup_iff.mpr hdocs) n
    · refine List.nodup_range.imp ?_
      intro m n hne a ha hb
      have h₁ := ((mem_page_order_iff hlimit hfit _).mp ha).2
      have h₂ := ((mem_page_order_iff hlimit hfit _).mp hb).2
      exact hne (h₁.symm.trans h₂)
  rw [List.perm_ext_iff_of_nodup hnodup hdocs]
  intro a
  rw [List.mem_flatMap]
  constructor
  · rintro ⟨n, -, ha⟩
    exact ((mem_page_order_iff hlimit hfit _).mp ha).1
  · intro ha
    refine ⟨_, List.mem_range.mpr ?_, (mem_page_order_iff hlimit hfit _).mpr ⟨ha, rfl⟩⟩
    have hlt : ahead le docs a < upTo le docs a := ahead_lt_upTo ha
    have hle : upTo le docs a ≤ docs.length := List.countP_le_length
    exact Nat.div_lt_of_lt_mul (by rw [Nat.mul_comm]; omega)

omit [DecidableRel le] [Std.Total le] [IsTrans α le] in
/-- Neighbours that are equal may change places. -/
theorem pairwise_swap {before behind : List α} {a b : α} (hba : le b a)
    (h : (before ++ a :: b :: behind).Pairwise le) :
    (before ++ b :: a :: behind).Pairwise le := by
  obtain ⟨hbefore, htail, hacross⟩ := List.pairwise_append.mp h
  obtain ⟨ha, htail⟩ := List.pairwise_cons.mp htail
  obtain ⟨hb, hbehind⟩ := List.pairwise_cons.mp htail
  refine List.pairwise_append.mpr ⟨hbefore, ?_, ?_⟩
  · refine List.pairwise_cons.mpr ⟨fun c hc => ?_, List.pairwise_cons.mpr ⟨?_, hbehind⟩⟩
    · rcases List.mem_cons.mp hc with rfl | hc
      · exact hba
      · exact hb c hc
    · intro c hc
      exact ha c (List.mem_cons_of_mem _ hc)
  · intro c hc d hd
    refine hacross c hc d ?_
    simp only [List.mem_cons] at hd ⊢
    tauto

omit [DecidableRel le] [Std.Total le] [IsTrans α le] in
/-- Of two neighbours that are equal, another query may have the first one behind. -/
theorem Sorting.exists_moved (sorting : Sorting le) {n : ℕ} {a b : α}
    (ha : (sorting.order docs)[n]? = some a) (hb : (sorting.order docs)[n + 1]? = some b)
    (hba : le b a) : ∃ other : Sorting le, (other.order docs)[n + 1]? = some a := by
  classical
  obtain ⟨hn, rfl⟩ := List.getElem?_eq_some_iff.mp ha
  obtain ⟨hn', rfl⟩ := List.getElem?_eq_some_iff.mp hb
  set l := sorting.order docs with hl
  have hsplit : l.take n ++ l[n] :: l[n + 1] :: l.drop (n + 2) = l := by
    rw [List.getElem_cons_drop, List.getElem_cons_drop, List.take_append_drop]
  have hperm : (l.take n ++ l[n + 1] :: l[n] :: l.drop (n + 2)).Perm docs := by
    refine List.Perm.trans ?_ (sorting.perm docs)
    conv_rhs => rw [← hl, ← hsplit]
    exact (List.Perm.swap _ _ _).append_left _
  have hsorted : (l.take n ++ l[n + 1] :: l[n] :: l.drop (n + 2)).Pairwise le := by
    refine pairwise_swap hba ?_
    rw [hsplit]
    exact sorting.sorted docs
  refine ⟨sorting.override docs _ hperm hsorted, ?_⟩
  simp only [Sorting.override, if_true]
  rw [List.getElem?_append_right (by simp), List.length_take, Nat.min_eq_left (by omega)]
  simp [hl]

/-- Where a boundary falls between equal elements, one of them can be handed out on both
sides of it. -/
theorem onOnePage_of_perm_pages (hlimit : 0 < limit) (hdocs : docs.Nodup)
    (hpages : docs.length ≤ pages * limit)
    (h : ∀ sortings : ℕ → Sorting le,
      ((List.range pages).flatMap fun n => page limit n ((sortings n).order docs)).Perm docs)
    {a : α} (ha : a ∈ docs) : OnOnePage le limit docs a := by
  by_contra hsplit
  have hupTo : upTo le docs a ≤ docs.length := List.countP_le_length
  have hpos : ahead le docs a < upTo le docs a := ahead_lt_upTo ha
  set q := (upTo le docs a - 1) / limit with hq
  have hmono : ahead le docs a / limit ≤ q := Nat.div_le_div_right (by omega)
  have hahead : ahead le docs a < q * limit :=
    (Nat.div_lt_iff_lt_mul hlimit).mp (lt_of_le_of_ne hmono hsplit)
  have hbound : q * limit ≤ upTo le docs a - 1 := Nat.div_mul_le_self _ _
  obtain ⟨n, hn⟩ : ∃ n, q * limit = n + 1 := ⟨q * limit - 1, by omega⟩
  -- The two elements at the boundary are equal, so the first can stand behind it.
  have hperm := (Sorting.stable le).perm docs
  have hsorted := (Sorting.stable le).sorted docs
  have hlen := hperm.length_eq
  have hx := List.getElem?_eq_getElem (show n < ((Sorting.stable le).order docs).length by omega)
  have hy := List.getElem?_eq_getElem
    (show n + 1 < ((Sorting.stable le).order docs).length by omega)
  have htied := tied_of_between (a := a) hperm hsorted hx (by omega) (by omega)
  have htied' := tied_of_between (a := a) hperm hsorted hy (by omega) (by omega)
  obtain ⟨other, hmoved⟩ :=
    (Sorting.stable le).exists_moved hx hy (trans_of le htied'.2 htied.1)
  have hqpos : 0 < q := Nat.pos_of_ne_zero fun hzero => by simp [hzero] at hn
  have hqpages : q < pages := by
    by_contra hge
    have := Nat.mul_le_mul_right limit (Nat.not_lt.mp hge)
    omega
  let sortings : ℕ → Sorting le := fun n => if n = q then other else Sorting.stable le
  obtain ⟨-, hdisjoint⟩ := List.nodup_flatMap.mp ((h sortings).nodup_iff.mpr hdocs)
  have hpair := List.pairwise_iff_getElem.mp hdisjoint (q - 1) q (by simp; omega) (by simp; omega)
    (by omega)
  simp only [List.getElem_range, Function.onFun] at hpair
  refine hpair (a := ((Sorting.stable le).order docs)[n]) ((mem_page_iff hlimit).mpr ⟨n, ?_, ?_⟩)
    ((mem_page_iff hlimit).mpr ⟨n + 1, ?_, ?_⟩)
  · have hstable : sortings (q - 1) = Sorting.stable le := if_neg (by omega)
    rw [hstable]
    exact hx
  · have hpred : n = (limit - 1) + limit * (q - 1) := by
      have hmul : q * limit = limit * (q - 1) + limit := by
        conv_lhs => rw [← Nat.sub_add_cancel hqpos, Nat.add_mul, Nat.one_mul, Nat.mul_comm]
      omega
    rw [hpred, Nat.add_mul_div_left _ _ hlimit, Nat.div_eq_of_lt (by omega), Nat.zero_add]
  · have hother : sortings q = other := if_pos rfl
    rw [hother]
    exact hmoved
  · rw [← hn, Nat.mul_div_cancel _ hlimit]

/-- Pages hold every element once in whatever orders they are taken from, exactly where no
page boundary falls between equal elements. -/
theorem perm_pages_iff (hlimit : 0 < limit) (hdocs : docs.Nodup)
    (hpages : docs.length ≤ pages * limit) :
    (∀ sortings : ℕ → Sorting le,
      ((List.range pages).flatMap fun n => page limit n ((sortings n).order docs)).Perm docs) ↔
        ∀ a ∈ docs, OnOnePage le limit docs a :=
  ⟨fun h _ ha => onOnePage_of_perm_pages hlimit hdocs hpages h ha,
    fun hfit => perm_pages hlimit hdocs hpages hfit⟩

end Pages
end StockMarket.Ties
