import StockMarket.Platform

/-! # The calendar

Calendar dates in their order. The date of a moment never goes back, so an age that is
counted on the calendar only grows.
-/

namespace StockMarket.CalendarDate

/-- By year, month and day. -/
instance : LE CalendarDate where
  le d d' := d.year < d'.year ∨ (d.year = d'.year ∧
    (d.month < d'.month ∨ (d.month = d'.month ∧ d.day ≤ d'.day)))

variable {d d' d'' : CalendarDate}

theorem le_iff : d ≤ d' ↔ d.year < d'.year ∨ (d.year = d'.year ∧
    (d.month < d'.month ∨ (d.month = d'.month ∧ d.day ≤ d'.day))) := Iff.rfl

theorem le_trans (h : d ≤ d') (h' : d' ≤ d'') : d ≤ d'' := by
  rw [le_iff] at h h' ⊢
  omega

/-- The same day so many years later, whether or not that year has it. -/
def addYears (n : ℤ) (d : CalendarDate) : CalendarDate := { d with year := d.year + n }

section Era

/-- The year, counted from March, of a day of an era. -/
def yearOfEra (ofEra : ℤ) : ℤ :=
  (ofEra - ofEra / 1460 + ofEra / 36524 - ofEra / 146096) / 365

/-- The day of the era a year begins with. -/
def yearStart (year : ℤ) : ℤ := 365 * year + year / 4 - year / 100

variable {n m : ℤ}

theorem yearOfEra_mono (hn : 0 ≤ n) (hnm : n ≤ m) (hm : m ≤ 146096) :
    yearOfEra n ≤ yearOfEra m := by
  have hcentury : n / 146096 = m / 146096 ∨ n / 36524 + 1 ≤ m / 36524 := by omega
  refine Int.ediv_le_ediv (by decide) ?_
  have hquarter : m / 1460 - n / 1460 ≤ m - n := by omega
  have hlast : m / 146096 - n / 146096 ≤ m / 36524 - n / 36524 := by omega
  omega

theorem yearOfEra_bounds (hn : 0 ≤ n) (hn' : n ≤ 146096) :
    0 ≤ yearOfEra n ∧ yearOfEra n ≤ 399 := by
  have h := yearOfEra_mono hn hn' le_rfl
  have h' := yearOfEra_mono le_rfl hn hn'
  exact ⟨h', h⟩

/-- The leap days counted before a day are those before its year, or at most two more. -/
theorem leapDays_bounds (hn : 0 ≤ n) (hn' : n ≤ 146096) :
    yearOfEra n / 4 - yearOfEra n / 100 ≤ n / 1460 - n / 36524 + n / 146096 ∧
      n / 1460 - n / 36524 + n / 146096 ≤ yearOfEra n / 4 - yearOfEra n / 100 + 2 := by
  obtain ⟨hyear, hyear'⟩ := yearOfEra_bounds hn hn'
  have hquotient : 365 * yearOfEra n ≤ n - n / 1460 + n / 36524 - n / 146096 ∧
      n - n / 1460 + n / 36524 - n / 146096 < 365 * yearOfEra n + 365 := by
    rw [yearOfEra]
    omega
  generalize yearOfEra n = year at *
  have hcentury : 0 ≤ n / 36524 - n / 146096 ∧ n / 36524 - n / 146096 ≤ 3 := by omega
  generalize hc : n / 36524 - n / 146096 = century at *
  have hquarter : n / 1460 ≤ 100 ∧ 25 * century ≤ n / 1460 := by omega
  have hfour : year / 4 ≤ n / 1460 ∧ n / 1460 ≤ year / 4 + 1 := by omega
  have hhundred : century ≤ year / 100 ∧ year / 100 ≤ century + 1 := by
    have hlow : 100 * century ≤ year := by
      rcases eq_or_lt_of_le hquarter.2 with h | h <;> omega
    omega
  omega

/-- A day is in its year, or at most one day after it. -/
theorem ofYear_bounds (hn : 0 ≤ n) (hn' : n ≤ 146096) :
    0 ≤ n - yearStart (yearOfEra n) ∧ n - yearStart (yearOfEra n) ≤ 366 := by
  have hleap := leapDays_bounds hn hn'
  have hquotient : 365 * yearOfEra n ≤ n - n / 1460 + n / 36524 - n / 146096 ∧
      n - n / 1460 + n / 36524 - n / 146096 < 365 * yearOfEra n + 365 := by
    rw [yearOfEra]
    omega
  rw [yearStart]
  omega

end Era

/-- The date of a year that begins in March, by its day. -/
def ofMarch (year ofYear : ℤ) : CalendarDate :=
  let shifted := (5 * ofYear + 2) / 153
  let month := if shifted < 10 then shifted + 3 else shifted - 9
  { year := year + if month ≤ 2 then 1 else 0
    month := month
    day := ofYear - (153 * shifted + 2) / 5 + 1 }

theorem ofMarch_le {year year' ofYear ofYear' : ℤ} (hday : 0 ≤ ofYear ∧ ofYear ≤ 366)
    (hday' : 0 ≤ ofYear' ∧ ofYear' ≤ 366) (h : year < year' ∨ (year = year' ∧ ofYear ≤ ofYear')) :
    ofMarch year ofYear ≤ ofMarch year' ofYear' := by
  have hshifted : 0 ≤ (5 * ofYear + 2) / 153 ∧ (5 * ofYear + 2) / 153 ≤ 11 := by omega
  have hshifted' : 0 ≤ (5 * ofYear' + 2) / 153 ∧ (5 * ofYear' + 2) / 153 ≤ 11 := by omega
  have hsame : year = year' → (5 * ofYear + 2) / 153 ≤ (5 * ofYear' + 2) / 153 := by omega
  simp only [le_iff, ofMarch]
  generalize (5 * ofYear + 2) / 153 = shifted at *
  generalize (5 * ofYear' + 2) / 153 = shifted' at *
  split <;> split <;> split <;> split <;> omega

/-- The date of a day, counted from the beginning of the first era. -/
def ofDays (days : ℤ) : CalendarDate :=
  let ofEra := days % 146097
  let year := yearOfEra ofEra
  ofMarch (year + days / 146097 * 400) (ofEra - yearStart year)

theorem ofTime_eq (ms : ℕ) : ofTime ms = ofDays ((ms / 86400000 : ℕ) + 719468) := rfl

theorem ofDays_mono {n m : ℤ} (h : n ≤ m) : ofDays n ≤ ofDays m := by
  have hn : 0 ≤ n % 146097 ∧ n % 146097 ≤ 146096 := by omega
  have hm : 0 ≤ m % 146097 ∧ m % 146097 ≤ 146096 := by omega
  refine ofMarch_le (ofYear_bounds hn.1 hn.2) (ofYear_bounds hm.1 hm.2) ?_
  have hyear := yearOfEra_bounds hn.1 hn.2
  have hyear' := yearOfEra_bounds hm.1 hm.2
  rcases lt_or_eq_of_le (Int.ediv_le_ediv (by decide : (0 : ℤ) < 146097) h) with hera | hera
  · omega
  · have hday : n % 146097 ≤ m % 146097 := by omega
    have hmono := yearOfEra_mono hn.1 hday hm.2
    rcases lt_or_eq_of_le hmono with hlt | heq
    · omega
    · rw [heq]
      omega

theorem ofTime_mono {ms ms' : ℕ} (h : ms ≤ ms') : ofTime ms ≤ ofTime ms' := by
  rw [ofTime_eq, ofTime_eq]
  refine ofDays_mono ?_
  have hdays : ms / 86400000 ≤ ms' / 86400000 := Nat.div_le_div_right h
  omega

end StockMarket.CalendarDate
