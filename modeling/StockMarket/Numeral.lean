import StockMarket.Platform
import Mathlib.Data.List.TakeWhile
import Mathlib.Data.Nat.Prime.Basic
import Mathlib.Algebra.Order.Ring.Rat

/-! # Reading numbers back

`parseFloat` of a text, and that it undoes the text of a number with finitely
many decimals, in plain notation or with an exponent.
-/

namespace StockMarket

/-- The digits behind a decimal point, and what follows them. -/
def decimals : List Char → List Char × List Char
  | '.' :: cs => (cs.takeWhile Char.isDigit, cs.dropWhile Char.isDigit)
  | cs => ([], cs)

/-- The exponent a text begins with, 0 if it begins with none. -/
def exponentPart (cs : List Char) : ℤ :=
  if cs.head? = some 'e' ∨ cs.head? = some 'E' then
    let digits (cs : List Char) : ℤ := Nat.ofDigitChars 10 (cs.takeWhile Char.isDigit) 0
    match cs.tail with
    | '-' :: cs => -digits cs
    | '+' :: cs => digits cs
    | cs => digits cs
  else 0

/-- The longest unsigned numeral a text begins with. -/
def parseMagnitude (cs : List Char) : Number :=
  let whole := cs.takeWhile Char.isDigit
  let (fraction, rest) := decimals (cs.dropWhile Char.isDigit)
  if whole ++ fraction = [] then none
  else some (Nat.ofDigitChars 10 (whole ++ fraction) 0 / 10 ^ fraction.length *
    10 ^ exponentPart rest)

/-- `parseFloat(text)` of the texts of finite numbers: `Infinity` is not read. -/
def parseFloat (text : String) : Number :=
  match text.toList.dropWhile Char.isWhitespace with
  | '-' :: cs => (parseMagnitude cs).map fun x => -x
  | '+' :: cs => parseMagnitude cs
  | cs => parseMagnitude cs

example : parseFloat " -12.50 USD" = some (-25 / 2) := by decide +kernel
example : parseFloat "ten" = none := by decide +kernel
example : parseFloat "1e-7" = some (1 / 10000000) := by decide +kernel

section Digits

theorem isDigit_toDigits (n : ℕ) : ∀ c ∈ Nat.toDigits 10 n, c.isDigit = true := fun _ hc =>
  Nat.isDigit_of_mem_toDigits (by decide) (by decide) hc

theorem isDigit_replicate (n : ℕ) : ∀ c ∈ List.replicate n '0', c.isDigit = true := by
  intro c hc
  rw [List.eq_of_mem_replicate hc]
  rfl

/-- Leading zeros do not change what a numeral comes to. -/
theorem ofDigitChars_padded (whole n : ℕ) {width : ℕ} (hw : 0 < width) (hn : n < 10 ^ width) :
    (padded width n).toList.length = width ∧
      Nat.ofDigitChars 10 (Nat.toDigits 10 whole ++ (padded width n).toList) 0 =
        whole * 10 ^ width + n := by
  have htext : (padded width n).toList =
      List.replicate (width - (Nat.toDigits 10 n).length) '0' ++ Nat.toDigits 10 n := by
    simp only [padded, String.toList_append, String.toList_ofList,
      Nat.toString_eq_ofList_toDigits, String.length_ofList]
  have hle : (Nat.toDigits 10 n).length ≤ width :=
    (Nat.length_toDigits_le_iff (by decide) hw).mpr hn
  have hlength : width - (Nat.toDigits 10 n).length + (Nat.toDigits 10 n).length = width := by
    omega
  constructor
  · rw [htext, List.length_append, List.length_replicate, hlength]
  · calc
      _ = Nat.ofDigitChars 10 (Nat.toDigits 10 n)
            (10 ^ (width - (Nat.toDigits 10 n).length) * whole) := by
          rw [htext, Nat.ofDigitChars_append, Nat.ofDigitChars_ten_toDigits,
            Nat.ofDigitChars_append, Nat.ofDigitChars_replicate_zero]
      _ = 10 ^ (Nat.toDigits 10 n).length * (10 ^ (width - (Nat.toDigits 10 n).length) * whole) +
            n := by
          rw [Nat.ofDigitChars_eq_ofDigitChars_zero, Nat.ofDigitChars_ten_toDigits]
      _ = whole * 10 ^ width + n := by
          rw [← mul_assoc, ← pow_add, Nat.add_comm (Nat.toDigits 10 n).length, hlength,
            Nat.mul_comm]

theorem takeWhile_digits {ds : List Char} (rest : List Char)
    (hds : ∀ c ∈ ds, c.isDigit = true) (hrest : ∀ c ∈ rest.head?, c.isDigit = false) :
    (ds ++ rest).takeWhile Char.isDigit = ds ∧ (ds ++ rest).dropWhile Char.isDigit = rest := by
  cases rest with
  | nil =>
    rw [List.append_nil]
    exact ⟨List.takeWhile_eq_self_iff.mpr hds, List.dropWhile_eq_nil_iff.mpr hds⟩
  | cons c rest =>
    have hc : c.isDigit = false := hrest c rfl
    constructor
    · rw [List.takeWhile_append_of_pos hds, List.takeWhile_cons, hc]
      simp
    · rw [List.dropWhile_append_of_pos hds, List.dropWhile_cons, hc]
      simp

/-- What may follow the digits of a numeral in plain notation. -/
def Ends (rest : List Char) : Prop := ∀ c ∈ rest.head?, c.isDigit = false ∧ c ≠ '.'

theorem decimals_of_ends {rest : List Char} (hrest : Ends rest) : decimals rest = ([], rest) := by
  rw [decimals]
  rintro cs rfl
  exact (hrest '.' rfl).2 rfl

/-- An integer is read back. -/
theorem parseMagnitude_toDigits (n : ℕ) {rest : List Char} (hrest : Ends rest) :
    parseMagnitude (Nat.toDigits 10 n ++ rest) = some (n * 10 ^ exponentPart rest : ℚ) := by
  obtain ⟨htake, hdrop⟩ := takeWhile_digits rest (isDigit_toDigits n) fun c hc => (hrest c hc).1
  have hne : Nat.toDigits 10 n ≠ [] := Nat.toDigits_ne_nil
  simp [parseMagnitude, htake, hdrop, decimals_of_ends hrest, hne]

/-- A number of hundredths, or other units, with its point is read back. -/
theorem parseMagnitude_point (units : ℕ) {digits : ℕ} (hd : 0 < digits) {rest : List Char}
    (hrest : Ends rest) :
    parseMagnitude (Nat.toDigits 10 (units / 10 ^ digits) ++
      '.' :: ((padded digits (units % 10 ^ digits)).toList ++ rest)) =
        some (units / 10 ^ digits * 10 ^ exponentPart rest : ℚ) := by
  have hmod : units % 10 ^ digits < 10 ^ digits := Nat.mod_lt _ (by positivity)
  obtain ⟨hlength, hvalue⟩ := ofDigitChars_padded (units / 10 ^ digits) _ hd hmod
  obtain ⟨htake, hdrop⟩ := takeWhile_digits
    ('.' :: ((padded digits (units % 10 ^ digits)).toList ++ rest))
    (isDigit_toDigits (units / 10 ^ digits)) (by simp)
  have hfraction : decimals ('.' :: ((padded digits (units % 10 ^ digits)).toList ++ rest)) =
      ((padded digits (units % 10 ^ digits)).toList, rest) := by
    have hdigits : ∀ c ∈ (padded digits (units % 10 ^ digits)).toList, c.isDigit = true := by
      intro c hc
      rw [padded, String.toList_append, String.toList_ofList, List.mem_append] at hc
      rcases hc with hc | hc
      · exact isDigit_replicate _ c hc
      · exact isDigit_toDigits _ c (by simpa using hc)
    obtain ⟨htake', hdrop'⟩ := takeWhile_digits rest hdigits fun c hc => (hrest c hc).1
    rw [decimals, htake', hdrop']
  have hne : Nat.toDigits 10 (units / 10 ^ digits) ++
      (padded digits (units % 10 ^ digits)).toList ≠ [] :=
    List.append_ne_nil_of_left_ne_nil Nat.toDigits_ne_nil _
  simp only [parseMagnitude, htake, hdrop, hfraction, if_neg hne, hlength, hvalue]
  rw [Nat.div_add_mod']

/-- An exponent of either sign is read back. -/
theorem exponentPart_toDigits (e : ℤ) :
    exponentPart ('e' :: (if e < 0 then '-' else '+') :: Nat.toDigits 10 e.natAbs) = e := by
  obtain ⟨htake, -⟩ := takeWhile_digits [] (isDigit_toDigits e.natAbs) (by simp)
  rw [List.append_nil] at htake
  rw [exponentPart, if_pos (.inl rfl)]
  by_cases he : e < 0
  · simp [he, htake, Nat.ofDigitChars_ten_toDigits, abs_of_neg he]
  · simp [he, htake, Nat.ofDigitChars_ten_toDigits, not_lt.mp he]

end Digits

section Places
variable {x : ℚ}

theorem hasDecimals_iff (digits : ℕ) (x : ℚ) : HasDecimals digits x ↔ x.den ∣ 10 ^ digits := by
  have hden : (x.den : ℚ) ≠ 0 := by exact_mod_cast x.den_ne_zero
  have hx : x * x.den = x.num := Rat.mul_den_eq_num x
  rw [HasDecimals]
  constructor
  · intro h
    have hnum : ((x * 10 ^ digits).num : ℚ) = x * 10 ^ digits := Rat.den_eq_one_iff _ |>.mp h
    have hmul : (x * 10 ^ digits).num * (x.den : ℤ) = x.num * 10 ^ digits := by
      have : (x * 10 ^ digits).num * (x.den : ℚ) = x.num * 10 ^ digits := by
        rw [hnum, ← hx]
        ring
      exact_mod_cast this
    have hdvd : (x.den : ℤ) ∣ x.num * 10 ^ digits := ⟨_, by rw [← hmul, mul_comm]⟩
    rw [Int.natCast_dvd, Int.natAbs_mul, Int.natAbs_pow] at hdvd
    exact x.reduced.symm.dvd_of_dvd_mul_left hdvd
  · rintro ⟨k, hk⟩
    have hvalue : x * 10 ^ digits = ((x.num * k : ℤ) : ℚ) := by
      have hpow : (10 : ℚ) ^ digits = x.den * k := by exact_mod_cast hk
      rw [hpow, ← mul_assoc, hx]
      push_cast
      ring
    rw [hvalue]
    exact Rat.den_intCast _

theorem HasDecimals.abs {digits : ℕ} (h : HasDecimals digits x) : HasDecimals digits |x| := by
  rw [hasDecimals_iff] at h ⊢
  rcases abs_choice x with habs | habs
  · rwa [habs]
  · rwa [habs, Rat.den_neg_eq_den]

/-- A number needs no more decimals than its denominator has binary digits. -/
theorem exists_decimals_le (h : ∃ digits, HasDecimals digits x) :
    ∃ digits ≤ x.den.log2, HasDecimals digits x := by
  classical
  refine ⟨Nat.find h, ?_, Nat.find_spec h⟩
  rw [Nat.le_log2 x.den_ne_zero]
  rcases hd : Nat.find h with _ | digits
  · exact x.den_pos
  · have hdvd := (hasDecimals_iff _ _).mp (Nat.find_spec h)
    have hno := mt (hasDecimals_iff digits x).mpr (Nat.find_min h (by omega))
    rw [hd, show (10 : ℕ) = 2 * 5 by rfl, mul_pow] at hdvd
    -- otherwise both prime powers in the denominator are smaller
    by_contra hlt
    obtain ⟨a, b, ha, hb, hab⟩ := Nat.dvd_mul.mp hdvd
    obtain ⟨i, hi, rfl⟩ := (Nat.dvd_prime_pow Nat.prime_two).mp ha
    obtain ⟨j, hj, rfl⟩ := (Nat.dvd_prime_pow Nat.prime_five).mp hb
    have hi' : i ≤ digits := by
      by_contra hlarge
      obtain rfl : i = digits + 1 := by omega
      have : 2 ^ (digits + 1) ≤ x.den := by
        rw [← hab]
        exact Nat.le_mul_of_pos_right _ (by positivity)
      omega
    have hj' : j ≤ digits := by
      by_contra hlarge
      obtain rfl : j = digits + 1 := by omega
      have : 2 ^ (digits + 1) ≤ x.den := by
        calc 2 ^ (digits + 1) ≤ 5 ^ (digits + 1) := Nat.pow_le_pow_left (by decide) _
          _ ≤ x.den := by
              rw [← hab]
              exact Nat.le_mul_of_pos_left _ (by positivity)
      omega
    apply hno
    rw [← hab, show (10 : ℕ) = 2 * 5 by rfl, mul_pow]
    exact mul_dvd_mul (pow_dvd_pow 2 hi') (pow_dvd_pow 5 hj')

/-- The text of a signed number is read by its sign and its magnitude. -/
theorem parseFloat_signed (negative : Bool) {cs : List Char} {c : Char} (hc : c ∈ cs.head?)
    (hdigit : c.isDigit = true) {value : ℚ} (h : parseMagnitude cs = some value) :
    parseFloat (String.ofList ((if negative then ['-'] else []) ++ cs)) =
      some (if negative then -value else value) := by
  obtain ⟨rest, rfl⟩ : ∃ rest, cs = c :: rest := by
    cases cs with
    | nil => simp at hc
    | cons b rest => simp_all
  have hspace : c.isWhitespace = false := by
    by_contra hspace
    simp only [Bool.not_eq_false, Char.isWhitespace, Bool.or_eq_true, decide_eq_true_eq] at hspace
    rcases hspace with ((rfl | rfl) | rfl) | rfl <;> cases hdigit
  have hminus : c ≠ '-' := by
    rintro rfl
    cases hdigit
  have hplus : c ≠ '+' := by
    rintro rfl
    cases hdigit
  cases negative with
  | true => simp [parseFloat, h, Char.isWhitespace]
  | false => simp [parseFloat, h, hspace, hminus, hplus]

/-- The sign and the magnitude in the plain text of a number, which an exponent may follow. -/
theorem plainText_magnitude (h : ∃ digits, HasDecimals digits x) :
    ∃ cs c, plainText x = String.ofList ((if decide (x < 0) then ['-'] else []) ++ cs) ∧
      c ∈ cs.head? ∧ c.isDigit = true ∧
      ∀ rest, Ends rest → parseMagnitude (cs ++ rest) = some (|x| * 10 ^ exponentPart rest) := by
  have hhead (n : ℕ) (rest : List Char) :
      ∃ c ∈ (Nat.toDigits 10 n ++ rest).head?, c.isDigit = true := by
    rcases hdigits : Nat.toDigits 10 n with _ | ⟨c, cs⟩
    · exact absurd hdigits Nat.toDigits_ne_nil
    · exact ⟨c, rfl, isDigit_toDigits n c (by simp [hdigits])⟩
  obtain ⟨bound, hbound, hdecimals⟩ := exists_decimals_le h
  rcases hfind : (List.range (x.den.log2 + 1)).find? (fun digits => decide (HasDecimals digits x))
    with _ | digits
  · rw [List.find?_eq_none] at hfind
    exact absurd (decide_eq_true hdecimals) (hfind bound (List.mem_range.mpr (by omega)))
  have hdigits := List.find?_some hfind
  replace hdigits : HasDecimals digits x := of_decide_eq_true hdigits
  cases digits with
  | zero =>
    -- an integer
    have hden : x.den = 1 := by simpa [HasDecimals] using hdigits
    have hnum : (x.num : ℚ) = x := Rat.den_eq_one_iff _ |>.mp hden
    have hvalue : ((x.num.natAbs : ℕ) : ℚ) = |x| := by
      rw [Nat.cast_natAbs, Int.cast_abs, hnum]
    obtain ⟨c, hc, hdigit⟩ := hhead x.num.natAbs []
    rw [List.append_nil] at hc
    refine ⟨Nat.toDigits 10 x.num.natAbs, c, ?_, hc, hdigit, ?_⟩
    · simp only [plainText, hfind, ← Rat.num_neg]
      cases x.num with
      | ofNat n =>
        have hn : ¬(n : ℤ) < 0 := by omega
        simp [Int.repr, ToString.toString, Nat.repr_eq_ofList_toDigits, hn]
      | negSucc n =>
        simp [Int.repr, ToString.toString, Nat.repr_eq_ofList_toDigits, Int.negSucc_lt_zero]
    · intro rest hrest
      rw [parseMagnitude_toDigits _ hrest, hvalue]
  | succ digits =>
    have hmagnitude : (nearest (|x| * 10 ^ (digits + 1)) : ℚ) / 10 ^ (digits + 1) = |x| := by
      have hself : toFixed (digits + 1) |x| = |x| :=
        toFixed_eq_self (abs_nonneg x) (hdigits.abs)
      rwa [toFixed, if_pos (abs_nonneg x)] at hself
    obtain ⟨c, hc, hdigit⟩ := hhead (nearest (|x| * 10 ^ (digits + 1)) / 10 ^ (digits + 1))
      ('.' :: (padded (digits + 1)
        (nearest (|x| * 10 ^ (digits + 1)) % 10 ^ (digits + 1))).toList)
    refine ⟨_, c, ?_, hc, hdigit, ?_⟩
    · simp only [plainText, hfind, toFixedText]
      by_cases hx : x < 0 <;> simp [hx, String.ext_iff]
    · intro rest hrest
      rw [List.append_assoc, List.cons_append,
        parseMagnitude_point _ (Nat.succ_pos digits) hrest, hmagnitude]

/-- A plain text and an exponent are read together. -/
theorem parseFloat_plainText (h : ∃ digits, HasDecimals digits x) {rest : List Char}
    (hrest : Ends rest) :
    parseFloat (plainText x ++ String.ofList rest) = some (x * 10 ^ exponentPart rest) := by
  obtain ⟨cs, c, htext, hc, hdigit, hmagnitude⟩ := plainText_magnitude h
  have hhead : c ∈ (cs ++ rest).head? := by
    cases cs with
    | nil => simp at hc
    | cons b cs => exact hc
  rw [htext, ← String.ofList_append, List.append_assoc,
    parseFloat_signed _ hhead hdigit (hmagnitude rest hrest)]
  by_cases hx : x < 0
  · simp [hx, abs_of_neg hx]
  · simp [hx, abs_of_nonneg (not_lt.mp hx)]

/-- Moving the point leaves finitely many decimals. -/
theorem hasDecimals_div_zpow (h : ∃ digits, HasDecimals digits x) (e : ℤ) :
    ∃ digits, HasDecimals digits (x / 10 ^ e) := by
  obtain ⟨digits, hd⟩ := h
  have hnum : ((x * 10 ^ digits).num : ℚ) = x * 10 ^ digits := Rat.den_eq_one_iff _ |>.mp hd
  refine ⟨digits + e.toNat, ?_⟩
  have hvalue : x / 10 ^ e * 10 ^ (digits + e.toNat) =
      ((x * 10 ^ digits).num * 10 ^ (-e).toNat : ℤ) := by
    have hsplit : (10 : ℚ) ^ e.toNat = 10 ^ e * 10 ^ (-e).toNat := by
      rw [← zpow_natCast, ← zpow_natCast, ← zpow_add₀ (by norm_num)]
      congr 1
      omega
    push_cast
    rw [hnum, pow_add, hsplit]
    field_simp
  rw [HasDecimals, hvalue]
  exact Rat.den_intCast _

/-- The text of a number is read back as that number. -/
theorem parseFloat_numberText (h : ∃ digits, HasDecimals digits x) :
    parseFloat (numberText x) = some x := by
  rw [numberText]
  split
  · have hends : Ends [] := by simp [Ends]
    have hread := parseFloat_plainText h hends
    simpa [exponentPart] using hread
  · have hends : Ends ('e' :: (if Int.log 10 |x| < 0 then '-' else '+') ::
        Nat.toDigits 10 (Int.log 10 |x|).natAbs) := by
      rintro c ⟨⟩
      decide
    have hread := parseFloat_plainText (hasDecimals_div_zpow h (Int.log 10 |x|)) hends
    rw [exponentPart_toDigits, div_mul_cancel₀ x (zpow_ne_zero _ (by norm_num))] at hread
    rw [← hread]
    congr 1
    rw [String.append_assoc]
    congr 1
    split <;> simp [String.ext_iff]

end Places

end StockMarket
