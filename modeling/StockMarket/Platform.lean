import Mathlib.Data.Int.Log
import Mathlib.Data.Rat.Floor
import Mathlib.Tactic.Linarith
import Mathlib.Tactic.Positivity
import Mathlib.Tactic.FieldSimp

/-! # Numbers and exceptions the services share

Amounts, prices and balances are exact rationals: `Decimal128.fromString` and
`parseFloat` keep the value, and the only rounding is the one the code asks
for with `toFixed`. A function whose sums are also looked at as the sums of
doubles takes the number format as an argument. Exceptions carry the texts the
services put into them.
-/

namespace StockMarket

/-- The nearest integer of a nonnegative number, halves going up. -/
def nearest (x : ℚ) : ℕ := ⌊x + 1 / 2⌋.toNat

/-- The value of `x.toFixed(digits)`: the nearest multiple of the last digit,
halves going away from zero. -/
def toFixed (digits : ℕ) (x : ℚ) : ℚ :=
  if 0 ≤ x then nearest (x * 10 ^ digits) / 10 ^ digits
  else -(nearest (-x * 10 ^ digits) / 10 ^ digits)

theorem toFixed_nonneg {digits : ℕ} {x : ℚ} (hx : 0 ≤ x) : 0 ≤ toFixed digits x := by
  rw [toFixed, if_pos hx]
  positivity

/-- The integer that is less than a half away. -/
theorem nearest_eq {x : ℚ} {n : ℕ} (h : |x - n| < 1 / 2) : nearest x = n := by
  have hfloor : ⌊x + 1 / 2⌋ = n := by
    rw [abs_lt] at h
    rw [Int.floor_eq_iff]
    constructor <;> push_cast <;> linarith
  rw [nearest, hfloor, Int.toNat_natCast]

def HasDecimals (digits : ℕ) (x : ℚ) : Prop := (x * 10 ^ digits).den = 1

instance (digits : ℕ) (x : ℚ) : Decidable (HasDecimals digits x) :=
  inferInstanceAs (Decidable (_ = 1))

/-- `toFixed` finds the decimal that a nonnegative number is less than half a
digit away from. -/
theorem toFixed_eq_of_near {digits : ℕ} {x y : ℚ} (hx : 0 ≤ x) (hd : HasDecimals digits y)
    (hnear : |x - y| < 1 / 2 / 10 ^ digits) : toFixed digits x = y := by
  have hpow : (0 : ℚ) < 10 ^ digits := by positivity
  have hnum : ((y * 10 ^ digits).num : ℚ) = y * 10 ^ digits := Rat.den_eq_one_iff _ |>.mp hd
  have hscaled : |x * 10 ^ digits - y * 10 ^ digits| < 1 / 2 := by
    rw [← sub_mul, abs_mul, abs_of_pos hpow]
    exact (lt_div_iff₀ hpow).mp hnear
  have hnonneg : 0 ≤ (y * 10 ^ digits).num := by
    have hlow : -(1 / 2) < ((y * 10 ^ digits).num : ℚ) := by
      rw [hnum]
      linarith [(abs_lt.mp hscaled).2, mul_nonneg hx hpow.le]
    by_contra hneg
    have hint : (y * 10 ^ digits).num ≤ -1 := by omega
    have hcast : ((y * 10 ^ digits).num : ℚ) ≤ -1 := by exact_mod_cast hint
    linarith
  obtain ⟨n, hn⟩ := Int.eq_ofNat_of_zero_le hnonneg
  have hval : y * 10 ^ digits = (n : ℚ) := by
    rw [← hnum, hn]
    rfl
  rw [toFixed, if_pos hx, nearest_eq (hval ▸ hscaled), ← hval]
  field_simp

/-- `toFixed` is exact on a nonnegative number that needs no more digits. -/
theorem toFixed_eq_self {digits : ℕ} {x : ℚ} (hx : 0 ≤ x) (hd : HasDecimals digits x) :
    toFixed digits x = x := by
  apply toFixed_eq_of_near hx hd
  rw [sub_self, abs_zero]
  positivity

theorem hasDecimals_of_toFixed_eq {digits : ℕ} {x : ℚ} (hx : 0 ≤ x) (h : toFixed digits x = x) :
    HasDecimals digits x := by
  have hpow : (10 : ℚ) ^ digits ≠ 0 := by positivity
  rw [toFixed, if_pos hx] at h
  rw [HasDecimals, ← h, div_mul_cancel₀ _ hpow]
  exact Rat.den_natCast _

def padded (width n : ℕ) : String :=
  String.ofList (List.replicate (width - (toString n).length) '0') ++ toString n

/-- The text of `x.toFixed(digits)` for a positive number of digits. -/
def toFixedText (digits : ℕ) (x : ℚ) : String :=
  let units := nearest (|x| * 10 ^ digits)
  (if x < 0 then "-" else "") ++ toString (units / 10 ^ digits) ++ "." ++
    padded digits (units % 10 ^ digits)

/-- A number in plain notation, with as many decimals as it has. -/
def plainText (x : ℚ) : String :=
  match (List.range (x.den.log2 + 1)).find? (fun digits => decide (HasDecimals digits x)) with
  | some (digits + 1) => toFixedText (digits + 1) x
  | _ => toString x.num

/-- The text of a number in a template: with an exponent below `1e-6` and from
`1e21` on. -/
def numberText (x : ℚ) : String :=
  let exponent := Int.log 10 |x|
  if x = 0 ∨ -7 < exponent ∧ exponent < 21 then plainText x
  else
    plainText (x / 10 ^ exponent) ++ (if exponent < 0 then "e-" else "e+") ++
      toString exponent.natAbs

example : toFixed 6 (1 / 3) = 333333 / 1000000 := by decide +kernel
example : toFixedText 2 (5 / 2) = "2.50" := by decide +kernel
example : numberText (-1 / 40) = "-0.025" := by decide +kernel
example : numberText (1 / 10000000) = "1e-7" := by decide +kernel

/-- A key that ends in a number ends in one number only. -/
theorem append_number_inj {first second : String} {n m : ℕ}
    (h : first ++ ":" ++ toString n = second ++ ":" ++ toString m) : n = m := by
  have hdigits (k : ℕ) : ∀ c ∈ (Nat.toDigits 10 k).reverse, (c != ':') = true := fun c hc => by
    have hdigit := Nat.isDigit_of_mem_toDigits (by decide) (by decide) (List.mem_reverse.mp hc)
    rw [bne_iff_ne]
    rintro rfl
    simp [Char.isDigit] at hdigit
  have hlast (s : String) (k : ℕ) :
      (s ++ ":" ++ toString k).toList.reverse.takeWhile (· != ':') =
        (Nat.toDigits 10 k).reverse := by
    simp [String.toList_append, Nat.toList_repr, List.takeWhile_append_of_pos (hdigits k)]
  have hsame := hlast first n
  rw [h, hlast second m, List.reverse_inj] at hsame
  calc
    n = Nat.ofDigitChars 10 (Nat.toDigits 10 n) 0 := Nat.ofDigitChars_ten_toDigits.symm
    _ = Nat.ofDigitChars 10 (Nat.toDigits 10 m) 0 := by rw [hsame]
    _ = m := Nat.ofDigitChars_ten_toDigits

/-- The calendar fields of a `Date`, months counted from 1. -/
structure CalendarDate where
  year : ℤ
  month : ℤ
  day : ℤ
  deriving DecidableEq, Repr

/-- The calendar date, in UTC, of a moment given in milliseconds since 1970. The
count is by eras of 400 years of 146097 days, whose years begin in March. -/
def CalendarDate.ofTime (ms : ℕ) : CalendarDate :=
  let days : ℤ := (ms / 86400000 : ℕ) + 719468
  let era := days / 146097
  let ofEra := days % 146097
  let yearOfEra := (ofEra - ofEra / 1460 + ofEra / 36524 - ofEra / 146096) / 365
  let ofYear := ofEra - (365 * yearOfEra + yearOfEra / 4 - yearOfEra / 100)
  let shifted := (5 * ofYear + 2) / 153
  let month := if shifted < 10 then shifted + 3 else shifted - 9
  { year := yearOfEra + era * 400 + if month ≤ 2 then 1 else 0
    month := month
    day := ofYear - (153 * shifted + 2) / 5 + 1 }

example : CalendarDate.ofTime 1709164800000 = ⟨2024, 2, 29⟩ := by decide

/-- A document's id as text: 24 hexadecimal digits. -/
structure ObjectId where
  text : String
  length_text : text.toList.length = 24
  hex_text : ∀ c ∈ text.toList, c ∈ "0123456789abcdef".toList
  deriving DecidableEq

instance : ToString ObjectId := ⟨ObjectId.text⟩

/-- The id with a text whose characters have been looked at. -/
def ObjectId.ofText (text : String)
    (h : text.toList.length = 24 ∧ text.toList.all fun c => c ∈ "0123456789abcdef".toList) :
    ObjectId where
  text := text
  length_text := h.1
  hex_text c hc := of_decide_eq_true (List.all_eq_true.mp h.2 c hc)

theorem ObjectId.ext_text {id id' : ObjectId} (h : id.text = id'.text) : id = id' := by
  cases id
  cases id'
  cases h
  rfl

/-- `new Types.ObjectId(text)`, which throws unless the text is 24 hexadecimal digits. -/
def ObjectId.parse? (text : String) : Option ObjectId :=
  let lower := String.ofList (text.toList.map Char.toLower)
  if h : lower.toList.length = 24 ∧ lower.toList.all fun c => c ∈ "0123456789abcdef".toList then
    some (ObjectId.ofText lower h)
  else none

/-- The text of an id is read back as that id. -/
@[simp] theorem ObjectId.parse?_text (id : ObjectId) : ObjectId.parse? id.text = some id := by
  have hdigits : "0123456789abcdef".toList.all (fun c => c.toLower = c) = true := by decide
  have hlower : String.ofList (id.text.toList.map Char.toLower) = id.text := by
    have hmap : id.text.toList.map Char.toLower = id.text.toList.map fun c => c :=
      List.map_congr_left fun c hc =>
        of_decide_eq_true (List.all_eq_true.mp hdigits c (id.hex_text c hc))
    rw [hmap, List.map_id', String.ofList_toList]
  have hhex : id.text.toList.length = 24 ∧
      id.text.toList.all fun c => c ∈ "0123456789abcdef".toList := by
    refine ⟨id.length_text, List.all_eq_true.mpr fun c hc => ?_⟩
    exact decide_eq_true (id.hex_text c hc)
  simp only [parse?, hlower]
  rw [dif_pos hhex]
  exact congrArg some (ObjectId.ext_text rfl)

theorem modify_length_append {α : Type} (f : α → α) (l : List α) (a : α) :
    (l ++ [a]).modify l.length f = l ++ [f a] := by
  induction l with
  | nil => rfl
  | cons b l ih => simp [ih]

/-- A document of a collection into which one was inserted. -/
theorem getElem?_concat_cases {α : Type} {l : List α} {a b : α} {n : ℕ}
    (h : (l ++ [a])[n]? = some b) : l[n]? = some b ∨ (n = l.length ∧ b = a) := by
  rcases Nat.lt_or_ge n l.length with hlt | hge
  · rw [List.getElem?_append_left hlt] at h
    exact .inl h
  · rw [List.getElem?_append_right hge, List.getElem?_singleton] at h
    split at h
    · exact .inr ⟨by omega, (Option.some.inj h).symm⟩
    · cases h

/-- A JavaScript number: `none` is `NaN`. -/
abbrev Number := Option ℚ

/-- A `Decimal128` field as the code meets it: the driver's value, or the plain
object `{ $numberDecimal }` that its JSON text parses to. -/
inductive Decimal where
  | bson (value : Number)
  | json (numberDecimal : Number)
  deriving DecidableEq, Repr

namespace Decimal

/-- What is left of the field after `JSON.stringify` and `JSON.parse`. -/
def viaJson : Decimal → Decimal
  | .bson value => .json value
  | .json numberDecimal => .json numberDecimal

/-- `parseFloat(x.toString())`: a plain object's text is not a number. -/
def parseFloat : Decimal → Number
  | .bson value => value
  | .json _ => none

/-- `toFloat`, which knows both forms. -/
def toFloat : Decimal → ℚ
  | .bson value => value.getD 0
  | .json numberDecimal => numberDecimal.getD 0

end Decimal

/-- What the services throw. `driver` stands for whatever a database or Redis
driver throws, `axios` for a failed HTTP request, with the status and the
message of the response if there was one. -/
inductive Exception where
  | badRequest (message : String)
  | unauthorized (message : String)
  | forbidden (message : String)
  | notFound (message : String)
  | conflict (message : String)
  | badGateway (message : String)
  | serviceUnavailable (message : String)
  | driver (message : String)
  | axios (status : Option ℕ) (responseMessage : Option String)
  deriving DecidableEq, Repr

namespace Exception

/-- `(err as Error).message`. -/
def message : Exception → String
  | .badRequest m => m
  | .unauthorized m => m
  | .forbidden m => m
  | .notFound m => m
  | .conflict m => m
  | .badGateway m => m
  | .serviceUnavailable m => m
  | .driver m => m
  | .axios (some status) _ => s!"Request failed with status code {status}"
  | .axios none _ => "Network Error"

/-- `error.response?.status`. -/
def responseStatus : Exception → Option ℕ
  | .axios status _ => status
  | _ => none

/-- `error.response?.data?.message`. -/
def responseMessage : Exception → Option String
  | .axios _ responseMessage => responseMessage
  | _ => none

/-- The HTTP status a controller answers with. -/
def status : Exception → ℕ
  | .badRequest _ => 400
  | .unauthorized _ => 401
  | .forbidden _ => 403
  | .notFound _ => 404
  | .conflict _ => 409
  | .badGateway _ => 502
  | .serviceUnavailable _ => 503
  | .driver _ => 500
  | .axios _ _ => 500

/-- The text the exception filter puts into the response body. -/
def bodyMessage : Exception → String
  | .driver _ => "An unexpected error occurred"
  | .axios _ _ => "An unexpected error occurred"
  | e => e.message

end Exception
end StockMarket
