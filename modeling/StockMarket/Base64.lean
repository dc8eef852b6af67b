import Mathlib.Data.Nat.Init
import Mathlib.Data.List.Basic

/-! # The bytes of a text, and their base64url form

Three bytes become four characters, so what stands before a multiple of three
bytes is encoded by itself. Nothing is padded.
-/

namespace StockMarket.Base64

section Bytes

private theorem toList_loop (b : ByteArray) (i : ℕ) (r : List UInt8) :
    ByteArray.toList.loop b i r = r.reverse ++ b.data.toList.drop i := by
  induction hn : b.size - i generalizing i r with
  | zero =>
    have hlen : b.data.toList.length ≤ i := by
      rw [Array.length_toList]
      exact Nat.sub_eq_zero_iff_le.mp hn
    rw [ByteArray.toList.loop, if_neg (by omega), List.drop_eq_nil_of_le hlen, List.append_nil]
  | succ n ih =>
    have hi : i < b.size := by omega
    have hlen : i < b.data.toList.length := by rwa [Array.length_toList]
    have hget : b.get! i = b.data.toList[i] := getElem!_pos b.data i hi
    rw [ByteArray.toList.loop, if_pos hi, ih (i + 1) _ (by omega), hget,
      List.drop_eq_getElem_cons hlen, List.reverse_cons, List.append_assoc, List.singleton_append]

theorem toList_eq (b : ByteArray) : b.toList = b.data.toList := toList_loop b 0 []

theorem toUTF8_append (s t : String) :
    (s ++ t).toUTF8.toList = s.toUTF8.toList ++ t.toUTF8.toList := by
  simp only [toList_eq, String.toUTF8_eq_toByteArray, String.toByteArray_append,
    ByteArray.toList_data_append]

theorem toList_toUTF8 (s : String) : s.toUTF8.toList = s.toList.flatMap String.utf8EncodeChar := by
  conv_lhs => rw [← String.ofList_toList (s := s)]
  rw [toList_eq, String.toUTF8_eq_toByteArray, String.toByteArray_ofList, List.utf8Encode,
    List.toList_data_toByteArray]

/-- Every character takes one byte. -/
def Ascii (s : String) : Prop := ∀ c ∈ s.toList, c.utf8Size = 1

theorem Ascii.of_subset {s t : String} (ht : t.toList.all fun c => c.utf8Size = 1)
    (h : ∀ c ∈ s.toList, c ∈ t.toList) : Ascii s := by
  intro c hc
  exact of_decide_eq_true (List.all_eq_true.mp ht c (h c hc))

theorem Ascii.append {s t : String} (hs : Ascii s) (ht : Ascii t) : Ascii (s ++ t) := by
  intro c hc
  rw [String.toList_append] at hc
  rcases List.mem_append.mp hc with hc | hc
  · exact hs c hc
  · exact ht c hc

theorem Ascii.length_toUTF8 {s : String} (h : Ascii s) :
    s.toUTF8.toList.length = s.toList.length := by
  rw [Ascii] at h
  rw [toList_toUTF8]
  generalize s.toList = l at h ⊢
  induction l with
  | nil => rfl
  | cons c l ih =>
    have hc : c.utf8Size = 1 := h c List.mem_cons_self
    have hl := ih fun c' hc' => h c' (List.mem_cons_of_mem c hc')
    rw [List.flatMap_cons, List.length_append, String.length_utf8EncodeChar, hc, hl,
      List.length_cons, Nat.add_comm]

theorem length_le_toUTF8 (s : String) : s.toList.length ≤ s.toUTF8.toList.length := by
  rw [toList_toUTF8]
  induction s.toList with
  | nil => exact Nat.le_refl 0
  | cons c l ih =>
    have hpos : 0 < c.utf8Size := c.utf8Size_pos
    rw [List.flatMap_cons, List.length_append, String.length_utf8EncodeChar, List.length_cons]
    omega

/-- The first bytes of a text are those of a beginning that is long enough. -/
theorem take_toUTF8_append {n : ℕ} {s : String} (hs : n ≤ s.toList.length) (t : String) :
    (s ++ t).toUTF8.toList.take n = s.toUTF8.toList.take n := by
  rw [toUTF8_append, List.take_append_of_le_length (Nat.le_trans hs (length_le_toUTF8 s))]

end Bytes

section Encoding

/-- The character of six bits, without padding and with `-` and `_`. -/
def digit (bits : ℕ) : Char :=
  if bits < 26 then Char.ofNat ('A'.toNat + bits)
  else if bits < 52 then Char.ofNat ('a'.toNat + (bits - 26))
  else if bits < 62 then Char.ofNat ('0'.toNat + (bits - 52))
  else if bits = 62 then '-'
  else '_'

def encode : List UInt8 → List Char
  | [] => []
  | [a] => [digit (a.toNat / 4), digit (a.toNat % 4 * 16)]
  | [a, b] =>
      [digit (a.toNat / 4), digit (a.toNat % 4 * 16 + b.toNat / 16), digit (b.toNat % 16 * 4)]
  | a :: b :: c :: rest =>
      digit (a.toNat / 4) :: digit (a.toNat % 4 * 16 + b.toNat / 16) ::
        digit (b.toNat % 16 * 4 + c.toNat / 64) :: digit (c.toNat % 64) :: encode rest

/-- Whole groups of three bytes are encoded by themselves. -/
theorem encode_append {n : ℕ} {bytes : List UInt8} (h : bytes.length = 3 * n)
    (rest : List UInt8) : encode (bytes ++ rest) = encode bytes ++ encode rest := by
  induction n generalizing bytes with
  | zero =>
    rw [List.length_eq_zero_iff.mp h]
    rfl
  | succ n ih =>
    rcases bytes with _ | ⟨a, _ | ⟨b, _ | ⟨c, bytes⟩⟩⟩
    · simp at h
    · simp at h
      omega
    · simp at h
      omega
    · have hrest : encode (bytes ++ rest) = encode bytes ++ encode rest := by
        apply ih
        simp at h
        omega
      simp only [List.cons_append, encode, hrest]

theorem length_encode {n : ℕ} {bytes : List UInt8} (h : bytes.length = 3 * n) :
    (encode bytes).length = 4 * n := by
  induction n generalizing bytes with
  | zero =>
    rw [List.length_eq_zero_iff.mp h]
    rfl
  | succ n ih =>
    rcases bytes with _ | ⟨a, _ | ⟨b, _ | ⟨c, bytes⟩⟩⟩
    · simp at h
    · simp at h
      omega
    · simp at h
      omega
    · have hrest : (encode bytes).length = 4 * n := by
        apply ih
        simp at h
        omega
      simp only [encode, List.length_cons, hrest]
      omega

end Encoding

end StockMarket.Base64
