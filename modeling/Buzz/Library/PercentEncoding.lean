import Buzz.Library.FixedWidth
import Buzz.Library.Hex
import Buzz.Library.Text

/-!
# Percent-encoding

Every byte of the UTF-8 of a text that is no ASCII letter or digit is written as `%` and two
hexadecimal digits. The decoder takes any text and any digits; what is no UTF-8 then is read with
replacement characters, one for each maximal part of a character that is cut short.

## Main definitions

* `percentEncode`, `percentDecode`.
* `utf8Lossy`: `String::from_utf8_lossy`.

## Main results

* `utf8Lossy_utf8`: a text is read back from its bytes.
* `utf8Lossy_percentDecode_percentEncode`: a text is read back from its encoding.
* `percentEncode_chars`: which characters an encoding has.
-/

namespace Buzz.Library

/-! ### UTF-8 with replacement characters -/

/-- Whether `x` may follow the first byte `b` of a character of three or four bytes. -/
def mayFollow (b x : UInt8) : Bool :=
  (b == 0xE0 && 0xA0 ≤ x && x ≤ 0xBF) || (0xE1 ≤ b && b ≤ 0xEC && 0x80 ≤ x && x ≤ 0xBF) ||
    (b == 0xED && 0x80 ≤ x && x ≤ 0x9F) || (0xEE ≤ b && b ≤ 0xEF && 0x80 ≤ x && x ≤ 0xBF) ||
    (b == 0xF0 && 0x90 ≤ x && x ≤ 0xBF) || (0xF1 ≤ b && b ≤ 0xF3 && 0x80 ≤ x && x ≤ 0xBF) ||
    (b == 0xF4 && 0x80 ≤ x && x ≤ 0x8F)

/-- The number of bytes that one replacement character stands for, where no character begins. -/
def brokenLength : List UInt8 → ℕ
  | b :: x :: y :: _ =>
    if mayFollow b x then if 0xF0 ≤ b && 0x80 ≤ y && y ≤ 0xBF then 3 else 2 else 1
  | [b, x] => if mayFollow b x then 2 else 1
  | _ => 1

theorem brokenLength_pos (bytes : List UInt8) : 0 < brokenLength bytes := by
  unfold brokenLength
  split
  · split_ifs <;> decide
  · split_ifs <;> decide
  · decide

/-- The text of bytes, with replacement characters for what is no UTF-8. -/
def utf8Lossy : List UInt8 → List Char
  | [] => []
  | b :: bytes =>
    match (b :: bytes).toByteArray.utf8DecodeChar? 0 with
    | some c => c :: utf8Lossy ((b :: bytes).drop c.utf8Size)
    | none => '\uFFFD' :: utf8Lossy ((b :: bytes).drop (brokenLength (b :: bytes)))
termination_by bytes => bytes.length
decreasing_by
  · have hpos := c.utf8Size_pos
    simp only [List.length_drop, List.length_cons]
    omega
  · have hpos := brokenLength_pos (b :: bytes)
    simp only [List.length_drop, List.length_cons]
    omega

theorem utf8Lossy_utf8 (text : List Char) : utf8Lossy (utf8 text) = text := by
  induction text with
  | nil => rw [utf8, List.flatMap_nil, utf8Lossy]
  | cons c text ih =>
    have hdecode : (utf8 (c :: text)).toByteArray.utf8DecodeChar? 0 = some c :=
      List.utf8DecodeChar?_utf8Encode_cons
    have hdrop : (utf8 (c :: text)).drop c.utf8Size = utf8 text :=
      List.drop_left' (String.length_utf8EncodeChar c)
    have hne : utf8 (c :: text) ≠ [] := by
      intro hnil
      have hlength := congrArg List.length hnil
      rw [utf8, List.flatMap_cons, List.length_append, String.length_utf8EncodeChar] at hlength
      exact absurd hlength (Nat.ne_of_gt (Nat.add_pos_left c.utf8Size_pos _))
    obtain ⟨b, bytes, hbytes⟩ := List.exists_cons_of_ne_nil hne
    rw [hbytes] at hdecode hdrop ⊢
    rw [utf8Lossy, hdecode]
    exact congrArg (c :: ·) ((congrArg utf8Lossy hdrop).trans ih)

/-! ### Percent-encoding -/

/-- The uppercase hexadecimal digit of a number below `16`. -/
def upperHexDigit (n : ℕ) : Char :=
  if n < 10 then Char.ofNat (48 + n) else Char.ofNat (55 + n)

/-- One byte of an encoding. -/
def percentEncodeByte (b : UInt8) : List Char :=
  if (Char.ofNat b.toNat).isAlphanum then [Char.ofNat b.toNat]
  else ['%', upperHexDigit (b.toNat / 16), upperHexDigit (b.toNat % 16)]

/-- `utf8_percent_encode` with the set `NON_ALPHANUMERIC`. -/
def percentEncode (text : List Char) : List Char := (utf8 text).flatMap percentEncodeByte

/-- `percent_decode_str`. The bytes of a character other than `%` and the digits are none of them,
so that the text is taken character by character. -/
def percentDecode : List Char → List UInt8
  | '%' :: h :: l :: rest =>
    match hexVal h, hexVal l with
    | some high, some low => UInt8.ofNat (16 * high + low) :: percentDecode rest
    | _, _ => 0x25 :: percentDecode (h :: l :: rest)
  | c :: rest => String.utf8EncodeChar c ++ percentDecode rest
  | [] => []

theorem hexVal_upperHexDigit : ∀ n < 16, hexVal (upperHexDigit n) = some n := by decide

theorem upperHexDigit_chars : ∀ n < 16, (upperHexDigit n).isAlphanum = true := by decide

/-- What an encoding is made of. -/
theorem percentEncode_chars {text : List Char} {c : Char} (hc : c ∈ percentEncode text) :
    c = '%' ∨ c.isAlphanum = true := by
  obtain ⟨b, -, hcb⟩ := List.mem_flatMap.mp hc
  have hlt : b.toNat < 256 := b.toNat_lt
  rw [percentEncodeByte] at hcb
  split_ifs at hcb with halnum
  · rw [List.mem_singleton.mp hcb]
    exact .inr halnum
  · rcases List.mem_cons.mp hcb with rfl | hcb
    · exact .inl rfl
    · rcases List.mem_cons.mp hcb with rfl | hcb
      · exact .inr (upperHexDigit_chars _ (Nat.div_lt_of_lt_mul hlt))
      · rw [List.mem_singleton.mp hcb]
        exact .inr (upperHexDigit_chars _ (Nat.mod_lt _ (by decide)))

theorem percentDecode_cons {c : Char} (hc : c ≠ '%') (rest : List Char) :
    percentDecode (c :: rest) = String.utf8EncodeChar c ++ percentDecode rest := by
  rw [percentDecode]
  exact fun _ _ _ heq _ => hc heq

theorem toNat_lt_of_isAlphanum {c : Char} (h : c.isAlphanum = true) : c.toNat < 128 := by
  rw [Char.isAlphanum, Bool.or_eq_true, isAlpha_iff, isDigit_iff] at h
  omega

theorem percentDecode_percentEncodeByte (b : UInt8) (rest : List Char) :
    percentDecode (percentEncodeByte b ++ rest) = b :: percentDecode rest := by
  have hlt : b.toNat < 256 := b.toNat_lt
  rw [percentEncodeByte]
  split_ifs with halnum
  · have hne : Char.ofNat b.toNat ≠ '%' := fun heq => by
      rw [heq] at halnum
      exact absurd halnum (by decide)
    have hnat : (Char.ofNat b.toNat).toNat = b.toNat := by
      have hvalid : b.toNat.isValidChar := .inl (Nat.lt_trans hlt (by decide))
      rw [Char.ofNat, dif_pos hvalid]
      rfl
    have hascii : String.utf8EncodeChar (Char.ofNat b.toNat) =
        [UInt8.ofNat (Char.ofNat b.toNat).toNat] :=
      if_pos (Nat.le_of_lt_succ (toNat_lt_of_isAlphanum halnum))
    have hbyte : String.utf8EncodeChar (Char.ofNat b.toNat) = [b] := by
      rw [hascii, hnat, UInt8.ofNat_toNat]
    rw [List.singleton_append, percentDecode_cons hne, hbyte, List.singleton_append]
  · have hhigh : b.toNat / 16 < 16 := by omega
    have hlow : b.toNat % 16 < 16 := Nat.mod_lt _ (by decide)
    have hvalue : 16 * (b.toNat / 16) + b.toNat % 16 = b.toNat := Nat.div_add_mod _ _
    simp only [List.cons_append, List.nil_append, percentDecode, hexVal_upperHexDigit _ hhigh,
      hexVal_upperHexDigit _ hlow, hvalue, UInt8.ofNat_toNat]

theorem percentDecode_percentEncode (text : List Char) :
    percentDecode (percentEncode text) = utf8 text := by
  rw [percentEncode]
  induction utf8 text with
  | nil => rfl
  | cons b bytes ih => rw [List.flatMap_cons, percentDecode_percentEncodeByte, ih]

/-- A text is read back from its encoding. -/
theorem utf8Lossy_percentDecode_percentEncode (text : List Char) :
    utf8Lossy (percentDecode (percentEncode text)) = text := by
  rw [percentDecode_percentEncode, utf8Lossy_utf8]

end Buzz.Library
