import Mathlib.Data.Nat.Notation
import Mathlib.Tactic.Ring
import Buzz.Library.Text

/-!
# Hexadecimal texts

Lowercase hexadecimal digits of a number, a fixed count of them, and a reader that takes digits of
either case. Texts are lists of characters.

## Main definitions

* `hexDigit`, `hexVal`: one digit and its value.
* `hexDigits`, `hexValue`: texts.
* `decodeHex`: a bit vector from a text of a given length.
* `isLowercaseHex`: the digits of lower case.
* `hexBytes`, `hexText`, `HexSpelling`: bytes from a text, and the ways to write them.

## Main results

* `decodeHex_hexDigits`: a bit vector is read back from its text.
* `hexDigits_inj`: bit vectors with one text are equal.
* `hexDigits_of_decodeHex`: a text of lowercase digits is written again.
* `exists_hexBytes`: a text of hexadecimal digits is read as half as many bytes.
-/

namespace Buzz.Library

/-- The lowercase hexadecimal digit of a number below `16`. -/
def hexDigit (n : ℕ) : Char :=
  if n < 10 then Char.ofNat (48 + n) else Char.ofNat (87 + n)

/-- The value of a hexadecimal digit of either case. -/
def hexVal (c : Char) : Option ℕ :=
  if '0' ≤ c ∧ c ≤ '9' then some (c.toNat - 48)
  else if 'a' ≤ c ∧ c ≤ 'f' then some (c.toNat - 87)
  else if 'A' ≤ c ∧ c ≤ 'F' then some (c.toNat - 55)
  else none

/-- The last `digits` hexadecimal digits of `n`, most significant first. -/
def hexDigits (digits n : ℕ) : List Char :=
  (List.range digits).reverse.map fun i => hexDigit (n / 16 ^ i % 16)

/-- The bytes of a hexadecimal text, as one number. -/
def hexValue (cs : List Char) : Option ℕ :=
  cs.foldlM (fun n c => (hexVal c).map (16 * n + ·)) 0

/-- Decode a bit vector from a text of `digits` hexadecimal digits. -/
def decodeHex (digits w : ℕ) (cs : List Char) : Option (BitVec w) :=
  if cs.length = digits then (hexValue cs).map (BitVec.ofNat w) else none

theorem hexVal_hexDigit : ∀ n < 16, hexVal (hexDigit n) = some n := by decide

theorem hexDigits_succ (digits n : ℕ) :
    hexDigits (digits + 1) n = hexDigit (n / 16 ^ digits % 16) :: hexDigits digits n := by
  rw [hexDigits, List.range_succ, List.reverse_append, List.reverse_singleton,
    List.singleton_append, List.map_cons, hexDigits]

/-- The digits of a number have its value, on top of what was read before. -/
theorem foldlM_hexDigits (digits n before : ℕ) :
    (hexDigits digits n).foldlM (fun n c => (hexVal c).map (16 * n + ·)) before =
      some (before * 16 ^ digits + n % 16 ^ digits) := by
  induction digits generalizing before with
  | zero => simp [hexDigits, Nat.mod_one]
  | succ digits ih =>
    have hdigit := hexVal_hexDigit _ (Nat.mod_lt (n / 16 ^ digits) (by omega : 16 > 0))
    have hsplit : n % 16 ^ (digits + 1) =
        n / 16 ^ digits % 16 * 16 ^ digits + n % 16 ^ digits := by
      rw [pow_succ, Nat.mod_mul, add_comm, mul_comm]
    rw [hexDigits_succ, List.foldlM_cons, hdigit, Option.map_some, Option.bind_eq_bind,
      Option.bind_some, ih, hsplit]
    congr 1
    ring

theorem length_hexDigits (digits n : ℕ) : (hexDigits digits n).length = digits := by
  rw [hexDigits, List.length_map, List.length_reverse, List.length_range]

/-- A bit vector is read back from its text. -/
theorem decodeHex_hexDigits {digits w : ℕ} (hdigits : 2 ^ w ≤ 16 ^ digits) (b : BitVec w) :
    decodeHex digits w (hexDigits digits b.toNat) = some b := by
  have hlt : b.toNat < 16 ^ digits := lt_of_lt_of_le b.isLt hdigits
  rw [decodeHex, if_pos (length_hexDigits digits b.toNat), hexValue, foldlM_hexDigits, zero_mul,
    zero_add, Nat.mod_eq_of_lt hlt, Option.map_some, BitVec.ofNat_toNat, BitVec.setWidth_eq]

theorem hexDigits_inj {digits w : ℕ} (hdigits : 2 ^ w ≤ 16 ^ digits) {a b : BitVec w}
    (h : hexDigits digits a.toNat = hexDigits digits b.toNat) : a = b := by
  have hdecode := congrArg (decodeHex digits w) h
  rw [decodeHex_hexDigits hdigits, decodeHex_hexDigits hdigits] at hdecode
  exact Option.some.inj hdecode

/-- Higher digits are not among the last ones. -/
theorem hexDigits_add_mul (digits k n : ℕ) :
    hexDigits digits (k * 16 ^ digits + n) = hexDigits digits n := by
  refine List.map_congr_left fun i hi => congrArg hexDigit ?_
  rw [List.mem_reverse, List.mem_range] at hi
  have hpow : k * 16 ^ digits = k * 16 ^ (digits - i - 1) * 16 * 16 ^ i := by
    rw [mul_assoc (k * 16 ^ (digits - i - 1)), ← pow_succ', mul_assoc, ← pow_add]
    congr 2
    omega
  rw [hpow, add_comm, Nat.add_mul_div_right _ _ (Nat.pow_pos (by omega)),
    Nat.add_mul_mod_self_right]

/-- A text of lowercase digits is that of a number. -/
theorem exists_hexDigits {cs : List Char} (h : ∀ c ∈ cs, ∃ n < 16, c = hexDigit n) :
    ∃ v < 16 ^ cs.length, cs = hexDigits cs.length v := by
  induction cs with
  | nil => exact ⟨0, Nat.one_pos, rfl⟩
  | cons c cs ih =>
    obtain ⟨d, hd, rfl⟩ := h c List.mem_cons_self
    obtain ⟨v, hv, hcs⟩ := ih fun c hc => h c (List.mem_cons_of_mem _ hc)
    have hpos : 0 < 16 ^ cs.length := Nat.pow_pos (by omega)
    have hdiv : (d * 16 ^ cs.length + v) / 16 ^ cs.length % 16 = d := by
      rw [add_comm, Nat.add_mul_div_right _ _ hpos, Nat.div_eq_of_lt hv, zero_add,
        Nat.mod_eq_of_lt hd]
    refine ⟨d * 16 ^ cs.length + v, ?_, ?_⟩
    · rw [List.length_cons, pow_succ]
      have hle : (d + 1) * 16 ^ cs.length ≤ 16 ^ cs.length * 16 := by
        rw [mul_comm]
        exact Nat.mul_le_mul_left _ hd
      rw [Nat.succ_mul] at hle
      omega
    · rw [List.length_cons, hexDigits_succ, hdiv, hexDigits_add_mul, ← hcs]

/-- A text of lowercase digits is written again from what is read of it. -/
theorem hexDigits_of_decodeHex {digits w : ℕ} (hdigits : 16 ^ digits = 2 ^ w) {cs : List Char}
    (hcs : ∀ c ∈ cs, ∃ n < 16, c = hexDigit n) {b : BitVec w}
    (h : decodeHex digits w cs = some b) : hexDigits digits b.toNat = cs := by
  rw [decodeHex] at h
  split_ifs at h with hlength
  obtain ⟨v, hv, heq⟩ := exists_hexDigits hcs
  rw [hlength] at hv heq
  rw [heq, hexValue, foldlM_hexDigits, zero_mul, zero_add, Nat.mod_eq_of_lt hv] at h
  obtain rfl := Option.some.inj h
  rw [BitVec.toNat_ofNat, Nat.mod_eq_of_lt (hdigits ▸ hv), ← heq]

/-! ### Lowercase digits -/

def isLowercaseHex (c : Char) : Bool := c.isDigit || ('a' ≤ c && c ≤ 'f')

theorem isLowercaseHex_of_mem_hexDigits {digits n : ℕ} {c : Char} (hc : c ∈ hexDigits digits n) :
    isLowercaseHex c = true := by
  obtain ⟨i, -, rfl⟩ := List.mem_map.mp hc
  have hdigits : ∀ d < 16, isLowercaseHex (hexDigit d) = true := by decide
  exact hdigits _ (Nat.mod_lt _ (by decide))

/-- A character that is none of the lowercase hexadecimal ones is in no text of them. -/
theorem not_mem_hexDigits {digits n : ℕ} {c : Char} (hc : isLowercaseHex c = false) :
    c ∉ hexDigits digits n := fun hmem =>
  absurd (isLowercaseHex_of_mem_hexDigits hmem) (by rw [hc]; exact Bool.false_ne_true)

theorem exists_hexDigit {c : Char} (h : isLowercaseHex c = true) : ∃ n < 16, c = hexDigit n := by
  simp only [isLowercaseHex, Char.isDigit, Bool.or_eq_true, Bool.and_eq_true, decide_eq_true_eq,
    UInt32.le_iff_toNat_le, Char.le_def] at h
  have hofNat (n : ℕ) (hn : n = c.toNat) : Char.ofNat n = c := by rw [hn, Char.ofNat_toNat]
  rcases h with ⟨hlow, hhigh⟩ | ⟨hlow, hhigh⟩
  · have hlow' : 48 ≤ c.toNat := hlow
    have hhigh' : c.toNat ≤ 57 := hhigh
    refine ⟨c.toNat - 48, by omega, ?_⟩
    rw [hexDigit, if_pos (by omega)]
    exact (hofNat _ (by omega)).symm
  · have hlow' : 97 ≤ c.toNat := hlow
    have hhigh' : c.toNat ≤ 102 := hhigh
    refine ⟨c.toNat - 87, by omega, ?_⟩
    rw [hexDigit, if_neg (by omega)]
    exact (hofNat _ (by omega)).symm

theorem toNat_le_of_isLowercaseHex {c : Char} (h : isLowercaseHex c = true) : c.toNat ≤ 127 := by
  obtain ⟨n, hn, rfl⟩ := exists_hexDigit h
  have hall : ∀ n < 16, (hexDigit n).toNat ≤ 127 := by decide
  exact hall n hn

/-! ### Bytes -/

/-- The bytes of a text that has two digits of either case for each. -/
def hexBytes : List Char → Option (List UInt8)
  | [] => some []
  | [_] => none
  | high :: low :: rest => do
    let high ← hexVal high
    let low ← hexVal low
    let bytes ← hexBytes rest
    return UInt8.ofNat (16 * high + low) :: bytes

/-- Bytes in lowercase digits. -/
def hexText (bytes : List UInt8) : List Char :=
  bytes.flatMap fun b => [hexDigit (b.toNat / 16), hexDigit (b.toNat % 16)]

theorem hexBytes_hexText (bytes : List UInt8) : hexBytes (hexText bytes) = some bytes := by
  induction bytes with
  | nil => rfl
  | cons b bytes ih =>
    have hlt : b.toNat < 16 * 16 := b.toNat_lt
    have hhigh := hexVal_hexDigit _ (Nat.div_lt_of_lt_mul hlt)
    have hlow := hexVal_hexDigit _ (Nat.mod_lt b.toNat (by decide : 16 > 0))
    have hbyte : UInt8.ofNat (16 * (b.toNat / 16) + b.toNat % 16) = b := by
      rw [Nat.div_add_mod, UInt8.ofNat_toNat]
    change hexBytes (hexDigit _ :: hexDigit _ :: hexText bytes) = _
    simp only [hexBytes, hhigh, hlow, ih, Option.bind_eq_bind, Option.bind_some]
    rw [hbyte]
    rfl

/-- A text of hexadecimal digits is read as half as many bytes. -/
theorem exists_hexBytes {n : ℕ} {cs : List Char} (hlength : cs.length = 2 * n)
    (hdigits : ∀ c ∈ cs, (hexVal c).isSome = true) :
    ∃ bytes, hexBytes cs = some bytes ∧ bytes.length = n := by
  induction n generalizing cs with
  | zero => exact ⟨[], by rw [List.eq_nil_of_length_eq_zero hlength, hexBytes], rfl⟩
  | succ n ih =>
    match cs, hlength with
    | high :: low :: rest, hlength =>
      obtain ⟨h, hhigh⟩ := Option.isSome_iff_exists.mp (hdigits high (by simp))
      obtain ⟨l, hlow⟩ := Option.isSome_iff_exists.mp (hdigits low (by simp))
      have hrest : rest.length = 2 * n := by simpa [Nat.mul_succ] using hlength
      obtain ⟨bytes, hbytes, hcount⟩ := ih hrest
        fun c hc => hdigits c (List.mem_cons_of_mem _ (List.mem_cons_of_mem _ hc))
      exact ⟨_, by simp only [hexBytes, hhigh, hlow, hbytes]; rfl, by simp [hcount]⟩

/-- A way to write bytes in hexadecimal digits. -/
structure HexSpelling where
  text : List UInt8 → List Char
  hexBytes_text : ∀ bytes, hexBytes (text bytes) = some bytes

namespace HexSpelling

/-- Lowercase digits. -/
def lowercase : HexSpelling := ⟨hexText, hexBytes_hexText⟩

theorem text_injective (spelling : HexSpelling) : Function.Injective spelling.text := by
  intro a b h
  have hbytes := spelling.hexBytes_text a
  rw [h, spelling.hexBytes_text b] at hbytes
  exact (Option.some.inj hbytes).symm

end HexSpelling

end Buzz.Library
