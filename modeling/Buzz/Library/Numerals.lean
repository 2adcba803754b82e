import Mathlib.Algebra.Group.Nat.Defs
import Mathlib.Data.Nat.Log
import Mathlib.Tactic.Common

/-!
# Numerals

How whole numbers are printed and read by the languages that exchange them: the parser of an
unsigned integer below a limit, with an optional plus sign, and the text of a floating-point number
with at most fourteen significant digits, as the format `%.14g` prints it. A number of more than
fourteen digits is printed with an exponent, and then it is no numeral of the parser.

## Main definitions

* `parseUnsigned`: `str::parse` of an unsigned type.
* `toDouble`: the nearest double-precision number.
* `printG14`: the format `%.14g`, of a whole number.

## Main results

* `parseUnsigned_printG14`, `parseUnsigned_printG14_eq_none`: which printed numbers are read back.
-/

namespace Buzz.Library

/-! ### Reading -/

/-- Drop a leading plus sign. -/
def dropPlus : List Char → List Char
  | '+' :: cs => cs
  | cs => cs

/-- Read an unsigned number below `limit`: an optional plus sign and at least one digit. -/
def parseUnsigned (limit : ℕ) (cs : List Char) : Option ℕ :=
  if dropPlus cs = [] ∨ (dropPlus cs).all Char.isDigit = false then none
  else if Nat.ofDigitChars 10 (dropPlus cs) 0 < limit then
    some (Nat.ofDigitChars 10 (dropPlus cs) 0)
  else none

theorem dropPlus_eq_self {cs : List Char} (h : ∀ c ∈ cs, c.isDigit = true) : dropPlus cs = cs := by
  rw [dropPlus.eq_def]
  split
  · exact absurd (h '+' List.mem_cons_self) (by decide)
  · rfl

theorem mem_dropPlus {c : Char} {cs : List Char} (h : c ∈ cs) (hc : c ≠ '+') : c ∈ dropPlus cs := by
  rw [dropPlus.eq_def]
  split
  · exact (List.mem_cons.mp h).resolve_left hc
  · exact h

/-- Decimal digits are read back. -/
theorem toDigits_injective : Function.Injective (Nat.toDigits 10) := by
  intro m n h
  have hvalue := congrArg (Nat.ofDigitChars 10 · 0) h
  simpa only [Nat.ofDigitChars_ten_toDigits] using hvalue

theorem parseUnsigned_toDigits {limit n : ℕ} (h : n < limit) :
    parseUnsigned limit (Nat.toDigits 10 n) = some n := by
  have hdigits : ∀ c ∈ Nat.toDigits 10 n, c.isDigit = true := fun c hc =>
    Nat.isDigit_of_mem_toDigits (by omega) (by omega) hc
  have hall : (Nat.toDigits 10 n).all Char.isDigit = true := List.all_eq_true.mpr hdigits
  have hok : ¬(Nat.toDigits 10 n = [] ∨ (Nat.toDigits 10 n).all Char.isDigit = false) := by
    rw [hall]
    exact fun hbad => hbad.elim Nat.toDigits_ne_nil nofun
  rw [parseUnsigned, dropPlus_eq_self hdigits, if_neg hok, Nat.ofDigitChars_ten_toDigits, if_pos h]

/-- A text with a letter is no numeral. -/
theorem parseUnsigned_eq_none {limit : ℕ} {c : Char} {cs : List Char} (hc : c ∈ cs)
    (hdigit : c.isDigit = false) (hplus : c ≠ '+') : parseUnsigned limit cs = none := by
  refine if_pos (Or.inr ?_)
  rw [List.all_eq_false]
  exact ⟨c, mem_dropPlus hc hplus, by rw [hdigit]; decide⟩

/-! ### Printing -/

/-- `n / unit`, rounded to the nearest number and a tie to the even one. -/
def roundHalfEven (n unit : ℕ) : ℕ :=
  if unit < 2 * (n % unit) ∨ 2 * (n % unit) = unit ∧ n / unit % 2 = 1 then n / unit + 1
  else n / unit

/-- The double-precision number nearest to a whole number: 53 significant bits. -/
def toDouble (n : ℕ) : ℕ :=
  if n < 2 ^ 53 then n
  else roundHalfEven n (2 ^ (Nat.log2 n - 52)) * 2 ^ (Nat.log2 n - 52)

/-- A mantissa of one digit and a fraction without trailing zeros. -/
def printMantissa (digits : List Char) : List Char :=
  match (digits.reverse.dropWhile (· = '0')).reverse with
  | [] => []
  | [d] => [d]
  | d :: fraction => d :: '.' :: fraction

/-- A number of more than fourteen digits, rounded to fourteen of them and with an exponent. -/
def printExponent (n : ℕ) : List Char :=
  let exponent := (Nat.toDigits 10 n).length - 1
  let rounded := roundHalfEven n (10 ^ (exponent - 13))
  -- Rounding nines up carries into the exponent.
  let exponent := if rounded = 10 ^ 14 then exponent + 1 else exponent
  printMantissa (Nat.toDigits 10 rounded) ++ ['e', '+'] ++ Nat.toDigits 10 exponent

/-- The format `%.14g` of the double-precision number nearest to a whole number. -/
def printG14 (n : ℕ) : List Char :=
  if toDouble n < 10 ^ 14 then Nat.toDigits 10 (toDouble n) else printExponent (toDouble n)

example : printG14 (10 ^ 14 - 1) = "99999999999999".toList := by decide

example : printG14 123456789012345678 = "1.2345678901235e+17".toList := by decide

theorem toDouble_of_lt {n : ℕ} (h : n < 2 ^ 53) : toDouble n = n := if_pos h

theorem div_le_roundHalfEven (n unit : ℕ) : n / unit ≤ roundHalfEven n unit := by
  rw [roundHalfEven]
  split_ifs
  · exact Nat.le_succ _
  · exact Nat.le_refl _

/-- Rounding to 53 bits keeps a large number large. -/
theorem le_toDouble {n : ℕ} (h : 2 ^ 53 ≤ n) : 2 ^ 52 ≤ toDouble n := by
  have hne : n ≠ 0 := by
    rintro rfl
    exact absurd h (by decide)
  have hlog : 53 ≤ Nat.log2 n := (Nat.le_log2 hne).mpr h
  have hpow : 2 ^ 52 * 2 ^ (Nat.log2 n - 52) ≤ n := by
    rw [← Nat.pow_add, Nat.add_sub_cancel' (by omega)]
    exact Nat.log2_self_le hne
  have hunit : 0 < 2 ^ (Nat.log2 n - 52) := Nat.two_pow_pos _
  have hdiv : 2 ^ 52 ≤ n / 2 ^ (Nat.log2 n - 52) := (Nat.le_div_iff_mul_le hunit).mpr hpow
  rw [toDouble, if_neg (Nat.not_lt.mpr h)]
  calc 2 ^ 52 ≤ roundHalfEven n (2 ^ (Nat.log2 n - 52)) := hdiv.trans (div_le_roundHalfEven _ _)
    _ ≤ roundHalfEven n (2 ^ (Nat.log2 n - 52)) * 2 ^ (Nat.log2 n - 52) :=
      Nat.le_mul_of_pos_right _ hunit

theorem toDouble_lt_iff {n : ℕ} : toDouble n < 10 ^ 14 ↔ n < 10 ^ 14 := by
  by_cases h : n < 2 ^ 53
  · rw [toDouble_of_lt h]
  · have hdouble := le_toDouble (Nat.not_lt.mp h)
    omega

/-- A number of at most fourteen digits is printed as it is. -/
theorem printG14_of_lt {n : ℕ} (h : n < 10 ^ 14) : printG14 n = Nat.toDigits 10 n := by
  rw [printG14, if_pos (toDouble_lt_iff.mpr h), toDouble_of_lt (by omega)]

theorem e_mem_printG14 {n : ℕ} (h : 10 ^ 14 ≤ n) : 'e' ∈ printG14 n := by
  rw [printG14, if_neg (mt toDouble_lt_iff.mp (Nat.not_lt.mpr h)), printExponent]
  exact List.mem_append_left _ (List.mem_append_right _ List.mem_cons_self)

/-- A number of at most fourteen digits is read back. -/
theorem parseUnsigned_printG14 {limit n : ℕ} (h : n < 10 ^ 14) (hlimit : n < limit) :
    parseUnsigned limit (printG14 n) = some n := by
  rw [printG14_of_lt h, parseUnsigned_toDigits hlimit]

/-- A number of more than fourteen digits is not read back. -/
theorem parseUnsigned_printG14_eq_none {limit n : ℕ} (h : 10 ^ 14 ≤ n) :
    parseUnsigned limit (printG14 n) = none :=
  parseUnsigned_eq_none (e_mem_printG14 h) (by decide) (by decide)

/-- The characters of a printed number. -/
theorem printG14_chars {n : ℕ} {c : Char} (h : c ∈ printG14 n) :
    c.isDigit = true ∨ c = '.' ∨ c = 'e' ∨ c = '+' := by
  have hdigits : ∀ {m}, c ∈ Nat.toDigits 10 m → c.isDigit = true := fun hc =>
    Nat.isDigit_of_mem_toDigits (by omega) (by omega) hc
  have hmantissa : ∀ {m}, c ∈ printMantissa (Nat.toDigits 10 m) → c.isDigit = true ∨ c = '.' := by
    intro m hc
    have hsub : ∀ {d}, d ∈ ((Nat.toDigits 10 m).reverse.dropWhile (· = '0')).reverse →
        d ∈ Nat.toDigits 10 m := fun hd =>
      List.mem_reverse.mp ((List.dropWhile_sublist _).subset (List.mem_reverse.mp hd))
    rw [printMantissa] at hc
    split at hc
    · exact absurd hc List.not_mem_nil
    · next d heq => exact Or.inl (hdigits (hsub (heq ▸ hc)))
    · next d fraction _ heq =>
      rcases List.mem_cons.mp hc with rfl | hc
      · exact Or.inl (hdigits (hsub (heq ▸ List.mem_cons_self)))
      · rcases List.mem_cons.mp hc with rfl | hc
        · exact Or.inr rfl
        · exact Or.inl (hdigits (hsub (heq ▸ List.mem_cons_of_mem _ hc)))
  rw [printG14] at h
  split_ifs at h
  · exact Or.inl (hdigits h)
  · rw [printExponent] at h
    rcases List.mem_append.mp h with h | h
    · rcases List.mem_append.mp h with h | h
      · exact (hmantissa h).imp_right Or.inl
      · simp only [List.mem_cons, List.not_mem_nil, or_false] at h
        exact Or.inr (Or.inr h)
    · exact Or.inl (hdigits h)

end Buzz.Library
