import Mathlib.Data.Int.Notation
import Mathlib.Tactic.Common
import Buzz.Library.FixedWidth

/-!
# Timestamps in UTC and their RFC 3339 texts

A date and time in UTC by its calendar fields, and its text as `chrono` writes it: four digits of a
year, or a sign and at least four for a year outside `0..9999`; no, three, six or nine digits of a
fraction, as few as the value needs; and the offset `+00:00`. A second of `60` is a leap second.

## Main definitions

* `DateTime`, `DateTime.truncMicros`, `DateTime.toRfc3339`.

## Main results

* `DateTime.toRfc3339_inj`: times of whole microseconds are told apart by their texts.
-/

namespace Buzz.Library

/-- A time in UTC. -/
structure DateTime where
  year : ℤ
  month : ℕ
  day : ℕ
  hour : ℕ
  minute : ℕ
  second : ℕ
  nanosecond : ℕ
  month_le : month ≤ 12
  day_le : day ≤ 31
  hour_lt : hour < 24
  minute_lt : minute < 60
  second_le : second ≤ 60
  nanosecond_lt : nanosecond < 1000000000
  deriving DecidableEq

namespace DateTime

/-- Drop what is less than a microsecond: `trunc_subsecs(6)`. -/
def truncMicros (t : DateTime) : DateTime :=
  { t with
    nanosecond := t.nanosecond - t.nanosecond % 1000
    nanosecond_lt := Nat.lt_of_le_of_lt (Nat.sub_le _ _) t.nanosecond_lt }

/-- A year outside `0..9999` after its sign. -/
def farYear (n : ℕ) : List Char := if n < 10000 then padded 4 n else Nat.toDigits 10 n

/-- The year. -/
def yearText (year : ℤ) : List Char :=
  if year < 0 then '-' :: farYear year.natAbs
  else if 9999 < year then '+' :: farYear year.natAbs
  else padded 4 year.natAbs

/-- The fraction of a second. -/
def fractionText (nanosecond : ℕ) : List Char :=
  if nanosecond = 0 then []
  else if nanosecond % 1000000 = 0 then '.' :: padded 3 (nanosecond / 1000000)
  else if nanosecond % 1000 = 0 then '.' :: padded 6 (nanosecond / 1000)
  else '.' :: padded 9 nanosecond

/-- The date up to the `T`. -/
def dateText (t : DateTime) : List Char :=
  yearText t.year ++ ('-' :: padded 2 t.month ++ '-' :: padded 2 t.day)

/-- The hours, minutes and seconds. -/
def clockText (t : DateTime) : List Char :=
  padded 2 t.hour ++ ':' :: (padded 2 t.minute ++ ':' :: padded 2 t.second)

/-- The text of a time: `to_rfc3339`. -/
def toRfc3339 (t : DateTime) : List Char :=
  t.dateText ++ 'T' :: (t.clockText ++ (fractionText t.nanosecond ++ "+00:00".toList))

/-! ### The parts are read back -/

theorem isDigit_of_mem_farYear {n : ℕ} {c : Char} (hc : c ∈ farYear n) : c.isDigit = true := by
  rw [farYear] at hc
  split_ifs at hc
  · exact isDigit_of_mem_padded hc
  · exact Nat.isDigit_of_mem_toDigits (by decide) (by decide) hc

theorem farYear_inj {n m : ℕ} (h : farYear n = farYear m) : n = m := by
  have hvalue : ∀ k, Nat.ofDigitChars 10 (farYear k) 0 = k := by
    intro k
    rw [farYear]
    split_ifs with hk
    · have hmod : k % 10 ^ 4 = k := Nat.mod_eq_of_lt hk
      rw [ofDigitChars_padded, hmod]
    · exact Nat.ofDigitChars_ten_toDigits
  rw [← hvalue n, h, hvalue]

/-- A sign is not a digit. -/
theorem cons_ne_padded {c : Char} (hc : ¬ c.isDigit = true) {cs : List Char} {width n : ℕ} :
    c :: cs ≠ padded width n := by
  intro h
  exact hc (isDigit_of_mem_padded (h ▸ List.mem_cons_self))

theorem yearText_inj {y z : ℤ} (h : yearText y = yearText z) : y = z := by
  rw [yearText, yearText] at h
  split_ifs at h with hy hz hz hy hz hz hz hz
  · have hyear := farYear_inj (List.cons.inj h).2
    omega
  · exact absurd (List.cons.inj h).1 (by decide)
  · exact absurd h (cons_ne_padded (by decide))
  · exact absurd (List.cons.inj h).1 (by decide)
  · have hyear := farYear_inj (List.cons.inj h).2
    omega
  · exact absurd h (cons_ne_padded (by decide))
  · exact absurd h.symm (cons_ne_padded (by decide))
  · exact absurd h.symm (cons_ne_padded (by decide))
  · have hyear := padded_inj (by omega) (by omega) h
    omega

/-- Whole microseconds are told apart by their fractions, whose lengths differ with the
precision. -/
theorem fractionText_inj {n m : ℕ} (hn : n < 1000000000) (hm : m < 1000000000)
    (h : fractionText n = fractionText m) : n = m := by
  have hlength := congrArg List.length h
  rw [fractionText, fractionText] at h hlength
  split_ifs at h hlength with hn₀ hm₀ hm₁ hm₂ hn₁ hm₀ hm₁ hm₂ hn₂ hm₀ hm₁ hm₂ hm₀ hm₁ hm₂
  all_goals
    first
      | omega
      | simp only [List.length_cons, length_padded] at hlength; omega
      | have hpadded := padded_inj (by omega) (by omega) (List.cons.inj h).2; omega

theorem length_clockText (t : DateTime) : t.clockText.length = 8 := by
  rw [clockText, List.length_append, List.length_cons, List.length_append, List.length_cons,
    length_padded, length_padded, length_padded]

theorem clockText_inj {s t : DateTime} (h : s.clockText = t.clockText) :
    s.hour = t.hour ∧ s.minute = t.minute ∧ s.second = t.second := by
  have hbounds := And.intro s.hour_lt t.hour_lt
  have hminutes := And.intro s.minute_lt t.minute_lt
  have hseconds := And.intro s.second_le t.second_le
  obtain ⟨hhour, hrest⟩ := List.append_inj h (by rw [length_padded, length_padded])
  obtain ⟨hminute, hrest⟩ :=
    List.append_inj (List.cons.inj hrest).2 (by rw [length_padded, length_padded])
  exact ⟨padded_inj (by omega) (by omega) hhour, padded_inj (by omega) (by omega) hminute,
    padded_inj (by omega) (by omega) (List.cons.inj hrest).2⟩

theorem dateText_inj {s t : DateTime} (h : s.dateText = t.dateText) :
    s.year = t.year ∧ s.month = t.month ∧ s.day = t.day := by
  have hmonths := And.intro s.month_le t.month_le
  have hdays := And.intro s.day_le t.day_le
  obtain ⟨hyear, hrest⟩ := List.append_inj' h (by simp [length_padded])
  obtain ⟨hmonth, hrest⟩ :=
    List.append_inj (List.cons.inj hrest).2 (by rw [length_padded, length_padded])
  exact ⟨yearText_inj hyear, padded_inj (by omega) (by omega) hmonth,
    padded_inj (by omega) (by omega) (List.cons.inj hrest).2⟩

/-! ### The text -/

/-- What the characters of a date are. -/
theorem mem_dateText {t : DateTime} {c : Char} (hc : c ∈ t.dateText) :
    c.isDigit = true ∨ c ∈ ['-', '+'] := by
  have hyear : ∀ c ∈ yearText t.year, c.isDigit = true ∨ c ∈ ['-', '+'] := by
    intro c hc
    rw [yearText] at hc
    split_ifs at hc
    · rcases List.mem_cons.mp hc with rfl | hc
      · exact Or.inr (by decide)
      · exact Or.inl (isDigit_of_mem_farYear hc)
    · rcases List.mem_cons.mp hc with rfl | hc
      · exact Or.inr (by decide)
      · exact Or.inl (isDigit_of_mem_farYear hc)
    · exact Or.inl (isDigit_of_mem_padded hc)
  simp only [dateText, List.mem_append, List.mem_cons] at hc
  rcases hc with hc | (rfl | hc) | rfl | hc
  · exact hyear c hc
  · exact Or.inr (by decide)
  · exact Or.inl (isDigit_of_mem_padded hc)
  · exact Or.inr (by decide)
  · exact Or.inl (isDigit_of_mem_padded hc)

theorem mem_fractionText {n : ℕ} {c : Char} (hc : c ∈ fractionText n) :
    c.isDigit = true ∨ c = '.' := by
  have hcons : ∀ {width k : ℕ}, c ∈ '.' :: padded width k → c.isDigit = true ∨ c = '.' := by
    intro width k hc
    rcases List.mem_cons.mp hc with rfl | hc
    · exact Or.inr rfl
    · exact Or.inl (isDigit_of_mem_padded hc)
  rw [fractionText] at hc
  split_ifs at hc
  · exact absurd hc List.not_mem_nil
  · exact hcons hc
  · exact hcons hc
  · exact hcons hc

/-- The characters of a text. -/
theorem mem_toRfc3339 {t : DateTime} {c : Char} (hc : c ∈ t.toRfc3339) :
    c.isDigit = true ∨ c ∈ ['-', '+', 'T', ':', '.'] := by
  simp only [toRfc3339, clockText, List.mem_append, List.mem_cons] at hc
  rcases hc with hc | rfl | (hc | rfl | hc | rfl | hc) | hc | hc
  · refine (mem_dateText hc).imp_right fun hsign => ?_
    exact List.mem_of_mem_take (i := 2) hsign
  · exact Or.inr (by decide)
  · exact Or.inl (isDigit_of_mem_padded hc)
  · exact Or.inr (by decide)
  · exact Or.inl (isDigit_of_mem_padded hc)
  · exact Or.inr (by decide)
  · exact Or.inl (isDigit_of_mem_padded hc)
  · refine (mem_fractionText hc).imp_right ?_
    rintro rfl
    decide
  · have hall :
        ("+00:00".toList.all fun c => c.isDigit || ['-', '+', 'T', ':', '.'].contains c) = true :=
      rfl
    have hone := List.all_eq_true.mp hall c hc
    simpa using hone

/-- Times are told apart by their texts. -/
theorem toRfc3339_inj {s t : DateTime} (h : s.toRfc3339 = t.toRfc3339) : s = t := by
  have hnot : ∀ r : DateTime, ∀ c ∈ r.dateText, c ≠ 'T' := by
    rintro r c hc rfl
    rcases mem_dateText hc with hdigit | hsign
    · exact absurd hdigit (by decide)
    · exact absurd hsign (by decide)
  obtain ⟨hdate, -, hrest⟩ := append_cons_inj_of_not (· ≠ 'T') (hnot s) (hnot t) (by simp)
    (by simp) h
  obtain ⟨hclock, hrest⟩ := List.append_inj hrest (by rw [length_clockText, length_clockText])
  have hfraction := fractionText_inj s.nanosecond_lt t.nanosecond_lt
    (List.append_cancel_right hrest)
  obtain ⟨hyear, hmonth, hday⟩ := dateText_inj hdate
  obtain ⟨hhour, hminute, hsecond⟩ := clockText_inj hclock
  cases s
  cases t
  simp only at hyear hmonth hday hhour hminute hsecond hfraction
  simp only [hyear, hmonth, hday, hhour, hminute, hsecond, hfraction]

end DateTime

end Buzz.Library
