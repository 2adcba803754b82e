import Mathlib.Data.List.Basic
import Mathlib.Data.Nat.Notation
import Mathlib.Tactic.Common

/-!
# Base64

The standard alphabet, with padding. The decoder takes canonical texts only: as much padding as the
encoder writes, and no bits after the last byte.

## Main definitions

* `base64Digit`, `base64Val`: one digit and its value.
* `encodeBase64`, `decodeBase64`.

## Main results

* `decodeBase64_encodeBase64`, `encodeBase64_of_decodeBase64`: each undoes the other.
* `length_encodeBase64`, `mem_encodeBase64`: the length of a text, and its characters.
-/

namespace Buzz.Library

/-! ### Digits -/

/-- The digit of a number below `64`. -/
def base64Digit (n : ℕ) : Char :=
  if n < 26 then Char.ofNat (65 + n)
  else if n < 52 then Char.ofNat (71 + n)
  else if n < 62 then Char.ofNat (n - 4)
  else if n = 62 then '+'
  else '/'

/-- The value of a digit. -/
def base64Val (c : Char) : Option ℕ :=
  if 'A' ≤ c ∧ c ≤ 'Z' then some (c.toNat - 65)
  else if 'a' ≤ c ∧ c ≤ 'z' then some (c.toNat - 71)
  else if '0' ≤ c ∧ c ≤ '9' then some (c.toNat + 4)
  else if c = '+' then some 62
  else if c = '/' then some 63
  else none

theorem base64Val_base64Digit : ∀ n < 64, base64Val (base64Digit n) = some n := by decide

theorem base64Digit_of_base64Val {c : Char} {n : ℕ} (h : base64Val c = some n) :
    n < 64 ∧ base64Digit n = c := by
  have hrange (lo hi : Char) : lo ≤ c ∧ c ≤ hi ↔ lo.toNat ≤ c.toNat ∧ c.toNat ≤ hi.toNat := Iff.rfl
  have hA : 'A'.toNat = 65 ∧ 'Z'.toNat = 90 ∧ 'a'.toNat = 97 ∧ 'z'.toNat = 122 ∧
    '0'.toNat = 48 ∧ '9'.toNat = 57 := by decide
  simp only [base64Val, hrange, hA] at h
  split_ifs at h with hupper hlower hdigit hplus hslash
  · obtain rfl := Option.some.inj h
    refine ⟨by omega, ?_⟩
    rw [base64Digit, if_pos (by omega), ← Nat.add_sub_assoc (by omega), Nat.add_sub_cancel_left,
      Char.ofNat_toNat]
  · obtain rfl := Option.some.inj h
    refine ⟨by omega, ?_⟩
    rw [base64Digit, if_neg (by omega), if_pos (by omega), ← Nat.add_sub_assoc (by omega),
      Nat.add_sub_cancel_left, Char.ofNat_toNat]
  · obtain rfl := Option.some.inj h
    refine ⟨by omega, ?_⟩
    rw [base64Digit, if_neg (by omega), if_neg (by omega), if_pos (by omega), Nat.add_sub_cancel,
      Char.ofNat_toNat]
  · obtain rfl := Option.some.inj h
    exact ⟨by decide, hplus.symm⟩
  · obtain rfl := Option.some.inj h
    exact ⟨by decide, hslash.symm⟩

theorem base64Val_pad : base64Val '=' = none := by decide

/-! ### Texts -/

/-- Three bytes are four digits, and the last group is padded. -/
def encodeBase64 : List UInt8 → List Char
  | [] => []
  | [a] => [base64Digit (a.toNat / 4), base64Digit (a.toNat % 4 * 16), '=', '=']
  | [a, b] => [base64Digit (a.toNat / 4), base64Digit (a.toNat % 4 * 16 + b.toNat / 16),
      base64Digit (b.toNat % 16 * 4), '=']
  | a :: b :: c :: rest =>
    base64Digit (a.toNat / 4) :: base64Digit (a.toNat % 4 * 16 + b.toNat / 16) ::
      base64Digit (b.toNat % 16 * 4 + c.toNat / 64) :: base64Digit (c.toNat % 64) ::
      encodeBase64 rest

/-- The bytes of a last group with padding: no bits are left over. -/
def decodePadded (w x y : Char) : Option (List UInt8) := do
  let w ← base64Val w
  let x ← base64Val x
  if y = '=' then
    if x % 16 = 0 then some [UInt8.ofNat (w * 4 + x / 16)] else none
  else
    let y ← base64Val y
    if y % 4 = 0 then some [UInt8.ofNat (w * 4 + x / 16), UInt8.ofNat (x % 16 * 16 + y / 4)]
    else none

/-- The bytes of a group without padding. -/
def decodeGroup (w x y z : Char) : Option (List UInt8) := do
  let w ← base64Val w
  let x ← base64Val x
  let y ← base64Val y
  let z ← base64Val z
  return [UInt8.ofNat (w * 4 + x / 16), UInt8.ofNat (x % 16 * 16 + y / 4),
    UInt8.ofNat (y % 4 * 64 + z)]

/-- The bytes of a text. -/
def decodeBase64 : List Char → Option (List UInt8)
  | [] => some []
  | w :: x :: y :: z :: rest =>
    if rest = [] ∧ z = '=' then decodePadded w x y
    else do
      let group ← decodeGroup w x y z
      let bytes ← decodeBase64 rest
      return group ++ bytes
  | _ => none

/-! ### Round trips -/

theorem byte_eq {a : UInt8} {n : ℕ} (h : n = a.toNat) : UInt8.ofNat n = a := by
  rw [h, UInt8.ofNat_toNat]

theorem decodePadded_one (a : UInt8) :
    decodePadded (base64Digit (a.toNat / 4)) (base64Digit (a.toNat % 4 * 16)) '=' = some [a] := by
  have ha : a.toNat < 256 := a.toNat_lt
  have hbyte : UInt8.ofNat (a.toNat / 4 * 4 + a.toNat % 4 * 16 / 16) = a := byte_eq (by omega)
  rw [decodePadded, base64Val_base64Digit _ (by omega), base64Val_base64Digit _ (by omega)]
  simp only [Option.bind_eq_bind, Option.bind_some, if_true]
  rw [if_pos (by omega), hbyte]

theorem decodePadded_two (a b : UInt8) :
    decodePadded (base64Digit (a.toNat / 4)) (base64Digit (a.toNat % 4 * 16 + b.toNat / 16))
      (base64Digit (b.toNat % 16 * 4)) = some [a, b] := by
  have ha : a.toNat < 256 := a.toNat_lt
  have hb : b.toNat < 256 := b.toNat_lt
  have hpad : base64Digit (b.toNat % 16 * 4) ≠ '=' := fun h => by
    have hval := base64Val_base64Digit (b.toNat % 16 * 4) (by omega)
    rw [h, base64Val_pad] at hval
    cases hval
  rw [decodePadded, base64Val_base64Digit _ (by omega), base64Val_base64Digit _ (by omega),
    base64Val_base64Digit _ (by omega)]
  simp only [Option.bind_eq_bind, Option.bind_some, if_neg hpad]
  rw [if_pos (by omega), byte_eq (a := a) (by omega), byte_eq (a := b) (by omega)]

theorem decodeGroup_three (a b c : UInt8) :
    decodeGroup (base64Digit (a.toNat / 4)) (base64Digit (a.toNat % 4 * 16 + b.toNat / 16))
      (base64Digit (b.toNat % 16 * 4 + c.toNat / 64)) (base64Digit (c.toNat % 64)) =
      some [a, b, c] := by
  have ha : a.toNat < 256 := a.toNat_lt
  have hb : b.toNat < 256 := b.toNat_lt
  have hc : c.toNat < 256 := c.toNat_lt
  rw [decodeGroup, base64Val_base64Digit _ (by omega), base64Val_base64Digit _ (by omega),
    base64Val_base64Digit _ (by omega), base64Val_base64Digit _ (by omega)]
  simp only [Option.bind_eq_bind, Option.bind_some]
  rw [byte_eq (a := a) (by omega), byte_eq (a := b) (by omega), byte_eq (a := c) (by omega)]
  rfl

/-- A text is read back. -/
theorem decodeBase64_encodeBase64 : ∀ bytes : List UInt8,
    decodeBase64 (encodeBase64 bytes) = some bytes
  | [] => rfl
  | [a] => by rw [encodeBase64, decodeBase64, if_pos ⟨rfl, rfl⟩, decodePadded_one]
  | [a, b] => by rw [encodeBase64, decodeBase64, if_pos ⟨rfl, rfl⟩, decodePadded_two]
  | a :: b :: c :: rest => by
    have ih := decodeBase64_encodeBase64 rest
    have hpad : ¬ (encodeBase64 rest = [] ∧ base64Digit (c.toNat % 64) = '=') := fun h => by
      have hval := base64Val_base64Digit (c.toNat % 64) (Nat.mod_lt _ (by decide))
      rw [h.2, base64Val_pad] at hval
      cases hval
    rw [encodeBase64, decodeBase64, if_neg hpad, decodeGroup_three, ih]
    rfl

theorem toNat_byte {n : ℕ} (h : n < 256) : (UInt8.ofNat n).toNat = n := by
  rw [UInt8.toNat_ofNat']
  exact Nat.mod_eq_of_lt h

theorem encodeBase64_of_decodePadded {w x y : Char} {bytes : List UInt8}
    (h : decodePadded w x y = some bytes) : encodeBase64 bytes = [w, x, y, '='] := by
  rw [decodePadded] at h
  obtain ⟨m, hw, hrest⟩ := Option.bind_eq_some_iff.mp h
  obtain ⟨n, hx, hpadded⟩ := Option.bind_eq_some_iff.mp hrest
  obtain ⟨hm, rfl⟩ := base64Digit_of_base64Val hw
  obtain ⟨hn, rfl⟩ := base64Digit_of_base64Val hx
  have hfirst := toNat_byte (n := m * 4 + n / 16) (by omega)
  by_cases hy : y = '='
  · rw [if_pos hy] at hpadded
    split_ifs at hpadded with hzero
    have h1 : (m * 4 + n / 16) / 4 = m := by omega
    have h2 : (m * 4 + n / 16) % 4 * 16 = n := by omega
    rw [← Option.some.inj hpadded, encodeBase64, hfirst, h1, h2, hy]
  · rw [if_neg hy] at hpadded
    obtain ⟨l, hl, hbytes⟩ := Option.bind_eq_some_iff.mp hpadded
    obtain ⟨hlt, rfl⟩ := base64Digit_of_base64Val hl
    split_ifs at hbytes with hzero
    have hsecond := toNat_byte (n := n % 16 * 16 + l / 4) (by omega)
    have h1 : (m * 4 + n / 16) / 4 = m := by omega
    have h2 : (m * 4 + n / 16) % 4 * 16 + (n % 16 * 16 + l / 4) / 16 = n := by omega
    have h3 : (n % 16 * 16 + l / 4) % 16 * 4 = l := by omega
    rw [← Option.some.inj hbytes, encodeBase64, hfirst, hsecond, h1, h2, h3]

theorem encodeBase64_of_decodeGroup {w x y z : Char} {group : List UInt8}
    (h : decodeGroup w x y z = some group) (rest : List UInt8) :
    encodeBase64 (group ++ rest) = w :: x :: y :: z :: encodeBase64 rest := by
  rw [decodeGroup] at h
  obtain ⟨m, hw, hx⟩ := Option.bind_eq_some_iff.mp h
  obtain ⟨n, hx, hy⟩ := Option.bind_eq_some_iff.mp hx
  obtain ⟨l, hy, hz⟩ := Option.bind_eq_some_iff.mp hy
  obtain ⟨k, hz, hgroup⟩ := Option.bind_eq_some_iff.mp hz
  obtain ⟨hm, rfl⟩ := base64Digit_of_base64Val hw
  obtain ⟨hn, rfl⟩ := base64Digit_of_base64Val hx
  obtain ⟨hl, rfl⟩ := base64Digit_of_base64Val hy
  obtain ⟨hk, rfl⟩ := base64Digit_of_base64Val hz
  have h1 : (m * 4 + n / 16) / 4 = m := by omega
  have h2 : (m * 4 + n / 16) % 4 * 16 + (n % 16 * 16 + l / 4) / 16 = n := by omega
  have h3 : (n % 16 * 16 + l / 4) % 16 * 4 + (l % 4 * 64 + k) / 64 = l := by omega
  have h4 : (l % 4 * 64 + k) % 64 = k := by omega
  rw [← Option.some.inj hgroup, List.cons_append, List.cons_append, List.cons_append,
    List.nil_append, encodeBase64, toNat_byte (by omega), toNat_byte (by omega),
    toNat_byte (by omega), h1, h2, h3, h4]

/-- A text that is read is the one of its bytes. -/
theorem encodeBase64_of_decodeBase64 : ∀ {text : List Char} {bytes : List UInt8},
    decodeBase64 text = some bytes → encodeBase64 bytes = text
  | [], bytes, h => by
    rw [← Option.some.inj h]
    rfl
  | [_], _, h => by cases h
  | [_, _], _, h => by cases h
  | [_, _, _], _, h => by cases h
  | w :: x :: y :: z :: rest, bytes, h => by
    rw [decodeBase64] at h
    split_ifs at h with hlast
    · rw [hlast.1, hlast.2]
      exact encodeBase64_of_decodePadded h
    · obtain ⟨group, hgroup, hrest⟩ := Option.bind_eq_some_iff.mp h
      obtain ⟨tail, htail, hbytes⟩ := Option.bind_eq_some_iff.mp hrest
      rw [← Option.some.inj hbytes, encodeBase64_of_decodeGroup hgroup,
        encodeBase64_of_decodeBase64 htail]

theorem length_encodeBase64 : ∀ bytes : List UInt8,
    (encodeBase64 bytes).length = 4 * ((bytes.length + 2) / 3)
  | [] => rfl
  | [_] => by simp [encodeBase64]
  | [_, _] => by simp [encodeBase64]
  | a :: b :: c :: rest => by
    have ih := length_encodeBase64 rest
    simp only [encodeBase64, List.length_cons, ih]
    omega

/-- The characters of a text. -/
theorem mem_encodeBase64 {char : Char} : ∀ {bytes : List UInt8}, char ∈ encodeBase64 bytes →
    char = '=' ∨ ∃ n < 64, char = base64Digit n
  | [], h => by cases h
  | [a], h => by
    have ha : a.toNat < 256 := a.toNat_lt
    simp only [encodeBase64, List.mem_cons, List.not_mem_nil, or_false] at h
    rcases h with rfl | rfl | rfl | rfl
    · exact .inr ⟨_, by omega, rfl⟩
    · exact .inr ⟨_, by omega, rfl⟩
    all_goals exact .inl rfl
  | [a, b], h => by
    have ha : a.toNat < 256 := a.toNat_lt
    have hb : b.toNat < 256 := b.toNat_lt
    simp only [encodeBase64, List.mem_cons, List.not_mem_nil, or_false] at h
    rcases h with rfl | rfl | rfl | rfl
    · exact .inr ⟨_, by omega, rfl⟩
    · exact .inr ⟨_, by omega, rfl⟩
    · exact .inr ⟨_, by omega, rfl⟩
    · exact .inl rfl
  | a :: b :: c :: rest, h => by
    have ha : a.toNat < 256 := a.toNat_lt
    have hb : b.toNat < 256 := b.toNat_lt
    have hc : c.toNat < 256 := c.toNat_lt
    simp only [encodeBase64, List.mem_cons] at h
    rcases h with rfl | rfl | rfl | rfl | h
    · exact .inr ⟨_, by omega, rfl⟩
    · exact .inr ⟨_, by omega, rfl⟩
    · exact .inr ⟨_, by omega, rfl⟩
    · exact .inr ⟨_, by omega, rfl⟩
    · exact mem_encodeBase64 h

end Buzz.Library
