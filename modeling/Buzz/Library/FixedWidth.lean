import Mathlib.Algebra.Group.Nat.Defs
import Mathlib.Data.List.Induction
import Mathlib.Data.Nat.Notation
import Mathlib.Tactic.Common

/-!
# Numbers of a fixed width

The last digits of a number in some base, a fixed count of them, most significant first. As bytes
they are the big-endian encoding of an integer, as decimal digits a zero-padded number. UTF-8 is
here too, the encoding of a text being determined by its bytes.

## Main definitions

* `fixedDigits`, `beBytes`, `beValue`, `padded`.
* `utf8`, `utf8Decode`.
* `chunks`: a list cut into parts of one length, the last of which may be shorter.

## Main results

* `fixedDigits_inj`, `beBytes_inj`, `padded_inj`: numbers below the width are read back.
* `beValue_beBytes`, `beBytes_beValue`: bytes and numbers of one width are the same.
* `flatten_chunks`, `length_of_mem_chunks`.
* `utf8_inj`, `utf8_of_ascii`, `utf8Decode_eq_some_iff`.
* `append_cons_inj_of_not`: where a list is cut by a property of its elements.
-/

namespace Buzz.Library

variable {base width n m : ℕ}

/-- The last `width` digits of `n`. -/
def fixedDigits (base : ℕ) : ℕ → ℕ → List ℕ
  | 0, _ => []
  | width + 1, n => fixedDigits base width (n / base) ++ [n % base]

theorem length_fixedDigits : (fixedDigits base width n).length = width := by
  induction width generalizing n with
  | zero => rfl
  | succ width ih => rw [fixedDigits, List.length_append, ih, List.length_singleton]

theorem lt_of_mem_fixedDigits (hbase : 0 < base) {d : ℕ} (hd : d ∈ fixedDigits base width n) :
    d < base := by
  induction width generalizing n with
  | zero => exact absurd hd List.not_mem_nil
  | succ width ih =>
    rw [fixedDigits, List.mem_append, List.mem_singleton] at hd
    rcases hd with hd | rfl
    · exact ih hd
    · exact Nat.mod_lt n hbase

theorem fixedDigits_inj (hn : n < base ^ width) (hm : m < base ^ width)
    (h : fixedDigits base width n = fixedDigits base width m) : n = m := by
  induction width generalizing n m with
  | zero =>
    rw [Nat.pow_zero, Nat.lt_one_iff] at hn hm
    rw [hn, hm]
  | succ width ih =>
    obtain ⟨hinit, hlast⟩ := List.append_inj' h rfl
    have hdiv : n / base = m / base := by
      refine ih ?_ ?_ hinit
      · exact Nat.div_lt_of_lt_mul (by rwa [Nat.pow_succ, Nat.mul_comm] at hn)
      · exact Nat.div_lt_of_lt_mul (by rwa [Nat.pow_succ, Nat.mul_comm] at hm)
    have hmod : n % base = m % base := (List.cons.inj hlast).1
    rw [← Nat.div_add_mod n base, ← Nat.div_add_mod m base, hdiv, hmod]

/-! ### Bytes -/

/-- The big-endian bytes of a number. -/
def beBytes (width n : ℕ) : List UInt8 := (fixedDigits 256 width n).map UInt8.ofNat

theorem length_beBytes : (beBytes width n).length = width := by
  rw [beBytes, List.length_map, length_fixedDigits]

theorem beBytes_inj (hn : n < 256 ^ width) (hm : m < 256 ^ width)
    (h : beBytes width n = beBytes width m) : n = m := by
  have hdecode : ∀ k, (beBytes width k).map UInt8.toNat = fixedDigits 256 width k := by
    intro k
    rw [beBytes, List.map_map]
    refine (List.map_congr_left fun d hd => ?_).trans (List.map_id _)
    exact Nat.mod_eq_of_lt (lt_of_mem_fixedDigits (by decide) hd)
  exact fixedDigits_inj hn hm (by rw [← hdecode n, h, hdecode])

theorem beBytes_succ : beBytes (width + 1) n = beBytes width (n / 256) ++ [UInt8.ofNat n] := by
  rw [beBytes, fixedDigits, List.map_append, ← beBytes, List.map_singleton, UInt8.ofNat_mod_size]

/-- The number of big-endian bytes. -/
def beValue (bytes : List UInt8) : ℕ := bytes.foldl (fun n b => 256 * n + b.toNat) 0

theorem beValue_append_singleton (bytes : List UInt8) (b : UInt8) :
    beValue (bytes ++ [b]) = 256 * beValue bytes + b.toNat := by
  rw [beValue, List.foldl_append, ← beValue]
  rfl

theorem beValue_lt (bytes : List UInt8) : beValue bytes < 256 ^ bytes.length := by
  induction bytes using List.reverseRecOn with
  | nil => exact Nat.one_pos
  | append_singleton bytes b ih =>
    have hb : b.toNat < 256 := b.toNat_lt
    rw [beValue_append_singleton, List.length_append, List.length_singleton, Nat.pow_succ]
    omega

theorem beValue_beBytes (hn : n < 256 ^ width) : beValue (beBytes width n) = n := by
  induction width generalizing n with
  | zero => exact (Nat.lt_one_iff.mp hn).symm
  | succ width ih =>
    have hdiv : n / 256 < 256 ^ width := Nat.div_lt_of_lt_mul (by rwa [Nat.pow_succ'] at hn)
    have hlast : (UInt8.ofNat n).toNat = n % 256 := rfl
    rw [beBytes_succ, beValue_append_singleton, ih hdiv, hlast, Nat.div_add_mod]

theorem beBytes_beValue (bytes : List UInt8) : beBytes bytes.length (beValue bytes) = bytes := by
  induction bytes using List.reverseRecOn with
  | nil => rfl
  | append_singleton bytes b ih =>
    have hb : b.toNat < 256 := b.toNat_lt
    have hdiv : (256 * beValue bytes + b.toNat) / 256 = beValue bytes := by omega
    have hlast : UInt8.ofNat (256 * beValue bytes + b.toNat) = b := by
      rw [← UInt8.ofNat_mod_size, Nat.mul_add_mod, Nat.mod_eq_of_lt hb, UInt8.ofNat_toNat]
    rw [List.length_append, List.length_singleton, beValue_append_singleton, beBytes_succ, hdiv,
      ih, hlast]

/-! ### Decimal texts -/

/-- A number in decimal, padded with zeros. -/
def padded (width n : ℕ) : List Char := (fixedDigits 10 width n).map Nat.digitChar

theorem length_padded : (padded width n).length = width := by
  rw [padded, List.length_map, length_fixedDigits]

theorem isDigit_of_mem_padded {c : Char} (hc : c ∈ padded width n) : c.isDigit = true := by
  obtain ⟨d, hd, rfl⟩ := List.mem_map.mp hc
  have hdigits : ∀ d < 10, (Nat.digitChar d).isDigit = true := by decide
  exact hdigits d (lt_of_mem_fixedDigits (by decide) hd)

theorem ofDigitChars_padded : Nat.ofDigitChars 10 (padded width n) 0 = n % 10 ^ width := by
  induction width generalizing n with
  | zero => rw [Nat.pow_zero, Nat.mod_one]; rfl
  | succ width ih =>
    have hpadded : padded (width + 1) n = padded width (n / 10) ++ [(n % 10).digitChar] := by
      rw [padded, fixedDigits, List.map_append]
      rfl
    rw [hpadded, Nat.ofDigitChars_append, ih,
      Nat.ofDigitChars_cons_digitChar_of_lt_ten (Nat.mod_lt n (by decide)), Nat.ofDigitChars_nil,
      Nat.pow_succ, Nat.mul_comm (10 ^ width), Nat.mod_mul, Nat.add_comm]

theorem padded_inj (hn : n < 10 ^ width) (hm : m < 10 ^ width)
    (h : padded width n = padded width m) : n = m := by
  have hvalue := congrArg (Nat.ofDigitChars 10 · 0) h
  simpa only [ofDigitChars_padded, Nat.mod_eq_of_lt hn, Nat.mod_eq_of_lt hm] using hvalue

/-! ### UTF-8 -/

/-- The UTF-8 bytes of a text. -/
def utf8 (text : List Char) : List UInt8 := text.flatMap String.utf8EncodeChar

theorem utf8_inj {s t : List Char} (h : utf8 s = utf8 t) : s = t := by
  have hencode : s.utf8Encode = t.utf8Encode := congrArg List.toByteArray h
  have hstring : String.ofList s = String.ofList t := String.toByteArray_inj.mp hencode
  exact String.ofList_inj.mp hstring

/-- The bytes of an ASCII text are its characters. -/
theorem utf8_of_ascii {text : List Char} (h : ∀ c ∈ text, c.toNat ≤ 127) :
    utf8 text = text.map fun c => UInt8.ofNat c.toNat := by
  induction text with
  | nil => rfl
  | cons c text ih =>
    have hchar : String.utf8EncodeChar c = [UInt8.ofNat c.toNat] := if_pos (h c List.mem_cons_self)
    have hrest : utf8 text = text.map fun c => UInt8.ofNat c.toNat :=
      ih fun c hc => h c (List.mem_cons_of_mem _ hc)
    rw [utf8, List.flatMap_cons, hchar, ← utf8, hrest]
    rfl

theorem utf8_append (text text' : List Char) : utf8 (text ++ text') = utf8 text ++ utf8 text' :=
  List.flatMap_append

theorem length_le_length_utf8 (text : List Char) : text.length ≤ (utf8 text).length := by
  induction text with
  | nil => exact Nat.zero_le _
  | cons c text ih =>
    have hpos : 0 < (String.utf8EncodeChar c).length := by
      rw [String.length_utf8EncodeChar]
      exact c.utf8Size_pos
    rw [utf8, List.flatMap_cons, List.length_append, ← utf8, List.length_cons]
    omega

theorem length_utf8_of_ascii {text : List Char} (h : ∀ c ∈ text, c.toNat ≤ 127) :
    (utf8 text).length = text.length := by
  rw [utf8_of_ascii h, List.length_map]

/-- The text of bytes, where they are one: `String::from_utf8`. -/
def utf8Decode (bytes : List UInt8) : Option (List Char) :=
  bytes.toByteArray.utf8Decode?.map Array.toList

theorem utf8Decode_eq_some_iff {bytes : List UInt8} {text : List Char} :
    utf8Decode bytes = some text ↔ bytes = utf8 text := by
  constructor
  · intro h
    obtain ⟨chars, hchars, rfl⟩ := Option.map_eq_some_iff.mp h
    have hsome : bytes.toByteArray.utf8Decode?.isSome := by rw [hchars]; rfl
    have hencode := ByteArray.utf8Encode_get_utf8Decode? (b := bytes.toByteArray) (h := hsome)
    rw [Option.get_of_eq_some hsome hchars] at hencode
    exact (List.toByteArray_inj.mp hencode).symm
  · rintro rfl
    have hdecode : (utf8 text).toByteArray.utf8Decode? = some text.toArray :=
      List.utf8Decode?_utf8Encode
    rw [utf8Decode, hdecode]
    rfl

/-! ### Cutting a list -/

/-- Two lists that are cut at the first element without a property have the same parts. -/
theorem append_cons_inj_of_not {α : Type*} (p : α → Prop) {u v u' v' : List α} {x x' : α}
    (hu : ∀ a ∈ u, p a) (hu' : ∀ a ∈ u', p a) (hx : ¬ p x) (hx' : ¬ p x')
    (h : u ++ x :: v = u' ++ x' :: v') : u = u' ∧ x = x' ∧ v = v' := by
  induction u generalizing u' with
  | nil =>
    cases u' with
    | nil => exact ⟨rfl, (List.cons.inj h).1, (List.cons.inj h).2⟩
    | cons a u' => exact absurd ((List.cons.inj h).1 ▸ hu' a List.mem_cons_self) hx
  | cons a u ih =>
    cases u' with
    | nil => exact absurd ((List.cons.inj h).1 ▸ hu a List.mem_cons_self) hx'
    | cons a' u' =>
      obtain ⟨hu₁, hx₁, hv₁⟩ := ih (fun b hb => hu b (List.mem_cons_of_mem _ hb))
        (fun b hb => hu' b (List.mem_cons_of_mem _ hb)) (List.cons.inj h).2
      exact ⟨by rw [(List.cons.inj h).1, hu₁], hx₁, hv₁⟩

/-- The parts of a list of `n` elements each, and a last one of the elements that are left. -/
def chunks {α : Type*} (n : ℕ) : List α → List (List α)
  | [] => []
  | a :: l => (a :: l.take (n - 1)) :: chunks n (l.drop (n - 1))
termination_by l => l.length
decreasing_by simp only [List.length_drop, List.length_cons]; omega

theorem flatten_chunks {α : Type*} (n : ℕ) (l : List α) : (chunks n l).flatten = l := by
  induction l using chunks.induct n with
  | case1 => rw [chunks, List.flatten_nil]
  | case2 a l ih => rw [chunks, List.flatten_cons, ih, List.cons_append, List.take_append_drop]

/-- No part is empty, and none is longer than the others. -/
theorem length_of_mem_chunks {α : Type*} {n : ℕ} (hn : 0 < n) (l : List α) :
    ∀ c ∈ chunks n l, c ≠ [] ∧ c.length ≤ n := by
  induction l using chunks.induct n with
  | case1 =>
    rw [chunks]
    exact nofun
  | case2 a l ih =>
    rw [chunks]
    intro c hc
    rcases List.mem_cons.mp hc with rfl | hc
    · refine ⟨List.cons_ne_nil _ _, ?_⟩
      rw [List.length_cons, List.length_take]
      omega
    · exact ih c hc

end Buzz.Library
