import Mathlib.Data.List.DropRight
import Buzz.Library.FixedWidth

/-!
# Characters among bytes

A byte below `128` in the UTF-8 of a text is a character of its own, so that the text may be cut
before it and after it.

## Main definitions

* `byteOf`: the byte of an ASCII character.
* `isCharBoundary`, `slice`: `str::is_char_boundary`, and a text indexed by a range of bytes.

## Main results

* `byteOf_mem_utf8_iff`: an ASCII character is found by its byte.
* `exists_cut_of_utf8`: a text is cut at a byte below `128`.
* `length_rtakeWhile_utf8`: how often an ASCII character ends a text is seen on the bytes.
* `slice_append`: the part between two cuts.
-/

namespace Buzz.Library

/-! ### Bytes of a character -/

/-- The byte of an ASCII character. -/
def byteOf (c : Char) : UInt8 := UInt8.ofNat c.toNat

theorem toNat_byteOf {c : Char} (h : c.toNat ≤ 127) : (byteOf c).toNat = c.toNat := by
  rw [byteOf, UInt8.toNat_ofNat', Nat.mod_eq_of_lt (by omega)]

theorem utf8_cons (c : Char) (text : List Char) :
    utf8 (c :: text) = String.utf8EncodeChar c ++ utf8 text := List.flatMap_cons

theorem utf8EncodeChar_of_ascii {c : Char} (h : c.toNat ≤ 127) :
    String.utf8EncodeChar c = [byteOf c] := if_pos h

theorem utf8_cons_of_ascii {c : Char} (h : c.toNat ≤ 127) (text : List Char) :
    utf8 (c :: text) = byteOf c :: utf8 text := by
  rw [utf8_cons, utf8EncodeChar_of_ascii h, List.singleton_append]

/-- The other characters have no byte below `128`. -/
theorem le_of_mem_utf8EncodeChar {c : Char} (h : 127 < c.toNat) {b : UInt8}
    (hb : b ∈ String.utf8EncodeChar c) : 128 ≤ b.toNat := by
  have hbyte (n : ℕ) (hlow : 128 ≤ n) (hhigh : n < 256) : 128 ≤ (UInt8.ofNat n).toNat := by
    rwa [UInt8.toNat_ofNat', Nat.mod_eq_of_lt hhigh]
  have hmany : ¬ c.val.toNat ≤ 0x7f := Nat.not_le.mpr h
  simp only [String.utf8EncodeChar, if_neg hmany] at hb
  split_ifs at hb
  all_goals
    simp only [List.mem_cons, List.not_mem_nil, or_false] at hb
    rcases hb with rfl | rfl | rfl | rfl
  all_goals exact hbyte _ (by omega) (by omega)

/-- The first byte of a character continues none. -/
theorem exists_head_utf8EncodeChar (c : Char) :
    ∃ b bytes, String.utf8EncodeChar c = b :: bytes ∧ ¬ (128 ≤ b.toNat ∧ b.toNat < 192) := by
  have hbyte (n : ℕ) (hlow : 192 ≤ n) (hhigh : n < 256) : 192 ≤ (UInt8.ofNat n).toNat := by
    rwa [UInt8.toNat_ofNat', Nat.mod_eq_of_lt hhigh]
  rw [String.utf8EncodeChar]
  split_ifs with hone
  · refine ⟨_, _, rfl, ?_⟩
    rw [UInt8.toNat_ofNat', Nat.mod_eq_of_lt (by omega)]
    omega
  all_goals
    refine ⟨_, _, rfl, fun hcontinues => ?_⟩
    exact absurd hcontinues.2 (Nat.not_lt.mpr (hbyte _ (by omega) (by omega)))

/-- The byte of an ASCII character occurs in no other character. -/
theorem byteOf_mem_utf8EncodeChar_iff {c d : Char} (hd : d.toNat ≤ 127) :
    byteOf d ∈ String.utf8EncodeChar c ↔ c = d := by
  by_cases hc : c.toNat ≤ 127
  · rw [utf8EncodeChar_of_ascii hc, List.mem_singleton, ← UInt8.toNat_inj, toNat_byteOf hc,
      toNat_byteOf hd, Char.toNat_inj]
    exact eq_comm
  · refine iff_of_false (fun hmem => ?_) ?_
    · have hlarge := le_of_mem_utf8EncodeChar (Nat.not_le.mp hc) hmem
      rw [toNat_byteOf hd] at hlarge
      omega
    · rintro rfl
      exact hc hd

theorem byteOf_mem_utf8_iff {c : Char} {text : List Char} (hc : c.toNat ≤ 127) :
    byteOf c ∈ utf8 text ↔ c ∈ text := by
  simp only [utf8, List.mem_flatMap, byteOf_mem_utf8EncodeChar_iff hc, exists_eq_right]

/-- The bytes after a cut. -/
theorem getElem?_utf8_append (before after : List Char) (k : ℕ) :
    (utf8 (before ++ after))[(utf8 before).length + k]? = (utf8 after)[k]? := by
  rw [utf8_append, List.getElem?_append_right (Nat.le_add_right _ _), Nat.add_sub_cancel_left]

/-! ### Cuts -/

/-- Where a byte is below `128`, a text is cut before its character and after it. -/
theorem exists_cut_of_utf8 {text : List Char} {x y : List UInt8} {b : UInt8} (hb : b.toNat < 128)
    (h : utf8 text = x ++ b :: y) :
    ∃ before after, text = before ++ Char.ofNat b.toNat :: after ∧ utf8 before = x ∧
      utf8 after = y := by
  induction text generalizing x with
  | nil => exact absurd h (by simp [utf8])
  | cons c text ih =>
    rw [utf8_cons] at h
    by_cases hascii : c.toNat ≤ 127
    · rw [utf8EncodeChar_of_ascii hascii, List.singleton_append] at h
      cases x with
      | nil =>
        obtain ⟨rfl, htext⟩ := List.cons.inj h
        refine ⟨[], text, ?_, rfl, htext⟩
        rw [toNat_byteOf hascii, Char.ofNat_toNat, List.nil_append]
      | cons a x =>
        obtain ⟨rfl, htext⟩ := List.cons.inj h
        obtain ⟨before, after, rfl, hbefore, hafter⟩ := ih htext
        refine ⟨c :: before, after, rfl, ?_, hafter⟩
        rw [utf8_cons, utf8EncodeChar_of_ascii hascii, hbefore, List.singleton_append]
    · have hnot : b ∉ String.utf8EncodeChar c := fun hmem =>
        absurd (le_of_mem_utf8EncodeChar (Nat.not_le.mp hascii) hmem) (Nat.not_le.mpr hb)
      have hbeyond : ∃ x', x = String.utf8EncodeChar c ++ x' ∧ utf8 text = x' ++ b :: y := by
        rcases List.append_eq_append_iff.mp h with ⟨x', hx, htext⟩ | ⟨bytes, hbytes, hrest⟩
        · exact ⟨x', hx, htext⟩
        · cases bytes with
          | nil => exact ⟨[], by simpa using hbytes.symm, hrest.symm⟩
          | cons a bytes =>
            obtain ⟨rfl, -⟩ := List.cons.inj hrest
            exact absurd (by simp [hbytes]) hnot
      obtain ⟨x', rfl, htext⟩ := hbeyond
      obtain ⟨before, after, rfl, hbefore, hafter⟩ := ih htext
      exact ⟨c :: before, after, rfl, by rw [utf8_cons, hbefore], hafter⟩

/-- The same at the place of a byte. -/
theorem exists_cut_of_getElem? {text : List Char} {c : Char} {k : ℕ} (hc : c.toNat ≤ 127)
    (h : (utf8 text)[k]? = some (byteOf c)) :
    ∃ before after, text = before ++ c :: after ∧ (utf8 before).length = k := by
  obtain ⟨hk, hbyte⟩ := List.getElem?_eq_some_iff.mp h
  have hsplit : utf8 text = (utf8 text).take k ++ byteOf c :: (utf8 text).drop (k + 1) := by
    rw [← hbyte, ← List.drop_eq_getElem_cons hk, List.take_append_drop]
  have hlow : (byteOf c).toNat < 128 := by
    rw [toNat_byteOf hc]
    omega
  obtain ⟨before, after, htext, hbefore, -⟩ := exists_cut_of_utf8 hlow hsplit
  rw [toNat_byteOf hc, Char.ofNat_toNat] at htext
  exact ⟨before, after, htext, by rw [hbefore, List.length_take, Nat.min_eq_left hk.le]⟩

/-- How often an ASCII character stands at the end of a text, counted on the bytes. -/
theorem length_rtakeWhile_utf8 {c : Char} (hc : c.toNat ≤ 127) (text : List Char) :
    ((utf8 text).rtakeWhile (· == byteOf c)).length = (text.rtakeWhile (· == c)).length := by
  induction text using List.reverseRecOn with
  | nil => rfl
  | append_singleton text d ih =>
    have hlast : utf8 (text ++ [d]) = utf8 text ++ String.utf8EncodeChar d := by
      rw [utf8_append, utf8_cons]
      exact congrArg _ (List.append_nil _)
    rw [hlast]
    by_cases hd : d = c
    · have hbytes : (utf8 text ++ [byteOf c]).rtakeWhile (· == byteOf c) =
          (utf8 text).rtakeWhile (· == byteOf c) ++ [byteOf c] :=
        List.rtakeWhile_concat_pos _ _ _ (beq_self_eq_true _)
      have hchars : (text ++ [c]).rtakeWhile (· == c) = text.rtakeWhile (· == c) ++ [c] :=
        List.rtakeWhile_concat_pos _ _ _ (beq_self_eq_true _)
      rw [hd, utf8EncodeChar_of_ascii hc, hbytes, hchars, List.length_append, List.length_append,
        ih, List.length_singleton, List.length_singleton]
    · obtain hnil | ⟨bytes, b, hbytes⟩ := List.eq_nil_or_concat' (String.utf8EncodeChar d)
      · obtain ⟨b, bytes, hcons, -⟩ := exists_head_utf8EncodeChar d
        cases hnil.symm.trans hcons
      · have hb : b ≠ byteOf c := by
          rintro rfl
          refine hd ((byteOf_mem_utf8EncodeChar_iff hc).mp ?_)
          rw [hbytes]
          exact List.mem_append_right _ (List.mem_singleton_self _)
        rw [hbytes, ← List.append_assoc, List.rtakeWhile_concat_neg _ _ _ (by simpa using hb),
          List.rtakeWhile_concat_neg _ _ _ (by simpa using hd), List.length_nil, List.length_nil]

/-! ### Slices -/

/-- `str::is_char_boundary`. -/
def isCharBoundary (bytes : List UInt8) (i : ℕ) : Bool :=
  match bytes[i]? with
  | none => i == bytes.length
  | some b => i == 0 || !(decide (128 ≤ b.toNat) && decide (b.toNat < 192))

/-- The part of a text between two bytes, `none` for a panic: `&text[start..stop]`. -/
def slice (text : List Char) (start stop : ℕ) : Option (List Char) :=
  if start ≤ stop ∧ isCharBoundary (utf8 text) start = true ∧
      isCharBoundary (utf8 text) stop = true then
    utf8Decode (((utf8 text).drop start).take (stop - start))
  else none

theorem isCharBoundary_append (before after : List Char) :
    isCharBoundary (utf8 (before ++ after)) (utf8 before).length = true := by
  rw [isCharBoundary, utf8_append, List.getElem?_append_right (Nat.le_refl _), Nat.sub_self]
  cases after with
  | nil => simp [utf8]
  | cons c after =>
    obtain ⟨b, bytes, hbytes, hfirst⟩ := exists_head_utf8EncodeChar c
    rw [utf8_cons, hbytes, List.cons_append, List.getElem?_cons_zero]
    simp only [Bool.or_eq_true, Bool.not_eq_true', Bool.and_eq_false_imp, decide_eq_true_eq,
      decide_eq_false_iff_not]
    exact .inr fun hlow hhigh => hfirst ⟨hlow, hhigh⟩

theorem slice_append (before part after : List Char) :
    slice (before ++ part ++ after) (utf8 before).length
      ((utf8 before).length + (utf8 part).length) = some part := by
  have hstart : isCharBoundary (utf8 (before ++ part ++ after)) (utf8 before).length = true := by
    rw [List.append_assoc]
    exact isCharBoundary_append before (part ++ after)
  have hstop : isCharBoundary (utf8 (before ++ part ++ after))
      ((utf8 before).length + (utf8 part).length) = true := by
    rw [← List.length_append, ← utf8_append]
    exact isCharBoundary_append (before ++ part) after
  rw [slice, if_pos ⟨Nat.le_add_right _ _, hstart, hstop⟩, utf8Decode_eq_some_iff,
    Nat.add_sub_cancel_left, utf8_append, utf8_append, List.append_assoc, List.drop_left,
    List.take_left]

end Buzz.Library
