import Mathlib.Tactic.Ring
import Buzz.Library.FixedWidth
import Buzz.Library.Text

/-!
# Replacing a text

The occurrences of a text in another, overlapping or not, and what is put in place of those that are
met from left to right, each one sought after the end of the one before.

## Main definitions

* `OccursAt`, `Separated`: where a text occurs, and whether its occurrences overlap.
* `Cut`: a text is cut at the occurrences from left to right.
* `splitAll`, `matchCount`, `replaceAll`, `replaceFirst`: `str::split`, `str::matches`,
  `str::replace` and `str::replacen`, for a text that is not empty.

## Main results

* `cut_splitAll`, `Cut.intercalate`: the parts of a text.
* `First.eq_of_occursAt`: a text that occurs once from left to right occurs once, if its occurrences
  do not overlap.
* `length_replaceAll`, `length_replaceFirst`: the bytes of what is written.
-/

namespace Buzz.Library

variable {sep new text before after : List Char}

/-! ### Occurrences -/

/-- `sep` occurs at a position of `text`. -/
def OccursAt (sep text : List Char) (i : ℕ) : Prop :=
  ∃ before after, text = before ++ sep ++ after ∧ before.length = i

/-- No two occurrences overlap. -/
def Separated (sep text : List Char) : Prop :=
  ∀ i j, OccursAt sep text i → OccursAt sep text j → i < j → i + sep.length ≤ j

theorem First.occursAt (h : First sep text before after) : OccursAt sep text before.length :=
  ⟨before, after, h.1, rfl⟩

/-- An occurrence past the end of the first is one in what follows it. -/
theorem First.infix_of_occursAt (h : First sep text before after) {i : ℕ}
    (hi : OccursAt sep text i) (hpast : before.length + sep.length ≤ i) : sep <:+: after := by
  obtain ⟨before', after', htext, rfl⟩ := hi
  have heq : (before ++ sep) ++ after = before' ++ (sep ++ after') := by
    rw [← h.1, htext, List.append_assoc]
  have hle : (before ++ sep).length ≤ before'.length := by rwa [List.length_append]
  obtain ⟨middle, rfl⟩ := List.prefix_of_prefix_length_le ⟨after, rfl⟩
    ⟨sep ++ after', heq.symm⟩ hle
  rw [List.append_assoc _ middle, List.append_cancel_left_eq] at heq
  exact ⟨middle, after', by rw [heq, List.append_assoc]⟩

theorem First.eq_of_occursAt (h : First sep text before after) (hafter : ¬ sep <:+: after)
    (hseparated : Separated sep text) {i : ℕ} (hi : OccursAt sep text i) :
    i = before.length := by
  have hle : before.length ≤ i := by
    obtain ⟨before', after', htext, rfl⟩ := hi
    exact h.2 before' after' htext
  by_contra hne
  have hlt : before.length < i := lt_of_le_of_ne hle (Ne.symm hne)
  exact hafter (h.infix_of_occursAt hi (hseparated _ _ h.occursAt hi hlt))

/-- A text that occurs at one position only does not overlap itself. -/
theorem separated_of_unique (h : ∃! i, OccursAt sep text i) : Separated sep text :=
  fun _ _ hi hj hlt => absurd (h.unique hi hj) (Nat.ne_of_lt hlt)

/-! ### From left to right -/

/-- The parts of a text around the occurrences of `sep`, each the first after the one before. -/
inductive Cut (sep : List Char) : List Char → List (List Char) → Prop
  | last {text : List Char} (h : ¬ sep <:+: text) : Cut sep text [text]
  | first {text before after : List Char} {parts : List (List Char)}
      (h : First sep text before after) (hrest : Cut sep after parts) :
      Cut sep text (before :: parts)

namespace Cut

variable {parts parts' : List (List Char)}

theorem ne_nil (h : Cut sep text parts) : parts ≠ [] := by
  cases h <;> exact List.cons_ne_nil _ _

theorem intercalate (h : Cut sep text parts) : sep.intercalate parts = text := by
  induction h with
  | last => exact List.intercalate_singleton
  | first h hrest ih =>
    obtain ⟨part, parts, rfl⟩ := List.exists_cons_of_ne_nil hrest.ne_nil
    rw [List.intercalate_cons_cons, ih, h.1]

end Cut

theorem length_after (hsep : sep ≠ []) (h : splitFirst sep text = some (before, after)) :
    after.length < text.length := by
  have htext := ((splitFirst_eq_some_iff hsep).mp h).1
  have hpos : 0 < sep.length := List.length_pos_of_ne_nil hsep
  rw [htext, List.length_append, List.length_append]
  omega

/-- `str::split`, at a text that is not empty. -/
def splitAll (sep : List Char) (hsep : sep ≠ []) (text : List Char) : List (List Char) :=
  match _h : splitFirst sep text with
  | none => [text]
  | some (before, after) => before :: splitAll sep hsep after
termination_by text.length
decreasing_by exact length_after hsep _h

theorem cut_splitAll (hsep : sep ≠ []) (text : List Char) :
    Cut sep text (splitAll sep hsep text) := by
  induction text using splitAll.induct sep hsep with
  | case1 text h =>
    rw [splitAll, h]
    exact .last ((splitFirst_eq_none_iff hsep).mp h)
  | case2 text before after h ih =>
    rw [splitAll, h]
    exact .first ((splitFirst_eq_some_iff hsep).mp h) ih

/-- `str::matches(..).count()`. -/
def matchCount (sep : List Char) (hsep : sep ≠ []) (text : List Char) : ℕ :=
  (splitAll sep hsep text).length - 1

/-- `str::replace`. -/
def replaceAll (sep : List Char) (hsep : sep ≠ []) (new text : List Char) : List Char :=
  new.intercalate (splitAll sep hsep text)

/-- `str::replacen`, of one occurrence. -/
def replaceFirst (sep new text : List Char) : List Char :=
  match splitFirst sep text with
  | none => text
  | some (before, after) => before ++ new ++ after

/-! ### Bytes -/

theorem length_utf8_intercalate (sep : List Char) {parts : List (List Char)} (h : parts ≠ []) :
    (utf8 (sep.intercalate parts)).length =
      (parts.map fun part => (utf8 part).length).sum +
        (parts.length - 1) * (utf8 sep).length := by
  induction parts with
  | nil => exact absurd rfl h
  | cons part parts ih =>
    cases parts with
    | nil => simp [List.intercalate_singleton]
    | cons next parts =>
      rw [List.intercalate_cons_cons, utf8_append, utf8_append, List.length_append,
        List.length_append, ih (List.cons_ne_nil _ _)]
      simp only [List.map_cons, List.sum_cons, List.length_cons, Nat.add_sub_cancel, Nat.succ_mul]
      ring

theorem matchCount_mul_le (hsep : sep ≠ []) (text : List Char) :
    matchCount sep hsep text * (utf8 sep).length ≤ (utf8 text).length := by
  have hcut := cut_splitAll hsep text
  have htext := length_utf8_intercalate sep hcut.ne_nil
  rw [hcut.intercalate] at htext
  rw [htext, matchCount]
  exact Nat.le_add_left _ _

theorem utf8_ne_nil (h : text ≠ []) : utf8 text ≠ [] := fun hnil =>
  h (utf8_inj (hnil.trans (List.flatMap_nil).symm))

/-- What is replaced makes room for what is written. -/
theorem length_replaceAll (hsep : sep ≠ []) (new text : List Char) :
    (utf8 (replaceAll sep hsep new text)).length + matchCount sep hsep text * (utf8 sep).length =
      (utf8 text).length + matchCount sep hsep text * (utf8 new).length := by
  have hcut := cut_splitAll hsep text
  have htext := length_utf8_intercalate sep hcut.ne_nil
  rw [hcut.intercalate] at htext
  rw [replaceAll, length_utf8_intercalate new hcut.ne_nil, htext, matchCount]
  ring

theorem replaceFirst_eq (h : First sep text before after) (hsep : sep ≠ []) (new : List Char) :
    replaceFirst sep new text = before ++ new ++ after := by
  rw [replaceFirst, (splitFirst_eq_some_iff hsep).mpr h]

theorem length_replaceFirst (h : First sep text before after) (hsep : sep ≠ []) (new : List Char) :
    (utf8 (replaceFirst sep new text)).length + (utf8 sep).length =
      (utf8 text).length + (utf8 new).length := by
  rw [replaceFirst_eq h hsep, h.1]
  simp only [utf8_append, List.length_append]
  ring

end Buzz.Library
