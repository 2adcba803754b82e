import Mathlib.Data.List.DropRight

/-!
# Texts

White space as Unicode has it, the words of a text between white space, ASCII letters in lower case,
and a text split at a character or at the first occurrence of another text.

## Main definitions

* `isWhitespace`, `splitWhitespace`, `trimmed`, `asciiLower`.
* `splitOnce`: `str::split_once`.
* `stripStart`, `stripEnd`: a text without one that comes first, or last.
* `First`, `splitFirst`: the first occurrence of a text, and the split at it.

## Main results

* `splitOnce_append_cons`: where a text is split.
* `intercalate_cons`: a joined text, from its first part on.
* `splitOn_eq_iff`: the parts between all occurrences of a character.
* `splitFirst_eq_some_iff`, `splitFirst_eq_none_iff`: the split is at the first occurrence.
-/

namespace Buzz.Library

/-- Texts are compared by equality. -/
instance lawfulBEqText : LawfulBEq (List Char) := inferInstance

/-- The white space characters of Unicode. -/
def isWhitespace (c : Char) : Bool :=
  decide (9 ≤ c.toNat ∧ c.toNat ≤ 13) || c.toNat ∈ [0x20, 0x85, 0xA0, 0x1680] ||
    decide (0x2000 ≤ c.toNat ∧ c.toNat ≤ 0x200A) ||
    c.toNat ∈ [0x2028, 0x2029, 0x202F, 0x205F, 0x3000]

/-- The words of a text: `str::split_whitespace`. -/
def splitWhitespace (text : List Char) : List (List Char) :=
  (text.splitOnP isWhitespace).filter fun word => !word.isEmpty

/-- A text without the white space around it: `str::trim`. -/
def trimmed (text : List Char) : List Char :=
  (text.dropWhile isWhitespace).rdropWhile isWhitespace

/-- What is checked of each character of a text is true of each. -/
theorem forall_of_all {P : Char → Prop} [DecidablePred P] {text : List Char}
    (h : (text.all fun c => decide (P c)) = true) : ∀ c ∈ text, P c :=
  fun c hc => of_decide_eq_true (List.all_eq_true.mp h c hc)

/-- White space around a text that neither starts nor ends with it. -/
theorem trimmed_append {before text after : List Char}
    (hbefore : ∀ c ∈ before, isWhitespace c = true) (hafter : ∀ c ∈ after, isWhitespace c = true)
    (hne : text ≠ []) (hhead : isWhitespace (text.head hne) = false)
    (hlast : isWhitespace (text.getLast hne) = false) :
    trimmed (before ++ (text ++ after)) = text := by
  obtain ⟨c, rest, rfl⟩ := List.exists_cons_of_ne_nil hne
  rw [trimmed, List.dropWhile_append_of_pos hbefore, List.cons_append,
    List.dropWhile_cons_of_neg (by simpa using hhead), ← List.cons_append, List.rdropWhile,
    List.reverse_append,
    List.dropWhile_append_of_pos fun a ha => hafter a (List.mem_reverse.mp ha),
    ← List.rdropWhile, List.rdropWhile_eq_self_iff]
  exact fun _ => by simpa using hlast

/-! ### Letter case -/

/-- ASCII letters in lower case: `str::to_ascii_lowercase`. -/
def asciiLower (text : List Char) : List Char := text.map Char.toLower

theorem isAlpha_iff {c : Char} :
    c.isAlpha = true ↔ 65 ≤ c.toNat ∧ c.toNat ≤ 90 ∨ 97 ≤ c.toNat ∧ c.toNat ≤ 122 := by
  have hval : c.val.toNat = c.toNat := rfl
  change (decide (65 ≤ c.val ∧ c.val ≤ 90) || (decide (97 ≤ c.val) && decide (c.val ≤ 122))) =
    true ↔ _
  simp [UInt32.le_iff_toNat_le, hval]

theorem isDigit_iff {c : Char} : c.isDigit = true ↔ 48 ≤ c.toNat ∧ c.toNat ≤ 57 := by
  have hval : c.val.toNat = c.toNat := rfl
  simp [Char.isDigit, UInt32.le_iff_toNat_le, hval]

theorem toNat_toLower (c : Char) :
    c.toLower.toNat = if 65 ≤ c.toNat ∧ c.toNat ≤ 90 then c.toNat + 32 else c.toNat := by
  have hval : c.val.toNat = c.toNat := rfl
  have hrange : c.val ≥ 'A'.val ∧ c.val ≤ 'Z'.val ↔ 65 ≤ c.toNat ∧ c.toNat ≤ 90 := Iff.rfl
  unfold Char.toLower
  by_cases h : c.val ≥ 'A'.val ∧ c.val ≤ 'Z'.val
  · have hle := (hrange.mp h).2
    rw [dif_pos h, if_pos (hrange.mp h)]
    change (c.val + 32).toNat = c.toNat + 32
    rw [UInt32.toNat_add, hval]
    exact Nat.mod_eq_of_lt (by change c.toNat + 32 < 2 ^ 32; omega)
  · rw [dif_neg h, if_neg (mt hrange.mpr h)]

theorem toLower_eq_iff {c d : Char} (hd : d.isAlpha = false) : c.toLower = d ↔ c = d := by
  have hd' := mt isAlpha_iff.mpr (Bool.eq_false_iff.mp hd)
  rw [← Char.toNat_inj, ← Char.toNat_inj, toNat_toLower]
  split_ifs <;> omega

theorem toLower_of_isDigit {c : Char} (h : c.isDigit = true) : c.toLower = c := by
  rw [isDigit_iff] at h
  rw [← Char.toNat_inj, toNat_toLower]
  split_ifs <;> omega

theorem toLower_toLower (c : Char) : c.toLower.toLower = c.toLower := by
  rw [← Char.toNat_inj, toNat_toLower, toNat_toLower]
  split_ifs <;> omega

theorem isAlphanum_toLower {c : Char} (h : c.isAlphanum = true) : c.toLower.isAlphanum = true := by
  rw [Char.isAlphanum, Bool.or_eq_true, isAlpha_iff, isDigit_iff] at h ⊢
  rw [toNat_toLower]
  split_ifs <;> omega

theorem isWhitespace_of_isAlphanum {c : Char} (h : c.isAlphanum = true) :
    isWhitespace c = false := by
  rw [Char.isAlphanum, Bool.or_eq_true, isAlpha_iff, isDigit_iff] at h
  simp [isWhitespace]
  omega

/-! ### Splitting -/

/-- What stands before the first `c`, and what stands after it: `str::split_once`. -/
def splitOnce (c : Char) : List Char → Option (List Char × List Char)
  | [] => none
  | a :: text => if a = c then some ([], text) else (splitOnce c text).map fun p => (a :: p.1, p.2)

theorem splitOnce_append_cons {c : Char} {text : List Char} (h : c ∉ text) (rest : List Char) :
    splitOnce c (text ++ c :: rest) = some (text, rest) := by
  induction text with
  | nil => exact if_pos rfl
  | cons a text ih =>
    rw [List.mem_cons, not_or] at h
    rw [List.cons_append, splitOnce, if_neg (Ne.symm h.1), ih h.2]
    rfl

theorem splitOnce_eq_some_iff {c : Char} {text before after : List Char} :
    splitOnce c text = some (before, after) ↔ c ∉ before ∧ text = before ++ c :: after := by
  constructor
  · intro h
    induction text generalizing before with
    | nil => cases h
    | cons a text ih =>
      rw [splitOnce] at h
      split_ifs at h with ha
      · cases h
        exact ⟨List.not_mem_nil, by rw [ha]; rfl⟩
      · obtain ⟨⟨before, _⟩, hp, heq⟩ := Option.map_eq_some_iff.mp h
        cases heq
        obtain ⟨hnot, rfl⟩ := ih hp
        exact ⟨by simp [Ne.symm ha, hnot], rfl⟩
  · rintro ⟨hnot, rfl⟩
    exact splitOnce_append_cons hnot after

/-- A text is cut in one way at the last `c`. -/
theorem append_cons_inj_last {c : Char} {before before' after after' : List Char}
    (h : c ∉ after) (h' : c ∉ after') (heq : before ++ c :: after = before' ++ c :: after') :
    before = before' ∧ after = after' := by
  have hrev := congrArg (splitOnce c ∘ List.reverse) heq
  simp only [Function.comp_apply, List.reverse_append, List.reverse_cons, List.append_assoc,
    List.singleton_append] at hrev
  rw [splitOnce_append_cons (by simpa using h), splitOnce_append_cons (by simpa using h')] at hrev
  simp only [Option.some.injEq, Prod.mk.injEq, List.reverse_inj] at hrev
  exact ⟨hrev.2, hrev.1⟩

theorem intercalate_cons (c : Char) (part : List Char) (parts : List (List Char)) :
    [c].intercalate (part :: parts) = part ++ parts.flatMap (c :: ·) := by
  induction parts generalizing part with
  | nil => rw [List.intercalate_singleton, List.flatMap_nil, List.append_nil]
  | cons next parts ih => rw [List.intercalate_cons_cons, ih, List.flatMap_cons]; simp

theorem mem_intercalate {c x : Char} {parts : List (List Char)} (h : c ∈ [x].intercalate parts) :
    c = x ∨ ∃ part ∈ parts, c ∈ part := by
  cases parts with
  | nil => cases h
  | cons part parts =>
    rw [intercalate_cons, List.mem_append, List.mem_flatMap] at h
    rcases h with h | ⟨next, hnext, h⟩
    · exact .inr ⟨part, List.mem_cons_self, h⟩
    · rcases List.mem_cons.mp h with h | h
      · exact .inl h
      · exact .inr ⟨next, List.mem_cons_of_mem _ hnext, h⟩

theorem notMem_of_mem_splitOn {c : Char} {text part : List Char} (h : part ∈ text.splitOn c) :
    c ∉ part := by
  induction text generalizing part with
  | nil =>
    rw [List.splitOn_nil, List.mem_singleton] at h
    rw [h]
    exact List.not_mem_nil
  | cons a text ih =>
    rw [List.splitOn_cons_eq_if_modifyHead] at h
    split_ifs at h with ha
    · rcases List.mem_cons.mp h with rfl | h
      · exact List.not_mem_nil
      · exact ih h
    · obtain ⟨first, rest, hparts⟩ := List.exists_cons_of_ne_nil (List.splitOn_ne_nil c text)
      rw [hparts, List.modifyHead_cons] at h
      rw [hparts] at ih
      rcases List.mem_cons.mp h with rfl | h
      · rw [List.mem_cons, not_or]
        exact ⟨fun heq => ha (by simp [heq]), ih List.mem_cons_self⟩
      · exact ih (List.mem_cons_of_mem _ h)

/-- A text is split at every `c`. -/
theorem splitOn_eq_iff {c : Char} {text : List Char} {parts : List (List Char)} :
    text.splitOn c = parts ↔
      parts ≠ [] ∧ (∀ part ∈ parts, c ∉ part) ∧ text = [c].intercalate parts := by
  constructor
  · rintro rfl
    exact ⟨List.splitOn_ne_nil c text, fun _ => notMem_of_mem_splitOn,
      (List.intercalate_splitOn c).symm⟩
  · rintro ⟨hne, hparts, rfl⟩
    exact List.splitOn_intercalate c hparts hne

/-- What follows `lead` in a text that starts with it: `str::strip_prefix`. -/
def stripStart (lead text : List Char) : Option (List Char) :=
  if lead.isPrefixOf text then some (text.drop lead.length) else none

theorem stripStart_eq_some_iff {lead text rest : List Char} :
    stripStart lead text = some rest ↔ text = lead ++ rest := by
  rw [stripStart]
  constructor
  · intro h
    split_ifs at h with hlead
    obtain ⟨tail, rfl⟩ := List.isPrefixOf_iff_prefix.mp hlead
    simpa using h
  · rintro rfl
    simp

/-- What comes before `tail` in a text that ends with it: `str::strip_suffix`. -/
def stripEnd (tail text : List Char) : Option (List Char) :=
  if tail.isSuffixOf text then some (text.take (text.length - tail.length)) else none

theorem stripEnd_eq_some_iff {tail text rest : List Char} :
    stripEnd tail text = some rest ↔ text = rest ++ tail := by
  rw [stripEnd]
  constructor
  · intro h
    split_ifs at h with htail
    obtain ⟨start, rfl⟩ := List.isSuffixOf_iff_suffix.mp htail
    simpa [eq_comm] using h
  · rintro rfl
    simp

theorem stripEnd_eq_none_iff {tail text : List Char} :
    stripEnd tail text = none ↔ ∀ rest, text ≠ rest ++ tail := by
  rw [Option.eq_none_iff_forall_not_mem]
  exact forall_congr' fun rest => not_congr stripEnd_eq_some_iff

/-! ### The first occurrence of a text -/

/-- `before` and `after` stand around the first occurrence of `sep`. -/
def First (sep text before after : List Char) : Prop :=
  text = before ++ sep ++ after ∧
    ∀ before' after', text = before' ++ sep ++ after' → before.length ≤ before'.length

/-- The texts before and after the first occurrence of `sep`, which is not empty. -/
def splitFirst (sep : List Char) : List Char → Option (List Char × List Char)
  | [] => none
  | c :: text =>
    if sep.isPrefixOf (c :: text) then some ([], (c :: text).drop sep.length)
    else (splitFirst sep text).map fun p => (c :: p.1, p.2)

theorem First.unique {sep text before after before' after' : List Char}
    (h : First sep text before after) (h' : First sep text before' after') :
    before = before' ∧ after = after' := by
  have hlength : before.length = before'.length :=
    Nat.le_antisymm (h.2 _ _ h'.1) (h'.2 _ _ h.1)
  have heq : before ++ (sep ++ after) = before' ++ (sep ++ after') := by
    rw [← List.append_assoc, ← List.append_assoc, ← h.1, ← h'.1]
  obtain ⟨hbefore, hrest⟩ := List.append_inj heq hlength
  exact ⟨hbefore, List.append_cancel_left hrest⟩

theorem First.occurs {sep text before after : List Char} (h : First sep text before after) :
    sep <:+: text := ⟨before, after, h.1.symm⟩

theorem first_cons {sep text before after : List Char} {c : Char}
    (hsep : ¬ sep <+: c :: text) (h : First sep text before after) :
    First sep (c :: text) (c :: before) after := by
  refine ⟨by rw [h.1]; rfl, fun before' after' heq => ?_⟩
  rcases before' with _ | ⟨c', before'⟩
  · exact absurd ⟨after', heq.symm⟩ hsep
  · have htail : text = before' ++ sep ++ after' := (List.cons.inj heq).2
    exact Nat.succ_le_succ (h.2 before' after' htail)

theorem splitFirst_spec {sep : List Char} (hsep : sep ≠ []) (text : List Char) :
    (∃ before after, splitFirst sep text = some (before, after) ∧ First sep text before after) ∨
      (splitFirst sep text = none ∧ ¬ sep <:+: text) := by
  induction text with
  | nil => exact .inr ⟨rfl, by simpa using hsep⟩
  | cons c text ih =>
    rw [splitFirst]
    split_ifs with hlead
    · obtain ⟨after, hafter⟩ := List.isPrefixOf_iff_prefix.mp hlead
      refine .inl ⟨[], _, rfl, ?_, fun _ _ _ => Nat.zero_le _⟩
      simp [← hafter]
    · rw [List.isPrefixOf_iff_prefix] at hlead
      rcases ih with ⟨before, after, heq, hfirst⟩ | ⟨heq, hnone⟩
      · exact .inl ⟨c :: before, after, by simp [heq], first_cons hlead hfirst⟩
      · refine .inr ⟨by simp [heq], ?_⟩
        rw [List.infix_cons_iff, not_or]
        exact ⟨hlead, hnone⟩

/-- The split is at the first occurrence. -/
theorem splitFirst_eq_some_iff {sep : List Char} (hsep : sep ≠ [])
    {text before after : List Char} :
    splitFirst sep text = some (before, after) ↔ First sep text before after := by
  rcases splitFirst_spec hsep text with ⟨b, a, heq, hfirst⟩ | ⟨heq, hnone⟩
  · rw [heq]
    constructor
    · intro h
      obtain ⟨rfl, rfl⟩ := Prod.mk.inj (Option.some.inj h)
      exact hfirst
    · intro h
      obtain ⟨rfl, rfl⟩ := hfirst.unique h
      rfl
  · rw [heq]
    refine ⟨nofun, fun h => absurd h.occurs hnone⟩

/-- There is no split where there is no occurrence. -/
theorem splitFirst_eq_none_iff {sep : List Char} (hsep : sep ≠ []) {text : List Char} :
    splitFirst sep text = none ↔ ¬ sep <:+: text := by
  rcases splitFirst_spec hsep text with ⟨b, a, heq, hfirst⟩ | ⟨heq, hnone⟩
  · rw [heq]
    exact ⟨nofun, fun h => absurd hfirst.occurs h⟩
  · exact ⟨fun _ => hnone, fun _ => heq⟩

end Buzz.Library
