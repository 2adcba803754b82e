import Mathlib.Algebra.Group.Nat.Even
import Buzz.Core.Engram.Slug
import Buzz.Library.FirstOccurrences

/-!
# References in the text of an engram

`extract_refs` of `crates/buzz-core/src/engram.rs`. The scan works on the bytes of the text, and
takes the slice between two brackets, which could panic.

## Main definitions

* `findClose`, `scanRefs`, `extractRefs`.
* `ReferenceAt`: a slug in double brackets, after an even number of opening brackets.
* `ScanInvariant`: what holds at each turn of the outer loop.

## Main results

* `findClose_eq_some_iff`: where the inner loop stops.
* `referenceAt_iff`: the references that start at an opening are what the inner loop finds there.
* `extractRefs_eq_some_iff`, `extract_refs_exact`: the references that are returned.
-/

namespace Buzz.Core.Engram

open Library

/-! ### The scan -/

/-- The inner loop: the place of the next `]]`, unless another `[[` stands before it. -/
def findClose (bytes : List UInt8) (j : ℕ) : Option ℕ :=
  if h : j + 1 < bytes.length then
    if bytes[j] = byteOf '[' ∧ bytes[j + 1] = byteOf '[' then none
    else if bytes[j] = byteOf ']' ∧ bytes[j + 1] = byteOf ']' then some j
    else findClose bytes (j + 1)
  else none
termination_by bytes.length - j

theorem le_of_findClose {bytes : List UInt8} {j k : ℕ} (h : findClose bytes j = some k) :
    j ≤ k := by
  fun_induction findClose bytes j with
  | case1 j hj hopen => cases h
  | case2 j hj hopen hclose => exact (Option.some.inj h).le
  | case3 j hj hopen hclose ih => exact Nat.le_of_succ_le (ih h)
  | case4 j hj => cases h

/-- The outer loop, `none` for a panic. -/
def scanRefs (body : List Char) (i : ℕ) (out : List (List Char)) : Option (List (List Char)) :=
  if h : i + 3 < (utf8 body).length then
    if (utf8 body)[i] = byteOf '[' ∧ (utf8 body)[i + 1] = byteOf '[' then
      match hclose : findClose (utf8 body) (i + 2) with
      | some j =>
        match slice body (i + 2) j with
        | none => none
        | some candidate =>
          if (validateSlug candidate).isOk ∧ candidate ∉ out then
            scanRefs body (j + 2) (out ++ [candidate])
          else scanRefs body (j + 2) out
      | none => scanRefs body (i + 2) out
    else scanRefs body (i + 1) out
  else some out
termination_by (utf8 body).length - i
decreasing_by
  all_goals
    try have hle := le_of_findClose hclose
    omega

def extractRefs (body : List Char) : Option (List (List Char)) := scanRefs body 0 []

/-! ### Brackets among bytes -/

variable {bytes : List UInt8} {body : List Char} {i j k : ℕ} {out : List (List Char)}
  {slug : List Char}

/-- The same ASCII character twice in a row. -/
def PairAt (c : Char) (bytes : List UInt8) (i : ℕ) : Prop :=
  bytes[i]? = some (byteOf c) ∧ bytes[i + 1]? = some (byteOf c)

theorem pairAt_iff {c : Char} (h : i + 1 < bytes.length) :
    PairAt c bytes i ↔ bytes[i] = byteOf c ∧ bytes[i + 1] = byteOf c := by
  rw [PairAt, List.getElem?_eq_getElem (Nat.lt_of_succ_lt h), List.getElem?_eq_getElem h,
    Option.some_inj, Option.some_inj]

theorem PairAt.lt {c : Char} (h : PairAt c bytes i) : i + 1 < bytes.length :=
  (List.getElem?_eq_some_iff.mp h.2).1

theorem not_pairAt_of_pairAt (h : PairAt ']' bytes i) : ¬ PairAt '[' bytes i := by
  intro hopen
  have heq := Option.some.inj (h.1.symm.trans hopen.1)
  revert heq
  decide

/-- The inner loop stops at the first `]]`, if no `[[` stands before it. -/
theorem findClose_eq_some_iff : findClose bytes j = some k ↔
    j ≤ k ∧ PairAt ']' bytes k ∧
      ∀ m, j ≤ m → m < k → ¬ PairAt '[' bytes m ∧ ¬ PairAt ']' bytes m := by
  fun_induction findClose bytes j with
  | case1 j hj hopen =>
    refine iff_of_false (by rintro ⟨⟩) ?_
    rintro ⟨hle, hclose, hnone⟩
    have hopen' := (pairAt_iff hj).mpr hopen
    rcases hle.eq_or_lt with rfl | hlt
    · exact not_pairAt_of_pairAt hclose hopen'
    · exact (hnone j le_rfl hlt).1 hopen'
  | case2 j hj hopen hclose =>
    have hclose' := (pairAt_iff hj).mpr hclose
    rw [Option.some_inj]
    constructor
    · rintro rfl
      exact ⟨le_rfl, hclose', fun m hle hlt => absurd hlt (Nat.not_lt.mpr hle)⟩
    · rintro ⟨hle, -, hnone⟩
      exact hle.eq_or_lt.resolve_right fun hlt => (hnone j le_rfl hlt).2 hclose'
  | case3 j hj hopen hclose ih =>
    have hno : ¬ PairAt '[' bytes j ∧ ¬ PairAt ']' bytes j :=
      ⟨fun h => hopen ((pairAt_iff hj).mp h), fun h => hclose ((pairAt_iff hj).mp h)⟩
    rw [ih]
    constructor
    · rintro ⟨hle, hat, hnone⟩
      refine ⟨Nat.le_of_succ_le hle, hat, fun m hm hlt => ?_⟩
      rcases hm.eq_or_lt with rfl | hm
      · exact hno
      · exact hnone m hm hlt
    · rintro ⟨hle, hat, hnone⟩
      refine ⟨Nat.lt_of_le_of_ne hle ?_, hat, fun m hm hlt => hnone m (Nat.le_of_succ_le hm) hlt⟩
      rintro rfl
      exact hno.2 hat
  | case4 j hj =>
    refine iff_of_false (by rintro ⟨⟩) ?_
    rintro ⟨hle, hat, -⟩
    exact hj (Nat.lt_of_le_of_lt (Nat.succ_le_succ hle) hat.lt)

/-! ### Runs of opening brackets -/

/-- How many opening brackets stand in a row before a place. -/
def openRun (bytes : List UInt8) (i : ℕ) : ℕ :=
  ((bytes.take i).rtakeWhile (· == byteOf '[')).length

theorem openRun_succ (h : bytes[i]? = some (byteOf '[')) :
    openRun bytes (i + 1) = openRun bytes i + 1 := by
  have hrun : (bytes.take i ++ [byteOf '[']).rtakeWhile (· == byteOf '[') =
      (bytes.take i).rtakeWhile (· == byteOf '[') ++ [byteOf '['] :=
    List.rtakeWhile_concat_pos _ _ _ (beq_self_eq_true _)
  rw [openRun, List.take_add_one, h, Option.toList_some, hrun, List.length_append]
  rfl

/-- Another byte ends the run. -/
theorem openRun_succ_of_ne {b : UInt8} (h : bytes[i]? = some b) (hb : b ≠ byteOf '[') :
    openRun bytes (i + 1) = 0 := by
  rw [openRun, List.take_add_one, h, Option.toList_some,
    List.rtakeWhile_concat_neg _ _ _ (by simpa using hb), List.length_nil]

theorem openRun_append (before after : List Char) :
    openRun (utf8 (before ++ after)) (utf8 before).length =
      (before.rtakeWhile (· == '[')).length := by
  rw [openRun, utf8_append, List.take_left, length_rtakeWhile_utf8 (by decide)]

/-! ### Bracketed texts -/

variable {c : Char} {text before part after : List Char}

theorem pairAt_append : PairAt c (utf8 (before ++ after)) ((utf8 before).length + k) ↔
    PairAt c (utf8 after) k := by
  rw [PairAt, PairAt, Nat.add_assoc, getElem?_utf8_append, getElem?_utf8_append]

theorem pairAt_cons (hc : c.toNat ≤ 127) : PairAt c (utf8 (c :: c :: text)) 0 := by
  rw [utf8_cons_of_ascii hc, utf8_cons_of_ascii hc]
  exact ⟨rfl, rfl⟩

/-- A text is cut around two equal brackets. -/
theorem exists_cut_of_pairAt (hc : c.toNat ≤ 127) (h : PairAt c (utf8 text) k) :
    ∃ before after, text = before ++ c :: c :: after ∧ (utf8 before).length = k := by
  obtain ⟨before, rest, rfl, rfl⟩ := exists_cut_of_getElem? hc h.1
  have hsecond : (utf8 rest)[0]? = some (byteOf c) := by
    rw [← h.2, getElem?_utf8_append, utf8_cons_of_ascii hc, List.getElem?_cons_succ]
  obtain ⟨nothing, after, rfl, hnothing⟩ := exists_cut_of_getElem? hc hsecond
  have hnil : nothing.length ≤ 0 := hnothing ▸ length_le_length_utf8 nothing
  rw [List.length_eq_zero_iff.mp (Nat.le_zero.mp hnil)]
  exact ⟨before, after, rfl, rfl⟩

/-- A part of a text in double brackets. -/
def bracketed (before part after : List Char) : List Char :=
  before ++ ['[', '['] ++ part ++ [']', ']'] ++ after

theorem length_utf8_brackets : (utf8 (before ++ ['[', '['])).length = (utf8 before).length + 2 := by
  rw [utf8_append, List.length_append]
  rfl

theorem pairAt_open_bracketed : PairAt '[' (utf8 (bracketed before part after))
    (utf8 before).length := by
  have hcut : bracketed before part after =
      before ++ '[' :: '[' :: (part ++ [']', ']'] ++ after) := by
    simp only [bracketed, List.append_assoc, List.cons_append, List.nil_append]
  rw [hcut]
  exact (pairAt_append (k := 0)).mpr (pairAt_cons (by decide))

theorem pairAt_close_bracketed : PairAt ']' (utf8 (bracketed before part after))
    ((utf8 before).length + 2 + (utf8 part).length) := by
  have hcut : bracketed before part after =
      before ++ ['[', '['] ++ part ++ ']' :: ']' :: after := by
    simp only [bracketed, List.append_assoc, List.cons_append, List.nil_append]
  rw [hcut, ← length_utf8_brackets, ← List.length_append, ← utf8_append]
  exact (pairAt_append (k := 0)).mpr (pairAt_cons (by decide))

/-- No bracket is found in a part without brackets. -/
theorem not_pairAt_part (hc : c.toNat ≤ 127) (hpart : c ∉ part) (h : k < (utf8 part).length) :
    ¬ PairAt c (utf8 (bracketed before part after)) ((utf8 before).length + 2 + k) := by
  have hcut : bracketed before part after =
      before ++ ['[', '['] ++ (part ++ ([']', ']'] ++ after)) := by
    simp only [bracketed, List.append_assoc]
  rw [hcut, ← length_utf8_brackets, pairAt_append, utf8_append]
  intro hpair
  have hbyte := hpair.1
  rw [List.getElem?_append_left h] at hbyte
  exact hpart ((byteOf_mem_utf8_iff hc).mp (List.mem_of_getElem? hbyte))

theorem findClose_bracketed (hopen : '[' ∉ part) (hclose : ']' ∉ part) :
    findClose (utf8 (bracketed before part after)) ((utf8 before).length + 2) =
      some ((utf8 before).length + 2 + (utf8 part).length) := by
  refine findClose_eq_some_iff.mpr ⟨Nat.le_add_right _ _, pairAt_close_bracketed, ?_⟩
  intro m hm hlt
  obtain ⟨k, rfl⟩ := Nat.exists_eq_add_of_le hm
  have hk : k < (utf8 part).length := Nat.lt_of_add_lt_add_left hlt
  exact ⟨not_pairAt_part (by decide) hopen hk, not_pairAt_part (by decide) hclose hk⟩

theorem slice_bracketed : slice (bracketed before part after) ((utf8 before).length + 2)
    ((utf8 before).length + 2 + (utf8 part).length) = some part := by
  have hcut : bracketed before part after =
      before ++ ['[', '['] ++ part ++ ([']', ']'] ++ after) := by
    simp only [bracketed, List.append_assoc]
  rw [hcut, ← length_utf8_brackets]
  exact slice_append _ _ _

/-- A text with two opening brackets and, after them, two closing ones. -/
theorem exists_bracketed (hopen : PairAt '[' (utf8 text) i) (hclose : PairAt ']' (utf8 text) j)
    (hle : i + 2 ≤ j) : ∃ before part after, text = bracketed before part after ∧
      (utf8 before).length = i ∧ i + 2 + (utf8 part).length = j := by
  obtain ⟨before, rest, rfl, rfl⟩ := exists_cut_of_pairAt (by decide) hopen
  obtain ⟨k, rfl⟩ := Nat.exists_eq_add_of_le hle
  have hcut : before ++ '[' :: '[' :: rest = before ++ ['[', '['] ++ rest := by
    simp only [List.append_assoc, List.cons_append, List.nil_append]
  rw [hcut, ← length_utf8_brackets, pairAt_append] at hclose
  obtain ⟨part, after, rfl, hpart⟩ := exists_cut_of_pairAt (by decide) hclose
  refine ⟨before, part, after, ?_, rfl, by rw [hpart]⟩
  simp only [bracketed, List.append_assoc, List.cons_append, List.nil_append]

/-! ### References -/

/-- A reference, with the byte at which it starts: a slug in double brackets, before which an even
number of opening brackets stands in a row. -/
structure ReferenceAt (body : List Char) (start : ℕ) (slug : List Char) : Prop where
  isSlug : IsSlug slug
  occurs : ∃ before after, body = bracketed before slug after ∧ (utf8 before).length = start ∧
    Even (before.rtakeWhile (· == '[')).length

namespace ReferenceAt

theorem pairAt (h : ReferenceAt body i slug) : PairAt '[' (utf8 body) i := by
  obtain ⟨before, after, rfl, rfl, -⟩ := h.occurs
  exact pairAt_open_bracketed

theorem even_openRun (h : ReferenceAt body i slug) : Even (openRun (utf8 body) i) := by
  obtain ⟨before, after, rfl, rfl, heven⟩ := h.occurs
  rw [bracketed, List.append_assoc, List.append_assoc, List.append_assoc, openRun_append]
  exact heven

theorem findClose_eq (h : ReferenceAt body i slug) :
    findClose (utf8 body) (i + 2) = some (i + 2 + (utf8 slug).length) := by
  obtain ⟨before, after, rfl, rfl, -⟩ := h.occurs
  obtain ⟨hopen, hclose⟩ := h.isSlug.not_mem_bracket
  exact findClose_bracketed hopen hclose

theorem lt_length (h : ReferenceAt body i slug) : i + 3 < (utf8 body).length := by
  have hclose := (findClose_eq_some_iff.mp h.findClose_eq).2.1.lt
  omega

end ReferenceAt

/-- The references that start at an opening are the slug that the inner loop finds there, which can
be sliced out of the text. -/
theorem referenceAt_iff (hopen : PairAt '[' (utf8 body) i) (heven : Even (openRun (utf8 body) i))
    (hfind : findClose (utf8 body) (i + 2) = some j) :
    ∃ candidate, slice body (i + 2) j = some candidate ∧
      ∀ slug, ReferenceAt body i slug ↔ IsSlug slug ∧ slug = candidate := by
  obtain ⟨hle, hclose, -⟩ := findClose_eq_some_iff.mp hfind
  obtain ⟨before, candidate, after, rfl, rfl, rfl⟩ := exists_bracketed hopen hclose hle
  refine ⟨candidate, slice_bracketed, fun slug => ⟨fun h => ⟨h.isSlug, ?_⟩, ?_⟩⟩
  · obtain ⟨before', after', hbody, hstart, -⟩ := h.occurs
    have hstop := Option.some.inj (h.findClose_eq.symm.trans hfind)
    have hslug : slice (bracketed before' slug after') ((utf8 before').length + 2)
        ((utf8 before').length + 2 + (utf8 slug).length) = some slug := slice_bracketed
    rw [← hbody, hstart, hstop, slice_bracketed] at hslug
    exact (Option.some.inj hslug).symm
  · rintro ⟨hslug, rfl⟩
    refine ⟨hslug, before, after, rfl, rfl, ?_⟩
    rwa [bracketed, List.append_assoc, List.append_assoc, List.append_assoc, openRun_append]
      at heven

/-! ### The references that are returned -/

/-- What holds at each turn of the outer loop. At an opening bracket, the brackets before it have
been read in pairs. -/
structure ScanInvariant (body : List Char) (i : ℕ) (out : List (List Char)) : Prop where
  le : i ≤ (utf8 body).length
  aligned : (utf8 body)[i]? = some (byteOf '[') → Even (openRun (utf8 body) i)
  found : FirstOccurrences (ReferenceAt body) i out

theorem not_referenceAt_succ (hopen : PairAt '[' (utf8 body) i)
    (heven : Even (openRun (utf8 body) i)) : ¬ ReferenceAt body (i + 1) slug := by
  intro h
  have hnext := h.even_openRun
  rw [openRun_succ hopen.1, Nat.even_add_one] at hnext
  exact hnext heven

namespace ScanInvariant

theorem zero (body : List Char) : ScanInvariant body 0 [] :=
  ⟨Nat.zero_le _, fun _ => ⟨0, rfl⟩, .zero _⟩

/-- A byte where nothing opens is passed. -/
theorem pass_byte (h : ScanInvariant body i out) (hlt : i < (utf8 body).length)
    (hnot : ¬ PairAt '[' (utf8 body) i) : ScanInvariant body (i + 1) out := by
  refine ⟨hlt, fun hnext => ?_, h.found.skip (Nat.le_succ i) ?_⟩
  · have hbyte : (utf8 body)[i]? = some (utf8 body)[i] := List.getElem?_eq_getElem hlt
    rw [openRun_succ_of_ne hbyte fun heq => hnot ⟨heq ▸ hbyte, hnext⟩]
    exact Even.zero
  · intro p hp hpi slug hslug
    obtain rfl : p = i := Nat.le_antisymm (Nat.le_of_lt_succ hpi) hp
    exact hnot hslug.pairAt

/-- An opening without a closing is passed. -/
theorem pass_open (h : ScanInvariant body i out) (hopen : PairAt '[' (utf8 body) i)
    (hnone : findClose (utf8 body) (i + 2) = none) : ScanInvariant body (i + 2) out := by
  have heven := h.aligned hopen.1
  refine ⟨hopen.lt, fun _ => ?_, h.found.skip (Nat.le_add_right i 2) ?_⟩
  · rw [openRun_succ hopen.2, openRun_succ hopen.1]
    exact heven.add ⟨1, rfl⟩
  · intro p hp hpi slug hslug
    obtain rfl | rfl : p = i ∨ p = i + 1 := by omega
    · cases hnone.symm.trans hslug.findClose_eq
    · exact not_referenceAt_succ hopen heven hslug

/-- After the candidate at an opening, nothing starts up to the end of the closing. -/
theorem pass_close (h : ScanInvariant body i out) (hopen : PairAt '[' (utf8 body) i)
    (hfind : findClose (utf8 body) (i + 2) = some j) {out' : List (List Char)}
    (hfound : FirstOccurrences (ReferenceAt body) (i + 1) out') :
    ScanInvariant body (j + 2) out' := by
  obtain ⟨hle, hclose, hbetween⟩ := findClose_eq_some_iff.mp hfind
  have hne : byteOf ']' ≠ byteOf '[' := by decide
  refine ⟨hclose.lt, fun _ => ?_, hfound.skip (by omega) ?_⟩
  · rw [openRun_succ_of_ne hclose.2 hne]
    exact Even.zero
  · intro p hp hpj slug hslug
    obtain rfl | ⟨hip, hpj⟩ | rfl | rfl : p = i + 1 ∨ (i + 2 ≤ p ∧ p < j) ∨ p = j ∨ p = j + 1 := by
      omega
    · exact not_referenceAt_succ hopen (h.aligned hopen.1) hslug
    · exact (hbetween p hip hpj).1 hslug.pairAt
    · exact not_pairAt_of_pairAt hclose hslug.pairAt
    · exact hne (Option.some.inj (hclose.2.symm.trans hslug.pairAt.1))

/-- The text ends where no reference has room. -/
theorem finish (h : ScanInvariant body i out) (hend : (utf8 body).length ≤ i + 3) :
    FirstOccurrences (ReferenceAt body) (utf8 body).length out :=
  h.found.skip h.le fun p hp _ slug hslug => by
    have hlt := hslug.lt_length
    omega

end ScanInvariant

/-- The outer loop returns, and has then found every reference. -/
theorem exists_scanRefs (h : ScanInvariant body i out) :
    ∃ refs, scanRefs body i out = some refs ∧
      FirstOccurrences (ReferenceAt body) (utf8 body).length refs := by
  fun_induction scanRefs body i out with
  | case1 i out hi hopen j hfind hslice =>
    have hat := (pairAt_iff (by omega)).mpr hopen
    obtain ⟨candidate, hsome, -⟩ := referenceAt_iff hat (h.aligned hat.1) hfind
    cases hslice.symm.trans hsome
  | case2 i out hi hopen j hfind candidate hslice hnew ih =>
    have hat := (pairAt_iff (by omega)).mpr hopen
    obtain ⟨_, hsome, hiff⟩ := referenceAt_iff hat (h.aligned hat.1) hfind
    obtain rfl := Option.some.inj (hslice.symm.trans hsome)
    have hslug := isOk_validateSlug.mp hnew.1
    exact ih (h.pass_close hat hfind
      (h.found.push hnew.2 ((hiff candidate).mpr ⟨hslug, rfl⟩) fun slug h => ((hiff slug).mp h).2))
  | case3 i out hi hopen j hfind candidate hslice hnew ih =>
    have hat := (pairAt_iff (by omega)).mpr hopen
    obtain ⟨_, hsome, hiff⟩ := referenceAt_iff hat (h.aligned hat.1) hfind
    obtain rfl := Option.some.inj (hslice.symm.trans hsome)
    refine ih (h.pass_close hat hfind ?_)
    by_cases hmem : candidate ∈ out
    · exact h.found.pass hmem fun slug h => ((hiff slug).mp h).2
    · refine h.found.skip (Nat.le_succ i) fun p hp hpi slug hslug => ?_
      obtain rfl : p = i := Nat.le_antisymm (Nat.le_of_lt_succ hpi) hp
      obtain ⟨hslug, rfl⟩ := (hiff slug).mp hslug
      exact hnew ⟨isOk_validateSlug.mpr hslug, hmem⟩
  | case4 i out hi hopen hnone ih =>
    exact ih (h.pass_open ((pairAt_iff (by omega)).mpr hopen) hnone)
  | case5 i out hi hopen ih =>
    exact ih (h.pass_byte (by omega) fun hat => hopen ((pairAt_iff (by omega)).mp hat))
  | case6 i out hi => exact ⟨out, rfl, h.finish (Nat.not_lt.mp hi)⟩

/-- **The references of a text.** They are the slugs in double brackets that follow an even number
of opening brackets, in the order in which they first occur. -/
theorem extractRefs_eq_some_iff {refs : List (List Char)} : extractRefs body = some refs ↔
    FirstOccurrences (ReferenceAt body) (utf8 body).length refs := by
  obtain ⟨refs', hrefs', hfound⟩ := exists_scanRefs (ScanInvariant.zero body)
  rw [extractRefs, hrefs', Option.some_inj]
  constructor
  · rintro rfl
    exact hfound
  · exact hfound.unique

example : extractRefs "[[outer [[mem/x]] [[core]] [[mem/x]]".toList =
    some ["mem/x".toList, "core".toList] := by decide +kernel

/-- **Extraction of references.** The slugs that are accepted are those of the grammar. On every
text the scan returns without cutting a character. It returns each slug that stands in double
brackets after an even number of opening brackets, once, in the order in which they first occur. -/
theorem extract_refs_exact :
    (∀ slug, validateSlug slug = .ok () ↔ IsSlug slug) ∧
      ∀ body, ∃ refs, extractRefs body = some refs ∧ refs.Nodup ∧
        (∀ slug, slug ∈ refs ↔ validateSlug slug = .ok () ∧ ∃ before after,
          body = before ++ "[[".toList ++ slug ++ "]]".toList ++ after ∧
            Even (before.rtakeWhile (· == '[')).length) ∧
        refs.Pairwise (OccursBefore (ReferenceAt body)) := by
  refine ⟨fun slug => validateSlug_eq_ok_iff, fun body => ?_⟩
  obtain ⟨refs, hrefs, hfound⟩ := exists_scanRefs (ScanInvariant.zero body)
  refine ⟨refs, hrefs, hfound.nodup, fun slug => ?_, hfound.ordered⟩
  rw [hfound.mem_iff, validateSlug_eq_ok_iff]
  constructor
  · rintro ⟨start, -, hslug, before, after, hbody, -, heven⟩
    exact ⟨hslug, before, after, hbody, heven⟩
  · rintro ⟨hslug, before, after, hbody, heven⟩
    have hat : ReferenceAt body (utf8 before).length slug :=
      ⟨hslug, before, after, hbody, rfl, heven⟩
    exact ⟨_, (Nat.le_add_right _ 3).trans_lt hat.lt_length, hat⟩

/-- Between triple brackets, a slug in double brackets is not returned. -/
theorem extract_refs_triple_brackets :
    extractRefs "[[[mem/x]]]".toList = some [] ∧ validateSlug "mem/x".toList = .ok () ∧
      "[[".toList ++ "mem/x".toList ++ "]]".toList <:+: "[[[mem/x]]]".toList :=
  ⟨by decide +kernel, by decide +kernel, ['['], [']'], by decide⟩

end Buzz.Core.Engram
