import Mathlib.Computability.Language
import Buzz.Core.GitPerms
import Buzz.Library.Text

/-!
# The grammar and the language of ref patterns

What `RefPattern::parse` accepts, told on the parts of the pattern, and what a parsed pattern
matches, told as a language of path segments. The parser meets its checks in the order of one loop;
the matcher has two branches, slices both sides and zips them, and panics in the arms that are
marked `unreachable!()`. `RefPattern.matchesRef?` is the matcher with these panics.

## Main definitions

* `InGrammar`: the patterns that the documentation of the module admits.
* `PatternSegment.language`, `RefPattern.language`: what a pattern stands for.
* `RefPattern.matchesRef?`: the matcher, `none` for a panic.

## Main results

* `parse_eq_ok_iff`: what is parsed, and as what.
* `matchesRef?_eq`, `matchesRef_iff`: no panic, and membership in the language.
* `parse_and_match`: both together.
-/

namespace Buzz.Core

open Computability

/-! ### The grammar -/

/-- A non-empty part over the letters, the digits, `.`, `_` and `-`. -/
def IsLiteral (part : String) : Prop :=
  part ≠ "" ∧ ∀ c ∈ part.toList, ('A' ≤ c ∧ c ≤ 'Z') ∨ ('a' ≤ c ∧ c ≤ 'z') ∨
    ('0' ≤ c ∧ c ≤ '9') ∨ c ∈ ['.', '_', '-']

/-- The parts of a pattern: `**` in the last position only. -/
structure PartsInGrammar (parts : List String) : Prop where
  init : ∀ part ∈ parts.dropLast, part = "*" ∨ IsLiteral part
  last : ∀ part ∈ parts.getLast?, part = "*" ∨ part = "**" ∨ IsLiteral part

/-- The number of wildcards among the parts of a pattern. -/
def wildcards (parts : List String) : ℕ :=
  parts.countP fun part => part = "*" ∨ part = "**"

/-- The patterns of the grammar. -/
structure InGrammar (pattern : String) : Prop where
  short : pattern.utf8ByteSize ≤ maxPatternLength
  refs : "refs/".toList <+: pattern.toList
  parts : PartsInGrammar (pathSegments pattern)
  wildcards : wildcards (pathSegments pattern) ≤ maxWildcardsPerPattern

/-- What a part of a pattern is read as. -/
def PatternSegment.ofPart (part : String) : PatternSegment :=
  if part = "**" then .recursiveWildcard else if part = "*" then .wildcard else .literal part

theorem partsInGrammar_singleton {part : String} :
    PartsInGrammar [part] ↔ part = "*" ∨ part = "**" ∨ IsLiteral part :=
  ⟨fun h => h.last part rfl, fun h => ⟨nofun, fun _ hpart => Option.some.inj hpart ▸ h⟩⟩

theorem partsInGrammar_cons {part : String} {rest : List String} (hrest : rest ≠ []) :
    PartsInGrammar (part :: rest) ↔ (part = "*" ∨ IsLiteral part) ∧ PartsInGrammar rest := by
  obtain ⟨b, rest, rfl⟩ := List.exists_cons_of_ne_nil hrest
  constructor
  · exact fun h => ⟨h.init part List.mem_cons_self,
      fun p hp => h.init p (List.mem_cons_of_mem _ hp), h.last⟩
  · rintro ⟨hpart, h⟩
    refine ⟨fun p hp => ?_, h.last⟩
    rcases List.mem_cons.mp hp with rfl | hp
    · exact hpart
    · exact h.init p hp

theorem wildcards_cons (part : String) (rest : List String) :
    wildcards (part :: rest) =
      wildcards rest + if part = "*" ∨ part = "**" then 1 else 0 := by
  rw [wildcards, List.countP_cons, wildcards]
  simp only [decide_eq_true_eq]

namespace RefPattern

/-! ### The parser -/

theorem isLiteralChar_iff {c : Char} : isLiteralChar c = true ↔ ('A' ≤ c ∧ c ≤ 'Z') ∨
    ('a' ≤ c ∧ c ≤ 'z') ∨ ('0' ≤ c ∧ c ≤ '9') ∨ c ∈ ['.', '_', '-'] := by
  simp only [isLiteralChar, Char.isAlphanum, Bool.or_eq_true, beq_iff_eq, Library.isAlpha_iff,
    Library.isDigit_iff, List.mem_cons, List.not_mem_nil, or_false, or_assoc]
  rfl

theorem not_isGlobChar {c : Char} (h : isLiteralChar c = true) : isGlobChar c = false := by
  rw [Bool.eq_false_iff]
  intro hglob
  simp only [isGlobChar, Bool.or_eq_true, beq_iff_eq] at hglob
  rcases hglob with ((rfl | rfl) | rfl) | rfl <;> revert h <;> decide

theorem isLiteral_iff {part : String} :
    IsLiteral part ↔ part ≠ "" ∧ part.toList.all isLiteralChar = true := by
  simp only [IsLiteral, List.all_eq_true, isLiteralChar_iff]

theorem any_isGlobChar {part : String} (h : IsLiteral part) :
    part.toList.any isGlobChar = false := by
  rw [List.any_eq_false]
  intro c hc
  rw [not_isGlobChar (List.all_eq_true.mp (isLiteral_iff.mp h).2 c hc)]
  exact Bool.false_ne_true

theorem not_isLiteral_starStar : ¬ IsLiteral "**" :=
  fun h => absurd (any_isGlobChar h) (by decide)

theorem map_cons_eq_ok_iff {ε α : Type} {x : Except ε (List α)} {a : α} {l : List α} :
    x.map (a :: ·) = .ok l ↔ ∃ t, x = .ok t ∧ l = a :: t := by
  cases x with
  | error e => simp [Except.map]
  | ok t => simp [Except.map, eq_comm]

/-- The loop goes on past a part exactly when the part is of the grammar. -/
theorem parseSegments_cons {n : ℕ} {part : String} {rest : List String}
    {segs : List PatternSegment} :
    parseSegments n (part :: rest) = .ok segs ↔
      (part = "*" ∨ (part = "**" ∧ rest = []) ∨ IsLiteral part) ∧
      ((part = "*" ∨ part = "**") → n < maxWildcardsPerPattern) ∧
      ∃ t, parseSegments (n + if part = "*" ∨ part = "**" then 1 else 0) rest = .ok t ∧
        segs = .ofPart part :: t := by
  rw [parseSegments]
  by_cases hrec : part = "**"
  · subst hrec
    by_cases hrest : rest = []
    · by_cases hn : maxWildcardsPerPattern < n + 1
      · simp [hrest, hn, Nat.not_lt.mpr (Nat.le_of_lt_succ hn)]
      · simp [hrest, hn, Nat.lt_of_succ_le (Nat.not_lt.mp hn), map_cons_eq_ok_iff,
          PatternSegment.ofPart]
    · simp [hrest, not_isLiteral_starStar]
  · by_cases hstar : part = "*"
    · subst hstar
      by_cases hn : maxWildcardsPerPattern < n + 1
      · simp [hn, Nat.not_lt.mpr (Nat.le_of_lt_succ hn)]
      · simp [hn, Nat.lt_of_succ_le (Nat.not_lt.mp hn), map_cons_eq_ok_iff,
          PatternSegment.ofPart]
    · by_cases hliteral : IsLiteral part
      · obtain ⟨hne, hall⟩ := isLiteral_iff.mp hliteral
        simp [hrec, hstar, hne, any_isGlobChar hliteral, hall, hliteral, map_cons_eq_ok_iff,
          PatternSegment.ofPart]
      · have hparts : ¬ (part = "*" ∨ (part = "**" ∧ rest = []) ∨ IsLiteral part) := by
          simp [hrec, hstar, hliteral]
        simp only [hparts, false_and, iff_false, if_neg hrec, if_neg hstar]
        split_ifs with hne hglob hall
        · rintro ⟨⟩
        · rintro ⟨⟩
        · rintro ⟨⟩
        · exact absurd (isLiteral_iff.mpr ⟨hne, by simpa using hall⟩) hliteral

/-- The loop from `n` wildcards on accepts the parts of the grammar whose wildcards fit. -/
theorem parseSegments_eq_ok_iff {n : ℕ} {parts : List String} {segs : List PatternSegment}
    (hn : n ≤ maxWildcardsPerPattern) :
    parseSegments n parts = .ok segs ↔ PartsInGrammar parts ∧
      n + wildcards parts ≤ maxWildcardsPerPattern ∧ segs = parts.map .ofPart := by
  induction parts generalizing n segs with
  | nil =>
    have hnil : PartsInGrammar [] := ⟨nofun, nofun⟩
    simp [parseSegments, hnil, wildcards, hn, eq_comm]
  | cons part rest ih =>
    have hgrammar : PartsInGrammar (part :: rest) ↔
        (part = "*" ∨ (part = "**" ∧ rest = []) ∨ IsLiteral part) ∧ PartsInGrammar rest := by
      by_cases hrest : rest = []
      · have hnil : PartsInGrammar [] := ⟨nofun, nofun⟩
        rw [hrest, partsInGrammar_singleton]
        simp [hnil]
      · rw [partsInGrammar_cons hrest]
        simp [hrest]
    rw [parseSegments_cons, hgrammar, wildcards_cons, List.map_cons]
    by_cases hwild : part = "*" ∨ part = "**"
    · simp only [hwild, if_true, true_imp_iff]
      constructor
      · rintro ⟨hpart, hlt, t, ht, rfl⟩
        obtain ⟨hrest, hcount, rfl⟩ := (ih hlt).mp ht
        exact ⟨⟨hpart, hrest⟩, by omega, rfl⟩
      · rintro ⟨⟨hpart, hrest⟩, hcount, rfl⟩
        have hlt : n < maxWildcardsPerPattern := by omega
        exact ⟨hpart, hlt, _, (ih hlt).mpr ⟨hrest, by omega, rfl⟩, rfl⟩
    · simp only [hwild, if_false, false_imp_iff, true_and, Nat.add_zero]
      constructor
      · rintro ⟨hpart, t, ht, rfl⟩
        obtain ⟨hrest, hcount, rfl⟩ := (ih hn).mp ht
        exact ⟨⟨hpart, hrest⟩, hcount, rfl⟩
      · rintro ⟨⟨hpart, hrest⟩, hcount, rfl⟩
        exact ⟨hpart, _, (ih hn).mpr ⟨hrest, hcount, rfl⟩, rfl⟩

/-- The text of `refs/` begins every pattern of the grammar, which so is not empty. -/
theorem InGrammar.ne_empty {pattern : String} (h : InGrammar pattern) : pattern ≠ "" := by
  rintro rfl
  exact absurd h.refs (by decide)

/-- What is parsed, and as what. -/
theorem parse_eq_ok_iff {pattern : String} {p : RefPattern} :
    parse pattern = .ok p ↔ InGrammar pattern ∧ p.raw = pattern ∧
      p.segments = (pathSegments pattern).map .ofPart := by
  have hzero := Nat.zero_le maxWildcardsPerPattern
  rw [parse]
  constructor
  · split_ifs with hempty hlong hrefs
    · exact nofun
    · exact nofun
    · exact nofun
    split
    · exact nofun
    next segs hsegs =>
      intro hp
      obtain rfl := Except.ok.inj hp
      obtain ⟨hparts, hcount, rfl⟩ := (parseSegments_eq_ok_iff hzero).mp hsegs
      have hstart : "refs/".toList <+: pattern.toList := by simpa using hrefs
      exact ⟨⟨Nat.not_lt.mp hlong, hstart, hparts, by simpa using hcount⟩, rfl, rfl⟩
  · rintro ⟨h, hraw, hsegments⟩
    have hok := (parseSegments_eq_ok_iff hzero).mpr
      ⟨h.parts, (Nat.zero_add _).trans_le h.wildcards, rfl⟩
    have hstart : "refs/".toList.isPrefixOf pattern.toList = true :=
      List.isPrefixOf_iff_prefix.mpr h.refs
    rw [if_neg (InGrammar.ne_empty h), if_neg (Nat.not_lt.mpr h.short), hstart, Bool.not_true,
      if_neg Bool.false_ne_true]
    split
    next e he => exact nomatch he.symm.trans hok
    next segs hsegs =>
      obtain rfl := Except.ok.inj (hsegs.symm.trans hok)
      obtain ⟨raw, segments, hlast⟩ := p
      obtain rfl : raw = pattern := hraw
      obtain rfl : segments = (pathSegments raw).map .ofPart := hsegments
      rfl

theorem exists_parse_iff {pattern : String} :
    (∃ p, parse pattern = .ok p) ↔ InGrammar pattern := by
  constructor
  · rintro ⟨p, hp⟩
    exact (parse_eq_ok_iff.mp hp).1
  · intro h
    have hok := (parseSegments_eq_ok_iff (Nat.zero_le _)).mpr
      ⟨h.parts, (Nat.zero_add _).trans_le h.wildcards, rfl⟩
    exact ⟨⟨pattern, _, parseSegments_recursive_last hok⟩, parse_eq_ok_iff.mpr ⟨h, rfl, rfl⟩⟩

/-! ### The matcher -/

/-- The closure that both branches of `RefPattern::matches` give to `all`; its last arm is
`unreachable!()`. -/
def segmentMatches? : PatternSegment → String → Option Bool
  | .wildcard, _ => some true
  | .literal lit, seg => some (lit == seg)
  | .recursiveWildcard, _ => none

/-- `&xs[..n]`, which panics past the end. -/
def slice? (l : List α) (n : ℕ) : Option (List α) :=
  if n ≤ l.length then some (l.take n) else none

/-- `Iterator::zip` and `Iterator::all`, which stops at the first pair that does not match. -/
def zipMatches? (segs : List PatternSegment) (refs : List String) : Option Bool :=
  (segs.zip refs).allM fun p => segmentMatches? p.1 p.2

/-- `RefPattern::matches`, which is `none` when it panics. -/
def matchesRef? (self : RefPattern) (refName : String) : Option Bool :=
  let refSegments := pathSegments refName
  if self.segments.getLast? = some .recursiveWildcard then
    let prefixLen := self.segments.length - 1
    if refSegments.length ≤ prefixLen then some false
    else (slice? self.segments prefixLen).bind fun segs =>
      (slice? refSegments prefixLen).bind fun refs => zipMatches? segs refs
  else if refSegments.length ≠ self.segments.length then some false
  else zipMatches? self.segments refSegments

theorem zipMatches?_eq {segs : List PatternSegment} (h : ∀ s ∈ segs, s ≠ .recursiveWildcard)
    (refs : List String) :
    zipMatches? segs refs = some ((segs.zip refs).all fun p => segmentMatches p.1 p.2) := by
  induction segs generalizing refs with
  | nil => rfl
  | cons s segs ih =>
    cases refs with
    | nil => rfl
    | cons r refs =>
      have hrest := ih (fun s' hs' => h s' (List.mem_cons_of_mem s hs')) refs
      have hs : segmentMatches? s r = some (segmentMatches s r) := by
        cases s with
        | recursiveWildcard => exact absurd rfl (h _ List.mem_cons_self)
        | wildcard | literal lit => rfl
      simp only [zipMatches?, List.zip_cons_cons, List.allM, hs, List.all_cons] at hrest ⊢
      cases segmentMatches s r with
      | false => rfl
      | true => exact hrest

/-- Where the last segment is no recursive wildcard, none is. -/
theorem plain_of_getLast? (p : RefPattern)
    (h : p.segments.getLast? ≠ some .recursiveWildcard) :
    ∀ s ∈ p.segments, s ≠ .recursiveWildcard := by
  intro s hs hwild
  have hlast : some s ≠ p.segments.getLast? := fun heq => h (hwild ▸ heq.symm)
  exact p.recursive_last s (List.mem_dropLast_of_mem_of_ne_getLast? hs hlast) hwild

/-- The parser leaves no pattern on which the matcher panics. -/
theorem matchesRef?_eq (p : RefPattern) (refName : String) :
    p.matchesRef? refName = some (p.matchesRef refName) := by
  rw [matchesRef?, matchesRef]
  by_cases hrec : p.segments.getLast? = some .recursiveWildcard
  · have hinit := p.recursive_last
    rw [List.dropLast_eq_take] at hinit
    simp only [if_pos hrec]
    by_cases hshort : (pathSegments refName).length ≤ p.segments.length - 1
    · rw [if_pos hshort, if_pos hshort]
    · rw [if_neg hshort, if_neg hshort, slice?, if_pos (Nat.sub_le _ _), slice?,
        if_pos (Nat.not_le.mp hshort).le, Option.bind_some, Option.bind_some,
        zipMatches?_eq hinit]
  · rw [if_neg hrec, if_neg hrec]
    by_cases hlength : (pathSegments refName).length = p.segments.length
    · rw [if_neg (not_not.mpr hlength), if_neg (not_not.mpr hlength),
        zipMatches?_eq (p.plain_of_getLast? hrec)]
    · rw [if_pos hlength, if_pos hlength]

end RefPattern

/-! ### The language -/

/-- What one segment of a pattern stands for, among lists of path segments. -/
def PatternSegment.language : PatternSegment → Language String
  | .literal lit => {[lit]}
  | .wildcard => {w | ∃ seg, w = [seg]}
  | .recursiveWildcard => {w | w ≠ []}

/-- What a pattern stands for: what its segments do, one after the other. -/
def RefPattern.language (p : RefPattern) : Language String :=
  (p.segments.map PatternSegment.language).prod

namespace RefPattern

/-- A segment other than `**` stands for single path segments. -/
theorem mem_language_iff {s : PatternSegment} (h : s ≠ .recursiveWildcard) {w : List String} :
    w ∈ s.language ↔ ∃ r, w = [r] ∧ segmentMatches s r = true := by
  cases s with
  | recursiveWildcard => exact absurd rfl h
  | wildcard => exact exists_congr fun r => (and_iff_left rfl).symm
  | literal lit =>
    constructor
    · rintro rfl
      exact ⟨lit, rfl, beq_self_eq_true lit⟩
    · rintro ⟨r, rfl, hr⟩
      exact congrArg (fun s => [s]) (beq_iff_eq.mp hr).symm

/-- Without `**`, a pattern stands for the paths of its length that match segment by segment. -/
theorem mem_prod_iff {segs : List PatternSegment} (h : ∀ s ∈ segs, s ≠ .recursiveWildcard)
    {w : List String} : w ∈ (segs.map PatternSegment.language).prod ↔
      w.length = segs.length ∧ (segs.zip w).all (fun p => segmentMatches p.1 p.2) = true := by
  induction segs generalizing w with
  | nil => simp [Language.mem_one]
  | cons s segs ih =>
    have hrest := fun v => ih (fun s' hs' => h s' (List.mem_cons_of_mem s hs')) (w := v)
    rw [List.map_cons, List.prod_cons, Language.mem_mul]
    constructor
    · rintro ⟨a, ha, b, hb, rfl⟩
      obtain ⟨r, rfl, hr⟩ := (mem_language_iff (h s List.mem_cons_self)).mp ha
      obtain ⟨hlength, hall⟩ := (hrest b).mp hb
      exact ⟨congrArg Nat.succ hlength, by simpa [hr] using hall⟩
    · rintro ⟨hlength, hall⟩
      cases w with
      | nil => exact nomatch hlength
      | cons r w =>
        rw [List.zip_cons_cons, List.all_cons, Bool.and_eq_true] at hall
        exact ⟨[r], (mem_language_iff (h s List.mem_cons_self)).mpr ⟨r, rfl, hall.1⟩, w,
          (hrest w).mpr ⟨Nat.succ.inj hlength, hall.2⟩, rfl⟩

/-- A final `**` takes the rest of a path, which is not empty. -/
theorem mem_language_recursive_iff (p : RefPattern)
    (h : p.segments.getLast? = some .recursiveWildcard) {w : List String} :
    w ∈ p.language ↔ p.segments.dropLast.length < w.length ∧
      (p.segments.dropLast.zip (w.take p.segments.dropLast.length)).all
        (fun q => segmentMatches q.1 q.2) = true := by
  have hsplit : p.segments.map PatternSegment.language =
      p.segments.dropLast.map PatternSegment.language ++
        [PatternSegment.language .recursiveWildcard] := by
    rw [← List.map_singleton, ← List.map_append, List.dropLast_append_getLast? _ h]
  rw [language, hsplit, List.prod_append, List.prod_singleton, Language.mem_mul]
  constructor
  · rintro ⟨a, ha, b, hb, rfl⟩
    obtain ⟨hlength, hall⟩ := (mem_prod_iff p.recursive_last).mp ha
    have hpos : 0 < b.length := List.length_pos_iff.mpr hb
    rw [← hlength, List.take_left, List.length_append]
    exact ⟨Nat.lt_add_of_pos_right hpos, hall⟩
  · rintro ⟨hlength, hall⟩
    refine ⟨_, (mem_prod_iff p.recursive_last).mpr ⟨List.length_take_of_le hlength.le, hall⟩,
      w.drop p.segments.dropLast.length, fun hnil => ?_, List.take_append_drop _ _⟩
    exact absurd (List.drop_eq_nil_iff.mp hnil) (Nat.not_le.mpr hlength)

/-- A path matches exactly when it is in the language of the pattern. -/
theorem matchesRef_iff (p : RefPattern) (refName : String) :
    p.matchesRef refName = true ↔ pathSegments refName ∈ p.language := by
  rw [matchesRef]
  by_cases hrec : p.segments.getLast? = some .recursiveWildcard
  · simp only [if_pos hrec]
    rw [p.mem_language_recursive_iff hrec, ← List.dropLast_eq_take, ← List.length_dropLast]
    by_cases hshort : (pathSegments refName).length ≤ p.segments.dropLast.length
    · rw [if_pos hshort]
      exact iff_of_false Bool.false_ne_true fun h => absurd h.1 (Nat.not_lt.mpr hshort)
    · rw [if_neg hshort]
      exact (and_iff_right (Nat.not_le.mp hshort)).symm
  · rw [if_neg hrec, language, mem_prod_iff (p.plain_of_getLast? hrec)]
    by_cases hlength : (pathSegments refName).length = p.segments.length
    · rw [if_neg (not_not.mpr hlength)]
      exact (and_iff_right hlength).symm
    · rw [if_pos hlength]
      exact iff_of_false Bool.false_ne_true fun h => hlength h.1

/-- `RefPattern::parse` accepts the grammar and reads every part as what it says, and a pattern
matches the refs of its language, without a panic. -/
theorem parse_and_match :
    (∀ pattern, (∃ p, parse pattern = .ok p) ↔ InGrammar pattern) ∧
    (∀ pattern p, parse pattern = .ok p ↔ InGrammar pattern ∧ p.raw = pattern ∧
      p.segments = (pathSegments pattern).map .ofPart) ∧
    ∀ (p : RefPattern) (refName : String), ∃ result, p.matchesRef? refName = some result ∧
      (result = true ↔ pathSegments refName ∈ p.language) :=
  ⟨fun _ => exists_parse_iff, fun _ _ => parse_eq_ok_iff, fun p refName =>
    ⟨p.matchesRef refName, p.matchesRef?_eq refName, p.matchesRef_iff refName⟩⟩

end RefPattern

end Buzz.Core
