import Mathlib.Computability.Language
import Buzz.Library.CharBoundary
import Buzz.Library.Outcome
import Buzz.Library.Text

/-!
# Slugs of engrams

`validate_slug` and `normalize_slug` of `crates/buzz-core/src/engram.rs`, with the grammar of the
slugs as a language. How Rust quotes a text in a message is a parameter of the message.

## Main definitions

* `EngramError`, `SlugError`.
* `validateSegment`, `validateSlug`, `normalizeSlug`.
* `segment`, `memSlug`, `IsSlug`: the grammar.

## Main results

* `validateSlug_eq_ok_iff`: the slugs that are accepted.
* `normalizeSlug_eq_ok_iff`: what a shorthand stands for.
-/

namespace Buzz.Core.Engram

open Library Computability

/-! ### Errors -/

inductive SlugError
  | tooLong (bytes : ℕ)
  | expected (slug : List Char)
  | empty
  | segment (number : ℕ) (segment : List Char) (why : String)
  deriving DecidableEq, Repr

inductive EngramError
  | invalidSlug (e : SlugError)
  | invalidBody (message : String)
  /-- `invalid body: invalid JSON body` or trailing data, with an error of the JSON reader. -/
  | invalidJson
  deriving DecidableEq, Repr

/-! ### The checks -/

/-- `CORE_SLUG`. -/
def coreSlug : List Char := "core".toList

/-- `SLUG_MAX_LEN`. -/
def slugMaxLen : ℕ := 255

/-- `MEM_PREFIX`. -/
def memPrefix : List Char := "mem/".toList

/-- The message of an error, with quoted texts. -/
def SlugError.message (quoted : List Char → String) : SlugError → String
  | tooLong bytes => s!"length {bytes} exceeds {slugMaxLen}"
  | expected slug => "expected `core` or `mem/…`, got " ++ quoted slug
  | empty => "empty after `mem/`"
  | segment number text why => s!"segment {number} ({quoted text}): {why}"

def isLowerAlnum (b : UInt8) : Bool :=
  decide (97 ≤ b.toNat ∧ b.toNat ≤ 122) || decide (48 ≤ b.toNat ∧ b.toNat ≤ 57)

def validateSegment (s : List Char) : Except String Unit :=
  match utf8 s with
  | [] => .error "empty"
  | first :: rest => do
    ensure ((first :: rest).length ≤ 64) "longer than 64 bytes"
    ensure (isLowerAlnum first) "first byte must be [a-z0-9]"
    ensure (rest.all fun b => isLowerAlnum b || b == byteOf '_' || b == byteOf '-')
      "only [a-z0-9_-] allowed after the first byte"

def validateSlug (slug : List Char) : Except EngramError Unit :=
  if slug = coreSlug then .ok ()
  else if slugMaxLen < (utf8 slug).length then
    .error (.invalidSlug (.tooLong (utf8 slug).length))
  else
    match stripStart memPrefix slug with
    | none => .error (.invalidSlug (.expected slug))
    | some rest => do
      ensure (rest ≠ []) (.invalidSlug .empty)
      (rest.splitOn '/').zipIdx.forM fun (segment, i) =>
        (validateSegment segment).mapError fun why => .invalidSlug (.segment (i + 1) segment why)

def normalizeSlug (raw : List Char) : Except EngramError (List Char) := do
  let slug := if raw = coreSlug ∨ memPrefix.isPrefixOf raw then raw else memPrefix ++ raw
  validateSlug slug
  return slug

/-! ### The grammar -/

/-- `[a-z0-9]`. -/
def LowerAlnum (c : Char) : Prop := ('a' ≤ c ∧ c ≤ 'z') ∨ ('0' ≤ c ∧ c ≤ '9')

/-- `[a-z0-9][a-z0-9_-]{0,63}`. -/
def segment : Language Char :=
  {s | ∃ c rest, s = c :: rest ∧ LowerAlnum c ∧ rest.length ≤ 63 ∧
    ∀ d ∈ rest, LowerAlnum d ∨ d = '_' ∨ d = '-'}

/-- Segments between slashes, after the prefix of the memories. -/
def memSlug : Language Char := {memPrefix} * segment * ({['/']} * segment)∗

/-- The slugs: that of the core, and those of memories. -/
def IsSlug (slug : List Char) : Prop :=
  slug = coreSlug ∨ (utf8 slug).length ≤ slugMaxLen ∧ slug ∈ memSlug

variable {c : Char} {s slug : List Char}

theorem lowerAlnum_iff :
    LowerAlnum c ↔ 97 ≤ c.toNat ∧ c.toNat ≤ 122 ∨ 48 ≤ c.toNat ∧ c.toNat ≤ 57 := by
  have hle (a b : Char) : a ≤ b ↔ a.toNat ≤ b.toNat := UInt32.le_iff_toNat_le
  simp only [LowerAlnum, hle, Char.reduceToNat]

theorem isLowerAlnum_byteOf (h : c.toNat ≤ 127) :
    isLowerAlnum (byteOf c) = true ↔ LowerAlnum c := by
  rw [isLowerAlnum, toNat_byteOf h, lowerAlnum_iff, Bool.or_eq_true, decide_eq_true_eq,
    decide_eq_true_eq]

/-- What may follow the first character of a segment. -/
theorem isLowerAlnum_or_byteOf (h : c.toNat ≤ 127) :
    (isLowerAlnum (byteOf c) || byteOf c == byteOf '_' || byteOf c == byteOf '-') = true ↔
      LowerAlnum c ∨ c = '_' ∨ c = '-' := by
  have hbyte (d : Char) (hd : d.toNat ≤ 127) : byteOf c = byteOf d ↔ c = d := by
    rw [← UInt8.toNat_inj, toNat_byteOf h, toNat_byteOf hd, Char.toNat_inj]
  simp only [Bool.or_eq_true, beq_iff_eq, isLowerAlnum_byteOf h, hbyte '_' (by decide),
    hbyte '-' (by decide), or_assoc]

/-- The characters of a segment are ASCII, and none is a bracket or a slash. -/
theorem toNat_of_lowerAlnum_or (h : LowerAlnum c ∨ c = '_' ∨ c = '-') :
    c.toNat ≤ 122 ∧ c ≠ '[' ∧ c ≠ ']' ∧ c ≠ '/' := by
  have hne {d : Char} (hlow : d.toNat ≤ 127) (hd : ¬ isLowerAlnum (byteOf d)) (hc : LowerAlnum c) :
      c ≠ d := by
    rintro rfl
    exact hd ((isLowerAlnum_byteOf hlow).mpr hc)
  rcases h with hc | rfl | rfl
  · have hrange := lowerAlnum_iff.mp hc
    exact ⟨by omega, hne (by decide) (by decide) hc, hne (by decide) (by decide) hc,
      hne (by decide) (by decide) hc⟩
  · decide
  · decide

theorem forall_of_mem_segment (h : s ∈ segment) :
    ∀ c ∈ s, LowerAlnum c ∨ c = '_' ∨ c = '-' := by
  obtain ⟨c, rest, rfl, hc, -, hrest⟩ := h
  exact List.forall_mem_cons.mpr ⟨.inl hc, hrest⟩

/-- A text is ASCII when its bytes are. -/
theorem ascii_of_utf8 (h : ∀ b ∈ utf8 s, b.toNat ≤ 127) : ∀ c ∈ s, c.toNat ≤ 127 := by
  intro c hc
  by_contra hlarge
  obtain ⟨b, bytes, hbytes, -⟩ := exists_head_utf8EncodeChar c
  have hb : b ∈ String.utf8EncodeChar c := hbytes ▸ List.mem_cons_self
  have hlow := h b (List.mem_flatMap.mpr ⟨c, hc, hb⟩)
  have hhigh := le_of_mem_utf8EncodeChar (Nat.not_le.mp hlarge) hb
  omega

theorem ascii_of_validateSegment (h : validateSegment s = .ok ()) : ∀ c ∈ s, c.toNat ≤ 127 := by
  refine ascii_of_utf8 fun b hb => ?_
  rw [validateSegment] at h
  cases hs : utf8 s with
  | nil => exact absurd (hs ▸ hb) List.not_mem_nil
  | cons first rest =>
    have hlow (b : UInt8) (hb : isLowerAlnum b = true) : b.toNat ≤ 127 := by
      rw [isLowerAlnum, Bool.or_eq_true, decide_eq_true_eq, decide_eq_true_eq] at hb
      omega
    rw [hs] at h hb
    obtain ⟨⟨⟩, -, h⟩ := bind_eq_ok.mp h
    obtain ⟨⟨⟩, hfirst, hrest⟩ := bind_eq_ok.mp h
    rcases List.mem_cons.mp hb with rfl | hb
    · exact hlow b (ensure_eq_ok.mp hfirst)
    · have hchecked := List.all_eq_true.mp (ensure_eq_ok.mp hrest) b hb
      simp only [Bool.or_eq_true, beq_iff_eq] at hchecked
      rcases hchecked with (hb | rfl) | rfl
      · exact hlow b hb
      · decide
      · decide

theorem validateSegment_cons (h : ∀ d ∈ c :: s, d.toNat ≤ 127) :
    validateSegment (c :: s) = .ok () ↔
      (c :: s).length ≤ 64 ∧ LowerAlnum c ∧ ∀ d ∈ s, LowerAlnum d ∨ d = '_' ∨ d = '-' := by
  have hbytes : utf8 (c :: s) = byteOf c :: s.map byteOf := utf8_of_ascii h
  obtain ⟨hc, hs⟩ := List.forall_mem_cons.mp h
  have hrest : ((s.map byteOf).all fun b =>
      isLowerAlnum b || b == byteOf '_' || b == byteOf '-') = true ↔
      ∀ d ∈ s, LowerAlnum d ∨ d = '_' ∨ d = '-' := by
    rw [List.all_eq_true, List.forall_mem_map]
    exact forall₂_congr fun d hd => isLowerAlnum_or_byteOf (hs d hd)
  rw [validateSegment, hbytes]
  simp only [bind_eq_ok, ensure_eq_ok, isLowerAlnum_byteOf hc, hrest, List.length_cons,
    List.length_map]
  exact ⟨fun ⟨_, hlength, _, hc, hs⟩ => ⟨hlength, hc, hs⟩,
    fun ⟨hlength, hc, hs⟩ => ⟨(), hlength, (), hc, hs⟩⟩

/-- The segments that are accepted. -/
theorem validateSegment_eq_ok_iff : validateSegment s = .ok () ↔ s ∈ segment := by
  cases s with
  | nil =>
    refine iff_of_false ?_ ?_
    · rintro ⟨⟩
    · rintro ⟨c, rest, heq, -⟩
      cases heq
  | cons c s =>
    constructor
    · intro h
      obtain ⟨hlength, hc, hs⟩ := (validateSegment_cons (ascii_of_validateSegment h)).mp h
      exact ⟨c, s, rfl, hc, Nat.le_of_succ_le_succ hlength, hs⟩
    · intro h
      have hascii : ∀ d ∈ c :: s, d.toNat ≤ 127 := fun d hd =>
        (toNat_of_lowerAlnum_or (forall_of_mem_segment h d hd)).1.trans (by decide)
      obtain ⟨_, _, heq, hc, hlength, hs⟩ := h
      obtain ⟨rfl, rfl⟩ := List.cons.inj heq
      exact (validateSegment_cons hascii).mpr ⟨Nat.succ_le_succ hlength, hc, hs⟩

/-- Segments between slashes. -/
theorem mem_memSlug_iff : slug ∈ memSlug ↔
    ∃ parts, parts ≠ [] ∧ slug = memPrefix ++ ['/'].intercalate parts ∧
      ∀ part ∈ parts, part ∈ segment := by
  have hslash (l : List (List Char)) (h : ∀ y ∈ l, y ∈ ({['/']} * segment : Language Char)) :
      ∃ parts : List (List Char), l.flatten = parts.flatMap ('/' :: ·) ∧
        ∀ part ∈ parts, part ∈ segment := by
    induction l with
    | nil => exact ⟨[], rfl, by simp⟩
    | cons y l ih =>
      obtain ⟨hy, hl⟩ := List.forall_mem_cons.mp h
      obtain ⟨parts, hparts, hall⟩ := ih hl
      obtain ⟨x, rfl, part, hpart, rfl⟩ := Language.mem_mul.mp hy
      exact ⟨part :: parts, by rw [List.flatten_cons, hparts]; rfl,
        List.forall_mem_cons.mpr ⟨hpart, hall⟩⟩
  constructor
  · intro h
    obtain ⟨before, hbefore, rest, hrest, rfl⟩ := Language.mem_mul.mp h
    obtain ⟨x, rfl, part, hpart, rfl⟩ := Language.mem_mul.mp hbefore
    obtain ⟨l, rfl, hl⟩ := Language.mem_kstar.mp hrest
    obtain ⟨parts, hparts, hall⟩ := hslash l hl
    refine ⟨part :: parts, List.cons_ne_nil _ _, ?_, List.forall_mem_cons.mpr ⟨hpart, hall⟩⟩
    rw [intercalate_cons, hparts, List.append_assoc]
  · rintro ⟨parts, hne, rfl, hall⟩
    obtain ⟨part, parts, rfl⟩ := List.exists_cons_of_ne_nil hne
    obtain ⟨hpart, hall⟩ := List.forall_mem_cons.mp hall
    rw [intercalate_cons, ← List.append_assoc]
    refine Language.mem_mul.mpr ⟨_, Language.mem_mul.mpr ⟨_, rfl, part, hpart, rfl⟩, _, ?_, rfl⟩
    refine Language.mem_kstar.mpr ⟨parts.map ('/' :: ·), List.flatMap_def, ?_⟩
    rw [List.forall_mem_map]
    exact fun next hnext => Language.mem_mul.mpr ⟨['/'], rfl, next, hall next hnext, rfl⟩

theorem mapError_eq_ok {ε ε' α : Type} {x : Except ε α} {f : ε → ε'} {a : α} :
    x.mapError f = .ok a ↔ x = .ok a := by
  cases x with
  | error e => exact iff_of_false (by rintro ⟨⟩) (by rintro ⟨⟩)
  | ok b => exact ⟨fun h => congrArg Except.ok (Except.ok.inj h),
      fun h => congrArg Except.ok (Except.ok.inj h)⟩

/-- The loop over the segments, which numbers them for its messages. -/
theorem forM_validateSegment_eq_ok_iff {parts : List (List Char)} :
    (parts.zipIdx.forM fun (segment, i) => (validateSegment segment).mapError fun why =>
        EngramError.invalidSlug (.segment (i + 1) segment why)) = .ok () ↔
      ∀ part ∈ parts, part ∈ segment := by
  have hfst : parts.zipIdx.map Prod.fst = parts := List.zipIdx_map_fst 0 parts
  simp only [forM_eq_ok_iff, mapError_eq_ok, validateSegment_eq_ok_iff]
  conv_rhs => rw [← hfst, List.forall_mem_map]

/-- **The slugs.** A slug is accepted when it is in the grammar. -/
theorem validateSlug_eq_ok_iff : validateSlug slug = .ok () ↔ IsSlug slug := by
  rw [validateSlug, IsSlug]
  split_ifs with hcore hlong
  · exact iff_of_true rfl (.inl hcore)
  · refine iff_of_false (by rintro ⟨⟩) ?_
    rintro (heq | ⟨hlength, -⟩)
    · exact hcore heq
    · exact absurd hlong (Nat.not_lt.mpr hlength)
  · rw [mem_memSlug_iff]
    cases hstrip : stripStart memPrefix slug with
    | none =>
      refine iff_of_false (by rintro ⟨⟩) ?_
      rintro (heq | ⟨-, parts, -, heq, -⟩)
      · exact hcore heq
      · cases hstrip.symm.trans (stripStart_eq_some_iff.mpr heq)
    | some rest =>
      obtain rfl := stripStart_eq_some_iff.mp hstrip
      simp only [bind_eq_ok, ensure_eq_ok, forM_validateSegment_eq_ok_iff]
      constructor
      · rintro ⟨-, -, hall⟩
        exact .inr ⟨Nat.not_lt.mp hlong, rest.splitOn '/', List.splitOn_ne_nil _ _,
          by rw [List.intercalate_splitOn], hall⟩
      · rintro (heq | ⟨-, parts, hne, heq, hall⟩)
        · exact absurd heq hcore
        · have hslash : ∀ part ∈ parts, '/' ∉ part := fun part hpart hmem =>
            (toNat_of_lowerAlnum_or (forall_of_mem_segment (hall part hpart) '/' hmem)).2.2.2 rfl
          obtain rfl := List.append_cancel_left heq
          rw [splitOn_eq_iff.mpr ⟨hne, hslash, rfl⟩]
          refine ⟨(), fun hnil => ?_, hall⟩
          obtain ⟨part, parts, rfl⟩ := List.exists_cons_of_ne_nil hne
          rw [intercalate_cons] at hnil
          obtain ⟨c, tail, hpart, -⟩ := hall part List.mem_cons_self
          cases hpart.symm.trans (List.append_eq_nil_iff.mp hnil).1

theorem isOk_validateSlug : (validateSlug slug).isOk = true ↔ IsSlug slug := by
  rw [← validateSlug_eq_ok_iff]
  cases validateSlug slug with
  | error e => exact iff_of_false Bool.false_ne_true (by rintro ⟨⟩)
  | ok _ => exact iff_of_true rfl rfl

theorem prefix_of_mem_memSlug (h : slug ∈ memSlug) : memPrefix <+: slug := by
  obtain ⟨parts, -, rfl, -⟩ := mem_memSlug_iff.mp h
  exact List.prefix_append _ _

/-- The slugs of memories are the slugs other than that of the core. -/
theorem isSlug_and_ne_coreSlug_iff : IsSlug slug ∧ slug ≠ coreSlug ↔
    (utf8 slug).length ≤ slugMaxLen ∧ slug ∈ memSlug := by
  constructor
  · rintro ⟨hslug, hne⟩
    exact hslug.resolve_left hne
  · intro h
    refine ⟨.inr h, ?_⟩
    rintro rfl
    exact absurd (prefix_of_mem_memSlug h.2) (by decide)

/-- A slug names the core, or starts with the prefix of the memories. -/
theorem IsSlug.eq_or_mem (h : IsSlug slug) : slug = coreSlug ∨ memPrefix <+: slug :=
  h.imp_right fun hmem => prefix_of_mem_memSlug hmem.2

/-- A slug has the characters of the prefix and of segments, and slashes. -/
theorem IsSlug.not_mem {d : Char} (h : IsSlug slug) (hcore : d ∉ coreSlug)
    (hmemPrefix : d ∉ memPrefix) (hslash : d ≠ '/')
    (hsegment : ¬ (LowerAlnum d ∨ d = '_' ∨ d = '-')) : d ∉ slug := by
  rcases h with rfl | ⟨-, hmem⟩
  · exact hcore
  · obtain ⟨parts, hne, rfl, hall⟩ := mem_memSlug_iff.mp hmem
    have hpart {part : List Char} (hpart : part ∈ parts) : d ∉ part := fun hd =>
      hsegment (forall_of_mem_segment (hall part hpart) d hd)
    obtain ⟨first, rest, rfl⟩ := List.exists_cons_of_ne_nil hne
    rw [intercalate_cons, List.mem_append, List.mem_append, List.mem_flatMap]
    rintro (hd | hd | ⟨part, hnext, hd⟩)
    · exact hmemPrefix hd
    · exact hpart List.mem_cons_self hd
    · rcases List.mem_cons.mp hd with hd | hd
      · exact hslash hd
      · exact hpart (List.mem_cons_of_mem _ hnext) hd

theorem IsSlug.not_mem_bracket (h : IsSlug slug) : '[' ∉ slug ∧ ']' ∉ slug := by
  constructor
  · refine h.not_mem (by decide) (by decide) (by decide) fun hd => ?_
    exact (toNat_of_lowerAlnum_or hd).2.1 rfl
  · refine h.not_mem (by decide) (by decide) (by decide) fun hd => ?_
    exact (toNat_of_lowerAlnum_or hd).2.2.1 rfl

/-- A slug stands for itself, and any other shorthand for the memory of that name. -/
theorem normalizeSlug_eq_ok_iff {raw : List Char} :
    normalizeSlug raw = .ok slug ↔ IsSlug slug ∧
      (slug = raw ∨ slug = memPrefix ++ raw ∧ ¬ (raw = coreSlug ∨ memPrefix <+: raw)) := by
  have hcheck (slug' : List Char) :
      (validateSlug slug' >>= fun _ => (pure slug' : Except EngramError (List Char))) = .ok slug ↔
        IsSlug slug ∧ slug = slug' := by
    rw [bind_eq_ok]
    constructor
    · rintro ⟨⟨⟩, hvalid, hslug⟩
      obtain rfl := Except.ok.inj hslug
      exact ⟨validateSlug_eq_ok_iff.mp hvalid, rfl⟩
    · rintro ⟨hslug, rfl⟩
      exact ⟨(), validateSlug_eq_ok_iff.mpr hslug, rfl⟩
  rw [normalizeSlug, hcheck]
  refine and_congr_right fun hslug => ?_
  simp only [List.isPrefixOf_iff_prefix]
  split_ifs with hfull
  · exact ⟨.inl, fun h => h.resolve_right fun hshort => hshort.2 hfull⟩
  · refine ⟨fun heq => .inr ⟨heq, hfull⟩, fun h => ?_⟩
    rcases h with rfl | hshort
    · exact absurd hslug.eq_or_mem hfull
    · exact hshort.1

end Buzz.Core.Engram
