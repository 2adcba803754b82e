import Mathlib.Data.Char
import Mathlib.Data.List.Lex
import Buzz.Core.Filter
import Buzz.Db.Deletion.Stages
import Buzz.Library.FixedWidth
import Buzz.Library.Text

/-!
# The keys of the bucket

The taxonomy of `crates/buzz-media/src/bucket_index.rs`: five parsers that read a key of the bucket,
and the keys that belong to a tenant. Deletion folds the keys of a tenant into a digest.

## Main definitions

* `KeyClass`, `classifyKey`: the class of a key, with its components.
* `gitPointerCommunity`, `tenantPrefixes`, `isTenantOwnedKey`.
* `Renders`: the key that is written for a class.

## Main results

* `parseCanonicalUuid_eq_some_iff`: a UUID has one text.
* `classifyKey_eq_iff`: a key is of a class if it is the one that is written for it.
* `isTenantOwnedKey_text`, `isTenantOwnedKey_unique`: the keys of a tenant.
* `taxonomy_exact`: the taxonomy is a grammar, keys have one owner, and streams of them one text.
-/

namespace Buzz.Media

open Buzz.Core Buzz.Db.Deletion Buzz.Library

/-- The class of a key of the bucket. -/
inductive KeyClass
  | thumb (sha256 : List Char)
  | blob (sha256 ext : List Char)
  | sidecar (community : Uuid) (sha256 : List Char)
  | auxiliary (community : Uuid) (sha256 eventId : List Char)
  | unknown
  deriving DecidableEq

/-! ### Components -/

/-- A digest of 64 lowercase hexadecimal digits. -/
def isSha256 (s : List Char) : Bool := (utf8 s).length == 64 && s.all isLowercaseHex

/-- An extension: 1 to 8 letters and digits. -/
def isBlobExt (s : List Char) : Bool :=
  !s.isEmpty && decide ((utf8 s).length ≤ 8) && s.all Char.isAlphanum

/-- A letter of Crockford's alphabet, or a digit. -/
def isCrockford (c : Char) : Bool :=
  c.isDigit || (decide ('A' ≤ c) && decide (c ≤ 'H')) || c == 'J' || c == 'K' || c == 'M' ||
    c == 'N' || (decide ('P' ≤ c) && decide (c ≤ 'T')) || (decide ('V' ≤ c) && decide (c ≤ 'Z'))

/-- The characters of a ULID. -/
def isUlidCharset (s : List Char) : Bool := (utf8 s).length == 26 && s.all isCrockford

/-- The character at a position of a canonical UUID. -/
def isUuidChar (p : Char × ℕ) : Bool :=
  if p.2 ∈ [8, 13, 18, 23] then p.1 == '-' else isLowercaseHex p.1

/-- A UUID in its canonical text: the other forms that `Uuid::parse_str` reads are refused. -/
def parseCanonicalUuid (s : List Char) : Option Uuid :=
  if (utf8 s).length ≠ 36 then none
  else if !s.zipIdx.all isUuidChar then none
  else decodeHex 32 128 (s.filter (· ≠ '-'))

/-! ### Keys -/

/-- `{sha256}.thumb.jpg`. -/
def parseThumbKey (key : List Char) : Option (List Char) :=
  match key.splitOn '.' with
  | [sha256, thumb, jpg] =>
    if thumb ≠ "thumb".toList ∨ jpg ≠ "jpg".toList ∨ !isSha256 sha256 then none else some sha256
  | _ => none

/-- `{sha256}.{ext}`. -/
def parseBlobKey (key : List Char) : Option (List Char × List Char) :=
  match key.splitOn '.' with
  | [sha256, ext] => if !isSha256 sha256 ∨ !isBlobExt ext then none else some (sha256, ext)
  | _ => none

/-- `_meta/{community}/{sha256}.json`. -/
def parseSidecarKey (key : List Char) : Option (Uuid × List Char) :=
  match key.splitOn '/' with
  | [lead, community, last] =>
    if lead ≠ "_meta".toList then none
    else do
      let community ← parseCanonicalUuid community
      match last.splitOn '.' with
      | [sha256, json] =>
        if json ≠ "json".toList ∨ !isSha256 sha256 then none else some (community, sha256)
      | _ => none
  | _ => none

/-- `_uploads/{community}/{sha256}/{event_id}.json`. -/
def parseAuxiliaryKey (key : List Char) : Option (Uuid × List Char × List Char) :=
  match key.splitOn '/' with
  | [lead, community, sha256, last] =>
    if lead ≠ "_uploads".toList then none
    else do
      let community ← parseCanonicalUuid community
      if !isSha256 sha256 then none
      else
        match last.splitOn '.' with
        | [eventId, json] =>
          if json ≠ "json".toList ∨ !isUlidCharset eventId then none
          else some (community, sha256, eventId)
        | _ => none
  | _ => none

/-- The class of a key: the parsers are tried in order. -/
def classifyKey (key : List Char) : KeyClass :=
  match parseThumbKey key with
  | some sha256 => .thumb sha256
  | none =>
    match parseBlobKey key with
    | some (sha256, ext) => .blob sha256 ext
    | none =>
      match parseSidecarKey key with
      | some (community, sha256) => .sidecar community sha256
      | none =>
        match parseAuxiliaryKey key with
        | some (community, sha256, eventId) => .auxiliary community sha256 eventId
        | none => .unknown

/-! ### Tenants -/

/-- A digest of hexadecimal digits in either case. -/
def isAsciiHex64 (s : List Char) : Bool := (utf8 s).length == 64 && s.all fun c => (hexVal c).isSome

/-- The name of a repository. -/
def isRepoName (repo : List Char) : Bool :=
  !repo.isEmpty && decide ((utf8 repo).length ≤ 64) && repo.head? != some '.' &&
    !decide ("..".toList <:+: repo) &&
    repo.all fun c => c.isAlphanum || c == '.' || c == '_' || c == '-'

/-- The community of `repos/{community}/{owner}/{repo}/pointer`. -/
def gitPointerCommunity (key : List Char) : Option Uuid :=
  match key.splitOn '/' with
  | [lead, community, owner, repo, pointer] =>
    if lead ≠ "repos".toList then none
    else do
      let community ← parseCanonicalUuid community
      if !isAsciiHex64 owner ∨ !isRepoName repo ∨ pointer ≠ "pointer".toList then none
      else some community
  | _ => none

/-- The prefixes under which everything of a tenant is listed. -/
def tenantPrefixes (community : Uuid) : List (List Char) :=
  ["_meta/".toList ++ (uuidToString community).toList ++ ['/'],
    "_uploads/".toList ++ (uuidToString community).toList ++ ['/'],
    "repos/".toList ++ (uuidToString community).toList ++ ['/']]

/-- Whether a key belongs to a tenant. -/
def isTenantOwnedKey (community : Uuid) (key : List Char) : Bool :=
  match classifyKey key with
  | .sidecar owner _ => owner == community
  | .auxiliary owner _ _ => owner == community
  | .unknown => gitPointerCommunity key == some community
  | .blob _ _ => false
  | .thumb _ => false

/-! ### Canonical UUIDs -/

/-- The five groups of a UUID between hyphens. -/
def hyphenate (a b c d e : List Char) : List Char :=
  a ++ '-' :: (b ++ '-' :: (c ++ '-' :: (d ++ '-' :: e)))

theorem exists_append_cons {n : ℕ} {s : List Char} (h : n < s.length) :
    ∃ a x rest, s = a ++ x :: rest ∧ a.length = n ∧ rest.length = s.length - n - 1 := by
  refine ⟨s.take n, s[n], s.drop (n + 1), ?_, ?_, ?_⟩
  · rw [← List.drop_eq_getElem_cons, List.take_append_drop]
  · rw [List.length_take]
    omega
  · rw [List.length_drop]
    omega

/-- Away from the hyphens, every character is a digit. -/
theorem all_isUuidChar {part : List Char} {k : ℕ}
    (h : ∀ i, k ≤ i → i < k + part.length → i ∉ [8, 13, 18, 23]) :
    (part.zipIdx k).all isUuidChar = part.all isLowercaseHex := by
  induction part generalizing k with
  | nil => rfl
  | cons c part ih =>
    have hc : isUuidChar (c, k) = isLowercaseHex c :=
      if_neg (h k le_rfl (by rw [List.length_cons]; omega))
    rw [List.zipIdx_cons, List.all_cons, List.all_cons, hc, ih fun i hi hlt =>
      h i (by omega) (by rw [List.length_cons]; omega)]

/-- What the check says of a text that is cut at the places of the hyphens. -/
theorem all_isUuidChar_cut {a b c d e : List Char} {x y z w : Char} (ha : a.length = 8)
    (hb : b.length = 4) (hc : c.length = 4) (hd : d.length = 4) (he : e.length = 12) :
    ((a ++ x :: (b ++ y :: (c ++ z :: (d ++ w :: e)))).zipIdx.all isUuidChar = true) ↔
      (x = '-' ∧ y = '-' ∧ z = '-' ∧ w = '-') ∧
        ∀ char ∈ a ++ b ++ c ++ d ++ e, isLowercaseHex char = true := by
  have hdash (char : Char) (k : ℕ) (hk : k ∈ [8, 13, 18, 23]) :
      isUuidChar (char, k) = (char == '-') := if_pos hk
  have hnot {part : List Char} {k : ℕ} (hk : ∀ i, k ≤ i → i < k + part.length →
      i ≠ 8 ∧ i ≠ 13 ∧ i ≠ 18 ∧ i ≠ 23) :
      (part.zipIdx k).all isUuidChar = part.all isLowercaseHex := by
    refine all_isUuidChar fun i hi hlt => ?_
    have hne := hk i hi hlt
    simp [hne]
  rw [List.zipIdx_append, List.zipIdx_cons, List.zipIdx_append, List.zipIdx_cons,
    List.zipIdx_append, List.zipIdx_cons, List.zipIdx_append, List.zipIdx_cons]
  simp only [List.all_append, List.all_cons, ha, hb, hc, hd]
  rw [hnot (by omega), hnot (by omega), hnot (by omega), hnot (by omega), hnot (by omega),
    hdash x _ (by decide), hdash y _ (by decide), hdash z _ (by decide), hdash w _ (by decide)]
  simp only [Bool.and_eq_true, List.all_eq_true, beq_iff_eq, List.mem_append, or_imp, forall_and]
  constructor
  · rintro ⟨hal, rfl, hbl, rfl, hcl, rfl, hdl, rfl, hel⟩
    exact ⟨⟨rfl, rfl, rfl, rfl⟩, ⟨⟨⟨hal, hbl⟩, hcl⟩, hdl⟩, hel⟩
  · rintro ⟨⟨rfl, rfl, rfl, rfl⟩, ⟨⟨⟨hal, hbl⟩, hcl⟩, hdl⟩, hel⟩
    exact ⟨hal, rfl, hbl, rfl, hcl, rfl, hdl, rfl, hel⟩

theorem filter_hyphen_of_all {part : List Char} (h : ∀ c ∈ part, isLowercaseHex c = true) :
    part.filter (· ≠ '-') = part := by
  rw [List.filter_eq_self]
  rintro c hc
  rw [decide_eq_true_eq]
  rintro rfl
  exact absurd (h _ hc) (by decide)

/-- The digits of a text that is cut at hyphens. -/
theorem filter_hyphenate {a b c d e : List Char}
    (h : ∀ char ∈ a ++ b ++ c ++ d ++ e, isLowercaseHex char = true) :
    (hyphenate a b c d e).filter (· ≠ '-') = a ++ b ++ c ++ d ++ e := by
  have hdrop (part rest : List Char) :
      (part ++ '-' :: rest).filter (· ≠ '-') = (part ++ rest).filter (· ≠ '-') := by
    simp
  rw [hyphenate, hdrop, ← List.append_assoc, hdrop, ← List.append_assoc, hdrop,
    ← List.append_assoc, hdrop, filter_hyphen_of_all h]

/-- The groups of the digits of a UUID. -/
theorem toList_uuidToString (u : Uuid) :
    (uuidToString u).toList = hyphenate ((hexDigits 32 u.toNat).take 8)
      (((hexDigits 32 u.toNat).drop 8).take 4) (((hexDigits 32 u.toNat).drop 12).take 4)
      (((hexDigits 32 u.toNat).drop 16).take 4) ((hexDigits 32 u.toNat).drop 20) := by
  simp [uuidToString, hyphenate]

theorem append_groups (d : List Char) :
    d.take 8 ++ (d.drop 8).take 4 ++ (d.drop 12).take 4 ++ (d.drop 16).take 4 ++ d.drop 20 = d := by
  have hcut (n k : ℕ) : (d.drop n).take k ++ d.drop (n + k) = d.drop n := by
    rw [← List.drop_drop, List.take_append_drop]
  rw [List.append_assoc, hcut 16 4, List.append_assoc, hcut 12 4, List.append_assoc, hcut 8 4,
    List.take_append_drop]

/-- The groups of digits are read off their text. -/
theorem hyphenate_groups {a b c d e digits : List Char} (ha : a.length = 8) (hb : b.length = 4)
    (hc : c.length = 4) (hd : d.length = 4) (h : a ++ b ++ c ++ d ++ e = digits) :
    hyphenate (digits.take 8) ((digits.drop 8).take 4) ((digits.drop 12).take 4)
      ((digits.drop 16).take 4) (digits.drop 20) = hyphenate a b c d e := by
  subst h
  simp [List.drop_append, ha, hb, hc, hd, List.drop_of_length_le]

theorem toNat_le_of_isUuidChar {p : Char × ℕ} (h : isUuidChar p = true) : p.1.toNat ≤ 127 := by
  rw [isUuidChar] at h
  split_ifs at h
  · rw [eq_of_beq h]
    decide
  · exact toNat_le_of_isLowercaseHex h

/-- The characters of a text are ASCII if all pass the check. -/
theorem length_of_all_isUuidChar {s : List Char} (h : s.zipIdx.all isUuidChar = true) :
    (utf8 s).length = s.length := by
  refine length_utf8_of_ascii fun c hc => ?_
  obtain ⟨i, hi, rfl⟩ := List.mem_iff_getElem.mp hc
  have hmem : (s[i], i) ∈ s.zipIdx :=
    List.mk_mem_zipIdx_iff_getElem?.mpr (List.getElem?_eq_getElem hi)
  exact toNat_le_of_isUuidChar (List.all_eq_true.mp h _ hmem)

/-- A text of the right length is cut at the places of the hyphens. -/
theorem exists_cut {s : List Char} (h : s.length = 36) :
    ∃ (a b c d e : List Char) (x y z w : Char),
      s = a ++ x :: (b ++ y :: (c ++ z :: (d ++ w :: e))) ∧
        a.length = 8 ∧ b.length = 4 ∧ c.length = 4 ∧ d.length = 4 ∧ e.length = 12 := by
  obtain ⟨a, x, rest, rfl, ha, hrest⟩ := exists_append_cons (n := 8) (s := s) (by omega)
  obtain ⟨b, y, rest', rfl, hb, hrest'⟩ := exists_append_cons (n := 4) (s := rest) (by omega)
  obtain ⟨c, z, rest'', rfl, hc, hrest''⟩ := exists_append_cons (n := 4) (s := rest') (by omega)
  obtain ⟨d, w, e, rfl, hd, he⟩ := exists_append_cons (n := 4) (s := rest'') (by omega)
  exact ⟨a, b, c, d, e, x, y, z, w, rfl, ha, hb, hc, hd, by omega⟩

/-- A UUID has one text. -/
theorem parseCanonicalUuid_eq_some_iff {s : List Char} {u : Uuid} :
    parseCanonicalUuid s = some u ↔ s = (uuidToString u).toList := by
  rw [toList_uuidToString]
  constructor
  · intro h
    rw [parseCanonicalUuid] at h
    split_ifs at h with hlength hall
    rw [not_not] at hlength
    rw [Bool.not_eq_true, Bool.not_eq_false'] at hall
    obtain ⟨a, b, c, d, e, x, y, z, w, rfl, ha, hb, hc, hd, he⟩ :=
      exists_cut ((length_of_all_isUuidChar hall).symm.trans hlength)
    obtain ⟨⟨rfl, rfl, rfl, rfl⟩, hchars⟩ := (all_isUuidChar_cut ha hb hc hd he).mp hall
    rw [← hyphenate, filter_hyphenate hchars] at h
    have hdigits := hexDigits_of_decodeHex (by norm_num)
      (fun char hchar => exists_hexDigit (hchars char hchar)) h
    rw [hyphenate_groups ha hb hc hd hdigits.symm, hyphenate]
  · rintro rfl
    have hlength : (hexDigits 32 u.toNat).length = 32 := length_hexDigits _ _
    have hchars : ∀ c ∈ hexDigits 32 u.toNat, isLowercaseHex c = true :=
      fun c => isLowercaseHex_of_mem_hexDigits
    have hall := (all_isUuidChar_cut (a := (hexDigits 32 u.toNat).take 8)
      (b := ((hexDigits 32 u.toNat).drop 8).take 4) (c := ((hexDigits 32 u.toNat).drop 12).take 4)
      (d := ((hexDigits 32 u.toNat).drop 16).take 4) (e := (hexDigits 32 u.toNat).drop 20)
      (by simp [hlength]) (by simp [hlength]) (by simp [hlength]) (by simp [hlength])
      (by simp [hlength])).mpr ⟨⟨rfl, rfl, rfl, rfl⟩, by rwa [append_groups]⟩
    rw [parseCanonicalUuid, if_neg, if_neg, filter_hyphenate, append_groups,
      decodeHex_hexDigits (by norm_num)]
    · rwa [append_groups]
    · rw [Bool.not_eq_true, Bool.not_eq_false']
      exact hall
    · rw [not_not, hyphenate, length_of_all_isUuidChar hall]
      simp [hlength]

/-! ### What is written -/

/-- The digits and the upper case letters without `I`, `L`, `O` and `U`. -/
def crockfordAlphabet : List Char := "0123456789ABCDEFGHJKMNPQRSTVWXYZ".toList

/-- A text of lowercase hexadecimal digits as long as a SHA-256. -/
def IsDigest (s : List Char) : Prop := s.length = 64 ∧ ∀ c ∈ s, isLowercaseHex c = true

/-- From 1 to 8 ASCII letters and digits. -/
def IsExtension (s : List Char) : Prop :=
  1 ≤ s.length ∧ s.length ≤ 8 ∧ ∀ c ∈ s, c.isAlphanum = true

/-- The 26 characters of a ULID. -/
def IsUlid (s : List Char) : Prop := s.length = 26 ∧ ∀ c ∈ s, c ∈ crockfordAlphabet

/-- A key is the one that is written for the components of a class. -/
def Renders : KeyClass → List Char → Prop
  | .thumb sha256, key => IsDigest sha256 ∧ key = sha256 ++ ".thumb.jpg".toList
  | .blob sha256 ext, key => IsDigest sha256 ∧ IsExtension ext ∧ key = sha256 ++ '.' :: ext
  | .sidecar community sha256, key => IsDigest sha256 ∧
      key = "_meta/".toList ++ (uuidToString community).toList ++ '/' :: sha256 ++ ".json".toList
  | .auxiliary community sha256 eventId, key => IsDigest sha256 ∧ IsUlid eventId ∧
      key = "_uploads/".toList ++ (uuidToString community).toList ++ '/' :: sha256 ++
        '/' :: eventId ++ ".json".toList
  | .unknown, _ => False

theorem toNat_le_of_isAlphanum {c : Char} (h : c.isAlphanum = true) : c.toNat ≤ 127 := by
  rw [Char.isAlphanum, Bool.or_eq_true, isAlpha_iff, isDigit_iff] at h
  omega

theorem mem_crockfordAlphabet_iff {c : Char} : c ∈ crockfordAlphabet ↔ isCrockford c = true := by
  constructor
  · exact forall_of_all (P := fun c => isCrockford c = true) (by decide) c
  · intro h
    have hall : ∀ n < 91, isCrockford (Char.ofNat n) = true → Char.ofNat n ∈ crockfordAlphabet := by
      decide
    have hlt : c.toNat < 91 := by
      have hle {upper : Char} (h : c ≤ upper) : c.toNat ≤ upper.toNat :=
        UInt32.le_iff_toNat_le.mp (Char.le_def.mp h)
      simp only [isCrockford, Bool.or_eq_true, Bool.and_eq_true, decide_eq_true_eq, beq_iff_eq] at h
      rcases h with (((((((h | h) | rfl) | rfl) | rfl) | rfl) | h) | h)
      · rw [isDigit_iff] at h
        omega
      · exact (hle h.2).trans_lt (by decide)
      · decide
      · decide
      · decide
      · decide
      · exact (hle h.2).trans_lt (by decide)
      · exact (hle h.2).trans_lt (by decide)
    rw [← Char.ofNat_toNat c]
    exact hall _ hlt (by rwa [Char.ofNat_toNat])

/-- A text of a length in bytes whose characters are ASCII. -/
theorem isText_iff {s : List Char} {n : ℕ} {p : Char → Bool}
    (hp : ∀ c, p c = true → c.toNat ≤ 127) :
    ((utf8 s).length == n && s.all p) = true ↔ s.length = n ∧ ∀ c ∈ s, p c = true := by
  rw [Bool.and_eq_true, List.all_eq_true, beq_iff_eq, and_congr_left]
  intro hall
  rw [length_utf8_of_ascii fun c hc => hp c (hall c hc)]

theorem isSha256_iff {s : List Char} : isSha256 s = true ↔ IsDigest s :=
  isText_iff fun _ => toNat_le_of_isLowercaseHex

theorem isUlidCharset_iff {s : List Char} : isUlidCharset s = true ↔ IsUlid s := by
  have hascii : ∀ c ∈ crockfordAlphabet, c.toNat ≤ 127 := forall_of_all (by decide)
  rw [isUlidCharset, isText_iff fun c hc => hascii c ((mem_crockfordAlphabet_iff).mpr hc), IsUlid]
  simp only [mem_crockfordAlphabet_iff]

theorem isBlobExt_iff {s : List Char} : isBlobExt s = true ↔ IsExtension s := by
  have hempty : s.isEmpty = false ↔ 1 ≤ s.length := by
    rw [← Bool.not_eq_true, List.isEmpty_iff, ← List.length_eq_zero_iff]
    omega
  rw [isBlobExt, Bool.and_eq_true, Bool.and_eq_true, Bool.not_eq_true', hempty, decide_eq_true_eq,
    List.all_eq_true, IsExtension, and_assoc]
  refine and_congr_right fun _ => and_congr_left fun hall => ?_
  rw [length_utf8_of_ascii fun c hc => toNat_le_of_isAlphanum (hall c hc)]

/-! ### The parsers -/

theorem splitOn_eq_two {c : Char} {text a b : List Char} :
    text.splitOn c = [a, b] ↔ c ∉ a ∧ c ∉ b ∧ text = a ++ c :: b := by
  simp [splitOn_eq_iff, List.intercalate, and_assoc]

theorem splitOn_eq_three {c : Char} {text a b d : List Char} :
    text.splitOn c = [a, b, d] ↔ c ∉ a ∧ c ∉ b ∧ c ∉ d ∧ text = a ++ c :: (b ++ c :: d) := by
  simp [splitOn_eq_iff, List.intercalate, and_assoc]

theorem splitOn_eq_four {c : Char} {text a b d e : List Char} :
    text.splitOn c = [a, b, d, e] ↔ c ∉ a ∧ c ∉ b ∧ c ∉ d ∧ c ∉ e ∧
      text = a ++ c :: (b ++ c :: (d ++ c :: e)) := by
  simp [splitOn_eq_iff, List.intercalate, and_assoc]

theorem splitOn_eq_five {c : Char} {text a b d e f : List Char} :
    text.splitOn c = [a, b, d, e, f] ↔ c ∉ a ∧ c ∉ b ∧ c ∉ d ∧ c ∉ e ∧ c ∉ f ∧
      text = a ++ c :: (b ++ c :: (d ++ c :: (e ++ c :: f))) := by
  simp [splitOn_eq_iff, List.intercalate, and_assoc]

theorem IsDigest.notMem {s : List Char} (h : IsDigest s) {c : Char}
    (hc : isLowercaseHex c = false) : c ∉ s := by
  intro hmem
  rw [h.2 c hmem] at hc
  cases hc

theorem IsExtension.notMem {s : List Char} (h : IsExtension s) {c : Char}
    (hc : c.isAlphanum = false) : c ∉ s := by
  intro hmem
  rw [h.2.2 c hmem] at hc
  cases hc

theorem IsUlid.notMem {s : List Char} (h : IsUlid s) {c : Char} (hc : c ∉ crockfordAlphabet) :
    c ∉ s := fun hmem => hc (h.2 c hmem)

/-- The characters of the text of a UUID. -/
theorem mem_uuidToString {u : Uuid} {c : Char} (h : c ∈ (uuidToString u).toList) :
    isLowercaseHex c = true ∨ c = '-' := by
  rw [or_iff_not_imp_right]
  intro hc
  have hmem : c ∈ (uuidToString u).toList.filter (· ≠ '-') :=
    List.mem_filter.mpr ⟨h, decide_eq_true hc⟩
  have hgroups := append_groups (hexDigits 32 u.toNat)
  rw [toList_uuidToString, filter_hyphenate, hgroups] at hmem
  · exact isLowercaseHex_of_mem_hexDigits hmem
  · rw [hgroups]
    exact fun char => isLowercaseHex_of_mem_hexDigits

theorem notMem_uuidToString {u : Uuid} {c : Char} (hc : isLowercaseHex c = false) (hne : c ≠ '-') :
    c ∉ (uuidToString u).toList := by
  intro hmem
  rcases mem_uuidToString hmem with h | h
  · rw [h] at hc
    cases hc
  · exact hne h

theorem parseThumbKey_eq_some_iff {key sha256 : List Char} :
    parseThumbKey key = some sha256 ↔ Renders (.thumb sha256) key := by
  constructor
  · intro h
    rw [parseThumbKey] at h
    split at h
    · next sha thumb jpg hsplit =>
      split_ifs at h with hbad
      simp only [not_or, not_not, Bool.not_eq_true, Bool.not_eq_false'] at hbad
      obtain ⟨rfl, rfl, hsha⟩ := hbad
      obtain rfl := Option.some.inj h
      exact ⟨(isSha256_iff).mp hsha, ((splitOn_eq_three).mp hsplit).2.2.2⟩
    · cases h
  · rintro ⟨hsha, rfl⟩
    have hsplit : (sha256 ++ ".thumb.jpg".toList).splitOn '.' =
        [sha256, "thumb".toList, "jpg".toList] :=
      (splitOn_eq_three).mpr ⟨hsha.notMem rfl, by decide, by decide, rfl⟩
    rw [parseThumbKey, hsplit]
    simp [(isSha256_iff).mpr hsha]

theorem parseBlobKey_eq_some_iff {key sha256 ext : List Char} :
    parseBlobKey key = some (sha256, ext) ↔ Renders (.blob sha256 ext) key := by
  constructor
  · intro h
    rw [parseBlobKey] at h
    split at h
    · next sha e hsplit =>
      split_ifs at h with hbad
      simp only [not_or, Bool.not_eq_true, Bool.not_eq_false'] at hbad
      cases h
      exact ⟨(isSha256_iff).mp hbad.1, (isBlobExt_iff).mp hbad.2, ((splitOn_eq_two).mp hsplit).2.2⟩
    · cases h
  · rintro ⟨hsha, hext, rfl⟩
    rw [parseBlobKey, (splitOn_eq_two).mpr ⟨hsha.notMem rfl, hext.notMem rfl, rfl⟩]
    simp [(isSha256_iff).mpr hsha, (isBlobExt_iff).mpr hext]

theorem parseSidecarKey_eq_some_iff {key sha256 : List Char} {community : Uuid} :
    parseSidecarKey key = some (community, sha256) ↔ Renders (.sidecar community sha256) key := by
  constructor
  · intro h
    rw [parseSidecarKey] at h
    split at h
    · next lead uuid last hsplit =>
      split_ifs at h with hlead
      rw [not_not] at hlead
      obtain ⟨c, huuid, h⟩ := Option.bind_eq_some_iff.mp h
      split at h
      · next sha json hdots =>
        split_ifs at h with hbad
        simp only [not_or, not_not, Bool.not_eq_true, Bool.not_eq_false'] at hbad
        obtain ⟨rfl, hsha⟩ := hbad
        cases h
        have huuid := (parseCanonicalUuid_eq_some_iff).mp huuid
        refine ⟨(isSha256_iff).mp hsha, ?_⟩
        rw [((splitOn_eq_three).mp hsplit).2.2.2, hlead, ((splitOn_eq_two).mp hdots).2.2, huuid]
        simp
      · cases h
    · cases h
  · rintro ⟨hsha, rfl⟩
    have hslashes : ("_meta/".toList ++ (uuidToString community).toList ++ '/' :: sha256 ++
        ".json".toList).splitOn '/' =
        ["_meta".toList, (uuidToString community).toList, sha256 ++ ".json".toList] := by
      refine (splitOn_eq_three).mpr ⟨by decide, notMem_uuidToString rfl (by decide), ?_, by simp⟩
      rw [List.mem_append, not_or]
      exact ⟨hsha.notMem rfl, by decide⟩
    have hdots : (sha256 ++ ".json".toList).splitOn '.' = [sha256, "json".toList] :=
      (splitOn_eq_two).mpr ⟨hsha.notMem rfl, by decide, rfl⟩
    simp only [parseSidecarKey, hslashes, ne_eq, not_true_eq_false, if_false,
      (parseCanonicalUuid_eq_some_iff).mpr rfl, Option.bind_eq_bind, Option.bind_some, hdots,
      (isSha256_iff).mpr hsha, Bool.not_true, Bool.false_eq_true, or_false]

theorem parseAuxiliaryKey_eq_some_iff {key sha256 eventId : List Char} {community : Uuid} :
    parseAuxiliaryKey key = some (community, sha256, eventId) ↔
      Renders (.auxiliary community sha256 eventId) key := by
  constructor
  · intro h
    rw [parseAuxiliaryKey] at h
    split at h
    · next lead uuid sha last hsplit =>
      split_ifs at h with hlead hsha
      all_goals obtain ⟨c, huuid, h⟩ := Option.bind_eq_some_iff.mp h
      · cases h
      · rw [not_not] at hlead
        rw [Bool.not_eq_true, Bool.not_eq_false'] at hsha
        split at h
        · next id json hdots =>
          split_ifs at h with hbad
          simp only [not_or, not_not, Bool.not_eq_true, Bool.not_eq_false'] at hbad
          obtain ⟨rfl, hid⟩ := hbad
          cases h
          have huuid := (parseCanonicalUuid_eq_some_iff).mp huuid
          refine ⟨(isSha256_iff).mp hsha, (isUlidCharset_iff).mp hid, ?_⟩
          rw [((splitOn_eq_four).mp hsplit).2.2.2.2, hlead, ((splitOn_eq_two).mp hdots).2.2, huuid]
          simp
        · cases h
    · cases h
  · rintro ⟨hsha, hid, rfl⟩
    have hslashes : ("_uploads/".toList ++ (uuidToString community).toList ++ '/' :: sha256 ++
        '/' :: eventId ++ ".json".toList).splitOn '/' =
        ["_uploads".toList, (uuidToString community).toList, sha256,
          eventId ++ ".json".toList] := by
      refine (splitOn_eq_four).mpr ⟨by decide, notMem_uuidToString rfl (by decide),
        hsha.notMem rfl, ?_, by simp⟩
      rw [List.mem_append, not_or]
      exact ⟨hid.notMem (by decide), by decide⟩
    have hdots : (eventId ++ ".json".toList).splitOn '.' = [eventId, "json".toList] :=
      (splitOn_eq_two).mpr ⟨hid.notMem (by decide), by decide, rfl⟩
    simp only [parseAuxiliaryKey, hslashes, ne_eq, not_true_eq_false, if_false,
      (parseCanonicalUuid_eq_some_iff).mpr rfl, Option.bind_eq_bind, Option.bind_some, hdots,
      (isSha256_iff).mpr hsha, (isUlidCharset_iff).mpr hid, Bool.not_true, Bool.false_eq_true,
      or_false]

/-! ### One class for each key -/

/-- How many slashes and how many dots there are in a key of a class. -/
def KeyClass.separators : KeyClass → ℕ × ℕ
  | .thumb _ => (0, 2)
  | .blob _ _ => (0, 1)
  | .sidecar _ _ => (2, 1)
  | .auxiliary _ _ _ => (3, 1)
  | .unknown => (0, 0)

theorem count_of_renders {key : List Char} {cls : KeyClass} (h : Renders cls key) :
    (key.count '/', key.count '.') = cls.separators := by
  have huuid (u : Uuid) : (uuidToString u).toList.count '/' = 0 ∧
      (uuidToString u).toList.count '.' = 0 :=
    ⟨List.count_eq_zero.mpr (notMem_uuidToString rfl (by decide)),
      List.count_eq_zero.mpr (notMem_uuidToString rfl (by decide))⟩
  have hdigest {s : List Char} (hs : IsDigest s) : s.count '/' = 0 ∧ s.count '.' = 0 :=
    ⟨List.count_eq_zero.mpr (hs.notMem rfl), List.count_eq_zero.mpr (hs.notMem rfl)⟩
  cases cls with
  | thumb sha256 =>
    obtain ⟨hsha, rfl⟩ := h
    simp [KeyClass.separators, List.count_append, hdigest hsha]
  | blob sha256 ext =>
    obtain ⟨hsha, hext, rfl⟩ := h
    have hslash : ext.count '/' = 0 := List.count_eq_zero.mpr (hext.notMem rfl)
    have hdot : ext.count '.' = 0 := List.count_eq_zero.mpr (hext.notMem rfl)
    simp [KeyClass.separators, List.count_append, hdigest hsha, hslash, hdot]
  | sidecar community sha256 =>
    obtain ⟨hsha, rfl⟩ := h
    simp [KeyClass.separators, List.count_append, hdigest hsha, huuid]
  | auxiliary community sha256 eventId =>
    obtain ⟨hsha, hid, rfl⟩ := h
    have hslash : eventId.count '/' = 0 := List.count_eq_zero.mpr (hid.notMem (by decide))
    have hdot : eventId.count '.' = 0 := List.count_eq_zero.mpr (hid.notMem (by decide))
    simp [KeyClass.separators, List.count_append, hdigest hsha, huuid, hslash, hdot]
  | unknown => exact h.elim

/-- A key has one reading. -/
theorem Renders.unique {key : List Char} {cls cls' : KeyClass} (h : Renders cls key)
    (h' : Renders cls' key) : cls = cls' := by
  have hcount : cls.separators = cls'.separators :=
    (count_of_renders h).symm.trans (count_of_renders h')
  cases cls with
  | thumb sha256 =>
    cases cls' with
    | thumb sha256' =>
      obtain rfl := Option.some.inj (((parseThumbKey_eq_some_iff).mpr h).symm.trans
        ((parseThumbKey_eq_some_iff).mpr h'))
      rfl
    | _ => simp [KeyClass.separators] at hcount
  | blob sha256 ext =>
    cases cls' with
    | blob sha256' ext' =>
      cases ((parseBlobKey_eq_some_iff).mpr h).symm.trans ((parseBlobKey_eq_some_iff).mpr h')
      rfl
    | _ => simp [KeyClass.separators] at hcount
  | sidecar community sha256 =>
    cases cls' with
    | sidecar community' sha256' =>
      cases ((parseSidecarKey_eq_some_iff).mpr h).symm.trans ((parseSidecarKey_eq_some_iff).mpr h')
      rfl
    | _ => simp [KeyClass.separators] at hcount
  | auxiliary community sha256 eventId =>
    cases cls' with
    | auxiliary community' sha256' eventId' =>
      cases ((parseAuxiliaryKey_eq_some_iff).mpr h).symm.trans
        ((parseAuxiliaryKey_eq_some_iff).mpr h')
      rfl
    | _ => simp [KeyClass.separators] at hcount
  | unknown => exact h.elim

/-- What is classified is what is written for its class. -/
theorem renders_classifyKey {key : List Char} (h : classifyKey key ≠ .unknown) :
    Renders (classifyKey key) key := by
  rw [classifyKey] at h ⊢
  split
  · next sha256 hthumb => exact (parseThumbKey_eq_some_iff).mp hthumb
  · split
    · next sha256 ext hblob => exact (parseBlobKey_eq_some_iff).mp hblob
    · split
      · next community sha256 hsidecar => exact (parseSidecarKey_eq_some_iff).mp hsidecar
      · split
        · next community sha256 eventId hauxiliary =>
          exact (parseAuxiliaryKey_eq_some_iff).mp hauxiliary
        · next hthumb _ hblob _ hsidecar _ hauxiliary =>
          simp only [hthumb, hblob, hsidecar, hauxiliary, ne_eq, not_true_eq_false] at h

theorem classifyKey_ne_unknown {key : List Char} {cls : KeyClass} (h : Renders cls key) :
    classifyKey key ≠ .unknown := by
  intro hunknown
  rw [classifyKey] at hunknown
  split at hunknown
  · cases hunknown
  · next hthumb =>
    split at hunknown
    · cases hunknown
    · next hblob =>
      split at hunknown
      · cases hunknown
      · next hsidecar =>
        split at hunknown
        · cases hunknown
        · next hauxiliary =>
          cases cls with
          | thumb => cases hthumb.symm.trans ((parseThumbKey_eq_some_iff).mpr h)
          | blob => cases hblob.symm.trans ((parseBlobKey_eq_some_iff).mpr h)
          | sidecar => cases hsidecar.symm.trans ((parseSidecarKey_eq_some_iff).mpr h)
          | auxiliary => cases hauxiliary.symm.trans ((parseAuxiliaryKey_eq_some_iff).mpr h)
          | unknown => exact h

/-- A key is of a class if it is the one that is written for it. -/
theorem classifyKey_eq_iff {key : List Char} {cls : KeyClass} (hcls : cls ≠ .unknown) :
    classifyKey key = cls ↔ Renders cls key := by
  constructor
  · rintro rfl
    exact renders_classifyKey hcls
  · intro h
    exact (renders_classifyKey (classifyKey_ne_unknown h)).unique h

/-! ### The keys of a tenant -/

/-- What is read as a pointer. -/
theorem gitPointerCommunity_eq_some {key : List Char} {community : Uuid}
    (h : gitPointerCommunity key = some community) :
    ∃ owner repo, isAsciiHex64 owner = true ∧ isRepoName repo = true ∧
      key = "repos/".toList ++ (uuidToString community).toList ++ '/' :: owner ++ '/' :: repo ++
        "/pointer".toList := by
  rw [gitPointerCommunity] at h
  split at h
  · next lead uuid owner repo pointer hsplit =>
    split_ifs at h with hlead hbad
    all_goals obtain ⟨c, huuid, h⟩ := Option.bind_eq_some_iff.mp h
    · cases h
    · simp only [not_or, not_not, Bool.not_eq_true, Bool.not_eq_false'] at hlead hbad
      obtain ⟨howner, hrepo, hpointer⟩ := hbad
      cases h
      have huuid := (parseCanonicalUuid_eq_some_iff).mp huuid
      refine ⟨owner, repo, howner, hrepo, ?_⟩
      rw [((splitOn_eq_five).mp hsplit).2.2.2.2.2, hlead, hpointer, huuid]
      simp
  · cases h

theorem newline_notMem_owner {owner : List Char} (h : isAsciiHex64 owner = true) :
    '\n' ∉ owner := by
  intro hmem
  rw [isAsciiHex64, Bool.and_eq_true, List.all_eq_true] at h
  exact absurd (h.2 _ hmem) (by decide)

theorem newline_notMem_repo {repo : List Char} (h : isRepoName repo = true) : '\n' ∉ repo := by
  intro hmem
  rw [isRepoName, Bool.and_eq_true, List.all_eq_true] at h
  exact absurd (h.2 _ hmem) (by decide)

/-- A key of a tenant is under one of its prefixes, on one line. -/
theorem isTenantOwnedKey_text {community : Uuid} {key : List Char}
    (h : isTenantOwnedKey community key = true) :
    (∃ p ∈ tenantPrefixes community, p <+: key) ∧ '\n' ∉ key := by
  have huuid : '\n' ∉ (uuidToString community).toList := notMem_uuidToString rfl (by decide)
  rw [isTenantOwnedKey] at h
  split at h
  · next owner sha256 hclass =>
    obtain rfl := eq_of_beq h
    have hcls : KeyClass.sidecar owner sha256 ≠ .unknown := nofun
    obtain ⟨hsha, rfl⟩ := (classifyKey_eq_iff hcls).mp hclass
    refine ⟨⟨_, .head _, sha256 ++ ".json".toList, by simp⟩, ?_⟩
    simp [huuid, hsha.notMem (c := '\n') rfl]
  · next owner sha256 eventId hclass =>
    obtain rfl := eq_of_beq h
    have hcls : KeyClass.auxiliary owner sha256 eventId ≠ .unknown := nofun
    obtain ⟨hsha, hid, rfl⟩ := (classifyKey_eq_iff hcls).mp hclass
    refine ⟨⟨_, .tail _ (.head _), sha256 ++ '/' :: eventId ++ ".json".toList, by simp⟩, ?_⟩
    simp [huuid, hsha.notMem (c := '\n') rfl, hid.notMem (c := '\n') (by decide)]
  · obtain ⟨owner, repo, howner, hrepo, rfl⟩ := gitPointerCommunity_eq_some (eq_of_beq h)
    refine ⟨⟨_, .tail _ (.tail _ (.head _)), owner ++ '/' :: repo ++ "/pointer".toList, by simp⟩,
      ?_⟩
    simp [huuid, newline_notMem_owner howner, newline_notMem_repo hrepo]
  · cases h
  · cases h

/-- The prefixes of a tenant exclude each other. -/
theorem eq_of_tenantPrefixes {community : Uuid} {p p' key : List Char}
    (hp : p ∈ tenantPrefixes community) (hp' : p' ∈ tenantPrefixes community) (hkey : p <+: key)
    (hkey' : p' <+: key) : p = p' := by
  have htake {p : List Char} (hp : p ∈ tenantPrefixes community) (hkey : p <+: key) :
      key.take 2 = p.take 2 := by
    obtain ⟨rest, rfl⟩ := hkey
    rw [List.take_append_of_le_length]
    simp only [tenantPrefixes, List.mem_cons, List.not_mem_nil, or_false] at hp
    rcases hp with rfl | rfl | rfl <;> simp
  have hlead : p.take 2 = p'.take 2 := (htake hp hkey).symm.trans (htake hp' hkey')
  simp only [tenantPrefixes, List.mem_cons, List.not_mem_nil, or_false] at hp hp'
  rcases hp with rfl | rfl | rfl <;> rcases hp' with rfl | rfl | rfl <;> simp at hlead ⊢

/-- A key belongs to one tenant. -/
theorem isTenantOwnedKey_unique {community community' : Uuid} {key : List Char}
    (h : isTenantOwnedKey community key = true) (h' : isTenantOwnedKey community' key = true) :
    community = community' := by
  rw [isTenantOwnedKey] at h h'
  cases hclass : classifyKey key with
  | sidecar owner sha256 =>
    simp only [hclass] at h h'
    exact (eq_of_beq h).symm.trans (eq_of_beq h')
  | auxiliary owner sha256 eventId =>
    simp only [hclass] at h h'
    exact (eq_of_beq h).symm.trans (eq_of_beq h')
  | unknown =>
    simp only [hclass] at h h'
    exact Option.some.inj ((eq_of_beq h).symm.trans (eq_of_beq h'))
  | thumb | blob => simp only [hclass, Bool.false_eq_true] at h

/-! ### Streams of keys -/

/-- Ascending keys are folded, each on its line. -/
theorem foldlM_fold {keys : List Key} {d : KeyStreamDigest} (hascending : keys.Pairwise (· < ·))
    (hlast : ∀ last ∈ d.last, ∀ key ∈ keys, last < key) :
    ∃ d', keys.foldlM KeyStreamDigest.fold d = .ok d' ∧
      d'.text = d.text ++ keys.flatMap (· ++ ['\n']) := by
  induction keys generalizing d with
  | nil => exact ⟨d, rfl, by simp⟩
  | cons key keys ih =>
    have hfold : d.fold key = .ok ⟨d.text ++ key ++ ['\n'], some key, d.count + 1⟩ := by
      rw [KeyStreamDigest.fold, if_neg]
      rw [Option.any_eq_true]
      rintro ⟨last, hmem, hle⟩
      have hle : key ≤ last := by simpa using hle
      exact (hlast last hmem key List.mem_cons_self).not_ge hle
    obtain ⟨hkey, hkeys⟩ := List.pairwise_cons.mp hascending
    obtain ⟨d', hd', htext⟩ := @ih ⟨d.text ++ key ++ ['\n'], some key, d.count + 1⟩ hkeys
      (fun last hmem => by
        obtain rfl := Option.some.inj hmem
        exact hkey)
    refine ⟨d', ?_, ?_⟩
    · rw [List.foldlM_cons, hfold]
      exact hd'
    · rw [htext]
      simp

/-- Keys without a newline are read off their lines. -/
theorem lines_injective {keys keys' : List Key} (h : ∀ key ∈ keys, '\n' ∉ key)
    (h' : ∀ key ∈ keys', '\n' ∉ key)
    (heq : keys.flatMap (· ++ ['\n']) = keys'.flatMap (· ++ ['\n'])) : keys = keys' := by
  induction keys generalizing keys' with
  | nil =>
    cases keys' with
    | nil => rfl
    | cons key' keys' => simp at heq
  | cons key keys ih =>
    cases keys' with
    | nil => simp at heq
    | cons key' keys' =>
      rw [List.forall_mem_cons] at h h'
      simp only [List.flatMap_cons, List.append_assoc, List.singleton_append] at heq
      obtain ⟨hkey, -, hrest⟩ := append_cons_inj_of_not (· ≠ '\n')
        (fun _ hc => ne_of_mem_of_not_mem hc h.1) (fun _ hc => ne_of_mem_of_not_mem hc h'.1)
        (by simp) (by simp) heq
      rw [hkey, ih h.2 h'.2 hrest]

/-- **The taxonomy of keys.** A key is of a class if it is the one that is written for it, so that
it has one reading. A key of a tenant is on one line under one of its prefixes, and of no other
tenant. So the bytes that are folded for ascending keys of tenants say which keys they are. -/
theorem taxonomy_exact :
    (∀ key cls, cls ≠ KeyClass.unknown → (classifyKey key = cls ↔ Renders cls key)) ∧
    (∀ key cls cls', Renders cls key → Renders cls' key → cls = cls') ∧
    (∀ key key' cls, Renders cls key → Renders cls key' → key = key') ∧
    (∀ community key, isTenantOwnedKey community key = true →
      (∃! p, p ∈ tenantPrefixes community ∧ p <+: key) ∧ '\n' ∉ key ∧
        ∀ community', community' ≠ community → isTenantOwnedKey community' key = false) ∧
    ∀ keys keys' : List Key, keys.Pairwise (· < ·) → keys'.Pairwise (· < ·) →
      (∀ key ∈ keys, ∃ community, isTenantOwnedKey community key = true) →
      (∀ key ∈ keys', ∃ community, isTenantOwnedKey community key = true) →
      ∃ d d', keys.foldlM KeyStreamDigest.fold .new = .ok d ∧
        keys'.foldlM KeyStreamDigest.fold .new = .ok d' ∧
        (utf8 d.text = utf8 d'.text → keys = keys') := by
  have hrendered {key key' : List Char} {cls : KeyClass} (h : Renders cls key)
      (h' : Renders cls key') : key = key' := by
    cases cls with
    | thumb => exact h.2.trans h'.2.symm
    | blob => exact h.2.2.trans h'.2.2.symm
    | sidecar => exact h.2.trans h'.2.symm
    | auxiliary => exact h.2.2.trans h'.2.2.symm
    | unknown => exact h.elim
  refine ⟨fun key cls hcls => classifyKey_eq_iff hcls, fun key cls cls' h h' => h.unique h',
    fun key key' cls h h' => hrendered h h', fun community key h => ⟨?_, ?_, ?_⟩,
    fun keys keys' hascending hascending' howned howned' => ?_⟩
  · obtain ⟨⟨p, hp, hkey⟩, -⟩ := isTenantOwnedKey_text h
    exact ⟨p, ⟨hp, hkey⟩, fun p' hp' => eq_of_tenantPrefixes hp'.1 hp hp'.2 hkey⟩
  · exact (isTenantOwnedKey_text h).2
  · intro community' hne
    rw [← Bool.not_eq_true]
    exact fun h' => hne (isTenantOwnedKey_unique h' h)
  · obtain ⟨d, hd, htext⟩ := foldlM_fold (d := .new) hascending nofun
    obtain ⟨d', hd', htext'⟩ := foldlM_fold (d := .new) hascending' nofun
    refine ⟨d, d', hd, hd', fun hbytes => ?_⟩
    have heq := utf8_inj hbytes
    rw [htext, htext'] at heq
    refine lines_injective (fun key hkey => ?_) (fun key hkey => ?_) heq
    · obtain ⟨community, h⟩ := howned key hkey
      exact (isTenantOwnedKey_text h).2
    · obtain ⟨community, h⟩ := howned' key hkey
      exact (isTenantOwnedKey_text h).2

/-- The binding of a blob to one of two tenants. -/
theorem taxonomy_exact_sidecar :
    let key := "_meta/".toList ++ (uuidToString 5).toList ++ '/' :: hexDigits 64 7 ++
      ".json".toList
    classifyKey key = .sidecar 5 (hexDigits 64 7) ∧ isTenantOwnedKey 6 key = false := by
  intro key
  have hdigest : IsDigest (hexDigits 64 7) :=
    ⟨length_hexDigits _ _, fun _ => isLowercaseHex_of_mem_hexDigits⟩
  have hclass : classifyKey key = .sidecar 5 (hexDigits 64 7) :=
    (taxonomy_exact.1 key (.sidecar 5 (hexDigits 64 7)) nofun).mpr ⟨hdigest, rfl⟩
  have howned : isTenantOwnedKey 5 key = true := by
    rw [isTenantOwnedKey, hclass]
    exact beq_self_eq_true _
  exact ⟨hclass, (taxonomy_exact.2.2.2.1 5 key howned).2.2 6 (by decide)⟩

end Buzz.Media
