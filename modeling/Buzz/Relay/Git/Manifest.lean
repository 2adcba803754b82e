import Mathlib.Data.List.Infix
import Mathlib.Data.String.Basic
import Buzz.Core.Filter
import Buzz.Library.Json
import Buzz.Library.SortedMap
import Buzz.Library.Sorting
import Buzz.Library.Text

/-!
# Repository manifests

The manifest of `crates/buzz-relay/src/api/git/manifest.rs`: the immutable snapshot of a
repository's published refs, with the store keys of the packs that cover them and the digest of the
manifest it supersedes. `canonicalBytes` is its compact JSON text, `fromBytes` reads it back, and
`validate` is what both the writer and the reader check.

## Main definitions

* `isSafeRefname`, `isHexOid`, `isManifestDigest`, `isPackKey`.
* `Manifest`, `Manifest.validate`, `Manifest.canonicalBytes`, `Manifest.fromBytes`.

## Main results

* `Manifest.validate_eq_ok_iff`: what a valid manifest satisfies.
* `Manifest.fromBytes_canonicalBytes`: a manifest is read back from its canonical bytes.
* `Manifest.size_canonicalBytes`: the number of canonical bytes of a valid manifest.
-/

namespace Buzz.Relay.Git

open Buzz.Core Buzz.Library

/-! ### Limits -/

/-- Current manifest schema version. -/
def MANIFEST_VERSION : ℕ := 1

/-- Maximum number of pack objects one manifest may reference. -/
def MAX_MANIFEST_PACKS : ℕ := 128

/-- Pack count that triggers proactive consolidation during the next accepted push. -/
def PACK_COMPACTION_THRESHOLD : ℕ := MAX_MANIFEST_PACKS * 3 / 4

/-- Maximum number of refs one manifest may advertise. -/
def MAX_MANIFEST_REFS : ℕ := 10000

/-! ### Names -/

/-- The characters of a safe ref name: ASCII letters and digits, `/`, `_`, `.` and `-`. -/
def isRefChar (c : Char) : Bool :=
  c.isAlphanum || c == '/' || c == '_' || c == '.' || c == '-'

/-- Conservative ref-name validation, shared by the writer and the reader. -/
def isSafeRefname (s : String) : Bool :=
  ['r', 'e', 'f', 's', '/'].isPrefixOf s.toList &&
    !(decide (['.', '.'] <:+: s.toList) || decide (['/', '/'] <:+: s.toList) ||
      ['/'].isPrefixOf s.toList || ['/'].isSuffixOf s.toList) &&
    s.toList.all isRefChar

/-- `char::is_ascii_hexdigit`. -/
def isHexDigit (c : Char) : Bool :=
  c.isDigit || (decide ('a' ≤ c) && decide (c ≤ 'f')) || (decide ('A' ≤ c) && decide (c ≤ 'F'))

/-- A hexadecimal digit that is not an uppercase letter. -/
def isLowerHexDigit (c : Char) : Bool :=
  c.isDigit || (decide ('a' ≤ c) && decide (c ≤ 'f'))

/-- A hexadecimal SHA-1 or SHA-256 object identifier. -/
def isHexOid (s : String) : Bool :=
  (s.utf8ByteSize == 40 || s.utf8ByteSize == 64) && s.toList.all isHexDigit

/-- A bare manifest digest: 64 lowercase hexadecimal digits. -/
def isManifestDigest (s : String) : Bool :=
  s.utf8ByteSize == 64 && s.toList.all isLowerHexDigit

/-- `str::strip_prefix`. -/
def stripPrefix (before : String) (s : String) : Option String :=
  if before.toList.isPrefixOf s.toList then
    some (String.ofList (s.toList.drop before.toList.length))
  else none

/-- A content-addressed pack key. -/
def isPackKey (s : String) : Bool :=
  match stripPrefix "packs/" s with
  | some digest => isManifestDigest digest
  | none => false

/-! ### The manifest -/

/-- A repository's published state. -/
structure Manifest where
  version : ℕ
  head : String
  refs : SortedMap String String
  packs : List String
  parent : Option String
  deriving DecidableEq

/-- Errors from manifest (de)serialization or validation. -/
inductive ManifestError
  | serde
  | unsupportedVersion (got expected : ℕ)
  | unsafeRefName (name : String)
  | malformedOid (refname oid : String)
  | emptyHead
  | malformedParent (parent : String)
  | tooManyPacks (got max : ℕ)
  | tooManyRefs (got max : ℕ)
  | malformedPackKey (key : String)
  deriving DecidableEq

namespace Manifest

/-- The check of one ref of a manifest. -/
def validateRef (r : String × String) : Except ManifestError Unit :=
  if !isSafeRefname r.1 then .error (.unsafeRefName r.1)
  else if !isHexOid r.2 then .error (.malformedOid r.1 r.2)
  else .ok ()

/-- The check of one pack key of a manifest. -/
def validatePack (key : String) : Except ManifestError Unit :=
  if !isPackKey key then .error (.malformedPackKey key) else .ok ()

/-- The check of the parent digest of a manifest. -/
def validateParent : Option String → Except ManifestError Unit
  | some p => if !isManifestDigest p then .error (.malformedParent p) else .ok ()
  | none => .ok ()

/-- Validate pre-commit invariants. -/
def validate (m : Manifest) : Except ManifestError Unit :=
  if m.packs.length > MAX_MANIFEST_PACKS then
    .error (.tooManyPacks m.packs.length MAX_MANIFEST_PACKS)
  else if m.refs.entries.length > MAX_MANIFEST_REFS then
    .error (.tooManyRefs m.refs.entries.length MAX_MANIFEST_REFS)
  else if m.head = "" then .error .emptyHead
  else if !isSafeRefname m.head then .error (.unsafeRefName m.head)
  else do
    m.refs.entries.forM validateRef
    m.packs.forM validatePack
    validateParent m.parent

/-! ### JSON -/

/-- A string as a JSON value. -/
def jsonString (s : String) : Json := .str s.toList

/-- An optional string as a JSON value. -/
def jsonOptional : Option String → Json
  | some s => jsonString s
  | none => .null

/-- The JSON object of a manifest, its fields in declaration order. -/
def toJson (m : Manifest) : Json :=
  .obj
    [("version".toList, .int (.ofNat m.version)),
      ("head".toList, jsonString m.head),
      ("refs".toList, .obj (m.refs.entries.map fun r => (r.1.toList, jsonString r.2))),
      ("packs".toList, .arr (m.packs.map jsonString)),
      ("parent".toList, jsonOptional m.parent)]

/-- The canonical text of a manifest, its packs sorted and without repetitions. -/
def canonicalText (m : Manifest) : String :=
  String.ofList (Json.render (toJson { m with packs := sortDedup m.packs }))

/-- Serialize to canonical bytes. -/
def canonicalBytes (m : Manifest) : ByteArray := m.canonicalText.toUTF8

/-- The value of a field of a struct: repeated fields are an error. -/
def field (name : String) (members : List (List Char × Json)) :
    Except ManifestError (Option Json) :=
  match members.filter fun m => m.1 == name.toList with
  | [] => .ok none
  | [m] => .ok (some m.2)
  | _ => .error .serde

/-- The value of a field that has no default. -/
def required (name : String) (members : List (List Char × Json)) : Except ManifestError Json := do
  match ← field name members with
  | some v => return v
  | none => throw .serde

/-- Read a string. -/
def readString : Json → Except ManifestError String
  | .str s => .ok (String.ofList s)
  | _ => .error .serde

/-- Read an unsigned 32-bit number. -/
def readU32 : Json → Except ManifestError ℕ
  | .int (.ofNat n) => if n < 2 ^ 32 then .ok n else .error .serde
  | _ => .error .serde

/-- Read a list of strings. -/
def readStrings : Json → Except ManifestError (List String)
  | .arr vs => vs.mapM readString
  | _ => .error .serde

/-- Read a map of strings, a later member replacing an earlier one of the same name. -/
def readStringMap : Json → Except ManifestError (SortedMap String String)
  | .obj ms => do
    let entries ← ms.mapM fun m => return (String.ofList m.1, ← readString m.2)
    return SortedMap.ofList entries
  | _ => .error .serde

/-- Read an optional string. -/
def readOptional : Json → Except ManifestError (Option String)
  | .null => .ok none
  | v => some <$> readString v

/-- Read the five fields of a manifest. -/
def readFields (version head refs packs parent : Json) : Except ManifestError Manifest := do
  return ⟨← readU32 version, ← readString head, ← readStringMap refs, ← readStrings packs,
    ← readOptional parent⟩

/-- Read a manifest: from an object, unknown members ignored and an absent parent read as `null`,
or from the array of its five fields. -/
def ofJson : Json → Except ManifestError Manifest
  | .obj ms => do
    let parent ← field "parent" ms
    readFields (← required "version" ms) (← required "head" ms) (← required "refs" ms)
      (← required "packs" ms) (parent.getD .null)
  | .arr [version, head, refs, packs, parent] => readFields version head refs packs parent
  | _ => .error .serde

/-- Parse from bytes; reject unknown schema versions. -/
def fromBytes (bytes : ByteArray) : Except ManifestError Manifest := do
  let some text := String.fromUTF8? bytes | throw .serde
  let some json := Json.parse text.toList | throw .serde
  let m ← ofJson json
  if m.version ≠ MANIFEST_VERSION then
    throw (.unsupportedVersion m.version MANIFEST_VERSION)
  return m

/-! ### What a valid manifest satisfies -/

theorem seq_eq_ok_iff {ε : Type} {x y : Except ε Unit} :
    (do x; y) = .ok () ↔ x = .ok () ∧ y = .ok () := by
  cases x with
  | error e => simp [bind, Except.bind]
  | ok u => simp [bind, Except.bind]

theorem forM_eq_ok_iff {ε α : Type} {f : α → Except ε Unit} :
    ∀ {l : List α}, l.forM f = .ok () ↔ ∀ a ∈ l, f a = .ok ()
  | [] => by simp [List.forM, pure, Except.pure]
  | a :: l => by
    rw [List.forall_mem_cons, ← forM_eq_ok_iff (l := l)]
    exact seq_eq_ok_iff

theorem validateRef_eq_ok_iff {r : String × String} :
    validateRef r = .ok () ↔ isSafeRefname r.1 = true ∧ isHexOid r.2 = true := by
  rw [validateRef]
  split_ifs <;> simp_all

theorem validatePack_eq_ok_iff {key : String} :
    validatePack key = .ok () ↔ isPackKey key = true := by
  rw [validatePack]
  split_ifs <;> simp_all

theorem validateParent_eq_ok_iff {parent : Option String} :
    validateParent parent = .ok () ↔ ∀ p ∈ parent, isManifestDigest p = true := by
  cases parent with
  | none => simp [validateParent]
  | some p =>
    rw [validateParent]
    split_ifs <;> simp_all

/-- What a valid manifest satisfies. -/
structure Valid (m : Manifest) : Prop where
  packs_le : m.packs.length ≤ MAX_MANIFEST_PACKS
  refs_le : m.refs.entries.length ≤ MAX_MANIFEST_REFS
  head_ne : m.head ≠ ""
  head_safe : isSafeRefname m.head = true
  refs : ∀ r ∈ m.refs.entries, isSafeRefname r.1 = true ∧ isHexOid r.2 = true
  packs : ∀ key ∈ m.packs, isPackKey key = true
  parent : ∀ p ∈ m.parent, isManifestDigest p = true

theorem validate_eq_ok_iff (m : Manifest) : m.validate = .ok () ↔ m.Valid := by
  have hrest : (do
        m.refs.entries.forM validateRef
        m.packs.forM validatePack
        validateParent m.parent) = .ok () ↔
      (∀ r ∈ m.refs.entries, isSafeRefname r.1 = true ∧ isHexOid r.2 = true) ∧
        (∀ key ∈ m.packs, isPackKey key = true) ∧ ∀ p ∈ m.parent, isManifestDigest p = true := by
    simp only [seq_eq_ok_iff, forM_eq_ok_iff, validateRef_eq_ok_iff, validatePack_eq_ok_iff,
      validateParent_eq_ok_iff]
  rw [validate]
  split_ifs with hpacks hrefs hhead hsafe
  · exact ⟨nofun, fun h => absurd h.packs_le (by omega)⟩
  · exact ⟨nofun, fun h => absurd h.refs_le (by omega)⟩
  · exact ⟨nofun, fun h => absurd hhead h.head_ne⟩
  · exact ⟨nofun, fun h => by simp [h.head_safe] at hsafe⟩
  · rw [hrest]
    constructor
    · rintro ⟨h1, h2, h3⟩
      exact ⟨by omega, by omega, hhead, by simpa using hsafe, h1, h2, h3⟩
    · exact fun h => ⟨h.refs, h.packs, h.parent⟩

/-! ### Reading canonical bytes back -/

theorem mapM_readString (l : List String) : (l.map jsonString).mapM readString = .ok l := by
  induction l with
  | nil => rfl
  | cons s l ih =>
    rw [List.map_cons, List.mapM_cons, ih]
    simp [jsonString, readString, String.ofList_toList, bind, Except.bind, pure, Except.pure]

theorem readStringMap_entries (m : SortedMap String String) :
    readStringMap (.obj (m.entries.map fun r => (r.1.toList, jsonString r.2))) = .ok m := by
  have hentries : ∀ es : List (String × String),
      ((es.map fun r => (r.1.toList, jsonString r.2)).mapM fun e => do
        return (String.ofList e.1, ← readString e.2)) = (.ok es : Except ManifestError _) := by
    intro es
    induction es with
    | nil => rfl
    | cons e es ih =>
      rw [List.map_cons, List.mapM_cons, ih]
      simp [jsonString, readString, String.ofList_toList, bind, Except.bind, pure, Except.pure]
  rw [readStringMap, hentries]
  simp [SortedMap.ofList_entries, bind, Except.bind, pure, Except.pure]

theorem readOptional_jsonOptional (o : Option String) : readOptional (jsonOptional o) = .ok o := by
  cases o with
  | none => rfl
  | some s => simp [jsonOptional, jsonString, readOptional, readString, Functor.map, Except.map]

theorem ofJson_toJson (m : Manifest) (h : m.version < 2 ^ 32) : ofJson m.toJson = .ok m := by
  have hfields : ofJson m.toJson = readFields (.int (.ofNat m.version)) (jsonString m.head)
      (.obj (m.refs.entries.map fun r => (r.1.toList, jsonString r.2)))
      (.arr (m.packs.map jsonString)) (jsonOptional m.parent) := rfl
  have hversion : readU32 (.int (.ofNat m.version)) = .ok m.version := if_pos h
  have hhead : readString (jsonString m.head) = .ok m.head := by
    rw [jsonString, readString, String.ofList_toList]
  have hpacks : readStrings (.arr (m.packs.map jsonString)) = .ok m.packs := mapM_readString m.packs
  rw [hfields, readFields, hversion, hhead, readStringMap_entries, hpacks,
    readOptional_jsonOptional]
  rfl

theorem integral_map_jsonString (l : List String) : Json.IntegralElems (l.map jsonString) := by
  induction l with
  | nil => trivial
  | cons s l ih => exact ⟨trivial, ih⟩

theorem integral_map_refs (l : List (String × String)) :
    Json.IntegralMembers (l.map fun r => (r.1.toList, jsonString r.2)) := by
  induction l with
  | nil => trivial
  | cons r l ih => exact ⟨trivial, ih⟩

theorem integral_toJson (m : Manifest) : m.toJson.Integral := by
  refine ⟨trivial, trivial, integral_map_refs _, integral_map_jsonString _, ?_, trivial⟩
  cases m.parent <;> trivial

/-- A manifest of the current version is read back from its canonical bytes, its packs sorted and
without repetitions. -/
theorem fromBytes_canonicalBytes (m : Manifest) (h : m.version = MANIFEST_VERSION) :
    fromBytes m.canonicalBytes = .ok { m with packs := sortDedup m.packs } := by
  have hutf8 : String.fromUTF8? m.canonicalBytes = some m.canonicalText :=
    dif_pos m.canonicalText.isValidUTF8
  have hjson : Json.parse m.canonicalText.toList =
      some (toJson { m with packs := sortDedup m.packs }) := by
    rw [canonicalText, String.toList_ofList]
    exact Json.parse_render (integral_toJson _)
  have hmanifest :=
    ofJson_toJson { m with packs := sortDedup m.packs } (by simp [h, MANIFEST_VERSION])
  simp only [fromBytes, hutf8, hjson, hmanifest]
  simp [h, bind, Except.bind, pure, Except.pure]

/-! ### The number of canonical bytes -/

/-- A character whose text inside a JSON string is itself. -/
def PlainChar (c : Char) : Prop := 32 ≤ c.toNat ∧ c ≠ '"' ∧ c ≠ '\\'

theorem isRefChar_of_isHexDigit {c : Char} (h : isHexDigit c = true) : isRefChar c = true := by
  have hle (a b : Char) : a ≤ b ↔ a.toNat ≤ b.toNat := UInt32.le_iff_toNat_le
  simp only [isHexDigit, Bool.or_eq_true, Bool.and_eq_true, decide_eq_true_eq, isDigit_iff, hle,
    Char.reduceToNat] at h
  have halnum : c.isAlphanum = true := by
    rw [Char.isAlphanum, Bool.or_eq_true, isAlpha_iff, isDigit_iff]
    omega
  simp [isRefChar, halnum]

theorem plainChar_of_isRefChar {c : Char} (h : isRefChar c = true) : PlainChar c := by
  have hbound : 32 ≤ c.toNat := by
    simp only [isRefChar, Bool.or_eq_true, beq_iff_eq] at h
    rcases h with (((halnum | rfl) | rfl) | rfl) | rfl
    · rw [Char.isAlphanum, Bool.or_eq_true, isAlpha_iff, isDigit_iff] at halnum
      omega
    all_goals decide
  refine ⟨hbound, ?_, ?_⟩
  · rintro rfl
    exact absurd h (by decide)
  · rintro rfl
    exact absurd h (by decide)

/-- A string of plain characters takes two bytes more with its quotes. -/
theorem utf8Len_quote {s : String} (h : ∀ c ∈ s.toList, PlainChar c) :
    String.utf8Len (Json.quote s.toList) = s.utf8ByteSize + 2 := by
  have hescape : ∀ l : List Char, (∀ c ∈ l, PlainChar c) → l.flatMap Json.escapeChar = l := by
    intro l hl
    induction l with
    | nil => rfl
    | cons c l ih =>
      obtain ⟨hlow, hquote, hslash⟩ := hl c List.mem_cons_self
      have hself : Json.escapeChar c = [c] := by
        rw [Json.escapeChar, if_neg hquote, if_neg hslash, if_neg, if_neg, if_neg,
          if_neg (by omega), if_neg (by omega), if_neg (by omega)]
        all_goals rintro rfl; exact absurd hlow (by decide)
      rw [List.flatMap_cons, ih fun x hx => hl x (List.mem_cons_of_mem _ hx), hself,
        List.singleton_append]
  rw [Json.quote, hescape _ h, String.utf8Len_cons, String.utf8Len_append,
    ← String.utf8ByteSize_ofList s.toList, String.ofList_toList]
  rfl

theorem plain_of_isSafeRefname {s : String} (h : isSafeRefname s = true) :
    ∀ c ∈ s.toList, PlainChar c := by
  simp only [isSafeRefname, Bool.and_eq_true, List.all_eq_true] at h
  exact fun c hc => plainChar_of_isRefChar (h.2 c hc)

theorem plain_of_isHexOid {s : String} (h : isHexOid s = true) : ∀ c ∈ s.toList, PlainChar c := by
  simp only [isHexOid, Bool.and_eq_true, List.all_eq_true] at h
  exact fun c hc => plainChar_of_isRefChar (isRefChar_of_isHexDigit (h.2 c hc))

theorem isHexDigit_of_isLowerHexDigit {c : Char} (h : isLowerHexDigit c = true) :
    isHexDigit c = true := by
  rw [isLowerHexDigit] at h
  rw [isHexDigit, h, Bool.true_or]

theorem isManifestDigest_spec {s : String} (h : isManifestDigest s = true) :
    s.utf8ByteSize = 64 ∧ ∀ c ∈ s.toList, PlainChar c := by
  simp only [isManifestDigest, Bool.and_eq_true, beq_iff_eq, List.all_eq_true] at h
  exact ⟨h.1, fun c hc => plainChar_of_isRefChar
    (isRefChar_of_isHexDigit (isHexDigit_of_isLowerHexDigit (h.2 c hc)))⟩

theorem isPackKey_iff {s : String} :
    isPackKey s = true ↔ ∃ digest, s = "packs/" ++ digest ∧ isManifestDigest digest = true := by
  constructor
  · intro h
    rw [isPackKey, stripPrefix] at h
    split_ifs at h with hstart
    obtain ⟨t, ht⟩ := List.isPrefixOf_iff_prefix.mp hstart
    refine ⟨String.ofList t, ?_, ?_⟩
    · have happend : ("packs/" ++ String.ofList t).toList = "packs/".toList ++ t := by
        rw [String.toList_append, String.toList_ofList (l := t)]
      exact String.toList_inj.mp (ht.symm.trans happend.symm)
    · rwa [← ht, List.drop_left] at h
  · rintro ⟨digest, rfl, hdigest⟩
    rw [isPackKey, stripPrefix, String.toList_append,
      if_pos (List.isPrefixOf_iff_prefix.mpr (List.prefix_append _ _)), List.drop_left,
      String.ofList_toList]
    exact hdigest

theorem isPackKey_spec {s : String} (h : isPackKey s = true) :
    s.utf8ByteSize = 70 ∧ ∀ c ∈ s.toList, PlainChar c := by
  obtain ⟨digest, rfl, hdigest⟩ := isPackKey_iff.mp h
  obtain ⟨hsize, hplain⟩ := isManifestDigest_spec hdigest
  have hpacks : "packs/".utf8ByteSize = 6 := rfl
  have hchars : ∀ c ∈ "packs/".toList, isRefChar c = true :=
    List.all_eq_true.mp (by decide : ("packs/".toList.all isRefChar) = true)
  refine ⟨?_, fun c hc => ?_⟩
  · rw [String.utf8ByteSize_append, hsize, hpacks]
  · rw [String.toList_append] at hc
    rcases List.mem_append.mp hc with hc | hc
    · exact plainChar_of_isRefChar (hchars c hc)
    · exact hplain c hc

/-- The bytes of the refs of a manifest between their braces. -/
def refsSize (refs : List (String × String)) : ℕ :=
  (refs.map fun r => r.1.utf8ByteSize + r.2.utf8ByteSize + 5).sum + (refs.length - 1)

/-- The bytes of the pack keys of a manifest between their brackets. -/
def packsSize (packs : List String) : ℕ :=
  (packs.map fun key => key.utf8ByteSize + 2).sum + (packs.length - 1)

/-- The bytes of the parent digest of a manifest. -/
def parentSize : Option String → ℕ
  | some p => p.utf8ByteSize + 2
  | none => 4

theorem utf8Len_renderMembers {refs : List (String × String)}
    (h : ∀ r ∈ refs, (∀ c ∈ r.1.toList, PlainChar c) ∧ ∀ c ∈ r.2.toList, PlainChar c) :
    String.utf8Len (Json.renderMembers (refs.map fun r => (r.1.toList, jsonString r.2))) =
      (refs.map fun r => r.1.utf8ByteSize + r.2.utf8ByteSize + 5).sum + refs.length + 1 := by
  induction refs with
  | nil => rfl
  | cons r refs ih =>
    obtain ⟨hname, hoid⟩ := h r List.mem_cons_self
    have hrest := ih fun x hx => h x (List.mem_cons_of_mem _ hx)
    rw [List.map_cons, Json.renderMembers, String.utf8Len_cons, String.utf8Len_append,
      String.utf8Len_cons, String.utf8Len_append, hrest, utf8Len_quote hname, jsonString,
      Json.render, utf8Len_quote hoid, List.map_cons, List.sum_cons, List.length_cons]
    have hcomma : ','.utf8Size = 1 := rfl
    have hcolon : ':'.utf8Size = 1 := rfl
    omega

theorem utf8Len_refs {refs : List (String × String)}
    (h : ∀ r ∈ refs, (∀ c ∈ r.1.toList, PlainChar c) ∧ ∀ c ∈ r.2.toList, PlainChar c) :
    String.utf8Len (Json.render (.obj (refs.map fun r => (r.1.toList, jsonString r.2)))) =
      refsSize refs + 2 := by
  cases refs with
  | nil => rfl
  | cons r refs =>
    obtain ⟨hname, hoid⟩ := h r List.mem_cons_self
    have hrest := utf8Len_renderMembers fun x hx => h x (List.mem_cons_of_mem _ hx)
    rw [List.map_cons, Json.render, String.utf8Len_cons, String.utf8Len_append,
      String.utf8Len_cons, String.utf8Len_append, hrest, utf8Len_quote hname, jsonString,
      Json.render, utf8Len_quote hoid, refsSize, List.map_cons, List.sum_cons, List.length_cons]
    have hbrace : '{'.utf8Size = 1 := rfl
    have hcolon : ':'.utf8Size = 1 := rfl
    omega

theorem utf8Len_renderElems {packs : List String}
    (h : ∀ key ∈ packs, ∀ c ∈ key.toList, PlainChar c) :
    String.utf8Len (Json.renderElems (packs.map jsonString)) =
      (packs.map fun key => key.utf8ByteSize + 2).sum + packs.length + 1 := by
  induction packs with
  | nil => rfl
  | cons key packs ih =>
    have hrest := ih fun x hx => h x (List.mem_cons_of_mem _ hx)
    rw [List.map_cons, Json.renderElems, String.utf8Len_cons, String.utf8Len_append, hrest,
      jsonString, Json.render, utf8Len_quote (h key List.mem_cons_self), List.map_cons,
      List.sum_cons, List.length_cons]
    have hcomma : ','.utf8Size = 1 := rfl
    omega

theorem utf8Len_packs {packs : List String}
    (h : ∀ key ∈ packs, ∀ c ∈ key.toList, PlainChar c) :
    String.utf8Len (Json.render (.arr (packs.map jsonString))) = packsSize packs + 2 := by
  cases packs with
  | nil => rfl
  | cons key packs =>
    have hrest := utf8Len_renderElems fun x hx => h x (List.mem_cons_of_mem _ hx)
    rw [List.map_cons, Json.render, String.utf8Len_cons, String.utf8Len_append, hrest,
      jsonString, Json.render, utf8Len_quote (h key List.mem_cons_self), packsSize, List.map_cons,
      List.sum_cons, List.length_cons]
    have hbracket : '['.utf8Size = 1 := rfl
    omega

theorem utf8Len_parent {parent : Option String}
    (h : ∀ p ∈ parent, ∀ c ∈ p.toList, PlainChar c) :
    String.utf8Len (Json.render (jsonOptional parent)) = parentSize parent := by
  cases parent with
  | none => rfl
  | some p => exact utf8Len_quote (h p rfl)

/-- The number of canonical bytes of a valid manifest of the current version, its packs sorted. -/
theorem size_canonicalBytes {m : Manifest} (h : m.Valid) (hversion : m.version = MANIFEST_VERSION)
    (hpacks : m.packs.Pairwise (· < ·)) :
    m.canonicalBytes.size = 54 + m.head.utf8ByteSize + refsSize m.refs.entries +
      packsSize m.packs + parentSize m.parent := by
  have hhead := utf8Len_quote (plain_of_isSafeRefname h.head_safe)
  have hrefs := utf8Len_refs fun r hr =>
    ⟨plain_of_isSafeRefname (h.refs r hr).1, plain_of_isHexOid (h.refs r hr).2⟩
  have hpacksLen := utf8Len_packs fun key hkey => (isPackKey_spec (h.packs key hkey)).2
  have hparent := utf8Len_parent fun p hp => (isManifestDigest_spec (h.parent p hp)).2
  have hsize : m.canonicalBytes.size = m.canonicalText.utf8ByteSize := rfl
  have htext : Json.render m.toJson = "\x7b\"version\":".toList ++ (Json.renderInt m.version ++
      (",\"head\":".toList ++ (Json.quote m.head.toList ++ (",\"refs\":".toList ++
        (Json.render (.obj (m.refs.entries.map fun r => (r.1.toList, jsonString r.2))) ++
          (",\"packs\":".toList ++ (Json.render (.arr (m.packs.map jsonString)) ++
            (",\"parent\":".toList ++ (Json.render (jsonOptional m.parent) ++
              "\x7d".toList))))))))) := rfl
  rw [hsize, canonicalText, sortDedup_eq_self hpacks, String.utf8ByteSize_ofList, htext, hversion]
  simp only [String.utf8Len_append, hhead, hrefs, hpacksLen, hparent]
  have hfixed : String.utf8Len "\x7b\"version\":".toList = 11 ∧
      String.utf8Len (Json.renderInt MANIFEST_VERSION) = 1 ∧
      String.utf8Len ",\"head\":".toList = 8 ∧ String.utf8Len ",\"refs\":".toList = 8 ∧
      String.utf8Len ",\"packs\":".toList = 9 ∧ String.utf8Len ",\"parent\":".toList = 10 ∧
      String.utf8Len "\x7d".toList = 1 := by decide
  omega

end Manifest

end Buzz.Relay.Git
