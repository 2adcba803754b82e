import Buzz.Library.FixedWidth
import Buzz.Library.JsonLength
import Buzz.Library.Numerals
import Buzz.Library.Outcome
import Buzz.Library.Text

/-!
# Owner attestations of git signatures

What `crates/git-sign-nostr/src/lib.rs` takes for an owner attestation: the public key of an owner,
conditions, and the owner's signature. It is configured as a JSON array of four strings.

The texts of JSON errors are those of `serde_json`, a parameter.

## Main definitions

* `OwnerAttestation`, `OwnerAttestation.Shaped`: three texts, and what is checked of each.
* `validateConditions`, `enforceConditions`, `hasKindClause`.
* `loadAuthTag`: the configured attestation.

## Main results

* `conditions_chars`: the characters of valid conditions.
* `loadAuthTag_ok`: what is known of a configured attestation.
-/

namespace Buzz.GitSignNostr

open Buzz.Library

/-- The owner's public key, the conditions and the owner's signature, as texts. -/
structure OwnerAttestation where
  owner : List Char
  conditions : List Char
  ownerSig : List Char
  deriving DecidableEq

/-! ### Conditions -/

/-- A decimal number below `2 ^ 32`: no sign and no leading zeros. -/
def parseDecimalU32 (s : List Char) : Option ℕ :=
  if s = [] then none
  else if s.head? = some '+' ∨ s.head? = some '-' then none
  else if 1 < (utf8 s).length ∧ s.head? = some '0' then none
  else if s.all Char.isDigit = false then none
  else parseUnsigned (2 ^ 32) s

/-- A clause of the conditions. -/
def validateClause (clause : List Char) : Bool :=
  match stripStart "kind=".toList clause with
  | some val => (parseDecimalU32 val).any (· ≤ 65535)
  | none =>
    match stripStart "created_at<".toList clause with
    | some val => (parseDecimalU32 val).isSome
    | none =>
      match stripStart "created_at>".toList clause with
      | some val => (parseDecimalU32 val).isSome
      | none => false

/-- The grammar of conditions: none, or clauses between `&`. -/
def validateConditions (conditions : List Char) : Bool :=
  conditions.isEmpty ||
    (conditions.splitOn '&').all fun clause => !clause.isEmpty && validateClause clause

/-- What a clause asks of the time of a signature. -/
def enforceClause (t : ℕ) (clause : List Char) : Except String Unit :=
  match stripStart "created_at<".toList clause with
  | some val =>
    match parseDecimalU32 val with
    | some limit => ensure (t < limit)
        s!"timestamp {t} violates auth tag constraint created_at<{limit}"
    | none => .ok ()
  | none =>
    match stripStart "created_at>".toList clause with
    | some val =>
      match parseDecimalU32 val with
      | some limit => ensure (limit < t)
          s!"timestamp {t} violates auth tag constraint created_at>{limit}"
      | none => .ok ()
    | none => .ok ()

/-- The time constraints of the conditions. -/
def enforceConditions (conditions : List Char) (t : ℕ) : Except String Unit :=
  if conditions = [] then .ok () else (conditions.splitOn '&').forM (enforceClause t)

def hasKindClause (conditions : List Char) : Bool :=
  !conditions.isEmpty && (conditions.splitOn '&').any ("kind=".toList.isPrefixOf ·)

/-! ### Fields -/

/-- A field of lowercase hexadecimal digits. -/
def validateHexField (val : List Char) (expectedLen : ℕ) (name : String) : Except String Unit := do
  ensure ((utf8 val).length = expectedLen)
    s!"{name} must be exactly {expectedLen} characters, got {(utf8 val).length}"
  ensure (val.all isLowercaseHex = true) s!"{name} must be lowercase hex"

/-- A text of lowercase hexadecimal digits. -/
def IsHexText (digits : ℕ) (text : List Char) : Prop :=
  text.length = digits ∧ ∀ c ∈ text, isLowercaseHex c = true

/-- What is checked of each part of an attestation. -/
structure OwnerAttestation.Shaped (oa : OwnerAttestation) : Prop where
  owner : IsHexText 64 oa.owner
  conditions : validateConditions oa.conditions = true
  ownerSig : IsHexText 128 oa.ownerSig

/-! ### The characters of the parts -/

theorem validateHexField_eq_ok {val : List Char} {digits : ℕ} {name : String} {u : Unit} :
    validateHexField val digits name = .ok u ↔ IsHexText digits val := by
  rw [validateHexField, bind_eq_ok]
  simp only [ensure_eq_ok, List.all_eq_true]
  constructor
  · rintro ⟨-, hlength, hchars⟩
    rw [length_utf8_of_ascii fun c hc => toNat_le_of_isLowercaseHex (hchars c hc)] at hlength
    exact ⟨hlength, hchars⟩
  · rintro ⟨hlength, hchars⟩
    rw [length_utf8_of_ascii fun c hc => toNat_le_of_isLowercaseHex (hchars c hc)]
    exact ⟨(), hlength, hchars⟩

/-- The characters that clauses are written with. -/
def conditionChars : List Char := "kindcreat_=<>&0123456789".toList

theorem parseDecimalU32_digits {s : List Char} {n : ℕ} (h : parseDecimalU32 s = some n) :
    ∀ c ∈ s, c.isDigit = true := by
  rw [parseDecimalU32] at h
  split_ifs at h with _ _ _ hdigits
  rw [Bool.not_eq_false, List.all_eq_true] at hdigits
  exact hdigits

theorem mem_conditionChars_of_isDigit {c : Char} (h : c.isDigit = true) : c ∈ conditionChars := by
  have hall : ∀ n < 58, 48 ≤ n → Char.ofNat n ∈ conditionChars := by decide
  rw [isDigit_iff] at h
  rw [← Char.ofNat_toNat c]
  exact hall _ (by omega) h.1

theorem validateClause_chars {clause : List Char} (h : validateClause clause = true) :
    ∀ c ∈ clause, c ∈ conditionChars := by
  have hchars {lead val : List Char} {n : ℕ} (hstrip : stripStart lead clause = some val)
      (hlead : ∀ c ∈ lead, c ∈ conditionChars) (hval : parseDecimalU32 val = some n) :
      ∀ c ∈ clause, c ∈ conditionChars := by
    intro c hc
    rw [stripStart_eq_some_iff.mp hstrip, List.mem_append] at hc
    exact hc.elim (hlead c) fun hc =>
      mem_conditionChars_of_isDigit (parseDecimalU32_digits hval c hc)
  rw [validateClause] at h
  split at h
  · next val hstrip =>
    obtain ⟨n, hn, -⟩ := (Option.any_eq_true _ _).mp h
    exact hchars hstrip (forall_of_all (by decide)) hn
  · split at h
    · next val hstrip =>
      obtain ⟨n, hn⟩ := Option.isSome_iff_exists.mp h
      exact hchars hstrip (forall_of_all (by decide)) hn
    · split at h
      · next val hstrip =>
        obtain ⟨n, hn⟩ := Option.isSome_iff_exists.mp h
        exact hchars hstrip (forall_of_all (by decide)) hn
      · cases h

/-- The characters of valid conditions. -/
theorem conditions_chars {conditions : List Char} (h : validateConditions conditions = true) :
    ∀ c ∈ conditions, c ∈ conditionChars := by
  rw [validateConditions, Bool.or_eq_true, List.isEmpty_iff, List.all_eq_true] at h
  rcases h with rfl | h
  · exact fun c hc => absurd hc List.not_mem_nil
  · intro c hc
    have hsplit : ['&'].intercalate (conditions.splitOn '&') = conditions :=
      List.intercalate_splitOn '&'
    rw [← hsplit] at hc
    rcases mem_intercalate hc with rfl | ⟨clause, hclause, hc⟩
    · decide
    · have hvalid := h clause hclause
      rw [Bool.and_eq_true] at hvalid
      exact validateClause_chars hvalid.2 c hc

/-! ### The configured attestation -/

/-- `serde_json::Value::as_str`. -/
def asStr : Json → Option (List Char)
  | .str s => some s
  | _ => none

/-- `serde_json::Value::as_array`. -/
def asArray : Json → Option (List Json)
  | .arr elems => some elems
  | _ => none

/-- The parts of an array of four strings, the first of which is `auth`. -/
def readAuthTag : List Json → Except String OwnerAttestation
  | [tag, owner, conditions, sig] => do
    ensure (asStr tag = some "auth".toList) "BUZZ_AUTH_TAG[0] must be \"auth\""
    let owner ← okOrError "BUZZ_AUTH_TAG[1] must be a string" (asStr owner)
    let conditions ← okOrError "BUZZ_AUTH_TAG[2] must be a string" (asStr conditions)
    let sig ← okOrError "BUZZ_AUTH_TAG[3] must be a string" (asStr sig)
    ensure (validateConditions conditions = true)
      "BUZZ_AUTH_TAG conditions contain invalid characters"
    ensure ((utf8 owner).length = 64 ∧ owner.all isLowercaseHex = true)
      "BUZZ_AUTH_TAG owner must be 64 lowercase hex chars"
    ensure ((utf8 sig).length = 128 ∧ sig.all isLowercaseHex = true)
      "BUZZ_AUTH_TAG signature must be 128 lowercase hex chars"
    return ⟨owner, conditions, sig⟩
  | _ => .error "BUZZ_AUTH_TAG must have exactly 4 elements"

/-- The text that is configured: of the environment, if it is not empty, or of git. -/
def authTagText (env : Option (List Char)) (gitConfig : Except String (Option (List Char))) :
    Except String (Option (List Char)) :=
  match env.filter (· ≠ []) with
  | some val => .ok (some val)
  | none => gitConfig.mapError fun e => s!"failed to read nostr.authtag: {e}"

/-- The configured attestation, if there is one. -/
def loadAuthTag (jsonError : List Char → String) (env : Option (List Char))
    (gitConfig : Except String (Option (List Char))) : Except String (Option OwnerAttestation) := do
  match ← authTagText env gitConfig with
  | none => return none
  | some jsonStr =>
    ensure ((utf8 jsonStr).length ≤ 1024) "auth tag exceeds 1024-byte size limit"
    let value ← okOrError s!"BUZZ_AUTH_TAG is not valid JSON: {jsonError jsonStr}"
      (Json.parse jsonStr)
    let arr ← okOrError "BUZZ_AUTH_TAG must be a JSON array" (asArray value)
    let oa ← readAuthTag arr
    return some oa

theorem asStr_eq_some {v : Json} {s : List Char} : asStr v = some s ↔ v = .str s := by
  cases v <;> simp [asStr]

theorem asArray_eq_some {v : Json} {elems : List Json} :
    asArray v = some elems ↔ v = .arr elems := by
  cases v <;> simp [asArray]

theorem isHexText_of_utf8 {digits : ℕ} {text : List Char}
    (h : (utf8 text).length = digits ∧ text.all isLowercaseHex = true) :
    IsHexText digits text := by
  rw [List.all_eq_true] at h
  rw [length_utf8_of_ascii fun c hc => toNat_le_of_isLowercaseHex (h.2 c hc)] at h
  exact h

theorem readAuthTag_ok {elems : List Json} {oa : OwnerAttestation}
    (h : readAuthTag elems = .ok oa) : oa.Shaped ∧ .str oa.conditions ∈ elems := by
  unfold readAuthTag at h
  split at h
  · simp only [bind_eq_ok, ensure_eq_ok, okOrError_eq_ok, asStr_eq_some] at h
    obtain ⟨-, -, owner, -, conditions, hconditions, sig, -, -, hvalid, -, howner, -, hsig, h⟩ := h
    cases h
    refine ⟨⟨isHexText_of_utf8 howner, hvalid, isHexText_of_utf8 hsig⟩, ?_⟩
    rw [hconditions]
    simp
  · cases h

/-- A configured attestation is well shaped, and its conditions are no longer than its text may
be. -/
theorem loadAuthTag_ok {jsonError : List Char → String} {env : Option (List Char)}
    {gitConfig : Except String (Option (List Char))} {oa : OwnerAttestation}
    (h : loadAuthTag jsonError env gitConfig = .ok (some oa)) :
    oa.Shaped ∧ oa.conditions.length ≤ 1024 := by
  unfold loadAuthTag at h
  obtain ⟨jsonStr, -, hload⟩ := bind_eq_ok.mp h
  split at hload
  · cases hload
  · next jsonStr =>
    simp only [bind_eq_ok, ensure_eq_ok, okOrError_eq_ok, asArray_eq_some] at hload
    obtain ⟨-, hlimit, value, hparse, arr, rfl, oa', hread, hreturn⟩ := hload
    cases hreturn
    obtain ⟨hshaped, hmem⟩ := readAuthTag_ok hread
    have hstring := Json.stringLength_le_of_mem hmem
    have htext := Json.stringLength_parse hparse
    have hbytes := length_le_length_utf8 jsonStr
    rw [Json.stringLength] at hstring
    exact ⟨hshaped, by omega⟩

end Buzz.GitSignNostr
