import Buzz.GitSignNostr.Attestation
import Buzz.Library.Base64

/-!
# The envelope of a git signature

A signature file is a JSON envelope in base64 between two markers. The envelope is written by
interpolation, without escapes; the parser of `crates/git-sign-nostr/src/lib.rs` reads it as JSON,
and what it has read is written again and compared.

What is used of other crates is a parameter: the texts of errors, and whether a text is a public
key.

## Main definitions

* `Envelope`, `buildEnvelope`, `armor`.
* `parseArmor`, `hasNonStringWhitespace`, `parseEnvelope`.
* `Envelope.Written`: the envelopes that are read back.

## Main results

* `parseArmor_eq_ok`: what is between the markers.
* `parseEnvelope_text`: an envelope is read back.
* `parseEnvelope_ok`: what is known of an envelope that is read.
-/

namespace Buzz.GitSignNostr

open Buzz.Library

structure Envelope where
  pk : List Char
  sig : List Char
  t : ℕ
  oa : Option OwnerAttestation
  deriving DecidableEq

/-- What is used of other crates when a signature is read. -/
structure ReadCrates where
  jsonError : List Char → String
  base64Error : List Char → String
  unknownKey : List (List Char × Json) → String
  publicKeyFromHex : List Char → Except String Unit

/-! ### Writing -/

/-- The canonical JSON text, its parts interpolated as they are. -/
def buildEnvelope (pk sig : List Char) (t : ℕ) (oa : Option OwnerAttestation) : List Char :=
  match oa with
  | some oa =>
    List.flatten ["\x7b\"v\":1,\"pk\":\"".toList, pk, "\",\"sig\":\"".toList, sig,
      "\",\"t\":".toList, Nat.toDigits 10 t, ",\"oa\":[\"".toList, oa.owner, "\",\"".toList,
      oa.conditions, "\",\"".toList, oa.ownerSig, "\"]\x7d".toList]
  | none =>
    List.flatten ["\x7b\"v\":1,\"pk\":\"".toList, pk, "\",\"sig\":\"".toList, sig,
      "\",\"t\":".toList, Nat.toDigits 10 t, "\x7d".toList]

def Envelope.text (envelope : Envelope) : List Char :=
  buildEnvelope envelope.pk envelope.sig envelope.t envelope.oa

def armorBegin : List Char := "-----BEGIN SIGNED MESSAGE-----".toList

def armorEnd : List Char := "-----END SIGNED MESSAGE-----".toList

/-- The armor around a text in base64. -/
def armor (jsonBytes : List UInt8) : List Char :=
  armorBegin ++ '\n' :: (encodeBase64 jsonBytes ++ '\n' :: (armorEnd ++ ['\n']))

/-! ### Reading -/

/-- The line between the markers. -/
def parseArmor (content : List Char) : Except String (List Char) := do
  let content ← okOrError "armor must end with a newline" (stripEnd ['\n'] content)
  let lines := content.splitOn '\n'
  match lines with
  | [first, line, last] =>
    ensure (first = armorBegin) "missing or malformed BEGIN marker"
    ensure (last = armorEnd) "missing or malformed END marker"
    ensure (first.getLast?.all (· ∉ [' ', '\t', '\r'])) "trailing whitespace on line 1"
    ensure (line.getLast?.all (· ∉ [' ', '\t', '\r'])) "trailing whitespace on line 2"
    ensure (last.getLast?.all (· ∉ [' ', '\t', '\r'])) "trailing whitespace on line 3"
    return line
  | _ => .error s!"armor must have exactly 3 lines (BEGIN, base64, END), got {lines.length}"

/-- `char::is_ascii_whitespace`. -/
def isAsciiWhitespace (c : Char) : Bool :=
  c == ' ' || c == '\t' || c == '\n' || c.toNat == 12 || c == '\r'

/-- One turn of the scanner: whether a string is open, and whether an escape is. -/
def scanStep (inString escape : Bool) (c : Char) : Bool × Bool :=
  if escape then (inString, false)
  else if inString then
    if c = '\\' then (true, true) else if c = '"' then (false, false) else (true, false)
  else if c = '"' then (true, false)
  else (false, false)

/-- Whether there is white space outside of strings, from a state of the scanner on. -/
def scanWhitespace : Bool → Bool → List Char → Bool
  | _, _, [] => false
  | inString, escape, c :: rest =>
    if !escape && !inString && c != '"' && isAsciiWhitespace c then true
    else scanWhitespace (scanStep inString escape c).1 (scanStep inString escape c).2 rest

def hasNonStringWhitespace (s : List Char) : Bool := scanWhitespace false false s

/-- `serde_json::Value::as_object`. -/
def asObject : Json → Option (List (List Char × Json))
  | .obj members => some members
  | _ => none

/-- `serde_json::Value::as_u64`. -/
def asU64 : Json → Option ℕ
  | .int n => if 0 ≤ n ∧ n < 2 ^ 64 then some n.toNat else none
  | _ => none

/-- `serde_json::Value::is_f64`: a number that is not in the range of an integer type. -/
def isF64 : Json → Bool
  | .float _ => true
  | .int n => n < -2 ^ 63 || 2 ^ 64 ≤ n
  | _ => false

/-- The value of a name: of two members with it, the later one is kept. -/
def getField (obj : List (List Char × Json)) (key : String) : Option Json :=
  (obj.reverse.find? fun m => m.1 = key.toList).map (·.2)

/-- The names that an envelope may have. -/
def allowedKeys : List (List Char) :=
  ["v".toList, "pk".toList, "sig".toList, "t".toList, "oa".toList]

/-- The attestation in an envelope. -/
def parseOa (crates : ReadCrates) (pk : List Char) (val : Json) :
    Except String OwnerAttestation := do
  let arr ← okOrError "oa must be an array" (asArray val)
  match arr with
  | [owner, conditions, ownerSig] =>
    let owner ← okOrError "oa[0] must be a string" (asStr owner)
    let conditions ← okOrError "oa[1] must be a string" (asStr conditions)
    let ownerSig ← okOrError "oa[2] must be a string" (asStr ownerSig)
    validateHexField owner 64 "oa[0]"
    validateHexField ownerSig 128 "oa[2]"
    ensure (validateConditions conditions = true)
      "oa[1] conditions contain invalid characters (allowed: alphanumeric, _=<>&)"
    (crates.publicKeyFromHex owner).mapError fun e =>
      s!"oa[0] is not a valid BIP-340 public key: {e}"
    ensure (owner ≠ pk) "oa[0] (owner) must not equal pk (self-attestation)"
    return ⟨owner, conditions, ownerSig⟩
  | _ => .error s!"oa must have exactly 3 elements, got {arr.length}"

/-- A JSON text read as an envelope. -/
def parseEnvelope (crates : ReadCrates) (jsonStr : List Char) : Except String Envelope := do
  let val ← okOrError s!"invalid JSON: {crates.jsonError jsonStr}" (Json.parse jsonStr)
  let obj ← okOrError "JSON must be an object" (asObject val)
  ensure (∀ m ∈ obj, m.1 ∈ allowedKeys) s!"unknown key in v=1 envelope: {crates.unknownKey obj}"
  let v ← okOrError "missing required field: v" (getField obj "v")
  let v ← okOrError "v must be an integer" (asU64 v)
  ensure (v = 1) s!"unsupported version: {v}"
  let pk ← okOrError "missing required field: pk" (getField obj "pk")
  let pk ← okOrError "pk must be a string" (asStr pk)
  validateHexField pk 64 "pk"
  let sig ← okOrError "missing required field: sig" (getField obj "sig")
  let sig ← okOrError "sig must be a string" (asStr sig)
  validateHexField sig 128 "sig"
  let tVal ← okOrError "missing required field: t" (getField obj "t")
  ensure (isF64 tVal = false) "t must be an integer, not a float"
  let t ← okOrError "t must be a non-negative integer" (asU64 tVal)
  ensure (t ≤ 4294967295) s!"t out of range: {t}"
  match getField obj "oa" with
  | some oaVal =>
    let oa ← parseOa crates pk oaVal
    return ⟨pk, sig, t, some oa⟩
  | none => return ⟨pk, sig, t, none⟩

/-! ### The armor -/

/-- What is between the markers: one line, without white space at its end. -/
theorem parseArmor_eq_ok {content line : List Char} :
    parseArmor content = .ok line ↔
      content = armorBegin ++ '\n' :: (line ++ '\n' :: (armorEnd ++ ['\n'])) ∧ '\n' ∉ line ∧
        line.getLast?.all (· ∉ [' ', '\t', '\r']) = true := by
  have hmarkers : '\n' ∉ armorBegin ∧ '\n' ∉ armorEnd := by decide
  have hends : armorBegin.getLast?.all (· ∉ [' ', '\t', '\r']) = true ∧
      armorEnd.getLast?.all (· ∉ [' ', '\t', '\r']) = true := by decide
  have hjoined : ['\n'].intercalate [armorBegin, line, armorEnd] =
      armorBegin ++ '\n' :: (line ++ '\n' :: armorEnd) := by
    simp [List.intercalate]
  rw [parseArmor, bind_eq_ok]
  simp only [okOrError_eq_ok, stripEnd_eq_some_iff]
  constructor
  · rintro ⟨body, rfl, h⟩
    split at h
    · next first line' last hlines =>
      simp only [bind_eq_ok, ensure_eq_ok] at h
      obtain ⟨-, rfl, -, rfl, -, -, -, hline, -, -, hreturn⟩ := h
      cases hreturn
      obtain ⟨-, hparts, rfl⟩ := splitOn_eq_iff.mp hlines
      rw [hjoined]
      exact ⟨by simp, hparts line (by simp), hline⟩
    · cases h
  · rintro ⟨rfl, hline, hend⟩
    have hlines : (armorBegin ++ '\n' :: (line ++ '\n' :: armorEnd)).splitOn '\n' =
        [armorBegin, line, armorEnd] := by
      refine splitOn_eq_iff.mpr ⟨List.cons_ne_nil _ _, fun part hpart => ?_, hjoined.symm⟩
      simp only [List.mem_cons, List.not_mem_nil, or_false] at hpart
      rcases hpart with rfl | rfl | rfl
      · exact hmarkers.1
      · exact hline
      · exact hmarkers.2
    refine ⟨armorBegin ++ '\n' :: (line ++ '\n' :: armorEnd), by simp, ?_⟩
    rw [hlines]
    simp only [bind_eq_ok, ensure_eq_ok]
    exact ⟨(), trivial, (), trivial, (), hends.1, (), hend, (), hends.2, rfl⟩

/-! ### Compact texts -/

/-- An ASCII character that is no white space. -/
def Compact (c : Char) : Prop := isAsciiWhitespace c = false ∧ c.toNat ≤ 127

instance (c : Char) : Decidable (Compact c) := inferInstanceAs (Decidable (_ ∧ _))

theorem scanWhitespace_compact {s : List Char} (h : ∀ c ∈ s, Compact c) (inString escape : Bool) :
    scanWhitespace inString escape s = false := by
  induction s generalizing inString escape with
  | nil => rfl
  | cons c s ih =>
    rw [scanWhitespace, (h c List.mem_cons_self).1, Bool.and_false, if_neg Bool.false_ne_true]
    exact ih (fun d hd => h d (List.mem_cons_of_mem _ hd)) _ _

theorem compact_of_isHexText {digits : ℕ} {text : List Char} (h : IsHexText digits text) :
    ∀ c ∈ text, Compact c := by
  intro c hc
  have hall : ∀ n < 16, Compact (hexDigit n) := by decide
  obtain ⟨n, hn, rfl⟩ := exists_hexDigit (h.2 c hc)
  exact hall n hn

theorem compact_of_validateConditions {conditions : List Char}
    (h : validateConditions conditions = true) : ∀ c ∈ conditions, Compact c := by
  have hall : ∀ c ∈ conditionChars, Compact c := forall_of_all (by decide)
  exact fun c hc => hall c (conditions_chars h c hc)

theorem compact_toDigits (n : ℕ) : ∀ c ∈ Nat.toDigits 10 n, Compact c := by
  intro c hc
  have hall : ∀ c ∈ conditionChars, Compact c := forall_of_all (by decide)
  exact hall c (mem_conditionChars_of_isDigit
    (Nat.isDigit_of_mem_toDigits (by omega) (by omega) hc))

/-! ### The envelopes that are read back -/

/-- What the parser asks of an envelope. -/
structure Envelope.Written (crates : ReadCrates) (e : Envelope) : Prop where
  pk : IsHexText 64 e.pk
  sig : IsHexText 128 e.sig
  t : e.t ≤ 4294967295
  oa : ∀ oa ∈ e.oa, oa.Shaped ∧ crates.publicKeyFromHex oa.owner = .ok () ∧ oa.owner ≠ e.pk

variable {crates : ReadCrates} {e : Envelope}

/-- The parts of the text without an attestation, and with one. -/
theorem text_of_none (pk sig : List Char) (t : ℕ) : (Envelope.mk pk sig t none).text =
    List.flatten ["\x7b\"v\":1,\"pk\":\"".toList, pk, "\",\"sig\":\"".toList, sig,
      "\",\"t\":".toList, Nat.toDigits 10 t, "\x7d".toList] := rfl

theorem text_of_some (pk sig : List Char) (t : ℕ) (oa : OwnerAttestation) :
    (Envelope.mk pk sig t (some oa)).text =
      List.flatten ["\x7b\"v\":1,\"pk\":\"".toList, pk, "\",\"sig\":\"".toList, sig,
        "\",\"t\":".toList, Nat.toDigits 10 t, ",\"oa\":[\"".toList, oa.owner, "\",\"".toList,
        oa.conditions, "\",\"".toList, oa.ownerSig, "\"]\x7d".toList] := rfl

theorem compact_text (h : e.Written crates) : ∀ c ∈ e.text, Compact c := by
  have hparts {parts : List (List Char)} (hall : ∀ part ∈ parts, ∀ c ∈ part, Compact c) :
      ∀ c ∈ parts.flatten, Compact c := by
    intro c hc
    obtain ⟨part, hpart, hc⟩ := List.mem_flatten.mp hc
    exact hall part hpart c hc
  obtain ⟨pk, sig, t, oa⟩ := e
  cases oa with
  | none =>
    refine hparts ?_
    simp only [List.forall_mem_cons]
    exact ⟨forall_of_all (by decide), compact_of_isHexText h.pk, forall_of_all (by decide),
      compact_of_isHexText h.sig, forall_of_all (by decide), compact_toDigits t, forall_of_all (by decide),
      fun _ hc => absurd hc List.not_mem_nil⟩
  | some oa =>
    have hoa := (h.oa oa rfl).1
    refine hparts ?_
    simp only [List.forall_mem_cons]
    exact ⟨forall_of_all (by decide), compact_of_isHexText h.pk, forall_of_all (by decide),
      compact_of_isHexText h.sig, forall_of_all (by decide), compact_toDigits t, forall_of_all (by decide),
      compact_of_isHexText hoa.owner, forall_of_all (by decide),
      compact_of_validateConditions hoa.conditions, forall_of_all (by decide),
      compact_of_isHexText hoa.ownerSig, forall_of_all (by decide),
      fun _ hc => absurd hc List.not_mem_nil⟩

/-- The text is at most so much longer than the conditions. -/
theorem length_text_le (h : e.Written crates) :
    e.text.length ≤ 439 + (e.oa.elim 0 fun oa => oa.conditions.length) := by
  obtain ⟨pk, sig, t, oa⟩ := e
  have hpk : pk.length = 64 := h.pk.1
  have hsig : sig.length = 128 := h.sig.1
  have hle : t ≤ 4294967295 := h.t
  have ht : (Nat.toDigits 10 t).length ≤ 10 :=
    (Nat.length_toDigits_le_iff (by omega) (by omega)).mpr (by omega)
  cases oa with
  | none =>
    rw [text_of_none, List.length_flatten]
    simp only [List.map_cons, List.map_nil, List.sum_cons, List.sum_nil, hpk, hsig]
    simp
    omega
  | some oa =>
    have howner := (h.oa oa rfl).1.owner.1
    have hownerSig := (h.oa oa rfl).1.ownerSig.1
    rw [text_of_some, List.length_flatten]
    simp only [List.map_cons, List.map_nil, List.sum_cons, List.sum_nil, hpk, hsig, howner,
      hownerSig]
    simp
    omega

/-- The JSON value of an envelope. -/
def Envelope.toJson (e : Envelope) : Json :=
  .obj ([("v".toList, .int 1), ("pk".toList, .str e.pk), ("sig".toList, .str e.sig),
    ("t".toList, .int e.t)] ++
    match e.oa with
    | some oa => [("oa".toList, .arr [.str oa.owner, .str oa.conditions, .str oa.ownerSig])]
    | none => [])

/-- No character of the text is escaped in a string. -/
def Plain (text : List Char) : Prop := text.flatMap Json.escapeChar = text

theorem plain_of_forall {text : List Char} (h : ∀ c ∈ text, Json.escapeChar c = [c]) :
    Plain text := by
  rw [Plain, List.flatMap_congr h, List.flatMap_singleton']

theorem plain_of_isHexText {digits : ℕ} {text : List Char} (h : IsHexText digits text) :
    Plain text := by
  have hall : ∀ n < 16, Json.escapeChar (hexDigit n) = [hexDigit n] := by decide
  refine plain_of_forall fun c hc => ?_
  obtain ⟨n, hn, rfl⟩ := exists_hexDigit (h.2 c hc)
  exact hall n hn

theorem plain_of_validateConditions {conditions : List Char}
    (h : validateConditions conditions = true) : Plain conditions := by
  have hall : ∀ c ∈ conditionChars, Json.escapeChar c = [c] := forall_of_all (by decide)
  exact plain_of_forall fun c hc => hall c (conditions_chars h c hc)

theorem text_eq_render (h : e.Written crates) : e.text = e.toJson.render := by
  obtain ⟨pk, sig, t, oa⟩ := e
  have hpk : Plain pk := plain_of_isHexText h.pk
  have hsig : Plain sig := plain_of_isHexText h.sig
  cases oa with
  | none =>
    rw [Plain] at hpk hsig
    rw [text_of_none]
    simp [Envelope.toJson, Json.render, Json.renderMembers, Json.quote, Json.renderInt, hpk, hsig]
    rfl
  | some oa =>
    have hoa := (h.oa oa rfl).1
    have howner : Plain oa.owner := plain_of_isHexText hoa.owner
    have hconditions : Plain oa.conditions := plain_of_validateConditions hoa.conditions
    have hownerSig : Plain oa.ownerSig := plain_of_isHexText hoa.ownerSig
    rw [Plain] at hpk hsig howner hconditions hownerSig
    rw [text_of_some]
    simp [Envelope.toJson, Json.render, Json.renderMembers, Json.renderElems, Json.quote,
      Json.renderInt, hpk, hsig, howner, hconditions, hownerSig]
    rfl

theorem parse_text (h : e.Written crates) : Json.parse e.text = some e.toJson := by
  rw [text_eq_render h]
  refine Json.parse_render ?_
  obtain ⟨pk, sig, t, oa⟩ := e
  cases oa with
  | none => exact ⟨trivial, trivial, trivial, trivial, trivial⟩
  | some oa =>
    exact ⟨trivial, trivial, trivial, trivial, ⟨trivial, trivial, trivial, trivial⟩, trivial⟩

theorem parseOa_toJson {oa : OwnerAttestation} {pk : List Char}
    (h : oa.Shaped ∧ crates.publicKeyFromHex oa.owner = .ok () ∧ oa.owner ≠ pk) :
    parseOa crates pk (.arr [.str oa.owner, .str oa.conditions, .str oa.ownerSig]) = .ok oa := by
  obtain ⟨hshaped, hkey, hne⟩ := h
  rw [parseOa, bind_eq_ok]
  refine ⟨[.str oa.owner, .str oa.conditions, .str oa.ownerSig], rfl, ?_⟩
  simp only [bind_eq_ok, okOrError_eq_ok, ensure_eq_ok, validateHexField_eq_ok]
  refine ⟨oa.owner, rfl, oa.conditions, rfl, oa.ownerSig, rfl, (), hshaped.owner, (),
    hshaped.ownerSig, (), hshaped.conditions, (), ?_, (), hne, rfl⟩
  rw [hkey]
  rfl

theorem parseOa_ok {oa : OwnerAttestation} {pk : List Char} {val : Json}
    (h : parseOa crates pk val = .ok oa) :
    oa.Shaped ∧ crates.publicKeyFromHex oa.owner = .ok () ∧ oa.owner ≠ pk := by
  rw [parseOa, bind_eq_ok] at h
  obtain ⟨arr, -, h⟩ := h
  split at h
  · simp only [bind_eq_ok, ensure_eq_ok, validateHexField_eq_ok] at h
    obtain ⟨owner, -, conditions, -, ownerSig, -, -, howner, -, hownerSig, -, hconditions, ⟨⟩, hkey,
      -, hne, h⟩ := h
    cases h
    refine ⟨⟨howner, hconditions, hownerSig⟩, ?_, hne⟩
    cases hfromHex : crates.publicKeyFromHex owner with
    | ok => rfl
    | error e =>
      rw [hfromHex] at hkey
      cases hkey
  · cases h

/-- An envelope is read back from its text. -/
theorem parseEnvelope_text (h : e.Written crates) : parseEnvelope crates e.text = .ok e := by
  have hv : asU64 (.int 1) = some 1 := by decide
  have ht : asU64 (.int e.t) = some e.t := by
    have hle := h.t
    rw [asU64, if_pos (by omega), Int.toNat_natCast]
  have hfloat : isF64 (.int e.t) = false := by
    have hle := h.t
    rw [isF64, Bool.or_eq_false_iff, decide_eq_false_iff_not, decide_eq_false_iff_not]
    omega
  simp only [parseEnvelope, bind_eq_ok, okOrError_eq_ok, ensure_eq_ok, validateHexField_eq_ok,
    parse_text h]
  obtain ⟨hvKey, hpkKey, hsigKey, htKey, hoaKey⟩ : "v".toList ∈ allowedKeys ∧
      "pk".toList ∈ allowedKeys ∧ "sig".toList ∈ allowedKeys ∧ "t".toList ∈ allowedKeys ∧
      "oa".toList ∈ allowedKeys := by decide
  have hallowed (m : List Char × Json) (hm : m ∈ [("v".toList, Json.int 1),
      ("pk".toList, .str e.pk), ("sig".toList, .str e.sig), ("t".toList, .int e.t)]) :
      m.1 ∈ allowedKeys := by
    simp only [List.mem_cons, List.not_mem_nil, or_false] at hm
    rcases hm with rfl | rfl | rfl | rfl
    · exact hvKey
    · exact hpkKey
    · exact hsigKey
    · exact htKey
  obtain ⟨pk, sig, t, oa⟩ := e
  cases oa with
  | none =>
    exact ⟨_, rfl, _, rfl, (), hallowed, _, rfl, 1, hv, (), rfl, _, rfl, pk, rfl, (), h.pk, _, rfl,
      sig, rfl, (), h.sig, _, rfl, (), hfloat, t, ht, (), h.t, rfl⟩
  | some oa =>
    refine ⟨_, rfl, _, rfl, (), fun m hm => ?_, _, rfl, 1, hv, (), rfl, _, rfl, pk, rfl, (), h.pk,
      _, rfl, sig, rfl, (), h.sig, _, rfl, (), hfloat, t, ht, (), h.t, ?_⟩
    · rcases List.mem_append.mp hm with hm | hm
      · exact hallowed m hm
      · rw [List.mem_singleton.mp hm]
        exact hoaKey
    · change (parseOa crates pk (.arr [.str oa.owner, .str oa.conditions, .str oa.ownerSig]) >>=
        fun oa => pure (Envelope.mk pk sig t (some oa))) = _
      rw [parseOa_toJson (h.oa oa rfl)]
      rfl

/-- What is known of an envelope that is read. -/
theorem parseEnvelope_ok {jsonStr : List Char} (h : parseEnvelope crates jsonStr = .ok e) :
    e.Written crates := by
  simp only [parseEnvelope, bind_eq_ok, okOrError_eq_ok, ensure_eq_ok, validateHexField_eq_ok] at h
  obtain ⟨val, -, obj, -, -, -, v, -, -, -, -, -, pkVal, -, pk, -, -, hpk, sigVal, -, sig, -, -,
    hsig, tVal, -, -, -, t, -, -, ht, h⟩ := h
  split at h
  · obtain ⟨oa, hoa, hreturn⟩ := bind_eq_ok.mp h
    cases hreturn
    refine ⟨hpk, hsig, ht, fun oa' hoa' => ?_⟩
    obtain rfl := Option.some.inj hoa'
    exact parseOa_ok hoa
  · cases h
    exact ⟨hpk, hsig, ht, by rintro _ ⟨⟩⟩

end Buzz.GitSignNostr
