import Buzz.GitSignNostr.Envelope
import Buzz.GitSignNostr.SigningHash

/-!
# Git signature files

Signing and the stages of verification that read a signature file, of
`crates/git-sign-nostr/src/lib.rs`. What is read is written again and compared, so that a signature
has one file.

Keys, the hash and Schnorr signatures are parameters, and so is what a run finds in its
surroundings. The status lines for git are not modelled.

## Main definitions

* `SignCrates`, `Surroundings`: what is used of other crates, and what a run finds.
* `signedEnvelope`, `doSign`: signing.
* `readSignature`: the stages of `do_verify` up to the envelope.

## Main results

* `readSignature_armored`: an envelope is read back from its file.
* `eq_armored_of_readSignature`: a file that is read is the one of its envelope.
* `one_file`: signature files have one form.
-/

namespace Buzz.GitSignNostr

open Buzz.Library

/-- What is used of other crates, `K` being the key pairs. -/
structure SignCrates (K : Type) extends ReadCrates where
  npubToHex : List Char → Option (List Char)
  sha256 : List UInt8 → BitVec 256
  xOnlyPublicKey : K → BitVec 256
  signSchnorr : BitVec 256 → K → BitVec 512
  verifySchnorr : List UInt8 → BitVec 256 → List Char → Bool

/-- What a run that signs finds: its key, the payload, the time and the configuration. -/
structure Surroundings (K : Type) where
  key : Except String K
  keyId : List Char
  stdin : Except String (List UInt8)
  secondsSinceEpoch : Option ℕ
  authTagEnv : Option (List Char)
  authTagConfig : Except String (Option (List Char))

/-! ### Signing -/

variable {K : Type}

/-- The hexadecimal digits of a key identifier, in either of its forms. -/
def normalizeKeyId (crates : SignCrates K) (keyId : List Char) : Option (List Char) :=
  let trimmed := trimmed keyId
  if "npub1".toList.isPrefixOf trimmed then crates.npubToHex trimmed
  else if (utf8 trimmed).length = 64 ∧ (trimmed.all fun c => (hexVal c).isSome) = true then
    some (asciiLower trimmed)
  else none

def checkKeyId (crates : SignCrates K) (keyId pkHex : List Char) : Except String Unit :=
  if keyId = [] then .ok ()
  else
    match normalizeKeyId crates keyId with
    | some expectedHex => ensure (expectedHex = pkHex) (s!"signing key argument " ++
        s!"({String.ofList keyId}) does not match loaded key ({String.ofList pkHex})")
    | none => .error (s!"signing key argument ({String.ofList keyId}) is not a recognized key " ++
        "format (expected 64-char hex or npub1...)")

def readPayloadStdin (stdin : Except String (List UInt8)) : Except String (List UInt8) := do
  let payload ← stdin.mapError fun e => s!"failed to read payload from stdin: {e}"
  ensure (payload.length ≤ 100 * 1024 * 1024) "payload exceeds 100 MB limit"
  return payload

/-- The owner's signature over the key and the conditions. -/
def verifyOa (crates : SignCrates K) (agentPkHex : List Char) (oa : OwnerAttestation) : Bool :=
  match crates.publicKeyFromHex oa.owner with
  | .error _ => false
  | .ok _ =>
    let preimage := "nostr:agent-auth:".toList ++ agentPkHex ++ [':'] ++ oa.conditions
    match hexBytes oa.ownerSig with
    | none => false
    | some sig =>
      sig.length = 64 && crates.verifySchnorr sig (crates.sha256 (utf8 preimage)) oa.owner

/-- The checks on a configured attestation. -/
def checkAuthTag (crates : SignCrates K) (pkHex : List Char) (t : ℕ) (oa : OwnerAttestation) :
    Except String Unit := do
  ensure ((crates.publicKeyFromHex oa.owner).isOk = true)
    "auth tag owner (oa[0]) is not a valid BIP-340 public key"
  ensure (oa.owner ≠ pkHex)
    "auth tag owner (oa[0]) must not equal signing key (self-attestation)"
  ensure (verifyOa crates pkHex oa = true)
    ("auth tag owner signature (oa[2]) verification failed — the configured BUZZ_AUTH_TAG is " ++
      "invalid or stale")
  (enforceConditions oa.conditions t).mapError fun msg =>
    s!"auth tag conditions not satisfied: {msg}"

/-- The envelope that a run embeds. -/
def signedEnvelope (crates : SignCrates K) (found : Surroundings K) : Except String Envelope := do
  let key ← found.key
  let pkHex := hexDigits 64 (crates.xOnlyPublicKey key).toNat
  checkKeyId crates found.keyId pkHex
  let payload ← readPayloadStdin found.stdin
  let t ← okOrError "system clock is before Unix epoch" found.secondsSinceEpoch
  ensure (t ≤ 4294967295) s!"timestamp {t} exceeds NIP-GS u32 range (max 4294967295)"
  let oa ← loadAuthTag crates.jsonError found.authTagEnv found.authTagConfig
  match oa with
  | some oa => checkAuthTag crates pkHex t oa
  | none => pure ()
  let hash := computeSigningHash crates.sha256 t oa payload
  let sig := crates.signSchnorr hash key
  return ⟨pkHex, hexDigits 128 sig.toNat, t, oa⟩

/-- The file of an envelope. -/
def Envelope.armored (e : Envelope) : List UInt8 := utf8 (armor (utf8 e.text))

/-- What is written to the standard output. -/
def doSign (crates : SignCrates K) (found : Surroundings K) : Except String (List UInt8) := do
  let e ← signedEnvelope crates found
  let json := buildEnvelope e.pk e.sig e.t e.oa
  return utf8 (armor (utf8 json))

/-! ### Reading a file -/

/-- The stages of verification that read the signature file. -/
def readSignature (crates : ReadCrates) (sigFile : List UInt8) : Except String Envelope := do
  ensure (sigFile.length ≤ 8 * 1024) "signature file exceeds 8192 byte limit"
  let sigContent ← okOrError "cannot read signature file" (utf8Decode sigFile)
  let b64 ← parseArmor sigContent
  ensure ((utf8 b64).length ≤ 4096) "base64 line exceeds 4096 bytes"
  let decoded ← okOrError s!"invalid base64: {crates.base64Error b64}" (decodeBase64 b64)
  ensure (decoded.length ≤ 2048) "decoded JSON exceeds 2048 bytes"
  let jsonStr ← okOrError "decoded bytes are not valid UTF-8" (utf8Decode decoded)
  ensure (hasNonStringWhitespace jsonStr = false) "JSON contains whitespace outside string values"
  let envelope ← parseEnvelope crates jsonStr
  ensure (buildEnvelope envelope.pk envelope.sig envelope.t envelope.oa = jsonStr)
    "JSON is not in canonical form"
  return envelope

/-! ### What is embedded -/

variable {crates : SignCrates K} {found : Surroundings K} {e : Envelope}

theorem isHexText_hexDigits (digits n : ℕ) : IsHexText digits (hexDigits digits n) :=
  ⟨length_hexDigits digits n, fun _ => isLowercaseHex_of_mem_hexDigits⟩

theorem checkAuthTag_ok {pkHex : List Char} {t : ℕ} {oa : OwnerAttestation} {u : Unit}
    (h : checkAuthTag crates pkHex t oa = .ok u) :
    crates.publicKeyFromHex oa.owner = .ok () ∧ oa.owner ≠ pkHex := by
  simp only [checkAuthTag, bind_eq_ok, ensure_eq_ok] at h
  obtain ⟨-, hkey, -, hne, -⟩ := h
  refine ⟨?_, hne⟩
  cases hfromHex : crates.publicKeyFromHex oa.owner with
  | ok => rfl
  | error e =>
    rw [hfromHex] at hkey
    cases hkey

/-- What signing embeds is what the parser asks for, with short conditions. -/
theorem signedEnvelope_ok (h : signedEnvelope crates found = .ok e) :
    e.Written crates.toReadCrates ∧ ∀ oa ∈ e.oa, oa.conditions.length ≤ 1024 := by
  simp only [signedEnvelope, bind_eq_ok, ensure_eq_ok, okOrError_eq_ok] at h
  obtain ⟨key, -, -, -, payload, -, t, -, -, ht, oa, hload, h⟩ := h
  cases oa with
  | none =>
    cases h
    exact ⟨⟨isHexText_hexDigits 64 _, isHexText_hexDigits 128 _, ht, by rintro _ ⟨⟩⟩,
      by rintro _ ⟨⟩⟩
  | some oa =>
    obtain ⟨⟨⟩, hcheck, hreturn⟩ := bind_eq_ok.mp h
    cases hreturn
    obtain ⟨hshaped, hlength⟩ := loadAuthTag_ok hload
    obtain ⟨hkey, hne⟩ := checkAuthTag_ok hcheck
    refine ⟨⟨isHexText_hexDigits 64 _, isHexText_hexDigits 128 _, ht, fun oa' hoa' => ?_⟩,
      fun oa' hoa' => ?_⟩
    all_goals obtain rfl := Option.some.inj hoa'
    · exact ⟨hshaped, hkey, hne⟩
    · exact hlength

/-! ### One file for each envelope -/

theorem ascii_base64 (bytes : List UInt8) :
    ∀ c ∈ encodeBase64 bytes, c.toNat ≤ 127 ∧ c ∉ ['\n', ' ', '\t', '\r'] := by
  intro c hc
  have hall : ∀ n < 64, (base64Digit n).toNat ≤ 127 ∧
      base64Digit n ∉ ['\n', ' ', '\t', '\r'] := by decide
  rcases mem_encodeBase64 hc with rfl | ⟨n, hn, rfl⟩
  · decide
  · exact hall n hn

theorem ascii_armor (bytes : List UInt8) : ∀ c ∈ armor bytes, c.toNat ≤ 127 := by
  have hbegin : ∀ c ∈ armorBegin, c.toNat ≤ 127 := forall_of_all (by decide)
  have hend : ∀ c ∈ armorEnd, c.toNat ≤ 127 := forall_of_all (by decide)
  have hnewline : '\n'.toNat ≤ 127 := by decide
  intro c hc
  simp only [armor, List.mem_append, List.mem_cons, List.not_mem_nil, or_false] at hc
  rcases hc with hc | rfl | hc | rfl | hc | rfl
  · exact hbegin c hc
  · exact hnewline
  · exact (ascii_base64 bytes c hc).1
  · exact hnewline
  · exact hend c hc
  · exact hnewline

theorem length_armor (bytes : List UInt8) :
    (armor bytes).length = 61 + 4 * ((bytes.length + 2) / 3) := by
  have hbegin : armorBegin.length = 30 := by decide
  have hend : armorEnd.length = 28 := by decide
  simp only [armor, List.length_append, List.length_cons, List.length_nil, hbegin, hend,
    length_encodeBase64]
  omega

theorem parseArmor_armor (bytes : List UInt8) :
    parseArmor (armor bytes) = .ok (encodeBase64 bytes) := by
  refine parseArmor_eq_ok.mpr ⟨rfl, fun hc => ?_, ?_⟩
  · exact (ascii_base64 bytes _ hc).2 (by decide)
  · rw [Option.all_eq_true]
    intro c hc
    have hnot := (ascii_base64 bytes c (List.mem_of_getLast? hc)).2
    rw [List.mem_cons, not_or] at hnot
    exact decide_eq_true hnot.2

/-- An envelope with short conditions is read back from its file. -/
theorem readSignature_armored {crates : ReadCrates} (h : e.Written crates)
    (hlength : ∀ oa ∈ e.oa, oa.conditions.length ≤ 1024) :
    readSignature crates e.armored = .ok e := by
  have hascii : ∀ c ∈ e.text, c.toNat ≤ 127 := fun c hc => (compact_text h c hc).2
  have htext : e.text.length ≤ 1463 := by
    refine (length_text_le h).trans ?_
    cases hoa : e.oa with
    | none => simp
    | some oa =>
      have hle := hlength oa hoa
      simp only [Option.elim_some]
      omega
  have hbytes : (utf8 e.text).length = e.text.length := length_utf8_of_ascii hascii
  have hfile : (utf8 (armor (utf8 e.text))).length = (armor (utf8 e.text)).length :=
    length_utf8_of_ascii (ascii_armor _)
  have hline : (utf8 (encodeBase64 (utf8 e.text))).length = (encodeBase64 (utf8 e.text)).length :=
    length_utf8_of_ascii fun c hc => (ascii_base64 _ c hc).1
  simp only [readSignature, bind_eq_ok, ensure_eq_ok, okOrError_eq_ok, utf8Decode_eq_some_iff]
  refine ⟨(), ?_, armor (utf8 e.text), rfl, _, parseArmor_armor _, (), ?_, utf8 e.text,
    decodeBase64_encodeBase64 _, (), ?_, e.text, rfl, (),
    scanWhitespace_compact (compact_text h) _ _, e, parseEnvelope_text h, (), rfl, rfl⟩
  · rw [Envelope.armored, hfile, length_armor]
    omega
  · rw [hline, length_encodeBase64]
    omega
  · omega

/-- A file that is read is the one of its envelope. -/
theorem eq_armored_of_readSignature {crates : ReadCrates} {sigFile : List UInt8}
    (h : readSignature crates sigFile = .ok e) : sigFile = e.armored := by
  simp only [readSignature, bind_eq_ok, ensure_eq_ok, okOrError_eq_ok, utf8Decode_eq_some_iff] at h
  obtain ⟨-, -, content, rfl, b64, harmor, -, -, decoded, hdecoded, -, -, jsonStr, rfl, -, -,
    envelope, -, -, hcanonical, hreturn⟩ := h
  cases hreturn
  obtain ⟨hcontent, -, -⟩ := parseArmor_eq_ok.mp harmor
  have hb64 := encodeBase64_of_decodeBase64 hdecoded
  have htext : e.text = jsonStr := hcanonical
  rw [hcontent, Envelope.armored, htext, armor, hb64]

/-- **Signature files have one form.** What signing embeds is read back from the file that is
written, a file that is read is the one that would be written for its envelope, and so no two files
are read as one envelope. -/
theorem one_file (crates : SignCrates K) :
    (∀ found e, signedEnvelope crates found = .ok e →
      doSign crates found = .ok e.armored ∧
        readSignature crates.toReadCrates e.armored = .ok e) ∧
    (∀ sigFile e, readSignature crates.toReadCrates sigFile = .ok e → sigFile = e.armored) ∧
    ∀ sigFile sigFile' e, readSignature crates.toReadCrates sigFile = .ok e →
      readSignature crates.toReadCrates sigFile' = .ok e → sigFile = sigFile' := by
  refine ⟨fun found e h => ⟨?_, ?_⟩, fun sigFile e h => eq_armored_of_readSignature h,
    fun sigFile sigFile' e h h' => ?_⟩
  · rw [doSign, h]
    rfl
  · obtain ⟨hwritten, hlength⟩ := signedEnvelope_ok h
    exact readSignature_armored hwritten hlength
  · rw [eq_armored_of_readSignature h, eq_armored_of_readSignature h']

/-- Crates for one key, one owner and one signature of that owner. -/
def sampleCrates : SignCrates Unit where
  jsonError _ := "expected value at line 1 column 1"
  base64Error _ := "Invalid padding"
  unknownKey _ := "x"
  publicKeyFromHex text := ensure (text = hexDigits 64 5) "malformed public key"
  npubToHex _ := none
  sha256 bytes := BitVec.ofNat 256 bytes.length
  xOnlyPublicKey _ := 7
  signSchnorr hash _ := hash.zeroExtend 512
  verifySchnorr sig _ owner := sig = List.replicate 63 0 ++ [9] && owner = hexDigits 64 5

/-- A commit that is signed with an attestation of the environment. -/
def sampleSurroundings : Surroundings Unit where
  key := .ok ()
  keyId := []
  stdin := .ok (utf8 "tree 4b825dc6".toList)
  secondsSinceEpoch := some 1700000000
  authTagEnv := some ("[\"auth\",\"".toList ++ hexDigits 64 5 ++
    "\", \"created_at\\u003c1800000000\",\"".toList ++ hexDigits 128 9 ++ "\"]".toList)
  authTagConfig := .ok none

def sampleEnvelope : Envelope where
  pk := hexDigits 64 7
  sig := hexDigits 128 253
  t := 1700000000
  oa := some ⟨hexDigits 64 5, "created_at<1800000000".toList, hexDigits 128 9⟩

theorem one_file_sample :
    doSign sampleCrates sampleSurroundings = .ok sampleEnvelope.armored ∧
      readSignature sampleCrates.toReadCrates sampleEnvelope.armored = .ok sampleEnvelope := by
  have hsigned : (signedEnvelope sampleCrates sampleSurroundings).toOption =
      some sampleEnvelope := by decide +kernel
  exact (one_file sampleCrates).1 sampleSurroundings sampleEnvelope (ok_of_toOption hsigned)

end Buzz.GitSignNostr
