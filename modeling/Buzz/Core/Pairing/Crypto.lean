import Buzz.Core.Filter

/-!
# Pairing primitives

The derivations of `crates/buzz-core/src/pairing/crypto.rs`, over the primitives of the `nostr`
crate: key agreement, HKDF-SHA256, NIP-44 encryption, and the signing and verification of events.
`Crypto` is any choice of these primitives. `Crypto.Ideal` is what a session relies on: key
agreement is symmetric, a signed event has the key and the content it was built with, and what was
encrypted for a key is read by the holder of that key only.

## Main definitions

* `SignedEvent`, `EventBuilder`.
* `Crypto`, `Crypto.Ideal`.
* `deriveSessionId`, `deriveSas`, `deriveTranscriptHash`, `formatSas`.
-/

namespace Buzz.Core.Pairing

open Buzz.Library

/-! ### Bytes -/

/-- An array of 32 bytes. -/
abbrev Bytes32 := BitVec 256

/-- The bytes of an array, the first one the most significant. -/
def toBytes (b : Bytes32) : List UInt8 :=
  (List.range 32).reverse.map fun i => UInt8.ofNat (b.toNat / 256 ^ i)

/-- The array of the given bytes. -/
def ofBytes (bytes : List UInt8) : Bytes32 :=
  BitVec.ofNat 256 (bytes.foldl (fun n b => 256 * n + b.toNat) 0)

/-- `hex::encode`, and the `to_hex` of a public key. -/
def hexEncode (b : Bytes32) : String := String.ofList (hexDigits 64 b.toNat)

/-- `hex::decode`, when the text has 32 bytes. -/
def hexDecode (s : String) : Option Bytes32 := decodeHex 64 256 s.toList

theorem hexDecode_hexEncode (b : Bytes32) : hexDecode (hexEncode b) = some b := by
  rw [hexDecode, hexEncode, String.toList_ofList]
  exact decodeHex_hexDigits (by norm_num) b

/-! ### Events -/

/-- An event with its content and signature. -/
structure SignedEvent extends Event where
  content : String
  sig : List UInt8
  deriving DecidableEq

/-- What an event is built from; the current time stands for a missing creation time. -/
structure EventBuilder where
  kind : Kind
  content : String
  tags : List Tag
  createdAt : Option ℕ

/-- A `p` tag: `Tag::public_key`. -/
def publicKeyTag (key : PublicKey) : Tag := ⟨"p", [hexEncode key]⟩

/-- The kind of a relay authentication event (NIP-42). -/
def AUTHENTICATION_KIND : Kind := 22242

/-- A relay authentication event: `EventBuilder::auth`. -/
def EventBuilder.auth (challenge relayUrl : String) : EventBuilder :=
  ⟨AUTHENTICATION_KIND, "", [⟨"challenge", [challenge]⟩, ⟨"relay", [relayUrl]⟩], none⟩

/-! ### Primitives -/

/-- The primitives of the `nostr` crate, over the type of secret keys. Encryption and signing take
their randomness as an argument, and errors are their texts. -/
structure Crypto (K : Type) where
  publicKey : K → PublicKey
  generateSharedKey : K → PublicKey → Except String Bytes32
  hkdfExtract : (salt ikm : List UInt8) → Bytes32
  hkdfExpand : (prk : Bytes32) → (info : List UInt8) → (length : ℕ) → List UInt8
  encrypt : K → PublicKey → String → (nonce : Bytes32) → Except String String
  decrypt : K → PublicKey → String → Except String String
  sign : K → EventBuilder → (aux : Bytes32) → Except String SignedEvent
  verify : SignedEvent → Except String Unit

namespace Crypto

variable {K : Type} (C : Crypto K)

/-- What a session relies on. -/
structure Ideal : Prop where
  /-- Both sides of a key agreement compute one key. -/
  shared_symm : ∀ {a b : K} {shared : Bytes32},
    C.generateSharedKey a (C.publicKey b) = .ok shared →
      C.generateSharedKey b (C.publicKey a) = .ok shared
  /-- A signed event has the key of its signer, and the kind and content it was built with. -/
  sign_eq_ok : ∀ {a : K} {builder : EventBuilder} {aux : Bytes32} {event : SignedEvent},
    C.sign a builder aux = .ok event →
      event.pubkey = C.publicKey a ∧ event.kind = builder.kind ∧ event.content = builder.content
  /-- Whoever reads what `a` encrypted, as coming from `a`, holds the key it was encrypted for, and
  reads what was written. -/
  decrypt_encrypt : ∀ {a b : K} {key : PublicKey} {text text' content : String} {nonce : Bytes32},
    C.encrypt a key text nonce = .ok content →
      C.decrypt b (C.publicKey a) content = .ok text' → key = C.publicKey b ∧ text' = text

/-! ### Derivations -/

/-- HKDF-SHA256 with an output of 32 bytes. -/
def hkdf32 (salt ikm info : List UInt8) : Bytes32 :=
  ofBytes ((C.hkdfExpand (C.hkdfExtract salt ikm) info 32).take 32)

/-- The bytes of a text. -/
def infoBytes (text : String) : List UInt8 := text.toUTF8.toList

/-- Derive the session ID from the session secret. -/
def deriveSessionId (sessionSecret : Bytes32) : Bytes32 :=
  C.hkdf32 [] (toBytes sessionSecret) (infoBytes "nostr-pair-session-id")

/-- Derive the Short Authentication String code and the raw SAS input. The code is the number of
the first four bytes of the input, modulo a million. -/
def deriveSas (ecdhShared sessionSecret : Bytes32) : ℕ × Bytes32 :=
  let sasInput :=
    C.hkdf32 (toBytes sessionSecret) (toBytes ecdhShared) (infoBytes "nostr-pair-sas-v1")
  let sasCode := sasInput.toNat / 2 ^ 224 % 1000000
  (sasCode, sasInput)

/-- Derive the transcript hash that binds all session parameters together. -/
def deriveTranscriptHash (sessionId sourcePubkey targetPubkey sasInput sessionSecret : Bytes32) :
    Bytes32 :=
  let transcript := toBytes sessionId ++ toBytes sourcePubkey ++ toBytes targetPubkey ++
    toBytes sasInput
  C.hkdf32 (toBytes sessionSecret) transcript (infoBytes "nostr-pair-transcript-v1")

end Crypto

/-- Format a SAS code as a zero-padded 6-digit string. -/
def formatSas (code : ℕ) : String :=
  let digits := Nat.toDigits 10 code
  String.ofList (List.replicate (6 - digits.length) '0' ++ digits)

example : formatSas 47291 = "047291" := by decide

end Buzz.Core.Pairing
