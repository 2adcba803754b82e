import Buzz.Core.Pairing.Session
import Buzz.Library.Numerals
import Buzz.Library.PercentEncoding
import Buzz.Library.Text

/-!
# The QR code of a pairing

The `nostrpair://` URI of `crates/buzz-core/src/pairing/qr.rs`: a public key, a session secret, the
relays and a version. The encoder escapes the relays, and the decoder cuts the query at `&` and each
parameter at its first `=`.

`QrCrates` is what the decoder uses of the `nostr` and `url` crates: reading a public key, and
parsing a relay URL.

## Main definitions

* `encodeQr`, `decodeQr`.
* `QrPayload.Valid`: the payloads that a source shows.

## Main results

* `splitOn_query`: the decoder cuts a query where the encoder has joined it.
* `decodeQr_encodeQr`: the round trip.
-/

namespace Buzz.Core.Pairing

open Buzz.Library

/-- What `Url::parse` finds: the scheme, and whether there is a host. -/
structure ParsedUrl where
  scheme : List Char
  host : Option (List Char)
  deriving DecidableEq

/-- What is used of the `nostr` and `url` crates; errors are their texts. -/
structure QrCrates where
  publicKeyFromHex : List Char → Except String PublicKey
  urlParse : List Char → Except String ParsedUrl

/-- What makes a URI invalid: the messages of `PairingError::InvalidQr`. -/
inductive QrError
  | tooLong (len : ℕ)
  | notNostrpair
  | missingQuery
  | malformedPubkey (text : List Char)
  | invalidPubkey (reason : String)
  | unsupportedVersion (version : ℕ)
  | missingSecret
  | malformedSecret (text : List Char)
  | zeroSecret
  | noRelay
  | invalidRelay (relay : String) (reason : String)
  | relayScheme (scheme : List Char)
  | relayHost (relay : String)
  deriving DecidableEq

def urlEncode (s : String) : List Char := percentEncode s.toList

def urlDecode (s : List Char) : String := String.ofList (utf8Lossy (percentDecode s))

theorem urlDecode_urlEncode (s : String) : urlDecode (urlEncode s) = s := by
  rw [urlDecode, urlEncode, utf8Lossy_percentDecode_percentEncode, String.ofList_toList]

/-- Exactly 64 lowercase hexadecimal characters. -/
def isHex64 (text : List Char) : Bool := (utf8 text).length == 64 && text.all isLowercaseHex

/-- Encode a payload as a `nostrpair://` URI. -/
def encodeQr (payload : QrPayload) : List Char :=
  let uri := "nostrpair://".toList ++ hexDigits 64 payload.sourcePubkey.toNat ++
    "?secret=".toList ++ hexDigits 64 payload.sessionSecret.toNat
  payload.relays.foldl (fun uri relay => uri ++ "&relay=".toList ++ urlEncode relay) uri ++
    "&v=1".toList

/-- The query parameters that have been read. -/
structure QrParams where
  secretHex : Option (List Char)
  relays : List String
  version : Option ℕ

/-- One turn of the loop over the query parameters. -/
def QrParams.read (params : QrParams) (pair : List Char) : QrParams :=
  match splitOnce '=' pair with
  | none => params
  | some (key, value) =>
    if key = "secret".toList then { params with secretHex := some value }
    else if key = "relay".toList then { params with relays := params.relays ++ [urlDecode value] }
    else if key = "v".toList then { params with version := parseUnsigned (2 ^ 32) value }
    else params

/-- The checks on one relay URL. -/
def checkRelay (crates : QrCrates) (relay : String) : Except QrError Unit :=
  match crates.urlParse relay.toList with
  | .error reason => .error (.invalidRelay relay reason)
  | .ok parsed =>
    if parsed.scheme ≠ "wss".toList ∧ parsed.scheme ≠ "ws".toList then
      .error (.relayScheme parsed.scheme)
    else if parsed.host = none then .error (.relayHost relay)
    else .ok ()

/-- The checks on the parameters. -/
def QrParams.check (crates : QrCrates) (sourcePubkey : PublicKey) (params : QrParams) :
    Except QrError QrPayload :=
  let version := params.version.getD 1
  if version ≠ 1 then .error (.unsupportedVersion version)
  else
    match params.secretHex with
    | none => .error .missingSecret
    | some secretStr =>
      if !isHex64 secretStr then .error (.malformedSecret secretStr)
      else
        match (decodeHex 64 256 secretStr : Option Bytes32) with
        | none => .error (.malformedSecret secretStr)
        | some sessionSecret =>
          if sessionSecret = 0 then .error .zeroSecret
          else if params.relays = [] then .error .noRelay
          else (params.relays.forM (checkRelay crates)).map fun _ =>
            ⟨version, sourcePubkey, sessionSecret, params.relays⟩

/-- Decode a `nostrpair://` URI. -/
def decodeQr (crates : QrCrates) (uri : List Char) : Except QrError QrPayload :=
  if 2048 < (utf8 uri).length then .error (.tooLong (utf8 uri).length)
  else if !("nostrpair://".toList.isPrefixOf uri) then .error .notNostrpair
  else
    match splitOnce '?' (uri.drop "nostrpair://".toList.length) with
    | none => .error .missingQuery
    | some (pubkeyHex, query) =>
      if !isHex64 pubkeyHex then .error (.malformedPubkey pubkeyHex)
      else
        match crates.publicKeyFromHex pubkeyHex with
        | .error reason => .error (.invalidPubkey reason)
        | .ok sourcePubkey =>
          ((query.splitOn '&').foldl QrParams.read ⟨none, [], none⟩).check crates sourcePubkey

/-! ### The round trip -/

/-- A payload that a source shows: its public key is one, its secret is not zero, and every relay is
a WebSocket URL with a host. -/
structure QrPayload.Valid (crates : QrCrates) (p : QrPayload) : Prop where
  pubkey : crates.publicKeyFromHex (hexDigits 64 p.sourcePubkey.toNat) = .ok p.sourcePubkey
  secret : p.sessionSecret ≠ 0
  version : p.version = 1
  relays : p.relays ≠ []
  urls : ∀ r ∈ p.relays, ∃ parsed, crates.urlParse r.toList = .ok parsed ∧
    (parsed.scheme = "ws".toList ∨ parsed.scheme = "wss".toList) ∧ parsed.host.isSome

theorem isHex64_hexDigits (n : ℕ) : isHex64 (hexDigits 64 n) = true := by
  have hascii : ∀ c ∈ hexDigits 64 n, c.toNat ≤ 127 := by
    intro c hc
    obtain ⟨i, -, rfl⟩ := List.mem_map.mp hc
    have hdigits : ∀ d < 16, (hexDigit d).toNat ≤ 127 := by decide
    exact hdigits _ (Nat.mod_lt _ (by decide))
  rw [isHex64, utf8_of_ascii hascii, List.length_map, length_hexDigits, beq_self_eq_true,
    Bool.true_and, List.all_eq_true]
  exact fun c => isLowercaseHex_of_mem_hexDigits

/-- No separator of a query is in an escaped relay. -/
theorem not_mem_urlEncode {c : Char} (hpercent : c ≠ '%') (halnum : c.isAlphanum = false)
    (s : String) : c ∉ urlEncode s := by
  intro hmem
  rcases percentEncode_chars hmem with rfl | htrue
  · exact hpercent rfl
  · rw [halnum] at htrue
    cases htrue

/-- The parameters that the encoder joins. -/
def queryParams (p : QrPayload) : List (List Char) :=
  ("secret=".toList ++ hexDigits 64 p.sessionSecret.toNat) ::
    (p.relays.map (fun relay => "relay=".toList ++ urlEncode relay) ++ ["v=1".toList])

theorem encodeQr_eq (p : QrPayload) :
    encodeQr p = "nostrpair://".toList ++ (hexDigits 64 p.sourcePubkey.toNat ++
      '?' :: ['&'].intercalate (queryParams p)) := by
  have hrelays (uri : List Char) :
      p.relays.foldl (fun uri relay => uri ++ "&relay=".toList ++ urlEncode relay) uri =
        uri ++ p.relays.flatMap fun relay => '&' :: ("relay=".toList ++ urlEncode relay) := by
    induction p.relays generalizing uri with
    | nil => exact (List.append_nil _).symm
    | cons relay relays ih =>
      rw [List.foldl_cons, ih, List.flatMap_cons, List.append_assoc, List.append_assoc]
      rfl
  rw [encodeQr, hrelays, queryParams, intercalate_cons, List.flatMap_append, List.flatMap_map]
  simp only [List.append_assoc, List.flatMap_singleton]
  rfl

/-- The decoder cuts a query where the encoder has joined it. -/
theorem splitOn_query (p : QrPayload) :
    (['&'].intercalate (queryParams p)).splitOn '&' = queryParams p := by
  refine List.splitOn_intercalate '&' (fun l hl => ?_) (List.cons_ne_nil _ _)
  rw [queryParams, List.mem_cons, List.mem_append, List.mem_map, List.mem_singleton] at hl
  rcases hl with rfl | ⟨relay, -, rfl⟩ | rfl
  · rw [List.mem_append, not_or]
    exact ⟨by decide, not_mem_hexDigits (by decide)⟩
  · rw [List.mem_append, not_or]
    exact ⟨by decide, not_mem_urlEncode (by decide) (by decide) relay⟩
  · decide

theorem read_secret (params : QrParams) (value : List Char) :
    params.read ("secret=".toList ++ value) = { params with secretHex := some value } := by
  have hnot : '=' ∉ "secret".toList := by decide
  have hsplit : splitOnce '=' ("secret=".toList ++ value) = some ("secret".toList, value) :=
    splitOnce_append_cons hnot value
  rw [QrParams.read, hsplit]
  exact if_pos rfl

theorem read_relay (params : QrParams) (relay : String) :
    params.read ("relay=".toList ++ urlEncode relay) =
      { params with relays := params.relays ++ [relay] } := by
  have hnot : '=' ∉ "relay".toList := by decide
  have hsplit : splitOnce '=' ("relay=".toList ++ urlEncode relay) =
      some ("relay".toList, urlEncode relay) := splitOnce_append_cons hnot _
  rw [QrParams.read, hsplit]
  simp only [urlDecode_urlEncode]
  rw [if_neg (by decide), if_pos trivial]

theorem read_relays (params : QrParams) (relays : List String) :
    (relays.map fun relay => "relay=".toList ++ urlEncode relay).foldl QrParams.read params =
      { params with relays := params.relays ++ relays } := by
  induction relays generalizing params with
  | nil => rw [List.append_nil]; rfl
  | cons relay relays ih =>
    rw [List.map_cons, List.foldl_cons, read_relay, ih, List.append_assoc]
    rfl

/-- What the decoder reads of a query. -/
theorem read_query (p : QrPayload) :
    (queryParams p).foldl QrParams.read ⟨none, [], none⟩ =
      ⟨some (hexDigits 64 p.sessionSecret.toNat), p.relays, some 1⟩ := by
  rw [queryParams, List.foldl_cons, List.foldl_append, read_secret, read_relays]
  rfl

/-- A relay URL passes if it is read, has a WebSocket scheme and a host. -/
theorem checkRelay_eq_ok_iff {crates : QrCrates} {relay : String} :
    checkRelay crates relay = .ok () ↔ ∃ parsed, crates.urlParse relay.toList = .ok parsed ∧
      (parsed.scheme = "ws".toList ∨ parsed.scheme = "wss".toList) ∧ parsed.host.isSome := by
  unfold checkRelay
  constructor
  · intro h
    split at h
    · cases h
    · next parsed hparsed =>
      split_ifs at h with hscheme hhost
      refine ⟨parsed, hparsed, ?_, Option.isSome_iff_ne_none.mpr hhost⟩
      by_contra hnot
      rw [not_or] at hnot
      exact hscheme ⟨hnot.2, hnot.1⟩
  · rintro ⟨parsed, hparsed, hscheme, hhost⟩
    have hschemes : ¬ (parsed.scheme ≠ "wss".toList ∧ parsed.scheme ≠ "ws".toList) :=
      fun hne => hscheme.elim hne.2 hne.1
    rw [hparsed]
    simp only [if_neg hschemes]
    exact if_neg fun hnone => by simp [hnone] at hhost

/-- The decoder reads what the encoder has joined. -/
theorem decodeQr_joined {crates : QrCrates} {p : QrPayload} {uri : List Char} (hp : p.Valid crates)
    (huri : uri = "nostrpair://".toList ++ (hexDigits 64 p.sourcePubkey.toNat ++
      '?' :: ['&'].intercalate (queryParams p)))
    (hlength : (utf8 uri).length ≤ 2048) : decodeQr crates uri = .ok p := by
  have hstart : "nostrpair://".toList.isPrefixOf uri = true := by
    rw [huri]
    exact List.isPrefixOf_iff_prefix.mpr (List.prefix_append _ _)
  have hsplit : splitOnce '?' (uri.drop "nostrpair://".toList.length) =
      some (hexDigits 64 p.sourcePubkey.toNat, ['&'].intercalate (queryParams p)) := by
    rw [huri, List.drop_left]
    exact splitOnce_append_cons (not_mem_hexDigits (by decide)) _
  have hsecret : (decodeHex 64 256 (hexDigits 64 p.sessionSecret.toNat) : Option Bytes32) =
      some p.sessionSecret := decodeHex_hexDigits (by norm_num) _
  have hrelays : p.relays.forM (checkRelay crates) = .ok () :=
    forM_eq_ok_iff.mpr fun r hr => checkRelay_eq_ok_iff.mpr (hp.urls r hr)
  rw [decodeQr, if_neg (Nat.not_lt.mpr hlength), hstart, Bool.not_true, if_neg Bool.false_ne_true,
    hsplit]
  simp only [isHex64_hexDigits, hp.pubkey, splitOn_query, read_query, QrParams.check, hsecret,
    hp.secret, hp.relays, hrelays, Bool.not_true, Bool.false_eq_true, if_false,
    Option.getD_some, ne_eq, not_true_eq_false]
  obtain ⟨version, sourcePubkey, sessionSecret, relays⟩ := p
  obtain rfl : version = 1 := hp.version
  rfl

/-- A payload is read back from its QR code. -/
theorem decodeQr_encodeQr (crates : QrCrates) (p : QrPayload) (hp : p.Valid crates)
    (hlength : (utf8 (encodeQr p)).length ≤ 2048) : decodeQr crates (encodeQr p) = .ok p :=
  decodeQr_joined hp (encodeQr_eq p) hlength

/-- Two relays, the second with separators of the query in it. -/
theorem decodeQr_encodeQr_twoRelays :
    let crates : QrCrates := {
      publicKeyFromHex := fun text =>
        match decodeHex 64 256 text with
        | some key => .ok key
        | none => .error "InvalidPublicKey"
      urlParse := fun text =>
        if text = "wss://a.example".toList then .ok ⟨"wss".toList, some "a.example".toList⟩
        else if text = "ws://b.example/?x=1&y=%41".toList then
          .ok ⟨"ws".toList, some "b.example".toList⟩
        else .error "relative URL without a base" }
    let p : QrPayload := ⟨1, 7, 9, ["wss://a.example", "ws://b.example/?x=1&y=%41"]⟩
    decodeQr crates (encodeQr p) = .ok p := by
  intro crates p
  have hkey : decodeHex 64 256 (hexDigits 64 p.sourcePubkey.toNat) = some p.sourcePubkey :=
    decodeHex_hexDigits (by norm_num) _
  have ha : crates.urlParse "wss://a.example".toList =
      .ok ⟨"wss".toList, some "a.example".toList⟩ := rfl
  have hb : crates.urlParse "ws://b.example/?x=1&y=%41".toList =
      .ok ⟨"ws".toList, some "b.example".toList⟩ := rfl
  refine decodeQr_encodeQr crates p ⟨?_, by decide, rfl, List.cons_ne_nil _ _, ?_⟩ ?_
  · simp only [crates, hkey]
  · intro r hr
    rcases List.mem_cons.mp hr with rfl | hr
    · exact ⟨_, ha, .inr rfl, rfl⟩
    · obtain rfl := List.mem_singleton.mp hr
      exact ⟨_, hb, .inl rfl, rfl⟩
  · decide +kernel

end Buzz.Core.Pairing
