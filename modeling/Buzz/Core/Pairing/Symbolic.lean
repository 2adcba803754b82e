import Mathlib.Data.String.Basic
import Buzz.Core.Pairing.History

/-!
# Symbolic primitives

A choice of primitives that can be evaluated. A secret key is known by its public key, a shared key
is the exclusive or of the two keys, a ciphertext carries its nonce and the shared key it was made
with in front of the text, and a signature is the key of its signer. With these primitives an entry
point that is called in its turn succeeds.

## Main definitions

* `symbolic`: the primitives.
* `sealedEvent`: the event that a session builds.

## Main results

* `symbolic_ideal`: the primitives are ideal.
* `yields_handleOffer`, `yields_confirmSas`, `yields_handleSasConfirm`, `yields_confirmTargetSas`,
  `yields_sendPayload`, `yields_handlePayload`: the calls of an undisturbed exchange.
-/

namespace Buzz.Core.Pairing

open Buzz.Library

/-! ### The primitives -/

/-- What a ciphertext starts with: its nonce and the shared key. -/
def envelope (nonce shared : Bytes32) : List Char :=
  hexDigits 64 nonce.toNat ++ hexDigits 64 shared.toNat

/-- The text of a ciphertext, if it was made with the shared key. -/
def openEnvelope (shared : Bytes32) (content : String) : Except String String :=
  let body := content.toList.drop 64
  if body.take 64 = hexDigits 64 shared.toNat then .ok (String.ofList (body.drop 64))
  else .error "Invalid HMAC"

/-- Symbolic primitives. -/
def symbolic : Crypto Bytes32 where
  publicKey key := key
  generateSharedKey key peer := .ok (key ^^^ peer)
  hkdfExtract salt ikm := ofBytes (salt ++ ikm)
  hkdfExpand prk info length := (toBytes (prk ^^^ ofBytes info)).take length
  encrypt key peer text nonce :=
    .ok (String.ofList (envelope nonce (key ^^^ peer) ++ text.toList))
  decrypt key peer content := openEnvelope (key ^^^ peer) content
  sign key builder aux :=
    .ok
      { id := aux
        pubkey := key
        createdAt := builder.createdAt.getD 0
        kind := builder.kind
        tags := builder.tags
        content := builder.content
        sig := toBytes key }
  verify event := if event.sig = toBytes event.pubkey then .ok () else .error "Invalid signature"

theorem symbolic_publicKey (key : Bytes32) : symbolic.publicKey key = key := rfl

theorem symbolic_encrypt (key peer nonce : Bytes32) (text : String) :
    symbolic.encrypt key peer text nonce =
      .ok (String.ofList (envelope nonce (key ^^^ peer) ++ text.toList)) := rfl

theorem symbolic_decrypt (key peer : Bytes32) (content : String) :
    symbolic.decrypt key peer content = openEnvelope (key ^^^ peer) content := rfl

theorem openEnvelope_eq {shared shared' nonce : Bytes32} {text : List Char} :
    openEnvelope shared (String.ofList (envelope nonce shared' ++ text)) =
      if shared' = shared then .ok (String.ofList text) else .error "Invalid HMAC" := by
  have hnonce := length_hexDigits 64 nonce.toNat
  have hshared := length_hexDigits 64 shared'.toNat
  have hbody : (envelope nonce shared' ++ text).drop 64 = hexDigits 64 shared'.toNat ++ text := by
    rw [envelope, List.append_assoc, List.drop_left' hnonce]
  have hkey : hexDigits 64 shared'.toNat = hexDigits 64 shared.toNat ↔ shared' = shared :=
    ⟨hexDigits_inj (by norm_num), fun h => by rw [h]⟩
  rw [openEnvelope, String.toList_ofList]
  simp only [hbody, List.take_left' hshared, List.drop_left' hshared, hkey]

theorem symbolic_ideal : symbolic.Ideal where
  shared_symm {a b shared} h := by
    have hshared : a ^^^ b = shared := Except.ok.inj h
    exact congrArg Except.ok ((BitVec.xor_comm b a).trans hshared)
  sign_eq_ok h := by
    obtain rfl := Except.ok.inj h
    exact ⟨rfl, rfl, rfl⟩
  decrypt_encrypt {a b key text text' content nonce} hencrypt hdecrypt := by
    rw [symbolic_encrypt] at hencrypt
    rw [symbolic_decrypt, symbolic_publicKey, ← Except.ok.inj hencrypt, openEnvelope_eq] at hdecrypt
    split_ifs at hdecrypt with hshared
    have hkey : key = b := by
      rw [BitVec.xor_comm b] at hshared
      exact (BitVec.xor_right_inj a).mp hshared
    refine ⟨hkey, ?_⟩
    rw [← Except.ok.inj hdecrypt, String.ofList_toList]

/-! ### Sizes -/

theorem length_le_utf8Len (cs : List Char) : cs.length ≤ String.utf8Len cs := by
  induction cs with
  | nil => exact Nat.le_refl 0
  | cons c cs ih =>
    rw [List.length_cons, String.utf8Len_cons]
    exact Nat.add_le_add ih c.utf8Size_pos

theorem utf8Len_le (cs : List Char) : String.utf8Len cs ≤ 4 * cs.length := by
  induction cs with
  | nil => exact Nat.le_refl 0
  | cons c cs ih =>
    have hc := c.utf8Size_le_four
    rw [List.length_cons, String.utf8Len_cons]
    omega

theorem length_quote_le (s : List Char) : (Json.quote s).length ≤ 6 * s.length + 2 := by
  have hescape : ∀ s : List Char, (s.flatMap Json.escapeChar).length ≤ 6 * s.length := by
    intro s
    induction s with
    | nil => exact Nat.le_refl 0
    | cons c s ih =>
      have hc : (Json.escapeChar c).length ≤ 6 := by
        rw [Json.escapeChar]
        split_ifs <;> simp
      rw [List.flatMap_cons, List.length_append, List.length_cons]
      omega
  have h := hescape s
  rw [Json.quote, List.length_cons, List.length_append, List.length_singleton]
  omega

/-- The text of the message has a size that a session accepts. -/
def PairingMessage.Fits (m : PairingMessage) : Prop :=
  4 ≤ m.toText.utf8ByteSize ∧ m.toText.utf8ByteSize ≤ 65535

theorem fits_of_length {m : PairingMessage} (hmin : 4 ≤ (Json.render m.toJson).length)
    (hmax : (Json.render m.toJson).length ≤ 16000) : m.Fits := by
  have hlower := length_le_utf8Len (Json.render m.toJson)
  have hupper := utf8Len_le (Json.render m.toJson)
  rw [PairingMessage.Fits, PairingMessage.toText, String.utf8ByteSize_ofList]
  constructor <;> omega

theorem length_quote_hexEncode (b : Bytes32) :
    2 ≤ (Json.quote (hexEncode b).toList).length ∧
      (Json.quote (hexEncode b).toList).length ≤ 386 := by
  have hlength : (hexEncode b).toList.length = 64 := by
    rw [hexEncode, String.toList_ofList, length_hexDigits]
  have hupper := length_quote_le (hexEncode b).toList
  have hlower : 2 ≤ (Json.quote (hexEncode b).toList).length := by
    simp only [Json.quote, List.length_cons, List.length_append, List.length_nil]
    omega
  omega

theorem fits_offer (b : Bytes32) : (PairingMessage.offer (hexEncode b) 1).Fits := by
  have hhex := length_quote_hexEncode b
  have hnames : (Json.quote "type".toList).length = 6 ∧ (Json.quote "offer".toList).length = 7 ∧
      (Json.quote "session_id".toList).length = 12 ∧ (Json.quote "version".toList).length = 9 := by
    decide
  have hone : (Nat.toDigits 10 (1 : UInt32).toNat).length = 1 := by decide
  have hlength : (Json.render (PairingMessage.offer (hexEncode b) 1).toJson).length =
      (Json.quote (hexEncode b).toList).length + 42 := by
    simp only [PairingMessage.toJson, Json.render, Json.renderMembers, Json.renderInt,
      List.length_cons, List.length_append, List.length_nil, hone]
    omega
  exact fits_of_length (by omega) (by omega)

theorem fits_sasConfirm (b : Bytes32) : (PairingMessage.sasConfirm (hexEncode b)).Fits := by
  have hhex := length_quote_hexEncode b
  have hnames : (Json.quote "type".toList).length = 6 ∧
      (Json.quote "sas-confirm".toList).length = 13 ∧
      (Json.quote "transcript_hash".toList).length = 17 := by
    decide
  have hlength : (Json.render (PairingMessage.sasConfirm (hexEncode b)).toJson).length =
      (Json.quote (hexEncode b).toList).length + 41 := by
    simp only [PairingMessage.toJson, Json.render, Json.renderMembers, List.length_cons,
      List.length_append, List.length_nil]
    omega
  exact fits_of_length (by omega) (by omega)

theorem fits_payload : (PairingMessage.payload .nsec "nsec1").Fits := by
  have hlength : (Json.render (PairingMessage.payload .nsec "nsec1").toJson).length = 58 := by
    decide
  exact fits_of_length (by omega) (by omega)

/-! ### Calls in their turn -/

/-- The event that the holder of `key` builds for the peer. -/
def sealedEvent (env : Env) (key peer : Bytes32) (message : PairingMessage) : SignedEvent where
  id := env.aux
  pubkey := key
  createdAt := env.timestamp - env.jitter % 31
  kind := PAIRING_KIND
  tags := [publicKeyTag peer]
  content := String.ofList (envelope env.nonce (key ^^^ peer) ++ message.toText.toList)
  sig := toBytes key

section Calls

variable {env env' : Env} {s : PairingSession Bytes32} {key peer : Bytes32}
  {message : PairingMessage}

theorem yields_buildEvent (hpeer : s.peerPubkey = some peer) :
    Yields (buildEvent symbolic env message) s (sealedEvent env s.keys peer message) s := by
  refine Yields.get_bind ?_
  refine Yields.bind (Yields.okOr hpeer) ?_
  exact Yields.bind (Yields.orThrow rfl) (Yields.orThrow rfl)

/-- The checks of an entry point pass. -/
theorem yields_guarded {α : Type} {state : SessionState} {role : Role} {x : Call Bytes32 α} {a : α}
    {s' : PairingSession Bytes32} (hnow : env.now - s.createdAt ≤ s.timeout)
    (hstate : s.state = state) (hrole : s.role = role) (h : Yields x s a s') :
    Yields
      (do
        checkExpired env
        expectState state
        expectRole role
        x) s a s' := by
  have hlive : s.isExpired env.now = false := decide_eq_false (Nat.not_lt.mpr hnow)
  refine Yields.bind (Yields.get_bind (Yields.require hlive)) ?_
  refine Yields.bind (Yields.get_bind (Yields.require hstate)) ?_
  exact Yields.bind (Yields.get_bind (Yields.require hrole)) h

theorem yields_validateEventBasics (hnew : env.aux ∉ s.processedIds) :
    Yields (validateEventBasics symbolic (sealedEvent env key s.keys message)) s () s := by
  have hverify : symbolic.verify (sealedEvent env key s.keys message) = .ok () := if_pos rfl
  have htag : hasPTag (sealedEvent env key s.keys message) (symbolic.publicKey s.keys) = true := by
    simp [hasPTag, sealedEvent, publicKeyTag, symbolic]
  refine Yields.get_bind ?_
  refine Yields.bind (Yields.orThrow hverify) ?_
  refine Yields.bind (Yields.require hnew) ?_
  refine Yields.bind (Yields.require rfl) ?_
  exact Yields.require htag

theorem yields_validateEventFromPeer (hnew : env.aux ∉ s.processedIds)
    (hpeer : s.peerPubkey = some key) :
    Yields (validateEventFromPeer symbolic (sealedEvent env key s.keys message)) s () s := by
  refine Yields.bind (yields_validateEventBasics hnew) (Yields.get_bind ?_)
  rw [hpeer]
  exact Yields.require rfl

theorem yields_decryptMessage (hfits : message.Fits) :
    Yields (decryptMessage symbolic (sealedEvent env key s.keys message)) s message s := by
  obtain ⟨hmin, hmax⟩ := hfits
  have hlength : (envelope env.nonce (key ^^^ s.keys)).length = 128 := by
    rw [envelope, List.length_append, length_hexDigits, length_hexDigits]
  have hlower := length_le_utf8Len (envelope env.nonce (key ^^^ s.keys))
  have hupper := utf8Len_le (envelope env.nonce (key ^^^ s.keys))
  have hsize : (sealedEvent env key s.keys message).content.utf8ByteSize =
      String.utf8Len (envelope env.nonce (key ^^^ s.keys)) + message.toText.utf8ByteSize := by
    rw [sealedEvent, String.utf8ByteSize_ofList, String.utf8Len_append,
      ← String.utf8ByteSize_ofList message.toText.toList, String.ofList_toList]
  have hdecrypt : symbolic.decrypt s.keys (sealedEvent env key s.keys message).pubkey
      (sealedEvent env key s.keys message).content = .ok message.toText := by
    rw [symbolic_decrypt, sealedEvent, openEnvelope_eq, if_pos (BitVec.xor_comm key s.keys),
      String.ofList_toList]
  refine Yields.get_bind ?_
  refine Yields.bind (Yields.require (by omega)) ?_
  refine Yields.bind (Yields.orThrow hdecrypt) ?_
  refine Yields.bind (Yields.require hmax) ?_
  exact Yields.okOr (PairingMessage.ofText_toText message)

/-- A peer's event is read. -/
theorem yields_receive {α : Type} {f : PairingMessage → Call Bytes32 α} {a : α}
    {s' : PairingSession Bytes32} (hfits : message.Fits) (hnew : env.aux ∉ s.processedIds)
    (hpeer : s.peerPubkey = some key) (h : Yields (f message) s a s') :
    Yields
      (do
        validateEventFromPeer symbolic (sealedEvent env key s.keys message)
        let message ← decryptMessage symbolic (sealedEvent env key s.keys message)
        f message) s a s' :=
  Yields.bind (yields_validateEventFromPeer hnew hpeer)
    (Yields.bind (yields_decryptMessage hfits) h)

theorem yields_newTarget (env : Env) (keys : Bytes32) (qr : QrPayload) :
    newTarget symbolic env keys qr =
      .ok ((targetSession symbolic env keys qr (keys ^^^ qr.sourcePubkey)).enter .confirming,
        sealedEvent env keys qr.sourcePubkey
          (.offer (hexEncode (symbolic.deriveSessionId qr.sessionSecret)) 1)) := by
  have hbuild : Yields
      (buildEvent symbolic env (.offer (hexEncode (symbolic.deriveSessionId qr.sessionSecret)) 1))
      (targetSession symbolic env keys qr (keys ^^^ qr.sourcePubkey)) _ _ := yields_buildEvent rfl
  unfold Yields at hbuild
  simp only [newTarget, symbolic] at hbuild ⊢
  rw [hbuild]
  rfl

variable (hnow : env.now - s.createdAt ≤ s.timeout)

include hnow

theorem yields_handleOffer (hstate : s.state = .waiting) (hrole : s.role = .source)
    (hnew : env'.aux ∉ s.processedIds) :
    Yields (call symbolic env
        (.handleOffer (sealedEvent env' key s.keys (.offer (hexEncode s.sessionId) 1)))) s
      (.code (formatSas (symbolic.deriveSas (s.keys ^^^ key) s.sessionSecret).1))
      ((s.withPeer symbolic key (s.keys ^^^ key)).accept .confirming
        (sealedEvent env' key s.keys (.offer (hexEncode s.sessionId) 1))) := by
  refine Yields.map Reply.code (yields_guarded hnow hstate hrole ?_)
  refine Yields.bind (yields_validateEventBasics hnew) ?_
  refine Yields.bind (yields_decryptMessage (fits_offer _)) ?_
  refine Yields.bind (Yields.require rfl) (Yields.get_bind ?_)
  refine Yields.bind (Yields.require (hexDecode_hexEncode _)) (Yields.modify_bind ?_)
  exact Yields.bind (Yields.orThrow rfl) (Yields.modify_bind Yields.pure)

theorem yields_confirmSas {sasInput : Bytes32} (hstate : s.state = .confirming)
    (hrole : s.role = .source) (hinput : s.sasInput = some sasInput)
    (hpeer : s.peerPubkey = some peer) :
    Yields (call symbolic env .confirmSas) s
      (.event (sealedEvent env s.keys peer (.sasConfirm (hexEncode (symbolic.deriveTranscriptHash
        s.sessionId s.keys peer sasInput s.sessionSecret)))))
      (s.enter .transferring) := by
  refine Yields.map Reply.event (yields_guarded hnow hstate hrole (Yields.get_bind ?_))
  refine Yields.bind (Yields.okOr hinput) (Yields.bind (Yields.okOr hpeer) ?_)
  exact Yields.bind (yields_buildEvent hpeer) (Yields.modify_bind Yields.pure)

theorem yields_handleSasConfirm {sasInput : Bytes32} {code : ℕ} {event : SignedEvent}
    (hstate : s.state = .confirming) (hrole : s.role = .target)
    (hinput : s.sasInput = some sasInput) (hpeer : s.peerPubkey = some peer)
    (hcode : s.sasCode = some code) (hnew : env'.aux ∉ s.processedIds)
    (hevent : event = sealedEvent env' peer s.keys (.sasConfirm (hexEncode
      (symbolic.deriveTranscriptHash s.sessionId peer s.keys sasInput s.sessionSecret)))) :
    Yields (call symbolic env (.handleSasConfirm event)) s (.code (formatSas code))
      (s.accept .awaitingConfirmation event) := by
  subst hevent
  refine Yields.map Reply.code (yields_guarded hnow hstate hrole ?_)
  refine yields_receive (fits_sasConfirm _) hnew hpeer (Yields.get_bind ?_)
  refine Yields.bind (Yields.okOr hinput) (Yields.bind (Yields.okOr hpeer) ?_)
  simp only
  split_ifs with hmatch
  · exact Yields.modify_bind (Yields.bind (Yields.okOr hcode) Yields.pure)
  · exact absurd (hexDecode_hexEncode _) hmatch

theorem yields_confirmTargetSas (hstate : s.state = .awaitingConfirmation)
    (hrole : s.role = .target) :
    Yields (call symbolic env .confirmTargetSas) s .done (s.enter .transferring) :=
  Yields.map (fun _ => Reply.done) (yields_guarded hnow hstate hrole rfl)

theorem yields_sendPayload {payloadType : PayloadType} {payload : String}
    (hstate : s.state = .transferring) (hrole : s.role = .source)
    (hpeer : s.peerPubkey = some peer) :
    Yields (call symbolic env (.sendPayload payloadType payload)) s
      (.event (sealedEvent env s.keys peer (.payload payloadType payload)))
      (s.enter .payloadExchanged) :=
  Yields.map Reply.event (yields_guarded hnow hstate hrole
    (Yields.bind (yields_buildEvent hpeer) (Yields.modify_bind Yields.pure)))

theorem yields_handlePayload {payloadType : PayloadType} {payload : String}
    (hstate : s.state = .transferring) (hrole : s.role = .target)
    (hpeer : s.peerPubkey = some peer) (hnew : env'.aux ∉ s.processedIds)
    (hfits : (PairingMessage.payload payloadType payload).Fits) :
    Yields (call symbolic env
        (.handlePayload (sealedEvent env' peer s.keys (.payload payloadType payload)))) s
      (.payload payloadType payload)
      (s.accept .payloadExchanged
        (sealedEvent env' peer s.keys (.payload payloadType payload))) := by
  have hpayload : Yields (handlePayload symbolic env
        (sealedEvent env' peer s.keys (.payload payloadType payload))) s (payloadType, payload)
      (s.accept .payloadExchanged
        (sealedEvent env' peer s.keys (.payload payloadType payload))) :=
    yields_guarded hnow hstate hrole
      (yields_receive hfits hnew hpeer (Yields.modify_bind Yields.pure))
  exact Yields.map (fun p => Reply.payload p.1 p.2) hpayload

end Calls

/-! ### An undisturbed exchange -/

/-- The environment of a call, with the identifier of the event that it builds. -/
def turn (id : EventId) : Env := ⟨0, 0, 0, 0, id⟩

theorem turn_now (id : EventId) (createdAt timeout : ℕ) :
    (turn id).now - createdAt ≤ timeout := by
  rw [turn, Nat.zero_sub]
  exact Nat.zero_le timeout

section Exchange

variable (s t : PairingSession Bytes32)

/-- The offer of the target `t` to the source `s`. -/
def offerEvent : SignedEvent :=
  sealedEvent (turn 1) t.keys s.keys (.offer (hexEncode s.sessionId) 1)

/-- The `sas-confirm` of the source `s` for the target `t`. -/
def confirmEvent : SignedEvent :=
  sealedEvent (turn 2) s.keys t.keys (.sasConfirm (hexEncode (symbolic.deriveTranscriptHash
    s.sessionId s.keys t.keys (symbolic.deriveSas (s.keys ^^^ t.keys) s.sessionSecret).2
    s.sessionSecret)))

/-- The payload of the source `s` for the target `t`. -/
def payloadEvent : SignedEvent := sealedEvent (turn 3) s.keys t.keys (.payload .nsec "nsec1")

/-- The target is paired with the waiting source, and neither has processed an event. -/
structure Ready : Prop where
  source : s.role = .source ∧ s.state = .waiting ∧ s.processedIds = ∅
  target : t.role = .target ∧ t.state = .confirming ∧ t.processedIds = ∅
  peer : t.peerPubkey = some s.keys
  sessionId : t.sessionId = s.sessionId
  secret : t.sessionSecret = s.sessionSecret
  sasCode : t.sasCode = some (symbolic.deriveSas (s.keys ^^^ t.keys) s.sessionSecret).1
  sasInput : t.sasInput = some (symbolic.deriveSas (s.keys ^^^ t.keys) s.sessionSecret).2

variable {s t}

/-- A new source and a target that scans its QR code are ready. -/
theorem ready_newTarget (env env' : Env) (a b secret : Bytes32) (relayUrl : String) :
    Ready (newSource symbolic env a secret relayUrl).1
      ((targetSession symbolic env' b (newSource symbolic env a secret relayUrl).2
        (b ^^^ a)).enter .confirming) := by
  have hsas : (targetSession symbolic env' b (newSource symbolic env a secret relayUrl).2
      (b ^^^ a)).sasCode = some (symbolic.deriveSas (b ^^^ a) secret).1 ∧
      (targetSession symbolic env' b (newSource symbolic env a secret relayUrl).2
        (b ^^^ a)).sasInput = some (symbolic.deriveSas (b ^^^ a) secret).2 := ⟨rfl, rfl⟩
  rw [BitVec.xor_comm b a] at hsas ⊢
  exact ⟨⟨rfl, rfl, rfl⟩, ⟨rfl, rfl, rfl⟩, rfl, rfl, rfl, hsas.1, hsas.2⟩

/-- When every call is made in its turn, each of them succeeds. -/
theorem Ready.calls (h : Ready s t) :
    ∃ s₁ s₂ s₃ t₁ t₂ t₃ sas,
      Yields (call symbolic (turn 1) (.handleOffer (offerEvent s t))) s (.code sas) s₁ ∧
      Yields (call symbolic (turn 2) .confirmSas) s₁ (.event (confirmEvent s t)) s₂ ∧
      Yields (call symbolic (turn 2) (.handleSasConfirm (confirmEvent s t))) t (.code sas) t₁ ∧
      Yields (call symbolic (turn 2) .confirmTargetSas) t₁ .done t₂ ∧
      Yields (call symbolic (turn 3) (.sendPayload .nsec "nsec1")) s₂
        (.event (payloadEvent s t)) s₃ ∧
      Yields (call symbolic (turn 3) (.handlePayload (payloadEvent s t))) t₂
        (.payload .nsec "nsec1") t₃ := by
  obtain ⟨hsrole, hsstate, hsnew⟩ := h.source
  obtain ⟨htrole, htstate, htnew⟩ := h.target
  let s₁ := (s.withPeer symbolic t.keys (s.keys ^^^ t.keys)).accept .confirming (offerEvent s t)
  let t₁ := t.accept .awaitingConfirmation (confirmEvent s t)
  have hsempty : ∀ id, id ∉ s.processedIds := by
    rw [hsnew]
    exact Finset.notMem_empty
  have htempty : ∀ id, id ∉ t.processedIds := by
    rw [htnew]
    exact Finset.notMem_empty
  have hconfirmEvent : confirmEvent s t = sealedEvent (turn 2) s.keys t.keys (.sasConfirm (hexEncode
      (symbolic.deriveTranscriptHash t.sessionId s.keys t.keys
        (symbolic.deriveSas (s.keys ^^^ t.keys) s.sessionSecret).2 t.sessionSecret))) := by
    rw [h.sessionId, h.secret]
    rfl
  -- the `sas-confirm` is the only event that the target has processed
  have hnew : (turn 3).aux ∉ (t₁.enter .transferring).processedIds := by
    change (3 : EventId) ∉ insert (2 : EventId) t.processedIds
    rw [htnew]
    decide
  exact ⟨s₁, s₁.enter .transferring, (s₁.enter .transferring).enter .payloadExchanged, t₁,
    t₁.enter .transferring, (t₁.enter .transferring).accept .payloadExchanged (payloadEvent s t), _,
    yields_handleOffer (turn_now _ _ _) hsstate hsrole (hsempty _),
    yields_confirmSas (turn_now _ _ _) rfl hsrole rfl rfl,
    yields_handleSasConfirm (turn_now _ _ _) htstate htrole h.sasInput h.peer h.sasCode (htempty _)
      hconfirmEvent,
    yields_confirmTargetSas (turn_now _ _ _) rfl htrole,
    yields_sendPayload (turn_now _ _ _) rfl hsrole rfl,
    yields_handlePayload (turn_now _ _ _) rfl htrole h.peer hnew fits_payload⟩

end Exchange

end Buzz.Core.Pairing
