import Mathlib.Data.Finset.Insert
import Buzz.Core.Pairing.Crypto
import Buzz.Core.Pairing.Types
import Buzz.Library.Outcome

/-!
# Pairing sessions

The session of `crates/buzz-core/src/pairing/session.rs`: one side of a device pairing exchange. An
entry point runs on the session and may fail, and what it changed before it failed stays changed.
The clocks and the randomness that an entry point draws are its environment.

The zeroing of secrets and the accessors that only read a session are left out, as is the QR text
itself (`QrPayload` is what it carries).

## Main definitions

* `PairingSession`, `SessionState`, `Role`, `PairingError`, `QrPayload`.
* `newSource`, `newTarget` and the entry points `handleOffer`, …, `handleAbort`.
* `Request`, `Reply`, `call`: an entry point with its arguments.
-/

namespace Buzz.Core.Pairing

open Buzz.Library

/-! ### Data -/

/-- Which role this device plays in the pairing. -/
inductive Role
  /-- The device that holds the secret and initiates pairing. -/
  | source
  /-- The device that scans the QR code and receives the secret. -/
  | target
  deriving DecidableEq

/-- The name of a role. -/
def Role.debug : Role → String
  | source => "Source"
  | target => "Target"

/-- Protocol state. -/
inductive SessionState
  /-- Session created, QR displayed (source) or offer sent (target). -/
  | waiting
  /-- SAS code displayed, awaiting user confirmation (source side). -/
  | confirming
  /-- Target received `sas-confirm`, awaiting explicit user approval. -/
  | awaitingConfirmation
  /-- SAS confirmed, payload in transit. -/
  | transferring
  /-- Payload has been sent (source) or received (target); awaiting completion. -/
  | payloadExchanged
  /-- Protocol completed successfully. -/
  | completed
  /-- Session aborted by either side. -/
  | aborted
  deriving DecidableEq

/-- The name of a state. -/
def SessionState.debug : SessionState → String
  | waiting => "Waiting"
  | confirming => "Confirming"
  | awaitingConfirmation => "AwaitingConfirmation"
  | transferring => "Transferring"
  | payloadExchanged => "PayloadExchanged"
  | completed => "Completed"
  | aborted => "Aborted"

/-- A finished session: completed or aborted. -/
def SessionState.Terminal (state : SessionState) : Prop := state = completed ∨ state = aborted

instance (state : SessionState) : Decidable state.Terminal :=
  inferInstanceAs (Decidable (state = .completed ∨ state = .aborted))

/-- Errors of a session. The texts of serde errors are left out. -/
inductive PairingError
  | invalidSessionId
  | sasMismatch
  | transcriptMismatch
  | unexpectedMessage (expected got : String)
  | sessionExpired
  | nip44 (error : String)
  | json
  | invalidPubkey (reason : String)
  | signingError (error : String)
  deriving DecidableEq

/-- The kind of a pairing event. -/
def PAIRING_KIND : Kind := 24134

/-- Default session timeout: 120 seconds from creation, in nanoseconds. -/
def DEFAULT_TIMEOUT : ℕ := 120 * 10 ^ 9

/-- What the QR code of a source carries. -/
structure QrPayload where
  version : ℕ
  sourcePubkey : PublicKey
  sessionSecret : Bytes32
  relays : List String

/-- A device pairing session, its ephemeral secret key in `keys`. -/
structure PairingSession (K : Type) where
  role : Role
  state : SessionState
  keys : K
  sessionSecret : Bytes32
  relayUrls : List String
  peerPubkey : Option PublicKey
  sessionId : Bytes32
  sasCode : Option ℕ
  sasInput : Option Bytes32
  processedIds : Finset EventId
  createdAt : ℕ
  timeout : ℕ

/-- The clocks and the randomness of a call: the monotonic clock in nanoseconds, the wall clock in
seconds, and the draws for the jitter, the encryption and the signature. -/
structure Env where
  now : ℕ
  timestamp : ℕ
  jitter : ℕ
  nonce : Bytes32
  aux : Bytes32

/-- A call on a session. -/
abbrev Call (K : Type) := EStateM PairingError (PairingSession K)

/-! ### Checks -/

section Calls

variable {K : Type} (C : Crypto K) (env : Env)

/-- Check if the session has expired. -/
def PairingSession.isExpired (s : PairingSession K) (now : ℕ) : Bool :=
  decide (now - s.createdAt > s.timeout)

/-- Check that the session hasn't expired. -/
def checkExpired : Call K Unit := do
  let s ← get
  require (s.isExpired env.now = false) .sessionExpired

/-- Check that we're in the expected state. -/
def expectState (expected : SessionState) : Call K Unit := do
  let s ← get
  require (s.state = expected)
    (.unexpectedMessage ("state " ++ expected.debug) ("state " ++ s.state.debug))

/-- Check that we're playing the expected role. -/
def expectRole (expected : Role) : Call K Unit := do
  let s ← get
  require (s.role = expected)
    (.unexpectedMessage ("role " ++ expected.debug) ("role " ++ s.role.debug))

/-- Check that the session is not finished. -/
def expectNonTerminal : Call K Unit := do
  let s ← get
  require (¬ s.state.Terminal)
    (.unexpectedMessage "non-terminal state" ("state " ++ s.state.debug))

/-- Some `p` tag of the event points to the key. -/
def hasPTag (event : SignedEvent) (key : PublicKey) : Bool :=
  event.tags.any fun t => t.head == "p" && t.tail.head? == some (hexEncode key)

/-- Validate basic event properties: signature, duplicate ID, kind and p-tag. -/
def validateEventBasics (event : SignedEvent) : Call K Unit := do
  let s ← get
  orThrow (fun e => .invalidPubkey ("event verification failed: " ++ e)) (C.verify event)
  require (event.id ∉ s.processedIds) (.unexpectedMessage "new event" "duplicate event id")
  require (event.kind = PAIRING_KIND)
    (.unexpectedMessage ("kind " ++ toString PAIRING_KIND.toNat)
      ("kind " ++ toString event.kind.toNat))
  require (hasPTag event (C.publicKey s.keys) = true)
    (.invalidPubkey "event p-tag does not match our ephemeral pubkey")

/-- Validate that the event is from the expected peer. -/
def validateEventFromPeer (event : SignedEvent) : Call K Unit := do
  validateEventBasics C event
  let s ← get
  match s.peerPubkey with
  | some expected =>
    require (event.pubkey = expected)
      (.invalidPubkey ("event from " ++ hexEncode event.pubkey ++ " but expected " ++
        hexEncode expected))
  | none => return ()

/-! ### Messages -/

/-- The name of a message's variant. -/
def PairingMessage.variant : PairingMessage → String
  | .offer _ _ => "offer"
  | .sasConfirm _ => "sas-confirm"
  | .payload _ _ => "payload"
  | .complete _ => "complete"
  | .abort _ => "abort"

/-- The error of a message of another variant. -/
def unexpected (expected : String) (got : PairingMessage) : PairingError :=
  .unexpectedMessage expected got.variant

/-- Encrypt a message and wrap it in a signed event for the peer. -/
def buildEvent (message : PairingMessage) : Call K SignedEvent := do
  let s ← get
  let peer ← okOr (.invalidPubkey "no peer pubkey set") s.peerPubkey
  let encrypted ← orThrow .nip44 (C.encrypt s.keys peer message.toText env.nonce)
  orThrow .signingError (C.sign s.keys
    ⟨PAIRING_KIND, encrypted, [publicKeyTag peer], some (env.timestamp - env.jitter % 31)⟩ env.aux)

/-- Decrypt and parse the message of an event. A plaintext that is too long is cleared before its
length is printed. -/
def decryptMessage (event : SignedEvent) : Call K PairingMessage := do
  let s ← get
  let contentLen := event.content.utf8ByteSize
  require (132 ≤ contentLen ∧ contentLen ≤ 87472)
    (.unexpectedMessage "NIP-44 content (132–87472 chars)" (toString contentLen ++ " chars"))
  let decrypted ← orThrow .nip44 (C.decrypt s.keys event.pubkey event.content)
  require (decrypted.utf8ByteSize ≤ 65535)
    (.unexpectedMessage "plaintext ≤ 65535 bytes" "0 bytes")
  okOr .json (PairingMessage.ofText decrypted)

/-- The session in another state. -/
def PairingSession.enter (s : PairingSession K) (state : SessionState) : PairingSession K :=
  { s with state := state }

/-- The session in another state, with the event recorded as processed. -/
def PairingSession.accept (s : PairingSession K) (state : SessionState) (event : SignedEvent) :
    PairingSession K :=
  { s with state := state, processedIds := insert event.id s.processedIds }

/-! ### The source -/

/-- Create a new source session and the payload of its QR code. -/
def newSource (keys : K) (sessionSecret : Bytes32) (relayUrl : String) :
    PairingSession K × QrPayload :=
  (⟨.source, .waiting, keys, sessionSecret, [relayUrl], none, C.deriveSessionId sessionSecret, none,
      none, ∅, env.now, DEFAULT_TIMEOUT⟩,
    ⟨1, C.publicKey keys, sessionSecret, [relayUrl]⟩)

/-- (Source) Process an incoming offer event from the target. The session is locked to the peer
before the key agreement, which can fail. -/
def handleOffer (event : SignedEvent) : Call K String := do
  checkExpired env
  expectState .waiting
  expectRole .source
  validateEventBasics C event
  match ← decryptMessage C event with
  | .offer sessionIdHex version =>
    require (version = 1)
      (.unexpectedMessage "version 1" ("version " ++ toString version.toNat))
    let s ← get
    require (hexDecode sessionIdHex = some s.sessionId) .invalidSessionId
    let peer := event.pubkey
    modify fun s => { s with peerPubkey := some peer }
    let ecdh ← orThrow .signingError (C.generateSharedKey s.keys peer)
    let (code, sasInput) := C.deriveSas ecdh s.sessionSecret
    modify fun s => PairingSession.accept
      { s with sasCode := some code, sasInput := some sasInput } .confirming event
    return formatSas code
  | other => throw (unexpected "offer" other)

/-- (Source) User confirmed the SAS codes match. Build the `sas-confirm` event. -/
def confirmSas : Call K SignedEvent := do
  checkExpired env
  expectState .confirming
  expectRole .source
  let s ← get
  let sasInput ← okOr .sasMismatch s.sasInput
  let peer ← okOr (.invalidPubkey "no peer") s.peerPubkey
  let transcriptHash :=
    C.deriveTranscriptHash s.sessionId (C.publicKey s.keys) peer sasInput s.sessionSecret
  let event ← buildEvent C env (.sasConfirm (hexEncode transcriptHash))
  modify fun s => s.enter .transferring
  return event

/-- Process a payload event: the common body of `handle_return_payload` and `handle_payload`, which
differ in the role only. -/
def receivePayload (role : Role) (event : SignedEvent) : Call K (PayloadType × String) := do
  checkExpired env
  expectState .transferring
  expectRole role
  validateEventFromPeer C event
  match ← decryptMessage C event with
  | .payload payloadType payload =>
    modify fun s => s.accept .payloadExchanged event
    return (payloadType, payload)
  | other => throw (unexpected "payload" other)

/-- (Source) Process a payload sent back by the target. -/
def handleReturnPayload (event : SignedEvent) : Call K (PayloadType × String) :=
  receivePayload C env .source event

/-- (Source) Report whether a returned payload was imported successfully. -/
def sendSourceComplete (success : Bool) : Call K SignedEvent := do
  checkExpired env
  expectState .payloadExchanged
  expectRole .source
  let event ← buildEvent C env (.complete success)
  modify fun s => s.enter (if success then .completed else .aborted)
  return event

/-- (Source) Build the payload event carrying the secret. -/
def sendPayload (payloadType : PayloadType) (payload : String) : Call K SignedEvent := do
  checkExpired env
  expectState .transferring
  expectRole .source
  let event ← buildEvent C env (.payload payloadType payload)
  modify fun s => s.enter .payloadExchanged
  return event

/-- (Source) Process the `complete` event from the target. -/
def handleComplete (event : SignedEvent) : Call K Unit := do
  checkExpired env
  expectState .payloadExchanged
  expectRole .source
  validateEventFromPeer C event
  match ← decryptMessage C event with
  | .complete true => modify fun s => s.accept .completed event
  | .complete false =>
    modify fun s => s.enter .aborted
    throw (.unexpectedMessage "complete(success=true)" "complete(success=false)")
  | other => throw (unexpected "complete" other)

/-! ### The target -/

/-- The target session of a scanned QR payload, before it has built its offer. -/
def targetSession (keys : K) (qr : QrPayload) (ecdh : Bytes32) : PairingSession K :=
  let (code, sasInput) := C.deriveSas ecdh qr.sessionSecret
  ⟨.target, .waiting, keys, qr.sessionSecret, qr.relays, some qr.sourcePubkey,
    C.deriveSessionId qr.sessionSecret, some code, some sasInput, ∅, env.now, DEFAULT_TIMEOUT⟩

/-- Create a new target session from a scanned QR payload, and the `offer` event to publish. -/
def newTarget (keys : K) (qr : QrPayload) : Except PairingError (PairingSession K × SignedEvent) :=
  match C.generateSharedKey keys qr.sourcePubkey with
  | .error e => .error (.signingError e)
  | .ok ecdh =>
    let message := .offer (hexEncode (C.deriveSessionId qr.sessionSecret)) 1
    match buildEvent C env message (targetSession C env keys qr ecdh) with
    | .error e _ => .error e
    | .ok event session => .ok (session.enter .confirming, event)

/-- (Target) Process the `sas-confirm` event from the source. -/
def handleSasConfirm (event : SignedEvent) : Call K String := do
  checkExpired env
  expectState .confirming
  expectRole .target
  validateEventFromPeer C event
  match ← decryptMessage C event with
  | .sasConfirm receivedHash =>
    let s ← get
    let sasInput ← okOr .sasMismatch s.sasInput
    let peer ← okOr (.invalidPubkey "no peer") s.peerPubkey
    let expectedHash :=
      C.deriveTranscriptHash s.sessionId peer (C.publicKey s.keys) sasInput s.sessionSecret
    if hexDecode receivedHash = some expectedHash then
      modify fun s => s.accept .awaitingConfirmation event
      let code ← okOr .sasMismatch s.sasCode
      return formatSas code
    else
      modify fun s => s.enter .aborted
      throw .transcriptMismatch
  | other => throw (unexpected "sas-confirm" other)

/-- (Target) User confirmed the SAS codes match, so payloads can be received. -/
def confirmTargetSas : Call K Unit := do
  checkExpired env
  expectState .awaitingConfirmation
  expectRole .target
  modify fun s => s.enter .transferring

/-- (Target) Process the payload event from the source. -/
def handlePayload (event : SignedEvent) : Call K (PayloadType × String) :=
  receivePayload C env .target event

/-- (Target) Build the `complete` event to publish. -/
def sendComplete : Call K SignedEvent := do
  checkExpired env
  expectState .payloadExchanged
  expectRole .target
  let event ← buildEvent C env (.complete true)
  modify fun s => s.enter .completed
  return event

/-! ### Either side -/

/-- Build an abort event; none if no peer is known yet. -/
def abort (reason : AbortReason) : Call K (Option SignedEvent) := do
  expectNonTerminal
  let s ← get
  if s.peerPubkey = none then
    modify fun s => s.enter .aborted
    return none
  else
    let event ← buildEvent C env (.abort reason)
    modify fun s => s.enter .aborted
    return some event

/-- Process an abort event from the peer. -/
def handleAbort (event : SignedEvent) : Call K AbortReason := do
  expectNonTerminal
  let s ← get
  require (s.peerPubkey ≠ none) (.invalidPubkey "cannot accept abort before peer is known")
  validateEventFromPeer C event
  match ← decryptMessage C event with
  | .abort reason =>
    modify fun s => s.accept .aborted event
    return reason
  | other => throw (unexpected "abort" other)

/-- Sign an event with this session's ephemeral keys. -/
def signEvent (builder : EventBuilder) : Call K SignedEvent := do
  let s ← get
  orThrow .signingError (C.sign s.keys builder env.aux)

/-! ### Requests -/

/-- An entry point of a session with its arguments. Both callers of `sign_event` authenticate to a
relay. -/
inductive Request
  | handleOffer (event : SignedEvent)
  | confirmSas
  | handleReturnPayload (event : SignedEvent)
  | sendSourceComplete (success : Bool)
  | sendPayload (payloadType : PayloadType) (payload : String)
  | handleComplete (event : SignedEvent)
  | handleSasConfirm (event : SignedEvent)
  | confirmTargetSas
  | handlePayload (event : SignedEvent)
  | sendComplete
  | abort (reason : AbortReason)
  | handleAbort (event : SignedEvent)
  | signAuth (challenge relayUrl : String)

/-- What an entry point returns. -/
inductive Reply
  | code (sas : String)
  | event (event : SignedEvent)
  | payload (payloadType : PayloadType) (payload : String)
  | done
  | aborted (event : Option SignedEvent)
  | reason (reason : AbortReason)

/-- The event that a request delivers to the session. -/
def Request.event? : Request → Option SignedEvent
  | handleOffer event | handleReturnPayload event | handleComplete event | handleSasConfirm event
  | handlePayload event | handleAbort event => some event
  | _ => none

/-- The event that a reply hands out for publication. -/
def Reply.event? : Reply → Option SignedEvent
  | event published => some published
  | aborted published => published
  | _ => none

/-- Run an entry point. -/
def call : Request → Call K Reply
  | .handleOffer event => .code <$> handleOffer C env event
  | .confirmSas => .event <$> confirmSas C env
  | .handleReturnPayload event => (fun p => .payload p.1 p.2) <$> handleReturnPayload C env event
  | .sendSourceComplete success => .event <$> sendSourceComplete C env success
  | .sendPayload payloadType payload => .event <$> sendPayload C env payloadType payload
  | .handleComplete event => (fun _ => .done) <$> handleComplete C env event
  | .handleSasConfirm event => .code <$> handleSasConfirm C env event
  | .confirmTargetSas => (fun _ => .done) <$> confirmTargetSas env
  | .handlePayload event => (fun p => .payload p.1 p.2) <$> handlePayload C env event
  | .sendComplete => .event <$> sendComplete C env
  | .abort reason => .aborted <$> abort C env reason
  | .handleAbort event => .reason <$> handleAbort C event
  | .signAuth challenge relayUrl =>
    .event <$> signEvent C env (EventBuilder.auth challenge relayUrl)

end Calls

end Buzz.Core.Pairing
