import Buzz.Core.Pairing.Session

/-!
# What a pairing session can do

One relation lists everything that a call on a session can do: the state it is made in, what it
hands out and what it leaves. Each entry point is shown to do one of these things, and every later
argument goes by cases on the relation.

## Main definitions

* `BuiltFor`, `Received`, `TranscriptMatches`: what the events of a session are.
* `Move`: what a call can do.

## Main results

* `move_of_call`: a call does nothing else.
* `Move.frame`, `Move.locked`, `Move.emits`, `Move.of_terminal`: what every call keeps.
-/

namespace Buzz.Core.Pairing

open Buzz.Library

/-! ### What a call can do -/

section Moves

variable {K : Type} (C : Crypto K)

/-- The event is a pairing event of the holder of `keys` that carries the message, encrypted for
the given key. -/
structure BuiltFor (keys : K) (key : PublicKey) (message : PairingMessage) (event : SignedEvent) :
    Prop where
  pubkey : event.pubkey = C.publicKey keys
  kind : event.kind = PAIRING_KIND
  content : ∃ nonce, C.encrypt keys key message.toText nonce = .ok event.content

/-- The session accepts the event as a pairing event with the message. -/
structure Received (s : PairingSession K) (message : PairingMessage) (event : SignedEvent) :
    Prop where
  verified : C.verify event = .ok ()
  kind : event.kind = PAIRING_KIND
  from_peer : ∀ peer, s.peerPubkey = some peer → event.pubkey = peer
  content : ∃ text, C.decrypt s.keys event.pubkey event.content = .ok text ∧
    PairingMessage.ofText text = some message

/-- The event is a `sas-confirm` from the peer whose transcript hash is the one of the session. -/
def TranscriptMatches (s : PairingSession K) (event : SignedEvent) : Prop :=
  ∃ hash peer sasInput, Received C s (.sasConfirm hash) event ∧ s.peerPubkey = some peer ∧
    s.sasInput = some sasInput ∧ hexDecode hash =
      some (C.deriveTranscriptHash s.sessionId peer (C.publicKey s.keys) sasInput s.sessionSecret)

/-- The session with a peer and the SAS of the key agreement with it. -/
def PairingSession.withPeer (s : PairingSession K) (peer : PublicKey) (ecdh : Bytes32) :
    PairingSession K :=
  { s with
    peerPubkey := some peer
    sasCode := some (C.deriveSas ecdh s.sessionSecret).1
    sasInput := some (C.deriveSas ecdh s.sessionSecret).2 }

/-- A state in which no payload has been exchanged. -/
def SessionState.BeforePayload : SessionState → Prop
  | waiting | confirming | awaitingConfirmation | transferring => True
  | _ => False

/-- The messages that a request sends, with the role and the state it is made in and the state it
leads to. -/
inductive Sends : Request → Role → SessionState → PairingMessage → SessionState → Prop
  | confirmSas (hash : String) :
      Sends .confirmSas .source .confirming (.sasConfirm hash) .transferring
  | sendPayload (payloadType : PayloadType) (payload : String) :
      Sends (.sendPayload payloadType payload) .source .transferring (.payload payloadType payload)
        .payloadExchanged
  | sendSourceComplete (success : Bool) :
      Sends (.sendSourceComplete success) .source .payloadExchanged (.complete success)
        (if success then .completed else .aborted)
  | sendComplete : Sends .sendComplete .target .payloadExchanged (.complete true) .completed

/-- The `sas-confirm` leads to the transfer, every other message past it. -/
theorem Sends.cases_after {request : Request} {role : Role} {before after : SessionState}
    {message : PairingMessage} (h : Sends request role before message after) :
    (request = .confirmSas ∧ role = .source ∧ before = .confirming ∧ after = .transferring) ∨
      ∀ state : SessionState, state.BeforePayload → after ≠ state := by
  cases h with
  | confirmSas hash => exact Or.inl ⟨rfl, rfl, rfl, rfl⟩
  | sendPayload payloadType payload => exact Or.inr fun _ hbefore heq => (heq ▸ hbefore).elim
  | sendSourceComplete success =>
    cases success <;> exact Or.inr fun _ hbefore heq => (heq ▸ hbefore).elim
  | sendComplete => exact Or.inr fun _ hbefore heq => (heq ▸ hbefore).elim

theorem Sends.after_ne_waiting {request : Request} {role : Role} {before after : SessionState}
    {message : PairingMessage} (h : Sends request role before message after) :
    after ≠ .waiting := by
  rcases h.cases_after with ⟨-, -, -, rfl⟩ | hpast
  · exact nofun
  · exact hpast _ trivial

/-- What a call can do to the session. -/
inductive Move (s : PairingSession K) :
    Request → Except PairingError Reply → PairingSession K → Prop
  /-- A check fails, and nothing changes. -/
  | rejected (request : Request) (error : PairingError) : Move s request (.error error) s
  /-- The offer is valid, but the key agreement fails. -/
  | offerLocked {event : SignedEvent} (error : PairingError) (hstate : s.state = .waiting) :
      Move s (.handleOffer event) (.error error) { s with peerPubkey := some event.pubkey }
  | offerAccepted {event : SignedEvent} {ecdh : Bytes32} (hstate : s.state = .waiting)
      (hrole : s.role = .source) (hecdh : C.generateSharedKey s.keys event.pubkey = .ok ecdh) :
      Move s (.handleOffer event) (.ok (.code (formatSas (C.deriveSas ecdh s.sessionSecret).1)))
        ((s.withPeer C event.pubkey ecdh).accept .confirming event)
  | sent {request : Request} {role : Role} {before after : SessionState}
      {message : PairingMessage} {peer : PublicKey} {event : SignedEvent}
      (hsends : Sends request role before message after) (hstate : s.state = before)
      (hrole : s.role = role) (hpeer : s.peerPubkey = some peer)
      (hbuilt : BuiltFor C s.keys peer message event) :
      Move s request (.ok (.event event)) (s.enter after)
  | returnAccepted {event : SignedEvent} {payloadType : PayloadType} {payload : String}
      (hstate : s.state = .transferring) (hrole : s.role = .source)
      (hreceived : Received C s (.payload payloadType payload) event) :
      Move s (.handleReturnPayload event) (.ok (.payload payloadType payload))
        (s.accept .payloadExchanged event)
  | payloadAccepted {event : SignedEvent} {payloadType : PayloadType} {payload : String}
      (hstate : s.state = .transferring) (hrole : s.role = .target)
      (hreceived : Received C s (.payload payloadType payload) event) :
      Move s (.handlePayload event) (.ok (.payload payloadType payload))
        (s.accept .payloadExchanged event)
  | completeAccepted {event : SignedEvent} (hstate : s.state = .payloadExchanged) :
      Move s (.handleComplete event) (.ok .done) (s.accept .completed event)
  | completeFailed {event : SignedEvent} (error : PairingError)
      (hstate : s.state = .payloadExchanged) :
      Move s (.handleComplete event) (.error error) (s.enter .aborted)
  | transcriptMatched {event : SignedEvent} {code : ℕ} (hstate : s.state = .confirming)
      (hrole : s.role = .target) (hmatches : TranscriptMatches C s event)
      (hcode : s.sasCode = some code) :
      Move s (.handleSasConfirm event) (.ok (.code (formatSas code)))
        (s.accept .awaitingConfirmation event)
  /-- Without a code the session has moved on, and the call fails all the same. -/
  | codeMissing {event : SignedEvent} (error : PairingError) (hstate : s.state = .confirming)
      (hcode : s.sasCode = none) :
      Move s (.handleSasConfirm event) (.error error) (s.accept .awaitingConfirmation event)
  | transcriptMismatched {event : SignedEvent} (error : PairingError)
      (hstate : s.state = .confirming) :
      Move s (.handleSasConfirm event) (.error error) (s.enter .aborted)
  | targetConfirmed (hstate : s.state = .awaitingConfirmation) (hrole : s.role = .target) :
      Move s .confirmTargetSas (.ok .done) (s.enter .transferring)
  | abortedAlone {reason : AbortReason} (hstate : ¬ s.state.Terminal) :
      Move s (.abort reason) (.ok (.aborted none)) (s.enter .aborted)
  | abortSent {reason : AbortReason} {peer : PublicKey} {event : SignedEvent}
      (hstate : ¬ s.state.Terminal) (hpeer : s.peerPubkey = some peer)
      (hbuilt : BuiltFor C s.keys peer (.abort reason) event) :
      Move s (.abort reason) (.ok (.aborted (some event))) (s.enter .aborted)
  | abortAccepted {event : SignedEvent} {reason : AbortReason} (hstate : ¬ s.state.Terminal) :
      Move s (.handleAbort event) (.ok (.reason reason)) (s.accept .aborted event)
  | signed {challenge relayUrl : String} {event : SignedEvent} (hkind : event.kind ≠ PAIRING_KIND) :
      Move s (.signAuth challenge relayUrl) (.ok (.event event)) s

end Moves

section Checks

variable {K : Type} {C : Crypto K} {env : Env}

theorem checks_checkExpired : Checks (checkExpired (K := K) env) fun _ _ => True :=
  fun _ => Ensures.get_bind ((checks_require _ _).ensures (fun _ => rfl) fun _ _ => ⟨rfl, trivial⟩)

theorem checks_expectState (expected : SessionState) :
    Checks (expectState (K := K) expected) fun s _ => s.state = expected :=
  fun s => Ensures.get_bind (checks_require _ _ s)

theorem checks_expectRole (expected : Role) :
    Checks (expectRole (K := K) expected) fun s _ => s.role = expected :=
  fun s => Ensures.get_bind (checks_require _ _ s)

theorem checks_expectNonTerminal :
    Checks (expectNonTerminal (K := K)) fun s _ => ¬ s.state.Terminal :=
  fun s => Ensures.get_bind (checks_require _ _ s)

theorem checks_validateEventBasics (event : SignedEvent) :
    Checks (validateEventBasics C event) fun _ _ =>
      C.verify event = .ok () ∧ event.kind = PAIRING_KIND := by
  intro s
  refine Ensures.get_bind ?_
  refine (checks_orThrow _ _).bind (fun _ => rfl) fun _ hverified => ?_
  refine (checks_require _ _).bind (fun _ => rfl) fun _ _ => ?_
  refine (checks_require _ _).bind (fun _ => rfl) fun _ hkind => ?_
  exact (checks_require _ _).ensures (fun _ => rfl) fun _ _ => ⟨rfl, hverified, hkind⟩

theorem checks_validateEventFromPeer (event : SignedEvent) :
    Checks (validateEventFromPeer C event) fun s _ =>
      (C.verify event = .ok () ∧ event.kind = PAIRING_KIND) ∧
        ∀ peer, s.peerPubkey = some peer → event.pubkey = peer := by
  intro s
  refine (checks_validateEventBasics event).bind (fun _ => rfl) fun _ hbasics => ?_
  refine Ensures.get_bind ?_
  split
  · next expected hexpected =>
    refine (checks_require _ _).ensures (fun _ => rfl) fun _ hpubkey => ⟨rfl, hbasics, ?_⟩
    intro peer hpeer
    rw [hpubkey]
    exact Option.some.inj (hexpected.symm.trans hpeer)
  · next hnone =>
    refine Ensures.pure ⟨rfl, hbasics, ?_⟩
    intro peer hpeer
    exact nomatch hnone.symm.trans hpeer

theorem checks_decryptMessage (event : SignedEvent) :
    Checks (decryptMessage C event) fun s message =>
      ∃ text, C.decrypt s.keys event.pubkey event.content = .ok text ∧
        PairingMessage.ofText text = some message := by
  intro s
  refine Ensures.get_bind ?_
  refine (checks_require _ _).bind (fun _ => rfl) fun _ _ => ?_
  refine (checks_orThrow _ _).bind (fun _ => rfl) fun text htext => ?_
  refine (checks_require _ _).bind (fun _ => rfl) fun _ _ => ?_
  exact (checks_okOr _ _).ensures (fun _ => rfl) fun _ hmessage => ⟨rfl, text, htext, hmessage⟩

theorem checks_buildEvent (hC : C.Ideal) (env : Env) (message : PairingMessage) :
    Checks (buildEvent C env message) fun s event =>
      ∃ peer, s.peerPubkey = some peer ∧ BuiltFor C s.keys peer message event := by
  intro s
  refine Ensures.get_bind ?_
  refine (checks_okOr _ _).bind (fun _ => rfl) fun peer hpeer => ?_
  refine (checks_orThrow _ _).bind (fun _ => rfl) fun content hcontent => ?_
  refine (checks_orThrow _ _).ensures (fun _ => rfl) fun event hsigned => ?_
  obtain ⟨hpubkey, hkind, hsame⟩ := hC.sign_eq_ok hsigned
  exact ⟨rfl, peer, hpeer, hpubkey, hkind, env.nonce, hsame ▸ hcontent⟩

end Checks

/-! ### Every entry point makes a move -/

section EntryPoints

variable {K : Type} {C : Crypto K} {env : Env} {s : PairingSession K}

/-- What a call does, by the reply that its result stands for. -/
def Makes (C : Crypto K) (s : PairingSession K) (request : Request) {α : Type} (x : Call K α)
    (reply : α → Reply) : Prop :=
  Ensures x s (fun a s' => Move C s request (.ok (reply a)) s') fun e s' =>
    Move C s request (.error e) s'

/-- The checks that an entry point starts with. -/
theorem Makes.guarded {request : Request} {α : Type} {x : Call K α} {reply : α → Reply}
    {state : SessionState} {role : Role}
    (h : s.state = state → s.role = role → Makes C s request x reply) :
    Makes C s request
      (do
        checkExpired env
        expectState state
        expectRole role
        x) reply := by
  refine checks_checkExpired.bind (.rejected _) fun _ _ => ?_
  refine (checks_expectState state).bind (.rejected _) fun _ hstate => ?_
  exact (checks_expectRole role).bind (.rejected _) fun _ hrole => h hstate hrole

theorem makes_handleOffer (event : SignedEvent) :
    Makes C s (.handleOffer event) (handleOffer C env event) .code := by
  refine Makes.guarded fun hstate hrole => ?_
  refine (checks_validateEventBasics event).bind (.rejected _) fun _ _ => ?_
  refine (checks_decryptMessage event).bind (.rejected _) fun message _ => ?_
  cases message with
  | offer sessionIdHex version =>
    refine (checks_require _ _).bind (.rejected _) fun _ _ => ?_
    refine Ensures.get_bind ?_
    refine (checks_require _ _).bind (.rejected _) fun _ _ => ?_
    -- from here on the peer is locked, also when the key agreement fails
    refine Ensures.modify_bind ?_
    refine (checks_orThrow _ _).bind (fun e => .offerLocked e hstate) fun ecdh hecdh => ?_
    exact Ensures.modify_bind (Ensures.pure (.offerAccepted hstate hrole hecdh))
  | _ => exact Ensures.throw (.rejected _ _)

/-- An entry point that sends a message and then enters a state. -/
theorem makes_sent (hC : C.Ideal) {request : Request} {role : Role} {before after : SessionState}
    {message : PairingMessage} (hsends : Sends request role before message after)
    (hstate : s.state = before) (hrole : s.role = role) :
    Makes C s request
      (do
        let event ← buildEvent C env message
        modify fun s => s.enter after
        return event) .event := by
  refine (checks_buildEvent hC env message).bind (.rejected _) fun event ⟨peer, hpeer, hbuilt⟩ => ?_
  exact Ensures.modify_bind (Ensures.pure (.sent hsends hstate hrole hpeer hbuilt))

theorem makes_confirmSas (hC : C.Ideal) :
    Makes C s .confirmSas (confirmSas C env) .event := by
  refine Makes.guarded fun hstate hrole => ?_
  refine Ensures.get_bind ?_
  refine (checks_okOr _ _).bind (.rejected _) fun sasInput _ => ?_
  refine (checks_okOr _ _).bind (.rejected _) fun peer _ => ?_
  exact makes_sent hC (.confirmSas _) hstate hrole

theorem makes_sendSourceComplete (hC : C.Ideal) (success : Bool) :
    Makes C s (.sendSourceComplete success) (sendSourceComplete C env success) .event :=
  Makes.guarded fun hstate hrole => makes_sent hC (.sendSourceComplete success) hstate hrole

theorem makes_sendPayload (hC : C.Ideal) (payloadType : PayloadType) (payload : String) :
    Makes C s (.sendPayload payloadType payload) (sendPayload C env payloadType payload) .event :=
  Makes.guarded fun hstate hrole => makes_sent hC (.sendPayload payloadType payload) hstate hrole

theorem makes_sendComplete (hC : C.Ideal) : Makes C s .sendComplete (sendComplete C env) .event :=
  Makes.guarded fun hstate hrole => makes_sent hC .sendComplete hstate hrole

/-- What a session knows of a message from its peer that it could read. -/
theorem ensures_receive {event : SignedEvent} {α : Type} {f : PairingMessage → Call K α}
    {Q : α → PairingSession K → Prop} {E : PairingError → PairingSession K → Prop}
    (hE : ∀ e, E e s) (hf : ∀ message, Received C s message event → Ensures (f message) s Q E) :
    Ensures
      (do
        validateEventFromPeer C event
        let message ← decryptMessage C event
        f message) s Q E := by
  refine (checks_validateEventFromPeer event).bind hE fun _ ⟨⟨hverified, hkind⟩, hpeer⟩ => ?_
  refine (checks_decryptMessage event).bind hE fun message hcontent => ?_
  exact hf message ⟨hverified, hkind, hpeer, hcontent⟩

theorem makes_handleReturnPayload (event : SignedEvent) :
    Makes C s (.handleReturnPayload event) (handleReturnPayload C env event)
      fun p => .payload p.1 p.2 := by
  refine Makes.guarded fun hstate hrole => ?_
  refine ensures_receive (.rejected _) fun message hreceived => ?_
  cases message with
  | payload payloadType payload =>
    exact Ensures.modify_bind (Ensures.pure (.returnAccepted hstate hrole hreceived))
  | _ => exact Ensures.throw (.rejected _ _)

theorem makes_handlePayload (event : SignedEvent) :
    Makes C s (.handlePayload event) (handlePayload C env event) fun p => .payload p.1 p.2 := by
  refine Makes.guarded fun hstate hrole => ?_
  refine ensures_receive (.rejected _) fun message hreceived => ?_
  cases message with
  | payload payloadType payload =>
    exact Ensures.modify_bind (Ensures.pure (.payloadAccepted hstate hrole hreceived))
  | _ => exact Ensures.throw (.rejected _ _)

theorem makes_handleComplete (event : SignedEvent) :
    Makes C s (.handleComplete event) (handleComplete C env event) fun _ => .done := by
  refine Makes.guarded fun hstate _ => ?_
  refine ensures_receive (.rejected _) fun message _ => ?_
  cases message with
  | complete success =>
    cases success with
    | true => exact Ensures.modify (.completeAccepted hstate)
    | false => exact Ensures.modify_bind (Ensures.throw (.completeFailed _ hstate))
  | _ => exact Ensures.throw (.rejected _ _)

theorem makes_handleSasConfirm (event : SignedEvent) :
    Makes C s (.handleSasConfirm event) (handleSasConfirm C env event) .code := by
  refine Makes.guarded fun hstate hrole => ?_
  refine ensures_receive (.rejected _) fun message hreceived => ?_
  cases message with
  | sasConfirm receivedHash =>
    refine Ensures.get_bind ?_
    refine (checks_okOr _ _).bind (.rejected _) fun sasInput hinput => ?_
    refine (checks_okOr _ _).bind (.rejected _) fun peer hpeer => ?_
    simp only
    split_ifs with hmatches
    · refine Ensures.modify_bind ?_
      cases hcode : s.sasCode with
      | none => exact Ensures.throw (.codeMissing _ hstate hcode)
      | some code =>
        exact Ensures.pure (.transcriptMatched hstate hrole
          ⟨receivedHash, peer, sasInput, hreceived, hpeer, hinput, hmatches⟩ hcode)
    · exact Ensures.modify_bind (Ensures.throw (.transcriptMismatched _ hstate))
  | _ => exact Ensures.throw (.rejected _ _)

theorem makes_confirmTargetSas :
    Makes C s .confirmTargetSas (confirmTargetSas env) fun _ => .done :=
  Makes.guarded fun hstate hrole => Ensures.modify (.targetConfirmed hstate hrole)

theorem makes_abort (hC : C.Ideal) (reason : AbortReason) :
    Makes C s (.abort reason) (abort C env reason) .aborted := by
  refine checks_expectNonTerminal.bind (.rejected _) fun _ hstate => ?_
  refine Ensures.get_bind ?_
  split_ifs
  · exact Ensures.modify_bind (Ensures.pure (.abortedAlone hstate))
  · refine (checks_buildEvent hC env _).bind (.rejected _) fun event ⟨peer, hpeer, hbuilt⟩ => ?_
    exact Ensures.modify_bind (Ensures.pure (.abortSent hstate hpeer hbuilt))

theorem makes_handleAbort (event : SignedEvent) :
    Makes C s (.handleAbort event) (handleAbort C event) .reason := by
  refine checks_expectNonTerminal.bind (.rejected _) fun _ hstate => ?_
  refine Ensures.get_bind ?_
  refine (checks_require _ _).bind (.rejected _) fun _ _ => ?_
  refine ensures_receive (.rejected _) fun message _ => ?_
  cases message with
  | abort reason => exact Ensures.modify_bind (Ensures.pure (.abortAccepted hstate))
  | _ => exact Ensures.throw (.rejected _ _)

theorem makes_signEvent (hC : C.Ideal) (challenge relayUrl : String) :
    Makes C s (.signAuth challenge relayUrl)
      (signEvent C env (EventBuilder.auth challenge relayUrl)) .event := by
  refine Ensures.get_bind ?_
  refine (checks_orThrow _ _).ensures (.rejected _) fun event hsigned => .signed ?_
  obtain ⟨-, hkind, -⟩ := hC.sign_eq_ok hsigned
  rw [hkind]
  exact (by decide : AUTHENTICATION_KIND ≠ PAIRING_KIND)

/-- A call makes one of the moves. -/
theorem move_of_call (hC : C.Ideal) (env : Env) (s : PairingSession K) (request : Request) :
    Ensures (call C env request) s (fun reply s' => Move C s request (.ok reply) s') fun e s' =>
      Move C s request (.error e) s' := by
  cases request with
  | handleOffer event => exact Ensures.map (makes_handleOffer event)
  | confirmSas => exact Ensures.map (makes_confirmSas hC)
  | handleReturnPayload event => exact Ensures.map (makes_handleReturnPayload event)
  | sendSourceComplete success => exact Ensures.map (makes_sendSourceComplete hC success)
  | sendPayload payloadType payload => exact Ensures.map (makes_sendPayload hC payloadType payload)
  | handleComplete event => exact Ensures.map (makes_handleComplete event)
  | handleSasConfirm event => exact Ensures.map (makes_handleSasConfirm event)
  | confirmTargetSas => exact Ensures.map makes_confirmTargetSas
  | handlePayload event => exact Ensures.map (makes_handlePayload event)
  | sendComplete => exact Ensures.map (makes_sendComplete hC)
  | abort reason => exact Ensures.map (makes_abort hC reason)
  | handleAbort event => exact Ensures.map (makes_handleAbort event)
  | signAuth challenge relayUrl => exact Ensures.map (makes_signEvent hC challenge relayUrl)

end EntryPoints

/-! ### What every move keeps -/

namespace Move

variable {K : Type} {C : Crypto K} {s s' : PairingSession K} {request : Request}
  {outcome : Except PairingError Reply}

/-- A session keeps its role, its keys and its secret. -/
theorem frame (h : Move C s request outcome s') :
    s'.role = s.role ∧ s'.keys = s.keys ∧ s'.sessionSecret = s.sessionSecret ∧
      s'.sessionId = s.sessionId := by
  cases h <;> exact ⟨rfl, rfl, rfl, rfl⟩

/-- A session that has left the waiting state never returns to it, and its peer and its codes are
fixed. -/
theorem locked (h : Move C s request outcome s') (hstate : s.state ≠ .waiting) :
    s'.state ≠ .waiting ∧ s'.peerPubkey = s.peerPubkey ∧ s'.sasCode = s.sasCode ∧
      s'.sasInput = s.sasInput := by
  cases h with
  | offerLocked error hwaiting => exact absurd hwaiting hstate
  | offerAccepted hwaiting hrole hecdh => exact absurd hwaiting hstate
  | rejected request error => exact ⟨hstate, rfl, rfl, rfl⟩
  | signed hkind => exact ⟨hstate, rfl, rfl, rfl⟩
  | sent hsends hbefore hrole hpeer hbuilt => exact ⟨hsends.after_ne_waiting, rfl, rfl, rfl⟩
  | _ => exact ⟨nofun, rfl, rfl, rfl⟩

/-- A finished session stays as it is. -/
theorem of_terminal (h : Move C s request outcome s') (hterminal : s.state.Terminal) : s' = s := by
  have hne : ∀ state : SessionState, s.state = state → ¬ state.Terminal → s' = s :=
    fun state hstate hnot => absurd (hstate ▸ hterminal) hnot
  cases h with
  | rejected request error => rfl
  | signed hkind => rfl
  | sent hsends hbefore hrole hpeer hbuilt =>
    cases hsends <;> exact hne _ hbefore (by decide)
  | abortedAlone hstate => exact absurd hterminal hstate
  | abortSent hstate hpeer hbuilt => exact absurd hterminal hstate
  | abortAccepted hstate => exact absurd hterminal hstate
  | offerLocked error hstate => exact hne _ hstate (by decide)
  | offerAccepted hstate hrole hecdh => exact hne _ hstate (by decide)
  | returnAccepted hstate hrole hreceived => exact hne _ hstate (by decide)
  | payloadAccepted hstate hrole hreceived => exact hne _ hstate (by decide)
  | completeAccepted hstate => exact hne _ hstate (by decide)
  | completeFailed error hstate => exact hne _ hstate (by decide)
  | transcriptMatched hstate hrole hmatches hcode => exact hne _ hstate (by decide)
  | codeMissing error hstate hcode => exact hne _ hstate (by decide)
  | transcriptMismatched error hstate => exact hne _ hstate (by decide)
  | targetConfirmed hstate hrole => exact hne _ hstate (by decide)

/-- A pairing event that a call hands out is encrypted for the peer, which is fixed by then, and it
carries a payload only if the call is the one that sends it. -/
theorem emits {reply : Reply} {event : SignedEvent} (h : Move C s request (.ok reply) s')
    (hevent : reply.event? = some event) :
    event.kind ≠ PAIRING_KIND ∨ s'.state ≠ .waiting ∧ ∃ peer message, s'.peerPubkey = some peer ∧
      BuiltFor C s'.keys peer message event ∧ ∀ payloadType payload,
        message = .payload payloadType payload →
          request = .sendPayload payloadType payload ∧ reply = .event event ∧ s.role = .source := by
  cases h with
  | signed hkind =>
    obtain rfl := Option.some.inj hevent
    exact Or.inl hkind
  | abortSent hstate hpeer hbuilt =>
    obtain rfl := Option.some.inj hevent
    exact Or.inr ⟨nofun, _, _, hpeer, hbuilt, nofun⟩
  | sent hsends hbefore hrole hpeer hbuilt =>
    obtain rfl := Option.some.inj hevent
    refine Or.inr ⟨hsends.after_ne_waiting, _, _, hpeer, hbuilt, ?_⟩
    rintro payloadType payload rfl
    cases hsends
    exact ⟨rfl, rfl, hrole⟩
  | _ => exact nomatch hevent

end Move

end Buzz.Core.Pairing
