import Mathlib.Data.List.Count
import Mathlib.Data.List.Infix
import Buzz.Core.Pairing.Moves

/-!
# The history of a pairing session

A session with the record of its calls, newest first, and the events it has published. The history
says what came before what: a payload is sent after the SAS was confirmed, that after an offer was
accepted, and a payload is accepted after a matching `sas-confirm` and the user's approval.

The invariant relates the state to the history. While no payload has been exchanged the history has
none, and the states of the exchange are those that the calls before have led to.

## Main definitions

* `Record`, `Party`, `Party.serve`.
* `Offered`, `SasConfirmed`, `Matched`, `TargetConfirmed`: what the history says has happened.
* `Party.Sound`: the invariant.

## Main results

* `Party.Sound.push`: every move keeps the invariant.
-/

namespace Buzz.Core.Pairing

open Buzz.Library

variable {K : Type}

/-! ### Records -/

/-- A call with its outcome. -/
structure Record where
  request : Request
  outcome : Except PairingError Reply

/-- The call sent or accepted a payload. -/
def Record.transfersPayload : Record → Bool
  | ⟨.sendPayload _ _, .ok _⟩ => true
  | ⟨.handlePayload _, .ok _⟩ => true
  | ⟨.handleReturnPayload _, .ok _⟩ => true
  | _ => false

/-- The number of payloads that a session has sent or accepted. -/
def payloads (log : List Record) : ℕ := log.countP Record.transfersPayload

/-- An offer from the holder of `key` has been accepted. -/
def Offered (log : List Record) (key : PublicKey) : Prop :=
  ∃ offer sas, offer.pubkey = key ∧ ⟨.handleOffer offer, .ok (.code sas)⟩ ∈ log

/-- After an offer from the holder of `key`, the user has confirmed the SAS on the source. -/
def SasConfirmed (log : List Record) (key : PublicKey) : Prop :=
  ∃ event earlier, (⟨.confirmSas, .ok (.event event)⟩ :: earlier) <:+ log ∧ Offered earlier key

/-- A `sas-confirm` with the transcript of the session has been accepted. -/
def Matched (C : Crypto K) (s : PairingSession K) (log : List Record) : Prop :=
  ∃ event sas, TranscriptMatches C s event ∧ ⟨.handleSasConfirm event, .ok (.code sas)⟩ ∈ log

/-- After a matching `sas-confirm`, the user has confirmed the SAS on the target. -/
def TargetConfirmed (C : Crypto K) (s : PairingSession K) (log : List Record) : Prop :=
  ∃ earlier, (⟨.confirmTargetSas, .ok .done⟩ :: earlier) <:+ log ∧ Matched C s earlier

/-- The SAS code of the session is that of its peer. -/
def Keyed (C : Crypto K) (s : PairingSession K) : Prop :=
  ∃ peer ecdh, s.peerPubkey = some peer ∧ C.generateSharedKey s.keys peer = .ok ecdh ∧
    s.sasCode = some (C.deriveSas ecdh s.sessionSecret).1

/-! ### Moves and records -/

namespace Move

variable {C : Crypto K} {s s' : PairingSession K} {request : Request}
  {outcome : Except PairingError Reply}

/-- A payload is exchanged in the transferring state only, which is left. -/
theorem transfers (h : Move C s request outcome s')
    (htransfers : Record.transfersPayload ⟨request, outcome⟩ = true) :
    s.state = .transferring ∧ ¬ s'.state.BeforePayload := by
  cases h with
  | returnAccepted hstate hrole hreceived => exact ⟨hstate, id⟩
  | payloadAccepted hstate hrole hreceived => exact ⟨hstate, id⟩
  | sent hsends hstate hrole hpeer hbuilt =>
    cases hsends with
    | sendPayload payloadType payload => exact ⟨hstate, id⟩
    | _ => exact nomatch htransfers
  | rejected request error => cases request <;> exact nomatch htransfers
  | _ => exact nomatch htransfers

theorem beforePayload (h : Move C s request outcome s') (hafter : s'.state.BeforePayload) :
    s.state.BeforePayload := by
  cases h with
  | rejected request error => exact hafter
  | signed hkind => exact hafter
  | offerLocked error hstate => exact hafter
  | offerAccepted hstate hrole hecdh => rw [hstate]; trivial
  | transcriptMatched hstate hrole hmatches hcode => rw [hstate]; trivial
  | codeMissing error hstate hcode => rw [hstate]; trivial
  | targetConfirmed hstate hrole => rw [hstate]; trivial
  | sent hsends hstate hrole hpeer hbuilt =>
    rcases hsends.cases_after with ⟨-, -, rfl, -⟩ | hpast
    · rw [hstate]
      trivial
    · exact absurd rfl (hpast _ hafter)
  | _ => exact hafter.elim

theorem confirming (h : Move C s request outcome s') (hafter : s'.state = .confirming) :
    s.state = .confirming ∨ ∃ offer sas, request = .handleOffer offer ∧ outcome = .ok (.code sas) ∧
      s'.peerPubkey = some offer.pubkey := by
  cases h with
  | rejected request error => exact Or.inl hafter
  | signed hkind => exact Or.inl hafter
  | offerLocked error hstate => exact Or.inl hafter
  | offerAccepted hstate hrole hecdh => exact Or.inr ⟨_, _, rfl, rfl, rfl⟩
  | sent hsends hstate hrole hpeer hbuilt =>
    rcases hsends.cases_after with ⟨-, -, -, rfl⟩ | hpast
    · exact nomatch hafter
    · exact absurd hafter (hpast _ trivial)
  | _ => exact nomatch hafter

theorem awaitingConfirmation (h : Move C s request outcome s')
    (hafter : s'.state = .awaitingConfirmation) :
    s.state = .awaitingConfirmation ∨ s.state = .confirming ∧ (s.sasCode = none ∨
      ∃ event sas, request = .handleSasConfirm event ∧ outcome = .ok (.code sas) ∧
        TranscriptMatches C s event) := by
  cases h with
  | rejected request error => exact Or.inl hafter
  | signed hkind => exact Or.inl hafter
  | offerLocked error hstate => exact Or.inl hafter
  | transcriptMatched hstate hrole hmatches hcode =>
    exact Or.inr ⟨hstate, Or.inr ⟨_, _, rfl, rfl, hmatches⟩⟩
  | codeMissing error hstate hcode => exact Or.inr ⟨hstate, Or.inl hcode⟩
  | sent hsends hstate hrole hpeer hbuilt =>
    rcases hsends.cases_after with ⟨-, -, -, rfl⟩ | hpast
    · exact nomatch hafter
    · exact absurd hafter (hpast _ trivial)
  | _ => exact nomatch hafter

theorem transferring (h : Move C s request outcome s') (hafter : s'.state = .transferring) :
    s.state = .transferring ∨
      (s.role = .source ∧ s.state = .confirming ∧ request = .confirmSas ∧
        ∃ event, outcome = .ok (.event event)) ∨
      (s.role = .target ∧ s.state = .awaitingConfirmation ∧ request = .confirmTargetSas ∧
        outcome = .ok .done) := by
  cases h with
  | rejected request error => exact Or.inl hafter
  | signed hkind => exact Or.inl hafter
  | offerLocked error hstate => exact Or.inl hafter
  | targetConfirmed hstate hrole => exact Or.inr (Or.inr ⟨hrole, hstate, rfl, rfl⟩)
  | sent hsends hstate hrole hpeer hbuilt =>
    rcases hsends.cases_after with ⟨rfl, rfl, rfl, -⟩ | hpast
    · exact Or.inr (Or.inl ⟨hrole, hstate, rfl, _, rfl⟩)
    · exact absurd hafter (hpast _ trivial)
  | _ => exact nomatch hafter

/-- A waiting session that goes on has accepted an offer. -/
theorem keyed (h : Move C s request outcome s') (hstate : s.state = .waiting)
    (hwaiting : s'.state ≠ .waiting) (haborted : s'.state ≠ .aborted) : Keyed C s' := by
  cases h with
  | offerAccepted _ hrole hecdh => exact ⟨_, _, rfl, hecdh, rfl⟩
  | rejected request error => exact absurd hstate hwaiting
  | signed hkind => exact absurd hstate hwaiting
  | offerLocked error _ => exact absurd hstate hwaiting
  | abortedAlone _ => exact absurd rfl haborted
  | abortSent _ hpeer hbuilt => exact absurd rfl haborted
  | abortAccepted _ => exact absurd rfl haborted
  | sent hsends hbefore hrole hpeer hbuilt =>
    cases hsends <;> exact nomatch hstate.symm.trans hbefore
  | returnAccepted hbefore hrole hreceived => exact nomatch hstate.symm.trans hbefore
  | payloadAccepted hbefore hrole hreceived => exact nomatch hstate.symm.trans hbefore
  | completeAccepted hbefore => exact nomatch hstate.symm.trans hbefore
  | completeFailed error hbefore => exact nomatch hstate.symm.trans hbefore
  | transcriptMatched hbefore hrole hmatches hcode => exact nomatch hstate.symm.trans hbefore
  | codeMissing error hbefore hcode => exact nomatch hstate.symm.trans hbefore
  | transcriptMismatched error hbefore => exact nomatch hstate.symm.trans hbefore
  | targetConfirmed hbefore hrole => exact nomatch hstate.symm.trans hbefore

theorem sendPayload {payloadType : PayloadType} {payload : String} {event : SignedEvent}
    (h : Move C s (.sendPayload payloadType payload) (.ok (.event event)) s') :
    s.role = .source ∧ s.state = .transferring ∧ ∃ peer, s.peerPubkey = some peer ∧
      BuiltFor C s.keys peer (.payload payloadType payload) event := by
  cases h with
  | sent hsends hstate hrole hpeer hbuilt =>
    cases hsends
    exact ⟨hrole, hstate, _, hpeer, hbuilt⟩

theorem handlePayload {event : SignedEvent} {payloadType : PayloadType} {payload : String}
    (h : Move C s (.handlePayload event) (.ok (.payload payloadType payload)) s') :
    s.role = .target ∧ s.state = .transferring ∧
      Received C s (.payload payloadType payload) event := by
  cases h with
  | payloadAccepted hstate hrole hreceived => exact ⟨hrole, hstate, hreceived⟩

end Move

/-! ### What a fixed session keeps -/

/-- The two sessions agree on everything that a session with a fixed peer never changes. -/
structure SameExchange (s s' : PairingSession K) : Prop where
  role : s'.role = s.role
  keys : s'.keys = s.keys
  sessionSecret : s'.sessionSecret = s.sessionSecret
  sessionId : s'.sessionId = s.sessionId
  peerPubkey : s'.peerPubkey = s.peerPubkey
  sasCode : s'.sasCode = s.sasCode
  sasInput : s'.sasInput = s.sasInput

section Stable

variable {C : Crypto K} {s s' : PairingSession K} {log log' : List Record}

theorem Move.sameExchange {request : Request} {outcome : Except PairingError Reply}
    (h : Move C s request outcome s') (hstate : s.state ≠ .waiting) : SameExchange s s' := by
  obtain ⟨hrole, hkeys, hsecret, hid⟩ := h.frame
  obtain ⟨-, hpeer, hcode, hinput⟩ := h.locked hstate
  exact ⟨hrole, hkeys, hsecret, hid, hpeer, hcode, hinput⟩

theorem Keyed.of_same (h : Keyed C s) (hsame : SameExchange s s') : Keyed C s' := by
  unfold Keyed
  rw [hsame.peerPubkey, hsame.keys, hsame.sasCode, hsame.sessionSecret]
  exact h

theorem Received.of_same {message : PairingMessage} {event : SignedEvent}
    (h : Received C s message event) (hsame : SameExchange s s') : Received C s' message event := by
  refine ⟨h.verified, h.kind, ?_, ?_⟩
  · rw [hsame.peerPubkey]
    exact h.from_peer
  · rw [hsame.keys]
    exact h.content

theorem TranscriptMatches.of_same {event : SignedEvent} (h : TranscriptMatches C s event)
    (hsame : SameExchange s s') : TranscriptMatches C s' event := by
  obtain ⟨hash, peer, sasInput, hreceived, hpeer, hinput, hhash⟩ := h
  refine ⟨hash, peer, sasInput, hreceived.of_same hsame, hsame.peerPubkey.trans hpeer,
    hsame.sasInput.trans hinput, ?_⟩
  rw [hsame.sessionId, hsame.keys, hsame.sessionSecret]
  exact hhash

theorem Offered.mono {key : PublicKey} (h : Offered log key) (hlog : log <:+ log') :
    Offered log' key := by
  obtain ⟨offer, sas, hkey, hmem⟩ := h
  exact ⟨offer, sas, hkey, hlog.subset hmem⟩

theorem SasConfirmed.mono {key : PublicKey} (h : SasConfirmed log key) (hlog : log <:+ log') :
    SasConfirmed log' key := by
  obtain ⟨event, earlier, hsuffix, hoffered⟩ := h
  exact ⟨event, earlier, hsuffix.trans hlog, hoffered⟩

theorem Matched.mono (h : Matched C s log) (hsame : SameExchange s s') (hlog : log <:+ log') :
    Matched C s' log' := by
  obtain ⟨event, sas, hmatches, hmem⟩ := h
  exact ⟨event, sas, hmatches.of_same hsame, hlog.subset hmem⟩

theorem TargetConfirmed.mono (h : TargetConfirmed C s log) (hsame : SameExchange s s')
    (hlog : log <:+ log') : TargetConfirmed C s' log' := by
  obtain ⟨earlier, hsuffix, hmatched⟩ := h
  exact ⟨earlier, hsuffix.trans hlog, hmatched.mono hsame (List.suffix_refl _)⟩

end Stable

/-! ### Parties -/

/-- A session with the record of its calls, newest first, and the events it has published. -/
structure Party (K : Type) where
  session : PairingSession K
  log : List Record
  published : List SignedEvent

namespace Party

/-- The events that an outcome hands out. -/
def handedOut : Except PairingError Reply → List SignedEvent
  | .ok reply => reply.event?.toList
  | .error _ => []

/-- The party after a call. -/
def push (p : Party K) (request : Request) (outcome : Except PairingError Reply)
    (s : PairingSession K) : Party K :=
  ⟨s, ⟨request, outcome⟩ :: p.log, handedOut outcome ++ p.published⟩

/-- Run an entry point on the session of the party. -/
def serve (C : Crypto K) (env : Env) (p : Party K) (request : Request) : Party K :=
  match call C env request p.session with
  | .ok reply s => p.push request (.ok reply) s
  | .error e s => p.push request (.error e) s

theorem serve_cases {C : Crypto K} (hC : C.Ideal) (env : Env) (p : Party K) (request : Request) :
    ∃ outcome s', Move C p.session request outcome s' ∧
      p.serve C env request = p.push request outcome s' := by
  have hmove := move_of_call hC env p.session request
  unfold Ensures at hmove
  unfold serve
  cases hcall : call C env request p.session with
  | ok reply s' =>
    rw [hcall] at hmove
    exact ⟨.ok reply, s', hmove, rfl⟩
  | error e s' =>
    rw [hcall] at hmove
    exact ⟨.error e, s', hmove, rfl⟩

/-- The invariant of a party. -/
structure Sound (C : Crypto K) (p : Party K) : Prop where
  keyed : p.session.state ≠ .waiting → p.session.state ≠ .aborted → Keyed C p.session
  offered : p.session.role = .source → p.session.state = .confirming →
    ∃ key, p.session.peerPubkey = some key ∧ Offered p.log key
  confirmed : p.session.role = .source → p.session.state = .transferring →
    ∃ key, p.session.peerPubkey = some key ∧ SasConfirmed p.log key
  matched : p.session.role = .target → p.session.state = .awaitingConfirmation →
    Matched C p.session p.log
  targetConfirmed : p.session.role = .target → p.session.state = .transferring →
    TargetConfirmed C p.session p.log
  beforePayload : p.session.state.BeforePayload → payloads p.log = 0
  once : payloads p.log ≤ 1
  exchanged : payloads p.log ≠ 0 → Keyed C p.session
  sent : ∀ {before payloadType payload event},
    (⟨.sendPayload payloadType payload, .ok (.event event)⟩ :: before) <:+ p.log →
      ∃ key, p.session.peerPubkey = some key ∧ SasConfirmed before key ∧
        BuiltFor C p.session.keys key (.payload payloadType payload) event
  accepted : ∀ {before event payloadType payload},
    (⟨.handlePayload event, .ok (.payload payloadType payload)⟩ :: before) <:+ p.log →
      TargetConfirmed C p.session before
  published : ∀ event ∈ p.published, event.kind ≠ PAIRING_KIND ∨ p.session.state ≠ .waiting ∧
    ∃ peer message, p.session.peerPubkey = some peer ∧
      BuiltFor C p.session.keys peer message event ∧ ∀ payloadType payload,
        message = .payload payloadType payload → p.session.role = .source ∧
          ⟨.sendPayload payloadType payload, .ok (.event event)⟩ ∈ p.log

namespace Sound

variable {C : Crypto K} {p : Party K} {request : Request} {outcome : Except PairingError Reply}
  {s' : PairingSession K}

theorem ne_waiting (h : p.Sound C) (hpayloads : payloads p.log ≠ 0) :
    p.session.state ≠ .waiting := by
  intro hstate
  exact hpayloads (h.beforePayload (by rw [hstate]; trivial))

theorem payloads_ne_zero {log : List Record} {r : Record} (hmem : r ∈ log)
    (htransfers : r.transfersPayload = true) : payloads log ≠ 0 :=
  (List.countP_pos_iff.mpr ⟨r, hmem, htransfers⟩).ne'

theorem payloads_push (h : p.Sound C) (hmove : Move C p.session request outcome s') :
    payloads (⟨request, outcome⟩ :: p.log) ≤ 1 ∧
      (s'.state.BeforePayload → payloads (⟨request, outcome⟩ :: p.log) = 0) ∧
      (payloads (⟨request, outcome⟩ :: p.log) ≠ 0 → Keyed C s') := by
  by_cases htransfers : Record.transfersPayload ⟨request, outcome⟩ = true
  · obtain ⟨hstate, hafter⟩ := hmove.transfers htransfers
    have hnone : payloads p.log = 0 := h.beforePayload (by rw [hstate]; trivial)
    have hkeyed : Keyed C p.session := h.keyed (by rw [hstate]; nofun) (by rw [hstate]; nofun)
    refine ⟨?_, fun hbefore => absurd hbefore hafter, fun _ => ?_⟩
    · rw [payloads, List.countP_cons_of_pos htransfers]
      exact Nat.succ_le_succ hnone.le
    · exact hkeyed.of_same (hmove.sameExchange (by rw [hstate]; nofun))
  · have hcount : payloads (⟨request, outcome⟩ :: p.log) = payloads p.log :=
      List.countP_cons_of_neg htransfers
    rw [hcount]
    refine ⟨h.once, fun hbefore => h.beforePayload (hmove.beforePayload hbefore), fun hne => ?_⟩
    exact (h.exchanged hne).of_same (hmove.sameExchange (h.ne_waiting hne))

theorem keyed_push (h : p.Sound C) (hmove : Move C p.session request outcome s')
    (hwaiting : s'.state ≠ .waiting) (haborted : s'.state ≠ .aborted) : Keyed C s' := by
  by_cases hstate : p.session.state = .waiting
  · exact hmove.keyed hstate hwaiting haborted
  · refine (h.keyed hstate fun hdead => ?_).of_same (hmove.sameExchange hstate)
    -- an aborted session stays aborted
    rw [hmove.of_terminal (Or.inr hdead)] at haborted
    exact haborted hdead

theorem confirmed_push (h : p.Sound C) (hmove : Move C p.session request outcome s')
    (hrole : s'.role = .source) (hstate : s'.state = .transferring) :
    ∃ key, s'.peerPubkey = some key ∧ SasConfirmed (⟨request, outcome⟩ :: p.log) key := by
  have hsource : p.session.role = .source := hmove.frame.1.symm.trans hrole
  rcases hmove.transferring hstate with hbefore | ⟨-, hbefore, rfl, event, rfl⟩ | ⟨htarget, -⟩
  · obtain ⟨key, hkey, hconfirmed⟩ := h.confirmed hsource hbefore
    have hsame := hmove.sameExchange (by rw [hbefore]; nofun)
    exact ⟨key, hsame.peerPubkey.trans hkey, hconfirmed.mono (List.suffix_cons _ _)⟩
  · obtain ⟨key, hkey, hoffered⟩ := h.offered hsource hbefore
    have hsame := hmove.sameExchange (by rw [hbefore]; nofun)
    exact ⟨key, hsame.peerPubkey.trans hkey, event, p.log, List.suffix_refl _, hoffered⟩
  · exact nomatch hsource.symm.trans htarget

theorem matched_push (h : p.Sound C) (hmove : Move C p.session request outcome s')
    (hrole : s'.role = .target) (hstate : s'.state = .awaitingConfirmation) :
    Matched C s' (⟨request, outcome⟩ :: p.log) := by
  have htarget : p.session.role = .target := hmove.frame.1.symm.trans hrole
  rcases hmove.awaitingConfirmation hstate with hbefore | ⟨hbefore, hnone | ⟨event, sas, hcall⟩⟩
  · exact (h.matched htarget hbefore).mono (hmove.sameExchange (by rw [hbefore]; nofun))
      (List.suffix_cons _ _)
  · obtain ⟨peer, ecdh, -, -, hcode⟩ := h.keyed (by rw [hbefore]; nofun) (by rw [hbefore]; nofun)
    exact nomatch hnone.symm.trans hcode
  · obtain ⟨rfl, rfl, hmatches⟩ := hcall
    have hsame := hmove.sameExchange (by rw [hbefore]; nofun)
    exact ⟨event, sas, hmatches.of_same hsame, List.mem_cons_self⟩

theorem targetConfirmed_push (h : p.Sound C) (hmove : Move C p.session request outcome s')
    (hrole : s'.role = .target) (hstate : s'.state = .transferring) :
    TargetConfirmed C s' (⟨request, outcome⟩ :: p.log) := by
  have htarget : p.session.role = .target := hmove.frame.1.symm.trans hrole
  rcases hmove.transferring hstate with hbefore | ⟨hsource, -⟩ | ⟨-, hbefore, rfl, rfl⟩
  · exact (h.targetConfirmed htarget hbefore).mono (hmove.sameExchange (by rw [hbefore]; nofun))
      (List.suffix_cons _ _)
  · exact nomatch htarget.symm.trans hsource
  · have hsame := hmove.sameExchange (by rw [hbefore]; nofun)
    exact ⟨p.log, List.suffix_refl _, (h.matched htarget hbefore).mono hsame (List.suffix_refl _)⟩

theorem sent_push (h : p.Sound C) (hmove : Move C p.session request outcome s')
    {before : List Record} {payloadType : PayloadType} {payload : String} {event : SignedEvent}
    (hsuffix : (⟨.sendPayload payloadType payload, .ok (.event event)⟩ :: before) <:+
      (⟨request, outcome⟩ :: p.log)) :
    ∃ key, s'.peerPubkey = some key ∧ SasConfirmed before key ∧
      BuiltFor C s'.keys key (.payload payloadType payload) event := by
  rcases List.suffix_cons_iff.mp hsuffix with heq | hold
  · obtain ⟨hrecord, rfl⟩ := List.cons.inj heq
    obtain ⟨rfl, rfl⟩ := Record.mk.inj hrecord
    obtain ⟨hsource, hstate, peer, hpeer, hbuilt⟩ := hmove.sendPayload
    obtain ⟨key, hkey, hconfirmed⟩ := h.confirmed hsource hstate
    have hsame := hmove.sameExchange (by rw [hstate]; nofun)
    obtain rfl := Option.some.inj (hkey.symm.trans hpeer)
    exact ⟨key, hsame.peerPubkey.trans hkey, hconfirmed, hsame.keys ▸ hbuilt⟩
  · obtain ⟨key, hkey, hconfirmed, hbuilt⟩ := h.sent hold
    have hne := h.ne_waiting (payloads_ne_zero (hold.subset List.mem_cons_self) rfl)
    have hsame := hmove.sameExchange hne
    exact ⟨key, hsame.peerPubkey.trans hkey, hconfirmed, hsame.keys ▸ hbuilt⟩

theorem accepted_push (h : p.Sound C) (hmove : Move C p.session request outcome s')
    {before : List Record} {event : SignedEvent} {payloadType : PayloadType} {payload : String}
    (hsuffix : (⟨.handlePayload event, .ok (.payload payloadType payload)⟩ :: before) <:+
      (⟨request, outcome⟩ :: p.log)) : TargetConfirmed C s' before := by
  rcases List.suffix_cons_iff.mp hsuffix with heq | hold
  · obtain ⟨hrecord, rfl⟩ := List.cons.inj heq
    obtain ⟨rfl, rfl⟩ := Record.mk.inj hrecord
    obtain ⟨htarget, hstate, -⟩ := hmove.handlePayload
    have hsame := hmove.sameExchange (by rw [hstate]; nofun)
    exact (h.targetConfirmed htarget hstate).mono hsame (List.suffix_refl _)
  · have hne := h.ne_waiting (payloads_ne_zero (hold.subset List.mem_cons_self) rfl)
    exact (h.accepted hold).mono (hmove.sameExchange hne) (List.suffix_refl _)

theorem published_push (h : p.Sound C) (hmove : Move C p.session request outcome s')
    {event : SignedEvent} (hevent : event ∈ handedOut outcome ++ p.published) :
    event.kind ≠ PAIRING_KIND ∨ s'.state ≠ .waiting ∧ ∃ peer message,
      s'.peerPubkey = some peer ∧ BuiltFor C s'.keys peer message event ∧
        ∀ payloadType payload, message = .payload payloadType payload → s'.role = .source ∧
          ⟨.sendPayload payloadType payload, .ok (.event event)⟩ ∈
            (⟨request, outcome⟩ :: p.log : List Record) := by
  rcases List.mem_append.mp hevent with hnew | hold
  · cases outcome with
    | error e => exact nomatch hnew
    | ok reply =>
      rcases hmove.emits (Option.mem_toList.mp hnew) with
        hkind | ⟨hstate, peer, message, hpeer, hbuilt, hpayload⟩
      · exact Or.inl hkind
      · refine Or.inr ⟨hstate, peer, message, hpeer, hbuilt, ?_⟩
        intro payloadType payload hmessage
        obtain ⟨rfl, rfl, hsource⟩ := hpayload payloadType payload hmessage
        exact ⟨hmove.frame.1.trans hsource, List.mem_cons_self⟩
  · rcases h.published event hold with
      hkind | ⟨hstate, peer, message, hpeer, hbuilt, hpayload⟩
    · exact Or.inl hkind
    · have hsame := hmove.sameExchange hstate
      refine Or.inr ⟨(hmove.locked hstate).1, peer, message, hsame.peerPubkey.trans hpeer,
        hsame.keys ▸ hbuilt, ?_⟩
      intro payloadType payload hmessage
      obtain ⟨hsource, hmem⟩ := hpayload payloadType payload hmessage
      exact ⟨hsame.role.trans hsource, List.mem_cons_of_mem _ hmem⟩

/-- Every move keeps the invariant. -/
theorem push (h : p.Sound C) (hmove : Move C p.session request outcome s') :
    (p.push request outcome s').Sound C where
  keyed := h.keyed_push hmove
  offered hrole hstate := by
    rcases hmove.confirming hstate with hbefore | ⟨offer, sas, rfl, rfl, hpeer⟩
    · obtain ⟨key, hkey, hoffered⟩ := h.offered (hmove.frame.1.symm.trans hrole) hbefore
      have hsame := hmove.sameExchange (by rw [hbefore]; nofun)
      exact ⟨key, hsame.peerPubkey.trans hkey, hoffered.mono (List.suffix_cons _ _)⟩
    · exact ⟨offer.pubkey, hpeer, offer, sas, rfl, List.mem_cons_self⟩
  confirmed := h.confirmed_push hmove
  matched := h.matched_push hmove
  targetConfirmed := h.targetConfirmed_push hmove
  beforePayload := (h.payloads_push hmove).2.1
  once := (h.payloads_push hmove).1
  exchanged := (h.payloads_push hmove).2.2
  sent := h.sent_push hmove
  accepted := h.accepted_push hmove
  published _ hevent := h.published_push hmove hevent

end Sound

end Party

end Buzz.Core.Pairing
