import Mathlib.Logic.Relation
import Buzz.Core.Pairing.Symbolic

/-!
# Pairing over an untrusted network

A source, and a target that scans its QR code. Any entry point of either session may be called at
any time, and every event that reaches a session comes from the network, which may drop, reorder and
repeat what the sessions have published and inject anything else, valid offers included. It cannot
sign for a session: an event that verifies under the key of a session is one that the session has
published.

A payload that the target accepts was therefore published by the source, which has encrypted it for
its peer; as the target reads it, that peer is the target. The peer of the source is fixed when it
accepts an offer, before the user confirms the code.

## Main definitions

* `World`, `Step`: runs of the two sessions.
* `Invariant`: what holds along every run.
* `Secure`: what pairing is for.

## Main results

* `Step.invariant`: every step keeps the invariant.
* `secure_of_run`: every run is secure.
-/

namespace Buzz.Core.Pairing

open Buzz.Library Relation

variable {K : Type}

/-! ### Runs -/

/-- The two sessions, the target once it has scanned the QR code. -/
structure World (K : Type) where
  qr : QrPayload
  source : Party K
  target : Option (Party K)

namespace World

/-- Everything that the two sessions have published. -/
def wire (w : World K) : List SignedEvent :=
  w.source.published ++ (w.target.map Party.published).getD []

/-- The key is that of one of the two sessions. -/
def Holds (C : Crypto K) (w : World K) (key : PublicKey) : Prop :=
  key = C.publicKey w.source.session.keys ∨
    ∃ t, w.target = some t ∧ key = C.publicKey t.session.keys

/-- The network can deliver the event: it does not verify, or it is signed with another key, or a
session has published it. -/
def Deliverable (C : Crypto K) (w : World K) (event : SignedEvent) : Prop :=
  C.verify event = .ok () → w.Holds C event.pubkey → event ∈ w.wire

/-- A new source that nobody has scanned yet. -/
def initial (C : Crypto K) (env : Env) (keys : K) (sessionSecret : Bytes32) (relayUrl : String) :
    World K :=
  ⟨(newSource C env keys sessionSecret relayUrl).2,
    ⟨(newSource C env keys sessionSecret relayUrl).1, [], []⟩, none⟩

end World

/-- A call on one of the sessions, or the scan of the QR code. -/
inductive Step (C : Crypto K) : World K → World K → Prop
  | source {w : World K} (env : Env) (request : Request)
      (hevent : ∀ event, request.event? = some event → w.Deliverable C event) :
      Step C w { w with source := w.source.serve C env request }
  | scan {w : World K} {session : PairingSession K} {offer : SignedEvent} (env : Env) (keys : K)
      (hnone : w.target = none) (hnew : newTarget C env keys w.qr = .ok (session, offer)) :
      Step C w { w with target := some ⟨session, [], [offer]⟩ }
  | target {w : World K} {t : Party K} (ht : w.target = some t) (env : Env) (request : Request)
      (hevent : ∀ event, request.event? = some event → w.Deliverable C event) :
      Step C w { w with target := some (t.serve C env request) }

/-! ### The invariant -/

/-- What holds of a target that has scanned the QR code of the source. -/
structure Joined (C : Crypto K) (source t : Party K) : Prop where
  sound : t.Sound C
  role : t.session.role = .target
  started : t.session.state ≠ .waiting
  peer : t.session.peerPubkey = some (C.publicKey source.session.keys)
  secret : t.session.sessionSecret = source.session.sessionSecret
  agreed : ∀ {event payloadType payload},
    ⟨.handlePayload event, .ok (.payload payloadType payload)⟩ ∈ t.log →
      source.session.peerPubkey = some (C.publicKey t.session.keys) ∧
        ⟨.sendPayload payloadType payload, .ok (.event event)⟩ ∈ source.log

/-- The invariant of a run. -/
structure Invariant (C : Crypto K) (w : World K) : Prop where
  sound : w.source.Sound C
  qr_pubkey : w.qr.sourcePubkey = C.publicKey w.source.session.keys
  qr_secret : w.qr.sessionSecret = w.source.session.sessionSecret
  joined : ∀ t, w.target = some t → Joined C w.source t

section Preservation

variable {C : Crypto K} {env : Env} {keys : K}

theorem sound_newSource (sessionSecret : Bytes32) (relayUrl : String) :
    Party.Sound C ⟨(newSource C env keys sessionSecret relayUrl).1, [], []⟩ where
  keyed hwaiting _ := absurd rfl hwaiting
  offered _ hstate := nomatch hstate
  confirmed _ hstate := nomatch hstate
  matched hrole _ := nomatch hrole
  targetConfirmed hrole _ := nomatch hrole
  beforePayload _ := rfl
  once := Nat.zero_le 1
  exchanged hne := absurd rfl hne
  sent hsuffix := nomatch List.suffix_nil.mp hsuffix
  accepted hsuffix := nomatch List.suffix_nil.mp hsuffix
  published _ hmem := nomatch hmem

theorem invariant_initial (sessionSecret : Bytes32) (relayUrl : String) :
    Invariant C (World.initial C env keys sessionSecret relayUrl) :=
  ⟨sound_newSource sessionSecret relayUrl, rfl, rfl, nofun⟩

/-- What a new target session is. -/
theorem newTarget_eq_ok (hC : C.Ideal) {qr : QrPayload} {session : PairingSession K}
    {offer : SignedEvent} (h : newTarget C env keys qr = .ok (session, offer)) :
    session.role = .target ∧ session.state = .confirming ∧ session.keys = keys ∧
      session.peerPubkey = some qr.sourcePubkey ∧ session.sessionSecret = qr.sessionSecret ∧
      Keyed C session ∧ ∃ hash, BuiltFor C keys qr.sourcePubkey (.offer hash 1) offer := by
  unfold newTarget at h
  cases hecdh : C.generateSharedKey keys qr.sourcePubkey with
  | error e =>
    rw [hecdh] at h
    exact nomatch h
  | ok ecdh =>
    simp only [hecdh] at h
    have hbuild := checks_buildEvent hC env
      (.offer (hexEncode (C.deriveSessionId qr.sessionSecret)) 1)
      (targetSession C env keys qr ecdh)
    unfold Ensures at hbuild
    split at h
    · exact nomatch h
    · next event s hevent =>
      rw [hevent] at hbuild
      obtain ⟨rfl, peer, hpeer, hbuilt⟩ := hbuild
      obtain ⟨rfl, rfl⟩ := Prod.mk.inj (Except.ok.inj h)
      obtain rfl := Option.some.inj hpeer
      exact ⟨rfl, rfl, rfl, rfl, rfl, ⟨_, _, rfl, hecdh, rfl⟩, _, hbuilt⟩

theorem joined_newTarget (hC : C.Ideal) {source : Party K} {qr : QrPayload}
    {session : PairingSession K} {offer : SignedEvent}
    (hpubkey : qr.sourcePubkey = C.publicKey source.session.keys)
    (hsecret : qr.sessionSecret = source.session.sessionSecret)
    (h : newTarget C env keys qr = .ok (session, offer)) :
    Joined C source ⟨session, [], [offer]⟩ := by
  obtain ⟨hrole, hstate, hkeys, hpeer, hsession, hkeyed, hash, hbuilt⟩ := newTarget_eq_ok hC h
  have hsound : Party.Sound C ⟨session, [], [offer]⟩ :=
    { keyed := fun _ _ => hkeyed
      offered := fun hsource _ => nomatch hrole.symm.trans hsource
      confirmed := fun hsource _ => nomatch hrole.symm.trans hsource
      matched := fun _ hawaiting => nomatch hstate.symm.trans hawaiting
      targetConfirmed := fun _ htransferring => nomatch hstate.symm.trans htransferring
      beforePayload := fun _ => rfl
      once := Nat.zero_le 1
      exchanged := fun hne => absurd rfl hne
      sent := fun hsuffix => nomatch List.suffix_nil.mp hsuffix
      accepted := fun hsuffix => nomatch List.suffix_nil.mp hsuffix
      published := by
        intro event hevent
        obtain rfl := List.mem_singleton.mp hevent
        exact Or.inr ⟨by rw [hstate]; nofun, qr.sourcePubkey, .offer hash 1, hpeer, hkeys ▸ hbuilt,
          nofun⟩ }
  refine ⟨hsound, hrole, by rw [hstate]; nofun, ?_, hsession.trans hsecret, nofun⟩
  rw [hpeer, hpubkey]

/-- A target that accepts a payload has read what the source sent to it. -/
theorem agreed_of_received (hC : C.Ideal) {w : World K} {t : Party K} (h : Invariant C w)
    (ht : w.target = some t) {event : SignedEvent} {payloadType : PayloadType} {payload : String}
    (hevent : w.Deliverable C event)
    (hreceived : Received C t.session (.payload payloadType payload) event) :
    w.source.session.peerPubkey = some (C.publicKey t.session.keys) ∧
      ⟨.sendPayload payloadType payload, .ok (.event event)⟩ ∈ w.source.log := by
  have hjoined := h.joined t ht
  have hpubkey : event.pubkey = C.publicKey w.source.session.keys :=
    hreceived.from_peer _ hjoined.peer
  obtain ⟨text, htext, hmessage⟩ := hreceived.content
  -- what a session has encrypted, the target reads only if it was meant for it
  have hread : ∀ {a : K} {peer : PublicKey} {message : PairingMessage},
      BuiltFor C a peer message event →
        peer = C.publicKey t.session.keys ∧ message = .payload payloadType payload := by
    intro a peer message hbuilt
    obtain ⟨nonce, hcontent⟩ := hbuilt.content
    rw [hbuilt.pubkey] at htext
    obtain ⟨hpeer, rfl⟩ := hC.decrypt_encrypt hcontent htext
    rw [PairingMessage.ofText_toText] at hmessage
    exact ⟨hpeer, Option.some.inj hmessage⟩
  have hwire : event ∈ w.wire := hevent hreceived.verified (Or.inl hpubkey)
  rcases List.mem_append.mp hwire with hsource | htarget
  · rcases h.sound.published event hsource with
      hkind | ⟨-, peer, message, hpeer, hbuilt, hpayload⟩
    · exact absurd hreceived.kind hkind
    · obtain ⟨rfl, hsame⟩ := hread hbuilt
      exact ⟨hpeer, (hpayload payloadType payload hsame).2⟩
  · rw [ht] at htarget
    rcases hjoined.sound.published event htarget with
      hkind | ⟨-, peer, message, hpeer, hbuilt, hpayload⟩
    · exact absurd hreceived.kind hkind
    · -- the target itself never sends a payload
      obtain ⟨-, hsame⟩ := hread hbuilt
      have hrole := (hpayload payloadType payload hsame).1
      exact nomatch hjoined.role.symm.trans hrole

theorem Joined.push_source {source t : Party K} {request : Request}
    {outcome : Except PairingError Reply} {s' : PairingSession K} (h : Joined C source t)
    (hsound : source.Sound C) (hmove : Move C source.session request outcome s') :
    Joined C (source.push request outcome s') t := by
  obtain ⟨-, hkeys, hsecret, -⟩ := hmove.frame
  refine ⟨h.sound, h.role, h.started, ?_, h.secret.trans hsecret.symm, ?_⟩
  · rw [h.peer]
    exact congrArg (fun keys => some (C.publicKey keys)) hkeys.symm
  · intro event payloadType payload hmem
    obtain ⟨hpeer, hsent⟩ := h.agreed hmem
    have hne := hsound.ne_waiting (Party.Sound.payloads_ne_zero hsent rfl)
    exact ⟨(hmove.locked hne).2.1.trans hpeer, List.mem_cons_of_mem _ hsent⟩

/-- Every step keeps the invariant. -/
theorem Step.invariant (hC : C.Ideal) {w w' : World K} (hstep : Step C w w')
    (h : Invariant C w) : Invariant C w' := by
  cases hstep with
  | source env request hevent =>
    obtain ⟨outcome, s', hmove, hserve⟩ := w.source.serve_cases hC env request
    obtain ⟨-, hkeys, hsecret, -⟩ := hmove.frame
    rw [hserve]
    refine ⟨h.sound.push hmove, ?_, h.qr_secret.trans hsecret.symm, ?_⟩
    · rw [h.qr_pubkey]
      exact congrArg C.publicKey hkeys.symm
    · exact fun t ht => (h.joined t ht).push_source h.sound hmove
  | scan env keys hnone hnew =>
    refine ⟨h.sound, h.qr_pubkey, h.qr_secret, ?_⟩
    rintro t ht
    obtain rfl := Option.some.inj ht
    exact joined_newTarget hC h.qr_pubkey h.qr_secret hnew
  | @target t ht env request hevent =>
    obtain ⟨outcome, s', hmove, hserve⟩ := t.serve_cases hC env request
    have hjoined := h.joined t ht
    have hsame := hmove.sameExchange hjoined.started
    refine ⟨h.sound, h.qr_pubkey, h.qr_secret, ?_⟩
    rintro t' ht'
    rw [hserve] at ht'
    obtain rfl := Option.some.inj ht'
    refine ⟨hjoined.sound.push hmove, hsame.role.trans hjoined.role,
      (hmove.locked hjoined.started).1, hsame.peerPubkey.trans hjoined.peer,
      hsame.sessionSecret.trans hjoined.secret, ?_⟩
    intro event payloadType payload hmem
    change w.source.session.peerPubkey = some (C.publicKey s'.keys) ∧ _
    rw [hsame.keys]
    rcases List.mem_cons.mp hmem with hnew | hold
    · obtain ⟨rfl, rfl⟩ := Record.mk.inj hnew
      exact agreed_of_received hC h ht (hevent event rfl) hmove.handlePayload.2.2
    · exact hjoined.agreed hold

theorem invariant_of_run (hC : C.Ideal) {w w' : World K} (hrun : ReflTransGen (Step C) w w')
    (h : Invariant C w) : Invariant C w' := by
  induction hrun with
  | refl => exact h
  | tail _ hstep ih => exact hstep.invariant hC ih

end Preservation

/-! ### An undisturbed exchange -/

section Exchange

theorem Step.source_push {C : Crypto K} {w : World K} {env : Env} {request : Request}
    {reply : Reply} {s' : PairingSession K}
    (hcall : Yields (call C env request) w.source.session reply s')
    (hevent : ∀ event, request.event? = some event → event ∈ w.wire) :
    Step C w { w with source := w.source.push request (.ok reply) s' } := by
  have hserve : w.source.serve C env request = w.source.push request (.ok reply) s' := by
    rw [Party.serve, hcall]
  rw [← hserve]
  exact Step.source env request fun event h _ _ => hevent event h

theorem Step.target_push {C : Crypto K} {w : World K} {t : Party K} {env : Env} {request : Request}
    {reply : Reply} {s' : PairingSession K} (ht : w.target = some t)
    (hcall : Yields (call C env request) t.session reply s')
    (hevent : ∀ event, request.event? = some event → event ∈ w.wire) :
    Step C w { w with target := some (t.push request (.ok reply) s') } := by
  have hserve : t.serve C env request = t.push request (.ok reply) s' := by
    rw [Party.serve, hcall]
  rw [← hserve]
  exact Step.target ht env request fun event h _ _ => hevent event h

/-- The target has accepted a payload. -/
def World.PayloadAccepted (w : World K) : Prop :=
  ∃ t event payloadType payload, w.target = some t ∧
    ⟨.handlePayload event, .ok (.payload payloadType payload)⟩ ∈ t.log

theorem exists_run_of_step {C : Crypto K} {w w₁ : World K} {P : World K → Prop}
    (hstep : Step C w w₁) (hrest : ∃ w', ReflTransGen (Step C) w₁ w' ∧ P w') :
    ∃ w', ReflTransGen (Step C) w w' ∧ P w' := by
  obtain ⟨w', hrun, hP⟩ := hrest
  exact ⟨w', hrun.head hstep, hP⟩

/-- When every call is made in its turn, the target accepts the payload of the source. -/
theorem Ready.exists_run {w : World Bytes32} {t : Party Bytes32} (ht : w.target = some t)
    (h : Ready w.source.session t.session)
    (hoffer : offerEvent w.source.session t.session ∈ t.published) :
    ∃ w', ReflTransGen (Step symbolic) w w' ∧ w'.PayloadAccepted := by
  obtain ⟨s₁, s₂, s₃, t₁, t₂, t₃, sas, hs₁, hs₂, ht₁, ht₂, hs₃, ht₃⟩ := h.calls
  have hwire : offerEvent w.source.session t.session ∈ w.wire := by
    rw [World.wire, ht]
    exact List.mem_append_right _ hoffer
  have hdelivered : ∀ {event : SignedEvent} {wire : List SignedEvent}, event ∈ wire →
      ∀ e, some event = some e → e ∈ wire := fun hmem _ he => Option.some.inj he ▸ hmem
  refine exists_run_of_step (Step.source_push hs₁ (hdelivered hwire)) ?_
  refine exists_run_of_step (Step.source_push hs₂ nofun) ?_
  refine exists_run_of_step (Step.target_push ht ht₁ (hdelivered List.mem_cons_self)) ?_
  refine exists_run_of_step (Step.target_push rfl ht₂ nofun) ?_
  refine exists_run_of_step (Step.source_push hs₃ nofun) ?_
  refine exists_run_of_step (Step.target_push rfl ht₃ (hdelivered List.mem_cons_self)) ?_
  exact ⟨_, ReflTransGen.refl, _, _, _, _, rfl, List.mem_cons_self⟩

/-- A target that scans the QR code of a source can pair with it. -/
theorem exists_run_payloadAccepted (a b secret : Bytes32) (relayUrl : String) :
    ∃ w, ReflTransGen (Step symbolic) (World.initial symbolic (turn 0) a secret relayUrl) w ∧
      w.PayloadAccepted := by
  have hnew := yields_newTarget (turn 1) b (World.initial symbolic (turn 0) a secret relayUrl).qr
  refine exists_run_of_step (Step.scan (turn 1) b rfl hnew) (Ready.exists_run rfl ?_ ?_)
  · exact ready_newTarget (turn 0) (turn 1) a b secret relayUrl
  · exact List.mem_singleton_self _

end Exchange

/-! ### Security -/

/-- What pairing is for: the source sends a payload only to the peer of the offer that the user
confirmed, the target accepts one only from a source that is paired with it, and each session
transfers at most one payload and stays finished. -/
structure Secure (C : Crypto K) (w : World K) : Prop where
  source_payload : ∀ {before : List Record} {payloadType : PayloadType} {payload : String}
    {event : SignedEvent},
    (⟨.sendPayload payloadType payload, .ok (.event event)⟩ :: before) <:+ w.source.log →
      ∃ peer, w.source.session.peerPubkey = some peer ∧ SasConfirmed before peer ∧
        BuiltFor C w.source.session.keys peer (.payload payloadType payload) event
  target_payload : ∀ {t : Party K}, w.target = some t →
    ∀ {before : List Record} {event : SignedEvent} {payloadType : PayloadType} {payload : String},
      (⟨.handlePayload event, .ok (.payload payloadType payload)⟩ :: before) <:+ t.log →
        TargetConfirmed C t.session before ∧
          w.source.session.peerPubkey = some (C.publicKey t.session.keys) ∧
          (∃ code, w.source.session.sasCode = some code ∧ t.session.sasCode = some code) ∧
          ⟨.sendPayload payloadType payload, .ok (.event event)⟩ ∈ w.source.log
  once : payloads w.source.log ≤ 1 ∧ ∀ t, w.target = some t → payloads t.log ≤ 1
  final : ∀ w', ReflTransGen (Step C) w w' →
    (w.source.session.state.Terminal → w'.source.session.state = w.source.session.state) ∧
      ∀ t, w.target = some t → t.session.state.Terminal →
        ∃ t', w'.target = some t' ∧ t'.session.state = t.session.state

section Security

variable {C : Crypto K} {w : World K}

/-- Two sessions that are paired with each other have one code. -/
theorem sasCode_eq (hC : C.Ideal) {s t : PairingSession K} (hs : Keyed C s) (ht : Keyed C t)
    (hspeer : s.peerPubkey = some (C.publicKey t.keys))
    (htpeer : t.peerPubkey = some (C.publicKey s.keys))
    (hsecret : t.sessionSecret = s.sessionSecret) :
    ∃ code, s.sasCode = some code ∧ t.sasCode = some code := by
  obtain ⟨speer, secdh, hsp, hsecdh, hscode⟩ := hs
  obtain ⟨tpeer, tecdh, htp, htecdh, htcode⟩ := ht
  obtain rfl := Option.some.inj (hspeer.symm.trans hsp)
  obtain rfl := Option.some.inj (htpeer.symm.trans htp)
  have hecdh : tecdh = secdh := Except.ok.inj (htecdh.symm.trans (hC.shared_symm hsecdh))
  rw [hecdh, hsecret] at htcode
  exact ⟨_, hscode, htcode⟩

/-- A finished session stays finished. -/
theorem Party.serve_of_terminal (hC : C.Ideal) (env : Env) (p : Party K) (request : Request)
    (hterminal : p.session.state.Terminal) :
    (p.serve C env request).session.state = p.session.state := by
  obtain ⟨outcome, s', hmove, hserve⟩ := p.serve_cases hC env request
  rw [hserve]
  exact congrArg PairingSession.state (hmove.of_terminal hterminal)

theorem source_final (hC : C.Ideal) {w' : World K} (hrun : ReflTransGen (Step C) w w')
    (hterminal : w.source.session.state.Terminal) :
    w'.source.session.state = w.source.session.state := by
  induction hrun with
  | refl => rfl
  | tail _ hstep ih =>
    cases hstep with
    | source env request _ =>
      exact (Party.serve_of_terminal hC env _ request (ih ▸ hterminal)).trans ih
    | scan env keys _ _ => exact ih
    | target _ env request _ => exact ih

theorem target_final (hC : C.Ideal) {w' : World K} (hrun : ReflTransGen (Step C) w w') {t : Party K}
    (ht : w.target = some t) (hterminal : t.session.state.Terminal) :
    ∃ t', w'.target = some t' ∧ t'.session.state = t.session.state := by
  induction hrun with
  | refl => exact ⟨t, ht, rfl⟩
  | tail _ hstep ih =>
    obtain ⟨t', ht', hstate⟩ := ih
    cases hstep with
    | source env request _ => exact ⟨t', ht', hstate⟩
    | scan env keys hnone _ => exact nomatch hnone.symm.trans ht'
    | @target t'' ht'' env request _ =>
      obtain rfl := Option.some.inj (ht'.symm.trans ht'')
      exact ⟨_, rfl, (Party.serve_of_terminal hC env t' request (hstate ▸ hterminal)).trans hstate⟩

/-- Every run of a source and a target that scans its QR code is secure. -/
theorem secure_of_run (hC : C.Ideal) (env : Env) (keys : K) (sessionSecret : Bytes32)
    (relayUrl : String)
    (hrun : ReflTransGen (Step C) (World.initial C env keys sessionSecret relayUrl) w) :
    Secure C w := by
  have h : Invariant C w := invariant_of_run hC hrun (invariant_initial sessionSecret relayUrl)
  refine ⟨h.sound.sent, ?_, ⟨h.sound.once, fun t ht => (h.joined t ht).sound.once⟩, ?_⟩
  · intro t ht before event payloadType payload hsuffix
    have hjoined := h.joined t ht
    have hmem := hsuffix.subset List.mem_cons_self
    obtain ⟨hpeer, hsent⟩ := hjoined.agreed hmem
    have hsource := h.sound.exchanged (Party.Sound.payloads_ne_zero hsent rfl)
    have htarget := hjoined.sound.exchanged (Party.Sound.payloads_ne_zero hmem rfl)
    exact ⟨hjoined.sound.accepted hsuffix, hpeer,
      sasCode_eq hC hsource htarget hpeer hjoined.peer hjoined.secret, hsent⟩
  · intro w' hlater
    exact ⟨source_final hC hlater, fun t => target_final hC hlater⟩

theorem secure_of_run_exchange :
    ∃ w, ReflTransGen (Step symbolic) (World.initial symbolic (turn 0) 5 9 "wss://relay.test") w ∧
      w.PayloadAccepted ∧ Secure symbolic w := by
  obtain ⟨w, hrun, haccepted⟩ := exists_run_payloadAccepted 5 7 9 "wss://relay.test"
  exact ⟨w, hrun, haccepted, secure_of_run symbolic_ideal (turn 0) 5 9 "wss://relay.test" hrun⟩

end Security

end Buzz.Core.Pairing
