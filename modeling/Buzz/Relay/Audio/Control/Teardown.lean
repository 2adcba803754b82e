import Buzz.Relay.Audio.Control.Loop

/-!
# Teardown of a control stream

When `serve_control_loop` is left, the peers that it has registered are dropped from the room of the
huddle. A peer escapes this in two ways. The registered peers are kept by pubkey, so that a second
registration of a pubkey hides the peer of the first one, which no unregistration and no teardown
reaches any more. And a roster message that cannot be written returns from the call at once, past
the teardown.

## Main definitions

* `Careful`: a step that takes neither way.
* `Held`: who is in the room is registered, as long as the call is not over.

## Main results

* `Held.step`: a careful step keeps the invariant.
* `teardown_releases`: a call of careful steps leaves none of its peers in the room.
* `teardown_leaks`: a run for each of the two ways.
-/

namespace Buzz.Relay.Audio.Control

open Buzz.Core Buzz.Library Relation

variable {sessionId : Uuid} {s s' : Serving}

/-! ### Peers of a room -/

/-- Who is in a room after a call was there before, or is new. -/
theorem mem_apply {room : Room} {op : Op} {peerId : Uuid}
    (h : peerId ∈ (room.apply op).2.peers) : newPeerId op = some peerId ∨ peerId ∈ room.peers := by
  have hattempt : ∀ {peerId' pubkey v result}, room.Attempts peerId' pubkey v result →
      peerId ∈ result.2.peers → peerId = peerId' ∨ peerId ∈ room.peers := by
    rintro peerId' pubkey v result (⟨e, rfl⟩ | ⟨-, -, idx, guard, rfl, -⟩) hmem
    · exact .inr hmem
    · exact Room.mem_insertPeer.mp hmem
  cases op with
  | addPeer peerId' pubkey v =>
    exact (hattempt (room.attempts_addPeer peerId' pubkey v) h).imp_left fun heq =>
      congrArg some heq.symm
  | addPeerAtIndex peerId' pubkey v idx =>
    exact (hattempt (room.attempts_addPeerAtIndex peerId' pubkey v idx) h).imp_left fun heq =>
      congrArg some heq.symm
  | removePeer peerId' => exact .inr (Room.mem_removePeer.mp h).2
  | removePeerAndCheckEnded peerId' => exact .inr (Room.mem_removePeerAndCheckEnded.mp h).2
  | markEnded | clearEnded | rosterSnapshot => exact .inr h

namespace RoomsStep

variable {fresh : Uuid → Prop} {pod pod' : Pod}

/-- Who is in a room was there before, or is fresh. -/
theorem mem (h : RoomsStep fresh pod pod') {i : ℕ} {room' : Room} {peerId : Uuid}
    (hroom : pod'.room? i = some room') (hpeer : peerId ∈ room'.peers) :
    fresh peerId ∨ ∃ room, pod.room? i = some room ∧ peerId ∈ room.peers := by
  rcases h.room i with hsame | ⟨-, hnew⟩ | ⟨op, room, hbefore, -, hfresh, hafter⟩
  · exact .inr ⟨room', hsame ▸ hroom, hpeer⟩
  · obtain rfl := Option.some.inj (hroom.symm.trans hnew)
    exact absurd hpeer (AList.notMem_empty peerId)
  · obtain rfl := Option.some.inj (hroom.symm.trans hafter)
    exact (mem_apply hpeer).imp (hfresh peerId) fun hmem => ⟨room, hbefore, hmem⟩

/-- A room that was there is not registered anew. -/
theorem lookup_of (h : RoomsStep fresh pod pod') {key : RoomKey} {i : ℕ} {room : Room}
    (hroom : pod.room? i = some room) (hkey : pod'.rooms.lookup key = some i) :
    pod.rooms.lookup key = some i := by
  cases h with
  | refl => exact hkey
  | getOrCreate key' =>
    rw [Pod.getOrCreate] at hkey
    split at hkey
    · exact hkey
    · rw [HashMap.lookup_insert_eq] at hkey
      split_ifs at hkey
      · obtain rfl := Option.some.inj hkey
        rw [Pod.room?, List.getElem?_eq_none le_rfl] at hroom
        cases hroom
      · exact hkey
  | cleanupIfEmpty key' =>
    rw [Pod.cleanupIfEmpty] at hkey
    split at hkey
    · split_ifs at hkey
      · rw [HashMap.lookup_erase_eq] at hkey
        split_ifs at hkey
        exact hkey
      · exact hkey
    · exact hkey
  | call => exact hkey

end RoomsStep

/-! ### The invariant -/

/-- A step that leaks nobody. A peer that is let in has a pubkey that is not registered yet, and a
roster message that cannot be written finds nobody registered. -/
structure Careful (s s' : Serving) : Prop where
  register : s'.admitted ≠ s.admitted → ∀ i rx pubkey protocolVersion,
    s.phase = .validating i rx pubkey protocolVersion → pubkey ∉ s.registered
  write : ∀ msg, s.phase = .sending msg → s'.phase = .returned → s.registered = ∅

/-- A peer of the stream is still in the room that the manager has for the huddle. -/
def Serving.Present (s : Serving) (sessionId : Uuid) (p : ℕ × Uuid) : Prop :=
  s.get sessionId = some p.1 ∧ ∃ room, s.pod.room? p.1 = some room ∧ p.2 ∈ room.peers

/-- Nobody who was let in through the stream is still in the room of the huddle. -/
def Serving.Released (s : Serving) (sessionId : Uuid) : Prop :=
  ∀ p ∈ s.admitted, ¬s.Present sessionId p

/-- A phase before the teardown has dropped anybody, or of a teardown in the right room. -/
def Phase.Keeps (phase : Phase) (i : ℕ) : Prop :=
  phase ≠ .returned ∧ ∀ room, phase = .dropping room → room = some i

/-- Who is in the room is registered, and the call is not over. -/
structure Held (sessionId : Uuid) (s : Serving) : Prop where
  latched : s.streamCommunity = none → s.admitted = [] ∧
    ∀ i rx pubkey protocolVersion, s.phase ≠ .validating i rx pubkey protocolVersion ∧
      s.phase ≠ .subscribing i pubkey protocolVersion
  held : ∀ p ∈ s.admitted, s.Present sessionId p →
    (∃ pubkey, s.registered.lookup pubkey = some p.2) ∧ s.phase.Keeps p.1

namespace Held

/-- The loop moves on, and keeps whom it has registered. -/
theorem move (h : Held sessionId s) (hadmitted : s'.admitted = s.admitted)
    (hcommunity : s'.streamCommunity = s.streamCommunity)
    (hregistered : s'.registered = s.registered)
    (hpresent : ∀ p ∈ s.admitted, s'.Present sessionId p → s.Present sessionId p)
    (hlatched : s.streamCommunity = none → ∀ i rx pubkey protocolVersion,
      s'.phase ≠ .validating i rx pubkey protocolVersion ∧
        s'.phase ≠ .subscribing i pubkey protocolVersion)
    (hphase : ∀ p ∈ s.admitted, s.Present sessionId p → s.phase.Keeps p.1 →
      (∃ pubkey, s.registered.lookup pubkey = some p.2) → s'.phase.Keeps p.1) :
    Held sessionId s' := by
  refine ⟨fun hnone => ?_, fun p hp hpeer => ?_⟩
  · rw [hcommunity] at hnone
    exact ⟨hadmitted ▸ (h.latched hnone).1, hlatched hnone⟩
  · rw [hadmitted] at hp
    have hbefore := hpresent p hp hpeer
    obtain ⟨hpubkey, hkeeps⟩ := h.held p hp hbefore
    exact ⟨hregistered ▸ hpubkey, hphase p hp hbefore hkeeps hpubkey⟩

/-- The loop moves on in the same rooms. -/
theorem quiet (h : Held sessionId s) {phase : Phase} {rosterRx : Option (ℕ × ℕ)}
    {sent : List Outgoing} (hlatched : s.streamCommunity = none → ∀ i rx pubkey protocolVersion,
      phase ≠ .validating i rx pubkey protocolVersion ∧
        phase ≠ .subscribing i pubkey protocolVersion)
    (hphase : ∀ p ∈ s.admitted, s.Present sessionId p → s.phase.Keeps p.1 →
      (∃ pubkey, s.registered.lookup pubkey = some p.2) → phase.Keeps p.1) :
    Held sessionId { s with phase := phase, rosterRx := rosterRx, sent := sent } :=
  h.move rfl rfl rfl (fun _ _ hpeer => hpeer) hlatched hphase

/-- Somebody who is in the room after a step was there before. -/
theorem present_of {p : ℕ × Uuid} (hpeer : s'.Present sessionId p) (hp : p ∈ s.admitted)
    (hrooms : RoomsStep s.Fresh s.pod s'.pod)
    (hcommunity : s'.streamCommunity = s.streamCommunity) : s.Present sessionId p := by
  obtain ⟨hget, room', hroom', hmem⟩ := hpeer
  rcases hrooms.mem hroom' hmem with hfresh | ⟨room, hroom, hmem⟩
  · exact absurd rfl (hfresh.2 p hp)
  · refine ⟨?_, room, hroom, hmem⟩
    obtain ⟨community, hsome, hkey⟩ := Option.bind_eq_some_iff.mp hget
    exact Option.bind_eq_some_iff.mpr
      ⟨community, hcommunity ▸ hsome, hrooms.lookup_of hroom hkey⟩

/-- A registered peer is dropped from the room of the huddle. -/
theorem drop (h : Held sessionId s) {room : Option ℕ}
    (hroom : ∀ p ∈ s.admitted, s.Present sessionId p → room = some p.1) (pubkey : List Char) :
    Held sessionId (s.drop room pubkey) := by
  have hrooms := rooms_drop s room pubkey
  rw [Serving.drop] at hrooms ⊢
  split
  · exact h
  next peerId hpeerId =>
    rw [hpeerId] at hrooms
    refine ⟨h.latched, fun p hp hpeer => ?_⟩
    have hbefore : s.Present sessionId p := present_of hpeer hp hrooms rfl
    obtain rfl := hroom p hp hbefore
    obtain ⟨⟨pubkey', hpubkey'⟩, hkeeps⟩ := h.held p hp hbefore
    refine ⟨⟨pubkey', ?_⟩, hkeeps⟩
    rw [HashMap.lookup_erase_eq, if_neg, hpubkey']
    rintro rfl
    -- The peer itself was dropped.
    obtain rfl := Option.some.inj (hpeerId.symm.trans hpubkey')
    obtain ⟨-, room', hroom', hmem⟩ := hpeer
    rw [RoomsStep.room?_modifyRoom, if_pos rfl] at hroom'
    obtain ⟨room, -, rfl⟩ := Option.map_eq_some_iff.mp hroom'
    exact (Room.mem_removePeer.mp hmem).1 rfl

theorem keeps_ending (reason : Option GoodbyeReason) (i : ℕ) : (Phase.ending reason).Keeps i :=
  ⟨nofun, nofun⟩

/-- The loop is left. -/
theorem leave (h : Held sessionId s) (reason : Option GoodbyeReason) :
    Held sessionId { s with phase := .ending reason } :=
  h.quiet (fun _ _ _ _ _ => ⟨nofun, nofun⟩) fun _ _ _ _ _ => keeps_ending reason _

theorem snapshot (h : Held sessionId s) : Held sessionId (s.snapshot sessionId) := by
  rw [Serving.snapshot]
  split
  · exact h.quiet (fun _ _ _ _ _ => ⟨nofun, nofun⟩) fun _ _ _ _ _ => ⟨nofun, nofun⟩
  · exact h.leave none

/-- A stream that has let nobody in yet. -/
theorem of_nil (hnil : s.admitted = []) (hcommunity : s.streamCommunity ≠ none) :
    Held sessionId s := by
  refine ⟨fun hnone => absurd hnone hcommunity, fun p hp => ?_⟩
  rw [hnil] at hp
  exact absurd hp List.not_mem_nil

theorem eq_of_latched {latched communityId : CommunityId}
    (hcommunity : s.streamCommunity = some latched)
    (hother : ¬s.streamCommunity.any (fun latched => latched ≠ communityId) = true) :
    latched = communityId := by
  rw [hcommunity, Option.any_some, decide_eq_true_iff, not_not] at hother
  exact hother

theorem registerPeer (h : Held sessionId s) (draining : Bool) (communityId : CommunityId)
    (pubkey : List Char) (protocolVersion : ℕ) :
    Held sessionId (s.registerPeer sessionId draining communityId pubkey protocolVersion) := by
  rw [Serving.registerPeer]
  split_ifs with hother hdraining
  · exact h.leave none
  · cases hcommunity : s.streamCommunity with
    | none => exact .of_nil (h.latched hcommunity).1 (by rintro ⟨⟩)
    | some latched =>
      obtain rfl := eq_of_latched hcommunity hother
      exact h.move rfl hcommunity.symm rfl
        (fun p hp hpeer => present_of hpeer hp .refl hcommunity.symm)
        (fun _ _ _ _ _ => ⟨by rintro ⟨⟩, by rintro ⟨⟩⟩) fun _ _ _ _ _ => keeps_ending _ _
  · cases hcommunity : s.streamCommunity with
    | none => exact .of_nil (h.latched hcommunity).1 (by rintro ⟨⟩)
    | some latched =>
      obtain rfl := eq_of_latched hcommunity hother
      refine h.move rfl hcommunity.symm rfl
        (fun p hp hpeer => present_of hpeer hp (.getOrCreate _) hcommunity.symm)
        (fun hnone => by cases hcommunity.symm.trans hnone) fun _ _ _ _ _ =>
          ⟨by rintro ⟨⟩, by rintro _ ⟨⟩⟩

theorem receive (h : Held sessionId s) (draining : Bool) (frame : Incoming) :
    Held sessionId (s.receive sessionId draining frame) := by
  cases frame with
  | control msg =>
    cases msg with
    | registerPeer communityId pubkey protocolVersion =>
      exact h.registerPeer draining communityId pubkey protocolVersion
    | unregisterPeer pubkey => exact h.drop (fun p _ hpeer => hpeer.1) pubkey
    | rosterResync => exact h.snapshot
    | peerRegistered | rosterSnapshot | rosterDelta | registerRejected => exact h.leave none
  | misfenced | undecodable | unexpected | goodbye | closed | failed => exact h.leave none

theorem validated (h : Held sessionId s) {room : Room} {i rx : ℕ} {pubkey : List Char}
    {protocolVersion : ℕ} {peerId : Uuid}
    (hphase : s.phase = .validating i rx pubkey protocolVersion) (hfresh : s.Fresh peerId)
    (fence : Fence) (hcareful :
      (s.validated room i rx pubkey protocolVersion peerId fence).admitted ≠ s.admitted →
        pubkey ∉ s.registered) :
    Held sessionId (s.validated room i rx pubkey protocolVersion peerId fence) := by
  have hreply : ∀ reason, Held sessionId { s with
      phase := .replying (.registerRejected pubkey reason) none } := fun reason =>
    h.quiet (fun _ _ _ _ _ => ⟨by rintro ⟨⟩, by rintro ⟨⟩⟩) fun _ _ _ _ _ =>
      ⟨by rintro ⟨⟩, by rintro _ ⟨⟩⟩
  cases fence with
  | ok =>
    have hrooms : RoomsStep s.Fresh s.pod
        (s.validated room i rx pubkey protocolVersion peerId .ok).pod := rooms_validated hfresh .ok
    rw [Serving.validated] at hcareful hrooms ⊢
    split
    next peerIndex hok =>
      rw [hok] at hcareful hrooms
      have hpubkey : s.registered.lookup pubkey = none :=
        AList.lookup_eq_none.mpr (hcareful fun heq => by simpa using congrArg List.length heq)
      refine ⟨fun hnone => absurd hphase ((h.latched hnone).2 i rx pubkey protocolVersion).1,
        fun p hp hpeer => ⟨?_, by rintro ⟨⟩, by rintro _ ⟨⟩⟩⟩
      rcases List.mem_append.mp hp with hp | hp
      · obtain ⟨⟨pubkey', hpubkey'⟩, -⟩ := h.held p hp (present_of hpeer hp hrooms rfl)
        refine ⟨pubkey', ?_⟩
        rw [HashMap.lookup_insert_eq, if_neg, hpubkey']
        rintro rfl
        cases hpubkey.symm.trans hpubkey'
      · obtain rfl := List.mem_singleton.mp hp
        exact ⟨pubkey, (HashMap.lookup_insert_eq ..).trans (if_pos rfl)⟩
    next => exact hreply _
  | rejected reason => exact hreply _
  | failed => exact h.leave none

theorem step (h : Held sessionId s) (hstep : Step sessionId s s') (hcareful : Careful s s') :
    Held sessionId s' := by
  have hplain : ∀ _ : s.streamCommunity = none, ∀ i rx pubkey protocolVersion,
      s.phase ≠ .validating i rx pubkey protocolVersion ∧
        s.phase ≠ .subscribing i pubkey protocolVersion := fun hnone => (h.latched hnone).2
  cases hstep with
  | others pod' hrooms =>
    exact h.move rfl rfl rfl (fun p hp hpeer => present_of hpeer hp hrooms rfl) hplain
      fun _ _ _ hkeeps _ => hkeeps
  | request | read | readFails =>
    exact h.move rfl rfl rfl (fun _ _ hpeer => hpeer) hplain fun _ _ _ hkeeps _ => hkeeps
  | receive frame draining hphase =>
    have hserved : Held sessionId { s with served := s.served + 1 } :=
      h.move rfl rfl rfl (fun _ _ hpeer => hpeer) hplain fun _ _ _ hkeeps _ => hkeeps
    exact hserved.receive draining frame
  | signalled reason => exact h.leave _
  | unsubscribed | replyFails => exact h.leave none
  | delta | registered | snapshot | replied | sent | goodbye =>
    exact h.quiet (fun _ _ _ _ _ => ⟨nofun, nofun⟩) fun _ _ _ _ _ => ⟨nofun, nofun⟩
  | lagged i rx rx' room hphase =>
    have hjump : Held sessionId { s with rosterRx := some (i, rx') } :=
      h.move rfl rfl rfl (fun _ _ hpeer => hpeer) hplain fun _ _ _ hkeeps _ => hkeeps
    exact hjump.snapshot
  | subscribe i room pubkey protocolVersion hphase =>
    refine h.quiet (fun hnone => ?_) fun _ _ _ _ _ => ⟨nofun, nofun⟩
    exact absurd hphase ((h.latched hnone).2 i 0 pubkey protocolVersion).2
  | validated i rx room pubkey protocolVersion peerId fence hphase hroom hfresh =>
    exact h.validated hphase hfresh fence fun hadmitted =>
      hcareful.register hadmitted i rx pubkey protocolVersion hphase
  | sendFails msg hphase =>
    refine h.quiet (fun _ _ _ _ _ => ⟨nofun, nofun⟩) fun _ _ _ _ ⟨pubkey, hpubkey⟩ => ?_
    rw [hcareful.write msg hphase rfl] at hpubkey
    cases hpubkey
  | ended reason =>
    refine h.quiet (fun _ _ _ _ _ => ⟨nofun, nofun⟩) fun p _ hpeer _ _ => ⟨nofun, ?_⟩
    rintro _ ⟨⟩
    exact hpeer.1
  | dropPeer room pubkey hphase =>
    exact h.drop (fun p hp hpeer => (h.held p hp hpeer).2.2 room hphase) pubkey
  | returns room hphase hdropped =>
    refine h.quiet (fun _ _ _ _ _ => ⟨nofun, nofun⟩) fun _ _ _ hkeeps ⟨pubkey, hpubkey⟩ => ?_
    obtain rfl := hkeeps.2 room hphase
    rw [hdropped rfl] at hpubkey
    cases hpubkey

theorem new (pod : Pod) : Held sessionId (.new pod) :=
  ⟨fun _ => ⟨rfl, fun _ _ _ _ => ⟨nofun, nofun⟩⟩, fun _ hp => absurd hp List.not_mem_nil⟩

end Held

/-! ### Runs -/

/-- A run of careful steps. -/
def CarefulRun (sessionId : Uuid) : Serving → Serving → Prop :=
  ReflTransGen fun s s' => Step sessionId s s' ∧ Careful s s'

theorem Careful.of_admitted (hadmitted : s'.admitted = s.admitted)
    (hphase : ∀ msg, s.phase ≠ .sending msg) : Careful s s' :=
  ⟨fun hne => absurd hadmitted hne, fun msg hmsg => absurd hmsg (hphase msg)⟩

theorem CarefulRun.run (hrun : CarefulRun sessionId s s') : Run sessionId s s' :=
  ReflTransGen.mono (fun _ _ h => h.1) _ _ hrun

theorem CarefulRun.held {pod : Pod} (hrun : CarefulRun sessionId (.new pod) s) :
    Held sessionId s := by
  induction hrun with
  | refl => exact .new pod
  | tail _ hstep ih => exact ih.step hstep.1 hstep.2

/-- When the call is over, nobody whom it let in is still in the room of the huddle. -/
theorem teardown_releases {pod : Pod} (hrun : CarefulRun sessionId (.new pod) s)
    (hphase : s.phase = .returned) : s.Released sessionId :=
  fun p hp hpeer => (hrun.held.held p hp hpeer).2.1 hphase

/-! ### Two leaks -/

namespace Serving

/-- The next frame comes in, and the loop takes it. -/
def take (s : Serving) (frame : Incoming) : Serving :=
  { s with requests := s.requests ++ [frame], served := s.served + 1 }.receive 9 false frame

variable (s : Serving) (room : Room) (peerId : Uuid) (peerIndex : ℕ)

def validating : Serving :=
  { s with phase := .validating 0 room.rosterTx.length "a".toList 2 }

/-- The fence lets a peer in. -/
def letIn : Serving :=
  (s.validating room).validated room 0 room.rosterTx.length "a".toList 2 peerId .ok

/-- The answer to the registration. -/
def registration : HuddleControlMsg :=
  .peerRegistered "a".toList peerIndex (room.addPeer peerId "a".toList 2).2.rosterSnapshot

def replying : Serving :=
  { s.letIn room peerId with
    phase := .replying (registration room peerId peerIndex) (some (0, room.rosterTx.length)) }

/-- The registration is answered. -/
def answered : Serving :=
  { s.replying room peerId peerIndex with rosterRx := some (0, room.rosterTx.length) }.write
    (.control (registration room peerId peerIndex)) .ready

theorem careful_take (s : Serving) (frame : Incoming) (hphase : s.phase = .ready)
    (hserved : s.served = s.requests.length)
    (hadmitted : (s.take frame).admitted = s.admitted) : CarefulRun 9 s (s.take frame) := by
  have hnext : (s.requests ++ [frame])[s.served]? = some frame := by
    rw [hserved]
    exact List.getElem?_concat_length
  have hready : ∀ msg, s.phase ≠ .sending msg := fun _ hmsg => nomatch hphase.symm.trans hmsg
  have hrequest : Step 9 s { s with requests := s.requests ++ [frame] } := .request frame
  have htake : Step 9 { s with requests := s.requests ++ [frame] } (s.take frame) :=
    .receive (s := { s with requests := s.requests ++ [frame] }) frame false hphase hnext
  exact (ReflTransGen.single ⟨hrequest, .of_admitted rfl hready⟩).tail
    ⟨htake, .of_admitted hadmitted hready⟩

/-- The steps of a registration. -/
theorem steps_answered (hphase : s.phase = .subscribing 0 "a".toList 2)
    (hroom : s.pod.room? 0 = some room) (hfresh : s.Fresh peerId)
    (hok : (room.addPeer peerId "a".toList 2).1 = .ok peerIndex) :
    Step 9 s (s.validating room) ∧ Step 9 (s.validating room) (s.letIn room peerId) ∧
      Step 9 (s.letIn room peerId) (s.replying room peerId peerIndex) ∧
      Step 9 (s.replying room peerId peerIndex) (s.answered room peerId peerIndex) ∧
      (s.letIn room peerId).phase = .admitted 0 room.rosterTx.length "a".toList peerIndex := by
  have hadmitted : (s.letIn room peerId).phase =
      .admitted 0 room.rosterTx.length "a".toList peerIndex := by
    simp only [letIn, validated, hok]
  have hroom' : (s.letIn room peerId).pod.room? 0 = some (room.addPeer peerId "a".toList 2).2 := by
    simp only [letIn, validated, hok, validating]
    rw [RoomsStep.room?_modifyRoom, if_pos rfl, hroom, Option.map_some]
  exact ⟨.subscribe 0 room _ 2 hphase hroom, .validated 0 _ room _ _ peerId .ok rfl hroom hfresh,
    .registered 0 _ _ _ peerIndex hadmitted hroom',
    .replied _ (some (0, room.rosterTx.length)) rfl, hadmitted⟩

theorem careful_answered (hphase : s.phase = .subscribing 0 "a".toList 2)
    (hroom : s.pod.room? 0 = some room) (hfresh : s.Fresh peerId)
    (hok : (room.addPeer peerId "a".toList 2).1 = .ok peerIndex)
    (hnew : "a".toList ∉ s.registered) : CarefulRun 9 s (s.answered room peerId peerIndex) := by
  obtain ⟨hsubscribe, hletIn, hreply, hanswer, hadmitted⟩ :=
    s.steps_answered room peerId peerIndex hphase hroom hfresh hok
  have hcareful : Careful (s.validating room) (s.letIn room peerId) := by
    refine ⟨fun _ i rx pubkey version hvalidating => ?_, nofun⟩
    obtain ⟨-, -, rfl, -⟩ := Phase.validating.inj hvalidating
    exact hnew
  exact (((ReflTransGen.single ⟨hsubscribe, .of_admitted rfl fun _ hmsg => nomatch
    hphase.symm.trans hmsg⟩).tail ⟨hletIn, hcareful⟩).tail ⟨hreply, .of_admitted rfl fun _ hmsg =>
    nomatch hadmitted.symm.trans hmsg⟩).tail ⟨hanswer, .of_admitted rfl nofun⟩

theorem run_answered (hphase : s.phase = .subscribing 0 "a".toList 2)
    (hroom : s.pod.room? 0 = some room) (hfresh : s.Fresh peerId)
    (hok : (room.addPeer peerId "a".toList 2).1 = .ok peerIndex) :
    Run 9 s (s.answered room peerId peerIndex) := by
  obtain ⟨hsubscribe, hletIn, hreply, hanswer, -⟩ :=
    s.steps_answered room peerId peerIndex hphase hroom hfresh hok
  exact (((ReflTransGen.single hsubscribe).tail hletIn).tail hreply).tail hanswer

end Serving

/-- A stream that registers a pubkey. -/
def one : Serving :=
  ((Serving.new .new).take (.control (.registerPeer 7 "a".toList 2))).answered .new 1 0

theorem fresh_of_instances {inst : Instance} (hinstances : s.pod.instances = [inst])
    {peerId : Uuid} (hroom : peerId ∉ inst.room.peers)
    (hadmitted : ∀ p ∈ s.admitted, p.2 ≠ peerId) : s.Fresh peerId := by
  refine ⟨fun i room hi => ?_, hadmitted⟩
  rw [Pod.room?, hinstances, List.getElem?_singleton] at hi
  split_ifs at hi
  · obtain rfl := Option.some.inj hi
    exact hroom
  · cases hi

theorem run_one : CarefulRun 9 (.new .new) one := by
  have hfresh : ((Serving.new .new).take (.control (.registerPeer 7 "a".toList 2))).Fresh 1 :=
    fresh_of_instances rfl (AList.notMem_empty 1) (by decide)
  exact (Serving.careful_take _ _ rfl rfl rfl).trans
    (Serving.careful_answered _ _ _ _ rfl rfl hfresh rfl (AList.notMem_empty _))

/-- The stream is closed, and drops its peer. -/
def gone : Serving :=
  { ({ one.take .closed with phase := .dropping (some 0) } : Serving).drop (some 0) "a".toList with
    phase := .returned }

theorem teardown_releases_gone : gone.admitted = [(0, 1)] ∧ gone.Released 9 := by
  have hended : Step 9 (one.take .closed) { one.take .closed with phase := .dropping (some 0) } :=
    .ended none rfl
  have hdrop : Step 9 { one.take .closed with phase := .dropping (some 0) }
      (({ one.take .closed with phase := .dropping (some 0) } : Serving).drop (some 0)
        "a".toList) := .dropPeer _ _ rfl rfl
  have hreturns : Step 9 _ gone := .returns (some 0) rfl fun _ => rfl
  refine ⟨rfl, teardown_releases (((((run_one.trans (Serving.careful_take _ _ rfl rfl rfl)).tail
    ⟨hended, .of_admitted rfl nofun⟩).tail ⟨hdrop, .of_admitted rfl nofun⟩)).tail
    ⟨hreturns, .of_admitted rfl nofun⟩) rfl⟩

/-- The write of a snapshot fails. -/
def cut : Serving := { one.take (.control .rosterResync) with phase := .returned }

theorem run_cut : Run 9 (.new .new) cut := by
  have htake := (Serving.careful_take one (.control .rosterResync) rfl rfl rfl).run
  have hsnapshot : Step 9 (one.take (.control .rosterResync)) { one.take (.control .rosterResync)
      with phase := .sending (rosterSnapshotMsg (Room.new.addPeer 1 "a".toList 2).2) } :=
    .snapshot 0 _ rfl rfl
  exact ((run_one.run.trans htake).tail hsnapshot).tail (.sendFails _ rfl)

/-- The pubkey is registered again. -/
def two : Serving :=
  (one.take (.control (.registerPeer 7 "a".toList 2))).answered
    (Room.new.addPeer 1 "a".toList 2).2 2 1

theorem run_two : Run 9 (.new .new) two := by
  have hfresh : (one.take (.control (.registerPeer 7 "a".toList 2))).Fresh 2 :=
    fresh_of_instances rfl (by decide) (by decide)
  exact (run_one.run.trans (Serving.careful_take _ _ rfl rfl rfl).run).trans
    (Serving.run_answered _ _ _ _ rfl rfl hfresh rfl)

/-- The stream is closed, and drops who is registered. -/
def dropping : Serving := { two.take .closed with phase := .dropping (some 0) }

def closed : Serving := { dropping.drop (some 0) "a".toList with phase := .returned }

theorem run_closed : Run 9 (.new .new) closed := by
  have hended : Step 9 (two.take .closed) dropping := .ended none rfl
  have hdrop : Step 9 dropping (dropping.drop (some 0) "a".toList) := .dropPeer _ _ rfl rfl
  have hreturns : Step 9 (dropping.drop (some 0) "a".toList) closed :=
    .returns (some 0) rfl fun _ => rfl
  exact ((((run_two).trans (Serving.careful_take _ _ rfl rfl rfl).run).tail hended).tail
    hdrop).tail hreturns

/-- A write that fails, and a pubkey that is registered twice: the first peer stays in the room. -/
theorem teardown_leaks :
    (Run 9 (.new .new) cut ∧ cut.phase = .returned ∧ ¬cut.Released 9) ∧
      Run 9 (.new .new) closed ∧ closed.phase = .returned ∧ ¬closed.Released 9 := by
  refine ⟨⟨run_cut, rfl, fun h => ?_⟩, run_closed, rfl, fun h => ?_⟩
  · exact h (0, 1) (by decide) ⟨rfl, _, rfl, by decide⟩
  · exact h (0, 1) (by decide) ⟨rfl, _, rfl, by decide⟩

end Buzz.Relay.Audio.Control
