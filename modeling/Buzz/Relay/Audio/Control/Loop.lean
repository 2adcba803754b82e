import Buzz.Relay.Audio.Huddle

/-!
# The control stream of a remote pod

`serve_control_loop` of `crates/buzz-relay/src/audio/join.rs`, on the pod that owns a huddle, and
`read_owner_control` on the pod that dialled it, with the stream between them. A direction of the
stream is the list of what was sent, and how much of it was received: frames are neither lost nor
reordered.

The loop is one task, and other tasks run whenever it awaits, or take a lock between two of its
own calls: they ask the manager for rooms, have it remove empty ones, and call rooms. So the loop is
in a phase, and a step of it is what it does between two such points. The roster of a room goes out
through a broadcast channel, whose receiver is a position among the deltas that were sent. A
receiver that falls behind is told so and jumps ahead; how far behind it may fall is left open.

Encoding a control message cannot fail. The sink of a remote peer, the `joined` and `left` messages
to the clients, and logging are left out.

## Main definitions

* `HuddleControlMsg`, `Incoming`, `Outgoing`: the frames of the two directions.
* `Phase`, `Serving`: the loop, the rooms, the stream and the reader.
* `Serving.receive`, `Reader.receive`: what a frame does.
* `RoomsStep`: what a task does to the rooms.
* `Step`, `Run`: the steps.

## Main results

* `RoomsStep.room`: what becomes of one room.
* `Step.rooms`: a step of the system is one of the rooms.
-/

namespace Buzz.Relay.Audio.Control

open Buzz.Core Buzz.Library Relation

/-! ### Frames -/

/-- The fence-rejection reasons. -/
inductive FenceRejection
  | staleGeneration
  | noActiveLease
  | ownerMismatch
  | futureGeneration
  deriving DecidableEq

/-- Why an owner refused a remote-peer registration. -/
inductive RegisterRejection
  | roomFull
  | roomEnded
  | versionMismatch (pinned requested : ℕ)
  | fenced (reason : FenceRejection)
  deriving DecidableEq

/-- Map a room admission failure to the wire rejection taxonomy. -/
def admissionToRejection : AdmissionError → RegisterRejection
  | .full => .roomFull
  | .ended => .roomEnded
  | .versionMismatch pinned requested => .versionMismatch pinned requested

inductive HuddleControlMsg
  | registerPeer (communityId : CommunityId) (pubkey : List Char) (protocolVersion : ℕ)
  | peerRegistered (pubkey : List Char) (peerIndex : ℕ) (roster : RosterSnapshot)
  | rosterSnapshot (revision : UInt64) (peers : List RosterPeer)
  | rosterDelta (revision : UInt64) (joined left : Option RosterPeer)
  | rosterResync
  | registerRejected (pubkey : List Char) (reason : RegisterRejection)
  | unregisterPeer (pubkey : List Char)
  deriving DecidableEq

def rosterSnapshotMsg (room : Room) : HuddleControlMsg :=
  .rosterSnapshot room.rosterSnapshot.revision room.rosterSnapshot.peers

def rosterDeltaMsg (delta : RosterDelta) : HuddleControlMsg :=
  .rosterDelta delta.revision delta.joined delta.left

inductive GoodbyeReason
  | draining
  | staleGeneration
  | sessionEnded
  deriving DecidableEq

/-- What the owner receives: a control message, a frame under another fenced header, a payload that
does not decode, a frame of another kind, the end of the stream, or an error of the transport. -/
inductive Incoming
  | control (msg : HuddleControlMsg)
  | misfenced
  | undecodable
  | unexpected
  | goodbye
  | closed
  | failed
  deriving DecidableEq

/-- What the owner sends. -/
inductive Outgoing
  | control (msg : HuddleControlMsg)
  | goodbye (reason : GoodbyeReason)
  deriving DecidableEq

/-- What the fence of a registration says. -/
inductive Fence
  | ok
  | rejected (reason : FenceRejection)
  | failed
  deriving DecidableEq

/-! ### State -/

/-- Where the loop is.

* `ready`: it selects among its signals, the roster and the next frame.
* `subscribing`, `validating`, `admitted`, `replying`: a registration asked for its room, subscribed
  to the roster, got its peer in, and has a reply to write. `rx` is the subscription.
* `snapshotting`, `sending`: a snapshot is due, a roster message has to be written.
* `ending`, `dropping`, `returned`: the loop is left, the peers are dropped, the call is over. -/
inductive Phase
  | ready
  | subscribing (room : ℕ) (pubkey : List Char) (protocolVersion : ℕ)
  | validating (room rx : ℕ) (pubkey : List Char) (protocolVersion : ℕ)
  | admitted (room rx : ℕ) (pubkey : List Char) (peerIndex : ℕ)
  | replying (msg : HuddleControlMsg) (rosterRx : Option (ℕ × ℕ))
  | snapshotting (room : ℕ)
  | sending (msg : HuddleControlMsg)
  | ending (teardownReason : Option GoodbyeReason)
  | dropping (room : Option ℕ)
  | returned

/-- The ingress: before the reply to its registration, at a revision with a roster, or gone. -/
inductive Reader
  | dialing
  | reading (revision : UInt64) (roster : List RosterPeer)
  | done

/-- The rooms of the owner's pod, its loop, the two directions of the stream with what is received
of each, and the ingress. `rosterRx` is a room and the position of the next delta. `admitted` has
the peers that were let in through the stream, with their rooms. -/
structure Serving where
  pod : Pod
  registered : HashMap (List Char) Uuid
  streamCommunity : Option CommunityId
  rosterRx : Option (ℕ × ℕ)
  phase : Phase
  requests : List Incoming
  served : ℕ
  sent : List Outgoing
  received : ℕ
  reader : Reader
  admitted : List (ℕ × Uuid)

namespace Serving

/-- A stream that was just accepted, and its dialler. -/
def new (pod : Pod) : Serving where
  pod := pod
  registered := ∅
  streamCommunity := none
  rosterRx := none
  phase := .ready
  requests := []
  served := 0
  sent := []
  received := 0
  reader := .dialing
  admitted := []

variable (sessionId : Uuid) (s : Serving)

/-- The room that the manager has for the community of the stream. -/
def get : Option ℕ :=
  s.streamCommunity.bind fun community => s.pod.rooms.lookup (community, sessionId)

/-! ### The owner -/

/-- Drop a registered peer from a room. -/
def drop (room : Option ℕ) (pubkey : List Char) : Serving :=
  match s.registered.lookup pubkey with
  | none => s
  | some peerId =>
    { s with
      registered := s.registered.erase pubkey
      pod := match room with
        | some i => s.pod.modifyRoom i fun room => room.removePeer peerId
        | none => s.pod }

/-- A registration asks for its room. The community is latched from the first one; a later one that
names another ends the stream, and so does one that comes when the pod drains. -/
def registerPeer (draining : Bool) (communityId : CommunityId) (pubkey : List Char)
    (protocolVersion : ℕ) : Serving :=
  if s.streamCommunity.any (fun latched => latched ≠ communityId) then
    { s with phase := .ending none }
  else if draining then
    { s with streamCommunity := some communityId, phase := .ending (some .draining) }
  else
    { s with
      streamCommunity := some communityId
      pod := (s.pod.getOrCreate (communityId, sessionId)).2
      phase := .subscribing (s.pod.getOrCreate (communityId, sessionId)).1 pubkey protocolVersion }

/-- Take a snapshot of the registered room, if there is one. -/
def snapshot : Serving :=
  { s with
    phase := match s.get sessionId with
      | some i => .snapshotting i
      | none => .ending none }

/-- The next frame. A reply of an owner is a violation of the protocol. -/
def receive (draining : Bool) : Incoming → Serving
  | .control (.registerPeer communityId pubkey protocolVersion) =>
    s.registerPeer sessionId draining communityId pubkey protocolVersion
  | .control (.unregisterPeer pubkey) => s.drop (s.get sessionId) pubkey
  | .control .rosterResync => s.snapshot sessionId
  | .control (.peerRegistered ..) | .control (.rosterSnapshot ..) | .control (.rosterDelta ..)
  | .control (.registerRejected ..) | .misfenced | .undecodable | .unexpected | .goodbye | .closed
  | .failed => { s with phase := .ending none }

/-- The fence has answered. A new peer is let in under the identifier that is drawn for it. -/
def validated (room : Room) (i rx : ℕ) (pubkey : List Char) (protocolVersion : ℕ)
    (peerId : Uuid) : Fence → Serving
  | .ok =>
    match (room.addPeer peerId pubkey protocolVersion).1 with
    | .ok peerIndex =>
      { s with
        pod := s.pod.modifyRoom i fun room => (room.addPeer peerId pubkey protocolVersion).2
        registered := s.registered.insert pubkey peerId
        admitted := s.admitted ++ [(i, peerId)]
        phase := .admitted i rx pubkey peerIndex }
    | .error e =>
      { s with phase := .replying (.registerRejected pubkey (admissionToRejection e)) none }
  | .rejected reason =>
    { s with phase := .replying (.registerRejected pubkey (.fenced reason)) none }
  | .failed => { s with phase := .ending none }

/-- A frame is written. -/
def write (msg : Outgoing) (phase : Phase) : Serving :=
  { s with sent := s.sent ++ [msg], phase := phase }

end Serving

/-! ### The ingress -/

/-- What a delta does to a roster. -/
def applyDelta (roster : List RosterPeer) (joined left : Option RosterPeer) : List RosterPeer :=
  match joined with
  | some peer => roster ++ [peer]
  | none =>
    match left with
    | some peer => roster.erase peer
    | none => roster

namespace Reader

/-- A frame from the owner, and whether a snapshot is requested. The first one answers the
registration. A delta is applied when its revision is the next one, ignored when it is no news, and
otherwise tells of a gap. -/
def receive : Reader → Outgoing → Reader × Bool
  | .dialing, .control (.peerRegistered _ _ roster) =>
    (.reading roster.revision roster.peers, false)
  | .dialing, _ => (.done, false)
  | .reading _ _, .control (.rosterSnapshot next peers) => (.reading next peers, false)
  | .reading revision roster, .control (.rosterDelta next joined left) =>
    if next = revision + 1 then (.reading next (applyDelta roster joined left), false)
    else if next ≤ revision then (.reading revision roster, false)
    else (.reading revision roster, true)
  | .reading _ _, .goodbye _ => (.done, false)
  | .reading revision roster, .control _ => (.reading revision roster, false)
  | .done, _ => (.done, false)

end Reader

/-! ### The other tasks -/

/-- The identifier that a call gives to a new peer. -/
def newPeerId : Op → Option Uuid
  | .addPeer peerId _ _ => some peerId
  | .addPeerAtIndex peerId _ _ _ => some peerId
  | _ => none

/-- What a task does to the rooms of a pod, between two of its awaits: nothing, it asks the manager
for a room, has it remove an empty one, or calls a room. A new peer gets a fresh identifier. -/
inductive RoomsStep (fresh : Uuid → Prop) (pod : Pod) : Pod → Prop
  | refl : RoomsStep fresh pod pod
  | getOrCreate (key : RoomKey) : RoomsStep fresh pod (pod.getOrCreate key).2
  | cleanupIfEmpty (key : RoomKey) : RoomsStep fresh pod (pod.cleanupIfEmpty key)
  | call (i : ℕ) (op : Op) (hallows : ∀ room, pod.room? i = some room → room.Allows op)
      (hfresh : ∀ peerId, newPeerId op = some peerId → fresh peerId) :
      RoomsStep fresh pod (pod.modifyRoom i fun room => (room.apply op).2)

/-- An identifier that no peer has or had through the stream. -/
def Serving.Fresh (s : Serving) (peerId : Uuid) : Prop :=
  (∀ i room, s.pod.room? i = some room → peerId ∉ room.peers) ∧ ∀ p ∈ s.admitted, p.2 ≠ peerId

/-! ### Steps -/

/-- The steps of the loop, of the ingress, and of the other tasks of the owner's pod. -/
inductive Step (sessionId : Uuid) (s : Serving) : Serving → Prop
  /-- Another task. -/
  | others (pod' : Pod) (hrooms : RoomsStep s.Fresh s.pod pod') :
      Step sessionId s { s with pod := pod' }
  /-- The pod of the ingress sends something. -/
  | request (frame : Incoming) : Step sessionId s { s with requests := s.requests ++ [frame] }
  | receive (frame : Incoming) (draining : Bool) (hphase : s.phase = .ready)
      (hnext : s.requests[s.served]? = some frame) :
      Step sessionId s ({ s with served := s.served + 1 }.receive sessionId draining frame)
  /-- The pod drains, or its lease is lost. -/
  | signalled (reason : GoodbyeReason) (hphase : s.phase = .ready) :
      Step sessionId s { s with phase := .ending (some reason) }
  | delta (i rx : ℕ) (room : Room) (delta : RosterDelta) (hphase : s.phase = .ready)
      (hrx : s.rosterRx = some (i, rx)) (hroom : s.pod.room? i = some room)
      (hdelta : room.rosterTx[rx]? = some delta) :
      Step sessionId s { s with
        rosterRx := some (i, rx + 1)
        phase := .sending (rosterDeltaMsg delta) }
  /-- The receiver fell behind. -/
  | lagged (i rx rx' : ℕ) (room : Room) (hphase : s.phase = .ready)
      (hrx : s.rosterRx = some (i, rx)) (hroom : s.pod.room? i = some room) (hbehind : rx < rx')
      (hle : rx' ≤ room.rosterTx.length) :
      Step sessionId s ({ s with rosterRx := some (i, rx') }.snapshot sessionId)
  /-- The room of the subscription is gone. -/
  | unsubscribed (i rx : ℕ) (hphase : s.phase = .ready) (hrx : s.rosterRx = some (i, rx)) :
      Step sessionId s { s with phase := .ending none }
  | subscribe (i : ℕ) (room : Room) (pubkey : List Char) (protocolVersion : ℕ)
      (hphase : s.phase = .subscribing i pubkey protocolVersion)
      (hroom : s.pod.room? i = some room) :
      Step sessionId s { s with
        phase := .validating i room.rosterTx.length pubkey protocolVersion }
  | validated (i rx : ℕ) (room : Room) (pubkey : List Char) (protocolVersion : ℕ)
      (peerId : Uuid) (fence : Fence) (hphase : s.phase = .validating i rx pubkey protocolVersion)
      (hroom : s.pod.room? i = some room) (hfresh : s.Fresh peerId) :
      Step sessionId s (s.validated room i rx pubkey protocolVersion peerId fence)
  | registered (i rx : ℕ) (room : Room) (pubkey : List Char) (peerIndex : ℕ)
      (hphase : s.phase = .admitted i rx pubkey peerIndex) (hroom : s.pod.room? i = some room) :
      Step sessionId s { s with
        phase := .replying (.peerRegistered pubkey peerIndex room.rosterSnapshot) (some (i, rx)) }
  | snapshot (i : ℕ) (room : Room) (hphase : s.phase = .snapshotting i)
      (hroom : s.pod.room? i = some room) :
      Step sessionId s { s with phase := .sending (rosterSnapshotMsg room) }
  /-- A reply is written: from here on the loop has the new subscription. -/
  | replied (msg : HuddleControlMsg) (rosterRx : Option (ℕ × ℕ))
      (hphase : s.phase = .replying msg rosterRx) :
      Step sessionId s
        ({ s with rosterRx := rosterRx.or s.rosterRx }.write (.control msg) .ready)
  /-- A reply cannot be written: the loop is left. -/
  | replyFails (msg : HuddleControlMsg) (rosterRx : Option (ℕ × ℕ))
      (hphase : s.phase = .replying msg rosterRx) :
      Step sessionId s { s with phase := .ending none }
  | sent (msg : HuddleControlMsg) (hphase : s.phase = .sending msg) :
      Step sessionId s (s.write (.control msg) .ready)
  /-- A roster message cannot be written: the call returns there and then. -/
  | sendFails (msg : HuddleControlMsg) (hphase : s.phase = .sending msg) :
      Step sessionId s { s with phase := .returned }
  | goodbye (reason : GoodbyeReason) (hphase : s.phase = .ending (some reason)) :
      Step sessionId s (s.write (.goodbye reason) (.ending none))
  /-- After the goodbye, which may have failed, the room is looked up. -/
  | ended (reason : Option GoodbyeReason) (hphase : s.phase = .ending reason) :
      Step sessionId s { s with phase := .dropping (s.get sessionId) }
  | dropPeer (room : Option ℕ) (pubkey : List Char) (hphase : s.phase = .dropping room)
      (hroom : room.isSome = true) : Step sessionId s (s.drop room pubkey)
  /-- Without a room there is nothing to drop. -/
  | returns (room : Option ℕ) (hphase : s.phase = .dropping room)
      (hdropped : room.isSome = true → s.registered = ∅) :
      Step sessionId s { s with phase := .returned }
  /-- The ingress receives a frame, and asks for a snapshot if it finds a gap. -/
  | read (frame : Outgoing) (hnext : s.sent[s.received]? = some frame) :
      Step sessionId s { s with
        received := s.received + 1
        reader := (s.reader.receive frame).1
        requests := if (s.reader.receive frame).2 = true
          then s.requests ++ [.control .rosterResync] else s.requests }
  /-- The client is gone, or the request for a snapshot cannot be written. -/
  | readFails : Step sessionId s { s with reader := .done }

/-- The states that a run leads through. -/
def Run (sessionId : Uuid) : Serving → Serving → Prop := ReflTransGen (Step sessionId)

/-! ### The rooms along a step -/

/-- The room is there and has done one call, or it was just created, or it is as it was. -/
def RoomMoves (fresh : Uuid → Prop) (room? room'? : Option Room) : Prop :=
  room'? = room? ∨ (room? = none ∧ room'? = some Room.new) ∨
    ∃ op room, room? = some room ∧ room.Allows op ∧
      (∀ peerId, newPeerId op = some peerId → fresh peerId) ∧ room'? = some (room.apply op).2

namespace RoomsStep

variable {fresh : Uuid → Prop} {pod pod' : Pod}

theorem room?_getOrCreate (pod : Pod) (key : RoomKey) (i : ℕ) :
    RoomMoves fresh (pod.room? i) ((pod.getOrCreate key).2.room? i) := by
  rw [Pod.getOrCreate]
  split
  · exact .inl rfl
  · simp only [Pod.room?]
    rcases lt_trichotomy i pod.instances.length with hlt | rfl | hgt
    · exact .inl (by rw [List.getElem?_append_left hlt])
    · refine .inr (.inl ⟨?_, ?_⟩)
      · rw [List.getElem?_eq_none le_rfl, Option.map_none]
      · rw [List.getElem?_concat_length, Option.map_some]
    · refine .inl ?_
      rw [List.getElem?_eq_none, List.getElem?_eq_none hgt.le]
      rw [List.length_append, List.length_singleton]
      exact hgt

theorem lookup_getOrCreate (pod : Pod) (key : RoomKey) :
    (pod.getOrCreate key).2.rooms.lookup key = some (pod.getOrCreate key).1 := by
  rw [Pod.getOrCreate]
  split
  next hi => exact hi
  next => exact (HashMap.lookup_insert_eq ..).trans (if_pos rfl)

theorem room?_cleanupIfEmpty (pod : Pod) (key : RoomKey) (i : ℕ) :
    (pod.cleanupIfEmpty key).room? i = pod.room? i := by
  rw [Pod.cleanupIfEmpty]
  split
  · split_ifs
    · rfl
    · rfl
  · rfl

theorem room?_modifyRoom (pod : Pod) (i j : ℕ) (f : Room → Room) :
    (pod.modifyRoom i f).room? j = if i = j then (pod.room? j).map f else pod.room? j := by
  simp only [Pod.room?, Pod.modifyRoom, List.getElem?_modify, Option.map_eq_map]
  split_ifs
  · rw [Option.map_map, Option.map_map]
    rfl
  · rw [Option.map_id']

/-- What becomes of one room. -/
theorem room (h : RoomsStep fresh pod pod') (i : ℕ) :
    RoomMoves fresh (pod.room? i) (pod'.room? i) := by
  cases h with
  | refl => exact .inl rfl
  | getOrCreate key => exact room?_getOrCreate pod key i
  | cleanupIfEmpty key => exact .inl (room?_cleanupIfEmpty pod key i)
  | call j op hallows hfresh =>
    rw [room?_modifyRoom]
    split_ifs with hij
    · subst hij
      cases hroom : pod.room? j with
      | none => exact .inl rfl
      | some room => exact .inr (.inr ⟨op, room, rfl, hallows room hroom, hfresh, rfl⟩)
    · exact .inl rfl

end RoomsStep

variable {sessionId : Uuid} {s s' : Serving}

theorem rooms_drop (s : Serving) (room : Option ℕ) (pubkey : List Char) :
    RoomsStep s.Fresh s.pod (s.drop room pubkey).pod := by
  rw [Serving.drop]
  split
  · exact .refl
  next peerId _ =>
    cases room with
    | none => exact .refl
    | some i => exact .call i (.removePeer peerId) (fun _ _ => trivial) nofun

theorem rooms_receive (s : Serving) (draining : Bool) (frame : Incoming) :
    RoomsStep s.Fresh s.pod (s.receive sessionId draining frame).pod := by
  cases frame with
  | control msg =>
    cases msg with
    | registerPeer communityId pubkey protocolVersion =>
      rw [Serving.receive, Serving.registerPeer]
      split_ifs
      · exact .refl
      · exact .refl
      · exact .getOrCreate _
    | unregisterPeer pubkey => exact rooms_drop s _ pubkey
    | rosterResync | peerRegistered | rosterSnapshot | rosterDelta | registerRejected =>
      exact .refl
  | misfenced | undecodable | unexpected | goodbye | closed | failed => exact .refl

theorem rooms_validated {room : Room} {i rx : ℕ} {pubkey : List Char} {protocolVersion : ℕ}
    {peerId : Uuid} (hfresh : s.Fresh peerId) (fence : Fence) : RoomsStep s.Fresh s.pod
      (s.validated room i rx pubkey protocolVersion peerId fence).pod := by
  cases fence with
  | ok =>
    rw [Serving.validated]
    split
    · refine .call i (.addPeer peerId pubkey protocolVersion) (fun room' hroom' => ?_) ?_
      · exact hfresh.1 i room' hroom'
      · rintro _ ⟨⟩
        exact hfresh
    · exact .refl
  | rejected | failed => exact .refl

/-- A step of the system does at most one thing to the rooms. -/
theorem Step.rooms (h : Step sessionId s s') : RoomsStep s.Fresh s.pod s'.pod := by
  cases h with
  | others pod' hrooms => exact hrooms
  | receive frame draining => exact rooms_receive { s with served := s.served + 1 } draining frame
  | validated i rx room pubkey protocolVersion peerId fence hphase hroom hfresh =>
    exact rooms_validated hfresh fence
  | dropPeer room pubkey => exact rooms_drop s room pubkey
  | request | signalled | delta | lagged | unsubscribed | subscribe | registered | snapshot
  | replied | replyFails | sent | sendFails | goodbye | ended | returns | read | readFails =>
    exact .refl

end Buzz.Relay.Audio.Control
