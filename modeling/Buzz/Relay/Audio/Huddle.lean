import Mathlib.Logic.Relation
import Buzz.Relay.Audio.Room

/-!
# Joining and leaving a huddle

The rooms of one pod, as `AudioRoomManager` registers them, with the tasks that use them: audio
connections (`handle_active_connection` of `crates/buzz-relay/src/audio/handler.rs`) and the control
streams of other pods (`crates/buzz-relay/src/audio/join.rs`). A room is shared: a task that asked
for it keeps its handle, whether the manager still knows the room or not. So rooms live in a list,
and a handle is a position.

Between asking for a room and being admitted a task awaits: the channel is looked up, a remote owner
is dialled, a fence is validated. A task that fails there, or that leaves, removes the room from the
manager when it is empty. What happens between two awaits is one event.

## Main definitions

* `Pod`, `Connection`, `ControlStream`, `Event`, `Pod.step`.
* `Pod.OneRoom`: every admitted peer is in the registered room of its huddle.
* `Pod.Holds`, `Pod.Careful`: no room is removed under a task that is about to enter it.

## Main results

* `Inv.step`: what a careful step keeps.
* `run_oneRoom`: every run of careful steps.
* `huddle_splits`: a run that splits a huddle.
-/

namespace Buzz.Relay.Audio

open Buzz.Core Buzz.Library Relation

/-! ### The pod -/

/-- Channel identifiers are unique inside a community only. -/
abbrev RoomKey := CommunityId × Uuid

/-- A room that was created, with the key it was created for. -/
structure Instance where
  key : RoomKey
  room : Room

/-- An audio connection that has a handle: before admission, in the room, and after its peer is
removed. -/
inductive Connection
  | joining (key : RoomKey) (room : ℕ)
  | admitted (key : RoomKey) (room : ℕ) (peerId : Uuid) (remote : Bool)
  | leaving (key : RoomKey) (room : ℕ) (shouldAutoEnd : Bool)

/-- Where a control stream is: waiting for a frame, validating the fence of a registration, or
dropping its peers. -/
inductive StreamPhase
  | ready
  | validating (room : ℕ) (pubkey : List Char) (protocolVersion : ℕ)
  | closing (room : Option ℕ)

/-- A control stream, latched to the community of its first registration. -/
structure ControlStream where
  key : RoomKey
  registered : HashMap (List Char) Uuid
  phase : StreamPhase

/-- What the fence of a registration says. -/
inductive Validation
  | ok
  | fenced
  | failed
  deriving DecidableEq

structure Pod where
  rooms : HashMap RoomKey ℕ
  instances : List Instance
  connections : HashMap ℕ Connection
  streams : HashMap ℕ ControlStream

namespace Pod

/-- A pod that has just started. -/
def new : Pod := ⟨∅, [], ∅, ∅⟩

/-! ### The manager -/

/-- Get an existing room or create a new one. -/
def getOrCreate (pod : Pod) (key : RoomKey) : ℕ × Pod :=
  match pod.rooms.lookup key with
  | some i => (i, pod)
  | none =>
    (pod.instances.length,
      { pod with
        rooms := pod.rooms.insert key pod.instances.length
        instances := pod.instances ++ [⟨key, .new⟩] })

def room? (pod : Pod) (i : ℕ) : Option Room := pod.instances[i]?.map Instance.room

/-- Remove the room if it has no peers. -/
def cleanupIfEmpty (pod : Pod) (key : RoomKey) : Pod :=
  match (pod.rooms.lookup key).bind pod.room? with
  | some room => if room.peerList.isEmpty then { pod with rooms := pod.rooms.erase key } else pod
  | none => pod

/-- Run a call of a room. -/
def modifyRoom (pod : Pod) (i : ℕ) (f : Room → Room) : Pod :=
  { pod with instances := pod.instances.modify i fun inst => { inst with room := f inst.room } }

def setConnection (pod : Pod) (c : ℕ) (conn : Connection) : Pod :=
  { pod with connections := pod.connections.insert c conn }

def dropConnection (pod : Pod) (c : ℕ) : Pod :=
  { pod with connections := pod.connections.erase c }

def setStream (pod : Pod) (s : ℕ) (stream : ControlStream) : Pod :=
  { pod with streams := pod.streams.insert s stream }

end Pod

/-! ### Events -/

/-- What happens between two awaits of a task. -/
inductive Event
  /-- A connection asks for the room of a huddle. -/
  | getOrCreate (c : ℕ) (key : RoomKey)
  /-- It fails before admission: the channel is archived or its lookup fails, the owner cannot be
  reached or refuses (these clean up), or its version is not supported. -/
  | giveUp (c : ℕ) (cleanup : Bool)
  /-- It is admitted or refused. A remote owner has given the index. -/
  | addPeer (c : ℕ) (peerId : Uuid) (pubkey : List Char) (requestedVersion : ℕ)
      (ownerIndex : Option ℕ)
  /-- Its peer is removed. -/
  | leave (c : ℕ)
  /-- The participant event is out, and the channel was archived or not. -/
  | finish (c : ℕ) (archived : Bool)
  /-- A control stream is asked to register a peer. -/
  | register (s : ℕ) (key : RoomKey) (pubkey : List Char) (protocolVersion : ℕ)
  /-- The fence has answered. -/
  | validated (s : ℕ) (result : Validation) (peerId : Uuid)
  | unregister (s : ℕ) (pubkey : List Char)
  /-- The stream ends. -/
  | teardown (s : ℕ)
  /-- An ended stream drops a peer. -/
  | dropPeer (s : ℕ) (pubkey : List Char)

namespace Pod

/-- Admission of a connection. -/
def admission (room : Room) (peerId : Uuid) (pubkey : List Char) (requestedVersion : ℕ) :
    Option ℕ → Except AdmissionError ℕ × Room
  | some idx => room.addPeerAtIndex peerId pubkey requestedVersion idx
  | none => room.addPeer peerId pubkey requestedVersion

/-- One event, where it can happen. -/
def step (pod : Pod) : Event → Option Pod
  | .getOrCreate c key =>
    match pod.connections.lookup c with
    | some _ => none
    | none => some ((pod.getOrCreate key).2.setConnection c (.joining key (pod.getOrCreate key).1))
  | .giveUp c cleanup =>
    match pod.connections.lookup c with
    | some (.joining key _) =>
      if cleanup then some ((pod.dropConnection c).cleanupIfEmpty key)
      else some (pod.dropConnection c)
    | _ => none
  | .addPeer c peerId pubkey requestedVersion ownerIndex =>
    match pod.connections.lookup c with
    | some (.joining key i) =>
      (pod.room? i).map fun room =>
        match admission room peerId pubkey requestedVersion ownerIndex with
        | (.ok _, room') =>
          (pod.modifyRoom i fun _ => room').setConnection c
            (.admitted key i peerId ownerIndex.isSome)
        | (.error _, room') => (pod.modifyRoom i fun _ => room').dropConnection c
    | _ => none
  | .leave c =>
    match pod.connections.lookup c with
    | some (.admitted key i peerId true) =>
      some ((pod.modifyRoom i fun room => room.removePeer peerId).setConnection c
        (.leaving key i false))
    | some (.admitted key i peerId false) =>
      (pod.room? i).map fun room =>
        (pod.modifyRoom i fun room => (room.removePeerAndCheckEnded peerId).2).setConnection c
          (.leaving key i (((room.removePeerAndCheckEnded peerId).1.map Prod.snd).getD false))
    | _ => none
  | .finish c archived =>
    match pod.connections.lookup c with
    | some (.leaving key i shouldAutoEnd) =>
      if shouldAutoEnd && !archived then some ((pod.dropConnection c).modifyRoom i Room.clearEnded)
      else some ((pod.dropConnection c).cleanupIfEmpty key)
    | _ => none
  | .register s key pubkey protocolVersion =>
    match pod.streams.lookup s with
    | none =>
      some ((pod.getOrCreate key).2.setStream s
        ⟨key, ∅, .validating (pod.getOrCreate key).1 pubkey protocolVersion⟩)
    | some stream =>
      match stream.phase with
      | .ready =>
        if stream.key = key then
          some ((pod.getOrCreate key).2.setStream s { stream with
            phase := .validating (pod.getOrCreate key).1 pubkey protocolVersion })
        else some (pod.setStream s { stream with phase := .closing (pod.rooms.lookup stream.key) })
      | _ => none
  | .validated s result peerId =>
    match pod.streams.lookup s with
    | none => none
    | some stream =>
      match stream.phase, result with
      | .validating i pubkey protocolVersion, .ok =>
        (pod.room? i).map fun room =>
          match room.addPeer peerId pubkey protocolVersion with
          | (.ok _, room') =>
            (pod.modifyRoom i fun _ => room').setStream s { stream with
              registered := stream.registered.insert pubkey peerId
              phase := .ready }
          | (.error _, room') =>
            (pod.modifyRoom i fun _ => room').setStream s { stream with phase := .ready }
      | .validating _ _ _, .fenced => some (pod.setStream s { stream with phase := .ready })
      | .validating _ _ _, .failed =>
        some (pod.setStream s { stream with phase := .closing (pod.rooms.lookup stream.key) })
      | _, _ => none
  | .unregister s pubkey =>
    match pod.streams.lookup s with
    | none => none
    | some stream =>
      match stream.phase with
      | .ready =>
        some (dropRegistered pod s stream pubkey (pod.rooms.lookup stream.key))
      | _ => none
  | .teardown s =>
    match pod.streams.lookup s with
    | none => none
    | some stream =>
      match stream.phase with
      | .ready =>
        some (pod.setStream s { stream with phase := .closing (pod.rooms.lookup stream.key) })
      | _ => none
  | .dropPeer s pubkey =>
    match pod.streams.lookup s with
    | none => none
    | some stream =>
      match stream.phase with
      | .closing room => some (dropRegistered pod s stream pubkey room)
      | _ => none
where
  /-- Remove a registered peer from a room. -/
  dropRegistered (pod : Pod) (s : ℕ) (stream : ControlStream) (pubkey : List Char)
      (room : Option ℕ) : Pod :=
    match stream.registered.lookup pubkey with
    | none => pod
    | some peerId =>
      (match room with
        | some i => pod.modifyRoom i fun room => room.removePeer peerId
        | none => pod).setStream s { stream with registered := stream.registered.erase pubkey }

end Pod

/-! ### Handles -/

/-- A task of the pod. -/
inductive Task
  | connection (c : ℕ)
  | stream (s : ℕ)
  deriving DecidableEq

/-- The room that a connection is about to enter. -/
def Connection.holds : Connection → Option ℕ
  | .joining _ i => some i
  | _ => none

/-- The room that a registration is about to enter. -/
def StreamPhase.holds : StreamPhase → Option ℕ
  | .validating i _ _ => some i
  | _ => none

namespace Pod

/-- A task that has asked for a room and may still be admitted to it. -/
def Holds (pod : Pod) (i : ℕ) : Task → Prop
  | .connection c => (pod.connections.lookup c).bind Connection.holds = some i
  | .stream s => (pod.streams.lookup s).bind (fun stream => stream.phase.holds) = some i

/-- Every admitted peer is in the room that is registered for its huddle. So all peers of a huddle
are in one room. -/
def OneRoom (pod : Pod) : Prop :=
  ∀ i inst, pod.instances[i]? = some inst → inst.room.peerList ≠ [] →
    pod.rooms.lookup inst.key = some i

/-- The huddle whose room an event removes if it is empty. -/
def cleans (pod : Pod) : Event → Option RoomKey
  | .giveUp c true =>
    match pod.connections.lookup c with
    | some (.joining key _) => some key
    | _ => none
  | .finish c archived =>
    match pod.connections.lookup c with
    | some (.leaving key _ shouldAutoEnd) => if shouldAutoEnd && !archived then none else some key
    | _ => none
  | _ => none

/-- The room that an event opens again. -/
def reopens (pod : Pod) : Event → Option ℕ
  | .finish c false =>
    match pod.connections.lookup c with
    | some (.leaving _ i true) => some i
    | _ => none
  | _ => none

/-- The connection that an event is about. -/
def actor : Event → Option Task
  | .giveUp c _ => some (.connection c)
  | _ => none

/-- No room is removed from the manager while another task is about to enter it, unless it has
ended; and none that was removed is opened again for such a task. -/
def Careful (pod : Pod) (e : Event) : Prop :=
  (∀ key i room, pod.cleans e = some key → pod.rooms.lookup key = some i →
    pod.room? i = some room → room.peerList = [] → room.guard.ended = true ∨
      ∀ task, pod.Holds i task → actor e = some task) ∧
  ∀ i inst, pod.reopens e = some i → pod.instances[i]? = some inst →
    pod.rooms.lookup inst.key = some i ∨ ∀ task, ¬pod.Holds i task

theorem careful_of_none {pod : Pod} {e : Event} (hcleans : pod.cleans e = none)
    (hreopens : pod.reopens e = none) : pod.Careful e :=
  ⟨fun _ _ _ h => absurd (hcleans.symm.trans h) nofun,
    fun _ _ h => absurd (hreopens.symm.trans h) nofun⟩

theorem attempts_admission (room : Room) (peerId : Uuid) (pubkey : List Char)
    (requestedVersion : ℕ) (ownerIndex : Option ℕ) : room.Attempts peerId pubkey requestedVersion
      (admission room peerId pubkey requestedVersion ownerIndex) := by
  cases ownerIndex with
  | none => exact room.attempts_addPeer peerId pubkey requestedVersion
  | some idx => exact room.attempts_addPeerAtIndex peerId pubkey requestedVersion idx

theorem holds_setConnection (pod : Pod) (c : ℕ) (conn : Connection) (i : ℕ) (task : Task) :
    (pod.setConnection c conn).Holds i task ↔
      if task = .connection c then conn.holds = some i else pod.Holds i task := by
  cases task with
  | connection c' =>
    simp only [Holds, setConnection, HashMap.lookup_insert_eq, Task.connection.injEq]
    split_ifs
    · rfl
    · rfl
  | stream s => rw [if_neg nofun]; rfl

theorem holds_dropConnection (pod : Pod) (c : ℕ) (i : ℕ) (task : Task) :
    (pod.dropConnection c).Holds i task ↔ task ≠ .connection c ∧ pod.Holds i task := by
  cases task with
  | connection c' =>
    simp only [Holds, dropConnection, HashMap.lookup_erase_eq, ne_eq, Task.connection.injEq]
    split_ifs with h
    · exact ⟨nofun, fun hn => absurd h hn.1⟩
    · exact (and_iff_right h).symm
  | stream s => exact (and_iff_right nofun).symm

theorem holds_setStream (pod : Pod) (s : ℕ) (stream : ControlStream) (i : ℕ) (task : Task) :
    (pod.setStream s stream).Holds i task ↔
      if task = .stream s then stream.phase.holds = some i else pod.Holds i task := by
  cases task with
  | connection c => rw [if_neg nofun]; rfl
  | stream s' =>
    simp only [Holds, setStream, HashMap.lookup_insert_eq, Task.stream.injEq]
    split_ifs
    · rfl
    · rfl

end Pod

/-! ### The invariant -/

/-- A room that is not registered any more is empty and stays so: it has ended, or nobody is about
to enter it. -/
structure Inv (pod : Pod) : Prop where
  registered : ∀ key i, pod.rooms.lookup key = some i →
    ∃ inst, pod.instances[i]? = some inst ∧ inst.key = key
  detached : ∀ i inst, pod.instances[i]? = some inst → pod.rooms.lookup inst.key ≠ some i →
    inst.room.peerList = [] ∧
      (inst.room.guard.ended = true ∨ ∀ task, ¬pod.Holds i task)

namespace Inv

variable {pod pod' : Pod}

theorem oneRoom (h : Inv pod) : pod.OneRoom := by
  intro i inst hinst hpeers
  by_contra hdetached
  exact hpeers (h.detached i inst hinst hdetached).1

theorem new : Inv Pod.new := ⟨nofun, nofun⟩

/-- Tasks may let go of rooms, and take hold of registered ones. -/
theorem tasks (h : Inv pod) (hrooms : pod'.rooms = pod.rooms)
    (hinstances : pod'.instances = pod.instances)
    (hholds : ∀ i task, pod'.Holds i task →
      pod.Holds i task ∨ ∃ key, pod.rooms.lookup key = some i) : Inv pod' := by
  refine ⟨hrooms ▸ hinstances ▸ h.registered, fun i inst hinst hdetached => ?_⟩
  rw [hinstances] at hinst
  rw [hrooms] at hdetached
  obtain ⟨hempty, hended⟩ := h.detached i inst hinst hdetached
  refine ⟨hempty, hended.imp_right fun hnone task htask => ?_⟩
  rcases hholds i task htask with hold | ⟨key, hkey⟩
  · exact hnone task hold
  · obtain ⟨inst', hinst', rfl⟩ := h.registered key i hkey
    obtain rfl := Option.some.inj (hinst.symm.trans hinst')
    exact hdetached hkey

theorem dropConnection (h : Inv pod) (c : ℕ) : Inv (pod.dropConnection c) :=
  h.tasks rfl rfl fun i task htask => .inl ((pod.holds_dropConnection c i task).mp htask).2

/-- A connection that is not about to enter a room. -/
theorem setConnection (h : Inv pod) (c : ℕ) {conn : Connection}
    (hconn : ∀ i, conn.holds = some i → ∃ key, pod.rooms.lookup key = some i) :
    Inv (pod.setConnection c conn) := by
  refine h.tasks rfl rfl fun i task htask => ?_
  rw [pod.holds_setConnection] at htask
  split_ifs at htask
  · exact .inr (hconn i htask)
  · exact .inl htask

theorem setStream (h : Inv pod) (s : ℕ) {stream : ControlStream}
    (hstream : ∀ i, stream.phase.holds = some i → ∃ key, pod.rooms.lookup key = some i) :
    Inv (pod.setStream s stream) := by
  refine h.tasks rfl rfl fun i task htask => ?_
  rw [pod.holds_setStream] at htask
  split_ifs at htask
  · exact .inr (hstream i htask)
  · exact .inl htask

/-- A connection that holds no room. -/
theorem setConnection_of_none (h : Inv pod) (c : ℕ) {conn : Connection}
    (hconn : conn.holds = none) : Inv (pod.setConnection c conn) :=
  h.setConnection c fun _ hi => absurd (hconn.symm.trans hi) nofun

theorem setStream_of_none (h : Inv pod) (s : ℕ) {stream : ControlStream}
    (hstream : stream.phase.holds = none) : Inv (pod.setStream s stream) :=
  h.setStream s fun _ hi => absurd (hstream.symm.trans hi) nofun

theorem getOrCreate (h : Inv pod) (key : RoomKey) : Inv (pod.getOrCreate key).2 ∧
    (pod.getOrCreate key).2.rooms.lookup key = some (pod.getOrCreate key).1 := by
  rw [Pod.getOrCreate]
  split
  next i hi => exact ⟨h, hi⟩
  next hnone =>
    refine ⟨⟨fun key' i hi => ?_, fun i inst hinst hdetached => ?_⟩,
      (HashMap.lookup_insert_eq ..).trans (if_pos rfl)⟩
    · rw [HashMap.lookup_insert_eq] at hi
      split_ifs at hi with hkey
      · obtain rfl := Option.some.inj hi
        exact ⟨_, List.getElem?_concat_length, hkey.symm⟩
      · obtain ⟨inst, hinst, hkey'⟩ := h.registered key' i hi
        obtain ⟨hlt, -⟩ := List.getElem?_eq_some_iff.mp hinst
        exact ⟨inst, (List.getElem?_append_left hlt).trans hinst, hkey'⟩
    · rw [HashMap.lookup_insert_eq] at hdetached
      rcases Nat.lt_or_ge i pod.instances.length with hlt | hge
      · -- An older room of this huddle was not registered before either.
        rw [List.getElem?_append_left hlt] at hinst
        refine h.detached i inst hinst fun hi => hdetached ?_
        rw [if_neg, hi]
        rintro rfl
        exact absurd (hnone.symm.trans hi) nofun
      · obtain ⟨hlength, -⟩ := List.getElem?_eq_some_iff.mp hinst
        rw [List.length_append, List.length_singleton] at hlength
        obtain rfl : i = pod.instances.length := by omega
        obtain rfl := Option.some.inj (List.getElem?_concat_length.symm.trans hinst)
        exact absurd (if_pos rfl) hdetached

theorem cleanupIfEmpty (h : Inv pod) {key : RoomKey}
    (hcareful : ∀ i room, pod.rooms.lookup key = some i → pod.room? i = some room →
      room.peerList = [] → room.guard.ended = true ∨ ∀ task, ¬pod.Holds i task) :
    Inv (pod.cleanupIfEmpty key) := by
  rw [Pod.cleanupIfEmpty]
  split
  next room hroom =>
    obtain ⟨i, hi, hroom⟩ := Option.bind_eq_some_iff.mp hroom
    split_ifs with hempty
    · refine ⟨fun key' j hj => ?_, fun j inst hinst hdetached => ?_⟩
      · rw [HashMap.lookup_erase_eq] at hj
        split_ifs at hj
        exact h.registered key' j hj
      · rw [HashMap.lookup_erase_eq] at hdetached
        by_cases hj : pod.rooms.lookup inst.key = some j
        · -- The room that is removed now.
          split_ifs at hdetached with hkey
          · rw [hkey, hi] at hj
            obtain rfl := Option.some.inj hj
            have hsame : pod.room? i = some inst.room := congrArg (Option.map Instance.room) hinst
            obtain rfl := Option.some.inj (hsame.symm.trans hroom)
            have hpeers := List.isEmpty_iff.mp hempty
            exact ⟨hpeers, hcareful i _ hi hroom hpeers⟩
          · exact absurd hj hdetached
        · exact h.detached j inst hinst hj
    · exact h
  next => exact h

/-- A careful connection goes, and its room is removed if it is empty. -/
theorem dropConnection_cleanupIfEmpty (h : Inv pod) {c : ℕ} {e : Event} {key : RoomKey}
    (hcareful : pod.Careful e) (hcleans : pod.cleans e = some key)
    (hactor : ∀ task, Pod.actor e = some task → task = .connection c) :
    Inv ((pod.dropConnection c).cleanupIfEmpty key) := by
  refine (h.dropConnection c).cleanupIfEmpty fun j room hj hroom hempty => ?_
  refine (hcareful.1 key j room hcleans hj hroom hempty).imp_right fun honly task htask => ?_
  obtain ⟨hne, hold⟩ := (pod.holds_dropConnection c j task).mp htask
  exact hne (hactor task (honly task hold))

/-- A call of a room that leaves an unregistered one empty, and closed if somebody is about to
enter it. -/
theorem modifyRoom (h : Inv pod) {i : ℕ} {f : Room → Room}
    (hf : ∀ inst, pod.instances[i]? = some inst → pod.rooms.lookup inst.key ≠ some i →
      inst.room.peerList = [] → inst.room.guard.ended = true ∨ (∀ task, ¬pod.Holds i task) →
      (f inst.room).peerList = [] ∧
        ((f inst.room).guard.ended = true ∨ ∀ task, ¬pod.Holds i task)) :
    Inv (pod.modifyRoom i f) := by
  refine ⟨fun key j hj => ?_, fun j inst hinst hdetached => ?_⟩
  · obtain ⟨inst, hinst, hkey⟩ := h.registered key j hj
    rw [Pod.modifyRoom, List.getElem?_modify, hinst]
    exact ⟨_, rfl, by split_ifs <;> exact hkey⟩
  · by_cases hij : i = j
    · subst hij
      rw [Pod.modifyRoom, List.getElem?_modify_eq] at hinst
      obtain ⟨inst', hinst', rfl⟩ := Option.map_eq_some_iff.mp hinst
      obtain ⟨hempty, hended⟩ := h.detached i inst' hinst' hdetached
      exact hf inst' hinst' hdetached hempty hended
    · rw [Pod.modifyRoom, List.getElem?_modify_ne _ _ hij] at hinst
      exact h.detached j inst hinst hdetached

/-- A call that leaves an empty room as it is, if the room has ended or nobody is about to enter
it. -/
theorem modifyRoom_of_eq (h : Inv pod) {i : ℕ} {f : Room → Room}
    (hf : ∀ room, pod.room? i = some room → room.peerList = [] →
      room.guard.ended = true ∨ (∀ task, ¬pod.Holds i task) → f room = room) :
    Inv (pod.modifyRoom i f) := by
  refine h.modifyRoom fun inst hinst _ hempty hended => ?_
  have hroom : pod.room? i = some inst.room := congrArg (Option.map Instance.room) hinst
  rw [hf inst.room hroom hempty hended]
  exact ⟨hempty, hended⟩

theorem modifyRoom_remove (h : Inv pod) (i : ℕ) (peerId : Uuid) :
    Inv (pod.modifyRoom i fun room => room.removePeer peerId) := by
  refine h.modifyRoom_of_eq fun room _ hempty _ => ?_
  rw [Room.removePeer, Room.detach_of_peerList_eq_nil hempty]

theorem modifyRoom_attempt (h : Inv pod) {i : ℕ} {task : Task} (hholds : pod.Holds i task)
    {room : Room} (hroom : pod.room? i = some room) {peerId : Uuid} {pubkey : List Char}
    {requestedVersion : ℕ} {result : Except AdmissionError ℕ × Room}
    (hattempt : room.Attempts peerId pubkey requestedVersion result) :
    Inv (pod.modifyRoom i fun _ => result.2) := by
  refine h.modifyRoom_of_eq fun room' hroom' _ hended => ?_
  obtain rfl := Option.some.inj (hroom.symm.trans hroom')
  exact hattempt.eq_of_ended (hended.resolve_right fun hnone => hnone task hholds)

theorem dropRegistered (h : Inv pod) (s : ℕ) {stream : ControlStream} (pubkey : List Char)
    (room : Option ℕ) (hphase : stream.phase.holds = none) :
    Inv (Pod.step.dropRegistered pod s stream pubkey room) := by
  rw [Pod.step.dropRegistered]
  split
  · exact h
  next peerId _ =>
    cases room with
    | none => exact h.setStream_of_none s hphase
    | some i => exact (h.modifyRoom_remove i peerId).setStream_of_none s hphase

/-! ### Steps -/

attribute [local simp] Pod.step

theorem step_getOrCreate (h : Inv pod) {c : ℕ} {key : RoomKey}
    (hstep : pod.step (.getOrCreate c key) = some pod') : Inv pod' := by
  simp only [Pod.step] at hstep
  split at hstep
  · cases hstep
  · obtain rfl := Option.some.inj hstep
    obtain ⟨hinv, hkey⟩ := h.getOrCreate key
    exact hinv.setConnection c fun i hi => ⟨key, hkey.trans hi⟩

theorem step_giveUp (h : Inv pod) {c : ℕ} {cleanup : Bool}
    (hcareful : pod.Careful (.giveUp c cleanup))
    (hstep : pod.step (.giveUp c cleanup) = some pod') : Inv pod' := by
  cases hconn : pod.connections.lookup c with
  | none => simp [hconn] at hstep
  | some conn =>
  cases conn with
  | joining key i =>
    cases cleanup with
    | false =>
      simp only [Pod.step, hconn] at hstep
      obtain rfl := Option.some.inj hstep
      exact h.dropConnection c
    | true =>
      simp only [Pod.step, hconn] at hstep
      obtain rfl := Option.some.inj hstep
      have hcleans : pod.cleans (.giveUp c true) = some key := by simp only [Pod.cleans, hconn]
      exact h.dropConnection_cleanupIfEmpty hcareful hcleans fun _ h => (Option.some.inj h).symm
  | admitted | leaving => simp [hconn] at hstep

theorem step_addPeer (h : Inv pod) {c : ℕ} {peerId : Uuid} {pubkey : List Char} {version : ℕ}
    {ownerIndex : Option ℕ}
    (hstep : pod.step (.addPeer c peerId pubkey version ownerIndex) = some pod') : Inv pod' := by
  cases hconn : pod.connections.lookup c with
  | none => simp [hconn] at hstep
  | some conn =>
  cases conn with
  | joining key i =>
    simp only [Pod.step, hconn] at hstep
    obtain ⟨room, hroom, rfl⟩ := Option.map_eq_some_iff.mp hstep
    have hholds : pod.Holds i (.connection c) := by simp [Pod.Holds, hconn, Connection.holds]
    have hinv := h.modifyRoom_attempt hholds hroom
      (Pod.attempts_admission room peerId pubkey version ownerIndex)
    split
    next hresult =>
      rw [hresult] at hinv
      exact hinv.setConnection_of_none c rfl
    next hresult =>
      rw [hresult] at hinv
      exact hinv.dropConnection c
  | admitted | leaving => simp [hconn] at hstep

theorem step_leave (h : Inv pod) {c : ℕ}
    (hstep : pod.step (.leave c) = some pod') : Inv pod' := by
  cases hconn : pod.connections.lookup c with
  | none => simp [hconn] at hstep
  | some conn =>
  cases conn with
  | admitted key i peerId remote =>
    cases remote with
    | true =>
      simp only [Pod.step, hconn] at hstep
      obtain rfl := Option.some.inj hstep
      exact (h.modifyRoom_remove i peerId).setConnection_of_none c rfl
    | false =>
      simp only [Pod.step, hconn] at hstep
      obtain ⟨room, hroom, rfl⟩ := Option.map_eq_some_iff.mp hstep
      refine Inv.setConnection_of_none ?_ c rfl
      refine h.modifyRoom_of_eq fun room _ hempty _ => ?_
      rw [Room.removePeerAndCheckEnded, Room.detach_of_peerList_eq_nil hempty]
  | joining | leaving => simp [hconn] at hstep

theorem step_finish (h : Inv pod) {c : ℕ} {archived : Bool}
    (hcareful : pod.Careful (.finish c archived))
    (hstep : pod.step (.finish c archived) = some pod') : Inv pod' := by
  cases hconn : pod.connections.lookup c with
  | none => simp [hconn] at hstep
  | some conn =>
  cases conn with
  | leaving key i shouldAutoEnd =>
    simp only [Pod.step, hconn] at hstep
    split_ifs at hstep with hreopen
    · -- The archive failed: the room is opened again.
      obtain rfl := Option.some.inj hstep
      obtain ⟨rfl, rfl⟩ : shouldAutoEnd = true ∧ archived = false := by simpa using hreopen
      refine (h.dropConnection c).modifyRoom fun inst hinst hdetached hempty _ => ?_
      have hreopens : pod.reopens (.finish c false) = some i := by
        simp only [Pod.reopens, hconn]
      refine ⟨hempty, .inr fun task htask => ?_⟩
      rcases hcareful.2 i inst hreopens hinst with hkey | hnone
      · exact hdetached hkey
      · exact hnone task ((pod.holds_dropConnection c i task).mp htask).2
    · obtain rfl := Option.some.inj hstep
      have hcleans : pod.cleans (.finish c archived) = some key := by
        simp only [Pod.cleans, hconn, if_neg hreopen]
      exact h.dropConnection_cleanupIfEmpty hcareful hcleans nofun
  | joining | admitted => simp [hconn] at hstep

theorem step_register (h : Inv pod) {s : ℕ} {key : RoomKey} {pubkey : List Char} {version : ℕ}
    (hstep : pod.step (.register s key pubkey version) = some pod') : Inv pod' := by
  cases hstream : pod.streams.lookup s with
  | none =>
    simp only [Pod.step, hstream] at hstep
    obtain rfl := Option.some.inj hstep
    obtain ⟨hinv, hkey⟩ := h.getOrCreate key
    exact hinv.setStream s fun i hi => ⟨key, hkey.trans hi⟩
  | some stream =>
    simp only [Pod.step, hstream] at hstep
    split at hstep
    · split_ifs at hstep
      · obtain rfl := Option.some.inj hstep
        obtain ⟨hinv, hkey⟩ := h.getOrCreate key
        exact hinv.setStream s fun i hi => ⟨key, hkey.trans hi⟩
      · obtain rfl := Option.some.inj hstep
        exact h.setStream_of_none s rfl
    · cases hstep

theorem step_validated (h : Inv pod) {s : ℕ} {result : Validation} {peerId : Uuid}
    (hstep : pod.step (.validated s result peerId) = some pod') : Inv pod' := by
  cases hstream : pod.streams.lookup s with
  | none => simp [hstream] at hstep
  | some stream =>
    simp only [Pod.step, hstream] at hstep
    split at hstep
    next i pubkey version hphase =>
      obtain ⟨room, hroom, rfl⟩ := Option.map_eq_some_iff.mp hstep
      have hholds : pod.Holds i (.stream s) := by
        simp [Pod.Holds, hstream, hphase, StreamPhase.holds]
      have hinv := h.modifyRoom_attempt hholds hroom
        (room.attempts_addPeer peerId pubkey version)
      split
      next hresult =>
        rw [hresult] at hinv
        exact hinv.setStream_of_none s rfl
      next hresult =>
        rw [hresult] at hinv
        exact hinv.setStream_of_none s rfl
    · obtain rfl := Option.some.inj hstep
      exact h.setStream_of_none s rfl
    · obtain rfl := Option.some.inj hstep
      exact h.setStream_of_none s rfl
    · cases hstep

theorem step_unregister (h : Inv pod) {s : ℕ} {pubkey : List Char}
    (hstep : pod.step (.unregister s pubkey) = some pod') : Inv pod' := by
  cases hstream : pod.streams.lookup s with
  | none => simp [hstream] at hstep
  | some stream =>
    simp only [Pod.step, hstream] at hstep
    split at hstep
    next hphase =>
      obtain rfl := Option.some.inj hstep
      exact h.dropRegistered s pubkey _ (hphase ▸ rfl)
    next => cases hstep

theorem step_teardown (h : Inv pod) {s : ℕ}
    (hstep : pod.step (.teardown s) = some pod') : Inv pod' := by
  cases hstream : pod.streams.lookup s with
  | none => simp [hstream] at hstep
  | some stream =>
    simp only [Pod.step, hstream] at hstep
    split at hstep
    · obtain rfl := Option.some.inj hstep
      exact h.setStream_of_none s rfl
    · cases hstep

theorem step_dropPeer (h : Inv pod) {s : ℕ} {pubkey : List Char}
    (hstep : pod.step (.dropPeer s pubkey) = some pod') : Inv pod' := by
  cases hstream : pod.streams.lookup s with
  | none => simp [hstream] at hstep
  | some stream =>
    simp only [Pod.step, hstream] at hstep
    split at hstep
    next hphase =>
      obtain rfl := Option.some.inj hstep
      exact h.dropRegistered s pubkey _ (hphase ▸ rfl)
    next => cases hstep

/-- A careful step keeps the invariant. -/
theorem step (h : Inv pod) {e : Event} (hcareful : pod.Careful e) (hstep : pod.step e = some pod') :
    Inv pod' := by
  cases e with
  | getOrCreate => exact h.step_getOrCreate hstep
  | giveUp => exact h.step_giveUp hcareful hstep
  | addPeer => exact h.step_addPeer hstep
  | leave => exact h.step_leave hstep
  | finish => exact h.step_finish hcareful hstep
  | register => exact h.step_register hstep
  | validated => exact h.step_validated hstep
  | unregister => exact h.step_unregister hstep
  | teardown => exact h.step_teardown hstep
  | dropPeer => exact h.step_dropPeer hstep

end Inv

/-! ### Runs -/

/-- A step that removes no room under a task that is about to enter it. -/
def CarefulStep (pod pod' : Pod) : Prop := ∃ e, pod.Careful e ∧ pod.step e = some pod'

/-- In every run of careful steps, all peers of a huddle are in the one room that is registered. -/
theorem run_oneRoom {pod : Pod} (h : ReflTransGen CarefulStep Pod.new pod) : pod.OneRoom := by
  have hinv : Inv pod := by
    induction h with
    | refl => exact Inv.new
    | tail _ hstep ih =>
      obtain ⟨e, hcareful, hstep⟩ := hstep
      exact ih.step hcareful hstep
  exact hinv.oneRoom

/-- A huddle that one connection joins and leaves. -/
theorem run_oneRoom_single : ∃ pod,
    [Event.getOrCreate 0 (1, 2), .addPeer 0 5 "a".toList 2 none, .leave 0, .finish 0 true].foldlM
      Pod.step Pod.new = some pod ∧ pod.OneRoom := by
  refine ⟨_, rfl, run_oneRoom ?_⟩
  refine ReflTransGen.head ⟨.getOrCreate 0 (1, 2), Pod.careful_of_none rfl rfl, rfl⟩ ?_
  refine ReflTransGen.head ⟨.addPeer 0 5 "a".toList 2 none, Pod.careful_of_none rfl rfl, rfl⟩ ?_
  refine ReflTransGen.head ⟨.leave 0, Pod.careful_of_none rfl rfl, rfl⟩ ?_
  refine ReflTransGen.single ⟨.finish 0 true, ⟨fun key i room hkey hi hroom _ => .inl ?_, ?_⟩, rfl⟩
  · -- The last peer has ended the room that is removed.
    obtain rfl : (1, 2) = key := Option.some.inj hkey
    obtain rfl : 0 = i := Option.some.inj hi
    obtain rfl := Option.some.inj hroom
    rfl
  · exact fun _ _ h => nomatch h

/-- One connection waits for its channel lookup, that of another one fails and removes the room, and
a third one gets a new room. -/
theorem huddle_splits : ∃ pod a b,
    [Event.getOrCreate 0 (1, 2), .getOrCreate 1 (1, 2), .giveUp 1 true,
      .addPeer 0 5 "a".toList 2 none, .getOrCreate 2 (1, 2), .addPeer 2 6 "b".toList 2 none].foldlM
      Pod.step Pod.new = some pod ∧
    pod.instances[0]? = some a ∧ pod.instances[1]? = some b ∧ a.key = b.key ∧
    a.room.peerList ≠ [] ∧ b.room.peerList ≠ [] ∧ ¬pod.OneRoom := by
  refine ⟨_, _, _, rfl, rfl, rfl, rfl, by decide, by decide, fun h => ?_⟩
  have hregistered := h 0 _ rfl (by decide)
  exact absurd hregistered (by decide)

end Buzz.Relay.Audio
