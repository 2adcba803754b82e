import Buzz.Relay.Audio.Huddle

/-!
# Who is in the rooms of a pod

A peer that was let into a room stays there until its own connection leaves, or its own control
stream drops it: every event takes at most one peer out of one room, and the identifiers of peers
are fresh.

## Main definitions

* `Pod.Has`, `Pod.Leaving`, `Pod.Registers`: a peer in a room, a connection whose peer is removed, a
  peer of a control stream.
* `Pod.removes`: the peer that an event takes out.
* `Pod.Effect`: what an event does to these.
* `Pod.Present`: who was let in and has not left is in its room.

## Main results

* `Pod.effect_of_step`: the effect of every event.
* `Pod.Present.step`: an event keeps the peers present.
-/

namespace Buzz.Relay.Audio

open Buzz.Core Buzz.Library

namespace Pod

/-! ### Definitions -/

/-- Whether the manager has a room of the huddle and it is empty, so that a cleanup removes it. -/
def empties (pod : Pod) (key : RoomKey) : Bool :=
  ((pod.rooms.lookup key).bind pod.room?).any fun room => room.peerList.isEmpty

/-- A peer is in a room. -/
def Has (pod : Pod) (i : ℕ) (peerId : Uuid) : Prop :=
  ∃ room, pod.room? i = some room ∧ peerId ∈ room.peers

/-- Some peer is in some room. -/
def Occupied (pod : Pod) : Prop := ∃ i peerId, pod.Has i peerId

/-- The peer of a connection is removed, and the connection has not finished. -/
def Leaving (pod : Pod) (c : ℕ) : Prop :=
  ∃ key i shouldAutoEnd, pod.connections.lookup c = some (.leaving key i shouldAutoEnd)

/-- A control stream has registered a peer. -/
def Registers (pod : Pod) (s : ℕ) (peerId : Uuid) : Prop :=
  ∃ stream pubkey, pod.streams.lookup s = some stream ∧
    stream.registered.lookup pubkey = some peerId

/-- No task has a peer of this identifier. -/
def Fresh (pod : Pod) (peerId : Uuid) : Prop :=
  (∀ c key i remote, pod.connections.lookup c ≠ some (.admitted key i peerId remote)) ∧
    ∀ s, ¬pod.Registers s peerId

/-- A registered peer, as it is dropped from a room. -/
def drops (stream : ControlStream) (pubkey : List Char) (room : Option ℕ) : Option (ℕ × Uuid) :=
  room.bind fun i => (stream.registered.lookup pubkey).map fun peerId => (i, peerId)

/-- The peer that an event takes out, and the room it is taken out of. -/
def removes (pod : Pod) : Event → Option (ℕ × Uuid)
  | .leave c =>
    match pod.connections.lookup c with
    | some (.admitted _ i peerId _) => some (i, peerId)
    | _ => none
  | .unregister s pubkey =>
    (pod.streams.lookup s).bind fun stream => drops stream pubkey (pod.rooms.lookup stream.key)
  | .dropPeer s pubkey =>
    match pod.streams.lookup s with
    | some ⟨key, registered, .closing room⟩ => drops ⟨key, registered, .closing room⟩ pubkey room
    | _ => none
  | _ => none

end Pod

/-- The connection and the peer that an event lets in. -/
def Event.admits : Event → Option (ℕ × Uuid)
  | .addPeer c peerId _ _ _ => some (c, peerId)
  | _ => none

/-- An event of a control stream of the huddle. -/
def Event.ofStream (key : RoomKey) : Event → Prop
  | .register _ key' _ _ => key' = key
  | .validated .. | .unregister .. | .teardown _ | .dropPeer .. => True
  | _ => False

/-- The peer that a control stream may register. -/
def Event.registers : Event → Option Uuid
  | .validated _ _ peerId => some peerId
  | _ => none

namespace Pod

/-- What an event does to peers, connections and streams. -/
structure Effect (pod : Pod) (e : Event) (pod' : Pod) : Prop where
  has : ∀ i peerId, pod.Has i peerId → pod.removes e ≠ some (i, peerId) → pod'.Has i peerId
  admitted : ∀ c key i peerId remote,
    pod'.connections.lookup c = some (.admitted key i peerId remote) →
      (e.admits = some (c, peerId) ∧ pod'.Has i peerId) ∨
        pod.connections.lookup c = some (.admitted key i peerId remote) ∧ e ≠ .leave c
  leaving : ∀ c, pod.Leaving c → (∀ archived, e ≠ .finish c archived) → pod'.Leaving c
  registered : ∀ s peerId, pod'.Registers s peerId →
    pod.Registers s peerId ∨ e.registers = some peerId

/-! ### Rooms -/

variable {pod pod' : Pod}

theorem room?_modifyRoom (pod : Pod) (i j : ℕ) (f : Room → Room) :
    (pod.modifyRoom i f).room? j = if i = j then (pod.room? j).map f else pod.room? j := by
  rw [room?, modifyRoom, List.getElem?_modify, room?]
  split_ifs
  · cases pod.instances[j]? with
    | none => rfl
    | some inst => rfl
  · cases pod.instances[j]? with
    | none => rfl
    | some inst => rfl

theorem not_occupied (h : ∀ inst ∈ pod.instances, inst.room.peers = ∅) : ¬pod.Occupied := by
  rintro ⟨i, peerId, room, hroom, hpeer⟩
  obtain ⟨inst, hinst, rfl⟩ := Option.map_eq_some_iff.mp hroom
  rw [h inst (List.mem_of_getElem? hinst)] at hpeer
  exact AList.notMem_empty peerId hpeer

/-- A call of a room that takes at most one peer out. -/
theorem Has.modifyRoom {i j : ℕ} {peerId : Uuid} {f : Room → Room} (h : pod.Has j peerId)
    (hf : ∀ room, pod.room? j = some room → i = j → peerId ∈ room.peers →
      peerId ∈ (f room).peers) : (pod.modifyRoom i f).Has j peerId := by
  obtain ⟨room, hroom, hpeer⟩ := h
  rw [Has, room?_modifyRoom, hroom]
  by_cases hij : i = j
  · exact ⟨f room, if_pos hij, hf room hroom hij hpeer⟩
  · exact ⟨room, if_neg hij, hpeer⟩

theorem Has.getOrCreate {i : ℕ} {peerId : Uuid} (h : pod.Has i peerId) (key : RoomKey) :
    (pod.getOrCreate key).2.Has i peerId := by
  obtain ⟨room, hroom, hpeer⟩ := h
  rw [Pod.getOrCreate]
  split
  · exact ⟨room, hroom, hpeer⟩
  · obtain ⟨inst, hinst, -⟩ := Option.map_eq_some_iff.mp hroom
    obtain ⟨hlt, -⟩ := List.getElem?_eq_some_iff.mp hinst
    refine ⟨room, ?_, hpeer⟩
    rw [room?, List.getElem?_append_left hlt]
    exact hroom

theorem room?_cleanupIfEmpty (pod : Pod) (key : RoomKey) (i : ℕ) :
    (pod.cleanupIfEmpty key).room? i = pod.room? i := by
  rw [cleanupIfEmpty]
  split
  · split_ifs
    · rfl
    · rfl
  · rfl

@[simp] theorem connections_cleanupIfEmpty (pod : Pod) (key : RoomKey) :
    (pod.cleanupIfEmpty key).connections = pod.connections := by
  rw [cleanupIfEmpty]
  split
  · split_ifs
    · rfl
    · rfl
  · rfl

@[simp] theorem streams_cleanupIfEmpty (pod : Pod) (key : RoomKey) :
    (pod.cleanupIfEmpty key).streams = pod.streams := by
  rw [cleanupIfEmpty]
  split
  · split_ifs
    · rfl
    · rfl
  · rfl

@[simp] theorem connections_getOrCreate (pod : Pod) (key : RoomKey) :
    (pod.getOrCreate key).2.connections = pod.connections := by
  rw [Pod.getOrCreate]
  split
  · rfl
  · rfl

@[simp] theorem streams_getOrCreate (pod : Pod) (key : RoomKey) :
    (pod.getOrCreate key).2.streams = pod.streams := by
  rw [Pod.getOrCreate]
  split
  · rfl
  · rfl

/-- A new peer, or an attempt that changes nothing. -/
theorem Has.attempt {i j : ℕ} {peerId peerId' : Uuid} {room : Room} (h : pod.Has j peerId)
    (hroom : pod.room? i = some room) {pubkey : List Char} {requestedVersion : ℕ}
    {result : Except AdmissionError ℕ × Room}
    (hattempt : room.Attempts peerId' pubkey requestedVersion result) :
    (pod.modifyRoom i fun _ => result.2).Has j peerId := by
  refine h.modifyRoom fun room' hroom' hij hpeer => ?_
  subst hij
  obtain rfl := Option.some.inj (hroom.symm.trans hroom')
  exact hattempt.mem hpeer

/-- The peer that was let in. -/
theorem has_attempt {i : ℕ} {peerId : Uuid} {room room' : Room} (hroom : pod.room? i = some room)
    {pubkey : List Char} {requestedVersion idx : ℕ}
    (hattempt : room.Attempts peerId pubkey requestedVersion (.ok idx, room')) :
    (pod.modifyRoom i fun _ => room').Has i peerId := by
  refine ⟨room', ?_, hattempt.mem_self⟩
  rw [room?_modifyRoom, if_pos rfl, hroom, Option.map_some]

/-! ### The effect of an event -/

namespace Effect

variable {e : Event}

/-- An event of a connection. -/
theorem of_connection (c : ℕ) (hstreams : pod'.streams = pod.streams)
    (hconnections : ∀ c', c' ≠ c → pod'.connections.lookup c' = pod.connections.lookup c')
    (hleave : ∀ c', c' ≠ c → e ≠ .leave c')
    (hhas : ∀ i peerId, pod.Has i peerId → pod.removes e ≠ some (i, peerId) → pod'.Has i peerId)
    (hadmitted : ∀ key i peerId remote,
      pod'.connections.lookup c = some (.admitted key i peerId remote) →
        e.admits = some (c, peerId) ∧ pod'.Has i peerId)
    (hleaving : pod.Leaving c → ∃ archived, e = .finish c archived) : Effect pod e pod' := by
  refine ⟨hhas, fun c' key i peerId remote h => ?_, fun c' h hfinish => ?_, fun s peerId h => ?_⟩
  · by_cases hc : c' = c
    · subst hc
      exact .inl (hadmitted key i peerId remote h)
    · exact .inr ⟨hconnections c' hc ▸ h, hleave c' hc⟩
  · by_cases hc : c' = c
    · subst hc
      obtain ⟨archived, he⟩ := hleaving h
      exact absurd he (hfinish archived)
    · obtain ⟨key, i, shouldAutoEnd, hlookup⟩ := h
      exact ⟨key, i, shouldAutoEnd, (hconnections c' hc).trans hlookup⟩
  · rw [Registers, hstreams] at h
    exact .inl h

theorem setConnection {rooms : Pod} {c : ℕ} {conn : Connection}
    (hconnections : rooms.connections = pod.connections) (hstreams : rooms.streams = pod.streams)
    (hleave : ∀ c', c' ≠ c → e ≠ .leave c')
    (hhas : ∀ i peerId, pod.Has i peerId → pod.removes e ≠ some (i, peerId) → rooms.Has i peerId)
    (hadmitted : ∀ key i peerId remote, conn = .admitted key i peerId remote →
      e.admits = some (c, peerId) ∧ rooms.Has i peerId)
    (hleaving : ¬pod.Leaving c) : Effect pod e (rooms.setConnection c conn) := by
  refine of_connection c hstreams (fun c' hc => ?_) hleave hhas (fun key i peerId remote h => ?_)
    fun h => absurd h hleaving
  · rw [← hconnections]
    exact (HashMap.lookup_insert_eq ..).trans (if_neg hc)
  · rw [Pod.setConnection, HashMap.lookup_insert_eq, if_pos rfl] at h
    exact hadmitted key i peerId remote (Option.some.inj h)

theorem dropConnection {rooms : Pod} {c : ℕ}
    (hconnections : rooms.connections = pod.connections.erase c)
    (hstreams : rooms.streams = pod.streams) (hleave : ∀ c', e ≠ .leave c')
    (hhas : ∀ i peerId, pod.Has i peerId → rooms.Has i peerId)
    (hleaving : pod.Leaving c → ∃ archived, e = .finish c archived) : Effect pod e rooms := by
  refine of_connection c hstreams (fun c' hc => ?_) (fun c' _ => hleave c')
    (fun i peerId h _ => hhas i peerId h) (fun key i peerId remote h => ?_) hleaving
  · rw [hconnections]
    exact (HashMap.lookup_erase_eq ..).trans (if_neg hc)
  · rw [hconnections, HashMap.lookup_erase_eq, if_pos rfl] at h
    cases h

/-- An event of a control stream. -/
theorem of_stream (s : ℕ) (hconnections : pod'.connections = pod.connections)
    (hstreams : ∀ s', s' ≠ s → pod'.streams.lookup s' = pod.streams.lookup s')
    (hleave : ∀ c, e ≠ .leave c)
    (hhas : ∀ i peerId, pod.Has i peerId → pod.removes e ≠ some (i, peerId) → pod'.Has i peerId)
    (hregistered : ∀ peerId, pod'.Registers s peerId →
      pod.Registers s peerId ∨ e.registers = some peerId) : Effect pod e pod' := by
  refine ⟨hhas, fun c key i peerId remote h => ?_, fun c h _ => ?_, fun s' peerId h => ?_⟩
  · exact .inr ⟨hconnections ▸ h, hleave c⟩
  · rwa [Leaving, hconnections]
  · by_cases hs : s' = s
    · subst hs
      exact hregistered peerId h
    · rw [Registers, hstreams s' hs] at h
      exact .inl h

theorem setStream {rooms : Pod} {s : ℕ} {stream : ControlStream}
    (hconnections : rooms.connections = pod.connections) (hstreams : rooms.streams = pod.streams)
    (hleave : ∀ c, e ≠ .leave c)
    (hhas : ∀ i peerId, pod.Has i peerId → pod.removes e ≠ some (i, peerId) → rooms.Has i peerId)
    (hregistered : ∀ pubkey peerId, stream.registered.lookup pubkey = some peerId →
      pod.Registers s peerId ∨ e.registers = some peerId) :
    Effect pod e (rooms.setStream s stream) := by
  refine of_stream s hconnections (fun s' hs => ?_) hleave hhas fun peerId h => ?_
  · rw [← hstreams]
    exact (HashMap.lookup_insert_eq ..).trans (if_neg hs)
  · obtain ⟨stream', pubkey, hlookup, hpubkey⟩ := h
    rw [Pod.setStream, HashMap.lookup_insert_eq, if_pos rfl] at hlookup
    obtain rfl := Option.some.inj hlookup
    exact hregistered pubkey peerId hpubkey

/-- A registered peer is dropped. -/
theorem dropRegistered {s : ℕ} {stream : ControlStream} {pubkey : List Char} {room : Option ℕ}
    (hstream : pod.streams.lookup s = some stream) (hleave : ∀ c, e ≠ .leave c)
    (hremoves : pod.removes e = drops stream pubkey room) :
    Effect pod e (Pod.step.dropRegistered pod s stream pubkey room) := by
  have hold : ∀ pubkey' peerId, stream.registered.lookup pubkey' = some peerId →
      pod.Registers s peerId := fun pubkey' peerId h => ⟨stream, pubkey', hstream, h⟩
  rw [Pod.step.dropRegistered]
  split
  · exact of_stream s rfl (fun _ _ => rfl) hleave (fun _ _ h _ => h) fun _ => .inl
  next peerId hpeer =>
    refine setStream ?_ ?_ hleave (fun j peerId' h hkept => ?_) fun pubkey' peerId' h => ?_
    · cases room with
      | none => rfl
      | some i => rfl
    · cases room with
      | none => rfl
      | some i => rfl
    · cases room with
      | none => exact h
      | some i =>
        refine h.modifyRoom fun room' _ hij hmem => Room.mem_removePeer.mpr ⟨?_, hmem⟩
        rintro rfl
        subst hij
        refine hkept (hremoves.trans ?_)
        rw [drops, hpeer, Option.bind_some, Option.map_some]
    · rw [HashMap.lookup_erase_eq] at h
      split_ifs at h
      exact .inl (hold pubkey' peerId' h)

end Effect

theorem not_leaving {c : ℕ} {conn : Connection} (hconn : pod.connections.lookup c = some conn)
    (hne : ∀ key i shouldAutoEnd, conn ≠ .leaving key i shouldAutoEnd) : ¬pod.Leaving c := by
  rintro ⟨key, i, shouldAutoEnd, h⟩
  exact hne key i shouldAutoEnd (Option.some.inj (hconn.symm.trans h))

theorem effect_getOrCreate {c : ℕ} {key : RoomKey}
    (hstep : pod.step (.getOrCreate c key) = some pod') :
    Effect pod (.getOrCreate c key) pod' := by
  simp only [step] at hstep
  split at hstep
  · cases hstep
  next hnone =>
    obtain rfl := Option.some.inj hstep
    refine .setConnection (connections_getOrCreate pod key) (streams_getOrCreate pod key)
      (by rintro _ _ ⟨⟩) (fun i peerId h _ => h.getOrCreate key) (by rintro _ _ _ _ ⟨⟩) ?_
    rintro ⟨key, i, shouldAutoEnd, h⟩
    cases hnone.symm.trans h

theorem effect_giveUp {c : ℕ} {cleanup : Bool}
    (hstep : pod.step (.giveUp c cleanup) = some pod') : Effect pod (.giveUp c cleanup) pod' := by
  simp only [step] at hstep
  split at hstep
  next key i hconn =>
    have hleaving : ¬pod.Leaving c := not_leaving hconn (by rintro _ _ _ ⟨⟩)
    split_ifs at hstep
    · obtain rfl := Option.some.inj hstep
      refine .dropConnection (connections_cleanupIfEmpty _ key) (streams_cleanupIfEmpty _ key)
        (by rintro _ ⟨⟩) (fun i peerId h => ?_) fun h => absurd h hleaving
      rwa [Has, room?_cleanupIfEmpty]
    · obtain rfl := Option.some.inj hstep
      exact .dropConnection rfl rfl (by rintro _ ⟨⟩) (fun i peerId h => h)
        fun h => absurd h hleaving
  next => cases hstep

theorem effect_addPeer {c : ℕ} {peerId : Uuid} {pubkey : List Char} {version : ℕ}
    {ownerIndex : Option ℕ}
    (hstep : pod.step (.addPeer c peerId pubkey version ownerIndex) = some pod') :
    Effect pod (.addPeer c peerId pubkey version ownerIndex) pod' := by
  simp only [step] at hstep
  split at hstep
  next key i hconn =>
    obtain ⟨room, hroom, rfl⟩ := Option.map_eq_some_iff.mp hstep
    have hattempt := attempts_admission room peerId pubkey version ownerIndex
    have hleaving : ¬pod.Leaving c := not_leaving hconn (by rintro _ _ _ ⟨⟩)
    split
    next idx room' hresult =>
      rw [hresult] at hattempt
      refine .setConnection rfl rfl (by rintro _ _ ⟨⟩)
        (fun j peerId' h _ => h.attempt hroom hattempt) ?_ hleaving
      rintro _ _ _ _ ⟨⟩
      exact ⟨rfl, has_attempt hroom hattempt⟩
    next e room' hresult =>
      rw [hresult] at hattempt
      exact .dropConnection rfl rfl (by rintro _ ⟨⟩) (fun j peerId' h => h.attempt hroom hattempt)
        fun h => absurd h hleaving
  next => cases hstep

theorem effect_leave {c : ℕ} (hstep : pod.step (.leave c) = some pod') :
    Effect pod (.leave c) pod' ∧ pod'.Leaving c := by
  have hne : ∀ c', c' ≠ c → (Event.leave c : Event) ≠ .leave c' := fun c' hc h =>
    hc (Event.leave.inj h).symm
  simp only [step] at hstep
  split at hstep
  next key i peerId hconn =>
    obtain rfl := Option.some.inj hstep
    refine ⟨.setConnection rfl rfl hne (fun j peerId' h hkept => ?_)
      (by rintro _ _ _ _ ⟨⟩) (not_leaving hconn (by rintro _ _ _ ⟨⟩)), key, i, false,
      (HashMap.lookup_insert_eq ..).trans (if_pos rfl)⟩
    refine h.modifyRoom fun room _ hij hmem => Room.mem_removePeer.mpr ⟨?_, hmem⟩
    rintro rfl
    subst hij
    exact hkept (by rw [removes, hconn])
  next key i peerId hconn =>
    obtain ⟨room, hroom, rfl⟩ := Option.map_eq_some_iff.mp hstep
    refine ⟨.setConnection rfl rfl hne (fun j peerId' h hkept => ?_)
      (by rintro _ _ _ _ ⟨⟩) (not_leaving hconn (by rintro _ _ _ ⟨⟩)), key, i, _,
      (HashMap.lookup_insert_eq ..).trans (if_pos rfl)⟩
    refine h.modifyRoom fun room _ hij hmem => Room.mem_removePeerAndCheckEnded.mpr ⟨?_, hmem⟩
    rintro rfl
    subst hij
    exact hkept (by rw [removes, hconn])
  next => cases hstep

theorem effect_finish {c : ℕ} {archived : Bool}
    (hstep : pod.step (.finish c archived) = some pod') :
    Effect pod (.finish c archived) pod' := by
  simp only [step] at hstep
  split at hstep
  next key i shouldAutoEnd hconn =>
    split_ifs at hstep
    · obtain rfl := Option.some.inj hstep
      exact .dropConnection rfl rfl (by rintro _ ⟨⟩)
        (fun j peerId h => h.modifyRoom fun _ _ _ hmem => hmem) fun _ => ⟨archived, rfl⟩
    · obtain rfl := Option.some.inj hstep
      refine .dropConnection (connections_cleanupIfEmpty _ key) (streams_cleanupIfEmpty _ key)
        (by rintro _ ⟨⟩) (fun i peerId h => ?_) fun _ => ⟨archived, rfl⟩
      rwa [Has, room?_cleanupIfEmpty]
  next => cases hstep

theorem effect_register {s : ℕ} {key : RoomKey} {pubkey : List Char} {version : ℕ}
    (hstep : pod.step (.register s key pubkey version) = some pod') :
    Effect pod (.register s key pubkey version) pod' := by
  simp only [step] at hstep
  split at hstep
  · obtain rfl := Option.some.inj hstep
    exact .setStream (connections_getOrCreate pod key) (streams_getOrCreate pod key)
      (by rintro _ ⟨⟩) (fun i peerId h _ => h.getOrCreate key) (by rintro _ _ ⟨⟩)
  next stream hstream =>
    have hold : ∀ pubkey' peerId, stream.registered.lookup pubkey' = some peerId →
        pod.Registers s peerId := fun pubkey' peerId h => ⟨stream, pubkey', hstream, h⟩
    split at hstep
    · split_ifs at hstep
      · obtain rfl := Option.some.inj hstep
        exact .setStream (connections_getOrCreate pod key) (streams_getOrCreate pod key)
          (by rintro _ ⟨⟩) (fun i peerId h _ => h.getOrCreate key) fun _ _ h => .inl (hold _ _ h)
      · obtain rfl := Option.some.inj hstep
        exact .setStream rfl rfl (by rintro _ ⟨⟩) (fun _ _ h _ => h) fun _ _ h => .inl (hold _ _ h)
    · cases hstep

theorem effect_validated {s : ℕ} {result : Validation} {peerId : Uuid}
    (hstep : pod.step (.validated s result peerId) = some pod') :
    Effect pod (.validated s result peerId) pod' := by
  simp only [step] at hstep
  split at hstep
  · cases hstep
  next stream hstream =>
    have hold : ∀ pubkey peerId, stream.registered.lookup pubkey = some peerId →
        pod.Registers s peerId := fun pubkey peerId h => ⟨stream, pubkey, hstream, h⟩
    split at hstep
    next i pubkey version hphase =>
      obtain ⟨room, hroom, rfl⟩ := Option.map_eq_some_iff.mp hstep
      have hattempt := room.attempts_addPeer peerId pubkey version
      split
      next idx room' hresult =>
        rw [hresult] at hattempt
        refine .setStream rfl rfl (by rintro _ ⟨⟩) (fun j peerId' h _ => h.attempt hroom hattempt)
          fun pubkey' peerId' h => ?_
        rw [HashMap.lookup_insert_eq] at h
        split_ifs at h
        · exact .inr h
        · exact .inl (hold pubkey' peerId' h)
      next e room' hresult =>
        rw [hresult] at hattempt
        exact .setStream rfl rfl (by rintro _ ⟨⟩) (fun j peerId' h _ => h.attempt hroom hattempt)
          fun pubkey' peerId' h => .inl (hold pubkey' peerId' h)
    · obtain rfl := Option.some.inj hstep
      exact .setStream rfl rfl (by rintro _ ⟨⟩) (fun _ _ h _ => h) fun _ _ h => .inl (hold _ _ h)
    · obtain rfl := Option.some.inj hstep
      exact .setStream rfl rfl (by rintro _ ⟨⟩) (fun _ _ h _ => h) fun _ _ h => .inl (hold _ _ h)
    · cases hstep

theorem effect_unregister {s : ℕ} {pubkey : List Char}
    (hstep : pod.step (.unregister s pubkey) = some pod') :
    Effect pod (.unregister s pubkey) pod' := by
  simp only [step] at hstep
  split at hstep
  · cases hstep
  next stream hstream =>
    split at hstep
    · obtain rfl := Option.some.inj hstep
      exact .dropRegistered hstream (by rintro _ ⟨⟩) (by rw [removes, hstream, Option.bind_some])
    · cases hstep

theorem effect_teardown {s : ℕ} (hstep : pod.step (.teardown s) = some pod') :
    Effect pod (.teardown s) pod' := by
  simp only [step] at hstep
  split at hstep
  · cases hstep
  next stream hstream =>
    split at hstep
    · obtain rfl := Option.some.inj hstep
      exact .setStream rfl rfl (by rintro _ ⟨⟩) (fun _ _ h _ => h)
        fun pubkey peerId h => .inl ⟨stream, pubkey, hstream, h⟩
    · cases hstep

theorem effect_dropPeer {s : ℕ} {pubkey : List Char}
    (hstep : pod.step (.dropPeer s pubkey) = some pod') :
    Effect pod (.dropPeer s pubkey) pod' := by
  simp only [step] at hstep
  split at hstep
  · cases hstep
  next stream hstream =>
    split at hstep
    next room hphase =>
      obtain rfl := Option.some.inj hstep
      obtain ⟨key, registered, phase⟩ := stream
      obtain rfl : phase = .closing room := hphase
      exact .dropRegistered hstream (by rintro _ ⟨⟩) (by rw [removes, hstream])
    next => cases hstep

/-- The effect of an event. -/
theorem effect_of_step {e : Event} (hstep : pod.step e = some pod') : Effect pod e pod' := by
  cases e with
  | getOrCreate => exact effect_getOrCreate hstep
  | giveUp => exact effect_giveUp hstep
  | addPeer => exact effect_addPeer hstep
  | leave => exact (effect_leave hstep).1
  | finish => exact effect_finish hstep
  | register => exact effect_register hstep
  | validated => exact effect_validated hstep
  | unregister => exact effect_unregister hstep
  | teardown => exact effect_teardown hstep
  | dropPeer => exact effect_dropPeer hstep

/-! ### Peers stay -/

/-- Who was let in and has not left is in its room; identifiers are used once. -/
structure Present (pod : Pod) : Prop where
  has : ∀ c key i peerId remote,
    pod.connections.lookup c = some (.admitted key i peerId remote) → pod.Has i peerId
  single : ∀ c c' key key' i i' peerId remote remote',
    pod.connections.lookup c = some (.admitted key i peerId remote) →
      pod.connections.lookup c' = some (.admitted key' i' peerId remote') → c = c'
  apart : ∀ c key i peerId remote s,
    pod.connections.lookup c = some (.admitted key i peerId remote) → ¬pod.Registers s peerId

theorem Present.new : Present .new := ⟨nofun, nofun, nofun⟩

/-- Who is taken out is the peer of a connection that leaves, or of a control stream. -/
theorem of_removes_eq_some {e : Event} {i : ℕ} {peerId : Uuid}
    (h : pod.removes e = some (i, peerId)) :
    (∃ c key remote, e = .leave c ∧
      pod.connections.lookup c = some (.admitted key i peerId remote)) ∨
      ∃ s, pod.Registers s peerId := by
  have hdrops : ∀ {stream pubkey room}, drops stream pubkey room = some (i, peerId) →
      stream.registered.lookup pubkey = some peerId := by
    intro stream pubkey room hdrop
    obtain ⟨j, -, hj⟩ := Option.bind_eq_some_iff.mp hdrop
    obtain ⟨peerId', hpeer, hpair⟩ := Option.map_eq_some_iff.mp hj
    obtain ⟨-, rfl⟩ := Prod.mk.inj hpair
    exact hpeer
  cases e with
  | leave c =>
    rw [removes] at h
    split at h
    next key j peerId' remote hconn =>
      obtain ⟨rfl, rfl⟩ := Prod.mk.inj (Option.some.inj h)
      exact .inl ⟨c, key, remote, rfl, hconn⟩
    next => cases h
  | unregister s pubkey =>
    obtain ⟨stream, hstream, hdrop⟩ := Option.bind_eq_some_iff.mp h
    exact .inr ⟨s, stream, pubkey, hstream, hdrops hdrop⟩
  | dropPeer s pubkey =>
    rw [removes] at h
    split at h
    next key registered room hstream => exact .inr ⟨s, _, pubkey, hstream, hdrops h⟩
    next => cases h
  | _ => cases h

/-- Events keep the peers present, if the identifiers of new ones are fresh. -/
theorem Present.step (h : Present pod) {e : Event} (hstep : pod.step e = some pod')
    (hadmits : ∀ c peerId, e.admits = some (c, peerId) → pod.Fresh peerId)
    (hregisters : ∀ peerId, e.registers = some peerId → pod.Fresh peerId) : Present pod' := by
  have heffect := effect_of_step hstep
  refine ⟨fun c key i peerId remote hc => ?_, fun c c' key key' i i' peerId remote remote' hc hc' =>
    ?_, fun c key i peerId remote s hc hs => ?_⟩
  · rcases heffect.admitted c key i peerId remote hc with ⟨-, hnew⟩ | ⟨hold, hleave⟩
    · exact hnew
    · refine heffect.has i peerId (h.has c key i peerId remote hold) fun hremoves => ?_
      rcases of_removes_eq_some hremoves with ⟨c', key', remote', rfl, hc'⟩ | ⟨s, hs⟩
      · exact hleave (congrArg Event.leave (h.single c' c _ _ _ _ _ _ _ hc' hold))
      · exact h.apart c key i peerId remote s hold hs
  · rcases heffect.admitted c key i peerId remote hc with ⟨hnew, -⟩ | ⟨hold, -⟩
    · rcases heffect.admitted c' key' i' peerId remote' hc' with ⟨hnew', -⟩ | ⟨hold', -⟩
      · exact (Prod.mk.inj (Option.some.inj (hnew.symm.trans hnew'))).1
      · exact absurd hold' ((hadmits c peerId hnew).1 c' key' i' remote')
    · rcases heffect.admitted c' key' i' peerId remote' hc' with ⟨hnew', -⟩ | ⟨hold', -⟩
      · exact absurd hold ((hadmits c' peerId hnew').1 c key i remote)
      · exact h.single c c' key key' i i' peerId remote remote' hold hold'
  · rcases heffect.admitted c key i peerId remote hc with ⟨hnew, -⟩ | ⟨hold, -⟩
    · rcases heffect.registered s peerId hs with hs | hs
      · exact (hadmits c peerId hnew).2 s hs
      · cases e with
        | addPeer => cases hs
        | _ => cases hnew
    · rcases heffect.registered s peerId hs with hs | hs
      · exact h.apart c key i peerId remote s hold hs
      · exact (hregisters peerId hs).1 c key i remote hold

/-- An identifier stays fresh until it is used. -/
theorem Fresh.step {peerId : Uuid} (h : pod.Fresh peerId) {e : Event}
    (hstep : pod.step e = some pod') (hadmits : ∀ c, e.admits ≠ some (c, peerId))
    (hregisters : e.registers ≠ some peerId) : pod'.Fresh peerId := by
  have heffect := effect_of_step hstep
  refine ⟨fun c key i remote hc => ?_, fun s hs => ?_⟩
  · rcases heffect.admitted c key i peerId remote hc with ⟨hnew, -⟩ | ⟨hold, -⟩
    · exact hadmits c hnew
    · exact h.1 c key i remote hold
  · rcases heffect.registered s peerId hs with hs | hs
    · exact h.2 s hs
    · exact hregisters hs

theorem fresh_new (peerId : Uuid) : new.Fresh peerId :=
  ⟨nofun, by rintro s ⟨_, _, ⟨⟩, _⟩⟩

end Pod

end Buzz.Relay.Audio
