import Buzz.Core.Filter
import Buzz.Library.HashMap
import Buzz.Library.Sorting

/-!
# Audio rooms

A room of `crates/buzz-relay/src/audio/room.rs`: the peers that are admitted, each with an index
that its frames carry, and the gate that admits them. The gate is one mutex, so a room runs one call
after another. The owner of a huddle hands out indices, a freed one before a fresh one; an ingress
room admits a peer at the index that the owner gave it.

Every admission and every removal is told as a numbered delta. A receiver that holds the roster at
one revision applies the deltas with the next ones. The channels to the clients are left out, and so
is a poisoned mutex: nothing panics under it.

## Main definitions

* `AdmissionGuard`, `Room`, `AdmissionError`, `RosterDelta`, `RosterSnapshot`.
* `Room.addPeer`, `addPeerAtIndex`, `removePeer`, `removePeerAndCheckEnded`, `markEnded`,
  `clearEnded`, `rosterSnapshot`.
* `Room.Sound`: the invariant of admission.
* `Op`, `Room.apply`, `Room.run`: sequences of calls.

## Main results

* `Room.Sound.run`: the invariant holds after every sequence of calls.
* `room_admission`: admission, refusals, the end of a huddle and the roster.
-/

namespace Buzz.Relay.Audio

open Buzz.Core Buzz.Library

/-! ### Data -/

/-- Defense-in-depth cap on peers per room. -/
def MAX_PEERS_PER_ROOM : ℕ := 25

/-- A connected audio peer. -/
structure AudioPeer where
  pubkey : List Char
  peerIndex : ℕ
  deriving DecidableEq

/-- One authoritative owner-roster entry. -/
structure RosterPeer where
  pubkey : List Char
  peerIndex : ℕ
  deriving DecidableEq

/-- A complete owner-roster snapshot at one revision. -/
structure RosterSnapshot where
  revision : UInt64
  peers : List RosterPeer
  deriving DecidableEq

/-- One ordered owner-roster mutation. -/
structure RosterDelta where
  revision : UInt64
  joined : Option RosterPeer
  left : Option RosterPeer
  deriving DecidableEq

/-- Reason a peer was refused entry to a room. -/
inductive AdmissionError
  | ended
  | full
  | versionMismatch (pinned requested : ℕ)
  deriving DecidableEq

/-- Peer index allocator and room lifecycle gate. The index freed last is the first of `free`. -/
structure AdmissionGuard where
  nextFresh : ℕ
  free : List ℕ
  ended : Bool
  pinnedVersion : Option ℕ
  rosterRevision : UInt64
  deriving DecidableEq

/-- A single audio room. `rosterTx` holds the deltas that were sent. -/
structure Room where
  peers : HashMap Uuid AudioPeer
  guard : AdmissionGuard
  rosterTx : List RosterDelta

namespace AdmissionGuard

def new : AdmissionGuard where
  nextFresh := 0
  free := []
  ended := false
  pinnedVersion := none
  rosterRevision := 0

/-- A freed index, or else a fresh one below 255. -/
def alloc (g : AdmissionGuard) : Option (ℕ × AdmissionGuard) :=
  match g.free with
  | idx :: free => some (idx, { g with free := free })
  | [] =>
    if g.nextFresh = 255 then none
    else some (g.nextFresh, { g with nextFresh := g.nextFresh + 1 })

def release (g : AdmissionGuard) (idx : ℕ) : AdmissionGuard := { g with free := idx :: g.free }

/-- Take an index out of the allocator: later allocations avoid it. -/
def reserve (g : AdmissionGuard) (idx : ℕ) : AdmissionGuard :=
  { g with
    free := g.free.filter fun i => i ≠ idx
    nextFresh := if g.nextFresh ≤ idx then min (idx + 1) 255 else g.nextFresh }

/-- The first version that is admitted pins the room. -/
def pin (g : AdmissionGuard) (requestedVersion : ℕ) : AdmissionGuard :=
  { g with pinnedVersion := some (g.pinnedVersion.getD requestedVersion) }

/-- The version a room is pinned to, when it is not the requested one. -/
def versionClash (g : AdmissionGuard) (requestedVersion : ℕ) : Option ℕ :=
  g.pinnedVersion.filter fun pinned => pinned ≠ requestedVersion

end AdmissionGuard

/-- The roster entry of a peer. -/
def AudioPeer.toRoster (peer : AudioPeer) : RosterPeer := ⟨peer.pubkey, peer.peerIndex⟩

/-! ### Calls -/

namespace Room

/-- An empty room. -/
def new : Room := ⟨∅, .new, []⟩

/-- The peers of a registry, in the order of an iteration. -/
def peersOf (peers : HashMap Uuid AudioPeer) : List AudioPeer := peers.entries.map fun e => e.2

/-- The admitted peers. -/
def peerList (room : Room) : List AudioPeer := peersOf room.peers

/-- The indices in use. -/
def indices (room : Room) : List ℕ := room.peerList.map AudioPeer.peerIndex

/-- Send a delta with the next revision. -/
def publish (room : Room) (joined left : Option RosterPeer) : Room :=
  { room with
    guard := { room.guard with rosterRevision := room.guard.rosterRevision + 1 }
    rosterTx := room.rosterTx ++ [⟨room.guard.rosterRevision + 1, joined, left⟩] }

/-- Insert a peer whose index is taken, and announce it. -/
def insertPeer (room : Room) (guard : AdmissionGuard) (peerId : Uuid) (peer : AudioPeer) : Room :=
  publish { room with peers := room.peers.insert peerId peer, guard := guard }
    (some peer.toRoster) none

/-- Add a peer at an index of the room's own. -/
def addPeer (room : Room) (peerId : Uuid) (pubkey : List Char) (requestedVersion : ℕ) :
    Except AdmissionError ℕ × Room :=
  if room.guard.ended then (.error .ended, room)
  else if MAX_PEERS_PER_ROOM ≤ room.peerList.length then (.error .full, room)
  else match room.guard.versionClash requestedVersion with
    | some pinned => (.error (.versionMismatch pinned requestedVersion), room)
    | none =>
      match room.guard.alloc with
      | none => (.error .full, room)
      | some (idx, guard) =>
        (.ok idx, room.insertPeer (guard.pin requestedVersion) peerId ⟨pubkey, idx⟩)

/-- Add a non-owner ingress peer at the index that the owner allocated. -/
def addPeerAtIndex (room : Room) (peerId : Uuid) (pubkey : List Char) (requestedVersion : ℕ)
    (peerIndex : ℕ) : Except AdmissionError ℕ × Room :=
  if room.guard.ended then (.error .ended, room)
  else if MAX_PEERS_PER_ROOM ≤ room.peerList.length ∨ peerIndex ∈ room.indices then
    (.error .full, room)
  else match room.guard.versionClash requestedVersion with
    | some pinned => (.error (.versionMismatch pinned requestedVersion), room)
    | none =>
      (.ok peerIndex,
        room.insertPeer ((room.guard.pin requestedVersion).reserve peerIndex) peerId
          ⟨pubkey, peerIndex⟩)

/-- Take a peer out, recycle its index and announce it, under one lock. -/
def detach (room : Room) (peerId : Uuid) : Option (AudioPeer × Room) :=
  (room.peers.lookup peerId).map fun peer =>
    (peer, publish { room with
      peers := room.peers.erase peerId
      guard := room.guard.release peer.peerIndex } none (some peer.toRoster))

/-- Remove a peer and recycle its index. -/
def removePeer (room : Room) (peerId : Uuid) : Room :=
  match room.detach peerId with
  | some (_, room') => room'
  | none => room

/-- The room with its gate closed or open. -/
def setEnded (room : Room) (ended : Bool) : Room :=
  { room with guard := { room.guard with ended := ended } }

/-- Remove a peer and check whether the room should end: the first to leave it empty ends it. -/
def removePeerAndCheckEnded (room : Room) (peerId : Uuid) : Option (ℕ × Bool) × Room :=
  match room.detach peerId with
  | none => (none, room)
  | some (peer, room') =>
    if !room'.guard.ended && room'.peerList.isEmpty then
      (some (peer.peerIndex, true), room'.setEnded true)
    else (some (peer.peerIndex, false), room')

/-- Mark the room as ended; whether it is empty. -/
def markEnded (room : Room) : Bool × Room := (room.peerList.isEmpty, room.setEnded true)

/-- Undo `markEnded`. -/
def clearEnded (room : Room) : Room := room.setEnded false

/-- A complete roster and its revision. -/
def rosterSnapshot (room : Room) : RosterSnapshot :=
  ⟨room.guard.rosterRevision,
    sortByKey RosterPeer.peerIndex (room.peerList.map AudioPeer.toRoster)⟩

end Room

/-- What a receiver makes of a delta. -/
def RosterDelta.apply (roster : List RosterPeer) (delta : RosterDelta) : List RosterPeer :=
  (match delta.left with
    | some peer => roster.erase peer
    | none => roster) ++ delta.joined.toList

/-! ### The invariant -/

namespace Room

/-- The invariant of admission: an index is in use once or free, never both, and none is past the
high-water mark; the deltas that were sent are numbered from one and make up the roster. -/
structure Sound (room : Room) : Prop where
  nodup : (room.guard.free ++ room.indices).Nodup
  lt_nextFresh : ∀ i ∈ room.guard.free ++ room.indices, i < room.guard.nextFresh
  nextFresh_le : room.guard.nextFresh ≤ 255
  size : room.peerList.length ≤ MAX_PEERS_PER_ROOM
  revision : room.guard.rosterRevision = UInt64.ofNat room.rosterTx.length
  revisions : room.rosterTx.map RosterDelta.revision =
    (List.range room.rosterTx.length).map fun n => UInt64.ofNat (n + 1)
  roster : (room.rosterTx.foldl RosterDelta.apply []).Perm
    (room.peerList.map AudioPeer.toRoster)

variable {room room' : Room}

theorem Sound.new : new.Sound where
  nodup := List.nodup_nil
  lt_nextFresh _ hi := absurd hi List.not_mem_nil
  nextFresh_le := Nat.zero_le _
  size := Nat.zero_le _
  revision := rfl
  revisions := rfl
  roster := .refl _

/-- A gate that is opened or closed lets nobody in or out. -/
theorem Sound.setEnded (h : room.Sound) (ended : Bool) : (room.setEnded ended).Sound :=
  ⟨h.nodup, h.lt_nextFresh, h.nextFresh_le, h.size, h.revision, h.revisions, h.roster⟩

theorem ofNat_length_succ (n : ℕ) : UInt64.ofNat n + 1 = UInt64.ofNat (n + 1) :=
  (UInt64.ofNat_add n 1).symm

/-- A delta is numbered one past the last and applied after it. -/
theorem Sound.publish {guard : AdmissionGuard} {peers : HashMap Uuid AudioPeer}
    {joined left : Option RosterPeer} (h : room.Sound)
    (hrevision : guard.rosterRevision = room.guard.rosterRevision)
    (hnodup : (guard.free ++ (peersOf peers).map AudioPeer.peerIndex).Nodup)
    (hlt : ∀ i ∈ guard.free ++ (peersOf peers).map AudioPeer.peerIndex, i < guard.nextFresh)
    (hle : guard.nextFresh ≤ 255) (hsize : (peersOf peers).length ≤ MAX_PEERS_PER_ROOM)
    (hroster : (RosterDelta.apply (room.rosterTx.foldl RosterDelta.apply [])
      ⟨guard.rosterRevision + 1, joined, left⟩).Perm
        ((peersOf peers).map AudioPeer.toRoster)) :
    (Room.publish { room with peers := peers, guard := guard } joined left).Sound := by
  have hnext : guard.rosterRevision + 1 = UInt64.ofNat (room.rosterTx.length + 1) := by
    rw [hrevision, h.revision, ofNat_length_succ]
  refine ⟨hnodup, hlt, hle, hsize, ?_, ?_, ?_⟩
  · simp only [Room.publish, List.length_append, List.length_singleton]
    exact hnext
  · simp only [Room.publish, List.map_append, List.map_singleton, List.length_append,
      List.length_singleton, List.range_succ, h.revisions, hnext]
  · simp only [Room.publish, List.foldl_append, List.foldl_cons, List.foldl_nil]
    exact hroster

/-- A peer is inserted at an index that nobody uses and that is not free any more. -/
theorem Sound.insertPeer {guard : AdmissionGuard} {peerId : Uuid} {peer : AudioPeer}
    (h : room.Sound) (hfresh : peerId ∉ room.peers)
    (hroom : room.peerList.length < MAX_PEERS_PER_ROOM)
    (hrevision : guard.rosterRevision = room.guard.rosterRevision)
    (hfree : guard.free.Sublist room.guard.free) (hnotFree : peer.peerIndex ∉ guard.free)
    (hunused : peer.peerIndex ∉ room.indices) (hmono : room.guard.nextFresh ≤ guard.nextFresh)
    (hlt : peer.peerIndex < guard.nextFresh) (hle : guard.nextFresh ≤ 255) :
    (room.insertPeer guard peerId peer).Sound := by
  have hpeers : peersOf (room.peers.insert peerId peer) = peer :: room.peerList := by
    rw [peersOf, AList.entries_insert_of_notMem hfresh, List.map_cons, peerList, peersOf]
  have hindices : (peersOf (room.peers.insert peerId peer)).map AudioPeer.peerIndex =
      peer.peerIndex :: room.indices := by
    rw [hpeers, List.map_cons, indices]
  refine h.publish hrevision ?_ ?_ hle ?_ ?_
  · rw [hindices]
    refine List.nodup_middle.mpr (List.nodup_cons.mpr ⟨?_, ?_⟩)
    · rw [List.mem_append]
      exact not_or.mpr ⟨hnotFree, hunused⟩
    · exact h.nodup.sublist (hfree.append_right _)
  · rw [hindices]
    intro i hi
    rcases List.mem_append.mp hi with hi | hi
    · exact (h.lt_nextFresh i (List.mem_append_left _ (hfree.subset hi))).trans_le hmono
    · rcases List.mem_cons.mp hi with rfl | hi
      · exact hlt
      · exact (h.lt_nextFresh i (List.mem_append_right _ hi)).trans_le hmono
  · rw [hpeers, List.length_cons]
    exact hroom
  · rw [hpeers, List.map_cons]
    exact (h.roster.append_right [peer.toRoster]).trans (List.perm_append_singleton _ _)

/-- What a removal leaves. -/
theorem Sound.detach (h : room.Sound) {peerId : Uuid} {peer : AudioPeer}
    (hdetach : room.detach peerId = some (peer, room')) : room'.Sound := by
  obtain ⟨peer', hlookup, hpair⟩ := Option.map_eq_some_iff.mp hdetach
  obtain ⟨rfl, rfl⟩ := Prod.mk.inj hpair
  have hpeers : room.peerList.Perm (peer' :: peersOf (room.peers.erase peerId)) :=
    (HashMap.entries_perm_erase hlookup).map fun e : (_ : Uuid) × AudioPeer => e.2
  -- The index moves from the indices in use to the free ones.
  have hallocated : (room.guard.free ++ room.indices).Perm (peer'.peerIndex :: room.guard.free ++
      (peersOf (room.peers.erase peerId)).map AudioPeer.peerIndex) :=
    ((hpeers.map AudioPeer.peerIndex).append_left _).trans List.perm_middle
  refine h.publish rfl (hallocated.nodup_iff.mp h.nodup) ?_ h.nextFresh_le ?_ ?_
  · exact fun i hi => h.lt_nextFresh i (hallocated.mem_iff.mpr hi)
  · have hsize := h.size
    rw [hpeers.length_eq, List.length_cons] at hsize
    exact Nat.le_of_succ_le hsize
  · have hroster := (h.roster.trans (hpeers.map AudioPeer.toRoster)).erase peer'.toRoster
    rw [List.map_cons, List.erase_cons_head] at hroster
    simpa only [RosterDelta.apply, Option.toList_none, List.append_nil] using hroster

/-! ### Allocation -/

theorem Sound.addPeer (h : room.Sound) {peerId : Uuid} (hfresh : peerId ∉ room.peers)
    (pubkey : List Char) (requestedVersion : ℕ) :
    (room.addPeer peerId pubkey requestedVersion).2.Sound := by
  rw [Room.addPeer]
  split_ifs with hended hfull
  · exact h
  · exact h
  have hroom : room.peerList.length < MAX_PEERS_PER_ROOM := not_le.mp hfull
  split
  · exact h
  cases hfree : room.guard.free with
  | cons idx free =>
    -- A freed index is used again.
    have hnodup := h.nodup
    rw [hfree, List.cons_append, List.nodup_cons, List.mem_append] at hnodup
    have hidx : idx < room.guard.nextFresh :=
      h.lt_nextFresh idx (List.mem_append_left _ (hfree ▸ List.mem_cons_self))
    simp only [AdmissionGuard.alloc, hfree]
    refine h.insertPeer hfresh hroom rfl ?_ (fun hmem => hnodup.1 (.inl hmem))
      (fun hmem => hnodup.1 (.inr hmem)) le_rfl hidx h.nextFresh_le
    rw [hfree]
    exact List.sublist_cons_self idx free
  | nil =>
    simp only [AdmissionGuard.alloc, hfree]
    split_ifs with hexhausted
    · exact h
    · have hunused : ∀ i ∈ room.guard.free ++ room.indices, i ≠ room.guard.nextFresh :=
        fun i hi => (h.lt_nextFresh i hi).ne
      refine h.insertPeer hfresh hroom rfl (List.nil_sublist _) List.not_mem_nil ?_ (Nat.le_succ _)
        (Nat.lt_succ_self _) (Nat.lt_of_le_of_ne h.nextFresh_le hexhausted)
      exact fun hmem => hunused _ (List.mem_append_right _ hmem) rfl

/-- The high-water mark jumps past an imposed index. -/
theorem nextFresh_reserve {g : AdmissionGuard} {idx : ℕ} (hidx : idx ≤ 254) :
    (g.reserve idx).nextFresh = max g.nextFresh (idx + 1) := by
  simp only [AdmissionGuard.reserve]
  split_ifs with h
  · rw [min_eq_left (by omega), max_eq_right (by omega)]
  · rw [max_eq_left (by omega)]

theorem Sound.addPeerAtIndex (h : room.Sound) {peerId : Uuid} (hfresh : peerId ∉ room.peers)
    (pubkey : List Char) (requestedVersion : ℕ) {peerIndex : ℕ} (hindex : peerIndex ≤ 254) :
    (room.addPeerAtIndex peerId pubkey requestedVersion peerIndex).2.Sound := by
  rw [Room.addPeerAtIndex]
  split_ifs with hended hfull
  · exact h
  · exact h
  obtain ⟨hroom, hunused⟩ := not_or.mp hfull
  split
  · exact h
  have hnext := nextFresh_reserve (g := room.guard.pin requestedVersion) hindex
  refine h.insertPeer hfresh (not_le.mp hroom) rfl List.filter_sublist ?_ hunused ?_ ?_ ?_
  · exact fun hmem => of_decide_eq_true (List.mem_filter.mp hmem).2 rfl
  · exact hnext ▸ le_max_left _ _
  · exact hnext ▸ Nat.lt_of_succ_le (le_max_right _ _)
  · exact hnext ▸ max_le h.nextFresh_le (Nat.succ_le_succ hindex)

theorem Sound.removePeer (h : room.Sound) (peerId : Uuid) : (room.removePeer peerId).Sound := by
  rw [Room.removePeer]
  split
  next hdetach => exact h.detach hdetach
  next => exact h

theorem Sound.removePeerAndCheckEnded (h : room.Sound) (peerId : Uuid) :
    (room.removePeerAndCheckEnded peerId).2.Sound := by
  rw [Room.removePeerAndCheckEnded]
  split
  · exact h
  next hdetach =>
    split_ifs
    · exact (h.detach hdetach).setEnded true
    · exact h.detach hdetach

/-- The roster at any moment is what the deltas make of an empty one. -/
theorem Sound.rosterSnapshot_eq (h : room.Sound) : room.rosterSnapshot =
    ⟨UInt64.ofNat room.rosterTx.length,
      sortByKey RosterPeer.peerIndex (room.rosterTx.foldl RosterDelta.apply [])⟩ := by
  have hkeys : ((room.peerList.map AudioPeer.toRoster).map RosterPeer.peerIndex).Nodup := by
    rw [List.map_map]
    exact (List.nodup_append.mp h.nodup).2.1
  rw [Room.rosterSnapshot, h.revision, sortByKey_eq_of_perm h.roster.symm hkeys]

end Room

/-! ### What a call can do -/

namespace Room

variable {room room' : Room}

/-- The result of an attempt to admit a peer: a refusal that leaves the room as it is, or an
admission to an open room that is pinned to the requested version from then on. -/
def Attempts (room : Room) (peerId : Uuid) (pubkey : List Char) (requestedVersion : ℕ)
    (result : Except AdmissionError ℕ × Room) : Prop :=
  (∃ e, result = (.error e, room)) ∨
    room.guard.ended = false ∧
      (∀ pinned, room.guard.pinnedVersion = some pinned → pinned = requestedVersion) ∧
      ∃ idx guard, result = (.ok idx, room.insertPeer guard peerId ⟨pubkey, idx⟩) ∧
        guard.ended = false ∧ guard.pinnedVersion = some requestedVersion

theorem eq_of_versionClash_eq_none {g : AdmissionGuard} {requestedVersion : ℕ}
    (h : g.versionClash requestedVersion = none) :
    ∀ pinned, g.pinnedVersion = some pinned → pinned = requestedVersion := by
  intro pinned hpinned
  by_contra hne
  rw [AdmissionGuard.versionClash, hpinned, Option.filter_some, if_pos (decide_eq_true hne)] at h
  cases h

theorem pinnedVersion_pin {g : AdmissionGuard} {requestedVersion : ℕ}
    (h : ∀ pinned, g.pinnedVersion = some pinned → pinned = requestedVersion) :
    (g.pin requestedVersion).pinnedVersion = some requestedVersion := by
  rw [AdmissionGuard.pin]
  cases hpinned : g.pinnedVersion with
  | none => rfl
  | some pinned => rw [h pinned hpinned, Option.getD_some]

theorem alloc_spec {g g' : AdmissionGuard} {idx : ℕ} (h : g.alloc = some (idx, g')) :
    g'.ended = g.ended ∧ g'.pinnedVersion = g.pinnedVersion := by
  rw [AdmissionGuard.alloc] at h
  split at h
  · cases h
    exact ⟨rfl, rfl⟩
  · split_ifs at h
    cases h
    exact ⟨rfl, rfl⟩

theorem attempts_addPeer (room : Room) (peerId : Uuid) (pubkey : List Char)
    (requestedVersion : ℕ) : room.Attempts peerId pubkey requestedVersion
      (room.addPeer peerId pubkey requestedVersion) := by
  rw [Room.addPeer]
  split_ifs with hended
  · exact .inl ⟨_, rfl⟩
  · exact .inl ⟨_, rfl⟩
  split
  · exact .inl ⟨_, rfl⟩
  next hclash =>
    split
    · exact .inl ⟨_, rfl⟩
    next halloc =>
      obtain ⟨hended', hpinned'⟩ := alloc_spec halloc
      have hpinned := eq_of_versionClash_eq_none hclash
      refine .inr ⟨Bool.eq_false_iff.mpr hended, hpinned, _, _, rfl, ?_, ?_⟩
      · exact hended'.trans (Bool.eq_false_iff.mpr hended)
      · exact pinnedVersion_pin (hpinned' ▸ hpinned)

theorem attempts_addPeerAtIndex (room : Room) (peerId : Uuid) (pubkey : List Char)
    (requestedVersion peerIndex : ℕ) : room.Attempts peerId pubkey requestedVersion
      (room.addPeerAtIndex peerId pubkey requestedVersion peerIndex) := by
  rw [Room.addPeerAtIndex]
  split_ifs with hended
  · exact .inl ⟨_, rfl⟩
  · exact .inl ⟨_, rfl⟩
  split
  · exact .inl ⟨_, rfl⟩
  next hclash =>
    have hpinned := eq_of_versionClash_eq_none hclash
    have hopen : room.guard.ended = false := Bool.eq_false_iff.mpr hended
    exact .inr ⟨hopen, hpinned, _, _, rfl, hopen, pinnedVersion_pin hpinned⟩

/-- A room that has ended admits nobody. -/
theorem Attempts.eq_of_ended {peerId : Uuid} {pubkey : List Char} {requestedVersion : ℕ}
    {result : Except AdmissionError ℕ × Room}
    (h : room.Attempts peerId pubkey requestedVersion result)
    (hended : room.guard.ended = true) : result.2 = room := by
  rcases h with ⟨e, rfl⟩ | ⟨hopen, -⟩
  · rfl
  · exact absurd (hended.symm.trans hopen) nofun

/-- Nobody can be removed from an empty room. -/
theorem detach_of_peerList_eq_nil (h : room.peerList = []) (peerId : Uuid) :
    room.detach peerId = none := by
  have hentries : room.peers.entries = [] := List.map_eq_nil_iff.mp h
  rw [detach, Option.map_eq_none_iff, AList.lookup, hentries, List.dlookup_nil]

/-! ### Who is in a room -/

theorem mem_insertPeer {guard : AdmissionGuard} {peerId peerId' : Uuid} {peer : AudioPeer} :
    peerId ∈ (room.insertPeer guard peerId' peer).peers ↔
      peerId = peerId' ∨ peerId ∈ room.peers := by
  rw [insertPeer, publish, AList.mem_insert]

theorem mem_detach {peerId peerId' : Uuid} {peer : AudioPeer}
    (hdetach : room.detach peerId' = some (peer, room')) :
    peerId ∈ room'.peers ↔ peerId ≠ peerId' ∧ peerId ∈ room.peers := by
  obtain ⟨peer', -, hpair⟩ := Option.map_eq_some_iff.mp hdetach
  obtain ⟨-, rfl⟩ := Prod.mk.inj hpair
  rw [publish, AList.mem_erase]

/-- Who cannot be removed is not there. -/
theorem ne_of_detach_eq_none {peerId peerId' : Uuid} (hdetach : room.detach peerId' = none)
    (h : peerId ∈ room.peers) : peerId ≠ peerId' := by
  rintro rfl
  rw [detach, Option.map_eq_none_iff] at hdetach
  exact AList.lookup_eq_none.mp hdetach h

/-- A removal takes one peer out. -/
theorem mem_removePeer {peerId peerId' : Uuid} :
    peerId ∈ (room.removePeer peerId').peers ↔ peerId ≠ peerId' ∧ peerId ∈ room.peers := by
  rw [removePeer]
  split
  next hdetach => exact mem_detach hdetach
  next hdetach => exact ⟨fun h => ⟨ne_of_detach_eq_none hdetach h, h⟩, And.right⟩

theorem mem_removePeerAndCheckEnded {peerId peerId' : Uuid} :
    peerId ∈ (room.removePeerAndCheckEnded peerId').2.peers ↔
      peerId ≠ peerId' ∧ peerId ∈ room.peers := by
  rw [removePeerAndCheckEnded]
  split
  next hdetach => exact ⟨fun h => ⟨ne_of_detach_eq_none hdetach h, h⟩, And.right⟩
  next peer room' hdetach =>
    have hmem : peerId ∈ room'.peers ↔ _ := mem_detach hdetach
    split_ifs
    · exact hmem
    · exact hmem

/-- An attempt takes nobody out. -/
theorem Attempts.mem {peerId peerId' : Uuid} {pubkey : List Char} {requestedVersion : ℕ}
    {result : Except AdmissionError ℕ × Room}
    (h : room.Attempts peerId' pubkey requestedVersion result) (hpeer : peerId ∈ room.peers) :
    peerId ∈ result.2.peers := by
  rcases h with ⟨e, rfl⟩ | ⟨-, -, idx, guard, rfl, -⟩
  · exact hpeer
  · exact mem_insertPeer.mpr (.inr hpeer)

/-- Who is let in is there. -/
theorem Attempts.mem_self {peerId : Uuid} {pubkey : List Char} {requestedVersion idx : ℕ}
    (h : room.Attempts peerId pubkey requestedVersion (.ok idx, room')) : peerId ∈ room'.peers := by
  rcases h with ⟨e, he⟩ | ⟨-, -, idx', guard, heq, -⟩
  · cases he
  · obtain ⟨-, rfl⟩ := Prod.mk.inj heq
    exact mem_insertPeer.mpr (.inl rfl)

/-- A removal touches neither the gate nor the pin. -/
theorem guard_detach {peerId : Uuid} {peer : AudioPeer}
    (h : room.detach peerId = some (peer, room')) :
    room'.guard.ended = room.guard.ended ∧
      room'.guard.pinnedVersion = room.guard.pinnedVersion := by
  obtain ⟨peer', -, hpair⟩ := Option.map_eq_some_iff.mp h
  obtain ⟨-, rfl⟩ := Prod.mk.inj hpair
  exact ⟨rfl, rfl⟩

theorem guard_removePeer (room : Room) (peerId : Uuid) :
    (room.removePeer peerId).guard.ended = room.guard.ended ∧
      (room.removePeer peerId).guard.pinnedVersion = room.guard.pinnedVersion := by
  rw [Room.removePeer]
  split
  next hdetach => exact guard_detach hdetach
  next => exact ⟨rfl, rfl⟩

/-- Only a removal from an open room that leaves it empty reports the end, and it closes the room.
Every other one leaves the gate as it is. -/
theorem removePeerAndCheckEnded_cases (room : Room) (peerId : Uuid) :
    (room.removePeerAndCheckEnded peerId).2.guard.pinnedVersion = room.guard.pinnedVersion ∧
      ((∃ idx, (room.removePeerAndCheckEnded peerId).1 = some (idx, true) ∧
          room.guard.ended = false ∧
          (room.removePeerAndCheckEnded peerId).2.guard.ended = true ∧
          (room.removePeerAndCheckEnded peerId).2.peerList = []) ∨
        (∀ idx, (room.removePeerAndCheckEnded peerId).1 ≠ some (idx, true)) ∧
          (room.removePeerAndCheckEnded peerId).2.guard.ended = room.guard.ended) := by
  rw [Room.removePeerAndCheckEnded]
  split
  · exact ⟨rfl, .inr ⟨fun _ h => (nomatch h), rfl⟩⟩
  next peer room' hdetach =>
    obtain ⟨hended, hpinned⟩ := guard_detach hdetach
    split_ifs with hends
    · rw [Bool.and_eq_true, Bool.not_eq_true'] at hends
      exact ⟨hpinned, .inl ⟨_, rfl, hended ▸ hends.1, rfl, List.isEmpty_iff.mp hends.2⟩⟩
    · refine ⟨hpinned, .inr ⟨fun idx h => ?_, hended⟩⟩
      cases h

end Room

/-! ### Sequences of calls -/

/-- A call. The identifier of a new peer is drawn by the call. -/
inductive Op
  | addPeer (peerId : Uuid) (pubkey : List Char) (requestedVersion : ℕ)
  | addPeerAtIndex (peerId : Uuid) (pubkey : List Char) (requestedVersion peerIndex : ℕ)
  | removePeer (peerId : Uuid)
  | removePeerAndCheckEnded (peerId : Uuid)
  | markEnded
  | clearEnded
  | rosterSnapshot
  deriving DecidableEq

/-- The version that a new peer asks for. -/
def Op.requestedVersion : Op → Option ℕ
  | .addPeer _ _ v => some v
  | .addPeerAtIndex _ _ v _ => some v
  | _ => none

/-- What a call returns. -/
inductive Outcome
  | admission (result : Except AdmissionError ℕ)
  | removal (result : Option (ℕ × Bool))
  | emptied (isEmpty : Bool)
  | snapshot (roster : RosterSnapshot)
  | unit

namespace Room

variable {room : Room}

/-- One call. -/
def apply (room : Room) : Op → Outcome × Room
  | .addPeer peerId pubkey requestedVersion =>
    (room.addPeer peerId pubkey requestedVersion).map .admission id
  | .addPeerAtIndex peerId pubkey requestedVersion peerIndex =>
    (room.addPeerAtIndex peerId pubkey requestedVersion peerIndex).map .admission id
  | .removePeer peerId => (.unit, room.removePeer peerId)
  | .removePeerAndCheckEnded peerId => (room.removePeerAndCheckEnded peerId).map .removal id
  | .markEnded => room.markEnded.map .emptied id
  | .clearEnded => (.unit, room.clearEnded)
  | .rosterSnapshot => (.snapshot room.rosterSnapshot, room)

/-- A new identifier is not in use, and an imposed index is one that an owner gives. -/
def Allows (room : Room) : Op → Prop
  | .addPeer peerId _ _ => peerId ∉ room.peers
  | .addPeerAtIndex peerId _ _ peerIndex => peerId ∉ room.peers ∧ peerIndex ≤ 254
  | _ => True

/-- The room after a sequence of calls. -/
def run (room : Room) (ops : List Op) : Room := ops.foldl (fun r op => (r.apply op).2) room

/-- Every call of a sequence is allowed when it is made. -/
def AllowsAll : Room → List Op → Prop
  | _, [] => True
  | room, op :: ops => room.Allows op ∧ (room.apply op).2.AllowsAll ops

instance (room : Room) : (op : Op) → Decidable (room.Allows op)
  | .addPeer peerId _ _ => inferInstanceAs (Decidable (peerId ∉ room.peers))
  | .addPeerAtIndex peerId _ _ peerIndex =>
    inferInstanceAs (Decidable (peerId ∉ room.peers ∧ peerIndex ≤ 254))
  | .removePeer _ | .removePeerAndCheckEnded _ | .markEnded | .clearEnded | .rosterSnapshot =>
    .isTrue trivial

instance decidableAllowsAll : (room : Room) → (ops : List Op) → Decidable (room.AllowsAll ops)
  | _, [] => .isTrue trivial
  | room, op :: ops =>
    have := decidableAllowsAll (room.apply op).2 ops
    inferInstanceAs (Decidable (room.Allows op ∧ (room.apply op).2.AllowsAll ops))

theorem Sound.apply (h : room.Sound) {op : Op} (hop : room.Allows op) :
    (room.apply op).2.Sound := by
  cases op with
  | addPeer peerId pubkey version => exact h.addPeer hop pubkey version
  | addPeerAtIndex peerId pubkey version idx => exact h.addPeerAtIndex hop.1 pubkey version hop.2
  | removePeer peerId => exact h.removePeer peerId
  | removePeerAndCheckEnded peerId => exact h.removePeerAndCheckEnded peerId
  | markEnded => exact h.setEnded true
  | clearEnded => exact h.setEnded false
  | rosterSnapshot => exact h

theorem Sound.run {ops : List Op} (h : room.Sound) (hops : room.AllowsAll ops) :
    (room.run ops).Sound := by
  induction ops generalizing room with
  | nil => exact h
  | cons op ops ih => exact ih (h.apply hops.1) hops.2

/-- A call that answers an admission request attempts one. -/
theorem attempts_of_admission {op : Op} {result : Except AdmissionError ℕ}
    (h : (room.apply op).1 = .admission result) :
    ∃ peerId pubkey v, op.requestedVersion = some v ∧
      room.Attempts peerId pubkey v (result, (room.apply op).2) := by
  cases op with
  | addPeer peerId pubkey v =>
    obtain rfl := Outcome.admission.inj h
    exact ⟨peerId, pubkey, v, rfl, room.attempts_addPeer peerId pubkey v⟩
  | addPeerAtIndex peerId pubkey v idx =>
    obtain rfl := Outcome.admission.inj h
    exact ⟨peerId, pubkey, v, rfl, room.attempts_addPeerAtIndex peerId pubkey v idx⟩
  | removePeer | removePeerAndCheckEnded | markEnded | clearEnded | rosterSnapshot => cases h

/-- A peer is admitted to an open room, which is pinned to its version from then on. -/
theorem apply_admitted {op : Op} {idx : ℕ} (h : (room.apply op).1 = .admission (.ok idx)) :
    room.guard.ended = false ∧ ∃ v, op.requestedVersion = some v ∧
      (room.apply op).2.guard.pinnedVersion = some v := by
  obtain ⟨peerId, pubkey, v, hv, ⟨e, he⟩ | ⟨hopen, -, i, guard, hok, -, hpinned⟩⟩ :=
    attempts_of_admission h
  · cases he
  · refine ⟨hopen, v, hv, ?_⟩
    rw [(Prod.mk.inj hok).2]
    exact hpinned

/-- A refusal changes nothing. -/
theorem apply_refused {op : Op} {e : AdmissionError}
    (h : (room.apply op).1 = .admission (.error e)) : (room.apply op).2 = room := by
  obtain ⟨peerId, pubkey, v, -, ⟨e', he⟩ | ⟨-, -, i, guard, hok, -⟩⟩ := attempts_of_admission h
  · exact (Prod.mk.inj he).2
  · cases hok

/-- Whoever ends the huddle leaves an open room empty, and closes it. -/
theorem apply_shouldEnd {op : Op} {idx : ℕ} (h : (room.apply op).1 = .removal (some (idx, true))) :
    room.guard.ended = false ∧ (room.apply op).2.guard.ended = true ∧
      (room.apply op).2.peerList = [] := by
  cases op with
  | removePeerAndCheckEnded peerId =>
    have hresult := Outcome.removal.inj h
    rcases (room.removePeerAndCheckEnded_cases peerId).2 with ⟨i, -, hends⟩ | ⟨hnot, -⟩
    · exact hends
    · exact absurd hresult (hnot idx)
  | addPeer | addPeerAtIndex | removePeer | markEnded | clearEnded | rosterSnapshot => cases h

/-- A pin stays. -/
theorem pinnedVersion_apply {v : ℕ} (h : room.guard.pinnedVersion = some v) (op : Op) :
    (room.apply op).2.guard.pinnedVersion = some v := by
  have hattempt : ∀ {peerId pubkey v' result}, room.Attempts peerId pubkey v' result →
      result.2.guard.pinnedVersion = some v := by
    rintro peerId pubkey v' result (⟨e, rfl⟩ | ⟨-, hsame, i, guard, rfl, -, hpinned⟩)
    · exact h
    · rw [hsame v h]
      exact hpinned
  cases op with
  | addPeer peerId pubkey v' => exact hattempt (room.attempts_addPeer peerId pubkey v')
  | addPeerAtIndex peerId pubkey v' idx =>
    exact hattempt (room.attempts_addPeerAtIndex peerId pubkey v' idx)
  | removePeer peerId => exact (room.guard_removePeer peerId).2.trans h
  | removePeerAndCheckEnded peerId =>
    exact (room.removePeerAndCheckEnded_cases peerId).1.trans h
  | markEnded | clearEnded | rosterSnapshot => exact h

/-- Only `clearEnded` opens a room again. -/
theorem ended_apply (h : room.guard.ended = true) {op : Op} (hop : op ≠ .clearEnded) :
    (room.apply op).2.guard.ended = true := by
  have hattempt : ∀ {peerId pubkey v result}, room.Attempts peerId pubkey v result →
      result.2.guard.ended = true := by
    rintro peerId pubkey v result (⟨e, rfl⟩ | ⟨hopen, -⟩)
    · exact h
    · exact absurd (h.symm.trans hopen) nofun
  cases op with
  | addPeer peerId pubkey v => exact hattempt (room.attempts_addPeer peerId pubkey v)
  | addPeerAtIndex peerId pubkey v idx =>
    exact hattempt (room.attempts_addPeerAtIndex peerId pubkey v idx)
  | removePeer peerId => exact (room.guard_removePeer peerId).1.trans h
  | removePeerAndCheckEnded peerId =>
    rcases (room.removePeerAndCheckEnded_cases peerId).2 with ⟨i, -, -, hended, -⟩ | ⟨-, hsame⟩
    · exact hended
    · exact hsame.trans h
  | clearEnded => exact absurd rfl hop
  | markEnded => rfl
  | rosterSnapshot => exact h

theorem pinnedVersion_run {v : ℕ} {ops : List Op} (h : room.guard.pinnedVersion = some v) :
    (room.run ops).guard.pinnedVersion = some v := by
  induction ops generalizing room with
  | nil => exact h
  | cons op ops ih => exact ih (pinnedVersion_apply h op)

theorem ended_run {ops : List Op} (h : room.guard.ended = true) (hops : Op.clearEnded ∉ ops) :
    (room.run ops).guard.ended = true := by
  induction ops generalizing room with
  | nil => exact h
  | cons op ops ih =>
    obtain ⟨hop, hrest⟩ := not_or.mp (List.mem_cons.not.mp hops)
    exact ih (ended_apply h (Ne.symm hop)) hrest

theorem run_append (room : Room) (ops ops' : List Op) :
    room.run (ops ++ ops') = (room.run ops).run ops' :=
  List.foldl_append

end Room

/-- The room of a huddle, after any sequence of calls: it is sound; every peer that was admitted
came to an open room and all asked for one version; a refusal changed nothing; the end is reported
once between two calls that open the room again, by a removal that empties it; and the roster is
what the deltas, numbered from one, make up. -/
theorem room_admission {ops : List Op} (hops : Room.new.AllowsAll ops) :
    (Room.new.run ops).Sound ∧
      (Room.new.run ops).rosterSnapshot = ⟨UInt64.ofNat (Room.new.run ops).rosterTx.length,
        sortByKey RosterPeer.peerIndex
          ((Room.new.run ops).rosterTx.foldl RosterDelta.apply [])⟩ ∧
      (∀ before op after, ops = before ++ op :: after →
        (∀ idx, ((Room.new.run before).apply op).1 = .admission (.ok idx) →
          (Room.new.run before).guard.ended = false ∧
            op.requestedVersion = (Room.new.run ops).guard.pinnedVersion) ∧
        (∀ e, ((Room.new.run before).apply op).1 = .admission (.error e) →
          ((Room.new.run before).apply op).2 = Room.new.run before) ∧
        (∀ idx, ((Room.new.run before).apply op).1 = .removal (some (idx, true)) →
          ((Room.new.run before).apply op).2.peerList = [])) ∧
      ∀ before op between op' after, ops = before ++ op :: (between ++ op' :: after) →
        (∃ idx, ((Room.new.run before).apply op).1 = .removal (some (idx, true))) →
        (∃ idx, ((Room.new.run (before ++ op :: between)).apply op').1 =
          .removal (some (idx, true))) →
        Op.clearEnded ∈ between := by
  have hsound : (Room.new.run ops).Sound := Room.Sound.new.run hops
  refine ⟨hsound, hsound.rosterSnapshot_eq, ?_, ?_⟩
  · rintro before op after rfl
    refine ⟨fun idx hidx => ?_, fun e => Room.apply_refused,
      fun idx hidx => (Room.apply_shouldEnd hidx).2.2⟩
    obtain ⟨hopen, v, hv, hpinned⟩ := Room.apply_admitted hidx
    rw [Room.run_append]
    exact ⟨hopen, hv.trans (Room.pinnedVersion_run hpinned).symm⟩
  · rintro before op between op' after - ⟨idx, hidx⟩ ⟨idx', hidx'⟩
    by_contra hnone
    have hended := Room.ended_run (Room.apply_shouldEnd hidx).2.1 hnone
    have hopen := (Room.apply_shouldEnd hidx').1
    rw [Room.run_append] at hopen
    exact absurd (hended.symm.trans hopen) nofun

/-- A huddle that a remote peer joins at index 7, and that ends once. -/
def handoff : List Op :=
  [.addPeer 1 "a".toList 2, .addPeerAtIndex 2 "b".toList 2 7, .addPeer 3 "c".toList 1,
    .removePeer 1, .addPeer 4 "d".toList 2, .removePeerAndCheckEnded 4,
    .removePeerAndCheckEnded 2, .rosterSnapshot]

theorem room_admission_handoff :
    Room.new.AllowsAll handoff ∧ (Room.new.run handoff).Sound ∧
      (Room.new.run handoff).rosterSnapshot = ⟨6, []⟩ := by
  have hops : Room.new.AllowsAll handoff := by decide
  refine ⟨hops, (room_admission hops).1, by decide⟩

end Buzz.Relay.Audio
