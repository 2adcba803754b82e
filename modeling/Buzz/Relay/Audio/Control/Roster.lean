import Buzz.Relay.Audio.Control.Loop

/-!
# The roster of a remote pod

The ingress follows the roster of the owner's room: it starts from the snapshot in the reply to its
registration, applies deltas one by one, and takes over every snapshot. The deltas of a room are a
log, numbered from one, and the roster at a revision is what that many of them make of the empty
one. So it is enough that a snapshot is the roster at its revision, that no snapshot is older than
what went out before it, and that deltas go out in the order of the log.

## Main definitions

* `rosterAt`: the roster at a revision.
* `OneRoom`, `OneRoomRun`: the manager has one room for the stream, whose revisions do not wrap.
* `Inv`: what was sent, and what the ingress has.

## Main results

* `Inv.step`, `Inv.run`: the invariant along a run.
* `roster_tracks_owner`: the ingress has rosters of the owner only, in their order.
-/

namespace Buzz.Relay.Audio.Control

open Buzz.Core Buzz.Library Relation

/-! ### The log of a room -/

/-- What the first deltas make of an empty roster. -/
def rosterAt (deltas : List RosterDelta) (n : ℕ) : List RosterPeer :=
  (deltas.take n).foldl RosterDelta.apply []

theorem rosterAt_succ {deltas : List RosterDelta} {n : ℕ} {delta : RosterDelta}
    (h : deltas[n]? = some delta) :
    rosterAt deltas (n + 1) = RosterDelta.apply (rosterAt deltas n) delta := by
  obtain ⟨hn, rfl⟩ := List.getElem?_eq_some_iff.mp h
  rw [rosterAt, rosterAt, ← List.take_concat_get' deltas n hn, List.foldl_append, List.foldl_cons,
    List.foldl_nil]

theorem rosterAt_extend {deltas deltas' : List RosterDelta} (h : deltas <+: deltas') {n : ℕ}
    (hn : n ≤ deltas.length) : rosterAt deltas' n = rosterAt deltas n := by
  obtain ⟨later, rfl⟩ := h
  rw [rosterAt, rosterAt, List.take_append_of_le_length hn]

theorem getElem?_extend {α : Type*} {l l' : List α} (h : l <+: l') {n : ℕ} {x : α}
    (hx : l[n]? = some x) : l'[n]? = some x := by
  obtain ⟨later, rfl⟩ := h
  exact (List.getElem?_append_left (List.getElem?_eq_some_iff.mp hx).1).trans hx

/-- A delta lets a peer in or out, not both. -/
def OneSided (delta : RosterDelta) : Prop := delta.joined = none ∨ delta.left = none

/-- The ingress reads a delta as the owner means it. -/
theorem applyDelta_perm {delta : RosterDelta} (h : OneSided delta)
    {roster roster' : List RosterPeer} (hroster : roster.Perm roster') :
    (applyDelta roster delta.joined delta.left).Perm (delta.apply roster') := by
  obtain ⟨revision, joined, left⟩ := delta
  cases joined with
  | some peer =>
    obtain rfl : left = none := h.resolve_left nofun
    exact hroster.append_right _
  | none =>
    simp only [RosterDelta.apply, Option.toList_none, List.append_nil]
    cases left with
    | some peer => exact hroster.erase peer
    | none => exact hroster

/-- A call sends no delta or one. -/
theorem rosterTx_apply (room : Room) (op : Op) : (room.apply op).2.rosterTx = room.rosterTx ∨
    ∃ delta, OneSided delta ∧ (room.apply op).2.rosterTx = room.rosterTx ++ [delta] := by
  have hattempt : ∀ {peerId pubkey v result}, room.Attempts peerId pubkey v result →
      result.2.rosterTx = room.rosterTx ∨
        ∃ delta, OneSided delta ∧ result.2.rosterTx = room.rosterTx ++ [delta] := by
    rintro peerId pubkey v result (⟨e, rfl⟩ | ⟨-, -, idx, guard, rfl, -⟩)
    · exact .inl rfl
    · exact .inr ⟨_, .inr rfl, rfl⟩
  have hdetach : ∀ {peerId peer room'}, room.detach peerId = some (peer, room') →
      ∃ delta, OneSided delta ∧ room'.rosterTx = room.rosterTx ++ [delta] := by
    intro peerId peer room' h
    obtain ⟨peer', -, hpair⟩ := Option.map_eq_some_iff.mp h
    obtain ⟨-, rfl⟩ := Prod.mk.inj hpair
    exact ⟨_, .inl rfl, rfl⟩
  cases op with
  | addPeer peerId pubkey v => exact hattempt (room.attempts_addPeer peerId pubkey v)
  | addPeerAtIndex peerId pubkey v idx =>
    exact hattempt (room.attempts_addPeerAtIndex peerId pubkey v idx)
  | removePeer peerId =>
    rw [Room.apply, Room.removePeer]
    split
    next h => exact .inr (hdetach h)
    next => exact .inl rfl
  | removePeerAndCheckEnded peerId =>
    simp only [Room.apply, Room.removePeerAndCheckEnded, Prod.map_snd, id]
    split
    · exact .inl rfl
    next h =>
      obtain ⟨delta, hdelta, hrosterTx⟩ := hdetach h
      split_ifs
      · exact .inr ⟨delta, hdelta, hrosterTx⟩
      · exact .inr ⟨delta, hdelta, hrosterTx⟩
  | markEnded | clearEnded | rosterSnapshot => exact .inl rfl

/-- The deltas of a sound room are numbered from one. -/
theorem revision_of_getElem? {room : Room} (h : room.Sound) {n : ℕ} {delta : RosterDelta}
    (hdelta : room.rosterTx[n]? = some delta) : delta.revision = UInt64.ofNat (n + 1) := by
  have hmap := congrArg (fun l : List UInt64 => l[n]?) h.revisions
  obtain ⟨hn, -⟩ := List.getElem?_eq_some_iff.mp hdelta
  simp only [List.getElem?_map, hdelta, Option.map_some, List.getElem?_range hn] at hmap
  exact Option.some.inj hmap

/-! ### Messages -/

namespace Outgoing

/-- The roster that a message has. -/
def roster? : Outgoing → Option RosterSnapshot
  | .control (.peerRegistered _ _ roster) => some roster
  | .control (.rosterSnapshot revision peers) => some ⟨revision, peers⟩
  | _ => none

/-- The delta that a message has. -/
def delta? : Outgoing → Option RosterDelta
  | .control (.rosterDelta revision joined left) => some ⟨revision, joined, left⟩
  | _ => none

/-- The revision that a message leads to. -/
def revision? (msg : Outgoing) : Option UInt64 :=
  (msg.roster?.map RosterSnapshot.revision).or (msg.delta?.map RosterDelta.revision)

theorem revision?_of_roster? {msg : Outgoing} {roster : RosterSnapshot}
    (h : msg.roster? = some roster) : msg.revision? = some roster.revision := by
  rw [revision?, h, Option.map_some, Option.some_or]

/-- A message has no roster beside a delta. -/
theorem revision?_of_delta? {msg : Outgoing} {delta : RosterDelta} (h : msg.delta? = some delta) :
    msg.revision? = some delta.revision := by
  have hroster : msg.roster? = none := by
    cases msg with
    | control msg =>
      cases msg with
      | peerRegistered | rosterSnapshot => cases h
      | registerPeer | rosterDelta | rosterResync | registerRejected | unregisterPeer => rfl
    | goodbye reason => rfl
  rw [revision?, hroster, h, Option.map_some, Option.map_none, Option.none_or]

/-- A message is the log's: a roster is the one at its revision, a delta is in the log. -/
structure Faithful (deltas : List RosterDelta) (msg : Outgoing) : Prop where
  roster : ∀ roster, msg.roster? = some roster → ∃ n ≤ deltas.length,
    roster.revision = UInt64.ofNat n ∧ roster.peers.Perm (rosterAt deltas n)
  delta : ∀ delta : RosterDelta, msg.delta? = some delta → ∃ n : ℕ, deltas[n]? = some delta

/-- A message may go out before another: a roster is not older than what went out before it, and
deltas are in order. -/
structure Precedes (msg msg' : Outgoing) : Prop where
  roster : ∀ revision roster, msg.revision? = some revision → msg'.roster? = some roster →
    revision ≤ roster.revision
  delta : ∀ delta delta', msg.delta? = some delta → msg'.delta? = some delta' →
    delta.revision < delta'.revision

end Outgoing

/-- What a frame leads to: a roster is taken over, the next delta is applied, or nothing changes. -/
theorem Reader.receive_eq_reading {reader : Reader} {frame : Outgoing} {revision : UInt64}
    {roster : List RosterPeer} (h : (reader.receive frame).1 = .reading revision roster) :
    frame.roster? = some ⟨revision, roster⟩ ∧
        (reader = .dialing ∨ frame = .control (.rosterSnapshot revision roster)) ∨
      ∃ revision' roster', reader = .reading revision' roster' ∧
        ((∃ delta, frame.delta? = some delta ∧ delta.revision = revision' + 1 ∧
            revision = delta.revision ∧ roster = applyDelta roster' delta.joined delta.left) ∨
          revision = revision' ∧ roster = roster') := by
  cases reader with
  | dialing =>
    cases frame with
    | control msg =>
      cases msg with
      | peerRegistered pubkey peerIndex roster' =>
        obtain ⟨rfl, rfl⟩ := Reader.reading.inj h
        exact .inl ⟨rfl, .inl rfl⟩
      | registerPeer | rosterSnapshot | rosterDelta | rosterResync | registerRejected
      | unregisterPeer => cases h
    | goodbye reason => cases h
  | reading revision' roster' =>
    cases frame with
    | control msg =>
      cases msg with
      | rosterSnapshot next peers =>
        obtain ⟨rfl, rfl⟩ := Reader.reading.inj h
        exact .inl ⟨rfl, .inr rfl⟩
      | rosterDelta next joined left =>
        rw [Reader.receive] at h
        split_ifs at h with hnext hstale
        · obtain ⟨rfl, rfl⟩ := Reader.reading.inj h
          exact .inr ⟨revision', roster', rfl, .inl ⟨⟨_, joined, left⟩, rfl, hnext, rfl, rfl⟩⟩
        · obtain ⟨rfl, rfl⟩ := Reader.reading.inj h
          exact .inr ⟨_, _, rfl, .inr ⟨rfl, rfl⟩⟩
        · obtain ⟨rfl, rfl⟩ := Reader.reading.inj h
          exact .inr ⟨_, _, rfl, .inr ⟨rfl, rfl⟩⟩
      | peerRegistered | registerPeer | rosterResync | registerRejected | unregisterPeer =>
        obtain ⟨rfl, rfl⟩ := Reader.reading.inj h
        exact .inr ⟨_, _, rfl, .inr ⟨rfl, rfl⟩⟩
    | goodbye reason => cases h
  | done => cases h

theorem Reader.receive_ne_dialing {reader : Reader} {frame : Outgoing} :
    (reader.receive frame).1 ≠ .dialing := by
  unfold Reader.receive
  split
  · exact nofun
  · exact nofun
  · exact nofun
  · split_ifs <;> exact nofun
  all_goals exact nofun

/-- A gap is a delta past the next one, and is not applied. -/
theorem Reader.receive_gap {revision : UInt64} {roster : List RosterPeer} {frame : Outgoing}
    (h : ((Reader.reading revision roster).receive frame).2 = true) :
    ((Reader.reading revision roster).receive frame).1 = .reading revision roster ∧
      ∃ delta, frame.delta? = some delta ∧ revision < delta.revision := by
  cases frame with
  | control msg =>
    cases msg with
    | rosterDelta next joined left =>
      rw [Reader.receive] at h ⊢
      split_ifs at h ⊢ with hnext hstale
      exact ⟨rfl, _, rfl, UInt64.not_le.mp hstale⟩
    | peerRegistered | rosterSnapshot | registerPeer | rosterResync | registerRejected
    | unregisterPeer => cases h
  | goodbye reason => cases h

/-! ### The invariant -/

namespace Phase

/-- The message that has to be written. -/
def pending : Phase → List Outgoing
  | .replying msg _ => [.control msg]
  | .sending msg => [.control msg]
  | _ => []

/-- The subscription of a registration. -/
def rx : Phase → Option (ℕ × ℕ)
  | .validating room rx _ _ => some (room, rx)
  | .admitted room rx _ _ => some (room, rx)
  | .replying _ rosterRx => rosterRx
  | _ => none

/-- The room of a phase without a subscription. -/
def room : Phase → Option ℕ
  | .subscribing room _ _ => some room
  | .snapshotting room => some room
  | _ => none

end Phase

namespace Serving

variable (i : ℕ) (s : Serving)

/-- The deltas of a room. -/
def deltas : List RosterDelta := ((s.pod.room? i).map Room.rosterTx).getD []

/-- What was sent, and what is about to be. -/
def outgoing : List Outgoing := s.sent ++ s.phase.pending

/-- A subscription of the loop. -/
def Subscribed (p : ℕ × ℕ) : Prop := s.rosterRx = some p ∨ s.phase.rx = some p

/-- The manager has no other room for the stream, and the revisions of this one do not wrap. -/
structure OneRoom (sessionId : Uuid) : Prop where
  room : ∀ j, s.get sessionId = some j → j = i
  revisions : (s.deltas i).length < 2 ^ 64

end Serving

/-- A run with one room. -/
def OneRoomRun (sessionId : Uuid) (i : ℕ) : Serving → Serving → Prop :=
  ReflTransGen fun s s' => Step sessionId s s' ∧ s'.OneRoom i sessionId

/-- What was sent, and what the ingress has.

* `faithful`, `ordered`: the messages are the log's, and in its order.
* `subscribed`: a subscription is to the room, and past the deltas that went out.
* `reader`: the ingress has the roster of a revision that it has received. -/
structure Inv (i : ℕ) (s : Serving) : Prop where
  rooms : ∀ j room, s.pod.room? j = some room →
    room.Sound ∧ ∀ delta ∈ room.rosterTx, OneSided delta
  short : (s.deltas i).length < 2 ^ 64
  known : ∀ msg ∈ s.outgoing, msg.revision? ≠ none → (s.pod.room? i).isSome = true
  faithful : ∀ msg ∈ s.outgoing, msg.Faithful (s.deltas i)
  ordered : s.outgoing.Pairwise Outgoing.Precedes
  handle : ∀ j, s.phase.room = some j → j = i
  subscribed : ∀ p, s.Subscribed p → p.1 = i ∧ p.2 ≤ (s.deltas i).length ∧
    ∀ msg ∈ s.outgoing, ∀ delta : RosterDelta, msg.delta? = some delta →
      delta.revision ≤ UInt64.ofNat p.2
  reader : ∀ revision roster, s.reader = .reading revision roster →
    ∃ n ≤ (s.deltas i).length, revision = UInt64.ofNat n ∧
      roster.Perm (rosterAt (s.deltas i) n) ∧
      ∃ k < s.received, ∃ msg : Outgoing, s.sent[k]? = some msg ∧ msg.revision? = some revision

theorem ofNat_le {m n : ℕ} (hmn : m ≤ n) (hn : n < 2 ^ 64) : UInt64.ofNat m ≤ UInt64.ofNat n := by
  rw [UInt64.le_iff_toNat_le, UInt64.toNat_ofNat_of_lt' hn,
    UInt64.toNat_ofNat_of_lt' (hmn.trans_lt hn)]
  exact hmn

theorem ofNat_lt {m n : ℕ} (hmn : m < n) (hn : n < 2 ^ 64) : UInt64.ofNat m < UInt64.ofNat n := by
  rw [UInt64.lt_iff_toNat_lt, UInt64.toNat_ofNat_of_lt' hn,
    UInt64.toNat_ofNat_of_lt' (hmn.trans hn)]
  exact hmn

/-- A room only ever sends more deltas. -/
theorem RoomMoves.extends_deltas {fresh : Uuid → Prop} {room? room'? : Option Room}
    (h : RoomMoves fresh room? room'?) :
    (room?.map Room.rosterTx).getD [] <+: (room'?.map Room.rosterTx).getD [] := by
  rcases h with rfl | ⟨rfl, -⟩ | ⟨op, room, rfl, -, -, rfl⟩
  · exact List.prefix_rfl
  · exact List.nil_prefix
  · simp only [Option.map_some, Option.getD_some]
    rcases rosterTx_apply room op with hsame | ⟨delta, -, happend⟩
    · exact hsame.symm ▸ List.prefix_rfl
    · rw [happend]
      exact List.prefix_append _ _

theorem RoomMoves.isSome {fresh : Uuid → Prop} {room? room'? : Option Room}
    (h : RoomMoves fresh room? room'?) (hroom : room?.isSome = true) : room'?.isSome = true := by
  rcases h with rfl | ⟨rfl, -⟩ | ⟨op, room, -, -, -, rfl⟩
  · exact hroom
  · cases hroom
  · rfl

theorem RoomMoves.sound {fresh : Uuid → Prop} {room? room'? : Option Room}
    (h : RoomMoves fresh room? room'?)
    (hsound : ∀ room, room? = some room → room.Sound ∧ ∀ delta ∈ room.rosterTx, OneSided delta) :
    ∀ room, room'? = some room → room.Sound ∧ ∀ delta ∈ room.rosterTx, OneSided delta := by
  rcases h with rfl | ⟨-, rfl⟩ | ⟨op, room, rfl, hallows, -, rfl⟩
  · exact hsound
  · rintro _ ⟨⟩
    exact ⟨.new, fun _ hdelta => absurd hdelta List.not_mem_nil⟩
  · rintro _ ⟨⟩
    obtain ⟨hroom, hsided⟩ := hsound room rfl
    refine ⟨hroom.apply hallows, fun delta hdelta => ?_⟩
    rcases rosterTx_apply room op with hsame | ⟨delta', hdelta', happend⟩
    · exact hsided delta (hsame ▸ hdelta)
    · rw [happend, List.mem_append, List.mem_singleton] at hdelta
      rcases hdelta with hdelta | rfl
      · exact hsided delta hdelta
      · exact hdelta'

theorem Outgoing.Faithful.mono {deltas deltas' : List RosterDelta} {msg : Outgoing}
    (h : msg.Faithful deltas) (hextends : deltas <+: deltas') : msg.Faithful deltas' where
  roster roster hroster := by
    obtain ⟨n, hn, hrevision, hpeers⟩ := h.roster roster hroster
    exact ⟨n, hn.trans hextends.length_le, hrevision, rosterAt_extend hextends hn ▸ hpeers⟩
  delta delta hdelta := by
    obtain ⟨n, hn⟩ := h.delta delta hdelta
    exact ⟨n, getElem?_extend hextends hn⟩

namespace Inv

variable {sessionId : Uuid} {i : ℕ} {s s' : Serving}

theorem deltas_of_room {room : Room} (hroom : s.pod.room? i = some room) :
    s.deltas i = room.rosterTx := by
  rw [Serving.deltas, hroom, Option.map_some, Option.getD_some]

/-- The registered peers, the community, the requests and the admitted peers do not matter. -/
theorem frame (h : Inv i s) (hpod : s'.pod = s.pod) (hphase : s'.phase = s.phase)
    (hrosterRx : s'.rosterRx = s.rosterRx) (hsent : s'.sent = s.sent)
    (hreceived : s'.received = s.received) (hreader : s'.reader = s.reader) : Inv i s' := by
  have hdeltas : s'.deltas i = s.deltas i := by rw [Serving.deltas, hpod, Serving.deltas]
  have houtgoing : s'.outgoing = s.outgoing := by
    rw [Serving.outgoing, hsent, hphase, Serving.outgoing]
  refine ⟨hpod ▸ h.rooms, hdeltas ▸ h.short, ?_, ?_, houtgoing ▸ h.ordered, hphase ▸ h.handle,
    fun p hp => ?_, ?_⟩
  · rw [houtgoing, hpod]
    exact h.known
  · rw [houtgoing, hdeltas]
    exact h.faithful
  · rw [houtgoing, hdeltas]
    rw [Serving.Subscribed, hrosterRx, hphase] at hp
    exact h.subscribed p hp
  · rw [hreader, hdeltas, hreceived, hsent]
    exact h.reader

/-- The rooms move. -/
theorem pod (h : Inv i s) {fresh : Uuid → Prop} {pod' : Pod}
    (hrooms : RoomsStep fresh s.pod pod')
    (hshort : (Serving.deltas i { s with pod := pod' }).length < 2 ^ 64) :
    Inv i { s with pod := pod' } := by
  have hextends : s.deltas i <+: Serving.deltas i { s with pod := pod' } := (hrooms.room i).extends_deltas
  refine ⟨fun j => (hrooms.room j).sound (h.rooms j), hshort,
    fun msg hmsg hnews => (hrooms.room i).isSome (h.known msg hmsg hnews),
    fun msg hmsg => (h.faithful msg hmsg).mono hextends, h.ordered, h.handle, fun p hp => ?_,
    fun revision roster hreader => ?_⟩
  · obtain ⟨hroom, hle, hpast⟩ := h.subscribed p hp
    exact ⟨hroom, hle.trans hextends.length_le, hpast⟩
  · obtain ⟨n, hn, hrevision, hroster, hreceived⟩ := h.reader revision roster hreader
    exact ⟨n, hn.trans hextends.length_le, hrevision, rosterAt_extend hextends hn ▸ hroster,
      hreceived⟩

/-- The loop moves on, without a new message and without a new subscription. -/
theorem move (h : Inv i s) {phase : Phase} {rosterRx : Option (ℕ × ℕ)} {sent : List Outgoing}
    (hsent : s.sent <+: sent) (houtgoing : (sent ++ phase.pending).Sublist s.outgoing)
    (hhandle : ∀ j, phase.room = some j → j = i)
    (hsubscribed : ∀ p, rosterRx = some p ∨ phase.rx = some p → s.Subscribed p) :
    Inv i { s with phase := phase, rosterRx := rosterRx, sent := sent } := by
  refine ⟨h.rooms, h.short, fun msg hmsg => h.known msg (houtgoing.subset hmsg),
    fun msg hmsg => h.faithful msg (houtgoing.subset hmsg), h.ordered.sublist houtgoing, hhandle,
    fun p hp => ?_, fun revision roster hreader => ?_⟩
  · obtain ⟨hroom, hle, hpast⟩ := h.subscribed p (hsubscribed p hp)
    exact ⟨hroom, hle, fun msg hmsg => hpast msg (houtgoing.subset hmsg)⟩
  · obtain ⟨n, hn, hrevision, hroster, k, hk, msg, hmsg, hmsg'⟩ := h.reader revision roster hreader
    exact ⟨n, hn, hrevision, hroster, k, hk, msg, getElem?_extend hsent hmsg, hmsg'⟩

/-- The loop moves on and has nothing to write. -/
theorem quiet (h : Inv i s) {phase : Phase} (hpending : phase.pending = []) (hrx : phase.rx = none)
    (hhandle : ∀ j, phase.room = some j → j = i) : Inv i { s with phase := phase } := by
  refine h.move List.prefix_rfl ?_ hhandle fun p hp => ?_
  · rw [hpending, List.append_nil]
    exact List.sublist_append_left _ _
  · rw [hrx] at hp
    exact .inl (hp.resolve_right nofun)

/-- The deltas of the room are numbered from one. -/
theorem numbered (h : Inv i s) {n : ℕ} {delta : RosterDelta}
    (hdelta : (s.deltas i)[n]? = some delta) : delta.revision = UInt64.ofNat (n + 1) := by
  cases hroom : s.pod.room? i with
  | none =>
    rw [Serving.deltas, hroom] at hdelta
    cases hdelta
  | some room =>
    rw [deltas_of_room hroom] at hdelta
    exact revision_of_getElem? (h.rooms i room hroom).1 hdelta

/-- A delta that went out is not past the end of the log. -/
theorem delta_le (h : Inv i s) {msg : Outgoing} (hmsg : msg ∈ s.outgoing) {delta : RosterDelta}
    (hdelta : msg.delta? = some delta) :
    delta.revision ≤ UInt64.ofNat (s.deltas i).length := by
  obtain ⟨n, hn⟩ := (h.faithful msg hmsg).delta delta hdelta
  rw [h.numbered hn]
  exact ofNat_le (List.getElem?_eq_some_iff.mp hn).1 h.short

theorem revision_le (h : Inv i s) {msg : Outgoing} (hmsg : msg ∈ s.outgoing) {revision : UInt64}
    (hrevision : msg.revision? = some revision) :
    revision ≤ UInt64.ofNat (s.deltas i).length := by
  rcases Option.or_eq_some_iff.mp hrevision with hleft | ⟨-, hright⟩
  · obtain ⟨roster, hroster, rfl⟩ := Option.map_eq_some_iff.mp hleft
    obtain ⟨n, hn, hn', -⟩ := (h.faithful msg hmsg).roster roster hroster
    exact hn' ▸ ofNat_le hn h.short
  · obtain ⟨delta, hdelta, rfl⟩ := Option.map_eq_some_iff.mp hright
    exact h.delta_le hmsg hdelta

/-- The loop subscribes to the room, past everything that went out. -/
theorem subscribe (h : Inv i s) {phase : Phase} (hpending : phase.pending = [])
    (hrx : phase.rx = some (i, (s.deltas i).length)) (hroom : phase.room = none) :
    Inv i { s with phase := phase } := by
  have houtgoing : s.sent ++ phase.pending = s.sent := by rw [hpending, List.append_nil]
  have hsublist : (s.sent ++ phase.pending).Sublist s.outgoing :=
    houtgoing.symm ▸ List.sublist_append_left _ _
  refine ⟨h.rooms, h.short, fun msg hmsg => h.known msg (hsublist.subset hmsg),
    fun msg hmsg => h.faithful msg (hsublist.subset hmsg), h.ordered.sublist hsublist,
    fun j hj => absurd (hroom.symm.trans hj) nofun, ?_, h.reader⟩
  rintro p (hp | hp)
  · obtain ⟨hroom, hle, hpast⟩ := h.subscribed p (.inl hp)
    exact ⟨hroom, hle, fun msg hmsg => hpast msg (hsublist.subset hmsg)⟩
  · obtain rfl := Option.some.inj (hrx.symm.trans hp)
    exact ⟨rfl, le_rfl, fun msg hmsg _ hdelta => h.delta_le (hsublist.subset hmsg) hdelta⟩

/-- A message is written, or has to be. -/
theorem push (h : Inv i s) {msg : Outgoing} {phase : Phase} {rosterRx : Option (ℕ × ℕ)}
    {sent : List Outgoing} (hsent : s.sent <+: sent)
    (houtgoing : sent ++ phase.pending = s.sent ++ [msg])
    (hknown : msg.revision? ≠ none → (s.pod.room? i).isSome = true)
    (hfaithful : msg.Faithful (s.deltas i))
    (hprecedes : ∀ msg' ∈ s.sent, msg'.Precedes msg) (hroom : phase.room = none)
    (hsubscribed : ∀ p, rosterRx = some p ∨ phase.rx = some p → p.1 = i ∧
      p.2 ≤ (s.deltas i).length ∧ ∀ msg' ∈ s.sent ++ [msg], ∀ delta : RosterDelta,
        msg'.delta? = some delta → delta.revision ≤ UInt64.ofNat p.2) :
    Inv i { s with phase := phase, rosterRx := rosterRx, sent := sent } := by
  have hold : ∀ msg' ∈ s.sent, msg' ∈ s.outgoing := fun _ => List.mem_append_left _
  refine ⟨h.rooms, h.short, ?_, ?_, ?_, fun j hj => absurd (hroom.symm.trans hj) nofun, ?_,
    fun revision roster hreader => ?_⟩
  · rw [Serving.outgoing, houtgoing]
    intro msg' hmsg'
    rcases List.mem_append.mp hmsg' with hmsg' | hmsg'
    · exact h.known msg' (hold msg' hmsg')
    · obtain rfl := List.mem_singleton.mp hmsg'
      exact hknown
  · rw [Serving.outgoing, houtgoing]
    intro msg' hmsg'
    rcases List.mem_append.mp hmsg' with hmsg' | hmsg'
    · exact h.faithful msg' (hold msg' hmsg')
    · obtain rfl := List.mem_singleton.mp hmsg'
      exact hfaithful
  · rw [Serving.outgoing, houtgoing, List.pairwise_append]
    refine ⟨h.ordered.sublist (List.sublist_append_left _ _), List.pairwise_singleton _ _,
      fun msg' hmsg' msg'' hmsg'' => ?_⟩
    obtain rfl := List.mem_singleton.mp hmsg''
    exact hprecedes msg' hmsg'
  · rw [Serving.outgoing, houtgoing]
    exact hsubscribed
  · obtain ⟨n, hn, hrevision, hroster, k, hk, msg', hmsg', hrevision'⟩ :=
      h.reader revision roster hreader
    exact ⟨n, hn, hrevision, hroster, k, hk, msg', getElem?_extend hsent hmsg', hrevision'⟩

/-- A message without news is written, or has to be. -/
theorem push_plain (h : Inv i s) {msg : Outgoing} {phase : Phase} {sent : List Outgoing}
    (hsent : s.sent <+: sent) (houtgoing : sent ++ phase.pending = s.sent ++ [msg])
    (hroster : msg.roster? = none) (hdelta : msg.delta? = none) (hroom : phase.room = none)
    (hrx : phase.rx = none) : Inv i { s with phase := phase, sent := sent } := by
  have hplain : msg.revision? = none := by rw [Outgoing.revision?, hroster, hdelta]; rfl
  refine h.push hsent houtgoing (absurd hplain)
    ⟨fun roster hroster' => ?_, fun delta hdelta' => ?_⟩
    (fun msg' hmsg' => ⟨fun _ roster _ hroster' => ?_, fun _ delta _ hdelta' => ?_⟩) hroom
    fun p hp => ?_
  · exact absurd (hroster.symm.trans hroster') nofun
  · exact absurd (hdelta.symm.trans hdelta') nofun
  · exact absurd (hroster.symm.trans hroster') nofun
  · exact absurd (hdelta.symm.trans hdelta') nofun
  · rw [hrx] at hp
    obtain ⟨hi, hle, hpast⟩ := h.subscribed p (.inl (hp.resolve_right nofun))
    refine ⟨hi, hle, fun msg' hmsg' delta hdelta' => ?_⟩
    rcases List.mem_append.mp hmsg' with hmsg' | hmsg'
    · exact hpast msg' (List.mem_append_left _ hmsg') delta hdelta'
    · obtain rfl := List.mem_singleton.mp hmsg'
      exact absurd (hdelta.symm.trans hdelta') nofun

/-- The roster of the room has to be written. -/
theorem pend_roster (h : Inv i s) {room : Room} (hroom : s.pod.room? i = some room)
    {msg : HuddleControlMsg} {phase : Phase} (hpending : phase.pending = [.control msg])
    (hroster : Outgoing.roster? (.control msg) = some room.rosterSnapshot)
    (hdelta : Outgoing.delta? (.control msg) = none) (hphase : phase.room = none)
    (hsubscribed : ∀ p, phase.rx = some p → s.Subscribed p) :
    Inv i { s with phase := phase } := by
  have hsound := (h.rooms i room hroom).1
  have hdeltas := deltas_of_room hroom
  have hrevision : room.rosterSnapshot.revision = UInt64.ofNat (s.deltas i).length :=
    hdeltas ▸ hsound.revision
  refine h.push List.prefix_rfl (congrArg (s.sent ++ ·) hpending)
    (fun _ => hroom ▸ rfl) ⟨?_, ?_⟩
    (fun msg' hmsg' => ⟨?_, ?_⟩) hphase fun p hp => ?_
  · rintro _ hroster'
    obtain rfl := Option.some.inj (hroster.symm.trans hroster')
    refine ⟨_, le_rfl, hrevision, ?_⟩
    rw [hsound.rosterSnapshot_eq, rosterAt, List.take_length, hdeltas]
    exact sortByKey_perm _ _
  · exact fun delta hdelta' => absurd (hdelta.symm.trans hdelta') nofun
  · rintro revision _ hrevision' hroster'
    obtain rfl := Option.some.inj (hroster.symm.trans hroster')
    rw [hrevision]
    exact h.revision_le (List.mem_append_left _ hmsg') hrevision'
  · exact fun _ delta' _ hdelta' => absurd (hdelta.symm.trans hdelta') nofun
  · obtain ⟨hi, hle, hpast⟩ := h.subscribed p (hp.elim .inl (hsubscribed p))
    refine ⟨hi, hle, fun msg' hmsg' delta hdelta' => ?_⟩
    rcases List.mem_append.mp hmsg' with hmsg' | hmsg'
    · exact hpast msg' (List.mem_append_left _ hmsg') delta hdelta'
    · obtain rfl := List.mem_singleton.mp hmsg'
      exact absurd (hdelta.symm.trans hdelta') nofun

/-- The receiver jumps ahead. -/
theorem jump (h : Inv i s) {rx rx' : ℕ} (hrx : s.rosterRx = some (i, rx)) (hle : rx ≤ rx')
    (hle' : rx' ≤ (s.deltas i).length) : Inv i { s with rosterRx := some (i, rx') } := by
  refine ⟨h.rooms, h.short, h.known, h.faithful, h.ordered, h.handle, ?_, h.reader⟩
  rintro p (hp | hp)
  · obtain rfl := Option.some.inj hp
    obtain ⟨-, -, hpast⟩ := h.subscribed _ (.inl hrx)
    refine ⟨rfl, hle', fun msg hmsg delta hdelta => ?_⟩
    exact UInt64.le_trans (hpast msg hmsg delta hdelta) (ofNat_le hle (hle'.trans_lt h.short))
  · exact h.subscribed p (.inr hp)

/-- The next delta of the subscription has to be written. -/
theorem pend_delta (h : Inv i s) {rx : ℕ} {delta : RosterDelta} (hrx : s.rosterRx = some (i, rx))
    (hdelta : (s.deltas i)[rx]? = some delta) :
    Inv i { s with phase := .sending (rosterDeltaMsg delta), rosterRx := some (i, rx + 1) } := by
  obtain ⟨-, -, hpast⟩ := h.subscribed _ (.inl hrx)
  have hlt : rx < (s.deltas i).length := (List.getElem?_eq_some_iff.mp hdelta).1
  have hnumber := h.numbered hdelta
  refine h.push List.prefix_rfl rfl (fun _ => ?_) ⟨nofun, ?_⟩ (fun msg hmsg => ⟨nofun, ?_⟩) rfl ?_
  · cases hroom : s.pod.room? i with
    | none =>
      rw [Serving.deltas, hroom] at hdelta
      cases hdelta
    | some room => rfl
  · rintro _ ⟨⟩
    exact ⟨rx, hdelta⟩
  · rintro delta' _ hdelta' ⟨⟩
    refine UInt64.lt_of_le_of_lt (hpast msg (List.mem_append_left _ hmsg) delta' hdelta') ?_
    exact hnumber ▸ ofNat_lt (Nat.lt_succ_self rx) (Nat.lt_of_le_of_lt hlt h.short)
  · rintro p (hp | hp)
    · obtain rfl := Option.some.inj hp
      refine ⟨rfl, hlt, fun msg hmsg delta' hdelta' => ?_⟩
      rcases List.mem_append.mp hmsg with hmsg | hmsg
      · refine UInt64.le_trans (hpast msg (List.mem_append_left _ hmsg) delta' hdelta') ?_
        exact ofNat_le (Nat.le_succ rx) (Nat.lt_of_le_of_lt hlt h.short)
      · obtain rfl := List.mem_singleton.mp hmsg
        obtain rfl := Option.some.inj hdelta'
        exact hnumber ▸ UInt64.le_refl _
    · cases hp

/-- The loop is left, or asks for a snapshot. -/
theorem snapshot (h : Inv i s) (hroom : ∀ j, s.get sessionId = some j → j = i) :
    Inv i (s.snapshot sessionId) := by
  rw [Serving.snapshot]
  split
  next j hj =>
    refine h.quiet rfl rfl fun j' hj' => ?_
    obtain rfl := Option.some.inj hj'
    exact hroom j hj
  next => exact h.quiet rfl rfl nofun

theorem drop (h : Inv i s) (room : Option ℕ) (pubkey : List Char)
    (hshort : ((s.drop room pubkey).deltas i).length < 2 ^ 64) : Inv i (s.drop room pubkey) := by
  have hpod := h.pod (rooms_drop s room pubkey) hshort
  rw [Serving.drop] at hpod ⊢
  split
  · exact h
  next peerId hpeerId =>
    rw [hpeerId] at hpod
    exact hpod.frame rfl rfl rfl rfl rfl rfl

/-- The loop is left. -/
theorem leave (h : Inv i s) (reason : Option GoodbyeReason) :
    Inv i { s with phase := .ending reason } :=
  h.quiet rfl rfl nofun

theorem receive (h : Inv i s) (draining : Bool) (frame : Incoming)
    (hone : (s.receive sessionId draining frame).OneRoom i sessionId) :
    Inv i (s.receive sessionId draining frame) := by
  cases frame with
  | control msg =>
    cases msg with
    | registerPeer communityId pubkey protocolVersion =>
      rw [Serving.receive, Serving.registerPeer] at hone ⊢
      split_ifs at hone ⊢
      · exact h.leave none
      · exact (h.leave (some .draining)).frame rfl rfl rfl rfl rfl rfl
      · have hpod := h.pod (.getOrCreate (communityId, sessionId) : RoomsStep s.Fresh s.pod _)
          hone.revisions
        have hhandle : ∀ j, (Phase.subscribing (s.pod.getOrCreate (communityId, sessionId)).1
            pubkey protocolVersion).room = some j → j = i :=
          fun j hj => hone.room j ((RoomsStep.lookup_getOrCreate ..).trans hj)
        exact (hpod.quiet rfl rfl hhandle).frame rfl rfl rfl rfl rfl rfl
    | unregisterPeer pubkey => exact h.drop _ pubkey hone.revisions
    | rosterResync => exact h.snapshot fun j hj => hone.room j hj
    | peerRegistered | rosterSnapshot | rosterDelta | registerRejected => exact h.leave none
  | misfenced | undecodable | unexpected | goodbye | closed | failed => exact h.leave none

/-- The fence has answered. -/
theorem validated (h : Inv i s) {room : Room} {rx : ℕ} {pubkey : List Char} {protocolVersion : ℕ}
    {peerId : Uuid} (hphase : s.phase = .validating i rx pubkey protocolVersion)
    (hfresh : s.Fresh peerId) (fence : Fence)
    (hshort : ((s.validated room i rx pubkey protocolVersion peerId fence).deltas i).length <
      2 ^ 64) : Inv i (s.validated room i rx pubkey protocolVersion peerId fence) := by
  have hpod := h.pod (rooms_validated hfresh fence) hshort
  cases fence with
  | ok =>
    rw [Serving.validated] at hpod ⊢
    split
    next peerIndex hok =>
      rw [hok] at hpod
      have hmove : Inv i { s with
          pod := s.pod.modifyRoom i fun room => (room.addPeer peerId pubkey protocolVersion).2
          phase := .admitted i rx pubkey peerIndex } := by
        refine hpod.move List.prefix_rfl ?_ (by rintro _ ⟨⟩)
          fun p hp => hp.imp_right fun hp => hphase ▸ hp
        change (s.sent ++ []).Sublist _
        rw [List.append_nil]
        exact List.sublist_append_left _ _
      exact hmove.frame rfl rfl rfl rfl rfl rfl
    next => exact h.push_plain List.prefix_rfl rfl rfl rfl rfl rfl
  | rejected reason => exact h.push_plain List.prefix_rfl rfl rfl rfl rfl rfl
  | failed => exact h.leave none

theorem oneSided (h : Inv i s) {n : ℕ} {delta : RosterDelta}
    (hdelta : (s.deltas i)[n]? = some delta) : OneSided delta := by
  cases hroom : s.pod.room? i with
  | none =>
    rw [Serving.deltas, hroom] at hdelta
    cases hdelta
  | some room =>
    rw [deltas_of_room hroom] at hdelta
    exact (h.rooms i room hroom).2 delta (List.mem_of_getElem? hdelta)

/-- A delta that the ingress applies is the one after the revision that it has. -/
theorem next_delta (h : Inv i s) {revision : UInt64} {roster : List RosterPeer}
    (hreader : s.reader = .reading revision roster) {frame : Outgoing}
    (hnext : s.sent[s.received]? = some frame) {delta : RosterDelta}
    (hdelta : frame.delta? = some delta) (hrevision : delta.revision = revision + 1) :
    ∃ n, (s.deltas i)[n]? = some delta ∧ revision = UInt64.ofNat n ∧
      roster.Perm (rosterAt (s.deltas i) n) := by
  obtain ⟨n, hn, hn', hroster, -⟩ := h.reader revision roster hreader
  have hframe : frame ∈ s.outgoing := List.mem_append_left _ (List.mem_of_getElem? hnext)
  obtain ⟨m, hm⟩ := (h.faithful frame hframe).delta delta hdelta
  have hsucc : UInt64.ofNat (n + 1) = UInt64.ofNat (m + 1) := by
    rw [← Room.ofNat_length_succ, ← hn', ← hrevision, h.numbered hm]
  have hmn : m = n := by
    have hshort := h.short
    have hlt : m < (s.deltas i).length := (List.getElem?_eq_some_iff.mp hm).1
    have htoNat := congrArg UInt64.toNat hsucc
    rw [UInt64.toNat_ofNat', UInt64.toNat_ofNat'] at htoNat
    omega
  exact ⟨n, hmn ▸ hm, hn', hroster⟩

/-- What the ingress makes of a frame. -/
theorem read (h : Inv i s) {frame : Outgoing} (hnext : s.sent[s.received]? = some frame)
    {requests : List Incoming} : Inv i { s with
      received := s.received + 1
      reader := (s.reader.receive frame).1
      requests := requests } := by
  have hframe : frame ∈ s.outgoing := List.mem_append_left _ (List.mem_of_getElem? hnext)
  refine ⟨h.rooms, h.short, h.known, h.faithful, h.ordered, h.handle, h.subscribed,
    fun revision roster hreader => ?_⟩
  obtain ⟨hroster, -⟩ | ⟨revision', roster', hold, hchange⟩ := Reader.receive_eq_reading hreader
  · obtain ⟨n, hn, hrevision, hpeers⟩ := (h.faithful frame hframe).roster _ hroster
    refine ⟨n, hn, hrevision, hpeers, s.received, Nat.lt_succ_self _, frame, hnext, ?_⟩
    exact Outgoing.revision?_of_roster? hroster
  · rcases hchange with ⟨delta, hdelta, hrevision, rfl, rfl⟩ | ⟨rfl, rfl⟩
    · obtain ⟨n, hn, -, hroster⟩ := h.next_delta hold hnext hdelta hrevision
      have hperm := applyDelta_perm (h.oneSided hn) hroster
      rw [← rosterAt_succ hn] at hperm
      refine ⟨n + 1, (List.getElem?_eq_some_iff.mp hn).1, h.numbered hn, hperm, s.received,
        Nat.lt_succ_self _, frame, hnext, ?_⟩
      exact Outgoing.revision?_of_delta? hdelta
    · obtain ⟨n, hn, hrevision, hroster, k, hk, hmsg⟩ := h.reader _ _ hold
      exact ⟨n, hn, hrevision, hroster, k, Nat.lt_succ_of_lt hk, hmsg⟩

theorem step (h : Inv i s) (hstep : Step sessionId s s') (hone : s'.OneRoom i sessionId) :
    Inv i s' := by
  cases hstep with
  | others pod' hrooms => exact h.pod hrooms hone.revisions
  | request frame => exact h.frame rfl rfl rfl rfl rfl rfl
  | receive frame draining hphase hnext =>
    have hserved : Inv i { s with served := s.served + 1 } := h.frame rfl rfl rfl rfl rfl rfl
    exact hserved.receive draining frame hone
  | signalled reason hphase => exact h.leave _
  | delta j rx room delta hphase hrx hroom hdelta =>
    obtain rfl : j = i := (h.subscribed _ (.inl hrx)).1
    exact h.pend_delta hrx (deltas_of_room hroom ▸ hdelta)
  | lagged j rx rx' room hphase hrx hroom hbehind hle =>
    obtain rfl : j = i := (h.subscribed _ (.inl hrx)).1
    exact (h.jump hrx hbehind.le (deltas_of_room hroom ▸ hle)).snapshot fun j hj => hone.room j hj
  | unsubscribed j rx hphase hrx => exact h.leave none
  | subscribe j room pubkey protocolVersion hphase hroom =>
    obtain rfl : j = i := h.handle j (hphase ▸ rfl)
    exact h.subscribe rfl (deltas_of_room hroom ▸ rfl) rfl
  | validated j rx room pubkey protocolVersion peerId fence hphase hroom hfresh =>
    obtain rfl : j = i := (h.subscribed (j, rx) (.inr (hphase ▸ rfl))).1
    exact h.validated hphase hfresh fence hone.revisions
  | registered j rx room pubkey peerIndex hphase hroom =>
    obtain rfl : j = i := (h.subscribed (j, rx) (.inr (hphase ▸ rfl))).1
    exact h.pend_roster hroom rfl rfl rfl rfl fun p hp => .inr (hphase ▸ hp)
  | snapshot j room hphase hroom =>
    obtain rfl : j = i := h.handle j (hphase ▸ rfl)
    exact h.pend_roster hroom rfl rfl rfl rfl nofun
  | replied msg rosterRx hphase =>
    refine h.move (List.prefix_append _ _) ?_ nofun fun p hp => ?_
    · rw [Serving.outgoing, hphase]
      simp [Phase.pending]
    · rcases Option.or_eq_some_iff.mp (hp.resolve_right nofun) with hp | ⟨-, hp⟩
      · exact .inr (hphase ▸ hp)
      · exact .inl hp
  | replyFails msg rosterRx hphase => exact h.leave none
  | sent msg hphase =>
    refine h.move (List.prefix_append _ _) ?_ nofun fun p hp => .inl (hp.resolve_right nofun)
    rw [Serving.outgoing, hphase]
    simp [Phase.pending]
  | sendFails msg hphase => exact h.quiet rfl rfl nofun
  | goodbye reason hphase => 
    exact h.push_plain (List.prefix_append _ _) (List.append_nil _) rfl rfl rfl rfl
  | ended reason hphase => exact h.quiet rfl rfl nofun
  | dropPeer room pubkey hphase => exact h.drop _ pubkey hone.revisions
  | returns room hphase => exact h.quiet rfl rfl nofun
  | read frame hnext => exact h.read hnext
  | readFails =>
    exact ⟨h.rooms, h.short, h.known, h.faithful, h.ordered, h.handle, h.subscribed, nofun⟩

theorem new (i : ℕ) : Inv i (.new .new) where
  rooms _ _ hroom := nomatch hroom
  short := Nat.pow_pos Nat.two_pos
  known _ hmsg := absurd hmsg List.not_mem_nil
  faithful _ hmsg := absurd hmsg List.not_mem_nil
  ordered := .nil
  handle := nofun
  subscribed _ hp := hp.elim nofun nofun
  reader := nofun

theorem run (hrun : OneRoomRun sessionId i (.new .new) s) : Inv i s := by
  induction hrun with
  | refl => exact .new i
  | tail _ hstep ih => exact ih.step hstep.1 hstep.2

end Inv

/-! ### Runs -/

variable {sessionId : Uuid} {i : ℕ} {s s' s'' : Serving}

/-- The stream towards the ingress, and the ingress. -/
def Serving.outbound (s : Serving) : List Outgoing × ℕ × Reader := (s.sent, s.received, s.reader)

theorem outbound_eq_iff {sent : List Outgoing} {received : ℕ} {reader : Reader} :
    s.outbound = (sent, received, reader) ↔
      s.sent = sent ∧ s.received = received ∧ s.reader = reader := by
  rw [Serving.outbound, Prod.mk.injEq, Prod.mk.injEq]

theorem outbound_drop (s : Serving) (room : Option ℕ) (pubkey : List Char) :
    (s.drop room pubkey).outbound = s.outbound ∧ (s.drop room pubkey).phase = s.phase := by
  rw [Serving.drop]
  split
  · exact ⟨rfl, rfl⟩
  · exact ⟨rfl, rfl⟩

theorem outbound_receive (s : Serving) (draining : Bool) (frame : Incoming) :
    (s.receive sessionId draining frame).outbound = s.outbound := by
  cases frame with
  | control msg =>
    cases msg with
    | registerPeer communityId pubkey protocolVersion =>
      rw [Serving.receive, Serving.registerPeer]
      split_ifs
      · rfl
      · rfl
      · rfl
    | unregisterPeer pubkey => exact (outbound_drop s _ pubkey).1
    | rosterResync | peerRegistered | rosterSnapshot | rosterDelta | registerRejected => rfl
  | misfenced | undecodable | unexpected | goodbye | closed | failed => rfl

theorem outbound_validated (s : Serving) (room : Room) (i rx : ℕ) (pubkey : List Char)
    (protocolVersion : ℕ) (peerId : Uuid) (fence : Fence) :
    (s.validated room i rx pubkey protocolVersion peerId fence).outbound = s.outbound := by
  cases fence with
  | ok =>
    rw [Serving.validated]
    split
    · rfl
    · rfl
  | rejected | failed => rfl

/-- What a step does to the stream: nothing, a frame is written, the ingress reads one, or it is
gone. -/
theorem Step.outbound_cases (h : Step sessionId s s') :
    (∃ sent, s.sent <+: sent ∧ s'.outbound = (sent, s.received, s.reader)) ∨
      (∃ frame, s.sent[s.received]? = some frame ∧
        s'.outbound = (s.sent, s.received + 1, (s.reader.receive frame).1)) ∨
      s'.outbound = (s.sent, s.received, .done) := by
  cases h with
  | receive frame draining =>
    exact .inl ⟨s.sent, List.prefix_rfl, outbound_receive { s with served := s.served + 1 } _ _⟩
  | validated => exact .inl ⟨s.sent, List.prefix_rfl, outbound_validated ..⟩
  | dropPeer => exact .inl ⟨s.sent, List.prefix_rfl, (outbound_drop ..).1⟩
  | replied | sent | goodbye => exact .inl ⟨_, List.prefix_append _ _, rfl⟩
  | read frame hnext => exact .inr (.inl ⟨frame, hnext, rfl⟩)
  | readFails => exact .inr (.inr rfl)
  | others | request | signalled | delta | lagged | unsubscribed | subscribe | registered
  | snapshot | replyFails | sendFails | ended | returns =>
    exact .inl ⟨s.sent, List.prefix_rfl, rfl⟩

/-- What was sent stays sent. -/
theorem Step.sent_extends (h : Step sessionId s s') : s.sent <+: s'.sent := by
  obtain ⟨sent, hsent, hout⟩ | ⟨frame, -, hout⟩ | hout := h.outbound_cases
  · exact ((outbound_eq_iff).mp hout).1 ▸ hsent
  · exact ((outbound_eq_iff).mp hout).1 ▸ List.prefix_rfl
  · exact ((outbound_eq_iff).mp hout).1 ▸ List.prefix_rfl

/-- The frames that were sent are in order. -/
theorem Inv.precedes (h : Inv i s) {k l : ℕ} (hkl : k < l) {msg msg' : Outgoing}
    (hk : s.sent[k]? = some msg) (hl : s.sent[l]? = some msg') : msg.Precedes msg' := by
  obtain ⟨hltk, rfl⟩ := List.getElem?_eq_some_iff.mp hk
  obtain ⟨hltl, rfl⟩ := List.getElem?_eq_some_iff.mp hl
  have hordered := h.ordered.sublist (List.sublist_append_left _ _)
  exact List.pairwise_iff_getElem.mp hordered k l hltk hltl hkl

/-- A loop that is about to take a snapshot takes it, and has nothing else to write. -/
theorem Step.of_snapshotting {j : ℕ} (h : s.phase = .snapshotting j)
    (hstep : Step sessionId s s') : s'.sent = s.sent ∧ (s'.phase = .snapshotting j ∨
      ∃ room, s.pod.room? j = some room ∧ s'.phase = .sending (rosterSnapshotMsg room)) := by
  cases hstep with
  | others | request | read | readFails => exact ⟨rfl, .inl h⟩
  | snapshot k room hphase hroom =>
    obtain rfl := Phase.snapshotting.inj (h.symm.trans hphase)
    exact ⟨rfl, .inr ⟨room, hroom, rfl⟩⟩
  | _ => simp_all only [reduceCtorEq]

/-- A roster message is written, or the call returns. -/
theorem Step.of_sending {msg : HuddleControlMsg} (h : s.phase = .sending msg)
    (hstep : Step sessionId s s') : s'.sent = s.sent ∧
      (s'.phase = .sending msg ∨ s'.phase = .returned) ∨ s'.sent = s.sent ++ [.control msg] := by
  cases hstep with
  | others | request | read | readFails => exact .inl ⟨rfl, .inl h⟩
  | sent msg' hphase =>
    obtain rfl := Phase.sending.inj (h.symm.trans hphase)
    exact .inr rfl
  | sendFails => exact .inl ⟨rfl, .inr rfl⟩
  | _ => simp_all only [reduceCtorEq]

/-- The loop is left, and says nothing any more. -/
def Phase.Over (phase : Phase) : Prop :=
  phase = .ending none ∨ (∃ room, phase = .dropping room) ∨ phase = .returned

theorem Step.of_over (h : s.phase.Over) (hstep : Step sessionId s s') :
    s'.sent = s.sent ∧ s'.phase.Over := by
  cases hstep with
  | others | request | read | readFails => exact ⟨rfl, h⟩
  | ended => exact ⟨rfl, .inr (.inl ⟨_, rfl⟩)⟩
  | dropPeer room pubkey hphase =>
    obtain ⟨hout, hphase⟩ := outbound_drop s room pubkey
    exact ⟨((outbound_eq_iff).mp hout).1, hphase.symm ▸ h⟩
  | returns => exact ⟨rfl, .inr (.inr rfl)⟩
  | _ => simp_all [Phase.Over]

/-- A snapshot that is at least as new as a revision. -/
def SnapshotFrom (revision : UInt64) (frame : Outgoing) : Prop :=
  ∃ next peers, frame = .control (.rosterSnapshot next peers) ∧ revision ≤ next

theorem Inv.rosterSnapshotMsg (h : Inv i s) {room : Room} (hroom : s.pod.room? i = some room) :
    SnapshotFrom (UInt64.ofNat (s.deltas i).length) (.control (rosterSnapshotMsg room)) :=
  ⟨_, _, rfl, by
    rw [deltas_of_room hroom, Room.rosterSnapshot, (h.rooms i room hroom).1.revision]
    exact UInt64.le_refl _⟩

/-- Before and after the answer to a lag or to a request: the snapshot is due, has to be written, or
is dropped with the loop; or it was the next frame. -/
def Answering (revision : UInt64) (sent : List Outgoing) (s : Serving) : Prop :=
  (s.sent = sent ∧ (s.phase = .snapshotting i ∧ revision ≤ UInt64.ofNat (s.deltas i).length ∨
    (∃ msg, s.phase = .sending msg ∧ SnapshotFrom revision (.control msg)) ∨ s.phase.Over)) ∨
  ∃ frame, s.sent[sent.length]? = some frame ∧ SnapshotFrom revision frame

theorem Answering.step {revision : UInt64} {sent : List Outgoing}
    (h : Answering (i := i) revision sent s) (hinv : Inv i s) (hstep : Step sessionId s s')
    (hone : s'.OneRoom i sessionId) : Answering (i := i) revision sent s' := by
  obtain ⟨rfl, ⟨hphase, hle⟩ | ⟨msg, hphase, hmsg⟩ | hphase⟩ | ⟨frame, hframe, hsnapshot⟩ := h
  · obtain ⟨hsent, hphase' | ⟨room, hroom, hphase'⟩⟩ := hstep.of_snapshotting hphase
    · refine .inl ⟨hsent, .inl ⟨hphase', UInt64.le_trans hle ?_⟩⟩
      exact ofNat_le (hstep.rooms.room i).extends_deltas.length_le hone.revisions
    · obtain ⟨next, peers, hmsg, hnext⟩ := hinv.rosterSnapshotMsg hroom
      exact .inl ⟨hsent, .inr (.inl ⟨_, hphase', next, peers, hmsg, UInt64.le_trans hle hnext⟩)⟩
  · obtain ⟨hsent, hphase' | hphase'⟩ | hsent := hstep.of_sending hphase
    · exact .inl ⟨hsent, .inr (.inl ⟨msg, hphase', hmsg⟩)⟩
    · exact .inl ⟨hsent, .inr (.inr (.inr (.inr hphase')))⟩
    · refine .inr ⟨_, ?_, hmsg⟩
      rw [hsent, List.getElem?_concat_length]
  · obtain ⟨hsent, hphase'⟩ := hstep.of_over hphase
    exact .inl ⟨hsent, .inr (.inr hphase')⟩
  · exact .inr ⟨frame, getElem?_extend hstep.sent_extends hframe, hsnapshot⟩

/-- Since a gap the ingress has applied nothing, unless it had a snapshot. -/
def Waiting (s s' : Serving) : Prop :=
  s.sent <+: s'.sent ∧ s.received ≤ s'.received ∧
    (s'.reader = s.reader ∨ s'.reader = .done ∨ ∃ k, s.received < k ∧ k < s'.received ∧
      ∃ revision peers, s'.sent[k]? = some (.control (.rosterSnapshot revision peers)))

theorem Waiting.step {t : Serving} (h : Waiting s t) (hinv : Inv i t) {revision : UInt64}
    {roster : List RosterPeer} (hreader : s.reader = .reading revision roster) {frame : Outgoing}
    (hnext : s.sent[s.received]? = some frame) (hgap : (s.reader.receive frame).2 = true)
    (hstep : Step sessionId t s') : Waiting s s' := by
  obtain ⟨hsent, hreceived, hwaiting⟩ := h
  refine ⟨hsent.trans hstep.sent_extends, ?_⟩
  rw [hreader] at hgap
  obtain ⟨hsame, delta, hdelta, hlt⟩ := Reader.receive_gap hgap
  obtain ⟨sent, hsent', hout⟩ | ⟨frame', hnext', hout⟩ | hout := hstep.outbound_cases
  · obtain ⟨rfl, hreceived', hreader'⟩ := (outbound_eq_iff).mp hout
    rw [hreceived', hreader']
    refine ⟨hreceived, hwaiting.imp_right (Or.imp_right ?_)⟩
    rintro ⟨k, hk, hk', revision', peers, hsnapshot⟩
    exact ⟨k, hk, hk', revision', peers, getElem?_extend hsent' hsnapshot⟩
  · obtain ⟨hsame', hreceived', hreader'⟩ := (outbound_eq_iff).mp hout
    rw [hreceived', hreader', hsame']
    refine ⟨Nat.le_succ_of_le hreceived, ?_⟩
    rcases hwaiting with hold | hdone | ⟨k, hk, hk', hsnapshot⟩
    · rw [hold, hreader]
      rcases Nat.eq_or_lt_of_le hreceived with heq | hlt'
      · -- The frame is the one that told of the gap.
        have hframe := getElem?_extend hsent hnext
        rw [heq, hnext'] at hframe
        obtain rfl := Option.some.inj hframe
        exact .inl hsame
      · cases hread : ((Reader.reading revision roster).receive frame').1 with
        | dialing => exact absurd hread Reader.receive_ne_dialing
        | done => exact .inr (.inl rfl)
        | reading revision' roster' =>
          obtain ⟨-, hdial | rfl⟩ | ⟨revision'', roster'', hold', hchange⟩ :=
            Reader.receive_eq_reading hread
          · cases hdial
          · exact .inr (.inr ⟨t.received, hlt', Nat.lt_succ_self _, revision', roster', hnext'⟩)
          · obtain ⟨rfl, rfl⟩ := Reader.reading.inj hold'
            rcases hchange with ⟨delta', hdelta', hnumber, -⟩ | ⟨rfl, rfl⟩
            · -- A later delta is past the one that told of the gap.
              have hgap' := (hinv.precedes hlt' (getElem?_extend hsent hnext) hnext').delta
                delta delta' hdelta hdelta'
              rw [hnumber, UInt64.lt_iff_toNat_lt, UInt64.toNat_add] at hgap'
              rw [UInt64.lt_iff_toNat_lt] at hlt
              have hmod := Nat.mod_le (revision.toNat + UInt64.toNat 1) (2 ^ 64)
              have hone : UInt64.toNat 1 = 1 := rfl
              omega
            · exact .inl rfl
    · rw [hdone]
      exact .inr (.inl rfl)
    · exact .inr (.inr ⟨k, hk, Nat.lt_succ_of_lt hk', hsnapshot⟩)
  · obtain ⟨hsame', hreceived', hreader'⟩ := (outbound_eq_iff).mp hout
    rw [hreceived', hreader']
    exact ⟨hreceived, .inr (.inl rfl)⟩

/-- A pod registers its client with the owner. -/
def asked : Serving :=
  { Serving.new .new with requests := [.control (.registerPeer 7 "a".toList 2)] }

def gotRoom : Serving :=
  { asked with served := 1 }.receive 9 false (.control (.registerPeer 7 "a".toList 2))

def subscribed : Serving := { gotRoom with phase := .validating 0 0 "a".toList 2 }

def letIn : Serving := subscribed.validated .new 0 0 "a".toList 2 1 .ok

def registration : HuddleControlMsg := .peerRegistered "a".toList 0 ⟨1, [⟨"a".toList, 0⟩]⟩

def replying : Serving := { letIn with phase := .replying registration (some (0, 0)) }

def joined : Serving :=
  { replying with rosterRx := some (0, 0) }.write (.control registration) .ready

end Buzz.Relay.Audio.Control
