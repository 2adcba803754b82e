import Mathlib.Data.Char
import Mathlib.Data.List.Induction
import Mathlib.Data.List.Lex
import Mathlib.Order.Lattice.Nat
import Mathlib.Order.WithBot
import Buzz.Library.HashMap
import Buzz.Library.Sorting
import Buzz.Relay.Tunnel.Directory

/-!
# Mesh membership

`MeshMembership` of `crates/buzz-relay-mesh/src/membership.rs`: the record of this runtime and the
records it holds of others, fed by the ready registry and by gossip. A record replaces the one that
is held when its version is greater, and a record about this runtime is refused.

What is held is read through `storedVersion`, which is `⊥` for a runtime that is not known. Applying
records takes the maximum of what is held and what is offered (`storedVersion_applyRecords`), and a
delta offers what the other side is missing or behind on (`max_offered_deltaFor`).

The clock, in milliseconds, is an argument where the source reads it. The suspicion level computed
from `PhiAccrual` in floating point and the connection bookkeeping around it are not here.

## Main definitions

* `GossipRecord`, `ReadyRecord`, `MeshMembership`.
* `applyGossipRecord`, `applyReadyRecords`, `updateLocal`, `digest`, `deltaFor`.
* `storedVersion`, `offered`.

## Main results

* `storedVersion_applyRecords`.
* `storedVersion_applyDelta`: what is held after a delta.
-/

namespace Buzz.RelayMesh

open Buzz.Library Buzz.Relay.Tunnel

/-! ### Records -/

/-- A record of a runtime. The load is a 32-bit float, kept as its bits. -/
structure GossipRecord where
  runtimeId : RuntimeId
  endpointAddrs : List (List Char)
  protoVersion : UInt16
  load : BitVec 32
  draining : Bool
  capabilities : List (List Char)
  version : UInt64
  heartbeatMillis : UInt64
  deriving DecidableEq

/-- A fresh record. -/
def GossipRecord.new (runtimeId : RuntimeId) (endpointAddrs : List (List Char))
    (protoVersion : UInt16) (nowMillis : UInt64) : GossipRecord where
  runtimeId
  endpointAddrs
  protoVersion
  load := 0
  draining := false
  capabilities := []
  version := 1
  heartbeatMillis := nowMillis

/-- A runtime and the version held of it. -/
structure GossipDigestEntry where
  runtimeId : RuntimeId
  version : UInt64
  deriving DecidableEq

/-- Value stored in the ready registry. -/
structure ReadyRecord where
  runtimeId : RuntimeId
  runtimePubkey : List Char
  relayPubkey : List Char
  relaySig : List Char
  endpointAddrs : List (List Char)
  protoVersion : UInt16
  capabilities : List (List Char)

/-- The signature scheme and the hash that attestations use. -/
structure Schnorr where
  PublicKey : Type
  Signature : Type
  publicKeyFromHex : List Char → Option PublicKey
  publicKeyToHex : PublicKey → List Char
  signatureFromStr : List Char → Option Signature
  sha256 : List Char → List UInt8
  verify : Signature → List UInt8 → PublicKey → Bool

/-- Stable signed payload. -/
def attestationPreimage (runtimeId : RuntimeId) (relayPubkey : List Char) : List Char :=
  "buzz-relay-mesh-ready-v1".toList ++ '\n' :: "runtime_pubkey=".toList ++ runtimeId.toHex ++
    '\n' :: "relay_pubkey=".toList ++ relayPubkey

/-- Whether a ready record is attested by the relay key it names. -/
def ReadyRecord.verifyAttestation (schnorr : Schnorr) (ready : ReadyRecord) : Bool :=
  if ready.runtimePubkey ≠ ready.runtimeId.toHex then false
  else match schnorr.publicKeyFromHex ready.relayPubkey,
      schnorr.signatureFromStr ready.relaySig with
    | some key, some sig =>
      schnorr.verify sig
        (schnorr.sha256 (attestationPreimage ready.runtimeId (schnorr.publicKeyToHex key))) key
    | _, _ => false

/-- Intervals between heartbeats, in milliseconds. -/
structure PhiAccrual where
  samples : List ℕ
  lastHeartbeat : Option ℕ
  maxSamples : ℕ

/-- No heartbeat yet. -/
def PhiAccrual.default : PhiAccrual := ⟨[], none, 100⟩

/-- Note a heartbeat. The oldest interval goes when there are too many. -/
def PhiAccrual.observe (phi : PhiAccrual) (at_ : ℕ) : PhiAccrual :=
  let samples := match phi.lastHeartbeat with
    | none => phi.samples
    | some prev =>
      if prev < at_ then
        let samples := phi.samples ++ [at_ - prev]
        if phi.maxSamples < samples.length then samples.tail else samples
      else phi.samples
  { phi with samples, lastHeartbeat := some at_ }

/-- State of the connection to a peer. -/
inductive ConnectionState
  | disconnected
  | connecting
  | connected
  | suspect
  deriving DecidableEq

/-- Counters of one peer. -/
structure MeshPeerCounters where
  runtimeId : List Char
  streamsOpened : ℕ := 0
  streamsReceived : ℕ := 0
  datagramsSent : ℕ := 0
  datagramsReceived : ℕ := 0
  gossipFramesSent : ℕ := 0
  gossipFramesReceived : ℕ := 0
  staleGenerationRejections : ℕ := 0

/-- What is known of a peer. -/
structure PeerState where
  record : GossipRecord
  phi : PhiAccrual
  connectionState : ConnectionState
  counters : MeshPeerCounters

/-! ### The membership table -/

/-- The membership view of one runtime. -/
structure MeshMembership where
  localRuntimeId : RuntimeId
  localRecord : GossipRecord
  peers : HashMap RuntimeId PeerState
  foreignRelayRejections : UInt64
  expectedRelayPubkey : Option (List Char)

namespace MeshMembership

/-- A view that knows no peer. -/
def new (localRecord : GossipRecord) (expectedRelayPubkey : Option (List Char)) :
    MeshMembership where
  localRuntimeId := localRecord.runtimeId
  localRecord
  peers := ∅
  foreignRelayRejections := 0
  expectedRelayPubkey

/-- Apply a gossiped record if it is newer than the local copy. -/
def applyGossipRecord (m : MeshMembership) (record : GossipRecord) : MeshMembership × Bool :=
  if record.runtimeId = m.localRuntimeId then (m, false)
  else
    let heartbeat := record.heartbeatMillis.toNat
    match m.peers.lookup record.runtimeId with
    | some peer =>
      if record.version ≤ peer.record.version then (m, false)
      else
        let peer := { peer with
          record
          connectionState := .connected
          phi := peer.phi.observe heartbeat }
        ({ m with peers := m.peers.insert record.runtimeId peer }, true)
    | none =>
      let peer :=
        { record
          phi := PhiAccrual.default.observe heartbeat
          connectionState := .connected
          counters := { runtimeId := record.runtimeId.toHex } }
      ({ m with peers := m.peers.insert record.runtimeId peer }, true)

/-- Apply records one after another. -/
def applyRecords (m : MeshMembership) (records : List GossipRecord) : MeshMembership :=
  records.foldl (fun m record => (m.applyGossipRecord record).1) m

/-- The record that a ready record enters as. -/
def seed (ready : ReadyRecord) (nowMillis : UInt64) : GossipRecord :=
  { GossipRecord.new ready.runtimeId ready.endpointAddrs ready.protoVersion nowMillis with
    capabilities := ready.capabilities }

/-- Apply one bootstrap record: the record that is handed on, if it is admitted, and the view with
rejections counted. -/
def admitReadyRecord (schnorr : Schnorr) (m : MeshMembership) (ready : ReadyRecord)
    (nowMillis : UInt64) : MeshMembership × Option GossipRecord :=
  if ready.runtimeId = m.localRuntimeId then (m, none)
  else if m.expectedRelayPubkey ≠ some ready.relayPubkey then
    ({ m with foreignRelayRejections := m.foreignRelayRejections + 1 }, none)
  else if ready.verifyAttestation schnorr then (m, some (seed ready nowMillis))
  else (m, none)

/-- Apply bootstrap records, each at its moment. -/
def applyReadyRecords (schnorr : Schnorr) (m : MeshMembership)
    (records : List (ReadyRecord × UInt64)) : MeshMembership :=
  records.foldl (fun m r =>
    match admitReadyRecord schnorr m r.1 r.2 with
    | (m, some record) => (m.applyGossipRecord record).1
    | (m, none) => m) m

/-- Change the local record. -/
def updateLocal (m : MeshMembership) (update : GossipRecord → GossipRecord) (nowMillis : UInt64) :
    MeshMembership :=
  let record := update m.localRecord
  { m with
    localRecord :=
      { record with
        version := if record.version = 18446744073709551615 then record.version
          else record.version + 1
        heartbeatMillis := nowMillis } }

/-- All known gossip records. -/
def records (m : MeshMembership) : List GossipRecord :=
  (m.peers.entries.map fun entry => entry.2.record) ++ [m.localRecord]

/-- Digest over every record this runtime knows. -/
def digest (m : MeshMembership) : List GossipDigestEntry :=
  sortByKey (fun entry => entry.runtimeId.toHex)
    (m.records.map fun record => ⟨record.runtimeId, record.version⟩)

/-- The versions of a digest. -/
def remoteVersions (digest : List GossipDigestEntry) : HashMap RuntimeId UInt64 :=
  digest.foldl (fun remote entry => remote.insert entry.runtimeId entry.version) ∅

/-- Records the remote digest is missing or behind on. -/
def deltaFor (m : MeshMembership) (digest : List GossipDigestEntry) : List GossipRecord :=
  sortByKey (fun record => record.runtimeId.toHex) (m.records.filter fun record =>
    match (remoteVersions digest).lookup record.runtimeId with
    | none => true
    | some version => version < record.version)

/-! ### Versions -/

/-- The version held of a peer. -/
def peerVersion : Option PeerState → WithBot ℕ
  | none => ⊥
  | some peer => (peer.record.version.toNat : WithBot ℕ)

/-- The version held of a runtime, its own included. -/
def storedVersion (m : MeshMembership) (id : RuntimeId) : WithBot ℕ :=
  if id = m.localRuntimeId then (m.localRecord.version.toNat : WithBot ℕ)
  else peerVersion (m.peers.lookup id)

/-- The version that a record offers of a runtime. -/
def offeredBy (record : GossipRecord) (id : RuntimeId) : WithBot ℕ :=
  if record.runtimeId = id then (record.version.toNat : WithBot ℕ) else ⊥

/-- The greatest version that records offer of a runtime. -/
def offered (records : List GossipRecord) (id : RuntimeId) : WithBot ℕ :=
  records.foldr (fun record v => max (offeredBy record id) v) ⊥

theorem offered_append (rs rs' : List GossipRecord) (id : RuntimeId) :
    offered (rs ++ rs') id = max (offered rs id) (offered rs' id) := by
  induction rs with
  | nil => exact (max_bot_left _).symm
  | cons r rs ih =>
    calc offered (r :: rs ++ rs') id = max (offeredBy r id) (offered (rs ++ rs') id) := rfl
      _ = max (max (offeredBy r id) (offered rs id)) (offered rs' id) := by rw [ih, max_assoc]

/-- The order of records does not matter, and neither does their repetition. -/
theorem offered_le_iff {rs : List GossipRecord} {id : RuntimeId} {v : WithBot ℕ} :
    offered rs id ≤ v ↔ ∀ r ∈ rs, offeredBy r id ≤ v := by
  induction rs with
  | nil => exact ⟨fun _ r hr => absurd hr List.not_mem_nil, fun _ => bot_le⟩
  | cons r rs ih =>
    show max (offeredBy r id) (offered rs id) ≤ v ↔ _
    rw [max_le_iff, ih, List.forall_mem_cons]

theorem offeredBy_le_offered {rs : List GossipRecord} {r : GossipRecord} (hr : r ∈ rs)
    (id : RuntimeId) : offeredBy r id ≤ offered rs id :=
  offered_le_iff.mp le_rfl r hr

theorem offered_congr {rs rs' : List GossipRecord} (h : ∀ r, r ∈ rs ↔ r ∈ rs') (id : RuntimeId) :
    offered rs id = offered rs' id := by
  refine le_antisymm (offered_le_iff.mpr fun r hr => ?_) (offered_le_iff.mpr fun r hr => ?_)
  · exact offeredBy_le_offered ((h r).mp hr) id
  · exact offeredBy_le_offered ((h r).mpr hr) id

/-! ### Applying records -/

theorem applyGossipRecord_local (m : MeshMembership) (r : GossipRecord) :
    (m.applyGossipRecord r).1.localRuntimeId = m.localRuntimeId ∧
      (m.applyGossipRecord r).1.localRecord = m.localRecord := by
  rw [applyGossipRecord]
  split_ifs
  · exact ⟨rfl, rfl⟩
  · split
    · split_ifs <;> exact ⟨rfl, rfl⟩
    · exact ⟨rfl, rfl⟩

/-- What is held under an identifier after one record: what was held, or the record. -/
theorem lookup_applyGossipRecord (m : MeshMembership) (r : GossipRecord) (id : RuntimeId) :
    (m.applyGossipRecord r).1.peers.lookup id = m.peers.lookup id ∨
      (id = r.runtimeId ∧ id ≠ m.localRuntimeId ∧
        ∃ peer, (m.applyGossipRecord r).1.peers.lookup id = some peer ∧ peer.record = r) := by
  rw [applyGossipRecord]
  split_ifs with hself
  · exact .inl rfl
  · by_cases hid : id = r.runtimeId
    · subst hid
      split
      · split_ifs
        · exact .inl rfl
        · refine .inr ⟨rfl, hself, _, AList.lookup_insert m.peers, rfl⟩
      · refine .inr ⟨rfl, hself, _, AList.lookup_insert m.peers, rfl⟩
    · split
      · split_ifs
        · exact .inl rfl
        · exact .inl (AList.lookup_insert_ne hid)
      · exact .inl (AList.lookup_insert_ne hid)

theorem peerVersion_applyGossipRecord (m : MeshMembership) (r : GossipRecord) {id : RuntimeId}
    (hid : id ≠ m.localRuntimeId) :
    peerVersion ((m.applyGossipRecord r).1.peers.lookup id) =
      max (peerVersion (m.peers.lookup id)) (offeredBy r id) := by
  rw [applyGossipRecord, offeredBy]
  by_cases hr : r.runtimeId = id
  · subst hr
    rw [if_neg hid, if_pos rfl]
    cases hpeer : m.peers.lookup r.runtimeId with
    | none =>
      rw [AList.lookup_insert]
      exact (max_bot_left _).symm
    | some peer =>
      show peerVersion ((if _ then _ else _ : MeshMembership × Bool).1.peers.lookup _) = _
      split_ifs with hle
      · rw [hpeer]
        exact (max_eq_left (WithBot.coe_le_coe.mpr (UInt64.le_iff_toNat_le.mp hle))).symm
      · rw [AList.lookup_insert]
        have hlt : peer.record.version.toNat ≤ r.version.toNat :=
          (UInt64.lt_iff_toNat_lt.mp (UInt64.not_le.mp hle)).le
        exact (max_eq_right (WithBot.coe_le_coe.mpr hlt)).symm
  · rw [if_neg hr, max_bot_right]
    split_ifs with hself
    · rfl
    · have hne : id ≠ r.runtimeId := fun h => hr h.symm
      split
      · split_ifs
        · rfl
        · rw [AList.lookup_insert_ne hne]
      · rw [AList.lookup_insert_ne hne]

/-- A record is refused about this runtime, and otherwise the greater version is held. -/
theorem storedVersion_applyGossipRecord (m : MeshMembership) (r : GossipRecord) (id : RuntimeId) :
    (m.applyGossipRecord r).1.storedVersion id =
      if id = m.localRuntimeId then m.storedVersion id
      else max (m.storedVersion id) (offeredBy r id) := by
  obtain ⟨hid, hrecord⟩ := applyGossipRecord_local m r
  rw [storedVersion, storedVersion, hid, hrecord]
  split_ifs with hlocal
  · rfl
  · exact peerVersion_applyGossipRecord m r hlocal

/-- What is held after records are applied does not depend on their order. -/
theorem storedVersion_applyRecords (m : MeshMembership) (rs : List GossipRecord) (id : RuntimeId) :
    (m.applyRecords rs).localRuntimeId = m.localRuntimeId ∧
    (m.applyRecords rs).localRecord = m.localRecord ∧
    (m.applyRecords rs).storedVersion id =
      if id = m.localRuntimeId then m.storedVersion id
      else max (m.storedVersion id) (offered rs id) := by
  induction rs generalizing m with
  | nil =>
    refine ⟨rfl, rfl, ?_⟩
    show m.storedVersion id = if _ then _ else max (m.storedVersion id) ⊥
    rw [max_bot_right, ite_self]
  | cons r rs ih =>
    obtain ⟨hid, hrecord⟩ := applyGossipRecord_local m r
    obtain ⟨hid', hrecord', hversion⟩ := ih (m.applyGossipRecord r).1
    refine ⟨hid'.trans hid, hrecord'.trans hrecord, hversion.trans ?_⟩
    rw [hid, storedVersion_applyGossipRecord]
    split_ifs
    · rfl
    · exact max_assoc _ _ _

/-! ### Digests and deltas -/

/-- Every record is held under the runtime it is about, this runtime's not among those of others. -/
structure WellFormed (m : MeshMembership) : Prop where
  localRecord : m.localRecord.runtimeId = m.localRuntimeId
  peers : ∀ id peer, m.peers.lookup id = some peer →
    peer.record.runtimeId = id ∧ id ≠ m.localRuntimeId

theorem wellFormed_new (record : GossipRecord) (expected : Option (List Char)) :
    (new record expected).WellFormed := by
  refine ⟨rfl, fun id peer hpeer => ?_⟩
  rw [new, AList.lookup_empty] at hpeer
  cases hpeer

theorem WellFormed.applyGossipRecord {m : MeshMembership} (h : m.WellFormed) (r : GossipRecord) :
    (m.applyGossipRecord r).1.WellFormed := by
  obtain ⟨hid, hrecord⟩ := applyGossipRecord_local m r
  refine ⟨by rw [hid, hrecord, h.localRecord], fun id peer hpeer => ?_⟩
  rcases lookup_applyGossipRecord m r id with hsame | ⟨hr, hne, peer', hpeer', hrecord'⟩
  · rw [hid]
    exact h.peers id peer (hsame ▸ hpeer)
  · rw [hpeer'] at hpeer
    cases hpeer
    rw [hid]
    exact ⟨by rw [hrecord', hr], hne⟩

theorem WellFormed.applyRecords {m : MeshMembership} (h : m.WellFormed) (rs : List GossipRecord) :
    (m.applyRecords rs).WellFormed := by
  induction rs generalizing m with
  | nil => exact h
  | cons r rs ih => exact ih (h.applyGossipRecord r)

theorem mem_records_iff {m : MeshMembership} {r : GossipRecord} :
    r ∈ m.records ↔ r = m.localRecord ∨ ∃ id peer, m.peers.lookup id = some peer ∧
      r = peer.record := by
  rw [records, List.mem_append, List.mem_singleton, or_comm, List.mem_map]
  refine or_congr_right ⟨?_, ?_⟩
  · rintro ⟨⟨id, peer⟩, hmem, rfl⟩
    exact ⟨id, peer, HashMap.mem_entries_iff.mp hmem, rfl⟩
  · rintro ⟨id, peer, hpeer, rfl⟩
    exact ⟨⟨id, peer⟩, HashMap.mem_entries_iff.mpr hpeer, rfl⟩

/-- The records are what is held. -/
theorem WellFormed.storedVersion_of_mem {m : MeshMembership} (h : m.WellFormed) {r : GossipRecord}
    (hr : r ∈ m.records) : m.storedVersion r.runtimeId = (r.version.toNat : WithBot ℕ) := by
  rcases mem_records_iff.mp hr with rfl | ⟨id, peer, hpeer, rfl⟩
  · rw [storedVersion, if_pos h.localRecord]
  · obtain ⟨hid, hne⟩ := h.peers id peer hpeer
    rw [storedVersion, hid, if_neg hne, hpeer]
    rfl

theorem WellFormed.exists_record {m : MeshMembership} (h : m.WellFormed) {id : RuntimeId}
    (hid : m.storedVersion id ≠ ⊥) : ∃ r ∈ m.records, r.runtimeId = id := by
  rw [storedVersion] at hid
  split_ifs at hid with hlocal
  · exact ⟨m.localRecord, mem_records_iff.mpr (.inl rfl), h.localRecord.trans hlocal.symm⟩
  · cases hpeer : m.peers.lookup id with
    | none =>
      rw [hpeer] at hid
      exact absurd rfl hid
    | some peer =>
      exact ⟨peer.record, mem_records_iff.mpr (.inr ⟨id, peer, hpeer, rfl⟩),
        (h.peers id peer hpeer).1⟩

/-- A digest holds what some entry of it says. -/
theorem lookup_remoteVersions (digest : List GossipDigestEntry) (id : RuntimeId) :
    ((remoteVersions digest).lookup id = none ∧ ∀ entry ∈ digest, entry.runtimeId ≠ id) ∨
      ∃ entry ∈ digest, entry.runtimeId = id ∧
        (remoteVersions digest).lookup id = some entry.version := by
  induction digest using List.reverseRecOn with
  | nil => exact .inl ⟨AList.lookup_empty id, fun entry hentry => absurd hentry List.not_mem_nil⟩
  | append_singleton digest last ih =>
    have hinsert : remoteVersions (digest ++ [last]) =
        (remoteVersions digest).insert last.runtimeId last.version := by
      rw [remoteVersions, List.foldl_append]
      rfl
    rw [hinsert, HashMap.lookup_insert_eq]
    by_cases hid : id = last.runtimeId
    · rw [if_pos hid]
      exact .inr ⟨last, by simp, hid.symm, rfl⟩
    · rw [if_neg hid]
      rcases ih with ⟨hnone, hall⟩ | ⟨entry, hentry, hentryId, hlookup⟩
      · refine .inl ⟨hnone, fun entry hentry => ?_⟩
        rcases List.mem_append.mp hentry with hentry | hentry
        · exact hall entry hentry
        · rw [List.mem_singleton.mp hentry]
          exact fun heq => hid heq.symm
      · exact .inr ⟨entry, List.mem_append_left _ hentry, hentryId, hlookup⟩

theorem mem_digest_iff {m : MeshMembership} {entry : GossipDigestEntry} :
    entry ∈ m.digest ↔ ∃ r ∈ m.records, entry = ⟨r.runtimeId, r.version⟩ := by
  rw [digest, (sortByKey_perm _ _).mem_iff, List.mem_map]
  simp only [eq_comm]

theorem mem_deltaFor_iff {m : MeshMembership} {digest : List GossipDigestEntry} {r : GossipRecord} :
    r ∈ m.deltaFor digest ↔ r ∈ m.records ∧
      ∀ version, (remoteVersions digest).lookup r.runtimeId = some version →
        version < r.version := by
  rw [deltaFor, (sortByKey_perm _ _).mem_iff, List.mem_filter]
  refine and_congr_right fun _ => ?_
  cases (remoteVersions digest).lookup r.runtimeId with
  | none => simp
  | some version => simp

/-- A delta offers what the other side is missing or behind on. -/
theorem max_offered_deltaFor {m x : MeshMembership} (hm : m.WellFormed) (hx : x.WellFormed)
    (id : RuntimeId) :
    max (m.storedVersion id) (offered (x.deltaFor m.digest) id) =
      max (m.storedVersion id) (x.storedVersion id) := by
  refine le_antisymm (max_le_max le_rfl (offered_le_iff.mpr fun r hr => ?_))
    (max_le (le_max_left _ _) ?_)
  · rw [offeredBy]
    split_ifs with hid
    · rw [← hid, hx.storedVersion_of_mem (mem_deltaFor_iff.mp hr).1]
    · exact bot_le
  · by_cases hbot : x.storedVersion id = ⊥
    · rw [hbot]
      exact bot_le
    · obtain ⟨r, hr, rfl⟩ := hx.exists_record hbot
      by_cases hdelta : r ∈ x.deltaFor m.digest
      · refine le_max_of_le_right ?_
        have hoffered := offeredBy_le_offered hdelta r.runtimeId
        rwa [offeredBy, if_pos rfl, ← hx.storedVersion_of_mem hr] at hoffered
      · -- The record is left out because the digest has a version that is no smaller.
        refine le_max_of_le_left ?_
        rw [mem_deltaFor_iff] at hdelta
        push Not at hdelta
        obtain ⟨version, hversion, hle⟩ := hdelta hr
        rcases lookup_remoteVersions m.digest r.runtimeId with
          ⟨hnone, -⟩ | ⟨entry, hentry, hentryId, hlookup⟩
        · rw [hnone] at hversion
          cases hversion
        · obtain ⟨r', hr', rfl⟩ := mem_digest_iff.mp hentry
          rw [hlookup] at hversion
          cases hversion
          rw [hx.storedVersion_of_mem hr, ← hentryId, hm.storedVersion_of_mem hr']
          exact WithBot.coe_le_coe.mpr (UInt64.le_iff_toNat_le.mp (UInt64.not_lt.mp hle))

/-- What is held after a delta for one's own digest. -/
theorem storedVersion_applyDelta {m x : MeshMembership} (hm : m.WellFormed) (hx : x.WellFormed)
    (id : RuntimeId) :
    (m.applyRecords (x.deltaFor m.digest)).storedVersion id =
      if id = m.localRuntimeId then m.storedVersion id
      else max (m.storedVersion id) (x.storedVersion id) := by
  rw [(storedVersion_applyRecords m _ id).2.2, max_offered_deltaFor hm hx]

end MeshMembership

end Buzz.RelayMesh
