import Mathlib.Logic.Relation
import Mathlib.Data.Set.Insert
import Buzz.RelayMesh.Membership

/-!
# Gossip between replicas

Any number of membership views, one for each runtime, that change their own records, are seeded from
the ready registry, answer digests with deltas, and are handed records that some of them sent:
lost, repeated and reordered at will. What a replica was given and what it published are kept beside
the views.

A version is last-writer-wins and only its owner writes it, so what is held of a peer is the maximum
of what was given (`Sound.given`), it is never ahead of the owner (`Sound.storedVersion_le`), and an
exchange of digests and deltas leaves both sides with the same versions.

## Main definitions

* `World`, `Action`, `World.step`, `World.Enabled`.
* `Genuine`: a record that a seed cannot have made is one that its owner published.
* `Sound`: the invariant of gossip.

## Main results

* `Sound.step`, `Sound.run`.
* `mesh_gossip_converges`.
-/

namespace Buzz.RelayMesh

open Buzz.Library Buzz.Relay.Tunnel Relation

/-! ### Seeds -/

namespace MeshMembership

variable (schnorr : Schnorr)

/-- The seeds of the bootstrap records that are admitted. -/
def admitted (m : MeshMembership) (records : List (ReadyRecord × UInt64)) : List GossipRecord :=
  records.filterMap fun r => (admitReadyRecord schnorr m r.1 r.2).2

/-- Views that differ in their counts of rejections only. -/
def SameView (m m' : MeshMembership) : Prop :=
  ∃ n, m' = { m with foreignRelayRejections := n }

variable {schnorr} {m m' : MeshMembership}

theorem SameView.refl (m : MeshMembership) : SameView m m := ⟨m.foreignRelayRejections, rfl⟩

theorem SameView.trans {m'' : MeshMembership} (h : SameView m m') (h' : SameView m' m'') :
    SameView m m'' := by
  obtain ⟨n, rfl⟩ := h
  obtain ⟨n', rfl⟩ := h'
  exact ⟨n', rfl⟩

theorem SameView.storedVersion_eq (h : SameView m m') (id : RuntimeId) :
    m'.storedVersion id = m.storedVersion id := by
  obtain ⟨n, rfl⟩ := h
  rfl

theorem SameView.wellFormed (h : SameView m m') (hm : m.WellFormed) : m'.WellFormed := by
  obtain ⟨n, rfl⟩ := h
  exact ⟨hm.localRecord, hm.peers⟩

theorem SameView.applyGossipRecord (h : SameView m m') (r : GossipRecord) :
    SameView (m.applyGossipRecord r).1 (m'.applyGossipRecord r).1 := by
  obtain ⟨n, rfl⟩ := h
  refine ⟨n, ?_⟩
  simp only [MeshMembership.applyGossipRecord]
  split_ifs
  · rfl
  · split
    · split_ifs <;> rfl
    · rfl

theorem SameView.applyRecords (h : SameView m m') (rs : List GossipRecord) :
    SameView (m.applyRecords rs) (m'.applyRecords rs) := by
  induction rs generalizing m m' with
  | nil => exact h
  | cons r rs ih => exact ih (h.applyGossipRecord r)

theorem admitReadyRecord_spec (m : MeshMembership) (ready : ReadyRecord) (now : UInt64) :
    SameView m (admitReadyRecord schnorr m ready now).1 ∧
      ∀ record, (admitReadyRecord schnorr m ready now).2 = some record →
        record = seed ready now := by
  rw [admitReadyRecord]
  split_ifs
  · exact ⟨.refl m, fun record h => nomatch h⟩
  · exact ⟨⟨_, rfl⟩, fun record h => nomatch h⟩
  · exact ⟨.refl m, fun record h => (Option.some.inj h).symm⟩
  · exact ⟨.refl m, fun record h => nomatch h⟩

/-- A seed has version one. -/
theorem version_of_mem_admitted {records : List (ReadyRecord × UInt64)} {r : GossipRecord}
    (hr : r ∈ admitted schnorr m records) : r.version = 1 := by
  obtain ⟨⟨ready, now⟩, -, hadmitted⟩ := List.mem_filterMap.mp hr
  rw [(admitReadyRecord_spec m ready now).2 r hadmitted]
  rfl

theorem expectedRelayPubkey_applyGossipRecord (m : MeshMembership) (r : GossipRecord) :
    (m.applyGossipRecord r).1.expectedRelayPubkey = m.expectedRelayPubkey := by
  rw [MeshMembership.applyGossipRecord]
  split_ifs
  · rfl
  · split
    · split_ifs <;> rfl
    · rfl

/-- Whether bootstrap records are admitted does not depend on what is known of peers. -/
theorem admitted_congr (hid : m'.localRuntimeId = m.localRuntimeId)
    (hexpected : m'.expectedRelayPubkey = m.expectedRelayPubkey)
    (records : List (ReadyRecord × UInt64)) :
    admitted schnorr m' records = admitted schnorr m records := by
  refine List.filterMap_congr fun r _ => ?_
  rw [admitReadyRecord, admitReadyRecord, hid, hexpected]
  split_ifs <;> rfl

/-- Bootstrap records are seeds that are applied one after another. -/
theorem sameView_applyReadyRecords (m : MeshMembership) (records : List (ReadyRecord × UInt64)) :
    SameView (m.applyRecords (admitted schnorr m records))
      (applyReadyRecords schnorr m records) := by
  induction records generalizing m with
  | nil => exact .refl m
  | cons r records ih =>
    have hview : SameView m (admitReadyRecord schnorr m r.1 r.2).1 :=
      (admitReadyRecord_spec m r.1 r.2).1
    cases hadmitted : admitReadyRecord schnorr m r.1 r.2 with
    | mk m₁ record =>
      rw [hadmitted] at hview
      have hrest : admitted schnorr m₁ records = admitted schnorr m records := by
        obtain ⟨n, rfl⟩ := hview
        refine admitted_congr ?_ ?_ records <;> rfl
      cases record with
      | none =>
        have hfirst : applyReadyRecords schnorr m (r :: records) =
            applyReadyRecords schnorr m₁ records := by
          rw [applyReadyRecords, List.foldl_cons, hadmitted]
          rfl
        have hseeds : admitted schnorr m (r :: records) = admitted schnorr m records := by
          rw [admitted, List.filterMap_cons_none (by rw [hadmitted])]
          rfl
        rw [hfirst, hseeds, ← hrest]
        exact (hview.applyRecords _).trans (ih m₁)
      | some record =>
        have hfirst : applyReadyRecords schnorr m (r :: records) =
            applyReadyRecords schnorr (m₁.applyGossipRecord record).1 records := by
          rw [applyReadyRecords, List.foldl_cons, hadmitted]
          rfl
        have hseeds : admitted schnorr m (r :: records) = record :: admitted schnorr m records := by
          rw [admitted, List.filterMap_cons_some (by rw [hadmitted])]
          rfl
        have hlocal := (applyGossipRecord_local m₁ record).1
        have hsame : admitted schnorr (m₁.applyGossipRecord record).1 records =
            admitted schnorr m₁ records :=
          admitted_congr hlocal (expectedRelayPubkey_applyGossipRecord m₁ record) records
        rw [hfirst, hseeds, ← hrest, ← hsame]
        exact ((hview.applyGossipRecord record).applyRecords _).trans (ih _)

end MeshMembership

/-! ### Replicas -/

/-- A change to one's own record: the identifier stays, and the version is not lowered. -/
structure LocalUpdate where
  run : GossipRecord → GossipRecord
  runtimeId_run : ∀ r, (run r).runtimeId = r.runtimeId
  le_version_run : ∀ r, r.version ≤ (run r).version

/-- The views of all replicas, the records that were sent, and for every replica the records that it
was given and those that it published. -/
structure World (ι : Type*) where
  nodes : ι → MeshMembership
  sent : Set GossipRecord
  given : ι → List GossipRecord
  published : ι → Set GossipRecord

/-- What can happen: a replica changes its record, is seeded, answers a digest, or is handed a
record. -/
inductive Action (ι : Type*)
  | updateLocal (i : ι) (update : LocalUpdate) (nowMillis : UInt64)
  | applyReadyRecords (i : ι) (records : List (ReadyRecord × UInt64))
  | sendDelta (i : ι) (digest : List GossipDigestEntry)
  | deliver (i : ι) (record : GossipRecord)

variable {ι : Type*} {schnorr : Schnorr} {w w' : World ι}

/-- Only records that were sent are delivered. -/
def World.Enabled (w : World ι) : Action ι → Prop
  | .deliver _ record => record ∈ w.sent
  | _ => True

/-- Replicas that have just started. -/
structure World.Initial (w : World ι) : Prop where
  distinct : Function.Injective fun i => (w.nodes i).localRuntimeId
  started : ∀ i, ∃ record expected, 1 ≤ record.version ∧
    w.nodes i = MeshMembership.new record expected ∧ w.published i = {record}
  sent : w.sent = ∅
  given : ∀ i, w.given i = []

variable [DecidableEq ι]

/-- Hand records to a replica, whose view becomes `m`. -/
def World.hand (w : World ι) (i : ι) (records : List GossipRecord) (m : MeshMembership) : World ι :=
  { w with
    nodes := Function.update w.nodes i m
    given := Function.update w.given i (w.given i ++ records) }

/-- A replica changes its record. -/
def World.publish (w : World ι) (i : ι) (m : MeshMembership) : World ι :=
  { w with
    nodes := Function.update w.nodes i m
    published := Function.update w.published i (insert m.localRecord (w.published i)) }

variable (schnorr) in
/-- One step of the system. -/
def World.step (w : World ι) : Action ι → World ι
  | .updateLocal i update nowMillis =>
    w.publish i ((w.nodes i).updateLocal update.run nowMillis)
  | .applyReadyRecords i records =>
    w.hand i ((w.nodes i).admitted schnorr records) ((w.nodes i).applyReadyRecords schnorr records)
  | .sendDelta i digest => { w with sent := w.sent ∪ {r | r ∈ (w.nodes i).deltaFor digest} }
  | .deliver i record => w.hand i [record] ((w.nodes i).applyGossipRecord record).1

variable (schnorr) in
/-- A step that can happen. -/
def Steps (w w' : World ι) : Prop := ∃ a, w.Enabled a ∧ w' = w.step schnorr a

/-! ### The invariant -/

omit [DecidableEq ι] in
variable (w) in
/-- A record with a version that no seed has is one that its owner published. -/
def Genuine (r : GossipRecord) : Prop :=
  2 ≤ r.version.toNat → ∃ j, (w.nodes j).localRuntimeId = r.runtimeId ∧ r ∈ w.published j

omit [DecidableEq ι] in
variable (w) in
/-- The invariant of gossip. -/
structure Sound : Prop where
  distinct : Function.Injective fun i => (w.nodes i).localRuntimeId
  wellFormed : ∀ i, (w.nodes i).WellFormed
  one_le : ∀ i, 1 ≤ (w.nodes i).localRecord.version.toNat
  local_published : ∀ i, (w.nodes i).localRecord ∈ w.published i
  published : ∀ i, ∀ r ∈ w.published i,
    r.version.toNat ≤ (w.nodes i).localRecord.version.toNat
  held : ∀ i id peer, (w.nodes i).peers.lookup id = some peer → Genuine w peer.record
  sent : ∀ r ∈ w.sent, Genuine w r
  given : ∀ i id, id ≠ (w.nodes i).localRuntimeId →
    (w.nodes i).storedVersion id = MeshMembership.offered (w.given i) id

omit [DecidableEq ι] in
theorem World.Initial.sound (h : w.Initial) : Sound w := by
  refine ⟨h.distinct, ?_, ?_, ?_, ?_, ?_, ?_, ?_⟩
  · intro i
    obtain ⟨record, expected, -, hnode, -⟩ := h.started i
    rw [hnode]
    exact MeshMembership.wellFormed_new record expected
  · intro i
    obtain ⟨record, expected, hone, hnode, -⟩ := h.started i
    rw [hnode]
    exact UInt64.le_iff_toNat_le.mp hone
  · intro i
    obtain ⟨record, expected, -, hnode, hpublished⟩ := h.started i
    rw [hnode, hpublished]
    rfl
  · intro i r hr
    obtain ⟨record, expected, -, hnode, hpublished⟩ := h.started i
    rw [hpublished] at hr
    rw [hnode, Set.mem_singleton_iff.mp hr]
    exact le_rfl
  · intro i id peer hpeer
    obtain ⟨record, expected, -, hnode, -⟩ := h.started i
    rw [hnode, MeshMembership.new, AList.lookup_empty] at hpeer
    cases hpeer
  · intro r hr
    rw [h.sent] at hr
    exact absurd hr (Set.notMem_empty r)
  · intro i id hid
    obtain ⟨record, expected, -, hnode, -⟩ := h.started i
    rw [MeshMembership.storedVersion, if_neg hid, h.given, hnode, MeshMembership.new,
      AList.lookup_empty]
    rfl

/-! ### What is handed to a replica -/

theorem nodes_hand_self (w : World ι) (i : ι) (rs : List GossipRecord) (m : MeshMembership) :
    (w.hand i rs m).nodes i = m := Function.update_self ..

theorem nodes_hand_of_ne (w : World ι) {i j : ι} (h : j ≠ i) (rs : List GossipRecord)
    (m : MeshMembership) : (w.hand i rs m).nodes j = w.nodes j := Function.update_of_ne h ..

theorem given_hand_self (w : World ι) (i : ι) (rs : List GossipRecord) (m : MeshMembership) :
    (w.hand i rs m).given i = w.given i ++ rs := Function.update_self ..

theorem given_hand_of_ne (w : World ι) {i j : ι} (h : j ≠ i) (rs : List GossipRecord)
    (m : MeshMembership) : (w.hand i rs m).given j = w.given j := Function.update_of_ne h ..

/-- Records that are handed to a replica change no one's own record. -/
theorem local_hand {i : ι} {rs : List GossipRecord} {m : MeshMembership}
    (hview : MeshMembership.SameView ((w.nodes i).applyRecords rs) m) (j : ι) :
    ((w.hand i rs m).nodes j).localRuntimeId = (w.nodes j).localRuntimeId ∧
      ((w.hand i rs m).nodes j).localRecord = (w.nodes j).localRecord := by
  by_cases hji : j = i
  · subst hji
    obtain ⟨hid, hrecord, -⟩ := MeshMembership.storedVersion_applyRecords (w.nodes j) rs 0
    obtain ⟨n, rfl⟩ := hview
    rw [nodes_hand_self]
    exact ⟨hid, hrecord⟩
  · rw [nodes_hand_of_ne w hji]
    exact ⟨rfl, rfl⟩

/-- What is held after records are applied was held before or is one of them. -/
theorem lookup_applyRecords {m : MeshMembership} {rs : List GossipRecord} {id : RuntimeId}
    {peer : PeerState} (h : (m.applyRecords rs).peers.lookup id = some peer) :
    (∃ peer', m.peers.lookup id = some peer' ∧ peer'.record = peer.record) ∨ peer.record ∈ rs := by
  induction rs generalizing m with
  | nil => exact .inl ⟨peer, h, rfl⟩
  | cons r rs ih =>
    rcases ih h with ⟨peer', hpeer', hrecord⟩ | hmem
    · rcases m.lookup_applyGossipRecord r id with hsame | ⟨-, -, peer'', hpeer'', hrecord''⟩
      · exact .inl ⟨peer', hsame ▸ hpeer', hrecord⟩
      · rw [hpeer'] at hpeer''
        cases hpeer''
        exact .inr (by rw [← hrecord, hrecord'']; exact List.mem_cons_self)
    · exact .inr (List.mem_cons_of_mem r hmem)

/-- Handing genuine records to a replica keeps the invariant. -/
theorem Sound.hand (h : Sound w) {i : ι} {rs : List GossipRecord} {m : MeshMembership}
    (hview : MeshMembership.SameView ((w.nodes i).applyRecords rs) m)
    (hrs : ∀ r ∈ rs, Genuine w r) : Sound (w.hand i rs m) := by
  have hlocal := local_hand hview
  have hgenuine : ∀ r, Genuine w r → Genuine (w.hand i rs m) r := by
    intro r hr htwo
    obtain ⟨j, hj, hpublished⟩ := hr htwo
    exact ⟨j, (hlocal j).1.trans hj, hpublished⟩
  refine ⟨?_, ?_, ?_, ?_, ?_, ?_, ?_, ?_⟩
  · intro j k hjk
    simp only [(hlocal _).1] at hjk
    exact h.distinct hjk
  · intro j
    by_cases hji : j = i
    · subst hji
      rw [nodes_hand_self]
      exact hview.wellFormed ((h.wellFormed j).applyRecords rs)
    · rw [nodes_hand_of_ne w hji]
      exact h.wellFormed j
  · exact fun j => (hlocal j).2 ▸ h.one_le j
  · exact fun j => (hlocal j).2 ▸ h.local_published j
  · exact fun j r hr => (hlocal j).2 ▸ h.published j r hr
  · intro j id peer hpeer
    refine hgenuine _ ?_
    by_cases hji : j = i
    · subst hji
      rw [nodes_hand_self] at hpeer
      obtain ⟨n, rfl⟩ := hview
      rcases lookup_applyRecords hpeer with ⟨peer', hpeer', hrecord⟩ | hmem
      · exact hrecord ▸ h.held j id peer' hpeer'
      · exact hrs _ hmem
    · rw [nodes_hand_of_ne w hji] at hpeer
      exact h.held j id peer hpeer
  · exact fun r hr => hgenuine r (h.sent r hr)
  · intro j id hid
    rw [(hlocal j).1] at hid
    by_cases hji : j = i
    · subst hji
      have hversion := (MeshMembership.storedVersion_applyRecords (w.nodes j) rs id).2.2
      rw [if_neg hid] at hversion
      rw [nodes_hand_self, hview.storedVersion_eq, hversion, h.given j id hid, given_hand_self,
        MeshMembership.offered_append]
    · rw [nodes_hand_of_ne w hji, given_hand_of_ne w hji]
      exact h.given j id hid

/-! ### What a replica publishes -/

theorem nodes_publish_self (w : World ι) (i : ι) (m : MeshMembership) :
    (w.publish i m).nodes i = m := Function.update_self ..

theorem nodes_publish_of_ne (w : World ι) {i j : ι} (h : j ≠ i) (m : MeshMembership) :
    (w.publish i m).nodes j = w.nodes j := Function.update_of_ne h ..

theorem published_publish_self (w : World ι) (i : ι) (m : MeshMembership) :
    (w.publish i m).published i = insert m.localRecord (w.published i) := Function.update_self ..

theorem published_publish_of_ne (w : World ι) {i j : ι} (h : j ≠ i) (m : MeshMembership) :
    (w.publish i m).published j = w.published j := Function.update_of_ne h ..

omit [DecidableEq ι] in
/-- A change to one's own record does not lower its version. -/
theorem le_version_updateLocal (m : MeshMembership) (update : LocalUpdate) (now : UInt64) :
    m.localRecord.version.toNat ≤
      (m.updateLocal update.run now).localRecord.version.toNat := by
  have hle : m.localRecord.version.toNat ≤ (update.run m.localRecord).version.toNat :=
    UInt64.le_iff_toNat_le.mp (update.le_version_run m.localRecord)
  rw [MeshMembership.updateLocal]
  refine hle.trans ?_
  show _ ≤ (if _ then _ else _ : UInt64).toNat
  split_ifs with hmax
  · exact le_rfl
  · have hlt : (update.run m.localRecord).version.toNat < 18446744073709551615 := by
      refine lt_of_le_of_ne (Nat.le_of_lt_succ (UInt64.toNat_lt _)) fun heq => hmax ?_
      exact UInt64.toNat_inj.mp heq
    rw [UInt64.toNat_add]
    simp only [UInt64.toNat_one]
    omega

omit [DecidableEq ι] in
/-- What is held of others does not change with one's own record. -/
theorem storedVersion_updateLocal (m : MeshMembership) (update : LocalUpdate) (now : UInt64)
    {id : RuntimeId} (hid : id ≠ m.localRuntimeId) :
    (m.updateLocal update.run now).storedVersion id = m.storedVersion id := by
  rw [MeshMembership.storedVersion, MeshMembership.storedVersion]
  exact (if_neg hid).trans (if_neg hid).symm

/-- A replica that changes its own record keeps the invariant. -/
theorem Sound.publish (h : Sound w) (i : ι) (update : LocalUpdate) (now : UInt64) :
    Sound (w.publish i ((w.nodes i).updateLocal update.run now)) := by
  have hid : ∀ j, ((w.publish i ((w.nodes i).updateLocal update.run now)).nodes j).localRuntimeId =
      (w.nodes j).localRuntimeId := by
    intro j
    by_cases hji : j = i
    · subst hji
      rw [nodes_publish_self]
      rfl
    · rw [nodes_publish_of_ne w hji]
  have hversion : ∀ j, (w.nodes j).localRecord.version.toNat ≤
      ((w.publish i
        ((w.nodes i).updateLocal update.run now)).nodes j).localRecord.version.toNat := by
    intro j
    by_cases hji : j = i
    · subst hji
      rw [nodes_publish_self]
      exact le_version_updateLocal (w.nodes j) update now
    · rw [nodes_publish_of_ne w hji]
  have hgenuine : ∀ r, Genuine w r →
      Genuine (w.publish i ((w.nodes i).updateLocal update.run now)) r := by
    intro r hr htwo
    obtain ⟨j, hj, hpublished⟩ := hr htwo
    refine ⟨j, (hid j).trans hj, ?_⟩
    by_cases hji : j = i
    · subst hji
      rw [published_publish_self]
      exact Set.mem_insert_of_mem _ hpublished
    · rwa [published_publish_of_ne w hji]
  refine ⟨?_, ?_, ?_, ?_, ?_, ?_, ?_, ?_⟩
  · intro j k hjk
    simp only [hid] at hjk
    exact h.distinct hjk
  · intro j
    by_cases hji : j = i
    · subst hji
      rw [nodes_publish_self]
      refine ⟨?_, (h.wellFormed j).peers⟩
      exact (update.runtimeId_run _).trans (h.wellFormed j).localRecord
    · rw [nodes_publish_of_ne w hji]
      exact h.wellFormed j
  · exact fun j => (h.one_le j).trans (hversion j)
  · intro j
    by_cases hji : j = i
    · subst hji
      rw [nodes_publish_self, published_publish_self]
      exact Set.mem_insert _ _
    · rw [nodes_publish_of_ne w hji, published_publish_of_ne w hji]
      exact h.local_published j
  · intro j r hr
    by_cases hji : j = i
    · subst hji
      rw [published_publish_self] at hr
      rcases hr with rfl | hr
      · rw [nodes_publish_self]
      · exact (h.published j r hr).trans (hversion j)
    · rw [published_publish_of_ne w hji] at hr
      exact (h.published j r hr).trans (hversion j)
  · intro j id peer hpeer
    refine hgenuine _ ?_
    by_cases hji : j = i
    · subst hji
      rw [nodes_publish_self] at hpeer
      exact h.held j id peer hpeer
    · rw [nodes_publish_of_ne w hji] at hpeer
      exact h.held j id peer hpeer
  · exact fun r hr => hgenuine r (h.sent r hr)
  · intro j id hne
    rw [hid] at hne
    by_cases hji : j = i
    · subst hji
      rw [nodes_publish_self, storedVersion_updateLocal _ _ _ hne]
      exact h.given j id hne
    · rw [nodes_publish_of_ne w hji]
      exact h.given j id hne

/-! ### Runs -/

omit [DecidableEq ι] in
/-- Everything a replica knows is genuine. -/
theorem Sound.genuine_of_mem_records (h : Sound w) {i : ι} {r : GossipRecord}
    (hr : r ∈ (w.nodes i).records) : Genuine w r := by
  rcases MeshMembership.mem_records_iff.mp hr with rfl | ⟨id, peer, hpeer, rfl⟩
  · exact fun _ => ⟨i, (h.wellFormed i).localRecord.symm, h.local_published i⟩
  · exact h.held i id peer hpeer

/-- A step keeps the invariant. -/
theorem Sound.step (h : Sound w) {a : Action ι} (ha : w.Enabled a) : Sound (w.step schnorr a) := by
  cases a with
  | updateLocal i update now => exact h.publish i update now
  | applyReadyRecords i records =>
    refine h.hand (MeshMembership.sameView_applyReadyRecords (w.nodes i) records)
      fun r hr htwo => ?_
    rw [MeshMembership.version_of_mem_admitted hr] at htwo
    exact absurd htwo (by decide)
  | sendDelta i digest =>
    refine ⟨h.distinct, h.wellFormed, h.one_le, h.local_published, h.published, h.held, ?_, h.given⟩
    rintro r (hr | hr)
    · exact h.sent r hr
    · exact h.genuine_of_mem_records (MeshMembership.mem_deltaFor_iff.mp hr).1
  | deliver i record =>
    have hnext : Sound (w.hand i [record] ((w.nodes i).applyGossipRecord record).1) := by
      refine h.hand (.refl _) fun r hr => ?_
      rw [List.mem_singleton.mp hr]
      exact h.sent record ha
    exact hnext

theorem Sound.run {w₀ : World ι} (h : w₀.Initial) (hrun : ReflTransGen (Steps schnorr) w₀ w) :
    Sound w := by
  induction hrun with
  | refl => exact h.sound
  | tail _ hstep ih =>
    obtain ⟨a, ha, rfl⟩ := hstep
    exact ih.step ha

/-- A replica's own record changes by its own doing only. -/
theorem localRecord_step (w : World ι) {a : Action ι} {i : ι}
    (ha : ∀ update now, a ≠ .updateLocal i update now) :
    ((w.step schnorr a).nodes i).localRecord = (w.nodes i).localRecord := by
  cases a with
  | updateLocal j update now =>
    have hij : i ≠ j := by
      rintro rfl
      exact ha update now rfl
    exact congrArg MeshMembership.localRecord (nodes_publish_of_ne w hij _)
  | applyReadyRecords j records =>
    exact (local_hand (MeshMembership.sameView_applyReadyRecords (w.nodes j) records) i).2
  | sendDelta j digest => rfl
  | deliver j record =>
    exact (local_hand (w := w) (.refl ((w.nodes j).applyRecords [record])) i).2

theorem storedVersion_hand_le {i : ι} {rs : List GossipRecord} {m : MeshMembership}
    (hview : MeshMembership.SameView ((w.nodes i).applyRecords rs) m) (j : ι) (id : RuntimeId) :
    (w.nodes j).storedVersion id ≤ ((w.hand i rs m).nodes j).storedVersion id := by
  by_cases hji : j = i
  · subst hji
    rw [nodes_hand_self, hview.storedVersion_eq,
      (MeshMembership.storedVersion_applyRecords (w.nodes j) rs id).2.2]
    split_ifs
    · exact le_rfl
    · exact le_max_left _ _
  · rw [nodes_hand_of_ne w hji]

/-- No step lowers a version that is held. -/
theorem storedVersion_step_le (w : World ι) (a : Action ι) (i : ι) (id : RuntimeId) :
    (w.nodes i).storedVersion id ≤ ((w.step schnorr a).nodes i).storedVersion id := by
  cases a with
  | updateLocal j update now =>
    show _ ≤ ((w.publish j ((w.nodes j).updateLocal update.run now)).nodes i).storedVersion id
    by_cases hij : i = j
    · subst hij
      rw [nodes_publish_self]
      by_cases hid : id = (w.nodes i).localRuntimeId
      · rw [MeshMembership.storedVersion, MeshMembership.storedVersion, if_pos hid]
        refine le_of_le_of_eq ?_ (if_pos hid).symm
        exact WithBot.coe_le_coe.mpr (le_version_updateLocal (w.nodes i) update now)
      · rw [storedVersion_updateLocal _ _ _ hid]
    · rw [nodes_publish_of_ne w hij]
  | applyReadyRecords j records =>
    exact storedVersion_hand_le (MeshMembership.sameView_applyReadyRecords (w.nodes j) records) i id
  | sendDelta j digest => exact le_rfl
  | deliver j record =>
    exact storedVersion_hand_le (w := w) (.refl ((w.nodes j).applyRecords [record])) i id

/-! ### Agreement -/

omit [DecidableEq ι] in
/-- No replica is ahead of the owner of a record. -/
theorem Sound.storedVersion_le (h : Sound w) (i j : ι) :
    (w.nodes j).storedVersion (w.nodes i).localRuntimeId ≤
      (w.nodes i).storedVersion (w.nodes i).localRuntimeId := by
  have howner : (w.nodes i).storedVersion (w.nodes i).localRuntimeId =
      ((w.nodes i).localRecord.version.toNat : WithBot ℕ) := if_pos rfl
  by_cases hbot : (w.nodes j).storedVersion (w.nodes i).localRuntimeId = ⊥
  · rw [hbot]
    exact bot_le
  obtain ⟨r, hr, hid⟩ := (h.wellFormed j).exists_record hbot
  have hversion : r.version.toNat ≤ (w.nodes i).localRecord.version.toNat := by
    by_cases htwo : 2 ≤ r.version.toNat
    · obtain ⟨k, hk, hpublished⟩ := h.genuine_of_mem_records hr htwo
      have hki : k = i := h.distinct (hk.trans hid)
      exact hki ▸ h.published k r hpublished
    · have := h.one_le i
      omega
  rw [howner, ← hid, (h.wellFormed j).storedVersion_of_mem hr]
  exact WithBot.coe_le_coe.mpr hversion

omit [DecidableEq ι] in
/-- What a replica holds after a delta is the maximum of both sides, when the other side is not
ahead of it about itself. -/
theorem storedVersion_applyDelta_eq_max {m x : MeshMembership} (hm : m.WellFormed)
    (hx : x.WellFormed) (hle : x.storedVersion m.localRuntimeId ≤ m.storedVersion m.localRuntimeId)
    (id : RuntimeId) :
    (m.applyRecords (x.deltaFor m.digest)).storedVersion id =
      max (m.storedVersion id) (x.storedVersion id) := by
  rw [MeshMembership.storedVersion_applyDelta hm hx]
  split_ifs with hid
  · subst hid
    exact (max_eq_left hle).symm
  · rfl

omit [DecidableEq ι] in
/-- Two replicas hold the same versions after each answered the other's digest, whether the second
answers before or after it took the first one's delta. -/
theorem Sound.exchange (h : Sound w) (i j : ι) (id : RuntimeId) :
    ((w.nodes j).applyRecords ((w.nodes i).deltaFor (w.nodes j).digest)).storedVersion id =
        ((w.nodes i).applyRecords ((w.nodes j).deltaFor (w.nodes i).digest)).storedVersion id ∧
      ((w.nodes j).applyRecords (((w.nodes i).applyRecords ((w.nodes j).deltaFor
          (w.nodes i).digest)).deltaFor (w.nodes j).digest)).storedVersion id =
        ((w.nodes i).applyRecords ((w.nodes j).deltaFor (w.nodes i).digest)).storedVersion id := by
  have hi := storedVersion_applyDelta_eq_max (h.wellFormed i) (h.wellFormed j)
    (h.storedVersion_le i j)
  have hj := storedVersion_applyDelta_eq_max (h.wellFormed j) (h.wellFormed i)
    (h.storedVersion_le j i)
  have hahead : ((w.nodes i).applyRecords ((w.nodes j).deltaFor (w.nodes i).digest)).storedVersion
      (w.nodes j).localRuntimeId ≤ (w.nodes j).storedVersion (w.nodes j).localRuntimeId := by
    rw [hi]
    exact max_le (h.storedVersion_le j i) le_rfl
  have hlate := storedVersion_applyDelta_eq_max (h.wellFormed j)
    ((h.wellFormed i).applyRecords ((w.nodes j).deltaFor (w.nodes i).digest)) hahead
  refine ⟨?_, ?_⟩
  · rw [hi, hj, max_comm]
  · rw [hlate, hi, max_comm ((w.nodes i).storedVersion id), ← max_assoc, max_self]

/-- In every run of replicas with distinct identifiers: a replica's own record changes by its own
`update_local` only; a version that is held is never lowered, and is the greatest that was given; a
held record of version two or more was published by its owner; two replicas that exchange digests
and deltas hold the same versions; and records applied in any order leave the same versions. -/
theorem mesh_gossip_converges {w₀ : World ι} (h : w₀.Initial)
    (hrun : ReflTransGen (Steps schnorr) w₀ w) :
    (∀ (a : Action ι) (i : ι), (∀ update now, a ≠ .updateLocal i update now) →
      ((w.step schnorr a).nodes i).localRecord = (w.nodes i).localRecord) ∧
    (∀ (a : Action ι) (i : ι) (id : RuntimeId),
      (w.nodes i).storedVersion id ≤ ((w.step schnorr a).nodes i).storedVersion id) ∧
    (∀ (i : ι) (id : RuntimeId), id ≠ (w.nodes i).localRuntimeId →
      (w.nodes i).storedVersion id = MeshMembership.offered (w.given i) id) ∧
    (∀ (i : ι) (id : RuntimeId) (peer : PeerState), (w.nodes i).peers.lookup id = some peer →
      2 ≤ peer.record.version.toNat →
      ∃ j, (w.nodes j).localRuntimeId = id ∧ peer.record ∈ w.published j) ∧
    (∀ (i j : ι) (id : RuntimeId),
      ((w.nodes j).applyRecords ((w.nodes i).deltaFor (w.nodes j).digest)).storedVersion id =
          ((w.nodes i).applyRecords ((w.nodes j).deltaFor (w.nodes i).digest)).storedVersion id ∧
        ((w.nodes j).applyRecords (((w.nodes i).applyRecords ((w.nodes j).deltaFor
            (w.nodes i).digest)).deltaFor (w.nodes j).digest)).storedVersion id =
          ((w.nodes i).applyRecords ((w.nodes j).deltaFor (w.nodes i).digest)).storedVersion id) ∧
    (∀ (i : ι) (rs rs' : List GossipRecord), rs.Perm rs' → ∀ id,
      ((w.nodes i).applyRecords rs).storedVersion id =
        ((w.nodes i).applyRecords rs').storedVersion id) := by
  have hsound := Sound.run h hrun
  refine ⟨fun a i ha => localRecord_step w ha, storedVersion_step_le w, hsound.given, ?_,
    hsound.exchange, ?_⟩
  · intro i id peer hpeer htwo
    obtain ⟨j, hj, hpublished⟩ := hsound.held i id peer hpeer htwo
    exact ⟨j, hj.trans ((hsound.wellFormed i).peers id peer hpeer).1, hpublished⟩
  · intro i rs rs' hperm id
    rw [(MeshMembership.storedVersion_applyRecords (w.nodes i) rs id).2.2,
      (MeshMembership.storedVersion_applyRecords (w.nodes i) rs' id).2.2,
      MeshMembership.offered_congr (fun r => hperm.mem_iff) id]

/-- A scheme that accepts no key. -/
def noSchnorr : Schnorr where
  PublicKey := Unit
  Signature := Unit
  publicKeyFromHex _ := none
  publicKeyToHex _ := []
  signatureFromStr _ := none
  sha256 _ := []
  verify _ _ _ := false

/-- The first record of one of two replicas. -/
def bootRecord (b : Bool) : GossipRecord := .new (if b then 2 else 1) [] 1 0

/-- Two replicas that have just started. -/
def twoReplicas : World Bool where
  nodes b := .new (bootRecord b) none
  sent := ∅
  given _ := []
  published b := {bootRecord b}

theorem twoReplicas_initial : twoReplicas.Initial := by
  refine ⟨?_, fun b => ⟨bootRecord b, none, by decide +revert, rfl, rfl⟩, rfl, fun _ => rfl⟩
  intro b b' h
  cases b <;> cases b'
  · rfl
  · exact absurd h (by decide)
  · exact absurd h (by decide)
  · rfl

/-- A heartbeat of the first replica reaches the second. -/
theorem mesh_gossip_converges_heartbeat :
    ∃ w, ReflTransGen (Steps noSchnorr) twoReplicas w ∧ (w.nodes true).storedVersion 1 = 2 := by
  let heartbeat : LocalUpdate := ⟨id, fun _ => rfl, fun _ => UInt64.le_refl _⟩
  let bumped := (twoReplicas.nodes false).updateLocal heartbeat.run 5
  have hrun : ReflTransGen (Steps noSchnorr) twoReplicas
      (((twoReplicas.step noSchnorr (.updateLocal false heartbeat 5)).step noSchnorr
        (.sendDelta false [])).step noSchnorr (.deliver true bumped.localRecord)) := by
    refine .tail (.tail (.tail .refl ⟨.updateLocal false heartbeat 5, trivial, rfl⟩)
      ⟨.sendDelta false [], trivial, rfl⟩) ⟨.deliver true bumped.localRecord, ?_, rfl⟩
    refine .inr (MeshMembership.mem_deltaFor_iff.mpr ⟨?_, ?_⟩)
    · exact MeshMembership.mem_records_iff.mpr (.inl rfl)
    · intro version hversion
      cases hversion
  obtain ⟨-, -, hgiven, -⟩ := mesh_gossip_converges twoReplicas_initial hrun
  refine ⟨_, hrun, (hgiven true 1 (by decide)).trans ?_⟩
  rfl

end Buzz.RelayMesh
