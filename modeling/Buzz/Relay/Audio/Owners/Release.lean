import Buzz.Relay.Audio.Owners.Guard
import Buzz.Relay.Audio.Presence

/-!
# An empty huddle gives up its lease

The joins of a huddle together with the rooms of its pod: an audio connection resolves its join,
enters the room, attaches the lease, leaves, and releases the lease when its cleanup has removed the
room. The control streams of other pods let peers in and take them out, and release nothing. One
huddle is followed, on the pod that owns it: its lease is neither lost nor does it expire.

So the lease is kept when a control stream takes the last peer out. It is kept as well when the last
connection that leaves cannot remove the room, because the channel could not be archived or because
the manager has another room, and when that connection was resolved under another generation than
the one that was installed since.

## Main definitions

* `OwningPod`, `Action`, `OwningPod.Step`.
* `OwningPod.Careful`: whoever leaves the rooms empty, or finishes with them empty, releases.
* `Exclusive`: what holds of the one lease.
* `OwningPod.Kept`: a lease is held for a peer, or for a connection that is on its way out.
* `OwningPod.AtRest`: no join or leave is in progress.

## Main results

* `Exclusive.step`, `OwningPod.Inv.step`: what a step keeps.
* `empty_releases`: every run of careful steps.
* `empty_keeps`: a run in which a remote peer is the last to leave.
-/

namespace Buzz.Relay.Audio.Owners

open Buzz.Core Buzz.Library Buzz.Relay.Tunnel Relation

/-! ### The pod that owns a huddle -/

/-- The joins of a huddle, and the rooms of the pod. -/
structure OwningPod where
  joins : Joins
  pod : Pod

/-- What happens: to a join alone, to a connection that has asked for its room, to a renewer, or to
a control stream. -/
inductive Action
  | join (n : ℕ)
  | enter (n : ℕ)
  | attach (n : ℕ)
  | leave (n : ℕ)
  | finish (n : ℕ) (archived : Bool)
  | release (n : ℕ)
  | letGo (renewer : ℕ)
  | remote (e : Event)

namespace OwningPod

/-- A pod that has just started, where the huddle has no owner. -/
def new (generations : HashMap RoomKey ℕ) : OwningPod := ⟨.new ⟨∅, generations⟩, .new⟩

variable (localRuntimeId : RuntimeId) (key : RoomKey)

/-- A step of the pod. -/
inductive Step : OwningPod → Action → OwningPod → Prop
  | start {s : OwningPod} {n joins} (hn : s.pod.connections.lookup n = none)
      (h : Owners.Step localRuntimeId s.joins (.start n key) joins) :
      Step s (.join n) ⟨joins, s.pod⟩
  | resolve {s : OwningPod} {n joins}
      (h : Owners.Step localRuntimeId s.joins (.resolve n) joins) : Step s (.join n) ⟨joins, s.pod⟩
  | giveUp {s : OwningPod} {n joins} (hn : s.pod.connections.lookup n = none)
      (h : Owners.Step localRuntimeId s.joins (.giveUp n) joins) : Step s (.join n) ⟨joins, s.pod⟩
  | getOrCreate {s : OwningPod} {n generation acquired pod}
      (hn : s.joins.handlers n = .resolved key generation acquired)
      (hpod : s.pod.step (.getOrCreate n key) = some pod) : Step s (.enter n) ⟨s.joins, pod⟩
  /-- The channel is archived or cannot be looked up, or the version is not supported. -/
  | refused {s : OwningPod} {n joins pod} (cleanup : Bool)
      (h : Owners.Step localRuntimeId s.joins (.giveUp n) joins)
      (hpod : s.pod.step (.giveUp n cleanup) = some pod) : Step s (.enter n) ⟨joins, pod⟩
  | addPeer {s : OwningPod} {n peerId pubkey version pod} (hfresh : s.pod.Fresh peerId)
      (hpod : s.pod.step (.addPeer n peerId pubkey version none) = some pod)
      (hadmitted : (pod.connections.lookup n).isSome = true) : Step s (.enter n) ⟨s.joins, pod⟩
  | rejected {s : OwningPod} {n peerId pubkey version joins pod} (hfresh : s.pod.Fresh peerId)
      (hpod : s.pod.step (.addPeer n peerId pubkey version none) = some pod)
      (hrejected : pod.connections.lookup n = none)
      (h : Owners.Step localRuntimeId s.joins (.giveUp n) joins) : Step s (.enter n) ⟨joins, pod⟩
  | lookup {s : OwningPod} {n i peerId joins}
      (hn : s.pod.connections.lookup n = some (.admitted key i peerId false))
      (h : Owners.Step localRuntimeId s.joins (.lookup n) joins) : Step s (.attach n) ⟨joins, s.pod⟩
  | attach {s : OwningPod} {n i peerId joins}
      (hn : s.pod.connections.lookup n = some (.admitted key i peerId false))
      (h : Owners.Step localRuntimeId s.joins (.attach n) joins) : Step s (.attach n) ⟨joins, s.pod⟩
  | leave {s : OwningPod} {n generation ownerLost pod}
      (hn : s.joins.handlers n = .joined key generation ownerLost)
      (hpod : s.pod.step (.leave n) = some pod) : Step s (.leave n) ⟨s.joins, pod⟩
  | finish {s : OwningPod} {n i shouldAutoEnd joins pod} (archived : Bool)
      (hn : s.pod.connections.lookup n = some (.leaving key i shouldAutoEnd))
      (h : Owners.Step localRuntimeId s.joins
        (.leave n ((!shouldAutoEnd || archived) && s.pod.empties key)) joins)
      (hpod : s.pod.step (.finish n archived) = some pod) : Step s (.finish n archived) ⟨joins, pod⟩
  | release {s : OwningPod} {n joins}
      (h : Owners.Step localRuntimeId s.joins (.release n) joins) :
      Step s (.release n) ⟨joins, s.pod⟩
  | letGo {s : OwningPod} {i joins} (h : Owners.Step localRuntimeId s.joins (.letGo i) joins) :
      Step s (.letGo i) ⟨joins, s.pod⟩
  | remote {s : OwningPod} {e pod} (he : e.ofStream key)
      (hfresh : ∀ peerId, e.registers = some peerId → s.pod.Fresh peerId)
      (hpod : s.pod.step e = some pod) : Step s (.remote e) ⟨s.joins, pod⟩

/-- A connection has left the room and has not finished, or has emptied it and has not released. -/
def Leaver (s : OwningPod) (n : ℕ) : Prop :=
  s.pod.Leaving n ∨ ∃ key generation, s.joins.handlers n = .leaving key generation

/-- The entry of the huddle's session. -/
def entry (s : OwningPod) : Option HuddleOwnerEntry := s.joins.owners.entries.lookup key.2

/-- Nobody else will release the lease: no peer is left, and no other connection is on its way
out. -/
def Last (s : OwningPod) (n : ℕ) : Prop := ¬s.pod.Occupied ∧ ∀ m, m ≠ n → ¬s.Leaver m

/-- While the session has an entry, no control stream takes the last peer out, unless a connection
is on its way out; and the last connection to finish can remove the room, and has the generation of
the entry. -/
def Careful (s : OwningPod) : Action → Prop
  | .finish n archived => s.entry key ≠ none → s.Last n →
    ∃ i shouldAutoEnd, s.pod.connections.lookup n = some (.leaving key i shouldAutoEnd) ∧
      (!shouldAutoEnd || archived) = true ∧ s.pod.empties key = true
  | .release n => ∀ e, s.entry key = some e → s.Last n →
    s.joins.handlers n = .leaving key e.generation
  | .remote e => s.entry key ≠ none → (∀ n, ¬s.Leaver n) →
    ∃ i peerId, s.pod.Has i peerId ∧ s.pod.removes e ≠ some (i, peerId)
  | _ => True

/-- No join or leave is in progress: every connection is gone or in its room. -/
def AtRest (s : OwningPod) : Prop :=
  ∀ n, (s.joins.handlers n = .idle ∧ s.pod.connections.lookup n = none) ∨
    ∃ generation ownerLost i peerId, s.joins.handlers n = .joined key generation ownerLost ∧
      s.pod.connections.lookup n = some (.admitted key i peerId false)

end OwningPod

/-! ### One lease -/

/-- The huddle that a connection is about. -/
def Handler.key : Handler → Option RoomKey
  | .idle => none
  | .resolving key _ | .unowned key _ | .owned key _ _ | .resolved key _ _ | .inserting key _
  | .joined key _ _ | .leaving key _ => some key

theorem Handler.key_of_lease {handler : Handler} {lease : HuddleLease}
    (h : handler.lease = some lease) : handler.key = some lease.key := by
  cases handler with
  | resolved key generation acquired =>
    cases acquired with
    | true => exact Option.some.inj h ▸ rfl
    | false => cases h
  | inserting => exact Option.some.inj h ▸ rfl
  | idle | resolving | unowned | owned | joined | leaving => cases h

variable {localRuntimeId : RuntimeId} {key : RoomKey}

variable (localRuntimeId key) in
/-- The one lease of the huddle is held by a connection, or by the renewer of the entry. All other
renewers were told to release theirs. -/
structure Exclusive (s : Joins) : Prop where
  keys : ∀ n key', (s.handlers n).key = some key' → key' = key
  entry : ∀ e, s.owners.entries.lookup key.2 = some e →
    ∃ r, s.owners.renewers[e.renewer]? = some r ∧ r.lease = ⟨key, e.generation⟩ ∧
      r.cancel = false ∧ s.directory.ownerOf key = some ⟨localRuntimeId, e.generation⟩
  told : ∀ (i : ℕ) (r : Renewer), s.owners.renewers[i]? = some r → r.cancel = false →
    ∃ e, s.owners.entries.lookup key.2 = some e ∧ e.renewer = i
  lost : ∀ (i : ℕ) (r : Renewer), s.owners.renewers[i]? = some r → r.lost = true → r.cancel = true
  held : ∀ n lease, (s.handlers n).lease = some lease →
    s.directory.ownerOf key = some ⟨localRuntimeId, lease.generation⟩
  nodup : s.owners.leases.Nodup

/-- The steps of the huddle on a pod that keeps its lease. -/
def Label.Quiet (key : RoomKey) : Label → Prop
  | .start _ key' => key' = key
  | .lose _ | .directory => False
  | _ => True

namespace Exclusive

variable {s s' : Joins}

theorem new (generations : HashMap RoomKey ℕ) :
    Exclusive localRuntimeId key (.new ⟨∅, generations⟩) :=
  ⟨nofun, nofun, nofun, nofun, nofun, List.nodup_nil⟩

/-- A connection moves on, for the same huddle and with the same lease. -/
theorem set (h : Exclusive localRuntimeId key s) {n : ℕ} {handler : Handler}
    (hkey : ∀ key', handler.key = some key' → (s.handlers n).key = some key' ∨ key' = key)
    (hlease : ∀ lease, handler.lease = some lease → (s.handlers n).lease = some lease) :
    Exclusive localRuntimeId key (s.set n handler) := by
  refine ⟨fun m key' hm => ?_, h.entry, h.told, h.lost, fun m lease hm => ?_, h.nodup⟩
  · simp only [Joins.set, Function.update_apply] at hm
    split_ifs at hm
    · exact (hkey key' hm).elim (h.keys n key') id
    · exact h.keys m key' hm
  · simp only [Joins.set, Function.update_apply] at hm
    split_ifs at hm
    · exact h.held n lease (hlease lease hm)
    · exact h.held m lease hm

/-- While a connection holds the lease, the session has no entry. -/
theorem entry_eq_none (h : Exclusive localRuntimeId key s) (hinv : Inv s) {n : ℕ}
    {lease : HuddleLease} (hn : (s.handlers n).lease = some lease) :
    s.owners.entries.lookup key.2 = none := by
  rw [Option.eq_none_iff_forall_ne_some]
  intro e he
  obtain ⟨r, hr, hrlease, -, hlive⟩ := h.entry e he
  have hgeneration : e.generation = lease.generation :=
    congrArg Ownership.generation (Option.some.inj (hlive.symm.trans (h.held n lease hn)))
  have hkey : lease.key = key := h.keys n lease.key (Handler.key_of_lease hn)
  have hsame : r.lease = lease := by
    rw [hrlease, hgeneration, ← hkey]
  refine hinv.apart n lease hn ?_
  rw [← hsame]
  exact List.mem_map_of_mem (List.mem_of_getElem? hr)

/-- The lease is granted where nobody holds it. -/
theorem acquired (h : Exclusive localRuntimeId key s) {n : ℕ} {generation : ℕ}
    (hnone : s.directory.ownerOf key = none)
    (hgeneration : generation = s.directory.lastGeneration key + 1) :
    Exclusive localRuntimeId key ({ s with directory := s.directory.grant key localRuntimeId }.set n
      (.resolved key generation true)) := by
  refine ⟨fun m key' hm => ?_, fun e he => ?_, h.told, h.lost, fun m lease hm => ?_, h.nodup⟩
  · simp only [Joins.set, Function.update_apply] at hm
    split_ifs at hm
    · exact (Option.some.inj hm).symm
    · exact h.keys m key' hm
  · obtain ⟨r, -, -, -, hlive⟩ := h.entry e he
    cases hnone.symm.trans hlive
  · simp only [Joins.set, Function.update_apply] at hm
    split_ifs at hm
    · obtain rfl := Option.some.inj hm
      rw [hgeneration]
      exact (HashMap.lookup_insert_eq ..).trans (if_pos rfl)
    · cases hnone.symm.trans (h.held m lease hm)

/-- The renewer of the lease is installed. -/
theorem insert (h : Exclusive localRuntimeId key s) (hinv : Inv s) {n generation : ℕ}
    {ownerLost : Option Signal} (hn : s.handlers n = .inserting key generation) :
    Exclusive localRuntimeId key
      ({ s with owners := (s.owners.install key.2 ⟨key, generation⟩).2 }.set n
        (.joined key generation ownerLost)) := by
  have hlease : (s.handlers n).lease = some ⟨key, generation⟩ := by
    rw [hn]
    rfl
  have hnone := h.entry_eq_none hinv hlease
  have hentry : (s.owners.install key.2 ⟨key, generation⟩).2.entries.lookup key.2 =
      some ⟨s.owners.renewers.length, generation⟩ :=
    (HashMap.lookup_insert_eq ..).trans (if_pos rfl)
  refine ⟨fun m key' hm => ?_, fun e he => ?_, fun i r hi hcancel => ?_, fun i r hi hlost => ?_,
    fun m lease hm => ?_, ?_⟩
  · simp only [Joins.set, Function.update_apply] at hm
    split_ifs at hm
    · exact (Option.some.inj hm).symm
    · exact h.keys m key' hm
  · obtain rfl := Option.some.inj (hentry.symm.trans he)
    exact ⟨_, List.getElem?_concat_length, rfl, rfl, h.held n _ hlease⟩
  · rcases s.owners.renewer_of_spawn hi with hi | ⟨rfl, -⟩
    · -- A renewer that nobody has told to stop would have an entry.
      obtain ⟨e, he, -⟩ := h.told i r hi hcancel
      cases hnone.symm.trans he
    · exact ⟨_, hentry, rfl⟩
  · rcases s.owners.renewer_of_spawn hi with hi | ⟨-, rfl⟩
    · exact h.lost i r hi hlost
    · cases hlost
  · simp only [Joins.set, Function.update_apply] at hm
    split_ifs at hm
    · cases hm
    · exact h.held m lease hm
  · refine (s.owners.leases_install key.2 ⟨key, generation⟩).symm ▸ ?_
    exact List.nodup_append_comm.mp (List.nodup_cons.mpr ⟨hinv.apart n _ hlease, h.nodup⟩)

/-- The entry goes, and its renewer is told. -/
theorem release (h : Exclusive localRuntimeId key s) (generation : ℕ) (handlers : ℕ → Handler)
    (hkeys : ∀ n key', (handlers n).key = some key' → key' = key)
    (hlease : ∀ n lease, (handlers n).lease = some lease → (s.handlers n).lease = some lease) :
    Exclusive localRuntimeId key
      ⟨s.directory, s.owners.release key.2 generation, handlers⟩ := by
  have hheld : ∀ n lease, (handlers n).lease = some lease →
      s.directory.ownerOf key = some ⟨localRuntimeId, lease.generation⟩ :=
    fun n lease hn => h.held n lease (hlease n lease hn)
  rw [HuddleOwnerRegistry.release]
  split
  · exact ⟨hkeys, h.entry, h.told, h.lost, hheld, h.nodup⟩
  next e he =>
    split_ifs with hgeneration
    · have hleases := s.owners.leases_modifyRenewer e.renewer
        (f := fun r => { r with cancel := true }) fun _ => rfl
      refine ⟨hkeys, fun e' he' => ?_, fun i r hi hcancel => ?_, fun i r hi hlost => ?_, hheld,
        hleases ▸ h.nodup⟩
      · rw [HashMap.lookup_erase_eq, if_pos rfl] at he'
        cases he'
      · rw [HuddleOwnerRegistry.getElem?_modifyRenewer] at hi
        split_ifs at hi with hie
        · obtain ⟨r', -, rfl⟩ := Option.map_eq_some_iff.mp hi
          cases hcancel
        · obtain ⟨e', he', rfl⟩ := h.told i r hi hcancel
          obtain rfl := Option.some.inj (he.symm.trans he')
          exact absurd rfl hie
      · rw [HuddleOwnerRegistry.getElem?_modifyRenewer] at hi
        split_ifs at hi
        · obtain ⟨r', -, rfl⟩ := Option.map_eq_some_iff.mp hi
          rfl
        · exact h.lost i r hi hlost
    · exact ⟨hkeys, h.entry, h.told, h.lost, hheld, h.nodup⟩

/-- A renewer that was told to stop gives back another lease than the one that is held. -/
theorem ownerOf_release (h : Exclusive localRuntimeId key s) (hinv : Inv s) {i : ℕ} {r : Renewer}
    (hi : s.owners.renewers[i]? = some r) (hcancel : r.cancel = true) {generation : ℕ}
    (hheld : (∃ n lease, (s.handlers n).lease = some lease ∧ lease.generation = generation) ∨
      ∃ e, s.owners.entries.lookup key.2 = some e ∧ e.generation = generation)
    (hlive : s.directory.ownerOf key = some ⟨localRuntimeId, generation⟩) :
    (s.directory.release r.lease localRuntimeId).2.ownerOf key =
      some ⟨localRuntimeId, generation⟩ := by
  have hmem : r.lease ∈ s.owners.leases := List.mem_map_of_mem (List.mem_of_getElem? hi)
  rw [Directory.release]
  split_ifs with howner
  · rw [Directory.ownerOf, Directory.drop, HashMap.lookup_erase_eq, if_neg]
    · exact hlive
    rintro rfl
    have hgeneration : generation = r.lease.generation :=
      congrArg Ownership.generation (Option.some.inj (hlive.symm.trans howner))
    rcases hheld with ⟨n, lease, hn, rfl⟩ | ⟨e, he, rfl⟩
    · have hkey := h.keys n lease.key (Handler.key_of_lease hn)
      have hsame : lease = r.lease := by
        cases lease
        cases hkey
        cases hgeneration
        rfl
      exact hinv.apart n lease hn (hsame ▸ hmem)
    · obtain ⟨r', hr', hlease, hcancel', -⟩ := h.entry e he
      have hsame : r'.lease = r.lease := by
        rw [hlease, hgeneration]
      have hleases : ∀ j, s.owners.leases[j]? = s.owners.renewers[j]?.map Renewer.lease :=
        fun j => List.getElem?_map ..
      obtain ⟨hlt, -⟩ := List.getElem?_eq_some_iff.mp hr'
      have hindex : e.renewer = i := by
        refine (List.getElem?_inj ?_ h.nodup).mp ?_
        · rwa [HuddleOwnerRegistry.leases, List.length_map]
        · rw [hleases, hleases, hr', hi, Option.map_some, Option.map_some, hsame]
      rw [hindex, hi] at hr'
      obtain rfl := Option.some.inj hr'
      cases hcancel.symm.trans hcancel'
  · exact hlive

/-- A renewer that was told to stop goes. -/
theorem letGo (h : Exclusive localRuntimeId key s) {i : ℕ} {r : Renewer}
    (hi : s.owners.renewers[i]? = some r) (hcancel : r.cancel = true) {directory : Directory}
    {f : Renewer → Renewer} (hf : ∀ r, (f r).lease = r.lease ∧ (f r).cancel = r.cancel)
    (hheld : ∀ generation, s.directory.ownerOf key = some ⟨localRuntimeId, generation⟩ →
      ((∃ n lease, (s.handlers n).lease = some lease ∧ lease.generation = generation) ∨
        ∃ e, s.owners.entries.lookup key.2 = some e ∧ e.generation = generation) →
      directory.ownerOf key = some ⟨localRuntimeId, generation⟩) :
    Exclusive localRuntimeId key ⟨directory, s.owners.modifyRenewer i f, s.handlers⟩ := by
  have hrenewer : ∀ j r', (s.owners.modifyRenewer i f).renewers[j]? = some r' →
      ∃ r, s.owners.renewers[j]? = some r ∧ r'.cancel = r.cancel ∧ (i ≠ j → r' = r) := by
    intro j r' hj
    rw [HuddleOwnerRegistry.getElem?_modifyRenewer] at hj
    split_ifs at hj with hij
    · obtain ⟨r, hr, rfl⟩ := Option.map_eq_some_iff.mp hj
      exact ⟨r, hr, (hf r).2, fun hne => absurd hij hne⟩
    · exact ⟨r', hj, rfl, fun _ => rfl⟩
  refine ⟨h.keys, fun e he => ?_, fun j r' hj hcancel' => ?_, fun j r' hj hlost => ?_,
    fun n lease hn => hheld _ (h.held n lease hn) (.inl ⟨n, lease, hn, rfl⟩), ?_⟩
  · obtain ⟨r', hr', hlease, hcancel', hlive⟩ := h.entry e he
    have hne : i ≠ e.renewer := by
      rintro rfl
      obtain rfl := Option.some.inj (hi.symm.trans hr')
      exact absurd (hcancel.symm.trans hcancel') nofun
    refine ⟨r', ?_, hlease, hcancel', hheld _ hlive (.inr ⟨e, he, rfl⟩)⟩
    rw [HuddleOwnerRegistry.getElem?_modifyRenewer, if_neg hne, hr']
  · obtain ⟨r, hr, hsame, -⟩ := hrenewer j r' hj
    exact h.told j r hr (hsame ▸ hcancel')
  · obtain ⟨r'', hr'', hsame, hother⟩ := hrenewer j r' hj
    by_cases hij : i = j
    · subst hij
      obtain rfl := Option.some.inj (hi.symm.trans hr'')
      exact hsame.trans hcancel
    · obtain rfl := hother hij
      exact h.lost j _ hr'' hlost
  · exact (s.owners.leases_modifyRenewer i fun r => (hf r).1).symm ▸ h.nodup

/-- A step of the huddle keeps its lease exclusive. -/
theorem step (h : Exclusive localRuntimeId key s) (hinv : Inv s) {label : Label}
    (hstep : Step localRuntimeId s label s') (hquiet : label.Quiet key) :
    Exclusive localRuntimeId key s' := by
  have hmove : ∀ {n : ℕ} {handler old : Handler}, s.handlers n = old → handler.key = old.key →
      handler.lease = none → Exclusive localRuntimeId key (s.set n handler) := by
    intro n handler old hn hkey hlease
    refine h.set (fun key' hkey' => .inl ?_) fun lease hlease' => ?_
    · rw [hn, ← hkey, hkey']
    · cases hlease.symm.trans hlease'
  have hgone : ∀ n, Exclusive localRuntimeId key (s.set n .idle) := fun n =>
    h.set (by rintro _ ⟨⟩) (by rintro _ ⟨⟩)
  cases hstep with
  | start n key' hn =>
    refine h.set (fun key'' hkey => .inr ?_) (by rintro _ ⟨⟩)
    exact (Option.some.inj hkey).symm.trans hquiet
  | ownedHere hn | unowned hn | heldHere hn | ready hn | reuse hn => exact hmove hn rfl rfl
  | ownedElsewhere | heldElsewhere | giveUp => exact hgone _
  | acquired hn hacquire =>
    rw [Directory.acquire] at hacquire
    split at hacquire
    · cases hacquire
    next hnone =>
      cases hacquire
      obtain rfl := h.keys _ _ (congrArg Handler.key hn)
      exact h.acquired hnone rfl
  | notReady hn =>
    split_ifs
    · exact hmove hn rfl rfl
    · exact hgone _
  | lookup hn =>
    refine h.set (fun key' hkey => .inl ?_) fun lease hlease => ?_
    · rw [hn]
      exact hkey
    · rw [hn]
      exact hlease
  | attachExisting hn hentry =>
    obtain rfl := h.keys _ _ (congrArg Handler.key hn)
    cases (h.entry_eq_none hinv (congrArg Handler.lease hn)).symm.trans hentry
  | insert hn =>
    obtain rfl := h.keys _ _ (congrArg Handler.key hn)
    exact h.insert hinv hn
  | leave hn =>
    split_ifs
    · exact hmove hn rfl rfl
    · exact hgone _
  | release hn =>
    obtain rfl := h.keys _ _ (congrArg Handler.key hn)
    refine h.release _ _ (fun m key' hm => ?_) fun m lease hm => ?_
    · simp only [Function.update_apply] at hm
      split_ifs at hm
      · cases hm
      · exact h.keys m key' hm
    · simp only [Function.update_apply] at hm
      split_ifs at hm
      · cases hm
      · exact hm
  | lose | expire | takeOver => exact hquiet.elim
  | @letGo i r hi hended htold =>
    have hcancel := htold.elim id (h.lost i r hi)
    exact h.letGo hi hcancel (fun _ => ⟨rfl, rfl⟩) fun generation hlive hheld =>
      h.ownerOf_release hinv hi hcancel hheld hlive
  | @letGoFailed i r hi hended htold =>
    exact h.letGo hi (htold.elim id (h.lost i r hi)) (fun _ => ⟨rfl, rfl⟩) fun _ hlive _ => hlive

end Exclusive

/-- A connection releases in a step of its own. -/
theorem Step.leaving {s s' : Joins} {label : Label} (hstep : Step localRuntimeId s label s') {m : ℕ}
    {key' : RoomKey} {generation : ℕ} (hm : s.handlers m = .leaving key' generation)
    (hne : label ≠ .release m) : s'.handlers m = .leaving key' generation := by
  have hset : ∀ {n : ℕ} {handler : Handler}, n ≠ m →
      Function.update s.handlers n handler m = .leaving key' generation := by
    intro n handler hnm
    rw [Function.update_of_ne hnm.symm]
    exact hm
  cases hstep with
  | lose | letGo | letGoFailed | expire | takeOver => exact hm
  | release hn => exact hset fun hnm => hne (congrArg Label.release hnm)
  | giveUp hn =>
    refine hset ?_
    rintro rfl
    rw [hm] at hn
    cases hn
  | start _ _ hn | ownedHere hn | ownedElsewhere hn | unowned hn | acquired hn | heldHere hn
  | heldElsewhere hn | ready hn | notReady hn | lookup hn | attachExisting hn | insert hn
  | reuse hn | leave hn =>
    refine hset ?_
    rintro rfl
    exact absurd (hm.symm.trans hn) nofun

/-- Entries come when a lease is attached, and go when one is released. -/
theorem Step.entries_eq {s s' : Joins} {label : Label} (hstep : Step localRuntimeId s label s')
    (hattach : ∀ n, label ≠ .attach n) (hrelease : ∀ n, label ≠ .release n) :
    s'.owners.entries = s.owners.entries := by
  cases hstep with
  | attachExisting | insert | reuse => exact absurd rfl (hattach _)
  | release => exact absurd rfl (hrelease _)
  | _ => rfl

/-! ### A lease is held for somebody -/

namespace OwningPod

variable {s s' : OwningPod}

variable (key) in
/-- While the session has an entry, a peer is in a room or a connection is on its way out. -/
def Kept (s : OwningPod) : Prop := s.entry key = none ∨ s.pod.Occupied ∨ ∃ n, s.Leaver n

theorem Kept.join (h : s.Kept key) {label : Label} {joins : Joins}
    (hstep : Owners.Step localRuntimeId s.joins label joins) (hattach : ∀ n, label ≠ .attach n)
    (hrelease : ∀ n, label ≠ .release n) : Kept key ⟨joins, s.pod⟩ := by
  refine h.imp (fun hnone => ?_) (Or.imp_right ?_)
  · rw [entry, hstep.entries_eq hattach hrelease]
    exact hnone
  · rintro ⟨n, hn⟩
    refine ⟨n, hn.imp_right ?_⟩
    rintro ⟨key', generation, hleaving⟩
    exact ⟨key', generation, hstep.leaving hleaving (hrelease n)⟩

/-- An event that takes nobody out. -/
theorem Kept.enter (h : s.Kept key) {e : Event} {pod : Pod} (hpod : s.pod.step e = some pod)
    (hremoves : s.pod.removes e = none) (hfinish : ∀ n archived, e ≠ .finish n archived) :
    Kept key ⟨s.joins, pod⟩ := by
  have heffect := Pod.effect_of_step hpod
  refine h.imp_right (Or.imp ?_ ?_)
  · rintro ⟨i, peerId, hhas⟩
    exact ⟨i, peerId, heffect.has i peerId hhas (hremoves ▸ nofun)⟩
  · rintro ⟨n, hn⟩
    exact ⟨n, hn.imp_left fun hleaving => heffect.leaving n hleaving (hfinish n)⟩

/-- The last connection to finish removes the room and goes on to release. -/
theorem Kept.finish (h : s.Kept key) {n i : ℕ} {shouldAutoEnd archived : Bool} {joins : Joins}
    {pod : Pod} (hn : s.pod.connections.lookup n = some (.leaving key i shouldAutoEnd))
    (hjoin : Owners.Step localRuntimeId s.joins
      (.leave n ((!shouldAutoEnd || archived) && s.pod.empties key)) joins)
    (hpod : s.pod.step (.finish n archived) = some pod)
    (hcareful : s.Careful key (.finish n archived)) : Kept key ⟨joins, pod⟩ := by
  have heffect := Pod.effect_of_step hpod
  have hentry : entry key ⟨joins, pod⟩ = s.entry key :=
    congrArg (·.lookup key.2) (hjoin.entries_eq nofun nofun)
  rcases h with hnone | ⟨i, peerId, hhas⟩ | -
  · exact .inl (hentry.trans hnone)
  · exact .inr (.inl ⟨i, peerId, heffect.has i peerId hhas nofun⟩)
  by_cases hother : ∃ m, m ≠ n ∧ s.Leaver m
  · obtain ⟨m, hmn, hm⟩ := hother
    refine .inr (.inr ⟨m, hm.imp (fun hleaving => ?_) ?_⟩)
    · exact heffect.leaving m hleaving fun _ heq => hmn (Event.finish.inj heq).1.symm
    · rintro ⟨key', generation, hleaving⟩
      exact ⟨key', generation, hjoin.leaving hleaving nofun⟩
  by_cases hnone : s.entry key = none
  · exact .inl (hentry.trans hnone)
  by_cases hoccupied : s.pod.Occupied
  · obtain ⟨i, peerId, hhas⟩ := hoccupied
    exact .inr (.inl ⟨i, peerId, heffect.has i peerId hhas nofun⟩)
  -- Nobody else is there, so the connection empties the room.
  obtain ⟨j, shouldAutoEnd', hn', harchived, hempties⟩ := hcareful hnone
    ⟨hoccupied, fun m hmn hm => hother ⟨m, hmn, hm⟩⟩
  obtain ⟨-, -, rfl⟩ := Connection.leaving.inj (Option.some.inj (hn.symm.trans hn'))
  rw [harchived, hempties] at hjoin
  cases hjoin with
  | leave hjoined =>
    exact .inr (.inr ⟨n, .inr ⟨_, _, Function.update_self ..⟩⟩)

/-- The last connection to release has the generation of the entry. -/
theorem Kept.release (h : s.Kept key) (hexclusive : Exclusive localRuntimeId key s.joins) {n : ℕ}
    {joins : Joins} (hjoin : Owners.Step localRuntimeId s.joins (.release n) joins)
    (hcareful : s.Careful key (.release n)) : Kept key ⟨joins, s.pod⟩ := by
  have hleaving := fun m (hmn : m ≠ n) key' generation
      (hm : s.joins.handlers m = .leaving key' generation) =>
    hjoin.leaving hm fun heq => hmn (Label.release.inj heq).symm
  cases hjoin with
  | @release _ key' generation hn =>
    obtain rfl : key' = key := hexclusive.keys n key' (congrArg Handler.key hn)
    cases hentry : s.entry key' with
    | none =>
      refine .inl (Option.eq_none_iff_forall_ne_some.mpr fun e he => ?_)
      exact absurd (hentry.symm.trans (s.joins.owners.lookup_of_release he)) nofun
    | some e =>
      by_cases hother : ∃ m, m ≠ n ∧ s.Leaver m
      · obtain ⟨m, hmn, hm⟩ := hother
        refine .inr (.inr ⟨m, hm.imp_right ?_⟩)
        rintro ⟨key', generation', hm⟩
        exact ⟨key', generation', hleaving m hmn key' generation' hm⟩
      by_cases hoccupied : s.pod.Occupied
      · exact .inr (.inl hoccupied)
      have hgeneration := hcareful e hentry ⟨hoccupied, fun m hmn hm => hother ⟨m, hmn, hm⟩⟩
      obtain ⟨-, rfl⟩ := Handler.leaving.inj (hn.symm.trans hgeneration)
      refine .inl ((s.joins.owners.lookup_release _ _ _).trans ?_)
      rw [if_pos rfl]
      exact (congrArg (Option.filter _) hentry).trans (by simp [Option.filter_some])

/-- A control stream leaves somebody behind. -/
theorem kept_remote {e : Event} {pod : Pod} (he : e.ofStream key)
    (hpod : s.pod.step e = some pod) (hcareful : s.Careful key (.remote e)) :
    Kept key ⟨s.joins, pod⟩ := by
  have heffect := Pod.effect_of_step hpod
  have hfinish : ∀ n archived, e ≠ .finish n archived := by
    rintro n archived rfl
    exact he
  by_cases hleaver : ∃ n, s.Leaver n
  · obtain ⟨n, hn⟩ := hleaver
    exact .inr (.inr ⟨n, hn.imp_left fun hleaving => heffect.leaving n hleaving (hfinish n)⟩)
  by_cases hnone : s.entry key = none
  · exact .inl hnone
  · obtain ⟨i, peerId, hhas, hkept⟩ := hcareful hnone fun n hn => hleaver ⟨n, hn⟩
    exact .inr (.inl ⟨i, peerId, heffect.has i peerId hhas hkept⟩)

variable (localRuntimeId key) in
/-- The invariant of careful steps. -/
structure Inv (s : OwningPod) : Prop where
  joins : Owners.Inv s.joins
  exclusive : Exclusive localRuntimeId key s.joins
  present : s.pod.Present
  kept : s.Kept key

namespace Inv

theorem new (generations : HashMap RoomKey ℕ) : Inv localRuntimeId key (.new generations) :=
  ⟨.new _, .new generations, .new, .inl rfl⟩

theorem step (h : Inv localRuntimeId key s) {a : Action} (hstep : Step localRuntimeId key s a s')
    (hcareful : s.Careful key a) : Inv localRuntimeId key s' := by
  have hjoin : ∀ {label joins}, Owners.Step localRuntimeId s.joins label joins →
      label.Quiet key → Owners.Inv joins ∧ Exclusive localRuntimeId key joins :=
    fun hstep hquiet => ⟨h.joins.step hstep, h.exclusive.step h.joins hstep hquiet⟩
  have hpresent : ∀ {e pod}, s.pod.step e = some pod → e.admits = none → e.registers = none →
      pod.Present := fun hpod hadmits hregisters =>
    h.present.step hpod (fun _ _ hsome => nomatch hadmits.symm.trans hsome)
      fun _ hsome => nomatch hregisters.symm.trans hsome
  cases hstep with
  | start _ hstep =>
    exact ⟨(hjoin hstep rfl).1, (hjoin hstep rfl).2, h.present, h.kept.join hstep nofun nofun⟩
  | resolve hstep | giveUp _ hstep | lookup _ hstep | letGo hstep =>
    exact ⟨(hjoin hstep trivial).1, (hjoin hstep trivial).2, h.present,
      h.kept.join hstep nofun nofun⟩
  | getOrCreate _ hpod =>
    exact ⟨h.joins, h.exclusive, hpresent hpod rfl rfl, h.kept.enter hpod rfl nofun⟩
  | refused cleanup hstep hpod =>
    have hkept := h.kept.join hstep nofun nofun
    exact ⟨(hjoin hstep trivial).1, (hjoin hstep trivial).2, hpresent hpod rfl rfl,
      hkept.enter hpod rfl nofun⟩
  | addPeer hfresh hpod =>
    refine ⟨h.joins, h.exclusive, h.present.step hpod ?_ nofun, h.kept.enter hpod rfl nofun⟩
    rintro c peerId ⟨⟩
    exact hfresh
  | rejected hfresh hpod _ hstep =>
    have hkept := h.kept.join hstep nofun nofun
    refine ⟨(hjoin hstep trivial).1, (hjoin hstep trivial).2, h.present.step hpod ?_ nofun,
      hkept.enter hpod rfl nofun⟩
    rintro c peerId ⟨⟩
    exact hfresh
  | @attach n i peerId _ hn hstep =>
    exact ⟨(hjoin hstep trivial).1, (hjoin hstep trivial).2, h.present,
      .inr (.inl ⟨i, peerId, h.present.has _ _ _ _ _ hn⟩)⟩
  | leave _ hpod =>
    exact ⟨h.joins, h.exclusive, hpresent hpod rfl rfl,
      .inr (.inr ⟨_, .inl (Pod.effect_leave hpod).2⟩)⟩
  | finish archived hn hstep hpod =>
    exact ⟨(hjoin hstep trivial).1, (hjoin hstep trivial).2, hpresent hpod rfl rfl,
      h.kept.finish hn hstep hpod hcareful⟩
  | release hstep =>
    exact ⟨(hjoin hstep trivial).1, (hjoin hstep trivial).2, h.present,
      h.kept.release h.exclusive hstep hcareful⟩
  | remote he hfresh hpod =>
    refine ⟨h.joins, h.exclusive, h.present.step hpod ?_ hfresh, kept_remote he hpod hcareful⟩
    rintro c peerId hadmits
    cases ‹Event› with
    | addPeer => exact he.elim
    | _ => cases hadmits

end Inv

/-! ### Runs -/

variable (localRuntimeId key) in
/-- A step, whoever takes it. -/
def AnyStep (s s' : OwningPod) : Prop := ∃ a, Step localRuntimeId key s a s'

variable (localRuntimeId key) in
/-- A step after which somebody is left to release the lease. -/
def CarefulStep (s s' : OwningPod) : Prop :=
  ∃ a, Step localRuntimeId key s a s' ∧ s.Careful key a

theorem CarefulStep.anyStep (h : CarefulStep localRuntimeId key s s') :
    AnyStep localRuntimeId key s s' :=
  h.imp fun _ hstep => hstep.1

theorem Inv.run {generations : HashMap RoomKey ℕ}
    (hrun : ReflTransGen (CarefulStep localRuntimeId key) (.new generations) s) :
    Inv localRuntimeId key s := by
  induction hrun with
  | refl => exact .new generations
  | tail _ hstep ih =>
    obtain ⟨a, hstep, hcareful⟩ := hstep
    exact ih.step hstep hcareful

end OwningPod

/-- In every run of careful steps: when the rooms of the huddle are empty and no join or leave is in
progress, the session has no entry, and all renewers were told to release their leases. -/
theorem empty_releases (localRuntimeId : RuntimeId) (key : RoomKey)
    (generations : HashMap RoomKey ℕ) (s : OwningPod)
    (hrun : ReflTransGen (OwningPod.CarefulStep localRuntimeId key) (.new generations) s)
    (hempty : ¬s.pod.Occupied) (hrest : s.AtRest key) :
    s.entry key = none ∧ ∀ r ∈ s.joins.owners.renewers, r.cancel = true := by
  have hinv := OwningPod.Inv.run hrun
  have hentry : s.entry key = none := by
    refine hinv.kept.resolve_right ?_
    rintro (hoccupied | ⟨n, hn⟩)
    · exact hempty hoccupied
    rcases hrest n with ⟨hidle, hnone⟩ | ⟨_, _, _, _, hjoined, hadmitted⟩
    · rcases hn with ⟨_, _, _, hleaving⟩ | ⟨_, _, hleaving⟩
      · exact absurd (hnone.symm.trans hleaving) nofun
      · exact absurd (hidle.symm.trans hleaving) nofun
    · rcases hn with ⟨_, _, _, hleaving⟩ | ⟨_, _, hleaving⟩
      · exact absurd (hadmitted.symm.trans hleaving) nofun
      · exact absurd (hjoined.symm.trans hleaving) nofun
  refine ⟨hentry, fun r hr => ?_⟩
  by_contra hcancel
  obtain ⟨i, hi⟩ := List.getElem?_of_mem hr
  obtain ⟨e, he, -⟩ := hinv.exclusive.told i r hi (Bool.eq_false_iff.mpr hcancel)
  exact absurd (hentry.symm.trans he) nofun

/-- The room of a connection that is alone in the huddle. -/
def aloneRoom : Room := (Room.new.addPeer 20 ['a'] 1).2

/-- A connection is alone in the huddle, and its lease is renewed. -/
def alone : OwningPod where
  joins :=
    ⟨(Directory.mk ∅ ∅).grant (10, 11) 1, (HuddleOwnerRegistry.new.install 11 ⟨(10, 11), 1⟩).2,
      fun n => if n = 0 then .joined (10, 11) 1 (some ⟨0, false⟩) else .idle⟩
  pod :=
    { Pod.new with
      rooms := (∅ : HashMap RoomKey ℕ).insert (10, 11) 0
      instances := [⟨(10, 11), aloneRoom⟩]
      connections := (∅ : HashMap ℕ Connection).insert 0 (.admitted (10, 11) 0 20 false) }

/-- The pod when the connection has its room. -/
def enteringPod : Pod :=
  (Pod.new.getOrCreate (10, 11)).2.setConnection 0 (.joining (10, 11) 0)

theorem step_entering : enteringPod.step (.addPeer 0 20 ['a'] 1 none) = some alone.pod := rfl

theorem fresh_entering (peerId : Uuid) : enteringPod.Fresh peerId :=
  (Pod.fresh_new peerId).step (e := .getOrCreate 0 (10, 11)) rfl nofun nofun

/-- A connection joins the huddle and acquires its lease. -/
theorem run_alone : ReflTransGen (OwningPod.CarefulStep 1 (10, 11)) (.new ∅) alone := by
  have hresolved : ReflTransGen (OwningPod.CarefulStep 1 (10, 11)) (.new ∅) _ :=
    .tail (.tail (.single ⟨_, .start rfl (.start 0 (10, 11) rfl), trivial⟩)
      ⟨_, .resolve (.unowned (n := 0) rfl rfl), trivial⟩)
      ⟨_, .resolve (.acquired (n := 0) rfl rfl), trivial⟩
  have hget : Pod.new.step (.getOrCreate 0 (10, 11)) = some enteringPod := rfl
  have hentered := hresolved.tail ⟨_, .getOrCreate (n := 0) rfl hget, trivial⟩
    |>.tail ⟨_, .addPeer (fresh_entering 20) step_entering rfl, trivial⟩
  have hjoined := hentered.tail ⟨_, .lookup (n := 0) rfl (.lookup rfl rfl), trivial⟩
    |>.tail ⟨_, .attach (n := 0) rfl (.insert rfl), trivial⟩
  have hhandlers : ∀ handlers : ℕ → Handler, handlers = alone.joins.handlers →
      (⟨⟨alone.joins.directory, alone.joins.owners, handlers⟩, alone.pod⟩ : OwningPod) = alone := by
    rintro _ rfl
    rfl
  refine (hhandlers _ (funext fun n => ?_)) ▸ hjoined
  cases n with
  | zero => rfl
  | succ n => rfl

/-- It leaves, removes the room and releases the lease. -/
theorem empty_releases_alone : ∃ s : OwningPod, s.joins.owners.renewers.length = 1 ∧
    s.entry (10, 11) = none ∧ ∀ r ∈ s.joins.owners.renewers, r.cancel = true := by
  have hleave : alone.pod.step (.leave 0) = some _ := rfl
  have hleft := run_alone.tail ⟨_, .leave rfl hleave, trivial⟩
  have hfinished := hleft.tail ⟨_, .finish true (n := 0) rfl (.leave rfl true) rfl,
    fun _ _ => ⟨0, true, rfl, rfl, rfl⟩⟩
  have hreleased := hfinished.tail ⟨_, .release (n := 0) (.release rfl),
    fun e he _ => by cases he; rfl⟩
  refine ⟨_, rfl, empty_releases 1 (10, 11) ∅ _ hreleased ?_ fun n => .inl ?_⟩
  · refine Pod.not_occupied fun inst hinst => ?_
    cases List.mem_singleton.mp hinst
    rfl
  · cases n with
    | zero => exact ⟨rfl, rfl⟩
    | succ n => exact ⟨rfl, rfl⟩

/-- A peer of another pod is registered, the connection leaves, and the peer is unregistered. The
room is empty and nobody is there to release the lease. -/
theorem empty_keeps : ∃ s : OwningPod,
    ReflTransGen (OwningPod.AnyStep 1 (10, 11)) (.new ∅) s ∧
    ¬s.pod.Occupied ∧ s.AtRest (10, 11) ∧ s.entry (10, 11) = some ⟨0, 1⟩ ∧
    ∃ r ∈ s.joins.owners.renewers, r.cancel = false := by
  have halone := run_alone.lift id fun _ _ => OwningPod.CarefulStep.anyStep
  have hregister : alone.pod.step (.register 0 (10, 11) ['b'] 1) = some _ := rfl
  have hne : (20 : Uuid) ≠ 21 := by decide
  have hadmits : ∀ c, (Event.addPeer 0 20 ['a'] 1 none).admits ≠ some (c, 21) := fun c h =>
    hne (congrArg Prod.snd (Option.some.inj h))
  have hfresh := (fresh_entering 21).step step_entering hadmits nofun
    |>.step hregister nofun nofun
  have hregisters : ∀ peerId, (Event.validated 0 .ok 21).registers = some peerId →
      Pod.Fresh _ peerId := fun peerId h => Option.some.inj h ▸ hfresh
  have hregistered := halone.tail
    ⟨_, .remote (e := .register 0 (10, 11) ['b'] 1) rfl nofun hregister⟩
    |>.tail ⟨_, .remote (e := .validated 0 .ok 21) trivial hregisters rfl⟩
  have hleft := hregistered.tail ⟨_, .leave (n := 0) rfl rfl⟩
    |>.tail ⟨_, .finish false (n := 0) rfl (.leave rfl false) rfl⟩
  refine ⟨_, hleft.tail ⟨_, .remote (e := .unregister 0 ['b']) trivial nofun rfl⟩, ?_, ?_, rfl, ?_⟩
  · refine Pod.not_occupied fun inst hinst => ?_
    cases List.mem_singleton.mp hinst
    rfl
  · intro n
    cases n with
    | zero => exact .inl ⟨rfl, rfl⟩
    | succ n => exact .inl ⟨rfl, rfl⟩
  · exact ⟨_, List.mem_cons_self, rfl⟩

end Buzz.Relay.Audio.Owners
