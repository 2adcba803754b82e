import Buzz.Relay.Audio.Huddle
import Buzz.Relay.Tunnel.Directory

/-!
# The owner registry of a pod

A huddle that spans pods is owned by one of them, which holds its lease in a directory. For each
lease that the pod acquires one task renews it, and `HuddleOwnerRegistry` of
`crates/buzz-relay/src/audio/join.rs` keeps the task's tokens: the one that it cancels when the
lease is lost, and the one that tells it to release the lease. Tokens are named by the position of
their task. The registry is keyed by the session alone, while rooms and leases are keyed by the
community too.

The directory is taken as its trait describes it, every call one step: a lease is granted when
there is none, at the next generation of the huddle. Draining is left out.

## Main definitions

* `Ownership`, `Directory`, `HuddleLease`, `AcquireOutcome`.
* `Renewer`, `HuddleOwnerEntry`, `HuddleOwnerRegistry`.
* `HuddleOwnerRegistry.lostFor`, `attachExisting`, `install`, `release`.

## Main results

* `HuddleOwnerRegistry.leases_release`, `lookup_release`: what a release does.
-/

namespace Buzz.Relay.Audio.Owners

open Buzz.Core Buzz.Library Buzz.Relay.Tunnel

/-! ### The directory -/

/-- A resolved ownership snapshot: which pod owns a huddle, at what generation. -/
structure Ownership where
  ownerRuntimeId : RuntimeId
  generation : ℕ
  deriving DecidableEq

/-- A lease that this pod was granted. -/
structure HuddleLease where
  key : RoomKey
  generation : ℕ
  deriving DecidableEq

/-- Result of an ownership acquire attempt. -/
inductive AcquireOutcome
  | acquired (lease : HuddleLease)
  | held (ownership : Ownership)

/-- The live lease of each huddle, and the generation that it was last granted at. -/
structure Directory where
  live : HashMap RoomKey Ownership
  generations : HashMap RoomKey ℕ

namespace Directory

/-- Look up the live owner and generation of a huddle. -/
def ownerOf (d : Directory) (key : RoomKey) : Option Ownership := d.live.lookup key

def lastGeneration (d : Directory) (key : RoomKey) : ℕ := (d.generations.lookup key).getD 0

/-- Grant the next generation of a huddle. -/
def grant (d : Directory) (key : RoomKey) (owner : RuntimeId) : Directory where
  live := d.live.insert key ⟨owner, d.lastGeneration key + 1⟩
  generations := d.generations.insert key (d.lastGeneration key + 1)

/-- Acquire ownership of a huddle if it is unowned. -/
def acquire (d : Directory) (key : RoomKey) (owner : RuntimeId) : AcquireOutcome × Directory :=
  match d.ownerOf key with
  | some ownership => (.held ownership, d)
  | none => (.acquired ⟨key, d.lastGeneration key + 1⟩, d.grant key owner)

/-- The lease of a huddle goes: it is released, or its time has come. -/
def drop (d : Directory) (key : RoomKey) : Directory := { d with live := d.live.erase key }

/-- Release an owned lease; whether it was still the live one. -/
def release (d : Directory) (lease : HuddleLease) (owner : RuntimeId) : Bool × Directory :=
  if d.ownerOf lease.key = some ⟨owner, lease.generation⟩ then (true, d.drop lease.key)
  else (false, d)

theorem lastGeneration_grant (d : Directory) (key key' : RoomKey) (owner : RuntimeId) :
    (d.grant key owner).lastGeneration key' =
      if key' = key then d.lastGeneration key + 1 else d.lastGeneration key' := by
  simp only [lastGeneration, grant, HashMap.lookup_insert_eq]
  split_ifs
  · rfl
  · rfl

theorem lastGeneration_le_grant (d : Directory) (key key' : RoomKey) (owner : RuntimeId) :
    d.lastGeneration key' ≤ (d.grant key owner).lastGeneration key' := by
  rw [lastGeneration_grant]
  split_ifs with h
  · subst h
    exact Nat.le_succ _
  · exact le_rfl

@[simp] theorem lastGeneration_release (d : Directory) (lease : HuddleLease) (owner : RuntimeId)
    (key : RoomKey) : (d.release lease owner).2.lastGeneration key = d.lastGeneration key := by
  rw [release]
  split_ifs
  · rfl
  · rfl

end Directory

/-! ### The registry -/

/-- The task that renews a lease: whether its caller has cancelled it, whether it has signalled
that the lease is lost, and whether it is over. -/
structure Renewer where
  lease : HuddleLease
  cancel : Bool
  lost : Bool
  ended : Bool
  deriving DecidableEq

/-- The tokens of a huddle's renewer, and the generation that its lease has. -/
structure HuddleOwnerEntry where
  renewer : ℕ
  generation : ℕ
  deriving DecidableEq

/-- The registry, with the tasks that were spawned. -/
structure HuddleOwnerRegistry where
  entries : HashMap Uuid HuddleOwnerEntry
  renewers : List Renewer

namespace HuddleOwnerRegistry

/-- Empty registry. -/
def new : HuddleOwnerRegistry := ⟨∅, []⟩

/-- The loss signal of the session's entry. -/
def lostFor (owners : HuddleOwnerRegistry) (sessionId : Uuid) : Option ℕ :=
  (owners.entries.lookup sessionId).map HuddleOwnerEntry.renewer

/-- Spawn a renewer. -/
def spawn (owners : HuddleOwnerRegistry) (lease : HuddleLease) (cancel : Bool) :
    HuddleOwnerRegistry :=
  { owners with renewers := owners.renewers ++ [⟨lease, cancel, false, false⟩] }

/-- Attach where an entry exists: the lease is released by a throwaway renewer, and the signal is
that of the entry. -/
def attachExisting (owners : HuddleOwnerRegistry) (existing : HuddleOwnerEntry)
    (lease : HuddleLease) : ℕ × HuddleOwnerRegistry :=
  (existing.renewer, owners.spawn lease true)

/-- Attach where no entry was found: the renewer's tokens are the session's. -/
def install (owners : HuddleOwnerRegistry) (sessionId : Uuid) (lease : HuddleLease) :
    ℕ × HuddleOwnerRegistry :=
  (owners.renewers.length,
    { owners.spawn lease false with
      entries := owners.entries.insert sessionId ⟨owners.renewers.length, lease.generation⟩ })

/-- Change what a renewer has been told or has done. -/
def modifyRenewer (owners : HuddleOwnerRegistry) (i : ℕ) (f : Renewer → Renewer) :
    HuddleOwnerRegistry :=
  { owners with renewers := owners.renewers.modify i f }

/-- Release the session's lease, unless its entry is of another generation. -/
def release (owners : HuddleOwnerRegistry) (sessionId : Uuid) (generation : ℕ) :
    HuddleOwnerRegistry :=
  match owners.entries.lookup sessionId with
  | none => owners
  | some entry =>
    if entry.generation = generation then
      { owners.modifyRenewer entry.renewer fun r => { r with cancel := true } with
        entries := owners.entries.erase sessionId }
    else owners

/-- The leases that were given to renewers. -/
def leases (owners : HuddleOwnerRegistry) : List HuddleLease := owners.renewers.map Renewer.lease

variable (owners : HuddleOwnerRegistry)

@[simp] theorem leases_spawn (lease : HuddleLease) (cancel : Bool) :
    (owners.spawn lease cancel).leases = owners.leases ++ [lease] :=
  List.map_append

@[simp] theorem leases_install (sessionId : Uuid) (lease : HuddleLease) :
    (owners.install sessionId lease).2.leases = owners.leases ++ [lease] :=
  owners.leases_spawn lease false

/-- A renewer was there before, or is the one that is spawned. -/
theorem renewer_of_spawn {lease : HuddleLease} {cancel : Bool} {i : ℕ} {r : Renewer}
    (h : (owners.spawn lease cancel).renewers[i]? = some r) : owners.renewers[i]? = some r ∨
      i = owners.renewers.length ∧ r = ⟨lease, cancel, false, false⟩ := by
  obtain ⟨hlt, -⟩ := List.getElem?_eq_some_iff.mp h
  rw [spawn, List.length_append, List.length_singleton] at hlt
  rcases Nat.lt_succ_iff_lt_or_eq.mp hlt with hlt | rfl
  · exact .inl ((List.getElem?_append_left hlt).symm.trans h)
  · exact .inr ⟨rfl, (Option.some.inj (List.getElem?_concat_length.symm.trans h)).symm⟩

theorem getElem?_modifyRenewer (i j : ℕ) (f : Renewer → Renewer) :
    (owners.modifyRenewer i f).renewers[j]? =
      if i = j then owners.renewers[j]?.map f else owners.renewers[j]? := by
  rw [modifyRenewer, List.getElem?_modify]
  cases owners.renewers[j]? with
  | none => exact (ite_self none).symm
  | some r =>
    split_ifs
    · rfl
    · rfl

theorem leases_modifyRenewer (i : ℕ) {f : Renewer → Renewer} (hf : ∀ r, (f r).lease = r.lease) :
    (owners.modifyRenewer i f).leases = owners.leases := by
  refine List.ext_getElem? fun j => ?_
  rw [leases, leases, List.getElem?_map, List.getElem?_map, getElem?_modifyRenewer]
  split_ifs
  · rw [Option.map_map]
    exact congrArg (Option.map · _) (funext hf)
  · rfl

@[simp] theorem leases_release (sessionId : Uuid) (generation : ℕ) :
    (owners.release sessionId generation).leases = owners.leases := by
  rw [release]
  split
  · rfl
  · split_ifs
    · exact owners.leases_modifyRenewer _ fun _ => rfl
    · rfl

/-- A release drops the entry of its own generation. -/
theorem lookup_release (sessionId sessionId' : Uuid) (generation : ℕ) :
    (owners.release sessionId generation).entries.lookup sessionId' =
      if sessionId' = sessionId then
        (owners.entries.lookup sessionId).filter fun entry => entry.generation ≠ generation
      else owners.entries.lookup sessionId' := by
  rw [release]
  split
  next hnone =>
    split_ifs with h
    · rw [h, hnone]
      rfl
    · rfl
  next entry hentry =>
    by_cases hgeneration : entry.generation = generation
    · rw [if_pos hgeneration, HashMap.lookup_erase_eq, hentry]
      simp [Option.filter_some, hgeneration]
    · rw [if_neg hgeneration, hentry]
      split_ifs with h
      · rw [h, hentry]
        simp [Option.filter_some, hgeneration]
      · rfl

/-- Entries survive a release or go. -/
theorem lookup_of_release {sessionId sessionId' : Uuid} {generation : ℕ}
    {entry : HuddleOwnerEntry}
    (h : (owners.release sessionId generation).entries.lookup sessionId' = some entry) :
    owners.entries.lookup sessionId' = some entry := by
  rw [lookup_release] at h
  split_ifs at h with hsession
  · rw [hsession]
    exact (Option.filter_eq_some_iff.mp h).1
  · exact h

end HuddleOwnerRegistry

end Buzz.Relay.Audio.Owners
