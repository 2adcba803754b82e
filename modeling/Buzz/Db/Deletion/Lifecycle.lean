import Mathlib.Data.Finset.Basic
import Buzz.Core.Filter
import Buzz.Library.Table

/-!
# Community deletion

The rows of the migrations `0029_community_deletion.sql` and `0030_community_deletion_recovery.sql`,
for one community, and the values of `crates/buzz-db/src/deletion.rs`. Times are microseconds.

Left out are the columns that no modelled statement reads: when a row was last updated, the attempts
of a claim, and the tables of checkpoints, of executor heartbeats and of taxonomy sweeps.

Not of the repository are SHA-256, in lowercase hex, and `serde_json::to_vec`.

## Main definitions

* `DeletionStage`, `DeletionStage.next`, `DeletionStage.position`.
* `Community`, `DeletionRequest`, `ServingLease`, `KeyChunk`, `Tables`.
* `StorageManifest`, `FrozenInventory`, `Hashing`.
-/

namespace Buzz.Db.Deletion

open Buzz.Core (Uuid uuidToString)
open Buzz.Library

/-! ### Stages -/

/-- The stage of a request. -/
inductive DeletionStage
  | submitted
  | inventoried
  | approved
  | fenced
  | drained
  | bindingsRemoved
  | postgresPurged
  | cachePurged
  | logicallyVerified
  | retentionPending
  | aborted
  deriving DecidableEq

namespace DeletionStage

/-- The next legal stage. -/
def next : DeletionStage → Option DeletionStage
  | submitted => some inventoried
  | inventoried => some approved
  | approved => some fenced
  | fenced => some drained
  | drained => some bindingsRemoved
  | bindingsRemoved => some postgresPurged
  | postgresPurged => some cachePurged
  | cachePurged => some logicallyVerified
  | logicallyVerified => some retentionPending
  | retentionPending | aborted => none

/-- Whether a request may be claimed. -/
def runnable : DeletionStage → Bool
  | approved | fenced | drained | bindingsRemoved | postgresPurged | cachePurged
  | logicallyVerified => true
  | submitted | inventoried | retentionPending | aborted => false

/-- How far a request has come; an aborted one has come to the end. -/
def position : DeletionStage → ℕ
  | submitted => 0
  | inventoried => 1
  | approved => 2
  | fenced => 3
  | drained => 4
  | bindingsRemoved => 5
  | postgresPurged => 6
  | cachePurged => 7
  | logicallyVerified => 8
  | retentionPending => 9
  | aborted => 10

theorem position_next {a b : DeletionStage} (h : a.next = some b) :
    b.position = a.position + 1 := by
  cases a <;> simp only [next, Option.some.injEq, reduceCtorEq] at h <;> subst h <;> rfl

theorem position_injective : Function.Injective position := by
  intro a b h
  cases a <;> cases b <;> first | rfl | cases h

theorem position_le (a : DeletionStage) : a.position ≤ 10 := by cases a <;> decide

end DeletionStage

/-! ### Manifests -/

/-- The text of an object key. -/
abbrev Key := List Char

/-- The frozen summary of the keys under one prefix. -/
structure PrefixManifest where
  keyPrefix : Key
  objectCount : ℕ
  totalBytes : ℕ
  keysDigest : List Char
  deriving DecidableEq

structure StorageManifest where
  version : ℤ
  prefixes : List PrefixManifest
  deriving DecidableEq

structure SchemaManifest where
  scopedTables : List String
  rowCounts : List (String × ℕ)
  fencedTables : List String
  deriving DecidableEq

structure FrozenInventory where
  schema : SchemaManifest
  storage : StorageManifest
  deriving DecidableEq

/-- SHA-256, and the serialization of an inventory. -/
structure Hashing where
  sha256 : List Char → List Char
  toVec : FrozenInventory → List Char

/-- `FrozenInventory::digest`. -/
def FrozenInventory.digest (hashing : Hashing) (inventory : FrozenInventory) : List Char :=
  hashing.sha256 (hashing.toVec inventory)

/-! ### Rows -/

inductive DeletionState
  | active
  | quiescing
  | fenced
  | tombstone
  deriving DecidableEq

/-- The row of the community. -/
structure Community where
  host : String
  deletionState : DeletionState
  deletionFenceGeneration : ℕ
  deletedAt : Option ℤ
  archivedAt : Option ℤ
  icon : Option String
  signingKey : Option String

/-- A row of `community_deletion_requests`, under its id. It is blocked where it has a reason. -/
structure DeletionRequest where
  communityHost : String
  stage : DeletionStage
  requestedBy : String
  reason : Option String
  schemaManifest : Option SchemaManifest
  storageManifest : Option StorageManifest
  destructiveStorageManifest : Option StorageManifest
  destructiveStorageFrozenAt : Option ℤ
  inventoryManifest : Option FrozenInventory
  inventoryDigest : Option (List Char)
  fenceGeneration : Option ℕ
  leaseOwner : Option String
  leaseGeneration : ℕ
  leaseUntil : Option ℤ
  retryCount : ℕ
  retryStage : Option DeletionStage
  nextAttemptAt : ℤ
  lastError : Option String
  blockedReason : Option String
  createdAt : ℤ
  preQuiesceArchivedAt : Option ℤ
  quiescingStartedAt : Option ℤ
  abortedBy : Option String
  abortReason : Option String
  abortedAt : Option ℤ
  completedAt : Option ℤ

/-- A row of `community_deletion_approvals`, under its request. -/
structure DeletionApproval where
  inventoryDigest : List Char
  approvedBy : String
  note : Option String

/-- A row of `community_deletion_manifest_keys`, under its request and its number. -/
structure KeyChunk where
  keyPrefix : Key
  keys : List Key
  deletedAt : Option ℤ

/-- A row of `community_serving_write_leases`, under its id. -/
structure ServingLease where
  operation : String
  owner : String
  generation : ℕ
  fenceGeneration : ℕ
  leaseUntil : ℤ

/-- The largest `BIGINT`. -/
def bigintMax : ℕ := 9223372036854775807

/-- `checked_add(1)`, and what PostgreSQL does with a `BIGINT`. -/
def checkedSucc (n : ℕ) : Option ℕ := if n < bigintMax then some (n + 1) else none

theorem checkedSucc_eq {n m : ℕ} (h : checkedSucc n = some m) : m = n + 1 := by
  unfold checkedSucc at h
  split at h
  · exact (Option.some.inj h).symm
  · cases h

/-! ### Tokens -/

/-- The token of a claim. -/
structure LeaseToken where
  requestId : Uuid
  owner : String
  generation : ℕ
  fenceGeneration : Option ℕ
  deriving DecidableEq

structure ClaimedDeletion where
  request : DeletionRequest
  lease : LeaseToken

/-- The token of a serving lease. -/
structure ServingWriteLease where
  id : Uuid
  operation : String
  owner : String
  generation : ℕ
  fenceGeneration : ℕ
  leaseUntil : ℤ
  deriving DecidableEq

structure ManifestKeyChunk where
  chunkNo : ℕ
  keyPrefix : Key
  keys : List Key

/-- The rows of the community and of its deletion. Tenant rows are under the name of their table,
and the tables are those of the catalog that have a `community_id` and the write fence. What is
issued is no column: these are all the serving leases that have been acquired, the last one
first. -/
structure Tables where
  community : Community
  requests : HashMap Uuid DeletionRequest
  approvals : HashMap Uuid DeletionApproval
  manifestKeys : HashMap (Uuid × ℕ) KeyChunk
  leases : HashMap Uuid ServingLease
  issued : List ServingWriteLease
  rows : String → List String
  scopedTables : Finset String
  fencedTables : Finset String

/-- The errors of the store. -/
inductive DbError
  | deletionSafety (message : String)
  | accessDenied (message : String)
  | notFound (message : String)
  | invalidData (message : String)
  | servingWritesNotDrained (activeCount : ℕ) (operations : List String)
  | database (message : String)
  deriving DecidableEq

end Buzz.Db.Deletion
