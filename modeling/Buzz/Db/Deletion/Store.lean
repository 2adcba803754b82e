import Buzz.Db.Deletion.Stages

/-!
# The deletion store

The operations of `DeletionStore` as data, and those of tenants, each of them one transaction.

## Main definitions

* `Op`, `Op.Result`, `Op.program`.
-/

namespace Buzz.Db.Deletion

open Buzz.Core (Uuid)
open Buzz.Library Buzz.Library.Transactions

/-- An operation. Identities that the database generates are given, and so is the clock of a
client. -/
inductive Op
  | submit (requestId : Uuid) (communityHost requestedBy : String) (reason : Option String)
  | get (requestId : Uuid)
  | inventorySchema
  | freezeInventory (requestId : Uuid) (inventory : FrozenInventory)
  | approve (requestId : Uuid) (approvedBy : String) (note : Option String)
  | claim (requestId : Option Uuid) (owner : String) (seconds : ℕ)
  | verifyExecutionToken (token : LeaseToken) (stage : DeletionStage)
  | heartbeat (token : LeaseToken) (seconds : ℕ)
  | stopExecutor (token : Option LeaseToken)
  | beginQuiescing (token : LeaseToken)
  | fence (token : LeaseToken)
  | freezeDestructiveStorageManifest (token : LeaseToken) (manifest : StorageManifest)
  | clearManifestKeyChunks (token : LeaseToken)
  | appendManifestKeyChunk (token : LeaseToken) (chunk : ManifestKeyChunk)
  | nextPendingManifestChunk (token : LeaseToken)
  | markManifestChunkDeleted (token : LeaseToken) (chunkNo : ℕ)
  | servingWritesDrained
  | markDrained (token : LeaseToken)
  | markBindingsRemoved (token : LeaseToken)
  | purgePostgres (token : LeaseToken)
  | markCachePurged (token : LeaseToken)
  | verifyPostgresLogicallyDeleted (token : LeaseToken)
  | markLogicallyVerified (token : LeaseToken)
  | markRetentionPending (token : LeaseToken)
  | recordRetry (token : LeaseToken) (stage : DeletionStage) (message : String) (retryAfter : ℕ)
  | block (token : LeaseToken) (stage : DeletionStage) (message : String)
  | unblock (requestId : Uuid) (unblockedBy reason : String) (clientNow : ℤ)
  | blockPreclaimSetup (requestId : Uuid) (message : String) (clientNow : ℤ)
  | abort (requestId : Uuid) (abortedBy reason : String)
  | acquireServingWriteLease (leaseId : Uuid) (operation owner : String) (seconds : ℕ)
  | renewServingWriteLease (lease : ServingWriteLease) (seconds : ℕ)
  | releaseServingWriteLease (lease : ServingWriteLease)
  | verifyServingWriteLease (lease : ServingWriteLease)
  | reapExpiredServingWriteLeases (limit : ℤ)
  | tenantTransaction (statements : List TenantStatement)
  | tenantUpdateCommunity (update : CommunityUpdate)

namespace Op

/-- What an operation returns. -/
def Result : Op → Type
  | submit .. => Uuid × DeletionRequest
  | get _ | freezeInventory .. | approve .. | unblock .. | blockPreclaimSetup .. | abort .. =>
    DeletionRequest
  | inventorySchema => SchemaManifest
  | claim .. => Option ClaimedDeletion
  | nextPendingManifestChunk _ => Option ManifestKeyChunk
  | fence _ | reapExpiredServingWriteLeases _ => ℕ
  | renewServingWriteLease .. => ℤ
  | servingWritesDrained | releaseServingWriteLease _ | tenantUpdateCommunity _ => Bool
  | acquireServingWriteLease .. => ServingWriteLease
  | tenantTransaction _ => List Admission
  | verifyExecutionToken .. | heartbeat .. | stopExecutor _ | beginQuiescing _
  | freezeDestructiveStorageManifest .. | clearManifestKeyChunks _ | appendManifestKeyChunk ..
  | markManifestChunkDeleted .. | markDrained _ | markBindingsRemoved _ | purgePostgres _
  | markCachePurged _ | verifyPostgresLogicallyDeleted _ | markLogicallyVerified _
  | markRetentionPending _ | recordRetry .. | block .. | verifyServingWriteLease _ => PUnit

end Op

/-- `DeletionStore::inventory_schema`. -/
def inventorySchema : Tx SchemaManifest := do
  let t ← read
  checked (validateCatalog t)
  return ⟨expectedScopedTables,
    expectedScopedTables.map fun table => (table, (t.rows table).length), expectedScopedTables⟩

/-- The transaction of an operation. -/
def Op.program (hashing : Hashing) : (op : Op) → ℤ → Tx op.Result
  | .submit requestId communityHost requestedBy reason, start =>
    Deletion.submit start requestId communityHost requestedBy reason
  | .get requestId, _ => getRequest requestId
  | .inventorySchema, _ => Deletion.inventorySchema
  | .freezeInventory requestId inventory, _ =>
    Deletion.freezeInventory hashing requestId inventory
  | .approve requestId approvedBy note, start =>
    Deletion.approve hashing start requestId approvedBy note
  | .claim requestId owner seconds, start => Deletion.claim start requestId owner seconds
  | .verifyExecutionToken token stage, start => Deletion.verifyExecutionToken start token stage
  | .heartbeat token seconds, start => Deletion.heartbeat start token seconds
  | .stopExecutor token, _ => Deletion.stopExecutor token
  | .beginQuiescing token, start => Deletion.beginQuiescing start token
  | .fence token, start => Deletion.fence start token
  | .freezeDestructiveStorageManifest token manifest, start =>
    Deletion.freezeDestructiveStorageManifest hashing start token manifest
  | .clearManifestKeyChunks token, start => Deletion.clearManifestKeyChunks start token
  | .appendManifestKeyChunk token chunk, start => Deletion.appendManifestKeyChunk start token chunk
  | .nextPendingManifestChunk token, _ => Deletion.nextPendingManifestChunk token
  | .markManifestChunkDeleted token chunkNo, start =>
    Deletion.markManifestChunkDeleted start token chunkNo
  | .servingWritesDrained, start => Deletion.servingWritesDrained start
  | .markDrained token, start => Deletion.markDrained start token
  | .markBindingsRemoved token, start => Deletion.markBindingsRemoved start token
  | .purgePostgres token, start => Deletion.purgePostgres start token
  | .markCachePurged token, start => Deletion.markCachePurged start token
  | .verifyPostgresLogicallyDeleted token, start =>
    Deletion.verifyPostgresLogicallyDeleted start token
  | .markLogicallyVerified token, start => Deletion.markLogicallyVerified start token
  | .markRetentionPending token, start => Deletion.markRetentionPending start token
  | .recordRetry token stage message retryAfter, start =>
    Deletion.recordRetry start token stage message retryAfter
  | .block token stage message, start => Deletion.block start token stage message
  | .unblock requestId unblockedBy reason clientNow, start =>
    Deletion.unblock start requestId unblockedBy reason clientNow
  | .blockPreclaimSetup requestId message clientNow, _ =>
    Deletion.blockPreclaimSetup requestId message clientNow
  | .abort requestId abortedBy reason, start => Deletion.abort start requestId abortedBy reason
  | .acquireServingWriteLease leaseId operation owner seconds, start =>
    Deletion.acquireServingWriteLease start leaseId operation owner seconds
  | .renewServingWriteLease lease seconds, start =>
    Deletion.renewServingWriteLease start lease seconds
  | .releaseServingWriteLease lease, _ => Deletion.releaseServingWriteLease lease
  | .verifyServingWriteLease lease, start => Deletion.verifyServingWriteLease start lease
  | .reapExpiredServingWriteLeases limit, start =>
    Deletion.reapExpiredServingWriteLeases start limit
  | .tenantTransaction statements, start => Deletion.tenantTransaction start statements
  | .tenantUpdateCommunity update, start => Deletion.tenantUpdateCommunity start update

end Buzz.Db.Deletion
