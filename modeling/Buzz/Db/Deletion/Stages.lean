import Mathlib.Data.Char
import Mathlib.Data.List.Lex
import Buzz.Db.Deletion.Requests

/-!
# The stages of a deletion

The transactions of `DeletionStore` that an executor runs for a request, up to its end, and the one
that aborts it.

## Main definitions

* `updateCommunity`, with the trigger `enforce_community_tombstone`.
* `beginQuiescing`, `fence`, `markDrained`, `markBindingsRemoved`, `purgePostgres`,
  `markCachePurged`, `verifyPostgresLogicallyDeleted`, `markLogicallyVerified`,
  `markRetentionPending`.
* `clearManifestKeyChunks`, `appendManifestKeyChunk`, `freezeDestructiveStorageManifest`,
  `nextPendingManifestChunk`, `markManifestChunkDeleted`, with the trigger
  `protect_community_deletion_manifest_keys`.
* `validateManifestKeyChunks`.
* `abort`.
-/

namespace Buzz.Db.Deletion

open Buzz.Core (Uuid uuidToString)
open Buzz.Library Buzz.Library.Transactions

/-! ### The row of the community -/

/-- `enforce_community_tombstone`, for an update. -/
def tombstoneAllows (settings : Settings) (old new : Community) : Bool :=
  let expected := if old.deletionFenceGeneration < new.deletionFenceGeneration then
    new.deletionFenceGeneration else old.deletionFenceGeneration
  settings.executor = some expected ||
    (old.deletionState = .active && new.deletionState = old.deletionState &&
      new.deletionFenceGeneration = old.deletionFenceGeneration &&
      new.deletedAt = old.deletedAt)

def Tables.modifyCommunity (t : Tables) (f : Community → Community) : Tables :=
  { t with community := f t.community }

/-- `UPDATE communities … WHERE id = … AND p`, and whether there was a row. -/
def updateCommunity (settings : Settings) (p : Community → Bool) (f : Community → Community) :
    Tx Bool := do
  let t ← read
  if p t.community then do
    lock .communityRow .exclusive
    let t ← read
    if p t.community then do
      require (tombstoneAllows settings t.community (f t.community))
        (.database "community tombstone mutation rejected")
      write (·.modifyCommunity f)
      return true
    else return false
  else return false

namespace Community

/-- The community is active and not deleted. -/
def isActive (c : Community) : Bool := c.deletionState = .active && c.deletedAt.isNone

/-- `COALESCE(archived_at, now())`. -/
def archivedFrom (c : Community) (start : ℤ) : Option ℤ := some (c.archivedAt.getD start)

def quiesced (c : Community) (start : ℤ) : Community :=
  { c with deletionState := .quiescing, archivedAt := c.archivedFrom start }

def fencedAt (c : Community) (start : ℤ) (generation : ℕ) : Community :=
  { c with
    deletionState := .fenced
    deletionFenceGeneration := generation
    archivedAt := c.archivedFrom start }

def tombstoned (c : Community) (start : ℤ) : Community :=
  { c with
    deletionState := .tombstone
    deletedAt := some (c.deletedAt.getD start)
    archivedAt := c.archivedFrom start
    signingKey := none
    icon := none }

def restored (c : Community) (generation : ℕ) (archivedAt : Option ℤ) : Community :=
  { c with
    deletionState := .active
    deletionFenceGeneration := generation
    archivedAt := archivedAt }

end Community

/-- What a tenant writes to the row: `archive_community_owned_by`, `unarchive_community_owned_by`
and `set_community_icon`, each for its community. -/
inductive CommunityUpdate
  | archive
  | unarchive
  | setIcon (icon : Option String)

/-- An update of the row by a tenant. -/
def tenantUpdateCommunity (start : ℤ) : CommunityUpdate → Tx Bool
  | .archive => updateCommunity .default (·.isActive) fun c =>
      { c with archivedAt := c.archivedFrom start }
  | .unarchive => updateCommunity .default (·.isActive) fun c => { c with archivedAt := none }
  | .setIcon icon => updateCommunity .default (fun _ => true) fun c => { c with icon := icon }

/-! ### Quiescing and the fence -/

namespace DeletionRequest

def quiesced (r : DeletionRequest) (start : ℤ) (archivedAt : Option ℤ) : DeletionRequest :=
  { r with preQuiesceArchivedAt := archivedAt, quiescingStartedAt := some start }

def advanced (r : DeletionRequest) (target : DeletionStage) (generation : Option ℕ) :
    DeletionRequest :=
  { r with
    stage := target
    fenceGeneration := generation.or r.fenceGeneration
    retryCount := 0
    retryStage := none
    lastError := none }

end DeletionRequest

/-- `advance_request_tx`. -/
def advanceRequest (start : ℤ) (token : LeaseToken) (source target : DeletionStage)
    (generation : Option ℕ) : Tx PUnit := do
  require (source.next = some target) (.deletionSafety "illegal deletion transition")
  let r ← updateRequest token.requestId
    (fun _ r => r.stage = source && r.claimedBy token && r.leaseLive start &&
      r.blockedReason.isNone)
    (·.advanced target generation)
  require r.isSome (staleLeaseError token)

/-- `DeletionStore::begin_quiescing`. -/
def beginQuiescing (start : ℤ) (token : LeaseToken) : Tx PUnit := do
  verifyLease start token .approved
  lock .community .exclusive
  verifyLease start token .approved
  lock .communityRow .exclusive
  let t ← read
  let archivedAt := t.community.archivedAt
  let _ ← updateRequest token.requestId (fun _ r => r.quiescingStartedAt.isNone)
    (·.quiesced start archivedAt)
  let affected ← updateCommunity ⟨some t.community.deletionFenceGeneration, none⟩
    (fun c => (c.deletionState = .active || c.deletionState = .quiescing) && c.deletedAt.isNone)
    (·.quiesced start)
  require affected (.deletionSafety "community cannot enter quiescing")

/-- The leases that have not expired. -/
def Tables.activeWrites (t : Tables) (start : ℤ) : List ServingLease :=
  (t.leases.entries.map Sigma.snd).filter fun row => decide (start ≤ row.leaseUntil)

/-- `DeletionStore::fence`. -/
def fence (start : ℤ) (token : LeaseToken) : Tx ℕ := do
  verifyLease start token .approved
  lock .community .exclusive
  verifyLease start token .approved
  let t ← read
  let active := t.activeWrites start
  require active.isEmpty
    (.servingWritesNotDrained active.length (active.map (·.operation)).dedup)
  lock .communityRow .exclusive
  let t ← read
  let generation ← okOr (.deletionSafety "community deletion fence generation overflow")
    (checkedSucc t.community.deletionFenceGeneration)
  let affected ← updateCommunity ⟨some generation, none⟩ (fun c => c.deletionState = .quiescing)
    (·.fencedAt start generation)
  require affected (.deletionSafety "community is no longer quiescing while fencing")
  advanceRequest start token .approved .fenced (some generation)
  return generation

/-! ### The manifest of keys -/

namespace Tables

/-- The chunks of a request, in order. -/
def chunks (t : Tables) (requestId : Uuid) : List (ℕ × KeyChunk) :=
  ((t.manifestKeys.entries.filter fun e => e.1.1 = requestId).map fun e =>
    (e.1.2, e.2)).insertionSort fun a b => a.1 ≤ b.1

def insertChunk (t : Tables) (key : Uuid × ℕ) (chunk : KeyChunk) : Tables :=
  { t with manifestKeys := t.manifestKeys.insert key chunk }

def modifyChunk (t : Tables) (key : Uuid × ℕ) (f : KeyChunk → KeyChunk) : Tables :=
  match t.manifestKeys.lookup key with
  | some chunk => t.insertChunk key (f chunk)
  | none => t

def eraseChunk (t : Tables) (key : Uuid × ℕ) : Tables :=
  { t with manifestKeys := t.manifestKeys.erase key }

end Tables

/-- `protect_community_deletion_manifest_keys`, for an insert. -/
def protectInsert (requestId : Uuid) : Tx PUnit := do
  lock (.request requestId) .exclusive
  let t ← read
  require ((t.requests.lookup requestId).any fun r =>
      r.destructiveStorageFrozenAt.isNone && r.stage = .fenced)
    (.database "community deletion manifest key chunks require an unfrozen fenced request")

/-- `protect_community_deletion_manifest_keys`, for a delete. -/
def protectDelete (requestId : Uuid) : Tx PUnit := do
  lock (.request requestId) .exclusive
  let t ← read
  require ((t.requests.lookup requestId).all fun r =>
      r.destructiveStorageFrozenAt.isNone || r.stage = .logicallyVerified ||
        r.stage = .retentionPending)
    (.database "community deletion manifest key chunks cannot be removed mid-execution")

/-- The chunks that a delete has found. -/
def deleteChunks (requestId : Uuid) : List ℕ → Tx PUnit
  | [] => return ⟨⟩
  | chunkNo :: rest => do
    lock (.chunk (requestId, chunkNo)) .exclusive
    protectDelete requestId
    write (·.eraseChunk (requestId, chunkNo))
    deleteChunks requestId rest

/-- `DELETE FROM community_deletion_manifest_keys WHERE request_id = …`. -/
def deleteManifestKeys (requestId : Uuid) : Tx PUnit := do
  let t ← read
  deleteChunks requestId ((t.chunks requestId).map Prod.fst)

/-- `DeletionStore::clear_manifest_key_chunks`. -/
def clearManifestKeyChunks (start : ℤ) (token : LeaseToken) : Tx PUnit := do
  let generation ← requireFenceGeneration token
  verifyLeaseAndFence start token .fenced generation
  deleteManifestKeys token.requestId

/-- `DeletionStore::append_manifest_key_chunk`. -/
def appendManifestKeyChunk (start : ℤ) (token : LeaseToken) (chunk : ManifestKeyChunk) :
    Tx PUnit := do
  require (!chunk.keys.isEmpty)
    (.deletionSafety "refusing to persist an empty manifest key chunk")
  let generation ← requireFenceGeneration token
  verifyLeaseAndFence start token .fenced generation
  protectInsert token.requestId
  lock (.chunk (token.requestId, chunk.chunkNo)) .exclusive
  let t ← read
  require (t.manifestKeys.lookup (token.requestId, chunk.chunkNo)).isNone
    (.database "duplicate key")
  write (·.insertChunk (token.requestId, chunk.chunkNo) ⟨chunk.keyPrefix, chunk.keys, none⟩)

/-- The keys that are folded into a digest, in strictly ascending order: `KeyStreamDigest`. -/
structure KeyStreamDigest where
  text : List Char
  last : Option Key
  count : ℕ

namespace KeyStreamDigest

def new : KeyStreamDigest := ⟨[], none, 0⟩

def fold (d : KeyStreamDigest) (key : Key) : Except DbError KeyStreamDigest :=
  if d.last.any fun last => key ≤ last then
    .error (.deletionSafety
      s!"storage key stream is not strictly ascending at {String.ofList key}")
  else .ok ⟨d.text ++ key ++ ['\n'], some key, d.count + 1⟩

def finish (d : KeyStreamDigest) (hashing : Hashing) : List Char × ℕ :=
  (hashing.sha256 d.text, d.count)

end KeyStreamDigest

/-- The end of a prefix of `validate_manifest_key_chunks`. -/
def closePrefix (hashing : Hashing) (summary : PrefixManifest) (d : KeyStreamDigest) :
    Except DbError Unit :=
  if (d.finish hashing).1 ≠ summary.keysDigest || (d.finish hashing).2 ≠ summary.objectCount then
    .error (.deletionSafety (s!"frozen key chunks do not match the destructive manifest for " ++
      s!"prefix {String.ofList summary.keyPrefix}"))
  else .ok ()

/-- The prefixes up to that of a chunk are closed; the first that is left is that of the chunk. -/
def seekPrefix (hashing : Hashing) (chunkPrefix : Key) : List PrefixManifest → KeyStreamDigest →
    Except DbError (List PrefixManifest × KeyStreamDigest)
  | [], _ => .error (.deletionSafety (s!"frozen key chunk prefix {String.ofList chunkPrefix} " ++
      "is not in the destructive manifest"))
  | summary :: rest, d =>
    if summary.keyPrefix = chunkPrefix then .ok (summary :: rest, d)
    else do
      closePrefix hashing summary d
      seekPrefix hashing chunkPrefix rest .new

/-- The keys of a chunk. -/
def foldKeys (chunkPrefix : Key) : List Key → KeyStreamDigest → Except DbError KeyStreamDigest
  | [], d => .ok d
  | key :: rest, d =>
    if ¬ chunkPrefix <+: key then
      .error (.deletionSafety (s!"frozen key {String.ofList key} is outside its chunk prefix " ++
        String.ofList chunkPrefix))
    else do
      let d ← d.fold key
      foldKeys chunkPrefix rest d

/-- The chunks from a number on, with the prefixes that are left. -/
def validateChunks (hashing : Hashing) : ℕ → List (ℕ × KeyChunk) → List PrefixManifest →
    KeyStreamDigest → Except DbError Unit
  | _, [], [], _ => .ok ()
  | _, [], summary :: rest, d => do
    closePrefix hashing summary d
    rest.forM fun summary => closePrefix hashing summary .new
  | index, (chunkNo, chunk) :: chunks, prefixes, d =>
    if chunkNo ≠ index then .error (.deletionSafety "frozen key chunk sequence has gaps")
    else do
      let (prefixes, d) ← seekPrefix hashing chunk.keyPrefix prefixes d
      if chunk.keys.isEmpty then .error (.deletionSafety "frozen key chunk is empty")
      else do
        let d ← foldKeys chunk.keyPrefix chunk.keys d
        validateChunks hashing (index + 1) chunks prefixes d

/-- `validate_manifest_key_chunks`. -/
def validateManifestKeyChunks (hashing : Hashing) (manifest : StorageManifest)
    (chunks : List (ℕ × KeyChunk)) : Except DbError Unit :=
  validateChunks hashing 0 chunks manifest.prefixes .new

/-- The row with its destructive manifest. -/
def DeletionRequest.frozen (r : DeletionRequest) (start : ℤ) (manifest : StorageManifest) :
    DeletionRequest :=
  { r with
    destructiveStorageManifest := some (r.destructiveStorageManifest.getD manifest)
    destructiveStorageFrozenAt := some (r.destructiveStorageFrozenAt.getD start) }

/-- `DeletionStore::freeze_destructive_storage_manifest`. -/
def freezeDestructiveStorageManifest (hashing : Hashing) (start : ℤ) (token : LeaseToken)
    (manifest : StorageManifest) : Tx PUnit := do
  let generation ← requireFenceGeneration token
  let r ← selectRequestForUpdate token.requestId fun _ => true
  require r.isSome (.deletionSafety "deletion request disappeared before manifest freeze")
  verifyLeaseAndFence start token .fenced generation
  checked (validateStorageManifest manifest)
  let t ← read
  checked (validateManifestKeyChunks hashing manifest (t.chunks token.requestId))
  let r ← updateRequest token.requestId
    (fun _ r => r.claimedBy token && r.stage = .fenced &&
      r.destructiveStorageManifest.all (· = manifest))
    (·.frozen start manifest)
  require r.isSome (.deletionSafety
    "destructive storage manifest changed or deletion lease is stale")

/-- `DeletionStore::next_pending_manifest_chunk`. -/
def nextPendingManifestChunk (token : LeaseToken) : Tx (Option ManifestKeyChunk) := do
  let t ← read
  return ((t.chunks token.requestId).find? fun e => e.2.deletedAt.isNone).map fun e =>
    ⟨e.1, e.2.keyPrefix, e.2.keys⟩

/-- `DeletionStore::mark_manifest_chunk_deleted`. The stamp is the one update that
`protect_community_deletion_manifest_keys` permits. -/
def markManifestChunkDeleted (start : ℤ) (token : LeaseToken) (chunkNo : ℕ) : Tx PUnit := do
  let generation ← requireFenceGeneration token
  verifyLeaseAndFence start token .drained generation
  let missing := DbError.deletionSafety
    s!"manifest key chunk {chunkNo} is missing or already stamped"
  let t ← read
  require ((t.manifestKeys.lookup (token.requestId, chunkNo)).any (·.deletedAt.isNone)) missing
  lock (.chunk (token.requestId, chunkNo)) .exclusive
  let t ← read
  require ((t.manifestKeys.lookup (token.requestId, chunkNo)).any (·.deletedAt.isNone)) missing
  write (·.modifyChunk (token.requestId, chunkNo) fun c => { c with deletedAt := some start })

/-! ### Later stages -/

/-- `DeletionStore::serving_writes_drained`. -/
def servingWritesDrained (start : ℤ) : Tx Bool := do
  let t ← read
  return (t.activeWrites start).isEmpty

/-- `DeletionStore::mark_drained`. -/
def markDrained (start : ℤ) (token : LeaseToken) : Tx PUnit := do
  let generation ← requireFenceGeneration token
  verifyLeaseAndFence start token .fenced generation
  let t ← read
  require (t.activeWrites start).isEmpty (.deletionSafety "serving writes have not drained")
  advanceRequest start token .fenced .drained (some generation)

/-- `DeletionStore::advance_with_checkpoint`. -/
def advanceWithCheckpoint (start : ℤ) (token : LeaseToken) (source target : DeletionStage) :
    Tx PUnit := do
  let generation ← requireFenceGeneration token
  verifyLeaseAndFence start token source generation
  advanceRequest start token source target (some generation)

/-- `DeletionStore::mark_bindings_removed`. -/
def markBindingsRemoved (start : ℤ) (token : LeaseToken) : Tx PUnit :=
  advanceWithCheckpoint start token .drained .bindingsRemoved

/-- `PURGE_SCOPED_TABLES`. -/
def purgeScopedTables : List String :=
  ["workflow_approvals", "scheduled_workflow_fires", "workflow_runs", "push_wake_outbox",
    "join_policy_acceptances", "moderation_reports", "subscriptions", "api_tokens",
    "channel_members", "thread_metadata", "moderation_actions", "workflows", "event_mentions",
    "reactions", "push_match_queue", "push_leases", "relay_invites", "delivery_log", "events",
    "parameterized_event_watermarks", "git_repo_names", "archived_identities", "audit_log",
    "community_bans", "pubkey_allowlist", "relay_members", "users", "channels"]

/-- The rows of the tables that a purge finds are deleted, with the trigger before them. -/
def purgeTables (start : ℤ) (settings : Settings) : List String → Tx PUnit
  | [] => return ⟨⟩
  | table :: rest => do
    let t ← read
    let found := t.rows table
    if found.isEmpty then purgeTables start settings rest
    else do
      let _ ← assertCommunityWriteAllowed start settings
      write (·.setRows table fun rows => rows.filter (· ∉ found))
      purgeTables start settings rest

/-- The provenance of rows that are not of the tenant is cleared. -/
def clearProvenance : List String → Tx PUnit
  | [] => return ⟨⟩
  | table :: rest => do
    write (·.setRows table fun _ => [])
    clearProvenance rest

/-- `DeletionStore::purge_postgres`. -/
def purgePostgres (start : ℤ) (token : LeaseToken) : Tx PUnit := do
  let generation ← requireFenceGeneration token
  lock .schemaDestruction .shared
  let t ← read
  checked (validateCatalog t)
  verifyLeaseAndFence start token .bindingsRemoved generation
  let settings : Settings := ⟨some generation, none⟩
  clearProvenance ["product_feedback", "rate_limit_violations"]
  purgeTables start settings purgeScopedTables
  let affected ← updateCommunity settings
    (fun c => c.deletionState = .fenced && c.deletionFenceGeneration = generation)
    (·.tombstoned start)
  require affected (.deletionSafety "community tombstone update affected no row")
  advanceRequest start token .bindingsRemoved .postgresPurged (some generation)

/-- `DeletionStore::mark_cache_purged`. -/
def markCachePurged (start : ℤ) (token : LeaseToken) : Tx PUnit :=
  advanceWithCheckpoint start token .postgresPurged .cachePurged

/-- No table has rows. -/
def requireAbsent : List String → Tx PUnit
  | [] => return ⟨⟩
  | table :: rest => do
    let t ← read
    require (t.rows table).isEmpty
      (.deletionSafety s!"logical verification found tenant rows in {table}")
    requireAbsent rest

/-- `DeletionStore::verify_postgres_logically_deleted`. -/
def verifyPostgresLogicallyDeleted (start : ℤ) (token : LeaseToken) : Tx PUnit := do
  let generation ← requireFenceGeneration token
  lock .schemaDestruction .shared
  let t ← read
  checked (validateCatalog t)
  verifyLeaseAndFence start token .cachePurged generation
  let t ← read
  require (t.community.deletionState = .tombstone && t.community.deletedAt.isSome &&
      t.community.deletionFenceGeneration = generation)
    (.deletionSafety "community tombstone/fence verification failed")
  requireAbsent expectedScopedTables

/-- `DeletionStore::mark_logically_verified`. -/
def markLogicallyVerified (start : ℤ) (token : LeaseToken) : Tx PUnit := do
  let generation ← requireFenceGeneration token
  verifyLeaseAndFence start token .cachePurged generation
  advanceRequest start token .cachePurged .logicallyVerified (some generation)
  deleteManifestKeys token.requestId

/-- The row of a request that has come to its end. -/
def DeletionRequest.retained (r : DeletionRequest) (start : ℤ) : DeletionRequest :=
  { r with
    stage := .retentionPending
    completedAt := some start
    leaseOwner := none
    leaseUntil := none
    retryCount := 0
    retryStage := none
    lastError := none }

/-- `DeletionStore::mark_retention_pending`. -/
def markRetentionPending (start : ℤ) (token : LeaseToken) : Tx PUnit := do
  let generation ← requireFenceGeneration token
  verifyLeaseAndFence start token .logicallyVerified generation
  let r ← updateRequest token.requestId
    (fun _ r => r.stage = .logicallyVerified && r.claimedBy token && r.leaseLive start &&
      r.fenceGeneration = some generation)
    (·.retained start)
  require r.isSome (staleLeaseError token)

/-! ### Abort -/

/-- The row of an aborted request. -/
def DeletionRequest.abandoned (r : DeletionRequest) (start : ℤ) (abortedBy reason : String)
    (generation leaseGeneration : ℕ) : DeletionRequest :=
  { r with
    stage := .aborted
    abortedBy := some abortedBy
    abortReason := some reason
    abortedAt := some start
    completedAt := some start
    fenceGeneration := some generation
    leaseOwner := none
    leaseUntil := none
    leaseGeneration := leaseGeneration
    blockedReason := none
    retryCount := 0
    retryStage := none
    nextAttemptAt := start }

/-- `DeletionStore::abort`. -/
def abort (start : ℤ) (requestId : Uuid) (abortedBy reason : String) : Tx DeletionRequest := do
  let abortedBy := trim abortedBy
  let reason := trim reason
  let missing := DbError.notFound s!"community deletion {uuidToString requestId}"
  require (!abortedBy.isEmpty && !reason.isEmpty)
    (.deletionSafety "abort requires non-empty operator identity and reason")
  let t ← read
  require (t.requests.lookup requestId).isSome missing
  lock .community .exclusive
  let r ← selectRequestForUpdate requestId fun _ => true
  let r ← okOr missing r
  require (r.stage = .approved || r.stage = .fenced)
    (.deletionSafety s!"deletion {uuidToString requestId} cannot be aborted")
  let t ← read
  let active := (t.activeWrites start).length
  require (active = 0) (.deletionSafety (s!"deletion {uuidToString requestId} cannot abort " ++
    s!"while {active} serving write lease(s) remain active"))
  lock .communityRow .exclusive
  let t ← read
  let generation ← okOr (.deletionSafety "community deletion fence generation overflow")
    (checkedSucc t.community.deletionFenceGeneration)
  let archivedAt := if r.quiescingStartedAt.isSome then r.preQuiesceArchivedAt
    else t.community.archivedAt
  let affected ← updateCommunity ⟨some generation, none⟩
    (fun c => c.deletionState ≠ .tombstone && c.deletedAt.isNone)
    (·.restored generation archivedAt)
  require affected (.deletionSafety "community cannot be restored during abort")
  let leaseGeneration ← okOr (.database "bigint out of range") (checkedSucc r.leaseGeneration)
  let r ← updateRequest requestId (fun _ _ => true)
    (·.abandoned start (boundText abortedBy 512) (boundText reason 4096) generation leaseGeneration)
  okOr (.database "no rows returned") r

end Buzz.Db.Deletion
