import Mathlib.Data.List.DropRight
import Buzz.Db.Deletion.Serving
import Buzz.Library.Text

/-!
# Deletion requests

The transactions of `DeletionStore` on a request before its stages run, and on its claim: it is
submitted, inventoried, approved and claimed, and it may be retried, blocked and unblocked.

## Main definitions

* `updateRequest`, `selectRequestForUpdate`: one statement, with the trigger
  `prevent_community_deletion_request_retargeting`.
* `Tables.tokenValid`, `Tables.tokenFenced`; `verifyLease`, `verifyLeaseAndFence`.
* `submit`, `freezeInventory`, `approve`, `claim`, `heartbeat`, `stopExecutor`, `recordRetry`,
  `block`, `unblock`, `blockPreclaimSetup`.
-/

namespace Buzz.Db.Deletion

open Buzz.Core (Uuid uuidToString)
open Buzz.Library Buzz.Library.Transactions

/-! ### Texts -/

/-- `str::trim`. -/
def trim (text : String) : String :=
  String.ofList ((text.toList.dropWhile isWhitespace).rdropWhile isWhitespace)

/-- The characters of a text that fit in a number of bytes. -/
def fitting : ℕ → List Char → List Char
  | _, [] => []
  | room, c :: rest => if c.utf8Size ≤ room then c :: fitting (room - c.utf8Size) rest else []

/-- `bound_text`. -/
def boundText (text : String) (max : ℕ) : String := String.ofList (fitting max text.toList)

/-! ### Statements -/

namespace Tables

def insertRequest (t : Tables) (requestId : Uuid) (r : DeletionRequest) : Tables :=
  { t with requests := t.requests.insert requestId r }

def modifyRequest (t : Tables) (requestId : Uuid) (f : DeletionRequest → DeletionRequest) :
    Tables :=
  match t.requests.lookup requestId with
  | some r => t.insertRequest requestId (f r)
  | none => t

def insertApproval (t : Tables) (requestId : Uuid) (a : DeletionApproval) : Tables :=
  { t with approvals := t.approvals.insert requestId a }

/-- Whether there is an approval of the frozen digest. -/
def approved (t : Tables) (requestId : Uuid) (r : DeletionRequest) : Bool :=
  (t.approvals.lookup requestId).any fun a => r.inventoryDigest = some a.inventoryDigest

end Tables

/-- `prevent_community_deletion_request_retargeting`. -/
def retargets (old new : DeletionRequest) : Bool :=
  new.communityHost ≠ old.communityHost ||
    (old.inventoryDigest.isSome && (new.schemaManifest ≠ old.schemaManifest ||
      new.storageManifest ≠ old.storageManifest || new.inventoryManifest ≠ old.inventoryManifest ||
      new.inventoryDigest ≠ old.inventoryDigest)) ||
    (old.destructiveStorageFrozenAt.isSome &&
      (new.destructiveStorageManifest ≠ old.destructiveStorageManifest ||
        new.destructiveStorageFrozenAt ≠ old.destructiveStorageFrozenAt))

/-- `UPDATE community_deletion_requests … WHERE id = … AND p RETURNING *`. -/
def updateRequest (requestId : Uuid) (p : Tables → DeletionRequest → Bool)
    (f : DeletionRequest → DeletionRequest) : Tx (Option DeletionRequest) := do
  let t ← read
  if (t.requests.lookup requestId).any (p t) then do
    lock (.request requestId) .exclusive
    let t ← read
    match (t.requests.lookup requestId).filter (p t) with
    | some r => do
      require (!retargets r (f r)) (.database "community deletion target identity is immutable")
      write (·.modifyRequest requestId f)
      return some (f r)
    | none => return none
  else return none

/-- `SELECT * FROM community_deletion_requests WHERE id = … AND p FOR UPDATE`. -/
def selectRequestForUpdate (requestId : Uuid) (p : DeletionRequest → Bool) :
    Tx (Option DeletionRequest) := do
  let t ← read
  if (t.requests.lookup requestId).any p then do
    lock (.request requestId) .exclusive
    let t ← read
    return (t.requests.lookup requestId).filter p
  else return none

/-- `stale_lease_error`. -/
def staleLeaseError (token : LeaseToken) : DbError :=
  .accessDenied (s!"stale deletion lease {uuidToString token.requestId} " ++
    s!"owner {repr token.owner} generation {token.generation}")

/-- `is_stale_deletion_lease`. -/
def isStaleDeletionLease : DbError → Bool
  | .accessDenied message => message.startsWith "stale deletion lease " ||
      message.startsWith "stale lease or fencing generation for deletion "
  | .deletionSafety _ | .notFound _ | .invalidData _ | .servingWritesNotDrained .. | .database _ =>
    false

/-- `require_fence_generation`. -/
def requireFenceGeneration (token : LeaseToken) : Tx ℕ :=
  okOr (.deletionSafety
    s!"deletion {uuidToString token.requestId} has no durable fence generation")
    token.fenceGeneration

/-- The current claim of a request is the token's. -/
def DeletionRequest.claimedBy (r : DeletionRequest) (token : LeaseToken) : Bool :=
  r.leaseOwner = some token.owner && r.leaseGeneration = token.generation

/-- The claim has not expired. -/
def DeletionRequest.leaseLive (r : DeletionRequest) (start : ℤ) : Bool :=
  r.leaseUntil.any fun t => start ≤ t

namespace Tables

/-- The predicate of `verify_lease`. -/
def tokenValid (t : Tables) (start : ℤ) (token : LeaseToken) (stage : DeletionStage) : Bool :=
  (t.requests.lookup token.requestId).any fun r =>
    t.approved token.requestId r && r.stage = stage && r.claimedBy token && r.leaseLive start &&
      r.blockedReason.isNone

/-- The predicate of `verify_lease_and_fence`. -/
def tokenFenced (t : Tables) (start : ℤ) (token : LeaseToken) (stage : DeletionStage)
    (generation : ℕ) : Bool :=
  (t.requests.lookup token.requestId).any fun r =>
    t.approved token.requestId r && r.stage = stage && r.claimedBy token && r.leaseLive start &&
      r.blockedReason.isNone && r.fenceGeneration = some generation &&
      (t.community.deletionState = .fenced || t.community.deletionState = .tombstone) &&
      t.community.deletionFenceGeneration = generation

end Tables

/-- `verify_lease`. -/
def verifyLease (start : ℤ) (token : LeaseToken) (stage : DeletionStage) : Tx PUnit := do
  let t ← read
  require (t.tokenValid start token stage) (staleLeaseError token)

/-- `verify_lease_and_fence`. -/
def verifyLeaseAndFence (start : ℤ) (token : LeaseToken) (stage : DeletionStage)
    (generation : ℕ) : Tx PUnit := do
  let t ← read
  require (t.tokenFenced start token stage generation)
    (.accessDenied
      s!"stale lease or fencing generation for deletion {uuidToString token.requestId}")

/-- `DeletionStore::verify_execution_token`. -/
def verifyExecutionToken (start : ℤ) (token : LeaseToken) (stage : DeletionStage) : Tx PUnit :=
  match token.fenceGeneration with
  | some generation => verifyLeaseAndFence start token stage generation
  | none => verifyLease start token stage

/-! ### Submission and approval -/

/-- The row of a submitted request. -/
def DeletionRequest.new (start : ℤ) (communityHost requestedBy : String)
    (reason : Option String) : DeletionRequest where
  communityHost := communityHost
  stage := .submitted
  requestedBy := requestedBy
  reason := reason
  schemaManifest := none
  storageManifest := none
  destructiveStorageManifest := none
  destructiveStorageFrozenAt := none
  inventoryManifest := none
  inventoryDigest := none
  fenceGeneration := none
  leaseOwner := none
  leaseGeneration := 0
  leaseUntil := none
  retryCount := 0
  retryStage := none
  nextAttemptAt := start
  lastError := none
  blockedReason := none
  createdAt := start
  preQuiesceArchivedAt := none
  quiescingStartedAt := none
  abortedBy := none
  abortReason := none
  abortedAt := none
  completedAt := none

namespace Tables

/-- The community may be submitted. -/
def submittable (t : Tables) (host : String) : Bool :=
  t.community.host.toLower = host.toLower && t.community.deletionState = .active &&
    t.community.deletedAt.isNone

/-- A request that is not aborted. -/
def activeRequest (t : Tables) : Bool :=
  Table.existsWhere (fun _ r => r.stage ≠ .aborted) t.requests

end Tables

/-- `DeletionStore::submit`, with the identity that the database generates. -/
def submit (start : ℤ) (requestId : Uuid) (communityHost requestedBy : String)
    (reason : Option String) : Tx (Uuid × DeletionRequest) := do
  let refused := DbError.deletionSafety (s!"community {repr communityHost} is missing, " ++
    "already requested, fenced, or tombstoned")
  let t ← read
  require (t.submittable communityHost) refused
  let host := t.community.host
  lock .activeRequest .exclusive
  lock (.request requestId) .exclusive
  let t ← read
  if t.activeRequest then
    okOr refused (Table.selectWhere
      (fun _ r => r.stage = .submitted && r.requestedBy = requestedBy) t.requests)
  else do
    require (t.requests.lookup requestId).isNone (.database "duplicate key")
    let r := DeletionRequest.new start host requestedBy reason
    write (·.insertRequest requestId r)
    return (requestId, r)

/-- `DeletionStore::get`. -/
def getRequest (requestId : Uuid) : Tx DeletionRequest := do
  let t ← read
  okOr (.notFound s!"community deletion {uuidToString requestId}") (t.requests.lookup requestId)

/-- `validate_storage_manifest`. -/
def validateStorageManifest (manifest : StorageManifest) : Except DbError Unit := do
  if manifest.version ≠ 4 then
    .error (.deletionSafety s!"unsupported storage manifest version {manifest.version}")
  if manifest.prefixes.isEmpty then
    .error (.deletionSafety "storage manifest has no tenant prefixes")
  if ¬ (manifest.prefixes.map (·.keyPrefix)).IsChain (· < ·) then
    .error (.deletionSafety "storage manifest prefixes are not strictly sorted")
  for p in manifest.prefixes do
    if p.keyPrefix.isEmpty then
      .error (.deletionSafety "storage manifest contains an empty prefix")
    if p.keysDigest.length ≠ 64 || !p.keysDigest.all fun c => c.isDigit || ('a' ≤ c && c ≤ 'f') then
      .error (.deletionSafety
        s!"storage manifest digest for {String.ofList p.keyPrefix} is not lowercase hex sha-256")

/-- A pure check inside of a transaction. -/
def checked {α : Type} : Except DbError α → Tx α
  | .ok a => return a
  | .error e => Interaction.fail e

namespace DeletionRequest

def unblockedAt (r : DeletionRequest) (stage : DeletionStage) : Bool :=
  r.stage = stage && r.blockedReason.isNone

def inventoried (r : DeletionRequest) (hashing : Hashing) (inventory : FrozenInventory) :
    DeletionRequest :=
  { r with
    stage := .inventoried
    schemaManifest := some inventory.schema
    storageManifest := some inventory.storage
    inventoryManifest := some inventory
    inventoryDigest := some (inventory.digest hashing)
    lastError := none }

def markedApproved (r : DeletionRequest) (start : ℤ) : DeletionRequest :=
  { r with stage := .approved, nextAttemptAt := start }

end DeletionRequest

/-- `DeletionStore::freeze_inventory`. -/
def freezeInventory (hashing : Hashing) (requestId : Uuid) (inventory : FrozenInventory) :
    Tx DeletionRequest := do
  checked (validateStorageManifest inventory.storage)
  let r ← updateRequest requestId (fun _ r => r.unblockedAt .submitted)
    (·.inventoried hashing inventory)
  okOr (.deletionSafety
    s!"deletion {uuidToString requestId} is not an unblocked submitted request") r

/-- `DeletionStore::approve`. -/
def approve (hashing : Hashing) (start : ℤ) (requestId : Uuid) (approvedBy : String)
    (note : Option String) : Tx DeletionRequest := do
  let r ← selectRequestForUpdate requestId (·.unblockedAt .inventoried)
  let r ← okOr (.deletionSafety
    s!"deletion {uuidToString requestId} is not an unblocked inventoried request") r
  let digest ← okOr (.database "unexpected null") r.inventoryDigest
  let inventory ← okOr (.database "unexpected null") r.inventoryManifest
  require (digest = inventory.digest hashing) (.deletionSafety
    s!"deletion {uuidToString requestId} frozen inventory digest does not match its manifest")
  let t ← read
  require (t.approvals.lookup requestId).isNone (.database "duplicate key")
  write (·.insertApproval requestId ⟨digest, approvedBy, note⟩)
  let r ← updateRequest requestId (fun _ r => r.unblockedAt .inventoried) (·.markedApproved start)
  okOr (.deletionSafety
    s!"deletion {uuidToString requestId} changed before approval could be recorded") r

/-! ### Claims -/

/-- `EXPECTED_SCOPED_TABLES`. -/
def expectedScopedTables : List String :=
  ["api_tokens", "archived_identities", "audit_log", "channel_members", "channels",
    "community_bans", "delivery_log", "event_mentions", "events", "git_repo_names",
    "join_policy_acceptances", "moderation_actions", "moderation_reports",
    "parameterized_event_watermarks", "pubkey_allowlist", "push_leases", "push_match_queue",
    "push_wake_outbox", "reactions", "relay_invites", "relay_members", "scheduled_workflow_fires",
    "subscriptions", "thread_metadata", "users", "workflow_approvals", "workflow_runs",
    "workflows"]

/-- `validate_catalog_on`. -/
def validateCatalog (t : Tables) : Except DbError Unit := do
  if t.scopedTables ≠ expectedScopedTables.toFinset then
    .error (.deletionSafety "community deletion catalog drift")
  if t.fencedTables ≠ expectedScopedTables.toFinset then
    .error (.deletionSafety "community deletion write-fence drift")

namespace Tables

/-- A request may be claimed. -/
def claimable (t : Tables) (start : ℤ) (requestId : Uuid) (r : DeletionRequest) : Bool :=
  t.approved requestId r && r.stage.runnable && r.blockedReason.isNone &&
    decide (r.nextAttemptAt ≤ start) && !r.leaseLive start

/-- The requests that may be claimed, in the order of `claim`. -/
def candidates (t : Tables) (start : ℤ) (requestId : Option Uuid) : List Uuid :=
  ((t.requests.entries.filter fun e =>
      requestId.all (e.1 = ·) && t.claimable start e.1 e.2).insertionSort fun a b =>
    a.2.createdAt < b.2.createdAt ∨ (a.2.createdAt = b.2.createdAt ∧ a.1.toNat ≤ b.1.toNat)).map
      Sigma.fst

end Tables

/-- The first candidate that is not locked. -/
def selectCandidate (start : ℤ) : List Uuid → Tx (Option (Uuid × DeletionRequest))
  | [] => return none
  | requestId :: rest => do
    let locked ← tryLock (.request requestId)
    if locked then do
      let t ← read
      match (t.requests.lookup requestId).filter (t.claimable start requestId) with
      | some r => return some (requestId, r)
      | none => selectCandidate start rest
    else selectCandidate start rest

namespace DeletionRequest

def released (r : DeletionRequest) : DeletionRequest :=
  { r with leaseOwner := none, leaseUntil := none }

def blocked (r : DeletionRequest) (message : String) : DeletionRequest :=
  { r with blockedReason := some message, lastError := some message }

def claimed (r : DeletionRequest) (owner : String) (generation : ℕ) (leaseUntil : ℤ) :
    DeletionRequest :=
  { r with leaseOwner := some owner, leaseGeneration := generation, leaseUntil := some leaseUntil }

def renewed (r : DeletionRequest) (leaseUntil : ℤ) : DeletionRequest :=
  { r with leaseUntil := some leaseUntil }

end DeletionRequest

/-- The text of an error. -/
def errorText : DbError → String
  | .deletionSafety message => s!"deletion safety error: {message}"
  | .accessDenied message => s!"access denied: {message}"
  | .notFound message => s!"not found: {message}"
  | .invalidData message => s!"invalid data: {message}"
  | .servingWritesNotDrained activeCount operations =>
    s!"community still has {activeCount} active serving write lease(s): {operations}"
  | .database message => s!"database error: {message}"

/-- `DeletionStore::claim`. -/
def claim (start : ℤ) (requestId : Option Uuid) (owner : String) (seconds : ℕ) :
    Tx (Option ClaimedDeletion) := do
  let t ← read
  let candidate ← selectCandidate start (t.candidates start requestId)
  match candidate with
  | none => return none
  | some (requestId, r) => do
    let t ← read
    match validateCatalog t with
    | .error e => do
      let _ ← updateRequest requestId (fun _ _ => true) fun r =>
        (r.blocked (boundText (errorText e) 4096)).released
      return none
    | .ok _ => do
      let generation ← okOr (.database "bigint out of range") (checkedSucc r.leaseGeneration)
      let r ← updateRequest requestId (fun _ _ => true)
        (·.claimed owner generation (after start seconds))
      let r ← okOr (.database "no rows returned") r
      return some ⟨r, ⟨requestId, owner, generation, r.fenceGeneration⟩⟩

/-- `DeletionStore::heartbeat`, of the claim. -/
def heartbeat (start : ℤ) (token : LeaseToken) (seconds : ℕ) : Tx PUnit := do
  let r ← updateRequest token.requestId
    (fun t r => r.claimedBy token && r.leaseLive start && r.blockedReason.isNone &&
      r.stage.runnable && t.approved token.requestId r)
    (·.renewed (after start seconds))
  require r.isSome (staleLeaseError token)

/-- `DeletionStore::stop_executor`, of the claim. -/
def stopExecutor (token : Option LeaseToken) : Tx PUnit :=
  match token with
  | some token => do
    let _ ← updateRequest token.requestId (fun _ r => r.claimedBy token) (·.released)
    return ⟨⟩
  | none => return ⟨⟩

/-! ### Retries and blocks -/

namespace DeletionRequest

/-- A failed attempt at a stage; the eighth in a row blocks. -/
def retried (r : DeletionRequest) (start : ℤ) (stage : DeletionStage) (retries : ℕ)
    (message : String) (retryAfter : ℕ) : DeletionRequest :=
  let exhausted := 8 ≤ retries
  { r with
    retryCount := retries
    retryStage := some stage
    lastError := some message
    nextAttemptAt := if exhausted then r.nextAttemptAt else after start retryAfter
    blockedReason := if exhausted then some message else r.blockedReason
    leaseOwner := none
    leaseUntil := none }

def unblocked (r : DeletionRequest) (start : ℤ) : DeletionRequest :=
  { r with
    blockedReason := none
    retryCount := 0
    retryStage := none
    lastError := none
    nextAttemptAt := start
    leaseOwner := none
    leaseUntil := none }

end DeletionRequest

/-- `DeletionStore::record_retry`. -/
def recordRetry (start : ℤ) (token : LeaseToken) (stage : DeletionStage) (message : String)
    (retryAfter : ℕ) : Tx PUnit := do
  verifyLease start token stage
  let r ← selectRequestForUpdate token.requestId fun _ => true
  let r ← okOr (.database "no rows returned") r
  let retries := if r.retryStage = some stage then r.retryCount + 1 else 1
  let _ ← updateRequest token.requestId (fun _ r => r.claimedBy token)
    (·.retried start stage retries (boundText message 4096) retryAfter)
  return ⟨⟩

/-- `DeletionStore::block`. -/
def block (start : ℤ) (token : LeaseToken) (stage : DeletionStage) (message : String) :
    Tx PUnit := do
  verifyLease start token stage
  let _ ← updateRequest token.requestId (fun _ r => r.claimedBy token)
    fun r => (r.blocked (boundText message 4096)).released
  return ⟨⟩

/-- A claim that has not expired, on the clock of the client. -/
def DeletionRequest.leased (r : DeletionRequest) (clientNow : ℤ) : Bool :=
  r.leaseOwner.isSome && r.leaseLive clientNow

/-- `DeletionStore::unblock`. -/
def unblock (start : ℤ) (requestId : Uuid) (unblockedBy reason : String) (clientNow : ℤ) :
    Tx DeletionRequest := do
  require (!(trim unblockedBy).isEmpty && !(trim reason).isEmpty) (.invalidData
    "unblock requires non-empty operator identity and remediation reason")
  let r ← selectRequestForUpdate requestId (·.blockedReason.isSome)
  let r ← okOr (.deletionSafety
    s!"deletion {uuidToString requestId} is missing or is not blocked") r
  require (r.stage ≠ .retentionPending && r.stage ≠ .aborted) (.deletionSafety
    s!"blocked deletion {uuidToString requestId} cannot resume")
  require (!r.leased clientNow) (.deletionSafety
    s!"blocked deletion {uuidToString requestId} still has a live executor lease")
  let r ← updateRequest requestId (fun _ r => r.blockedReason.isSome) (·.unblocked start)
  okOr (.database "no rows returned") r

/-- `DeletionStore::block_preclaim_setup`. -/
def blockPreclaimSetup (requestId : Uuid) (message : String) (clientNow : ℤ) :
    Tx DeletionRequest := do
  let r ← selectRequestForUpdate requestId fun _ => true
  let r ← okOr (.notFound s!"community deletion {uuidToString requestId}") r
  require (r.stage ≠ .retentionPending && r.stage ≠ .aborted) (.deletionSafety
    s!"deletion {uuidToString requestId} cannot record a setup failure")
  require (!r.leased clientNow) (.deletionSafety
    s!"deletion {uuidToString requestId} is leased by another executor")
  let r ← updateRequest requestId (fun _ _ => true) (·.blocked (boundText message 4096))
  okOr (.database "no rows returned") r

end Buzz.Db.Deletion
