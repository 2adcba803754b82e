import Mathlib.Data.List.Sort
import Buzz.Db.Deletion.Lifecycle
import Buzz.Library.Transactions

/-!
# The write fence and serving leases

The functions of `0029_community_deletion.sql` that admit writes of a tenant, and the transactions
of `DeletionStore` for serving leases. Transactions are `READ COMMITTED`. A statement that writes a
row looks for it, locks it, and looks again; an inserted row is locked under its key.

## Main definitions

* `LockKey`, `Tx`, `Settings`.
* `assertCommunityWriteAllowed`, with its `Admission`; `communityWriteAllowed`.
* `guardTransaction`, `guardTransactionWithServingLease`, `tenantTransaction`.
* `acquireServingWriteLease`, `renewServingWriteLease`, `releaseServingWriteLease`,
  `verifyServingWriteLease`, `reapExpiredServingWriteLeases`.
-/

namespace Buzz.Db.Deletion

open Buzz.Core (Uuid uuidToString)
open Buzz.Library Buzz.Library.Transactions

/-- The advisory locks, the rows, and the entry of the unique index of active requests. -/
inductive LockKey
  | community
  | schemaDestruction
  | communityRow
  | request (id : Uuid)
  | lease (id : Uuid)
  | chunk (key : Uuid × ℕ)
  | activeRequest
  deriving DecidableEq

abbrev Tx (α : Type) := Transactions.Transaction LockKey Tables DbError α

/-- Settings of the transaction: `buzz.deletion_fence_generation` for the community, and
`buzz.serving_write_*`. -/
structure Settings where
  executor : Option ℕ
  serving : Option ServingWriteLease

def Settings.default : Settings := ⟨none, none⟩

/-- A number of seconds after a time. -/
def after (start : ℤ) (seconds : ℕ) : ℤ := start + seconds * 1000000

namespace Tables

/-- Whether the lease has a row that has not expired. -/
def leaseValid (t : Tables) (start : ℤ) (lease : ServingWriteLease) : Bool :=
  (t.leases.lookup lease.id).any fun row =>
    row.owner = lease.owner && row.generation = lease.generation &&
      row.fenceGeneration = lease.fenceGeneration && decide (start ≤ row.leaseUntil)

/-- Whether the lease may be used, in the community as it is. -/
def leaseCurrent (t : Tables) (start : ℤ) (lease : ServingWriteLease) : Bool :=
  t.leaseValid start lease && t.community.deletedAt.isNone &&
    (t.community.deletionState = .active || t.community.deletionState = .quiescing) &&
    t.community.deletionFenceGeneration = lease.fenceGeneration

/-- Whether the row of a lease is the one of the token. -/
def leaseOwned (t : Tables) (lease : ServingWriteLease) : Bool :=
  (t.leases.lookup lease.id).any fun row =>
    row.owner = lease.owner && row.generation = lease.generation &&
      row.fenceGeneration = lease.fenceGeneration

def insertLease (t : Tables) (leaseId : Uuid) (row : ServingLease) : Tables :=
  { t with leases := t.leases.insert leaseId row }

/-- The row of a lease that is acquired. -/
def issue (t : Tables) (lease : ServingWriteLease) : Tables :=
  { t.insertLease lease.id ⟨lease.operation, lease.owner, lease.generation, lease.fenceGeneration,
      lease.leaseUntil⟩ with
    issued := lease :: t.issued }

def modifyLease (t : Tables) (leaseId : Uuid) (f : ServingLease → ServingLease) : Tables :=
  match t.leases.lookup leaseId with
  | some row => t.insertLease leaseId (f row)
  | none => t

def eraseLease (t : Tables) (leaseId : Uuid) : Tables :=
  { t with leases := t.leases.erase leaseId }

def setRows (t : Tables) (table : String) (f : List String → List String) : Tables :=
  { t with rows := Function.update t.rows table (f (t.rows table)) }

end Tables

/-! ### Writes of a tenant -/

/-- The branch that admits a write. -/
inductive Admission
  | executor
  | serving (lease : ServingWriteLease)
  | active
  deriving DecidableEq

/-- `community_write_allowed`. -/
def communityWriteAllowed : Tx Bool := do
  lock .community .shared
  let t ← read
  return t.community.deletionState = .active

/-- The last branch of `assert_community_write_allowed`. -/
def assertActive (t : Tables) : Tx Admission :=
  if t.community.deletionState = .active then return .active
  else Interaction.fail (.database "community write fenced")

/-- `assert_community_write_allowed`, with the branch that admits. -/
def assertCommunityWriteAllowed (start : ℤ) (settings : Settings) : Tx Admission := do
  lock .community .shared
  let t ← read
  if settings.executor = some t.community.deletionFenceGeneration then return .executor
  else
    match settings.serving with
    | some lease =>
      if (t.community.deletionState = .active || t.community.deletionState = .quiescing) &&
          lease.fenceGeneration = t.community.deletionFenceGeneration then do
        -- a statement of its own
        let t' ← read
        if t'.leaseValid start lease then return .serving lease else assertActive t
      else assertActive t
    | none => assertActive t

/-- `DeletionStore::guard_transaction`. -/
def guardTransaction : Tx PUnit := do
  lock .community .shared
  let t ← read
  require (t.community.deletedAt.isNone && t.community.deletionState = .active)
    (.accessDenied "community is write-fenced")

/-- `DeletionStore::guard_transaction_with_serving_lease`, up to the settings. -/
def guardTransactionWithServingLease (start : ℤ) (lease : ServingWriteLease) : Tx PUnit := do
  lock .community .shared
  let t ← read
  require (t.leaseCurrent start lease) (.accessDenied "stale serving write lease")

/-- What a tenant does in a transaction. A fleet-wide writer filters its rows first. -/
inductive TenantStatement
  | guard
  | guardWithServingLease (lease : ServingWriteLease)
  | write (table : String) (f : List String → List String)
  | writeAllowed (table : String) (f : List String → List String)

/-- The statements of a tenant, with the trigger before each row, and how it was admitted. -/
def tenantStatements (start : ℤ) (settings : Settings) : List TenantStatement → Tx (List Admission)
  | [] => return []
  | .guard :: rest => do
    guardTransaction
    tenantStatements start settings rest
  | .guardWithServingLease lease :: rest => do
    guardTransactionWithServingLease start lease
    tenantStatements start { settings with serving := some lease } rest
  | .write table f :: rest => do
    let admission ← assertCommunityWriteAllowed start settings
    write (·.setRows table f)
    let admissions ← tenantStatements start settings rest
    return admission :: admissions
  | .writeAllowed table f :: rest => do
    let allowed ← communityWriteAllowed
    if allowed then do
      let admission ← assertCommunityWriteAllowed start settings
      write (·.setRows table f)
      let admissions ← tenantStatements start settings rest
      return admission :: admissions
    else tenantStatements start settings rest

/-- A transaction of a tenant, which does not set the executor. -/
def tenantTransaction (start : ℤ) (statements : List TenantStatement) : Tx (List Admission) :=
  tenantStatements start .default statements

/-! ### Serving leases -/

/-- `DeletionStore::acquire_serving_write_lease`. -/
def acquireServingWriteLease (start : ℤ) (leaseId : Uuid) (operation owner : String)
    (seconds : ℕ) : Tx ServingWriteLease := do
  let _ ← assertCommunityWriteAllowed start .default
  lock (.lease leaseId) .exclusive
  let t ← read
  require (t.community.deletionState = .active && t.community.deletedAt.isNone)
    (.accessDenied "community is write-fenced or missing")
  require (t.leases.lookup leaseId).isNone (.database "duplicate key")
  let generation := t.community.deletionFenceGeneration
  let lease : ServingWriteLease :=
    ⟨leaseId, operation, owner, 1, generation, after start seconds⟩
  write (·.issue lease)
  return lease

/-- `DeletionStore::renew_serving_write_lease`. -/
def renewServingWriteLease (start : ℤ) (lease : ServingWriteLease) (seconds : ℕ) : Tx ℤ := do
  lock .community .shared
  let t ← read
  require (t.leaseCurrent start lease) (.accessDenied "stale serving write lease")
  lock (.lease lease.id) .exclusive
  let t ← read
  require (t.leaseCurrent start lease) (.accessDenied "stale serving write lease")
  write (·.modifyLease lease.id fun row => { row with leaseUntil := after start seconds })
  return after start seconds

/-- `DeletionStore::release_serving_write_lease`. -/
def releaseServingWriteLease (lease : ServingWriteLease) : Tx Bool := do
  let t ← read
  if t.leaseOwned lease then do
    lock (.lease lease.id) .exclusive
    let t ← read
    if t.leaseOwned lease then do
      write (·.eraseLease lease.id)
      return true
    else return false
  else return false

/-- `DeletionStore::verify_serving_write_lease`. -/
def verifyServingWriteLease (start : ℤ) (lease : ServingWriteLease) : Tx PUnit := do
  lock .community .shared
  let t ← read
  require (t.leaseCurrent start lease) (.accessDenied "stale serving write lease")

/-- Whether the lease has a row that has expired. -/
def Tables.leaseExpired (t : Tables) (start : ℤ) (leaseId : Uuid) : Bool :=
  (t.leases.lookup leaseId).any fun row => row.leaseUntil < start

/-- The expired leases that are not locked, up to a limit, are deleted. -/
def reapLeases (start : ℤ) : ℕ → List Uuid → Tx ℕ
  | 0, _ => return 0
  | _ + 1, [] => return 0
  | limit + 1, leaseId :: rest => do
    let locked ← tryLock (.lease leaseId)
    if locked then do
      let t ← read
      if t.leaseExpired start leaseId then do
        write (·.eraseLease leaseId)
        let reaped ← reapLeases start limit rest
        return reaped + 1
      else reapLeases start (limit + 1) rest
    else reapLeases start (limit + 1) rest

/-- `DeletionStore::reap_expired_serving_write_leases`. -/
def reapExpiredServingWriteLeases (start : ℤ) (limit : ℤ) : Tx ℕ := do
  let t ← read
  let expired := (t.leases.entries.filter fun e => e.2.leaseUntil < start).insertionSort
    fun a b => a.2.leaseUntil ≤ b.2.leaseUntil
  reapLeases start (max 1 (min limit 10000)).toNat (expired.map Sigma.fst)

end Buzz.Db.Deletion
