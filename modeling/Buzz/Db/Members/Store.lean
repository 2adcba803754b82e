import Buzz.Db.Deletion.Lifecycle
import Buzz.Library.Table
import Buzz.Library.Text
import Buzz.Library.Transactions

/-!
# Relay members

The transactions of `relay_members.rs` that change the members of a community and their roles, and
`Db::create_community_with_owner`. Transactions are `READ COMMITTED`. A statement that changes rows
finds them, and locks each of them and looks at it again; an insert locks the key of its row. Left
out are the write fence, which only refuses, and invites, whose claims insert a member as
`add_relay_member` does.

## Main definitions

* `Tables`, `LockKey`, `Tx`, `Failure`.
* `insertMember`, `deleteMember`, `updateFound`, `upsertOwner`, `selectOwnersForUpdate`,
  `demoteOwners`: statements.
* `addRelayMember`, `removeRelayMember`, `removeRelayMemberIfRole`, `updateRelayMemberRole`,
  `bootstrapOwner`, `transferOwnership`, `createCommunityWithOwner`.
* `Op`, with its `Op.program`.
-/

namespace Buzz.Db.Members

open Buzz.Core (Uuid)
open Buzz.Db.Deletion (Community)
open Buzz.Library Buzz.Library.Transactions

/-! ### Tables -/

/-- The roles that `relay_members` admits. -/
inductive Role
  | owner
  | admin
  | member
  deriving DecidableEq

/-- A row of `relay_members`, under its community and public key. -/
structure RelayMember where
  role : Role
  addedBy : Option String
  createdAt : ℤ
  updatedAt : ℤ

abbrev MemberKey := Uuid × String

structure Tables where
  communities : HashMap Uuid Community
  members : HashMap MemberKey RelayMember

/-- The advisory locks of owners, entries of the unique index of hosts, and rows. -/
inductive LockKey
  | ownerCount (key : UInt64)
  | host (lowered : String)
  | community (id : Uuid)
  | member (key : MemberKey)

/-- Why a transaction is rolled back: with the result `LimitReached`, or with an error. -/
inductive Failure
  | limitReached
  | database (message : String)

abbrev Tx (α : Type) := Transactions.Transaction LockKey Tables Failure α

namespace Tables

/-- A row of a member is written, or deleted. -/
def setMember (t : Tables) (k : MemberKey) : Option RelayMember → Tables
  | some r => { t with members := t.members.insert k r }
  | none => { t with members := t.members.erase k }

def insertCommunity (t : Tables) (id : Uuid) (c : Community) : Tables :=
  { t with communities := t.communities.insert id c }

/-- The role of a member. -/
def role (t : Tables) (k : MemberKey) : Option Role := (t.members.lookup k).map (·.role)

/-- The owners of a community. -/
def ownersOf (t : Tables) (c : Uuid) : List MemberKey :=
  (t.members.entries.filter fun e => e.1.1 = c && e.2.role = .owner).map (·.1)

/-- `SELECT count(*) FROM relay_members WHERE pubkey = … AND role = 'owner'`. -/
def ownedBy (t : Tables) (pubkey : String) : ℕ :=
  Table.countWhere (fun k r => k.2 = pubkey && r.role = .owner) t.members

end Tables

/-! ### Texts -/

/-- `str::to_ascii_lowercase`. -/
def toAsciiLowercase (text : String) : String := String.ofList (asciiLower text.toList)

/-- `owner_count_advisory_lock_key`, FNV-1a, read as unsigned. -/
def ownerCountAdvisoryLockKey (pubkey : String) : UInt64 :=
  pubkey.toUTF8.toList.foldl (fun h b => (h ^^^ b.toUInt64) * 0x100000001b3) 0xcbf29ce484222325

/-! ### Statements -/

/-- `INSERT INTO relay_members … ON CONFLICT DO NOTHING`, and whether it inserts. On a conflict it
waits where the row is being deleted, but not where it is only locked. -/
def insertMember (waits : Bool) (k : MemberKey) (r : RelayMember) : Tx Bool := do
  let t ← read
  if (t.members.lookup k).isSome && !waits then return false
  else do
    lock (.member k) .exclusive
    let t ← read
    if (t.members.lookup k).isSome then return false
    else do
      require (t.communities.lookup k.1).isSome (.database "violates foreign key constraint")
      write (·.setMember k (some r))
      return true

/-- `DELETE FROM relay_members WHERE … AND p`, and whether it deletes. -/
def deleteMember (k : MemberKey) (p : Role → Bool) : Tx Bool := do
  let t ← read
  if (t.role k).any p then do
    lock (.member k) .exclusive
    let t ← read
    if (t.role k).any p then do
      write (·.setMember k none)
      return true
    else return false
  else return false

/-- `UPDATE relay_members … WHERE … AND p`, on one row that is found, and whether it updates. -/
def updateFound (start : ℤ) (role : Role) (p : Role → Bool) (k : MemberKey) : Tx Bool := do
  lock (.member k) .exclusive
  let t ← read
  match (t.members.lookup k).filter fun r => p r.role with
  | some r => do
    write (·.setMember k (some { r with role := role, updatedAt := start }))
    return true
  | none => return false

/-- `INSERT INTO relay_members … 'owner' … ON CONFLICT DO UPDATE SET role = 'owner'`. -/
def upsertOwner (start : ℤ) (k : MemberKey) : Tx PUnit := do
  lock (.member k) .exclusive
  let t ← read
  match t.members.lookup k with
  | some r => write (·.setMember k (some { r with role := .owner, updatedAt := start }))
  | none => do
    require (t.communities.lookup k.1).isSome (.database "violates foreign key constraint")
    write (·.setMember k (some ⟨.owner, none, start, start⟩))

/-- The rows that are found are locked, and those that are still of an owner are left. -/
def lockOwners : List MemberKey → Tx (List MemberKey)
  | [] => return []
  | k :: found => do
    lock (.member k) .exclusive
    let t ← read
    let rest ← lockOwners found
    return if t.role k = some .owner then k :: rest else rest

/-- `SELECT pubkey FROM relay_members WHERE … AND role = 'owner' FOR UPDATE`. -/
def selectOwnersForUpdate (c : Uuid) : Tx (List MemberKey) := do
  let t ← read
  lockOwners (t.ownersOf c)

def demoteFound (start : ℤ) (role : Role) : List MemberKey → Tx PUnit
  | [] => return ⟨⟩
  | k :: found => do
    let _ ← updateFound start role (· = .owner) k
    demoteFound start role found

/-- `UPDATE relay_members SET role = … WHERE … AND role = 'owner' AND pubkey <> …`. -/
def demoteOwners (start : ℤ) (k : MemberKey) (role : Role) : Tx PUnit := do
  let t ← read
  demoteFound start role ((t.ownersOf k.1).filter (· ≠ k))

/-! ### Members -/

/-- `add_relay_member`. -/
def addRelayMember (start : ℤ) (waits : Bool) (c : Uuid) (pubkey : String) (role : Role)
    (addedBy : Option String) : Tx Bool :=
  insertMember waits (c, pubkey) ⟨role, addedBy, start, start⟩

inductive RemoveResult
  | removed
  | isOwner
  | notFound
  | roleMismatch

/-- `remove_relay_member`, with its two statements in one transaction. -/
def removeRelayMember (c : Uuid) (pubkey : String) : Tx RemoveResult := do
  if ← deleteMember (c, pubkey) (· ≠ .owner) then return .removed
  else do
    let t ← read
    return if (t.members.lookup (c, pubkey)).isSome then .isOwner else .notFound

/-- `remove_relay_member_if_role`, with its two statements in one transaction. -/
def removeRelayMemberIfRole (c : Uuid) (pubkey : String) (expectedRole : Role) :
    Tx RemoveResult := do
  if ← deleteMember (c, pubkey) (· = expectedRole) then return .removed
  else do
    let t ← read
    match t.role (c, pubkey) with
    | none => return .notFound
    | some role => return if role = .owner then .isOwner else .roleMismatch

/-- `update_relay_member_role`. -/
def updateRelayMemberRole (start : ℤ) (c : Uuid) (pubkey : String) (newRole : Role) :
    Tx Bool := do
  let t ← read
  if (t.role (c, pubkey)).any (· ≠ .owner) then
    updateFound start newRole (· ≠ .owner) (c, pubkey)
  else return false

/-- `bootstrap_owner`. -/
def bootstrapOwner (start : ℤ) (c : Uuid) (ownerPubkey : String) : Tx PUnit := do
  let pubkey := toAsciiLowercase ownerPubkey
  upsertOwner start (c, pubkey)
  demoteOwners start (c, pubkey) .admin

inductive TransferResult
  | transferred (previousOwner : Option String)
  | alreadyOwner
  | noOwner
  | ownerConflict
  | limitReached

/-- The previous owner that is reported. -/
def previousOwner (pubkey : String) : List String → Option String
  | [owner] => some owner
  | owners => owners.find? (· ≠ pubkey)

/-- `transfer_ownership`, under the limit `max_communities_per_owner`. -/
def transferOwnership (limit : ℕ) (start : ℤ) (c : Uuid)
    (newOwnerPubkey expectedOwnerPubkey : String) : Tx TransferResult := do
  let pubkey := toAsciiLowercase newOwnerPubkey
  lock (.ownerCount (ownerCountAdvisoryLockKey pubkey)) .exclusive
  let owners ← selectOwnersForUpdate c
  let existingOwners := owners.map (·.2)
  if existingOwners = [] then return .noOwner
  else if toAsciiLowercase expectedOwnerPubkey ∉ existingOwners then return .ownerConflict
  else if existingOwners = [pubkey] then return .alreadyOwner
  else do
    let t ← read
    if limit ≤ t.ownedBy pubkey then return .limitReached
    else do
      upsertOwner start (c, pubkey)
      demoteOwners start (c, pubkey) .member
      return .transferred (previousOwner pubkey existingOwners)

/-- A community row as it is inserted. -/
def newCommunity (host : String) : Community := ⟨host, .active, 0, none, none, none, none⟩

inductive CreateCommunityResult
  | created (id : Uuid) (host : String)
  | hostExists

/-- The community that a retry by its owner is given. -/
def ownedCommunity (t : Tables) (host ownerPubkey : String) : Option (Uuid × Community) :=
  Table.selectWhere (fun id c => c.host.toLower = host.toLower && c.archivedAt.isNone &&
    c.deletionState = .active && c.deletedAt.isNone && Table.existsWhere (fun k r => k.1 = id &&
      k.2.toLower = ownerPubkey.toLower && r.role = .owner) t.members) t.communities

/-- `Db::create_community_with_owner`, with the identity that the database generates. -/
def createCommunityWithOwner (limit : ℕ) (start : ℤ) (id : Uuid)
    (normalizedHost ownerPubkey : String) : Tx CreateCommunityResult := do
  let owner := toAsciiLowercase ownerPubkey
  lock (.ownerCount (ownerCountAdvisoryLockKey owner)) .exclusive
  lock (.host normalizedHost.toLower) .exclusive
  let t ← read
  if Table.existsWhere (fun _ c => c.host.toLower = normalizedHost.toLower) t.communities then do
    let t ← read
    match ownedCommunity t normalizedHost owner with
    | some (id, c) => return .created id c.host
    | none => return .hostExists
  else do
    lock (.community id) .exclusive
    let t ← read
    require (t.communities.lookup id).isNone (.database "duplicate key")
    write (·.insertCommunity id (newCommunity normalizedHost))
    let t ← read
    -- the community is rolled back
    if limit ≤ t.ownedBy owner then Interaction.fail .limitReached
    else do
      lock (.member (id, owner)) .exclusive
      let t ← read
      require (t.members.lookup (id, owner)).isNone (.database "duplicate key")
      write (·.setMember (id, owner) (some ⟨.owner, none, start, start⟩))
      return .created id normalizedHost

/-! ### Operations -/

inductive Op
  | addRelayMember (waits : Bool) (c : Uuid) (pubkey : String) (role : Role)
      (addedBy : Option String)
  | removeRelayMember (c : Uuid) (pubkey : String)
  | removeRelayMemberIfRole (c : Uuid) (pubkey : String) (expectedRole : Role)
  | updateRelayMemberRole (c : Uuid) (pubkey : String) (newRole : Role)
  | bootstrapOwner (c : Uuid) (ownerPubkey : String)
  | transferOwnership (c : Uuid) (newOwnerPubkey expectedOwnerPubkey : String)
  | createCommunityWithOwner (id : Uuid) (normalizedHost ownerPubkey : String)

namespace Op

def Result : Op → Type
  | .addRelayMember .. | .updateRelayMemberRole .. => Bool
  | .removeRelayMember .. | .removeRelayMemberIfRole .. => RemoveResult
  | .bootstrapOwner .. => PUnit
  | .transferOwnership .. => TransferResult
  | .createCommunityWithOwner .. => CreateCommunityResult

/-- The transaction of an operation, with the time at which it starts. -/
def program (limit : ℕ) : (op : Op) → ℤ → Tx op.Result
  | .addRelayMember waits c pubkey role addedBy, start =>
    Members.addRelayMember start waits c pubkey role addedBy
  | .removeRelayMember c pubkey, _ => Members.removeRelayMember c pubkey
  | .removeRelayMemberIfRole c pubkey expectedRole, _ =>
    Members.removeRelayMemberIfRole c pubkey expectedRole
  | .updateRelayMemberRole c pubkey newRole, start =>
    Members.updateRelayMemberRole start c pubkey newRole
  | .bootstrapOwner c ownerPubkey, start => Members.bootstrapOwner start c ownerPubkey
  | .transferOwnership c newOwnerPubkey expectedOwnerPubkey, start =>
    Members.transferOwnership limit start c newOwnerPubkey expectedOwnerPubkey
  | .createCommunityWithOwner id normalizedHost ownerPubkey, start =>
    Members.createCommunityWithOwner limit start id normalizedHost ownerPubkey

end Op

end Buzz.Db.Members
