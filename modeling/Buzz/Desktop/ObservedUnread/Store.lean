import Mathlib.Data.Prod.Lex
import Mathlib.Data.String.Basic
import Buzz.Library.Difference
import Buzz.Library.Json
import Buzz.Library.Sorting
import Buzz.Library.Table

/-!
# The store of observed unread events

`observed_unread.rs`: the rows of one scope (every statement is restricted to a scope), the two
commands, and their responses. A command is a transaction: it returns the rows that it commits, or
fails and commits nothing. The clock and the identifier of a new scope are arguments. An object of
a JSON value is the list of its members in the order of an iteration, with different names.

## Main definitions

* `Database`, `IngestRequest`, `OpenScopeRequest`, `Response`.
* `prune`, `projections`.
* `openScope`, `ingest`.

## Main results

* `projections_congr`: a projection depends on the latest times, the markers and the unread events.
* `nodup_projections`: a projection has one entry a channel.
-/

namespace Buzz.Desktop.ObservedUnread

open Library

def PER_CHANNEL_CAP : ℕ := 1000

def GLOBAL_CAP : ℕ := 5000

def HORIZON_SECONDS : ℤ := 7 * 24 * 60 * 60

/-! ### Requests and responses -/

structure IngestEvent where
  channelId : String
  id : String
  createdAt : ℕ
  rootId : Option String
  highPriority : Bool
  countsTowardBadge : Bool
  countsTowardAppBadge : Bool
  deriving DecidableEq

structure ChannelLatestUpdate where
  channelId : String
  createdAt : ℕ

structure MarkerUpdate where
  contextId : String
  readAt : Option ℕ

structure MembershipUpdate where
  kind : String
  value : String
  present : Bool

structure MembershipSeed where
  participatedRootIds : List String
  authoredRootIds : List String
  mentionedRootIds : List String
  followedRootIds : List String
  mutedRootIds : List String
  mutedChannelIds : List String

structure OpenScopeRequest where
  legacyPayload : Option Json
  membershipSeed : Option MembershipSeed

structure IngestRequest where
  sequence : ℕ
  baseRevision : ℕ
  events : List IngestEvent
  channelLatest : List ChannelLatestUpdate
  markers : List MarkerUpdate
  membership : List MembershipUpdate
  clearChannels : List String
  clearAll : Bool

structure ChannelProjection where
  channelId : String
  latest : ℕ
  count : ℕ
  badgeCount : ℕ
  appBadgeCount : ℕ
  topLevelUnread : Bool
  highPriorityUnread : Bool
  deriving DecidableEq

inductive Response
  | snapshot (generation : String) (revision lastAckedSequence : ℕ)
      (migrationComplete membershipSeeded : Bool) (channels : List ChannelProjection)
  | delta (generation : String) (baseRevision revision ackedSequence : ℕ)
      (upserts : List ChannelProjection) (removed : List String)
  | snapshotRequired (generation : String) (revision lastAckedSequence : ℕ)
  deriving DecidableEq

/-! ### Rows -/

structure ScopeState where
  generation : String
  revision : ℕ
  lastSequence : ℕ
  migrationComplete : Bool
  membershipSeeded : Bool

/-- The rows of a scope. -/
structure Database where
  scopeState : Option ScopeState
  observedEvents : HashMap String IngestEvent
  channelLatest : HashMap String ℕ
  readMarkers : HashMap String ℕ
  unreadMembership : List (String × String)

namespace Database

/-- `ensure_scope` and `state`. -/
def state (db : Database) (uuid : String) : ScopeState :=
  db.scopeState.getD ⟨uuid, 0, 0, false, false⟩

def revision (db : Database) : ℕ := (db.state "").revision

def lastSequence (db : Database) : ℕ := (db.state "").lastSequence

theorem revision_state (db : Database) (uuid : String) :
    (db.state uuid).revision = db.revision := by
  rw [revision, state, state]
  cases db.scopeState <;> rfl

theorem lastSequence_state (db : Database) (uuid : String) :
    (db.state uuid).lastSequence = db.lastSequence := by
  rw [lastSequence, state, state]
  cases db.scopeState <;> rfl

end Database

/-- An unsigned number as a parameter of a statement. -/
def toSql (context : String) (n : ℕ) : Except String ℕ :=
  if n < 2 ^ 63 then .ok n
  else .error (context ++ ": out of range integral type conversion attempted")

def upsertEvent (db : Database) (event : IngestEvent) : Except String Database := do
  let _ ← toSql "upsert observed-unread event" event.createdAt
  return { db with observedEvents := Table.insertNew db.observedEvents event.id event }

/-- `ON CONFLICT DO UPDATE SET … = MAX(…)`. -/
def upsertMax (m : HashMap String ℕ) (k : String) (t : ℕ) : HashMap String ℕ :=
  m.insert k (max ((m.lookup k).getD 0) t)

def advanceChannelLatest (db : Database) (channelId : String) (createdAt : ℕ) :
    Except String Database := do
  let createdAt ← toSql "advance channel latest" createdAt
  return { db with channelLatest := upsertMax db.channelLatest channelId createdAt }

def insertMembership (rows : List (String × String)) (row : String × String) :
    List (String × String) :=
  if row ∈ rows then rows else rows ++ [row]

/-- The rows of `seed_membership`. -/
def seedMembership (seed : MembershipSeed) : List (String × String) :=
  [("participated", seed.participatedRootIds), ("authored", seed.authoredRootIds),
    ("mentioned", seed.mentionedRootIds), ("followed", seed.followedRootIds),
    ("muted_root", seed.mutedRootIds), ("muted_channel", seed.mutedChannelIds)].foldl
    (fun rows kind => kind.2.foldl (fun rows value => insertMembership rows (kind.1, value)) rows)
    []

/-! ### Pruning -/

/-- The order of the ranks: the latest first, and the greater identifier of one time. -/
def newer (e f : IngestEvent) : Bool :=
  decide (f.createdAt < e.createdAt ∨ f.createdAt = e.createdAt ∧ f.id < e.id)

/-- `prune`, at a time: by age, by the rank in the channel, and by the rank in the scope. -/
def prune (now : ℤ) (events : HashMap String IngestEvent) : HashMap String IngestEvent :=
  let aged := events.retain fun _ e => decide (now - HORIZON_SECONDS < e.createdAt)
  let capped := aged.retain fun _ e => decide (Table.countWhere
    (fun _ f => decide (f.channelId = e.channelId) && newer f e) aged < PER_CHANNEL_CAP)
  capped.retain fun _ e => decide (Table.countWhere (fun _ f => newer f e) capped < GLOBAL_CAP)

/-! ### Projections -/

def marker (markers : HashMap String ℕ) (key : String) : ℕ := (markers.lookup key).getD 0

def readAt (markers : HashMap String ℕ) (e : IngestEvent) : ℕ :=
  let t := max (marker markers e.channelId) (marker markers ("msg:" ++ e.id))
  match e.rootId with
  | some root => max t (marker markers ("thread:" ++ root))
  | none => t

/-- The events of a query, with those that are read left out. -/
def unreadEvents (db : Database) : List IngestEvent :=
  (sortByKey (fun e => toLex (e.channelId, toLex (e.createdAt, e.id)))
    (db.observedEvents.entries.map (·.2))).filter fun e =>
      decide (readAt db.readMarkers e < e.createdAt)

def blank (channelId : String) (latest : ℕ) : ChannelProjection :=
  ⟨channelId, latest, 0, 0, 0, false, false⟩

/-- The body of the loop, for an event that is not read. -/
def observe (byChannel : HashMap String ChannelProjection) (e : IngestEvent) :
    HashMap String ChannelProjection :=
  let entry := (byChannel.lookup e.channelId).getD (blank e.channelId 0)
  byChannel.insert e.channelId
    { entry with
      latest := max entry.latest e.createdAt
      count := entry.count + 1
      badgeCount := entry.badgeCount + e.countsTowardBadge.toNat
      appBadgeCount := entry.appBadgeCount + e.countsTowardAppBadge.toNat
      topLevelUnread := entry.topLevelUnread || e.rootId.isNone
      highPriorityUnread := entry.highPriorityUnread || e.highPriority }

def byChannel (db : Database) : HashMap String ChannelProjection :=
  (unreadEvents db).foldl observe
    (db.channelLatest.entries.foldl (fun m e => m.insert e.1 (blank e.1 e.2)) ∅)

def projections (db : Database) : List ChannelProjection :=
  sortByKey (·.channelId) ((byChannel db).entries.map (·.2))

theorem projections_congr {db db' : Database} (hlatest : db.channelLatest = db'.channelLatest)
    (hunread : unreadEvents db = unreadEvents db') : projections db = projections db' := by
  rw [projections, projections, byChannel, byChannel, hlatest, hunread]

/-- Every projection is under its channel. -/
def Keyed (m : HashMap String ChannelProjection) : Prop :=
  ∀ k p, m.lookup k = some p → p.channelId = k

theorem keyed_byChannel (db : Database) : Keyed (byChannel db) := by
  have hlatest (l : List (Σ _ : String, ℕ)) (m : HashMap String ChannelProjection)
      (hm : Keyed m) : Keyed (l.foldl (fun m e => m.insert e.1 (blank e.1 e.2)) m) := by
    induction l generalizing m with
    | nil => exact hm
    | cons e l ih => exact ih _ (HashMap.forall_lookup_insert hm rfl)
  have hunread (l : List IngestEvent) (m : HashMap String ChannelProjection) (hm : Keyed m) :
      Keyed (l.foldl observe m) := by
    induction l generalizing m with
    | nil => exact hm
    | cons e l ih =>
      refine ih _ (HashMap.forall_lookup_insert hm ?_)
      cases hlookup : m.lookup e.channelId with
      | none => rfl
      | some p => exact hm _ p hlookup
  refine hunread _ _ (hlatest _ _ fun k p hk => ?_)
  cases hk

/-- A projection has one entry a channel. -/
theorem nodup_projections (db : Database) : ((projections db).map (·.channelId)).Nodup := by
  have hkeys : ((byChannel db).entries.map (·.2)).map (·.channelId) = (byChannel db).keys := by
    rw [List.map_map]
    refine List.map_congr_left fun e he => ?_
    exact keyed_byChannel db e.1 e.2 (HashMap.mem_entries_iff.mp he)
  refine ((sortByKey_perm _ _).map _).nodup_iff.mpr ?_
  rw [hkeys]
  exact (byChannel db).keys_nodup

/-! ### The legacy payload -/

/-- `get` of an object. -/
def member (key : String) : Json → Option Json
  | .obj members => (members.find? fun m => decide (m.1 = key.toList)).map (·.2)
  | _ => none

def asStr : Json → Option String
  | .str s => some (String.ofList s)
  | _ => none

def asU64 : Json → Option ℕ
  | .int n => if 0 ≤ n ∧ n < 2 ^ 64 then some n.toNat else none
  | _ => none

def asBool : Json → Option Bool
  | .bool b => some b
  | _ => none

def validLegacyEvent (value : Json) (channelId : String) : Option IngestEvent := do
  let id ← (← member "id" value) |> asStr
  let createdAt ← (← member "createdAt" value) |> asU64
  let rootId ← match ← member "rootId" value with
    | .null => some none
    | v => (asStr v).map some
  let highPriority ← (← member "highPriority" value) |> asBool
  let countsTowardBadge ← (← member "countsTowardBadge" value) |> asBool
  let countsTowardAppBadge ← (← member "countsTowardAppBadge" value) |> asBool
  return { channelId, id, createdAt, rootId, highPriority, countsTowardBadge, countsTowardAppBadge }

/-- The valid events of the payload, in the order of their inserts. -/
def legacyEvents (payload : Json) : List IngestEvent :=
  match member "eventsByChannel" payload with
  | some (.obj channels) => channels.flatMap fun (channel, events) =>
      match events with
      | .arr values => values.filterMap fun value =>
          validLegacyEvent value (String.ofList channel)
      | _ => []
  | _ => []

/-! ### The commands -/

/-- The migration of the legacy events, which is made once. -/
def migrate (state : ScopeState) (request : OpenScopeRequest) (db : Database) :
    Except String Database :=
  if state.migrationComplete then .ok db
  else (request.legacyPayload.elim [] legacyEvents).foldlM upsertEvent db

/-- The rows of `open_scope` before the projection: the migration, the seed and the pruning. -/
def openRows (uuid : String) (now : ℤ) (request : OpenScopeRequest) (db : Database) :
    Except String Database := do
  let state := db.state uuid
  let migrated ← migrate state request db
  let seeded := match state.membershipSeeded, request.membershipSeed with
    | false, some seed => some seed
    | _, _ => none
  return {
    scopeState := some { state with
      migrationComplete := true
      membershipSeeded := state.membershipSeeded || seeded.isSome }
    observedEvents := prune now migrated.observedEvents
    channelLatest := migrated.channelLatest
    readMarkers := migrated.readMarkers
    unreadMembership := seeded.elim migrated.unreadMembership seedMembership }

def openScope (uuid : String) (now : ℤ) (request : OpenScopeRequest) (db : Database) :
    Except String (Response × Database) := do
  let db ← openRows uuid now request db
  let state := db.state uuid
  return (.snapshot state.generation state.revision state.lastSequence state.migrationComplete
    state.membershipSeeded (projections db), db)

def clearChannel (db : Database) (channel : String) : Database :=
  { db with
    observedEvents := db.observedEvents.retain fun _ e => decide (e.channelId ≠ channel)
    channelLatest := db.channelLatest.erase channel }

/-- The deletes of a request. -/
def clear (request : IngestRequest) (db : Database) : Database :=
  request.clearChannels.foldl clearChannel
    (if request.clearAll then { db with observedEvents := ∅, channelLatest := ∅ } else db)

def updateMembership (db : Database) (update : MembershipUpdate) : Database :=
  { db with
    unreadMembership :=
      if update.present then insertMembership db.unreadMembership (update.kind, update.value)
      else db.unreadMembership.filter fun row => decide (row ≠ (update.kind, update.value)) }

def updateMarker (db : Database) (update : MarkerUpdate) : Except String Database :=
  match update.readAt with
  | some readAt => do
    let readAt ← toSql "update observed marker" readAt
    return { db with readMarkers := upsertMax db.readMarkers update.contextId readAt }
  | none => return { db with readMarkers := db.readMarkers.erase update.contextId }

/-- The batch of a request, and the pruning. -/
def applyBatch (now : ℤ) (request : IngestRequest) (db : Database) : Except String Database := do
  let db ← request.events.foldlM upsertEvent (clear request db)
  let db ← request.channelLatest.foldlM
    (fun db update => advanceChannelLatest db update.channelId update.createdAt) db
  let db := request.membership.foldl updateMembership db
  let db ← request.markers.foldlM updateMarker db
  return { db with observedEvents := prune now db.observedEvents }

/-- The request is the next one, for the revision of the scope. -/
def Applicable (request : IngestRequest) (db : Database) : Prop :=
  request.sequence = db.lastSequence + 1 ∧ request.baseRevision = db.revision

instance (request : IngestRequest) (db : Database) : Decidable (Applicable request db) :=
  inferInstanceAs (Decidable (_ ∧ _))

def ingest (uuid : String) (now : ℤ) (request : IngestRequest) (db : Database) :
    Except String (Response × Database) :=
  let state := db.state uuid
  if request.sequence ≤ db.lastSequence then
    return (.snapshot state.generation state.revision state.lastSequence true true
      (projections db), { db with scopeState := some state })
  else if ¬ Applicable request db then
    return (.snapshotRequired state.generation state.revision state.lastSequence, db)
  else do
    let applied ← applyBatch now request db
    let nextRevision ← toSql "advance observed sequence" (state.revision + 1)
    let sequence ← toSql "advance observed sequence" request.sequence
    let before := projections db
    let after := projections applied
    return (.delta state.generation state.revision nextRevision sequence
        (upserts (·.channelId) before after) (removedKeys (·.channelId) before after),
      { applied with
        scopeState := some { state with revision := nextRevision, lastSequence := sequence } })

end Buzz.Desktop.ObservedUnread
