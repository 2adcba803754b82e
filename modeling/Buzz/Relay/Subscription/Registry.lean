import Buzz.Core.Filter

/-!
# The subscription registry

The registry of active WebSocket subscriptions of `crates/buzz-relay/src/subscription.rs`: the
table `subs` of stored entries and the five fan-out indexes, with the operations that register,
replace, revoke and remove subscriptions. Every operation is the state transformer of the source,
run to completion; gauges and log lines are left out.

Removal does not remember index keys: `removeFromIndex` derives them again from the stored
filters and scope, and the revocation of one channel removes that channel's keys only.

## Main definitions

* `SubscriptionScope`, `SubEntry`, `SubscriptionRegistry`.
* `extractKindsFromFilters`, `extractGlobalPKindIndexKeys`, `eventPTagValues`.
* `SubscriptionRegistry.registerScoped`, `registerChannelsScoped`, `removeSubscription`,
  `removeConnection`, `removeChannelSubscriptionsScoped`.
* `SubscriptionRegistry.fanOutScoped`.
* `Op`, `Step`, `Reachable`: the runs of a registry.
-/

namespace Buzz.Relay.Subscription

open Buzz.Core Buzz.Library

/-- Connection identifier: a UUID assigned to each WebSocket connection. -/
abbrev ConnId := Uuid

/-- Subscription identifier: the client-supplied string from a REQ message. -/
abbrev SubId := String

/-- Server-resolved live-routing scope for a subscription. -/
inductive SubscriptionScope
  | global
  | channels (ids : List Uuid)
  deriving DecidableEq

namespace SubscriptionScope

/-- Whether an event of this channel (`none`: global) is in the scope. -/
def matchesChannel : SubscriptionScope → Option Uuid → Bool
  | global, none => true
  | channels ids, some channelId => ids.contains channelId
  | _, _ => false

/-- The channels retained by this routing scope. -/
def channelIds : SubscriptionScope → List Uuid
  | global => []
  | channels ids => ids

end SubscriptionScope

/-- Stored subscription entry: filters with the server-resolved community and scope. -/
structure SubEntry where
  filters : List Filter
  communityId : CommunityId
  scope : SubscriptionScope

/-- Index key combining a channel and an event kind. -/
structure IndexKey where
  channelId : Uuid
  kind : Kind
  deriving DecidableEq

/-- Index key combining a community, an event kind and a `#p` recipient. -/
structure GlobalPKindIndexKey where
  communityId : CommunityId
  kind : Kind
  p : String
  deriving DecidableEq

/-- A removed subscription's server-resolved routing scope. -/
structure RemovedSubscription where
  communityId : CommunityId
  scope : SubscriptionScope

/-- Result of removing one revoked channel from a live subscription scope. -/
structure ChannelSubscriptionUpdate where
  subId : SubId
  removed : Bool

/-- A list of index entries under one key. -/
abbrev Bucket := List (ConnId × SubId)

/-- The registry of active subscriptions with its fan-out indexes. -/
structure SubscriptionRegistry where
  subs : HashMap ConnId (HashMap SubId SubEntry)
  channelKindIndex : HashMap (CommunityId × IndexKey) Bucket
  channelWildcardIndex : HashMap (CommunityId × Uuid) Bucket
  globalKindIndex : HashMap (CommunityId × Kind) Bucket
  globalPKindIndex : HashMap GlobalPKindIndexKey Bucket
  globalWildcardIndex : HashMap CommunityId Bucket

/-! ### Filter analysis -/

/-- The `#p` tag name. -/
def pTag : SingleLetterTag := ⟨15, false⟩

/-- Append the elements of `xs` not seen before: the `seen.insert(..)` loops of the source. -/
def pushUnseen {α : Type} [DecidableEq α] (acc xs : List α) : List α :=
  xs.foldl (fun acc x => if x ∈ acc then acc else acc ++ [x]) acc

/-- The union of all `kinds` across filters, or `none` if any filter lacks a `kinds` array. -/
def extractKindsFromFilters (filters : List Filter) : Option (List Kind) :=
  filters.foldlM (fun kinds f => f.kinds.map (pushUnseen kinds)) []

/-- One iteration of the loop of `extract_global_p_kind_index_keys`: `none` stands for the early
return. A filter whose kinds are empty is skipped before its `#p` values are looked at. -/
def addGlobalPKindKeys (communityId : CommunityId) (keys : List GlobalPKindIndexKey)
    (filter : Filter) : Option (List GlobalPKindIndexKey) :=
  match filter.kinds with
  | none => none
  | some kinds =>
    if kinds = [] then some keys
    else
      match filter.genericTags.lookup pTag with
      | none => none
      | some pValues =>
        if pValues = [] then none
        else some (pushUnseen keys
          (kinds.flatMap fun kind => pValues.map fun p => ⟨communityId, kind, p⟩))

/-- The `(kind, #p)` keys of a subscription all of whose filters are `#p`-constrained. -/
def extractGlobalPKindIndexKeys (communityId : CommunityId) (filters : List Filter) :
    Option (List GlobalPKindIndexKey) :=
  filters.foldlM (addGlobalPKindKeys communityId) []

/-- The distinct values of the event's `p` tags. -/
def eventPTagValues (event : StoredEvent) : List String :=
  pushUnseen [] ((event.event.tags.filter fun tag => tag.kind == "p").filterMap Tag.content)

namespace SubscriptionRegistry

/-- A new empty registry. -/
def empty : SubscriptionRegistry := ⟨∅, ∅, ∅, ∅, ∅, ∅⟩

/-- The stored entry of a subscription. -/
def entry (r : SubscriptionRegistry) (connId : ConnId) (subId : SubId) : Option SubEntry :=
  (r.subs.lookup connId).bind fun connSubs => connSubs.lookup subId

/-! ### Index maintenance -/

/-- Index a subscription under one channel (the body of the channel loop). -/
def addChannelToIndex (x : ConnId × SubId) (filters : List Filter) (communityId : CommunityId)
    (r : SubscriptionRegistry) (chId : Uuid) : SubscriptionRegistry :=
  match extractKindsFromFilters filters with
  | none =>
    { r with
      channelWildcardIndex := BucketMap.push r.channelWildcardIndex (communityId, chId) x }
  | some kinds =>
    kinds.foldl (fun r kind =>
      { r with
        channelKindIndex := BucketMap.push r.channelKindIndex (communityId, ⟨chId, kind⟩) x }) r

/-- Index a global subscription: the narrow `(kind, #p)` index when every filter allows it, else
the kind or the wildcard index. -/
def addGlobalToIndex (x : ConnId × SubId) (filters : List Filter) (communityId : CommunityId)
    (r : SubscriptionRegistry) : SubscriptionRegistry :=
  match extractGlobalPKindIndexKeys communityId filters with
  | some keys =>
    keys.foldl (fun r key =>
      { r with globalPKindIndex := BucketMap.push r.globalPKindIndex key x }) r
  | none =>
    match extractKindsFromFilters filters with
    | none =>
      { r with globalWildcardIndex := BucketMap.push r.globalWildcardIndex communityId x }
    | some kinds =>
      kinds.foldl (fun r kind =>
        { r with
          globalKindIndex := BucketMap.push r.globalKindIndex (communityId, kind) x }) r

/-- The indexing half of `register_with_scope`. -/
def addToIndex (r : SubscriptionRegistry) (x : ConnId × SubId) (filters : List Filter)
    (communityId : CommunityId) : SubscriptionScope → SubscriptionRegistry
  | .channels channelIds => channelIds.foldl (addChannelToIndex x filters communityId) r
  | .global => addGlobalToIndex x filters communityId r

/-- Remove a subscription from the index entries of one channel. -/
def removeChannelFromIndex (x : ConnId × SubId) (filters : List Filter)
    (communityId : CommunityId) (r : SubscriptionRegistry) (chId : Uuid) :
    SubscriptionRegistry :=
  match extractKindsFromFilters filters with
  | none =>
    { r with
      channelWildcardIndex :=
        BucketMap.discard r.channelWildcardIndex (communityId, chId) (· == x) }
  | some kinds =>
    kinds.foldl (fun r kind =>
      { r with
        channelKindIndex :=
          BucketMap.discard r.channelKindIndex (communityId, ⟨chId, kind⟩) (· == x) }) r

/-- Remove a global subscription from the index chosen at registration. -/
def removeGlobalFromIndex (x : ConnId × SubId) (filters : List Filter)
    (communityId : CommunityId) (r : SubscriptionRegistry) : SubscriptionRegistry :=
  match extractGlobalPKindIndexKeys communityId filters with
  | some keys =>
    keys.foldl (fun r key =>
      { r with globalPKindIndex := BucketMap.discard r.globalPKindIndex key (· == x) }) r
  | none =>
    match extractKindsFromFilters filters with
    | none =>
      { r with
        globalWildcardIndex := BucketMap.discard r.globalWildcardIndex communityId (· == x) }
    | some kinds =>
      kinds.foldl (fun r kind =>
        { r with
          globalKindIndex :=
            BucketMap.discard r.globalKindIndex (communityId, kind) (· == x) }) r

/-- Remove a subscription's index entries, deriving the keys from its filters and scope. -/
def removeFromIndex (r : SubscriptionRegistry) (x : ConnId × SubId) (filters : List Filter)
    (communityId : CommunityId) : SubscriptionScope → SubscriptionRegistry
  | .channels channelIds => channelIds.foldl (removeChannelFromIndex x filters communityId) r
  | .global => removeGlobalFromIndex x filters communityId r

/-! ### Operations -/

/-- Remove a single subscription and clean up its index entries. The connection keeps its table,
possibly empty. -/
def removeSubscription (r : SubscriptionRegistry) (connId : ConnId) (subId : SubId) :
    SubscriptionRegistry × Option RemovedSubscription :=
  match r.subs.lookup connId with
  | none => (r, none)
  | some connSubs =>
    match connSubs.lookup subId with
    | none => (r, none)
    | some e =>
      (removeFromIndex { r with subs := r.subs.insert connId (connSubs.erase subId) }
        (connId, subId) e.filters e.communityId e.scope, some ⟨e.communityId, e.scope⟩)

/-- Register a subscription, replacing any existing one with the same identifier. -/
def registerWithScope (r : SubscriptionRegistry) (communityId : CommunityId) (connId : ConnId)
    (subId : SubId) (filters : List Filter) (scope : SubscriptionScope) :
    SubscriptionRegistry × Option RemovedSubscription :=
  let (r, removed) := removeSubscription r connId subId
  let connSubs := (r.subs.lookup connId).getD ∅
  let r := { r with subs := r.subs.insert connId (connSubs.insert subId
    ⟨filters, communityId, scope⟩) }
  (addToIndex r (connId, subId) filters communityId scope, removed)

/-- Register a subscription under one channel, or globally when none is given. -/
def registerScoped (r : SubscriptionRegistry) (communityId : CommunityId) (connId : ConnId)
    (subId : SubId) (filters : List Filter) (channelId : Option Uuid) :
    SubscriptionRegistry × Option RemovedSubscription :=
  let scope := (channelId.map fun channelId => SubscriptionScope.channels [channelId]).getD .global
  registerWithScope r communityId connId subId filters scope

/-- Register a subscription under every authorized requested channel. -/
def registerChannelsScoped (r : SubscriptionRegistry) (communityId : CommunityId)
    (connId : ConnId) (subId : SubId) (filters : List Filter) (channelIds : List Uuid) :
    SubscriptionRegistry × Option RemovedSubscription :=
  registerWithScope r communityId connId subId filters (.channels channelIds)

/-- Remove all subscriptions for a connection and clean up index entries. -/
def removeConnection (r : SubscriptionRegistry) (connId : ConnId) :
    SubscriptionRegistry × List RemovedSubscription :=
  match r.subs.lookup connId with
  | none => (r, [])
  | some connSubs =>
    (connSubs.entries.foldl (fun r e =>
        removeFromIndex r (connId, e.1) e.2.filters e.2.communityId e.2.scope)
      { r with subs := r.subs.erase connId },
    connSubs.entries.map fun e => ⟨e.2.communityId, e.2.scope⟩)

/-- The subscriptions of a connection that hold the channel in the community. -/
def channelSubIds (r : SubscriptionRegistry) (communityId : CommunityId) (connId : ConnId)
    (channelId : Uuid) : List SubId :=
  match r.subs.lookup connId with
  | none => []
  | some connSubs =>
    (connSubs.entries.filter fun e =>
      e.2.communityId == communityId && e.2.scope.channelIds.contains channelId).map (·.1)

/-- One iteration of the revocation loop: shrink the scope, remove the revoked channel's keys,
and drop a subscription whose last channel went. -/
def revokeChannel (communityId : CommunityId) (connId : ConnId) (channelId : Uuid)
    (acc : SubscriptionRegistry × List ChannelSubscriptionUpdate) (subId : SubId) :
    SubscriptionRegistry × List ChannelSubscriptionUpdate :=
  match acc.1.subs.lookup connId with
  | none => acc
  | some connSubs =>
    match connSubs.lookup subId with
    | none => acc
    | some e =>
      match e.scope with
      | .global => acc
      | .channels channelIds =>
        let remaining := channelIds.filter fun candidate => candidate != channelId
        let removed := remaining.isEmpty
        let r := removeFromIndex acc.1 (connId, subId) e.filters communityId
          (.channels [channelId])
        let connSubs := if removed then connSubs.erase subId
          else connSubs.insert subId { e with scope := .channels remaining }
        ({ r with subs := r.subs.insert connId connSubs }, acc.2 ++ [⟨subId, removed⟩])

/-- Remove one revoked channel from every matching subscription in a community. -/
def removeChannelSubscriptionsScoped (r : SubscriptionRegistry) (communityId : CommunityId)
    (connId : ConnId) (channelId : Uuid) :
    SubscriptionRegistry × List ChannelSubscriptionUpdate :=
  (channelSubIds r communityId connId channelId).foldl
    (revokeChannel communityId connId channelId) (r, [])

/-! ### Fan-out -/

/-- Whether the authoritative entry of a candidate still matches the event. -/
def isMatch (r : SubscriptionRegistry) (communityId : CommunityId) (event : StoredEvent)
    (x : ConnId × SubId) : Bool :=
  match r.entry x.1 x.2 with
  | none => false
  | some e => e.communityId == communityId && e.scope.matchesChannel event.channelId &&
      filtersMatch e.filters event

/-- Push a candidate that matches and was not pushed before. -/
def pushMatch (r : SubscriptionRegistry) (communityId : CommunityId) (event : StoredEvent)
    (results : List (ConnId × SubId)) (x : ConnId × SubId) : List (ConnId × SubId) :=
  if r.isMatch communityId event x then
    if x ∈ results then results else results ++ [x]
  else results

/-- All `(conn_id, sub_id)` pairs whose filters match the event in one community. -/
def fanOutScoped (r : SubscriptionRegistry) (communityId : CommunityId) (event : StoredEvent) :
    List (ConnId × SubId) :=
  match event.channelId with
  | some channelId =>
    let results := (BucketMap.bucket r.channelKindIndex
      (communityId, ⟨channelId, event.event.kind⟩)).foldl (r.pushMatch communityId event) []
    (BucketMap.bucket r.channelWildcardIndex (communityId, channelId)).foldl
      (r.pushMatch communityId event) results
  | none =>
    let results := (eventPTagValues event).foldl (fun results p =>
      (BucketMap.bucket r.globalPKindIndex ⟨communityId, event.event.kind, p⟩).foldl
        (r.pushMatch communityId event) results) []
    let results := (BucketMap.bucket r.globalKindIndex (communityId, event.event.kind)).foldl
      (r.pushMatch communityId event) results
    (BucketMap.bucket r.globalWildcardIndex communityId).foldl (r.pushMatch communityId event)
      results

end SubscriptionRegistry

/-! ### Runs -/

/-- The operations of the registry. -/
inductive Op
  | registerScoped (communityId : CommunityId) (connId : ConnId) (subId : SubId)
      (filters : List Filter) (channelId : Option Uuid)
  | registerChannelsScoped (communityId : CommunityId) (connId : ConnId) (subId : SubId)
      (filters : List Filter) (channelIds : List Uuid)
  | removeSubscription (connId : ConnId) (subId : SubId)
  | removeConnection (connId : ConnId)
  | removeChannelSubscriptionsScoped (communityId : CommunityId) (connId : ConnId)
      (channelId : Uuid)

/-- The state after an operation has run to completion. -/
def Op.apply (r : SubscriptionRegistry) : Op → SubscriptionRegistry
  | registerScoped communityId connId subId filters channelId =>
    (r.registerScoped communityId connId subId filters channelId).1
  | registerChannelsScoped communityId connId subId filters channelIds =>
    (r.registerChannelsScoped communityId connId subId filters channelIds).1
  | removeSubscription connId subId => (r.removeSubscription connId subId).1
  | removeConnection connId => (r.removeConnection connId).1
  | removeChannelSubscriptionsScoped communityId connId channelId =>
    (r.removeChannelSubscriptionsScoped communityId connId channelId).1

/-- A step of the registry: an operation, or a reordering of the entries of one connection's
table, whose iteration order the hash map leaves open. -/
inductive Step : SubscriptionRegistry → SubscriptionRegistry → Prop
  | op (r : SubscriptionRegistry) (o : Op) : Step r (o.apply r)
  | rehash (r : SubscriptionRegistry) (connId : ConnId)
      {connSubs connSubs' : HashMap SubId SubEntry}
      (h : r.subs.lookup connId = some connSubs) (hperm : HashMap.Rehash connSubs connSubs') :
      Step r { r with subs := r.subs.insert connId connSubs' }

/-- The registries reachable from the empty one by any finite sequence of steps. -/
def Reachable (r : SubscriptionRegistry) : Prop :=
  Relation.ReflTransGen Step .empty r

end Buzz.Relay.Subscription
