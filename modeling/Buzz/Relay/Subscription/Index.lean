import Buzz.Relay.Subscription.Registry

/-!
# The indexes hold exactly the keys of the stored entries

The five indexes of the registry are read as one map over the sum `AnyKey` of their key types, and
the two filter analyses as one list `SubEntry.indexKeys` of the keys an entry generates. The
nested loops that index and unindex a subscription are then folds of one push and one discard over
that list (`addToIndex_eq`, `removeFromIndex_eq`).

The invariant `Indexed` says that a subscription stands under a key exactly when its stored entry
generates the key, and that no key holds an empty list. Insertion, revocation and removal compute
key sets separately; the invariant holds because revoking a channel removes from the keys of an
entry exactly the keys of that channel (`mem_indexKeys_filter`).

## Main definitions

* `AnyKey`, `SubscriptionRegistry.lookupKey`, `SubscriptionRegistry.bucket`.
* `channelKeys`, `globalKeys`, `SubEntry.indexKeys`.
* `Indexed`.

## Main results

* `Reachable.indexed`: every reachable registry satisfies the invariant.
* `no_index_residue`: no index residue after any run.
-/

namespace Buzz.Relay.Subscription

open Buzz.Core Buzz.Library

/-! ### One key type for the five indexes -/

/-- A key of one of the five indexes. -/
inductive AnyKey
  | channelKind (communityId : CommunityId) (key : IndexKey)
  | channelWildcard (communityId : CommunityId) (channelId : Uuid)
  | globalKind (communityId : CommunityId) (kind : Kind)
  | globalPKind (key : GlobalPKindIndexKey)
  | globalWildcard (communityId : CommunityId)
  deriving DecidableEq

namespace SubscriptionRegistry

/-- The list an index holds under a key, if it holds the key. -/
def lookupKey (r : SubscriptionRegistry) : AnyKey → Option Bucket
  | .channelKind communityId key => r.channelKindIndex.lookup (communityId, key)
  | .channelWildcard communityId channelId =>
    r.channelWildcardIndex.lookup (communityId, channelId)
  | .globalKind communityId kind => r.globalKindIndex.lookup (communityId, kind)
  | .globalPKind key => r.globalPKindIndex.lookup key
  | .globalWildcard communityId => r.globalWildcardIndex.lookup communityId

/-- The list under a key, empty when the key is absent. -/
def bucket (r : SubscriptionRegistry) (key : AnyKey) : Bucket := (r.lookupKey key).getD []

/-- Add a subscription under a key of any index. -/
def pushKey (x : ConnId × SubId) (r : SubscriptionRegistry) : AnyKey → SubscriptionRegistry
  | .channelKind communityId key =>
    { r with channelKindIndex := BucketMap.push r.channelKindIndex (communityId, key) x }
  | .channelWildcard communityId channelId =>
    { r with
      channelWildcardIndex := BucketMap.push r.channelWildcardIndex (communityId, channelId) x }
  | .globalKind communityId kind =>
    { r with globalKindIndex := BucketMap.push r.globalKindIndex (communityId, kind) x }
  | .globalPKind key => { r with globalPKindIndex := BucketMap.push r.globalPKindIndex key x }
  | .globalWildcard communityId =>
    { r with globalWildcardIndex := BucketMap.push r.globalWildcardIndex communityId x }

/-- Remove a subscription from under a key of any index. -/
def discardKey (x : ConnId × SubId) (r : SubscriptionRegistry) : AnyKey → SubscriptionRegistry
  | .channelKind communityId key =>
    { r with
      channelKindIndex := BucketMap.discard r.channelKindIndex (communityId, key) (· == x) }
  | .channelWildcard communityId channelId =>
    { r with
      channelWildcardIndex :=
        BucketMap.discard r.channelWildcardIndex (communityId, channelId) (· == x) }
  | .globalKind communityId kind =>
    { r with
      globalKindIndex := BucketMap.discard r.globalKindIndex (communityId, kind) (· == x) }
  | .globalPKind key =>
    { r with globalPKindIndex := BucketMap.discard r.globalPKindIndex key (· == x) }
  | .globalWildcard communityId =>
    { r with
      globalWildcardIndex := BucketMap.discard r.globalWildcardIndex communityId (· == x) }

variable (x : ConnId × SubId) (r : SubscriptionRegistry)

@[simp] theorem pushKey_subs (key : AnyKey) : (pushKey x r key).subs = r.subs := by
  cases key <;> rfl

@[simp] theorem discardKey_subs (key : AnyKey) : (discardKey x r key).subs = r.subs := by
  cases key <;> rfl

theorem bucket_pushKey (key key' : AnyKey) :
    (pushKey x r key).bucket key' =
      if key' = key then r.bucket key ++ [x] else r.bucket key' := by
  have hbucket : ∀ {κ : Type} [DecidableEq κ] (m : HashMap κ Bucket) (k k' : κ),
      ((BucketMap.push m k x).lookup k').getD [] =
        if k' = k then (m.lookup k).getD [] ++ [x] else (m.lookup k').getD [] :=
    fun m k k' => BucketMap.bucket_push m k k' x
  cases key <;> cases key' <;> simp [pushKey, bucket, lookupKey, hbucket]

theorem bucket_discardKey (key key' : AnyKey) :
    (discardKey x r key).bucket key' =
      if key' = key then (r.bucket key).filter (fun y => !(y == x)) else r.bucket key' := by
  have hbucket : ∀ {κ : Type} [DecidableEq κ] (m : HashMap κ Bucket) (k k' : κ),
      ((BucketMap.discard m k (· == x)).lookup k').getD [] =
        if k' = k then ((m.lookup k).getD []).filter (fun y => !(y == x))
          else (m.lookup k').getD [] :=
    fun m k k' => BucketMap.bucket_discard m k k' (· == x)
  cases key <;> cases key' <;> simp [discardKey, bucket, lookupKey, hbucket]

/-- No index holds a key with an empty list. -/
structure NoEmptyBucket : Prop where
  channelKind : BucketMap.NoEmptyBucket r.channelKindIndex
  channelWildcard : BucketMap.NoEmptyBucket r.channelWildcardIndex
  globalKind : BucketMap.NoEmptyBucket r.globalKindIndex
  globalPKind : BucketMap.NoEmptyBucket r.globalPKindIndex
  globalWildcard : BucketMap.NoEmptyBucket r.globalWildcardIndex

variable {x r}

theorem NoEmptyBucket.lookupKey_ne (h : r.NoEmptyBucket) (key : AnyKey) :
    r.lookupKey key ≠ some [] := by
  cases key with
  | channelKind communityId key => exact h.channelKind _
  | channelWildcard communityId channelId => exact h.channelWildcard _
  | globalKind communityId kind => exact h.globalKind _
  | globalPKind key => exact h.globalPKind _
  | globalWildcard communityId => exact h.globalWildcard _

theorem NoEmptyBucket.pushKey (h : r.NoEmptyBucket) (key : AnyKey) :
    (pushKey x r key).NoEmptyBucket := by
  cases key with
  | channelKind communityId key => exact { h with channelKind := h.channelKind.push _ _ }
  | channelWildcard communityId channelId =>
    exact { h with channelWildcard := h.channelWildcard.push _ _ }
  | globalKind communityId kind => exact { h with globalKind := h.globalKind.push _ _ }
  | globalPKind key => exact { h with globalPKind := h.globalPKind.push _ _ }
  | globalWildcard communityId => exact { h with globalWildcard := h.globalWildcard.push _ _ }

theorem NoEmptyBucket.discardKey (h : r.NoEmptyBucket) (key : AnyKey) :
    (discardKey x r key).NoEmptyBucket := by
  cases key with
  | channelKind communityId key => exact { h with channelKind := h.channelKind.discard _ _ }
  | channelWildcard communityId channelId =>
    exact { h with channelWildcard := h.channelWildcard.discard _ _ }
  | globalKind communityId kind => exact { h with globalKind := h.globalKind.discard _ _ }
  | globalPKind key => exact { h with globalPKind := h.globalPKind.discard _ _ }
  | globalWildcard communityId =>
    exact { h with globalWildcard := h.globalWildcard.discard _ _ }

theorem NoEmptyBucket.withSubs (h : r.NoEmptyBucket)
    (subs : HashMap ConnId (HashMap SubId SubEntry)) : { r with subs := subs }.NoEmptyBucket :=
  { h with }

/-! ### Folds over a list of keys -/

@[simp] theorem foldl_pushKey_subs (keys : List AnyKey) :
    (keys.foldl (pushKey x) r).subs = r.subs := by
  induction keys generalizing r with
  | nil => rfl
  | cons key keys ih => rw [List.foldl_cons, ih, pushKey_subs]

@[simp] theorem foldl_discardKey_subs (keys : List AnyKey) :
    (keys.foldl (discardKey x) r).subs = r.subs := by
  induction keys generalizing r with
  | nil => rfl
  | cons key keys ih => rw [List.foldl_cons, ih, discardKey_subs]

theorem mem_bucket_foldl_pushKey (keys : List AnyKey) (key : AnyKey) (y : ConnId × SubId) :
    y ∈ (keys.foldl (pushKey x) r).bucket key ↔
      y ∈ r.bucket key ∨ (y = x ∧ key ∈ keys) := by
  induction keys generalizing r with
  | nil => simp
  | cons key' keys ih =>
    rw [List.foldl_cons, ih, bucket_pushKey]
    by_cases h : key = key'
    · subst h
      simp only [↓reduceIte, List.mem_append, List.mem_cons, true_or, and_true]
      tauto
    · simp only [h, ↓reduceIte, List.mem_cons, false_or]

theorem mem_bucket_foldl_discardKey (keys : List AnyKey) (key : AnyKey) (y : ConnId × SubId) :
    y ∈ (keys.foldl (discardKey x) r).bucket key ↔
      y ∈ r.bucket key ∧ ¬ (y = x ∧ key ∈ keys) := by
  induction keys generalizing r with
  | nil => simp
  | cons key' keys ih =>
    rw [List.foldl_cons, ih, bucket_discardKey]
    by_cases h : key = key'
    · subst h
      simp only [↓reduceIte, List.mem_filter, Bool.not_eq_true', beq_eq_false_iff_ne, ne_eq,
        List.mem_cons, true_or, and_true]
      tauto
    · simp only [h, ↓reduceIte, List.mem_cons, false_or]

theorem NoEmptyBucket.foldl_pushKey (h : r.NoEmptyBucket) (keys : List AnyKey) :
    (keys.foldl (SubscriptionRegistry.pushKey x) r).NoEmptyBucket := by
  induction keys generalizing r with
  | nil => exact h
  | cons key keys ih => exact ih (h.pushKey key)

theorem NoEmptyBucket.foldl_discardKey (h : r.NoEmptyBucket) (keys : List AnyKey) :
    (keys.foldl (SubscriptionRegistry.discardKey x) r).NoEmptyBucket := by
  induction keys generalizing r with
  | nil => exact h
  | cons key keys ih => exact ih (h.discardKey key)

end SubscriptionRegistry

/-! ### The keys an entry generates -/

/-- The keys of a subscription under one channel. -/
def channelKeys (filters : List Filter) (communityId : CommunityId) (chId : Uuid) :
    List AnyKey :=
  match extractKindsFromFilters filters with
  | none => [.channelWildcard communityId chId]
  | some kinds => kinds.map fun kind => .channelKind communityId ⟨chId, kind⟩

/-- The keys of a global subscription. -/
def globalKeys (filters : List Filter) (communityId : CommunityId) : List AnyKey :=
  match extractGlobalPKindIndexKeys communityId filters with
  | some keys => keys.map .globalPKind
  | none =>
    match extractKindsFromFilters filters with
    | none => [.globalWildcard communityId]
    | some kinds => kinds.map fun kind => .globalKind communityId kind

/-- The keys generated by filters, community and scope. -/
def indexKeysOf (filters : List Filter) (communityId : CommunityId) :
    SubscriptionScope → List AnyKey
  | .channels channelIds => channelIds.flatMap (channelKeys filters communityId)
  | .global => globalKeys filters communityId

/-- The keys a stored entry generates. -/
def SubEntry.indexKeys (e : SubEntry) : List AnyKey :=
  indexKeysOf e.filters e.communityId e.scope

namespace SubscriptionRegistry

variable (x : ConnId × SubId) (r : SubscriptionRegistry) (filters : List Filter)
  (communityId : CommunityId)

theorem addChannelToIndex_eq (chId : Uuid) :
    addChannelToIndex x filters communityId r chId =
      (channelKeys filters communityId chId).foldl (pushKey x) r := by
  unfold addChannelToIndex channelKeys
  cases extractKindsFromFilters filters with
  | none => rfl
  | some kinds => rw [List.foldl_map]; rfl

theorem removeChannelFromIndex_eq (chId : Uuid) :
    removeChannelFromIndex x filters communityId r chId =
      (channelKeys filters communityId chId).foldl (discardKey x) r := by
  unfold removeChannelFromIndex channelKeys
  cases extractKindsFromFilters filters with
  | none => rfl
  | some kinds => rw [List.foldl_map]; rfl

/-- Indexing a subscription pushes it under each key it generates. -/
theorem addToIndex_eq (scope : SubscriptionScope) :
    addToIndex r x filters communityId scope =
      (indexKeysOf filters communityId scope).foldl (pushKey x) r := by
  cases scope with
  | channels channelIds =>
    rw [addToIndex, indexKeysOf, List.foldl_flatMap]
    congr 1
    funext r chId
    exact addChannelToIndex_eq x r filters communityId chId
  | global =>
    simp only [addToIndex, addGlobalToIndex, indexKeysOf, globalKeys]
    cases extractGlobalPKindIndexKeys communityId filters with
    | some keys => rw [List.foldl_map]; rfl
    | none =>
      cases extractKindsFromFilters filters with
      | none => rfl
      | some kinds => rw [List.foldl_map]; rfl

/-- Unindexing a subscription discards it from under each key it generates. -/
theorem removeFromIndex_eq (scope : SubscriptionScope) :
    removeFromIndex r x filters communityId scope =
      (indexKeysOf filters communityId scope).foldl (discardKey x) r := by
  cases scope with
  | channels channelIds =>
    rw [removeFromIndex, indexKeysOf, List.foldl_flatMap]
    congr 1
    funext r chId
    exact removeChannelFromIndex_eq x r filters communityId chId
  | global =>
    simp only [removeFromIndex, removeGlobalFromIndex, indexKeysOf, globalKeys]
    cases extractGlobalPKindIndexKeys communityId filters with
    | some keys => rw [List.foldl_map]; rfl
    | none =>
      cases extractKindsFromFilters filters with
      | none => rfl
      | some kinds => rw [List.foldl_map]; rfl

end SubscriptionRegistry

/-- The channel a channel key belongs to. -/
def AnyKey.channel? : AnyKey → Option Uuid
  | channelKind _ key => some key.channelId
  | channelWildcard _ channelId => some channelId
  | _ => none

theorem channel?_of_mem_channelKeys {filters : List Filter} {communityId : CommunityId}
    {chId : Uuid} {key : AnyKey} (h : key ∈ channelKeys filters communityId chId) :
    key.channel? = some chId := by
  unfold channelKeys at h
  cases hk : extractKindsFromFilters filters with
  | none =>
    rw [hk, List.mem_singleton] at h
    subst h
    rfl
  | some kinds =>
    rw [hk, List.mem_map] at h
    obtain ⟨kind, -, rfl⟩ := h
    rfl

/-- Dropping a channel from a scope drops exactly the keys of that channel. -/
theorem mem_indexKeys_filter (filters : List Filter) (communityId : CommunityId)
    (channelIds : List Uuid) (chId : Uuid) (key : AnyKey) :
    key ∈ indexKeysOf filters communityId
        (.channels (channelIds.filter fun candidate => candidate != chId)) ↔
      key ∈ indexKeysOf filters communityId (.channels channelIds) ∧
        key ∉ indexKeysOf filters communityId (.channels [chId]) := by
  simp only [indexKeysOf, List.mem_flatMap, List.mem_filter, bne_iff_ne, ne_eq,
    List.mem_singleton, exists_eq_left]
  constructor
  · rintro ⟨ch, ⟨hmem, hne⟩, hkey⟩
    refine ⟨⟨ch, hmem, hkey⟩, fun hkey' => hne ?_⟩
    exact Option.some.inj ((channel?_of_mem_channelKeys hkey).symm.trans
      (channel?_of_mem_channelKeys hkey'))
  · rintro ⟨⟨ch, hmem, hkey⟩, hnot⟩
    exact ⟨ch, ⟨hmem, fun h => hnot (h ▸ hkey)⟩, hkey⟩

/-! ### The stored entries -/

namespace SubscriptionRegistry

/-- The entry `e` of the subscription `x`, every other entry as before. -/
def SetsEntry (r r' : SubscriptionRegistry) (x : ConnId × SubId) (e : Option SubEntry) : Prop :=
  ∀ connId subId, r'.entry connId subId = if (connId, subId) = x then e else r.entry connId subId

/-- Writing a connection's table back with one entry changed changes that entry only. -/
theorem setsEntry_insert {r r' : SubscriptionRegistry} {connId : ConnId} {subId : SubId}
    {connSubs connSubs' : HashMap SubId SubEntry} {e : Option SubEntry}
    (hold : ∀ s, connSubs.lookup s = r.entry connId s)
    (hnew : ∀ s, connSubs'.lookup s = if s = subId then e else connSubs.lookup s)
    (hr : r'.subs = r.subs.insert connId connSubs') : SetsEntry r r' (connId, subId) e := by
  intro c s
  rw [entry, hr, HashMap.lookup_insert_eq]
  by_cases hc : c = connId
  · subst hc
    simp only [↓reduceIte, Option.bind_some, hnew, hold, Prod.mk.injEq, true_and]
  · simp only [hc, ↓reduceIte, Prod.mk.injEq, false_and]
    rfl

theorem entry_of_lookup {r : SubscriptionRegistry} {connId : ConnId}
    {connSubs : HashMap SubId SubEntry} (h : r.subs.lookup connId = some connSubs) (s : SubId) :
    connSubs.lookup s = r.entry connId s := by
  rw [entry, h, Option.bind_some]

end SubscriptionRegistry

/-! ### The invariant -/

/-- A subscription stands under a key exactly when its stored entry generates the key, and no
index holds an empty list. -/
structure Indexed (r : SubscriptionRegistry) : Prop where
  mem_bucket : ∀ key x, x ∈ r.bucket key ↔ ∃ e, r.entry x.1 x.2 = some e ∧ key ∈ e.indexKeys
  noEmptyBucket : r.NoEmptyBucket

theorem indexed_empty : Indexed .empty := by
  refine ⟨fun key x => ?_, ?_⟩
  · cases key <;> simp [SubscriptionRegistry.bucket, SubscriptionRegistry.lookupKey,
      SubscriptionRegistry.empty, SubscriptionRegistry.entry]
  · constructor <;> exact fun k => by simp [SubscriptionRegistry.empty]

/-- The invariant only reads the entries and the indexes. -/
theorem Indexed.of_entry_eq {r r' : SubscriptionRegistry} (h : Indexed r)
    (hentry : ∀ c s, r'.entry c s = r.entry c s) (hbucket : ∀ key, r'.bucket key = r.bucket key)
    (hempty : r'.NoEmptyBucket) : Indexed r' :=
  ⟨fun key x => by rw [hbucket, h.mem_bucket, hentry], hempty⟩

/-- One entry changes from `old` to `new`: the invariant is kept when the subscription's index
entries change from the keys of `old` to the keys of `new` and no other subscription's move. -/
theorem Indexed.setsEntry {r r' : SubscriptionRegistry} {x : ConnId × SubId}
    {e : Option SubEntry} (h : Indexed r) (hentry : r.SetsEntry r' x e)
    (hother : ∀ key y, y ≠ x → (y ∈ r'.bucket key ↔ y ∈ r.bucket key))
    (hself : ∀ key, x ∈ r'.bucket key ↔ ∃ e', e = some e' ∧ key ∈ e'.indexKeys)
    (hempty : r'.NoEmptyBucket) : Indexed r' := by
  refine ⟨fun key y => ?_, hempty⟩
  have hy := hentry y.1 y.2
  by_cases hyx : y = x
  · subst hyx
    rw [hself, hy, if_pos rfl]
  · rw [hother key y hyx, h.mem_bucket, hy, if_neg hyx]

namespace SubscriptionRegistry

variable {r : SubscriptionRegistry}

/-- After a removal no entry and no index entry of the subscription is left. -/
theorem removeSubscription_spec (h : Indexed r) (connId : ConnId) (subId : SubId) :
    r.SetsEntry (r.removeSubscription connId subId).1 (connId, subId) none ∧
      Indexed (r.removeSubscription connId subId).1 := by
  unfold removeSubscription
  cases hconn : r.subs.lookup connId with
  | none =>
    refine ⟨fun c s => ?_, h⟩
    split_ifs with heq
    · obtain ⟨rfl, rfl⟩ := Prod.mk.inj heq
      rw [entry, hconn, Option.bind_none]
    · rfl
  | some connSubs =>
    cases hsub : connSubs.lookup subId with
    | none =>
      refine ⟨fun c s => ?_, by simpa only [hsub] using h⟩
      simp only [hsub]
      split_ifs with heq
      · obtain ⟨rfl, rfl⟩ := Prod.mk.inj heq
        rw [entry, hconn, Option.bind_some, hsub]
      · rfl
    | some e =>
      simp only [hsub]
      rw [removeFromIndex_eq]
      have hentry : r.entry connId subId = some e := by rw [entry, hconn, Option.bind_some, hsub]
      have hsets : r.SetsEntry
          ((indexKeysOf e.filters e.communityId e.scope).foldl (discardKey (connId, subId))
            { r with subs := r.subs.insert connId (connSubs.erase subId) })
          (connId, subId) none :=
        setsEntry_insert (entry_of_lookup hconn) (HashMap.lookup_erase_eq connSubs subId)
          (foldl_discardKey_subs _)
      refine ⟨hsets, h.setsEntry hsets (fun key y hy => ?_) (fun key => ?_) ?_⟩
      · rw [mem_bucket_foldl_discardKey]
        exact ⟨fun hk => hk.1, fun hk => ⟨hk, fun hk' => hy hk'.1⟩⟩
      · rw [mem_bucket_foldl_discardKey]
        refine ⟨fun ⟨hmem, hnot⟩ => ?_, fun ⟨e', he', _⟩ => by simp at he'⟩
        obtain ⟨e', he', hkey⟩ := (h.mem_bucket key (connId, subId)).mp hmem
        rw [hentry, Option.some.injEq] at he'
        subst he'
        exact absurd ⟨rfl, hkey⟩ hnot
      · exact (h.noEmptyBucket.withSubs _).foldl_discardKey _

/-- Registration keeps the invariant. -/
theorem registerWithScope_indexed (h : Indexed r) (communityId : CommunityId) (connId : ConnId)
    (subId : SubId) (filters : List Filter) (scope : SubscriptionScope) :
    Indexed (r.registerWithScope communityId connId subId filters scope).1 := by
  obtain ⟨hnone, hinv⟩ := removeSubscription_spec h connId subId
  rcases hres : r.removeSubscription connId subId with ⟨r₁, removed⟩
  rw [hres] at hnone hinv
  simp only [registerWithScope, hres, addToIndex_eq]
  have hentry : r₁.entry connId subId = none := by rw [hnone, if_pos rfl]
  have hold : ∀ s, ((r₁.subs.lookup connId).getD ∅).lookup s = r₁.entry connId s := by
    intro s
    rw [entry]
    cases r₁.subs.lookup connId <;> simp
  have hsets : r₁.SetsEntry
      ((indexKeysOf filters communityId scope).foldl (pushKey (connId, subId))
        { r₁ with
          subs := r₁.subs.insert connId
            (((r₁.subs.lookup connId).getD ∅).insert subId ⟨filters, communityId, scope⟩) })
      (connId, subId) (some ⟨filters, communityId, scope⟩) :=
    setsEntry_insert hold (fun s => HashMap.lookup_insert_eq _ _ _ _) (foldl_pushKey_subs _)
  refine hinv.setsEntry hsets (fun key y hy => ?_) (fun key => ?_) ?_
  · rw [mem_bucket_foldl_pushKey]
    exact ⟨fun hk => hk.resolve_right fun hk' => hy hk'.1, Or.inl⟩
  · rw [mem_bucket_foldl_pushKey]
    refine ⟨fun hk => ?_, fun ⟨e', he', hkey⟩ => Or.inr ⟨rfl, ?_⟩⟩
    · rcases hk with hk | ⟨-, hkey⟩
      · obtain ⟨e', he', -⟩ := (hinv.mem_bucket key (connId, subId)).mp hk
        simp [hentry] at he'
      · exact ⟨_, rfl, hkey⟩
    · rw [Option.some.injEq] at he'
      subst he'
      exact hkey
  · exact (hinv.noEmptyBucket.withSubs _).foldl_pushKey _

/-! ### Removing a connection -/

theorem foldl_removeFromIndex_subs (connId : ConnId) (l : List (Σ _ : SubId, SubEntry)) :
    (l.foldl (fun r e =>
      removeFromIndex r (connId, e.1) e.2.filters e.2.communityId e.2.scope) r).subs = r.subs := by
  induction l generalizing r with
  | nil => rfl
  | cons e l ih => rw [List.foldl_cons, ih, removeFromIndex_eq, foldl_discardKey_subs]

/-- The loop of `remove_connection` discards from each key the listed subscriptions whose entry
generates it. -/
theorem mem_bucket_foldl_removeFromIndex (connId : ConnId) (l : List (Σ _ : SubId, SubEntry))
    (key : AnyKey) (y : ConnId × SubId) :
    y ∈ (l.foldl (fun r e =>
        removeFromIndex r (connId, e.1) e.2.filters e.2.communityId e.2.scope) r).bucket key ↔
      y ∈ r.bucket key ∧ ∀ e ∈ l, ¬ (y = (connId, e.1) ∧ key ∈ e.2.indexKeys) := by
  induction l generalizing r with
  | nil => simp
  | cons e l ih =>
    rw [List.foldl_cons, ih, removeFromIndex_eq, mem_bucket_foldl_discardKey, and_assoc,
      List.forall_mem_cons]
    rfl

theorem NoEmptyBucket.foldl_removeFromIndex (h : r.NoEmptyBucket) (connId : ConnId)
    (l : List (Σ _ : SubId, SubEntry)) :
    (l.foldl (fun r e =>
      removeFromIndex r (connId, e.1) e.2.filters e.2.communityId e.2.scope) r).NoEmptyBucket := by
  induction l generalizing r with
  | nil => exact h
  | cons e l ih =>
    rw [List.foldl_cons, removeFromIndex_eq]
    exact ih (h.foldl_discardKey _)

/-- After a connection is removed none of its entries is left, and the others are as before. -/
theorem removeConnection_entry (connId c : ConnId) (s : SubId) :
    (r.removeConnection connId).1.entry c s = if c = connId then none else r.entry c s := by
  unfold removeConnection
  cases hconn : r.subs.lookup connId with
  | none =>
    split_ifs with hc
    · rw [hc, entry, hconn, Option.bind_none]
    · rfl
  | some connSubs =>
    dsimp only
    rw [entry, foldl_removeFromIndex_subs, HashMap.lookup_erase_eq]
    split_ifs with hc
    · rfl
    · rfl

theorem removeConnection_indexed (h : Indexed r) (connId : ConnId) :
    Indexed (r.removeConnection connId).1 := by
  have hentry := fun c s => removeConnection_entry (r := r) connId c s
  revert hentry
  unfold removeConnection
  cases hconn : r.subs.lookup connId with
  | none => exact fun _ => h
  | some connSubs =>
    intro hentry
    refine ⟨fun key y => ?_, ?_⟩
    · rw [hentry, mem_bucket_foldl_removeFromIndex]
      have hmem : y ∈ { r with subs := r.subs.erase connId }.bucket key ↔ _ := h.mem_bucket key y
      rw [hmem]
      by_cases hc : y.1 = connId
      · -- every entry of the connection is met by the loop
        simp only [hc, ↓reduceIte, reduceCtorEq, false_and, exists_false, iff_false, not_and,
          not_forall, not_not]
        rintro ⟨e, he, hkey⟩
        refine ⟨⟨y.2, e⟩, ?_, Prod.ext hc rfl, hkey⟩
        rw [HashMap.mem_entries_iff, entry_of_lookup hconn]
        exact he
      · simp only [hc, ↓reduceIte, and_iff_left_iff_imp]
        rintro - e - ⟨hy, -⟩
        exact hc (congrArg Prod.fst hy)
    · exact (h.noEmptyBucket.withSubs _).foldl_removeFromIndex _ _

/-! ### Revoking a channel -/

/-- One iteration of the revocation loop keeps the invariant when the entry it meets belongs to
the community; and it changes no community. -/
theorem revokeChannel_spec (communityId : CommunityId) (connId : ConnId) (channelId : Uuid)
    (acc : SubscriptionRegistry × List ChannelSubscriptionUpdate) (subId : SubId)
    (h : Indexed acc.1)
    (hcomm : ∀ e, acc.1.entry connId subId = some e → e.communityId = communityId) :
    Indexed (revokeChannel communityId connId channelId acc subId).1 ∧
      ∀ s e, (revokeChannel communityId connId channelId acc subId).1.entry connId s = some e →
        ∃ e', acc.1.entry connId s = some e' ∧ e.communityId = e'.communityId := by
  unfold revokeChannel
  cases hconn : acc.1.subs.lookup connId with
  | none => exact ⟨h, fun s e he => ⟨e, he, rfl⟩⟩
  | some connSubs =>
    dsimp only
    cases hsub : connSubs.lookup subId with
    | none => exact ⟨h, fun s e he => ⟨e, he, rfl⟩⟩
    | some e =>
      dsimp only
      cases hscope : e.scope with
      | global => exact ⟨h, fun s e he => ⟨e, he, rfl⟩⟩
      | channels channelIds =>
        dsimp only
        rw [removeFromIndex_eq, foldl_discardKey_subs]
        set remaining := channelIds.filter fun candidate => candidate != channelId with hrem
        set new : Option SubEntry :=
          if remaining.isEmpty then none else some { e with scope := .channels remaining }
        set r' : SubscriptionRegistry :=
          { (indexKeysOf e.filters communityId (.channels [channelId])).foldl
              (discardKey (connId, subId)) acc.1 with
            subs := acc.1.subs.insert connId (if remaining.isEmpty then connSubs.erase subId
              else connSubs.insert subId { e with scope := .channels remaining }) }
        have hentry : acc.1.entry connId subId = some e := by
          rw [entry, hconn, Option.bind_some, hsub]
        have hsets : acc.1.SetsEntry r' (connId, subId) new := by
          refine setsEntry_insert (entry_of_lookup hconn) (fun s => ?_) rfl
          by_cases hr : remaining.isEmpty = true
          · simp only [new, hr, ↓reduceIte, HashMap.lookup_erase_eq]
          · simp only [new, hr, Bool.false_eq_true, ↓reduceIte, HashMap.lookup_insert_eq]
        have hbucket : ∀ key y, y ∈ r'.bucket key ↔ y ∈ acc.1.bucket key ∧
            ¬ (y = (connId, subId) ∧
              key ∈ indexKeysOf e.filters communityId (.channels [channelId])) :=
          fun key y => mem_bucket_foldl_discardKey _ key y
        refine ⟨h.setsEntry hsets (fun key y hy => ?_) (fun key => ?_) ?_, fun s e₁ he₁ => ?_⟩
        · rw [hbucket]
          exact ⟨fun hk => hk.1, fun hk => ⟨hk, fun hk' => hy hk'.1⟩⟩
        · have hkeys : (connId, subId) ∈ acc.1.bucket key ↔ key ∈ e.indexKeys := by
            rw [h.mem_bucket key (connId, subId), hentry]
            simp
          have hold : e.indexKeys = indexKeysOf e.filters communityId (.channels channelIds) := by
            rw [SubEntry.indexKeys, hcomm e hentry, hscope]
          rw [hbucket, hkeys, hold]
          have hfilter := mem_indexKeys_filter e.filters communityId channelIds channelId key
          rw [← hrem] at hfilter
          simp only [true_and, ← hfilter]
          cases hr : remaining with
          | nil => simp [new, hr, indexKeysOf]
          | cons ch rest => simp [new, hr, SubEntry.indexKeys, hcomm e hentry]
        · exact (h.noEmptyBucket.foldl_discardKey _).withSubs _
        · rw [hsets] at he₁
          split_ifs at he₁ with hs
          · obtain ⟨-, rfl⟩ := Prod.mk.inj hs
            refine ⟨e, hentry, ?_⟩
            simp only [new] at he₁
            split_ifs at he₁
            rw [← Option.some.inj he₁]
          · exact ⟨e₁, he₁, rfl⟩

theorem foldl_revokeChannel_indexed (communityId : CommunityId) (connId : ConnId)
    (channelId : Uuid) (subIds : List SubId)
    (acc : SubscriptionRegistry × List ChannelSubscriptionUpdate) (h : Indexed acc.1)
    (hcomm : ∀ subId ∈ subIds, ∀ e, acc.1.entry connId subId = some e →
      e.communityId = communityId) :
    Indexed (subIds.foldl (revokeChannel communityId connId channelId) acc).1 := by
  induction subIds generalizing acc with
  | nil => exact h
  | cons subId subIds ih =>
    obtain ⟨hstep, hkeep⟩ := revokeChannel_spec communityId connId channelId acc subId h
      (hcomm subId List.mem_cons_self)
    refine ih _ hstep fun s hs e he => ?_
    obtain ⟨e', he', heq⟩ := hkeep s e he
    rw [heq]
    exact hcomm s (List.mem_cons_of_mem _ hs) e' he'

theorem removeChannelSubscriptionsScoped_indexed (h : Indexed r) (communityId : CommunityId)
    (connId : ConnId) (channelId : Uuid) :
    Indexed (r.removeChannelSubscriptionsScoped communityId connId channelId).1 := by
  refine foldl_revokeChannel_indexed communityId connId channelId _ (r, []) h ?_
  intro subId hmem e he
  unfold channelSubIds at hmem
  cases hconn : r.subs.lookup connId with
  | none => simp [hconn] at hmem
  | some connSubs =>
    rw [hconn] at hmem
    simp only [List.mem_map, List.mem_filter, Bool.and_eq_true, beq_iff_eq] at hmem
    obtain ⟨⟨s, e'⟩, ⟨hentry, hc, -⟩, rfl⟩ := hmem
    rw [HashMap.mem_entries_iff, entry_of_lookup hconn] at hentry
    rw [hentry, Option.some.injEq] at he
    exact he ▸ hc

end SubscriptionRegistry

/-! ### Runs -/

theorem Op.apply_indexed {r : SubscriptionRegistry} (h : Indexed r) (o : Op) :
    Indexed (o.apply r) := by
  cases o with
  | registerScoped communityId connId subId filters channelId =>
    exact SubscriptionRegistry.registerWithScope_indexed h _ _ _ _ _
  | registerChannelsScoped communityId connId subId filters channelIds =>
    exact SubscriptionRegistry.registerWithScope_indexed h _ _ _ _ _
  | removeSubscription connId subId =>
    exact (SubscriptionRegistry.removeSubscription_spec h connId subId).2
  | removeConnection connId => exact SubscriptionRegistry.removeConnection_indexed h connId
  | removeChannelSubscriptionsScoped communityId connId channelId =>
    exact SubscriptionRegistry.removeChannelSubscriptionsScoped_indexed h _ _ _

theorem Step.indexed {r r' : SubscriptionRegistry} (h : Indexed r) (hstep : Step r r') :
    Indexed r' := by
  cases hstep with
  | op o => exact o.apply_indexed h
  | @rehash connId connSubs connSubs' hconn hperm =>
    refine h.of_entry_eq (fun c s => ?_) (fun key => ?_) (h.noEmptyBucket.withSubs _)
    · rw [SubscriptionRegistry.entry, HashMap.lookup_insert_eq]
      split_ifs with hc
      · rw [hc, Option.bind_some, ← hperm.lookup_eq,
          SubscriptionRegistry.entry_of_lookup hconn]
      · rfl
    · rfl

/-- Every reachable registry satisfies the invariant. -/
theorem Reachable.indexed {r : SubscriptionRegistry} (h : Reachable r) : Indexed r := by
  induction h with
  | refl => exact indexed_empty
  | tail _ hstep ih => exact hstep.indexed ih

/-- The registry after every connection of a list has been removed. -/
def removeConnections (r : SubscriptionRegistry) (connIds : List ConnId) :
    SubscriptionRegistry :=
  connIds.foldl (fun r connId => (r.removeConnection connId).1) r

theorem Indexed.removeConnections {r : SubscriptionRegistry} (h : Indexed r)
    (connIds : List ConnId) : Indexed (removeConnections r connIds) := by
  induction connIds generalizing r with
  | nil => exact h
  | cons connId connIds ih => exact ih (SubscriptionRegistry.removeConnection_indexed h connId)

theorem removeConnections_entry (r : SubscriptionRegistry) (connIds : List ConnId) (c : ConnId)
    (s : SubId) :
    (removeConnections r connIds).entry c s = if c ∈ connIds then none else r.entry c s := by
  induction connIds generalizing r with
  | nil => simp [removeConnections]
  | cons connId connIds ih =>
    change (removeConnections (r.removeConnection connId).1 connIds).entry c s = _
    rw [ih, SubscriptionRegistry.removeConnection_entry]
    by_cases h : c = connId <;> by_cases h' : c ∈ connIds <;> simp [h, h']

/-- A registry without entries has empty indexes. -/
theorem Indexed.indexes_eq_empty {r : SubscriptionRegistry} (h : Indexed r)
    (hentry : ∀ c s, r.entry c s = none) :
    r.channelKindIndex = ∅ ∧ r.channelWildcardIndex = ∅ ∧ r.globalKindIndex = ∅ ∧
      r.globalPKindIndex = ∅ ∧ r.globalWildcardIndex = ∅ := by
  have hbucket : ∀ key, r.bucket key = [] := by
    intro key
    rw [List.eq_nil_iff_forall_not_mem]
    intro x hx
    obtain ⟨e, he, -⟩ := (h.mem_bucket key x).mp hx
    simp [hentry] at he
  have hmap : ∀ {κ : Type} [DecidableEq κ] (m : HashMap κ Bucket),
      BucketMap.NoEmptyBucket m → (∀ k, BucketMap.bucket m k = []) → m = ∅ :=
    fun m hm hb => HashMap.eq_empty_of_lookup fun k => (hm.lookup_eq_none_iff k).mpr (hb k)
  exact ⟨hmap _ h.noEmptyBucket.channelKind fun k => hbucket (.channelKind k.1 k.2),
    hmap _ h.noEmptyBucket.channelWildcard fun k => hbucket (.channelWildcard k.1 k.2),
    hmap _ h.noEmptyBucket.globalKind fun k => hbucket (.globalKind k.1 k.2),
    hmap _ h.noEmptyBucket.globalPKind fun k => hbucket (.globalPKind k),
    hmap _ h.noEmptyBucket.globalWildcard fun k => hbucket (.globalWildcard k)⟩

/-- **No index residue.** In every reachable registry, every subscription listed under a key of
one of the five indexes has a live entry whose filters, community and scope generate the key, and
no index holds a key with an empty list. Once every connection has been removed, all five indexes
are empty. -/
theorem no_index_residue (r : SubscriptionRegistry) (h : Reachable r) :
    (∀ key x, x ∈ r.bucket key → ∃ e, r.entry x.1 x.2 = some e ∧
      key ∈ indexKeysOf e.filters e.communityId e.scope) ∧
    (∀ key, r.lookupKey key ≠ some []) ∧
    ∀ connIds : List ConnId, (∀ c, r.subs.lookup c ≠ none → c ∈ connIds) →
      (removeConnections r connIds).channelKindIndex = ∅ ∧
      (removeConnections r connIds).channelWildcardIndex = ∅ ∧
      (removeConnections r connIds).globalKindIndex = ∅ ∧
      (removeConnections r connIds).globalPKindIndex = ∅ ∧
      (removeConnections r connIds).globalWildcardIndex = ∅ := by
  refine ⟨fun key x hx => (h.indexed.mem_bucket key x).mp hx,
    h.indexed.noEmptyBucket.lookupKey_ne, fun connIds hall => ?_⟩
  refine (h.indexed.removeConnections connIds).indexes_eq_empty fun c s => ?_
  rw [removeConnections_entry]
  split_ifs with hc
  · rfl
  · have hnone : r.subs.lookup c = none := not_not.mp (mt (hall c) hc)
    rw [SubscriptionRegistry.entry, hnone, Option.bind_none]

/-- A registry with one subscription to kind `7` in two channels. -/
def twoChannelRegistry : SubscriptionRegistry :=
  Op.apply .empty (.registerChannelsScoped 1 2 "s"
    [{ ids := none, authors := none, kinds := some [7], since := none, «until» := none,
       genericTags := ∅ }] [8, 9, 8])

theorem twoChannelRegistry_reachable : Reachable twoChannelRegistry :=
  Relation.ReflTransGen.single (.op _ _)

/-- The key of the duplicated channel is generated by the stored entry, and removing the
connection empties the index. -/
theorem no_index_residue_twoChannel :
    (∃ e, twoChannelRegistry.entry 2 "s" = some e ∧
      AnyKey.channelKind 1 ⟨8, 7⟩ ∈ indexKeysOf e.filters e.communityId e.scope) ∧
    (removeConnections twoChannelRegistry [2]).channelKindIndex = ∅ := by
  refine ⟨(no_index_residue _ twoChannelRegistry_reachable).1 (.channelKind 1 ⟨8, 7⟩) (2, "s")
    (by decide), ((no_index_residue _ twoChannelRegistry_reachable).2.2 [2] ?_).1⟩
  intro c hc
  by_contra hne
  have hc2 : c ≠ 2 := fun h => hne (by rw [h]; exact List.mem_singleton_self _)
  exact hc (AList.lookup_insert_ne hc2)

end Buzz.Relay.Subscription
