import Mathlib.Data.Finset.Insert
import Buzz.Desktop.ReadState.Slots
import Buzz.Library.MaxMap

/-!
# The read-state manager

The state of a `ReadStateManager` of `readStateManager.ts` and what it does between two awaits:
`effectiveState` holds the timestamp up to which each context has been read, and grows by local
marks and by the blobs that are merged. Contexts that may be published are in
`publishableContextIds`.

The manager is not destroyed. Its listeners, its copy in local storage and the timer that writes
it, and the parent resolver are left out: nothing here reads them. A set debounce timer is only
known to be set.

## Main definitions

* `ReadStateManager`, `applyRemoteContextTimestamp`, `advanceContext`, `markContextRead`,
  `seedContextRead`.
* `mergeParsed`, `finishMerge`: the synchronous parts of `mergeEvents`; `applyIncoming`: that of
  `handleIncomingEvent`.
* `currentContexts`, `splitContextsIntoSlots`, `isIdenticalToLastPublished`.
* `Advances`: what these operations may change.

## Main results

* `value_advanceContext`, `value_mergeParsed`, `value_applyIncoming`: each takes the maximum.
* `still_mergeParsed`, `still_applyIncoming`: merging what is known changes no timestamp.
* `lookup_currentContexts_channel`, `channel_mem_split`: what is built from the state holds every
  publishable channel context.
-/

namespace Buzz.Desktop.ReadState

open Buzz.Library

/-- `PUBLISHED_ID_MEMORY`. -/
def publishedIdMemory : ℕ := 64

/-- The state of a manager. `recentlyPublishedIds` is in the order of insertion. -/
structure ReadStateManager where
  pubkey : List Char
  clientId : List Char
  slotId : List Char
  extraSlotIds : List (List Char)
  effectiveState : HashMap (List Char) ℕ
  publishableContextIds : Finset (List Char)
  lastPublishedContexts : Record
  debounceTimer : Bool
  maxFetchedCreatedAt : ℕ
  contextSourceCreatedAt : HashMap (List Char) ℕ
  pendingSyncedAdvances : Finset (List Char)
  recentlyPublishedIds : List ℕ

/-! ### Timestamps -/

/-- The result of `applyRemoteContextTimestamp`, with the maps as it leaves them. -/
structure ApplyRemoteContextResult where
  effectiveState : HashMap (List Char) ℕ
  contextSourceCreatedAt : HashMap (List Char) ℕ
  advanced : Bool

/-- Take the maximum of the timestamp that is held and the one of a remote blob, and remember the
newest event that spoke about the context. -/
def applyRemoteContextTimestamp (effectiveState contextSourceCreatedAt : HashMap (List Char) ℕ)
    (contextId : List Char) (timestamp eventCreatedAt : ℕ) : ApplyRemoteContextResult :=
  let sourceCreatedAt := (contextSourceCreatedAt.lookup contextId).getD 0
  let current := (effectiveState.lookup contextId).getD 0
  let next := max current timestamp
  let advanced := decide (next ≠ current)
  { effectiveState := if advanced then effectiveState.set contextId next else effectiveState
    contextSourceCreatedAt :=
      if sourceCreatedAt < eventCreatedAt then contextSourceCreatedAt.set contextId eventCreatedAt
      else contextSourceCreatedAt
    advanced }

namespace ReadStateManager

/-- Set the debounce timer, replacing one that is set. -/
def schedulePublish (m : ReadStateManager) : ReadStateManager := { m with debounceTimer := true }

/-- Raise a context to a timestamp. A context that becomes publishable, or that is publishable and
raised, is to be published. -/
def advanceContext (m : ReadStateManager) (contextId : List Char) (unixTimestamp : ℕ)
    (publishable : Bool) : ReadStateManager :=
  let current := (m.effectiveState.lookup contextId).getD 0
  if unixTimestamp ≤ current then
    if !publishable || decide (contextId ∈ m.publishableContextIds) then m
    else
      schedulePublish
        { m with publishableContextIds := insert contextId m.publishableContextIds }
  else
    let raised := { m with effectiveState := m.effectiveState.set contextId unixTimestamp }
    if publishable then
      schedulePublish
        { raised with publishableContextIds := insert contextId m.publishableContextIds }
    else raised

/-- A context is read locally, at the time `now`. -/
def markContextRead (m : ReadStateManager) (contextId : List Char) (unixTimestamp now : ℕ) :
    ReadStateManager :=
  let advanced := m.advanceContext contextId unixTimestamp true
  { advanced with
    contextSourceCreatedAt :=
      advanced.contextSourceCreatedAt.set contextId (max now (advanced.maxFetchedCreatedAt + 1)) }

/-- A context is seeded, without making it publishable. -/
def seedContextRead (m : ReadStateManager) (contextId : List Char) (unixTimestamp : ℕ) :
    ReadStateManager :=
  m.advanceContext contextId unixTimestamp false

/-! ### Merging -/

/-- One context of a fetched blob. It becomes publishable when it advances. -/
def mergeContext (createdAt : ℕ) (m : ReadStateManager) (entry : List Char × ℕ) :
    ReadStateManager :=
  let result := applyRemoteContextTimestamp m.effectiveState m.contextSourceCreatedAt entry.1
    entry.2 createdAt
  let applied :=
    { m with
      effectiveState := result.effectiveState
      contextSourceCreatedAt := result.contextSourceCreatedAt }
  if result.advanced then
    { applied with
      pendingSyncedAdvances := insert entry.1 m.pendingSyncedAdvances
      publishableContextIds := insert entry.1 m.publishableContextIds }
  else applied

/-- The contexts of one fetched event. -/
def mergeParsed (m : ReadStateManager) (parsed : ParsedReadStateEvent) : ReadStateManager :=
  (objectEntries parsed.blob.contexts).foldl (mergeContext parsed.createdAt)
    { m with maxFetchedCreatedAt := max m.maxFetchedCreatedAt parsed.createdAt }

/-- The newest own blob of each slot that a batch has shown so far. -/
abbrev OwnBlobs := HashMap (List Char) (ReadStateBlob × ℕ)

/-- Keep an own blob, unless the batch has shown one as new for its slot. -/
def collectOwn (m : ReadStateManager) (own : OwnBlobs) (parsed : ParsedReadStateEvent) : OwnBlobs :=
  if parsed.blob.clientId = m.clientId then
    match own.lookup parsed.dTag with
    | some existing =>
      if existing.2 < parsed.createdAt then own.set parsed.dTag (parsed.blob, parsed.createdAt)
      else own
    | none => own.set parsed.dTag (parsed.blob, parsed.createdAt)
  else own

/-- All entries of the own blobs, blob by blob. -/
def ownEntries (own : OwnBlobs) : List (List Char × ℕ) :=
  own.entries.flatMap fun e => objectEntries e.2.1.contexts

/-- The end of a batch: what the own blobs hold is what was last published. -/
def finishMerge (m : ReadStateManager) (own : OwnBlobs) : ReadStateManager :=
  if own.entries = [] then m
  else
    { m with
      publishableContextIds :=
        (ownEntries own).foldl (fun ids e => insert e.1 ids) m.publishableContextIds
      lastPublishedContexts := unionEntries ∅ (ownEntries own) }

/-- One context of an incoming blob. Every context that is named becomes publishable. -/
def incomingContext (createdAt : ℕ) (acc : ReadStateManager × Bool) (entry : List Char × ℕ) :
    ReadStateManager × Bool :=
  let m := acc.1
  let result := applyRemoteContextTimestamp m.effectiveState m.contextSourceCreatedAt entry.1
    entry.2 createdAt
  ({ m with
      effectiveState := result.effectiveState
      contextSourceCreatedAt := result.contextSourceCreatedAt
      pendingSyncedAdvances :=
        if result.advanced then insert entry.1 m.pendingSyncedAdvances
        else m.pendingSyncedAdvances
      publishableContextIds := insert entry.1 m.publishableContextIds },
    acc.2 || result.advanced || decide (entry.1 ∉ m.publishableContextIds))

/-- A parsed incoming event. What advances by another client's blob is published again. -/
def applyIncoming (m : ReadStateManager) (parsed : ParsedReadStateEvent) : ReadStateManager :=
  let (applied, anyAdvanced) :=
    (objectEntries parsed.blob.contexts).foldl (incomingContext parsed.createdAt)
      ({ m with maxFetchedCreatedAt := max m.maxFetchedCreatedAt parsed.createdAt }, false)
  if anyAdvanced && decide (parsed.blob.clientId ≠ m.clientId) then applied.schedulePublish
  else applied

/-! ### Building blobs -/

/-- Remember an id that is about to be published, forgetting the oldest beyond the memory. -/
def rememberPublishedId (m : ReadStateManager) (id : ℕ) : ReadStateManager :=
  let ids := if id ∈ m.recentlyPublishedIds then m.recentlyPublishedIds
    else m.recentlyPublishedIds ++ [id]
  { m with recentlyPublishedIds := if publishedIdMemory < ids.length then ids.tail else ids }

/-- The publishable entries of the effective state, in its order. -/
def publishableEntries (m : ReadStateManager) : List (List Char × ℕ) :=
  (m.effectiveState.entries.filter fun e => decide (e.1 ∈ m.publishableContextIds)).map
    fun e => (e.1, e.2)

/-- The contexts of a single-slot blob, or nothing when the channel keys alone are too large. -/
def currentContexts (m : ReadStateManager) : Option Record :=
  let trimmed := trimContextsToBudget (assignAll ∅ m.publishableEntries) m.clientId
    readStateMaxPlaintextBytes
  if trimmed.fitsAfterTrim then some trimmed.contexts else none

/-- The ids of the slots of this client, the primary one first. -/
def slotIds (m : ReadStateManager) : List (List Char) := m.slotId :: m.extraSlotIds

/-- The publishable channel entries. -/
def channelEntries (m : ReadStateManager) : List (List Char × ℕ) :=
  m.publishableEntries.filter fun e => isChannelKey e.1

/-- The publishable thread and message entries. -/
def threadMsgEntries (m : ReadStateManager) : List (List Char × ℕ) :=
  m.publishableEntries.filter fun e => !isChannelKey e.1

/-- The split of the publishable entries over the slots of this client and new ones. -/
def budgetedSlots (m : ReadStateManager) (slotIdGenerator : ℕ → List Char) :
    Option SlotSplitResult :=
  splitContextsIntoBudgetedSlots m.channelEntries m.threadMsgEntries m.clientId m.slotIds.length
    readStateMaxSlots readStateMaxPlaintextBytes slotIdGenerator

/-- The publishable contexts, dealt out over the slots and over new ones where they do not fit. The
ids of new slots are kept. -/
def splitContextsIntoSlots (m : ReadStateManager) (slotIdGenerator : ℕ → List Char) :
    ReadStateManager × Option (List (List Char × Record)) :=
  match m.budgetedSlots slotIdGenerator with
  | none => (m, none)
  | some result =>
    let newExtraSlotIds := m.extraSlotIds ++ result.extraSlotIds
    ({ m with
        extraSlotIds :=
          if newExtraSlotIds.length ≠ m.extraSlotIds.length then newExtraSlotIds
          else m.extraSlotIds },
      some ((m.slotIds ++ result.extraSlotIds).zip result.slots))

/-- The contexts are what was last published: as many keys, and the same timestamps. -/
def isIdenticalToLastPublished (m : ReadStateManager) (contexts : Record) : Bool :=
  decide (m.lastPublishedContexts.entries.length = contexts.entries.length) &&
    contexts.entries.all fun e => decide (m.lastPublishedContexts.lookup e.1 = some e.2)

/-! ### What an operation may change -/

/-- Marks and merges move the timestamps, the publishable contexts, the newest `created_at` seen and
the timer forward, and leave the slots and the published contexts alone. -/
structure Advances (m m' : ReadStateManager) : Prop where
  pubkey : m'.pubkey = m.pubkey
  clientId : m'.clientId = m.clientId
  slotId : m'.slotId = m.slotId
  extraSlotIds : m'.extraSlotIds = m.extraSlotIds
  lastPublishedContexts : m'.lastPublishedContexts = m.lastPublishedContexts
  recentlyPublishedIds : m'.recentlyPublishedIds = m.recentlyPublishedIds
  maxFetchedCreatedAt : m.maxFetchedCreatedAt ≤ m'.maxFetchedCreatedAt
  debounceTimer : m.debounceTimer = true → m'.debounceTimer = true
  effectiveState : ∀ {k : List Char} {t : ℕ}, m.effectiveState.lookup k = some t →
    ∃ t', m'.effectiveState.lookup k = some t' ∧ t ≤ t'
  publishableContextIds : m.publishableContextIds ⊆ m'.publishableContextIds

/-- Timestamps and publishable contexts only grow, and the identity stays. -/
structure Grows (m m' : ReadStateManager) : Prop where
  pubkey : m'.pubkey = m.pubkey
  clientId : m'.clientId = m.clientId
  effectiveState : ∀ {k : List Char} {t : ℕ}, m.effectiveState.lookup k = some t →
    ∃ t', m'.effectiveState.lookup k = some t' ∧ t ≤ t'
  publishableContextIds : m.publishableContextIds ⊆ m'.publishableContextIds

/-- The timestamps and the publishable contexts are as before. -/
def Still (m m' : ReadStateManager) : Prop :=
  m'.effectiveState = m.effectiveState ∧ m'.publishableContextIds = m.publishableContextIds

theorem Advances.grows {m m' : ReadStateManager} (h : Advances m m') : Grows m m' :=
  ⟨h.pubkey, h.clientId, h.effectiveState, h.publishableContextIds⟩

theorem Grows.refl (m : ReadStateManager) : Grows m m :=
  ⟨rfl, rfl, fun h => ⟨_, h, le_rfl⟩, subset_rfl⟩

theorem Advances.refl (m : ReadStateManager) : Advances m m :=
  ⟨rfl, rfl, rfl, rfl, rfl, rfl, le_rfl, id, fun h => ⟨_, h, le_rfl⟩, subset_rfl⟩

theorem Advances.trans {m₁ m₂ m₃ : ReadStateManager} (h : Advances m₁ m₂) (h' : Advances m₂ m₃) :
    Advances m₁ m₃ where
  pubkey := h'.pubkey.trans h.pubkey
  clientId := h'.clientId.trans h.clientId
  slotId := h'.slotId.trans h.slotId
  extraSlotIds := h'.extraSlotIds.trans h.extraSlotIds
  lastPublishedContexts := h'.lastPublishedContexts.trans h.lastPublishedContexts
  recentlyPublishedIds := h'.recentlyPublishedIds.trans h.recentlyPublishedIds
  maxFetchedCreatedAt := h.maxFetchedCreatedAt.trans h'.maxFetchedCreatedAt
  debounceTimer := h'.debounceTimer ∘ h.debounceTimer
  effectiveState := fun hk => by
    obtain ⟨t, ht, hle⟩ := h.effectiveState hk
    obtain ⟨t', ht', hle'⟩ := h'.effectiveState ht
    exact ⟨t', ht', hle.trans hle'⟩
  publishableContextIds := h.publishableContextIds.trans h'.publishableContextIds

theorem Still.refl (m : ReadStateManager) : Still m m := ⟨rfl, rfl⟩

theorem Still.trans {m₁ m₂ m₃ : ReadStateManager} (h : Still m₁ m₂) (h' : Still m₂ m₃) :
    Still m₁ m₃ :=
  ⟨h'.1.trans h.1, h'.2.trans h.2⟩

/-- The manager holds the entries: their contexts are publishable and at least as far. -/
def Knows (m : ReadStateManager) (entries : List (List Char × ℕ)) : Prop :=
  ∀ k v, (k, v) ∈ entries →
    k ∈ m.publishableContextIds ∧ ∃ t, m.effectiveState.lookup k = some t ∧ v ≤ t

theorem Knows.grows {m m' : ReadStateManager} {entries : List (List Char × ℕ)}
    (h : m.Knows entries) (hgrows : Grows m m') : m'.Knows entries := by
  intro k v hmem
  obtain ⟨hpub, t, ht, hle⟩ := h k v hmem
  obtain ⟨t', ht', hle'⟩ := hgrows.effectiveState ht
  exact ⟨hgrows.publishableContextIds hpub, t', ht', hle.trans hle'⟩

theorem Knows.advances {m m' : ReadStateManager} {entries : List (List Char × ℕ)}
    (h : m.Knows entries) (hadv : Advances m m') : m'.Knows entries :=
  h.grows hadv.grows

theorem Knows.still {m m' : ReadStateManager} {entries : List (List Char × ℕ)}
    (h : m.Knows entries) (hstill : Still m m') : m'.Knows entries := by
  intro k v hmem
  rw [hstill.1, hstill.2]
  exact h k v hmem

theorem Knows.le_value {m : ReadStateManager} {entries : List (List Char × ℕ)}
    (h : m.Knows entries) {k : List Char} {v : ℕ} (hmem : (k, v) ∈ entries) :
    v ≤ MaxMap.value m.effectiveState k := by
  obtain ⟨-, t, ht, hle⟩ := h k v hmem
  rwa [MaxMap.value_eq_of_lookup ht]

end ReadStateManager

/-! ### Remote timestamps -/

theorem applyRemote_effectiveState (e c : HashMap (List Char) ℕ) (k : List Char) (t createdAt : ℕ) :
    (applyRemoteContextTimestamp e c k t createdAt).effectiveState = MaxMap.raise e k t := by
  have hvalue : (e.lookup k).getD 0 = MaxMap.value e k := rfl
  rw [applyRemoteContextTimestamp, MaxMap.raise, hvalue]
  by_cases hle : t ≤ MaxMap.value e k
  · simp [hle]
  · have hlt := not_le.mp hle
    simp [hle, max_eq_right hlt.le, hlt.ne']

theorem applyRemote_advanced (e c : HashMap (List Char) ℕ) (k : List Char) (t createdAt : ℕ) :
    (applyRemoteContextTimestamp e c k t createdAt).advanced = true ↔ MaxMap.value e k < t := by
  have hvalue : (e.lookup k).getD 0 = MaxMap.value e k := rfl
  rw [applyRemoteContextTimestamp, hvalue]
  simp

namespace ReadStateManager

theorem mergeContext_effectiveState (createdAt : ℕ) (m : ReadStateManager)
    (e : List Char × ℕ) :
    (mergeContext createdAt m e).effectiveState = MaxMap.raise m.effectiveState e.1 e.2 := by
  rw [mergeContext]
  split_ifs <;>
    exact applyRemote_effectiveState _ m.contextSourceCreatedAt _ _ createdAt

theorem advances_mergeContext (createdAt : ℕ) (m : ReadStateManager) (e : List Char × ℕ) :
    Advances m (mergeContext createdAt m e) := by
  have heff : ∀ {k t}, m.effectiveState.lookup k = some t →
      ∃ t', (mergeContext createdAt m e).effectiveState.lookup k = some t' ∧ t ≤ t' := by
    intro k t ht
    rw [mergeContext_effectiveState]
    exact MaxMap.exists_lookup_raise ht _ _
  rw [mergeContext] at heff ⊢
  split_ifs at heff ⊢
  · exact ⟨rfl, rfl, rfl, rfl, rfl, rfl, le_rfl, id, heff, Finset.subset_insert _ _⟩
  · exact ⟨rfl, rfl, rfl, rfl, rfl, rfl, le_rfl, id, heff, subset_rfl⟩

theorem still_mergeContext {createdAt : ℕ} {m : ReadStateManager} {e : List Char × ℕ}
    (h : m.Knows [e]) : Still m (mergeContext createdAt m e) := by
  have hle := h.le_value List.mem_cons_self
  refine ⟨?_, ?_⟩
  · rw [mergeContext_effectiveState, MaxMap.raise_of_le hle]
  · rw [mergeContext, if_neg]
    rw [applyRemote_advanced]
    exact not_lt.mpr hle

theorem Knows.of_subset {m : ReadStateManager} {es es' : List (List Char × ℕ)} (h : m.Knows es)
    (hsub : ∀ k v, (k, v) ∈ es' → (k, v) ∈ es) : m.Knows es' :=
  fun k v hmem => h k v (hsub k v hmem)

theorem advances_fetched (m : ReadStateManager) (createdAt : ℕ) :
    Advances m { m with maxFetchedCreatedAt := max m.maxFetchedCreatedAt createdAt } :=
  ⟨rfl, rfl, rfl, rfl, rfl, rfl, le_max_left _ _, id, fun h => ⟨_, h, le_rfl⟩, subset_rfl⟩

theorem advances_mergeContexts (createdAt : ℕ) :
    ∀ (entries : List (List Char × ℕ)) (m : ReadStateManager),
      Advances m (entries.foldl (mergeContext createdAt) m)
  | [], m => Advances.refl m
  | e :: entries, m =>
    (advances_mergeContext createdAt m e).trans (advances_mergeContexts createdAt entries _)

theorem still_mergeContexts (createdAt : ℕ) :
    ∀ (entries : List (List Char × ℕ)) (m : ReadStateManager), m.Knows entries →
      Still m (entries.foldl (mergeContext createdAt) m)
  | [], m, _ => Still.refl m
  | e :: entries, m, h => by
    have hstep : Still m (mergeContext createdAt m e) :=
      still_mergeContext (h.of_subset fun k v hmem => by
        rw [List.mem_singleton.mp hmem]
        exact List.mem_cons_self)
    have hrest : m.Knows entries := h.of_subset fun k v hmem => List.mem_cons_of_mem _ hmem
    exact hstep.trans (still_mergeContexts createdAt entries _ (hrest.still hstep))

theorem value_mergeContexts (createdAt : ℕ) (k : List Char) :
    ∀ (entries : List (List Char × ℕ)) (m : ReadStateManager),
      MaxMap.value (entries.foldl (mergeContext createdAt) m).effectiveState k =
        max (MaxMap.value m.effectiveState k) (MaxMap.latest entries k)
  | [], m => by rw [MaxMap.latest_nil, max_eq_left bot_le]; rfl
  | e :: entries, m => by
    rw [List.foldl_cons, value_mergeContexts createdAt k entries, mergeContext_effectiveState,
      MaxMap.value_raise, max_assoc, ← MaxMap.latest_append, List.singleton_append]

theorem advances_mergeParsed (m : ReadStateManager) (parsed : ParsedReadStateEvent) :
    Advances m (m.mergeParsed parsed) :=
  (m.advances_fetched parsed.createdAt).trans (advances_mergeContexts _ _ _)

theorem still_mergeParsed {m : ReadStateManager} {parsed : ParsedReadStateEvent}
    (h : m.Knows (objectEntries parsed.blob.contexts)) : Still m (m.mergeParsed parsed) := by
  have hknows := h.advances (m.advances_fetched parsed.createdAt)
  exact Still.trans ⟨rfl, rfl⟩ (still_mergeContexts parsed.createdAt _ _ hknows)

/-- Merging a fetched event takes the maximum. -/
theorem value_mergeParsed (m : ReadStateManager) (parsed : ParsedReadStateEvent) (k : List Char) :
    MaxMap.value (m.mergeParsed parsed).effectiveState k =
      max (MaxMap.value m.effectiveState k)
        (MaxMap.latest (objectEntries parsed.blob.contexts) k) :=
  value_mergeContexts _ _ _ _

theorem subset_insertAll (entries : List (List Char × ℕ)) (ids : Finset (List Char)) :
    ids ⊆ entries.foldl (fun ids e => insert e.1 ids) ids := by
  induction entries generalizing ids with
  | nil => exact subset_rfl
  | cons e entries ih => exact (Finset.subset_insert e.1 ids).trans (ih _)

theorem insertAll_of_mem (entries : List (List Char × ℕ)) (ids : Finset (List Char))
    (h : ∀ e ∈ entries, e.1 ∈ ids) :
    entries.foldl (fun ids e => insert e.1 ids) ids = ids := by
  induction entries with
  | nil => rfl
  | cons e entries ih =>
    rw [List.foldl_cons, Finset.insert_eq_of_mem (h e List.mem_cons_self)]
    exact ih fun e' he' => h e' (List.mem_cons_of_mem _ he')

theorem finishMerge_effectiveState (m : ReadStateManager) (own : OwnBlobs) :
    (m.finishMerge own).effectiveState = m.effectiveState := by
  rw [finishMerge]
  split_ifs <;> rfl

theorem grows_finishMerge (m : ReadStateManager) (own : OwnBlobs) :
    Grows m (m.finishMerge own) := by
  rw [finishMerge]
  split_ifs
  · exact Grows.refl m
  · exact ⟨rfl, rfl, fun h => ⟨_, h, le_rfl⟩, subset_insertAll _ _⟩

/-! ### Incoming events -/

theorem incomingContext_effectiveState (createdAt : ℕ) (acc : ReadStateManager × Bool)
    (e : List Char × ℕ) :
    (incomingContext createdAt acc e).1.effectiveState =
      MaxMap.raise acc.1.effectiveState e.1 e.2 :=
  applyRemote_effectiveState _ acc.1.contextSourceCreatedAt _ _ createdAt

theorem advances_incomingContext (createdAt : ℕ) (acc : ReadStateManager × Bool)
    (e : List Char × ℕ) : Advances acc.1 (incomingContext createdAt acc e).1 := by
  refine ⟨rfl, rfl, rfl, rfl, rfl, rfl, le_rfl, id, fun {k t} ht => ?_, Finset.subset_insert _ _⟩
  rw [incomingContext_effectiveState]
  exact MaxMap.exists_lookup_raise ht _ _

/-- Nothing changed, unless the flag says so. -/
theorem still_incomingContext {createdAt : ℕ} {acc : ReadStateManager × Bool} {e : List Char × ℕ}
    (h : (incomingContext createdAt acc e).2 = false) :
    acc.2 = false ∧ Still acc.1 (incomingContext createdAt acc e).1 := by
  have hflag : ((acc.2 || (applyRemoteContextTimestamp acc.1.effectiveState
      acc.1.contextSourceCreatedAt e.1 e.2 createdAt).advanced) ||
      decide (e.1 ∉ acc.1.publishableContextIds)) = false := h
  rw [Bool.or_eq_false_iff, Bool.or_eq_false_iff, ← Bool.not_eq_true _,
    ← Bool.not_eq_true (ApplyRemoteContextResult.advanced _), applyRemote_advanced, not_lt,
    decide_eq_false_iff_not, not_not] at hflag
  obtain ⟨⟨hacc, hle⟩, hpub⟩ := hflag
  refine ⟨Bool.eq_false_iff.mpr hacc, ?_, Finset.insert_eq_of_mem hpub⟩
  rw [incomingContext_effectiveState, MaxMap.raise_of_le hle]

theorem flag_incomingContext_of_knows {createdAt : ℕ} {acc : ReadStateManager × Bool}
    {e : List Char × ℕ} (h : acc.1.Knows [e]) :
    (incomingContext createdAt acc e).2 = acc.2 := by
  have hadv : (applyRemoteContextTimestamp acc.1.effectiveState acc.1.contextSourceCreatedAt e.1
      e.2 createdAt).advanced = false := by
    rw [← Bool.not_eq_true, applyRemote_advanced]
    exact not_lt.mpr (h.le_value List.mem_cons_self)
  have hpub : e.1 ∈ acc.1.publishableContextIds := (h e.1 e.2 List.mem_cons_self).1
  simp [incomingContext, hadv, hpub]

theorem advances_incomingContexts (createdAt : ℕ) :
    ∀ (entries : List (List Char × ℕ)) (acc : ReadStateManager × Bool),
      Advances acc.1 (entries.foldl (incomingContext createdAt) acc).1
  | [], acc => Advances.refl acc.1
  | e :: entries, acc =>
    (advances_incomingContext createdAt acc e).trans (advances_incomingContexts createdAt entries _)

theorem still_incomingContexts (createdAt : ℕ) :
    ∀ (entries : List (List Char × ℕ)) (acc : ReadStateManager × Bool),
      (entries.foldl (incomingContext createdAt) acc).2 = false →
        acc.2 = false ∧ Still acc.1 (entries.foldl (incomingContext createdAt) acc).1
  | [], acc, h => ⟨h, Still.refl acc.1⟩
  | e :: entries, acc, h => by
    obtain ⟨hflag, hrest⟩ := still_incomingContexts createdAt entries _ h
    obtain ⟨hacc, hstep⟩ := still_incomingContext hflag
    exact ⟨hacc, hstep.trans hrest⟩

theorem flag_incomingContexts_of_knows (createdAt : ℕ) :
    ∀ (entries : List (List Char × ℕ)) (acc : ReadStateManager × Bool), acc.1.Knows entries →
      (entries.foldl (incomingContext createdAt) acc).2 = acc.2
  | [], _, _ => rfl
  | e :: entries, acc, h => by
    have hhead : acc.1.Knows [e] := h.of_subset fun k v hmem => by
      rw [List.mem_singleton.mp hmem]
      exact List.mem_cons_self
    have hrest : acc.1.Knows entries := h.of_subset fun k v hmem => List.mem_cons_of_mem _ hmem
    rw [List.foldl_cons, flag_incomingContexts_of_knows createdAt entries _
      (hrest.advances (advances_incomingContext createdAt acc e)),
      flag_incomingContext_of_knows hhead]

theorem value_incomingContexts (createdAt : ℕ) (k : List Char) :
    ∀ (entries : List (List Char × ℕ)) (acc : ReadStateManager × Bool),
      MaxMap.value (entries.foldl (incomingContext createdAt) acc).1.effectiveState k =
        max (MaxMap.value acc.1.effectiveState k) (MaxMap.latest entries k)
  | [], acc => by rw [MaxMap.latest_nil, max_eq_left bot_le]; rfl
  | e :: entries, acc => by
    rw [List.foldl_cons, value_incomingContexts createdAt k entries,
      incomingContext_effectiveState, MaxMap.value_raise, max_assoc, ← MaxMap.latest_append,
      List.singleton_append]

/-- The manager and the flag after the contexts of an incoming event. -/
def incomingContexts (m : ReadStateManager) (parsed : ParsedReadStateEvent) :
    ReadStateManager × Bool :=
  (objectEntries parsed.blob.contexts).foldl (incomingContext parsed.createdAt)
    ({ m with maxFetchedCreatedAt := max m.maxFetchedCreatedAt parsed.createdAt }, false)

theorem applyIncoming_eq (m : ReadStateManager) (parsed : ParsedReadStateEvent) :
    m.applyIncoming parsed =
      if (m.incomingContexts parsed).2 && decide (parsed.blob.clientId ≠ m.clientId) then
        (m.incomingContexts parsed).1.schedulePublish
      else (m.incomingContexts parsed).1 := rfl

theorem advances_schedulePublish (m : ReadStateManager) : Advances m m.schedulePublish :=
  ⟨rfl, rfl, rfl, rfl, rfl, rfl, le_rfl, fun _ => rfl, fun h => ⟨_, h, le_rfl⟩, subset_rfl⟩

theorem advances_applyIncoming (m : ReadStateManager) (parsed : ParsedReadStateEvent) :
    Advances m (m.applyIncoming parsed) := by
  have hcontexts : Advances m (m.incomingContexts parsed).1 :=
    (m.advances_fetched parsed.createdAt).trans
      (advances_incomingContexts parsed.createdAt (objectEntries parsed.blob.contexts) (_, false))
  rw [applyIncoming_eq]
  split_ifs
  · exact hcontexts.trans (advances_schedulePublish _)
  · exact hcontexts

/-- What another client's event changes is to be published; an event that is known changes
nothing. -/
theorem still_applyIncoming {m : ReadStateManager} {parsed : ParsedReadStateEvent}
    (h : parsed.blob.clientId = m.clientId → m.Knows (objectEntries parsed.blob.contexts)) :
    (m.applyIncoming parsed).debounceTimer = true ∨ Still m (m.applyIncoming parsed) := by
  have hstill : (m.incomingContexts parsed).2 = false → Still m (m.incomingContexts parsed).1 :=
    fun hflag => Still.trans ⟨rfl, rfl⟩ (still_incomingContexts _ _ _ hflag).2
  rw [applyIncoming_eq]
  by_cases hown : parsed.blob.clientId = m.clientId
  · have hflag : (m.incomingContexts parsed).2 = false :=
      flag_incomingContexts_of_knows _ _ _
        ((h hown).advances (m.advances_fetched parsed.createdAt))
    rw [if_neg (by simp [hown])]
    exact .inr (hstill hflag)
  · cases hflag : (m.incomingContexts parsed).2 with
    | true =>
      rw [if_pos (by simp [hown])]
      exact .inl rfl
    | false =>
      rw [if_neg (by simp)]
      exact .inr (hstill hflag)

/-- An incoming event takes the maximum. -/
theorem value_applyIncoming (m : ReadStateManager) (parsed : ParsedReadStateEvent)
    (k : List Char) :
    MaxMap.value (m.applyIncoming parsed).effectiveState k =
      max (MaxMap.value m.effectiveState k)
        (MaxMap.latest (objectEntries parsed.blob.contexts) k) := by
  have hvalue : MaxMap.value (m.incomingContexts parsed).1.effectiveState k =
      max (MaxMap.value m.effectiveState k)
        (MaxMap.latest (objectEntries parsed.blob.contexts) k) :=
    value_incomingContexts _ _ _ _
  rw [applyIncoming_eq]
  split_ifs <;> exact hvalue

theorem mem_publishable_incomingContexts (createdAt : ℕ) {a : List Char} :
    ∀ (entries : List (List Char × ℕ)) (acc : ReadStateManager × Bool),
      a ∈ (entries.foldl (incomingContext createdAt) acc).1.publishableContextIds →
        a ∈ acc.1.publishableContextIds ∨ ∃ v, (a, v) ∈ entries
  | [], _, h => .inl h
  | e :: entries, acc, h => by
    rcases mem_publishable_incomingContexts createdAt entries _ h with hstep | ⟨v, hv⟩
    · rcases Finset.mem_insert.mp hstep with rfl | hmem
      · exact .inr ⟨e.2, List.mem_cons_self⟩
      · exact .inl hmem
    · exact .inr ⟨v, List.mem_cons_of_mem _ hv⟩

/-- The publishable contexts after an incoming event. -/
theorem mem_publishable_applyIncoming {m : ReadStateManager} {parsed : ParsedReadStateEvent}
    {a : List Char} (h : a ∈ (m.applyIncoming parsed).publishableContextIds) :
    a ∈ m.publishableContextIds ∨ ∃ v, (a, v) ∈ objectEntries parsed.blob.contexts := by
  have hcontexts : a ∈ (m.incomingContexts parsed).1.publishableContextIds := by
    rw [applyIncoming_eq] at h
    split_ifs at h <;> exact h
  exact mem_publishable_incomingContexts _ _ _ hcontexts

/-! ### Local marks -/

theorem advanceContext_effectiveState (m : ReadStateManager) (k : List Char) (t : ℕ)
    (publishable : Bool) :
    (m.advanceContext k t publishable).effectiveState = MaxMap.raise m.effectiveState k t := by
  have hvalue : (m.effectiveState.lookup k).getD 0 = MaxMap.value m.effectiveState k := rfl
  rw [advanceContext, MaxMap.raise, hvalue]
  split_ifs <;> rfl

theorem advances_advanceContext (m : ReadStateManager) (k : List Char) (t : ℕ)
    (publishable : Bool) : Advances m (m.advanceContext k t publishable) := by
  have heff : ∀ {a v}, m.effectiveState.lookup a = some v →
      ∃ v', (m.advanceContext k t publishable).effectiveState.lookup a = some v' ∧ v ≤ v' := by
    intro a v hv
    rw [advanceContext_effectiveState]
    exact MaxMap.exists_lookup_raise hv _ _
  simp only [advanceContext] at heff ⊢
  split_ifs at heff ⊢
  · exact Advances.refl m
  · exact ⟨rfl, rfl, rfl, rfl, rfl, rfl, le_rfl, fun _ => rfl, heff, Finset.subset_insert _ _⟩
  · exact ⟨rfl, rfl, rfl, rfl, rfl, rfl, le_rfl, fun _ => rfl, heff, Finset.subset_insert _ _⟩
  · exact ⟨rfl, rfl, rfl, rfl, rfl, rfl, le_rfl, id, heff, subset_rfl⟩

theorem advances_markContextRead (m : ReadStateManager) (k : List Char) (t now : ℕ) :
    Advances m (m.markContextRead k t now) :=
  (m.advances_advanceContext k t true).trans
    ⟨rfl, rfl, rfl, rfl, rfl, rfl, le_rfl, id, fun h => ⟨_, h, le_rfl⟩, subset_rfl⟩

/-- What a mark changes is to be published. -/
theorem still_markContextRead (m : ReadStateManager) (k : List Char) (t now : ℕ) :
    (m.markContextRead k t now).debounceTimer = true ∨ Still m (m.markContextRead k t now) := by
  have hadvance : (m.advanceContext k t true).debounceTimer = true ∨
      Still m (m.advanceContext k t true) := by
    simp only [advanceContext]
    split_ifs
    · exact .inr (Still.refl m)
    · exact .inl rfl
    · exact .inl rfl
  exact hadvance

theorem value_advanceContext (m : ReadStateManager) (a : List Char) (t : ℕ) (publishable : Bool)
    (k : List Char) :
    MaxMap.value (m.advanceContext a t publishable).effectiveState k =
      max (MaxMap.value m.effectiveState k) (MaxMap.latest [(a, t)] k) := by
  rw [advanceContext_effectiveState, MaxMap.value_raise]

/-- The publishable contexts after a mark. -/
theorem mem_publishable_markContextRead {m : ReadStateManager} {k a : List Char} {t now : ℕ}
    (h : a ∈ (m.markContextRead k t now).publishableContextIds) :
    a ∈ m.publishableContextIds ∨ a = k := by
  have hadvance : a ∈ (m.advanceContext k t true).publishableContextIds := h
  simp only [advanceContext] at hadvance
  split_ifs at hadvance
  · exact .inl hadvance
  · exact (Finset.mem_insert.mp hadvance).symm
  · exact (Finset.mem_insert.mp hadvance).symm

/-! ### What is built -/

theorem mem_publishableEntries_iff {m : ReadStateManager} {k : List Char} {v : ℕ} :
    (k, v) ∈ m.publishableEntries ↔
      m.effectiveState.lookup k = some v ∧ k ∈ m.publishableContextIds := by
  rw [publishableEntries, List.mem_map, ← HashMap.mem_entries_iff]
  constructor
  · rintro ⟨⟨a, x⟩, hmem, heq⟩
    obtain ⟨rfl, rfl⟩ := Prod.mk.inj heq
    rw [List.mem_filter, decide_eq_true_iff] at hmem
    exact hmem
  · rintro ⟨hmem, hpub⟩
    exact ⟨⟨k, v⟩, List.mem_filter.mpr ⟨hmem, decide_eq_true hpub⟩, rfl⟩

theorem publishableEntries_unique {m : ReadStateManager} {k : List Char} {v : ℕ}
    (h : m.effectiveState.lookup k = some v) (t : ℕ) (ht : (k, t) ∈ m.publishableEntries) :
    t = v := by
  rw [mem_publishableEntries_iff, h] at ht
  exact (Option.some.inj ht.1).symm

theorem currentContexts_eq_some {m : ReadStateManager} {contexts : Record}
    (h : m.currentContexts = some contexts) :
    contexts = (trimContextsToBudget (assignAll ∅ m.publishableEntries) m.clientId
      readStateMaxPlaintextBytes).contexts := by
  simp only [currentContexts] at h
  split_ifs at h
  exact (Option.some.inj h).symm

/-- What is built is publishable, at its timestamp. -/
theorem of_lookup_currentContexts {m : ReadStateManager} {contexts : Record}
    (h : m.currentContexts = some contexts) {k : List Char} {v : ℕ}
    (hk : contexts.lookup k = some v) :
    m.effectiveState.lookup k = some v ∧ k ∈ m.publishableContextIds := by
  rw [currentContexts_eq_some h] at hk
  rcases of_lookup_assignAll _ _ (of_lookup_trim hk) with hmem | ⟨hempty, -⟩
  · exact mem_publishableEntries_iff.mp hmem
  · cases hempty

/-- Every publishable channel context is built. -/
theorem lookup_currentContexts_channel {m : ReadStateManager} {contexts : Record}
    (h : m.currentContexts = some contexts) {k : List Char} {v : ℕ}
    (hchannel : isChannelKey k = true) (hproto : k ≠ protoName)
    (heff : m.effectiveState.lookup k = some v) (hpub : k ∈ m.publishableContextIds) :
    contexts.lookup k = some v := by
  rw [currentContexts_eq_some h, lookup_trim_channel hchannel]
  exact lookup_assignAll hproto (mem_publishableEntries_iff.mpr ⟨heff, hpub⟩)
    (publishableEntries_unique heff) ∅

/-- What is identical to what was last published was last published. -/
theorem lookup_of_isIdentical {m : ReadStateManager} {contexts : Record}
    (h : m.isIdenticalToLastPublished contexts = true) {k : List Char} {v : ℕ}
    (hk : contexts.lookup k = some v) : m.lastPublishedContexts.lookup k = some v := by
  rw [isIdenticalToLastPublished, Bool.and_eq_true, List.all_eq_true] at h
  exact of_decide_eq_true (h.2 ⟨k, v⟩ (HashMap.mem_entries_iff.mpr hk))

section Split

variable {m m' : ReadStateManager} {slotIdGenerator : ℕ → List Char}
  {slots : List (List Char × Record)}

theorem splitContextsIntoSlots_eq (m : ReadStateManager) (slotIdGenerator : ℕ → List Char) :
    m.splitContextsIntoSlots slotIdGenerator =
      match m.budgetedSlots slotIdGenerator with
      | none => (m, none)
      | some result =>
        ({ m with extraSlotIds := m.extraSlotIds ++ result.extraSlotIds },
          some ((m.slotIds ++ result.extraSlotIds).zip result.slots)) := by
  have hids : ∀ ids : List (List Char),
      (if (m.extraSlotIds ++ ids).length ≠ m.extraSlotIds.length then m.extraSlotIds ++ ids
        else m.extraSlotIds) = m.extraSlotIds ++ ids := by
    intro ids
    split_ifs with h
    · rfl
    · rw [List.length_append, ne_eq, not_not, Nat.add_eq_left, List.length_eq_zero_iff] at h
      rw [h, List.append_nil]
  simp only [splitContextsIntoSlots, hids]

/-- What a split that succeeds returns. -/
theorem split_inv (h : m.splitContextsIntoSlots slotIdGenerator = (m', some slots)) :
    ∃ result, m.budgetedSlots slotIdGenerator = some result ∧
      m' = { m with extraSlotIds := m.extraSlotIds ++ result.extraSlotIds } ∧
      slots = (m.slotIds ++ result.extraSlotIds).zip result.slots := by
  rw [splitContextsIntoSlots_eq] at h
  cases hres : m.budgetedSlots slotIdGenerator with
  | none =>
    rw [hres] at h
    cases (Prod.mk.inj h).2
  | some result =>
    rw [hres] at h
    obtain ⟨rfl, hslots⟩ := Prod.mk.inj h
    exact ⟨result, rfl, rfl, (Option.some.inj hslots).symm⟩

/-- A split names each slot of this client once, the new ones included. -/
theorem split_slotIds (h : m.splitContextsIntoSlots slotIdGenerator = (m', some slots)) :
    slots.map Prod.fst = m'.slotIds := by
  obtain ⟨result, hres, rfl, rfl⟩ := split_inv h
  have hlen := length_split hres
  rw [List.map_fst_zip]
  · rfl
  · rw [List.length_append, hlen]

theorem split_extraSlotIds (h : m.splitContextsIntoSlots slotIdGenerator = (m', some slots)) :
    ∃ n, m' =
      { m with extraSlotIds := m.extraSlotIds ++ (List.range n).map slotIdGenerator } := by
  obtain ⟨result, hres, rfl, -⟩ := split_inv h
  obtain ⟨slotCount, -, -, hextra⟩ := split_eq_some hres
  exact ⟨_, by rw [hextra]⟩

/-- What a split holds is publishable, at its timestamp. -/
theorem of_lookup_split (h : m.splitContextsIntoSlots slotIdGenerator = (m', some slots))
    {slot : List Char × Record} (hslot : slot ∈ slots) {k : List Char} {v : ℕ}
    (hk : slot.2.lookup k = some v) :
    m.effectiveState.lookup k = some v ∧ k ∈ m.publishableContextIds := by
  obtain ⟨result, hres, rfl, rfl⟩ := split_inv h
  obtain ⟨i, hi⟩ := List.mem_iff_getElem?.mp (List.of_mem_zip hslot).2
  have hmem := of_heldIn_split hres ⟨i, slot.2, hi, hk⟩
  rw [channelEntries, threadMsgEntries, List.mem_filter, List.mem_filter] at hmem
  exact mem_publishableEntries_iff.mp (hmem.elim And.left And.left)

/-- Every publishable channel context is in a slot of the split. -/
theorem channel_mem_split (h : m.splitContextsIntoSlots slotIdGenerator = (m', some slots))
    {k : List Char} {v : ℕ} (hchannel : isChannelKey k = true) (hproto : k ≠ protoName)
    (heff : m.effectiveState.lookup k = some v) (hpub : k ∈ m.publishableContextIds) :
    ∃ slot ∈ slots, slot.2.lookup k = some v := by
  obtain ⟨result, hres, rfl, rfl⟩ := split_inv h
  have hmem : (k, v) ∈ m.channelEntries :=
    List.mem_filter.mpr ⟨mem_publishableEntries_iff.mpr ⟨heff, hpub⟩, hchannel⟩
  obtain ⟨i, c, hi, hc⟩ := heldIn_split hres (Nat.succ_pos _) hchannel hproto hmem
    (fun t ht => publishableEntries_unique heff t (List.mem_filter.mp ht).1)
    (fun t ht => by simpa [hchannel] using (List.mem_filter.mp ht).2)
  have hlen := length_split hres
  have hlt : i < (m.slotIds ++ result.extraSlotIds).length := by
    rw [List.length_append, ← hlen]
    exact (List.getElem?_eq_some_iff.mp hi).1
  refine ⟨((m.slotIds ++ result.extraSlotIds)[i], c), ?_, hc⟩
  refine List.mem_iff_getElem?.mpr ⟨i, ?_⟩
  rw [List.getElem?_zip_eq_some]
  exact ⟨List.getElem?_eq_getElem hlt, hi⟩

end Split

end ReadStateManager

end Buzz.Desktop.ReadState
