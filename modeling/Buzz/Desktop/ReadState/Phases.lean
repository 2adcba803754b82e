import Buzz.Desktop.ReadState.Converge

/-!
# One publish at a time

What holds at each await of a publish while no other publish is in progress (`Phase`). Between two
publishes, what was last published is on the relay, and so is every publishable channel context
unless the timer is set. A publish that has built its contexts carries every channel context, and
until it ends each of them is either carried for a slot that is still to be written or held by a
slot that is not (`Settling`).

The marks and events that come in meanwhile move timestamps forward, but they also set the timer
(`Drifts`), so that nothing is promised until the next publish.

## Main definitions

* `Wanted`, `HeldBy`, `HeldOutside`: the contexts to be published, and where the relay has them.
* `ReadStateManager.Fits`: the channel keys fit the slot budget.
* `Seen`, `Published`, `Built`, `Settling`, `Phase`.

## Main results

* `Phase.drift`: a phase survives marks and incoming events.
* `phase_buildPublish`, `phase_sent`: what a publish promises when it has built its contexts, and
  what is left to promise when a slot has been written.
-/

namespace Buzz.Desktop.ReadState

open Buzz.Library ReadStateManager

/-! ### What is to be published, and where it is -/

/-- A publishable channel context, at its timestamp. -/
def Wanted (m : ReadStateManager) (k : List Char) (v : ℕ) : Prop :=
  isChannelKey k = true ∧ k ∈ m.publishableContextIds ∧ m.effectiveState.lookup k = some v

/-- The relay holds an own blob with this entry under a slot. -/
def HeldBy (m : ReadStateManager) (relay : Relay) (slotId k : List Char) (v : ℕ) : Prop :=
  ∃ (e : RelayEvent) (contexts : Record), relay.lookup (slotDTag slotId) = some e ∧
    e.content = some ⟨m.clientId, contexts⟩ ∧ contexts.lookup k = some v

/-- The relay holds an own blob with this entry under an own slot that is not one of `slots`. -/
def HeldOutside (m : ReadStateManager) (relay : Relay) (slots : List (List Char)) (k : List Char)
    (v : ℕ) : Prop :=
  ∃ slotId ∈ m.slotIds, slotId ∉ slots ∧ HeldBy m relay slotId k v

/-- The channel keys fit the slot budget: they fit a single blob, or they can be split. -/
def ReadStateManager.Fits (m : ReadStateManager) : Prop :=
  m.currentContexts.isSome = true ∨ (m.budgetedSlots fun _ => []).isSome = true

/-- The events under the own slots, apart from `slots`, are no newer than the newest seen. -/
def Seen (m : ReadStateManager) (relay : Relay) (slots : List (List Char)) : Prop :=
  ∀ slotId ∈ m.slotIds, slotId ∉ slots → ∀ e, relay.lookup (slotDTag slotId) = some e →
    e.createdAt ≤ m.maxFetchedCreatedAt

/-- What was last published of the channels is on the relay. -/
def Published (m : ReadStateManager) (relay : Relay) : Prop :=
  ∀ k v, isChannelKey k = true → m.lastPublishedContexts.lookup k = some v →
    HeldOutside m relay [] k v

/-- The contexts hold all that is wanted, unless the timer is set. -/
def Built (m : ReadStateManager) (contexts : Record) : Prop :=
  m.debounceTimer = false → ∀ k v, Wanted m k v → contexts.lookup k = some v

/-- The slots are still to be written. What is wanted, and what was last published, is carried for
one of them or held by another own slot. -/
structure Settling (m : ReadStateManager) (relay : Relay) (slots : List (List Char × Record)) :
    Prop where
  subset : slots.map Prod.fst ⊆ m.slotIds
  nodup : (slots.map Prod.fst).Nodup
  wanted : m.debounceTimer = false → ∀ k v, Wanted m k v →
    (∃ slot ∈ slots, slot.2.lookup k = some v) ∨
      HeldOutside m relay (slots.map Prod.fst) k v
  published : ∀ k v, isChannelKey k = true → m.lastPublishedContexts.lookup k = some v →
    (∃ slot ∈ slots, (slot.2.lookup k).isSome = true) ∨
      HeldOutside m relay (slots.map Prod.fst) k v

/-- Every event of a batch is held under an own slot, and so is every entry of the own blobs that
were collected. -/
structure Fetched (m : ReadStateManager) (relay : Relay) (task : MergeTask) : Prop where
  events : ∀ e ∈ task.events, ∃ slotId ∈ m.slotIds, relay.lookup (slotDTag slotId) = some e
  pending : task.pending ⊆ task.events
  own : ∀ k v, (k, v) ∈ ownEntries task.own → HeldOutside m relay [] k v

/-- The event under a slot is older than `createdAt`. -/
def OlderThan (relay : Relay) (slotId : List Char) (createdAt : ℕ) : Prop :=
  ∀ e, relay.lookup (slotDTag slotId) = some e → e.createdAt < createdAt

/-- What holds at each await of the publish in progress, and when there is none. -/
def Phase (m : ReadStateManager) (relay : Relay) (sent : List RelayEvent) : Option Publish → Prop
  | none => Seen m relay [] ∧ Published m relay ∧
      (m.debounceTimer = false → m.Fits → ∀ k v, Wanted m k v → HeldOutside m relay [] k v)
  | some (.fetching dTags) =>
    Seen m relay [] ∧ Published m relay ∧ dTags = m.slotIds.map slotDTag
  | some (.merging task) => Seen m relay [] ∧ Published m relay ∧ Fetched m relay task
  | some .merged => Seen m relay [] ∧ Published m relay
  | some (.deleteSigning _ _ contexts) | some (.deleteSending _ _ _ contexts)
  | some (.deleteSent _ contexts) | some (.deleted contexts) =>
    Seen m relay [] ∧ Built m contexts
  | some (.encrypting slotId contexts slots) =>
    Seen m relay [] ∧ Settling m relay ((slotId, contexts) :: slots)
  | some (.signing slotId contexts slots createdAt) =>
    Seen m relay [] ∧ Settling m relay ((slotId, contexts) :: slots) ∧
      OlderThan relay slotId createdAt
  | some (.sending slotId contexts slots event) =>
    Seen m relay [] ∧ Settling m relay ((slotId, contexts) :: slots) ∧
      OlderThan relay slotId event.createdAt ∧ event ∈ sent ∧
      event.content = some ⟨m.clientId, contexts⟩
  | some (.sent slotId contexts slots event) =>
    Seen m relay [slotId] ∧ Settling m relay ((slotId, contexts) :: slots) ∧
      relay.lookup (slotDTag slotId) = some event ∧
      event.content = some ⟨m.clientId, contexts⟩

/-! ### Marks and events in between -/

/-- The manager moves without publishing: what it changes of the timestamps it will publish. -/
structure Drifts (m m' : ReadStateManager) : Prop where
  clientId : m'.clientId = m.clientId
  slotIds : m'.slotIds = m.slotIds
  lastPublishedContexts : m'.lastPublishedContexts = m.lastPublishedContexts
  maxFetchedCreatedAt : m.maxFetchedCreatedAt ≤ m'.maxFetchedCreatedAt
  quiet : m'.debounceTimer = true ∨ m'.debounceTimer = m.debounceTimer ∧ Still m m'

section Drift

variable {m m' : ReadStateManager} {relay relay' : Relay}

theorem Drifts.of_advances (h : Advances m m') (hquiet : m'.debounceTimer = true ∨ Still m m') :
    Drifts m m' := by
  refine ⟨h.clientId, ?_, h.lastPublishedContexts, h.maxFetchedCreatedAt, ?_⟩
  · rw [ReadStateManager.slotIds, h.slotId, h.extraSlotIds, ReadStateManager.slotIds]
  · cases ht : m'.debounceTimer with
    | true => exact .inl rfl
    | false =>
      refine .inr ⟨?_, hquiet.resolve_left fun h => Bool.false_ne_true (ht.symm.trans h)⟩
      cases hm : m.debounceTimer with
      | true => exact absurd (h.debounceTimer hm) (by rw [ht]; exact Bool.false_ne_true)
      | false => rfl

theorem Drifts.refl (m : ReadStateManager) : Drifts m m :=
  ⟨rfl, rfl, rfl, le_rfl, .inr ⟨rfl, Still.refl m⟩⟩

/-- While the timer is not set, nothing is wanted that was not. -/
theorem Drifts.wanted (h : Drifts m m') (ht : m'.debounceTimer = false) :
    m.debounceTimer = false ∧ Still m m' ∧ ∀ k v, Wanted m' k v ↔ Wanted m k v := by
  rcases h.quiet with htrue | ⟨htimer, hstill⟩
  · exact absurd htrue (by rw [ht]; exact Bool.false_ne_true)
  · refine ⟨htimer ▸ ht, hstill, fun k v => ?_⟩
    rw [Wanted, Wanted, hstill.1, hstill.2]

theorem fits_congr (hstill : Still m m') (hclient : m'.clientId = m.clientId)
    (hslots : m'.slotIds = m.slotIds) : m'.Fits ↔ m.Fits := by
  have hentries : m'.publishableEntries = m.publishableEntries := by
    rw [publishableEntries, publishableEntries, hstill.1, hstill.2]
  rw [Fits, Fits, currentContexts, currentContexts, budgetedSlots, budgetedSlots, channelEntries,
    channelEntries, threadMsgEntries, threadMsgEntries, hentries, hclient, hslots]

/-- The relay is the same under the own slots. -/
def SameSlots (m : ReadStateManager) (relay relay' : Relay) : Prop :=
  ∀ slotId ∈ m.slotIds, relay'.lookup (slotDTag slotId) = relay.lookup (slotDTag slotId)

variable (hd : Drifts m m') (hr : SameSlots m relay relay')
include hd hr

theorem HeldOutside.drift {slots : List (List Char)} {k : List Char} {v : ℕ}
    (h : HeldOutside m relay slots k v) : HeldOutside m' relay' slots k v := by
  obtain ⟨slotId, hmem, hnot, e, contexts, he, hcontent, hk⟩ := h
  refine ⟨slotId, hd.slotIds ▸ hmem, hnot, e, contexts, ?_, ?_, hk⟩
  · rw [hr slotId hmem, he]
  · rw [hcontent, hd.clientId]

theorem Seen.drift {slots : List (List Char)} (h : Seen m relay slots) :
    Seen m' relay' slots := by
  intro slotId hmem hnot e he
  rw [hd.slotIds] at hmem
  rw [hr slotId hmem] at he
  exact (h slotId hmem hnot e he).trans hd.maxFetchedCreatedAt

theorem Published.drift (h : Published m relay) : Published m' relay' := by
  intro k v hchannel hk
  rw [hd.lastPublishedContexts] at hk
  exact (h k v hchannel hk).drift hd hr

omit hr in
theorem Built.drift {contexts : Record} (h : Built m contexts) : Built m' contexts := by
  intro ht k v hwanted
  obtain ⟨ht₀, -, hiff⟩ := hd.wanted ht
  exact h ht₀ k v ((hiff k v).mp hwanted)

theorem Settling.drift {slots : List (List Char × Record)} (h : Settling m relay slots) :
    Settling m' relay' slots := by
  refine ⟨hd.slotIds ▸ h.subset, h.nodup, ?_, ?_⟩
  · intro ht k v hwanted
    obtain ⟨ht₀, -, hiff⟩ := hd.wanted ht
    exact (h.wanted ht₀ k v ((hiff k v).mp hwanted)).imp_right fun hheld => hheld.drift hd hr
  · intro k v hchannel hk
    rw [hd.lastPublishedContexts] at hk
    exact (h.published k v hchannel hk).imp_right fun hheld => hheld.drift hd hr

theorem Fetched.drift {task : MergeTask} (h : Fetched m relay task) : Fetched m' relay' task := by
  refine ⟨fun e he => ?_, h.pending, fun k v hmem => (h.own k v hmem).drift hd hr⟩
  obtain ⟨slotId, hmem, hlook⟩ := h.events e he
  exact ⟨slotId, hd.slotIds ▸ hmem, by rw [hr slotId hmem, hlook]⟩

/-- A phase survives the marks and the events that come in. -/
theorem Phase.drift {sent : List RelayEvent} {p : Option Publish} (h : Phase m relay sent p) :
    Phase m' relay' sent p := by
  have hhead : ∀ {slotId contexts slots},
      Settling m relay ((slotId, contexts) :: slots) → slotId ∈ m.slotIds :=
    fun hs => hs.subset List.mem_cons_self
  cases p with
  | none =>
    obtain ⟨hseen, hpub, hcovered⟩ := h
    refine ⟨hseen.drift hd hr, hpub.drift hd hr, fun ht hfits k v hwanted => ?_⟩
    obtain ⟨ht₀, hstill, hiff⟩ := hd.wanted ht
    have hfits₀ := (fits_congr hstill hd.clientId hd.slotIds).mp hfits
    exact (hcovered ht₀ hfits₀ k v ((hiff k v).mp hwanted)).drift hd hr
  | some p =>
    cases p with
    | fetching dTags => exact ⟨h.1.drift hd hr, h.2.1.drift hd hr, by rw [h.2.2, hd.slotIds]⟩
    | merging task => exact ⟨h.1.drift hd hr, h.2.1.drift hd hr, h.2.2.drift hd hr⟩
    | merged => exact ⟨h.1.drift hd hr, h.2.drift hd hr⟩
    | deleteSigning _ _ contexts => exact ⟨h.1.drift hd hr, h.2.drift hd⟩
    | deleteSending _ _ _ contexts => exact ⟨h.1.drift hd hr, h.2.drift hd⟩
    | deleteSent _ contexts => exact ⟨h.1.drift hd hr, h.2.drift hd⟩
    | deleted contexts => exact ⟨h.1.drift hd hr, h.2.drift hd⟩
    | encrypting slotId contexts slots => exact ⟨h.1.drift hd hr, h.2.drift hd hr⟩
    | signing slotId contexts slots createdAt =>
      refine ⟨h.1.drift hd hr, h.2.1.drift hd hr, fun e he => h.2.2 e ?_⟩
      rw [← hr slotId (hhead h.2.1), he]
    | sending slotId contexts slots event =>
      obtain ⟨hseen, hsettling, holder, hsent, hcontent⟩ := h
      refine ⟨hseen.drift hd hr, hsettling.drift hd hr, fun e he => holder e ?_, hsent, ?_⟩
      · rw [← hr slotId (hhead hsettling), he]
      · rw [hcontent, hd.clientId]
    | sent slotId contexts slots event =>
      obtain ⟨hseen, hsettling, hlook, hcontent⟩ := h
      refine ⟨hseen.drift hd hr, hsettling.drift hd hr, ?_, ?_⟩
      · rw [hr slotId (hhead hsettling), hlook]
      · rw [hcontent, hd.clientId]

end Drift

/-! ### Merging the answer -/

/-- What the relay holds under the own slots are own blobs that the manager knows. -/
def Own (m : ReadStateManager) (relay : Relay) : Prop :=
  ∀ slotId ∈ m.slotIds, ∀ e, relay.lookup (slotDTag slotId) = some e →
    ∃ contexts, e.content = some ⟨m.clientId, contexts⟩ ∧ m.Knows (objectEntries contexts)

section Merging

variable {m : ReadStateManager} {relay : Relay}

theorem Own.knows_of_held (hown : Own m relay) {slots : List (List Char)} {k : List Char} {v : ℕ}
    (h : HeldOutside m relay slots k v) :
    k ∈ m.publishableContextIds ∧ ∃ t, m.effectiveState.lookup k = some t ∧ v ≤ t := by
  obtain ⟨slotId, hmem, -, e, contexts, he, hcontent, hk⟩ := h
  obtain ⟨contexts', hcontent', hknows⟩ := hown slotId hmem e he
  obtain ⟨-, rfl⟩ := ReadStateBlob.mk.inj (Option.some.inj (hcontent.symm.trans hcontent'))
  exact hknows k v (mem_objectEntries_iff.mpr hk)

/-- A fetched event that parses is an own blob, and what it offers is held and known. -/
theorem Own.of_parse (hown : Own m relay) {task : MergeTask} (hf : Fetched m relay task)
    {event : RelayEvent} (hmem : event ∈ task.events) {parsed : ParsedReadStateEvent}
    (hparse : parseReadStateEvent event m.pubkey = some parsed) :
    parsed.blob.clientId = m.clientId ∧ m.Knows (objectEntries parsed.blob.contexts) ∧
      ∀ k v, (k, v) ∈ objectEntries parsed.blob.contexts → HeldOutside m relay [] k v := by
  obtain ⟨slotId, hslot, he⟩ := hf.events event hmem
  obtain ⟨contexts, hcontent, hknows⟩ := hown slotId hslot event he
  obtain ⟨-, blob, hblob, hparsed⟩ := parseReadStateEvent_eq_some hparse
  obtain rfl := Option.some.inj (hblob.symm.trans hcontent)
  have hlook : ∀ {k v}, (k, v) ∈ objectEntries parsed.blob.contexts →
      contexts.lookup k = some v := by
    intro k v hin
    rw [hparsed] at hin
    exact of_lookup_sanitizeContexts (mem_objectEntries_iff.mp hin)
  refine ⟨by rw [hparsed], fun k v hin => ?_, fun k v hin => ?_⟩
  · exact hknows k v (mem_objectEntries_iff.mpr (hlook hin))
  · exact ⟨slotId, hslot, List.not_mem_nil, event, contexts, he, hcontent, hlook hin⟩

theorem mem_ownEntries_set {own : OwnBlobs} {dTag : List Char} {b : ReadStateBlob × ℕ}
    {k : List Char} {v : ℕ} (h : (k, v) ∈ ownEntries (own.set dTag b)) :
    (k, v) ∈ ownEntries own ∨ (k, v) ∈ objectEntries b.1.contexts := by
  obtain ⟨⟨d, b'⟩, hmem, hin⟩ := List.mem_flatMap.mp h
  rw [HashMap.mem_entries_iff, HashMap.lookup_set] at hmem
  split_ifs at hmem
  · obtain rfl := Option.some.inj hmem
    exact .inr hin
  · exact .inl (List.mem_flatMap.mpr ⟨⟨d, b'⟩, HashMap.mem_entries_iff.mpr hmem, hin⟩)

theorem mem_ownEntries_collectOwn {own : OwnBlobs} {parsed : ParsedReadStateEvent}
    {k : List Char} {v : ℕ} (h : (k, v) ∈ ownEntries (m.collectOwn own parsed)) :
    (k, v) ∈ ownEntries own ∨ (k, v) ∈ objectEntries parsed.blob.contexts := by
  rw [collectOwn] at h
  split_ifs at h
  · split at h
    · split_ifs at h
      · exact mem_ownEntries_set h
      · exact .inl h
    · exact mem_ownEntries_set h
  · exact .inl h

/-- At the end of a batch, what the own blobs hold is what was last published. -/
theorem finishMerge_fetched (hown : Own m relay) {task : MergeTask} (hf : Fetched m relay task)
    (hpublished : Published m relay) :
    Still m (m.finishMerge task.own) ∧ Published (m.finishMerge task.own) relay := by
  rw [finishMerge]
  split_ifs
  · exact ⟨Still.refl m, hpublished⟩
  · refine ⟨⟨rfl, insertAll_of_mem _ _ fun e he => ?_⟩, fun k v _ hk => ?_⟩
    · exact (hown.knows_of_held (hf.own e.1 e.2 he)).1
    · rcases of_lookup_unionEntries _ _ hk with hempty | hmem
      · cases hempty
      · exact hf.own k v hmem

/-- Resuming the merge of the own slots changes no timestamp and gives up no slot. -/
theorem resume_fetched (hown : Own m relay) {task : MergeTask} (hf : Fetched m relay task)
    (hseen : Seen m relay []) (hpublished : Published m relay) (freshSlotId : List Char) :
    Still m (task.resume m freshSlotId).1 ∧
      (task.resume m freshSlotId).1.slotIds = m.slotIds ∧
      Seen (task.resume m freshSlotId).1 relay [] ∧
      Published (task.resume m freshSlotId).1 relay ∧
      ∀ task', (task.resume m freshSlotId).2 = some task' →
        Fetched (task.resume m freshSlotId).1 relay task' := by
  obtain ⟨events, pending, checking, own⟩ := task
  cases pending with
  | nil =>
    cases checking with
    | false =>
      refine ⟨Still.refl m, rfl, hseen, hpublished, ?_⟩
      rintro task' ⟨⟩
      exact ⟨hf.events, List.Subset.refl _, hf.own⟩
    | true =>
      obtain ⟨hstill, hpublished'⟩ := finishMerge_fetched hown hf hpublished
      have hframe : (m.finishMerge own).slotIds = m.slotIds ∧
          (m.finishMerge own).maxFetchedCreatedAt = m.maxFetchedCreatedAt := by
        rw [finishMerge]
        split_ifs <;> exact ⟨rfl, rfl⟩
      refine ⟨hstill, hframe.1, ?_, hpublished', ?_⟩
      · intro slotId hmem hnot e he
        change slotId ∈ (m.finishMerge own).slotIds at hmem
        change e.createdAt ≤ (m.finishMerge own).maxFetchedCreatedAt
        rw [hframe.1] at hmem
        rw [hframe.2]
        exact hseen slotId hmem hnot e he
      · rintro task' ⟨⟩
  | cons event pending =>
    have hevent : event ∈ events := hf.pending List.mem_cons_self
    have hpending : pending ⊆ events := fun e he => hf.pending (List.mem_cons_of_mem _ he)
    cases hparse : parseReadStateEvent event m.pubkey with
    | none =>
      have hresume : (MergeTask.mk events (event :: pending) checking own).resume m freshSlotId =
          (m, some ⟨events, pending, checking, own⟩) := by
        cases checking <;> simp only [MergeTask.resume, hparse]
      rw [hresume]
      refine ⟨Still.refl m, rfl, hseen, hpublished, ?_⟩
      rintro task' ⟨⟩
      exact ⟨hf.events, hpending, hf.own⟩
    | some parsed =>
      obtain ⟨hclient, hknows, hheld⟩ := hown.of_parse hf hevent hparse
      cases checking with
      | false =>
        have hresume : (MergeTask.mk events (event :: pending) false own).resume m freshSlotId =
            (m.mergeParsed parsed,
              some ⟨events, pending, false, m.collectOwn own parsed⟩) := by
          simp only [MergeTask.resume, hparse]
        have hadv := m.advances_mergeParsed parsed
        have hstill := still_mergeParsed hknows
        have hd : Drifts m (m.mergeParsed parsed) := .of_advances hadv (.inr hstill)
        have hr : SameSlots m relay relay := fun _ _ => rfl
        rw [hresume]
        refine ⟨hstill, hd.slotIds, hseen.drift hd hr, hpublished.drift hd hr, ?_⟩
        rintro task' ⟨⟩
        refine Fetched.drift hd hr ⟨hf.events, hpending, fun k v hmem => ?_⟩
        exact (mem_ownEntries_collectOwn hmem).elim (hf.own k v) (hheld k v)
      | true =>
        have hresume : (MergeTask.mk events (event :: pending) true own).resume m freshSlotId =
            (m, some ⟨events, pending, true, own⟩) := by
          simp only [MergeTask.resume, hparse]
          rw [if_neg fun hc => hc.2 hclient]
        rw [hresume]
        refine ⟨Still.refl m, rfl, hseen, hpublished, ?_⟩
        rintro task' ⟨⟩
        exact ⟨hf.events, hpending, hf.own⟩

end Merging

/-! ### Building the contexts -/

/-- New slot ids: they differ from one another and from the own ones, and the relay holds nothing
under them. -/
def NewSlotIds (m : ReadStateManager) (relay : Relay) (slotIdGenerator : ℕ → List Char) : Prop :=
  (∀ i, slotIdGenerator i ∉ m.slotIds ∧ relay.lookup (slotDTag (slotIdGenerator i)) = none) ∧
    Function.Injective slotIdGenerator

section Building

variable {m m' : ReadStateManager} {relay : Relay} {sent : List RelayEvent}
  {slotIdGenerator : ℕ → List Char}

theorem isSome_budgetedSlots (m : ReadStateManager) (g g' : ℕ → List Char) :
    (m.budgetedSlots g).isSome = (m.budgetedSlots g').isSome := by
  simp only [budgetedSlots, splitContextsIntoBudgetedSlots]
  split_ifs <;> rfl

theorem not_fits (hcurrent : m.currentContexts = none)
    (hsplit : m.budgetedSlots slotIdGenerator = none) : ¬ m.Fits := by
  rw [Fits, isSome_budgetedSlots m _ slotIdGenerator, hcurrent, hsplit]
  simp

/-- Publishing built contexts in the primary slot, or finding that they are published. -/
theorem phase_publishSingle {contexts : Record} (hseen : Seen m relay [])
    (hpublished : Published m relay) (hbuilt : Built m contexts)
    (hlast : ∀ k v, isChannelKey k = true → m.lastPublishedContexts.lookup k = some v →
      (contexts.lookup k).isSome = true)
    {p' : Option Publish} (hsingle : m.publishSingle contexts = (m', p')) :
    Phase m' relay sent p' := by
  rcases m.publishSingle_cases contexts with ⟨hident, heq⟩ | heq <;>
    obtain ⟨rfl, rfl⟩ := Prod.mk.inj (heq.symm.trans hsingle)
  · refine ⟨hseen, hpublished, fun ht _ k v hwanted => ?_⟩
    exact hpublished k v hwanted.1 (lookup_of_isIdentical hident (hbuilt ht k v hwanted))
  · refine ⟨hseen, ?_, List.nodup_singleton _, fun ht k v hwanted => ?_, fun k v hchannel hk => ?_⟩
    · intro slotId hmem
      rw [List.mem_singleton.mp hmem]
      exact List.mem_cons_self
    · exact .inl ⟨_, List.mem_singleton_self _, hbuilt ht k v hwanted⟩
    · exact .inl ⟨_, List.mem_singleton_self _, hlast k v hchannel hk⟩

variable (hnames : ∀ k ∈ m.publishableContextIds, k ∉ inheritedNames)
include hnames

theorem wanted_ne_proto {k : List Char} {v : ℕ} (h : Wanted m k v) : k ≠ protoName := by
  rintro rfl
  exact hnames protoName h.2.1 List.mem_cons_self

theorem built_currentContexts {contexts : Record} (h : m.currentContexts = some contexts) :
    Built m contexts :=
  fun _ _ _ hwanted =>
    lookup_currentContexts_channel h hwanted.1 (wanted_ne_proto hnames hwanted) hwanted.2.2
      hwanted.2.1

/-- Every wanted context is in the union of the slots of a split. -/
theorem lookup_union_split {slots : List (List Char × Record)}
    (h : m.splitContextsIntoSlots slotIdGenerator = (m', some slots)) {k : List Char} {v : ℕ}
    (hwanted : Wanted m k v) :
    (unionEntries ∅ (slots.flatMap fun slot => objectEntries slot.2)).lookup k = some v := by
  have hunique : ∀ t, (k, t) ∈ slots.flatMap (fun slot => objectEntries slot.2) → t = v := by
    intro t ht
    obtain ⟨slot, hslot, hin⟩ := List.mem_flatMap.mp ht
    have heff := (of_lookup_split h hslot (mem_objectEntries_iff.mp hin)).1
    exact Option.some.inj (heff.symm.trans hwanted.2.2)
  obtain ⟨slot, hslot, hk⟩ := channel_mem_split h hwanted.1 (wanted_ne_proto hnames hwanted)
    hwanted.2.2 hwanted.2.1
  have hmem : k ∈ (slots.flatMap fun slot => objectEntries slot.2).map Prod.fst :=
    List.mem_map.mpr ⟨(k, v), List.mem_flatMap.mpr ⟨slot, hslot, mem_objectEntries_iff.mpr hk⟩, rfl⟩
  obtain ⟨t, ht⟩ := Option.isSome_iff_exists.mp
    (isSome_lookup_unionEntries (hnames k hwanted.2.1) _ ∅ (.inr hmem))
  rcases of_lookup_unionEntries _ _ ht with hempty | hin
  · cases hempty
  · rw [ht, hunique t hin]

omit hnames in
/-- New slots hold nothing, and the old ones stay. -/
theorem seen_newSlots (hseen : Seen m relay []) (hnew : NewSlotIds m relay slotIdGenerator)
    (n : ℕ) :
    Seen { m with extraSlotIds := m.extraSlotIds ++ (List.range n).map slotIdGenerator } relay
      [] := by
  intro slotId hmem hnot e he
  rcases List.mem_append.mp (show slotId ∈ m.slotIds ++ _ from hmem) with hold | hin
  · exact hseen slotId hold hnot e he
  · obtain ⟨i, -, rfl⟩ := List.mem_map.mp hin
    rw [(hnew.1 i).2] at he
    cases he

omit hnames in
theorem HeldOutside.newSlots {k : List Char} {v : ℕ} (h : HeldOutside m relay [] k v) (n : ℕ) :
    HeldOutside { m with extraSlotIds := m.extraSlotIds ++ (List.range n).map slotIdGenerator }
      relay [] k v := by
  obtain ⟨slotId, hmem, hnot, hheld⟩ := h
  exact ⟨slotId, List.mem_append_left _ hmem, hnot, hheld⟩

omit hnames in
theorem nodup_newSlots (hnodup : m.slotIds.Nodup) (hnew : NewSlotIds m relay slotIdGenerator)
    (n : ℕ) : (m.slotIds ++ (List.range n).map slotIdGenerator).Nodup := by
  refine List.Nodup.append hnodup (List.nodup_range.map hnew.2) ?_
  intro slotId hold hin
  obtain ⟨i, -, rfl⟩ := List.mem_map.mp hin
  exact (hnew.1 i).1 hold

/-- What a publish promises when it has built its contexts. -/
theorem phase_buildPublish (hseen : Seen m relay []) (hpublished : Published m relay)
    (hown : Own m relay) (hnodup : m.slotIds.Nodup) (hnew : NewSlotIds m relay slotIdGenerator)
    {p' : Option Publish} (hbuild : m.buildPublish slotIdGenerator = (m', p')) :
    Phase m' relay sent p' := by
  rw [buildPublish] at hbuild
  cases hcurrent : m.currentContexts with
  | none =>
    rw [hcurrent] at hbuild
    have hsplitSlots : m.publishSplitSlots slotIdGenerator = (m', p') := hbuild
    rcases m.publishSplitSlots_cases slotIdGenerator with ⟨hnone, h⟩ | ⟨m₁, slots, hsplit, h⟩
    · obtain ⟨rfl, rfl⟩ := Prod.mk.inj (h.symm.trans hsplitSlots)
      exact ⟨hseen, hpublished, fun _ hfits => absurd hfits (not_fits hcurrent hnone)⟩
    · have hunion := fun {k v} => lookup_union_split (k := k) (v := v) hnames hsplit
      have hchannel := fun {k v} (hwanted : Wanted m k v) => channel_mem_split hsplit hwanted.1
        (wanted_ne_proto hnames hwanted) hwanted.2.2 hwanted.2.1
      have hslotIds := split_slotIds hsplit
      obtain ⟨n, rfl⟩ := split_extraSlotIds hsplit
      rcases h with ⟨hident, h⟩ | h <;> obtain ⟨rfl, rfl⟩ := Prod.mk.inj (h.symm.trans hsplitSlots)
      · refine ⟨seen_newSlots hseen hnew n, fun k v hk hlook => ?_, fun ht _ k v hwanted => ?_⟩
        · exact (hpublished k v hk hlook).newSlots n
        · have hlast := lookup_of_isIdentical hident (hunion hwanted)
          exact (hpublished k v hwanted.1 hlast).newSlots n
      · cases slots with
        | nil => cases hslotIds
        | cons slot slots =>
          refine ⟨seen_newSlots hseen hnew n, ?_, ?_, fun ht k v hwanted => ?_, fun k v _ hk => ?_⟩
          · change (slot :: slots).map Prod.fst ⊆ _
            rw [hslotIds]
            exact List.Subset.refl _
          · change ((slot :: slots).map Prod.fst).Nodup
            rw [hslotIds]
            exact nodup_newSlots hnodup hnew n
          · exact .inl (hchannel hwanted)
          · cases hk
  | some contexts =>
    have hbuilt := built_currentContexts hnames hcurrent
    rw [hcurrent] at hbuild
    cases hextra : m.extraSlotIds with
    | nil =>
      have hsingle : m.publishSingle contexts = (m', p') := by
        simpa only [hextra] using hbuild
      refine phase_publishSingle hseen hpublished hbuilt (fun k v hk hlook => ?_) hsingle
      obtain ⟨hpub, t, ht, -⟩ := hown.knows_of_held (hpublished k v hk hlook)
      have hproto := wanted_ne_proto hnames ⟨hk, hpub, ht⟩
      rw [lookup_currentContexts_channel hcurrent hk hproto ht hpub]
      rfl
    | cons slotId slotIds =>
      have hdelete : (m, some (Publish.deleteSigning slotId slotIds contexts)) = (m', p') := by
        simpa only [hextra] using hbuild
      obtain ⟨rfl, rfl⟩ := Prod.mk.inj hdelete
      exact ⟨hseen, hbuilt⟩

end Building

/-! ### Writing the slots -/

section Writing

variable {m : ReadStateManager} {relay : Relay} {sent : List RelayEvent} {slotId : List Char}
  {contexts : Record} {slots : List (List Char × Record)} {event : RelayEvent}

theorem slotDTag_injective : Function.Injective slotDTag := fun _ _ h => List.append_cancel_left h

/-- A newer event replaces the one that is held. -/
theorem put_of_olderThan (h : OlderThan relay slotId event.createdAt) :
    relay.put (slotDTag slotId) event = relay.set (slotDTag slotId) event := by
  rw [Relay.put]
  split
  next stored hstored => exact if_pos (.inl (h stored hstored))
  next => rfl

/-- An event changes what is held under its own tag only. -/
theorem lookup_put_of_ne {dTag d : List Char} (hne : d ≠ dTag) (relay : Relay)
    (event : RelayEvent) : (relay.put dTag event).lookup d = relay.lookup d := by
  have hset : (relay.set dTag event).lookup d = relay.lookup d := by
    rw [HashMap.lookup_set, if_neg hne]
  rw [Relay.put]
  split
  · split_ifs
    · exact hset
    · rfl
  · exact hset

theorem lookup_set_slot (relay : Relay) (slotId : List Char) (event : RelayEvent)
    (s : List Char) :
    (relay.set (slotDTag slotId) event).lookup (slotDTag s) =
      if s = slotId then some event else relay.lookup (slotDTag s) := by
  rw [HashMap.lookup_set]
  simp only [slotDTag_injective.eq_iff]

/-- Writing one of the slots leaves what is held outside of them alone. -/
theorem HeldOutside.set {slotIds : List (List Char)} {k : List Char} {v : ℕ}
    (h : HeldOutside m relay slotIds k v) (hmem : slotId ∈ slotIds) :
    HeldOutside m (relay.set (slotDTag slotId) event) slotIds k v := by
  obtain ⟨s, hs, hnot, e, contexts, he, hcontent, hk⟩ := h
  have hne : s ≠ slotId := by
    rintro rfl
    exact hnot hmem
  exact ⟨s, hs, hnot, e, contexts, by rw [lookup_set_slot, if_neg hne, he], hcontent, hk⟩

/-- The relay accepts the event of a slot. -/
theorem phase_accept (h : Phase m relay sent (some (.sending slotId contexts slots event))) :
    Phase m (relay.put (slotDTag slotId) event) sent
      (some (.sent slotId contexts slots event)) := by
  obtain ⟨hseen, hsettling, holder, -, hcontent⟩ := h
  have hmem : slotId ∈ ((slotId, contexts) :: slots).map Prod.fst := List.mem_cons_self
  rw [put_of_olderThan holder]
  refine ⟨fun s hs hnot e he => ?_, ⟨hsettling.subset, hsettling.nodup, ?_, ?_⟩, ?_, hcontent⟩
  · have hne : s ≠ slotId := fun heq => hnot (List.mem_singleton.mpr heq)
    rw [lookup_set_slot, if_neg hne] at he
    exact hseen s hs List.not_mem_nil e he
  · exact fun ht k v hwanted => (hsettling.wanted ht k v hwanted).imp_right fun hh => hh.set hmem
  · exact fun k v hk hlook => (hsettling.published k v hk hlook).imp_right fun hh => hh.set hmem
  · rw [lookup_set_slot, if_pos rfl]

/-- The relay accepts a deletion. -/
theorem lookup_delete {dTag dTag' : List Char} {createdAt : ℕ} {e : RelayEvent}
    (h : (relay.delete dTag createdAt).lookup dTag' = some e) : relay.lookup dTag' = some e := by
  rw [Relay.delete] at h
  split at h
  · split_ifs at h
    · rw [HashMap.lookup_erase_eq] at h
      split_ifs at h
      exact h
    · exact h
  · exact h

theorem phase_deletion {createdAt : ℕ} {slotIds : List (List Char)}
    (h : Phase m relay sent (some (.deleteSending slotId createdAt slotIds contexts))) :
    Phase m (relay.delete (slotDTag slotId) createdAt) sent
      (some (.deleteSent slotIds contexts)) :=
  ⟨fun s hs hnot e he => h.1 s hs hnot e (lookup_delete he), h.2⟩

/-- What is left to write when a slot has been written: what it carries is now held outside of the
slots that follow. -/
theorem Settling.tail (h : Settling m relay ((slotId, contexts) :: slots))
    (hlook : relay.lookup (slotDTag slotId) = some event)
    (hcontent : event.content = some ⟨m.clientId, contexts⟩)
    (hnames : ∀ k, contexts.lookup k ≠ none → k ≠ protoName) :
    Settling (m.recordPublished contexts event) relay slots := by
  have hslot : slotId ∈ m.slotIds := h.subset List.mem_cons_self
  have hnot : slotId ∉ slots.map Prod.fst := (List.nodup_cons.mp h.nodup).1
  have hwritten : ∀ {k v}, contexts.lookup k = some v →
      HeldOutside (m.recordPublished contexts event) relay (slots.map Prod.fst) k v :=
    fun hk => ⟨slotId, hslot, hnot, event, contexts, hlook, hcontent, hk⟩
  have houtside : ∀ {k v}, HeldOutside m relay (((slotId, contexts) :: slots).map Prod.fst) k v →
      HeldOutside (m.recordPublished contexts event) relay (slots.map Prod.fst) k v := by
    rintro k v ⟨s, hs, hns, hheld⟩
    exact ⟨s, hs, fun hin => hns (List.mem_cons_of_mem _ hin), hheld⟩
  refine ⟨fun s hs => h.subset (List.mem_cons_of_mem _ hs), (List.nodup_cons.mp h.nodup).2, ?_, ?_⟩
  · intro ht k v hwanted
    rcases h.wanted ht k v hwanted with ⟨slot, hmem, hk⟩ | hheld
    · rcases List.mem_cons.mp hmem with rfl | hmem
      · exact .inr (hwritten hk)
      · exact .inl ⟨slot, hmem, hk⟩
    · exact .inr (houtside hheld)
  · intro k v hchannel hk
    rcases of_lookup_assignAll _ _ hk with hmem | ⟨hlast, hother⟩
    · exact .inr (hwritten (mem_objectEntries_iff.mp hmem))
    · rcases h.published k v hchannel hlast with ⟨slot, hmem, hsome⟩ | hheld
      · rcases List.mem_cons.mp hmem with rfl | hmem
        · -- the key is in the slot that was written, so its old timestamp is gone
          obtain ⟨t, ht⟩ := Option.isSome_iff_exists.mp hsome
          have hproto : k ≠ protoName := hnames k (by rw [ht]; exact Option.some_ne_none t)
          exact absurd (mem_objectEntries_iff.mpr ht) (hother hproto t)
        · exact .inl ⟨slot, hmem, hsome⟩
      · exact .inr (houtside hheld)

/-- A slot has been written: the publish goes on to the next one, or it ends with all that is
wanted on the relay. -/
theorem phase_sent (h : Phase m relay sent (some (.sent slotId contexts slots event)))
    (hnames : ∀ k, contexts.lookup k ≠ none → k ≠ protoName) :
    Phase (m.recordPublished contexts event) relay sent (Publish.nextSlot slots) := by
  obtain ⟨hseen, hsettling, hlook, hcontent⟩ := h
  have hseen' : Seen (m.recordPublished contexts event) relay [] := by
    intro s hs _ e he
    by_cases hs' : s = slotId
    · rw [hs', hlook] at he
      rw [← Option.some.inj he]
      exact le_max_right _ _
    · have hle := hseen s hs (fun hin => hs' (List.mem_singleton.mp hin)) e he
      exact hle.trans (le_max_left _ _)
  have htail := hsettling.tail hlook hcontent hnames
  cases slots with
  | nil =>
    refine ⟨hseen', fun k v hchannel hk => ?_, fun ht _ k v hwanted => ?_⟩
    · refine (htail.published k v hchannel hk).resolve_left ?_
      rintro ⟨slot, hmem, -⟩
      cases hmem
    · refine (htail.wanted ht k v hwanted).resolve_left ?_
      rintro ⟨slot, hmem, -⟩
      cases hmem
  | cons slot slots => exact ⟨hseen', htail⟩

end Writing

/-! ### Resuming the publish -/

/-- The slots after a resumption are the old ones, or new ones that hold nothing. -/
def KeepsSlots (m m' : ReadStateManager) (relay : Relay) : Prop :=
  m'.slotIds.Nodup ∧
    ∀ slotId ∈ m'.slotIds, slotId ∈ m.slotIds ∨ relay.lookup (slotDTag slotId) = none

section Resume

variable {m m' : ReadStateManager} {relay : Relay} {sent : List RelayEvent}
  {slotIdGenerator : ℕ → List Char}

theorem KeepsSlots.of_eq (hnodup : m.slotIds.Nodup) (h : m'.slotIds = m.slotIds) :
    KeepsSlots m m' relay :=
  ⟨h ▸ hnodup, fun _ hs => .inl (h ▸ hs)⟩

theorem keepsSlots_buildPublish (hnodup : m.slotIds.Nodup)
    (hnew : NewSlotIds m relay slotIdGenerator) :
    KeepsSlots m (m.buildPublish slotIdGenerator).1 relay := by
  have hnewSlots : ∀ n (m₁ : ReadStateManager),
      m₁.slotIds = m.slotIds ++ (List.range n).map slotIdGenerator → KeepsSlots m m₁ relay := by
    intro n m₁ heq
    refine ⟨heq ▸ nodup_newSlots hnodup hnew n, fun s hs => ?_⟩
    rw [heq, List.mem_append] at hs
    refine hs.imp_right fun hin => ?_
    obtain ⟨i, -, rfl⟩ := List.mem_map.mp hin
    exact (hnew.1 i).2
  rw [buildPublish]
  cases m.currentContexts with
  | none =>
    rcases m.publishSplitSlots_cases slotIdGenerator with ⟨-, h⟩ | ⟨m₁, slots, hsplit, h⟩
    · simp only [h]
      exact .of_eq hnodup rfl
    · obtain ⟨n, rfl⟩ := split_extraSlotIds hsplit
      rcases h with ⟨-, h⟩ | h <;> simp only [h] <;> exact hnewSlots n _ rfl
  | some contexts =>
    cases m.extraSlotIds with
    | nil =>
      rcases m.publishSingle_cases contexts with ⟨-, h⟩ | h <;> simp only [h] <;>
        exact .of_eq hnodup rfl
    | cons slotId slotIds => exact .of_eq hnodup rfl

/-- Resuming the only publish in progress leads from one phase to the next. -/
theorem phase_resume {p : Publish} {p' : Option Publish} {now id : ℕ}
    (hnames : ∀ k ∈ m.publishableContextIds, k ∉ inheritedNames) (hown : Own m relay)
    (hnodup : m.slotIds.Nodup) (hnew : NewSlotIds m relay slotIdGenerator)
    (hknows : ∀ c ∈ p.contexts, m.Knows (objectEntries c)) (h : Phase m relay sent (some p))
    (hresume : m.resumePublish p now id slotIdGenerator = some (m', p')) :
    Phase m' relay (sent ++ Publish.signed p') p' ∧ KeepsSlots m m' relay ∧ Still m m' := by
  cases p with
  | fetching dTags => cases hresume
  | merging task =>
    obtain ⟨hseen, hpublished, hf⟩ := h
    obtain ⟨hstill, hslots, hseen', hpublished', hf'⟩ :=
      resume_fetched hown hf hseen hpublished (slotIdGenerator 0)
    obtain ⟨rfl, ⟨task', htask, rfl⟩ | ⟨-, rfl⟩⟩ := resumePublish_merging hresume
    · exact ⟨⟨hseen', hpublished', hf' task' htask⟩, .of_eq hnodup hslots, hstill⟩
    · exact ⟨⟨hseen', hpublished'⟩, .of_eq hnodup hslots, hstill⟩
  | merged =>
    have hbuild : m.buildPublish slotIdGenerator = (m', p') := Option.some.inj hresume
    have hkeeps := keepsSlots_buildPublish hnodup hnew
    have hstill := (m.resumed_buildPublish slotIdGenerator).still
    rw [hbuild] at hkeeps hstill
    exact ⟨phase_buildPublish hnames h.1 h.2 hown hnodup hnew hbuild, hkeeps, hstill⟩
  | deleteSigning slotId slotIds contexts =>
    obtain ⟨rfl, rfl⟩ := Prod.mk.inj (Option.some.inj hresume)
    exact ⟨h, .of_eq hnodup rfl, Still.refl m⟩
  | deleteSending slotId createdAt slotIds contexts => cases hresume
  | deleteSent slotIds contexts =>
    cases slotIds with
    | nil =>
      obtain ⟨rfl, rfl⟩ := Prod.mk.inj (Option.some.inj hresume)
      have hprimary : ∀ s ∈ [m.slotId], s ∈ m.slotIds := by
        intro s hs
        rw [List.mem_singleton.mp hs]
        exact List.mem_cons_self
      refine ⟨⟨fun s hs => h.1 s (hprimary s hs), h.2⟩, ⟨List.nodup_singleton _, fun s hs => ?_⟩,
        rfl, rfl⟩
      exact .inl (hprimary s hs)
    | cons slotId slotIds =>
      obtain ⟨rfl, rfl⟩ := Prod.mk.inj (Option.some.inj hresume)
      exact ⟨h, .of_eq hnodup rfl, Still.refl m⟩
  | deleted contexts =>
    have heq : publishSingle { m with lastPublishedContexts := ∅ } contexts = (m', p') :=
      Option.some.inj hresume
    have hframe : (publishSingle { m with lastPublishedContexts := ∅ } contexts).1 =
        { m with lastPublishedContexts := ∅ } := by
      rcases publishSingle_cases { m with lastPublishedContexts := ∅ } contexts with
        ⟨-, h⟩ | h <;> rw [h]
    have hseen : Seen { m with lastPublishedContexts := ∅ } relay [] := h.1
    have hempty : Published { m with lastPublishedContexts := ∅ } relay := by
      intro k v _ hk
      cases hk
    have hphase : Phase m' relay (sent ++ Publish.signed p') p' := by
      refine phase_publishSingle hseen hempty h.2 (fun k v _ hk => ?_) heq
      cases hk
    rw [heq] at hframe
    obtain rfl := hframe
    exact ⟨hphase, .of_eq hnodup rfl, rfl, rfl⟩
  | encrypting slotId contexts slots =>
    obtain ⟨rfl, rfl⟩ := Prod.mk.inj (Option.some.inj hresume)
    refine ⟨⟨h.1, h.2, fun e he => ?_⟩, .of_eq hnodup rfl, Still.refl m⟩
    -- the event under the slot has been seen, so the new `created_at` is greater
    have hle := h.1 slotId (h.2.subset List.mem_cons_self) List.not_mem_nil e he
    exact (Nat.lt_succ_of_le hle).trans_le (le_max_right _ _)
  | signing slotId contexts slots createdAt =>
    obtain ⟨rfl, rfl⟩ := Prod.mk.inj (Option.some.inj hresume)
    have hd : Drifts m (m.rememberPublishedId id) := ⟨rfl, rfl, rfl, le_rfl, .inr ⟨rfl, rfl, rfl⟩⟩
    have hr : SameSlots m relay relay := fun _ _ => rfl
    refine ⟨⟨h.1.drift hd hr, h.2.1.drift hd hr, h.2.2, ?_, rfl⟩, .of_eq hnodup rfl, rfl, rfl⟩
    exact List.mem_append_right _ (List.mem_singleton_self _)
  | sending slotId contexts slots event => cases hresume
  | sent slotId contexts slots event =>
    obtain ⟨rfl, rfl⟩ := Prod.mk.inj (Option.some.inj hresume)
    refine ⟨?_, .of_eq hnodup rfl, rfl, rfl⟩
    rw [signed_nextSlot, List.append_nil]
    refine phase_sent h fun k hk hproto => ?_
    obtain ⟨v, hv⟩ := Option.ne_none_iff_exists'.mp hk
    have hpub := (hknows contexts List.mem_cons_self k v (mem_objectEntries_iff.mpr hv)).1
    exact hnames k hpub (hproto ▸ List.mem_cons_self)

end Resume

end Buzz.Desktop.ReadState
