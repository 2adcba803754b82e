import Buzz.Relay.Subscription.Index

/-!
# Indexed fan-out equals the plain scan

`fan_out_scoped` looks up a handful of index keys computed from the event, re-checks each
candidate against its stored entry and drops duplicates. Its result is therefore sound whatever
the indexes hold; it is complete because every entry that matches an event generates one of the
keys the event is looked up under (`exists_eventKey`), for every shape of filters, and because
the indexes hold exactly the generated keys (`Indexed`).

## Main definitions

* `eventKeys`: the keys an event is looked up under.

## Main results

* `mem_fanOutScoped`: the result of the indexed lookup.
* `exists_eventKey`: a matching entry generates a key of the event.
* `fanOutScoped_eq_scan`: fan-out returns, without duplicates, exactly the matching
  subscriptions of the community.
-/

namespace Buzz.Relay.Subscription

open Buzz.Core Buzz.Library

/-! ### The filter analyses -/

theorem mem_pushUnseen {α : Type} [DecidableEq α] (acc xs : List α) (y : α) :
    y ∈ pushUnseen acc xs ↔ y ∈ acc ∨ y ∈ xs := by
  unfold pushUnseen
  induction xs generalizing acc with
  | nil => simp
  | cons x xs ih =>
    rw [List.foldl_cons, ih, List.mem_cons]
    split_ifs with h
    · constructor
      · exact fun hy => hy.imp_right Or.inr
      · rintro (hy | rfl | hy)
        exacts [Or.inl hy, Or.inl h, Or.inr hy]
    · rw [List.mem_append, List.mem_singleton, or_assoc]

private theorem foldlM_kinds_spec (filters : List Filter) (acc : List Kind) {kinds : List Kind}
    (h : filters.foldlM (fun kinds f => f.kinds.map (pushUnseen kinds)) acc = some kinds) :
    (∀ k ∈ acc, k ∈ kinds) ∧
      ∀ f ∈ filters, ∃ fkinds, f.kinds = some fkinds ∧ ∀ k ∈ fkinds, k ∈ kinds := by
  induction filters generalizing acc with
  | nil =>
    rw [List.foldlM_nil] at h
    obtain rfl : acc = kinds := Option.some.inj h
    exact ⟨fun k hk => hk, by simp⟩
  | cons f filters ih =>
    rw [List.foldlM_cons] at h
    obtain ⟨acc', hacc, htail⟩ := Option.bind_eq_some_iff.mp h
    obtain ⟨fkinds, hf, rfl⟩ := Option.map_eq_some_iff.mp hacc
    obtain ⟨hkeep, hrest⟩ := ih _ htail
    refine ⟨fun k hk => hkeep k ((mem_pushUnseen _ _ _).mpr (Or.inl hk)), ?_⟩
    rw [List.forall_mem_cons]
    exact ⟨⟨fkinds, hf, fun k hk => hkeep k ((mem_pushUnseen _ _ _).mpr (Or.inr hk))⟩, hrest⟩

/-- When the kinds of the filters have a union, every filter names its kinds and they are in
it. -/
theorem extractKindsFromFilters_spec {filters : List Filter} {kinds : List Kind}
    (h : extractKindsFromFilters filters = some kinds) {f : Filter} (hf : f ∈ filters) :
    ∃ fkinds, f.kinds = some fkinds ∧ ∀ k ∈ fkinds, k ∈ kinds :=
  (foldlM_kinds_spec filters [] h).2 f hf

private theorem foldlM_pKinds_spec (communityId : CommunityId) (filters : List Filter)
    (acc : List GlobalPKindIndexKey) {keys : List GlobalPKindIndexKey}
    (h : filters.foldlM (addGlobalPKindKeys communityId) acc = some keys) :
    (∀ k ∈ acc, k ∈ keys) ∧
      ∀ f ∈ filters, ∃ fkinds, f.kinds = some fkinds ∧
        (fkinds = [] ∨ ∃ pValues, f.genericTags.lookup pTag = some pValues ∧
          ∀ kind ∈ fkinds, ∀ p ∈ pValues, ⟨communityId, kind, p⟩ ∈ keys) := by
  induction filters generalizing acc with
  | nil =>
    rw [List.foldlM_nil] at h
    obtain rfl : acc = keys := Option.some.inj h
    exact ⟨fun k hk => hk, by simp⟩
  | cons f filters ih =>
    rw [List.foldlM_cons] at h
    obtain ⟨acc', hacc, htail⟩ := Option.bind_eq_some_iff.mp h
    obtain ⟨hkeep, hrest⟩ := ih _ htail
    rw [List.forall_mem_cons]
    unfold addGlobalPKindKeys at hacc
    cases hk : f.kinds with
    | none => simp [hk] at hacc
    | some fkinds =>
      simp only [hk] at hacc
      split_ifs at hacc with hnil
      · obtain rfl : acc = acc' := Option.some.inj hacc
        exact ⟨hkeep, ⟨fkinds, rfl, Or.inl hnil⟩, hrest⟩
      · cases hp : f.genericTags.lookup pTag with
        | none => simp [hp] at hacc
        | some pValues =>
          simp only [hp] at hacc
          split_ifs at hacc with hpnil
          obtain rfl := Option.some.inj hacc
          refine ⟨fun k hk => hkeep k ((mem_pushUnseen _ _ _).mpr (Or.inl hk)),
            ⟨fkinds, rfl, Or.inr ⟨pValues, rfl, fun kind hkind p hpmem => ?_⟩⟩, hrest⟩
          refine hkeep _ ((mem_pushUnseen _ _ _).mpr (Or.inr ?_))
          exact List.mem_flatMap.mpr ⟨kind, hkind, List.mem_map_of_mem hpmem⟩

/-- When a subscription has `(kind, #p)` keys, every filter that can match names its kinds and
`#p` values, and the keys cover their product. -/
theorem extractGlobalPKindIndexKeys_spec {communityId : CommunityId} {filters : List Filter}
    {keys : List GlobalPKindIndexKey}
    (h : extractGlobalPKindIndexKeys communityId filters = some keys) {f : Filter}
    (hf : f ∈ filters) :
    ∃ fkinds, f.kinds = some fkinds ∧
      (fkinds = [] ∨ ∃ pValues, f.genericTags.lookup pTag = some pValues ∧
        ∀ kind ∈ fkinds, ∀ p ∈ pValues, ⟨communityId, kind, p⟩ ∈ keys) :=
  (foldlM_pKinds_spec communityId filters [] h).2 f hf

theorem mem_eventPTagValues {event : StoredEvent} {t : Tag} {p : String}
    (ht : t ∈ event.event.tags) (hkind : t.kind = "p") (hcontent : t.content = some p) :
    p ∈ eventPTagValues event := by
  refine (mem_pushUnseen _ _ _).mpr (Or.inr ?_)
  exact List.mem_filterMap.mpr ⟨t, List.mem_filter.mpr ⟨ht, by simpa using hkind⟩, hcontent⟩

/-! ### The keys of an event -/

/-- The keys an event is looked up under, in the order of the lookups. -/
def eventKeys (communityId : CommunityId) (event : StoredEvent) : List AnyKey :=
  match event.channelId with
  | some channelId =>
    [.channelKind communityId ⟨channelId, event.event.kind⟩,
      .channelWildcard communityId channelId]
  | none =>
    (eventPTagValues event).map (fun p => .globalPKind ⟨communityId, event.event.kind, p⟩) ++
      [.globalKind communityId event.event.kind, .globalWildcard communityId]

/-- Some kind union covers the kind of a matching event. -/
theorem kind_mem_of_filtersMatch {filters : List Filter} {kinds : List Kind}
    (h : extractKindsFromFilters filters = some kinds) {event : StoredEvent}
    (hmatch : filtersMatch filters event = true) : event.event.kind ∈ kinds := by
  obtain ⟨f, hf, hone⟩ := exists_of_filtersMatch hmatch
  obtain ⟨fkinds, hk, hsub⟩ := extractKindsFromFilters_spec h hf
  exact hsub _ (filterMatchOne_kinds hone hk)

/-- **Key coverage.** An entry whose scope and filters match an event generates one of the keys
the event is looked up under. -/
theorem exists_eventKey {e : SubEntry} {event : StoredEvent}
    (hscope : e.scope.matchesChannel event.channelId = true)
    (hmatch : filtersMatch e.filters event = true) :
    ∃ key ∈ eventKeys e.communityId event, key ∈ e.indexKeys := by
  obtain ⟨filters, communityId, scope⟩ := e
  dsimp only at hscope hmatch
  cases hch : event.channelId with
  | some channelId =>
    rw [hch] at hscope
    cases scope with
    | global => simp [SubscriptionScope.matchesChannel] at hscope
    | channels ids =>
      have hmem : channelId ∈ ids := by
        simpa [SubscriptionScope.matchesChannel] using hscope
      simp only [eventKeys, hch, SubEntry.indexKeys, indexKeysOf]
      cases hkinds : extractKindsFromFilters filters with
      | none =>
        refine ⟨.channelWildcard communityId channelId, by simp, ?_⟩
        exact List.mem_flatMap.mpr ⟨channelId, hmem, by simp [channelKeys, hkinds]⟩
      | some kinds =>
        refine ⟨.channelKind communityId ⟨channelId, event.event.kind⟩, by simp, ?_⟩
        refine List.mem_flatMap.mpr ⟨channelId, hmem, ?_⟩
        simpa [channelKeys, hkinds] using kind_mem_of_filtersMatch hkinds hmatch
  | none =>
    rw [hch] at hscope
    cases scope with
    | channels ids => simp [SubscriptionScope.matchesChannel] at hscope
    | global =>
      simp only [eventKeys, hch, SubEntry.indexKeys, indexKeysOf, globalKeys]
      cases hp : extractGlobalPKindIndexKeys communityId filters with
      | some keys =>
        -- The matching filter names the event's kind, so its `#p` values are in the product.
        obtain ⟨f, hf, hone⟩ := exists_of_filtersMatch hmatch
        obtain ⟨fkinds, hk, hcase⟩ := extractGlobalPKindIndexKeys_spec hp hf
        have hkind := filterMatchOne_kinds hone hk
        rcases hcase with rfl | ⟨pValues, hpv, hkeys⟩
        · simp at hkind
        · obtain ⟨t, ht, htk, p, hpm, hcontent⟩ :=
            filterMatchOne_tag hone hpv (by decide)
          refine ⟨.globalPKind ⟨communityId, event.event.kind, p⟩, ?_, ?_⟩
          · refine List.mem_append_left _ (List.mem_map_of_mem ?_)
            exact mem_eventPTagValues ht (htk.trans (by decide)) hcontent
          · exact List.mem_map_of_mem (hkeys _ hkind p hpm)
      | none =>
        cases hkinds : extractKindsFromFilters filters with
        | none => exact ⟨.globalWildcard communityId, by simp, by simp⟩
        | some kinds =>
          refine ⟨.globalKind communityId event.event.kind, by simp, ?_⟩
          exact List.mem_map_of_mem (kind_mem_of_filtersMatch hkinds hmatch)

/-! ### The lookup loop -/

namespace SubscriptionRegistry

variable (r : SubscriptionRegistry) (communityId : CommunityId) (event : StoredEvent)

theorem mem_foldl_pushMatch (xs results : List (ConnId × SubId)) (y : ConnId × SubId) :
    y ∈ xs.foldl (r.pushMatch communityId event) results ↔
      y ∈ results ∨ (y ∈ xs ∧ r.isMatch communityId event y = true) := by
  induction xs generalizing results with
  | nil => simp
  | cons x xs ih =>
    rw [List.foldl_cons, ih, List.mem_cons, pushMatch]
    split_ifs with hmatch hseen
    · constructor
      · exact fun h => h.imp_right fun h' => ⟨Or.inr h'.1, h'.2⟩
      · rintro (h | ⟨rfl | h, hy⟩)
        exacts [Or.inl h, Or.inl hseen, Or.inr ⟨h, hy⟩]
    · rw [List.mem_append, List.mem_singleton]
      constructor
      · rintro ((h | rfl) | ⟨h, hy⟩)
        exacts [Or.inl h, Or.inr ⟨Or.inl rfl, hmatch⟩, Or.inr ⟨Or.inr h, hy⟩]
      · rintro (h | ⟨rfl | h, hy⟩)
        exacts [Or.inl (Or.inl h), Or.inl (Or.inr rfl), Or.inr ⟨h, hy⟩]
    · constructor
      · exact fun h => h.imp_right fun h' => ⟨Or.inr h'.1, h'.2⟩
      · rintro (h | ⟨rfl | h, hy⟩)
        exacts [Or.inl h, absurd hy hmatch, Or.inr ⟨h, hy⟩]

theorem nodup_foldl_pushMatch (xs : List (ConnId × SubId)) {results : List (ConnId × SubId)}
    (h : results.Nodup) : (xs.foldl (r.pushMatch communityId event) results).Nodup := by
  induction xs generalizing results with
  | nil => exact h
  | cons x xs ih =>
    refine ih ?_
    rw [pushMatch]
    split_ifs with hmatch hseen
    · exact h
    · rw [← List.concat_eq_append]
      exact h.concat hseen
    · exact h

/-- The lookups of fan-out are one fold over the buckets of the event's keys. -/
theorem fanOutScoped_eq :
    r.fanOutScoped communityId event =
      (eventKeys communityId event).foldl (fun results key =>
        (r.bucket key).foldl (r.pushMatch communityId event) results) [] := by
  unfold fanOutScoped eventKeys
  cases event.channelId with
  | some channelId => rfl
  | none =>
    rw [List.foldl_append, List.foldl_map]
    rfl

theorem foldl_buckets_spec (keys : List AnyKey) {results : List (ConnId × SubId)}
    (h : results.Nodup) :
    (keys.foldl (fun results key =>
        (r.bucket key).foldl (r.pushMatch communityId event) results) results).Nodup ∧
      ∀ y, y ∈ keys.foldl (fun results key =>
          (r.bucket key).foldl (r.pushMatch communityId event) results) results ↔
        y ∈ results ∨
          (r.isMatch communityId event y = true ∧ ∃ key ∈ keys, y ∈ r.bucket key) := by
  induction keys generalizing results with
  | nil => exact ⟨h, by simp⟩
  | cons key keys ih =>
    obtain ⟨hnodup, hmem⟩ := ih (r.nodup_foldl_pushMatch communityId event (r.bucket key) h)
    refine ⟨hnodup, fun y => ?_⟩
    rw [List.foldl_cons, hmem, mem_foldl_pushMatch]
    simp only [List.mem_cons, exists_eq_or_imp]
    tauto

/-- Fan-out returns, without duplicates, the matching candidates under the event's keys. -/
theorem mem_fanOutScoped :
    (r.fanOutScoped communityId event).Nodup ∧
      ∀ y, y ∈ r.fanOutScoped communityId event ↔
        r.isMatch communityId event y = true ∧
          ∃ key ∈ eventKeys communityId event, y ∈ r.bucket key := by
  rw [fanOutScoped_eq]
  obtain ⟨hnodup, hmem⟩ :=
    r.foldl_buckets_spec communityId event (eventKeys communityId event) List.nodup_nil
  exact ⟨hnodup, fun y => by rw [hmem]; simp⟩

theorem isMatch_iff (y : ConnId × SubId) :
    r.isMatch communityId event y = true ↔
      ∃ e, r.entry y.1 y.2 = some e ∧ e.communityId = communityId ∧
        e.scope.matchesChannel event.channelId = true ∧ filtersMatch e.filters event = true := by
  unfold isMatch
  cases r.entry y.1 y.2 with
  | none => simp
  | some e => simp [and_assoc]

end SubscriptionRegistry

/-- **Indexed fan-out equals the plain scan.** After every run of the registry, fan-out of an
event in a community returns, without duplicates, exactly the subscriptions whose stored entry has
that community, whose scope matches the event's channel and whose filters match the event. -/
theorem fanOutScoped_eq_scan (r : SubscriptionRegistry) (h : Reachable r)
    (communityId : CommunityId) (event : StoredEvent) :
    (r.fanOutScoped communityId event).Nodup ∧
      ∀ connId subId, (connId, subId) ∈ r.fanOutScoped communityId event ↔
        ∃ e, r.entry connId subId = some e ∧ e.communityId = communityId ∧
          e.scope.matchesChannel event.channelId = true ∧
          filtersMatch e.filters event = true := by
  obtain ⟨hnodup, hmem⟩ := r.mem_fanOutScoped communityId event
  refine ⟨hnodup, fun connId subId => ?_⟩
  rw [hmem, SubscriptionRegistry.isMatch_iff]
  refine ⟨fun hy => hy.1, fun hy => ⟨hy, ?_⟩⟩
  obtain ⟨e, hentry, rfl, hscope, hmatch⟩ := hy
  obtain ⟨key, hkey, hgen⟩ := exists_eventKey hscope hmatch
  exact ⟨key, hkey, (h.indexed.mem_bucket key (connId, subId)).mpr ⟨e, hentry, hgen⟩⟩

/-- An event of kind `7` in channel `9` reaches the one subscription of the registry. -/
theorem fanOutScoped_eq_scan_twoChannel :
    (2, "s") ∈ twoChannelRegistry.fanOutScoped 1
      ⟨⟨0, 0, 0, 7, []⟩, some 9⟩ := by
  refine ((fanOutScoped_eq_scan _ twoChannelRegistry_reachable 1 _).2 2 "s").mpr ?_
  exact ⟨_, rfl, rfl, by decide, by decide⟩

end Buzz.Relay.Subscription
