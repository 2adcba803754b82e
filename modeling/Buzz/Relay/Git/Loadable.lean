import Buzz.Relay.Git.FirstPush

/-!
# When a published manifest can be loaded

A publish bounds the text of the ref snapshot, a load bounds the JSON text of the manifest, and the
two measures differ: a ref takes 42 bytes besides its name in the snapshot, and 46 in the manifest,
which also names the packs. So a push within every limit of the writer can install a manifest that
no reader loads. `publishedSize` is the exact number of bytes of the manifest in terms of the
inputs of the push, and a published manifest can be loaded exactly when it is within the bound.

## Main definitions

* `publishedSize`, `Loadable`, `ManifestFits`.

## Main results

* `published_loadable_iff`: a published manifest is loadable exactly when it is small enough.
* `published_not_loadable`: a first push of ten thousand tags that cannot be loaded.
-/

namespace Buzz.Relay.Git

open Buzz.Core Buzz.Library

/-! ### The size of a published manifest -/

/-- The bytes of a manifest with these refs, this head and so many packs. -/
def publishedSize (refs : SortedMap String String) (head : String) (packCount : ℕ)
    (parentDigest : Option String) : ℕ :=
  54 + head.utf8ByteSize + ((refs.keys.map fun name => name.utf8ByteSize + 45).sum +
    (refs.keys.length - 1)) + (72 * packCount + (packCount - 1)) +
    (if parentDigest.isSome then 66 else 4)

/-- The snapshot keeps refs with 40 digits only. -/
theorem collectRefs_oid_size : ∀ {ls : List (List Char)} {refs refs' : SortedMap String String},
    collectRefs ls refs = .ok refs' → (∀ r ∈ refs.entries, r.2.utf8ByteSize = 40) →
      ∀ r ∈ refs'.entries, r.2.utf8ByteSize = 40
  | [], refs, refs', h, hrefs => by
    obtain rfl := Except.ok.inj h
    exact hrefs
  | line :: ls, refs, refs', h, hrefs => by
    rw [collectRefs] at h
    split at h
    · exact collectRefs_oid_size h hrefs
    · next name oid _ =>
      split_ifs at h with hoid hmany
      · exact collectRefs_oid_size h hrefs
      · refine collectRefs_oid_size h fun r hr => ?_
        rcases SortedMap.mem_insertEntry hr with rfl | hr
        · exact not_not.mp fun hne => hoid (Or.inl hne)
        · exact hrefs r hr

theorem snapshot_oid_size {ws : Workspace} {refs : SortedMap String String} {observed : String}
    (h : snapshotWorkspaceState ws = .ok (refs, observed)) :
    ∀ r ∈ refs.entries, r.2.utf8ByteSize = 40 := by
  rw [snapshotWorkspaceState, bind_eq_ok] at h
  obtain ⟨stdout, -, h⟩ := h
  rw [bind_eq_ok] at h
  obtain ⟨refs', hread, h⟩ := h
  rw [bind_eq_ok] at h
  obtain ⟨head, -, h⟩ := h
  obtain ⟨rfl, -⟩ := Prod.mk.inj (Except.ok.inj h)
  rw [readRefs] at hread
  split_ifs at hread
  exact collectRefs_oid_size hread fun r hr => absurd hr List.not_mem_nil

theorem refsSize_eq {refs : SortedMap String String}
    (h : ∀ r ∈ refs.entries, r.2.utf8ByteSize = 40) :
    Manifest.refsSize refs.entries =
      (refs.keys.map fun name => name.utf8ByteSize + 45).sum + (refs.keys.length - 1) := by
  have hmap : refs.entries.map (fun r => r.1.utf8ByteSize + r.2.utf8ByteSize + 5) =
      refs.keys.map fun name => name.utf8ByteSize + 45 := by
    rw [SortedMap.keys, List.map_map]
    refine List.map_congr_left fun r hr => ?_
    rw [h r hr, Function.comp_apply]
  rw [Manifest.refsSize, hmap, SortedMap.keys, List.length_map]

theorem packsSize_eq {packs : List String} (h : ∀ key ∈ packs, isPackKey key = true) :
    Manifest.packsSize packs = 72 * packs.length + (packs.length - 1) := by
  have hmap : packs.map (fun key => key.utf8ByteSize + 2) = packs.map fun _ => 72 :=
    List.map_congr_left fun key hkey => by rw [(Manifest.isPackKey_spec (h key hkey)).1]
  rw [Manifest.packsSize, hmap, List.map_const', List.sum_replicate_nat, mul_comm]

theorem parentSize_eq {parent : Option String} (h : ∀ p ∈ parent, isManifestDigest p = true) :
    Manifest.parentSize parent = if parent.isSome then 66 else 4 := by
  cases parent with
  | none => rfl
  | some p => rw [Manifest.parentSize, (Manifest.isManifestDigest_spec (h p rfl)).1]; rfl

variable (sha256 : Sha256)

/-- The bytes of a composed and validated manifest. -/
theorem size_compose {ws : Workspace} {refs : SortedMap String String} {observed head : String}
    (hsnap : snapshotWorkspaceState ws = .ok (refs, observed)) {parent : ParentState}
    {plan : PackPlan} (hvalid : (plan.compose sha256 parent head refs).validate = .ok ()) :
    (plan.compose sha256 parent head refs).canonicalBytes.size =
      publishedSize refs head (plan.packCount sha256 parent) parent.parentDigest := by
  have hv := (Manifest.validate_eq_ok_iff _).mp hvalid
  obtain ⟨hversion, hhead, hrefs, hparent⟩ := plan.compose_eq sha256 parent head refs
  rw [Manifest.size_canonicalBytes hv hversion (plan.compose_packs_sorted sha256 parent head refs),
    packsSize_eq hv.packs, parentSize_eq hv.parent, hhead, hrefs, hparent,
    refsSize_eq (snapshot_oid_size hsnap), plan.length_compose_packs, publishedSize]

/-! ### Loading what was published -/

/-- A pointer resolves to a published manifest: its bytes are within the bound of the reader, are
parsed back up to the order and repetitions of the packs, and pass the validation. -/
def Loadable (pkey : String) (m : Manifest) (s : Bucket) : Prop :=
  m.canonicalBytes.size ≤ MAX_MANIFEST_BYTES ∧
    ∃ etag digest m', loadPointer sha256 pkey s = .ok (some (etag, digest, m')) ∧
      Manifest.fromBytes m.canonicalBytes = .ok m' ∧
      m' = { m with packs := sortDedup m.packs } ∧ m'.validate = .ok ()

/-- The text of the manifest that a push composes is within the bound of the reader. -/
def ManifestFits (options : PublishOptions) (parent : ParentState) (ws : Workspace) : Prop :=
  ∃ refs observed plan, snapshotWorkspaceState ws = .ok (refs, observed) ∧
    planPacks options parent refs ws = .ok plan ∧
    publishedSize refs (resolvePublishedHead refs observed parent.parent.head)
      (plan.packCount sha256 parent) parent.parentDigest ≤ MAX_MANIFEST_BYTES

/-- A published manifest can be loaded exactly when its text is within the bound of the reader. -/
theorem published_loadable_iff (pkey : String) (options : PublishOptions) (parent : ParentState)
    (ws : Workspace) (etag : ETag) (s s' : Bucket) (success : CasSuccess)
    (hpublish : casPublish sha256 pkey options parent ws etag s = (.ok success, s'))
    (hstore : StoresOnly sha256 success.manifest.canonicalBytes s) :
    Loadable sha256 pkey success.manifest s' ↔ ManifestFits sha256 options parent ws := by
  obtain ⟨plan, hprepare, hvalid, hpointer, hobjects⟩ := casPublish_eq_ok sha256 hpublish
  obtain ⟨refs, observed, hsnap, hplan, hm⟩ := prepare_eq_ok sha256 hprepare
  have hsorted : success.manifest.packs.Pairwise (· < ·) :=
    hm ▸ plan.compose_packs_sorted sha256 parent _ refs
  have hversion : success.manifest.version = MANIFEST_VERSION :=
    hm ▸ (plan.compose_eq sha256 parent _ refs).1
  have hsize : success.manifest.canonicalBytes.size =
      publishedSize refs (resolvePublishedHead refs observed parent.parent.head)
        (plan.packCount sha256 parent) parent.parentDigest := by
    rw [hm] at hvalid ⊢
    exact size_compose sha256 hsnap hvalid
  have hobject : s'.objects.lookup
      (contentKey sha256 "manifests" success.manifest.canonicalBytes) =
        some success.manifest.canonicalBytes := by
    rw [hobjects]
    refine Bucket.lookup_putImmutable sha256 fun b hb => hstore b ?_
    rw [← hb, lookup_uploadPacks]
  have hfits : ManifestFits sha256 options parent ws ↔
      success.manifest.canonicalBytes.size ≤ MAX_MANIFEST_BYTES := by
    rw [hsize]
    refine ⟨?_, fun hle => ⟨refs, observed, plan, hsnap, hplan, hle⟩⟩
    rintro ⟨refs', observed', plan', hsnap', hplan', hle⟩
    obtain ⟨rfl, rfl⟩ := Prod.mk.inj (Except.ok.inj (hsnap'.symm.trans hsnap))
    obtain rfl := Except.ok.inj (hplan'.symm.trans hplan)
    exact hle
  rw [hfits]
  refine ⟨fun h => h.1, fun hle => ⟨hle, ?_⟩⟩
  have hself : ({ success.manifest with packs := sortDedup success.manifest.packs } : Manifest) =
      success.manifest := by
    rw [sortDedup_eq_self hsorted]
  refine ⟨etag, _, success.manifest,
    loadPointer_of_size_le hpointer hobject hversion hsorted hvalid hle, ?_, hself.symm, hvalid⟩
  rw [Manifest.fromBytes_canonicalBytes _ hversion, hself]

theorem published_loadable_iff_main :
    ∃ s', casPublish firstSha256 (pointerKey 0 "owner" "repo") defaultOptions .fresh
        (firstPush mainBranch) ⟨"1"⟩ ⟨∅, ∅⟩ =
          (.ok ⟨firstManifest firstSha256 mainBranch, contentKey firstSha256 "manifests"
            (firstManifest firstSha256 mainBranch).canonicalBytes⟩, s') ∧
      (Loadable firstSha256 (pointerKey 0 "owner" "repo")
          (firstManifest firstSha256 mainBranch) s' ↔
        ManifestFits firstSha256 defaultOptions .fresh (firstPush mainBranch)) := by
  obtain ⟨s', hpublish⟩ := pushable_mainBranch.publishes firstSha256
    (pointerKey 0 "owner" "repo") ⟨"1"⟩
  refine ⟨s', hpublish, ?_⟩
  exact published_loadable_iff firstSha256 (pointerKey 0 "owner" "repo") defaultOptions .fresh
    (firstPush mainBranch) ⟨"1"⟩ ⟨∅, ∅⟩ s' ⟨firstManifest firstSha256 mainBranch,
      contentKey firstSha256 "manifests" (firstManifest firstSha256 mainBranch).canonicalBytes⟩
    hpublish (storesOnly_empty firstSha256 (firstManifest firstSha256 mainBranch).canonicalBytes)

/-! ### A push that cannot be loaded -/

/-- Four decimal digits. -/
def fourDigits (i : ℕ) : List Char :=
  [i / 1000 % 10, i / 100 % 10, i / 10 % 10, i % 10].map Nat.digitChar

/-- A tag name of 375 bytes, its own part in two path components. -/
def longTag (i : ℕ) : String :=
  String.ofList (['r', 'e', 'f', 's'] ++ '/' :: (['t', 'a', 'g', 's'] ++ '/' :: (fourDigits i ++
    (List.replicate 201 'c' ++ '/' :: List.replicate 159 'c'))))

/-- Ten thousand tags of one commit. -/
def longTags : List (String × String) :=
  (List.range MAX_MANIFEST_REFS).map fun i => (longTag i, firstCommit)

theorem digitChar_spec : ∀ n < 10, (Nat.digitChar n).utf8Size = 1 ∧
    isRefChar (Nat.digitChar n) = true ∧ Nat.digitChar n ≠ '.' ∧ Nat.digitChar n ≠ '/' := by
  decide

theorem digitChar_inj : ∀ m < 10, ∀ n < 10, Nat.digitChar m = Nat.digitChar n → m = n := by
  decide

theorem fourDigits_spec {i : ℕ} {c : Char} (h : c ∈ fourDigits i) :
    c.utf8Size = 1 ∧ isRefChar c = true ∧ c ≠ '.' ∧ c ≠ '/' := by
  obtain ⟨n, hn, rfl⟩ := List.mem_map.mp h
  refine digitChar_spec n ?_
  simp only [List.mem_cons, List.not_mem_nil, or_false] at hn
  omega

theorem fourDigits_inj {i j : ℕ} (hi : i < 10000) (hj : j < 10000)
    (h : fourDigits i = fourDigits j) : i = j := by
  simp only [fourDigits, List.map_cons, List.map_nil, List.cons.injEq, and_true] at h
  obtain ⟨h1, h2, h3, h4⟩ := h
  have h1' := digitChar_inj _ (Nat.mod_lt _ (by omega)) _ (Nat.mod_lt _ (by omega)) h1
  have h2' := digitChar_inj _ (Nat.mod_lt _ (by omega)) _ (Nat.mod_lt _ (by omega)) h2
  have h3' := digitChar_inj _ (Nat.mod_lt _ (by omega)) _ (Nat.mod_lt _ (by omega)) h3
  have h4' := digitChar_inj _ (Nat.mod_lt _ (by omega)) _ (Nat.mod_lt _ (by omega)) h4
  omega

theorem longTag_inj {i j : ℕ} (hi : i < 10000) (hj : j < 10000) (h : longTag i = longTag j) :
    i = j := by
  have hlist := List.append_cancel_left (String.ofList_injective h)
  have htail := List.append_cancel_left (List.cons.inj hlist).2
  exact fourDigits_inj hi hj (List.append_inj (List.cons.inj htail).2 rfl).1

theorem utf8ByteSize_longTag (i : ℕ) : (longTag i).utf8ByteSize = 375 := by
  have hrep : ∀ n, String.utf8Len (List.replicate n 'c') = n := fun n => by
    rw [utf8Len_of_forall_one fun c hc => by rw [List.eq_of_mem_replicate hc]; rfl,
      List.length_replicate]
  have hdigits : String.utf8Len (fourDigits i) = 4 :=
    utf8Len_of_forall_one fun c hc => (fourDigits_spec hc).1
  have hfront : String.utf8Len ['r', 'e', 'f', 's'] = 4 ∧
      String.utf8Len ['t', 'a', 'g', 's'] = 4 := by decide
  have hcons : ∀ l, String.utf8Len ('/' :: l) = String.utf8Len l + 1 := fun l =>
    String.utf8Len_cons '/' l
  rw [longTag, String.utf8ByteSize_ofList, String.utf8Len_append, hcons, String.utf8Len_append,
    hcons, String.utf8Len_append, String.utf8Len_append, hcons, hrep, hrep, hdigits, hfront.1,
    hfront.2]

theorem isChain_of_not_mem {l : List Char} (h : '/' ∉ l) :
    l.IsChain fun a b => ¬(a = '/' ∧ b = '/') :=
  (List.pairwise_iff_forall_sublist.mpr fun {a b} hsub (hslash : a = '/' ∧ b = '/') =>
    h (hslash.1 ▸ hsub.subset List.mem_cons_self)).isChain

theorem isChain_component {a b : List Char} (ha : '/' ∉ a) (hhead : b.head? ≠ some '/')
    (hb : b.IsChain fun x y => ¬(x = '/' ∧ y = '/')) :
    (a ++ '/' :: b).IsChain fun x y => ¬(x = '/' ∧ y = '/') := by
  refine (isChain_of_not_mem ha).append (List.IsChain.cons hb ?_) ?_
  · exact fun y hy hslash => hhead (hslash.2 ▸ hy)
  · exact fun x hx y _ hslash => ha (hslash.1 ▸ List.mem_of_getLast? hx)

theorem isSafeRefname_longTag (i : ℕ) : isSafeRefname (longTag i) = true := by
  have hdigits : '/' ∉ fourDigits i := fun h => (fourDigits_spec h).2.2.2 rfl
  have hrep : ∀ n, '/' ∉ List.replicate n 'c' := fun n h =>
    absurd (List.eq_of_mem_replicate h) (by decide)
  have hchars : ∀ c ∈ (longTag i).toList, isRefChar c = true ∧ c ≠ '.' := by
    intro c hc
    simp only [longTag, String.toList_ofList, List.mem_append, List.mem_cons, List.not_mem_nil,
      or_false, List.mem_replicate] at hc
    by_cases hmem : c ∈ fourDigits i
    · exact ⟨(fourDigits_spec hmem).2.1, (fourDigits_spec hmem).2.2.1⟩
    · rcases hc with (rfl | rfl | rfl | rfl) | rfl | (rfl | rfl | rfl | rfl) | rfl | hc | ⟨-, rfl⟩ |
        rfl | ⟨-, rfl⟩
      all_goals first | exact absurd hc hmem | decide
  refine isSafeRefname_intro ?_ (fun c hc => (hchars c hc).1) (fun hc => (hchars _ hc).2 rfl) ?_ ?_
  · rw [longTag, String.toList_ofList]
    exact List.prefix_append ['r', 'e', 'f', 's', '/'] _
  · have hlast : (List.replicate 159 'c').IsChain fun a b => ¬(a = '/' ∧ b = '/') :=
      isChain_of_not_mem (hrep 159)
    have hname : '/' ∉ fourDigits i ++ List.replicate 201 'c' := fun h =>
      (List.mem_append.mp h).elim hdigits (hrep 201)
    have hfirst : (fourDigits i).head? ≠ some '/' := fun h => hdigits (List.mem_of_head? h)
    rw [longTag, String.toList_ofList, ← List.append_assoc (fourDigits i)]
    have htags : some 't' ≠ some '/' := by decide
    refine isChain_component (by decide) htags (isChain_component (by decide) ?_ ?_)
    · exact hfirst
    · exact isChain_component hname (by decide) hlast
  · intro hslash
    have htail : List.replicate 159 'c' <:+ (longTag i).toList :=
      ⟨['r', 'e', 'f', 's'] ++ '/' :: (['t', 'a', 'g', 's'] ++ '/' :: (fourDigits i ++
        (List.replicate 201 'c' ++ ['/']))), by
          rw [longTag, String.toList_ofList]
          simp only [List.append_assoc, List.cons_append, List.nil_append]⟩
    have hlength : ['/'].length ≤ (List.replicate 159 'c').length := by
      rw [List.length_replicate, List.length_singleton]
      omega
    have hsuffix := List.suffix_of_suffix_length_le hslash htail hlength
    exact hrep 159 (hsuffix.subset List.mem_cons_self)

theorem pushable_longTags : Pushable longTags where
  nonempty := by
    intro hnil
    have hlength := congrArg List.length hnil
    rw [longTags, List.length_map, List.length_range] at hlength
    exact absurd hlength (by decide)
  length_le := by
    rw [longTags, List.length_map, List.length_range]
  safe := by
    intro r hr
    obtain ⟨i, -, rfl⟩ := List.mem_map.mp hr
    exact isSafeRefname_longTag i
  oid_size := by
    intro r hr
    obtain ⟨i, -, rfl⟩ := List.mem_map.mp hr
    rfl
  oid_hex := by
    intro r hr
    obtain ⟨i, -, rfl⟩ := List.mem_map.mp hr
    exact (by decide : firstCommit.toList.all isHexDigit = true)
  nodup := by
    rw [longTags, List.map_map]
    refine List.Nodup.map_on ?_ List.nodup_range
    intro i hi j hj heq
    exact longTag_inj (List.mem_range.mp hi) (List.mem_range.mp hj) heq
  size_le := by
    have hoid : firstCommit.utf8ByteSize = 40 := rfl
    rw [size_listing, longTags, List.map_map]
    simp only [Function.comp_def, utf8ByteSize_longTag, hoid, List.map_const',
      List.length_range, List.sum_replicate_nat]
    decide

/-- A first push of ten thousand long tags is accepted, and its manifest cannot be loaded. -/
theorem published_not_loadable :
    ¬∃ sha256 : Sha256, ∀ (pkey : String) (options : PublishOptions) (parent : ParentState)
      (ws : Workspace) (etag : ETag) (s s' : Bucket) (success : CasSuccess),
      casPublish sha256 pkey options parent ws etag s = (.ok success, s') →
      StoresOnly sha256 success.manifest.canonicalBytes s →
      Loadable sha256 pkey success.manifest s' := by
  rintro ⟨sha256, h⟩
  obtain ⟨s', hpublish⟩ := pushable_longTags.publishes sha256 (pointerKey 0 "owner" "repo")
    ⟨"1"⟩
  have hle := (h _ _ _ _ _ _ _ _ hpublish (storesOnly_empty sha256 _)).1
  have hsize := size_compose sha256 pushable_longTags.snapshot (pushable_longTags.valid sha256)
  -- The refs alone take 420 bytes each in the manifest, and their commas 9999 more.
  have hsum : ((SortedMap.ofList longTags).keys.map fun name => name.utf8ByteSize + 45).sum =
      10000 * 420 := by
    rw [SortedMap.keys, List.map_map,
      ((SortedMap.ofList_perm pushable_longTags.nodup).map _).sum_nat, longTags, List.map_map]
    simp only [Function.comp_def, utf8ByteSize_longTag, List.map_const', List.length_range,
      List.sum_replicate_nat]
    rfl
  rw [firstManifest, hsize, publishedSize, hsum] at hle
  have hmax : MAX_MANIFEST_BYTES = 4194304 := rfl
  omega

end Buzz.Relay.Git
