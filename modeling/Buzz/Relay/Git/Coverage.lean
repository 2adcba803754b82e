import Mathlib.Data.Set.Basic
import Mathlib.Logic.Relation
import Buzz.Relay.Git.FirstPush

/-!
# Published manifests stay reconstructible

A delta pack leaves out what the parent's refs reach, and compaction drops the parent's packs; a
reader has only the packs that a manifest names. Here git is a graph of objects: `pack-objects`
with positive and negative revisions prints a pack that holds at least what the former reach and
the latter do not, and compaction splits all that the new refs reach over several packs.

Along every chain of successful publishes, whichever way each of them packed, the packs named by a
manifest hold everything its refs reach.

## Main definitions

* `reachable`, `GitOutput`: the objects of git, and what its commands print.
* `packed`, `Covers`: what the packs of a manifest hold.
* `PublishChain`: the successful publishes of a repository, one after another.

## Main results

* `planPacks_cases`: what the packs of a push come from.
* `covers_of_casPublish`: one publish keeps the coverage.
* `publishChain_covers`: every manifest of a chain is covered by its packs.
-/

namespace Buzz.Relay.Git

open Buzz.Core Buzz.Library Relation

/-! ### The objects of git -/

section Objects

variable {Obj : Type*} (refers : Obj → Obj → Prop)

/-- The objects that are reachable from some tips. -/
def reachable (tips : List Obj) : Set Obj := {o | ∃ t ∈ tips, ReflTransGen refers t o}

theorem reachable_nil : reachable refers ([] : List Obj) = ∅ :=
  Set.eq_empty_of_forall_notMem fun _ ⟨_, ht, _⟩ => absurd ht List.not_mem_nil

variable {refers}

/-- A delta over what is covered already covers the new tips. -/
theorem reachable_subset_union {before after : List Obj} {old delta : Set Obj}
    (hold : reachable refers before ⊆ old)
    (hdelta : reachable refers after \ reachable refers before ⊆ delta) :
    reachable refers after ⊆ old ∪ delta := by
  intro o ho
  by_cases hbefore : o ∈ reachable refers before
  · exact Or.inl (hold hbefore)
  · exact Or.inr (hdelta ⟨ho, hbefore⟩)

end Objects

/-! ### The packs of a manifest -/

variable (refers : String → String → Prop) (contents : ByteArray → Set String)

/-- What `git` prints for a push that turns the refs `before` into `after`: the delta pack holds
what `after` reaches and `before` does not, an empty output holds nothing, and the compacted packs
hold all that `after` reaches. -/
structure GitOutput (before after : SortedMap String String) (ws : Workspace) : Prop where
  delta : ∀ pack, ws.packObjects = .ok pack →
    reachable refers after.values \ reachable refers before.values ⊆ contents pack
  empty : ∀ pack, ws.packObjects = .ok pack → pack.size = 0 → contents pack = ∅
  compaction : ∀ packs, ws.compaction = .ok packs →
    reachable refers after.values ⊆ {o | ∃ pack ∈ packs, o ∈ contents pack}

/-- The objects in the stored packs that a manifest names. -/
def packed (s : Bucket) (m : Manifest) : Set String :=
  {o | ∃ key ∈ m.packs, ∃ bytes, s.objects.lookup key = some bytes ∧ o ∈ contents bytes}

/-- The packs of a manifest hold everything its refs reach. -/
def Covers (s : Bucket) (m : Manifest) : Prop :=
  reachable refers m.refs.values ⊆ packed contents s m

/-! ### What the packs of a push come from -/

section Plan

variable {options : PublishOptions} {parent : ParentState} {refs : SortedMap String String}
  {ws : Workspace}

theorem capturePack_eq_some {maxPackBytes : ℕ} {pack : ByteArray}
    (h : capturePack refs maxPackBytes ws = .ok (some pack)) : ws.packObjects = .ok pack := by
  rw [capturePack] at h
  split_ifs at h
  · cases h
  · rw [bind_eq_ok] at h
    obtain ⟨pack', hpack, h⟩ := h
    split_ifs at h
    · cases h
    · obtain rfl := Option.some.inj (Except.ok.inj h)
      exact hpack

theorem capturePack_eq_none {maxPackBytes : ℕ}
    (h : capturePack refs maxPackBytes ws = .ok none) :
    refs.entries = [] ∨ ∃ pack, ws.packObjects = .ok pack ∧ pack.size = 0 := by
  rw [capturePack] at h
  split_ifs at h with hempty
  · exact Or.inl hempty
  · rw [bind_eq_ok] at h
    obtain ⟨pack, hpack, h⟩ := h
    split_ifs at h with hmax hzero
    · exact Or.inr ⟨pack, hpack, hzero⟩
    · cases h

theorem planDelta_eq_ok {limits : PublishLimits} {packsBefore : ℕ} {failure : Option CasError}
    {pack : Option ByteArray} {plan : PackPlan}
    (h : planDelta limits packsBefore failure pack = .ok plan) : plan = .delta pack := by
  cases pack with
  | none => exact (Except.ok.inj h).symm
  | some bytes =>
    rw [planDelta] at h
    split_ifs at h
    exact (Except.ok.inj h).symm

theorem prepareCompaction_eq_ok {limits : PublishLimits} {packsBefore : ℕ}
    {packs : List ByteArray} (h : prepareCompaction refs limits packsBefore ws = .ok packs) :
    refs.entries = [] ∨ ws.compaction = .ok packs := by
  rw [prepareCompaction, bind_eq_ok] at h
  obtain ⟨packs', hcapture, h⟩ := h
  have heq : packs' = packs := by
    split_ifs at h
    exact Except.ok.inj h
  rw [heq, captureCompactedPacks] at hcapture
  split_ifs at hcapture with hempty
  · exact Or.inl hempty
  · rw [bind_eq_ok] at hcapture
    obtain ⟨packs', hcompaction, hcapture⟩ := hcapture
    split_ifs at hcapture
    rw [bind_eq_ok] at hcapture
    obtain ⟨_, -, hcapture⟩ := hcapture
    exact Or.inr (Except.ok.inj hcapture ▸ hcompaction)

/-- What the packs of a push come from: compaction, a delta, or no pack at all. -/
theorem planPacks_cases {plan : PackPlan} (h : planPacks options parent refs ws = .ok plan) :
    (∃ packs, plan = .compacted packs ∧ (refs.entries = [] ∨ ws.compaction = .ok packs)) ∨
      (∃ pack, plan = .delta (some pack) ∧ ws.packObjects = .ok pack) ∨
      plan = .delta none ∧
        (refs.entries = [] ∨ ∃ pack, ws.packObjects = .ok pack ∧ pack.size = 0) := by
  have hdelta : ∀ {failure}, (do
      let pack ← capturePack refs options.limits.maxPackBytes ws
      planDelta options.limits parent.parent.packs.length failure pack) = .ok plan →
      (∃ pack, plan = .delta (some pack) ∧ ws.packObjects = .ok pack) ∨
        plan = .delta none ∧
          (refs.entries = [] ∨ ∃ pack, ws.packObjects = .ok pack ∧ pack.size = 0) := by
    intro failure hbind
    rw [bind_eq_ok] at hbind
    obtain ⟨pack, hcapture, hplan⟩ := hbind
    have heq := planDelta_eq_ok hplan
    cases pack with
    | none => exact Or.inr ⟨heq, capturePack_eq_none hcapture⟩
    | some bytes => exact Or.inl ⟨bytes, heq, capturePack_eq_some hcapture⟩
  rw [planPacks] at h
  split at h
  · next packs htry =>
    refine Or.inl ⟨packs, (Except.ok.inj h).symm, ?_⟩
    rw [tryCompaction] at htry
    split_ifs at htry
    split at htry
    · cases Option.some.inj htry
    · exact prepareCompaction_eq_ok (Option.some.inj htry)
  · exact Or.inr (hdelta h)
  · exact Or.inr (hdelta h)

end Plan

/-! ### One publish -/

section Publish

variable {refers contents} {sha256 : Sha256} {pkey : String} {options : PublishOptions}
  {parent : ParentState} {refs : SortedMap String String} {ws : Workspace} {plan : PackPlan}
  {s s' : Bucket} {m : Manifest}

theorem Covers.extend (h : Covers refers contents s m) (hext : Extends pkey s s') :
    Covers refers contents s' m := by
  intro o ho
  obtain ⟨key, hkey, bytes, hlookup, hmem⟩ := h ho
  exact ⟨key, hkey, bytes, hext.objects hlookup, hmem⟩

theorem reachable_values_of_entries_nil (h : refs.entries = []) :
    reachable refers refs.values = ∅ := by
  rw [SortedMap.values, h, List.map_nil, reachable_nil]

/-- A manifest without refs is covered by any packs. -/
theorem covers_of_entries_nil (h : m.refs.entries = []) : Covers refers contents s m := by
  rw [Covers, reachable_values_of_entries_nil h]
  exact Set.empty_subset _

/-- A composed manifest is covered when its parent is and the uploaded packs are stored. -/
theorem covers_compose (hgit : GitOutput refers contents parent.parent.refs refs ws)
    (hplan : planPacks options parent refs ws = .ok plan)
    (hstored : ∀ pack ∈ plan.uploads,
      s.objects.lookup (contentKey sha256 "packs" pack) = some pack)
    (hparent : Covers refers contents s parent.parent) (head : String) :
    Covers refers contents s (plan.compose sha256 parent head refs) := by
  have hrefs := (plan.compose_eq sha256 parent head refs).2.2.1
  have hkeys : ∀ {key}, key ∈ plan.keys sha256 parent →
      key ∈ (plan.compose sha256 parent head refs).packs := (plan.mem_compose_packs sha256).mpr
  rw [Covers, hrefs]
  intro o ho
  have hnonempty : refs.entries ≠ [] := by
    intro hnil
    rw [reachable_values_of_entries_nil hnil] at ho
    exact ho
  have hdelta : ∀ {pack}, ws.packObjects = .ok pack →
      o ∈ packed contents s parent.parent ∨ o ∈ contents pack := fun hpack =>
    reachable_subset_union hparent (hgit.delta _ hpack) ho
  rcases planPacks_cases hplan with ⟨packs, rfl, hcompaction⟩ | ⟨pack, rfl, hpack⟩ | ⟨rfl, hnone⟩
  · -- The compacted packs alone hold everything.
    obtain ⟨pack, hmem, hcontents⟩ :=
      hgit.compaction packs (hcompaction.resolve_left hnonempty) ho
    exact ⟨_, hkeys (List.mem_map_of_mem hmem), pack, hstored pack hmem, hcontents⟩
  · -- The delta pack joins the packs of the parent.
    rcases hdelta hpack with ⟨key, hkey, hold⟩ | hcontents
    · exact ⟨key, hkeys (List.mem_append_left _ hkey), hold⟩
    · exact ⟨_, hkeys (List.mem_append_right _ List.mem_cons_self), pack,
        hstored pack List.mem_cons_self, hcontents⟩
  · -- Nothing new is reachable.
    obtain ⟨pack, hpack, hzero⟩ := hnone.resolve_left hnonempty
    rcases hdelta hpack with ⟨key, hkey, hold⟩ | hcontents
    · exact ⟨key, hkeys (List.mem_append_left _ hkey), hold⟩
    · rw [hgit.empty pack hpack hzero] at hcontents
      exact hcontents.elim

/-- The store returns what a push writes: its packs and its manifest do not share a key with
other objects. -/
structure NoCollision (sha256 : Sha256) (options : PublishOptions) (parent : ParentState)
    (ws : Workspace) (s : Bucket) : Prop where
  packs : ∀ m plan, prepare sha256 options parent ws = .ok (m, plan) → ∀ pack ∈ plan.uploads,
    (uploadPacks sha256 plan.uploads s).objects.lookup (contentKey sha256 "packs" pack) = some pack
  manifest : ∀ m plan, prepare sha256 options parent ws = .ok (m, plan) →
    StoresOnly sha256 m.canonicalBytes s

/-- What `git` prints for a push over the refs of its parent. -/
def HonestGit (refers : String → String → Prop) (contents : ByteArray → Set String)
    (parent : ParentState) (ws : Workspace) : Prop :=
  ∀ refs observed, snapshotWorkspaceState ws = .ok (refs, observed) →
    GitOutput refers contents parent.parent.refs refs ws

/-- A successful publish over a covered parent installs a covered manifest and keeps every
manifest that was covered. -/
theorem covers_of_casPublish {etag : ETag} {success : CasSuccess}
    (hgit : HonestGit refers contents parent ws)
    (hcollision : NoCollision sha256 options parent ws s)
    (hparent : Covers refers contents s parent.parent)
    (hcall : casPublish sha256 pkey options parent ws etag s = (.ok success, s')) :
    Covers refers contents s' success.manifest ∧
      ∀ m, Covers refers contents s m → Covers refers contents s' m := by
  obtain ⟨plan, hprepare, -, -, hobjects⟩ := casPublish_eq_ok sha256 hcall
  obtain ⟨refs, observed, hsnap, hplan, hm⟩ := prepare_eq_ok sha256 hprepare
  have hupload : Extends pkey s (uploadPacks sha256 plan.uploads s) :=
    extends_uploadPacks sha256 pkey _ _
  have hkeep : ∀ {key bytes}, (uploadPacks sha256 plan.uploads s).objects.lookup key = some bytes →
      s'.objects.lookup key = some bytes := by
    intro key bytes hlookup
    rw [hobjects]
    exact Bucket.lookup_putImmutable_of_some sha256 hlookup
  have hcovers : ∀ m, Covers refers contents s m → Covers refers contents s' m := by
    intro m h o ho
    obtain ⟨key, hkey, bytes, hlookup, hmem⟩ := h ho
    exact ⟨key, hkey, bytes, hkeep (hupload.objects hlookup), hmem⟩
  refine ⟨?_, hcovers⟩
  rw [hm]
  exact covers_compose (hgit refs observed hsnap) hplan
    (fun pack hpack => hkeep (hcollision.packs _ plan hprepare pack hpack))
    (hcovers _ hparent) _

end Publish

/-! ### Chains of publishes -/

/-- The successful publishes of one repository from its empty state on, newest first, with the
bucket they leave. In between, failed pushes and other repositories write objects. -/
inductive PublishChain (sha256 : Sha256) (pkey : String) : List Manifest → Bucket → Prop
  | empty {s} (hpointer : s.getPointer pkey = none) : PublishChain sha256 pkey [] s
  | objects {ms s s'} (hchain : PublishChain sha256 pkey ms s) (hext : Extends pkey s s') :
      PublishChain sha256 pkey ms s'
  | publish {ms s s' s'' parent options ws etag success} (hchain : PublishChain sha256 pkey ms s)
      (hload : hydrateForWrite sha256 pkey s = .ok parent) (hext : Extends pkey s s')
      (hgit : HonestGit refers contents parent ws)
      (hcollision : NoCollision sha256 options parent ws s')
      (hcall : casPublish sha256 pkey options parent ws etag s' = (.ok success, s'')) :
      PublishChain sha256 pkey (success.manifest :: ms) s''

/-- What a chain of publishes leaves: the pointer names the newest manifest, and every manifest is
covered by the at most `MAX_MANIFEST_PACKS` packs it names. -/
structure ChainInvariant (sha256 : Sha256) (pkey : String) (ms : List Manifest) (s : Bucket) :
    Prop where
  pointer : s.getPointer pkey = none ∧ ms = [] ∨
    ∃ etag m, ms.head? = some m ∧ m.Canonical ∧ Stored sha256 s m ∧
      s.getPointer pkey = some (etag, (m.digest sha256).toUTF8)
  covers : ∀ m ∈ ms, Covers refers contents s m ∧ m.packs.length ≤ MAX_MANIFEST_PACKS

section Chain

variable {refers contents} {sha256 : Sha256} {pkey : String} {ms : List Manifest} {s s' : Bucket}

theorem ChainInvariant.extend (h : ChainInvariant refers contents sha256 pkey ms s)
    (hext : Extends pkey s s') : ChainInvariant refers contents sha256 pkey ms s' := by
  refine ⟨?_, fun m hm => ⟨(h.covers m hm).1.extend hext, (h.covers m hm).2⟩⟩
  rw [hext.pointer]
  rcases h.pointer with hnone | ⟨etag, m, hhead, hcanonical, hstored, hpointer⟩
  · exact Or.inl hnone
  · exact Or.inr ⟨etag, m, hhead, hcanonical, hext.objects hstored, hpointer⟩

/-- A push is hydrated from a covered manifest, or from nothing. -/
theorem ChainInvariant.covers_parent (h : ChainInvariant refers contents sha256 pkey ms s)
    {parent : ParentState} (hload : hydrateForWrite sha256 pkey s = .ok parent) :
    Covers refers contents s parent.parent := by
  rcases h.pointer with ⟨hnone, -⟩ | ⟨etag, m, hhead, hcanonical, hstored, hpointer⟩
  · rw [hydrateForWrite_of_none hnone] at hload
    obtain rfl := Except.ok.inj hload
    exact covers_of_entries_nil rfl
  · obtain rfl := hydrateForWrite_of_stored hcanonical hpointer hstored hload
    exact (h.covers m (List.mem_of_mem_head? hhead)).1

/-- The invariant holds along every chain. -/
theorem PublishChain.invariant (h : PublishChain refers contents sha256 pkey ms s) :
    ChainInvariant refers contents sha256 pkey ms s := by
  induction h with
  | empty hpointer =>
    exact ⟨Or.inl ⟨hpointer, rfl⟩, fun m hm => absurd hm List.not_mem_nil⟩
  | objects _ hext ih => exact ih.extend hext
  | @publish ms s s' s'' parent options ws etag success _ hload hext hgit hcollision hcall ih =>
    have hparent := (ih.covers_parent hload).extend hext
    obtain ⟨hcovers, hkeep⟩ := covers_of_casPublish hgit hcollision hparent hcall
    obtain ⟨plan, hprepare, hvalid, hpointer, hobjects⟩ := casPublish_eq_ok sha256 hcall
    have hstored : Stored sha256 s'' success.manifest := by
      rw [Stored, hobjects]
      refine Bucket.lookup_putImmutable sha256 fun b hb => ?_
      rw [lookup_uploadPacks] at hb
      exact hcollision.manifest _ plan hprepare b hb
    have hpacks := ((Manifest.validate_eq_ok_iff _).mp hvalid).packs_le
    refine ⟨Or.inr ⟨etag, success.manifest, rfl, canonical_of_prepare hprepare hvalid, hstored,
      hpointer⟩, ?_⟩
    refine List.forall_mem_cons.mpr ⟨⟨hcovers, hpacks⟩, fun m hm => ?_⟩
    obtain ⟨hold, hle⟩ := (ih.extend hext).covers m hm
    exact ⟨hkeep m hold, hle⟩

end Chain

/-- Along every chain of successful publishes, the packs that a manifest names hold everything its
refs reach, and there are at most `MAX_MANIFEST_PACKS` of them. -/
theorem publishChain_covers (sha256 : Sha256) (pkey : String) (ms : List Manifest) (s : Bucket)
    (h : PublishChain refers contents sha256 pkey ms s) :
    ∀ m ∈ ms, reachable refers m.refs.values ⊆ packed contents s m ∧
      m.packs.length ≤ MAX_MANIFEST_PACKS :=
  h.invariant.covers

/-- The graph of the first commit. -/
def firstRefers (a b : String) : Prop := a = firstCommit ∧ b = emptyTree

/-- What the pack of the first commit holds. -/
def firstContents (bytes : ByteArray) : Set String :=
  {o | bytes = firstPack ∧ (o = firstCommit ∨ o = emptyTree)}

theorem reachable_firstCommit : reachable firstRefers [firstCommit] ⊆ firstContents firstPack := by
  rintro o ⟨t, ht, hreach⟩
  obtain rfl := List.mem_singleton.mp ht
  refine ⟨rfl, ?_⟩
  induction hreach with
  | refl => exact Or.inl rfl
  | tail _ hstep _ => exact Or.inr hstep.2

theorem honestGit_main : HonestGit firstRefers firstContents .fresh (firstPush mainBranch) := by
  intro refs observed hsnap
  rw [pushable_mainBranch.snapshot] at hsnap
  obtain ⟨rfl, -⟩ := Prod.mk.inj (Except.ok.inj hsnap)
  have hvalues : (SortedMap.ofList mainBranch).values = [firstCommit] := rfl
  refine ⟨?_, ?_, ?_⟩
  · intro pack hpack
    obtain rfl := Except.ok.inj hpack
    rw [hvalues]
    exact Set.sdiff_subset.trans reachable_firstCommit
  · intro pack hpack hzero
    obtain rfl := Except.ok.inj hpack
    rw [size_firstPack] at hzero
    cases hzero
  · intro packs hpacks
    obtain rfl := Except.ok.inj hpacks
    rw [hvalues]
    exact fun o ho => ⟨firstPack, List.mem_cons_self, reachable_firstCommit ho⟩

theorem noCollision_main :
    NoCollision firstSha256 defaultOptions .fresh (firstPush mainBranch) ⟨∅, ∅⟩ := by
  have hprepared := pushable_mainBranch.prepared firstSha256
  refine ⟨?_, fun m _ _ => storesOnly_empty firstSha256 m.canonicalBytes⟩
  intro m plan hprepare pack hpack
  obtain ⟨-, rfl⟩ := Prod.mk.inj (Except.ok.inj (hprepared.symm.trans hprepare))
  obtain rfl := List.mem_singleton.mp hpack
  refine Bucket.lookup_putImmutable firstSha256 fun b hb => ?_
  rw [AList.lookup_empty] at hb
  cases hb

theorem publishChain_covers_main :
    ∃ m s, PublishChain firstRefers firstContents firstSha256 (pointerKey 0 "owner" "repo") [m] s ∧
      reachable firstRefers m.refs.values ⊆ packed firstContents s m ∧
      m.packs.length ≤ MAX_MANIFEST_PACKS := by
  obtain ⟨s', hpublish⟩ := pushable_mainBranch.publishes firstSha256
    (pointerKey 0 "owner" "repo") ⟨"1"⟩
  have hempty : (⟨∅, ∅⟩ : Bucket).getPointer (pointerKey 0 "owner" "repo") = none :=
    AList.lookup_empty _
  have hchain : PublishChain firstRefers firstContents firstSha256 (pointerKey 0 "owner" "repo")
      [firstManifest firstSha256 mainBranch] s' :=
    .publish (.empty hempty) (hydrateForWrite_of_none hempty) (extends_refl _ _) honestGit_main
      noCollision_main hpublish
  exact ⟨_, s', hchain, publishChain_covers _ _ _ _ _ _ hchain _ List.mem_cons_self⟩

end Buzz.Relay.Git
