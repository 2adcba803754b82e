import Mathlib.Data.Finset.Card
import Buzz.Library.Outcome
import Buzz.Relay.Git.Store

/-!
# The publish step of a push

The push commit point of `crates/buzz-relay/src/api/git/cas_publish.rs`. After `receive-pack` ran in
the hydrated workspace, the refs of the workspace are snapshotted, the new objects are captured as a
delta pack (or the whole closure as compacted packs), the manifest is composed over the parent and
validated, and the pointer is installed under the entity tag the workspace was hydrated from.

What `git` prints is the input of a push, a `Workspace`: the output of `for-each-ref`, of
`symbolic-ref` and of the two runs of `pack-objects`. Failed spawns and timeouts are the errors of
its fields; `compactionFault` is the permit or the time that compaction did not get. Metrics, log
lines and the index sidecars, whose failures a push ignores, are left out.

## Main definitions

* `CasError`, `PublishLimits`, `ParentState`, `Workspace`.
* `snapshotWorkspaceState`, `resolvePublishedHead`, `capturePack`, `prepareCompaction`.
* `composeAfter`, `composeCompactedAfter`, `prepare`, `casPublish`.

## Main results

* `prepare_eq_ok`: what a prepared manifest is made of.
-/

namespace Buzz.Relay.Git

open Buzz.Core Buzz.Library

/-- The bound on the output of `for-each-ref`. -/
def MAX_REF_SNAPSHOT_BYTES : ℕ := 4 * 1024 * 1024

/-- Errors a publish surfaces. -/
inductive CasError
  | conflict (winnerManifest : Manifest) (winnerManifestKey : String)
  | manifestReadFailed (message : String)
  | manifestInvalid (error : ManifestError)
  | backend (error : StoreError)
  | packCapture (message : String)
  | resourceLimit (message : String)
  deriving DecidableEq

/-- Resource limits carried from hydration into the publish step. -/
structure PublishLimits where
  parentHydratedBytes : ℕ
  maxPackBytes : ℕ
  maxRepoBytes : ℕ

/-- The limits of a publish, and the pack count from which it compacts. -/
structure PublishOptions where
  limits : PublishLimits
  compactionThreshold : ℕ

/-- Resolved view of the pre-push pointer. -/
structure ParentState where
  ifMatch : Option ETag
  parentDigest : Option String
  parent : Manifest
  deriving DecidableEq

namespace ParentState

/-- State for a brand-new repo with no published manifest yet. -/
def fresh : ParentState :=
  ⟨none, none, ⟨MANIFEST_VERSION, "", SortedMap.empty, [], none⟩⟩

/-- The state of a loaded pointer. -/
def fromLoaded (etag : ETag) (digest : String) (parent : Manifest) : ParentState :=
  ⟨some etag, some digest, parent⟩

/-- The precondition of the pointer write. -/
def precond (p : ParentState) : Precond :=
  match p.ifMatch with
  | some e => .ifMatch e
  | none => .ifNoneMatchStar

end ParentState

/-- What `git` prints in the workspace of a push. -/
structure Workspace where
  forEachRef : Except CasError ByteArray
  symbolicRef : Except CasError (Option String)
  packObjects : Except CasError ByteArray
  compaction : Except CasError (List ByteArray)
  compactionFault : Option CasError

/-! ### The ref snapshot -/

/-- The lines of a text, without their line ends: `str::lines`. The characters of the current line
are collected in reverse. -/
def linesAux : List Char → List Char → List (List Char)
  | current, [] => if current = [] then [] else [current.reverse]
  | current, c :: rest =>
    if c = '\n' then
      (match current with
        | '\r' :: line => line.reverse
        | line => line.reverse) :: linesAux [] rest
    else linesAux (c :: current) rest

/-- The lines of a text. -/
def lines (text : List Char) : List (List Char) := linesAux [] text

/-- Split a line at its first blank: `splitn(2, ' ')`. -/
def splitRef (line : List Char) : Option (String × String) :=
  if ' ' ∈ line then
    some (String.ofList (line.takeWhile (· ≠ ' ')),
      String.ofList (line.dropWhile (· ≠ ' ')).tail)
  else none

/-- Collect the refs of the lines; lines without an object identifier are skipped. -/
def collectRefs : List (List Char) → SortedMap String String →
    Except CasError (SortedMap String String)
  | [], refs => .ok refs
  | line :: rest, refs =>
    match splitRef line with
    | none => collectRefs rest refs
    | some (name, oid) =>
      if oid.utf8ByteSize ≠ 40 ∨ oid.toList.all isHexDigit = false then collectRefs rest refs
      else if refs.entries.length ≥ MAX_MANIFEST_REFS ∧ name ∉ refs.keys then
        .error (.resourceLimit s!"workspace contains more than {MAX_MANIFEST_REFS} refs")
      else collectRefs rest (refs.insert name oid)

/-- Read the refs off the output of `for-each-ref`. -/
def readRefs (stdout : ByteArray) : Except CasError (SortedMap String String) :=
  if stdout.size > MAX_REF_SNAPSHOT_BYTES then
    .error (.resourceLimit s!"ref snapshot is {stdout.size} bytes (max {MAX_REF_SNAPSHOT_BYTES})")
  else collectRefs (lines ((String.fromUTF8? stdout).getD "").toList) SortedMap.empty

/-- Read refs and symbolic HEAD from the workspace. -/
def snapshotWorkspaceState (ws : Workspace) :
    Except CasError (SortedMap String String × String) := do
  let refs ← readRefs (← ws.forEachRef)
  let head ← ws.symbolicRef
  return (refs, (head.map trim).getD "")

/-- Whether a name is a branch of the snapshot. -/
def isPublishedBranch (refs : SortedMap String String) (name : String) : Bool :=
  "refs/heads/".toList.isPrefixOf name.toList && decide (name ∈ refs.keys)

/-- The HEAD to publish: a real branch whenever there is one. -/
def resolvePublishedHead (refs : SortedMap String String) (observedHead parentHead : String) :
    String :=
  if isPublishedBranch refs observedHead then observedHead
  else if isPublishedBranch refs parentHead then parentHead
  else if "refs/heads/main" ∈ refs.keys then "refs/heads/main"
  else if "refs/heads/master" ∈ refs.keys then "refs/heads/master"
  else
    match refs.keys.find? fun name => "refs/heads/".toList.isPrefixOf name.toList with
    | some branch => branch
    | none => if observedHead ≠ "" then observedHead else parentHead

/-! ### Packs -/

/-- Capture the objects a push introduced as a single pack. -/
def capturePack (refsAfter : SortedMap String String) (maxPackBytes : ℕ) (ws : Workspace) :
    Except CasError (Option ByteArray) :=
  if refsAfter.entries = [] then .ok none
  else do
    let pack ← ws.packObjects
    if pack.size > maxPackBytes then
      .error (.resourceLimit s!"pack-objects output is {pack.size} bytes (max {maxPackBytes})")
    else if pack.size = 0 then .ok none
    else .ok (some pack)

/-- Whether the parent's pack count asks for compaction. -/
def shouldCompact (parentPackCount threshold : ℕ) : Bool := decide (parentPackCount ≥ threshold)

/-- Whether compaction paid off, or is needed to get below the cap. -/
def compactedPackSetIsUsable (parentPackCount compactedPackCount : ℕ) : Bool :=
  decide (compactedPackCount < parentPackCount) ||
    (decide (parentPackCount ≥ MAX_MANIFEST_PACKS) &&
      decide (compactedPackCount ≤ MAX_MANIFEST_PACKS))

/-- Check the sizes of compacted packs, one by one and in total. -/
def checkCompactedSizes (limits : PublishLimits) : ℕ → List ByteArray → Except CasError Unit
  | _, [] => .ok ()
  | total, pack :: packs =>
    if pack.size > limits.maxPackBytes then
      .error (.resourceLimit
        s!"compacted pack is {pack.size} bytes (max {limits.maxPackBytes})")
    else if total + pack.size ≥ 2 ^ 64 then
      .error (.resourceLimit "compacted byte count overflowed u64")
    else if total + pack.size > limits.maxRepoBytes then
      .error (.resourceLimit
        s!"compacted repo needs {total + pack.size} bytes (max {limits.maxRepoBytes})")
    else checkCompactedSizes limits (total + pack.size) packs

/-- Capture the complete object closure reachable from the post-push refs. -/
def captureCompactedPacks (refsAfter : SortedMap String String) (limits : PublishLimits)
    (ws : Workspace) : Except CasError (List ByteArray) :=
  if refsAfter.entries = [] then .ok []
  else do
    let packs ← ws.compaction
    if packs.length > MAX_MANIFEST_PACKS then
      .error (.resourceLimit
        s!"compaction produced {packs.length} packs (max {MAX_MANIFEST_PACKS})")
    else do
      checkCompactedSizes limits 0 packs
      return packs

/-- Capture compacted packs, unless their number is no gain. -/
def prepareCompaction (refsAfter : SortedMap String String) (limits : PublishLimits)
    (packsBefore : ℕ) (ws : Workspace) : Except CasError (List ByteArray) := do
  let packs ← captureCompactedPacks refsAfter limits ws
  if compactedPackSetIsUsable packsBefore packs.length then return packs
  else
    .error (.resourceLimit
      s!"compaction did not reduce pack count (before {packsBefore}, after {packs.length})")

/-- The packs a push uploads: a compacted set that replaces the parent's packs, or at most one
delta pack that joins them. -/
inductive PackPlan
  | compacted (packs : List ByteArray)
  | delta (pack : Option ByteArray)

/-- The packs to upload. -/
def PackPlan.uploads : PackPlan → List ByteArray
  | compacted packs => packs
  | delta pack => pack.toList

/-- The delta pack of a push, when compaction was not due or failed with `failure`. -/
def planDelta (limits : PublishLimits) (packsBefore : ℕ) (failure : Option CasError) :
    Option ByteArray → Except CasError PackPlan
  | none => .ok (.delta none)
  | some pack =>
    if packsBefore ≥ MAX_MANIFEST_PACKS then
      .error (failure.getD (.resourceLimit
        s!"repository already names {packsBefore} packs and compaction failed"))
    else if limits.parentHydratedBytes + pack.size ≥ 2 ^ 64 then
      .error (.resourceLimit "repo byte count overflowed u64")
    else if limits.parentHydratedBytes + pack.size > limits.maxRepoBytes then
      .error (.resourceLimit
        (s!"repo would need {limits.parentHydratedBytes + pack.size} hydrated bytes " ++
          s!"(max {limits.maxRepoBytes})"))
    else .ok (.delta (some pack))

/-- Compaction, when it is due: its packs, or the failure that makes the push fall back. -/
def tryCompaction (options : PublishOptions) (parent : ParentState)
    (refsAfter : SortedMap String String) (ws : Workspace) :
    Option (Except CasError (List ByteArray)) :=
  let packsBefore := parent.parent.packs.length
  if shouldCompact packsBefore options.compactionThreshold then
    match ws.compactionFault with
    | some failure => some (.error failure)
    | none => some (prepareCompaction refsAfter options.limits packsBefore ws)
  else none

/-- Decide what a push uploads: compacted packs where they are due and can be had, else a delta
pack. -/
def planPacks (options : PublishOptions) (parent : ParentState)
    (refsAfter : SortedMap String String) (ws : Workspace) : Except CasError PackPlan :=
  match tryCompaction options parent refsAfter ws with
  | some (.ok packs) => .ok (.compacted packs)
  | some (.error failure) => do
    let pack ← capturePack refsAfter options.limits.maxPackBytes ws
    planDelta options.limits parent.parent.packs.length (some failure) pack
  | none => do
    let pack ← capturePack refsAfter options.limits.maxPackBytes ws
    planDelta options.limits parent.parent.packs.length none pack

/-! ### The manifest -/

/-- Compose the manifest over the parent's packs and the new one. -/
def composeAfter (parent : Manifest) (parentDigest : Option String) (head : String)
    (refs : SortedMap String String) (newPackKey : Option String) : Manifest :=
  let packs := match newPackKey with
    | some k => if k ∈ parent.packs then parent.packs else parent.packs ++ [k]
    | none => parent.packs
  ⟨MANIFEST_VERSION, head, refs, sortDedup packs, parentDigest⟩

/-- Compose the manifest over compacted packs. -/
def composeCompactedAfter (parentDigest : Option String) (head : String)
    (refs : SortedMap String String) (compactedPackKeys : List String) : Manifest :=
  ⟨MANIFEST_VERSION, head, refs, sortDedup compactedPackKeys, parentDigest⟩

variable (sha256 : Sha256)

/-- Compose the manifest of a plan. -/
def PackPlan.compose (parent : ParentState) (head : String) (refs : SortedMap String String) :
    PackPlan → Manifest
  | compacted packs =>
    composeCompactedAfter parent.parentDigest head refs
      (sortDedup (packs.map (contentKey sha256 "packs")))
  | delta pack =>
    composeAfter parent.parent parent.parentDigest head refs
      (pack.map (contentKey sha256 "packs"))

/-- Snapshot the workspace, plan the packs and compose the manifest. -/
def prepare (options : PublishOptions) (parent : ParentState) (ws : Workspace) :
    Except CasError (Manifest × PackPlan) := do
  let (refsAfter, headObserved) ← snapshotWorkspaceState ws
  let head := resolvePublishedHead refsAfter headObserved parent.parent.head
  let plan ← planPacks options parent refsAfter ws
  return (plan.compose sha256 parent head refsAfter, plan)

/-! ### Publishing -/

/-- The digest of a manifest key. -/
def digestFromManifestKey (key : String) : Except CasError String :=
  match stripPrefix "manifests/" key with
  | some digest => .ok digest
  | none => .error (.backend (.backend s!"put_manifest returned non-standard key: {key}"))

/-- Re-read the pointer after a lost race and fetch the winner's manifest. -/
def readWinnerAfterConflict (pkey : String) (s : Bucket) : CasError :=
  match s.getPointer pkey with
  | none => .manifestReadFailed "pointer vanished after LostRace (no-delete rule violated)"
  | some (_, body) =>
    match String.fromUTF8? body with
    | none => .manifestReadFailed "winner pointer body not utf-8"
    | some text =>
      let digest := trim text
      if !isPointerDigest digest then
        .manifestReadFailed
          s!"winner pointer body is not a 64-char hex digest (got {digest.utf8ByteSize} chars)"
      else
        match s.getVerified sha256 ("manifests/" ++ digest) digest with
        | .error (.digestMismatch _ _ _) => .manifestReadFailed "winner manifest digest mismatch"
        | .error (.notFound _) => .manifestReadFailed "winner pointer names missing manifest"
        | .error e => .backend e
        | .ok bytes =>
          match Manifest.fromBytes bytes with
          | .error _ => .manifestReadFailed "parse winner manifest"
          | .ok winner => .conflict winner ("manifests/" ++ digest)

/-- Upload packs. -/
def uploadPacks (packs : List ByteArray) (s : Bucket) : Bucket :=
  packs.foldl (fun s pack => (s.putPack sha256 pack).2) s

/-- The result of a publish that won. -/
structure CasSuccess where
  manifest : Manifest
  manifestKey : String

/-- The publish step, run without interruption; the store gives a new pointer version the tag
`etag`. -/
def casPublish (pkey : String) (options : PublishOptions) (parent : ParentState) (ws : Workspace)
    (etag : ETag) (s : Bucket) : Except CasError CasSuccess × Bucket :=
  match prepare sha256 options parent ws with
  | .error e => (.error e, s)
  | .ok (manifest, plan) =>
    let s := uploadPacks sha256 plan.uploads s
    match manifest.validate with
    | .error e => (.error (.manifestInvalid e), s)
    | .ok () =>
      let (manifestKey, s) := s.putManifest sha256 manifest.canonicalBytes
      match digestFromManifestKey manifestKey with
      | .error e => (.error e, s)
      | .ok digest =>
        let (outcome, s) := s.putPointer pkey digest.toUTF8 parent.precond etag
        match outcome with
        | .won _ => (.ok ⟨manifest, manifestKey⟩, s)
        | .lostRace => (.error (readWinnerAfterConflict sha256 pkey s), s)

/-! ### Hydrating for a write -/

/-- The parent state that a workspace is hydrated from. -/
def hydrateForWrite (pkey : String) (s : Bucket) : Except HydrateError ParentState :=
  match loadPointer sha256 pkey s with
  | .error e => .error e
  | .ok none => .ok .fresh
  | .ok (some (etag, digest, manifest)) => .ok (.fromLoaded etag digest manifest)

/-! ### What a publish is made of -/

/-- The pack keys of a plan, before they are sorted. -/
def PackPlan.keys (parent : ParentState) : PackPlan → List String
  | compacted packs => packs.map (contentKey sha256 "packs")
  | delta pack => parent.parent.packs ++ (pack.map (contentKey sha256 "packs")).toList

theorem PackPlan.compose_eq (parent : ParentState) (head : String)
    (refs : SortedMap String String) (plan : PackPlan) :
    (plan.compose sha256 parent head refs).version = MANIFEST_VERSION ∧
      (plan.compose sha256 parent head refs).head = head ∧
      (plan.compose sha256 parent head refs).refs = refs ∧
      (plan.compose sha256 parent head refs).parent = parent.parentDigest := by
  cases plan with
  | compacted packs => exact ⟨rfl, rfl, rfl, rfl⟩
  | delta pack => exact ⟨rfl, rfl, rfl, rfl⟩

theorem PackPlan.compose_packs_sorted (parent : ParentState) (head : String)
    (refs : SortedMap String String) (plan : PackPlan) :
    (plan.compose sha256 parent head refs).packs.Pairwise (· < ·) := by
  cases plan with
  | compacted packs => exact sortDedup_pairwise _
  | delta pack => exact sortDedup_pairwise _

theorem PackPlan.mem_compose_packs {parent : ParentState} {head : String}
    {refs : SortedMap String String} {plan : PackPlan} {key : String} :
    key ∈ (plan.compose sha256 parent head refs).packs ↔ key ∈ plan.keys sha256 parent := by
  cases plan with
  | compacted packs =>
    rw [compose, composeCompactedAfter, mem_sortDedup, mem_sortDedup, keys]
  | delta pack =>
    cases pack with
    | none => simp [compose, composeAfter, mem_sortDedup, keys]
    | some bytes =>
      simp only [compose, composeAfter, mem_sortDedup, keys, Option.map_some, Option.toList_some]
      split_ifs with hmem
      · rw [List.mem_append, List.mem_singleton]
        exact ⟨Or.inl, fun h => h.elim id fun heq => heq ▸ hmem⟩
      · rfl

/-- The number of packs a plan leads to: the distinct keys. -/
def PackPlan.packCount (parent : ParentState) (plan : PackPlan) : ℕ :=
  (plan.keys sha256 parent).toFinset.card

theorem PackPlan.length_compose_packs (parent : ParentState) (head : String)
    (refs : SortedMap String String) (plan : PackPlan) :
    (plan.compose sha256 parent head refs).packs.length = plan.packCount sha256 parent := by
  have hnodup : (plan.compose sha256 parent head refs).packs.Nodup :=
    (plan.compose_packs_sorted sha256 parent head refs).imp fun hlt => hlt.ne
  rw [packCount, ← List.toFinset_card_of_nodup hnodup]
  congr 1
  ext key
  rw [List.mem_toFinset, List.mem_toFinset, plan.mem_compose_packs]

theorem contentKey_packs_ne_manifests (pack bytes : ByteArray) :
    contentKey sha256 "packs" pack ≠ contentKey sha256 "manifests" bytes := by
  intro heq
  have hlist := congrArg String.toList heq
  have hp : "packs".toList = ['p', 'a', 'c', 'k', 's'] := by decide
  have hm : "manifests".toList = ['m', 'a', 'n', 'i', 'f', 'e', 's', 't', 's'] := by decide
  rw [contentKey, contentKey, String.toList_append, String.toList_append, String.toList_append,
    String.toList_append, hp, hm] at hlist
  exact absurd (List.cons.inj hlist).1 (by decide)

/-- Uploading packs leaves the manifests alone. -/
theorem lookup_uploadPacks (bytes : ByteArray) (packs : List ByteArray) (s : Bucket) :
    (uploadPacks sha256 packs s).objects.lookup (contentKey sha256 "manifests" bytes) =
      s.objects.lookup (contentKey sha256 "manifests" bytes) := by
  induction packs generalizing s with
  | nil => rfl
  | cons pack packs ih =>
    rw [uploadPacks, List.foldl_cons, ← uploadPacks, ih, Bucket.putPack, Bucket.putImmutable]
    split
    · rfl
    · rw [HashMap.lookup_insert_eq, if_neg (contentKey_packs_ne_manifests sha256 pack bytes).symm]

theorem uploadPacks_pointers (packs : List ByteArray) (s : Bucket) :
    (uploadPacks sha256 packs s).pointers = s.pointers := by
  induction packs generalizing s with
  | nil => rfl
  | cons pack packs ih =>
    rw [uploadPacks, List.foldl_cons, ← uploadPacks, ih, Bucket.putPack,
      Bucket.putImmutable_pointers]

/-- Uploading packs keeps the objects that are there. -/
theorem lookup_uploadPacks_of_some {packs : List ByteArray} {s : Bucket} {key : String}
    {bytes : ByteArray} (h : s.objects.lookup key = some bytes) :
    (uploadPacks sha256 packs s).objects.lookup key = some bytes := by
  induction packs generalizing s with
  | nil => exact h
  | cons pack packs ih =>
    rw [uploadPacks, List.foldl_cons, ← uploadPacks]
    exact ih (Bucket.lookup_putImmutable_of_some sha256 h)

/-- What a prepared manifest is made of. -/
theorem prepare_eq_ok {options : PublishOptions} {parent : ParentState} {ws : Workspace}
    {m : Manifest} {plan : PackPlan} (h : prepare sha256 options parent ws = .ok (m, plan)) :
    ∃ refs observed, snapshotWorkspaceState ws = .ok (refs, observed) ∧
      planPacks options parent refs ws = .ok plan ∧
      m = plan.compose sha256 parent
        (resolvePublishedHead refs observed parent.parent.head) refs := by
  rw [prepare, bind_eq_ok] at h
  obtain ⟨⟨refs, observed⟩, hsnap, hplan⟩ := h
  rw [bind_eq_ok] at hplan
  obtain ⟨plan', hplan, hm⟩ := hplan
  obtain ⟨rfl, rfl⟩ := Prod.mk.inj (Except.ok.inj hm)
  exact ⟨refs, observed, hsnap, hplan, rfl⟩

theorem digestFromManifestKey_contentKey (bytes : ByteArray) :
    digestFromManifestKey (contentKey sha256 "manifests" bytes) =
      .ok (digestHex sha256 bytes) := by
  rw [contentKey_manifests, digestFromManifestKey, stripPrefix, String.toList_append,
    if_pos (List.isPrefixOf_iff_prefix.mpr (List.prefix_append _ _)), List.drop_left,
    String.ofList_toList]

/-- What a successful publish did. -/
theorem casPublish_eq_ok {pkey : String} {options : PublishOptions} {parent : ParentState}
    {ws : Workspace} {etag : ETag} {s s' : Bucket} {success : CasSuccess}
    (h : casPublish sha256 pkey options parent ws etag s = (.ok success, s')) :
    ∃ plan, prepare sha256 options parent ws = .ok (success.manifest, plan) ∧
      success.manifest.validate = .ok () ∧
      s'.getPointer pkey =
        some (etag, (digestHex sha256 success.manifest.canonicalBytes).toUTF8) ∧
      s'.objects = ((uploadPacks sha256 plan.uploads s).putManifest sha256
        success.manifest.canonicalBytes).2.objects := by
  rw [casPublish] at h
  split at h
  · cases h
  · next m plan hprepare =>
    split at h
    · cases h
    · next hvalid =>
      simp only [Bucket.putManifest, Bucket.putImmutable_fst,
        digestFromManifestKey_contentKey] at h
      rw [Bucket.putPointer] at h
      split_ifs at h with hholds
      · obtain ⟨hsuccess, rfl⟩ := Prod.mk.inj h
        obtain rfl := Except.ok.inj hsuccess
        exact ⟨plan, hprepare, hvalid, AList.lookup_insert _, rfl⟩
      · cases h

/-! ### Growing buckets -/

/-- A bucket with the same pointer and at least the same objects. -/
structure Extends (pkey : String) (s s' : Bucket) : Prop where
  pointer : s'.getPointer pkey = s.getPointer pkey
  objects : ∀ {key bytes}, s.objects.lookup key = some bytes → s'.objects.lookup key = some bytes

theorem extends_refl (pkey : String) (s : Bucket) : Extends pkey s s := ⟨rfl, id⟩

theorem extends_putImmutable (pkey segment : String) (bytes : ByteArray) (s : Bucket) :
    Extends pkey s (s.putImmutable sha256 segment bytes).2 where
  pointer := by rw [Bucket.getPointer, Bucket.putImmutable_pointers, Bucket.getPointer]
  objects := Bucket.lookup_putImmutable_of_some sha256

theorem extends_uploadPacks (pkey : String) (packs : List ByteArray) (s : Bucket) :
    Extends pkey s (uploadPacks sha256 packs s) where
  pointer := by rw [Bucket.getPointer, uploadPacks_pointers, Bucket.getPointer]
  objects := lookup_uploadPacks_of_some sha256

/-- The digest of a manifest. -/
def Manifest.digest (m : Manifest) : String := digestHex sha256 m.canonicalBytes

/-- The canonical bytes of the manifest are stored under their key. -/
def Stored (s : Bucket) (m : Manifest) : Prop :=
  s.objects.lookup (contentKey sha256 "manifests" m.canonicalBytes) = some m.canonicalBytes

section Hydrate

variable {sha256} {pkey : String} {s : Bucket} {etag : ETag} {m : Manifest}

/-- A manifest of the current version, valid and with its packs sorted, as a publish composes it. -/
structure Manifest.Canonical (m : Manifest) : Prop where
  version : m.version = MANIFEST_VERSION
  packs : m.packs.Pairwise (· < ·)
  valid : m.validate = .ok ()

theorem Manifest.Canonical.fromBytes (h : m.Canonical) :
    Manifest.fromBytes m.canonicalBytes = .ok m := by
  rw [Manifest.fromBytes_canonicalBytes m h.version, sortDedup_eq_self h.packs]

theorem canonical_of_prepare {options : PublishOptions} {parent : ParentState} {ws : Workspace}
    {plan : PackPlan} (hprepare : prepare sha256 options parent ws = .ok (m, plan))
    (hvalid : m.validate = .ok ()) : m.Canonical := by
  obtain ⟨refs, observed, -, -, rfl⟩ := prepare_eq_ok sha256 hprepare
  exact ⟨(plan.compose_eq sha256 parent _ refs).1, plan.compose_packs_sorted sha256 parent _ refs,
    hvalid⟩

/-- Without a pointer the repository is fresh. -/
theorem hydrateForWrite_of_none (hpointer : s.getPointer pkey = none) :
    hydrateForWrite sha256 pkey s = .ok .fresh := by
  simp only [hydrateForWrite, loadPointer, hpointer]

/-- A workspace is hydrated from the stored manifest that the pointer names. -/
theorem hydrateForWrite_of_stored (hm : m.Canonical)
    (hpointer : s.getPointer pkey = some (etag, (m.digest sha256).toUTF8))
    (hstored : Stored sha256 s m) {parent : ParentState}
    (hload : hydrateForWrite sha256 pkey s = .ok parent) :
    parent = .fromLoaded etag (m.digest sha256) m := by
  by_cases hsize : m.canonicalBytes.size ≤ MAX_MANIFEST_BYTES
  · rw [hydrateForWrite, loadPointer_of_size_le hpointer hstored hm.version hm.packs hm.valid
      hsize] at hload
    exact (Except.ok.inj hload).symm
  · obtain ⟨message, herror⟩ := loadPointer_of_lt_size hpointer hstored (Nat.not_le.mp hsize)
    rw [hydrateForWrite, herror] at hload
    cases hload

end Hydrate

end Buzz.Relay.Git
