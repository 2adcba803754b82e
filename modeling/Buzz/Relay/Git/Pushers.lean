import Mathlib.Logic.Function.Basic
import Buzz.Library.LinkedHistory
import Buzz.Relay.Git.FirstPush

/-!
# Concurrent pushes

Any number of pushes to one repository, each running `hydrate_for_write` and then `cas_publish` of
`crates/buzz-relay/src/api/git/cas_publish.rs`, their steps interleaved in any order. A push reads
the pointer once, runs `receive-pack` in the workspace it hydrated from what it read, composes its
manifest over that parent, writes it, and installs the pointer under the entity tag it read. It may
fail at every step, and a pointer write may take effect although its answer is lost.

The store gives every version of the pointer a tag of its own, and no two manifests of the run have
the same digest. The manifests that were installed are a ghost of the state, newest first.

## Main definitions

* `PushState`, `Install`, `World`, `Step`.
* `parentOf`, `History`, `PushState.Sound`: the invariant.
* `OneChain`: what holds at every moment.

## Main results

* `Step.invariant`: every step keeps the invariant.
* `oneChain_of_run`: the installed manifests form one chain without forks.
* `run_casPublish`: a publish that is not interrupted is a run of the system.
-/

namespace Buzz.Relay.Git

open Buzz.Core Buzz.Library Relation

/-! ### The system -/

variable (sha256 : Sha256) (pkey : String)

/-- Where a push stands. -/
inductive PushState
  | idle
  | unhydrated (error : HydrateError)
  | hydrated (parent : ParentState)
  | received (parent : ParentState) (ws : Workspace)
  | composed (parent : ParentState) (ws : Workspace) (manifest : Manifest)
  | stored (parent : ParentState) (ws : Workspace) (manifest : Manifest) (manifestKey : String)
  | lost
  | done (result : Except CasError CasSuccess)

/-- The push is between its hydration and its answer. -/
def PushState.inFlight : PushState → Bool
  | hydrated _ | received _ _ | composed _ _ _ | stored _ _ _ _ | lost => true
  | idle | unhydrated _ | done _ => false

/-- A pointer version that was installed: by which push, from which parent and workspace. -/
structure Install (P : Type) where
  push : P
  parent : ParentState
  workspace : Workspace
  manifest : Manifest
  etag : ETag

/-- The bucket, the pushes, and the installed versions with the newest first. -/
structure World (P : Type) where
  bucket : Bucket
  pushes : P → PushState
  installed : List (Install P)

variable {P : Type} (receivePack : Manifest → Workspace → Prop)

/-- Advance a push, with the bucket it leaves. -/
def World.advance [DecidableEq P] (w : World P) (p : P) (state : PushState) (bucket : Bucket) :
    World P :=
  { w with bucket := bucket, pushes := Function.update w.pushes p state }

/-- Install a pointer version of a push, with the bucket and the state it leaves. -/
def World.install [DecidableEq P] (w : World P) (r : Install P) (state : PushState)
    (bucket : Bucket) : World P :=
  ⟨bucket, Function.update w.pushes r.push state, r :: w.installed⟩

theorem World.pushes_advance_self [DecidableEq P] (w : World P) (p : P) (state : PushState)
    (bucket : Bucket) : (w.advance p state bucket).pushes p = state := by
  simp only [World.advance, Function.update_self]

theorem World.pushes_advance_of_ne [DecidableEq P] (w : World P) {p q : P} (h : q ≠ p)
    (state : PushState) (bucket : Bucket) : (w.advance p state bucket).pushes q = w.pushes q := by
  simp only [World.advance, Function.update_of_ne h]

theorem World.pushes_install_self [DecidableEq P] (w : World P) (r : Install P) (state : PushState)
    (bucket : Bucket) : (w.install r state bucket).pushes r.push = state := by
  simp only [World.install, Function.update_self]

theorem World.pushes_install_of_ne [DecidableEq P] (w : World P) {r : Install P} {q : P}
    (h : q ≠ r.push)
    (state : PushState) (bucket : Bucket) : (w.install r state bucket).pushes q = w.pushes q := by
  simp only [World.install, Function.update_of_ne h]

/-- One step of one push, or of another writer of objects. `receivePack parent ws` says that `ws` is
what a client's push can leave of the workspace hydrated from `parent`. -/
inductive Step [DecidableEq P] : World P → World P → Prop
  | hydrate {w p parent} (hidle : w.pushes p = .idle)
      (hload : hydrateForWrite sha256 pkey w.bucket = .ok parent) :
      Step w (w.advance p (.hydrated parent) w.bucket)
  | hydrateFail {w p} (error : HydrateError) (hidle : w.pushes p = .idle) :
      Step w (w.advance p (.unhydrated error) w.bucket)
  | receive {w p parent ws} (hstate : w.pushes p = .hydrated parent)
      (hreceive : receivePack parent.parent ws) :
      Step w (w.advance p (.received parent ws) w.bucket)
  | compose {w p parent ws options manifest plan} (hstate : w.pushes p = .received parent ws)
      (hprepare : prepare sha256 options parent ws = .ok (manifest, plan))
      (hvalid : manifest.validate = .ok ()) :
      Step w (w.advance p (.composed parent ws manifest)
        (uploadPacks sha256 plan.uploads w.bucket))
  | putManifest {w p parent ws manifest} (hstate : w.pushes p = .composed parent ws manifest)
      (hcollision : StoresOnly sha256 manifest.canonicalBytes w.bucket) :
      Step w (w.advance p
        (.stored parent ws manifest (w.bucket.putManifest sha256 manifest.canonicalBytes).1)
        (w.bucket.putManifest sha256 manifest.canonicalBytes).2)
  | win {w p parent ws manifest manifestKey digest etag bucket}
      (hstate : w.pushes p = .stored parent ws manifest manifestKey)
      (hdigest : digestFromManifestKey manifestKey = .ok digest)
      (hfresh : ∀ r ∈ w.installed, r.etag ≠ etag)
      (hput : w.bucket.putPointer pkey digest.toUTF8 parent.precond etag = (.won etag, bucket)) :
      Step w (w.install ⟨p, parent, ws, manifest, etag⟩ (.done (.ok ⟨manifest, manifestKey⟩))
        bucket)
  | winUnanswered {w p parent ws manifest manifestKey digest etag bucket} (error : StoreError)
      (hstate : w.pushes p = .stored parent ws manifest manifestKey)
      (hdigest : digestFromManifestKey manifestKey = .ok digest)
      (hfresh : ∀ r ∈ w.installed, r.etag ≠ etag)
      (hput : w.bucket.putPointer pkey digest.toUTF8 parent.precond etag = (.won etag, bucket)) :
      Step w (w.install ⟨p, parent, ws, manifest, etag⟩ (.done (.error (.backend error))) bucket)
  | lose {w p parent ws manifest manifestKey digest etag bucket}
      (hstate : w.pushes p = .stored parent ws manifest manifestKey)
      (hdigest : digestFromManifestKey manifestKey = .ok digest)
      (hput : w.bucket.putPointer pkey digest.toUTF8 parent.precond etag = (.lostRace, bucket)) :
      Step w (w.advance p .lost bucket)
  | readWinner {w p} (hstate : w.pushes p = .lost) :
      Step w (w.advance p (.done (.error (readWinnerAfterConflict sha256 pkey w.bucket))) w.bucket)
  | fail {w p} (error : CasError) (hflight : (w.pushes p).inFlight = true) :
      Step w (w.advance p (.done (.error error)) w.bucket)
  | write {w} (segment : String) (bytes : ByteArray) :
      Step w { w with bucket := (w.bucket.putImmutable sha256 segment bytes).2 }

/-- A repository without a pointer, and no push begun. -/
structure Initial (w : World P) : Prop where
  pointer : w.bucket.getPointer pkey = none
  pushes : ∀ p, w.pushes p = .idle
  installed : w.installed = []

/-! ### The invariant -/

/-- The parent state of a push that hydrates when these versions are installed. -/
def parentOf : List (Install P) → ParentState
  | [] => .fresh
  | r :: _ => .fromLoaded r.etag (r.manifest.digest sha256) r.manifest

/-- Every version was installed over the one before it. -/
def Successive : List (Install P) → Prop
  | [] => True
  | r :: l => r.parent = parentOf sha256 l ∧ Successive l

/-- The manifest was composed over the parent, from the workspace hydrated from it. -/
structure Composed (parent : ParentState) (ws : Workspace) (m : Manifest) : Prop where
  received : receivePack parent.parent ws
  prepared : ∃ options plan, prepare sha256 options parent ws = .ok (m, plan)
  valid : m.validate = .ok ()

/-- What the bucket and the installed versions satisfy. -/
structure History (s : Bucket) (installed : List (Install P)) : Prop where
  pointer : s.getPointer pkey =
    installed.head?.map fun r => (r.etag, (r.manifest.digest sha256).toUTF8)
  successive : Successive sha256 installed
  composed : ∀ r ∈ installed, Composed sha256 receivePack r.parent r.workspace r.manifest
  stored : ∀ r ∈ installed, Stored sha256 s r.manifest
  etags : (installed.map Install.etag).Nodup

/-- The push has installed nothing. -/
def NotInstalled (installed : List (Install P)) (p : P) : Prop := ∀ r ∈ installed, r.push ≠ p

/-- The parent state was the current one at some earlier moment. -/
def Observed (installed : List (Install P)) (parent : ParentState) : Prop :=
  ∃ l, l <:+ installed ∧ parent = parentOf sha256 l

/-- What the state of a push says about the bucket and the installed versions. -/
def PushState.Sound (s : Bucket) (installed : List (Install P)) (p : P) : PushState → Prop
  | idle | unhydrated _ | lost => NotInstalled installed p
  | hydrated parent => NotInstalled installed p ∧ Observed sha256 installed parent
  | received parent ws =>
    NotInstalled installed p ∧ Observed sha256 installed parent ∧ receivePack parent.parent ws
  | composed parent ws m =>
    NotInstalled installed p ∧ Observed sha256 installed parent ∧
      Composed sha256 receivePack parent ws m
  | stored parent ws m manifestKey =>
    NotInstalled installed p ∧ Observed sha256 installed parent ∧
      Composed sha256 receivePack parent ws m ∧ Stored sha256 s m ∧
      manifestKey = contentKey sha256 "manifests" m.canonicalBytes
  | done (.ok success) =>
    ∃ r ∈ installed, r.push = p ∧ r.manifest = success.manifest ∧
      success.manifestKey = contentKey sha256 "manifests" r.manifest.canonicalBytes
  | done (.error (.conflict _ _)) => NotInstalled installed p
  | done (.error _) => True

/-- The invariant of a run. -/
structure Invariant (w : World P) : Prop where
  history : History sha256 pkey receivePack w.bucket w.installed
  sound : ∀ p, (w.pushes p).Sound sha256 receivePack w.bucket w.installed p

/-! ### Steps keep the invariant -/

section Preservation

variable {sha256 pkey receivePack}
variable {s s' : Bucket} {installed : List (Install P)} {p : P} {m : Manifest}

theorem History.extend (h : History sha256 pkey receivePack s installed)
    (hext : Extends pkey s s') : History sha256 pkey receivePack s' installed :=
  ⟨hext.pointer.trans h.pointer, h.successive, h.composed,
    fun r hr => hext.objects (h.stored r hr), h.etags⟩

/-- What a push state says stays true when objects are written. -/
theorem PushState.Sound.extend {state : PushState}
    (h : state.Sound sha256 receivePack s installed p) (hext : Extends pkey s s') :
    state.Sound sha256 receivePack s' installed p := by
  cases state with
  | stored parent ws m key =>
    obtain ⟨hnot, hobserved, hcomposed, hstored, hkey⟩ := h
    exact ⟨hnot, hobserved, hcomposed, hext.objects hstored, hkey⟩
  | done result =>
    cases result with
    | ok success => exact h
    | error e =>
      cases e with
      | _ => exact h
  | _ => exact h

/-- What a push state says stays true when another push installs a version. -/
theorem PushState.Sound.install {state : PushState} {r : Install P}
    (h : state.Sound sha256 receivePack s installed p) (hne : r.push ≠ p)
    (hobjects : s'.objects = s.objects) :
    state.Sound sha256 receivePack s' (r :: installed) p := by
  have hcons : NotInstalled installed p → NotInstalled (r :: installed) p := by
    intro hnot r' hr'
    rcases List.mem_cons.mp hr' with rfl | hr'
    · exact hne
    · exact hnot r' hr'
  have hobs : ∀ {parent}, Observed sha256 installed parent →
      Observed sha256 (r :: installed) parent := by
    rintro parent ⟨l, hsuffix, rfl⟩
    exact ⟨l, hsuffix.trans (List.suffix_cons _ _), rfl⟩
  cases state with
  | idle => exact hcons h
  | unhydrated e => exact hcons h
  | lost => exact hcons h
  | hydrated parent => exact ⟨hcons h.1, hobs h.2⟩
  | received parent ws => exact ⟨hcons h.1, hobs h.2.1, h.2.2⟩
  | composed parent ws m => exact ⟨hcons h.1, hobs h.2.1, h.2.2⟩
  | stored parent ws m key =>
    obtain ⟨hnot, hobserved, hcomposed, hstored, hkey⟩ := h
    refine ⟨hcons hnot, hobs hobserved, hcomposed, ?_, hkey⟩
    rw [Stored, hobjects]
    exact hstored
  | done result =>
    cases result with
    | ok success =>
      obtain ⟨r', hr', hfields⟩ := h
      exact ⟨r', List.mem_cons_of_mem _ hr', hfields⟩
    | error e =>
      cases e with
      | conflict winner key => exact hcons h
      | _ => trivial

/-- A push in flight has installed nothing. -/
theorem PushState.Sound.notInstalled {state : PushState}
    (h : state.Sound sha256 receivePack s installed p) (hflight : state.inFlight = true) :
    NotInstalled installed p := by
  cases state with
  | lost => exact h
  | hydrated parent => exact h.1
  | received parent ws => exact h.1
  | composed parent ws m => exact h.1
  | stored parent ws m key => exact h.1
  | _ => cases hflight

/-- An invariant step of one push that installs nothing. -/
theorem Invariant.advance [DecidableEq P] {w : World P} (h : Invariant sha256 pkey receivePack w)
    {state : PushState} {bucket : Bucket} (hext : Extends pkey w.bucket bucket)
    (hstate : state.Sound sha256 receivePack bucket w.installed p) :
    Invariant sha256 pkey receivePack (w.advance p state bucket) := by
  refine ⟨h.history.extend hext, fun q => ?_⟩
  by_cases hq : q = p
  · subst hq
    rw [World.pushes_advance_self]
    exact hstate
  · rw [World.pushes_advance_of_ne w hq]
    exact (h.sound q).extend hext

/-- The composed manifest names the digest of its parent. -/
theorem Composed.parent_eq {parent : ParentState} {ws : Workspace}
    (h : Composed sha256 receivePack parent ws m) : m.parent = parent.parentDigest := by
  obtain ⟨options, plan, hprepare⟩ := h.prepared
  obtain ⟨refs, observed, -, -, rfl⟩ := prepare_eq_ok sha256 hprepare
  exact (plan.compose_eq sha256 parent _ refs).2.2.2

theorem Composed.canonical {parent : ParentState} {ws : Workspace}
    (h : Composed sha256 receivePack parent ws m) : m.Canonical := by
  obtain ⟨options, plan, hprepare⟩ := h.prepared
  exact canonical_of_prepare hprepare h.valid

/-- A hydrated push observes the newest version. -/
theorem hydrateForWrite_eq (h : History sha256 pkey receivePack s installed)
    {parent : ParentState} (hload : hydrateForWrite sha256 pkey s = .ok parent) :
    parent = parentOf sha256 installed := by
  cases installed with
  | nil =>
    rw [hydrateForWrite_of_none h.pointer] at hload
    exact (Except.ok.inj hload).symm
  | cons r l =>
    exact hydrateForWrite_of_stored (h.composed r List.mem_cons_self).canonical h.pointer
      (h.stored r List.mem_cons_self) hload

/-- A push whose precondition holds observed the newest version: a tag is given once. -/
theorem observed_current (h : History sha256 pkey receivePack s installed)
    {parent : ParentState} (hobserved : Observed sha256 installed parent)
    (hholds : Bucket.holds parent.precond (s.getPointer pkey) = true) :
    parent = parentOf sha256 installed := by
  obtain ⟨l, hsuffix, rfl⟩ := hobserved
  rw [h.pointer] at hholds
  cases l with
  | nil =>
    cases installed with
    | nil => rfl
    | cons r installed => exact absurd hholds Bool.false_ne_true
  | cons r l =>
    cases installed with
    | nil => exact absurd (List.suffix_nil.mp hsuffix) (List.cons_ne_nil r l)
    | cons r' installed =>
      have hetag : r.etag = r'.etag := eq_of_beq hholds
      rw [eq_of_suffix_of_key_eq h.etags hsuffix hetag]

/-- A pointer write that takes effect installs a version over the newest one. -/
theorem Invariant.install [DecidableEq P] {w : World P} (h : Invariant sha256 pkey receivePack w)
    {parent : ParentState} {ws : Workspace} {manifestKey digest : String} {etag : ETag}
    {bucket : Bucket} {state : PushState}
    (hstate : w.pushes p = .stored parent ws m manifestKey)
    (hdigest : digestFromManifestKey manifestKey = .ok digest)
    (hfresh : ∀ r ∈ w.installed, r.etag ≠ etag)
    (hput : w.bucket.putPointer pkey digest.toUTF8 parent.precond etag = (.won etag, bucket))
    (hdone : state.Sound sha256 receivePack bucket
      (⟨p, parent, ws, m, etag⟩ :: w.installed) p) :
    Invariant sha256 pkey receivePack (w.install ⟨p, parent, ws, m, etag⟩ state bucket) := by
  have hsound := h.sound p
  rw [hstate] at hsound
  obtain ⟨-, hobserved, hcomposed, hstored, rfl⟩ := hsound
  rw [digestFromManifestKey_contentKey] at hdigest
  obtain rfl := Except.ok.inj hdigest
  obtain ⟨hholds, -, rfl⟩ := Bucket.putPointer_eq_won hput
  have hparent := observed_current h.history hobserved hholds
  refine ⟨⟨AList.lookup_insert _, ⟨hparent, h.history.successive⟩, ?_, ?_, ?_⟩, fun q => ?_⟩
  · exact List.forall_mem_cons.mpr ⟨hcomposed, h.history.composed⟩
  · exact List.forall_mem_cons.mpr ⟨hstored, h.history.stored⟩
  · refine List.nodup_cons.mpr ⟨fun hmem => ?_, h.history.etags⟩
    obtain ⟨r, hr, heq⟩ := List.mem_map.mp hmem
    exact hfresh r hr heq
  · by_cases hq : q = p
    · subst hq
      rw [World.pushes_install_self]
      exact hdone
    · rw [World.pushes_install_of_ne w hq]
      exact (h.sound q).install (Ne.symm hq) rfl

/-- Every step keeps the invariant. -/
theorem Step.invariant [DecidableEq P] {w w' : World P} (hstep : Step sha256 pkey receivePack w w')
    (h : Invariant sha256 pkey receivePack w) : Invariant sha256 pkey receivePack w' := by
  -- What the state of the stepping push says before the step.
  have hbefore : ∀ {p state}, w.pushes p = state →
      state.Sound sha256 receivePack w.bucket w.installed p := fun hp => hp ▸ h.sound _
  cases hstep with
  | hydrate hidle hload =>
    have hcurrent := hydrateForWrite_eq h.history hload
    exact h.advance (extends_refl _ _) ⟨hbefore hidle, w.installed, List.suffix_refl _, hcurrent⟩
  | hydrateFail error hidle =>
    have hnot : NotInstalled w.installed _ := hbefore hidle
    exact h.advance (extends_refl _ _) hnot
  | receive hstate hreceive =>
    obtain ⟨hnot, hobserved⟩ := hbefore hstate
    exact h.advance (extends_refl _ _) ⟨hnot, hobserved, hreceive⟩
  | compose hstate hprepare hvalid =>
    obtain ⟨hnot, hobserved, hreceive⟩ := hbefore hstate
    exact h.advance (extends_uploadPacks sha256 _ _ _)
      ⟨hnot, hobserved, hreceive, ⟨_, _, hprepare⟩, hvalid⟩
  | putManifest hstate hcollision =>
    obtain ⟨hnot, hobserved, hcomposed⟩ := hbefore hstate
    exact h.advance (extends_putImmutable sha256 _ _ _ _)
      ⟨hnot, hobserved, hcomposed, Bucket.lookup_putImmutable sha256 hcollision,
        Bucket.putImmutable_fst sha256 _ _ _⟩
  | win hstate hdigest hfresh hput =>
    have hkey := (hbefore hstate).2.2.2.2
    exact h.install hstate hdigest hfresh hput ⟨_, List.mem_cons_self, rfl, rfl, hkey⟩
  | winUnanswered error hstate hdigest hfresh hput =>
    exact h.install hstate hdigest hfresh hput trivial
  | lose hstate hdigest hput =>
    obtain rfl := Bucket.putPointer_eq_lostRace hput
    exact h.advance (extends_refl _ _) (hbefore hstate).1
  | readWinner hstate =>
    refine h.advance (extends_refl _ _) ?_
    have hnot : NotInstalled w.installed _ := hbefore hstate
    cases readWinnerAfterConflict sha256 pkey w.bucket with
    | conflict winner key => exact hnot
    | _ => trivial
  | fail error hflight =>
    refine h.advance (extends_refl _ _) ?_
    have hnot := (h.sound _).notInstalled hflight
    cases error with
    | conflict winner key => exact hnot
    | _ => trivial
  | write segment bytes =>
    have hext : Extends pkey w.bucket (w.bucket.putImmutable sha256 segment bytes).2 :=
      extends_putImmutable sha256 pkey segment bytes w.bucket
    exact ⟨h.history.extend hext, fun q => (h.sound q).extend hext⟩

theorem Initial.invariant {w : World P} (h : Initial pkey w) :
    Invariant sha256 pkey receivePack w := by
  obtain ⟨bucket, pushes, installed⟩ := w
  obtain ⟨hpointer, hidle, rfl⟩ := h
  refine ⟨⟨hpointer, trivial, ?_, ?_, List.nodup_nil⟩, fun p => ?_⟩
  · exact fun r hr => absurd hr List.not_mem_nil
  · exact fun r hr => absurd hr List.not_mem_nil
  · rw [hidle p]
    exact fun r hr => absurd hr List.not_mem_nil

/-- The invariant holds in every run. -/
theorem Initial.invariant_of_run [DecidableEq P] {w w' : World P} (h : Initial pkey w)
    (hrun : ReflTransGen (Step sha256 pkey receivePack) w w') :
    Invariant sha256 pkey receivePack w' := by
  induction hrun with
  | refl => exact h.invariant
  | tail _ hstep ih => exact hstep.invariant ih

end Preservation

/-! ### One chain -/

/-- The manifest that the pointer names. -/
def PointsAt (s : Bucket) (m : Manifest) : Prop :=
  ∃ etag body digest bytes, s.getPointer pkey = some (etag, body) ∧
    pointerDigest body = some digest ∧
    s.objects.lookup ("manifests/" ++ digest) = some bytes ∧ Manifest.fromBytes bytes = .ok m

/-- The manifest that the parent digest of a manifest names. -/
def ParentOf (s : Bucket) (m m' : Manifest) : Prop :=
  ∃ digest bytes, m.parent = some digest ∧
    s.objects.lookup ("manifests/" ++ digest) = some bytes ∧ Manifest.fromBytes bytes = .ok m'

/-- The installed manifests form one chain, and the answers of the pushes agree with it. -/
structure OneChain (w : World P) : Prop where
  /-- The pointer reaches every installed manifest through parent digests. -/
  reaches : ∀ r ∈ w.installed, ∃ current, PointsAt pkey w.bucket current ∧
    ReflTransGen (ParentOf w.bucket) current r.manifest
  /-- Installed manifests with one parent are one. -/
  no_fork : ∀ r ∈ w.installed, ∀ r' ∈ w.installed,
    r.manifest.parent = r'.manifest.parent → r = r'
  /-- A push that succeeded is in the chain. -/
  success : ∀ p result, w.pushes p = .done (.ok result) →
    ∃ r ∈ w.installed, r.push = p ∧ r.manifest = result.manifest
  /-- A push that was told of a conflict installed nothing. -/
  conflict : ∀ p winner key, w.pushes p = .done (.error (.conflict winner key)) →
    ∀ r ∈ w.installed, r.push ≠ p
  /-- The refs of an installed manifest are the snapshot of a workspace that was hydrated from its
  parent: the installed manifest its parent digest names, or nothing. -/
  derived : ∀ r ∈ w.installed, ∃ parent observed,
    (r.manifest.parent = none ∧ parent = ParentState.fresh.parent ∨
      (∃ r' ∈ w.installed, r'.manifest = parent) ∧ ParentOf w.bucket r.manifest parent) ∧
    receivePack parent r.workspace ∧
    snapshotWorkspaceState r.workspace = .ok (r.manifest.refs, observed)

section Chain

variable {sha256 pkey receivePack}
variable {s : Bucket} {installed : List (Install P)}

theorem Successive.link {l : List (Install P)} (h : Successive sha256 l)
    (hcomposed : ∀ r ∈ l, Composed sha256 receivePack r.parent r.workspace r.manifest) :
    Linked (fun r : Install P => r.manifest.digest sha256) (fun r => r.manifest.parent) l := by
  induction l with
  | nil => trivial
  | cons r l ih =>
    have hparent : r.manifest.parent = (parentOf sha256 l).parentDigest := by
      rw [(hcomposed r List.mem_cons_self).parent_eq, h.1]
    refine ⟨hparent.trans ?_, ih h.2 fun x hx => hcomposed x (List.mem_cons_of_mem _ hx)⟩
    cases l with
    | nil => rfl
    | cons r' l => rfl

/-- The digest of an installed manifest determines it. -/
theorem History.eq_of_digest_eq (h : History sha256 pkey receivePack s installed)
    {r r' : Install P} (hr : r ∈ installed) (hr' : r' ∈ installed)
    (heq : r.manifest.digest sha256 = r'.manifest.digest sha256) : r.manifest = r'.manifest := by
  have hstored := h.stored r hr
  have hstored' := h.stored r' hr'
  have hkey : contentKey sha256 "manifests" r.manifest.canonicalBytes =
      contentKey sha256 "manifests" r'.manifest.canonicalBytes :=
    congrArg ("manifests" ++ "/" ++ ·) heq
  rw [Stored, hkey, hstored'] at hstored
  have hbytes := Option.some.inj hstored
  have hread := (h.composed r hr).canonical.fromBytes
  rw [← hbytes, (h.composed r' hr').canonical.fromBytes] at hread
  exact (Except.ok.inj hread).symm

theorem History.linked (h : History sha256 pkey receivePack s installed) :
    Linked (fun r : Install P => r.manifest.digest sha256) (fun r => r.manifest.parent)
      installed :=
  h.successive.link h.composed

theorem History.nodup_digests (h : History sha256 pkey receivePack s installed) :
    (installed.map fun r => r.manifest.digest sha256).Nodup :=
  h.linked.nodup_keys fun r hr r' hr' heq => by rw [h.eq_of_digest_eq hr hr' heq]

/-- An installed manifest is read from the object its digest names. -/
theorem History.lookup (h : History sha256 pkey receivePack s installed) {r : Install P}
    (hr : r ∈ installed) :
    s.objects.lookup ("manifests/" ++ r.manifest.digest sha256) =
      some r.manifest.canonicalBytes := by
  have hstored := h.stored r hr
  rw [Stored, contentKey_manifests] at hstored
  exact hstored

theorem History.parentOf_of_link (h : History sha256 pkey receivePack s installed)
    {r r' : Install P} (hr' : r' ∈ installed)
    (hlink : r.manifest.parent = some (r'.manifest.digest sha256)) :
    ParentOf s r.manifest r'.manifest :=
  ⟨_, _, hlink, h.lookup hr', (h.composed r' hr').canonical.fromBytes⟩

/-- The pointer reaches every installed manifest. -/
theorem History.reaches (h : History sha256 pkey receivePack s installed) {r : Install P}
    (hr : r ∈ installed) : ∃ current, PointsAt pkey s current ∧
      ReflTransGen (ParentOf s) current r.manifest := by
  cases installed with
  | nil => exact absurd hr List.not_mem_nil
  | cons c l =>
    refine ⟨c.manifest, ⟨c.etag, _, c.manifest.digest sha256, _, h.pointer,
      pointerDigest_digestHex sha256 _, h.lookup List.mem_cons_self,
      (h.composed c List.mem_cons_self).canonical.fromBytes⟩, ?_⟩
    exact ReflTransGen.lift Install.manifest (fun x y hxy => h.parentOf_of_link hxy.2.1 hxy.2.2) _ _
      (h.linked.reaches hr)

/-- The version a version was installed over. -/
theorem Successive.exists_suffix {l : List (Install P)} (h : Successive sha256 l) {r : Install P}
    (hr : r ∈ l) : ∃ rest, rest <:+ l ∧ r.parent = parentOf sha256 rest := by
  induction l with
  | nil => exact absurd hr List.not_mem_nil
  | cons c l ih =>
    rcases List.mem_cons.mp hr with rfl | hr
    · exact ⟨l, List.suffix_cons _ _, h.1⟩
    · obtain ⟨rest, hsuffix, hparent⟩ := ih h.2 hr
      exact ⟨rest, hsuffix.trans (List.suffix_cons _ _), hparent⟩

/-- An installed manifest is derived from its parent. -/
theorem History.derived (h : History sha256 pkey receivePack s installed) {r : Install P}
    (hr : r ∈ installed) : ∃ parent observed,
      (r.manifest.parent = none ∧ parent = ParentState.fresh.parent ∨
        (∃ r' ∈ installed, r'.manifest = parent) ∧ ParentOf s r.manifest parent) ∧
      receivePack parent r.workspace ∧
      snapshotWorkspaceState r.workspace = .ok (r.manifest.refs, observed) := by
  have hcomposed := h.composed r hr
  obtain ⟨options, plan, hprepare⟩ := hcomposed.prepared
  obtain ⟨refs, observed, hsnap, -, hm⟩ := prepare_eq_ok sha256 hprepare
  have hrefs : r.manifest.refs = refs := hm ▸ (plan.compose_eq sha256 r.parent _ refs).2.2.1
  obtain ⟨rest, hsuffix, hparent⟩ := h.successive.exists_suffix hr
  refine ⟨r.parent.parent, observed, ?_, hcomposed.received, hrefs ▸ hsnap⟩
  have hlink := hcomposed.parent_eq
  cases rest with
  | nil =>
    rw [hparent] at hlink ⊢
    exact Or.inl ⟨hlink, rfl⟩
  | cons r' rest =>
    have hr' : r' ∈ installed := hsuffix.subset List.mem_cons_self
    rw [hparent] at hlink ⊢
    exact Or.inr ⟨⟨r', hr', rfl⟩, h.parentOf_of_link hr' hlink⟩

/-- At every moment of every run of concurrent pushes, the installed manifests form one chain
without forks. -/
theorem oneChain_of_run [DecidableEq P] (sha256 : Sha256) (pkey : String)
    (receivePack : Manifest → Workspace → Prop) (w w' : World P) (hinitial : Initial pkey w)
    (hrun : ReflTransGen (Step sha256 pkey receivePack) w w') :
    OneChain pkey receivePack w' := by
  have h := hinitial.invariant_of_run hrun
  have hsound : ∀ {p state}, w'.pushes p = state →
      state.Sound sha256 receivePack w'.bucket w'.installed p := fun hp => hp ▸ h.sound _
  refine ⟨fun r hr => h.history.reaches hr, ?_, ?_, ?_, fun r hr => h.history.derived hr⟩
  · intro r hr r' hr' heq
    exact h.history.linked.eq_of_link_eq h.history.nodup_digests hr hr' heq
  · intro p result hp
    obtain ⟨r, hr, hpush, hmanifest, -⟩ := hsound hp
    exact ⟨r, hr, hpush, hmanifest⟩
  · intro p winner key hp
    exact hsound hp

end Chain

/-! ### The publish step as a run -/

section Run

variable [DecidableEq P] {sha256 pkey receivePack}

theorem World.advance_advance (w : World P) (p : P) (a b : PushState) (s s' : Bucket) :
    (w.advance p a s).advance p b s' = w.advance p b s' := by
  simp only [World.advance, Function.update_idem]

/-- Packs are uploaded one by one. -/
theorem run_uploadPacks (packs : List ByteArray) (w : World P) :
    ReflTransGen (Step sha256 pkey receivePack) w
      { w with bucket := uploadPacks sha256 packs w.bucket } := by
  induction packs generalizing w with
  | nil => exact .refl
  | cons pack packs ih => exact .head (.write "packs" pack) (ih _)

/-- The run of a publish up to the pointer write. -/
theorem run_stored {w : World P} {p : P} {parent : ParentState} {ws : Workspace}
    {options : PublishOptions} {m : Manifest} {plan : PackPlan}
    (hstate : w.pushes p = .received parent ws)
    (hprepare : prepare sha256 options parent ws = .ok (m, plan)) (hvalid : m.validate = .ok ())
    (hcollision : StoresOnly sha256 m.canonicalBytes w.bucket) :
    ReflTransGen (Step sha256 pkey receivePack) w
      (w.advance p (.stored parent ws m (contentKey sha256 "manifests" m.canonicalBytes))
        ((uploadPacks sha256 plan.uploads w.bucket).putManifest sha256 m.canonicalBytes).2) := by
  have hcompose : Step sha256 pkey receivePack w
      (w.advance p (.composed parent ws m) (uploadPacks sha256 plan.uploads w.bucket)) :=
    .compose hstate hprepare hvalid
  have hcollision' : StoresOnly sha256 m.canonicalBytes
      (uploadPacks sha256 plan.uploads w.bucket) := by
    intro b hb
    rw [lookup_uploadPacks] at hb
    exact hcollision b hb
  have hput : Step sha256 pkey receivePack
      (w.advance p (.composed parent ws m) (uploadPacks sha256 plan.uploads w.bucket)) _ :=
    .putManifest (w.pushes_advance_self p _ _) hcollision'
  rw [World.advance_advance, Bucket.putManifest, Bucket.putImmutable_fst] at hput
  exact .tail (.single hcompose) hput

/-- The answer of a publish to the outcome of its pointer write. -/
def answer (sha256 : Sha256) (pkey : String) (success : CasSuccess) :
    CasOutcome × Bucket → Except CasError CasSuccess
  | (.won _, _) => .ok success
  | (.lostRace, s) => .error (readWinnerAfterConflict sha256 pkey s)

/-- The run of a publish from the pointer write on. -/
theorem run_putPointer {w : World P} {p : P} {parent : ParentState} {ws : Workspace}
    {m : Manifest} {key digest : String} {etag : ETag}
    (hstate : w.pushes p = .stored parent ws m key)
    (hdigest : digestFromManifestKey key = .ok digest)
    (hfresh : ∀ r ∈ w.installed, r.etag ≠ etag) :
    ∃ w', ReflTransGen (Step sha256 pkey receivePack) w w' ∧
      w'.bucket = (w.bucket.putPointer pkey digest.toUTF8 parent.precond etag).2 ∧
      w'.pushes p = .done (answer sha256 pkey ⟨m, key⟩
        (w.bucket.putPointer pkey digest.toUTF8 parent.precond etag)) := by
  rcases hput : w.bucket.putPointer pkey digest.toUTF8 parent.precond etag with ⟨outcome, s'⟩
  cases outcome with
  | won etag' =>
    obtain ⟨-, rfl, -⟩ := Bucket.putPointer_eq_won hput
    exact ⟨_, .single (.win hstate hdigest hfresh hput), rfl,
      w.pushes_install_self ⟨p, parent, ws, m, etag⟩ _ _⟩
  | lostRace =>
    have hlose : Step sha256 pkey receivePack w (w.advance p .lost s') :=
      .lose hstate hdigest hput
    exact ⟨_, .tail (.single hlose) (.readWinner (w.pushes_advance_self p _ _)), rfl,
      World.pushes_advance_self _ p _ _⟩

/-- A publish that is not interrupted is a run of the system that ends with its answer. -/
theorem run_casPublish {w : World P} {p : P} {parent : ParentState} {ws : Workspace}
    {options : PublishOptions} {etag : ETag} {result : Except CasError CasSuccess}
    {bucket : Bucket} (hstate : w.pushes p = .received parent ws)
    (hfresh : ∀ r ∈ w.installed, r.etag ≠ etag)
    (hcollision : ∀ m plan, prepare sha256 options parent ws = .ok (m, plan) →
      StoresOnly sha256 m.canonicalBytes w.bucket)
    (hcall : casPublish sha256 pkey options parent ws etag w.bucket = (result, bucket)) :
    ∃ w', ReflTransGen (Step sha256 pkey receivePack) w w' ∧ w'.bucket = bucket ∧
      w'.pushes p = .done result := by
  rw [casPublish] at hcall
  split at hcall
  · next e hprepare =>
    obtain ⟨rfl, rfl⟩ := Prod.mk.inj hcall
    exact ⟨_, .single (.fail e (by rw [hstate]; rfl)), rfl, w.pushes_advance_self p _ _⟩
  · next m plan hprepare =>
    split at hcall
    · next e hvalid =>
      obtain ⟨rfl, rfl⟩ := Prod.mk.inj hcall
      have hflight : ({ w with bucket := uploadPacks sha256 plan.uploads w.bucket }.pushes
          p).inFlight = true := by
        rw [hstate]
        rfl
      exact ⟨_, .tail (run_uploadPacks plan.uploads w) (.fail (.manifestInvalid e) hflight), rfl,
        World.pushes_advance_self _ p _ _⟩
    · next hvalid =>
      have hrun : ReflTransGen (Step sha256 pkey receivePack) w _ :=
        run_stored hstate hprepare hvalid (hcollision m plan hprepare)
      obtain ⟨w', hrun', hbucket, hdone⟩ := run_putPointer
        (w.pushes_advance_self p (.stored parent ws m _) _)
        (digestFromManifestKey_contentKey sha256 m.canonicalBytes) hfresh
      refine ⟨w', hrun.trans hrun', ?_⟩
      simp only [Bucket.putManifest, Bucket.putImmutable_fst,
        digestFromManifestKey_contentKey] at hcall
      simp only [World.advance, Bucket.putManifest] at hbucket hdone
      rw [hbucket, hdone]
      generalize Bucket.putPointer pkey _ _ _ _ = put at hcall ⊢
      rcases put with ⟨outcome, s'⟩
      cases outcome with
      | won etag' =>
        obtain ⟨rfl, rfl⟩ := Prod.mk.inj hcall
        exact ⟨rfl, rfl⟩
      | lostRace =>
        obtain ⟨rfl, rfl⟩ := Prod.mk.inj hcall
        exact ⟨rfl, rfl⟩

end Run

/-- An empty bucket and idle pushes. -/
def idleWorld : World ℕ := ⟨⟨∅, ∅⟩, fun _ => .idle, []⟩

/-- The one push of `main` into the empty repository. -/
def receiveMain (parent : Manifest) (ws : Workspace) : Prop :=
  parent = ParentState.fresh.parent ∧ ws = firstPush mainBranch

theorem oneChain_of_run_main :
    ∃ w' success, Initial (pointerKey 0 "owner" "repo") idleWorld ∧
      ReflTransGen (Step firstSha256 (pointerKey 0 "owner" "repo") receiveMain) idleWorld w' ∧
      w'.pushes 0 = .done (.ok success) ∧
      OneChain (pointerKey 0 "owner" "repo") receiveMain w' := by
  have hinitial : Initial (pointerKey 0 "owner" "repo") idleWorld :=
    ⟨AList.lookup_empty _, fun _ => rfl, rfl⟩
  have hload : hydrateForWrite firstSha256 (pointerKey 0 "owner" "repo") idleWorld.bucket =
      .ok .fresh := hydrateForWrite_of_none hinitial.pointer
  have hhydrate : Step firstSha256 (pointerKey 0 "owner" "repo") receiveMain idleWorld
      (idleWorld.advance 0 (.hydrated .fresh) ⟨∅, ∅⟩) := .hydrate rfl hload
  have hreceive : Step firstSha256 (pointerKey 0 "owner" "repo") receiveMain
      (idleWorld.advance 0 (.hydrated .fresh) ⟨∅, ∅⟩)
      ((idleWorld.advance 0 (.hydrated .fresh) ⟨∅, ∅⟩).advance 0
        (.received .fresh (firstPush mainBranch)) ⟨∅, ∅⟩) :=
    .receive (World.pushes_advance_self _ 0 _ _) ⟨rfl, rfl⟩
  obtain ⟨s', hpublish⟩ := pushable_mainBranch.publishes firstSha256
    (pointerKey 0 "owner" "repo") ⟨"1"⟩
  have hstate := (idleWorld.advance 0 (.hydrated .fresh) ⟨∅, ∅⟩).pushes_advance_self 0
    (.received .fresh (firstPush mainBranch)) ⟨∅, ∅⟩
  obtain ⟨w', hrun, -, hdone⟩ := run_casPublish hstate
    (fun r hr => absurd hr List.not_mem_nil)
    (fun m _ _ => storesOnly_empty firstSha256 m.canonicalBytes) hpublish
  have hrun' := ReflTransGen.head hhydrate (ReflTransGen.head hreceive hrun)
  exact ⟨w', _, hinitial, hrun', hdone, oneChain_of_run _ _ _ _ _ hinitial hrun'⟩

end Buzz.Relay.Git
