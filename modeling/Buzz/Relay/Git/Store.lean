import Buzz.Library.Text
import Buzz.Relay.Git.Manifest

/-!
# The object store of git repositories

The bucket behind `crates/buzz-relay/src/api/git/store.rs`: content-addressed objects, written only
when their key is free, and pointers, written under a precondition on their entity tag. The two live
under different first path segments, so they are two maps here. SHA-256 is a parameter.

`loadPointer`, of `hydrate.rs`, resolves a pointer to the manifest it names.

## Main definitions

* `ETag`, `Precond`, `CasOutcome`, `StoreError`, `HydrateError`, `Bucket`.
* `Bucket.putImmutable`, `Bucket.getVerifiedLimited`, `Bucket.getPointer`, `Bucket.putPointer`.
* `pointerKey`, `loadPointer`.

## Main results

* `loadPointer_of_size_le`, `loadPointer_of_lt_size`: what a pointer to a stored manifest resolves
  to.
-/

namespace Buzz.Relay.Git

open Buzz.Core Buzz.Library

/-- Manifests should stay small after ref and pack cardinality validation: the bound on the object
read itself. -/
def MAX_MANIFEST_BYTES : ℕ := 4 * 1024 * 1024

/-! ### The bucket -/

/-- An opaque entity tag. -/
structure ETag where
  value : String
  deriving DecidableEq

/-- The precondition of a pointer write. -/
inductive Precond
  | ifNoneMatchStar
  | ifMatch (etag : ETag)
  deriving DecidableEq

/-- The outcome of a conditional pointer write. -/
inductive CasOutcome
  | won (etag : ETag)
  | lostRace
  deriving DecidableEq

/-- Errors of the object store; those of the transport carry their text. -/
inductive StoreError
  | notFound (key : String)
  | objectTooLarge (key : String) (size max : ℕ)
  | digestMismatch (key expected actual : String)
  | backend (message : String)
  deriving DecidableEq

/-- The objects and pointers of a bucket. -/
structure Bucket where
  objects : HashMap String ByteArray
  pointers : HashMap String (ETag × ByteArray)

/-- The digest function SHA-256, with its 32 output bytes. -/
abbrev Sha256 := ByteArray → BitVec 256

/-- The hexadecimal digest of bytes. -/
def digestHex (sha256 : Sha256) (bytes : ByteArray) : String :=
  String.ofList (hexDigits 64 (sha256 bytes).toNat)

/-- The content-addressed key of bytes. -/
def contentKey (sha256 : Sha256) (segment : String) (bytes : ByteArray) : String :=
  segment ++ "/" ++ digestHex sha256 bytes

/-- The canonical pointer key of a repository. -/
def pointerKey (community : CommunityId) (owner repo : String) : String :=
  let repo := if ".git".toList.isSuffixOf repo.toList then
      String.ofList (repo.toList.dropLast.dropLast.dropLast.dropLast)
    else repo
  "repos/" ++ uuidToString community ++ "/" ++ owner ++ "/" ++ repo ++ "/pointer"

namespace Bucket

variable (sha256 : Sha256)

/-- Create-only write of a content-addressed object: a key that is taken keeps its object. -/
def putImmutable (segment : String) (bytes : ByteArray) (s : Bucket) : String × Bucket :=
  let key := contentKey sha256 segment bytes
  match s.objects.lookup key with
  | some _ => (key, s)
  | none => (key, { s with objects := s.objects.insert key bytes })

/-- Write a pack object. -/
def putPack (bytes : ByteArray) (s : Bucket) : String × Bucket :=
  s.putImmutable sha256 "packs" bytes

/-- Write a manifest object. -/
def putManifest (bytes : ByteArray) (s : Bucket) : String × Bucket :=
  s.putImmutable sha256 "manifests" bytes

/-- GET an object after rejecting bodies larger than `maxBytes`. -/
def getLimited (key : String) (maxBytes : ℕ) (s : Bucket) : Except StoreError ByteArray :=
  match s.objects.lookup key with
  | none => .error (.notFound key)
  | some bytes =>
    if bytes.size > maxBytes then .error (.objectTooLarge key bytes.size maxBytes) else .ok bytes

/-- Verify that bytes hash to the expected digest. -/
def verify (key expectedDigest : String) (bytes : ByteArray) : Except StoreError ByteArray :=
  let actual := digestHex sha256 bytes
  if actual ≠ expectedDigest then .error (.digestMismatch key expectedDigest actual) else .ok bytes

/-- GET an immutable object after rejecting objects larger than `maxBytes`, and verify it. -/
def getVerifiedLimited (key expectedDigest : String) (maxBytes : ℕ) (s : Bucket) :
    Except StoreError ByteArray :=
  match s.getLimited key maxBytes with
  | .error e => .error e
  | .ok bytes => verify sha256 key expectedDigest bytes

/-- GET an object and verify it. -/
def getVerified (key expectedDigest : String) (s : Bucket) : Except StoreError ByteArray :=
  match s.objects.lookup key with
  | none => .error (.notFound key)
  | some bytes => verify sha256 key expectedDigest bytes

/-- GET a pointer with its entity tag, from one response. -/
def getPointer (key : String) (s : Bucket) : Option (ETag × ByteArray) := s.pointers.lookup key

/-- Whether a pointer satisfies a precondition. -/
def holds : Precond → Option (ETag × ByteArray) → Bool
  | .ifNoneMatchStar, current => current.isNone
  | .ifMatch etag, some (current, _) => etag == current
  | .ifMatch _, none => false

/-- Write a pointer under a precondition; the store gives the new version the tag `etag`. -/
def putPointer (key : String) (body : ByteArray) (precond : Precond) (etag : ETag) (s : Bucket) :
    CasOutcome × Bucket :=
  if holds precond (s.getPointer key) then
    (.won etag, { s with pointers := s.pointers.insert key (etag, body) })
  else (.lostRace, s)

end Bucket

/-! ### Resolving a pointer -/

/-- Hydration errors. -/
inductive HydrateError
  | invalidPointer
  | manifest (error : ManifestError)
  | store (error : StoreError)
  | hydrate (message : String)
  | resourceLimit (message : String)
  deriving DecidableEq

/-- `str::trim`. -/
def trim (s : String) : String :=
  String.ofList (((s.toList.dropWhile isWhitespace).reverse.dropWhile isWhitespace).reverse)

/-- A digest as a pointer names it: 64 hexadecimal digits. -/
def isPointerDigest (s : String) : Bool := s.utf8ByteSize == 64 && s.toList.all isHexDigit

/-- The digest a pointer body names, after trimming. -/
def pointerDigest (body : ByteArray) : Option String :=
  match String.fromUTF8? body with
  | none => none
  | some text => if isPointerDigest (trim text) then some (trim text) else none

variable (sha256 : Sha256)

/-- The bounded read of `hydrate.rs`: an object that is too large is a resource limit. -/
def getVerifiedLimited (key digest : String) (maxBytes : ℕ) (s : Bucket) :
    Except HydrateError ByteArray :=
  match s.getVerifiedLimited sha256 key digest maxBytes with
  | .ok bytes => .ok bytes
  | .error (.objectTooLarge _ size max) =>
    .error (.resourceLimit s!"object {key} is {size} bytes (max {max})")
  | .error e => .error (.store e)

/-- Resolve a pointer to its entity tag, digest and verified manifest; `none` when it is absent. -/
def loadPointer (pkey : String) (s : Bucket) :
    Except HydrateError (Option (ETag × String × Manifest)) :=
  match s.getPointer pkey with
  | none => .ok none
  | some (etag, body) =>
    match pointerDigest body with
    | none => .error .invalidPointer
    | some digest =>
      match getVerifiedLimited sha256 ("manifests/" ++ digest) digest MAX_MANIFEST_BYTES s with
      | .error e => .error e
      | .ok bytes =>
        match Manifest.fromBytes bytes with
        | .error e => .error (.manifest e)
        | .ok manifest =>
          match manifest.validate with
          | .error e => .error (.manifest e)
          | .ok () => .ok (some (etag, digest, manifest))

/-! ### Digests as pointer bodies -/

theorem hexDigit_spec : ∀ n < 16,
    isLowerHexDigit (hexDigit n) = true ∧ (hexDigit n).utf8Size = 1 ∧
      isWhitespace (hexDigit n) = false := by
  decide

/-- Every character of a hexadecimal text is a lowercase digit, of one byte and not white space. -/
theorem hexDigits_spec {digits n : ℕ} {c : Char} (h : c ∈ hexDigits digits n) :
    isLowerHexDigit c = true ∧ c.utf8Size = 1 ∧ isWhitespace c = false := by
  obtain ⟨i, -, rfl⟩ := List.mem_map.mp h
  exact hexDigit_spec _ (Nat.mod_lt _ (by omega))

theorem utf8Len_of_forall_one : ∀ {l : List Char}, (∀ c ∈ l, c.utf8Size = 1) →
    String.utf8Len l = l.length
  | [], _ => rfl
  | c :: l, h => by
    rw [String.utf8Len_cons, h c List.mem_cons_self,
      utf8Len_of_forall_one fun x hx => h x (List.mem_cons_of_mem _ hx), List.length_cons]

theorem utf8ByteSize_digestHex (bytes : ByteArray) :
    (digestHex sha256 bytes).utf8ByteSize = 64 := by
  rw [digestHex, String.utf8ByteSize_ofList,
    utf8Len_of_forall_one fun c hc => (hexDigits_spec hc).2.1]
  simp [hexDigits]

theorem isManifestDigest_digestHex (bytes : ByteArray) :
    isManifestDigest (digestHex sha256 bytes) = true := by
  rw [isManifestDigest, utf8ByteSize_digestHex, digestHex, String.toList_ofList]
  simp only [BEq.rfl, Bool.true_and, List.all_eq_true]
  exact fun c hc => (hexDigits_spec hc).1

theorem dropWhile_isWhitespace {l : List Char} (h : ∀ c ∈ l, isWhitespace c = false) :
    l.dropWhile isWhitespace = l := by
  cases l with
  | nil => rfl
  | cons c l => rw [List.dropWhile_cons_of_neg (by simp [h c List.mem_cons_self])]

theorem trim_eq_self {s : String} (h : ∀ c ∈ s.toList, isWhitespace c = false) : trim s = s := by
  rw [trim, dropWhile_isWhitespace h,
    dropWhile_isWhitespace fun c hc => h c (List.mem_reverse.mp hc), List.reverse_reverse,
    String.ofList_toList]

theorem trim_line {s : String} (h : ∀ c ∈ s.toList, isWhitespace c = false) (hne : s.toList ≠ []) :
    trim (s ++ "\n") = s := by
  have hnewline : "\n".toList = ['\n'] := by decide
  have hfront : (s.toList ++ ['\n']).dropWhile isWhitespace = s.toList ++ ['\n'] := by
    obtain ⟨c, l, hl⟩ := List.exists_cons_of_ne_nil hne
    have hc : isWhitespace c = false := h c (hl ▸ List.mem_cons_self)
    rw [hl, List.cons_append, List.dropWhile_cons_of_neg (by simp [hc])]
  rw [trim, String.toList_append, hnewline, hfront, List.reverse_append, List.reverse_singleton,
    List.singleton_append, List.dropWhile_cons_of_pos (by decide),
    dropWhile_isWhitespace fun c hc => h c (List.mem_reverse.mp hc), List.reverse_reverse,
    String.ofList_toList]

/-- A digest written as a pointer body is read back. -/
theorem pointerDigest_digestHex (bytes : ByteArray) :
    pointerDigest (digestHex sha256 bytes).toUTF8 = some (digestHex sha256 bytes) := by
  have hutf8 : String.fromUTF8? (digestHex sha256 bytes).toUTF8 = some (digestHex sha256 bytes) :=
    dif_pos (digestHex sha256 bytes).isValidUTF8
  have hchars : ∀ c ∈ (digestHex sha256 bytes).toList,
      isLowerHexDigit c = true ∧ isWhitespace c = false := by
    intro c hc
    rw [digestHex, String.toList_ofList] at hc
    exact ⟨(hexDigits_spec hc).1, (hexDigits_spec hc).2.2⟩
  have htrim := trim_eq_self fun c hc => (hchars c hc).2
  have hhex : (digestHex sha256 bytes).toList.all isHexDigit = true :=
    List.all_eq_true.mpr fun c hc => Manifest.isHexDigit_of_isLowerHexDigit (hchars c hc).1
  simp only [pointerDigest, hutf8, htrim, isPointerDigest, utf8ByteSize_digestHex, hhex]
  rfl

/-! ### The bucket after a write -/

namespace Bucket

/-- An object that was written is stored under its key, when no other object has its digest. -/
theorem lookup_putImmutable {segment : String} {bytes : ByteArray} {s : Bucket}
    (h : ∀ b, s.objects.lookup (contentKey sha256 segment bytes) = some b → b = bytes) :
    (s.putImmutable sha256 segment bytes).2.objects.lookup (contentKey sha256 segment bytes) =
      some bytes := by
  rw [putImmutable]
  split
  · next b hb => rw [hb, h b hb]
  · exact AList.lookup_insert _

/-- A write keeps the objects that are there. -/
theorem lookup_putImmutable_of_some {segment : String} {bytes b : ByteArray} {s : Bucket}
    {key : String} (h : s.objects.lookup key = some b) :
    (s.putImmutable sha256 segment bytes).2.objects.lookup key = some b := by
  rw [putImmutable]
  split
  · exact h
  · next hnone =>
    rw [HashMap.lookup_insert_eq, if_neg]
    · exact h
    · rintro rfl
      rw [hnone] at h
      cases h

/-- A pointer write that won found its precondition true. -/
theorem putPointer_eq_won {key : String} {body : ByteArray} {precond : Precond}
    {etag etag' : ETag} {s s' : Bucket}
    (h : s.putPointer key body precond etag = (.won etag', s')) :
    holds precond (s.getPointer key) = true ∧ etag = etag' ∧
      { s with pointers := s.pointers.insert key (etag, body) } = s' := by
  rw [putPointer] at h
  split_ifs at h with hholds
  · exact ⟨hholds, CasOutcome.won.inj (Prod.mk.inj h).1, (Prod.mk.inj h).2⟩
  · exact absurd (Prod.mk.inj h).1 nofun

/-- A pointer write that lost changed nothing. -/
theorem putPointer_eq_lostRace {key : String} {body : ByteArray} {precond : Precond} {etag : ETag}
    {s s' : Bucket} (h : s.putPointer key body precond etag = (.lostRace, s')) : s = s' := by
  rw [putPointer] at h
  split_ifs at h with hholds
  · exact absurd (Prod.mk.inj h).1 nofun
  · exact (Prod.mk.inj h).2

@[simp]
theorem putImmutable_fst (segment : String) (bytes : ByteArray) (s : Bucket) :
    (s.putImmutable sha256 segment bytes).1 = contentKey sha256 segment bytes := by
  rw [putImmutable]
  split <;> rfl

@[simp]
theorem putImmutable_pointers (segment : String) (bytes : ByteArray) (s : Bucket) :
    (s.putImmutable sha256 segment bytes).2.pointers = s.pointers := by
  rw [putImmutable]
  split <;> rfl

end Bucket

/-- The store returns what was written: an object under the key of these bytes is these bytes. -/
def StoresOnly (bytes : ByteArray) (s : Bucket) : Prop :=
  ∀ b, s.objects.lookup (contentKey sha256 "manifests" bytes) = some b → b = bytes

theorem storesOnly_empty (bytes : ByteArray) : StoresOnly sha256 bytes ⟨∅, ∅⟩ := by
  intro b hb
  rw [AList.lookup_empty] at hb
  cases hb

theorem contentKey_manifests (bytes : ByteArray) :
    contentKey sha256 "manifests" bytes = "manifests/" ++ digestHex sha256 bytes := by
  have hsegment : "manifests" ++ "/" = "manifests/" := by decide
  rw [contentKey, hsegment]

section Canonical

variable {sha256} {pkey : String} {s : Bucket} {etag : ETag} {m : Manifest}

/-- A pointer to the digest of a stored manifest resolves to it when it is small enough to be read
and valid. -/
theorem loadPointer_of_size_le
    (hpointer : s.getPointer pkey = some (etag, (digestHex sha256 m.canonicalBytes).toUTF8))
    (hobject : s.objects.lookup (contentKey sha256 "manifests" m.canonicalBytes) =
      some m.canonicalBytes)
    (hversion : m.version = MANIFEST_VERSION) (hpacks : m.packs.Pairwise (· < ·))
    (hvalid : m.validate = .ok ()) (hsize : m.canonicalBytes.size ≤ MAX_MANIFEST_BYTES) :
    loadPointer sha256 pkey s = .ok (some (etag, digestHex sha256 m.canonicalBytes, m)) := by
  rw [contentKey_manifests] at hobject
  have hlimited : getVerifiedLimited sha256 ("manifests/" ++ digestHex sha256 m.canonicalBytes)
      (digestHex sha256 m.canonicalBytes) MAX_MANIFEST_BYTES s = .ok m.canonicalBytes := by
    simp only [getVerifiedLimited, Bucket.getVerifiedLimited, Bucket.getLimited, hobject,
      if_neg (Nat.not_lt.mpr hsize), Bucket.verify, ne_eq, not_true_eq_false, if_false]
  have hread : Manifest.fromBytes m.canonicalBytes = .ok m := by
    rw [Manifest.fromBytes_canonicalBytes m hversion, sortDedup_eq_self hpacks]
  simp only [loadPointer, hpointer, pointerDigest_digestHex, hlimited, hread, hvalid]

/-- A pointer to the digest of a stored manifest that is too large to be read resolves to an
error. -/
theorem loadPointer_of_lt_size
    (hpointer : s.getPointer pkey = some (etag, (digestHex sha256 m.canonicalBytes).toUTF8))
    (hobject : s.objects.lookup (contentKey sha256 "manifests" m.canonicalBytes) =
      some m.canonicalBytes)
    (hsize : MAX_MANIFEST_BYTES < m.canonicalBytes.size) :
    ∃ message, loadPointer sha256 pkey s = .error (.resourceLimit message) := by
  rw [contentKey_manifests] at hobject
  have hlimited : ∃ message,
      getVerifiedLimited sha256 ("manifests/" ++ digestHex sha256 m.canonicalBytes)
        (digestHex sha256 m.canonicalBytes) MAX_MANIFEST_BYTES s =
          .error (.resourceLimit message) := by
    simp only [getVerifiedLimited, Bucket.getVerifiedLimited, Bucket.getLimited, hobject,
      if_pos hsize]
    exact ⟨_, rfl⟩
  obtain ⟨message, hmessage⟩ := hlimited
  refine ⟨message, ?_⟩
  simp only [loadPointer, hpointer, pointerDigest_digestHex, hmessage]

end Canonical

end Buzz.Relay.Git
