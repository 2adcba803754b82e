import Mathlib
import Buzz.Relay.Git.CasPublish

/-!
# First pushes

The snapshot of the refs that `for-each-ref` lists, and the push of these refs into a repository
that has no pointer yet: any refs within the bounds of the writer are published.

## Main definitions

* `listing`, `firstPush`, `firstManifest`, `Pushable`.

## Main results

* `readRefs_listing`: the snapshot of a listing holds the listed refs.
* `Pushable.publishes`: a first push within the bounds is accepted.
-/

namespace Buzz.Relay.Git

open Buzz.Core Buzz.Library

/-! ### The snapshot of a listing -/

/-- A line of `for-each-ref`: the name, a blank and the object identifier. -/
def refLine (r : String × String) : List Char := r.1.toList ++ ' ' :: r.2.toList

/-- The output of `for-each-ref` for these refs. -/
def listing (refs : List (String × String)) : String :=
  String.ofList (refs.flatMap fun r => refLine r ++ ['\n'])

theorem linesAux_append {line rest : List Char} (h : ∀ c ∈ line, c ≠ '\n' ∧ c ≠ '\r') :
    ∀ {current : List Char}, (∀ l, current = '\r' :: l → False) →
      linesAux current (line ++ '\n' :: rest) = (current.reverse ++ line) :: linesAux [] rest := by
  induction line with
  | nil =>
    intro current hcurrent
    rw [List.nil_append, List.append_nil, linesAux, if_pos rfl]
    exact hcurrent
  | cons c line ih =>
    intro current hcurrent
    obtain ⟨hnewline, hreturn⟩ := h c List.mem_cons_self
    have hnext : ∀ l, c :: current = '\r' :: l → False := fun l hl =>
      hreturn (List.cons.inj hl).1
    rw [List.cons_append, linesAux, if_neg hnewline,
      ih (fun x hx => h x (List.mem_cons_of_mem _ hx)) hnext, List.reverse_cons,
      List.append_assoc, List.singleton_append]
    exact hcurrent

theorem lines_listing {refs : List (String × String)}
    (h : ∀ r ∈ refs, ∀ c ∈ refLine r, c ≠ '\n' ∧ c ≠ '\r') :
    lines (listing refs).toList = refs.map refLine := by
  rw [listing, String.toList_ofList, lines]
  induction refs with
  | nil => rfl
  | cons r refs ih =>
    have hempty : ∀ l : List Char, [] = '\r' :: l → False := fun _ => nofun
    rw [List.flatMap_cons, List.append_assoc, List.singleton_append,
      linesAux_append (h r List.mem_cons_self) hempty, List.reverse_nil, List.nil_append,
      ih fun x hx => h x (List.mem_cons_of_mem _ hx), List.map_cons]

theorem splitRef_refLine {r : String × String} (h : ' ' ∉ r.1.toList) :
    splitRef (refLine r) = some r := by
  have hname : ∀ c ∈ r.1.toList, decide (c ≠ ' ') = true := fun c hc =>
    decide_eq_true fun heq => h (heq ▸ hc)
  have hmem : ' ' ∈ refLine r := List.mem_append_right _ List.mem_cons_self
  rw [splitRef, if_pos hmem, refLine, List.takeWhile_append_of_pos hname,
    List.dropWhile_append_of_pos hname]
  simp

theorem collectRefs_listing {refs : List (String × String)}
    (hname : ∀ r ∈ refs, ' ' ∉ r.1.toList)
    (hoid : ∀ r ∈ refs, r.2.utf8ByteSize = 40 ∧ r.2.toList.all isHexDigit = true) :
    ∀ {m : SortedMap String String}, m.entries.length + refs.length ≤ MAX_MANIFEST_REFS →
      collectRefs (refs.map refLine) m =
        .ok (refs.foldl (fun m r => m.insert r.1 r.2) m) := by
  induction refs with
  | nil => exact fun _ => rfl
  | cons r refs ih =>
    intro m hlength
    obtain ⟨hsize, hhex⟩ := hoid r List.mem_cons_self
    have hoidOk : ¬(r.2.utf8ByteSize ≠ 40 ∨ r.2.toList.all isHexDigit = false) := by
      rw [hsize, hhex]
      decide
    rw [List.length_cons] at hlength
    have hinsert : (m.insert r.1 r.2).entries.length ≤ m.entries.length + 1 :=
      SortedMap.length_insertEntry_le
    rw [List.map_cons, collectRefs, splitRef_refLine (hname r List.mem_cons_self)]
    simp only
    rw [if_neg hoidOk, if_neg fun hmany => absurd hmany.1 (by omega),
      ih (fun x hx => hname x (List.mem_cons_of_mem _ hx))
        (fun x hx => hoid x (List.mem_cons_of_mem _ hx)) (by omega), List.foldl_cons]

/-- The snapshot of a listing within the bounds holds the listed refs. -/
theorem readRefs_listing {refs : List (String × String)}
    (hline : ∀ r ∈ refs, ∀ c ∈ refLine r, c ≠ '\n' ∧ c ≠ '\r')
    (hname : ∀ r ∈ refs, ' ' ∉ r.1.toList)
    (hoid : ∀ r ∈ refs, r.2.utf8ByteSize = 40 ∧ r.2.toList.all isHexDigit = true)
    (hlength : refs.length ≤ MAX_MANIFEST_REFS)
    (hsize : (listing refs).utf8ByteSize ≤ MAX_REF_SNAPSHOT_BYTES) :
    readRefs (listing refs).toUTF8 = .ok (SortedMap.ofList refs) := by
  have hutf8 : String.fromUTF8? (listing refs).toUTF8 = some (listing refs) :=
    dif_pos (listing refs).isValidUTF8
  have hbound : ¬(listing refs).toUTF8.size > MAX_REF_SNAPSHOT_BYTES := Nat.not_lt.mpr hsize
  rw [readRefs, if_neg hbound, hutf8, Option.getD_some, lines_listing hline,
    collectRefs_listing hname hoid (by simpa [SortedMap.empty] using hlength), SortedMap.ofList]

theorem size_listing (refs : List (String × String)) :
    (listing refs).utf8ByteSize =
      (refs.map fun r => r.1.utf8ByteSize + r.2.utf8ByteSize + 2).sum := by
  rw [listing, String.utf8ByteSize_ofList]
  induction refs with
  | nil => rfl
  | cons r refs ih =>
    have hblank : ' '.utf8Size = 1 := rfl
    have hnewline : String.utf8Len ['\n'] = 1 := rfl
    rw [List.flatMap_cons, String.utf8Len_append, String.utf8Len_append, ih, refLine,
      String.utf8Len_append, String.utf8Len_cons, List.map_cons, List.sum_cons, hblank, hnewline,
      String.utf8Len_toList, String.utf8Len_toList]
    omega

/-- A name without dots, of allowed characters and with no two slashes in a row is safe. -/
theorem isSafeRefname_intro {s : String} (hstart : ['r', 'e', 'f', 's', '/'] <+: s.toList)
    (hchars : ∀ c ∈ s.toList, isRefChar c = true) (hdot : '.' ∉ s.toList)
    (hslash : s.toList.IsChain fun a b => ¬(a = '/' ∧ b = '/'))
    (hlast : ¬['/'] <:+ s.toList) : isSafeRefname s = true := by
  have hdots : ¬['.', '.'] <:+: s.toList := fun h => hdot (h.subset List.mem_cons_self)
  have hslashes : ¬['/', '/'] <:+: s.toList := fun h => by
    have hchain := hslash.infix h
    rw [List.isChain_pair] at hchain
    exact hchain ⟨rfl, rfl⟩
  have hfirst : ['/'].isPrefixOf s.toList = false := by
    obtain ⟨t, ht⟩ := hstart
    rw [← ht]
    rfl
  have hend : ['/'].isSuffixOf s.toList = false := by
    rw [← Bool.not_eq_true, List.isSuffixOf_iff_suffix]
    exact hlast
  simp only [isSafeRefname, List.isPrefixOf_iff_prefix.mpr hstart, hdots, hslashes, hfirst, hend,
    List.all_eq_true.mpr hchars, decide_false, Bool.or_false, Bool.not_false, Bool.and_true]

theorem isSafeRefname_main : isSafeRefname "refs/heads/main" = true := by
  have hmain : "refs/heads/main".toList =
      ['r', 'e', 'f', 's', '/', 'h', 'e', 'a', 'd', 's', '/', 'm', 'a', 'i', 'n'] := by decide
  have hchars : ("refs/heads/main".toList.all isRefChar) = true := by decide
  refine isSafeRefname_intro ?_ (List.all_eq_true.mp hchars) ?_ ?_ ?_ <;> rw [hmain] <;> decide

/-! ### First pushes -/

variable (sha256 : Sha256)

/-- The published HEAD is the observed one or a ref. -/
theorem resolvePublishedHead_spec {refs : SortedMap String String} {observed : String}
    (h : observed ≠ "") (parentHead : String) :
    resolvePublishedHead refs observed parentHead = observed ∨
      resolvePublishedHead refs observed parentHead ∈ refs.keys := by
  rw [resolvePublishedHead]
  split_ifs with hobserved hparent hmain hmaster
  · exact Or.inl rfl
  · rw [isPublishedBranch, Bool.and_eq_true, decide_eq_true_eq] at hparent
    exact Or.inr hparent.2
  · exact Or.inr hmain
  · exact Or.inr hmaster
  · split
    · next branch hbranch => exact Or.inr (List.mem_of_find?_eq_some hbranch)
    · exact Or.inl rfl

/-- The limits of a relay with its default configuration, for a repository without objects. -/
def defaultOptions : PublishOptions :=
  ⟨⟨0, 500 * 1024 * 1024, 2 * (500 * 1024 * 1024)⟩, PACK_COMPACTION_THRESHOLD⟩

/-- The empty tree. -/
def emptyTree : String := "4b825dc642cb6eb9a060e54bf8d69288fbee4904"

/-- A commit of the empty tree. -/
def firstCommit : String := "5696e9128997cc52784771f055a1ca605d7768e0"

/-- The pack of `firstCommit` and `emptyTree`. -/
def firstPack : ByteArray :=
  ⟨#[80, 65, 67, 75, 0, 0, 0, 2, 0, 0, 0, 2, 144, 6, 120, 156, 101, 201,
    49, 10, 192, 32, 12, 0, 192, 221, 87, 100, 239, 18, 36, 134, 8, 165, 244, 43,
    70, 35, 237, 32, 66, 176, 255, 111, 247, 222, 122, 203, 205, 128, 84, 98, 106, 149,
    41, 86, 101, 211, 92, 144, 209, 18, 105, 151, 198, 57, 138, 116, 53, 163, 140, 20,
    202, 179, 174, 233, 224, 176, 251, 233, 7, 32, 108, 248, 9, 117, 142, 113, 175, 101,
    255, 9, 47, 83, 199, 26, 230, 32, 120, 156, 3, 0, 0, 0, 0, 1, 70, 198,
    152, 67, 220, 100, 143, 164, 45, 77, 208, 196, 59, 95, 242, 148, 235, 35, 233, 65]⟩

set_option maxRecDepth 2000 in
theorem size_firstPack : firstPack.size = 126 := rfl

/-- The workspace of a first push of these refs. -/
def firstPush (refs : List (String × String)) : Workspace :=
  ⟨.ok (listing refs).toUTF8, .ok (some ("refs/heads/main" ++ "\n")), .ok firstPack,
    .ok [firstPack], none⟩

/-- The refs of a first push that the snapshot takes and the manifest allows. -/
structure Pushable (refs : List (String × String)) : Prop where
  nonempty : refs ≠ []
  length_le : refs.length ≤ MAX_MANIFEST_REFS
  safe : ∀ r ∈ refs, isSafeRefname r.1 = true
  oid_size : ∀ r ∈ refs, r.2.utf8ByteSize = 40
  oid_hex : ∀ r ∈ refs, r.2.toList.all isHexDigit = true
  nodup : (refs.map Prod.fst).Nodup
  size_le : (listing refs).utf8ByteSize ≤ MAX_REF_SNAPSHOT_BYTES

/-- The manifest of a first push of these refs. -/
def firstManifest (refs : List (String × String)) : Manifest :=
  (PackPlan.delta (some firstPack)).compose sha256 .fresh
    (resolvePublishedHead (SortedMap.ofList refs) "refs/heads/main" "") (SortedMap.ofList refs)

namespace Pushable

variable {refs : List (String × String)} (h : Pushable refs)
include h

theorem mem_entries {r : String × String} :
    r ∈ (SortedMap.ofList refs).entries ↔ r ∈ refs :=
  (SortedMap.ofList_perm h.nodup).mem_iff

theorem snapshot :
    snapshotWorkspaceState (firstPush refs) = .ok (SortedMap.ofList refs, "refs/heads/main") := by
  have hsafeChar : ∀ {c}, isRefChar c = true → c ≠ '\n' ∧ c ≠ '\r' ∧ c ≠ ' ' := by
    intro c hc
    refine ⟨?_, ?_, ?_⟩ <;> (rintro rfl; exact absurd hc (by decide))
  have hhexChar : ∀ {c}, isHexDigit c = true → c ≠ '\n' ∧ c ≠ '\r' := by
    intro c hc
    refine ⟨?_, ?_⟩ <;> (rintro rfl; exact absurd hc (by decide))
  have hname : ∀ r ∈ refs, ∀ c ∈ r.1.toList, isRefChar c = true := by
    intro r hr
    have hsafe := h.safe r hr
    simp only [isSafeRefname, Bool.and_eq_true, List.all_eq_true] at hsafe
    exact hsafe.2
  have hline : ∀ r ∈ refs, ∀ c ∈ refLine r, c ≠ '\n' ∧ c ≠ '\r' := by
    intro r hr c hc
    rcases List.mem_append.mp hc with hc | hc
    · exact ⟨(hsafeChar (hname r hr c hc)).1, (hsafeChar (hname r hr c hc)).2.1⟩
    · rcases List.mem_cons.mp hc with rfl | hc
      · decide
      · exact hhexChar (List.all_eq_true.mp (h.oid_hex r hr) c hc)
  have hread : readRefs (listing refs).toUTF8 = .ok (SortedMap.ofList refs) :=
    readRefs_listing hline (fun r hr hblank => (hsafeChar (hname r hr _ hblank)).2.2 rfl)
      (fun r hr => ⟨h.oid_size r hr, h.oid_hex r hr⟩) h.length_le h.size_le
  have hplain : ("refs/heads/main".toList.all fun c => !isWhitespace c) = true := by decide
  have htrim : trim ("refs/heads/main" ++ "\n") = "refs/heads/main" :=
    trim_line (fun c hc => Bool.not_eq_true' _ ▸ List.all_eq_true.mp hplain c hc) (by decide)
  simp only [snapshotWorkspaceState, firstPush, bind, Except.bind, hread, pure, Except.pure,
    Option.map_some, htrim, Option.getD_some]

theorem plan : planPacks defaultOptions .fresh (SortedMap.ofList refs) (firstPush refs) =
    .ok (.delta (some firstPack)) := by
  have hentries : (SortedMap.ofList refs).entries ≠ [] := by
    intro hnil
    have hperm := SortedMap.ofList_perm h.nodup
    rw [hnil] at hperm
    exact h.nonempty (List.perm_nil.mp hperm.symm)
  have hcapture : capturePack (SortedMap.ofList refs) defaultOptions.limits.maxPackBytes
      (firstPush refs) = .ok (some firstPack) := by
    have hmax : defaultOptions.limits.maxPackBytes = 524288000 := by decide
    simp only [capturePack, if_neg hentries, firstPush, bind, Except.bind]
    rw [hmax, size_firstPack, if_neg (by omega), if_neg (by omega)]
  have hnone : tryCompaction defaultOptions .fresh (SortedMap.ofList refs) (firstPush refs) =
      none := by
    simp [tryCompaction, shouldCompact, defaultOptions, PACK_COMPACTION_THRESHOLD,
      MAX_MANIFEST_PACKS, ParentState.fresh]
  have hdelta : planDelta defaultOptions.limits ParentState.fresh.parent.packs.length none
      (some firstPack) = .ok (.delta (some firstPack)) := by
    have hlength : ParentState.fresh.parent.packs.length = 0 := rfl
    have hbytes : defaultOptions.limits.parentHydratedBytes = 0 := rfl
    have hmax : defaultOptions.limits.maxRepoBytes = 1048576000 := by decide
    rw [planDelta, hlength, hbytes, hmax, size_firstPack, if_neg (by decide), if_neg (by omega),
      if_neg (by omega)]
  simp only [planPacks, hnone, hcapture, bind, Except.bind, hdelta]

/-- The HEAD of the push. -/
theorem head_safe :
    isSafeRefname (resolvePublishedHead (SortedMap.ofList refs) "refs/heads/main" "") = true := by
  have hobserved : "refs/heads/main" ≠ "" := by decide
  rcases resolvePublishedHead_spec hobserved "" with heq | hmem
  · rw [heq]
    exact isSafeRefname_main
  · obtain ⟨r, hr, heq⟩ := List.mem_map.mp hmem
    exact heq ▸ h.safe r (h.mem_entries.mp hr)

theorem valid : (firstManifest sha256 refs).validate = .ok () := by
  rw [Manifest.validate_eq_ok_iff]
  obtain ⟨-, hhead, hrefs, hparent⟩ := PackPlan.compose_eq sha256 .fresh
    (resolvePublishedHead (SortedMap.ofList refs) "refs/heads/main" "") (SortedMap.ofList refs)
    (.delta (some firstPack))
  constructor
  case packs_le =>
    rw [firstManifest, PackPlan.length_compose_packs]
    simp [PackPlan.packCount, PackPlan.keys, ParentState.fresh, MAX_MANIFEST_PACKS]
  case refs_le =>
    rw [firstManifest, hrefs, (SortedMap.ofList_perm h.nodup).length_eq]
    exact h.length_le
  case head_ne =>
    rw [firstManifest, hhead]
    intro hempty
    have hsafe := h.head_safe
    rw [hempty] at hsafe
    exact absurd hsafe (by decide)
  case head_safe =>
    rw [firstManifest, hhead]
    exact h.head_safe
  case refs =>
    intro r hr
    rw [firstManifest, hrefs, h.mem_entries] at hr
    refine ⟨h.safe r hr, ?_⟩
    rw [isHexOid, h.oid_size r hr, h.oid_hex r hr]
    rfl
  case packs =>
    intro key hkey
    rw [firstManifest, PackPlan.mem_compose_packs, PackPlan.keys, ParentState.fresh,
      List.nil_append, Option.map_some, Option.toList_some, List.mem_singleton] at hkey
    have hsegment : "packs" ++ "/" = "packs/" := by decide
    rw [hkey, Manifest.isPackKey_iff, contentKey, hsegment]
    exact ⟨_, rfl, isManifestDigest_digestHex sha256 _⟩
  case parent =>
    rw [firstManifest, hparent]
    exact fun p hp => absurd hp (Option.not_mem_none p)

theorem prepared : prepare sha256 defaultOptions .fresh (firstPush refs) =
    .ok (firstManifest sha256 refs, .delta (some firstPack)) := by
  simp only [prepare, h.snapshot, bind, Except.bind, h.plan]
  rfl

/-- The push is accepted into an empty bucket. -/
theorem publishes (pkey : String) (etag : ETag) :
    ∃ s', casPublish sha256 pkey defaultOptions .fresh (firstPush refs) etag ⟨∅, ∅⟩ =
      (.ok ⟨firstManifest sha256 refs,
        contentKey sha256 "manifests" (firstManifest sha256 refs).canonicalBytes⟩, s') := by
  have hprepare := h.prepared sha256
  have habsent : ∀ packs m, (((uploadPacks sha256 packs ⟨∅, ∅⟩).putManifest sha256 m).2).getPointer
      pkey = none := by
    intro packs m
    rw [Bucket.getPointer, Bucket.putManifest, Bucket.putImmutable_pointers, uploadPacks_pointers,
      AList.lookup_empty]
  have hprecond : ParentState.fresh.precond = .ifNoneMatchStar := rfl
  simp only [casPublish, hprepare, h.valid sha256, Bucket.putPointer, hprecond, habsent,
    Bucket.holds, Option.isNone_none, if_true]
  simp only [Bucket.putManifest, Bucket.putImmutable_fst, digestFromManifestKey_contentKey]
  exact ⟨_, rfl⟩

end Pushable

/-- A first push of the branch `main`. -/
def mainBranch : List (String × String) := [("refs/heads/main", firstCommit)]

/-- SHA-256 on the pack and on the manifest of the first push of `main`. -/
def firstSha256 : Sha256 := fun bytes =>
  if bytes = firstPack then
    0x87cc81227c4f5060236536002dcb01ba654b9619f227fb445af82a26c7977847#256
  else
    0x63bec7f66a31cbbe87a3d1654557c788356d35c7d8006c9c34b64e3273665550#256

theorem pushable_mainBranch : Pushable mainBranch where
  nonempty := List.cons_ne_nil _ _
  length_le := by decide
  safe := by
    intro r hr
    obtain rfl := List.mem_singleton.mp hr
    exact isSafeRefname_main
  oid_size := by
    intro r hr
    obtain rfl := List.mem_singleton.mp hr
    rfl
  oid_hex := by
    intro r hr
    obtain rfl := List.mem_singleton.mp hr
    exact (by decide : firstCommit.toList.all isHexDigit = true)
  nodup := List.nodup_singleton _
  size_le := by
    rw [size_listing]
    decide

end Buzz.Relay.Git
