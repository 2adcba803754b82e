import Mathlib.Tactic.Common
import Buzz.Library.HashMap
import Buzz.Library.Json
import Buzz.Library.Sorting

/-!
# Read-state blobs

The blobs of `readStateFormat.ts` and `readStateSnapshot.ts`: a blob names the client that wrote it
and holds a timestamp, in Unix seconds, for each context the client has read. It is the encrypted
content of an event whose `d` tag is `read-state:` and a slot id.

A plain object used as a map (`Record<string, number>`) is a finite map with the order of an
object's own keys: array indices first, by value, then the others as they were added. Two things
set it apart from a map. Assigning a number to `__proto__` does nothing, and reading a name that
every object inherits gives something that is not a number, even when the object has no such key.

Texts are lists of characters. Decryption and the parsing of the content are taken as given: an
event carries the blob they give, if any.

## Main definitions

* `Record`, `assign`, `objectEntries`, `unionEntry`.
* `ReadStateBlob`, `blobFor`, `blobSize`, `RelayEvent`.
* `sanitizeContexts`, `parseReadStateEvent`.

## Main results

* `lookup_assign`, `mem_objectEntries_iff`.
* `of_lookup_assignAll`, `lookup_assignAll`, `of_lookup_unionEntries`,
  `isSome_lookup_unionEntries`.
* `of_lookup_sanitizeContexts`, `parseReadStateEvent_eq_some`: a parsed blob holds nothing that the
  written one does not.
-/

namespace Buzz.Desktop.ReadState

open Buzz.Library

/-! ### Plain objects -/

/-- A plain object from context ids to timestamps: `Record<string, number>`. -/
abbrev Record := HashMap (List Char) ℕ

/-- The name under which an object has its prototype. -/
def protoName : List Char := "__proto__".toList

/-- The names that every plain object inherits. -/
def inheritedNames : List (List Char) :=
  [protoName, "constructor".toList, "__defineGetter__".toList, "__defineSetter__".toList,
    "hasOwnProperty".toList, "__lookupGetter__".toList, "__lookupSetter__".toList,
    "isPrototypeOf".toList, "propertyIsEnumerable".toList, "toString".toList, "valueOf".toList,
    "toLocaleString".toList]

/-- `record[key] = value`. A prototype can only be set to an object. -/
def assign (record : Record) (key : List Char) (value : ℕ) : Record :=
  if key = protoName then record else record.set key value

/-- The array index that a key spells, if it spells one. -/
def arrayIndex? (key : List Char) : Option ℕ :=
  let n := Nat.ofDigitChars 10 key 0
  if Nat.toDigits 10 n = key ∧ n < 2 ^ 32 - 1 then some n else none

/-- The own entries of an object, in the order of `Object.entries`. -/
def objectEntries (record : Record) : List (List Char × ℕ) :=
  let entries := record.entries.map fun e => (e.1, e.2)
  sortByKey (fun e => (arrayIndex? e.1).getD 0)
      (entries.filter fun e => (arrayIndex? e.1).isSome) ++
    entries.filter fun e => (arrayIndex? e.1).isNone

/-- One entry of a union that keeps the greater timestamp. An inherited name is not `undefined`, and
no number is greater than what is found there. -/
def unionEntry (union : Record) (entry : List Char × ℕ) : Record :=
  match union.lookup entry.1 with
  | some existing => if existing < entry.2 then assign union entry.1 entry.2 else union
  | none => if entry.1 ∈ inheritedNames then union else assign union entry.1 entry.2

theorem lookup_assign (record : Record) (key k : List Char) (value : ℕ) :
    (assign record key value).lookup k =
      if k = key ∧ key ≠ protoName then some value else record.lookup k := by
  rw [assign]
  by_cases hproto : key = protoName
  · rw [if_pos hproto, if_neg fun h => h.2 hproto]
  · rw [if_neg hproto, HashMap.lookup_set]
    simp only [hproto, ne_eq, not_false_eq_true, and_true]

theorem mem_objectEntries_iff {record : Record} {k : List Char} {v : ℕ} :
    (k, v) ∈ objectEntries record ↔ record.lookup k = some v := by
  rw [objectEntries, List.mem_append, (sortByKey_perm _ _).mem_iff, List.mem_filter,
    List.mem_filter, ← and_or_left, ← HashMap.mem_entries_iff]
  have hindex : (arrayIndex? k).isSome = true ∨ (arrayIndex? k).isNone = true := by
    cases arrayIndex? k <;> simp
  rw [and_iff_left hindex, List.mem_map]
  constructor
  · rintro ⟨⟨a, x⟩, hmem, heq⟩
    obtain ⟨rfl, rfl⟩ := Prod.mk.inj heq
    exact hmem
  · exact fun h => ⟨⟨k, v⟩, h, rfl⟩

/-- Assign the entries of a list in turn. -/
def assignAll (record : Record) (entries : List (List Char × ℕ)) : Record :=
  entries.foldl (fun r e => assign r e.1 e.2) record

/-- What is found after the assignments was assigned, or was there and was not touched. -/
theorem of_lookup_assignAll {k : List Char} {v : ℕ} : ∀ (entries : List (List Char × ℕ))
    (record : Record), (assignAll record entries).lookup k = some v →
      (k, v) ∈ entries ∨
        record.lookup k = some v ∧ (k ≠ protoName → ∀ t, (k, t) ∉ entries)
  | [], _, h => .inr ⟨h, fun _ _ => List.not_mem_nil⟩
  | (key, value) :: entries, record, h => by
    rcases of_lookup_assignAll entries (assign record key value) h with
      hmem | ⟨hlook, hnot⟩
    · exact .inl (List.mem_cons_of_mem _ hmem)
    · rw [lookup_assign] at hlook
      split_ifs at hlook with hk
      · obtain ⟨rfl, -⟩ := hk
        obtain rfl := Option.some.inj hlook
        exact .inl List.mem_cons_self
      · refine .inr ⟨hlook, fun hproto t ht => ?_⟩
        rcases List.mem_cons.mp ht with heq | hmem
        · obtain ⟨rfl, rfl⟩ := Prod.mk.inj heq
          exact hk ⟨rfl, hproto⟩
        · exact hnot hproto t hmem

theorem lookup_assignAll_of_not_mem {k : List Char} : ∀ (entries : List (List Char × ℕ))
    (record : Record), (∀ t, (k, t) ∉ entries) →
      (assignAll record entries).lookup k = record.lookup k
  | [], _, _ => rfl
  | (key, value) :: entries, record, h => by
    have hstep : assignAll record ((key, value) :: entries) =
        assignAll (assign record key value) entries := rfl
    have hne : ¬ (k = key ∧ key ≠ protoName) := by
      rintro ⟨rfl, -⟩
      exact h value List.mem_cons_self
    rw [hstep, lookup_assignAll_of_not_mem entries _ fun t ht => h t (List.mem_cons_of_mem _ ht),
      lookup_assign, if_neg hne]

/-- An entry that is assigned is found, when the list has no other entry for its key. -/
theorem lookup_assignAll {k : List Char} {v : ℕ} (hproto : k ≠ protoName)
    {entries : List (List Char × ℕ)} (hmem : (k, v) ∈ entries)
    (huniq : ∀ t, (k, t) ∈ entries → t = v) (record : Record) :
    (assignAll record entries).lookup k = some v := by
  have hfound : ∀ (es : List (List Char × ℕ)) (r : Record),
      (k, v) ∈ es ∨ (r.lookup k).isSome = true → ((assignAll r es).lookup k).isSome = true := by
    intro es
    induction es with
    | nil => exact fun _ h => h.resolve_left List.not_mem_nil
    | cons e es ih =>
      intro r h
      refine ih (assign r e.1 e.2) ?_
      rw [lookup_assign]
      split_ifs with hk
      · exact .inr rfl
      · rcases h with hmem | hsome
        · rcases List.mem_cons.mp hmem with rfl | hmem
          · exact absurd ⟨rfl, hproto⟩ hk
          · exact .inl hmem
        · exact .inr hsome
  obtain ⟨t, ht⟩ := Option.isSome_iff_exists.mp (hfound _ record (.inl hmem))
  rcases of_lookup_assignAll _ _ ht with hin | ⟨-, hnot⟩
  · rw [ht, huniq t hin]
  · exact absurd hmem (hnot hproto v)

/-! ### Unions -/

/-- The union of the entries of a list. -/
def unionEntries (union : Record) (entries : List (List Char × ℕ)) : Record :=
  entries.foldl unionEntry union

theorem of_lookup_unionEntry {union : Record} {entry : List Char × ℕ} {k : List Char} {v : ℕ}
    (h : (unionEntry union entry).lookup k = some v) :
    union.lookup k = some v ∨ (k, v) = entry := by
  have hassign : (assign union entry.1 entry.2).lookup k = some v →
      union.lookup k = some v ∨ (k, v) = entry := by
    intro h
    rw [lookup_assign] at h
    split_ifs at h with hk
    · exact .inr (Prod.ext hk.1 (Option.some.inj h).symm)
    · exact .inl h
  rw [unionEntry] at h
  split at h
  · split_ifs at h
    · exact hassign h
    · exact .inl h
  · split_ifs at h
    · exact .inl h
    · exact hassign h

/-- What is found in a union is in one of its parts. -/
theorem of_lookup_unionEntries {k : List Char} {v : ℕ} : ∀ (entries : List (List Char × ℕ))
    (union : Record), (unionEntries union entries).lookup k = some v →
      union.lookup k = some v ∨ (k, v) ∈ entries
  | [], _, h => .inl h
  | entry :: entries, union, h => by
    rcases of_lookup_unionEntries entries (unionEntry union entry) h with
      hlook | hmem
    · rcases of_lookup_unionEntry hlook with hlook | heq
      · exact .inl hlook
      · exact .inr (heq ▸ List.mem_cons_self)
    · exact .inr (List.mem_cons_of_mem _ hmem)

theorem isSome_lookup_unionEntry {union : Record} {entry : List Char × ℕ} {k : List Char}
    (hk : k ∉ inheritedNames) (h : (union.lookup k).isSome = true ∨ entry.1 = k) :
    ((unionEntry union entry).lookup k).isSome = true := by
  have hassign : ((assign union entry.1 entry.2).lookup k).isSome = true := by
    rw [lookup_assign]
    split_ifs with hne
    · rfl
    · refine h.resolve_right fun heq => hne ⟨heq.symm, fun hproto => hk ?_⟩
      rw [← heq, hproto]
      exact List.mem_cons_self
  rw [unionEntry]
  split
  next existing hex =>
    split_ifs
    · exact hassign
    · exact h.elim id fun heq => by rw [← heq, hex]; rfl
  next hnone =>
    split_ifs with hin
    · exact h.resolve_right fun heq => hk (heq ▸ hin)
    · exact hassign

/-- A key of a part is found in the union, unless every object inherits it. -/
theorem isSome_lookup_unionEntries {k : List Char} (hk : k ∉ inheritedNames) :
    ∀ (entries : List (List Char × ℕ)) (union : Record),
      (union.lookup k).isSome = true ∨ k ∈ entries.map Prod.fst →
        ((unionEntries union entries).lookup k).isSome = true
  | [], _, h => h.resolve_right List.not_mem_nil
  | entry :: entries, union, h => by
    refine isSome_lookup_unionEntries hk entries (unionEntry union entry) ?_
    rcases h with hsome | hmem
    · exact .inl (isSome_lookup_unionEntry hk (.inl hsome))
    · rcases List.mem_cons.mp hmem with heq | hmem
      · exact .inl (isSome_lookup_unionEntry hk (.inr heq.symm))
      · exact .inr hmem

/-! ### Blobs and events -/

/-- The length of a text in UTF-16 code units: `length` of a string. -/
def utf16Length (text : List Char) : ℕ :=
  (text.map fun c => if c.toNat < 0x10000 then 1 else 2).sum

/-- The length of a text in UTF-8: what `TextEncoder` makes of it. -/
def utf8Length (text : List Char) : ℕ := (text.map Char.utf8Size).sum

/-- A read-state blob. Its `v` is always 1. -/
structure ReadStateBlob where
  clientId : List Char
  contexts : Record
  deriving DecidableEq

/-- The text of a blob: `JSON.stringify({ v: 1, client_id, contexts })`. -/
def blobFor (clientId : List Char) (contexts : Record) : List Char :=
  Json.render (.obj [("v".toList, .int 1), ("client_id".toList, .str clientId),
    ("contexts".toList, .obj ((objectEntries contexts).map fun e => (e.1, .int e.2)))])

/-- The size of a blob in bytes. -/
def blobSize (clientId : List Char) (contexts : Record) : ℕ :=
  utf8Length (blobFor clientId contexts)

/-- An event as the relay delivers it. The id is a 256-bit hash, as a number; the content is the
blob that decrypting and parsing it gives, if it gives an object with `v` 1, a `client_id` and
`contexts`. -/
structure RelayEvent where
  id : ℕ
  pubkey : List Char
  createdAt : ℕ
  tags : List (List (List Char))
  content : Option ReadStateBlob
  deriving DecidableEq

/-- `READ_STATE_D_TAG_PREFIX`. -/
def readStateDTagPrefix : List Char := "read-state:".toList

/-- The `d` tag of a slot. -/
def slotDTag (slotId : List Char) : List Char := readStateDTagPrefix ++ slotId

/-- `MAX_CONTEXTS`. -/
def maxContexts : ℕ := 10000

/-- The checks of `isValidBlob` that a blob can still fail. -/
def isValidBlob (blob : ReadStateBlob) : Bool :=
  decide (utf16Length blob.clientId ≠ 0) && decide (utf16Length blob.clientId ≤ 64) &&
    decide (blob.contexts.entries.length ≤ maxContexts)

/-- The contexts of a parsed blob: long keys and timestamps beyond 32 bits are left out. -/
def sanitizeContexts (contexts : Record) : Record :=
  assignAll ∅ ((objectEntries contexts).filter fun e =>
    decide (utf8Length e.1 ≤ 256) && decide (e.2 ≤ 4294967295))

/-- A `d` tag of a read-state event: the prefix and an ASCII slot id of 1 to 64 characters. -/
def isValidReadStateDTag (value : List Char) : Bool :=
  readStateDTagPrefix.isPrefixOf value &&
    let slotId := value.drop readStateDTagPrefix.length
    decide (0 < slotId.length) && decide (slotId.length ≤ 64) &&
      slotId.all fun c => decide (c.toNat ≤ 0x7f)

/-- A parsed read-state event. -/
structure ParsedReadStateEvent where
  dTag : List Char
  blob : ReadStateBlob
  createdAt : ℕ

/-- Parse an event of `pubkey`: exactly one `d` tag, of the right form, exactly one `t` tag
`read-state`, and a valid blob as content. -/
def parseReadStateEvent (event : RelayEvent) (pubkey : List Char) : Option ParsedReadStateEvent :=
  if event.pubkey ≠ pubkey then none
  else
    match event.tags.filter fun tag => tag[0]? = some "d".toList with
    | [dTagEntry] => do
      let dTag ← dTagEntry[1]?
      guard (isValidReadStateDTag dTag)
      let tTags := event.tags.filter fun tag =>
        tag[0]? = some "t".toList ∧ tag[1]? = some "read-state".toList
      guard (tTags.length = 1)
      let blob ← event.content
      guard (isValidBlob blob)
      pure
        { dTag
          blob := { clientId := blob.clientId, contexts := sanitizeContexts blob.contexts }
          createdAt := event.createdAt }
    | _ => none

theorem of_lookup_sanitizeContexts {contexts : Record} {k : List Char} {v : ℕ}
    (h : (sanitizeContexts contexts).lookup k = some v) : contexts.lookup k = some v := by
  rcases of_lookup_assignAll _ _ h with hmem | ⟨hempty, -⟩
  · exact mem_objectEntries_iff.mp (List.mem_filter.mp hmem).1
  · cases hempty

/-- What a parsed event says: its content, cut to what the parser accepts. -/
theorem parseReadStateEvent_eq_some {event : RelayEvent} {pubkey : List Char}
    {parsed : ParsedReadStateEvent} (h : parseReadStateEvent event pubkey = some parsed) :
    parsed.createdAt = event.createdAt ∧ ∃ blob, event.content = some blob ∧
      parsed.blob = ⟨blob.clientId, sanitizeContexts blob.contexts⟩ := by
  rw [parseReadStateEvent] at h
  split_ifs at h
  split at h
  next dTagEntry _ =>
    simp only [Option.bind_eq_bind, Option.bind_eq_some_iff, Option.pure_def, Option.some.injEq]
      at h
    obtain ⟨dTag, -, -, -, -, -, blob, hblob, -, -, rfl⟩ := h
    exact ⟨rfl, blob, hblob, rfl⟩
  next => cases h

end Buzz.Desktop.ReadState
