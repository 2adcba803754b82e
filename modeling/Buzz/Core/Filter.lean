import Buzz.Library.HashMap
import Buzz.Library.Hex

/-!
# Nostr events, filters and NIP-01 matching

The event and filter types of the `nostr` crate as the relay reads them, and the matcher of
`crates/buzz-core/src/filter.rs`. Multiple filters are OR-ed; the fields of one filter are AND-ed.

Identifiers are fixed-width bit vectors with their lowercase hexadecimal texts; a `BTreeSet` is the
list of its elements and a `BTreeMap` an association list, nothing here depending on their order.
The receive time and the verification flag of a stored event, which matching never reads, are
left out.

## Main definitions

* `Event`, `Tag`, `Filter`, `StoredEvent`.
* `filterMatchOne`, `filtersMatch`.

## Main results

* `exists_of_filtersMatch`: a matching event satisfies some filter.
* `filterMatchOne_kinds`, `filterMatchOne_tag`: what a matching filter's kinds and tag values
  say about the event.
-/

namespace Buzz.Core

open Buzz.Library

/-! ### Identifiers -/

/-- A UUID. -/
abbrev Uuid := BitVec 128

/-- The hyphenated lowercase text of a UUID: `Uuid::to_string`. -/
def uuidToString (u : Uuid) : String :=
  let d := hexDigits 32 u.toNat
  String.ofList (d.take 8 ++ ['-'] ++ (d.drop 8).take 4 ++ ['-'] ++ (d.drop 12).take 4 ++ ['-'] ++
    (d.drop 16).take 4 ++ ['-'] ++ d.drop 20)

/-- The identifier of a community (tenant). -/
abbrev CommunityId := Uuid

/-- A 32-byte event identifier. -/
abbrev EventId := BitVec 256

/-- The 64-digit hexadecimal text of an event identifier: `EventId::to_hex`. -/
def EventId.toHex (id : EventId) : String := String.ofList (hexDigits 64 id.toNat)

/-- A 32-byte x-only public key. -/
abbrev PublicKey := BitVec 256

/-- An event kind; the `nostr` crate compares and hashes kinds by their number. -/
abbrev Kind := BitVec 16

/-! ### Events -/

/-- An event tag: a nonempty list of strings, `head` its kind. -/
structure Tag where
  head : String
  tail : List String
  deriving DecidableEq

namespace Tag

/-- The kind of the tag as text: `tag.kind().to_string()`. -/
def kind (t : Tag) : String := t.head

/-- The first value of the tag: `tag.content()`. -/
def content (t : Tag) : Option String := t.tail.head?

end Tag

/-- A Nostr event, with the fields the relay's matching and queueing read. -/
structure Event where
  id : EventId
  pubkey : PublicKey
  createdAt : ℕ
  kind : Kind
  tags : List Tag
  deriving DecidableEq

/-- A Nostr event with its channel scope; `none` for global and direct-message events. -/
structure StoredEvent where
  event : Event
  channelId : Option Uuid
  deriving DecidableEq

/-! ### Filters -/

/-- A single-letter tag name: a letter of the alphabet, upper or lower case. -/
structure SingleLetterTag where
  character : Fin 26
  uppercase : Bool
  deriving DecidableEq

/-- The one-character text of a single-letter tag. -/
def SingleLetterTag.toStr (t : SingleLetterTag) : String :=
  String.ofList [Char.ofNat ((if t.uppercase then 65 else 97) + t.character)]

/-- A NIP-01 filter. The `limit` and `search` fields take no part in matching. -/
structure Filter where
  ids : Option (List EventId)
  authors : Option (List PublicKey)
  kinds : Option (List Kind)
  since : Option ℕ
  «until» : Option ℕ
  genericTags : HashMap SingleLetterTag (List String)

/-- Whether a constraint holds, an absent one holding always. -/
def optionAll {α : Type} (o : Option α) (p : α → Bool) : Bool :=
  match o with
  | none => true
  | some a => p a

/-- Whether some tag of the event of kind `tagKey` carries one of the values `tagValues`. -/
def hasTagMatch (ev : StoredEvent) (tagKey : String) (tagValues : List String) : Bool :=
  tagValues.any fun filterVal =>
    ((ev.event.tags.filter fun t => t.kind == tagKey).filterMap Tag.content).any
      fun eventVal => eventVal == filterVal

/-- One iteration of the tag loop of `filter_match_one`: `false` stands for the early return.
A channel filter `#h` falls back to the event's channel when the event has no `h` tag at all. -/
def tagConstraintHolds (ev : StoredEvent) (tagKey : SingleLetterTag) (tagValues : List String) :
    Bool :=
  let tagKeyStr := tagKey.toStr
  let hasMatch := hasTagMatch ev tagKeyStr tagValues
  if !hasMatch && tagKeyStr == "h" then
    if !(ev.event.tags.any fun t => t.kind == "h") then
      match ev.channelId with
      | some chId => tagValues.any fun v => v == uuidToString chId
      | none => false
    else false
  else hasMatch

/-- Whether the event satisfies every field of one filter. -/
def filterMatchOne (f : Filter) (ev : StoredEvent) : Bool :=
  optionAll f.kinds (fun kinds => kinds.contains ev.event.kind) &&
  optionAll f.authors (fun authors => authors.contains ev.event.pubkey) &&
  optionAll f.since (fun since => !decide (ev.event.createdAt < since)) &&
  optionAll f.until (fun «until» => !decide («until» < ev.event.createdAt)) &&
  optionAll f.ids (fun ids => ids.any fun id =>
    (EventId.toHex id).toList.isPrefixOf (EventId.toHex ev.event.id).toList) &&
  f.genericTags.entries.all fun e => tagConstraintHolds ev e.1 e.2

/-- Whether the event matches any of the filters. -/
def filtersMatch (filters : List Filter) (ev : StoredEvent) : Bool :=
  filters.any fun f => filterMatchOne f ev

/-! ### What a match says -/

theorem exists_of_filtersMatch {filters : List Filter} {ev : StoredEvent}
    (h : filtersMatch filters ev = true) : ∃ f ∈ filters, filterMatchOne f ev = true := by
  simpa [filtersMatch] using h

theorem filterMatchOne_kinds {f : Filter} {ev : StoredEvent} (h : filterMatchOne f ev = true)
    {kinds : List Kind} (hk : f.kinds = some kinds) : ev.event.kind ∈ kinds := by
  simp only [filterMatchOne, Bool.and_eq_true, hk, optionAll] at h
  simpa using h.1.1.1.1.1

/-- A tag constraint other than `#h` is met by a tag of the event itself. -/
theorem filterMatchOne_tag {f : Filter} {ev : StoredEvent} (h : filterMatchOne f ev = true)
    {key : SingleLetterTag} {values : List String} (hv : f.genericTags.lookup key = some values)
    (hkey : key.toStr ≠ "h") :
    ∃ t ∈ ev.event.tags, t.kind = key.toStr ∧ ∃ v ∈ values, t.content = some v := by
  simp only [filterMatchOne, Bool.and_eq_true, List.all_eq_true] at h
  have htag := h.2 ⟨key, values⟩ (HashMap.mem_entries_iff.mpr hv)
  have hne : (key.toStr == "h") = false := by simpa using hkey
  simp only [tagConstraintHolds, hne, Bool.and_false] at htag
  simp only [hasTagMatch, Bool.false_eq_true, ↓reduceIte, List.any_eq_true, List.mem_filterMap,
    List.mem_filter, beq_iff_eq] at htag
  obtain ⟨v, hv, w, ⟨t, ⟨ht, hkind⟩, hcontent⟩, rfl⟩ := htag
  exact ⟨t, ht, hkind, w, hv, hcontent⟩

end Buzz.Core
