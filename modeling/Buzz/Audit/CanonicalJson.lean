import Mathlib.Data.Char
import Mathlib.Data.List.Lex
import Buzz.Library.Json
import Buzz.Library.SortedMap

/-!
# Canonical JSON

`canonical_json` of `crates/buzz-audit/src/hash.rs`: the text of a value whose objects have their
members in the order of their names. It is the compact text of the value with its names sorted, and
so values with one canonical text are the same up to the order of names.

A `serde_json` value has distinct names and finite numbers, so that no text of it fails to be
written; `Value` keeps a number with a fraction or an exponent as the text that is written for it.

## Main definitions

* `Value`, `canonicalJson`.
* `sortKeys`: a value with its names in order.

## Main results

* `canonicalJson_eq_render`.
* `sortKeys_eq_of_canonicalJson_eq`: the canonical text determines the value up to the order of
  names.
-/

namespace Buzz.Audit

open Buzz.Library

/-- A `serde_json` value: the texts of its numbers are numbers. -/
structure Value where
  json : Json
  readable : json.Readable

/-- Texts with commas between them. -/
def joinCommas : List (List Char) → List Char
  | [] => []
  | [text] => text
  | text :: texts => text ++ ',' :: joinCommas texts

mutual

/-- Serialize a JSON value with sorted object keys. -/
def canonicalJson : Json → List Char
  | .obj members =>
    let sorted := SortedMap.ofList (canonicalMembers members)
    '{' :: (joinCommas (sorted.entries.map fun m => Json.quote m.1 ++ ':' :: m.2) ++ ['}'])
  | .arr elems => '[' :: (joinCommas (canonicalElems elems) ++ [']'])
  | other => other.render

/-- The canonical texts of the elements of an array. -/
def canonicalElems : List Json → List (List Char)
  | [] => []
  | v :: vs => canonicalJson v :: canonicalElems vs

/-- The names of an object with the canonical texts of their values. -/
def canonicalMembers : List (List Char × Json) → List (List Char × List Char)
  | [] => []
  | m :: ms => (m.1, canonicalJson m.2) :: canonicalMembers ms

end

mutual

/-- A value with the names of its objects in order. -/
def sortKeys : Json → Json
  | .obj members => .obj (SortedMap.ofList (sortMembers members)).entries
  | .arr elems => .arr (sortElems elems)
  | other => other

/-- The elements of an array, each with its names in order. -/
def sortElems : List Json → List Json
  | [] => []
  | v :: vs => sortKeys v :: sortElems vs

/-- The members of an object, each value with its names in order. -/
def sortMembers : List (List Char × Json) → List (List Char × Json)
  | [] => []
  | m :: ms => (m.1, sortKeys m.2) :: sortMembers ms

end

/-! ### The canonical text is a compact text -/

theorem joinCommas_cons_cons (s t : List Char) (texts : List (List Char)) :
    joinCommas (s :: t :: texts) = s ++ ',' :: joinCommas (t :: texts) := rfl

theorem render_arr (vs : List Json) :
    Json.render (.arr vs) = '[' :: (joinCommas (vs.map Json.render) ++ [']']) := by
  have helems : ∀ (v : Json) (vs : List Json),
      Json.render v ++ Json.renderElems vs = joinCommas ((v :: vs).map Json.render) ++ [']'] := by
    intro v vs
    induction vs generalizing v with
    | nil => rfl
    | cons w vs ih =>
      rw [Json.renderElems, ih, List.map_cons, List.map_cons, List.map_cons, joinCommas_cons_cons,
        List.append_assoc, List.cons_append]
  cases vs with
  | nil => rfl
  | cons v vs => rw [Json.render, helems]

theorem render_obj (ms : List (List Char × Json)) :
    Json.render (.obj ms) =
      '{' :: (joinCommas (ms.map fun m => Json.quote m.1 ++ ':' :: Json.render m.2) ++ ['}']) := by
  have hmembers : ∀ (m : List Char × Json) (ms : List (List Char × Json)),
      Json.quote m.1 ++ ':' :: (Json.render m.2 ++ Json.renderMembers ms) =
        joinCommas ((m :: ms).map fun m => Json.quote m.1 ++ ':' :: Json.render m.2) ++ ['}'] := by
    intro m ms
    induction ms generalizing m with
    | nil => simp [Json.renderMembers, joinCommas]
    | cons m' ms ih =>
      rw [Json.renderMembers, ih, List.map_cons, List.map_cons, List.map_cons,
        joinCommas_cons_cons, List.append_assoc, List.append_assoc, List.cons_append,
        List.cons_append]
  cases ms with
  | nil => rfl
  | cons m ms => rw [Json.render, hmembers]

mutual

/-- The canonical text is the compact text of the value with its names in order. -/
theorem canonicalJson_eq_render : ∀ v : Json, canonicalJson v = (sortKeys v).render
  | .null => rfl
  | .bool _ => rfl
  | .int _ => rfl
  | .float _ => rfl
  | .str _ => rfl
  | .arr vs => by
    rw [canonicalJson, sortKeys, render_arr, canonicalElems_eq_map vs]
  | .obj ms => by
    rw [canonicalJson, sortKeys, render_obj, canonicalMembers_eq_map ms, SortedMap.ofList_map,
      List.map_map]
    rfl

theorem canonicalElems_eq_map : ∀ vs : List Json, canonicalElems vs = (sortElems vs).map Json.render
  | [] => rfl
  | v :: vs => by
    rw [canonicalElems, sortElems, List.map_cons, canonicalJson_eq_render v,
      canonicalElems_eq_map vs]

theorem canonicalMembers_eq_map : ∀ ms : List (List Char × Json),
    canonicalMembers ms = (sortMembers ms).map fun m => (m.1, m.2.render)
  | [] => rfl
  | m :: ms => by
    rw [canonicalMembers, sortMembers, List.map_cons, canonicalJson_eq_render m.2,
      canonicalMembers_eq_map ms]

end

/-! ### The canonical text determines the value -/

theorem readableMembers_iff {ms : List (List Char × Json)} :
    Json.ReadableMembers ms ↔ ∀ m ∈ ms, m.2.Readable := by
  induction ms with
  | nil => simp [Json.ReadableMembers]
  | cons m ms ih => simp [Json.ReadableMembers, ih]

mutual

theorem readable_sortKeys : ∀ {v : Json}, v.Readable → (sortKeys v).Readable
  | .null, _ => trivial
  | .bool _, _ => trivial
  | .int _, _ => trivial
  | .float _, h => h
  | .str _, _ => trivial
  | .arr _, h => readable_sortElems h
  | .obj _, h => readableMembers_iff.mpr fun _ hm =>
      readableMembers_iff.mp (readable_sortMembers h) _ (SortedMap.mem_ofList hm)

theorem readable_sortElems :
    ∀ {vs : List Json}, Json.ReadableElems vs → Json.ReadableElems (sortElems vs)
  | [], _ => trivial
  | _ :: _, h => ⟨readable_sortKeys h.1, readable_sortElems h.2⟩

theorem readable_sortMembers : ∀ {ms : List (List Char × Json)}, Json.ReadableMembers ms →
    Json.ReadableMembers (sortMembers ms)
  | [], _ => trivial
  | _ :: _, h => ⟨readable_sortKeys h.1, readable_sortMembers h.2⟩

end

/-- Values with one canonical text are the same up to the order of names. -/
theorem sortKeys_eq_of_canonicalJson_eq {v w : Value}
    (h : canonicalJson v.json = canonicalJson w.json) : sortKeys v.json = sortKeys w.json := by
  have hparse := congrArg Json.parse h
  rw [canonicalJson_eq_render, canonicalJson_eq_render,
    (readable_sortKeys v.readable).parse_render,
    (readable_sortKeys w.readable).parse_render] at hparse
  exact Option.some.inj hparse

end Buzz.Audit
