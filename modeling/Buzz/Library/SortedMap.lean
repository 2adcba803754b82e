import Mathlib.Data.List.Basic
import Mathlib.Order.Basic
import Mathlib.Order.Lattice
import Mathlib.Tactic.Common

/-!
# Maps sorted by their keys

A map whose iteration follows the order of its keys: the list of its entries, strictly increasing
in the key. Inserting replaces the entry of an existing key.

## Main definitions

* `SortedMap`, `SortedMap.insert`, `SortedMap.ofList`.

## Main results

* `SortedMap.ofList_entries`: a map is rebuilt from its entries.
* `SortedMap.ofList_perm`: entries with distinct keys are all kept.
* `SortedMap.mem_ofList`, `SortedMap.ofList_map`.
-/

namespace Buzz.Library

/-- A map as the list of its entries in increasing order of the keys. -/
structure SortedMap (κ ν : Type*) [LinearOrder κ] where
  entries : List (κ × ν)
  sorted : entries.Pairwise fun a b => a.1 < b.1

namespace SortedMap

variable {κ ν : Type*} [LinearOrder κ]

@[ext]
theorem ext {m m' : SortedMap κ ν} (h : m.entries = m'.entries) : m = m' := by
  cases m
  cases m'
  cases h
  rfl

instance [DecidableEq ν] : DecidableEq (SortedMap κ ν) := fun m m' =>
  decidable_of_iff (m.entries = m'.entries) ⟨ext, fun h => h ▸ rfl⟩

/-- The map without entries. -/
def empty : SortedMap κ ν := ⟨[], List.Pairwise.nil⟩

/-- Insert into a list of entries, before the first larger key. -/
def insertEntry (k : κ) (v : ν) : List (κ × ν) → List (κ × ν)
  | [] => [(k, v)]
  | e :: es =>
    if k < e.1 then (k, v) :: e :: es
    else if e.1 < k then e :: insertEntry k v es
    else (k, v) :: es

-- The equations are made here once, not in each proof that unfolds the function.
attribute [local simp] insertEntry in
theorem mem_insertEntry {k : κ} {v : ν} {e : κ × ν} :
    ∀ {es : List (κ × ν)}, e ∈ insertEntry k v es → e = (k, v) ∨ e ∈ es
  | [], h => Or.inl (List.mem_singleton.mp h)
  | e' :: es, h => by
    rw [insertEntry] at h
    split_ifs at h
    · exact List.mem_cons.mp h
    · rcases List.mem_cons.mp h with rfl | hes
      · exact Or.inr List.mem_cons_self
      · exact (mem_insertEntry hes).imp_right (List.mem_cons_of_mem _)
    · exact (List.mem_cons.mp h).imp_right (List.mem_cons_of_mem _)

theorem length_insertEntry_le {k : κ} {v : ν} :
    ∀ {es : List (κ × ν)}, (insertEntry k v es).length ≤ es.length + 1
  | [] => Nat.le_refl _
  | e :: es => by
    rw [insertEntry]
    split_ifs
    · exact Nat.le_refl _
    · exact Nat.succ_le_succ length_insertEntry_le
    · exact Nat.le_succ _

theorem insertEntry_sorted (k : κ) (v : ν) :
    ∀ {es : List (κ × ν)}, (es.Pairwise fun a b => a.1 < b.1) →
      (insertEntry k v es).Pairwise fun a b => a.1 < b.1
  | [], _ => List.pairwise_singleton _ _
  | e :: es, h => by
    obtain ⟨he, hes⟩ := List.pairwise_cons.mp h
    rw [insertEntry]
    split_ifs with hlt hgt
    · refine List.pairwise_cons.mpr ⟨fun a ha => ?_, h⟩
      rcases List.mem_cons.mp ha with rfl | ha
      · exact hlt
      · exact hlt.trans (he a ha)
    · refine List.pairwise_cons.mpr ⟨fun a ha => ?_, insertEntry_sorted k v hes⟩
      rcases mem_insertEntry ha with rfl | ha
      · exact hgt
      · exact he a ha
    · have hk : e.1 = k := le_antisymm (not_lt.mp hlt) (not_lt.mp hgt)
      exact List.pairwise_cons.mpr ⟨fun a ha => hk ▸ he a ha, hes⟩

/-- Set the value of a key: `BTreeMap::insert`. -/
def insert (m : SortedMap κ ν) (k : κ) (v : ν) : SortedMap κ ν :=
  ⟨insertEntry k v m.entries, insertEntry_sorted k v m.sorted⟩

/-- The keys in increasing order. -/
def keys (m : SortedMap κ ν) : List κ := m.entries.map Prod.fst

/-- The values in the order of their keys. -/
def values (m : SortedMap κ ν) : List ν := m.entries.map Prod.snd

/-- Insert entries one after another, a later one replacing an earlier one of the same key. -/
def ofList (es : List (κ × ν)) : SortedMap κ ν :=
  es.foldl (fun m e => m.insert e.1 e.2) empty

/-- An inserted list holds no entry but its own. -/
theorem mem_ofList {es : List (κ × ν)} {e : κ × ν} (he : e ∈ (ofList es).entries) : e ∈ es := by
  have hfoldl : ∀ (es : List (κ × ν)) (m : SortedMap κ ν),
      e ∈ (es.foldl (fun m e => m.insert e.1 e.2) m).entries → e ∈ m.entries ∨ e ∈ es := by
    intro es
    induction es with
    | nil => exact fun m hm => Or.inl hm
    | cons e' es ih =>
      intro m hm
      rcases ih _ hm with hm | hes
      · rcases mem_insertEntry hm with rfl | hm
        · exact Or.inr List.mem_cons_self
        · exact Or.inl hm
      · exact Or.inr (List.mem_cons_of_mem _ hes)
  exact (hfoldl es empty he).resolve_left List.not_mem_nil

/-- The order of the entries does not depend on the values. -/
theorem insertEntry_map {μ : Type*} (f : ν → μ) (k : κ) (v : ν) (es : List (κ × ν)) :
    insertEntry k (f v) (es.map fun e => (e.1, f e.2)) =
      (insertEntry k v es).map fun e => (e.1, f e.2) := by
  induction es with
  | nil => rfl
  | cons e es ih =>
    rw [List.map_cons, insertEntry, insertEntry]
    split_ifs
    · rfl
    · rw [ih, List.map_cons]
    · rfl

theorem ofList_map {μ : Type*} (f : ν → μ) (es : List (κ × ν)) :
    (ofList (es.map fun e => (e.1, f e.2))).entries =
      (ofList es).entries.map fun e => (e.1, f e.2) := by
  have hfoldl : ∀ (es : List (κ × ν)) (m : SortedMap κ ν) (m' : SortedMap κ μ),
      m'.entries = m.entries.map (fun e => (e.1, f e.2)) →
      ((es.map fun e => (e.1, f e.2)).foldl (fun m e => m.insert e.1 e.2) m').entries =
        (es.foldl (fun m e => m.insert e.1 e.2) m).entries.map fun e => (e.1, f e.2) := by
    intro es
    induction es with
    | nil => exact fun _ _ h => h
    | cons e es ih =>
      intro m m' h
      refine ih _ _ ?_
      show insertEntry e.1 (f e.2) m'.entries = _
      rw [h, insertEntry_map]
      rfl
  exact hfoldl es empty empty rfl

theorem insertEntry_append {k : κ} {v : ν} :
    ∀ {es : List (κ × ν)}, (∀ e ∈ es, e.1 < k) → insertEntry k v es = es ++ [(k, v)]
  | [], _ => rfl
  | e :: es, h => by
    have he : e.1 < k := h e List.mem_cons_self
    rw [insertEntry, if_neg (not_lt.mpr he.le), if_pos he,
      insertEntry_append fun a ha => h a (List.mem_cons_of_mem _ ha), List.cons_append]

theorem foldl_insert_entries :
    ∀ {es : List (κ × ν)} {m : SortedMap κ ν},
      ((m.entries ++ es).Pairwise fun a b => a.1 < b.1) →
      (es.foldl (fun m e => m.insert e.1 e.2) m).entries = m.entries ++ es
  | [], m, _ => (List.append_nil _).symm
  | e :: es, m, h => by
    have hbefore : ∀ a ∈ m.entries, a.1 < e.1 := fun a ha =>
      (List.pairwise_append.mp h).2.2 a ha e List.mem_cons_self
    have hinsert : (m.insert e.1 e.2).entries = m.entries ++ [e] := insertEntry_append hbefore
    have hsplit : (m.insert e.1 e.2).entries ++ es = m.entries ++ e :: es := by
      rw [hinsert, List.append_assoc, List.singleton_append]
    rw [List.foldl_cons, foldl_insert_entries (hsplit ▸ h), hsplit]

/-- A map is rebuilt from its entries. -/
theorem ofList_entries (m : SortedMap κ ν) : ofList m.entries = m :=
  ext (foldl_insert_entries (m := empty) m.sorted)

/-- A new key adds one entry. -/
theorem insertEntry_perm {k : κ} {v : ν} :
    ∀ {es : List (κ × ν)}, (∀ e ∈ es, e.1 ≠ k) → (insertEntry k v es).Perm ((k, v) :: es)
  | [], _ => List.Perm.refl _
  | e :: es, h => by
    have hne : e.1 ≠ k := h e List.mem_cons_self
    rw [insertEntry]
    split_ifs with hlt hgt
    · exact List.Perm.refl _
    · exact ((insertEntry_perm fun a ha => h a (List.mem_cons_of_mem _ ha)).cons e).trans
        (List.Perm.swap _ _ _)
    · exact absurd (le_antisymm (not_lt.mp hlt) (not_lt.mp hgt)) hne

theorem foldl_insert_perm :
    ∀ {es : List (κ × ν)} {m : SortedMap κ ν}, ((m.entries ++ es).map Prod.fst).Nodup →
      (es.foldl (fun m e => m.insert e.1 e.2) m).entries.Perm (m.entries ++ es)
  | [], m, _ => by
    rw [List.foldl_nil, List.append_nil]
  | e :: es, m, h => by
    have hne : ∀ a ∈ m.entries, a.1 ≠ e.1 := by
      intro a ha heq
      rw [List.map_append, List.map_cons, List.nodup_append] at h
      exact h.2.2 a.1 (List.mem_map_of_mem ha) e.1 List.mem_cons_self heq
    have hperm : ((m.insert e.1 e.2).entries ++ es).Perm (m.entries ++ e :: es) :=
      ((insertEntry_perm hne).append_right es).trans List.perm_middle.symm
    rw [List.foldl_cons]
    exact (foldl_insert_perm ((hperm.map Prod.fst).nodup_iff.mpr h)).trans hperm

/-- Entries with distinct keys are all kept. -/
theorem ofList_perm {es : List (κ × ν)} (h : (es.map Prod.fst).Nodup) :
    (ofList es).entries.Perm es :=
  foldl_insert_perm (m := empty) h

end SortedMap

end Buzz.Library
