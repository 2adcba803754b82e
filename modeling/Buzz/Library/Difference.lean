import Buzz.Library.HashMap

/-!
# Differences of keyed lists

A list of values with a key each is a map. The difference of two such lists is what is removed, by
key, and what is to be written; a map that holds the first list holds the second one when it is
patched with the difference.

## Main definitions

* `byKey`: the map of a list.
* `removedKeys`, `upserts`, `patch`.

## Main results

* `lookup_patch`: a patched map holds the list that the difference leads to.
-/

namespace Buzz.Library

open HashMap

variable {α κ : Type*} [DecidableEq κ] (key : α → κ)

/-- Write values under their keys. -/
def writeAll (m : HashMap κ α) (l : List α) : HashMap κ α :=
  l.foldl (fun m a => m.insert (key a) a) m

/-- The map of a list. -/
def byKey (l : List α) : HashMap κ α := writeAll key ∅ l

/-- The keys of the first list that the second one does not have. -/
def removedKeys (before after : List α) : List κ :=
  (byKey key before).keys.filter fun k => decide (k ∉ after.map key)

/-- The values of the second list that the first one does not have. -/
def upserts [DecidableEq α] (before after : List α) : List α :=
  after.filter fun a => decide ((byKey key before).lookup (key a) ≠ some a)

def patch (m : HashMap κ α) (removed : List κ) (upserts : List α) : HashMap κ α :=
  writeAll key (removed.foldl (fun m k => m.erase k) m) upserts

variable {key} {m : HashMap κ α}

theorem lookup_foldl_erase (ks : List κ) (k : κ) :
    (ks.foldl (fun m k => m.erase k) m).lookup k = if k ∈ ks then none else m.lookup k := by
  induction ks generalizing m with
  | nil => simp
  | cons a ks ih =>
    rw [List.foldl_cons, ih, lookup_erase_eq]
    by_cases hk : k ∈ ks
    · simp [hk]
    · simp [hk]

theorem lookup_writeAll_of_notMem {l : List α} {k : κ} (hk : k ∉ l.map key) :
    (writeAll key m l).lookup k = m.lookup k := by
  induction l generalizing m with
  | nil => rfl
  | cons a l ih =>
    rw [List.map_cons, List.mem_cons, not_or] at hk
    rw [writeAll, List.foldl_cons]
    refine (ih hk.2).trans ?_
    rw [lookup_insert_eq, if_neg hk.1]

theorem lookup_writeAll_of_mem {l : List α} (hl : (l.map key).Nodup) {a : α} (ha : a ∈ l) :
    (writeAll key m l).lookup (key a) = some a := by
  induction l generalizing m with
  | nil => cases ha
  | cons b l ih =>
    obtain ⟨hb, hl⟩ := List.nodup_cons.mp hl
    rw [writeAll, List.foldl_cons]
    rcases List.mem_cons.mp ha with rfl | ha
    · refine (lookup_writeAll_of_notMem hb).trans ?_
      rw [lookup_insert_eq, if_pos rfl]
    · exact ih hl ha

/-- A map that holds a list holds another one when it is patched with their difference. -/
theorem lookup_patch [DecidableEq α] {before after : List α} (hafter : (after.map key).Nodup)
    (hm : ∀ k, m.lookup k = (byKey key before).lookup k) (k : κ) :
    (patch key m (removedKeys key before after) (upserts key before after)).lookup k =
      (byKey key after).lookup k := by
  have hupserts : ((upserts key before after).map key).Nodup :=
    hafter.sublist (List.filter_sublist.map key)
  by_cases hk : k ∈ after.map key
  · obtain ⟨a, ha, rfl⟩ := List.mem_map.mp hk
    rw [byKey, lookup_writeAll_of_mem hafter ha, patch]
    by_cases hsame : (byKey key before).lookup (key a) = some a
    · have hnot : key a ∉ (upserts key before after).map key := by
        intro hmem
        obtain ⟨b, hb, hba⟩ := List.mem_map.mp hmem
        obtain ⟨hb, hne⟩ := List.mem_filter.mp hb
        obtain rfl := List.inj_on_of_nodup_map hafter hb ha hba
        exact (of_decide_eq_true hne) hsame
      have hkept : key a ∉ removedKeys key before after := fun hmem =>
        of_decide_eq_true (List.mem_filter.mp hmem).2 hk
      rw [lookup_writeAll_of_notMem hnot, lookup_foldl_erase, if_neg hkept, hm, hsame]
    · exact lookup_writeAll_of_mem hupserts
        (List.mem_filter.mpr ⟨ha, decide_eq_true hsame⟩)
  · have hnot : k ∉ (upserts key before after).map key := fun hmem =>
      hk (List.map_subset key (List.filter_subset_self _) hmem)
    rw [byKey, lookup_writeAll_of_notMem hk, patch, lookup_writeAll_of_notMem hnot,
      lookup_foldl_erase]
    by_cases hbefore : k ∈ (byKey key before).keys
    · exact if_pos (List.mem_filter.mpr ⟨hbefore, decide_eq_true hk⟩)
    · rw [mem_keys_iff, Bool.not_eq_true, Option.isSome_eq_false_iff, Option.isNone_iff_eq_none]
        at hbefore
      split_ifs
      · rfl
      · exact (hm k).trans hbefore

end Buzz.Library
