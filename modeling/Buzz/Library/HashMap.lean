import Mathlib.Algebra.Order.Group.Multiset
import Mathlib.Data.List.AList
import Mathlib.Tactic.Common

/-!
# Finite maps with an iteration order, and maps to lists

A hash map is an association list without repeated keys (`AList`); the order of its entries is
the order in which an iteration meets them. Everything here is stated through `lookup`, so that
it holds whatever that order is: `Rehash` relates two maps that differ by a reordering only.

A *bucket map* is a hash map whose values are lists. Entries are added at the end of a bucket
(`push`), and a predicate is removed from a bucket (`discard`), the key going away with its last
element. `NoEmptyBucket` says that no key holds an empty list, and is kept by both.

## Main definitions

* `HashMap`, `HashMap.Rehash`, `HashMap.set`, `HashMap.retain`.
* `HashMap.Renders`: a map under keys and values that are written differently.
* `BucketMap.bucket`, `BucketMap.push`, `BucketMap.discard`, `BucketMap.write`,
  `BucketMap.NoEmptyBucket`, `BucketMap.Holds`, `BucketMap.contents`.

## Main results

* `HashMap.lookup_insert_eq`, `HashMap.lookup_erase_eq`, `HashMap.lookup_set`.
* `BucketMap.bucket_push`, `BucketMap.bucket_discard`, `BucketMap.bucket_write`.
* `BucketMap.contents_eq_bucket_add`, `BucketMap.contents_insert`, `BucketMap.contents_write`.
-/

namespace Buzz.Library

variable {κ ν α : Type*}

/-- A finite map with an iteration order. -/
abbrev HashMap (κ ν : Type*) := AList fun _ : κ => ν

namespace HashMap

/-- Two maps with the same entries, met in another order by an iteration. -/
def Rehash (m m' : HashMap κ ν) : Prop := m.entries.Perm m'.entries

variable [DecidableEq κ]

theorem Rehash.lookup_eq {m m' : HashMap κ ν} (h : Rehash m m') (k : κ) :
    m.lookup k = m'.lookup k :=
  AList.perm_lookup h

theorem rehash_of_lookup_eq {m m' : HashMap κ ν} (h : ∀ k, m.lookup k = m'.lookup k) :
    Rehash m m' := by
  refine List.lookup_ext m.nodupKeys m'.nodupKeys fun k v => ?_
  exact iff_of_eq (congrArg (v ∈ ·) (h k))

theorem lookup_insert_eq (m : HashMap κ ν) (k k' : κ) (v : ν) :
    (m.insert k v).lookup k' = if k' = k then some v else m.lookup k' := by
  split_ifs with h
  · subst h; exact AList.lookup_insert m
  · exact AList.lookup_insert_ne h

theorem lookup_erase_eq (m : HashMap κ ν) (k k' : κ) :
    (m.erase k).lookup k' = if k' = k then none else m.lookup k' := by
  split_ifs with h
  · subst h; exact AList.lookup_erase _ m
  · exact AList.lookup_erase_ne h

theorem mem_keys_iff {m : HashMap κ ν} {k : κ} : k ∈ m.keys ↔ (m.lookup k).isSome = true := by
  rw [← AList.mem_keys, AList.lookup_isSome]

theorem mem_entries_iff {m : HashMap κ ν} {k : κ} {v : ν} :
    (⟨k, v⟩ : Σ _ : κ, ν) ∈ m.entries ↔ m.lookup k = some v :=
  AList.mem_lookup_iff.symm

/-- Writing what a key holds only moves its entry to the front. -/
theorem rehash_insert_of_lookup {m : HashMap κ ν} {k : κ} {v : ν} (h : m.lookup k = some v) :
    Rehash m (m.insert k v) := by
  refine rehash_of_lookup_eq fun k' => ?_
  rw [lookup_insert_eq]
  split_ifs with hk
  · rw [hk, h]
  · rfl

/-- The entry of a key, and those of the others. -/
theorem entries_perm_erase {m : HashMap κ ν} {k : κ} {v : ν} (h : m.lookup k = some v) :
    m.entries.Perm (⟨k, v⟩ :: (m.erase k).entries) := by
  have hrehash : Rehash m (m.insert k v) := rehash_insert_of_lookup h
  rw [Rehash, AList.entries_insert] at hrehash
  exact hrehash

theorem eq_empty_of_lookup {m : HashMap κ ν} (h : ∀ k, m.lookup k = none) : m = ∅ := by
  refine AList.ext ?_
  rw [AList.empty_entries, List.eq_nil_iff_forall_not_mem]
  rintro ⟨k, v⟩ hmem
  rw [mem_entries_iff, h k] at hmem
  cases hmem

/-- Write under a key: in place where the key is held, at the end where it is not. This is the
order of a JavaScript `Map`. -/
def set (m : HashMap κ ν) (k : κ) (v : ν) : HashMap κ ν :=
  if h : k ∈ m then m.replace k v
  else ⟨m.entries ++ [⟨k, v⟩], by
    rw [List.NodupKeys, List.keys, List.map_append]
    exact List.Nodup.append m.nodupKeys (List.nodup_singleton k)
      (List.disjoint_singleton.mpr h)⟩

private theorem dlookup_kreplace {k : κ} (v : ν) (k' : κ) : ∀ {l : List (Σ _ : κ, ν)},
    k ∈ l.keys → (l.kreplace k v).dlookup k' = if k' = k then some v else l.dlookup k'
  | [], h => by cases h
  | ⟨a, x⟩ :: l, h => by
    by_cases ha : k = a
    · subst ha
      have hrep : List.kreplace k v (⟨k, x⟩ :: l) = ⟨k, v⟩ :: l :=
        List.lookmap_cons_some _ _ (if_pos rfl)
      rw [hrep]
      split_ifs with hk
      · rw [hk, List.dlookup_cons_eq]
      · rw [List.dlookup_cons_ne _ _ hk, List.dlookup_cons_ne _ _ hk]
    · have hmem : k ∈ l.keys := (List.mem_cons.mp h).resolve_left ha
      have ih := dlookup_kreplace v k' hmem
      have hrep : List.kreplace k v (⟨a, x⟩ :: l) = ⟨a, x⟩ :: List.kreplace k v l :=
        List.lookmap_cons_none _ _ (if_neg ha)
      rw [hrep]
      by_cases hk' : k' = a
      · subst hk'
        rw [List.dlookup_cons_eq, List.dlookup_cons_eq, if_neg (Ne.symm ha)]
      · rw [List.dlookup_cons_ne _ _ hk', List.dlookup_cons_ne _ _ hk']
        exact ih

theorem lookup_set (m : HashMap κ ν) (k k' : κ) (v : ν) :
    (m.set k v).lookup k' = if k' = k then some v else m.lookup k' := by
  rw [set]
  split
  next h => exact dlookup_kreplace v k' h
  next h =>
    have hk : m.lookup k = none := AList.lookup_eq_none.mpr h
    change List.dlookup k' (m.entries ++ [⟨k, v⟩]) = _
    rw [List.dlookup_append]
    split_ifs with hkk
    · subst hkk
      change (m.lookup k').or _ = _
      rw [hk, Option.none_or, List.dlookup_cons_eq]
    · rw [List.dlookup_cons_ne _ _ hkk, List.dlookup_nil, Option.or_none]
      rfl

/-- The entries of `m` whose key and value satisfy `p`, in their order: `HashMap::retain`. -/
def retain (p : κ → ν → Bool) (m : HashMap κ ν) : HashMap κ ν :=
  ⟨m.entries.filter fun e => p e.1 e.2, m.nodupKeys.sublist List.filter_sublist⟩

theorem lookup_retain_eq_some_iff {p : κ → ν → Bool} {m : HashMap κ ν} {k : κ} {v : ν} :
    (m.retain p).lookup k = some v ↔ m.lookup k = some v ∧ p k v = true := by
  rw [← mem_entries_iff, ← mem_entries_iff]
  exact List.mem_filter

/-- What holds of all entries goes on to hold when one is written. -/
theorem forall_lookup_insert {p : κ → ν → Prop} {m : HashMap κ ν} {k : κ} {v : ν}
    (h : ∀ k v, m.lookup k = some v → p k v) (hv : p k v) :
    ∀ k' v', (m.insert k v).lookup k' = some v' → p k' v' := by
  intro k' v' hk'
  rw [lookup_insert_eq] at hk'
  split_ifs at hk' with heq
  · exact heq ▸ Option.some.inj hk' ▸ hv
  · exact h k' v' hk'

/-- The map `m'` holds under `k` what `f` makes of the value that `m` holds under `g k`. -/
def Renders {κ' ν' : Type*} [DecidableEq κ'] (g : κ' → κ) (f : ν → ν') (m : HashMap κ ν)
    (m' : HashMap κ' ν') : Prop :=
  ∀ k, m'.lookup k = (m.lookup (g k)).map f

namespace Renders

variable {κ' ν' : Type*} [DecidableEq κ'] {g : κ' → κ} {f : ν → ν'} {m : HashMap κ ν}
  {m' : HashMap κ' ν'}

theorem insert (h : Renders g f m m') (hg : Function.Injective g) (k : κ') (v : ν) :
    Renders g f (m.insert (g k) v) (m'.insert k (f v)) := by
  intro k'
  simp only [lookup_insert_eq, hg.eq_iff]
  split_ifs
  · rfl
  · exact h k'

theorem erase (h : Renders g f m m') (hg : Function.Injective g) (k : κ') :
    Renders g f (m.erase (g k)) (m'.erase k) := by
  intro k'
  simp only [lookup_erase_eq, hg.eq_iff]
  split_ifs
  · rfl
  · exact h k'

/-- Writing what a key holds changes nothing. -/
theorem insert_left (h : Renders g f m m') {k : κ} {v : ν} (hk : m.lookup k = some v) :
    Renders g f (m.insert k v) m' := by
  intro k'
  rw [h k', (rehash_insert_of_lookup hk).lookup_eq]

theorem isSome_eq (h : Renders g f m m') (k : κ') :
    (m'.lookup k).isSome = (m.lookup (g k)).isSome := by
  rw [h k, Option.isSome_map]

theorem lookup_eq_some (h : Renders g f m m') {k : κ'} {v : ν} (hk : m.lookup (g k) = some v) :
    m'.lookup k = some (f v) := by
  rw [h k, hk]
  rfl

theorem exists_lookup (h : Renders g f m m') {k : κ'} {v' : ν'} (hk : m'.lookup k = some v') :
    ∃ v, m.lookup (g k) = some v ∧ f v = v' :=
  Option.map_eq_some_iff.mp ((h k).symm.trans hk)

end Renders

end HashMap

namespace BucketMap

variable [DecidableEq κ]

/-- The list held under a key, empty when the key is absent. -/
def bucket (m : HashMap κ (List α)) (k : κ) : List α :=
  (m.lookup k).getD []

/-- Add an element at the end of a bucket: `entry(k).or_default().push(x)`. -/
def push (m : HashMap κ (List α)) (k : κ) (x : α) : HashMap κ (List α) :=
  m.insert k (bucket m k ++ [x])

/-- Remove the elements satisfying `p` from a bucket, and the key with its last element. -/
def discard (m : HashMap κ (List α)) (k : κ) (p : α → Bool) : HashMap κ (List α) :=
  match m.lookup k with
  | none => m
  | some l =>
    if l.filter (fun x => !p x) = [] then m.erase k else m.insert k (l.filter fun x => !p x)

/-- Write a bucket back, the key going away when nothing is left in it. -/
def write (m : HashMap κ (List α)) (k : κ) (l : List α) : HashMap κ (List α) :=
  if l = [] then m.erase k else m.insert k l

/-- No key holds an empty list. -/
def NoEmptyBucket (m : HashMap κ (List α)) : Prop := ∀ k, m.lookup k ≠ some []

theorem bucket_push (m : HashMap κ (List α)) (k k' : κ) (x : α) :
    bucket (push m k x) k' = if k' = k then bucket m k ++ [x] else bucket m k' := by
  simp only [push, bucket, HashMap.lookup_insert_eq]
  split_ifs <;> rfl

theorem bucket_discard (m : HashMap κ (List α)) (k k' : κ) (p : α → Bool) :
    bucket (discard m k p) k' =
      if k' = k then (bucket m k).filter (fun x => !p x) else bucket m k' := by
  cases h : m.lookup k with
  | none =>
    simp only [discard, h]
    split_ifs with hk
    · subst hk; simp [bucket, h]
    · rfl
  | some l =>
    simp only [discard, h]
    split_ifs with hl hk hk
    · simp [bucket, hk, h, hl, HashMap.lookup_erase_eq]
    · simp [bucket, hk]
    · simp [bucket, hk, h, HashMap.lookup_insert_eq]
    · simp [bucket, hk]

theorem NoEmptyBucket.insert {m : HashMap κ (List α)} (h : NoEmptyBucket m) (k : κ) {l : List α}
    (hl : l ≠ []) : NoEmptyBucket (m.insert k l) := by
  intro k'
  rw [HashMap.lookup_insert_eq]
  split_ifs
  · simpa using hl
  · exact h k'

theorem NoEmptyBucket.erase {m : HashMap κ (List α)} (h : NoEmptyBucket m) (k : κ) :
    NoEmptyBucket (m.erase k) := by
  intro k'
  rw [HashMap.lookup_erase_eq]
  split_ifs
  · simp
  · exact h k'

theorem NoEmptyBucket.write {m : HashMap κ (List α)} (h : NoEmptyBucket m) (k : κ) (l : List α) :
    NoEmptyBucket (write m k l) := by
  rw [BucketMap.write]
  split_ifs with hl
  · exact h.erase k
  · exact h.insert k hl

theorem NoEmptyBucket.push {m : HashMap κ (List α)} (h : NoEmptyBucket m) (k : κ) (x : α) :
    NoEmptyBucket (push m k x) :=
  h.insert k (by simp)

theorem NoEmptyBucket.discard {m : HashMap κ (List α)} (h : NoEmptyBucket m) (k : κ)
    (p : α → Bool) : NoEmptyBucket (discard m k p) := by
  cases hm : m.lookup k with
  | none => simpa only [BucketMap.discard, hm] using h
  | some l =>
    have hw := h.write k (l.filter fun x => !p x)
    rw [BucketMap.write] at hw
    simpa only [BucketMap.discard, hm] using hw

/-- A bucket map without empty buckets holds a key exactly when its bucket has an element. -/
theorem NoEmptyBucket.lookup_eq_none_iff {m : HashMap κ (List α)} (h : NoEmptyBucket m) (k : κ) :
    m.lookup k = none ↔ bucket m k = [] := by
  have hk := h k
  cases hm : m.lookup k with
  | none => simp [bucket, hm]
  | some l =>
    rw [hm] at hk
    simpa [bucket, hm] using hk

theorem bucket_insert (m : HashMap κ (List α)) (k k' : κ) (l : List α) :
    bucket (m.insert k l) k' = if k' = k then l else bucket m k' := by
  rw [bucket, HashMap.lookup_insert_eq, bucket]
  split_ifs <;> rfl

theorem bucket_erase (m : HashMap κ (List α)) (k k' : κ) :
    bucket (m.erase k) k' = if k' = k then [] else bucket m k' := by
  rw [bucket, HashMap.lookup_erase_eq, bucket]
  split_ifs <;> rfl

theorem bucket_write (m : HashMap κ (List α)) (k k' : κ) (l : List α) :
    bucket (write m k l) k' = if k' = k then l else bucket m k' := by
  rw [write]
  split_ifs with hl hk hk
  · rw [bucket_erase, if_pos hk, hl]
  · rw [bucket_erase, if_neg hk]
  · rw [bucket_insert, if_pos hk]
  · rw [bucket_insert, if_neg hk]

/-- Every bucket satisfies `P`. -/
def Holds (P : List α → Prop) (m : HashMap κ (List α)) : Prop := ∀ k, P (bucket m k)

section Holds

variable {P : List α → Prop} {m : HashMap κ (List α)}

theorem holds_empty (hnil : P []) : Holds P (∅ : HashMap κ (List α)) := fun _ => hnil

theorem Holds.insert (h : Holds P m) (k : κ) {l : List α} (hl : P l) : Holds P (m.insert k l) := by
  intro k'
  rw [bucket_insert]
  split_ifs
  · exact hl
  · exact h k'

theorem Holds.erase (h : Holds P m) (hnil : P []) (k : κ) : Holds P (m.erase k) := by
  intro k'
  rw [bucket_erase]
  split_ifs
  · exact hnil
  · exact h k'

theorem Holds.write (h : Holds P m) (k : κ) {l : List α} (hl : P l) : Holds P (write m k l) := by
  intro k'
  rw [bucket_write]
  split_ifs
  · exact hl
  · exact h k'

theorem Holds.discard (h : Holds P m) (hsub : ∀ {l l' : List α}, l.Sublist l' → P l' → P l) (k : κ)
    (p : α → Bool) : Holds P (discard m k p) := by
  intro k'
  rw [bucket_discard]
  split_ifs
  · exact hsub List.filter_sublist (h k)
  · exact h k'

theorem Holds.rehash {m' : HashMap κ (List α)} (h : Holds P m) (hr : HashMap.Rehash m m') :
    Holds P m' := by
  intro k
  rw [bucket, ← hr.lookup_eq]
  exact h k

end Holds

/-- All elements of all buckets, with their multiplicities. -/
def contents (m : HashMap κ (List α)) : Multiset α := ↑(m.entries.flatMap Sigma.snd)

omit [DecidableEq κ] in
theorem contents_rehash {m m' : HashMap κ (List α)} (h : HashMap.Rehash m m') :
    contents m = contents m' :=
  Multiset.coe_eq_coe.mpr (h.flatMap_right _)

theorem contents_insert (m : HashMap κ (List α)) (k : κ) (l : List α) :
    contents (m.insert k l) = ↑l + contents (m.erase k) := by
  rw [contents, AList.entries_insert, List.flatMap_cons, ← Multiset.coe_add]
  rfl

/-- The elements of one bucket, and those of the others. -/
theorem contents_eq_bucket_add (m : HashMap κ (List α)) (k : κ) :
    contents m = ↑(bucket m k) + contents (m.erase k) := by
  cases hm : m.lookup k with
  | none =>
    have hrehash : HashMap.Rehash m (m.erase k) := by
      refine HashMap.rehash_of_lookup_eq fun k' => ?_
      rw [HashMap.lookup_erase_eq]
      split_ifs with hk
      · rw [hk, hm]
      · rfl
    rw [contents_rehash hrehash, bucket, hm, Option.getD_none, Multiset.coe_nil, zero_add]
  | some l =>
    rw [contents_rehash (HashMap.rehash_insert_of_lookup hm), contents_insert, bucket, hm,
      Option.getD_some]

theorem contents_write (m : HashMap κ (List α)) (k : κ) (l : List α) :
    contents (write m k l) = ↑l + contents (m.erase k) := by
  rw [write]
  split_ifs with hl
  · rw [hl, Multiset.coe_nil, zero_add]
  · exact contents_insert m k l

end BucketMap

end Buzz.Library
