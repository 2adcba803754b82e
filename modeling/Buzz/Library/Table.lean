import Buzz.Library.HashMap

/-!
# Keyed tables

A database table with a primary key is a finite map from keys to rows. A statement that updates or
counts the rows under a condition is stated through `lookup`, so a proof about a table reads one row
at a time.

## Main definitions

* `Table.updateWhere`, `Table.existsWhere`, `Table.countWhere`, `Table.selectWhere`,
  `Table.insertNew`.
* `Table.updateSeen`: an update of the rows that were found in another version of the table.

## Main results

* `Table.lookup_updateWhere`, `Table.existsWhere_iff`, `Table.selectWhere_eq_some_iff`,
  `Table.selectWhere_eq_none_iff`, `Table.lookup_insertNew`.
* `Table.updateSeen_self`, `Table.lookup_updateSeen`.
* `Table.countWhere_insert`, `Table.countWhere_erase`, `Table.countWhere_le`: what a count does
  when a row is written or deleted.
-/

namespace Buzz.Library.Table

open HashMap

variable {κ ν : Type*}

/-- `UPDATE … WHERE`: rewrite the rows that satisfy `p`. -/
def updateWhere (p : κ → ν → Bool) (f : ν → ν) (m : HashMap κ ν) : HashMap κ ν :=
  ⟨m.entries.map fun e => ⟨e.1, if p e.1 e.2 then f e.2 else e.2⟩, by
    have hkeys : (m.entries.map fun e => (⟨e.1, if p e.1 e.2 then f e.2 else e.2⟩ :
        Σ _ : κ, ν)).keys = m.entries.keys := by
      rw [List.keys, List.map_map]
      rfl
    rw [List.NodupKeys, hkeys]
    exact m.nodupKeys⟩

/-- `EXISTS (SELECT … WHERE)`. -/
def existsWhere (p : κ → ν → Bool) (m : HashMap κ ν) : Bool := m.entries.any fun e => p e.1 e.2

/-- `SELECT count(*) … WHERE`. -/
def countWhere (p : κ → ν → Bool) (m : HashMap κ ν) : ℕ :=
  (m.entries.filter fun e => p e.1 e.2).length

/-- `SELECT … WHERE`, under a condition that one row satisfies at most. -/
def selectWhere (p : κ → ν → Bool) (m : HashMap κ ν) : Option (κ × ν) :=
  (m.entries.find? fun e => p e.1 e.2).map fun e => (e.1, e.2)

variable [DecidableEq κ]

/-- `INSERT … ON CONFLICT DO NOTHING`. -/
def insertNew (m : HashMap κ ν) (k : κ) (v : ν) : HashMap κ ν :=
  match m.lookup k with
  | some _ => m
  | none => m.insert k v

/-- `UPDATE … WHERE` on the rows that satisfied `p` in `seen`, where they still do. -/
def updateSeen (p : κ → ν → Bool) (f : ν → ν) (seen m : HashMap κ ν) : HashMap κ ν :=
  updateWhere (fun k v => (seen.lookup k).any (p k) && p k v) f m

theorem lookup_updateWhere (p : κ → ν → Bool) (f : ν → ν) (m : HashMap κ ν) (k : κ) :
    (updateWhere p f m).lookup k = (m.lookup k).map fun v => if p k v then f v else v := by
  change List.dlookup k (m.entries.map _) = (List.dlookup k m.entries).map _
  induction m.entries with
  | nil => rfl
  | cons e l ih =>
    obtain ⟨a, v⟩ := e
    by_cases ha : k = a
    · subst ha
      rw [List.map_cons, List.dlookup_cons_eq, List.dlookup_cons_eq]
      rfl
    · rw [List.map_cons, List.dlookup_cons_ne _ _ ha, List.dlookup_cons_ne _ _ ha, ih]

/-- An update that meets no row changes nothing. -/
theorem updateWhere_eq_self {p : κ → ν → Bool} {f : ν → ν} {m : HashMap κ ν}
    (h : ∀ k v, m.lookup k = some v → p k v = false) : updateWhere p f m = m := by
  refine AList.ext ?_
  change m.entries.map _ = m.entries
  refine (List.map_congr_left fun e he => ?_).trans (List.map_id _)
  rw [h e.1 e.2 (mem_entries_iff.mp he)]
  rfl

theorem updateWhere_congr {p q : κ → ν → Bool} {f : ν → ν} {m : HashMap κ ν}
    (h : ∀ k v, m.lookup k = some v → p k v = q k v) : updateWhere p f m = updateWhere q f m := by
  refine AList.ext ?_
  change m.entries.map _ = m.entries.map _
  refine List.map_congr_left fun e he => ?_
  rw [h e.1 e.2 (mem_entries_iff.mp he)]

theorem updateSeen_self (p : κ → ν → Bool) (f : ν → ν) (m : HashMap κ ν) :
    updateSeen p f m m = updateWhere p f m :=
  updateWhere_congr fun k v hk => by simp [hk]

/-- A row that does not satisfy `p` stays. -/
theorem lookup_updateSeen {p : κ → ν → Bool} {f : ν → ν} {seen m : HashMap κ ν} {k : κ} {v : ν}
    (hk : m.lookup k = some v) (hp : p k v = false) :
    (updateSeen p f seen m).lookup k = some v := by
  rw [updateSeen, lookup_updateWhere, hk]
  simp [hp]

theorem existsWhere_iff {p : κ → ν → Bool} {m : HashMap κ ν} :
    existsWhere p m = true ↔ ∃ k v, m.lookup k = some v ∧ p k v = true := by
  rw [existsWhere, List.any_eq_true]
  constructor
  · rintro ⟨⟨k, v⟩, hmem, hp⟩
    exact ⟨k, v, mem_entries_iff.mp hmem, hp⟩
  · rintro ⟨k, v, hlookup, hp⟩
    exact ⟨⟨k, v⟩, mem_entries_iff.mpr hlookup, hp⟩

theorem selectWhere_eq_some {p : κ → ν → Bool} {m : HashMap κ ν} {k : κ} {v : ν}
    (h : selectWhere p m = some (k, v)) : m.lookup k = some v ∧ p k v = true := by
  obtain ⟨e, he, heq⟩ := Option.map_eq_some_iff.mp h
  have hp := List.find?_some he
  obtain ⟨rfl, rfl⟩ := Prod.mk.inj heq
  exact ⟨mem_entries_iff.mp (List.mem_of_find?_eq_some he), hp⟩

/-- The row of a condition that no other row satisfies. -/
theorem selectWhere_eq_some_iff {p : κ → ν → Bool} {m : HashMap κ ν} {k : κ} {v : ν}
    (hunique : ∀ k' v', m.lookup k' = some v' → p k' v' = true → k' = k) :
    selectWhere p m = some (k, v) ↔ m.lookup k = some v ∧ p k v = true := by
  refine ⟨selectWhere_eq_some, fun ⟨hlookup, hp⟩ => ?_⟩
  have hfound : (m.entries.find? fun e => p e.1 e.2).isSome = true :=
    List.find?_isSome.mpr ⟨⟨k, v⟩, mem_entries_iff.mpr hlookup, hp⟩
  obtain ⟨e, he⟩ := Option.isSome_iff_exists.mp hfound
  have hselect : selectWhere p m = some (e.1, e.2) := by rw [selectWhere, he]; rfl
  obtain ⟨hlookup', hp'⟩ := selectWhere_eq_some hselect
  obtain rfl := hunique e.1 e.2 hlookup' hp'
  rw [hselect, Option.some.inj (hlookup.symm.trans hlookup')]

theorem selectWhere_eq_none_iff {p : κ → ν → Bool} {m : HashMap κ ν} :
    selectWhere p m = none ↔ ∀ k v, m.lookup k = some v → ¬p k v = true := by
  rw [selectWhere, Option.map_eq_none_iff, List.find?_eq_none]
  exact ⟨fun h k v hk => h ⟨k, v⟩ (mem_entries_iff.mpr hk),
    fun h e he => h e.1 e.2 (mem_entries_iff.mp he)⟩

theorem lookup_insertNew (m : HashMap κ ν) (k k' : κ) (v : ν) :
    (insertNew m k v).lookup k' =
      if k' = k then some ((m.lookup k).getD v) else m.lookup k' := by
  unfold insertNew
  cases hk : m.lookup k with
  | some w =>
    split_ifs with h
    · rw [h, hk]; rfl
    · rfl
  | none => rw [lookup_insert_eq]; rfl

theorem insertNew_of_lookup_eq_none {m : HashMap κ ν} {k : κ} (h : m.lookup k = none) (v : ν) :
    insertNew m k v = m.insert k v := by
  rw [insertNew, h]

theorem lookup_insertNew_of_eq_some {m : HashMap κ ν} {k : κ} {v : ν} (h : m.lookup k = some v)
    (k' : κ) (v' : ν) : (insertNew m k' v').lookup k = some v := by
  rw [lookup_insertNew]
  split_ifs with heq
  · rw [← heq, h]
    rfl
  · exact h

/-- `INSERT … SELECT … ON CONFLICT DO NOTHING`: the rows there stay, and every key has a row. -/
theorem lookup_foldl_insertNew {ι : Type*} (key : ι → κ) (v : ν) (l : List ι) (m : HashMap κ ν)
    (k : κ) :
    (l.foldl (fun m i => insertNew m (key i) v) m).lookup k =
      (m.lookup k).or (if k ∈ l.map key then some v else none) := by
  induction l generalizing m with
  | nil => simp
  | cons i l ih =>
    rw [List.foldl_cons, ih, lookup_insertNew]
    by_cases hk : k = key i
    · rw [if_pos hk, ← hk]
      cases hm : m.lookup k <;> simp [← hk]
    · simp [hk]

/-- A count of the rows that satisfy more is no less. -/
theorem countWhere_le {p q : κ → ν → Bool} {m : HashMap κ ν}
    (h : ∀ k v, m.lookup k = some v → p k v = true → q k v = true) :
    countWhere p m ≤ countWhere q m := by
  rw [countWhere, countWhere, ← List.countP_eq_length_filter, ← List.countP_eq_length_filter]
  exact List.countP_mono_left fun e he => h e.1 e.2 (mem_entries_iff.mp he)

private theorem filter_kerase (q : (Σ _ : κ, ν) → Bool) (k : κ) : ∀ {l : List (Σ _ : κ, ν)},
    l.NodupKeys → (l.kerase k).filter q = l.filter fun e => q e && decide (e.1 ≠ k)
  | [], _ => rfl
  | ⟨a, v⟩ :: l, h => by
    obtain ⟨hnot, hl⟩ := List.nodupKeys_cons.mp h
    by_cases ha : k = a
    · subst ha
      have herase : List.kerase k (⟨k, v⟩ :: l) = l := List.kerase_cons_eq rfl
      rw [herase, List.filter_cons_of_neg (by simp)]
      refine List.filter_congr fun e he => ?_
      have hmem : e.1 ∈ l.keys := List.mem_map_of_mem he
      have hne : e.1 ≠ k := fun heq => hnot (heq ▸ hmem)
      simp [hne]
    · have herase : List.kerase k (⟨a, v⟩ :: l) = ⟨a, v⟩ :: l.kerase k := List.kerase_cons_ne ha
      rw [herase, List.filter_cons, List.filter_cons, filter_kerase q k hl]
      simp [Ne.symm ha]

/-- A written row counts beside the rows under other keys. -/
theorem countWhere_insert (p : κ → ν → Bool) (m : HashMap κ ν) (k : κ) (v : ν) :
    countWhere p (m.insert k v) =
      countWhere (fun k' v' => p k' v' && decide (k' ≠ k)) m + if p k v then 1 else 0 := by
  rw [countWhere, AList.entries_insert, List.filter_cons, filter_kerase _ k m.nodupKeys]
  split_ifs <;> rfl

/-- What is left counts where a row is deleted. -/
theorem countWhere_erase (p : κ → ν → Bool) (m : HashMap κ ν) (k : κ) :
    countWhere p (m.erase k) = countWhere (fun k' v' => p k' v' && decide (k' ≠ k)) m := by
  change ((m.entries.kerase k).filter _).length = _
  rw [filter_kerase _ k m.nodupKeys]
  rfl

/-- A row that is there counts beside the rows under other keys. -/
theorem countWhere_of_lookup (p : κ → ν → Bool) {m : HashMap κ ν} {k : κ} {v : ν}
    (h : m.lookup k = some v) : countWhere p m =
      countWhere (fun k' v' => p k' v' && decide (k' ≠ k)) m + if p k v then 1 else 0 := by
  rw [← countWhere_insert, countWhere, countWhere]
  exact ((rehash_insert_of_lookup h).filter _).length_eq

end Buzz.Library.Table
