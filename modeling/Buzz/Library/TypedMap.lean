import Buzz.Library.HashMap

/-!
# Maps whose names keep their type

A map under names, where a write of a new name is accepted, a write of a value of the type that the
name has is accepted too, and a write of another type is refused. A sequence of writes succeeds just
when all values of a name have one type, and then a name holds the last value written to it.

## Main definitions

* `write`, `writes`: one write, and a sequence of them.
* `lastWrite`: the last value that a sequence writes to a name.
* `Compatible`: the writes agree with the map and with each other on the types.

## Main results

* `writes_of_compatible`, `compatible_of_writes`: which sequences succeed.
* `lookup_insertAll`: what a name holds after them.
-/

namespace Buzz.Library.TypedMap

variable {κ ν τ ε : Type*} [DecidableEq κ]

/-! ### Writes -/

section Writes

variable [DecidableEq τ] (kind : ν → τ) (refuse : ν → ν → ε)

/-- One write. The error is made of the value that stands and the refused one. -/
def write (m : HashMap κ ν) (w : κ × ν) : Except ε (HashMap κ ν) :=
  match m.lookup w.1 with
  | some old => if kind old = kind w.2 then .ok (m.insert w.1 w.2) else .error (refuse old w.2)
  | none => .ok (m.insert w.1 w.2)

/-- A sequence of writes, up to the first that is refused. -/
def writes (m : HashMap κ ν) (ws : List (κ × ν)) : Except ε (HashMap κ ν) :=
  ws.foldlM (write kind refuse) m

end Writes

/-- All values of a sequence, none refused. -/
def insertAll (m : HashMap κ ν) (ws : List (κ × ν)) : HashMap κ ν :=
  ws.foldl (fun m w => m.insert w.1 w.2) m

/-- The last value that a sequence writes to a name. -/
def lastWrite : List (κ × ν) → κ → Option ν
  | [], _ => none
  | w :: ws, k => (lastWrite ws k).or (if w.1 = k then some w.2 else none)

/-- The writes have the types that the names have in the map, and one type for each name. -/
structure Compatible (kind : ν → τ) (m : HashMap κ ν) (ws : List (κ × ν)) : Prop where
  held : ∀ w ∈ ws, ∀ old, m.lookup w.1 = some old → kind old = kind w.2
  pairwise : ∀ w ∈ ws, ∀ w' ∈ ws, w.1 = w'.1 → kind w.2 = kind w'.2

/-! ### The last write -/

-- The equations are made here once, not in each proof that unfolds the function.
attribute [local simp] lastWrite in
theorem lastWrite_append (ws ws' : List (κ × ν)) (k : κ) :
    lastWrite (ws ++ ws') k = (lastWrite ws' k).or (lastWrite ws k) := by
  induction ws with
  | nil => simp [lastWrite]
  | cons w ws ih => simp [lastWrite, ih, Option.or_assoc]

theorem mem_of_lastWrite {ws : List (κ × ν)} {k : κ} {v : ν} (h : lastWrite ws k = some v) :
    (k, v) ∈ ws := by
  induction ws with
  | nil => simp [lastWrite] at h
  | cons w ws ih =>
    rw [lastWrite, Option.or_eq_some_iff] at h
    rcases h with h | ⟨-, h⟩
    · exact List.mem_cons_of_mem w (ih h)
    · split_ifs at h with hk
      obtain rfl := Option.some.inj h
      simp [← hk]

theorem lastWrite_eq_none_iff {ws : List (κ × ν)} {k : κ} :
    lastWrite ws k = none ↔ ∀ w ∈ ws, w.1 ≠ k := by
  induction ws with
  | nil => simp [lastWrite]
  | cons w ws ih => simp [lastWrite, ih, and_comm]

theorem exists_lastWrite {ws : List (κ × ν)} {w : κ × ν} (h : w ∈ ws) :
    ∃ v, lastWrite ws w.1 = some v := by
  rcases hlast : lastWrite ws w.1 with _ | v
  · exact absurd rfl ((lastWrite_eq_none_iff).mp hlast w h)
  · exact ⟨v, rfl⟩

theorem lookup_insertAll (m : HashMap κ ν) (ws : List (κ × ν)) (k : κ) :
    (insertAll m ws).lookup k = (lastWrite ws k).or (m.lookup k) := by
  induction ws generalizing m with
  | nil => simp [insertAll, lastWrite]
  | cons w ws ih =>
    have htail : (insertAll m (w :: ws)).lookup k =
        (lastWrite ws k).or ((m.insert w.1 w.2).lookup k) := ih _
    rw [htail, lastWrite, HashMap.lookup_insert_eq, Option.or_assoc]
    by_cases hk : k = w.1
    · simp [hk]
    · simp [hk, Ne.symm hk]

/-! ### Which sequences succeed -/

variable {kind : ν → τ} {refuse : ν → ν → ε} {m m' : HashMap κ ν} {w : κ × ν} {ws : List (κ × ν)}

/-- The types that are asked of the further writes after the first. -/
theorem compatible_cons_iff :
    Compatible kind m (w :: ws) ↔
      (∀ old, m.lookup w.1 = some old → kind old = kind w.2) ∧
        Compatible kind (m.insert w.1 w.2) ws := by
  constructor
  · rintro ⟨hheld, hpair⟩
    refine ⟨hheld w (by simp), ⟨fun u hu old hold => ?_, fun u hu u' hu' => ?_⟩⟩
    · rw [HashMap.lookup_insert_eq] at hold
      split_ifs at hold with hk
      · obtain rfl := Option.some.inj hold
        exact hpair w (by simp) u (by simp [hu]) hk.symm
      · exact hheld u (by simp [hu]) old hold
    · exact hpair u (by simp [hu]) u' (by simp [hu'])
  · rintro ⟨hw, hheld, hpair⟩
    have hfirst : ∀ u ∈ ws, w.1 = u.1 → kind w.2 = kind u.2 := fun u hu hk =>
      hheld u hu w.2 (by rw [HashMap.lookup_insert_eq, if_pos hk.symm])
    refine ⟨fun u hu old hold => ?_, fun u hu u' hu' hk => ?_⟩
    · rcases List.mem_cons.mp hu with rfl | hu
      · exact hw old hold
      · by_cases hk : u.1 = w.1
        · exact (hw old (hk ▸ hold)).trans (hfirst u hu hk.symm)
        · exact hheld u hu old (by rw [HashMap.lookup_insert_eq, if_neg hk, hold])
    · rcases List.mem_cons.mp hu with rfl | hmem <;>
        rcases List.mem_cons.mp hu' with rfl | hmem'
      · rfl
      · exact hfirst u' hmem' hk
      · exact (hfirst u hmem hk.symm).symm
      · exact hpair u hmem u' hmem' hk

variable [DecidableEq τ]

theorem write_of_held (h : ∀ old, m.lookup w.1 = some old → kind old = kind w.2) :
    write kind refuse m w = .ok (m.insert w.1 w.2) := by
  rw [write]
  split
  next old hold => rw [if_pos (h old hold)]
  next => rfl

theorem held_of_write (h : write kind refuse m w = .ok m') :
    m' = m.insert w.1 w.2 ∧ ∀ old, m.lookup w.1 = some old → kind old = kind w.2 := by
  rw [write] at h
  split at h
  next old hold =>
    split_ifs at h with hkind
    refine ⟨(Except.ok.inj h).symm, fun old' hold' => ?_⟩
    obtain rfl := Option.some.inj (hold.symm.trans hold')
    exact hkind
  next hnone => exact ⟨(Except.ok.inj h).symm, fun old hold => by simp [hnone] at hold⟩

/-- Writes that agree on the types all succeed. -/
theorem writes_of_compatible (h : Compatible kind m ws) :
    writes kind refuse m ws = .ok (insertAll m ws) := by
  induction ws generalizing m with
  | nil => rfl
  | cons w ws ih =>
    obtain ⟨hw, hws⟩ := (compatible_cons_iff).mp h
    rw [writes, List.foldlM_cons, write_of_held hw]
    exact ih hws

/-- Writes that all succeed agree on the types. -/
theorem compatible_of_writes (h : writes kind refuse m ws = .ok m') : Compatible kind m ws := by
  induction ws generalizing m with
  | nil => exact ⟨by simp, by simp⟩
  | cons w ws ih =>
    rw [writes, List.foldlM_cons] at h
    rcases hw : write kind refuse m w with e | next
    · rw [hw] at h; cases h
    · obtain ⟨rfl, hheld⟩ := held_of_write hw
      rw [hw] at h
      exact (compatible_cons_iff).mpr ⟨hheld, ih h⟩

end Buzz.Library.TypedMap
