import Mathlib.Order.BoundedOrder.Lattice
import Buzz.Library.HashMap

/-!
# Maps that only grow

A map from keys to values of a linear order with a least element, read so that an absent key has
the least value. Raising a key takes the maximum of what is held and what is offered. Whatever the
order of the offers and however often they are repeated, the map ends with the maximum of what it
started with and of what it was offered: this is the state of a max-merged replica.

## Main definitions

* `MaxMap.value`, `MaxMap.raise`, `MaxMap.latest`.

## Main results

* `MaxMap.value_raise`: raising takes the maximum; `MaxMap.exists_lookup_raise`.
* `MaxMap.latest_le_iff`, `MaxMap.latest_congr`: the greatest offer for a key depends on the set of
  offers only.
-/

namespace Buzz.Library.MaxMap

variable {κ ν : Type*} [DecidableEq κ] [LinearOrder ν] [OrderBot ν]

/-- The value of a key, the least one when the key is absent. -/
def value (m : HashMap κ ν) (k : κ) : ν := (m.lookup k).getD ⊥

/-- Raise a key to `t`, unless it is already there. -/
def raise (m : HashMap κ ν) (k : κ) (t : ν) : HashMap κ ν :=
  if t ≤ value m k then m else m.set k t

/-- The greatest value that a list of offers has for a key. -/
def latest (l : List (κ × ν)) (k : κ) : ν :=
  l.foldr (fun p t => if p.1 = k then max p.2 t else t) ⊥

theorem value_eq_of_lookup {m : HashMap κ ν} {k : κ} {t : ν}
    (h : m.lookup k = some t) : value m k = t := by
  rw [value, h, Option.getD_some]

theorem value_set (m : HashMap κ ν) (k k' : κ) (t : ν) :
    value (m.set k t) k' = if k' = k then t else value m k' := by
  rw [value, HashMap.lookup_set, value]
  split_ifs <;> rfl

theorem raise_of_le {m : HashMap κ ν} {k : κ} {t : ν} (h : t ≤ value m k) : raise m k t = m :=
  if_pos h

/-- A key that is held stays held, at a value that is no less. -/
theorem exists_lookup_raise {m : HashMap κ ν} {k : κ} {t : ν} (h : m.lookup k = some t) (a : κ)
    (x : ν) : ∃ t', (raise m a x).lookup k = some t' ∧ t ≤ t' := by
  rw [raise]
  split_ifs with hle
  · exact ⟨t, h, le_rfl⟩
  · rw [HashMap.lookup_set]
    split_ifs with hk
    · subst hk
      rw [value_eq_of_lookup h] at hle
      exact ⟨x, rfl, (not_le.mp hle).le⟩
    · exact ⟨t, h, le_rfl⟩

/-! ### The greatest offer -/

@[simp]
theorem latest_nil (k : κ) : latest ([] : List (κ × ν)) k = ⊥ := rfl

theorem latest_cons (p : κ × ν) (l : List (κ × ν)) (k : κ) :
    latest (p :: l) k = if p.1 = k then max p.2 (latest l k) else latest l k := rfl

theorem latest_le_iff {l : List (κ × ν)} {k : κ} {t : ν} :
    latest l k ≤ t ↔ ∀ v, (k, v) ∈ l → v ≤ t := by
  induction l with
  | nil => simp
  | cons p l ih =>
    obtain ⟨a, x⟩ := p
    rw [latest_cons]
    split_ifs with ha
    · subst ha
      rw [max_le_iff, ih]
      constructor
      · rintro ⟨hx, hl⟩ v hv
        rcases List.mem_cons.mp hv with heq | hmem
        · rw [(Prod.mk.inj heq).2]
          exact hx
        · exact hl v hmem
      · exact fun h => ⟨h x List.mem_cons_self, fun v hv => h v (List.mem_cons_of_mem _ hv)⟩
    · rw [ih]
      constructor
      · intro h v hv
        rcases List.mem_cons.mp hv with heq | hmem
        · exact absurd (Prod.mk.inj heq).1.symm ha
        · exact h v hmem
      · exact fun h v hv => h v (List.mem_cons_of_mem _ hv)

theorem latest_append (l₁ l₂ : List (κ × ν)) (k : κ) :
    latest (l₁ ++ l₂) k = max (latest l₁ k) (latest l₂ k) := by
  refine eq_of_forall_ge_iff fun t => ?_
  rw [max_le_iff, latest_le_iff, latest_le_iff, latest_le_iff]
  simp only [List.mem_append]
  exact ⟨fun h => ⟨fun v hv => h v (.inl hv), fun v hv => h v (.inr hv)⟩,
    fun h v hv => hv.elim (h.1 v) (h.2 v)⟩

/-- Neither the order of the offers nor their repetition matters. -/
theorem latest_congr {l₁ l₂ : List (κ × ν)} (h : ∀ p, p ∈ l₁ ↔ p ∈ l₂) (k : κ) :
    latest l₁ k = latest l₂ k := by
  refine eq_of_forall_ge_iff fun t => ?_
  rw [latest_le_iff, latest_le_iff]
  exact forall_congr' fun v => imp_congr_left (h (k, v))

theorem value_raise (m : HashMap κ ν) (k k' : κ) (t : ν) :
    value (raise m k t) k' = max (value m k') (latest [(k, t)] k') := by
  rw [raise, latest_cons, latest_nil]
  split_ifs with hle hk hk
  · subst hk
    rw [max_eq_left (bot_le : ⊥ ≤ t), max_eq_left hle]
  · rw [max_eq_left bot_le]
  · subst hk
    rw [value_set, if_pos rfl, max_eq_left (bot_le : ⊥ ≤ t), max_eq_right (not_le.mp hle).le]
  · rw [value_set, if_neg (Ne.symm hk), max_eq_left bot_le]

end Buzz.Library.MaxMap
