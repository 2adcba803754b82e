import Mathlib.Data.List.Nodup
import Mathlib.Data.Nat.Notation
import Mathlib.Tactic.Common

/-!
# Values in the order of their first occurrences

A relation `P p a` says that the value `a` occurs at the position `p`. A scan from the left that
keeps each value it has not met before collects the values in the order in which they first occur.

## Main definitions

* `FirstOccurrences`: the values that occur below a position, each once, ordered by where they
  first occur.

## Main results

* `FirstOccurrences.skip`, `FirstOccurrences.push`: what a scan may pass, and what it keeps.
* `FirstOccurrences.unique`: there is one such list.
-/

namespace Buzz.Library

variable {α : Type*} {P : ℕ → α → Prop} {n m : ℕ} {l l' : List α} {a : α}

/-- The value `a` occurs before `b` does. -/
def OccursBefore (P : ℕ → α → Prop) (a b : α) : Prop := ∃ p, P p a ∧ ∀ q, P q b → p < q

/-- The values that occur below `n`. -/
structure FirstOccurrences (P : ℕ → α → Prop) (n : ℕ) (l : List α) : Prop where
  nodup : l.Nodup
  mem_iff : ∀ a, a ∈ l ↔ ∃ p < n, P p a
  ordered : l.Pairwise (OccursBefore P)

namespace FirstOccurrences

theorem zero (P : ℕ → α → Prop) : FirstOccurrences P 0 [] :=
  ⟨.nil, fun a => by simp, .nil⟩

/-- Positions where nothing occurs are passed. -/
theorem skip (h : FirstOccurrences P n l) (hle : n ≤ m)
    (hnone : ∀ p, n ≤ p → p < m → ∀ a, ¬ P p a) : FirstOccurrences P m l := by
  refine ⟨h.nodup, fun a => (h.mem_iff a).trans ?_, h.ordered⟩
  constructor
  · rintro ⟨p, hp, ha⟩
    exact ⟨p, Nat.lt_of_lt_of_le hp hle, ha⟩
  · rintro ⟨p, hp, ha⟩
    exact ⟨p, Nat.lt_of_not_le fun hnp => hnone p hnp hp a ha, ha⟩

/-- A value that was met before is passed. -/
theorem pass (h : FirstOccurrences P n l) (hmem : a ∈ l) (honly : ∀ b, P n b → b = a) :
    FirstOccurrences P (n + 1) l := by
  refine ⟨h.nodup, fun b => ⟨fun hb => ?_, ?_⟩, h.ordered⟩
  · obtain ⟨p, hp, hb⟩ := (h.mem_iff b).mp hb
    exact ⟨p, Nat.lt_succ_of_lt hp, hb⟩
  · rintro ⟨p, hp, hb⟩
    rcases Nat.lt_succ_iff_lt_or_eq.mp hp with hp | rfl
    · exact (h.mem_iff b).mpr ⟨p, hp, hb⟩
    · rwa [honly b hb]

/-- A value that was not met before is kept. -/
theorem push (h : FirstOccurrences P n l) (hnew : a ∉ l) (ha : P n a)
    (honly : ∀ b, P n b → b = a) : FirstOccurrences P (n + 1) (l ++ [a]) := by
  have hlate (q : ℕ) (hq : P q a) : n ≤ q := Nat.le_of_not_lt fun hlt =>
    hnew ((h.mem_iff a).mpr ⟨q, hlt, hq⟩)
  refine ⟨?_, fun b => ⟨fun hb => ?_, ?_⟩, ?_⟩
  · refine List.nodup_append.mpr ⟨h.nodup, List.nodup_singleton a, fun b hb c hc => ?_⟩
    rintro rfl
    exact hnew (List.mem_singleton.mp hc ▸ hb)
  · rcases List.mem_append.mp hb with hb | hb
    · obtain ⟨p, hp, hb⟩ := (h.mem_iff b).mp hb
      exact ⟨p, Nat.lt_succ_of_lt hp, hb⟩
    · exact ⟨n, Nat.lt_succ_self n, List.mem_singleton.mp hb ▸ ha⟩
  · rintro ⟨p, hp, hb⟩
    rcases Nat.lt_succ_iff_lt_or_eq.mp hp with hp | rfl
    · exact List.mem_append_left _ ((h.mem_iff b).mpr ⟨p, hp, hb⟩)
    · exact List.mem_append_right _ (List.mem_singleton.mpr (honly b hb))
  · refine List.pairwise_append.mpr ⟨h.ordered, List.pairwise_singleton _ _, fun b hb c hc => ?_⟩
    obtain rfl := List.mem_singleton.mp hc
    obtain ⟨p, hp, hb⟩ := (h.mem_iff b).mp hb
    exact ⟨p, hb, fun q hq => Nat.lt_of_lt_of_le hp (hlate q hq)⟩

/-- The order of the values is that of their first occurrences, so that the list is determined. -/
theorem unique (h : FirstOccurrences P n l) (h' : FirstOccurrences P n l') : l = l' := by
  have hperm : l.Perm l' := (List.perm_ext_iff_of_nodup h.nodup h'.nodup).mpr fun a =>
    (h.mem_iff a).trans (h'.mem_iff a).symm
  refine hperm.eq_of_pairwise (fun a b _ _ hab hba => ?_) h.ordered h'.ordered
  obtain ⟨p, hp, hpb⟩ := hab
  obtain ⟨q, hq, hqa⟩ := hba
  exact absurd (hpb q hq) (Nat.lt_asymm (hqa p hp))

end FirstOccurrences

end Buzz.Library
