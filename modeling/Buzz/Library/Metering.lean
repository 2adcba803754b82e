import Mathlib.Algebra.BigOperators.Group.List.Basic
import Mathlib.Order.MinMax
import Mathlib.Tactic.Common

/-!
# Metering a run

Counters that stick at their largest value, and the cost of a run of a machine, bounded by a
potential: what a step costs above its price is paid by the potential it gives up.

## Main definitions

* `satAdd`, `satMul`: saturating arithmetic below `top`.
* `Along`: a property of every step of a run.

## Main results

* `foldl_amortized`: the cost of a run is at most its prices and the potential at its start.
-/

namespace Buzz.Library

/-! ### Saturating arithmetic -/

section Saturating

variable {top a b c : ℕ}

def satAdd (top a b : ℕ) : ℕ := min (a + b) top

def satMul (top a b : ℕ) : ℕ := min (a * b) top

theorem satAdd_le_add : satAdd top a b ≤ a + b := min_le_left _ _

/-- What is taken from a meter started earlier is at most what is added to it. -/
theorem satAdd_le_add_satAdd {w x y : ℕ} (h : x ≤ w + y) (z : ℕ) :
    satAdd top x z ≤ w + satAdd top y z := by
  simp only [satAdd]
  omega

theorem satMul_le_mul : satMul top a b ≤ a * b := min_le_left _ _

theorem satMul_le_satMul_right (h : a ≤ b) (c : ℕ) : satMul top a c ≤ satMul top b c :=
  min_le_min_right _ (Nat.mul_le_mul_right c h)

theorem le_satMul_of_pos (ha : a ≤ top) (hb : 0 < b) : a ≤ satMul top a b :=
  le_min (Nat.le_mul_of_pos_right a hb) ha

end Saturating

/-! ### Potentials -/

section Potential

variable {σ α : Type*} {f : σ → α → σ} {P Q : σ → α → Prop}

/-- Every step of the run of `f` over a list has the property, in the state that it finds. -/
def Along (f : σ → α → σ) (P : σ → α → Prop) : σ → List α → Prop
  | _, [] => True
  | s, a :: l => P s a ∧ Along f P (f s a) l

instance [∀ s a, Decidable (P s a)] : ∀ s l, Decidable (Along f P s l)
  | _, [] => .isTrue trivial
  | s, a :: l => @instDecidableAnd _ _ _ (instDecidableAlong (f s a) l)

theorem Along.imp_mem {s : σ} {l : List α} (h : Along f P s l)
    (himp : ∀ s, ∀ a ∈ l, P s a → Q s a) : Along f Q s l := by
  induction l generalizing s with
  | nil => trivial
  | cons a l ih =>
    exact ⟨himp s a List.mem_cons_self h.1,
      ih h.2 fun s b hb => himp s b (List.mem_cons_of_mem a hb)⟩

/-- An invariant of the steps holds at each of them. -/
theorem Along.and_invariant {I : σ → Prop} {s : σ} {l : List α} (h : Along f P s l) (hs : I s)
    (hstep : ∀ s a, I s → I (f s a)) : Along f (fun s a => P s a ∧ I s) s l := by
  induction l generalizing s with
  | nil => trivial
  | cons a l ih => exact ⟨⟨h.1, hs⟩, ih h.2 (hstep s a hs)⟩

/-- A run spends at most what its inputs are priced at and the potential that it starts with, when
every step does. -/
theorem foldl_amortized (spent pot : σ → ℕ) (price : ℕ) {s : σ} {l : List α}
    (h : Along f (fun s a => spent (f s a) + pot (f s a) ≤ spent s + pot s + price) s l) :
    spent (l.foldl f s) + pot (l.foldl f s) ≤ spent s + pot s + l.length * price := by
  induction l generalizing s with
  | nil => simp
  | cons a l ih =>
    have hrest := ih h.2
    have hstep := h.1
    rw [List.foldl_cons, List.length_cons, Nat.succ_mul]
    omega

end Potential

end Buzz.Library
