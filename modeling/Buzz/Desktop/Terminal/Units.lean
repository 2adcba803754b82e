import Buzz.Desktop.Terminal.Fences

/-!
# Counting what the parser does

`Counting` of `buzz-terminal/src/units.rs`: a wrapper of the handler that charges each callback what
it touches. The handler itself is a parameter.

## Main definitions

* `Callback`, `Handler`.
* `Counting`, `Counting.dispatch`, `Counting.dispatchAll`.

## Main results

* `Counting.work_dispatch_le`: a callback costs at most one atom.
-/

namespace Buzz.Desktop.Terminal

open Buzz.Library

/-- A call of the handler. The methods of the `plain` table, with their arguments, are a type `π`;
an argument that no weight reads is left out of the others. -/
inductive Callback (π : Type)
  | plain (call : π)
  | eraseChars (count : ℕ)
  | deleteChars (count : ℕ)
  | insertBlank (count : ℕ)
  | putTab (count : ℕ)
  | moveForwardTabs (count : ℕ)
  | scrollUp (n : ℕ)
  | deleteLines (n : ℕ)
  | scrollDown (n : ℕ)
  | insertBlankLines (n : ℕ)
  | clearLine (mode : ℕ)
  | clearScreen (mode : ℕ)
  | decaln
  | resetState
  | moveBackwardTabs (count : ℕ)
  deriving DecidableEq, Repr

/-- `Handler + CursorColumn`: the emulator that the calls are delegated to. -/
structure Handler (π : Type) where
  State : Type
  call : State → Callback π → State
  cursorColumn : State → ℕ

variable {π : Type} {H : Handler π} {size : Size}

/-- `Counting::clamp`. -/
def clampCount (n bound : ℕ) : ℕ := max (min n bound) 1

/-- `cells`. -/
def cells (size : Size) : ℕ := satMul u64Max size.columns size.screenLines

/-- The weight of a row operation on `n` lines. -/
def linesWeight (size : Size) (n : ℕ) : ℕ :=
  satMul u64Max (clampCount n size.screenLines) size.columns

/-- The table of `counting_handler!`. Back-tabs are charged a unit, and then for what they scan. -/
def weight (size : Size) : Callback π → ℕ
  | .plain _ => 1
  | .eraseChars count => clampCount count size.columns
  | .deleteChars _ => size.columns
  | .insertBlank _ => size.columns
  | .putTab _ => size.columns
  | .moveForwardTabs _ => size.columns
  | .scrollUp n => linesWeight size n
  | .deleteLines n => linesWeight size n
  | .scrollDown n => linesWeight size n
  | .insertBlankLines n => linesWeight size n
  | .clearLine _ => size.columns
  | .clearScreen _ => cells size
  | .decaln => cells size
  | .resetState =>
    satAdd u64Max (satMul u64Max (cells size) 2) (satMul u64Max size.scrollback size.columns)
  | .moveBackwardTabs _ => 1

structure Counting (H : Handler π) where
  inner : H.State
  units : ℕ
  work : ℕ
  size : Size

namespace Counting

def new (inner : H.State) (size : Size) : Counting H := ⟨inner, 0, 0, size⟩

def charge (c : Counting H) (weight : ℕ) : Counting H :=
  { c with units := satAdd u64Max c.units 1, work := satAdd u64Max c.work weight }

/-- The loop of `move_backward_tabs`, which stops at its first fixed point. -/
def moveBackwardTabs (c : Counting H) : ℕ → Counting H
  | 0 => c
  | count + 1 =>
    let before := H.cursorColumn c.inner
    let inner := H.call c.inner (.moveBackwardTabs 1)
    let after := H.cursorColumn inner
    let scanned := if after = before then before else before - after
    let c' := { c with inner, work := satAdd u64Max c.work scanned }
    if after = before then c' else c'.moveBackwardTabs count

def dispatch (c : Counting H) : Callback π → Counting H
  | .moveBackwardTabs count => (c.charge 1).moveBackwardTabs count
  | call => { c.charge (weight c.size call) with inner := H.call c.inner call }

def dispatchAll (c : Counting H) (calls : List (Callback π)) : Counting H :=
  calls.foldl dispatch c

/-! ### Meters -/

variable {c d : Counting H} {w : ℕ}

/-- Two meters on one handler, of which the one was started at `w` at most. -/
structure Above (w : ℕ) (c d : Counting H) : Prop where
  inner : c.inner = d.inner
  size : c.size = d.size
  work : c.work ≤ w + d.work

theorem above_new (c : Counting H) : Above c.work c (new c.inner c.size) := ⟨rfl, rfl, le_rfl⟩

theorem Above.moveBackwardTabs (h : Above w c d) (count : ℕ) :
    Above w (c.moveBackwardTabs count) (d.moveBackwardTabs count) := by
  induction count generalizing c d with
  | zero => exact h
  | succ count ih =>
    rw [Counting.moveBackwardTabs, Counting.moveBackwardTabs, h.inner]
    split_ifs
    · exact ⟨rfl, h.size, satAdd_le_add_satAdd h.work _⟩
    · exact ih ⟨rfl, h.size, satAdd_le_add_satAdd h.work _⟩

theorem Above.charge (h : Above w c d) (weight : ℕ) : Above w (c.charge weight) (d.charge weight) :=
  ⟨h.inner, h.size, satAdd_le_add_satAdd h.work _⟩

theorem Above.dispatch (h : Above w c d) (call : Callback π) :
    Above w (c.dispatch call) (d.dispatch call) := by
  cases call
  case moveBackwardTabs count => exact (h.charge 1).moveBackwardTabs count
  all_goals
    refine ⟨?_, h.size, ?_⟩
    · exact congrArg (H.call · _) h.inner
    · simp only [Counting.dispatch, h.size]
      exact (h.charge _).work

theorem Above.dispatchAll (h : Above w c d) (calls : List (Callback π)) :
    Above w (c.dispatchAll calls) (d.dispatchAll calls) := by
  induction calls generalizing c d with
  | nil => exact h
  | cons call calls ih => exact ih (h.dispatch call)

theorem size_moveBackwardTabs (count : ℕ) : (c.moveBackwardTabs count).size = c.size := by
  induction count generalizing c with
  | zero => rfl
  | succ count ih =>
    rw [moveBackwardTabs]
    split_ifs
    · rfl
    · exact ih

@[simp] theorem size_dispatch (call : Callback π) : (c.dispatch call).size = c.size := by
  cases call
  case moveBackwardTabs count => exact size_moveBackwardTabs count
  all_goals rfl

@[simp] theorem size_dispatchAll (calls : List (Callback π)) :
    (c.dispatchAll calls).size = c.size := by
  induction calls generalizing c with
  | nil => rfl
  | cons call calls ih => exact ih.trans (size_dispatch call)

end Counting

/-! ### One atom -/

variable {c : Counting H}

/-- The cursor is in the grid, and a back-tab does not move it to the right. -/
structure Handler.OnGrid (H : Handler π) (size : Size) : Prop where
  cursor_lt : ∀ s, H.cursorColumn s < size.columns
  backward_le : ∀ s, H.cursorColumn (H.call s (.moveBackwardTabs 1)) ≤ H.cursorColumn s

/-- The distances of back-tabs telescope, up to the failed scan at the end. -/
theorem Counting.work_moveBackwardTabs_le
    (hleft : ∀ s, H.cursorColumn (H.call s (.moveBackwardTabs 1)) ≤ H.cursorColumn s) (count : ℕ) :
    (c.moveBackwardTabs count).work ≤ c.work + H.cursorColumn c.inner := by
  induction count generalizing c with
  | zero => exact Nat.le_add_right _ _
  | succ count ih =>
    have hle := hleft c.inner
    rw [moveBackwardTabs]
    split_ifs with hfix
    · exact satAdd_le_add
    · refine ih.trans ?_
      dsimp only
      have hadd : satAdd u64Max c.work (H.cursorColumn c.inner -
          H.cursorColumn (H.call c.inner (.moveBackwardTabs 1))) ≤ _ := satAdd_le_add
      omega

/-- What RIS costs is within the atom. -/
theorem weight_resetState_le : weight size (.resetState : Callback π) ≤ maxAtomWork size :=
  le_max_left _ _

theorem cells_le_maxAtomWork : cells size ≤ maxAtomWork size := by
  have htwice : cells size ≤ satMul u64Max (cells size) 2 :=
    le_satMul_of_pos (min_le_right _ _) Nat.two_pos
  exact (le_min (htwice.trans (Nat.le_add_right _ _)) (min_le_right _ _)).trans (le_max_left _ _)

theorem linesWeight_le_maxAtomWork (n : ℕ) : linesWeight size n ≤ maxAtomWork size := by
  rcases Nat.eq_zero_or_pos size.screenLines with hlines | hlines
  · have hclamp : clampCount n size.screenLines = 1 := by
      rw [clampCount, hlines, Nat.min_zero, Nat.max_eq_right (Nat.zero_le 1)]
    calc linesWeight size n ≤ 1 * size.columns := by rw [linesWeight, hclamp]; exact satMul_le_mul
      _ ≤ maxAtomWork size := by rw [Nat.one_mul]; exact columns_le_maxAtomWork
  · have hclamp : clampCount n size.screenLines ≤ size.screenLines :=
      max_le (min_le_right _ _) hlines
    calc linesWeight size n ≤ satMul u64Max size.screenLines size.columns :=
          satMul_le_satMul_right hclamp _
      _ = cells size := by rw [cells, satMul, satMul, Nat.mul_comm]
      _ ≤ maxAtomWork size := cells_le_maxAtomWork

/-- Back-tabs apart, a callback is charged one atom at most. -/
theorem weight_le (call : Callback π) : weight size call ≤ max (maxAtomWork size) 1 := by
  have hcolumns : size.columns ≤ max (maxAtomWork size) 1 :=
    columns_le_maxAtomWork.trans (le_max_left _ _)
  cases call
  case plain | moveBackwardTabs => exact le_max_right _ _
  case eraseChars count =>
    exact max_le ((min_le_right _ _).trans hcolumns) (le_max_right _ _)
  case scrollUp n | deleteLines n | scrollDown n | insertBlankLines n =>
    exact (linesWeight_le_maxAtomWork n).trans (le_max_left _ _)
  case clearScreen | decaln => exact cells_le_maxAtomWork.trans (le_max_left _ _)
  case resetState => exact (weight_resetState_le (π := π)).trans (le_max_left _ _)
  all_goals exact hcolumns

/-- One callback costs one atom at most. -/
theorem Counting.work_dispatch_le (hgrid : H.OnGrid size) (inner : H.State) (call : Callback π) :
    ((Counting.new inner size : Counting H).dispatch call).work ≤ max (maxAtomWork size) 1 := by
  have hcharge (w : ℕ) : satAdd u64Max 0 w ≤ w := satAdd_le_add.trans (Nat.zero_add w).le
  cases call
  case moveBackwardTabs count =>
    have hloop := work_moveBackwardTabs_le (c := (Counting.new inner size).charge 1)
      hgrid.backward_le count
    have hcursor := hgrid.cursor_lt inner
    calc _ ≤ satAdd u64Max 0 1 + H.cursorColumn inner := hloop
      _ ≤ 1 + H.cursorColumn inner := Nat.add_le_add_right (hcharge 1) _
      _ ≤ size.columns := by omega
      _ ≤ _ := columns_le_maxAtomWork.trans (le_max_left _ _)
  all_goals exact (hcharge _).trans (weight_le _)

end Buzz.Desktop.Terminal
