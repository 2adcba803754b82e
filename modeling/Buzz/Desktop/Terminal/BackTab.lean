import Mathlib.Logic.Function.Iterate
import Mathlib.Order.Bounds.Basic
import Buzz.Desktop.Terminal.Units

/-!
# Back-tabs

`Counting` calls `move_backward_tabs` of the handler with a count of `1` at a time, and stops at the
first call that leaves the cursor where it is; the handler itself would take the whole count. The
tab stops, like the handler, are a parameter.

## Main definitions

* `previousStop`, `backTabs`: a step to the left, and the loop of the handler.
* `Handler.TabStops`: a handler whose back-tabs are that loop.
* `Handler.recording`, `Counting.recorded`: a handler that keeps the calls it is given.

## Main results

* `previousStop_spec`: where a step leads.
* `Counting.column_moveBackwardTabs`: the loop that stops early ends on the same column.
* `Counting.length_moveBackwardTabs_le`: the calls that it makes.
* `back_tabs_stop_early`: both, and what is charged.
-/

namespace Buzz.Desktop.Terminal

open Buzz.Library

/-! ### The loop of the handler -/

/-- The first tab stop on the way left from column `i`, or `column` when there is none. -/
def scanLeft (tabs : ℕ → Bool) (column : ℕ) : ℕ → ℕ
  | 0 => column
  | i + 1 => if tabs i then i else scanLeft tabs column i

/-- Where one step leads. -/
def previousStop (tabs : ℕ → Bool) (column : ℕ) : ℕ := scanLeft tabs column column

/-- `count` steps, unless column `0` is reached before. -/
def backTabs (tabs : ℕ → Bool) : ℕ → ℕ → ℕ
  | 0, column => column
  | count + 1, column =>
    if column = 0 then column else backTabs tabs count (previousStop tabs column)

variable {tabs : ℕ → Bool} {column : ℕ}

theorem scanLeft_spec (tabs : ℕ → Bool) (column i : ℕ) :
    IsGreatest {j | j < i ∧ tabs j = true} (scanLeft tabs column i) ∨
      scanLeft tabs column i = column ∧ ∀ j < i, tabs j = false := by
  induction i with
  | zero => exact .inr ⟨rfl, fun j hj => absurd hj (Nat.not_lt_zero j)⟩
  | succ i ih =>
    rw [scanLeft]
    split_ifs with htab
    · exact .inl ⟨⟨Nat.lt_succ_self i, htab⟩, fun j hj => Nat.le_of_lt_succ hj.1⟩
    · have hlt : ∀ j < i + 1, tabs j = true → j < i := by
        intro j hj hstop
        rcases Nat.lt_succ_iff_lt_or_eq.mp hj with hj | rfl
        · exact hj
        · exact absurd hstop htab
      rcases ih with ⟨⟨hfound, hstop⟩, hgreatest⟩ | ⟨hstays, hnone⟩
      · exact .inl ⟨⟨Nat.lt_succ_of_lt hfound, hstop⟩,
          fun j hj => hgreatest ⟨hlt j hj.1 hj.2, hj.2⟩⟩
      · refine .inr ⟨hstays, fun j hj => Bool.eq_false_iff.mpr fun hstop => ?_⟩
        exact absurd (hnone j (hlt j hj hstop)) (by simp [hstop])

/-- A step leads to the greatest tab stop on the left, or nowhere when there is none. -/
theorem previousStop_spec (tabs : ℕ → Bool) (column : ℕ) :
    IsGreatest {j | j < column ∧ tabs j = true} (previousStop tabs column) ∨
      previousStop tabs column = column ∧ ∀ j < column, tabs j = false :=
  scanLeft_spec tabs column column

theorem previousStop_le (tabs : ℕ → Bool) (column : ℕ) : previousStop tabs column ≤ column := by
  rcases previousStop_spec tabs column with hstop | hstays
  · exact hstop.1.1.le
  · exact hstays.1.le

/-- Column `0` has nothing on its left, so the loop is an iteration. -/
theorem backTabs_eq_iterate (tabs : ℕ → Bool) (count column : ℕ) :
    backTabs tabs count column = (previousStop tabs)^[count] column := by
  induction count generalizing column with
  | zero => rfl
  | succ count ih =>
    rw [backTabs, Function.iterate_succ_apply]
    split_ifs with hzero
    · have hfix : previousStop tabs column = column := by rw [hzero]; rfl
      rw [hfix, Function.iterate_fixed hfix]
    · exact ih _

/-- Back-tabs of the handler follow its tab stops and leave them. -/
structure Handler.TabStops {π : Type} (H : Handler π) (tabs : H.State → ℕ → Bool) : Prop where
  column : ∀ s count, H.cursorColumn (H.call s (.moveBackwardTabs count)) =
    backTabs (tabs s) count (H.cursorColumn s)
  tabs : ∀ s count, tabs (H.call s (.moveBackwardTabs count)) = tabs s

/-! ### The loop that stops early -/

variable {π : Type} {H : Handler π} {tabs : H.State → ℕ → Bool}

namespace Counting

/-- One iteration of the loop: a call of the handler, and what it has scanned. -/
def stepBack (c : Counting H) : Counting H :=
  let before := H.cursorColumn c.inner
  let inner := H.call c.inner (.moveBackwardTabs 1)
  let after := H.cursorColumn inner
  { c with
    inner
    work := satAdd u64Max c.work (if after = before then before else before - after) }

theorem moveBackwardTabs_succ (c : Counting H) (count : ℕ) :
    c.moveBackwardTabs (count + 1) =
      if H.cursorColumn c.stepBack.inner = H.cursorColumn c.inner then c.stepBack
      else c.stepBack.moveBackwardTabs count := rfl

theorem column_stepBack (h : H.TabStops tabs) (c : Counting H) :
    H.cursorColumn c.stepBack.inner = previousStop (tabs c.inner) (H.cursorColumn c.inner) :=
  (h.column c.inner 1).trans (backTabs_eq_iterate _ 1 _)

theorem tabs_stepBack (h : H.TabStops tabs) (c : Counting H) :
    tabs c.stepBack.inner = tabs c.inner := h.tabs c.inner 1

/-- A fixed point is permanent, so the loop may stop at it. -/
theorem column_moveBackwardTabs (h : H.TabStops tabs) (c : Counting H) (count : ℕ) :
    H.cursorColumn (c.moveBackwardTabs count).inner =
      (previousStop (tabs c.inner))^[count] (H.cursorColumn c.inner) := by
  induction count generalizing c with
  | zero => rfl
  | succ count ih =>
    have hstep := column_stepBack h c
    rw [moveBackwardTabs_succ, Function.iterate_succ_apply]
    split_ifs with hfix
    · have hfixed : previousStop (tabs c.inner) (H.cursorColumn c.inner) =
          H.cursorColumn c.inner := hstep.symm.trans hfix
      rw [hfix, hfixed, Function.iterate_fixed hfixed]
    · rw [ih, tabs_stepBack h, hstep]

end Counting

/-! ### The calls that it makes -/

/-- The handler with the calls that it was given. -/
def Handler.recording (H : Handler π) : Handler π where
  State := H.State × List (Callback π)
  call s call := (H.call s.1 call, s.2 ++ [call])
  cursorColumn s := H.cursorColumn s.1

namespace Counting

/-- The same meter on a handler that records from now on. -/
def recorded (c : Counting H) : Counting H.recording := ⟨(c.inner, []), c.units, c.work, c.size⟩

/-- The meter without the record. -/
def unrecorded (c : Counting H.recording) : Counting H := ⟨c.inner.1, c.units, c.work, c.size⟩

theorem unrecorded_moveBackwardTabs (c : Counting H.recording) (count : ℕ) :
    (c.moveBackwardTabs count).unrecorded = c.unrecorded.moveBackwardTabs count := by
  induction count generalizing c with
  | zero => rfl
  | succ count ih =>
    rw [moveBackwardTabs_succ, apply_ite unrecorded, ih]
    rfl

/-- Recording changes nothing. -/
theorem unrecorded_dispatch (c : Counting H.recording) (call : Callback π) :
    (c.dispatch call).unrecorded = c.unrecorded.dispatch call := by
  cases call
  case moveBackwardTabs count => exact unrecorded_moveBackwardTabs (c.charge 1) count
  all_goals rfl

theorem length_stepBack (c : Counting H.recording) :
    c.stepBack.inner.2.length = c.inner.2.length + 1 := List.length_append

/-- Every call but the last moves the cursor to the left. -/
theorem length_moveBackwardTabs_le
    (hleft : ∀ s, H.cursorColumn (H.call s (.moveBackwardTabs 1)) ≤ H.cursorColumn s)
    (c : Counting H.recording) (count : ℕ) :
    (c.moveBackwardTabs count).inner.2.length ≤
      c.inner.2.length + H.cursorColumn c.inner.1 + 1 := by
  induction count generalizing c with
  | zero => exact (Nat.le_add_right _ _).trans (Nat.le_succ _)
  | succ count ih =>
    have hlength := length_stepBack c
    have hle : H.cursorColumn c.stepBack.inner.1 ≤ H.cursorColumn c.inner.1 := hleft c.inner.1
    rw [moveBackwardTabs_succ]
    split_ifs with hfix
    · omega
    · have hmoved : H.cursorColumn c.stepBack.inner.1 ≠ H.cursorColumn c.inner.1 := hfix
      have hrest := ih c.stepBack
      omega

end Counting

open Counting

theorem Handler.TabStops.backward_le (h : H.TabStops tabs) (s : H.State) :
    H.cursorColumn (H.call s (.moveBackwardTabs 1)) ≤ H.cursorColumn s := by
  rw [h.column, backTabs_eq_iterate]
  exact previousStop_le _ _

/-- **Back-tabs that stop early.** They end where the handler would with the whole count, after at
most one call for each column on the left and one more, and are charged within twice the columns. -/
theorem back_tabs_stop_early (h : H.TabStops tabs) (c : Counting H) (count : ℕ) :
    let start := H.cursorColumn c.inner
    let run := c.recorded.dispatch (.moveBackwardTabs count)
    run.unrecorded = c.dispatch (.moveBackwardTabs count) ∧
      H.cursorColumn run.unrecorded.inner =
        H.cursorColumn (H.call c.inner (.moveBackwardTabs count)) ∧
      run.inner.2.length ≤ start + 1 ∧ run.unrecorded.work ≤ c.work + (1 + 2 * start) := by
  intro start run
  have hrun : run.unrecorded = c.dispatch (.moveBackwardTabs count) :=
    unrecorded_dispatch c.recorded _
  have hlength : run.inner.2.length ≤ 0 + start + 1 :=
    length_moveBackwardTabs_le h.backward_le (c.recorded.charge 1) count
  have hwork : (c.dispatch (.moveBackwardTabs count)).work ≤ satAdd u64Max c.work 1 + start :=
    work_moveBackwardTabs_le h.backward_le count
  have hcharge : satAdd u64Max c.work 1 ≤ c.work + 1 := satAdd_le_add
  refine ⟨hrun, ?_, by omega, ?_⟩
  · rw [hrun, h.column, backTabs_eq_iterate]
    exact column_moveBackwardTabs h (c.charge 1) count
  · rw [hrun]
    omega

/-- A row, with its tab stops. -/
def tabRow : Handler Unit where
  State := ℕ × (ℕ → Bool)
  call s
    | .moveBackwardTabs count => (backTabs s.2 count s.1, s.2)
    | _ => s
  cursorColumn s := s.1

/-- A stop at every eighth column. -/
def everyEighth (column : ℕ) : Bool := column % 8 = 0

/-- From column `20`, over two stops to the start of the row. -/
theorem back_tabs_stop_early_row :
    let c : Counting tabRow := Counting.new (20, everyEighth) ⟨80, 24, 0⟩
    let run := c.recorded.dispatch (.moveBackwardTabs 65535)
    run.unrecorded = c.dispatch (.moveBackwardTabs 65535) ∧ run.unrecorded.inner.1 = 0 ∧
      run.inner.2.length ≤ 21 ∧ run.unrecorded.work ≤ 41 := by
  intro c run
  have htabs : tabRow.TabStops Prod.snd := ⟨fun _ _ => rfl, fun _ _ => rfl⟩
  obtain ⟨hrun, hcolumn, hlength, hwork⟩ := back_tabs_stop_early htabs c 65535
  exact ⟨hrun, hcolumn.trans (by decide), hlength, hwork⟩

end Buzz.Desktop.Terminal
