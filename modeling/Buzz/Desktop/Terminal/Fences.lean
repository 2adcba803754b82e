import Buzz.Library.Metering

/-!
# The fences of the terminal reader

The constants, the slice size and the counters of `buzz-terminal/src/fences.rs`. Work is a `u64`
that saturates, sizes and byte counts are natural numbers.

## Main definitions

* `sliceBytesRemaining`, `maxAtomWork`, `maxDrainWork`.
* `Fences`, `FenceStats`.

## Main results

* `sliceBytesRemaining_pos`, `sliceBytesRemaining_le_nextEscape`, `sliceBytesRemaining_escape`.
-/

namespace Buzz.Desktop.Terminal

open Buzz.Library

def u64Max : ℕ := 2 ^ 64 - 1

/-- `Size` of `lib.rs`. -/
structure Size where
  columns : ℕ
  screenLines : ℕ
  scrollback : ℕ
  deriving DecidableEq, Repr

def SYNC_CAP : ℕ := 65536

def OSC_BUDGET : ℕ := 262144

def WORK_BUDGET : ℕ := 250000

def MAX_SLICE : ℕ := 256

def TAIL_CAP : ℕ := 4194304

/-- `ESC`. -/
def ESC : UInt8 := 0x1b

variable {size : Size} {spent nextEscape : ℕ}

/-- RIS: both grids and the scrollback of the primary one. -/
def maxAtomWork (size : Size) : ℕ :=
  let bothGrids := satMul u64Max (satMul u64Max size.columns size.screenLines) 2
  let history := satMul u64Max size.scrollback size.columns
  max (satAdd u64Max bothGrids history) size.columns

def maxDrainWork (size : Size) : ℕ := satAdd u64Max WORK_BUDGET (maxAtomWork size)

/-- What a byte is metered at that no escape sequence precedes. -/
def plainPrice (size : Size) : ℕ := max size.columns 1

/-- `densest`: what a byte is metered at where an escape begins. -/
def densest (size : Size) : ℕ := max (maxAtomWork size / 2) 1

/-- `n.clamp(1, bound)`. -/
def clampSlice (n bound : ℕ) : ℕ := min (max n 1) bound

def sliceBytesRemaining (size : Size) (spent nextEscape : ℕ) : ℕ :=
  let remaining := WORK_BUDGET - spent
  if 0 < nextEscape then
    clampSlice (remaining / plainPrice size) (min nextEscape MAX_SLICE)
  else
    clampSlice (remaining / densest size) MAX_SLICE

theorem columns_le_maxAtomWork : size.columns ≤ maxAtomWork size := le_max_right _ _

theorem plainPrice_pos : 0 < plainPrice size := Nat.lt_of_lt_of_le Nat.one_pos (le_max_right _ _)

theorem clampSlice_pos {n bound : ℕ} (hbound : 0 < bound) : 0 < clampSlice n bound :=
  Nat.lt_min.mpr ⟨Nat.lt_of_lt_of_le Nat.one_pos (le_max_right _ _), hbound⟩

/-- A slice of more than a byte is no longer than what was asked for. -/
theorem clampSlice_le {n bound : ℕ} (h : 1 < clampSlice n bound) : clampSlice n bound ≤ n := by
  simp only [clampSlice] at h ⊢
  omega

theorem sliceBytesRemaining_pos : 0 < sliceBytesRemaining size spent nextEscape := by
  rw [sliceBytesRemaining]
  split_ifs with h
  · exact clampSlice_pos (Nat.lt_min.mpr ⟨h, by decide⟩)
  · exact clampSlice_pos (by decide)

theorem sliceBytesRemaining_le_maxSlice :
    sliceBytesRemaining size spent nextEscape ≤ MAX_SLICE := by
  rw [sliceBytesRemaining]
  split_ifs
  · exact (min_le_right _ _).trans (min_le_right _ _)
  · exact min_le_right _ _

/-- A slice of plain bytes stops at the next escape. -/
theorem sliceBytesRemaining_le_nextEscape (h : 0 < nextEscape) :
    sliceBytesRemaining size spent nextEscape ≤ nextEscape := by
  rw [sliceBytesRemaining, if_pos h]
  exact (min_le_right _ _).trans (min_le_left _ _)

theorem sliceBytesRemaining_plain (h : 0 < nextEscape)
    (hwide : 1 < sliceBytesRemaining size spent nextEscape) :
    sliceBytesRemaining size spent nextEscape * plainPrice size ≤ WORK_BUDGET - spent := by
  rw [sliceBytesRemaining, if_pos h] at hwide ⊢
  exact (Nat.mul_le_mul_right _ (clampSlice_le hwide)).trans (Nat.div_mul_le_self _ _)

theorem sliceBytesRemaining_escape (hwide : 1 < sliceBytesRemaining size spent 0) :
    sliceBytesRemaining size spent 0 * densest size ≤ WORK_BUDGET - spent := by
  rw [sliceBytesRemaining, if_neg (Nat.lt_irrefl 0)] at hwide ⊢
  exact (Nat.mul_le_mul_right _ (clampSlice_le hwide)).trans (Nat.div_mul_le_self _ _)

/-- Which fences are active. -/
structure Fences where
  syncAbort : Bool
  oscBudget : Bool
  deriving DecidableEq, Repr

structure FenceStats where
  syncAborts : ℕ
  maxRelease : ℕ
  oscResets : ℕ
  chargedBytes : ℕ
  completedUnits : ℕ
  completedWork : ℕ
  maxPending : ℕ
  tailBreaches : ℕ
  abandonedBytes : ℕ
  deriving DecidableEq, Repr

/-- `FenceStats::default()`. -/
def FenceStats.zero : FenceStats := ⟨0, 0, 0, 0, 0, 0, 0, 0, 0⟩

end Buzz.Desktop.Terminal
