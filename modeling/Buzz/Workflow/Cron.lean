import Mathlib.Order.Bounds.Basic
import Mathlib.Data.Int.ModEq
import Mathlib.Tactic.Ring
import Buzz.Library.Text

/-!
# Cron schedules and the scheduler's ticks

The scheduler loop of `crates/buzz-workflow/src/lib.rs` sleeps sixty seconds, works, and sleeps
again. At every tick `cron_fire_instant` looks for an instant of the schedule in the sixty seconds
that end now. Ticks drift, so consecutive windows do not touch: whatever the schedule has between a
tick and the start of the next window is never claimed.

Times are nanoseconds. The `cron` crate is a parameter, with the instants of a parsed schedule; that
`after(x).next()` is the first instant past `x` is an assumption. A parse error, and the workflow it
is about, are only logged.

## Main definitions

* `normalizeCron`, `cronFireInstant`.
* `CronCrate`, `CronCrate.Lawful`: the crate.

## Main results

* `cronFireInstant_eq_some_iff`: what a tick finds.
* `every_instant_fires_iff`: when ticks skip no instant.
-/

namespace Buzz.Workflow

open Buzz.Library

/-- Nanoseconds of so many seconds. -/
def seconds (n : ℤ) : ℤ := n * 1000000000

/-! ### The crate -/

/-- What the scheduler uses of the `cron` crate: the parser, the instants of a schedule, and
`schedule.after(x).next()`. -/
structure CronCrate where
  Schedule : Type
  parse : List Char → Option Schedule
  instants : Schedule → Set ℤ
  next : Schedule → ℤ → Option ℤ

/-- The next instant is the least one past a time. -/
def CronCrate.Lawful (cron : CronCrate) : Prop :=
  ∀ sched x t, cron.next sched x = some t ↔ IsLeast {u | u ∈ cron.instants sched ∧ x < u} t

/-- Normalize a cron expression to the seven fields that the crate requires. -/
def normalizeCron (expr : List Char) : List Char :=
  match (splitWhitespace expr).length with
  | 5 => "0 ".toList ++ expr ++ " *".toList
  | 6 => expr ++ " *".toList
  | _ => expr

variable (cron : CronCrate)

/-- The instant of the schedule within the window that ends now, if any. -/
def cronFireInstant (expr : List Char) (now windowSecs : ℤ) : Option ℤ :=
  match cron.parse (normalizeCron expr) with
  | some sched => (cron.next sched (now - seconds windowSecs)).filter fun t => t ≤ now
  | none => none

/-! ### One tick -/

variable {cron} {expr : List Char} {sched : cron.Schedule}

/-- A tick finds the first instant of its window. -/
theorem cronFireInstant_eq_some_iff (hlawful : cron.Lawful)
    (hparse : cron.parse (normalizeCron expr) = some sched) {now windowSecs t : ℤ} :
    cronFireInstant cron expr now windowSecs = some t ↔
      IsLeast {u | u ∈ cron.instants sched ∧ now - seconds windowSecs < u} t ∧ t ≤ now := by
  rw [cronFireInstant, hparse]
  simp only [Option.filter_eq_some_iff, decide_eq_true_eq]
  rw [hlawful]

/-- Two whole minutes in one window are the same. -/
theorem eq_of_minute_dvd {now s u : ℤ} (hs : seconds 60 ∣ s) (hu : seconds 60 ∣ u)
    (hsWindow : now - seconds 60 < s ∧ s ≤ now) (huWindow : now - seconds 60 < u ∧ u ≤ now) :
    s = u := by
  have hdvd : seconds 60 ∣ s - u := Int.dvd_sub hs hu
  have habs : |s - u| < seconds 60 := by
    rw [abs_lt]
    constructor
    · omega
    · omega
  exact sub_eq_zero.mp (Int.eq_zero_of_abs_lt_dvd hdvd habs)

/-- On a schedule of whole minutes, a tick finds exactly the instant in its window. -/
theorem cronFireInstant_eq_some_iff_window (hlawful : cron.Lawful)
    (hparse : cron.parse (normalizeCron expr) = some sched)
    (hminutes : ∀ s ∈ cron.instants sched, seconds 60 ∣ s) {now s : ℤ}
    (hs : s ∈ cron.instants sched) :
    cronFireInstant cron expr now 60 = some s ↔ now - seconds 60 < s ∧ s ≤ now := by
  rw [cronFireInstant_eq_some_iff hlawful hparse]
  constructor
  · rintro ⟨hleast, hle⟩
    exact ⟨hleast.1.2, hle⟩
  · rintro ⟨hlt, hle⟩
    refine ⟨⟨⟨hs, hlt⟩, ?_⟩, hle⟩
    rintro u ⟨hu, hwindow⟩
    by_contra hbefore
    have hwindow' : now - seconds 60 < u ∧ u ≤ now := ⟨hwindow, by omega⟩
    have heq := eq_of_minute_dvd (hminutes s hs) (hminutes u hu) ⟨hlt, hle⟩ hwindow'
    omega

/-! ### Ticks -/

section Ticks

variable {t : ℕ → ℤ} {n : ℕ}

/-- A time within the ticks lies between two consecutive ones. -/
theorem exists_between {s : ℤ} (hfirst : t 0 < s) (hlast : s ≤ t n) :
    ∃ i < n, t i < s ∧ s ≤ t (i + 1) := by
  induction n with
  | zero => omega
  | succ n ih =>
    by_cases hs : s ≤ t n
    · obtain ⟨i, hi, hbetween⟩ := ih hs
      exact ⟨i, hi.trans (Nat.lt_succ_self n), hbetween⟩
    · exact ⟨n, Nat.lt_succ_self n, not_le.mp hs, hlast⟩

theorem tick_le_tick (hgaps : ∀ i < n, seconds 60 ≤ t (i + 1) - t i) {i j : ℕ} (hij : i ≤ j)
    (hj : j ≤ n) : t i ≤ t j := by
  induction j with
  | zero =>
    rw [Nat.le_zero.mp hij]
  | succ j ih =>
    rcases Nat.le_succ_iff.mp hij with hle | rfl
    · have hprevious := ih hle (Nat.le_of_succ_le hj)
      have hgap := hgaps j hj
      simp only [seconds] at hgap
      omega
    · exact le_rfl

/-- An instant between two ticks can only be found by the later one. -/
theorem exists_fires_iff (hlawful : cron.Lawful)
    (hparse : cron.parse (normalizeCron expr) = some sched)
    (hminutes : ∀ s ∈ cron.instants sched, seconds 60 ∣ s)
    (hgaps : ∀ i < n, seconds 60 ≤ t (i + 1) - t i) {s : ℤ} (hs : s ∈ cron.instants sched) {i : ℕ}
    (hi : i < n) (hbetween : t i < s ∧ s ≤ t (i + 1)) :
    (∃ j ≤ n, cronFireInstant cron expr (t j) 60 = some s) ↔ t (i + 1) - seconds 60 < s := by
  simp only [cronFireInstant_eq_some_iff_window hlawful hparse hminutes hs]
  constructor
  · rintro ⟨j, hj, hlt, hle⟩
    rcases lt_or_ge i j with hij | hij
    · -- The window of a later tick starts no earlier.
      have hlater : t (i + 1) ≤ t j := tick_le_tick hgaps hij hj
      omega
    · have hearlier : t j ≤ t i := tick_le_tick hgaps hij hi.le
      omega
  · exact fun hlt => ⟨i + 1, hi, hlt, hbetween.2⟩

/-- Ticks at least sixty seconds apart find every instant between the first and the last, exactly
when no instant lies between a tick and the start of the window of the next one. -/
theorem every_instant_fires_iff (hlawful : cron.Lawful)
    (hparse : cron.parse (normalizeCron expr) = some sched)
    (hminutes : ∀ s ∈ cron.instants sched, seconds 60 ∣ s)
    (hgaps : ∀ i < n, seconds 60 ≤ t (i + 1) - t i) :
    (∀ s ∈ cron.instants sched, t 0 < s → s ≤ t n →
        ∃ i ≤ n, cronFireInstant cron expr (t i) 60 = some s) ↔
      ∀ i < n, ∀ s ∈ cron.instants sched, t i < s → t (i + 1) - seconds 60 < s := by
  constructor
  · intro hfires i hi s hs hlt
    by_contra hdrift
    have hle : s ≤ t (i + 1) := by
      simp only [seconds] at hdrift
      omega
    have hfirst : t 0 < s := (tick_le_tick hgaps (Nat.zero_le i) hi.le).trans_lt hlt
    have hlast : s ≤ t n := hle.trans (tick_le_tick hgaps hi le_rfl)
    exact hdrift ((exists_fires_iff hlawful hparse hminutes hgaps hs hi ⟨hlt, hle⟩).mp
      (hfires s hs hfirst hlast))
  · intro hnone s hs hfirst hlast
    obtain ⟨i, hi, hbetween⟩ := exists_between hfirst hlast
    exact (exists_fires_iff hlawful hparse hminutes hgaps hs hi hbetween).mpr
      (hnone i hi s hs hbetween.1)

end Ticks

/-! ### Periodic schedules -/

/-- A crate that knows one expression, of a schedule with a period and an offset. -/
def periodicCrate (text : List Char) (period offset : ℤ) : CronCrate where
  Schedule := Unit
  parse normalized := if normalized = text then some () else none
  instants _ := {s | period ∣ s - offset}
  next _ x := some (((x - offset) / period + 1) * period + offset)

theorem periodicCrate_lawful (text : List Char) {period offset : ℤ} (hperiod : 0 < period) :
    (periodicCrate text period offset).Lawful := by
  intro sched x t
  have hleast : IsLeast {u | period ∣ u - offset ∧ x < u}
      (((x - offset) / period + 1) * period + offset) := by
    have hdivision := Int.mul_ediv_add_emod (x - offset) period
    have hmod := Int.emod_lt_of_pos (x - offset) hperiod
    refine ⟨⟨⟨(x - offset) / period + 1, by ring⟩, ?_⟩, ?_⟩
    · rw [add_mul, one_mul, mul_comm]
      omega
    · rintro u ⟨⟨k, hk⟩, hu⟩
      -- The quotient of an instant past `x` exceeds that of `x`.
      have hquotient : (x - offset) / period < k := by
        refine Int.ediv_lt_of_lt_mul hperiod ?_
        rw [mul_comm, ← hk]
        omega
      have hmul : ((x - offset) / period + 1) * period ≤ k * period :=
        Int.mul_le_mul_of_nonneg_right hquotient hperiod.le
      rw [mul_comm k, ← hk] at hmul
      omega
  constructor
  · intro heq
    rw [← Option.some.inj heq]
    exact hleast
  · intro ht
    exact congrArg some (hleast.unique ht)

/-- Nine o'clock every day. -/
def nineDaily : CronCrate := periodicCrate "0 0 9 * * * *".toList (seconds 86400) (seconds 32400)

theorem nineDaily_minutes {s : ℤ} (h : s ∈ nineDaily.instants ()) : seconds 60 ∣ s := by
  obtain ⟨k, hk⟩ := h
  refine ⟨1440 * k + 540, ?_⟩
  simp only [seconds] at hk ⊢
  omega

/-- Ticks that do not drift. -/
def steadyTick (i : ℕ) : ℤ := seconds (60 * i)

/-- Ticks that do not drift skip no day. -/
theorem every_instant_fires_steadyTick :
    nineDaily.Lawful ∧ ∀ s ∈ nineDaily.instants (), steadyTick 0 < s → s ≤ steadyTick 14400 →
      ∃ i ≤ 14400, cronFireInstant nineDaily "0 9 * * *".toList (steadyTick i) 60 = some s := by
  have hlawful : nineDaily.Lawful := periodicCrate_lawful _ (by decide)
  have hparse : nineDaily.parse (normalizeCron "0 9 * * *".toList) = some () := rfl
  have hstep : ∀ i, steadyTick (i + 1) = steadyTick i + seconds 60 := by
    intro i
    simp only [steadyTick, seconds]
    omega
  refine ⟨hlawful,
    (every_instant_fires_iff hlawful hparse (fun s hs => nineDaily_minutes hs) ?_).mpr ?_⟩
  · intro i _
    rw [hstep]
    omega
  · intro i _ s _ hlt
    rw [hstep]
    omega

/-- A tick half a second before nine and the next one 60.7 seconds later skip nine o'clock. -/
theorem nine_skipped_by_drift :
    nineDaily.Lawful ∧ (∀ s ∈ nineDaily.instants (), seconds 60 ∣ s) ∧
      nineDaily.parse (normalizeCron "0 9 * * *".toList) = some () ∧
      seconds 32400 ∈ nineDaily.instants () ∧
      32399500000000 < seconds 32400 ∧ seconds 32400 ≤ 32460200000000 ∧
      seconds 60 ≤ 32460200000000 - 32399500000000 ∧
      32460200000000 - 32399500000000 ≤ seconds 61 ∧
      cronFireInstant nineDaily "0 9 * * *".toList 32399500000000 60 ≠ some (seconds 32400) ∧
      cronFireInstant nineDaily "0 9 * * *".toList 32460200000000 60 ≠ some (seconds 32400) := by
  refine ⟨periodicCrate_lawful _ (by decide), fun s => nineDaily_minutes, rfl, ⟨0, rfl⟩, by decide,
    by decide, by decide, by decide, by decide, by decide⟩

end Buzz.Workflow
