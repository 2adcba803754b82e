import Mathlib.Data.List.Pairwise
import Mathlib.Logic.Function.Basic
import Mathlib.Logic.Relation
import Buzz.Core.Filter
import Buzz.Library.HashMap
import Buzz.Library.Numerals
import Buzz.Workflow.Cron

/-!
# Interval workflows across pods and restarts

Every pod of a relay runs the scheduler loop of `crates/buzz-workflow/src/lib.rs`. For an interval
workflow a tick takes an anchor, the tick at which this pod fired last or else the greatest claimed
instant in the database; it goes on when an interval has passed since the anchor, and claims the
start of the current interval of the epoch. The first claim of an instant wins and creates a run.

A claimed instant is up to an interval older than the tick that claimed it. So the anchor that a pod
reads after a restart, or an anchor of its own that is older than what another pod fired, lets a
tick go on too early.

Times are nanoseconds of one clock. A pod does one thing after another, and the pods interleave in
any order. The other triggers of a tick, and the execution of a run, are left out.

## Main definitions

* `parseDurationSecs`, `intervalFireInstant`, `intervalShouldFire`, `intervalPrefilterShouldFire`.
* `Pod`, `World`, `Event`, `World.step`: pods that tick, claim, create runs and restart.
* `World.Fresh`: the anchor of a claim is no older than the fires before it.

## Main results

* `Spaced.step`: one event.
* `runs_spaced`: runs of a workflow are an interval apart while anchors are fresh.
* `restart_fires_early`: after a restart they are not.
-/

namespace Buzz.Workflow

open Buzz.Library Relation
open Buzz.Core (CommunityId Uuid)

/-! ### Durations -/

/-- The errors of a duration text; both carry the trimmed text. -/
inductive DurationError
  | invalid (duration : List Char)
  | overflow (duration : List Char)
  deriving DecidableEq

/-- `trim`: the text without white space at its ends. -/
def trim (text : List Char) : List Char :=
  ((text.dropWhile isWhitespace).reverse.dropWhile isWhitespace).reverse

/-- `strip_suffix` of one character. -/
def stripSuffix (c : Char) (text : List Char) : Option (List Char) :=
  if text.getLast? = some c then some text.dropLast else none

/-- A number of units, in seconds. -/
def parseUnits (unit : ℕ) (duration n : List Char) : Except DurationError ℕ :=
  match parseUnsigned (2 ^ 64) (trim n) with
  | some count => if count * unit < 2 ^ 64 then .ok (count * unit) else .error (.overflow duration)
  | none => .error (.invalid duration)

/-- Parse a duration text such as `5m`, `1h` or `30s` into seconds. A plain number is one of
seconds. -/
def parseDurationSecs (text : List Char) : Except DurationError ℕ :=
  let duration := trim text
  match stripSuffix 'h' duration with
  | some n => parseUnits 3600 duration n
  | none =>
    match stripSuffix 'm' duration with
    | some n => parseUnits 60 duration n
    | none =>
      match stripSuffix 's' duration with
      | some n => parseUnits 1 duration n
      | none =>
        match parseUnsigned (2 ^ 64) duration with
        | some count => .ok count
        | none => .error (.invalid duration)

example : parseDurationSecs " 1h".toList = .ok 3600 := by decide

/-! ### Instants -/

/-- Whole seconds since the epoch. -/
def timestamp (t : ℤ) : ℤ := t / seconds 1

/-- `DateTime::from_timestamp` of whole seconds, within the range of dates. -/
def fromTimestamp (secs : ℤ) : Option ℤ :=
  if -8334601228800 ≤ secs ∧ secs ≤ 8210266876799 then some (seconds secs) else none

/-- Quantize a time to the start of its interval since the epoch. The length of the interval is
cast to 64 signed bits. -/
def intervalFireInstant (dur : List Char) (now : ℤ) : Option ℤ :=
  match parseDurationSecs dur with
  | .ok intervalSecs =>
    if 0 < intervalSecs then
      let secs := (intervalSecs : ℤ).bmod (2 ^ 64)
      fromTimestamp (timestamp now / secs * secs)
    else none
  | .error _ => none

/-- Whether an interval has passed since the last fire. Without one, the last fire is now. -/
def intervalShouldFire (dur : List Char) (lastFired : Option ℤ) (now : ℤ) : Bool :=
  match parseDurationSecs dur with
  | .ok intervalSecs => intervalSecs ≤ ((now - lastFired.getD now).tdiv (seconds 1)).natAbs
  | .error _ => false

/-- A workflow, of a community. -/
abbrev Key := CommunityId × Uuid

/-- The decision of a tick, and the seed of an anchor where there is none. -/
def intervalPrefilterShouldFire (lastFired : HashMap Key ℤ) (key : Key) (dur : List Char)
    (last : Option ℤ) (now : ℤ) : Bool × HashMap Key ℤ :=
  if intervalShouldFire dur last now then (true, lastFired)
  else
    match last with
    | none => (false, lastFired.insert key now)
    | some _ => (false, lastFired)

/-! ### Pods -/

/-- How far a tick has come with a workflow. -/
inductive Stage
  | idle
  /-- An interval has passed since the anchor; the instant is to be claimed. -/
  | due (key : Key) (last : Option ℤ) (scheduledFor : ℤ)
  /-- The claim is won; the run is to be created. -/
  | won (key : Key)
  deriving DecidableEq

/-- A pod, with the anchors in its memory and the time of its current tick. -/
structure Pod where
  lastFired : HashMap Key ℤ
  now : ℤ
  stage : Stage

/-- What came of an answer of the database. -/
inductive Reply
  | ok
  /-- An error, and nothing is written. -/
  | failed
  /-- An error, but it is written. -/
  | lost
  deriving DecidableEq

/-- The clock, the claimed instants, the pods, and the runs with the ticks that created them. -/
structure World (PodId : Type) where
  clock : ℤ
  fires : List (Key × ℤ)
  pods : PodId → Pod
  runs : List (Key × ℤ)

variable {PodId : Type}

/-- Pods that have just started, and an empty table. -/
def World.start (clock : ℤ) : World PodId := ⟨clock, [], fun _ => ⟨∅, clock, .idle⟩, []⟩

/-- `latest_scheduled_workflow_fire`: the greatest claimed instant. -/
def latestScheduledWorkflowFire (fires : List (Key × ℤ)) (key : Key) : Option ℤ :=
  ((fires.filter fun f => f.1 = key).map Prod.snd).max?

/-- What happens in one of the pods, or to the clock. -/
inductive Event (PodId : Type)
  | clock (t : ℤ)
  /-- A tick begins. -/
  | tick (p : PodId)
  /-- It comes to a workflow. The anchor is read in the database, if need be and possible. -/
  | schedule (p : PodId) (key : Key) (readable : Bool)
  /-- The owner of the workflow has no authority. -/
  | unauthorized (p : PodId)
  /-- It claims the instant, of a workflow that still exists or not. -/
  | claim (p : PodId) (known : Bool) (reply : Reply)
  | createRun (p : PodId) (reply : Reply)
  /-- The anchors of workflows that are not active any more go at the end of a tick. -/
  | prune (p : PodId) (active : Key → Bool)
  | restart (p : PodId)

namespace World

variable [DecidableEq PodId]

def setPod (w : World PodId) (p : PodId) (pod : Pod) : World PodId :=
  { w with pods := Function.update w.pods p pod }

/-- A tick comes to a workflow. -/
def schedule (dur : Key → List Char) (w : World PodId) (p : PodId) (key : Key) (readable : Bool) :
    World PodId :=
  let pod := w.pods p
  let last :=
    match pod.lastFired.lookup key with
    | some t => some t
    | none => if readable then latestScheduledWorkflowFire w.fires key else none
  match intervalPrefilterShouldFire pod.lastFired key (dur key) last pod.now with
  | (false, lastFired) => w.setPod p { pod with lastFired := lastFired }
  | (true, lastFired) =>
    match intervalFireInstant (dur key) pod.now with
    | some instant => w.setPod p { pod with lastFired := lastFired, stage := .due key last instant }
    | none => w.setPod p { pod with lastFired := lastFired }

/-- `claim_scheduled_workflow_fire`: the first claim of an instant wins. The loser moves its anchor
to the tick all the same. -/
def claim (w : World PodId) (p : PodId) (key : Key) (scheduledFor : ℤ) (known : Bool) :
    Reply → World PodId
  | .failed => w.setPod p { w.pods p with stage := .idle }
  | reply =>
    let pod := w.pods p
    if known ∧ (key, scheduledFor) ∉ w.fires then
      { w with fires := w.fires ++ [(key, scheduledFor)] }.setPod p
        { pod with stage := if reply = Reply.ok then .won key else .idle }
    else
      w.setPod p
        { pod with
          lastFired := if reply = Reply.ok then pod.lastFired.insert key pod.now else pod.lastFired
          stage := .idle }

/-- Create the run of a claim. Only an answer moves the anchor. -/
def createRun (w : World PodId) (p : PodId) (key : Key) : Reply → World PodId
  | .failed => w.setPod p { w.pods p with stage := .idle }
  | reply =>
    let pod := w.pods p
    { w with runs := w.runs ++ [(key, pod.now)] }.setPod p
      { pod with
        lastFired := if reply = Reply.ok then pod.lastFired.insert key pod.now else pod.lastFired
        stage := .idle }

/-- One event, where it can happen. The texts of the intervals are given. -/
def step (dur : Key → List Char) (w : World PodId) : Event PodId → Option (World PodId)
  | .clock t => if w.clock ≤ t then some { w with clock := t } else none
  | .tick p =>
    if (w.pods p).stage = .idle then some (w.setPod p { w.pods p with now := w.clock }) else none
  | .schedule p key readable =>
    if (w.pods p).stage = .idle then some (w.schedule dur p key readable) else none
  | .unauthorized p =>
    match (w.pods p).stage with
    | .due _ _ _ => some (w.setPod p { w.pods p with stage := .idle })
    | _ => none
  | .claim p known reply =>
    match (w.pods p).stage with
    | .due key _ scheduledFor => some (w.claim p key scheduledFor known reply)
    | _ => none
  | .createRun p reply =>
    match (w.pods p).stage with
    | .won key => some (w.createRun p key reply)
    | _ => none
  | .prune p active =>
    if (w.pods p).stage = .idle then
      some (w.setPod p
        { w.pods p with lastFired := (w.pods p).lastFired.retain fun key _ => active key })
    else none
  | .restart p => some (w.setPod p { w.pods p with lastFired := ∅, stage := .idle })

end World

/-! ### Fresh anchors -/

namespace World

/-- A workflow has fired at a tick: its run is created, or about to be. -/
def Fired (w : World PodId) (key : Key) (t : ℤ) : Prop :=
  (key, t) ∈ w.runs ∨ ∃ p, (w.pods p).stage = .won key ∧ (w.pods p).now = t

/-- A claim that wins measured its interval from an anchor that is no older than the ticks at which
the workflow fired before, and no later than its own tick. -/
def Fresh (w : World PodId) : Event PodId → Prop
  | .claim p known .ok => ∀ key last scheduledFor, (w.pods p).stage = .due key last scheduledFor →
      known → (key, scheduledFor) ∉ w.fires →
      ∀ anchor ∈ last, anchor ≤ (w.pods p).now ∧ ∀ t, w.Fired key t → t ≤ anchor
  | _ => True

end World

/-- Two fires of one workflow are an interval apart. -/
def Apart (dur : Key → List Char) (f g : Key × ℤ) : Prop :=
  f.1 = g.1 → ∀ intervalSecs, parseDurationSecs (dur f.1) = .ok intervalSecs →
    seconds intervalSecs ≤ |f.2 - g.2|

/-- The fires of every workflow are an interval apart, and a tick that is due is an interval past
its anchor. -/
structure Spaced (dur : Key → List Char) (w : World PodId) : Prop where
  due : ∀ p key last scheduledFor, (w.pods p).stage = .due key last scheduledFor →
    ∃ anchor, last = some anchor ∧ Apart dur (key, (w.pods p).now) (key, anchor)
  runs : w.runs.Pairwise (Apart dur)
  won : ∀ p key, (w.pods p).stage = .won key → ∀ r ∈ w.runs, Apart dur r (key, (w.pods p).now)
  wonWon : ∀ p q key, p ≠ q → (w.pods p).stage = .won key → (w.pods q).stage = .won key →
    Apart dur (key, (w.pods p).now) (key, (w.pods q).now)

/-! ### One event -/

theorem Apart.symm {dur : Key → List Char} {f g : Key × ℤ} (h : Apart dur f g) :
    Apart dur g f := by
  intro hkey intervalSecs hparse
  rw [abs_sub_comm]
  exact h hkey.symm intervalSecs (hkey ▸ hparse)

/-- The prefilter lets a tick through an interval past its anchor. -/
theorem apart_of_shouldFire {dur : Key → List Char} {key : Key} {anchor now : ℤ}
    (h : intervalShouldFire (dur key) (some anchor) now = true) :
    Apart dur (key, now) (key, anchor) := by
  intro _ intervalSecs hparse
  simp only at hparse
  simp only [intervalShouldFire, hparse, Option.getD_some, decide_eq_true_eq,
    Int.natAbs_tdiv] at h
  have hmul := (Nat.le_div_iff_mul_le (by decide)).mp h
  have habs : |now - anchor| = ((now - anchor).natAbs : ℤ) := Int.abs_eq_natAbs _
  have hsecs : (seconds 1).natAbs = 1000000000 := rfl
  rw [hsecs] at hmul
  simp only [seconds]
  omega

/-- Without an anchor, no tick gets to an instant. -/
theorem intervalFireInstant_eq_none {dur : List Char} {now : ℤ}
    (h : intervalShouldFire dur none now = true) : intervalFireInstant dur now = none := by
  unfold intervalShouldFire at h
  unfold intervalFireInstant
  cases hparse : parseDurationSecs dur with
  | error e => rfl
  | ok intervalSecs =>
    simp only [hparse, Option.getD_none, sub_self] at h
    have hzero : intervalSecs = 0 := by simpa using h
    simp [hzero]

theorem intervalPrefilterShouldFire_fst (lastFired : HashMap Key ℤ) (key : Key) (dur : List Char)
    (last : Option ℤ) (now : ℤ) :
    (intervalPrefilterShouldFire lastFired key dur last now).1 =
      intervalShouldFire dur last now := by
  unfold intervalPrefilterShouldFire
  split_ifs with h
  · exact h.symm
  · cases last <;> simpa using h

variable [DecidableEq PodId] {dur : Key → List Char} {w w' : World PodId} {p : PodId}

theorem setPod_self (w : World PodId) (p : PodId) (pod : Pod) : (w.setPod p pod).pods p = pod :=
  Function.update_self _ _ _

theorem setPod_of_ne {q : PodId} (h : q ≠ p) (w : World PodId) (pod : Pod) :
    (w.setPod p pod).pods q = w.pods q :=
  Function.update_of_ne h _ _

/-- A pod that stops at no workflow keeps the others where they are. -/
theorem Spaced.park (h : Spaced dur w) {pod : Pod} (hpod : pod.stage = .idle) :
    Spaced dur (w.setPod p pod) := by
  have hstage {q : PodId} (hq : ((w.setPod p pod).pods q).stage ≠ .idle) :
      (w.setPod p pod).pods q = w.pods q := by
    by_cases hqp : q = p
    · subst hqp
      rw [setPod_self] at hq
      exact absurd hpod hq
    · exact setPod_of_ne hqp w pod
  refine ⟨fun q key last scheduledFor hdue => ?_, h.runs, fun q key hwon => ?_,
    fun q q' key hne hwon hwon' => ?_⟩
  · have hsame := hstage (q := q) (by rw [hdue]; simp)
    rw [hsame] at hdue ⊢
    exact h.due q key last scheduledFor hdue
  · have hsame := hstage (q := q) (by rw [hwon]; simp)
    rw [hsame] at hwon ⊢
    exact h.won q key hwon
  · have hsame := hstage (q := q) (by rw [hwon]; simp)
    have hsame' := hstage (q := q') (by rw [hwon']; simp)
    rw [hsame] at hwon ⊢
    rw [hsame'] at hwon' ⊢
    exact h.wonWon q q' key hne hwon hwon'

/-- A pod that is due is an interval past its anchor, and the others stay where they are. -/
theorem Spaced.setDue (h : Spaced dur w) {pod : Pod} {key : Key} {anchor scheduledFor : ℤ}
    (hpod : pod.stage = .due key (some anchor) scheduledFor)
    (hapart : Apart dur (key, pod.now) (key, anchor)) : Spaced dur (w.setPod p pod) := by
  have hwonOf {q : PodId} {k : Key} (hq : ((w.setPod p pod).pods q).stage = .won k) :
      (w.setPod p pod).pods q = w.pods q := by
    by_cases hqp : q = p
    · subst hqp
      rw [setPod_self, hpod] at hq
      cases hq
    · exact setPod_of_ne hqp w pod
  refine ⟨fun q key' last scheduledFor' hdue => ?_, h.runs, fun q k hwon => ?_,
    fun q q' k hne hwon hwon' => ?_⟩
  · by_cases hqp : q = p
    · subst hqp
      rw [setPod_self] at hdue ⊢
      rw [hpod] at hdue
      cases hdue
      exact ⟨anchor, rfl, hapart⟩
    · rw [setPod_of_ne hqp] at hdue ⊢
      exact h.due q key' last scheduledFor' hdue
  · have hsame := hwonOf hwon
    rw [hsame] at hwon ⊢
    exact h.won q k hwon
  · have hsame := hwonOf hwon
    have hsame' := hwonOf hwon'
    rw [hsame] at hwon ⊢
    rw [hsame'] at hwon' ⊢
    exact h.wonWon q q' k hne hwon hwon'

theorem Spaced.schedule (h : Spaced dur w) (hidle : (w.pods p).stage = .idle) (key : Key)
    (readable : Bool) : Spaced dur (w.schedule dur p key readable) := by
  unfold World.schedule
  extract_lets pod last
  have hfst := intervalPrefilterShouldFire_fst pod.lastFired key (dur key) last pod.now
  cases hfilter : intervalPrefilterShouldFire pod.lastFired key (dur key) last pod.now with
  | mk fire lastFired =>
    rw [hfilter] at hfst
    cases fire with
    | false => exact h.park hidle
    | true =>
      dsimp only
      cases hlast : last with
      | none =>
        rw [hlast] at hfst
        rw [intervalFireInstant_eq_none hfst.symm]
        exact h.park hidle
      | some anchor =>
        rw [hlast] at hfst
        cases intervalFireInstant (dur key) pod.now with
        | none => exact h.park hidle
        | some instant => exact h.setDue rfl (apart_of_shouldFire hfst.symm)

/-- Fires before a fresh anchor are an interval before the tick. -/
theorem apart_of_fresh {key : Key} {anchor now t : ℤ}
    (hapart : Apart dur (key, now) (key, anchor)) (hanchor : anchor ≤ now) (ht : t ≤ anchor) :
    Apart dur (key, t) (key, now) := by
  intro _ intervalSecs hparse
  have := hapart rfl intervalSecs hparse
  simp only at this ⊢
  rw [abs_of_nonneg (by omega)] at this
  rw [abs_sub_comm, abs_of_nonneg (by omega)]
  omega

/-- A claim that wins on a fresh anchor is an interval past every fire. -/
theorem Spaced.setWon (h : Spaced dur w) {key : Key} {anchor : ℤ} {pod : Pod}
    (hpod : pod.stage = .won key) (hapart : Apart dur (key, pod.now) (key, anchor))
    (hanchor : anchor ≤ pod.now) (hfresh : ∀ t, w.Fired key t → t ≤ anchor)
    (fires : List (Key × ℤ)) : Spaced dur (({ w with fires := fires }).setPod p pod) := by
  have hfired {t : ℤ} (ht : w.Fired key t) : Apart dur (key, t) (key, pod.now) :=
    apart_of_fresh hapart hanchor (hfresh t ht)
  refine ⟨fun q key' last scheduledFor' hdue => ?_, h.runs, fun q k hwon r hr => ?_,
    fun q q' k hne hwon hwon' => ?_⟩
  · by_cases hqp : q = p
    · subst hqp
      rw [setPod_self, hpod] at hdue
      cases hdue
    · rw [setPod_of_ne hqp] at hdue ⊢
      exact h.due q key' last scheduledFor' hdue
  · by_cases hqp : q = p
    · subst hqp
      rw [setPod_self] at hwon ⊢
      obtain rfl : key = k := by simpa [hpod] using hwon
      by_cases hkey : r.1 = key
      · subst hkey
        exact hfired (.inl hr)
      · exact fun hr' => absurd hr' hkey
    · rw [setPod_of_ne hqp] at hwon ⊢
      exact h.won q k hwon r hr
  · by_cases hqp : q = p
    · subst hqp
      rw [setPod_self] at hwon ⊢
      rw [setPod_of_ne (Ne.symm hne)] at hwon' ⊢
      obtain rfl : key = k := by simpa [hpod] using hwon
      exact (hfired (.inr ⟨q', hwon', rfl⟩)).symm
    · rw [setPod_of_ne hqp] at hwon ⊢
      by_cases hqp' : q' = p
      · subst hqp'
        rw [setPod_self] at hwon' ⊢
        obtain rfl : key = k := by simpa [hpod] using hwon'
        exact hfired (.inr ⟨q, hwon, rfl⟩)
      · rw [setPod_of_ne hqp'] at hwon' ⊢
        exact h.wonWon q q' k hne hwon hwon'

theorem Spaced.claim (h : Spaced dur w) {key : Key} {last : Option ℤ} {scheduledFor : ℤ}
    (hdue : (w.pods p).stage = .due key last scheduledFor) (known : Bool) (reply : Reply)
    (hfresh : w.Fresh (.claim p known reply)) :
    Spaced dur (w.claim p key scheduledFor known reply) := by
  obtain ⟨anchor, rfl, hapart⟩ := h.due p key last scheduledFor hdue
  have hpark (fires : List (Key × ℤ)) : Spaced dur { w with fires := fires } :=
    ⟨h.due, h.runs, h.won, h.wonWon⟩
  cases reply with
  | failed => exact h.park rfl
  | lost =>
    unfold World.claim
    dsimp only
    split
    · exact (hpark _).park rfl
    · exact h.park rfl
  | ok =>
    unfold World.claim
    dsimp only
    by_cases hwins : known = true ∧ (key, scheduledFor) ∉ w.fires
    · rw [if_pos hwins]
      obtain ⟨hanchor, hbefore⟩ :=
        hfresh key (some anchor) scheduledFor hdue hwins.1 hwins.2 anchor rfl
      apply h.setWon rfl
      exacts [hapart, hanchor, hbefore]
    · rw [if_neg hwins]
      exact h.park rfl

/-- The run of a claim takes the place of the claim. -/
theorem Spaced.createRun (h : Spaced dur w) {key : Key} (hwon : (w.pods p).stage = .won key)
    (reply : Reply) : Spaced dur (w.createRun p key reply) := by
  have hcreate {pod : Pod} (hpod : pod.stage = .idle) :
      Spaced dur (({ w with runs := w.runs ++ [(key, (w.pods p).now)] }).setPod p pod) := by
    have hsame {q : PodId} (hq : (((({ w with runs := w.runs ++ [(key, (w.pods p).now)] } :
        World PodId).setPod p pod).pods q).stage) ≠ .idle) : q ≠ p := by
      rintro rfl
      rw [setPod_self] at hq
      exact hq hpod
    refine ⟨fun q key' last scheduledFor hdue => ?_, ?_, fun q k hq r hr => ?_,
      fun q q' k hne hq hq' => ?_⟩
    · have hqp := hsame (q := q) (by rw [hdue]; simp)
      rw [setPod_of_ne hqp] at hdue ⊢
      exact h.due q key' last scheduledFor hdue
    · refine List.pairwise_append.mpr ⟨h.runs, List.pairwise_singleton _ _, fun r hr r' hr' => ?_⟩
      obtain rfl := List.mem_singleton.mp hr'
      exact h.won p key hwon r hr
    · have hqp := hsame (q := q) (by rw [hq]; simp)
      rw [setPod_of_ne hqp] at hq ⊢
      rcases List.mem_append.mp hr with hr | hr
      · exact h.won q k hq r hr
      · obtain rfl := List.mem_singleton.mp hr
        rintro rfl
        exact h.wonWon p q key (Ne.symm hqp) hwon hq rfl
    · have hqp := hsame (q := q) (by rw [hq]; simp)
      have hqp' := hsame (q := q') (by rw [hq']; simp)
      rw [setPod_of_ne hqp] at hq ⊢
      rw [setPod_of_ne hqp'] at hq' ⊢
      exact h.wonWon q q' k hne hq hq'
  cases reply with
  | failed => exact h.park rfl
  | lost => exact hcreate rfl
  | ok => exact hcreate rfl

/-- One event keeps the fires of every workflow apart, if the claim that it may win is fresh. -/
theorem Spaced.step (h : Spaced dur w) {e : Event PodId} (hfresh : w.Fresh e)
    (hstep : w.step dur e = some w') : Spaced dur w' := by
  unfold World.step at hstep
  cases e with
  | clock t =>
    dsimp only at hstep
    split_ifs at hstep
    cases hstep
    exact ⟨h.due, h.runs, h.won, h.wonWon⟩
  | tick p =>
    dsimp only at hstep
    split_ifs at hstep with hidle
    cases hstep
    exact h.park hidle
  | schedule p key readable =>
    dsimp only at hstep
    split_ifs at hstep with hidle
    cases hstep
    exact h.schedule hidle key readable
  | unauthorized p =>
    cases hstage : (w.pods p).stage with
    | due key last scheduledFor =>
      simp only [hstage, Option.some.injEq] at hstep
      subst hstep
      exact h.park rfl
    | _ => simp [hstage] at hstep
  | claim p known reply =>
    cases hstage : (w.pods p).stage with
    | due key last scheduledFor =>
      simp only [hstage, Option.some.injEq] at hstep
      subst hstep
      exact h.claim hstage known reply hfresh
    | _ => simp [hstage] at hstep
  | createRun p reply =>
    cases hstage : (w.pods p).stage with
    | won key =>
      simp only [hstage, Option.some.injEq] at hstep
      subst hstep
      exact h.createRun hstage reply
    | _ => simp [hstage] at hstep
  | prune p active =>
    dsimp only at hstep
    split_ifs at hstep with hidle
    cases hstep
    exact h.park hidle
  | restart p =>
    cases hstep
    exact h.park rfl

/-! ### Runs -/

/-- A step whose claim, if any, is fresh. -/
def FreshStep (dur : Key → List Char) (w w' : World PodId) : Prop :=
  ∃ e, w.Fresh e ∧ w.step dur e = some w'

omit [DecidableEq PodId] in
theorem spaced_start (dur : Key → List Char) (clock : ℤ) :
    Spaced dur (World.start clock : World PodId) where
  due := by rintro p key last scheduledFor ⟨⟩
  runs := .nil
  won := by rintro p key ⟨⟩
  wonWon := by rintro p q key _ ⟨⟩

/-- While every claim that wins measured its interval from a fresh anchor, any two runs of a
workflow are created at ticks that are an interval apart. -/
theorem runs_spaced {clock : ℤ} (h : ReflTransGen (FreshStep dur) (World.start clock) w) :
    w.runs.Pairwise (Apart dur) := by
  have hspaced : Spaced dur w := by
    induction h with
    | refl => exact spaced_start dur clock
    | tail _ hstep ih =>
      obtain ⟨e, hfresh, hstep⟩ := hstep
      exact ih.step hfresh hstep
  exact hspaced.runs

/-! ### One hourly workflow of one pod -/

/-- Every workflow runs once an hour. -/
def hourly : Key → List Char := fun _ => "1h".toList

/-- A tick at a time, up to its claim. -/
def tickAt (t : ℤ) (key : Key) : List (Event Unit) :=
  [.clock t, .tick (), .schedule () key true]

/-- The claim of a tick, and the run that it creates. -/
def fire : List (Event Unit) := [.claim () true .ok, .createRun () .ok]

/-- An anchor that is no older than the runs is fresh for the only pod. -/
theorem fresh_of_runs {w : World Unit} {key : Key} {anchor scheduledFor : ℤ}
    (hdue : (w.pods ()).stage = .due key (some anchor) scheduledFor)
    (hanchor : anchor ≤ (w.pods ()).now) (hruns : ∀ r ∈ w.runs, r.2 ≤ anchor) (known : Bool) :
    w.Fresh (.claim () known .ok) := by
  intro key' last scheduledFor' hdue' _ _ anchor' hlast
  rw [hdue] at hdue'
  cases hdue'
  cases hlast
  refine ⟨hanchor, fun t ht => ?_⟩
  rcases ht with hrun | ⟨q, hwon, -⟩
  · exact hruns _ hrun
  · rw [hdue] at hwon
    cases hwon

theorem freshSteps_tickAt {w w' : World Unit} (t : ℤ) (key : Key)
    (hrun : (tickAt t key).foldlM (World.step hourly) w = some w') :
    ReflTransGen (FreshStep hourly) w w' := by
  simp only [tickAt, List.foldlM_cons, List.foldlM_nil, Option.bind_eq_bind,
    Option.bind_eq_some_iff, Option.pure_def] at hrun
  obtain ⟨w₁, hclock, w₂, htick, w₃, hschedule, ⟨⟩⟩ := hrun
  exact ((ReflTransGen.single ⟨.clock t, trivial, hclock⟩).tail ⟨.tick (), trivial, htick⟩).tail
    ⟨.schedule () key true, trivial, hschedule⟩

theorem freshSteps_fire {w w' : World Unit} {key : Key} {anchor scheduledFor : ℤ}
    (hrun : fire.foldlM (World.step hourly) w = some w')
    (hdue : (w.pods ()).stage = .due key (some anchor) scheduledFor)
    (hanchor : anchor ≤ (w.pods ()).now) (hruns : ∀ r ∈ w.runs, r.2 ≤ anchor) :
    ReflTransGen (FreshStep hourly) w w' := by
  simp only [fire, List.foldlM_cons, List.foldlM_nil, Option.bind_eq_bind,
    Option.bind_eq_some_iff, Option.pure_def] at hrun
  obtain ⟨w₁, hclaim, w₂, hcreate, ⟨⟩⟩ := hrun
  have hfresh := fresh_of_runs hdue hanchor hruns true
  exact (ReflTransGen.single ⟨.claim () true .ok, hfresh, hclaim⟩).tail
    ⟨.createRun () .ok, trivial, hcreate⟩

/-- A pod that stays up fires at 1:45 and at 2:45. -/
theorem runs_spaced_hourly : ∃ w : World Unit,
    (tickAt (seconds 2700) (1, 2) ++ (tickAt (seconds 6300) (1, 2) ++ fire ++
      (tickAt (seconds 9900) (1, 2) ++ fire))).foldlM (World.step hourly)
        (World.start (seconds 2700)) = some w ∧
      w.runs = [((1, 2), seconds 6300), ((1, 2), seconds 9900)] ∧
      w.runs.Pairwise (Apart hourly) := by
  refine ⟨_, rfl, rfl, runs_spaced
    (?_ : ReflTransGen (FreshStep hourly) (World.start (seconds 2700)) _)⟩
  refine (freshSteps_tickAt (seconds 2700) (1, 2) rfl).trans ?_
  refine (freshSteps_tickAt (seconds 6300) (1, 2) rfl).trans ?_
  refine (freshSteps_fire rfl rfl (by decide) (by decide)).trans ?_
  refine (freshSteps_tickAt (seconds 9900) (1, 2) rfl).trans ?_
  exact freshSteps_fire rfl rfl (by decide) (by decide)

/-- A pod fires at 1:45, restarts, reads the anchor 1:00 and fires at 2:00. -/
theorem restart_fires_early :
    ¬ ∀ (dur : Key → List Char) (clock : ℤ) (events : List (Event Unit)) (w : World Unit),
      events.foldlM (World.step dur) (World.start clock) = some w →
        w.runs.Pairwise (Apart dur) := by
  intro h
  have hruns := h hourly (seconds 2700)
    (tickAt (seconds 2700) (1, 2) ++ tickAt (seconds 6300) (1, 2) ++ fire ++ [.restart ()] ++
      tickAt (seconds 7200) (1, 2) ++ fire) _ rfl
  have hapart := (List.pairwise_pair.mp hruns) rfl 3600 (by decide)
  revert hapart
  decide

end Buzz.Workflow
