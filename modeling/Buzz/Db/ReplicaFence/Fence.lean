import Mathlib.Algebra.Order.Group.Int
import Mathlib.Data.List.Induction
import Mathlib.Data.List.Pairwise
import Buzz.Core.Filter

/-!
# The replica fence

The fence of `crates/buzz-db/src/replica_fence.rs`, which decides whether a read replica may serve a
page. A process retains the heartbeat tokens that its probes committed, each with the wall that the
handshake proved, in a bounded ring; a reader session that observes a token proves the greatest
retained entry at or below it.

ℤs are microseconds of the writer's clock, instants nanoseconds of the process's own. Tokens
are `i64` values and the writer's `UPDATE` fails when the next one is out of range. The texts of
probe errors are only logged.

## Main definitions

* `TokenEntry`, `FenceInner`, `RecordOutcome`, `ResolveOutcome`.
* `FenceInner.close`, `FenceInner.record`, `FenceInner.resolve`, `FenceInner.newest`,
  `FenceInner.covers`.
* `scanActivity`, `fenceWall`: the writer's side of the handshake.
* `Heartbeat.beat`, `Heartbeat.rotate`: the two statements that commit a token.
* `recordSample`: the outcome of one `probe_once`.

## Main results

* `FenceInner.WellFormed.record`: recording keeps the tokens increasing and the ring bounded.
* `FenceInner.resolve_eq_proved_iff`: what a resolved observation proves.
* `fenceWall_le_of_scanActivity`: the wall is below every transaction that the scan shows.
-/

namespace Buzz.Db

open Buzz.Core

/-- A span of whole seconds. -/
def seconds (n : ℤ) : ℤ := n * 1000000

/-- Seconds of `created_at` history that the commit-time floor guard tolerates. -/
def createdAtFloorSecs : ℤ := 960

/-- Safety margin subtracted from the fence on top of the floor. -/
def fenceClockMarginSecs : ℤ := 5

/-- A fence whose newest entry is older than this is stale. -/
def fenceStaleness : ℕ := 30 * 1000000000

/-- How many entries the fence retains. -/
def ringCapacity : ℕ := 120

/-! ### The ring -/

/-- One retained heartbeat observation. -/
structure TokenEntry where
  token : ℤ
  committedAt : ℕ
  fenceWall : ℤ
  deriving DecidableEq, Repr

/-- The state of a fence: the epoch of the ring and the retained entries, oldest first. -/
structure FenceInner where
  epoch : Option Uuid
  ring : List TokenEntry
  deriving DecidableEq, Repr

/-- Outcome of recording one probe sample. -/
inductive RecordOutcome
  | recorded
  | tokenRegression
  deriving DecidableEq, Repr

/-- Outcome of resolving one reader-session observation against the ring. -/
inductive ResolveOutcome
  | proved (entry : TokenEntry)
  | epochMismatch
  | tokenBehind
  deriving DecidableEq, Repr

namespace FenceInner

/-- A new fence, initially closed. -/
def new : FenceInner := ⟨none, []⟩

/-- Close the fence: drop all retained proofs. The epoch stays. -/
def close (inner : FenceInner) : FenceInner := { inner with ring := [] }

/-- Append an entry, evicting the oldest from a full ring. -/
def pushBack (inner : FenceInner) (entry : TokenEntry) : FenceInner :=
  { inner with
    ring := (if inner.ring.length = ringCapacity then inner.ring.tail else inner.ring) ++ [entry] }

/-- The newest retained token is at or above this one. -/
def regresses (inner : FenceInner) (token : ℤ) : Bool :=
  inner.ring.getLast?.any fun last => token ≤ last.token

/-- Record one probe sample. -/
def record (inner : FenceInner) (token : ℤ) (epoch : Uuid) (committedAt : ℕ)
    (fenceWall : ℤ) : RecordOutcome × FenceInner :=
  if inner.epoch ≠ some epoch then
    (.recorded, pushBack ⟨some epoch, []⟩ ⟨token, committedAt, fenceWall⟩)
  else if inner.regresses token then
    (.tokenRegression, inner.close)
  else
    (.recorded, inner.pushBack ⟨token, committedAt, fenceWall⟩)

/-- The greatest retained entry at or below the observed token. -/
def resolve (inner : FenceInner) (observedToken : ℤ) (observedEpoch : Uuid) : ResolveOutcome :=
  if inner.epoch.any fun epoch => epoch ≠ observedEpoch then .epochMismatch
  else
    match inner.ring.reverse.find? fun entry => entry.token ≤ observedToken with
    | some entry => .proved entry
    | none => .tokenBehind

/-- The newest retained entry, staleness-gated. -/
def newest (inner : FenceInner) (now : ℕ) : Option TokenEntry :=
  inner.ring.getLast?.filter fun entry => now - entry.committedAt ≤ fenceStaleness

/-- The newest fence wall, or `none` when closed or stale. -/
def verifiedThrough (inner : FenceInner) (now : ℕ) : Option ℤ :=
  (inner.newest now).map TokenEntry.fenceWall

/-- Whether the newest entry's wall covers `ts`: the routing pre-check. -/
def covers (inner : FenceInner) (now : ℕ) (ts : ℤ) : Bool :=
  (inner.verifiedThrough now).any fun fence => ts ≤ fence

/-! ### What the ring retains -/

/-- Retained tokens increase and the ring is bounded. -/
structure WellFormed (inner : FenceInner) : Prop where
  increasing : inner.ring.Pairwise fun older newer => older.token < newer.token
  bounded : inner.ring.length ≤ ringCapacity

variable {inner : FenceInner}

theorem wellFormed_of_ring_eq_nil (h : inner.ring = []) : inner.WellFormed := by
  refine ⟨?_, ?_⟩
  · rw [h]
    exact List.Pairwise.nil
  · rw [h]
    exact Nat.zero_le _

theorem mem_ring_pushBack {entry e : TokenEntry} (he : e ∈ (inner.pushBack entry).ring) :
    e ∈ inner.ring ∨ e = entry := by
  rw [pushBack, List.mem_append, List.mem_singleton] at he
  rcases he with he | he
  · split_ifs at he
    · exact Or.inl (List.mem_of_mem_tail he)
    · exact Or.inl he
  · exact Or.inr he

theorem getLast?_ring_pushBack (entry : TokenEntry) :
    (inner.pushBack entry).ring.getLast? = some entry :=
  List.getLast?_concat

/-- In an increasing ring the newest token bounds every other. -/
theorem WellFormed.le_getLast (h : inner.WellFormed) {last e : TokenEntry}
    (hlast : inner.ring.getLast? = some last) (he : e ∈ inner.ring) : e.token ≤ last.token := by
  obtain ⟨front, hring⟩ := List.getLast?_eq_some_iff.mp hlast
  have hincreasing := h.increasing
  rw [hring] at hincreasing he
  rcases List.mem_append.mp he with he | he
  · exact ((List.pairwise_append.mp hincreasing).2.2 e he last (List.mem_singleton_self _)).le
  · rw [List.mem_singleton.mp he]

/-- A token that does not regress is above every retained one. -/
theorem WellFormed.lt_of_not_regresses (h : inner.WellFormed) {token : ℤ}
    (htoken : ¬ inner.regresses token = true) {e : TokenEntry} (he : e ∈ inner.ring) :
    e.token < token := by
  cases hlast : inner.ring.getLast? with
  | none => exact absurd he (List.getLast?_eq_none_iff.mp hlast ▸ List.not_mem_nil)
  | some last =>
    have hle := h.le_getLast hlast he
    rw [regresses, hlast, Option.any_some, decide_eq_true_eq, not_le] at htoken
    omega

theorem WellFormed.pushBack (h : inner.WellFormed) {entry : TokenEntry}
    (habove : ∀ e ∈ inner.ring, e.token < entry.token) : (inner.pushBack entry).WellFormed := by
  have hlength := h.bounded
  refine ⟨?_, ?_⟩
  · rw [FenceInner.pushBack]
    refine List.pairwise_append.mpr ⟨?_, List.pairwise_singleton _ _, ?_⟩
    · split_ifs
      · exact h.increasing.tail
      · exact h.increasing
    · intro e he newer hnewer
      rw [List.mem_singleton.mp hnewer]
      split_ifs at he
      · exact habove e (List.mem_of_mem_tail he)
      · exact habove e he
  · rw [FenceInner.pushBack, List.length_append, List.length_singleton]
    split_ifs with hfull
    · rw [List.length_tail, hfull]
      exact le_rfl
    · omega

/-- Everything that recording a sample can do. -/
theorem record_cases (inner : FenceInner) (token : ℤ) (epoch : Uuid) (committedAt : ℕ)
    (fenceWall : ℤ) :
    (inner.epoch ≠ some epoch ∧ inner.record token epoch committedAt fenceWall =
        (.recorded, ⟨some epoch, [⟨token, committedAt, fenceWall⟩]⟩)) ∨
      (inner.epoch = some epoch ∧ inner.regresses token = true ∧
        inner.record token epoch committedAt fenceWall = (.tokenRegression, inner.close)) ∨
      (inner.epoch = some epoch ∧ ¬ inner.regresses token = true ∧
        inner.record token epoch committedAt fenceWall =
          (.recorded, inner.pushBack ⟨token, committedAt, fenceWall⟩)) := by
  by_cases hepoch : inner.epoch = some epoch
  · refine Or.inr ?_
    by_cases hregresses : inner.regresses token = true
    · refine Or.inl ⟨hepoch, hregresses, ?_⟩
      rw [record, if_neg (not_not.mpr hepoch), if_pos hregresses]
    · refine Or.inr ⟨hepoch, hregresses, ?_⟩
      rw [record, if_neg (not_not.mpr hepoch), if_neg hregresses]
  · exact Or.inl ⟨hepoch, if_pos hepoch⟩

theorem WellFormed.record (h : inner.WellFormed) (token : ℤ) (epoch : Uuid)
    (committedAt : ℕ) (fenceWall : ℤ) :
    (inner.record token epoch committedAt fenceWall).2.WellFormed := by
  rcases inner.record_cases token epoch committedAt fenceWall with
    ⟨-, heq⟩ | ⟨-, -, heq⟩ | ⟨-, habove, heq⟩
  · rw [heq]
    exact ⟨List.pairwise_singleton _ _, Nat.le_add_left 1 119⟩
  · rw [heq]
    exact wellFormed_of_ring_eq_nil rfl
  · rw [heq]
    exact h.pushBack fun _ he => h.lt_of_not_regresses habove he

/-- A recorded ring holds retained entries and the new one. -/
theorem mem_ring_record {token : ℤ} {epoch : Uuid} {committedAt : ℕ}
    {fenceWall : ℤ} {e : TokenEntry}
    (he : e ∈ (inner.record token epoch committedAt fenceWall).2.ring) :
    e ∈ inner.ring ∨ e = ⟨token, committedAt, fenceWall⟩ := by
  rcases inner.record_cases token epoch committedAt fenceWall with
    ⟨-, heq⟩ | ⟨-, -, heq⟩ | ⟨-, -, heq⟩
  · rw [heq] at he
    exact Or.inr (List.mem_singleton.mp he)
  · rw [heq] at he
    exact absurd he List.not_mem_nil
  · rw [heq] at he
    exact mem_ring_pushBack he

/-! ### What an observation proves -/

/-- The ring's epoch is the observed one, or none was recorded. -/
def EpochAgrees (inner : FenceInner) (observedEpoch : Uuid) : Prop :=
  ∀ epoch, inner.epoch = some epoch → epoch = observedEpoch

theorem any_epoch_ne_iff {observedEpoch : Uuid} :
    (inner.epoch.any fun epoch => epoch ≠ observedEpoch) = true ↔
      ¬ inner.EpochAgrees observedEpoch := by
  rw [EpochAgrees]
  cases inner.epoch <;> simp

/-- From the back of an increasing list, the first entry at or below a bound is the greatest. -/
theorem find?_reverse_eq_some_iff {ring : List TokenEntry}
    (hring : ring.Pairwise fun older newer => older.token < newer.token) {token : ℤ}
    {e : TokenEntry} :
    (ring.reverse.find? fun entry => entry.token ≤ token) = some e ↔
      e ∈ ring ∧ e.token ≤ token ∧ ∀ e' ∈ ring, e'.token ≤ token → e'.token ≤ e.token := by
  induction ring using List.reverseRecOn with
  | nil => simp
  | append_singleton front last ih =>
    obtain ⟨hfront, -, hlast⟩ := List.pairwise_append.mp hring
    have hbelow : ∀ e' ∈ front, e'.token < last.token := fun e' he' =>
      hlast e' he' last (List.mem_singleton_self _)
    rw [List.reverse_append, List.reverse_singleton, List.singleton_append]
    by_cases htoken : last.token ≤ token
    · rw [List.find?_cons_of_pos (by simpa using htoken), Option.some_inj]
      constructor
      · rintro rfl
        refine ⟨by simp, htoken, fun e' he' _ => ?_⟩
        rcases List.mem_append.mp he' with he' | he'
        · exact (hbelow e' he').le
        · rw [List.mem_singleton.mp he']
      · rintro ⟨he, -, hgreatest⟩
        rcases List.mem_append.mp he with he | he
        · have h₁ := hbelow e he
          have h₂ := hgreatest last (by simp) htoken
          omega
        · exact (List.mem_singleton.mp he).symm
    · rw [List.find?_cons_of_neg (by simpa using htoken), ih hfront]
      constructor
      · rintro ⟨he, hle, hgreatest⟩
        refine ⟨List.mem_append_left _ he, hle, fun e' he' hle' => ?_⟩
        rcases List.mem_append.mp he' with he' | he'
        · exact hgreatest e' he' hle'
        · exact absurd (List.mem_singleton.mp he' ▸ hle') htoken
      · rintro ⟨he, hle, hgreatest⟩
        rcases List.mem_append.mp he with he | he
        · exact ⟨he, hle, fun e' he' => hgreatest e' (List.mem_append_left _ he')⟩
        · exact absurd (List.mem_singleton.mp he ▸ hle) htoken

/-- An observation proves the retained entry with the greatest token not above the observed one,
under an epoch that agrees. -/
theorem resolve_eq_proved_iff (h : inner.WellFormed) {token : ℤ} {epoch : Uuid} {e : TokenEntry} :
    inner.resolve token epoch = .proved e ↔
      inner.EpochAgrees epoch ∧ e ∈ inner.ring ∧ e.token ≤ token ∧
        ∀ e' ∈ inner.ring, e'.token ≤ token → e'.token ≤ e.token := by
  rw [← find?_reverse_eq_some_iff h.increasing, resolve]
  split_ifs with hepoch
  · have hdisagrees := any_epoch_ne_iff.mp hepoch
    exact ⟨(fun hne => nomatch hne), fun hagrees => absurd hagrees.1 hdisagrees⟩
  · have hagrees : inner.EpochAgrees epoch := not_not.mp (mt any_epoch_ne_iff.mpr hepoch)
    split
    · next entry hfind =>
      rw [hfind]
      exact ⟨fun heq => ⟨hagrees, congrArg some (ResolveOutcome.proved.inj heq)⟩,
        fun heq => congrArg _ (Option.some.inj heq.2)⟩
    · next hfind =>
      rw [hfind]
      exact ⟨(fun hne => nomatch hne), (fun hne => nomatch hne.2)⟩

end FenceInner

/-! ### The writer's side of the handshake -/

/-- The kinds of backend that the scan tells apart. -/
inductive BackendType
  | clientBackend
  | other
  deriving DecidableEq, Repr

/-- The states of a client backend. -/
inductive BackendState
  | active
  | idle
  | idleInTransaction
  | idleInTransactionAborted
  | fastpathFunctionCall
  | disabled
  deriving DecidableEq, Repr

/-- A row of `pg_stat_activity`; an unprivileged view masks every column but the process's id. -/
structure Backend where
  pid : ℕ
  backendType : Option BackendType
  state : Option BackendState
  xactStart : Option ℤ
  deriving DecidableEq, Repr

/-- The activity row hides whether a transaction is open. -/
def Backend.masked (b : Backend) : Bool :=
  match b.backendType with
  | none => true
  | some .clientBackend =>
    match b.state with
    | none => true
    | some state => state ≠ .idle && b.xactStart.isNone
  | some .other => false

/-- Errors that close the fence. -/
inductive ProbeError
  | writer
  | maskedActivity (masked : ℕ)
  | heartbeatRowMissing
  deriving DecidableEq, Repr

/-- The activity scan: the start of the oldest open transaction of another backend, prepared
transactions included. -/
def scanActivity (ownPid : ℕ) (activity : List Backend) (prepared : List ℤ) :
    Except ProbeError (Option ℤ) :=
  let others := activity.filter fun b => b.pid ≠ ownPid
  let masked := others.countP Backend.masked
  if 0 < masked then .error (.maskedActivity masked)
  else .ok (Option.merge min (others.filterMap Backend.xactStart).min? prepared.min?)

/-- The wall that one handshake proves. -/
def fenceWall (sampleS : ℤ) (oldestXactStart : Option ℤ) : ℤ :=
  let lower := match oldestXactStart with
    | some oldest => min oldest sampleS
    | none => sampleS
  lower - seconds createdAtFloorSecs - seconds fenceClockMarginSecs

theorem fenceWall_le (sampleS : ℤ) (oldestXactStart : Option ℤ) :
    fenceWall sampleS oldestXactStart ≤
      sampleS - seconds createdAtFloorSecs - seconds fenceClockMarginSecs := by
  cases oldestXactStart with
  | none => exact le_rfl
  | some oldest =>
    have := min_le_right oldest sampleS
    simp only [fenceWall]
    omega

theorem fenceWall_le_of_le (sampleS : ℤ) {oldestXactStart : Option ℤ}
    {oldest bound : ℤ} (holdest : oldestXactStart = some oldest) (hle : oldest ≤ bound) :
    fenceWall sampleS oldestXactStart ≤
      bound - seconds createdAtFloorSecs - seconds fenceClockMarginSecs := by
  have := min_le_left oldest sampleS
  simp only [holdest, fenceWall]
  omega

private theorem exists_min?_le {l : List ℤ} {a : ℤ} (ha : a ∈ l) :
    ∃ m, l.min? = some m ∧ m ≤ a := by
  cases hmin : l.min? with
  | none => exact absurd ha (List.min?_eq_none_iff.mp hmin ▸ List.not_mem_nil)
  | some m => exact ⟨m, rfl, (List.min?_eq_some_iff.mp hmin).2 a ha⟩

/-- Some other backend's row, unmasked, shows a transaction of this start, or a prepared transaction
of this time is listed. -/
def Shows (ownPid : ℕ) (activity : List Backend) (prepared : List ℤ) (start : ℤ) :
    Prop :=
  (∃ b ∈ activity, b.pid ≠ ownPid ∧ (b.masked = true ∨ b.xactStart = some start)) ∨
    start ∈ prepared

/-- The wall lies a floor and a margin below every transaction that the scan shows. -/
theorem fenceWall_le_of_scanActivity {ownPid : ℕ} {activity : List Backend}
    {prepared : List ℤ} {oldestXactStart : Option ℤ}
    (hscan : scanActivity ownPid activity prepared = .ok oldestXactStart) {start : ℤ}
    (hshows : Shows ownPid activity prepared start) (sampleS : ℤ) :
    fenceWall sampleS oldestXactStart ≤
      start - seconds createdAtFloorSecs - seconds fenceClockMarginSecs := by
  simp only [scanActivity] at hscan
  split_ifs at hscan with hmasked
  have hoption := Except.ok.inj hscan
  have hunmasked : ∀ b ∈ activity, b.pid ≠ ownPid → ¬ b.masked = true := fun b hb hpid =>
    List.countP_eq_zero.mp (Nat.eq_zero_of_not_pos hmasked) b
      (List.mem_filter.mpr ⟨hb, by simpa using hpid⟩)
  rcases hshows with ⟨b, hb, hpid, hmask | hstart⟩ | hprepared
  · exact absurd hmask (hunmasked b hb hpid)
  · have hmem : start ∈ (activity.filter fun b => b.pid ≠ ownPid).filterMap Backend.xactStart :=
      List.mem_filterMap.mpr ⟨b, List.mem_filter.mpr ⟨hb, by simpa using hpid⟩, hstart⟩
    obtain ⟨m, hmin, hle⟩ := exists_min?_le hmem
    rw [hmin] at hoption
    cases hprep : prepared.min? with
    | none => exact fenceWall_le_of_le sampleS (by rw [← hoption, hprep]; rfl) hle
    | some p =>
      exact fenceWall_le_of_le sampleS (by rw [← hoption, hprep]; rfl)
        ((min_le_left m p).trans hle)
  · obtain ⟨m, hmin, hle⟩ := exists_min?_le hprepared
    rw [hmin] at hoption
    cases hact : ((activity.filter fun b => b.pid ≠ ownPid).filterMap Backend.xactStart).min? with
    | none => exact fenceWall_le_of_le sampleS (by rw [← hoption, hact]; rfl) hle
    | some p =>
      exact fenceWall_le_of_le sampleS (by rw [← hoption, hact]; rfl)
        ((min_le_right p m).trans hle)

/-- The heartbeat row. -/
structure Heartbeat where
  token : ℤ
  epoch : Uuid
  deriving DecidableEq, Repr

/-- The row with the next token, unless `token + 1` is out of range. -/
def Heartbeat.beat (row : Heartbeat) : Option Heartbeat :=
  if row.token + 1 < 2 ^ 63 then some { row with token := row.token + 1 } else none

/-- The row with the next token under a new epoch. -/
def Heartbeat.rotate (row : Heartbeat) (epoch : Uuid) : Option Heartbeat :=
  if row.token + 1 < 2 ^ 63 then some { token := row.token + 1, epoch } else none

theorem Heartbeat.eq_of_beat {row row' : Heartbeat} (h : row.beat = some row') :
    row' = { row with token := row.token + 1 } := by
  rw [beat] at h
  split_ifs at h
  exact (Option.some.inj h).symm

theorem Heartbeat.eq_of_rotate {row row' : Heartbeat} {epoch : Uuid}
    (h : row.rotate epoch = some row') : row' = { token := row.token + 1, epoch } := by
  rw [rotate] at h
  split_ifs at h
  exact (Option.some.inj h).symm

/-- One writer-side sample of the ordered handshake. -/
structure WriterSample where
  sampledAt : ℤ
  oldestXactStart : Option ℤ
  token : ℤ
  epoch : Uuid
  committedAt : ℕ
  deriving DecidableEq, Repr

/-- The wall of a sample. -/
def WriterSample.wall (sample : WriterSample) : ℤ :=
  fenceWall sample.sampledAt sample.oldestXactStart

/-- What `probe_once` records of a sample; after a regression it rotates the epoch before it records
again. -/
def recordSample (fence : FenceInner) (sample : WriterSample) : RecordOutcome × FenceInner :=
  fence.record sample.token sample.epoch sample.committedAt sample.wall

end Buzz.Db
