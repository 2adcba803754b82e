import Mathlib.Logic.Relation
import Mathlib.Logic.Function.Basic
import Buzz.Db.ReplicaFence.Fence

/-!
# The heartbeat handshake

One writer runs any number of transactions while any number of pods probe it, each await of
`probe_once` a step of its own. The commits of the writer are a list, oldest first, and a reader's
snapshot is a prefix of it.

Every transaction is in the activity view from its start until its commit is durable: either with
its `xact_start`, or as a prepared transaction, or masked. The deferred floor guard of migration
0021 checks its rows one by one inside commit processing. The guard clock of a prepared transaction
is not the time it is listed with, which is taken once all its guards have run; the margin of the
wall has to absorb the difference.

What a handshake establishes is a barrier: from the scan on, no transaction holds a checked channel
row at or below the wall, and the guard lets none through any more. A barrier stays up, so every
commit after the token lies above the wall.

## Main definitions

* `floorGuard`: the deferred trigger.
* `World`, `Step`: the writer, the pods and everything that can happen.
* `Barrier`, `CertifiedAt`: what the scan and the token prove.
* `Evolves`: what a step can do to the writer.

## Main results

* `Step.evolves`.
* `Barrier.evolves`, `CertifiedAt.evolves`: proofs never decay.
* `Barrier.certified`: a token committed behind a barrier certifies its wall.
-/

namespace Buzz.Db

open Buzz.Core Relation

/-! ### Transactions -/

/-- What the fence reads of a row of `events`. -/
structure EventRow where
  channelId : Option Uuid
  createdAt : ℤ
  deriving DecidableEq, Repr

/-- `events_created_at_floor_guard` raises on this row. -/
def floorGuard (floorSecs : Option ℤ) (clock : ℤ) (row : EventRow) : Bool :=
  match floorSecs with
  | none => false
  | some floor => floor > 0 && row.channelId.isSome && row.createdAt < clock - seconds floor

/-- How far a transaction is: it writes, or its commit has begun at a time and some rows await the
guard, or it was prepared at a time. -/
inductive Phase
  | active
  | committing (since : ℤ) (unchecked : List EventRow)
  | prepared (time : ℤ)
  deriving DecidableEq, Repr

/-- A transaction whose commit is not durable yet. -/
structure Transaction where
  xactStart : ℤ
  rows : List EventRow
  phase : Phase
  deriving DecidableEq, Repr

/-- The rows that the guard has not checked. -/
def Transaction.unchecked (tx : Transaction) : List EventRow :=
  match tx.phase with
  | .active => tx.rows
  | .committing _ unchecked => unchecked
  | .prepared _ => []

/-- The time that the activity view lists a transaction with. -/
def Transaction.listedAt (tx : Transaction) : ℤ :=
  match tx.phase with
  | .prepared time => time
  | _ => tx.xactStart

/-- A commit of the writer. -/
inductive Commit
  | rows (rows : List EventRow)
  | heartbeat (row : Heartbeat)
  deriving DecidableEq, Repr

/-- The heartbeat row that a commit wrote. -/
def Commit.heartbeat? : Commit → Option Heartbeat
  | .rows _ => none
  | .heartbeat row => some row

/-- The heartbeat row after these commits: `observe_heartbeat` on a snapshot. -/
def observeHeartbeat (commits : List Commit) : Option Heartbeat :=
  (commits.filterMap Commit.heartbeat?).getLast?

/-! ### Runs -/

/-- Where a pod's `probe_once` is suspended. -/
inductive Probe
  | idle
  | sampled (sampledAt : ℤ)
  | scanned (sampledAt : ℤ) (oldestXactStart : Option ℤ)
  | committed (sample : WriterSample)
  | rotating (wall : ℤ)
  | rotated (wall : ℤ) (row : Heartbeat) (committedAt : ℕ)
  deriving DecidableEq, Repr

/-- The writer's clock, transactions and commits, and the fence and the probe of every pod. -/
structure World (Pod : Type*) where
  now : ℤ
  txs : ℕ → Option Transaction
  commits : List Commit
  fences : Pod → FenceInner
  probes : Pod → Probe

variable {Pod : Type*}

namespace World

/-- Replace a transaction. -/
def setTx (w : World Pod) (xid : ℕ) (tx : Option Transaction) : World Pod :=
  { w with txs := Function.update w.txs xid tx }

@[simp]
theorem txs_setTx_self (w : World Pod) (xid : ℕ) (tx : Option Transaction) :
    (w.setTx xid tx).txs xid = tx :=
  Function.update_self ..

theorem txs_setTx_of_ne (w : World Pod) {xid xid' : ℕ} (tx : Option Transaction)
    (h : xid' ≠ xid) : (w.setTx xid tx).txs xid' = w.txs xid' :=
  Function.update_of_ne h ..

/-- Append a commit. -/
def commit (w : World Pod) (c : Commit) : World Pod := { w with commits := w.commits ++ [c] }

/-- Every open transaction is in the activity view. -/
def Visible (w : World Pod) (ownPid : ℕ) (activity : List Backend) (prepared : List ℤ) : Prop :=
  ∀ xid tx, w.txs xid = some tx → Shows ownPid activity prepared tx.listedAt

section Pods

variable [DecidableEq Pod]

/-- Suspend a pod's probe elsewhere. -/
def setProbe (w : World Pod) (pod : Pod) (probe : Probe) : World Pod :=
  { w with probes := Function.update w.probes pod probe }

/-- Replace a pod's fence. -/
def setFence (w : World Pod) (pod : Pod) (fence : FenceInner) : World Pod :=
  { w with fences := Function.update w.fences pod fence }

/-- The synchronous part of `probe_once` after the token is committed. -/
def recordProbe (w : World Pod) (pod : Pod) (sample : WriterSample) : World Pod :=
  match recordSample (w.fences pod) sample with
  | (.recorded, fence) => (w.setFence pod fence).setProbe pod .idle
  | (.tokenRegression, fence) => (w.setFence pod fence).setProbe pod (.rotating sample.wall)

/-- The synchronous part of `probe_once` after the rotation is committed. -/
def recordRotation (w : World Pod) (pod : Pod) (wall : ℤ) (row : Heartbeat) (committedAt : ℕ) :
    World Pod :=
  (w.setFence pod ((w.fences pod).record row.token row.epoch committedAt wall).2).setProbe pod .idle

end Pods

end World

/-- One step of the writer, of a transaction or of a pod. A probe may fail wherever it is suspended,
and a pod may restart at any time. -/
inductive Step [DecidableEq Pod] : World Pod → World Pod → Prop
  | tick {w} (time : ℤ) (hlater : w.now ≤ time) : Step w { w with now := time }
  | start {w} (xid : ℕ) (xactStart : ℤ) (hfree : w.txs xid = none) (hstart : xactStart ≤ w.now) :
      Step w (w.setTx xid (some ⟨xactStart, [], .active⟩))
  | write {w} {xid tx} (row : EventRow) (htx : w.txs xid = some tx) (hphase : tx.phase = .active) :
      Step w (w.setTx xid (some { tx with rows := row :: tx.rows }))
  | abort {w} (xid : ℕ) : Step w (w.setTx xid none)
  | beginCommit {w} {xid tx} (htx : w.txs xid = some tx) (hphase : tx.phase = .active) :
      Step w (w.setTx xid (some { tx with phase := .committing w.now tx.rows }))
  | guard {w} {xid tx since row unchecked} (htx : w.txs xid = some tx)
      (hphase : tx.phase = .committing since (row :: unchecked)) :
      Step w (w.setTx xid (if floorGuard (some createdAtFloorSecs) w.now row then none
        else some { tx with phase := .committing since unchecked }))
  | commit {w} {xid tx since} (htx : w.txs xid = some tx)
      (hphase : tx.phase = .committing since []) :
      Step w ((w.setTx xid none).commit (.rows tx.rows))
  | prepare {w} {xid tx since} (htx : w.txs xid = some tx)
      (hphase : tx.phase = .committing since [])
      (hnoise : w.now < since + seconds fenceClockMarginSecs) :
      Step w (w.setTx xid (some { tx with phase := .prepared w.now }))
  | commitPrepared {w} {xid tx time} (htx : w.txs xid = some tx)
      (hphase : tx.phase = .prepared time) :
      Step w ((w.setTx xid none).commit (.rows tx.rows))
  | sample {w} {pod} (hprobe : w.probes pod = .idle) : Step w (w.setProbe pod (.sampled w.now))
  | scan {w} {pod sampledAt ownPid activity prepared oldestXactStart}
      (hprobe : w.probes pod = .sampled sampledAt) (hvisible : w.Visible ownPid activity prepared)
      (hscan : scanActivity ownPid activity prepared = .ok oldestXactStart) :
      Step w (w.setProbe pod (.scanned sampledAt oldestXactStart))
  | beat {w} {pod sampledAt oldestXactStart row row'} (committedAt : ℕ)
      (hprobe : w.probes pod = .scanned sampledAt oldestXactStart)
      (hrow : observeHeartbeat w.commits = some row) (hbeat : row.beat = some row') :
      Step w ((w.commit (.heartbeat row')).setProbe pod
        (.committed ⟨sampledAt, oldestXactStart, row'.token, row'.epoch, committedAt⟩))
  | record {w} {pod sample} (hprobe : w.probes pod = .committed sample) :
      Step w (w.recordProbe pod sample)
  | rotate {w} {pod wall row row'} (epoch : Uuid) (committedAt : ℕ)
      (hprobe : w.probes pod = .rotating wall) (hrow : observeHeartbeat w.commits = some row)
      (hrotate : row.rotate epoch = some row') :
      Step w ((w.commit (.heartbeat row')).setProbe pod (.rotated wall row' committedAt))
  | recordRotation {w} {pod wall row committedAt}
      (hprobe : w.probes pod = .rotated wall row committedAt) :
      Step w (w.recordRotation pod wall row committedAt)
  | fail {w} (pod : Pod) :
      Step w ((w.setFence pod (w.fences pod).close).setProbe pod .idle)
  | restart {w} (pod : Pod) : Step w ((w.setFence pod .new).setProbe pod .idle)

/-- Migration 0026 has seeded the heartbeat row, and no pod has probed yet. -/
structure Initial (w : World Pod) : Prop where
  txs : ∀ xid, w.txs xid = none
  commits : ∃ (history : List (List EventRow)) (epoch : Uuid),
    w.commits = history.map Commit.rows ++ [.heartbeat ⟨0, epoch⟩]
  fences : ∀ pod, w.fences pod = .new
  probes : ∀ pod, w.probes pod = .idle

/-! ### What a handshake establishes -/

/-- A channel row at or below the wall: a row that a page could miss. -/
def Below (wall : ℤ) (row : EventRow) : Prop := row.channelId.isSome = true ∧ row.createdAt ≤ wall

/-- No open transaction holds a row below the wall that the guard has let through, and the guard
lets none through any more. -/
structure Barrier (w : World Pod) (wall : ℤ) : Prop where
  clock : wall + seconds createdAtFloorSecs + seconds fenceClockMarginSecs ≤ w.now
  txs : ∀ xid tx, w.txs xid = some tx → ∀ row ∈ tx.rows, Below wall row → row ∈ tx.unchecked

/-- The commit at this position wrote the token, and no later one wrote a row below the wall. -/
structure CertifiedAt (w : World Pod) (position : ℕ) (token wall : ℤ) : Prop where
  barrier : Barrier w wall
  token : ∃ row, w.commits[position]? = some (.heartbeat row) ∧ row.token = token
  later : ∀ k rows, position < k → w.commits[k]? = some (.rows rows) →
    ∀ row ∈ rows, ¬ Below wall row

/-- Some commit wrote the token and certifies the wall. -/
def Certified (w : World Pod) (token wall : ℤ) : Prop :=
  ∃ position, CertifiedAt w position token wall

/-- What is known where a probe is suspended. -/
def ProbeSound (w : World Pod) : Probe → Prop
  | .idle => True
  | .sampled sampledAt => sampledAt ≤ w.now
  | .scanned sampledAt oldestXactStart => Barrier w (fenceWall sampledAt oldestXactStart)
  | .committed sample => Certified w sample.token sample.wall
  | .rotating wall => Barrier w wall
  | .rotated wall row _ => Certified w row.token wall

/-! ### Proofs do not decay -/

section Evolution

variable {w w' : World Pod}

/-- The guard has let a row of the transaction through. -/
def Transaction.Checked (tx : Transaction) (row : EventRow) : Prop :=
  row ∈ tx.rows ∧ row ∉ tx.unchecked

/-- What every step does to the writer: rows are checked against the present clock, and only a fully
checked transaction commits. -/
structure Evolves (w w' : World Pod) : Prop where
  clock : w.now ≤ w'.now
  txs : ∀ xid tx', w'.txs xid = some tx' → ∀ row, tx'.Checked row →
    (∃ tx, w.txs xid = some tx ∧ tx.Checked row) ∨
      floorGuard (some createdAtFloorSecs) w.now row = false
  commits : w'.commits = w.commits ∨
    (∃ row row', observeHeartbeat w.commits = some row ∧ row.token < row'.token ∧
      w'.commits = w.commits ++ [.heartbeat row']) ∨
    ∃ xid tx, w.txs xid = some tx ∧ tx.unchecked = [] ∧ w'.commits = w.commits ++ [.rows tx.rows]

/-- A step of a pod changes neither the clock nor the transactions. -/
theorem Evolves.of_pod (hnow : w'.now = w.now) (htxs : w'.txs = w.txs)
    (hcommits : w'.commits = w.commits ∨ ∃ row row', observeHeartbeat w.commits = some row ∧
      row.token < row'.token ∧ w'.commits = w.commits ++ [.heartbeat row']) :
    Evolves w w' := by
  refine ⟨hnow.ge, ?_, ?_⟩
  · intro xid tx htx row hrow
    rw [htxs] at htx
    exact Or.inl ⟨tx, htx, hrow⟩
  · exact hcommits.imp_right Or.inl

/-- A step of a transaction that has checked no further row. -/
theorem Evolves.setTx {xid : ℕ} {new : Option Transaction}
    (hnew : ∀ tx', new = some tx' → ∀ row, tx'.Checked row →
      (∃ tx, w.txs xid = some tx ∧ tx.Checked row) ∨
        floorGuard (some createdAtFloorSecs) w.now row = false) :
    Evolves w (w.setTx xid new) := by
  refine ⟨le_rfl, ?_, Or.inl rfl⟩
  intro xid' tx' htx' row hrow
  by_cases hxid : xid' = xid
  · subst hxid
    exact hnew tx' ((World.txs_setTx_self w xid' new).symm.trans htx') row hrow
  · rw [World.txs_setTx_of_ne w new hxid] at htx'
    exact Or.inl ⟨tx', htx', hrow⟩

/-- A fully checked transaction commits and is gone. -/
theorem Evolves.commit {xid : ℕ} {tx : Transaction} (htx : w.txs xid = some tx)
    (hunchecked : tx.unchecked = []) : Evolves w ((w.setTx xid none).commit (.rows tx.rows)) := by
  have hset : Evolves w (w.setTx xid none) := Evolves.setTx fun _ hnone => nomatch hnone
  exact ⟨hset.clock, hset.txs, Or.inr (Or.inr ⟨xid, tx, htx, hunchecked, rfl⟩)⟩

theorem Evolves.recordProbe [DecidableEq Pod] (pod : Pod) (sample : WriterSample) :
    Evolves w (w.recordProbe pod sample) := by
  rw [World.recordProbe]
  split
  · exact .of_pod rfl rfl (Or.inl rfl)
  · exact .of_pod rfl rfl (Or.inl rfl)

theorem Step.evolves [DecidableEq Pod] (h : Step w w') : Evolves w w' := by
  cases h with
  | tick time hlater => exact ⟨hlater, fun _ tx htx _ hrow => Or.inl ⟨tx, htx, hrow⟩, Or.inl rfl⟩
  | start xid xactStart hfree hstart =>
    refine Evolves.setTx fun tx' htx' row hrow => ?_
    cases htx'
    exact absurd hrow.1 List.not_mem_nil
  | @write xid tx row htx hphase =>
    refine Evolves.setTx fun tx' htx' row hrow => ?_
    cases htx'
    -- A transaction that writes has checked nothing.
    exact absurd hrow.1 (by simpa [Transaction.unchecked, hphase] using hrow.2)
  | abort xid => exact Evolves.setTx fun _ hnone => nomatch hnone
  | @beginCommit xid tx htx hphase =>
    refine Evolves.setTx fun tx' htx' row hrow => ?_
    cases htx'
    exact absurd hrow.1 hrow.2
  | @guard xid tx since row unchecked htx hphase =>
    refine Evolves.setTx fun tx' htx' row' hrow' => ?_
    split_ifs at htx' with hguard
    cases htx'
    by_cases hrow : row' = row
    · exact Or.inr (by rw [hrow]; simpa using hguard)
    · refine Or.inl ⟨tx, htx, hrow'.1, ?_⟩
      rw [Transaction.unchecked, hphase]
      exact fun hmem => (List.mem_cons.mp hmem).elim hrow hrow'.2
  | @commit xid tx since htx hphase =>
    exact Evolves.commit htx (by rw [Transaction.unchecked, hphase])
  | @prepare xid tx since htx hphase hnoise =>
    refine Evolves.setTx fun tx' htx' row hrow => ?_
    cases htx'
    exact Or.inl ⟨tx, htx, hrow.1, by simp [Transaction.unchecked, hphase]⟩
  | @commitPrepared xid tx time htx hphase =>
    exact Evolves.commit htx (by rw [Transaction.unchecked, hphase])
  | sample hprobe => exact .of_pod rfl rfl (Or.inl rfl)
  | scan hprobe hvisible hscan => exact .of_pod rfl rfl (Or.inl rfl)
  | @beat _ _ _ row row' committedAt hprobe hrow hbeat =>
    have htoken : row.token < row'.token := by
      rw [Heartbeat.eq_of_beat hbeat]
      exact lt_add_one row.token
    exact .of_pod rfl rfl (Or.inr ⟨row, row', hrow, htoken, rfl⟩)
  | record hprobe => exact .recordProbe _ _
  | @rotate _ _ row row' epoch committedAt hprobe hrow hrotate =>
    have htoken : row.token < row'.token := by
      rw [Heartbeat.eq_of_rotate hrotate]
      exact lt_add_one row.token
    exact .of_pod rfl rfl (Or.inr ⟨row, row', hrow, htoken, rfl⟩)
  | recordRotation hprobe => exact .of_pod rfl rfl (Or.inl rfl)
  | fail pod => exact .of_pod rfl rfl (Or.inl rfl)
  | restart pod => exact .of_pod rfl rfl (Or.inl rfl)

/-- The guard lets only recent channel rows through. -/
theorem le_createdAt_of_floorGuard {clock : ℤ} {row : EventRow}
    (h : floorGuard (some createdAtFloorSecs) clock row = false)
    (hchannel : row.channelId.isSome = true) :
    clock - seconds createdAtFloorSecs ≤ row.createdAt := by
  have hpos : createdAtFloorSecs > 0 := by decide
  simpa only [floorGuard, hchannel, hpos, decide_true, Bool.true_and, decide_eq_false_iff_not,
    not_lt] using h

/-- A barrier stays up. -/
theorem Barrier.evolves {wall : ℤ} (h : Barrier w wall) (hstep : Evolves w w') :
    Barrier w' wall := by
  refine ⟨h.clock.trans hstep.clock, fun xid tx' htx' row hrow hbelow => ?_⟩
  by_contra hunchecked
  rcases hstep.txs xid tx' htx' row ⟨hrow, hunchecked⟩ with ⟨tx, htx, hchecked⟩ | hguard
  · exact hchecked.2 (h.txs xid tx htx row hchecked.1 hbelow)
  · have hrecent := le_createdAt_of_floorGuard hguard hbelow.1
    have hclock := h.clock
    have hbelow := hbelow.2
    simp only [seconds, fenceClockMarginSecs] at hclock hrecent
    omega

theorem getElem?_append_of_eq_some {commits : List Commit} {c c' : Commit} {k : ℕ}
    (h : (commits ++ [c])[k]? = some c') : commits[k]? = some c' ∨ c' = c := by
  rcases lt_or_ge k commits.length with hk | hk
  · rw [List.getElem?_append_left hk] at h
    exact Or.inl h
  · rw [List.getElem?_append_right hk] at h
    exact Or.inr (List.mem_singleton.mp (List.mem_of_getElem? h))

/-- A certificate is good forever. -/
theorem CertifiedAt.evolves {position : ℕ} {token wall : ℤ} (h : CertifiedAt w position token wall)
    (hstep : Evolves w w') : CertifiedAt w' position token wall := by
  have hcommits := hstep.commits
  refine ⟨h.barrier.evolves hstep, ?_, ?_⟩
  · obtain ⟨row, hrow, htoken⟩ := h.token
    have hposition := (List.getElem?_eq_some_iff.mp hrow).1
    refine ⟨row, ?_, htoken⟩
    rcases hcommits with heq | ⟨_, _, _, _, heq⟩ | ⟨_, _, _, _, heq⟩
    · rw [heq, hrow]
    · rw [heq, List.getElem?_append_left hposition, hrow]
    · rw [heq, List.getElem?_append_left hposition, hrow]
  · intro k rows hk hrows
    rcases hcommits with heq | ⟨_, _, _, _, heq⟩ | ⟨xid, tx, htx, hunchecked, heq⟩
    · exact h.later k rows hk (heq ▸ hrows)
    · rw [heq] at hrows
      rcases getElem?_append_of_eq_some hrows with hold | hnew
      · exact h.later k rows hk hold
      · cases hnew
    · rw [heq] at hrows
      rcases getElem?_append_of_eq_some hrows with hold | hnew
      · exact h.later k rows hk hold
      · cases hnew
        intro row hrow hbelow
        have hmem := h.barrier.txs xid tx htx row hrow hbelow
        rw [hunchecked] at hmem
        exact List.not_mem_nil hmem

theorem Certified.evolves {token wall : ℤ} (h : Certified w token wall) (hstep : Evolves w w') :
    Certified w' token wall :=
  h.imp fun _ hcertified => hcertified.evolves hstep

theorem ProbeSound.evolves {probe : Probe} (h : ProbeSound w probe) (hstep : Evolves w w') :
    ProbeSound w' probe := by
  cases probe with
  | idle => exact trivial
  | sampled sampledAt => exact le_trans (show sampledAt ≤ w.now from h) hstep.clock
  | scanned sampledAt oldestXactStart => exact Barrier.evolves h hstep
  | committed sample => exact Certified.evolves h hstep
  | rotating wall => exact Barrier.evolves h hstep
  | rotated wall row committedAt => exact Certified.evolves h hstep

/-- Once the barrier is up, the next token certifies the wall. -/
theorem Barrier.certified {wall : ℤ} (h : Barrier w wall) (row : Heartbeat) :
    Certified (w.commit (.heartbeat row)) row.token wall := by
  refine ⟨w.commits.length, ?_, ?_, ?_⟩
  · exact ⟨h.clock, h.txs⟩
  · exact ⟨row, List.getElem?_concat_length, rfl⟩
  · intro k rows hk hrows
    have hlength := (List.getElem?_eq_some_iff.mp hrows).1
    rw [World.commit, List.length_append, List.length_singleton] at hlength
    omega

end Evolution

end Buzz.Db
