import Mathlib.Logic.Relation
import Buzz.Db.ReplicaFence.Fence

/-!
# The replica fence across a restore

A restore may rewind the heartbeat token of the writer and keep its epoch. A reader that is still on
the timeline before the restore then observes a token that says nothing about the timeline after it.
The probe detects the rewound token by comparing it with the newest entry of the ring, and rotates
the epoch; `FenceInner.close`, which every failed probe runs, leaves it nothing to compare with.

One process runs successful and failed probes, between them the probes of other processes beat the
same heartbeat row or rotate its epoch, and the writer is restored. A new epoch of
`gen_random_uuid` is one that was never used. The rows that readers of the present timeline may
observe, the epochs so far and the entries recorded since the last restore are ghosts of the state.

## Main definitions

* `probeOnce`: a probe that succeeds.
* `Process`, `Quiet`, `Probes`, `Moves`: runs of one process.
* `Process.restore`: the rewind.
* `Detects`: the comparison that the probe makes.

## Main results

* `probeOnce_cases`: a probe records the next token, or detects a regression and rotates.
* `restore_safe_iff`: when an observation from before a restore cannot prove an entry from after it.
-/

namespace Buzz.Db

open Buzz.Core Relation

/-! ### Probes -/

/-- A successful `probe_once`: the heartbeat row it leaves and those it committed, newest first, the
fence, and the entry it returns. -/
structure Probed where
  row : Heartbeat
  commits : List Heartbeat
  fence : FenceInner
  entry : TokenEntry
  deriving DecidableEq, Repr

/-- One full handshake. The epoch is that of `gen_random_uuid`, for the rotation. -/
def probeOnce (fence : FenceInner) (row : Heartbeat) (sampledAt : ℤ) (oldestXactStart : Option ℤ)
    (committedAt : ℕ) (epoch : Uuid) (rotatedAt : ℕ) : Option Probed :=
  row.beat.bind fun beaten =>
    let sample : WriterSample :=
      ⟨sampledAt, oldestXactStart, beaten.token, beaten.epoch, committedAt⟩
    match recordSample fence sample with
    | (.recorded, fence) =>
      some ⟨beaten, [beaten], fence, ⟨beaten.token, committedAt, sample.wall⟩⟩
    | (.tokenRegression, fence) =>
      (beaten.rotate epoch).map fun rotated =>
        ⟨rotated, [rotated, beaten],
          (fence.record rotated.token rotated.epoch rotatedAt sample.wall).2,
          ⟨rotated.token, rotatedAt, sample.wall⟩⟩

/-- The next token of the row would be a regression within the epoch of the ring. -/
def Detects (fence : FenceInner) (row : Heartbeat) : Prop :=
  fence.epoch = some row.epoch ∧ fence.regresses (row.token + 1) = true

/-- A probe records the next token; or it detects a regression, rotates the epoch, and records the
rotated token in an empty ring. -/
theorem probeOnce_cases {fence : FenceInner} {row : Heartbeat} {sampledAt : ℤ}
    {oldestXactStart : Option ℤ} {committedAt rotatedAt : ℕ} {epoch : Uuid} {r : Probed}
    (hfresh : epoch ≠ row.epoch)
    (h : probeOnce fence row sampledAt oldestXactStart committedAt epoch rotatedAt = some r) :
    (¬ Detects fence row ∧ r.row = ⟨row.token + 1, row.epoch⟩ ∧ r.commits = [r.row] ∧
        r.entry.token = row.token + 1 ∧
        fence.record r.entry.token row.epoch r.entry.committedAt r.entry.fenceWall =
          (.recorded, r.fence)) ∨
      (Detects fence row ∧ r.row = ⟨row.token + 2, epoch⟩ ∧
        r.commits = [r.row, ⟨row.token + 1, row.epoch⟩] ∧ r.entry.token = row.token + 2 ∧
        r.fence = ⟨some epoch, [r.entry]⟩) := by
  obtain ⟨beaten, hbeat, h⟩ := Option.bind_eq_some_iff.mp h
  rw [Heartbeat.eq_of_beat hbeat] at h
  simp only [recordSample] at h
  rcases fence.record_cases (row.token + 1) row.epoch committedAt
      (fenceWall sampledAt oldestXactStart) with
    ⟨hepoch, heq⟩ | ⟨hepoch, hregresses, heq⟩ | ⟨hepoch, hregresses, heq⟩
  · simp only [WriterSample.wall, heq, Option.some.injEq] at h
    subst h
    exact Or.inl ⟨fun hdetects => hepoch hdetects.1, rfl, rfl, rfl, heq⟩
  · simp only [WriterSample.wall, heq, Option.map_eq_some_iff] at h
    obtain ⟨rotated, hrotate, rfl⟩ := h
    rw [Heartbeat.eq_of_rotate hrotate]
    refine Or.inr ⟨⟨hepoch, hregresses⟩, by simp [add_assoc], by simp, by simp [add_assoc], ?_⟩
    -- The rotated epoch is new, so the record starts a ring of its own.
    have hne : fence.close.epoch ≠ some epoch := by
      rw [FenceInner.close, hepoch]
      exact fun heq => hfresh (Option.some.inj heq).symm
    rw [FenceInner.record, if_pos hne]
    rfl
  · simp only [WriterSample.wall, heq, Option.some.injEq] at h
    subst h
    exact Or.inl ⟨fun hdetects => hregresses hdetects.2, rfl, rfl, rfl, heq⟩

/-! ### Runs of one process -/

/-- The fence of the process and the heartbeat row of the writer; the rows committed on the present
timeline, every epoch there has been, and the entries recorded since the last restore. -/
structure Process where
  fence : FenceInner
  row : Heartbeat
  timeline : List Heartbeat
  epochs : List Uuid
  recorded : List TokenEntry

namespace Process

/-- Another process, or a probe that fails afterwards, commits a heartbeat row. -/
def commit (p : Process) (row : Heartbeat) : Process :=
  { p with row, timeline := row :: p.timeline, epochs := row.epoch :: p.epochs }

/-- The process after its own probe. -/
def probed (p : Process) (r : Probed) : Process where
  fence := r.fence
  row := r.row
  timeline := r.commits ++ p.timeline
  epochs := r.commits.map Heartbeat.epoch ++ p.epochs
  recorded := r.entry :: p.recorded

/-- The writer is restored: the token drops and the epoch stays. -/
def restore (p : Process) (token : ℤ) : Process :=
  { p with
    row := ⟨token, p.row.epoch⟩
    timeline := [⟨token, p.row.epoch⟩]
    recorded := [] }

end Process

/-- A failed probe closes the fence; the heartbeat row beats or changes its epoch. -/
inductive Quiet : Process → Process → Prop
  | fail {p} : Quiet p { p with fence := p.fence.close }
  | beat {p row} (hbeat : p.row.beat = some row) : Quiet p (p.commit row)
  | rotate {p epoch row} (hfresh : epoch ∉ p.epochs) (hrotate : p.row.rotate epoch = some row) :
      Quiet p (p.commit row)

/-- A probe of the process succeeds. -/
inductive Probes : Process → Process → Prop
  | intro {p r} (sampledAt : ℤ) (oldestXactStart : Option ℤ) (committedAt rotatedAt : ℕ)
      (epoch : Uuid) (hfresh : epoch ∉ p.epochs)
      (hprobe : probeOnce p.fence p.row sampledAt oldestXactStart committedAt epoch rotatedAt =
        some r) :
      Probes p (p.probed r)

/-- A step without a restore. -/
def Moves (p p' : Process) : Prop := Quiet p p' ∨ Probes p p'

/-- Any step. -/
def Lives (p p' : Process) : Prop :=
  Moves p p' ∨ ∃ token < p.row.token, p' = p.restore token

/-- A new process and a heartbeat row. -/
def started (row : Heartbeat) : Process := ⟨.new, row, [row], [row.epoch], []⟩

/-! ### What holds in every run -/

section Invariants

variable {p p' : Process}

/-- The tokens of the timeline lead up to the present row, and its epochs are on record. -/
structure Ordered (p : Process) : Prop where
  wellFormed : p.fence.WellFormed
  row : p.row ∈ p.timeline
  le_row : ∀ observed ∈ p.timeline, observed.token ≤ p.row.token
  epochs : ∀ observed ∈ p.timeline, observed.epoch ∈ p.epochs

theorem ordered_started (row : Heartbeat) : Ordered (started row) := by
  refine ⟨FenceInner.wellFormed_of_ring_eq_nil rfl, List.mem_singleton_self _, ?_, ?_⟩
  · intro observed hobserved
    rw [List.mem_singleton.mp hobserved]
    exact le_rfl
  · intro observed hobserved
    rw [List.mem_singleton.mp hobserved]
    exact List.mem_singleton_self _

theorem Ordered.restore (h : Ordered p) (token : ℤ) : Ordered (p.restore token) := by
  refine ⟨h.wellFormed, List.mem_singleton_self _, ?_, ?_⟩
  · intro observed hobserved
    rw [List.mem_singleton.mp hobserved]
    exact le_rfl
  · intro observed hobserved
    rw [List.mem_singleton.mp hobserved]
    exact h.epochs p.row h.row

theorem Ordered.commit (h : Ordered p) {row : Heartbeat} (htoken : p.row.token < row.token) :
    Ordered (p.commit row) := by
  refine ⟨h.wellFormed, List.mem_cons_self, ?_, ?_⟩
  · intro observed hobserved
    rcases List.mem_cons.mp hobserved with rfl | hobserved
    · exact le_rfl
    · exact (h.le_row observed hobserved).trans htoken.le
  · intro observed hobserved
    rcases List.mem_cons.mp hobserved with rfl | hobserved
    · exact List.mem_cons_self
    · exact List.mem_cons_of_mem _ (h.epochs observed hobserved)

theorem Quiet.ordered (hstep : Quiet p p') (h : Ordered p) : Ordered p' := by
  cases hstep with
  | fail => exact ⟨FenceInner.wellFormed_of_ring_eq_nil rfl, h.row, h.le_row, h.epochs⟩
  | beat hbeat =>
    rw [Heartbeat.eq_of_beat hbeat]
    exact h.commit (lt_add_one p.row.token)
  | rotate hfresh hrotate =>
    rw [Heartbeat.eq_of_rotate hrotate]
    exact h.commit (lt_add_one p.row.token)

/-- The probe of a process, with the entry it recorded. -/
theorem Probes.row_cases (hstep : Probes p p') (h : Ordered p) :
    ∃ e, p'.recorded = e :: p.recorded ∧
      ((¬ Detects p.fence p.row ∧ p'.row = ⟨p.row.token + 1, p.row.epoch⟩ ∧
          p'.timeline = p'.row :: p.timeline ∧ p'.epochs = p'.row.epoch :: p.epochs ∧
          e.token = p.row.token + 1 ∧
          p.fence.record e.token p.row.epoch e.committedAt e.fenceWall = (.recorded, p'.fence)) ∨
        ∃ epoch, epoch ∉ p.epochs ∧ Detects p.fence p.row ∧ p'.row = ⟨p.row.token + 2, epoch⟩ ∧
          p'.timeline = p'.row :: ⟨p.row.token + 1, p.row.epoch⟩ :: p.timeline ∧
          p'.epochs = p'.row.epoch :: p.row.epoch :: p.epochs ∧ e.token = p.row.token + 2 ∧
          p'.fence = ⟨some epoch, [e]⟩) := by
  cases hstep with
  | @intro r sampledAt oldestXactStart committedAt rotatedAt epoch hfresh hprobe =>
    have hne : epoch ≠ p.row.epoch := fun heq => hfresh (heq ▸ h.epochs p.row h.row)
    refine ⟨r.entry, rfl, ?_⟩
    rcases probeOnce_cases hne hprobe with
      ⟨hdetects, hrow, hcommits, htoken, hrecord⟩ | ⟨hdetects, hrow, hcommits, htoken, hfence⟩
    · refine Or.inl ⟨hdetects, hrow, ?_, ?_, htoken, hrecord⟩
      · rw [Process.probed, hcommits]
        rfl
      · rw [Process.probed, hcommits]
        rfl
    · refine Or.inr ⟨epoch, hfresh, hdetects, hrow, ?_, ?_, htoken, hfence⟩
      · rw [Process.probed, hcommits]
        rfl
      · rw [Process.probed, hcommits]
        rfl

theorem Probes.ordered (hstep : Probes p p') (h : Ordered p) : Ordered p' := by
  obtain ⟨e, -, ⟨-, hrow, htimeline, hepochs, -, hrecord⟩ |
    ⟨epoch, -, -, hrow, htimeline, hepochs, -, hfence⟩⟩ := hstep.row_cases h
  · have hbeaten : Ordered (p.commit p'.row) :=
      h.commit (by rw [hrow]; exact lt_add_one p.row.token)
    refine ⟨?_, ?_, ?_, ?_⟩
    · have hwellFormed := h.wellFormed.record e.token p.row.epoch e.committedAt e.fenceWall
      rwa [hrecord] at hwellFormed
    · rw [htimeline]
      exact hbeaten.row
    · rw [htimeline]
      exact hbeaten.le_row
    · rw [htimeline, hepochs]
      exact hbeaten.epochs
  · have hbeaten : Ordered (p.commit ⟨p.row.token + 1, p.row.epoch⟩) :=
      h.commit (lt_add_one p.row.token)
    have hlater : p.row.token + 1 < p'.row.token := by
      rw [hrow]
      show p.row.token + 1 < p.row.token + 2
      omega
    have hrotated := hbeaten.commit hlater
    refine ⟨?_, ?_, ?_, ?_⟩
    · rw [hfence]
      exact ⟨List.pairwise_singleton _ _, Nat.le_add_left 1 119⟩
    · rw [htimeline]
      exact hrotated.row
    · rw [htimeline]
      exact hrotated.le_row
    · rw [htimeline, hepochs]
      exact hrotated.epochs

theorem Moves.ordered (hstep : Moves p p') (h : Ordered p) : Ordered p' :=
  hstep.elim (fun hquiet => hquiet.ordered h) fun hprobes => hprobes.ordered h

theorem ordered_of_run {row : Heartbeat} (hrun : ReflTransGen Lives (started row) p) :
    Ordered p := by
  induction hrun with
  | refl => exact ordered_started row
  | tail _ hstep ih =>
    rcases hstep with hmoves | ⟨token, -, rfl⟩
    · exact hmoves.ordered ih
    · exact ih.restore token

/-- What a step without a restore can do: the token advances, the epoch stays or is new, and what is
recorded lies above the token before. -/
structure Advances (p p' : Process) : Prop where
  token : p.row.token ≤ p'.row.token
  recorded : ∀ e ∈ p'.recorded, e ∈ p.recorded ∨ p.row.token < e.token
  epochs : ∀ epoch ∈ p.epochs, epoch ∈ p'.epochs
  row : p'.row.epoch = p.row.epoch ∨ p'.row.epoch ∉ p.epochs
  fence : p'.fence.epoch = p.fence.epoch ∨ p'.fence.epoch = some p'.row.epoch

theorem Quiet.advances (h : Quiet p p') : Advances p p' := by
  cases h with
  | fail => exact ⟨le_rfl, fun _ he => Or.inl he, fun _ hepoch => hepoch, Or.inl rfl, Or.inl rfl⟩
  | beat hbeat =>
    rw [Heartbeat.eq_of_beat hbeat]
    exact ⟨(lt_add_one p.row.token).le, fun _ he => Or.inl he, fun _ => List.mem_cons_of_mem _,
      Or.inl rfl, Or.inl rfl⟩
  | rotate hfresh hrotate =>
    rw [Heartbeat.eq_of_rotate hrotate]
    exact ⟨(lt_add_one p.row.token).le, fun _ he => Or.inl he, fun _ => List.mem_cons_of_mem _,
      Or.inr hfresh, Or.inl rfl⟩

/-- A recorded sample leaves the ring under its epoch. -/
theorem epoch_of_record {fence fence' : FenceInner} {token : ℤ} {epoch : Uuid} {committedAt : ℕ}
    {fenceWall : ℤ}
    (h : fence.record token epoch committedAt fenceWall = (.recorded, fence')) :
    fence'.epoch = some epoch := by
  rcases fence.record_cases token epoch committedAt fenceWall with
    ⟨-, heq⟩ | ⟨-, -, heq⟩ | ⟨hepoch, -, heq⟩
  · rw [heq] at h
    rw [← (Prod.mk.inj h).2]
  · rw [heq] at h
    cases (Prod.mk.inj h).1
  · rw [heq] at h
    rw [← (Prod.mk.inj h).2]
    exact hepoch

theorem Probes.advances (hstep : Probes p p') (h : Ordered p) : Advances p p' := by
  obtain ⟨e, hrecorded, ⟨-, hrow, -, hepochs, htoken, hrecord⟩ |
    ⟨epoch, hfresh, -, hrow, -, hepochs, htoken, hfence⟩⟩ := hstep.row_cases h
  · refine ⟨?_, ?_, ?_, ?_, ?_⟩
    · rw [hrow]
      exact (lt_add_one p.row.token).le
    · intro e' he'
      rw [hrecorded] at he'
      rcases List.mem_cons.mp he' with rfl | he'
      · exact Or.inr (by omega)
      · exact Or.inl he'
    · intro epoch hepoch
      rw [hepochs]
      exact List.mem_cons_of_mem _ hepoch
    · rw [hrow]
      exact Or.inl rfl
    · rw [hrow]
      exact Or.inr (epoch_of_record hrecord)
  · refine ⟨?_, ?_, ?_, ?_, ?_⟩
    · rw [hrow]
      show p.row.token ≤ p.row.token + 2
      omega
    · intro e' he'
      rw [hrecorded] at he'
      rcases List.mem_cons.mp he' with rfl | he'
      · exact Or.inr (by omega)
      · exact Or.inl he'
    · intro epoch' hepoch'
      rw [hepochs]
      exact List.mem_cons_of_mem _ (List.mem_cons_of_mem _ hepoch')
    · rw [hrow]
      exact Or.inr hfresh
    · rw [hrow, hfence]
      exact Or.inr rfl

theorem Moves.advances (hstep : Moves p p') (h : Ordered p) : Advances p p' :=
  hstep.elim (fun hquiet => hquiet.advances) fun hprobes => hprobes.advances h

end Invariants

/-! ### After the restore -/

section Restored

variable {p p' q q' : Process} {past : List Heartbeat} {token : ℤ}

/-- The epochs of the fence and of the row are none that a past reader observes. -/
structure Rotated (past : List Heartbeat) (p : Process) : Prop where
  known : ∀ observed ∈ past, observed.epoch ∈ p.epochs
  row : ∀ observed ∈ past, p.row.epoch ≠ observed.epoch
  fence : ∀ observed ∈ past, ¬ p.fence.EpochAgrees observed.epoch

/-- Every entry recorded since the restore is above the token. -/
structure Passed (token : ℤ) (p : Process) : Prop where
  row : token ≤ p.row.token
  recorded : ∀ e ∈ p.recorded, token < e.token

theorem not_epochAgrees_of_ne {fence : FenceInner} {epoch observed : Uuid}
    (hepoch : fence.epoch = some epoch) (hne : epoch ≠ observed) :
    ¬ fence.EpochAgrees observed :=
  fun hagrees => hne (hagrees epoch hepoch)

theorem Rotated.advances (h : Rotated past p) (hstep : Advances p p') : Rotated past p' := by
  have hrow : ∀ observed ∈ past, p'.row.epoch ≠ observed.epoch := by
    intro observed hobserved
    rcases hstep.row with heq | hfresh
    · rw [heq]
      exact h.row observed hobserved
    · exact fun heq => hfresh (heq ▸ h.known observed hobserved)
  refine ⟨fun observed hobserved => hstep.epochs _ (h.known observed hobserved), hrow, ?_⟩
  intro observed hobserved
  rcases hstep.fence with heq | hnew
  · have hold := h.fence observed hobserved
    rwa [FenceInner.EpochAgrees, ← heq] at hold
  · exact not_epochAgrees_of_ne hnew (hrow observed hobserved)

theorem Passed.advances (h : Passed token p) (hstep : Advances p p') : Passed token p' := by
  refine ⟨h.row.trans hstep.token, fun e he => ?_⟩
  rcases hstep.recorded e he with hold | hnew
  · exact h.recorded e hold
  · exact h.row.trans_lt hnew

/-- What is known between the restore and the first successful probe. -/
structure Waiting (epoch : Uuid) (past : List Heartbeat) (p : Process) : Prop where
  ordered : Ordered p
  recorded : p.recorded = []
  known : ∀ observed ∈ past, observed.epoch ∈ p.epochs
  row : p.row.epoch = epoch ∨ ∀ observed ∈ past, p.row.epoch ≠ observed.epoch

theorem Waiting.quiet {epoch : Uuid} (h : Waiting epoch past p) (hstep : Quiet p p') :
    Waiting epoch past p' := by
  have hadvances := hstep.advances
  refine ⟨hstep.ordered h.ordered, ?_, ?_, ?_⟩
  · cases hstep <;> exact h.recorded
  · exact fun observed hobserved => hadvances.epochs _ (h.known observed hobserved)
  · rcases hadvances.row with heq | hfresh
    · rw [heq]
      exact h.row
    · exact Or.inr fun observed hobserved heq => hfresh (heq ▸ h.known observed hobserved)

theorem waiting_of_run (h : Ordered p)
    (hquiet : ReflTransGen Quiet (p.restore token) q) : Waiting p.row.epoch p.timeline q := by
  induction hquiet with
  | refl => exact ⟨h.restore token, rfl, h.epochs, Or.inl rfl⟩
  | tail _ hstep ih => exact ih.quiet hstep

/-- The observation from before the restore cannot prove an entry from after it. -/
def Safe (past : List Heartbeat) (p : Process) : Prop :=
  ∀ observed ∈ past, ∀ e ∈ p.recorded,
    p.fence.resolve observed.token observed.epoch ≠ .proved e

theorem Rotated.safe (h : Rotated past p) (hordered : Ordered p) : Safe past p := by
  intro observed hobserved e he hproved
  exact h.fence observed hobserved
    ((FenceInner.resolve_eq_proved_iff hordered.wellFormed).mp hproved).1

theorem Passed.safe (h : Passed token p) (hordered : Ordered p)
    (hpast : ∀ observed ∈ past, observed.token ≤ token) : Safe past p := by
  intro observed hobserved e he hproved
  have hle := ((FenceInner.resolve_eq_proved_iff hordered.wellFormed).mp hproved).2.2.1
  have habove := h.recorded e he
  have hbelow := hpast observed hobserved
  omega

/-- The first successful probe rotates the epoch when it detects the rewind, and finds it rotated
when another process did. -/
theorem Waiting.rotated {epoch : Uuid} (h : Waiting epoch past q) (hprobe : Probes q q')
    (hdetects : Detects q.fence q.row ∨ ∀ observed ∈ past, q.row.epoch ≠ observed.epoch) :
    Rotated past q' := by
  have hadvances := hprobe.advances h.ordered
  have hknown : ∀ observed ∈ past, observed.epoch ∈ q'.epochs := fun observed hobserved =>
    hadvances.epochs _ (h.known observed hobserved)
  obtain ⟨e, -, ⟨hnot, hrow, -, -, -, hrecord⟩ | ⟨epoch', hfresh, -, hrow, -, -, -, hfence⟩⟩ :=
    hprobe.row_cases h.ordered
  · have hne := hdetects.resolve_left hnot
    refine ⟨hknown, ?_, ?_⟩
    · rw [hrow]
      exact hne
    · exact fun observed hobserved =>
        not_epochAgrees_of_ne (epoch_of_record hrecord) (hne observed hobserved)
  · have hne : ∀ observed ∈ past, epoch' ≠ observed.epoch := fun observed hobserved heq =>
      hfresh (heq ▸ h.known observed hobserved)
    refine ⟨hknown, ?_, ?_⟩
    · rw [hrow]
      exact hne
    · rw [hfence]
      exact fun observed hobserved => not_epochAgrees_of_ne rfl (hne observed hobserved)

/-- Without a detected rewind the new entry is the newest of the ring. -/
theorem proved_of_not_detects (h : Ordered q) (hprobe : Probes q q')
    (hdetects : ¬ Detects q.fence q.row) {observed : ℤ} (hobserved : q.row.token < observed) :
    ∃ e ∈ q'.recorded, q'.fence.resolve observed q.row.epoch = .proved e := by
  have hordered := hprobe.ordered h
  obtain ⟨e, hrecorded, ⟨-, -, -, -, htoken, hrecord⟩ | ⟨_, -, hdetected, -⟩⟩ :=
    hprobe.row_cases h
  · have hlast : q'.fence.ring.getLast? = some e := by
      rcases q.fence.record_cases e.token q.row.epoch e.committedAt e.fenceWall with
        ⟨-, heq⟩ | ⟨-, -, heq⟩ | ⟨-, -, heq⟩
      · rw [heq] at hrecord
        rw [← (Prod.mk.inj hrecord).2]
        rfl
      · rw [heq] at hrecord
        cases (Prod.mk.inj hrecord).1
      · rw [heq] at hrecord
        rw [← (Prod.mk.inj hrecord).2]
        exact FenceInner.getLast?_ring_pushBack e
    refine ⟨e, hrecorded ▸ List.mem_cons_self, ?_⟩
    refine (FenceInner.resolve_eq_proved_iff hordered.wellFormed).mpr ⟨?_, ?_, ?_, ?_⟩
    · intro epoch hepoch
      rw [epoch_of_record hrecord] at hepoch
      exact (Option.some.inj hepoch).symm
    · exact List.mem_of_getLast? hlast
    · omega
    · exact fun e' he' _ => hordered.wellFormed.le_getLast hlast he'
  · exact absurd hdetected hdetects

/-- After a restore that keeps the epoch, the first successful probe leaves no entry that an
observation from before the restore proves, then or later, exactly when it finds another epoch, or
detects the rewind in what its ring retains, or reads a token past the one before the restore. -/
theorem restore_safe_iff {row : Heartbeat} (hbefore : ReflTransGen Lives (started row) p)
    (hquiet : ReflTransGen Quiet (p.restore token) q) (hprobe : Probes q q') :
    (∀ z, ReflTransGen Moves q' z → ∀ observed ∈ p.timeline, ∀ e ∈ z.recorded,
        z.fence.resolve observed.token observed.epoch ≠ .proved e) ↔
      q.row.epoch ≠ p.row.epoch ∨
        (q.fence.epoch = some q.row.epoch ∧ q.fence.regresses (q.row.token + 1) = true) ∨
        p.row.token ≤ q.row.token := by
  have hordered := ordered_of_run hbefore
  have hwaiting := waiting_of_run hordered hquiet
  have hfirst := hprobe.ordered hwaiting.ordered
  constructor
  · intro hsafe
    by_contra hcondition
    rw [not_or, not_or, not_not, not_le] at hcondition
    obtain ⟨hepoch, hdetects, hbehind⟩ := hcondition
    obtain ⟨e, he, hproved⟩ := proved_of_not_detects hwaiting.ordered hprobe hdetects hbehind
    rw [hepoch] at hproved
    exact hsafe q' .refl p.row hordered.row e he hproved
  · intro hcondition z hrun
    -- The epoch of the row before the probe is the old one, or none that a past reader observes.
    have hsafe : (Ordered z ∧ Rotated p.timeline z) ∨ (Ordered z ∧ Passed p.row.token z) := by
      by_cases hpassed : p.row.token ≤ q.row.token
      · have hentries : Passed p.row.token q' := by
          have hadvances := hprobe.advances hwaiting.ordered
          refine Passed.advances ⟨hpassed, ?_⟩ hadvances
          rw [hwaiting.recorded]
          exact fun e he => absurd he List.not_mem_nil
        refine Or.inr ?_
        induction hrun with
        | refl => exact ⟨hfirst, hentries⟩
        | tail _ hstep ih => exact ⟨hstep.ordered ih.1, ih.2.advances (hstep.advances ih.1)⟩
      · have hdetects : Detects q.fence q.row ∨
            ∀ observed ∈ p.timeline, q.row.epoch ≠ observed.epoch := by
          rcases hcondition with hne | hdetects | hle
          · exact Or.inr (hwaiting.row.resolve_left hne)
          · exact Or.inl hdetects
          · exact absurd hle hpassed
        have hrotated := hwaiting.rotated hprobe hdetects
        refine Or.inl ?_
        induction hrun with
        | refl => exact ⟨hfirst, hrotated⟩
        | tail _ hstep ih => exact ⟨hstep.ordered ih.1, ih.2.advances (hstep.advances ih.1)⟩
    rcases hsafe with ⟨hz, hrotated⟩ | ⟨hz, hpassed⟩
    · exact hrotated.safe hz
    · exact hpassed.safe hz hordered.le_row

/-- The heartbeat row of a process that has probed once. -/
def probedProcess : Process :=
  ⟨⟨some 7, [⟨1, 0, seconds 2035⟩]⟩, ⟨1, 7⟩, [⟨1, 7⟩, ⟨0, 7⟩], [7, 7], [⟨1, 0, seconds 2035⟩]⟩

theorem started_probed : ReflTransGen Lives (started ⟨0, 7⟩) probedProcess := by
  have hprobe : Probes (started ⟨0, 7⟩) ((started ⟨0, 7⟩).probed ⟨⟨1, 7⟩, [⟨1, 7⟩],
      ⟨some 7, [⟨1, 0, seconds 2035⟩]⟩, ⟨1, 0, seconds 2035⟩⟩) :=
    .intro (seconds 3000) none 0 0 8 (by decide) rfl
  exact .single (Or.inl (Or.inr hprobe))

/-- The first probe after a restore that the fence was not closed in between rotates the epoch. -/
theorem restore_safe_probedProcess :
    ReflTransGen Lives (started ⟨0, 7⟩) probedProcess ∧
      ∀ z, ReflTransGen Moves ((probedProcess.restore 0).probed
          ⟨⟨2, 8⟩, [⟨2, 8⟩, ⟨1, 7⟩], ⟨some 8, [⟨2, 1, seconds 3035⟩]⟩, ⟨2, 1, seconds 3035⟩⟩) z →
        ∀ observed ∈ probedProcess.timeline, ∀ e ∈ z.recorded,
          z.fence.resolve observed.token observed.epoch ≠ .proved e :=
  ⟨started_probed,
    (restore_safe_iff started_probed (.refl : ReflTransGen Quiet (probedProcess.restore 0) _)
      (.intro (seconds 4000) none 1 1 8 (by decide) rfl)).mpr (Or.inr (Or.inl ⟨rfl, rfl⟩))⟩

/-- One failed probe between the restore and the next successful one closes the fence. The rewound
token is recorded under the old epoch, and a reader from before the restore proves it. -/
theorem restore_unsafe_after_fail :
    ∃ q q' : Process, ReflTransGen Lives (started ⟨0, 7⟩) probedProcess ∧
      ReflTransGen Quiet (probedProcess.restore 0) q ∧ Probes q q' ∧
      ⟨1, 7⟩ ∈ probedProcess.timeline ∧ ⟨1, 1, seconds 3035⟩ ∈ q'.recorded ∧
      q'.fence.resolve 1 7 = .proved ⟨1, 1, seconds 3035⟩ := by
  refine ⟨{ probedProcess.restore 0 with fence := ⟨some 7, []⟩ }, _, started_probed,
    .single .fail, .intro (r := ⟨⟨1, 7⟩, [⟨1, 7⟩], ⟨some 7, [⟨1, 1, seconds 3035⟩]⟩,
      ⟨1, 1, seconds 3035⟩⟩) (seconds 4000) none 1 1 8 (by decide) rfl, ?_, ?_, rfl⟩
  · exact List.mem_cons_self
  · exact List.mem_cons_self

end Restored

end Buzz.Db
