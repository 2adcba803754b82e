import Buzz.Db.ReplicaFence.Handshake

/-!
# Soundness of the replica fence

The scan of a probe puts a barrier up and the token that follows certifies the wall, so everything a
fence retains is certified. Tokens increase along the commits of the writer: a snapshot that
observes a token at or above a retained one contains its commit, and with it every channel row at or
below the wall, those that are yet to be committed included.

## Main definitions

* `Sound`: the invariant.

## Main results

* `Sound.barrier`: the scan establishes the barrier.
* `Step.sound`: every step keeps the invariant.
* `proved_covers`: a proved entry covers every row that is ever committed below its wall.
-/

namespace Buzz.Db

open Buzz.Core Relation

variable {Pod : Type*}

/-! ### The invariant -/

/-- The rows that the guard has let through are recent enough. -/
structure TransactionSound (now : ℤ) (tx : Transaction) : Prop where
  start : tx.xactStart ≤ now
  committing : ∀ since unchecked, tx.phase = .committing since unchecked →
    tx.xactStart ≤ since ∧ since ≤ now ∧ ∀ row ∈ tx.rows, row.channelId.isSome = true →
      row ∈ unchecked ∨ since - seconds createdAtFloorSecs ≤ row.createdAt
  prepared : ∀ time, tx.phase = .prepared time → ∀ row ∈ tx.rows, row.channelId.isSome = true →
    time - seconds createdAtFloorSecs - seconds fenceClockMarginSecs < row.createdAt

/-- The heartbeat tokens increase along the commits. -/
def TokensIncrease (commits : List Commit) : Prop :=
  (commits.filterMap Commit.heartbeat?).Pairwise fun older newer => older.token < newer.token

/-- The invariant. -/
structure Sound (w : World Pod) : Prop where
  txs : ∀ xid tx, w.txs xid = some tx → TransactionSound w.now tx
  tokens : TokensIncrease w.commits
  probes : ∀ pod, ProbeSound w (w.probes pod)
  wellFormed : ∀ pod, (w.fences pod).WellFormed
  retained : ∀ pod, ∀ e ∈ (w.fences pod).ring, Certified w e.token e.fenceWall

section Steps

variable {w w' : World Pod}

theorem TransactionSound.mono {now now' : ℤ} {tx : Transaction} (h : TransactionSound now tx)
    (hnow : now ≤ now') : TransactionSound now' tx := by
  refine ⟨h.start.trans hnow, ?_, h.prepared⟩
  intro since unchecked hphase
  obtain ⟨hstart, hsince, hrows⟩ := h.committing since unchecked hphase
  exact ⟨hstart, hsince.trans hnow, hrows⟩

/-- A transaction that still writes is sound. -/
theorem TransactionSound.of_active {now : ℤ} {tx : Transaction} (hstart : tx.xactStart ≤ now)
    (hphase : tx.phase = .active) : TransactionSound now tx := by
  refine ⟨hstart, ?_, ?_⟩
  · intro since unchecked hcommitting
    rw [hphase] at hcommitting
    cases hcommitting
  · intro time hprepared
    rw [hphase] at hprepared
    cases hprepared

theorem TransactionSound.beginCommit {now : ℤ} {tx : Transaction} (h : TransactionSound now tx) :
    TransactionSound now { tx with phase := .committing now tx.rows } := by
  refine ⟨h.start, ?_, fun _ hprepared => nomatch hprepared⟩
  intro since unchecked hcommitting
  cases hcommitting
  exact ⟨h.start, le_rfl, fun row hrow _ => Or.inl hrow⟩

/-- A row that passes the guard is no older than the floor allows. -/
theorem TransactionSound.guard {now since : ℤ} {tx : Transaction} {row : EventRow}
    {unchecked : List EventRow} (h : TransactionSound now tx)
    (hphase : tx.phase = .committing since (row :: unchecked))
    (hguard : floorGuard (some createdAtFloorSecs) now row = false) :
    TransactionSound now { tx with phase := .committing since unchecked } := by
  obtain ⟨hstart, hsince, hrows⟩ := h.committing since _ hphase
  refine ⟨h.start, ?_, fun _ hprepared => nomatch hprepared⟩
  intro since' unchecked' hcommitting
  cases hcommitting
  refine ⟨hstart, hsince, fun row' hrow' hchannel => ?_⟩
  rcases hrows row' hrow' hchannel with hmem | hrecent
  · rcases List.mem_cons.mp hmem with rfl | hmem
    · have hrecent := le_createdAt_of_floorGuard hguard hchannel
      exact Or.inr (by omega)
    · exact Or.inl hmem
  · exact Or.inr hrecent

/-- The margin covers the time between the guards and the listed time. -/
theorem TransactionSound.prepare {now since : ℤ} {tx : Transaction} (h : TransactionSound now tx)
    (hphase : tx.phase = .committing since [])
    (hnoise : now < since + seconds fenceClockMarginSecs) :
    TransactionSound now { tx with phase := .prepared now } := by
  obtain ⟨-, -, hrows⟩ := h.committing since _ hphase
  refine ⟨h.start, (fun _ _ hcommitting => nomatch hcommitting), ?_⟩
  intro time hprepared row hrow hchannel
  cases hprepared
  rcases hrows row hrow hchannel with hmem | hrecent
  · exact absurd hmem List.not_mem_nil
  · omega

/-- Every transaction that is in the view lies above the wall, as far as it is checked. -/
theorem TransactionSound.mem_unchecked {now wall : ℤ} {tx : Transaction}
    (h : TransactionSound now tx)
    (hwall : wall ≤ tx.listedAt - seconds createdAtFloorSecs - seconds fenceClockMarginSecs)
    {row : EventRow} (hrow : row ∈ tx.rows) (hbelow : Below wall row) : row ∈ tx.unchecked := by
  obtain ⟨hchannel, hcreated⟩ := hbelow
  cases hphase : tx.phase with
  | active =>
    rw [Transaction.unchecked, hphase]
    exact hrow
  | committing since unchecked =>
    obtain ⟨hstart, -, hrows⟩ := h.committing since unchecked hphase
    rw [Transaction.unchecked, hphase]
    refine (hrows row hrow hchannel).resolve_right fun hrecent => ?_
    simp only [Transaction.listedAt, hphase, seconds, fenceClockMarginSecs] at hwall hrecent
    omega
  | prepared time =>
    have hrecent := h.prepared time hphase row hrow hchannel
    simp only [Transaction.listedAt, hphase] at hwall
    omega

/-- The scan puts the barrier up: of the three kinds of transaction, finished ones are gone, open
ones are in the view, and those to come meet the guard after `S`. -/
theorem Sound.barrier (h : Sound w) {sampledAt : ℤ} (hsampled : sampledAt ≤ w.now) {ownPid : ℕ}
    {activity : List Backend} {prepared : List ℤ} {oldestXactStart : Option ℤ}
    (hvisible : w.Visible ownPid activity prepared)
    (hscan : scanActivity ownPid activity prepared = .ok oldestXactStart) :
    Barrier w (fenceWall sampledAt oldestXactStart) := by
  refine ⟨?_, ?_⟩
  · have hwall := fenceWall_le sampledAt oldestXactStart
    omega
  · intro xid tx htx row hrow hbelow
    have hwall := fenceWall_le_of_scanActivity hscan (hvisible xid tx htx) sampledAt
    exact (h.txs xid tx htx).mem_unchecked hwall hrow hbelow

theorem TokensIncrease.evolves (h : TokensIncrease w.commits) (hstep : Evolves w w') :
    TokensIncrease w'.commits := by
  rcases hstep.commits with heq | ⟨row, row', hrow, htoken, heq⟩ | ⟨xid, tx, -, -, heq⟩
  · rw [heq]
    exact h
  · rw [TokensIncrease, heq, List.filterMap_append]
    refine List.pairwise_append.mpr
      ⟨h, List.pairwise_singleton _ _, fun older holder newer hnew => ?_⟩
    obtain ⟨front, hfront⟩ := List.getLast?_eq_some_iff.mp hrow
    have hlast : older.token ≤ row.token := by
      rw [TokensIncrease, hfront] at h
      rw [hfront] at holder
      rcases List.mem_append.mp holder with holder | holder
      · exact ((List.pairwise_append.mp h).2.2 older holder row (List.mem_singleton_self _)).le
      · rw [List.mem_singleton.mp holder]
    rw [List.mem_singleton.mp hnew]
    exact hlast.trans_lt htoken
  · have hnone : [Commit.rows tx.rows].filterMap Commit.heartbeat? = [] := rfl
    rw [TokensIncrease, heq, List.filterMap_append, hnone, List.append_nil]
    exact h

/-- What a step has to show besides what evolves. -/
theorem Sound.of_evolves (h : Sound w) (hstep : Evolves w w')
    (htxs : ∀ xid tx, w'.txs xid = some tx → TransactionSound w'.now tx)
    (hprobes : ∀ pod, w'.probes pod = w.probes pod ∨ ProbeSound w' (w'.probes pod))
    (hfences : ∀ pod, w'.fences pod = w.fences pod ∨ (w'.fences pod).WellFormed ∧
      ∀ e ∈ (w'.fences pod).ring, e ∈ (w.fences pod).ring ∨ Certified w' e.token e.fenceWall) :
    Sound w' := by
  refine ⟨htxs, h.tokens.evolves hstep, ?_, ?_, ?_⟩
  · intro pod
    rcases hprobes pod with heq | hnew
    · rw [heq]
      exact (h.probes pod).evolves hstep
    · exact hnew
  · intro pod
    rcases hfences pod with heq | ⟨hnew, -⟩
    · rw [heq]
      exact h.wellFormed pod
    · exact hnew
  · intro pod e he
    rcases hfences pod with heq | ⟨-, hnew⟩
    · rw [heq] at he
      exact (h.retained pod e he).evolves hstep
    · rcases hnew e he with hold | hnew
      · exact (h.retained pod e hold).evolves hstep
      · exact hnew

/-- A step of one transaction has to show that it is still sound. -/
theorem Sound.setTx (h : Sound w) {xid : ℕ} {new : Option Transaction}
    (hstep : Evolves w (w.setTx xid new))
    (hnew : ∀ tx', new = some tx' → TransactionSound w.now tx') : Sound (w.setTx xid new) := by
  refine h.of_evolves hstep ?_ (fun _ => Or.inl rfl) (fun _ => Or.inl rfl)
  intro xid' tx' htx'
  by_cases hxid : xid' = xid
  · subst hxid
    exact hnew tx' ((World.txs_setTx_self w xid' new).symm.trans htx')
  · rw [World.txs_setTx_of_ne w new hxid] at htx'
    exact h.txs xid' tx' htx'

theorem Sound.commit (h : Sound w) {xid : ℕ} {tx : Transaction}
    (hstep : Evolves w ((w.setTx xid none).commit (.rows tx.rows))) :
    Sound ((w.setTx xid none).commit (.rows tx.rows)) := by
  have hset : Sound (w.setTx xid none) :=
    h.setTx (Evolves.setTx fun _ hnone => nomatch hnone) fun _ hnone => nomatch hnone
  exact h.of_evolves hstep hset.txs (fun _ => Or.inl rfl) (fun _ => Or.inl rfl)

section Pods

variable [DecidableEq Pod]

/-- A step of one pod has to show where its probe is and what its fence retains. -/
theorem Sound.of_pod (h : Sound w) (hstep : Evolves w w') (hnow : w'.now = w.now)
    (htxs : w'.txs = w.txs) {pod : Pod} {probe : Probe} {fence : FenceInner}
    (hprobes : w'.probes = Function.update w.probes pod probe) (hprobe : ProbeSound w' probe)
    (hfences : w'.fences = Function.update w.fences pod fence) (hwellFormed : fence.WellFormed)
    (hretained : ∀ e ∈ fence.ring, e ∈ (w.fences pod).ring ∨ Certified w' e.token e.fenceWall) :
    Sound w' := by
  refine h.of_evolves hstep ?_ ?_ ?_
  · rw [htxs, hnow]
    exact h.txs
  · intro pod'
    rw [hprobes]
    by_cases hpod : pod' = pod
    · subst hpod
      rw [Function.update_self]
      exact Or.inr hprobe
    · exact Or.inl (Function.update_of_ne hpod ..)
  · intro pod'
    rw [hfences]
    by_cases hpod : pod' = pod
    · subst hpod
      rw [Function.update_self]
      exact Or.inr ⟨hwellFormed, hretained⟩
    · exact Or.inl (Function.update_of_ne hpod ..)

/-- A step of one pod that leaves its fence alone. -/
theorem Sound.of_probe (h : Sound w) (hstep : Evolves w w') (hnow : w'.now = w.now)
    (htxs : w'.txs = w.txs) {pod : Pod} {probe : Probe}
    (hprobes : w'.probes = Function.update w.probes pod probe) (hprobe : ProbeSound w' probe)
    (hfences : w'.fences = w.fences) : Sound w' :=
  h.of_pod hstep hnow htxs hprobes hprobe (hfences.trans (Function.update_eq_self pod _).symm)
    (h.wellFormed pod) fun _ he => Or.inl he

/-- Recording a certified token keeps the fence certified. -/
theorem Sound.record (h : Sound w) {pod : Pod} {token wall : ℤ}
    (hcertified : Certified w token wall)
    (epoch : Uuid) (committedAt : ℕ) {probe : Probe} (hprobe : ProbeSound w probe) :
    Sound ((w.setFence pod ((w.fences pod).record token epoch committedAt wall).2).setProbe pod
      probe) := by
  have hstep : Evolves w ((w.setFence pod
      ((w.fences pod).record token epoch committedAt wall).2).setProbe pod probe) :=
    .of_pod rfl rfl (Or.inl rfl)
  refine h.of_pod hstep rfl rfl rfl (hprobe.evolves hstep) rfl ((h.wellFormed pod).record ..) ?_
  intro e he
  rcases FenceInner.mem_ring_record he with hold | rfl
  · exact Or.inl hold
  · exact Or.inr (hcertified.evolves hstep)

theorem Sound.recordProbe (h : Sound w) {pod : Pod} {sample : WriterSample}
    (hprobe : w.probes pod = .committed sample) : Sound (w.recordProbe pod sample) := by
  have hcertified : Certified w sample.token sample.wall := by
    have hsound := h.probes pod
    rwa [hprobe] at hsound
  have hrecord := fun probe => @Sound.record Pod w _ h pod _ _ hcertified sample.epoch
    sample.committedAt probe
  rw [World.recordProbe]
  split
  · next fence heq =>
    have hfence : fence = (recordSample (w.fences pod) sample).2 := by rw [heq]
    rw [hfence]
    exact hrecord .idle trivial
  · next fence heq =>
    have hfence : fence = (recordSample (w.fences pod) sample).2 := by rw [heq]
    obtain ⟨position, hat⟩ := hcertified
    rw [hfence]
    exact hrecord (.rotating sample.wall) hat.barrier

theorem Step.sound (hstep : Step w w') (h : Sound w) : Sound w' := by
  have hevolves := hstep.evolves
  cases hstep with
  | tick time hlater =>
    exact h.of_evolves hevolves (fun xid tx htx => (h.txs xid tx htx).mono hlater)
      (fun _ => Or.inl rfl) (fun _ => Or.inl rfl)
  | start xid xactStart hfree hstart =>
    refine h.setTx hevolves fun tx' htx' => ?_
    cases htx'
    exact .of_active hstart rfl
  | @write xid tx row htx hphase =>
    refine h.setTx hevolves fun tx' htx' => ?_
    cases htx'
    exact .of_active (h.txs xid tx htx).start hphase
  | abort xid => exact h.setTx hevolves fun _ hnone => nomatch hnone
  | @beginCommit xid tx htx hphase =>
    refine h.setTx hevolves fun tx' htx' => ?_
    cases htx'
    exact (h.txs xid tx htx).beginCommit
  | @guard xid tx since row unchecked htx hphase =>
    refine h.setTx hevolves fun tx' htx' => ?_
    split_ifs at htx' with hguard
    cases htx'
    exact (h.txs xid tx htx).guard hphase (by simpa using hguard)
  | commit htx hphase => exact h.commit hevolves
  | @prepare xid tx since htx hphase hnoise =>
    refine h.setTx hevolves fun tx' htx' => ?_
    cases htx'
    exact (h.txs xid tx htx).prepare hphase hnoise
  | commitPrepared htx hphase => exact h.commit hevolves
  | sample hprobe => exact h.of_probe hevolves rfl rfl rfl le_rfl rfl
  | @scan pod sampledAt _ _ _ oldestXactStart hprobe hvisible hscan =>
    have hsampled : sampledAt ≤ w.now := by
      have hsound := h.probes pod
      rwa [hprobe] at hsound
    have hbarrier := h.barrier hsampled hvisible hscan
    exact h.of_probe hevolves rfl rfl rfl (hbarrier.evolves hevolves) rfl
  | @beat pod sampledAt oldestXactStart _ row' committedAt hprobe hrow hbeat =>
    have hbarrier : Barrier w (fenceWall sampledAt oldestXactStart) := by
      have hsound := h.probes pod
      rwa [hprobe] at hsound
    exact h.of_probe hevolves rfl rfl rfl
      ((hbarrier.certified row').evolves (.of_pod rfl rfl (Or.inl rfl))) rfl
  | record hprobe => exact h.recordProbe hprobe
  | @rotate pod wall _ row' epoch committedAt hprobe hrow hrotate =>
    have hbarrier : Barrier w wall := by
      have hsound := h.probes pod
      rwa [hprobe] at hsound
    exact h.of_probe hevolves rfl rfl rfl
      ((hbarrier.certified row').evolves (.of_pod rfl rfl (Or.inl rfl))) rfl
  | @recordRotation pod wall row committedAt hprobe =>
    have hcertified : Certified w row.token wall := by
      have hsound := h.probes pod
      rwa [hprobe] at hsound
    exact h.record hcertified row.epoch committedAt trivial
  | fail pod =>
    exact h.of_pod hevolves rfl rfl rfl trivial rfl (FenceInner.wellFormed_of_ring_eq_nil rfl)
      fun _ he => absurd he List.not_mem_nil
  | restart pod =>
    exact h.of_pod hevolves rfl rfl rfl trivial rfl (FenceInner.wellFormed_of_ring_eq_nil rfl)
      fun _ he => absurd he List.not_mem_nil

end Pods

theorem Initial.sound (h : Initial w) : Sound w := by
  refine ⟨?_, ?_, ?_, ?_, ?_⟩
  · intro xid tx htx
    rw [h.txs xid] at htx
    cases htx
  · obtain ⟨history, epoch, hcommits⟩ := h.commits
    have hnone : (history.map Commit.rows).filterMap Commit.heartbeat? = [] := by
      rw [List.filterMap_map]
      exact List.filterMap_eq_nil_iff.mpr fun _ _ => rfl
    rw [TokensIncrease, hcommits, List.filterMap_append, hnone, List.nil_append]
    exact List.pairwise_singleton _ _
  · intro pod
    rw [h.probes pod]
    exact trivial
  · intro pod
    rw [h.fences pod]
    exact FenceInner.wellFormed_of_ring_eq_nil rfl
  · intro pod e he
    rw [h.fences pod] at he
    exact absurd he List.not_mem_nil

end Steps

/-! ### A proved entry covers its wall -/

section Runs

variable [DecidableEq Pod] {w₀ w w' : World Pod}

theorem sound_of_run (hinitial : Initial w₀) (hrun : ReflTransGen Step w₀ w) : Sound w := by
  induction hrun with
  | refl => exact hinitial.sound
  | tail _ hstep ih => exact hstep.sound ih

theorem CertifiedAt.run {position : ℕ} {token wall : ℤ} (h : CertifiedAt w position token wall)
    (hrun : ReflTransGen Step w w') : CertifiedAt w' position token wall := by
  induction hrun with
  | refl => exact h
  | tail _ hstep ih => exact ih.evolves hstep.evolves

theorem commits_prefix_of_run (hrun : ReflTransGen Step w w') : w.commits <+: w'.commits := by
  induction hrun with
  | refl => exact List.prefix_rfl
  | tail _ hstep ih =>
    refine ih.trans ?_
    rcases hstep.evolves.commits with heq | ⟨_, _, _, _, heq⟩ | ⟨_, _, _, _, heq⟩
    · exact heq ▸ List.prefix_rfl
    · rw [heq]
      exact List.prefix_append _ _
    · rw [heq]
      exact List.prefix_append _ _

/-- A snapshot that observes a token at or above a committed one contains its commit. -/
theorem lt_length_of_observeHeartbeat {commits snapshot : List Commit}
    (htokens : TokensIncrease commits) (hsnapshot : snapshot <+: commits) {observed row : Heartbeat}
    (hobserved : observeHeartbeat snapshot = some observed) {position : ℕ}
    (hrow : commits[position]? = some (.heartbeat row)) (hle : row.token ≤ observed.token) :
    position < snapshot.length := by
  obtain ⟨rest, rfl⟩ := hsnapshot
  by_contra hposition
  rw [List.getElem?_append_right (not_lt.mp hposition)] at hrow
  have hmem : row ∈ rest.filterMap Commit.heartbeat? :=
    List.mem_filterMap.mpr ⟨_, List.mem_of_getElem? hrow, rfl⟩
  rw [TokensIncrease, List.filterMap_append] at htokens
  have hlt := (List.pairwise_append.mp htokens).2.2 observed (List.mem_of_getLast? hobserved) row
    hmem
  omega

/-- In every run, the rings are increasing and bounded, and resolving finds the greatest retained
entry at or below the observed token. When a snapshot proves an entry, every channel row at or below
its wall that is ever committed is in that snapshot. -/
theorem proved_covers (hinitial : Initial w₀) (hrun : ReflTransGen Step w₀ w) (pod : Pod) :
    ((w.fences pod).ring.Pairwise fun older newer => older.token < newer.token) ∧
      (w.fences pod).ring.length ≤ ringCapacity ∧
      (∀ token epoch e, (w.fences pod).resolve token epoch = .proved e ↔
        (w.fences pod).EpochAgrees epoch ∧ e ∈ (w.fences pod).ring ∧ e.token ≤ token ∧
          ∀ e' ∈ (w.fences pod).ring, e'.token ≤ token → e'.token ≤ e.token) ∧
      ∀ snapshot observed e, snapshot <+: w.commits → observeHeartbeat snapshot = some observed →
        (w.fences pod).resolve observed.token observed.epoch = .proved e →
        ∀ w', ReflTransGen Step w w' → ∀ (k : ℕ) (rows : List EventRow) (row : EventRow),
          w'.commits[k]? = some (.rows rows) → row ∈ rows → row.channelId.isSome = true →
            row.createdAt ≤ e.fenceWall → snapshot[k]? = some (.rows rows) := by
  have hsound := sound_of_run hinitial hrun
  have hwellFormed := hsound.wellFormed pod
  have hresolve := fun token epoch e =>
    @FenceInner.resolve_eq_proved_iff _ hwellFormed token epoch e
  refine ⟨hwellFormed.increasing, hwellFormed.bounded, hresolve, ?_⟩
  intro snapshot observed e hsnapshot hobserved hproved w' hlater k rows row hrows hrow hchannel
    hcreated
  obtain ⟨-, he, hle, -⟩ := (hresolve _ _ _).mp hproved
  obtain ⟨position, hcertified⟩ := hsound.retained pod e he
  obtain ⟨beat, hbeat, htoken⟩ := hcertified.token
  have hposition : position < snapshot.length :=
    lt_length_of_observeHeartbeat hsound.tokens hsnapshot hobserved hbeat (by omega)
  -- The row cannot lie after the token, so it lies before it, in the snapshot.
  have hk : k ≤ position := by
    by_contra hk
    exact (hcertified.run hlater).later k rows (not_le.mp hk) hrows row hrow ⟨hchannel, hcreated⟩
  obtain ⟨rest, hrest⟩ := hsnapshot.trans (commits_prefix_of_run hlater)
  rw [← hrest, List.getElem?_append_left (hk.trans_lt hposition)] at hrows
  exact hrows

/-- A channel row was committed before the heartbeat row was seeded. -/
def seededWorld : World Unit :=
  ⟨seconds 3000, fun _ => none, [.rows [⟨some 3, seconds 1100⟩], .heartbeat ⟨0, 7⟩], fun _ => .new,
    fun _ => .idle⟩

/-- One probe of an idle writer proves the wall 965 seconds before its sample. -/
theorem proved_covers_seeded : ∃ w : World Unit, ReflTransGen Step seededWorld w ∧
    (w.fences ()).resolve 1 7 = .proved ⟨1, 0, seconds 2035⟩ ∧
    ∀ w', ReflTransGen Step w w' → ∀ (k : ℕ) (rows : List EventRow) (row : EventRow),
      w'.commits[k]? = some (.rows rows) → row ∈ rows → row.channelId.isSome = true →
        row.createdAt ≤ seconds 2035 → w.commits[k]? = some (.rows rows) := by
  have hinitial : Initial seededWorld :=
    ⟨fun _ => rfl, ⟨[[⟨some 3, seconds 1100⟩]], 7, rfl⟩, fun _ => rfl, fun _ => rfl⟩
  have hsample := ReflTransGen.single (@Step.sample Unit _ seededWorld () rfl)
  have hscan := hsample.tail (@Step.scan Unit _ _ () (seconds 3000) 0 [] [] none rfl
    (fun _ _ htx => nomatch htx) rfl)
  have hbeat := hscan.tail (@Step.beat Unit _ _ () (seconds 3000) none ⟨0, 7⟩ ⟨1, 7⟩ 0 rfl rfl rfl)
  have hrun := hbeat.tail (@Step.record Unit _ _ () ⟨seconds 3000, none, 1, 7, 0⟩ rfl)
  refine ⟨_, hrun, rfl, ?_⟩
  exact (proved_covers hinitial hrun ()).2.2.2 _ ⟨1, 7⟩ ⟨1, 0, seconds 2035⟩ List.prefix_rfl rfl rfl

end Runs

end Buzz.Db
