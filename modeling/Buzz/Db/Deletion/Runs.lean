import Buzz.Db.Deletion.Operations

/-!
# Runs of the deletion store

Any number of executors, operators and tenants run operations of the store, one transaction after
the other, and act on a world outside of it. Statements of their transactions interleave in any
order, and any of them may stop or lose its transaction at any time.

## Main results

* `requests_go_on`: what a request keeps from any time of a run to any later one.
* `frozen_chunks_stay`: the chunks of a frozen manifest keep their keys up to their verification.
* `stage_moves`: every change of a stage is a move of its operation, by the holder of the claim.
* `stale_claims_fail`: a claim that has been taken over moves nothing.
* `lifecycle_advances`: the fence generation, and the state within it, only go forward.
* `fenced_rows_stay`: no tenant writes behind the fence, and none but under leases from before
  while the community is quiescing.
* `stale_leases_fail`: a serving lease of a former generation is worth nothing.
* `abort_restores`: an abort restores what the first attempt to quiesce has found.
-/

namespace Buzz.Db.Deletion

open Buzz.Core (Uuid)
open Buzz.Library Buzz.Library.Transactions

variable {χ ω : Type} {B : χ → Type} {acts : ω → (x : χ) → B x → ω → Prop} {drifts : ω → ω → Prop}
  {hashing : Hashing} {db : Tables} {world : ω} {now : ℤ}
  {processes : ℕ → Transactions.Process DbError Op.Result B}
  {h : List (Happening Tables DbError Op.Result B)}
  {s s₁ s₂ s₃ : System LockKey Tables DbError ω Op.Result B}

/-- A run of the store from sound tables. -/
def Running (hashing : Hashing) (acts : ω → (x : χ) → B x → ω → Prop) (drifts : ω → ω → Prop)
    (h : List (Happening Tables DbError Op.Result B))
    (s : System LockKey Tables DbError ω Op.Result B) : Prop :=
  ∃ db world now processes, Tables.Sound db ∧
    Reachable (Op.program hashing) acts drifts (.initial db world now processes) h s

/-- What every commit keeps, is kept from any time of a run to any later one. -/
theorem Running.keeps {P : Tables → Prop} (hr : Running hashing acts drifts h s)
    (hP : ∀ held d d', Commits held d d' → P d → P d')
    (hfollows : Follows (Op.program hashing) acts drifts s s₁) (hs : P s.db) : P s₁.db := by
  obtain ⟨db, world, now, processes, hdb, hreachable⟩ := hr
  exact hreachable.keeps (fun _ _ _ hcommits => hcommits.guarantee.sound)
    (fun op start state hstate => safe_program hashing op start state hstate) hP hdb hfollows hs

theorem Running.follows (hr : Running hashing acts drifts h s)
    (hfollows : Follows (Op.program hashing) acts drifts s s₁) :
    ∃ h', Running hashing acts drifts h' s₁ := by
  obtain ⟨db, world, now, processes, hdb, hreachable⟩ := hr
  obtain ⟨h', hreachable'⟩ := hreachable.follows hfollows
  exact ⟨h', db, world, now, processes, hdb, hreachable'⟩

section

variable {op : Op} {result : op.Result} {start : ℤ}

theorem Running.commit (hr : Running hashing acts drifts h s)
    (hc : Commitment (Op.program hashing) acts drifts op result start s s₁) :
    op.Commit start result s.db s₁.db ∧ ∃ held, Commits held s.db s₁.db := by
  obtain ⟨db, world, now, processes, hdb, hreachable⟩ := hr
  obtain ⟨n, begun, hstep⟩ := hc
  exact hreachable.commits (Q := fun op start _ result => op.Commit start result)
    (fun _ _ _ hcommits => hcommits.guarantee.sound)
    (fun op start state hstate => safe_program hashing op start state hstate) hdb hstep

theorem Running.sound (hr : Running hashing acts drifts h s) : s.db.Sound := by
  obtain ⟨db, world, now, processes, hdb, hreachable⟩ := hr
  exact (hreachable.safe (Q := fun op start _ result => op.Commit start result)
    (fun _ _ _ hcommits => hcommits.guarantee.sound)
    (fun op start state hstate => safe_program hashing op start state hstate) hdb).1

end

/-! ### Operations of one process -/

/-- The tables after an operation that runs alone, where it is not refused. -/
def Op.after (hashing : Hashing) (start : ℤ) (op : Op) (t : Tables) : Option Tables :=
  (alone (op.program hashing start) id t).map fun r => r.2 t

/-! #### One process in an empty world -/

/-- An approved request, under its claim. -/
def claimedRequest : DeletionRequest :=
  { DeletionRequest.new 0 "a.example" "op" none with
    stage := .approved
    inventoryDigest := some []
    leaseOwner := some "ex"
    leaseGeneration := 1
    leaseUntil := some 100 }

def claimToken : LeaseToken := ⟨1, "ex", 1, none⟩

/-- The tables of a community with one request, and one chunk. -/
def requestTables (r : DeletionRequest) : Tables where
  community := ⟨"a.example", .active, 0, none, none, none, none⟩
  requests := AList.insert 1 r ∅
  approvals := AList.insert 1 ⟨[], "op", none⟩ ∅
  manifestKeys := AList.insert (1, 0) ⟨[], [], none⟩ ∅
  leases := ∅
  issued := []
  rows := fun _ => []
  scopedTables := ∅
  fencedTables := ∅

theorem sound_requestTables (r : DeletionRequest) : (requestTables r).Sound := by
  refine ⟨fun i row hrow => ?_, fun i i' r₁ r₂ hr₁ hr₂ _ _ => ?_⟩
  · cases hrow
  · have hone {j : Uuid} {r' : DeletionRequest}
        (hj : (requestTables r).requests.lookup j = some r') : j = 1 := by
      by_contra hne
      rw [show (requestTables r).requests.lookup j = _ from HashMap.lookup_insert_eq _ _ _ _,
        if_neg hne] at hj
      cases hj
    exact (hone hr₁).trans (hone hr₂).symm

def trivialHashing : Hashing := ⟨id, fun _ => []⟩

/-- The tables after an operation at time 0, as far as it is not refused. -/
def afterwards (op : Op) (t : Tables) : Tables := (op.after trivialHashing 0 t).getD t

def quiescedTables : Tables :=
  afterwards (.beginQuiescing claimToken) (requestTables claimedRequest)

def fencedTables : Tables := afterwards (.fence claimToken) quiescedTables

/-- A system in which nothing is done on the world. -/
abbrev StoreOnly := System LockKey Tables DbError Unit Op.Result fun _ : Empty => Unit

namespace StoreOnly

/-- The start of a process that runs operations. -/
def start (r : DeletionRequest) (ops : List Op) : StoreOnly :=
  .initial (requestTables r) ⟨⟩ 0 fun n => if n = 0 then sequence ops else .cut

def Runs (h : List (Happening Tables DbError Op.Result fun _ : Empty => Unit)) (s : StoreOnly) :
    Prop := Running trivialHashing (fun _ _ _ _ => False) (fun _ _ => False) h s

theorem sequential_start (r : DeletionRequest) (ops : List Op) : Sequential (start r ops) ops :=
  sequential_initial _ _ _ _

theorem runs_start (r : DeletionRequest) (ops : List Op) : Runs [] (start r ops) :=
  ⟨requestTables r, ⟨⟩, 0, _, sound_requestTables r, .start⟩

/-- The next operation of such a process is committed. -/
theorem commits {s : StoreOnly} {op : Op} {ops : List Op} {t t' : Tables}
    (hs : Sequential s (op :: ops)) (hnow : s.now = 0) (hdb : s.db = t)
    (hrun : op.after trivialHashing 0 t = some t') :
    ∃ (result : op.Result) (s₁ s₂ : StoreOnly),
      Follows (Op.program trivialHashing) (fun _ _ _ _ => False) (fun _ _ => False) s s₁ ∧
        s₁.db = t ∧ Commitment (Op.program trivialHashing) (fun _ _ _ _ => False)
          (fun _ _ => False) op result 0 s₁ s₂ ∧ s₂.db = t' ∧ s₂.now = 0 ∧ Sequential s₂ ops := by
  obtain ⟨⟨result, w⟩, hw, ht⟩ := Option.map_eq_some_iff.mp hrun
  exact ⟨result, hs.commits _ _ _ hnow hdb (by rw [hw, Option.map_some, ht])⟩

/-- The community is quiesced, and fenced. -/
theorem fences (ops : List Op) : ∃ (h : List (Happening Tables DbError Op.Result
    fun _ : Empty => Unit)) (generation : ℕ) (s₁ s₂ : StoreOnly), Runs h s₁ ∧
      s₁.db = quiescedTables ∧ Commitment (Op.program trivialHashing) (fun _ _ _ _ => False)
        (fun _ _ => False) (.fence claimToken) generation 0 s₁ s₂ ∧ s₂.db = fencedTables ∧
          s₂.now = 0 ∧ Sequential s₂ ops := by
  obtain ⟨_, s₁, s₂, hfollows₁, -, hquiesce, hdb₂, hnow₂, hs₂⟩ := commits
    (sequential_start claimedRequest (.beginQuiescing claimToken :: .fence claimToken :: ops))
    rfl rfl (rfl : _ = some quiescedTables)
  obtain ⟨generation, s₃, s₄, hfollows₃, hdb₃, hfence, hdb₄, hnow₄, hs₄⟩ := commits hs₂ hnow₂ hdb₂
    (rfl : _ = some fencedTables)
  obtain ⟨h₃, hr₃⟩ := (runs_start claimedRequest _).follows
    ((hfollows₁.trans hquiesce.follows).trans hfollows₃)
  exact ⟨h₃, generation, s₃, s₄, hr₃, hdb₃, hfence, hdb₄, hnow₄, hs₄⟩

end StoreOnly

/-! ### Requests -/

theorem Running.evolves (hr : Running hashing acts drifts h s)
    (hfollows : Follows (Op.program hashing) acts drifts s s₁) {i : Uuid} {r : DeletionRequest}
    (hi : s.db.requests.lookup i = some r) :
    ∃ r', s₁.db.requests.lookup i = some r' ∧ r.Evolves r' := by
  refine hr.keeps (P := fun d => ∃ r', d.requests.lookup i = some r' ∧ r.Evolves r')
    (fun held d d' hcommits hd => ?_) hfollows ⟨r, hi, .refl r⟩
  obtain ⟨r₁, hr₁, hevolves⟩ := hd
  obtain ⟨r₂, hr₂, hevolves', -⟩ := hcommits.guarantee.evolves i r₁ hr₁
  exact ⟨r₂, hr₂, hevolves.trans hevolves'⟩

/-- From any time of a run to any later one: a request stays, its stage only goes forward, what was
frozen and what was found at quiescing stay, its approval stays, and at most one request is not
aborted. -/
theorem requests_go_on (hr : Running hashing acts drifts h s)
    (hfollows : Follows (Op.program hashing) acts drifts s s₁) :
    (∀ i r, s.db.requests.lookup i = some r →
      ∃ r', s₁.db.requests.lookup i = some r' ∧ r.Evolves r') ∧
      (∀ i a, s.db.approvals.lookup i = some a → s₁.db.approvals.lookup i = some a) ∧
        ∀ i i' r r', s₁.db.requests.lookup i = some r → s₁.db.requests.lookup i' = some r' →
          r.stage ≠ .aborted → r'.stage ≠ .aborted → i = i' := by
  obtain ⟨h', hr₁⟩ := hr.follows hfollows
  refine ⟨fun i r hi => hr.evolves hfollows hi, fun i a ha => ?_, hr₁.sound.unique⟩
  exact hr.keeps (P := fun d => d.approvals.lookup i = some a)
    (fun _ _ _ hcommits hd => hcommits.guarantee.approval i a hd) hfollows ha

theorem requests_go_on_quiescing : ∃ (s : StoreOnly) (r' : DeletionRequest),
    s.db.community.deletionState = .quiescing ∧ s.db.requests.lookup 1 = some r' ∧
      claimedRequest.Evolves r' := by
  obtain ⟨_, s₁, s₂, hfollows, -, hcommit, hdb, -⟩ := StoreOnly.commits
    (StoreOnly.sequential_start claimedRequest [.beginQuiescing claimToken]) rfl rfl
    (rfl : _ = some quiescedTables)
  obtain ⟨r', hr', hevolves⟩ := (requests_go_on (StoreOnly.runs_start claimedRequest _)
    (hfollows.trans hcommit.follows)).1 1 claimedRequest rfl
  exact ⟨s₂, r', by rw [hdb]; rfl, hr', hevolves⟩

/-- Once the destructive manifest of a request is frozen, its chunks keep their keys, and a stamped
one its stamp, until the request has been verified. -/
theorem frozen_chunks_stay (hr : Running hashing acts drifts h s)
    (hfollows : Follows (Op.program hashing) acts drifts s s₁) (i : Uuid) (r : DeletionRequest)
    (hi : s.db.requests.lookup i = some r) (hfrozen : r.destructiveStorageFrozenAt.isSome = true) :
    (∀ chunkNo, Stamped (s.db.manifestKeys.lookup (i, chunkNo))
      (s₁.db.manifestKeys.lookup (i, chunkNo))) ∨
        ∃ r', s₁.db.requests.lookup i = some r' ∧ r'.stage.dropsChunks := by
  have hkept : ∃ r', s₁.db.requests.lookup i = some r' ∧ r.Evolves r' ∧
      ((∀ chunkNo, Stamped (s.db.manifestKeys.lookup (i, chunkNo))
        (s₁.db.manifestKeys.lookup (i, chunkNo))) ∨ r'.stage.dropsChunks) := by
    refine hr.keeps (P := fun d => ∃ r', d.requests.lookup i = some r' ∧ r.Evolves r' ∧
      ((∀ chunkNo, Stamped (s.db.manifestKeys.lookup (i, chunkNo))
        (d.manifestKeys.lookup (i, chunkNo))) ∨ r'.stage.dropsChunks))
      (fun held d d' hcommits hd => ?_) hfollows ⟨r, hi, .refl r, .inl fun _ => .refl _⟩
    obtain ⟨r₁, hr₁, hevolves, hchunks⟩ := hd
    obtain ⟨r₂, hr₂, hevolves', -⟩ := hcommits.guarantee.evolves i r₁ hr₁
    refine ⟨r₂, hr₂, hevolves.trans hevolves', ?_⟩
    rcases hchunks with hstamped | hdrops
    · have hfrozen₁ : r₁.destructiveStorageFrozenAt.isSome = true := by
        rw [(hevolves.frozen hfrozen).2]
        exact hfrozen
      refine (hcommits.guarantee.frozen i r₁ hr₁ hfrozen₁).imp
        (fun hstamped' chunkNo => (hstamped chunkNo).trans (hstamped' chunkNo)) fun hdrops => ?_
      obtain ⟨r₃, hr₃, hdrops⟩ := hdrops
      exact Option.some.inj (hr₂.symm.trans hr₃) ▸ hdrops
    · exact .inr (hevolves'.dropsChunks hdrops)
  obtain ⟨r', hr', -, hchunks⟩ := hkept
  exact hchunks.imp_right fun hdrops => ⟨r', hr', hdrops⟩

/-- A request with a frozen manifest. -/
def frozenRequest : DeletionRequest :=
  { claimedRequest with stage := .fenced, destructiveStorageFrozenAt := some 0 }

theorem frozen_chunks_stay_released : ∃ s : StoreOnly,
    ((∀ chunkNo, Stamped ((requestTables frozenRequest).manifestKeys.lookup (1, chunkNo))
      (s.db.manifestKeys.lookup (1, chunkNo))) ∨
        ∃ r', s.db.requests.lookup 1 = some r' ∧ r'.stage.dropsChunks) ∧
      ∃ r', s.db.requests.lookup 1 = some r' ∧ r'.leaseOwner = none := by
  obtain ⟨_, s₁, s₂, hfollows, -, hcommit, hdb, -⟩ := StoreOnly.commits
    (StoreOnly.sequential_start frozenRequest [.stopExecutor (some claimToken)]) rfl rfl
    (rfl : _ = some (afterwards (.stopExecutor (some claimToken)) (requestTables frozenRequest)))
  refine ⟨s₂, frozen_chunks_stay (StoreOnly.runs_start frozenRequest _)
    (hfollows.trans hcommit.follows) 1 frozenRequest rfl rfl, frozenRequest.released, ?_, rfl⟩
  rw [hdb]
  rfl

/-- A commit that changes the stage of a request moves it as its operation may: to be inventoried,
approved under its digest, aborted from `Approved` or `Fenced`, or, by the holder of its current
claim and under an approval of its frozen digest, to the next stage. -/
theorem stage_moves (hr : Running hashing acts drifts h s) {op : Op} {result : op.Result}
    {start : ℤ} (hc : Commitment (Op.program hashing) acts drifts op result start s s₁) (i : Uuid)
    (r r' : DeletionRequest) (hi : s.db.requests.lookup i = some r)
    (hi' : s₁.db.requests.lookup i = some r') (hstage : r'.stage ≠ r.stage) :
    op.Moves start s.db s₁.db i r r' :=
  ((hr.commit hc).1.moves i r r' hi hi').resolve_left hstage

theorem stage_moves_fenced : ∃ (s₁ s₂ : StoreOnly) (r r' : DeletionRequest), r'.stage = .fenced ∧
    (Op.fence claimToken).Moves 0 s₁.db s₂.db 1 r r' := by
  obtain ⟨h₁, generation, s₁, s₂, hr₁, hdb₁, hfence, hdb₂, -⟩ := StoreOnly.fences []
  refine ⟨s₁, s₂, claimedRequest.quiesced 0 none,
    (claimedRequest.quiesced 0 none).advanced .fenced (some 1), rfl, ?_⟩
  exact stage_moves hr₁ hfence 1 _ _ (by rw [hdb₁]; rfl) (by rw [hdb₂]; rfl) (by decide)

/-- Once the lease of a request has gone on from the generation of a claim, nothing is committed any
more that moves the request under that claim, and every claim that is taken has a larger
generation. -/
theorem stale_claims_fail (hr : Running hashing acts drifts h s)
    (hfollows : Follows (Op.program hashing) acts drifts s s₁) (token : LeaseToken)
    (r : DeletionRequest) (hi : s.db.requests.lookup token.requestId = some r)
    (hstale : token.generation < r.leaseGeneration) :
    (∀ (op : Op) (result : op.Result) (start : ℤ)
      (s₂ : System LockKey Tables DbError ω Op.Result B), op.token = some token →
        ¬ Commitment (Op.program hashing) acts drifts op result start s₁ s₂) ∧
      ∀ requestId owner seconds (c : ClaimedDeletion) (start : ℤ)
        (s₂ : System LockKey Tables DbError ω Op.Result B), c.lease.requestId = token.requestId →
          Commitment (Op.program hashing) acts drifts (.claim requestId owner seconds) (some c)
            start s₁ s₂ →
            token.generation < c.lease.generation ∧
              ∃ r', s₂.db.requests.lookup token.requestId = some r' ∧
                r'.leaseGeneration = c.lease.generation := by
  obtain ⟨h₁, hr₁⟩ := hr.follows hfollows
  obtain ⟨r₁, hi₁, hevolves⟩ := hr.evolves hfollows hi
  have hle := hevolves.leaseGeneration
  refine ⟨fun op result start s₂ htoken hc => ?_,
    fun requestId owner seconds c start s₂ heq hc => ?_⟩
  · obtain ⟨r₂, r₂', hi₂, -, hexecutes⟩ := ((hr₁.commit hc).1.advances token htoken).moved
    obtain rfl : r₁ = r₂ := Option.some.inj (hi₁.symm.trans hi₂)
    have hclaimed := hexecutes.claimed
    simp only [DeletionRequest.claimedBy, Bool.and_eq_true, decide_eq_true_eq] at hclaimed
    omega
  · obtain ⟨r₂, r₂', hi₂, hi₂', -, hgeneration, hlease⟩ := (hr₁.commit hc).1.effect c rfl
    rw [heq] at hi₂ hi₂'
    obtain rfl : r₁ = r₂ := Option.some.inj (hi₁.symm.trans hi₂)
    exact ⟨by omega, r₂', hi₂', hlease⟩

theorem stale_claims_fail_former : ∃ s : StoreOnly,
    s.db.requests.lookup 1 = some claimedRequest ∧ claimedRequest.leaseGeneration = 1 ∧
      ∀ (result : ℕ) (start : ℤ) (s₂ : StoreOnly),
        ¬ Commitment (Op.program trivialHashing) (fun _ _ _ _ => False) (fun _ _ => False)
          (.fence ⟨1, "ex", 0, none⟩) result start s s₂ :=
  ⟨.start claimedRequest [.fence ⟨1, "ex", 0, none⟩], rfl, rfl, fun result start s₂ =>
    (stale_claims_fail (StoreOnly.runs_start claimedRequest [.fence ⟨1, "ex", 0, none⟩]) .refl
      ⟨1, "ex", 0, none⟩ claimedRequest rfl Nat.zero_lt_one).1 (.fence ⟨1, "ex", 0, none⟩) result
        start s₂ rfl⟩

/-! ### The lifecycle of the community -/

theorem Running.advances (hr : Running hashing acts drifts h s)
    (hfollows : Follows (Op.program hashing) acts drifts s s₁) :
    s.db.community.Advances s₁.db.community :=
  hr.keeps (P := fun d => s.db.community.Advances d.community)
    (fun _ _ _ hcommits hd => hd.trans hcommits.advances) hfollows (.refl _)

/-- An operation that takes the next fence generation. -/
def Op.raises : Op → Bool
  | .fence _ | .abort .. => true
  | _ => false

/-- Within a fence generation the community goes from active to quiescing to fenced to a tombstone
and never back; the generation never decreases, each fence and each abort takes the next one, and a
tombstone stays one. -/
theorem lifecycle_advances (hr : Running hashing acts drifts h s)
    (hfollows : Follows (Op.program hashing) acts drifts s s₁) {op : Op} {result : op.Result}
    {start : ℤ} (hc : Commitment (Op.program hashing) acts drifts op result start s₁ s₂) :
    s.db.community.Advances s₂.db.community ∧ (op.raises = true →
      s₂.db.community.deletionFenceGeneration = s₁.db.community.deletionFenceGeneration + 1) := by
  obtain ⟨h₁, hr₁⟩ := hr.follows hfollows
  refine ⟨(hr.advances hfollows).trans (hr₁.advances hc.follows), fun hraises => ?_⟩
  have heffect := (hr₁.commit hc).1.effect
  cases op with
  | fence token => exact heffect.succ
  | abort requestId abortedBy reason =>
    obtain ⟨-, r, r', -, -, -, -, -, hcommunity⟩ := heffect
    rw [hcommunity]
    rfl
  | _ => cases hraises

theorem lifecycle_advances_fenced : ∃ s₁ s₂ : StoreOnly,
    s₁.db.community.deletionState = .quiescing ∧ s₁.db.community.Advances s₂.db.community ∧
      s₂.db.community.deletionFenceGeneration = s₁.db.community.deletionFenceGeneration + 1 := by
  obtain ⟨h₁, generation, s₁, s₂, hr₁, hdb₁, hfence, -⟩ := StoreOnly.fences []
  obtain ⟨hadvances, hraises⟩ := lifecycle_advances hr₁ .refl hfence
  exact ⟨s₁, s₂, by rw [hdb₁]; rfl, hadvances, hraises rfl⟩

/-- While the community is not active, the serving leases of its generation are those that have been
issued before. -/
theorem Running.issued (hr : Running hashing acts drifts h s)
    (hfollows : Follows (Op.program hashing) acts drifts s s₁)
    (hstate : s.db.community.deletionState ≠ .active) {lease : ServingWriteLease}
    (hlease : lease ∈ s₁.db.issued)
    (hgeneration : lease.fenceGeneration = s.db.community.deletionFenceGeneration) :
    lease ∈ s.db.issued := by
  refine (hr.keeps (P := fun d => s.db.community.Advances d.community ∧ ∀ lease ∈ d.issued,
    lease.fenceGeneration = s.db.community.deletionFenceGeneration → lease ∈ s.db.issued)
    (fun held d d' hcommits hd => ?_) hfollows ⟨.refl _, fun _ hlease _ => hlease⟩).2 lease hlease
      hgeneration
  obtain ⟨hadvances, hissued⟩ := hd
  refine ⟨hadvances.trans hcommits.advances, fun lease hlease hgeneration => ?_⟩
  rcases hcommits.issues lease hlease with hold | hlater | ⟨hnow, hactive⟩
  · exact hissued lease hold hgeneration
  · have hle := hadvances.generation_le
    omega
  · rcases hadvances with ⟨-, hrank⟩ | ⟨hlt, -⟩
    · rw [hactive] at hrank
      exact absurd (DeletionState.eq_active hrank) hstate
    · omega

/-- As long as the fence generation stays: once the community is fenced no transaction of a tenant
changes anything, and while it is quiescing each admitted write is under a serving lease that had
been issued by then. -/
theorem fenced_rows_stay (hr : Running hashing acts drifts h s)
    (hfollows : Follows (Op.program hashing) acts drifts s s₁) {statements : List TenantStatement}
    {admissions : List Admission} {start : ℤ}
    (hc : Commitment (Op.program hashing) acts drifts (.tenantTransaction statements) admissions
      start s₁ s₂)
    (hgeneration : s₁.db.community.deletionFenceGeneration =
      s.db.community.deletionFenceGeneration) :
    (2 ≤ s.db.community.deletionState.rank → s₂.db = s₁.db) ∧
      (s.db.community.deletionState = .quiescing →
        ∀ a ∈ admissions, ∃ lease, a = .serving lease ∧ s.db.Issued lease) := by
  obtain ⟨h₁, hr₁⟩ := hr.follows hfollows
  have hcommit : TenantCommit admissions s₁.db s₂.db := (hr₁.commit hc).1.effect
  have hrank : s.db.community.deletionState.rank ≤ s₁.db.community.deletionState.rank := by
    rcases hr.advances hfollows with ⟨-, hrank⟩ | ⟨hlt, -⟩
    · exact hrank
    · omega
  refine ⟨fun hfenced => hcommit.unchanged ?_, fun hquiescing a ha => ?_⟩
  · refine List.eq_nil_iff_forall_not_mem.mpr fun a ha => ?_
    have hadmitted := hcommit.admitted a ha
    cases a with
    | executor => exact hadmitted
    | serving lease =>
      rcases hadmitted.1 with hstate | hstate
      · rw [hstate] at hrank
        exact absurd (hfenced.trans hrank) (by decide)
      · rw [hstate] at hrank
        exact absurd (hfenced.trans hrank) (by decide)
    | active =>
      have hactive : s₁.db.community.deletionState = .active := hadmitted
      rw [hactive] at hrank
      exact absurd (hfenced.trans hrank) (by decide)
  · have hadmitted := hcommit.admitted a ha
    cases a with
    | executor => exact hadmitted.elim
    | serving lease =>
      obtain ⟨-, hlease, l, hl, hid, howner, hgeneration', hfence⟩ := hadmitted
      refine ⟨lease, rfl, l, hr.issued hfollows ?_ hl ?_, hid, howner, hgeneration', hfence⟩
      · rw [hquiescing]
        decide
      · omega
    | active =>
      have hactive : s₁.db.community.deletionState = .active := hadmitted
      rw [hquiescing, hactive] at hrank
      exact absurd hrank (by decide)

theorem fenced_rows_stay_skipped : ∃ s₁ s₂ : StoreOnly, s₁.db.community.deletionState = .fenced ∧
    s₂.db = s₁.db := by
  obtain ⟨h₁, generation, s₁, s₂, hr₁, -, hfence, hdb₂, hnow₂, hs₂⟩ := StoreOnly.fences
    [.tenantTransaction [.writeAllowed "events" fun rows => "row" :: rows]]
  obtain ⟨_, s₃, s₄, hfollows, hdb₃, hcommit, -⟩ := StoreOnly.commits hs₂ hnow₂ hdb₂
    (rfl : _ = some fencedTables)
  obtain ⟨h₂, hr₂⟩ := hr₁.follows hfence.follows
  refine ⟨s₃, s₄, by rw [hdb₃]; rfl, (fenced_rows_stay hr₂ hfollows hcommit ?_).1 ?_⟩
  · rw [hdb₃, hdb₂]
  · rw [hdb₂]
    decide

/-- A serving lease of a former generation admits no write, and is neither renewed nor verified. -/
theorem stale_leases_fail (hr : Running hashing acts drifts h s)
    (hfollows : Follows (Op.program hashing) acts drifts s s₁) (lease : ServingWriteLease)
    (hstale : lease.fenceGeneration < s.db.community.deletionFenceGeneration) :
    (∀ seconds leaseUntil start (s₂ : System LockKey Tables DbError ω Op.Result B),
      ¬ Commitment (Op.program hashing) acts drifts (.renewServingWriteLease lease seconds)
        leaseUntil start s₁ s₂) ∧
      (∀ start (s₂ : System LockKey Tables DbError ω Op.Result B),
        ¬ Commitment (Op.program hashing) acts drifts (.verifyServingWriteLease lease) ⟨⟩ start
          s₁ s₂) ∧
        ∀ statements (admissions : List Admission) start
          (s₂ : System LockKey Tables DbError ω Op.Result B),
          Commitment (Op.program hashing) acts drifts (.tenantTransaction statements) admissions
            start s₁ s₂ →
            Admission.serving lease ∉ admissions := by
  obtain ⟨h₁, hr₁⟩ := hr.follows hfollows
  have hle := (hr.advances hfollows).generation_le
  refine ⟨fun seconds leaseUntil start s₂ hc => ?_, fun start s₂ hc => ?_,
    fun statements admissions start s₂ hc hmem => ?_⟩
  · have heffect := (hr₁.commit hc).1.effect.1
    omega
  · have heffect := (hr₁.commit hc).1.effect.1
    omega
  · have hcommit : TenantCommit admissions s₁.db s₂.db := (hr₁.commit hc).1.effect
    obtain ⟨-, hlease, -⟩ := hcommit.admitted (.serving lease) hmem
    omega

theorem stale_leases_fail_fenced : ∃ s : StoreOnly, s.db.community.deletionState = .fenced ∧
    ∀ start (s₂ : StoreOnly), ¬ Commitment (Op.program trivialHashing) (fun _ _ _ _ => False)
      (fun _ _ => False) (.verifyServingWriteLease ⟨2, "upload", "relay", 1, 0, 100⟩) ⟨⟩ start s
        s₂ := by
  obtain ⟨h₁, generation, s₁, s₂, hr₁, -, hfence, hdb₂, -⟩ := StoreOnly.fences []
  obtain ⟨h₂, hr₂⟩ := hr₁.follows hfence.follows
  refine ⟨s₂, by rw [hdb₂]; rfl, (stale_leases_fail hr₂ .refl _ ?_).2.1⟩
  rw [hdb₂]
  decide

/-- An abort leaves the community active and archived as it was when its request first began to
quiesce it, and the request aborted for good. -/
theorem abort_restores (hr : Running hashing acts drifts h s) {token : LeaseToken}
    {result : DeletionRequest} {start start' : ℤ} {abortedBy reason : String}
    {s' s₁' : System LockKey Tables DbError ω Op.Result B}
    (hquiesce : Commitment (Op.program hashing) acts drifts (.beginQuiescing token) ⟨⟩ start s s')
    (hfirst : ∀ r, s.db.requests.lookup token.requestId = some r → r.quiescingStartedAt = none)
    (hfollows : Follows (Op.program hashing) acts drifts s' s₁)
    (habort : Commitment (Op.program hashing) acts drifts
      (.abort token.requestId abortedBy reason) result start' s₁ s₁')
    (hfollows' : Follows (Op.program hashing) acts drifts s₁' s₂) :
    s₁'.db.community.deletionState = .active ∧
      s₁'.db.community.archivedAt = s.db.community.archivedAt ∧
        ∃ r, s₂.db.requests.lookup token.requestId = some r ∧ r.stage = .aborted := by
  obtain ⟨h', hr'⟩ := hr.follows hquiesce.follows
  obtain ⟨h₁, hr₁⟩ := hr'.follows hfollows
  obtain ⟨h₁', hr₁'⟩ := hr₁.follows habort.follows
  have hquiesces : token.Quiesces s.db s'.db := (hr.commit hquiesce).1.effect
  have hrestores : Restores token.requestId s₁.db s₁'.db := (hr₁.commit habort).1.effect
  obtain ⟨r, r', hi, hi', hstarted, hpre⟩ := hquiesces.request
  obtain ⟨r₁, r₁', hi₁, hi₁', -, haborted, -, hcommunity⟩ := hrestores.request
  -- what the first attempt has found is still in the row
  obtain ⟨r₂, hi₂, hevolves⟩ := hr'.evolves hfollows hi'
  obtain rfl : r₂ = r₁ := Option.some.inj (hi₂.symm.trans hi₁)
  obtain ⟨hstarted', hpre'⟩ := hevolves.quiesced hstarted
  refine ⟨by rw [hcommunity]; rfl, ?_, ?_⟩
  · have hsome : r₂.quiescingStartedAt.isSome = true := hstarted' ▸ hstarted
    have harchived : s₁'.db.community.archivedAt = archivedBefore r₂ s₁.db.community := by
      rw [hcommunity]
      rfl
    rw [harchived, archivedBefore, if_pos hsome, hpre']
    exact hpre (hfirst r hi)
  · obtain ⟨r₃, hi₃, hevolves'⟩ := hr₁'.evolves hfollows' hi₁'
    exact ⟨r₃, hi₃, hevolves'.stays_aborted haborted⟩

theorem abort_restores_run : ∃ s₁ s₂ : StoreOnly, s₁.db.community.archivedAt = some 0 ∧
    s₂.db.community.archivedAt = none ∧ s₂.db.community.deletionState = .active := by
  obtain ⟨_, s₁, s₂, hfollows₁, hdb₁, hquiesce, hdb₂, hnow₂, hs₂⟩ := StoreOnly.commits
    (StoreOnly.sequential_start claimedRequest
      [.beginQuiescing claimToken, .abort 1 "op" "why"]) rfl rfl (rfl : _ = some quiescedTables)
  obtain ⟨_, s₃, s₄, hfollows₃, -, habort, -⟩ := StoreOnly.commits hs₂ hnow₂ hdb₂
    (rfl : _ = some (afterwards (.abort 1 "op" "why") quiescedTables))
  obtain ⟨h₁, hr₁⟩ := (StoreOnly.runs_start claimedRequest _).follows hfollows₁
  have hfirst (r : DeletionRequest) (hr : s₁.db.requests.lookup claimToken.requestId = some r) :
      r.quiescingStartedAt = none := by
    rw [hdb₁] at hr
    exact Option.some.inj hr ▸ rfl
  obtain ⟨hactive, harchived, -⟩ := abort_restores hr₁ hquiesce hfirst hfollows₃ habort .refl
  refine ⟨s₂, s₄, by rw [hdb₂]; rfl, harchived.trans ?_, hactive⟩
  rw [hdb₁]
  rfl

end Buzz.Db.Deletion
