import Buzz.Db.Deletion.Rules

/-!
# What each operation of the store commits

Every transaction of the store, of tenants and of serving leases goes on with guaranteed writes,
whatever others commit, and what it commits is as its operation states.

## Main definitions

* `Op.token`, `Op.Moves`: which operations change the stage of a request, and when.
* `Op.Commit`: what a commit of an operation is.

## Main results

* `safe_program`: every operation is safe, and commits as stated.
-/

namespace Buzz.Db.Deletion

open Buzz.Core (Uuid)
open Buzz.Library Buzz.Library.Transactions

variable {held : Held LockKey} {w : Tables → Tables} {t : Tables} {i : Uuid} {start : ℤ}

/-! ### Stages -/

theorem Quiet.stage_eq (hw : Quiet w) {s : Tables} {r r' : DeletionRequest}
    (hr : s.requests.lookup i = some r) (hr' : (w s).requests.lookup i = some r') :
    r'.stage = r.stage := by
  obtain ⟨r₁, hr₁, hstage⟩ := hw s i r hr
  rw [hr₁] at hr'
  exact Option.some.inj hr' ▸ hstage

/-- The requests of `s'` have the stages of `s`, but for one request, which is as `R` states. -/
def Tables.MovesOnly (i : Uuid) (R : DeletionRequest → DeletionRequest → Prop) (s s' : Tables) :
    Prop :=
  ∀ j r r', s.requests.lookup j = some r → s'.requests.lookup j = some r' →
    r'.stage = r.stage ∨ j = i ∧ R r r'

/-- One request is written once. -/
theorem movesOnly_modifyRequest {f : DeletionRequest → DeletionRequest}
    {R : DeletionRequest → DeletionRequest → Prop} (hw : Quiet w) {s : Tables}
    (hlookup : (w s).requests.lookup i = s.requests.lookup i)
    (hR : ∀ r, s.requests.lookup i = some r → R r (f r)) :
    Tables.MovesOnly i R s ((w s).modifyRequest i f) := by
  intro j r r' hr hr'
  rw [lookup_modifyRequest] at hr'
  split at hr'
  · next hj =>
    subst hj
    rw [hlookup, hr, Option.map_some] at hr'
    exact .inr ⟨rfl, Option.some.inj hr' ▸ hR r hr⟩
  · exact .inl (hw.stage_eq hr hr')

/-- A transaction that leaves the stages of requests as they are. -/
abbrev Stays {α : Type} (p : Tx α) (t : Tables) : Prop :=
  Does Commits p (fun _ => Always Commits Tables.SameStages) [] id t

/-! ### Submission and approval -/

theorem does_submit (requestId : Uuid) (communityHost requestedBy : String)
    (reason : Option String) :
    Stays (submit start requestId communityHost requestedBy reason) t := by
  unfold submit
  refine does_bind (does_read fun t₁ h₁ => does_bind (does_require fun hsubmittable => ?_))
  refine does_bind (does_lock composable_commits fun t₂ h₂ => ?_)
  refine does_bind (does_lock composable_commits fun t₃ h₃ => ?_)
  refine does_bind (does_read fun t₄ h₄ => ?_)
  split
  · exact does_okOr fun a ha s hs => quiet_id s
  · next hactive =>
    refine does_bind (does_require fun hnew => ?_)
    have hrequest : (LockKey.request requestId, Mode.exclusive) ∈
        [(LockKey.request requestId, Mode.exclusive), (.activeRequest, .exclusive)] := by simp
    have hindex : (LockKey.activeRequest, Mode.exclusive) ∈
        [(LockKey.request requestId, Mode.exclusive), (.activeRequest, .exclusive)] := by simp
    have hfree (s : Tables) (hs : Relies Commits [(.request requestId, .exclusive),
        (.activeRequest, .exclusive)] t₄ s) : s.requests.lookup requestId = none :=
      Relies.not_inserted hs hindex (Option.isNone_iff_eq_none.mp hnew)
    refine does_bind (does_write composable_commits (fun s hs => ?_) (does_pure fun s hs => ?_))
    · refine (guarantee_insertRequest hrequest hindex (hfree s hs) fun j r hr => ?_).commits rfl rfl
      -- a request that is there now was there, and was aborted
      cases hj : t₄.requests.lookup j with
      | none =>
        rw [Relies.not_inserted hs hindex hj] at hr
        cases hr
      | some r₀ =>
        obtain ⟨r₁, hr₁, hevolves⟩ := Relies.evolves hs hj
        rw [hr₁] at hr
        obtain rfl := Option.some.inj hr
        refine hevolves.stays_aborted (by_contra fun hstage => hactive ?_)
        exact Table.existsWhere_iff.mpr ⟨j, r₀, hj, by simpa using hstage⟩
    · intro j r hr
      have hj : j ≠ requestId := fun hj => by
        rw [hj, hfree s hs] at hr
        cases hr
      exact ⟨r, (lookup_insertRequest s requestId j _).trans ((if_neg hj).trans hr), rfl⟩

theorem does_freezeInventory (hashing : Hashing) (requestId : Uuid) (inventory : FrozenInventory) :
    Does Commits (freezeInventory hashing requestId inventory)
      (fun _ => Always Commits (Tables.MovesOnly requestId fun r r' =>
        r.stage = .submitted ∧ r'.stage = .inventoried)) [] id t := by
  unfold freezeInventory
  refine does_bind (does_checked fun _ _ => does_bind (does_updateRequest (fun _ => rfl) ?_ ?_ ?_))
  · intro t' r _ _ hp htarget
    simp only [DeletionRequest.unblockedAt, Bool.and_eq_true, decide_eq_true_eq] at hp
    refine ⟨.of_update htarget ?_ ?_ (fun _ => ⟨rfl, rfl⟩) (Nat.le_refl _), fun hs => ?_⟩
    · rw [hp.1]
      exact Nat.zero_le _
    · intro ha
      cases ha
    · rw [hp.1] at hs
      cases hs
  · intro t' r hrelies hr hp
    refine does_okOr fun _ _ s hs => movesOnly_modifyRequest quiet_id rfl fun r' hr' => ?_
    rw [Relies.request_eq hs List.mem_cons_self, hr] at hr'
    obtain rfl := Option.some.inj hr'
    simp only [DeletionRequest.unblockedAt, Bool.and_eq_true, decide_eq_true_eq] at hp
    exact ⟨hp.1, rfl⟩
  · intro _ _ _ _ _ _ _
    exact does_okOr fun _ h => by cases h

theorem does_approve (hashing : Hashing) (requestId : Uuid) (approvedBy : String)
    (note : Option String) :
    Does Commits (approve hashing start requestId approvedBy note)
      (fun _ => Always Commits fun s s' => Tables.MovesOnly requestId (fun r r' =>
        r.stage = .inventoried ∧ r'.stage = .approved ∧ s'.approved requestId r' = true) s s')
      [] id t := by
  unfold approve
  refine does_bind (does_selectRequestForUpdate (fun _ => rfl) ?_ ?_)
  · intro t₁ r h₁ hr hp
    have hlock : (LockKey.request requestId, Mode.exclusive) ∈
        [(LockKey.request requestId, Mode.exclusive)] := List.mem_cons_self
    refine does_bind (does_okOr fun _ heq => does_bind (does_okOr fun digest hdigest => ?_))
    obtain rfl := Option.some.inj heq
    refine does_bind (does_okOr fun inventory hinventory => does_bind (does_require fun _ => ?_))
    refine does_bind (does_read fun t₂ h₂ => does_bind (does_require fun hnew => ?_))
    have hfree (s : Tables) (hs : Relies Commits [(.request requestId, .exclusive)] t₂ s) :
        s.approvals.lookup requestId = none :=
      (Relies.approvals_eq hs hlock).trans (Option.isNone_iff_eq_none.mp hnew)
    have hrow : t₂.requests.lookup requestId = some r := (Relies.request_eq h₂ hlock).trans hr
    refine does_bind (does_write composable_commits (fun s hs => ?_) ?_)
    · exact (guarantee_insertApproval hlock (hfree s hs)).commits rfl rfl
    · refine does_bind (does_updateRequest (fun _ => rfl) ?_ ?_ ?_)
      · intro t₃ r' h₃ hr' hp' htarget
        rw [Relies.request_eq h₃ hlock, hrow] at hr'
        obtain rfl := Option.some.inj hr'
        simp only [DeletionRequest.unblockedAt, Bool.and_eq_true, decide_eq_true_eq] at hp
        refine ⟨.of_update htarget ?_ ?_ (fun _ => ⟨rfl, rfl⟩) (Nat.le_refl _), fun hs => ?_⟩
        · rw [hp.1]
          exact Nat.le_succ 1
        · intro ha
          cases ha
        · rw [hp.1] at hs
          cases hs
      · intro t₃ r' h₃ hr' hp'
        rw [Relies.request_eq h₃ hlock, hrow] at hr'
        obtain rfl := Option.some.inj hr'
        refine does_okOr fun _ _ s hs => ?_
        have hquiet : Quiet ((·.insertApproval requestId ⟨digest, approvedBy, note⟩) ∘ id) :=
          quiet_of_requests fun _ => rfl
        refine movesOnly_modifyRequest hquiet rfl fun r' hr' => ?_
        rw [Relies.request_eq hs List.mem_cons_self, Relies.request_eq h₃ hlock, hrow] at hr'
        obtain rfl := Option.some.inj hr'
        simp only [DeletionRequest.unblockedAt, Bool.and_eq_true, decide_eq_true_eq] at hp
        refine ⟨hp.1, rfl, (Option.any_eq_true _ _).mpr ⟨⟨digest, approvedBy, note⟩, ?_, ?_⟩⟩
        · simp only [Function.comp_apply, approvals_modifyRequest]
          exact (HashMap.lookup_insert_eq _ _ _ _).trans (if_pos rfl)
        · exact decide_eq_true hdigest
      · intro _ _ _ _ _ _ _
        exact does_okOr fun _ h => by cases h
  · intro _ _ _ _
    exact does_bind (does_okOr fun _ h => by cases h)

/-! ### Claims -/

/-- The first candidate that is free is still one under its lock. -/
theorem does_selectCandidate
    {K : Ending LockKey Tables (Option (Uuid × DeletionRequest))}
    (candidates : List Uuid)
    (hsome : ∀ held' t' j r, (LockKey.request j, Mode.exclusive) ∈ held' →
      t'.requests.lookup j = some r → t'.claimable start j r = true →
        K (some (j, r)) held' id t')
    (hnone : ∀ held' t', K none held' id t') :
    Does Commits (selectCandidate start candidates) K held id t := by
  induction candidates generalizing held t with
  | nil => exact does_pure (hnone held t)
  | cons j rest ih =>
    unfold selectCandidate
    refine does_bind (does_tryLock composable_commits (fun t₁ _ => ?_) fun t₁ _ => ?_)
    · refine does_bind (does_read fun t₂ _ => ?_)
      simp only [id_eq]
      split
      · next r hr =>
        obtain ⟨hlookup, hclaimable⟩ := Option.filter_eq_some_iff.mp hr
        exact does_pure (hsome _ t₂ j r List.mem_cons_self hlookup hclaimable)
      · exact ih
    · simp only [Bool.false_eq_true, ↓reduceIte]
      exact ih

/-- A claim takes the next generation of a request that was claimable. -/
def ClaimedDeletion.Taken (start : ℤ) (c : ClaimedDeletion) (s s' : Tables) : Prop :=
  ∃ r r', s.requests.lookup c.lease.requestId = some r ∧
    s'.requests.lookup c.lease.requestId = some r' ∧
    s.claimable start c.lease.requestId r = true ∧
    c.lease.generation = r.leaseGeneration + 1 ∧ r'.leaseGeneration = c.lease.generation

theorem does_claim (requestId : Option Uuid) (owner : String) (seconds : ℕ) :
    Does Commits (claim start requestId owner seconds)
      (fun result => Always Commits fun s s' =>
        s.SameStages s' ∧ ∀ c, result = some c → c.Taken start s s') [] id t := by
  unfold claim
  refine does_bind (does_read fun t₁ h₁ => does_bind (does_selectCandidate _ ?_ ?_))
  · intro held' t₂ j r hlock hr hclaimable
    refine does_bind (does_read fun t₃ h₃ => ?_)
    have hrow : t₃.requests.lookup j = some r := (Relies.request_eq h₃ hlock).trans hr
    split
    · refine does_bind (does_updateRequest_quiet (fun _ => ⟨rfl, rfl, rfl, rfl⟩)
        fun _ _ _ _ hquiet => ?_)
      exact does_pure fun s _ => ⟨hquiet s, fun _ h => by cases h⟩
    · refine does_bind (does_okOr fun generation hgeneration => ?_)
      obtain rfl := checkedSucc_eq hgeneration
      refine does_bind (does_updateRequest (fun _ => rfl) ?_ ?_ ?_)
      · intro t₄ r' h₄ hr' _ htarget
        rw [Relies.request_eq h₄ hlock, hrow] at hr'
        obtain rfl := Option.some.inj hr'
        exact ⟨.of_quiet htarget rfl rfl rfl (Nat.le_succ _), fun hs => .inl hs⟩
      · intro t₄ r' h₄ hr' _
        rw [Relies.request_eq h₄ hlock, hrow] at hr'
        obtain rfl := Option.some.inj hr'
        refine does_bind (does_okOr fun r' heq => does_pure fun s hs => ?_)
        obtain rfl := Option.some.inj heq
        have hrow' : s.requests.lookup j = some r := by
          rw [Relies.request_eq hs List.mem_cons_self, Relies.request_eq h₄ hlock, hrow]
        have hquiet : Quiet (·.modifyRequest j
            (·.claimed owner (r.leaseGeneration + 1) (after start seconds))) :=
          quiet_modifyRequest j fun _ => rfl
        refine ⟨hquiet s, fun c hc => ?_⟩
        obtain rfl := Option.some.inj hc
        refine ⟨r, r.claimed owner (r.leaseGeneration + 1) (after start seconds), hrow', ?_, ?_,
          rfl, rfl⟩
        · simp only [Function.comp_apply, id_eq, lookup_modifyRequest, ↓reduceIte, hrow',
            Option.map_some]
        · have happrovals : s.approvals.lookup j = t₂.approvals.lookup j := by
            rw [Relies.approvals_eq hs (List.mem_cons_of_mem _ hlock),
              Relies.approvals_eq h₄ hlock, Relies.approvals_eq h₃ hlock]
          simpa only [Tables.claimable, Tables.approved, happrovals] using hclaimable
      · intro _ _ _ _ _ _ _
        exact does_bind (does_okOr fun _ h => by cases h)
  · intro held' t₂
    exact does_pure fun s _ => ⟨quiet_id s, fun _ h => by cases h⟩

theorem does_heartbeat (token : LeaseToken) (seconds : ℕ) :
    Stays (heartbeat start token seconds) t :=
  does_bind (does_updateRequest_quiet (fun _ => ⟨rfl, rfl, rfl, rfl⟩) fun _ _ _ _ hquiet =>
    does_require fun _ s _ => hquiet s)

theorem does_stopExecutor (token : Option LeaseToken) :
    Stays (stopExecutor token) t := by
  cases token with
  | none => exact does_pure fun s _ => quiet_id s
  | some token =>
    exact does_bind (does_updateRequest_quiet (fun _ => ⟨rfl, rfl, rfl, rfl⟩)
      fun _ _ _ _ hquiet => does_pure fun s _ => hquiet s)

/-! ### Retries and blocks -/

theorem does_recordRetry (token : LeaseToken) (stage : DeletionStage) (message : String)
    (retryAfter : ℕ) :
    Stays (recordRetry start token stage message retryAfter) t := by
  have hrest (o : Option DeletionRequest) (held' : Held LockKey) (t' : Tables) :
      Does Commits (do
        let r ← okOr (.database "no rows returned") o
        let retries := if r.retryStage = some stage then r.retryCount + 1 else 1
        let _ ← updateRequest token.requestId (fun _ r => r.claimedBy token)
          (·.retried start stage retries (boundText message 4096) retryAfter)
        return PUnit.unit) (fun _ => Always Commits Tables.SameStages) held' id t' := by
    refine does_bind (does_okOr fun r _ => does_bind ?_)
    exact does_updateRequest_quiet (fun _ => ⟨rfl, rfl, rfl, rfl⟩) fun _ _ _ _ hquiet =>
      does_pure fun s _ => hquiet s
  unfold recordRetry
  refine does_bind (does_verifyLease fun t₁ _ _ => ?_)
  exact does_bind (does_selectRequestForUpdate (fun _ => rfl) (fun _ _ _ _ _ => hrest _ _ _)
    fun _ _ _ _ => hrest _ _ _)

theorem does_block (token : LeaseToken) (stage : DeletionStage) (message : String) :
    Stays (block start token stage message) t := by
  unfold block
  refine does_bind (does_verifyLease fun t₁ _ _ => ?_)
  exact does_bind (does_updateRequest_quiet (fun _ => ⟨rfl, rfl, rfl, rfl⟩)
    fun _ _ _ _ hquiet => does_pure fun s _ => hquiet s)

theorem does_unblock (requestId : Uuid) (unblockedBy reason : String) (clientNow : ℤ) :
    Stays (unblock start requestId unblockedBy reason clientNow) t := by
  unfold unblock
  refine does_bind (does_require fun _ => does_bind (does_selectRequestForUpdate (fun _ => rfl)
    ?_ fun _ _ _ _ => does_bind (does_okOr fun _ h => by cases h)))
  intro t₁ r _ _ _
  refine does_bind (does_okOr fun _ _ => does_bind (does_require fun _ => ?_))
  refine does_bind (does_require fun _ => does_bind ?_)
  exact does_updateRequest_quiet (fun _ => ⟨rfl, rfl, rfl, rfl⟩) fun _ _ _ _ hquiet =>
    does_okOr fun _ _ s _ => hquiet s

theorem does_blockPreclaimSetup (requestId : Uuid) (message : String) (clientNow : ℤ) :
    Stays (blockPreclaimSetup requestId message clientNow) t := by
  unfold blockPreclaimSetup
  refine does_bind (does_selectRequestForUpdate (fun _ => rfl)
    ?_ fun _ _ _ _ => does_bind (does_okOr fun _ h => by cases h))
  intro t₁ r _ _ _
  refine does_bind (does_okOr fun _ _ => does_bind (does_require fun _ => ?_))
  refine does_bind (does_require fun _ => does_bind ?_)
  exact does_updateRequest_quiet (fun _ => ⟨rfl, rfl, rfl, rfl⟩) fun _ _ _ _ hquiet =>
    does_okOr fun _ _ s _ => hquiet s

/-! ### Moves by an executor -/

/-- The holder of the claim has moved a request to the next stage, under an approval. -/
structure LeaseToken.Executes (start : ℤ) (token : LeaseToken) (s : Tables)
    (r r' : DeletionRequest) : Prop where
  next : r.stage.next = some r'.stage
  claimed : r.claimedBy token = true
  live : r.leaseLive start = true
  approved : s.approved token.requestId r = true

/-- The request of a token is moved by its holder, and no other is. -/
structure LeaseToken.Advances (start : ℤ) (token : LeaseToken) (s s' : Tables) : Prop where
  moves : Tables.MovesOnly token.requestId (token.Executes start s) s s'
  moved : ∃ r r', s.requests.lookup token.requestId = some r ∧
    s'.requests.lookup token.requestId = some r' ∧ token.Executes start s r r'

/-- What a move by an executor is to commit. -/
theorem always_advances {token : LeaseToken} {f : DeletionRequest → DeletionRequest}
    {t₁ : Tables} {r₁ r : DeletionRequest} (hquiet : Quiet w)
    (hlookup : ∀ s, (w s).requests.lookup token.requestId = s.requests.lookup token.requestId)
    (hr₁ : t₁.requests.lookup token.requestId = some r₁)
    (happroved : t₁.approved token.requestId r₁ = true) (hrelies : Relies Commits [] t₁ t)
    (hlock : (.request token.requestId, .exclusive) ∈ held)
    (hr : t.requests.lookup token.requestId = some r) (hnext : r.stage.next = some (f r).stage)
    (hclaimed : r.claimedBy token = true) (hlive : r.leaseLive start = true) :
    Always Commits (token.Advances start) held ((·.modifyRequest token.requestId f) ∘ w) t := by
  intro s hs
  have hrow : s.requests.lookup token.requestId = some r :=
    (Relies.request_eq hs hlock).trans hr
  have hexecutes : token.Executes start s r (f r) :=
    ⟨hnext, hclaimed, hlive,
      Relies.approved (hrelies.trans hs.unlocked) hr₁ happroved hrow⟩
  refine ⟨movesOnly_modifyRequest hquiet (hlookup s) fun r' hr' => ?_, r, f r, hrow, ?_, hexecutes⟩
  · exact Option.some.inj (hrow.symm.trans hr') ▸ hexecutes
  · simp only [Function.comp_apply, lookup_modifyRequest, ↓reduceIte, hlookup, hrow,
      Option.map_some]

/-! ### Quiescing and the fence -/

/-- The locks under which the lifecycle of the community is changed. -/
abbrev lifecycleLocks : Held LockKey := [(.communityRow, .exclusive), (.community, .exclusive)]

/-- A community is quiescing, and its request knows since when, and how it was archived before. -/
structure LeaseToken.Quiesces (token : LeaseToken) (s s' : Tables) : Prop where
  before : s.community.deletionState = .active ∨ s.community.deletionState = .quiescing
  after : s'.community.deletionState = .quiescing
  request : ∃ r r', s.requests.lookup token.requestId = some r ∧
    s'.requests.lookup token.requestId = some r' ∧ r'.quiescingStartedAt.isSome = true ∧
      (r.quiescingStartedAt = none → r'.preQuiesceArchivedAt = s.community.archivedAt)

theorem does_beginQuiescing (token : LeaseToken) :
    Does Commits (beginQuiescing start token)
      (fun _ => Always Commits fun s s' => s.SameStages s' ∧ token.Quiesces s s') [] id t := by
  unfold beginQuiescing
  refine does_bind (does_verifyLease fun t₁ _ _ => ?_)
  refine does_bind (does_lock composable_commits fun t₂ _ => ?_)
  refine does_bind (does_verifyLease fun t₃ _ hvalid => ?_)
  obtain ⟨r₀, hr₀, -, -⟩ := Tables.exists_of_tokenValid hvalid
  refine does_bind (does_lock composable_commits fun t₄ h₄ => ?_)
  refine does_bind (does_read fun t₅ h₅ => ?_)
  have hrow : (.communityRow, .exclusive) ∈ lifecycleLocks := by simp
  have hlock : (.community, .exclusive) ∈ lifecycleLocks := by simp
  obtain ⟨r₅, hr₅, -⟩ := Relies.evolves (h₄.unlocked.trans h₅.unlocked) hr₀
  have harchived (s : Tables) (hs : Relies Commits lifecycleLocks t₅ s) :
      s.community = t₅.community := Relies.community_eq hs hrow
  -- the rest, from what is known of the request
  have hrest (held' : Held LockKey) (w' : Tables → Tables) (t' : Tables)
      (hsubset : lifecycleLocks ⊆ held') (hrelies : Relies Commits lifecycleLocks t₅ t')
      (hquiet : Quiet w') (hcommunity : ∀ s, (w' s).community = s.community)
      (hrequest : Always Commits (fun s s' => ∀ r, s.requests.lookup token.requestId = some r →
        ∃ r', s'.requests.lookup token.requestId = some r' ∧
          r'.quiescingStartedAt.isSome = true ∧
            (r.quiescingStartedAt = none → r'.preQuiesceArchivedAt = t₅.community.archivedAt))
        held' w' t') :
      Does Commits (do
        let affected ← updateCommunity ⟨some t₅.community.deletionFenceGeneration, none⟩
          (fun c => (c.deletionState = .active || c.deletionState = .quiescing) &&
            c.deletedAt.isNone) (·.quiesced start)
        require affected (.deletionSafety "community cannot enter quiescing"))
        (fun _ => Always Commits fun s s' => s.SameStages s' ∧ token.Quiesces s s')
        held' w' t' := by
    refine does_bind (does_updateCommunity hcommunity ?_ ?_ ?_)
    · intro t₆ _ hp _
      simp only [Bool.and_eq_true, Bool.or_eq_true, decide_eq_true_eq] at hp
      refine ⟨.inl ⟨rfl, ?_⟩, .inl (hsubset hlock)⟩
      rcases hp.1 with hstate | hstate
      · rw [hstate]
        exact Nat.zero_le _
      · rw [hstate]
        exact Nat.le_refl _
    · intro t₆ h₆ hp
      simp only [Bool.and_eq_true, Bool.or_eq_true, decide_eq_true_eq] at hp
      refine does_require fun _ s hs => ?_
      have hs' : Relies Commits held' t' s := h₆.trans (hs.of_subset (List.subset_cons_self _ _))
      have heq : s.community = t₆.community :=
        Relies.community_eq hs List.mem_cons_self
      have hs₅ : Relies Commits lifecycleLocks t₅ s := hrelies.trans (hs'.of_subset hsubset)
      obtain ⟨r, hr, -⟩ := Relies.evolves hs₅.unlocked hr₅
      obtain ⟨r', hr', hstarted, hpre⟩ := hrequest s hs' r hr
      refine ⟨(hquiet s).trans (Tables.sameStages_of_requests rfl), heq ▸ hp.1, rfl, r, r', hr, hr',
        hstarted, fun hnone => (hpre hnone).trans ?_⟩
      rw [harchived s hs₅]
    · intro _ _ _ _
      exact does_require fun h => by cases h
  refine does_bind (does_updateRequest (fun _ => rfl) ?_ ?_ ?_)
  · intro t' r _ _ hp htarget
    refine ⟨.of_update htarget (Nat.le_refl _) (fun ha => .inl ha) (fun hq => ?_)
      (Nat.le_refl _), fun hs => .inl hs⟩
    rw [Option.isNone_iff_eq_none.mp hp] at hq
    cases hq
  · intro t' r h' hr hp
    have hquiet : Quiet (·.modifyRequest token.requestId
        (·.quiesced start t₅.community.archivedAt)) := quiet_modifyRequest _ fun _ => rfl
    refine hrest _ _ t' (List.subset_cons_self _ _) h' hquiet (fun _ => by simp)
      fun s hs r₁ hr₁ => ?_
    refine ⟨r₁.quiesced start t₅.community.archivedAt, ?_, rfl, fun _ => rfl⟩
    simp only [Function.comp_apply, id_eq, lookup_modifyRequest, ↓reduceIte, hr₁, Option.map_some]
  · intro held' t₆ t' hsubset h₆ h' hany
    refine hrest held' id t' hsubset (h₆.trans h') quiet_id (fun _ => rfl) fun s hs r₁ hr₁ => ?_
    -- the row that has been seen was there, and had been quiesced
    obtain ⟨r₂, hr₂, -⟩ := Relies.evolves h₆.unlocked hr₅
    rw [hr₂] at hany
    obtain ⟨r₃, hr₃, hevolves⟩ := Relies.evolves (h'.unlocked.trans hs.unlocked) hr₂
    have hstarted : r₁.quiescingStartedAt.isSome = true := by
      obtain rfl : r₁ = r₃ := Option.some.inj (hr₁.symm.trans hr₃)
      have hsome : r₂.quiescingStartedAt.isSome = true := by
        simpa [Option.isSome_iff_ne_none] using hany
      rw [(hevolves.quiesced hsome).1]
      exact hsome
    refine ⟨r₁, hr₁, hstarted, fun hnone => ?_⟩
    rw [hnone] at hstarted
    cases hstarted

/-- A quiescing community is fenced under the next generation, which is returned. -/
structure Fences (generation : ℕ) (s s' : Tables) : Prop where
  before : s.community.deletionState = .quiescing
  after : s'.community.deletionState = .fenced
  succ : s'.community.deletionFenceGeneration = s.community.deletionFenceGeneration + 1
  returned : s'.community.deletionFenceGeneration = generation

theorem does_fence (token : LeaseToken) :
    Does Commits (fence start token)
      (fun generation => Always Commits fun s s' =>
        token.Advances start s s' ∧ Fences generation s s')
      [] id t := by
  unfold fence
  refine does_bind (does_verifyLease fun t₁ _ _ => ?_)
  refine does_bind (does_lock composable_commits fun t₂ _ => ?_)
  refine does_bind (does_verifyLease fun t₃ _ hvalid => ?_)
  obtain ⟨r₃, hr₃, happroved, -⟩ := Tables.exists_of_tokenValid hvalid
  refine does_bind (does_read fun t₄ h₄ => does_bind (does_require fun _ => ?_))
  refine does_bind (does_lock composable_commits fun t₅ h₅ => ?_)
  refine does_bind (does_read fun t₆ h₆ => does_bind (does_okOr fun generation hgeneration => ?_))
  have hsucc : generation = t₆.community.deletionFenceGeneration + 1 := checkedSucc_eq hgeneration
  have hrow : (.communityRow, .exclusive) ∈ lifecycleLocks := by simp
  have hlock : (.community, .exclusive) ∈ lifecycleLocks := by simp
  refine does_bind (does_updateCommunity (fun _ => rfl) ?_ ?_ ?_)
  · intro t₇ h₇ hp _
    have heq : t₇.community = t₆.community := Relies.community_eq h₇ hrow
    refine ⟨.inr ⟨?_, fun htombstone => ?_⟩, .inl hlock⟩
    · rw [heq]
      exact Nat.lt_of_lt_of_eq (Nat.lt_succ_self _) hsucc.symm
    · rw [of_decide_eq_true hp] at htombstone
      cases htombstone
  · intro t₇ h₇ hp
    have heq : t₇.community = t₆.community := Relies.community_eq h₇ hrow
    refine does_bind (does_require fun _ => ?_)
    refine does_bind (does_advanceRequest (fun _ => rfl) (fun _ => List.mem_cons_of_mem _ hlock) ?_)
    intro t₈ r h₈ hr hstage hclaimed hlive
    have hrelies : Relies Commits [] t₃ t₈ := h₄.unlocked.trans (h₅.unlocked.trans
      (h₆.unlocked.trans (h₇.unlocked.trans h₈.unlocked)))
    have hquiet : Quiet ((·.modifyCommunity (·.fencedAt start generation)) ∘ id) :=
      quiet_of_requests fun _ => rfl
    refine does_pure fun s hs => ⟨?_, ?_⟩
    · refine always_advances hquiet (fun _ => rfl) hr₃ happroved hrelies List.mem_cons_self hr ?_
        hclaimed hlive s hs
      rw [hstage]
      rfl
    · have hs' : s.community = t₇.community :=
        (Relies.community_eq hs (List.mem_cons_of_mem _ List.mem_cons_self)).trans
          (Relies.community_eq h₈ List.mem_cons_self)
      have hafter : ((s.modifyCommunity (·.fencedAt start generation)).modifyRequest
          token.requestId (·.advanced .fenced (some generation))).community =
            s.community.fencedAt start generation := by simp
      refine ⟨?_, ?_, ?_, ?_⟩
      · rw [hs']
        exact of_decide_eq_true hp
      · exact congrArg Community.deletionState hafter
      · rw [hs', heq, ← hsucc]
        exact congrArg Community.deletionFenceGeneration hafter
      · exact congrArg Community.deletionFenceGeneration hafter
  · intro _ _ _ _
    exact does_bind (does_require fun h => by cases h)

/-! ### The manifest of keys -/

theorem does_deleteChunks {K : Ending LockKey Tables PUnit}
    (chunks : List ℕ)
    (hw : ∀ s s', s.requests.lookup i = s'.requests.lookup i →
      (w s).requests.lookup i = (w s').requests.lookup i)
    (hK : ∀ held' w' t', held ⊆ held' → Relies Commits held t t' →
      (∀ s, (w' s).requests = (w s).requests) → K ⟨⟩ held' w' t') :
    Does Commits (deleteChunks i chunks) K held w t := by
  induction chunks generalizing held w t with
  | nil => exact does_pure (hK held w t (List.Subset.refl _) .refl fun _ => rfl)
  | cons chunkNo rest ih =>
    have hsubset : held ⊆ (.request i, .exclusive) :: (.chunk (i, chunkNo), .exclusive) :: held :=
      fun l hl => List.mem_cons_of_mem _ (List.mem_cons_of_mem _ hl)
    have hrequest : (LockKey.request i, Mode.exclusive) ∈ (LockKey.request i, Mode.exclusive) ::
      (.chunk (i, chunkNo), .exclusive) :: held := by simp
    have hchunk : (LockKey.chunk (i, chunkNo), Mode.exclusive) ∈
      (LockKey.request i, Mode.exclusive) :: (.chunk (i, chunkNo), .exclusive) :: held := by simp
    unfold deleteChunks protectDelete
    refine does_bind (does_lock composable_commits fun t₁ h₁ => does_bind ?_)
    refine does_bind (does_lock composable_commits fun t₂ h₂ => ?_)
    refine does_bind (does_read fun t₃ h₃ => does_require fun hall => ?_)
    have hrelies : Relies Commits held t t₃ := h₁.trans
      ((h₂.of_subset (List.subset_cons_self _ _)).trans (h₃.of_subset hsubset))
    refine does_bind (does_write composable_commits (fun s hs => ?_) (ih hw ?_))
    · refine (guarantee_eraseChunk hchunk hrequest fun r hr => ?_).commits rfl rfl
      rw [hw s t₃ (Relies.request_eq hs hrequest)] at hr
      rw [hr] at hall
      simp only [Option.all_some, Bool.or_eq_true, decide_eq_true_eq] at hall
      rcases hall with (hnone | hverified) | hretained
      · exact .inl (Option.isNone_iff_eq_none.mp hnone)
      · exact .inr (.inl hverified)
      · exact .inr (.inr hretained)
    · intro held' w' t' hsubset' hrelies' hsame
      exact hK held' w' t' (List.Subset.trans hsubset hsubset')
        (hrelies.trans (hrelies'.of_subset hsubset)) hsame

theorem does_deleteManifestKeys {K : Ending LockKey Tables PUnit}
    (hw : ∀ s s', s.requests.lookup i = s'.requests.lookup i →
      (w s).requests.lookup i = (w s').requests.lookup i)
    (hK : ∀ held' w' t', held ⊆ held' → Relies Commits held t t' →
      (∀ s, (w' s).requests = (w s).requests) → K ⟨⟩ held' w' t') :
    Does Commits (deleteManifestKeys i) K held w t :=
  does_bind (does_read fun _ h₁ => does_deleteChunks _ hw fun held' w' t' hsubset hrelies hsame =>
    hK held' w' t' hsubset (h₁.trans hrelies) hsame)

theorem does_clearManifestKeyChunks (token : LeaseToken) :
    Stays (clearManifestKeyChunks start token) t := by
  unfold clearManifestKeyChunks
  refine does_bind (does_okOr fun generation _ => ?_)
  refine does_bind (does_verifyLeaseAndFence fun _ _ _ => ?_)
  exact does_deleteManifestKeys (fun _ _ h => h) fun _ w' _ _ _ hsame s _ =>
    quiet_of_requests hsame s

theorem does_appendManifestKeyChunk (token : LeaseToken) (chunk : ManifestKeyChunk) :
    Stays (appendManifestKeyChunk start token chunk) t := by
  have hrequest : (LockKey.request token.requestId, Mode.exclusive) ∈
    [(LockKey.chunk (token.requestId, chunk.chunkNo), Mode.exclusive),
      (.request token.requestId, .exclusive)] := by simp
  unfold appendManifestKeyChunk protectInsert
  refine does_bind (does_require fun _ => does_bind (does_okOr fun generation _ => ?_))
  refine does_bind (does_verifyLeaseAndFence fun _ _ _ => does_bind ?_)
  refine does_bind (does_lock composable_commits fun t₂ _ => ?_)
  refine does_bind (does_read fun t₃ _ => does_require fun hany => ?_)
  refine does_bind (does_lock composable_commits fun t₄ h₄ => ?_)
  refine does_bind (does_read fun t₅ h₅ => does_bind (does_require fun _ => ?_))
  refine does_write composable_commits (fun s hs => ?_) fun s _ =>
    quiet_of_requests (fun _ => rfl) s
  refine (guarantee_insertChunk List.mem_cons_self hrequest fun r hr => ?_).commits rfl rfl
  have hrow : t₃.requests.lookup token.requestId = some r := by
    rw [← Relies.request_eq h₄ List.mem_cons_self, ← Relies.request_eq h₅ hrequest,
      ← Relies.request_eq hs hrequest]
    exact hr
  obtain ⟨r', hr', hfree⟩ := (Option.any_eq_true _ _).mp hany
  obtain rfl : r = r' := Option.some.inj (hrow.symm.trans hr')
  simp only [Bool.and_eq_true] at hfree
  exact Option.isNone_iff_eq_none.mp hfree.1

theorem does_freezeDestructiveStorageManifest (hashing : Hashing) (token : LeaseToken)
    (manifest : StorageManifest) :
    Stays (freezeDestructiveStorageManifest hashing start token manifest) t := by
  have hrest (o : Option DeletionRequest) (held' : Held LockKey) (generation : ℕ) (t' : Tables) :
      Does Commits (do
        require o.isSome (.deletionSafety "deletion request disappeared before manifest freeze")
        verifyLeaseAndFence start token .fenced generation
        checked (validateStorageManifest manifest)
        let t ← read
        checked (validateManifestKeyChunks hashing manifest (t.chunks token.requestId))
        let r ← updateRequest token.requestId
          (fun _ r => r.claimedBy token && r.stage = .fenced &&
            r.destructiveStorageManifest.all (· = manifest)) (·.frozen start manifest)
        require r.isSome (.deletionSafety
          "destructive storage manifest changed or deletion lease is stale"))
        (fun _ => Always Commits Tables.SameStages) held' id t' := by
    refine does_bind (does_require fun _ => does_bind (does_verifyLeaseAndFence fun _ _ _ => ?_))
    refine does_bind (does_checked fun _ _ => does_bind (does_read fun _ _ => ?_))
    refine does_bind (does_checked fun _ _ => does_bind ?_)
    exact does_updateRequest_quiet (fun _ => ⟨rfl, rfl, rfl, rfl⟩) fun _ _ _ _ hquiet =>
      does_require fun _ s _ => hquiet s
  unfold freezeDestructiveStorageManifest
  refine does_bind (does_okOr fun generation _ => ?_)
  exact does_bind (does_selectRequestForUpdate (fun _ => rfl) (fun _ _ _ _ _ => hrest _ _ _ _)
    fun _ _ _ _ => hrest _ _ _ _)

theorem does_markManifestChunkDeleted (token : LeaseToken) (chunkNo : ℕ) :
    Stays (markManifestChunkDeleted start token chunkNo) t := by
  unfold markManifestChunkDeleted
  refine does_bind (does_okOr fun generation _ => ?_)
  refine does_bind (does_verifyLeaseAndFence fun _ _ _ => ?_)
  refine does_bind (does_read fun t₁ _ => does_bind (does_require fun _ => ?_))
  refine does_bind (does_lock composable_commits fun t₂ _ => ?_)
  refine does_bind (does_read fun t₃ _ => does_bind (does_require fun hany => ?_))
  refine does_write composable_commits (fun s hs => ?_) fun s _ => ?_
  · refine (guarantee_stamp List.mem_cons_self fun c hc => ?_).commits ?_ ?_
    · have hchunk : t₃.manifestKeys.lookup (token.requestId, chunkNo) = some c :=
        (Relies.chunk_eq hs List.mem_cons_self).symm.trans hc
      obtain ⟨c', hc', hfree⟩ := (Option.any_eq_true _ _).mp hany
      obtain rfl : c = c' := Option.some.inj (hchunk.symm.trans hc')
      exact Option.isNone_iff_eq_none.mp hfree
    · unfold Tables.modifyChunk
      split <;> rfl
    · unfold Tables.modifyChunk
      split <;> rfl
  · refine quiet_of_requests (fun s => ?_) s
    unfold Function.comp Tables.modifyChunk
    dsimp only
    split <;> rfl

/-! ### Later stages -/

/-- A stage after the fence advances under a token that has been verified. -/
theorem does_advance_of_fenced {token : LeaseToken} {source target : DeletionStage}
    {generation : ℕ} {t₁ : Tables} (hsource : source ≠ .approved)
    (hfenced : t₁.tokenFenced start token source generation = true)
    (hrelies : Relies Commits [] t₁ t) (hquiet : Quiet w)
    (hlookup : ∀ s, (w s).requests.lookup token.requestId = s.requests.lookup token.requestId)
    (hnext : source.next = some target) :
    Does Commits (advanceRequest start token source target (some generation))
      (fun _ held' w' t' => Relies Commits held t t' ∧ held ⊆ held' ∧
        w' = (·.modifyRequest token.requestId (·.advanced target (some generation))) ∘ w ∧
          Always Commits (token.Advances start) held' w' t')
      held w t := by
  obtain ⟨r₁, hr₁, happroved, -⟩ := Tables.exists_of_tokenFenced hfenced
  refine does_advanceRequest hlookup (fun h => absurd h hsource) ?_
  intro t₂ r h₂ hr hstage hclaimed hlive
  refine ⟨h₂, List.subset_cons_self _ _, rfl, ?_⟩
  refine always_advances hquiet hlookup hr₁ happroved
    (hrelies.trans h₂.unlocked) List.mem_cons_self hr ?_ hclaimed hlive
  rw [hstage]
  exact hnext

theorem does_advanceWithCheckpoint (token : LeaseToken) {source target : DeletionStage}
    (hsource : source ≠ .approved) (hnext : source.next = some target) :
    Does Commits (advanceWithCheckpoint start token source target)
      (fun _ => Always Commits (token.Advances start)) [] id t := by
  unfold advanceWithCheckpoint
  refine does_bind (does_okOr fun generation _ => ?_)
  refine does_bind (does_verifyLeaseAndFence fun t₁ _ hfenced => ?_)
  exact (does_advance_of_fenced hsource hfenced .refl quiet_id (fun _ => rfl) hnext).mono
    fun _ _ _ _ _ _ hend => hend.2.2.2

theorem does_markDrained (token : LeaseToken) :
    Does Commits (markDrained start token)
      (fun _ => Always Commits (token.Advances start)) [] id t := by
  unfold markDrained
  refine does_bind (does_okOr fun generation _ => ?_)
  refine does_bind (does_verifyLeaseAndFence fun t₁ _ hfenced => ?_)
  refine does_bind (does_read fun t₂ h₂ => does_bind (does_require fun _ => ?_))
  exact (does_advance_of_fenced (by decide) hfenced h₂ quiet_id (fun _ => rfl) rfl).mono
    fun _ _ _ _ _ _ hend => hend.2.2.2

/-- Writes of tenant rows alone. -/
def RowsOnly (w : Tables → Tables) : Prop := ∀ s, ∃ rows, w s = { s with rows := rows }

namespace RowsOnly

theorem id : RowsOnly id := fun s => ⟨s.rows, rfl⟩

theorem setRows (hw : RowsOnly w) (table : String) (f : List String → List String) :
    RowsOnly ((·.setRows table f) ∘ w) := fun s => by
  obtain ⟨rows, hrows⟩ := hw s
  refine ⟨Function.update rows table (f (rows table)), ?_⟩
  rw [Function.comp_apply, hrows]
  rfl

theorem community (hw : RowsOnly w) (s : Tables) : (w s).community = s.community := by
  obtain ⟨rows, hrows⟩ := hw s
  rw [hrows]

theorem requests (hw : RowsOnly w) (s : Tables) : (w s).requests = s.requests := by
  obtain ⟨rows, hrows⟩ := hw s
  rw [hrows]

theorem leases (hw : RowsOnly w) (s : Tables) : (w s).leases = s.leases := by
  obtain ⟨rows, hrows⟩ := hw s
  rw [hrows]

end RowsOnly

theorem does_setRows {K : Ending LockKey Tables PUnit}
    (hw : RowsOnly w) (table : String) (f : List String → List String)
    (hK : RowsOnly ((·.setRows table f) ∘ w) → K ⟨⟩ held ((·.setRows table f) ∘ w) t) :
    Does Commits (write (·.setRows table f) : Tx PUnit) K held w t :=
  does_write composable_commits (fun _ _ => (guarantee_setRows table f).commits rfl rfl)
    (hK (hw.setRows table f))

theorem does_clearProvenance {K : Ending LockKey Tables PUnit}
    (tables : List String) (hw : RowsOnly w) (hK : ∀ w', RowsOnly w' → K ⟨⟩ held w' t) :
    Does Commits (clearProvenance tables) K held w t := by
  induction tables generalizing w with
  | nil => exact does_pure (hK w hw)
  | cons table rest ih => exact does_bind (does_setRows hw table _ fun hw' => ih hw')

theorem does_purgeTables {settings : Settings}
    {K : Ending LockKey Tables PUnit} (tables : List String)
    (hw : RowsOnly w)
    (hK : ∀ held' w' t', held ⊆ held' → Relies Commits held t t' → RowsOnly w' →
      K ⟨⟩ held' w' t') : Does Commits (purgeTables start settings tables) K held w t := by
  induction tables generalizing held w t with
  | nil => exact does_pure (hK held w t (List.Subset.refl _) .refl hw)
  | cons table rest ih =>
    unfold purgeTables
    refine does_bind (does_read fun t₁ h₁ => ?_)
    dsimp only
    split
    · exact ih hw fun held' w' t' hsubset hrelies => hK held' w' t' hsubset (h₁.trans hrelies)
    · refine does_bind (does_assertCommunityWriteAllowed hw.community hw.leases ?_)
      intro t₂ _ h₂ _ _
      refine does_bind (does_setRows hw table _ fun hw' => ih hw' ?_)
      intro held' w' t' hsubset hrelies
      exact hK held' w' t' (List.Subset.trans (List.subset_cons_self _ _) hsubset)
        (h₁.trans (h₂.trans (hrelies.of_subset (List.subset_cons_self _ _))))

/-- A fenced community becomes a tombstone of the same generation. -/
structure Purges (s s' : Tables) : Prop where
  before : s.community.deletionState = .fenced
  after : s'.community.deletionState = .tombstone

theorem does_purgePostgres (token : LeaseToken) :
    Does Commits (purgePostgres start token)
      (fun _ => Always Commits fun s s' => token.Advances start s s' ∧ Purges s s') [] id t := by
  unfold purgePostgres
  refine does_bind (does_okOr fun generation _ => ?_)
  refine does_bind (does_lock composable_commits fun t₁ _ => does_bind (does_read fun t₂ _ => ?_))
  refine does_bind (does_checked fun _ _ => ?_)
  refine does_bind (does_verifyLeaseAndFence fun t₃ _ hfenced => ?_)
  refine does_bind (does_clearProvenance _ RowsOnly.id fun w₁ hw₁ => ?_)
  refine does_bind (does_purgeTables _ hw₁ fun held₂ w₂ t₄ _ h₄ hw₂ => ?_)
  refine does_bind (does_updateCommunity hw₂.community ?_ ?_ ?_)
  · intro t₅ _ hp _
    simp only [Bool.and_eq_true, decide_eq_true_eq] at hp
    refine ⟨.inl ⟨rfl, ?_⟩, .inr ⟨rfl, .inr ⟨hp.1, rfl⟩⟩⟩
    rw [hp.1]
    exact Nat.le_succ 2
  · intro t₅ h₅ hp
    simp only [Bool.and_eq_true, decide_eq_true_eq] at hp
    refine does_bind (does_require fun _ => ?_)
    have hquiet : Quiet ((·.modifyCommunity (·.tombstoned start)) ∘ w₂) :=
      quiet_of_requests hw₂.requests
    have hrelies : Relies Commits [] t₃ t₅ := h₄.unlocked.trans h₅.unlocked
    refine (does_advance_of_fenced (by decide) hfenced hrelies hquiet (fun s => ?_) rfl).mono ?_
    · simp only [Function.comp_apply, requests_modifyCommunity, hw₂.requests]
    · intro _ held' w' t' _ _ hend s hs
      obtain ⟨h', hsubset, rfl, hmoves⟩ := hend
      refine ⟨hmoves s hs, ?_, ?_⟩
      · rw [Relies.community_eq hs (hsubset List.mem_cons_self),
          Relies.community_eq h' List.mem_cons_self]
        exact hp.1
      · simp only [Function.comp_apply, community_modifyRequest, community_modifyCommunity]
        rfl
  · intro _ _ _ _
    exact does_bind (does_require fun h => by cases h)

theorem does_requireAbsent {K : Ending LockKey Tables PUnit}
    (tables : List String) (hK : ∀ t', K ⟨⟩ held w t') :
    Does Commits (requireAbsent tables) K held w t := by
  induction tables generalizing t with
  | nil => exact does_pure (hK t)
  | cons table rest ih =>
    exact does_bind (does_read fun t₁ _ => does_bind (does_require fun _ => ih))

theorem does_verifyPostgresLogicallyDeleted (token : LeaseToken) :
    Stays (verifyPostgresLogicallyDeleted start token) t := by
  unfold verifyPostgresLogicallyDeleted
  refine does_bind (does_okOr fun generation _ => ?_)
  refine does_bind (does_lock composable_commits fun t₁ _ => does_bind (does_read fun t₂ _ => ?_))
  refine does_bind (does_checked fun _ _ => does_bind (does_verifyLeaseAndFence fun _ _ _ => ?_))
  refine does_bind (does_read fun t₄ _ => does_bind (does_require fun _ => ?_))
  exact does_requireAbsent _ fun _ s _ => quiet_id s

theorem does_markLogicallyVerified (token : LeaseToken) :
    Does Commits (markLogicallyVerified start token)
      (fun _ => Always Commits (token.Advances start)) [] id t := by
  unfold markLogicallyVerified
  refine does_bind (does_okOr fun generation _ => ?_)
  refine does_bind (does_verifyLeaseAndFence fun t₁ _ hfenced => ?_)
  refine does_bind ((does_advance_of_fenced (by decide) hfenced .refl quiet_id (fun _ => rfl)
    rfl).mono ?_)
  intro _ held' w' t' _ _ hend
  obtain ⟨-, -, rfl, hadvances⟩ := hend
  refine does_deleteManifestKeys (fun s s' heq => ?_)
    fun held'' w'' t'' hsubset h'' hsame s hs => ?_
  · simp only [Function.comp_apply, id_eq, lookup_modifyRequest, ↓reduceIte, heq]
  · obtain ⟨hmoves, hmoved⟩ := hadvances s (h''.trans (hs.of_subset hsubset))
    refine ⟨fun j r r' hr hr' => hmoves j r r' hr (hsame s ▸ hr'), ?_⟩
    rw [hsame s]
    exact hmoved

theorem does_markRetentionPending (token : LeaseToken) :
    Does Commits (markRetentionPending start token)
      (fun _ => Always Commits (token.Advances start)) [] id t := by
  unfold markRetentionPending
  refine does_bind (does_okOr fun generation _ => ?_)
  refine does_bind (does_verifyLeaseAndFence fun t₁ _ hfenced => ?_)
  obtain ⟨r₁, hr₁, happroved, -⟩ := Tables.exists_of_tokenFenced hfenced
  refine does_bind (does_updateRequest (fun _ => rfl) ?_ ?_ ?_)
  · intro t' r _ _ hp htarget
    simp only [Bool.and_eq_true, decide_eq_true_eq] at hp
    obtain ⟨⟨⟨hstage, -⟩, -⟩, -⟩ := hp
    refine ⟨.of_update htarget ?_ (fun ha => ?_) (fun _ => ⟨rfl, rfl⟩) (Nat.le_refl _),
      fun hs => ?_⟩
    · rw [hstage]
      exact Nat.le_succ 8
    · cases ha
    · rw [hstage] at hs
      cases hs
  · intro t₂ r h₂ hr hp
    simp only [Bool.and_eq_true, decide_eq_true_eq] at hp
    obtain ⟨⟨⟨hstage, hclaimed⟩, hlive⟩, -⟩ := hp
    refine does_require fun _ => ?_
    refine always_advances quiet_id (fun _ => rfl) hr₁ happroved h₂ List.mem_cons_self hr ?_
      hclaimed hlive
    rw [hstage]
    rfl
  · intro _ _ _ _ _ _ _
    exact does_require fun h => by cases h

/-! ### Abort -/

/-- How a community was archived before its request, as far as the request has quiesced it. -/
def archivedBefore (r : DeletionRequest) (c : Community) : Option ℤ :=
  if r.quiescingStartedAt.isSome then r.preQuiesceArchivedAt else c.archivedAt

/-- An abort ends its request and the claim, and restores the community under the next
generation. -/
structure Restores (requestId : Uuid) (s s' : Tables) : Prop where
  before : s.community.deletionState ≠ .tombstone
  request : ∃ r r', s.requests.lookup requestId = some r ∧
    s'.requests.lookup requestId = some r' ∧ (r.stage = .approved ∨ r.stage = .fenced) ∧
      r'.stage = .aborted ∧ r'.leaseGeneration = r.leaseGeneration + 1 ∧
        s'.community = s.community.restored (s.community.deletionFenceGeneration + 1)
          (archivedBefore r s.community)

theorem does_abort (requestId : Uuid) (abortedBy reason : String) :
    Does Commits (abort start requestId abortedBy reason)
      (fun _ => Always Commits fun s s' => Tables.MovesOnly requestId (fun r r' =>
        (r.stage = .approved ∨ r.stage = .fenced) ∧ r'.stage = .aborted) s s' ∧
          Restores requestId s s') [] id t := by
  unfold abort
  dsimp only
  refine does_bind (does_require fun _ => does_bind (does_read fun t₁ _ => ?_))
  refine does_bind (does_require fun _ => does_bind (does_lock composable_commits fun t₂ _ => ?_))
  refine does_bind (does_selectRequestForUpdate (fun _ => rfl) ?_ fun _ _ _ _ =>
    does_bind (does_okOr fun _ h => by cases h))
  intro t₃ r _ hr _
  refine does_bind (does_okOr fun _ heq => does_bind (does_require fun hstage => ?_))
  obtain rfl := Option.some.inj heq
  simp only [Bool.or_eq_true, decide_eq_true_eq] at hstage
  refine does_bind (does_read fun t₄ h₄ => does_bind (does_require fun _ => ?_))
  refine does_bind (does_lock composable_commits fun t₅ h₅ => ?_)
  refine does_bind (does_read fun t₆ h₆ => does_bind (does_okOr fun generation hgeneration => ?_))
  have hsucc : generation = t₆.community.deletionFenceGeneration + 1 := checkedSucc_eq hgeneration
  have hlocks : (LockKey.communityRow, Mode.exclusive) ∈ [(LockKey.communityRow, Mode.exclusive),
      (.request requestId, .exclusive), (.community, .exclusive)] ∧
    (LockKey.request requestId, Mode.exclusive) ∈ [(LockKey.communityRow, Mode.exclusive),
      (.request requestId, .exclusive), (.community, .exclusive)] ∧
    (LockKey.community, Mode.exclusive) ∈ [(LockKey.communityRow, Mode.exclusive),
      (.request requestId, .exclusive), (.community, .exclusive)] := by simp
  obtain ⟨hrow, hrequest, hlock⟩ := hlocks
  have hr₆ : t₆.requests.lookup requestId = some r := by
    rw [Relies.request_eq h₆ hrequest, Relies.request_eq h₅ List.mem_cons_self,
      Relies.request_eq h₄ List.mem_cons_self]
    exact hr
  refine does_bind (does_updateCommunity (fun _ => rfl) ?_ ?_ ?_)
  · intro t₇ h₇ hp _
    have heq : t₇.community = t₆.community := Relies.community_eq h₇ hrow
    simp only [Bool.and_eq_true, ne_eq, decide_eq_true_eq] at hp
    refine ⟨.inr ⟨?_, hp.1⟩, .inl hlock⟩
    rw [heq]
    exact Nat.lt_of_lt_of_eq (Nat.lt_succ_self _) hsucc.symm
  · intro t₇ h₇ hp
    have heq : t₇.community = t₆.community := Relies.community_eq h₇ hrow
    simp only [Bool.and_eq_true, ne_eq, decide_eq_true_eq] at hp
    refine does_bind (does_require fun _ => does_bind (does_okOr fun leaseGeneration hlease => ?_))
    refine does_bind (does_updateRequest (fun _ => rfl) ?_ ?_ ?_)
    · intro t₈ r' h₈ hr' _ htarget
      rw [Relies.request_eq h₈ (List.mem_cons_of_mem _ hrequest),
        Relies.request_eq h₇ hrequest, hr₆] at hr'
      obtain rfl := Option.some.inj hr'
      refine ⟨.of_update htarget (DeletionStage.position_le _) (fun _ => .inr ?_)
        (fun _ => ⟨rfl, rfl⟩) ?_, fun _ => .inr (List.mem_cons_of_mem _ hlock)⟩
      · rcases hstage with hstage | hstage
        · rw [hstage]
          exact Nat.le_succ 2
        · rw [hstage]
          exact Nat.le_refl 3
      · exact Nat.le_trans (Nat.le_succ _) (checkedSucc_eq hlease).ge
    · intro t₈ r' h₈ hr' _
      refine does_okOr fun _ _ s hs => ?_
      have hrow₈ : s.requests.lookup requestId = some r := by
        rw [Relies.request_eq hs List.mem_cons_self,
          Relies.request_eq h₈ (List.mem_cons_of_mem _ hrequest),
          Relies.request_eq h₇ hrequest, hr₆]
      have hs' : s.community = t₇.community :=
        (Relies.community_eq hs (List.mem_cons_of_mem _ List.mem_cons_self)).trans
          (Relies.community_eq h₈ List.mem_cons_self)
      have hquiet : Quiet ((·.modifyCommunity (·.restored generation
          (if r.quiescingStartedAt.isSome then r.preQuiesceArchivedAt
            else t₆.community.archivedAt))) ∘ id) := quiet_of_requests fun _ => rfl
      refine ⟨movesOnly_modifyRequest hquiet rfl fun r₁ hr₁ => ?_, ?_, r,
        r.abandoned start (boundText (trim abortedBy) 512) (boundText (trim reason) 4096)
          generation leaseGeneration, hrow₈, ?_, hstage, rfl, checkedSucc_eq hlease, ?_⟩
      · obtain rfl : r₁ = r := Option.some.inj (hr₁.symm.trans hrow₈)
        exact ⟨hstage, rfl⟩
      · rw [hs']
        exact hp.1
      · simp only [Function.comp_apply, id_eq, lookup_modifyRequest, ↓reduceIte,
          requests_modifyCommunity, hrow₈, Option.map_some]
      · simp only [Function.comp_apply, id_eq, community_modifyRequest,
          community_modifyCommunity, hs', heq, hsucc, archivedBefore]
    · intro _ _ _ _ _ _ _
      exact does_okOr fun _ h => by cases h
  · intro _ _ _ _
    exact does_bind (does_require fun h => by cases h)

/-! ### Serving leases and tenants -/

theorem does_acquireServingWriteLease (leaseId : Uuid) (operation owner : String) (seconds : ℕ) :
    Does Commits (acquireServingWriteLease start leaseId operation owner seconds)
      (fun lease => Always Commits fun s s' => s.SameStages s' ∧
        s.community.deletionState = .active ∧
          lease.fenceGeneration = s.community.deletionFenceGeneration) [] id t := by
  unfold acquireServingWriteLease
  refine does_bind (does_assertCommunityWriteAllowed (fun _ => rfl) (fun _ => rfl) ?_)
  intro t₁ _ _ _ _
  refine does_bind (does_lock composable_commits fun t₂ _ => does_bind (does_read fun t₃ _ => ?_))
  refine does_bind (does_require fun hactive => does_bind (does_require fun _ => ?_))
  simp only [id_eq, Bool.and_eq_true, decide_eq_true_eq] at hactive
  have hlock : (LockKey.community, Mode.shared) ∈ [(LockKey.lease leaseId, Mode.exclusive),
    (.community, .shared)] := by simp
  have hopen (s : Tables) (hs : Relies Commits [(.lease leaseId, .exclusive),
      (.community, .shared)] t₃ s) : s.community.deletionState = .active ∧
        t₃.community.deletionFenceGeneration = s.community.deletionFenceGeneration := by
    obtain ⟨hgeneration, hstate⟩ := Relies.lifecycle hs hlock
    refine ⟨?_, hgeneration.symm⟩
    exact (hstate.resolve_right fun hfenced => by simp [hactive.1] at hfenced).trans hactive.1
  refine does_bind (does_write composable_commits (fun s hs => ⟨guarantee_issue _, .refl _, ?_⟩)
    (does_pure fun s hs => ⟨quiet_of_requests (fun _ => rfl) s, hopen s hs⟩))
  intro lease hlease
  rcases List.mem_cons.mp hlease with rfl | hold
  · exact .inr (.inr ⟨(hopen s hs).2, (hopen s hs).1⟩)
  · exact .inl hold

/-- Under the shared lock the generation of a current lease stays that of the community. -/
theorem leaseCurrent_generation {t' : Tables} {lease : ServingWriteLease}
    (h : t.leaseCurrent start lease = true) (hrelies : Relies Commits held t t')
    (hlock : (.community, .shared) ∈ held) :
    t'.community.deletionFenceGeneration = lease.fenceGeneration ∧
      (t'.community.deletionState = .active ∨ t'.community.deletionState = .quiescing) := by
  simp only [Tables.leaseCurrent, Bool.and_eq_true, Bool.or_eq_true, decide_eq_true_eq] at h
  obtain ⟨⟨-, hopen⟩, hlease⟩ := h
  obtain ⟨hgeneration, hstate⟩ := Relies.lifecycle hrelies hlock
  refine ⟨hgeneration.trans hlease, ?_⟩
  rwa [hstate.resolve_right fun hfenced => by rcases hopen with h | h <;> simp [h] at hfenced]

theorem does_renewServingWriteLease (lease : ServingWriteLease) (seconds : ℕ) :
    Does Commits (renewServingWriteLease start lease seconds)
      (fun _ => Always Commits fun s s' => s.SameStages s' ∧
        s.community.deletionFenceGeneration = lease.fenceGeneration ∧
          (s.community.deletionState = .active ∨ s.community.deletionState = .quiescing))
      [] id t := by
  unfold renewServingWriteLease
  refine does_bind (does_lock composable_commits fun t₁ _ => does_bind (does_read fun t₂ _ => ?_))
  refine does_bind (does_require fun _ => does_bind (does_lock composable_commits fun t₃ _ => ?_))
  refine does_bind (does_read fun t₄ _ => does_bind (does_require fun hcurrent => ?_))
  have hsame (s : Tables) (f : ServingLease → ServingLease) :
      (s.modifyLease lease.id f).community = s.community ∧
        (s.modifyLease lease.id f).requests = s.requests ∧
          (s.modifyLease lease.id f).issued = s.issued := by
    unfold Tables.modifyLease
    split <;> exact ⟨rfl, rfl, rfl⟩
  have hquiet : Quiet (·.modifyLease lease.id fun row =>
      { row with leaseUntil := after start seconds }) := quiet_of_requests fun s => (hsame s _).2.1
  refine does_bind (does_write composable_commits (fun s _ => ⟨?_, ?_, ?_⟩)
    (does_pure fun s hs => ?_))
  · exact guarantee_modifyLease fun _ => ⟨rfl, rfl, rfl⟩
  · rw [(hsame (id s) _).1]
    exact .refl _
  · intro _ hlease
    rw [(hsame (id s) _).2.2] at hlease
    exact .inl hlease
  · exact ⟨hquiet s, leaseCurrent_generation hcurrent hs (by simp)⟩

theorem does_verifyServingWriteLease (lease : ServingWriteLease) :
    Does Commits (verifyServingWriteLease start lease)
      (fun _ => Always Commits fun s s' => s.SameStages s' ∧
        s.community.deletionFenceGeneration = lease.fenceGeneration ∧
          (s.community.deletionState = .active ∨ s.community.deletionState = .quiescing))
      [] id t := by
  unfold verifyServingWriteLease
  refine does_bind (does_lock composable_commits fun t₁ _ => does_bind (does_read fun t₂ _ => ?_))
  exact does_require fun hcurrent s hs =>
    ⟨quiet_id s, leaseCurrent_generation hcurrent hs List.mem_cons_self⟩

theorem does_releaseServingWriteLease (lease : ServingWriteLease) :
    Stays (releaseServingWriteLease lease) t := by
  unfold releaseServingWriteLease
  refine does_bind (does_read fun t₁ _ => ?_)
  split
  · refine does_bind (does_lock composable_commits fun t₂ _ => does_bind (does_read fun t₃ _ => ?_))
    split
    · exact does_bind (does_write composable_commits
        (fun _ _ => guarantee_eraseLease.commits rfl rfl)
          (does_pure fun s _ => quiet_of_requests (fun _ => rfl) s))
    · exact does_pure fun s _ => quiet_id s
  · exact does_pure fun s _ => quiet_id s

theorem does_reapLeases (limit : ℕ) (expired : List Uuid) (hw : Quiet w) :
    Does Commits (reapLeases start limit expired) (fun _ => Always Commits Tables.SameStages)
      held w t := by
  induction expired generalizing held w t limit with
  | nil => cases limit <;> exact does_pure fun s _ => hw s
  | cons leaseId rest ih =>
    cases limit with
    | zero => exact does_pure fun s _ => hw s
    | succ limit =>
      unfold reapLeases
      refine does_bind (does_tryLock composable_commits (fun t₁ _ => ?_) fun t₁ _ => ih _ hw)
      refine does_bind (does_read fun t₂ _ => ?_)
      split
      · have herase : Quiet (·.eraseLease leaseId) := quiet_of_requests fun _ => rfl
        refine does_bind (does_write composable_commits
          (fun _ _ => guarantee_eraseLease.commits rfl rfl) (does_bind ?_))
        exact (ih limit (herase.comp hw)).mono fun _ _ _ _ _ _ hend => does_pure hend
      · exact ih _ hw

theorem does_reapExpiredServingWriteLeases (limit : ℤ) :
    Stays (reapExpiredServingWriteLeases start limit) t := by
  unfold reapExpiredServingWriteLeases
  refine does_bind (does_read fun t₁ _ => ?_)
  dsimp only
  generalize (max 1 (min limit 10000)).toNat = n
  exact does_reapLeases n _ quiet_id

/-- How a write of a tenant was admitted, at the commit. -/
def Tables.Admitted (s : Tables) : Admission → Prop
  | .executor => False
  | .serving lease => (s.community.deletionState = .active ∨
      s.community.deletionState = .quiescing) ∧
        lease.fenceGeneration = s.community.deletionFenceGeneration ∧ s.Issued lease
  | .active => s.community.deletionState = .active

/-- An admission lasts to the commit under the shared lock. -/
theorem Relies.admitted {t' : Tables} {a : Admission} (h : Relies Commits held t t')
    (hlock : (.community, .shared) ∈ held) (ha : t.Admitted a) : t'.Admitted a := by
  obtain ⟨hgeneration, hstate⟩ := Relies.lifecycle h hlock
  have hsame (hne : t.community.deletionState ≠ .fenced) :
      t'.community.deletionState = t.community.deletionState :=
    hstate.resolve_right fun hfenced => hne hfenced.1
  cases a with
  | executor => exact ha
  | serving lease =>
    obtain ⟨hopen, hlease, hissued⟩ := ha
    refine ⟨?_, hlease.trans hgeneration.symm,
      hissued.mono (Relies.issued h)⟩
    rwa [hsame (by rcases hopen with h | h <;> simp [h])]
  | active =>
    have hactive : t.community.deletionState = .active := ha
    exact (hsame (by simp [hactive])).trans hactive

theorem Community.Admits.admitted {settings : Settings} {a : Admission}
    (h : t.community.Admits settings a) (hsettings : settings.executor = none) (hs : t.Sound)
    (hvalid : ∀ lease, a = .serving lease → t.leaseValid start lease = true) : t.Admitted a := by
  cases a with
  | executor =>
    have hexecutor : settings.executor = some t.community.deletionFenceGeneration := h
    rw [hsettings] at hexecutor
    cases hexecutor
  | serving lease => exact ⟨h.2.1, h.2.2, hs.issued (hvalid lease rfl)⟩
  | active => exact h

/-- Where the statements of a tenant end, from the writes before them: rows alone are written, and
only where they were admitted. -/
structure TenantEnd (w : Tables → Tables) (admissions : List Admission) (held' : Held LockKey)
    (w' : Tables → Tables) (t' : Tables) : Prop where
  rows : RowsOnly w'
  admitted : ∀ a ∈ admissions, (.community, .shared) ∈ held' ∧ t'.Admitted a
  unchanged : admissions = [] → w' = w

/-- One admitted write, and the rest of the statements. -/
theorem does_admittedWrite {settings : Settings} {rest : List TenantStatement} (table : String)
    (f : List String → List String) (hw : RowsOnly w) (hsettings : settings.executor = none)
    (hs : t.Sound)
    (hrest : ∀ {held : Held LockKey} {w : Tables → Tables} {t : Tables}, RowsOnly w → t.Sound →
      Does Commits (tenantStatements start settings rest) (TenantEnd w) held w t) :
    Does Commits (do
      let admission ← assertCommunityWriteAllowed start settings
      write (·.setRows table f)
      let admissions ← tenantStatements start settings rest
      return admission :: admissions) (TenantEnd w) held w t := by
  refine does_bind (does_assertCommunityWriteAllowed hw.community hw.leases ?_)
  intro t₁ a h₁ hadmits hvalid
  have hs₁ : t₁.Sound := Relies.sound h₁ hs
  have hadmitted : t₁.Admitted a := hadmits.admitted hsettings hs₁ hvalid
  refine does_bind (does_setRows hw table f fun hw' => does_bind ?_)
  refine (hrest hw' hs₁).mono fun admissions held' w' t' hsubset h' hend => does_pure ?_
  have hlock : (LockKey.community, Mode.shared) ∈ held' := hsubset List.mem_cons_self
  refine ⟨hend.rows, List.forall_mem_cons.mpr ⟨⟨hlock, ?_⟩, hend.admitted⟩, fun h => by cases h⟩
  exact Relies.admitted h' List.mem_cons_self hadmitted

theorem does_tenantStatements (statements : List TenantStatement) {settings : Settings}
    (hw : RowsOnly w) (hsettings : settings.executor = none) (hs : t.Sound) :
    Does Commits (tenantStatements start settings statements) (TenantEnd w) held w t := by
  have hsound {held₁ held₂ : Held LockKey} {t₁ t₂ t₃ : Tables} (hs₁ : t₁.Sound)
      (h₁ : Relies Commits held₁ t₁ t₂) (h₂ : Relies Commits held₂ t₂ t₃) : t₃.Sound :=
    Relies.sound h₂ (Relies.sound h₁ hs₁)
  induction statements generalizing held w t settings with
  | nil => exact does_pure ⟨hw, fun a ha => absurd ha List.not_mem_nil, fun _ => rfl⟩
  | cons statement rest ih =>
    cases statement with
    | guard =>
      unfold tenantStatements guardTransaction
      refine does_bind (does_bind (does_lock composable_commits fun t₁ h₁ => ?_))
      refine does_bind (does_read fun t₂ h₂ => does_require fun _ => ?_)
      exact ih hw hsettings (hsound hs h₁ h₂)
    | guardWithServingLease lease =>
      unfold tenantStatements guardTransactionWithServingLease
      refine does_bind (does_bind (does_lock composable_commits fun t₁ h₁ => ?_))
      refine does_bind (does_read fun t₂ h₂ => does_require fun _ => ?_)
      exact ih hw hsettings (hsound hs h₁ h₂)
    | write table f => exact does_admittedWrite table f hw hsettings hs fun hw' => ih hw' hsettings
    | writeAllowed table f =>
      unfold tenantStatements communityWriteAllowed
      refine does_bind (does_bind (does_lock composable_commits fun t₁ h₁ => ?_))
      refine does_bind (does_read fun t₂ h₂ => does_pure ?_)
      split
      · exact does_admittedWrite table f hw hsettings (hsound hs h₁ h₂) fun hw' => ih hw' hsettings
      · exact ih hw hsettings (hsound hs h₁ h₂)

/-- A transaction of a tenant writes rows alone, and only where it was admitted. -/
structure TenantCommit (admissions : List Admission) (s s' : Tables) : Prop where
  rows : ∃ rows, s' = { s with rows := rows }
  admitted : ∀ a ∈ admissions, s.Admitted a
  unchanged : admissions = [] → s' = s

theorem does_tenantTransaction (statements : List TenantStatement) (hs : t.Sound) :
    Does Commits (tenantTransaction start statements)
      (fun admissions => Always Commits fun s s' => s.SameStages s' ∧ TenantCommit admissions s s')
      [] id t := by
  refine (does_tenantStatements statements RowsOnly.id rfl hs).mono ?_
  intro admissions held' w' t' _ _ hend s hrelies
  refine ⟨quiet_of_requests hend.rows.requests s, hend.rows s, fun a ha => ?_, fun hnil => ?_⟩
  · obtain ⟨hlock, hadmitted⟩ := hend.admitted a ha
    exact Relies.admitted hrelies hlock hadmitted
  · exact congrFun (hend.unchanged hnil) s

theorem does_tenantUpdateCommunity (update : CommunityUpdate) :
    Stays (tenantUpdateCommunity start update) t := by
  have hupdate (p : Community → Bool) (f : Community → Community)
      (hf : ∀ c, (f c).deletionState = c.deletionState ∧
        (f c).deletionFenceGeneration = c.deletionFenceGeneration) :
      Stays (updateCommunity .default p f) t := by
    refine does_updateCommunity (fun _ => rfl) (fun t' _ _ _ => ?_) (fun _ _ _ s _ => ?_)
      fun _ _ _ _ s _ => quiet_id s
    · obtain ⟨hstate, hgeneration⟩ := hf t'.community
      exact ⟨.of_same hgeneration hstate, .inr ⟨hgeneration, .inl hstate⟩⟩
    · exact Tables.sameStages_of_requests rfl
  cases update with
  | archive =>
    unfold tenantUpdateCommunity
    exact hupdate _ (fun c => { c with archivedAt := c.archivedFrom start }) fun _ => ⟨rfl, rfl⟩
  | unarchive =>
    unfold tenantUpdateCommunity
    exact hupdate _ (fun c => { c with archivedAt := none }) fun _ => ⟨rfl, rfl⟩
  | setIcon icon =>
    unfold tenantUpdateCommunity
    exact hupdate _ (fun c => { c with icon := icon }) fun _ => ⟨rfl, rfl⟩

/-! ### Every operation -/

/-- The token of an operation that advances its request. -/
def Op.token : Op → Option LeaseToken
  | .fence token | .markDrained token | .markBindingsRemoved token | .purgePostgres token
  | .markCachePurged token | .markLogicallyVerified token | .markRetentionPending token =>
    some token
  | _ => none

/-- How a commit of an operation may change the stage of a request. -/
inductive Op.Moves (start : ℤ) (s s' : Tables) : Op → Uuid → DeletionRequest → DeletionRequest →
    Prop
  | freezeInventory (i : Uuid) (inventory : FrozenInventory) (r r' : DeletionRequest)
      (hstage : r.stage = .submitted) (hstage' : r'.stage = .inventoried) :
      Moves start s s' (.freezeInventory i inventory) i r r'
  | approve (i : Uuid) (approvedBy : String) (note : Option String) (r r' : DeletionRequest)
      (hstage : r.stage = .inventoried) (hstage' : r'.stage = .approved)
      (happroved : s'.approved i r' = true) : Moves start s s' (.approve i approvedBy note) i r r'
  | abort (i : Uuid) (abortedBy reason : String) (r r' : DeletionRequest)
      (hstage : r.stage = .approved ∨ r.stage = .fenced) (hstage' : r'.stage = .aborted) :
      Moves start s s' (.abort i abortedBy reason) i r r'
  | execute (op : Op) (token : LeaseToken) (r r' : DeletionRequest) (htoken : op.token = some token)
      (hexecutes : token.Executes start s r r') : Moves start s s' op token.requestId r r'

/-- What else a commit of an operation is, from its result. -/
def Op.Effect (start : ℤ) : (op : Op) → op.Result → Tables → Tables → Prop
  | .claim .., result, s, s' => ∀ c, result = some c → c.Taken start s s'
  | .beginQuiescing token, _, s, s' => token.Quiesces s s'
  | .fence _, generation, s, s' => Fences generation s s'
  | .purgePostgres _, _, s, s' => Purges s s'
  | .abort requestId .., _, s, s' => Restores requestId s s'
  | .acquireServingWriteLease .., lease, s, _ => s.community.deletionState = .active ∧
      lease.fenceGeneration = s.community.deletionFenceGeneration
  | .renewServingWriteLease lease _, _, s, _ | .verifyServingWriteLease lease, _, s, _ =>
      s.community.deletionFenceGeneration = lease.fenceGeneration ∧
        (s.community.deletionState = .active ∨ s.community.deletionState = .quiescing)
  | .tenantTransaction _, admissions, s, s' => TenantCommit admissions s s'
  | _, _, _, _ => True

/-- What a commit of an operation is. -/
structure Op.Commit (start : ℤ) (op : Op) (result : op.Result) (s s' : Tables) : Prop where
  moves : ∀ i r r', s.requests.lookup i = some r → s'.requests.lookup i = some r' →
    r'.stage = r.stage ∨ op.Moves start s s' i r r'
  advances : ∀ token, op.token = some token → token.Advances start s s'
  effect : op.Effect start result s s'

/-- Where no stage changes. -/
theorem Op.Commit.of_sameStages {op : Op} {result : op.Result} {s s' : Tables}
    (htoken : op.token = none) (h : s.SameStages s') (heffect : op.Effect start result s s') :
    op.Commit start result s s' := by
  refine ⟨fun i r r' hr hr' => .inl ?_, fun token heq => ?_, heffect⟩
  · obtain ⟨r₁, hr₁, hstage⟩ := h i r hr
    rw [hr₁] at hr'
    exact Option.some.inj hr' ▸ hstage
  · rw [htoken] at heq
    cases heq

/-- Where one request moves, but not by an executor. -/
theorem Op.Commit.of_movesOnly {op : Op} {result : op.Result} {s s' : Tables}
    {R : DeletionRequest → DeletionRequest → Prop} (htoken : op.token = none)
    (h : Tables.MovesOnly i R s s') (hR : ∀ r r', R r r' → op.Moves start s s' i r r')
    (heffect : op.Effect start result s s') : op.Commit start result s s' := by
  refine ⟨fun j r r' hr hr' => (h j r r' hr hr').imp_right fun hmoves => ?_, fun token heq => ?_,
    heffect⟩
  · exact hmoves.1 ▸ hR r r' hmoves.2
  · rw [htoken] at heq
    cases heq

/-- Where an executor moves its request. -/
theorem Op.Commit.of_advances {op : Op} {result : op.Result} {s s' : Tables} {token : LeaseToken}
    (htoken : op.token = some token) (h : token.Advances start s s')
    (heffect : op.Effect start result s s') : op.Commit start result s s' := by
  refine ⟨fun j r r' hr hr' => (h.moves j r r' hr hr').imp_right fun hmoves => ?_,
    fun token' heq => ?_, heffect⟩
  · exact hmoves.1 ▸ .execute op token r r' htoken hmoves.2
  · exact Option.some.inj (htoken.symm.trans heq) ▸ h

theorem does_quiet {op : Op} {program : Tx op.Result} (htoken : op.token = none)
    (heffect : ∀ result s s', op.Effect start result s s')
    (h : Stays program t) :
    Does Commits program (fun result => Always Commits (op.Commit start result)) [] id t :=
  h.mono fun _ _ _ _ _ _ hend s hs => .of_sameStages htoken (hend s hs) (heffect _ _ _)

theorem does_executed {op : Op} {program : Tx op.Result} {token : LeaseToken}
    (htoken : op.token = some token) (heffect : ∀ result s s', op.Effect start result s s')
    (h : Does Commits program (fun _ => Always Commits (token.Advances start)) [] id t) :
    Does Commits program (fun result => Always Commits (op.Commit start result)) [] id t :=
  h.mono fun _ _ _ _ _ _ hend s hs => .of_advances htoken (hend s hs) (heffect _ _ _)

/-- Whatever others commit, a transaction commits as its operation states. -/
theorem does_program (hashing : Hashing) (op : Op) (hs : t.Sound) :
    Does Commits (op.program hashing start)
      (fun result => Always Commits (op.Commit start result)) [] id t := by
  cases op with
  | submit requestId communityHost requestedBy reason =>
    exact does_quiet rfl (fun _ _ _ => trivial)
      (does_submit requestId communityHost requestedBy reason)
  | get requestId =>
    exact does_quiet rfl (fun _ _ _ => trivial)
      (does_bind (does_read fun _ _ => does_okOr fun _ _ s _ => quiet_id s))
  | inventorySchema =>
    exact does_quiet rfl (fun _ _ _ => trivial)
      (does_bind (does_read fun _ _ => does_bind (does_checked fun _ _ =>
        does_pure fun s _ => quiet_id s)))
  | freezeInventory requestId inventory =>
    exact (does_freezeInventory hashing requestId inventory).mono fun _ _ _ _ _ _ hend s hs =>
      .of_movesOnly rfl (hend s hs) (fun r r' h => .freezeInventory _ _ r r' h.1 h.2) trivial
  | approve requestId approvedBy note =>
    exact (does_approve hashing requestId approvedBy note).mono fun _ _ _ _ _ _ hend s hs =>
      .of_movesOnly rfl (hend s hs) (fun r r' h => .approve _ _ _ r r' h.1 h.2.1 h.2.2) trivial
  | claim requestId owner seconds =>
    exact (does_claim requestId owner seconds).mono fun _ _ _ _ _ _ hend s hs =>
      .of_sameStages rfl (hend s hs).1 (hend s hs).2
  | verifyExecutionToken token stage =>
    refine does_quiet rfl (fun _ _ _ => trivial) ?_
    cases token with
    | mk requestId owner generation fenceGeneration =>
      cases fenceGeneration with
      | none => exact does_verifyLease fun _ _ _ s _ => quiet_id s
      | some fence => exact does_verifyLeaseAndFence fun _ _ _ s _ => quiet_id s
  | heartbeat token seconds =>
    exact does_quiet rfl (fun _ _ _ => trivial) (does_heartbeat token seconds)
  | stopExecutor token => exact does_quiet rfl (fun _ _ _ => trivial) (does_stopExecutor token)
  | beginQuiescing token =>
    exact (does_beginQuiescing token).mono fun _ _ _ _ _ _ hend s hs =>
      .of_sameStages rfl (hend s hs).1 (hend s hs).2
  | fence token =>
    exact (does_fence token).mono fun _ _ _ _ _ _ hend s hs =>
      .of_advances rfl (hend s hs).1 (hend s hs).2
  | freezeDestructiveStorageManifest token manifest =>
    exact does_quiet rfl (fun _ _ _ => trivial)
      (does_freezeDestructiveStorageManifest hashing token manifest)
  | clearManifestKeyChunks token =>
    exact does_quiet rfl (fun _ _ _ => trivial) (does_clearManifestKeyChunks token)
  | appendManifestKeyChunk token chunk =>
    exact does_quiet rfl (fun _ _ _ => trivial) (does_appendManifestKeyChunk token chunk)
  | nextPendingManifestChunk token =>
    exact does_quiet rfl (fun _ _ _ => trivial)
      (does_bind (does_read fun _ _ => does_pure fun s _ => quiet_id s))
  | markManifestChunkDeleted token chunkNo =>
    exact does_quiet rfl (fun _ _ _ => trivial) (does_markManifestChunkDeleted token chunkNo)
  | servingWritesDrained =>
    exact does_quiet rfl (fun _ _ _ => trivial)
      (does_bind (does_read fun _ _ => does_pure fun s _ => quiet_id s))
  | markDrained token => exact does_executed rfl (fun _ _ _ => trivial) (does_markDrained token)
  | markBindingsRemoved token =>
    exact does_executed rfl (fun _ _ _ => trivial)
      (does_advanceWithCheckpoint token (by decide) rfl)
  | purgePostgres token =>
    exact (does_purgePostgres token).mono fun _ _ _ _ _ _ hend s hs =>
      .of_advances rfl (hend s hs).1 (hend s hs).2
  | markCachePurged token =>
    exact does_executed rfl (fun _ _ _ => trivial)
      (does_advanceWithCheckpoint token (by decide) rfl)
  | verifyPostgresLogicallyDeleted token =>
    exact does_quiet rfl (fun _ _ _ => trivial) (does_verifyPostgresLogicallyDeleted token)
  | markLogicallyVerified token =>
    exact does_executed rfl (fun _ _ _ => trivial) (does_markLogicallyVerified token)
  | markRetentionPending token =>
    exact does_executed rfl (fun _ _ _ => trivial) (does_markRetentionPending token)
  | recordRetry token stage message retryAfter =>
    exact does_quiet rfl (fun _ _ _ => trivial) (does_recordRetry token stage message retryAfter)
  | block token stage message =>
    exact does_quiet rfl (fun _ _ _ => trivial) (does_block token stage message)
  | unblock requestId unblockedBy reason clientNow =>
    exact does_quiet rfl (fun _ _ _ => trivial)
      (does_unblock requestId unblockedBy reason clientNow)
  | blockPreclaimSetup requestId message clientNow =>
    exact does_quiet rfl (fun _ _ _ => trivial)
      (does_blockPreclaimSetup requestId message clientNow)
  | abort requestId abortedBy reason =>
    exact (does_abort requestId abortedBy reason).mono fun _ _ _ _ _ _ hend s hs =>
      .of_movesOnly rfl (hend s hs).1 (fun r r' h => .abort _ _ _ r r' h.1 h.2) (hend s hs).2
  | acquireServingWriteLease leaseId operation owner seconds =>
    exact (does_acquireServingWriteLease leaseId operation owner seconds).mono
      fun _ _ _ _ _ _ hend s hs => .of_sameStages rfl (hend s hs).1 (hend s hs).2
  | renewServingWriteLease lease seconds =>
    exact (does_renewServingWriteLease lease seconds).mono fun _ _ _ _ _ _ hend s hs =>
      .of_sameStages rfl (hend s hs).1 (hend s hs).2
  | releaseServingWriteLease lease =>
    exact does_quiet rfl (fun _ _ _ => trivial) (does_releaseServingWriteLease lease)
  | verifyServingWriteLease lease =>
    exact (does_verifyServingWriteLease lease).mono fun _ _ _ _ _ _ hend s hs =>
      .of_sameStages rfl (hend s hs).1 (hend s hs).2
  | reapExpiredServingWriteLeases limit =>
    exact does_quiet rfl (fun _ _ _ => trivial) (does_reapExpiredServingWriteLeases limit)
  | tenantTransaction statements =>
    exact (does_tenantTransaction statements hs).mono fun _ _ _ _ _ _ hend s hs =>
      .of_sameStages rfl (hend s hs).1 (hend s hs).2
  | tenantUpdateCommunity update =>
    exact does_quiet rfl (fun _ _ _ => trivial) (does_tenantUpdateCommunity update)

/-- Every operation is safe, and commits as stated. -/
theorem safe_program (hashing : Hashing) (op : Op) (start : ℤ) (t : Tables) (hs : t.Sound) :
    Transactions.Safe Commits (op.program hashing start)
      (Finishes Commits fun result => op.Commit start result) [] id t :=
  (does_program hashing op hs).finishes composable_commits

end Buzz.Db.Deletion
