import Buzz.Db.Deletion.Guarantee

/-!
# Rules for the statements of the store

The rules of `Does` for the statements that the transactions of the store are made of. Beside what
`Guarantee` says of a commit, the lifecycle of the community goes on.

## Main definitions

* `Community.Advances`: the lifecycle goes forward within a fence generation.
* `Commits`: what a transaction may commit under locks.
* `Quiet`: writes that leave the stages of requests as they are.
* `Community.Admits`: what the branch that admits a write says of the community.

## Main results

* `Relies.community_eq`, `Relies.request_eq`, `Relies.lifecycle`, `Relies.evolves`: what others
  leave as it is.
* `does_updateRequest`, `does_selectRequestForUpdate`, `does_updateCommunity`.
* `does_assertCommunityWriteAllowed`: a write is admitted, and stays so under the shared lock.
-/

namespace Buzz.Db.Deletion

open Buzz.Core (Uuid)
open Buzz.Library Buzz.Library.Transactions

/-! ### The lifecycle goes on -/

/-- How far the lifecycle has come. -/
def DeletionState.rank : DeletionState → ℕ
  | active => 0
  | quiescing => 1
  | fenced => 2
  | tombstone => 3

theorem DeletionState.eq_tombstone {d : DeletionState} (h : 3 ≤ d.rank) : d = .tombstone := by
  cases d <;> simp [DeletionState.rank] at h ⊢

theorem DeletionState.eq_active {d : DeletionState} (h : d.rank ≤ 0) : d = .active := by
  cases d <;> simp [DeletionState.rank] at h ⊢

/-- Within a fence generation the lifecycle goes forward, and a tombstone has no next one. -/
def Community.Advances (c c' : Community) : Prop :=
  (c'.deletionFenceGeneration = c.deletionFenceGeneration ∧
      c.deletionState.rank ≤ c'.deletionState.rank) ∨
    (c.deletionFenceGeneration < c'.deletionFenceGeneration ∧ c.deletionState ≠ .tombstone)

namespace Community.Advances

variable {c c' c'' : Community}

theorem refl (c : Community) : c.Advances c := .inl ⟨rfl, Nat.le_refl _⟩

theorem generation_le (h : c.Advances c') :
    c.deletionFenceGeneration ≤ c'.deletionFenceGeneration := by
  rcases h with ⟨hgeneration, -⟩ | ⟨hlt, -⟩ <;> omega

theorem trans (h : c.Advances c') (h' : c'.Advances c'') : c.Advances c'' := by
  rcases h with ⟨hgeneration, hrank⟩ | ⟨hlt, hstate⟩
  · rcases h' with ⟨hgeneration', hrank'⟩ | ⟨hlt', hstate'⟩
    · exact .inl ⟨hgeneration'.trans hgeneration, hrank.trans hrank'⟩
    · refine .inr ⟨by omega, fun htombstone => hstate' (DeletionState.eq_tombstone ?_)⟩
      rw [htombstone] at hrank
      exact hrank
  · have hle := generation_le h'
    exact .inr ⟨by omega, hstate⟩

/-- Where neither the generation nor the state has changed. -/
theorem of_same (hgeneration : c'.deletionFenceGeneration = c.deletionFenceGeneration)
    (hstate : c'.deletionState = c.deletionState) : c.Advances c' :=
  .inl ⟨hgeneration, by rw [hstate]⟩

end Community.Advances

/-- A serving lease that is new is of the community as it is, which is active, or of a later
generation. -/
def Tables.Issues (t t' : Tables) : Prop :=
  ∀ lease ∈ t'.issued, lease ∈ t.issued ∨
    t.community.deletionFenceGeneration < lease.fenceGeneration ∨
      (lease.fenceGeneration = t.community.deletionFenceGeneration ∧
        t.community.deletionState = .active)

theorem Tables.Issues.trans {t t' t'' : Tables} (h : t.Issues t') (h' : t'.Issues t'')
    (hadvances : t.community.Advances t'.community) : t.Issues t'' := by
  intro lease hlease
  rcases h' lease hlease with hold | hlater | ⟨hnow, hactive⟩
  · exact h lease hold
  · have hle := hadvances.generation_le
    exact .inr (.inl (by omega))
  · rcases hadvances with ⟨hgeneration, hrank⟩ | ⟨hlt, -⟩
    · rw [hactive] at hrank
      exact .inr (.inr ⟨hnow.trans hgeneration, DeletionState.eq_active hrank⟩)
    · exact .inr (.inl (by omega))

/-- What a transaction may commit that has the locks. -/
structure Commits (held : Held LockKey) (t t' : Tables) : Prop where
  guarantee : Guarantee held t t'
  advances : t.community.Advances t'.community
  issues : t.Issues t'

theorem composable_commits : Composable Commits where
  refl := fun held t => ⟨.refl held t, .refl _, fun _ hlease => .inl hlease⟩
  trans := fun h h' => ⟨h.guarantee.trans h'.guarantee, h.advances.trans h'.advances,
    h.issues.trans h'.issues h.advances⟩
  mono := fun hsubset h => ⟨h.guarantee.mono hsubset, h.advances, h.issues⟩

/-- A write that leaves the community as it is, and issues no lease. -/
theorem Guarantee.commits {held : Held LockKey} {t t' : Tables} (h : Guarantee held t t')
    (hcommunity : t'.community = t.community) (hissued : t'.issued = t.issued) :
    Commits held t t' :=
  ⟨h, hcommunity ▸ .refl _, fun _ hlease => .inl (hissued ▸ hlease)⟩

/-! ### What others leave as it is -/

section Relies

variable {held : Held LockKey} {t t' : Tables} {i : Uuid} {r : DeletionRequest} {mode : Mode}

theorem Relies.community_eq (h : Relies Commits held t t')
    (hlock : (.communityRow, mode) ∈ held) : t'.community = t.community :=
  Relies.row_eq h (fun _ _ _ (hG : Commits _ _ _) => hG.guarantee.communityRow) (k := ()) hlock

theorem Relies.lifecycle (h : Relies Commits held t t') (hlock : (.community, mode) ∈ held) :
    t.community.Proceeds t'.community :=
  h.invariant (P := fun s => t.community.Proceeds s.community) (fun _ _ _ hcompatible hG hs =>
    hs.trans (hG.guarantee.lifecycle.resolve_left fun hl =>
      hcompatible.symm.exclusive hl mode hlock)) ⟨rfl, .inl rfl⟩

theorem Relies.request_eq (h : Relies Commits held t t') (hlock : (.request i, mode) ∈ held) :
    t'.requests.lookup i = t.requests.lookup i :=
  Relies.row_eq h (fun _ _ _ (hG : Commits _ _ _) => hG.guarantee.request) hlock

theorem Relies.evolves (h : Relies Commits held t t') (hr : t.requests.lookup i = some r) :
    ∃ r', t'.requests.lookup i = some r' ∧ r.Evolves r' :=
  h.invariant (P := fun s => ∃ r', s.requests.lookup i = some r' ∧ r.Evolves r')
    (fun _ _ _ _ hG hs => by
      obtain ⟨r₁, hr₁, hevolves⟩ := hs
      obtain ⟨r₂, hr₂, hevolves', -⟩ := hG.guarantee.evolves i r₁ hr₁
      exact ⟨r₂, hr₂, hevolves.trans hevolves'⟩)
    ⟨r, hr, .refl r⟩

theorem Relies.approval (h : Relies Commits held t t') {a : DeletionApproval}
    (ha : t.approvals.lookup i = some a) : t'.approvals.lookup i = some a :=
  h.invariant (P := fun s => s.approvals.lookup i = some a)
    (fun _ _ _ _ hG hs => hG.guarantee.approval i a hs) ha

theorem Relies.approvals_eq (h : Relies Commits held t t')
    (hlock : (.request i, mode) ∈ held) : t'.approvals.lookup i = t.approvals.lookup i :=
  Relies.row_eq h (fun _ _ _ (hG : Commits _ _ _) => hG.guarantee.approved) hlock

theorem Relies.issued (h : Relies Commits held t t') : t.issued ⊆ t'.issued :=
  h.invariant (P := fun s => t.issued ⊆ s.issued)
    (fun _ _ _ _ hG hs => List.Subset.trans hs hG.guarantee.issued) (List.Subset.refl _)

theorem Relies.sound (h : Relies Commits held t t') (hs : t.Sound) : t'.Sound :=
  h.invariant (P := Tables.Sound) (fun _ _ _ _ hG hs => hG.guarantee.sound hs) hs

theorem Relies.not_inserted (h : Relies Commits held t t')
    (hlock : (.activeRequest, mode) ∈ held) (hr : t.requests.lookup i = none) :
    t'.requests.lookup i = none :=
  h.invariant (P := fun s => s.requests.lookup i = none) (fun _ s s' hcompatible hG hs => by
      cases hi : s'.requests.lookup i with
      | none => rfl
      | some r' =>
        rcases hG.guarantee.inserted i r' hi with ⟨r, hr⟩ | hl
        · rw [hs] at hr
          cases hr
        · exact absurd hlock (hcompatible.symm.exclusive hl mode))
    hr

theorem Relies.chunk_eq (h : Relies Commits held t t') {key : Uuid × ℕ}
    (hlock : (.chunk key, mode) ∈ held) :
    t'.manifestKeys.lookup key = t.manifestKeys.lookup key :=
  Relies.row_eq h (fun _ _ _ (hG : Commits _ _ _) => hG.guarantee.chunk) hlock

end Relies

/-! ### Stages that stay -/

/-- The requests that are there stay there, with their stages. -/
def Tables.SameStages (t t' : Tables) : Prop :=
  ∀ i r, t.requests.lookup i = some r → ∃ r', t'.requests.lookup i = some r' ∧ r'.stage = r.stage

theorem Tables.SameStages.trans {t t' t'' : Tables} (h : t.SameStages t')
    (h' : t'.SameStages t'') : t.SameStages t'' := fun i r hr => by
  obtain ⟨r', hr', hstage⟩ := h i r hr
  obtain ⟨r'', hr'', hstage'⟩ := h' i r' hr'
  exact ⟨r'', hr'', hstage'.trans hstage⟩

theorem Tables.sameStages_of_requests {t t' : Tables} (h : t'.requests = t.requests) :
    t.SameStages t' := fun _ r hr => ⟨r, h ▸ hr, rfl⟩

/-- Writes that leave the stages of requests as they are. -/
def Quiet (w : Tables → Tables) : Prop :=
  ∀ s : Tables, s.SameStages (w s)

theorem quiet_id : Quiet id := fun _ => Tables.sameStages_of_requests rfl

theorem Quiet.comp {f w : Tables → Tables} (hf : Quiet f) (hw : Quiet w) : Quiet (f ∘ w) :=
  fun s => (hw s).trans (hf (w s))

theorem quiet_modifyRequest (i : Uuid) {f : DeletionRequest → DeletionRequest}
    (hf : ∀ r, (f r).stage = r.stage) : Quiet (·.modifyRequest i f) := fun s j r hr => by
  by_cases hj : j = i
  · subst hj
    exact ⟨f r, by simp only [lookup_modifyRequest, ↓reduceIte, hr, Option.map_some], hf r⟩
  · exact ⟨r, by simp only [lookup_modifyRequest, if_neg hj, hr], rfl⟩

theorem quiet_of_requests {f : Tables → Tables} (hf : ∀ s, (f s).requests = s.requests) :
    Quiet f := fun s => Tables.sameStages_of_requests (hf s)

/-! ### Requests -/

namespace DeletionRequest

/-- The trigger has let an update through, and the update keeps the rest. -/
theorem Evolves.of_update {r r' : DeletionRequest} (htarget : retargets r r' = false)
    (hstage : r.stage.position ≤ r'.stage.position)
    (haborted : r'.stage = .aborted → r.stage = .aborted ∨ r.stage.position ≤ 3)
    (hquiesced : r.quiescingStartedAt.isSome → r'.quiescingStartedAt = r.quiescingStartedAt ∧
      r'.preQuiesceArchivedAt = r.preQuiesceArchivedAt)
    (hgeneration : r.leaseGeneration ≤ r'.leaseGeneration) : r.Evolves r' := by
  simp only [retargets, Bool.or_eq_false_iff, Bool.and_eq_false_iff, decide_eq_false_iff_not,
    ne_eq, not_not] at htarget
  obtain ⟨⟨-, hdigest⟩, hfrozen⟩ := htarget
  refine ⟨hstage, haborted, fun hd => ?_, fun hf => ?_, hquiesced, hgeneration⟩
  · obtain ⟨⟨⟨-, -⟩, hmanifest⟩, heq⟩ := hdigest.resolve_left (by simp [hd])
    exact ⟨heq, hmanifest⟩
  · exact hfrozen.resolve_left (by simp [hf])

/-- The same, where the stage and what is known of quiescing stay. -/
theorem Evolves.of_quiet {r r' : DeletionRequest} (htarget : retargets r r' = false)
    (hstage : r'.stage = r.stage) (hstarted : r'.quiescingStartedAt = r.quiescingStartedAt)
    (hpre : r'.preQuiesceArchivedAt = r.preQuiesceArchivedAt)
    (hgeneration : r.leaseGeneration ≤ r'.leaseGeneration) : r.Evolves r' :=
  .of_update htarget (by rw [hstage]) (fun ha => .inl (hstage ▸ ha)) (fun _ => ⟨hstarted, hpre⟩)
    hgeneration

end DeletionRequest

theorem any_of_filter_eq_none {α : Type} {p : α → Bool} {o : Option α} (h : o.filter p = none) :
    o.any p = false := by
  cases o with
  | none => rfl
  | some a =>
    have hp := Option.filter_eq_none_iff.mp h a rfl
    simpa using hp

section

variable {held : Held LockKey} {w : Tables → Tables} {t : Tables} {i : Uuid}

theorem does_updateRequest {p : Tables → DeletionRequest → Bool}
    {f : DeletionRequest → DeletionRequest}
    {K : Ending LockKey Tables (Option DeletionRequest)}
    (hw : ∀ s, (w s).requests.lookup i = s.requests.lookup i)
    (hf : ∀ t' r, Relies Commits held t t' → t'.requests.lookup i = some r → p (w t') r = true →
      retargets r (f r) = false → r.Evolves (f r) ∧
        (r.stage = .approved → (f r).stage = .approved ∨ (.community, .exclusive) ∈ held))
    (hsome : ∀ t' r, Relies Commits held t t' → t'.requests.lookup i = some r →
      p (w t') r = true →
        K (some (f r)) ((.request i, .exclusive) :: held) ((·.modifyRequest i f) ∘ w) t')
    (hnone : ∀ held' t₁ t', held ⊆ held' → Relies Commits held t t₁ → Relies Commits held t₁ t' →
      (t₁.requests.lookup i).any (p (w t₁)) = false → K none held' w t') :
    Does Commits (updateRequest i p f) K held w t := by
  have hlock : (LockKey.request i, Mode.exclusive) ∈ (LockKey.request i, Mode.exclusive) :: held :=
    List.mem_cons_self
  have hsubset : held ⊆ (.request i, .exclusive) :: held := List.subset_cons_self _ _
  unfold updateRequest
  refine does_bind (does_read fun t₁ h₁ => ?_)
  split
  · refine does_bind (does_lock composable_commits fun t₂ h₂ => ?_)
    refine does_bind (does_read fun t₃ h₃ => ?_)
    have hrelies : Relies Commits held t t₃ := h₁.trans (h₂.trans (h₃.of_subset hsubset))
    cases hr : ((w t₃).requests.lookup i).filter (p (w t₃)) with
    | none =>
      rw [hw] at hr
      exact does_pure (hnone _ t₃ t₃ hsubset hrelies .refl (any_of_filter_eq_none hr))
    | some r =>
      obtain ⟨hlookup, hp⟩ := Option.filter_eq_some_iff.mp hr
      rw [hw] at hlookup
      refine does_bind (does_require fun htarget => ?_)
      refine does_bind (does_write composable_commits (fun t₄ h₄ => ?_) ?_)
      · refine (guarantee_modifyRequest List.mem_cons_self fun r' hr' => ?_).commits
          (community_modifyRequest _ _ _) (issued_modifyRequest _ _ _)
        rw [hw, Relies.request_eq h₄ hlock, hlookup] at hr'
        obtain rfl := Option.some.inj hr'
        obtain ⟨hevolves, happroved⟩ := hf t₃ r hrelies hlookup hp (by simpa using htarget)
        exact ⟨hevolves, fun hs => (happroved hs).imp_right fun hl => hsubset hl⟩
      · exact does_pure (hsome t₃ r hrelies hlookup hp)
  · next hany =>
    rw [hw] at hany
    exact does_pure (hnone held t₁ t₁ (List.Subset.refl _) h₁ .refl (Bool.eq_false_iff.mpr hany))

/-- An update of a request that does not move it, where its outcome does not matter. -/
theorem does_updateRequest_quiet {p : Tables → DeletionRequest → Bool}
    {f : DeletionRequest → DeletionRequest}
    {K : Ending LockKey Tables (Option DeletionRequest)}
    (hf : ∀ r, (f r).stage = r.stage ∧ (f r).quiescingStartedAt = r.quiescingStartedAt ∧
      (f r).preQuiesceArchivedAt = r.preQuiesceArchivedAt ∧
        (f r).leaseGeneration = r.leaseGeneration)
    (hK : ∀ o held' w' t', Quiet w' → K o held' w' t') :
    Does Commits (updateRequest i p f) K held id t := by
  refine does_updateRequest (fun _ => rfl) (fun _ r _ _ _ htarget => ?_)
    (fun _ _ _ _ _ => hK _ _ _ _ (quiet_modifyRequest i fun r => (hf r).1))
    fun _ _ _ _ _ _ _ => hK _ _ _ _ quiet_id
  obtain ⟨hstage, hstarted, harchived, hgeneration⟩ := hf r
  exact ⟨.of_quiet htarget hstage hstarted harchived hgeneration.ge,
    fun hs => .inl (hstage.trans hs)⟩

theorem does_selectRequestForUpdate {p : DeletionRequest → Bool}
    {K : Ending LockKey Tables (Option DeletionRequest)}
    (hw : ∀ s, (w s).requests.lookup i = s.requests.lookup i)
    (hsome : ∀ t' r, Relies Commits held t t' → t'.requests.lookup i = some r → p r = true →
      K (some r) ((.request i, .exclusive) :: held) w t')
    (hnone : ∀ held' t', held ⊆ held' → Relies Commits held t t' → K none held' w t') :
    Does Commits (selectRequestForUpdate i p) K held w t := by
  have hsubset : held ⊆ (.request i, .exclusive) :: held := List.subset_cons_self _ _
  unfold selectRequestForUpdate
  refine does_bind (does_read fun t₁ h₁ => ?_)
  split
  · refine does_bind (does_lock composable_commits fun t₂ h₂ => ?_)
    refine does_bind (does_read fun t₃ h₃ => ?_)
    have hrelies : Relies Commits held t t₃ := h₁.trans (h₂.trans (h₃.of_subset hsubset))
    cases hr : ((w t₃).requests.lookup i).filter p with
    | none => exact does_pure (hnone _ t₃ hsubset hrelies)
    | some r =>
      obtain ⟨hlookup, hp⟩ := Option.filter_eq_some_iff.mp hr
      exact does_pure (hsome t₃ r hrelies ((hw t₃).symm.trans hlookup) hp)
  · exact does_pure (hnone held t₁ (List.Subset.refl _) h₁)

/-- Whatever others commit, a request that has been approved is so under its frozen digest. -/
theorem Relies.approved {t' : Tables} (h : Relies Commits held t t') {r r' : DeletionRequest}
    (hr : t.requests.lookup i = some r) (ha : t.approved i r = true)
    (hr' : t'.requests.lookup i = some r') : t'.approved i r' = true := by
  obtain ⟨a, hlookup, hdigest⟩ := (Option.any_eq_true _ _).mp ha
  obtain ⟨r₁, hr₁, hevolves⟩ := Relies.evolves h hr
  rw [hr₁] at hr'
  obtain rfl := Option.some.inj hr'
  have hsome : r.inventoryDigest = some a.inventoryDigest := of_decide_eq_true hdigest
  refine (Option.any_eq_true _ _).mpr ⟨a, Relies.approval h hlookup, ?_⟩
  rw [(hevolves.digest (by simp [hsome])).1]
  exact hdigest

theorem DeletionStage.next_ne_aborted {a b : DeletionStage} (h : a.next = some b) :
    b ≠ .aborted := by
  cases a <;> simp only [DeletionStage.next, Option.some.injEq, reduceCtorEq] at h <;> subst h <;>
    decide

theorem does_advanceRequest {token : LeaseToken} {start : ℤ} {source target : DeletionStage}
    {generation : Option ℕ} {K : Ending LockKey Tables PUnit}
    (hw : ∀ s, (w s).requests.lookup token.requestId = s.requests.lookup token.requestId)
    (hlock : source = .approved → (.community, .exclusive) ∈ held)
    (hK : ∀ t' r, Relies Commits held t t' → t'.requests.lookup token.requestId = some r →
      r.stage = source → r.claimedBy token = true → r.leaseLive start = true →
        K ⟨⟩ ((.request token.requestId, .exclusive) :: held)
          ((·.modifyRequest token.requestId (·.advanced target generation)) ∘ w) t') :
    Does Commits (advanceRequest start token source target generation) K held w t := by
  unfold advanceRequest
  refine does_bind (does_require fun hnext => does_bind (does_updateRequest hw ?_ ?_ ?_))
  · intro t' r _ _ hp htarget
    simp only [Bool.and_eq_true, decide_eq_true_eq] at hp hnext
    obtain ⟨⟨⟨hstage, -⟩, -⟩, -⟩ := hp
    refine ⟨.of_update htarget ?_ (fun ha => ?_) (fun _ => ⟨rfl, rfl⟩) (Nat.le_refl _),
      fun hs => .inr (hlock (hstage.symm.trans hs))⟩
    · rw [hstage]
      exact Nat.le_of_lt (Nat.lt_of_lt_of_eq (Nat.lt_succ_self _)
        (DeletionStage.position_next hnext).symm)
    · exact absurd ha (DeletionStage.next_ne_aborted hnext)
  · intro t' r hrelies hr hp
    simp only [Bool.and_eq_true, decide_eq_true_eq] at hp
    obtain ⟨⟨⟨hstage, hclaimed⟩, hlive⟩, -⟩ := hp
    exact does_require fun _ => hK t' r hrelies hr hstage hclaimed hlive
  · intro _ _ _ _ _ _ _
    exact does_require fun h => by cases h

/-! ### The row of the community -/

theorem does_updateCommunity {settings : Settings} {p : Community → Bool}
    {f : Community → Community} {K : Ending LockKey Tables Bool}
    (hw : ∀ s, (w s).community = s.community)
    (hf : ∀ t', Relies Commits held t t' → p t'.community = true →
      tombstoneAllows settings t'.community (f t'.community) = true →
        t'.community.Advances (f t'.community) ∧
          ((.community, .exclusive) ∈ held ∨ t'.community.Proceeds (f t'.community)))
    (htrue : ∀ t', Relies Commits held t t' → p t'.community = true →
      K true ((.communityRow, .exclusive) :: held) ((·.modifyCommunity f) ∘ w) t')
    (hfalse : ∀ held' t', held ⊆ held' → Relies Commits held t t' → K false held' w t') :
    Does Commits (updateCommunity settings p f) K held w t := by
  have hlock : (LockKey.communityRow, Mode.exclusive) ∈
      (LockKey.communityRow, Mode.exclusive) :: held := List.mem_cons_self
  have hsubset : held ⊆ (.communityRow, .exclusive) :: held := List.subset_cons_self _ _
  unfold updateCommunity
  refine does_bind (does_read fun t₁ h₁ => ?_)
  split
  · refine does_bind (does_lock composable_commits fun t₂ h₂ => ?_)
    refine does_bind (does_read fun t₃ h₃ => ?_)
    have hrelies : Relies Commits held t t₃ := h₁.trans (h₂.trans (h₃.of_subset hsubset))
    rw [hw]
    split
    · next hp =>
      refine does_bind (does_require fun hallows => ?_)
      refine does_bind (does_write composable_commits (fun t₄ h₄ => ?_) ?_)
      · obtain ⟨hadvances, hlifecycle⟩ := hf t₃ hrelies hp hallows
        have hcommunity : (w t₄).community = t₃.community :=
          (hw t₄).trans (Relies.community_eq h₄ hlock)
        refine ⟨guarantee_modifyCommunity hlock ?_, ?_, fun _ hlease => .inl hlease⟩
        · rw [hcommunity]
          exact hlifecycle.imp_left fun hl => hsubset hl
        · rw [community_modifyCommunity, hcommunity]
          exact hadvances
      · exact does_pure (htrue t₃ hrelies hp)
    · exact does_pure (hfalse _ t₃ hsubset hrelies)
  · exact does_pure (hfalse held t₁ (List.Subset.refl _) h₁)

/-! ### Tokens and the write fence -/

theorem does_verifyLease {start : ℤ} {token : LeaseToken} {stage : DeletionStage}
    {K : Ending LockKey Tables PUnit}
    (h : ∀ t', Relies Commits held t t' → (w t').tokenValid start token stage = true →
      K ⟨⟩ held w t') : Does Commits (verifyLease start token stage) K held w t :=
  does_bind (does_read fun t' hrelies => does_require (h t' hrelies))

theorem does_verifyLeaseAndFence {start : ℤ} {token : LeaseToken} {stage : DeletionStage}
    {generation : ℕ} {K : Ending LockKey Tables PUnit}
    (h : ∀ t', Relies Commits held t t' → (w t').tokenFenced start token stage generation = true →
      K ⟨⟩ held w t') :
    Does Commits (verifyLeaseAndFence start token stage generation) K held w t :=
  does_bind (does_read fun t' hrelies => does_require (h t' hrelies))

/-- A token that is valid has a request, under an approval of its digest. -/
theorem Tables.exists_of_tokenValid {start : ℤ} {token : LeaseToken} {stage : DeletionStage}
    (h : t.tokenValid start token stage = true) : ∃ r,
      t.requests.lookup token.requestId = some r ∧ t.approved token.requestId r = true ∧
        r.stage = stage := by
  obtain ⟨r, hr, hvalid⟩ := (Option.any_eq_true _ _).mp h
  simp only [Bool.and_eq_true, decide_eq_true_eq] at hvalid
  obtain ⟨⟨⟨⟨happroved, hstage⟩, -⟩, -⟩, -⟩ := hvalid
  exact ⟨r, hr, happroved, hstage⟩

/-- A token that is fenced has a request, under an approval of its digest, and its generation is
that of the community. -/
theorem Tables.exists_of_tokenFenced {start : ℤ} {token : LeaseToken} {stage : DeletionStage}
    {generation : ℕ} (h : t.tokenFenced start token stage generation = true) : ∃ r,
      t.requests.lookup token.requestId = some r ∧ t.approved token.requestId r = true ∧
        r.stage = stage ∧ r.fenceGeneration = some generation ∧
          (t.community.deletionState = .fenced ∨ t.community.deletionState = .tombstone) ∧
            t.community.deletionFenceGeneration = generation := by
  obtain ⟨r, hr, hvalid⟩ := (Option.any_eq_true _ _).mp h
  simp only [Bool.and_eq_true, Bool.or_eq_true, decide_eq_true_eq] at hvalid
  obtain ⟨⟨⟨⟨⟨⟨⟨happroved, hstage⟩, -⟩, -⟩, -⟩, hfence⟩, hstate⟩, hgeneration⟩ := hvalid
  exact ⟨r, hr, happroved, hstage, hfence, hstate, hgeneration⟩

theorem does_checked {α : Type} {e : Except DbError α}
    {K : Ending LockKey Tables α}
    (h : ∀ a, e = .ok a → K a held w t) : Does Commits (checked e) K held w t := by
  cases e with
  | ok a => exact does_pure (h a rfl)
  | error e => exact does_fail

end

/-- What the branch that admits a write says of the community. -/
def Community.Admits (settings : Settings) (c : Community) : Admission → Prop
  | .executor => settings.executor = some c.deletionFenceGeneration
  | .serving lease => settings.serving = some lease ∧
      (c.deletionState = .active ∨ c.deletionState = .quiescing) ∧
        lease.fenceGeneration = c.deletionFenceGeneration
  | .active => c.deletionState = .active

/-- Under the shared lock a write stays admitted. -/
theorem Community.Proceeds.admits {settings : Settings} {c c' : Community} {a : Admission}
    (h : c.Proceeds c') (ha : c.Admits settings a) : c'.Admits settings a := by
  obtain ⟨hgeneration, hstate⟩ := h
  have hsame (hne : c.deletionState ≠ .fenced) : c'.deletionState = c.deletionState :=
    hstate.resolve_right fun hfenced => hne hfenced.1
  cases a with
  | executor => exact ha.trans (congrArg some hgeneration.symm)
  | serving lease =>
    obtain ⟨hsettings, hopen, hlease⟩ := ha
    refine ⟨hsettings, ?_, hlease.trans hgeneration.symm⟩
    rwa [hsame (by rcases hopen with h | h <;> simp [h])]
  | active =>
    have hactive : c.deletionState = .active := ha
    exact (hsame (by simp [hactive])).trans hactive

/-- A lease that has been issued, with the owner and the generations of a token. -/
def Tables.Issued (t : Tables) (token : ServingWriteLease) : Prop :=
  ∃ lease ∈ t.issued, lease.id = token.id ∧ lease.owner = token.owner ∧
    lease.generation = token.generation ∧ lease.fenceGeneration = token.fenceGeneration

theorem Tables.Issued.mono {t t' : Tables} {token : ServingWriteLease} (h : t.Issued token)
    (hsubset : t.issued ⊆ t'.issued) : t'.Issued token := by
  obtain ⟨lease, hlease, hmatches⟩ := h
  exact ⟨lease, hsubset hlease, hmatches⟩

/-- A lease that is valid has been issued. -/
theorem Tables.Sound.issued {t : Tables} (hs : t.Sound) {start : ℤ} {lease : ServingWriteLease}
    (h : t.leaseValid start lease = true) : t.Issued lease := by
  obtain ⟨row, hrow, hvalid⟩ := (Option.any_eq_true _ _).mp h
  simp only [Bool.and_eq_true, decide_eq_true_eq] at hvalid
  obtain ⟨⟨⟨howner, hgeneration⟩, hfence⟩, -⟩ := hvalid
  obtain ⟨l, hl, hid, howner', hgeneration', hfence'⟩ := hs.leases _ _ hrow
  exact ⟨l, hl, hid, howner'.trans howner, hgeneration'.trans hgeneration, hfence'.trans hfence⟩

section

variable {held : Held LockKey} {w : Tables → Tables} {t : Tables} {settings : Settings} {start : ℤ}

/-- A write is admitted in the community as it is, and a serving lease is valid then. -/
theorem does_assertCommunityWriteAllowed
    {K : Ending LockKey Tables Admission}
    (hcommunity : ∀ s, (w s).community = s.community) (hleases : ∀ s, (w s).leases = s.leases)
    (h : ∀ t' a, Relies Commits held t t' → t'.community.Admits settings a →
      (∀ lease, a = .serving lease → t'.leaseValid start lease = true) →
        K a ((.community, .shared) :: held) w t') :
    Does Commits (assertCommunityWriteAllowed start settings) K held w t := by
  have hlock : (LockKey.community, Mode.shared) ∈ (LockKey.community, Mode.shared) :: held :=
    List.mem_cons_self
  have hsubset : held ⊆ (.community, .shared) :: held := List.subset_cons_self _ _
  unfold assertCommunityWriteAllowed
  refine does_bind (does_lock composable_commits fun t₁ h₁ => ?_)
  refine does_bind (does_read fun t₂ h₂ => ?_)
  -- the last branch, which goes on from what has been read
  have hactive (t₃ : Tables) (h₃ : Relies Commits ((.community, .shared) :: held) t₂ t₃) :
      Does Commits (assertActive (w t₂)) K ((.community, .shared) :: held) w t₃ := by
    unfold assertActive
    split
    · next hstate =>
      rw [hcommunity] at hstate
      have hadmits : t₂.community.Admits settings .active := hstate
      refine does_pure (h t₃ .active ?_ ?_ fun lease heq => by cases heq)
      · exact h₁.trans ((h₂.trans h₃).of_subset hsubset)
      · exact (Relies.lifecycle h₃ hlock).admits hadmits
    · exact does_fail
  split
  · next hexecutor =>
    rw [hcommunity] at hexecutor
    exact does_pure (h t₂ .executor (h₁.trans (h₂.of_subset hsubset)) hexecutor fun lease heq => by
      cases heq)
  · split
    · next lease hsettings =>
      split
      · next hopen =>
        simp only [hcommunity, Bool.and_eq_true, Bool.or_eq_true, decide_eq_true_eq] at hopen
        have hadmits : t₂.community.Admits settings (.serving lease) := ⟨hsettings, hopen⟩
        refine does_bind (does_read fun t₃ h₃ => ?_)
        split
        · next hvalid =>
          refine does_pure (h t₃ (.serving lease) ?_ ?_ fun lease' heq => ?_)
          · exact h₁.trans ((h₂.trans h₃).of_subset hsubset)
          · exact (Relies.lifecycle h₃ hlock).admits hadmits
          · cases heq
            simpa only [Tables.leaseValid, hleases] using hvalid
        · exact hactive t₃ h₃
      · exact hactive t₂ .refl
    · exact hactive t₂ .refl

end

end Buzz.Db.Deletion
