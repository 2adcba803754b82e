import Buzz.Db.Deletion.Store

/-!
# What a transaction of the store may commit

What a commit does to the rows, from the locks of its transaction: the row of the community and
those of requests and chunks change under their locks, the lifecycle changes under the advisory lock
except that a fenced community becomes a tombstone, and a request goes on.

## Main definitions

* `DeletionRequest.Evolves`: what a request keeps.
* `Tables.Sound`: what the tables are.
* `Guarantee`: what may be committed under locks.

## Main results

* `Guarantee.trans`, `guarantee_modifyRequest`, `guarantee_modifyCommunity`: the writes of a
  transaction, one after the other.
-/

namespace Buzz.Db.Deletion

open Buzz.Core (Uuid)
open Buzz.Library Buzz.Library.Transactions

/-! ### Requests go on -/

/-- What an earlier row of a request says of a later one. -/
structure DeletionRequest.Evolves (r r' : DeletionRequest) : Prop where
  stage : r.stage.position ≤ r'.stage.position
  aborted : r'.stage = .aborted → r.stage = .aborted ∨ r.stage.position ≤ 3
  digest : r.inventoryDigest.isSome → r'.inventoryDigest = r.inventoryDigest ∧
    r'.inventoryManifest = r.inventoryManifest
  frozen : r.destructiveStorageFrozenAt.isSome →
    r'.destructiveStorageManifest = r.destructiveStorageManifest ∧
      r'.destructiveStorageFrozenAt = r.destructiveStorageFrozenAt
  quiesced : r.quiescingStartedAt.isSome → r'.quiescingStartedAt = r.quiescingStartedAt ∧
    r'.preQuiesceArchivedAt = r.preQuiesceArchivedAt
  leaseGeneration : r.leaseGeneration ≤ r'.leaseGeneration

namespace DeletionRequest.Evolves

variable {r r' r'' : DeletionRequest}

theorem refl (r : DeletionRequest) : r.Evolves r :=
  ⟨Nat.le_refl _, fun h => .inl h, fun _ => ⟨rfl, rfl⟩, fun _ => ⟨rfl, rfl⟩, fun _ => ⟨rfl, rfl⟩,
    Nat.le_refl _⟩

theorem trans (h : r.Evolves r') (h' : r'.Evolves r'') : r.Evolves r'' where
  stage := Nat.le_trans h.stage h'.stage
  aborted := fun ha => by
    rcases h'.aborted ha with ha' | hp
    · exact h.aborted ha'
    · exact .inr (Nat.le_trans h.stage hp)
  digest := fun hd => by
    obtain ⟨hdigest, hmanifest⟩ := h.digest hd
    obtain ⟨hdigest', hmanifest'⟩ := h'.digest (hdigest ▸ hd)
    exact ⟨hdigest'.trans hdigest, hmanifest'.trans hmanifest⟩
  frozen := fun hf => by
    obtain ⟨hmanifest, hat⟩ := h.frozen hf
    obtain ⟨hmanifest', hat'⟩ := h'.frozen (hat ▸ hf)
    exact ⟨hmanifest'.trans hmanifest, hat'.trans hat⟩
  quiesced := fun hq => by
    obtain ⟨hat, hpre⟩ := h.quiesced hq
    obtain ⟨hat', hpre'⟩ := h'.quiesced (hat ▸ hq)
    exact ⟨hat'.trans hat, hpre'.trans hpre⟩
  leaseGeneration := Nat.le_trans h.leaseGeneration h'.leaseGeneration

/-- A request that has been aborted stays so. -/
theorem stays_aborted (h : r.Evolves r') (ha : r.stage = .aborted) : r'.stage = .aborted := by
  have hle := h.stage
  rw [ha] at hle
  exact DeletionStage.position_injective (Nat.le_antisymm r'.stage.position_le hle)

end DeletionRequest.Evolves

/-! ### Chunks -/

/-- A chunk keeps its content, and its stamp. -/
def Stamped (o o' : Option KeyChunk) : Prop :=
  (o'.map fun c => (c.keyPrefix, c.keys)) = (o.map fun c => (c.keyPrefix, c.keys)) ∧
    ∀ c, o = some c → c.deletedAt.isSome → o' = some c

namespace Stamped

variable {o o' o'' : Option KeyChunk}

theorem refl (o : Option KeyChunk) : Stamped o o := ⟨rfl, fun _ h _ => h⟩

theorem trans (h : Stamped o o') (h' : Stamped o' o'') : Stamped o o'' :=
  ⟨h'.1.trans h.1, fun c hc hs => h'.2 c (h.2 c hc hs) hs⟩

end Stamped

/-- The chunks of a request may be dropped. -/
def DeletionStage.dropsChunks (stage : DeletionStage) : Prop :=
  stage = .logicallyVerified ∨ stage = .retentionPending

theorem DeletionRequest.Evolves.dropsChunks {r r' : DeletionRequest} (h : r.Evolves r')
    (hr : r.stage.dropsChunks) : r'.stage.dropsChunks := by
  have hle := h.stage
  have haborted := h.aborted
  rcases hr with hr | hr <;> rw [hr] at hle haborted <;>
    cases hr' : r'.stage <;> simp_all [DeletionStage.dropsChunks, DeletionStage.position]

/-! ### Tables -/

/-- The token of a lease and its row. -/
def ServingWriteLease.Matches (lease : ServingWriteLease) (leaseId : Uuid) (row : ServingLease) :
    Prop :=
  lease.id = leaseId ∧ lease.owner = row.owner ∧ lease.generation = row.generation ∧
    lease.fenceGeneration = row.fenceGeneration

/-- Every serving lease has been issued, and one request at most is not aborted. -/
structure Tables.Sound (t : Tables) : Prop where
  leases : ∀ i row, t.leases.lookup i = some row → ∃ lease ∈ t.issued, lease.Matches i row
  unique : ∀ i i' r r', t.requests.lookup i = some r → t.requests.lookup i' = some r' →
    r.stage ≠ .aborted → r'.stage ≠ .aborted → i = i'

/-- The lifecycle is the same, or a fenced community has become a tombstone. -/
def Community.Proceeds (c c' : Community) : Prop :=
  c'.deletionFenceGeneration = c.deletionFenceGeneration ∧
    (c'.deletionState = c.deletionState ∨
      (c.deletionState = .fenced ∧ c'.deletionState = .tombstone))

theorem Community.Proceeds.trans {c c' c'' : Community} (h : c.Proceeds c') (h' : c'.Proceeds c'') :
    c.Proceeds c'' := by
  obtain ⟨hgeneration, hstate⟩ := h
  obtain ⟨hgeneration', hstate'⟩ := h'
  refine ⟨hgeneration'.trans hgeneration, ?_⟩
  rcases hstate with hstate | ⟨hfenced, htombstone⟩
  · rw [hstate] at hstate'
    exact hstate'
  · rcases hstate' with hstate' | ⟨hfenced', -⟩
    · exact .inr ⟨hfenced, hstate'.trans htombstone⟩
    · rw [htombstone] at hfenced'
      cases hfenced'

/-- What a transaction may commit that has the locks. -/
structure Guarantee (held : Held LockKey) (t t' : Tables) : Prop where
  communityRow : Guarded (fun _ : Unit => LockKey.communityRow) (fun t _ => t.community) held t t'
  lifecycle : (.community, .exclusive) ∈ held ∨ t.community.Proceeds t'.community
  request : Guarded LockKey.request (fun t i => t.requests.lookup i) held t t'
  evolves : ∀ i r, t.requests.lookup i = some r → ∃ r', t'.requests.lookup i = some r' ∧
    r.Evolves r' ∧
      (r.stage = .approved → r'.stage = .approved ∨ (.community, .exclusive) ∈ held)
  inserted : ∀ i r', t'.requests.lookup i = some r' → (∃ r, t.requests.lookup i = some r) ∨
    (.activeRequest, .exclusive) ∈ held
  approval : ∀ i a, t.approvals.lookup i = some a → t'.approvals.lookup i = some a
  approved : Guarded LockKey.request (fun t i => t.approvals.lookup i) held t t'
  issued : t.issued ⊆ t'.issued
  chunk : Guarded LockKey.chunk (fun t key => t.manifestKeys.lookup key) held t t'
  content : ∀ key, (.request key.1, .exclusive) ∈ held ∨
    Stamped (t.manifestKeys.lookup key) (t'.manifestKeys.lookup key)
  frozen : ∀ i r, t.requests.lookup i = some r → r.destructiveStorageFrozenAt.isSome →
    (∀ chunkNo, Stamped (t.manifestKeys.lookup (i, chunkNo)) (t'.manifestKeys.lookup (i, chunkNo)))
      ∨ ∃ r', t'.requests.lookup i = some r' ∧ r'.stage.dropsChunks
  sound : t.Sound → t'.Sound

namespace Guarantee

variable {held : Held LockKey} {t t' t'' : Tables}

theorem refl (held : Held LockKey) (t : Tables) : Guarantee held t t where
  communityRow := .refl held t
  lifecycle := .inr ⟨rfl, .inl rfl⟩
  request := .refl held t
  evolves := fun _ r hr => ⟨r, hr, .refl r, fun hs => .inl hs⟩
  inserted := fun _ r hr => .inl ⟨r, hr⟩
  approval := fun _ _ ha => ha
  approved := .refl held t
  issued := List.Subset.refl _
  chunk := .refl held t
  content := fun _ => .inr (.refl _)
  frozen := fun _ _ _ _ => .inl fun _ => .refl _
  sound := id

/-- One write after the other. -/
theorem trans (h : Guarantee held t t') (h' : Guarantee held t' t'') : Guarantee held t t'' where
  communityRow := h.communityRow.trans h'.communityRow
  lifecycle := by
    rcases h.lifecycle with hl | hp
    · exact .inl hl
    · exact h'.lifecycle.imp_right fun hp' => hp.trans hp'
  request := h.request.trans h'.request
  evolves := fun i r hr => by
    obtain ⟨r', hr', hevolves, happroved⟩ := h.evolves i r hr
    obtain ⟨r'', hr'', hevolves', happroved'⟩ := h'.evolves i r' hr'
    exact ⟨r'', hr'', hevolves.trans hevolves', fun hs => (happroved hs).elim happroved' .inr⟩
  inserted := fun i r'' hr'' => by
    rcases h'.inserted i r'' hr'' with ⟨r', hr'⟩ | hl
    · exact h.inserted i r' hr'
    · exact .inr hl
  approval := fun i a ha => h'.approval i a (h.approval i a ha)
  approved := h.approved.trans h'.approved
  issued := List.Subset.trans h.issued h'.issued
  chunk := h.chunk.trans h'.chunk
  content := fun key => by
    rcases h.content key with hl | hs
    · exact .inl hl
    · exact (h'.content key).imp_right fun hs' => hs.trans hs'
  frozen := fun i r hr hf => by
    obtain ⟨r', hr', hevolves, -⟩ := h.evolves i r hr
    have hf' : r'.destructiveStorageFrozenAt.isSome := by
      rw [(hevolves.frozen hf).2]
      exact hf
    rcases h.frozen i r hr hf with hs | ⟨r₁, hr₁, hdrops⟩
    · exact (h'.frozen i r' hr' hf').imp_left fun hs' chunkNo => (hs chunkNo).trans (hs' chunkNo)
    · obtain ⟨r₂, hr₂, hevolves', -⟩ := h'.evolves i r₁ hr₁
      exact .inr ⟨r₂, hr₂, hevolves'.dropsChunks hdrops⟩
  sound := fun hs => h'.sound (h.sound hs)

theorem mono {held' : Held LockKey} (hsubset : held ⊆ held') (h : Guarantee held t t') :
    Guarantee held' t t' where
  communityRow := h.communityRow.mono hsubset
  lifecycle := h.lifecycle.imp_left fun hl => hsubset hl
  request := h.request.mono hsubset
  evolves := fun i r hr => by
    obtain ⟨r', hr', hevolves, happroved⟩ := h.evolves i r hr
    exact ⟨r', hr', hevolves, fun hs => (happroved hs).imp_right fun hl => hsubset hl⟩
  inserted := fun i r' hr' => (h.inserted i r' hr').imp_right fun hl => hsubset hl
  approval := h.approval
  approved := h.approved.mono hsubset
  issued := h.issued
  chunk := h.chunk.mono hsubset
  content := fun key => (h.content key).imp_left fun hl => hsubset hl
  frozen := h.frozen
  sound := h.sound

end Guarantee

/-! ### Writes -/

section

variable {held : Held LockKey} {t : Tables} {i : Uuid}

theorem lookup_insertRequest (t : Tables) (i j : Uuid) (r : DeletionRequest) :
    (t.insertRequest i r).requests.lookup j = if j = i then some r else t.requests.lookup j :=
  HashMap.lookup_insert_eq _ _ _ _

theorem lookup_modifyRequest (t : Tables) (i j : Uuid) (f : DeletionRequest → DeletionRequest) :
    (t.modifyRequest i f).requests.lookup j =
      if j = i then (t.requests.lookup i).map f else t.requests.lookup j := by
  unfold Tables.modifyRequest
  cases h : t.requests.lookup i with
  | some r => exact lookup_insertRequest t i j (f r)
  | none =>
    by_cases hj : j = i
    · rw [if_pos hj, hj, h]
      rfl
    · rw [if_neg hj]

/-- What a write of a request leaves as it is. -/
theorem modifyRequest_other (t : Tables) (i : Uuid) (f : DeletionRequest → DeletionRequest) :
    (t.modifyRequest i f).community = t.community ∧ (t.modifyRequest i f).approvals = t.approvals ∧
      (t.modifyRequest i f).manifestKeys = t.manifestKeys ∧
      (t.modifyRequest i f).leases = t.leases ∧ (t.modifyRequest i f).issued = t.issued ∧
      (t.modifyRequest i f).rows = t.rows := by
  unfold Tables.modifyRequest
  cases t.requests.lookup i <;> exact ⟨rfl, rfl, rfl, rfl, rfl, rfl⟩

@[simp] theorem community_modifyRequest (t : Tables) (i : Uuid)
    (f : DeletionRequest → DeletionRequest) : (t.modifyRequest i f).community = t.community :=
  (modifyRequest_other t i f).1

@[simp] theorem approvals_modifyRequest (t : Tables) (i : Uuid)
    (f : DeletionRequest → DeletionRequest) : (t.modifyRequest i f).approvals = t.approvals :=
  (modifyRequest_other t i f).2.1

@[simp] theorem manifestKeys_modifyRequest (t : Tables) (i : Uuid)
    (f : DeletionRequest → DeletionRequest) :
    (t.modifyRequest i f).manifestKeys = t.manifestKeys := (modifyRequest_other t i f).2.2.1

@[simp] theorem leases_modifyRequest (t : Tables) (i : Uuid)
    (f : DeletionRequest → DeletionRequest) : (t.modifyRequest i f).leases = t.leases :=
  (modifyRequest_other t i f).2.2.2.1

@[simp] theorem issued_modifyRequest (t : Tables) (i : Uuid)
    (f : DeletionRequest → DeletionRequest) : (t.modifyRequest i f).issued = t.issued :=
  (modifyRequest_other t i f).2.2.2.2.1

@[simp] theorem community_modifyCommunity (t : Tables) (f : Community → Community) :
    (t.modifyCommunity f).community = f t.community := rfl

@[simp] theorem requests_modifyCommunity (t : Tables) (f : Community → Community) :
    (t.modifyCommunity f).requests = t.requests := rfl

/-- Where only the row of one request is another. -/
theorem guarantee_modifyRequest {f : DeletionRequest → DeletionRequest}
    (hlock : (.request i, .exclusive) ∈ held)
    (hf : ∀ r, t.requests.lookup i = some r → r.Evolves (f r) ∧
      (r.stage = .approved → (f r).stage = .approved ∨ (.community, .exclusive) ∈ held)) :
    Guarantee held t (t.modifyRequest i f) where
  communityRow := fun _ => .inl (by simp)
  lifecycle := .inr (by simp [Community.Proceeds])
  request := fun j => by
    by_cases hj : j = i
    · exact .inr (hj ▸ hlock)
    · exact .inl ((lookup_modifyRequest t i j f).trans (if_neg hj))
  evolves := fun j r hr => by
    by_cases hj : j = i
    · subst hj
      exact ⟨f r, by rw [lookup_modifyRequest, if_pos rfl, hr, Option.map_some], hf r hr⟩
    · exact ⟨r, by rw [lookup_modifyRequest, if_neg hj, hr], .refl r, fun hs => .inl hs⟩
  inserted := fun j r' hr' => by
    rw [lookup_modifyRequest] at hr'
    split at hr'
    · next hj =>
      obtain ⟨r, hr, -⟩ := Option.map_eq_some_iff.mp hr'
      exact .inl ⟨r, hj ▸ hr⟩
    · exact .inl ⟨r', hr'⟩
  approval := fun j a ha => by simpa using ha
  approved := fun _ => .inl (by simp)
  issued := by simp
  chunk := fun _ => .inl (by simp)
  content := fun _ => .inr (by simpa using Stamped.refl _)
  frozen := fun _ _ _ _ => .inl fun _ => by simpa using Stamped.refl _
  sound := fun hs => by
    -- a row that is not aborted was not aborted before
    have hold {j : Uuid} {r' : DeletionRequest}
        (hr' : (t.modifyRequest i f).requests.lookup j = some r') (hstage : r'.stage ≠ .aborted) :
        ∃ r, t.requests.lookup j = some r ∧ r.stage ≠ .aborted := by
      rw [lookup_modifyRequest] at hr'
      split at hr'
      · next hj =>
        obtain ⟨r, hr, rfl⟩ := Option.map_eq_some_iff.mp hr'
        exact ⟨r, hj ▸ hr, fun ha => hstage ((hf r hr).1.stays_aborted ha)⟩
      · exact ⟨r', hr', hstage⟩
    refine ⟨by simpa using hs.leases, fun j j' r r' hr hr' hstage hstage' => ?_⟩
    obtain ⟨r₁, hr₁, hstage₁⟩ := hold hr hstage
    obtain ⟨r₂, hr₂, hstage₂⟩ := hold hr' hstage'
    exact hs.unique j j' r₁ r₂ hr₁ hr₂ hstage₁ hstage₂

/-- Where the requests and the chunks are the same. -/
theorem guarantee_of_requests {t' : Tables} (hrequests : t'.requests = t.requests)
    (hchunks : t'.manifestKeys = t.manifestKeys)
    (hrow : (.communityRow, .exclusive) ∈ held ∨ t'.community = t.community)
    (hlifecycle : (.community, .exclusive) ∈ held ∨ t.community.Proceeds t'.community)
    (happroval : ∀ i, t'.approvals.lookup i = t.approvals.lookup i ∨
      (.request i, .exclusive) ∈ held ∧ t.approvals.lookup i = none)
    (hissued : t.issued ⊆ t'.issued)
    (hleases : (∀ i row, t.leases.lookup i = some row → ∃ lease ∈ t.issued, lease.Matches i row) →
      ∀ i row, t'.leases.lookup i = some row → ∃ lease ∈ t'.issued, lease.Matches i row) :
    Guarantee held t t' where
  communityRow := fun _ => hrow.symm
  lifecycle := hlifecycle
  request := fun j => .inl (congrArg (AList.lookup j) hrequests)
  evolves := fun _ r hr => ⟨r, hrequests ▸ hr, .refl r, fun hs => .inl hs⟩
  inserted := fun _ r hr => .inl ⟨r, hrequests ▸ hr⟩
  approval := fun i a ha => by
    rcases happroval i with heq | ⟨-, hnone⟩
    · exact heq.trans ha
    · rw [hnone] at ha
      cases ha
  approved := fun i => (happroval i).imp_right And.left
  issued := hissued
  chunk := fun key => .inl (congrArg (AList.lookup key) hchunks)
  content := fun _ => .inr (hchunks ▸ .refl _)
  frozen := fun _ _ _ _ => .inl fun _ => hchunks ▸ .refl _
  sound := fun hs => ⟨hleases hs.leases, hrequests ▸ hs.unique⟩

/-- Where only the row of the community is another. -/
theorem guarantee_modifyCommunity {f : Community → Community}
    (hlock : (.communityRow, .exclusive) ∈ held)
    (hlifecycle : (.community, .exclusive) ∈ held ∨ t.community.Proceeds (f t.community)) :
    Guarantee held t (t.modifyCommunity f) :=
  guarantee_of_requests rfl rfl (.inl hlock) hlifecycle (fun _ => .inl rfl) (List.Subset.refl _) id

theorem guarantee_setRows (table : String) (f : List String → List String) :
    Guarantee held t (t.setRows table f) :=
  guarantee_of_requests rfl rfl (.inr rfl) (.inr ⟨rfl, .inl rfl⟩) (fun _ => .inl rfl)
    (List.Subset.refl _) id

theorem guarantee_insertApproval {a : DeletionApproval}
    (hlock : (.request i, .exclusive) ∈ held) (hnew : t.approvals.lookup i = none) :
    Guarantee held t (t.insertApproval i a) := by
  refine guarantee_of_requests rfl rfl (.inr rfl) (.inr ⟨rfl, .inl rfl⟩) (fun j => ?_)
    (List.Subset.refl _) id
  by_cases hj : j = i
  · exact .inr (hj ▸ ⟨hlock, hnew⟩)
  · exact .inl ((HashMap.lookup_insert_eq _ _ _ _).trans (if_neg hj))

theorem guarantee_issue (lease : ServingWriteLease) : Guarantee held t (t.issue lease) := by
  refine guarantee_of_requests rfl rfl (.inr rfl) (.inr ⟨rfl, .inl rfl⟩) (fun _ => .inl rfl)
    (List.subset_cons_self _ _) fun hleases => HashMap.forall_lookup_insert (fun j row hrow => ?_)
      ⟨lease, List.mem_cons_self, rfl, rfl, rfl, rfl⟩
  obtain ⟨l, hl, hmatches⟩ := hleases j row hrow
  exact ⟨l, List.mem_cons_of_mem _ hl, hmatches⟩

/-- Where the row of a lease keeps its owner and its generations. -/
theorem guarantee_modifyLease {f : ServingLease → ServingLease}
    (hf : ∀ row, (f row).owner = row.owner ∧ (f row).generation = row.generation ∧
      (f row).fenceGeneration = row.fenceGeneration) : Guarantee held t (t.modifyLease i f) := by
  unfold Tables.modifyLease
  cases hi : t.leases.lookup i with
  | none => exact .refl held t
  | some row =>
    refine guarantee_of_requests rfl rfl (.inr rfl) (.inr ⟨rfl, .inl rfl⟩) (fun _ => .inl rfl)
      (List.Subset.refl _) fun hleases => HashMap.forall_lookup_insert hleases ?_
    obtain ⟨l, hl, hid, howner, hgeneration, hfence⟩ := hleases i row hi
    obtain ⟨howner', hgeneration', hfence'⟩ := hf row
    exact ⟨l, hl, hid, howner.trans howner'.symm, hgeneration.trans hgeneration'.symm,
      hfence.trans hfence'.symm⟩

theorem guarantee_eraseLease : Guarantee held t (t.eraseLease i) := by
  refine guarantee_of_requests rfl rfl (.inr rfl) (.inr ⟨rfl, .inl rfl⟩) (fun _ => .inl rfl)
    (List.Subset.refl _) fun hleases j row hrow => ?_
  rw [show (t.eraseLease i).leases.lookup j = if j = i then none else t.leases.lookup j from
    HashMap.lookup_erase_eq _ _ _] at hrow
  split at hrow
  · cases hrow
  · exact hleases j row hrow

/-- Where the chunks are another under one key. -/
theorem guarantee_of_chunk {m : HashMap (Uuid × ℕ) KeyChunk} {key : Uuid × ℕ}
    (hlock : (.chunk key, .exclusive) ∈ held)
    (hm : ∀ key', key' ≠ key → m.lookup key' = t.manifestKeys.lookup key')
    (hcontent : (.request key.1, .exclusive) ∈ held ∨
      Stamped (t.manifestKeys.lookup key) (m.lookup key))
    (hfrozen : ∀ r, t.requests.lookup key.1 = some r → r.destructiveStorageFrozenAt.isSome →
      Stamped (t.manifestKeys.lookup key) (m.lookup key) ∨ r.stage.dropsChunks) :
    Guarantee held t { t with manifestKeys := m } where
  communityRow := fun _ => .inl rfl
  lifecycle := .inr ⟨rfl, .inl rfl⟩
  request := fun _ => .inl rfl
  evolves := fun _ r hr => ⟨r, hr, .refl r, fun hs => .inl hs⟩
  inserted := fun _ r hr => .inl ⟨r, hr⟩
  approval := fun _ _ ha => ha
  approved := fun _ => .inl rfl
  issued := List.Subset.refl _
  chunk := fun key' => by
    by_cases hkey : key' = key
    · exact .inr (hkey ▸ hlock)
    · exact .inl (hm key' hkey)
  content := fun key' => by
    by_cases hkey : key' = key
    · exact hkey ▸ hcontent
    · exact .inr (hm key' hkey ▸ .refl _)
  frozen := fun j r hr hf => by
    by_cases hj : j = key.1
    · subst hj
      refine (hfrozen r hr hf).imp (fun hstamped chunkNo => ?_) fun hdrops => ⟨r, hr, hdrops⟩
      by_cases hkey : (key.1, chunkNo) = key
      · exact hkey.symm ▸ hstamped
      · exact hm _ hkey ▸ .refl _
    · exact .inl fun chunkNo => hm (j, chunkNo) (fun hkey => hj (hkey ▸ rfl)) ▸ .refl _
  sound := fun hs => ⟨hs.leases, hs.unique⟩

/-- A chunk that is appended, or dropped. -/
theorem guarantee_insertChunk {key : Uuid × ℕ} {chunk : KeyChunk}
    (hlock : (.chunk key, .exclusive) ∈ held) (hrequest : (.request key.1, .exclusive) ∈ held)
    (hfrozen : ∀ r, t.requests.lookup key.1 = some r → r.destructiveStorageFrozenAt = none) :
    Guarantee held t (t.insertChunk key chunk) := by
  refine guarantee_of_chunk hlock (fun key' hkey => ?_) (.inl hrequest) fun r hr hf => ?_
  · exact (HashMap.lookup_insert_eq _ _ _ _).trans (if_neg hkey)
  · rw [hfrozen r hr] at hf
    cases hf

theorem guarantee_eraseChunk {key : Uuid × ℕ} (hlock : (.chunk key, .exclusive) ∈ held)
    (hrequest : (.request key.1, .exclusive) ∈ held)
    (hfrozen : ∀ r, t.requests.lookup key.1 = some r → r.destructiveStorageFrozenAt = none ∨
      r.stage.dropsChunks) : Guarantee held t (t.eraseChunk key) := by
  refine guarantee_of_chunk hlock (fun key' hkey => ?_) (.inl hrequest) fun r hr hf => ?_
  · exact (HashMap.lookup_erase_eq _ _ _).trans (if_neg hkey)
  · rcases hfrozen r hr with hnone | hdrops
    · rw [hnone] at hf
      cases hf
    · exact .inr hdrops

/-- A chunk that is stamped. -/
theorem guarantee_stamp {key : Uuid × ℕ} {start : ℤ} (hlock : (.chunk key, .exclusive) ∈ held)
    (hstamp : ∀ c, t.manifestKeys.lookup key = some c → c.deletedAt = none) :
    Guarantee held t (t.modifyChunk key fun c => { c with deletedAt := some start }) := by
  unfold Tables.modifyChunk
  cases hkey : t.manifestKeys.lookup key with
  | none => exact .refl held t
  | some c =>
    have hstamped : Stamped (t.manifestKeys.lookup key)
        ((t.manifestKeys.insert key { c with deletedAt := some start }).lookup key) := by
      rw [hkey, HashMap.lookup_insert_eq, if_pos rfl]
      refine ⟨rfl, fun c' hc' hs => ?_⟩
      obtain rfl := Option.some.inj hc'
      rw [hstamp _ hkey] at hs
      cases hs
    exact guarantee_of_chunk hlock
      (fun key' hne => (HashMap.lookup_insert_eq _ _ _ _).trans (if_neg hne)) (.inr hstamped)
      fun _ _ _ => .inl hstamped

/-- A request that is new, where none is active. -/
theorem guarantee_insertRequest {r : DeletionRequest} (hlock : (.request i, .exclusive) ∈ held)
    (hactive : (.activeRequest, .exclusive) ∈ held) (hnew : t.requests.lookup i = none)
    (hnone : ∀ j r', t.requests.lookup j = some r' → r'.stage = .aborted) :
    Guarantee held t (t.insertRequest i r) where
  communityRow := fun _ => .inl rfl
  lifecycle := .inr ⟨rfl, .inl rfl⟩
  request := fun j => by
    by_cases hj : j = i
    · exact .inr (hj ▸ hlock)
    · exact .inl ((lookup_insertRequest t i j r).trans (if_neg hj))
  evolves := fun j r' hr' => by
    have hj : j ≠ i := fun hj => by
      rw [hj, hnew] at hr'
      cases hr'
    exact ⟨r', by rw [lookup_insertRequest, if_neg hj, hr'], .refl r', fun hs => .inl hs⟩
  inserted := fun _ _ _ => .inr hactive
  approval := fun _ _ ha => ha
  approved := fun _ => .inl rfl
  issued := List.Subset.refl _
  chunk := fun _ => .inl rfl
  content := fun _ => .inr (.refl _)
  frozen := fun _ _ _ _ => .inl fun _ => .refl _
  sound := fun hs => by
    have hold {j : Uuid} {r' : DeletionRequest}
        (hr' : (t.insertRequest i r).requests.lookup j = some r') (hstage : r'.stage ≠ .aborted) :
        j = i := by
      by_contra hj
      rw [lookup_insertRequest, if_neg hj] at hr'
      exact hstage (hnone j r' hr')
    exact ⟨hs.leases, fun j j' r₁ r₂ hr₁ hr₂ hstage₁ hstage₂ =>
      (hold hr₁ hstage₁).trans (hold hr₂ hstage₂).symm⟩

end

end Buzz.Db.Deletion
