import Buzz.Db.Push.Lease

/-!
# Runs of lease acceptances

The calls of `accept_lease_event` on one community, in the order in which they commit. The lease
that an address has is the last one accepted for it, and its source event is the only lease event of
the address that is not deleted.

## Main definitions

* `Acceptance`, `Acceptance.apply`, `runAcceptances`: runs of calls.
* `Tables.OnlyLiveEvent`: the one lease event of an address that is not deleted.
* `Tables.Sound`: the invariant of the tables.

## Main results

* `Tables.Sound.apply`: one call.
* `Tables.Sound.supersedes_accept`: what a run makes of the lease of an address.
* `acceptance_ordered`: what holds in every run.
* `expired_author_refused`: an author with an expired lease stays refused.
-/

namespace Buzz.Db.Push

open Buzz.Library

/-- A call of `accept_lease_event`. Its version is read off the event. -/
structure Acceptance where
  now : ℤ
  event : LeaseEvent
  installationId : List Char
  generation : ℤ
  expiresAt : ℤ
  active : Option ActiveLease

namespace Acceptance

def address (op : Acceptance) : Address := (op.event.pubkey, op.installationId)

/-- The version that the handler passes. The creation time is a `u64` read `as i64`. -/
def version (op : Acceptance) : LeaseVersion where
  sourceEventId := op.event.id
  sourceCreatedAt := (op.event.createdAt : ℤ).bmod (2 ^ 64)
  generation := op.generation
  expiresAt := op.expiresAt

/-- The lease that the call stores. -/
def lease (op : Acceptance) : Lease := newLease op.version op.active

def apply (maxActiveLeases : ℤ) (op : Acceptance) (t : Tables) :
    Except DbError AcceptLeaseOutcome × Tables :=
  acceptLeaseEvent op.now op.event op.installationId op.version op.active maxActiveLeases t

end Acceptance

/-- The tables after a sequence of calls, from `t`. -/
def Tables.accept (maxActiveLeases : ℤ) (t : Tables) (ops : List Acceptance) : Tables :=
  ops.foldl (fun t op => (op.apply maxActiveLeases t).2) t

/-- The tables after a sequence of calls. -/
def runAcceptances (maxActiveLeases : ℤ) (ops : List Acceptance) : Tables :=
  Tables.empty.accept maxActiveLeases ops

/-! ### The invariant -/

/-- The ordering fields of a stored lease. -/
def Lease.version (l : Lease) : LeaseVersion :=
  ⟨l.sourceEventId, l.sourceCreatedAt, l.generation, l.expiresAt⟩

/-- Where the source event of a lease is stored. -/
def Lease.sourceKey (l : Lease) : ℤ × EventId := (l.sourceCreatedAt * 1000000, l.sourceEventId)

/-- The lease wins against another one in the order of events and in its generation. -/
def Lease.Beats (l l' : Lease) : Prop :=
  l.version.winsEvent l' = true ∧ l'.generation < l.generation

namespace Tables

/-- The event under `key` is the only lease event of the address that is not deleted. -/
def OnlyLiveEvent (t : Tables) (address : Address) (key : ℤ × EventId) : Prop :=
  (∃ e, t.events.lookup key = some e ∧ e.liveLease address = true) ∧
    ∀ key' e, t.events.lookup key' = some e → e.liveLease address = true → key' = key

/-- The active leases of an author. -/
def activeCount (t : Tables) (author : PublicKey) : ℕ :=
  Table.countWhere (fun a l => decide (a.1 = author) && l.active) t.leases

/-- Two addresses of an author do not share the endpoint of an active lease. -/
def DistinctEndpoints (t : Tables) : Prop :=
  ∀ a b l l', t.leases.lookup a = some l → t.leases.lookup b = some l' → a.1 = b.1 → a ≠ b →
    l.active = true → l'.active = true →
    (l.appProfile, l.endpointHash) ≠ (l'.appProfile, l'.endpointHash)

/-- What holds of the tables between calls. -/
structure Sound (maxActiveLeases : ℤ) (t : Tables) : Prop where
  checked : t.Checked
  source : ∀ a l, t.leases.lookup a = some l → t.OnlyLiveEvent a l.sourceKey
  quota : ∀ author, t.activeCount author ≤ maxActiveLeases.toNat
  endpoints : t.DistinctEndpoints

end Tables

theorem newLease_active (version : LeaseVersion) (active : Option ActiveLease) :
    (newLease version active).active = active.isSome := rfl

/-! ### Deleted events -/

/-- A lease event belongs to one address. -/
theorem StoredEvent.liveLease_unique {e : StoredEvent} {a b : Address}
    (ha : e.liveLease a = true) (hb : e.liveLease b = true) : a = b := by
  simp only [liveLease, Bool.and_eq_true, decide_eq_true_eq] at ha hb
  have hauthor : a.1 = b.1 := ha.1.1.2.symm.trans hb.1.1.2
  have hinstallation : a.2 = b.2 := Option.some.inj (ha.1.2.symm.trans hb.1.2)
  exact Prod.ext hauthor hinstallation

/-- The stored lease event of a call. -/
theorem liveLease_inserted {author : PublicKey} {installationId : List Char} {now : ℤ}
    {a : Address} :
    StoredEvent.liveLease a ⟨author, 30350, some installationId, none, now, none⟩ = true ↔
      a = (author, installationId) := by
  simp only [StoredEvent.liveLease, Bool.and_eq_true, decide_eq_true_eq, Option.some.injEq,
    Option.isNone_none, true_and, and_true]
  exact ⟨fun h => Prod.ext h.1.symm h.2.symm, fun h => by rw [h]; exact ⟨rfl, rfl⟩⟩

/-- After its lease events are deleted, an address has none; the events of the others stay. -/
theorem lookup_retireEvents {now : ℤ} {address a : Address} {t : Tables} {key : ℤ × EventId}
    {e : StoredEvent} (hlive : e.liveLease a = true) :
    (t.retireEvents now address).events.lookup key = some e ↔
      a ≠ address ∧ t.events.lookup key = some e := by
  rw [Tables.retireEvents, Table.lookup_updateWhere]
  cases hkey : t.events.lookup key with
  | none => simp
  | some e' =>
    simp only [Option.map_some, Option.some.injEq]
    by_cases hretired : e'.liveLease address = true
    · rw [if_pos hretired]
      constructor
      · intro h
        rw [← h] at hlive
        simp [StoredEvent.liveLease] at hlive
      · rintro ⟨hne, h⟩
        rw [h] at hretired
        exact absurd (StoredEvent.liveLease_unique hlive hretired) hne
    · rw [if_neg hretired]
      refine ⟨fun h => ⟨fun heq => hretired ?_, h⟩, And.right⟩
      rw [h, ← heq]
      exact hlive

/-! ### One call -/

namespace Accepted

variable {maxActiveLeases : ℤ} {t t' : Tables} {now : ℤ} {event : LeaseEvent}
  {installationId : List Char} {version : LeaseVersion} {active : Option ActiveLease}

section

variable (h : Accepted now event installationId version active maxActiveLeases t t')

include h

theorem lookup (a : Address) :
    t'.leases.lookup a =
      if a = (event.pubkey, installationId) then some (newLease version active)
      else t.leases.lookup a := by
  rw [h.leases, HashMap.lookup_insert_eq]

/-- The events that are not deleted: those of the other addresses, and the accepted one. -/
theorem lookup_live {a : Address} {key : ℤ × EventId} {e : StoredEvent}
    (hlive : e.liveLease a = true) :
    t'.events.lookup key = some e →
      (a = (event.pubkey, installationId) ∧
          key = (version.sourceCreatedAt * 1000000, event.id)) ∨
        (a ≠ (event.pubkey, installationId) ∧ t.events.lookup key = some e) := by
  intro hkey
  rw [h.events, HashMap.lookup_insert_eq] at hkey
  split_ifs at hkey with heq
  · obtain rfl := Option.some.inj hkey
    exact .inl ⟨liveLease_inserted.mp hlive, heq⟩
  · exact .inr ((lookup_retireEvents hlive).mp hkey)

/-- The source event of every lease stays the one that is not deleted. -/
theorem source (hid : event.id = version.sourceEventId)
    (hsource : ∀ a l, t.leases.lookup a = some l → t.OnlyLiveEvent a l.sourceKey) (a : Address)
    (l : Lease) (hl : t'.leases.lookup a = some l) : t'.OnlyLiveEvent a l.sourceKey := by
  rw [h.lookup] at hl
  split_ifs at hl with ha
  · -- the address of the call
    obtain rfl := Option.some.inj hl
    have hkey : (newLease version active).sourceKey =
        (version.sourceCreatedAt * 1000000, event.id) := by rw [hid]; rfl
    rw [hkey]
    have hstored := h.events ▸ AList.lookup_insert (t.retireEvents now _).events
    refine ⟨⟨_, hstored, liveLease_inserted.mpr ha⟩, fun key e he hlive => ?_⟩
    · obtain ⟨-, hkey⟩ | ⟨hne, -⟩ := h.lookup_live hlive he
      · exact hkey
      · exact absurd ha hne
  · -- another address
    obtain ⟨⟨e, he, hlive⟩, honly⟩ := hsource a l hl
    refine ⟨⟨e, ?_, hlive⟩, fun key e' he' hlive' => ?_⟩
    · have hne : l.sourceKey ≠ (version.sourceCreatedAt * 1000000, event.id) := by
        intro heq
        rw [heq, h.fresh] at he
        cases he
      rw [h.events, HashMap.lookup_insert_eq, if_neg hne]
      exact (lookup_retireEvents hlive).mpr ⟨ha, he⟩
    · obtain ⟨hsame, -⟩ | ⟨-, hold⟩ := h.lookup_live hlive' he'
      · exact absurd hsame ha
      · exact honly key e' hold hlive'

theorem activeCount_le (hquota : ∀ author, t.activeCount author ≤ maxActiveLeases.toNat)
    (author : PublicKey) : t'.activeCount author ≤ maxActiveLeases.toNat := by
  rw [Tables.activeCount, h.leases, Table.countWhere_insert]
  dsimp only
  rw [newLease_active]
  have hothers : Table.countWhere (fun a l => (decide (a.1 = author) && l.active) &&
      decide (a ≠ (event.pubkey, installationId))) t.leases ≤ t.activeCount author :=
    Table.countWhere_le fun a l _ hp => (Bool.and_eq_true _ _ ▸ hp).1
  split_ifs with hcounts
  · -- a row beside those that the quota was checked for
    obtain ⟨hauthor, hactive⟩ : event.pubkey = author ∧ active.isSome = true := by
      simpa using hcounts
    have hfree := h.quota hactive
    have hcount : Table.countWhere (fun a l => (decide (a.1 = author) && l.active) &&
        decide (a ≠ (event.pubkey, installationId))) t.leases ≤
          Table.countWhere (fun a l => decide (a.1 = event.pubkey) && l.active &&
            decide (a.2 ≠ installationId)) t.leases := by
      refine Table.countWhere_le fun a l _ hp => ?_
      simp only [Bool.and_eq_true, decide_eq_true_eq] at hp ⊢
      refine ⟨⟨hp.1.1.trans hauthor.symm, hp.1.2⟩, fun hinstallation => hp.2 ?_⟩
      exact Prod.ext (hp.1.1.trans hauthor.symm) hinstallation
    refine (Nat.add_le_add_right hcount 1).trans ?_
    omega
  · exact hothers.trans (hquota author)

theorem distinctEndpoints (hdistinct : t.DistinctEndpoints) : t'.DistinctEndpoints := by
  -- the new lease against one of another address
  have hnew : ∀ b l, b ≠ (event.pubkey, installationId) → t.leases.lookup b = some l →
      b.1 = event.pubkey → active.isSome = true → l.active = true →
      (l.appProfile, l.endpointHash) ≠
        ((newLease version active).appProfile, (newLease version active).endpointHash) := by
    intro b l hb hl hauthor hsome hactive heq
    obtain ⟨hprofile, hhash⟩ := Prod.mk.inj heq
    exact h.endpoint b l hl hb hauthor hsome hactive hprofile hhash
  intro a b l l' hl hl' hauthor hne hactive hactive'
  rw [h.lookup] at hl hl'
  split_ifs at hl hl' with ha hb hb
  · exact absurd (ha.trans hb.symm) hne
  · obtain rfl := Option.some.inj hl
    rw [ha] at hauthor
    exact (hnew b l' hb hl' hauthor.symm hactive hactive').symm
  · obtain rfl := Option.some.inj hl'
    rw [hb] at hauthor
    exact hnew a l ha hl hauthor hactive' hactive
  · exact hdistinct a b l l' hl hl' hauthor hne hactive hactive'

end

end Accepted

namespace Tables

variable {maxActiveLeases : ℤ} {t : Tables}

theorem lookup_leases_empty (a : Address) (l : Lease) : empty.leases.lookup a ≠ some l := by
  rw [empty, AList.lookup_empty]
  exact nofun

theorem sound_empty (maxActiveLeases : ℤ) : empty.Sound maxActiveLeases where
  checked a l hl := absurd hl (lookup_leases_empty a l)
  source a l hl := absurd hl (lookup_leases_empty a l)
  quota _ := Nat.zero_le _
  endpoints a _ l _ hl := absurd hl (lookup_leases_empty a l)

/-- A call keeps the constraints of the leases. -/
theorem Checked.apply (hchecked : t.Checked) (op : Acceptance) :
    (op.apply maxActiveLeases t).2.Checked := by
  intro a l hl
  obtain ⟨-, htx⟩ | ⟨-, hsame⟩ := acceptLeaseEvent_cases op.now op.event op.installationId
    op.version op.active maxActiveLeases t
  · have haccepted := acceptTx_eq_ok hchecked htx
    have hlookup := (haccepted.lookup a).symm.trans hl
    split_ifs at hlookup with ha
    · obtain rfl := Option.some.inj hlookup
      rw [ha]
      exact haccepted.check
    · exact hchecked a l hlookup
  · exact hchecked a l (hsame ▸ hl)

/-- One call keeps the invariant. -/
theorem Sound.apply (h : t.Sound maxActiveLeases) (op : Acceptance) :
    (op.apply maxActiveLeases t).2.Sound maxActiveLeases := by
  obtain ⟨-, htx⟩ | ⟨-, hsame⟩ := acceptLeaseEvent_cases op.now op.event op.installationId
    op.version op.active maxActiveLeases t
  · have haccepted := acceptTx_eq_ok h.checked htx
    exact ⟨h.checked.apply op, haccepted.source rfl h.source,
      haccepted.activeCount_le h.quota, haccepted.distinctEndpoints h.endpoints⟩
  · exact hsame.symm ▸ h

theorem Sound.accept (h : t.Sound maxActiveLeases) (ops : List Acceptance) :
    (t.accept maxActiveLeases ops).Sound maxActiveLeases := by
  induction ops generalizing t with
  | nil => exact h
  | cons op ops ih => exact ih (h.apply op)

end Tables

/-! ### Histories -/

theorem LeaseVersion.winsEvent_iff {version : LeaseVersion} {l : Lease} :
    version.winsEvent l = true ↔ l.sourceCreatedAt < version.sourceCreatedAt ∨
      version.sourceCreatedAt = l.sourceCreatedAt ∧ version.sourceEventId < l.sourceEventId := by
  simp [winsEvent]

theorem LeaseVersion.winsEvent_trans {version : LeaseVersion} {l l' : Lease}
    (h : version.winsEvent l = true) (h' : l.version.winsEvent l' = true) :
    version.winsEvent l' = true := by
  rw [winsEvent_iff] at h h' ⊢
  rcases h with h | ⟨h, hid⟩ <;> rcases h' with h' | ⟨h', hid'⟩
  · exact .inl (h'.trans h)
  · exact .inl (h' ▸ h)
  · exact .inl (h ▸ h')
  · exact .inr ⟨h.trans h', BitVec.lt_trans hid hid'⟩

theorem Lease.Beats.trans {l l' l'' : Lease} (h : l.Beats l') (h' : l'.Beats l'') : l.Beats l'' :=
  ⟨LeaseVersion.winsEvent_trans h.1 h'.1, h'.2.trans h.2⟩

theorem newLease_beats {version : LeaseVersion} {l : Lease} (active : Option ActiveLease)
    (h : version.winsEvent l = true ∧ l.generation < version.generation) :
    (newLease version active).Beats l := h

/-- What becomes of the lease of an address: it stays, or one of the calls has replaced it by a
lease that wins against it. -/
def Supersedes (address : Address) (ops : List Acceptance) (l l' : Lease) : Prop :=
  l' = l ∨ l'.Beats l ∧ ∃ op ∈ ops, op.address = address ∧ op.lease = l'

namespace Tables

variable {maxActiveLeases : ℤ} {t : Tables}

/-- An accepted call stores its lease, which wins against the one before. -/
theorem Sound.apply_accepted (h : t.Sound maxActiveLeases) {op : Acceptance}
    (haccepted : (op.apply maxActiveLeases t).1 = .ok .accepted) :
    (op.apply maxActiveLeases t).2.leases.lookup op.address = some op.lease ∧
      ∀ previous, t.leases.lookup op.address = some previous → op.lease.Beats previous := by
  obtain ⟨-, htx⟩ | ⟨hne, -⟩ := acceptLeaseEvent_cases op.now op.event op.installationId
    op.version op.active maxActiveLeases t
  · have hwritten := acceptTx_eq_ok h.checked htx
    exact ⟨(hwritten.lookup op.address).trans (if_pos rfl), fun previous hprevious =>
      newLease_beats op.active (hwritten.wins previous hprevious)⟩
  · exact absurd haccepted hne

theorem Sound.supersedes_apply (h : t.Sound maxActiveLeases) (op : Acceptance) {address : Address}
    {l : Lease} (hl : t.leases.lookup address = some l) :
    ∃ l', (op.apply maxActiveLeases t).2.leases.lookup address = some l' ∧
      Supersedes address [op] l l' := by
  obtain ⟨-, htx⟩ | ⟨-, hsame⟩ := acceptLeaseEvent_cases op.now op.event op.installationId
    op.version op.active maxActiveLeases t
  · have hwritten := acceptTx_eq_ok h.checked htx
    have hlookup := hwritten.lookup address
    split_ifs at hlookup with haddress
    · subst haddress
      exact ⟨op.lease, hlookup, .inr ⟨newLease_beats op.active (hwritten.wins l hl), op,
        List.mem_singleton_self op, rfl, rfl⟩⟩
    · exact ⟨l, hlookup.trans hl, .inl rfl⟩
  · exact ⟨l, hsame.symm ▸ hl, .inl rfl⟩

/-- A run only ever replaces the lease of an address by one that wins against it. -/
theorem Sound.supersedes_accept (h : t.Sound maxActiveLeases) (ops : List Acceptance)
    {address : Address} {l : Lease} (hl : t.leases.lookup address = some l) :
    ∃ l', (t.accept maxActiveLeases ops).leases.lookup address = some l' ∧
      Supersedes address ops l l' := by
  induction ops generalizing t l with
  | nil => exact ⟨l, hl, .inl rfl⟩
  | cons op ops ih =>
    obtain ⟨l₁, hl₁, hstep⟩ := h.supersedes_apply op hl
    obtain ⟨l₂, hl₂, hrun⟩ := ih (h.apply op) hl₁
    refine ⟨l₂, hl₂, ?_⟩
    obtain rfl | ⟨hbeats, op', hmem, hop'⟩ := hrun
    · obtain rfl | ⟨hbeats, op', hmem, hop'⟩ := hstep
      · exact .inl rfl
      · refine .inr ⟨hbeats, op', ?_, hop'⟩
        exact List.mem_singleton.mp hmem ▸ List.mem_cons_self
    · refine .inr ⟨?_, op', List.mem_cons_of_mem _ hmem, hop'⟩
      obtain rfl | ⟨hbeats', -⟩ := hstep
      · exact hbeats
      · exact hbeats.trans hbeats'

end Tables

/-- In every run of acceptances: an accepted event wins against the lease before it in both orders,
and is stored; any other outcome leaves all tables as they are; the only lease event of an address
that is not deleted is the source event of its lease; a revoked address is active again only by an
event that wins against the revocation in both orders; and the active leases of an author, expired
or not, keep to the quota and to distinct endpoints. -/
theorem acceptance_ordered (maxActiveLeases : ℤ) (history : List Acceptance) (op : Acceptance) :
    let t := runAcceptances maxActiveLeases history
    let result := op.apply maxActiveLeases t
    (result.1 = .ok .accepted →
        result.2.leases.lookup op.address = some op.lease ∧
        ∀ previous, t.leases.lookup op.address = some previous → op.lease.Beats previous) ∧
      (result.1 ≠ .ok .accepted → result.2 = t) ∧
      (∀ address lease, t.leases.lookup address = some lease →
        t.OnlyLiveEvent address lease.sourceKey) ∧
      (∀ (later : List Acceptance) (address : Address) (revoked lease : Lease),
        t.leases.lookup address = some revoked → revoked.active = false →
        (runAcceptances maxActiveLeases (history ++ later)).leases.lookup address = some lease →
        lease.active = true →
        lease.Beats revoked ∧ ∃ op ∈ later, op.address = address ∧ op.lease = lease) ∧
      (∀ author, t.activeCount author ≤ maxActiveLeases.toNat) ∧ t.DistinctEndpoints := by
  intro t result
  have hsound : t.Sound maxActiveLeases := (Tables.sound_empty maxActiveLeases).accept history
  refine ⟨fun haccepted => ?_, fun hrejected => ?_, hsound.source, ?_, hsound.quota,
    hsound.endpoints⟩
  · obtain ⟨hstored, hbeats⟩ := hsound.apply_accepted haccepted
    exact ⟨hstored, hbeats⟩
  · obtain ⟨haccepted, -⟩ | ⟨-, hsame⟩ := acceptLeaseEvent_cases op.now op.event op.installationId
      op.version op.active maxActiveLeases t
    · exact absurd haccepted hrejected
    · exact hsame
  · intro later address revoked lease hrevoked hinactive hlease hactive
    obtain ⟨l', hl', hrun⟩ := hsound.supersedes_accept later hrevoked
    have hlookup : (runAcceptances maxActiveLeases (history ++ later)).leases.lookup address =
        some l' := by
      rw [runAcceptances, Tables.accept, List.foldl_append]
      exact hl'
    obtain rfl := Option.some.inj (hlookup.symm.trans hlease)
    obtain rfl | hbeats := hrun
    · rw [hinactive] at hactive
      cases hactive
    · exact hbeats

/-! ### Expired leases -/

/-- A call of the author of an expired lease is refused, and one of another author leaves the lease
as it is. -/
theorem Tables.Checked.apply_expired {maxActiveLeases : ℤ} {t : Tables} (hchecked : t.Checked)
    {a : Address} {l : Lease} (hl : t.leases.lookup a = some l) (hactive : l.active = true)
    (op : Acceptance) (hexpired : op.event.pubkey = a.1 → l.expiresAt ≤ epochSeconds op.now) :
    (op.apply maxActiveLeases t).2.leases.lookup a = some l ∧
      (op.event.pubkey = a.1 → (op.apply maxActiveLeases t).1 ≠ .ok .accepted) := by
  have hrefused (hauthor : op.event.pubkey = a.1) :
      (op.apply maxActiveLeases t).1 ≠ .ok .accepted :=
    expired_lease_blocks hchecked hl hauthor.symm hactive (hexpired hauthor)
  refine ⟨?_, hrefused⟩
  obtain ⟨haccepted, htx⟩ | ⟨-, hsame⟩ := acceptLeaseEvent_cases op.now op.event op.installationId
    op.version op.active maxActiveLeases t
  · have hne : a ≠ (op.event.pubkey, op.installationId) := fun heq =>
      hrefused (congrArg Prod.fst heq).symm haccepted
    exact ((acceptTx_eq_ok hchecked htx).lookup a).trans ((if_neg hne).trans hl)
  · exact (congrArg (fun t => t.leases.lookup a) hsame).trans hl

theorem Tables.Checked.accept_expired {maxActiveLeases : ℤ} {t : Tables} (hchecked : t.Checked)
    {a : Address} {l : Lease} (hl : t.leases.lookup a = some l) (hactive : l.active = true)
    {ops : List Acceptance}
    (hexpired : ∀ op ∈ ops, op.event.pubkey = a.1 → l.expiresAt ≤ epochSeconds op.now) :
    (t.accept maxActiveLeases ops).Checked ∧
      (t.accept maxActiveLeases ops).leases.lookup a = some l := by
  induction ops generalizing t with
  | nil => exact ⟨hchecked, hl⟩
  | cons op ops ih =>
    obtain ⟨hop, hrest⟩ := List.forall_mem_cons.mp hexpired
    exact ih (hchecked.apply op) (hchecked.apply_expired hl hactive op hop).1 hrest

/-- Once an active lease of an author has expired, none of his calls is accepted any more, whatever
calls there are in between: each fails when it sweeps the lease, which stays as it is. -/
theorem expired_author_refused (maxActiveLeases : ℤ) (history later : List Acceptance)
    (op : Acceptance) {a : Address} {l : Lease}
    (hl : (runAcceptances maxActiveLeases history).leases.lookup a = some l)
    (hactive : l.active = true)
    (hexpired : ∀ op' ∈ op :: later, op'.event.pubkey = a.1 → l.expiresAt ≤ epochSeconds op'.now)
    (hauthor : op.event.pubkey = a.1) :
    (op.apply maxActiveLeases (runAcceptances maxActiveLeases (history ++ later))).1 ≠
        .ok .accepted ∧
      (runAcceptances maxActiveLeases (history ++ later)).leases.lookup a = some l := by
  obtain ⟨hop, hlater⟩ := List.forall_mem_cons.mp hexpired
  have hrun : runAcceptances maxActiveLeases (history ++ later) =
      (runAcceptances maxActiveLeases history).accept maxActiveLeases later := List.foldl_append
  have hsound := (Tables.sound_empty maxActiveLeases).accept history
  obtain ⟨hchecked, hl'⟩ := hsound.checked.accept_expired hl hactive hlater
  rw [hrun]
  exact ⟨(hchecked.apply_expired hl' hactive op hop).2 hauthor, hl'⟩

/-- The phone of an author activates its lease, which expires at 100 seconds. -/
def phoneActivation (now : ℤ) (id : EventId) (generation : ℤ) : Acceptance :=
  ⟨now, ⟨id, 1, 10⟩, "phone".toList, generation, 100,
    some ⟨"ios".toList, 1, "grant".toList, "default".toList, .null⟩⟩

theorem expired_author_refused_renewal : ((phoneActivation 200000000 3 2).apply 1
    (runAcceptances 1 [phoneActivation 0 5 1])).1 ≠ .ok .accepted :=
  (expired_author_refused 1 [phoneActivation 0 5 1] [] (phoneActivation 200000000 3 2)
    (a := (1, "phone".toList)) (l := (phoneActivation 0 5 1).lease) rfl rfl (by decide) rfl).1

/-- An installation that is revoked and comes back with a lower event id at the same time. -/
example :
    let lease : ActiveLease := ⟨"ios".toList, 1, "grant".toList, "default".toList, .null⟩
    let activate (id : EventId) (generation : ℤ) : Acceptance :=
      ⟨0, ⟨id, 1, 10⟩, "phone".toList, generation, 100, some lease⟩
    let revoke : Acceptance := ⟨0, ⟨4, 1, 10⟩, "phone".toList, 2, 100, none⟩
    ((activate 3 3).apply 1 (runAcceptances 1 [activate 5 1, revoke])).1 = .ok .accepted ∧
      ((activate 5 1).apply 1 (runAcceptances 1 [activate 5 1, revoke])).1 = .ok .staleEvent := by
  decide

end Buzz.Db.Push
