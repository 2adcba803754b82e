import Buzz.Db.Push.Schema
import Buzz.Library.Outcome

/-!
# The acceptance of push leases

`accept_lease_event` of `crates/buzz-db/src/push.rs` stores one lease event and makes it the
effective lease of its address. An event has to win against the lease that the address has twice, in
the order of addressable events and in its generation. An activation has to keep to a quota, and to
endpoints that no other installation of the author uses. The whole is one transaction: what does not
come to its end leaves no trace.

The advisory locks make the acceptances of one community happen one after another, so an acceptance
is one step here. Signatures and policy are checked before.

## Main definitions

* `LeaseEvent`, `LeaseVersion`, `ActiveLease`, `AcceptLeaseOutcome`.
* `acceptLeaseEvent`: the transaction, statement by statement.
* `Accepted`: what it takes to be accepted, and what is written.

## Main results

* `acceptTx_eq_ok`, `acceptLeaseEvent_cases`: a call is accepted, or changes nothing.
* `expired_lease_blocks`: no event of an author with an expired lease is accepted.
-/

namespace Buzz.Db.Push

open Buzz.Library

/-! ### The transaction -/

/-- What is used of a signed event of kind 30350. -/
structure LeaseEvent where
  id : EventId
  pubkey : PublicKey
  createdAt : ℕ

/-- The ordering fields of a lease replacement. -/
structure LeaseVersion where
  sourceEventId : EventId
  sourceCreatedAt : ℤ
  generation : ℤ
  expiresAt : ℤ

/-- The effective fields of an active lease. -/
structure ActiveLease where
  appProfile : List Char
  endpointHash : EndpointHash
  endpointGrant : List Char
  maxClass : List Char
  subscriptions : Json

inductive AcceptLeaseOutcome
  | accepted
  | staleEvent
  | staleGeneration
  | endpointAlreadyLeased
  | leaseQuotaExceeded
  | sourceEventCollision
  | constraintViolation
  deriving DecidableEq

/-- How a transaction ends early, with nothing written. -/
inductive Exit
  | rollback (outcome : AcceptLeaseOutcome)
  | error (e : DbError)
  deriving DecidableEq

/-- The outcome that a violated constraint stands for. -/
def constraintAcceptanceOutcome : DbError → Option AcceptLeaseOutcome
  | .database code constraint =>
    if code = "23505".toList ∧ constraint = "push_leases_endpoint_unique".toList then
      some .endpointAlreadyLeased
    else if code = "23505".toList ∧
        constraint = "push_leases_community_id_source_event_id_key".toList then
      some .sourceEventCollision
    else if "23".toList.isPrefixOf code then some .constraintViolation
    else none
  | _ => none

/-- A statement whose violated constraints are outcomes. -/
def orOutcome : Except DbError Tables → Except Exit Tables
  | .ok t => .ok t
  | .error e =>
    match constraintAcceptanceOutcome e with
    | some outcome => .error (.rollback outcome)
    | none => .error (.error e)

/-- A statement whose errors end the call. -/
def orError {α : Type} : Except DbError α → Except Exit α
  | .ok a => .ok a
  | .error e => .error (.error e)

/-- The order of addressable events: the later one wins, and of two at one time the lower id. -/
def LeaseVersion.winsEvent (version : LeaseVersion) (current : Lease) : Bool :=
  decide (current.sourceCreatedAt < version.sourceCreatedAt) ||
    (decide (version.sourceCreatedAt = current.sourceCreatedAt) &&
      decide (version.sourceEventId < current.sourceEventId))

/-- The event of a lease that is stored and not deleted. -/
def StoredEvent.liveLease (address : Address) (e : StoredEvent) : Bool :=
  decide (e.kind = 30350) && decide (e.pubkey = address.1) &&
    decide (e.dTag = some address.2) && e.deletedAt.isNone

namespace Tables

/-- No lease has this source event yet. -/
def checkSourceEvent (address : Address) (version : LeaseVersion) (t : Tables) :
    Except Exit Unit :=
  match t.leases.entries.find? fun e => e.2.sourceEventId = version.sourceEventId with
  | some e =>
    if e.1 ≠ address then .error (.rollback .sourceEventCollision)
    else .error (.rollback .staleEvent)
  | none => .ok ()

/-- The event wins against the current lease in both orders. -/
def checkOrder (address : Address) (version : LeaseVersion) (t : Tables) : Except Exit Unit :=
  match t.leases.lookup address with
  | some current =>
    if version.winsEvent current = false then .error (.rollback .staleEvent)
    else if version.generation ≤ current.generation then .error (.rollback .staleGeneration)
    else .ok ()
  | none => .ok ()

/-- Deactivate the expired leases of an author. -/
def sweepExpired (now : ℤ) (author : PublicKey) (t : Tables) : Except DbError Tables :=
  t.updateLeases
    (fun a l => decide (a.1 = author) && l.active && decide (l.expiresAt ≤ epochSeconds now))
    fun l => { l with active := false, endpointEnabled := false }

/-- The quota of an author's active leases, and the endpoint of a new one. A revocation needs
neither. -/
def checkActive (address : Address) (maxActiveLeases : ℤ) (active : Option ActiveLease)
    (t : Tables) : Except Exit Unit :=
  match active with
  | none => .ok ()
  | some active =>
    let activeCount := Table.countWhere
      (fun a l => decide (a.1 = address.1) && l.active && decide (a.2 ≠ address.2)) t.leases
    let duplicate := Table.existsWhere
      (fun a l => decide (a.1 = address.1) && decide (a.2 ≠ address.2) && l.active &&
        decide (l.appProfile = some active.appProfile) &&
        decide (l.endpointHash = some active.endpointHash)) t.leases
    if maxActiveLeases ≤ activeCount then .error (.rollback .leaseQuotaExceeded)
    else if duplicate then .error (.rollback .endpointAlreadyLeased)
    else .ok ()

/-- Delete the live lease events of an address. -/
def retireEvents (now : ℤ) (address : Address) (t : Tables) : Tables :=
  { t with
    events := Table.updateWhere (fun _ e => e.liveLease address)
      (fun e => { e with deletedAt := some now }) t.events }

end Tables

/-- The row of a new lease. -/
def newLease (version : LeaseVersion) (active : Option ActiveLease) : Lease where
  sourceEventId := version.sourceEventId
  sourceCreatedAt := version.sourceCreatedAt
  generation := version.generation
  active := active.isSome
  endpointEnabled := true
  appProfile := active.map ActiveLease.appProfile
  endpointHash := active.map ActiveLease.endpointHash
  endpointGrant := active.map ActiveLease.endpointGrant
  maxClass := active.map ActiveLease.maxClass
  subscriptions := active.map ActiveLease.subscriptions
  expiresAt := version.expiresAt

/-- The statements of an acceptance. -/
def acceptTx (now : ℤ) (event : LeaseEvent) (installationId : List Char) (version : LeaseVersion)
    (active : Option ActiveLease) (maxActiveLeases : ℤ) (t : Tables) : Except Exit Tables := do
  let address := (event.pubkey, installationId)
  t.checkSourceEvent address version
  t.checkOrder address version
  let t ← orError (t.sweepExpired now event.pubkey)
  t.checkActive address maxActiveLeases active
  let t := t.retireEvents now address
  let createdAt ← orError (fromTimestamp version.sourceCreatedAt)
  let t ← orOutcome (t.insertEvent now (createdAt, event.id)
    ⟨event.pubkey, 30350, some installationId, none, now, none⟩)
  let t ← orOutcome (t.upsertLease address (newLease version active))
  return if active.isSome then t.backfillPushMatchJobs now else t

/-- Persist one lease event and its effective lease. Whatever ends early is rolled back. -/
def acceptLeaseEvent (now : ℤ) (event : LeaseEvent) (installationId : List Char)
    (version : LeaseVersion) (active : Option ActiveLease) (maxActiveLeases : ℤ) (t : Tables) :
    Except DbError AcceptLeaseOutcome × Tables :=
  match acceptTx now event installationId version active maxActiveLeases t with
  | .ok t' => (.ok .accepted, t')
  | .error (.rollback outcome) => (.ok outcome, t)
  | .error (.error e) => (.error e, t)

/-! ### What the statements find -/

theorem orOutcome_eq_ok {x : Except DbError Tables} {t : Tables} :
    orOutcome x = .ok t ↔ x = .ok t := by
  cases x with
  | ok t' => simp [orOutcome]
  | error e =>
    simp only [orOutcome]
    cases constraintAcceptanceOutcome e <;> simp

theorem orError_eq_ok {α : Type} {x : Except DbError α} {a : α} :
    orError x = .ok a ↔ x = .ok a := by
  cases x <;> simp [orError]

theorem orError_ne_rollback {α : Type} (x : Except DbError α) (outcome : AcceptLeaseOutcome) :
    orError x ≠ .error (.rollback outcome) := by
  cases x <;> nofun

theorem orOutcome_ne_accepted (x : Except DbError Tables) :
    orOutcome x ≠ .error (.rollback .accepted) := by
  cases x with
  | ok t => nofun
  | error e =>
    cases e with
    | database code constraint =>
      simp only [orOutcome, constraintAcceptanceOutcome]
      split_ifs <;> nofun
    | columnDecode column => nofun
    | invalidTimestamp secs => nofun
    | invalidData reason => nofun

namespace Tables

variable {t t' : Tables} {address : Address} {version : LeaseVersion}

theorem checkSourceEvent_ne_accepted (t : Tables) (address : Address) (version : LeaseVersion) :
    t.checkSourceEvent address version ≠ .error (.rollback .accepted) := by
  unfold checkSourceEvent
  split
  · split_ifs <;> nofun
  · nofun

theorem checkOrder_eq_ok (h : t.checkOrder address version = .ok ()) {current : Lease}
    (hcurrent : t.leases.lookup address = some current) :
    version.winsEvent current = true ∧ current.generation < version.generation := by
  unfold checkOrder at h
  rw [hcurrent] at h
  dsimp only at h
  split_ifs at h with hwins hgeneration
  exact ⟨by simpa using hwins, not_le.mp hgeneration⟩

theorem checkOrder_ne_accepted (t : Tables) (address : Address) (version : LeaseVersion) :
    t.checkOrder address version ≠ .error (.rollback .accepted) := by
  unfold checkOrder
  split
  · split_ifs <;> nofun
  · nofun

/-- The sweep never deactivates a lease: a row that is not active must have no endpoint. -/
theorem sweepExpired_eq_ok {now : ℤ} {author : PublicKey}
    (hchecked : t.Checked)
    (h : t.sweepExpired now author = .ok t') :
    t' = t ∧ ∀ a l, t.leases.lookup a = some l → a.1 = author → l.active = true →
      epochSeconds now < l.expiresAt := by
  obtain ⟨hcheck, rfl⟩ := updateLeases_eq_ok h
  have hlive : ∀ a l, t.leases.lookup a = some l → a.1 = author → l.active = true →
      epochSeconds now < l.expiresAt := by
    intro a l hl hauthor hactive
    by_contra hexpired
    have hbefore := hchecked a l hl
    have hafter := hcheck a l hl (by simpa [hauthor, hactive] using hexpired)
    simp only [Lease.check, Lease.endpointCheck, Bool.and_eq_true, hactive, if_true] at hbefore
    simp only [Lease.check, Lease.endpointCheck, Bool.and_eq_true, Bool.false_eq_true,
      if_false] at hafter
    have hsome := hbefore.2.1.1.1.1
    have hnone := hafter.2.1.1.1.1
    cases hprofile : l.appProfile <;> simp [hprofile] at hsome hnone
  refine ⟨?_, hlive⟩
  have hsame := Table.updateWhere_eq_self
    (p := fun a (l : Lease) =>
      decide (a.1 = author) && l.active && decide (l.expiresAt ≤ epochSeconds now))
    (f := fun l => { l with active := false, endpointEnabled := false }) (m := t.leases) ?_
  · rw [hsame]
  · intro a l hl
    by_cases hauthor : a.1 = author
    · cases hactive : l.active with
      | false => simp
      | true => simpa [hauthor] using hlive a l hl hauthor hactive
    · simp [hauthor]

theorem checkActive_eq_ok {maxActiveLeases : ℤ} {active : Option ActiveLease}
    (h : t.checkActive address maxActiveLeases active = .ok ()) (hactive : active.isSome = true) :
    (Table.countWhere
      (fun a l => decide (a.1 = address.1) && l.active && decide (a.2 ≠ address.2))
      t.leases : ℤ) < maxActiveLeases := by
  cases active with
  | none => cases hactive
  | some active =>
    unfold checkActive at h
    dsimp only at h
    split_ifs at h with hquota
    exact not_le.mp hquota

theorem checkActive_ne_accepted (t : Tables) (address : Address) (maxActiveLeases : ℤ)
    (active : Option ActiveLease) :
    t.checkActive address maxActiveLeases active ≠ .error (.rollback .accepted) := by
  unfold checkActive
  split
  · nofun
  · dsimp only
    split_ifs <;> nofun

end Tables

/-- What it took to be accepted, and what is written. -/
structure Accepted (now : ℤ) (event : LeaseEvent) (installationId : List Char)
    (version : LeaseVersion) (active : Option ActiveLease) (maxActiveLeases : ℤ) (t t' : Tables) :
    Prop where
  wins : ∀ current, t.leases.lookup (event.pubkey, installationId) = some current →
    version.winsEvent current = true ∧ current.generation < version.generation
  unexpired : ∀ a l, t.leases.lookup a = some l → a.1 = event.pubkey → l.active = true →
    epochSeconds now < l.expiresAt
  quota : active.isSome = true → (Table.countWhere (fun a l =>
    decide (a.1 = event.pubkey) && l.active && decide (a.2 ≠ installationId)) t.leases : ℤ) <
      maxActiveLeases
  check : (newLease version active).check installationId = true
  endpoint : ∀ a l, t.leases.lookup a = some l → a ≠ (event.pubkey, installationId) →
    a.1 = event.pubkey → active.isSome = true → l.active = true →
    l.appProfile = (newLease version active).appProfile →
    l.endpointHash ≠ (newLease version active).endpointHash
  leases : t'.leases =
    t.leases.insert (event.pubkey, installationId) (newLease version active)
  fresh : t.events.lookup (version.sourceCreatedAt * 1000000, event.id) = none
  events : t'.events = (t.retireEvents now (event.pubkey, installationId)).events.insert
    (version.sourceCreatedAt * 1000000, event.id)
    ⟨event.pubkey, 30350, some installationId, none, now, none⟩
  outbox : t'.outbox = t.outbox
  kept : ∀ id j, t.matchQueue.lookup id = some j → t'.matchQueue.lookup id = some j
  backfilled : active.isSome = true → ∀ key e, t'.events.lookup key = some e →
    e.backfilled now = true → (t'.matchQueue.lookup key.2).isSome = true

theorem acceptTx_eq_ok {now : ℤ} {event : LeaseEvent} {installationId : List Char}
    {version : LeaseVersion} {active : Option ActiveLease} {maxActiveLeases : ℤ} {t t' : Tables}
    (hchecked : t.Checked)
    (h : acceptTx now event installationId version active maxActiveLeases t = .ok t') :
    Accepted now event installationId version active maxActiveLeases t t' := by
  unfold acceptTx at h
  simp only [bind_eq_ok, orError_eq_ok, orOutcome_eq_ok] at h
  obtain ⟨⟨⟩, -, ⟨⟩, horder, swept, hsweep, ⟨⟩, hactive, createdAt, htime, stored, hinsert, written,
    hupsert, hreturn⟩ := h
  obtain ⟨hswept, hunexpired⟩ := Tables.sweepExpired_eq_ok hchecked hsweep
  subst swept
  obtain ⟨hfree, hstored⟩ := Tables.insertEvent_eq_ok hinsert
  have hkind : 30350 ∉ pushKinds := by decide
  rw [Tables.enqueuePushMatchJob_of_notMem hkind] at hstored
  obtain ⟨hcheck, -, hendpoint, hwritten⟩ := Tables.upsertLease_eq_ok hupsert
  have hcreatedAt : createdAt = version.sourceCreatedAt * 1000000 := by
    unfold fromTimestamp at htime
    split_ifs at htime
    exact (Except.ok.inj htime).symm
  obtain ⟨htl, hte, hto⟩ : t'.leases = written.leases ∧ t'.events = written.events ∧
      t'.outbox = written.outbox := by
    obtain rfl := Except.ok.inj hreturn
    split_ifs <;> exact ⟨rfl, rfl, rfl⟩
  have hleases : stored.leases = t.leases := by rw [hstored]; rfl
  have hevents : stored.events = (t.retireEvents now (event.pubkey, installationId)).events.insert
      (createdAt, event.id) ⟨event.pubkey, 30350, some installationId, none, now, none⟩ := by
    rw [hstored]
  have hquota := Tables.checkActive_eq_ok hactive
  rw [hleases] at hendpoint
  rw [Tables.retireEvents, Table.lookup_updateWhere, Option.map_eq_none_iff, hcreatedAt] at hfree
  have hqueue : written.matchQueue = t.matchQueue := by rw [hwritten, hstored]; rfl
  refine ⟨?_, hunexpired, hquota, hcheck, ?_, ?_, hfree, ?_, ?_, ?_, ?_⟩
  · exact fun current hcurrent => Tables.checkOrder_eq_ok horder hcurrent
  · exact fun a l hl hne hauthor hsome => hendpoint a l hl hne hauthor hsome
  · rw [htl, hwritten, hleases]
  · rw [hte, hwritten, hevents, hcreatedAt]
  · rw [hto, hwritten, hstored]
    rfl
  · intro id j hj
    rw [← hqueue] at hj
    obtain rfl := Except.ok.inj hreturn
    split_ifs
    · exact Tables.backfillPushMatchJobs_kept hj
    · exact hj
  · intro hsome key e he hbackfilled
    rw [hte] at he
    obtain rfl := Except.ok.inj hreturn
    rw [if_pos hsome]
    exact Tables.backfillPushMatchJobs_has he hbackfilled

/-- A transaction that is rolled back is not accepted. -/
theorem acceptTx_ne_rollback_accepted (now : ℤ) (event : LeaseEvent) (installationId : List Char)
    (version : LeaseVersion) (active : Option ActiveLease) (maxActiveLeases : ℤ) (t : Tables) :
    acceptTx now event installationId version active maxActiveLeases t ≠
      .error (.rollback .accepted) := by
  unfold acceptTx
  refine bind_ne_error (t.checkSourceEvent_ne_accepted _ _) fun _ => ?_
  refine bind_ne_error (t.checkOrder_ne_accepted _ _) fun _ => ?_
  refine bind_ne_error (orError_ne_rollback _ _) fun t => ?_
  refine bind_ne_error (t.checkActive_ne_accepted _ _ _) fun _ => ?_
  refine bind_ne_error (orError_ne_rollback _ _) fun _ => ?_
  refine bind_ne_error (orOutcome_ne_accepted _) fun _ => ?_
  exact bind_ne_error (orOutcome_ne_accepted _) fun _ => nofun

/-- A call is accepted with its transaction, or changes nothing. -/
theorem acceptLeaseEvent_cases (now : ℤ) (event : LeaseEvent) (installationId : List Char)
    (version : LeaseVersion) (active : Option ActiveLease) (maxActiveLeases : ℤ) (t : Tables) :
    let result := acceptLeaseEvent now event installationId version active maxActiveLeases t
    (result.1 = .ok .accepted ∧
        acceptTx now event installationId version active maxActiveLeases t = .ok result.2) ∨
      (result.1 ≠ .ok .accepted ∧ result.2 = t) := by
  intro result
  simp only [result, acceptLeaseEvent]
  cases htx : acceptTx now event installationId version active maxActiveLeases t with
  | ok t' => exact .inl ⟨rfl, rfl⟩
  | error exit =>
    refine .inr ?_
    cases exit with
    | rollback outcome =>
      refine ⟨fun haccepted => ?_, rfl⟩
      obtain rfl : outcome = .accepted := Except.ok.inj haccepted
      exact acceptTx_ne_rollback_accepted _ _ _ _ _ _ _ htx
    | error e => exact ⟨nofun, rfl⟩

/-- The event of an author one of whose active leases has expired is not accepted. -/
theorem expired_lease_blocks {now : ℤ} {event : LeaseEvent} {installationId : List Char}
    {version : LeaseVersion} {active : Option ActiveLease} {maxActiveLeases : ℤ} {t : Tables}
    (hchecked : t.Checked) {a : Address} {l : Lease}
    (hl : t.leases.lookup a = some l) (hauthor : a.1 = event.pubkey) (hactive : l.active = true)
    (hexpired : l.expiresAt ≤ epochSeconds now) :
    (acceptLeaseEvent now event installationId version active maxActiveLeases t).1 ≠
      .ok .accepted := by
  intro haccepted
  obtain ⟨-, htx⟩ | ⟨hne, -⟩ := acceptLeaseEvent_cases now event installationId version active
    maxActiveLeases t
  · exact not_lt.mpr hexpired ((acceptTx_eq_ok hchecked htx).unexpired a l hl hauthor hactive)
  · exact hne haccepted

end Buzz.Db.Push
