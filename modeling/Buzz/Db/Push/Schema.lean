import Mathlib.Data.BitVec
import Buzz.Core.Filter
import Buzz.Library.FixedWidth
import Buzz.Library.Json
import Buzz.Library.Table

/-!
# The push tables of a community

The tables behind push notifications, from the migrations of the relay: the leases of installations,
the events, the queue of events to be matched, and the outbox of wakes. All of them are keyed by the
community first, so the tables here are those of one community.

Times are microseconds. Event ids, public keys and endpoint hashes are 32 bytes, whose order is that
of numbers.

## Main definitions

* `Lease`, `StoredEvent`, `MatchJob`, `Wake`, `Tables`.
* `Lease.check`: the constraints of a lease row.
* `Tables.updateLeases`, `Tables.upsertLease`, `Tables.insertEvent`, `Tables.backfillPushMatchJobs`.

## Main results

* `Tables.updateLeases_eq_ok`, `Tables.upsertLease_eq_ok`, `Tables.insertEvent_eq_ok`: what a
  statement that succeeds has found, and what it writes.
-/

namespace Buzz.Db.Push

open Buzz.Library
open Buzz.Core (Uuid)

/-! ### Rows -/

abbrev EventId := BitVec 256

abbrev PublicKey := BitVec 256

/-- A SHA-256 of a platform endpoint. -/
abbrev EndpointHash := BitVec 256

/-- An author's installation. -/
abbrev Address := PublicKey × List Char

/-- A row of `push_leases`. -/
structure Lease where
  sourceEventId : EventId
  sourceCreatedAt : ℤ
  generation : ℤ
  active : Bool
  endpointEnabled : Bool
  appProfile : Option (List Char)
  endpointHash : Option EndpointHash
  endpointGrant : Option (List Char)
  maxClass : Option (List Char)
  subscriptions : Option Json
  expiresAt : ℤ

/-- A row of `events`, under its creation time and id. -/
structure StoredEvent where
  pubkey : PublicKey
  kind : ℕ
  dTag : Option (List Char)
  channelId : Option Uuid
  receivedAt : ℤ
  deletedAt : Option ℤ

inductive MatchState
  | pending
  | matching
  deriving DecidableEq

/-- A row of `push_match_queue`, under its event. -/
structure MatchJob where
  state : MatchState
  attempts : ℕ
  nextAttemptAt : ℤ
  leaseUntil : Option ℤ
  claimId : Option Uuid
  createdAt : ℤ

inductive WakeState
  | pending
  | sending
  | delivered
  | failed
  deriving DecidableEq

/-- A row of `push_wake_outbox`, under its id. -/
structure Wake where
  author : PublicKey
  installationId : List Char
  leaseGeneration : ℤ
  endpointHash : EndpointHash
  eventId : EventId
  class' : List Char
  expiresAt : ℤ
  state : WakeState
  attempts : ℕ
  nextAttemptAt : ℤ
  leaseUntil : Option ℤ
  claimId : Option Uuid
  createdAt : ℤ

structure Tables where
  leases : HashMap Address Lease
  events : HashMap (ℤ × EventId) StoredEvent
  matchQueue : HashMap EventId MatchJob
  outbox : HashMap Uuid Wake

def Tables.empty : Tables := ⟨∅, ∅, ∅, ∅⟩

/-! ### Errors and constraints -/

/-- An error of a statement: one of the database, with its code and its constraint, a column that
cannot be read, a creation time out of the range of dates, or data that should not be there. -/
inductive DbError
  | database (code constraint : List Char)
  | columnDecode (column : List Char)
  | invalidTimestamp (secs : ℤ)
  | invalidData (reason : List Char)
  deriving DecidableEq

/-- `EXTRACT(EPOCH FROM now())::bigint`, which rounds to the nearest second. -/
def epochSeconds (now : ℤ) : ℤ :=
  if 0 ≤ now then (now + 500000) / 1000000 else -((-now + 500000) / 1000000)

/-- `DateTime::from_timestamp` of whole seconds. -/
def fromTimestamp (secs : ℤ) : Except DbError ℤ :=
  if -8334601228800 ≤ secs ∧ secs ≤ 8210266876799 then .ok (secs * 1000000)
  else .error (.invalidTimestamp secs)

def maxClasses : List (List Char) :=
  ["silent".toList, "default".toList, "time_sensitive".toList, "urgent".toList]

namespace Lease

/-- The endpoint of a lease is there if it is active, and gone if it is not. -/
def endpointCheck (l : Lease) : Bool :=
  if l.active then
    l.appProfile.isSome && l.endpointHash.isSome && l.endpointGrant.isSome && l.maxClass.isSome &&
      l.subscriptions.isSome
  else
    l.appProfile.isNone && l.endpointHash.isNone && l.endpointGrant.isNone && l.maxClass.isNone &&
      l.subscriptions.isNone

/-- The `CHECK` constraints of a row. -/
def check (installationId : List Char) (l : Lease) : Bool :=
  decide (1 ≤ (utf8 installationId).length ∧ (utf8 installationId).length ≤ 64) &&
    decide (0 < l.generation) && l.maxClass.all (fun c => decide (c ∈ maxClasses)) &&
    l.endpointCheck

/-- The constraint that a row is reported to violate, the first by name. -/
def violatedCheck (installationId : List Char) (l : Lease) : List Char :=
  if l.endpointCheck = false then "push_leases_check".toList
  else if l.generation ≤ 0 then "push_leases_generation_check".toList
  else if (utf8 installationId).length < 1 ∨ 64 < (utf8 installationId).length then
    "push_leases_installation_id_check".toList
  else "push_leases_max_class_check".toList

/-- The lease is one that events are matched against. -/
def eligible (now : ℤ) (l : Lease) : Bool :=
  l.active && l.endpointEnabled && decide (epochSeconds now < l.expiresAt)

end Lease

/-! ### Statements -/

/-- The kinds of events that wake an installation. -/
def pushKinds : List ℕ := [7, 9, 1059, 40007, 46010]

/-- How far back an activation looks for events that no lease was there for, in microseconds. -/
def pushGateBackfill : ℤ := 120 * 1000000

/-- An event that an activation gives a match job to. -/
def StoredEvent.backfilled (now : ℤ) (e : StoredEvent) : Bool :=
  decide (e.kind ∈ pushKinds) && e.deletedAt.isNone &&
    decide (now - pushGateBackfill < e.receivedAt)

/-- A new match job. -/
def MatchJob.new (now : ℤ) : MatchJob := ⟨.pending, 0, now, none, none, now⟩

namespace Tables

/-- The constraints of the leases hold. -/
def Checked (t : Tables) : Prop := ∀ a l, t.leases.lookup a = some l → l.check a.2 = true

/-- Update the leases that satisfy `p`; the constraints are checked on every updated row. -/
def updateLeases (p : Address → Lease → Bool) (f : Lease → Lease) (t : Tables) :
    Except DbError Tables :=
  if Table.existsWhere (fun a l => p a l && !(f l).check a.2) t.leases then
    .error (.database "23514".toList "push_leases_check".toList)
  else .ok { t with leases := Table.updateWhere p f t.leases }

/-- Write the lease of an address, in place of the one it has. -/
def upsertLease (address : Address) (l : Lease) (t : Tables) : Except DbError Tables :=
  if l.check address.2 = false then
    .error (.database "23514".toList (l.violatedCheck address.2))
  else if Table.existsWhere
      (fun a l' => decide (a ≠ address) && decide (l'.sourceEventId = l.sourceEventId))
      t.leases then
    .error (.database "23505".toList "push_leases_community_id_source_event_id_key".toList)
  else if Table.existsWhere
      (fun a l' => decide (a ≠ address) && decide (a.1 = address.1) && l.active && l'.active &&
        decide (l'.appProfile = l.appProfile) && decide (l'.endpointHash = l.endpointHash))
      t.leases then
    .error (.database "23505".toList "push_leases_endpoint_unique".toList)
  else .ok { t with leases := t.leases.insert address l }

/-- `enqueue_push_match_job`: the trigger of an inserted event. -/
def enqueuePushMatchJob (now : ℤ) (id : EventId) (kind : ℕ) (t : Tables) : Tables :=
  if kind ∈ pushKinds ∧ Table.existsWhere (fun _ l => l.eligible now) t.leases then
    { t with matchQueue := Table.insertNew t.matchQueue id (.new now) }
  else t

/-- Insert an event. -/
def insertEvent (now : ℤ) (key : ℤ × EventId) (event : StoredEvent) (t : Tables) :
    Except DbError Tables :=
  match t.events.lookup key with
  | some _ => .error (.database "23505".toList "events_pkey".toList)
  | none =>
    .ok ({ t with events := t.events.insert key event }.enqueuePushMatchJob now key.2 event.kind)

/-- Enqueue match jobs for the recent events. -/
def backfillPushMatchJobs (now : ℤ) (t : Tables) : Tables :=
  { t with
    matchQueue := (t.events.entries.filter fun e => e.2.backfilled now).foldl
      (fun queue e => Table.insertNew queue e.1.2 (.new now)) t.matchQueue }

/-! ### Time -/

end Tables

/-- The seconds of a clock that does not go back do not go back. -/
theorem epochSeconds_mono {now now' : ℤ} (h : now ≤ now') :
    epochSeconds now ≤ epochSeconds now' := by
  unfold epochSeconds
  split_ifs <;> omega

/-- A lease that is eligible was so before. -/
theorem Lease.eligible_anti {now now' : ℤ} {l : Lease} (h : now ≤ now')
    (heligible : l.eligible now' = true) : l.eligible now = true := by
  simp only [eligible, Bool.and_eq_true, decide_eq_true_eq] at heligible ⊢
  exact ⟨heligible.1, (epochSeconds_mono h).trans_lt heligible.2⟩

namespace Tables

/-! ### What the statements do -/

theorem updateLeases_eq_ok {p : Address → Lease → Bool} {f : Lease → Lease} {t t' : Tables}
    (h : t.updateLeases p f = .ok t') :
    (∀ a l, t.leases.lookup a = some l → p a l = true → (f l).check a.2 = true) ∧
      t' = { t with leases := Table.updateWhere p f t.leases } := by
  unfold updateLeases at h
  split_ifs at h with hcheck
  refine ⟨fun a l hl hp => ?_, (Except.ok.inj h).symm⟩
  by_contra hfail
  refine hcheck (Table.existsWhere_iff.mpr ⟨a, l, hl, ?_⟩)
  simpa [hp] using hfail

theorem upsertLease_eq_ok {address : Address} {l : Lease} {t t' : Tables}
    (h : t.upsertLease address l = .ok t') :
    l.check address.2 = true ∧
      (∀ a l', t.leases.lookup a = some l' → a ≠ address → l'.sourceEventId ≠ l.sourceEventId) ∧
      (∀ a l', t.leases.lookup a = some l' → a ≠ address → a.1 = address.1 → l.active = true →
        l'.active = true → l'.appProfile = l.appProfile → l'.endpointHash ≠ l.endpointHash) ∧
      t' = { t with leases := t.leases.insert address l } := by
  unfold upsertLease at h
  split_ifs at h with hcheck hsource hendpoint
  refine ⟨by simpa using hcheck, fun a l' hl' hne heq => ?_,
    fun a l' hl' hne hauthor hactive hactive' hprofile heq => ?_, (Except.ok.inj h).symm⟩
  · exact hsource (Table.existsWhere_iff.mpr ⟨a, l', hl', by simp [hne, heq]⟩)
  · refine hendpoint (Table.existsWhere_iff.mpr ⟨a, l', hl', ?_⟩)
    simp [hne, hauthor, hactive, hactive', hprofile, heq]

theorem insertEvent_eq_ok {now : ℤ} {key : ℤ × EventId} {event : StoredEvent} {t t' : Tables}
    (h : t.insertEvent now key event = .ok t') :
    t.events.lookup key = none ∧
      t' = { t with events := t.events.insert key event }.enqueuePushMatchJob now key.2
        event.kind := by
  unfold insertEvent at h
  cases hkey : t.events.lookup key with
  | some e => rw [hkey] at h; cases h
  | none =>
    rw [hkey] at h
    exact ⟨rfl, (Except.ok.inj h).symm⟩

/-- A backfill keeps the jobs there are, and leaves no recent event without one. -/
theorem lookup_backfillPushMatchJobs (now : ℤ) (t : Tables) (id : EventId) :
    (t.backfillPushMatchJobs now).matchQueue.lookup id = (t.matchQueue.lookup id).or
      (if id ∈ (t.events.entries.filter fun e => e.2.backfilled now).map fun e => e.1.2 then
        some (.new now) else none) :=
  Table.lookup_foldl_insertNew _ _ _ _ _

theorem backfillPushMatchJobs_kept {now : ℤ} {t : Tables} {id : EventId} {j : MatchJob}
    (h : t.matchQueue.lookup id = some j) :
    (t.backfillPushMatchJobs now).matchQueue.lookup id = some j := by
  rw [lookup_backfillPushMatchJobs, h]
  rfl

theorem backfillPushMatchJobs_has {now : ℤ} {t : Tables} {key : ℤ × EventId} {e : StoredEvent}
    (h : t.events.lookup key = some e) (hbackfilled : e.backfilled now = true) :
    ((t.backfillPushMatchJobs now).matchQueue.lookup key.2).isSome = true := by
  have hmem : key.2 ∈ (t.events.entries.filter fun e => e.2.backfilled now).map fun e => e.1.2 :=
    List.mem_map.mpr
      ⟨⟨key, e⟩, List.mem_filter.mpr ⟨HashMap.mem_entries_iff.mpr h, hbackfilled⟩, rfl⟩
  rw [lookup_backfillPushMatchJobs, if_pos hmem]
  cases t.matchQueue.lookup key.2 <;> rfl

theorem enqueuePushMatchJob_of_notMem {kind : ℕ} (h : kind ∉ pushKinds) (now : ℤ) (id : EventId)
    (t : Tables) : t.enqueuePushMatchJob now id kind = t :=
  if_neg fun hpush => h hpush.1

/-- The trigger writes to the queue only. -/
theorem enqueuePushMatchJob_frame (now : ℤ) (id : EventId) (kind : ℕ) (t : Tables) :
    t.enqueuePushMatchJob now id kind =
      { t with matchQueue := (t.enqueuePushMatchJob now id kind).matchQueue } := by
  unfold enqueuePushMatchJob
  split_ifs <;> rfl

/-- Where there is an eligible lease, the event has a job after the trigger. -/
theorem enqueuePushMatchJob_has {now : ℤ} {id : EventId} {kind : ℕ} {t : Tables}
    (hkind : kind ∈ pushKinds) {a : Address} {l : Lease} (hl : t.leases.lookup a = some l)
    (heligible : l.eligible now = true) :
    ((t.enqueuePushMatchJob now id kind).matchQueue.lookup id).isSome = true := by
  have hexists : Table.existsWhere (fun _ l => l.eligible now) t.leases = true :=
    Table.existsWhere_iff.mpr ⟨a, l, hl, heligible⟩
  rw [enqueuePushMatchJob, if_pos ⟨hkind, hexists⟩, Table.lookup_insertNew, if_pos rfl]
  rfl

end Tables

end Buzz.Db.Push
