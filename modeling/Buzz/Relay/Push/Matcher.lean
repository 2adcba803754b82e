import Mathlib.Logic.Function.Basic
import Mathlib.Logic.Relation
import Buzz.Db.Push.Acceptance
import Buzz.Db.Push.MatchQueue

/-!
# Matchers and lease rotations

`process_match_batch` of `crates/buzz-relay/src/push_runtime.rs` claims a batch of events, reads
the active leases, matches the events against them, enqueues the wakes, and completes the batch. A
lease that is rotated between the read and the enqueue is not in the generation that was read, and
its wakes are not enqueued. The backfill of the rotation was to find the event, but the event still
has its job in the queue, which the matcher then completes.

One address is watched, and one event that its leases match. What a lease is matched by, the
authorization, the membership and the subscriptions, is a parameter.

## Main definitions

* `matchJob`: the wakes of an event.
* `Watched`, `Matching`, `Step`: the watched address and event, the matchers beside the tables, and
  their steps.
* `Safe`: the event has a job or a wake.
* `Current`, `CurrentRun`: the enqueues in the generation that the address still has.

## Main results

* `Inv.step`: the invariant along a step.
* `rotation_keeps_wake`: in a run of such enqueues no wake is lost.
* `rotation_loses_wake`: a wake that is lost.
-/

namespace Buzz.Relay.Push.Matcher

open Buzz.Library
open Buzz.Core (Uuid)
open Buzz.Db.Push
open Relation (ReflTransGen)

/-! ### Matching -/

/-- How long an event is worth a wake, in seconds. -/
def eventUsefulSecs : ℤ := 3600

/-- The deadline of a wake. -/
def wakeExpiresAt (job : BatchedMatch) (l : MatchLease) : ℤ :=
  min l.expiresAt (job.createdAt / 1000000 + eventUsefulSecs)

/-- The wakes that an event owes. `wakeClass` is the highest class of the subscriptions of a lease
that match the event, if its author may read it. -/
def matchJob (wakeClass : EventId → MatchLease → Option (List Char)) (now : ℤ)
    (leases : List MatchLease) (job : BatchedMatch) : List WakeRequest :=
  leases.filterMap fun l =>
    match wakeClass job.eventId l with
    | none => none
    | some c =>
      if wakeExpiresAt job l ≤ now / 1000000 then none
      else some ⟨l.author, l.installationId, l.generation, job.eventId, c, wakeExpiresAt job l⟩

/-! ### Steps -/

/-- The address and the event that are watched, with the endpoint of the address and what matches
the event. -/
structure Watched where
  address : Address
  endpoint : EndpointHash
  event : EventId
  wakeClass : EventId → MatchLease → Option (List Char)

/-- Where a matcher is. -/
inductive Task
  | idle
  | claimed (claimId : Uuid) (jobs : List BatchedMatch)
  | matched (claimId : Uuid) (ids : List EventId) (wakes : List WakeRequest)
  | enqueued (claimId : Uuid) (ids : List EventId)

/-- The tables, the clock, the matchers, and whether the address had an active lease when the event
was inserted. -/
structure Matching where
  tables : Tables
  now : ℤ
  matchers : ℕ → Task
  owed : Bool

namespace Matching

def initial : Matching := ⟨Tables.empty, 0, fun _ => .idle, false⟩

/-- Send a matcher on. -/
def goTo (s : Matching) (n : ℕ) (task : Task) : Matching :=
  { s with matchers := Function.update s.matchers n task }

/-- The event has been inserted. -/
def inserted (s : Matching) (w : Watched) : Prop :=
  ∃ key e, s.tables.events.lookup key = some e ∧ key.2 = w.event

end Matching

/-- The acceptance is of another event, and keeps the address with an active lease on its endpoint
that matches the watched one. -/
structure Watched.Keeps (w : Watched) (now : ℤ) (op : Acceptance) : Prop where
  time : op.now = now
  event : op.event.id ≠ w.event
  active : op.address = w.address → ∃ active, op.active = some active ∧
    active.endpointHash = w.endpoint ∧ epochSeconds now < op.expiresAt ∧
    (w.wakeClass w.event ⟨op.address.1, op.address.2, op.generation, active.subscriptions,
      op.expiresAt⟩).isSome = true

inductive Label
  | enqueue (n : ℕ)
  | other

/-- The steps, without failures and expiries: the clock stops before a lease of the address or a
wake expires, and a transaction that fails is no step. -/
inductive Step (w : Watched) (maxActiveLeases : ℤ) (s : Matching) : Label → Matching → Prop
  | tick (now : ℤ) (hnow : s.now ≤ now)
      (hunexpired : ∀ l, s.tables.leases.lookup w.address = some l →
        epochSeconds now < l.expiresAt) :
      Step w maxActiveLeases s .other { s with now := now }
  | insert (createdAt : ℤ) (e : StoredEvent) (t' : Tables) (hkind : e.kind ∈ pushKinds)
      (hlive : e.deletedAt = none) (hfirst : ¬s.inserted w)
      (hinsert : s.tables.insertEvent s.now (createdAt, w.event) e = .ok t') :
      Step w maxActiveLeases s .other
        { s with
          tables := t'
          owed := (s.tables.leases.lookup w.address).any fun l => l.eligible s.now }
  | accept (op : Acceptance) (hkeeps : w.Keeps s.now op) :
      Step w maxActiveLeases s .other
        { s with tables := (op.apply maxActiveLeases s.tables).2 }
  | claim (n limit : ℕ) (claimId : Uuid) (leaseUntil : ℤ) (htask : s.matchers n = .idle) :
      Step w maxActiveLeases s .other
        (({ s with
            tables := (s.tables.claimDueMatchBatch s.now limit claimId leaseUntil).2 }).goTo n
          (.claimed claimId (s.tables.claimDueMatchBatch s.now limit claimId leaseUntil).1))
  | load (n : ℕ) (claimId : Uuid) (jobs : List BatchedMatch) (leases : List MatchLease)
      (htask : s.matchers n = .claimed claimId jobs)
      (hleases : activeMatchLeases s.now s.tables = .ok leases)
      (hunexpired : ∀ job ∈ jobs, ∀ l ∈ leases, s.now / 1000000 < wakeExpiresAt job l) :
      Step w maxActiveLeases s .other
        (s.goTo n (.matched claimId (jobs.map BatchedMatch.eventId)
          (jobs.flatMap (matchJob w.wakeClass s.now leases))))
  | enqueue (n : ℕ) (claimId : Uuid) (ids : List EventId) (wakes : List WakeRequest)
      (newIds : List Uuid) (outcomes : List EnqueueWakeOutcome)
      (htask : s.matchers n = .matched claimId ids wakes) (hids : newIds.length = wakes.length)
      (hok : (enqueueWakes s.now (wakes.zip newIds) s.tables).1 = .ok outcomes) :
      Step w maxActiveLeases s (.enqueue n)
        (({ s with tables := (enqueueWakes s.now (wakes.zip newIds) s.tables).2 }).goTo n
          (.enqueued claimId ids))
  | complete (n : ℕ) (claimId : Uuid) (ids : List EventId)
      (htask : s.matchers n = .enqueued claimId ids) :
      Step w maxActiveLeases s .other
        (({ s with tables := (s.tables.completeMatchBatch claimId ids).2 }).goTo n .idle)

/-- The states that a run leads through. -/
def Run (w : Watched) (maxActiveLeases : ℤ) : Matching → Matching → Prop :=
  ReflTransGen fun s s' => ∃ label, Step w maxActiveLeases s label s'

/-- The outbox has a wake for the endpoint and the event. -/
def Watched.Woken (w : Watched) (t : Tables) : Prop :=
  ∃ id wake, t.outbox.lookup id = some wake ∧ wake.key = (w.endpoint, w.event)

/-- An event that is owed a wake has its job or its wake. -/
def Safe (w : Watched) (s : Matching) : Prop :=
  s.owed = true → s.tables.matchQueue.lookup w.event = none → w.Woken s.tables

/-- The wakes that are enqueued are in the generation of the lease that the address has. -/
def Current (w : Watched) (s : Matching) : Label → Prop
  | .other => True
  | .enqueue n => ∀ claimId ids wakes, s.matchers n = .matched claimId ids wakes → ∀ r ∈ wakes,
      r.address = w.address → r.eventId = w.event →
      ∀ l, s.tables.leases.lookup w.address = some l → l.generation = r.leaseGeneration

/-- A run of such enqueues. -/
def CurrentRun (w : Watched) (maxActiveLeases : ℤ) : Matching → Matching → Prop :=
  ReflTransGen fun s s' => ∃ label, Step w maxActiveLeases s label s' ∧ Current w s label

theorem CurrentRun.run {w : Watched} {maxActiveLeases : ℤ} {s s' : Matching}
    (h : CurrentRun w maxActiveLeases s s') : Run w maxActiveLeases s s' :=
  ReflTransGen.mono (fun _ _ ⟨label, hstep, _⟩ => ⟨label, hstep⟩) _ _ h

/-! ### The invariant -/

/-- A lease of the address: eligible, on the endpoint, and with the event among what it matches. -/
structure Watched.Matches (w : Watched) (now : ℤ) (l : Lease) : Prop where
  eligible : l.eligible now = true
  endpoint : l.endpointHash = some w.endpoint
  matched : ∃ m, l.forMatch w.address = .ok m ∧ (w.wakeClass w.event m).isSome = true

/-- What a matcher knows that has the event in its batch. -/
def Matching.Knows (s : Matching) (w : Watched) : Task → Prop
  | .idle => True
  | .claimed _ jobs => w.event ∈ jobs.map BatchedMatch.eventId → s.inserted w
  | .matched _ ids wakes => w.event ∈ ids → s.inserted w ∧
      (s.owed = true → ∃ r ∈ wakes, r.address = w.address ∧ r.eventId = w.event)
  | .enqueued _ ids => w.event ∈ ids → s.inserted w ∧ (s.owed = true → w.Woken s.tables)

/-- What holds between steps. -/
structure Inv (w : Watched) (s : Matching) : Prop where
  checked : s.tables.Checked
  lease : ∀ l, s.tables.leases.lookup w.address = some l → w.Matches s.now l
  live : ∀ key e, s.tables.events.lookup key = some e → key.2 = w.event →
    e.deletedAt = none ∧ e.kind ∈ pushKinds
  owed : s.owed = true → s.inserted w ∧ ∃ l, s.tables.leases.lookup w.address = some l
  knows : ∀ n, s.Knows w (s.matchers n)
  safe : Safe w s

theorem inv_initial (w : Watched) : Inv w .initial where
  checked _ _ hl := by cases hl
  lease _ hl := by cases hl
  live _ _ he := by cases he
  owed howed := by cases howed
  knows _ := trivial
  safe howed := by cases howed

section

variable {w : Watched} {maxActiveLeases : ℤ} {s s' : Matching}

/-- An event that is inserted and not deleted has its entry. -/
theorem Inv.liveEntry (h : Inv w s) (hinserted : s.inserted w) :
    (s.tables.liveEntry w.event).isSome = true := by
  obtain ⟨key, e, he, hkey⟩ := hinserted
  refine List.find?_isSome.mpr ⟨⟨key, e⟩, HashMap.mem_entries_iff.mpr he, ?_⟩
  simp [hkey, (h.live key e he hkey).1]

/-- An event with an entry is inserted. -/
theorem inserted_of_liveEntry {entry : Σ _ : ℤ × EventId, StoredEvent}
    (h : s.tables.liveEntry w.event = some entry) : s.inserted w := by
  have hmem := HashMap.mem_entries_iff.mp (List.mem_of_find?_eq_some h)
  have hid := List.find?_some h
  simp only [Bool.and_eq_true, decide_eq_true_eq] at hid
  exact ⟨entry.1, entry.2, hmem, hid.1⟩

theorem Matching.Knows.mono {task : Task} (h : s.Knows w task) (howed : s'.owed = s.owed)
    (hinserted : s.inserted w → s'.inserted w) (hwoken : w.Woken s.tables → w.Woken s'.tables) :
    s'.Knows w task := by
  cases task with
  | idle => trivial
  | claimed claimId jobs => exact fun hmem => hinserted (h hmem)
  | matched claimId ids wakes =>
    intro hmem
    obtain ⟨hold, hwakes⟩ := h hmem
    exact ⟨hinserted hold, fun howed' => hwakes (howed ▸ howed')⟩
  | enqueued claimId ids =>
    intro hmem
    obtain ⟨hold, hwake⟩ := h hmem
    exact ⟨hinserted hold, fun howed' => hwoken (hwake (howed ▸ howed'))⟩

/-! ### One step -/

/-- A step of one matcher, which changes at most the queue and the outbox. -/
theorem Inv.move (h : Inv w s) {t : Tables} {n : ℕ} {task : Task}
    (hleases : t.leases = s.tables.leases) (hevents : t.events = s.tables.events)
    (hwoken : w.Woken s.tables → w.Woken t)
    (hknows : ({ s with tables := t }.goTo n task).Knows w task)
    (hsafe : Safe w { s with tables := t }) : Inv w ({ s with tables := t }.goTo n task) where
  checked a l hl := h.checked a l (hleases ▸ hl)
  lease l hl := h.lease l (hleases ▸ hl)
  live key e he := h.live key e (hevents ▸ he)
  owed howed := by
    obtain ⟨hinserted, hlease⟩ := h.owed howed
    exact ⟨by simpa [Matching.inserted, Matching.goTo, hevents] using hinserted,
      by simpa [Matching.goTo, hleases] using hlease⟩
  knows m := by
    by_cases hm : m = n
    · subst hm
      simpa [Matching.goTo] using hknows
    · have hold : ({ s with tables := t }.goTo n task).matchers m = s.matchers m :=
        Function.update_of_ne hm _ _
      rw [hold]
      refine (h.knows m).mono rfl (fun hinserted => ?_) hwoken
      simpa [Matching.inserted, Matching.goTo, hevents] using hinserted
  safe := hsafe

/-- A lease that keeps the address is one that matches the event. -/
theorem Watched.Keeps.matches {now : ℤ} {op : Acceptance} (h : w.Keeps now op)
    (haddress : op.address = w.address) : w.Matches now op.lease := by
  obtain ⟨active, hactive, hendpoint, hexpires, hmatched⟩ := h.active haddress
  refine ⟨?_, ?_, _, ?_, hmatched⟩
  · simpa [Lease.eligible, Acceptance.lease, newLease, hactive, Acceptance.version] using hexpires
  · simp [Acceptance.lease, newLease, hactive, hendpoint]
  · simp [Lease.forMatch, Acceptance.lease, newLease, hactive, ← haddress, Acceptance.version]

/-- An acceptance leaves the events of the kinds that wake an installation. -/
theorem lookup_events_of_accepted {now : ℤ} {event : LeaseEvent} {installationId : List Char}
    {version : LeaseVersion} {active : Option ActiveLease} {t t' : Tables}
    (h : Accepted now event installationId version active maxActiveLeases t t')
    {key : ℤ × EventId} (hkey : key.2 ≠ event.id)
    (hkind : ∀ e, t.events.lookup key = some e → e.kind ∈ pushKinds) :
    t'.events.lookup key = t.events.lookup key := by
  have hne : key ≠ (version.sourceCreatedAt * 1000000, event.id) :=
    fun heq => hkey (congrArg Prod.snd heq)
  rw [h.events, HashMap.lookup_insert_eq, if_neg hne, Tables.retireEvents,
    Table.lookup_updateWhere]
  cases he : t.events.lookup key with
  | none => rfl
  | some e =>
    have hnot : e.liveLease (event.pubkey, installationId) = false := by
      by_contra hlive
      simp only [StoredEvent.liveLease, Bool.not_eq_false, Bool.and_eq_true,
        decide_eq_true_eq] at hlive
      have hpush := hkind e he
      rw [hlive.1.1.1] at hpush
      exact absurd hpush (by decide)
    simp [hnot]

theorem Inv.accept (h : Inv w s) {op : Acceptance} (hkeeps : w.Keeps s.now op) :
    Inv w { s with tables := (op.apply maxActiveLeases s.tables).2 } := by
  obtain ⟨-, htx⟩ | ⟨-, hsame⟩ := acceptLeaseEvent_cases op.now op.event op.installationId
    op.version op.active maxActiveLeases s.tables
  · have haccepted := acceptTx_eq_ok h.checked htx
    have hevents : ∀ key, key.2 = w.event →
        (op.apply maxActiveLeases s.tables).2.events.lookup key = s.tables.events.lookup key :=
      fun key hkey => lookup_events_of_accepted haccepted (hkey ▸ hkeeps.event.symm)
        fun e he => (h.live key e he hkey).2
    have hinserted : s.inserted w →
        Matching.inserted { s with tables := (op.apply maxActiveLeases s.tables).2 } w := by
      rintro ⟨key, e, he, hkey⟩
      exact ⟨key, e, (hevents key hkey).trans he, hkey⟩
    have hwoken : w.Woken s.tables → w.Woken (op.apply maxActiveLeases s.tables).2 := by
      rintro ⟨id, wake, hwake, hkey⟩
      exact ⟨id, wake, (congrArg (AList.lookup id) haccepted.outbox).trans hwake, hkey⟩
    refine ⟨h.checked.apply op, fun l hl => ?_, fun key e he hkey => ?_, fun howed => ?_,
      fun n => (h.knows n).mono rfl hinserted hwoken, fun howed hnone => ?_⟩
    · have hlookup := (haccepted.lookup w.address).symm.trans hl
      split_ifs at hlookup with haddress
      · obtain rfl := Option.some.inj hlookup
        exact hkeeps.matches haddress.symm
      · exact h.lease l hlookup
    · exact h.live key e ((hevents key hkey).symm.trans he) hkey
    · obtain ⟨hbefore, l, hl⟩ := h.owed howed
      refine ⟨hinserted hbefore, ?_⟩
      have hlookup := haccepted.lookup w.address
      split_ifs at hlookup
      · exact ⟨_, hlookup⟩
      · exact ⟨l, hlookup.trans hl⟩
    · refine hwoken (h.safe howed ?_)
      by_contra hsome
      obtain ⟨j, hj⟩ := Option.ne_none_iff_exists'.mp hsome
      exact absurd ((haccepted.kept _ j hj).symm.trans hnone) nofun
  · rw [show (op.apply maxActiveLeases s.tables).2 = s.tables from hsame]
    exact h

theorem Inv.insert (h : Inv w s) {createdAt : ℤ} {e : StoredEvent} {t : Tables}
    (hkind : e.kind ∈ pushKinds) (hlive : e.deletedAt = none) (hfirst : ¬s.inserted w)
    (hinsert : s.tables.insertEvent s.now (createdAt, w.event) e = .ok t) :
    Inv w
      { s with
        tables := t
        owed := (s.tables.leases.lookup w.address).any fun l => l.eligible s.now } := by
  obtain ⟨-, ht⟩ := Tables.insertEvent_eq_ok hinsert
  have hframe := ht.trans (Tables.enqueuePushMatchJob_frame _ _ _ _)
  have hleases : t.leases = s.tables.leases := by rw [hframe]
  have hevents : t.events = s.tables.events.insert (createdAt, w.event) e := by rw [hframe]
  have hstored : t.events.lookup (createdAt, w.event) = some e := by
    rw [hevents, AList.lookup_insert]
  refine ⟨fun a l hl => h.checked a l (hleases ▸ hl), fun l hl => h.lease l (hleases ▸ hl),
    fun key e' he' hkey => ?_, fun howed => ?_, fun n => ?_, fun howed hnone => ?_⟩
  · rw [hevents, HashMap.lookup_insert_eq] at he'
    split_ifs at he'
    · obtain rfl := Option.some.inj he'
      exact ⟨hlive, hkind⟩
    · exact h.live key e' he' hkey
  · obtain ⟨l, hl, -⟩ := (Option.any_eq_true _ _).mp howed
    exact ⟨⟨_, e, hstored, rfl⟩, l, hleases ▸ hl⟩
  · -- no matcher has seen the event
    have hknows := h.knows n
    cases htask : s.matchers n with
    | idle => trivial
    | claimed claimId jobs =>
      rw [htask] at hknows
      exact fun hmem => absurd (hknows hmem) hfirst
    | matched claimId ids wakes =>
      rw [htask] at hknows
      exact fun hmem => absurd (hknows hmem).1 hfirst
    | enqueued claimId ids =>
      rw [htask] at hknows
      exact fun hmem => absurd (hknows hmem).1 hfirst
  · -- the trigger has found the lease
    exfalso
    obtain ⟨l, hl, heligible⟩ := (Option.any_eq_true _ _).mp howed
    have hjob : (({ s.tables with
        events := s.tables.events.insert (createdAt, w.event) e }.enqueuePushMatchJob s.now w.event
          e.kind).matchQueue.lookup w.event).isSome = true :=
      Tables.enqueuePushMatchJob_has hkind hl heligible
    rw [← ht, hnone] at hjob
    cases hjob

/-- What a matcher has claimed is inserted. -/
theorem inserted_of_claim {limit : ℕ} {claimId : Uuid} {leaseUntil now : ℤ}
    (hmem : w.event ∈ (s.tables.claimDueMatchBatch now limit claimId leaseUntil).1.map
      BatchedMatch.eventId) : s.inserted w := by
  obtain ⟨job, hjob, heq⟩ := List.mem_map.mp hmem
  obtain ⟨⟨id, j⟩, -, hdue⟩ := List.mem_filterMap.mp hjob
  obtain ⟨entry, hentry, rfl⟩ := Option.map_eq_some_iff.mp hdue
  obtain rfl : id = w.event := heq
  exact inserted_of_liveEntry hentry

theorem Inv.claim (h : Inv w s) {n limit : ℕ} {claimId : Uuid} {leaseUntil : ℤ} :
    Inv w (({ s with
        tables := (s.tables.claimDueMatchBatch s.now limit claimId leaseUntil).2 }).goTo n
      (.claimed claimId (s.tables.claimDueMatchBatch s.now limit claimId leaseUntil).1)) := by
  have hknows : w.event ∈ (s.tables.claimDueMatchBatch s.now limit claimId leaseUntil).1.map
      BatchedMatch.eventId → s.inserted w := fun hmem => inserted_of_claim hmem
  refine h.move rfl rfl id hknows fun howed hnone => ?_
  by_contra hasleep
  cases hqueue : s.tables.matchQueue.lookup w.event with
  | none => exact hasleep (h.safe howed hqueue)
  | some j =>
    have hlive := h.liveEntry (h.owed howed).1
    obtain ⟨j', hj'⟩ : ∃ j', (s.tables.claimDueMatchBatch s.now limit claimId
        leaseUntil).2.matchQueue.lookup w.event = some j' :=
      Tables.claimDueMatchBatch_kept hlive hqueue
    exact absurd (hj'.symm.trans hnone) nofun

/-- The wake of the lease is among those that are matched. -/
theorem mem_matchJob {now : ℤ} {leases : List MatchLease} {job : BatchedMatch} {m : MatchLease}
    (hm : m ∈ leases) (hclass : (w.wakeClass job.eventId m).isSome = true)
    (hunexpired : now / 1000000 < wakeExpiresAt job m) :
    ∃ r ∈ matchJob w.wakeClass now leases job, r.address = m.address ∧ r.eventId = job.eventId := by
  obtain ⟨c, hc⟩ := Option.isSome_iff_exists.mp hclass
  refine ⟨⟨m.author, m.installationId, m.generation, job.eventId, c, wakeExpiresAt job m⟩,
    List.mem_filterMap.mpr ⟨m, hm, ?_⟩, rfl, rfl⟩
  simp [hc, not_le.mpr hunexpired]

theorem Inv.load (h : Inv w s) {n : ℕ} {claimId : Uuid} {jobs : List BatchedMatch}
    {leases : List MatchLease} (htask : s.matchers n = .claimed claimId jobs)
    (hleases : activeMatchLeases s.now s.tables = .ok leases)
    (hunexpired : ∀ job ∈ jobs, ∀ l ∈ leases, s.now / 1000000 < wakeExpiresAt job l) :
    Inv w (s.goTo n (.matched claimId (jobs.map BatchedMatch.eventId)
      (jobs.flatMap (matchJob w.wakeClass s.now leases)))) := by
  refine h.move (t := s.tables) rfl rfl id (fun hmem => ?_) h.safe
  have hknows := h.knows n
  rw [htask] at hknows
  refine ⟨hknows hmem, fun howed => ?_⟩
  obtain ⟨job, hjob, hid⟩ := List.mem_map.mp hmem
  obtain ⟨-, l, hl⟩ := h.owed howed
  obtain ⟨heligible, -, m, hm, hclass⟩ := h.lease l hl
  have hmem := activeMatchLeases_mem hleases hl heligible hm
  obtain ⟨r, hr, haddress, hevent⟩ := mem_matchJob hmem (hid ▸ hclass) (hunexpired job hjob m hmem)
  refine ⟨r, List.mem_flatMap.mpr ⟨job, hjob, hr⟩, haddress.trans ?_, hevent.trans hid⟩
  exact forMatch_address hm

/-- A request in the generation of the lease resolves to the endpoint. -/
theorem Watched.Matches.resolve {now : ℤ} {l : Lease} {t : Tables} (h : w.Matches now l)
    (hl : t.leases.lookup w.address = some l) {r : WakeRequest} (haddress : r.address = w.address)
    (hgeneration : l.generation = r.leaseGeneration) :
    t.resolve now r = .ok (some w.endpoint) := by
  rw [Tables.resolve, haddress, hl]
  dsimp only
  rw [if_neg (by simp [h.eligible]), h.endpoint]
  dsimp only
  rw [if_pos hgeneration]

theorem Inv.enqueue (h : Inv w s) {n : ℕ} {claimId : Uuid} {ids : List EventId}
    {wakes : List WakeRequest} {newIds : List Uuid} {outcomes : List EnqueueWakeOutcome}
    (htask : s.matchers n = .matched claimId ids wakes) (hids : newIds.length = wakes.length)
    (hok : (enqueueWakes s.now (wakes.zip newIds) s.tables).1 = .ok outcomes)
    (hcurrent : Current w s (.enqueue n)) :
    Inv w (({ s with tables := (enqueueWakes s.now (wakes.zip newIds) s.tables).2 }).goTo n
      (.enqueued claimId ids)) := by
  have henqueue := enqueueWakes_enqueue s.now (wakes.zip newIds) s.tables
  have hframe := henqueue.frame
  have hwoken : w.Woken s.tables →
      w.Woken (enqueueWakes s.now (wakes.zip newIds) s.tables).2 := by
    rintro ⟨id, wake, hwake, hkey⟩
    exact ⟨id, wake, henqueue.kept id wake hwake, hkey⟩
  have hknows := h.knows n
  rw [htask] at hknows
  refine h.move (by rw [hframe]) (by rw [hframe]) hwoken (fun hmem => ?_) fun howed hnone => ?_
  · obtain ⟨hinserted, hwakes⟩ := hknows hmem
    refine ⟨?_, fun howed => ?_⟩
    · rw [hframe]
      exact hinserted
    · obtain ⟨r, hr, haddress, hevent⟩ := hwakes howed
      obtain ⟨-, l, hl⟩ := h.owed howed
      have hgeneration := hcurrent claimId ids wakes htask r hr haddress hevent l hl
      have hresolve := (h.lease l hl).resolve hl haddress hgeneration
      rw [← List.map_fst_zip hids.ge] at hr
      obtain ⟨request, hzip, rfl⟩ := List.mem_map.mp hr
      obtain ⟨id, wake, hwake, hkey⟩ := enqueueWakes_has hok hzip hresolve
      exact ⟨id, wake, hwake, hkey.trans (by rw [hevent])⟩
  · refine hwoken (h.safe howed ?_)
    rw [hframe] at hnone
    exact hnone

theorem Inv.complete (h : Inv w s) {n : ℕ} {claimId : Uuid} {ids : List EventId}
    (htask : s.matchers n = .enqueued claimId ids) :
    Inv w (({ s with tables := (s.tables.completeMatchBatch claimId ids).2 }).goTo n .idle) := by
  refine h.move rfl rfl id trivial fun howed hnone => ?_
  have hknows := h.knows n
  rw [htask] at hknows
  by_cases hmem : w.event ∈ ids
  · exact (hknows hmem).2 howed
  · refine h.safe howed ?_
    by_contra hsome
    obtain ⟨j, hj⟩ := Option.ne_none_iff_exists'.mp hsome
    exact absurd ((Tables.completeMatchBatch_kept hmem hj).symm.trans hnone) nofun

/-- One step keeps the invariant. -/
theorem Inv.step (h : Inv w s) {label : Label} (hstep : Step w maxActiveLeases s label s')
    (hcurrent : Current w s label) : Inv w s' := by
  cases hstep with
  | tick now hnow hunexpired =>
    refine ⟨h.checked, fun l hl => ?_, h.live, h.owed, h.knows, h.safe⟩
    obtain ⟨heligible, hendpoint, hmatched⟩ := h.lease l hl
    refine ⟨?_, hendpoint, hmatched⟩
    simp only [Lease.eligible, Bool.and_eq_true, decide_eq_true_eq] at heligible ⊢
    exact ⟨heligible.1, hunexpired l hl⟩
  | insert createdAt e t' hkind hlive hfirst hinsert => exact h.insert hkind hlive hfirst hinsert
  | accept op hkeeps => exact h.accept hkeeps
  | claim n limit claimId leaseUntil htask => exact h.claim
  | load n claimId jobs leases htask hleases hunexpired => exact h.load htask hleases hunexpired
  | enqueue n claimId ids wakes newIds outcomes htask hids hok =>
    exact h.enqueue htask hids hok hcurrent
  | complete n claimId ids htask => exact h.complete htask

theorem Inv.run (h : CurrentRun w maxActiveLeases .initial s) : Inv w s := by
  induction h with
  | refl => exact inv_initial w
  | tail hrun hstep ih =>
    obtain ⟨label, hstep, hcurrent⟩ := hstep
    exact ih.step hstep hcurrent

end

/-- Where every wake of the event is enqueued in the generation that the address still has, the
event has its job or its wake. -/
theorem rotation_keeps_wake {w : Watched} {maxActiveLeases : ℤ} {s : Matching}
    (hrun : CurrentRun w maxActiveLeases .initial s) : Safe w s :=
  (Inv.run hrun).safe

/-! ### A rotation that loses a wake -/

/-- An installation on one endpoint, all of whose leases match event `9`. -/
def phone : Watched := ⟨(1, "phone".toList), 1, 9, fun _ _ => some "default".toList⟩

/-- A lease of the installation. -/
def phoneLease (id : EventId) (createdAt : ℕ) (generation : ℤ) : Acceptance :=
  ⟨0, ⟨id, 1, createdAt⟩, "phone".toList, generation, 10000,
    some ⟨"ios".toList, 1, "grant".toList, "default".toList, .null⟩⟩

def phoneEvent : StoredEvent := ⟨2, 9, none, none, 0, none⟩

namespace Matching

/-- Accept a lease of the installation. -/
def rotate (s : Matching) (id : EventId) (createdAt : ℕ) (generation : ℤ) : Matching :=
  { s with tables := ((phoneLease id createdAt generation).apply 1 s.tables).2 }

/-- Insert the event. -/
def insertPhoneEvent (s : Matching) : Matching :=
  { s with
    tables := (s.tables.insertEvent s.now (0, phone.event) phoneEvent).toOption.getD s.tables
    owed := (s.tables.leases.lookup phone.address).any fun l => l.eligible s.now }

/-- Matcher `0` claims one job for 30 seconds. -/
def claimJob (s : Matching) : Matching :=
  { s with tables := (s.tables.claimDueMatchBatch s.now 1 3 30000000).2 }.goTo 0
    (.claimed 3 (s.tables.claimDueMatchBatch s.now 1 3 30000000).1)

end Matching

/-- The event is inserted under the first lease, and claimed. -/
def phoneClaimed : Matching := ((Matching.initial.rotate 5 10 1).insertPhoneEvent).claimJob

def phoneJobs : List BatchedMatch :=
  (((Matching.initial.rotate 5 10 1).insertPhoneEvent).tables.claimDueMatchBatch 0 1 3 30000000).1

def phoneLeases : List MatchLease :=
  (activeMatchLeases 0 phoneClaimed.tables).toOption.getD []

def phoneWakes : List WakeRequest :=
  phoneJobs.flatMap (matchJob phone.wakeClass 0 phoneLeases)

/-- The leases are read. -/
def phoneMatched : Matching :=
  phoneClaimed.goTo 0 (.matched 3 (phoneJobs.map BatchedMatch.eventId) phoneWakes)

namespace Matching

/-- Matcher `0` enqueues its wake. -/
def enqueueWake (s : Matching) : Matching :=
  { s with tables := (enqueueWakes s.now (phoneWakes.zip [77]) s.tables).2 }.goTo 0
    (.enqueued 3 (phoneJobs.map BatchedMatch.eventId))

/-- Matcher `0` completes its job. -/
def completeJob (s : Matching) : Matching :=
  { s with
    tables := (s.tables.completeMatchBatch 3 (phoneJobs.map BatchedMatch.eventId)).2 }.goTo 0 .idle

end Matching

theorem keeps_phoneLease {id : EventId} (createdAt : ℕ) (generation : ℤ) (hid : id ≠ 9) :
    phone.Keeps 0 (phoneLease id createdAt generation) :=
  ⟨rfl, hid, fun _ => ⟨_, rfl, rfl, show epochSeconds 0 < 10000 by decide, rfl⟩⟩

theorem run_phoneMatched : CurrentRun phone 1 .initial phoneMatched := by
  have hrotate : Step phone 1 .initial .other (Matching.initial.rotate 5 10 1) :=
    .accept _ (keeps_phoneLease 10 1 (by decide))
  have hfirst : ¬(Matching.initial.rotate 5 10 1).inserted phone := by
    have hall : ∀ e ∈ (Matching.initial.rotate 5 10 1).tables.events.entries,
        e.1.2 ≠ phone.event := by decide +kernel
    rintro ⟨key, e, he, hkey⟩
    exact hall ⟨key, e⟩ (HashMap.mem_entries_iff.mpr he) hkey
  have hinsert : Step phone 1 (Matching.initial.rotate 5 10 1) .other
      (Matching.initial.rotate 5 10 1).insertPhoneEvent :=
    .insert 0 phoneEvent _ (by decide) rfl hfirst (eq_ok_of_toOption (by decide +kernel) _)
  have hclaim : Step phone 1 (Matching.initial.rotate 5 10 1).insertPhoneEvent .other
      phoneClaimed := .claim 0 1 3 30000000 rfl
  have hload : Step phone 1 phoneClaimed .other phoneMatched :=
    .load 0 3 phoneJobs phoneLeases rfl (eq_ok_of_toOption (by decide +kernel) _)
      (by decide +kernel)
  exact (((ReflTransGen.single ⟨_, hrotate, trivial⟩).tail ⟨_, hinsert, trivial⟩).tail
    ⟨_, hclaim, trivial⟩).tail ⟨_, hload, trivial⟩

/-- There is one wake, of the generation of the first lease. It is enqueued before another rotation
and after it; after it, no job is left and no wake. -/
theorem enqueueWakes_phoneWakes :
    ([77].length = phoneWakes.length ∧ ∀ r ∈ phoneWakes, r.leaseGeneration = 1) ∧
      (∀ s ∈ [phoneMatched, phoneMatched.rotate 6 11 2],
        (enqueueWakes s.now (phoneWakes.zip [77]) s.tables).1.toOption.isSome = true) ∧
      (phoneMatched.rotate 6 11 2).enqueueWake.completeJob.tables.matchQueue.lookup phone.event =
        none ∧
      (phoneMatched.rotate 6 11 2).enqueueWake.completeJob.tables.outbox.entries = [] := by
  decide +kernel

/-- The matcher enqueues what it has matched, and completes its job. -/
theorem run_enqueueWake {s : Matching}
    (hs : s ∈ [phoneMatched, phoneMatched.rotate 6 11 2])
    (htask : s.matchers 0 = .matched 3 (phoneJobs.map BatchedMatch.eventId) phoneWakes) :
    Step phone 1 s (.enqueue 0) s.enqueueWake ∧
      Step phone 1 s.enqueueWake .other s.enqueueWake.completeJob := by
  obtain ⟨⟨hlength, -⟩, hok, -⟩ := enqueueWakes_phoneWakes
  refine ⟨.enqueue 0 3 _ phoneWakes [77] _ htask hlength (eq_ok_of_toOption (hok s hs) []),
    .complete 0 3 _ ?_⟩
  simp [Matching.enqueueWake, Matching.goTo]

/-- Without another rotation, the wake is there when its job is completed. -/
theorem rotation_keeps_wake_phone :
    Safe phone phoneMatched.enqueueWake.completeJob := by
  obtain ⟨henqueue, hcomplete⟩ := run_enqueueWake (s := phoneMatched) List.mem_cons_self rfl
  have hcurrent : Current phone phoneMatched (.enqueue 0) := by
    intro claimId ids wakes htask r hr _ _ l hl
    obtain ⟨-, -, rfl⟩ := Task.matched.inj htask
    obtain ⟨⟨-, hgeneration⟩, -⟩ := enqueueWakes_phoneWakes
    have hlease : (phoneMatched.tables.leases.lookup phone.address).map Lease.generation =
        some 1 := rfl
    rw [hl] at hlease
    exact (Option.some.inj hlease).trans (hgeneration r hr).symm
  have hrun : CurrentRun phone 1 .initial phoneMatched := run_phoneMatched
  exact rotation_keeps_wake ((hrun.tail ⟨_, henqueue, hcurrent⟩).tail ⟨_, hcomplete, trivial⟩)

/-- A rotation between the read of the leases and the enqueue: the event is left without a job and
without a wake. -/
theorem rotation_loses_wake : ¬∀ s, Run phone 1 .initial s → Safe phone s := by
  intro hall
  have hrotate : Step phone 1 phoneMatched .other (phoneMatched.rotate 6 11 2) :=
    .accept _ (keeps_phoneLease 11 2 (by decide))
  obtain ⟨henqueue, hcomplete⟩ := run_enqueueWake (s := phoneMatched.rotate 6 11 2)
    (List.mem_cons_of_mem _ List.mem_cons_self) rfl
  have hmatched : Run phone 1 .initial phoneMatched := CurrentRun.run run_phoneMatched
  have hrun : Run phone 1 .initial (phoneMatched.rotate 6 11 2).enqueueWake.completeJob :=
    ((hmatched.tail ⟨_, hrotate⟩).tail ⟨_, henqueue⟩).tail ⟨_, hcomplete⟩
  obtain ⟨-, -, hjob, hnone⟩ := enqueueWakes_phoneWakes
  obtain ⟨id, wake, hwake, -⟩ := hall _ hrun rfl hjob
  have hmem := HashMap.mem_entries_iff.mpr hwake
  rw [hnone] at hmem
  cases hmem

end Buzz.Relay.Push.Matcher
