import Mathlib.Tactic.Abel
import Buzz.Acp.Queue.Model

/-!
# Conservation of accepted events

A harness drives an event queue in queue mode: it pushes events, flushes batches, withholds and
releases native steers, and settles every batch it was given, by a success or by one of the three
requeue operations, before it completes the channel. An accepted event should always be in exactly
one place: a queue, the withheld events, the cancelled batches, an outstanding batch, or a batch
that completed.

`requeueAsCancelled` puts both event lists of a batch back; `requeue` and
`requeuePreserveTimestamps` put back `events` only, so that the `cancelledEvents` of a merged batch
are lost when it is requeued. The events are conserved along every run that hands no merged batch
to these two operations.

## Main definitions

* `Harness`, `Action`, `Action.Allowed`, `Harness.act`, `HarnessStep`.
* `Place`, `Harness.located`, `Harness.Conserves`.

## Main results

* `conserves_of_run`: the accepted events are conserved by runs that requeue no merged batch.
* `conserves_fails_merged_requeue`: a run that loses an accepted event.
-/

namespace Buzz.Acp.Queue

open Buzz.Core Buzz.Library EventQueue

/-! ### The harness -/

/-- A queue together with what its caller holds: the events it had accepted, the batches it was
given and has not settled, the channels whose batch is settled but which are not completed, and the
batches that completed successfully. -/
structure Harness where
  queue : EventQueue
  accepted : List Event
  outstanding : List FlushBatch
  awaiting : List Uuid
  completed : List FlushBatch

/-- A new queue in queue mode, with any in-flight deadline. -/
def Harness.new (deadline : Duration) : Harness :=
  ⟨{ EventQueue.new .queue with inFlightDeadline := deadline }, [], [], [], []⟩

/-- What the caller of the queue does. -/
inductive Action
  | push (event : QueuedEvent)
  | flushNext (now : Instant)
  | markNativeSteerPending (channelId : Uuid) (eventId : String)
  | releaseNativeSteer (channelId : Uuid) (eventId : String)
  | success (batch : FlushBatch)
  | requeue (now : Instant) (jitter : ℕ → Duration) (batch : FlushBatch)
  | requeuePreserveTimestamps (batch : FlushBatch)
  | requeueAsCancelled (batch : FlushBatch) (reason : CancelReason)
  | markComplete (now : Instant) (channelId : Uuid)
  | rehash (queue : EventQueue)

/-- When an action belongs to the runs considered: event identifiers are fresh, no in-flight
deadline has passed at a flush, a batch is settled once and not dead-lettered, and a channel is
completed after its batch was settled. -/
def Action.Allowed (s : Harness) : Action → Prop
  | push event => event.event.id ∉ s.accepted.map Event.id
  | flushNext now => s.queue.expired now = []
  | markNativeSteerPending _ _ => True
  | releaseNativeSteer _ _ => True
  | success batch => batch ∈ s.outstanding
  | requeue now jitter batch =>
    batch ∈ s.outstanding ∧ (s.queue.requeue now jitter batch).1 = none
  | requeuePreserveTimestamps batch => batch ∈ s.outstanding
  | requeueAsCancelled batch _ => batch ∈ s.outstanding
  | markComplete _ channelId => channelId ∈ s.awaiting
  | rehash queue => s.queue.Rehash queue

namespace Harness

/-- Take an outstanding batch away from the caller; its channel now awaits completion. -/
def settle (s : Harness) (batch : FlushBatch) (queue : EventQueue) : Harness :=
  { s with
    queue := queue
    outstanding := s.outstanding.erase batch
    awaiting := batch.channelId :: s.awaiting }

/-- The harness after an action. -/
def act (s : Harness) : Action → Harness
  | .push event =>
    { s with
      queue := (s.queue.push event).2
      accepted := if (s.queue.push event).1 then event.event :: s.accepted else s.accepted }
  | .flushNext now =>
    { s with
      queue := (s.queue.flushNext now).2
      outstanding := (s.queue.flushNext now).1.toList ++ s.outstanding }
  | .markNativeSteerPending c eventId =>
    { s with queue := (s.queue.markNativeSteerPending c eventId).2 }
  | .releaseNativeSteer c eventId => { s with queue := s.queue.releaseNativeSteer c eventId }
  | .success batch =>
    { s.settle batch s.queue with completed := batch :: s.completed }
  | .requeue now jitter batch => s.settle batch (s.queue.requeue now jitter batch).2
  | .requeuePreserveTimestamps batch => s.settle batch (s.queue.requeuePreserveTimestamps batch)
  | .requeueAsCancelled batch reason => s.settle batch (s.queue.requeueAsCancelled batch reason)
  | .markComplete now c =>
    { s with queue := s.queue.markComplete now c, awaiting := s.awaiting.erase c }
  | .rehash queue => { s with queue := queue }

end Harness

/-- No channel queue has reached the cap. -/
def BelowCap (q : EventQueue) : Prop :=
  ∀ c, (BucketMap.bucket q.queues c).length < MAX_PENDING_PER_CHANNEL

/-- One step of the runs considered, by an action that satisfies `P`. -/
def HarnessStep (P : Action → Prop) (s s' : Harness) : Prop :=
  ∃ a : Action, a.Allowed s ∧ P a ∧ s' = s.act a ∧ BelowCap s'.queue

/-- No merged batch is handed to the two operations that put back the new events only. -/
def Action.KeepsBoth : Action → Prop
  | requeue _ _ batch => batch.cancelledEvents = []
  | requeuePreserveTimestamps batch => batch.cancelledEvents = []
  | _ => True

/-! ### Where an event is -/

/-- The places an accepted event can be in. -/
inductive Place
  | queue (channelId : Uuid)
  | withheld (channelId : Uuid)
  | cancelled (channelId : Uuid)
  | outstanding (batch : FlushBatch)
  | completed (batch : FlushBatch)
  deriving DecidableEq

/-- All events of a batch, new and cancelled. -/
def FlushBatch.all (b : FlushBatch) : List Event :=
  (b.events ++ b.cancelledEvents).map BatchEvent.event

/-- The events of a bucket map, each with the place of its bucket. -/
def locate {α : Type} (place : Uuid → Place) (event : α → Event) (m : HashMap Uuid (List α)) :
    List (Place × Event) :=
  m.entries.flatMap fun e => e.2.map fun x => (place e.1, event x)

/-- Every occurrence of an event in the queue or in a batch, with its place. -/
def Harness.located (s : Harness) : List (Place × Event) :=
  locate .queue QueuedEvent.event s.queue.queues ++
    locate .withheld QueuedEvent.event s.queue.withheldNativeSteer ++
    locate .cancelled BatchEvent.event s.queue.cancelledBatches ++
    (s.outstanding.flatMap fun b => b.all.map fun e => (.outstanding b, e)) ++
    s.completed.flatMap fun b => b.all.map fun e => (.completed b, e)

/-- Every accepted event occurs exactly once. -/
def Harness.Conserves (s : Harness) : Prop :=
  ∀ e ∈ s.accepted, ∃ p, s.located.filter (fun x => x.2.id = e.id) = [(p, e)]

/-! ### The events of a queue, with multiplicities -/

namespace EventQueue

/-- The events in the three tables of a queue. -/
def held (q : EventQueue) : Multiset Event :=
  (BucketMap.contents q.queues).map QueuedEvent.event +
    (BucketMap.contents q.withheldNativeSteer).map QueuedEvent.event +
    (BucketMap.contents q.cancelledBatches).map BatchEvent.event

variable {q : EventQueue}

theorem bucket_insert_length_lt {c : Uuid} {l : List QueuedEvent}
    {queues : HashMap Uuid (List QueuedEvent)}
    (h : ∀ c', (BucketMap.bucket (queues.insert c l) c').length < MAX_PENDING_PER_CHANNEL) :
    l.length < MAX_PENDING_PER_CHANNEL := by
  have hc := h c
  rwa [BucketMap.bucket, AList.lookup_insert] at hc

/-- Below the cap nothing is trimmed when events are put at the front of a queue. -/
theorem contents_pushFront {c : Uuid} {events : List QueuedEvent}
    {queues : HashMap Uuid (List QueuedEvent)}
    (h : ∀ c', (BucketMap.bucket (pushFront c events queues) c').length <
      MAX_PENDING_PER_CHANNEL) :
    BucketMap.contents (pushFront c events queues) = ↑events + BucketMap.contents queues := by
  have hlt := bucket_insert_length_lt h
  rw [List.length_take] at hlt
  have hshort : (events ++ BucketMap.bucket queues c).length ≤ MAX_PENDING_PER_CHANNEL := by
    omega
  rw [pushFront, List.take_of_length_le hshort, BucketMap.contents_insert,
    BucketMap.contents_eq_bucket_add queues c, ← Multiset.coe_add, add_assoc]

theorem map_event_toQueued (c : Uuid) (events : List BatchEvent) :
    (events.map (BatchEvent.toQueued c)).map QueuedEvent.event = events.map BatchEvent.event := by
  rw [List.map_map]
  rfl

theorem held_push (hmode : q.dedupMode = .queue) {event : QueuedEvent}
    (h : BelowCap (q.push event).2) :
    (q.push event).1 = true ∧ (q.push event).2.held = event.event ::ₘ q.held ∧
      (q.push event).2.dedupMode = .queue := by
  have hkeep : ¬ (q.dedupMode = .drop ∧ event.channelId ∈ q.inFlightChannels) := by
    rw [hmode]
    rintro ⟨hdrop, -⟩
    cases hdrop
  rw [push, if_neg hkeep] at h ⊢
  have hlt := bucket_insert_length_lt h
  refine ⟨rfl, ?_, hmode⟩
  split_ifs at hlt with hfull
  · rw [List.length_append, List.length_tail, List.length_singleton] at hlt
    omega
  · simp only [held, if_neg hfull]
    rw [BucketMap.contents_insert,
      BucketMap.contents_eq_bucket_add q.queues event.channelId, ← Multiset.coe_add,
      Multiset.coe_singleton, Multiset.map_add, Multiset.map_add, Multiset.map_add,
      Multiset.map_singleton, ← Multiset.singleton_add]
    abel

theorem held_pushFront {c : Uuid} {events : List QueuedEvent}
    (h : ∀ c', (BucketMap.bucket (pushFront c events q.queues) c').length <
      MAX_PENDING_PER_CHANNEL) :
    { q with queues := pushFront c events q.queues }.held =
      ↑(events.map QueuedEvent.event) + q.held := by
  rw [held, held, contents_pushFront h, Multiset.map_add, Multiset.map_coe]
  abel

theorem expireInFlight_eq_self {now : Instant} (h : q.expired now = []) :
    q.expireInFlight now = q := by
  rw [expireInFlight, h]
  rfl

theorem held_flushQueue (now : Instant) (c : Uuid) :
    q.held = ↑(q.flushQueue now c).1.all + (q.flushQueue now c).2.held := by
  have hevents : (↑((sortByKey (fun be : BatchEvent => be.event.createdAt)
      (((BucketMap.bucket q.queues c).take MAX_BATCH_EVENTS).map QueuedEvent.toBatch)).map
        BatchEvent.event) : Multiset Event) =
      ↑(((BucketMap.bucket q.queues c).take MAX_BATCH_EVENTS).map QueuedEvent.event) := by
    rw [Multiset.coe_eq_coe]
    refine ((sortByKey_perm _ _).map _).trans ?_
    rw [List.map_map]
    exact List.Perm.refl _
  have hqueue : (BucketMap.contents q.queues).map QueuedEvent.event =
      ↑(((BucketMap.bucket q.queues c).take MAX_BATCH_EVENTS).map QueuedEvent.event) +
        (BucketMap.contents (BucketMap.write q.queues c
          ((BucketMap.bucket q.queues c).drop MAX_BATCH_EVENTS))).map QueuedEvent.event := by
    rw [BucketMap.contents_write, BucketMap.contents_eq_bucket_add q.queues c, Multiset.map_add,
      Multiset.map_add, Multiset.map_coe, Multiset.map_coe, ← add_assoc, Multiset.coe_add,
      ← List.map_append, List.take_append_drop]
  simp only [flushQueue, startFlight, held, FlushBatch.all]
  rw [hqueue, List.map_append, ← Multiset.coe_add, hevents,
    BucketMap.contents_eq_bucket_add q.cancelledBatches c, Multiset.map_add, Multiset.map_coe]
  abel

theorem held_flushCancelled (now : Instant) (c : Uuid) :
    q.held = ↑(q.flushCancelled now c).1.all + (q.flushCancelled now c).2.held := by
  simp only [flushCancelled, startFlight, held, FlushBatch.all, List.append_nil]
  rw [BucketMap.contents_eq_bucket_add q.cancelledBatches c, Multiset.map_add, Multiset.map_coe]
  abel

/-- A flush moves events from the tables to the batch it returns. -/
theorem held_flushNext {now : Instant} (h : q.expired now = []) :
    q.held = ↑((q.flushNext now).1.toList.flatMap FlushBatch.all) + (q.flushNext now).2.held ∧
      (q.flushNext now).2.dedupMode = q.dedupMode := by
  rw [flushNext, expireInFlight_eq_self h, dispatch]
  split
  · next c _ =>
    refine ⟨?_, rfl⟩
    simpa using held_flushQueue (q := q) now c
  · split
    · next c _ =>
      refine ⟨?_, rfl⟩
      simpa using held_flushCancelled (q := q) now c
    · simp

theorem cons_eraseP_perm {α : Type} {p : α → Bool} {l : List α} {x : α} (h : l.find? p = some x) :
    l.Perm (x :: l.eraseP p) := by
  obtain ⟨hpx, as, bs, rfl, has⟩ := List.find?_eq_some_iff_append.mp h
  have hnot : ∀ a ∈ as, ¬ p a = true := by simpa using has
  rw [List.eraseP_append_right _ hnot, List.eraseP_cons_of_pos hpx]
  exact List.perm_middle

theorem held_markNativeSteerPending (c : Uuid) (eventId : String) :
    (q.markNativeSteerPending c eventId).2.held = q.held ∧
      (q.markNativeSteerPending c eventId).2.dedupMode = q.dedupMode := by
  rw [markNativeSteerPending]
  split
  · exact ⟨rfl, rfl⟩
  · next queue hqueue =>
    split
    · exact ⟨rfl, rfl⟩
    · next qe hqe =>
      refine ⟨?_, rfl⟩
      have hbucket : BucketMap.bucket q.queues c = queue := by rw [BucketMap.bucket, hqueue]; rfl
      have hperm : (↑queue : Multiset QueuedEvent) =
          {qe} + ↑(queue.eraseP (QueuedEvent.hasId eventId)) := by
        rw [Multiset.singleton_add, Multiset.cons_coe, Multiset.coe_eq_coe]
        exact cons_eraseP_perm hqe
      rw [held, held, BucketMap.contents_write, BucketMap.push, BucketMap.contents_insert,
        BucketMap.contents_eq_bucket_add q.queues c, hbucket, hperm,
        BucketMap.contents_eq_bucket_add q.withheldNativeSteer c, ← Multiset.coe_add,
        Multiset.coe_singleton]
      simp only [Multiset.map_add]
      abel

theorem held_releaseNativeSteer {c : Uuid} {eventId : String}
    (h : BelowCap (q.releaseNativeSteer c eventId)) :
    (q.releaseNativeSteer c eventId).held = q.held ∧
      (q.releaseNativeSteer c eventId).dedupMode = q.dedupMode := by
  revert h
  rw [releaseNativeSteer]
  split
  · exact fun _ => ⟨rfl, rfl⟩
  · next entries hentries =>
    split
    · exact fun _ => ⟨rfl, rfl⟩
    · next qe hqe =>
      intro h
      refine ⟨?_, rfl⟩
      have hbucket : BucketMap.bucket q.withheldNativeSteer c = entries := by
        rw [BucketMap.bucket, hentries]; rfl
      have hperm : (↑entries : Multiset QueuedEvent) =
          {qe} + ↑(entries.eraseP (QueuedEvent.hasId eventId)) := by
        rw [Multiset.singleton_add, Multiset.cons_coe, Multiset.coe_eq_coe]
        exact cons_eraseP_perm hqe
      rw [held, held, contents_pushFront h, BucketMap.contents_write,
        BucketMap.contents_eq_bucket_add q.withheldNativeSteer c, hbucket, hperm,
        Multiset.coe_singleton]
      simp only [Multiset.map_add]
      abel

theorem held_requeuePreserveTimestamps {b : FlushBatch}
    (h : BelowCap (q.requeuePreserveTimestamps b)) :
    (q.requeuePreserveTimestamps b).held = ↑(b.events.map BatchEvent.event) + q.held := by
  rw [requeuePreserveTimestamps, held_pushFront h, map_event_toQueued]

/-- A requeue that does not dead-letter puts back what `requeuePreserveTimestamps` does. -/
theorem requeue_eq_none {now : Instant} {jitter : ℕ → Duration} {b : FlushBatch}
    (h : (q.requeue now jitter b).1 = none) :
    (q.requeue now jitter b).2.queues = (q.requeuePreserveTimestamps b).queues ∧
      (q.requeue now jitter b).2.held = (q.requeuePreserveTimestamps b).held ∧
      (q.requeue now jitter b).2.dedupMode = q.dedupMode := by
  revert h
  rw [requeue]
  split_ifs
  · intro h
    cases h
  · exact fun _ => ⟨rfl, rfl, rfl⟩

theorem held_requeueAsCancelled (b : FlushBatch) (reason : CancelReason) :
    (q.requeueAsCancelled b reason).held = ↑b.all + q.held := by
  rw [requeueAsCancelled, held, held, BucketMap.contents_insert,
    BucketMap.contents_eq_bucket_add q.cancelledBatches b.channelId, FlushBatch.all,
    ← Multiset.coe_add, ← Multiset.coe_add]
  simp only [List.map_append, Multiset.map_add, Multiset.map_coe, ← Multiset.coe_add]
  abel

theorem markComplete_tables (now : Instant) (c : Uuid) :
    (q.markComplete now c).held = q.held ∧ (q.markComplete now c).dedupMode = q.dedupMode := by
  rw [markComplete]
  split
  · split_ifs <;> exact ⟨rfl, rfl⟩
  · exact ⟨rfl, rfl⟩

theorem Rehash.held_eq {q' : EventQueue} (h : q.Rehash q') : q'.held = q.held := by
  rw [held, held, BucketMap.contents_rehash h.queues,
    BucketMap.contents_rehash h.withheldNativeSteer, BucketMap.contents_rehash h.cancelledBatches]

end EventQueue

/-! ### The invariant of the harness -/

namespace Harness

/-- All events in the queue and in the batches of a harness. -/
def held (s : Harness) : Multiset Event :=
  s.queue.held + ↑(s.outstanding.flatMap FlushBatch.all) + ↑(s.completed.flatMap FlushBatch.all)

/-- The queue and the batches hold the accepted events, whose identifiers are distinct. -/
structure Balanced (s : Harness) : Prop where
  mode : s.queue.dedupMode = .queue
  balance : s.held = ↑s.accepted
  nodup : (s.accepted.map Event.id).Nodup

theorem balanced_new (deadline : Duration) : (new deadline).Balanced where
  mode := rfl
  balance := rfl
  nodup := List.nodup_nil

/-- An action that only moves events between the tables of the queue keeps the balance. -/
theorem Balanced.move {s s' : Harness} (h : s.Balanced) (hmode : s'.queue.dedupMode = .queue)
    (hqueue : s'.queue.held = s.queue.held) (haccepted : s'.accepted = s.accepted)
    (houtstanding : s'.outstanding = s.outstanding) (hcompleted : s'.completed = s.completed) :
    s'.Balanced := by
  refine ⟨hmode, ?_, haccepted ▸ h.nodup⟩
  rw [haccepted, ← h.balance, held, held, hqueue, houtstanding, hcompleted]

/-- Settling an outstanding batch keeps the balance when the queue, or the completed batches, take
its events over. -/
theorem Balanced.settle {s s' : Harness} (h : s.Balanced) {b : FlushBatch}
    (hb : b ∈ s.outstanding) (hmode : s'.queue.dedupMode = .queue)
    (haccepted : s'.accepted = s.accepted) (houtstanding : s'.outstanding = s.outstanding.erase b)
    (htaken : s'.queue.held + (↑(s'.completed.flatMap FlushBatch.all) : Multiset Event) =
      ↑b.all + s.queue.held + ↑(s.completed.flatMap FlushBatch.all)) : s'.Balanced := by
  refine ⟨hmode, ?_, haccepted ▸ h.nodup⟩
  have hperm : (↑(s.outstanding.flatMap FlushBatch.all) : Multiset Event) =
      ↑b.all + ↑((s.outstanding.erase b).flatMap FlushBatch.all) := by
    rw [Multiset.coe_add, ← List.flatMap_cons, Multiset.coe_eq_coe]
    exact (List.perm_cons_erase hb).flatMap_right _
  rw [haccepted, ← h.balance, held, held, houtstanding, hperm]
  calc s'.queue.held + ↑((s.outstanding.erase b).flatMap FlushBatch.all) +
        (↑(s'.completed.flatMap FlushBatch.all) : Multiset Event)
      = s'.queue.held + ↑(s'.completed.flatMap FlushBatch.all) +
          ↑((s.outstanding.erase b).flatMap FlushBatch.all) := by abel
    _ = ↑b.all + s.queue.held + ↑(s.completed.flatMap FlushBatch.all) +
          ↑((s.outstanding.erase b).flatMap FlushBatch.all) := by rw [htaken]
    _ = s.queue.held + (↑b.all + ↑((s.outstanding.erase b).flatMap FlushBatch.all)) +
          ↑(s.completed.flatMap FlushBatch.all) := by abel

/-- An unmerged batch consists of its new events. -/
theorem all_of_unmerged {b : FlushBatch} (h : b.cancelledEvents = []) :
    b.all = b.events.map BatchEvent.event := by
  rw [FlushBatch.all, h, List.append_nil]

/-- Every allowed action that requeues no merged batch keeps the balance, below the cap. -/
theorem Balanced.act {s : Harness} (h : s.Balanced) {a : Action} (ha : a.Allowed s)
    (hkeep : a.KeepsBoth) (hcap : BelowCap (s.act a).queue) : (s.act a).Balanced := by
  cases a with
  | push event =>
    obtain ⟨hpushed, hheld, hmode⟩ := held_push h.mode hcap
    have haccepted : (s.act (.push event)).accepted = event.event :: s.accepted := if_pos hpushed
    refine ⟨hmode, ?_, ?_⟩
    · rw [haccepted, ← Multiset.cons_coe, ← h.balance, held, held, Harness.act, hheld,
        Multiset.cons_add, Multiset.cons_add]
    · rw [haccepted]
      exact List.nodup_cons.mpr ⟨ha, h.nodup⟩
  | flushNext now =>
    obtain ⟨hheld, hmode⟩ := held_flushNext ha
    refine ⟨hmode.trans h.mode, ?_, h.nodup⟩
    have hbefore := h.balance
    rw [held, hheld] at hbefore
    simp only [held, Harness.act, List.flatMap_append, ← Multiset.coe_add]
    rw [← hbefore]
    abel
  | markNativeSteerPending c eventId =>
    obtain ⟨hheld, hmode⟩ := held_markNativeSteerPending (q := s.queue) c eventId
    exact h.move (hmode.trans h.mode) hheld rfl rfl rfl
  | releaseNativeSteer c eventId =>
    obtain ⟨hheld, hmode⟩ := held_releaseNativeSteer hcap
    exact h.move (hmode.trans h.mode) hheld rfl rfl rfl
  | success b =>
    refine h.settle ha h.mode rfl rfl ?_
    simp only [Harness.act, Harness.settle, List.flatMap_cons, ← Multiset.coe_add]
    abel
  | requeue now jitter b =>
    obtain ⟨hb, hnone⟩ := ha
    obtain ⟨hqueues, hheld, hmode⟩ := requeue_eq_none hnone
    have hcap' : BelowCap (s.queue.requeuePreserveTimestamps b) := by
      intro c
      rw [← hqueues]
      exact hcap c
    refine h.settle hb (hmode.trans h.mode) rfl rfl ?_
    simp only [Harness.act, Harness.settle]
    rw [hheld, held_requeuePreserveTimestamps hcap', all_of_unmerged hkeep]
  | requeuePreserveTimestamps b =>
    refine h.settle ha h.mode rfl rfl ?_
    simp only [Harness.act, Harness.settle]
    rw [held_requeuePreserveTimestamps hcap, all_of_unmerged hkeep]
  | requeueAsCancelled b reason =>
    refine h.settle ha h.mode rfl rfl ?_
    simp only [Harness.act, Harness.settle]
    rw [held_requeueAsCancelled]
  | markComplete now c =>
    obtain ⟨hheld, hmode⟩ := markComplete_tables (q := s.queue) now c
    exact h.move (hmode.trans h.mode) hheld rfl rfl rfl
  | rehash q =>
    have hr : s.queue.Rehash q := ha
    exact h.move (hr.dedupMode ▸ h.mode) hr.held_eq rfl rfl rfl

/-! ### From the balance to the place of each event -/

theorem map_snd_locate {α : Type} (place : Uuid → Place) (event : α → Event)
    (m : HashMap Uuid (List α)) :
    (↑((locate place event m).map Prod.snd) : Multiset Event) =
      (BucketMap.contents m).map event := by
  rw [BucketMap.contents, Multiset.map_coe, locate, List.map_flatMap, List.map_flatMap]
  simp only [List.map_map, Function.comp_def]

theorem map_snd_batches (place : FlushBatch → Place) (bs : List FlushBatch) :
    (bs.flatMap fun b => b.all.map fun e => (place b, e)).map Prod.snd =
      bs.flatMap FlushBatch.all := by
  rw [List.map_flatMap]
  simp only [List.map_map, Function.comp_def, List.map_id']

theorem map_snd_located (s : Harness) : (↑(s.located.map Prod.snd) : Multiset Event) = s.held := by
  simp only [located, List.map_append, ← Multiset.coe_add, map_snd_locate, map_snd_batches, held,
    EventQueue.held]

/-- Among events with distinct identifiers, an event is the only one with its identifier. -/
theorem filter_id_eq_singleton {l : List Event} (h : (l.map Event.id).Nodup) {e : Event}
    (he : e ∈ l) : l.filter (fun x => x.id = e.id) = [e] := by
  have hnodup : (l.filter fun x => x.id = e.id).Nodup := h.of_map.filter _
  have hall : ∀ x ∈ l.filter (fun x => x.id = e.id), x = e := by
    intro x hx
    obtain ⟨hxl, hid⟩ := List.mem_filter.mp hx
    exact List.inj_on_of_nodup_map h hxl he (of_decide_eq_true hid)
  have hmem : e ∈ l.filter fun x => x.id = e.id := List.mem_filter.mpr ⟨he, by simp⟩
  refine List.perm_singleton.mp ((List.perm_ext_iff_of_nodup hnodup (by simp)).mpr fun x => ?_)
  rw [List.mem_singleton]
  exact ⟨hall x, fun hx => hx ▸ hmem⟩

/-- In a balanced harness every accepted event is in exactly one place. -/
theorem Balanced.conserves {s : Harness} (h : s.Balanced) : s.Conserves := by
  intro e he
  have hperm : (s.located.map Prod.snd).Perm s.accepted := by
    rw [← Multiset.coe_eq_coe, map_snd_located, h.balance]
  have hfilter := hperm.filter fun x => x.id = e.id
  rw [filter_id_eq_singleton h.nodup he, List.perm_singleton, List.filter_map,
    List.map_eq_singleton_iff] at hfilter
  obtain ⟨⟨p, e'⟩, hlist, rfl⟩ := hfilter
  exact ⟨p, hlist⟩

end Harness

/-- Along every run that hands no merged batch to `requeue` or `requeuePreserveTimestamps`, every
accepted event is in exactly one place. -/
theorem conserves_of_run {deadline : Duration} {s : Harness}
    (h : Relation.ReflTransGen (HarnessStep Action.KeepsBoth) (Harness.new deadline) s) :
    s.Conserves := by
  suffices hbalanced : s.Balanced from hbalanced.conserves
  induction h with
  | refl => exact Harness.balanced_new deadline
  | tail _ hstep ih =>
    obtain ⟨a, hallowed, hkeep, rfl, hcap⟩ := hstep
    exact ih.act hallowed hkeep hcap

/-! ### A merged batch that is cancelled, and one that finds no agent -/

/-- The steps of a list of actions are those of a run. -/
def Follows (P : Action → Prop) : Harness → List Action → Prop
  | _, [] => True
  | s, a :: as =>
    a.Allowed s ∧ P a ∧ (∀ e ∈ (s.act a).queue.queues.entries,
      e.2.length < MAX_PENDING_PER_CHANNEL) ∧ Follows P (s.act a) as

theorem belowCap_of_entries {q : EventQueue}
    (h : ∀ e ∈ q.queues.entries, e.2.length < MAX_PENDING_PER_CHANNEL) : BelowCap q := by
  intro c
  cases hc : q.queues.lookup c with
  | none =>
    rw [BucketMap.bucket, hc]
    exact Nat.zero_lt_succ _
  | some queue =>
    rw [BucketMap.bucket, hc]
    exact h ⟨c, queue⟩ (HashMap.mem_entries_iff.mpr hc)

theorem run_of_follows {P : Action → Prop} :
    ∀ {s : Harness} {as : List Action}, Follows P s as →
      Relation.ReflTransGen (HarnessStep P) s (as.foldl Harness.act s)
  | _, [], _ => .refl
  | _, a :: _, ⟨hallowed, hP, hcap, hrest⟩ =>
    .head ⟨a, hallowed, hP, rfl, belowCap_of_entries hcap⟩ (run_of_follows hrest)

/-- The message of a channel that was created and received at time `n`. -/
def message (n : ℕ) : QueuedEvent :=
  ⟨7, ⟨BitVec.ofNat 256 n, 0, n, 9, []⟩, n, "@mention"⟩

/-- The turn of the first message is cancelled by a steer, and the second message is flushed
together with it. -/
def steerRun : List Action :=
  [.push (message 1), .flushNext 2,
    .requeueAsCancelled ⟨7, [(message 1).toBatch], [], none⟩ .steer, .markComplete 3 7,
    .push (message 4), .flushNext 5]

/-- The merged batch of `steerRun`. -/
def mergedBatch : FlushBatch :=
  ⟨7, [(message 4).toBatch], [(message 1).toBatch], some .steer⟩

theorem steerRun_follows (P : Action → Prop) (hP : ∀ a ∈ steerRun, P a) :
    Follows P (.new 100) steerRun := by
  simp only [steerRun, List.forall_mem_cons] at hP
  obtain ⟨h1, h2, h3, h4, h5, h6, -⟩ := hP
  refine ⟨?_, h1, by decide, ?_, h2, by decide, ?_, h3, by decide, ?_, h4, by decide, ?_, h5,
    by decide, ?_, h6, by decide, trivial⟩
  all_goals simp only [Action.Allowed]; decide

/-- Both messages are in the outstanding batch after `steerRun`. -/
theorem conserves_of_run_steer :
    (message 1).event ∈ (steerRun.foldl Harness.act (.new 100)).accepted ∧
      (steerRun.foldl Harness.act (.new 100)).Conserves := by
  refine ⟨by decide, conserves_of_run (run_of_follows (steerRun_follows _ ?_))⟩
  simp [steerRun, Action.KeepsBoth]

/-- When the merged batch finds no free agent, `requeuePreserveTimestamps` loses the first
message. -/
theorem conserves_fails_merged_requeue :
    ¬ ∀ (deadline : Duration) (s : Harness),
      Relation.ReflTransGen (HarnessStep fun _ => True) (.new deadline) s → s.Conserves := by
  intro h
  have hmerged := run_of_follows (steerRun_follows (fun _ => True) fun _ _ => trivial)
  have hlast : Follows (fun _ => True) (steerRun.foldl Harness.act (.new 100))
      [.requeuePreserveTimestamps mergedBatch] := by
    refine ⟨?_, trivial, by decide, trivial⟩
    simp only [Action.Allowed]
    decide
  obtain ⟨p, hp⟩ := h 100 _ (hmerged.trans (run_of_follows hlast)) (message 1).event (by decide)
  have hnone : ((steerRun.foldl Harness.act (.new 100)).act
      (.requeuePreserveTimestamps mergedBatch)).located.filter
        (fun x => x.2.id = (message 1).event.id) = [] := by decide
  exact List.cons_ne_nil _ _ (hp.symm.trans hnone)

end Buzz.Acp.Queue
