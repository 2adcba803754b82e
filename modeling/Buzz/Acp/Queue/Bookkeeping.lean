import Buzz.Acp.Queue.Model

/-!
# Bookkeeping of the event queue, and agreement of the predicate with the flush

The maps of an event queue fall into four groups that the operations change together: the channel
queues, the three in-flight tables, the cancelled batches with their reasons, and the withheld
events. `Bookkept` states what each group keeps; every operation keeps it. On a bookkept queue
`hasFlushableWork` and `flushNext`, whose filters are written separately in the source, agree.

## Main definitions

* `QueuesOk`, `FlightOk`, `CancelledOk`, `Bookkept`.
* `FromQueue`, `FromCancelled`: what a flushed batch is made of.

## Main results

* `bookkept_of_reachable`: every reachable queue is bookkept.
* `reachable_bookkeeping_and_flush`.
-/

namespace Buzz.Acp.Queue

open Buzz.Core Buzz.Library EventQueue

/-! ### The four groups of maps -/

/-- No channel queue is empty, and none is above the cap. -/
structure QueuesOk (queues : HashMap Uuid (List QueuedEvent)) : Prop where
  nonempty : BucketMap.NoEmptyBucket queues
  cap : ∀ c, (BucketMap.bucket queues c).length ≤ MAX_PENDING_PER_CHANNEL

/-- The three in-flight tables have the same channels. -/
structure FlightOk (channels : Finset Uuid) (deadlines : HashMap Uuid Instant)
    (sizes : HashMap Uuid ℕ) : Prop where
  deadlines : ∀ c, c ∈ channels ↔ (deadlines.lookup c).isSome = true
  sizes : ∀ c, c ∈ channels ↔ (sizes.lookup c).isSome = true

/-- No cancelled batch is empty, and a reason is kept for cancelled batches only. -/
structure CancelledOk (batches : HashMap Uuid (List BatchEvent))
    (reasons : HashMap Uuid CancelReason) : Prop where
  nonempty : BucketMap.NoEmptyBucket batches
  reasons : ∀ c, (reasons.lookup c).isSome = true → (batches.lookup c).isSome = true

/-- The bookkeeping of a queue. -/
structure Bookkept (q : EventQueue) : Prop where
  queues : QueuesOk q.queues
  flight : FlightOk q.inFlightChannels q.inFlightDeadlines q.inFlightBatchSizes
  cancelled : CancelledOk q.cancelledBatches q.cancelReasons
  withheld : BucketMap.NoEmptyBucket q.withheldNativeSteer

section Groups

variable {queues : HashMap Uuid (List QueuedEvent)} {channels : Finset Uuid}
  {deadlines : HashMap Uuid Instant} {sizes : HashMap Uuid ℕ}
  {batches : HashMap Uuid (List BatchEvent)} {reasons : HashMap Uuid CancelReason}

theorem QueuesOk.insert (h : QueuesOk queues) (c : Uuid) {l : List QueuedEvent} (hl : l ≠ [])
    (hcap : l.length ≤ MAX_PENDING_PER_CHANNEL) : QueuesOk (queues.insert c l) where
  nonempty := h.nonempty.insert c hl
  cap c' := by
    rw [BucketMap.bucket, HashMap.lookup_insert_eq]
    split_ifs
    · exact hcap
    · exact h.cap c'

theorem QueuesOk.erase (h : QueuesOk queues) (c : Uuid) : QueuesOk (queues.erase c) where
  nonempty := h.nonempty.erase c
  cap c' := by
    rw [BucketMap.bucket, HashMap.lookup_erase_eq]
    split_ifs
    · exact Nat.zero_le _
    · exact h.cap c'

theorem QueuesOk.write (h : QueuesOk queues) (c : Uuid) {l : List QueuedEvent}
    (hcap : l.length ≤ MAX_PENDING_PER_CHANNEL) : QueuesOk (BucketMap.write queues c l) := by
  rw [BucketMap.write]
  split_ifs with hl
  · exact h.erase c
  · exact h.insert c hl hcap

theorem QueuesOk.discard (h : QueuesOk queues) (c : Uuid) (p : QueuedEvent → Bool) :
    QueuesOk (BucketMap.discard queues c p) where
  nonempty := h.nonempty.discard c p
  cap c' := by
    rw [BucketMap.bucket_discard]
    split_ifs
    · exact (List.length_filter_le _ _).trans (h.cap c)
    · exact h.cap c'

theorem QueuesOk.pushFront (h : QueuesOk queues) (c : Uuid) {events : List QueuedEvent}
    (hne : events ≠ []) : QueuesOk (pushFront c events queues) := by
  refine h.insert c ?_ (List.length_take_le _ _)
  rw [← List.length_pos_iff, List.length_take, List.length_append]
  have hpos := List.length_pos_iff.mpr hne
  simp only [MAX_PENDING_PER_CHANNEL]
  omega

theorem FlightOk.erase (h : FlightOk channels deadlines sizes) (c : Uuid) :
    FlightOk (channels.erase c) (deadlines.erase c) (sizes.erase c) where
  deadlines c' := by
    rw [Finset.mem_erase, HashMap.lookup_erase_eq, h.deadlines c']
    split_ifs with hc <;> simp [hc]
  sizes c' := by
    rw [Finset.mem_erase, HashMap.lookup_erase_eq, h.sizes c']
    split_ifs with hc <;> simp [hc]

theorem FlightOk.insert (h : FlightOk channels deadlines sizes) (c : Uuid) (d : Instant) (n : ℕ) :
    FlightOk (insert c channels) (deadlines.insert c d) (sizes.insert c n) where
  deadlines c' := by
    rw [Finset.mem_insert, HashMap.lookup_insert_eq, h.deadlines c']
    split_ifs with hc <;> simp [hc]
  sizes c' := by
    rw [Finset.mem_insert, HashMap.lookup_insert_eq, h.sizes c']
    split_ifs with hc <;> simp [hc]

theorem FlightOk.extend (h : FlightOk channels deadlines sizes) {c : Uuid} {d : Instant}
    (hc : deadlines.lookup c = some d) (d' : Instant) :
    FlightOk channels (deadlines.insert c d') sizes where
  deadlines c' := by
    rw [HashMap.lookup_insert_eq, h.deadlines c']
    split_ifs with hcc
    · rw [hcc, hc]; rfl
    · rfl
  sizes := h.sizes

theorem CancelledOk.erase (h : CancelledOk batches reasons) (c : Uuid) :
    CancelledOk (batches.erase c) (reasons.erase c) where
  nonempty := h.nonempty.erase c
  reasons c' := by
    rw [HashMap.lookup_erase_eq, HashMap.lookup_erase_eq]
    split_ifs
    · exact id
    · exact h.reasons c'

theorem CancelledOk.insert (h : CancelledOk batches reasons) (c : Uuid) {l : List BatchEvent}
    (hl : l ≠ []) (reason : CancelReason) :
    CancelledOk (batches.insert c l) (reasons.insert c reason) where
  nonempty := h.nonempty.insert c hl
  reasons c' := by
    rw [HashMap.lookup_insert_eq, HashMap.lookup_insert_eq]
    split_ifs
    · exact fun _ => rfl
    · exact h.reasons c'

end Groups

/-! ### Every operation keeps the bookkeeping -/

namespace Bookkept

variable {q : EventQueue}

theorem new (mode : DedupMode) (deadline : Duration) :
    Bookkept { EventQueue.new mode with inFlightDeadline := deadline } where
  queues := ⟨fun _ => by simp [EventQueue.new], fun _ => by simp [EventQueue.new, BucketMap.bucket]⟩
  flight := ⟨fun _ => by simp [EventQueue.new], fun _ => by simp [EventQueue.new]⟩
  cancelled := ⟨fun _ => by simp [EventQueue.new], fun _ => by simp [EventQueue.new]⟩
  withheld := fun _ => by simp [EventQueue.new]

theorem push (h : Bookkept q) (event : QueuedEvent) : Bookkept (q.push event).2 := by
  rw [EventQueue.push]
  split_ifs with hdrop
  · exact h
  · refine { h with queues := h.queues.insert _ (by simp) ?_ }
    have hcap := h.queues.cap event.channelId
    split_ifs with hfull
    · rw [List.length_append, List.length_tail, List.length_singleton]
      simp only [MAX_PENDING_PER_CHANNEL] at hfull hcap ⊢
      omega
    · rw [List.length_append, List.length_singleton]
      omega

theorem recoverWithheldForExpiredChannel (h : Bookkept q) (id : Uuid) :
    Bookkept (q.recoverWithheldForExpiredChannel id) := by
  rw [EventQueue.recoverWithheldForExpiredChannel]
  split
  · exact h
  · next entries hentries =>
    have hne : entries ≠ [] := fun he => h.withheld id (he ▸ hentries)
    exact { h with queues := h.queues.pushFront id hne, withheld := h.withheld.erase id }

theorem expireChannel (h : Bookkept q) (id : Uuid) : Bookkept (q.expireChannel id) := by
  have hreleased : Bookkept { q with
      inFlightBatchSizes := q.inFlightBatchSizes.erase id
      inFlightChannels := q.inFlightChannels.erase id
      inFlightDeadlines := q.inFlightDeadlines.erase id } :=
    { h with flight := h.flight.erase id }
  exact hreleased.recoverWithheldForExpiredChannel id

theorem expireInFlight (h : Bookkept q) (now : Instant) : Bookkept (q.expireInFlight now) := by
  rw [EventQueue.expireInFlight]
  generalize q.expired now = ids
  induction ids generalizing q with
  | nil => exact h
  | cons id ids ih => exact ih (h.expireChannel id)

theorem startFlight (h : Bookkept q) (now : Instant) (id : Uuid) (size : ℕ) :
    Bookkept (q.startFlight now id size) :=
  { h with flight := h.flight.insert id _ size }

theorem flushCancelled (h : Bookkept q) (now : Instant) (id : Uuid) :
    Bookkept (q.flushCancelled now id).2 := by
  have hfreed : Bookkept { q with
      cancelledBatches := q.cancelledBatches.erase id
      cancelReasons := q.cancelReasons.erase id } :=
    { h with cancelled := h.cancelled.erase id }
  exact hfreed.startFlight now id _

theorem flushQueue (h : Bookkept q) (now : Instant) (id : Uuid) :
    Bookkept (q.flushQueue now id).2 := by
  have hrest : ((BucketMap.bucket q.queues id).drop MAX_BATCH_EVENTS).length ≤
      MAX_PENDING_PER_CHANNEL := by
    rw [List.length_drop]
    exact (Nat.sub_le _ _).trans (h.queues.cap id)
  have hfreed : Bookkept { q with
      queues := BucketMap.write q.queues id
        ((BucketMap.bucket q.queues id).drop MAX_BATCH_EVENTS)
      cancelledBatches := q.cancelledBatches.erase id
      cancelReasons := q.cancelReasons.erase id } :=
    { h with queues := h.queues.write id hrest, cancelled := h.cancelled.erase id }
  exact hfreed.startFlight now id _

theorem dispatch (h : Bookkept q) (now : Instant) : Bookkept (q.dispatch now).2 := by
  rw [EventQueue.dispatch]
  split
  · exact h.flushQueue now _
  · split
    · exact h.flushCancelled now _
    · exact h

theorem markComplete (h : Bookkept q) (now : Instant) (c : Uuid) :
    Bookkept (q.markComplete now c) := by
  have hflight := h.flight.erase c
  rw [EventQueue.markComplete]
  split
  · split_ifs
    · exact { h with flight := hflight }
    · exact { h with flight := hflight }
  · exact { h with flight := hflight }

theorem requeue (h : Bookkept q) (now : Instant) (jitter : ℕ → Duration) {batch : FlushBatch}
    (hne : batch.events ≠ []) : Bookkept (q.requeue now jitter batch).2 := by
  rw [EventQueue.requeue]
  split_ifs
  · exact { h with }
  · exact { h with queues := h.queues.pushFront _ (by simpa using hne) }

theorem requeuePreserveTimestamps (h : Bookkept q) {batch : FlushBatch}
    (hne : batch.events ≠ []) : Bookkept (q.requeuePreserveTimestamps batch) :=
  { h with queues := h.queues.pushFront _ (by simpa using hne) }

theorem requeueAsCancelled (h : Bookkept q) {batch : FlushBatch} (hne : batch.events ≠ [])
    (reason : CancelReason) : Bookkept (q.requeueAsCancelled batch reason) :=
  { h with cancelled := h.cancelled.insert _ (by simp [hne]) reason }

theorem drainChannel (h : Bookkept q) (c : Uuid) : Bookkept (q.drainChannel c).2 :=
  { h with
    queues := h.queues.erase c
    cancelled := h.cancelled.erase c
    withheld := h.withheld.erase c }

theorem extendInFlightDeadline (h : Bookkept q) (now : Instant) (c : Uuid) (secs : ℕ) :
    Bookkept (q.extendInFlightDeadline now c secs) := by
  rw [EventQueue.extendInFlightDeadline]
  split
  · exact h
  · next current hcurrent =>
    dsimp only
    split_ifs
    · exact { h with flight := h.flight.extend hcurrent _ }
    · exact h

theorem markNativeSteerPending (h : Bookkept q) (c : Uuid) (eventId : String) :
    Bookkept (q.markNativeSteerPending c eventId).2 := by
  rw [EventQueue.markNativeSteerPending]
  split
  · exact h
  · next queue hqueue =>
    split
    · exact h
    · refine { h with queues := h.queues.write c ?_, withheld := h.withheld.push c _ }
      have hcap := h.queues.cap c
      rw [BucketMap.bucket, hqueue] at hcap
      exact List.length_eraseP_le.trans hcap

theorem releaseNativeSteer (h : Bookkept q) (c : Uuid) (eventId : String) :
    Bookkept (q.releaseNativeSteer c eventId) := by
  rw [EventQueue.releaseNativeSteer]
  split
  · exact h
  · split
    · exact h
    · exact { h with
        queues := h.queues.pushFront c (List.cons_ne_nil _ _)
        withheld := h.withheld.write c _ }

theorem removeEvent (h : Bookkept q) (c : Uuid) (eventId : String) :
    Bookkept (q.removeEvent c eventId) :=
  { h with queues := h.queues.discard c _, withheld := h.withheld.discard c _ }

theorem rehash {q' : EventQueue} (h : Bookkept q) (hr : q.Rehash q') : Bookkept q' where
  queues :=
    ⟨fun c => hr.queues.lookup_eq c ▸ h.queues.nonempty c, fun c => by
      have hcap := h.queues.cap c
      rwa [BucketMap.bucket, hr.queues.lookup_eq c] at hcap⟩
  flight :=
    ⟨fun c => by
      rw [← hr.inFlightChannels, ← hr.inFlightDeadlines.lookup_eq c]
      exact h.flight.deadlines c,
    fun c => by
      rw [← hr.inFlightChannels, ← hr.inFlightBatchSizes.lookup_eq c]
      exact h.flight.sizes c⟩
  cancelled :=
    ⟨fun c => hr.cancelledBatches.lookup_eq c ▸ h.cancelled.nonempty c, fun c => by
      rw [← hr.cancelReasons.lookup_eq c, ← hr.cancelledBatches.lookup_eq c]
      exact h.cancelled.reasons c⟩
  withheld c := hr.withheldNativeSteer.lookup_eq c ▸ h.withheld c

theorem apply (h : Bookkept q) : ∀ o : Op, Bookkept (o.apply q)
  | .push event => h.push event
  | .flushNext now => (h.expireInFlight now).dispatch now
  | .markComplete now c => h.markComplete now c
  | .requeue now jitter _ hne => h.requeue now jitter hne
  | .requeuePreserveTimestamps _ hne => h.requeuePreserveTimestamps hne
  | .requeueAsCancelled _ hne reason => h.requeueAsCancelled hne reason
  | .drainChannel c => h.drainChannel c
  | .extendInFlightDeadline now c secs => h.extendInFlightDeadline now c secs
  | .markNativeSteerPending c eventId => h.markNativeSteerPending c eventId
  | .releaseNativeSteer c eventId => h.releaseNativeSteer c eventId
  | .removeEvent c eventId => h.removeEvent c eventId
  | .hasFlushableWork now => h.expireInFlight now
  | .compactExpiredState _ => { h with }

end Bookkept

/-- Every reachable queue is bookkept. -/
theorem bookkept_of_reachable {q : EventQueue} (h : Reachable q) : Bookkept q := by
  obtain ⟨mode, deadline, hrun⟩ := h
  induction hrun with
  | refl => exact Bookkept.new mode deadline
  | tail _ hstep ih =>
    cases hstep with
    | op o => exact ih.apply o
    | rehash hr => exact ih.rehash hr

/-! ### Agreement of the predicate with the flush -/

/-- What a batch flushed from a channel queue is: `q` is the queue after expiry. -/
structure FromQueue (now : Instant) (q : EventQueue) (b : FlushBatch) (queue : List QueuedEvent) :
    Prop where
  lookup : q.queues.lookup b.channelId = some queue
  candidate : isCandidate now q b.channelId queue = true
  length_le : b.events.length ≤ MAX_BATCH_EVENTS
  perm : b.events.Perm ((queue.take MAX_BATCH_EVENTS).map QueuedEvent.toBatch)
  sorted : b.events.Pairwise fun x y => x.event.createdAt ≤ y.event.createdAt
  ties : ∀ t, b.events.filter (fun x => x.event.createdAt = t) =
    ((queue.take MAX_BATCH_EVENTS).map QueuedEvent.toBatch).filter fun x => x.event.createdAt = t

/-- What a batch is that was flushed because no queue was ready: the waiting cancelled events of
its channel, and no new ones. -/
structure FromCancelled (now : Instant) (q : EventQueue) (b : FlushBatch) : Prop where
  noCandidate : ∀ c queue, q.queues.lookup c = some queue → isCandidate now q c queue = false
  events : q.cancelledBatches.lookup b.channelId = some b.events
  cancelledEvents : b.cancelledEvents = []

theorem nextChannel_eq_none_iff (now : Instant) (q : EventQueue) :
    q.nextChannel now = none ↔
      ∀ c queue, q.queues.lookup c = some queue → isCandidate now q c queue = false := by
  rw [nextChannel, Option.map_eq_none_iff, List.argmin_eq_none, List.filter_eq_nil_iff]
  constructor
  · intro h c queue hlookup
    simpa using h ⟨c, queue⟩ (HashMap.mem_entries_iff.mpr hlookup)
  · rintro h ⟨c, queue⟩ hmem
    simpa using h c queue (HashMap.mem_entries_iff.mp hmem)

theorem nextChannel_eq_some {now : Instant} {q : EventQueue} {c : Uuid}
    (h : q.nextChannel now = some c) :
    ∃ queue, q.queues.lookup c = some queue ∧ isCandidate now q c queue = true := by
  obtain ⟨⟨c', queue⟩, hargmin, rfl⟩ := Option.map_eq_some_iff.mp h
  obtain ⟨hmem, hcandidate⟩ := List.mem_filter.mp (List.argmin_mem hargmin)
  exact ⟨queue, HashMap.mem_entries_iff.mp hmem, hcandidate⟩

theorem notMem_of_isCandidate {now : Instant} {q : EventQueue} {c : Uuid}
    {queue : List QueuedEvent} (h : isCandidate now q c queue = true) :
    queue ≠ [] ∧ c ∉ q.inFlightChannels := by
  simp only [isCandidate, Bool.and_eq_true, Bool.not_eq_true', List.isEmpty_eq_false_iff,
    decide_eq_true_eq] at h
  exact h.1

theorem nextCancelled_eq_some {q : EventQueue} {c : Uuid} (h : q.nextCancelled = some c) :
    (∃ events, q.cancelledBatches.lookup c = some events) ∧ c ∉ q.inFlightChannels := by
  have hmem := List.mem_of_find?_eq_some h
  rw [HashMap.mem_keys_iff, Option.isSome_iff_exists] at hmem
  rw [nextCancelled] at h
  have hfree := List.find?_some h
  exact ⟨hmem, of_decide_eq_true hfree⟩

theorem flushQueue_fromQueue {now : Instant} {q : EventQueue} {c : Uuid}
    {queue : List QueuedEvent} (hlookup : q.queues.lookup c = some queue)
    (hcandidate : isCandidate now q c queue = true) :
    FromQueue now q (q.flushQueue now c).1 queue := by
  have hbucket : BucketMap.bucket q.queues c = queue := by rw [BucketMap.bucket, hlookup]; rfl
  refine ⟨hlookup, hcandidate, ?_, ?_, sortByKey_pairwise _ _, fun t => ?_⟩
  · rw [flushQueue, hbucket, length_sortByKey, List.length_map]
    exact List.length_take_le _ _
  · rw [flushQueue, hbucket]
    exact sortByKey_perm _ _
  · rw [flushQueue, hbucket]
    exact filter_sortByKey _ _ t

/-- The batch of a dispatch is for a channel that is not in flight, carries events, and comes from
the queue of a candidate or, when there is none, from the cancelled batches. -/
theorem dispatch_eq_some {now : Instant} {q : EventQueue} (h : Bookkept q) {b : FlushBatch}
    (hb : (q.dispatch now).1 = some b) :
    b.channelId ∉ q.inFlightChannels ∧ b.events ≠ [] ∧
      ((∃ queue, FromQueue now q b queue) ∨ FromCancelled now q b) := by
  rw [dispatch] at hb
  split at hb
  · next c hc =>
    obtain ⟨queue, hlookup, hcandidate⟩ := nextChannel_eq_some hc
    obtain ⟨hne, hfree⟩ := notMem_of_isCandidate hcandidate
    have hfrom := flushQueue_fromQueue hlookup hcandidate
    obtain rfl := Option.some.inj hb
    refine ⟨hfree, fun hnil => hne ?_, Or.inl ⟨queue, hfrom⟩⟩
    have hdrained := hfrom.perm.length_eq
    rw [hnil, List.length_nil, List.length_map, List.length_take] at hdrained
    rw [← List.length_eq_zero_iff]
    simp only [MAX_BATCH_EVENTS] at hdrained
    omega
  · next hnone =>
    split at hb
    · next c hc =>
      obtain ⟨⟨events, hevents⟩, hfree⟩ := nextCancelled_eq_some hc
      obtain rfl := Option.some.inj hb
      have hbucket : BucketMap.bucket q.cancelledBatches c = events := by
        rw [BucketMap.bucket, hevents]; rfl
      refine ⟨hfree, fun hnil => h.cancelled.nonempty c ?_, Or.inr ⟨?_, ?_, rfl⟩⟩
      · rw [hevents, ← hbucket]
        exact congrArg some hnil
      · exact (nextChannel_eq_none_iff now q).mp hnone
      · rw [flushCancelled, hbucket]
        exact hevents
    · cases hb

theorem dispatch_isSome_iff (now : Instant) (q : EventQueue) :
    (q.dispatch now).1.isSome = true ↔
      (q.nextChannel now).isSome = true ∨ q.nextCancelled.isSome = true := by
  rw [dispatch]
  cases q.nextChannel now with
  | some c => simp
  | none => cases q.nextCancelled <;> simp

theorem hasFlushableWork_iff (now : Instant) (q : EventQueue) :
    (q.hasFlushableWork now).1 = true ↔ (q.flushNext now).1.isSome = true := by
  rw [flushNext, dispatch_isSome_iff, hasFlushableWork, Bool.or_eq_true]
  refine or_congr ?_ ?_
  · rw [nextChannel, Option.isSome_map, Option.isSome_iff_ne_none, ne_eq, List.argmin_eq_none,
      List.filter_eq_nil_iff, List.any_eq_true]
    simp only [not_forall, not_not, exists_prop]
  · rw [nextCancelled, List.find?_isSome, List.any_eq_true]

/-- In every reachable queue the in-flight tables agree, the channel queues are nonempty and
capped, and reasons are kept for cancelled batches only; and at every clock reading the predicate
`hasFlushableWork` is true exactly when `flushNext` returns a batch, whose channel was free, whose
events are not empty, and which is either the sorted head of a ready queue or a waiting cancelled
batch. -/
theorem reachable_bookkeeping_and_flush {q : EventQueue} (h : Reachable q) :
    (q.inFlightChannels = q.inFlightDeadlines.keys.toFinset ∧
      q.inFlightChannels = q.inFlightBatchSizes.keys.toFinset) ∧
    (∀ c queue, q.queues.lookup c = some queue →
      queue ≠ [] ∧ queue.length ≤ MAX_PENDING_PER_CHANNEL) ∧
    q.cancelReasons.keys ⊆ q.cancelledBatches.keys ∧
    ∀ now,
      ((q.hasFlushableWork now).1 = true ↔ ∃ b, (q.flushNext now).1 = some b) ∧
      ∀ b, (q.flushNext now).1 = some b →
        b.channelId ∉ (q.expireInFlight now).inFlightChannels ∧ b.events ≠ [] ∧
          ((∃ queue, FromQueue now (q.expireInFlight now) b queue) ∨
            FromCancelled now (q.expireInFlight now) b) := by
  have hq := bookkept_of_reachable h
  refine ⟨⟨?_, ?_⟩, ?_, ?_, fun now => ⟨?_, ?_⟩⟩
  · ext c
    rw [List.mem_toFinset, HashMap.mem_keys_iff, hq.flight.deadlines]
  · ext c
    rw [List.mem_toFinset, HashMap.mem_keys_iff, hq.flight.sizes]
  · intro c queue hlookup
    have hcap := hq.queues.cap c
    rw [BucketMap.bucket, hlookup] at hcap
    exact ⟨fun hnil => hq.queues.nonempty c (hnil ▸ hlookup), hcap⟩
  · intro c hc
    rw [HashMap.mem_keys_iff] at hc ⊢
    exact hq.cancelled.reasons c hc
  · rw [hasFlushableWork_iff, Option.isSome_iff_exists]
  · exact fun b hb => dispatch_eq_some (hq.expireInFlight now) hb

/-- One message pushed into a new queue is flushed at the next clock reading. -/
theorem reachable_bookkeeping_and_flush_onePush :
    ∃ b, (((EventQueue.new .queue).push ⟨7, ⟨1, 0, 5, 9, []⟩, 3, "@mention"⟩).2.flushNext 4).1 =
      some b ∧ b.channelId = 7 ∧ b.events ≠ [] := by
  have hreach : Reachable ((EventQueue.new .queue).push ⟨7, ⟨1, 0, 5, 9, []⟩, 3, "@mention"⟩).2 :=
    ⟨.queue, _, .tail .refl (.op _ (.push _))⟩
  obtain ⟨hwork, hbatch⟩ := (reachable_bookkeeping_and_flush hreach).2.2.2 4
  obtain ⟨b, hb⟩ := hwork.mp (by decide)
  have hchannel : ((((EventQueue.new .queue).push
      ⟨7, ⟨1, 0, 5, 9, []⟩, 3, "@mention"⟩).2.flushNext 4).1.map FlushBatch.channelId) =
      some 7 := by decide
  rw [hb] at hchannel
  exact ⟨b, hb, Option.some.inj hchannel, (hbatch b hb).2.1⟩

end Buzz.Acp.Queue
