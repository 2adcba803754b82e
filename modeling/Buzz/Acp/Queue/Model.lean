import Mathlib.Data.Finset.Basic
import Mathlib.Data.List.MinMax
import Mathlib.Logic.Relation
import Buzz.Core.Filter
import Buzz.Library.Sorting

/-!
# The ACP event queue

The per-channel event queue of `crates/buzz-acp/src/queue.rs`: events wait in one queue a channel,
`flushNext` drains the channel with the oldest head event into a batch and marks it in flight, and
the harness later completes the channel after a success or after putting the batch back with one of
the three requeue operations. Cancelled batches and events withheld for a native steer wait in
tables of their own.

An `Instant` and a `Duration` are numbers of nanoseconds. Every reading of the clock is an argument
`now`, and so is the jittered backoff of `requeue`, a floating-point product in the source. Log
lines are left out.

## Main definitions

* `QueuedEvent`, `BatchEvent`, `FlushBatch`, `EventQueue`.
* `EventQueue.push`, `flushNext`, `markComplete`, `requeue`, `requeuePreserveTimestamps`,
  `requeueAsCancelled`, `hasFlushableWork`, `hasUndispatchedWork`, `drainChannel`,
  `extendInFlightDeadline`, `markNativeSteerPending`, `releaseNativeSteer`, `removeEvent`,
  `compactExpiredState`.
* `Op`, `Step`, `Reachable`: the runs of a queue.
-/

namespace Buzz.Acp.Queue

open Buzz.Core Buzz.Library

/-! ### Limits -/

/-- Maximum events queued per channel before oldest events are dropped. -/
def MAX_PENDING_PER_CHANNEL : ℕ := 500

/-- Maximum events drained into a single batch. -/
def MAX_BATCH_EVENTS : ℕ := 50

/-- Maximum retry attempts before a batch is dead-lettered. -/
def MAX_RETRIES : ℕ := 10

/-- Base retry delay in seconds (doubled each attempt). -/
def BASE_RETRY_DELAY_SECS : ℕ := 5

/-- Cap on retry delay in seconds. -/
def MAX_RETRY_DELAY_SECS : ℕ := 300

/-- Buffer added to `max_turn_duration` to derive the in-flight deadline. -/
def IN_FLIGHT_DEADLINE_BUFFER_SECS : ℕ := 100

/-- Default in-flight deadline: default max turn (7200s) and the 100s buffer. -/
def DEFAULT_IN_FLIGHT_DEADLINE_SECS : ℕ := 7300

/-! ### Events and batches -/

/-- A point of the monotone clock, in nanoseconds. -/
abbrev Instant := ℕ

/-- A span of time, in nanoseconds. -/
abbrev Duration := ℕ

/-- `Duration::from_secs`. -/
def Duration.fromSecs (secs : ℕ) : Duration := secs * 1000000000

/-- What happens to the events of a channel whose prompt is in flight. -/
inductive DedupMode
  | drop
  | queue
  deriving DecidableEq

/-- An event waiting in the queue. -/
structure QueuedEvent where
  channelId : Uuid
  event : Event
  receivedAt : Instant
  promptTag : String
  deriving DecidableEq

/-- A single event inside a `FlushBatch`. -/
structure BatchEvent where
  event : Event
  promptTag : String
  receivedAt : Instant
  deriving DecidableEq

/-- Why a batch's prior turn was cancelled. -/
inductive CancelReason
  | interrupt
  | steer
  deriving DecidableEq

/-- A batch of events to prompt the agent with. The `cancelledEvents` are those of an earlier,
cancelled batch that are dispatched again together with the new `events`. -/
structure FlushBatch where
  channelId : Uuid
  events : List BatchEvent
  cancelledEvents : List BatchEvent
  cancelReason : Option CancelReason
  deriving DecidableEq

/-- The batch form of a queued event. -/
def QueuedEvent.toBatch (qe : QueuedEvent) : BatchEvent :=
  ⟨qe.event, qe.promptTag, qe.receivedAt⟩

/-- The queued form of a batch event, with its original `receivedAt`. -/
def BatchEvent.toQueued (channelId : Uuid) (be : BatchEvent) : QueuedEvent :=
  ⟨channelId, be.event, be.receivedAt, be.promptTag⟩

/-- Whether a queued event has this hexadecimal identifier. -/
def QueuedEvent.hasId (eventId : String) (qe : QueuedEvent) : Bool :=
  qe.event.id.toHex == eventId

/-! ### The queue and its operations -/

/-- Per-channel event queue with per-channel in-flight enforcement. -/
structure EventQueue where
  queues : HashMap Uuid (List QueuedEvent)
  inFlightChannels : Finset Uuid
  inFlightDeadlines : HashMap Uuid Instant
  inFlightBatchSizes : HashMap Uuid ℕ
  retryAfter : HashMap Uuid Instant
  retryCounts : HashMap Uuid ℕ
  dedupMode : DedupMode
  cancelledBatches : HashMap Uuid (List BatchEvent)
  cancelReasons : HashMap Uuid CancelReason
  withheldNativeSteer : HashMap Uuid (List QueuedEvent)
  inFlightDeadline : Duration

namespace EventQueue

/-- A new empty event queue with the given dedup mode. -/
def new (dedupMode : DedupMode) : EventQueue where
  queues := ∅
  inFlightChannels := ∅
  inFlightDeadlines := ∅
  inFlightBatchSizes := ∅
  retryAfter := ∅
  retryCounts := ∅
  dedupMode := dedupMode
  cancelledBatches := ∅
  cancelReasons := ∅
  withheldNativeSteer := ∅
  inFlightDeadline := Duration.fromSecs DEFAULT_IN_FLIGHT_DEADLINE_SECS

/-- Set the in-flight backstop deadline from the configured max turn duration. -/
def withInFlightDeadline (maxTurnDurationSecs : ℕ) (q : EventQueue) : EventQueue :=
  { q with
    inFlightDeadline :=
      Duration.fromSecs (maxTurnDurationSecs + IN_FLIGHT_DEADLINE_BUFFER_SECS) }

/-- Extend an existing in-flight deadline; it never moves backward, and a channel that is not in
flight gets none. -/
def extendInFlightDeadline (now : Instant) (channelId : Uuid) (maxTurnSecs : ℕ)
    (q : EventQueue) : EventQueue :=
  match q.inFlightDeadlines.lookup channelId with
  | none => q
  | some current =>
    let extended := now + Duration.fromSecs (maxTurnSecs + IN_FLIGHT_DEADLINE_BUFFER_SECS)
    if extended > current then
      { q with inFlightDeadlines := q.inFlightDeadlines.insert channelId extended }
    else q

/-- Push an event into the queue of its channel; the result says whether it was accepted. In drop
mode the events of an in-flight channel are discarded; a full queue drops its oldest event. -/
def push (event : QueuedEvent) (q : EventQueue) : Bool × EventQueue :=
  if q.dedupMode = .drop ∧ event.channelId ∈ q.inFlightChannels then (false, q)
  else
    let queue := BucketMap.bucket q.queues event.channelId
    let queue := if queue.length ≥ MAX_PENDING_PER_CHANNEL then queue.tail else queue
    (true, { q with queues := q.queues.insert event.channelId (queue ++ [event]) })

/-- Put events at the front of a channel's queue in their order, and trim the back of the queue to
the per-channel cap. -/
def pushFront (channelId : Uuid) (events : List QueuedEvent)
    (queues : HashMap Uuid (List QueuedEvent)) : HashMap Uuid (List QueuedEvent) :=
  queues.insert channelId
    ((events ++ BucketMap.bucket queues channelId).take MAX_PENDING_PER_CHANNEL)

/-- Release every withheld event of a channel back to the front of its queue. -/
def recoverWithheldForExpiredChannel (channelId : Uuid) (q : EventQueue) : EventQueue :=
  match q.withheldNativeSteer.lookup channelId with
  | none => q
  | some entries =>
    { q with
      withheldNativeSteer := q.withheldNativeSteer.erase channelId
      queues := pushFront channelId entries q.queues }

/-- Release one in-flight channel whose deadline has passed. -/
def expireChannel (q : EventQueue) (id : Uuid) : EventQueue :=
  recoverWithheldForExpiredChannel id
    { q with
      inFlightBatchSizes := q.inFlightBatchSizes.erase id
      inFlightChannels := q.inFlightChannels.erase id
      inFlightDeadlines := q.inFlightDeadlines.erase id }

/-- The in-flight channels whose deadline has passed. -/
def expired (now : Instant) (q : EventQueue) : List Uuid :=
  (q.inFlightDeadlines.entries.filter fun e => now ≥ e.2).map Sigma.fst

/-- Auto-expire the stuck in-flight entries, as `flush_next` and `has_flushable_work` both begin. -/
def expireInFlight (now : Instant) (q : EventQueue) : EventQueue :=
  (q.expired now).foldl expireChannel q

/-- The filter of `flush_next` and `has_flushable_work`: a nonempty queue whose channel is neither
in flight nor throttled. -/
def isCandidate (now : Instant) (q : EventQueue) (id : Uuid) (queue : List QueuedEvent) : Bool :=
  !queue.isEmpty && decide (id ∉ q.inFlightChannels) &&
    (match q.retryAfter.lookup id with
      | none => true
      | some t => decide (t ≤ now))

/-- The arrival of a queue's head event; `flush_next` asks it of nonempty queues only. -/
def headReceivedAt (queue : List QueuedEvent) : Instant :=
  (queue.head?.map QueuedEvent.receivedAt).getD 0

/-- The candidate channel whose head event is the oldest, the first of them in a tie. -/
def nextChannel (now : Instant) (q : EventQueue) : Option Uuid :=
  ((q.queues.entries.filter fun e => isCandidate now q e.1 e.2).argmin
    fun e => headReceivedAt e.2).map Sigma.fst

/-- The first channel with cancelled events waiting that is not in flight. -/
def nextCancelled (q : EventQueue) : Option Uuid :=
  q.cancelledBatches.keys.find? fun id => decide (id ∉ q.inFlightChannels)

/-- Mark a channel in flight with a batch of `size` events. -/
def startFlight (now : Instant) (id : Uuid) (size : ℕ) (q : EventQueue) : EventQueue :=
  { q with
    inFlightChannels := insert id q.inFlightChannels
    inFlightDeadlines := q.inFlightDeadlines.insert id (now + q.inFlightDeadline)
    inFlightBatchSizes := q.inFlightBatchSizes.insert id size }

/-- Flush the cancelled events of a channel as a regular batch. -/
def flushCancelled (now : Instant) (id : Uuid) (q : EventQueue) : FlushBatch × EventQueue :=
  let cancelled := BucketMap.bucket q.cancelledBatches id
  (⟨id, cancelled, [], q.cancelReasons.lookup id⟩,
    startFlight now id cancelled.length
      { q with
        cancelledBatches := q.cancelledBatches.erase id
        cancelReasons := q.cancelReasons.erase id })

/-- Flush up to `MAX_BATCH_EVENTS` queued events of a channel, sorted by creation time, together
with its cancelled events. -/
def flushQueue (now : Instant) (id : Uuid) (q : EventQueue) : FlushBatch × EventQueue :=
  let queue := BucketMap.bucket q.queues id
  let events := sortByKey (fun be => be.event.createdAt)
    ((queue.take MAX_BATCH_EVENTS).map QueuedEvent.toBatch)
  let cancelledEvents := BucketMap.bucket q.cancelledBatches id
  let cancelReason := if cancelledEvents = [] then none else q.cancelReasons.lookup id
  (⟨id, events, cancelledEvents, cancelReason⟩,
    startFlight now id events.length
      { q with
        queues := BucketMap.write q.queues id (queue.drop MAX_BATCH_EVENTS)
        cancelledBatches := q.cancelledBatches.erase id
        cancelReasons := q.cancelReasons.erase id })

/-- What `flush_next` does once the expired entries are gone. -/
def dispatch (now : Instant) (q : EventQueue) : Option FlushBatch × EventQueue :=
  match q.nextChannel now with
  | some id => (some (q.flushQueue now id).1, (q.flushQueue now id).2)
  | none =>
    match q.nextCancelled with
    | some id => (some (q.flushCancelled now id).1, (q.flushCancelled now id).2)
    | none => (none, q)

/-- Try to flush the next batch: the queued events of the channel with the oldest head event or,
when no queue is ready, the cancelled events of some channel. -/
def flushNext (now : Instant) (q : EventQueue) : Option FlushBatch × EventQueue :=
  (q.expireInFlight now).dispatch now

/-- Whether any channel has pending events that are not in flight and not throttled. -/
def hasFlushableWork (now : Instant) (q : EventQueue) : Bool × EventQueue :=
  let q := q.expireInFlight now
  (q.queues.entries.any (fun e => isCandidate now q e.1 e.2) ||
    q.cancelledBatches.keys.any fun id => decide (id ∉ q.inFlightChannels), q)

/-- Whether any undispatched work remains for a channel that is not in flight, throttled or not. -/
def hasUndispatchedWork (q : EventQueue) : Bool :=
  let hasQueued :=
    q.queues.entries.any fun e => !e.2.isEmpty && decide (e.1 ∉ q.inFlightChannels)
  let hasCancelled := q.cancelledBatches.keys.any fun id => decide (id ∉ q.inFlightChannels)
  let hasWithheld :=
    q.withheldNativeSteer.entries.any fun e => !e.2.isEmpty && decide (e.1 ∉ q.inFlightChannels)
  hasQueued || hasCancelled || hasWithheld

/-- Mark the prompt of a channel as complete; the retry counter survives an active throttle. -/
def markComplete (now : Instant) (channelId : Uuid) (q : EventQueue) : EventQueue :=
  let q := { q with
    inFlightChannels := q.inFlightChannels.erase channelId
    inFlightDeadlines := q.inFlightDeadlines.erase channelId
    inFlightBatchSizes := q.inFlightBatchSizes.erase channelId }
  match q.retryAfter.lookup channelId with
  | some deadline =>
    if deadline > now then q
    else
      { q with
        retryAfter := q.retryAfter.erase channelId
        retryCounts := q.retryCounts.erase channelId }
  | none => { q with retryCounts := q.retryCounts.erase channelId }

/-- Seconds of backoff before the jitter: doubled on each attempt, and capped. -/
def backoffSecs (attempt : ℕ) : ℕ :=
  min (BASE_RETRY_DELAY_SECS * 2 ^ min (attempt - 1) 6) MAX_RETRY_DELAY_SECS

/-- Re-queue a batch that failed to process at the front of its channel's queue, throttled by the
jittered backoff; after `MAX_RETRIES` attempts the batch is returned to the caller instead. -/
def requeue (now : Instant) (jitter : ℕ → Duration) (batch : FlushBatch) (q : EventQueue) :
    Option FlushBatch × EventQueue :=
  let channelId := batch.channelId
  let attempt := (q.retryCounts.lookup channelId).getD 0 + 1
  if attempt > MAX_RETRIES then
    (some batch,
      { q with
        retryCounts := (q.retryCounts.insert channelId attempt).erase channelId
        retryAfter := q.retryAfter.erase channelId })
  else
    (none,
      { q with
        retryCounts := q.retryCounts.insert channelId attempt
        queues := pushFront channelId (batch.events.map (BatchEvent.toQueued channelId)) q.queues
        retryAfter := q.retryAfter.insert channelId (now + jitter (backoffSecs attempt)) })

/-- Re-queue a batch for which no agent was available, without a throttle. -/
def requeuePreserveTimestamps (batch : FlushBatch) (q : EventQueue) : EventQueue :=
  { q with
    queues := pushFront batch.channelId
      (batch.events.map (BatchEvent.toQueued batch.channelId)) q.queues }

/-- Store the events of a cancelled batch, to be merged into the channel's next batch. -/
def requeueAsCancelled (batch : FlushBatch) (reason : CancelReason) (q : EventQueue) :
    EventQueue :=
  { q with
    cancelledBatches := q.cancelledBatches.insert batch.channelId
      (BucketMap.bucket q.cancelledBatches batch.channelId ++ batch.cancelledEvents ++ batch.events)
    cancelReasons := q.cancelReasons.insert batch.channelId reason }

/-- Drop all queued, cancelled and withheld events of a channel, returning the identifiers of the
queued ones. -/
def drainChannel (channelId : Uuid) (q : EventQueue) : List String × EventQueue :=
  ((BucketMap.bucket q.queues channelId).map fun e => e.event.id.toHex,
    { q with
      queues := q.queues.erase channelId
      retryAfter := q.retryAfter.erase channelId
      retryCounts := q.retryCounts.erase channelId
      cancelledBatches := q.cancelledBatches.erase channelId
      cancelReasons := q.cancelReasons.erase channelId
      withheldNativeSteer := q.withheldNativeSteer.erase channelId })

/-- Withhold a queued event while a native steer is in flight for it; the result says whether the
event was found. -/
def markNativeSteerPending (channelId : Uuid) (eventId : String) (q : EventQueue) :
    Bool × EventQueue :=
  match q.queues.lookup channelId with
  | none => (false, q)
  | some queue =>
    match queue.find? (QueuedEvent.hasId eventId) with
    | none => (false, q)
    | some qe =>
      (true,
        { q with
          queues := BucketMap.write q.queues channelId (queue.eraseP (QueuedEvent.hasId eventId))
          withheldNativeSteer := BucketMap.push q.withheldNativeSteer channelId qe })

/-- Release a withheld event back to the front of its channel's queue. -/
def releaseNativeSteer (channelId : Uuid) (eventId : String) (q : EventQueue) : EventQueue :=
  match q.withheldNativeSteer.lookup channelId with
  | none => q
  | some entries =>
    match entries.find? (QueuedEvent.hasId eventId) with
    | none => q
    | some qe =>
      { q with
        withheldNativeSteer :=
          BucketMap.write q.withheldNativeSteer channelId
            (entries.eraseP (QueuedEvent.hasId eventId))
        queues := pushFront channelId [qe] q.queues }

/-- Drop a specific event from both the withheld events and the queue of a channel. -/
def removeEvent (channelId : Uuid) (eventId : String) (q : EventQueue) : EventQueue :=
  { q with
    withheldNativeSteer :=
      BucketMap.discard q.withheldNativeSteer channelId (QueuedEvent.hasId eventId)
    queues := BucketMap.discard q.queues channelId (QueuedEvent.hasId eventId) }

/-- Compact expired metadata: past throttles, and the retry counters of idle channels. -/
def compactExpiredState (now : Instant) (q : EventQueue) : EventQueue :=
  let retryAfter := q.retryAfter.retain fun _ deadline => decide (deadline > now)
  { q with
    retryAfter := retryAfter
    retryCounts := q.retryCounts.retain fun ch _ =>
      (retryAfter.lookup ch).isSome || !(BucketMap.bucket q.queues ch).isEmpty ||
        decide (ch ∈ q.inFlightChannels) }

/-- The same queue, its maps iterated in another order. -/
structure Rehash (q q' : EventQueue) : Prop where
  queues : HashMap.Rehash q.queues q'.queues
  inFlightChannels : q.inFlightChannels = q'.inFlightChannels
  inFlightDeadlines : HashMap.Rehash q.inFlightDeadlines q'.inFlightDeadlines
  inFlightBatchSizes : HashMap.Rehash q.inFlightBatchSizes q'.inFlightBatchSizes
  retryAfter : HashMap.Rehash q.retryAfter q'.retryAfter
  retryCounts : HashMap.Rehash q.retryCounts q'.retryCounts
  dedupMode : q.dedupMode = q'.dedupMode
  cancelledBatches : HashMap.Rehash q.cancelledBatches q'.cancelledBatches
  cancelReasons : HashMap.Rehash q.cancelReasons q'.cancelReasons
  withheldNativeSteer : HashMap.Rehash q.withheldNativeSteer q'.withheldNativeSteer
  inFlightDeadline : q.inFlightDeadline = q'.inFlightDeadline

end EventQueue

/-! ### Runs -/

/-- An operation on the queue, with its clock readings. A batch is requeued only after `flushNext`
returned it, the one place of the source that builds batches; all that is asked of it here is that
it carries new events, as every such batch does. -/
inductive Op
  | push (event : QueuedEvent)
  | flushNext (now : Instant)
  | markComplete (now : Instant) (channelId : Uuid)
  | requeue (now : Instant) (jitter : ℕ → Duration) (batch : FlushBatch) (h : batch.events ≠ [])
  | requeuePreserveTimestamps (batch : FlushBatch) (h : batch.events ≠ [])
  | requeueAsCancelled (batch : FlushBatch) (h : batch.events ≠ []) (reason : CancelReason)
  | drainChannel (channelId : Uuid)
  | extendInFlightDeadline (now : Instant) (channelId : Uuid) (maxTurnSecs : ℕ)
  | markNativeSteerPending (channelId : Uuid) (eventId : String)
  | releaseNativeSteer (channelId : Uuid) (eventId : String)
  | removeEvent (channelId : Uuid) (eventId : String)
  | hasFlushableWork (now : Instant)
  | compactExpiredState (now : Instant)

/-- The queue after an operation. -/
def Op.apply : Op → EventQueue → EventQueue
  | push event, q => (q.push event).2
  | flushNext now, q => (q.flushNext now).2
  | markComplete now channelId, q => q.markComplete now channelId
  | requeue now jitter batch _, q => (q.requeue now jitter batch).2
  | requeuePreserveTimestamps batch _, q => q.requeuePreserveTimestamps batch
  | requeueAsCancelled batch _ reason, q => q.requeueAsCancelled batch reason
  | drainChannel channelId, q => (q.drainChannel channelId).2
  | extendInFlightDeadline now channelId secs, q => q.extendInFlightDeadline now channelId secs
  | markNativeSteerPending channelId eventId, q => (q.markNativeSteerPending channelId eventId).2
  | releaseNativeSteer channelId eventId, q => q.releaseNativeSteer channelId eventId
  | removeEvent channelId eventId, q => q.removeEvent channelId eventId
  | hasFlushableWork now, q => (q.hasFlushableWork now).2
  | compactExpiredState now, q => q.compactExpiredState now

/-- One step of a run: an operation, or a change of iteration order of the maps. -/
inductive Step : EventQueue → EventQueue → Prop
  | op (q : EventQueue) (o : Op) : Step q (o.apply q)
  | rehash {q q' : EventQueue} (h : q.Rehash q') : Step q q'

/-- The queues reachable from a new queue, in either dedup mode and with any in-flight deadline. -/
def Reachable (q : EventQueue) : Prop :=
  ∃ mode deadline, Relation.ReflTransGen Step
    { EventQueue.new mode with inFlightDeadline := deadline } q

end Buzz.Acp.Queue
