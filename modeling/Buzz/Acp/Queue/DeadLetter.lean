import Buzz.Acp.Queue.Bookkeeping

/-!
# Dead letters

One channel of an event queue, among any others. Every batch of the channel is a turn that ends in a
success, when the channel is completed, or in a failure, when the batch is requeued and the channel
completed before the backoff has elapsed. The failures since the last success or dead letter are
counted in `retry_counts`, which `mark_complete`, `requeue` and `compact_expired_state` each may
clear.

The counter survives between the turns because a failed batch is back in the queue, and during a
turn because the channel is in flight; a turn begins only when no backoff is active, so that its
success is told from its failure by the backoff that a failure sets.

A turn returns through `mark_complete` before its in-flight deadline, as the deadline is longer than
the longest turn.

## Main definitions

* `Turns`, `TurnEnd`, `failuresSince`: a queue seen from one channel.
* `TurnStep`: what can happen.
* `Counted`: the counter is right, and nothing will clear it.

## Main results

* `Counted.step`, `Counted.run`.
* `dead_letter_iff`.
-/

namespace Buzz.Acp.Queue

open Buzz.Core Buzz.Library EventQueue

/-! ### Turns -/

/-- How a turn ended. -/
inductive TurnEnd
  | success
  | failure
  | deadLetter
  deriving DecidableEq

/-- The failures since the last success or dead letter, the last end first. -/
def failuresSince : List TurnEnd → ℕ
  | .failure :: ends => failuresSince ends + 1
  | _ => 0

/-- A queue, the clock, the batch of the channel that has not ended, and how its turns ended, the
last one first. -/
structure Turns where
  queue : EventQueue
  clock : Instant
  turn : Option FlushBatch
  ends : List TurnEnd

/-- A new queue. -/
def Turns.new (mode : DedupMode) (deadline : Duration) : Turns :=
  ⟨{ EventQueue.new mode with inFlightDeadline := deadline }, 0, none, []⟩

/-- Operations on other channels, and those that no channel owns. -/
def Elsewhere (c : Uuid) : Op → Prop
  | .push event => event.channelId ≠ c
  | .flushNext _ | .hasFlushableWork _ | .compactExpiredState _ => False
  | .markComplete _ channelId => channelId ≠ c
  | .requeue _ _ batch _ => batch.channelId ≠ c
  | .requeuePreserveTimestamps batch _ => batch.channelId ≠ c
  | .requeueAsCancelled batch _ _ => batch.channelId ≠ c
  | .drainChannel channelId => channelId ≠ c
  | .extendInFlightDeadline _ _ _ => True
  | .markNativeSteerPending channelId _ => channelId ≠ c
  | .releaseNativeSteer channelId _ => channelId ≠ c
  | .removeEvent channelId _ => channelId ≠ c

/-- What can happen in the life of channel `c`. -/
inductive TurnStep (c : Uuid) : Turns → Turns → Prop
  | push (s : Turns) (event : QueuedEvent) : TurnStep c s { s with queue := (s.queue.push event).2 }
  | flushNext (s : Turns) (now : Instant) (hclock : s.clock ≤ now)
      (hlive : c ∉ s.queue.expired now) :
      TurnStep c s { s with
        queue := (s.queue.flushNext now).2
        clock := now
        turn := match (s.queue.flushNext now).1 with
          | some batch => if batch.channelId = c then some batch else s.turn
          | none => s.turn }
  | hasFlushableWork (s : Turns) (now : Instant) (hclock : s.clock ≤ now)
      (hlive : c ∉ s.queue.expired now) :
      TurnStep c s { s with queue := (s.queue.hasFlushableWork now).2, clock := now }
  | succeed (s : Turns) {batch : FlushBatch} (now : Instant) (hclock : s.clock ≤ now)
      (hturn : s.turn = some batch) :
      TurnStep c s
        { queue := s.queue.markComplete now c
          clock := now
          turn := none
          ends := .success :: s.ends }
  | fail (s : Turns) {batch : FlushBatch} (now now' : Instant) (jitter : ℕ → Duration)
      (hclock : s.clock ≤ now) (hturn : s.turn = some batch) (hnow : now ≤ now')
      (hearly : ∀ deadline, (s.queue.requeue now jitter batch).2.retryAfter.lookup c =
        some deadline → now' < deadline) :
      TurnStep c s
        { queue := (s.queue.requeue now jitter batch).2.markComplete now' c
          clock := now'
          turn := none
          ends := match (s.queue.requeue now jitter batch).1 with
            | some _ => .deadLetter :: s.ends
            | none => .failure :: s.ends }
  | compactExpiredState (s : Turns) (now : Instant) (hclock : s.clock ≤ now) :
      TurnStep c s { s with queue := s.queue.compactExpiredState now, clock := now }
  | elsewhere (s : Turns) (o : Op) (h : Elsewhere c o) :
      TurnStep c s { s with queue := o.apply s.queue }
  | rehash (s : Turns) {q : EventQueue} (h : s.queue.Rehash q) : TurnStep c s { s with queue := q }

/-! ### What other channels leave alone -/

/-- Two queues agree on everything about channel `c` that its turns depend on. -/
structure SameAt (c : Uuid) (q q' : EventQueue) : Prop where
  queues : BucketMap.bucket q'.queues c = BucketMap.bucket q.queues c
  inFlight : c ∈ q'.inFlightChannels ↔ c ∈ q.inFlightChannels
  retryAfter : q'.retryAfter.lookup c = q.retryAfter.lookup c
  retryCounts : q'.retryCounts.lookup c = q.retryCounts.lookup c
  cancelled : q'.cancelledBatches.lookup c = q.cancelledBatches.lookup c

namespace SameAt

variable {c : Uuid} {q q' : EventQueue}

theorem refl (q : EventQueue) : SameAt c q q := ⟨rfl, .rfl, rfl, rfl, rfl⟩

theorem trans {q'' : EventQueue} (h : SameAt c q q') (h' : SameAt c q' q'') : SameAt c q q'' :=
  ⟨h'.queues.trans h.queues, h'.inFlight.trans h.inFlight, h'.retryAfter.trans h.retryAfter,
    h'.retryCounts.trans h.retryCounts, h'.cancelled.trans h.cancelled⟩

theorem expireChannel (q : EventQueue) {id : Uuid} (hne : c ≠ id) :
    SameAt c q (q.expireChannel id) := by
  rw [EventQueue.expireChannel, recoverWithheldForExpiredChannel]
  have hflight : c ∈ q.inFlightChannels.erase id ↔ c ∈ q.inFlightChannels := by
    rw [Finset.mem_erase]
    exact ⟨fun h => h.2, fun h => ⟨hne, h⟩⟩
  cases q.withheldNativeSteer.lookup id with
  | none => exact ⟨rfl, hflight, rfl, rfl, rfl⟩
  | some entries =>
    refine ⟨?_, hflight, rfl, rfl, rfl⟩
    exact (BucketMap.bucket_insert _ _ _ _).trans (if_neg hne)

theorem expireInFlight (q : EventQueue) {now : Instant} (hlive : c ∉ q.expired now) :
    SameAt c q (q.expireInFlight now) := by
  have hfold : ∀ (ids : List Uuid) (q : EventQueue), c ∉ ids →
      SameAt c q (ids.foldl EventQueue.expireChannel q) := by
    intro ids
    induction ids with
    | nil => exact fun q _ => .refl q
    | cons id ids ih =>
      intro q hnot
      have hne : c ≠ id := fun heq => hnot (heq ▸ List.mem_cons_self)
      exact (expireChannel q hne).trans (ih _ fun hmem => hnot (List.mem_cons_of_mem id hmem))
  exact hfold _ q hlive

theorem flushQueue (q : EventQueue) (now : Instant) {id : Uuid} (hne : c ≠ id) :
    SameAt c q (q.flushQueue now id).2 := by
  refine ⟨?_, ?_, rfl, rfl, ?_⟩
  · exact (BucketMap.bucket_write _ _ _ _).trans (if_neg hne)
  · exact Finset.mem_insert.trans (or_iff_right hne)
  · exact AList.lookup_erase_ne hne

theorem flushCancelled (q : EventQueue) (now : Instant) {id : Uuid} (hne : c ≠ id) :
    SameAt c q (q.flushCancelled now id).2 := by
  refine ⟨rfl, ?_, rfl, rfl, ?_⟩
  · exact Finset.mem_insert.trans (or_iff_right hne)
  · exact AList.lookup_erase_ne hne

theorem markComplete (q : EventQueue) (now : Instant) {id : Uuid} (hne : c ≠ id) :
    SameAt c q (q.markComplete now id) := by
  have hflight : c ∈ q.inFlightChannels.erase id ↔ c ∈ q.inFlightChannels := by
    rw [Finset.mem_erase]
    exact ⟨fun h => h.2, fun h => ⟨hne, h⟩⟩
  rw [EventQueue.markComplete]
  split
  · split_ifs
    · exact ⟨rfl, hflight, rfl, rfl, rfl⟩
    · exact ⟨rfl, hflight, AList.lookup_erase_ne hne, AList.lookup_erase_ne hne, rfl⟩
  · exact ⟨rfl, hflight, rfl, AList.lookup_erase_ne hne, rfl⟩

/-- Operations on other channels leave this one alone. -/
theorem apply {o : Op} (h : Elsewhere c o) (q : EventQueue) : SameAt c q (o.apply q) := by
  have hfront : ∀ {id : Uuid} (events : List QueuedEvent), id ≠ c →
      BucketMap.bucket (pushFront id events q.queues) c = BucketMap.bucket q.queues c :=
    fun events hne => (BucketMap.bucket_insert _ _ _ _).trans (if_neg hne.symm)
  cases o with
  | push event =>
    show SameAt c q (q.push event).2
    rw [EventQueue.push]
    split_ifs
    · exact .refl q
    · refine ⟨?_, .rfl, rfl, rfl, rfl⟩
      exact (BucketMap.bucket_insert _ _ _ _).trans (if_neg h.symm)
  | flushNext now => exact h.elim
  | hasFlushableWork now => exact h.elim
  | compactExpiredState now => exact h.elim
  | markComplete now id => exact markComplete q now h.symm
  | requeue now jitter batch hne =>
    simp only [Op.apply, EventQueue.requeue]
    split_ifs
    · refine ⟨rfl, .rfl, AList.lookup_erase_ne h.symm, ?_, rfl⟩
      exact (AList.lookup_erase_ne h.symm).trans (AList.lookup_insert_ne h.symm)
    · exact ⟨hfront _ h, .rfl, AList.lookup_insert_ne h.symm, AList.lookup_insert_ne h.symm, rfl⟩
  | requeuePreserveTimestamps batch hne => exact ⟨hfront _ h, .rfl, rfl, rfl, rfl⟩
  | requeueAsCancelled batch hne reason =>
    exact ⟨rfl, .rfl, rfl, rfl, AList.lookup_insert_ne h.symm⟩
  | drainChannel id =>
    refine ⟨?_, .rfl, AList.lookup_erase_ne h.symm, AList.lookup_erase_ne h.symm,
      AList.lookup_erase_ne h.symm⟩
    exact (BucketMap.bucket_erase _ _ _).trans (if_neg h.symm)
  | extendInFlightDeadline now id secs =>
    simp only [Op.apply, EventQueue.extendInFlightDeadline]
    split
    · exact .refl q
    · split_ifs
      · exact ⟨rfl, .rfl, rfl, rfl, rfl⟩
      · exact .refl q
  | markNativeSteerPending id eventId =>
    simp only [Op.apply, EventQueue.markNativeSteerPending]
    split
    · exact .refl q
    · split
      · exact .refl q
      · refine ⟨?_, .rfl, rfl, rfl, rfl⟩
        exact (BucketMap.bucket_write _ _ _ _).trans (if_neg h.symm)
  | releaseNativeSteer id eventId =>
    simp only [Op.apply, EventQueue.releaseNativeSteer]
    split
    · exact .refl q
    · split
      · exact .refl q
      · exact ⟨hfront _ h, .rfl, rfl, rfl, rfl⟩
  | removeEvent id eventId =>
    refine ⟨?_, .rfl, rfl, rfl, rfl⟩
    exact (BucketMap.bucket_discard _ _ _ _).trans (if_neg h.symm)

theorem rehash (h : q.Rehash q') : SameAt c q q' := by
  refine ⟨?_, by rw [h.inFlightChannels], (h.retryAfter.lookup_eq c).symm,
    (h.retryCounts.lookup_eq c).symm, (h.cancelledBatches.lookup_eq c).symm⟩
  rw [BucketMap.bucket, BucketMap.bucket, h.queues.lookup_eq]

end SameAt

/-! ### The invariant -/

/-- Counters that are kept unless they are zero count as before. -/
theorem getD_lookup_retain {p : Uuid → ℕ → Bool} {m : HashMap Uuid ℕ} {k : Uuid}
    (h : ∀ v, m.lookup k = some v → v ≠ 0 → p k v = true) :
    ((m.retain p).lookup k).getD 0 = (m.lookup k).getD 0 := by
  cases hafter : (m.retain p).lookup k with
  | some v => rw [(HashMap.lookup_retain_eq_some_iff.mp hafter).1]
  | none =>
    cases hbefore : m.lookup k with
    | none => rfl
    | some v =>
      by_contra hne
      have hkept := HashMap.lookup_retain_eq_some_iff.mpr ⟨hbefore, h v hbefore (Ne.symm hne)⟩
      rw [hafter] at hkept
      cases hkept

/-- A channel that was completed is not in flight, and its cancelled events are as they were. -/
theorem markComplete_channel (q : EventQueue) (now : Instant) (c : Uuid) :
    (q.markComplete now c).cancelledBatches.lookup c = q.cancelledBatches.lookup c ∧
      c ∉ (q.markComplete now c).inFlightChannels := by
  rw [EventQueue.markComplete]
  split
  · split_ifs <;> exact ⟨rfl, Finset.notMem_erase _ _⟩
  · exact ⟨rfl, Finset.notMem_erase _ _⟩

/-- The completion of a channel under an active backoff. -/
theorem markComplete_throttled {q : EventQueue} {now deadline : Instant} {c : Uuid}
    (h : q.retryAfter.lookup c = some deadline) (hlt : now < deadline) :
    (q.markComplete now c).retryCounts = q.retryCounts ∧
      (q.markComplete now c).queues = q.queues := by
  rw [EventQueue.markComplete]
  simp only [h]
  rw [if_pos hlt]
  exact ⟨rfl, rfl⟩

/-- The retry counter is the number of failures since the last success or dead letter. Between turns
the failed batch waits in the queue, and during a turn the channel is in flight and no backoff is
active. -/
structure Counted (c : Uuid) (s : Turns) : Prop where
  count : (s.queue.retryCounts.lookup c).getD 0 = failuresSince s.ends
  le : failuresSince s.ends ≤ MAX_RETRIES
  cancelled : s.queue.cancelledBatches.lookup c = none
  between : s.turn = none → c ∉ s.queue.inFlightChannels ∧
    (failuresSince s.ends ≠ 0 → BucketMap.bucket s.queue.queues c ≠ [])
  during : ∀ batch, s.turn = some batch → c ∈ s.queue.inFlightChannels ∧ batch.channelId = c ∧
    batch.events ≠ [] ∧ ∀ deadline, s.queue.retryAfter.lookup c = some deadline → deadline ≤ s.clock

namespace Counted

variable {c : Uuid} {s : Turns}

theorem new (mode : DedupMode) (deadline : Duration) : Counted c (.new mode deadline) where
  count := rfl
  le := Nat.zero_le _
  cancelled := rfl
  between _ := ⟨Finset.notMem_empty c, fun h => absurd rfl h⟩
  during _ h := nomatch h

/-- What leaves the channel alone keeps the invariant. -/
theorem sameAt (h : Counted c s) {q : EventQueue} {clock : Instant} (hq : SameAt c s.queue q)
    (hclock : s.clock ≤ clock) : Counted c { s with queue := q, clock } where
  count := hq.retryCounts ▸ h.count
  le := h.le
  cancelled := hq.cancelled.trans h.cancelled
  between hturn := by
    obtain ⟨hflight, hwaits⟩ := h.between hturn
    exact ⟨fun hmem => hflight (hq.inFlight.mp hmem), fun hne => hq.queues ▸ hwaits hne⟩
  during batch hturn := by
    obtain ⟨hflight, hid, hne, hafter⟩ := h.during batch hturn
    refine ⟨hq.inFlight.mpr hflight, hid, hne, fun deadline hdeadline => ?_⟩
    exact (hafter deadline (hq.retryAfter ▸ hdeadline)).trans hclock

theorem push (h : Counted c s) (event : QueuedEvent) :
    Counted c { s with queue := (s.queue.push event).2 } := by
  by_cases hc : event.channelId = c
  · subst hc
    rw [EventQueue.push]
    split_ifs
    · exact h
    · refine ⟨h.count, h.le, h.cancelled, fun hturn => ?_, h.during⟩
      refine ⟨(h.between hturn).1, fun _ => ?_⟩
      rw [BucketMap.bucket_insert, if_pos rfl]
      exact List.append_ne_nil_of_right_ne_nil _ (List.cons_ne_nil _ _)
  · exact h.sameAt (SameAt.apply (o := .push event) hc s.queue) le_rfl

/-- A turn of the channel begins. -/
theorem flushQueue (h : Counted c s) {now : Instant}
    (hc : s.queue.nextChannel now = some c) :
    Counted c { s with
      queue := (s.queue.flushQueue now c).2
      clock := now
      turn := some (s.queue.flushQueue now c).1 } := by
  obtain ⟨queue, hlookup, hcandidate⟩ := nextChannel_eq_some hc
  obtain ⟨hne, -⟩ := notMem_of_isCandidate hcandidate
  have hbucket : BucketMap.bucket s.queue.queues c = queue := by
    rw [BucketMap.bucket, hlookup, Option.getD_some]
  refine ⟨h.count, h.le, ?_, (fun hturn => by cases hturn), fun batch hbatch => ?_⟩
  · exact AList.lookup_erase _ _
  · obtain rfl := Option.some.inj hbatch
    refine ⟨Finset.mem_insert_self _ _, rfl, ?_, fun deadline hdeadline => ?_⟩
    · intro hnil
      have hlength := congrArg List.length hnil
      rw [EventQueue.flushQueue, length_sortByKey, List.length_map, hbucket, List.length_take,
        List.length_nil, MAX_BATCH_EVENTS] at hlength
      have := List.length_pos_iff.mpr hne
      omega
    · simp only [isCandidate, Bool.and_eq_true] at hcandidate
      have hafter := hcandidate.2
      have hsame : s.queue.retryAfter.lookup c = some deadline := hdeadline
      rw [hsame] at hafter
      exact of_decide_eq_true hafter

theorem dispatch (h : Counted c s) {now : Instant} (hclock : s.clock ≤ now) :
    Counted c { s with
      queue := (s.queue.dispatch now).2
      clock := now
      turn := match (s.queue.dispatch now).1 with
        | some batch => if batch.channelId = c then some batch else s.turn
        | none => s.turn } := by
  rw [EventQueue.dispatch]
  cases hnext : s.queue.nextChannel now with
  | some id =>
    by_cases hid : id = c
    · subst hid
      show Counted id { s with
        queue := _, clock := now, turn := if id = id then some _ else s.turn }
      rw [if_pos rfl]
      exact h.flushQueue hnext
    · show Counted c { s with queue := _, clock := now, turn := if id = c then some _ else s.turn }
      rw [if_neg hid]
      exact h.sameAt (SameAt.flushQueue s.queue now (Ne.symm hid)) hclock
  | none =>
    cases hcancelled : s.queue.nextCancelled with
    | some id =>
      have hid : id ≠ c := by
        rintro rfl
        obtain ⟨⟨events, hevents⟩, -⟩ := nextCancelled_eq_some hcancelled
        rw [h.cancelled] at hevents
        cases hevents
      show Counted c { s with queue := _, clock := now, turn := if id = c then some _ else s.turn }
      rw [if_neg hid]
      exact h.sameAt (SameAt.flushCancelled s.queue now hid.symm) hclock
    | none => exact h.sameAt (.refl s.queue) hclock

theorem succeed (h : Counted c s) {batch : FlushBatch} {now : Instant} (hclock : s.clock ≤ now)
    (hturn : s.turn = some batch) :
    Counted c
      { queue := s.queue.markComplete now c
        clock := now
        turn := none
        ends := .success :: s.ends } := by
  obtain ⟨-, -, -, hafter⟩ := h.during batch hturn
  have hcount : (s.queue.markComplete now c).retryCounts.lookup c = none := by
    rw [EventQueue.markComplete]
    split
    · next deadline hdeadline =>
      rw [if_neg (not_lt.mpr ((hafter deadline hdeadline).trans hclock))]
      exact AList.lookup_erase _ _
    · exact AList.lookup_erase _ _
  obtain ⟨hcancelled, hflight⟩ := markComplete_channel s.queue now c
  refine ⟨?_, Nat.zero_le _, hcancelled.trans h.cancelled, fun _ => ⟨hflight, ?_⟩, ?_⟩
  · rw [hcount]
    rfl
  · exact fun hne => absurd rfl hne
  · exact fun _ hnone => by cases hnone

theorem compactExpiredState (h : Counted c s) {now : Instant} (hclock : s.clock ≤ now) :
    Counted c { s with queue := s.queue.compactExpiredState now, clock := now } := by
  refine ⟨?_, h.le, h.cancelled, h.between, fun batch hbatch => ?_⟩
  · have hkept : failuresSince s.ends ≠ 0 → BucketMap.bucket s.queue.queues c ≠ [] ∨
        c ∈ s.queue.inFlightChannels := by
      intro hne
      cases hturn : s.turn with
      | none => exact .inl ((h.between hturn).2 hne)
      | some batch => exact .inr (h.during batch hturn).1
    rw [← h.count]
    refine getD_lookup_retain fun v hv hpos => ?_
    have hfailed : failuresSince s.ends ≠ 0 := by
      rw [← h.count, hv, Option.getD_some]
      exact hpos
    rcases hkept hfailed with hwaits | hflight
    · simp [hwaits]
    · simp [hflight]
  · obtain ⟨hflight, hid, hne, hafter⟩ := h.during batch hbatch
    refine ⟨hflight, hid, hne, fun deadline hdeadline => ?_⟩
    have hbefore := (HashMap.lookup_retain_eq_some_iff.mp hdeadline).1
    exact (hafter deadline hbefore).trans hclock

/-- Which batch a requeue returns. -/
theorem requeue_eq (h : Counted c s) {batch : FlushBatch} (hturn : s.turn = some batch)
    (now : Instant) (jitter : ℕ → Duration) :
    (s.queue.requeue now jitter batch).1 =
      if failuresSince s.ends + 1 = MAX_RETRIES + 1 then some batch else none := by
  obtain ⟨-, rfl, -, -⟩ := h.during batch hturn
  have hle := h.le
  have hcount := h.count
  rw [EventQueue.requeue]
  by_cases hlast : failuresSince s.ends + 1 = MAX_RETRIES + 1
  · rw [if_pos hlast, if_pos (by omega)]
  · rw [if_neg hlast, if_neg (by omega)]

/-- The last failure clears the counter. -/
theorem fail_last (h : Counted c s) {batch : FlushBatch} {now now' : Instant}
    {jitter : ℕ → Duration} (hturn : s.turn = some batch)
    (hlast : MAX_RETRIES < failuresSince s.ends + 1) :
    Counted c
      { queue := (s.queue.requeue now jitter batch).2.markComplete now' c
        clock := now'
        turn := none
        ends := .deadLetter :: s.ends } := by
  obtain ⟨-, rfl, -, -⟩ := h.during batch hturn
  obtain ⟨hcancelled, hflight⟩ :=
    markComplete_channel (s.queue.requeue now jitter batch).2 now' batch.channelId
  have hdead : MAX_RETRIES < (s.queue.retryCounts.lookup batch.channelId).getD 0 + 1 := by
    rw [h.count]
    exact hlast
  have hafter : (s.queue.requeue now jitter batch).2.retryAfter.lookup batch.channelId = none := by
    rw [EventQueue.requeue, if_pos hdead]
    exact AList.lookup_erase _ _
  have hkept : (s.queue.requeue now jitter batch).2.cancelledBatches.lookup batch.channelId =
      s.queue.cancelledBatches.lookup batch.channelId := by
    rw [EventQueue.requeue, if_pos hdead]
  have hcount : ((s.queue.requeue now jitter batch).2.markComplete now'
      batch.channelId).retryCounts.lookup batch.channelId = none := by
    simp only [EventQueue.markComplete, hafter]
    exact AList.lookup_erase _ _
  refine ⟨?_, Nat.zero_le _, (hcancelled.trans hkept).trans h.cancelled, fun _ => ⟨hflight, ?_⟩, ?_⟩
  · rw [hcount]
    rfl
  · exact fun hne => absurd rfl hne
  · exact fun _ hnone => by cases hnone

/-- Another failure is counted, and its batch waits in the queue. -/
theorem fail_again (h : Counted c s) {batch : FlushBatch} {now now' : Instant}
    {jitter : ℕ → Duration} (hturn : s.turn = some batch)
    (hagain : ¬ MAX_RETRIES < failuresSince s.ends + 1)
    (hearly : ∀ deadline, (s.queue.requeue now jitter batch).2.retryAfter.lookup c =
      some deadline → now' < deadline) :
    Counted c
      { queue := (s.queue.requeue now jitter batch).2.markComplete now' c
        clock := now'
        turn := none
        ends := .failure :: s.ends } := by
  obtain ⟨-, rfl, hne, -⟩ := h.during batch hturn
  obtain ⟨hcancelled, hflight⟩ :=
    markComplete_channel (s.queue.requeue now jitter batch).2 now' batch.channelId
  have hback : ¬ MAX_RETRIES < (s.queue.retryCounts.lookup batch.channelId).getD 0 + 1 := by
    rw [h.count]
    exact hagain
  have hqueue : (s.queue.requeue now jitter batch).2 =
      { s.queue with
        retryCounts := s.queue.retryCounts.insert batch.channelId
          ((s.queue.retryCounts.lookup batch.channelId).getD 0 + 1)
        queues := pushFront batch.channelId
          (batch.events.map (BatchEvent.toQueued batch.channelId)) s.queue.queues
        retryAfter := s.queue.retryAfter.insert batch.channelId
          (now + jitter
            (backoffSecs ((s.queue.retryCounts.lookup batch.channelId).getD 0 + 1))) } := by
    rw [EventQueue.requeue, if_neg hback]
  have hafter : (s.queue.requeue now jitter batch).2.retryAfter.lookup batch.channelId = some
      (now + jitter (backoffSecs ((s.queue.retryCounts.lookup batch.channelId).getD 0 + 1))) := by
    rw [hqueue]
    exact AList.lookup_insert _
  obtain ⟨hcounts, hqueues⟩ := markComplete_throttled hafter (hearly _ hafter)
  refine ⟨?_, ?_, ?_, fun _ => ⟨hflight, fun _ => ?_⟩, ?_⟩
  · rw [hcounts, hqueue, AList.lookup_insert, Option.getD_some, h.count]
    rfl
  · show failuresSince s.ends + 1 ≤ MAX_RETRIES
    omega
  · rw [hcancelled, hqueue]
    exact h.cancelled
  · rw [hqueues, hqueue, pushFront, BucketMap.bucket_insert, if_pos rfl]
    have hpos := List.length_pos_iff.mpr hne
    rw [← List.length_pos_iff, List.length_take, List.length_append, List.length_map,
      MAX_PENDING_PER_CHANNEL]
    omega
  · exact fun _ hnone => by cases hnone

theorem step {s' : Turns} (h : Counted c s) (hstep : TurnStep c s s') : Counted c s' := by
  cases hstep with
  | push event => exact h.push event
  | flushNext now hclock hlive =>
    exact (h.sameAt (SameAt.expireInFlight s.queue hlive) le_rfl).dispatch hclock
  | hasFlushableWork now hclock hlive =>
    exact h.sameAt (SameAt.expireInFlight s.queue hlive) hclock
  | succeed now hclock hturn => exact h.succeed hclock hturn
  | @fail batch now now' jitter hclock hturn hnow hearly =>
    have hreturned := h.requeue_eq hturn now jitter
    by_cases hlast : MAX_RETRIES < failuresSince s.ends + 1
    · have hle := h.le
      rw [if_pos (by omega)] at hreturned
      rw [hreturned]
      exact h.fail_last hturn hlast
    · rw [if_neg (by omega)] at hreturned
      rw [hreturned]
      exact h.fail_again hturn hlast hearly
  | compactExpiredState now hclock => exact h.compactExpiredState hclock
  | elsewhere o ho => exact h.sameAt (SameAt.apply ho s.queue) le_rfl
  | rehash hr => exact h.sameAt (.rehash hr) le_rfl

theorem run {mode : DedupMode} {deadline : Duration}
    (hrun : Relation.ReflTransGen (TurnStep c) (.new mode deadline) s) : Counted c s := by
  induction hrun with
  | refl => exact .new mode deadline
  | tail _ hstep ih => exact ih.step hstep

end Counted

/-! ### Dead letters -/

/-- In every run, a requeue returns the batch of the channel exactly at the failure after
`MAX_RETRIES` others since the last success or dead letter. -/
theorem dead_letter_iff {c : Uuid} {mode : DedupMode} {deadline : Duration} {s : Turns}
    (hrun : Relation.ReflTransGen (TurnStep c) (.new mode deadline) s) {batch : FlushBatch}
    (hturn : s.turn = some batch) (now : Instant) (jitter : ℕ → Duration) :
    (s.queue.requeue now jitter batch).1 =
      if failuresSince s.ends + 1 = MAX_RETRIES + 1 then some batch else none :=
  (Counted.run hrun).requeue_eq hturn now jitter

/-- The mention that a channel's first turn is about. -/
def firstMention : QueuedEvent := ⟨7, ⟨1, 0, 1, 9, []⟩, 1, "@mention"⟩

/-- The first failure of a channel is retried. -/
theorem dead_letter_iff_firstMention :
    ((((EventQueue.new .queue).push firstMention).2.flushNext 2).2.requeue 3 id
      ⟨7, [firstMention.toBatch], [], none⟩).1 = none := by
  have hrun : Relation.ReflTransGen (TurnStep 7)
      (.new .queue (Duration.fromSecs DEFAULT_IN_FLIGHT_DEADLINE_SECS))
      { queue := (((EventQueue.new .queue).push firstMention).2.flushNext 2).2
        clock := 2
        turn := some ⟨7, [firstMention.toBatch], [], none⟩
        ends := [] } :=
    .tail (.tail .refl (.push _ firstMention))
      (.flushNext _ 2 (Nat.zero_le 2) List.not_mem_nil)
  exact dead_letter_iff hrun rfl 3 id

end Buzz.Acp.Queue
