import Buzz.Acp.Queue.Bookkeeping

/-!
# Fairness across channels

`flush_next` compares the events at the heads of the queues, so it serves the channel with the
oldest waiting event as long as every queue is in the order in which its events arrived. Events
arrive at the back; a failed batch, a released steer and the steers of an expired turn are put back
at the front. A batch was sorted by the creation time of its events meanwhile, and steers are
released in any order, so what is put back need not be in order, nor older than what waits there.

The queues stay in order along every run in which what is put back stands in order before what
waits, and then every flush is fair.

## Main definitions

* `Traffic`, `TrafficStep`: a queue with the batches it gave out and the time of the last arrival.
* `InFront`, `PutsBackInOrder`: what may be put back at the front of a queue.
* `PicksOldest`: fairness of a flush.

## Main results

* `Fair.step`: an operation keeps the queues in order.
* `picksOldest_of_inOrder`: a flush of queues in order is fair.
* `run_picksOldest`: every run.
-/

namespace Buzz.Acp.Queue

open Buzz.Core Buzz.Library EventQueue

/-! ### Runs -/

/-- A queue, the batches that `flush_next` returned, and the arrival of the last event. -/
structure Traffic where
  queue : EventQueue
  issued : List FlushBatch
  latest : Instant

/-- A new queue. -/
def Traffic.new (mode : DedupMode) (deadline : Duration) : Traffic :=
  ⟨{ EventQueue.new mode with inFlightDeadline := deadline }, [], 0⟩

/-- Events arrive one after another, and only batches that were given out are put back. -/
def Traffic.Allowed (t : Traffic) : Op → Prop
  | .push event => t.latest ≤ event.receivedAt
  | .requeue _ _ batch _ => batch ∈ t.issued
  | .requeuePreserveTimestamps batch _ => batch ∈ t.issued
  | .requeueAsCancelled batch _ _ => batch ∈ t.issued
  | _ => True

/-- An operation on the queue. -/
def Traffic.act (t : Traffic) (o : Op) : Traffic where
  queue := o.apply t.queue
  issued := match o with
    | .flushNext now => t.issued ++ (t.queue.flushNext now).1.toList
    | _ => t.issued
  latest := match o with
    | .push event => event.receivedAt
    | _ => t.latest

/-- A step whose operation satisfies `P` in the queue it finds. -/
inductive TrafficStep (P : EventQueue → Op → Prop) : Traffic → Traffic → Prop
  | op (t : Traffic) (o : Op) (hallowed : t.Allowed o) (hP : P t.queue o) :
      TrafficStep P t (t.act o)
  | rehash (t : Traffic) {q : EventQueue} (h : t.queue.Rehash q) :
      TrafficStep P t { t with queue := q }

/-! ### What is put back -/

/-- Events in the order of their arrival. -/
def InOrder (events : List QueuedEvent) : Prop :=
  events.Pairwise fun a b => a.receivedAt ≤ b.receivedAt

/-- Events in order, none later than one that waits in the queue. -/
def InFront (events queue : List QueuedEvent) : Prop :=
  InOrder events ∧ ∀ e ∈ events, ∀ e' ∈ queue, e.receivedAt ≤ e'.receivedAt

/-- The events of a batch as they are put back. -/
def FlushBatch.queued (batch : FlushBatch) : List QueuedEvent :=
  batch.events.map (BatchEvent.toQueued batch.channelId)

/-- What an operation puts back at the front of a queue stands in front of it. -/
def PutsBackInOrder (q : EventQueue) : Op → Prop
  | .requeue _ _ batch _ => MAX_RETRIES < (q.retryCounts.lookup batch.channelId).getD 0 + 1 ∨
      InFront batch.queued (BucketMap.bucket q.queues batch.channelId)
  | .requeuePreserveTimestamps batch _ =>
      InFront batch.queued (BucketMap.bucket q.queues batch.channelId)
  | .releaseNativeSteer channelId eventId =>
      ∀ qe, (BucketMap.bucket q.withheldNativeSteer channelId).find? (QueuedEvent.hasId eventId) =
        some qe → InFront [qe] (BucketMap.bucket q.queues channelId)
  | .flushNext now | .hasFlushableWork now => ∀ c ∈ q.expired now,
      InFront (BucketMap.bucket q.withheldNativeSteer c) (BucketMap.bucket q.queues c)
  | _ => True

/-! ### The invariant -/

/-- In order, and none arrived after `n`. -/
def Arrived (n : Instant) (events : List QueuedEvent) : Prop :=
  InOrder events ∧ ∀ e ∈ events, e.receivedAt ≤ n

/-- Every queue is in order, and nothing arrived after `n`. -/
structure Fair (n : Instant) (q : EventQueue) : Prop where
  queues : BucketMap.Holds (Arrived n) q.queues
  withheld : BucketMap.Holds (fun l => ∀ e ∈ l, e.receivedAt ≤ n) q.withheldNativeSteer
  cancelled : BucketMap.Holds (fun l => ∀ e ∈ l, e.receivedAt ≤ n) q.cancelledBatches

variable {n : Instant} {q : EventQueue}

theorem arrived_nil : Arrived n [] := ⟨.nil, fun _ h => absurd h List.not_mem_nil⟩

theorem Arrived.sublist {l l' : List QueuedEvent} (hsub : l.Sublist l') (h : Arrived n l') :
    Arrived n l :=
  ⟨h.1.sublist hsub, fun e he => h.2 e (hsub.subset he)⟩

theorem Arrived.mono {m : Instant} {l : List QueuedEvent} (hnm : n ≤ m) (h : Arrived n l) :
    Arrived m l :=
  ⟨h.1, fun e he => (h.2 e he).trans hnm⟩

/-- What stands in front of a queue in order extends it. -/
theorem Arrived.append {events queue : List QueuedEvent} (h : Arrived n queue)
    (hfront : InFront events queue) (hevents : ∀ e ∈ events, e.receivedAt ≤ n) :
    Arrived n (events ++ queue) := by
  refine ⟨List.pairwise_append.mpr ⟨hfront.1, h.1, hfront.2⟩, fun e he => ?_⟩
  rcases List.mem_append.mp he with he | he
  · exact hevents e he
  · exact h.2 e he

theorem Fair.mono {m : Instant} (hnm : n ≤ m) (h : Fair n q) : Fair m q where
  queues c := (h.queues c).mono hnm
  withheld c e he := (h.withheld c e he).trans hnm
  cancelled c e he := (h.cancelled c e he).trans hnm

theorem Fair.new (mode : DedupMode) (deadline : Duration) :
    Fair n (Traffic.new mode deadline).queue where
  queues := BucketMap.holds_empty arrived_nil
  withheld := BucketMap.holds_empty fun _ h => absurd h List.not_mem_nil
  cancelled := BucketMap.holds_empty fun _ h => absurd h List.not_mem_nil

theorem holds_pushFront {queues : HashMap Uuid (List QueuedEvent)}
    (h : BucketMap.Holds (Arrived n) queues) {c : Uuid} {events : List QueuedEvent}
    (hfront : InFront events (BucketMap.bucket queues c))
    (hevents : ∀ e ∈ events, e.receivedAt ≤ n) :
    BucketMap.Holds (Arrived n) (pushFront c events queues) :=
  h.insert c (((h c).append hfront hevents).sublist (List.take_sublist _ _))

/-! ### Operations -/

namespace Fair

theorem push (h : Fair n q) {event : QueuedEvent} (hevent : n ≤ event.receivedAt) :
    Fair event.receivedAt (q.push event).2 := by
  have hlater := h.mono hevent
  rw [EventQueue.push]
  split_ifs
  · exact hlater
  · refine ⟨hlater.queues.insert _ ?_, hlater.withheld, hlater.cancelled⟩
    have hqueue : Arrived n (if (BucketMap.bucket q.queues event.channelId).length ≥
        MAX_PENDING_PER_CHANNEL then (BucketMap.bucket q.queues event.channelId).tail
        else BucketMap.bucket q.queues event.channelId) := by
      split_ifs
      · exact (h.queues _).sublist (List.tail_sublist _)
      · exact h.queues _
    refine ⟨List.pairwise_append.mpr ⟨hqueue.1, List.pairwise_singleton _ _, ?_⟩, ?_⟩
    · intro e he e' he'
      rw [List.mem_singleton.mp he']
      exact (hqueue.2 e he).trans hevent
    · intro e he
      rcases List.mem_append.mp he with he | he
      · exact (hqueue.2 e he).trans hevent
      · rw [List.mem_singleton.mp he]

theorem expireChannel (h : Fair n q) {c : Uuid}
    (hfront : InFront (BucketMap.bucket q.withheldNativeSteer c) (BucketMap.bucket q.queues c)) :
    Fair n (q.expireChannel c) := by
  rw [EventQueue.expireChannel, recoverWithheldForExpiredChannel]
  cases hentries : q.withheldNativeSteer.lookup c with
  | none => exact ⟨h.queues, h.withheld, h.cancelled⟩
  | some entries =>
    have hbucket : BucketMap.bucket q.withheldNativeSteer c = entries := by
      rw [BucketMap.bucket, hentries, Option.getD_some]
    rw [hbucket] at hfront
    refine ⟨holds_pushFront h.queues hfront (hbucket ▸ h.withheld c), ?_, h.cancelled⟩
    exact h.withheld.erase (fun _ he => absurd he List.not_mem_nil) c

end Fair

/-- The expiry of one channel leaves the others as they are. -/
theorem bucket_expireChannel_of_ne (q : EventQueue) {c c' : Uuid} (hne : c' ≠ c) :
    BucketMap.bucket (q.expireChannel c).queues c' = BucketMap.bucket q.queues c' ∧
      BucketMap.bucket (q.expireChannel c).withheldNativeSteer c' =
        BucketMap.bucket q.withheldNativeSteer c' := by
  rw [EventQueue.expireChannel, recoverWithheldForExpiredChannel]
  cases q.withheldNativeSteer.lookup c with
  | none => exact ⟨rfl, rfl⟩
  | some entries =>
    refine ⟨?_, ?_⟩
    · exact (BucketMap.bucket_insert _ _ _ _).trans (if_neg hne)
    · exact (BucketMap.bucket_erase _ _ _).trans (if_neg hne)

theorem nodup_expired (now : Instant) (q : EventQueue) : (q.expired now).Nodup :=
  (q.inFlightDeadlines.keys_nodup).sublist (List.filter_sublist.map Sigma.fst)

namespace Fair

/-- The channels of a list expire one after another. -/
theorem expireChannels {cs : List Uuid} (hnodup : cs.Nodup) (h : Fair n q)
    (hfront : ∀ c ∈ cs,
      InFront (BucketMap.bucket q.withheldNativeSteer c) (BucketMap.bucket q.queues c)) :
    Fair n (cs.foldl EventQueue.expireChannel q) := by
  induction cs generalizing q with
  | nil => exact h
  | cons c cs ih =>
    obtain ⟨hfirst, hrest⟩ := List.forall_mem_cons.mp hfront
    obtain ⟨hnot, hnodup⟩ := List.nodup_cons.mp hnodup
    refine ih hnodup (h.expireChannel hfirst) fun c' hc' => ?_
    obtain ⟨hqueues, hwithheld⟩ :=
      bucket_expireChannel_of_ne q (ne_of_mem_of_not_mem hc' hnot)
    rw [hqueues, hwithheld]
    exact hrest c' hc'

theorem expireInFlight (h : Fair n q) {now : Instant}
    (hfront : PutsBackInOrder q (.flushNext now)) :
    Fair n (q.expireInFlight now) :=
  expireChannels (nodup_expired now q) h hfront

theorem flushQueue (h : Fair n q) (now : Instant) (c : Uuid) :
    Fair n (q.flushQueue now c).2 where
  queues := h.queues.write c ((h.queues c).sublist (List.drop_sublist _ _))
  withheld := h.withheld
  cancelled := h.cancelled.erase (fun _ he => absurd he List.not_mem_nil) c

theorem flushCancelled (h : Fair n q) (now : Instant) (c : Uuid) :
    Fair n (q.flushCancelled now c).2 where
  queues := h.queues
  withheld := h.withheld
  cancelled := h.cancelled.erase (fun _ he => absurd he List.not_mem_nil) c

/-- A batch holds what had arrived. -/
theorem dispatch (h : Fair n q) (now : Instant) :
    Fair n (q.dispatch now).2 ∧ ∀ b, (q.dispatch now).1 = some b →
      (∀ e ∈ b.events, e.receivedAt ≤ n) ∧ ∀ e ∈ b.cancelledEvents, e.receivedAt ≤ n := by
  rw [EventQueue.dispatch]
  split
  · next c _ =>
    refine ⟨h.flushQueue now c, fun b hb => ?_⟩
    obtain rfl := Option.some.inj hb
    refine ⟨fun e he => ?_, h.cancelled c⟩
    obtain ⟨qe, hqe, rfl⟩ := List.mem_map.mp ((sortByKey_perm _ _).mem_iff.mp he)
    exact (h.queues c).2 qe (List.mem_of_mem_take hqe)
  · split
    · next c _ =>
      refine ⟨h.flushCancelled now c, fun b hb => ?_⟩
      obtain rfl := Option.some.inj hb
      exact ⟨h.cancelled c, fun e he => absurd he List.not_mem_nil⟩
    · exact ⟨h, fun b hb => by cases hb⟩

theorem markComplete (h : Fair n q) (now : Instant) (c : Uuid) : Fair n (q.markComplete now c) := by
  rw [EventQueue.markComplete]
  split
  · split_ifs <;> exact ⟨h.queues, h.withheld, h.cancelled⟩
  · exact ⟨h.queues, h.withheld, h.cancelled⟩

theorem requeuePreserveTimestamps (h : Fair n q) {batch : FlushBatch}
    (hbatch : ∀ e ∈ batch.events, e.receivedAt ≤ n)
    (hfront : InFront batch.queued (BucketMap.bucket q.queues batch.channelId)) :
    Fair n (q.requeuePreserveTimestamps batch) := by
  refine ⟨holds_pushFront h.queues hfront fun e he => ?_, h.withheld, h.cancelled⟩
  obtain ⟨be, hbe, rfl⟩ := List.mem_map.mp he
  exact hbatch be hbe

theorem requeue (h : Fair n q) (now : Instant) (jitter : ℕ → Duration) {batch : FlushBatch}
    (hbatch : ∀ e ∈ batch.events, e.receivedAt ≤ n)
    (hfront : MAX_RETRIES < (q.retryCounts.lookup batch.channelId).getD 0 + 1 ∨
      InFront batch.queued (BucketMap.bucket q.queues batch.channelId)) :
    Fair n (q.requeue now jitter batch).2 := by
  simp only [EventQueue.requeue]
  split_ifs with hdead
  · exact ⟨h.queues, h.withheld, h.cancelled⟩
  · have hback := h.requeuePreserveTimestamps hbatch (hfront.resolve_left hdead)
    exact ⟨hback.queues, h.withheld, h.cancelled⟩

theorem requeueAsCancelled (h : Fair n q) {batch : FlushBatch} (reason : CancelReason)
    (hbatch : ∀ e ∈ batch.events, e.receivedAt ≤ n)
    (hcancelled : ∀ e ∈ batch.cancelledEvents, e.receivedAt ≤ n) :
    Fair n (q.requeueAsCancelled batch reason) := by
  refine ⟨h.queues, h.withheld, h.cancelled.insert _ fun e he => ?_⟩
  simp only [List.mem_append] at he
  rcases he with (he | he) | he
  · exact h.cancelled _ e he
  · exact hcancelled e he
  · exact hbatch e he

theorem drainChannel (h : Fair n q) (c : Uuid) : Fair n (q.drainChannel c).2 where
  queues := h.queues.erase arrived_nil c
  withheld := h.withheld.erase (fun _ he => absurd he List.not_mem_nil) c
  cancelled := h.cancelled.erase (fun _ he => absurd he List.not_mem_nil) c

theorem extendInFlightDeadline (h : Fair n q) (now : Instant) (c : Uuid) (secs : ℕ) :
    Fair n (q.extendInFlightDeadline now c secs) := by
  simp only [EventQueue.extendInFlightDeadline]
  split
  · exact h
  · split_ifs <;> exact ⟨h.queues, h.withheld, h.cancelled⟩

theorem markNativeSteerPending (h : Fair n q) (c : Uuid) (eventId : String) :
    Fair n (q.markNativeSteerPending c eventId).2 := by
  rw [EventQueue.markNativeSteerPending]
  split
  · exact h
  · next queue hqueue =>
    have hbucket : BucketMap.bucket q.queues c = queue := by
      rw [BucketMap.bucket, hqueue, Option.getD_some]
    split
    · exact h
    · next qe hqe =>
      have hqe' := List.mem_of_find?_eq_some hqe
      refine ⟨h.queues.write c ((hbucket ▸ h.queues c).sublist (List.eraseP_sublist)),
        h.withheld.insert c fun e he => ?_, h.cancelled⟩
      rcases List.mem_append.mp he with he | he
      · exact h.withheld c e he
      · rw [List.mem_singleton.mp he]
        exact (h.queues c).2 qe (hbucket ▸ hqe')

theorem releaseNativeSteer (h : Fair n q) {c : Uuid} {eventId : String}
    (hfront : PutsBackInOrder q (.releaseNativeSteer c eventId)) :
    Fair n (q.releaseNativeSteer c eventId) := by
  rw [EventQueue.releaseNativeSteer]
  split
  · exact h
  · next entries hentries =>
    have hbucket : BucketMap.bucket q.withheldNativeSteer c = entries := by
      rw [BucketMap.bucket, hentries, Option.getD_some]
    split
    · exact h
    · next qe hqe =>
      have hwithheld := hbucket ▸ h.withheld c
      refine ⟨holds_pushFront h.queues (hfront qe (hbucket ▸ hqe)) fun e he => ?_,
        h.withheld.write c fun e he => ?_, h.cancelled⟩
      · rw [List.mem_singleton.mp he]
        exact hwithheld qe (List.mem_of_find?_eq_some hqe)
      · exact hwithheld e (List.mem_of_mem_eraseP he)

theorem removeEvent (h : Fair n q) (c : Uuid) (eventId : String) :
    Fair n (q.removeEvent c eventId) where
  queues := h.queues.discard Arrived.sublist c _
  withheld := h.withheld.discard (fun hsub hl e he => hl e (hsub.subset he)) c _
  cancelled := h.cancelled

theorem rehash {q' : EventQueue} (h : Fair n q) (hr : q.Rehash q') : Fair n q' where
  queues := h.queues.rehash hr.queues
  withheld := h.withheld.rehash hr.withheldNativeSteer
  cancelled := h.cancelled.rehash hr.cancelledBatches

end Fair

/-! ### Runs keep the queues in order -/

/-- The queues are in order, and nothing given out or waiting arrived after the last arrival. -/
structure Traffic.Fair (t : Traffic) : Prop where
  queue : Queue.Fair t.latest t.queue
  issued : ∀ b ∈ t.issued, (∀ e ∈ b.events, e.receivedAt ≤ t.latest) ∧
    ∀ e ∈ b.cancelledEvents, e.receivedAt ≤ t.latest

/-- A step that puts back in order keeps the queues in order. -/
theorem Traffic.Fair.step {t t' : Traffic} (h : t.Fair) (hstep : TrafficStep PutsBackInOrder t t') :
    t'.Fair := by
  cases hstep with
  | rehash hr => exact ⟨h.queue.rehash hr, h.issued⟩
  | op o hallowed hback =>
    cases o with
    | push event =>
      refine ⟨h.queue.push hallowed, fun b hb => ?_⟩
      obtain ⟨hevents, hcancelled⟩ := h.issued b hb
      exact ⟨fun e he => (hevents e he).trans hallowed,
        fun e he => (hcancelled e he).trans hallowed⟩
    | flushNext now =>
      obtain ⟨hqueue, hbatch⟩ := (h.queue.expireInFlight hback).dispatch now
      refine ⟨hqueue, fun b hb => ?_⟩
      rcases List.mem_append.mp hb with hb | hb
      · exact h.issued b hb
      · exact hbatch b (Option.mem_toList.mp hb)
    | markComplete now c => exact ⟨h.queue.markComplete now c, h.issued⟩
    | requeue now jitter batch hne =>
      exact ⟨h.queue.requeue now jitter (h.issued batch hallowed).1 hback, h.issued⟩
    | requeuePreserveTimestamps batch hne =>
      exact ⟨h.queue.requeuePreserveTimestamps (h.issued batch hallowed).1 hback, h.issued⟩
    | requeueAsCancelled batch hne reason =>
      obtain ⟨hevents, hcancelled⟩ := h.issued batch hallowed
      exact ⟨h.queue.requeueAsCancelled reason hevents hcancelled, h.issued⟩
    | drainChannel c => exact ⟨h.queue.drainChannel c, h.issued⟩
    | extendInFlightDeadline now c secs =>
      exact ⟨h.queue.extendInFlightDeadline now c secs, h.issued⟩
    | markNativeSteerPending c eventId => exact ⟨h.queue.markNativeSteerPending c eventId, h.issued⟩
    | releaseNativeSteer c eventId => exact ⟨h.queue.releaseNativeSteer hback, h.issued⟩
    | removeEvent c eventId => exact ⟨h.queue.removeEvent c eventId, h.issued⟩
    | hasFlushableWork now => exact ⟨h.queue.expireInFlight hback, h.issued⟩
    | compactExpiredState now =>
      exact ⟨⟨h.queue.queues, h.queue.withheld, h.queue.cancelled⟩, h.issued⟩

theorem Traffic.Fair.run {mode : DedupMode} {deadline : Duration} {t : Traffic}
    (hrun : Relation.ReflTransGen (TrafficStep PutsBackInOrder) (.new mode deadline) t) :
    t.Fair := by
  induction hrun with
  | refl => exact ⟨.new mode deadline, fun b hb => absurd hb List.not_mem_nil⟩
  | tail _ hstep ih => exact ih.step hstep

/-! ### Fair flushes -/

/-- Fairness of a flush: when it takes a batch from a queue, the channel is eligible, and an event
that waits there is no later than any event that waits in an eligible channel. Channels are judged
after the expiry of stuck turns. -/
def PicksOldest (now : Instant) (q : EventQueue) : Prop :=
  ∀ c, (q.expireInFlight now).nextChannel now = some c →
    (∃ batch, (q.flushNext now).1 = some batch ∧ batch.channelId = c) ∧
    ∃ queue, (q.expireInFlight now).queues.lookup c = some queue ∧
      isCandidate now (q.expireInFlight now) c queue = true ∧
      ∃ oldest ∈ queue, ∀ c' queue', (q.expireInFlight now).queues.lookup c' = some queue' →
        isCandidate now (q.expireInFlight now) c' queue' = true →
        ∀ e ∈ queue', oldest.receivedAt ≤ e.receivedAt

/-- The head of the queue that is served is no later than the heads of the others. -/
theorem headReceivedAt_nextChannel_le {now : Instant} {c : Uuid} (h : q.nextChannel now = some c) :
    ∃ queue, q.queues.lookup c = some queue ∧ isCandidate now q c queue = true ∧
      ∀ c' queue', q.queues.lookup c' = some queue' → isCandidate now q c' queue' = true →
        headReceivedAt queue ≤ headReceivedAt queue' := by
  obtain ⟨⟨c', queue⟩, hargmin, rfl⟩ := Option.map_eq_some_iff.mp h
  obtain ⟨hmem, hcandidate⟩ := List.mem_filter.mp (List.argmin_mem hargmin)
  refine ⟨queue, HashMap.mem_entries_iff.mp hmem, hcandidate, fun c'' queue'' hlookup hother => ?_⟩
  have hentry : (⟨c'', queue''⟩ : Σ _ : Uuid, List QueuedEvent) ∈
      q.queues.entries.filter fun e => isCandidate now q e.1 e.2 :=
    List.mem_filter.mpr ⟨HashMap.mem_entries_iff.mpr hlookup, hother⟩
  have hle := List.le_of_mem_argmin hentry hargmin
  exact hle

/-- A flush of queues in order is fair. -/
theorem picksOldest_of_inOrder {now : Instant} (h : Fair n (q.expireInFlight now)) :
    PicksOldest now q := by
  intro c hc
  obtain ⟨queue, hlookup, hcandidate, hleast⟩ := headReceivedAt_nextChannel_le hc
  refine ⟨⟨((q.expireInFlight now).flushQueue now c).1, ?_, rfl⟩, queue, hlookup, hcandidate, ?_⟩
  · rw [flushNext, dispatch, hc]
  · obtain ⟨hne, -⟩ := notMem_of_isCandidate hcandidate
    obtain ⟨oldest, rest, rfl⟩ := List.exists_cons_of_ne_nil hne
    refine ⟨oldest, List.mem_cons_self, fun c' queue' hlookup' hcandidate' e he => ?_⟩
    have hhead : oldest.receivedAt ≤ headReceivedAt queue' := hleast c' queue' hlookup' hcandidate'
    have horder : InOrder queue' := by
      have harrived := (h.queues c').1
      rwa [BucketMap.bucket, hlookup'] at harrived
    cases queue' with
    | nil => exact absurd he List.not_mem_nil
    | cons first queue' =>
      rcases List.mem_cons.mp he with rfl | he
      · exact hhead
      · exact hhead.trans ((List.pairwise_cons.mp horder).1 e he)

/-- In every run whose operations put back in order, a flush that puts back in order is fair. -/
theorem run_picksOldest {mode : DedupMode} {deadline : Duration} {t : Traffic}
    (hrun : Relation.ReflTransGen (TrafficStep PutsBackInOrder) (.new mode deadline) t)
    {now : Instant} (hback : PutsBackInOrder t.queue (.flushNext now)) : PicksOldest now t.queue :=
  picksOldest_of_inOrder ((Traffic.Fair.run hrun).queue.expireInFlight hback)

/-! ### A batch that finds no agent -/

/-- An event of a channel, with its times of creation and arrival. -/
def arrival (channel : Uuid) (createdAt receivedAt : ℕ) : QueuedEvent :=
  ⟨channel, ⟨BitVec.ofNat 256 receivedAt, 0, createdAt, 9, []⟩, receivedAt, "@mention"⟩

/-- Two events of channel `7` with an event of channel `8` between them; the batch of the first
channel finds no agent and is put back. -/
def putBackRun (created created' : ℕ) (batch : FlushBatch) (h : batch.events ≠ []) : List Op :=
  [.push (arrival 7 created 1), .push (arrival 8 2 2), .push (arrival 7 created' 3), .flushNext 4,
    .requeuePreserveTimestamps batch h, .markComplete 5 7]

/-- The batch of channel `7`, its events in the order of arrival. -/
def steadyBatch : FlushBatch :=
  ⟨7, [(arrival 7 10 1).toBatch, (arrival 7 20 3).toBatch], [], none⟩

/-- The batch of channel `7` when the event that arrived first was created last. -/
def replayedBatch : FlushBatch :=
  ⟨7, [(arrival 7 10 3).toBatch, (arrival 7 20 1).toBatch], [], none⟩

/-- The operations of a list are those of a run. -/
def Traffic.Follows (P : EventQueue → Op → Prop) : Traffic → List Op → Prop
  | _, [] => True
  | t, o :: os => t.Allowed o ∧ P t.queue o ∧ Traffic.Follows P (t.act o) os

theorem run_of_trafficFollows {P : EventQueue → Op → Prop} :
    ∀ {t : Traffic} {os : List Op}, t.Follows P os →
      Relation.ReflTransGen (TrafficStep P) t (os.foldl Traffic.act t)
  | _, [], _ => .refl
  | t, o :: _, ⟨hallowed, hP, hrest⟩ => .head (.op t o hallowed hP) (run_of_trafficFollows hrest)

/-- The queue after the events of channel `7` were put back in order: the next flush serves it
first. -/
theorem run_picksOldest_steady :
    PicksOldest 6 ((putBackRun 10 20 steadyBatch (by decide)).foldl Traffic.act
      (.new .queue 100)).queue := by
  refine run_picksOldest (run_of_trafficFollows ?_) (fun c hc => absurd hc ?_)
  · refine ⟨Nat.zero_le _, trivial, Nat.le_succ 1, trivial, Nat.le_succ 2, trivial, trivial, ?_, ?_,
      ⟨?_, ?_⟩, trivial, trivial, trivial⟩
    · exact fun c hc => absurd hc List.not_mem_nil
    · show steadyBatch ∈ _
      decide
    · rw [InOrder]
      decide
    · exact fun e _ e' he' => absurd he' List.not_mem_nil
  · exact List.not_mem_nil

/-- A replay delivers the newest event first. Its batch finds no agent, comes back in the order of
creation, and the next flush serves channel `8` although an older event waits in channel `7`. -/
theorem flush_passes_over_oldest :
    ¬ ∀ (mode : DedupMode) (deadline : Duration) (t : Traffic),
      Relation.ReflTransGen (TrafficStep fun _ _ => True) (.new mode deadline) t →
        ∀ now, PicksOldest now t.queue := by
  intro h
  have hrun : Relation.ReflTransGen (TrafficStep fun _ _ => True) (.new .queue 100)
      ((putBackRun 20 10 replayedBatch (by decide)).foldl Traffic.act (.new .queue 100)) := by
    refine run_of_trafficFollows ⟨Nat.zero_le _, trivial, Nat.le_succ 1, trivial, Nat.le_succ 2,
      trivial, trivial, trivial, ?_, trivial, trivial, trivial, trivial⟩
    show replayedBatch ∈ _
    decide
  obtain ⟨-, queue, hlookup, -, oldest, hmem, hleast⟩ := h .queue 100 _ hrun 6 8 (by decide)
  have hserved : some [arrival 8 2 2] = some queue := hlookup
  obtain rfl := Option.some.inj hserved
  obtain rfl := List.mem_singleton.mp hmem
  have hwaiting := hleast 7 [arrival 7 10 3, arrival 7 20 1] (by decide) (by decide)
    (arrival 7 20 1) (by decide)
  exact absurd hwaiting (by decide)

end Buzz.Acp.Queue
