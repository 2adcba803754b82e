import Mathlib.Logic.Function.Basic
import Buzz.Db.Push.Fencing

/-!
# Delivery workers

`run_delivery_worker` and `deliver_one` of `crates/buzz-relay/src/push_runtime.rs`. A worker claims
a batch of due wakes under one deadline and delivers them one after another. Each delivery checks
the wake twice, once before and once after it asks whether the author is in the channel of the
event, then sends it to the gateway and settles it by the answer. Every call to the database and
every request is a step of its own, and any time may pass between two of them.

## Main definitions

* `Response`, `GatewayAnswer`, `AcquireAnswer`: what a delivery is answered.
* `Task`: where a worker is, with `afterClaim`, `afterRevalidation`, `afterMember`, `afterAcquire`
  and `afterSend` for where it goes.
* `retryOrFail`, `Settlement`, `FailReason`.
* `Delivery`, `Event`, `Step`: the workers beside the tables, and their steps.
-/

namespace Buzz.Relay.Push

open Buzz.Library
open Buzz.Core (Uuid)
open Buzz.Db.Push

/-! ### Answers -/

def maxAttempts : ℕ := 8

/-- The limit of a claim. -/
def claimLimit : ℕ := 16

inductive DeliveryResponse
  | accepted
  | invalidEndpoint (generation : ℤ) (invalidAt : Option ℤ)
  | retry (retryAfterSeconds : Option ℤ)

/-- A response of the gateway, its body where one could be read. -/
structure Response where
  status : ℕ
  body : Option DeliveryResponse

namespace Response

def isSuccess (r : Response) : Bool := decide (200 ≤ r.status ∧ r.status < 300)

/-- The response asks for another attempt: 503 and 429. -/
def retryable (r : Response) : Bool := decide (r.status = 503 ∨ r.status = 429)

end Response

/-- How a request to the gateway ends. It is abandoned when no gateway is configured, when it cannot
be signed, and when the serving lease is lost. -/
inductive GatewayAnswer
  | response (r : Response)
  | unreachable
  | transportError
  | abandoned

/-- How the acquisition of a serving write ends: the deletion fence may refuse it, and the database
may fail it. -/
inductive AcquireAnswer
  | acquired
  | fenced
  | unavailable

/-! ### Deliveries -/

/-- Why a wake is given up. -/
inductive FailReason
  | suppressed
  | notMember
  | fenced
  | unavailable
  | rejected (r : Response)
  | transportError
  | exhausted

/-- What remains to be done with a wake. -/
inductive Settlement
  | complete
  | retry (nextAttemptAt : ℤ)
  | fail (reason : FailReason)
  | disableAndFail (generation : ℤ) (r : Response)

/-- Where a worker is in its batch. -/
inductive Task
  | idle
  | revalidating (wake : ClaimedWake) (rest : List ClaimedWake)
  | askingMember (wake : ClaimedWake) (channel : Uuid) (rest : List ClaimedWake)
  | revalidatingFinal (wake : ClaimedWake) (rest : List ClaimedWake)
  | acquiring (wake : ClaimedWake) (rest : List ClaimedWake)
  | sending (wake : ClaimedWake) (rest : List ClaimedWake)
  | settling (wake : ClaimedWake) (settlement : Settlement) (rest : List ClaimedWake)

namespace Task

/-- The next wake of the batch. -/
def next : List ClaimedWake → Task
  | [] => idle
  | wake :: rest => revalidating wake rest

/-- The wakes that a worker holds. -/
def wakes : Task → List ClaimedWake
  | idle => []
  | revalidating wake rest | askingMember wake _ rest | revalidatingFinal wake rest
  | acquiring wake rest | sending wake rest | settling wake _ rest => wake :: rest

/-- The settlement that a worker is about to make. -/
def settlement : Task → Option Settlement
  | settling _ settlement _ => some settlement
  | _ => none

end Task

/-- Where a claim leads. -/
def afterClaim : Except DbError (List ClaimedWake) → Task
  | .ok wakes => .next wakes
  | .error _ => .idle

/-- Where the first check leads. -/
def afterRevalidation (wake : ClaimedWake) (rest : List ClaimedWake) :
    Except DbError RevalidateWakeOutcome → Task
  | .ok (.deliver outcome) =>
    match outcome.channelId with
    | some channel => .askingMember outcome channel rest
    | none => .revalidatingFinal outcome rest
  | .ok .suppressed => .settling wake (.fail .suppressed) rest
  | .error _ => .next rest

/-- Where the answer about the membership leads; `none` when the query fails. -/
def afterMember (now : ℤ) (wake : ClaimedWake) (rest : List ClaimedWake) : Option Bool → Task
  | some true => .revalidatingFinal wake rest
  | some false => .settling wake (.fail .notMember) rest
  | none => .settling wake (.retry (now + 2 * 1000000)) rest

/-- Where the check before the transport leads. -/
def afterFinal (wake : ClaimedWake) (rest : List ClaimedWake) :
    Except DbError RevalidateWakeOutcome → Task
  | .ok (.deliver outcome) => .acquiring outcome rest
  | .ok .suppressed => .settling wake (.fail .suppressed) rest
  | .error _ => .next rest

/-- Where the acquisition leads: every error is taken for the deletion fence. -/
def afterAcquire (wake : ClaimedWake) (rest : List ClaimedWake) : AcquireAnswer → Task
  | .acquired => .sending wake rest
  | .fenced => .settling wake (.fail .fenced) rest
  | .unavailable => .settling wake (.fail .unavailable) rest

def retryOrFail (now : ℤ) (wake : ClaimedWake) (delay : ℤ) : Settlement :=
  if maxAttempts ≤ wake.attempt then .fail .exhausted
  else .retry (now + delay * 2 ^ min (wake.attempt - 1) 6 * 1000000)

/-- The settlement by a response. -/
def settlementOf (now : ℤ) (wake : ClaimedWake) (r : Response) : Settlement :=
  if r.isSuccess then
    match r.body with
    | some .accepted => .complete
    | _ => .fail (.rejected r)
  else if r.status = 410 then
    match r.body with
    | some (.invalidEndpoint generation _) =>
      if generation = wake.leaseGeneration then .disableAndFail generation r
      else .fail (.rejected r)
    | _ => .fail (.rejected r)
  else if r.status = 503 then
    match r.body with
    | some (.retry (some seconds)) => retryOrFail now wake (if 0 < seconds then seconds else 2)
    | _ => retryOrFail now wake 2
  else if r.status = 429 then retryOrFail now wake 2
  else if r.status = 404 ∧ 1 < wake.attempt then .complete
  else .fail (.rejected r)

/-- Where the request leads. -/
def afterSend (now : ℤ) (wake : ClaimedWake) (rest : List ClaimedWake) : GatewayAnswer → Task
  | .response r => .settling wake (settlementOf now wake r) rest
  | .unreachable => .settling wake (retryOrFail now wake 2) rest
  | .transportError => .settling wake (.fail .transportError) rest
  | .abandoned => .next rest

/-- The call that settles a wake, and where it leads. -/
def Settlement.call (wake : ClaimedWake) : Settlement → Call
  | complete => .completeWake wake.id wake.claimId
  | retry nextAttemptAt => .retryWake wake.id wake.claimId nextAttemptAt
  | fail _ => .failWake wake.id wake.claimId
  | disableAndFail generation _ =>
    .disableEndpointGeneration (wake.author, wake.installationId) generation

def Settlement.after (wake : ClaimedWake) (rest : List ClaimedWake) : Settlement → Task
  | complete | retry _ | fail _ => .next rest
  | disableAndFail _ r => .settling wake (.fail (.rejected r)) rest

/-! ### Steps -/

/-- The tables, the clock of the database, the members of the channels, the claims made so far, and
the workers. -/
structure Delivery where
  store : Outbox
  now : ℤ
  members : Uuid → PublicKey → Bool
  used : List Uuid
  workers : ℕ → Task

namespace Delivery

def initial : Delivery := ⟨.empty, 0, fun _ _ => false, [], fun _ => .idle⟩

/-- The wake under an id. -/
def wake (s : Delivery) (id : Uuid) : Option Wake := s.store.tables.outbox.lookup id

/-- Send a worker on. -/
def goTo (s : Delivery) (n : ℕ) (task : Task) : Delivery :=
  { s with workers := Function.update s.workers n task }

/-- Run a call on the tables. -/
def run (maxActiveLeases : ℤ) (s : Delivery) (call : Call) : Delivery :=
  { s with store := s.store.apply maxActiveLeases call }

/-- Claim the wakes that are due. -/
def claim (maxActiveLeases : ℤ) (s : Delivery) (claimId : Uuid) (leaseUntil : ℤ) : Delivery :=
  { s with
    store := s.store.apply maxActiveLeases (.claimDueWakes s.now claimLimit claimId leaseUntil)
    used := claimId :: s.used }

theorem goTo_workers_self (s : Delivery) (n : ℕ) (task : Task) :
    (s.goTo n task).workers n = task := by
  simp [goTo]

theorem goTo_workers_of_ne (s : Delivery) (task : Task) {m n : ℕ} (h : m ≠ n) :
    (s.goTo n task).workers m = s.workers m := by
  simp [goTo, h]

end Delivery

inductive Event
  | tick (now : ℤ)
  | call (call : Call)
  | memberships (members : Uuid → PublicKey → Bool)
  | claim (n : ℕ) (claimId : Uuid) (leaseUntil : ℤ)
  | revalidate (n : ℕ)
  | member (n : ℕ)
  | acquire (n : ℕ) (answer : AcquireAnswer)
  | send (n : ℕ) (answer : GatewayAnswer)
  | settle (n : ℕ)
  | skip (n : ℕ)
  | stop (n : ℕ)

/-- A call that is not of a delivery worker. -/
def fromElsewhere : Call → Bool
  | .claimDueWakes .. | .completeWake .. | .retryWake .. | .failWake .. => false
  | _ => true

open Delivery in
/-- The steps of the workers and of the rest of the relay. Claim ids are fresh. An event that is
deleted stays deleted while there is a wake for it. A query may fail, which leaves the wake as it
is, and a worker may stop at any time. -/
inductive Step (maxActiveLeases : ℤ) (s : Delivery) : Event → Delivery → Prop
  | tick (now : ℤ) (hnow : s.now ≤ now) :
      Step maxActiveLeases s (.tick now) { s with now := now }
  | call (call : Call) (helsewhere : fromElsewhere call = true)
      (hdeleted : ∀ id w, s.wake id = some w → s.store.tables.liveEvent w.eventId = none →
        (call.run maxActiveLeases s.store.tables).liveEvent w.eventId = none) :
      Step maxActiveLeases s (.call call) (s.run maxActiveLeases call)
  | memberships (members : Uuid → PublicKey → Bool) :
      Step maxActiveLeases s (.memberships members) { s with members := members }
  | claim (n : ℕ) (claimId : Uuid) (leaseUntil : ℤ) (htask : s.workers n = .idle)
      (hfresh : claimId ∉ s.used) :
      Step maxActiveLeases s (.claim n claimId leaseUntil)
        ((s.claim maxActiveLeases claimId leaseUntil).goTo n
          (afterClaim (s.store.tables.claimDueWakes s.now claimLimit claimId leaseUntil).1))
  | revalidate (n : ℕ) (wake : ClaimedWake) (rest : List ClaimedWake)
      (htask : s.workers n = .revalidating wake rest) :
      Step maxActiveLeases s (.revalidate n)
        (s.goTo n (afterRevalidation wake rest
          (s.store.tables.revalidateWakeForSend s.now wake.id wake.claimId)))
  | member (n : ℕ) (wake : ClaimedWake) (channel : Uuid) (rest : List ClaimedWake)
      (htask : s.workers n = .askingMember wake channel rest) :
      Step maxActiveLeases s (.member n)
        (s.goTo n (afterMember s.now wake rest (some (s.members channel wake.author))))
  | memberFails (n : ℕ) (wake : ClaimedWake) (channel : Uuid)
      (rest : List ClaimedWake) (htask : s.workers n = .askingMember wake channel rest) :
      Step maxActiveLeases s (.member n) (s.goTo n (afterMember s.now wake rest none))
  | final (n : ℕ) (wake : ClaimedWake) (rest : List ClaimedWake)
      (htask : s.workers n = .revalidatingFinal wake rest) :
      Step maxActiveLeases s (.revalidate n)
        (s.goTo n (afterFinal wake rest
          (s.store.tables.revalidateWakeForSend s.now wake.id wake.claimId)))
  | acquire (n : ℕ) (wake : ClaimedWake) (rest : List ClaimedWake)
      (answer : AcquireAnswer) (htask : s.workers n = .acquiring wake rest) :
      Step maxActiveLeases s (.acquire n answer) (s.goTo n (afterAcquire wake rest answer))
  | send (n : ℕ) (wake : ClaimedWake) (rest : List ClaimedWake)
      (answer : GatewayAnswer) (htask : s.workers n = .sending wake rest) :
      Step maxActiveLeases s (.send n answer) (s.goTo n (afterSend s.now wake rest answer))
  | settle (n : ℕ) (wake : ClaimedWake) (settlement : Settlement)
      (rest : List ClaimedWake) (htask : s.workers n = .settling wake settlement rest) :
      Step maxActiveLeases s (.settle n)
        ((s.run maxActiveLeases (settlement.call wake)).goTo n (settlement.after wake rest))
  | settleFails (n : ℕ) (wake : ClaimedWake) (settlement : Settlement)
      (rest : List ClaimedWake) (htask : s.workers n = .settling wake settlement rest) :
      Step maxActiveLeases s (.settle n) (s.goTo n (settlement.after wake rest))
  | skip (n : ℕ) (wake : ClaimedWake) (rest : List ClaimedWake)
      (htask : (s.workers n).wakes = wake :: rest) :
      Step maxActiveLeases s (.skip n) (s.goTo n (.next rest))
  | stop (n : ℕ) : Step maxActiveLeases s (.stop n) (s.goTo n .idle)

end Buzz.Relay.Push
