import Buzz.Db.Push.Outbox

/-!
# The match queue

The calls of `crates/buzz-db/src/push.rs` by which the matcher takes the events of a community that
have to be matched against its leases. A batch of jobs is claimed under one claim, which runs out,
and a job is completed or released only under the claim it is under.

## Main definitions

* `MatchLease`, `activeMatchLeases`.
* `BatchedMatch`, `claimDueMatchBatch`, `completeMatchBatch`, `retryMatchBatch`.

## Main results

* `activeMatchLeases_mem`: an eligible lease is among the active ones.
* `claimDueMatchBatch_kept`, `completeMatchBatch_kept`: the jobs that a call leaves.
-/

namespace Buzz.Db.Push

open Buzz.Library
open Buzz.Core (Uuid)

/-! ### Leases -/

/-- A lease as the matcher sees it. -/
structure MatchLease where
  author : PublicKey
  installationId : List Char
  generation : ℤ
  subscriptions : Json
  expiresAt : ℤ

def MatchLease.address (l : MatchLease) : Address := (l.author, l.installationId)

/-- A lease read for the matcher. -/
def Lease.forMatch (a : Address) (l : Lease) : Except DbError MatchLease :=
  match l.subscriptions with
  | none => .error (.columnDecode "subscriptions".toList)
  | some subscriptions => .ok ⟨a.1, a.2, l.generation, subscriptions, l.expiresAt⟩

theorem forMatch_address {a : Address} {l : Lease} {m : MatchLease} (h : l.forMatch a = .ok m) :
    m.address = a := by
  unfold Lease.forMatch at h
  cases hsubscriptions : l.subscriptions with
  | none =>
    rw [hsubscriptions] at h
    cases h
  | some subscriptions =>
    rw [hsubscriptions] at h
    obtain rfl := Except.ok.inj h
    rfl

/-- The leases that events are matched against. -/
def activeMatchLeases (now : ℤ) (t : Tables) : Except DbError (List MatchLease) :=
  (t.leases.entries.filter fun e => e.2.eligible now).mapM fun e => e.2.forMatch e.1

theorem activeMatchLeases_mem {now : ℤ} {t : Tables} {leases : List MatchLease}
    (h : activeMatchLeases now t = .ok leases) {a : Address} {l : Lease}
    (hl : t.leases.lookup a = some l) (heligible : l.eligible now = true) {m : MatchLease}
    (hm : l.forMatch a = .ok m) : m ∈ leases := by
  have hentry : (⟨a, l⟩ : Σ _ : Address, Lease) ∈
      t.leases.entries.filter fun e => e.2.eligible now :=
    List.mem_filter.mpr ⟨HashMap.mem_entries_iff.mpr hl, heligible⟩
  exact (List.of_mem_zip (mapM_zip_mem h hentry hm)).2

/-! ### Jobs -/

/-- The claims after which a job is discarded. -/
def maxMatchAttempts : ℕ := 8

/-- A claimed job, with the event that was loaded for it. -/
structure BatchedMatch where
  eventId : EventId
  createdAt : ℤ
  event : StoredEvent
  attempt : ℕ

/-- Nobody works on the job, and its time has come. -/
def MatchJob.due (now : ℤ) (j : MatchJob) : Bool :=
  decide (j.attempts < maxMatchAttempts) && decide (j.nextAttemptAt ≤ now) &&
    (decide (j.state = .pending) ||
      decide (j.state = .matching) && j.leaseUntil.any fun deadline => decide (deadline < now))

/-- `ORDER BY next_attempt_at, created_at`. -/
def jobOrder (a b : Σ _ : EventId, MatchJob) : Bool :=
  decide (a.2.nextAttemptAt < b.2.nextAttemptAt) ||
    decide (a.2.nextAttemptAt = b.2.nextAttemptAt) && decide (a.2.createdAt ≤ b.2.createdAt)

/-- A job under a claim. -/
def MatchJob.claim (claimId : Uuid) (leaseUntil : ℤ) (j : MatchJob) : MatchJob :=
  { j with
    state := .matching
    claimId := some claimId
    leaseUntil := some leaseUntil
    attempts := j.attempts + 1 }

namespace Tables

/-- The jobs that a claim takes. -/
def dueJobs (now : ℤ) (limit : ℕ) (t : Tables) : List (Σ _ : EventId, MatchJob) :=
  ((t.matchQueue.entries.filter fun e => e.2.due now).mergeSort jobOrder).take limit

/-- The job is matched under a claim, for one of the given events. -/
def matchedUnder (claimId : Uuid) (ids : List EventId) (id : EventId) (j : MatchJob) : Bool :=
  decide (j.claimId = some claimId) && decide (j.state = .matching) && decide (id ∈ ids)

/-- Delete the jobs of some events under a claim. -/
def completeMatchBatch (claimId : Uuid) (ids : List EventId) (t : Tables) : ℕ × Tables :=
  (Table.countWhere (matchedUnder claimId ids) t.matchQueue,
    { t with matchQueue := t.matchQueue.retain fun id j => !matchedUnder claimId ids id j })

/-- Release the jobs of some events under a claim. -/
def retryMatchBatch (claimId : Uuid) (ids : List EventId) (next : ℤ) (t : Tables) : ℕ × Tables :=
  (Table.countWhere (matchedUnder claimId ids) t.matchQueue,
    { t with
      matchQueue := Table.updateWhere (matchedUnder claimId ids)
        (fun j => { j with
          state := .pending
          claimId := none
          leaseUntil := none
          nextAttemptAt := next }) t.matchQueue })

/-- Claim a batch of due jobs, load their events, and complete the jobs whose event is gone. -/
def claimDueMatchBatch (now : ℤ) (limit : ℕ) (claimId : Uuid) (leaseUntil : ℤ) (t : Tables) :
    List BatchedMatch × Tables :=
  let due := t.dueJobs now limit
  let claimed := { t with
    matchQueue := Table.updateWhere (fun id _ => due.any fun e => e.1 = id)
      (MatchJob.claim claimId leaseUntil) t.matchQueue }
  let jobs := due.filterMap fun e => (t.liveEntry e.1).map fun entry =>
    ⟨e.1, entry.1.1, entry.2, e.2.attempts + 1⟩
  let gone := (due.map Sigma.fst).filter fun id => (t.liveEntry id).isNone
  (jobs, (claimed.completeMatchBatch claimId gone).2)

/-! ### What the calls leave -/

variable {t : Tables} {id : EventId} {j : MatchJob}

/-- The job of an event that is not completed stays. -/
theorem completeMatchBatch_kept {claimId : Uuid} {ids : List EventId} (hid : id ∉ ids)
    (hj : t.matchQueue.lookup id = some j) :
    (t.completeMatchBatch claimId ids).2.matchQueue.lookup id = some j := by
  refine HashMap.lookup_retain_eq_some_iff.mpr ⟨hj, ?_⟩
  simp [matchedUnder, hid]

/-- The job of an event that is not gone stays, perhaps under the claim. -/
theorem claimDueMatchBatch_kept {now leaseUntil : ℤ} {limit : ℕ} {claimId : Uuid}
    (hlive : (t.liveEntry id).isSome = true) (hj : t.matchQueue.lookup id = some j) :
    ∃ j', (t.claimDueMatchBatch now limit claimId leaseUntil).2.matchQueue.lookup id = some j' := by
  have hgone : id ∉ ((t.dueJobs now limit).map Sigma.fst).filter
      fun id => (t.liveEntry id).isNone := by
    intro hmem
    have hnone := (List.mem_filter.mp hmem).2
    rw [Option.isNone_iff_eq_none.mp hnone] at hlive
    cases hlive
  have hclaimed := Table.lookup_updateWhere
    (fun id _ => (t.dueJobs now limit).any fun e => e.1 = id) (MatchJob.claim claimId leaseUntil)
    t.matchQueue id
  rw [hj, Option.map_some] at hclaimed
  exact ⟨_, completeMatchBatch_kept hgone hclaimed⟩

end Tables

end Buzz.Db.Push
