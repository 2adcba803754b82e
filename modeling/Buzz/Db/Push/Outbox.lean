import Mathlib.Data.List.Sort
import Buzz.Db.Push.Schema
import Buzz.Library.Outcome

/-!
# The outbox of wakes

The calls of `crates/buzz-db/src/push.rs` on the outbox: the matcher enqueues wakes, a worker claims
the due ones, checks each again before it is sent, and settles it under its claim. Every call is one
statement or one transaction, and so one step here. A worker that has lost its claim changes
nothing.

## Main definitions

* `enqueueWakes`: the wakes of a batch, at most one for each endpoint and event.
* `claimDueWakes`, `revalidateWakeForSend`.
* `finishClaim`, and `completeWake`, `retryWake`, `failWake` by it.
* `disableEndpointGeneration`, `pruneWakeOutbox`.

## Main results

* `Tables.Enqueue`, `enqueueWakes_enqueue`: what an enqueue does to the tables.
* `lookup_claimDueWakes`, `lookup_finishClaim`, `lookup_pruneWakeOutbox`: the wake under an id.
* `revalidateWakeForSend_eq_deliver`: what a wake that may be sent satisfies.
-/

namespace Buzz.Db.Push

open Buzz.Library
open Buzz.Core (Uuid)

/-! ### Enqueueing -/

/-- A wake that the matcher asks for. -/
structure WakeRequest where
  author : PublicKey
  installationId : List Char
  leaseGeneration : ℤ
  eventId : EventId
  class' : List Char
  expiresAt : ℤ

def WakeRequest.address (r : WakeRequest) : Address := (r.author, r.installationId)

inductive EnqueueWakeOutcome
  | enqueued (id : Uuid)
  | duplicate (id : Uuid)
  | inactiveLease
  deriving DecidableEq

/-- The key that keeps a wake from being enqueued twice. -/
abbrev WakeKey := EndpointHash × EventId

namespace Wake

def address (w : Wake) : Address := (w.author, w.installationId)

def key (w : Wake) : WakeKey := (w.endpointHash, w.eventId)

/-- The row of a request, with the defaults of the table. -/
def new (now : ℤ) (r : WakeRequest) (hash : EndpointHash) : Wake where
  author := r.author
  installationId := r.installationId
  leaseGeneration := r.leaseGeneration
  endpointHash := hash
  eventId := r.eventId
  class' := r.class'
  expiresAt := r.expiresAt
  state := .pending
  attempts := 0
  nextAttemptAt := now
  leaseUntil := none
  claimId := none
  createdAt := now

end Wake

namespace Tables

/-- The endpoint of the lease that a request names, if it is eligible in that generation. -/
def resolve (now : ℤ) (t : Tables) (r : WakeRequest) : Except DbError (Option EndpointHash) :=
  match t.leases.lookup r.address with
  | none => .ok none
  | some l =>
    if l.eligible now = false then .ok none
    else
      match l.endpointHash with
      | none => .error (.columnDecode "endpoint_hash".toList)
      | some hash => .ok (if l.generation = r.leaseGeneration then some hash else none)

/-- Insert a wake under a generated id, `ON CONFLICT (community_id, endpoint_hash, event_id) DO
NOTHING`. -/
def insertWake (id : Uuid) (w : Wake) (t : Tables) : Except DbError (Tables × Bool) :=
  if w.class' ∉ maxClasses then
    .error (.database "23514".toList "push_wake_outbox_class_check".toList)
  else if w.leaseGeneration ≤ 0 then
    .error (.database "23514".toList "push_wake_outbox_lease_generation_check".toList)
  else if Table.existsWhere (fun _ w' => decide (w'.key = w.key)) t.outbox then .ok (t, false)
  else
    match t.outbox.lookup id with
    | some _ => .error (.database "23505".toList "push_wake_outbox_pkey".toList)
    | none => .ok ({ t with outbox := t.outbox.insert id w }, true)

/-- Insert the wakes of the eligible requests, with the keys and ids of those that are new. -/
def insertWakes (now : ℤ) : List (WakeRequest × EndpointHash × Uuid) → Tables →
    Except DbError (Tables × List (WakeKey × Uuid))
  | [], t => .ok (t, [])
  | (r, hash, id) :: proposals, t => do
    let (t, inserted) ← t.insertWake id (Wake.new now r hash)
    let (t, returned) ← insertWakes now proposals t
    return (t, if inserted then ((hash, r.eventId), id) :: returned else returned)

/-- The wakes under some keys, with their ids. -/
def wakesUnder (keys : List WakeKey) (t : Tables) : List (WakeKey × Uuid) :=
  (t.outbox.entries.filter fun e => e.2.key ∈ keys).map fun e => (e.2.key, e.1)

end Tables

/-- The outcomes of the requests, in their order. The first request for a new wake has enqueued
it. -/
def enqueueOutcomes (jobIds : List (WakeKey × Uuid)) (insertedKeys : List WakeKey) :
    List WakeKey → List (WakeRequest × Option EndpointHash) →
    Except DbError (List EnqueueWakeOutcome)
  | _, [] => .ok []
  | reported, (_, none) :: requests => do
    let outcomes ← enqueueOutcomes jobIds insertedKeys reported requests
    return .inactiveLease :: outcomes
  | reported, (r, some hash) :: requests =>
    let key := (hash, r.eventId)
    match jobIds.lookup key with
    | none => .error (.invalidData "wake enqueue resolved neither insert nor duplicate".toList)
    | some id =>
      if key ∈ insertedKeys ∧ key ∉ reported then do
        let outcomes ← enqueueOutcomes jobIds insertedKeys (key :: reported) requests
        return .enqueued id :: outcomes
      else do
        let outcomes ← enqueueOutcomes jobIds insertedKeys reported requests
        return .duplicate id :: outcomes

/-- The transaction of an enqueue: the tables, the endpoint of each request, the new wakes, and the
ids of all wakes asked for. -/
def enqueueTx (now : ℤ) (requests : List (WakeRequest × Uuid)) (t : Tables) :
    Except DbError
      (Tables × List (Option EndpointHash) × List (WakeKey × Uuid) × List (WakeKey × Uuid)) := do
  let resolved ← requests.mapM fun r => t.resolve now r.1
  let eligible := (requests.zip resolved).filterMap fun (r, hash) =>
    hash.map fun hash => (r.1, hash, r.2)
  let (t, inserted) ← t.insertWakes now eligible
  let jobIds :=
    if inserted.length < eligible.length then
      inserted ++ t.wakesUnder (eligible.map fun (r, hash, _) => (hash, r.eventId))
    else inserted
  return (t, resolved, inserted, jobIds)

/-- Enqueue the wakes of a batch. Each request comes with the id that is generated for its row. -/
def enqueueWakes (now : ℤ) (requests : List (WakeRequest × Uuid)) (t : Tables) :
    Except DbError (List EnqueueWakeOutcome) × Tables :=
  if requests = [] then (.ok [], t)
  else
    match enqueueTx now requests t with
    | .error e => (.error e, t)
    | .ok (t', resolved, inserted, jobIds) =>
      (enqueueOutcomes jobIds (inserted.map Prod.fst) [] ((requests.map Prod.fst).zip resolved), t')

/-! ### Claims -/

/-- A wake as its worker sees it. -/
structure ClaimedWake where
  id : Uuid
  claimId : Uuid
  eventId : EventId
  channelId : Option Uuid
  author : PublicKey
  installationId : List Char
  leaseGeneration : ℤ
  endpointGrant : List Char
  class' : List Char
  expiresAt : ℤ
  attempt : ℕ

def rowToClaimedWake (id : Uuid) (w : Wake) (l : Lease) (e : StoredEvent) :
    Except DbError ClaimedWake :=
  match w.claimId, l.endpointGrant with
  | none, _ => .error (.columnDecode "claim_id".toList)
  | some _, none => .error (.columnDecode "endpoint_grant".toList)
  | some claimId, some grant =>
    .ok ⟨id, claimId, w.eventId, e.channelId, w.author, w.installationId, w.leaseGeneration, grant,
      w.class', w.expiresAt, w.attempts⟩

namespace Tables

/-- The lease that a wake was enqueued for, if it is still the lease of its address. -/
def currentLease (t : Tables) (w : Wake) : Option Lease :=
  (t.leases.lookup w.address).filter fun l =>
    decide (l.generation = w.leaseGeneration) && decide (l.endpointHash = some w.endpointHash)

/-- The event under an id with its creation time, if it is not deleted. The id determines the
creation time. -/
def liveEntry (t : Tables) (id : EventId) : Option (Σ _ : ℤ × EventId, StoredEvent) :=
  t.events.entries.find? fun e => decide (e.1.2 = id) && e.2.deletedAt.isNone

def liveEvent (t : Tables) (id : EventId) : Option StoredEvent := (t.liveEntry id).map Sigma.snd

/-- The join of a wake with its lease and its event, where none of them has run out. -/
def wakeJoin (now : ℤ) (t : Tables) (w : Wake) : Option (Lease × StoredEvent) := do
  let l ← t.currentLease w
  let e ← t.liveEvent w.eventId
  if epochSeconds now < w.expiresAt ∧ l.eligible now = true then some (l, e) else none

end Tables

/-- Nobody works on the wake, and its time has come. -/
def Wake.due (now : ℤ) (w : Wake) : Bool :=
  decide (w.nextAttemptAt ≤ now) &&
    (decide (w.state = .pending) ||
      decide (w.state = .sending) && w.leaseUntil.any fun deadline => decide (deadline < now))

/-- `ORDER BY next_attempt_at, created_at, id`. -/
def wakeOrder (a b : Σ _ : Uuid, Wake) : Bool :=
  decide (a.2.nextAttemptAt < b.2.nextAttemptAt) ||
    decide (a.2.nextAttemptAt = b.2.nextAttemptAt) &&
      (decide (a.2.createdAt < b.2.createdAt) ||
        decide (a.2.createdAt = b.2.createdAt) && decide (a.1 ≤ b.1))

/-- A wake under a claim. -/
def Wake.claim (claimId : Uuid) (leaseUntil : ℤ) (w : Wake) : Wake :=
  { w with
    state := .sending
    claimId := some claimId
    leaseUntil := some leaseUntil
    attempts := w.attempts + 1 }

namespace Tables

/-- The wakes that a claim takes. -/
def claimable (now : ℤ) (limit : ℕ) (t : Tables) : List (Σ _ : Uuid, Wake) :=
  ((t.outbox.entries.filter fun e => e.2.due now && (t.wakeJoin now e.2).isSome).mergeSort
    wakeOrder).take limit

/-- The claim takes the wake under an id. -/
def takes (now : ℤ) (limit : ℕ) (t : Tables) (id : Uuid) : Bool :=
  (t.claimable now limit).any fun e => e.1 = id

def claimDueWakes (now : ℤ) (limit : ℕ) (claimId : Uuid) (leaseUntil : ℤ) (t : Tables) :
    Except DbError (List ClaimedWake) × Tables :=
  let joined := (t.claimable now limit).filterMap fun e =>
    (t.wakeJoin now e.2).map fun (l, event) => (e, l, event)
  (joined.mapM fun (e, l, event) => rowToClaimedWake e.1 (e.2.claim claimId leaseUntil) l event,
    { t with
      outbox := Table.updateWhere (fun id _ => t.takes now limit id) (Wake.claim claimId leaseUntil)
        t.outbox })

end Tables

inductive RevalidateWakeOutcome
  | deliver (wake : ClaimedWake)
  | suppressed

/-- The claim is the one the wake is under, and has not run out. -/
def Wake.heldBy (now : ℤ) (claimId : Uuid) (w : Wake) : Bool :=
  decide (w.claimId = some claimId) && decide (w.state = .sending) &&
    w.leaseUntil.any fun deadline => decide (now ≤ deadline)

namespace Tables

/-- Whether a claimed wake may be sent now. -/
def revalidateWakeForSend (now : ℤ) (id claimId : Uuid) (t : Tables) :
    Except DbError RevalidateWakeOutcome :=
  match t.outbox.lookup id with
  | none => .ok .suppressed
  | some w =>
    if w.heldBy now claimId = false then .ok .suppressed
    else
      match t.wakeJoin now w with
      | none => .ok .suppressed
      | some (l, e) => (rowToClaimedWake id w l e).map .deliver

/-- The wake under `id` is being sent under a claim. -/
def sendingUnder (id claimId : Uuid) (id' : Uuid) (w : Wake) : Bool :=
  decide (id' = id) && decide (w.claimId = some claimId) && decide (w.state = .sending)

/-- Settle a wake under its claim, and whether there was one to settle. -/
def finishClaim (id claimId : Uuid) (f : Wake → Wake) (t : Tables) : Bool × Tables :=
  (Table.existsWhere (sendingUnder id claimId) t.outbox,
    { t with outbox := Table.updateWhere (sendingUnder id claimId) f t.outbox })

def completeWake (id claimId : Uuid) (t : Tables) : Bool × Tables :=
  t.finishClaim id claimId fun w =>
    { w with state := .delivered, claimId := none, leaseUntil := none }

def retryWake (id claimId : Uuid) (nextAttemptAt : ℤ) (t : Tables) : Bool × Tables :=
  t.finishClaim id claimId fun w =>
    { w with
      state := .pending
      nextAttemptAt := nextAttemptAt
      claimId := none
      leaseUntil := none }

def failWake (id claimId : Uuid) (t : Tables) : Bool × Tables :=
  t.finishClaim id claimId fun w => { w with state := .failed, claimId := none, leaseUntil := none }

/-! ### Leases and retention -/

/-- The lease of an address in one generation, while its endpoint is in use. -/
def enabledGeneration (address : Address) (generation : ℤ) (a : Address) (l : Lease) : Bool :=
  decide (a = address) && decide (l.generation = generation) && l.active && l.endpointEnabled

/-- Disable the endpoint of one generation. No constraint of a lease is about the flag. -/
def disableEndpointGeneration (address : Address) (generation : ℤ) (t : Tables) : Bool × Tables :=
  (Table.existsWhere (enabledGeneration address generation) t.leases,
    { t with
      leases := Table.updateWhere (enabledGeneration address generation)
        (fun l => { l with endpointEnabled := false }) t.leases })

end Tables

def WakeState.terminal : WakeState → Bool
  | .delivered | .failed => true
  | .pending | .sending => false

namespace Tables

/-- A wake that is kept no longer. -/
def prunable (now before : ℤ) (t : Tables) (w : Wake) : Bool :=
  decide (w.createdAt < before) &&
    (w.state.terminal || decide (w.expiresAt ≤ epochSeconds now)) &&
    !t.matchQueue.keys.contains w.eventId

/-- Delete the old wakes that are settled or expired. -/
def pruneWakeOutbox (now before : ℤ) (t : Tables) : ℕ × Tables :=
  (Table.countWhere (fun _ w => t.prunable now before w) t.outbox,
    { t with outbox := t.outbox.retain fun _ w => !t.prunable now before w })

/-! ### What an enqueue does -/

/-- A request that an eligible lease answers. -/
def Resolved (now : ℤ) (t : Tables) (r : WakeRequest) (hash : EndpointHash) : Prop :=
  ∃ l, t.leases.lookup r.address = some l ∧ l.eligible now = true ∧
    l.generation = r.leaseGeneration ∧ l.endpointHash = some hash

/-- At most one wake for each endpoint and event. -/
def WakesUnique (t : Tables) : Prop :=
  ∀ i j w w', t.outbox.lookup i = some w → t.outbox.lookup j = some w' → w.key = w'.key → i = j

/-- An enqueue adds new wakes of resolved requests, under new keys. -/
structure Enqueue (now : ℤ) (t t' : Tables) : Prop where
  frame : t' = { t with outbox := t'.outbox }
  kept : ∀ id w, t.outbox.lookup id = some w → t'.outbox.lookup id = some w
  new : ∀ id w, t'.outbox.lookup id = some w → t.outbox.lookup id = some w ∨
    t.outbox.lookup id = none ∧ ∃ r hash, t.Resolved now r hash ∧ w = Wake.new now r hash
  unique : t.WakesUnique → t'.WakesUnique

variable {now : ℤ} {t t' t'' : Tables}

theorem resolve_eq_ok {r : WakeRequest} {hash : EndpointHash}
    (h : t.resolve now r = .ok (some hash)) : t.Resolved now r hash := by
  unfold resolve at h
  cases hl : t.leases.lookup r.address with
  | none =>
    rw [hl] at h
    cases h
  | some l =>
    rw [hl] at h
    cases heligible : l.eligible now with
    | false => simp [heligible] at h
    | true =>
      cases hhash : l.endpointHash with
      | none => simp [heligible, hhash] at h
      | some hash' =>
        simp only [heligible, hhash, Bool.true_eq_false, if_false, Except.ok.injEq] at h
        split_ifs at h with hgeneration
        obtain rfl := Option.some.inj h
        exact ⟨l, hl, heligible, hgeneration, hhash⟩

theorem insertWake_eq_ok {id : Uuid} {w : Wake} {inserted : Bool}
    (h : t.insertWake id w = .ok (t', inserted)) :
    (inserted = false ∧ t' = t ∧ ∃ id' w', t.outbox.lookup id' = some w' ∧ w'.key = w.key) ∨
      (inserted = true ∧ (∀ id' w', t.outbox.lookup id' = some w' → w'.key ≠ w.key) ∧
        t.outbox.lookup id = none ∧ t' = { t with outbox := t.outbox.insert id w }) := by
  unfold insertWake at h
  split_ifs at h with hclass hgeneration hexists
  · obtain ⟨rfl, rfl⟩ := Prod.mk.inj (Except.ok.inj h)
    obtain ⟨id', w', hw', hkey⟩ := Table.existsWhere_iff.mp hexists
    exact .inl ⟨rfl, rfl, id', w', hw', of_decide_eq_true hkey⟩
  · cases hid : t.outbox.lookup id with
    | some w' =>
      rw [hid] at h
      cases h
    | none =>
      rw [hid] at h
      obtain ⟨rfl, rfl⟩ := Prod.mk.inj (Except.ok.inj h)
      refine .inr ⟨rfl, fun id' w' hw' hkey => hexists ?_, rfl, rfl⟩
      exact Table.existsWhere_iff.mpr ⟨id', w', hw', decide_eq_true hkey⟩

theorem Enqueue.refl (now : ℤ) (t : Tables) : Enqueue now t t :=
  ⟨rfl, fun _ _ h => h, fun _ _ h => .inl h, id⟩

theorem Enqueue.trans (h : Enqueue now t t') (h' : Enqueue now t' t'') : Enqueue now t t'' where
  frame := by rw [h'.frame, h.frame]
  kept id w hw := h'.kept id w (h.kept id w hw)
  new id w hw := by
    obtain hw | ⟨hnone, r, hash, hresolved, rfl⟩ := h'.new id w hw
    · exact h.new id w hw
    · refine .inr ⟨?_, r, hash, ?_, rfl⟩
      · by_contra hsome
        obtain ⟨w, hw⟩ := Option.ne_none_iff_exists'.mp hsome
        rw [h.kept id w hw] at hnone
        cases hnone
      · rw [Resolved, h.frame] at hresolved
        exact hresolved
  unique hunique := h'.unique (h.unique hunique)

/-- One new wake. -/
theorem enqueue_insert {id : Uuid} {r : WakeRequest} {hash : EndpointHash}
    (hresolved : t.Resolved now r hash)
    (hnew : ∀ id' w', t.outbox.lookup id' = some w' → w'.key ≠ (Wake.new now r hash).key)
    (hid : t.outbox.lookup id = none) :
    Enqueue now t { t with outbox := t.outbox.insert id (Wake.new now r hash) } where
  frame := rfl
  kept id' w hw := by
    have hne : id' ≠ id := by
      rintro rfl
      rw [hid] at hw
      cases hw
    rw [HashMap.lookup_insert_eq, if_neg hne]
    exact hw
  new id' w hw := by
    rw [HashMap.lookup_insert_eq] at hw
    split_ifs at hw with heq
    · obtain rfl := Option.some.inj hw
      exact .inr ⟨heq ▸ hid, r, hash, hresolved, rfl⟩
    · exact .inl hw
  unique hunique := by
    intro i j w w' hw hw' hkey
    rw [HashMap.lookup_insert_eq] at hw hw'
    split_ifs at hw hw' with hi hj hj
    · exact hi.trans hj.symm
    · obtain rfl := Option.some.inj hw
      exact absurd hkey.symm (hnew j w' hw')
    · obtain rfl := Option.some.inj hw'
      exact absurd hkey (hnew i w hw)
    · exact hunique i j w w' hw hw' hkey

theorem insertWakes_enqueue {proposals : List (WakeRequest × EndpointHash × Uuid)}
    {returned : List (WakeKey × Uuid)} (hresolved : ∀ p ∈ proposals, t.Resolved now p.1 p.2.1)
    (h : t.insertWakes now proposals = .ok (t', returned)) : Enqueue now t t' := by
  induction proposals generalizing t returned with
  | nil =>
    obtain ⟨rfl, -⟩ := Prod.mk.inj (Except.ok.inj h)
    exact .refl now t
  | cons p proposals ih =>
    obtain ⟨r, hash, id⟩ := p
    obtain ⟨⟨t₁, inserted⟩, hinsert, htail⟩ := bind_eq_ok.mp h
    obtain ⟨⟨t₂, returned₂⟩, hrest, hpure⟩ := bind_eq_ok.mp htail
    obtain ⟨rfl, -⟩ := Prod.mk.inj (Except.ok.inj hpure)
    have hhead := hresolved _ List.mem_cons_self
    have hstep : Enqueue now t t₁ := by
      obtain ⟨-, rfl, -⟩ | ⟨-, hnew, hid, rfl⟩ := insertWake_eq_ok hinsert
      · exact .refl now _
      · exact enqueue_insert hhead hnew hid
    refine hstep.trans (ih (fun p hp => ?_) hrest)
    rw [Resolved, hstep.frame]
    exact hresolved p (List.mem_cons_of_mem _ hp)

/-- The wake of every proposal is there afterwards. -/
theorem insertWakes_has {proposals : List (WakeRequest × EndpointHash × Uuid)}
    {returned : List (WakeKey × Uuid)} (hresolved : ∀ p ∈ proposals, t.Resolved now p.1 p.2.1)
    (h : t.insertWakes now proposals = .ok (t', returned)) :
    ∀ p ∈ proposals, ∃ id w, t'.outbox.lookup id = some w ∧ w.key = (p.2.1, p.1.eventId) := by
  induction proposals generalizing t returned with
  | nil => exact nofun
  | cons p proposals ih =>
    obtain ⟨r, hash, id⟩ := p
    obtain ⟨⟨t₁, inserted⟩, hinsert, htail⟩ := bind_eq_ok.mp h
    obtain ⟨⟨t₂, returned₂⟩, hrest, hpure⟩ := bind_eq_ok.mp htail
    obtain ⟨rfl, -⟩ := Prod.mk.inj (Except.ok.inj hpure)
    have hleases : t₁.leases = t.leases := by
      obtain ⟨-, rfl, -⟩ | ⟨-, -, -, rfl⟩ := insertWake_eq_ok hinsert <;> rfl
    have hresolved₁ : ∀ p ∈ proposals, t₁.Resolved now p.1 p.2.1 := by
      intro p hp
      rw [Resolved, hleases]
      exact hresolved p (List.mem_cons_of_mem _ hp)
    refine List.forall_mem_cons.mpr ⟨?_, ih hresolved₁ hrest⟩
    obtain ⟨id', w, hw, hkey⟩ : ∃ id' w, t₁.outbox.lookup id' = some w ∧
        w.key = (Wake.new now r hash).key := by
      obtain ⟨-, rfl, id', w, hw, hkey⟩ | ⟨-, -, -, rfl⟩ := insertWake_eq_ok hinsert
      · exact ⟨id', w, hw, hkey⟩
      · exact ⟨id, _, AList.lookup_insert _, rfl⟩
    exact ⟨id', w, (insertWakes_enqueue hresolved₁ hrest).kept id' w hw, hkey⟩

end Tables

/-- The proposals of an enqueue are resolved. -/
theorem resolved_of_eligible {now : ℤ} {requests : List (WakeRequest × Uuid)} {t : Tables}
    {resolved : List (Option EndpointHash)}
    (hresolved : requests.mapM (fun r => t.resolve now r.1) = .ok resolved)
    {p : WakeRequest × EndpointHash × Uuid}
    (hp : p ∈ (requests.zip resolved).filterMap fun (r, hash) =>
      hash.map fun hash => (r.1, hash, r.2)) : t.Resolved now p.1 p.2.1 := by
  obtain ⟨⟨r, hash⟩, hmem, hp⟩ := List.mem_filterMap.mp hp
  obtain ⟨hash, rfl, rfl⟩ := Option.map_eq_some_iff.mp hp
  exact Tables.resolve_eq_ok (List.forall₂_zip (mapM_eq_ok hresolved) hmem)

theorem enqueueTx_enqueue {now : ℤ} {requests : List (WakeRequest × Uuid)} {t t' : Tables}
    {rest : List (Option EndpointHash) × List (WakeKey × Uuid) × List (WakeKey × Uuid)}
    (h : enqueueTx now requests t = .ok (t', rest)) : Tables.Enqueue now t t' := by
  obtain ⟨resolved, hresolved, htx⟩ := bind_eq_ok.mp h
  obtain ⟨⟨t₁, inserted⟩, hinsert, hpure⟩ := bind_eq_ok.mp htx
  obtain ⟨rfl, -⟩ := Prod.mk.inj (Except.ok.inj hpure)
  exact Tables.insertWakes_enqueue (fun p hp => resolved_of_eligible hresolved hp) hinsert

/-- A request that an eligible lease answers in its generation has its wake afterwards. -/
theorem enqueueWakes_has {now : ℤ} {requests : List (WakeRequest × Uuid)} {t : Tables}
    {outcomes : List EnqueueWakeOutcome} (h : (enqueueWakes now requests t).1 = .ok outcomes)
    {r : WakeRequest × Uuid} (hr : r ∈ requests) {hash : EndpointHash}
    (hresolve : t.resolve now r.1 = .ok (some hash)) :
    ∃ id w, (enqueueWakes now requests t).2.outbox.lookup id = some w ∧
      w.key = (hash, r.1.eventId) := by
  have hne : requests ≠ [] := List.ne_nil_of_mem hr
  cases htx : enqueueTx now requests t with
  | error e =>
    simp only [enqueueWakes, if_neg hne, htx] at h
    cases h
  | ok result =>
    obtain ⟨t', rest⟩ := result
    have htables : (enqueueWakes now requests t).2 = t' := by
      simp only [enqueueWakes, if_neg hne, htx]
    obtain ⟨resolved, hresolved, hbody⟩ := bind_eq_ok.mp htx
    obtain ⟨⟨t₁, inserted⟩, hinsert, hpure⟩ := bind_eq_ok.mp hbody
    obtain ⟨rfl, -⟩ := Prod.mk.inj (Except.ok.inj hpure)
    rw [htables]
    have hzip := mapM_zip_mem hresolved hr hresolve
    refine Tables.insertWakes_has (fun p hp => ?_) hinsert (r.1, hash, r.2)
      (List.mem_filterMap.mpr ⟨(r, some hash), hzip, rfl⟩)
    exact resolved_of_eligible hresolved hp

theorem enqueueWakes_enqueue (now : ℤ) (requests : List (WakeRequest × Uuid)) (t : Tables) :
    Tables.Enqueue now t (enqueueWakes now requests t).2 := by
  unfold enqueueWakes
  split_ifs
  · exact .refl now t
  · cases htx : enqueueTx now requests t with
    | error e => exact .refl now t
    | ok result => exact enqueueTx_enqueue htx

/-! ### What claims and settlements do -/

namespace Tables

variable {now : ℤ} {t : Tables} {id claimId : Uuid} {w : Wake}

theorem wakeJoin_eq_some {l : Lease} {e : StoredEvent} :
    t.wakeJoin now w = some (l, e) ↔
      (t.leases.lookup w.address = some l ∧ l.generation = w.leaseGeneration ∧
          l.endpointHash = some w.endpointHash) ∧
        t.liveEvent w.eventId = some e ∧ epochSeconds now < w.expiresAt ∧
        l.eligible now = true := by
  simp only [wakeJoin, currentLease, Option.bind_eq_bind, Option.bind_eq_some_iff,
    Option.filter_eq_some_iff, Bool.and_eq_true, decide_eq_true_eq]
  constructor
  · rintro ⟨l', hlease, e', hevent, hjoin⟩
    split_ifs at hjoin with hlive
    obtain ⟨rfl, rfl⟩ := Prod.mk.inj (Option.some.inj hjoin)
    exact ⟨hlease, hevent, hlive⟩
  · rintro ⟨hlease, hevent, hlive⟩
    exact ⟨l, hlease, e, hevent, if_pos hlive⟩

/-- A claim takes wakes that are due, with their lease and their event. -/
theorem takes_spec {limit : ℕ} (h : t.takes now limit id = true)
    (hw : t.outbox.lookup id = some w) :
    w.due now = true ∧ (t.wakeJoin now w).isSome = true := by
  obtain ⟨e, hmem, heq⟩ := List.any_eq_true.mp h
  have hsorted := List.mem_mergeSort.mp (List.mem_of_mem_take hmem)
  obtain ⟨hentry, hdue⟩ := List.mem_filter.mp hsorted
  obtain rfl := of_decide_eq_true heq
  obtain rfl := Option.some.inj (hw.symm.trans (HashMap.mem_entries_iff.mp hentry))
  exact (Bool.and_eq_true _ _).mp hdue

theorem lookup_claimDueWakes (now : ℤ) (limit : ℕ) (claimId : Uuid) (leaseUntil : ℤ) (t : Tables)
    (id : Uuid) :
    (t.claimDueWakes now limit claimId leaseUntil).2.outbox.lookup id =
      (t.outbox.lookup id).map fun w =>
        if t.takes now limit id then w.claim claimId leaseUntil else w :=
  Table.lookup_updateWhere _ _ _ _

theorem lookup_finishClaim (id claimId : Uuid) (f : Wake → Wake) (t : Tables) (id' : Uuid) :
    (t.finishClaim id claimId f).2.outbox.lookup id' =
      (t.outbox.lookup id').map fun w => if sendingUnder id claimId id' w then f w else w :=
  Table.lookup_updateWhere _ _ _ _

theorem lookup_pruneWakeOutbox {before : ℤ} :
    (t.pruneWakeOutbox now before).2.outbox.lookup id = some w ↔
      t.outbox.lookup id = some w ∧ t.prunable now before w = false := by
  rw [pruneWakeOutbox, HashMap.lookup_retain_eq_some_iff, Bool.not_eq_true']

end Tables

theorem rowToClaimedWake_eq_ok {id : Uuid} {w : Wake} {l : Lease} {e : StoredEvent}
    {wake : ClaimedWake} (h : rowToClaimedWake id w l e = .ok wake) :
    w.claimId = some wake.claimId ∧ l.endpointGrant = some wake.endpointGrant ∧
      wake = ⟨id, wake.claimId, w.eventId, e.channelId, w.author, w.installationId,
        w.leaseGeneration, wake.endpointGrant, w.class', w.expiresAt, w.attempts⟩ := by
  unfold rowToClaimedWake at h
  cases hclaim : w.claimId with
  | none => simp [hclaim] at h
  | some claimId =>
    cases hgrant : l.endpointGrant with
    | none => simp [hclaim, hgrant] at h
    | some grant =>
      rw [hclaim, hgrant] at h
      obtain rfl := Except.ok.inj h
      exact ⟨rfl, rfl, rfl⟩

/-- A claimed wake is under the claim, with the attempt that its worker sees. -/
theorem claimDueWakes_eq_ok {now leaseUntil : ℤ} {limit : ℕ} {claimId : Uuid} {t : Tables}
    {wakes : List ClaimedWake} (h : (t.claimDueWakes now limit claimId leaseUntil).1 = .ok wakes)
    {wake : ClaimedWake} (hmem : wake ∈ wakes) :
    wake.claimId = claimId ∧ ∃ w,
      (t.claimDueWakes now limit claimId leaseUntil).2.outbox.lookup wake.id = some w ∧
      w.attempts = wake.attempt := by
  obtain ⟨⟨e, l, event⟩, hjoined, hrow⟩ := exists_of_mem_mapM h hmem
  obtain ⟨e', he', hjoin⟩ := List.mem_filterMap.mp hjoined
  obtain ⟨⟨l', event'⟩, -, heq⟩ := Option.map_eq_some_iff.mp hjoin
  obtain rfl : e' = e := (Prod.mk.inj heq).1
  obtain ⟨hclaim, -, hwake⟩ := rowToClaimedWake_eq_ok hrow
  have hentry := (List.mem_filter.mp (List.mem_mergeSort.mp (List.mem_of_mem_take he'))).1
  have htakes : t.takes now limit e'.1 = true :=
    List.any_eq_true.mpr ⟨e', he', decide_eq_true rfl⟩
  refine ⟨(Option.some.inj hclaim).symm, e'.2.claim claimId leaseUntil, ?_, by rw [hwake]⟩
  rw [hwake, Tables.lookup_claimDueWakes, HashMap.mem_entries_iff.mp hentry, Option.map_some,
    if_pos htakes]

/-- A wake that may be sent is under its claim, and joins its lease and its event. -/
theorem revalidateWakeForSend_eq_deliver {now : ℤ} {t : Tables} {id claimId : Uuid}
    {wake : ClaimedWake} (h : t.revalidateWakeForSend now id claimId = .ok (.deliver wake)) :
    ∃ w l e, t.outbox.lookup id = some w ∧ w.heldBy now claimId = true ∧
      t.wakeJoin now w = some (l, e) ∧ rowToClaimedWake id w l e = .ok wake := by
  unfold Tables.revalidateWakeForSend at h
  cases hw : t.outbox.lookup id with
  | none => simp [hw] at h
  | some w =>
    cases hheld : w.heldBy now claimId with
    | false => simp [hw, hheld] at h
    | true =>
      cases hjoin : t.wakeJoin now w with
      | none => simp [hw, hheld, hjoin] at h
      | some row =>
        obtain ⟨l, e⟩ := row
        refine ⟨w, l, e, rfl, hheld, hjoin, ?_⟩
        simp only [hw, hheld, hjoin, Bool.true_eq_false, if_false] at h
        cases hrow : rowToClaimedWake id w l e with
        | error err =>
          rw [hrow] at h
          cases h
        | ok wake' =>
          rw [hrow] at h
          cases h
          rfl

end Buzz.Db.Push
