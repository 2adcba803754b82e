import Buzz.Db.Push.Acceptance
import Buzz.Db.Push.Outbox
import Buzz.Library.ReadCommitted

/-!
# The push gate

An inserted event gets a match job only where there is a lease that it may be matched against. The
trigger `enqueue_push_match_job` of migration `0023_push_match_gate.sql` takes the gate lock shared
before it looks. The transactions of `crates/buzz-db/src/push.rs` that activate a lease take it
exclusive before they write, and give jobs to the recent events before they commit. So of an event
and an activation one commits before the other looks.

The transactions are read committed. Those of a lease hold the locks of its address and its author
as well, and rows are locked when they are written: these locks only rule interleavings out, and are
left out here.

## Main definitions

* `PushStatement`, `PushStatement.effect`: the statements.
* `eventStatements`, `acceptStatements`, `replaceStatements`, `PushProgram`: the transactions.

## Main results

* `alone_acceptStatements`, `alone_eventStatements`: an acceptance alone is the transaction
  `acceptTx`, and an event alone is inserted by `insertEvent`.
* `gate_never_skips`: the events that have a job, and the order that the lock makes.
-/

namespace Buzz.Db.Push

open Buzz.Library
open Buzz.Library.ReadCommitted
open Buzz.Core (Uuid)

/-! ### Statements -/

/-- The statements of the transactions, apart from the gate lock. -/
inductive PushStatement
  | insertEvent (key : ℤ × EventId) (e : StoredEvent)
  | enqueuePushMatchJob (id : EventId)
  | checkSourceEvent (address : Address) (version : LeaseVersion)
  | checkOrder (address : Address) (version : LeaseVersion)
  | sweepExpired (author : PublicKey)
  | checkActive (address : Address) (maxActiveLeases : ℤ) (active : Option ActiveLease)
  | retireEvents (address : Address)
  | insertLeaseEvent (event : LeaseEvent) (installationId : List Char) (version : LeaseVersion)
  | upsertLease (address : Address) (l : Lease)
  | replaceLease (address : Address) (version : LeaseVersion) (l : Lease)
  | backfillPushMatchJobs
  | disableEndpointGeneration (address : Address) (generation : ℤ)

/-- An active lease of an author that has expired. -/
def Lease.expired (now : ℤ) (author : PublicKey) (a : Address) (l : Lease) : Bool :=
  decide (a.1 = author) && l.active && decide (l.expiresAt ≤ epochSeconds now)

namespace Tables

/-- The conflict predicate of `replace_lease`: a lease that is there has to lose in both orders. -/
def checkReplaces (address : Address) (version : LeaseVersion) (l : Lease) (t : Tables) :
    Except Exit Unit :=
  if l.check address.2 = false then
    .error (.error (.database "23514".toList (l.violatedCheck address.2)))
  else
    match t.leases.lookup address with
    | some current =>
      if version.winsEvent current && decide (current.generation < version.generation) then .ok ()
      else if version.winsEvent current = false then .error (.rollback .staleEvent)
      else .error (.rollback .staleGeneration)
    | none => .ok ()

end Tables

/-- What a statement writes, from the tables that it sees. A row that another transaction has
committed under the key of an inserted event stays. -/
def PushStatement.effect : PushStatement → ℤ → Tables → Except Exit (Tables → Tables)
  | .insertEvent key e, now, t => do
    -- the row only: the trigger is a statement of its own
    let _ ← orError (t.insertEvent now key e)
    return fun t' => { t' with events := Table.insertNew t'.events key e }
  | .enqueuePushMatchJob id, now, t =>
    .ok fun t' =>
      if Table.existsWhere (fun _ l => l.eligible now) t.leases then
        { t' with matchQueue := Table.insertNew t'.matchQueue id (.new now) }
      else t'
  | .checkSourceEvent address version, _, t => do
    t.checkSourceEvent address version
    return id
  | .checkOrder address version, _, t => do
    t.checkOrder address version
    return id
  | .sweepExpired author, now, t => do
    let _ ← orError (t.sweepExpired now author)
    return fun t' =>
      { t' with
        leases := Table.updateSeen (Lease.expired now author)
          (fun l => { l with active := false, endpointEnabled := false }) t.leases t'.leases }
  | .checkActive address maxActiveLeases active, _, t => do
    t.checkActive address maxActiveLeases active
    return id
  | .retireEvents address, now, t =>
    .ok fun t' =>
      { t' with
        events := Table.updateSeen (fun _ e => e.liveLease address)
          (fun e => { e with deletedAt := some now }) t.events t'.events }
  | .insertLeaseEvent event installationId version, now, t => do
    let createdAt ← orError (fromTimestamp version.sourceCreatedAt)
    let e : StoredEvent := ⟨event.pubkey, 30350, some installationId, none, now, none⟩
    let _ ← orOutcome (t.insertEvent now (createdAt, event.id) e)
    return fun t' => { t' with events := Table.insertNew t'.events (createdAt, event.id) e }
  | .upsertLease address l, _, t => do
    let _ ← orOutcome (t.upsertLease address l)
    return fun t' => { t' with leases := t'.leases.insert address l }
  | .replaceLease address version l, _, t => do
    t.checkReplaces address version l
    let _ ← orError (t.upsertLease address l)
    return fun t' => { t' with leases := t'.leases.insert address l }
  | .backfillPushMatchJobs, now, t =>
    .ok fun t' =>
      { t' with
        matchQueue := (t.events.entries.filter fun e => e.2.backfilled now).foldl
          (fun queue e => Table.insertNew queue e.1.2 (.new now)) t'.matchQueue }
  | .disableEndpointGeneration address generation, _, t =>
    .ok fun t' =>
      { t' with
        leases := Table.updateSeen (Tables.enabledGeneration address generation)
          (fun l => { l with endpointEnabled := false }) t.leases t'.leases }

/-! ### Transactions -/

/-- An inserted event, with its trigger. -/
def eventStatements (key : ℤ × EventId) (e : StoredEvent) : List (Statement PushStatement) :=
  .exec (.insertEvent key e) ::
    if e.kind ∈ pushKinds then [.lock .shared, .exec (.enqueuePushMatchJob key.2)] else []

/-- A lease is activated behind the gate lock, and with a backfill at the end. -/
def leaseStatements (active : Option ActiveLease) (body : List PushStatement) :
    List (Statement PushStatement) :=
  if active.isSome then
    .lock .exclusive :: (body ++ [PushStatement.backfillPushMatchJobs]).map .exec
  else body.map .exec

/-- `accept_lease_event`. -/
def acceptStatements (event : LeaseEvent) (installationId : List Char) (version : LeaseVersion)
    (active : Option ActiveLease) (maxActiveLeases : ℤ) : List (Statement PushStatement) :=
  let address := (event.pubkey, installationId)
  leaseStatements active
    [.checkSourceEvent address version, .checkOrder address version, .sweepExpired event.pubkey,
      .checkActive address maxActiveLeases active, .retireEvents address,
      .insertLeaseEvent event installationId version,
      .upsertLease address (newLease version active)]

/-- `replace_lease`. -/
def replaceStatements (address : Address) (version : LeaseVersion) (active : Option ActiveLease) :
    List (Statement PushStatement) :=
  leaseStatements active [.replaceLease address version (newLease version active)]

/-- The transactions of a community. -/
inductive PushProgram : List (Statement PushStatement) → Prop
  | insertEvent (key : ℤ × EventId) (e : StoredEvent) : PushProgram (eventStatements key e)
  | accept (event : LeaseEvent) (installationId : List Char) (version : LeaseVersion)
      (active : Option ActiveLease) (maxActiveLeases : ℤ) :
      PushProgram (acceptStatements event installationId version active maxActiveLeases)
  | replace (address : Address) (version : LeaseVersion) (active : Option ActiveLease) :
      PushProgram (replaceStatements address version active)
  | disable (address : Address) (generation : ℤ) :
      PushProgram [.exec (.disableEndpointGeneration address generation)]

abbrev PushSystem := System PushStatement Tables

abbrev PushStep : PushSystem → Label PushStatement → PushSystem → Prop :=
  ReadCommitted.Step PushStatement.effect PushProgram

/-- The interleavings of the transactions of a community. -/
abbrev PushRun : PushSystem → PushSystem → Prop :=
  ReadCommitted.Run PushStatement.effect PushProgram

/-! ### An acceptance alone -/

/-- What one statement makes of the tables that it sees. -/
def PushStatement.on (i : PushStatement) (now : ℤ) (t : Tables) : Except Exit Tables :=
  (i.effect now t).map fun change => change t

theorem alone_nil (now : ℤ) : alone PushStatement.effect now [] = pure := rfl

theorem alone_lock (now : ℤ) (mode : Mode) (rest : List (Statement PushStatement)) :
    alone PushStatement.effect now (.lock mode :: rest) = alone PushStatement.effect now rest := rfl

theorem alone_exec (now : ℤ) (i : PushStatement) (rest : List (Statement PushStatement)) :
    alone PushStatement.effect now (.exec i :: rest) = fun t =>
      i.on now t >>= alone PushStatement.effect now rest := by
  funext t
  rw [alone, PushStatement.on]
  cases i.effect now t <;> rfl

/-- A check leaves the tables as they are. -/
theorem on_check (x : Except Exit Unit) (t : Tables) :
    (x >>= fun _ => pure id : Except Exit (Tables → Tables)).map (fun change => change t) =
      x >>= fun _ => pure t := by
  cases x <;> rfl

/-- An event that is inserted on its own. -/
theorem insertEvent_of_notMem {now : ℤ} {key : ℤ × EventId} {e : StoredEvent} {t t' : Tables}
    (hkind : e.kind ∉ pushKinds) (h : t.insertEvent now key e = .ok t') :
    t' = { t with events := Table.insertNew t.events key e } := by
  obtain ⟨hfree, ht⟩ := Tables.insertEvent_eq_ok h
  rw [ht, Tables.enqueuePushMatchJob_of_notMem hkind, Table.insertNew_of_lookup_eq_none hfree]

-- The equations of `effect` are made here once, not in each proof that unfolds it.
attribute [local simp] PushStatement.effect in
theorem on_sweepExpired (now : ℤ) (author : PublicKey) (t : Tables) :
    (PushStatement.sweepExpired author).on now t = orError (t.sweepExpired now author) := by
  simp only [PushStatement.on, PushStatement.effect]
  cases hsweep : t.sweepExpired now author with
  | error e => rfl
  | ok t' =>
    obtain ⟨-, rfl⟩ := Tables.updateLeases_eq_ok hsweep
    exact congrArg Except.ok (congrArg (fun leases => { t with leases := leases })
      (Table.updateSeen_self _ _ _))

theorem on_insertLeaseEvent (now : ℤ) (event : LeaseEvent) (installationId : List Char)
    (version : LeaseVersion) (t : Tables) :
    (PushStatement.insertLeaseEvent event installationId version).on now t = (do
      let createdAt ← orError (fromTimestamp version.sourceCreatedAt)
      orOutcome (t.insertEvent now (createdAt, event.id)
        ⟨event.pubkey, 30350, some installationId, none, now, none⟩)) := by
  simp only [PushStatement.on, PushStatement.effect]
  cases orError (fromTimestamp version.sourceCreatedAt) with
  | error e => rfl
  | ok createdAt =>
    cases hinsert : orOutcome (t.insertEvent now (createdAt, event.id)
        ⟨event.pubkey, 30350, some installationId, none, now, none⟩) with
    | error e => simp [bind, Except.bind, hinsert, Except.map]
    | ok t' =>
      have ht' := insertEvent_of_notMem (by simp [pushKinds]) (orOutcome_eq_ok.mp hinsert)
      simp [bind, Except.bind, hinsert, Except.map, ht']
      rfl

theorem on_upsertLease (now : ℤ) (address : Address) (l : Lease) (t : Tables) :
    (PushStatement.upsertLease address l).on now t = orOutcome (t.upsertLease address l) := by
  simp only [PushStatement.on, PushStatement.effect]
  cases hupsert : orOutcome (t.upsertLease address l) with
  | error e => rfl
  | ok t' =>
    obtain ⟨-, -, -, rfl⟩ := Tables.upsertLease_eq_ok (orOutcome_eq_ok.mp hupsert)
    rfl

theorem on_retireEvents (now : ℤ) (address : Address) (t : Tables) :
    (PushStatement.retireEvents address).on now t = pure (t.retireEvents now address) :=
  congrArg Except.ok (congrArg (fun events => { t with events := events })
    (Table.updateSeen_self _ _ _))

/-- An acceptance alone is its transaction. -/
theorem alone_acceptStatements (now : ℤ) (event : LeaseEvent) (installationId : List Char)
    (version : LeaseVersion) (active : Option ActiveLease) (maxActiveLeases : ℤ) (t : Tables) :
    alone PushStatement.effect now
        (acceptStatements event installationId version active maxActiveLeases) t =
      acceptTx now event installationId version active maxActiveLeases t := by
  have hcheck (address t) : (PushStatement.checkSourceEvent address version).on now t = _ :=
    on_check _ t
  have horder (address t) : (PushStatement.checkOrder address version).on now t = _ :=
    on_check _ t
  have hactive (address t) : (PushStatement.checkActive address maxActiveLeases active).on now t =
    _ := on_check _ t
  have hbackfill (t) : PushStatement.backfillPushMatchJobs.on now t =
    pure (t.backfillPushMatchJobs now) := rfl
  unfold acceptTx acceptStatements leaseStatements
  cases active with
  | none =>
    simp only [Option.isSome_none, Bool.false_eq_true, if_false, List.map_cons, List.map_nil,
      alone_nil, alone_exec, hcheck, horder, hactive, on_sweepExpired, on_retireEvents,
      on_insertLeaseEvent, on_upsertLease, bind_assoc, pure_bind]
  | some active =>
    simp only [Option.isSome_some, if_true, List.map_cons, List.map_nil, List.cons_append,
      List.nil_append, alone_nil, alone_lock, alone_exec, hcheck, horder, hactive, on_sweepExpired,
      on_retireEvents, on_insertLeaseEvent, on_upsertLease, hbackfill, bind_assoc, pure_bind]

theorem on_insertEvent {now : ℤ} {key : ℤ × EventId} {e : StoredEvent} {t t' : Tables}
    (h : t.insertEvent now key e = .ok t') :
    (PushStatement.insertEvent key e).on now t =
      .ok { t with events := Table.insertNew t.events key e } := by
  rw [PushStatement.on, PushStatement.effect, h]
  rfl

/-- An event that is inserted alone is inserted with its trigger. -/
theorem alone_eventStatements {now : ℤ} {key : ℤ × EventId} {e : StoredEvent} {t t' : Tables}
    (h : t.insertEvent now key e = .ok t') :
    alone PushStatement.effect now (eventStatements key e) t = .ok t' := by
  obtain ⟨hfree, ht⟩ := Tables.insertEvent_eq_ok h
  rw [eventStatements, alone_exec]
  dsimp only
  rw [on_insertEvent h, Table.insertNew_of_lookup_eq_none hfree]
  by_cases hkind : e.kind ∈ pushKinds
  · rw [if_pos hkind, alone_lock, alone_exec, alone_nil, ht]
    simp only [Tables.enqueuePushMatchJob, hkind, true_and]
    rfl
  · rw [if_neg hkind, alone_nil, ht, Tables.enqueuePushMatchJob_of_notMem hkind]
    rfl

/-! ### What the statements keep -/

/-- A change that keeps the jobs, and the events that wake installations. -/
structure KeepsOwed (change : Tables → Tables) : Prop where
  queue : ∀ t id, (t.matchQueue.lookup id).isSome = true →
    ((change t).matchQueue.lookup id).isSome = true
  events : ∀ t key e, t.events.lookup key = some e → e.kind ∈ pushKinds →
    (change t).events.lookup key = some e

namespace KeepsOwed

theorem leases (f : HashMap Address Lease → HashMap Address Lease) :
    KeepsOwed fun t => { t with leases := f t.leases } :=
  ⟨fun _ _ h => h, fun _ _ _ h _ => h⟩

theorem insertEvent (key : ℤ × EventId) (e : StoredEvent) :
    KeepsOwed fun t => { t with events := Table.insertNew t.events key e } :=
  ⟨fun _ _ h => h, fun _ _ _ h _ => Table.lookup_insertNew_of_eq_some h _ _⟩

/-- Lease events do not wake anybody. -/
theorem retireEvents (address : Address) (now : ℤ) (seen : HashMap (ℤ × EventId) StoredEvent) :
    KeepsOwed fun t =>
      { t with
        events := Table.updateSeen (fun _ e => e.liveLease address)
          (fun e => { e with deletedAt := some now }) seen t.events } := by
  refine ⟨fun _ _ h => h, fun t key e h hkind => Table.lookup_updateSeen h ?_⟩
  by_contra hlive
  simp only [StoredEvent.liveLease, Bool.not_eq_false, Bool.and_eq_true, decide_eq_true_eq] at hlive
  rw [hlive.1.1.1] at hkind
  exact absurd hkind (by decide)

theorem jobs {ι : Type} (id : ι → EventId) (now : ℤ) (l : List ι) :
    KeepsOwed fun t =>
      { t with
        matchQueue := l.foldl (fun queue i => Table.insertNew queue (id i) (.new now))
          t.matchQueue } := by
  refine ⟨fun t id' h => ?_, fun _ _ _ h _ => h⟩
  obtain ⟨j, hj⟩ := Option.isSome_iff_exists.mp h
  simp [Table.lookup_foldl_insertNew, hj]

end KeepsOwed

theorem effect_keepsOwed {i : PushStatement} {now : ℤ} {t : Tables} {change : Tables → Tables}
    (h : i.effect now t = .ok change) : KeepsOwed change := by
  cases i with
  | insertEvent key e =>
    obtain ⟨-, -, hchange⟩ := bind_eq_ok.mp h
    exact Except.ok.inj hchange ▸ .insertEvent key e
  | enqueuePushMatchJob id =>
    obtain rfl := Except.ok.inj h
    split_ifs
    · exact .jobs (fun id => id) now [id]
    · exact .leases fun leases => leases
  | checkSourceEvent | checkOrder | checkActive =>
    obtain ⟨-, -, hchange⟩ := bind_eq_ok.mp h
    exact Except.ok.inj hchange ▸ .leases id
  | sweepExpired author =>
    obtain ⟨-, -, hchange⟩ := bind_eq_ok.mp h
    exact Except.ok.inj hchange ▸ .leases _
  | retireEvents address => exact Except.ok.inj h ▸ .retireEvents address now t.events
  | insertLeaseEvent event installationId version =>
    obtain ⟨createdAt, -, hrest⟩ := bind_eq_ok.mp h
    obtain ⟨-, -, hchange⟩ := bind_eq_ok.mp hrest
    exact Except.ok.inj hchange ▸ .insertEvent _ _
  | upsertLease address l =>
    obtain ⟨-, -, hchange⟩ := bind_eq_ok.mp h
    exact Except.ok.inj hchange ▸ .leases fun leases => leases.insert address l
  | replaceLease address version l =>
    obtain ⟨-, -, hrest⟩ := bind_eq_ok.mp h
    obtain ⟨-, -, hchange⟩ := bind_eq_ok.mp hrest
    exact Except.ok.inj hchange ▸ .leases fun leases => leases.insert address l
  | backfillPushMatchJobs =>
    obtain rfl := Except.ok.inj h
    exact .jobs (fun e : Σ _ : ℤ × EventId, StoredEvent => e.1.2) now _
  | disableEndpointGeneration address generation => exact Except.ok.inj h ▸ .leases _

theorem stable_queued (id : EventId) :
    Stable PushStatement.effect fun t => (t.matchQueue.lookup id).isSome = true :=
  fun _ _ _ _ h t => (effect_keepsOwed h).queue t id

theorem stable_event {key : ℤ × EventId} {e : StoredEvent} (hkind : e.kind ∈ pushKinds) :
    Stable PushStatement.effect fun t => t.events.lookup key = some e :=
  fun _ _ _ _ h t ht => (effect_keepsOwed h).events t key e ht hkind

/-- A trigger and its event write no leases. -/
theorem preserves_lease {a : Address} {l : Lease} {i : PushStatement}
    (hi : (∃ key e, i = .insertEvent key e) ∨ ∃ id, i = .enqueuePushMatchJob id) :
    Preserves PushStatement.effect (fun t => t.leases.lookup a = some l) i := by
  intro start t change h t' hl
  obtain ⟨key, e, rfl⟩ | ⟨id, rfl⟩ := hi
  · obtain ⟨-, -, hchange⟩ := bind_eq_ok.mp h
    obtain rfl := Except.ok.inj hchange
    exact hl
  · obtain rfl := Except.ok.inj h
    dsimp only
    split_ifs <;> exact hl

/-! ### The programs -/

/-- A transaction that runs a trigger has the lock shared, never has it exclusive, and writes no
leases. -/
theorem trigger_program {done rest : List (Statement PushStatement)} {id : EventId}
    (h : PushProgram (done ++ .exec (.enqueuePushMatchJob id) :: rest)) :
    .lock .shared ∈ done ∧ .lock .exclusive ∉ done ∧ ∀ i, .exec i ∈ done →
      (∃ key e, i = .insertEvent key e) ∨ ∃ id, i = .enqueuePushMatchJob id := by
  generalize hprogram : done ++ .exec (.enqueuePushMatchJob id) :: rest = program at h
  have hmem : .exec (.enqueuePushMatchJob id) ∈ program := by simp [← hprogram]
  cases h with
  | insertEvent key e =>
    unfold eventStatements at hprogram hmem
    split_ifs at hprogram hmem with hkind
    · rcases done with _ | ⟨a, _ | ⟨b, _ | ⟨c, done⟩⟩⟩ <;> simp at hprogram
      obtain ⟨rfl, rfl, -, -⟩ := hprogram
      exact ⟨by simp, by simp, fun i hi => .inl ⟨key, e, by simpa using hi⟩⟩
    · cases hmem with
      | tail _ h => cases h
  | accept event installationId version active maxActiveLeases =>
    simp [acceptStatements, leaseStatements] at hmem
    split_ifs at hmem <;> simp at hmem
  | replace address version active =>
    simp [replaceStatements, leaseStatements] at hmem
    split_ifs at hmem <;> simp at hmem
  | disable address generation => simp at hmem

/-- The trigger of an event comes after it. -/
theorem event_program {done rest : List (Statement PushStatement)} {key : ℤ × EventId}
    {e : StoredEvent} (h : PushProgram (done ++ .exec (.insertEvent key e) :: rest))
    (hkind : e.kind ∈ pushKinds) : .exec (.enqueuePushMatchJob key.2) ∈ rest := by
  generalize hprogram : done ++ .exec (.insertEvent key e) :: rest = program at h
  have hmem : .exec (.insertEvent key e) ∈ program := by simp [← hprogram]
  cases h with
  | insertEvent key' e' =>
    unfold eventStatements at hprogram hmem
    have hsame : key = key' ∧ e = e' := by split_ifs at hmem <;> simpa using hmem
    obtain ⟨rfl, rfl⟩ := hsame
    rw [if_pos hkind] at hprogram
    rcases done with _ | ⟨a, _ | ⟨b, _ | ⟨c, done⟩⟩⟩ <;> simp at hprogram
    simp [hprogram]
  | accept event installationId version active maxActiveLeases =>
    simp [acceptStatements, leaseStatements] at hmem
    split_ifs at hmem <;> simp at hmem
  | replace address version active =>
    simp [replaceStatements, leaseStatements] at hmem
    split_ifs at hmem <;> simp at hmem
  | disable address generation => simp at hmem

theorem leaseStatements_exclusive {active : Option ActiveLease} {body : List PushStatement}
    {done rest : List (Statement PushStatement)}
    (h : done ++ .lock .exclusive :: rest = leaseStatements active body) :
    done = [] ∧ .exec .backfillPushMatchJobs ∈ rest := by
  have hmem : .lock .exclusive ∈ leaseStatements active body := by simp [← h]
  unfold leaseStatements at h hmem
  split_ifs at h hmem with hactive
  · cases done with
    | nil =>
      obtain ⟨-, rfl⟩ := List.cons.inj h
      exact ⟨rfl, List.mem_map_of_mem (by simp)⟩
    | cons st done =>
      obtain ⟨-, htail⟩ := List.cons.inj h
      have hlock : .lock .exclusive ∈ (body ++ [PushStatement.backfillPushMatchJobs]).map
          Statement.exec := htail ▸ (by simp)
      simp at hlock
  · simp at hmem

/-- A transaction that takes the lock exclusive has run nothing before, and does a backfill. -/
theorem activation_program {done rest : List (Statement PushStatement)}
    (h : PushProgram (done ++ .lock .exclusive :: rest)) :
    done = [] ∧ .exec .backfillPushMatchJobs ∈ rest := by
  generalize hprogram : done ++ .lock .exclusive :: rest = program at h
  have hmem : .lock .exclusive ∈ program := by simp [← hprogram]
  cases h with
  | insertEvent key e =>
    unfold eventStatements at hmem
    split_ifs at hmem <;> simp at hmem
  | accept event installationId version active maxActiveLeases =>
    exact leaseStatements_exclusive hprogram
  | replace address version active => exact leaseStatements_exclusive hprogram
  | disable address generation => simp at hmem

/-! ### The gate -/

section

variable {tables : Tables} {now : ℤ} {s₀ s₁ s : PushSystem} {n : ℕ}

/-- A transaction that commits an event has run its trigger. -/
theorem event_triggered (hinitial : PushRun (.initial tables now) s₀) {key : ℤ × EventId}
    {e : StoredEvent} (hkind : e.kind ∈ pushKinds)
    (hinsert : PushStep s₀ (.exec n (.insertEvent key e)) s₁)
    (hrun : PushRun s₁ s) (hcommitted : s.txs n = .committed) :
    ∃ s₂ s₃, PushRun s₁ s₂ ∧ PushStep s₂ (.exec n (.enqueuePushMatchJob key.2)) s₃ ∧
      PushRun s₃ s := by
  cases hinsert with
  | exec n i start rest held write change htx =>
    obtain ⟨-, done, hprogram, -, -⟩ := hinitial.running htx
    obtain ⟨s₂, s₃, -, -, -, -, hrun₂, -, -, htrigger, -, hrun₃⟩ :=
      hrun.executes (System.set_txs_self _ _ _) (event_program hprogram hkind) hcommitted
    exact ⟨s₂, s₃, hrun₂, htrigger, hrun₃⟩

/-- A trigger that sees a lease gives its event a job. -/
theorem trigger_enqueues (hinitial : PushRun (.initial tables now) s₀) {id : EventId}
    (htrigger : PushStep s₀ (.exec n (.enqueuePushMatchJob id)) s₁)
    {a : Address} {l : Lease} (hl : s₀.state.leases.lookup a = some l)
    (heligible : l.eligible s₀.now = true) (hrun : PushRun s₁ s)
    (hcommitted : s.txs n = .committed) :
    (s.state.matchQueue.lookup id).isSome = true := by
  have hinitial₁ : PushRun (.initial tables now) s₁ := hinitial.tail ⟨_, htrigger⟩
  cases htrigger with
  | exec n i start rest held write change htx heffect =>
    obtain ⟨hstart, done, hprogram, -, hwrite⟩ := hinitial.running htx
    obtain ⟨-, -, hdone⟩ := trigger_program hprogram
    have hview := hwrite _ (fun i hi => preserves_lease (hdone i hi)) _ hl
    obtain rfl := Except.ok.inj heffect
    have hexists : Table.existsWhere (fun _ l => l.eligible start) (write s₀.state).leases = true :=
      Table.existsWhere_iff.mpr ⟨a, l, hview, Lease.eligible_anti hstart heligible⟩
    refine Run.commits (stable_queued id) hinitial₁ hrun ?_ hcommitted
    rw [System.set_txs_self]
    intro t
    simp [hexists, Table.lookup_insertNew]

/-- An activation gives a job to the recent events that are committed when it takes the lock. -/
theorem activation_backfills (hinitial : PushRun (.initial tables now) s₀) {start : ℤ}
    {rest : List (Statement PushStatement)} {held : List Mode} {write : Tables → Tables}
    (htx : s₀.txs n = .running start (.lock .exclusive :: rest) held write)
    (hlock : PushStep s₀ (.lock n .exclusive) s₁)
    {key : ℤ × EventId} {e : StoredEvent} (he : s₀.state.events.lookup key = some e)
    (hbackfilled : e.backfilled start = true) (hrun : PushRun s₁ s)
    (hcommitted : s.txs n = .committed) :
    (s.state.matchQueue.lookup key.2).isSome = true := by
  have hinitial₁ : PushRun (.initial tables now) s₁ := hinitial.tail ⟨_, hlock⟩
  have hkind : e.kind ∈ pushKinds := by
    simp only [StoredEvent.backfilled, Bool.and_eq_true, decide_eq_true_eq] at hbackfilled
    exact hbackfilled.1.1
  obtain ⟨-, done, hprogram, -, -⟩ := hinitial.running htx
  have htx₁ : s₁.txs n = .running start rest (.exclusive :: held) write := by
    cases hlock with
    | lock _ _ start' rest' held' write' htx' =>
      rw [htx] at htx'
      obtain ⟨rfl, hrest, rfl, rfl⟩ := Tx.running.inj htx'
      rw [System.set_txs_self, (List.cons.inj hrest).2]
  obtain ⟨s₂, s₃, rest₂, held₂, write₂, change, hrun₂, htx₂, heffect, hstep₃, htx₃, hrun₃⟩ :=
    hrun.executes htx₁ (activation_program hprogram).2 hcommitted
  -- the backfill sees the event
  have hinitial₂ : PushRun (.initial tables now) s₂ := hinitial₁.trans hrun₂
  have hcommitted₂ : s₂.state.events.lookup key = some e :=
    Run.stable (stable_event hkind) hinitial ((Relation.ReflTransGen.single ⟨_, hlock⟩).trans hrun₂)
      he
  obtain ⟨-, done₂, -, -, hwrite⟩ := hinitial₂.running htx₂
  have hview := hwrite _ (fun i _ => stable_event hkind i) _ hcommitted₂
  obtain rfl := Except.ok.inj heffect
  refine Run.commits (stable_queued key.2) (hinitial₂.tail ⟨_, hstep₃⟩) hrun₃ ?_ hcommitted
  rw [htx₃]
  intro t
  have hmem : key.2 ∈ ((write₂ s₂.state).events.entries.filter
      fun e => e.2.backfilled start).map fun e => e.1.2 :=
    List.mem_map.mpr ⟨⟨key, e⟩, List.mem_filter.mpr
      ⟨HashMap.mem_entries_iff.mpr hview, hbackfilled⟩, rfl⟩
  simp only [Function.comp_apply, Table.lookup_foldl_insertNew]
  rw [if_pos hmem]
  cases ((write₂ t).matchQueue.lookup key.2) <;> rfl

/-- A trigger is run under the shared lock, by a transaction that does not have it exclusive. -/
theorem held_of_trigger (hinitial : PushRun (.initial tables now) s₀) {id : EventId}
    (htrigger : PushStep s₀ (.exec n (.enqueuePushMatchJob id)) s₁) :
    .shared ∈ (s₀.txs n).held ∧ .exclusive ∉ (s₀.txs n).held ∧ (s₀.txs n).ended = false ∧
      (s₁.txs n).held = (s₀.txs n).held := by
  cases htrigger with
  | exec n i start rest held write change htx =>
    obtain ⟨-, done, hprogram, hheld, -⟩ := hinitial.running htx
    obtain ⟨hshared, hexclusive, -⟩ := trigger_program hprogram
    rw [htx, System.set_txs_self]
    exact ⟨(hheld _).mpr hshared, fun h => hexclusive ((hheld _).mp h), rfl, rfl⟩

/-- The lock is taken exclusive by a transaction that has no lock. -/
theorem held_of_activation (hinitial : PushRun (.initial tables now) s₀)
    (hlock : PushStep s₀ (.lock n .exclusive) s₁) :
    (s₀.txs n).held = [] ∧ (s₀.txs n).ended = false ∧ .exclusive ∈ (s₁.txs n).held := by
  cases hlock with
  | lock n mode start rest held write htx =>
    obtain ⟨-, done, hprogram, hheld, -⟩ := hinitial.running htx
    obtain ⟨rfl, -⟩ := activation_program hprogram
    rw [htx, System.set_txs_self]
    refine ⟨List.eq_nil_iff_forall_not_mem.mpr fun mode h => ?_, rfl, List.mem_cons_self⟩
    cases (hheld mode).mp h

/-- An activation has ended before a trigger that is run after it has taken the lock. -/
theorem activation_before_trigger {m : ℕ} {s₂ s₃ : PushSystem}
    (hinitial : PushRun (.initial tables now) s₀)
    (hlock : PushStep s₀ (.lock n .exclusive) s₁) (hrun : PushRun s₁ s₂) {id : EventId}
    (htrigger : PushStep s₂ (.exec m (.enqueuePushMatchJob id)) s₃) :
    (s₂.txs n).ended = true := by
  have hinitial₁ : PushRun (.initial tables now) s₁ := hinitial.tail ⟨_, hlock⟩
  obtain ⟨-, -, hexclusive⟩ := held_of_activation hinitial hlock
  obtain ⟨hshared, hnot, hrunning, -⟩ := held_of_trigger (hinitial₁.trans hrun) htrigger
  refine hrun.exclusive_orders (hinitial₁.exclusive (exclusive_initial _ _)) ?_ hexclusive hshared
  rintro rfl
  rcases hrun.held hexclusive with hheld | hended
  · exact hnot hheld
  · rw [hrunning] at hended
    cases hended

/-- A transaction has ended that has run its trigger before an activation takes the lock. -/
theorem trigger_before_activation {m : ℕ} {s₂ s₃ : PushSystem}
    (hinitial : PushRun (.initial tables now) s₀) {id : EventId}
    (htrigger : PushStep s₀ (.exec m (.enqueuePushMatchJob id)) s₁)
    (hrun : PushRun s₁ s₂) (hlock : PushStep s₂ (.lock n .exclusive) s₃) :
    (s₂.txs m).ended = true := by
  have hinitial₁ : PushRun (.initial tables now) s₁ := hinitial.tail ⟨_, htrigger⟩
  obtain ⟨hshared, -, -, hheld⟩ := held_of_trigger hinitial htrigger
  rw [← hheld] at hshared
  obtain ⟨hnone, hrunning, hexclusive⟩ := held_of_activation (hinitial₁.trans hrun) hlock
  have hne : m ≠ n := by
    rintro rfl
    rcases hrun.held hshared with hheld | hended
    · rw [hnone] at hheld
      cases hheld
    · rw [hrunning] at hended
      cases hended
  have hended := Run.orders_exclusive (hrun.tail ⟨_, hlock⟩)
    (hinitial₁.exclusive (exclusive_initial _ _)) hne hshared hexclusive
  cases hlock with
  | lock _ _ _ _ _ _ htx => rwa [System.set_txs_of_ne _ _ hne] at hended

end

/-- What holds in every run from some tables: a committed event has had its trigger run, which gives
it a job if there is an eligible lease then; an activation gives a job to the events that it finds;
and of a trigger and an activation, the transaction of one has ended before the other looks. -/
structure NeverSkips (tables : Tables) (now : ℤ) : Prop where
  inserted : ∀ s₀ s₁ s n key e, PushRun (.initial tables now) s₀ → e.kind ∈ pushKinds →
    PushStep s₀ (.exec n (.insertEvent key e)) s₁ → PushRun s₁ s → s.txs n = .committed →
    ∃ s₂ s₃, PushRun s₁ s₂ ∧ PushStep s₂ (.exec n (.enqueuePushMatchJob key.2)) s₃ ∧ PushRun s₃ s
  triggered : ∀ s₀ s₁ s n id a l, PushRun (.initial tables now) s₀ →
    PushStep s₀ (.exec n (.enqueuePushMatchJob id)) s₁ → PushRun s₁ s → s.txs n = .committed →
    s₀.state.leases.lookup a = some l → l.eligible s₀.now = true →
    (s.state.matchQueue.lookup id).isSome = true
  backfilled : ∀ s₀ s₁ s n start rest held write key e, PushRun (.initial tables now) s₀ →
    s₀.txs n = .running start (.lock .exclusive :: rest) held write →
    PushStep s₀ (.lock n .exclusive) s₁ → PushRun s₁ s → s.txs n = .committed →
    s₀.state.events.lookup key = some e → e.backfilled start = true →
    (s.state.matchQueue.lookup key.2).isSome = true
  activationFirst : ∀ s₀ s₁ s₂ s₃ s m n id, PushRun (.initial tables now) s₀ →
    PushStep s₀ (.lock n .exclusive) s₁ → PushRun s₁ s₂ →
    PushStep s₂ (.exec m (.enqueuePushMatchJob id)) s₃ → PushRun s₃ s → s.txs n = .committed →
    s₂.txs n = .committed
  eventFirst : ∀ s₀ s₁ s₂ s₃ s m n id, PushRun (.initial tables now) s₀ →
    PushStep s₀ (.exec m (.enqueuePushMatchJob id)) s₁ → PushRun s₁ s₂ →
    PushStep s₂ (.lock n .exclusive) s₃ → PushRun s₃ s → s.txs m = .committed →
    s₂.txs m = .committed

/-- No event that is owed a job is skipped, whatever the order of the statements. -/
theorem gate_never_skips (tables : Tables) (now : ℤ) : NeverSkips tables now where
  inserted _ _ _ _ _ _ hinitial hkind hinsert hrun hcommitted :=
    event_triggered hinitial hkind hinsert hrun hcommitted
  triggered _ _ _ _ _ _ _ hinitial htrigger hrun hcommitted hl heligible :=
    trigger_enqueues hinitial htrigger hl heligible hrun hcommitted
  backfilled _ _ _ _ _ _ _ _ _ _ hinitial htx hlock hrun hcommitted he hbackfilled :=
    activation_backfills hinitial htx hlock he hbackfilled hrun hcommitted
  activationFirst s₀ s₁ s₂ s₃ s m n id hinitial hlock hrun htrigger hrest hcommitted := by
    have hended := activation_before_trigger hinitial hlock hrun htrigger
    have hrest₂ : PushRun s₂ s := .head ⟨_, htrigger⟩ hrest
    exact (hrest₂.ended hended).symm.trans hcommitted
  eventFirst s₀ s₁ s₂ s₃ s m n id hinitial htrigger hrun hlock hrest hcommitted := by
    have hended := trigger_before_activation hinitial htrigger hrun hlock
    have hrest₂ : PushRun s₂ s := .head ⟨_, hlock⟩ hrest
    exact (hrest₂.ended hended).symm.trans hcommitted

/-! ### An event after an activation -/

/-- While no other transaction has the lock, an event comes to its trigger and is committed. -/
theorem run_trigger {s : PushSystem} {n : ℕ} {key : ℤ × EventId} {e : StoredEvent} {t' : Tables}
    (htx : s.txs n = .unborn) (hfree : ∀ m, m ≠ n → (s.txs m).held = [])
    (hkind : e.kind ∈ pushKinds) (hinsert : s.state.insertEvent s.now key e = .ok t') :
    ∃ s₀ s₁ s₂, PushRun s s₀ ∧ s₀.state = s.state ∧ s₀.now = s.now ∧
      PushStep s₀ (.exec n (.enqueuePushMatchJob key.2)) s₁ ∧
      PushRun s₁ s₂ ∧ s₂.txs n = .committed := by
  have hprogram := PushProgram.insertEvent key e
  rw [eventStatements, if_pos hkind] at hprogram
  obtain ⟨change, heffect⟩ : ∃ change,
      PushStatement.effect (.insertEvent key e) s.now s.state = .ok change := by
    rw [PushStatement.effect, hinsert]
    exact ⟨_, rfl⟩
  let begun := s.set n (.running s.now [.exec (.insertEvent key e), .lock .shared,
    .exec (.enqueuePushMatchJob key.2)] [] id)
  let inserted := begun.set n
    (.running s.now [.lock .shared, .exec (.enqueuePushMatchJob key.2)] [] (change ∘ id))
  let locked := inserted.set n
    (.running s.now [.exec (.enqueuePushMatchJob key.2)] [.shared] (change ∘ id))
  have hbegin : PushStep s _ begun := .begin n _ htx hprogram
  have hinserted : PushStep begun _ inserted :=
    .exec n _ s.now _ [] id change (s.set_txs_self n _) heffect
  have hlock : PushStep inserted (.lock n .shared) locked := by
    refine .lock n .shared s.now _ [] _ (begun.set_txs_self n _) fun m hm => ?_
    rw [System.held_set _ _ hm, System.held_set _ _ hm, hfree m hm]
    exact List.not_mem_nil
  have htrigger : PushStep locked _ _ :=
    .exec n _ s.now [] [.shared] _ _ (inserted.set_txs_self n _) rfl
  have hrun : PushRun s locked :=
    ((Relation.ReflTransGen.single ⟨_, hbegin⟩).tail ⟨_, hinserted⟩).tail ⟨_, hlock⟩
  exact ⟨locked, _, _, hrun, rfl, rfl, htrigger,
    .single ⟨_, .commit n s.now [.shared] _ (locked.set_txs_self n _)⟩, System.set_txs_self _ n _⟩

/-- A lease on its own, and the tables with it. -/
def leasedTables : Tables :=
  (acceptTx 0 ⟨5, 1, 10⟩ "phone".toList ⟨5, 10, 1, 10000⟩
    (some ⟨"ios".toList, 1, "grant".toList, "default".toList, .null⟩) 1 .empty).toOption.getD .empty

def leasedSystem : PushSystem :=
  { (.initial .empty 0 : PushSystem) with state := leasedTables }.set 0 .committed

theorem run_leasedSystem : PushRun (.initial .empty 0) leasedSystem := by
  refine run_alone rfl (.accept ⟨5, 1, 10⟩ "phone".toList ⟨5, 10, 1, 10000⟩
    (some ⟨"ios".toList, 1, "grant".toList, "default".toList, .null⟩) 1) (fun _ _ => rfl) ?_
  rw [alone_acceptStatements]
  exact eq_ok_of_toOption (by decide +kernel) _

/-- An event after the lease has its job. -/
theorem gate_never_skips_leased :
    ∃ s, PushRun (.initial .empty 0) s ∧ s.txs 1 = .committed ∧
      (s.state.matchQueue.lookup 9).isSome = true := by
  have hinsert : leasedSystem.state.insertEvent 0 (20, 9) ⟨2, 9, none, none, 0, none⟩ = .ok _ :=
    eq_ok_of_toOption (by decide +kernel) .empty
  have hfree : ∀ m, m ≠ 1 → (leasedSystem.txs m).held = [] := by
    intro m _
    by_cases hm : m = 0
    · rw [hm]
      rfl
    · exact System.held_set _ _ hm
  obtain ⟨s₀, s₁, s, hbefore, hstate, hnow, htrigger, hafter, hcommitted⟩ :=
    run_trigger rfl hfree (by decide) hinsert
  have hlease : (leasedTables.leases.lookup (1, "phone".toList)).any
    fun l => l.eligible 0 := by decide +kernel
  obtain ⟨l, hl, heligible⟩ := (Option.any_eq_true _ _).mp hlease
  refine ⟨s, (run_leasedSystem.trans hbefore).trans (.head ⟨_, htrigger⟩ hafter), hcommitted, ?_⟩
  exact (gate_never_skips .empty 0).triggered s₀ s₁ s 1 9 (1, "phone".toList) l
    (run_leasedSystem.trans hbefore) htrigger hafter hcommitted (by rw [hstate]; exact hl)
    (by rw [hnow]; exact heligible)

end Buzz.Db.Push
