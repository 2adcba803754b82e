import Buzz.Db.Push.Acceptance
import Buzz.Db.Push.Outbox

/-!
# The fencing of the outbox

Any number of workers enqueue, claim, check and settle wakes while leases are replaced, revoked and
disabled. A run is a sequence of calls; the events and the match queue may change in any way between
them. Beside the tables a run keeps what has happened to each wake: the claims it has had, and the
lease it was enqueued for.

## Main definitions

* `Call`, `Call.run`, `Call.settles`, `Call.claimOn`.
* `Outbox`, `Outbox.apply`, `runCalls`: the tables with their history, and runs.
* `Lease.Evolves`: what a later lease of an address is to an earlier one.
* `Wake.Next`: what a call can make of a wake.

## Main results

* `Call.next`, `Call.leases_evolve`: one call, on a wake and on a lease.
* `Fenced.apply`: the invariant.
* `outbox_fenced`: what holds in every run.
-/

namespace Buzz.Db.Push

open Buzz.Library
open Buzz.Core (Uuid)

/-! ### Runs -/

/-- A call on the tables of a community, or a change of the other tables. -/
inductive Call
  | acceptLeaseEvent (op : Acceptance)
  | disableEndpointGeneration (address : Address) (generation : ℤ)
  | enqueueWakes (now : ℤ) (requests : List (WakeRequest × Uuid))
  | claimDueWakes (now : ℤ) (limit : ℕ) (claimId : Uuid) (leaseUntil : ℤ)
  | revalidateWakeForSend (now : ℤ) (id claimId : Uuid)
  | completeWake (id claimId : Uuid)
  | retryWake (id claimId : Uuid) (nextAttemptAt : ℤ)
  | failWake (id claimId : Uuid)
  | pruneWakeOutbox (now before : ℤ)
  | others (events : HashMap (ℤ × EventId) StoredEvent) (matchQueue : HashMap EventId MatchJob)

namespace Call

/-- The tables after a call. -/
def run (maxActiveLeases : ℤ) (t : Tables) : Call → Tables
  | acceptLeaseEvent op => (op.apply maxActiveLeases t).2
  | disableEndpointGeneration address generation =>
    (t.disableEndpointGeneration address generation).2
  | enqueueWakes now requests => (Push.enqueueWakes now requests t).2
  | claimDueWakes now limit claimId leaseUntil => (t.claimDueWakes now limit claimId leaseUntil).2
  | revalidateWakeForSend .. => t
  | completeWake id claimId => (t.completeWake id claimId).2
  | retryWake id claimId nextAttemptAt => (t.retryWake id claimId nextAttemptAt).2
  | failWake id claimId => (t.failWake id claimId).2
  | pruneWakeOutbox now before => (t.pruneWakeOutbox now before).2
  | others events matchQueue => { t with events := events, matchQueue := matchQueue }

/-- The wake that a call settles, the claim it does so under, and the state it leaves it in. -/
def settles : Call → Option (Uuid × Uuid × WakeState)
  | completeWake id claimId => some (id, claimId, .delivered)
  | retryWake id claimId _ => some (id, claimId, .pending)
  | failWake id claimId => some (id, claimId, .failed)
  | _ => none

/-- The claim that a call puts on the wake under an id. -/
def claimOn (t : Tables) (id : Uuid) : Call → Option Uuid
  | claimDueWakes now limit claimId _ => if t.takes now limit id then some claimId else none
  | _ => none

/-- The call deletes old wakes. -/
def prunes : Call → Bool
  | pruneWakeOutbox .. => true
  | _ => false

end Call

/-- The tables, with the claims that each wake has had, the latest first, and the lease it was
enqueued for. -/
structure Outbox where
  tables : Tables
  claims : Uuid → List Uuid
  captured : Uuid → Option Lease

def Outbox.empty : Outbox := ⟨Tables.empty, fun _ => [], fun _ => none⟩

def Outbox.apply (maxActiveLeases : ℤ) (s : Outbox) (call : Call) : Outbox where
  tables := call.run maxActiveLeases s.tables
  claims id :=
    match s.tables.outbox.lookup id with
    | none => []
    | some _ => (call.claimOn s.tables id).toList ++ s.claims id
  captured id :=
    match s.tables.outbox.lookup id, (call.run maxActiveLeases s.tables).outbox.lookup id with
    | none, some w => s.tables.leases.lookup w.address
    | _, _ => s.captured id

/-- The state after a sequence of calls. -/
def runCalls (maxActiveLeases : ℤ) (calls : List Call) : Outbox :=
  calls.foldl (Outbox.apply maxActiveLeases) .empty

/-! ### One call -/

/-- A later lease of an address: the same, the same with its endpoint disabled, or one of a higher
generation. -/
def Lease.Evolves (l l' : Lease) : Prop :=
  l' = l ∨ l' = { l with endpointEnabled := false } ∨ l.generation < l'.generation

theorem Lease.Evolves.trans {l l' l'' : Lease} (h : l.Evolves l') (h' : l'.Evolves l'') :
    l.Evolves l'' := by
  obtain rfl | rfl | hlt := h
  · exact h'
  · obtain rfl | rfl | hlt' := h'
    · exact .inr (.inl rfl)
    · exact .inr (.inl rfl)
    · exact .inr (.inr hlt')
  · obtain rfl | rfl | hlt' := h'
    · exact .inr (.inr hlt)
    · exact .inr (.inr hlt)
    · exact .inr (.inr (hlt.trans hlt'))

theorem Lease.Evolves.generation_le {l l' : Lease} (h : l.Evolves l') :
    l.generation ≤ l'.generation := by
  obtain rfl | rfl | hlt := h
  · exact le_rfl
  · exact le_rfl
  · exact hlt.le

/-- An enabled lease that has not been replaced is the one it was. -/
theorem Lease.Evolves.eq {l l' : Lease} (h : l.Evolves l') (henabled : l'.endpointEnabled = true)
    (hgeneration : l'.generation ≤ l.generation) : l = l' := by
  obtain rfl | rfl | hlt := h
  · rfl
  · cases henabled
  · exact absurd hlt (not_lt.mpr hgeneration)

/-- What a call can make of a wake: leave it, claim it when it is due, settle it under its claim, or
delete it. -/
inductive Wake.Next (t : Tables) (call : Call) (id : Uuid) (w : Wake) : Option Wake → Prop
  | kept (hclaim : call.claimOn t id = none) : Next t call id w (some w)
  | claimed (now : ℤ) (limit : ℕ) (claimId : Uuid) (leaseUntil : ℤ)
      (hcall : call = .claimDueWakes now limit claimId leaseUntil)
      (hclaim : call.claimOn t id = some claimId) (hdue : w.due now = true) :
      Next t call id w (some (w.claim claimId leaseUntil))
  | settled (claimId : Uuid) (state : WakeState) (nextAttemptAt : ℤ)
      (hclaim : call.claimOn t id = none) (hsettles : call.settles = some (id, claimId, state))
      (hheld : w.claimId = some claimId) (hsending : w.state = .sending) :
      Next t call id w (some { w with
        state := state
        nextAttemptAt := nextAttemptAt
        claimId := none
        leaseUntil := none })
  | pruned (hclaim : call.claimOn t id = none) (hprunes : call.prunes = true) :
      Next t call id w none

/-- A call changes nothing of what a wake was enqueued with. -/
theorem Wake.Next.fixed {t : Tables} {call : Call} {id : Uuid} {w w' : Wake}
    (h : Wake.Next t call id w (some w')) :
    w'.key = w.key ∧ w'.address = w.address ∧ w'.leaseGeneration = w.leaseGeneration := by
  cases h <;> exact ⟨rfl, rfl, rfl⟩

section

variable {maxActiveLeases : ℤ} {t : Tables}

theorem outbox_accept (hchecked : t.Checked) (op : Acceptance) :
    (op.apply maxActiveLeases t).2.outbox = t.outbox := by
  obtain ⟨-, htx⟩ | ⟨-, hsame⟩ := acceptLeaseEvent_cases op.now op.event op.installationId
    op.version op.active maxActiveLeases t
  · exact (acceptTx_eq_ok hchecked htx).outbox
  · rw [Acceptance.apply, hsame]

/-- The wake under an id after a settlement. -/
theorem next_finishClaim {call : Call} {id claimId : Uuid} {state : WakeState} {f : Wake → Wake}
    (hclaim : ∀ id', call.claimOn t id' = none)
    (hsettles : call.settles = some (id, claimId, state))
    (hf : ∀ w, ∃ nextAttemptAt, f w = { w with
      state := state
      nextAttemptAt := nextAttemptAt
      claimId := none
      leaseUntil := none }) {id' : Uuid} {w : Wake} (hw : t.outbox.lookup id' = some w) :
    Wake.Next t call id' w ((t.finishClaim id claimId f).2.outbox.lookup id') := by
  rw [Tables.lookup_finishClaim, hw, Option.map_some]
  split_ifs with hsending
  · simp only [Tables.sendingUnder, Bool.and_eq_true, decide_eq_true_eq] at hsending
    obtain ⟨⟨rfl, hheld⟩, hstate⟩ := hsending
    obtain ⟨nextAttemptAt, hfw⟩ := hf w
    rw [hfw]
    exact .settled claimId state nextAttemptAt (hclaim id') hsettles hheld hstate
  · exact .kept (hclaim id')

/-- What a call makes of the wake under an id. -/
theorem Call.next (hchecked : t.Checked) (call : Call) {id : Uuid} {w : Wake}
    (hw : t.outbox.lookup id = some w) :
    Wake.Next t call id w ((call.run maxActiveLeases t).outbox.lookup id) := by
  cases call with
  | acceptLeaseEvent op =>
    rw [Call.run, outbox_accept hchecked, hw]
    exact .kept rfl
  | disableEndpointGeneration address generation =>
    change Wake.Next t _ id w (t.outbox.lookup id)
    rw [hw]
    exact .kept rfl
  | enqueueWakes now requests =>
    rw [Call.run, (enqueueWakes_enqueue now requests t).kept id w hw]
    exact .kept rfl
  | claimDueWakes now limit claimId leaseUntil =>
    rw [Call.run, Tables.lookup_claimDueWakes, hw, Option.map_some]
    split_ifs with htakes
    · exact .claimed now limit claimId leaseUntil rfl (if_pos htakes)
        (Tables.takes_spec htakes hw).1
    · exact .kept (if_neg htakes)
  | revalidateWakeForSend now id' claimId =>
    rw [Call.run, hw]
    exact .kept rfl
  | completeWake id' claimId =>
    exact next_finishClaim (fun _ => rfl) rfl (fun w => ⟨_, rfl⟩) hw
  | retryWake id' claimId nextAttemptAt =>
    exact next_finishClaim (fun _ => rfl) rfl (fun w => ⟨_, rfl⟩) hw
  | failWake id' claimId =>
    exact next_finishClaim (fun _ => rfl) rfl (fun w => ⟨_, rfl⟩) hw
  | pruneWakeOutbox now before =>
    rw [Call.run]
    cases hafter : (t.pruneWakeOutbox now before).2.outbox.lookup id with
    | none => exact .pruned rfl rfl
    | some w' =>
      obtain ⟨hw', -⟩ := Tables.lookup_pruneWakeOutbox.mp hafter
      obtain rfl := Option.some.inj (hw.symm.trans hw')
      exact .kept rfl
  | others events matchQueue =>
    change Wake.Next t _ id w (t.outbox.lookup id)
    rw [hw]
    exact .kept rfl

/-- Only an enqueue adds wakes, for resolved requests. -/
theorem Call.new (hchecked : t.Checked) (call : Call) {id : Uuid} {w : Wake}
    (hnone : t.outbox.lookup id = none)
    (hw : (call.run maxActiveLeases t).outbox.lookup id = some w) :
    ∃ now requests r hash, call = .enqueueWakes now requests ∧ t.Resolved now r hash ∧
      w = Wake.new now r hash := by
  cases call with
  | acceptLeaseEvent op =>
    rw [Call.run, outbox_accept hchecked, hnone] at hw
    cases hw
  | enqueueWakes now requests =>
    obtain hold | ⟨-, r, hash, hresolved, rfl⟩ := (enqueueWakes_enqueue now requests t).new id w hw
    · rw [hnone] at hold
      cases hold
    · exact ⟨now, requests, r, hash, rfl, hresolved, rfl⟩
  | claimDueWakes now limit claimId leaseUntil =>
    rw [Call.run, Tables.lookup_claimDueWakes, hnone] at hw
    cases hw
  | completeWake id' claimId =>
    rw [Call.run, Tables.completeWake, Tables.lookup_finishClaim, hnone] at hw
    cases hw
  | retryWake id' claimId nextAttemptAt =>
    rw [Call.run, Tables.retryWake, Tables.lookup_finishClaim, hnone] at hw
    cases hw
  | failWake id' claimId =>
    rw [Call.run, Tables.failWake, Tables.lookup_finishClaim, hnone] at hw
    cases hw
  | pruneWakeOutbox now before =>
    have hold := (Tables.lookup_pruneWakeOutbox.mp hw).1
    rw [hnone] at hold
    cases hold
  | disableEndpointGeneration | revalidateWakeForSend | others =>
    have hold := hnone.symm.trans hw
    cases hold

/-- A later lease of an address evolves from the one before. -/
theorem Call.leases_evolve (hchecked : t.Checked) (call : Call) {a : Address} {l : Lease}
    (hl : t.leases.lookup a = some l) :
    ∃ l', (call.run maxActiveLeases t).leases.lookup a = some l' ∧ l.Evolves l' := by
  cases call with
  | acceptLeaseEvent op =>
    obtain ⟨-, htx⟩ | ⟨-, hsame⟩ := acceptLeaseEvent_cases op.now op.event op.installationId
      op.version op.active maxActiveLeases t
    · have haccepted := acceptTx_eq_ok hchecked htx
      have hlookup := haccepted.lookup a
      split_ifs at hlookup with ha
      · subst ha
        exact ⟨_, hlookup, .inr (.inr (haccepted.wins l hl).2)⟩
      · exact ⟨l, hlookup.trans hl, .inl rfl⟩
    · exact ⟨l, (congrArg (·.leases.lookup a) hsame).trans hl, .inl rfl⟩
  | disableEndpointGeneration address generation =>
    have hlookup := Table.lookup_updateWhere (Tables.enabledGeneration address generation)
      (fun l => { l with endpointEnabled := false }) t.leases a
    rw [hl, Option.map_some] at hlookup
    refine ⟨_, hlookup, ?_⟩
    split_ifs
    · exact .inr (.inl rfl)
    · exact .inl rfl
  | enqueueWakes now requests =>
    rw [Call.run, (enqueueWakes_enqueue now requests t).frame]
    exact ⟨l, hl, .inl rfl⟩
  | claimDueWakes | revalidateWakeForSend | completeWake | retryWake | failWake | pruneWakeOutbox
  | others => exact ⟨l, hl, .inl rfl⟩

theorem Call.checked (hchecked : t.Checked) (call : Call) :
    (call.run maxActiveLeases t).Checked := by
  cases call with
  | acceptLeaseEvent op => exact hchecked.apply op
  | disableEndpointGeneration address generation =>
    intro a l' hl'
    rw [Call.run, Tables.disableEndpointGeneration, Table.lookup_updateWhere] at hl'
    obtain ⟨l, hl, rfl⟩ := Option.map_eq_some_iff.mp hl'
    split_ifs
    · exact hchecked a l hl
    · exact hchecked a l hl
  | enqueueWakes now requests =>
    rw [Call.run, (enqueueWakes_enqueue now requests t).frame]
    exact hchecked
  | claimDueWakes | revalidateWakeForSend | completeWake | retryWake | failWake | pruneWakeOutbox
  | others => exact hchecked

theorem Call.unique (hchecked : t.Checked) (hunique : t.WakesUnique) (call : Call) :
    (call.run maxActiveLeases t).WakesUnique := by
  -- every wake was there before, unless the call is an enqueue
  have hold : ∀ id w', (call.run maxActiveLeases t).outbox.lookup id = some w' →
      (∃ w, t.outbox.lookup id = some w ∧ w'.key = w.key) ∨
        ∃ now requests, call = .enqueueWakes now requests := by
    intro id w' hw'
    cases hw : t.outbox.lookup id with
    | none =>
      obtain ⟨now, requests, -, -, hcall, -⟩ := call.new hchecked hw hw'
      exact .inr ⟨now, requests, hcall⟩
    | some w => exact .inl ⟨w, rfl, (hw' ▸ call.next hchecked hw).fixed.1⟩
  by_cases henqueue : ∃ now requests, call = .enqueueWakes now requests
  · obtain ⟨now, requests, rfl⟩ := henqueue
    exact (enqueueWakes_enqueue now requests t).unique hunique
  · intro i j w w' hw hw' hkey
    obtain ⟨v, hv, hkey₁⟩ := (hold i w hw).resolve_right henqueue
    obtain ⟨v', hv', hkey₂⟩ := (hold j w' hw').resolve_right henqueue
    exact hunique i j v v' hv hv' (hkey₁.symm.trans (hkey.trans hkey₂))

/-- Only the call that holds the claim settles a wake. -/
theorem Call.settles_effect {call : Call} {id claimId : Uuid} {state : WakeState}
    (hsettles : call.settles = some (id, claimId, state))
    (heffect : call.run maxActiveLeases t ≠ t) :
    ∃ w, t.outbox.lookup id = some w ∧ w.claimId = some claimId := by
  have hfinish : ∀ f, (t.finishClaim id claimId f).2 ≠ t →
      ∃ w, t.outbox.lookup id = some w ∧ w.claimId = some claimId := by
    intro f hne
    by_contra hnone
    refine hne ?_
    rw [Tables.finishClaim, Table.updateWhere_eq_self]
    intro id' w hw
    by_contra hsending
    simp only [Tables.sendingUnder, Bool.not_eq_false, Bool.and_eq_true,
      decide_eq_true_eq] at hsending
    obtain ⟨⟨rfl, hheld⟩, -⟩ := hsending
    exact hnone ⟨w, hw, hheld⟩
  cases call with
  | completeWake | retryWake | failWake =>
    cases hsettles
    exact hfinish _ heffect
  | acceptLeaseEvent | disableEndpointGeneration | enqueueWakes | claimDueWakes
  | revalidateWakeForSend | pruneWakeOutbox | others => cases hsettles

end

/-! ### The invariant -/

/-- What holds between calls: the constraints, the claims of each wake, and the lease it was
enqueued for, from which the lease of its address has evolved. -/
structure Fenced (s : Outbox) : Prop where
  checked : s.tables.Checked
  unique : s.tables.WakesUnique
  attempts : ∀ id w, s.tables.outbox.lookup id = some w → w.attempts = (s.claims id).length
  claim : ∀ id w claimId, s.tables.outbox.lookup id = some w → w.claimId = some claimId →
    (s.claims id).head? = some claimId
  captured : ∀ id w, s.tables.outbox.lookup id = some w →
    ∃ l l', s.captured id = some l ∧ l.generation = w.leaseGeneration ∧
      l.endpointHash = some w.endpointHash ∧ s.tables.leases.lookup w.address = some l' ∧
      l.Evolves l'

theorem fenced_empty : Fenced .empty where
  checked a l hl := absurd hl (Tables.lookup_leases_empty a l)
  unique i _ w _ hw := by cases hw
  attempts _ _ hw := by cases hw
  claim _ _ _ hw := by cases hw
  captured _ _ hw := by cases hw

namespace Outbox

variable {maxActiveLeases : ℤ} {s : Outbox} {call : Call} {id : Uuid}

theorem claims_apply_of_none (hnone : s.tables.outbox.lookup id = none) :
    (s.apply maxActiveLeases call).claims id = [] := by
  simp only [apply, hnone]

theorem claims_apply_of_some {w : Wake} (hw : s.tables.outbox.lookup id = some w) :
    (s.apply maxActiveLeases call).claims id =
      (call.claimOn s.tables id).toList ++ s.claims id := by
  simp only [apply, hw]

theorem captured_apply_of_none {w : Wake} (hnone : s.tables.outbox.lookup id = none)
    (hw : (s.apply maxActiveLeases call).tables.outbox.lookup id = some w) :
    (s.apply maxActiveLeases call).captured id = s.tables.leases.lookup w.address := by
  have hw' : (call.run maxActiveLeases s.tables).outbox.lookup id = some w := hw
  simp only [apply, hnone, hw']

theorem captured_apply_of_some {w : Wake} (hw : s.tables.outbox.lookup id = some w) :
    (s.apply maxActiveLeases call).captured id = s.captured id := by
  simp only [apply, hw]

end Outbox

namespace Fenced

variable {maxActiveLeases : ℤ} {s : Outbox}

section

variable (h : Fenced s) {call : Call} {id : Uuid} {w' : Wake}
  (hw' : (s.apply maxActiveLeases call).tables.outbox.lookup id = some w')

include h hw'

theorem attempts_apply : w'.attempts = ((s.apply maxActiveLeases call).claims id).length := by
  cases hw : s.tables.outbox.lookup id with
  | none =>
    obtain ⟨now, -, r, hash, -, -, rfl⟩ := call.new h.checked hw hw'
    rw [Outbox.claims_apply_of_none hw]
    rfl
  | some w =>
    rw [Outbox.claims_apply_of_some hw, List.length_append, ← h.attempts id w hw]
    have hnext : Wake.Next s.tables call id w (some w') := hw' ▸ call.next h.checked hw
    cases hnext with
    | kept hclaim => rw [hclaim, Option.toList_none, List.length_nil, Nat.zero_add]
    | claimed now limit claimId leaseUntil hcall hclaim =>
      rw [hclaim, Option.toList_some, List.length_singleton, Nat.add_comm]
      rfl
    | settled claimId state nextAttemptAt hclaim =>
      rw [hclaim, Option.toList_none, List.length_nil, Nat.zero_add]

theorem claim_apply {claimId : Uuid} (hheld : w'.claimId = some claimId) :
    ((s.apply maxActiveLeases call).claims id).head? = some claimId := by
  cases hw : s.tables.outbox.lookup id with
  | none =>
    obtain ⟨now, -, r, hash, -, -, rfl⟩ := call.new h.checked hw hw'
    cases hheld
  | some w =>
    rw [Outbox.claims_apply_of_some hw]
    have hnext : Wake.Next s.tables call id w (some w') := hw' ▸ call.next h.checked hw
    cases hnext with
    | kept hclaim =>
      rw [hclaim, Option.toList_none, List.nil_append]
      exact h.claim id w' claimId hw hheld
    | claimed now limit claimId' leaseUntil hcall hclaim =>
      rw [hclaim, Option.toList_some]
      exact hheld
    | settled => cases hheld

theorem captured_apply :
    ∃ l l', (s.apply maxActiveLeases call).captured id = some l ∧
      l.generation = w'.leaseGeneration ∧ l.endpointHash = some w'.endpointHash ∧
      (s.apply maxActiveLeases call).tables.leases.lookup w'.address = some l' ∧ l.Evolves l' := by
  cases hw : s.tables.outbox.lookup id with
  | none =>
    rw [Outbox.captured_apply_of_none hw hw']
    obtain ⟨now, -, r, hash, -, ⟨l, hl, -, hgeneration, hhash⟩, rfl⟩ := call.new h.checked hw hw'
    obtain ⟨l', hl', hevolves⟩ := call.leases_evolve h.checked hl
    exact ⟨l, l', hl, hgeneration, hhash, hl', hevolves⟩
  | some w =>
    rw [Outbox.captured_apply_of_some hw]
    have hnext : Wake.Next s.tables call id w (some w') := hw' ▸ call.next h.checked hw
    obtain ⟨hkey, haddress, hgeneration⟩ := hnext.fixed
    obtain ⟨l, l', hl, hlg, hlh, hl', hevolves⟩ := h.captured id w hw
    obtain ⟨l'', hl'', hevolves'⟩ := call.leases_evolve h.checked hl'
    refine ⟨l, l'', hl, hlg.trans hgeneration.symm, ?_, haddress ▸ hl'', hevolves.trans hevolves'⟩
    rw [hlh, (Prod.mk.inj hkey).1]

end

/-- One call keeps the invariant. -/
theorem apply (h : Fenced s) (call : Call) : Fenced (s.apply maxActiveLeases call) where
  checked := call.checked h.checked
  unique := call.unique h.checked h.unique
  attempts _ _ hw := h.attempts_apply hw
  claim _ _ _ hw hheld := h.claim_apply hw hheld
  captured _ _ hw := h.captured_apply hw

theorem foldl (h : Fenced s) (calls : List Call) :
    Fenced (calls.foldl (Outbox.apply maxActiveLeases) s) := by
  induction calls generalizing s with
  | nil => exact h
  | cons call calls ih => exact ih (h.apply call)

theorem leases_evolve_foldl (h : Fenced s) (calls : List Call) {a : Address} {l : Lease}
    (hl : s.tables.leases.lookup a = some l) :
    ∃ l', (calls.foldl (Outbox.apply maxActiveLeases) s).tables.leases.lookup a = some l' ∧
      l.Evolves l' := by
  induction calls generalizing s l with
  | nil => exact ⟨l, hl, .inl rfl⟩
  | cons call calls ih =>
    obtain ⟨l₁, hl₁, hevolves⟩ := call.leases_evolve h.checked hl
    obtain ⟨l₂, hl₂, hevolves'⟩ := ih (h.apply call) hl₁
    exact ⟨l₂, hl₂, hevolves.trans hevolves'⟩

/-- A settled wake is claimed and settled no more. -/
theorem terminal (h : Fenced s) (call : Call) {id : Uuid} {w : Wake}
    (hw : s.tables.outbox.lookup id = some w) (hterminal : w.state.terminal = true) :
    (s.apply maxActiveLeases call).tables.outbox.lookup id = some w ∨
      (s.apply maxActiveLeases call).tables.outbox.lookup id = none ∧ call.prunes = true := by
  have hnext : Wake.Next s.tables call id w
      ((s.apply maxActiveLeases call).tables.outbox.lookup id) := call.next h.checked hw
  generalize (s.apply maxActiveLeases call).tables.outbox.lookup id = after at hnext
  cases hnext with
  | kept => exact .inl rfl
  | claimed now limit claimId leaseUntil hcall hclaim hdue =>
    cases hstate : w.state <;> simp [hstate, WakeState.terminal, Wake.due] at hterminal hdue
  | settled claimId state nextAttemptAt hclaim hsettles hheld hsending =>
    rw [hsending] at hterminal
    cases hterminal
  | pruned hclaim hprunes => exact .inr ⟨rfl, hprunes⟩

/-- A wake that may be sent has the grant of the lease it was enqueued for, which is still the lease
of its address. -/
theorem deliver (h : Fenced s) {now : ℤ} {id claimId : Uuid} {wake : ClaimedWake}
    (hdeliver : s.tables.revalidateWakeForSend now id claimId = .ok (.deliver wake)) :
    ∃ l, s.captured id = some l ∧
      s.tables.leases.lookup (wake.author, wake.installationId) = some l ∧
      l.eligible now = true ∧ l.generation = wake.leaseGeneration ∧
      l.endpointGrant = some wake.endpointGrant := by
  obtain ⟨w, l, e, hw, -, hjoin, hrow⟩ := revalidateWakeForSend_eq_deliver hdeliver
  obtain ⟨⟨hl, hgeneration, -⟩, -, -, heligible⟩ := Tables.wakeJoin_eq_some.mp hjoin
  obtain ⟨-, hgrant, hwake⟩ := rowToClaimedWake_eq_ok hrow
  obtain ⟨l₀, l', hcaptured, hgeneration₀, -, hl', hevolves⟩ := h.captured id w hw
  obtain rfl := Option.some.inj (hl.symm.trans hl')
  have henabled : l.endpointEnabled = true := by
    simp only [Lease.eligible, Bool.and_eq_true] at heligible
    exact heligible.1.2
  obtain rfl := hevolves.eq henabled (hgeneration.trans hgeneration₀.symm).le
  rw [hwake]
  exact ⟨l₀, hcaptured, hl, heligible, hgeneration, hgrant⟩

end Fenced

/-- In every run: there is at most one wake for each endpoint and event; a wake that is delivered or
failed stays as it is until it is deleted; a worker settles a wake only under the latest claim on
it; the attempts of a wake are the claims it has had; and a wake may be sent only under the lease
that it was enqueued for, with the grant of that lease, while at no earlier time its address had
another lease of that or a later generation. So nothing is sent for a generation that was replaced,
revoked or disabled before the check. -/
theorem outbox_fenced (maxActiveLeases : ℤ) (history : List Call) (call : Call) :
    let s := runCalls maxActiveLeases history
    let s' := s.apply maxActiveLeases call
    (∀ i j w w', s.tables.outbox.lookup i = some w → s.tables.outbox.lookup j = some w' →
        w.endpointHash = w'.endpointHash → w.eventId = w'.eventId → i = j) ∧
      (∀ id w, s.tables.outbox.lookup id = some w → w.state.terminal = true →
        s'.tables.outbox.lookup id = some w ∨
          s'.tables.outbox.lookup id = none ∧ call.prunes = true) ∧
      (∀ id claimId state, call.settles = some (id, claimId, state) → s'.tables ≠ s.tables →
        (s.claims id).head? = some claimId) ∧
      (∀ id w, s.tables.outbox.lookup id = some w → w.attempts = (s.claims id).length) ∧
      ∀ now id claimId wake,
        s.tables.revalidateWakeForSend now id claimId = .ok (.deliver wake) →
        ∃ l, s.captured id = some l ∧
          s.tables.leases.lookup (wake.author, wake.installationId) = some l ∧
          l.eligible now = true ∧ l.generation = wake.leaseGeneration ∧
          l.endpointGrant = some wake.endpointGrant ∧
          ∀ earlier later, history = earlier ++ later → ∀ l₁,
            (runCalls maxActiveLeases earlier).tables.leases.lookup
              (wake.author, wake.installationId) = some l₁ →
            wake.leaseGeneration ≤ l₁.generation → l₁ = l := by
  intro s s'
  have hfenced : Fenced s := fenced_empty.foldl history
  refine ⟨fun i j w w' hw hw' hhash hevent => ?_, fun id w hw => hfenced.terminal call hw,
    fun id claimId state hsettles heffect => ?_, hfenced.attempts, ?_⟩
  · exact hfenced.unique i j w w' hw hw' (Prod.ext hhash hevent)
  · obtain ⟨w, hw, hheld⟩ := Call.settles_effect hsettles heffect
    exact hfenced.claim id w claimId hw hheld
  · intro now id claimId wake hdeliver
    obtain ⟨l, hcaptured, hl, heligible, hgeneration, hgrant⟩ := hfenced.deliver hdeliver
    refine ⟨l, hcaptured, hl, heligible, hgeneration, hgrant, ?_⟩
    intro earlier later hhistory l₁ hl₁ hle
    have hearlier : Fenced (runCalls maxActiveLeases earlier) := fenced_empty.foldl earlier
    obtain ⟨l', hl', hevolves⟩ := hearlier.leases_evolve_foldl later hl₁
    have hrun : s =
        later.foldl (Outbox.apply maxActiveLeases) (runCalls maxActiveLeases earlier) := by
      rw [runCalls, ← List.foldl_append, ← hhistory]
      rfl
    rw [← hrun, hl] at hl'
    obtain rfl := Option.some.inj hl'
    have henabled : l.endpointEnabled = true := by
      simp only [Lease.eligible, Bool.and_eq_true] at heligible
      exact heligible.1.2
    exact hevolves.eq henabled (hgeneration.le.trans hle)

/-- A wake that may be sent, until its lease is replaced. -/
example :
    let endpoint : ActiveLease := ⟨"ios".toList, 1, "grant".toList, "default".toList, .null⟩
    let event : StoredEvent := ⟨2, 9, none, none, 0, none⟩
    let lease (id : EventId) (generation : ℤ) : Call :=
      .acceptLeaseEvent ⟨0, ⟨id, 1, 10⟩, "phone".toList, generation, 100, some endpoint⟩
    let history : List Call :=
      [lease 5 1, .others ((∅ : HashMap (ℤ × EventId) StoredEvent).insert (20, 9) event) ∅,
        .enqueueWakes 0 [(⟨1, "phone".toList, 1, 9, "default".toList, 50⟩, 77)],
        .claimDueWakes 0 16 3 30]
    let sent (s : Outbox) : Bool :=
      match s.tables.revalidateWakeForSend 10 77 3 with
      | .ok (.deliver _) => true
      | _ => false
    sent (runCalls 1 history) = true ∧ sent (runCalls 1 (history ++ [lease 4 2])) = false := by
  decide +kernel

end Buzz.Db.Push
