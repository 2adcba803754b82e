import Buzz.Library.HashMap

/-!
# The usage tracker

`UsageTracker` of `crates/buzz-acp/src/usage.rs` turns the cumulative counters that an agent reports
into one record a turn. A notification for the session in flight replaces the pending record, whose
deltas are measured from the committed baseline of the session; `take` publishes it and moves the
baseline there. A notification that arrives while no turn is in flight moves the baseline itself,
and one that arrives during the turn of another session is dropped. A counter that was absent once
poisons its session.

Token counts are numbers that no sum of this code takes past the range of `u64`. A cost is a double:
only its comparison and its difference are used, so it is any type that has them.

## Main definitions

* `UsageUpdatePayload`, `SessionState`, `TurnUsage`, `UsageTracker`.
* `UsageTracker.seedZeroBaseline`, `beginTurn`, `record`, `take`.
* `Op`, `UsageTracker.apply`, `UsageTracker.run`, `UsageTracker.published`: the runs of a tracker.

## Main results

* `UsageTracker.record_own`, `record_idle`, `record_foreign`, `take_none`, `take_some`: what a call
  does by the turn in flight.
-/

namespace Buzz.Acp.Usage

open Buzz.Library

/-! ### Data -/

/-- Billing identity of a turn. -/
structure PricingIdentity where
  authority : List Char
  model : List Char
  cacheClass : Option (List Char)
  deriving DecidableEq

/-- The `usage_update` payload: counters accumulated over the session. -/
structure UsageUpdatePayload (Cost : Type) where
  accumulatedInputTokens : Option ℕ
  accumulatedOutputTokens : Option ℕ
  accumulatedCachedInputTokens : Option ℕ
  accumulatedCacheWriteTokens : Option ℕ
  accumulatedCost : Option Cost
  accumulatedTotalTokens : Option ℕ
  model : Option (List Char)
  pricingIdentity : Option PricingIdentity

/-- Per-session normalization state: the last published snapshot, and the sticky poison flags. -/
structure SessionState (Cost : Type) where
  publishedSeq : ℕ
  lastInput : Option ℕ
  lastOutput : Option ℕ
  lastCost : Option Cost
  lastTotal : Option ℕ
  lastCachedInput : Option ℕ
  lastCacheWrite : Option ℕ
  inputEverPoisoned : Bool
  outputEverPoisoned : Bool

/-- Per-turn usage record. -/
structure TurnUsage (Cost : Type) where
  sessionId : List Char
  turnSeq : ℕ
  deltaReliable : Bool
  turnInputTokens : Option ℕ
  turnOutputTokens : Option ℕ
  turnTotalTokens : Option ℕ
  turnCostUsd : Option Cost
  turnCacheReadTokens : Option ℕ
  turnCacheWriteTokens : Option ℕ
  cumulativeInputTokens : Option ℕ
  cumulativeOutputTokens : Option ℕ
  cumulativeTotalTokens : Option ℕ
  cumulativeCostUsd : Option Cost
  cumulativeCacheReadTokens : Option ℕ
  cumulativeCacheWriteTokens : Option ℕ
  model : Option (List Char)
  pricingIdentity : Option PricingIdentity

/-- Tracks per-session cumulative usage state across turns. -/
structure UsageTracker (Cost : Type) where
  sessions : HashMap (List Char) (SessionState Cost)
  inFlightSession : Option (List Char)
  pending : Option (TurnUsage Cost)
  pendingIdentity : Option (Option PricingIdentity)
  inputAbsenceObserved : Bool
  outputAbsenceObserved : Bool

variable {Cost : Type}

def UsageTracker.new : UsageTracker Cost := ⟨∅, none, none, none, false, false⟩

/-! ### Deltas -/

/-- What a notification says about its turn so far. -/
structure TurnDelta (Cost : Type) where
  reliable : Bool
  input : Option ℕ
  output : Option ℕ
  cost : Option Cost
  seq : ℕ

/-- A delta that is not known. -/
def TurnDelta.unreliable (seq : ℕ) : TurnDelta Cost := ⟨false, none, none, none, seq⟩

/-- The delta of a counter that stands for itself: a missing or decreasing one taints nothing
else. -/
def fieldDelta (current previous : Option ℕ) : Option ℕ :=
  match current, previous with
  | some cur, some p => if p ≤ cur then some (cur - p) else none
  | _, _ => none

section Delta

variable [LE Cost] [DecidableLE Cost] [Sub Cost]

/-- The deltas from the committed baseline. A decrease of a token counter or of the cost makes all
of them unreliable; an absent cost does not. -/
def turnDelta (prev : Option (SessionState Cost)) (inputAbsence outputAbsence : Bool)
    (payload : UsageUpdatePayload Cost) : TurnDelta Cost :=
  match prev with
  | none => .unreliable 1
  | some prev =>
    let seq := prev.publishedSeq + 1
    let inputPoisoned :=
      prev.inputEverPoisoned || inputAbsence || payload.accumulatedInputTokens.isNone
    let outputPoisoned :=
      prev.outputEverPoisoned || outputAbsence || payload.accumulatedOutputTokens.isNone
    if inputPoisoned || outputPoisoned then .unreliable seq
    else
      match payload.accumulatedInputTokens, payload.accumulatedOutputTokens, prev.lastInput,
        prev.lastOutput with
      | some ci, some co, some pi, some po =>
        if ci < pi ∨ co < po then .unreliable seq
        else
          match payload.accumulatedCost, prev.lastCost with
          | some c, some p =>
            if p ≤ c then ⟨true, some (ci - pi), some (co - po), some (c - p), seq⟩
            else .unreliable seq
          | _, _ => ⟨true, some (ci - pi), some (co - po), none, seq⟩
      | _, _, _, _ => .unreliable seq

end Delta

/-! ### The committed state of a session -/

namespace SessionState

/-- Absences latched into the poison flags; a session that is not known yet gets no baseline. -/
def latch (existing : Option (SessionState Cost)) (inputAbsent outputAbsent : Bool) :
    SessionState Cost :=
  match existing with
  | some s =>
    { s with
      inputEverPoisoned := s.inputEverPoisoned || inputAbsent
      outputEverPoisoned := s.outputEverPoisoned || outputAbsent }
  | none => ⟨0, none, none, none, none, none, none, inputAbsent, outputAbsent⟩

/-- The baseline of a session that was just created. -/
def zeroBaseline [Zero Cost] : SessionState Cost :=
  ⟨0, some 0, some 0, some 0, some 0, some 0, some 0, false, false⟩

/-- The baseline that a notification outside any turn sets. -/
def ofSetup (existing : Option (SessionState Cost)) (payload : UsageUpdatePayload Cost) :
    SessionState Cost where
  publishedSeq := (existing.map publishedSeq).getD 0
  lastInput := payload.accumulatedInputTokens
  lastOutput := payload.accumulatedOutputTokens
  lastCost := payload.accumulatedCost
  lastTotal := payload.accumulatedTotalTokens
  lastCachedInput := payload.accumulatedCachedInputTokens
  lastCacheWrite := payload.accumulatedCacheWriteTokens
  inputEverPoisoned :=
    existing.any (fun s => s.inputEverPoisoned) || payload.accumulatedInputTokens.isNone
  outputEverPoisoned :=
    existing.any (fun s => s.outputEverPoisoned) || payload.accumulatedOutputTokens.isNone

/-- The baseline that a published record sets. -/
def ofRecord (existing : Option (SessionState Cost)) (inputAbsence outputAbsence : Bool)
    (record : TurnUsage Cost) : SessionState Cost where
  publishedSeq := record.turnSeq
  lastInput := record.cumulativeInputTokens
  lastOutput := record.cumulativeOutputTokens
  lastCost := record.cumulativeCostUsd
  lastTotal := record.cumulativeTotalTokens
  lastCachedInput := record.cumulativeCacheReadTokens
  lastCacheWrite := record.cumulativeCacheWriteTokens
  inputEverPoisoned := existing.any (fun s => s.inputEverPoisoned) || inputAbsence ||
    record.cumulativeInputTokens.isNone
  outputEverPoisoned := existing.any (fun s => s.outputEverPoisoned) || outputAbsence ||
    record.cumulativeOutputTokens.isNone

end SessionState

/-- The identity of a turn: the one that all its notifications carry. -/
def foldIdentity (acc : Option (Option PricingIdentity)) (incoming : Option PricingIdentity) :
    Option (Option PricingIdentity) :=
  match acc with
  | none => some incoming
  | some (some existing) => if some existing = incoming then some incoming else some none
  | some none => some none

section Record

variable [LE Cost] [DecidableLE Cost] [Sub Cost]

/-- The pending record of a notification. Its identity is written when the record is taken. -/
def TurnUsage.ofPayload (existing : Option (SessionState Cost)) (inputAbsence outputAbsence : Bool)
    (sessionId : List Char) (payload : UsageUpdatePayload Cost) : TurnUsage Cost :=
  let delta := turnDelta existing inputAbsence outputAbsence payload
  { sessionId := sessionId
    turnSeq := delta.seq
    deltaReliable := delta.reliable
    turnInputTokens := delta.input
    turnOutputTokens := delta.output
    turnTotalTokens :=
      fieldDelta payload.accumulatedTotalTokens (existing.bind SessionState.lastTotal)
    turnCostUsd := delta.cost
    turnCacheReadTokens :=
      fieldDelta payload.accumulatedCachedInputTokens (existing.bind SessionState.lastCachedInput)
    turnCacheWriteTokens :=
      fieldDelta payload.accumulatedCacheWriteTokens (existing.bind SessionState.lastCacheWrite)
    cumulativeInputTokens := payload.accumulatedInputTokens
    cumulativeOutputTokens := payload.accumulatedOutputTokens
    cumulativeTotalTokens := payload.accumulatedTotalTokens
    cumulativeCostUsd := payload.accumulatedCost
    cumulativeCacheReadTokens := payload.accumulatedCachedInputTokens
    cumulativeCacheWriteTokens := payload.accumulatedCacheWriteTokens
    model := payload.model
    pricingIdentity := none }

end Record

/-! ### Calls -/

namespace UsageTracker

/-- Mark the start of a new prompt turn. Absences of a turn that was never taken are latched
first. -/
def beginTurn (t : UsageTracker Cost) (sessionId : List Char) : UsageTracker Cost where
  sessions :=
    if t.inputAbsenceObserved || t.outputAbsenceObserved then
      match t.inFlightSession with
      | some prev => t.sessions.insert prev
          (.latch (t.sessions.lookup prev) t.inputAbsenceObserved t.outputAbsenceObserved)
      | none => t.sessions
    else t.sessions
  inFlightSession := some sessionId
  pending := none
  pendingIdentity := none
  inputAbsenceObserved := false
  outputAbsenceObserved := false

/-- Seed a zero baseline, unless the session is known. -/
def seedZeroBaseline [Zero Cost] (t : UsageTracker Cost) (sessionId : List Char) :
    UsageTracker Cost :=
  match t.sessions.lookup sessionId with
  | some _ => t
  | none => { t with sessions := t.sessions.insert sessionId .zeroBaseline }

/-- Publish the pending record, and move the committed baseline of its session there. -/
def take (t : UsageTracker Cost) : Option (TurnUsage Cost) × UsageTracker Cost :=
  let cleared : UsageTracker Cost := ⟨t.sessions, none, none, none, false, false⟩
  match t.pending with
  | none => (none, cleared)
  | some pending =>
    let record := { pending with pricingIdentity := t.pendingIdentity.join }
    let state := SessionState.ofRecord (t.sessions.lookup record.sessionId)
      t.inputAbsenceObserved t.outputAbsenceObserved record
    (some record, { cleared with sessions := t.sessions.insert record.sessionId state })

/-- Process a `usage_update` notification. -/
def record [LE Cost] [DecidableLE Cost] [Sub Cost] (t : UsageTracker Cost)
    (sessionId : List Char) (payload : UsageUpdatePayload Cost) : UsageTracker Cost :=
  let existing := t.sessions.lookup sessionId
  let inputAbsent := payload.accumulatedInputTokens.isNone
  let outputAbsent := payload.accumulatedOutputTokens.isNone
  if t.inFlightSession = some sessionId then
    let inputAbsence := t.inputAbsenceObserved || inputAbsent
    let outputAbsence := t.outputAbsenceObserved || outputAbsent
    { t with
      inputAbsenceObserved := inputAbsence
      outputAbsenceObserved := outputAbsence
      pendingIdentity := foldIdentity t.pendingIdentity payload.pricingIdentity
      pending := some (.ofPayload existing inputAbsence outputAbsence sessionId payload) }
  else match t.inFlightSession with
    | none =>
      -- Outside any turn the notification is the new baseline.
      { t with sessions := t.sessions.insert sessionId (.ofSetup existing payload) }
    | some _ =>
      -- During the turn of another session only an absence counts.
      if inputAbsent || outputAbsent then
        let state := SessionState.latch existing inputAbsent outputAbsent
        { t with sessions := t.sessions.insert sessionId state }
      else t

section Record

variable [LE Cost] [DecidableLE Cost] [Sub Cost] (t : UsageTracker Cost) (s : List Char)
  (payload : UsageUpdatePayload Cost)

theorem record_own (h : t.inFlightSession = some s) :
    t.record s payload =
      { t with
        inputAbsenceObserved := t.inputAbsenceObserved || payload.accumulatedInputTokens.isNone
        outputAbsenceObserved := t.outputAbsenceObserved || payload.accumulatedOutputTokens.isNone
        pendingIdentity := foldIdentity t.pendingIdentity payload.pricingIdentity
        pending := some (.ofPayload (t.sessions.lookup s)
          (t.inputAbsenceObserved || payload.accumulatedInputTokens.isNone)
          (t.outputAbsenceObserved || payload.accumulatedOutputTokens.isNone) s payload) } := by
  simp only [record, h, if_true]

theorem record_idle (h : t.inFlightSession = none) :
    t.record s payload =
      { t with sessions := t.sessions.insert s (.ofSetup (t.sessions.lookup s) payload) } := by
  simp only [record, h, reduceCtorEq, if_false]

theorem record_foreign {s' : List Char} (h : t.inFlightSession = some s') (hne : s' ≠ s) :
    t.record s payload =
      { t with
        sessions :=
          if payload.accumulatedInputTokens.isNone || payload.accumulatedOutputTokens.isNone then
            t.sessions.insert s (.latch (t.sessions.lookup s)
              payload.accumulatedInputTokens.isNone payload.accumulatedOutputTokens.isNone)
          else t.sessions } := by
  have hin : ¬ t.inFlightSession = some s := by simpa [h] using hne
  simp only [record, hin, if_false]
  split
  · next hnone => rw [h] at hnone; cases hnone
  · split_ifs <;> rfl

end Record

theorem take_none (t : UsageTracker Cost) (h : t.pending = none) :
    t.take = (none, ⟨t.sessions, none, none, none, false, false⟩) := by
  simp only [take, h]

theorem take_some (t : UsageTracker Cost) {pending : TurnUsage Cost}
    (h : t.pending = some pending) :
    t.take = (some { pending with pricingIdentity := t.pendingIdentity.join },
      ⟨t.sessions.insert pending.sessionId
        (.ofRecord (t.sessions.lookup pending.sessionId) t.inputAbsenceObserved
          t.outputAbsenceObserved { pending with pricingIdentity := t.pendingIdentity.join }),
        none, none, none, false, false⟩) := by
  simp only [take, h]

end UsageTracker

/-! ### Runs -/

/-- A call. -/
inductive Op (Cost : Type)
  | seedZeroBaseline (sessionId : List Char)
  | beginTurn (sessionId : List Char)
  | record (sessionId : List Char) (payload : UsageUpdatePayload Cost)
  | take

namespace UsageTracker

variable [LE Cost] [DecidableLE Cost] [Sub Cost] [Zero Cost]

/-- One call, with the record that it publishes. -/
def apply (t : UsageTracker Cost) : Op Cost → Option (TurnUsage Cost) × UsageTracker Cost
  | .seedZeroBaseline s => (none, t.seedZeroBaseline s)
  | .beginTurn s => (none, t.beginTurn s)
  | .record s payload => (none, t.record s payload)
  | .take => t.take

def run (t : UsageTracker Cost) (ops : List (Op Cost)) : UsageTracker Cost :=
  ops.foldl (fun t op => (t.apply op).2) t

/-- The records that a sequence of calls publishes. -/
def published (t : UsageTracker Cost) : List (Op Cost) → List (TurnUsage Cost)
  | [] => []
  | op :: ops => (t.apply op).1.toList ++ (t.apply op).2.published ops

end UsageTracker

end Buzz.Acp.Usage
