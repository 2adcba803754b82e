import Buzz.Acp.Usage.Tracker

/-!
# One session of the usage tracker

A session sees little of the tracker: its own committed state, and whether no turn, its own turn or
another turn is in flight. This module gives the machine that one session is, and shows that the
tracker is all these machines run side by side: a call acts on each of them by what the call is to
that session. So the records published for a session depend on nothing but the projected calls.

## Main definitions

* `Turn`, `Phase`, `Session`, `SessionOp`, `Session.step`: the machine of one session.
* `UsageTracker.view`, `Op.project`: a session of a tracker, and a call as a session sees it.

## Main results

* `UsageTracker.apply_view`, `UsageTracker.published_view`: the tracker refines the machine of each
  session.
* `UsageTracker.published_eq_of_project_eq`: calls that a session cannot tell apart publish the same
  records for it.
-/

namespace Buzz.Acp.Usage

open Buzz.Library

variable {Cost : Type}

/-! ### The machine of one session -/

/-- A call, as one session sees it. -/
inductive SessionOp (Cost : Type)
  | seed
  | beginTurn
  | beginOther
  | record (payload : UsageUpdatePayload Cost)
  | take
  | other

/-- The turn in flight. -/
structure Turn (Cost : Type) where
  pending : Option (TurnUsage Cost)
  identity : Option (Option PricingIdentity)
  inputAbsence : Bool
  outputAbsence : Bool

/-- Whose turn is in flight. -/
inductive Phase (Cost : Type)
  | idle
  | own (turn : Turn Cost)
  | foreign

structure Session (Cost : Type) where
  entry : Option (SessionState Cost)
  phase : Phase Cost

def Turn.fresh : Turn Cost := ⟨none, none, false, false⟩

/-- The record that a turn would publish now. -/
def Turn.result (turn : Turn Cost) : Option (TurnUsage Cost) :=
  turn.pending.map fun pending => { pending with pricingIdentity := turn.identity.join }

section Record

variable [LE Cost] [DecidableLE Cost] [Sub Cost]

/-- A notification for the session in flight. -/
def Turn.record (s : List Char) (entry : Option (SessionState Cost)) (turn : Turn Cost)
    (payload : UsageUpdatePayload Cost) : Turn Cost :=
  let inputAbsence := turn.inputAbsence || payload.accumulatedInputTokens.isNone
  let outputAbsence := turn.outputAbsence || payload.accumulatedOutputTokens.isNone
  { pending := some (.ofPayload entry inputAbsence outputAbsence s payload)
    identity := foldIdentity turn.identity payload.pricingIdentity
    inputAbsence := inputAbsence
    outputAbsence := outputAbsence }

end Record

namespace Session

def new : Session Cost := ⟨none, .idle⟩

/-- The committed state once the absences of a turn in flight are latched. -/
def flush (x : Session Cost) : Option (SessionState Cost) :=
  match x.phase with
  | .own turn =>
    if turn.inputAbsence || turn.outputAbsence then
      some (.latch x.entry turn.inputAbsence turn.outputAbsence)
    else x.entry
  | _ => x.entry

variable [LE Cost] [DecidableLE Cost] [Sub Cost] [Zero Cost]

/-- One call, with the record that it publishes for the session. -/
def step (s : List Char) (x : Session Cost) :
    SessionOp Cost → Option (TurnUsage Cost) × Session Cost
  | .seed => (none, { x with entry := some (x.entry.getD .zeroBaseline) })
  | .beginTurn => (none, ⟨x.flush, .own .fresh⟩)
  | .beginOther => (none, ⟨x.flush, .foreign⟩)
  | .record payload =>
    match x.phase with
    | .own turn => (none, ⟨x.entry, .own (turn.record s x.entry payload)⟩)
    | .idle => (none, ⟨some (.ofSetup x.entry payload), .idle⟩)
    | .foreign =>
      let inputAbsent := payload.accumulatedInputTokens.isNone
      let outputAbsent := payload.accumulatedOutputTokens.isNone
      if inputAbsent || outputAbsent then
        (none, ⟨some (.latch x.entry inputAbsent outputAbsent), .foreign⟩)
      else (none, x)
  | .take =>
    match x.phase with
    | .own turn =>
      match turn.result with
      | none => (none, ⟨x.entry, .idle⟩)
      | some record =>
        (some record, ⟨some (.ofRecord x.entry turn.inputAbsence turn.outputAbsence record), .idle⟩)
    | _ => (none, ⟨x.entry, .idle⟩)
  | .other => (none, x)

/-- Only `take` publishes. -/
theorem step_fst_eq_none (s : List Char) (x : Session Cost) {op : SessionOp Cost}
    (h : op ≠ .take) : (x.step s op).1 = none := by
  cases op with
  | take => exact absurd rfl h
  | record payload =>
    simp only [step]
    cases x.phase with
    | own turn => rfl
    | idle => rfl
    | foreign => dsimp only; split_ifs <;> rfl
  | _ => rfl

/-- A record is published from the turn in flight. -/
theorem exists_pending_of_take {s : List Char} {x : Session Cost} {r : TurnUsage Cost}
    (h : r ∈ (x.step s .take).1) :
    ∃ turn pending, x.phase = .own turn ∧ turn.pending = some pending ∧
      r = { pending with pricingIdentity := turn.identity.join } := by
  obtain ⟨entry, phase⟩ := x
  cases phase with
  | own turn =>
    cases hpending : turn.pending with
    | none => simp [step, Turn.result, hpending] at h
    | some pending =>
      simp only [step, Turn.result, hpending, Option.map_some, Option.mem_def,
        Option.some.injEq] at h
      exact ⟨turn, pending, rfl, hpending, h.symm⟩
  | idle => simp [step] at h
  | foreign => simp [step] at h

def run (s : List Char) (x : Session Cost) (ops : List (SessionOp Cost)) : Session Cost :=
  ops.foldl (fun x op => (x.step s op).2) x

/-- The records that a sequence of calls publishes for the session. -/
def published (s : List Char) (x : Session Cost) : List (SessionOp Cost) → List (TurnUsage Cost)
  | [] => []
  | op :: ops => (x.step s op).1.toList ++ (x.step s op).2.published s ops

end Session

/-! ### The tracker refines the machine of each session -/

/-- What a call is to a session. -/
def Op.project (s : List Char) : Op Cost → SessionOp Cost
  | .seedZeroBaseline s' => if s' = s then .seed else .other
  | .beginTurn s' => if s' = s then .beginTurn else .beginOther
  | .record s' payload => if s' = s then .record payload else .other
  | .take => .take

theorem Op.project_ne_take {s : List Char} {op : Op Cost} (h : op ≠ .take) :
    op.project s ≠ .take := by
  cases op with
  | take => exact absurd rfl h
  | _ => unfold Op.project; dsimp only; split_ifs <;> simp

namespace UsageTracker

/-- What a session sees of the tracker. -/
def view (s : List Char) (t : UsageTracker Cost) : Session Cost where
  entry := t.sessions.lookup s
  phase :=
    match t.inFlightSession with
    | none => .idle
    | some s' =>
      if s' = s then
        .own ⟨t.pending, t.pendingIdentity, t.inputAbsenceObserved, t.outputAbsenceObserved⟩
      else .foreign

/-- The pending record is one of the session in flight. -/
def WellFormed (t : UsageTracker Cost) : Prop :=
  ∀ r, t.pending = some r → t.inFlightSession = some r.sessionId

theorem wellFormed_new : (new : UsageTracker Cost).WellFormed := by
  intro r h
  cases h

theorem view_new (s : List Char) : (new : UsageTracker Cost).view s = .new := rfl

theorem view_own {t : UsageTracker Cost} {s : List Char} (h : t.inFlightSession = some s) :
    t.view s = ⟨t.sessions.lookup s,
      .own ⟨t.pending, t.pendingIdentity, t.inputAbsenceObserved, t.outputAbsenceObserved⟩⟩ := by
  simp only [view, h, if_true]

theorem view_idle {t : UsageTracker Cost} (s : List Char) (h : t.inFlightSession = none) :
    t.view s = ⟨t.sessions.lookup s, .idle⟩ := by
  simp only [view, h]

theorem view_foreign {t : UsageTracker Cost} {s s' : List Char} (h : t.inFlightSession = some s')
    (hne : s' ≠ s) : t.view s = ⟨t.sessions.lookup s, .foreign⟩ := by
  simp only [view, h, hne, if_false]

/-- A turn begins with the absences of the last one latched. -/
theorem lookup_beginTurn (t : UsageTracker Cost) (s s' : List Char) :
    (t.beginTurn s').sessions.lookup s = (t.view s).flush := by
  cases hflight : t.inFlightSession with
  | none =>
    rw [view_idle s hflight]
    simp only [beginTurn, hflight, ite_self, Session.flush]
  | some prev =>
    by_cases hprev : prev = s
    · subst hprev
      rw [view_own hflight]
      simp only [beginTurn, hflight, Session.flush]
      split_ifs with habs
      · exact AList.lookup_insert _
      · rfl
    · rw [view_foreign hflight hprev]
      simp only [beginTurn, hflight, Session.flush]
      split_ifs with habs
      · exact AList.lookup_insert_ne (Ne.symm hprev)
      · rfl

section Step

variable [LE Cost] [DecidableLE Cost] [Sub Cost]

theorem inFlightSession_record (t : UsageTracker Cost) (s : List Char)
    (payload : UsageUpdatePayload Cost) :
    (t.record s payload).inFlightSession = t.inFlightSession := by
  by_cases hin : t.inFlightSession = some s
  · rw [record_own t s payload hin]
  · cases hflight : t.inFlightSession with
    | none => rw [record_idle t s payload hflight, hflight]
    | some s' =>
      rw [record_foreign t s payload hflight fun e => hin (e ▸ hflight)]
      exact hflight

theorem WellFormed.record {t : UsageTracker Cost} (h : t.WellFormed) (s : List Char)
    (payload : UsageUpdatePayload Cost) : (t.record s payload).WellFormed := by
  by_cases hin : t.inFlightSession = some s
  · rw [record_own t s payload hin]
    rintro r hr
    cases hr
    exact hin
  · cases hflight : t.inFlightSession with
    | none => rw [record_idle t s payload hflight]; exact h
    | some s' =>
      have hne : s' ≠ s := fun e => hin (e ▸ hflight)
      rw [record_foreign t s payload hflight hne]
      exact h

variable [Zero Cost]

theorem WellFormed.apply {t : UsageTracker Cost} (h : t.WellFormed) (op : Op Cost) :
    (t.apply op).2.WellFormed := by
  cases op with
  | seedZeroBaseline s =>
    change (t.seedZeroBaseline s).WellFormed
    unfold seedZeroBaseline
    cases t.sessions.lookup s <;> exact h
  | beginTurn s => intro r hr; cases hr
  | record s payload => exact h.record s payload
  | take =>
    change t.take.2.WellFormed
    cases hpending : t.pending with
    | none => rw [take_none t hpending]; intro r hr; cases hr
    | some pending => rw [take_some t hpending]; intro r hr; cases hr

theorem view_seedZeroBaseline (s s' : List Char) (t : UsageTracker Cost) :
    (t.seedZeroBaseline s').view s =
      ((t.view s).step s (Op.project s (.seedZeroBaseline s'))).2 := by
  unfold seedZeroBaseline Op.project
  by_cases hs : s' = s
  · subst hs
    cases hl : t.sessions.lookup s' <;> simp [view, Session.step, hl]
  · cases hl : t.sessions.lookup s' <;> simp [view, Session.step, hs, Ne.symm hs]

theorem view_beginTurn (s s' : List Char) (t : UsageTracker Cost) :
    (t.beginTurn s').view s = ((t.view s).step s (Op.project s (.beginTurn s'))).2 := by
  have hlookup := lookup_beginTurn t s s'
  by_cases hs : s' = s
  · subst hs
    rw [view_own rfl, hlookup]
    simp only [Op.project, if_true, Session.step]
    rfl
  · rw [view_foreign rfl hs, hlookup]
    simp only [Op.project, hs, if_false, Session.step]

theorem view_record (s s' : List Char) (payload : UsageUpdatePayload Cost)
    (t : UsageTracker Cost) :
    (t.record s' payload).view s = ((t.view s).step s (Op.project s (.record s' payload))).2 := by
  have hkeep := inFlightSession_record t s' payload
  by_cases hs : s' = s
  · subst hs
    simp only [Op.project, if_true]
    by_cases hin : t.inFlightSession = some s'
    · rw [view_own hin, view_own (hkeep.trans hin), record_own t s' payload hin]
      rfl
    · cases hflight : t.inFlightSession with
      | none =>
        rw [view_idle s' hflight, view_idle s' (hkeep.trans hflight),
          record_idle t s' payload hflight]
        simp [Session.step]
      | some s'' =>
        have hne : s'' ≠ s' := fun e => hin (e ▸ hflight)
        rw [view_foreign hflight hne, view_foreign (hkeep.trans hflight) hne,
          record_foreign t s' payload hflight hne]
        simp only [Session.step]
        split_ifs <;> simp
  · simp only [Op.project, hs, if_false, Session.step]
    have hs' : s ≠ s' := Ne.symm hs
    by_cases hin : t.inFlightSession = some s'
    · rw [view_foreign hin hs, view_foreign (hkeep.trans hin) hs, record_own t s' payload hin]
    · cases hflight : t.inFlightSession with
      | none =>
        rw [view_idle s hflight, view_idle s (hkeep.trans hflight),
          record_idle t s' payload hflight]
        simp [AList.lookup_insert_ne hs']
      | some s'' =>
        have hne : s'' ≠ s' := fun e => hin (e ▸ hflight)
        rw [record_foreign t s' payload hflight hne]
        simp only [view, hflight]
        split_ifs <;> simp [AList.lookup_insert_ne hs']

/-- A record of the tracker's turn is published by the session of that turn. -/
theorem take_view (s : List Char) {t : UsageTracker Cost} (h : t.WellFormed) :
    (t.take.1.filter fun r => r.sessionId = s, t.take.2.view s) = (t.view s).step s .take := by
  cases hpending : t.pending with
  | none =>
    rw [take_none t hpending, view_idle s rfl]
    cases hflight : t.inFlightSession with
    | none => rw [view_idle s hflight]; rfl
    | some s' =>
      by_cases hs : s' = s
      · subst hs
        rw [view_own hflight]
        simp [Session.step, Turn.result, hpending]
      · rw [view_foreign hflight hs]; rfl
  | some pending =>
    have hflight := h pending hpending
    rw [take_some t hpending, view_idle s rfl]
    by_cases hs : pending.sessionId = s
    · subst hs
      rw [view_own hflight]
      simp [Session.step, Turn.result, hpending]
    · rw [view_foreign hflight hs]
      simp [Session.step, hs, AList.lookup_insert_ne (Ne.symm hs)]

/-- A call acts on each session by what the call is to that session. -/
theorem apply_view (s : List Char) {t : UsageTracker Cost} (h : t.WellFormed) (op : Op Cost) :
    ((t.apply op).1.filter fun r => r.sessionId = s, (t.apply op).2.view s) =
      (t.view s).step s (op.project s) := by
  cases op with
  | seedZeroBaseline s' =>
    refine Prod.ext (Session.step_fst_eq_none s _ ?_).symm (view_seedZeroBaseline s s' t)
    exact Op.project_ne_take (by simp)
  | beginTurn s' =>
    refine Prod.ext (Session.step_fst_eq_none s _ ?_).symm (view_beginTurn s s' t)
    exact Op.project_ne_take (by simp)
  | record s' payload =>
    refine Prod.ext (Session.step_fst_eq_none s _ ?_).symm (view_record s s' payload t)
    exact Op.project_ne_take (by simp)
  | take => exact take_view s h

theorem wellFormed_run {t : UsageTracker Cost} (h : t.WellFormed) (ops : List (Op Cost)) :
    (t.run ops).WellFormed := by
  induction ops generalizing t with
  | nil => exact h
  | cons op ops ih => exact ih (h.apply op)

theorem run_view (s : List Char) {t : UsageTracker Cost} (h : t.WellFormed)
    (ops : List (Op Cost)) :
    (t.run ops).view s = (t.view s).run s (ops.map (Op.project s)) := by
  induction ops generalizing t with
  | nil => rfl
  | cons op ops ih =>
    have hstep : (t.apply op).2.view s = ((t.view s).step s (op.project s)).2 :=
      congrArg Prod.snd (apply_view s h op)
    refine (ih (h.apply op)).trans ?_
    rw [hstep]
    rfl

/-- The records published for a session are those of its machine on the projected calls. -/
theorem published_view (s : List Char) {t : UsageTracker Cost} (h : t.WellFormed)
    (ops : List (Op Cost)) :
    (t.published ops).filter (fun r => r.sessionId = s) =
      (t.view s).published s (ops.map (Op.project s)) := by
  induction ops generalizing t with
  | nil => rfl
  | cons op ops ih =>
    have hstep := apply_view s h op
    simp only [published, List.map_cons, Session.published, List.filter_append, ih (h.apply op)]
    rw [← hstep]
    congr 1
    cases (t.apply op).1 with
    | none => rfl
    | some r => by_cases hr : r.sessionId = s <;> simp [Option.filter, hr]

/-- Calls that a session cannot tell apart publish the same records for it. -/
theorem published_eq_of_project_eq (s : List Char) {t : UsageTracker Cost} (h : t.WellFormed)
    {ops ops' : List (Op Cost)} (hops : ops.map (Op.project s) = ops'.map (Op.project s)) :
    (t.published ops).filter (fun r => r.sessionId = s) =
      (t.published ops').filter (fun r => r.sessionId = s) := by
  rw [published_view s h, published_view s h, hops]

end Step

end UsageTracker

end Buzz.Acp.Usage
