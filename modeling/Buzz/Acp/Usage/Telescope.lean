import Mathlib.Algebra.GroupWithZero.Nat
import Buzz.Acp.Usage.Session

/-!
# The deltas of a session telescope

The record of a turn is measured from the baseline, and taking it moves the baseline to what it
reports. The only other call that moves the baseline is a notification outside any turn, whose
growth is absorbed: it is in no record. So what the records of a session bill, and what was absorbed
between its turns, add up to the cumulative counter of its last record.

## Main definitions

* `Counter`: the input counter and the output counter.
* `Ledger`, `UsageTracker.ledger`: what a run absorbed between turns.
* `Reports`: the reports of a session that is seeded first and never decreases.

## Main results

* `Session.Balanced.step`, `Session.Balanced.run`: one call, and a run.
* `deltas_telescope`: bills and absorptions add up to the cumulative counter of each record.
* `between_turns_not_billed`: bills alone do not.
-/

namespace Buzz.Acp.Usage

open Buzz.Library

variable {Cost : Type}

/-! ### Counters and the ledger -/

/-- The counters that a delta is measured on. -/
inductive Counter
  | input
  | output

namespace Counter

def reported : Counter → UsageUpdatePayload Cost → Option ℕ
  | .input, payload => payload.accumulatedInputTokens
  | .output, payload => payload.accumulatedOutputTokens

def last : Counter → SessionState Cost → Option ℕ
  | .input, e => e.lastInput
  | .output, e => e.lastOutput

def turn : Counter → TurnUsage Cost → Option ℕ
  | .input, r => r.turnInputTokens
  | .output, r => r.turnOutputTokens

def cumulative : Counter → TurnUsage Cost → Option ℕ
  | .input, r => r.cumulativeInputTokens
  | .output, r => r.cumulativeOutputTokens

/-- What records bill. -/
def billed (c : Counter) (rs : List (TurnUsage Cost)) : ℕ :=
  (rs.map fun r => (c.turn r).getD 0).sum

@[simp] theorem billed_nil (c : Counter) : c.billed ([] : List (TurnUsage Cost)) = 0 := rfl

@[simp] theorem billed_append (c : Counter) (rs rs' : List (TurnUsage Cost)) :
    c.billed (rs ++ rs') = c.billed rs + c.billed rs' := by
  simp [billed]

end Counter

/-- What one report settled last, and what reports outside any turn added to what was settled. -/
structure Ledger where
  settled : Counter → ℕ
  absorbed : Counter → ℕ

def Ledger.zero : Ledger := ⟨fun _ => 0, fun _ => 0⟩

section Note

variable [LE Cost] [DecidableLE Cost] [Sub Cost] [Zero Cost]

/-- A report settles when its record is taken, or at once when it arrives outside any turn. -/
def Ledger.note (s : List Char) (l : Ledger) (x : Session Cost) (op : SessionOp Cost) : Ledger :=
  match op, x.phase with
  | .record payload, .idle =>
    { settled := fun c => (c.reported payload).getD 0
      absorbed := fun c => l.absorbed c + ((c.reported payload).getD 0 - l.settled c) }
  | .take, _ =>
    match (x.step s .take).1 with
    | some r => { l with settled := fun c => (c.cumulative r).getD 0 }
    | none => l
  | _, _ => l

/-- The ledger of a session after a sequence of calls. -/
def Session.ledger (s : List Char) (x : Session Cost) (l : Ledger) : List (SessionOp Cost) → Ledger
  | [] => l
  | op :: ops => (x.step s op).2.ledger s (l.note s x op) ops

/-- The ledger of a session of a new tracker. -/
def UsageTracker.ledger (s : List Char) (ops : List (Op Cost)) : Ledger :=
  (Session.new : Session Cost).ledger s .zero (ops.map (Op.project s))

end Note

/-! ### The reports of a session -/

/-- No counter, and no cost, decreases from one report to another. -/
structure NoDecrease [LE Cost] (payload payload' : UsageUpdatePayload Cost) : Prop where
  counter : ∀ c : Counter, ∀ a ∈ c.reported payload, ∀ b ∈ c.reported payload', a ≤ b
  cost : ∀ a ∈ payload.accumulatedCost, ∀ b ∈ payload'.accumulatedCost, a ≤ b

/-- The payloads recorded for a session. -/
def payloads (s : List Char) (ops : List (Op Cost)) : List (UsageUpdatePayload Cost) :=
  ops.filterMap fun
    | .record s' payload => if s' = s then some payload else none
    | _ => none

/-- The session is seeded before its first report; its reports have both counters, and neither a
counter nor a cost decreases. -/
structure Reports [LE Cost] [Zero Cost] (s : List Char) (ops : List (Op Cost)) : Prop where
  seeded : ∀ before payload after, ops = before ++ .record s payload :: after →
    .seedZeroBaseline s ∈ before
  present : ∀ payload ∈ payloads s ops, ∀ c : Counter, (c.reported payload).isSome = true
  ascending : (payloads s ops).Pairwise NoDecrease
  cost : ∀ payload ∈ payloads s ops, ∀ a ∈ payload.accumulatedCost, 0 ≤ a

/-- The reports to come are at or above a baseline. -/
def Above [LE Cost] (base : Counter → ℕ) (cost : Option Cost)
    (future : List (UsageUpdatePayload Cost)) : Prop :=
  ∀ payload ∈ future, (∀ c, ∃ v, c.reported payload = some v ∧ base c ≤ v) ∧
    ∀ a ∈ cost, ∀ b ∈ payload.accumulatedCost, a ≤ b

section Delta

variable [LE Cost] [DecidableLE Cost] [Sub Cost]

/-- A report at or above a baseline that is not poisoned gives a reliable delta. -/
theorem turnDelta_of_above {e : SessionState Cost} {base : Counter → ℕ}
    {payload : UsageUpdatePayload Cost} (hin : e.inputEverPoisoned = false)
    (hout : e.outputEverPoisoned = false) (hbase : ∀ c, Counter.last c e = some (base c))
    (habove : Above base e.lastCost [payload]) :
    ∃ ci co dc, payload.accumulatedInputTokens = some ci ∧ base .input ≤ ci ∧
      payload.accumulatedOutputTokens = some co ∧ base .output ≤ co ∧
      turnDelta (some e) false false payload =
        ⟨true, some (ci - base .input), some (co - base .output), dc, e.publishedSeq + 1⟩ := by
  obtain ⟨hcounter, hcost⟩ := habove payload (List.mem_singleton_self _)
  obtain ⟨ci, hci, hcile⟩ := hcounter .input
  obtain ⟨co, hco, hcole⟩ := hcounter .output
  have hpi : e.lastInput = some (base .input) := hbase .input
  have hpo : e.lastOutput = some (base .output) := hbase .output
  have hci' : payload.accumulatedInputTokens = some ci := hci
  have hco' : payload.accumulatedOutputTokens = some co := hco
  have hge : ¬ (ci < base .input ∨ co < base .output) := by omega
  cases hc : payload.accumulatedCost with
  | none =>
    refine ⟨ci, co, none, hci, hcile, hco, hcole, ?_⟩
    simp [turnDelta, hin, hout, hci', hco', hpi, hpo, hge, hc]
  | some b =>
    cases hp : e.lastCost with
    | none =>
      refine ⟨ci, co, none, hci, hcile, hco, hcole, ?_⟩
      simp [turnDelta, hin, hout, hci', hco', hpi, hpo, hge, hc, hp]
    | some a =>
      have hle : a ≤ b := hcost a hp b hc
      refine ⟨ci, co, some (b - a), hci, hcile, hco, hcole, ?_⟩
      simp [turnDelta, hin, hout, hci', hco', hpi, hpo, hge, hc, hp, hle]

end Delta

/-- A reliable record measured from a baseline, with the reports to come at or above it. -/
structure Measured [LE Cost] (base : Counter → ℕ) (future : List (UsageUpdatePayload Cost))
    (r : TurnUsage Cost) : Prop where
  reliable : r.deltaReliable = true
  cumulative : ∀ c : Counter, ∃ v, c.cumulative r = some v ∧ base c ≤ v ∧
    c.turn r = some (v - base c)
  above : Above (fun c => (c.cumulative r).getD 0) r.cumulativeCostUsd future

/-- The reports after one that no report decreases from. -/
theorem above_of_noDecrease [LE Cost] {base : Counter → ℕ} {cost : Option Cost}
    {payload : UsageUpdatePayload Cost} {future : List (UsageUpdatePayload Cost)}
    (habove : Above base cost (payload :: future))
    (hnext : ∀ payload' ∈ future, NoDecrease payload payload') :
    Above (fun c => (c.reported payload).getD 0) payload.accumulatedCost future := by
  intro payload' hmem
  refine ⟨fun c => ?_, (hnext payload' hmem).cost⟩
  obtain ⟨v, hv, -⟩ := (habove payload (by simp)).1 c
  obtain ⟨v', hv', -⟩ := (habove payload' (by simp [hmem])).1 c
  refine ⟨v', hv', ?_⟩
  simp only [hv, Option.getD_some]
  exact (hnext payload' hmem).counter c v hv v' hv'

theorem Above.tail [LE Cost] {base : Counter → ℕ} {cost : Option Cost}
    {payload : UsageUpdatePayload Cost} {future : List (UsageUpdatePayload Cost)}
    (h : Above base cost (payload :: future)) : Above base cost future :=
  fun payload' hmem => h payload' (List.mem_cons_of_mem _ hmem)

theorem Above.not_isNone [LE Cost] {base : Counter → ℕ} {cost : Option Cost}
    {payload : UsageUpdatePayload Cost} {future : List (UsageUpdatePayload Cost)}
    (h : Above base cost (payload :: future)) :
    payload.accumulatedInputTokens.isNone = false ∧
      payload.accumulatedOutputTokens.isNone = false := by
  obtain ⟨hcounter, -⟩ := h payload (by simp)
  obtain ⟨ci, hci, -⟩ := hcounter .input
  obtain ⟨co, hco, -⟩ := hcounter .output
  exact ⟨by rw [show payload.accumulatedInputTokens = some ci from hci]; rfl,
    by rw [show payload.accumulatedOutputTokens = some co from hco]; rfl⟩

/-- The identity of a record is no part of its measure. -/
theorem Measured.identity [LE Cost] {base : Counter → ℕ}
    {future : List (UsageUpdatePayload Cost)} {r : TurnUsage Cost} (h : Measured base future r)
    (p : Option PricingIdentity) : Measured base future { r with pricingIdentity := p } where
  reliable := h.reliable
  cumulative
    | .input => h.cumulative .input
    | .output => h.cumulative .output
  above := by
    intro payload hmem
    refine ⟨fun c => ?_, (h.above payload hmem).2⟩
    cases c
    · exact (h.above payload hmem).1 .input
    · exact (h.above payload hmem).1 .output

theorem measured_ofPayload [LE Cost] [DecidableLE Cost] [Sub Cost] (s : List Char)
    {e : SessionState Cost} {base : Counter → ℕ} {payload : UsageUpdatePayload Cost}
    {future : List (UsageUpdatePayload Cost)} (hin : e.inputEverPoisoned = false)
    (hout : e.outputEverPoisoned = false) (hbase : ∀ c, Counter.last c e = some (base c))
    (habove : Above base e.lastCost (payload :: future))
    (hnext : ∀ payload' ∈ future, NoDecrease payload payload') :
    Measured base future (.ofPayload (some e) false false s payload) := by
  have hone : Above base e.lastCost [payload] := fun p hp => habove p (by simp_all)
  obtain ⟨ci, co, dc, hci, hcile, hco, hcole, hdelta⟩ := turnDelta_of_above hin hout hbase hone
  refine ⟨?_, fun c => ?_, ?_⟩
  · simp only [TurnUsage.ofPayload, hdelta]
  · cases c with
    | input => exact ⟨ci, hci, hcile, by simp only [Counter.turn, TurnUsage.ofPayload, hdelta]⟩
    | output => exact ⟨co, hco, hcole, by simp only [Counter.turn, TurnUsage.ofPayload, hdelta]⟩
  · have hcumulative : (fun c => (Counter.cumulative c (TurnUsage.ofPayload (some e) false false s
        payload)).getD 0) = fun c => (c.reported payload).getD 0 :=
      funext fun c => by cases c <;> rfl
    rw [hcumulative]
    exact above_of_noDecrease habove hnext

/-! ### The balance of a session -/

/-- The calls' reports. -/
def SessionOp.reports : SessionOp Cost → List (UsageUpdatePayload Cost)
  | .record payload => [payload]
  | _ => []

namespace Session

/-- What was billed and what was absorbed add up to what is settled, which is the baseline; a
pending record is measured from it; and the reports to come are at or above it. -/
structure Balanced [LE Cost] (total : Counter → ℕ) (l : Ledger)
    (future : List (UsageUpdatePayload Cost)) (x : Session Cost) : Prop where
  entry : ∃ e, x.entry = some e ∧ e.inputEverPoisoned = false ∧ e.outputEverPoisoned = false ∧
    (∀ c, Counter.last c e = some (l.settled c)) ∧ Above l.settled e.lastCost future
  balance : ∀ c, total c + l.absorbed c = l.settled c
  turn : ∀ turn, x.phase = .own turn → turn.inputAbsence = false ∧ turn.outputAbsence = false ∧
    ∀ r, turn.pending = some r → Measured l.settled future r
  ascending : future.Pairwise NoDecrease

section

variable [LE Cost] {total : Counter → ℕ} {l : Ledger} {future : List (UsageUpdatePayload Cost)}
  {x : Session Cost}

/-- Nothing is latched while every report has both counters. -/
theorem Balanced.flush_eq (h : Balanced total l future x) : x.flush = x.entry := by
  unfold Session.flush
  cases hphase : x.phase with
  | own turn =>
    obtain ⟨hin, hout, -⟩ := h.turn turn hphase
    simp [hin, hout]
  | _ => rfl

/-- A session stays in balance when only the turn in flight changes, to one without a record. -/
theorem Balanced.rephase (h : Balanced total l future x) {phase : Phase Cost}
    (hphase : ∀ turn, phase = .own turn → turn = .fresh) :
    Balanced total l future ⟨x.entry, phase⟩ where
  entry := h.entry
  balance := h.balance
  turn := by
    rintro turn hturn
    obtain rfl := hphase turn hturn
    exact ⟨rfl, rfl, by rintro r ⟨⟩⟩
  ascending := h.ascending

end

variable [LE Cost] {total : Counter → ℕ} {l : Ledger}
  {payload : UsageUpdatePayload Cost} {future : List (UsageUpdatePayload Cost)}

/-- A report outside any turn is absorbed. -/
theorem Balanced.record_idle {entry : Option (SessionState Cost)}
    (h : Balanced total l (payload :: future) ⟨entry, .idle⟩) :
    Balanced total
      ⟨fun c => (c.reported payload).getD 0,
        fun c => l.absorbed c + ((c.reported payload).getD 0 - l.settled c)⟩ future
      ⟨some (.ofSetup entry payload), .idle⟩ := by
  obtain ⟨e, rfl, hin, hout, hlast, habove⟩ := h.entry
  obtain ⟨hip, hop⟩ := habove.not_isNone
  obtain ⟨hnext, hasc⟩ := List.pairwise_cons.mp h.ascending
  refine ⟨⟨_, rfl, ?_, ?_, fun c => ?_, above_of_noDecrease habove hnext⟩, fun c => ?_,
    by rintro _ ⟨⟩, hasc⟩
  · simp [SessionState.ofSetup, hin, hip]
  · simp [SessionState.ofSetup, hout, hop]
  · obtain ⟨v, hv, -⟩ := (habove payload (by simp)).1 c
    simp only [hv, Option.getD_some]
    cases c <;> exact hv
  · obtain ⟨v, hv, hle⟩ := (habove payload (by simp)).1 c
    have := h.balance c
    simp only [hv, Option.getD_some]
    omega

/-- Taking a record bills what it was measured at, and settles it. -/
theorem Balanced.take_own {entry : Option (SessionState Cost)} {turn : Turn Cost}
    {r : TurnUsage Cost} (h : Balanced total l future ⟨entry, .own turn⟩)
    (hmeasured : Measured l.settled future r) :
    Balanced (fun c => total c + (c.turn r).getD 0)
      { l with settled := fun c => (c.cumulative r).getD 0 } future
      ⟨some (.ofRecord entry turn.inputAbsence turn.outputAbsence r), .idle⟩ := by
  obtain ⟨e, rfl, hin, hout, hlast, -⟩ := h.entry
  obtain ⟨hia, hoa, -⟩ := h.turn turn rfl
  refine ⟨⟨_, rfl, ?_, ?_, fun c => ?_, hmeasured.above⟩, fun c => ?_, by rintro _ ⟨⟩,
    h.ascending⟩
  · obtain ⟨v, hv, -⟩ := hmeasured.cumulative .input
    have hv' : r.cumulativeInputTokens = some v := hv
    simp [SessionState.ofRecord, hin, hia, hv']
  · obtain ⟨v, hv, -⟩ := hmeasured.cumulative .output
    have hv' : r.cumulativeOutputTokens = some v := hv
    simp [SessionState.ofRecord, hout, hoa, hv']
  · obtain ⟨v, hv, -⟩ := hmeasured.cumulative c
    simp only [hv, Option.getD_some]
    cases c <;> exact hv
  · obtain ⟨v, hv, hle, hturn⟩ := hmeasured.cumulative c
    have := h.balance c
    simp only [hv, hturn, Option.getD_some]
    omega

variable [DecidableLE Cost] [Sub Cost]

/-- A report of the session in flight is measured from the baseline. -/
theorem Balanced.record_own {entry : Option (SessionState Cost)} {turn : Turn Cost}
    (h : Balanced total l (payload :: future) ⟨entry, .own turn⟩) (s : List Char) :
    Balanced total l future ⟨entry, .own (turn.record s entry payload)⟩ := by
  obtain ⟨e, rfl, hin, hout, hlast, habove⟩ := h.entry
  obtain ⟨hia, hoa, -⟩ := h.turn turn rfl
  obtain ⟨hip, hop⟩ := habove.not_isNone
  obtain ⟨hnext, hasc⟩ := List.pairwise_cons.mp h.ascending
  refine ⟨⟨e, rfl, hin, hout, hlast, habove.tail⟩, h.balance, ?_, hasc⟩
  rintro _ ⟨⟩
  simp only [Turn.record, hia, hoa, hip, hop, Bool.or_false, true_and]
  rintro r ⟨⟩
  exact measured_ofPayload s hin hout hlast habove hnext

variable [Zero Cost] {x : Session Cost}

/-- One call keeps the balance, and publishes a reliable record that is settled. -/
theorem Balanced.step (s : List Char) (op : SessionOp Cost)
    (h : Balanced total l (op.reports ++ future) x) :
    Balanced (fun c => total c + c.billed (x.step s op).1.toList) (l.note s x op) future
        (x.step s op).2 ∧
      ∀ r ∈ (x.step s op).1, r.deltaReliable = true ∧
        ∀ c, Counter.cumulative c r = some ((l.note s x op).settled c) := by
  by_cases hop : op = .take
  · subst hop
    obtain ⟨entry, phase⟩ := x
    change Balanced total l future _ at h
    cases phase with
    | own turn =>
      cases hpending : turn.pending with
      | none =>
        simp only [Session.step, Turn.result, Ledger.note, hpending, Option.map_none]
        exact ⟨h.rephase (by rintro _ ⟨⟩), by rintro r ⟨⟩⟩
      | some r =>
        have hmeasured := ((h.turn turn rfl).2.2 r hpending).identity turn.identity.join
        simp only [Session.step, Turn.result, Ledger.note, hpending, Option.map_some]
        refine ⟨?_, ?_⟩
        · simpa [Counter.billed] using h.take_own hmeasured
        · rintro _ ⟨⟩
          refine ⟨hmeasured.reliable, fun c => ?_⟩
          obtain ⟨v, hv, -⟩ := hmeasured.cumulative c
          simp only [hv, Option.getD_some]
    | idle => exact ⟨h.rephase (by rintro _ ⟨⟩), by rintro r ⟨⟩⟩
    | foreign => exact ⟨h.rephase (by rintro _ ⟨⟩), by rintro r ⟨⟩⟩
  · have hquiet := step_fst_eq_none s x hop
    refine ⟨?_, by rw [hquiet]; rintro r ⟨⟩⟩
    simp only [hquiet, Option.toList_none, Counter.billed_nil, Nat.add_zero]
    cases op with
    | take => exact absurd rfl hop
    | seed =>
      obtain ⟨e, he, -⟩ := h.entry
      have hx : (x.step s .seed).2 = x := by
        obtain ⟨entry, phase⟩ := x
        cases he
        rfl
      rw [hx]
      exact h
    | beginTurn =>
      simp only [Session.step, h.flush_eq]
      exact h.rephase (by rintro _ ⟨⟩; rfl)
    | beginOther =>
      simp only [Session.step, h.flush_eq]
      exact h.rephase (by rintro _ ⟨⟩)
    | record payload =>
      obtain ⟨entry, phase⟩ := x
      cases phase with
      | own turn => exact h.record_own s
      | idle => exact h.record_idle
      | foreign =>
        obtain ⟨e, he, hin, hout, hlast, habove⟩ := h.entry
        obtain ⟨hip, hop⟩ := habove.not_isNone
        simp only [Session.step, Ledger.note, hip, hop, Bool.or_self, Bool.false_eq_true, if_false]
        exact ⟨⟨e, he, hin, hout, hlast, habove.tail⟩, h.balance, by rintro _ ⟨⟩,
          (List.pairwise_cons.mp h.ascending).2⟩
    | other => exact h

/-- A run keeps the balance, and its records are reliable. -/
theorem Balanced.run (s : List Char) (ops : List (SessionOp Cost))
    (h : Balanced total l (ops.flatMap SessionOp.reports ++ future) x) :
    Balanced (fun c => total c + c.billed (x.published s ops)) (x.ledger s l ops) future
        (x.run s ops) ∧
      ∀ r ∈ x.published s ops, r.deltaReliable = true := by
  induction ops generalizing total l x with
  | nil => exact ⟨h, fun r hr => by cases hr⟩
  | cons op ops ih =>
    rw [List.flatMap_cons, List.append_assoc] at h
    obtain ⟨hnext, hr⟩ := h.step s op
    obtain ⟨hrun, hrest⟩ := ih hnext
    refine ⟨?_, fun r hmem => ?_⟩
    · simp only [Session.published, Counter.billed_append, ← Nat.add_assoc]
      exact hrun
    · rcases List.mem_append.mp hmem with hmem | hmem
      · exact (hr r (Option.mem_toList.mp hmem)).1
      · exact hrest r hmem

/-- A session before its seed and its reports. -/
structure Unseen (x : Session Cost) : Prop where
  entry : x.entry = none
  turn : ∀ turn, x.phase = .own turn → turn = .fresh

theorem Unseen.step {x : Session Cost} (h : x.Unseen) (s : List Char) (l : Ledger)
    (op : SessionOp Cost) (hseed : op ≠ .seed) (hreports : op.reports = []) :
    (x.step s op).2.Unseen ∧ (x.step s op).1 = none ∧ l.note s x op = l := by
  obtain ⟨entry, phase⟩ := x
  obtain rfl : entry = none := h.entry
  have hflush : (⟨none, phase⟩ : Session Cost).flush = none := by
    cases phase with
    | own turn =>
      obtain rfl := h.turn turn rfl
      rfl
    | _ => rfl
  cases op with
  | seed => exact absurd rfl hseed
  | beginTurn => exact ⟨⟨hflush, by rintro _ ⟨⟩; rfl⟩, rfl, rfl⟩
  | beginOther => exact ⟨⟨hflush, by rintro _ ⟨⟩⟩, rfl, rfl⟩
  | record payload => cases hreports
  | take =>
    cases phase with
    | own turn =>
      obtain rfl := h.turn turn rfl
      exact ⟨⟨rfl, by rintro _ ⟨⟩⟩, rfl, rfl⟩
    | _ => exact ⟨⟨rfl, by rintro _ ⟨⟩⟩, rfl, rfl⟩
  | other => exact ⟨h, rfl, rfl⟩

theorem Unseen.run {x : Session Cost} (h : x.Unseen) (s : List Char) (l : Ledger)
    {ops : List (SessionOp Cost)} (hops : ∀ op ∈ ops, op ≠ .seed ∧ op.reports = []) :
    (x.run s ops).Unseen ∧ x.published s ops = [] ∧ x.ledger s l ops = l := by
  induction ops generalizing x with
  | nil => exact ⟨h, rfl, rfl⟩
  | cons op ops ih =>
    obtain ⟨hop, hrest⟩ := List.forall_mem_cons.mp hops
    obtain ⟨hnext, hnone, hnote⟩ := h.step s l op hop.1 hop.2
    obtain ⟨hrun, hpub, hledger⟩ := ih hnext hrest
    refine ⟨hrun, ?_, ?_⟩
    · simp [Session.published, hnone, hpub]
    · simp only [Session.ledger, hnote, hledger]

/-- The seed of a session is its first balance. -/
theorem Unseen.seed {x : Session Cost} (h : x.Unseen) (s : List Char)
    {future : List (UsageUpdatePayload Cost)} (habove : Above (fun _ => 0) (some 0) future)
    (hasc : future.Pairwise NoDecrease) :
    Balanced (fun _ => 0) .zero future (x.step s .seed).2 := by
  obtain ⟨entry, phase⟩ := x
  obtain rfl : entry = none := h.entry
  refine ⟨⟨.zeroBaseline, rfl, rfl, rfl, fun c => by cases c <;> rfl, habove⟩, fun c => rfl, ?_,
    hasc⟩
  intro turn hturn
  obtain rfl := h.turn turn hturn
  exact ⟨rfl, rfl, by rintro r ⟨⟩⟩

theorem run_append (s : List Char) (x : Session Cost) (ops ops' : List (SessionOp Cost)) :
    x.run s (ops ++ ops') = (x.run s ops).run s ops' :=
  List.foldl_append

theorem published_append (s : List Char) (x : Session Cost) (ops ops' : List (SessionOp Cost)) :
    x.published s (ops ++ ops') = x.published s ops ++ (x.run s ops).published s ops' := by
  induction ops generalizing x with
  | nil => rfl
  | cons op ops ih =>
    simp only [List.cons_append, Session.published, ih, List.append_assoc]
    rfl

theorem ledger_append (s : List Char) (x : Session Cost) (l : Ledger)
    (ops ops' : List (SessionOp Cost)) :
    x.ledger s l (ops ++ ops') = (x.run s ops).ledger s (x.ledger s l ops) ops' := by
  induction ops generalizing x l with
  | nil => rfl
  | cons op ops ih => exact ih _ _

end Session

/-! ### Runs of the tracker -/

section Runs

variable [LE Cost] [DecidableLE Cost] [Sub Cost] [Zero Cost] {s : List Char}

omit [LE Cost] [DecidableLE Cost] [Sub Cost] [Zero Cost] in
theorem reports_project (ops : List (Op Cost)) :
    (ops.map (Op.project s)).flatMap SessionOp.reports = payloads s ops := by
  induction ops with
  | nil => rfl
  | cons op ops ih =>
    rw [List.map_cons, List.flatMap_cons, ih]
    cases op with
    | record s' payload =>
      by_cases hs : s' = s <;> simp [payloads, Op.project, SessionOp.reports, hs]
    | seedZeroBaseline s' =>
      by_cases hs : s' = s <;> simp [payloads, Op.project, SessionOp.reports, hs]
    | beginTurn s' =>
      by_cases hs : s' = s <;> simp [payloads, Op.project, SessionOp.reports, hs]
    | take => rfl

omit [DecidableLE Cost] [Sub Cost] in
/-- Before its seed nothing is reported for a session. -/
theorem Reports.quiet {setup rest : List (Op Cost)} (h : Reports s (setup ++ rest))
    (hseed : .seedZeroBaseline s ∉ setup) :
    ∀ op ∈ setup.map (Op.project s), op ≠ .seed ∧ op.reports = [] := by
  intro op hmem
  obtain ⟨o, ho, rfl⟩ := List.mem_map.mp hmem
  cases o with
  | seedZeroBaseline s' =>
    have hs : s' ≠ s := by rintro rfl; exact hseed ho
    simp [Op.project, hs, SessionOp.reports]
  | beginTurn s' => by_cases hs : s' = s <;> simp [Op.project, hs, SessionOp.reports]
  | record s' payload =>
    have hs : s' ≠ s := by
      rintro rfl
      obtain ⟨before, after, rfl⟩ := List.append_of_mem ho
      exact hseed (List.mem_append_left _ (h.seeded before payload (after ++ rest) (by simp)))
    simp [Op.project, hs, SessionOp.reports]
  | take => simp [Op.project, SessionOp.reports]

/-- The run of a session, up to any point, is one before its seed or one in balance. -/
theorem Reports.unseen_or_balanced {before after : List (Op Cost)}
    (h : Reports s (before ++ after)) :
    ((Session.new.run s (before.map (Op.project s))).Unseen ∧
        (Session.new : Session Cost).published s (before.map (Op.project s)) = []) ∨
      (Session.Balanced
          (fun c => c.billed ((Session.new : Session Cost).published s (before.map (Op.project s))))
          (UsageTracker.ledger s before) (payloads s after)
          (Session.new.run s (before.map (Op.project s))) ∧
        ∀ r ∈ (Session.new : Session Cost).published s (before.map (Op.project s)),
          r.deltaReliable = true) := by
  have hnew : (Session.new : Session Cost).Unseen := ⟨rfl, by rintro _ ⟨⟩⟩
  by_cases hmem : (.seedZeroBaseline s : Op Cost) ∈ before
  · obtain ⟨setup, rest, rfl, hnot⟩ := List.eq_append_cons_of_mem hmem
    have hpayloads : payloads s (setup ++ .seedZeroBaseline s :: rest ++ after) =
        payloads s setup ++ (payloads s rest ++ payloads s after) := by
      simp [payloads]
    have hsplit : Reports s (setup ++ (.seedZeroBaseline s :: rest ++ after)) := by simpa using h
    have hquiet := hsplit.quiet hnot
    obtain ⟨hunseen, hnone, hledger⟩ := hnew.run s .zero hquiet
    have hasc := h.ascending
    have hpresent := h.present
    have hcost := h.cost
    rw [hpayloads] at hasc hpresent hcost
    have habove : Above (fun _ => 0) (some (0 : Cost)) (payloads s rest ++ payloads s after) := by
      intro payload hp
      refine ⟨fun c => ?_, ?_⟩
      · have hsome := hpresent payload (List.mem_append_right _ hp) c
        obtain ⟨v, hv⟩ := Option.isSome_iff_exists.mp hsome
        exact ⟨v, hv, Nat.zero_le v⟩
      · rintro _ ⟨⟩ b hb
        exact hcost payload (List.mem_append_right _ hp) b hb
    have hseed := hunseen.seed s habove (List.pairwise_append.mp hasc).2.1
    rw [← reports_project rest] at hseed
    obtain ⟨hrun, hreliable⟩ := hseed.run s (rest.map (Op.project s))
    have hmap : (setup ++ .seedZeroBaseline s :: rest).map (Op.project s) =
        setup.map (Op.project s) ++ .seed :: rest.map (Op.project s) := by simp [Op.project]
    refine .inr ?_
    simp only [UsageTracker.ledger, hmap, Session.run_append, Session.published_append,
      Session.ledger_append, hnone, hledger, List.nil_append]
    simp only [Nat.zero_add] at hrun
    exact ⟨hrun, hreliable⟩
  · obtain ⟨hunseen, hnone, -⟩ := hnew.run s .zero (h.quiet hmem)
    exact .inl ⟨hunseen, hnone⟩

/-- Nothing is absorbed while every report of a session arrives during some turn. -/
theorem absorbed_of_inFlight {t : UsageTracker Cost} (hwf : t.WellFormed) (l : Ledger)
    {ops : List (Op Cost)}
    (h : ∀ before payload after, ops = before ++ .record s payload :: after →
      (t.run before).inFlightSession ≠ none) :
    ((t.view s).ledger s l (ops.map (Op.project s))).absorbed = l.absorbed := by
  induction ops generalizing t l with
  | nil => rfl
  | cons op ops ih =>
    have hview : (t.apply op).2.view s = ((t.view s).step s (op.project s)).2 :=
      congrArg Prod.snd (UsageTracker.apply_view s hwf op)
    have hnote : (l.note s (t.view s) (op.project s)).absorbed = l.absorbed := by
      cases op with
      | seedZeroBaseline s' => by_cases hs : s' = s <;> simp [Op.project, hs, Ledger.note]
      | beginTurn s' => by_cases hs : s' = s <;> simp [Op.project, hs, Ledger.note]
      | record s' payload =>
        by_cases hs : s' = s
        · subst hs
          have hflight : t.inFlightSession ≠ none := h [] payload ops rfl
          obtain ⟨s'', hs''⟩ := Option.ne_none_iff_exists'.mp hflight
          by_cases hown : s'' = s' <;>
            simp [Op.project, Ledger.note, UsageTracker.view, hs'', hown]
        · simp [Op.project, hs, Ledger.note]
      | take =>
        simp only [Op.project, Ledger.note]
        split <;> rfl
    refine Eq.trans ?_ ((ih (hwf.apply op) (l.note s (t.view s) (op.project s)) ?_).trans hnote)
    · rw [hview]
      rfl
    · rintro before payload after rfl
      exact h (op :: before) payload after rfl

/-- What the records of a session billed and what was absorbed add up to the last one. -/
theorem cumulative_eq {before after : List (Op Cost)} {r : TurnUsage Cost}
    (h : Reports s (before ++ .take :: after))
    (htake : (UsageTracker.new.run before).take.1 = some r) (hs : r.sessionId = s) (c : Counter) :
    c.cumulative r = some
      (c.billed ((UsageTracker.new.published (before ++ [.take])).filter
          fun r => r.sessionId = s) + (UsageTracker.ledger s before).absorbed c) := by
  have hwf : (UsageTracker.new : UsageTracker Cost).WellFormed := UsageTracker.wellFormed_new
  have htake' : ((Session.new.run s (before.map (Op.project s))).step s .take).1 = some r := by
    rw [← UsageTracker.view_new s, ← UsageTracker.run_view s hwf,
      ← UsageTracker.take_view s (UsageTracker.wellFormed_run hwf before), htake]
    simp [Option.filter, hs]
  rcases h.unseen_or_balanced with ⟨hunseen, -⟩ | ⟨hbalanced, -⟩
  · have hnone := (hunseen.step s .zero .take (by simp) rfl).2.1
    rw [htake'] at hnone
    cases hnone
  · obtain ⟨hnext, hr⟩ := hbalanced.step s .take
    rw [(hr r htake').2 c, ← hnext.balance c, UsageTracker.published_view s hwf, List.map_append,
      Session.published_append, Counter.billed_append]
    have habsorbed : ((UsageTracker.ledger s before).note s
        (Session.new.run s (before.map (Op.project s))) .take).absorbed =
          (UsageTracker.ledger s before).absorbed := by
      simp only [Ledger.note, htake']
    rw [habsorbed]
    simp only [List.map_cons, List.map_nil, Op.project, Session.published, List.append_nil]
    rfl

/-- For a session that is seeded first and reports both counters without a decrease, every record is
reliable; up to each record of it, what its records billed and what was absorbed outside any turn
add up to the cumulative counters of that record; and nothing is absorbed when all its reports
arrive during turns. -/
theorem deltas_telescope {ops : List (Op Cost)} (h : Reports s ops) :
    (∀ r ∈ UsageTracker.new.published ops, r.sessionId = s → r.deltaReliable = true) ∧
      ∀ before after r, ops = before ++ .take :: after →
        (UsageTracker.new.run before).take.1 = some r → r.sessionId = s →
        ∀ c : Counter,
          c.cumulative r = some
            (c.billed ((UsageTracker.new.published (before ++ [.take])).filter
                fun r => r.sessionId = s) + (UsageTracker.ledger s before).absorbed c) ∧
          ((∀ earlier payload later, before = earlier ++ .record s payload :: later →
              (UsageTracker.new.run earlier).inFlightSession ≠ none) →
            c.cumulative r = some (c.billed ((UsageTracker.new.published (before ++ [.take])).filter
              fun r => r.sessionId = s))) := by
  have hwf : (UsageTracker.new : UsageTracker Cost).WellFormed := UsageTracker.wellFormed_new
  refine ⟨fun r hmem hs => ?_, ?_⟩
  · have hrec : r ∈ (UsageTracker.new.published ops).filter fun r => r.sessionId = s :=
      List.mem_filter.mpr ⟨hmem, by simpa using hs⟩
    rw [UsageTracker.published_view s hwf] at hrec
    rw [← List.append_nil ops] at h
    rcases h.unseen_or_balanced with ⟨-, hnone⟩ | ⟨-, hreliable⟩
    · rw [UsageTracker.view_new, hnone] at hrec
      cases hrec
    · exact hreliable r hrec
  · rintro before after r rfl htake hs c
    have hcumulative := cumulative_eq h htake hs c
    refine ⟨hcumulative, fun hflight => ?_⟩
    have hzero : (UsageTracker.ledger s before).absorbed = Ledger.zero.absorbed :=
      absorbed_of_inFlight hwf .zero hflight
    rwa [hzero, show Ledger.zero.absorbed c = 0 from rfl, Nat.add_zero] at hcumulative

end Runs

/-- A payload that reports its two counters only. -/
def countersOnly (input output : ℕ) : UsageUpdatePayload ℕ :=
  ⟨some input, some output, none, none, none, none, none, none⟩

/-- A session that reports once in each of two turns. -/
def twoTurns : List (Op ℕ) :=
  [.seedZeroBaseline [], .beginTurn [], .record [] (countersOnly 5 1), .take, .beginTurn [],
    .record [] (countersOnly 9 2), .take]

/-- A session that reports once before its turn and once in it. -/
def betweenTurns : List (Op ℕ) :=
  [.seedZeroBaseline [], .record [] (countersOnly 5 1), .beginTurn [],
    .record [] (countersOnly 9 2), .take]

theorem noDecrease_countersOnly {i o i' o' : ℕ} (hi : i ≤ i') (ho : o ≤ o') :
    NoDecrease (countersOnly i o) (countersOnly i' o') where
  counter
    | .input => by rintro _ ⟨⟩ _ ⟨⟩; exact hi
    | .output => by rintro _ ⟨⟩ _ ⟨⟩; exact ho
  cost := by rintro _ ⟨⟩

/-- Two reports of counters that do not decrease, after the seed. -/
theorem reports_of_two {rest : List (Op ℕ)} {i o i' o' : ℕ} (hi : i ≤ i') (ho : o ≤ o')
    (hrest : payloads [] rest = [countersOnly i o, countersOnly i' o']) :
    Reports [] (.seedZeroBaseline [] :: rest) := by
  have hpayloads : payloads [] (.seedZeroBaseline [] :: rest) =
      [countersOnly i o, countersOnly i' o'] := hrest
  refine ⟨?_, ?_, ?_, ?_⟩
  · rintro before payload after heq
    cases before with
    | nil => cases heq
    | cons op before => obtain ⟨rfl, -⟩ := List.cons.inj heq; exact List.mem_cons_self
  · rw [hpayloads]
    simp only [List.forall_mem_cons]
    exact ⟨fun c => by cases c <;> rfl, fun c => by cases c <;> rfl, by simp⟩
  · rw [hpayloads]
    simpa using noDecrease_countersOnly hi ho
  · rw [hpayloads]
    simp [countersOnly]

theorem reports_twoTurns : Reports [] twoTurns := reports_of_two (by decide) (by decide) rfl

theorem deltas_telescope_twoTurns :
    Counter.input.billed ((UsageTracker.new.published twoTurns).filter fun r => r.sessionId = []) +
      (UsageTracker.ledger [] twoTurns.dropLast).absorbed .input = 9 :=
  (Option.some.inj ((deltas_telescope reports_twoTurns).2 twoTurns.dropLast [] _ rfl rfl rfl
    .input).1).symm

/-- What a session reports between its turns is in no record. -/
theorem between_turns_not_billed :
    ¬ ∀ (s : List Char) (ops : List (Op ℕ)), Reports s ops →
      ∀ r ∈ ((UsageTracker.new.published ops).filter fun r => r.sessionId = s).getLast?,
        ∀ c : Counter, c.cumulative r = some
          (c.billed ((UsageTracker.new.published ops).filter fun r => r.sessionId = s)) := by
  intro h
  have hreports : Reports [] betweenTurns := reports_of_two (by decide) (by decide) rfl
  have := h [] betweenTurns hreports _ rfl .input
  revert this
  decide

end Buzz.Acp.Usage
