import Mathlib.Data.List.Induction
import Buzz.Acp.Usage.Session

/-!
# Absent counters and turn numbers

A notification without the input or the output counter poisons its session. The poison is in the
committed state of the session or in the turn in flight, no call takes it out of both, and while it
is there no record of the session is reliable. Turn numbers count the published records of a
session, since the committed state keeps the last one and every pending record is one above it. The
identity of a record is folded over the notifications of its turn.

## Main definitions

* `TurnUsage.Unreliable`, `UsageUpdatePayload.Lacks`, `Session.Poisoned`, `Session.Numbered`.
* `SameBut`: calls that differ in what is reported for one session only.

## Main results

* `Session.Poisoned.step`, `Session.Numbered.step`: one call.
* `published_unreliable`, `turnSeq_published`, `map_project_sameBut`, `identity_of_take`.
* `absence_sticks`: the four together, for every run of a tracker.
-/

namespace Buzz.Acp.Usage

open Buzz.Library

variable {Cost : Type}

/-- A record without deltas of tokens and cost. -/
structure TurnUsage.Unreliable (r : TurnUsage Cost) : Prop where
  reliable : r.deltaReliable = false
  input : r.turnInputTokens = none
  output : r.turnOutputTokens = none
  cost : r.turnCostUsd = none

/-- The payload lacks a counter that deltas need. -/
def UsageUpdatePayload.Lacks (payload : UsageUpdatePayload Cost) : Prop :=
  payload.accumulatedInputTokens = none ∨ payload.accumulatedOutputTokens = none

namespace SessionState

/-- The number of the last published record; zero for a session that is not known. -/
def lastSeq (entry : Option (SessionState Cost)) : ℕ := (entry.map publishedSeq).getD 0

/-- The committed state is poisoned. -/
def Poisoned (entry : Option (SessionState Cost)) : Prop :=
  ∃ e, entry = some e ∧ (e.inputEverPoisoned || e.outputEverPoisoned) = true

theorem Poisoned.latch {entry : Option (SessionState Cost)} (h : Poisoned entry) (a b : Bool) :
    Poisoned (some (.latch entry a b)) := by
  obtain ⟨e, rfl, he⟩ := h
  refine ⟨_, rfl, ?_⟩
  simp only [SessionState.latch, Bool.or_eq_true] at he ⊢
  tauto

theorem poisoned_latch (entry : Option (SessionState Cost)) {a b : Bool} (h : (a || b) = true) :
    Poisoned (some (.latch entry a b)) := by
  refine ⟨_, rfl, ?_⟩
  simp only [Bool.or_eq_true] at h
  cases entry <;> simp only [SessionState.latch, Bool.or_eq_true] <;> tauto

theorem Poisoned.ofSetup {entry : Option (SessionState Cost)} (h : Poisoned entry)
    (payload : UsageUpdatePayload Cost) : Poisoned (some (.ofSetup entry payload)) := by
  obtain ⟨e, rfl, he⟩ := h
  refine ⟨_, rfl, ?_⟩
  simp only [SessionState.ofSetup, Option.any_some, Bool.or_eq_true] at he ⊢
  tauto

theorem poisoned_ofSetup (entry : Option (SessionState Cost)) {payload : UsageUpdatePayload Cost}
    (h : payload.Lacks) : Poisoned (some (.ofSetup entry payload)) := by
  refine ⟨_, rfl, ?_⟩
  rcases h with h | h <;> simp [SessionState.ofSetup, h]

theorem Poisoned.ofRecord {entry : Option (SessionState Cost)} (h : Poisoned entry) (a b : Bool)
    (r : TurnUsage Cost) : Poisoned (some (.ofRecord entry a b r)) := by
  obtain ⟨e, rfl, he⟩ := h
  refine ⟨_, rfl, ?_⟩
  simp only [SessionState.ofRecord, Option.any_some, Bool.or_eq_true] at he ⊢
  tauto

theorem poisoned_ofRecord (entry : Option (SessionState Cost)) {a b : Bool}
    (h : (a || b) = true) (r : TurnUsage Cost) : Poisoned (some (.ofRecord entry a b r)) := by
  refine ⟨_, rfl, ?_⟩
  simp only [SessionState.ofRecord, Bool.or_eq_true] at h ⊢
  tauto

@[simp] theorem lastSeq_latch (entry : Option (SessionState Cost)) (a b : Bool) :
    lastSeq (some (.latch entry a b)) = lastSeq entry := by
  cases entry <;> rfl

end SessionState

open SessionState (lastSeq)

/-! ### The delta of a notification -/

section Delta

variable [LE Cost] [DecidableLE Cost] [Sub Cost]

/-- A notification is one turn above the last published record. -/
theorem turnDelta_seq (entry : Option (SessionState Cost)) (a b : Bool)
    (payload : UsageUpdatePayload Cost) :
    (turnDelta entry a b payload).seq = lastSeq entry + 1 := by
  cases entry with
  | none => rfl
  | some e =>
    simp only [turnDelta]
    split_ifs
    · rfl
    · repeat' split
      all_goals rfl

/-- No delta is measured from a poisoned state, or in a turn that observed an absence. -/
theorem turnDelta_eq_unreliable {entry : Option (SessionState Cost)} {a b : Bool}
    (payload : UsageUpdatePayload Cost) (h : SessionState.Poisoned entry ∨ (a || b) = true) :
    turnDelta entry a b payload = .unreliable (lastSeq entry + 1) := by
  cases entry with
  | none => rfl
  | some e =>
    have hpoison : (e.inputEverPoisoned || a || payload.accumulatedInputTokens.isNone ||
        (e.outputEverPoisoned || b || payload.accumulatedOutputTokens.isNone)) = true := by
      rcases h with ⟨e', he, hp⟩ | hab
      · cases he
        simp only [Bool.or_eq_true] at hp ⊢
        tauto
      · simp only [Bool.or_eq_true] at hab ⊢
        tauto
    simp only [turnDelta]
    rw [if_pos hpoison]
    rfl

end Delta

/-! ### Poison -/

namespace Turn

/-- The turn in flight observed an absence, and has a record to publish. -/
structure Absent (turn : Turn Cost) : Prop where
  observed : (turn.inputAbsence || turn.outputAbsence) = true
  pending : turn.pending.isSome = true

end Turn

namespace Session

/-- The session is poisoned, in its committed state or in the turn in flight, and no record of it
is about to be published as reliable. -/
structure Poisoned (x : Session Cost) : Prop where
  poison : SessionState.Poisoned x.entry ∨ ∃ turn, x.phase = .own turn ∧ turn.Absent
  pending : ∀ turn, x.phase = .own turn → ∀ r, turn.pending = some r → r.Unreliable

theorem Poisoned.flush {x : Session Cost} (h : x.Poisoned) : SessionState.Poisoned x.flush := by
  unfold Session.flush
  rcases h.poison with hentry | ⟨turn, hphase, habs⟩
  · cases x.phase with
    | own turn => dsimp only; split_ifs; exacts [hentry.latch _ _, hentry]
    | idle => exact hentry
    | foreign => exact hentry
  · simp only [hphase, habs.observed, if_true]
    exact SessionState.poisoned_latch _ habs.observed

/-- A session whose committed state is poisoned, with no turn of its own in flight. -/
theorem Poisoned.of_entry {x : Session Cost} (h : SessionState.Poisoned x.entry)
    (hphase : ∀ turn, x.phase = .own turn → turn.pending = none) : x.Poisoned where
  poison := .inl h
  pending turn hturn r hr := by rw [hphase turn hturn] at hr; cases hr

variable [LE Cost] [DecidableLE Cost] [Sub Cost]

/-- The record of a turn is unreliable once the session is poisoned or the turn observed an
absence. -/
theorem poisoned_record (s : List Char) {entry : Option (SessionState Cost)} {turn : Turn Cost}
    {payload : UsageUpdatePayload Cost}
    (h : SessionState.Poisoned entry ∨ (turn.record s entry payload).Absent) :
    Poisoned ⟨entry, .own (turn.record s entry payload)⟩ where
  poison := h.imp_right fun habs => ⟨_, rfl, habs⟩
  pending := by
    rintro _ ⟨⟩ r ⟨⟩
    have hdelta := turnDelta_eq_unreliable payload (h.imp_right Turn.Absent.observed)
    constructor <;> simp only [TurnUsage.ofPayload, Turn.record] at hdelta ⊢ <;> rw [hdelta] <;> rfl

theorem absent_record (s : List Char) (entry : Option (SessionState Cost)) (turn : Turn Cost)
    (payload : UsageUpdatePayload Cost) (h : turn.Absent ∨ payload.Lacks) :
    (turn.record s entry payload).Absent := by
  refine ⟨?_, rfl⟩
  have h' := h.imp_left Turn.Absent.observed
  simp only [Turn.record, UsageUpdatePayload.Lacks, Bool.or_eq_true,
    Option.isNone_iff_eq_none] at h' ⊢
  tauto

variable [Zero Cost]

/-- No call heals a session, and a poisoned session publishes no delta. -/
theorem Poisoned.step {x : Session Cost} (h : x.Poisoned) (s : List Char)
    (op : SessionOp Cost) :
    (x.step s op).2.Poisoned ∧ ∀ r ∈ (x.step s op).1, r.Unreliable := by
  refine ⟨?_, ?_⟩
  · cases op with
    | seed =>
      refine ⟨h.poison.imp_left ?_, h.pending⟩
      rintro ⟨e, he, hp⟩
      exact ⟨e, by simp [Session.step, he], hp⟩
    | beginTurn => exact .of_entry h.flush (by rintro _ ⟨⟩; rfl)
    | beginOther => exact .of_entry h.flush (by rintro _ ⟨⟩)
    | record payload =>
      obtain ⟨entry, phase⟩ := x
      cases phase with
      | own turn =>
        refine poisoned_record s ?_
        rcases h.poison with hentry | ⟨turn', ⟨⟩, habs⟩
        · exact .inl hentry
        · exact .inr (absent_record s entry turn payload (.inl habs))
      | idle =>
        rcases h.poison with hentry | ⟨turn', ⟨⟩, -⟩
        exact .of_entry (hentry.ofSetup payload) (by rintro _ ⟨⟩)
      | foreign =>
        rcases h.poison with hentry | ⟨turn', ⟨⟩, -⟩
        simp only [Session.step]
        split_ifs
        · exact .of_entry (hentry.latch _ _) (by rintro _ ⟨⟩)
        · exact h
    | take =>
      obtain ⟨entry, phase⟩ := x
      cases phase with
      | own turn =>
        rcases h.poison with hentry | ⟨turn', ⟨⟩, habs⟩
        · cases hr : turn.result with
          | none => simpa only [Session.step, hr] using .of_entry hentry (by rintro _ ⟨⟩)
          | some r =>
            simpa only [Session.step, hr] using .of_entry (hentry.ofRecord _ _ r) (by rintro _ ⟨⟩)
        · obtain ⟨pending, hpending⟩ := Option.isSome_iff_exists.mp habs.pending
          simp only [Session.step, Turn.result, hpending, Option.map_some]
          exact .of_entry (SessionState.poisoned_ofRecord _ habs.observed _) (by rintro _ ⟨⟩)
      | idle =>
        rcases h.poison with hentry | ⟨turn', ⟨⟩, -⟩
        exact .of_entry hentry (by rintro _ ⟨⟩)
      | foreign =>
        rcases h.poison with hentry | ⟨turn', ⟨⟩, -⟩
        exact .of_entry hentry (by rintro _ ⟨⟩)
    | other => exact h
  · intro r hr
    by_cases hop : op = .take
    · subst hop
      obtain ⟨turn, pending, hphase, hpending, rfl⟩ := exists_pending_of_take hr
      exact ⟨(h.pending turn hphase pending hpending).reliable,
        (h.pending turn hphase pending hpending).input,
        (h.pending turn hphase pending hpending).output,
        (h.pending turn hphase pending hpending).cost⟩
    · rw [step_fst_eq_none s x hop] at hr
      cases hr

/-- A payload without a counter poisons the session, wherever it arrives. -/
theorem poisoned_of_lacks (s : List Char) {x : Session Cost} {payload : UsageUpdatePayload Cost}
    (h : payload.Lacks) : (x.step s (.record payload)).2.Poisoned := by
  obtain ⟨entry, phase⟩ := x
  cases phase with
  | own turn => exact poisoned_record s (.inr (absent_record s entry turn payload (.inr h)))
  | idle => exact .of_entry (SessionState.poisoned_ofSetup entry h) (by rintro _ ⟨⟩)
  | foreign =>
    have habs : (payload.accumulatedInputTokens.isNone ||
        payload.accumulatedOutputTokens.isNone) = true := by
      simpa [UsageUpdatePayload.Lacks] using h
    simp only [Session.step, habs, if_true]
    exact .of_entry (SessionState.poisoned_latch entry habs) (by rintro _ ⟨⟩)

theorem Poisoned.published {x : Session Cost} (h : x.Poisoned) (s : List Char)
    (ops : List (SessionOp Cost)) : ∀ r ∈ x.published s ops, r.Unreliable := by
  induction ops generalizing x with
  | nil => intro r hr; cases hr
  | cons op ops ih =>
    intro r hr
    rcases List.mem_append.mp hr with hr | hr
    · exact (h.step s op).2 r (Option.mem_toList.mp hr)
    · exact ih (h.step s op).1 r hr

/-! ### Turn numbers -/

/-- The committed state carries `n`, and a pending record is one above it. -/
structure Numbered (n : ℕ) (x : Session Cost) : Prop where
  entry : lastSeq x.entry = n
  pending : ∀ turn, x.phase = .own turn → ∀ r, turn.pending = some r → r.turnSeq = n + 1

omit [LE Cost] [DecidableLE Cost] [Sub Cost] [Zero Cost] in
theorem numbered_new : Numbered 0 (new : Session Cost) := ⟨rfl, by rintro _ ⟨⟩⟩

omit [LE Cost] [DecidableLE Cost] [Sub Cost] [Zero Cost] in
theorem lastSeq_flush (x : Session Cost) : lastSeq x.flush = lastSeq x.entry := by
  unfold Session.flush
  cases x.phase with
  | own turn => dsimp only; split_ifs; exacts [SessionState.lastSeq_latch _ _ _, rfl]
  | _ => rfl

/-- Only a published record moves the number of a session, by one. -/
theorem Numbered.step {n : ℕ} {x : Session Cost} (h : Numbered n x) (s : List Char)
    (op : SessionOp Cost) :
    ((x.step s op).1 = none ∧ Numbered n (x.step s op).2) ∨
      ∃ r, (x.step s op).1 = some r ∧ r.turnSeq = n + 1 ∧ Numbered (n + 1) (x.step s op).2 := by
  obtain ⟨entry, phase⟩ := x
  by_cases hop : op = .take
  · subst hop
    cases phase with
    | own turn =>
      cases hpending : turn.pending with
      | none =>
        refine .inl ⟨?_, ?_⟩ <;> simp only [Session.step, Turn.result, hpending, Option.map_none]
        exact ⟨h.entry, by rintro _ ⟨⟩⟩
      | some pending =>
        have hseq := h.pending turn rfl pending hpending
        refine .inr ⟨{ pending with pricingIdentity := turn.identity.join }, ?_, hseq, ?_⟩ <;>
          simp only [Session.step, Turn.result, hpending, Option.map_some]
        exact ⟨hseq, by rintro _ ⟨⟩⟩
    | idle => exact .inl ⟨rfl, h.entry, by rintro _ ⟨⟩⟩
    | foreign => exact .inl ⟨rfl, h.entry, by rintro _ ⟨⟩⟩
  · refine .inl ⟨step_fst_eq_none s _ hop, ?_⟩
    cases op with
    | take => exact absurd rfl hop
    | seed => exact ⟨by cases entry <;> exact h.entry, h.pending⟩
    | beginTurn => exact ⟨(lastSeq_flush _).trans h.entry, by rintro _ ⟨⟩ r ⟨⟩⟩
    | beginOther => exact ⟨(lastSeq_flush _).trans h.entry, by rintro _ ⟨⟩⟩
    | record payload =>
      cases phase with
      | own turn =>
        refine ⟨h.entry, ?_⟩
        rintro _ ⟨⟩ r ⟨⟩
        exact (turnDelta_seq entry _ _ payload).trans (congrArg (· + 1) h.entry)
      | idle => exact ⟨h.entry, by rintro _ ⟨⟩⟩
      | foreign =>
        simp only [Session.step]
        split_ifs
        · exact ⟨(SessionState.lastSeq_latch _ _ _).trans h.entry, by rintro _ ⟨⟩⟩
        · exact h
    | other => exact h

theorem Numbered.published {n : ℕ} {x : Session Cost} (h : Numbered n x) (s : List Char)
    (ops : List (SessionOp Cost)) :
    (x.published s ops).map TurnUsage.turnSeq =
      List.range' (n + 1) (x.published s ops).length := by
  induction ops generalizing n x with
  | nil => rfl
  | cons op ops ih =>
    rcases h.step s op with ⟨hnone, hnext⟩ | ⟨r, hsome, hseq, hnext⟩
    · simpa [Session.published, hnone] using ih hnext
    · simp [Session.published, hsome, hseq, ih hnext, List.range'_succ]

end Session

/-! ### The identity of a record -/

/-- Once an identity is folded, the fold keeps it as long as all agree with it. -/
theorem eq_of_foldIdentity_some {p : PricingIdentity} (i : Option PricingIdentity)
    {incoming : List (Option PricingIdentity)}
    (h : incoming.foldl foldIdentity (some i) = some (some p)) :
    i = some p ∧ ∀ j ∈ incoming, j = some p := by
  induction incoming generalizing i with
  | nil => exact ⟨Option.some.inj h, by simp⟩
  | cons j incoming ih =>
    obtain ⟨k, hk, hkeep⟩ :
        ∃ k, foldIdentity (some i) j = some k ∧ (k = some p → i = k ∧ j = k) := by
      cases i with
      | none => exact ⟨none, rfl, by rintro ⟨⟩⟩
      | some q =>
        by_cases hq : some q = j
        · exact ⟨j, by simp [foldIdentity, hq], fun _ => ⟨hq, rfl⟩⟩
        · exact ⟨none, by simp [foldIdentity, hq], by rintro ⟨⟩⟩
    rw [List.foldl_cons, hk] at h
    obtain ⟨rfl, hall⟩ := ih k h
    obtain ⟨rfl, rfl⟩ := hkeep rfl
    exact ⟨rfl, by simpa using hall⟩

/-- An identity that survives the fold was carried by every notification. -/
theorem eq_of_foldIdentity {p : PricingIdentity} {incoming : List (Option PricingIdentity)}
    (h : (incoming.foldl foldIdentity none).join = some p) : ∀ i ∈ incoming, i = some p := by
  cases incoming with
  | nil => simp
  | cons i rest =>
    obtain ⟨hi, hrest⟩ := eq_of_foldIdentity_some i (Option.join_eq_some_iff.mp h)
    exact List.forall_mem_cons.mpr ⟨hi, hrest⟩

/-- The identities reported for a session. -/
def identities (s : List Char) (ops : List (Op Cost)) : List (Option PricingIdentity) :=
  ops.filterMap fun
    | .record s' payload => if s' = s then some payload.pricingIdentity else none
    | _ => none

/-- Calls within one turn. -/
def Op.Within : Op Cost → Prop
  | .beginTurn _ | .take => False
  | _ => True

namespace UsageTracker

variable [LE Cost] [DecidableLE Cost] [Sub Cost] [Zero Cost]

theorem run_append (t : UsageTracker Cost) (ops ops' : List (Op Cost)) :
    t.run (ops ++ ops') = (t.run ops).run ops' :=
  List.foldl_append

omit [LE Cost] [DecidableLE Cost] [Sub Cost] in
theorem seedZeroBaseline_turn (t : UsageTracker Cost) (s : List Char) :
    (t.seedZeroBaseline s).inFlightSession = t.inFlightSession ∧
      (t.seedZeroBaseline s).pendingIdentity = t.pendingIdentity := by
  unfold seedZeroBaseline
  cases t.sessions.lookup s <;> exact ⟨rfl, rfl⟩

omit [Zero Cost] in
/-- Within the turn of a session, its own notifications only are folded. -/
theorem pendingIdentity_record {t : UsageTracker Cost} {s : List Char}
    (h : t.inFlightSession = some s) (s' : List Char) (payload : UsageUpdatePayload Cost) :
    (t.record s' payload).pendingIdentity =
      (identities s [.record s' payload]).foldl foldIdentity t.pendingIdentity := by
  by_cases hs : s' = s
  · subst hs
    rw [record_own t s' payload h]
    simp [identities]
  · rw [record_foreign t s' payload h (Ne.symm hs)]
    simp [identities, hs]

/-- The turn in flight, with the fold of the identities that it reported so far. -/
theorem exists_turn_of_inFlight {ops : List (Op Cost)} {s : List Char}
    (h : ((new : UsageTracker Cost).run ops).inFlightSession = some s) :
    ∃ before turn, ops = before ++ .beginTurn s :: turn ∧ (∀ op ∈ turn, op.Within) ∧
      ((new : UsageTracker Cost).run ops).pendingIdentity =
        (identities s turn).foldl foldIdentity none := by
  induction ops using List.reverseRecOn with
  | nil => cases h
  | append_singleton ops op ih =>
    rw [run_append] at h ⊢
    generalize (new : UsageTracker Cost).run ops = t at h ih ⊢
    change (t.apply op).2.inFlightSession = some s at h
    change ∃ before turn, _ ∧ _ ∧ (t.apply op).2.pendingIdentity = _
    -- a call within the turn of `s` extends that turn
    have hextend (hop : op.Within) (hflight : t.inFlightSession = some s)
        (hid : (t.apply op).2.pendingIdentity =
          (identities s [op]).foldl foldIdentity t.pendingIdentity) :
        ∃ before turn, ops ++ [op] = before ++ .beginTurn s :: turn ∧
          (∀ op ∈ turn, op.Within) ∧ (t.apply op).2.pendingIdentity =
            (identities s turn).foldl foldIdentity none := by
      obtain ⟨before, turn, rfl, hwithin, hturn⟩ := ih hflight
      refine ⟨before, turn ++ [op], by simp, ?_, ?_⟩
      · simpa [or_imp, forall_and] using ⟨hwithin, hop⟩
      · rw [hid, hturn, identities, identities, ← List.foldl_append, ← List.filterMap_append]
        rfl
    cases op with
    | seedZeroBaseline s' =>
      obtain ⟨hflight, hid⟩ := seedZeroBaseline_turn t s'
      exact hextend trivial (hflight.symm.trans h) hid
    | beginTurn s' =>
      cases h
      exact ⟨ops, [], rfl, by simp, rfl⟩
    | record s' payload =>
      have hflight := (inFlightSession_record t s' payload).symm.trans h
      exact hextend trivial hflight (pendingIdentity_record hflight s' payload)
    | take =>
      cases hpending : t.pending with
      | none =>
        change t.take.2.inFlightSession = some s at h
        rw [take_none t hpending] at h
        cases h
      | some pending =>
        change t.take.2.inFlightSession = some s at h
        rw [take_some t hpending] at h
        cases h

/-- A record carries an identity only if every notification of its turn carried that one. -/
theorem identity_of_take {ops : List (Op Cost)} {r : TurnUsage Cost}
    (h : ((new : UsageTracker Cost).run ops).take.1 = some r) :
    ∃ before turn, ops = before ++ .beginTurn r.sessionId :: turn ∧ (∀ op ∈ turn, op.Within) ∧
      ∀ p, r.pricingIdentity = some p → ∀ payload, .record r.sessionId payload ∈ turn →
        payload.pricingIdentity = some p := by
  have hwf : ((new : UsageTracker Cost).run ops).WellFormed := wellFormed_run wellFormed_new ops
  cases hpending : ((new : UsageTracker Cost).run ops).pending with
  | none => rw [take_none _ hpending] at h; cases h
  | some pending =>
    obtain ⟨before, turn, hops, hwithin, hid⟩ := exists_turn_of_inFlight (hwf pending hpending)
    rw [take_some _ hpending] at h
    cases h
    refine ⟨before, turn, hops, hwithin, fun p hp payload hmem => ?_⟩
    have hin : payload.pricingIdentity ∈ identities pending.sessionId turn :=
      List.mem_filterMap.mpr ⟨_, hmem, by simp⟩
    exact eq_of_foldIdentity (hid ▸ hp) _ hin

/-! ### Every run -/

/-- A session that reported a payload without a counter publishes no delta ever after. -/
theorem published_unreliable {t : UsageTracker Cost} (h : t.WellFormed) {s : List Char}
    {payload : UsageUpdatePayload Cost} (hlacks : payload.Lacks) (ops : List (Op Cost)) :
    ∀ r ∈ (t.record s payload).published ops, r.sessionId = s → r.Unreliable := by
  intro r hr hs
  have hview : ((t.record s payload).view s).Poisoned := by
    rw [view_record]
    simpa [Op.project] using Session.poisoned_of_lacks s hlacks
  refine hview.published s (ops.map (Op.project s)) r ?_
  rw [← published_view s (h.record s payload)]
  exact List.mem_filter.mpr ⟨hr, by simpa using hs⟩

/-- The records of a session are numbered from one on. -/
theorem turnSeq_published (s : List Char) (ops : List (Op Cost)) :
    (((new : UsageTracker Cost).published ops).filter fun r => r.sessionId = s).map
        TurnUsage.turnSeq =
      List.range' 1 (((new : UsageTracker Cost).published ops).filter
        fun r => r.sessionId = s).length := by
  rw [published_view s wellFormed_new]
  exact Session.numbered_new.published s _

end UsageTracker

/-- Two calls that differ at most in what is reported for a session. -/
def SameBut (s : List Char) (op op' : Op Cost) : Prop :=
  op = op' ∨ ∃ payload payload', op = .record s payload ∧ op' = .record s payload'

theorem map_project_sameBut {s s' : List Char} (hne : s' ≠ s) {ops ops' : List (Op Cost)}
    (h : List.Forall₂ (SameBut s) ops ops') :
    ops.map (Op.project s') = ops'.map (Op.project s') := by
  induction h with
  | nil => rfl
  | cons hop _ ih =>
    rcases hop with rfl | ⟨payload, payload', rfl, rfl⟩
    · rw [List.map_cons, List.map_cons, ih]
    · simp [ih, Op.project, Ne.symm hne]

variable [LE Cost] [DecidableLE Cost] [Sub Cost] [Zero Cost]

/-- For every run of a tracker and every session: once a payload of the session lacked a counter,
no later record of it has a delta; what is reported for the session never affects the records of
another one; its records are numbered 1, 2, 3, …; and a record has an identity only if every payload
reported for it in its turn carried that identity. -/
theorem absence_sticks (s : List Char) (ops : List (Op Cost)) :
    (∀ before payload after, ops = before ++ .record s payload :: after → payload.Lacks →
        ∀ r ∈ ((UsageTracker.new.run before).record s payload).published after,
          r.sessionId = s → r.Unreliable) ∧
      (∀ ops' s', List.Forall₂ (SameBut s) ops ops' → s' ≠ s →
        (UsageTracker.new.published ops).filter (fun r => r.sessionId = s') =
          (UsageTracker.new.published ops').filter fun r => r.sessionId = s') ∧
      ((UsageTracker.new.published ops).filter fun r => r.sessionId = s).map TurnUsage.turnSeq =
        List.range' 1 ((UsageTracker.new.published ops).filter fun r => r.sessionId = s).length ∧
      (∀ before after r, ops = before ++ .take :: after →
        (UsageTracker.new.run before).take.1 = some r →
        ∃ earlier turn, before = earlier ++ .beginTurn r.sessionId :: turn ∧
          (∀ op ∈ turn, op.Within) ∧
          ∀ p, r.pricingIdentity = some p → ∀ payload, .record r.sessionId payload ∈ turn →
            payload.pricingIdentity = some p) := by
  refine ⟨?_, ?_, UsageTracker.turnSeq_published s ops, ?_⟩
  · rintro before payload after rfl hlacks
    have hwf := UsageTracker.wellFormed_run UsageTracker.wellFormed_new before
    exact UsageTracker.published_unreliable hwf hlacks after
  · intro ops' s' hsame hne
    have hwf : (UsageTracker.new : UsageTracker Cost).WellFormed := UsageTracker.wellFormed_new
    exact UsageTracker.published_eq_of_project_eq s' hwf (map_project_sameBut hne hsame)
  · rintro before after r rfl htake
    exact UsageTracker.identity_of_take htake

end Buzz.Acp.Usage
