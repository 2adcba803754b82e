import Buzz.Desktop.ReadState.Settled

/-!
# Destroying a manager

`destroy` of `readStateManager.ts`, and what is left of each task of a manager once it is destroyed.
A destroyed manager schedules nothing and merges nothing; `publish` looks at the flag once, after
it has fetched and merged its own blobs. `destroy` sets the flag before it calls `publish` to flush
the publish that the debounce timer was set for, so that this publish always returns where it looks
at the flag, and what was pending is published by nobody.

The publish that `destroy` calls is kept apart from the other publishes (`Session.flush`), with the
events that it has passed to `publishEvent` (`Session.flushed`). What `destroy` does to local
storage, to the listeners and to the live subscription is left out: no publish reads it.

## Main definitions

* `MergeTask.resumeDestroyed`, `ReadStateManager.resumePublishDestroyed`, `World.stepDestroyed`:
  what the guards `if (this.destroyed) return` leave.
* `Session`, `Session.destroy`, `Session.step`, `Session.Run`.
* `Session.SurvivesDestroy`: the pending publish reaches `publishEvent`.
* `Publish.Guarded`: a publish that has yet to look at the flag.

## Main results

* `Session.run_flushing`, `Session.run_sent`: nothing guarded is ever published.
* `Session.pending_publish_lost`, `mark_lost_by_destroy`.
-/

namespace Buzz.Desktop.ReadState

open Buzz.Library

/-! ### The tasks of a destroyed manager -/

/-- Resume a merge: it returns once an event has been parsed. The end of a loop, which is no await
of the source, looks at no flag. -/
def MergeTask.resumeDestroyed (t : MergeTask) (m : ReadStateManager) (freshSlotId : List Char) :
    ReadStateManager × Option MergeTask :=
  match t.pending with
  | _ :: _ => (m, none)
  | [] => t.resume m freshSlotId

/-- The relay answers the fetch of a publish with what it holds, in some order: `mergeEvents`
returns at once. -/
def Publish.answerDestroyed (relay : Relay) (events : List RelayEvent) :
    Publish → Option Publish
  | .fetching dTags => if events.Perm (dTags.filterMap relay.lookup) then some .merged else none
  | _ => none

/-- The relay takes what the publish has sent. -/
def Publish.accept (relay : Relay) : Publish → Option (Relay × Publish)
  | .sending slotId contexts slots event =>
    some (relay.put (slotDTag slotId) event, .sent slotId contexts slots event)
  | .deleteSending slotId createdAt slotIds contexts =>
    some (relay.delete (slotDTag slotId) createdAt, .deleteSent slotIds contexts)
  | _ => none

/-- Resume a publish: it returns once it has merged its own blobs. Past that point there is no
guard. -/
def ReadStateManager.resumePublishDestroyed (m : ReadStateManager) (p : Publish) (now id : ℕ)
    (slotIdGenerator : ℕ → List Char) : Option (ReadStateManager × Option Publish) :=
  match p with
  | .merging task =>
    match task.resumeDestroyed m (slotIdGenerator 0) with
    | (m', some task') => some (m', some (.merging task'))
    | (m', none) => some (m', some .merged)
  | .merged => some (m, none)
  | p => m.resumePublish p now id slotIdGenerator

/-- `markContextRead`: `advanceContext` returns at once, and the source of the context is set. -/
def ReadStateManager.markContextReadDestroyed (m : ReadStateManager) (contextId : List Char)
    (now : ℕ) : ReadStateManager :=
  { m with
    contextSourceCreatedAt :=
      m.contextSourceCreatedAt.set contextId (max now (m.maxFetchedCreatedAt + 1)) }

/-- One action of a destroyed manager; nothing when it cannot happen. -/
def World.stepDestroyed (w : World) : Action → Option World
  | .mark contextId _ now =>
    some { w with manager := w.manager.markContextReadDestroyed contextId now }
  | .seed .. | .receive _ | .merge _ => some w
  | .parsed k => do
    let _ ← w.incoming[k]?
    pure { w with incoming := w.incoming.eraseIdx k }
  | .resumeMerge k freshSlotId => do
    let task ← w.merges[k]?
    let (manager, task') := task.resumeDestroyed w.manager freshSlotId
    pure { w with manager, merges := update w.merges k task' }
  | .answer k events => do
    let p ← w.publishes[k]?
    let p' ← p.answerDestroyed w.relay events
    pure { w with publishes := w.publishes.set k p' }
  | .resume k now id slotIdGenerator => do
    let p ← w.publishes[k]?
    let (manager, p') ← w.manager.resumePublishDestroyed p now id slotIdGenerator
    pure { w with
      manager
      publishes := update w.publishes k p'
      sent := w.sent ++ Publish.signed p' }
  | .fire => w.step .fire
  | .accept k => w.step (.accept k)
  | .store dTag event => w.step (.store dTag event)

/-! ### Sessions -/

/-- Where the publish that `destroy` calls is. -/
inductive Flush where
  /-- `destroy` has called no publish. -/
  | notCalled
  /-- It is suspended. -/
  | suspended (p : Publish)
  /-- It has returned. -/
  | returned

/-- Where a publish is that has just been resumed. -/
def Flush.ofResumed : Option Publish → Flush
  | some p => .suspended p
  | none => .returned

/-- A manager with its flag, the publish that `destroy` has called, and the events that this publish
has passed to `publishEvent`. -/
structure Session where
  world : World
  destroyed : Bool
  flush : Flush
  flushed : List RelayEvent

/-- What may happen next in a session. -/
inductive SessionAction where
  /-- Something that does not concern the publish that `destroy` has called. -/
  | act (a : Action)
  /-- `destroy` is called. -/
  | destroy
  /-- The relay answers the fetch of the publish that `destroy` has called. -/
  | answerFlush (events : List RelayEvent)
  /-- That publish is resumed. -/
  | resumeFlush (now id : ℕ) (slotIdGenerator : ℕ → List Char)
  /-- The relay accepts what that publish has sent. -/
  | acceptFlush

namespace Session

/-- `destroy`: the flag is set first, and a pending publish is then flushed. -/
def destroy (s : Session) : Session :=
  if s.world.manager.debounceTimer then
    { world := { s.world with manager := { s.world.manager with debounceTimer := false } }
      destroyed := true
      flush := .suspended s.world.manager.startPublish
      flushed := [] }
  else { s with destroyed := true }

/-- One action of a session. The publish that `destroy` calls only runs in a destroyed manager. -/
def step (s : Session) : SessionAction → Option Session
  | .act a => do
    let world ← if s.destroyed then s.world.stepDestroyed a else s.world.step a
    pure { s with world }
  | .destroy => some s.destroy
  | .answerFlush events =>
    match s.flush with
    | .suspended p => do
      let p' ← p.answerDestroyed s.world.relay events
      pure { s with flush := .suspended p' }
    | _ => none
  | .resumeFlush now id slotIdGenerator =>
    match s.flush with
    | .suspended p => do
      let (manager, p') ← s.world.manager.resumePublishDestroyed p now id slotIdGenerator
      pure { s with
        world := { s.world with manager, sent := s.world.sent ++ Publish.signed p' }
        flush := .ofResumed p'
        flushed := s.flushed ++ Publish.signed p' }
    | _ => none
  | .acceptFlush =>
    match s.flush with
    | .suspended p => do
      let (relay, p') ← p.accept s.world.relay
      pure { s with world := { s.world with relay }, flush := .suspended p' }
    | _ => none

/-- A run of a session. -/
inductive Run : Session → List SessionAction → Session → Prop where
  | nil (s : Session) : Run s [] s
  | cons {s s' s'' : Session} {a : SessionAction} {acts : List SessionAction}
      (hstep : s.step a = some s') (hrun : Run s' acts s'') : Run s (a :: acts) s''

/-- The publish that is pending survives `destroy`: whatever else happens, once the publish that
`destroy` has called has returned, it has passed one event to `publishEvent`, which carries the
contexts for the primary slot. -/
def SurvivesDestroy (s : Session) (contexts : Record) : Prop :=
  ∀ acts s', Run s.destroy acts s' → s'.flush = .returned →
    ∃ event, s'.flushed = [event] ∧
      event.content = some ⟨s.world.manager.clientId, contexts⟩ ∧
      ["d".toList, slotDTag s.world.manager.slotId] ∈ event.tags

end Session

/-! ### Before the guard -/

/-- The publish has yet to look at the flag. -/
def Publish.Guarded : Publish → Prop
  | .fetching _ | .merging _ | .merged => True
  | _ => False

theorem Publish.guarded_answerDestroyed {relay : Relay} {events : List RelayEvent} {p p' : Publish}
    (h : p.answerDestroyed relay events = some p') : p'.Guarded := by
  cases p with
  | fetching dTags =>
    simp only [answerDestroyed, Option.ite_none_right_eq_some, Option.some.injEq] at h
    rw [← h.2]
    trivial
  | _ => cases h

/-- A guarded publish that is resumed publishes nothing, and it stays guarded or returns. -/
theorem ReadStateManager.guarded_resumePublishDestroyed {m m' : ReadStateManager} {p : Publish}
    {p' : Option Publish} {now id : ℕ} {slotIdGenerator : ℕ → List Char} (hp : p.Guarded)
    (h : m.resumePublishDestroyed p now id slotIdGenerator = some (m', p')) :
    (∀ q, p' = some q → q.Guarded) ∧ Publish.signed p' = [] := by
  cases p with
  | fetching dTags => cases h
  | merging task =>
    have hgoes : (∃ task', p' = some (.merging task')) ∨ p' = some .merged := by
      simp only [resumePublishDestroyed] at h
      split at h
      · exact .inl ⟨_, (Prod.mk.inj (Option.some.inj h)).2.symm⟩
      · exact .inr (Prod.mk.inj (Option.some.inj h)).2.symm
    rcases hgoes with ⟨task', rfl⟩ | rfl <;>
    · refine ⟨?_, rfl⟩
      rintro q ⟨⟩
      trivial
  | merged =>
    obtain ⟨-, rfl⟩ := Prod.mk.inj (Option.some.inj h)
    refine ⟨?_, rfl⟩
    rintro q ⟨⟩
  | _ => exact hp.elim

/-- A guarded publish sends nothing that the relay could take. -/
theorem Publish.accept_of_guarded {relay : Relay} {p : Publish} (hp : p.Guarded) :
    p.accept relay = none := by
  cases p with
  | fetching _ | merging _ | merged => rfl
  | _ => exact hp.elim

/-- The publish that `destroy` has called is guarded, and has published nothing. -/
structure Session.Flushing (s : Session) : Prop where
  destroyed : s.destroyed = true
  guarded : ∀ p, s.flush = .suspended p → p.Guarded
  flushed : s.flushed = []

/-- No publish whatever is past the guard. -/
structure Session.Silent (s : Session) : Prop where
  flushing : s.Flushing
  guarded : ∀ p ∈ s.world.publishes, p.Guarded

namespace Session

variable {s s' : Session}

theorem flushing_destroy (htimer : s.world.manager.debounceTimer = true) : s.destroy.Flushing := by
  rw [destroy, if_pos htimer]
  refine ⟨rfl, ?_, rfl⟩
  rintro p ⟨⟩
  trivial

/-- Calling `destroy` once more changes nothing for a publish that is being flushed, or flushes
anew. -/
theorem Flushing.destroy (h : s.Flushing) : s.destroy.Flushing := by
  by_cases htimer : s.world.manager.debounceTimer = true
  · exact flushing_destroy htimer
  · rw [Session.destroy, if_neg htimer]
    exact ⟨rfl, h.guarded, h.flushed⟩

-- The equations of `step` are made here once, not in each proof that unfolds it.
attribute [local simp] step in
/-- What an action does of which the publish that `destroy` has called has no part. -/
theorem step_act (h : s.Flushing) {a : Action} (hstep : s.step (.act a) = some s') :
    ∃ world, s.world.stepDestroyed a = some world ∧ s' = { s with world } := by
  rw [step, if_pos h.destroyed] at hstep
  simp only [Option.bind_eq_bind, Option.bind_eq_some_iff, Option.pure_def,
    Option.some.injEq] at hstep
  obtain ⟨world, hworld, rfl⟩ := hstep
  exact ⟨world, hworld, rfl⟩

theorem step_answerFlush {events : List RelayEvent}
    (hstep : s.step (.answerFlush events) = some s') :
    ∃ p', p'.Guarded ∧ s' = { s with flush := .suspended p' } := by
  simp only [step] at hstep
  split at hstep
  next p hflush =>
    simp only [Option.bind_eq_bind, Option.bind_eq_some_iff, Option.pure_def,
      Option.some.injEq] at hstep
    obtain ⟨p', hanswer, rfl⟩ := hstep
    exact ⟨p', Publish.guarded_answerDestroyed hanswer, rfl⟩
  next => cases hstep

/-- Resuming the publish that `destroy` has called publishes nothing while it is guarded. -/
theorem step_resumeFlush (h : s.Flushing) {now id : ℕ} {slotIdGenerator : ℕ → List Char}
    (hstep : s.step (.resumeFlush now id slotIdGenerator) = some s') :
    ∃ manager p', (∀ p, p' = some p → p.Guarded) ∧
      s' = { s with world := { s.world with manager }, flush := .ofResumed p' } := by
  simp only [step] at hstep
  split at hstep
  next p hflush =>
    simp only [Option.bind_eq_bind, Option.bind_eq_some_iff, Option.pure_def,
      Option.some.injEq] at hstep
    obtain ⟨⟨manager, p'⟩, hresume, rfl⟩ := hstep
    obtain ⟨hguarded, hsigned⟩ :=
      ReadStateManager.guarded_resumePublishDestroyed (h.guarded p hflush) hresume
    refine ⟨manager, p', hguarded, ?_⟩
    simp only [hsigned, List.append_nil]
  next => cases hstep

theorem step_acceptFlush (h : s.Flushing) : s.step .acceptFlush = none := by
  simp only [step]
  split
  next p hflush =>
    rw [Publish.accept_of_guarded (h.guarded p hflush)]
    rfl
  next => rfl

theorem guarded_ofResumed {p' : Option Publish} (h : ∀ p, p' = some p → p.Guarded) {p : Publish}
    (hp : Flush.ofResumed p' = .suspended p) : p.Guarded := by
  cases p' with
  | none => cases hp
  | some q =>
    obtain rfl := Flush.suspended.inj hp
    exact h q rfl

/-- One action keeps the publish that `destroy` has called guarded. -/
theorem Flushing.step (h : s.Flushing) {a : SessionAction} (hstep : s.step a = some s') :
    s'.Flushing := by
  cases a with
  | act a =>
    obtain ⟨world, -, rfl⟩ := step_act h hstep
    exact ⟨h.destroyed, h.guarded, h.flushed⟩
  | destroy =>
    obtain rfl := Option.some.inj hstep
    exact h.destroy
  | answerFlush events =>
    obtain ⟨p', hp', rfl⟩ := step_answerFlush hstep
    refine ⟨h.destroyed, ?_, h.flushed⟩
    rintro p ⟨⟩
    exact hp'
  | resumeFlush now id slotIdGenerator =>
    obtain ⟨manager, p', hp', rfl⟩ := step_resumeFlush h hstep
    exact ⟨h.destroyed, fun p hp => guarded_ofResumed hp' hp, h.flushed⟩
  | acceptFlush => rw [step_acceptFlush h] at hstep; cases hstep

/-- The publish that `destroy` has called never publishes anything. -/
theorem run_flushing (h : s.Flushing) {acts : List SessionAction} (hrun : Run s acts s') :
    s'.Flushing := by
  induction hrun with
  | nil s => exact h
  | cons hstep _ ih => exact ih (h.step hstep)

/-- The relay can answer the publish that `destroy` has called with what it holds. -/
theorem step_answerFlush_fetching {dTags : List (List Char)}
    (hflush : s.flush = .suspended (.fetching dTags)) :
    s.step (.answerFlush (dTags.filterMap s.world.relay.lookup)) =
      some { s with flush := .suspended .merged } := by
  simp [step, hflush, Publish.answerDestroyed]

/-- That publish returns where it looks at the flag. -/
theorem step_resumeFlush_merged (hflush : s.flush = .suspended .merged) :
    s.step (.resumeFlush 0 0 fun _ => []) = some { s with flush := .returned } := by
  simp [step, hflush, ReadStateManager.resumePublishDestroyed, Publish.signed, Flush.ofResumed]

/-- The awaits of that publish can resolve, and it has then returned. -/
theorem exists_run_returned (htimer : s.world.manager.debounceTimer = true) :
    ∃ acts s', Run s.destroy acts s' ∧ s'.flush = .returned := by
  have hflush : s.destroy.flush = .suspended s.world.manager.startPublish := by
    rw [Session.destroy, if_pos htimer]
  exact ⟨_, _, .cons (step_answerFlush_fetching hflush)
    (.cons (step_resumeFlush_merged rfl) (.nil _)), rfl⟩

/-! ### Nothing is published -/

/-- A world whose publishes are all guarded signs nothing. -/
theorem guarded_stepDestroyed {w w' : World} (h : ∀ p ∈ w.publishes, p.Guarded) {a : Action}
    (hstep : w.stepDestroyed a = some w') :
    (∀ p ∈ w'.publishes, p.Guarded) ∧ w'.sent = w.sent := by
  cases a with
  | mark | seed | receive | merge | store =>
    obtain rfl := Option.some.inj hstep
    exact ⟨h, rfl⟩
  | parsed k | resumeMerge k freshSlotId =>
    simp only [World.stepDestroyed, Option.bind_eq_bind, Option.bind_eq_some_iff, Option.pure_def,
      Option.some.injEq] at hstep
    obtain ⟨_, -, rfl⟩ := hstep
    exact ⟨h, rfl⟩
  | fire =>
    obtain ⟨-, rfl⟩ := World.step_fire hstep
    refine ⟨fun p hp => ?_, rfl⟩
    rcases List.mem_append.mp hp with hmem | hmem
    · exact h p hmem
    · rw [List.mem_singleton.mp hmem]
      trivial
  | answer k events =>
    simp only [World.stepDestroyed, Option.bind_eq_bind, Option.bind_eq_some_iff, Option.pure_def,
      Option.some.injEq] at hstep
    obtain ⟨p, -, p', hanswer, rfl⟩ := hstep
    refine ⟨fun q hq => ?_, rfl⟩
    rcases List.mem_or_eq_of_mem_set hq with hmem | rfl
    · exact h q hmem
    · exact Publish.guarded_answerDestroyed hanswer
  | resume k now id slotIdGenerator =>
    simp only [World.stepDestroyed, Option.bind_eq_bind, Option.bind_eq_some_iff, Option.pure_def,
      Option.some.injEq] at hstep
    obtain ⟨p, hk, ⟨m', p'⟩, hresume, rfl⟩ := hstep
    obtain ⟨hguarded, hsigned⟩ := ReadStateManager.guarded_resumePublishDestroyed
      (h p (List.mem_of_getElem? hk)) hresume
    refine ⟨fun q hq => ?_, by simp only [hsigned, List.append_nil]⟩
    rcases mem_update hq with hmem | heq
    · exact h q hmem
    · exact hguarded q heq
  | accept k =>
    have hguarded : ∀ p, w.publishes[k]? = some p → p.Guarded := fun p hk =>
      h p (List.mem_of_getElem? hk)
    rcases World.step_accept hstep with ⟨_, _, _, _, hk, -⟩ | ⟨_, _, _, _, hk, -⟩ <;>
      exact (hguarded _ hk).elim

theorem silent_destroy (htimer : s.world.manager.debounceTimer = true)
    (h : ∀ p ∈ s.world.publishes, p.Guarded) : s.destroy.Silent := by
  refine ⟨flushing_destroy htimer, ?_⟩
  rw [destroy, if_pos htimer]
  exact h

/-- One action of a session that is silent signs nothing. -/
theorem Silent.step (h : s.Silent) {a : SessionAction} (hstep : s.step a = some s') :
    s'.Silent ∧ s'.world.sent = s.world.sent := by
  have hflushing := h.flushing.step hstep
  cases a with
  | act a =>
    obtain ⟨world, hworld, rfl⟩ := step_act h.flushing hstep
    obtain ⟨hguarded, hsent⟩ := guarded_stepDestroyed h.guarded hworld
    exact ⟨⟨hflushing, hguarded⟩, hsent⟩
  | destroy =>
    obtain rfl := Option.some.inj hstep
    rw [Session.destroy] at hflushing ⊢
    split_ifs at hflushing ⊢ <;> exact ⟨⟨hflushing, h.guarded⟩, rfl⟩
  | answerFlush events =>
    obtain ⟨p', -, rfl⟩ := step_answerFlush hstep
    exact ⟨⟨hflushing, h.guarded⟩, rfl⟩
  | resumeFlush now id slotIdGenerator =>
    obtain ⟨manager, p', -, rfl⟩ := step_resumeFlush h.flushing hstep
    exact ⟨⟨hflushing, h.guarded⟩, rfl⟩
  | acceptFlush => rw [step_acceptFlush h.flushing] at hstep; cases hstep

/-- Once `destroy` is called while no publish is past the guard, the manager signs nothing any
more. -/
theorem run_sent (h : s.Silent) {acts : List SessionAction} (hrun : Run s acts s') :
    s'.world.sent = s.world.sent := by
  induction hrun with
  | nil s => rfl
  | cons hstep _ ih =>
    obtain ⟨hsilent, hsent⟩ := h.step hstep
    exact (ih hsilent).trans hsent

theorem flushed_of_run (htimer : s.world.manager.debounceTimer = true)
    {acts : List SessionAction} (hrun : Run s.destroy acts s') : s'.flushed = [] :=
  (run_flushing (flushing_destroy htimer) hrun).flushed

theorem not_survives (htimer : s.world.manager.debounceTimer = true) (contexts : Record) :
    ¬ s.SurvivesDestroy contexts := by
  intro hsurvives
  obtain ⟨acts, s', hrun, hreturned⟩ := exists_run_returned htimer
  obtain ⟨event, hflushed, -⟩ := hsurvives acts s' hrun hreturned
  rw [flushed_of_run htimer hrun] at hflushed
  cases hflushed

/-- No pending publish survives `destroy`: the publish that it calls can return, and has published
nothing whenever it has. Where every publish in progress has still to merge its own blobs, the
manager signs nothing after `destroy`. -/
theorem pending_publish_lost (s : Session) (contexts : Record)
    (htimer : s.world.manager.debounceTimer = true) :
    ¬ s.SurvivesDestroy contexts ∧
      ∀ acts s', Run s.destroy acts s' → s'.flushed = [] ∧
        ((∀ p ∈ s.world.publishes, p.Guarded) → s'.world.sent = s.world.sent) := by
  refine ⟨not_survives htimer contexts, fun acts s' hrun => ⟨flushed_of_run htimer hrun, ?_⟩⟩
  intro hguarded
  have hsent : s.destroy.world.sent = s.world.sent := by
    rw [destroy, if_pos htimer]
  exact (run_sent (silent_destroy htimer hguarded) hrun).trans hsent

end Session

/-! ### A mark that is lost -/

/-- A mark at 10 is still to be published. -/
def markedSession : Session where
  world := { emptyWorld with manager := emptyWorld.manager.markContextRead "a".toList 10 50 }
  destroyed := false
  flush := .notCalled
  flushed := []

theorem pending_publish_lost_marked :
    ¬ markedSession.SurvivesDestroy (HashMap.set ∅ "a".toList 10) ∧
      ∀ acts s', Session.Run markedSession.destroy acts s' → s'.flushed = [] ∧
        ((∀ p ∈ markedSession.world.publishes, p.Guarded) →
          s'.world.sent = markedSession.world.sent) :=
  markedSession.pending_publish_lost _ rfl

/-- Where the timer fires, the publish goes on to write the mark to the primary slot. Where the
manager is destroyed instead, the mark is lost. -/
theorem mark_lost_by_destroy :
    markedSession.world.manager.debounceTimer = true ∧
      (∃ w, Run (fun _ _ => True) markedSession.world (buildActions 0) w ∧
        w.publishes = [.encrypting "s".toList (HashMap.set ∅ "a".toList 10) []]) ∧
      ¬ markedSession.SurvivesDestroy (HashMap.set ∅ "a".toList 10) := by
  have hrun : Run (fun _ _ => True) markedSession.world (buildActions 0) _ :=
    .cons trivial rfl <| .cons trivial rfl <| .cons trivial rfl <| .cons trivial rfl <|
    .cons trivial rfl <| .nil _
  exact ⟨rfl, ⟨_, hrun, rfl⟩, Session.not_survives rfl _⟩

end Buzz.Desktop.ReadState
