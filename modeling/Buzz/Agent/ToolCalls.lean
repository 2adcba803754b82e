import Mathlib.Logic.Function.Basic
import Buzz.Agent.Run

/-!
# The updates of tool calls

`execute_calls` and `execute_parallel` of `agent.rs`, with the updates that go to the client. The
main task looks at the calls in order, spawns a task for each that is to run, and joins the tasks,
until the cancellation and then until a deadline; it aborts those that are left, and reports a
failure for every call that has no result. A task that is being polled while it is aborted goes on
to its next await.

An iteration of the preflight is one step: no task exists before it ends. Tasks take a permit in
any order, and end in any way. What is sent is sent at once.

## Main definitions

* `Update`, `Task`, `Act`: what is sent of a call, and what its task does.
* `Sys`, `Event`, `step`: the main task with the spawned ones.
* `Reached`: the states that are reached by steps that meet a condition.
* `EndsOnce`: one terminal update for each call that is announced, and none after it.
* `Quiet`: no task has reported when it is aborted, and none does so later.

## Main results

* `Task.act_cases`: what a step of a task sends.
* `inv_of_reached`: in quiet runs, only the calls whose result is told have a terminal update.
* `ends_once_of_quiet`: in quiet runs, every call that is announced ends once.
-/

namespace Buzz.Agent

open Library

/-! ### Updates -/

/-- A notification about a tool call. -/
inductive Update
  | pending (toolCallId title : List Char) (rawInput : Json)
  | inProgress (toolCallId : List Char)
  | completed (toolCallId text : List Char) (isError : Bool)
  | failed (toolCallId error : List Char)

namespace Update

def toolCallId : Update → List Char
  | .pending id _ _ | .inProgress id | .completed id _ _ | .failed id _ => id

def terminal : Update → Bool
  | .pending _ _ _ | .inProgress _ => false
  | .completed _ _ _ | .failed _ _ => true

end Update

def emitPending (call : ToolCall) : Update := .pending call.providerId call.name call.arguments

def emitInProgress (call : ToolCall) : Update := .inProgress call.providerId

def emitCompleted (call : ToolCall) (result : ToolResult) : Update :=
  .completed call.providerId result.text result.isError

def emitFailed (call : ToolCall) (err : List Char) : Update := .failed call.providerId err

/-- The terminal update for an outcome. -/
def emitOutcome (call : ToolCall) : InvokeOutcome → Update
  | .done result => emitCompleted call result
  | .failed msg => emitFailed call msg

/-! ### Tasks -/

/-- Where the task of a call is. -/
inductive Phase
  | acquiring
  | refused
  | acquired
  | invoking
  | invoked (outcome : InvokeOutcome)
  | ended (outcome : InvokeOutcome)
  | panicked
  | cancelled

/-- A task, whether a worker polls it, and whether it is aborted. -/
structure Task where
  phase : Phase
  polled : Bool
  aborted : Bool

namespace Phase

/-- The task has not ended. -/
def alive : Phase → Bool
  | .acquiring | .refused | .acquired | .invoking | .invoked _ => true
  | .ended _ | .panicked | .cancelled => false

/-- The task holds a permit. -/
def holds : Phase → Bool
  | .acquired | .invoking | .invoked _ => true
  | _ => false

end Phase

/-- What a task does. -/
inductive Act
  | poll
  /-- An await is not ready. -/
  | park
  | acquire
  | start
  | invoke (how : TaskEnd)
  | report

/-- The task after a step, and what it sends. -/
def Task.act (cfg : Config) (closed free : Bool) (call : ToolCall) (t : Task) :
    Act → Option (Task × List Update)
  | .poll =>
    if t.phase.alive && !t.polled && !t.aborted then some ({ t with polled := true }, []) else none
  | .park =>
    if t.phase.alive && t.polled then
      some (⟨if t.aborted then .cancelled else t.phase, false, t.aborted⟩, [])
    else none
  | .acquire =>
    match t with
    | ⟨.acquiring, true, aborted⟩ =>
      if closed then some (⟨.refused, true, aborted⟩, [])
      else if free then some (⟨.acquired, true, aborted⟩, []) else none
    | _ => none
  | .start =>
    match t with
    | ⟨.acquired, true, aborted⟩ => some (⟨.invoking, true, aborted⟩, [emitInProgress call])
    | _ => none
  | .invoke how =>
    match t with
    | ⟨.invoking, true, aborted⟩ =>
      match taskOutcome cfg call how with
      | some outcome => some (⟨.invoked outcome, true, aborted⟩, [])
      | none => some (⟨.panicked, false, aborted⟩, [])
    | _ => none
  | .report =>
    match t with
    | ⟨.refused, true, aborted⟩ =>
      some (⟨.ended (.failed cancelledMessage), false, aborted⟩,
        [emitFailed call cancelledMessage])
    | ⟨.invoked outcome, true, aborted⟩ =>
      some (⟨.ended outcome, false, aborted⟩, [emitOutcome call outcome])
    | _ => none

/-! ### The main task -/

/-- Where the main task is. -/
inductive Stage
  | preflight (idx : ℕ)
  /-- The cancellation is seen before a call; the calls from another one on are left. -/
  | cancelled (idx left : ℕ)
  | spawning (rest : List ℕ)
  | joining
  | draining
  | filling (rest : List ℕ)
  | finished
  deriving DecidableEq

/-- The main task and the spawned ones: the watched value and whether it has changed, the semaphore,
the tasks that are not joined, the results, what is sent, and what is appended to the history. -/
structure Sys where
  stage : Stage
  cancel : Bool
  changed : Bool
  closed : Bool
  runnable : List ℕ
  task : ℕ → Option Task
  results : ℕ → Option ToolResult
  wire : List Update
  appended : List ToolResult

/-- The start of `execute_calls`. -/
def Sys.start (cancel changed : Bool) : Sys :=
  ⟨.preflight 0, cancel, changed, false, [], fun _ => none, fun _ => none, [], []⟩

/-- What may happen. -/
inductive Event
  /-- The watched value is set. -/
  | signal (cancel : Bool)
  /-- The next call of the preflight, with what a built-in tool replies. -/
  | look (reply : ToolReply)
  | giveUp
  | spawn
  | join (i : ℕ)
  | drained
  | changed
  | timeout
  | fill
  | task (i : ℕ) (act : Act)

namespace Sys

variable (ctx : Ctx) (limit : ℕ) (calls : List ToolCall) (s : Sys)

/-- An iteration of the preflight. -/
def look (idx : ℕ) (reply : ToolReply) : Sys :=
  match calls[idx]? with
  | none => { s with stage := .spawning s.runnable }
  | some call =>
    if s.cancel then { s with stage := .cancelled idx 0 }
    else if call.name = loadSkillTool then
      let result := reply.toResult call
      { s with
        stage := .preflight (idx + 1)
        wire := s.wire ++ [emitPending call, emitInProgress call, emitCompleted call result]
        results := Function.update s.results idx (some result) }
    else if !ctx.has call.name || ctx.isHook call.name then
      let err := unknownTool call
      { s with
        stage := .preflight (idx + 1)
        wire := s.wire ++ [emitPending call, emitFailed call err]
        results := Function.update s.results idx (some (syntheticToolResult call err)) }
    else
      { s with
        stage := .preflight (idx + 1)
        wire := s.wire ++ [emitPending call]
        runnable := s.runnable ++ [idx] }

/-- `append_results`. -/
def append : Sys :=
  { s with
    stage := .finished
    appended := List.zipWith recordedResult calls ((List.range calls.length).map s.results) }

/-- A call without a result has been cancelled, and fails if it was announced. -/
def fillCancelled (i : ℕ) (announced : Bool) : Sys :=
  match calls[i]?, s.results i with
  | some call, none =>
    { s with
      results := Function.update s.results i (some (syntheticToolResult call cancelledMessage))
      wire := s.wire ++ if announced then [emitFailed call cancelledMessage] else [] }
  | _, _ => s

/-- The loop over all calls after the preflight is cancelled. -/
def giveUp (idx left : ℕ) : Sys :=
  if left < calls.length then
    { s.fillCancelled calls left (left < idx) with stage := .cancelled idx (left + 1) }
  else s.append calls

/-- The body of the loop that spawns, and the look at the cancellation after it. -/
def spawn : List ℕ → Sys
  | i :: rest =>
    { s with
      stage := .spawning rest
      task := Function.update s.task i (some ⟨.acquiring, false, false⟩) }
  | [] => if s.cancel then { s with stage := .draining, closed := true }
    else { s with stage := .joining }

/-- A task that has ended is joined; while the tasks are drained, a result is not replaced. -/
def join (i : ℕ) : Option Sys :=
  match calls[i]?, s.task i with
  | some call, some ⟨.ended outcome, _, _⟩ =>
    some { s with
      task := Function.update s.task i none
      results :=
        if s.stage = .draining ∧ (s.results i).isSome then s.results
        else Function.update s.results i (some (outcomeToResult call outcome)) }
  | some _, some ⟨.panicked, _, _⟩ => some { s with task := Function.update s.task i none }
  | _, _ => none

/-- `abort_all`: a task that no worker polls is not polled again. -/
def abortAll : Sys :=
  { s with
    task := fun i => (s.task i).map fun t =>
      ⟨if t.phase.alive && !t.polled then .cancelled else t.phase, t.polled, true⟩ }

/-- The body of the loop that fills the results, and the end. -/
def fill : List ℕ → Sys
  | i :: rest => { s.fillCancelled calls i true with stage := .filling rest }
  | [] => s.append calls

/-- A permit is free. -/
def free : Bool :=
  decide (s.runnable.countP (fun i => (s.task i).any fun t => t.phase.holds) < max limit 1)

/-- A step of a task. -/
def act (i : ℕ) (act : Act) : Option Sys := do
  let call ← calls[i]?
  let t ← s.task i
  let (t, updates) ← t.act ctx.cfg s.closed (s.free limit) call act
  return { s with task := Function.update s.task i (some t), wire := s.wire ++ updates }

/-- The state after an event, if it may happen. -/
def step : Event → Option Sys
  | .signal cancel => some { s with cancel := cancel, changed := true }
  | .look reply =>
    match s.stage with
    | .preflight idx => some (s.look ctx calls idx reply)
    | _ => none
  | .giveUp =>
    match s.stage with
    | .cancelled idx left => some (s.giveUp calls idx left)
    | _ => none
  | .spawn =>
    match s.stage with
    | .spawning rest => some (s.spawn rest)
    | _ => none
  | .join i => if s.stage = .joining ∨ s.stage = .draining then s.join calls i else none
  | .drained =>
    if (s.stage = .joining ∨ s.stage = .draining) ∧
        (s.runnable.all fun i => (s.task i).isNone) = true then
      some { s with stage := .filling s.runnable }
    else none
  | .changed =>
    if s.stage = .joining ∧ s.changed = true then
      some { s with stage := .draining, closed := true, changed := false }
    else none
  | .timeout =>
    if s.stage = .draining then some { s.abortAll with stage := .filling s.runnable } else none
  | .fill =>
    match s.stage with
    | .filling rest => some (s.fill calls rest)
    | _ => none
  | .task i act => s.act ctx limit calls i act

end Sys

/-- The states that are reached by steps that meet a condition. -/
inductive Reached (ctx : Ctx) (limit : ℕ) (calls : List ToolCall) (P : Sys → Event → Prop) :
    Sys → Prop
  | start (cancel changed : Bool) : Reached ctx limit calls P (.start cancel changed)
  | next {s s' : Sys} {e : Event} (h : Reached ctx limit calls P s) (hP : P s e)
      (hstep : s.step ctx limit calls e = some s') : Reached ctx limit calls P s'

/-! ### What is claimed -/

/-- The updates of a call. -/
def updatesOf (id : List Char) (wire : List Update) : List Update :=
  wire.filter fun u => u.toolCallId = id

/-- A terminal update says what the result is. -/
def Tells (call : ToolCall) (result : ToolResult) : Update → Prop
  | .completed _ text isError => text = result.text ∧ isError = result.isError
  | .failed _ error => result = syntheticToolResult call error
  | _ => False

/-- No update follows a terminal one. Once the results are appended, a call that was announced has a
terminal update, which tells the result that is recorded for it. -/
def EndsOnce (calls : List ToolCall) (s : Sys) : Prop :=
  ∀ (i : ℕ) (call : ToolCall), calls[i]? = some call →
    (∀ before u after, updatesOf call.providerId s.wire = before ++ u :: after →
      u.terminal = true → after = []) ∧
    (s.stage = .finished → emitPending call ∈ updatesOf call.providerId s.wire →
      ∃ before u result, updatesOf call.providerId s.wire = before ++ [u] ∧ u.terminal = true ∧
        s.appended[i]? = some (recorded result) ∧ Tells call result u)

/-- The task has not reported its outcome. -/
def Task.Unreported (t : Task) : Prop := ∀ outcome, t.phase ≠ .ended outcome

/-- The tasks are joined, or aborted. -/
def Stage.late : Stage → Bool
  | .filling _ | .finished => true
  | _ => false

/-- When the deadline passes, no task has reported that is not joined. No task reports later, and
none says that it is in progress once a failure is reported for it. -/
def Quiet (s : Sys) : Event → Prop
  | .timeout => ∀ i t, s.task i = some t → t.Unreported
  | .task _ .report => s.stage.late = false
  | .task i .start => s.results i = none
  | _ => True

/-! ### What a task does -/

theorem unreported_of_alive {t : Task} (h : t.phase.alive = true) : t.Unreported := by
  intro outcome hended
  rw [hended] at h
  cases h

/-- What a step of a task sends: nothing, that it is in progress, or its outcome. The task was
alive. -/
theorem Task.act_cases {cfg : Config} {closed free : Bool} {call : ToolCall} {t t' : Task}
    {act : Act} {updates : List Update}
    (h : t.act cfg closed free call act = some (t', updates)) :
    t.phase.alive = true ∧
      (t'.Unreported ∧ (updates = [] ∨ act = .start ∧ updates = [emitInProgress call]) ∨
        act = .report ∧ ∃ outcome, t'.phase = .ended outcome ∧
          updates = [emitOutcome call outcome]) := by
  unfold Task.act at h
  split at h
  · split_ifs at h with halive
    obtain ⟨rfl, rfl⟩ := Prod.mk.inj (Option.some.inj h)
    simp only [Bool.and_eq_true] at halive
    exact ⟨halive.1.1, .inl ⟨unreported_of_alive halive.1.1, .inl rfl⟩⟩
  · split_ifs at h with halive
    all_goals
      obtain ⟨rfl, rfl⟩ := Prod.mk.inj (Option.some.inj h)
      simp only [Bool.and_eq_true] at halive
    · exact ⟨halive.1, .inl ⟨nofun, .inl rfl⟩⟩
    · exact ⟨halive.1, .inl ⟨unreported_of_alive halive.1, .inl rfl⟩⟩
  · split at h
    · split_ifs at h
      all_goals
        obtain ⟨rfl, rfl⟩ := Prod.mk.inj (Option.some.inj h)
        exact ⟨rfl, .inl ⟨nofun, .inl rfl⟩⟩
    · cases h
  · split at h
    · obtain ⟨rfl, rfl⟩ := Prod.mk.inj (Option.some.inj h)
      exact ⟨rfl, .inl ⟨nofun, .inr ⟨rfl, rfl⟩⟩⟩
    · cases h
  · split at h
    · split at h
      all_goals
        obtain ⟨rfl, rfl⟩ := Prod.mk.inj (Option.some.inj h)
        exact ⟨rfl, .inl ⟨nofun, .inl rfl⟩⟩
    · cases h
  · split at h
    · obtain ⟨rfl, rfl⟩ := Prod.mk.inj (Option.some.inj h)
      exact ⟨rfl, .inr ⟨rfl, _, rfl, rfl⟩⟩
    · obtain ⟨rfl, rfl⟩ := Prod.mk.inj (Option.some.inj h)
      exact ⟨rfl, .inr ⟨rfl, _, rfl, rfl⟩⟩
    · cases h

/-! ### One call -/

/-- No update is terminal. -/
def Open (updates : List Update) : Prop := ∀ u ∈ updates, u.terminal = false

/-- The last update is the terminal one, and tells a result. -/
def Closed (call : ToolCall) (result : ToolResult) (updates : List Update) : Prop :=
  ∃ before u, updates = before ++ [u] ∧ Open before ∧ u.terminal = true ∧ Tells call result u

/-- The result that is told of a call: the one that is kept, or the outcome of its task. -/
def told (call : ToolCall) (task : Option Task) : Option ToolResult → Option ToolResult
  | some result => some result
  | none =>
    match task with
    | some ⟨.ended outcome, _, _⟩ => some (outcomeToResult call outcome)
    | _ => none

/-- A call without a result that is told has no terminal update; with one it has one, unless it was
not announced. -/
def Tallied (call : ToolCall) (task : Option Task) (result : Option ToolResult)
    (updates : List Update) : Prop :=
  match told call task result with
  | none => Open updates
  | some r => updates = [] ∨ Closed call r updates

theorem tells_emitOutcome (call : ToolCall) (outcome : InvokeOutcome) :
    Tells call (outcomeToResult call outcome) (emitOutcome call outcome) := by
  cases outcome with
  | done result => exact ⟨rfl, rfl⟩
  | failed msg => rfl

theorem terminal_emitOutcome (call : ToolCall) (outcome : InvokeOutcome) :
    (emitOutcome call outcome).terminal = true := by
  cases outcome <;> rfl

theorem toolCallId_emitOutcome (call : ToolCall) (outcome : InvokeOutcome) :
    (emitOutcome call outcome).toolCallId = call.providerId := by
  cases outcome <;> rfl

theorem Open.append {updates updates' : List Update} (h : Open updates) (h' : Open updates') :
    Open (updates ++ updates') := List.forall_mem_append.mpr ⟨h, h'⟩

theorem Open.closed {call : ToolCall} {result : ToolResult} {updates : List Update} {u : Update}
    (h : Open updates) (hterminal : u.terminal = true) (htells : Tells call result u) :
    Closed call result (updates ++ [u]) := ⟨updates, u, rfl, h, hterminal, htells⟩

theorem Task.Unreported.told {t : Task} (h : t.Unreported) (call : ToolCall)
    (result : Option ToolResult) : Agent.told call (some t) result = result := by
  cases result with
  | some result => rfl
  | none =>
    obtain ⟨phase, polled, aborted⟩ := t
    cases phase with
    | ended outcome => exact absurd rfl (h outcome)
    | _ => rfl

variable {ctx : Ctx} {limit : ℕ} {calls : List ToolCall} {s s' : Sys}

/-- The updates of a call after updates of another one, or of its own. -/
theorem updatesOf_append (hids : (calls.map (·.providerId)).Nodup) {i j : ℕ}
    {call call' : ToolCall} (hi : calls[i]? = some call) (hj : calls[j]? = some call')
    (wire : List Update) {updates : List Update}
    (hupdates : ∀ u ∈ updates, u.toolCallId = call'.providerId) :
    updatesOf call.providerId (wire ++ updates) =
      updatesOf call.providerId wire ++ if i = j then updates else [] := by
  rw [updatesOf, List.filter_append]
  congr 1
  split_ifs with heq
  · subst heq
    obtain rfl := Option.some.inj (hi.symm.trans hj)
    rw [List.filter_eq_self]
    exact fun u hu => decide_eq_true (hupdates u hu)
  · rw [List.filter_eq_nil_iff]
    intro u hu hid
    rw [decide_eq_true_eq, hupdates u hu] at hid
    have hlt : i < (calls.map (·.providerId)).length := by
      rw [List.length_map]
      exact (List.getElem?_eq_some_iff.mp hi).1
    refine heq ((List.getElem?_inj hlt hids).mp ?_)
    rw [List.getElem?_map, List.getElem?_map, hi, hj, Option.map_some, Option.map_some, hid]

/-! ### The invariant -/

/-- What is known where the main task is: which calls are without a result, and which tasks there
are. -/
def StageInv (calls : List ToolCall) (s : Sys) : Prop :=
  match s.stage with
  | .preflight idx =>
    (∀ i, s.task i = none) ∧ s.runnable.Nodup ∧
      (∀ i ∈ s.runnable, i < idx ∧ s.results i = none) ∧
      (∀ i < idx, s.results i = none → i ∈ s.runnable) ∧
      ∀ i, idx ≤ i → s.results i = none ∧
        ∀ call, calls[i]? = some call → updatesOf call.providerId s.wire = []
  | .cancelled idx left =>
    (∀ i, s.task i = none) ∧ (∀ i < left, s.results i ≠ none) ∧
      ∀ i call, calls[i]? = some call → idx ≤ i → updatesOf call.providerId s.wire = []
  | .spawning rest =>
    rest.Nodup ∧ (∀ i ∈ rest, i ∈ s.runnable ∧ s.task i = none ∧ s.results i = none) ∧
      (∀ i t, s.task i = some t → s.results i = none) ∧
      ∀ i < calls.length, s.results i = none → i ∈ s.runnable
  | .joining | .draining =>
    (∀ i t, s.task i = some t → s.results i = none) ∧
      ∀ i < calls.length, s.results i = none → i ∈ s.runnable
  | .filling rest =>
    (∀ i t, s.task i = some t → t.Unreported) ∧
      ∀ i < calls.length, s.results i = none → i ∈ rest
  | .finished =>
    (∀ i t, s.task i = some t → t.Unreported) ∧ (∀ i < calls.length, s.results i ≠ none) ∧
      s.appended = List.zipWith recordedResult calls ((List.range calls.length).map s.results)

/-- What is known of every call, and of the main task. -/
structure Inv (calls : List ToolCall) (s : Sys) : Prop where
  slot : ∀ (i : ℕ) (call : ToolCall), calls[i]? = some call →
    Tallied call (s.task i) (s.results i) (updatesOf call.providerId s.wire)
  spawned : ∀ i t, s.task i = some t → i ∈ s.runnable
  stage : StageInv calls s

theorem inv_start (calls : List ToolCall) (cancel changed : Bool) :
    Inv calls (.start cancel changed) where
  slot _ _ _ := (List.forall_mem_nil _ : Open [])
  spawned _ _ := nofun
  stage := ⟨fun _ => rfl, List.nodup_nil, nofun, nofun, fun _ _ => ⟨rfl, fun _ _ => rfl⟩⟩

/-- The calls after a step that concerns one of them. -/
theorem slot_of_step (hids : (calls.map (·.providerId)).Nodup)
    (h : ∀ (i : ℕ) (call : ToolCall), calls[i]? = some call →
      Tallied call (s.task i) (s.results i) (updatesOf call.providerId s.wire))
    {j : ℕ} {call' : ToolCall} (hj : calls[j]? = some call') {updates : List Update}
    (hupdates : ∀ u ∈ updates, u.toolCallId = call'.providerId)
    (hwire : s'.wire = s.wire ++ updates) (htask : ∀ i ≠ j, s'.task i = s.task i)
    (hresults : ∀ i ≠ j, s'.results i = s.results i)
    (hown : Tallied call' (s'.task j) (s'.results j)
      (updatesOf call'.providerId s.wire ++ updates)) :
    ∀ (i : ℕ) (call : ToolCall), calls[i]? = some call →
      Tallied call (s'.task i) (s'.results i) (updatesOf call.providerId s'.wire) := by
  intro i call hi
  rw [hwire, updatesOf_append hids hi hj _ hupdates]
  split_ifs with heq
  · subst heq
    obtain rfl := Option.some.inj (hi.symm.trans hj)
    exact hown
  · rw [List.append_nil, htask i heq, hresults i heq]
    exact h i call hi

theorem act_eq_some {i : ℕ} {act : Act} (h : s.act ctx limit calls i act = some s') :
    ∃ call t t' updates, calls[i]? = some call ∧ s.task i = some t ∧
      t.act ctx.cfg s.closed (s.free limit) call act = some (t', updates) ∧
      s' = { s with task := Function.update s.task i (some t'), wire := s.wire ++ updates } := by
  obtain ⟨call, hcall, h⟩ := Option.bind_eq_some_iff.mp h
  obtain ⟨t, ht, h⟩ := Option.bind_eq_some_iff.mp h
  obtain ⟨⟨t', updates⟩, hact, h⟩ := Option.bind_eq_some_iff.mp h
  exact ⟨call, t, t', updates, hcall, ht, hact, (Option.some.inj h).symm⟩

/-- A task is there before the tasks are joined, with no result of its call, or later. -/
theorem late_or_results_eq_none (h : StageInv calls s) {i : ℕ} {t : Task}
    (ht : s.task i = some t) :
    s.stage.late = true ∧ t.Unreported ∨ s.stage.late = false ∧ s.results i = none := by
  rw [StageInv] at h
  cases hstage : s.stage with
  | preflight idx =>
    simp only [hstage] at h
    rw [h.1 i] at ht
    cases ht
  | cancelled idx left =>
    simp only [hstage] at h
    rw [h.1 i] at ht
    cases ht
  | spawning rest =>
    simp only [hstage] at h
    exact .inr ⟨rfl, h.2.2.1 i t ht⟩
  | joining =>
    simp only [hstage] at h
    exact .inr ⟨rfl, h.1 i t ht⟩
  | draining =>
    simp only [hstage] at h
    exact .inr ⟨rfl, h.1 i t ht⟩
  | filling rest =>
    simp only [hstage] at h
    exact .inl ⟨rfl, h.1 i t ht⟩
  | finished =>
    simp only [hstage] at h
    exact .inl ⟨rfl, h.1 i t ht⟩

/-- A step of a task changes nothing that is known of the main task, if it does not report late. -/
theorem stageInv_act {i : ℕ} {t t' : Task} (h : StageInv calls s) (ht : s.task i = some t)
    (hlate : s.stage.late = true → t'.Unreported) (updates : List Update) :
    StageInv calls
      { s with task := Function.update s.task i (some t'), wire := s.wire ++ updates } := by
  have hothers {P : ℕ → Task → Prop} (hall : ∀ j t, s.task j = some t → P j t) (hown : P i t') :
      ∀ j t, Function.update s.task i (some t') j = some t → P j t := by
    intro j t₁ ht₁
    rcases eq_or_ne j i with rfl | hne
    · rw [Function.update_self] at ht₁
      exact Option.some.inj ht₁ ▸ hown
    · exact hall j t₁ ((Function.update_of_ne hne _ _).symm.trans ht₁)
  rw [StageInv] at h ⊢
  cases hstage : s.stage with
  | preflight idx =>
    simp only [hstage] at h
    rw [h.1 i] at ht
    cases ht
  | cancelled idx left =>
    simp only [hstage] at h
    rw [h.1 i] at ht
    cases ht
  | spawning rest =>
    simp only [hstage] at h ⊢
    refine ⟨h.1, fun j hj => ?_, hothers h.2.2.1 (h.2.2.1 i t ht), h.2.2.2⟩
    have hne : j ≠ i := by
      rintro rfl
      rw [(h.2.1 j hj).2.1] at ht
      cases ht
    rw [Function.update_of_ne hne]
    exact h.2.1 j hj
  | joining =>
    simp only [hstage] at h ⊢
    exact ⟨hothers h.1 (h.1 i t ht), h.2⟩
  | draining =>
    simp only [hstage] at h ⊢
    exact ⟨hothers h.1 (h.1 i t ht), h.2⟩
  | filling rest =>
    rw [hstage] at hlate
    simp only [hstage] at h ⊢
    exact ⟨hothers h.1 (hlate rfl), h.2⟩
  | finished =>
    rw [hstage] at hlate
    simp only [hstage] at h ⊢
    exact ⟨hothers h.1 (hlate rfl), h.2⟩

theorem inv_act (hids : (calls.map (·.providerId)).Nodup) (h : Inv calls s) {i : ℕ} {act : Act}
    (hquiet : Quiet s (.task i act)) (hstep : s.act ctx limit calls i act = some s') :
    Inv calls s' := by
  obtain ⟨call, t, t', updates, hcall, ht, hact, rfl⟩ := act_eq_some hstep
  obtain ⟨halive, hcases⟩ := Task.act_cases hact
  have hslot := h.slot i call hcall
  rw [ht, Tallied, (unreported_of_alive halive).told] at hslot
  have hids' : ∀ u ∈ updates, u.toolCallId = call.providerId := by
    rcases hcases with ⟨-, rfl | ⟨-, rfl⟩⟩ | ⟨-, outcome, -, rfl⟩
    · exact nofun
    · exact List.forall_mem_singleton.mpr rfl
    · exact List.forall_mem_singleton.mpr (toolCallId_emitOutcome call outcome)
  have hlate : s.stage.late = true → t'.Unreported := by
    intro hlate
    rcases hcases with ⟨hunreported, -⟩ | ⟨rfl, -⟩
    · exact hunreported
    · exact absurd (hlate.symm.trans hquiet) (by decide)
  refine ⟨slot_of_step hids h.slot hcall hids' rfl (fun j hj => Function.update_of_ne hj _ _)
    (fun _ _ => rfl) ?_, fun j t₁ ht₁ => ?_, stageInv_act h.stage ht hlate updates⟩
  · simp only [Function.update_self]
    rcases hcases with ⟨hunreported, rfl | ⟨rfl, rfl⟩⟩ | ⟨rfl, outcome, hended, rfl⟩
    · rw [List.append_nil, Tallied, hunreported.told]
      exact hslot
    · have hnone : s.results i = none := hquiet
      rw [Tallied, hunreported.told, hnone]
      rw [hnone] at hslot
      exact Open.append hslot (List.forall_mem_singleton.mpr rfl)
    · rcases late_or_results_eq_none h.stage ht with ⟨hlate', -⟩ | ⟨-, hnone⟩
      · exact absurd (hlate'.symm.trans hquiet) (by decide)
      · obtain ⟨phase, polled, aborted⟩ := t'
        obtain rfl : phase = .ended outcome := hended
        rw [hnone] at hslot ⊢
        exact .inr (Open.closed hslot (terminal_emitOutcome call outcome)
          (tells_emitOutcome call outcome))
  · rcases eq_or_ne j i with rfl | hj
    · exact h.spawned j t ht
    · exact h.spawned j t₁ ((Function.update_of_ne hj _ _).symm.trans ht₁)

/-! ### The preflight -/

/-- What is known in the preflight. -/
theorem stageInv_preflight {idx : ℕ} (h : StageInv calls s) (hstage : s.stage = .preflight idx) :
    (∀ i, s.task i = none) ∧ s.runnable.Nodup ∧
      (∀ i ∈ s.runnable, i < idx ∧ s.results i = none) ∧
      (∀ i < idx, s.results i = none → i ∈ s.runnable) ∧
      ∀ i, idx ≤ i → s.results i = none ∧
        ∀ call, calls[i]? = some call → updatesOf call.providerId s.wire = [] := by
  rwa [StageInv, hstage] at h

/-- The calls after the one that is looked at are not announced. -/
theorem updatesOf_later (hids : (calls.map (·.providerId)).Nodup) {idx i : ℕ}
    {call call' : ToolCall} (hidx : calls[idx]? = some call') (hi : calls[i]? = some call)
    (hlt : idx < i) (hnil : updatesOf call.providerId s.wire = []) {updates : List Update}
    (hupdates : ∀ u ∈ updates, u.toolCallId = call'.providerId) :
    updatesOf call.providerId (s.wire ++ updates) = [] := by
  rw [updatesOf_append hids hi hidx _ hupdates, if_neg (by omega), hnil, List.append_nil]

/-- A call that is answered at once. -/
theorem inv_answered (hids : (calls.map (·.providerId)).Nodup) (h : Inv calls s) {idx : ℕ}
    (hstage : s.stage = .preflight idx) {call : ToolCall} (hcall : calls[idx]? = some call)
    {updates : List Update} {u : Update} {result : ToolResult} (hopen : Open updates)
    (hterminal : u.terminal = true) (htells : Tells call result u)
    (hupdates : ∀ u' ∈ updates ++ [u], u'.toolCallId = call.providerId) :
    Inv calls { s with
      stage := .preflight (idx + 1)
      wire := s.wire ++ (updates ++ [u])
      results := Function.update s.results idx (some result) } := by
  obtain ⟨htask, hnodup, hrunnable, hnone, hleft⟩ := stageInv_preflight h.stage hstage
  obtain ⟨hresult, hwire⟩ := hleft idx le_rfl
  refine ⟨slot_of_step hids h.slot hcall hupdates rfl (fun _ _ => rfl)
    (fun i hi => Function.update_of_ne hi _ _) ?_, h.spawned, htask, hnodup, fun i hi => ?_,
    fun i hi hnone' => ?_, fun i hi => ⟨?_, fun call' hcall' => ?_⟩⟩
  · simp only [Function.update_self]
    rw [hwire call hcall, List.nil_append]
    exact .inr (hopen.closed hterminal htells)
  · obtain ⟨hlt, hresult'⟩ := hrunnable i hi
    exact ⟨by omega, (Function.update_of_ne (by omega) _ _).trans hresult'⟩
  · rcases eq_or_ne i idx with rfl | hne
    · simp only [Function.update_self, reduceCtorEq] at hnone'
    · exact hnone i (by omega) ((Function.update_of_ne hne _ _).symm.trans hnone')
  · exact (Function.update_of_ne (by omega) _ _).trans (hleft i (by omega)).1
  · exact updatesOf_later hids hcall hcall' hi ((hleft i (by omega)).2 call' hcall') hupdates

theorem inv_look (hids : (calls.map (·.providerId)).Nodup) (h : Inv calls s) {idx : ℕ}
    (hstage : s.stage = .preflight idx) (reply : ToolReply) :
    Inv calls (s.look ctx calls idx reply) := by
  obtain ⟨htask, hnodup, hrunnable, hnone, hleft⟩ := stageInv_preflight h.stage hstage
  rw [Sys.look]
  split
  · next hend =>
    have hle : calls.length ≤ idx := List.getElem?_eq_none_iff.mp hend
    refine ⟨h.slot, h.spawned, hnodup, fun i hi => ⟨hi, htask i, (hrunnable i hi).2⟩,
      fun i t ht => ?_, fun i hi => hnone i (by omega)⟩
    rw [htask i] at ht
    cases ht
  · next call hcall =>
    obtain ⟨hresult, hwire⟩ := hleft idx le_rfl
    split_ifs with hcancel hskill hunknown
    · exact ⟨h.slot, h.spawned, htask, fun i hi => absurd hi (Nat.not_lt_zero i),
        fun i call' hcall' hle => (hleft i hle).2 call' hcall'⟩
    · exact @inv_answered _ _ hids h _ hstage _ hcall [emitPending call, emitInProgress call] _ _
        (by simp [Open, emitPending, emitInProgress, Update.terminal]) rfl ⟨rfl, rfl⟩
        (by simp [emitPending, emitInProgress, emitCompleted, Update.toolCallId])
    · exact @inv_answered _ _ hids h _ hstage _ hcall [emitPending call] _ _
        (List.forall_mem_singleton.mpr rfl) rfl rfl
        (by simp [emitPending, emitFailed, Update.toolCallId])
    · have hupdates : ∀ u ∈ [emitPending call], u.toolCallId = call.providerId :=
        List.forall_mem_singleton.mpr rfl
      have hfresh : idx ∉ s.runnable := fun hmem => absurd (hrunnable idx hmem).1 (lt_irrefl idx)
      refine ⟨slot_of_step hids h.slot hcall hupdates rfl (fun _ _ => rfl) (fun _ _ => rfl) ?_,
        fun i t ht => ?_, htask, ?_, fun i hi => ?_, fun i hi hnone' => ?_,
        fun i hi => ⟨(hleft i (by omega)).1, fun call' hcall' => ?_⟩⟩
      · rw [htask idx, hresult, hwire call hcall]
        exact (List.forall_mem_singleton.mpr rfl : Open [emitPending call])
      · rw [htask i] at ht
        cases ht
      · exact List.nodup_append.mpr ⟨hnodup, by simp, fun i hi j hj =>
          ne_of_mem_of_not_mem hi (List.mem_singleton.mp hj ▸ hfresh)⟩
      · rcases List.mem_append.mp hi with hi | hi
        · obtain ⟨hlt, hresult'⟩ := hrunnable i hi
          exact ⟨by omega, hresult'⟩
        · obtain rfl := List.mem_singleton.mp hi
          exact ⟨Nat.lt_succ_self i, hresult⟩
      · rcases eq_or_ne i idx with rfl | hne
        · exact List.mem_append_right _ (List.mem_singleton_self i)
        · exact List.mem_append_left _ (hnone i (by omega) hnone')
      · exact updatesOf_later hids hcall hcall' hi ((hleft i (by omega)).2 call' hcall') hupdates

/-! ### Filling -/

/-- What filling a result changes. -/
theorem fillCancelled_cases (i : ℕ) (announced : Bool) :
    (s.fillCancelled calls i announced = s ∧
        (calls[i]? = none ∨ s.results i ≠ none)) ∨
      ∃ call, calls[i]? = some call ∧ s.results i = none ∧
        s.fillCancelled calls i announced =
          { s with
            results := Function.update s.results i
              (some (syntheticToolResult call cancelledMessage))
            wire := s.wire ++ if announced then [emitFailed call cancelledMessage] else [] } := by
  rw [Sys.fillCancelled]
  split
  · next call hcall hresult => exact .inr ⟨call, hcall, hresult, rfl⟩
  · next hne =>
    refine .inl ⟨rfl, ?_⟩
    by_contra hnone
    rw [not_or, not_not] at hnone
    obtain ⟨call, hcall⟩ := Option.ne_none_iff_exists'.mp hnone.1
    exact hne call hcall hnone.2

/-- A filled call is tallied if its task has not reported, or if it has none. -/
theorem slot_fillCancelled (hids : (calls.map (·.providerId)).Nodup) (h : Inv calls s) (i : ℕ)
    (announced : Bool) (hunreported : ∀ t, s.task i = some t → t.Unreported)
    (hsilent : announced = false → ∀ call, calls[i]? = some call →
      updatesOf call.providerId s.wire = []) (j : ℕ) (call : ToolCall)
    (hcall : calls[j]? = some call) :
    Tallied call ((s.fillCancelled calls i announced).task j)
      ((s.fillCancelled calls i announced).results j)
      (updatesOf call.providerId (s.fillCancelled calls i announced).wire) := by
  rcases @fillCancelled_cases calls s i announced with ⟨heq, -⟩ | ⟨own, hown, hresult, heq⟩
  · rw [heq]
    exact h.slot j call hcall
  · rw [heq]
    have hupdates : ∀ u ∈ if announced then [emitFailed own cancelledMessage] else [],
        u.toolCallId = own.providerId := by
      cases announced with
      | true => exact List.forall_mem_singleton.mpr rfl
      | false => exact nofun
    have htold : told own (s.task i) none = none := by
      cases ht : s.task i with
      | none => rfl
      | some t => exact (hunreported t ht).told own none
    have hopen : Open (updatesOf own.providerId s.wire) := by
      have hslot := h.slot i own hown
      rwa [hresult, Tallied, htold] at hslot
    have hfilled : Tallied own (s.task i) (some (syntheticToolResult own cancelledMessage))
        (updatesOf own.providerId s.wire ++
          if announced then [emitFailed own cancelledMessage] else []) := by
      cases announced with
      | true => exact .inr (hopen.closed rfl rfl)
      | false => exact .inl (by rw [hsilent rfl own hown]; rfl)
    refine @slot_of_step calls s { s with
      results := Function.update s.results i (some (syntheticToolResult own cancelledMessage))
      wire := s.wire ++ if announced then [emitFailed own cancelledMessage] else [] }
      hids h.slot i own hown _ hupdates rfl (fun _ _ => rfl)
      (fun j hj => Function.update_of_ne hj _ _) ?_ j call hcall
    simp only [Function.update_self]
    exact hfilled

theorem results_fillCancelled (i : ℕ) (announced : Bool) {j : ℕ} (hj : j < calls.length) :
    (s.fillCancelled calls i announced).results j = none → j ≠ i ∧ s.results j = none := by
  rcases @fillCancelled_cases calls s i announced with ⟨heq, hnone⟩ | ⟨own, hown, -, heq⟩
  · rw [heq]
    refine fun hresult => ⟨?_, hresult⟩
    rintro rfl
    rcases hnone with hnone | hne
    · exact absurd (List.getElem?_eq_none_iff.mp hnone) (not_le.mpr hj)
    · exact hne hresult
  · rw [heq]
    intro hresult
    rcases eq_or_ne j i with rfl | hne
    · simp only [Function.update_self, reduceCtorEq] at hresult
    · exact ⟨hne, (Function.update_of_ne hne _ _).symm.trans hresult⟩

theorem task_fillCancelled (i : ℕ) (announced : Bool) :
    (s.fillCancelled calls i announced).task = s.task ∧
      (s.fillCancelled calls i announced).runnable = s.runnable := by
  rcases @fillCancelled_cases calls s i announced with ⟨heq, -⟩ | ⟨own, -, -, heq⟩
  · rw [heq]
    exact ⟨rfl, rfl⟩
  · rw [heq]
    exact ⟨rfl, rfl⟩

/-- The invariant after a result is filled, as far as the main task is concerned. -/
theorem inv_fillCancelled (hids : (calls.map (·.providerId)).Nodup) (h : Inv calls s) (i : ℕ)
    (announced : Bool) (hunreported : ∀ j t, s.task j = some t → t.Unreported)
    (hsilent : announced = false → ∀ call, calls[i]? = some call →
      updatesOf call.providerId s.wire = []) (stage : Stage)
    (hstage : StageInv calls { s.fillCancelled calls i announced with stage := stage }) :
    Inv calls { s.fillCancelled calls i announced with stage := stage } := by
  obtain ⟨htask, hrunnable⟩ := @task_fillCancelled calls s i announced
  refine ⟨slot_fillCancelled hids h i announced (hunreported i) hsilent, fun j t ht => ?_,
    hstage⟩
  simp only [hrunnable]
  exact h.spawned j t (htask ▸ ht)

/-- The results are appended where there are all, and no task does anything any more. -/
theorem inv_append (h : Inv calls s) (hunreported : ∀ i t, s.task i = some t → t.Unreported)
    (hresults : ∀ i < calls.length, s.results i ≠ none) : Inv calls (s.append calls) :=
  ⟨h.slot, h.spawned, hunreported, hresults, rfl⟩

theorem inv_giveUp (hids : (calls.map (·.providerId)).Nodup) (h : Inv calls s) {idx left : ℕ}
    (hstage : s.stage = .cancelled idx left) : Inv calls (s.giveUp calls idx left) := by
  have hinv := h.stage
  rw [StageInv, hstage] at hinv
  obtain ⟨htask, hresults, hsilent⟩ := hinv
  have hunreported : ∀ i t, s.task i = some t → t.Unreported := fun i t ht => by
    rw [htask i] at ht
    cases ht
  rw [Sys.giveUp]
  split_ifs with hlt
  · refine inv_fillCancelled hids h left (left < idx) hunreported (fun hle call hcall => ?_) _
      ⟨fun i => ?_, fun i hi hnone => ?_, fun i call hcall hle => ?_⟩
    · exact hsilent left call hcall (not_lt.mp (of_decide_eq_false hle))
    · exact (congrFun (task_fillCancelled left _).1 i).trans (htask i)
    · obtain ⟨hne, hnone'⟩ := results_fillCancelled left _ (by omega) hnone
      exact hresults i (by omega) hnone'
    · rcases @fillCancelled_cases calls s left (left < idx) with ⟨heq, -⟩ | ⟨own, hown, -, heq⟩
      · rw [heq]
        exact hsilent i call hcall hle
      · simp only [heq]
        split_ifs with hannounced
        · exact updatesOf_later hids hown hcall ((of_decide_eq_true hannounced).trans_le hle)
            (hsilent i call hcall hle) (List.forall_mem_singleton.mpr rfl)
        · rw [List.append_nil]
          exact hsilent i call hcall hle
  · exact inv_append h hunreported fun i hi => hresults i (by omega)

theorem inv_fill (hids : (calls.map (·.providerId)).Nodup) (h : Inv calls s) {rest : List ℕ}
    (hstage : s.stage = .filling rest) : Inv calls (s.fill calls rest) := by
  have hinv := h.stage
  rw [StageInv, hstage] at hinv
  obtain ⟨hunreported, hresults⟩ := hinv
  cases rest with
  | nil =>
    exact inv_append h hunreported fun i hi hnone =>
      absurd (hresults i hi hnone) List.not_mem_nil
  | cons i rest =>
    refine inv_fillCancelled hids h i true hunreported nofun _
      ⟨fun j t ht => hunreported j t ?_, fun j hj hnone => ?_⟩
    · exact (congrFun (task_fillCancelled i true).1 j).symm.trans ht
    · obtain ⟨hne, hnone'⟩ := results_fillCancelled i true hj hnone
      exact (List.mem_cons.mp (hresults j hj hnone')).resolve_left hne

/-! ### Joining -/

theorem inv_spawn (h : Inv calls s) {rest : List ℕ} (hstage : s.stage = .spawning rest) :
    Inv calls (s.spawn rest) := by
  have hinv := h.stage
  rw [StageInv, hstage] at hinv
  obtain ⟨hnodup, hrest, htasks, hresults⟩ := hinv
  cases rest with
  | nil =>
    rw [Sys.spawn]
    split_ifs
    · exact ⟨h.slot, h.spawned, htasks, hresults⟩
    · exact ⟨h.slot, h.spawned, htasks, hresults⟩
  | cons i rest =>
    obtain ⟨hi, htask, hresult⟩ := hrest i List.mem_cons_self
    obtain ⟨hfresh, hnodup'⟩ := List.nodup_cons.mp hnodup
    refine ⟨fun j call hcall => ?_, fun j t ht => ?_, hnodup', fun j hj => ?_, fun j t ht => ?_,
      hresults⟩
    · have hslot := h.slot j call hcall
      rcases eq_or_ne j i with rfl | hne
      · simp only [Sys.spawn, Function.update_self]
        rw [htask] at hslot
        rwa [hresult] at hslot ⊢
      · simp only [Sys.spawn, Function.update_of_ne hne]
        exact hslot
    · rcases eq_or_ne j i with rfl | hne
      · exact hi
      · exact h.spawned j t ((Function.update_of_ne hne _ _).symm.trans ht)
    · obtain ⟨hmem, htask', hresult'⟩ := hrest j (List.mem_cons_of_mem _ hj)
      have hne : j ≠ i := ne_of_mem_of_not_mem hj hfresh
      exact ⟨hmem, (Function.update_of_ne hne _ _).trans htask', hresult'⟩
    · rcases eq_or_ne j i with rfl | hne
      · exact hresult
      · exact htasks j t ((Function.update_of_ne hne _ _).symm.trans ht)

/-- The main task waits for the tasks. -/
def Waits (s : Sys) : Prop := s.stage = .joining ∨ s.stage = .draining

theorem stageInv_waits (hstage : Waits s) :
    StageInv calls s ↔ (∀ i t, s.task i = some t → s.results i = none) ∧
      ∀ i < calls.length, s.results i = none → i ∈ s.runnable := by
  rcases hstage with hstage | hstage <;> rw [StageInv, hstage]

/-- What joining a task changes: its outcome is the result of its call, unless it panicked. -/
theorem join_eq_some (h : Inv calls s) (hstage : Waits s) {i : ℕ}
    (hstep : s.join calls i = some s') :
    ∃ call t result, calls[i]? = some call ∧ s.task i = some t ∧ told call (some t) none = result ∧
      s' = { s with
        task := Function.update s.task i none
        results := Function.update s.results i result } := by
  obtain ⟨htasks, -⟩ := (stageInv_waits hstage).mp h.stage
  rw [Sys.join] at hstep
  split at hstep
  · next call outcome polled aborted hcall ht =>
    rw [htasks i _ ht, if_neg fun hcond => Bool.false_ne_true hcond.2] at hstep
    exact ⟨call, _, _, hcall, ht, rfl, (Option.some.inj hstep).symm⟩
  · next call polled aborted hcall ht =>
    have hsame : Function.update s.results i none = s.results :=
      Function.update_eq_self_iff.mpr (htasks i _ ht).symm
    refine ⟨call, _, none, hcall, ht, rfl, ?_⟩
    rw [hsame]
    exact (Option.some.inj hstep).symm
  · cases hstep

theorem inv_join (h : Inv calls s) (hstage : Waits s) {i : ℕ} (hstep : s.join calls i = some s') :
    Inv calls s' := by
  obtain ⟨htasks, hresults⟩ := (stageInv_waits hstage).mp h.stage
  obtain ⟨call, t, result, hcall, ht, htold, rfl⟩ := join_eq_some h hstage hstep
  have htask {j : ℕ} {t' : Task} (ht' : Function.update s.task i none j = some t') :
      j ≠ i ∧ s.task j = some t' := by
    rcases eq_or_ne j i with rfl | hne
    · rw [Function.update_self] at ht'
      cases ht'
    · exact ⟨hne, (Function.update_of_ne hne _ _).symm.trans ht'⟩
  refine ⟨fun j call' hcall' => ?_, fun j t' ht' => h.spawned j t' (htask ht').2,
    (stageInv_waits (by exact hstage)).mpr ⟨fun j t' ht' => ?_, fun j hj hnone => ?_⟩⟩
  · have hslot := h.slot j call' hcall'
    rcases eq_or_ne j i with rfl | hne
    · obtain rfl := Option.some.inj (hcall.symm.trans hcall')
      rw [ht, htasks j t ht, Tallied, htold] at hslot
      simp only [Function.update_self]
      cases result with
      | none => exact hslot
      | some result => exact hslot
    · simp only [Function.update_of_ne hne]
      exact hslot
  · obtain ⟨hne, ht'⟩ := htask ht'
    exact (Function.update_of_ne hne _ _).trans (htasks j t' ht')
  · rcases eq_or_ne j i with rfl | hne
    · exact h.spawned j t ht
    · exact hresults j hj ((Function.update_of_ne hne _ _).symm.trans hnone)

/-- All tasks are joined. -/
theorem inv_drained (h : Inv calls s) (hstage : Waits s)
    (hjoined : (s.runnable.all fun i => (s.task i).isNone) = true) :
    Inv calls { s with stage := .filling s.runnable } := by
  have hinv := (stageInv_waits hstage).mp h.stage
  refine ⟨h.slot, h.spawned, fun i t ht => ?_, hinv.2⟩
  have hnone := List.all_eq_true.mp hjoined i (h.spawned i t ht)
  rw [ht] at hnone
  cases hnone

/-- At a quiet deadline, no task that is aborted has reported. -/
theorem inv_timeout (h : Inv calls s) (hstage : Waits s)
    (hquiet : ∀ i t, s.task i = some t → t.Unreported) :
    Inv calls { s.abortAll with stage := .filling s.runnable } := by
  have hinv := (stageInv_waits hstage).mp h.stage
  have hunreported : ∀ i t, s.abortAll.task i = some t → t.Unreported := by
    intro i t ht
    obtain ⟨t₀, ht₀, rfl⟩ := Option.map_eq_some_iff.mp ht
    intro outcome hended
    simp only at hended
    split_ifs at hended
    exact hquiet i t₀ ht₀ outcome hended
  refine ⟨fun i call hcall => ?_, fun i t ht => ?_, hunreported, hinv.2⟩
  · have hslot := h.slot i call hcall
    cases ht : s.task i with
    | none =>
      simp only [Sys.abortAll, ht]
      rwa [ht] at hslot
    | some t =>
      have hmap := congrArg (Option.map fun t : Task =>
        Task.mk (if t.phase.alive && !t.polled then .cancelled else t.phase) t.polled true) ht
      have htold := (hunreported i _ hmap).told call (s.results i)
      rw [ht, Tallied, (hquiet i t ht).told] at hslot
      rw [Tallied]
      simp only [Sys.abortAll, hmap]
      simp only [Option.map_some] at htold ⊢
      rw [htold]
      exact hslot
  · obtain ⟨t₀, ht₀, -⟩ := Option.map_eq_some_iff.mp ht
    exact h.spawned i t₀ ht₀

/-! ### Runs -/

/-- A quiet step keeps the invariant. -/
theorem inv_step (hids : (calls.map (·.providerId)).Nodup) (h : Inv calls s) {e : Event}
    (hquiet : Quiet s e) (hstep : s.step ctx limit calls e = some s') : Inv calls s' := by
  cases e with
  | signal cancel =>
    obtain rfl := Option.some.inj hstep
    exact ⟨h.slot, h.spawned, h.stage⟩
  | look reply =>
    rw [Sys.step] at hstep
    split at hstep
    · next idx hstage =>
      obtain rfl := Option.some.inj hstep
      exact inv_look hids h hstage reply
    · cases hstep
  | giveUp =>
    rw [Sys.step] at hstep
    split at hstep
    · next idx left hstage =>
      obtain rfl := Option.some.inj hstep
      exact inv_giveUp hids h hstage
    · cases hstep
  | spawn =>
    rw [Sys.step] at hstep
    split at hstep
    · next rest hstage =>
      obtain rfl := Option.some.inj hstep
      exact inv_spawn h hstage
    · cases hstep
  | join i =>
    rw [Sys.step] at hstep
    split_ifs at hstep with hstage
    exact inv_join h hstage hstep
  | drained =>
    rw [Sys.step] at hstep
    split_ifs at hstep with hcond
    obtain rfl := Option.some.inj hstep
    exact inv_drained h hcond.1 hcond.2
  | changed =>
    rw [Sys.step] at hstep
    split_ifs at hstep with hcond
    obtain rfl := Option.some.inj hstep
    exact ⟨h.slot, h.spawned, (stageInv_waits (.inl hcond.1)).mp h.stage⟩
  | timeout =>
    rw [Sys.step] at hstep
    split_ifs at hstep with hstage
    obtain rfl := Option.some.inj hstep
    exact inv_timeout h (.inr hstage) hquiet
  | fill =>
    rw [Sys.step] at hstep
    split at hstep
    · next rest hstage =>
      obtain rfl := Option.some.inj hstep
      exact inv_fill hids h hstage
    · cases hstep
  | task i act => exact inv_act hids h hquiet hstep

theorem inv_of_reached (hids : (calls.map (·.providerId)).Nodup)
    (h : Reached ctx limit calls Quiet s) : Inv calls s := by
  induction h with
  | start cancel changed => exact inv_start calls cancel changed
  | next _ hquiet hstep ih => exact inv_step hids ih hquiet hstep

/-- A terminal update is the last one of a call that is tallied. -/
theorem eq_nil_of_terminal {call : ToolCall} {task : Option Task} {result : Option ToolResult}
    {updates before after : List Update} {u : Update} (h : Tallied call task result updates)
    (heq : updates = before ++ u :: after) (hterminal : u.terminal = true) : after = [] := by
  rw [Tallied] at h
  split at h
  · have hopen := h u (by rw [heq]; simp)
    rw [hterminal] at hopen
    cases hopen
  · rcases h with rfl | ⟨before', last, heq', hopen, -, -⟩
    · exact absurd heq.symm (by simp)
    · rcases List.eq_nil_or_concat after with hnil | ⟨rest, last', hafter⟩
      · exact hnil
      · rw [hafter, List.concat_eq_append, ← List.cons_append, ← List.append_assoc] at heq
        have hbefore := List.append_inj_left' (heq'.symm.trans heq) rfl
        have hopen' := hopen u (by rw [hbefore]; simp)
        rw [hterminal] at hopen'
        cases hopen'

/-- **One terminal update.** If no task has reported when it is aborted, and none sends anything
after its failure is reported for it, every call that is announced gets one terminal update, which
is its last one and tells the result that is recorded. -/
theorem ends_once_of_quiet (ctx : Ctx) (limit : ℕ) (calls : List ToolCall)
    (hids : (calls.map (·.providerId)).Nodup) (s : Sys) (h : Reached ctx limit calls Quiet s) :
    EndsOnce calls s := by
  have hinv := inv_of_reached hids h
  intro i call hcall
  refine ⟨fun before u after heq hterminal =>
    eq_nil_of_terminal (hinv.slot i call hcall) heq hterminal, fun hfinished hpending => ?_⟩
  have hlt : i < calls.length := (List.getElem?_eq_some_iff.mp hcall).1
  have hstage := hinv.stage
  rw [StageInv, hfinished] at hstage
  obtain ⟨-, hresults, happended⟩ := hstage
  obtain ⟨result, hresult⟩ := Option.ne_none_iff_exists'.mp (hresults i hlt)
  have hslot := hinv.slot i call hcall
  rw [hresult] at hslot
  rcases hslot with hnil | ⟨before, u, heq, -, hterminal, htells⟩
  · rw [hnil] at hpending
    cases hpending
  · refine ⟨before, u, result, heq, hterminal, ?_, htells⟩
    rw [happended, List.getElem?_zipWith, hcall, List.getElem?_map, List.getElem?_range hlt,
      Option.map_some, hresult]
    rfl

/-! ### A late report -/

/-- Events, one after the other. -/
def Sys.run (ctx : Ctx) (limit : ℕ) (calls : List ToolCall) (s : Sys) (events : List Event) :
    Option Sys :=
  events.foldlM (fun s e => Sys.step ctx limit calls s e) s

theorem reached_run {P : Sys → Event → Prop} {events : List Event}
    (h : Reached ctx limit calls P s) (hP : ∀ e ∈ events, ∀ s, P s e)
    (hrun : s.run ctx limit calls events = some s') : Reached ctx limit calls P s' := by
  induction events generalizing s with
  | nil =>
    obtain rfl := Option.some.inj hrun
    exact h
  | cons e events ih =>
    rw [List.forall_mem_cons] at hP
    rw [Sys.run, List.foldlM_cons] at hrun
    obtain ⟨s₁, hstep, hrun⟩ := Option.bind_eq_some_iff.mp hrun
    exact ih (h.next (hP.1 s) hstep) hP.2 hrun

/-- One registered tool. -/
def shellCtx : Ctx where
  cfg :=
    { provider := .anthropic
      maxRounds := 0
      maxTokenRecoveries := 3
      toolTimeoutSecs := 660
      maxHistoryBytes := 16 * 1024 * 1024
      maxContextTokens := 200000
      maxHandoffs := 10
      stopMaxRejections := 3
      requireReply := false }
  byQname := [("dev__shell".toList, "shell".toList)]
  hasSkills := false

def shellReply : ToolReply := ⟨[.text "done".toList], false⟩

/-- A call of a tool that is not registered fails at once. -/
theorem ends_once_unknown :
    let calls : List ToolCall := [⟨"call_1".toList, "grep".toList, .obj [], []⟩]
    ∃ s, Sys.run shellCtx 8 calls (.start false false)
        [.look shellReply, .look shellReply, .spawn, .drained, .fill] = some s ∧
      EndsOnce calls s := by
  intro calls
  have hsome : (Sys.run shellCtx 8 calls (.start false false)
      [.look shellReply, .look shellReply, .spawn, .drained, .fill]).isSome = true := by decide
  obtain ⟨s, hs⟩ := Option.isSome_iff_exists.mp hsome
  refine ⟨s, hs, ends_once_of_quiet shellCtx 8 calls (by decide) s
    (reached_run (.start false false) ?_ hs)⟩
  simp [Quiet]

def shellCalls : List ToolCall := [⟨"call_1".toList, "dev__shell".toList, .obj [], []⟩]

/-- The tool answers while its task is aborted. -/
def lateEvents : List Event :=
  [.look shellReply, .look shellReply, .spawn, .spawn, .task 0 .poll, .task 0 .acquire,
    .task 0 .start, .signal true, .changed, .timeout, .fill, .fill,
    .task 0 (.invoke (.replied shellReply)), .task 0 .report]

/-- A call fails for the client, and then it is completed. -/
theorem failed_then_completed :
    ∃ s, Reached shellCtx 8 shellCalls (fun _ _ => True) s ∧ ¬ EndsOnce shellCalls s := by
  have hrun : (Sys.run shellCtx 8 shellCalls (.start false false) lateEvents).map (fun s =>
      (updatesOf "call_1".toList s.wire).map Update.terminal) =
      some [false, false, true, true] := by decide
  obtain ⟨s, hs, hterminal⟩ := Option.map_eq_some_iff.mp hrun
  refine ⟨s, reached_run (.start false false) (fun _ _ _ => trivial) hs, fun hends => ?_⟩
  obtain ⟨hlast, -⟩ := hends 0 _ rfl
  obtain ⟨u₁, rest, hupdates, -, hrest⟩ := List.map_eq_cons_iff.mp hterminal
  obtain ⟨u₂, rest, rfl, -, hrest⟩ := List.map_eq_cons_iff.mp hrest
  obtain ⟨u₃, rest, rfl, hthird, hrest⟩ := List.map_eq_cons_iff.mp hrest
  obtain ⟨u₄, rest, rfl, -, -⟩ := List.map_eq_cons_iff.mp hrest
  have hnil := hlast [u₁, u₂] u₃ (u₄ :: rest) hupdates hthird
  cases hnil

end Buzz.Agent
