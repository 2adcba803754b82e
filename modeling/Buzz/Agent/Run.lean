import Buzz.Agent.Handoff

/-!
# The run loop

`RunCtx::run` of `agent.rs` and the prompts of a session, one run after the other. The rounds of a
run and the prompts of a session are bounded by a fuel, beyond which the run is cut short.

Tool tasks end in any order and in any way; how many of them run at once does not matter here. The
usage that is only reported, the updates on the wire and the identifiers of messages are left out.

## Main definitions

* `executeCalls`: the preflight, the spawned tasks and the results.
* `respond`: what becomes of a response.
* `run`, `converse`.
-/

namespace Buzz.Agent

open Library

/-! ### Tool calls -/

/-- `MAX_TOOL_CALLS_PER_TURN`. -/
def maxToolCallsPerTurn : ℕ := 64

/-- `LOAD_SKILL_TOOL`. -/
def loadSkillTool : List Char := "load_skill".toList

namespace Ctx

/-- `mcp.has`. -/
def has (ctx : Ctx) (qname : List Char) : Bool := (ctx.byQname.lookup qname).isSome

/-- `mcp.is_hook`: the bare name starts with an underscore. -/
def isHook (ctx : Ctx) (qname : List Char) : Bool :=
  ((ctx.byQname.lookup qname).map fun bare => "_".toList.isPrefixOf bare).getD false

end Ctx

/-- A member of an object: the last one of its name. -/
def jsonGet (name : List Char) : Json → Option Json
  | .obj members => members.reverse.lookup name
  | _ => none

/-- `str::contains`. -/
def contains (text part : List Char) : Bool := (splitFirst part text).isSome

def isReplyShaped (name : List Char) (arguments : Json) : Bool :=
  "__shell".toList.isSuffixOf name &&
    match jsonGet "command".toList arguments with
    | some (.str cmd) =>
      contains cmd "messages send".toList || contains cmd "reactions add".toList
    | _ => false

def isBuzzReplyCall (ctx : Ctx) (call : ToolCall) : Bool :=
  ctx.has call.name && !ctx.isHook call.name && isReplyShaped call.name call.arguments

inductive InvokeOutcome
  | done (result : ToolResult)
  | failed (msg : List Char)

def cancelledMessage : List Char := "cancelled".toList

def unknownTool (call : ToolCall) : List Char := "unknown tool: ".toList ++ call.name

/-- A tool's answer, as the result of the call. -/
def ToolReply.toResult (reply : ToolReply) (call : ToolCall) : ToolResult :=
  ⟨call.providerId, reply.content, reply.isError⟩

/-- The outcome of a task that can be joined: `invoke_tool_inner` and the task around it. -/
def taskOutcome (cfg : Config) (call : ToolCall) : TaskEnd → Option InvokeOutcome
  | .panicked => none
  | .cancelled => some (.failed cancelledMessage)
  | .replied reply => some (.done (reply.toResult call))
  | .failed e => some (.failed e.display)
  | .timedOut => some (.failed ("tool: timeout after ".toList ++
      Nat.toDigits 10 cfg.toolTimeoutSecs ++
      "s. The command took too long. Try a faster approach.".toList))

def outcomeToResult (call : ToolCall) : InvokeOutcome → ToolResult
  | .done r => r
  | .failed m => syntheticToolResult call m

/-- The result of a task, if it can be joined. -/
def taskResult (cfg : Config) (call : ToolCall) (e : TaskEnd) : Option ToolResult :=
  (taskOutcome cfg call e).map (outcomeToResult call)

/-- The results so far, one for each call. -/
abbrev Results := List (Option ToolResult)

/-- Keep the result of a task that has ended. -/
def Results.join (results : Results) (cfg : Config) (task : ℕ × ToolCall) (e : TaskEnd) : Results :=
  match taskResult cfg task.2 e with
  | some result => results.set task.1 (some result)
  | none => results

/-- Keep the result of a task that has ended, unless there is one. -/
def Results.drain (results : Results) (cfg : Config) (task : ℕ × ToolCall) (e : TaskEnd) :
    Results :=
  match results[task.1]? with
  | some none => results.join cfg task e
  | _ => results

/-- Fill the result of a call that is still without one. -/
def Results.cancel (results : Results) (task : ℕ × ToolCall) : Results :=
  match results[task.1]? with
  | some none => results.set task.1 (some (syntheticToolResult task.2 cancelledMessage))
  | _ => results

/-- The calls with their positions, from a first one on. -/
def numbered (idx : ℕ) (calls : List ToolCall) : List (ℕ × ToolCall) :=
  calls.zipIdx idx |>.map fun c => (c.2, c.1)

/-- The calls that are to be spawned, or nothing when the preflight is cancelled, and the
results. -/
def preflight (ctx : Ctx) (calls : List ToolCall) :
    List (ℕ × ToolCall) → Results → List (ℕ × ToolCall) →
      Running (Option (List (ℕ × ToolCall)) × Results)
  | [], results, runnable => pure (some runnable, results)
  | (idx, call) :: rest, results, runnable => do
    if ← cancelRequested then pure (none, (numbered 0 calls).foldl Results.cancel results)
    else if call.name = loadSkillTool then
      let reply ← callLoadSkill idx call
      preflight ctx calls rest (results.set idx (some (reply.toResult call))) runnable
    else if !ctx.has call.name || ctx.isHook call.name then
      preflight ctx calls rest
        (results.set idx (some (syntheticToolResult call (unknownTool call)))) runnable
    else preflight ctx calls rest results (runnable ++ [(idx, call)])

/-- Wait for the tasks after the cancellation, until the deadline. The first argument is their
number. -/
def drainTasks (cfg : Config) : ℕ → List (ℕ × ToolCall) → Results → Running Results
  | 0, _, results => pure results
  | n + 1, tasks, results => do
    match ← drainNext tasks with
    | none => pure results
    | some (k, e) => drainTasks cfg n (tasks.eraseIdx k) (results.drain cfg (tasks.get k) e)

/-- Wait for the tasks. The first argument is their number. -/
def joinTasks (cfg : Config) : ℕ → List (ℕ × ToolCall) → Results → Running Results
  | 0, _, results => pure results
  | n + 1, tasks, results => do
    match ← joinNext tasks with
    | none => drainTasks cfg (n + 1) tasks results
    | some (k, e) => joinTasks cfg n (tasks.eraseIdx k) (results.join cfg (tasks.get k) e)

def executeParallel (cfg : Config) (runnable : List (ℕ × ToolCall)) (results : Results) :
    Running Results := do
  let results ←
    if ← cancelRequested then drainTasks cfg runnable.length runnable results
    else joinTasks cfg runnable.length runnable results
  pure (runnable.foldl Results.cancel results)

/-- The session, and whether the run is cancelled. -/
def executeCalls (ctx : Ctx) (s : Session) (calls : List ToolCall) : Running (Session × Bool) := do
  match ← preflight ctx calls (numbered 0 calls) (List.replicate calls.length none) [] with
  | (none, results) => pure ({ s with history := appendResults s.history calls results }, true)
  | (some runnable, results) =>
    let results ← executeParallel ctx.cfg runnable results
    let cancelled ← cancelRequested
    pure ({ s with history := appendResults s.history calls results }, cancelled)

/-! ### A round -/

inductive StopReason
  | endTurn
  | cancelled
  | maxTokens
  | maxTurnRequests
  | refusal
  deriving DecidableEq

def mapStop : ProviderStop → StopReason
  | .endTurn | .toolUse | .other => .endTurn
  | .maxTokens => .maxTokens
  | .refusal => .refusal

/-- The counters and flags of a run. -/
structure Turn where
  round : ℕ
  handoffAttempts : ℕ
  stopRejections : ℕ
  buzzReplyCallSeen : Bool
  replyNags : ℕ
  contextRecoveries : ℕ
  maxTokensRecoveries : ℕ

/-- The start of a run. -/
def Turn.new : Turn := ⟨0, 0, 0, false, 0, 0, 0⟩

/-- How a round ends: the loop continues, or the run returns. -/
inductive Flow
  | again (s : Session) (t : Turn)
  | finish (result : Except AgentError StopReason) (s : Session)

/-- `MAX_TOKENS_RECOVERY_MESSAGE`. -/
def maxTokensRecoveryMessage : List Char :=
  ("Your previous response reached the model's output token limit and was truncated. Any " ++
    "incomplete tool calls were discarded and were not run. Stop prolonged internal reasoning " ++
    "now. Use the available tools immediately: write a script or artifact to a file and run it " ++
    "in small, verifiable steps instead of emitting the entire solution inline. Continue the " ++
    "task concisely from the preserved text.").toList

/-- `MAX_REPLY_NAGS`. -/
def maxReplyNags : ℕ := 2

/-- `REPLY_GUARD_SERVER`. -/
def replyGuardServer : List Char := "buzz-agent".toList

/-- `REPLY_GUARD_NAG`. -/
def replyGuardNag : List Char :=
  ("You are about to end this turn without calling \x60buzz messages send\x60. Your assistant " ++
    "text and reasoning are never shown to anyone — if you did work, found an answer, or hit a " ++
    "blocker that someone is waiting on, it exists only if you publish it. If you already " ++
    "posted, or if silence is genuinely correct for this turn, ignore this and end your " ++
    "turn.").toList

def stopHook : List Char := "_Stop".toList

/-- `push_hook_outputs_as_tool_results`. -/
def pushHookOutputsAsToolResults (hook : List Char) :
    List (List Char × List Char) → Session → Running Session
  | [], s => pure s
  | (server, text) :: outputs, s => do
    let ordinal ← uniqueNonce
    pushHookOutputsAsToolResults hook outputs
      { s with history := s.history ++ hookPair hook server text ordinal }

/-- The reply guard reminds the model. -/
def remindsReply (cfg : Config) (t : Turn) : Bool :=
  cfg.requireReply && !t.buzzReplyCallSeen && decide (t.replyNags < maxReplyNags)

/-- The turn is about to end with `stop`. -/
def endTurn (cfg : Config) (s : Session) (t : Turn) (stop : StopReason) : Running Flow :=
  if stop ≠ .endTurn then pure (.finish (.ok stop) s)
  else if cfg.stopMaxRejections ≤ t.stopRejections then pure (.finish (.ok stop) s)
  else do
    let outputs ← callHooks stopHook
    let objections :=
      outputs ++ if remindsReply cfg t then [(replyGuardServer, replyGuardNag)] else []
    let t := if remindsReply cfg t then { t with replyNags := t.replyNags + 1 } else t
    if objections.isEmpty then pure (.finish (.ok stop) s)
    else
      let s ← pushHookOutputsAsToolResults stopHook objections s
      pure (.again s { t with stopRejections := t.stopRejections + 1 })

/-- What becomes of a response. -/
def respond (ctx : Ctx) (s : Session) (t : Turn) (response : LlmResponse) : Running Flow :=
  if response.stop = .maxTokens then
    let s := s.push (.assistant response.text [] response.reasoningDetails)
    if ctx.cfg.maxTokenRecoveries ≤ t.maxTokensRecoveries then pure (.finish (.ok .maxTokens) s)
    else
      pure (.again (s.push (.user maxTokensRecoveryMessage))
        { t with maxTokensRecoveries := t.maxTokensRecoveries + 1 })
  else if response.toolCalls.isEmpty then
    if response.stop = .toolUse then
      pure (.finish
        (.error (.llm "provider: stop=tool_use but zero tool_calls".toList)) s)
    else
      endTurn ctx.cfg (s.push (.assistant response.text [] response.reasoningDetails)) t
        (mapStop response.stop)
  else do
    let calls := response.toolCalls.take maxToolCallsPerTurn
    let t :=
      if ctx.cfg.requireReply && !t.buzzReplyCallSeen then
        { t with buzzReplyCallSeen := calls.any (isBuzzReplyCall ctx) }
      else t
    let (s, cancelled) ←
      executeCalls ctx (s.push (.assistant response.text calls response.reasoningDetails)) calls
    if cancelled then pure (.finish (.ok .cancelled) s) else pure (.again s t)

/-- The usage of a response is kept for the gate of the handoff, with the size of the history that
was sent. -/
def Session.measure (s : Session) (response : LlmResponse) : Session :=
  if response.inputTokensOverflowed then s
  else
    match response.inputTokens with
    | some tokens =>
      { s with
        lastRequestInputTokens := some tokens
        lastRequestHistoryBytes := some (pressureBytes s.history) }
    | none => s

@[simp] theorem Session.history_measure (s : Session) (response : LlmResponse) :
    (s.measure response).history = s.history := by
  rw [measure]
  split_ifs
  · rfl
  · cases response.inputTokens <;> rfl

/-- What becomes of an error of the provider. -/
def requestFailed (cfg : Config) (s : Session) (t : Turn) : AgentError → Running Flow
  | .unsupportedImageInput detail =>
    let (history, removed) := replaceUnsupportedImages s.history
    if removed = 0 then pure (.finish (.error (.unsupportedImageInput detail)) s)
    else pure (.again { s with history } t)
  | .llmContextExceeded e => do
    match ← recoverFromContextOverflow cfg s t.contextRecoveries with
    | (.recovered, s, attempts) =>
      pure (.again s.forgetUsage
        { t with contextRecoveries := attempts, round := t.round - 1 })
    | (.cancelled, s, _) => pure (.finish (.ok .cancelled) s)
    | (.exhausted, s, _) => pure (.finish (.error (.llmContextExceeded e)) s)
  | e => pure (.finish (.error e) s)

/-- The request of a round, and what becomes of its answer. -/
def request (ctx : Ctx) (s : Session) (t : Turn) : Running Flow := do
  let tools ← visibleTools
  let t := { t with round := t.round + 1 }
  match ← complete s.history (if ctx.hasSkills then tools ++ [loadSkillTool] else tools) with
  | none => pure (.finish (.ok .cancelled) s)
  | some (.ok response) => respond ctx (s.measure response) t response
  | some (.error e) => requestFailed ctx.cfg s t e

/-- `truncate_history`, with the log of a truncation. -/
def truncated (cfg : Config) (s : Session) : Running Session := do
  let history := truncateHistory s.history cfg.maxHistoryBytes
  if history.length < s.history.length then logTruncated s.history.length history.length
  pure { s with history }

/-- `drain_steers`, with what is queued. -/
def Session.steer (s : Session) (queue : List (List ContentBlock)) : Session :=
  { s with history := s.history ++ (queue.filterMap steerText).map .user }

/-- The body of the loop. -/
def round (ctx : Ctx) (s : Session) (t : Turn) : Running Flow :=
  if 0 < ctx.cfg.maxRounds ∧ ctx.cfg.maxRounds ≤ t.round then
    pure (.finish (.ok .maxTurnRequests) s)
  else do
    if ← cancelRequested then pure (.finish (.ok .cancelled) s)
    else
      let queue ← drainSteers
      match ← maybeHandoff ctx.cfg (s.steer queue) t.handoffAttempts with
      | (.cancelled, s, _) => pure (.finish (.ok .cancelled) s)
      | (.performed, s, attempts) =>
        request ctx s.forgetUsage { t with handoffAttempts := attempts }
      | (.skipped, s, attempts) =>
        let s ← truncated ctx.cfg s
        request ctx s { t with handoffAttempts := attempts }

/-- The loop, for a number of rounds. -/
def rounds (ctx : Ctx) : ℕ → Session → Turn → Running (Except AgentError StopReason × Session)
  | 0, _, _ => .cut
  | fuel + 1, s, t => do
    match ← round ctx s t with
    | .again s t => rounds ctx fuel s t
    | .finish result s => pure (result, s)

/-- The prompt is taken on: it is the original task of the session, if it is the first. -/
def Session.prompt (s : Session) (userText : List Char) : Session :=
  { s with
    history := s.history ++ [.user userText]
    originalTask := s.originalTask.or (some userText) }

def run (ctx : Ctx) (s : Session) (prompt : List ContentBlock) (fuel : ℕ) :
    Running (Except AgentError StopReason × Session) :=
  match acceptPrompt prompt with
  | .error e => pure (.error e, s)
  | .ok userText => rounds ctx fuel (s.prompt userText) .new

/-- The prompts of a session, one run after the other. -/
def converse (ctx : Ctx) : ℕ → Session → Running PUnit
  | 0, _ => .cut
  | fuel + 1, s => do
    let prompt ← nextPrompt
    let (_, s) ← run ctx s prompt fuel
    converse ctx fuel s

end Buzz.Agent
