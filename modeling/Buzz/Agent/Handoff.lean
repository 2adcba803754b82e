import Buzz.Agent.History
import Buzz.Library.Interaction
import Buzz.Library.Metering

/-!
# Handoffs

The environment of an agent session and the context handoff of `handoff.rs`, as programs that call
it. A call that can be cancelled is answered by `none` when it is. The call for a summary carries
the history that the summary is to stand for, besides the prompt that is built from it.

Tokens are 64-bit and saturate. The names of the tools stand for their definitions, of which
nothing else is read here. Of what is logged, only the truncation of a history is kept.

## Main definitions

* `Call`, `Answer`, `Running`: the environment, and programs that call it.
* `Ctx`, `Session`: what a run is given, and what is kept between runs.
* `buildHandoffPrompt`, `handoff`, `maybeHandoff`, `recoverFromContextOverflow`.
-/

namespace Buzz.Agent

open Library

/-! ### The environment -/

inductive ProviderStop
  | endTurn
  | toolUse
  | maxTokens
  | refusal
  | other
  deriving DecidableEq

/-- A response of the provider, without the usage that is only reported. -/
structure LlmResponse where
  text : List Char
  toolCalls : List ToolCall
  stop : ProviderStop
  inputTokens : Option ℕ
  inputTokensOverflowed : Bool
  reasoningDetails : Option Json

/-- The content of a tool's answer, and whether it is an error. -/
structure ToolReply where
  content : List ToolResultContent
  isError : Bool

/-- How a spawned tool task ends. -/
inductive TaskEnd
  /-- The task cannot be joined. -/
  | panicked
  /-- The semaphore is closed, or the cancellation is seen by the task. -/
  | cancelled
  /-- The server answers. -/
  | replied (reply : ToolReply)
  | failed (e : AgentError)
  | timedOut

inductive Call
  /-- A `session/prompt` is awaited. -/
  | nextPrompt
  /-- `*cancel.borrow()`. -/
  | cancelRequested
  /-- What `try_recv` gives until the queue is empty. -/
  | drainSteers
  /-- `mcp.tools()`. -/
  | tools
  | complete (history : List HistoryItem) (tools : List (List Char))
  | summarize (history : List HistoryItem) (prompt : List Char)
  | callHooks (hook : List Char)
  | callLoadSkill (idx : ℕ) (call : ToolCall)
  /-- `join_next` of the tasks that are left, until the cancellation. -/
  | joinNext (tasks : List (ℕ × ToolCall))
  /-- `join_next` of the tasks that are left, until the deadline. -/
  | drainNext (tasks : List (ℕ × ToolCall))
  | uniqueNonce
  | logTruncated (originalLen len : ℕ)

/-- What the environment answers. -/
def Answer : Call → Type
  | .nextPrompt => List ContentBlock
  | .cancelRequested => Bool
  | .drainSteers => List (List ContentBlock)
  | .tools => List (List Char)
  | .complete _ _ => Option (Except AgentError LlmResponse)
  | .summarize _ _ => Option (Except AgentError (List Char))
  | .callHooks _ => List (List Char × List Char)
  | .callLoadSkill _ _ => ToolReply
  | .joinNext tasks => Option (Fin tasks.length × TaskEnd)
  | .drainNext tasks => Option (Fin tasks.length × TaskEnd)
  | .uniqueNonce => ℕ
  | .logTruncated _ _ => PUnit

/-- Programs that call the environment. Their errors are results. -/
abbrev Running := Interaction Answer Empty

def nextPrompt : Running (List ContentBlock) := .call .nextPrompt fun a => .done (.ok a)
def cancelRequested : Running Bool := .call .cancelRequested fun a => .done (.ok a)
def drainSteers : Running (List (List ContentBlock)) := .call .drainSteers fun a => .done (.ok a)
def visibleTools : Running (List (List Char)) := .call .tools fun a => .done (.ok a)
def complete (history : List HistoryItem) (tools : List (List Char)) :
    Running (Option (Except AgentError LlmResponse)) :=
  .call (.complete history tools) fun a => .done (.ok a)
def summarize (history : List HistoryItem) (prompt : List Char) :
    Running (Option (Except AgentError (List Char))) :=
  .call (.summarize history prompt) fun a => .done (.ok a)
def callHooks (hook : List Char) : Running (List (List Char × List Char)) :=
  .call (.callHooks hook) fun a => .done (.ok a)
def callLoadSkill (idx : ℕ) (call : ToolCall) : Running ToolReply :=
  .call (.callLoadSkill idx call) fun a => .done (.ok a)
def joinNext (tasks : List (ℕ × ToolCall)) : Running (Option (Fin tasks.length × TaskEnd)) :=
  .call (.joinNext tasks) fun a => .done (.ok a)
def drainNext (tasks : List (ℕ × ToolCall)) : Running (Option (Fin tasks.length × TaskEnd)) :=
  .call (.drainNext tasks) fun a => .done (.ok a)
def uniqueNonce : Running ℕ := .call .uniqueNonce fun a => .done (.ok a)
def logTruncated (originalLen len : ℕ) : Running PUnit :=
  .call (.logTruncated originalLen len) fun a => .done (.ok a)

/-! ### What a run is given -/

inductive Provider
  | anthropic
  | openAi
  | openRouter
  | databricks
  | databricksV2
  deriving DecidableEq

/-- The settings that a run reads. `toolTimeoutSecs` is `tool_timeout` in seconds. -/
structure Config where
  provider : Provider
  maxRounds : ℕ
  maxTokenRecoveries : ℕ
  toolTimeoutSecs : ℕ
  maxHistoryBytes : ℕ
  maxContextTokens : ℕ
  maxHandoffs : ℕ
  stopMaxRejections : ℕ
  requireReply : Bool

/-- What a run is given: its settings, the qualified and the bare names of the registered tools, and
whether there are skills. -/
structure Ctx where
  cfg : Config
  byQname : List (List Char × List Char)
  hasSkills : Bool

/-- What is kept between the runs of a session. -/
structure Session where
  history : List HistoryItem
  originalTask : Option (List Char)
  handoffCount : ℕ
  lastRequestInputTokens : Option ℕ
  lastRequestHistoryBytes : Option ℕ

/-- A new session. -/
def Session.new : Session := ⟨[], none, 0, none, none⟩

def Session.push (s : Session) (item : HistoryItem) : Session :=
  { s with history := s.history ++ [item] }

/-- The context has been reset: what was measured of it is forgotten. -/
def Session.forgetUsage (s : Session) : Session :=
  { s with lastRequestInputTokens := none, lastRequestHistoryBytes := none }

@[simp] theorem Session.history_push (s : Session) (item : HistoryItem) :
    (s.push item).history = s.history ++ [item] := rfl

/-! ### Budgets -/

/-- `u64::MAX`. -/
def u64Max : ℕ := 2 ^ 64 - 1

/-- `HANDOFF_MAX_OUTPUT_TOKENS`. -/
def handoffMaxOutputTokens : ℕ := 8192

/-- `HANDOFF_ORIGINAL_TASK_MAX_BYTES`. -/
def handoffOriginalTaskMaxBytes : ℕ := 16 * 1024

/-- `HANDOFF_MAX_TOOL_NAMES`. -/
def handoffMaxToolNames : ℕ := 20

/-- `MAX_CONTEXT_RECOVERIES_PER_RUN`. -/
def maxContextRecoveriesPerRun : ℕ := 3

/-- `HANDOFF_MIN_PROMPT_BUDGET_BYTES`. -/
def handoffMinPromptBudgetBytes : ℕ := 4 * 1024

/-- `CONSERVATIVE_BYTES_PER_TOKEN`. -/
def conservativeBytesPerToken : ℕ := 1

def summaryCompletionCap (provider : Provider) (maxOutputTokens : ℕ) : ℕ :=
  if provider = .openRouter then satMul (2 ^ 32 - 1) maxOutputTokens 2 else maxOutputTokens

def handoffPromptBudgetBytes (maxContextTokens maxOutputTokens fixedPromptBytes : ℕ) : ℕ :=
  satMul u64Max (maxContextTokens - maxOutputTokens) conservativeBytesPerToken - fixedPromptBytes

/-- `div_ceil`, of one byte to a token. -/
def estimateTokensFromBytes (bytes : ℕ) : ℕ :=
  (bytes + (conservativeBytesPerToken - 1)) / conservativeBytesPerToken

def tokenThreshold (maxContextTokens : ℕ) : ℕ := maxContextTokens / 10 * 9

def byteFallbackThreshold (maxContextTokens maxHistoryBytes : ℕ) : ℕ :=
  min (satMul u64Max (tokenThreshold maxContextTokens) conservativeBytesPerToken)
    (maxHistoryBytes / 10 * 9)

def projectedHandoffInputTokens (s : Session) : ℕ :=
  match s.lastRequestInputTokens with
  | some measuredTokens =>
    let grown := pressureBytes s.history - s.lastRequestHistoryBytes.getD 0
    satAdd u64Max measuredTokens (estimateTokensFromBytes grown)
  | none => estimateTokensFromBytes (pressureBytes s.history)

def shouldHandoff (cfg : Config) (s : Session) : Bool :=
  match s.lastRequestInputTokens with
  | some _ => decide (tokenThreshold cfg.maxContextTokens ≤ projectedHandoffInputTokens s)
  | none =>
    decide (byteFallbackThreshold cfg.maxContextTokens cfg.maxHistoryBytes <
      pressureBytes s.history)

/-! ### The prompt of the summarizer -/

/-- The longest start of a text of at most `n` bytes that ends between two characters. -/
def takeBytes : ℕ → List Char → List Char
  | _, [] => []
  | n, c :: text => if c.utf8Size ≤ n then c :: takeBytes (n - c.utf8Size) text else []

def clampBytes (s : List Char) (maxBytes : ℕ) : List Char :=
  if len s ≤ maxBytes then s
  else if maxBytes < 4 then takeBytes maxBytes s
  else takeBytes (maxBytes - len "…".toList) s ++ "…".toList

/-- `push_history_snippet`. -/
def historySnippet : HistoryItem → List Char
  | .user s => "[user] ".toList ++ s ++ ['\n']
  | .assistant text toolCalls _ =>
    "[assistant] ".toList ++ text ++
      toolCalls.flatMap (fun c => " tool:".toList ++ c.name) ++ ['\n']
  | .toolResult r =>
    (if r.isError then "[tool_err] ".toList else "[tool] ".toList) ++ r.text ++ ['\n']

/-- The snippets that are kept, their bytes, and how many are dropped. -/
structure Snippets where
  kept : List (List Char)
  bytes : ℕ
  dropped : ℕ

/-- The body of the loop over the snippets, from the newest on. -/
def Snippets.add (promptBudget : ℕ) (acc : Snippets) (item : HistoryItem) : Snippets :=
  let snippet := historySnippet item
  if promptBudget < satAdd u64Max acc.bytes (len snippet) then
    if acc.kept.isEmpty then ⟨[clampBytes snippet promptBudget], promptBudget, acc.dropped + 1⟩
    else { acc with dropped := acc.dropped + 1 }
  else { acc with kept := snippet :: acc.kept, bytes := acc.bytes + len snippet }

/-- The names of the tools, as far as they are shown. -/
def toolNames (tools : List (List Char)) : List Char :=
  if tools.isEmpty then "(none)\n".toList
  else
    (", ".toList).intercalate (tools.take handoffMaxToolNames) ++
      (if handoffMaxToolNames < tools.length then
        ", … (+".toList ++ Nat.toDigits 10 (tools.length - handoffMaxToolNames) ++ " more)".toList
      else []) ++ ['\n']

def handoffHead (s : Session) (tools : List (List Char)) : List Char :=
  "[Internal handoff #".toList ++ Nat.toDigits 10 (s.handoffCount + 1) ++
    " — context reset]\n\n".toList ++ "# Original Task\n".toList ++
    clampBytes (s.originalTask.getD "(unknown)".toList) handoffOriginalTaskMaxBytes ++
    "\n\n# Available Tools\n".toList ++ toolNames tools

def handoffTail : List Char :=
  ("\n# Instructions\nProduce a context handoff summary covering: (1) original task, (2) what " ++
    "was accomplished, (3) key decisions, (4) what remains, (5) one concrete next step. Be " ++
    "concise but thorough. Plain text.\n").toList

def handoffHistoryHeader : List Char := "\n# Session History (oldest first)\n".toList

def buildHandoffPrompt (cfg : Config) (s : Session) (tools : List (List Char))
    (historyBudgetBytes : Option ℕ) : List Char :=
  let head := handoffHead s tools
  let fixedBytes := len head + len handoffHistoryHeader + len handoffTail
  let promptBudget :=
    match historyBudgetBytes with
    | some explicit => explicit - fixedBytes
    | none =>
      handoffPromptBudgetBytes cfg.maxContextTokens
        (summaryCompletionCap cfg.provider handoffMaxOutputTokens) fixedBytes
  let snippets := s.history.reverse.foldl (Snippets.add promptBudget) ⟨[], 0, 0⟩
  head ++ handoffHistoryHeader ++
    (if 0 < snippets.dropped then
      "(… ".toList ++ Nat.toDigits 10 snippets.dropped ++ " older items omitted)\n".toList
    else []) ++ snippets.kept.flatten ++ handoffTail

/-! ### The handoff -/

/-- The user item that is seated again: the last one. -/
def currentPrompt (history : List HistoryItem) : Option (List Char) :=
  history.reverse.findSome? fun
    | .user s => some s
    | _ => none

def hookOutputsText (outputs : List (List Char × List Char)) : List Char :=
  ("\n\n".toList).intercalate
    (outputs.map fun o => "[".toList ++ o.1 ++ "]\n".toList ++ o.2)

/-- The text that stands for the history. -/
def handoffText (summary : List Char) (postCompact : List (List Char × List Char)) : List Char :=
  "[Context Handoff]\n".toList ++ summary ++
    (if postCompact.isEmpty then []
    else "\n\n[Post-compact hook output — untrusted]\n".toList ++ hookOutputsText postCompact)

/-- The history after a handoff. -/
def handoffHistory (summary : List Char) (postCompact : List (List Char × List Char))
    (history : List HistoryItem) : List HistoryItem :=
  .user (handoffText summary postCompact) :: (currentPrompt history).toList.map .user

def postCompactHook : List Char := "_PostCompact".toList

inductive HandoffOutcome
  | performed
  | skipped
  | cancelled

def handoff (cfg : Config) (s : Session) (historyBudgetBytes : Option ℕ) :
    Running (HandoffOutcome × Session) := do
  let tools ← visibleTools
  match ← summarize s.history (buildHandoffPrompt cfg s tools historyBudgetBytes) with
  | none => pure (.cancelled, s)
  | some (.error _) => pure (.skipped, s)
  | some (.ok summary) =>
    if isBlank summary then pure (.skipped, s)
    else
      let postCompact ← callHooks postCompactHook
      pure (.performed, { s with
        history := handoffHistory summary postCompact s.history
        handoffCount := s.handoffCount + 1 })

/-- The outcome, the session and the number of attempts. -/
def maybeHandoff (cfg : Config) (s : Session) (handoffAttempts : ℕ) :
    Running (HandoffOutcome × Session × ℕ) :=
  if !shouldHandoff cfg s then pure (.skipped, s, handoffAttempts)
  else if cfg.maxHandoffs ≤ handoffAttempts then pure (.skipped, s, handoffAttempts)
  else do
    let (outcome, s) ← handoff cfg s none
    pure (outcome, s, handoffAttempts + 1)

inductive ContextRecovery
  | recovered
  | cancelled
  | exhausted

/-- The loop of `recover_from_context_overflow`, with the attempts that are left. -/
def recoverLoop (cfg : Config) (rejectedBytes : ℕ) :
    ℕ → Session → ℕ → Running (ContextRecovery × Session × ℕ)
  | 0, s, attempts => pure (.exhausted, s, attempts)
  | left + 1, s, attempts =>
    let budget := rejectedBytes >>> min (attempts + 1) 63
    if budget < handoffMinPromptBudgetBytes then pure (.exhausted, s, attempts + 1)
    else do
      match ← handoff cfg s (some budget) with
      | (.performed, s) => pure (.recovered, s, attempts + 1)
      | (.cancelled, s) => pure (.cancelled, s, attempts + 1)
      | (.skipped, s) => recoverLoop cfg rejectedBytes left s (attempts + 1)

def recoverFromContextOverflow (cfg : Config) (s : Session) (attempts : ℕ) :
    Running (ContextRecovery × Session × ℕ) :=
  recoverLoop cfg (pressureBytes s.history) (maxContextRecoveriesPerRun - attempts) s attempts

end Buzz.Agent
