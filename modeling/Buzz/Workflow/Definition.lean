import Mathlib.Data.String.Basic
import Buzz.Library.Outcome
import Buzz.Workflow.Interval

/-!
# Workflow definitions and their validation

The definition of a workflow and `WorkflowDef::validate` (`crates/buzz-workflow/src/schema.rs`).
A validated definition has steps with distinct ids, and every id is a word of at most 64 letters,
digits and underscores. What neither the validation nor the executor's templates read is left out:
the description, the enabled flag, and the filters inside a trigger are kept as texts.

## Main definitions

* `WorkflowError`, `TriggerDef`, `ActionDef`, `Step`, `WorkflowDef`.
* `WorkflowDef.validate`.
-/

namespace Buzz.Workflow

open Buzz.Library

/-- The errors of the engine that definitions, conditions and templates meet. -/
inductive WorkflowError
  | invalidDefinition (message : List Char)
  | conditionError (message : List Char)
  | templateError (message : List Char)
  deriving DecidableEq

/-! ### Definitions -/

/-- What starts a workflow. -/
inductive TriggerDef
  | messagePosted (filter : Option (List Char))
  | reactionAdded (emoji filter : Option (List Char))
  | diffPosted (filter : Option (List Char))
  | schedule (cron interval : Option (List Char))
  | webhook

/-- What a step does. -/
inductive ActionDef
  | sendMessage (text : List Char) (channel : Option (List Char)) (replyInThread : Bool)
  | sendDm («to» text : List Char)
  | setChannelTopic (topic : List Char)
  | addReaction (emoji : List Char)
  | callWebhook (url : List Char) (method : Option (List Char))
      (headers : Option (HashMap (List Char) (List Char))) (body : Option (List Char))
  | requestApproval («from» message : List Char) (timeout : Option (List Char))
  | delay (duration : List Char)

/-- A step, with its condition. -/
structure Step where
  id : List Char
  ifExpr : Option (List Char)
  action : ActionDef

/-- A workflow definition. -/
structure WorkflowDef where
  name : List Char
  trigger : TriggerDef
  steps : List Step

/-! ### Validation -/

/-- The `cron` crate, with the text of a parse error. -/
structure CronParser extends CronCrate where
  parseError : List Char → List Char

/-- An id that can stand in a variable name. -/
def validStepId (id : List Char) : Bool :=
  !id.isEmpty && decide (String.utf8Len id ≤ 64) && id.all fun c => c.isAlphanum || c == '_'

/-- The checks of one step, after those of the steps before it. -/
def checkStep (seenIds : List (List Char)) (step : Step) :
    Except WorkflowError (List (List Char)) :=
  if (trim step.id).isEmpty then .error (.invalidDefinition "step id must not be empty".toList)
  else if !validStepId step.id then
    .error (.invalidDefinition ("step id '".toList ++ step.id ++
      "' is invalid: must contain only alphanumeric characters and underscores".toList))
  else if step.id ∈ seenIds then
    .error (.invalidDefinition ("duplicate step id: ".toList ++ step.id))
  else .ok (step.id :: seenIds)

/-- Whether a trigger carries a message to reply to. -/
def TriggerDef.hasMessage : TriggerDef → Bool
  | messagePosted _ | reactionAdded _ _ | diffPosted _ => true
  | schedule _ _ | webhook => false

/-- A reply needs a message. -/
def checkReply (step : Step) : Except WorkflowError Unit :=
  match step.action with
  | .sendMessage _ _ true =>
    .error (.invalidDefinition ("step '".toList ++ step.id ++
      ("': reply_in_thread requires a message-based trigger " ++
        "(message_posted, reaction_added, or diff_posted); " ++
        "schedule and webhook triggers have no message to reply to").toList))
  | _ => .ok ()

/-- `validate_cron`. -/
def validateCron (cron : CronParser) (expr : List Char) : Except WorkflowError Unit :=
  match cron.parse (normalizeCron expr) with
  | some _ => .ok ()
  | none =>
    .error (.invalidDefinition ("invalid cron expression '".toList ++ expr ++ "': ".toList ++
      cron.parseError (normalizeCron expr)))

/-- The check of an interval; the scheduler ticks once a minute. -/
def validateInterval (dur : List Char) : Except WorkflowError Unit :=
  match parseDurationSecs dur with
  | .ok secs =>
    if secs < 60 then
      .error (.invalidDefinition
        "interval must be at least 60s (cron loop ticks every 60 seconds)".toList)
    else .ok ()
  | .error _ =>
    .error (.invalidDefinition ("invalid interval '".toList ++ dur ++
      "': expected a duration like '30m', '1h', or '60s'".toList))

/-- The checks of a schedule. -/
def TriggerDef.checkSchedule (cron : CronParser) : TriggerDef → Except WorkflowError Unit
  | schedule none none =>
    .error (.invalidDefinition "schedule trigger requires either 'cron' or 'interval'".toList)
  | schedule (some _) (some _) =>
    .error (.invalidDefinition
      "schedule trigger cannot specify both 'cron' and 'interval'; use one or the other".toList)
  | schedule (some expr) none => validateCron cron expr
  | schedule none (some dur) => validateInterval dur
  | _ => .ok ()

/-- Validate a workflow definition. -/
def WorkflowDef.validate (cron : CronParser) (d : WorkflowDef) : Except WorkflowError Unit :=
  if (trim d.name).isEmpty then
    .error (.invalidDefinition "name is required and must not be empty".toList)
  else if d.steps.isEmpty then
    .error (.invalidDefinition "at least one step is required".toList)
  else do
    let _ ← d.steps.foldlM checkStep []
    if d.trigger.hasMessage then pure () else d.steps.forM checkReply
    d.trigger.checkSchedule cron

end Buzz.Workflow
