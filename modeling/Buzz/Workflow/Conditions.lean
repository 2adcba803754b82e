import Buzz.Library.Json
import Buzz.Library.TypedMap
import Buzz.Workflow.Definition

/-!
# The variables of workflow conditions

`build_eval_context` of `crates/buzz-workflow/src/executor.rs` gives the condition of a step its
variables: the fields of a webhook body and the trigger's own fields as `trigger_FIELD`, and the
fields of earlier outputs as `steps_STEP_ID_output_FIELD`. They all share one map, in which a name
keeps the type of its first value.

Two things go wrong there. A webhook field `is_reply` gives `trigger_is_reply` a text before the
trigger gives it a boolean, and the write is refused. And the name of a variable does not determine
the step and the field: `a` with `b_output_c` and `a_output_b` with `c` share one.

The text functions that the source registers stand in another table of the context and are left out,
and so is the evaluation of an expression, which `evaluateCondition` takes as a parameter.

## Main definitions

* `TriggerContext`, `JsonValue`, `EvalValue`, `buildEvalContext`, `evaluateCondition`.
* `SharesVariable`: two fields of different steps with one variable.
* `Binds`: what the conditions of a run should see.

## Main results

* `stepVariable_eq_iff`: which fields share a variable.
* `lookup_buildEvalContext_iff`: the variables of a context are those it should have.
* `seesTrigger_iff`: when conditions see the genuine trigger.
* `addressesOutputs_iff`: when they see every field of every output.
-/

namespace Buzz.Workflow

open Buzz.Library

/-! ### Triggers and outputs -/

/-- Data extracted from the triggering event, passed to every step. -/
structure TriggerContext where
  text : List Char
  author : List Char
  channelId : List Char
  timestamp : List Char
  emoji : List Char
  messageId : List Char
  isReply : Bool
  webhookFields : HashMap (List Char) (List Char)

/-- A `serde_json` value: an object names each member once. -/
structure JsonValue where
  json : Json
  distinct : ∀ members, json = .obj members → (members.map Prod.fst).Nodup

/-- The outputs of earlier steps, by step id. -/
abbrev StepOutputs := HashMap (List Char) JsonValue

/-- The output of a step is an object with a field. -/
def Field (outputs : StepOutputs) (s f : List Char) (j : Json) : Prop :=
  ∃ output members, outputs.lookup s = some output ∧ output.json = .obj members ∧ (f, j) ∈ members

/-! ### Values and variables -/

/-- A value of a variable, over the floats of the machine. -/
inductive EvalValue (F : Type)
  | string (text : List Char)
  | float (x : F)
  | int (n : ℤ)
  | boolean (b : Bool)
  | empty

/-- The type of a value. -/
inductive EvalType
  | string
  | float
  | int
  | boolean
  | empty
  deriving DecidableEq

/-- `ValueType::from`. -/
def EvalValue.type {F : Type} : EvalValue F → EvalType
  | string _ => .string
  | float _ => .float
  | int _ => .int
  | boolean _ => .boolean
  | empty => .empty

/-- What the context uses of `serde_json` and `evalexpr`: the float of a number, and the text of the
error for a value and another one that should have its type. -/
structure EvalCrates where
  F : Type
  asF64 : Json → Option F
  expectedType : EvalValue F → EvalValue F → List Char

variable (crates : EvalCrates)

/-- The variables of a condition. -/
abbrev EvalContext := HashMap (List Char) (EvalValue crates.F)

/-- `HashMapContext::set_value`. A new name is inserted, a value of the same type is replaced, and a
value of another type is refused. -/
def setValue : EvalContext crates → List Char × EvalValue crates.F →
    Except WorkflowError (EvalContext crates) :=
  TypedMap.write EvalValue.type fun old value =>
    .conditionError (crates.expectedType old value)

/-- Convert a number: an integer of 64 bits, or else a float. -/
def numberToEval (number : Json) : EvalValue crates.F :=
  match crates.asF64 number with
  | some x => .float x
  | none => .string number.render

/-- Convert a JSON value. -/
def jsonValueToEval : Json → EvalValue crates.F
  | .str s => .string s
  | .bool b => .boolean b
  | .int n =>
    if -2 ^ 63 ≤ n ∧ n < 2 ^ 63 then .int n else numberToEval crates (.int n)
  | .float text => numberToEval crates (.float text)
  | .null => .empty
  | other => .string other.render

/-- A webhook field that is skipped: its name looks like the variable of a trigger or an output. -/
def skipsKey (key : List Char) : Bool :=
  "trigger_".toList.isPrefixOf key || "steps_".toList.isPrefixOf key

/-- The variable of a webhook field. -/
def triggerVariable (key : List Char) : List Char := "trigger_".toList ++ key

/-- The variable of a field of an output. -/
def stepVariable (stepId field : List Char) : List Char :=
  "steps_".toList ++ stepId ++ "_output_".toList ++ field

theorem triggerVariable_def (key : List Char) :
    triggerVariable key = "trigger_".toList ++ key := rfl

theorem stepVariable_def (s f : List Char) :
    stepVariable s f = "steps_".toList ++ s ++ "_output_".toList ++ f := rfl

/-- The trigger's own texts, by variable. -/
def triggerFields (tc : TriggerContext) : List (List Char × List Char) :=
  [("trigger_text".toList, tc.text), ("trigger_author".toList, tc.author),
    ("trigger_channel_id".toList, tc.channelId), ("trigger_timestamp".toList, tc.timestamp),
    ("trigger_emoji".toList, tc.emoji), ("trigger_message_id".toList, tc.messageId)]

/-- The variable of a field of one output. -/
def setField (stepId : List Char) (ctx : EvalContext crates) (m : List Char × Json) :
    Except WorkflowError (EvalContext crates) :=
  setValue crates ctx (stepVariable stepId m.1, jsonValueToEval crates m.2)

/-- Build the variables of a condition from the trigger and the outputs: first the webhook fields,
then the trigger's own, and last the outputs. -/
def buildEvalContext (tc : TriggerContext) (outputs : StepOutputs) :
    Except WorkflowError (EvalContext crates) := do
  let ctx ← tc.webhookFields.entries.foldlM (fun ctx e =>
    if skipsKey e.1 then pure ctx
    else setValue crates ctx (triggerVariable e.1, .string e.2)) ∅
  let ctx ← (triggerFields tc).foldlM (fun ctx field =>
    setValue crates ctx (field.1, .string field.2)) ctx
  let ctx ← setValue crates ctx ("trigger_is_reply".toList, .boolean tc.isReply)
  outputs.entries.foldlM (fun ctx e =>
    match e.2.json with
    | .obj members => members.foldlM (setField crates e.1) ctx
    | _ => pure ctx) ctx

/-- What came of an evaluation on the blocking thread. -/
inductive Evaluated
  | value (b : Bool)
  | failed (message : List Char)
  | panicked (message : List Char)
  | timedOut

/-- Evaluate the condition of a step. -/
def evaluateCondition (evalBoolean : List Char → EvalContext crates → Evaluated)
    (expr : List Char) (tc : TriggerContext) (outputs : StepOutputs) :
    Except WorkflowError Bool := do
  let ctx ← buildEvalContext crates tc outputs
  if 4096 < String.utf8Len expr then
    .error (.conditionError "condition expression exceeds 4096 byte limit".toList)
  else
    match evalBoolean expr ctx with
    | .value b => .ok b
    | .failed message =>
      .error (.conditionError ("'".toList ++ expr ++ "': ".toList ++ message))
    | .panicked message =>
      .error (.conditionError ("'".toList ++ expr ++ "': eval task panicked: ".toList ++ message))
    | .timedOut =>
      .error (.conditionError ("'".toList ++ expr ++ "': evaluation timed out after 100ms".toList))

/-! ### The context as one sequence of writes -/

/-- The writes of the webhook fields. -/
def webhookWrites (tc : TriggerContext) : List (List Char × EvalValue crates.F) :=
  (tc.webhookFields.entries.filter fun e => !skipsKey e.1).map fun e =>
    (triggerVariable e.1, .string e.2)

/-- The writes of the trigger's own fields. -/
def ownWrites (tc : TriggerContext) : List (List Char × EvalValue crates.F) :=
  ((triggerFields tc).map fun field => (field.1, .string field.2)) ++
    [("trigger_is_reply".toList, .boolean tc.isReply)]

/-- The members of an object. -/
def members : Json → List (List Char × Json)
  | .obj ms => ms
  | _ => []

/-- The writes of the outputs. -/
def outputWrites (outputs : StepOutputs) : List (List Char × EvalValue crates.F) :=
  outputs.entries.flatMap fun e => (members e.2.json).map fun m =>
    (stepVariable e.1 m.1, jsonValueToEval crates m.2)

/-- All writes, in their order. -/
def contextWrites (tc : TriggerContext) (outputs : StepOutputs) :
    List (List Char × EvalValue crates.F) :=
  webhookWrites crates tc ++ ownWrites crates tc ++ outputWrites crates outputs

variable {crates} {tc : TriggerContext} {outputs : StepOutputs}

theorem foldlM_outputWrites (ctx : EvalContext crates) :
    (outputWrites crates outputs).foldlM (setValue crates) ctx =
      outputs.entries.foldlM (fun ctx e =>
        match e.2.json with
        | .obj members => members.foldlM (setField crates e.1) ctx
        | _ => pure ctx) ctx := by
  rw [outputWrites]
  induction outputs.entries generalizing ctx with
  | nil => rfl
  | cons e es ih =>
    have hfirst : ((members e.2.json).map fun m =>
        (stepVariable e.1 m.1, jsonValueToEval crates m.2)).foldlM (setValue crates) ctx =
          match e.2.json with
          | .obj members => members.foldlM (setField crates e.1) ctx
          | _ => pure ctx := by
      rw [List.foldlM_map]
      rcases e.2.json with _ | _ | _ | _ | _ | _ | _ <;> rfl
    rw [List.flatMap_cons, List.foldlM_append, List.foldlM_cons, hfirst]
    exact congrArg (_ >>= ·) (funext ih)

theorem buildEvalContext_eq_writes :
    buildEvalContext crates tc outputs =
      TypedMap.writes EvalValue.type
        (fun old value => .conditionError (crates.expectedType old value)) ∅
        (contextWrites crates tc outputs) := by
  have hskip : ∀ (ctx : EvalContext crates) (e : Σ _ : List Char, List Char),
      (if (!skipsKey e.1) = true then setValue crates ctx (triggerVariable e.1, .string e.2)
        else pure ctx) =
      if skipsKey e.1 then pure ctx
        else setValue crates ctx (triggerVariable e.1, .string e.2) := by
    intro ctx e
    cases skipsKey e.1 <;> rfl
  change _ = (contextWrites crates tc outputs).foldlM (setValue crates) ∅
  simp only [contextWrites, webhookWrites, ownWrites, List.foldlM_append, List.foldlM_map,
    List.foldlM_filter, List.foldlM_cons, List.foldlM_nil, bind_pure, foldlM_outputWrites,
    bind_assoc, hskip]
  rfl

/-! ### The names of the writes -/

theorem mem_webhookWrites {w : List Char × EvalValue crates.F} :
    w ∈ webhookWrites crates tc ↔ ∃ key text, tc.webhookFields.lookup key = some text ∧
      skipsKey key = false ∧ w = (triggerVariable key, .string text) := by
  simp only [webhookWrites, List.mem_map, List.mem_filter]
  constructor
  · rintro ⟨⟨key, text⟩, ⟨hmem, hskip⟩, rfl⟩
    exact ⟨key, text, HashMap.mem_entries_iff.mp hmem, by simpa using hskip, rfl⟩
  · rintro ⟨key, text, hlookup, hskip, rfl⟩
    exact ⟨⟨key, text⟩, ⟨HashMap.mem_entries_iff.mpr hlookup, by simp [hskip]⟩, rfl⟩

theorem mem_outputWrites {w : List Char × EvalValue crates.F} :
    w ∈ outputWrites crates outputs ↔
      ∃ s f j, Field outputs s f j ∧ w = (stepVariable s f, jsonValueToEval crates j) := by
  simp only [outputWrites, List.mem_flatMap, List.mem_map, Field]
  constructor
  · rintro ⟨⟨s, output⟩, hmem, ⟨f, j⟩, hfield, rfl⟩
    rcases hjson : output.json with _ | _ | _ | _ | _ | _ | ms <;>
      simp only [hjson, members, List.not_mem_nil] at hfield
    exact ⟨s, f, j, ⟨output, ms, HashMap.mem_entries_iff.mp hmem, hjson, hfield⟩, rfl⟩
  · rintro ⟨s, f, j, ⟨output, ms, hlookup, hjson, hfield⟩, rfl⟩
    exact ⟨⟨s, output⟩, HashMap.mem_entries_iff.mpr hlookup, (f, j),
      by simpa only [hjson, members] using hfield, rfl⟩

/-- The variables of webhook fields, of the trigger and of outputs start differently. -/
theorem stepVariable_ne_triggerVariable (s f key : List Char) :
    stepVariable s f ≠ triggerVariable key := by
  simp [stepVariable_def, triggerVariable_def]

theorem triggerVariable_inj {key key' : List Char}
    (h : triggerVariable key = triggerVariable key') : key = key' :=
  List.append_cancel_left h

/-- The trigger's own values, by the name of the field. -/
def ownFields (crates : EvalCrates) (tc : TriggerContext) : List (List Char × EvalValue crates.F) :=
  [("text".toList, .string tc.text), ("author".toList, .string tc.author),
    ("channel_id".toList, .string tc.channelId), ("timestamp".toList, .string tc.timestamp),
    ("emoji".toList, .string tc.emoji), ("message_id".toList, .string tc.messageId),
    ("is_reply".toList, .boolean tc.isReply)]

theorem mem_ownWrites {w : List Char × EvalValue crates.F} :
    w ∈ ownWrites crates tc ↔
      ∃ key v, (key, v) ∈ ownFields crates tc ∧ w = (triggerVariable key, v) := by
  have hfields : ownWrites crates tc =
      (ownFields crates tc).map fun e => (triggerVariable e.1, e.2) := rfl
  simp only [hfields, List.mem_map, Prod.exists, eq_comm]

theorem type_of_mem_ownFields {key : List Char} {v : EvalValue crates.F}
    (h : (key, v) ∈ ownFields crates tc) :
    v.type = if key = "is_reply".toList then .boolean else .string := by
  simp only [ownFields, List.mem_cons, Prod.mk.injEq, List.not_mem_nil, or_false] at h
  rcases h with ⟨rfl, rfl⟩ | ⟨rfl, rfl⟩ | ⟨rfl, rfl⟩ | ⟨rfl, rfl⟩ | ⟨rfl, rfl⟩ | ⟨rfl, rfl⟩ |
    ⟨rfl, rfl⟩ <;> simp [EvalValue.type]

theorem ownFields_unique {key : List Char} {v v' : EvalValue crates.F}
    (h : (key, v) ∈ ownFields crates tc) (h' : (key, v') ∈ ownFields crates tc) : v = v' := by
  have hnodup : ((ownFields crates tc).map Prod.fst).Nodup := by simp [ownFields]
  exact List.inj_on_of_nodup_map hnodup h h' rfl |> congrArg Prod.snd

/-! ### Fields with one variable -/

/-- Two fields with one variable, the first of the step with the shorter id: what follows the
shorter id in the longer one begins the first field. -/
def SharesVariable (s f s' f' : List Char) : Prop :=
  (∃ m, s' = s ++ "_output_".toList ++ m ∧ f = m ++ "_output_".toList ++ f') ∨
    (s' = s ++ "_output".toList ∧ f = "output_".toList ++ f')

/-- An overlap of two separators: either one ends before the other begins, or they share the
underscore between them. -/
theorem separator_eq_append_iff {f f' t : List Char} (ht : t ≠ []) :
    "_output_".toList ++ f = t ++ ("_output_".toList ++ f') ↔
      (∃ m, t = "_output_".toList ++ m ∧ f = m ++ "_output_".toList ++ f') ∨
        (t = "_output".toList ∧ f = "output_".toList ++ f') := by
  constructor
  · intro h
    rcases t with _ | ⟨c₁, _ | ⟨c₂, _ | ⟨c₃, _ | ⟨c₄, _ | ⟨c₅, _ | ⟨c₆, _ | ⟨c₇, _ | ⟨c₈, m⟩⟩⟩⟩⟩⟩⟩⟩
    · exact absurd rfl ht
    all_goals simp at h
    · obtain ⟨rfl, rfl, rfl, rfl, rfl, rfl, rfl, rfl⟩ := h
      exact .inr ⟨by simp, by simp⟩
    · obtain ⟨rfl, rfl, rfl, rfl, rfl, rfl, rfl, rfl, rfl⟩ := h
      exact .inl ⟨m, by simp, by simp⟩
  · rintro (⟨m, rfl, rfl⟩ | ⟨rfl, rfl⟩)
    · simp
    · simp

/-- Which fields share a variable. -/
theorem stepVariable_eq_iff {s f s' f' : List Char} :
    stepVariable s f = stepVariable s' f' ↔
      (s = s' ∧ f = f') ∨ SharesVariable s f s' f' ∨ SharesVariable s' f' s f := by
  have hlonger : ∀ {s f s' f' : List Char}, (∃ t, t ≠ [] ∧ s' = s ++ t ∧
      "_output_".toList ++ f = t ++ ("_output_".toList ++ f')) ↔ SharesVariable s f s' f' := by
    intro s f s' f'
    constructor
    · rintro ⟨t, ht, rfl, h⟩
      rcases (separator_eq_append_iff ht).mp h with ⟨m, rfl, hf⟩ | ⟨rfl, hf⟩
      · exact .inl ⟨m, by simp, hf⟩
      · exact .inr ⟨rfl, hf⟩
    · rintro (⟨m, rfl, rfl⟩ | ⟨rfl, rfl⟩)
      · exact ⟨"_output_".toList ++ m, by simp, by simp, by simp⟩
      · exact ⟨"_output".toList, by simp, rfl, by simp⟩
  simp only [stepVariable_def, List.append_assoc, List.append_cancel_left_eq]
  rw [List.append_eq_append_iff, ← hlonger, ← hlonger]
  constructor
  · rintro (⟨t, hs, h⟩ | ⟨t, hs, h⟩)
    · rcases eq_or_ne t [] with rfl | ht
      · exact .inl ⟨by simpa using hs.symm, List.append_cancel_left h⟩
      · exact .inr (.inl ⟨t, ht, hs, h⟩)
    · rcases eq_or_ne t [] with rfl | ht
      · exact .inl ⟨by simpa using hs, (List.append_cancel_left h).symm⟩
      · exact .inr (.inr ⟨t, ht, hs, h⟩)
  · rintro (⟨rfl, rfl⟩ | ⟨t, -, hs, h⟩ | ⟨t, -, hs, h⟩)
    · exact .inl ⟨[], by simp, by simp⟩
    · exact .inl ⟨t, hs, h⟩
    · exact .inr ⟨t, hs, h⟩

theorem Field.unique {s f : List Char} {j j' : Json} (h : Field outputs s f j)
    (h' : Field outputs s f j') : j = j' := by
  obtain ⟨output, ms, hlookup, hjson, hmem⟩ := h
  obtain ⟨output', ms', hlookup', hjson', hmem'⟩ := h'
  obtain rfl := Option.some.inj (hlookup.symm.trans hlookup')
  obtain rfl := Json.obj.inj (hjson.symm.trans hjson')
  have hpair := List.inj_on_of_nodup_map (output.distinct ms hjson) hmem hmem' rfl
  exact (Prod.mk.inj hpair).2

/-! ### When the context is built -/

/-- The webhook body has no field `is_reply`. -/
def NoReplyField (tc : TriggerContext) : Prop :=
  tc.webhookFields.lookup "is_reply".toList = none

/-- Fields that share a variable have values of one type. -/
def TypesAgree (crates : EvalCrates) (outputs : StepOutputs) : Prop :=
  ∀ s f j s' f' j', Field outputs s f j → Field outputs s' f' j' → SharesVariable s f s' f' →
    (jsonValueToEval crates j).type = (jsonValueToEval crates j').type

/-- Fields that share a variable have one value. -/
def ValuesAgree (crates : EvalCrates) (outputs : StepOutputs) : Prop :=
  ∀ s f j s' f' j', Field outputs s f j → Field outputs s' f' j' → SharesVariable s f s' f' →
    jsonValueToEval crates j = jsonValueToEval crates j'

theorem ValuesAgree.typesAgree (h : ValuesAgree crates outputs) : TypesAgree crates outputs :=
  fun s f j s' f' j' hj hj' hshare =>
    congrArg EvalValue.type (h s f j s' f' j' hj hj' hshare)

/-- What two fields with one variable have in common, when fields that share one agree. -/
theorem agree_of_stepVariable_eq {α : Type} {g : EvalValue crates.F → α}
    (h : ∀ s f j s' f' j', Field outputs s f j → Field outputs s' f' j' →
      SharesVariable s f s' f' → g (jsonValueToEval crates j) = g (jsonValueToEval crates j'))
    {s f s' f' : List Char} {j j' : Json} (hj : Field outputs s f j)
    (hj' : Field outputs s' f' j') (hname : stepVariable s f = stepVariable s' f') :
    g (jsonValueToEval crates j) = g (jsonValueToEval crates j') := by
  rcases (stepVariable_eq_iff).mp hname with ⟨rfl, rfl⟩ | hshare | hshare
  · rw [hj.unique hj']
  · exact h s f j s' f' j' hj hj' hshare
  · exact (h s' f' j' s f j hj' hj hshare).symm

/-- A write under the name of a trigger field: its type is given by the name, as long as no webhook
field takes the name of the reply flag. -/
theorem type_of_mem_trigger (hreply : NoReplyField tc) {w : List Char × EvalValue crates.F}
    (h : w ∈ webhookWrites crates tc ++ ownWrites crates tc) :
    ∃ key, w.1 = triggerVariable key ∧
      w.2.type = if key = "is_reply".toList then .boolean else .string := by
  rcases List.mem_append.mp h with h | h
  · obtain ⟨key, text, hlookup, -, rfl⟩ := (mem_webhookWrites).mp h
    have hkey : key ≠ "is_reply".toList := by
      rintro rfl
      exact nomatch hlookup.symm.trans hreply
    exact ⟨key, rfl, by rw [if_neg hkey]; rfl⟩
  · obtain ⟨key, v, hv, rfl⟩ := (mem_ownWrites).mp h
    exact ⟨key, rfl, type_of_mem_ownFields hv⟩

/-- The writes of a context agree on the types just when no webhook field takes the name of the
reply flag and the fields that share a variable have one type. -/
theorem compatible_contextWrites_iff :
    TypedMap.Compatible EvalValue.type ∅ (contextWrites crates tc outputs) ↔
      NoReplyField tc ∧ TypesAgree crates outputs := by
  constructor
  · rintro ⟨-, hpair⟩
    refine ⟨?_, fun s f j s' f' j' hj hj' hshare => ?_⟩
    · rw [NoReplyField, Option.eq_none_iff_forall_ne_some]
      intro text hlookup
      have hweb : ("trigger_is_reply".toList, .string text) ∈ contextWrites crates tc outputs := by
        refine List.mem_append_left _ (List.mem_append_left _ ((mem_webhookWrites).mpr ?_))
        exact ⟨_, text, hlookup, by decide, by simp [triggerVariable_def]⟩
      have hown : ("trigger_is_reply".toList, .boolean tc.isReply) ∈
          contextWrites crates tc outputs :=
        List.mem_append_left _ (List.mem_append_right _ (List.mem_append_right _ (by simp)))
      exact nomatch hpair _ hweb _ hown rfl
    · have hmem : ∀ {s f j}, Field outputs s f j → (stepVariable s f, jsonValueToEval crates j) ∈
          contextWrites crates tc outputs := fun hj =>
        List.mem_append_right _ ((mem_outputWrites).mpr ⟨_, _, _, hj, rfl⟩)
      exact hpair _ (hmem hj) _ (hmem hj') ((stepVariable_eq_iff).mpr (.inr (.inl hshare)))
  · rintro ⟨hreply, htypes⟩
    refine ⟨fun w _ old hold => by simp at hold, fun w hw w' hw' hname => ?_⟩
    rcases List.mem_append.mp hw with hw | hw <;> rcases List.mem_append.mp hw' with hw' | hw'
    · obtain ⟨key, hkey, htype⟩ := type_of_mem_trigger hreply hw
      obtain ⟨key', hkey', htype'⟩ := type_of_mem_trigger hreply hw'
      obtain rfl := triggerVariable_inj (hkey.symm.trans (hname.trans hkey'))
      exact htype.trans htype'.symm
    · obtain ⟨key, hkey, -⟩ := type_of_mem_trigger hreply hw
      obtain ⟨s, f, j, -, rfl⟩ := (mem_outputWrites).mp hw'
      exact absurd (hname.symm.trans hkey) (stepVariable_ne_triggerVariable s f key)
    · obtain ⟨key, hkey, -⟩ := type_of_mem_trigger hreply hw'
      obtain ⟨s, f, j, -, rfl⟩ := (mem_outputWrites).mp hw
      exact absurd (hname.trans hkey) (stepVariable_ne_triggerVariable s f key)
    · obtain ⟨s, f, j, hj, rfl⟩ := (mem_outputWrites).mp hw
      obtain ⟨s', f', j', hj', rfl⟩ := (mem_outputWrites).mp hw'
      exact agree_of_stepVariable_eq htypes hj hj' hname

/-- Which contexts are built. -/
theorem buildEvalContext_eq_ok_iff {ctx : EvalContext crates} :
    buildEvalContext crates tc outputs = .ok ctx ↔ (NoReplyField tc ∧ TypesAgree crates outputs) ∧
      ctx = TypedMap.insertAll ∅ (contextWrites crates tc outputs) := by
  rw [buildEvalContext_eq_writes, ← @compatible_contextWrites_iff crates]
  constructor
  · intro h
    have hcompat := TypedMap.compatible_of_writes h
    rw [TypedMap.writes_of_compatible hcompat] at h
    exact ⟨hcompat, (Except.ok.inj h).symm⟩
  · rintro ⟨hcompat, rfl⟩
    exact TypedMap.writes_of_compatible hcompat

/-! ### What the variables hold -/

theorem lookup_context (name : List Char) :
    (TypedMap.insertAll ∅ (contextWrites crates tc outputs)).lookup name =
      (TypedMap.lastWrite (outputWrites crates outputs) name).or
        ((TypedMap.lastWrite (ownWrites crates tc) name).or
          (TypedMap.lastWrite (webhookWrites crates tc) name)) := by
  simp [TypedMap.lookup_insertAll, contextWrites, TypedMap.lastWrite_append, Option.or_assoc]

theorem lastWrite_outputWrites_triggerVariable (key : List Char) :
    TypedMap.lastWrite (outputWrites crates outputs) (triggerVariable key) = none := by
  refine TypedMap.lastWrite_eq_none_iff.mpr fun w hw => ?_
  obtain ⟨s, f, j, -, rfl⟩ := (mem_outputWrites).mp hw
  exact stepVariable_ne_triggerVariable s f key

theorem lastWrite_ownWrites {key : List Char} {v : EvalValue crates.F}
    (h : (key, v) ∈ ownFields crates tc) :
    TypedMap.lastWrite (ownWrites crates tc) (triggerVariable key) = some v := by
  obtain ⟨v', hv'⟩ := TypedMap.exists_lastWrite ((mem_ownWrites).mpr ⟨key, v, h, rfl⟩)
  obtain ⟨key', v'', hmem, heq⟩ := (mem_ownWrites).mp (TypedMap.mem_of_lastWrite hv')
  obtain ⟨hkey, rfl⟩ := Prod.mk.inj heq
  obtain rfl := triggerVariable_inj hkey
  rw [hv', ownFields_unique hmem h]

/-- Whatever a body and the outputs are, a variable of the trigger's own fields is written last by
the trigger. -/
theorem lookup_own {key : List Char} {v : EvalValue crates.F} (h : (key, v) ∈ ownFields crates tc) :
    (TypedMap.insertAll ∅ (contextWrites crates tc outputs)).lookup (triggerVariable key) =
      some v := by
  rw [lookup_context, lastWrite_outputWrites_triggerVariable, lastWrite_ownWrites h]
  rfl

/-- What the conditions of a run should see. -/
inductive Binds (crates : EvalCrates) (tc : TriggerContext) (outputs : StepOutputs) :
    List Char → EvalValue crates.F → Prop
  | own {key : List Char} {v : EvalValue crates.F} (h : (key, v) ∈ ownFields crates tc) :
    Binds crates tc outputs (triggerVariable key) v
  | webhook {key text : List Char} (h : tc.webhookFields.lookup key = some text)
      (hskip : skipsKey key = false)
      (hown : ∀ v : EvalValue crates.F, (key, v) ∉ ownFields crates tc) :
    Binds crates tc outputs (triggerVariable key) (.string text)
  | output {s f : List Char} {j : Json} (h : Field outputs s f j) :
    Binds crates tc outputs (stepVariable s f) (jsonValueToEval crates j)

/-- The variables of a context are those it should have, where fields that share a variable have
one value. -/
theorem lookup_buildEvalContext_iff (hvalues : ValuesAgree crates outputs) {name : List Char}
    {v : EvalValue crates.F} :
    (TypedMap.insertAll ∅ (contextWrites crates tc outputs)).lookup name = some v ↔
      Binds crates tc outputs name v := by
  constructor
  · intro h
    rw [lookup_context, Option.or_eq_some_iff, Option.or_eq_some_iff] at h
    rcases h with h | ⟨-, h | ⟨hnone, h⟩⟩
    · obtain ⟨s, f, j, hj, heq⟩ := mem_outputWrites.mp (TypedMap.mem_of_lastWrite h)
      obtain ⟨rfl, rfl⟩ := Prod.mk.inj heq
      exact .output hj
    · obtain ⟨key, v', hv', heq⟩ := mem_ownWrites.mp (TypedMap.mem_of_lastWrite h)
      obtain ⟨rfl, rfl⟩ := Prod.mk.inj heq
      exact .own hv'
    · obtain ⟨key, text, hlookup, hskip, heq⟩ := mem_webhookWrites.mp (TypedMap.mem_of_lastWrite h)
      obtain ⟨rfl, rfl⟩ := Prod.mk.inj heq
      refine .webhook hlookup hskip fun v' hv' => ?_
      exact nomatch hnone.symm.trans (lastWrite_ownWrites hv')
  · rintro (hv | ⟨hlookup, hskip, hown⟩ | hj)
    · exact lookup_own hv
    · rename_i key text
      have hnone : TypedMap.lastWrite (ownWrites crates tc) (triggerVariable key) = none := by
        refine TypedMap.lastWrite_eq_none_iff.mpr fun w hw hname => ?_
        obtain ⟨key', v', hmem, rfl⟩ := mem_ownWrites.mp hw
        obtain rfl := triggerVariable_inj hname
        exact hown v' hmem
      have hmem : (triggerVariable key, EvalValue.string text) ∈ webhookWrites crates tc :=
        mem_webhookWrites.mpr ⟨key, text, hlookup, hskip, rfl⟩
      obtain ⟨v', hv'⟩ := TypedMap.exists_lastWrite hmem
      obtain ⟨key', text', hlookup', -, heq⟩ := mem_webhookWrites.mp (TypedMap.mem_of_lastWrite hv')
      obtain ⟨hkey, rfl⟩ := Prod.mk.inj heq
      obtain rfl := triggerVariable_inj hkey
      obtain rfl := Option.some.inj (hlookup.symm.trans hlookup')
      rw [lookup_context, lastWrite_outputWrites_triggerVariable, hnone, hv']
      rfl
    · rename_i s f j
      obtain ⟨v', hv'⟩ := TypedMap.exists_lastWrite (mem_outputWrites.mpr ⟨s, f, j, hj, rfl⟩)
      obtain ⟨s', f', j', hj', heq⟩ := mem_outputWrites.mp (TypedMap.mem_of_lastWrite hv')
      obtain ⟨hname, rfl⟩ := Prod.mk.inj heq
      rw [lookup_context, hv', Option.some_or]
      exact congrArg some (agree_of_stepVariable_eq (g := id) hvalues hj' hj hname.symm)

/-! ### The genuine trigger -/

/-- The context is built, and the variables of the trigger hold the trigger's own values. -/
def SeesTrigger (crates : EvalCrates) (tc : TriggerContext) (outputs : StepOutputs) : Prop :=
  ∃ ctx, buildEvalContext crates tc outputs = .ok ctx ∧
    ctx.lookup "trigger_text".toList = some (.string tc.text) ∧
    ctx.lookup "trigger_author".toList = some (.string tc.author) ∧
    ctx.lookup "trigger_channel_id".toList = some (.string tc.channelId) ∧
    ctx.lookup "trigger_timestamp".toList = some (.string tc.timestamp) ∧
    ctx.lookup "trigger_emoji".toList = some (.string tc.emoji) ∧
    ctx.lookup "trigger_message_id".toList = some (.string tc.messageId) ∧
    ctx.lookup "trigger_is_reply".toList = some (.boolean tc.isReply)

/-- Conditions see the genuine trigger just when no webhook field takes the name of the reply flag
and no two fields of outputs share a variable with values of different types. -/
theorem seesTrigger_iff (crates : EvalCrates) (tc : TriggerContext) (outputs : StepOutputs) :
    SeesTrigger crates tc outputs ↔
      tc.webhookFields.lookup "is_reply".toList = none ∧
      ∀ s f j s' f' j', Field outputs s f j → Field outputs s' f' j' → SharesVariable s f s' f' →
        (jsonValueToEval crates j).type = (jsonValueToEval crates j').type := by
  constructor
  · rintro ⟨ctx, hctx, -⟩
    exact (buildEvalContext_eq_ok_iff.mp hctx).1
  · intro h
    have hfield : ∀ key v, (key, v) ∈ ownFields crates tc →
        (TypedMap.insertAll ∅ (contextWrites crates tc outputs)).lookup (triggerVariable key) =
          some v := fun _ _ => lookup_own
    refine ⟨_, buildEvalContext_eq_ok_iff.mpr ⟨h, rfl⟩, ?_, ?_, ?_, ?_, ?_, ?_, ?_⟩
    · exact hfield "text".toList _ (by simp [ownFields])
    · exact hfield "author".toList _ (by simp [ownFields])
    · exact hfield "channel_id".toList _ (by simp [ownFields])
    · exact hfield "timestamp".toList _ (by simp [ownFields])
    · exact hfield "emoji".toList _ (by simp [ownFields])
    · exact hfield "message_id".toList _ (by simp [ownFields])
    · exact hfield "is_reply".toList _ (by simp [ownFields])

/-- A webhook starts a workflow of one step. -/
def hookWorkflow : WorkflowDef where
  name := "on hook".toList
  trigger := .webhook
  steps := [⟨"topic".toList, some "trigger_is_reply == false".toList, .setChannelTopic []⟩]

/-- The body of a webhook with one field, `is_reply`. -/
def replyBody : TriggerContext where
  text := []
  author := []
  channelId := []
  timestamp := []
  emoji := []
  messageId := []
  isReply := false
  webhookFields := AList.insert "is_reply".toList "yes".toList ∅

/-- A machine without floats, as no number here is one. -/
def intCrates : EvalCrates := ⟨Empty, fun _ => none, fun _ _ => []⟩

/-- A cron parser that no trigger here reaches. -/
def noCron : CronParser := ⟨⟨Empty, fun _ => none, fun _ => ∅, fun _ _ => none⟩, fun _ => []⟩

/-- A body with the field `is_reply` keeps the conditions of a valid workflow from being built. -/
theorem reply_field_hides_trigger :
    hookWorkflow.validate noCron = .ok () ∧ ¬ SeesTrigger intCrates replyBody ∅ := by
  refine ⟨by decide +kernel, ?_⟩
  rintro ⟨ctx, hctx, -⟩
  have hreply := (buildEvalContext_eq_ok_iff.mp hctx).1.1
  exact nomatch (AList.lookup_insert ∅).symm.trans hreply

/-! ### Every field of every output -/

/-- A value whose members an iteration meets in another order. -/
def JsonValue.Reordered (v v' : JsonValue) : Prop :=
  v.json = v'.json ∨ ∃ ms ms', v.json = .obj ms ∧ v'.json = .obj ms' ∧ ms.Perm ms'

/-- Outputs that an iteration meets in another order. -/
def ReorderedOutputs (outputs outputs' : StepOutputs) : Prop :=
  ∀ s, Option.Rel JsonValue.Reordered (outputs.lookup s) (outputs'.lookup s)

theorem ReorderedOutputs.field {outputs' : StepOutputs} (h : ReorderedOutputs outputs outputs')
    {s f : List Char} {j : Json} : Field outputs' s f j ↔ Field outputs s f j := by
  have hs := h s
  constructor
  · rintro ⟨output', ms', hlookup', hjson', hmem⟩
    rw [hlookup'] at hs
    rcases hlookup : outputs.lookup s with _ | output <;> rw [hlookup] at hs <;> cases hs
    next hre =>
      rcases hre with heq | ⟨ms, ms₂, hjson, hjson₂, hperm⟩
      · exact ⟨output, ms', hlookup, heq.trans hjson', hmem⟩
      · obtain rfl := Json.obj.inj (hjson'.symm.trans hjson₂)
        exact ⟨output, ms, hlookup, hjson, hperm.symm.subset hmem⟩
  · rintro ⟨output, ms, hlookup, hjson, hmem⟩
    rw [hlookup] at hs
    rcases hlookup' : outputs'.lookup s with _ | output' <;> rw [hlookup'] at hs <;> cases hs
    next hre =>
      rcases hre with heq | ⟨ms₂, ms', hjson₂, hjson', hperm⟩
      · exact ⟨output', ms, hlookup', heq.symm.trans hjson, hmem⟩
      · obtain rfl := Json.obj.inj (hjson.symm.trans hjson₂)
        exact ⟨output', ms', hlookup', hjson', hperm.subset hmem⟩

theorem ValuesAgree.reordered {outputs' : StepOutputs} (h : ValuesAgree crates outputs)
    (hre : ReorderedOutputs outputs outputs') : ValuesAgree crates outputs' :=
  fun s f j s' f' j' hj hj' => h s f j s' f' j' (hre.field.mp hj) (hre.field.mp hj')

/-- The binding relation does not see the order of an iteration. -/
theorem binds_reordered {outputs' : StepOutputs} {fields : HashMap (List Char) (List Char)}
    (hre : ReorderedOutputs outputs outputs') (hfields : tc.webhookFields.Rehash fields)
    {name : List Char} {v : EvalValue crates.F} :
    Binds crates { tc with webhookFields := fields } outputs' name v ↔
      Binds crates tc outputs name v := by
  constructor
  · rintro (hv | ⟨hlookup, hskip, hown⟩ | hj)
    · exact .own hv
    · exact .webhook ((hfields.lookup_eq _).trans hlookup) hskip hown
    · exact .output (hre.field.mp hj)
  · rintro (hv | ⟨hlookup, hskip, hown⟩ | hj)
    · exact .own hv
    · exact .webhook ((hfields.lookup_eq _).symm.trans hlookup) hskip hown
    · exact .output (hre.field.mpr hj)

/-- The context is built, it is the same in whatever order the maps are iterated, and the variable
of every field of an output holds the value of that field. -/
def AddressesOutputs (crates : EvalCrates) (tc : TriggerContext) (outputs : StepOutputs) : Prop :=
  ∃ ctx, buildEvalContext crates tc outputs = .ok ctx ∧
    (∀ fields outputs', tc.webhookFields.Rehash fields → ReorderedOutputs outputs outputs' →
      ∃ ctx', buildEvalContext crates { tc with webhookFields := fields } outputs' = .ok ctx' ∧
        ∀ name, ctx'.lookup name = ctx.lookup name) ∧
    ∀ s f j, Field outputs s f j →
      ctx.lookup ("steps_".toList ++ s ++ "_output_".toList ++ f) = some (jsonValueToEval crates j)

/-- Conditions address every field of every output just when no webhook field takes the name of the
reply flag and no two fields with different values share a variable. -/
theorem addressesOutputs_iff (crates : EvalCrates) (tc : TriggerContext) (outputs : StepOutputs) :
    AddressesOutputs crates tc outputs ↔
      tc.webhookFields.lookup "is_reply".toList = none ∧
      ∀ s f j s' f' j', Field outputs s f j → Field outputs s' f' j' → SharesVariable s f s' f' →
        jsonValueToEval crates j = jsonValueToEval crates j' := by
  constructor
  · rintro ⟨ctx, hctx, -, hholds⟩
    refine ⟨(buildEvalContext_eq_ok_iff.mp hctx).1.1, ?_⟩
    intro s f j s' f' j' hj hj' hshare
    have hname : stepVariable s f = stepVariable s' f' :=
      stepVariable_eq_iff.mpr (.inr (.inl hshare))
    have hfirst := hholds s f j hj
    have hsecond := hholds s' f' j' hj'
    rw [← stepVariable_def] at hfirst hsecond
    exact Option.some.inj (hfirst.symm.trans (hname ▸ hsecond))
  · rintro ⟨hreply, hvalues⟩
    have hagree : ValuesAgree crates outputs := hvalues
    refine ⟨_, buildEvalContext_eq_ok_iff.mpr ⟨⟨hreply, hagree.typesAgree⟩, rfl⟩,
      fun fields outputs' hfields hre => ?_, fun s f j hj => ?_⟩
    · have hreply' : NoReplyField { tc with webhookFields := fields } :=
        (hfields.lookup_eq _).symm.trans hreply
      refine ⟨_, buildEvalContext_eq_ok_iff.mpr ⟨⟨hreply', (hagree.reordered hre).typesAgree⟩, rfl⟩,
        fun name => Option.ext fun v => ?_⟩
      rw [lookup_buildEvalContext_iff (hagree.reordered hre), lookup_buildEvalContext_iff hagree]
      exact binds_reordered hre hfields
    · rw [← stepVariable_def]
      exact (lookup_buildEvalContext_iff hagree).mpr (.output hj)

/-- A workflow with steps `a` and `a_output_b`. -/
def nestedWorkflow : WorkflowDef where
  name := "nested".toList
  trigger := .messagePosted none
  steps := [⟨"a".toList, none, .setChannelTopic []⟩,
    ⟨"a_output_b".toList, none, .setChannelTopic []⟩]

/-- An object with one member, a number. -/
def oneMember (f : List Char) (n : ℤ) : JsonValue where
  json := .obj [(f, .int n)]
  distinct := by
    intro members h
    obtain rfl := Json.obj.inj h
    simp

/-- The outputs of the two steps: a field `b_output_c` of the first, and a field `c` of the
second. -/
def nestedOutputs : StepOutputs :=
  AList.insert "a".toList (oneMember "b_output_c".toList 1)
    (AList.insert "a_output_b".toList (oneMember "c".toList 2) ∅)

theorem nestedOutputs_first : Field nestedOutputs "a".toList "b_output_c".toList (.int 1) :=
  ⟨_, _, AList.lookup_insert _, rfl, List.mem_cons_self⟩

theorem nestedOutputs_second : Field nestedOutputs "a_output_b".toList "c".toList (.int 2) := by
  refine ⟨oneMember "c".toList 2, _, ?_, rfl, List.mem_cons_self⟩
  exact (AList.lookup_insert_ne (by decide)).trans (AList.lookup_insert _)

/-- Two fields of a valid workflow share the variable `steps_a_output_b_output_c`, which holds one
of their values only. -/
theorem nested_ids_hide_output :
    nestedWorkflow.validate noCron = .ok () ∧
      nestedOutputs.keys = nestedWorkflow.steps.map Step.id ∧
      ¬ AddressesOutputs intCrates { replyBody with webhookFields := ∅ } nestedOutputs := by
  refine ⟨by decide +kernel, by decide +kernel, ?_⟩
  rintro ⟨ctx, -, -, hholds⟩
  have hfirst := hholds _ _ _ nestedOutputs_first
  have hsecond := hholds _ _ _ nestedOutputs_second
  rw [← stepVariable_def] at hfirst hsecond
  have hname : stepVariable "a".toList "b_output_c".toList =
      stepVariable "a_output_b".toList "c".toList :=
    stepVariable_eq_iff.mpr (.inr (.inl (.inl ⟨"b".toList, by simp, by simp⟩)))
  rw [hname] at hfirst
  have hvalue := Option.some.inj (hfirst.symm.trans hsecond)
  simp [jsonValueToEval] at hvalue

end Buzz.Workflow
