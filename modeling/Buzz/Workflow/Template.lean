import Mathlib.Data.List.DropRight
import Buzz.Workflow.Conditions

/-!
# Templates

`resolve_template` of `crates/buzz-workflow/src/executor.rs` replaces the placeholders of a step's
texts, `{{trigger.X}}` and `{{steps.ID.output.X}}` with an optional filter, by values. It is one
pass from left to right: where a text is split depends on the template only, and a value that was
put in is never looked at again.

The loop is written over a monad, so that the expressions it evaluates can be logged: the source's
function is its instance without a log. The `nostr` crate, which encodes keys, is a parameter.

## Main definitions

* `resolveVariable`, `applyFilter`, `resolveTemplate`, `resolveStepTemplates`.
* `Segment`, `Segmented`: the literal texts and the placeholders of a template.
* `TemplateFilter`, `Denotes`: the filters.
* `Renders`: the text of a segment.

## Main results

* `applyFilter_eq_ok_iff`: which filters there are.
* `resolveTemplate_single_pass`: the result of a template.
-/

namespace Buzz.Workflow

open Buzz.Library

/-! ### Variables -/

/-- Look up a trigger field by name, among the webhook fields where it is none of the known ones. -/
def TriggerContext.getField (tc : TriggerContext) (name : List Char) : Option (List Char) :=
  if name = "text".toList then some tc.text
  else if name = "author".toList then some tc.author
  else if name = "channel_id".toList then some tc.channelId
  else if name = "timestamp".toList then some tc.timestamp
  else if name = "emoji".toList then some tc.emoji
  else if name = "message_id".toList then some tc.messageId
  else tc.webhookFields.lookup name

/-- Convert a JSON value to a plain text. -/
def jsonToString : Json → List Char
  | .str s => s
  | .null => []
  | other => other.render

/-- The member of an object, as a text. -/
def jsonGetStr (value : JsonValue) (key : List Char) : Option (List Char) :=
  match value.json with
  | .obj ms => (ms.lookup key).map jsonToString
  | _ => none

/-- Resolve `steps.STEP_ID.output.FIELD`, what follows `steps.`. -/
def resolveOutput (rest : List Char) (outputs : StepOutputs) : Option (List Char) := do
  let (stepId, rest) ← splitOnce '.' rest
  let (middle, field) ← splitOnce '.' rest
  if middle = "output".toList then jsonGetStr (← outputs.lookup stepId) field else none

/-- Resolve a single variable path to its text. -/
def resolveVariable (path : List Char) (tc : TriggerContext) (outputs : StepOutputs) :
    Option (List Char) :=
  match stripStart "trigger.".toList path with
  | some field => tc.getField field
  | none =>
    match stripStart "steps.".toList path with
    | some rest => resolveOutput rest outputs
    | none => none

/-! ### Filters -/

/-- What the filters use of the `nostr` crate: a public key of its hexadecimal text, and the
`npub` of a key. -/
structure NostrCrate where
  PublicKey : Type
  fromHex : List Char → Option PublicKey
  toBech32 : PublicKey → Option (List Char)

variable (nostr : NostrCrate)

/-- The `npub` of a public key; other texts pass through unchanged. -/
def npub (value : List Char) : List Char :=
  match nostr.fromHex value with
  | some key => (nostr.toBech32 key).getD value
  | none => value

/-- The argument of `truncate(…)`. -/
def truncateArgument (filter : List Char) : Option (List Char) :=
  (stripStart "truncate(".toList filter).bind (stripSuffix ')')

/-- Apply a filter expression to a value. -/
def applyFilter (value filter : List Char) : Except WorkflowError (List Char) :=
  let filter := trim filter
  match truncateArgument filter with
  | some inner =>
    match parseUnsigned (2 ^ 64) (trim inner) with
    | some n => .ok (value.take n)
    | none =>
      .error (.templateError ("truncate() requires a number, got: ".toList ++ inner))
  | none =>
    if filter = "npub".toList ∨ filter = "truncate_pubkey".toList then .ok (npub nostr value)
    else .error (.templateError ("unknown filter: ".toList ++ filter))

/-! ### Templates -/

/-- The braces before a placeholder. -/
def openBraces : List Char := ['{', '{']

/-- The braces after a placeholder. -/
def closeBraces : List Char := ['}', '}']

/-- The variable path of an expression: what stands before its first bar. -/
def varPath (expr : List Char) : List Char :=
  match splitOnce '|' expr with
  | some (path, _) => trim path
  | none => trim expr

/-- The filter of an expression: what follows its first bar. -/
def filterText (expr : List Char) : Option (List Char) :=
  (splitOnce '|' expr).map fun p => trim p.2

/-- The value of an expression, or nothing for an unknown variable. -/
def evaluate (tc : TriggerContext) (outputs : StepOutputs) (expr : List Char) :
    Except WorkflowError (Option (List Char)) :=
  match resolveVariable (varPath expr) tc outputs, filterText expr with
  | some v, some f => (applyFilter nostr v f).map some
  | some v, none => .ok (some v)
  | none, _ => .ok none

theorem length_of_splitFirst {sep text before after : List Char}
    (h : splitFirst sep text = some (before, after)) (hsep : sep ≠ []) :
    after.length < text.length := by
  have hfirst := ((splitFirst_eq_some_iff hsep).mp h).1
  have hpos := List.length_pos_iff.mpr hsep
  rw [hfirst, List.length_append, List.length_append]
  omega

/-- The loop of a template: `result` is written, `remaining` is to be read. -/
def resolveLoop {m : Type → Type} [Monad m] (eval : List Char → m (Option (List Char)))
    (result remaining : List Char) : m (List Char) :=
  match _hopen : splitFirst openBraces remaining with
  | none => pure (result ++ remaining)
  | some (before, after) =>
    match _hclose : splitFirst closeBraces after with
    | none => pure (result ++ before ++ openBraces ++ after)
    | some (inner, rest) => do
      match ← eval (trim inner) with
      | some value => resolveLoop eval (result ++ before ++ value) rest
      | none =>
        resolveLoop eval (result ++ before ++ openBraces ++ trim inner ++ closeBraces) rest
termination_by remaining.length
decreasing_by
  all_goals
    have hafter := length_of_splitFirst _hopen (by decide)
    have hrest := length_of_splitFirst _hclose (by decide)
    omega

/-- Resolve the placeholders of a template. -/
def resolveTemplate (tc : TriggerContext) (outputs : StepOutputs) (template : List Char) :
    Except WorkflowError (List Char) :=
  if splitFirst openBraces template = none then .ok template
  else resolveLoop (evaluate nostr tc outputs) [] template

section Steps

variable (t : List Char → Except WorkflowError (List Char))

/-- Resolve an optional text. -/
def resolveOptional : Option (List Char) → Except WorkflowError (Option (List Char))
  | some v => return some (← t v)
  | none => return none

/-- Resolve the values of the headers, in the order of an iteration. -/
def resolveHeaders : Option (HashMap (List Char) (List Char)) →
    Except WorkflowError (Option (HashMap (List Char) (List Char)))
  | some h => return some (← h.entries.foldlM (fun out e => return out.insert e.1 (← t e.2)) ∅)
  | none => return none

end Steps

/-- Resolve all templates of a step's action. -/
def resolveStepTemplates (step : Step) (tc : TriggerContext) (outputs : StepOutputs) :
    Except WorkflowError ActionDef :=
  let t := resolveTemplate nostr tc outputs
  match step.action with
  | .sendMessage text channel replyInThread =>
    return .sendMessage (← t text) (← resolveOptional t channel) replyInThread
  | .sendDm dest text => return .sendDm (← t dest) (← t text)
  | .setChannelTopic topic => return .setChannelTopic (← t topic)
  | .addReaction emoji => return .addReaction (← t emoji)
  | .callWebhook url method headers body => do
    let resolvedHeaders ← resolveHeaders t headers
    return .callWebhook (← t url) method resolvedHeaders (← resolveOptional t body)
  | .requestApproval sender message timeout =>
    return .requestApproval (← t sender) (← t message) timeout
  | .delay duration => return .delay duration

/-! ### Filters, in their own terms -/

/-- A filter. -/
inductive TemplateFilter
  | npub
  | truncate (n : ℕ)

/-- What a filter makes of a value. -/
def TemplateFilter.apply (nostr : NostrCrate) : TemplateFilter → List Char → List Char
  | npub, value => Workflow.npub nostr value
  | truncate n, value => value.take n

/-- The texts of the filters: `npub`, its older name, and `truncate` of a number of 64 bits. -/
inductive Denotes : List Char → TemplateFilter → Prop
  | npub : Denotes "npub".toList .npub
  | truncatePubkey : Denotes "truncate_pubkey".toList .npub
  | truncate {arg : List Char} {n : ℕ} (h : parseUnsigned (2 ^ 64) (trim arg) = some n) :
    Denotes ("truncate(".toList ++ arg ++ [')']) (.truncate n)

theorem truncateArgument_eq_some_iff {filter arg : List Char} :
    truncateArgument filter = some arg ↔ filter = "truncate(".toList ++ arg ++ [')'] := by
  rw [truncateArgument, Option.bind_eq_some_iff]
  constructor
  · rintro ⟨rest, hrest, harg⟩
    rw [stripStart_eq_some_iff] at hrest
    rw [stripSuffix] at harg
    split_ifs at harg with hlast
    obtain rfl := Option.some.inj harg
    have hne : rest ≠ [] := by rintro rfl; simp at hlast
    have hsplit := List.dropLast_append_getLast hne
    rw [List.getLast?_eq_getLast_of_ne_nil hne] at hlast
    rw [hrest, List.append_assoc, ← Option.some.inj hlast, hsplit]
  · rintro rfl
    exact ⟨arg ++ [')'], stripStart_eq_some_iff.mpr (List.append_assoc ..), by simp [stripSuffix]⟩

theorem truncateArgument_npub : truncateArgument "npub".toList = none := by decide

theorem truncateArgument_truncatePubkey :
    truncateArgument "truncate_pubkey".toList = none := by decide

/-- Which filters there are, and what they make of a value. -/
theorem applyFilter_eq_ok_iff {value filter result : List Char} :
    applyFilter nostr value filter = .ok result ↔
      ∃ f, Denotes (trim filter) f ∧ result = f.apply nostr value := by
  rw [applyFilter]
  generalize trim filter = text
  rcases harg : truncateArgument text with _ | arg <;> simp only
  · constructor
    · intro h
      split_ifs at h with hname
      obtain rfl := Except.ok.inj h
      rcases hname with rfl | rfl
      · exact ⟨.npub, .npub, rfl⟩
      · exact ⟨.npub, .truncatePubkey, rfl⟩
    · rintro ⟨f, hf, rfl⟩
      cases hf with
      | npub => exact if_pos (.inl rfl)
      | truncatePubkey => exact if_pos (.inr rfl)
      | truncate h => exact nomatch harg.symm.trans (truncateArgument_eq_some_iff.mpr rfl)
  · have htext := truncateArgument_eq_some_iff.mp harg
    constructor
    · intro h
      rcases hn : parseUnsigned (2 ^ 64) (trim arg) with _ | n <;> rw [hn] at h
      · cases h
      · obtain rfl := Except.ok.inj h
        exact ⟨.truncate n, htext ▸ .truncate hn, rfl⟩
    · rintro ⟨f, hf, rfl⟩
      cases hf with
      | npub => exact nomatch truncateArgument_npub.symm.trans harg
      | truncatePubkey => exact nomatch truncateArgument_truncatePubkey.symm.trans harg
      | truncate h =>
        obtain rfl := Option.some.inj
          ((truncateArgument_eq_some_iff.mpr rfl).symm.trans harg)
        rw [h]
        rfl

theorem trim_trim (text : List Char) : trim (trim text) = trim text := by
  have htrim : trim text = (text.dropWhile isWhitespace).rdropWhile isWhitespace := rfl
  have hlead : (trim text).dropWhile isWhitespace = trim text := by
    rcases hcs : trim text with _ | ⟨c, cs⟩
    · rfl
    · obtain ⟨tail, htail⟩ := List.rdropWhile_prefix isWhitespace (text.dropWhile isWhitespace)
      have hhead : (text.dropWhile isWhitespace).head? = some c := by
        rw [← htail, ← htrim, hcs]
        rfl
      have hc := List.head?_dropWhile_not isWhitespace text
      rw [hhead] at hc
      simp [hc]
  calc trim (trim text)
      = ((trim text).dropWhile isWhitespace).rdropWhile isWhitespace := rfl
    _ = trim text := by rw [hlead, htrim, List.rdropWhile_idempotent]

theorem trim_of_filterText {expr f : List Char} (h : filterText expr = some f) : trim f = f := by
  obtain ⟨p, -, rfl⟩ := Option.map_eq_some_iff.mp h
  exact trim_trim p.2

/-! ### What an expression evaluates to -/

/-- The expression names a defined variable, with a filter that is none. -/
def BadFilter (tc : TriggerContext) (outputs : StepOutputs) (expr : List Char) : Prop :=
  (resolveVariable (varPath expr) tc outputs).isSome ∧
    ∃ f, filterText expr = some f ∧ ¬ ∃ g, Denotes f g

/-- The text of a segment. -/
inductive Segment
  | literal (text : List Char)
  | placeholder (expr : List Char)
  /-- What follows braces that are not closed. -/
  | unclosed (tail : List Char)

/-- What a segment becomes. -/
inductive Renders (tc : TriggerContext) (outputs : StepOutputs) : Segment → List Char → Prop
  | literal (text : List Char) : Renders tc outputs (.literal text) text
  | unclosed (tail : List Char) : Renders tc outputs (.unclosed tail) (openBraces ++ tail)
  | undefined {expr : List Char} (h : resolveVariable (varPath expr) tc outputs = none) :
    Renders tc outputs (.placeholder expr) (openBraces ++ expr ++ closeBraces)
  | value {expr v : List Char} (h : resolveVariable (varPath expr) tc outputs = some v)
      (hplain : filterText expr = none) : Renders tc outputs (.placeholder expr) v
  | filtered {expr v f : List Char} {g : TemplateFilter}
      (h : resolveVariable (varPath expr) tc outputs = some v) (hf : filterText expr = some f)
      (hg : Denotes f g) : Renders tc outputs (.placeholder expr) (g.apply nostr v)

variable {nostr} {tc : TriggerContext} {outputs : StepOutputs}

theorem evaluate_eq_error_iff {expr : List Char} :
    (∃ e, evaluate nostr tc outputs expr = .error e) ↔ BadFilter tc outputs expr := by
  rw [evaluate, BadFilter]
  rcases resolveVariable (varPath expr) tc outputs with _ | v
  · simp
  · rcases hf : filterText expr with _ | f
    · simp
    · have htrim := trim_of_filterText hf
      rcases hresult : applyFilter nostr v f with e | w
      · have hnone : ¬ ∃ g, Denotes f g := by
          rintro ⟨g, hg⟩
          have hok : applyFilter nostr v f = .ok (g.apply nostr v) :=
            (applyFilter_eq_ok_iff nostr).mpr ⟨g, htrim.symm ▸ hg, rfl⟩
          exact nomatch hresult.symm.trans hok
        exact ⟨fun _ => ⟨rfl, f, rfl, hnone⟩, fun _ => ⟨e, congrArg (Except.map some) hresult⟩⟩
      · obtain ⟨g, hg, -⟩ := (applyFilter_eq_ok_iff nostr).mp hresult
        rw [htrim] at hg
        constructor
        · rintro ⟨e, he⟩
          exact nomatch (congrArg (Except.map some) hresult).symm.trans he
        · rintro ⟨-, f', hf', hnone⟩
          obtain rfl := Option.some.inj hf'
          exact absurd ⟨g, hg⟩ hnone

/-- The text that a placeholder becomes. -/
def placeholderText (expr : List Char) (value : Option (List Char)) : List Char :=
  value.getD (openBraces ++ expr ++ closeBraces)

theorem renders_of_evaluate {expr : List Char} {value : Option (List Char)}
    (h : evaluate nostr tc outputs expr = .ok value) :
    Renders nostr tc outputs (.placeholder expr) (placeholderText expr value) := by
  rw [evaluate] at h
  rcases hv : resolveVariable (varPath expr) tc outputs with _ | v <;>
    rcases hf : filterText expr with _ | f <;> simp only [hv, hf] at h
  · obtain rfl := Except.ok.inj h
    exact .undefined hv
  · obtain rfl := Except.ok.inj h
    exact .undefined hv
  · obtain rfl := Except.ok.inj h
    exact .value hv hf
  · rcases hresult : applyFilter nostr v f with e | w <;> rw [hresult] at h
    · cases h
    · obtain rfl := Except.ok.inj h
      obtain ⟨g, hg, rfl⟩ := (applyFilter_eq_ok_iff nostr).mp hresult
      exact .filtered hv hf (trim_of_filterText hf ▸ hg)

/-! ### The segments of a template -/

/-- A template is split at each first pair of opening braces and the next pair of closing ones. -/
inductive Segmented : List Char → List Segment → Prop
  | plain {text : List Char} (h : ¬ openBraces <:+: text) : Segmented text [.literal text]
  | unclosed {text before after : List Char} (hopen : First openBraces text before after)
      (hclose : ¬ closeBraces <:+: after) : Segmented text [.literal before, .unclosed after]
  | closed {text before after inner rest : List Char} {segs : List Segment}
      (hopen : First openBraces text before after) (hclose : First closeBraces after inner rest)
      (hrest : Segmented rest segs) :
    Segmented text (.literal before :: .placeholder (trim inner) :: segs)

theorem openBraces_ne_nil : openBraces ≠ [] := by decide

theorem closeBraces_ne_nil : closeBraces ≠ [] := by decide

theorem exists_segmented (text : List Char) : ∃ segs, Segmented text segs := by
  rcases splitFirst_spec openBraces_ne_nil text with
    ⟨before, after, hopen, hfirst⟩ | ⟨-, hnone⟩
  · rcases splitFirst_spec closeBraces_ne_nil after with
      ⟨inner, rest, hclose, hfirst'⟩ | ⟨-, hnone⟩
    · have hafter := length_of_splitFirst hopen openBraces_ne_nil
      have hrest := length_of_splitFirst hclose closeBraces_ne_nil
      obtain ⟨segs, hsegs⟩ := exists_segmented rest
      exact ⟨_, .closed hfirst hfirst' hsegs⟩
    · exact ⟨_, .unclosed hfirst hnone⟩
  · exact ⟨_, .plain hnone⟩
termination_by text.length

/-- A template has one segmentation. -/
theorem Segmented.unique {text : List Char} {segs segs' : List Segment}
    (h : Segmented text segs) (h' : Segmented text segs') : segs' = segs := by
  induction h generalizing segs' with
  | plain hnone =>
    cases h' with
    | plain => rfl
    | unclosed hopen _ => exact absurd hopen.occurs hnone
    | closed hopen _ _ => exact absurd hopen.occurs hnone
  | unclosed hopen hnone =>
    cases h' with
    | plain hnone' => exact absurd hopen.occurs hnone'
    | unclosed hopen' _ =>
      obtain ⟨rfl, rfl⟩ := hopen.unique hopen'
      rfl
    | closed hopen' hclose' _ =>
      obtain ⟨rfl, rfl⟩ := hopen.unique hopen'
      exact absurd hclose'.occurs hnone
  | closed hopen hclose _ ih =>
    cases h' with
    | plain hnone' => exact absurd hopen.occurs hnone'
    | unclosed hopen' hnone' =>
      obtain ⟨rfl, rfl⟩ := hopen.unique hopen'
      exact absurd hclose.occurs hnone'
    | closed hopen' hclose' hrest' =>
      obtain ⟨rfl, rfl⟩ := hopen.unique hopen'
      obtain ⟨rfl, rfl⟩ := hclose.unique hclose'
      rw [ih hrest']

/-! ### One pass -/

section Loop

variable {m : Type → Type} [Monad m] {eval : List Char → m (Option (List Char))}
  {result remaining before after inner rest : List Char}

theorem resolveLoop_plain (hopen : ¬ openBraces <:+: remaining) :
    resolveLoop eval result remaining = pure (result ++ remaining) := by
  rw [resolveLoop]
  split
  next => rfl
  next hsome =>
    exact absurd ((splitFirst_eq_some_iff openBraces_ne_nil).mp hsome).occurs hopen

theorem resolveLoop_unclosed (hopen : First openBraces remaining before after)
    (hclose : ¬ closeBraces <:+: after) :
    resolveLoop eval result remaining = pure (result ++ before ++ openBraces ++ after) := by
  have hsplit := (splitFirst_eq_some_iff openBraces_ne_nil).mpr hopen
  rw [resolveLoop]
  split
  next hnone => exact nomatch hnone.symm.trans hsplit
  next hsome =>
    obtain ⟨rfl, rfl⟩ := Prod.mk.inj (Option.some.inj (hsome.symm.trans hsplit))
    split
    next => rfl
    next hsome' =>
      exact absurd ((splitFirst_eq_some_iff closeBraces_ne_nil).mp hsome').occurs hclose

theorem resolveLoop_closed (hopen : First openBraces remaining before after)
    (hclose : First closeBraces after inner rest) :
    resolveLoop eval result remaining = eval (trim inner) >>= fun value =>
      resolveLoop eval (result ++ before ++ placeholderText (trim inner) value) rest := by
  have hsplit := (splitFirst_eq_some_iff openBraces_ne_nil).mpr hopen
  have hsplit' := (splitFirst_eq_some_iff closeBraces_ne_nil).mpr hclose
  rw [resolveLoop]
  split
  next hnone => exact nomatch hnone.symm.trans hsplit
  next hsome =>
    obtain ⟨rfl, rfl⟩ := Prod.mk.inj (Option.some.inj (hsome.symm.trans hsplit))
    split
    next hnone => exact nomatch hnone.symm.trans hsplit'
    next hsome' =>
      obtain ⟨rfl, rfl⟩ := Prod.mk.inj (Option.some.inj (hsome'.symm.trans hsplit'))
      refine congrArg (eval _ >>= ·) (funext fun value => ?_)
      rcases value with _ | value
      · simp [placeholderText]
      · rfl

end Loop

/-- An evaluation that logs the expression. -/
def evaluateLogged (nostr : NostrCrate) (tc : TriggerContext) (outputs : StepOutputs)
    (expr : List Char) :
    ExceptT WorkflowError (StateM (List (List Char))) (Option (List Char)) :=
  fun log => (evaluate nostr tc outputs expr, log ++ [expr])

/-- A template, resolved with a log of the expressions that are evaluated. -/
def resolveLogged (nostr : NostrCrate) (tc : TriggerContext) (outputs : StepOutputs)
    (template : List Char) : Except WorkflowError (List Char) × List (List Char) :=
  if splitFirst openBraces template = none then (.ok template, [])
  else resolveLoop (evaluateLogged nostr tc outputs) [] template []

/-- The expressions of the placeholders, in their order. -/
def exprs (segs : List Segment) : List (List Char) :=
  segs.filterMap fun
    | .placeholder expr => some expr
    | _ => none

/-- The placeholders that a pass evaluates: up to the first with a filter that is none. -/
inductive Evaluates (tc : TriggerContext) (outputs : StepOutputs) :
    List (List Char) → List (List Char) → Prop
  | nil : Evaluates tc outputs [] []
  | bad {expr : List Char} (exprs : List (List Char)) (h : BadFilter tc outputs expr) :
    Evaluates tc outputs (expr :: exprs) [expr]
  | good {expr : List Char} {exprs log : List (List Char)} (h : ¬ BadFilter tc outputs expr)
      (hrest : Evaluates tc outputs exprs log) : Evaluates tc outputs (expr :: exprs) (expr :: log)

theorem loop_bind {log : List (List Char)} {expr : List Char}
    (next : Option (List Char) →
      ExceptT WorkflowError (StateM (List (List Char))) (List Char)) :
    (evaluateLogged nostr tc outputs expr >>= next) log =
      match evaluate nostr tc outputs expr with
      | .ok value => next value (log ++ [expr])
      | .error e => (.error e, log ++ [expr]) := by
  change (ExceptT.bindCont next (evaluate nostr tc outputs expr)) (log ++ [expr]) = _
  rcases evaluate nostr tc outputs expr with e | value <;> rfl

/-- A logged run: what it returns, and the expressions it evaluates. -/
theorem loop_logged (nostr : NostrCrate) (tc : TriggerContext) (outputs : StepOutputs)
    {text : List Char} {segs : List Segment} (h : Segmented text segs) (result : List Char)
    (log : List (List Char)) :
    ∃ logged, Evaluates tc outputs (exprs segs) logged ∧
      resolveLoop (evaluateLogged nostr tc outputs) result text log =
        (resolveLoop (evaluate nostr tc outputs) result text, log ++ logged) := by
  induction h generalizing result log with
  | plain hopen =>
    refine ⟨[], .nil, ?_⟩
    rw [resolveLoop_plain hopen, resolveLoop_plain hopen, List.append_nil]
    rfl
  | unclosed hopen hclose =>
    refine ⟨[], .nil, ?_⟩
    rw [resolveLoop_unclosed hopen hclose, resolveLoop_unclosed hopen hclose, List.append_nil]
    rfl
  | @closed text before after inner rest segs hopen hclose hrest ih =>
    rw [resolveLoop_closed hopen hclose, resolveLoop_closed hopen hclose, loop_bind]
    rcases hvalue : evaluate nostr tc outputs (trim inner) with e | value
    · exact ⟨[trim inner], .bad _ (evaluate_eq_error_iff.mp ⟨e, hvalue⟩), rfl⟩
    · obtain ⟨logged, hlogged, heq⟩ := ih (result ++ before ++ placeholderText (trim inner) value)
        (log ++ [trim inner])
      refine ⟨trim inner :: logged, .good (fun hbad => ?_) hlogged, ?_⟩
      · obtain ⟨e, he⟩ := evaluate_eq_error_iff.mpr hbad
        exact nomatch hvalue.symm.trans he
      · exact heq.trans (by simp [bind, Except.bind])

/-- A pass over a template: it fails at the first placeholder with a filter that is none, and
otherwise puts the texts of the segments together. -/
theorem loop_result (nostr : NostrCrate) (tc : TriggerContext) (outputs : StepOutputs)
    {text : List Char} {segs : List Segment} (h : Segmented text segs) (result : List Char) :
    (∃ e expr, resolveLoop (evaluate nostr tc outputs) result text = .error e ∧
        .placeholder expr ∈ segs ∧ BadFilter tc outputs expr) ∨
      ((∀ expr, .placeholder expr ∈ segs → ¬ BadFilter tc outputs expr) ∧
        ∃ texts, List.Forall₂ (Renders nostr tc outputs) segs texts ∧
          resolveLoop (evaluate nostr tc outputs) result text = .ok (result ++ texts.flatten)) := by
  induction h generalizing result with
  | @plain text hopen =>
    refine .inr ⟨by simp, [text], .cons (.literal text) .nil, ?_⟩
    rw [resolveLoop_plain hopen]
    simp [pure, Except.pure]
  | @unclosed text before after hopen hclose =>
    refine .inr ⟨by simp, [before, openBraces ++ after],
      .cons (.literal before) (.cons (.unclosed after) .nil), ?_⟩
    rw [resolveLoop_unclosed hopen hclose]
    simp [pure, Except.pure]
  | @closed text before after inner rest segs hopen hclose hrest ih =>
    rw [resolveLoop_closed hopen hclose]
    rcases hvalue : evaluate nostr tc outputs (trim inner) with e | value
    · exact .inl ⟨e, trim inner, rfl, by simp, evaluate_eq_error_iff.mp ⟨e, hvalue⟩⟩
    · have hgood : ¬ BadFilter tc outputs (trim inner) := fun hbad => by
        obtain ⟨e, he⟩ := evaluate_eq_error_iff.mpr hbad
        exact nomatch hvalue.symm.trans he
      rcases ih (result ++ before ++ placeholderText (trim inner) value) with
        ⟨e, expr, he, hmem, hbad⟩ | ⟨hall, texts, htexts, hok⟩
      · exact .inl ⟨e, expr, he, by simp [hmem], hbad⟩
      · refine .inr ⟨?_, before :: placeholderText (trim inner) value :: texts,
          .cons (.literal before) (.cons (renders_of_evaluate hvalue) htexts), ?_⟩
        · intro expr hmem
          simp only [List.mem_cons, reduceCtorEq, false_or, Segment.placeholder.injEq] at hmem
          rcases hmem with rfl | hmem
          · exact hgood
          · exact hall expr hmem
        · exact hok.trans (by simp)

theorem Evaluates.unique {l log log' : List (List Char)} (h : Evaluates tc outputs l log)
    {tc' : TriggerContext} {outputs' : StepOutputs}
    (hbad : ∀ expr, BadFilter tc outputs expr ↔ BadFilter tc' outputs' expr)
    (h' : Evaluates tc' outputs' l log') : log' = log := by
  induction h generalizing log' with
  | nil => cases h'; rfl
  | bad exprs hexpr =>
    cases h' with
    | bad => rfl
    | good hgood => exact absurd ((hbad _).mp hexpr) hgood
  | good hexpr _ ih =>
    cases h' with
    | bad _ hbad' => exact absurd ((hbad _).mpr hbad') hexpr
    | good _ hrest => rw [ih hrest]

theorem Evaluates.subset {l log : List (List Char)} (h : Evaluates tc outputs l log) :
    log ⊆ l := by
  induction h with
  | nil => exact List.Subset.refl _
  | bad exprs _ => simp
  | good _ _ ih => exact List.cons_subset_cons _ ih

theorem mem_exprs {segs : List Segment} {expr : List Char} :
    expr ∈ exprs segs ↔ .placeholder expr ∈ segs := by
  rw [exprs, List.mem_filterMap]
  constructor
  · rintro ⟨seg, hmem, hseg⟩
    rcases seg with _ | expr' | _ <;> simp at hseg
    exact hseg ▸ hmem
  · exact fun hmem => ⟨_, hmem, rfl⟩

theorem resolveTemplate_eq_loop (template : List Char) :
    resolveTemplate nostr tc outputs template =
      resolveLoop (evaluate nostr tc outputs) [] template := by
  rw [resolveTemplate]
  split_ifs with hnone
  · have hloop : resolveLoop (evaluate nostr tc outputs) [] template = pure template :=
      resolveLoop_plain ((splitFirst_eq_none_iff openBraces_ne_nil).mp hnone)
    exact hloop.symm
  · rfl

theorem resolveLogged_eq_loop (template : List Char) :
    resolveLogged nostr tc outputs template =
      resolveLoop (evaluateLogged nostr tc outputs) [] template [] := by
  rw [resolveLogged]
  split_ifs with hnone
  · have hloop : resolveLoop (evaluateLogged nostr tc outputs) [] template = pure template :=
      resolveLoop_plain ((splitFirst_eq_none_iff openBraces_ne_nil).mp hnone)
    rw [hloop]
    rfl
  · rfl

/-- Contexts that define the same variables have the same placeholders with bad filters. -/
theorem badFilter_congr {tc' : TriggerContext} {outputs' : StepOutputs}
    (h : ∀ path, (resolveVariable path tc outputs).isSome =
      (resolveVariable path tc' outputs').isSome) (expr : List Char) :
    BadFilter tc outputs expr ↔ BadFilter tc' outputs' expr := by
  rw [BadFilter, BadFilter, h]

theorem exists_logged (nostr : NostrCrate) (tc : TriggerContext) (outputs : StepOutputs)
    {template : List Char} {segs : List Segment} (h : Segmented template segs) :
    Evaluates tc outputs (exprs segs) (resolveLogged nostr tc outputs template).2 ∧
      (resolveLogged nostr tc outputs template).1 = resolveTemplate nostr tc outputs template := by
  obtain ⟨logged, hlogged, heq⟩ := loop_logged nostr tc outputs h [] []
  rw [resolveLogged_eq_loop, resolveTemplate_eq_loop, heq]
  exact ⟨hlogged, rfl⟩

/-- Resolving is a single pass. A template has one segmentation; only its placeholders are
evaluated, and the same ones in every context with the same variables. It fails just when a
placeholder names a variable of the context with a filter that is none, and otherwise the result is
the texts of the segments, put together. -/
theorem resolveTemplate_single_pass (nostr : NostrCrate) (template : List Char) :
    ∃ segs, Segmented template segs ∧ (∀ segs', Segmented template segs' → segs' = segs) ∧
      ∀ tc outputs,
        (resolveLogged nostr tc outputs template).1 = resolveTemplate nostr tc outputs template ∧
        (∀ expr ∈ (resolveLogged nostr tc outputs template).2, .placeholder expr ∈ segs) ∧
        ((∃ e, resolveTemplate nostr tc outputs template = .error e) ↔
          ∃ expr, .placeholder expr ∈ segs ∧ BadFilter tc outputs expr) ∧
        ((∀ e, resolveTemplate nostr tc outputs template ≠ .error e) →
          ∃ texts, List.Forall₂ (Renders nostr tc outputs) segs texts ∧
            resolveTemplate nostr tc outputs template = .ok texts.flatten) ∧
        ∀ tc' outputs', (∀ path, (resolveVariable path tc outputs).isSome =
            (resolveVariable path tc' outputs').isSome) →
          (resolveLogged nostr tc' outputs' template).2 =
            (resolveLogged nostr tc outputs template).2 := by
  obtain ⟨segs, hsegs⟩ := exists_segmented template
  refine ⟨segs, hsegs, fun segs' hsegs' => hsegs.unique hsegs', fun tc outputs => ?_⟩
  obtain ⟨hlogged, hfst⟩ := exists_logged nostr tc outputs hsegs
  have hresult := loop_result nostr tc outputs hsegs []
  simp only [← resolveTemplate_eq_loop, List.nil_append] at hresult
  refine ⟨hfst, fun expr hexpr => mem_exprs.mp (hlogged.subset hexpr), ?_, ?_, ?_⟩
  · rcases hresult with ⟨e, expr, he, hmem, hbad⟩ | ⟨hall, texts, -, hok⟩
    · exact ⟨fun _ => ⟨expr, hmem, hbad⟩, fun _ => ⟨e, he⟩⟩
    · constructor
      · rintro ⟨e, he⟩
        exact nomatch hok.symm.trans he
      · rintro ⟨expr, hmem, hbad⟩
        exact absurd hbad (hall expr hmem)
  · intro hne
    rcases hresult with ⟨e, expr, he, -, -⟩ | ⟨-, texts, htexts, hok⟩
    · exact absurd he (hne e)
    · exact ⟨texts, htexts, hok⟩
  · intro tc' outputs' hsame
    exact hlogged.unique (badFilter_congr hsame) (exists_logged nostr tc' outputs' hsegs).1

end Buzz.Workflow
