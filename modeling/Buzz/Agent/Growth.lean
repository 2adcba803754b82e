import Buzz.Agent.Run

/-!
# How a history grows

What the history of a session can become, and on what events (`Grown`). Every history that a run
passes to the provider has grown so (`sat_converse`); what is proved of the histories that have
grown thus holds of all of them.

The result of a call that is recorded is the end of its own task, the answer of the skill loader to
it, or a synthetic failure (`OutcomeOf`), after the response that made the call.

## Main definitions

* `OutcomeOf`, `Outcomes`: where the results of a group of calls come from.
* `Grown`: how a history has come about.

## Main results

* `sat_executeCalls`: every call gets one outcome.
* `sat_converse`, `grown_of_ran`: what is passed to the provider has grown.
-/

namespace Buzz.Agent

open Library Interaction

abbrev Trace := History Answer

/-- The calls that bring no user text. -/
def Call.quiet : Call → Prop
  | .nextPrompt | .drainSteers => False
  | _ => True

/-- The calls that are made while the calls of a response are executed. -/
def Call.executes : Call → Prop
  | .cancelRequested | .callLoadSkill .. | .joinNext _ | .drainNext _ => True
  | _ => False

theorem Call.quiet_of_executes {c : Call} (hc : c.executes) : c.quiet := by
  cases c <;> trivial

/-! ### Outcomes of calls -/

/-- A result of a call at a position of its group, from the events since the response. -/
inductive OutcomeOf (cfg : Config) (es : Trace) (idx : ℕ) (call : ToolCall) : ToolResult → Prop
  /-- The task of the call has ended. -/
  | joined {tasks : List (ℕ × ToolCall)} {k : Fin tasks.length} {e : TaskEnd} {result : ToolResult}
      (hevent : (⟨.joinNext tasks, some (k, e)⟩ : Event Answer) ∈ es)
      (htask : tasks.get k = (idx, call)) (hresult : taskResult cfg call e = some result) :
      OutcomeOf cfg es idx call result
  /-- The task of the call has ended after the cancellation. -/
  | drained {tasks : List (ℕ × ToolCall)} {k : Fin tasks.length} {e : TaskEnd} {result : ToolResult}
      (hevent : (⟨.drainNext tasks, some (k, e)⟩ : Event Answer) ∈ es)
      (htask : tasks.get k = (idx, call)) (hresult : taskResult cfg call e = some result) :
      OutcomeOf cfg es idx call result
  | skill {reply : ToolReply} (hevent : (⟨.callLoadSkill idx call, reply⟩ : Event Answer) ∈ es) :
      OutcomeOf cfg es idx call (reply.toResult call)
  | cancelled : OutcomeOf cfg es idx call (syntheticToolResult call cancelledMessage)
  | unknown : OutcomeOf cfg es idx call (syntheticToolResult call (unknownTool call))

/-- One outcome for each call, in order. -/
structure Outcomes (cfg : Config) (es : Trace) (calls : List ToolCall)
    (outcomes : List ToolResult) : Prop where
  length : outcomes.length = calls.length
  outcome : ∀ idx call outcome, calls[idx]? = some call → outcomes[idx]? = some outcome →
    OutcomeOf cfg es idx call outcome

/-- The results so far of a group of calls. Those that are missing are of `left`. -/
structure Partly (cfg : Config) (es : Trace) (calls : List ToolCall)
    (left : List (ℕ × ToolCall)) (results : Results) : Prop where
  length : results.length = calls.length
  outcome : ∀ idx call outcome, calls[idx]? = some call → results[idx]? = some (some outcome) →
    OutcomeOf cfg es idx call outcome
  left : ∀ idx call, calls[idx]? = some call → results[idx]? = some none → (idx, call) ∈ left

/-- The tasks are calls of the group, at their positions. -/
def TasksOf (calls : List ToolCall) (tasks : List (ℕ × ToolCall)) : Prop :=
  ∀ task ∈ tasks, calls[task.1]? = some task.2

section Outcomes

variable {cfg : Config} {es es' : Trace} {calls : List ToolCall} {idx : ℕ} {call : ToolCall}
  {result : ToolResult} {results : Results} {left left' : List (ℕ × ToolCall)}

theorem taskResult_providerId {e : TaskEnd} (h : taskResult cfg call e = some result) :
    result.providerId = call.providerId := by
  cases e with
  | panicked => cases h
  | _ =>
    obtain rfl := Option.some.inj h
    rfl

theorem OutcomeOf.providerId (h : OutcomeOf cfg es idx call result) :
    result.providerId = call.providerId := by
  cases h with
  | joined _ _ hresult | drained _ _ hresult => exact taskResult_providerId hresult
  | _ => rfl

theorem OutcomeOf.mono (h : OutcomeOf cfg es idx call result) (hes : es ⊆ es') :
    OutcomeOf cfg es' idx call result := by
  cases h with
  | joined hevent htask hresult => exact .joined (hes hevent) htask hresult
  | drained hevent htask hresult => exact .drained (hes hevent) htask hresult
  | skill hevent => exact .skill (hes hevent)
  | cancelled => exact .cancelled
  | unknown => exact .unknown

theorem Partly.mono (h : Partly cfg es calls left results) (hes : es ⊆ es')
    (hleft : left ⊆ left') : Partly cfg es' calls left' results :=
  ⟨h.length, fun i c o hc ho => (h.outcome i c o hc ho).mono hes,
    fun i c hc hr => hleft (h.left i c hc hr)⟩

/-- The result of one of the calls that are left. -/
theorem Partly.set (h : Partly cfg es calls ((idx, call) :: left) results)
    (hcall : calls[idx]? = some call) (hresult : OutcomeOf cfg es idx call result) :
    Partly cfg es calls left (results.set idx (some result)) := by
  refine ⟨by rw [List.length_set, h.length], fun i c o hc ho => ?_, fun i c hc hr => ?_⟩
  · rw [List.getElem?_set] at ho
    split_ifs at ho with hidx hlt
    · obtain rfl := Option.some.inj (Option.some.inj ho)
      subst hidx
      obtain rfl := Option.some.inj (hcall.symm.trans hc)
      exact hresult
    · exact h.outcome i c o hc ho
  · rw [List.getElem?_set] at hr
    split_ifs at hr with hidx hlt
    · cases hr
    · rcases List.mem_cons.mp (h.left i c hc hr) with heq | hmem
      · exact absurd (Prod.mk.inj heq).1.symm hidx
      · exact hmem

/-- A result that is kept anyway. -/
theorem Partly.set_again (h : Partly cfg es calls left results) (hcall : calls[idx]? = some call)
    (hresult : OutcomeOf cfg es idx call result) :
    Partly cfg es calls left (results.set idx (some result)) :=
  (h.mono (List.Subset.refl es) (List.subset_cons_self _ _)).set hcall hresult

theorem Partly.join {e : TaskEnd} (h : Partly cfg es calls left results)
    (hcall : calls[idx]? = some call)
    (hresult : ∀ r, taskResult cfg call e = some r → OutcomeOf cfg es idx call r) :
    Partly cfg es calls left (results.join cfg (idx, call) e) := by
  rw [Results.join]
  split
  next r hr => exact h.set_again hcall (hresult r hr)
  next => exact h

theorem Partly.drain {e : TaskEnd} (h : Partly cfg es calls left results)
    (hcall : calls[idx]? = some call)
    (hresult : ∀ r, taskResult cfg call e = some r → OutcomeOf cfg es idx call r) :
    Partly cfg es calls left (results.drain cfg (idx, call) e) := by
  rw [Results.drain]
  split
  next => exact h.join hcall hresult
  next => exact h

theorem Partly.cancel (h : Partly cfg es calls ((idx, call) :: left) results)
    (hcall : calls[idx]? = some call) :
    Partly cfg es calls left (results.cancel (idx, call)) := by
  rw [Results.cancel]
  split
  next hnone => exact h.set hcall .cancelled
  next hsome =>
    refine ⟨h.length, h.outcome, fun i c hc hr => ?_⟩
    rcases List.mem_cons.mp (h.left i c hc hr) with heq | hmem
    · rw [(Prod.mk.inj heq).1] at hr
      exact absurd hr (hsome)
    · exact hmem

/-- Nothing is left once what is left is filled. -/
theorem Partly.foldl_cancel (h : Partly cfg es calls left results) (hleft : TasksOf calls left) :
    Partly cfg es calls [] (left.foldl Results.cancel results) := by
  induction left generalizing results with
  | nil => exact h
  | cons task left ih =>
    have hcall := hleft task List.mem_cons_self
    exact ih (h.cancel hcall) fun t ht => hleft t (List.mem_cons_of_mem _ ht)

/-- Results without a gap are outcomes. -/
theorem Partly.outcomes (h : Partly cfg es calls [] results) :
    ∃ outcomes : List ToolResult, results = outcomes.map some ∧
      Outcomes cfg es calls outcomes := by
  have hsome : ∀ r ∈ results, ∃ o, r = some o := by
    intro r hr
    obtain ⟨i, hi, rfl⟩ := List.getElem_of_mem hr
    have hlt : i < calls.length := h.length ▸ hi
    cases hri : results[i] with
    | some o => exact ⟨o, rfl⟩
    | none =>
      have hnone : results[i]? = some none := by rw [List.getElem?_eq_getElem hi, hri]
      cases h.left i calls[i] (List.getElem?_eq_getElem hlt) hnone
  obtain ⟨outcomes, rfl⟩ : ∃ outcomes : List ToolResult, results = outcomes.map some := by
    clear h
    induction results with
    | nil => exact ⟨[], rfl⟩
    | cons r results ih =>
      obtain ⟨o, rfl⟩ := hsome r List.mem_cons_self
      obtain ⟨outcomes, rfl⟩ := ih fun r hr => hsome r (List.mem_cons_of_mem _ hr)
      exact ⟨o :: outcomes, rfl⟩
  refine ⟨outcomes, rfl, by rw [← h.length, List.length_map], fun i c o hc ho => ?_⟩
  exact h.outcome i c o hc (by rw [List.getElem?_map, ho]; rfl)

theorem partly_replicate (cfg : Config) (es : Trace) (calls : List ToolCall) :
    Partly cfg es calls (numbered 0 calls) (List.replicate calls.length none) := by
  refine ⟨List.length_replicate, fun i c o hc ho => ?_, fun i c hc hr => ?_⟩
  · rw [List.getElem?_replicate] at ho
    split_ifs at ho
    cases ho
  · rw [numbered, List.mem_map]
    exact ⟨(c, i), List.mk_mem_zipIdx_iff_getElem?.mpr hc, rfl⟩

theorem tasksOf_numbered (calls : List ToolCall) : TasksOf calls (numbered 0 calls) := by
  intro task htask
  obtain ⟨⟨c, i⟩, hmem, rfl⟩ := List.mem_map.mp htask
  exact List.mk_mem_zipIdx_iff_getElem?.mp hmem

/-- What is recorded of outcomes. -/
theorem appendResults_outcomes {outcomes : List ToolResult} (h : Outcomes cfg es calls outcomes)
    (history : List HistoryItem) :
    appendResults history calls (outcomes.map some) =
      history ++ (outcomes.map recorded).map .toolResult := by
  have hzip : List.zipWith recordedResult calls (outcomes.map some) = outcomes.map recorded := by
    have hlen := h.length
    clear h
    induction outcomes generalizing calls with
    | nil => simp
    | cons o outcomes ih =>
      cases calls with
      | nil => cases hlen
      | cons c calls =>
        rw [List.map_cons, List.zipWith_cons_cons, ih (Nat.succ.inj hlen), List.map_cons]
        rfl
  rw [appendResults, hzip]

end Outcomes

/-! ### Growth -/

/-- An objection that `_Stop` hooks or the reply guard have made. -/
def Objected (h : Trace) (objection : List Char × List Char) : Prop :=
  (∃ outputs : List (List Char × List Char),
    (⟨.callHooks stopHook, outputs⟩ : Event Answer) ∈ h ∧ objection ∈ outputs) ∨
  objection = (replyGuardServer, replyGuardNag)

/-- The history of a session, as its trace has made it. -/
inductive Grown (ctx : Ctx) : Trace → List HistoryItem → Prop
  | new : Grown ctx [] []
  /-- Something happens that brings no user text. -/
  | quiet {h : Trace} {history : List HistoryItem} {c : Call} (hg : Grown ctx h history)
      (hc : c.quiet) (a : Answer c) : Grown ctx (⟨c, a⟩ :: h) history
  | prompted {h : Trace} {history : List HistoryItem} (hg : Grown ctx h history)
      (prompt : List ContentBlock) :
      Grown ctx (⟨.nextPrompt, prompt⟩ :: h)
        (history ++ (acceptPrompt prompt).toOption.toList.map .user)
  | steered {h : Trace} {history : List HistoryItem} (hg : Grown ctx h history)
      (queue : List (List ContentBlock)) :
      Grown ctx (⟨.drainSteers, queue⟩ :: h) (history ++ (queue.filterMap steerText).map .user)
  | handedOff {h : Trace} {history : List HistoryItem} (hg : Grown ctx h history)
      {prompt summary : List Char} (hsummary : isBlank summary = false)
      (postCompact : List (List Char × List Char)) :
      Grown ctx (⟨.callHooks postCompactHook, postCompact⟩ ::
          ⟨.summarize history prompt, some (.ok summary)⟩ :: h)
        (handoffHistory summary postCompact history)
  | truncated {h : Trace} {history : List HistoryItem} (hg : Grown ctx h history)
      (originalLen len : ℕ) :
      Grown ctx (⟨.logTruncated originalLen len, ⟨⟩⟩ :: h)
        (truncateHistory history ctx.cfg.maxHistoryBytes)
  | imagesDropped {h : Trace} {history : List HistoryItem} (hg : Grown ctx h history) :
      Grown ctx h (history.map HistoryItem.dropImages)
  | replied {h : Trace} {history : List HistoryItem} (hg : Grown ctx h history)
      (hne : history ≠ []) (text : List Char) (reasoningDetails : Option Json) :
      Grown ctx h (history ++ [.assistant text [] reasoningDetails])
  | recovering {h : Trace} {history : List HistoryItem} (hg : Grown ctx h history) :
      Grown ctx h (history ++ [.user maxTokensRecoveryMessage])
  /-- The calls of a response have been executed. -/
  | executed {es h : Trace} {sent history : List HistoryItem} {tools : List (List Char)}
      {response : LlmResponse}
      (hg : Grown ctx (es ++ ⟨.complete sent tools, some (.ok response)⟩ :: h) history)
      (hes : ∀ e ∈ es, e.1.executes) (hne : history ≠ []) {outcomes : List ToolResult}
      (hout : Outcomes ctx.cfg es (response.toolCalls.take maxToolCallsPerTurn) outcomes) :
      Grown ctx (es ++ ⟨.complete sent tools, some (.ok response)⟩ :: h)
        (history ++ .assistant response.text (response.toolCalls.take maxToolCallsPerTurn)
          response.reasoningDetails :: (outcomes.map recorded).map .toolResult)
  | hooked {h : Trace} {history : List HistoryItem} (hg : Grown ctx h history)
      (hne : history ≠ []) {server text : List Char} {ordinal : ℕ}
      (hobjected : Objected h (server, text)) :
      Grown ctx h (history ++ hookPair stopHook server text ordinal)

/-- The history of the session has grown, and it is not empty. -/
structure Sound (ctx : Ctx) (h : Trace) (s : Session) : Prop where
  grown : Grown ctx h s.history
  ne_nil : s.history ≠ []

/-- What is guaranteed of the calls: a history that is passed to the provider has grown. -/
def Passes (ctx : Ctx) (h : Trace) : Call → Prop
  | .complete history _ => Grown ctx h history ∧ history ≠ []
  | _ => True

section Sat

variable {ctx : Ctx} {h : Trace} {s : Session} {α β : Type}

/-- Nothing is assumed of the answers. -/
def Any (_ : Trace) (c : Call) (_ : Answer c) : Prop := True

/-- What is concluded of a result. Programs do not fail. -/
def Returns (P : Trace → α → Prop) : Trace → Except Empty α → Prop := Post P fun _ _ => True

/-- The calls of a program pass on what has grown, and its result is as concluded. -/
abbrev Runs (ctx : Ctx) (p : Running α) (P : Trace → α → Prop) (h : Trace) : Prop :=
  Sat Any (Passes ctx) p (Returns P) h

theorem Runs.bind {p : Running α} {f : α → Running β} {P : Trace → α → Prop}
    {Q : Trace → β → Prop} (hp : Runs ctx p P h) (hf : ∀ h a, P h a → Runs ctx (f a) Q h) :
    Runs ctx (p >>= f) Q h :=
  Sat.bind hp hf fun _ e _ => e.elim

/-- A call that is no request to the provider. -/
theorem runs_call {c : Call} {f : Answer c → Running α} {P : Trace → α → Prop}
    (hc : ∀ history tools, c ≠ .complete history tools)
    (hf : ∀ a, Runs ctx (f a) P (⟨c, a⟩ :: h)) : Runs ctx (.call c f) P h := by
  refine ⟨?_, fun a _ => hf a⟩
  cases c with
  | complete history tools => exact absurd rfl (hc history tools)
  | _ => trivial

theorem runs_ite {c : Prop} [Decidable c] {p q : Running α} {P : Trace → α → Prop}
    (hp : c → Runs ctx p P h) (hq : ¬ c → Runs ctx q P h) :
    Runs ctx (if c then p else q) P h := by
  split_ifs with hc
  · exact hp hc
  · exact hq hc

theorem Sound.quiet {c : Call} (hs : Sound ctx h s) (hc : c.quiet) (a : Answer c) :
    Sound ctx (⟨c, a⟩ :: h) s := ⟨hs.grown.quiet hc a, hs.ne_nil⟩

theorem handoffHistory_ne_nil (summary : List Char) (postCompact : List (List Char × List Char))
    (history : List HistoryItem) : handoffHistory summary postCompact history ≠ [] := by
  rw [handoffHistory]
  exact List.cons_ne_nil _ _

/-! ### Handoffs -/

theorem sat_handoff (cfg : Config) (hs : Sound ctx h s) (budget : Option ℕ) :
    Runs ctx (handoff cfg s budget) (fun h r => Sound ctx h r.2) h := by
  refine runs_call (fun _ _ => nofun) fun tools => runs_call (fun _ _ => nofun) fun answer => ?_
  have htools := hs.quiet (c := .tools) trivial tools
  have hquiet := htools.quiet (c := .summarize s.history (buildHandoffPrompt cfg s tools budget))
    trivial answer
  rcases answer with _ | e | summary
  · exact hquiet
  · exact hquiet
  · refine runs_ite (fun _ => hquiet) fun hblank => ?_
    refine runs_call (fun _ _ => nofun) fun postCompact => ?_
    exact ⟨htools.grown.handedOff (Bool.eq_false_iff.mpr hblank) postCompact,
      handoffHistory_ne_nil _ _ _⟩

theorem sat_maybeHandoff (cfg : Config) (hs : Sound ctx h s) (attempts : ℕ) :
    Runs ctx (maybeHandoff cfg s attempts) (fun h r => Sound ctx h r.2.1) h := by
  refine runs_ite (fun _ => hs) fun _ => runs_ite (fun _ => hs) fun _ => ?_
  exact (sat_handoff cfg hs none).bind fun h r hr => hr

theorem sat_recoverLoop (cfg : Config) (rejectedBytes left : ℕ) (hs : Sound ctx h s)
    (attempts : ℕ) :
    Runs ctx (recoverLoop cfg rejectedBytes left s attempts) (fun h r => Sound ctx h r.2.1) h := by
  induction left generalizing h s attempts with
  | zero => exact hs
  | succ left ih =>
    refine runs_ite (fun _ => hs) fun _ => (sat_handoff cfg hs _).bind fun h r hr => ?_
    obtain ⟨outcome, s'⟩ := r
    cases outcome with
    | performed | cancelled => exact hr
    | skipped => exact ih hr _

/-! ### Tool calls -/

/-- The group of calls of a response, whose results so far come from what has happened since. -/
structure Executing (ctx : Ctx) (h₀ : Trace) (calls : List ToolCall)
    (left : List (ℕ × ToolCall)) (results : Results) (h : Trace) : Prop where
  partly : ∃ es : Trace, h = es ++ h₀ ∧ (∀ e ∈ es, e.1.executes) ∧
    Partly ctx.cfg es calls left results
  tasks : TasksOf calls left

section Execute

variable {h₀ : Trace} {calls : List ToolCall} {left rest runnable : List (ℕ × ToolCall)}
  {results : Results} {c : Call} {a : Answer c}

/-- The results change, with what has just happened. -/
theorem Executing.step (hx : Executing ctx h₀ calls left results h) (hc : c.executes)
    {left' : List (ℕ × ToolCall)} {results' : Results} (htasks : TasksOf calls left')
    (hstep : ∀ es, Partly ctx.cfg (⟨c, a⟩ :: es) calls left results →
      Partly ctx.cfg (⟨c, a⟩ :: es) calls left' results') :
    Executing ctx h₀ calls left' results' (⟨c, a⟩ :: h) := by
  obtain ⟨⟨es, rfl, hes, hp⟩, -⟩ := hx
  exact ⟨⟨⟨c, a⟩ :: es, rfl, List.forall_mem_cons.mpr ⟨hc, hes⟩,
    hstep es (hp.mono (List.subset_cons_self _ _) (List.Subset.refl _))⟩, htasks⟩

theorem Executing.quiet (hx : Executing ctx h₀ calls left results h) (hc : c.executes)
    (a : Answer c) : Executing ctx h₀ calls left results (⟨c, a⟩ :: h) :=
  hx.step hc hx.tasks fun _ hp => hp

/-- Every call that is left is cancelled. -/
theorem Executing.cancel (hx : Executing ctx h₀ calls left results h) {tasks : List (ℕ × ToolCall)}
    (hleft : left ⊆ tasks) (htasks : TasksOf calls tasks) :
    Executing ctx h₀ calls [] (tasks.foldl Results.cancel results) h := by
  obtain ⟨⟨es, rfl, hes, hp⟩, -⟩ := hx
  exact ⟨⟨es, rfl, hes, (hp.mono (List.Subset.refl _) hleft).foldl_cancel htasks⟩,
    fun _ ht => absurd ht List.not_mem_nil⟩

/-- What is concluded of the preflight: the calls that it leaves are to be spawned. -/
def Preflown (ctx : Ctx) (h₀ : Trace) (calls : List ToolCall) (h : Trace) :
    Option (List (ℕ × ToolCall)) × Results → Prop
  | (none, results) => Executing ctx h₀ calls [] results h
  | (some runnable, results) => Executing ctx h₀ calls runnable results h

theorem sat_preflight (hx : Executing ctx h₀ calls (runnable ++ rest) results h) :
    Runs ctx (preflight ctx calls rest results runnable) (Preflown ctx h₀ calls) h := by
  induction rest generalizing h results runnable with
  | nil =>
    rw [List.append_nil] at hx
    exact hx
  | cons task rest ih =>
    obtain ⟨idx, call⟩ := task
    have hmem : (idx, call) ∈ runnable ++ (idx, call) :: rest := by simp
    have hcall : calls[idx]? = some call := hx.tasks _ hmem
    have hrest : TasksOf calls (runnable ++ rest) := fun t ht => by
      refine hx.tasks t ?_
      rcases List.mem_append.mp ht with hmem | hmem <;> simp [hmem]
    have hperm : runnable ++ (idx, call) :: rest ⊆ (idx, call) :: (runnable ++ rest) :=
      List.perm_middle.subset
    refine runs_call (fun _ _ => nofun) fun (cancelled : Bool) => ?_
    have hborrow := hx.quiet (c := .cancelRequested) trivial cancelled
    refine runs_ite (fun _ => ?_) fun _ => runs_ite (fun _ => ?_) fun _ =>
      runs_ite (fun _ => ?_) fun _ => ?_
    · refine hborrow.cancel (fun t ht => ?_) (tasksOf_numbered calls)
      rw [numbered, List.mem_map]
      exact ⟨(t.2, t.1), List.mk_mem_zipIdx_iff_getElem?.mpr (hx.tasks t ht), rfl⟩
    · refine runs_call (fun _ _ => nofun) fun reply => ih ?_
      refine hborrow.step (c := .callLoadSkill idx call) trivial hrest fun es hp => ?_
      exact (hp.mono (List.Subset.refl _) hperm).set hcall (.skill List.mem_cons_self)
    · refine ih (hx.step (c := .cancelRequested) trivial hrest fun es hp => ?_)
      exact (hp.mono (List.Subset.refl _) hperm).set hcall .unknown
    · refine ih ?_
      rw [List.append_assoc]
      exact hborrow

theorem sat_drainTasks (n : ℕ) {tasks : List (ℕ × ToolCall)} (htasks : TasksOf calls tasks)
    (hx : Executing ctx h₀ calls left results h) :
    Runs ctx (drainTasks ctx.cfg n tasks results)
      (fun h r => Executing ctx h₀ calls left r h) h := by
  induction n generalizing h tasks results with
  | zero => exact hx
  | succ n ih =>
    refine runs_call (fun _ _ => nofun) fun answer => ?_
    rcases answer with _ | ⟨k, e⟩
    · exact hx.quiet (c := .drainNext tasks) trivial _
    · have hcall := htasks (tasks.get k) (List.get_mem _ _)
      refine ih (fun t ht => htasks t (List.mem_of_mem_eraseIdx ht)) ?_
      exact hx.step (c := .drainNext tasks) trivial hx.tasks fun es hp =>
        hp.drain hcall fun r hr => .drained List.mem_cons_self rfl hr

theorem sat_joinTasks (n : ℕ) {tasks : List (ℕ × ToolCall)} (htasks : TasksOf calls tasks)
    (hx : Executing ctx h₀ calls left results h) :
    Runs ctx (joinTasks ctx.cfg n tasks results)
      (fun h r => Executing ctx h₀ calls left r h) h := by
  induction n generalizing h tasks results with
  | zero => exact hx
  | succ n ih =>
    refine runs_call (fun _ _ => nofun) fun answer => ?_
    rcases answer with _ | ⟨k, e⟩
    · exact sat_drainTasks _ htasks (hx.quiet (c := .joinNext tasks) trivial _)
    · have hcall := htasks (tasks.get k) (List.get_mem _ _)
      refine ih (fun t ht => htasks t (List.mem_of_mem_eraseIdx ht)) ?_
      exact hx.step (c := .joinNext tasks) trivial hx.tasks fun es hp =>
        hp.join hcall fun r hr => .joined List.mem_cons_self rfl hr

theorem sat_executeParallel (hx : Executing ctx h₀ calls left results h) :
    Runs ctx (executeParallel ctx.cfg left results)
      (fun h r => Executing ctx h₀ calls [] r h) h := by
  refine runs_call (fun _ _ => nofun) fun (cancelled : Bool) => ?_
  have hborrow := hx.quiet (c := .cancelRequested) trivial cancelled
  have hfill : ∀ h r, Executing ctx h₀ calls left r h →
      Runs ctx (pure (left.foldl Results.cancel r)) (fun h r => Executing ctx h₀ calls [] r h) h :=
    fun h r hr => hr.cancel (List.Subset.refl _) hr.tasks
  exact runs_ite (fun _ => (sat_drainTasks _ hx.tasks hborrow).bind hfill) fun _ =>
    (sat_joinTasks _ hx.tasks hborrow).bind hfill

/-- The group of calls is in the history, with its outcomes. -/
theorem Executing.sound {h₁ : Trace} {sent base : List HistoryItem} {tools : List (List Char)}
    {response : LlmResponse}
    (hx : Executing ctx (⟨.complete sent tools, some (.ok response)⟩ :: h₁)
      (response.toolCalls.take maxToolCallsPerTurn) [] results h)
    (hgrown : Grown ctx (⟨.complete sent tools, some (.ok response)⟩ :: h₁) base)
    (hne : base ≠ [])
    (hs : s.history = base ++ [.assistant response.text
      (response.toolCalls.take maxToolCallsPerTurn) response.reasoningDetails]) :
    Sound ctx h { s with
      history :=
        appendResults s.history (response.toolCalls.take maxToolCallsPerTurn) results } := by
  obtain ⟨⟨es, rfl, hes, hp⟩, -⟩ := hx
  obtain ⟨outcomes, rfl, hout⟩ := hp.outcomes
  have hbase : Grown ctx (es ++ ⟨.complete sent tools, some (.ok response)⟩ :: h₁) base := by
    clear hp hout
    induction es with
    | nil => exact hgrown
    | cons e es ih =>
      obtain ⟨he, hes⟩ := List.forall_mem_cons.mp hes
      exact (ih hes).quiet (Call.quiet_of_executes he) e.2
  have hhistory : appendResults s.history (response.toolCalls.take maxToolCallsPerTurn)
      (outcomes.map some) = base ++ .assistant response.text
        (response.toolCalls.take maxToolCallsPerTurn) response.reasoningDetails ::
          (outcomes.map recorded).map .toolResult := by
    rw [appendResults_outcomes hout, hs, List.append_assoc, List.singleton_append]
  refine ⟨?_, ?_⟩
  · rw [hhistory]
    exact hbase.executed hes hne hout
  · rw [hhistory]
    simp

theorem sat_executeCalls {h₁ : Trace} {sent base : List HistoryItem} {tools : List (List Char)}
    {response : LlmResponse}
    (hgrown : Grown ctx (⟨.complete sent tools, some (.ok response)⟩ :: h₁) base)
    (hne : base ≠ [])
    (hs : s.history = base ++ [.assistant response.text
      (response.toolCalls.take maxToolCallsPerTurn) response.reasoningDetails]) :
    Runs ctx (executeCalls ctx s (response.toolCalls.take maxToolCallsPerTurn))
      (fun h r => Sound ctx h r.1) (⟨.complete sent tools, some (.ok response)⟩ :: h₁) := by
  have hstart : Executing ctx (⟨.complete sent tools, some (.ok response)⟩ :: h₁)
      (response.toolCalls.take maxToolCallsPerTurn)
      ([] ++ numbered 0 (response.toolCalls.take maxToolCallsPerTurn))
      (List.replicate (response.toolCalls.take maxToolCallsPerTurn).length none)
      (⟨.complete sent tools, some (.ok response)⟩ :: h₁) :=
    ⟨⟨[], rfl, fun _ he => absurd he List.not_mem_nil, partly_replicate _ _ _⟩,
      tasksOf_numbered _⟩
  refine (sat_preflight hstart).bind fun h r hr => ?_
  obtain ⟨runnable, results⟩ := r
  rcases runnable with _ | runnable
  · exact Executing.sound hr hgrown hne hs
  · refine (sat_executeParallel hr).bind fun h r hr => ?_
    refine runs_call (fun _ _ => nofun) fun (cancelled : Bool) => ?_
    exact (hr.quiet (c := .cancelRequested) trivial cancelled).sound hgrown hne hs

end Execute

/-! ### Rounds -/

/-- What is concluded of a round. -/
def Flows (ctx : Ctx) (h : Trace) : Flow → Prop
  | .again s _ => Sound ctx h s
  | .finish _ s => Sound ctx h s

theorem sat_pushHookOutputs {outputs : List (List Char × List Char)} (hs : Sound ctx h s)
    (hobjected : ∀ o ∈ outputs, Objected h o) :
    Runs ctx (pushHookOutputsAsToolResults stopHook outputs s) (fun h r => Sound ctx h r) h := by
  induction outputs generalizing h s with
  | nil => exact hs
  | cons o outputs ih =>
    obtain ⟨ho, houtputs⟩ := List.forall_mem_cons.mp hobjected
    refine runs_call (fun _ _ => nofun) fun (ordinal : ℕ) => ?_
    have hgrows : ∀ o, Objected h o → Objected (⟨.uniqueNonce, ordinal⟩ :: h) o := by
      rintro o (⟨outputs, hevent, hmem⟩ | hguard)
      · exact .inl ⟨outputs, List.mem_cons_of_mem _ hevent, hmem⟩
      · exact .inr hguard
    refine ih ⟨?_, ?_⟩ fun o ho => hgrows o (houtputs o ho)
    · exact (hs.grown.quiet (c := .uniqueNonce) trivial ordinal).hooked hs.ne_nil (hgrows o ho)
    · simp [hookPair]

theorem sat_endTurn (cfg : Config) (hs : Sound ctx h s) (t : Turn) (stop : StopReason) :
    Runs ctx (endTurn cfg s t stop) (Flows ctx) h := by
  refine runs_ite (fun _ => hs) fun _ => runs_ite (fun _ => hs) fun _ => ?_
  refine runs_call (fun _ _ => nofun) fun (outputs : List (List Char × List Char)) => ?_
  have hquiet := hs.quiet (c := .callHooks stopHook) trivial outputs
  refine runs_ite (fun _ => hquiet) fun _ => ?_
  refine (sat_pushHookOutputs hquiet fun o ho => ?_).bind fun h s hs => hs
  rcases List.mem_append.mp ho with hmem | hmem
  · exact .inl ⟨outputs, List.mem_cons_self, hmem⟩
  · split_ifs at hmem
    · exact .inr (List.mem_singleton.mp hmem)
    · cases hmem

theorem Sound.replied (hs : Sound ctx h s) (text : List Char) (reasoningDetails : Option Json) :
    Sound ctx h (s.push (.assistant text [] reasoningDetails)) :=
  ⟨hs.grown.replied hs.ne_nil text reasoningDetails, by simp⟩

theorem sat_respond {h₁ : Trace} {sent : List HistoryItem} {tools : List (List Char)}
    {response : LlmResponse}
    (hs : Sound ctx (⟨.complete sent tools, some (.ok response)⟩ :: h₁) s) (t : Turn) :
    Runs ctx (respond ctx s t response) (Flows ctx)
      (⟨.complete sent tools, some (.ok response)⟩ :: h₁) := by
  have hreplied := hs.replied response.text response.reasoningDetails
  refine runs_ite (fun _ => runs_ite (fun _ => hreplied) fun _ => ?_) fun _ =>
    runs_ite (fun _ => runs_ite (fun _ => hs) fun _ => ?_) fun _ => ?_
  · exact ⟨hreplied.grown.recovering, by simp⟩
  · exact sat_endTurn _ hreplied _ _
  · refine (sat_executeCalls hs.grown hs.ne_nil (s.history_push _)).bind fun h r hr => ?_
    exact runs_ite (fun _ => hr) fun _ => hr

theorem sat_requestFailed (cfg : Config) (hs : Sound ctx h s) (t : Turn) (e : AgentError) :
    Runs ctx (requestFailed cfg s t e) (Flows ctx) h := by
  cases e with
  | unsupportedImageInput detail =>
    refine runs_ite (fun _ => hs) fun _ => ⟨hs.grown.imagesDropped, ?_⟩
    exact fun heq => hs.ne_nil (List.map_eq_nil_iff.mp heq)
  | llmContextExceeded e =>
    refine (sat_recoverLoop cfg _ _ hs _).bind fun h r hr => ?_
    obtain ⟨outcome, s', attempts⟩ := r
    cases outcome with
    | recovered | cancelled | exhausted => exact ⟨hr.grown, hr.ne_nil⟩
  | _ => exact hs

theorem sat_request (hs : Sound ctx h s) (t : Turn) :
    Runs ctx (request ctx s t) (Flows ctx) h := by
  refine runs_call (fun _ _ => nofun) fun (tools : List (List Char)) => ?_
  have htools := hs.quiet (c := .tools) trivial tools
  refine ⟨⟨htools.grown, htools.ne_nil⟩, fun answer _ => ?_⟩
  rcases answer with _ | e | response
  · exact htools.quiet (c := .complete _ _) trivial _
  · exact sat_requestFailed _ (htools.quiet (c := .complete _ _) trivial _) _ e
  · have hquiet := htools.quiet (c := .complete s.history
      (if ctx.hasSkills then tools ++ [loadSkillTool] else tools)) trivial (some (.ok response))
    refine sat_respond (s := s.measure response) ⟨?_, ?_⟩ _
    · rw [Session.history_measure]
      exact hquiet.grown
    · rw [Session.history_measure]
      exact hquiet.ne_nil

theorem truncateHistory_ne_nil {history : List HistoryItem} (hne : history ≠ []) (maxBytes : ℕ) :
    truncateHistory history maxBytes ≠ [] := by
  rcases truncateHistory_cases history maxBytes with
    heq | ⟨dropped, text, rest, -, heq⟩ <;> rw [heq]
  · exact hne
  · exact List.cons_ne_nil _ _

theorem sat_truncated (hs : Sound ctx h s) :
    Runs ctx (truncated ctx.cfg s) (fun h r => Sound ctx h r) h := by
  refine runs_ite (fun _ => ?_) fun hlen => ?_
  · exact runs_call (fun _ _ => nofun) fun _ =>
      ⟨hs.grown.truncated _ _, truncateHistory_ne_nil hs.ne_nil _⟩
  · have hsame : truncateHistory s.history ctx.cfg.maxHistoryBytes = s.history := by
      rcases truncateHistory_cases s.history ctx.cfg.maxHistoryBytes with
        heq | ⟨dropped, text, rest, hsplit, heq⟩
      · exact heq
      · rw [heq, hsplit] at hlen
        obtain rfl : dropped = [] := by
          rw [List.length_append] at hlen
          exact List.eq_nil_of_length_eq_zero (by omega)
        rw [heq, hsplit]
        rfl
    refine ⟨?_, ?_⟩
    · exact hsame.symm ▸ hs.grown
    · exact hsame.symm ▸ hs.ne_nil

theorem sat_round (hs : Sound ctx h s) (t : Turn) : Runs ctx (round ctx s t) (Flows ctx) h := by
  refine runs_ite (fun _ => hs) fun _ => ?_
  refine runs_call (fun _ _ => nofun) fun (cancelled : Bool) => ?_
  have hborrow := hs.quiet (c := .cancelRequested) trivial cancelled
  refine runs_ite (fun _ => hborrow) fun _ => ?_
  refine runs_call (fun _ _ => nofun) fun (queue : List (List ContentBlock)) => ?_
  have hsteered : Sound ctx (⟨.drainSteers, queue⟩ :: ⟨.cancelRequested, cancelled⟩ :: h)
      (s.steer queue) :=
    ⟨hborrow.grown.steered queue, fun heq => hs.ne_nil (List.append_eq_nil_iff.mp heq).1⟩
  refine (sat_maybeHandoff _ hsteered _).bind fun h r hr => ?_
  obtain ⟨outcome, s', attempts⟩ := r
  cases outcome with
  | cancelled => exact hr
  | performed => exact sat_request (s := s'.forgetUsage) ⟨hr.grown, hr.ne_nil⟩ _
  | skipped => exact (sat_truncated hr).bind fun h s hs => sat_request hs _

theorem sat_rounds (fuel : ℕ) (hs : Sound ctx h s) (t : Turn) :
    Runs ctx (rounds ctx fuel s t) (fun h r => Sound ctx h r.2) h := by
  induction fuel generalizing h s t with
  | zero => trivial
  | succ fuel ih =>
    refine (sat_round hs t).bind fun h flow hflow => ?_
    cases flow with
    | again s t => exact ih hflow t
    | finish result s => exact hflow

/-- A run grows the history. -/
theorem sat_run {prompt : List ContentBlock} (hg : Grown ctx h s.history) (fuel : ℕ) :
    Runs ctx (run ctx s prompt fuel) (fun h r => Grown ctx h r.2.history)
      (⟨.nextPrompt, prompt⟩ :: h) := by
  have hprompted := hg.prompted prompt
  rw [run]
  rcases hprompt : acceptPrompt prompt with e | userText
  · rw [hprompt] at hprompted
    have hsame : Grown ctx (⟨.nextPrompt, prompt⟩ :: h) s.history := by
      simpa [Except.toOption] using hprompted
    exact hsame
  · rw [hprompt] at hprompted
    refine Sat.mono (sat_rounds fuel (s := s.prompt userText) ⟨hprompted, by simp [Session.prompt]⟩
      .new) fun h result hresult => ?_
    cases result with
    | ok r => exact hresult.grown
    | error e => exact e.elim

theorem sat_converse (fuel : ℕ) (hg : Grown ctx h s.history) :
    Runs ctx (converse ctx fuel s) (fun _ _ => True) h := by
  induction fuel generalizing h s with
  | zero => trivial
  | succ fuel ih =>
    refine runs_call (fun _ _ => nofun) fun (prompt : List ContentBlock) => ?_
    exact (sat_run hg fuel).bind fun h r hr => ih hr

end Sat

/-- Every history that a session passes to the provider has grown. -/
theorem grown_of_ran {ctx : Ctx} {fuel : ℕ} {h : Trace} {history : List HistoryItem}
    {tools : List (List Char)}
    {next : Option (Except AgentError LlmResponse) → Running PUnit}
    (hran : Ran (converse ctx fuel .new) h (.call (.complete history tools) next)) :
    Grown ctx h history ∧ history ≠ [] := by
  have hany : ∀ h : Trace, Assumed Any h := by
    intro h
    induction h with
    | nil => trivial
    | cons e h ih => exact ⟨ih, trivial⟩
  exact ((sat_converse fuel .new).ran hran (hany h)).1

end Buzz.Agent
