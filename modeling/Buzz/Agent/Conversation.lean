import Buzz.Agent.Growth

/-!
# The history is a conversation

A history that has grown is made of user items and of groups: an assistant item, followed by one
result for each of its calls. It is cut at user items only, so no group is ever torn apart.

## Main definitions

* `Answered`: user items and groups.
* `Accounted`: the results of a group come from what has happened.
* `Conversation`: what a provider expects of a history.

## Main results

* `Grown.answered`: a history that has grown is made of groups that are accounted for.
* `conversation_of_ran`: every history that is passed to the provider is a conversation.
-/

namespace Buzz.Agent

open Library Interaction

/-! ### Groups -/

/-- User items and groups: an assistant item with calls, and a result for each of them. -/
inductive Answered (P : List ToolCall → List ToolResult → Prop) : List HistoryItem → Prop
  | nil : Answered P []
  | user (text : List Char) {rest : List HistoryItem} (hrest : Answered P rest) :
      Answered P (.user text :: rest)
  | group (text : List Char) (details : Option Json) {calls : List ToolCall}
      {results : List ToolResult} {rest : List HistoryItem}
      (hids : results.map ToolResult.providerId = calls.map ToolCall.providerId)
      (hgroup : P calls results) (hrest : Answered P rest) :
      Answered P (.assistant text calls details :: (results.map .toolResult ++ rest))

/-- An item of a group and what follows it: it is one of the results, or comes after them. -/
theorem split_group {results : List ToolResult} {rest before after : List HistoryItem}
    {item : HistoryItem} (h : results.map .toolResult ++ rest = before ++ item :: after) :
    (∃ more, before = results.map .toolResult ++ more ∧ rest = more ++ item :: after) ∨
      ∃ earlier r later, results = earlier ++ r :: later ∧ before = earlier.map .toolResult ∧
        item = .toolResult r := by
  induction results generalizing before with
  | nil => exact .inl ⟨before, rfl, h⟩
  | cons r results ih =>
    rcases before with _ | ⟨first, before⟩
    · obtain ⟨hitem, -⟩ := List.cons.inj h
      exact .inr ⟨[], r, results, rfl, rfl, hitem.symm⟩
    · obtain ⟨rfl, htail⟩ := List.cons.inj h
      rcases ih htail with ⟨more, rfl, hrest⟩ | ⟨earlier, r', later, rfl, rfl, hitem⟩
      · exact .inl ⟨more, rfl, hrest⟩
      · exact .inr ⟨r :: earlier, r', later, rfl, rfl, hitem⟩

namespace Answered

variable {P Q : List ToolCall → List ToolResult → Prop}
  {history history' before after : List HistoryItem}

theorem imp (h : Answered P history) (hP : ∀ calls results, P calls results → Q calls results) :
    Answered Q history := by
  induction h with
  | nil => exact .nil
  | user text _ ih => exact .user text ih
  | group text details hids hgroup _ ih => exact .group text details hids (hP _ _ hgroup) ih

theorem append (h : Answered P history) (h' : Answered P history') :
    Answered P (history ++ history') := by
  induction h with
  | nil => exact h'
  | user text _ ih => exact .user text ih
  | group text details hids hgroup _ ih =>
    rw [List.cons_append, List.append_assoc]
    exact .group text details hids hgroup ih

theorem users (texts : List (List Char)) : Answered P (texts.map .user) := by
  induction texts with
  | nil => exact .nil
  | cons text texts ih => exact .user text ih

/-- A single group. -/
theorem single (text : List Char) (details : Option Json) {calls : List ToolCall}
    {results : List ToolResult}
    (hids : results.map ToolResult.providerId = calls.map ToolCall.providerId)
    (hgroup : P calls results) :
    Answered P (.assistant text calls details :: results.map .toolResult) := by
  have hsingle : Answered P (.assistant text calls details :: (results.map .toolResult ++ [])) :=
    .group text details hids hgroup .nil
  rwa [List.append_nil] at hsingle

theorem dropImages (h : Answered P history)
    (hP : ∀ calls results, P calls results → Q calls (results.map ToolResult.dropImages)) :
    Answered Q (history.map HistoryItem.dropImages) := by
  induction h with
  | nil => exact .nil
  | user text _ ih => exact .user text ih
  | @group text details calls results rest hids hgroup _ ih =>
    have hresults : (results.map HistoryItem.toolResult).map HistoryItem.dropImages =
        (results.map ToolResult.dropImages).map .toolResult := by
      rw [List.map_map, List.map_map]
      rfl
    have hsame : (results.map ToolResult.dropImages).map ToolResult.providerId =
        results.map ToolResult.providerId := by
      rw [List.map_map]
      refine List.map_congr_left fun r _ => ?_
      rw [Function.comp_apply, ToolResult.dropImages]
      split_ifs <;> rfl
    rw [List.map_cons, List.map_append, hresults]
    exact .group text details (hsame.trans hids) (hP _ _ hgroup) ih

/-- What is left when the history is cut at a user item. -/
theorem of_user {text : List Char} (h : Answered P history)
    (hsplit : history = before ++ .user text :: after) : Answered P (.user text :: after) := by
  induction h generalizing before with
  | nil => simp at hsplit
  | @user first rest hrest ih =>
    rcases before with _ | ⟨_, before⟩
    · rw [List.nil_append] at hsplit
      exact hsplit ▸ .user first hrest
    · exact ih (List.cons.inj hsplit).2
  | group _ _ _ _ _ ih =>
    rcases before with _ | ⟨_, before⟩
    · simp at hsplit
    · rcases split_group (List.cons.inj hsplit).2 with ⟨more, -, hrest⟩ | ⟨_, _, _, -, -, hitem⟩
      · exact ih hrest
      · cases hitem

/-- No group starts with a result. -/
theorem ne_toolResult (h : Answered P history) (r : ToolResult) (later : List HistoryItem) :
    history ≠ .toolResult r :: later := by
  rintro rfl
  cases h

/-- The results of an assistant item follow it. -/
theorem answers {text : List Char} {calls : List ToolCall} {details : Option Json}
    (h : Answered P history) (hsplit : history = before ++ .assistant text calls details :: after) :
    ∃ results rest, after = results.map .toolResult ++ rest ∧
      (∀ r later, rest ≠ .toolResult r :: later) ∧
      results.map ToolResult.providerId = calls.map ToolCall.providerId ∧ P calls results := by
  induction h generalizing before with
  | nil => simp at hsplit
  | user _ _ ih =>
    rcases before with _ | ⟨_, before⟩
    · simp at hsplit
    · exact ih (List.cons.inj hsplit).2
  | @group _ _ calls' results rest hids hgroup hrest ih =>
    rcases before with _ | ⟨_, before⟩
    · obtain ⟨hitem, rfl⟩ := List.cons.inj hsplit
      obtain ⟨-, rfl, -⟩ := HistoryItem.assistant.inj hitem
      exact ⟨results, rest, rfl, hrest.ne_toolResult, hids, hgroup⟩
    · rcases split_group (List.cons.inj hsplit).2 with ⟨more, -, heq⟩ | ⟨_, _, _, -, -, hitem⟩
      · exact ih heq
      · cases hitem

/-- A result is one of those of an assistant item. -/
theorem belongs {r : ToolResult} (h : Answered P history)
    (hsplit : history = before ++ .toolResult r :: after) :
    ∃ start text calls details, ∃ earlier : List ToolResult,
      before = start ++ .assistant text calls details :: earlier.map .toolResult ∧
        earlier.length < calls.length := by
  induction h generalizing before with
  | nil => simp at hsplit
  | @user first _ _ ih =>
    rcases before with _ | ⟨_, before⟩
    · simp at hsplit
    · obtain ⟨rfl, htail⟩ := List.cons.inj hsplit
      obtain ⟨start, text, calls, details, earlier, rfl, hlt⟩ := ih htail
      exact ⟨.user first :: start, text, calls, details, earlier, rfl, hlt⟩
  | @group first details' calls' results rest hids _ _ ih =>
    rcases before with _ | ⟨_, before⟩
    · simp at hsplit
    · obtain ⟨rfl, htail⟩ := List.cons.inj hsplit
      rcases split_group htail with ⟨more, rfl, hrest⟩ | ⟨earlier, r', later, rfl, rfl, -⟩
      · obtain ⟨start, text, calls, details, earlier, rfl, hlt⟩ := ih hrest
        exact ⟨.assistant first calls' details' :: (results.map .toolResult ++ start), text, calls,
          details, earlier, by simp, hlt⟩
      · have hlen := congrArg List.length hids
        simp only [List.length_map, List.length_append, List.length_cons] at hlen
        exact ⟨[], first, calls', details', earlier, rfl, by omega⟩

end Answered

/-! ### Where results come from -/

/-- A result, as it stands in the history, of a call at a position of its group: the outcome of the
call, as it is recorded, from which images may have been removed. -/
def Attributed (cfg : Config) (es : Trace) (idx : ℕ) (call : ToolCall) (result : ToolResult) :
    Prop :=
  ∃ outcome, OutcomeOf cfg es idx call outcome ∧
    (result = recorded outcome ∨ result = (recorded outcome).dropImages)

/-- The results of a group of calls come from what has happened. -/
inductive Accounted (cfg : Config) (h : Trace) : List ToolCall → List ToolResult → Prop
  | spoken : Accounted cfg h [] []
  /-- The calls are those of a response, executed right after it. -/
  | executed {es h₀ : Trace} {sent : List HistoryItem} {tools : List (List Char)}
      {response : LlmResponse} {results : List ToolResult}
      (hh : es ++ ⟨.complete sent tools, some (.ok response)⟩ :: h₀ <:+ h)
      (hes : ∀ e ∈ es, e.1.executes)
      (hresults : ∀ idx call result,
        (response.toolCalls.take maxToolCallsPerTurn)[idx]? = some call →
          results[idx]? = some result → Attributed cfg es idx call result) :
      Accounted cfg h (response.toolCalls.take maxToolCallsPerTurn) results
  /-- The call is synthetic, for an objection. -/
  | hooked {server text : List Char} {ordinal : ℕ} (hobjected : Objected h (server, text)) :
      Accounted cfg h [hookCall stopHook server ordinal] [hookResult stopHook server text ordinal]

theorem ToolResult.dropImages_dropImages (r : ToolResult) :
    r.dropImages.dropImages = r.dropImages := by
  by_cases hany : r.content.any ToolResultContent.isImage
  · have hnone : r.dropImages.content.any ToolResultContent.isImage = false := by
      rw [dropImages, if_pos hany]
      simp [ToolResultContent.isImage]
    rw [dropImages, hnone]
    rfl
  · have hsame : r.dropImages = r := if_neg hany
    rw [hsame, hsame]

section Accounted

variable {cfg : Config} {h h' : Trace} {calls : List ToolCall} {results : List ToolResult}

theorem Objected.mono {objection : List Char × List Char} (hobjected : Objected h objection)
    (hh : h <:+ h') : Objected h' objection := by
  rcases hobjected with ⟨outputs, hevent, hmem⟩ | hguard
  · exact .inl ⟨outputs, hh.subset hevent, hmem⟩
  · exact .inr hguard

theorem Accounted.mono (ha : Accounted cfg h calls results) (hh : h <:+ h') :
    Accounted cfg h' calls results := by
  cases ha with
  | spoken => exact .spoken
  | executed hsuffix hes hresults => exact .executed (hsuffix.trans hh) hes hresults
  | hooked hobjected => exact .hooked (hobjected.mono hh)

theorem Accounted.dropImages (ha : Accounted cfg h calls results) :
    Accounted cfg h calls (results.map ToolResult.dropImages) := by
  cases ha with
  | spoken => exact .spoken
  | executed hsuffix hes hresults =>
    refine .executed hsuffix hes fun idx call result hcall hresult => ?_
    rw [List.getElem?_map, Option.map_eq_some_iff] at hresult
    obtain ⟨r, hr, rfl⟩ := hresult
    obtain ⟨outcome, hof, rfl | rfl⟩ := hresults idx call r hcall hr
    · exact ⟨outcome, hof, .inr rfl⟩
    · exact ⟨outcome, hof, .inr (ToolResult.dropImages_dropImages _)⟩
  | hooked hobjected => exact .hooked hobjected

theorem Outcomes.providerIds {es : Trace} {outcomes : List ToolResult}
    (hout : Outcomes cfg es calls outcomes) :
    (outcomes.map recorded).map ToolResult.providerId = calls.map ToolCall.providerId := by
  refine List.ext_getElem (by simp [hout.length]) fun i hi hi' => ?_
  have hlt : i < outcomes.length := by simpa using hi
  have hltc : i < calls.length := by simpa using hi'
  have hof := hout.outcome i calls[i] outcomes[i] (List.getElem?_eq_getElem hltc)
    (List.getElem?_eq_getElem hlt)
  have hrecorded : (recorded outcomes[i]).providerId = outcomes[i].providerId := by
    rw [recorded]
    split_ifs <;> rfl
  simp only [List.getElem_map]
  exact hrecorded.trans hof.providerId

end Accounted

/-! ### Growth by groups -/

section Grown

variable {ctx : Ctx} {h : Trace} {history : List HistoryItem}

/-- A history that has grown is made of groups, whose results come from what has happened. -/
theorem Grown.answered (hg : Grown ctx h history) : Answered (Accounted ctx.cfg h) history := by
  have hlater : ∀ {h : Trace} {history : List HistoryItem} (e : Event Answer),
      Answered (Accounted ctx.cfg h) history → Answered (Accounted ctx.cfg (e :: h)) history :=
    fun e ha => ha.imp fun _ _ hacc => hacc.mono (List.suffix_cons e _)
  induction hg with
  | new => exact .nil
  | quiet _ _ _ ih => exact hlater _ ih
  | prompted _ prompt ih => exact (hlater _ ih).append (.users _)
  | steered _ queue ih => exact (hlater _ ih).append (.users _)
  | handedOff _ _ _ _ => exact .user _ (.users _)
  | @truncated h history _ _ _ ih =>
    rcases truncateHistory_cases history ctx.cfg.maxHistoryBytes with
      heq | ⟨dropped, text, rest, hsplit, heq⟩ <;> rw [heq]
    · exact hlater _ ih
    · exact (hlater _ ih).of_user hsplit
  | imagesDropped _ ih => exact ih.dropImages fun _ _ hacc => hacc.dropImages
  | replied _ _ text details ih =>
    exact ih.append (@Answered.single _ text details [] [] rfl .spoken)
  | recovering _ ih => exact ih.append (.user _ .nil)
  | executed _ hes _ hout ih =>
    refine ih.append (.single _ _ hout.providerIds ?_)
    refine .executed (List.suffix_refl _) hes fun idx call result hcall hresult => ?_
    rw [List.getElem?_map, Option.map_eq_some_iff] at hresult
    obtain ⟨outcome, houtcome, rfl⟩ := hresult
    exact ⟨outcome, hout.outcome idx call outcome hcall houtcome, .inl rfl⟩
  | @hooked _ _ _ _ server text ordinal hobjected ih =>
    exact ih.append (@Answered.single _ [] none [hookCall stopHook server ordinal]
      [hookResult stopHook server text ordinal] rfl (.hooked hobjected))

/-- The first item of a history that has grown is a user item. -/
theorem Grown.starts (hg : Grown ctx h history) {item : HistoryItem}
    (hitem : history.head? = some item) : item.isUser = true := by
  have hkept : ∀ {history : List HistoryItem} (more : List HistoryItem), history ≠ [] →
      (history ++ more).head? = history.head? := by
    intro history more hne
    rw [List.head?_append_of_ne_nil _ hne]
  have husers : ∀ {history : List HistoryItem} (texts : List (List Char)) {item : HistoryItem},
      (∀ item, history.head? = some item → item.isUser = true) →
        (history ++ texts.map HistoryItem.user).head? = some item → item.isUser = true := by
    intro history texts item ih hhead
    rcases history with _ | ⟨first, history⟩
    · cases texts with
      | nil => cases hhead
      | cons text texts =>
        obtain rfl := Option.some.inj hhead
        rfl
    · exact ih item hhead
  induction hg generalizing item with
  | new => cases hitem
  | quiet _ _ _ ih => exact ih hitem
  | prompted _ _ ih => exact husers _ (fun _ => ih) hitem
  | steered _ _ ih => exact husers _ (fun _ => ih) hitem
  | handedOff _ _ _ _ =>
    obtain rfl := Option.some.inj hitem
    rfl
  | @truncated h history _ _ _ ih =>
    rcases truncateHistory_cases history ctx.cfg.maxHistoryBytes with
      heq | ⟨dropped, text, rest, hsplit, heq⟩ <;> rw [heq] at hitem
    · exact ih hitem
    · obtain rfl := Option.some.inj hitem
      rfl
  | imagesDropped _ ih =>
    rw [List.head?_map, Option.map_eq_some_iff] at hitem
    obtain ⟨first, hfirst, rfl⟩ := hitem
    have huser := ih hfirst
    cases first with
    | user text => rfl
    | _ => cases huser
  | recovering _ ih => exact husers [maxTokensRecoveryMessage] (fun _ => ih) hitem
  | replied _ hne _ _ ih => exact ih (hkept _ hne ▸ hitem)
  | executed _ _ hne _ ih => exact ih (hkept _ hne ▸ hitem)
  | hooked _ hne _ ih => exact ih (hkept _ hne ▸ hitem)

end Grown

/-! ### Conversations -/

/-- What a provider expects of a history: it starts with a user item, each assistant item is
followed by the results of its calls, in order and no more, and there are no other results. Each
result comes from what has happened. -/
structure Conversation (cfg : Config) (h : Trace) (history : List HistoryItem) : Prop where
  starts : ∃ text rest, history = .user text :: rest
  answered : ∀ before text calls details after,
    history = before ++ .assistant text calls details :: after →
      ∃ results rest, after = results.map .toolResult ++ rest ∧
        (∀ r later, rest ≠ .toolResult r :: later) ∧
        results.map ToolResult.providerId = calls.map ToolCall.providerId ∧
        Accounted cfg h calls results
  belongs : ∀ before r after, history = before ++ .toolResult r :: after →
    ∃ start text calls details, ∃ earlier : List ToolResult,
      before = start ++ .assistant text calls details :: earlier.map .toolResult ∧
        earlier.length < calls.length

/-- Every history that a session passes to the provider is a conversation, whatever the provider,
the tools, the hooks and the user do, and whenever the run is cancelled. -/
theorem conversation_of_ran {ctx : Ctx} {fuel : ℕ} {h : Trace} {history : List HistoryItem}
    {tools : List (List Char)} {next : Option (Except AgentError LlmResponse) → Running PUnit}
    (hran : Ran (converse ctx fuel .new) h (.call (.complete history tools) next)) :
    Conversation ctx.cfg h history := by
  obtain ⟨hg, hne⟩ := grown_of_ran hran
  refine ⟨?_, fun _ _ _ _ _ => hg.answered.answers, fun _ _ _ => hg.answered.belongs⟩
  obtain ⟨item, rest, rfl⟩ := List.exists_cons_of_ne_nil hne
  have huser := hg.starts (List.head?_cons)
  cases item with
  | user text => exact ⟨text, rest, rfl⟩
  | _ => cases huser

/-! ### A sample session -/

/-- The defaults. -/
def sampleCtx : Ctx where
  cfg :=
    { provider := .anthropic
      maxRounds := 0
      maxTokenRecoveries := 3
      toolTimeoutSecs := 660
      maxHistoryBytes := 16 * 1024 * 1024
      maxContextTokens := 200000
      maxHandoffs := 10
      stopMaxRejections := 3
      requireReply := false }
  byQname := []
  hasSkills := false

/-- A call of a tool that is not registered. -/
def sampleCall : ToolCall := ⟨"call_1".toList, "shell".toList, .obj [], []⟩

def sampleResponse (inputTokens : ℕ) : LlmResponse where
  text := []
  toolCalls := [sampleCall]
  stop := .toolUse
  inputTokens := some inputTokens
  inputTokensOverflowed := false
  reasoningDetails := none

def sampleHistory : List HistoryItem :=
  [.user "fix".toList, .assistant [] [sampleCall] none,
    .toolResult (recorded (syntheticToolResult sampleCall (unknownTool sampleCall)))]

/-- The call is answered, and the model is asked again. -/
theorem conversation_sample : ∃ h next,
    Ran (converse sampleCtx 3 .new) h (.call (.complete sampleHistory []) next) ∧
      Conversation sampleCtx.cfg h sampleHistory := by
  have h : Ran (converse sampleCtx 3 .new) [] _ := .start
  have h := h.step [.text "fix".toList]
  have h := h.step false
  have h := h.step []
  have h := h.step []
  have h := h.step (some (.ok (sampleResponse 1000)))
  have h := h.step false
  have h := h.step false
  have h := h.step false
  have h := h.step false
  have h := h.step []
  have h := h.step []
  exact ⟨_, _, h, conversation_of_ran h⟩

end Buzz.Agent
