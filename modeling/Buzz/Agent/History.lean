import Buzz.Library.FixedWidth
import Buzz.Library.Json
import Buzz.Library.Text

/-!
# The history of an agent session

The items of a history (`types.rs`) and the functions of `agent.rs` that change a history without
an await: results of tools, the removal of images that the model cannot read, the output of hooks
as synthetic tool calls, and the truncation to a number of bytes.

Texts are lists of characters, measured in UTF-8 bytes (`len`). Sizes are natural numbers.

## Main definitions

* `HistoryItem`, `ToolCall`, `ToolResult`, with `estimatedBytes` and `contextPressureBytes`.
* `promptToText`, `syntheticToolResult`, `replaceUnsupportedImages`,
  `hookPair`, `truncateHistory`.

## Main results

* `truncateHistory_cases`: what is left starts with a user item, or is everything.
-/

namespace Buzz.Agent

open Library

/-- The bytes of a text: `str::len`. -/
def len (text : List Char) : ℕ := (utf8 text).length

theorem len_toList (text : String) : len text.toList = text.utf8ByteSize := by
  have hbytes : (utf8 text.toList).toByteArray = text.toByteArray := String.utf8Encode_toList
  rw [len, ← List.size_toByteArray, hbytes, String.size_toByteArray]

/-- Nothing but white space: `text.trim().is_empty()`. -/
def isBlank (text : List Char) : Bool := text.all isWhitespace

inductive ContentBlock where
  | text (text : List Char)
  | resourceLink (uri : List Char)
  | unsupported

structure ToolCall where
  providerId : List Char
  name : List Char
  arguments : Json
  providerExtra : List (List Char × Json)

inductive ToolResultContent where
  | text (s : List Char)
  | image (data mimeType : List Char)

structure ToolResult where
  providerId : List Char
  content : List ToolResultContent
  isError : Bool

inductive HistoryItem where
  | user (s : List Char)
  | assistant (text : List Char) (toolCalls : List ToolCall) (reasoningDetails : Option Json)
  | toolResult (result : ToolResult)

inductive AgentError where
  | invalidParams (s : List Char)
  | llm (s : List Char)
  | llmAuth (s : List Char)
  | llmModelNotFound (s : List Char)
  | llmContextExceeded (s : List Char)
  | unsupportedImageInput (s : List Char)
  | mcp (s : List Char)
  | cancelled

def AgentError.display : AgentError → List Char
  | invalidParams s => "invalid params: ".toList ++ s
  | llm s => "llm: ".toList ++ s
  | llmAuth s => "llm auth: ".toList ++ s
  | llmModelNotFound s => "llm model not found: ".toList ++ s
  | llmContextExceeded s => "llm context exceeded: ".toList ++ s
  | unsupportedImageInput s => "llm image input unsupported: ".toList ++ s
  | mcp s => "mcp: ".toList ++ s
  | cancelled => "cancelled".toList

/-! ### Sizes -/

/-- `IMAGE_CONTEXT_TOKEN_EQUIV`. -/
def imageContextTokenEquiv : ℕ := 16 * 1024

namespace ToolResultContent

/-- The bytes on the wire. -/
def estimatedBytes : ToolResultContent → ℕ
  | text s => len s
  | image data mimeType => len data + len mimeType

/-- The bytes that weigh on the context window: an image counts as its visual tokens. -/
def contextPressureBytes : ToolResultContent → ℕ
  | text s => len s
  | image _ mimeType => imageContextTokenEquiv + len mimeType

def asTextLossy : ToolResultContent → List Char
  | text s => s
  | image data mimeType =>
    "[image: ".toList ++ mimeType ++ ", ".toList ++ Nat.toDigits 10 (len data) ++
      " base64 bytes]".toList

def isImage : ToolResultContent → Bool
  | text _ => false
  | image .. => true

end ToolResultContent

def ToolResult.text (r : ToolResult) : List Char :=
  ['\n'].intercalate (r.content.map ToolResultContent.asTextLossy)

def ToolCall.bytes (c : ToolCall) : ℕ :=
  len c.providerId + len c.name + len c.arguments.render + len (Json.obj c.providerExtra).render

namespace HistoryItem

def sizeWith (contentSize : ToolResultContent → ℕ) : HistoryItem → ℕ
  | user s => len s
  | assistant text toolCalls reasoningDetails =>
    len text + (toolCalls.map ToolCall.bytes).sum +
      (reasoningDetails.map fun v => len v.render).getD 0
  | toolResult r => len r.providerId + (r.content.map contentSize).sum

def estimatedBytes : HistoryItem → ℕ := sizeWith ToolResultContent.estimatedBytes

def contextPressureBytes : HistoryItem → ℕ := sizeWith ToolResultContent.contextPressureBytes

def isUser : HistoryItem → Bool
  | user _ => true
  | _ => false

end HistoryItem

def historyBytes (history : List HistoryItem) : ℕ := (history.map HistoryItem.estimatedBytes).sum

def pressureBytes (history : List HistoryItem) : ℕ :=
  (history.map HistoryItem.contextPressureBytes).sum

/-! ### Prompts -/

/-- `MAX_PROMPT_BYTES`. -/
def maxPromptBytes : ℕ := 1024 * 1024

def ContentBlock.render : ContentBlock → Except AgentError (List Char)
  | text s => .ok s
  | resourceLink uri => .ok ("[resource: ".toList ++ uri ++ "]".toList)
  | unsupported => .error (.invalidParams
      ("prompt: unsupported content block (only text and resource_link are advertised)".toList))

def promptToText (prompt : List ContentBlock) : Except AgentError (List Char) :=
  (prompt.mapM ContentBlock.render).map fun parts => ['\n'].intercalate parts

/-- The user text of a prompt that `run` takes on. -/
def acceptPrompt (prompt : List ContentBlock) : Except AgentError (List Char) :=
  match promptToText prompt with
  | .error e => .error e
  | .ok userText =>
    if maxPromptBytes < len userText then
      .error (.invalidParams ("prompt: exceeds ".toList ++ Nat.toDigits 10 maxPromptBytes ++
        " bytes".toList))
    else .ok userText

/-- The text of a steer that is not dropped: it can be rendered and is not blank. -/
def steerText (blocks : List ContentBlock) : Option (List Char) :=
  match promptToText blocks with
  | .ok text => if isBlank text then none else some text
  | .error _ => none

/-! ### Results of tools -/

/-- `ERROR_REFLECTION_SUFFIX`. -/
def errorReflectionSuffix : List Char :=
  ("\n\n[Reflect] Before retrying, identify the cause and change your approach.").toList

/-- `UNSUPPORTED_IMAGE_TOOL_MESSAGE`. -/
def unsupportedImageToolMessage : List Char :=
  ("The current model does not support image input. The image was removed from conversation " ++
    "history so this turn can continue. Use a text-based inspection tool or ask the user for a " ++
    "textual description instead.").toList

def syntheticToolResult (call : ToolCall) (msg : List Char) : ToolResult :=
  ⟨call.providerId, [.text msg], true⟩

/-- A result as it is recorded: an error asks the model to reflect. -/
def recorded (result : ToolResult) : ToolResult :=
  if result.isError then
    { result with content := result.content ++ [.text errorReflectionSuffix] }
  else result

/-- The body of the loop of `append_results`. -/
def recordedResult (call : ToolCall) (result : Option ToolResult) : ToolResult :=
  recorded (result.getD
    ⟨call.providerId, [.text "internal error: missing result".toList], true⟩)

/-- `append_results`. -/
def appendResults (history : List HistoryItem) (calls : List ToolCall)
    (results : List (Option ToolResult)) : List HistoryItem :=
  history ++ (List.zipWith recordedResult calls results).map .toolResult

/-- Drop the images of a result, and say so. -/
def ToolResult.dropImages (r : ToolResult) : ToolResult :=
  if r.content.any ToolResultContent.isImage then
    { r with
      content := (r.content.filter fun c => !c.isImage) ++ [.text unsupportedImageToolMessage]
      isError := true }
  else r

def HistoryItem.dropImages : HistoryItem → HistoryItem
  | toolResult r => toolResult r.dropImages
  | item => item

/-- The images that an item holds. -/
def HistoryItem.images : HistoryItem → ℕ
  | toolResult r => r.content.countP ToolResultContent.isImage
  | _ => 0

/-- Remove the images that the provider has rejected; the number of images removed. -/
def replaceUnsupportedImages (history : List HistoryItem) : List HistoryItem × ℕ :=
  (history.map HistoryItem.dropImages, (history.map HistoryItem.images).sum)

/-! ### Hooks -/

def formatHookOutputBody (hook server text : List Char) : List Char :=
  (Json.obj [("hook".toList, .str hook), ("server".toList, .str server),
    ("text".toList, .str text)]).render

def syntheticHookId (hook server : List Char) (ordinal : ℕ) : List Char :=
  "buzz_hook_".toList ++ hook ++ "_".toList ++ server ++ "_".toList ++ Nat.toDigits 10 ordinal

/-- The synthetic call that a hook output answers. -/
def hookCall (hook server : List Char) (ordinal : ℕ) : ToolCall where
  providerId := syntheticHookId hook server ordinal
  name := server ++ "__".toList ++ hook
  arguments := .obj []
  providerExtra := []

def hookResult (hook server text : List Char) (ordinal : ℕ) : ToolResult :=
  ⟨syntheticHookId hook server ordinal, [.text (formatHookOutputBody hook server text)], false⟩

/-- What `push_hook_outputs_as_tool_results` appends for one output. -/
def hookPair (hook server text : List Char) (ordinal : ℕ) : List HistoryItem :=
  [.assistant [] [hookCall hook server ordinal] none,
    .toolResult (hookResult hook server text ordinal)]

/-! ### Truncation -/

/-- The bytes of the oldest turn, up to the next user item, and what follows it, if there is a next
turn. -/
def dropOldestTurn : List HistoryItem → Option (ℕ × List HistoryItem)
  | [] => none
  | item :: rest =>
    match rest.dropWhile fun i => !i.isUser with
    | [] => none
    | next :: later =>
      some (historyBytes (item :: rest.takeWhile fun i => !i.isUser), next :: later)

/-- The loop of `truncate_history`. The fuel is the number of items. -/
def truncateFrom (maxBytes : ℕ) : ℕ → ℕ → List HistoryItem → List HistoryItem
  | 0, _, history => history
  | fuel + 1, total, history =>
    if total ≤ maxBytes then history
    else
      match dropOldestTurn history with
      | none => history
      | some (dropped, rest) => truncateFrom maxBytes fuel (total - dropped) rest

def truncateHistory (history : List HistoryItem) (maxBytes : ℕ) : List HistoryItem :=
  truncateFrom maxBytes history.length (historyBytes history) history

theorem dropOldestTurn_eq_some {history rest : List HistoryItem} {dropped : ℕ}
    (h : dropOldestTurn history = some (dropped, rest)) :
    ∃ turn s later, history = turn ++ rest ∧ rest = .user s :: later := by
  rcases history with _ | ⟨item, items⟩
  · cases h
  · simp only [dropOldestTurn] at h
    rcases hnext : items.dropWhile fun i => !i.isUser with _ | ⟨next, later⟩
    · rw [hnext] at h
      cases h
    · rw [hnext] at h
      obtain ⟨-, rfl⟩ := Prod.mk.inj (Option.some.inj h)
      have huser : next.isUser = true := by
        have hhead := List.head?_dropWhile_not (fun i => !HistoryItem.isUser i) items
        rw [hnext] at hhead
        simpa using hhead
      have hsplit := List.takeWhile_append_dropWhile
        (p := fun i => !HistoryItem.isUser i) (l := items)
      rw [hnext] at hsplit
      obtain ⟨s, rfl⟩ : ∃ s, next = .user s := by
        cases next with
        | user s => exact ⟨s, rfl⟩
        | _ => cases huser
      exact ⟨item :: items.takeWhile fun i => !i.isUser, s, later,
        by rw [List.cons_append, hsplit], rfl⟩

theorem truncateFrom_cases (maxBytes fuel total : ℕ) (history : List HistoryItem) :
    truncateFrom maxBytes fuel total history = history ∨
      ∃ dropped s rest, history = dropped ++ .user s :: rest ∧
        truncateFrom maxBytes fuel total history = .user s :: rest := by
  induction fuel generalizing total history with
  | zero => exact .inl rfl
  | succ fuel ih =>
    simp only [truncateFrom]
    split_ifs with hle
    · exact .inl rfl
    · rcases hturn : dropOldestTurn history with _ | ⟨dropped, rest⟩
      · exact .inl rfl
      · obtain ⟨turn, s, later, rfl, rfl⟩ := dropOldestTurn_eq_some hturn
        refine .inr ?_
        rcases ih (total - dropped) (.user s :: later) with heq | ⟨more, s', rest', heq, htruncated⟩
        · exact ⟨turn, s, later, rfl, heq⟩
        · exact ⟨turn ++ more, s', rest', by rw [List.append_assoc, ← heq], htruncated⟩

/-- What is left of a history starts with a user item, or is everything. -/
theorem truncateHistory_cases (history : List HistoryItem) (maxBytes : ℕ) :
    truncateHistory history maxBytes = history ∨
      ∃ dropped s rest, history = dropped ++ .user s :: rest ∧
        truncateHistory history maxBytes = .user s :: rest :=
  truncateFrom_cases maxBytes _ _ history

end Buzz.Agent
