import Buzz.Agent.Conversation

/-!
# The live input

The user's words that the model has not answered yet: the prompt of the run, and the steers since
the last response. A handoff clears the history and seats one user item again, the last one. What
else is live is lost then.

## Main definitions

* `liveInput`: the prompt of the run and the steers since the last response.
* `Holds`: a user item holds a text verbatim.
* `Untruncated`, `Reseats`: no truncation, and handoffs that keep the live input.

## Main results

* `holds_handoffHistory`: what a handoff keeps.
* `live_input_held`: as long as handoffs keep the live input, it is in what the provider is passed.
* `prompt_lost`: a steer takes the place of the prompt.
-/

namespace Buzz.Agent

open Library Interaction

/-! ### Live input -/

/-- The text of the last prompt that was taken on. -/
def promptAfter (earlier : Option (List Char)) : (c : Call) → Answer c → Option (List Char)
  | .nextPrompt, prompt => (acceptPrompt prompt).toOption.or earlier
  | _, _ => earlier

/-- The prompt of the run. -/
def livePrompt : Trace → Option (List Char)
  | [] => none
  | e :: h => promptAfter (livePrompt h) e.1 e.2

/-- A response takes in the steers so far. -/
def steersAfter (earlier : List (List Char)) : (c : Call) → Answer c → List (List Char)
  | .drainSteers, queue => earlier ++ queue.filterMap steerText
  | .complete _ _, some (.ok _) => []
  | _, _ => earlier

/-- The steers that have been drained since the last response. -/
def liveSteers : Trace → List (List Char)
  | [] => []
  | e :: h => steersAfter (liveSteers h) e.1 e.2

def liveInput (h : Trace) : List (List Char) := (livePrompt h).toList ++ liveSteers h

/-- A user item holds the text verbatim. -/
def Holds (history : List HistoryItem) (text : List Char) : Prop :=
  ∃ s, .user s ∈ history ∧ text <:+: s

/-- The history is not truncated. -/
def Untruncated (_ : Trace) : (c : Call) → Answer c → Prop
  | .logTruncated _ _, _ => False
  | _, _ => True

/-- When a handoff is about to clear the history, each text that is live stands in the last user
item, or in what stands for the history. -/
def Reseats (h : Trace) : (c : Call) → Answer c → Prop
  | .callHooks _, postCompact =>
    ∀ history prompt summary h₀, h = ⟨.summarize history prompt, some (.ok summary)⟩ :: h₀ →
      ∀ text ∈ liveInput h₀, (∃ s, currentPrompt history = some s ∧ text <:+: s) ∨
        text <:+: handoffText summary postCompact
  | _, _ => True

theorem handoffText_nil (summary : List Char) :
    handoffText summary [] = "[Context Handoff]\n".toList ++ summary ++ [] := rfl

section Holds

variable {history history' : List HistoryItem} {text : List Char}

theorem Holds.append (hh : Holds history text) (more : List HistoryItem) :
    Holds (history ++ more) text := by
  obtain ⟨s, hs, hinfix⟩ := hh
  exact ⟨s, List.mem_append_left more hs, hinfix⟩

theorem holds_of_mem (hmem : .user text ∈ history) : Holds history text :=
  ⟨text, hmem, List.infix_refl text⟩

theorem Holds.dropImages (hh : Holds history text) :
    Holds (history.map HistoryItem.dropImages) text := by
  obtain ⟨s, hs, hinfix⟩ := hh
  exact ⟨s, List.mem_map.mpr ⟨.user s, hs, rfl⟩, hinfix⟩

/-- What a handoff keeps. -/
theorem holds_handoffHistory (summary : List Char) (postCompact : List (List Char × List Char)) :
    Holds (handoffHistory summary postCompact history) text ↔
      (∃ s, currentPrompt history = some s ∧ text <:+: s) ∨
        text <:+: handoffText summary postCompact := by
  rw [Holds, handoffHistory]
  constructor
  · rintro ⟨s, hs, hinfix⟩
    rcases List.mem_cons.mp hs with heq | hmem
    · obtain rfl := HistoryItem.user.inj heq
      exact .inr hinfix
    · obtain ⟨s', hs', heq⟩ := List.mem_map.mp hmem
      obtain rfl := HistoryItem.user.inj heq
      exact .inl ⟨s', Option.mem_toList.mp hs', hinfix⟩
  · rintro (⟨s, hs, hinfix⟩ | hinfix)
    · exact ⟨s, List.mem_cons_of_mem _ (List.mem_map.mpr ⟨s, Option.mem_toList.mpr hs, rfl⟩),
        hinfix⟩
    · exact ⟨_, List.mem_cons_self, hinfix⟩

end Holds

/-- A call that brings no user text adds nothing to the live input. -/
theorem liveInput_quiet {h : Trace} {c : Call} (hc : c.quiet) (a : Answer c) {text : List Char}
    (htext : text ∈ liveInput (⟨c, a⟩ :: h)) : text ∈ liveInput h := by
  cases c with
  | nextPrompt | drainSteers => exact hc.elim
  | complete sent tools =>
    rcases a with _ | _ | response
    · exact htext
    · exact htext
    · have hprompt : text ∈ (livePrompt h).toList ++ [] := htext
      rw [List.append_nil] at hprompt
      exact List.mem_append_left _ hprompt
  | _ => exact htext

theorem liveInput_prompted {h : Trace} {prompt : List ContentBlock} {text : List Char}
    (htext : text ∈ liveInput (⟨.nextPrompt, prompt⟩ :: h)) :
    (acceptPrompt prompt).toOption = some text ∨ text ∈ liveInput h := by
  rcases List.mem_append.mp htext with hprompt | hsteer
  · have hlive : (acceptPrompt prompt).toOption.or (livePrompt h) = some text :=
      Option.mem_toList.mp hprompt
    rcases Option.or_eq_some_iff.mp hlive with haccepted | ⟨-, hearlier⟩
    · exact .inl haccepted
    · exact .inr (List.mem_append_left _ (Option.mem_toList.mpr hearlier))
  · exact .inr (List.mem_append_right _ hsteer)

theorem liveInput_steered {h : Trace} {queue : List (List ContentBlock)} {text : List Char}
    (htext : text ∈ liveInput (⟨.drainSteers, queue⟩ :: h)) :
    text ∈ queue.filterMap steerText ∨ text ∈ liveInput h := by
  rcases List.mem_append.mp htext with hprompt | hsteer
  · exact .inr (List.mem_append_left _ hprompt)
  · rcases List.mem_append.mp hsteer with hearlier | hdrained
    · exact .inr (List.mem_append_right _ hearlier)
    · exact .inl hdrained

/-! ### Runs -/

/-- A history that has grown without truncations, by handoffs that keep the live input, holds it. -/
theorem Grown.holds {ctx : Ctx} {h : Trace} {history : List HistoryItem}
    (hg : Grown ctx h history) (huntruncated : Assumed Untruncated h) (hreseats : Assumed Reseats h)
    {text : List Char} (htext : text ∈ liveInput h) : Holds history text := by
  induction hg generalizing text with
  | new => cases htext
  | quiet _ hc a ih => exact ih huntruncated.1 hreseats.1 (liveInput_quiet hc a htext)
  | prompted _ prompt ih =>
    rcases liveInput_prompted htext with haccepted | hearlier
    · refine holds_of_mem (List.mem_append_right _ ?_)
      rw [haccepted]
      exact List.mem_singleton_self _
    · exact (ih huntruncated.1 hreseats.1 hearlier).append _
  | steered _ queue ih =>
    rcases liveInput_steered htext with hdrained | hearlier
    · exact holds_of_mem (List.mem_append_right _ (List.mem_map_of_mem hdrained))
    · exact (ih huntruncated.1 hreseats.1 hearlier).append _
  | @handedOff h history _ prompt summary _ postCompact _ =>
    exact (holds_handoffHistory summary postCompact).mpr
      (hreseats.2 history prompt summary h rfl text htext)
  | truncated _ _ _ _ => exact huntruncated.2.elim
  | imagesDropped _ ih => exact (ih huntruncated hreseats htext).dropImages
  | replied _ _ _ _ ih | recovering _ ih | executed _ _ _ _ ih | hooked _ _ _ ih =>
    exact (ih huntruncated hreseats htext).append _

/-- In every run of a session in which the history is not truncated, and in which every handoff
keeps the live input, each history that is passed to the provider holds it. -/
theorem live_input_held {ctx : Ctx} {fuel : ℕ} {h : Trace} {history : List HistoryItem}
    {tools : List (List Char)} {next : Option (Except AgentError LlmResponse) → Running PUnit}
    (hran : Ran (converse ctx fuel .new) h (.call (.complete history tools) next))
    (huntruncated : Assumed Untruncated h) (hreseats : Assumed Reseats h) :
    ∀ text ∈ liveInput h, Holds history text := fun _ htext =>
  (grown_of_ran hran).1.holds huntruncated hreseats htext

/-- A handoff seats the prompt again. -/
theorem live_input_held_sample : ∃ h next, Ran (converse sampleCtx 3 .new) h (.call (.complete
      [.user (handoffText "ok".toList []), .user "fix".toList] []) next) ∧
    liveInput h = ["fix".toList] ∧
    ∀ text ∈ liveInput h, Holds [.user (handoffText "ok".toList []), .user "fix".toList] text := by
  have h : Ran (converse sampleCtx 3 .new) [] _ := .start
  have h := h.step [.text "fix".toList]
  have h := h.step false
  have h := h.step []
  have h := h.step []
  have h := h.step (some (.ok (sampleResponse 190000)))
  have h := h.step false
  have h := h.step false
  have h := h.step false
  have h := h.step false
  have h := h.step []
  have h := h.step []
  have h := h.step (some (.ok "ok".toList))
  have h := h.step []
  have h := h.step []
  refine ⟨_, _, h, rfl, live_input_held h ?_ ?_⟩
  · trivial
  · refine ⟨⟨by trivial, fun history prompt summary h₀ heq text htext => ?_⟩, trivial⟩
    obtain ⟨hevent, rfl⟩ := List.cons.inj heq
    obtain ⟨rfl, -⟩ := Call.summarize.inj (Sigma.mk.inj hevent).1
    obtain rfl := List.mem_singleton.mp htext
    exact .inl ⟨_, rfl, List.infix_refl _⟩

/-- The steer is the last user item when the handoff clears the history, and the prompt is lost. -/
theorem prompt_lost : ∃ h next, Ran (converse sampleCtx 3 .new) h (.call (.complete
      [.user (handoffText "ok".toList []), .user "hurry".toList] []) next) ∧
    Assumed Untruncated h ∧ liveInput h = ["fix".toList, "hurry".toList] ∧
    ¬ Holds [.user (handoffText "ok".toList []), .user "hurry".toList] "fix".toList := by
  have h : Ran (converse sampleCtx 3 .new) [] _ := .start
  have h := h.step [.text "fix".toList]
  have h := h.step false
  have h := h.step []
  have h := h.step []
  have h := h.step (some (.ok (sampleResponse 190000)))
  have h := h.step false
  have h := h.step false
  have h := h.step false
  have h := h.step false
  have h := h.step [[.text "hurry".toList]]
  have h := h.step []
  have h := h.step (some (.ok "ok".toList))
  have h := h.step []
  have h := h.step []
  refine ⟨_, _, h, ?_, rfl, ?_⟩
  · trivial
  · rintro ⟨s, hs, hinfix⟩
    have hletter : 'i' ∈ s := hinfix.subset (by simp)
    rcases List.mem_cons.mp hs with heq | hmem
    · obtain rfl := HistoryItem.user.inj heq
      simp [handoffText_nil] at hletter
    · obtain rfl := HistoryItem.user.inj (List.mem_singleton.mp hmem)
      simp at hletter

end Buzz.Agent
