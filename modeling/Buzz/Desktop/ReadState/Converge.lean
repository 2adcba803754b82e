import Buzz.Desktop.ReadState.Publish

/-!
# Read state converges

Whatever is done to a manager, and however its merges, its incoming events and its publishes are
interleaved, the timestamp of a context is the greatest of those it was given: the hydrated one, the
marks and seeds, and the blobs that were merged or that came in. A blob that is dropped as the echo
of an own event counts as given too: the manager knew it when it was built (`Remembers`), and
timestamps never go back. So the state of a manager depends on the set of what it was given only.

## Main definitions

* `World.given`, `World.givenBy`: the timestamps that an action, or a run, gives.
* `Genuine`: an event id names one event.
* `Remembers`: the manager knows what it has published and what it is publishing.

## Main results

* `step_value`: a step takes the maximum.
* `readState_converges`.
-/

namespace Buzz.Desktop.ReadState

open Buzz.Library

namespace World

/-- The timestamp of a context, 0 when it was never read. -/
def timestamp (w : World) (contextId : List Char) : ℕ :=
  MaxMap.value w.manager.effectiveState contextId

/-- The contexts and timestamps that an action gives to the manager: a mark or a seed gives its own,
a fetched or an incoming event those of its blob, an echo that is dropped included. -/
def given (w : World) : Action → List (List Char × ℕ)
  | .mark contextId unixTimestamp _ => [(contextId, unixTimestamp)]
  | .seed contextId unixTimestamp => [(contextId, unixTimestamp)]
  | .receive event =>
    if event.pubkey = w.manager.pubkey ∧ event.id ∈ w.manager.recentlyPublishedIds then
      offered (parseReadStateEvent event w.manager.pubkey)
    else []
  | .parsed k =>
    match w.incoming[k]? with
    | some event => offered (parseReadStateEvent event w.manager.pubkey)
    | none => []
  | .resumeMerge k _ =>
    match w.merges[k]? with
    | some task => offered (task.next w.manager.pubkey)
    | none => []
  | .resume k _ _ _ =>
    match w.publishes[k]? with
    | some (.merging task) => offered (task.next w.manager.pubkey)
    | _ => []
  | _ => []

/-- What a sequence of actions gives. -/
def givenBy (w : World) : List Action → List (List Char × ℕ)
  | [] => []
  | a :: acts =>
    w.given a ++
      match w.step a with
      | some w' => w'.givenBy acts
      | none => []

/-- A manager that has published nothing yet, with whatever it was hydrated with. -/
def Fresh (w : World) : Prop :=
  w.publishes = [] ∧ w.sent = [] ∧ w.manager.recentlyPublishedIds = []

end World

/-- An event id names one event: it is a hash of it. An event that comes in with the id of one that
this client has signed is that event. -/
def Genuine (w : World) : Action → Prop
  | .receive event => ∀ e ∈ w.sent, e.id = event.id → e = event
  | _ => True

/-! ### What the manager has published -/

/-- The manager knows everything it has published and everything it is publishing. -/
structure Remembers (w : World) : Prop where
  sent : ∀ e ∈ w.sent, ∃ contexts, e.content = some ⟨w.manager.clientId, contexts⟩ ∧
    w.manager.Knows (objectEntries contexts)
  publishes : ∀ p ∈ w.publishes, ∀ c ∈ p.contexts, w.manager.Knows (objectEntries c)
  ids : ∀ i ∈ w.manager.recentlyPublishedIds, ∃ e ∈ w.sent, e.id = i

theorem Remembers.of_fresh {w : World} (h : w.Fresh) : Remembers w := by
  obtain ⟨hpublishes, hsent, hids⟩ := h
  refine ⟨?_, ?_, ?_⟩
  · simp [hsent]
  · simp [hpublishes]
  · simp [hids]

/-- The manager moves on, and nothing is published. -/
theorem Remembers.grows {w : World} (h : Remembers w) {w' : World}
    (hgrows : ReadStateManager.Grows w.manager w'.manager) (hsent : w'.sent = w.sent)
    (hpublishes : ∀ p ∈ w'.publishes, ∀ c ∈ p.contexts, ∃ q ∈ w.publishes, c ∈ q.contexts)
    (hids : ∀ i ∈ w'.manager.recentlyPublishedIds, i ∈ w.manager.recentlyPublishedIds) :
    Remembers w' := by
  refine ⟨?_, ?_, ?_⟩
  · intro e he
    rw [hsent] at he
    obtain ⟨contexts, hcontent, hknows⟩ := h.sent e he
    exact ⟨contexts, by rw [hcontent, hgrows.clientId], hknows.grows hgrows⟩
  · intro p hp c hc
    obtain ⟨q, hq, hcq⟩ := hpublishes p hp c hc
    exact (h.publishes q hq c hcq).grows hgrows
  · intro i hi
    rw [hsent]
    exact h.ids i (hids i hi)

/-- A publish is resumed that is not merging. -/
theorem Remembers.resumed {w : World} (h : Remembers w) {k : ℕ} {p : Publish}
    {m' : ReadStateManager} {p' : Option Publish} (hp : w.publishes[k]? = some p)
    (hresumed : ReadStateManager.Resumed w.manager p m' p') :
    Remembers { w with
      manager := m'
      publishes := update w.publishes k p'
      sent := w.sent ++ Publish.signed p' } := by
  have hold : ∀ c ∈ p.contexts, m'.Knows (objectEntries c) := fun c hc =>
    (h.publishes p (List.mem_of_getElem? hp) c hc).still hresumed.still
  refine ⟨?_, ?_, ?_⟩
  · intro e he
    rcases List.mem_append.mp he with hsent | hsigned
    · obtain ⟨contexts, hcontent, hknows⟩ := h.sent e hsent
      exact ⟨contexts, by rw [hcontent, hresumed.clientId], hknows.still hresumed.still⟩
    · obtain ⟨c, hc, hcontent⟩ := hresumed.signed e hsigned
      exact ⟨c, by rw [hcontent, hresumed.clientId], hold c hc⟩
  · intro q hq c hc
    rcases mem_update hq with hmem | heq
    · exact (h.publishes q hmem c hc).still hresumed.still
    · rcases hresumed.carries q heq c hc with hcp | hknows
      · exact hold c hcp
      · exact hknows.still hresumed.still
  · intro i hi
    rcases hresumed.ids i hi with hi | ⟨e, he, hid⟩
    · obtain ⟨e, he, hid⟩ := h.ids i hi
      exact ⟨e, List.mem_append_left _ he, hid⟩
    · exact ⟨e, List.mem_append_right _ he, hid⟩

/-- Every step keeps what the manager has published known. -/
theorem step_remembers {w w' : World} {a : Action} (h : Remembers w) (hstep : w.step a = some w') :
    Remembers w' := by
  have hself : ∀ p ∈ w.publishes, ∀ c ∈ p.contexts, ∃ q ∈ w.publishes, c ∈ q.contexts :=
    fun p hp c hc => ⟨p, hp, hc⟩
  cases a with
  | mark contextId unixTimestamp now =>
    obtain rfl := Option.some.inj hstep
    have hadv := w.manager.advances_markContextRead contextId unixTimestamp now
    exact h.grows hadv.grows rfl hself fun i hi => hadv.recentlyPublishedIds ▸ hi
  | seed contextId unixTimestamp =>
    obtain rfl := Option.some.inj hstep
    have hadv := w.manager.advances_advanceContext contextId unixTimestamp false
    exact h.grows hadv.grows rfl hself fun i hi => hadv.recentlyPublishedIds ▸ hi
  | receive event =>
    obtain rfl := Option.some.inj hstep
    rcases w.handleIncomingEvent_cases event with ⟨-, heq⟩ | ⟨-, -, heq⟩ | ⟨-, heq⟩ <;> rw [heq]
    · exact h
    · exact h.grows ⟨rfl, rfl, fun hk => ⟨_, hk, le_rfl⟩, subset_rfl⟩ rfl hself
        fun i hi => List.mem_of_mem_erase hi
    · exact ⟨h.sent, h.publishes, h.ids⟩
  | parsed k =>
    obtain ⟨event, -, rfl⟩ := World.step_parsed hstep
    have hadv := w.advances_parseIncoming k event
    exact h.grows hadv.grows rfl hself fun i hi => hadv.recentlyPublishedIds ▸ hi
  | merge events =>
    obtain rfl := Option.some.inj hstep
    exact ⟨h.sent, h.publishes, h.ids⟩
  | resumeMerge k freshSlotId =>
    obtain ⟨task, -, rfl⟩ := World.step_resumeMerge hstep
    exact h.grows (task.grows_resume w.manager freshSlotId) rfl hself
      fun i hi => task.resume_recentlyPublishedIds w.manager freshSlotId ▸ hi
  | fire =>
    obtain ⟨-, rfl⟩ := World.step_fire hstep
    refine h.grows ⟨rfl, rfl, fun hk => ⟨_, hk, le_rfl⟩, subset_rfl⟩ rfl ?_ fun i hi => hi
    intro p hp c hc
    rcases List.mem_append.mp hp with hmem | hnew
    · exact ⟨p, hmem, hc⟩
    · rw [List.mem_singleton.mp hnew] at hc
      cases hc
  | answer k events =>
    obtain ⟨dTags, -, -, rfl⟩ := World.step_answer hstep
    refine h.grows (.refl _) rfl ?_ fun i hi => hi
    intro p hp c hc
    rcases List.mem_or_eq_of_mem_set hp with hmem | rfl
    · exact ⟨p, hmem, hc⟩
    · cases hc
  | resume k now id slotIdGenerator =>
    obtain ⟨p, m', p', hp, hresume, rfl⟩ := World.step_resume hstep
    rcases ReadStateManager.resumePublish_cases hresume with
      ⟨task, rfl, rfl, hsigned, hcontexts⟩ | ⟨-, hresumed⟩
    · refine h.grows (task.grows_resume w.manager (slotIdGenerator 0)) ?_ ?_ ?_
      · rw [hsigned, List.append_nil]
      · intro q hq c hc
        rcases mem_update hq with hmem | heq
        · exact ⟨q, hmem, hc⟩
        · rw [hcontexts q heq] at hc
          cases hc
      · intro i hi
        exact task.resume_recentlyPublishedIds w.manager (slotIdGenerator 0) ▸ hi
    · exact h.resumed hp hresumed
  | accept k =>
    rcases World.step_accept hstep with ⟨slotId, contexts, slots, event, hk, rfl⟩ |
      ⟨slotId, createdAt, slotIds, contexts, hk, rfl⟩ <;>
    · refine h.grows (.refl _) rfl ?_ fun i hi => hi
      intro p hp c hc
      rcases List.mem_or_eq_of_mem_set hp with hmem | rfl
      · exact ⟨p, hmem, hc⟩
      · exact ⟨_, List.mem_of_getElem? hk, hc⟩
  | store dTag event =>
    obtain rfl := Option.some.inj hstep
    exact ⟨h.sent, h.publishes, h.ids⟩

/-- An event whose contexts are known offers nothing new. -/
theorem knows_offered {m : ReadStateManager} {event : RelayEvent} {blob : ReadStateBlob}
    (hcontent : event.content = some blob) (h : m.Knows (objectEntries blob.contexts))
    (pubkey : List Char) : m.Knows (offered (parseReadStateEvent event pubkey)) := by
  intro k v hmem
  cases hparse : parseReadStateEvent event pubkey with
  | none =>
    rw [hparse] at hmem
    cases hmem
  | some parsed =>
    rw [hparse] at hmem
    obtain ⟨-, blob', hblob', hparsed⟩ := parseReadStateEvent_eq_some hparse
    obtain rfl := Option.some.inj (hblob'.symm.trans hcontent)
    have hlook := mem_objectEntries_iff.mp hmem
    rw [hparsed] at hlook
    exact h k v (mem_objectEntries_iff.mpr (of_lookup_sanitizeContexts hlook))

/-! ### Timestamps -/

/-- A step takes the maximum of what is held and what is given. -/
theorem step_value {w w' : World} {a : Action} (h : Remembers w) (hgenuine : Genuine w a)
    (hstep : w.step a = some w') (ctx : List Char) :
    w'.timestamp ctx = max (w.timestamp ctx) (MaxMap.latest (w.given a) ctx) := by
  have hquiet : w.timestamp ctx = max (w.timestamp ctx) (MaxMap.latest [] ctx) := by
    rw [MaxMap.latest_nil, max_eq_left bot_le]
  cases a with
  | mark contextId unixTimestamp now =>
    obtain rfl := Option.some.inj hstep
    exact w.manager.value_advanceContext contextId unixTimestamp true ctx
  | seed contextId unixTimestamp =>
    obtain rfl := Option.some.inj hstep
    exact w.manager.value_advanceContext contextId unixTimestamp false ctx
  | receive event =>
    obtain rfl := Option.some.inj hstep
    rcases w.handleIncomingEvent_cases event with ⟨hpub, heq⟩ | ⟨hpub, hid, heq⟩ | ⟨hid, heq⟩
    · rw [heq, World.given, if_neg fun hc => hpub hc.1]
      exact hquiet
    · -- the echo is dropped, but what it gives was known when it was sent
      obtain ⟨e, he, hide⟩ := h.ids event.id hid
      obtain rfl := hgenuine e he hide
      obtain ⟨contexts, hcontent, hknows⟩ := h.sent e he
      have hoffered := knows_offered hcontent hknows w.manager.pubkey
      have hle : MaxMap.latest (offered (parseReadStateEvent e w.manager.pubkey)) ctx ≤
          w.timestamp ctx :=
        MaxMap.latest_le_iff.mpr fun v hv => hoffered.le_value hv
      rw [heq, World.given, if_pos ⟨hpub, hid⟩, max_eq_left hle]
      rfl
    · rw [heq, World.given, if_neg fun hc => hid hc.2]
      exact hquiet
  | parsed k =>
    obtain ⟨event, hk, rfl⟩ := World.step_parsed hstep
    simp only [World.given, hk, World.timestamp, World.parseIncoming]
    cases hparse : parseReadStateEvent event w.manager.pubkey with
    | none => exact hquiet
    | some parsed => exact w.manager.value_applyIncoming parsed ctx
  | merge events =>
    obtain rfl := Option.some.inj hstep
    exact hquiet
  | resumeMerge k freshSlotId =>
    obtain ⟨task, hk, rfl⟩ := World.step_resumeMerge hstep
    simp only [World.given, hk]
    exact task.value_resume w.manager freshSlotId ctx
  | fire =>
    obtain ⟨-, rfl⟩ := World.step_fire hstep
    exact hquiet
  | answer k events =>
    obtain ⟨dTags, -, -, rfl⟩ := World.step_answer hstep
    exact hquiet
  | resume k now id slotIdGenerator =>
    obtain ⟨p, m', p', hp, hresume, rfl⟩ := World.step_resume hstep
    rcases ReadStateManager.resumePublish_cases hresume with
      ⟨task, rfl, rfl, -, -⟩ | ⟨hne, hresumed⟩
    · simp only [World.given, hp]
      exact task.value_resume w.manager (slotIdGenerator 0) ctx
    · have hgiven : w.given (.resume k now id slotIdGenerator) = [] := by
        rw [World.given, hp]
        cases p with
        | merging task => exact absurd rfl (hne task)
        | _ => rfl
      rw [hgiven, World.timestamp, hresumed.still.1]
      exact hquiet
  | accept k =>
    rcases World.step_accept hstep with ⟨slotId, contexts, slots, event, -, rfl⟩ |
      ⟨slotId, createdAt, slotIds, contexts, -, rfl⟩ <;> exact hquiet
  | store dTag event =>
    obtain rfl := Option.some.inj hstep
    exact hquiet

theorem run_remembers {ok : World → Action → Prop} {w w' : World} {acts : List Action}
    (h : Remembers w) (hrun : Run ok w acts w') : Remembers w' := by
  induction hrun with
  | nil => exact h
  | cons _ hstep _ ih => exact ih (step_remembers h hstep)

/-- A run takes the maximum of what is held and of all that is given. -/
theorem run_value {w w' : World} {acts : List Action} (h : Remembers w)
    (hrun : Run Genuine w acts w') (ctx : List Char) :
    w'.timestamp ctx = max (w.timestamp ctx) (MaxMap.latest (w.givenBy acts) ctx) := by
  induction hrun with
  | nil => rw [World.givenBy, MaxMap.latest_nil, max_eq_left bot_le]
  | cons hok hstep _ ih =>
    rw [World.givenBy, hstep, ih (step_remembers h hstep), step_value h hok hstep, max_assoc,
      ← MaxMap.latest_append]

/-- After any interleaving of marks, seeds, merges, incoming events and publishes, the state holds
for each context the greatest timestamp it was given or hydrated with, a context without one above
0 being possibly absent. Two managers that were hydrated alike and given the same timestamps, in any
order and any number of times, hold the same; and no step lowers a timestamp. -/
theorem readState_converges {w₀ w : World} {acts : List Action} (hfresh : w₀.Fresh)
    (hrun : Run Genuine w₀ acts w) :
    (∀ ctx, w.manager.effectiveState.lookup ctx =
        some (max (w₀.timestamp ctx) (MaxMap.latest (w₀.givenBy acts) ctx)) ∨
      w.manager.effectiveState.lookup ctx = none ∧
        max (w₀.timestamp ctx) (MaxMap.latest (w₀.givenBy acts) ctx) = 0) ∧
    (∀ {v₀ v : World} {acts' : List Action}, v₀.Fresh → Run Genuine v₀ acts' v →
      (∀ ctx, v₀.timestamp ctx = w₀.timestamp ctx) →
      (∀ p, p ∈ v₀.givenBy acts' ↔ p ∈ w₀.givenBy acts) →
      ∀ ctx, v.timestamp ctx = w.timestamp ctx) ∧
    ∀ {a : Action} {w' : World}, Genuine w a → w.step a = some w' →
      ∀ ctx, w.timestamp ctx ≤ w'.timestamp ctx := by
  have hremembers := Remembers.of_fresh hfresh
  have hvalue := run_value hremembers hrun
  refine ⟨fun ctx => ?_, fun hfresh' hrun' hinit hgiven ctx => ?_, fun hgenuine hstep ctx => ?_⟩
  · rw [← hvalue ctx]
    cases hlook : w.manager.effectiveState.lookup ctx with
    | none => exact .inr ⟨rfl, by rw [World.timestamp, MaxMap.value, hlook]; rfl⟩
    | some t => exact .inl (congrArg some (MaxMap.value_eq_of_lookup hlook).symm)
  · rw [hvalue ctx, run_value (.of_fresh hfresh') hrun', hinit, MaxMap.latest_congr hgiven]
  · rw [step_value (run_remembers hremembers hrun) hgenuine hstep ctx]
    exact le_max_left _ _

/-- A manager without any state. -/
def emptyManager : ReadStateManager where
  pubkey := "p".toList
  clientId := "desktop".toList
  slotId := "s".toList
  extraSlotIds := []
  effectiveState := ∅
  publishableContextIds := ∅
  lastPublishedContexts := ∅
  debounceTimer := false
  maxFetchedCreatedAt := 0
  contextSourceCreatedAt := ∅
  pendingSyncedAdvances := ∅
  recentlyPublishedIds := []

/-- Such a manager and an empty relay. -/
def emptyWorld : World := ⟨emptyManager, ∅, [], [], [], []⟩

/-- A blob of another client, which has read the context `a` up to 20. -/
def phoneEvent : RelayEvent where
  id := 7
  pubkey := "p".toList
  createdAt := 100
  tags := [["d".toList, "read-state:t".toList], ["t".toList, "read-state".toList]]
  content := some ⟨"phone".toList, assign ∅ "a".toList 20⟩

/-- The context is read up to 10 here, and then up to 20 on the phone. -/
def phoneActions : List Action := [.mark "a".toList 10 50, .receive phoneEvent, .parsed 0]

theorem readState_converges_phone :
    ∃ w, emptyWorld.Fresh ∧ Run Genuine emptyWorld phoneActions w ∧
      (w.manager.effectiveState.lookup "a".toList =
        some (max (emptyWorld.timestamp "a".toList)
          (MaxMap.latest (emptyWorld.givenBy phoneActions) "a".toList)) ∨
      w.manager.effectiveState.lookup "a".toList = none ∧
        max (emptyWorld.timestamp "a".toList)
          (MaxMap.latest (emptyWorld.givenBy phoneActions) "a".toList) = 0) := by
  have hfresh : emptyWorld.Fresh := ⟨rfl, rfl, rfl⟩
  have hgenuine : ∀ w : World, w.sent = [] → Genuine w (.receive phoneEvent) := by
    intro w hsent e he
    rw [hsent] at he
    cases he
  have hrun : Run Genuine emptyWorld phoneActions _ :=
    .cons trivial rfl (.cons (hgenuine _ rfl) rfl (.cons trivial rfl (.nil _)))
  exact ⟨_, hfresh, hrun, (readState_converges hfresh hrun).1 "a".toList⟩

end Buzz.Desktop.ReadState
