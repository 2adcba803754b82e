import Buzz.Desktop.ReadState.Manager

/-!
# Publishing

`mergeEvents`, `handleIncomingEvent` and `publish` of `readStateManager.ts` as tasks: a task is
suspended at an await and runs to its next one when it is resumed. Nothing keeps two publishes
apart. A publish fetches its own blobs and merges them, builds the contexts from the state it then
finds, deletes the slots it no longer needs, and encrypts, signs and sends one blob for each slot;
the `created_at` of a blob is chosen after it is encrypted.

The relay keeps, for each `d` tag, the event with the greatest `created_at` (the lowest id of two
that are equally new), and drops an event when a deletion that is no older reaches it. Every call
to the relay, to encrypt and to sign succeeds. Between two awaits a task runs alone, so that a run
is a sequence of actions (`World.step`).

The batch that a fetch returns is read twice, an await before each event; the end of a loop is an
await of its own here, which only adds to the interleavings.

## Main definitions

* `MergeTask`, `MergeTask.resume`: `mergeEvents`.
* `Publish`, `ReadStateManager.resumePublish`: `publish`, with `publishOneSlot`,
  `publishSplitSlots`, `deleteExtraSlots` and `fetchOwnBlobBeforePublish`.
* `Relay`, `World`, `Action`, `World.step`, `Run`.
-/

namespace Buzz.Desktop.ReadState

open Buzz.Library

/-! ### The relay -/

/-- The events that the relay holds for the user, by `d` tag. -/
abbrev Relay := HashMap (List Char) RelayEvent

/-- An event replaces the one that is held when it is newer, or as new and of a lower id. -/
def Relay.put (relay : Relay) (dTag : List Char) (event : RelayEvent) : Relay :=
  match relay.lookup dTag with
  | some stored =>
    if stored.createdAt < event.createdAt ∨
        stored.createdAt = event.createdAt ∧ event.id < stored.id then
      relay.set dTag event
    else relay
  | none => relay.set dTag event

/-- A deletion drops the event that is held, unless it is newer. -/
def Relay.delete (relay : Relay) (dTag : List Char) (createdAt : ℕ) : Relay :=
  match relay.lookup dTag with
  | some stored => if stored.createdAt ≤ createdAt then relay.erase dTag else relay
  | none => relay

/-! ### Merging a batch -/

/-- A suspended `mergeEvents`: the batch, the events that the loop under way has still to read,
whether it is the loop that looks for conflicts, and the own blobs seen. -/
structure MergeTask where
  events : List RelayEvent
  pending : List RelayEvent
  checking : Bool
  own : ReadStateManager.OwnBlobs

/-- `mergeEvents` is called. -/
def MergeTask.start (events : List RelayEvent) : MergeTask := ⟨events, events, false, ∅⟩

/-- The event that resuming the task merges, if it merges one. -/
def MergeTask.next (t : MergeTask) (pubkey : List Char) : Option ParsedReadStateEvent :=
  match t.checking, t.pending with
  | false, event :: _ => parseReadStateEvent event pubkey
  | _, _ => none

/-- Resume a merge: it merges the next event, or checks the next event for a conflict, giving up
the slot where another client uses it, or ends. -/
def MergeTask.resume (t : MergeTask) (m : ReadStateManager) (freshSlotId : List Char) :
    ReadStateManager × Option MergeTask :=
  match t.checking, t.pending with
  | false, event :: pending =>
    match parseReadStateEvent event m.pubkey with
    | some parsed =>
      (m.mergeParsed parsed, some { t with pending, own := m.collectOwn t.own parsed })
    | none => (m, some { t with pending })
  | false, [] => (m, some { t with checking := true, pending := t.events })
  | true, event :: pending =>
    match parseReadStateEvent event m.pubkey with
    | some parsed =>
      if parsed.dTag = slotDTag m.slotId ∧ parsed.blob.clientId ≠ m.clientId then
        (ReadStateManager.finishMerge { m with slotId := freshSlotId } t.own, none)
      else (m, some { t with pending })
    | none => (m, some { t with pending })
  | true, [] => (m.finishMerge t.own, none)

/-! ### Publishing -/

/-- Where a publish is suspended. `slots` are the slots that follow the one at hand. -/
inductive Publish where
  /-- The own slots have been asked for. -/
  | fetching (dTags : List (List Char))
  /-- The answer is being merged. -/
  | merging (task : MergeTask)
  /-- The answer has been merged. -/
  | merged
  /-- The deletion of an extra slot is being signed; `slotIds` are to follow. -/
  | deleteSigning (slotId : List Char) (slotIds : List (List Char)) (contexts : Record)
  /-- A deletion is on its way. -/
  | deleteSending (slotId : List Char) (createdAt : ℕ) (slotIds : List (List Char))
      (contexts : Record)
  /-- A deletion has been accepted. -/
  | deleteSent (slotIds : List (List Char)) (contexts : Record)
  /-- The extra slots have been deleted. -/
  | deleted (contexts : Record)
  /-- The blob of a slot is being encrypted. -/
  | encrypting (slotId : List Char) (contexts : Record) (slots : List (List Char × Record))
  /-- The event of a slot is being signed. -/
  | signing (slotId : List Char) (contexts : Record) (slots : List (List Char × Record))
      (createdAt : ℕ)
  /-- The event of a slot is on its way. -/
  | sending (slotId : List Char) (contexts : Record) (slots : List (List Char × Record))
      (event : RelayEvent)
  /-- The event of a slot has been accepted. -/
  | sent (slotId : List Char) (contexts : Record) (slots : List (List Char × Record))
      (event : RelayEvent)

/-- The next slot of a publish, or its end. -/
def Publish.nextSlot : List (List Char × Record) → Option Publish
  | [] => none
  | (slotId, contexts) :: slots => some (.encrypting slotId contexts slots)

namespace ReadStateManager

/-- `publish` starts: `fetchOwnBlobBeforePublish` asks for the own slots. -/
def startPublish (m : ReadStateManager) : Publish := .fetching (m.slotIds.map slotDTag)

/-- Publish the contexts in the primary slot, unless they are what was last published. -/
def publishSingle (m : ReadStateManager) (contexts : Record) : ReadStateManager × Option Publish :=
  if m.isIdenticalToLastPublished contexts then (m, none)
  else (m, some (.encrypting m.slotId contexts []))

/-- `publishSplitSlots`, up to its first await. -/
def publishSplitSlots (m : ReadStateManager) (slotIdGenerator : ℕ → List Char) :
    ReadStateManager × Option Publish :=
  match m.splitContextsIntoSlots slotIdGenerator with
  | (m', none) => (m', none)
  | (m', some slots) =>
    let unionContexts := unionEntries ∅ (slots.flatMap fun slot => objectEntries slot.2)
    if m'.isIdenticalToLastPublished unionContexts then (m', none)
    else ({ m' with lastPublishedContexts := ∅ }, Publish.nextSlot slots)

/-- What `publish` does once its own blobs are merged, up to the next await. -/
def buildPublish (m : ReadStateManager) (slotIdGenerator : ℕ → List Char) :
    ReadStateManager × Option Publish :=
  match m.currentContexts with
  | none => m.publishSplitSlots slotIdGenerator
  | some contexts =>
    match m.extraSlotIds with
    | [] => m.publishSingle contexts
    | slotId :: slotIds => (m, some (.deleteSigning slotId slotIds contexts))

/-- The event of a slot, as it is signed. -/
def slotEvent (m : ReadStateManager) (slotId : List Char) (contexts : Record)
    (createdAt id : ℕ) : RelayEvent where
  id
  pubkey := m.pubkey
  createdAt
  tags := [["d".toList, slotDTag slotId], ["t".toList, "read-state".toList]]
  content := some ⟨m.clientId, contexts⟩

/-- The end of `publishOneSlot`. -/
def recordPublished (m : ReadStateManager) (contexts : Record) (event : RelayEvent) :
    ReadStateManager :=
  { m with
    contextSourceCreatedAt := (objectEntries contexts).foldl
      (fun source e =>
        if m.lastPublishedContexts.lookup e.1 ≠ some e.2 then source.set e.1 event.createdAt
        else source)
      m.contextSourceCreatedAt
    lastPublishedContexts := assignAll m.lastPublishedContexts (objectEntries contexts)
    maxFetchedCreatedAt := max m.maxFetchedCreatedAt event.createdAt }

/-- Resume a publish at an await that does not wait for the relay, with the time, the id that the
next signature gives and the slot ids that are generated. -/
def resumePublish (m : ReadStateManager) (p : Publish) (now id : ℕ)
    (slotIdGenerator : ℕ → List Char) : Option (ReadStateManager × Option Publish) :=
  match p with
  | .fetching _ => none
  | .merging task =>
    match task.resume m (slotIdGenerator 0) with
    | (m', some task') => some (m', some (.merging task'))
    | (m', none) => some (m', some .merged)
  | .merged => some (m.buildPublish slotIdGenerator)
  | .deleteSigning slotId slotIds contexts =>
    some (m, some (.deleteSending slotId now slotIds contexts))
  | .deleteSending .. => none
  | .deleteSent [] contexts => some ({ m with extraSlotIds := [] }, some (.deleted contexts))
  | .deleteSent (slotId :: slotIds) contexts =>
    some (m, some (.deleteSigning slotId slotIds contexts))
  | .deleted contexts =>
    some (ReadStateManager.publishSingle { m with lastPublishedContexts := ∅ } contexts)
  | .encrypting slotId contexts slots =>
    some (m, some (.signing slotId contexts slots (max now (m.maxFetchedCreatedAt + 1))))
  | .signing slotId contexts slots createdAt =>
    some (m.rememberPublishedId id,
      some (.sending slotId contexts slots (m.slotEvent slotId contexts createdAt id)))
  | .sending .. => none
  | .sent _ contexts slots event =>
    some (m.recordPublished contexts event, Publish.nextSlot slots)

end ReadStateManager

/-! ### Runs -/

/-- A manager with its relay: the suspended calls of `mergeEvents`, the incoming events that are
being parsed, the suspended publishes, and the events that this client has signed so far. -/
structure World where
  manager : ReadStateManager
  relay : Relay
  merges : List MergeTask
  incoming : List RelayEvent
  publishes : List Publish
  sent : List RelayEvent

/-- What may happen next. -/
inductive Action where
  /-- `markContextRead` is called. -/
  | mark (contextId : List Char) (unixTimestamp now : ℕ)
  /-- `seedContextRead` is called. -/
  | seed (contextId : List Char) (unixTimestamp : ℕ)
  /-- `handleIncomingEvent` is called. -/
  | receive (event : RelayEvent)
  /-- The `k`-th incoming event has been parsed. -/
  | parsed (k : ℕ)
  /-- `mergeEvents` is called. -/
  | merge (events : List RelayEvent)
  /-- The `k`-th merge is resumed. -/
  | resumeMerge (k : ℕ) (freshSlotId : List Char)
  /-- The debounce timer fires. -/
  | fire
  /-- The relay answers the fetch of the `k`-th publish. -/
  | answer (k : ℕ) (events : List RelayEvent)
  /-- The `k`-th publish is resumed. -/
  | resume (k now id : ℕ) (slotIdGenerator : ℕ → List Char)
  /-- The relay accepts what the `k`-th publish has sent. -/
  | accept (k : ℕ)
  /-- The relay accepts an event of another client. -/
  | store (dTag : List Char) (event : RelayEvent)

/-- Replace an element of a list, or remove it. -/
def update {α : Type} (l : List α) (k : ℕ) : Option α → List α
  | some x => l.set k x
  | none => l.eraseIdx k

/-- The event that has just been signed, if one has. -/
def Publish.signed : Option Publish → List RelayEvent
  | some (.sending _ _ _ event) => [event]
  | _ => []

namespace World

/-- `handleIncomingEvent`, up to its await. The echo of an event that was just published is dropped
unread. -/
def handleIncomingEvent (w : World) (event : RelayEvent) : World :=
  if event.pubkey ≠ w.manager.pubkey then w
  else if event.id ∈ w.manager.recentlyPublishedIds then
    { w with
      manager := { w.manager with
        recentlyPublishedIds := w.manager.recentlyPublishedIds.erase event.id } }
  else { w with incoming := w.incoming ++ [event] }

/-- `handleIncomingEvent`, after its await. -/
def parseIncoming (w : World) (k : ℕ) (event : RelayEvent) : World :=
  { w with
    incoming := w.incoming.eraseIdx k
    manager :=
      match parseReadStateEvent event w.manager.pubkey with
      | some parsed => w.manager.applyIncoming parsed
      | none => w.manager }

/-- The relay takes what a publish has sent. -/
def acceptSent (w : World) (k : ℕ) : Publish → Option World
  | .sending slotId contexts slots event =>
    some { w with
      relay := w.relay.put (slotDTag slotId) event
      publishes := w.publishes.set k (.sent slotId contexts slots event) }
  | .deleteSending slotId createdAt slotIds contexts =>
    some { w with
      relay := w.relay.delete (slotDTag slotId) createdAt
      publishes := w.publishes.set k (.deleteSent slotIds contexts) }
  | _ => none

/-- The relay answers a fetch with what it holds, in some order. -/
def answerFetch (w : World) (k : ℕ) (events : List RelayEvent) : Publish → Option World
  | .fetching dTags =>
    if events.Perm (dTags.filterMap w.relay.lookup) then
      some { w with publishes := w.publishes.set k (.merging (.start events)) }
    else none
  | _ => none

/-- One action; nothing when it cannot happen. -/
def step (w : World) : Action → Option World
  | .mark contextId unixTimestamp now =>
    some { w with manager := w.manager.markContextRead contextId unixTimestamp now }
  | .seed contextId unixTimestamp =>
    some { w with manager := w.manager.seedContextRead contextId unixTimestamp }
  | .receive event => some (w.handleIncomingEvent event)
  | .parsed k => do
    let event ← w.incoming[k]?
    pure (w.parseIncoming k event)
  | .merge events => some { w with merges := w.merges ++ [.start events] }
  | .resumeMerge k freshSlotId => do
    let task ← w.merges[k]?
    let (manager, task') := task.resume w.manager freshSlotId
    pure { w with manager, merges := update w.merges k task' }
  | .fire =>
    if w.manager.debounceTimer then
      some { w with
        manager := { w.manager with debounceTimer := false }
        publishes := w.publishes ++ [w.manager.startPublish] }
    else none
  | .answer k events => do
    let p ← w.publishes[k]?
    w.answerFetch k events p
  | .resume k now id slotIdGenerator => do
    let p ← w.publishes[k]?
    let (manager, p') ← w.manager.resumePublish p now id slotIdGenerator
    pure { w with
      manager
      publishes := update w.publishes k p'
      sent := w.sent ++ Publish.signed p' }
  | .accept k => do
    let p ← w.publishes[k]?
    w.acceptSent k p
  | .store dTag event => some { w with relay := w.relay.put dTag event }

end World

/-- A run whose actions all meet `ok`. -/
inductive Run (ok : World → Action → Prop) : World → List Action → World → Prop where
  | nil (w : World) : Run ok w [] w
  | cons {w w' w'' : World} {a : Action} {acts : List Action} (hok : ok w a)
      (hstep : w.step a = some w') (hrun : Run ok w' acts w'') : Run ok w (a :: acts) w''

/-! ### What a resumption does -/

/-- The entries that a parsed event offers. -/
def offered : Option ParsedReadStateEvent → List (List Char × ℕ)
  | some parsed => objectEntries parsed.blob.contexts
  | none => []

/-- Resuming a merge merges the next event, or leaves the timestamps alone. -/
theorem MergeTask.resume_cases (t : MergeTask) (m : ReadStateManager) (freshSlotId : List Char) :
    (∃ parsed, t.next m.pubkey = some parsed ∧
      (t.resume m freshSlotId).1 = m.mergeParsed parsed) ∨
    t.next m.pubkey = none ∧ ((t.resume m freshSlotId).1 = m ∨
      (t.resume m freshSlotId).1 = m.finishMerge t.own ∨
      (t.resume m freshSlotId).1 =
        ReadStateManager.finishMerge { m with slotId := freshSlotId } t.own) := by
  obtain ⟨events, pending, checking, own⟩ := t
  cases checking with
  | false =>
    cases pending with
    | nil => exact .inr ⟨rfl, .inl rfl⟩
    | cons event pending =>
      cases hparse : parseReadStateEvent event m.pubkey with
      | none => exact .inr ⟨hparse, .inl (by simp only [MergeTask.resume, hparse])⟩
      | some parsed => exact .inl ⟨parsed, hparse, by simp only [MergeTask.resume, hparse]⟩
  | true =>
    refine .inr ⟨rfl, ?_⟩
    cases pending with
    | nil => exact .inr (.inl rfl)
    | cons event pending =>
      cases hparse : parseReadStateEvent event m.pubkey with
      | none => exact .inl (by simp only [MergeTask.resume, hparse])
      | some parsed =>
        simp only [MergeTask.resume, hparse]
        split_ifs
        · exact .inr (.inr rfl)
        · exact .inl rfl

theorem MergeTask.grows_resume (t : MergeTask) (m : ReadStateManager) (freshSlotId : List Char) :
    ReadStateManager.Grows m (t.resume m freshSlotId).1 := by
  rcases t.resume_cases m freshSlotId with ⟨parsed, -, h⟩ | ⟨-, h | h | h⟩ <;> rw [h]
  · exact (m.advances_mergeParsed parsed).grows
  · exact ReadStateManager.Grows.refl m
  · exact m.grows_finishMerge t.own
  · obtain ⟨hpub, hclient, heff, hids⟩ :=
      ReadStateManager.grows_finishMerge { m with slotId := freshSlotId } t.own
    exact ⟨hpub, hclient, heff, hids⟩

theorem MergeTask.resume_recentlyPublishedIds (t : MergeTask) (m : ReadStateManager)
    (freshSlotId : List Char) :
    (t.resume m freshSlotId).1.recentlyPublishedIds = m.recentlyPublishedIds := by
  have hfinish : ∀ m₁ : ReadStateManager,
      (m₁.finishMerge t.own).recentlyPublishedIds = m₁.recentlyPublishedIds := by
    intro m₁
    rw [ReadStateManager.finishMerge]
    split_ifs <;> rfl
  rcases t.resume_cases m freshSlotId with ⟨parsed, -, h⟩ | ⟨-, h | h | h⟩ <;> rw [h]
  · exact (m.advances_mergeParsed parsed).recentlyPublishedIds
  · exact hfinish m
  · exact hfinish _

theorem MergeTask.value_resume (t : MergeTask) (m : ReadStateManager) (freshSlotId : List Char)
    (k : List Char) :
    MaxMap.value (t.resume m freshSlotId).1.effectiveState k =
      max (MaxMap.value m.effectiveState k) (MaxMap.latest (offered (t.next m.pubkey)) k) := by
  rcases t.resume_cases m freshSlotId with ⟨parsed, hnext, h⟩ | ⟨hnext, h | h | h⟩ <;>
    rw [h, hnext]
  · exact m.value_mergeParsed parsed k
  · rw [offered, MaxMap.latest_nil, max_eq_left bot_le]
  · rw [offered, MaxMap.latest_nil, max_eq_left bot_le, m.finishMerge_effectiveState]
  · rw [offered, MaxMap.latest_nil, max_eq_left bot_le,
      ReadStateManager.finishMerge_effectiveState]

/-- The records that a publish carries. -/
def Publish.contexts : Publish → List Record
  | .fetching _ | .merging _ | .merged => []
  | .deleteSigning _ _ contexts | .deleteSending _ _ _ contexts | .deleteSent _ contexts
  | .deleted contexts => [contexts]
  | .encrypting _ contexts slots | .signing _ contexts slots _ | .sending _ contexts slots _
  | .sent _ contexts slots _ => contexts :: slots.map Prod.snd

namespace ReadStateManager

variable {m m' : ReadStateManager} {p' : Option Publish} {slotIdGenerator : ℕ → List Char}

/-- A publish that is resumed while it merges goes on merging, or has merged. -/
theorem resumePublish_merging {task : MergeTask} {now id : ℕ}
    (h : m.resumePublish (.merging task) now id slotIdGenerator = some (m', p')) :
    m' = (task.resume m (slotIdGenerator 0)).1 ∧
      ((∃ task', (task.resume m (slotIdGenerator 0)).2 = some task' ∧
        p' = some (.merging task')) ∨
      (task.resume m (slotIdGenerator 0)).2 = none ∧ p' = some .merged) := by
  rw [resumePublish] at h
  split at h
  next m₁ task' heq =>
    obtain ⟨rfl, rfl⟩ := Prod.mk.inj (Option.some.inj h)
    rw [heq]
    exact ⟨rfl, .inl ⟨task', rfl, rfl⟩⟩
  next m₁ heq =>
    obtain ⟨rfl, rfl⟩ := Prod.mk.inj (Option.some.inj h)
    rw [heq]
    exact ⟨rfl, .inr ⟨rfl, rfl⟩⟩

/-- A publish that goes on carries nothing but what it carried and what the manager knows. -/
def Carries (m : ReadStateManager) (old : List Record) (p' : Option Publish) : Prop :=
  ∀ p, p' = some p → ∀ c ∈ p.contexts, c ∈ old ∨ m.Knows (objectEntries c)

theorem carries_nextSlot (m : ReadStateManager) (slots : List (List Char × Record)) :
    Carries m (slots.map Prod.snd) (Publish.nextSlot slots) := by
  rintro p hp c hc
  cases slots with
  | nil => cases hp
  | cons slot slots =>
    obtain rfl := Option.some.inj hp
    exact .inl hc

theorem publishSingle_cases (m : ReadStateManager) (contexts : Record) :
    m.isIdenticalToLastPublished contexts = true ∧ m.publishSingle contexts = (m, none) ∨
      m.publishSingle contexts = (m, some (.encrypting m.slotId contexts [])) := by
  rw [publishSingle]
  split_ifs with h
  · exact .inl ⟨h, rfl⟩
  · exact .inr rfl

/-- What a split publish does: nothing when the contexts do not fit, and otherwise it keeps the new
slots and goes on to the first of them, unless the slots are what was last published. -/
theorem publishSplitSlots_cases (m : ReadStateManager) (slotIdGenerator : ℕ → List Char) :
    m.budgetedSlots slotIdGenerator = none ∧
        m.publishSplitSlots slotIdGenerator = (m, none) ∨
      ∃ m₁ slots, m.splitContextsIntoSlots slotIdGenerator = (m₁, some slots) ∧
        (m₁.isIdenticalToLastPublished
            (unionEntries ∅ (slots.flatMap fun slot => objectEntries slot.2)) = true ∧
          m.publishSplitSlots slotIdGenerator = (m₁, none) ∨
        m.publishSplitSlots slotIdGenerator =
          ({ m₁ with lastPublishedContexts := ∅ }, Publish.nextSlot slots)) := by
  have hsplit := m.splitContextsIntoSlots_eq slotIdGenerator
  cases hslots : m.budgetedSlots slotIdGenerator with
  | none =>
    rw [hslots] at hsplit
    exact .inl ⟨rfl, by simp only [publishSplitSlots, hsplit]⟩
  | some result =>
    rw [hslots] at hsplit
    refine .inr ⟨_, _, hsplit, ?_⟩
    simp only [publishSplitSlots, hsplit]
    split_ifs with h
    · exact .inl ⟨h, rfl⟩
    · exact .inr rfl

/-- What resuming a publish that is not merging leaves alone, and what it may add. -/
structure Resumed (m : ReadStateManager) (p : Publish) (m' : ReadStateManager)
    (p' : Option Publish) : Prop where
  still : Still m m'
  pubkey : m'.pubkey = m.pubkey
  clientId : m'.clientId = m.clientId
  carries : Carries m p.contexts p'
  signed : ∀ e ∈ Publish.signed p', ∃ c ∈ p.contexts, e.content = some ⟨m.clientId, c⟩
  ids : ∀ i ∈ m'.recentlyPublishedIds,
    i ∈ m.recentlyPublishedIds ∨ ∃ e ∈ Publish.signed p', e.id = i

theorem Resumed.of_quiet {p : Publish} (hstill : Still m m') (hpub : m'.pubkey = m.pubkey)
    (hclient : m'.clientId = m.clientId)
    (hids : m'.recentlyPublishedIds = m.recentlyPublishedIds) (hcarries : Carries m p.contexts p')
    (hsigned : Publish.signed p' = []) : Resumed m p m' p' := by
  refine ⟨hstill, hpub, hclient, hcarries, fun e he => ?_, fun i hi => .inl (hids ▸ hi)⟩
  rw [hsigned] at he
  cases he

theorem signed_nextSlot (slots : List (List Char × Record)) :
    Publish.signed (Publish.nextSlot slots) = [] := by
  cases slots <;> rfl

theorem carries_none (m : ReadStateManager) (old : List Record) : Carries m old none := by
  intro p hp
  cases hp

theorem knows_of_lookup {contexts : Record}
    (h : ∀ k v, contexts.lookup k = some v →
      m.effectiveState.lookup k = some v ∧ k ∈ m.publishableContextIds) :
    m.Knows (objectEntries contexts) := by
  intro k v hmem
  obtain ⟨heff, hpub⟩ := h k v (mem_objectEntries_iff.mp hmem)
  exact ⟨hpub, v, heff, le_rfl⟩

/-- The contexts of a single-slot blob are known. -/
theorem knows_currentContexts {contexts : Record} (h : m.currentContexts = some contexts) :
    m.Knows (objectEntries contexts) :=
  knows_of_lookup fun _ _ hk => of_lookup_currentContexts h hk

/-- The contexts of each slot of a split are known. -/
theorem knows_split {slots : List (List Char × Record)}
    (h : m.splitContextsIntoSlots slotIdGenerator = (m', some slots)) {slot : List Char × Record}
    (hslot : slot ∈ slots) : m.Knows (objectEntries slot.2) :=
  knows_of_lookup fun _ _ hk => of_lookup_split h hslot hk

theorem resumed_buildPublish (m : ReadStateManager) (slotIdGenerator : ℕ → List Char) :
    Resumed m .merged (m.buildPublish slotIdGenerator).1 (m.buildPublish slotIdGenerator).2 := by
  rw [buildPublish]
  cases hcurrent : m.currentContexts with
  | none =>
    rcases m.publishSplitSlots_cases slotIdGenerator with ⟨-, h⟩ | ⟨m₁, slots, hsplit, h⟩
    · simp only [h]
      exact .of_quiet (Still.refl m) rfl rfl rfl (carries_none m _) rfl
    · have hknown : Carries m [] (Publish.nextSlot slots) := by
        intro p hp c hc
        rcases m.carries_nextSlot slots p hp c hc with hmem | hknows
        · obtain ⟨slot, hslot, rfl⟩ := List.mem_map.mp hmem
          exact .inr (knows_split hsplit hslot)
        · exact .inr hknows
      obtain ⟨n, rfl⟩ := split_extraSlotIds hsplit
      rcases h with ⟨-, h⟩ | h
      · simp only [h]
        exact .of_quiet ⟨rfl, rfl⟩ rfl rfl rfl (carries_none m _) rfl
      · simp only [h]
        exact .of_quiet ⟨rfl, rfl⟩ rfl rfl rfl hknown (signed_nextSlot slots)
  | some contexts =>
    have hknown := knows_currentContexts hcurrent
    cases hextra : m.extraSlotIds with
    | nil =>
      rcases m.publishSingle_cases contexts with ⟨-, h⟩ | h
      · simp only [h]
        exact .of_quiet (Still.refl m) rfl rfl rfl (carries_none m _) rfl
      · simp only [h]
        refine .of_quiet (Still.refl m) rfl rfl rfl ?_ rfl
        rintro p ⟨⟩ c hc
        rw [List.mem_singleton.mp hc]
        exact .inr hknown
    | cons slotId slotIds =>
      refine .of_quiet (Still.refl m) rfl rfl rfl ?_ rfl
      rintro p ⟨⟩ c hc
      rw [List.mem_singleton.mp hc]
      exact .inr hknown

theorem mem_rememberPublishedId {id i : ℕ}
    (h : i ∈ (m.rememberPublishedId id).recentlyPublishedIds) :
    i ∈ m.recentlyPublishedIds ∨ i = id := by
  have hids : i ∈ (if id ∈ m.recentlyPublishedIds then m.recentlyPublishedIds
      else m.recentlyPublishedIds ++ [id]) := by
    simp only [rememberPublishedId] at h
    split_ifs at h ⊢ <;> first | exact h | exact List.mem_of_mem_tail h
  split_ifs at hids
  · exact .inl hids
  · exact (List.mem_append.mp hids).imp_right List.mem_singleton.mp

/-- A publish carries on with what it has. -/
theorem carries_of_subset {old : List Record} {p : Publish} (h : ∀ c ∈ p.contexts, c ∈ old) :
    Carries m old (some p) := by
  rintro q ⟨⟩ c hc
  exact .inl (h c hc)

theorem resumed_of_resumePublish {p : Publish} {now id : ℕ}
    (h : m.resumePublish p now id slotIdGenerator = some (m', p'))
    (hmerging : ∀ t, p ≠ .merging t) : Resumed m p m' p' := by
  cases p with
  | fetching dTags => cases h
  | merging task => exact absurd rfl (hmerging task)
  | merged =>
    have hbuild : m.buildPublish slotIdGenerator = (m', p') := Option.some.inj h
    have hresumed := m.resumed_buildPublish slotIdGenerator
    rw [hbuild] at hresumed
    exact hresumed
  | deleteSigning slotId slotIds contexts =>
    obtain ⟨rfl, rfl⟩ := Prod.mk.inj (Option.some.inj h)
    exact .of_quiet (Still.refl m) rfl rfl rfl (carries_of_subset fun c hc => hc) rfl
  | deleteSending slotId createdAt slotIds contexts => cases h
  | deleteSent slotIds contexts =>
    cases slotIds with
    | nil =>
      obtain ⟨rfl, rfl⟩ := Prod.mk.inj (Option.some.inj h)
      exact .of_quiet ⟨rfl, rfl⟩ rfl rfl rfl (carries_of_subset fun c hc => hc) rfl
    | cons slotId slotIds =>
      obtain ⟨rfl, rfl⟩ := Prod.mk.inj (Option.some.inj h)
      exact .of_quiet (Still.refl m) rfl rfl rfl (carries_of_subset fun c hc => hc) rfl
  | deleted contexts =>
    have heq := Option.some.inj h
    rcases publishSingle_cases { m with lastPublishedContexts := ∅ } contexts with ⟨-, hs⟩ | hs
    · obtain ⟨rfl, rfl⟩ := Prod.mk.inj (hs.symm.trans heq)
      exact .of_quiet ⟨rfl, rfl⟩ rfl rfl rfl (carries_none m _) rfl
    · obtain ⟨rfl, rfl⟩ := Prod.mk.inj (hs.symm.trans heq)
      exact .of_quiet ⟨rfl, rfl⟩ rfl rfl rfl (carries_of_subset fun c hc => hc) rfl
  | encrypting slotId contexts slots =>
    obtain ⟨rfl, rfl⟩ := Prod.mk.inj (Option.some.inj h)
    exact .of_quiet (Still.refl m) rfl rfl rfl (carries_of_subset fun c hc => hc) rfl
  | signing slotId contexts slots createdAt =>
    obtain ⟨rfl, rfl⟩ := Prod.mk.inj (Option.some.inj h)
    refine ⟨⟨rfl, rfl⟩, rfl, rfl, carries_of_subset fun c hc => hc, fun e he => ?_, fun i hi => ?_⟩
    · rw [List.mem_singleton.mp he]
      exact ⟨contexts, List.mem_cons_self, rfl⟩
    · rcases mem_rememberPublishedId hi with hmem | rfl
      · exact .inl hmem
      · exact .inr ⟨_, List.mem_singleton_self _, rfl⟩
  | sending slotId contexts slots event => cases h
  | sent slotId contexts slots event =>
    obtain ⟨rfl, rfl⟩ := Prod.mk.inj (Option.some.inj h)
    refine .of_quiet ⟨rfl, rfl⟩ rfl rfl rfl ?_ (signed_nextSlot slots)
    intro p hp c hc
    exact (m.carries_nextSlot slots p hp c hc).imp_left (List.mem_cons_of_mem _)

/-- A publish that is resumed goes on with its merge and carries nothing, or it does not merge. -/
theorem resumePublish_cases {p : Publish} {now id : ℕ}
    (h : m.resumePublish p now id slotIdGenerator = some (m', p')) :
    (∃ task, p = .merging task ∧ m' = (task.resume m (slotIdGenerator 0)).1 ∧
      Publish.signed p' = [] ∧ ∀ q, p' = some q → q.contexts = []) ∨
    (∀ task, p ≠ .merging task) ∧ Resumed m p m' p' := by
  by_cases hmerging : ∃ task, p = .merging task
  · obtain ⟨task, rfl⟩ := hmerging
    obtain ⟨hm', ⟨task', -, rfl⟩ | ⟨-, rfl⟩⟩ := resumePublish_merging h <;>
    · refine .inl ⟨task, rfl, hm', rfl, ?_⟩
      rintro q ⟨⟩
      rfl
  · have hne : ∀ task, p ≠ .merging task := fun task heq => hmerging ⟨task, heq⟩
    exact .inr ⟨hne, resumed_of_resumePublish h hne⟩

end ReadStateManager

/-! ### What a step does -/

namespace World

variable {w w' : World}

-- The equations of `step` are made here once, not in each proof that unfolds it.
attribute [local simp] step

theorem step_parsed {k : ℕ} (h : w.step (.parsed k) = some w') :
    ∃ event, w.incoming[k]? = some event ∧ w' = w.parseIncoming k event := by
  simp only [step, Option.bind_eq_bind, Option.bind_eq_some_iff, Option.pure_def,
    Option.some.injEq] at h
  obtain ⟨event, hk, rfl⟩ := h
  exact ⟨event, hk, rfl⟩

theorem step_resumeMerge {k : ℕ} {freshSlotId : List Char}
    (h : w.step (.resumeMerge k freshSlotId) = some w') :
    ∃ task, w.merges[k]? = some task ∧
      w' = { w with
        manager := (task.resume w.manager freshSlotId).1
        merges := update w.merges k (task.resume w.manager freshSlotId).2 } := by
  simp only [step, Option.bind_eq_bind, Option.bind_eq_some_iff, Option.pure_def,
    Option.some.injEq] at h
  obtain ⟨task, hk, rfl⟩ := h
  exact ⟨task, hk, rfl⟩

theorem step_fire (h : w.step .fire = some w') :
    w.manager.debounceTimer = true ∧
      w' = { w with
        manager := { w.manager with debounceTimer := false }
        publishes := w.publishes ++ [w.manager.startPublish] } := by
  simp only [step] at h
  split_ifs at h with ht
  exact ⟨ht, (Option.some.inj h).symm⟩

theorem step_answer {k : ℕ} {events : List RelayEvent} (h : w.step (.answer k events) = some w') :
    ∃ dTags, w.publishes[k]? = some (.fetching dTags) ∧
      events.Perm (dTags.filterMap w.relay.lookup) ∧
      w' = { w with publishes := w.publishes.set k (.merging (.start events)) } := by
  simp only [step, Option.bind_eq_bind, Option.bind_eq_some_iff] at h
  obtain ⟨p, hk, h⟩ := h
  cases p with
  | fetching dTags =>
    simp only [answerFetch] at h
    split_ifs at h with hperm
    exact ⟨dTags, hk, hperm, (Option.some.inj h).symm⟩
  | _ => cases h

theorem step_resume {k now id : ℕ} {slotIdGenerator : ℕ → List Char}
    (h : w.step (.resume k now id slotIdGenerator) = some w') :
    ∃ p m' p', w.publishes[k]? = some p ∧
      w.manager.resumePublish p now id slotIdGenerator = some (m', p') ∧
      w' = { w with
        manager := m'
        publishes := update w.publishes k p'
        sent := w.sent ++ Publish.signed p' } := by
  simp only [step, Option.bind_eq_bind, Option.bind_eq_some_iff, Option.pure_def,
    Option.some.injEq] at h
  obtain ⟨p, hk, ⟨m', p'⟩, hresume, rfl⟩ := h
  exact ⟨p, m', p', hk, hresume, rfl⟩

theorem step_accept {k : ℕ} (h : w.step (.accept k) = some w') :
    (∃ slotId contexts slots event,
      w.publishes[k]? = some (.sending slotId contexts slots event) ∧
      w' = { w with
        relay := w.relay.put (slotDTag slotId) event
        publishes := w.publishes.set k (.sent slotId contexts slots event) }) ∨
    ∃ slotId createdAt slotIds contexts,
      w.publishes[k]? = some (.deleteSending slotId createdAt slotIds contexts) ∧
      w' = { w with
        relay := w.relay.delete (slotDTag slotId) createdAt
        publishes := w.publishes.set k (.deleteSent slotIds contexts) } := by
  simp only [step, Option.bind_eq_bind, Option.bind_eq_some_iff] at h
  obtain ⟨p, hk, h⟩ := h
  cases p with
  | sending slotId contexts slots event =>
    exact .inl ⟨slotId, contexts, slots, event, hk, (Option.some.inj h).symm⟩
  | deleteSending slotId createdAt slotIds contexts =>
    exact .inr ⟨slotId, createdAt, slotIds, contexts, hk, (Option.some.inj h).symm⟩
  | _ => cases h

/-- What a call of `handleIncomingEvent` does before its await. -/
theorem handleIncomingEvent_cases (w : World) (event : RelayEvent) :
    (event.pubkey ≠ w.manager.pubkey ∧ w.handleIncomingEvent event = w) ∨
    (event.pubkey = w.manager.pubkey ∧ event.id ∈ w.manager.recentlyPublishedIds ∧
      w.handleIncomingEvent event = { w with
        manager := { w.manager with
          recentlyPublishedIds := w.manager.recentlyPublishedIds.erase event.id } }) ∨
    (event.id ∉ w.manager.recentlyPublishedIds ∧
      w.handleIncomingEvent event = { w with incoming := w.incoming ++ [event] }) := by
  rw [handleIncomingEvent]
  split_ifs with hpub hid
  · exact .inl ⟨hpub, rfl⟩
  · exact .inr (.inl ⟨not_not.mp hpub, hid, rfl⟩)
  · exact .inr (.inr ⟨hid, rfl⟩)

/-- What becomes of an incoming event after its await. -/
theorem parseIncoming_cases (w : World) (k : ℕ) (event : RelayEvent) :
    (parseReadStateEvent event w.manager.pubkey = none ∧
      (w.parseIncoming k event).manager = w.manager) ∨
    ∃ parsed, parseReadStateEvent event w.manager.pubkey = some parsed ∧
      (w.parseIncoming k event).manager = w.manager.applyIncoming parsed := by
  cases hparse : parseReadStateEvent event w.manager.pubkey with
  | none => exact .inl ⟨rfl, by simp only [parseIncoming, hparse]⟩
  | some parsed => exact .inr ⟨parsed, rfl, by simp only [parseIncoming, hparse]⟩

theorem advances_parseIncoming (w : World) (k : ℕ) (event : RelayEvent) :
    ReadStateManager.Advances w.manager (w.parseIncoming k event).manager := by
  rcases w.parseIncoming_cases k event with ⟨-, hmanager⟩ | ⟨parsed, -, hmanager⟩ <;> rw [hmanager]
  · exact .refl _
  · exact w.manager.advances_applyIncoming parsed

end World

theorem mem_update {α : Type} {l : List α} {k : ℕ} {o : Option α} {x : α}
    (h : x ∈ update l k o) : x ∈ l ∨ o = some x := by
  cases o with
  | none => exact .inl (List.mem_of_mem_eraseIdx h)
  | some y =>
    rcases List.mem_or_eq_of_mem_set h with hmem | rfl
    · exact .inl hmem
    · exact .inr rfl

end Buzz.Desktop.ReadState
