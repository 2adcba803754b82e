import Buzz.Desktop.ReadState.Phases

/-!
# When the relay has caught up

Whenever no timer is set and no publish is in progress, the own blobs on the relay should hold
every publishable channel context at its timestamp (`World.Settled`). They do in every run in which
the debounce timer fires only while no publish is in progress (`run_settled`). They need not where
two publishes overlap: a publish that was suspended after building its contexts chooses its
`created_at` when it is resumed, and so replaces a blob that was built after it
(`stale_publish_wins`).

## Main definitions

* `World.Covered`, `World.Settled`, `Start`.
* `Honest`: the relay and the other clients behave; `Orderly`: publishes do not overlap, and no
  context has the name of something that every object inherits.
* `Inv`: the invariant of an orderly run.

## Main results

* `step_inv`, `run_inv`.
* `run_settled`, `stale_publish_wins`.
-/

namespace Buzz.Desktop.ReadState

open Buzz.Library ReadStateManager

/-! ### The property -/

/-- The blobs that this client owns on the relay hold every publishable channel context at its
timestamp. -/
def World.Covered (w : World) : Prop :=
  ∀ k v, Wanted w.manager k v → ∃ (dTag : List Char) (e : RelayEvent) (contexts : Record),
    w.relay.lookup dTag = some e ∧ e.content = some ⟨w.manager.clientId, contexts⟩ ∧
      contexts.lookup k = some v

/-- When nothing is left to do, the relay has caught up, provided the channel keys fit. -/
def World.Settled (w : World) : Prop :=
  w.manager.debounceTimer = false → w.publishes = [] → w.manager.Fits → w.Covered

/-- A manager that has merged what the relay holds for it. It knows what this client has sent, its
slots hold such events, no newer than what it has seen, and what it takes to be last published is
on the relay. Either the timer is set or there is nothing to publish. -/
structure Start (w : World) : Prop where
  publishes : w.publishes = []
  incoming : w.incoming = []
  remembers : Remembers w
  nodup : w.manager.slotIds.Nodup
  stored : ∀ slotId ∈ w.manager.slotIds, ∀ e, w.relay.lookup (slotDTag slotId) = some e →
    e ∈ w.sent
  seen : Seen w.manager w.relay []
  published : Published w.manager w.relay
  names : ∀ k ∈ w.manager.publishableContextIds, k ∉ inheritedNames
  covered : w.manager.debounceTimer = false → w.manager.Fits →
    ∀ k v, Wanted w.manager k v → HeldOutside w.manager w.relay [] k v

/-- The actions of marks, incoming events, debounce firings and publishes, where the relay and the
other clients behave: an event that carries the id of this client was sent by it, other clients
write under other `d` tags, and generated slot ids are new. -/
def Honest (w : World) : Action → Prop
  | .receive event => ∀ blob, event.content = some blob →
      blob.clientId = w.manager.clientId → event ∈ w.sent
  | .store dTag _ => dTag ∉ w.manager.slotIds.map slotDTag
  | .resume _ _ _ slotIdGenerator => NewSlotIds w.manager w.relay slotIdGenerator
  | .seed .. | .merge _ | .resumeMerge .. => False
  | .mark .. | .parsed _ | .fire | .answer .. | .accept _ => True

/-- The timer fires only while no publish is in progress, and no context has the name of something
that every object inherits. -/
def Orderly (w : World) : Action → Prop
  | .fire => w.publishes = []
  | .mark contextId _ _ => contextId ∉ inheritedNames
  | .receive event => ∀ blob, event.content = some blob → ∀ name ∈ inheritedNames,
      blob.contexts.lookup name = none
  | _ => True

/-! ### The invariant -/

/-- An incoming event that is fine to apply: an own one was sent, and it names no context like
something inherited. -/
def Welcome (w : World) (event : RelayEvent) : Prop :=
  ∀ blob, event.content = some blob →
    (blob.clientId = w.manager.clientId → event ∈ w.sent) ∧
      ∀ name ∈ inheritedNames, blob.contexts.lookup name = none

/-- What holds throughout an orderly run, whatever the publish in progress is at. -/
structure Base (w : World) : Prop where
  remembers : Remembers w
  nodup : w.manager.slotIds.Nodup
  stored : ∀ slotId ∈ w.manager.slotIds, ∀ e, w.relay.lookup (slotDTag slotId) = some e →
    e ∈ w.sent
  names : ∀ k ∈ w.manager.publishableContextIds, k ∉ inheritedNames
  incoming : ∀ e ∈ w.incoming, Welcome w e

/-- There is at most one publish in progress, and it is at one of its phases. -/
def Inv (w : World) : Prop :=
  Base w ∧ ∃ p : Option Publish, w.publishes = p.toList ∧ Phase w.manager w.relay w.sent p

variable {w w' : World}

theorem inv_of_start (h : Start w) : Inv w := by
  refine ⟨⟨h.remembers, h.nodup, h.stored, h.names, ?_⟩, none, h.publishes, h.seen, h.published,
    h.covered⟩
  intro e he
  rw [h.incoming] at he
  cases he

theorem Base.own (h : Base w) : Own w.manager w.relay :=
  fun slotId hs e he => h.remembers.sent e (h.stored slotId hs e he)

theorem Welcome.mono {event : RelayEvent} (h : Welcome w event)
    (hclient : w'.manager.clientId = w.manager.clientId) (hsent : w.sent ⊆ w'.sent) :
    Welcome w' event := by
  intro blob hblob
  obtain ⟨hown, hnames⟩ := h blob hblob
  exact ⟨fun hc => hsent (hown (hc.trans hclient)), hnames⟩

/-- The manager drifts while the publish in progress stays where it is. -/
theorem Inv.drift (h : Inv w) (hrem : Remembers w') (hd : Drifts w.manager w'.manager)
    (hr : SameSlots w.manager w.relay w'.relay) (hsent : w'.sent = w.sent)
    (hpublishes : w'.publishes = w.publishes)
    (hnames : ∀ k ∈ w'.manager.publishableContextIds, k ∉ inheritedNames)
    (hincoming : ∀ e ∈ w'.incoming, e ∈ w.incoming ∨ Welcome w' e) : Inv w' := by
  obtain ⟨hbase, p, hp, hphase⟩ := h
  refine ⟨⟨hrem, hd.slotIds ▸ hbase.nodup, fun s hs e he => ?_, hnames, fun e he => ?_⟩, p, ?_, ?_⟩
  · rw [hd.slotIds] at hs
    rw [hr s hs] at he
    rw [hsent]
    exact hbase.stored s hs e he
  · rcases hincoming e he with hold | hnew
    · exact (hbase.incoming e hold).mono hd.clientId (hsent ▸ List.Subset.refl _)
    · exact hnew
  · rw [hpublishes, hp]
  · rw [hsent]
    exact hphase.drift hd hr

/-! ### Steps -/

theorem toList_getElem? {α : Type} {o : Option α} {k : ℕ} {x : α} (h : o.toList[k]? = some x) :
    k = 0 ∧ o = some x := by
  cases o with
  | none => cases h
  | some y =>
    cases k with
    | zero => exact ⟨rfl, h⟩
    | succ k => cases h

theorem inv_mark {contextId : List Char} {unixTimestamp now : ℕ} (h : Inv w)
    (hname : contextId ∉ inheritedNames)
    (hstep : w.step (.mark contextId unixTimestamp now) = some w') : Inv w' := by
  have hrem := step_remembers h.1.remembers hstep
  obtain rfl := Option.some.inj hstep
  refine h.drift hrem ?_ (fun _ _ => rfl) rfl rfl (fun k hk => ?_) fun e he => .inl he
  · exact .of_advances (w.manager.advances_markContextRead _ _ _)
      (w.manager.still_markContextRead _ _ _)
  · rcases mem_publishable_markContextRead hk with hold | rfl
    · exact h.1.names k hold
    · exact hname

theorem inv_receive {event : RelayEvent} (h : Inv w) (hwelcome : Welcome w event)
    (hstep : w.step (.receive event) = some w') : Inv w' := by
  have hrem := step_remembers h.1.remembers hstep
  obtain rfl := Option.some.inj hstep
  rcases w.handleIncomingEvent_cases event with ⟨-, heq⟩ | ⟨-, -, heq⟩ | ⟨-, heq⟩ <;>
    rw [heq] at hrem ⊢
  · exact h
  · exact h.drift hrem ⟨rfl, rfl, rfl, le_rfl, .inr ⟨rfl, rfl, rfl⟩⟩ (fun _ _ => rfl) rfl rfl
      h.1.names fun e he => .inl he
  · refine h.drift hrem (.refl _) (fun _ _ => rfl) rfl rfl h.1.names fun e he => ?_
    rcases List.mem_append.mp he with hold | hnew
    · exact .inl hold
    · rw [List.mem_singleton.mp hnew]
      exact .inr hwelcome

theorem inv_parsed {k : ℕ} (h : Inv w) (hstep : w.step (.parsed k) = some w') : Inv w' := by
  have hrem := step_remembers h.1.remembers hstep
  obtain ⟨event, hk, rfl⟩ := World.step_parsed hstep
  have hwelcome := h.1.incoming event (List.mem_of_getElem? hk)
  have hincoming : ∀ e ∈ (w.parseIncoming k event).incoming, e ∈ w.incoming ∨
      Welcome (w.parseIncoming k event) e := fun e he => .inl (List.mem_of_mem_eraseIdx he)
  rcases w.parseIncoming_cases k event with ⟨-, hmanager⟩ | ⟨parsed, hparse, hmanager⟩
  · refine h.drift hrem (hmanager ▸ .refl _) (fun _ _ => rfl) rfl rfl ?_ hincoming
    rw [hmanager]
    exact h.1.names
  · obtain ⟨-, blob, hblob, hparsed⟩ := parseReadStateEvent_eq_some hparse
    obtain ⟨hown, hnames⟩ := hwelcome blob hblob
    have hknows : parsed.blob.clientId = w.manager.clientId →
        w.manager.Knows (objectEntries parsed.blob.contexts) := by
      intro hclient
      rw [hparsed] at hclient
      obtain ⟨contexts, hcontent, hcontexts⟩ := h.1.remembers.sent event (hown hclient)
      have hoffered := knows_offered hcontent hcontexts w.manager.pubkey
      rw [hparse] at hoffered
      exact hoffered
    refine h.drift hrem ?_ (fun _ _ => rfl) rfl rfl ?_ hincoming
    · refine .of_advances (w.advances_parseIncoming k event) ?_
      rw [hmanager]
      exact still_applyIncoming hknows
    · intro a ha hin
      rw [hmanager] at ha
      rcases mem_publishable_applyIncoming ha with hold | ⟨v, hv⟩
      · exact h.1.names a hold hin
      · have hlook := mem_objectEntries_iff.mp hv
        rw [hparsed] at hlook
        have hsome := of_lookup_sanitizeContexts hlook
        rw [hnames a hin] at hsome
        cases hsome

theorem inv_store {dTag : List Char} {event : RelayEvent} (h : Inv w)
    (hother : dTag ∉ w.manager.slotIds.map slotDTag)
    (hstep : w.step (.store dTag event) = some w') : Inv w' := by
  have hrem := step_remembers h.1.remembers hstep
  obtain rfl := Option.some.inj hstep
  refine h.drift hrem (.refl _) (fun slotId hs => ?_) rfl rfl h.1.names fun e he => .inl he
  have hne : slotDTag slotId ≠ dTag := by
    rintro rfl
    exact hother (List.mem_map_of_mem hs)
  exact lookup_put_of_ne hne w.relay event

theorem inv_fire (h : Inv w) (hidle : w.publishes = []) (hstep : w.step .fire = some w') :
    Inv w' := by
  have hrem := step_remembers h.1.remembers hstep
  obtain ⟨-, rfl⟩ := World.step_fire hstep
  obtain ⟨hbase, p, hp, hphase⟩ := h
  have hnone : p = none := by
    cases p with
    | none => rfl
    | some p => rw [hidle] at hp; cases hp
  subst hnone
  obtain ⟨hseen, hpublished, -⟩ := hphase
  refine ⟨⟨hrem, hbase.nodup, hbase.stored, hbase.names, hbase.incoming⟩,
    some w.manager.startPublish, ?_, hseen, hpublished, rfl⟩
  rw [hidle]
  rfl

theorem inv_answer {k : ℕ} {events : List RelayEvent} (h : Inv w)
    (hstep : w.step (.answer k events) = some w') : Inv w' := by
  have hrem := step_remembers h.1.remembers hstep
  obtain ⟨dTags, hk, hperm, rfl⟩ := World.step_answer hstep
  obtain ⟨hbase, p, hp, hphase⟩ := h
  rw [hp] at hk
  obtain ⟨rfl, rfl⟩ := toList_getElem? hk
  obtain ⟨hseen, hpublished, rfl⟩ := hphase
  refine ⟨⟨hrem, hbase.nodup, hbase.stored, hbase.names, hbase.incoming⟩,
    some (.merging (.start events)), by rw [hp]; rfl, hseen, hpublished, fun e he => ?_,
    List.Subset.refl _, fun k v hmem => by cases hmem⟩
  obtain ⟨dTag, hdTag, hlook⟩ := List.mem_filterMap.mp (hperm.mem_iff.mp he)
  obtain ⟨slotId, hslot, rfl⟩ := List.mem_map.mp hdTag
  exact ⟨slotId, hslot, hlook⟩

theorem inv_resume {k now id : ℕ} {slotIdGenerator : ℕ → List Char} (h : Inv w)
    (hnew : NewSlotIds w.manager w.relay slotIdGenerator)
    (hstep : w.step (.resume k now id slotIdGenerator) = some w') : Inv w' := by
  have hrem := step_remembers h.1.remembers hstep
  obtain ⟨q, m', p', hk, hresume, rfl⟩ := World.step_resume hstep
  obtain ⟨hbase, p, hp, hphase⟩ := h
  rw [hp] at hk
  obtain ⟨rfl, rfl⟩ := toList_getElem? hk
  have hknows : ∀ c ∈ q.contexts, w.manager.Knows (objectEntries c) :=
    hbase.remembers.publishes q (hp ▸ List.mem_singleton_self q)
  obtain ⟨hphase', hkeeps, hstill⟩ :=
    phase_resume hbase.names hbase.own hbase.nodup hnew hknows hphase hresume
  have hclient : m'.clientId = w.manager.clientId := by
    rcases resumePublish_cases hresume with ⟨task, -, rfl, -, -⟩ | ⟨-, hresumed⟩
    · exact (task.grows_resume w.manager (slotIdGenerator 0)).clientId
    · exact hresumed.clientId
  refine ⟨⟨hrem, hkeeps.1, fun s hs e he => ?_, ?_, fun e he => ?_⟩, p', ?_, hphase'⟩
  · rcases hkeeps.2 s hs with hold | hempty
    · exact List.mem_append_left _ (hbase.stored s hold e he)
    · rw [show w.relay.lookup (slotDTag s) = some e from he] at hempty
      cases hempty
  · intro a ha
    rw [show m'.publishableContextIds = _ from hstill.2] at ha
    exact hbase.names a ha
  · exact (hbase.incoming e he).mono hclient (List.subset_append_left _ _)
  · rw [hp]
    cases p' <;> rfl

theorem inv_accept {k : ℕ} (h : Inv w) (hstep : w.step (.accept k) = some w') : Inv w' := by
  have hrem := step_remembers h.1.remembers hstep
  obtain ⟨hbase, p, hp, hphase⟩ := h
  rcases World.step_accept hstep with ⟨slotId, contexts, slots, event, hk, rfl⟩ |
    ⟨slotId, createdAt, slotIds, contexts, hk, rfl⟩
  · rw [hp] at hk
    obtain ⟨rfl, rfl⟩ := toList_getElem? hk
    have hphase' := phase_accept hphase
    obtain ⟨-, -, holder, hsent, -⟩ := hphase
    refine ⟨⟨hrem, hbase.nodup, fun s hs e he => ?_, hbase.names, hbase.incoming⟩,
      some (.sent slotId contexts slots event), by rw [hp]; rfl, hphase'⟩
    change (w.relay.put (slotDTag slotId) event).lookup (slotDTag s) = some e at he
    rw [put_of_olderThan holder, lookup_set_slot] at he
    split_ifs at he
    · rw [← Option.some.inj he]
      exact hsent
    · exact hbase.stored s hs e he
  · rw [hp] at hk
    obtain ⟨rfl, rfl⟩ := toList_getElem? hk
    exact ⟨⟨hrem, hbase.nodup, fun s hs e he => hbase.stored s hs e (lookup_delete he),
      hbase.names, hbase.incoming⟩, some (.deleteSent slotIds contexts), by rw [hp]; rfl,
      phase_deletion hphase⟩

/-- Every orderly step keeps the invariant. -/
theorem step_inv {a : Action} (h : Inv w) (hhonest : Honest w a) (horderly : Orderly w a)
    (hstep : w.step a = some w') : Inv w' := by
  cases a with
  | mark contextId unixTimestamp now => exact inv_mark h horderly hstep
  | seed contextId unixTimestamp => exact hhonest.elim
  | receive event =>
    exact inv_receive h (fun blob hblob => ⟨hhonest blob hblob, horderly blob hblob⟩) hstep
  | parsed k => exact inv_parsed h hstep
  | merge events => exact hhonest.elim
  | resumeMerge k freshSlotId => exact hhonest.elim
  | fire => exact inv_fire h horderly hstep
  | answer k events => exact inv_answer h hstep
  | resume k now id slotIdGenerator => exact inv_resume h hhonest hstep
  | accept k => exact inv_accept h hstep
  | store dTag event => exact inv_store h hhonest hstep

theorem run_inv {acts : List Action} (h : Inv w)
    (hrun : Run (fun w a => Honest w a ∧ Orderly w a) w acts w') : Inv w' := by
  induction hrun with
  | nil => exact h
  | cons hok hstep _ ih => exact ih (step_inv h hok.1 hok.2 hstep)

/-- The invariant leaves nothing unpublished once nothing is left to do. -/
theorem Inv.settled (h : Inv w) : w.Settled := by
  intro ht hidle hfits k v hwanted
  obtain ⟨-, p, hp, hphase⟩ := h
  cases p with
  | none =>
    obtain ⟨-, -, hcovered⟩ := hphase
    obtain ⟨slotId, -, -, e, contexts, he, hcontent, hk⟩ := hcovered ht hfits k v hwanted
    exact ⟨slotDTag slotId, e, contexts, he, hcontent, hk⟩
  | some p =>
    rw [hidle] at hp
    cases hp

/-- In every run in which the timer fires only while no publish is in progress, the relay has caught
up in every state in which nothing is left to do. -/
theorem run_settled {acts : List Action} (hstart : Start w)
    (hrun : Run (fun w a => Honest w a ∧ Orderly w a) w acts w') : w'.Settled :=
  (run_inv (inv_of_start hstart) hrun).settled

/-! ### Publishes one after the other, and publishes that overlap -/

theorem start_empty : Start emptyWorld where
  publishes := rfl
  incoming := rfl
  remembers := .of_fresh ⟨rfl, rfl, rfl⟩
  nodup := List.nodup_singleton _
  stored := fun _ _ _ he => nomatch he
  seen := fun _ _ _ _ he => nomatch he
  published := fun _ _ _ hk => nomatch hk
  names := fun _ hk => absurd hk (Finset.notMem_empty _)
  covered := fun _ _ _ _ hwanted => nomatch hwanted.2.2

/-- Slot ids that the empty world does not use. -/
def newSlotId (i : ℕ) : List Char := List.replicate (i + 1) 'n'

theorem newSlotIds_newSlotId {m : ReadStateManager} {relay : Relay}
    (hs : m.slotIds = ["s".toList])
    (hr : ∀ d, d ≠ slotDTag "s".toList → relay.lookup d = none) :
    NewSlotIds m relay newSlotId := by
  have hne : ∀ i, newSlotId i ≠ "s".toList := by
    intro i h
    rw [newSlotId, List.replicate_succ] at h
    exact absurd (List.cons.inj h).1 (by decide)
  refine ⟨fun i => ⟨?_, hr _ fun h => hne i (slotDTag_injective h)⟩, fun i j h => ?_⟩
  · rw [hs, List.mem_singleton]
    exact hne i
  · simpa [newSlotId] using congrArg List.length h

theorem newSlotIds_empty {m : ReadStateManager} (hs : m.slotIds = ["s".toList]) :
    NewSlotIds m ∅ newSlotId :=
  newSlotIds_newSlotId hs fun _ _ => rfl

theorem newSlotIds_put {m : ReadStateManager} {event : RelayEvent}
    (hs : m.slotIds = ["s".toList]) :
    NewSlotIds m (Relay.put ∅ (slotDTag "s".toList) event) newSlotId :=
  newSlotIds_newSlotId hs fun _ hd => lookup_put_of_ne hd ∅ _

/-- Resume a publish at the time 60. -/
def resumeAt60 (k id : ℕ) : Action := .resume k 60 id newSlotId

/-- A publish builds its contexts and is suspended while it encrypts them. -/
def buildActions (k : ℕ) : List Action :=
  [.fire, .answer k [], resumeAt60 k 0, resumeAt60 k 0, resumeAt60 k 0]

/-- A publish that has built its contexts encrypts, signs and sends them. -/
def writeActions (k id : ℕ) : List Action :=
  [resumeAt60 k id, resumeAt60 k id, .accept k, resumeAt60 k id]

/-- A mark at 10 is published. -/
def singleActions : List Action := .mark "a".toList 10 50 :: (buildActions 0 ++ writeActions 0 1)

theorem run_settled_single :
    ∃ w, Start emptyWorld ∧
      Run (fun w a => Honest w a ∧ Orderly w a) emptyWorld singleActions w ∧
      w.manager.debounceTimer = false ∧ w.publishes = [] ∧ w.Covered := by
  have hname : "a".toList ∉ inheritedNames := by decide
  have hrun : Run (fun w a => Honest w a ∧ Orderly w a) emptyWorld singleActions _ :=
    .cons ⟨trivial, hname⟩ rfl <| .cons ⟨trivial, rfl⟩ rfl <| .cons ⟨trivial, trivial⟩ rfl <|
    .cons ⟨newSlotIds_empty rfl, trivial⟩ rfl <| .cons ⟨newSlotIds_empty rfl, trivial⟩ rfl <|
    .cons ⟨newSlotIds_empty rfl, trivial⟩ rfl <| .cons ⟨newSlotIds_empty rfl, trivial⟩ rfl <|
    .cons ⟨newSlotIds_empty rfl, trivial⟩ rfl <| .cons ⟨trivial, trivial⟩ rfl <|
    .cons ⟨newSlotIds_put rfl, trivial⟩ rfl <| .nil _
  exact ⟨_, start_empty, hrun, rfl, rfl, run_settled start_empty hrun rfl rfl (.inl rfl)⟩

/-- A first publish builds the blob of a mark at 10. A mark at 20 is published meanwhile, and then
the first publish goes on. -/
def overlapActions : List Action :=
  .mark "a".toList 10 50 :: (buildActions 0 ++
    .mark "a".toList 20 55 :: (buildActions 1 ++ (writeActions 1 1 ++ writeActions 0 2)))

/-- The older blob is written last, under the greater `created_at`. -/
theorem stale_publish_wins :
    ∃ w, Start emptyWorld ∧ Run Honest emptyWorld overlapActions w ∧ ¬ w.Settled := by
  have hother : ∀ {e e' : RelayEvent} (d : List Char), d ≠ slotDTag "s".toList →
      (Relay.put (Relay.put ∅ (slotDTag "s".toList) e) (slotDTag "s".toList) e').lookup d = none :=
    fun d hd => (lookup_put_of_ne hd _ _).trans (lookup_put_of_ne hd ∅ _)
  refine ⟨_, start_empty,
    -- the first publish is suspended after building its blob
    .cons trivial rfl <| .cons trivial rfl <| .cons trivial rfl <|
    .cons (newSlotIds_empty rfl) rfl <| .cons (newSlotIds_empty rfl) rfl <|
    .cons (newSlotIds_empty rfl) rfl <|
    -- the second one runs to its end
    .cons trivial rfl <| .cons trivial rfl <| .cons trivial rfl <|
    .cons (newSlotIds_empty rfl) rfl <| .cons (newSlotIds_empty rfl) rfl <|
    .cons (newSlotIds_empty rfl) rfl <| .cons (newSlotIds_empty rfl) rfl <|
    .cons (newSlotIds_empty rfl) rfl <| .cons trivial rfl <| .cons (newSlotIds_put rfl) rfl <|
    -- the first one signs its older blob with a greater `created_at`
    .cons (newSlotIds_put rfl) rfl <| .cons (newSlotIds_put rfl) rfl <| .cons trivial rfl <|
    .cons (newSlotIds_newSlotId rfl hother) rfl <| .nil _, fun hsettled => ?_⟩
  obtain ⟨d, e, contexts, he, hcontent, hk⟩ :=
    hsettled rfl rfl (.inl rfl) "a".toList 20 ⟨rfl, Finset.mem_insert_self _ _, rfl⟩
  by_cases hd : d = slotDTag "s".toList
  · subst hd
    obtain rfl := Option.some.inj he
    obtain ⟨-, rfl⟩ := ReadStateBlob.mk.inj (Option.some.inj hcontent)
    exact absurd (Option.some.inj hk) (by decide)
  · exact absurd (he.symm.trans (hother d hd)) (Option.some_ne_none e)

end Buzz.Desktop.ReadState
