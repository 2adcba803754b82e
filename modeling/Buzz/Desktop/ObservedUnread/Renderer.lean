import Buzz.Desktop.ObservedUnread.Store
import Buzz.Library.Outcome

/-!
# A renderer in step with the store

One renderer issues the commands one at a time. A response may be lost, whether the command has
committed or not. The opening of a scope prunes and migrates without advancing the revision, so that
a renderer that misses the response goes on at a revision that no longer tells what it holds.

## Main definitions

* `Renderer.receive`: what the renderer does with a response.
* `Step`: a command with its fate.
* `InStep`: the renderer holds the projections of the store.
* `Meets`: the condition on a step.

## Main results

* `openScope_spec`, `ingest_cases`: what the commands commit and answer.
* `stays_in_step`: in runs under the condition, the renderer is in step after every response.
* `missed_pruning`: a run of the code that leaves the renderer with what the store has not.
-/

namespace Buzz.Desktop.ObservedUnread

open Library

/-! ### What the commands do -/

section

variable {uuid : String} {now : ℤ} {db db' : Database} {response : Response}

theorem toSql_eq_ok {context : String} {n m : ℕ} (h : toSql context n = .ok m) : m = n := by
  rw [toSql] at h
  split_ifs at h
  exact (Except.ok.inj h).symm

/-- Only rows of events differ. -/
structure SameButEvents (db db' : Database) : Prop where
  scopeState : db'.scopeState = db.scopeState
  channelLatest : db'.channelLatest = db.channelLatest
  readMarkers : db'.readMarkers = db.readMarkers

theorem upsertEvent_same {event : IngestEvent} (h : upsertEvent db event = .ok db') :
    SameButEvents db db' := by
  obtain ⟨n, -, h⟩ := bind_eq_ok.mp h
  obtain rfl := Except.ok.inj h
  exact ⟨rfl, rfl, rfl⟩

theorem foldlM_upsertEvent_same {events : List IngestEvent}
    (h : events.foldlM upsertEvent db = .ok db') : SameButEvents db db' :=
  foldlM_eq_ok (R := SameButEvents) (fun _ => ⟨rfl, rfl, rfl⟩)
    (fun _ _ _ h h' => ⟨h'.1.trans h.1, h'.2.trans h.2, h'.3.trans h.3⟩)
    (fun _ _ _ _ h => upsertEvent_same h) h

/-- What the opening of a scope commits and answers. -/
structure Opened (db : Database) (response : Response) (db' : Database) : Prop where
  response : ∃ generation last migrated seeded,
    response = .snapshot generation db'.revision last migrated seeded (projections db')
  revision : db'.revision = db.revision
  lastSequence : db'.lastSequence = db.lastSequence
  channelLatest : db'.channelLatest = db.channelLatest
  readMarkers : db'.readMarkers = db.readMarkers

theorem openScope_spec {request : OpenScopeRequest}
    (h : openScope uuid now request db = .ok (response, db')) : Opened db response db' := by
  obtain ⟨rows, hrows, h⟩ := bind_eq_ok.mp h
  obtain ⟨rfl, rfl⟩ := Prod.mk.inj (Except.ok.inj h)
  rw [openRows] at hrows
  obtain ⟨migrated, hmigrated, hrows⟩ := bind_eq_ok.mp hrows
  have hsame : SameButEvents db migrated := by
    rw [migrate] at hmigrated
    split_ifs at hmigrated
    · obtain rfl := Except.ok.inj hmigrated
      exact ⟨rfl, rfl, rfl⟩
    · exact foldlM_upsertEvent_same hmigrated
  obtain rfl := Except.ok.inj hrows
  exact ⟨⟨_, _, _, _, rfl⟩, db.revision_state uuid, db.lastSequence_state uuid,
    hsame.channelLatest, hsame.readMarkers⟩

/-- What an ingest commits and answers. -/
inductive Ingested (now : ℤ) (request : IngestRequest) (db : Database) :
    Response → Database → Prop
  | replayed {generation : String} (state : ScopeState) (hle : request.sequence ≤ db.lastSequence)
      (hstate : ({ db with scopeState := some state } : Database).revision = db.revision)
      (hlast : ({ db with scopeState := some state } : Database).lastSequence = db.lastSequence) :
      Ingested now request db
        (.snapshot generation db.revision db.lastSequence true true (projections db))
        { db with scopeState := some state }
  | refused {generation : String} (hnot : ¬ Applicable request db) :
      Ingested now request db (.snapshotRequired generation db.revision db.lastSequence) db
  | applied {generation : String} {rows : Database} (state : ScopeState)
      (happlicable : Applicable request db) (hrows : applyBatch now request db = .ok rows)
      (hrevision : state.revision = db.revision + 1) (hlast : state.lastSequence = request.sequence) :
      Ingested now request db
        (.delta generation db.revision (db.revision + 1) request.sequence
          (upserts (·.channelId) (projections db) (projections rows))
          (removedKeys (·.channelId) (projections db) (projections rows)))
        { rows with scopeState := some state }

theorem ingest_cases {request : IngestRequest}
    (h : ingest uuid now request db = .ok (response, db')) :
    Ingested now request db response db' := by
  rw [ingest] at h
  simp only [Database.revision_state, Database.lastSequence_state] at h
  split_ifs at h with hle happlicable
  · obtain ⟨rfl, rfl⟩ := Prod.mk.inj (Except.ok.inj h)
    exact .replayed _ hle (db.revision_state uuid) (db.lastSequence_state uuid)
  · obtain ⟨rows, hrows, h⟩ := bind_eq_ok.mp h
    obtain ⟨next, hnext, h⟩ := bind_eq_ok.mp h
    obtain ⟨sequence, hsequence, h⟩ := bind_eq_ok.mp h
    obtain rfl := toSql_eq_ok hnext
    obtain rfl := toSql_eq_ok hsequence
    obtain ⟨rfl, rfl⟩ := Prod.mk.inj (Except.ok.inj h)
    exact .applied _ happlicable hrows rfl rfl
  · obtain ⟨rfl, rfl⟩ := Prod.mk.inj (Except.ok.inj h)
    exact .refused happlicable

/-! ### Values that only grow -/

/-- A value is no less than it was, unless its key is set aside. -/
def Raised (aside : String → Prop) (m m' : HashMap String ℕ) : Prop :=
  ∀ k v, ¬ aside k → m.lookup k = some v → ∃ v', v ≤ v' ∧ m'.lookup k = some v'

theorem Raised.refl (aside : String → Prop) (m : HashMap String ℕ) : Raised aside m m :=
  fun _ v _ hv => ⟨v, le_rfl, hv⟩

theorem Raised.trans {aside : String → Prop} {m m' m'' : HashMap String ℕ}
    (h : Raised aside m m') (h' : Raised aside m' m'') : Raised aside m m'' := by
  intro k v hk hv
  obtain ⟨v', hle, hv'⟩ := h k v hk hv
  obtain ⟨v'', hle', hv''⟩ := h' k v' hk hv'
  exact ⟨v'', hle.trans hle', hv''⟩

theorem raised_upsertMax (aside : String → Prop) (m : HashMap String ℕ) (k : String) (t : ℕ) :
    Raised aside m (upsertMax m k t) := by
  intro k' v _ hv
  by_cases hk : k' = k
  · subst hk
    refine ⟨max v t, le_max_left v t, ?_⟩
    rw [upsertMax, HashMap.lookup_insert_eq, if_pos rfl, hv, Option.getD_some]
  · refine ⟨v, le_rfl, ?_⟩
    rw [upsertMax, HashMap.lookup_insert_eq, if_neg hk, hv]

theorem raised_erase {aside : String → Prop} (m : HashMap String ℕ) {k : String} (hk : aside k) :
    Raised aside m (m.erase k) := by
  intro k' v hk' hv
  refine ⟨v, le_rfl, ?_⟩
  rw [HashMap.lookup_erase_eq, if_neg, hv]
  rintro rfl
  exact hk' hk

/-- The channels that a request clears. -/
def IngestRequest.Clears (request : IngestRequest) (channel : String) : Prop :=
  request.clearAll = true ∨ channel ∈ request.clearChannels

/-- The markers that a request deletes. -/
def IngestRequest.Deletes (request : IngestRequest) (contextId : String) : Prop :=
  ∃ update ∈ request.markers, update.contextId = contextId ∧ update.readAt = none

theorem raised_clear (request : IngestRequest) (db : Database) :
    Raised request.Clears db.channelLatest (clear request db).channelLatest := by
  have hchannels (l : List String) (hl : ∀ c ∈ l, c ∈ request.clearChannels) (db : Database) :
      Raised request.Clears db.channelLatest (l.foldl clearChannel db).channelLatest := by
    induction l generalizing db with
    | nil => exact .refl _ _
    | cons c l ih =>
      exact (raised_erase db.channelLatest (.inr (hl c List.mem_cons_self))).trans
        (ih (fun c hc => hl c (List.mem_cons_of_mem _ hc)) (clearChannel db c))
  rw [clear]
  split_ifs with hall
  · exact fun k v hk => absurd (.inl hall) hk
  · exact hchannels _ (fun _ hc => hc) db

theorem readMarkers_clear (request : IngestRequest) (db : Database) :
    (clear request db).readMarkers = db.readMarkers := by
  have hchannels (l : List String) (db : Database) :
      (l.foldl clearChannel db).readMarkers = db.readMarkers := by
    induction l generalizing db with
    | nil => rfl
    | cons c l ih => exact ih _
  rw [clear, hchannels]
  split_ifs <;> rfl

/-- What a batch does to the latest times and to the markers. -/
structure Advances (clears deletes : String → Prop) (db db' : Database) : Prop where
  channelLatest : Raised clears db.channelLatest db'.channelLatest
  readMarkers : Raised deletes db.readMarkers db'.readMarkers

theorem Advances.refl (clears deletes : String → Prop) (db : Database) :
    Advances clears deletes db db := ⟨.refl _ _, .refl _ _⟩

theorem Advances.trans {clears deletes : String → Prop} {db₁ db₂ db₃ : Database}
    (h : Advances clears deletes db₁ db₂) (h' : Advances clears deletes db₂ db₃) :
    Advances clears deletes db₁ db₃ :=
  ⟨h.channelLatest.trans h'.channelLatest, h.readMarkers.trans h'.readMarkers⟩

theorem SameButEvents.advances {clears deletes : String → Prop} (h : SameButEvents db db') :
    Advances clears deletes db db' := by
  refine ⟨?_, ?_⟩
  · rw [h.channelLatest]
    exact .refl _ _
  · rw [h.readMarkers]
    exact .refl _ _

theorem updateMarker_advances {request : IngestRequest} {update : MarkerUpdate}
    (hmem : update ∈ request.markers) (h : updateMarker db update = .ok db') :
    Advances request.Clears request.Deletes db db' := by
  rw [updateMarker] at h
  cases hread : update.readAt with
  | none =>
    rw [hread] at h
    obtain rfl := Except.ok.inj h
    exact ⟨.refl _ _, raised_erase _ ⟨update, hmem, rfl, hread⟩⟩
  | some t =>
    rw [hread] at h
    obtain ⟨n, -, h⟩ := bind_eq_ok.mp h
    obtain rfl := Except.ok.inj h
    exact ⟨.refl _ _, raised_upsertMax _ _ _ _⟩

theorem advanceChannelLatest_advances {clears deletes : String → Prop} {channelId : String}
    {createdAt : ℕ} (h : advanceChannelLatest db channelId createdAt = .ok db') :
    Advances clears deletes db db' := by
  obtain ⟨n, -, h⟩ := bind_eq_ok.mp h
  obtain rfl := Except.ok.inj h
  exact ⟨raised_upsertMax _ _ _ _, .refl _ _⟩

theorem foldl_updateMembership_same (l : List MembershipUpdate) (db : Database) :
    SameButEvents db (l.foldl updateMembership db) := by
  induction l generalizing db with
  | nil => exact ⟨rfl, rfl, rfl⟩
  | cons update l ih =>
    obtain ⟨hscope, hlatest, hmarkers⟩ := ih (updateMembership db update)
    exact ⟨hscope, hlatest, hmarkers⟩

theorem applyBatch_advances {request : IngestRequest} (h : applyBatch now request db = .ok db') :
    Advances request.Clears request.Deletes db db' := by
  obtain ⟨db₁, hevents, h⟩ := bind_eq_ok.mp h
  obtain ⟨db₂, hlatest, h⟩ := bind_eq_ok.mp h
  obtain ⟨db₃, hmarkers, h⟩ := bind_eq_ok.mp h
  obtain rfl := Except.ok.inj h
  have hcleared : Advances request.Clears request.Deletes db (clear request db) := by
    refine ⟨raised_clear request db, ?_⟩
    rw [readMarkers_clear]
    exact .refl _ _
  have hlatest : Advances request.Clears request.Deletes db₁ db₂ :=
    foldlM_eq_ok (R := Advances request.Clears request.Deletes) (.refl _ _) (fun _ _ _ => .trans)
      (fun _ _ _ _ h => advanceChannelLatest_advances h) hlatest
  have hmarkers : Advances request.Clears request.Deletes
      (request.membership.foldl updateMembership db₂) db₃ :=
    foldlM_eq_ok (R := Advances request.Clears request.Deletes) (.refl _ _) (fun _ _ _ => .trans)
      (fun _ _ _ hmem h => updateMarker_advances hmem h) hmarkers
  have hbatch := ((hcleared.trans (foldlM_upsertEvent_same hevents).advances).trans hlatest).trans
    ((foldl_updateMembership_same request.membership db₂).advances.trans hmarkers)
  exact ⟨hbatch.channelLatest, hbatch.readMarkers⟩

end

/-! ### Runs -/

/-- What the renderer holds, at a revision. -/
structure Renderer where
  revision : ℕ
  channels : HashMap String ChannelProjection

/-- The renderer replaces what it holds, patches it at its revision, or holds nothing until it has
opened the scope again. -/
def Renderer.receive (renderer : Option Renderer) : Response → Option Renderer
  | .snapshot _ revision _ _ _ channels => some ⟨revision, byKey (·.channelId) channels⟩
  | .delta _ baseRevision revision _ upserts removed =>
    renderer.bind fun r =>
      if baseRevision = r.revision then
        some ⟨revision, patch (·.channelId) r.channels removed upserts⟩
      else none
  | .snapshotRequired .. => none

inductive Request
  | open_ (request : OpenScopeRequest)
  | ingest (request : IngestRequest)

def Request.run (uuid : String) (now : ℤ) :
    Request → Database → Except String (Response × Database)
  | open_ request => openScope uuid now request
  | ingest request => ObservedUnread.ingest uuid now request

/-- The response of a command is received, or lost after a commit; or nothing is committed. -/
inductive Fate
  | heard
  | lost
  | failed

/-- The store and its renderer, the batches that were applied, and whether a lost opening has changed
the unread events since the renderer last received a snapshot. -/
structure State where
  db : Database
  now : ℤ
  renderer : Option Renderer
  applied : List IngestRequest
  drifted : Bool

/-- The batch that a response acknowledges as applied. -/
def batch : Request → Response → List IngestRequest
  | .ingest request, .delta .. => [request]
  | _, _ => []

def Response.isSnapshot : Response → Bool
  | .snapshot .. => true
  | _ => false

def Request.isOpen : Request → Bool
  | .open_ _ => true
  | .ingest _ => false

inductive Step (s : State) (request : Request) : Fate → State → Prop
  | heard {uuid : String} {now : ℤ} {response : Response} {db : Database} (hnow : s.now ≤ now)
      (hrun : request.run uuid now s.db = .ok (response, db)) :
      Step s request .heard {
        db, now
        renderer := Renderer.receive s.renderer response
        applied := s.applied ++ batch request response
        drifted := s.drifted && !response.isSnapshot }
  | lost {uuid : String} {now : ℤ} {response : Response} {db : Database} (hnow : s.now ≤ now)
      (hrun : request.run uuid now s.db = .ok (response, db)) :
      Step s request .lost {
        db, now
        renderer := s.renderer
        applied := s.applied ++ batch request response
        drifted := s.drifted ||
          (request.isOpen && decide (unreadEvents db ≠ unreadEvents s.db)) }
  | failed {now : ℤ} (hnow : s.now ≤ now) : Step s request .failed { s with now }

/-- No ingest that is applied and answered finds the renderer at its revision, after a lost opening
that changed the unread events. -/
def Meets (s : State) (request : Request) (fate : Fate) : Prop :=
  ∀ r batch, fate = .heard → request = .ingest batch → Applicable batch s.db →
    s.renderer = some r → r.revision = s.db.revision → s.drifted = false

/-- The states of the runs from a store, whose steps meet a condition. -/
inductive Reached (condition : State → Request → Fate → Prop) (db : Database) : State → Prop
  | start (now : ℤ) : Reached condition db ⟨db, now, none, [], false⟩
  | step {s s' : State} {request : Request} {fate : Fate} (hs : Reached condition db s)
      (h : Step s request fate s') (hmeets : condition s request fate) : Reached condition db s'

/-- The renderer holds the projections of the store. -/
def InStep (r : Renderer) (db : Database) : Prop :=
  ∀ k, r.channels.lookup k = (byKey (·.channelId) (projections db)).lookup k

/-- The renderer is at no later revision than the store, and in step when it is at the same one. -/
def Tracks (renderer : Option Renderer) (db : Database) (drifted : Bool) : Prop :=
  ∀ r, renderer = some r → r.revision ≤ db.revision ∧
    (r.revision = db.revision → drifted = false → InStep r db)

/-- The channels whose latest time a request clears. -/
def Request.Clears : Request → String → Prop
  | open_ _ => fun _ => False
  | ingest request => request.Clears

def Request.Deletes : Request → String → Prop
  | open_ _ => fun _ => False
  | ingest request => request.Deletes

section

variable {db₀ : Database} {s s' : State} {request : Request} {fate : Fate}

theorem InStep.congr {r : Renderer} {db db' : Database} (h : InStep r db)
    (heq : projections db' = projections db) : InStep r db' := fun k => heq ▸ h k

/-- After a response that the renderer receives, it is in step, at the revision of the store. -/
theorem Step.heard_inStep (h : Step s request .heard s')
    (htracks : Tracks s.renderer s.db s.drifted) (hmeets : Meets s request .heard) :
    ∀ r, s'.renderer = some r → r.revision = s'.db.revision ∧ InStep r s'.db := by
  intro r hr
  cases h with
  | heard hnow hrun =>
    cases request with
    | open_ request =>
      obtain ⟨generation, last, migrated, seeded, rfl⟩ := (openScope_spec hrun).response
      obtain rfl := Option.some.inj hr
      exact ⟨rfl, fun _ => rfl⟩
    | ingest request =>
      cases ingest_cases hrun with
      | replayed state hle hstate hlast =>
        obtain rfl := Option.some.inj hr
        exact ⟨hstate.symm, fun _ => rfl⟩
      | refused hnot => cases hr
      | @applied generation rows state happlicable hrows hrevision hlast =>
        obtain ⟨r₀, hr₀, hr⟩ := Option.bind_eq_some_iff.mp hr
        split_ifs at hr with hbase
        obtain rfl := Option.some.inj hr
        have hdrifted := hmeets r₀ request rfl rfl happlicable hr₀ hbase.symm
        have hinStep := (htracks r₀ hr₀).2 hbase.symm hdrifted
        exact ⟨hrevision.symm, lookup_patch (nodup_projections rows) hinStep⟩

theorem Step.tracks (h : Step s request fate s') (htracks : Tracks s.renderer s.db s.drifted)
    (hmeets : Meets s request fate) : Tracks s'.renderer s'.db s'.drifted := by
  intro r hr
  cases fate with
  | heard =>
    obtain ⟨hrevision, hinStep⟩ := h.heard_inStep htracks hmeets r hr
    exact ⟨hrevision.le, fun _ _ => hinStep⟩
  | failed =>
    cases h with
    | failed hnow => exact htracks r hr
  | lost =>
    cases h with
    | lost hnow hrun =>
      obtain ⟨hle, hinStep⟩ := htracks r hr
      cases request with
      | open_ request =>
        have hopened := openScope_spec hrun
        refine ⟨hle.trans hopened.revision.ge, fun hrevision hdrifted => ?_⟩
        obtain ⟨hdrifted, hsame⟩ := Bool.or_eq_false_iff.mp hdrifted
        rw [Request.isOpen, Bool.true_and, decide_eq_false_iff_not, not_not] at hsame
        exact (hinStep (hrevision.trans hopened.revision) hdrifted).congr
          (projections_congr hopened.channelLatest hsame)
      | ingest request =>
        have hdrift {b : Bool} (hb : (s.drifted || (false && b)) = false) : s.drifted = false :=
          (Bool.or_eq_false_iff.mp hb).1
        cases ingest_cases hrun with
        | replayed state _ hstate _ =>
          refine ⟨hle.trans hstate.ge, fun hrevision hdrifted => ?_⟩
          exact (hinStep (hrevision.trans hstate) (hdrift hdrifted)).congr rfl
        | refused _ => exact ⟨hle, fun hrevision hdrifted => hinStep hrevision (hdrift hdrifted)⟩
        | applied state _ _ hrevision _ =>
          refine ⟨(hle.trans (Nat.le_succ _)).trans hrevision.ge, fun heq => ?_⟩
          have : r.revision = s.db.revision + 1 := heq.trans hrevision
          omega

/-- The batches were applied in the order of their sequence numbers. -/
structure InOrder (db₀ : Database) (db : Database) (applied : List IngestRequest) : Prop where
  lastSequence : db.lastSequence = db₀.lastSequence + applied.length
  applied : applied.map (·.sequence) = List.range' (db₀.lastSequence + 1) applied.length

theorem InOrder.run {uuid : String} {now : ℤ} {db db' : Database} {response : Response}
    {applied : List IngestRequest} (h : InOrder db₀ db applied)
    (hrun : request.run uuid now db = .ok (response, db')) :
    InOrder db₀ db' (applied ++ batch request response) := by
  have hsame (hlast : db'.lastSequence = db.lastSequence) : InOrder db₀ db' (applied ++ []) := by
    rw [List.append_nil]
    exact ⟨hlast.trans h.lastSequence, h.applied⟩
  cases request with
  | open_ request => exact hsame (openScope_spec hrun).lastSequence
  | ingest request =>
    cases ingest_cases hrun with
    | replayed state _ _ hlast => exact hsame hlast
    | refused _ => exact hsame rfl
    | applied state happlicable _ _ hlast =>
      have hnext : request.sequence = db₀.lastSequence + 1 + applied.length := by
        rw [happlicable.1, h.lastSequence]
        omega
      refine ⟨hlast.trans ?_, ?_⟩
      · rw [batch, List.length_append, List.length_singleton]
        omega
      · rw [batch, List.map_append, h.applied, List.length_append, List.length_singleton,
          List.range'_concat, Nat.one_mul, ← hnext]
        rfl

theorem Step.inOrder (h : Step s request fate s') (horder : InOrder db₀ s.db s.applied) :
    InOrder db₀ s'.db s'.applied := by
  cases h with
  | heard hnow hrun | lost hnow hrun => exact horder.run hrun
  | failed hnow => exact horder

theorem Request.run_advances {uuid : String} {now : ℤ} {db db' : Database} {response : Response}
    (hrun : request.run uuid now db = .ok (response, db')) :
    Advances request.Clears request.Deletes db db' := by
  cases request with
  | open_ request =>
    have hopened := openScope_spec hrun
    refine ⟨?_, ?_⟩
    · rw [hopened.channelLatest]
      exact .refl _ _
    · rw [hopened.readMarkers]
      exact .refl _ _
  | ingest request =>
    cases ingest_cases hrun with
    | replayed state _ _ _ => exact ⟨.refl _ _, .refl _ _⟩
    | refused _ => exact .refl _ _ _
    | applied state _ hrows _ _ =>
      have hadvances := applyBatch_advances hrows
      exact ⟨hadvances.channelLatest, hadvances.readMarkers⟩

theorem Reached.invariant (hs : Reached Meets db₀ s) :
    Tracks s.renderer s.db s.drifted ∧ InOrder db₀ s.db s.applied := by
  induction hs with
  | start now => exact ⟨fun r hr => (nomatch hr), rfl, rfl⟩
  | step hs h hmeets ih => exact ⟨h.tracks ih.1 hmeets, h.inOrder ih.2⟩

/-- In every run under the condition: batches are applied once and in the order of their sequence
numbers, the renderer is in step after every response that it receives, and no latest time and no
marker decreases but by a clear or a delete. -/
theorem stays_in_step (db₀ : Database) {s s' : State} {request : Request} {fate : Fate}
    (hs : Reached Meets db₀ s) (h : Step s request fate s') (hmeets : Meets s request fate) :
    s'.applied.map (·.sequence) = List.range' (db₀.lastSequence + 1) s'.applied.length ∧
      (fate = .heard → ∀ r, s'.renderer = some r → InStep r s'.db) ∧
      Advances request.Clears request.Deletes s.db s'.db := by
  obtain ⟨htracks, horder⟩ := hs.invariant
  refine ⟨(h.inOrder horder).applied, fun hfate r hr => ?_, ?_⟩
  · subst hfate
    exact (h.heard_inStep htracks hmeets r hr).2
  · cases h with
    | heard hnow hrun | lost hnow hrun => exact Request.run_advances hrun
    | failed hnow => exact .refl _ _ _

end

/-! ### Sample runs -/

def emptyDatabase : Database := ⟨none, ∅, ∅, ∅, []⟩

def openRequest : OpenScopeRequest := ⟨none, none⟩

/-- An event of the channel `c`, at time 10. -/
def sampleEvent : IngestEvent := ⟨"c", "e", 10, none, false, true, true⟩

def ingestRequest (sequence : ℕ) (events : List IngestEvent) : IngestRequest :=
  ⟨sequence, sequence - 1, events, [], [], [], [], false⟩

/-- The renderer opens the scope and ingests an event. -/
theorem stays_in_step_ingest : ∃ s' : State, s'.renderer.isSome = true ∧
    ∀ r, s'.renderer = some r → InStep r s'.db := by
  have hs : Reached Meets emptyDatabase _ := .start 0
  have hs := hs.step (.heard (le_refl 0)
    (show Request.run "g" 0 (.open_ openRequest) _ = .ok (_, _) from rfl))
    (fun r batch _ h => (nomatch h))
  have h := stays_in_step emptyDatabase hs (.heard (le_refl 0)
    (show Request.run "g" 0 (.ingest (ingestRequest 1 [sampleEvent])) _ = .ok (_, _) from rfl))
    fun _ _ _ _ _ _ _ => rfl
  exact ⟨_, rfl, h.2.1 rfl⟩

/-- The event is pruned by an opening whose response is lost, and the renderer goes on with it. -/
theorem missed_pruning : ∃ s s' request r,
    Reached (fun _ _ _ => True) emptyDatabase s ∧ Step s request .heard s' ∧
      s'.renderer = some r ∧ ¬ InStep r s'.db := by
  have hs : Reached (fun _ _ _ => True) emptyDatabase _ := .start 0
  have hs := hs.step (.heard (le_refl 0)
    (show Request.run "g" 0 (.open_ openRequest) _ = .ok (_, _) from rfl)) trivial
  have hs := hs.step (.heard (le_refl 0)
    (show Request.run "g" 0 (.ingest (ingestRequest 1 [sampleEvent])) _ = .ok (_, _) from rfl))
    trivial
  have hs := hs.step (.lost (show (0 : ℤ) ≤ 604810 by decide)
    (show Request.run "g" 604810 (.open_ openRequest) _ = .ok (_, _) from rfl)) trivial
  refine ⟨_, _, _, _, hs, .heard (le_refl 604810)
    (show Request.run "g" 604810 (.ingest (ingestRequest 2 [])) _ = .ok (_, _) from rfl), rfl,
    fun hinStep => ?_⟩
  have hc := hinStep "c"
  cases hc

end Buzz.Desktop.ObservedUnread
