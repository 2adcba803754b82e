import Mathlib.Logic.Function.Basic
import Mathlib.Logic.Relation
import Buzz.Relay.Audio.Owners.Registry

/-!
# The loss signal of a local owner

How an audio connection comes to be a local owner: `resolve_join` and `resolve_join_owner_ready` of
`crates/buzz-relay/src/audio/join.rs`, and what `handle_active_connection` of
`crates/buzz-relay/src/audio/handler.rs` makes of their answer. A join that acquired the lease
attaches a renewer for it, any other one takes the loss signal of the registry's entry. Every await
is a step, and so is every access to the registry.

An entry stays when its lease is lost, and its key is the session alone. So a join may be given the
signal of an older lease, or of a lease in another community. Which rooms empty is left open here,
and joins that another pod owns are not followed.

## Main definitions

* `Signal`, `Handler`, `Joins`, `Label`, `Step`.
* `Joins.Guarded`: a local owner watches a live renewer of its own lease.
* `Joins.Careful`: the state of the registry in which a signal is taken.
* `Inv`: leases are granted once.

## Main results

* `Inv.step`: a step keeps the invariant.
* `Inv.guarded_iff`: when the signal that a join takes guards it.
* `owner_guarded`: every run of careful steps, and every signal of any run.
* `stale_signal`: a join that is given a signal that has fired.
-/

namespace Buzz.Relay.Audio.Owners

open Buzz.Core Buzz.Library Buzz.Relay.Tunnel Relation

/-! ### Joins -/

/-- How often the lookup of an owned huddle is tried. -/
def OWNER_READY_MAX_ATTEMPTS : ℕ := 25

/-- A loss signal, and whether it had fired when it was attached. -/
structure Signal where
  renewer : ℕ
  fired : Bool
  deriving DecidableEq

/-- Where an audio connection is, as far as ownership goes. -/
inductive Handler
  | idle
  | resolving (key : RoomKey) (attempts : ℕ)
  /-- The directory named nobody. -/
  | unowned (key : RoomKey) (attempts : ℕ)
  /-- The directory named this pod. -/
  | owned (key : RoomKey) (generation attempts : ℕ)
  /-- The outcome is `LocalOwner`, and the lease was acquired for it or not. -/
  | resolved (key : RoomKey) (generation : ℕ) (acquired : Bool)
  /-- The peer is in, and the registry had no entry. -/
  | inserting (key : RoomKey) (generation : ℕ)
  | joined (key : RoomKey) (generation : ℕ) (ownerLost : Option Signal)
  /-- The room was emptied. -/
  | leaving (key : RoomKey) (generation : ℕ)
  deriving DecidableEq

/-- A connection that may still fail without a trace. -/
def Handler.waiting : Handler → Bool
  | .resolving .. | .unowned .. | .owned .. | .resolved .. => true
  | _ => false

/-- The lease that a connection holds and has given to no renewer. -/
def Handler.lease : Handler → Option HuddleLease
  | .resolved key generation true => some ⟨key, generation⟩
  | .inserting key generation => some ⟨key, generation⟩
  | _ => none

/-- The directory, and the connections of one pod. -/
structure Joins where
  directory : Directory
  owners : HuddleOwnerRegistry
  handlers : ℕ → Handler

namespace Joins

/-- A pod that has just started. -/
def new (directory : Directory) : Joins := ⟨directory, .new, fun _ => .idle⟩

def set (s : Joins) (n : ℕ) (handler : Handler) : Joins :=
  { s with handlers := Function.update s.handlers n handler }

/-- A loss signal as it is found. -/
def signal (s : Joins) (renewer : ℕ) : Signal :=
  ⟨renewer, (s.owners.renewers[renewer]?.map Renewer.lost).getD false⟩

end Joins

/-- What a step does, and which connection takes it. -/
inductive Label
  | start (n : ℕ) (key : RoomKey)
  | resolve (n : ℕ)
  | giveUp (n : ℕ)
  | lookup (n : ℕ)
  /-- The connection takes its loss signal. -/
  | attach (n : ℕ)
  | leave (n : ℕ) (roomEmptied : Bool)
  | release (n : ℕ)
  | lose (renewer : ℕ)
  | letGo (renewer : ℕ)
  | directory
  deriving DecidableEq

variable (localRuntimeId : RuntimeId)

/-- A step of the pod, of a renewer or of the directory. -/
inductive Step : Joins → Label → Joins → Prop
  | start {s} (n : ℕ) (key : RoomKey) (hn : s.handlers n = .idle) :
      Step s (.start n key) (s.set n (.resolving key 0))
  | ownedHere {s n key attempts ownership} (hn : s.handlers n = .resolving key attempts)
      (howner : s.directory.ownerOf key = some ownership)
      (hlocal : ownership.ownerRuntimeId = localRuntimeId) :
      Step s (.resolve n) (s.set n (.owned key ownership.generation attempts))
  /-- The outcome is `RemoteOwner`. -/
  | ownedElsewhere {s n key attempts ownership} (hn : s.handlers n = .resolving key attempts)
      (howner : s.directory.ownerOf key = some ownership)
      (hlocal : ownership.ownerRuntimeId ≠ localRuntimeId) : Step s (.resolve n) (s.set n .idle)
  | unowned {s n key attempts} (hn : s.handlers n = .resolving key attempts)
      (howner : s.directory.ownerOf key = none) :
      Step s (.resolve n) (s.set n (.unowned key attempts))
  | acquired {s n key attempts lease directory} (hn : s.handlers n = .unowned key attempts)
      (hacquire : s.directory.acquire key localRuntimeId = (.acquired lease, directory)) :
      Step s (.resolve n)
        ({ s with directory := directory }.set n (.resolved key lease.generation true))
  | heldHere {s n key attempts ownership directory} (hn : s.handlers n = .unowned key attempts)
      (hacquire : s.directory.acquire key localRuntimeId = (.held ownership, directory))
      (hlocal : ownership.ownerRuntimeId = localRuntimeId) :
      Step s (.resolve n) (s.set n (.owned key ownership.generation attempts))
  | heldElsewhere {s n key attempts ownership directory} (hn : s.handlers n = .unowned key attempts)
      (hacquire : s.directory.acquire key localRuntimeId = (.held ownership, directory))
      (hlocal : ownership.ownerRuntimeId ≠ localRuntimeId) : Step s (.resolve n) (s.set n .idle)
  | ready {s n key generation attempts} (hn : s.handlers n = .owned key generation attempts)
      (hentry : (s.owners.lostFor key.2).isSome = true) :
      Step s (.resolve n) (s.set n (.resolved key generation false))
  | notReady {s n key generation attempts} (hn : s.handlers n = .owned key generation attempts)
      (hentry : s.owners.lostFor key.2 = none) :
      Step s (.resolve n) (s.set n
        (if attempts + 1 < OWNER_READY_MAX_ATTEMPTS then .resolving key (attempts + 1) else .idle))
  /-- The directory cannot be reached, or the connection is refused on its way to the room. -/
  | giveUp {s n} (hn : (s.handlers n).waiting = true) : Step s (.giveUp n) (s.set n .idle)
  | lookup {s n key generation} (hn : s.handlers n = .resolved key generation true)
      (hentry : s.owners.entries.lookup key.2 = none) :
      Step s (.lookup n) (s.set n (.inserting key generation))
  | attachExisting {s n key generation existing}
      (hn : s.handlers n = .resolved key generation true)
      (hentry : s.owners.entries.lookup key.2 = some existing) :
      Step s (.attach n)
        ({ s with owners := (s.owners.attachExisting existing ⟨key, generation⟩).2 }.set n
          (.joined key generation
            (some (s.signal (s.owners.attachExisting existing ⟨key, generation⟩).1))))
  | insert {s n key generation} (hn : s.handlers n = .inserting key generation) :
      Step s (.attach n)
        ({ s with owners := (s.owners.install key.2 ⟨key, generation⟩).2 }.set n
          (.joined key generation
            (some (s.signal (s.owners.install key.2 ⟨key, generation⟩).1))))
  | reuse {s n key generation} (hn : s.handlers n = .resolved key generation false) :
      Step s (.attach n) (s.set n (.joined key generation ((s.owners.lostFor key.2).map s.signal)))
  | leave {s n key generation ownerLost} (hn : s.handlers n = .joined key generation ownerLost)
      (roomEmptied : Bool) :
      Step s (.leave n roomEmptied)
        (s.set n (if roomEmptied then .leaving key generation else .idle))
  | release {s n key generation} (hn : s.handlers n = .leaving key generation) :
      Step s (.release n) ({ s with owners := s.owners.release key.2 generation }.set n .idle)
  /-- A renewal finds the lease lost, or fails. -/
  | lose {s i r} (hi : s.owners.renewers[i]? = some r) (hended : r.ended = false) :
      Step s (.lose i)
        { s with owners := s.owners.modifyRenewer i fun r => { r with lost := true } }
  /-- A renewer releases its lease and ends. -/
  | letGo {s i r} (hi : s.owners.renewers[i]? = some r) (hended : r.ended = false)
      (htold : r.cancel = true ∨ r.lost = true) :
      Step s (.letGo i)
        { s with
          directory := (s.directory.release r.lease localRuntimeId).2
          owners := s.owners.modifyRenewer i fun r => { r with
            lost := r.lost || !(s.directory.release r.lease localRuntimeId).1
            ended := true } }
  | letGoFailed {s i r} (hi : s.owners.renewers[i]? = some r) (hended : r.ended = false)
      (htold : r.cancel = true ∨ r.lost = true) :
      Step s (.letGo i)
        { s with owners := s.owners.modifyRenewer i fun r => { r with ended := true } }
  /-- A lease expires, or another pod releases it. -/
  | expire {s} (key : RoomKey) : Step s .directory { s with directory := s.directory.drop key }
  /-- A lease is granted to another pod, or to this one in an answer that does not arrive. -/
  | takeOver {s key} (owner : RuntimeId) (howner : s.directory.ownerOf key = none) :
      Step s .directory { s with directory := s.directory.grant key owner }

/-- A step, whoever takes it. -/
def AnyStep (s s' : Joins) : Prop := ∃ label, Step localRuntimeId s label s'

namespace Joins

/-- A local owner watches a renewer of the lease that its join was resolved under, whose signal had
not fired when it was attached. -/
def Guarded (s : Joins) (n : ℕ) : Prop :=
  ∀ key generation ownerLost, s.handlers n = .joined key generation ownerLost →
    ∃ i, ownerLost = some ⟨i, false⟩ ∧ s.owners.leases[i]? = some ⟨key, generation⟩

/-- An acquired lease is attached where the session has no entry. Any other join finds an entry that
was installed for its community, of the generation that the directory named, and whose lease is not
lost. -/
def Careful (s : Joins) : Label → Prop
  | .attach n =>
    match s.handlers n with
    | .resolved key _ true => s.owners.entries.lookup key.2 = none
    | .resolved key generation false =>
      ∃ entry r, s.owners.entries.lookup key.2 = some entry ∧ entry.generation = generation ∧
        s.owners.renewers[entry.renewer]? = some r ∧ r.lease.key = key ∧ r.lost = false
    | _ => True
  | _ => True

end Joins

/-! ### The invariant -/

/-- A lease is granted once: its generation is no later than the last one of its huddle, and it is
held by one connection or by renewers. The entry of a session is that of a renewer. -/
structure Inv (s : Joins) : Prop where
  entry : ∀ sessionId entry, s.owners.entries.lookup sessionId = some entry →
    ∃ lease, s.owners.leases[entry.renewer]? = some lease ∧ lease.generation = entry.generation
  granted : ∀ n lease, (s.handlers n).lease = some lease →
    lease.generation ≤ s.directory.lastGeneration lease.key
  renewed : ∀ lease ∈ s.owners.leases, lease.generation ≤ s.directory.lastGeneration lease.key
  apart : ∀ n lease, (s.handlers n).lease = some lease → lease ∉ s.owners.leases
  single : ∀ n m lease,
    (s.handlers n).lease = some lease → (s.handlers m).lease = some lease → n = m

variable {localRuntimeId} {s s' : Joins}

namespace Inv

theorem new (directory : Directory) : Inv (.new directory) where
  entry _ _ h := nomatch h
  granted _ _ h := nomatch h
  renewed _ h := absurd h List.not_mem_nil
  apart _ _ h := nomatch h
  single _ _ _ h := nomatch h

/-- A connection moves on and gets no lease. -/
theorem set (h : Inv s) {n : ℕ} {handler : Handler}
    (hlease : ∀ lease, handler.lease = some lease → (s.handlers n).lease = some lease) :
    Inv (s.set n handler) := by
  have hheld : ∀ m lease, ((s.set n handler).handlers m).lease = some lease →
      (s.handlers m).lease = some lease := by
    intro m lease hm
    simp only [Joins.set, Function.update_apply] at hm
    split_ifs at hm with hmn
    · exact hmn ▸ hlease lease hm
    · exact hm
  exact ⟨h.entry, fun m lease hm => h.granted m lease (hheld m lease hm), h.renewed,
    fun m lease hm => h.apart m lease (hheld m lease hm),
    fun m k lease hm hk => h.single m k lease (hheld m lease hm) (hheld k lease hk)⟩

/-- A connection without a lease. -/
theorem set_of_none (h : Inv s) (n : ℕ) {handler : Handler} (hlease : handler.lease = none) :
    Inv (s.set n handler) :=
  h.set fun _ hsome => nomatch hlease.symm.trans hsome

/-- Generations grow, renewers keep their leases, and entries go. -/
theorem of_le (h : Inv s) {directory : Directory} {owners : HuddleOwnerRegistry}
    (hle : ∀ key, s.directory.lastGeneration key ≤ directory.lastGeneration key)
    (hleases : owners.leases = s.owners.leases)
    (hentries : ∀ sessionId entry, owners.entries.lookup sessionId = some entry →
      s.owners.entries.lookup sessionId = some entry) : Inv ⟨directory, owners, s.handlers⟩ := by
  refine ⟨fun sessionId entry hentry => ?_, fun n lease hn => ?_, fun lease hmem => ?_,
    fun n lease hn => ?_, h.single⟩
  · exact hleases ▸ h.entry sessionId entry (hentries sessionId entry hentry)
  · exact (h.granted n lease hn).trans (hle lease.key)
  · exact (h.renewed lease (hleases ▸ hmem)).trans (hle lease.key)
  · exact hleases ▸ h.apart n lease hn

/-- The lease that is granted is new. -/
theorem acquired (h : Inv s) (n : ℕ) (key : RoomKey) (owner : RuntimeId) :
    Inv ({ s with directory := s.directory.grant key owner }.set n
      (.resolved key (s.directory.lastGeneration key + 1) true)) := by
  have hle := fun key' => s.directory.lastGeneration_le_grant key key' owner
  have hnew : ∀ lease : HuddleLease, lease.generation ≤ s.directory.lastGeneration lease.key →
      (⟨key, s.directory.lastGeneration key + 1⟩ : HuddleLease) ≠ lease := by
    rintro lease hold rfl
    exact absurd hold (Nat.not_succ_le_self _)
  refine ⟨h.entry, fun m lease hm => ?_, fun lease hmem => (h.renewed lease hmem).trans (hle _),
    fun m lease hm => ?_, fun m k lease hm hk => ?_⟩
  · simp only [Joins.set, Function.update_apply] at hm ⊢
    split_ifs at hm
    · obtain rfl := Option.some.inj hm
      exact (Directory.lastGeneration_grant ..).trans (if_pos rfl) |>.ge
    · exact (h.granted m lease hm).trans (hle _)
  · simp only [Joins.set, Function.update_apply] at hm ⊢
    split_ifs at hm
    · obtain rfl := Option.some.inj hm
      exact fun hmem => hnew _ (h.renewed _ hmem) rfl
    · exact h.apart m lease hm
  · simp only [Joins.set, Function.update_apply] at hm hk
    split_ifs at hm hk with hmn hkn hkn
    · exact hmn.trans hkn.symm
    · exact absurd (Option.some.inj hm) (hnew _ (h.granted k lease hk))
    · exact absurd (Option.some.inj hk) (hnew _ (h.granted m lease hm))
    · exact h.single m k lease hm hk

/-- A connection gives its lease to a renewer. -/
theorem spawn (h : Inv s) {n : ℕ} {lease : HuddleLease} (hn : (s.handlers n).lease = some lease)
    {owners : HuddleOwnerRegistry} (hleases : owners.leases = s.owners.leases ++ [lease])
    (hentries : ∀ sessionId entry, owners.entries.lookup sessionId = some entry →
      s.owners.entries.lookup sessionId = some entry ∨
        entry = ⟨s.owners.renewers.length, lease.generation⟩)
    {handler : Handler} (hlease : handler.lease = none) :
    Inv ({ s with owners := owners }.set n handler) := by
  have hheld : ∀ m lease', (({ s with owners := owners }.set n handler).handlers m).lease =
      some lease' → m ≠ n ∧ (s.handlers m).lease = some lease' := by
    intro m lease' hm
    simp only [Joins.set, Function.update_apply] at hm
    split_ifs at hm with hmn
    · exact nomatch hlease.symm.trans hm
    · exact ⟨hmn, hm⟩
  have hlength : s.owners.leases.length = s.owners.renewers.length := List.length_map ..
  refine ⟨fun sessionId entry hentry => ?_,
    fun m lease' hm => h.granted m lease' (hheld m lease' hm).2,
    fun lease' hmem => ?_, fun m lease' hm hmem => ?_, fun m k lease' hm hk =>
      h.single m k lease' (hheld m lease' hm).2 (hheld k lease' hk).2⟩
  · simp only [Joins.set, hleases]
    rcases hentries sessionId entry hentry with hold | rfl
    · obtain ⟨lease', hget, hgeneration⟩ := h.entry sessionId entry hold
      obtain ⟨hlt, -⟩ := List.getElem?_eq_some_iff.mp hget
      exact ⟨lease', (List.getElem?_append_left hlt).trans hget, hgeneration⟩
    · exact ⟨lease, by rw [← hlength, List.getElem?_concat_length], rfl⟩
  · simp only [Joins.set, hleases, List.mem_append, List.mem_singleton] at hmem
    rcases hmem with hmem | rfl
    · exact h.renewed lease' hmem
    · exact h.granted n lease' hn
  · simp only [Joins.set, hleases, List.mem_append, List.mem_singleton] at hmem
    obtain ⟨hmn, hm⟩ := hheld m lease' hm
    rcases hmem with hmem | rfl
    · exact h.apart m lease' hm hmem
    · exact hmn (h.single m n lease' hm hn)

/-- A step keeps the invariant. -/
theorem step (h : Inv s) {label : Label} (hstep : Step localRuntimeId s label s') : Inv s' := by
  have hsame : ∀ (i : ℕ) (f : Renewer → Renewer) (directory : Directory),
      (∀ r, (f r).lease = r.lease) →
      (∀ key, s.directory.lastGeneration key ≤ directory.lastGeneration key) →
      Inv ⟨directory, s.owners.modifyRenewer i f, s.handlers⟩ := fun i f directory hf hle =>
    h.of_le hle (s.owners.leases_modifyRenewer i hf) fun _ _ hentry => hentry
  cases hstep with
  | start n | giveUp | ownedHere | ownedElsewhere | unowned | heldHere | heldElsewhere | ready
  | reuse => exact h.set_of_none _ rfl
  | acquired hn hacquire =>
    rw [Directory.acquire] at hacquire
    split at hacquire
    · cases hacquire
    · cases hacquire
      exact h.acquired _ _ _
  | notReady =>
    refine h.set_of_none _ ?_
    split_ifs
    · rfl
    · rfl
  | lookup hn => exact h.set fun lease hlease => hn ▸ hlease
  | attachExisting hn =>
    exact h.spawn (by rw [hn]; rfl) (s.owners.leases_spawn _ _) (fun _ _ => .inl) rfl
  | @insert n key generation hn =>
    refine h.spawn (by rw [hn]; rfl) (s.owners.leases_install key.2 ⟨key, generation⟩)
      (fun sessionId entry hentry => ?_) rfl
    simp only [HuddleOwnerRegistry.install, HashMap.lookup_insert_eq] at hentry
    split_ifs at hentry
    · exact .inr (Option.some.inj hentry).symm
    · exact .inl hentry
  | leave =>
    refine h.set_of_none _ ?_
    split_ifs
    · rfl
    · rfl
  | release =>
    refine Inv.set_of_none ?_ _ rfl
    exact h.of_le (fun _ => le_rfl) (s.owners.leases_release _ _)
      fun _ _ => s.owners.lookup_of_release
  | lose => exact hsame _ _ _ (fun _ => rfl) fun _ => le_rfl
  | letGo => exact hsame _ _ _ (fun _ => rfl) fun _ => (Directory.lastGeneration_release ..).ge
  | letGoFailed => exact hsame _ _ _ (fun _ => rfl) fun _ => le_rfl
  | expire => exact h.of_le (fun _ => le_rfl) rfl fun _ _ hentry => hentry
  | takeOver =>
    exact h.of_le (fun _ => Directory.lastGeneration_le_grant ..) rfl fun _ _ hentry => hentry

theorem run (h : Inv s) (hrun : ReflTransGen (AnyStep localRuntimeId) s s') : Inv s' := by
  induction hrun with
  | refl => exact h
  | tail _ hstep ih =>
    obtain ⟨_, hstep⟩ := hstep
    exact ih.step hstep

end Inv

/-! ### Signals -/

/-- Renewers keep their leases and their places. -/
theorem Step.leases {label : Label} (hstep : Step localRuntimeId s label s') {i : ℕ}
    {lease : HuddleLease} (hi : s.owners.leases[i]? = some lease) :
    s'.owners.leases[i]? = some lease := by
  obtain ⟨hlt, -⟩ := List.getElem?_eq_some_iff.mp hi
  have hmodify : ∀ j f, (∀ r : Renewer, (f r).lease = r.lease) →
      (s.owners.modifyRenewer j f).leases[i]? = some lease := fun j f hf => by
    rw [s.owners.leases_modifyRenewer j hf, hi]
  cases hstep with
  | attachExisting | insert =>
    refine Eq.trans ?_ hi
    exact (congrArg (·[i]?) (s.owners.leases_spawn _ _)).trans (List.getElem?_append_left hlt)
  | release => exact (congrArg (·[i]?) (s.owners.leases_release _ _)).trans hi
  | lose | letGo | letGoFailed => exact hmodify _ _ fun _ => rfl
  | _ => exact hi

/-- A connection joins in the step that gives it its signal. -/
theorem Step.joined {label : Label} (hstep : Step localRuntimeId s label s') {n : ℕ}
    (hn : label ≠ .attach n) {key : RoomKey} {generation : ℕ} {ownerLost : Option Signal}
    (hjoined : s'.handlers n = .joined key generation ownerLost) :
    s.handlers n = .joined key generation ownerLost := by
  cases hstep with
  | lose | letGo | letGoFailed | expire | takeOver => exact hjoined
  | attachExisting | insert | reuse =>
    simp only [Joins.set, Function.update_apply] at hjoined
    rwa [if_neg fun hnm => hn (congrArg Label.attach hnm.symm)] at hjoined
  | _ =>
    simp only [Joins.set, Function.update_apply] at hjoined
    split_ifs at hjoined
    exact hjoined

namespace Joins

/-- A join stays guarded. -/
theorem Guarded.step {n : ℕ} (h : s.Guarded n) {label : Label}
    (hstep : Step localRuntimeId s label s') (hn : label ≠ .attach n) : s'.Guarded n := by
  intro key generation ownerLost hjoined
  obtain ⟨i, hlost, hi⟩ := h key generation ownerLost (hstep.joined hn hjoined)
  exact ⟨i, hlost, hstep.leases hi⟩

theorem guarded_set_self {n : ℕ} {key : RoomKey} {generation : ℕ} {ownerLost : Option Signal} :
    (s.set n (.joined key generation ownerLost)).Guarded n ↔
      ∃ i, ownerLost = some ⟨i, false⟩ ∧ s.owners.leases[i]? = some ⟨key, generation⟩ := by
  simp only [Guarded, set, Function.update_self, Handler.joined.injEq, and_imp]
  exact ⟨fun h => h _ _ _ rfl rfl rfl, fun h => by rintro _ _ _ rfl rfl rfl; exact h⟩

/-- A signal that is taken from the registry is the right one if the entry is. -/
theorem reuse_guarded_iff (h : Inv s) (key : RoomKey) (generation : ℕ) :
    (∃ i, (s.owners.lostFor key.2).map s.signal = some ⟨i, false⟩ ∧
      s.owners.leases[i]? = some ⟨key, generation⟩) ↔
    ∃ entry r, s.owners.entries.lookup key.2 = some entry ∧ entry.generation = generation ∧
      s.owners.renewers[entry.renewer]? = some r ∧ r.lease.key = key ∧ r.lost = false := by
  have hleases : ∀ i, s.owners.leases[i]? = s.owners.renewers[i]?.map Renewer.lease :=
    fun i => List.getElem?_map ..
  constructor
  · rintro ⟨i, hlost, hi⟩
    obtain ⟨j, hj, hsignal⟩ := Option.map_eq_some_iff.mp hlost
    obtain ⟨entry, hentry, rfl⟩ := Option.map_eq_some_iff.mp hj
    obtain ⟨rfl, hfired⟩ := Signal.mk.inj hsignal
    obtain ⟨lease, hlease, hgeneration⟩ := h.entry key.2 entry hentry
    obtain rfl := Option.some.inj (hi.symm.trans hlease)
    obtain ⟨r, hr, hrlease⟩ := Option.map_eq_some_iff.mp ((hleases _).symm.trans hlease)
    rw [hr] at hfired
    exact ⟨entry, r, hentry, hgeneration.symm, hr, congrArg HuddleLease.key hrlease, hfired⟩
  · rintro ⟨entry, r, hentry, hgeneration, hr, hkey, hlost⟩
    obtain ⟨lease, hlease, hentryGeneration⟩ := h.entry key.2 entry hentry
    obtain rfl : r.lease = lease := by
      rw [hleases, hr] at hlease
      exact Option.some.inj hlease
    refine ⟨entry.renewer, ?_, ?_⟩
    · simp only [HuddleOwnerRegistry.lostFor, hentry, Option.map_some, signal, hr,
        Option.getD_some, hlost]
    · rw [hlease, ← hgeneration, ← hentryGeneration, ← hkey]

end Joins

/-- A signal guards the join that takes it if and only if the registry is in order for it. -/
theorem Inv.guarded_iff (h : Inv s) {n : ℕ} (hstep : Step localRuntimeId s (.attach n) s') :
    s'.Guarded n ↔ s.Careful (.attach n) := by
  cases hstep with
  | @attachExisting _ key generation existing hn hentry =>
    -- The lease that was acquired for the join is not the one that the entry was installed for.
    simp only [Joins.guarded_set_self, Joins.Careful, hn, hentry, reduceCtorEq, iff_false]
    rintro ⟨i, hlost, hi⟩
    obtain ⟨rfl, -⟩ := Signal.mk.inj (Option.some.inj hlost)
    obtain ⟨lease, hlease, -⟩ := h.entry key.2 existing hentry
    obtain ⟨hlt, -⟩ := List.getElem?_eq_some_iff.mp hlease
    rw [HuddleOwnerRegistry.attachExisting, HuddleOwnerRegistry.leases_spawn,
      List.getElem?_append_left hlt] at hi
    exact h.apart n _ (by rw [hn]; rfl) (List.mem_of_getElem? hi)
  | @insert _ key generation hn =>
    simp only [Joins.guarded_set_self, Joins.Careful, hn, iff_true]
    have hlength : s.owners.leases.length = s.owners.renewers.length := List.length_map ..
    refine ⟨s.owners.renewers.length, ?_, ?_⟩
    · simp only [HuddleOwnerRegistry.install, Joins.signal, List.getElem?_eq_none le_rfl,
        Option.map_none, Option.getD_none]
    · exact (congrArg (·[s.owners.renewers.length]?) (s.owners.leases_spawn _ _)).trans
        (hlength ▸ List.getElem?_concat_length)
  | @reuse _ key generation hn =>
    simp only [Joins.guarded_set_self, Joins.Careful, hn]
    exact Joins.reuse_guarded_iff h key generation

/-! ### Runs -/

variable (localRuntimeId) in
/-- A step in which a signal is taken from a registry that is in order. -/
def CarefulStep (s s' : Joins) : Prop := ∃ label, Step localRuntimeId s label s' ∧ s.Careful label

theorem CarefulStep.anyStep (h : CarefulStep localRuntimeId s s') : AnyStep localRuntimeId s s' :=
  h.imp fun _ hstep => hstep.1

/-- In every run of careful steps every local owner watches a live renewer of its own lease, and the
steps of a run in which a join takes a signal that guards it are the careful ones. -/
theorem owner_guarded (localRuntimeId : RuntimeId) (directory : Directory) :
    (∀ s, ReflTransGen (CarefulStep localRuntimeId) (.new directory) s → ∀ n, s.Guarded n) ∧
      ∀ s s' n, ReflTransGen (AnyStep localRuntimeId) (.new directory) s →
        Step localRuntimeId s (.attach n) s' → (s'.Guarded n ↔ s.Careful (.attach n)) := by
  refine ⟨fun s hrun => ?_, fun s s' n hrun hstep =>
    ((Inv.new directory).run hrun).guarded_iff hstep⟩
  have hguarded : Inv s ∧ ∀ n, s.Guarded n := by
    induction hrun with
    | refl => exact ⟨.new directory, fun _ => nofun⟩
    | tail _ hstep ih =>
      obtain ⟨label, hstep, hcareful⟩ := hstep
      refine ⟨ih.1.step hstep, fun n => ?_⟩
      by_cases hn : label = .attach n
      · subst hn
        exact (ih.1.guarded_iff hstep).mpr hcareful
      · exact (ih.2 n).step hstep hn
  exact hguarded.2

/-- A connection acquires the lease of an unowned huddle and installs a renewer for it. -/
theorem owner_guarded_first : ∃ s s' : Joins, s.handlers 0 = .inserting (10, 11) 1 ∧
    s'.handlers 0 = .joined (10, 11) 1 (some ⟨0, false⟩) ∧
    (s'.Guarded 0 ↔ s.Careful (.attach 0)) ∧ ∀ n, s'.Guarded n := by
  have hunowned : ReflTransGen (CarefulStep 1) (.new ⟨∅, ∅⟩) _ :=
    .tail (.single ⟨_, .start 0 (10, 11) rfl, trivial⟩)
      ⟨_, .unowned (n := 0) rfl rfl, trivial⟩
  have hinserting := hunowned.tail ⟨_, .acquired (n := 0) rfl rfl, trivial⟩
    |>.tail ⟨_, .lookup (n := 0) rfl rfl, trivial⟩
  have hguarded := owner_guarded 1 ⟨∅, ∅⟩
  have hrun := hinserting.lift id fun _ _ => CarefulStep.anyStep
  refine ⟨_, _, ?_, ?_, hguarded.2 _ _ 0 hrun (.insert rfl),
    hguarded.1 _ (hinserting.tail ⟨_, .insert rfl, trivial⟩)⟩
  · rfl
  · rfl

/-- The lease is lost and given back, and the next connection acquires it anew. The entry is still
there, and its signal has fired. -/
theorem stale_signal : ∃ s, ReflTransGen (AnyStep 1) (.new ⟨∅, ∅⟩) s ∧
    s.handlers 1 = .joined (10, 11) 2 (some ⟨0, true⟩) ∧ ¬s.Guarded 1 := by
  have hunowned : ReflTransGen (AnyStep 1) (.new ⟨∅, ∅⟩) _ :=
    .tail (.single ⟨_, .start 0 (10, 11) rfl⟩) ⟨_, .unowned (n := 0) rfl rfl⟩
  have hjoined := hunowned.tail ⟨_, .acquired (n := 0) rfl rfl⟩
    |>.tail ⟨_, .lookup (n := 0) rfl rfl⟩ |>.tail ⟨_, .insert (n := 0) rfl⟩
  have hlost := hjoined.tail ⟨_, .lose (i := 0) rfl rfl⟩
    |>.tail ⟨_, .letGo (i := 0) rfl rfl (.inr rfl)⟩
  have hacquired := hlost.tail ⟨_, .start 1 (10, 11) rfl⟩
    |>.tail ⟨_, .unowned (n := 1) rfl rfl⟩ |>.tail ⟨_, .acquired (n := 1) rfl rfl⟩
  refine ⟨_, hacquired.tail ⟨_, .attachExisting (n := 1) rfl rfl⟩, rfl, fun hguarded => ?_⟩
  obtain ⟨i, hsignal, -⟩ := hguarded (10, 11) 2 (some ⟨0, true⟩) rfl
  cases hsignal

end Buzz.Relay.Audio.Owners
