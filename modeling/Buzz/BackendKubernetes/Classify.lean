import Mathlib.Data.List.Infix
import Buzz.BackendKubernetes.Objects

/-!
# Observation and classification

`observe.rs`, `classify.rs` and `gc.rs`: what is decided from objects that were read.

## Main definitions

* `decodeStartup`, `referencedSecret`, `verify`, `condition`.
* `classify`.
* `Gc.plan`.

## Main results

* `classify_eq_delete`: a delete is of the pod observed, which does not run.
* `Gc.mem_plan_secrets`: what a pass of the collection is to delete.
-/

namespace Buzz.BackendKubernetes

/-! ### Observation -/

/-- Uid and resource version of the observation that authorized a deletion. -/
structure Fence where
  uid : String
  resourceVersion : String
  deriving DecidableEq

inductive PullFailure
  | unauthorized
  | manifestUnknown
  | archMismatch
  deriving DecidableEq

inductive Startup
  | started
  | terminated
  | neverStartedRecoverable
  | neverStartedProvablyBroken
  | neverStartedPullFailing (failure : PullFailure)
  deriving DecidableEq

/-- A pod that passed the verification of identity and ownership. -/
structure VerifiedPod where
  name : String
  fence : Fence
  deletionMarked : Bool
  startup : Startup
  recordedIntent : Option Fingerprint
  deriving DecidableEq

/-- The startup, or a state that one more read settles. -/
inductive StartupObservation
  | resolved (startup : Startup)
  | configErrorPendingSecretCheck (secretName : String)
  deriving DecidableEq

def hasMarker : Option StringMap → Bool
  | none => false
  | some labels => labels.lookup LABEL_MANAGED_BY == some MANAGED_BY &&
      labels.lookup LABEL_BINDING_VERSION == some BINDING_VERSION

def annotationMatches (annotations : Option StringMap) (identity : AgentIdentity) : Bool :=
  ((annotations.bind fun a => a.lookup ANNOTATION_PUBKEY_FULL).map
    fun v => v == identity.pubkeyHex).getD false

def secretIsOurs (secret : Secret) (identity : AgentIdentity) : Bool :=
  hasMarker secret.metadata.labels && annotationMatches secret.metadata.annotations identity

/-- The first reference of an `envFrom`, in the order of the containers. -/
def referencedSecret (pod : Pod) : Option String :=
  pod.spec.bind fun containers =>
    (containers.flatMap fun c => c.envFrom.getD []).findSome? EnvFromSource.secretRef

/-- `str::contains`. -/
def containsText (text part : String) : Bool := decide (part.toList <:+: text.toList)

def classifyPullFailure (message : String) : Option PullFailure :=
  let m := message.toLower
  if containsText m "401" || containsText m "unauthorized" || containsText m "403" ||
      containsText m "denied" || containsText m "authentication required" then
    some .unauthorized
  else if containsText m "manifest unknown" || containsText m "not found" ||
      containsText m "manifest_unknown" || containsText m "repository does not exist" then
    some .manifestUnknown
  else if containsText m "no match for platform" || containsText m "no matching manifest" then
    some .archMismatch
  else none

/-- The state of the agent's container. -/
def agentState (pod : Pod) : Option ContainerState :=
  ((pod.status.bind (·.containerStatuses)).bind fun statuses =>
    statuses.find? (·.name = CONTAINER_NAME)).bind (·.state)

def decodeWaiting (pod : Pod) (waiting : Waiting) : StartupObservation :=
  let reason := waiting.reason.getD ""
  let message := waiting.message.getD ""
  if reason = "InvalidImageName" then .resolved .neverStartedProvablyBroken
  else if reason = "ErrImagePull" ∨ reason = "ImagePullBackOff" then
    match classifyPullFailure message with
    | some failure => .resolved (.neverStartedPullFailing failure)
    | none => .resolved .neverStartedRecoverable
  else if reason = "CreateContainerConfigError" then
    match referencedSecret pod with
    | some secretName => .configErrorPendingSecretCheck secretName
    | none => .resolved .neverStartedRecoverable
  else .resolved .neverStartedRecoverable

/-- Without a state of the container, a terminal phase still means that the pod is done. -/
def decodePhase (pod : Pod) : StartupObservation :=
  let phase := pod.status.bind (·.phase)
  if phase = some "Succeeded" ∨ phase = some "Failed" then .resolved .terminated
  else .resolved .neverStartedRecoverable

def decodeStartup (pod : Pod) : StartupObservation :=
  match agentState pod with
  | none => decodePhase pod
  | some state =>
    if state.running then .resolved .started
    else if state.terminated.isSome then .resolved .terminated
    else match state.waiting with
      | some waiting => decodeWaiting pod waiting
      | none => decodePhase pod

def verify (pod : Pod) (identity : AgentIdentity) (startup : Startup) : Option VerifiedPod :=
  if !hasMarker pod.metadata.labels then none
  else if !annotationMatches pod.metadata.annotations identity then none
  else do
    let name ← pod.metadata.name
    let uid ← pod.metadata.uid
    let resourceVersion ← pod.metadata.resourceVersion
    return {
      name
      fence := ⟨uid, resourceVersion⟩
      deletionMarked := pod.metadata.deletionTimestamp.isSome
      startup
      recordedIntent :=
        pod.metadata.annotations.bind fun a => a.lookup ANNOTATION_CREATE_INTENT }

/-- The agent's container runs. -/
def agentRunning (pod : Pod) : Bool := (agentState pod).any (·.running)

/-- The marker and the full key of the identity. -/
def Owned (pod : Pod) (identity : AgentIdentity) : Prop :=
  hasMarker pod.metadata.labels = true ∧ annotationMatches pod.metadata.annotations identity = true

def Pod.fenced (pod : Pod) (fence : Fence) : Prop :=
  pod.metadata.uid = some fence.uid ∧ pod.metadata.resourceVersion = some fence.resourceVersion

/-- What a verified pod records of the pod that was read. -/
structure Verified (pod : Pod) (identity : AgentIdentity) (startup : Startup) (v : VerifiedPod) :
    Prop where
  owned : Owned pod identity
  name : pod.metadata.name = some v.name
  fenced : pod.fenced v.fence
  deletionMarked : v.deletionMarked = pod.metadata.deletionTimestamp.isSome
  startup : v.startup = startup
  recordedIntent : v.recordedIntent =
    pod.metadata.annotations.bind fun a => a.lookup ANNOTATION_CREATE_INTENT

section

variable {pod : Pod} {identity : AgentIdentity} {startup : Startup} {v : VerifiedPod}

theorem verify_eq_some (h : verify pod identity startup = some v) :
    Verified pod identity startup v := by
  rw [verify] at h
  split_ifs at h with hmarker hannotation
  rw [Bool.not_eq_true', Bool.not_eq_false] at hmarker hannotation
  simp only [Option.bind_eq_bind, Option.bind_eq_some_iff, Option.pure_def, Option.some.injEq] at h
  obtain ⟨name, hname, uid, huid, version, hversion, rfl⟩ := h
  exact ⟨⟨hmarker, hannotation⟩, hname, ⟨huid, hversion⟩, rfl, rfl, rfl⟩

/-- An owned pod of the API, which has a name, a uid and a version, is verified. -/
theorem verify_isSome {name : String} {fence : Fence} (h : Owned pod identity)
    (hname : pod.metadata.name = some name) (hfence : pod.fenced fence) :
    (verify pod identity startup).isSome = true := by
  simp only [verify, h.1, h.2, hname, hfence.1, hfence.2, Bool.not_true, Bool.false_eq_true,
    if_false]
  rfl

theorem decodeStartup_eq_started (h : decodeStartup pod = .resolved .started) :
    agentRunning pod = true := by
  have hphase : decodePhase pod ≠ .resolved .started := by
    rw [decodePhase]
    split_ifs <;> simp
  rw [decodeStartup] at h
  cases hstate : agentState pod with
  | none =>
    rw [hstate] at h
    exact absurd h hphase
  | some state =>
    rw [hstate] at h
    dsimp only at h
    by_cases hrunning : state.running = true
    · rw [agentRunning, hstate]
      exact hrunning
    · rw [if_neg hrunning] at h
      by_cases hterminated : state.terminated.isSome = true
      · rw [if_pos hterminated] at h
        cases h
      rw [if_neg hterminated] at h
      cases hwaiting : state.waiting with
      | none =>
        rw [hwaiting] at h
        exact absurd h hphase
      | some waiting =>
        rw [hwaiting] at h
        refine absurd h ?_
        dsimp only [decodeWaiting]
        split_ifs
        · simp
        · split <;> simp
        · split <;> simp
        · simp

theorem decodeStartup_of_running (h : agentRunning pod = true) :
    decodeStartup pod = .resolved .started := by
  rw [agentRunning, Option.any_eq_true] at h
  obtain ⟨state, hstate, hrunning⟩ := h
  rw [decodeStartup, hstate]
  exact if_pos hrunning

end

def pullFailureMessage (failure : PullFailure) (image : String) : String :=
  let registry := String.ofList (image.toList.takeWhile (· ≠ '/'))
  match failure with
  | .unauthorized =>
    s!"the cluster is not authorized to pull {image} from {registry}. This pull retries " ++
      "indefinitely and will not succeed on its own: grant the cluster's nodes access to that " ++
      "registry."
  | .manifestUnknown =>
    s!"{registry} has no image at {image}. Check the digest and repository."
  | .archMismatch =>
    s!"{image} has no variant for the architecture of the nodes it was scheduled on."

/-- The first condition of the pod that is false. -/
def falseCondition (status : PodStatus) : Option String :=
  (status.conditions.bind fun conditions => conditions.find? (·.status = "False")).map fun c =>
    let detail := ": ".intercalate
      ([c.reason.getD "", c.message.getD ""].filter fun s => !s.isEmpty)
    if detail.isEmpty then s!"pod condition {c.type} is false"
    else s!"pod condition {c.type} is false: {detail}"

/-- The latest condition to report of a pod, without the messages of its container. -/
def condition (pod : Pod) : Option String :=
  pod.status.bind fun status =>
    let waiting := ((agentState pod).bind (·.waiting)).bind (·.reason)
    let terminated := (agentState pod).bind (·.terminated)
    match waiting, terminated with
    | some reason, _ => some s!"the container is waiting, reason {reason}"
    | none, some ⟨exitCode, some reason⟩ =>
      some s!"the container exited with code {exitCode} ({reason})"
    | none, some ⟨exitCode, none⟩ => some s!"the container exited with code {exitCode}"
    | none, none =>
      (falseCondition status).orElse fun _ => status.phase.map fun p => s!"the pod is {p}"

/-! ### Classification -/

inductive Action
  | create
  | delete (name : String) (fence : Fence)
  | awaitDisappearance (name : String)
  | noOp (agentId : String)
  | observe (name : String)
  | report (name : String) (failure : PullFailure)
  deriving DecidableEq

/-- The ordered rules. -/
def classify (observed : Option VerifiedPod) (desired : Fingerprint) : Action :=
  match observed with
  | none => .create
  | some pod =>
    if pod.deletionMarked then .awaitDisappearance pod.name
    else match pod.startup with
      | .started => .noOp pod.name
      | .terminated => .delete pod.name pod.fence
      | .neverStartedProvablyBroken => .delete pod.name pod.fence
      | .neverStartedPullFailing failure => .report pod.name failure
      | .neverStartedRecoverable =>
        if pod.recordedIntent = some desired then .observe pod.name
        else .delete pod.name pod.fence

section

variable {observed : Option VerifiedPod} {desired : Fingerprint} {name : String} {fence : Fence}

theorem classify_eq_create (h : classify observed desired = .create) : observed = none := by
  cases observed with
  | none => rfl
  | some v =>
    simp only [classify] at h
    by_cases hmarked : v.deletionMarked = true
    · rw [if_pos hmarked] at h
      cases h
    · rw [if_neg hmarked] at h
      cases hstartup : v.startup <;> rw [hstartup] at h <;> try cases h
      dsimp only at h
      split_ifs at h

theorem classify_eq_noOp (h : classify observed desired = .noOp name) :
    ∃ v, observed = some v ∧ v.name = name ∧ v.deletionMarked = false ∧ v.startup = .started := by
  cases observed with
  | none => cases h
  | some v =>
    simp only [classify] at h
    by_cases hmarked : v.deletionMarked = true
    · rw [if_pos hmarked] at h
      cases h
    · rw [if_neg hmarked] at h
      cases hstartup : v.startup <;> rw [hstartup] at h <;> try cases h
      · exact ⟨v, rfl, rfl, Bool.eq_false_iff.mpr hmarked, hstartup⟩
      · dsimp only at h
        split_ifs at h

/-- A delete is of the pod observed: it is terminated or proven broken, or it never started and
its intent is another. -/
theorem classify_eq_delete (h : classify observed desired = .delete name fence) :
    ∃ v, observed = some v ∧ v.name = name ∧ v.fence = fence ∧
      (v.startup = .terminated ∨ v.startup = .neverStartedProvablyBroken ∨
        v.startup = .neverStartedRecoverable ∧ v.recordedIntent ≠ some desired) := by
  cases observed with
  | none => cases h
  | some v =>
    simp only [classify] at h
    by_cases hmarked : v.deletionMarked = true
    · rw [if_pos hmarked] at h
      cases h
    · rw [if_neg hmarked] at h
      cases hstartup : v.startup <;> rw [hstartup] at h <;> try cases h
      · exact ⟨v, rfl, rfl, rfl, .inl hstartup⟩
      · dsimp only at h
        split_ifs at h with hintent
        cases h
        exact ⟨v, rfl, rfl, rfl, .inr (.inr ⟨hstartup, hintent⟩)⟩
      · exact ⟨v, rfl, rfl, rfl, .inr (.inl hstartup)⟩

end

/-! ### Garbage collection -/

def OPERATION_DEADLINE_SECS : ℤ := 600

def ORPHAN_SECRET_MIN_AGE_SECS : ℤ := 2 * OPERATION_DEADLINE_SECS

/-- `num_seconds` of a duration. -/
def numSeconds (nanoseconds : ℤ) : ℤ := nanoseconds.tdiv 1000000000

structure GcPlan where
  pods : List String
  secrets : List String
  deriving DecidableEq

namespace Gc

/-- The pods that take part. -/
def ours (identity : AgentIdentity) (pods : List Pod) : List Pod :=
  pods.filter fun p => (verify p identity .started).isSome

def doomedNames (identity : AgentIdentity) (pods : List Pod) (terminated : Pod → Bool) :
    List String :=
  ((ours identity pods).filter terminated).filterMap (·.metadata.name)

/-- The Secrets that a pod which stays refers to. -/
def protectedSecrets (identity : AgentIdentity) (pods : List Pod) (terminated : Pod → Bool) :
    List String :=
  ((ours identity pods).filter fun p =>
    !(doomedNames identity pods terminated).contains (p.metadata.name.getD "")).filterMap
      referencedSecret

/-- The body of the sweep. -/
def sweep (identity : AgentIdentity) (guarded : List String) (now : ℤ) (planned : List String)
    (secret : Secret) : List String :=
  if !secretIsOurs secret identity then planned
  else match secret.metadata.name with
    | none => planned
    | some name =>
      if guarded.contains name || planned.contains name then planned
      else match secret.metadata.creationTimestamp with
        | none => planned
        | some created =>
          if ORPHAN_SECRET_MIN_AGE_SECS ≤ numSeconds (now - created) then planned ++ [name]
          else planned

def plan (identity : AgentIdentity) (pods : List Pod) (secrets : List Secret)
    (terminated : Pod → Bool) (now : Option ℤ) : GcPlan where
  pods := doomedNames identity pods terminated
  secrets :=
    let doomed := ((ours identity pods).filter terminated).filterMap referencedSecret
    match now with
    | none => doomed
    | some now =>
      secrets.foldl (sweep identity (protectedSecrets identity pods terminated) now) doomed

variable {identity : AgentIdentity} {pods : List Pod} {secrets : List Secret}
  {terminated : Pod → Bool} {now : Option ℤ} {name : String}

theorem mem_ours {p : Pod} : p ∈ ours identity pods ↔
    p ∈ pods ∧ (verify p identity .started).isSome = true := List.mem_filter

/-- A Secret that the sweep collects: ours, of age, and not referred to by a pod that stays. -/
structure Orphan (identity : AgentIdentity) (guarded : List String) (now : ℤ) (name : String)
    (secret : Secret) : Prop where
  ours : secretIsOurs secret identity = true
  name_eq : secret.metadata.name = some name
  unguarded : name ∉ guarded
  age : ∃ created, secret.metadata.creationTimestamp = some created ∧
    ORPHAN_SECRET_MIN_AGE_SECS ≤ numSeconds (now - created)

theorem mem_sweep {guarded planned : List String} {now : ℤ} {secret : Secret}
    (h : name ∈ sweep identity guarded now planned secret) :
    name ∈ planned ∨ Orphan identity guarded now name secret := by
  rw [sweep] at h
  split_ifs at h with hours
  · exact .inl h
  · cases hname : secret.metadata.name with
    | none =>
      rw [hname] at h
      exact .inl h
    | some n =>
      rw [hname] at h
      dsimp only at h
      split_ifs at h with hguarded
      · exact .inl h
      · cases hcreated : secret.metadata.creationTimestamp with
        | none =>
          rw [hcreated] at h
          exact .inl h
        | some created =>
          rw [hcreated] at h
          dsimp only at h
          split_ifs at h with hage
          · rcases List.mem_append.mp h with h | h
            · exact .inl h
            · obtain rfl := List.mem_singleton.mp h
              rw [Bool.or_eq_true, not_or, List.contains_iff_mem] at hguarded
              exact .inr ⟨by simpa using hours, hname, hguarded.1, created, hcreated, hage⟩
          · exact .inl h

theorem mem_foldl_sweep {guarded planned : List String} {now : ℤ}
    (h : name ∈ secrets.foldl (sweep identity guarded now) planned) :
    name ∈ planned ∨ ∃ secret ∈ secrets, Orphan identity guarded now name secret := by
  induction secrets generalizing planned with
  | nil => exact .inl h
  | cons secret secrets ih =>
    rcases ih h with h | ⟨s, hs, horphan⟩
    · exact (mem_sweep h).imp_right fun h => ⟨secret, List.mem_cons_self, h⟩
    · exact .inr ⟨s, List.mem_cons_of_mem secret hs, horphan⟩

/-- A Secret that a pass is to delete: of a pod that goes with it, or an orphan. -/
theorem mem_plan_secrets (h : name ∈ (plan identity pods secrets terminated now).secrets) :
    (∃ p ∈ ours identity pods, terminated p = true ∧ referencedSecret p = some name) ∨
      ∃ t, now = some t ∧ ∃ secret ∈ secrets,
        Orphan identity (protectedSecrets identity pods terminated) t name secret := by
  have hdoomed (h : name ∈ ((ours identity pods).filter terminated).filterMap referencedSecret) :
      ∃ p ∈ ours identity pods, terminated p = true ∧ referencedSecret p = some name := by
    obtain ⟨p, hp, hname⟩ := List.mem_filterMap.mp h
    obtain ⟨hours, hterminated⟩ := List.mem_filter.mp hp
    exact ⟨p, hours, hterminated, hname⟩
  cases now with
  | none => exact .inl (hdoomed h)
  | some t => exact (mem_foldl_sweep h).imp hdoomed fun h => ⟨t, rfl, h⟩

end Gc

end Buzz.BackendKubernetes
