import Mathlib.Data.Int.Notation
import Mathlib.Data.Nat.Notation
import Mathlib.Data.String.Basic

/-!
# Names and objects

`naming.rs`, `intent.rs` and `pod.rs` of the Kubernetes backend, and what the backend reads of the
objects of the API. Maps of strings are association lists; the hash of a create intent is a
parameter. Times are nanoseconds.

## Main definitions

* `AgentIdentity` and the names derived from it.
* `Pod`, `Secret`, `buildPod`, `buildSecret`.
* `IntentTemplate`.

## Main results

* `AgentIdentity.secretName_injective`: generations have Secrets of different names.
-/

namespace Buzz.BackendKubernetes

abbrev StringMap := List (String × String)

/-! ### Naming -/

def MANAGED_BY : String := "buzz-backend-kubernetes"
def LABEL_MANAGED_BY : String := "app.kubernetes.io/managed-by"
def LABEL_BINDING_VERSION : String := "buzz.block.xyz/binding-version"
def BINDING_VERSION : String := "1"
def LABEL_AGENT_PUBKEY : String := "buzz.block.xyz/agent-pubkey"
def ANNOTATION_PUBKEY_FULL : String := "buzz.block.xyz/agent-pubkey-full"
def ANNOTATION_CREATE_INTENT : String := "buzz.block.xyz/create-intent"
def ANNOTATION_IMAGE : String := "buzz.block.xyz/image"
def START_NONCE_KEY : String := "BUZZ_MANAGED_AGENT_START_NONCE"

/-- An identity that the provider derived itself. -/
structure AgentIdentity where
  pubkeyHex : String
  deriving DecidableEq

/-- `s[..n]`. -/
def leading (s : String) (n : ℕ) : String := String.ofList (s.toList.take n)

namespace AgentIdentity

variable (identity : AgentIdentity)

def labelPubkey : String := leading identity.pubkeyHex 32

/-- The deterministic name of the pod, which is the `agent_id`. -/
def podName : String := "buzz-agent-" ++ leading identity.pubkeyHex 12

def secretName (generation : String) : String :=
  "buzz-agent-" ++ leading identity.pubkeyHex 12 ++ "-" ++ generation

/-- The labels that a list requires. -/
def selector : StringMap :=
  [(LABEL_AGENT_PUBKEY, identity.labelPubkey), (LABEL_MANAGED_BY, MANAGED_BY)]

def labels : StringMap :=
  [(LABEL_AGENT_PUBKEY, identity.labelPubkey), (LABEL_MANAGED_BY, MANAGED_BY),
    (LABEL_BINDING_VERSION, BINDING_VERSION)]

theorem secretName_injective {g g' : String} (h : identity.secretName g = identity.secretName g') :
    g = g' :=
  String.append_right_inj _ |>.mp h

end AgentIdentity

/-! ### Objects -/

structure ObjectMeta where
  name : Option String := none
  labels : Option StringMap := none
  annotations : Option StringMap := none
  uid : Option String := none
  resourceVersion : Option String := none
  creationTimestamp : Option ℤ := none
  deletionTimestamp : Option ℤ := none
  deriving DecidableEq

structure Terminated where
  exitCode : ℤ
  reason : Option String
  deriving DecidableEq

structure Waiting where
  reason : Option String
  message : Option String
  deriving DecidableEq

structure ContainerState where
  running : Bool := false
  terminated : Option Terminated := none
  waiting : Option Waiting := none
  deriving DecidableEq

structure ContainerStatus where
  name : String
  state : Option ContainerState
  deriving DecidableEq

structure PodCondition where
  type : String
  status : String
  reason : Option String
  message : Option String
  deriving DecidableEq

structure PodStatus where
  phase : Option String := none
  containerStatuses : Option (List ContainerStatus) := none
  conditions : Option (List PodCondition) := none
  deriving DecidableEq

/-- A source of environment variables, by the name of its Secret. -/
structure EnvFromSource where
  secretRef : Option String
  deriving DecidableEq

structure Container where
  name : String
  image : Option String
  envFrom : Option (List EnvFromSource)
  deriving DecidableEq

structure Pod where
  metadata : ObjectMeta
  /-- The containers of the spec. -/
  spec : Option (List Container) := none
  status : Option PodStatus := none
  deriving DecidableEq

structure Secret where
  metadata : ObjectMeta
  stringData : StringMap
  immutable : Bool
  deriving DecidableEq

/-! ### Construction -/

structure Resources where
  cpuRequest : String
  memoryRequest : String
  cpuLimit : String
  memoryLimit : String
  deriving DecidableEq

structure ProviderConfig where
  ns : String
  image : String
  resources : Resources
  serviceAccount : Option String
  deriving DecidableEq

abbrev Fingerprint := String

/-- The create intent, without the values of Secrets and without the generation. -/
structure IntentTemplate where
  templateVersion : ℕ
  ns : String
  image : String
  resources : Resources
  serviceAccount : Option String
  restartPolicy : String
  terminationGracePeriodSeconds : ℕ
  envKeys : List String
  envFromSecret : String
  workspaceMountPath : String
  runAsUser : ℕ
  runAsGroup : ℕ
  deriving DecidableEq

def CONTAINER_NAME : String := "agent"

def buildSecret (identity : AgentIdentity) (generation : String) (env : StringMap) : Secret where
  metadata :=
    { name := some (identity.secretName generation)
      labels := some identity.labels
      annotations := some [(ANNOTATION_PUBKEY_FULL, identity.pubkeyHex)] }
  stringData := env
  immutable := true

def buildPod (identity : AgentIdentity) (cfg : ProviderConfig) (generation : String)
    (fingerprint : Fingerprint) : Pod where
  metadata :=
    { name := some identity.podName
      labels := some identity.labels
      annotations := some [(ANNOTATION_PUBKEY_FULL, identity.pubkeyHex),
        (ANNOTATION_CREATE_INTENT, fingerprint), (ANNOTATION_IMAGE, cfg.image)] }
  spec := some [{
    name := CONTAINER_NAME
    image := some cfg.image
    envFrom := some [⟨some (identity.secretName generation)⟩] }]

/-- `intent_template`, of the keys of the environment. -/
def intentTemplate (cfg : ProviderConfig) (envKeys : List String) : IntentTemplate where
  templateVersion := 1
  ns := cfg.ns
  image := cfg.image
  resources := cfg.resources
  serviceAccount := cfg.serviceAccount
  restartPolicy := "Never"
  terminationGracePeriodSeconds := 60
  envKeys := envKeys.mergeSort fun a b => decide (a ≤ b)
  envFromSecret := "<per-attempt-secret>"
  workspaceMountPath := "/home/agent"
  runAsUser := 10001
  runAsGroup := 10001

/-- `BTreeMap::insert`. -/
def StringMap.insert (m : StringMap) (key value : String) : StringMap :=
  (key, value) :: m.filter (·.1 ≠ key)

end Buzz.BackendKubernetes
