import Buzz.BackendKubernetes.Classify
import Buzz.Library.Interaction

/-!
# The deploy loop

`reconcile.rs`: a deploy as a program that calls the substrate. A read of a pod by its name carries
the function that makes it, which its answer does not depend on. The number of passes of each loop
is bounded by a fuel, beyond which the run is cut short; what is logged is left out.

## Main definitions

* `Call`, `Answer`: the substrate, the clock and the source of generations.
* `settle`, `observePod`, `tryPreflightGc`, `adoptWinner`, `deploy`.
-/

namespace Buzz.BackendKubernetes

open Library

inductive CreateOutcome
  | created
  | alreadyExists
  deriving DecidableEq

inductive DeleteOutcome
  | accepted
  | notFound
  | preconditionFailed
  deriving DecidableEq

/-- The function that reads a pod by its name. -/
inductive Reader
  | gc
  | observe
  | adopt
  | await
  | condition
  deriving DecidableEq

inductive Call
  | ensureNamespace (ns : String)
  | listPods (selector : StringMap)
  | listSecrets (selector : StringMap)
  | secretExists (name : String)
  | createSecret (secret : Secret)
  | createPod (pod : Pod)
  | deletePod (name : String) (fence : Fence)
  | deleteSecret (name : String)
  | getPod (reader : Reader) (name : String)
  | sleep
  | elapsed
  | newGeneration
  deriving DecidableEq

def Answer : Call → Type
  | .ensureNamespace _ => Except String PUnit
  | .listPods _ => Except String (List Pod × Option ℤ)
  | .listSecrets _ => Except String (List Secret)
  | .secretExists _ => Except String Bool
  | .createSecret _ => Except String PUnit
  | .createPod _ => Except String CreateOutcome
  | .deletePod _ _ => Except String DeleteOutcome
  | .deleteSecret _ => Except String PUnit
  | .getPod _ _ => Except String (Option Pod)
  | .sleep => PUnit
  | .elapsed => ℕ
  | .newGeneration => String

abbrev Deploying := Interaction Answer String

def ensureNamespace (ns : String) : Deploying PUnit := .call (.ensureNamespace ns) .done
def listPods (selector : StringMap) : Deploying (List Pod × Option ℤ) :=
  .call (.listPods selector) .done
def listSecrets (selector : StringMap) : Deploying (List Secret) :=
  .call (.listSecrets selector) .done
def secretExists (name : String) : Deploying Bool := .call (.secretExists name) .done
def createSecret (secret : Secret) : Deploying PUnit := .call (.createSecret secret) .done
def createPod (pod : Pod) : Deploying CreateOutcome := .call (.createPod pod) .done
def deletePod (name : String) (fence : Fence) : Deploying DeleteOutcome :=
  .call (.deletePod name fence) .done
def deleteSecret (name : String) : Deploying PUnit := .call (.deleteSecret name) .done
def getPod (reader : Reader) (name : String) : Deploying (Option Pod) :=
  .call (.getPod reader name) .done
def sleep : Deploying PUnit := .call .sleep fun a => .done (.ok a)
def elapsed : Deploying ℕ := .call .elapsed fun a => .done (.ok a)
def newGeneration : Deploying String := .call .newGeneration fun a => .done (.ok a)

/-- The deadline of the operation, in nanoseconds. -/
def DEADLINE : ℕ := 600 * 1000000000

def settle (pod : Pod) : Deploying Startup :=
  match decodeStartup pod with
  | .resolved startup => pure startup
  | .configErrorPendingSecretCheck secretName => do
    if ← secretExists secretName then return .neverStartedRecoverable
    else return .neverStartedProvablyBroken

def observePod (identity : AgentIdentity) : Deploying (Option VerifiedPod) := do
  match ← getPod .observe identity.podName with
  | none => return none
  | some pod =>
    let startup ← settle pod
    return verify pod identity startup

def latestCondition (identity : AgentIdentity) : Deploying String := do
  match ← (getPod .condition identity.podName).attempt with
  | .ok (some pod) => return (condition pod).getD "no condition reported by the cluster"
  | .ok none => return "the pod no longer exists"
  | .error e => return s!"the pod's condition could not be read: {e}"

/-! ### The preflight collection -/

/-- The names of the pods that are settled as terminated. -/
def terminatedNames : List Pod → Deploying (List String)
  | [] => return []
  | pod :: pods => do
    let startup ← settle pod
    let names ← terminatedNames pods
    if startup = .terminated then return pod.metadata.name.toList ++ names
    else return names

def isTerminated (terminated : List String) (pod : Pod) : Bool :=
  (pod.metadata.name.map fun n => terminated.contains n).getD false

theorem isTerminated_eq_true {terminated : List String} {pod : Pod} :
    isTerminated terminated pod = true ↔ ∃ n ∈ terminated, pod.metadata.name = some n := by
  rw [isTerminated]
  cases pod.metadata.name with
  | none => simp
  | some name => simp

/-- The body of the loop over the pods: the re-read fences the delete. -/
def collectPod (name : String) : Deploying PUnit := do
  match ← getPod .gc name with
  | none => return
  | some pod =>
    match pod.metadata.uid, pod.metadata.resourceVersion with
    | some uid, some resourceVersion =>
      let startup ← settle pod
      if startup = .terminated then
        let _ ← (deletePod name ⟨uid, resourceVersion⟩).attempt
        return
      else return
    | _, _ => return

def collectSecret (name : String) : Deploying PUnit := do
  let _ ← (deleteSecret name).attempt
  return

def tryPreflightGc (identity : AgentIdentity) : Deploying PUnit := do
  let (pods, serverNow) ← listPods identity.selector
  let secrets ← listSecrets identity.selector
  let terminated ← terminatedNames pods
  let plan := Gc.plan identity pods secrets (isTerminated terminated) serverNow
  plan.pods.forM collectPod
  plan.secrets.forM collectSecret

def preflightGc (identity : AgentIdentity) : Deploying PUnit := do
  let _ ← (tryPreflightGc identity).attempt
  return

/-! ### Disappearance and adoption -/

def awaitDisappearance (name : String) : ℕ → Deploying PUnit
  | 0 => .cut
  | fuel + 1 => do
    let t ← elapsed
    if t < DEADLINE then
      match ← getPod .await name with
      | none => return
      | some _ =>
        sleep
        awaitDisappearance name fuel
    else .fail s!"timed out after 600s waiting for {name} to finish terminating"

def secretIsReferenced (identity : AgentIdentity) (secret : String) : Deploying Bool := do
  let (pods, _) ← listPods identity.selector
  return (pods.filterMap referencedSecret).contains secret

def dropOwnSecret (identity : AgentIdentity) (secret : String) : Deploying PUnit := do
  match ← (secretIsReferenced identity secret).attempt with
  | .ok false =>
    let _ ← (deleteSecret secret).attempt
    return
  | .ok true => return
  | .error _ => return

/-- The loop of `adopt_winner`. -/
def awaitWinner (identity : AgentIdentity) : ℕ → Deploying String
  | 0 => .cut
  | fuel + 1 => do
    let t ← elapsed
    if DEADLINE ≤ t then
      let latest ← latestCondition identity
      .fail (s!"startup not confirmed within 600s for {identity.podName} (another deploy of " ++
        s!"this agent created it): {latest}")
    else
      match ← observePod identity with
      | none =>
        sleep
        awaitWinner identity fuel
      | some pod =>
        if pod.startup = .started then return pod.name
        else if pod.deletionMarked then
          .fail (s!"{identity.podName} was created by another deploy of this agent and is " ++
            "already being deleted; try again")
        else if pod.startup = .terminated ∨ pod.startup = .neverStartedProvablyBroken then
          let latest ← latestCondition identity
          .fail (s!"{identity.podName} was created by another deploy of this agent and did not " ++
            s!"start: {latest}")
        else
          sleep
          awaitWinner identity fuel

def adoptWinner (identity : AgentIdentity) (ownSecret : String) (fuel : ℕ) : Deploying String := do
  match ← getPod .adopt identity.podName with
  | none =>
    dropOwnSecret identity ownSecret
    awaitWinner identity fuel
  | some pod =>
    let startup ← settle pod
    if (verify pod identity startup).isNone then
      dropOwnSecret identity ownSecret
      .fail (s!"a pod named {identity.podName} already exists in this namespace but is not " ++
        "managed by this provider for this agent (it lacks the management marker or carries a " ++
        "different agent identity). Remove it, or deploy this agent to a different namespace.")
    else
      dropOwnSecret identity ownSecret
      awaitWinner identity fuel

/-! ### Deploy -/

/-- An attempt: the name of its Secret, and what became of its pod. -/
def createAttempt (identity : AgentIdentity) (cfg : ProviderConfig) (env : StringMap)
    (desired : Fingerprint) : Deploying (String × CreateOutcome) := do
  let generation ← newGeneration
  createSecret (buildSecret identity generation (env.insert START_NONCE_KEY generation))
  let outcome ← createPod (buildPod identity cfg generation desired)
  return (identity.secretName generation, outcome)

/-- The loop, with the flag that this call has created a pod. -/
def deployLoop (identity : AgentIdentity) (cfg : ProviderConfig) (env : StringMap)
    (desired : Fingerprint) : ℕ → Bool → Deploying String
  | 0, _ => .cut
  | fuel + 1, createdThisCall => do
    let t ← elapsed
    if DEADLINE ≤ t then
      let latest ← latestCondition identity
      .fail s!"startup not confirmed within 600s for {identity.podName}: {latest}"
    else
      let observed ← observePod identity
      match classify observed desired with
      | .noOp agentId => return agentId
      | .observe _ =>
        sleep
        deployLoop identity cfg env desired fuel createdThisCall
      | .report name failure =>
        .fail s!"{name} did not start: {pullFailureMessage failure cfg.image}"
      | .awaitDisappearance name =>
        awaitDisappearance name fuel
        deployLoop identity cfg env desired fuel createdThisCall
      | .delete name fence =>
        if createdThisCall then
          let latest ← latestCondition identity
          .fail (s!"{name} was created by this deploy and did not stay running: {latest}. Not " ++
            "retrying in this call — an immediate exit recurs until its cause is fixed. Check " ++
            "the agent's configuration and press Start to try again.")
        else
          match ← deletePod name fence with
          | .accepted =>
            awaitDisappearance name fuel
            deployLoop identity cfg env desired fuel createdThisCall
          | .notFound =>
            awaitDisappearance name fuel
            deployLoop identity cfg env desired fuel createdThisCall
          | .preconditionFailed =>
            sleep
            deployLoop identity cfg env desired fuel createdThisCall
      | .create =>
        match ← createAttempt identity cfg env desired with
        | (_, .created) =>
          sleep
          deployLoop identity cfg env desired fuel true
        | (secretName, .alreadyExists) => adoptWinner identity secretName fuel

/-- What one deploy is called with. -/
structure DeployArgs where
  identity : AgentIdentity
  cfg : ProviderConfig
  env : StringMap

/-- The create intent of a deploy, under the hash of intents. -/
def DeployArgs.desired (fingerprint : IntentTemplate → Fingerprint) (args : DeployArgs) :
    Fingerprint :=
  fingerprint (intentTemplate args.cfg (args.env.map Prod.fst))

def deploy (fingerprint : IntentTemplate → Fingerprint) (args : DeployArgs) (fuel : ℕ) :
    Deploying String := do
  ensureNamespace args.cfg.ns
  preflightGc args.identity
  deployLoop args.identity args.cfg args.env (args.desired fingerprint) fuel false

end Buzz.BackendKubernetes
