import Mathlib.Data.Set.Basic
import Buzz.BackendKubernetes.Justified

/-!
# Deploys on a cluster

The namespace that deploys share, as the API server keeps it, and any number of deploys whose calls
it answers one at a time, between changes by others. A call that is answered with an error may have
had its effect; a deploy that makes no further call has crashed.

## Main definitions

* `Cluster`, `Cluster.Answers`: the state, and what a call does to it.
* `Setting`: the deploys, and what others may do.
* `Reachable`: the states of a cluster with its deploys.

## Main results

* `Cluster.Answers.versioned`: the server gives a new version to whatever it writes.
* `Reachable.ran`, `Reachable.named`: what a deploy has seen is a run of its program.
* `Reachable.justified`: every call is justified by what its deploy has seen.
-/

namespace Buzz.BackendKubernetes

open Library Interaction

/-- The state of a namespace, the versions that its pods have had, and when the last Secret of each
name was created. -/
structure Cluster where
  now : ℤ
  pods : String → Option Pod
  secrets : String → Option Secret
  spent : List Fence
  minted : String → Option ℤ

/-- A label selector. -/
def Selects (selector : StringMap) (labels : Option StringMap) : Prop :=
  ∀ kv ∈ selector, (labels.bind fun l => l.lookup kv.1) = some kv.2

/-- A time is written to the second. -/
def Stamps (now stamp : ℤ) : Prop := stamp ≤ now ∧ now < stamp + 1000000000

/-- A pod as it is stored. -/
def Pod.stored (pod : Pod) (fence : Fence) (created : ℤ) (status : Option PodStatus) : Pod :=
  { pod with
    metadata := { pod.metadata with
      uid := some fence.uid
      resourceVersion := some fence.resourceVersion
      creationTimestamp := some created }
    status }

/-- A pod that is marked for deletion. -/
def Pod.marked (pod : Pod) (version : String) (t : ℤ) : Pod :=
  { pod with
    metadata := { pod.metadata with
      resourceVersion := some version
      deletionTimestamp := some t } }

def Secret.stored (secret : Secret) (fence : Fence) (created : ℤ) : Secret :=
  { secret with
    metadata := { secret.metadata with
      uid := some fence.uid
      resourceVersion := some fence.resourceVersion
      creationTimestamp := some created } }

namespace Cluster

def putPod (σ : Cluster) (name : String) (pod : Pod) (fence : Fence) : Cluster :=
  { σ with pods := Function.update σ.pods name (some pod), spent := fence :: σ.spent }

def removePod (σ : Cluster) (name : String) : Cluster :=
  { σ with pods := Function.update σ.pods name none }

def putSecret (σ : Cluster) (name : String) (secret : Secret) : Cluster :=
  { σ with
    secrets := Function.update σ.secrets name (some secret)
    minted := Function.update σ.minted name (some σ.now) }

def removeSecret (σ : Cluster) (name : String) : Cluster :=
  { σ with secrets := Function.update σ.secrets name none }

theorem pods_putPod (σ : Cluster) (name n : String) (pod : Pod) (fence : Fence) :
    (σ.putPod name pod fence).pods n = if n = name then some pod else σ.pods n :=
  Function.update_apply _ _ _ _

theorem pods_removePod (σ : Cluster) (name n : String) :
    (σ.removePod name).pods n = if n = name then none else σ.pods n :=
  Function.update_apply _ _ _ _

theorem secrets_putSecret (σ : Cluster) (name n : String) (secret : Secret) :
    (σ.putSecret name secret).secrets n = if n = name then some secret else σ.secrets n :=
  Function.update_apply _ _ _ _

theorem minted_putSecret (σ : Cluster) (name n : String) (secret : Secret) :
    (σ.putSecret name secret).minted n = if n = name then some σ.now else σ.minted n :=
  Function.update_apply _ _ _ _

theorem secrets_removeSecret (σ : Cluster) (name n : String) :
    (σ.removeSecret name).secrets n = if n = name then none else σ.secrets n :=
  Function.update_apply _ _ _ _

/-- A create of a pod takes effect. -/
def CreatesPod (σ : Cluster) (pod : Pod) (σ' : Cluster) : Prop :=
  ∃ name fence created status, pod.metadata.name = some name ∧ σ.pods name = none ∧
    (∀ f ∈ σ.spent, f.uid ≠ fence.uid) ∧ Stamps σ.now created ∧
    σ' = σ.putPod name (pod.stored fence created status) fence

def CreatesSecret (σ : Cluster) (secret : Secret) (σ' : Cluster) : Prop :=
  ∃ name fence created, secret.metadata.name = some name ∧ σ.secrets name = none ∧
    Stamps σ.now created ∧ σ' = σ.putSecret name (secret.stored fence created)

/-- A fenced delete takes effect: the pod is removed, or marked for deletion. -/
def DeletesPod (σ : Cluster) (name : String) (fence : Fence) (σ' : Cluster) : Prop :=
  ∃ pod, σ.pods name = some pod ∧ pod.fenced fence ∧
    (σ' = σ.removePod name ∨ (pod.metadata.deletionTimestamp.isSome = true ∧ σ' = σ) ∨
      ∃ version t, ⟨fence.uid, version⟩ ∉ σ.spent ∧
        σ' = σ.putPod name (pod.marked version t) ⟨fence.uid, version⟩)

/-- What the server answers to a call, and what the call does to the cluster. -/
def Answers (σ : Cluster) : (c : Call) → Answer c → Cluster → Prop
  | .listPods selector => fun (a : Except String (List Pod × Option ℤ)) σ' => σ' = σ ∧
    ∀ pods date, a = .ok (pods, date) →
      (∀ pod, pod ∈ pods ↔ ∃ name, σ.pods name = some pod ∧
        Selects selector pod.metadata.labels) ∧
      ∀ t, date = some t → Stamps σ.now t
  | .listSecrets selector => fun (a : Except String (List Secret)) σ' => σ' = σ ∧
    ∀ secrets, a = .ok secrets → ∀ secret, secret ∈ secrets ↔
      ∃ name, σ.secrets name = some secret ∧ Selects selector secret.metadata.labels
  | .secretExists name => fun (a : Except String Bool) σ' => σ' = σ ∧
    ∀ exists_, a = .ok exists_ → exists_ = (σ.secrets name).isSome
  | .getPod _ name => fun (a : Except String (Option Pod)) σ' => σ' = σ ∧
    ∀ pod, a = .ok pod → pod = σ.pods name
  | .createSecret secret => fun (a : Except String PUnit) σ' =>
    σ.CreatesSecret secret σ' ∨ (σ' = σ ∧ ∃ e, a = .error e)
  | .createPod pod => fun (a : Except String CreateOutcome) σ' =>
    (σ.CreatesPod pod σ' ∧ a ≠ .ok .alreadyExists) ∨ (σ' = σ ∧ a ≠ .ok .created ∧
      (a = .ok .alreadyExists → ∀ name, pod.metadata.name = some name → σ.pods name ≠ none))
  | .deletePod name fence => fun (a : Except String DeleteOutcome) σ' =>
    (σ.DeletesPod name fence σ' ∧ (a = .ok .accepted ∨ ∃ e, a = .error e)) ∨
      (σ' = σ ∧ a ≠ .ok .accepted ∧ (a = .ok .notFound → σ.pods name = none) ∧
        (a = .ok .preconditionFailed → ∃ pod, σ.pods name = some pod ∧ ¬ pod.fenced fence))
  | .deleteSecret name => fun (a : Except String PUnit) σ' =>
    σ' = σ.removeSecret name ∨ (σ' = σ ∧ ∃ e, a = .error e)
  | .ensureNamespace _ | .sleep | .elapsed | .newGeneration => fun _ σ' => σ' = σ

/-- A pod that is written gets a version that it never had. -/
structure Versioned (σ σ' : Cluster) : Prop where
  spent : σ.spent ⊆ σ'.spent
  pods : ∀ name pod, σ'.pods name = some pod → σ.pods name = some pod ∨
    (pod.metadata.name = some name ∧ ∃ fence, pod.fenced fence ∧ fence ∉ σ.spent ∧
      fence ∈ σ'.spent)

/-- Pods have the names they are stored under, and versions. -/
def WellFormed (σ : Cluster) : Prop :=
  ∀ name pod, σ.pods name = some pod →
    pod.metadata.name = some name ∧ ∃ fence ∈ σ.spent, pod.fenced fence

variable {σ σ' : Cluster}

theorem Versioned.refl : Versioned σ σ := ⟨fun _ h => h, fun _ _ h => .inl h⟩

theorem Versioned.wellFormed (h : Versioned σ σ') (hσ : σ.WellFormed) : σ'.WellFormed := by
  intro name pod hpod
  rcases h.pods name pod hpod with hold | ⟨hname, fence, hfence, -, hspent⟩
  · obtain ⟨hname, fence, hspent, hfence⟩ := hσ name pod hold
    exact ⟨hname, fence, h.spent hspent, hfence⟩
  · exact ⟨hname, fence, hspent, hfence⟩

theorem versioned_of_pods_eq (hpods : σ'.pods = σ.pods) (hspent : σ'.spent = σ.spent) :
    Versioned σ σ' where
  spent := hspent ▸ fun _ h => h
  pods _ _ h := .inl (hpods ▸ h)

theorem versioned_putPod {name : String} {pod : Pod} {fence : Fence}
    (hname : pod.metadata.name = some name) (hfence : pod.fenced fence)
    (hfresh : fence ∉ σ.spent) : Versioned σ (σ.putPod name pod fence) where
  spent := List.subset_cons_self _ _
  pods n p hp := by
    rw [pods_putPod] at hp
    split_ifs at hp with hn
    · obtain rfl := Option.some.inj hp
      exact .inr ⟨hn ▸ hname, fence, hfence, hfresh, List.mem_cons_self⟩
    · exact .inl hp

theorem versioned_removePod {name : String} : Versioned σ (σ.removePod name) where
  spent := fun _ h => h
  pods n p hp := by
    rw [pods_removePod] at hp
    split_ifs at hp
    exact .inl hp

theorem CreatesPod.versioned {pod : Pod} (h : σ.CreatesPod pod σ') : Versioned σ σ' := by
  obtain ⟨name, fence, created, status, hname, -, hfresh, -, rfl⟩ := h
  exact versioned_putPod hname ⟨rfl, rfl⟩ fun hspent => hfresh fence hspent rfl

theorem DeletesPod.versioned {name : String} {fence : Fence} (h : σ.DeletesPod name fence σ')
    (hσ : σ.WellFormed) : Versioned σ σ' := by
  obtain ⟨pod, hpod, hfence, rfl | ⟨-, rfl⟩ | ⟨version, t, hfresh, rfl⟩⟩ := h
  · exact versioned_removePod
  · exact .refl
  · exact versioned_putPod (hσ name pod hpod).1 ⟨hfence.1, rfl⟩ hfresh

/-- The server gives a new version to whatever it writes. -/
theorem Answers.versioned {c : Call} {a : Answer c} (h : σ.Answers c a σ') (hσ : σ.WellFormed) :
    Versioned σ σ' := by
  cases c with
  | listPods selector | listSecrets selector | secretExists name | getPod reader name =>
    obtain ⟨rfl, -⟩ := h
    exact .refl
  | createSecret secret =>
    rcases h with ⟨name, fence, created, -, -, -, rfl⟩ | ⟨rfl, -⟩
    · exact versioned_of_pods_eq rfl rfl
    · exact .refl
  | createPod pod =>
    rcases h with ⟨h, -⟩ | ⟨rfl, -⟩
    · exact h.versioned
    · exact .refl
  | deletePod name fence =>
    rcases h with ⟨h, -⟩ | ⟨rfl, -⟩
    · exact h.versioned hσ
    · exact .refl
  | deleteSecret name =>
    rcases h with rfl | ⟨rfl, -⟩
    · exact versioned_of_pods_eq rfl rfl
    · exact .refl
  | ensureNamespace ns | sleep | elapsed | newGeneration =>
    obtain rfl := h
    exact .refl

theorem Answers.named {c : Call} {a : Answer c} (h : σ.Answers c a σ') (hσ : σ.WellFormed)
    (trace : Trace) : Named trace c a := by
  cases c with
  | getPod reader name =>
    intro pod hpod
    exact (hσ name pod (h.2 _ hpod).symm).1
  | _ => trivial

end Cluster

/-! ### Runs -/

/-- A cluster, what each deploy has seen, what is left of its program, and the uids of the pods whose
agent has terminated. -/
structure World (ι : Type) where
  cluster : Cluster
  history : ι → Trace
  left : ι → Deploying String
  ended : Set String

/-- The uids of the pods that are terminated. -/
def Cluster.terminatedUids (σ : Cluster) : Set String :=
  {uid | ∃ name pod, σ.pods name = some pod ∧ pod.metadata.uid = some uid ∧
    decodeStartup pod = .resolved .terminated}

def World.move {ι : Type} (w : World ι) (σ : Cluster) : World ι :=
  { w with cluster := σ, ended := w.ended ∪ σ.terminatedUids }

/-- A deploy has its call answered. -/
def World.answered {ι : Type} [DecidableEq ι] (w : World ι) (i : ι) (e : Event Answer) (σ : Cluster)
    (q : Deploying String) : World ι :=
  { w.move σ with
    history := Function.update w.history i (e :: w.history i)
    left := Function.update w.left i q }

@[simp] theorem World.answered_cluster {ι : Type} [DecidableEq ι] (w : World ι) (i : ι)
    (e : Event Answer) (σ : Cluster) (q : Deploying String) :
    (w.answered i e σ q).cluster = σ := rfl

theorem World.answered_history_self {ι : Type} [DecidableEq ι] (w : World ι) (i : ι)
    (e : Event Answer) (σ : Cluster) (q : Deploying String) :
    (w.answered i e σ q).history i = e :: w.history i := Function.update_self _ _ _

theorem World.answered_history_of_ne {ι : Type} [DecidableEq ι] (w : World ι) {i j : ι}
    (e : Event Answer) (σ : Cluster) (q : Deploying String) (h : j ≠ i) :
    (w.answered i e σ q).history j = w.history j := Function.update_of_ne h _ _

/-- The deploys, with bounds for their loops, the cluster they start on, what others do to it and
which calls with their answers take place. -/
structure Setting (ι : Type) where
  fingerprint : IntentTemplate → Fingerprint
  args : ι → DeployArgs
  fuel : ι → ℕ
  start : Cluster → Prop
  outside : Cluster → Cluster → Prop
  allowed : World ι → (c : Call) → Answer c → Cluster → Prop
  wellFormed : ∀ σ, start σ → σ.WellFormed
  versioned : ∀ σ σ', outside σ σ' → σ.Versioned σ'

section

variable {ι : Type} [DecidableEq ι] (S : Setting ι)

inductive Step (w : World ι) : World ι → Prop
  | outside {σ : Cluster} (h : S.outside w.cluster σ) : Step w (w.move σ)
  | call (i : ι) {c : Call} {next : Answer c → Deploying String} (hleft : w.left i = .call c next)
      (a : Answer c) {σ : Cluster} (hanswer : w.cluster.Answers c a σ)
      (hallowed : S.allowed w c a σ) : Step w (w.answered i ⟨c, a⟩ σ (next a))

inductive Reachable : World ι → Prop
  | start {σ : Cluster} (h : S.start σ) : Reachable {
      cluster := σ
      history := fun _ => []
      left := fun i => deploy S.fingerprint (S.args i) (S.fuel i)
      ended := σ.terminatedUids }
  | step {w w' : World ι} (hw : Reachable w) (h : Step S w w') : Reachable w'

end

namespace Reachable

variable {ι : Type} [DecidableEq ι] {S : Setting ι} {w : World ι}

theorem wellFormed (hw : Reachable S w) : w.cluster.WellFormed := by
  induction hw with
  | start h => exact S.wellFormed _ h
  | step hw h ih =>
    cases h with
    | outside h => exact (S.versioned _ _ h).wellFormed ih
    | call i hleft a hanswer hallowed => exact (hanswer.versioned ih).wellFormed ih

/-- What a deploy has seen is a run of its program. -/
theorem ran (hw : Reachable S w) (i : ι) :
    Ran (deploy S.fingerprint (S.args i) (S.fuel i)) (w.history i) (w.left i) := by
  induction hw with
  | start h => exact .start
  | @step w w' hw h ih =>
    cases h with
    | outside h => exact ih
    | call j hleft a hanswer hallowed =>
      by_cases hij : i = j
      · subst hij
        simp only [World.answered, Function.update_self]
        exact (hleft ▸ ih).step a
      · simp only [World.answered, Function.update_of_ne hij]
        exact ih

theorem named (hw : Reachable S w) (i : ι) : Assumed Named (w.history i) := by
  induction hw with
  | start h => trivial
  | @step w w' hw h ih =>
    cases h with
    | outside h => exact ih
    | call j hleft a hanswer hallowed =>
      by_cases hij : i = j
      · subst hij
        rw [World.answered_history_self]
        exact ⟨ih, hanswer.named hw.wellFormed _⟩
      · rw [World.answered_history_of_ne _ _ _ _ hij]
        exact ih

/-- A pod that is terminated has ended. -/
theorem terminatedUids_subset (hw : Reachable S w) : w.cluster.terminatedUids ⊆ w.ended := by
  cases hw with
  | start h => exact fun _ h => h
  | step hw h =>
    cases h with
    | outside h => exact Set.subset_union_right
    | call i hleft a hanswer hallowed => exact Set.subset_union_right

/-- The next call of a deploy is justified by what the deploy has seen. -/
theorem justified (hw : Reachable S w) {i : ι} {c : Call} {next : Answer c → Deploying String}
    (hleft : w.left i = .call c next) :
    Justified (S.args i).identity (S.args i).cfg (S.args i).env
      ((S.args i).desired S.fingerprint) (w.history i) c := by
  have hsat := (sat_deploy S.fingerprint (S.args i) (S.fuel i)).ran (hw.ran i) (hw.named i)
  rw [hleft] at hsat
  exact hsat.1

end Reachable

end Buzz.BackendKubernetes
