import Buzz.BackendKubernetes.Cluster
import Buzz.BackendKubernetes.Ownership

/-!
# No running agent is deleted

A pod is deleted under the uid and the version of a read that showed it as not running. What has
that uid and that version is the pod that was read.

## Main definitions

* `Authorised`: the read that a delete rests on.
* `Current`: a read pod is the only one of its uid and version.
* `anyone`: a cluster on which others do what they like.

## Main results

* `deletes_stopped`: a delete that takes effect hits the pod that was read, which does not run.
-/

namespace Buzz.BackendKubernetes

open Library Interaction

def Pod.recordedIntent (pod : Pod) : Option Fingerprint :=
  pod.metadata.annotations.bind fun a => a.lookup ANNOTATION_CREATE_INTENT

/-- The last read of the pod by its name showed it with the fence and not running; and if it was to
start yet, with another intent. -/
structure Authorised (desired : Fingerprint) (h : Trace) (name : String) (fence : Fence) (pod : Pod) :
    Prop where
  stopped : agentRunning pod = false
  fenced : pod.fenced fence
  read : ∃ reader startup es h₀, h = es ++ readPod reader name (some pod) :: h₀ ∧
    Settles pod startup es ∧
    (startup = .terminated ∨ startup = .neverStartedProvablyBroken ∨
      startup = .neverStartedRecoverable ∧ pod.recordedIntent ≠ some desired)

section

variable {identity : AgentIdentity} {desired : Fingerprint} {h : Trace} {name : String}
  {fence : Fence} {pod : Pod}

theorem Settles.stopped {startup : Startup} {es : Trace} (hs : Settles pod startup es)
    (hstartup : startup ≠ .started) : agentRunning pod = false :=
  Bool.eq_false_iff.mpr fun hrunning => hstartup (hs.eq_started hrunning)

theorem PodJustified.authorised (hjustified : PodJustified identity desired h name fence)
    (hnamed : Assumed Named h) : ∃ pod, Authorised desired h name fence pod := by
  cases hjustified with
  | @collected pod h₀ hread hterminated hfence =>
    exact ⟨pod, (Settles.resolved hterminated).stopped (by simp), hfence, .gc, .terminated, [], h₀,
      hread, .resolved hterminated, .inl rfl⟩
  | @replaced v h₀ hobserved hclassify =>
    obtain ⟨w, heq, rfl, rfl, hstartup⟩ := classify_eq_delete hclassify
    obtain rfl := Option.some.inj heq
    generalize hsome : some v = o at hobserved
    cases hobserved with
    | absent => cases hsome
    | @present pod startup es hs =>
      have hv := verify_eq_some hsome.symm
      have hname : identity.podName = v.name :=
        Option.some.inj ((hnamed.of_append.2 pod rfl).symm.trans hv.name)
      rw [hv.startup, hv.recordedIntent] at hstartup
      refine ⟨pod, hs.stopped ?_, hv.fenced, .observe, startup, es, h₀, hname ▸ rfl, hs, hstartup⟩
      rintro rfl
      simp at hstartup

end

/-- What has the name, the uid and the version of the pod is the pod. -/
def Current (σ : Cluster) (name : String) (pod : Pod) : Prop :=
  ∀ fence, pod.fenced fence → fence ∈ σ.spent ∧
    ∀ cur, σ.pods name = some cur → cur.fenced fence → cur = pod

section

variable {σ σ' : Cluster} {name : String} {pod : Pod}

theorem Pod.fenced_unique {fence fence' : Fence} (h : pod.fenced fence) (h' : pod.fenced fence') :
    fence = fence' := by
  cases fence
  cases fence'
  obtain ⟨huid, hversion⟩ := h
  obtain ⟨huid', hversion'⟩ := h'
  congr
  · exact Option.some.inj (huid.symm.trans huid')
  · exact Option.some.inj (hversion.symm.trans hversion')

theorem current_of_pods (hσ : σ.WellFormed) (hpod : σ.pods name = some pod) :
    Current σ name pod := by
  intro fence hfence
  obtain ⟨-, fence', hspent, hfence'⟩ := hσ name pod hpod
  obtain rfl := Pod.fenced_unique hfence hfence'
  exact ⟨hspent, fun cur hcur _ => Option.some.inj (hcur.symm.trans hpod)⟩

theorem Current.versioned (hcurrent : Current σ name pod) (h : σ.Versioned σ') :
    Current σ' name pod := by
  intro fence hfence
  obtain ⟨hspent, hcur⟩ := hcurrent fence hfence
  refine ⟨h.spent hspent, fun cur hpods hcurfence => ?_⟩
  rcases h.pods name cur hpods with hold | ⟨-, fence', hfence', hfresh, -⟩
  · exact hcur cur hold hcurfence
  · exact absurd (Pod.fenced_unique hcurfence hfence' ▸ hspent) hfresh

end

section

variable {ι : Type} [DecidableEq ι] {S : Setting ι} {w : World ι}

/-- A pod that a deploy has read is the only one of its name, uid and version ever after. -/
theorem Reachable.current (hw : Reachable S w) {i : ι} {reader : Reader} {name : String} {pod : Pod}
    (hread : readPod reader name (some pod) ∈ w.history i) : Current w.cluster name pod := by
  induction hw with
  | start h => exact absurd hread List.not_mem_nil
  | @step w w' hw h ih =>
    cases h with
    | outside h => exact (ih hread).versioned (S.versioned _ _ h)
    | @call j c next hleft a σ hanswer hallowed =>
      have hversioned := hanswer.versioned hw.wellFormed
      by_cases hij : i = j
      · subst hij
        rw [World.answered_history_self] at hread
        rcases List.mem_cons.mp hread with heq | hread
        · obtain ⟨rfl, heq⟩ := Sigma.mk.inj heq
          obtain rfl := eq_of_heq heq
          exact (current_of_pods hw.wellFormed (hanswer.2 _ rfl).symm).versioned hversioned
        · exact (ih hread).versioned hversioned
      · rw [World.answered_history_of_ne _ _ _ _ hij] at hread
        exact (ih hread).versioned hversioned

/-- A cluster on which others do what they like, as long as what they write gets a new version. -/
def anyone (fingerprint : IntentTemplate → Fingerprint) (args : ι → DeployArgs) (fuel : ι → ℕ) :
    Setting ι where
  fingerprint
  args
  fuel
  start := Cluster.WellFormed
  outside := Cluster.Versioned
  allowed := fun _ _ _ _ => True
  wellFormed := fun _ h => h
  versioned := fun _ _ h => h

/-- A delete of a deploy that is accepted, or that changes the pods, hits the pod that the deploy
read last under the name, with the uid and the version of that read. The pod does not run; and if it
was to start yet, it records another intent than that of the deploy. -/
theorem deletes_stopped (fingerprint : IntentTemplate → Fingerprint) (args : ι → DeployArgs)
    (fuel : ι → ℕ) {w : World ι} (hw : Reachable (anyone fingerprint args fuel) w) {i : ι}
    {name : String} {fence : Fence} {next : Answer (.deletePod name fence) → Deploying String}
    (hleft : w.left i = .call (.deletePod name fence) next) {a : Answer (.deletePod name fence)}
    {σ : Cluster} (hanswer : w.cluster.Answers (.deletePod name fence) a σ)
    (heffect : a = .ok DeleteOutcome.accepted ∨ σ.pods ≠ w.cluster.pods) :
    ∃ pod, w.cluster.pods name = some pod ∧
      Authorised ((args i).desired fingerprint) (w.history i) name fence pod := by
  obtain ⟨pod, hauthorised⟩ := PodJustified.authorised (hw.justified hleft) (hw.named i)
  obtain ⟨cur, hcur, hfence⟩ : ∃ cur, w.cluster.pods name = some cur ∧ cur.fenced fence := by
    rcases hanswer with ⟨⟨cur, hcur, hfence, -⟩, -⟩ | ⟨rfl, hrefused, -⟩
    · exact ⟨cur, hcur, hfence⟩
    · exact (heffect.elim hrefused fun hne => hne rfl).elim
  obtain ⟨reader, startup, es, h₀, hh, -⟩ := hauthorised.read
  have hcurrent : Current w.cluster name pod :=
    hw.current (hh ▸ List.mem_append_right es List.mem_cons_self)
  obtain rfl := (hcurrent fence hauthorised.fenced).2 cur hcur hfence
  exact ⟨cur, hcur, hauthorised⟩

end

/-- A terminated pod of the identity. -/
def sampleCluster : Cluster where
  now := 0
  pods n := if n = sampleArgs.identity.podName then some (terminatedPod ownedMeta "own") else none
  secrets _ := none
  spent := [⟨"uid", "1"⟩]
  minted _ := none

theorem sampleCluster_pods {n : String} {pod : Pod} (h : sampleCluster.pods n = some pod) :
    n = sampleArgs.identity.podName ∧ pod = terminatedPod ownedMeta "own" := by
  simp only [sampleCluster] at h
  split_ifs at h with hn
  exact ⟨hn, (Option.some.inj h).symm⟩

theorem sampleCluster_wellFormed : sampleCluster.WellFormed := by
  intro n pod hpod
  obtain ⟨rfl, rfl⟩ := sampleCluster_pods hpod
  exact ⟨rfl, ⟨"uid", "1"⟩, List.mem_singleton_self _, rfl, rfl⟩

/-- The collection deletes the pod. -/
theorem deletes_stopped_sample : ∃ pod,
    sampleCluster.pods sampleArgs.identity.podName = some pod ∧ ∃ h,
      Authorised (sampleArgs.desired fun _ => "") h sampleArgs.identity.podName ⟨"uid", "1"⟩ pod := by
  have hselects : Selects sampleArgs.identity.selector ownedMeta.labels := by
    intro kv hkv
    simp only [AgentIdentity.selector, List.mem_cons, List.not_mem_nil, or_false] at hkv
    rcases hkv with rfl | rfl <;> rfl
  have hw : Reachable (anyone (fun _ => "") (fun _ : PUnit => sampleArgs) fun _ => 1) _ :=
    .start sampleCluster_wellFormed
  have hw := hw.step (.call ⟨⟩ (c := .ensureNamespace _) rfl (.ok ⟨⟩) rfl trivial)
  have hw := hw.step (.call ⟨⟩ (c := .listPods _) rfl
    (.ok ([terminatedPod ownedMeta "own"], none)) ⟨rfl, by
    rintro pods date ⟨⟩
    refine ⟨fun pod => ⟨fun hpod => ?_, ?_⟩, fun t ht => (nomatch ht)⟩
    · obtain rfl := List.mem_singleton.mp hpod
      exact ⟨sampleArgs.identity.podName, rfl, hselects⟩
    · rintro ⟨n, hpod, -⟩
      exact List.mem_singleton.mpr (sampleCluster_pods hpod).2⟩ trivial)
  have hw := hw.step (.call ⟨⟩ (c := .listSecrets _) rfl (.ok []) ⟨rfl, by
    rintro secrets ⟨⟩ secret
    exact ⟨fun h => absurd h List.not_mem_nil, fun ⟨_, h, _⟩ => (nomatch h)⟩⟩ trivial)
  have hw := hw.step (.call ⟨⟩ (c := .getPod _ _) rfl
    (.ok (some (terminatedPod ownedMeta "own"))) ⟨rfl, by
    rintro pod ⟨⟩
    rfl⟩ trivial)
  obtain ⟨pod, hpod, hauthorised⟩ := deletes_stopped (fun _ => "") (fun _ : PUnit => sampleArgs)
    (fun _ => 1) hw (i := ⟨⟩) rfl (a := .ok DeleteOutcome.accepted)
    (.inl ⟨⟨_, rfl, ⟨rfl, rfl⟩, .inl rfl⟩, .inl rfl⟩) (.inl rfl)
  exact ⟨pod, hpod, _, hauthorised⟩

end Buzz.BackendKubernetes
