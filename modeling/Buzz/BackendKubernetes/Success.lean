import Buzz.BackendKubernetes.Justified

/-!
# The success of a deploy

The main loop succeeds through the classifier, which tests the deletion mark first. The loop of
`adopt_winner` tests the startup first, so that a winner that is being deleted and still runs is
reported as deployed.

## Main definitions

* `Live`: the last read showed the pod as owned, running and not marked for deletion.
* `UnmarkedWinner`: the condition on the reads of a winner.

## Main results

* `deploy_live_iff`: a success is of a live pod exactly under the condition.
* `dying_winner`: a success of the code for a pod that is being deleted.
-/

namespace Buzz.BackendKubernetes

open Library Interaction

/-- What an event shows of a pod: a read by the name, or a list that has the name. -/
def shownPod (name : String) : Event Answer → Option (Option Pod)
  | ⟨.getPod _ n, a⟩ =>
    let a : Except String (Option Pod) := a
    if n = name then a.toOption else none
  | ⟨.listPods _, a⟩ =>
    let a : Except String (List Pod × Option ℤ) := a
    a.toOption.bind fun (pods, _) => (pods.find? (·.metadata.name = some name)).map some
  | _ => none

def lastRead (name : String) (h : Trace) : Option (Option Pod) := h.findSome? (shownPod name)

/-- The last read of the pod showed it as owned, running and not marked for deletion. -/
def Live (identity : AgentIdentity) (id : String) (h : Trace) : Prop :=
  ∃ pod, lastRead id h = some (some pod) ∧ Owned pod identity ∧ agentRunning pod = true ∧
    pod.metadata.deletionTimestamp = none

/-- A winner that is observed as verified and running is not marked for deletion. -/
def UnmarkedWinner (identity : AgentIdentity) (h : Trace) : (c : Call) → Answer c → Prop
  | .getPod reader _ => fun a : Except String (Option Pod) =>
    reader = .observe → Lost h → ∀ pod, a = .ok (some pod) →
      (verify pod identity .started).isSome = true → agentRunning pod = true →
      pod.metadata.deletionTimestamp = none
  | _ => fun _ => True

variable {identity : AgentIdentity} {h : Trace}

theorem Calm.unmarkedWinner (hcalm : Calm identity h) : Assumed (UnmarkedWinner identity) h := by
  refine hcalm.imp fun h c a hread => ?_
  cases c with
  | getPod reader name =>
    intro hreader hlost pod hpod hverified hrunning
    exact absurd ⟨hreader, hlost, pod, hpod, hverified, hrunning⟩ hread
  | _ => trivial

theorem Confirmed.live_iff {id : String} (hconfirmed : Confirmed identity h id)
    (hnamed : Assumed Named h) : Live identity id h ↔ Assumed (UnmarkedWinner identity) h := by
  obtain ⟨pod, v, h₀, rfl, hv, hdecode, rfl, hcase⟩ := hconfirmed.read
  have hverified := verify_eq_some hv
  have hrunning := decodeStartup_eq_started hdecode
  have hname : identity.podName = v.name :=
    Option.some.inj ((hnamed.2 pod rfl).symm.trans hverified.name)
  have hshown : shownPod v.name (readPod .observe identity.podName (some pod)) = some (some pod) :=
    if_pos hname
  have hlast : lastRead v.name (readPod .observe identity.podName (some pod) :: h₀) =
      some (some pod) := by
    rw [lastRead, List.findSome?_cons, hshown]
  constructor
  · rintro ⟨pod', hread, -, -, hunmarked⟩
    obtain rfl : pod = pod' := Option.some.inj (Option.some.inj (hlast.symm.trans hread))
    refine ⟨?_, fun _ _ pod' hpod _ _ => ?_⟩
    · rcases hcase with ⟨-, hlost⟩ | ⟨-, hcalm⟩
      · exact (calm_of_not_lost hlost).unmarkedWinner
      · exact Calm.unmarkedWinner hcalm
    · obtain rfl : pod = pod' := Option.some.inj (Except.ok.inj hpod)
      exact hunmarked
  · intro hcondition
    refine ⟨pod, hlast, hverified.owned, hrunning, ?_⟩
    rcases hcase with ⟨hmarked, -⟩ | ⟨hlost, -⟩
    · rw [hverified.deletionMarked, Option.isSome_eq_false_iff, Option.isNone_iff_eq_none] at hmarked
      exact hmarked
    · exact hcondition.2 rfl hlost pod rfl (Option.isSome_iff_exists.mpr ⟨v, hv⟩) hrunning

/-! ### Runs -/

def sampleArgs : DeployArgs where
  identity := ⟨"a"⟩
  cfg := ⟨"ns", "image", ⟨"1", "1", "1", "1"⟩, none⟩
  env := []

/-- A pod of the sample identity whose agent runs. -/
def samplePod (deletionTimestamp : Option ℤ) : Pod where
  metadata :=
    { name := some sampleArgs.identity.podName
      labels := some sampleArgs.identity.labels
      annotations := some [(ANNOTATION_PUBKEY_FULL, sampleArgs.identity.pubkeyHex)]
      uid := some "uid"
      resourceVersion := some "1"
      deletionTimestamp }
  status := some { containerStatuses := some [⟨CONTAINER_NAME, some { running := true }⟩] }

def preflightTrace : Trace :=
  [listedSecrets sampleArgs.identity [], listedPods sampleArgs.identity [] none,
    ⟨.ensureNamespace sampleArgs.cfg.ns, .ok ⟨⟩⟩]

/-- The pod is observed as running. -/
def observedTrace : Trace :=
  readPod .observe sampleArgs.identity.podName (some (samplePod none)) :: ⟨.elapsed, (0 : ℕ)⟩ ::
    preflightTrace

theorem ran_observedTrace : Ran (deploy (fun _ => "") sampleArgs 1) observedTrace
    (.done (.ok sampleArgs.identity.podName)) := by
  have h : Ran (deploy (fun _ => "") sampleArgs 1) [] _ := .start
  have h := h.step (.ok ⟨⟩)
  have h := h.step (.ok ([], none))
  have h := h.step (.ok [])
  have h := h.step (0 : ℕ)
  exact h.step (.ok (some (samplePod none)))

/-- A deploy that succeeds has last read its pod as live, if and only if no winner that it observed
as verified and running was marked for deletion. -/
theorem deploy_live_iff (fingerprint : IntentTemplate → Fingerprint) (args : DeployArgs) (fuel : ℕ)
    {h : Trace} {id : String} (hran : Ran (deploy fingerprint args fuel) h (.done (.ok id)))
    (hnamed : Assumed Named h) :
    Live args.identity id h ↔ Assumed (UnmarkedWinner args.identity) h := by
  have hconfirmed : Confirmed args.identity h id :=
    (sat_deploy fingerprint args fuel).ran hran hnamed
  exact hconfirmed.live_iff hnamed

theorem deploy_live_observedTrace :
    Live sampleArgs.identity sampleArgs.identity.podName observedTrace :=
  (deploy_live_iff _ sampleArgs 1 ran_observedTrace
    ⟨⟨⟨⟨⟨trivial, trivial⟩, trivial⟩, trivial⟩, trivial⟩, by
      rintro pod h
      cases h
      rfl⟩).mpr
    ⟨⟨⟨⟨⟨trivial, trivial⟩, trivial⟩, trivial⟩, trivial⟩, by
      rintro - - pod h - -
      cases h
      rfl⟩

/-- The pod that won the name still runs, and is being deleted. -/
theorem dying_winner : ∃ h id, Ran (deploy (fun _ => "") sampleArgs 2) h (.done (.ok id)) ∧
    Assumed Named h ∧ ¬ Live sampleArgs.identity id h := by
  have h : Ran (deploy (fun _ => "") sampleArgs 2) [] _ := .start
  have h := h.step (.ok ⟨⟩)
  have h := h.step (.ok ([], none))
  have h := h.step (.ok [])
  have h := h.step (0 : ℕ)
  have h := h.step (.ok none)
  have h := h.step "generation"
  have h := h.step (.ok ⟨⟩)
  have h := h.step (.ok CreateOutcome.alreadyExists)
  have h := h.step (.ok (some (samplePod none)))
  have h := h.step (.ok ([samplePod none], none))
  have h := h.step (.ok ⟨⟩)
  have h := h.step (0 : ℕ)
  have h := h.step (.ok (some (samplePod (some 0))))
  refine ⟨_, _, h, ?_, ?_⟩
  · have hread {h : Trace} {r : Reader} {d : Option ℤ} :
        Named h (.getPod r sampleArgs.identity.podName) (.ok (some (samplePod d))) := by
      rintro pod hpod
      cases hpod
      rfl
    exact ⟨⟨⟨⟨⟨⟨⟨⟨⟨⟨⟨⟨⟨trivial, trivial⟩, trivial⟩, trivial⟩, trivial⟩, fun _ hpod => (nomatch hpod)⟩,
      trivial⟩, trivial⟩, trivial⟩, hread⟩, trivial⟩, trivial⟩, trivial⟩, hread⟩
  · rintro ⟨pod, hlast, -, -, hunmarked⟩
    obtain rfl : samplePod (some 0) = pod := Option.some.inj (Option.some.inj hlast)
    cases hunmarked

end Buzz.BackendKubernetes
