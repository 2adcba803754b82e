import Buzz.BackendKubernetes.Success

/-!
# What a deploy deletes

The collection plans on verified objects. It reads the pod again before it deletes it, and does not
verify what it reads; and it takes the Secret that a doomed pod refers to as its own.

## Main definitions

* `DeletesOwn`: a call that deletes names an object last read as owned, or a Secret of this call.
* `Vouched`: the condition on the reads of the collection.

## Main results

* `deletes_own`: in a run under the condition, every call that deletes is of this kind.
* `foreign_deletes`: a run of the code that deletes a pod and a Secret of others.
-/

namespace Buzz.BackendKubernetes

open Library Interaction

/-- The Secrets that an event shows. -/
def shownSecrets : Event Answer → Option (List Secret)
  | ⟨.listSecrets _, a⟩ =>
    let a : Except String (List Secret) := a
    a.toOption
  | _ => none

def HasOwn (identity : AgentIdentity) (secrets : List Secret) (name : String) : Prop :=
  ∃ secret ∈ secrets, secret.metadata.name = some name ∧ secretIsOurs secret identity = true

/-- What is deleted was last read with the marker and the key of the identity, or is the Secret that
this call created. -/
def DeletesOwn (identity : AgentIdentity) (h : Trace) : Call → Prop
  | .deletePod name _ => ∃ pod, lastRead name h = some (some pod) ∧ Owned pod identity
  | .deleteSecret name =>
    (∃ secrets, h.findSome? shownSecrets = some secrets ∧ HasOwn identity secrets name) ∨
      ∃ secret, mintedSecret secret ∈ h ∧ secret.metadata.name = some name
  | _ => True

/-- A pod that the collection reads again as terminated is owned; and a Secret that a doomed pod
refers to is listed as owned. -/
def Vouched (identity : AgentIdentity) (h : Trace) : (c : Call) → Answer c → Prop
  | .getPod reader _ => fun a : Except String (Option Pod) =>
    reader = .gc → ∀ pod fence, a = .ok (some pod) → pod.fenced fence →
      decodeStartup pod = .resolved .terminated → Owned pod identity
  | .listSecrets _ => fun a : Except String (List Secret) =>
    ∀ secrets pods now h₀, a = .ok secrets → h = listedPods identity pods now :: h₀ →
      ∀ p ∈ Gc.ours identity pods, (∃ q ∈ pods, q.metadata.name = p.metadata.name ∧
        decodeStartup q = .resolved .terminated) →
      ∀ name, referencedSecret p = some name → HasOwn identity secrets name
  | _ => fun _ => True

variable {identity : AgentIdentity} {cfg : ProviderConfig} {env : StringMap}
  {desired : Fingerprint} {h : Trace} {name : String}

theorem lastRead_readPod {reader : Reader} {pod : Option Pod} :
    lastRead name (readPod reader name pod :: h) = some pod := by
  have hshown : shownPod name (readPod reader name pod) = some pod := if_pos rfl
  rw [lastRead, List.findSome?_cons, hshown]

theorem Settles.lastRead {pod : Pod} {startup : Startup} {es : Trace}
    (hs : Settles pod startup es) : lastRead name (es ++ h) = lastRead name h := by
  cases hs <;> rfl

theorem Observed.lastRead {v : VerifiedPod} {h₀ : Trace} (ho : Observed identity h₀ (some v) h)
    (hnamed : Assumed Named h) :
    ∃ pod, lastRead v.name h = some (some pod) ∧ Owned pod identity := by
  generalize heq : some v = o at ho
  cases ho with
  | absent => cases heq
  | @present pod startup es hs =>
    have hv := verify_eq_some heq.symm
    have hname : identity.podName = v.name :=
      Option.some.inj ((hnamed.of_append.2 pod rfl).symm.trans hv.name)
    rw [hs.lastRead, hname, lastRead_readPod]
    exact ⟨pod, rfl, hv.owned⟩

theorem PodJustified.deletesOwn {fence : Fence} (hjustified : PodJustified identity desired h name
    fence) (hnamed : Assumed Named h) (hvouched : Assumed (Vouched identity) h) :
    DeletesOwn identity h (.deletePod name fence) := by
  cases hjustified with
  | @collected pod h₀ hread hterminated hfence =>
    subst hread
    exact ⟨pod, lastRead_readPod, hvouched.2 rfl pod fence rfl hfence hterminated⟩
  | replaced hobserved hclassify =>
    obtain ⟨w, heq, rfl, -⟩ := classify_eq_delete hclassify
    obtain rfl := Option.some.inj heq
    exact hobserved.lastRead hnamed

theorem shownSecrets_of_collects {e : Event Answer} (he : e.1.collects) : shownSecrets e = none := by
  obtain ⟨c, a⟩ := e
  cases c <;> first | rfl | exact he.elim

/-- What the pass over the Secrets deletes is listed as owned. -/
theorem Planned.hasOwn {pods : List Pod} {now : Option ℤ} {secrets : List Secret}
    {names : List String} (hplanned : Planned identity pods now secrets names h)
    (hname : name ∈ (Gc.plan identity pods secrets (isTerminated names) now).secrets)
    (hvouched : Assumed (Vouched identity) h) : HasOwn identity secrets name := by
  obtain ⟨h₀, -, es, -, rfl⟩ := hplanned.lists
  rcases Gc.mem_plan_secrets hname with ⟨p, hp, hterminated, hreferenced⟩ | ⟨t, -, secret, hs, ho⟩
  · obtain ⟨n, hmem, hn⟩ := isTerminated_eq_true.mp hterminated
    obtain ⟨q, hq, hqname, hdecode⟩ := hplanned.terminated n hmem
    exact hvouched.of_append.2 secrets pods now h₀ rfl rfl p hp ⟨q, hq, hqname.trans hn.symm, hdecode⟩
      name hreferenced
  · exact ⟨secret, hs, ho.name_eq, ho.ours⟩

theorem SecretJustified.deletesOwn (hjustified : SecretJustified identity cfg env desired h name)
    (hvouched : Assumed (Vouched identity) h) : DeletesOwn identity h (.deleteSecret name) := by
  cases hjustified with
  | @planned pods now secrets names hplanned hname =>
    refine .inl ⟨secrets, ?_, hplanned.hasOwn hname hvouched⟩
    obtain ⟨h₀, -, es, hes, rfl⟩ := hplanned.lists
    rw [List.findSome?_append, List.findSome?_eq_none_iff.mpr fun e he =>
      shownSecrets_of_collects (hes e he)]
    rfl
  | own hlist hname _ hminted _ =>
    subst hlist hname
    exact .inr ⟨_, List.mem_cons_of_mem _ hminted, rfl⟩

/-- In every run in which the collection reads again only pods of its own as terminated, and doomed
pods refer only to Secrets that are listed as owned, each call that deletes names an object last
read as owned, or the Secret of this call. -/
theorem deletes_own (fingerprint : IntentTemplate → Fingerprint) (args : DeployArgs) (fuel : ℕ)
    {h : Trace} {q : Deploying String} (hran : Ran (deploy fingerprint args fuel) h q)
    (hnamed : Assumed Named h) (hvouched : Assumed (Vouched args.identity) h) :
    Assumed (fun h c _ => DeletesOwn args.identity h c) h := by
  have hkept : Assumed Named h → Assumed (Vouched args.identity) h →
      Assumed (fun h c _ => DeletesOwn args.identity h c) h := by
    refine (sat_deploy fingerprint args fuel).invariant
      (I := fun h => Assumed Named h → Assumed (Vouched args.identity) h →
        Assumed (fun h c _ => DeletesOwn args.identity h c) h)
      hran hnamed (fun _ _ => trivial) fun h c a hjustified _ hown hnamed hvouched => ?_
    refine ⟨hown hnamed.1 hvouched.1, ?_⟩
    cases c with
    | deletePod name fence => exact PodJustified.deletesOwn hjustified hnamed.1 hvouched.1
    | deleteSecret name => exact SecretJustified.deletesOwn hjustified hvouched.1
    | _ => trivial
  exact hkept hnamed hvouched

/-! ### Runs -/

/-- A terminated pod, with a reference to a Secret. -/
def terminatedPod (metadata : ObjectMeta) (secret : String) : Pod where
  metadata
  spec := some [⟨CONTAINER_NAME, none, some [⟨some secret⟩]⟩]
  status := some { phase := some "Succeeded" }

def ownedMeta : ObjectMeta where
  name := some sampleArgs.identity.podName
  labels := some sampleArgs.identity.labels
  annotations := some [(ANNOTATION_PUBKEY_FULL, sampleArgs.identity.pubkeyHex)]
  uid := some "uid"
  resourceVersion := some "1"

def ownedSecret : Secret where
  metadata := { ownedMeta with name := some "own" }
  stringData := []
  immutable := true

/-- A terminated pod of the identity is collected, with its Secret. -/
theorem deletes_own_sample : ∃ h q, Ran (deploy (fun _ => "") sampleArgs 1) h q ∧
    (∃ a h₀, h = ⟨.deleteSecret "own", a⟩ :: h₀) ∧
    Assumed (fun h c _ => DeletesOwn sampleArgs.identity h c) h := by
  have h : Ran (deploy (fun _ => "") sampleArgs 1) [] _ := .start
  have h := h.step (.ok ⟨⟩)
  have h := h.step (.ok ([terminatedPod ownedMeta "own"], none))
  have h := h.step (.ok [ownedSecret])
  have h := h.step (.ok (some (terminatedPod ownedMeta "own")))
  have h := h.step (.ok DeleteOutcome.accepted)
  have h := h.step (.ok ⟨⟩)
  refine ⟨_, _, h, ⟨_, _, rfl⟩, deletes_own _ sampleArgs 1 h ?_ ?_⟩
  · exact ⟨⟨⟨⟨⟨⟨trivial, trivial⟩, trivial⟩, trivial⟩, fun _ hpod => by cases hpod; rfl⟩, trivial⟩,
      trivial⟩
  · refine ⟨⟨⟨⟨⟨⟨trivial, trivial⟩, trivial⟩, ?_⟩, ?_⟩, trivial⟩, trivial⟩
    · rintro secrets pods now h₀ hsecrets hlist p hp - name hreferenced
      cases hsecrets
      cases hlist
      obtain rfl := List.mem_singleton.mp (Gc.mem_ours.mp hp).1
      cases hreferenced
      exact ⟨ownedSecret, List.mem_singleton_self _, rfl, rfl⟩
    · rintro - pod fence hpod - -
      cases hpod
      exact ⟨rfl, rfl⟩

/-- The pod of the identity is replaced by one of others after it was listed; and it refers to a
Secret of others. Both are deleted. -/
theorem foreign_deletes : ∃ h₀ q podAnswer secretAnswer,
    Ran (deploy (fun _ => "") sampleArgs 1)
      (⟨.deleteSecret "victim", secretAnswer⟩ ::
        ⟨.deletePod sampleArgs.identity.podName ⟨"foreign", "1"⟩, podAnswer⟩ :: h₀) q ∧
    Assumed Named h₀ ∧
    ¬ DeletesOwn sampleArgs.identity h₀
      (.deletePod sampleArgs.identity.podName ⟨"foreign", "1"⟩) ∧
    ¬ DeletesOwn sampleArgs.identity
      (⟨.deletePod sampleArgs.identity.podName ⟨"foreign", "1"⟩, podAnswer⟩ :: h₀)
      (.deleteSecret "victim") := by
  have h : Ran (deploy (fun _ => "") sampleArgs 1) [] _ := .start
  have h := h.step (.ok ⟨⟩)
  have h := h.step (.ok ([terminatedPod ownedMeta "victim"], none))
  have h := h.step (.ok [])
  have h := h.step (.ok (some (terminatedPod
    { name := some sampleArgs.identity.podName
      uid := some "foreign"
      resourceVersion := some "1" } "victim")))
  have h := h.step (.ok DeleteOutcome.accepted)
  have h := h.step (.ok ⟨⟩)
  refine ⟨_, _, _, _, h, ?_, ?_, ?_⟩
  · exact ⟨⟨⟨⟨trivial, trivial⟩, trivial⟩, trivial⟩, fun _ hpod => by cases hpod; rfl⟩
  · rintro ⟨pod, hread, howned, -⟩
    cases hread
    cases howned
  · rintro (⟨secrets, hread, secret, hmem, -⟩ | ⟨secret, hmem, -⟩)
    · cases hread
      exact absurd hmem List.not_mem_nil
    · simp only [List.mem_cons, List.not_mem_nil, or_false] at hmem
      rcases hmem with heq | heq | heq | heq | heq <;> cases (Sigma.mk.inj heq).1

end Buzz.BackendKubernetes
