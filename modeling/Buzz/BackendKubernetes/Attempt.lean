import Buzz.BackendKubernetes.Success

/-!
# One attempt a call

A call that has created a pod does not replace it. It does create another one when it observes its
pod as absent, or as not its own.

## Main definitions

* `Kept`: the condition on what is observed after a create.

## Main results

* `one_attempt`: a run under the condition mints one Secret and creates one pod at most.
* `second_attempt`: a run of the code that mints two and creates two.
-/

namespace Buzz.BackendKubernetes

open Library Interaction

def isMint (e : Event Answer) : Bool :=
  match e.1 with
  | .createSecret _ => true
  | _ => false

def isCreated : Event Answer → Bool
  | ⟨.createPod _, a⟩ =>
    let a : Except String CreateOutcome := a
    match a with
    | .ok .created => true
    | _ => false
  | _ => false

/-- Once this call has created a pod, what it observes is a pod of its own. -/
def Kept (identity : AgentIdentity) (h : Trace) : (c : Call) → Answer c → Prop
  | .getPod reader _ => fun a : Except String (Option Pod) =>
    reader = .observe → Created h → ∀ observed, a = .ok observed →
      ∃ pod, observed = some pod ∧ (verify pod identity .started).isSome = true
  | _ => fun _ => True

variable {identity : AgentIdentity} {cfg : ProviderConfig} {env : StringMap}
  {desired : Fingerprint} {h : Trace}

/-- Under the condition, no Secret is minted after a create. -/
theorem MintJustified.countP_eq_zero {secret : Secret}
    (hjustified : MintJustified identity env h secret) (hkept : Assumed (Kept identity) h) :
    h.countP isMint = 0 := by
  obtain ⟨generation, h₀, h₁, rfl, ho, -, hbefore⟩ := hjustified.observed
  have hquiet {h' : Trace} (hall : ∀ e ∈ h', e.1.quiet) : h'.countP isMint = 0 := by
    refine List.countP_eq_zero.mpr fun e he hmint => ?_
    have hcall := hall e he
    obtain ⟨c, a⟩ := e
    cases c <;> first | exact hcall | cases hmint
  have hgrown : Later Call.quiet h₀ (generated generation :: h₁) := ho.later.step trivial
  obtain ⟨es, hes, heq⟩ := hgrown
  rw [heq, List.countP_append, hquiet hes, Nat.zero_add]
  rcases hbefore with hall | hcreated
  · exact hquiet hall
  · exfalso
    generalize hnone : (none : Option VerifiedPod) = o at ho
    cases ho with
    | absent =>
      obtain ⟨pod, hpod, -⟩ := hkept.1.2 rfl hcreated _ rfl
      cases hpod
    | @present pod startup es hs =>
      obtain ⟨pod', hpod, hverified⟩ := hkept.1.of_append.2 rfl hcreated _ rfl
      obtain rfl := Option.some.inj hpod
      rw [verify_isSome_congr, ← hnone] at hverified
      cases hverified

/-- The Secrets and the pods of a call, so far. -/
structure OneAttempt (h : Trace) : Prop where
  mints : h.countP isMint ≤ 1
  created : h.countP isCreated ≤ h.countP isMint
  minted : ∀ secret h₀, h = mintedSecret secret :: h₀ → h.countP isCreated < h.countP isMint

theorem OneAttempt.quiet {c : Call} {a : Answer c} (hone : OneAttempt h) (hc : c.quiet) :
    OneAttempt (⟨c, a⟩ :: h) := by
  have hmint : isMint ⟨c, a⟩ = false := by cases c <;> first | exact hc.elim | rfl
  have hcreated : isCreated ⟨c, a⟩ = false := by cases c <;> first | exact hc.elim | rfl
  refine ⟨?_, ?_, fun secret h₀ heq => ?_⟩
  · rw [List.countP_cons_of_neg (by simp [hmint])]
    exact hone.mints
  · rw [List.countP_cons_of_neg (by simp [hcreated]), List.countP_cons_of_neg (by simp [hmint])]
    exact hone.created
  · obtain ⟨rfl, -⟩ := Sigma.mk.inj (List.cons.inj heq).1
    exact hc.elim

theorem OneAttempt.mint {secret : Secret} {a : Answer (.createSecret secret)}
    (hone : OneAttempt h) (hzero : h.countP isMint = 0) :
    OneAttempt (⟨.createSecret secret, a⟩ :: h) := by
  have hmints : (⟨.createSecret secret, a⟩ :: h : Trace).countP isMint = 1 := by
    rw [List.countP_cons_of_pos rfl, hzero]
  have hcreated : (⟨.createSecret secret, a⟩ :: h : Trace).countP isCreated = 0 := by
    rw [List.countP_cons_of_neg (by simp [isCreated])]
    exact Nat.le_zero.mp (hzero ▸ hone.created)
  refine ⟨hmints.le, ?_, fun _ _ _ => ?_⟩ <;> omega

theorem OneAttempt.create {pod : Pod} {a : Answer (.createPod pod)} {secret : Secret} {h₀ : Trace}
    (hone : OneAttempt h) (hminted : h = mintedSecret secret :: h₀) :
    OneAttempt (⟨.createPod pod, a⟩ :: h) := by
  have hmints : (⟨.createPod pod, a⟩ :: h : Trace).countP isMint = h.countP isMint :=
    List.countP_cons_of_neg (by simp [isMint])
  have hcreated : (⟨.createPod pod, a⟩ :: h : Trace).countP isCreated ≤ h.countP isCreated + 1 := by
    rw [List.countP_cons]
    split_ifs <;> omega
  have hlt := hone.minted secret h₀ hminted
  refine ⟨hmints.le.trans hone.mints, by omega, fun secret h₀ heq => ?_⟩
  cases (Sigma.mk.inj (List.cons.inj heq).1).1

/-- In every run in which, once the call has created a pod, it observes a pod of its own, the call
mints one Secret and creates one pod at most. -/
theorem one_attempt (fingerprint : IntentTemplate → Fingerprint) (args : DeployArgs) (fuel : ℕ)
    {h : Trace} {q : Deploying String} (hran : Ran (deploy fingerprint args fuel) h q)
    (hnamed : Assumed Named h) (hkept : Assumed (Kept args.identity) h) :
    h.countP isCreated ≤ 1 ∧ h.countP isMint ≤ 1 := by
  have hone : Assumed (Kept args.identity) h → OneAttempt h := by
    refine (sat_deploy fingerprint args fuel).invariant
      (I := fun h => Assumed (Kept args.identity) h → OneAttempt h) hran hnamed
      (fun _ => ⟨Nat.zero_le 1, Nat.le_refl 0, fun _ _ heq => nomatch heq⟩)
      fun h c a hjustified _ hone hkept => ?_
    have hone := hone hkept.1
    cases c with
    | createSecret secret =>
      exact hone.mint (MintJustified.countP_eq_zero hjustified hkept.1)
    | createPod pod =>
      obtain ⟨generation, h₀, hminted, -⟩ := hjustified
      exact hone.create hminted
    | _ => exact hone.quiet trivial
  exact ⟨(hone hkept).created.trans (hone hkept).mints, (hone hkept).mints⟩

/-- The pod that the call created is observed as running. -/
theorem one_attempt_sample : ∃ h, Ran (deploy (fun _ => "") sampleArgs 2) h
      (.done (.ok sampleArgs.identity.podName)) ∧ h.countP isCreated = 1 ∧
    (h.countP isCreated ≤ 1 ∧ h.countP isMint ≤ 1) := by
  have h : Ran (deploy (fun _ => "") sampleArgs 2) [] _ := .start
  have h := h.step (.ok ⟨⟩)
  have h := h.step (.ok ([], none))
  have h := h.step (.ok [])
  have h := h.step (0 : ℕ)
  have h := h.step (.ok none)
  have h := h.step "generation"
  have h := h.step (.ok ⟨⟩)
  have h := h.step (.ok CreateOutcome.created)
  have h := h.step (⟨⟩ : PUnit)
  have h := h.step (0 : ℕ)
  have h := h.step (.ok (some (samplePod none)))
  refine ⟨_, h, rfl, one_attempt _ sampleArgs 2 h ?_ ?_⟩
  · exact ⟨⟨⟨⟨⟨⟨⟨⟨⟨⟨⟨trivial, trivial⟩, trivial⟩, trivial⟩, trivial⟩, fun _ hpod => (nomatch hpod)⟩,
      trivial⟩, trivial⟩, trivial⟩, trivial⟩, trivial⟩, fun _ hpod => by cases hpod; rfl⟩
  · refine ⟨⟨⟨⟨⟨⟨⟨⟨⟨⟨⟨trivial, trivial⟩, trivial⟩, trivial⟩, trivial⟩, fun _ hcreated => ?_⟩,
      trivial⟩, trivial⟩, trivial⟩, trivial⟩, trivial⟩, fun _ _ observed hobserved => ?_⟩
    · obtain ⟨pod, hpod⟩ := hcreated
      have hpos : 0 < List.countP isCreated _ := List.countP_pos_iff.mpr ⟨_, hpod, rfl⟩
      exact (Nat.lt_irrefl 0 hpos).elim
    · cases hobserved
      exact ⟨_, rfl, rfl⟩

/-- Another party deletes the pod before it is observed, and the call creates it anew. -/
theorem second_attempt : ∃ h q, Ran (deploy (fun _ => "") sampleArgs 3) h q ∧ Assumed Named h ∧
    h.countP isCreated = 2 ∧ h.countP isMint = 2 := by
  have h : Ran (deploy (fun _ => "") sampleArgs 3) [] _ := .start
  have h := h.step (.ok ⟨⟩)
  have h := h.step (.ok ([], none))
  have h := h.step (.ok [])
  have h := h.step (0 : ℕ)
  have h := h.step (.ok none)
  have h := h.step "first"
  have h := h.step (.ok ⟨⟩)
  have h := h.step (.ok CreateOutcome.created)
  have h := h.step (⟨⟩ : PUnit)
  have h := h.step (0 : ℕ)
  have h := h.step (.ok none)
  have h := h.step "second"
  have h := h.step (.ok ⟨⟩)
  have h := h.step (.ok CreateOutcome.created)
  refine ⟨_, _, h, ?_, rfl, rfl⟩
  have habsent {h : Trace} {r : Reader} {n : String} : Named h (.getPod r n) (.ok none) :=
    fun _ hpod => nomatch hpod
  exact ⟨⟨⟨⟨⟨⟨⟨⟨⟨⟨⟨⟨⟨⟨trivial, trivial⟩, trivial⟩, trivial⟩, trivial⟩, habsent⟩, trivial⟩, trivial⟩,
    trivial⟩, trivial⟩, trivial⟩, habsent⟩, trivial⟩, trivial⟩, trivial⟩

end Buzz.BackendKubernetes
