import Buzz.BackendKubernetes.Reconcile

/-!
# What justifies a call

What the history of a deploy has when it deletes or creates an object, and when it succeeds.

## Main definitions

* `Settles`: a startup, and the read that settled it.
* `Justified`: what the history has before a call.
* `Confirmed`: what it has before a success.

## Main results

* `sat_deploy`: every call of a deploy is justified, and its success is confirmed.
-/

namespace Buzz.BackendKubernetes

open Library Interaction

/-! ### Events -/

abbrev Trace := History Answer

def readPod (reader : Reader) (name : String) (pod : Option Pod) : Event Answer :=
  ⟨.getPod reader name, .ok pod⟩

def listedPods (identity : AgentIdentity) (pods : List Pod) (now : Option ℤ) : Event Answer :=
  ⟨.listPods identity.selector, .ok (pods, now)⟩

def listedSecrets (identity : AgentIdentity) (secrets : List Secret) : Event Answer :=
  ⟨.listSecrets identity.selector, .ok secrets⟩

def mintedSecret (secret : Secret) : Event Answer := ⟨.createSecret secret, .ok ⟨⟩⟩

def triedPod (pod : Pod) (outcome : CreateOutcome) : Event Answer := ⟨.createPod pod, .ok outcome⟩

def generated (generation : String) : Event Answer := ⟨.newGeneration, generation⟩

/-- The calls of the passes over the pods and the Secrets of the preflight collection. -/
def Call.collects : Call → Prop
  | .secretExists _ | .getPod .gc _ | .deletePod _ _ | .deleteSecret _ => True
  | _ => False

/-- The calls that create nothing. -/
def Call.quiet : Call → Prop
  | .createSecret _ | .createPod _ => False
  | _ => True

/-- The calls that neither create nor observe. -/
def Call.blind : Call → Prop
  | .createSecret _ | .createPod _ | .getPod .observe _ => False
  | _ => True

theorem Call.collects.quiet {c : Call} (h : c.collects) : c.quiet := by
  cases c <;> first | exact h | trivial

/-- A read by name shows an object of that name. -/
def Named (_ : Trace) : (c : Call) → Answer c → Prop
  | .getPod _ name => fun a : Except String (Option Pod) =>
    ∀ pod, a = .ok (some pod) → pod.metadata.name = some name
  | _ => fun _ => True

/-- The startup of a pod, with the read that settled it. -/
inductive Settles (pod : Pod) : Startup → Trace → Prop
  | resolved {startup : Startup} (h : decodeStartup pod = .resolved startup) : Settles pod startup []
  | present {name : String} (h : decodeStartup pod = .configErrorPendingSecretCheck name) :
      Settles pod .neverStartedRecoverable [⟨.secretExists name, .ok true⟩]
  | absent {name : String} (h : decodeStartup pod = .configErrorPendingSecretCheck name) :
      Settles pod .neverStartedProvablyBroken [⟨.secretExists name, .ok false⟩]

theorem Settles.of_terminated {pod : Pod} {es : Trace} (h : Settles pod .terminated es) :
    decodeStartup pod = .resolved .terminated ∧ es = [] := by
  cases h with
  | resolved h => exact ⟨h, rfl⟩

theorem Settles.of_started {pod : Pod} {es : Trace} (h : Settles pod .started es) :
    decodeStartup pod = .resolved .started ∧ es = [] := by
  cases h with
  | resolved h => exact ⟨h, rfl⟩

/-- The pod of the identity is observed, as this. -/
inductive Observed (identity : AgentIdentity) (h : Trace) : Option VerifiedPod → Trace → Prop
  | absent : Observed identity h none (readPod .observe identity.podName none :: h)
  | present {pod : Pod} {startup : Startup} {es : Trace} (hs : Settles pod startup es) :
      Observed identity h (verify pod identity startup)
        (es ++ readPod .observe identity.podName (some pod) :: h)

/-- Another deploy has won the name of the pod. -/
def Lost (h : Trace) : Prop := ∃ pod, triedPod pod .alreadyExists ∈ h

/-- This deploy has created a pod. -/
def Created (h : Trace) : Prop := ∃ pod, triedPod pod .created ∈ h

/-! ### Justifications -/

section

variable (identity : AgentIdentity) (cfg : ProviderConfig) (env : StringMap)
  (desired : Fingerprint)

inductive PodJustified (h : Trace) (name : String) (fence : Fence) : Prop
  /-- The collection has just read the pod again. -/
  | collected {pod : Pod} {h₀ : Trace} (hread : h = readPod .gc name (some pod) :: h₀)
      (hterminated : decodeStartup pod = .resolved .terminated) (hfence : pod.fenced fence)
  /-- The loop has just observed the pod. -/
  | replaced {v : VerifiedPod} {h₀ : Trace} (hobserved : Observed identity h₀ (some v) h)
      (hclassify : classify (some v) desired = .delete name fence)

/-- The names come from pods that are terminated. -/
def TerminatedIn (pods : List Pod) (names : List String) : Prop :=
  ∀ n ∈ names, ∃ pod ∈ pods, pod.metadata.name = some n ∧
    decodeStartup pod = .resolved .terminated

/-- A pass of the collection, from the lists it has read. -/
structure Planned (pods : List Pod) (now : Option ℤ) (secrets : List Secret) (names : List String)
    (h : Trace) : Prop where
  terminated : TerminatedIn pods names
  lists : ∃ h₀ : Trace, (∀ e ∈ h₀, e.1.quiet) ∧ Later Call.collects
    (listedSecrets identity secrets :: listedPods identity pods now :: h₀) h

inductive SecretJustified (h : Trace) (name : String) : Prop
  | planned {pods : List Pod} {now : Option ℤ} {secrets : List Secret} {names : List String}
      (hplanned : Planned identity pods now secrets names h)
      (hname : name ∈ (Gc.plan identity pods secrets (isTerminated names) now).secrets)
  /-- The Secret of the attempt that lost. -/
  | own {generation : String} {pods : List Pod} {now : Option ℤ} {h₀ : Trace}
      (hlist : h = listedPods identity pods now :: h₀) (hname : name = identity.secretName generation)
      (hunreferenced : name ∉ pods.filterMap referencedSecret)
      (hminted : mintedSecret (buildSecret identity generation
        (env.insert START_NONCE_KEY generation)) ∈ h₀)
      (hlost : triedPod (buildPod identity cfg generation desired) .alreadyExists ∈ h₀)

/-- A Secret is minted when the pod is observed not to be there, or not to be ours; and what was
minted before has led to a pod. -/
structure MintJustified (h : Trace) (secret : Secret) : Prop where
  observed : ∃ generation h₀ h₁, h = generated generation :: h₁ ∧ Observed identity h₀ none h₁ ∧
    secret = buildSecret identity generation (env.insert START_NONCE_KEY generation) ∧
    ((∀ e ∈ h₀, e.1.quiet) ∨ Created h₀)

/-- A pod is created right after its Secret. -/
def CreateJustified (h : Trace) (pod : Pod) : Prop :=
  ∃ generation h₀, h = mintedSecret (buildSecret identity generation
      (env.insert START_NONCE_KEY generation)) :: generated generation :: h₀ ∧
    pod = buildPod identity cfg generation desired

def Justified (h : Trace) : Call → Prop
  | .deletePod name fence => PodJustified identity desired h name fence
  | .deleteSecret name => SecretJustified identity cfg env desired h name
  | .createSecret secret => MintJustified identity env h secret
  | .createPod pod => CreateJustified identity cfg env desired h pod
  | _ => True

/-- The winner has been read as verified and running. -/
def WinnerRead (h : Trace) : (c : Call) → Answer c → Prop
  | .getPod reader _ => fun a : Except String (Option Pod) =>
    reader = .observe ∧ Lost h ∧ ∃ pod, a = .ok (some pod) ∧
      (verify pod identity .started).isSome = true ∧ agentRunning pod = true
  | _ => fun _ => False

/-- What precedes a success: the pod has just been observed as started. It is not marked for
deletion, or it is a winner, the first that was read as running. -/
structure Confirmed (h : Trace) (id : String) : Prop where
  read : ∃ pod v h₀, h = readPod .observe identity.podName (some pod) :: h₀ ∧
    verify pod identity .started = some v ∧ decodeStartup pod = .resolved .started ∧ id = v.name ∧
    ((v.deletionMarked = false ∧ ¬ Lost h₀) ∨
      (Lost h₀ ∧ Assumed (fun h c a => ¬ WinnerRead identity h c a) h₀))

end

/-! ### The functions that only read -/

section

variable {identity : AgentIdentity} {cfg : ProviderConfig} {env : StringMap}
  {desired : Fingerprint} {h : Trace}

theorem sat_settle (pod : Pod) :
    (settle pod).Sat Named (Justified identity cfg env desired)
      (Post (fun h' startup => ∃ es, Settles pod startup es ∧ h' = es ++ h)
        fun h' _ => Later Call.collects h h') h := by
  rw [settle]
  cases hdecode : decodeStartup pod with
  | resolved startup => exact ⟨[], .resolved hdecode, rfl⟩
  | configErrorPendingSecretCheck name =>
    refine And.intro trivial fun a _ => ?_
    rcases a with e | exists_
    · exact Later.refl.step trivial
    · cases exists_ with
      | true => exact ⟨_, .present hdecode, rfl⟩
      | false => exact ⟨_, .absent hdecode, rfl⟩

theorem Settles.later {pod : Pod} {startup : Startup} {es : Trace} (hs : Settles pod startup es) :
    Later Call.collects h (es ++ h) := by
  cases hs with
  | resolved _ => exact .refl
  | present _ => exact Later.refl.step trivial
  | absent _ => exact Later.refl.step trivial

theorem Observed.later {o : Option VerifiedPod} {h' : Trace} (ho : Observed identity h o h') :
    Later Call.quiet h h' := by
  cases ho with
  | absent => exact Later.refl.step trivial
  | present hs =>
    exact (Later.refl.step trivial).trans (hs.later.imp fun _ => Call.collects.quiet)

theorem sat_observePod :
    (observePod identity).Sat Named (Justified identity cfg env desired)
      (Post (fun h' o => Observed identity h o h') fun h' _ => Later Call.quiet h h') h := by
  refine And.intro trivial fun a _ => ?_
  rcases a with e | pod
  · exact Later.refl.step trivial
  · cases pod with
    | none => exact .absent
    | some pod =>
      refine (sat_settle pod).bind (fun h' startup hs => ?_) fun h' e he => ?_
      · obtain ⟨es, hs, rfl⟩ := hs
        exact .present hs
      · exact (Later.refl.step trivial).trans (he.imp fun _ => Call.collects.quiet)

theorem sat_latestCondition :
    (latestCondition identity).Sat Named (Justified identity cfg env desired)
      (Post (fun h' _ => Later Call.quiet h h') fun _ _ => False) h := by
  refine And.intro trivial fun a _ => ?_
  rcases a with e | pod
  · exact Later.refl.step trivial
  · cases pod <;> exact Later.refl.step trivial

theorem sat_awaitDisappearance (name : String) (fuel : ℕ) :
    (awaitDisappearance name fuel).Sat Named (Justified identity cfg env desired)
      (Post (fun h' _ => Later Call.quiet h h') fun h' _ => Later Call.quiet h h') h := by
  induction fuel generalizing h with
  | zero => trivial
  | succ fuel ih =>
    refine And.intro trivial fun (t : ℕ) _ => ?_
    change Sat Named _ (if t < DEADLINE then _ else _) _ _
    split_ifs
    · refine And.intro trivial fun a _ => ?_
      rcases a with e | pod
      · exact (Later.refl.step trivial).step trivial
      · cases pod with
        | none => exact (Later.refl.step trivial).step trivial
        | some pod =>
          refine And.intro trivial fun _ _ => (ih).mono fun h' result hresult => ?_
          have hlater : Later Call.quiet h
              (⟨.sleep, ⟨⟩⟩ :: readPod .await name (some pod) :: ⟨.elapsed, t⟩ :: h) :=
            ((Later.refl.step trivial).step trivial).step trivial
          cases result <;> exact hlater.trans hresult
    · exact Later.refl.step trivial

/-! ### The preflight collection -/

theorem sat_terminatedNames (pods : List Pod) :
    (terminatedNames pods).Sat Named (Justified identity cfg env desired)
      (Post (fun h' names => Later Call.collects h h' ∧ TerminatedIn pods names)
        fun h' _ => Later Call.collects h h') h := by
  induction pods generalizing h with
  | nil => exact ⟨.refl, fun _ hn => absurd hn List.not_mem_nil⟩
  | cons pod pods ih =>
    refine (sat_settle pod).bind (fun h' startup hs => ?_) fun _ _ he => he
    obtain ⟨es, hs, rfl⟩ := hs
    refine ih.bind (fun h' names hnames => ?_) fun _ _ he => hs.later.trans he
    obtain ⟨hlater, hnames⟩ := hnames
    have hrest : TerminatedIn (pod :: pods) names := fun n hn => by
      obtain ⟨p, hp, hpn⟩ := hnames n hn
      exact ⟨p, List.mem_cons_of_mem pod hp, hpn⟩
    split_ifs with hterminated
    · refine ⟨hs.later.trans hlater, fun n hn => ?_⟩
      rcases List.mem_append.mp hn with hn | hn
      · subst hterminated
        exact ⟨pod, List.mem_cons_self, Option.mem_toList.mp hn, hs.of_terminated.1⟩
      · exact hrest n hn
    · exact ⟨hs.later.trans hlater, hrest⟩

theorem sat_collectPod (name : String) :
    (collectPod name).Sat Named (Justified identity cfg env desired)
      (Post (fun h' _ => Later Call.collects h h') fun h' _ => Later Call.collects h h') h := by
  refine And.intro trivial fun a _ => ?_
  rcases a with e | pod
  · exact Later.refl.step trivial
  · cases pod with
    | none => exact Later.refl.step trivial
    | some pod =>
      have hread : Later Call.collects h (readPod .gc name (some pod) :: h) :=
        Later.refl.step trivial
      simp only [Interaction.bind]
      split
      · rename_i uid version huid hversion
        refine (sat_settle pod).bind (fun h' startup hs => ?_) fun _ _ he => hread.trans he
        obtain ⟨es, hs, rfl⟩ := hs
        split_ifs with hterminated
        · subst hterminated
          obtain ⟨hdecode, rfl⟩ := hs.of_terminated
          refine And.intro (.collected rfl hdecode ⟨huid, hversion⟩) fun a _ => ?_
          exact hread.step trivial
        · exact hread.trans hs.later
      · exact hread

theorem sat_tryPreflightGc (hquiet : ∀ e ∈ h, e.1.quiet) :
    (tryPreflightGc identity).Sat Named (Justified identity cfg env desired)
      (Post (fun h' _ => Later Call.quiet h h') fun h' _ => Later Call.quiet h h') h := by
  refine And.intro trivial fun a _ => ?_
  rcases a with e | ⟨pods, now⟩
  · exact Later.refl.step trivial
  refine And.intro trivial fun a _ => ?_
  rcases a with e | secrets
  · exact (Later.refl.step trivial).step trivial
  have hlists : Later Call.quiet h
      (listedSecrets identity secrets :: listedPods identity pods now :: h) :=
    (Later.refl.step trivial).step trivial
  have hquieter {h' : Trace} (hlater : Later Call.collects
      (listedSecrets identity secrets :: listedPods identity pods now :: h) h') :
      Later Call.quiet h h' :=
    hlists.trans (hlater.imp fun _ => Call.collects.quiet)
  refine (sat_terminatedNames pods).bind (fun h' names hnames => ?_) fun h' e he => hquieter he
  obtain ⟨hlater, hnames⟩ := hnames
  refine (Sat.forM (fun name _ h' hI => (sat_collectPod name).mono fun h'' result hresult => ?_)
    hlater).bind (fun h' _ hI => ?_) fun h' e he => hquieter he
  · cases result <;> exact hI.trans hresult
  · refine (Sat.forM (R := fun _ _ => False) (fun name hname h' hI => ?_) hI).mono
      fun h'' result hresult => ?_
    · exact And.intro (.planned ⟨hnames, h, hquiet, hI⟩ hname) fun a _ => hI.step trivial
    · cases result with
      | ok _ => exact hquieter hresult
      | error _ => exact hresult.elim

theorem sat_preflightGc (hquiet : ∀ e ∈ h, e.1.quiet) :
    (preflightGc identity).Sat Named (Justified identity cfg env desired)
      (Post (fun h' _ => Later Call.quiet h h') fun _ _ => False) h := by
  refine Sat.bind (sat_attempt.mpr ((sat_tryPreflightGc hquiet).mono fun h' result hresult => ?_))
    (fun h' _ hlater => hlater) fun _ _ he => he
  cases result <;> exact hresult

/-! ### Adoption -/

/-- No winner has been read as running. -/
def Calm (identity : AgentIdentity) : Trace → Prop :=
  Assumed fun h c a => ¬ WinnerRead identity h c a

theorem calm_of_not_lost (hlost : ¬ Lost h) : Calm identity h := by
  induction h with
  | nil => trivial
  | cons e h ih =>
    have htail : ¬ Lost h := fun ⟨pod, hpod⟩ => hlost ⟨pod, List.mem_cons_of_mem e hpod⟩
    refine ⟨ih htail, fun hread => ?_⟩
    obtain ⟨c, a⟩ := e
    cases c with
    | getPod reader name => exact htail hread.2.1
    | _ => exact hread.elim

theorem Calm.step (hcalm : Calm identity h) {c : Call} {a : Answer c} (hc : c.blind) :
    Calm identity (⟨c, a⟩ :: h) := by
  refine ⟨hcalm, fun hread => ?_⟩
  cases c with
  | getPod reader name =>
    obtain ⟨rfl, -⟩ := hread
    exact hc
  | _ => exact hread.elim

theorem Calm.later {h' : Trace} (hcalm : Calm identity h) (hlater : Later Call.blind h h') :
    Calm identity h' := by
  obtain ⟨es, hes, rfl⟩ := hlater
  induction es with
  | nil => exact hcalm
  | cons e es ih =>
    exact (ih fun e he => hes e (List.mem_cons_of_mem _ he)).step (hes e List.mem_cons_self)

theorem Lost.later {P : Call → Prop} {h' : Trace} (hlost : Lost h) (hlater : Later P h h') :
    Lost h' :=
  hlost.imp fun _ hpod => hlater.mem hpod

theorem Settles.blind {pod : Pod} {startup : Startup} {es : Trace} (hs : Settles pod startup es) :
    Later Call.blind h (es ++ h) := by
  cases hs with
  | resolved _ => exact .refl
  | present _ => exact Later.refl.step trivial
  | absent _ => exact Later.refl.step trivial

theorem Settles.eq_started {pod : Pod} {startup : Startup} {es : Trace}
    (hs : Settles pod startup es) (hrunning : agentRunning pod = true) : startup = .started := by
  have hdecode := decodeStartup_of_running hrunning
  cases hs with
  | resolved h => exact StartupObservation.resolved.inj (h.symm.trans hdecode)
  | present h => cases h.symm.trans hdecode
  | absent h => cases h.symm.trans hdecode

theorem verify_isSome_congr {pod : Pod} {startup startup' : Startup} :
    (verify pod identity startup).isSome = (verify pod identity startup').isSome := by
  rw [verify, verify]
  split_ifs
  · rfl
  · rfl
  · cases pod.metadata.name <;> cases pod.metadata.uid <;> cases pod.metadata.resourceVersion <;> rfl

/-- An observation that does not show a verified pod as started is calm. -/
theorem Observed.calm {o : Option VerifiedPod} {h' : Trace} (ho : Observed identity h o h')
    (hcalm : Calm identity h) (hnot : ∀ v, o = some v → v.startup ≠ .started) :
    Calm identity h' := by
  cases ho with
  | absent =>
    refine ⟨hcalm, fun hread => ?_⟩
    obtain ⟨-, -, pod, hpod, -⟩ := hread
    cases hpod
  | @present pod startup es hs =>
    have hread : Calm identity (readPod .observe identity.podName (some pod) :: h) := by
      refine ⟨hcalm, fun hread => ?_⟩
      obtain ⟨-, -, pod', hpod, hverified, hrunning⟩ := hread
      obtain rfl : pod = pod' := Option.some.inj (Except.ok.inj hpod)
      obtain rfl := hs.eq_started hrunning
      obtain ⟨v, hv⟩ := Option.isSome_iff_exists.mp hverified
      exact hnot v hv (verify_eq_some hv).startup
    exact hread.later hs.blind

/-- A success, once the pod is observed as started. -/
theorem Observed.started {v : VerifiedPod} {h' : Trace} (ho : Observed identity h (some v) h')
    (hstarted : v.startup = .started)
    (hcase : v.deletionMarked = false ∧ ¬ Lost h ∨ Lost h ∧ Calm identity h) :
    Confirmed identity h' v.name := by
  generalize heq : some v = o at ho
  cases ho with
  | absent => cases heq
  | @present pod startup es hs =>
    have hv := verify_eq_some heq.symm
    obtain rfl := hv.startup.symm.trans hstarted
    obtain ⟨hdecode, rfl⟩ := hs.of_started
    exact ⟨pod, v, h, rfl, heq.symm, hdecode, rfl, hcase⟩

theorem sat_dropOwnSecret {generation : String}
    (hminted : mintedSecret (buildSecret identity generation
      (env.insert START_NONCE_KEY generation)) ∈ h)
    (hlost : triedPod (buildPod identity cfg generation desired) .alreadyExists ∈ h) :
    (dropOwnSecret identity (identity.secretName generation)).Sat Named
      (Justified identity cfg env desired)
      (Post (fun h' _ => Later Call.blind h h') fun _ _ => False) h := by
  refine And.intro trivial fun a _ => ?_
  rcases a with e | ⟨pods, now⟩
  · exact Later.refl.step trivial
  · cases hunreferenced : (pods.filterMap referencedSecret).contains
        (identity.secretName generation) with
    | true =>
      simp only [Interaction.bind, hunreferenced]
      exact Later.refl.step trivial
    | false =>
      simp only [Interaction.bind, hunreferenced]
      refine And.intro (.own rfl rfl (fun hmem => ?_) hminted hlost) fun a _ => ?_
      · exact absurd (hunreferenced.symm.trans (List.contains_iff_mem.mpr hmem)) (by decide)
      · exact (Later.refl.step trivial).step trivial

theorem sat_awaitWinner (hlost : Lost h) (hcalm : Calm identity h) (fuel : ℕ) :
    (awaitWinner identity fuel).Sat Named (Justified identity cfg env desired)
      (Post (Confirmed identity) fun _ _ => True) h := by
  induction fuel generalizing h with
  | zero => trivial
  | succ fuel ih =>
    refine And.intro trivial fun (t : ℕ) _ => ?_
    have hlost : Lost (⟨.elapsed, t⟩ :: h) := hlost.later (P := Call.quiet) (Later.refl.step trivial)
    have hcalm : Calm identity (⟨.elapsed, t⟩ :: h) := hcalm.step trivial
    change Sat Named _ (if DEADLINE ≤ t then _ else _) _ _
    split_ifs
    · exact sat_latestCondition.bind (fun _ _ _ => trivial) fun _ _ he => he.elim
    · refine sat_observePod.bind (fun h' o ho => ?_) fun _ _ _ => trivial
      have hagain (hnot : ∀ v, o = some v → v.startup ≠ .started) :
          (sleep >>= fun _ => awaitWinner identity fuel).Sat Named
            (Justified identity cfg env desired) (Post (Confirmed identity) fun _ _ => True) h' :=
        And.intro trivial fun _ _ =>
          ih (hlost.later (P := Call.quiet) (ho.later.step trivial)) ((ho.calm hcalm hnot).step trivial)
      cases o with
      | none => exact hagain fun _ hv => nomatch hv
      | some v =>
        change Sat Named _ (if v.startup = .started then _ else _) _ _
        split_ifs with hstarted hmarked hended
        · exact ho.started hstarted (.inr ⟨hlost, hcalm⟩)
        · exact trivial
        · exact sat_latestCondition.bind (fun _ _ _ => trivial) fun _ _ he => he.elim
        · exact hagain fun _ hv => Option.some.inj hv ▸ hstarted

theorem sat_adoptWinner {generation : String} (fuel : ℕ) (hcalm : Calm identity h)
    (hminted : mintedSecret (buildSecret identity generation
      (env.insert START_NONCE_KEY generation)) ∈ h)
    (hlost : triedPod (buildPod identity cfg generation desired) .alreadyExists ∈ h) :
    (adoptWinner identity (identity.secretName generation) fuel).Sat Named
      (Justified identity cfg env desired) (Post (Confirmed identity) fun _ _ => True) h := by
  have hadopt {h' : Trace} (hlater : Later Call.blind h h') :
      (dropOwnSecret identity (identity.secretName generation) >>= fun _ =>
        awaitWinner identity fuel).Sat Named (Justified identity cfg env desired)
        (Post (Confirmed identity) fun _ _ => True) h' :=
    (sat_dropOwnSecret (hlater.mem hminted) (hlater.mem hlost)).bind
      (fun h'' _ hdropped => sat_awaitWinner ⟨_, hdropped.mem (hlater.mem hlost)⟩
        ((hcalm.later hlater).later hdropped) fuel) fun _ _ he => he.elim
  refine And.intro trivial fun a _ => ?_
  rcases a with e | pod
  · trivial
  · cases pod with
    | none => exact hadopt (Later.refl.step trivial)
    | some pod =>
      have hread : Later Call.blind h (readPod .adopt identity.podName (some pod) :: h) :=
        Later.refl.step trivial
      refine (sat_settle pod).bind (fun h' startup hs => ?_) fun _ _ _ => trivial
      obtain ⟨es, hs, rfl⟩ := hs
      have hlater := hread.trans (hs.blind)
      split_ifs
      · exact (sat_dropOwnSecret (hlater.mem hminted) (hlater.mem hlost)).bind
          (fun _ _ _ => trivial) fun _ _ he => he.elim
      · exact hadopt hlater

/-! ### The loop -/

theorem sat_createAttempt {h₀ : Trace} (ho : Observed identity h₀ none h)
    (hbefore : (∀ e ∈ h₀, e.1.quiet) ∨ Created h₀) :
    (createAttempt identity cfg env desired).Sat Named (Justified identity cfg env desired)
      (Post (fun h' attempt => ∃ generation, attempt.1 = identity.secretName generation ∧
        h' = triedPod (buildPod identity cfg generation desired) attempt.2 ::
          mintedSecret (buildSecret identity generation
            (env.insert START_NONCE_KEY generation)) :: generated generation :: h)
        fun _ _ => True) h := by
  refine And.intro trivial fun (generation : String) _ => ?_
  refine And.intro ⟨generation, h₀, h, rfl, ho, rfl, hbefore⟩ fun a _ => ?_
  rcases a with e | ⟨⟩
  · trivial
  · refine And.intro ⟨generation, h, rfl, rfl⟩ fun a _ => ?_
    rcases a with e | outcome
    · trivial
    · exact ⟨generation, rfl, rfl⟩

/-- What the loop knows at its head, under its flag. -/
structure AtHead (h : Trace) (createdThisCall : Bool) : Prop where
  not_lost : ¬ Lost h
  quiet : createdThisCall = false → ∀ e ∈ h, e.1.quiet
  created : createdThisCall = true → Created h

theorem AtHead.later {h' : Trace} {flag : Bool} (hhead : AtHead h flag)
    (hlater : Later Call.quiet h h') : AtHead h' flag where
  not_lost := fun ⟨pod, hpod⟩ => (hlater.mem_or hpod).elim id fun hmem => hhead.not_lost ⟨pod, hmem⟩
  quiet hflag e he := (hlater.mem_or he).elim id (hhead.quiet hflag e)
  created hflag := (hhead.created hflag).imp fun _ hpod => hlater.mem hpod

theorem sat_deployLoop (fuel : ℕ) {flag : Bool} (hhead : AtHead h flag) :
    (deployLoop identity cfg env desired fuel flag).Sat Named
      (Justified identity cfg env desired) (Post (Confirmed identity) fun _ _ => True) h := by
  induction fuel generalizing h flag with
  | zero => trivial
  | succ fuel ih =>
    refine And.intro trivial fun (t : ℕ) _ => ?_
    have hhead : AtHead (⟨.elapsed, t⟩ :: h) flag := hhead.later (Later.refl.step trivial)
    change Sat Named _ (if DEADLINE ≤ t then _ else _) _ _
    by_cases hdeadline : DEADLINE ≤ t
    · rw [if_pos hdeadline]
      exact sat_latestCondition.bind (fun _ _ _ => trivial) fun _ _ he => he.elim
    rw [if_neg hdeadline]
    refine sat_observePod.bind (fun h' o ho => ?_) fun _ _ _ => trivial
    have hagain {h'' : Trace} (hlater : Later Call.quiet h' h'') :
        (sleep >>= fun _ => deployLoop identity cfg env desired fuel flag).Sat Named
          (Justified identity cfg env desired) (Post (Confirmed identity) fun _ _ => True) h'' :=
      And.intro trivial fun _ _ => ih ((hhead.later ho.later).later (hlater.step trivial))
    have hwait (name : String) {h'' : Trace} (hlater : Later Call.quiet h' h'') :
        (awaitDisappearance name fuel >>= fun _ => deployLoop identity cfg env desired fuel flag).Sat
          Named (Justified identity cfg env desired) (Post (Confirmed identity) fun _ _ => True)
          h'' :=
      (sat_awaitDisappearance name fuel).bind
        (fun _ _ hgone => ih ((hhead.later ho.later).later (hlater.trans hgone)))
        fun _ _ _ => trivial
    cases haction : classify o desired with
    | noOp agentId =>
      obtain ⟨v, rfl, rfl, hmarked, hstarted⟩ := classify_eq_noOp haction
      dsimp only
      exact ho.started hstarted (.inl ⟨hmarked, hhead.not_lost⟩)
    | observe name =>
      dsimp only
      exact hagain .refl
    | report name failure =>
      dsimp only
      exact trivial
    | awaitDisappearance name =>
      dsimp only
      exact hwait name .refl
    | delete name fence =>
      dsimp only
      split_ifs with hflag
      · exact sat_latestCondition.bind (fun _ _ _ => trivial) fun _ _ he => he.elim
      · obtain ⟨v, rfl, -⟩ := classify_eq_delete haction
        refine And.intro (.replaced ho haction) fun a _ => ?_
        rcases a with e | outcome
        · trivial
        · cases outcome with
          | accepted => exact hwait name (Later.refl.step trivial)
          | notFound => exact hwait name (Later.refl.step trivial)
          | preconditionFailed => exact hagain (Later.refl.step trivial)
    | create =>
      dsimp only
      obtain rfl := classify_eq_create haction
      have hbefore : (∀ e ∈ (⟨.elapsed, t⟩ :: h : Trace), e.1.quiet) ∨
          Created (⟨.elapsed, t⟩ :: h) := by
        cases flag with
        | false => exact .inl (hhead.quiet rfl)
        | true => exact .inr (hhead.created rfl)
      refine (sat_createAttempt ho hbefore).bind (fun h'' attempt hattempt => ?_)
        fun _ _ _ => trivial
      obtain ⟨secretName, outcome⟩ := attempt
      obtain ⟨generation, rfl, rfl⟩ := hattempt
      have hnot := (hhead.later ho.later).not_lost
      cases outcome with
      | created =>
        refine And.intro trivial fun _ _ => ih ⟨?_, fun hflag => (nomatch hflag), fun _ => ?_⟩
        · rintro ⟨pod, hpod⟩
          rcases List.mem_cons.mp hpod with heq | hpod
          · cases heq
          rcases List.mem_cons.mp hpod with heq | hpod
          · cases heq
          rcases List.mem_cons.mp hpod with heq | hpod
          · cases heq
          rcases List.mem_cons.mp hpod with heq | hpod
          · cases heq
          exact hnot ⟨pod, hpod⟩
        · exact ⟨_, List.mem_cons_of_mem _ List.mem_cons_self⟩
      | alreadyExists =>
        refine sat_adoptWinner fuel ⟨⟨?_, id⟩, id⟩ (List.mem_cons_of_mem _ List.mem_cons_self)
          List.mem_cons_self
        exact ⟨calm_of_not_lost hnot, id⟩

end

/-- Every call of a deploy is justified, and its success is confirmed. -/
theorem sat_deploy (fingerprint : IntentTemplate → Fingerprint) (args : DeployArgs) (fuel : ℕ) :
    (deploy fingerprint args fuel).Sat Named
      (Justified args.identity args.cfg args.env (args.desired fingerprint))
      (Post (Confirmed args.identity) fun _ _ => True) [] := by
  refine And.intro trivial fun a _ => ?_
  rcases a with e | ⟨⟩
  · trivial
  have hquiet : ∀ e ∈ ([⟨.ensureNamespace args.cfg.ns, .ok ⟨⟩⟩] : Trace), e.1.quiet := by
    intro e he
    rw [List.mem_singleton.mp he]
    trivial
  refine (sat_preflightGc hquiet).bind (fun h' _ hlater => ?_) fun _ _ he => he.elim
  have hall (e : Event Answer) (he : e ∈ h') : e.1.quiet := (hlater.mem_or he).elim id (hquiet e)
  exact sat_deployLoop fuel
    ⟨fun ⟨_, hpod⟩ => hall _ hpod, fun _ => hall, fun hflag => nomatch hflag⟩

end Buzz.BackendKubernetes
