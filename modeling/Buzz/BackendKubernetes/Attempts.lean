import Buzz.BackendKubernetes.Cluster

/-!
# Attempts and their Secrets

Deploys of one identity share a namespace. A Secret is free once no pod of its attempt lives, and
none will be created: its attempt has had its create, or has had the Secret for as long as the
deadline. Every delete of a Secret is of a free one.

## Main definitions

* `oneIdentity`: the deploys of an identity, and what others do around them.
* `Free`: a Secret that no pod needs, now or later.
* `Advance`: what a step does to the attempts.
* `Knows`: what an answer has shown of the attempts.

## Main results

* `Free.advance`, `Knows.advance`: what is free stays free, and what was shown stays true.
* `SecretJustified.free`: a Secret that a deploy deletes is free.
-/

namespace Buzz.BackendKubernetes

open Library Interaction

/-! ### The setting -/

/-- The status of a pod has changed, or its mark for deletion. -/
def Pod.Updated (old pod : Pod) : Prop :=
  ∃ version mark status, pod = { old with
    metadata := { old.metadata with resourceVersion := version, deletionTimestamp := mark }
    status := status }

/-- What happens around the deploys of an identity: time passes, and pods of the identity are updated
or go. Other pods and Secrets are as others please. -/
structure Outside (identity : AgentIdentity) (σ σ' : Cluster) : Prop where
  versioned : σ.Versioned σ'
  clock : σ.now ≤ σ'.now
  pods : ∀ name pod, σ'.pods name = some pod → Owned pod identity →
    ∃ old, σ.pods name = some old ∧ old.Updated pod
  named : ∀ name secret, σ'.secrets name = some secret → secret.metadata.name = some name
  secrets : ∀ g, σ'.secrets (identity.secretName g) = σ.secrets (identity.secretName g)
  minted : ∀ g, σ'.minted (identity.secretName g) = σ.minted (identity.secretName g)

/-- No deploy of the identity has run. -/
structure Untouched (identity : AgentIdentity) (σ : Cluster) : Prop where
  wellFormed : σ.WellFormed
  pods : ∀ name pod, σ.pods name = some pod → ¬ Owned pod identity
  named : ∀ name secret, σ.secrets name = some secret → secret.metadata.name = some name
  secrets : ∀ g, σ.secrets (identity.secretName g) = none
  minted : ∀ g, σ.minted (identity.secretName g) = none

/-- The deadline of an attempt, in nanoseconds. -/
def ATTEMPT : ℤ := OPERATION_DEADLINE_SECS * 1000000000

section

variable {ι : Type}

/-- A generation is new to all deploys, and a pod is created less than the deadline after its
Secret. -/
def Timely (w : World ι) : (c : Call) → Answer c → Cluster → Prop
  | .newGeneration => fun generation _ => ∀ i, generated generation ∉ w.history i
  | .createPod pod => fun _ σ => w.cluster.CreatesPod pod σ →
    ∃ name m, referencedSecret pod = some name ∧ w.cluster.minted name = some m ∧
      w.cluster.now < m + ATTEMPT
  | _ => fun _ _ => True

/-- Deploys of one identity. -/
def oneIdentity (fingerprint : IntentTemplate → Fingerprint) (identity : AgentIdentity)
    (cfg : ι → ProviderConfig) (env : ι → StringMap) (fuel : ι → ℕ) : Setting ι where
  fingerprint
  args i := ⟨identity, cfg i, env i⟩
  fuel
  start := Untouched identity
  outside := Outside identity
  allowed := Timely
  wellFormed := fun _ h => h.wellFormed
  versioned := fun _ _ h => h.versioned

end

/-! ### Attempts -/

/-- The pod of an attempt, by the Secret it refers to. -/
def Pod.ofAttempt (identity : AgentIdentity) (g : String) (pod : Pod) : Prop :=
  referencedSecret pod = some (identity.secretName g)

section

variable {ι : Type} {identity : AgentIdentity} {w w' : World ι} {g g' : String}

theorem Pod.ofAttempt_inj {pod : Pod} (h : pod.ofAttempt identity g)
    (h' : pod.ofAttempt identity g') : g = g' :=
  identity.secretName_injective (Option.some.inj (h.symm.trans h'))

/-- The attempt has made its create. -/
def Tried (identity : AgentIdentity) (w : World ι) (g : String) : Prop :=
  ∃ i pod a, ⟨.createPod pod, a⟩ ∈ w.history i ∧ pod.ofAttempt identity g

/-- No pod of the attempt will be created. -/
def Closed (identity : AgentIdentity) (w : World ι) (g : String) : Prop :=
  Tried identity w g ∨
    ∃ m, w.cluster.minted (identity.secretName g) = some m ∧ m + ATTEMPT ≤ w.cluster.now

/-- No pod of the attempt lives, and none will. -/
structure Free (identity : AgentIdentity) (w : World ι) (g : String) : Prop where
  closed : Closed identity w g
  ended : ∀ name pod, w.cluster.pods name = some pod → Owned pod identity →
    pod.ofAttempt identity g → ∀ uid, pod.metadata.uid = some uid → uid ∈ w.ended

/-- A pod of an attempt that was not closed. -/
structure Newborn (identity : AgentIdentity) (w w' : World ι) (name : String) (pod : Pod) : Prop where
  name_eq : name = identity.podName
  selected : Selects identity.selector pod.metadata.labels
  attempt : ∃ g, pod.ofAttempt identity g ∧ ¬ Closed identity w g ∧ Tried identity w' g

/-- What a step does to the attempts. -/
structure Advance (identity : AgentIdentity) (w w' : World ι) : Prop where
  clock : w.cluster.now ≤ w'.cluster.now
  tried : ∀ g, Tried identity w g → Tried identity w' g
  ended : w.ended ⊆ w'.ended
  pods : ∀ name pod, w'.cluster.pods name = some pod → Owned pod identity →
    (∃ old, w.cluster.pods name = some old ∧ old.Updated pod) ∨ Newborn identity w w' name pod
  minted : ∀ g m, w.cluster.minted (identity.secretName g) = some m →
    w'.cluster.minted (identity.secretName g) = some m
  mints : ∀ g m, w'.cluster.minted (identity.secretName g) = some m →
    w.cluster.minted (identity.secretName g) = some m ∨
      (m = w.cluster.now ∧ (w'.cluster.secrets (identity.secretName g)).isSome = true ∧
        ∃ i h secret a, w.history i = generated g :: h ∧
          w'.history i = ⟨.createSecret secret, a⟩ :: w.history i)
  named : ∀ name secret, w'.cluster.secrets name = some secret →
    secret.metadata.name = some name
  secrets : ∀ g secret, w'.cluster.secrets (identity.secretName g) = some secret →
    w.cluster.secrets (identity.secretName g) = some secret ∨
      ∃ m created, w'.cluster.minted (identity.secretName g) = some m ∧
        secret.metadata.creationTimestamp = some created ∧ Stamps m created
  kept : ∀ g, (w.cluster.secrets (identity.secretName g)).isSome = true →
    (w'.cluster.secrets (identity.secretName g)).isSome = true ∨ Free identity w g

theorem Pod.Updated.owned {old pod : Pod} (h : old.Updated pod) (howned : Owned pod identity) :
    Owned old identity := by
  obtain ⟨version, mark, status, rfl⟩ := h
  exact howned

theorem Pod.Updated.ofAttempt {old pod : Pod} (h : old.Updated pod)
    (hattempt : pod.ofAttempt identity g) : old.ofAttempt identity g := by
  obtain ⟨version, mark, status, rfl⟩ := h
  exact hattempt

theorem Closed.advance (h : Closed identity w g) (hadvance : Advance identity w w') :
    Closed identity w' g := by
  rcases h with h | ⟨m, hm, hle⟩
  · exact .inl (hadvance.tried g h)
  · exact .inr ⟨m, hadvance.minted g m hm, hle.trans hadvance.clock⟩

/-- What is free stays free. -/
theorem Free.advance (h : Free identity w g) (hadvance : Advance identity w w') :
    Free identity w' g where
  closed := h.closed.advance hadvance
  ended name pod hpod howned hattempt uid huid := by
    rcases hadvance.pods name pod hpod howned with ⟨old, hold, hupdated⟩ | hnew
    · refine hadvance.ended (h.ended name old hold (hupdated.owned howned)
        (hupdated.ofAttempt hattempt) uid ?_)
      obtain ⟨version, mark, status, rfl⟩ := hupdated
      exact huid
    · obtain ⟨g', hattempt', hopen, -⟩ := hnew.attempt
      obtain rfl := Pod.ofAttempt_inj hattempt hattempt'
      exact absurd h.closed hopen

/-! ### What answers show -/

/-- What a list of pods has shown. -/
structure PodsSeen (identity : AgentIdentity) (w : World ι) (pods : List Pod) (date : Option ℤ) :
    Prop where
  wellFormed : ∀ p ∈ pods, ∃ name fence, p.metadata.name = some name ∧ p.fenced fence
  unique : ∀ p ∈ pods, ∀ q ∈ pods, q.metadata.name = p.metadata.name → q = p
  ended : ∀ p ∈ pods, Owned p identity → decodeStartup p = .resolved .terminated →
    ∀ g, p.ofAttempt identity g → Free identity w g
  unlisted : ∀ t, date = some t → ∃ τ ≤ w.cluster.now, Stamps τ t ∧
    ∀ g m, w.cluster.minted (identity.secretName g) = some m → m + ATTEMPT ≤ τ →
      Free identity w g ∨ ∃ p ∈ pods, Owned p identity ∧ p.ofAttempt identity g ∧
        decodeStartup p ≠ .resolved .terminated

/-- What a list of Secrets has shown. -/
def SecretsSeen (identity : AgentIdentity) (w : World ι) (secrets : List Secret) : Prop :=
  ∀ secret ∈ secrets, ∀ g, secret.metadata.name = some (identity.secretName g) →
    ∃ m created, w.cluster.minted (identity.secretName g) = some m ∧
      secret.metadata.creationTimestamp = some created ∧ Stamps m created

/-- What an answer has shown of the attempts. -/
def Knows (identity : AgentIdentity) (w : World ι) : Event Answer → Prop
  | ⟨.listPods selector, a⟩ =>
    let a : Except String (List Pod × Option ℤ) := a
    selector = identity.selector → ∀ pods date, a = .ok (pods, date) →
      PodsSeen identity w pods date
  | ⟨.listSecrets _, a⟩ =>
    let a : Except String (List Secret) := a
    ∀ secrets, a = .ok secrets → SecretsSeen identity w secrets
  | ⟨.createSecret secret, a⟩ =>
    let a : Except String PUnit := a
    a = .ok ⟨⟩ → ∀ g, secret.metadata.name = some (identity.secretName g) →
      ∃ m, w.cluster.minted (identity.secretName g) = some m
  | ⟨.createPod pod, a⟩ =>
    let a : Except String CreateOutcome := a
    a = .ok .alreadyExists → ∀ g, pod.ofAttempt identity g → Free identity w g
  | _ => True

theorem PodsSeen.advance {pods : List Pod} {date : Option ℤ} (h : PodsSeen identity w pods date)
    (hadvance : Advance identity w w') : PodsSeen identity w' pods date where
  wellFormed := h.wellFormed
  unique := h.unique
  ended p hp howned hterminated g hattempt :=
    (h.ended p hp howned hterminated g hattempt).advance hadvance
  unlisted t ht := by
    obtain ⟨τ, hτ, hstamps, hall⟩ := h.unlisted t ht
    refine ⟨τ, hτ.trans hadvance.clock, hstamps, fun g m hm hage => ?_⟩
    rcases hadvance.mints g m hm with hm | ⟨rfl, -⟩
    · exact (hall g m hm hage).imp_left fun hfree => hfree.advance hadvance
    · have : 0 < ATTEMPT := by decide
      omega

theorem SecretsSeen.advance {secrets : List Secret} (h : SecretsSeen identity w secrets)
    (hadvance : Advance identity w w') : SecretsSeen identity w' secrets := by
  intro secret hsecret g hname
  obtain ⟨m, created, hm, hcreated, hstamps⟩ := h secret hsecret g hname
  exact ⟨m, created, hadvance.minted g m hm, hcreated, hstamps⟩

/-- What was shown stays true. -/
theorem Knows.advance {e : Event Answer} (h : Knows identity w e)
    (hadvance : Advance identity w w') : Knows identity w' e := by
  obtain ⟨c, a⟩ := e
  cases c with
  | listPods selector =>
    exact fun hselector pods date ha => (h hselector pods date ha).advance hadvance
  | listSecrets selector => exact fun secrets ha => (h secrets ha).advance hadvance
  | createSecret secret =>
    exact fun ha g hname => (h ha g hname).imp fun m hm => hadvance.minted g m hm
  | createPod pod => exact fun ha g hattempt => (h ha g hattempt).advance hadvance
  | _ => trivial

/-! ### What is deleted -/

theorem PodsSeen.terminated {pods : List Pod} {date : Option ℤ} {names : List String} {p : Pod}
    (h : PodsSeen identity w pods date) (hnames : TerminatedIn pods names) (hp : p ∈ pods)
    (hterminated : isTerminated names p = true) : decodeStartup p = .resolved .terminated := by
  obtain ⟨n, hn, hname⟩ := isTerminated_eq_true.mp hterminated
  obtain ⟨q, hq, hqname, hdecode⟩ := hnames n hn
  exact h.unique p hp q hq (hqname.trans hname.symm) ▸ hdecode

/-- A listed pod of the identity that is not terminated protects its Secret. -/
theorem PodsSeen.guarded {pods : List Pod} {date : Option ℤ} {names : List String} {p : Pod}
    (h : PodsSeen identity w pods date) (hnames : TerminatedIn pods names) (hp : p ∈ pods)
    (howned : Owned p identity) (hattempt : p.ofAttempt identity g)
    (hlive : decodeStartup p ≠ .resolved .terminated) :
    identity.secretName g ∈ Gc.protectedSecrets identity pods (isTerminated names) := by
  obtain ⟨name, fence, hname, hfence⟩ := h.wellFormed p hp
  refine List.mem_filterMap.mpr ⟨p, List.mem_filter.mpr
    ⟨Gc.mem_ours.mpr ⟨hp, verify_isSome howned hname hfence⟩, ?_⟩, hattempt⟩
  rw [Bool.not_eq_true', Bool.eq_false_iff, ne_eq, List.contains_iff_mem]
  intro hdoomed
  obtain ⟨q, hq, hqname⟩ := List.mem_filterMap.mp hdoomed
  obtain ⟨hours, hterminated⟩ := List.mem_filter.mp hq
  have hqp : q = p := by
    refine h.unique p hp q (Gc.mem_ours.mp hours).1 ?_
    rw [hqname, hname, Option.getD_some]
  exact hlive (h.terminated hnames hp (hqp ▸ hterminated))

theorem numSeconds_age {t created m τ : ℤ}
    (hage : ORPHAN_SECRET_MIN_AGE_SECS ≤ numSeconds (t - created)) (hm : Stamps m created)
    (ht : Stamps τ t) : m + ATTEMPT ≤ τ := by
  have h : (1200 : ℤ) * 1000000000 ≤ t - created := by
    simp only [ORPHAN_SECRET_MIN_AGE_SECS, OPERATION_DEADLINE_SECS, numSeconds,
      Int.tdiv_eq_ediv] at hage
    have hsign : Int.sign 1000000000 = 1 := rfl
    split_ifs at hage <;> omega
  simp only [Stamps, ATTEMPT, OPERATION_DEADLINE_SECS] at *
  omega

/-- A Secret that a deploy deletes is free, if it is one of an attempt. -/
theorem SecretJustified.free {cfg : ProviderConfig} {env : StringMap} {desired : Fingerprint}
    {h : Trace} (hjustified : SecretJustified identity cfg env desired h (identity.secretName g))
    (hknows : ∀ e ∈ h, Knows identity w e) : Free identity w g := by
  generalize hname : identity.secretName g = name at hjustified
  cases hjustified with
  | @planned pods now secrets names hplanned hmem =>
    obtain ⟨h₀, -, es, -, rfl⟩ := hplanned.lists
    have hpods : PodsSeen identity w pods now :=
      hknows (listedPods identity pods now)
        (List.mem_append_right es (List.mem_cons_of_mem _ List.mem_cons_self)) rfl pods now rfl
    have hsecrets : SecretsSeen identity w secrets :=
      hknows (listedSecrets identity secrets) (List.mem_append_right es List.mem_cons_self)
        secrets rfl
    rcases Gc.mem_plan_secrets hmem with ⟨p, hp, hterminated, hreferenced⟩ |
      ⟨t, ht, secret, hsecret, horphan⟩
    · obtain ⟨hlisted, hverified⟩ := Gc.mem_ours.mp hp
      obtain ⟨v, hv⟩ := Option.isSome_iff_exists.mp hverified
      exact hpods.ended p hlisted (verify_eq_some hv).owned
        (hpods.terminated hplanned.terminated hlisted hterminated) g (hreferenced.trans (hname ▸ rfl))
    · obtain ⟨m, created, hm, hcreated, hstamps⟩ :=
        hsecrets secret hsecret g (hname ▸ horphan.name_eq)
      obtain ⟨created', hcreated', hage⟩ := horphan.age
      obtain rfl := Option.some.inj (hcreated.symm.trans hcreated')
      obtain ⟨τ, -, hτ, hall⟩ := hpods.unlisted t ht
      rcases hall g m hm (numSeconds_age hage hstamps hτ) with hfree | ⟨p, hp, howned, hattempt, hlive⟩
      · exact hfree
      · exact absurd (hname ▸ hpods.guarded hplanned.terminated hp howned hattempt hlive)
          horphan.unguarded
  | @own generation pods now h₀ hlist hown _ _ hlost =>
    obtain rfl := identity.secretName_injective (hname.trans hown)
    subst hlist
    exact hknows _ (List.mem_cons_of_mem _ hlost) rfl g rfl

end

end Buzz.BackendKubernetes
