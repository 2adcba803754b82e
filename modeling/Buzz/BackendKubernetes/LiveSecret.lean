import Buzz.BackendKubernetes.Attempts
import Buzz.BackendKubernetes.Success

/-!
# No live pod loses its Secret

The invariant of the attempts: a Secret that was minted exists or is free.

## Main definitions

* `Stock`, `Generations`, `Ledger`: the invariant.

## Main results

* `Ledger.advance`: a call of a deploy keeps the attempts.
* `Reachable.ledger`: the invariant holds of every reachable state.
* `secret_of_live`: the Secret of a pod that has not terminated exists.
-/

namespace Buzz.BackendKubernetes

open Library Interaction

section

variable {ι : Type} {identity : AgentIdentity} {w w' : World ι} {g : String}

/-! ### The invariant -/

/-- The deploy has drawn the generation of an attempt, and not made its create. -/
def Pending (w : World ι) (i : ι) (g : String) : Prop :=
  (∃ h, w.history i = generated g :: h) ∨
    ∃ secret h, w.history i = mintedSecret secret :: generated g :: h

/-- The pods and the Secrets of the attempts. -/
structure Stock (identity : AgentIdentity) (w : World ι) : Prop where
  pods : ∀ name pod, w.cluster.pods name = some pod → Owned pod identity →
    name = identity.podName ∧ Selects identity.selector pod.metadata.labels ∧
      ∃ g, pod.ofAttempt identity g ∧ Tried identity w g
  named : ∀ name secret, w.cluster.secrets name = some secret → secret.metadata.name = some name
  secrets : ∀ g secret, w.cluster.secrets (identity.secretName g) = some secret →
    ∃ m created, w.cluster.minted (identity.secretName g) = some m ∧
      secret.metadata.creationTimestamp = some created ∧ Stamps m created
  kept : ∀ g m, w.cluster.minted (identity.secretName g) = some m →
    (w.cluster.secrets (identity.secretName g)).isSome = true ∨ Free identity w g

/-- The generations of the attempts. -/
structure Generations (identity : AgentIdentity) (w : World ι) : Prop where
  unique : ∀ i j g, Pending w i g → Pending w j g → i = j
  untried : ∀ i g, Pending w i g → ¬ Tried identity w g
  unminted : ∀ i g h, w.history i = generated g :: h →
    w.cluster.minted (identity.secretName g) = none
  drawn : ∀ g, Tried identity w g → ∃ i, generated g ∈ w.history i
  minted_drawn : ∀ g m, w.cluster.minted (identity.secretName g) = some m →
    ∃ i, generated g ∈ w.history i
  tried_minted : ∀ g, Tried identity w g →
    ∃ m, w.cluster.minted (identity.secretName g) = some m

structure Ledger (identity : AgentIdentity) (w : World ι) : Prop where
  stock : Stock identity w
  generations : Generations identity w
  knows : ∀ i, ∀ e ∈ w.history i, Knows identity w e

theorem Stock.advance (h : Stock identity w) (hadvance : Advance identity w w') :
    Stock identity w' where
  pods name pod hpod howned := by
    rcases hadvance.pods name pod hpod howned with ⟨old, hold, hupdated⟩ | hnew
    · obtain ⟨hname, hselected, g, hattempt, htried⟩ :=
        h.pods name old hold (hupdated.owned howned)
      obtain ⟨version, mark, status, rfl⟩ := hupdated
      exact ⟨hname, hselected, g, hattempt, hadvance.tried g htried⟩
    · obtain ⟨g, hattempt, -, htried⟩ := hnew.attempt
      exact ⟨hnew.name_eq, hnew.selected, g, hattempt, htried⟩
  named := hadvance.named
  secrets g secret hsecret := by
    rcases hadvance.secrets g secret hsecret with hold | hnew
    · obtain ⟨m, created, hm, hrest⟩ := h.secrets g secret hold
      exact ⟨m, created, hadvance.minted g m hm, hrest⟩
    · exact hnew
  kept g m hm := by
    rcases hadvance.mints g m hm with hold | ⟨-, hsome, -⟩
    · rcases h.kept g m hold with hsome | hfree
      · exact (hadvance.kept g hsome).imp_right fun hfree => hfree.advance hadvance
      · exact .inr (hfree.advance hadvance)
    · exact .inl hsome

theorem Pending.drawn {j : ι} (h : Pending w j g) : generated g ∈ w.history j := by
  rcases h with ⟨h₀, heq⟩ | ⟨secret, h₀, heq⟩
  · exact heq ▸ List.mem_cons_self
  · exact heq ▸ List.mem_cons_of_mem _ List.mem_cons_self

/-- A create is of a pending attempt, whose Secret has been minted. -/
theorem CreateJustified.pending {i : ι} {cfg : ProviderConfig} {env : StringMap} {desired : Fingerprint}
    {pod : Pod} (hjustified : CreateJustified identity cfg env desired (w.history i) pod)
    (hattempt : pod.ofAttempt identity g) : Pending w i g ∧ ∃ secret,
      secret.metadata.name = some (identity.secretName g) ∧ mintedSecret secret ∈ w.history i := by
  obtain ⟨g', h₀, hhead, rfl⟩ := hjustified
  obtain rfl := Pod.ofAttempt_inj hattempt rfl
  exact ⟨.inr ⟨_, h₀, hhead⟩, _, rfl, hhead ▸ List.mem_cons_self⟩

/-! ### Steps of others -/

theorem Outside.advance {σ : Cluster} (h : Outside identity w.cluster σ) :
    Advance identity w (w.move σ) where
  clock := h.clock
  tried _ htried := htried
  ended := Set.subset_union_left
  pods name pod hpod howned := .inl (h.pods name pod hpod howned)
  minted g _ hm := (h.minted g).trans hm
  mints g _ hm := .inl ((h.minted g).symm.trans hm)
  named := h.named
  secrets g _ hsecret := .inl ((h.secrets g).symm.trans hsecret)
  kept g hsome := .inl ((h.secrets g).symm ▸ hsome)

theorem Ledger.outside {σ : Cluster} (hledger : Ledger identity w)
    (h : Outside identity w.cluster σ) : Ledger identity (w.move σ) where
  stock := hledger.stock.advance h.advance
  generations :=
    { unique := hledger.generations.unique
      untried := hledger.generations.untried
      unminted := fun i g trace heq => (h.minted g).trans (hledger.generations.unminted i g trace heq)
      drawn := hledger.generations.drawn
      minted_drawn := fun g m hm => hledger.generations.minted_drawn g m ((h.minted g).symm.trans hm)
      tried_minted := fun g htried => (hledger.generations.tried_minted g htried).imp
        fun _ hm => (h.minted g).trans hm }
  knows i e he := (hledger.knows i e he).advance h.advance

/-! ### Steps of a deploy -/

variable [DecidableEq ι] {i : ι} {e : Event Answer} {σ : Cluster} {q : Deploying String}

theorem mem_answered {e' : Event Answer} {j : ι} (h : e' ∈ w.history j) :
    e' ∈ (w.answered i e σ q).history j := by
  by_cases hj : j = i
  · subst hj
    rw [World.answered_history_self]
    exact List.mem_cons_of_mem e h
  · rw [World.answered_history_of_ne _ _ _ _ hj]
    exact h

theorem mem_answered_iff {e' : Event Answer} :
    (∃ j, e' ∈ (w.answered i e σ q).history j) ↔ e' = e ∨ ∃ j, e' ∈ w.history j := by
  constructor
  · rintro ⟨j, hj⟩
    by_cases hji : j = i
    · subst hji
      rw [World.answered_history_self] at hj
      exact (List.mem_cons.mp hj).imp_right fun hj => ⟨j, hj⟩
    · rw [World.answered_history_of_ne _ _ _ _ hji] at hj
      exact .inr ⟨j, hj⟩
  · rintro (rfl | ⟨j, hj⟩)
    · refine ⟨i, ?_⟩
      rw [World.answered_history_self]
      exact List.mem_cons_self
    · exact ⟨j, mem_answered hj⟩

theorem Tried.answered (h : Tried identity w g) : Tried identity (w.answered i e σ q) g := by
  obtain ⟨j, pod, a, hmem, hattempt⟩ := h
  exact ⟨j, pod, a, mem_answered hmem, hattempt⟩

/-- A call that changes nothing but pods. -/
theorem advance_of_pods (hstock : Stock identity w) (hnow : σ.now = w.cluster.now)
    (hsecrets : σ.secrets = w.cluster.secrets) (hminted : σ.minted = w.cluster.minted)
    (hpods : ∀ name pod, σ.pods name = some pod → Owned pod identity →
      (∃ old, w.cluster.pods name = some old ∧ old.Updated pod) ∨
        Newborn identity w (w.answered i e σ q) name pod) :
    Advance identity w (w.answered i e σ q) where
  clock := hnow.ge
  tried _ htried := htried.answered
  ended := Set.subset_union_left
  pods := hpods
  minted _ _ hm := (congrFun hminted _).trans hm
  mints _ _ hm := .inl ((congrFun hminted _).symm.trans hm)
  named name secret hsecret := hstock.named name secret ((congrFun hsecrets name).symm.trans hsecret)
  secrets _ _ hsecret := .inl ((congrFun hsecrets _).symm.trans hsecret)
  kept _ hsome := .inl ((congrFun hsecrets _).symm ▸ hsome)

theorem Pod.Updated.refl (pod : Pod) : pod.Updated pod := ⟨_, _, _, rfl⟩

/-- A call that changes nothing. -/
theorem advance_same (hstock : Stock identity w) (hσ : σ = w.cluster) :
    Advance identity w (w.answered i e σ q) := by
  subst hσ
  exact advance_of_pods hstock rfl rfl rfl fun _ pod hpod _ => .inl ⟨pod, hpod, .refl pod⟩

theorem advance_createPod (hledger : Ledger identity w) {cfg : ProviderConfig} {env : StringMap}
    {desired : Fingerprint} {pod : Pod} {a : Answer (.createPod pod)}
    (hjustified : CreateJustified identity cfg env desired (w.history i) pod)
    (hcreates : w.cluster.CreatesPod pod σ) (htimely : Timely w (.createPod pod) a σ) :
    Advance identity w (w.answered i ⟨.createPod pod, a⟩ σ q) := by
  obtain ⟨g, h₀, hhead, rfl⟩ := hjustified
  have hattempt : (buildPod identity cfg g desired).ofAttempt identity g := rfl
  have hopen : ¬ Closed identity w g := by
    rintro (htried | ⟨m, hm, hage⟩)
    · exact hledger.generations.untried i g (.inr ⟨_, h₀, hhead⟩) htried
    · obtain ⟨name, m', hname, hm', hlt⟩ := htimely hcreates
      obtain rfl := Option.some.inj (hattempt.symm.trans hname)
      obtain rfl := Option.some.inj (hm.symm.trans hm')
      omega
  obtain ⟨name, fence, created, status, hname, -, -, -, rfl⟩ := hcreates
  refine advance_of_pods hledger.stock rfl rfl rfl fun n p hp _ => ?_
  rw [Cluster.pods_putPod] at hp
  split_ifs at hp with hn
  · obtain rfl := Option.some.inj hp
    refine .inr ⟨hn.trans (Option.some.inj hname).symm, ?_, g, hattempt, hopen, i,
      buildPod identity cfg g desired, a, ?_, hattempt⟩
    · intro kv hkv
      simp only [AgentIdentity.selector, List.mem_cons, List.not_mem_nil, or_false] at hkv
      rcases hkv with rfl | rfl <;> rfl
    · rw [World.answered_history_self]
      exact List.mem_cons_self
  · exact .inl ⟨p, hp, .refl p⟩

theorem advance_deletePod (hstock : Stock identity w) {name : String} {fence : Fence}
    (hdeletes : w.cluster.DeletesPod name fence σ) : Advance identity w (w.answered i e σ q) := by
  obtain ⟨pod, hpod, -, rfl | ⟨-, rfl⟩ | ⟨version, t, -, rfl⟩⟩ := hdeletes
  · refine advance_of_pods hstock rfl rfl rfl fun n p hp _ => ?_
    rw [Cluster.pods_removePod] at hp
    split_ifs at hp
    exact .inl ⟨p, hp, .refl p⟩
  · exact advance_same hstock rfl
  · refine advance_of_pods hstock rfl rfl rfl fun n p hp _ => ?_
    rw [Cluster.pods_putPod] at hp
    split_ifs at hp with hn
    · obtain rfl := Option.some.inj hp
      exact .inl ⟨pod, hn ▸ hpod, _, _, _, rfl⟩
    · exact .inl ⟨p, hp, .refl p⟩

theorem advance_createSecret (hledger : Ledger identity w) {env : StringMap} {secret : Secret}
    {a : Answer (.createSecret secret)}
    (hjustified : MintJustified identity env (w.history i) secret)
    (hcreates : w.cluster.CreatesSecret secret σ) :
    Advance identity w (w.answered i ⟨.createSecret secret, a⟩ σ q) := by
  obtain ⟨g, h₀, h₁, hhead, -, rfl, -⟩ := hjustified.observed
  have hunminted := hledger.generations.unminted i g h₁ hhead
  obtain ⟨name, fence, created, hname, -, hstamps, rfl⟩ := hcreates
  obtain rfl : identity.secretName g = name := Option.some.inj hname
  refine ⟨le_rfl, fun _ htried => htried.answered, Set.subset_union_left,
    fun _ pod hpod _ => .inl ⟨pod, hpod, .refl pod⟩, fun g' m hm => ?_, fun g' m hm => ?_,
    fun n s hs => ?_, fun g' s hs => ?_, fun g' hsome => ?_⟩
  · rw [World.answered_cluster, Cluster.minted_putSecret, if_neg, hm]
    rintro heq
    rw [heq, hunminted] at hm
    cases hm
  · rw [World.answered_cluster, Cluster.minted_putSecret] at hm
    split_ifs at hm with heq
    · obtain rfl := identity.secretName_injective heq
      refine .inr ⟨(Option.some.inj hm).symm, ?_, i, h₁, _, a, hhead,
        World.answered_history_self _ _ _ _ _⟩
      rw [World.answered_cluster, Cluster.secrets_putSecret, if_pos rfl]
      rfl
    · exact .inl hm
  · rw [World.answered_cluster, Cluster.secrets_putSecret] at hs
    split_ifs at hs with heq
    · obtain rfl := Option.some.inj hs
      exact congrArg some heq.symm
    · exact hledger.stock.named n s hs
  · rw [World.answered_cluster, Cluster.secrets_putSecret] at hs
    split_ifs at hs with heq
    · obtain rfl := Option.some.inj hs
      refine .inr ⟨w.cluster.now, created, ?_, rfl, hstamps⟩
      rw [World.answered_cluster, Cluster.minted_putSecret, if_pos heq]
    · exact .inl hs
  · refine .inl ?_
    rw [World.answered_cluster, Cluster.secrets_putSecret]
    split_ifs
    · rfl
    · exact hsome

theorem advance_deleteSecret (hledger : Ledger identity w) {cfg : ProviderConfig} {env : StringMap}
    {desired : Fingerprint} {name : String}
    (hjustified : SecretJustified identity cfg env desired (w.history i) name)
    (hσ : σ = w.cluster.removeSecret name) : Advance identity w (w.answered i e σ q) := by
  subst hσ
  refine ⟨le_rfl, fun _ htried => htried.answered, Set.subset_union_left,
    fun _ pod hpod _ => .inl ⟨pod, hpod, .refl pod⟩, fun _ _ hm => hm, fun _ _ hm => .inl hm,
    fun n s hs => ?_, fun g s hs => ?_, fun g hsome => ?_⟩
  · rw [World.answered_cluster, Cluster.secrets_removeSecret] at hs
    split_ifs at hs
    exact hledger.stock.named n s hs
  · rw [World.answered_cluster, Cluster.secrets_removeSecret] at hs
    split_ifs at hs
    exact .inl hs
  · by_cases heq : identity.secretName g = name
    · exact .inr (SecretJustified.free (heq.symm ▸ hjustified) (hledger.knows i))
    · refine .inl ?_
      rw [World.answered_cluster, Cluster.secrets_removeSecret, if_neg heq]
      exact hsome

/-- What a call of a deploy does to the attempts. -/
theorem Ledger.advance (hledger : Ledger identity w) {cfg : ProviderConfig} {env : StringMap}
    {desired : Fingerprint} {c : Call} {a : Answer c}
    (hjustified : Justified identity cfg env desired (w.history i) c)
    (hanswer : w.cluster.Answers c a σ) (htimely : Timely w c a σ) :
    Advance identity w (w.answered i ⟨c, a⟩ σ q) := by
  cases c with
  | createSecret secret =>
    rcases hanswer with hcreates | ⟨hσ, -⟩
    · exact advance_createSecret hledger hjustified hcreates
    · exact advance_same hledger.stock hσ
  | createPod pod =>
    rcases hanswer with ⟨hcreates, -⟩ | ⟨hσ, -⟩
    · exact advance_createPod hledger hjustified hcreates htimely
    · exact advance_same hledger.stock hσ
  | deletePod name fence =>
    rcases hanswer with ⟨hdeletes, -⟩ | ⟨hσ, -⟩
    · exact advance_deletePod hledger.stock hdeletes
    · exact advance_same hledger.stock hσ
  | deleteSecret name =>
    rcases hanswer with hσ | ⟨hσ, -⟩
    · exact advance_deleteSecret hledger hjustified hσ
    · exact advance_same hledger.stock hσ
  | listPods selector | listSecrets selector | secretExists name | getPod reader name =>
    exact advance_same hledger.stock hanswer.1
  | ensureNamespace ns | sleep | elapsed | newGeneration =>
    exact advance_same hledger.stock hanswer

/-- An attempt is pending after a call: its generation has just been drawn, or it was pending. -/
theorem Pending.of_answered {j : ι} (h : Pending (w.answered i e σ q) j g) :
    (j = i ∧ e = generated g) ∨
      (Pending w j g ∧ (j = i → ∃ secret, e = mintedSecret secret)) := by
  by_cases hj : j = i
  · subst hj
    rw [Pending, World.answered_history_self] at h
    rcases h with ⟨h₀, heq⟩ | ⟨secret, h₀, heq⟩
    · exact .inl ⟨rfl, (List.cons.inj heq).1⟩
    · exact .inr ⟨.inl ⟨h₀, (List.cons.inj heq).2⟩, fun _ => ⟨secret, (List.cons.inj heq).1⟩⟩
  · rw [Pending, World.answered_history_of_ne _ _ _ _ hj] at h
    exact .inr ⟨h, fun hji => absurd hji hj⟩

theorem Tried.of_answered (h : Tried identity (w.answered i e σ q) g) :
    Tried identity w g ∨ ∃ pod a, e = ⟨.createPod pod, a⟩ ∧ pod.ofAttempt identity g := by
  obtain ⟨j, pod, a, hmem, hattempt⟩ := h
  rcases mem_answered_iff.mp ⟨j, hmem⟩ with heq | ⟨j', hmem⟩
  · exact .inr ⟨pod, a, heq.symm, hattempt⟩
  · exact .inl ⟨j', pod, a, hmem, hattempt⟩

theorem Ledger.generations_answered (hledger : Ledger identity w) {cfg : ProviderConfig}
    {env : StringMap} {desired : Fingerprint} {c : Call} {a : Answer c}
    (hjustified : Justified identity cfg env desired (w.history i) c)
    (htimely : Timely w c a σ) (hadvance : Advance identity w (w.answered i ⟨c, a⟩ σ q)) :
    Generations identity (w.answered i ⟨c, a⟩ σ q) := by
  have hfresh {g : String} (heq : (⟨c, a⟩ : Event Answer) = generated g) (j : ι) :
      generated g ∉ w.history j := by
    cases heq
    exact htimely j
  have hcreated {g : String} {pod : Pod} {a' : Answer (.createPod pod)}
      (heq : (⟨c, a⟩ : Event Answer) = ⟨.createPod pod, a'⟩)
      (hattempt : pod.ofAttempt identity g) : Pending w i g ∧ ∃ secret,
      secret.metadata.name = some (identity.secretName g) ∧
        mintedSecret secret ∈ w.history i := by
    cases heq
    exact CreateJustified.pending hjustified hattempt
  have hgenerations := hledger.generations
  refine ⟨fun j k g hj hk => ?_, fun j g hj htried => ?_, fun j g h heq => ?_, fun g htried => ?_,
    fun g m hm => ?_, fun g htried => ?_⟩
  · rcases hj.of_answered with ⟨rfl, heq⟩ | ⟨hj, -⟩
    · rcases hk.of_answered with ⟨rfl, -⟩ | ⟨hk, -⟩
      · rfl
      · exact absurd hk.drawn (hfresh heq k)
    · rcases hk.of_answered with ⟨-, heq⟩ | ⟨hk, -⟩
      · exact absurd hj.drawn (hfresh heq j)
      · exact hgenerations.unique j k g hj hk
  · rcases hj.of_answered with ⟨-, heq⟩ | ⟨hj, hsame⟩
    · rcases htried.of_answered with htried | ⟨pod, a', heq', -⟩
      · obtain ⟨k, hk⟩ := hgenerations.drawn g htried
        exact hfresh heq k hk
      · cases (Sigma.mk.inj (heq.symm.trans heq')).1
    · rcases htried.of_answered with htried | ⟨pod, a', heq', hattempt⟩
      · exact hgenerations.untried j g hj htried
      · obtain ⟨secret, heq⟩ := hsame (hgenerations.unique j i g hj (hcreated heq' hattempt).1)
        cases (Sigma.mk.inj (heq.symm.trans heq')).1
  · by_contra hsome
    obtain ⟨m, hm⟩ := Option.ne_none_iff_exists'.mp hsome
    by_cases hj : j = i
    · subst hj
      rw [World.answered_history_self] at heq
      have heq := (List.cons.inj heq).1
      rcases hadvance.mints g m hm with hold | ⟨-, -, k, h', secret, a', hhead, -⟩
      · obtain ⟨k, hk⟩ := hgenerations.minted_drawn g m hold
        exact hfresh heq k hk
      · exact hfresh heq k (hhead ▸ List.mem_cons_self)
    · have hj := heq
      rw [World.answered_history_of_ne _ _ _ _ ‹j ≠ i›] at hj
      rcases hadvance.mints g m hm with hold | ⟨-, -, k, h', secret, a', hhead, hnext⟩
      · cases (hgenerations.unminted j g h hj).symm.trans hold
      · obtain rfl := hgenerations.unique j k g (.inl ⟨h, hj⟩) (.inl ⟨h', hhead⟩)
        cases (Sigma.mk.inj (List.cons.inj (hnext.symm.trans heq)).1).1
  · rcases htried.of_answered with htried | ⟨pod, a', heq, hattempt⟩
    · obtain ⟨k, hk⟩ := hgenerations.drawn g htried
      exact ⟨k, mem_answered hk⟩
    · exact ⟨i, mem_answered (hcreated heq hattempt).1.drawn⟩
  · rcases hadvance.mints g m hm with hold | ⟨-, -, k, h', secret, a', hhead, -⟩
    · obtain ⟨k, hk⟩ := hgenerations.minted_drawn g m hold
      exact ⟨k, mem_answered hk⟩
    · exact ⟨k, mem_answered (hhead ▸ List.mem_cons_self)⟩
  · rcases htried.of_answered with htried | ⟨pod, a', heq, hattempt⟩
    · exact (hgenerations.tried_minted g htried).imp fun m hm => hadvance.minted g m hm
    · obtain ⟨-, secret, hname, hmem⟩ := hcreated heq hattempt
      obtain ⟨m, hm⟩ := hledger.knows i _ hmem rfl g hname
      exact ⟨m, hadvance.minted g m hm⟩

omit [DecidableEq ι] in
/-- What a list of pods shows. -/
theorem Stock.podsSeen (hstock : Stock identity w) (hwellFormed : w.cluster.WellFormed)
    (hended : w.cluster.terminatedUids ⊆ w.ended) {pods : List Pod} {date : Option ℤ}
    (hpods : ∀ pod, pod ∈ pods ↔ ∃ name, w.cluster.pods name = some pod ∧
      Selects identity.selector pod.metadata.labels)
    (hdate : ∀ t, date = some t → Stamps w.cluster.now t) : PodsSeen identity w pods date where
  wellFormed p hp := by
    obtain ⟨name, hpod, -⟩ := (hpods p).mp hp
    obtain ⟨hname, fence, -, hfence⟩ := hwellFormed name p hpod
    exact ⟨name, fence, hname, hfence⟩
  unique p hp q hq hqp := by
    obtain ⟨name, hpod, -⟩ := (hpods p).mp hp
    obtain ⟨name', hpod', -⟩ := (hpods q).mp hq
    rw [(hwellFormed name p hpod).1, (hwellFormed name' q hpod').1, Option.some.injEq] at hqp
    subst hqp
    exact Option.some.inj (hpod'.symm.trans hpod)
  ended p hp howned hterminated g hattempt := by
    obtain ⟨name, hpod, -⟩ := (hpods p).mp hp
    obtain ⟨rfl, -, g', hattempt', htried⟩ := hstock.pods name p hpod howned
    obtain rfl := Pod.ofAttempt_inj hattempt hattempt'
    refine ⟨.inl htried, fun name' pod hpod' howned' _ uid huid => hended ?_⟩
    obtain ⟨rfl, -⟩ := hstock.pods name' pod hpod' howned'
    obtain rfl := Option.some.inj (hpod.symm.trans hpod')
    exact ⟨_, p, hpod, huid, hterminated⟩
  unlisted t ht := by
    refine ⟨w.cluster.now, le_rfl, hdate t ht, fun g m hm hage => ?_⟩
    refine or_iff_not_imp_right.mpr fun hnone => ⟨.inr ⟨m, hm, hage⟩, ?_⟩
    intro name pod hpod howned hattempt uid huid
    obtain ⟨-, hselected, -⟩ := hstock.pods name pod hpod howned
    by_contra hlive
    exact hnone ⟨pod, (hpods pod).mpr ⟨name, hpod, hselected⟩, howned, hattempt,
      fun hterminated => hlive (hended ⟨name, pod, hpod, huid, hterminated⟩)⟩

/-- What a call of a deploy shows. -/
theorem Ledger.knows_answered (hledger : Ledger identity w) (hwellFormed : w.cluster.WellFormed)
    (hended : w.cluster.terminatedUids ⊆ w.ended) {cfg : ProviderConfig} {env : StringMap}
    {desired : Fingerprint} {c : Call} {a : Answer c}
    (hjustified : Justified identity cfg env desired (w.history i) c)
    (hanswer : w.cluster.Answers c a σ)
    (hadvance : Advance identity w (w.answered i ⟨c, a⟩ σ q)) :
    Knows identity (w.answered i ⟨c, a⟩ σ q) ⟨c, a⟩ := by
  cases c with
  | listPods selector =>
    rintro rfl pods date ha
    obtain ⟨hpods, hdate⟩ := hanswer.2 pods date ha
    exact (hledger.stock.podsSeen hwellFormed hended hpods hdate).advance hadvance
  | listSecrets selector =>
    intro secrets ha
    refine SecretsSeen.advance (fun secret hmem g hname => ?_) hadvance
    obtain ⟨name, hsecret, -⟩ := (hanswer.2 secrets ha secret).mp hmem
    obtain rfl := Option.some.inj (hname.symm.trans (hledger.stock.named name secret hsecret))
    exact hledger.stock.secrets g secret hsecret
  | createSecret secret =>
    rintro ha g hname
    rcases hanswer with ⟨name, fence, created, hname', -, -, rfl⟩ | ⟨-, err, herr⟩
    · obtain rfl := Option.some.inj (hname.symm.trans hname')
      exact ⟨w.cluster.now, (Cluster.minted_putSecret _ _ _ _).trans (if_pos rfl)⟩
    · cases ha.symm.trans herr
  | createPod pod =>
    rintro ha g hattempt
    rcases hanswer with ⟨-, hne⟩ | ⟨rfl, -⟩
    · exact absurd ha hne
    · refine ⟨.inl ⟨i, pod, a, ?_, hattempt⟩, fun name pod' hpod howned hattempt' _ _ => ?_⟩
      · rw [World.answered_history_self]
        exact List.mem_cons_self
      · obtain ⟨-, -, g', hattempt'', htried⟩ := hledger.stock.pods name pod' hpod howned
        obtain rfl := Pod.ofAttempt_inj hattempt' hattempt''
        exact absurd htried (hledger.generations.untried i g
          (CreateJustified.pending hjustified hattempt).1)
  | _ => trivial

omit [DecidableEq ι] in
theorem Untouched.ledger (hcluster : Untouched identity w.cluster)
    (hhistory : ∀ i, w.history i = []) : Ledger identity w := by
  have huntried (g : String) : ¬ Tried identity w g := by
    rintro ⟨i, pod, a, hmem, -⟩
    rw [hhistory i] at hmem
    exact absurd hmem List.not_mem_nil
  have hidle (i : ι) (g : String) : ¬ Pending w i g := fun h => by
    have hmem := h.drawn
    rw [hhistory i] at hmem
    exact absurd hmem List.not_mem_nil
  have hunminted {g : String} {m : ℤ} :
      ¬ w.cluster.minted (identity.secretName g) = some m := fun hm => by
    cases (hcluster.minted g).symm.trans hm
  refine ⟨⟨fun name pod hpod howned => absurd howned (hcluster.pods name pod hpod),
    hcluster.named, fun g secret hsecret => ?_, fun g m hm => absurd hm hunminted⟩,
    ⟨fun i _ g h => absurd h (hidle i g), fun i g h => absurd h (hidle i g),
      fun i g h heq => absurd (.inl ⟨h, heq⟩) (hidle i g), fun g h => absurd h (huntried g),
      fun g m hm => absurd hm hunminted, fun g h => absurd h (huntried g)⟩, fun i e he => ?_⟩
  · cases (hcluster.secrets g).symm.trans hsecret
  · rw [hhistory i] at he
    exact absurd he List.not_mem_nil

theorem Reachable.ledger {fingerprint : IntentTemplate → Fingerprint} {cfg : ι → ProviderConfig}
    {env : ι → StringMap} {fuel : ι → ℕ}
    (hw : Reachable (oneIdentity fingerprint identity cfg env fuel) w) : Ledger identity w := by
  induction hw with
  | start h =>
    refine Untouched.ledger ?_ fun _ => rfl
    exact h
  | @step w w' hw h ih =>
    cases h with
    | outside h => exact ih.outside h
    | @call i c next hleft a σ hanswer htimely =>
      have hjustified := hw.justified hleft
      have hadvance : Advance identity w (w.answered i ⟨c, a⟩ σ (next a)) :=
        ih.advance hjustified hanswer htimely
      refine ⟨ih.stock.advance hadvance, ih.generations_answered hjustified htimely hadvance,
        fun j e he => ?_⟩
      by_cases hj : j = i
      · subst hj
        rw [World.answered_history_self] at he
        rcases List.mem_cons.mp he with rfl | he
        · exact ih.knows_answered hw.wellFormed hw.terminatedUids_subset hjustified hanswer hadvance
        · exact (ih.knows j e he).advance hadvance
      · rw [World.answered_history_of_ne _ _ _ _ hj] at he
        exact (ih.knows j e he).advance hadvance

/-- While a pod of the identity exists and has not terminated, the Secret that it refers to
exists. -/
theorem secret_of_live (fingerprint : IntentTemplate → Fingerprint) (identity : AgentIdentity)
    (cfg : ι → ProviderConfig) (env : ι → StringMap) (fuel : ι → ℕ) {w : World ι}
    (hw : Reachable (oneIdentity fingerprint identity cfg env fuel) w) {name uid : String}
    {pod : Pod} (hpod : w.cluster.pods name = some pod) (howned : Owned pod identity)
    (huid : pod.metadata.uid = some uid) (hlive : uid ∉ w.ended) :
    ∃ secret, referencedSecret pod = some secret ∧ (w.cluster.secrets secret).isSome = true := by
  have hledger : Ledger identity w := hw.ledger
  obtain ⟨-, -, g, hattempt, htried⟩ := hledger.stock.pods name pod hpod howned
  obtain ⟨m, hm⟩ := hledger.generations.tried_minted g htried
  refine ⟨identity.secretName g, hattempt, (hledger.stock.kept g m hm).resolve_right fun hfree => ?_⟩
  exact hlive (hfree.ended name pod hpod howned hattempt uid huid)

end

theorem not_mem_ended {ι : Type} [DecidableEq ι] {w : World ι} {i : ι} {e : Event Answer}
    {σ : Cluster} {q : Deploying String} {uid : String} (hw : uid ∉ w.ended)
    (hσ : ∀ name pod, σ.pods name = some pod → decodeStartup pod ≠ .resolved .terminated) :
    uid ∉ (w.answered i e σ q).ended := by
  rintro (hmem | ⟨name, pod, hpod, -, hterminated⟩)
  · exact hw hmem
  · exact hσ name pod hpod hterminated

theorem live_putPod {σ : Cluster} {name : String} {pod : Pod} {fence : Fence}
    (hσ : ∀ name pod, σ.pods name = some pod → decodeStartup pod ≠ .resolved .terminated)
    (hpod : decodeStartup pod ≠ .resolved .terminated) (n : String) (p : Pod)
    (hp : (σ.putPod name pod fence).pods n = some p) :
    decodeStartup p ≠ .resolved .terminated := by
  rw [Cluster.pods_putPod] at hp
  split_ifs at hp
  · exact Option.some.inj hp ▸ hpod
  · exact hσ n p hp

/-- A namespace with nothing in it. -/
def emptyCluster : Cluster where
  now := 0
  pods _ := none
  secrets _ := none
  spent := []
  minted _ := none

theorem emptyCluster_untouched : Untouched sampleArgs.identity emptyCluster where
  wellFormed _ _ hpod := (nomatch hpod)
  pods _ _ hpod := (nomatch hpod)
  named _ _ hsecret := (nomatch hsecret)
  secrets _ := rfl
  minted _ := rfl

/-- A pod that has been created, with its Secret. -/
theorem secret_of_live_created : ∃ w : World PUnit,
    Reachable (oneIdentity (fun _ => "") sampleArgs.identity (fun _ => sampleArgs.cfg) (fun _ => [])
      fun _ => 1) w ∧
    ∃ pod, w.cluster.pods sampleArgs.identity.podName = some pod ∧
      ∃ secret, referencedSecret pod = some secret ∧ (w.cluster.secrets secret).isSome = true := by
  have hw : Reachable (oneIdentity (fun _ => "") sampleArgs.identity
      (fun _ : PUnit => sampleArgs.cfg) (fun _ => []) fun _ => 1) _ := .start emptyCluster_untouched
  have hw := hw.step (.call ⟨⟩ (c := .ensureNamespace _) rfl (.ok ⟨⟩) rfl trivial)
  have hw := hw.step (.call ⟨⟩ (c := .listPods _) rfl (.ok ([], none)) ⟨rfl, by
    rintro pods date ⟨⟩
    exact ⟨fun _ => ⟨fun h => absurd h List.not_mem_nil, fun ⟨_, h, _⟩ => (nomatch h)⟩,
      fun t ht => (nomatch ht)⟩⟩ trivial)
  have hw := hw.step (.call ⟨⟩ (c := .listSecrets _) rfl (.ok []) ⟨rfl, by
    rintro secrets ⟨⟩ secret
    exact ⟨fun h => absurd h List.not_mem_nil, fun ⟨_, h, _⟩ => (nomatch h)⟩⟩ trivial)
  have hw := hw.step (.call ⟨⟩ (c := .elapsed) rfl (0 : ℕ) rfl trivial)
  have hw := hw.step (.call ⟨⟩ (c := .getPod _ _) rfl (.ok none) ⟨rfl, by
    rintro pod ⟨⟩
    rfl⟩ trivial)
  have hw := hw.step (.call ⟨⟩ (c := .newGeneration) rfl "g" rfl fun ⟨⟩ hmem => by
    have hpos : 0 < List.countP (fun e : Event Answer => decide (e.1 = Call.newGeneration)) _ :=
      List.countP_pos_iff.mpr ⟨_, hmem, rfl⟩
    exact Nat.lt_irrefl 0 hpos)
  have hw := hw.step (.call ⟨⟩ (c := .createSecret _) rfl (.ok ⟨⟩)
    (.inl ⟨_, ⟨"secret", "1"⟩, 0, rfl, rfl, ⟨le_rfl, by decide⟩, rfl⟩) trivial)
  have hw := hw.step (.call ⟨⟩ (c := .createPod _) rfl (.ok CreateOutcome.created)
    (.inl ⟨⟨_, ⟨"pod", "1"⟩, 0, none, rfl, rfl, fun f hf => absurd hf List.not_mem_nil,
      ⟨le_rfl, by decide⟩, rfl⟩, by simp⟩)
    fun _ => ⟨_, 0, rfl, rfl, by decide⟩)
  refine ⟨_, hw, _, rfl, secret_of_live (fun _ => "") sampleArgs.identity _ _ _ hw
    (show Cluster.pods _ sampleArgs.identity.podName = some _ from rfl) ⟨rfl, rfl⟩ rfl ?_⟩
  have hempty (_ : String) (pod : Pod) (hpod : none = some pod) :
      decodeStartup pod ≠ .resolved .terminated := (nomatch hpod)
  refine not_mem_ended (not_mem_ended (not_mem_ended (not_mem_ended (not_mem_ended (not_mem_ended
    (not_mem_ended (not_mem_ended ?_ hempty) hempty) hempty) hempty) hempty) hempty) hempty) ?_
  · rintro ⟨name, pod, hpod, -⟩
    cases hpod
  · exact live_putPod hempty (by simp [decodeStartup, agentState, decodePhase, Pod.stored])

end Buzz.BackendKubernetes
