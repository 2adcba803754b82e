import Mathlib.Logic.Relation
import Buzz.PushGateway.Authority

/-!
# Runs of the authority store

Sequences of calls of the reference store, in which time does not go back, a permit is finished at
most once and every auth event and every request id comes with one expiry. Counters, epochs and
generations increase, so a grant that was revoked or rotated away is never accepted again. What a
delivery has burned is kept until it expires, and then a request that carries it has expired too.

## Main definitions

* `Increases`: what may happen to installations and delegations.
* `Call.Stands`, `Call.Fences`: what a revocation or rotation leaves, and which permits it excludes.
* `Admission`, `Gateway`, `Step`.
* `Authorized`, `ReplaySafe`: what is admitted, and what was.
* `Sound`: the invariant of runs.

## Main results

* `Call.spec`: what every call does.
* `Sound.step`, `Sound.run`.
* `delivery_authority`: runs of the store.
-/

namespace Buzz.PushGateway

open Buzz.Core Buzz.Library Relation

variable {s s' : MemoryState}

/-! ### Installations and delegations -/

/-- Counters and epochs grow, a revoked installation stays so, and a delegation changes to a later
generation only. -/
structure Increases (s s' : MemoryState) : Prop where
  installation : ∀ id i, s.installations.lookup id = some i →
    ∃ i', s'.installations.lookup id = some i' ∧ i.assertionCounter ≤ i'.assertionCounter ∧
      i.endpointEpoch ≤ i'.endpointEpoch ∧ (i.revoked = true → i'.revoked = true)
  delegation : ∀ key d, s.delegations.lookup key = some d →
    ∃ d', s'.delegations.lookup key = some d' ∧ (d' = d ∨ d.generation < d'.generation)

namespace Increases

/-- Neither installations nor delegations change. -/
theorem of_eq (hinstallations : s'.installations = s.installations)
    (hdelegations : s'.delegations = s.delegations) : Increases s s' where
  installation _ i hi := ⟨i, hinstallations ▸ hi, le_rfl, le_rfl, fun h => h⟩
  delegation _ d hd := ⟨d, hdelegations ▸ hd, .inl rfl⟩

theorem refl (s : MemoryState) : Increases s s := of_eq rfl rfl

theorem trans {s'' : MemoryState} (h : Increases s s') (h' : Increases s' s'') :
    Increases s s'' where
  installation id i hi := by
    obtain ⟨i', hi', hcounter, hepoch, hrevoked⟩ := h.installation id i hi
    obtain ⟨i'', hi'', hcounter', hepoch', hrevoked'⟩ := h'.installation id i' hi'
    exact ⟨i'', hi'', hcounter.trans hcounter', hepoch.trans hepoch', hrevoked' ∘ hrevoked⟩
  delegation key d hd := by
    obtain ⟨d', hd', hgeneration⟩ := h.delegation key d hd
    obtain ⟨d'', hd'', hgeneration'⟩ := h'.delegation key d' hd'
    refine ⟨d'', hd'', ?_⟩
    rcases hgeneration with rfl | hlt
    · exact hgeneration'
    · rcases hgeneration' with rfl | hlt'
      · exact .inr hlt
      · exact .inr (hlt.trans hlt')

/-- One installation is written. -/
theorem insert_installation {id : Uuid} {i' : Installation}
    (hinstallations : s'.installations = s.installations.insert id i')
    (hdelegations : s'.delegations = s.delegations)
    (hi : ∀ i, s.installations.lookup id = some i → i.assertionCounter ≤ i'.assertionCounter ∧
      i.endpointEpoch ≤ i'.endpointEpoch ∧ (i.revoked = true → i'.revoked = true)) :
    Increases s s' where
  installation id' i hlookup := by
    rw [hinstallations, HashMap.lookup_insert_eq]
    split_ifs with h
    · exact ⟨i', rfl, hi i (h ▸ hlookup)⟩
    · exact ⟨i, hlookup, le_rfl, le_rfl, fun h => h⟩
  delegation key d hd := ⟨d, hdelegations ▸ hd, .inl rfl⟩

/-- One delegation is written. -/
theorem insert_delegation {key : Uuid × List Char} {d' : Delegation}
    (hinstallations : s'.installations = s.installations)
    (hdelegations : s'.delegations = s.delegations.insert key d')
    (hd : ∀ d, s.delegations.lookup key = some d → d.generation < d'.generation) :
    Increases s s' where
  installation id i hi := ⟨i, hinstallations ▸ hi, le_rfl, le_rfl, fun h => h⟩
  delegation key' d hlookup := by
    rw [hdelegations, HashMap.lookup_insert_eq]
    split_ifs with h
    · exact ⟨d', rfl, .inr (hd d (h ▸ hlookup))⟩
    · exact ⟨d, hlookup, .inl rfl⟩

end Increases

/-- The tables are keyed by what their rows say. -/
structure MemoryState.Keyed (s : MemoryState) : Prop where
  installation : ∀ id i, s.installations.lookup id = some i → i.id = id
  delegation : ∀ key d, s.delegations.lookup key = some d → key = (d.installationId, d.relayPubkey)

namespace MemoryState.Keyed

theorem insert_installation (h : s.Keyed) {id : Uuid} {i : Installation}
    (hinstallations : s'.installations = s.installations.insert id i) (hid : i.id = id)
    (hdelegations : s'.delegations = s.delegations) : s'.Keyed where
  installation id' i' hi' := by
    rw [hinstallations, HashMap.lookup_insert_eq] at hi'
    split_ifs at hi' with hid'
    · obtain rfl := Option.some.inj hi'
      exact hid.trans hid'.symm
    · exact h.installation id' i' hi'
  delegation := hdelegations ▸ h.delegation

theorem insert_delegation (h : s.Keyed) {key : Uuid × List Char} {d : Delegation}
    (hinstallations : s'.installations = s.installations)
    (hdelegations : s'.delegations = s.delegations.insert key d)
    (hkey : key = (d.installationId, d.relayPubkey)) : s'.Keyed where
  installation := hinstallations ▸ h.installation
  delegation key' d' hd' := by
    rw [hdelegations, HashMap.lookup_insert_eq] at hd'
    split_ifs at hd' with hkey'
    · obtain rfl := Option.some.inj hd'
      exact hkey'.trans hkey
    · exact h.delegation key' d' hd'

end MemoryState.Keyed

/-! ### What a call does -/

theorem le_of_checkedSucc {n m : ℤ} (h : checkedSucc n = some m) : n ≤ m := by
  rw [checkedSucc] at h
  split_ifs at h
  rw [← Option.some.inj h]
  exact le_add_of_nonneg_right zero_le_one

/-- What a successful revocation or rotation leaves. -/
def Call.Stands (s : MemoryState) : Call → Prop
  | .revokeInstallation id _ _ => ∃ i, s.installations.lookup id = some i ∧ i.revoked = true
  | .rotateEndpoint id _ new _ _ => ∃ i, s.installations.lookup id = some i ∧ new ≤ i.endpointEpoch
  | .revokeDelegation id relay generation => ∃ d, s.delegations.lookup (id, relay) = some d ∧
    (generation < d.generation ∨ d.generation = generation ∧ d.revoked = true)
  | _ => True

theorem Call.Stands.mono {c : Call} (h : c.Stands s) (hincreases : Increases s s') :
    c.Stands s' := by
  cases c with
  | revokeInstallation id expected new =>
    obtain ⟨i, hi, hrevoked⟩ := h
    obtain ⟨i', hi', -, -, hkept⟩ := hincreases.installation id i hi
    exact ⟨i', hi', hkept hrevoked⟩
  | rotateEndpoint id expected new ciphertext fingerprint =>
    obtain ⟨i, hi, hle⟩ := h
    obtain ⟨i', hi', -, hepoch, -⟩ := hincreases.installation id i hi
    exact ⟨i', hi', hle.trans hepoch⟩
  | revokeDelegation id relay generation =>
    obtain ⟨d, hd, hgeneration⟩ := h
    obtain ⟨d', hd', rfl | hlt⟩ := hincreases.delegation (id, relay) d hd
    · exact ⟨d', hd', hgeneration⟩
    · refine ⟨d', hd', .inl ?_⟩
      rcases hgeneration with hlt' | ⟨rfl, -⟩
      · exact hlt'.trans hlt
      · exact hlt
  | _ => trivial

/-- What a call keeps and leaves. -/
structure Call.Spec (s : MemoryState) (c : Call) : Prop where
  increases : Increases s (s.apply c).2
  keyed : s.Keyed → (s.apply c).2.Keyed
  stands : ∀ reply, (s.apply c).1 = .ok reply → c.Stands (s.apply c).2

namespace Call.Spec

theorem of_apply {c : Call} {result : Except AuthorityError Reply} (h : s.apply c = (result, s'))
    (hincreases : Increases s s') (hkeyed : s.Keyed → s'.Keyed) (hstands : c.Stands s') :
    c.Spec s := by
  refine ⟨?_, ?_, fun _ _ => ?_⟩
  · rw [h]
    exact hincreases
  · rw [h]
    exact hkeyed
  · rw [h]
    exact hstands

/-- A call that touches neither installations nor delegations. -/
theorem of_eq {c : Call} (hinstallations : (s.apply c).2.installations = s.installations)
    (hdelegations : (s.apply c).2.delegations = s.delegations)
    (hstands : ∀ s', c.Stands s') : c.Spec s where
  increases := .of_eq hinstallations hdelegations
  keyed h := ⟨hinstallations ▸ h.installation, hdelegations ▸ h.delegation⟩
  stands _ _ := hstands _

/-- A call that is refused. -/
theorem of_error {c : Call} {e : AuthorityError} (h : s.apply c = (.error e, s)) : c.Spec s where
  increases := by
    rw [h]
    exact .refl s
  keyed hkeyed := by
    rw [h]
    exact hkeyed
  stands reply hreply := by
    rw [h] at hreply
    cases hreply

variable (s)

theorem createInstallation (n : NewInstallation) : Call.Spec s (.createInstallation n) := by
  have happly : s.apply (.createInstallation n) =
      MemoryState.apply.done (s.createInstallation n) := rfl
  rw [MemoryState.createInstallation] at happly
  split_ifs at happly with hknown
  · exact of_error happly
  · obtain ⟨hnone, -⟩ := not_or.mp hknown
    refine of_apply happly (.insert_installation rfl rfl fun i hi => ?_)
      (fun h => h.insert_installation rfl rfl rfl) trivial
    rw [hi] at hnone
    exact absurd rfl hnone

theorem advanceAssertionCounter (id : Uuid) (previous next : ℕ) :
    Call.Spec s (.advanceAssertionCounter id previous next) := by
  have happly : s.apply (.advanceAssertionCounter id previous next) =
      MemoryState.apply.done (s.advanceAssertionCounter id previous next) := rfl
  rw [MemoryState.advanceAssertionCounter] at happly
  split_ifs at happly with hnext
  · exact of_error happly
  split at happly
  · exact of_error happly
  next i hi =>
    split_ifs at happly with hcurrent
    · exact of_error happly
    · obtain ⟨-, hcounter⟩ := not_or.mp hcurrent
      refine of_apply happly (.insert_installation rfl rfl fun i' hi' => ?_) (fun h => ?_) trivial
      · obtain rfl := Option.some.inj (hi.symm.trans hi')
        refine ⟨?_, le_rfl, fun h => h⟩
        exact (not_not.mp hcounter).trans_le (Nat.le_of_not_le hnext)
      · exact h.insert_installation rfl (h.installation id i hi) rfl

theorem upsertDelegation (d : Delegation) : Call.Spec s (.upsertDelegation d) := by
  have happly : s.apply (.upsertDelegation d) =
      MemoryState.apply.done (s.upsertDelegation d) := rfl
  rw [MemoryState.upsertDelegation] at happly
  split at happly
  · exact of_error happly
  split_ifs at happly with hgrants hknown
  · exact of_error happly
  · exact of_error happly
  · obtain ⟨hgeneration, -⟩ := not_or.mp hknown
    refine of_apply happly (.insert_delegation rfl rfl fun old hold => ?_)
      (fun h => h.insert_delegation rfl rfl rfl) trivial
    rw [hold] at hgeneration
    simpa using hgeneration

theorem rotateEndpoint (id : Uuid) (expected new : ℤ) (ciphertext : Bytes)
    (fingerprint : Bytes32) :
    Call.Spec s (.rotateEndpoint id expected new ciphertext fingerprint) := by
  have happly : s.apply (.rotateEndpoint id expected new ciphertext fingerprint) =
      MemoryState.apply.done (s.rotateEndpoint id expected new ciphertext fingerprint) := rfl
  rw [MemoryState.rotateEndpoint] at happly
  split_ifs at happly with hsucc
  · exact of_error happly
  split at happly
  · exact of_error happly
  next i hi =>
    split_ifs at happly with hcurrent howner
    · exact of_error happly
    · exact of_error happly
    · obtain ⟨-, hepoch⟩ := not_or.mp hcurrent
      have hle := le_of_checkedSucc (not_not.mp hsucc)
      refine of_apply happly (.insert_installation rfl rfl fun i' hi' => ?_) (fun h => ?_)
        ⟨_, (HashMap.lookup_insert_eq ..).trans (if_pos rfl), le_rfl⟩
      · obtain rfl := Option.some.inj (hi.symm.trans hi')
        exact ⟨le_rfl, (not_not.mp hepoch).trans_le hle, fun h => h⟩
      · exact h.insert_installation rfl (h.installation id i hi) rfl

theorem revokeInstallation (id : Uuid) (expected new : ℤ) :
    Call.Spec s (.revokeInstallation id expected new) := by
  have happly : s.apply (.revokeInstallation id expected new) =
      MemoryState.apply.done (s.revokeInstallation id expected new) := rfl
  rw [MemoryState.revokeInstallation] at happly
  split_ifs at happly with hsucc
  · exact of_error happly
  split at happly
  · exact of_error happly
  next i hi =>
    split_ifs at happly with hcurrent
    · exact of_error happly
    · obtain ⟨-, hepoch⟩ := not_or.mp hcurrent
      have hle := le_of_checkedSucc (not_not.mp hsucc)
      refine of_apply happly (.insert_installation rfl rfl fun i' hi' => ?_) (fun h => ?_)
        ⟨_, (HashMap.lookup_insert_eq ..).trans (if_pos rfl), rfl⟩
      · obtain rfl := Option.some.inj (hi.symm.trans hi')
        exact ⟨le_rfl, (not_not.mp hepoch).trans_le hle, fun _ => rfl⟩
      · exact h.insert_installation rfl (h.installation id i hi) rfl

theorem revokeDelegation (id : Uuid) (relay : List Char) (generation : ℤ) :
    Call.Spec s (.revokeDelegation id relay generation) := by
  have happly : s.apply (.revokeDelegation id relay generation) =
      MemoryState.apply.done (s.revokeDelegation id relay generation) := rfl
  rw [MemoryState.revokeDelegation] at happly
  split at happly
  · exact of_error happly
  next old hold =>
    split_ifs at happly with hgeneration
    · exact of_error happly
    · refine of_apply happly (.insert_delegation rfl rfl fun d hd => ?_) (fun h => ?_)
        ⟨_, (HashMap.lookup_insert_eq ..).trans (if_pos rfl), .inr ⟨rfl, rfl⟩⟩
      · obtain rfl := Option.some.inj (hold.symm.trans hd)
        exact not_le.mp hgeneration
      · exact h.insert_delegation rfl rfl (h.delegation (id, relay) old hold)

theorem authorizeDelivery (r : DeliveryRequest) : Call.Spec s (.authorizeDelivery r) := by
  have happly : s.apply (.authorizeDelivery r) =
      (s.authorizeDelivery r).map (·.map .permit) id := rfl
  rcases s.authorizeDelivery_cases r with ⟨quotas, hcall⟩ | ⟨d, i, quotas, -, -, -, -, hcall⟩
  · rw [hcall] at happly
    exact of_apply happly (.of_eq rfl rfl) (fun h => ⟨h.installation, h.delegation⟩) trivial
  · rw [hcall] at happly
    exact of_apply happly (.of_eq rfl rfl) (fun h => ⟨h.installation, h.delegation⟩) trivial

end Call.Spec

/-- What every call keeps and leaves. -/
theorem Call.spec (s : MemoryState) (c : Call) : c.Spec s := by
  cases c with
  | putChallenge => exact .of_eq rfl rfl fun _ => trivial
  | consumeChallenge id value now =>
    have happly : s.apply (.consumeChallenge id value now) =
        MemoryState.apply.done (s.consumeChallenge id value now) := rfl
    rw [MemoryState.consumeChallenge] at happly
    split at happly
    · exact .of_error happly
    · exact .of_apply happly (.of_eq rfl rfl) (fun h => ⟨h.installation, h.delegation⟩) trivial
  | createInstallation => exact .createInstallation s _
  | installation => exact .of_eq rfl rfl fun _ => trivial
  | advanceAssertionCounter => exact .advanceAssertionCounter s _ _ _
  | upsertDelegation => exact .upsertDelegation s _
  | rotateEndpoint => exact .rotateEndpoint s _ _ _ _ _
  | revokeDelegation => exact .revokeDelegation s _ _ _
  | revokeInstallation => exact .revokeInstallation s _ _ _
  | authorizeDelivery => exact .authorizeDelivery s _
  | finishDelivery permit disposition =>
    cases disposition with
    | terminal => exact .of_eq rfl rfl fun _ => trivial
    | retryable => exact .of_eq rfl rfl fun _ => trivial
  | reapExpired => exact .of_eq rfl rfl fun _ => trivial

/-- The calls about deliveries. -/
def Call.delivers : Call → Bool
  | .authorizeDelivery _ | .finishDelivery _ _ | .reapExpired _ => true
  | _ => false

/-- Only deliveries touch the replay state. -/
theorem replays_apply (s : MemoryState) {c : Call} (hc : c.delivers = false) :
    (s.apply c).2.deliveryAuthReplays = s.deliveryAuthReplays ∧
      (s.apply c).2.deliveryRequestReplays = s.deliveryRequestReplays := by
  cases c with
  | putChallenge | installation => exact ⟨rfl, rfl⟩
  | consumeChallenge =>
    simp only [MemoryState.apply, MemoryState.apply.done, MemoryState.consumeChallenge]
    split <;> exact ⟨rfl, rfl⟩
  | createInstallation =>
    simp only [MemoryState.apply, MemoryState.apply.done, MemoryState.createInstallation]
    split_ifs <;> exact ⟨rfl, rfl⟩
  | advanceAssertionCounter =>
    simp only [MemoryState.apply, MemoryState.apply.done, MemoryState.advanceAssertionCounter]
    split_ifs <;> [exact ⟨rfl, rfl⟩; skip]
    split <;> [exact ⟨rfl, rfl⟩; skip]
    split_ifs <;> exact ⟨rfl, rfl⟩
  | upsertDelegation =>
    simp only [MemoryState.apply, MemoryState.apply.done, MemoryState.upsertDelegation]
    split <;> [exact ⟨rfl, rfl⟩; skip]
    split_ifs <;> exact ⟨rfl, rfl⟩
  | rotateEndpoint =>
    simp only [MemoryState.apply, MemoryState.apply.done, MemoryState.rotateEndpoint]
    split_ifs <;> [exact ⟨rfl, rfl⟩; skip]
    split <;> [exact ⟨rfl, rfl⟩; skip]
    split_ifs <;> exact ⟨rfl, rfl⟩
  | revokeDelegation =>
    simp only [MemoryState.apply, MemoryState.apply.done, MemoryState.revokeDelegation]
    split <;> [exact ⟨rfl, rfl⟩; skip]
    split_ifs <;> exact ⟨rfl, rfl⟩
  | revokeInstallation =>
    simp only [MemoryState.apply, MemoryState.apply.done, MemoryState.revokeInstallation]
    split_ifs <;> [exact ⟨rfl, rfl⟩; skip]
    split <;> [exact ⟨rfl, rfl⟩; skip]
    split_ifs <;> exact ⟨rfl, rfl⟩
  | authorizeDelivery | finishDelivery | reapExpired => cases hc

/-! ### Runs -/

/-- The time that a call is made at. -/
def Call.now : Call → Option ℤ
  | .consumeChallenge _ _ now | .installation _ now | .reapExpired now => some now
  | .authorizeDelivery r => some r.now
  | _ => none

/-- A permit that was issued, with the auth event that was burned for it and how it was finished. -/
structure Admission where
  permit : DeliveryPermit
  eventId : List Char
  finished : Option DeliveryDisposition

/-- The auth event that a permit has burned. -/
def Admission.authKey (a : Admission) : List Char × List Char := (a.permit.relayPubkey, a.eventId)

/-- The request id that a permit holds. -/
def Admission.requestKey (a : Admission) : List Char × Uuid :=
  (a.permit.relayPubkey, a.permit.requestId)

/-- The permit that a call issues. -/
def Call.issues : Call → Except AuthorityError Reply → List Admission
  | .authorizeDelivery r, .ok (.permit permit) => [⟨permit, r.eventId, none⟩]
  | _, _ => []

/-- The store in use: the latest time of a call, the permits that were issued, and the calls with
their results, the latest first. -/
structure Gateway where
  store : MemoryState
  now : ℤ
  issued : List Admission
  log : List (Call × Except AuthorityError Reply)

/-- A call is made. -/
def Gateway.call (g : Gateway) (c : Call) : Gateway where
  store := (g.store.apply c).2
  now := c.now.getD g.now
  issued := c.issues (g.store.apply c).1 ++ g.issued
  log := (c, (g.store.apply c).1) :: g.log

variable (authExpiry : List Char × List Char → ℤ) (requestExpiry : List Char × Uuid → ℤ)

/-- A call at a time that is not in the past, whose auth event and request id come with their
expiry; or an issued permit is finished, once. -/
inductive Step : Gateway → Gateway → Prop
  | call {g} (c : Call) (hcall : ∀ permit disposition, c ≠ .finishDelivery permit disposition)
      (hnow : ∀ now, c.now = some now → g.now ≤ now)
      (hexpiry : ∀ r, c = .authorizeDelivery r →
        r.requestExpiresAt = authExpiry r.authKey ∧
          r.requestExpiresAt = requestExpiry r.requestKey) :
      Step g (g.call c)
  | finish {g} (later : List Admission) (a : Admission) (earlier : List Admission)
      (disposition : DeliveryDisposition) (hissued : g.issued = later ++ a :: earlier)
      (hopen : a.finished = none) :
      Step g { g.call (.finishDelivery a.permit disposition) with
        issued := later ++ { a with finished := some disposition } :: earlier }

/-- A store that was not used. -/
def Gateway.new (now : ℤ) : Gateway := ⟨.new, now, [], []⟩

/-- The invariant of runs: what was burned is kept, or has expired. -/
structure Sound (g : Gateway) : Prop where
  keyed : g.store.Keyed
  authFixed : ∀ key expiresAt, g.store.deliveryAuthReplays.lookup key = some expiresAt →
    expiresAt = authExpiry key
  requestFixed : ∀ key expiresAt, g.store.deliveryRequestReplays.lookup key = some expiresAt →
    expiresAt = requestExpiry key
  authBurned : ∀ a ∈ g.issued, g.store.deliveryAuthReplays.lookup a.authKey ≠ none ∨
    authExpiry a.authKey < g.now
  requestBurned : ∀ a ∈ g.issued, a.finished ≠ some .retryable →
    g.store.deliveryRequestReplays.lookup a.requestKey ≠ none ∨
      requestExpiry a.requestKey < g.now
  once : (g.issued.map Admission.authKey).Nodup
  retried : g.issued.Pairwise fun newer older =>
    newer.requestKey = older.requestKey → older.finished = some .retryable
  logged : ∀ c reply, (c, .ok reply) ∈ g.log → c.Stands g.store

variable {authExpiry requestExpiry} {g g' : Gateway}

namespace Sound

theorem new (now : ℤ) : Sound authExpiry requestExpiry (.new now) where
  keyed := ⟨fun _ _ h => (nomatch h), fun _ _ h => (nomatch h)⟩
  authFixed _ _ h := nomatch h
  requestFixed _ _ h := nomatch h
  authBurned _ h := absurd h List.not_mem_nil
  requestBurned _ h := absurd h List.not_mem_nil
  once := List.nodup_nil
  retried := .nil
  logged _ _ h := absurd h List.not_mem_nil

/-- The log stands after another call. -/
theorem logged_call (h : Sound authExpiry requestExpiry g) (c c' : Call)
    (reply : Reply) (hmem : (c', .ok reply) ∈ (g.call c).log) : c'.Stands (g.call c).store := by
  rcases List.mem_cons.mp hmem with heq | hmem
  · obtain ⟨rfl, hreply⟩ := Prod.mk.inj heq
    exact (Call.spec g.store c').stands reply hreply.symm
  · exact (h.logged c' reply hmem).mono (Call.spec g.store c).increases

/-- A call that issues nothing, and burns nothing or lets go of what has expired. -/
theorem call_of_retain (h : Sound authExpiry requestExpiry g) {c : Call}
    (hissues : c.issues (g.store.apply c).1 = [])
    (hnow : ∀ now, c.now = some now → g.now ≤ now)
    (hauth : ∀ key expiresAt, g.store.deliveryAuthReplays.lookup key = some expiresAt →
      (g.store.apply c).2.deliveryAuthReplays.lookup key = some expiresAt ∨
        expiresAt < c.now.getD g.now)
    (hauth' : ∀ key expiresAt, (g.store.apply c).2.deliveryAuthReplays.lookup key =
      some expiresAt → g.store.deliveryAuthReplays.lookup key = some expiresAt)
    (hrequest : ∀ key expiresAt, g.store.deliveryRequestReplays.lookup key = some expiresAt →
      (g.store.apply c).2.deliveryRequestReplays.lookup key = some expiresAt ∨
        expiresAt < c.now.getD g.now)
    (hrequest' : ∀ key expiresAt, (g.store.apply c).2.deliveryRequestReplays.lookup key =
      some expiresAt → g.store.deliveryRequestReplays.lookup key = some expiresAt) :
    Sound authExpiry requestExpiry (g.call c) := by
  have hle : g.now ≤ c.now.getD g.now := by
    cases hc : c.now with
    | none => exact le_rfl
    | some now => exact hnow now hc
  have hissued : (g.call c).issued = g.issued := congrArg (· ++ g.issued) hissues
  refine ⟨(Call.spec g.store c).keyed h.keyed, fun key e he => h.authFixed key e (hauth' key e he),
    fun key e he => h.requestFixed key e (hrequest' key e he), fun a ha => ?_,
    fun a ha hfinished => ?_, hissued ▸ h.once, hissued ▸ h.retried, h.logged_call c⟩
  · rcases h.authBurned a (hissued ▸ ha) with hburned | hexpired
    · obtain ⟨e, he⟩ := Option.ne_none_iff_exists'.mp hburned
      rcases hauth _ e he with hkept | hexpired
      · exact .inl (hkept ▸ nofun)
      · exact .inr (h.authFixed _ e he ▸ hexpired)
    · exact .inr (hexpired.trans_le hle)
  · rcases h.requestBurned a (hissued ▸ ha) hfinished with hburned | hexpired
    · obtain ⟨e, he⟩ := Option.ne_none_iff_exists'.mp hburned
      rcases hrequest _ e he with hkept | hexpired
      · exact .inl (hkept ▸ nofun)
      · exact .inr (h.requestFixed _ e he ▸ hexpired)
    · exact .inr (hexpired.trans_le hle)

/-- A call that leaves the replay state alone. -/
theorem call_of_eq (h : Sound authExpiry requestExpiry g) {c : Call}
    (hissues : c.issues (g.store.apply c).1 = [])
    (hnow : ∀ now, c.now = some now → g.now ≤ now)
    (hauth : (g.store.apply c).2.deliveryAuthReplays = g.store.deliveryAuthReplays)
    (hrequest : (g.store.apply c).2.deliveryRequestReplays = g.store.deliveryRequestReplays) :
    Sound authExpiry requestExpiry (g.call c) := by
  refine h.call_of_retain hissues hnow ?_ ?_ ?_ ?_
  · exact fun key e he => .inl (hauth ▸ he)
  · exact fun key e he => hauth ▸ he
  · exact fun key e he => .inl (hrequest ▸ he)
  · exact fun key e he => hrequest ▸ he

/-- Reaping lets go of what has expired. -/
theorem reapExpired (h : Sound authExpiry requestExpiry g) {now : ℤ} (hnow : g.now ≤ now) :
    Sound authExpiry requestExpiry (g.call (.reapExpired now)) := by
  have hretain : ∀ {κ : Type} [DecidableEq κ] (m : HashMap κ ℤ) (key : κ) (e : ℤ),
      m.lookup key = some e →
        (m.retain fun _ e => now ≤ e).lookup key = some e ∨ e < now := by
    intro κ _ m key e he
    rcases le_or_gt now e with hle | hlt
    · exact .inl (HashMap.lookup_retain_eq_some_iff.mpr ⟨he, decide_eq_true hle⟩)
    · exact .inr hlt
  refine h.call_of_retain rfl (fun now' hnow' => Option.some.inj hnow' ▸ hnow) ?_ ?_ ?_ ?_
  · exact fun key e he => hretain _ key e he
  · exact fun key e he => (HashMap.lookup_retain_eq_some_iff.mp he).1
  · exact fun key e he => hretain _ key e he
  · exact fun key e he => (HashMap.lookup_retain_eq_some_iff.mp he).1

/-- A delivery is admitted for an auth event that was not admitted before, and for a request id
whose permits were all given back: what was burned and has expired is refused. -/
theorem authorizeDelivery (h : Sound authExpiry requestExpiry g) {r : DeliveryRequest}
    (hnow : g.now ≤ r.now) (hauth : r.requestExpiresAt = authExpiry r.authKey)
    (hrequest : r.requestExpiresAt = requestExpiry r.requestKey) :
    Sound authExpiry requestExpiry (g.call (.authorizeDelivery r)) := by
  have happly : g.store.apply (.authorizeDelivery r) =
      (g.store.authorizeDelivery r).map (·.map .permit) id := rfl
  rcases g.store.authorizeDelivery_cases r with ⟨quotas, hcall⟩ |
    ⟨d, i, quotas, -, hauthorizes, hauthNone, hrequestNone, hcall⟩
  · rw [hcall] at happly
    refine h.call_of_eq ?_ (fun now hnow' => Option.some.inj hnow' ▸ hnow) ?_ ?_
    · rw [happly]
      rfl
    · rw [happly]
      rfl
    · rw [happly]
      rfl
  rw [hcall] at happly
  have hlive : r.now ≤ r.requestExpiresAt := by
    simp only [Delegation.authorizes, Bool.and_eq_true, decide_eq_true_eq] at hauthorizes
    exact hauthorizes.1.2
  have hissued : (g.call (.authorizeDelivery r)).issued =
      ⟨r.permit d i, r.eventId, none⟩ :: g.issued := by
    rw [Gateway.call, happly]
    rfl
  have hauths : (g.call (.authorizeDelivery r)).store.deliveryAuthReplays =
      g.store.deliveryAuthReplays.insert r.authKey r.requestExpiresAt := by
    rw [Gateway.call, happly]
    rfl
  have hrequests : (g.call (.authorizeDelivery r)).store.deliveryRequestReplays =
      g.store.deliveryRequestReplays.insert r.requestKey r.requestExpiresAt := by
    rw [Gateway.call, happly]
    rfl
  refine ⟨(Call.spec g.store _).keyed h.keyed, fun key e he => ?_, fun key e he => ?_,
    fun a ha => ?_, fun a ha hfinished => ?_, ?_, ?_, h.logged_call _⟩
  · rw [hauths, HashMap.lookup_insert_eq] at he
    split_ifs at he with hkey
    · rw [hkey, ← hauth]
      exact (Option.some.inj he).symm
    · exact h.authFixed key e he
  · rw [hrequests, HashMap.lookup_insert_eq] at he
    split_ifs at he with hkey
    · rw [hkey, ← hrequest]
      exact (Option.some.inj he).symm
    · exact h.requestFixed key e he
  · rw [hauths, HashMap.lookup_insert_eq]
    by_cases hkey : a.authKey = r.authKey
    · exact .inl (by rw [if_pos hkey]; nofun)
    · rw [if_neg hkey]
      rcases List.mem_cons.mp (hissued ▸ ha) with rfl | ha
      · exact absurd rfl hkey
      · exact (h.authBurned a ha).imp_right fun hlt => hlt.trans_le hnow
  · rw [hrequests, HashMap.lookup_insert_eq]
    by_cases hkey : a.requestKey = r.requestKey
    · exact .inl (by rw [if_pos hkey]; nofun)
    · rw [if_neg hkey]
      rcases List.mem_cons.mp (hissued ▸ ha) with rfl | ha
      · exact absurd rfl hkey
      · exact (h.requestBurned a ha hfinished).imp_right fun hlt => hlt.trans_le hnow
  · rw [hissued, List.map_cons, List.nodup_cons]
    refine ⟨fun hmem => ?_, h.once⟩
    obtain ⟨a, ha, hkey⟩ := List.mem_map.mp hmem
    have hkey' : a.authKey = r.authKey := hkey
    rcases h.authBurned a ha with hburned | hexpired
    · exact hburned (hkey' ▸ hauthNone)
    · rw [hkey', ← hauth] at hexpired
      exact absurd (hnow.trans hlive) hexpired.not_ge
  · rw [hissued, List.pairwise_cons]
    refine ⟨fun a ha hkey => ?_, h.retried⟩
    have hkey' : r.requestKey = a.requestKey := hkey
    by_contra hfinished
    rcases h.requestBurned a ha hfinished with hburned | hexpired
    · exact hburned (hkey' ▸ hrequestNone)
    · rw [← hkey', ← hrequest] at hexpired
      exact absurd (hnow.trans hlive) hexpired.not_ge

/-- A permit is finished. Nobody else holds its request id. -/
theorem finishDelivery (h : Sound authExpiry requestExpiry g) {later earlier : List Admission}
    {a : Admission} {disposition : DeliveryDisposition} (hissued : g.issued = later ++ a :: earlier)
    (hopen : a.finished = none) :
    Sound authExpiry requestExpiry { g.call (.finishDelivery a.permit disposition) with
      issued := later ++ { a with finished := some disposition } :: earlier } := by
  have hkeys : (later ++ { a with finished := some disposition } :: earlier).map
      Admission.authKey = g.issued.map Admission.authKey := by
    rw [hissued, List.map_append, List.map_append, List.map_cons, List.map_cons]
    rfl
  have hretried := hissued ▸ h.retried
  rw [List.pairwise_append, List.pairwise_cons] at hretried
  obtain ⟨hlater, ⟨hearlier, hrest⟩, hacross⟩ := hretried
  have hmem : ∀ b ∈ later ++ { a with finished := some disposition } :: earlier,
      b = { a with finished := some disposition } ∨ b ∈ g.issued ∧
        (b.requestKey = a.requestKey → b.finished = some .retryable) := by
    intro b hb
    rcases List.mem_append.mp hb with hb | hb
    · refine .inr ⟨hissued ▸ List.mem_append_left _ hb, fun hkey => ?_⟩
      exact absurd ((hacross b hb a List.mem_cons_self hkey).symm.trans hopen) nofun
    · rcases List.mem_cons.mp hb with rfl | hb
      · exact .inl rfl
      · refine .inr ⟨hissued ▸ List.mem_append_right _ (List.mem_cons_of_mem a hb), fun hkey => ?_⟩
        exact hearlier b hb hkey.symm
  have hself : a ∈ g.issued := hissued ▸ List.mem_append_right _ List.mem_cons_self
  have hlookup : ∀ key, (key ≠ a.requestKey ∨ disposition = .terminal) →
      (g.store.apply (.finishDelivery a.permit disposition)).2.deliveryRequestReplays.lookup key =
        g.store.deliveryRequestReplays.lookup key := by
    intro key hkey
    cases disposition with
    | terminal => rfl
    | retryable =>
      exact (HashMap.lookup_erase_eq ..).trans (if_neg (hkey.resolve_right nofun))
  have hold : ∀ key e,
      (g.store.apply (.finishDelivery a.permit disposition)).2.deliveryRequestReplays.lookup key =
        some e → g.store.deliveryRequestReplays.lookup key = some e := by
    intro key e he
    cases disposition with
    | terminal => exact he
    | retryable =>
      have he := (HashMap.lookup_erase_eq ..).symm.trans he
      split_ifs at he
      exact he
  have hauths : (g.store.apply (.finishDelivery a.permit disposition)).2.deliveryAuthReplays =
      g.store.deliveryAuthReplays := by
    cases disposition with
    | terminal => rfl
    | retryable => rfl
  refine ⟨(Call.spec g.store _).keyed h.keyed, fun key e he => h.authFixed key e (hauths ▸ he),
    fun key e he => h.requestFixed key e (hold key e he), fun b hb => ?_, fun b hb hfinished => ?_,
    hkeys ▸ h.once, ?_, h.logged_call _⟩
  · simp only [Gateway.call, hauths]
    rcases hmem b hb with rfl | ⟨hb, -⟩
    · exact h.authBurned a hself
    · exact h.authBurned b hb
  · rcases hmem b hb with rfl | ⟨hb, hkey⟩
    · cases disposition with
      | terminal => exact h.requestBurned a hself (hopen ▸ nofun)
      | retryable => exact absurd rfl hfinished
    · refine (h.requestBurned b hb hfinished).imp_left fun hburned => ?_
      have hne : b.requestKey ≠ a.requestKey := fun heq => hfinished (hkey heq)
      exact (hlookup _ (.inl hne)).symm ▸ hburned
  · rw [List.pairwise_append, List.pairwise_cons]
    refine ⟨hlater, ⟨fun b hb => hearlier b hb, hrest⟩, fun b hb c hc hkey => ?_⟩
    rcases List.mem_cons.mp hc with rfl | hc
    · exact absurd ((hacross b hb a List.mem_cons_self hkey).symm.trans hopen) nofun
    · exact hacross b hb c (List.mem_cons_of_mem a hc) hkey

/-- A step keeps the invariant. -/
theorem step (h : Sound authExpiry requestExpiry g) (hstep : Step authExpiry requestExpiry g g') :
    Sound authExpiry requestExpiry g' := by
  cases hstep with
  | finish later a earlier disposition hissued hopen => exact h.finishDelivery hissued hopen
  | call c hcall hnow hexpiry =>
    cases c with
    | authorizeDelivery r =>
      obtain ⟨hauth, hrequest⟩ := hexpiry r rfl
      exact h.authorizeDelivery (hnow r.now rfl) hauth hrequest
    | reapExpired now => exact h.reapExpired (hnow now rfl)
    | finishDelivery permit disposition => exact absurd rfl (hcall permit disposition)
    | _ => exact h.call_of_eq rfl hnow (replays_apply g.store rfl).1 (replays_apply g.store rfl).2

theorem run {now : ℤ} (hrun : ReflTransGen (Step authExpiry requestExpiry) (.new now) g) :
    Sound authExpiry requestExpiry g := by
  induction hrun with
  | refl => exact .new now
  | tail _ hstep ih => exact ih.step hstep

end Sound

/-- Installations and delegations go forward in every step. -/
theorem Step.increases (hstep : Step authExpiry requestExpiry g g') :
    Increases g.store g'.store := by
  cases hstep with
  | call c => exact (Call.spec g.store c).increases
  | finish later a earlier disposition =>
    exact (Call.spec g.store (.finishDelivery a.permit disposition)).increases

/-! ### What is admitted -/

/-- A delivery is authorized by the current delegation of an installation for its relay. -/
structure Authorized (s : MemoryState) (r : DeliveryRequest) (permit : DeliveryPermit)
    (d : Delegation) (i : Installation) : Prop where
  installation : s.installations.lookup i.id = some i
  delegation : s.delegations.lookup (i.id, r.relay) = some d
  id : d.id = r.delegationId
  generation : d.generation = r.generation
  epoch : d.endpointEpoch = r.epoch ∧ i.endpointEpoch = r.epoch
  unrevoked : d.revoked = false ∧ i.revoked = false
  unexpired : r.now ≤ d.expiresAt ∧ r.now ≤ i.expiresAt
  permit : permit = r.permit d i

/-- The permits that a revocation or a rotation excludes. -/
def Call.Fences (permit : DeliveryPermit) : Call → Prop
  | .revokeInstallation id _ _ => permit.authority.installationId ≠ id
  | .rotateEndpoint id _ new _ _ =>
    permit.authority.installationId = id → new ≤ permit.authority.endpointEpoch
  | .revokeDelegation id relay generation =>
    permit.authority.installationId = id → permit.authority.relayPubkey = relay →
      generation < permit.authority.generation
  | _ => True

theorem grantOf_eq_some {id : Uuid} {d : Delegation} {i : Installation}
    (h : s.grantOf id = some (d, i)) : ∃ key, s.delegationIds.lookup id = some key ∧
      s.delegations.lookup key = some d ∧ s.installations.lookup d.installationId = some i := by
  obtain ⟨key, hkey, h⟩ := Option.bind_eq_some_iff.mp h
  obtain ⟨d', hd, h⟩ := Option.bind_eq_some_iff.mp h
  obtain ⟨i', hi, h⟩ := Option.bind_eq_some_iff.mp h
  obtain ⟨rfl, rfl⟩ := Prod.mk.inj (Option.some.inj h)
  exact ⟨key, hkey, hd, hi⟩

/-- What is admitted is authorized. -/
theorem MemoryState.Keyed.authorized (h : s.Keyed) {r : DeliveryRequest} {permit : DeliveryPermit}
    (hpermit : (s.authorizeDelivery r).1 = .ok permit) : ∃ d i, Authorized s r permit d i := by
  rcases s.authorizeDelivery_cases r with ⟨quotas, hcall⟩ |
    ⟨d, i, quotas, hgrant, hauthorizes, -, -, hcall⟩
  · rw [hcall] at hpermit
    cases hpermit
  rw [hcall] at hpermit
  obtain ⟨key, -, hd, hi⟩ := grantOf_eq_some hgrant
  simp only [Delegation.authorizes, Bool.and_eq_true, Bool.not_eq_true', decide_eq_true_eq]
    at hauthorizes
  obtain ⟨⟨⟨⟨⟨⟨⟨⟨⟨⟨⟨hdelegation, hinstallation⟩, hid⟩, hrelay⟩, hepoch⟩, hgeneration⟩, hepoch'⟩, -⟩,
    hexpiry⟩, hexpiry'⟩, -⟩, -⟩ := hauthorizes
  have hkey := h.delegation key d hd
  have hiid := h.installation d.installationId i hi
  refine ⟨d, i, hiid.symm ▸ hi, ?_, hid, hgeneration, ⟨hepoch, hepoch'⟩,
    ⟨hdelegation, hinstallation⟩, ⟨hexpiry, hexpiry'⟩, (Except.ok.inj hpermit).symm⟩
  rw [hiid, ← hrelay, ← hkey]
  exact hd

/-- What a revocation or rotation leaves excludes the older permits. -/
theorem Authorized.fences {r : DeliveryRequest} {permit : DeliveryPermit} {d : Delegation}
    {i : Installation} (h : Authorized s r permit d i) {c : Call} (hstands : c.Stands s) :
    c.Fences permit := by
  obtain rfl := h.permit
  cases c with
  | revokeInstallation id expected new =>
    obtain ⟨i', hi', hrevoked⟩ := hstands
    rintro rfl
    obtain rfl := Option.some.inj (h.installation.symm.trans hi')
    exact absurd (h.unrevoked.2.symm.trans hrevoked) nofun
  | rotateEndpoint id expected new ciphertext fingerprint =>
    obtain ⟨i', hi', hle⟩ := hstands
    rintro rfl
    obtain rfl := Option.some.inj (h.installation.symm.trans hi')
    exact hle.trans_eq h.epoch.2
  | revokeDelegation id relay generation =>
    obtain ⟨d', hd', hgeneration⟩ := hstands
    rintro rfl rfl
    obtain rfl := Option.some.inj (h.delegation.symm.trans hd')
    rcases hgeneration with hlt | ⟨-, hrevoked⟩
    · exact hlt.trans_eq h.generation
    · exact absurd (h.unrevoked.1.symm.trans hrevoked) nofun
  | _ => trivial

/-- Of the permits that were issued, no two have burned the same auth event; and of two for one
request id the earlier one was finished as retryable, so that never both are outstanding. -/
structure ReplaySafe (g : Gateway) : Prop where
  once : (g.issued.map Admission.authKey).Nodup
  retried : g.issued.Pairwise fun newer older =>
    newer.requestKey = older.requestKey → older.finished = some .retryable
  single : g.issued.Pairwise fun newer older =>
    newer.requestKey = older.requestKey → ¬(newer.finished = none ∧ older.finished = none)

/-- Every run of the store: counters, epochs and generations increase; what is admitted is
authorized by a current delegation and excluded by none of the revocations and rotations so far; and
replays are refused. -/
theorem delivery_authority (authExpiry : List Char × List Char → ℤ)
    (requestExpiry : List Char × Uuid → ℤ) (now : ℤ) (g : Gateway)
    (hrun : ReflTransGen (Step authExpiry requestExpiry) (.new now) g) :
    (∀ g', ReflTransGen (Step authExpiry requestExpiry) g g' → Increases g.store g'.store) ∧
      (∀ r permit, (g.store.authorizeDelivery r).1 = .ok permit →
        (∃ d i, Authorized g.store r permit d i) ∧
          ∀ c reply, (c, .ok reply) ∈ g.log → c.Fences permit) ∧
      ReplaySafe g := by
  have h := Sound.run hrun
  refine ⟨fun g' hrun' => ?_, fun r permit hpermit => ?_, h.once, h.retried,
    h.retried.imp fun hretried hkey hopen => ?_⟩
  · induction hrun' with
    | refl => exact .refl _
    | tail _ hstep ih => exact ih.trans hstep.increases
  · obtain ⟨d, i, hauthorized⟩ := h.keyed.authorized hpermit
    refine ⟨⟨d, i, hauthorized⟩, fun c reply hlogged => ?_⟩
    exact hauthorized.fences (h.logged c reply hlogged)
  · exact absurd ((hretried hkey).symm.trans hopen.2) nofun

/-- An installation grants a delegation to a relay, a delivery is given back, and is admitted again
under its request id with another auth event. -/
theorem delivery_authority_retried : ∃ g : Gateway,
    g.issued.map Admission.finished = [none, some .retryable] ∧ ReplaySafe g := by
  let n : NewInstallation := ⟨1, [1], [2], 0, .buzzIosSandbox, [3], 4, 1, 300⟩
  let d : Delegation := ⟨5, 1, ['a'], 1, 1, 0, 300, false⟩
  let r : DeliveryRequest := ⟨5, ['a'], 1, 1, ['b'], 6, 200, 60, 10, 100⟩
  let r' : DeliveryRequest := { r with eventId := ['c'] }
  let a : Admission := ⟨r.permit d n.installation, r.eventId, none⟩
  let granted := ((Gateway.new 100).call (.createInstallation n)).call (.upsertDelegation d)
  have hfirst : (granted.call (.authorizeDelivery r)).issued = [a] := rfl
  have hgranted : ReflTransGen (Step (fun _ => 200) (fun _ => 200)) (.new 100) granted :=
    (ReflTransGen.refl.tail (.call (.createInstallation n) (fun _ _ => nofun) (fun _ => nofun)
      fun _ => nofun)).tail (.call (.upsertDelegation d) (fun _ _ => nofun) (fun _ => nofun)
        fun _ => nofun)
  have hauthorize : ∀ {g : Gateway} (r' : DeliveryRequest), g.now ≤ r'.now →
      r'.requestExpiresAt = 200 →
        Step (fun _ => 200) (fun _ => 200) g (g.call (.authorizeDelivery r')) := by
    intro g r' hnow hexpiry
    refine .call _ (fun _ _ => nofun) (fun _ h => Option.some.inj h ▸ hnow) fun r'' h => ?_
    obtain rfl := Call.authorizeDelivery.inj h
    exact ⟨hexpiry, hexpiry⟩
  have hrun := ((hgranted.tail (hauthorize r le_rfl rfl)).tail
    (.finish [] a [] .retryable hfirst rfl)).tail (hauthorize r' le_rfl rfl)
  refine ⟨_, ?_, (delivery_authority _ _ 100 _ hrun).2.2⟩
  subst granted a r' r d n
  decide +kernel

end Buzz.PushGateway
