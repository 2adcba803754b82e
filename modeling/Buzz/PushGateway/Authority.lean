import Buzz.Core.Filter
import Buzz.Library.HashMap

/-!
# The authority of the push gateway

Installations, the delegations that they grant to relays, and the replay state of deliveries, as
`crates/buzz-push-gateway/src/authority.rs` keeps them. This module is the reference store of the
conformance tests, `MemoryAuthorityStore`: one lock, so one call after another. Nothing panics under
the lock, so it is never poisoned.

An installation has an endpoint epoch, which a rotation of its token and a revocation move on. A
delegation names a relay, the epoch it was granted in and a generation. A delivery is admitted for a
current delegation, burns an auth event and a request id of the relay, and is charged to a quota of
the endpoint; a permit that is finished as retryable gives the request id back.

## Main definitions

* `Challenge`, `Installation`, `Delegation`, `DeliveryPermit`, `AuthorityError`.
* `MemoryState` and its calls, `DeliveryRequest`.
* `Call`, `Reply`, `MemoryState.apply`: the calls of the store as data.

## Main results

* `MemoryState.authorizeDelivery_cases`: when a delivery is admitted, and what it leaves.
-/

namespace Buzz.PushGateway

open Buzz.Core Buzz.Library

/-! ### Data -/

inductive AppProfile
  | buzzIosProduction
  | buzzIosSandbox
  deriving DecidableEq

abbrev Bytes := List UInt8

/-- A text of 32 bytes: a challenge, or the fingerprint of a token. -/
abbrev Bytes32 := BitVec 256

structure Challenge where
  id : Uuid
  value : Bytes32
  expiresAt : ℤ
  deriving DecidableEq

structure NewInstallation where
  id : Uuid
  appAttestKeyId : Bytes
  appAttestPublicKey : Bytes
  assertionCounter : ℕ
  profile : AppProfile
  tokenCiphertext : Bytes
  tokenFingerprint : Bytes32
  endpointEpoch : ℤ
  expiresAt : ℤ
  deriving DecidableEq

structure Installation where
  id : Uuid
  appAttestKeyId : Bytes
  appAttestPublicKey : Bytes
  assertionCounter : ℕ
  profile : AppProfile
  tokenCiphertext : Bytes
  tokenFingerprint : Bytes32
  endpointEpoch : ℤ
  expiresAt : ℤ
  revoked : Bool
  deriving DecidableEq

structure Delegation where
  id : Uuid
  installationId : Uuid
  relayPubkey : List Char
  endpointEpoch : ℤ
  generation : ℤ
  notBefore : ℤ
  expiresAt : ℤ
  revoked : Bool
  deriving DecidableEq

structure DeliveryAuthority where
  delegationId : Uuid
  installationId : Uuid
  relayPubkey : List Char
  profile : AppProfile
  tokenCiphertext : Bytes
  endpointEpoch : ℤ
  generation : ℤ
  expiresAt : ℤ
  deriving DecidableEq

structure DeliveryPermit where
  authority : DeliveryAuthority
  relayPubkey : List Char
  requestId : Uuid
  deriving DecidableEq

inductive DeliveryDisposition
  | terminal
  | retryable
  deriving DecidableEq

inductive AuthorityError
  | rejected
  | unavailable
  deriving DecidableEq

/-- The arguments of `authorize_delivery`. -/
structure DeliveryRequest where
  delegationId : Uuid
  relay : List Char
  epoch : ℤ
  generation : ℤ
  eventId : List Char
  requestId : Uuid
  requestExpiresAt : ℤ
  quotaWindowSeconds : ℤ
  quotaMaxDeliveries : ℤ
  now : ℤ
  deriving DecidableEq

/-- The one that an installation becomes. -/
def NewInstallation.installation (n : NewInstallation) : Installation where
  id := n.id
  appAttestKeyId := n.appAttestKeyId
  appAttestPublicKey := n.appAttestPublicKey
  assertionCounter := n.assertionCounter
  profile := n.profile
  tokenCiphertext := n.tokenCiphertext
  tokenFingerprint := n.tokenFingerprint
  endpointEpoch := n.endpointEpoch
  expiresAt := n.expiresAt
  revoked := false

/-- `i64::checked_add` of one. -/
def checkedSucc (n : ℤ) : Option ℤ := if n + 1 < 2 ^ 63 then some (n + 1) else none

/-- `i64::saturating_sub`. -/
def saturatingSub (a b : ℤ) : ℤ := max (-2 ^ 63) (min (2 ^ 63 - 1) (a - b))

/-! ### The reference store -/

structure MemoryState where
  challenges : HashMap Uuid Challenge
  installations : HashMap Uuid Installation
  tokenOwners : HashMap (AppProfile × Bytes32) Uuid
  delegations : HashMap (Uuid × List Char) Delegation
  delegationIds : HashMap Uuid (Uuid × List Char)
  deliveryAuthReplays : HashMap (List Char × List Char) ℤ
  deliveryRequestReplays : HashMap (List Char × Uuid) ℤ
  endpointQuotas : HashMap Bytes32 (ℤ × ℤ)

/-- What a call returns, and the state that it leaves. -/
abbrev Outcome (α : Type) := Except AuthorityError α × MemoryState

/-- Whether an installation can grant a delegation. -/
def Installation.grants (i : Installation) (d : Delegation) : Bool :=
  !i.revoked && i.endpointEpoch = d.endpointEpoch && 1 ≤ d.generation &&
    d.notBefore < d.expiresAt && d.expiresAt ≤ i.expiresAt

/-- Whether a delegation authorizes a delivery, apart from replay and quota. -/
def Delegation.authorizes (d : Delegation) (i : Installation) (r : DeliveryRequest) : Bool :=
  !d.revoked && !i.revoked && d.id = r.delegationId && d.relayPubkey = r.relay &&
    d.endpointEpoch = r.epoch && d.generation = r.generation && i.endpointEpoch = r.epoch &&
    d.notBefore ≤ r.now && r.now ≤ d.expiresAt && r.now ≤ i.expiresAt &&
    r.now ≤ r.requestExpiresAt && r.requestExpiresAt ≤ d.expiresAt

/-- The permit of a delivery. -/
def DeliveryRequest.permit (r : DeliveryRequest) (d : Delegation) (i : Installation) :
    DeliveryPermit where
  authority :=
    { delegationId := r.delegationId
      installationId := i.id
      relayPubkey := r.relay
      profile := i.profile
      tokenCiphertext := i.tokenCiphertext
      endpointEpoch := r.epoch
      generation := r.generation
      expiresAt := d.expiresAt }
  relayPubkey := r.relay
  requestId := r.requestId

/-- The auth event that a delivery burns. -/
def DeliveryRequest.authKey (r : DeliveryRequest) : List Char × List Char := (r.relay, r.eventId)

/-- The request id that a delivery burns. -/
def DeliveryRequest.requestKey (r : DeliveryRequest) : List Char × Uuid := (r.relay, r.requestId)

namespace MemoryState

def new : MemoryState := ⟨∅, ∅, ∅, ∅, ∅, ∅, ∅, ∅⟩

def putChallenge (s : MemoryState) (challenge : Challenge) : Outcome Unit :=
  (if (s.challenges.lookup challenge.id).isSome then .error .rejected else .ok (),
    { s with challenges := s.challenges.insert challenge.id challenge })

/-- A challenge is gone once it was presented. -/
def consumeChallenge (s : MemoryState) (id : Uuid) (value : Bytes32) (now : ℤ) : Outcome Unit :=
  match s.challenges.lookup id with
  | none => (.error .rejected, s)
  | some challenge =>
    (if challenge.value ≠ value ∨ challenge.expiresAt < now then .error .rejected else .ok (),
      { s with challenges := s.challenges.erase id })

def createInstallation (s : MemoryState) (n : NewInstallation) : Outcome Unit :=
  if (s.installations.lookup n.id).isSome ∨
      (s.tokenOwners.lookup (n.profile, n.tokenFingerprint)).isSome then (.error .rejected, s)
  else (.ok (), { s with
    tokenOwners := s.tokenOwners.insert (n.profile, n.tokenFingerprint) n.id
    installations := s.installations.insert n.id n.installation })

def installation (s : MemoryState) (id : Uuid) (now : ℤ) : Except AuthorityError Installation :=
  match (s.installations.lookup id).filter fun i => !i.revoked && now ≤ i.expiresAt with
  | none => .error .rejected
  | some i => .ok i

def advanceAssertionCounter (s : MemoryState) (id : Uuid) (previous next : ℕ) : Outcome Unit :=
  if next ≤ previous then (.error .rejected, s)
  else
    match s.installations.lookup id with
    | none => (.error .rejected, s)
    | some i =>
      if i.revoked ∨ i.assertionCounter ≠ previous then (.error .rejected, s)
      else (.ok (), { s with
        installations := s.installations.insert id { i with assertionCounter := next } })

def upsertDelegation (s : MemoryState) (d : Delegation) : Outcome Unit :=
  match s.installations.lookup d.installationId with
  | none => (.error .rejected, s)
  | some i =>
    if !i.grants d then (.error .rejected, s)
    else if (s.delegations.lookup (d.installationId, d.relayPubkey)).any
        (fun old => d.generation ≤ old.generation) ∨ (s.delegationIds.lookup d.id).isSome then
      (.error .rejected, s)
    else (.ok (), { s with
      delegationIds := s.delegationIds.insert d.id (d.installationId, d.relayPubkey)
      delegations := s.delegations.insert (d.installationId, d.relayPubkey) d })

def rotateEndpoint (s : MemoryState) (id : Uuid) (expected new : ℤ) (ciphertext : Bytes)
    (fingerprint : Bytes32) : Outcome Unit :=
  if checkedSucc expected ≠ some new then (.error .rejected, s)
  else
    match s.installations.lookup id with
    | none => (.error .rejected, s)
    | some i =>
      if i.revoked ∨ i.endpointEpoch ≠ expected then (.error .rejected, s)
      else if (s.tokenOwners.lookup (i.profile, fingerprint)).any fun owner => owner ≠ id then
        (.error .rejected, s)
      else (.ok (), { s with
        tokenOwners := (s.tokenOwners.erase (i.profile, i.tokenFingerprint)).insert
          (i.profile, fingerprint) id
        installations := s.installations.insert id { i with
          endpointEpoch := new
          tokenCiphertext := ciphertext
          tokenFingerprint := fingerprint } })

def revokeDelegation (s : MemoryState) (id : Uuid) (relay : List Char) (generation : ℤ) :
    Outcome Unit :=
  match s.delegations.lookup (id, relay) with
  | none => (.error .rejected, s)
  | some old =>
    if generation ≤ old.generation then (.error .rejected, s)
    else (.ok (), { s with
      delegations := s.delegations.insert (id, relay) { old with
        generation := generation
        revoked := true } })

def revokeInstallation (s : MemoryState) (id : Uuid) (expected new : ℤ) : Outcome Unit :=
  if checkedSucc expected ≠ some new then (.error .rejected, s)
  else
    match s.installations.lookup id with
    | none => (.error .rejected, s)
    | some i =>
      if i.revoked ∨ i.endpointEpoch ≠ expected then (.error .rejected, s)
      else (.ok (), { s with
        installations := s.installations.insert id { i with
          endpointEpoch := new
          revoked := true } })

/-- The quota of an endpoint, in a new window when the old one is over. -/
def quota (s : MemoryState) (fingerprint : Bytes32) (windowSeconds now : ℤ) : ℤ × ℤ :=
  let quota := (s.endpointQuotas.lookup fingerprint).getD (now, 0)
  if windowSeconds ≤ saturatingSub now quota.1 then (now, 0) else quota

/-- The delegation of an identifier and its installation. -/
def grantOf (s : MemoryState) (delegationId : Uuid) : Option (Delegation × Installation) := do
  let key ← s.delegationIds.lookup delegationId
  let d ← s.delegations.lookup key
  let i ← s.installations.lookup d.installationId
  return (d, i)

/-- Charge a delivery to the quota of its endpoint, and burn its auth event and its request id. -/
def charge (s : MemoryState) (r : DeliveryRequest) (d : Delegation) (i : Installation)
    (quota : ℤ × ℤ) : Outcome DeliveryPermit :=
  if r.quotaMaxDeliveries ≤ quota.2 then
    (.error .rejected,
      { s with endpointQuotas := s.endpointQuotas.insert i.tokenFingerprint quota })
  else (.ok (r.permit d i), { s with
    endpointQuotas := s.endpointQuotas.insert i.tokenFingerprint (quota.1, quota.2 + 1)
    deliveryAuthReplays := s.deliveryAuthReplays.insert r.authKey r.requestExpiresAt
    deliveryRequestReplays := s.deliveryRequestReplays.insert r.requestKey r.requestExpiresAt })

def authorizeDelivery (s : MemoryState) (r : DeliveryRequest) : Outcome DeliveryPermit :=
  match s.grantOf r.delegationId with
  | none => (.error .rejected, s)
  | some (d, i) =>
    if !d.authorizes i r then (.error .rejected, s)
    else if (s.deliveryAuthReplays.lookup r.authKey).isSome ∨
        (s.deliveryRequestReplays.lookup r.requestKey).isSome then (.error .rejected, s)
    else s.charge r d i (s.quota i.tokenFingerprint r.quotaWindowSeconds r.now)

/-- A permit that is finished as retryable gives its request id back. -/
def finishDelivery (s : MemoryState) (permit : DeliveryPermit) (disposition : DeliveryDisposition) :
    Outcome Unit :=
  match disposition with
  | .terminal => (.ok (), s)
  | .retryable => (.ok (), { s with
      deliveryRequestReplays :=
        s.deliveryRequestReplays.erase (permit.relayPubkey, permit.requestId) })

def reapExpired (s : MemoryState) (now : ℤ) : Outcome Unit :=
  (.ok (), { s with
    challenges := s.challenges.retain fun _ challenge => now ≤ challenge.expiresAt
    deliveryAuthReplays := s.deliveryAuthReplays.retain fun _ expiresAt => now ≤ expiresAt
    deliveryRequestReplays := s.deliveryRequestReplays.retain fun _ expiresAt => now ≤ expiresAt
    endpointQuotas := s.endpointQuotas.retain fun _ quota =>
      saturatingSub now quota.1 < 86400 })

end MemoryState

/-! ### Calls -/

/-- The calls of an authority store, readiness apart. -/
inductive Call
  | putChallenge (challenge : Challenge)
  | consumeChallenge (id : Uuid) (value : Bytes32) (now : ℤ)
  | createInstallation (n : NewInstallation)
  | installation (id : Uuid) (now : ℤ)
  | advanceAssertionCounter (id : Uuid) (previous next : ℕ)
  | upsertDelegation (d : Delegation)
  | rotateEndpoint (id : Uuid) (expected new : ℤ) (ciphertext : Bytes) (fingerprint : Bytes32)
  | revokeDelegation (id : Uuid) (relay : List Char) (generation : ℤ)
  | revokeInstallation (id : Uuid) (expected new : ℤ)
  | authorizeDelivery (r : DeliveryRequest)
  | finishDelivery (permit : DeliveryPermit) (disposition : DeliveryDisposition)
  | reapExpired (now : ℤ)
  deriving DecidableEq

/-- What a call returns. -/
inductive Reply
  | done
  | installation (i : Installation)
  | permit (permit : DeliveryPermit)
  deriving DecidableEq

namespace MemoryState

/-- Run a call. -/
def apply (s : MemoryState) : Call → Except AuthorityError Reply × MemoryState
  | .putChallenge challenge => done (s.putChallenge challenge)
  | .consumeChallenge id value now => done (s.consumeChallenge id value now)
  | .createInstallation n => done (s.createInstallation n)
  | .installation id now => ((s.installation id now).map .installation, s)
  | .advanceAssertionCounter id previous next => done (s.advanceAssertionCounter id previous next)
  | .upsertDelegation d => done (s.upsertDelegation d)
  | .rotateEndpoint id expected new ciphertext fingerprint =>
    done (s.rotateEndpoint id expected new ciphertext fingerprint)
  | .revokeDelegation id relay generation => done (s.revokeDelegation id relay generation)
  | .revokeInstallation id expected new => done (s.revokeInstallation id expected new)
  | .authorizeDelivery r => (s.authorizeDelivery r).map (·.map .permit) id
  | .finishDelivery permit disposition => done (s.finishDelivery permit disposition)
  | .reapExpired now => done (s.reapExpired now)
where
  /-- A call without a result. -/
  done (outcome : Outcome Unit) : Except AuthorityError Reply × MemoryState :=
    outcome.map (·.map fun _ => .done) id

/-- A delivery is refused, or it is for a delegation that authorizes it and burns an auth event and
a request id that were not burned. -/
theorem authorizeDelivery_cases (s : MemoryState) (r : DeliveryRequest) :
    (∃ quotas, s.authorizeDelivery r = (.error .rejected, { s with endpointQuotas := quotas })) ∨
      ∃ d i quotas, s.grantOf r.delegationId = some (d, i) ∧ d.authorizes i r = true ∧
        s.deliveryAuthReplays.lookup r.authKey = none ∧
        s.deliveryRequestReplays.lookup r.requestKey = none ∧
        s.authorizeDelivery r = (.ok (r.permit d i), { s with
          endpointQuotas := quotas
          deliveryAuthReplays := s.deliveryAuthReplays.insert r.authKey r.requestExpiresAt
          deliveryRequestReplays :=
            s.deliveryRequestReplays.insert r.requestKey r.requestExpiresAt }) := by
  rw [authorizeDelivery]
  split
  · exact .inl ⟨_, rfl⟩
  next d i hgrant =>
    split_ifs with hauthorizes hburned
    · exact .inl ⟨_, rfl⟩
    · exact .inl ⟨_, rfl⟩
    rw [charge]
    split_ifs
    · exact .inl ⟨_, rfl⟩
    · obtain ⟨hauth, hrequest⟩ := not_or.mp hburned
      refine .inr ⟨d, i, _, hgrant, by simpa using hauthorizes, ?_, ?_, rfl⟩
      · exact Option.not_isSome_iff_eq_none.mp hauth
      · exact Option.not_isSome_iff_eq_none.mp hrequest

end MemoryState

end Buzz.PushGateway
