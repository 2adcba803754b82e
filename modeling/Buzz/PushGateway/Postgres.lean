import Buzz.Library.Hex
import Buzz.Library.Table
import Buzz.PushGateway.Authority

/-!
# The authority of the push gateway in PostgreSQL

The tables of the migration of `crates/buzz-push-gateway`, and the calls of `PostgresAuthorityStore`
on them, as `src/postgres.rs` has them. A call is one statement or one transaction, so one that does
not succeed leaves the tables as they were; reaping is left out.

A statement that violates a `CHECK` or a unique index is an error of the database, except where it
says what to do on a conflict. `CHECK` constraints come first. Times are seconds; the columns that
record when a row was written or revoked are left out, as only reaping reads them, and a row says
whether it is revoked.

Two things are not of the repository: the digest `sha256`, and the difference of a timestamp and an
interval of seconds, in microseconds (`subtract`), which is an error where it is no timestamp.

## Main definitions

* `Tables` and its rows, `InstallationRow.check`, `DelegationRow.check`.
* `KeptCall`, `Tables.apply`: the calls of the store as data.
-/

namespace Buzz.PushGateway

open Buzz.Core Buzz.Library Buzz.Library.Table

/-! ### Rows -/

/-- A row of `push_gateway_challenges`, under its id. -/
structure ChallengeRow where
  challengeHash : Bytes32
  expiresAt : ℤ

/-- A row of `push_gateway_installations`, under its id. -/
structure InstallationRow where
  appAttestKeyId : Bytes
  appAttestPublicKey : Bytes
  assertionCounter : ℤ
  appProfile : AppProfile
  tokenCiphertext : Bytes
  tokenFingerprint : Bytes32
  endpointEpoch : ℤ
  expiresAt : ℤ
  revoked : Bool

/-- A row of `push_gateway_delegations`, under its installation and relay. Its id is the primary
key. -/
structure DelegationRow where
  id : Uuid
  endpointEpoch : ℤ
  generation : ℤ
  notBefore : ℤ
  expiresAt : ℤ
  revoked : Bool

structure Tables where
  challenges : HashMap Uuid ChallengeRow
  installations : HashMap Uuid InstallationRow
  delegations : HashMap (Uuid × Bytes) DelegationRow
  endpointQuotas : HashMap Bytes32 (ℤ × ℤ)
  deliveryAuthReplays : HashMap (Bytes × Bytes) ℤ
  deliveryRequestReplays : HashMap (Bytes × Uuid) ℤ

/-- The constraints of an installation. -/
def InstallationRow.check (i : InstallationRow) : Bool :=
  1 ≤ i.appAttestKeyId.length && i.appAttestKeyId.length ≤ 128 &&
    33 ≤ i.appAttestPublicKey.length && i.appAttestPublicKey.length ≤ 256 &&
    0 ≤ i.assertionCounter && i.assertionCounter ≤ 4294967295 &&
    1 ≤ i.tokenCiphertext.length && i.tokenCiphertext.length ≤ 2048 && 0 < i.endpointEpoch

theorem InstallationRow.check_iff {i : InstallationRow} : i.check = true ↔
    1 ≤ i.appAttestKeyId.length ∧ i.appAttestKeyId.length ≤ 128 ∧
      33 ≤ i.appAttestPublicKey.length ∧ i.appAttestPublicKey.length ≤ 256 ∧
      0 ≤ i.assertionCounter ∧ i.assertionCounter ≤ 4294967295 ∧
      1 ≤ i.tokenCiphertext.length ∧ i.tokenCiphertext.length ≤ 2048 ∧ 0 < i.endpointEpoch := by
  simp only [check, Bool.and_eq_true, decide_eq_true_eq, and_assoc]

/-- The constraints of a delegation. -/
def DelegationRow.check (d : DelegationRow) : Bool :=
  0 < d.endpointEpoch && 0 < d.generation && d.notBefore < d.expiresAt

theorem DelegationRow.check_iff {d : DelegationRow} :
    d.check = true ↔ 0 < d.endpointEpoch ∧ 0 < d.generation ∧ d.notBefore < d.expiresAt := by
  simp only [check, Bool.and_eq_true, decide_eq_true_eq, and_assoc]

/-- Whether two installations conflict in the unique index of tokens. -/
def InstallationRow.sharesToken (i j : InstallationRow) : Bool :=
  i.appProfile = j.appProfile && i.tokenFingerprint = j.tokenFingerprint

/-- The installation of a row that is not revoked. -/
def InstallationRow.installation (i : InstallationRow) (id : Uuid) : Installation where
  id := id
  appAttestKeyId := i.appAttestKeyId
  appAttestPublicKey := i.appAttestPublicKey
  assertionCounter := i.assertionCounter.toNat
  profile := i.appProfile
  tokenCiphertext := i.tokenCiphertext
  tokenFingerprint := i.tokenFingerprint
  endpointEpoch := i.endpointEpoch
  expiresAt := i.expiresAt
  revoked := false

/-- The delegation that a delivery at a time is for. -/
def DeliveryRequest.selects (r : DeliveryRequest) (relay : Bytes) (now : ℤ) (key : Uuid × Bytes)
    (d : DelegationRow) : Bool :=
  d.id = r.delegationId && key.2 = relay && d.endpointEpoch = r.epoch &&
    d.generation = r.generation && !d.revoked && d.notBefore ≤ now && now ≤ d.expiresAt

/-- The permit of a delivery, from the rows that were read. -/
def DeliveryRequest.permitRow (r : DeliveryRequest) (installationId : Uuid) (i : InstallationRow)
    (d : DelegationRow) : DeliveryPermit where
  authority :=
    { delegationId := r.delegationId
      installationId := installationId
      relayPubkey := r.relay
      profile := i.appProfile
      tokenCiphertext := i.tokenCiphertext
      endpointEpoch := r.epoch
      generation := r.generation
      expiresAt := d.expiresAt }
  relayPubkey := r.relay
  requestId := r.requestId

/-! ### Statements -/

/-- `at`: the time of whole seconds, where there is one. -/
def atTime (ts : ℤ) : Except AuthorityError ℤ :=
  if -8334601228800 ≤ ts ∧ ts ≤ 8210266876799 then .ok ts else .error .rejected

/-- `hex::decode` of an argument. -/
def decoded (text : List Char) : Except AuthorityError Bytes :=
  match hexBytes text with
  | none => .error .rejected
  | some bytes => .ok bytes

namespace Tables

def empty : Tables := ⟨∅, ∅, ∅, ∅, ∅, ∅⟩

/-- `UPDATE push_gateway_installations … WHERE id`, of one row. -/
def updateInstallation (t : Tables) (id : Uuid) (p : InstallationRow → Bool)
    (f : InstallationRow → InstallationRow) : Except AuthorityError Tables :=
  match (t.installations.lookup id).filter p with
  | none => .error .rejected
  | some i =>
    if !(f i).check ||
        existsWhere (fun id' j => id' ≠ id && j.sharesToken (f i)) t.installations then
      .error .unavailable
    else .ok { t with installations := t.installations.insert id (f i) }

section
variable (sha256 : Bytes32 → Bytes32)

def putChallenge (t : Tables) (c : Challenge) : Except AuthorityError Tables := do
  let expiresAt ← atTime c.expiresAt
  if (t.challenges.lookup c.id).isSome then .error .unavailable
  else .ok { t with
    challenges := t.challenges.insert c.id ⟨sha256 c.value, expiresAt⟩ }

def consumeChallenge (t : Tables) (id : Uuid) (value : Bytes32) (now : ℤ) :
    Except AuthorityError Tables := do
  let now ← atTime now
  match (t.challenges.lookup id).filter fun c =>
      c.challengeHash = sha256 value && now ≤ c.expiresAt with
  | none => .error .rejected
  | some _ => .ok { t with challenges := t.challenges.erase id }

end

def createInstallation (t : Tables) (n : NewInstallation) : Except AuthorityError Tables := do
  let expiresAt ← atTime n.expiresAt
  let row : InstallationRow :=
    { appAttestKeyId := n.appAttestKeyId
      appAttestPublicKey := n.appAttestPublicKey
      assertionCounter := n.assertionCounter
      appProfile := n.profile
      tokenCiphertext := n.tokenCiphertext
      tokenFingerprint := n.tokenFingerprint
      endpointEpoch := n.endpointEpoch
      expiresAt := expiresAt
      revoked := false }
  if !row.check then .error .unavailable
  else if (t.installations.lookup n.id).isSome || existsWhere (fun _ i =>
      i.appAttestKeyId = row.appAttestKeyId || i.sharesToken row) t.installations then
    .error .rejected
  else .ok { t with installations := t.installations.insert n.id row }

def installation (t : Tables) (id : Uuid) (now : ℤ) : Except AuthorityError Installation := do
  let now ← atTime now
  match (t.installations.lookup id).filter fun i => !i.revoked && now ≤ i.expiresAt with
  | none => .error .rejected
  | some i =>
    if i.assertionCounter < 0 || 2 ^ 32 ≤ i.assertionCounter then .error .unavailable
    else .ok (i.installation id)

def advanceAssertionCounter (t : Tables) (id : Uuid) (previous next : ℕ) :
    Except AuthorityError Tables :=
  if next ≤ previous then .error .rejected
  else t.updateInstallation id (fun i => i.assertionCounter = previous && !i.revoked)
    fun i => { i with assertionCounter := next }

/-- `INSERT INTO push_gateway_delegations … ON CONFLICT(installation_id,relay_pubkey) DO UPDATE …
WHERE EXCLUDED.generation > push_gateway_delegations.generation`. -/
def upsertRow (t : Tables) (key : Uuid × Bytes) (row : DelegationRow) :
    Except AuthorityError Tables :=
  if key.2.length ≠ 32 || !row.check then .error .unavailable
  else if (t.delegations.lookup key).any fun old => row.generation ≤ old.generation then
    .error .rejected
  else if existsWhere (fun key' d => key' ≠ key && d.id = row.id) t.delegations then
    .error .unavailable
  else .ok { t with delegations := t.delegations.insert key row }

def upsertDelegation (t : Tables) (d : Delegation) : Except AuthorityError Tables :=
  match t.installations.lookup d.installationId with
  | none => .error .rejected
  | some i => do
    let expiresAt ← atTime d.expiresAt
    if i.revoked || i.endpointEpoch ≠ d.endpointEpoch || i.expiresAt < expiresAt then
      .error .rejected
    else do
      let relay ← decoded d.relayPubkey
      let notBefore ← atTime d.notBefore
      t.upsertRow (d.installationId, relay)
        ⟨d.id, d.endpointEpoch, d.generation, notBefore, expiresAt, false⟩

def rotateEndpoint (t : Tables) (id : Uuid) (expected new : ℤ) (ciphertext : Bytes)
    (fingerprint : Bytes32) : Except AuthorityError Tables :=
  if checkedSucc expected ≠ some new then .error .rejected
  else t.updateInstallation id (fun i => i.endpointEpoch = expected && !i.revoked) fun i =>
    { i with
      endpointEpoch := new
      tokenCiphertext := ciphertext
      tokenFingerprint := fingerprint }

def revokeDelegation (t : Tables) (id : Uuid) (relay : List Char) (generation : ℤ) :
    Except AuthorityError Tables := do
  let relay ← decoded relay
  match (t.delegations.lookup (id, relay)).filter fun d => d.generation < generation with
  | none => .error .rejected
  | some d =>
    if !{ d with generation := generation, revoked := true : DelegationRow }.check then
      .error .unavailable
    else .ok { t with
      delegations := t.delegations.insert (id, relay) { d with
        generation := generation
        revoked := true } }

def revokeInstallation (t : Tables) (id : Uuid) (expected new : ℤ) : Except AuthorityError Tables :=
  if checkedSucc expected ≠ some new then .error .rejected
  else t.updateInstallation id (fun i => i.endpointEpoch = expected && !i.revoked) fun i =>
    { i with endpointEpoch := new, revoked := true }

section
variable (subtract : ℤ → ℤ → Option ℤ)

/-- `INSERT INTO push_gateway_endpoint_quotas … ON CONFLICT(token_fingerprint) DO UPDATE …`: the
quota that is written, where one is. -/
def charged (quota : Option (ℤ × ℤ)) (windowSeconds maxDeliveries now : ℤ) :
    Except AuthorityError (Option (ℤ × ℤ)) :=
  match quota with
  | none => .ok (some (now, 1))
  | some (startedAt, count) =>
    match subtract now windowSeconds with
    | none => .error .unavailable
    | some back =>
      if startedAt * 1000000 ≤ back then .ok (some (now, 1))
      else if count < maxDeliveries then .ok (some (startedAt, count + 1))
      else .ok none

/-- Charge a delivery, and burn its auth event and its request id. -/
def reserve (t : Tables) (r : DeliveryRequest) (relay event : Bytes) (fingerprint : Bytes32)
    (permit : DeliveryPermit) : Except AuthorityError (DeliveryPermit × Tables) := do
  let now ← atTime r.now
  let quota ← charged subtract (t.endpointQuotas.lookup fingerprint) r.quotaWindowSeconds
    r.quotaMaxDeliveries now
  match quota with
  | none => .error .rejected
  | some quota => do
    let expiresAt ← atTime r.requestExpiresAt
    if (t.deliveryAuthReplays.lookup (relay, event)).isSome ||
        (t.deliveryRequestReplays.lookup (relay, r.requestId)).isSome then
      .error .rejected
    else .ok (permit, { t with
      endpointQuotas := t.endpointQuotas.insert fingerprint quota
      deliveryAuthReplays := t.deliveryAuthReplays.insert (relay, event) expiresAt
      deliveryRequestReplays := t.deliveryRequestReplays.insert (relay, r.requestId) expiresAt })

def authorizeDelivery (t : Tables) (r : DeliveryRequest) :
    Except AuthorityError (DeliveryPermit × Tables) := do
  let relay ← decoded r.relay
  let event ← decoded r.eventId
  if event.length ≠ 32 then .error .rejected
  else
    match (selectWhere (fun _ d => d.id = r.delegationId) t.delegations).bind
        fun d => t.installations.lookup d.1.1 with
    | none => .error .rejected
    | some i => do
      let now ← atTime r.now
      if i.revoked || i.endpointEpoch ≠ r.epoch || i.expiresAt < now then .error .rejected
      else
        match selectWhere (r.selects relay now) t.delegations with
        | none => .error .rejected
        | some ((installationId, _), d) =>
          if r.requestExpiresAt < r.now || d.expiresAt < r.requestExpiresAt then .error .rejected
          else if r.quotaWindowSeconds < 1 || r.quotaMaxDeliveries < 1 then .error .unavailable
          else
            t.reserve subtract r relay event i.tokenFingerprint (r.permitRow installationId i d)

end

def finishDelivery (t : Tables) (permit : DeliveryPermit) (disposition : DeliveryDisposition) :
    Except AuthorityError Tables :=
  match disposition with
  | .terminal => .ok t
  | .retryable =>
    match hexBytes permit.relayPubkey with
    | none => .error .unavailable
    | some relay => .ok { t with
        deliveryRequestReplays := t.deliveryRequestReplays.erase (relay, permit.requestId) }

end Tables

/-! ### Calls -/

def Call.reaps : Call → Bool
  | .reapExpired _ => true
  | _ => false

/-- The calls that reap nothing. -/
abbrev KeptCall := { c : Call // c.reaps = false }

namespace Tables

/-- Run a call. -/
def transact (sha256 : Bytes32 → Bytes32) (subtract : ℤ → ℤ → Option ℤ) (t : Tables) :
    KeptCall → Except AuthorityError (Reply × Tables)
  | ⟨.putChallenge c, _⟩ => done (t.putChallenge sha256 c)
  | ⟨.consumeChallenge id value now, _⟩ => done (t.consumeChallenge sha256 id value now)
  | ⟨.createInstallation n, _⟩ => done (t.createInstallation n)
  | ⟨.installation id now, _⟩ => (t.installation id now).map fun i => (.installation i, t)
  | ⟨.advanceAssertionCounter id previous next, _⟩ =>
    done (t.advanceAssertionCounter id previous next)
  | ⟨.upsertDelegation d, _⟩ => done (t.upsertDelegation d)
  | ⟨.rotateEndpoint id expected new ciphertext fingerprint, _⟩ =>
    done (t.rotateEndpoint id expected new ciphertext fingerprint)
  | ⟨.revokeDelegation id relay generation, _⟩ => done (t.revokeDelegation id relay generation)
  | ⟨.revokeInstallation id expected new, _⟩ => done (t.revokeInstallation id expected new)
  | ⟨.authorizeDelivery r, _⟩ => (t.authorizeDelivery subtract r).map fun p => (.permit p.1, p.2)
  | ⟨.finishDelivery permit disposition, _⟩ => done (t.finishDelivery permit disposition)
where
  /-- A call without a result. -/
  done (transaction : Except AuthorityError Tables) :
      Except AuthorityError (Reply × Tables) :=
    transaction.map fun t => (.done, t)

/-- Run a call: what it returns, and the tables that it leaves. -/
def apply (sha256 : Bytes32 → Bytes32) (subtract : ℤ → ℤ → Option ℤ) (t : Tables) (c : KeptCall) :
    Except AuthorityError Reply × Tables :=
  match t.transact sha256 subtract c with
  | .error e => (.error e, t)
  | .ok (reply, t') => (.ok reply, t')

end Tables

end Buzz.PushGateway
