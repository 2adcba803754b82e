import Buzz.PushGateway.Delivery
import Buzz.PushGateway.Postgres

/-!
# What the two authority stores have in common

The tables of PostgreSQL beside the reference store: which rows stand for what, where every relay
key and event id is spelled in one way, and what both stores check of a call, in the terms of one
of them.

## Main definitions

* `Agree`: the tables hold what the reference store holds.
* `Owns`: every token has one owner.
* `Call.WellFormed`, `Call.Careful`.

## Main results

* `Owns.insert`, `Owns.rotate`, `Owns.update`.
* `grants_iff`, `authorizes_iff`, `Tables.charged_eq`: what is checked.
-/

namespace Buzz.PushGateway

open Buzz.Core Buzz.Library Buzz.Library.Table

/-! ### The relation -/

def Challenge.row (sha256 : Bytes32 → Bytes32) (c : Challenge) : ChallengeRow :=
  ⟨sha256 c.value, c.expiresAt⟩

def Installation.row (i : Installation) : InstallationRow where
  appAttestKeyId := i.appAttestKeyId
  appAttestPublicKey := i.appAttestPublicKey
  assertionCounter := i.assertionCounter
  appProfile := i.profile
  tokenCiphertext := i.tokenCiphertext
  tokenFingerprint := i.tokenFingerprint
  endpointEpoch := i.endpointEpoch
  expiresAt := i.expiresAt
  revoked := i.revoked

def Delegation.row (d : Delegation) : DelegationRow :=
  ⟨d.id, d.endpointEpoch, d.generation, d.notBefore, d.expiresAt, d.revoked⟩

def Installation.token (i : Installation) : AppProfile × Bytes32 := (i.profile, i.tokenFingerprint)

/-- Every token is that of one installation, its owner. -/
def Owns (owners : HashMap (AppProfile × Bytes32) Uuid)
    (installations : HashMap Uuid Installation) : Prop :=
  ∀ token id, owners.lookup token = some id ↔
    ∃ i, installations.lookup id = some i ∧ i.token = token

/-- The tables hold what the reference store holds, where every relay key and event id is spelled in
one way; and what is held is well formed. -/
structure Agree (spelling : HexSpelling) (sha256 : Bytes32 → Bytes32) (s : MemoryState)
    (t : Tables) : Prop where
  challenges : HashMap.Renders id (Challenge.row sha256) s.challenges t.challenges
  installations : HashMap.Renders id Installation.row s.installations t.installations
  delegations : HashMap.Renders (Prod.map id spelling.text) Delegation.row s.delegations
    t.delegations
  authReplays : HashMap.Renders (Prod.map spelling.text spelling.text) id s.deliveryAuthReplays
    t.deliveryAuthReplays
  requestReplays : HashMap.Renders (Prod.map spelling.text id) id s.deliveryRequestReplays
    t.deliveryRequestReplays
  quotas : HashMap.Renders id id s.endpointQuotas t.endpointQuotas
  keyed : s.Keyed
  owners : Owns s.tokenOwners s.installations
  ids : ∀ key d, s.delegations.lookup key = some d → s.delegationIds.lookup d.id = some key
  spelled : ∀ key d, s.delegations.lookup key = some d → ∃ relay, spelling.text relay = key.2
  installationCheck : ∀ id i, s.installations.lookup id = some i → i.row.check = true
  delegationCheck : ∀ key d, s.delegations.lookup key = some d → d.row.check = true

/-! ### Calls -/

/-- A text of 64 hexadecimal digits. -/
def Hex64 (text : List Char) : Prop :=
  text.length = 64 ∧ ∀ c ∈ text, (hexVal c).isSome = true

/-- Whether a time is a timestamp of PostgreSQL and of `chrono`. -/
def Representable (ts : ℤ) : Prop := -210866803200 ≤ ts ∧ ts ≤ 8210266876799

/-- The calls with well-formed arguments: hexadecimal relay keys and event ids, App Attest keys of
one installation each, positive quota settings, representable times; and integers of their width. -/
def Call.WellFormed (s : MemoryState) : Call → Prop
  | .putChallenge c => Representable c.expiresAt
  | .consumeChallenge _ _ now => Representable now
  | .createInstallation n => n.assertionCounter < 2 ^ 32 ∧ Representable n.expiresAt ∧
    ∀ id i, s.installations.lookup id = some i → i.appAttestKeyId = n.appAttestKeyId → id = n.id
  | .installation _ now => Representable now
  | .advanceAssertionCounter _ _ next => next < 2 ^ 32
  | .upsertDelegation d =>
    Hex64 d.relayPubkey ∧ Representable d.notBefore ∧ Representable d.expiresAt
  | .rotateEndpoint _ _ _ _ _ => True
  | .revokeDelegation _ relay _ => Hex64 relay
  | .revokeInstallation _ _ _ => True
  | .authorizeDelivery r => Hex64 r.relay ∧ Hex64 r.eventId ∧ Representable r.requestExpiresAt ∧
    Representable r.now ∧ 1 ≤ r.quotaWindowSeconds ∧ r.quotaWindowSeconds < 2 ^ 63 ∧
      1 ≤ r.quotaMaxDeliveries
  | .finishDelivery permit _ => Hex64 permit.relayPubkey
  | .reapExpired now => Representable now

/-- Whether a delegation is stored, and under a new identifier, if its installation and the
constraints allow it. -/
def Delegation.Fresh (s : MemoryState) (d : Delegation) : Prop :=
  1 ≤ d.generation ∧ d.notBefore < d.expiresAt ∧
    ((∃ old, s.delegations.lookup (d.installationId, d.relayPubkey) = some old ∧
        d.generation ≤ old.generation) ∨
      s.delegationIds.lookup d.id = none ∧ d.revoked = false)

/-- The calls that both stores answer in the same way: a challenge is put under a new identifier and
presented with its own value and in time; what is written meets the constraints of the tables; a
delegation has a new identifier and is not revoked; a token is not that of another installation;
relay keys and event ids are spelled in one way; and a quota window reaches back to a timestamp. -/
def Call.Careful (spelling : HexSpelling) (subtract : ℤ → ℤ → Option ℤ) (s : MemoryState) :
    Call → Prop
  | .putChallenge c => s.challenges.lookup c.id = none
  | .consumeChallenge id value now =>
    ∀ c, s.challenges.lookup id = some c → c.value = value ∧ now ≤ c.expiresAt
  | .createInstallation n => n.installation.row.check = true
  | .upsertDelegation d => d.relayPubkey ∈ Set.range spelling.text ∧
    ∀ i, s.installations.lookup d.installationId = some i → i.revoked = false →
      i.endpointEpoch = d.endpointEpoch → d.expiresAt ≤ i.expiresAt → d.Fresh s
  | .rotateEndpoint id expected new ciphertext fingerprint =>
    ∀ i, checkedSucc expected = some new → s.installations.lookup id = some i →
      i.revoked = false → i.endpointEpoch = expected →
        1 ≤ ciphertext.length ∧ ciphertext.length ≤ 2048 ∧
          ∀ owner, s.tokenOwners.lookup (i.profile, fingerprint) = some owner → owner = id
  | .revokeDelegation _ relay _ => relay ∈ Set.range spelling.text
  | .authorizeDelivery r =>
    r.relay ∈ Set.range spelling.text ∧ r.eventId ∈ Set.range spelling.text ∧
      subtract r.now r.quotaWindowSeconds = some ((r.now - r.quotaWindowSeconds) * 1000000)
  | .finishDelivery permit disposition =>
    disposition = .retryable → permit.relayPubkey ∈ Set.range spelling.text
  | _ => True

/-- The bytes of a text that is spelled as it should be. -/
theorem Hex64.exists_bytes {spelling : HexSpelling} {text : List Char} (h : Hex64 text)
    (hspelled : text ∈ Set.range spelling.text) :
    ∃ bytes, spelling.text bytes = text ∧ hexBytes text = some bytes ∧ bytes.length = 32 := by
  obtain ⟨bytes, hbytes⟩ := hspelled
  obtain ⟨bytes', hbytes', hlength⟩ := exists_hexBytes (n := 32) h.1 h.2
  have heq : hexBytes text = some bytes := hbytes ▸ spelling.hexBytes_text bytes
  obtain rfl := Option.some.inj (heq.symm.trans hbytes')
  exact ⟨bytes, hbytes, hbytes', hlength⟩

theorem Representable.atTime_eq {ts : ℤ} (h : Representable ts) : atTime ts = .ok ts :=
  if_pos ⟨by have := h.1; omega, h.2⟩

theorem decoded_eq {text : List Char} {bytes : Bytes} (h : hexBytes text = some bytes) :
    decoded text = .ok bytes := by
  rw [decoded, h]

theorem ok_bind {α β : Type} (a : α) (f : α → Except AuthorityError β) :
    (Except.ok a >>= f) = f a := rfl

variable {spelling : HexSpelling} {sha256 : Bytes32 → Bytes32} {subtract : ℤ → ℤ → Option ℤ}
  {s s' : MemoryState} {t t' : Tables}

theorem sharesToken_iff {i j : Installation} :
    i.row.sharesToken j.row = true ↔ i.token = j.token := by
  rw [InstallationRow.sharesToken, Bool.and_eq_true, decide_eq_true_iff, decide_eq_true_iff]
  exact Prod.mk_inj.symm

namespace Owns

variable {owners : HashMap (AppProfile × Bytes32) Uuid} {installations : HashMap Uuid Installation}
  {id : Uuid} {i i' : Installation}

theorem unique (h : Owns owners installations) {id' : Uuid} (hi : installations.lookup id = some i)
    (hi' : installations.lookup id' = some i') (htoken : i.token = i'.token) : id = id' := by
  have howner := (h _ id).mpr ⟨i, hi, htoken⟩
  exact Option.some.inj (howner.symm.trans ((h _ id').mpr ⟨i', hi', rfl⟩))

/-- An installation takes a token that no other has. -/
theorem rotate (h : Owns owners installations) (hi : installations.lookup id = some i)
    (hfree : ∀ owner, owners.lookup i'.token = some owner → owner = id) :
    Owns ((owners.erase i.token).insert i'.token id) (installations.insert id i') := by
  intro token id'
  simp only [HashMap.lookup_insert_eq, HashMap.lookup_erase_eq]
  by_cases hid : id' = id
  · subst hid
    simp only [if_true, Option.some.injEq, exists_eq_left']
    split_ifs with hnew hold
    · exact iff_of_true rfl hnew.symm
    · exact iff_of_false nofun fun heq => hnew heq.symm
    · refine iff_of_false (fun howner => ?_) fun heq => hnew heq.symm
      obtain ⟨j, hj, htoken⟩ := (h token id').mp howner
      obtain rfl := Option.some.inj (hi.symm.trans hj)
      exact hold htoken.symm
  · rw [if_neg hid, ← h token id']
    split_ifs with hnew hold
    · refine iff_of_false (fun heq => hid (Option.some.inj heq).symm) fun howner => ?_
      exact hid (hfree id' (hnew ▸ howner))
    · refine iff_of_false nofun fun howner => hid ?_
      exact Option.some.inj (howner.symm.trans ((h token id).mpr ⟨i, hi, hold.symm⟩))
    · exact Iff.rfl

/-- An installation is written under a new identifier, with a token that is not taken. -/
theorem insert (h : Owns owners installations) (hnew : installations.lookup id = none)
    (hfree : owners.lookup i.token = none) :
    Owns (owners.insert i.token id) (installations.insert id i) := by
  intro token id'
  simp only [HashMap.lookup_insert_eq]
  by_cases hid : id' = id
  · subst hid
    simp only [if_true, Option.some.injEq, exists_eq_left']
    split_ifs with htoken
    · exact iff_of_true rfl htoken.symm
    · refine iff_of_false (fun howner => ?_) fun heq => htoken heq.symm
      obtain ⟨j, hj, -⟩ := (h token id').mp howner
      exact absurd (hnew.symm.trans hj) nofun
  · rw [if_neg hid, ← h token id']
    split_ifs with htoken
    · refine iff_of_false (fun heq => hid (Option.some.inj heq).symm) fun howner => ?_
      rw [htoken, hfree] at howner
      cases howner
    · exact Iff.rfl

/-- An installation is written with the token that it had. -/
theorem update (h : Owns owners installations) (hi : installations.lookup id = some i)
    (htoken : i'.token = i.token) : Owns owners (installations.insert id i') := by
  intro token id'
  rw [h token id', HashMap.lookup_insert_eq]
  by_cases hid : id' = id
  · subst hid
    rw [if_pos rfl, hi]
    simp only [Option.some.injEq, exists_eq_left', htoken]
  · rw [if_neg hid]

end Owns

/-! ### What the stores check -/

theorem spelling_injective : Function.Injective (Prod.map id spelling.text : Uuid × Bytes → _) :=
  Function.injective_id.prodMap spelling.text_injective

/-- PostgreSQL takes a challenge that is presented with its value and in time. -/
theorem Tables.consumeChallenge_eq {id : Uuid} {row : ChallengeRow}
    (hrow : t.challenges.lookup id = some row) {now : ℤ} (hnow : Representable now)
    (value : Bytes32) :
    t.consumeChallenge sha256 id value now =
      if row.challengeHash = sha256 value ∧ now ≤ row.expiresAt then
        .ok { t with challenges := t.challenges.erase id }
      else .error .rejected := by
  rw [Tables.consumeChallenge, hnow.atTime_eq, ok_bind, hrow, Option.filter_some]
  by_cases hgood : row.challengeHash = sha256 value ∧ now ≤ row.expiresAt
  · rw [if_pos hgood, if_pos (by simpa using hgood)]
  · rw [if_neg hgood, if_neg (by simpa using hgood)]

theorem eq_of_checkedSucc {n m : ℤ} (h : checkedSucc n = some m) : m = n + 1 := by
  rw [checkedSucc] at h
  split_ifs at h
  exact (Option.some.inj h).symm

/-- The condition of the two updates that move the epoch on. -/
theorem current_iff (i : Installation) (expected : ℤ) :
    (decide (i.row.endpointEpoch = expected) && !i.row.revoked) = true ↔
      ¬(i.revoked = true ∨ i.endpointEpoch ≠ expected) := by
  rw [Bool.and_eq_true, decide_eq_true_iff, not_or, not_ne_iff, and_comm, Bool.not_eq_true',
    Bool.not_eq_true]
  exact Iff.rfl

theorem grants_iff {i : Installation} {d : Delegation} : i.grants d = true ↔
    (i.revoked = false ∧ i.endpointEpoch = d.endpointEpoch ∧ d.expiresAt ≤ i.expiresAt) ∧
      1 ≤ d.generation ∧ d.notBefore < d.expiresAt := by
  simp only [Installation.grants, Bool.and_eq_true, Bool.not_eq_true', decide_eq_true_eq]
  tauto

/-- What PostgreSQL checks of the installation of a delegation. -/
theorem refuses_iff {i : Installation} {d : Delegation} :
    (i.row.revoked || decide (i.row.endpointEpoch ≠ d.endpointEpoch) ||
        decide (i.row.expiresAt < d.expiresAt)) = true ↔
      ¬(i.revoked = false ∧ i.endpointEpoch = d.endpointEpoch ∧ d.expiresAt ≤ i.expiresAt) := by
  rw [Bool.or_eq_true, Bool.or_eq_true, decide_eq_true_iff, decide_eq_true_iff, not_and_or,
    not_and_or, not_le, Bool.not_eq_false, or_assoc]
  exact Iff.rfl

/-- What is checked of the installation of a delivery. -/
def Installation.Allows (i : Installation) (r : DeliveryRequest) : Prop :=
  i.revoked = false ∧ i.endpointEpoch = r.epoch ∧ r.now ≤ i.expiresAt

/-- What is checked of the delegation of a delivery. -/
def Delegation.Allows (d : Delegation) (r : DeliveryRequest) : Prop :=
  d.id = r.delegationId ∧ d.relayPubkey = r.relay ∧ d.endpointEpoch = r.epoch ∧
    d.generation = r.generation ∧ d.revoked = false ∧ d.notBefore ≤ r.now ∧ r.now ≤ d.expiresAt

theorem authorizes_iff {d : Delegation} {i : Installation} {r : DeliveryRequest} :
    d.authorizes i r = true ↔ i.Allows r ∧ d.Allows r ∧
      r.now ≤ r.requestExpiresAt ∧ r.requestExpiresAt ≤ d.expiresAt := by
  simp only [Delegation.authorizes, Installation.Allows, Delegation.Allows, Bool.and_eq_true,
    Bool.not_eq_true', decide_eq_true_eq]
  tauto

theorem refusesInstallation_iff {i : Installation} {r : DeliveryRequest} :
    (i.row.revoked || decide (i.row.endpointEpoch ≠ r.epoch) ||
        decide (i.row.expiresAt < r.now)) = true ↔ ¬i.Allows r := by
  rw [Installation.Allows, Bool.or_eq_true, Bool.or_eq_true, decide_eq_true_iff,
    decide_eq_true_iff, not_and_or, not_and_or, not_le, Bool.not_eq_false, or_assoc]
  exact Iff.rfl

theorem refusesExpiry_iff {d : Delegation} {r : DeliveryRequest} :
    (decide (r.requestExpiresAt < r.now) || decide (d.row.expiresAt < r.requestExpiresAt)) = true ↔
      ¬(r.now ≤ r.requestExpiresAt ∧ r.requestExpiresAt ≤ d.expiresAt) := by
  rw [Bool.or_eq_true, decide_eq_true_iff, decide_eq_true_iff, not_and_or, not_le, not_le]
  exact Iff.rfl

theorem DeliveryRequest.selects_iff {id : Uuid} {relay relay' : Bytes} {d : Delegation}
    {r : DeliveryRequest} (hrelay : spelling.text relay = r.relay)
    (hrelay' : spelling.text relay' = d.relayPubkey) :
    r.selects relay r.now (id, relay') d.row = true ↔ d.Allows r := by
  have hsame : relay' = relay ↔ d.relayPubkey = r.relay := by
    rw [← hrelay, ← hrelay', spelling.text_injective.eq_iff]
  simp only [DeliveryRequest.selects, Bool.and_eq_true, decide_eq_true_iff, Bool.not_eq_true',
    hsame, and_assoc]
  exact Iff.rfl

theorem DeliveryRequest.id_of_selects {r : DeliveryRequest} {relay : Bytes} {key : Uuid × Bytes}
    {row : DelegationRow} (h : r.selects relay r.now key row = true) : row.id = r.delegationId := by
  simp only [DeliveryRequest.selects, Bool.and_eq_true, decide_eq_true_eq] at h
  exact h.1.1.1.1.1.1

theorem MemoryState.grantOf_eq_map {id : Uuid} {key : Uuid × List Char} {d : Delegation}
    (hkey : s.delegationIds.lookup id = some key) (hd : s.delegations.lookup key = some d) :
    s.grantOf id = (s.installations.lookup d.installationId).map fun i => (d, i) := by
  rw [MemoryState.grantOf, hkey, Option.bind_eq_bind, Option.bind_some, hd, Option.bind_eq_bind,
    Option.bind_some]
  cases s.installations.lookup d.installationId with
  | none => rfl
  | some i => rfl

theorem le_saturatingSub {a b n : ℤ} (hn : 1 ≤ n) (hn' : n < 2 ^ 63) :
    n ≤ saturatingSub a b ↔ n ≤ a - b := by
  rw [saturatingSub, le_max_iff, le_min_iff]
  omega

/-- Both stores charge the same quota. -/
theorem Tables.charged_eq {fingerprint : Bytes32} {window maxDeliveries now : ℤ}
    (hwindow : 1 ≤ window) (hwidth : window < 2 ^ 63) (hmax : 1 ≤ maxDeliveries)
    (hsubtract : subtract now window = some ((now - window) * 1000000)) :
    Tables.charged subtract (s.endpointQuotas.lookup fingerprint) window maxDeliveries now =
      .ok (if maxDeliveries ≤ (s.quota fingerprint window now).2 then none
        else some ((s.quota fingerprint window now).1,
          (s.quota fingerprint window now).2 + 1)) := by
  rw [MemoryState.quota]
  cases s.endpointQuotas.lookup fingerprint with
  | none =>
    have hnew : ¬window ≤ saturatingSub now now := by
      rw [le_saturatingSub hwindow hwidth]
      omega
    have hroom : ¬maxDeliveries ≤ 0 := by omega
    simp only [Tables.charged, Option.getD_none, if_neg hnew, if_neg hroom, zero_add]
  | some quota =>
    obtain ⟨startedAt, count⟩ := quota
    have hover : startedAt * 1000000 ≤ (now - window) * 1000000 ↔
        window ≤ saturatingSub now startedAt := by
      rw [le_saturatingSub hwindow hwidth]
      omega
    simp only [Tables.charged, Option.getD_some, hsubtract, hover]
    split_ifs with hreset hfull hroom hroom
    · omega
    · rfl
    · omega
    · rfl
    · rfl
    · omega

/-- A quota that is used up is the one that is stored. -/
theorem MemoryState.lookup_of_full {fingerprint : Bytes32} {window maxDeliveries now : ℤ}
    (hmax : 1 ≤ maxDeliveries)
    (hfull : maxDeliveries ≤ (s.quota fingerprint window now).2) :
    s.endpointQuotas.lookup fingerprint = some (s.quota fingerprint window now) := by
  rw [MemoryState.quota] at hfull ⊢
  cases hquota : s.endpointQuotas.lookup fingerprint with
  | none =>
    simp only [hquota, Option.getD_none] at hfull
    split_ifs at hfull <;> simp only at hfull <;> omega
  | some quota =>
    simp only [hquota, Option.getD_some] at hfull ⊢
    split_ifs at hfull ⊢ with hreset
    · simp only at hfull
      omega
    · rfl

end Buzz.PushGateway
