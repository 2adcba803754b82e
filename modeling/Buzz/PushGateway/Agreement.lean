import Buzz.PushGateway.Correspondence

/-!
# The two authority stores

The reference store and the tables of PostgreSQL, on the same calls. They differ in what a refused
call consumes (a challenge that is presented wrongly is gone from the reference store only), in the
error of a conflict, and in what the constraints of the tables exclude. Where a call meets none of
that, both return the same.

## Main definitions

* `Alike`: both stores answer a call in the same way.
* `outcomes`, `Throughout`: sequences of calls.

## Main results

* `Agree.apply`: a careful call.
* `stores_agree`, `stores_differ`.
-/

namespace Buzz.PushGateway

open Buzz.Core Buzz.Library Buzz.Library.Table

variable {spelling : HexSpelling} {sha256 : Bytes32 → Bytes32} {subtract : ℤ → ℤ → Option ℤ}
  {s s' : MemoryState} {t t' : Tables}

/-! ### One call -/

/-- Both stores answer a call in the same way, and what they hold goes on to agree. -/
structure Alike (spelling : HexSpelling) (sha256 : Bytes32 → Bytes32)
    (subtract : ℤ → ℤ → Option ℤ) (s : MemoryState) (t : Tables) (c : KeptCall) : Prop where
  reply : (s.apply c.1).1 = (t.apply sha256 subtract c).1
  agree : Agree spelling sha256 (s.apply c.1).2 (t.apply sha256 subtract c).2

namespace Alike

variable {c : KeptCall}

theorem of_error {e : AuthorityError} (hs : s.apply c.1 = (.error e, s'))
    (ht : t.transact sha256 subtract c = .error e) (h : Agree spelling sha256 s' t) :
    Alike spelling sha256 subtract s t c := by
  have happly : t.apply sha256 subtract c = (.error e, t) := by rw [Tables.apply, ht]
  refine ⟨?_, ?_⟩
  · rw [hs, happly]
  · rw [hs, happly]
    exact h

theorem of_ok {reply : Reply} (hs : s.apply c.1 = (.ok reply, s'))
    (ht : t.transact sha256 subtract c = .ok (reply, t')) (h : Agree spelling sha256 s' t') :
    Alike spelling sha256 subtract s t c := by
  have happly : t.apply sha256 subtract c = (.ok reply, t') := by rw [Tables.apply, ht]
  refine ⟨?_, ?_⟩
  · rw [hs, happly]
  · rw [hs, happly]
    exact h

end Alike

namespace Agree

theorem putChallenge (h : Agree spelling sha256 s t) {c : Challenge}
    (hexpiry : Representable c.expiresAt) (hnew : s.challenges.lookup c.id = none) :
    Alike spelling sha256 subtract s t ⟨.putChallenge c, rfl⟩ := by
  have hs : s.apply (.putChallenge c) = MemoryState.apply.done (s.putChallenge c) := rfl
  have ht : t.transact sha256 subtract ⟨.putChallenge c, rfl⟩ =
      Tables.transact.done (t.putChallenge sha256 c) := rfl
  have hnone : (t.challenges.lookup c.id).isSome = false := by
    rw [h.challenges.isSome_eq, id, hnew]
    rfl
  rw [MemoryState.putChallenge, hnew] at hs
  rw [Tables.putChallenge, hexpiry.atTime_eq, ok_bind, hnone] at ht
  refine .of_ok hs ht { h with
    challenges := h.challenges.insert Function.injective_id c.id c
    keyed := ⟨h.keyed.installation, h.keyed.delegation⟩ }

/-- A challenge that is presented as it was put is taken from both stores. -/
theorem consumeChallenge (h : Agree spelling sha256 s t) {id : Uuid} {value : Bytes32} {now : ℤ}
    (hnow : Representable now)
    (hgood : ∀ c, s.challenges.lookup id = some c → c.value = value ∧ now ≤ c.expiresAt) :
    Alike spelling sha256 subtract s t ⟨.consumeChallenge id value now, rfl⟩ := by
  have hs : s.apply (.consumeChallenge id value now) =
      MemoryState.apply.done (s.consumeChallenge id value now) := rfl
  have ht : t.transact sha256 subtract ⟨.consumeChallenge id value now, rfl⟩ =
      Tables.transact.done (t.consumeChallenge sha256 id value now) := rfl
  have hrow : t.challenges.lookup id = (s.challenges.lookup id).map (Challenge.row sha256) :=
    h.challenges id
  rw [MemoryState.consumeChallenge] at hs
  cases hc : s.challenges.lookup id with
  | none =>
    rw [Tables.consumeChallenge, hnow.atTime_eq, ok_bind, hrow, hc] at ht
    rw [hc] at hs
    exact .of_error hs ht h
  | some c =>
    obtain ⟨rfl, hle⟩ := hgood c hc
    rw [hc] at hs hrow
    rw [Tables.consumeChallenge_eq hrow hnow, if_pos ⟨rfl, hle⟩] at ht
    have hgood' : ¬(c.value ≠ c.value ∨ c.expiresAt < now) := by simpa using hle
    simp only [if_neg hgood'] at hs
    exact .of_ok hs ht { h with
      challenges := h.challenges.erase Function.injective_id id
      keyed := ⟨h.keyed.installation, h.keyed.delegation⟩ }

theorem createInstallation (h : Agree spelling sha256 s t) {n : NewInstallation}
    (hwf : Call.WellFormed s (.createInstallation n)) (hcheck : n.installation.row.check = true) :
    Alike spelling sha256 subtract s t ⟨.createInstallation n, rfl⟩ := by
  obtain ⟨-, hexpiry, hkeys⟩ := hwf
  have hs : s.apply (.createInstallation n) =
      MemoryState.apply.done (s.createInstallation n) := rfl
  have ht : t.transact sha256 subtract ⟨.createInstallation n, rfl⟩ =
      Tables.transact.done (t.createInstallation n) := rfl
  have hconflict : ((t.installations.lookup n.id).isSome || existsWhere (fun _ i =>
      i.appAttestKeyId = n.installation.row.appAttestKeyId ||
        i.sharesToken n.installation.row) t.installations) = true ↔
      (s.installations.lookup n.id).isSome = true ∨
        (s.tokenOwners.lookup (n.profile, n.tokenFingerprint)).isSome = true := by
    rw [Bool.or_eq_true, h.installations.isSome_eq, existsWhere_iff]
    constructor
    · rintro (hid | ⟨id, row, hrow, hsame⟩)
      · exact .inl hid
      obtain ⟨i, hi, rfl⟩ := h.installations.exists_lookup hrow
      rcases (Bool.or_eq_true _ _).mp hsame with hkey | htoken
      · obtain rfl := hkeys id i hi (of_decide_eq_true hkey)
        exact .inl (hi ▸ rfl)
      · refine .inr (Option.isSome_iff_exists.mpr ⟨id, ?_⟩)
        exact (h.owners _ id).mpr ⟨i, hi, sharesToken_iff.mp htoken⟩
    · rintro (hid | howner)
      · exact .inl hid
      · obtain ⟨id, hid⟩ := Option.isSome_iff_exists.mp howner
        obtain ⟨i, hi, htoken⟩ := (h.owners _ id).mp hid
        refine .inr ⟨id, i.row, h.installations.lookup_eq_some hi, ?_⟩
        exact (Bool.or_eq_true _ _).mpr (.inr (sharesToken_iff.mpr htoken))
  rw [MemoryState.createInstallation] at hs
  rw [Tables.createInstallation, hexpiry.atTime_eq, ok_bind] at ht
  change _ = Tables.transact.done (if !n.installation.row.check then _ else _) at ht
  rw [hcheck] at ht
  by_cases hknown : (s.installations.lookup n.id).isSome = true ∨
      (s.tokenOwners.lookup (n.profile, n.tokenFingerprint)).isSome = true
  · rw [if_pos hknown] at hs
    exact .of_error hs (ht.trans (congrArg _ (if_pos (hconflict.mpr hknown)))) h
  rw [if_neg hknown] at hs
  obtain ⟨hid, howner⟩ := not_or.mp hknown
  have hid' : s.installations.lookup n.id = none := Option.not_isSome_iff_eq_none.mp hid
  have howner' : s.tokenOwners.lookup n.installation.token = none :=
    Option.not_isSome_iff_eq_none.mp howner
  exact .of_ok hs (ht.trans (congrArg _ (if_neg fun hc => hknown (hconflict.mp hc)))) { h with
    installations := h.installations.insert Function.injective_id n.id n.installation
    keyed := h.keyed.insert_installation rfl rfl rfl
    owners := h.owners.insert hid' howner'
    installationCheck := HashMap.forall_lookup_insert h.installationCheck hcheck }

theorem installation (h : Agree spelling sha256 s t) {id : Uuid} {now : ℤ}
    (hnow : Representable now) :
    Alike spelling sha256 subtract s t ⟨.installation id now, rfl⟩ := by
  have hs : s.apply (.installation id now) = ((s.installation id now).map .installation, s) := rfl
  have ht : t.transact sha256 subtract ⟨.installation id now, rfl⟩ =
      (t.installation id now).map fun i => (.installation i, t) := rfl
  have hrow : t.installations.lookup id = (s.installations.lookup id).map Installation.row :=
    h.installations id
  rw [MemoryState.installation] at hs
  rw [Tables.installation, hnow.atTime_eq, ok_bind, hrow] at ht
  cases hi : s.installations.lookup id with
  | none =>
    rw [hi] at hs ht
    exact .of_error hs ht h
  | some i =>
    rw [hi] at hs ht
    rw [Option.map_some] at ht
    rw [Option.filter_some] at hs ht
    by_cases hlive : (!i.revoked && decide (now ≤ i.expiresAt)) = true
    · have hlive' : (!i.row.revoked && decide (now ≤ i.row.expiresAt)) = true := hlive
      have hcheck := h.installationCheck id i hi
      have hcounter : (decide (i.row.assertionCounter < 0) ||
          decide (2 ^ 32 ≤ i.row.assertionCounter)) = false := by
        simp only [InstallationRow.check, Bool.and_eq_true, decide_eq_true_eq] at hcheck
        simp only [Bool.or_eq_false_iff, decide_eq_false_iff_not]
        omega
      have hread : i.row.installation id = i := by
        obtain ⟨hrevoked, -⟩ := (Bool.and_eq_true _ _).mp hlive
        obtain rfl := h.keyed.installation id i hi
        rw [Bool.not_eq_true'] at hrevoked
        cases i
        cases hrevoked
        rfl
      rw [if_pos hlive] at hs
      rw [if_pos hlive'] at ht
      simp only [hcounter, hread] at ht
      exact .of_ok hs ht h
    · have hlive' : ¬(!i.row.revoked && decide (now ≤ i.row.expiresAt)) = true := hlive
      rw [if_neg hlive] at hs
      rw [if_neg hlive'] at ht
      exact .of_error hs ht h

/-! ### Updates of an installation -/

/-- No installation satisfies the condition of an update. -/
theorem updateInstallation_eq_error (h : Agree spelling sha256 s t) {id : Uuid}
    {p : InstallationRow → Bool} {f : InstallationRow → InstallationRow}
    (hp : ∀ i, s.installations.lookup id = some i → p i.row = false) :
    t.updateInstallation id p f = .error .rejected := by
  have hnone : (t.installations.lookup id).filter p = none := by
    refine Option.filter_eq_none_iff.mpr fun row hrow => ?_
    obtain ⟨i, hi, rfl⟩ := h.installations.exists_lookup hrow
    rw [hp i hi]
    nofun
  rw [Tables.updateInstallation, hnone]

/-- An installation satisfies the condition of an update that the constraints allow. -/
theorem updateInstallation_eq_ok (h : Agree spelling sha256 s t) {id : Uuid}
    {p : InstallationRow → Bool} {f : InstallationRow → InstallationRow} {i i' : Installation}
    (hi : s.installations.lookup id = some i) (hp : p i.row = true) (hf : f i.row = i'.row)
    (hcheck : i'.row.check = true)
    (htoken : ∀ owner, s.tokenOwners.lookup i'.token = some owner → owner = id) :
    t.updateInstallation id p f =
      .ok { t with installations := t.installations.insert id i'.row } := by
  have hsome : (t.installations.lookup id).filter p = some i.row := by
    rw [h.installations.lookup_eq_some (k := id) hi, Option.filter_some, if_pos hp]
  have hfree : existsWhere (fun id' j => decide (id' ≠ id) && j.sharesToken i'.row)
      t.installations = false := by
    rw [Bool.eq_false_iff, Ne, existsWhere_iff]
    rintro ⟨id', row, hrow, hshares⟩
    obtain ⟨j, hj, rfl⟩ := h.installations.exists_lookup hrow
    obtain ⟨hne, hshares⟩ := (Bool.and_eq_true _ _).mp hshares
    refine of_decide_eq_true hne (htoken id' ?_)
    exact (h.owners _ id').mpr ⟨j, hj, sharesToken_iff.mp hshares⟩
  rw [Tables.updateInstallation, hsome]
  simp only [hf, hcheck, hfree, Bool.not_true, Bool.or_self, Bool.false_eq_true, if_false]

/-- Both stores write an installation. -/
theorem write (h : Agree spelling sha256 s t) {id : Uuid} {i' : Installation} (hid : i'.id = id)
    (hcheck : i'.row.check = true) {owners : HashMap (AppProfile × Bytes32) Uuid}
    (howners : Owns owners (s.installations.insert id i')) :
    Agree spelling sha256
      { s with tokenOwners := owners, installations := s.installations.insert id i' }
      { t with installations := t.installations.insert id i'.row } :=
  { h with
    installations := h.installations.insert Function.injective_id id i'
    keyed := h.keyed.insert_installation rfl hid rfl
    owners := howners
    installationCheck := HashMap.forall_lookup_insert h.installationCheck hcheck }

/-- A call that updates one installation, or none. -/
theorem updated (h : Agree spelling sha256 s t) {c : KeptCall} {id : Uuid}
    {p : InstallationRow → Bool} {f : InstallationRow → InstallationRow}
    (ht : t.transact sha256 subtract c = Tables.transact.done (t.updateInstallation id p f))
    (hrefused : (∀ i, s.installations.lookup id = some i → p i.row = false) →
      s.apply c.1 = (.error .rejected, s))
    (hdone : ∀ i, s.installations.lookup id = some i → p i.row = true →
      ∃ i' owners, s.apply c.1 = (.ok .done,
          { s with tokenOwners := owners, installations := s.installations.insert id i' }) ∧
        i'.id = i.id ∧ f i.row = i'.row ∧ i'.row.check = true ∧
        (∀ owner, s.tokenOwners.lookup i'.token = some owner → owner = id) ∧
        Owns owners (s.installations.insert id i')) :
    Alike spelling sha256 subtract s t c := by
  by_cases hfound : ∀ i, s.installations.lookup id = some i → p i.row = false
  · rw [h.updateInstallation_eq_error hfound] at ht
    exact .of_error (hrefused hfound) ht h
  · push Not at hfound
    obtain ⟨i, hi, hp⟩ := hfound
    rw [Bool.ne_false_iff] at hp
    obtain ⟨i', owners, hs, hid, hf, hcheck, htoken, howners⟩ := hdone i hi hp
    rw [h.updateInstallation_eq_ok hi hp hf hcheck htoken] at ht
    exact .of_ok hs ht (h.write (hid.trans (h.keyed.installation id i hi)) hcheck howners)

/-- An installation keeps its token. -/
theorem owner_eq (h : Agree spelling sha256 s t) {id : Uuid} {i i' : Installation}
    (hi : s.installations.lookup id = some i) (htoken : i'.token = i.token) (owner : Uuid)
    (howner : s.tokenOwners.lookup i'.token = some owner) : owner = id := by
  obtain ⟨j, hj, hsame⟩ := (h.owners _ owner).mp howner
  exact h.owners.unique hj hi (hsame.trans htoken)

theorem advanceAssertionCounter (h : Agree spelling sha256 s t) {id : Uuid} {previous next : ℕ}
    (hwidth : next < 2 ^ 32) :
    Alike spelling sha256 subtract s t ⟨.advanceAssertionCounter id previous next, rfl⟩ := by
  have hs : s.apply (.advanceAssertionCounter id previous next) =
      MemoryState.apply.done (s.advanceAssertionCounter id previous next) := rfl
  have ht : t.transact sha256 subtract ⟨.advanceAssertionCounter id previous next, rfl⟩ =
      Tables.transact.done (t.advanceAssertionCounter id previous next) := rfl
  rw [MemoryState.advanceAssertionCounter] at hs
  rw [Tables.advanceAssertionCounter] at ht
  by_cases hle : next ≤ previous
  · rw [if_pos hle] at hs ht
    exact .of_error hs ht h
  rw [if_neg hle] at hs ht
  have hcond : ∀ i : Installation, (decide (i.row.assertionCounter = previous) &&
      !i.row.revoked) = true ↔ ¬(i.revoked = true ∨ i.assertionCounter ≠ previous) := by
    intro i
    rw [Bool.and_eq_true, decide_eq_true_iff, not_or, not_ne_iff, and_comm, Bool.not_eq_true',
      Bool.not_eq_true]
    exact and_congr_right' Nat.cast_inj
  refine h.updated ht (fun hnone => hs.trans ?_) fun i hi hp => ?_
  · cases hi : s.installations.lookup id with
    | none => rfl
    | some i =>
      have hstop := not_not.mp (mt (hcond i).mpr (Bool.eq_false_iff.mp (hnone i hi)))
      exact congrArg MemoryState.apply.done (if_pos hstop)
  · refine ⟨{ i with assertionCounter := next }, s.tokenOwners, hs.trans ?_, rfl, rfl, ?_,
      h.owner_eq hi rfl, h.owners.update hi rfl⟩
    · rw [hi]
      exact congrArg MemoryState.apply.done (if_neg ((hcond i).mp hp))
    · obtain ⟨hkey, hkey', hpublic, hpublic', -, -, hrest⟩ :=
        InstallationRow.check_iff.mp (h.installationCheck id i hi)
      have hmax : (next : ℤ) ≤ 4294967295 := by omega
      exact InstallationRow.check_iff.mpr
        ⟨hkey, hkey', hpublic, hpublic', Int.natCast_nonneg next, hmax, hrest⟩

theorem rotateEndpoint (h : Agree spelling sha256 s t) {id : Uuid} {expected new : ℤ}
    {ciphertext : Bytes} {fingerprint : Bytes32}
    (hcareful : Call.Careful spelling subtract s
      (.rotateEndpoint id expected new ciphertext fingerprint)) :
    Alike spelling sha256 subtract s t
      ⟨.rotateEndpoint id expected new ciphertext fingerprint, rfl⟩ := by
  have hs : s.apply (.rotateEndpoint id expected new ciphertext fingerprint) =
      MemoryState.apply.done (s.rotateEndpoint id expected new ciphertext fingerprint) := rfl
  have ht : t.transact sha256 subtract
      ⟨.rotateEndpoint id expected new ciphertext fingerprint, rfl⟩ =
        Tables.transact.done (t.rotateEndpoint id expected new ciphertext fingerprint) := rfl
  rw [MemoryState.rotateEndpoint] at hs
  rw [Tables.rotateEndpoint] at ht
  by_cases hsucc : checkedSucc expected ≠ some new
  · rw [if_pos hsucc] at hs ht
    exact .of_error hs ht h
  rw [if_neg hsucc] at hs ht
  have hnew := eq_of_checkedSucc (not_not.mp hsucc)
  refine h.updated ht (fun hnone => hs.trans ?_) fun i hi hp => ?_
  · cases hi : s.installations.lookup id with
    | none => rfl
    | some i =>
      have hstop := not_not.mp (mt (current_iff i expected).mpr (Bool.eq_false_iff.mp (hnone i hi)))
      exact congrArg MemoryState.apply.done (if_pos hstop)
  · have hgo := (current_iff i expected).mp hp
    obtain ⟨hrevoked, hepoch⟩ := not_or.mp hgo
    obtain ⟨hmin, hmax, howner⟩ := hcareful i (not_not.mp hsucc) hi
      (Bool.eq_false_iff.mpr hrevoked) (not_not.mp hepoch)
    have hfree : (s.tokenOwners.lookup (i.profile, fingerprint)).any (fun owner => owner ≠ id) =
        false := by
      rw [Option.any_eq_false]
      intro owner hlookup
      simpa using howner owner hlookup
    refine ⟨{ i with
        endpointEpoch := new
        tokenCiphertext := ciphertext
        tokenFingerprint := fingerprint }, _, hs.trans ?_, rfl, rfl, ?_, howner,
      h.owners.rotate hi howner⟩
    · rw [hi]
      simp only [if_neg hgo, hfree, Bool.false_eq_true, if_false]
      rfl
    · obtain ⟨hkey, hkey', hpublic, hpublic', hcounter, hcounter', -, -, hpositive⟩ :=
        InstallationRow.check_iff.mp (h.installationCheck id i hi)
      have hpositive' : 0 < new := by
        have hle : 0 < i.endpointEpoch := hpositive
        have heq := not_not.mp hepoch
        omega
      exact InstallationRow.check_iff.mpr
        ⟨hkey, hkey', hpublic, hpublic', hcounter, hcounter', hmin, hmax, hpositive'⟩

theorem revokeInstallation (h : Agree spelling sha256 s t) {id : Uuid} {expected new : ℤ} :
    Alike spelling sha256 subtract s t ⟨.revokeInstallation id expected new, rfl⟩ := by
  have hs : s.apply (.revokeInstallation id expected new) =
      MemoryState.apply.done (s.revokeInstallation id expected new) := rfl
  have ht : t.transact sha256 subtract ⟨.revokeInstallation id expected new, rfl⟩ =
      Tables.transact.done (t.revokeInstallation id expected new) := rfl
  rw [MemoryState.revokeInstallation] at hs
  rw [Tables.revokeInstallation] at ht
  by_cases hsucc : checkedSucc expected ≠ some new
  · rw [if_pos hsucc] at hs ht
    exact .of_error hs ht h
  rw [if_neg hsucc] at hs ht
  have hnew := eq_of_checkedSucc (not_not.mp hsucc)
  refine h.updated ht (fun hnone => hs.trans ?_) fun i hi hp => ?_
  · cases hi : s.installations.lookup id with
    | none => rfl
    | some i =>
      have hstop := not_not.mp (mt (current_iff i expected).mpr (Bool.eq_false_iff.mp (hnone i hi)))
      exact congrArg MemoryState.apply.done (if_pos hstop)
  · have hgo := (current_iff i expected).mp hp
    refine ⟨{ i with endpointEpoch := new, revoked := true }, s.tokenOwners, hs.trans ?_, rfl, rfl,
      ?_, h.owner_eq hi rfl, h.owners.update hi rfl⟩
    · rw [hi]
      exact congrArg MemoryState.apply.done (if_neg hgo)
    · obtain ⟨hkey, hkey', hpublic, hpublic', hcounter, hcounter', hmin, hmax, hpositive⟩ :=
        InstallationRow.check_iff.mp (h.installationCheck id i hi)
      have hpositive' : 0 < new := by
        have hle : 0 < i.endpointEpoch := hpositive
        have heq := not_not.mp (not_or.mp hgo).2
        omega
      exact InstallationRow.check_iff.mpr
        ⟨hkey, hkey', hpublic, hpublic', hcounter, hcounter', hmin, hmax, hpositive'⟩

/-! ### Delegations -/

/-- Both stores write a delegation. -/
theorem writeDelegation (h : Agree spelling sha256 s t) {relay : Bytes} {d : Delegation}
    (hrelay : spelling.text relay = d.relayPubkey) (hcheck : d.row.check = true)
    {delegationIds : HashMap Uuid (Uuid × List Char)}
    (hid : delegationIds.lookup d.id = some (d.installationId, d.relayPubkey))
    (hids : ∀ key d', s.delegations.lookup key = some d' →
      key ≠ (d.installationId, d.relayPubkey) → delegationIds.lookup d'.id = some key) :
    Agree spelling sha256
      { s with
        delegationIds := delegationIds
        delegations := s.delegations.insert (d.installationId, d.relayPubkey) d }
      { t with delegations := t.delegations.insert (d.installationId, relay) d.row } :=
  { h with
    delegations := by
      have hinsert := h.delegations.insert spelling_injective (d.installationId, relay) d
      rw [Prod.map_apply, hrelay] at hinsert
      exact hinsert
    keyed := h.keyed.insert_delegation rfl rfl rfl
    ids := by
      intro key d' hd'
      rw [HashMap.lookup_insert_eq] at hd'
      split_ifs at hd' with hkey
      · obtain rfl := Option.some.inj hd'
        exact hkey ▸ hid
      · exact hids key d' hd' hkey
    spelled := HashMap.forall_lookup_insert h.spelled ⟨relay, hrelay⟩
    delegationCheck := HashMap.forall_lookup_insert h.delegationCheck hcheck }

/-- The row of a delegation is under the bytes of its relay. -/
theorem lookup_delegation (h : Agree spelling sha256 s t) {id : Uuid} {relay : Bytes}
    {text : List Char} (hrelay : spelling.text relay = text) :
    t.delegations.lookup (id, relay) = (s.delegations.lookup (id, text)).map Delegation.row :=
  hrelay ▸ h.delegations (id, relay)

/-- No delegation has a new identifier. -/
theorem existsWhere_id_eq_false (h : Agree spelling sha256 s t) {id : Uuid}
    (hnew : s.delegationIds.lookup id = none) (key : Uuid × Bytes) :
    existsWhere (fun key' d => decide (key' ≠ key) && decide (d.id = id)) t.delegations =
      false := by
  rw [Bool.eq_false_iff, Ne, existsWhere_iff]
  rintro ⟨key', row, hrow, hid⟩
  obtain ⟨d, hd, rfl⟩ := h.delegations.exists_lookup hrow
  obtain rfl : d.id = id := of_decide_eq_true ((Bool.and_eq_true _ _).mp hid).2
  exact absurd (hnew.symm.trans (h.ids _ d hd)) nofun

/-- An upsert of no later generation writes nothing. -/
theorem upsertRow_eq_error (h : Agree spelling sha256 s t) {id : Uuid} {relay : Bytes}
    {text : List Char} (hrelay : spelling.text relay = text) (hlength : relay.length = 32)
    {row : DelegationRow} (hcheck : row.check = true) {old : Delegation}
    (hold : s.delegations.lookup (id, text) = some old)
    (hle : row.generation ≤ old.generation) :
    t.upsertRow (id, relay) row = .error .rejected := by
  have hany : (t.delegations.lookup (id, relay)).any
      (fun old => decide (row.generation ≤ old.generation)) = true := by
    rw [h.lookup_delegation hrelay, hold]
    exact decide_eq_true hle
  rw [Tables.upsertRow, hcheck, hany]
  exact if_neg (by simp [hlength])

/-- An upsert of a later generation, under a new identifier. -/
theorem upsertRow_eq_ok (h : Agree spelling sha256 s t) {id : Uuid} {relay : Bytes}
    {text : List Char} (hrelay : spelling.text relay = text) (hlength : relay.length = 32)
    {row : DelegationRow} (hcheck : row.check = true)
    (hold : ∀ old, s.delegations.lookup (id, text) = some old → ¬row.generation ≤ old.generation)
    (hnew : s.delegationIds.lookup row.id = none) :
    t.upsertRow (id, relay) row =
      .ok { t with delegations := t.delegations.insert (id, relay) row } := by
  have hany : (t.delegations.lookup (id, relay)).any
      (fun old => decide (row.generation ≤ old.generation)) = false := by
    rw [h.lookup_delegation hrelay, Option.any_map, Option.any_eq_false]
    intro old hlookup
    exact decide_eq_false (hold old hlookup)
  rw [Tables.upsertRow, hcheck, hany, h.existsWhere_id_eq_false hnew]
  exact if_neg (by simp [hlength])

theorem upsertDelegation (h : Agree spelling sha256 s t) {d : Delegation}
    (hwf : Call.WellFormed s (.upsertDelegation d))
    (hcareful : Call.Careful spelling subtract s (.upsertDelegation d)) :
    Alike spelling sha256 subtract s t ⟨.upsertDelegation d, rfl⟩ := by
  obtain ⟨hhex, hbefore, hexpiry⟩ := hwf
  obtain ⟨hspelled, hfresh⟩ := hcareful
  obtain ⟨relay, hrelay, hdecode, hlength⟩ := hhex.exists_bytes hspelled
  have hs : s.apply (.upsertDelegation d) = MemoryState.apply.done (s.upsertDelegation d) := rfl
  have ht : t.transact sha256 subtract ⟨.upsertDelegation d, rfl⟩ =
      Tables.transact.done (t.upsertDelegation d) := rfl
  have hrow : t.installations.lookup d.installationId =
      (s.installations.lookup d.installationId).map Installation.row :=
    h.installations d.installationId
  rw [MemoryState.upsertDelegation] at hs
  rw [Tables.upsertDelegation, hrow] at ht
  cases hi : s.installations.lookup d.installationId with
  | none =>
    rw [hi] at hs ht
    exact .of_error hs ht h
  | some i =>
    rw [hi] at hs ht
    simp only [Option.map_some, hexpiry.atTime_eq, hbefore.atTime_eq, decoded_eq hdecode, ok_bind]
      at hs ht
    by_cases hgrant : i.revoked = false ∧ i.endpointEpoch = d.endpointEpoch ∧
        d.expiresAt ≤ i.expiresAt
    swap
    · have hgrants : i.grants d = false :=
        Bool.eq_false_iff.mpr fun hgrants => hgrant (grants_iff.mp hgrants).1
      simp only [hgrants, Bool.not_false, if_true] at hs
      rw [if_pos (refuses_iff.mpr hgrant)] at ht
      exact .of_error hs ht h
    rw [if_neg (mt refuses_iff.mp (not_not.mpr hgrant))] at ht
    obtain ⟨hgeneration, hvalid, hknown⟩ := hfresh i hi hgrant.1 hgrant.2.1 hgrant.2.2
    have hgrants : i.grants d = true := grants_iff.mpr ⟨hgrant, hgeneration, hvalid⟩
    have hpositive : 0 < d.endpointEpoch := by
      obtain ⟨-, -, -, -, -, -, -, -, hpositive⟩ :=
        InstallationRow.check_iff.mp (h.installationCheck _ i hi)
      exact hgrant.2.1 ▸ hpositive
    have hcheck : (⟨d.id, d.endpointEpoch, d.generation, d.notBefore, d.expiresAt, false⟩ :
        DelegationRow).check = true :=
      DelegationRow.check_iff.mpr ⟨hpositive, hgeneration, hvalid⟩
    simp only [hgrants, Bool.not_true, Bool.false_eq_true, if_false] at hs
    by_cases hold : ∃ old, s.delegations.lookup (d.installationId, d.relayPubkey) = some old ∧
        d.generation ≤ old.generation
    · obtain ⟨old, hlookup, hle⟩ := hold
      rw [h.upsertRow_eq_error hrelay hlength hcheck hlookup hle] at ht
      refine .of_error (hs.trans (congrArg MemoryState.apply.done (if_pos (.inl ?_)))) ht h
      rw [hlookup]
      exact decide_eq_true hle
    obtain ⟨hnew, hrevoked⟩ := hknown.resolve_left hold
    push Not at hold
    rw [h.upsertRow_eq_ok hrelay hlength hcheck
      (fun old hlookup => not_le.mpr (hold old hlookup)) hnew] at ht
    have hrow' : d.row =
        ⟨d.id, d.endpointEpoch, d.generation, d.notBefore, d.expiresAt, false⟩ :=
      congrArg _ hrevoked
    rw [← hrow'] at hcheck ht
    refine .of_ok (hs.trans (congrArg MemoryState.apply.done (if_neg ?_))) ht
      (h.writeDelegation hrelay hcheck ?_ fun key d' hd' _ => ?_)
    · rintro (hany | hsome)
      · obtain ⟨old, hlookup, hle⟩ := (Option.any_eq_true _ _).mp hany
        exact (hold old hlookup).not_ge (of_decide_eq_true hle)
      · rw [hnew] at hsome
        cases hsome
    · exact (HashMap.lookup_insert_eq ..).trans (if_pos rfl)
    · rw [HashMap.lookup_insert_eq, if_neg fun heq => ?_]
      · exact h.ids key d' hd'
      · rw [← heq, h.ids key d' hd'] at hnew
        cases hnew

theorem revokeDelegation (h : Agree spelling sha256 s t) {id : Uuid} {text : List Char}
    {generation : ℤ} (hhex : Hex64 text) (hspelled : text ∈ Set.range spelling.text) :
    Alike spelling sha256 subtract s t ⟨.revokeDelegation id text generation, rfl⟩ := by
  obtain ⟨relay, hrelay, hdecode, -⟩ := hhex.exists_bytes hspelled
  have hs : s.apply (.revokeDelegation id text generation) =
      MemoryState.apply.done (s.revokeDelegation id text generation) := rfl
  have ht : t.transact sha256 subtract ⟨.revokeDelegation id text generation, rfl⟩ =
      Tables.transact.done (t.revokeDelegation id text generation) := rfl
  rw [MemoryState.revokeDelegation] at hs
  rw [Tables.revokeDelegation, decoded_eq hdecode, ok_bind, h.lookup_delegation hrelay] at ht
  cases hd : s.delegations.lookup (id, text) with
  | none =>
    rw [hd] at hs ht
    exact .of_error hs ht h
  | some d =>
    rw [hd] at hs ht
    rw [Option.map_some, Option.filter_some] at ht
    by_cases hle : generation ≤ d.generation
    · have hstale : ¬decide (d.row.generation < generation) = true :=
        fun hlt => (of_decide_eq_true hlt).not_ge hle
      rw [if_neg hstale] at ht
      exact .of_error (hs.trans (congrArg MemoryState.apply.done (if_pos hle))) ht h
    have hlt : decide (d.row.generation < generation) = true := decide_eq_true (not_le.mp hle)
    let d' : Delegation := { d with generation := generation, revoked := true }
    have hcheck : d'.row.check = true := by
      obtain ⟨hepoch, hgeneration, hvalid⟩ := DelegationRow.check_iff.mp (h.delegationCheck _ d hd)
      exact DelegationRow.check_iff.mpr ⟨hepoch, hgeneration.trans (not_le.mp hle), hvalid⟩
    have hkey : (id, text) = (d.installationId, d.relayPubkey) := h.keyed.delegation _ d hd
    obtain ⟨rfl, rfl⟩ := Prod.mk.inj hkey
    rw [if_pos hlt] at ht
    refine .of_ok (hs.trans (congrArg MemoryState.apply.done (if_neg hle)))
      (ht.trans (congrArg Tables.transact.done (if_neg ?_)))
      (h.writeDelegation (d := d') hrelay hcheck (h.ids _ d hd) fun key d' hd' _ =>
        h.ids key d' hd')
    rw [Bool.not_eq_true', Bool.not_eq_false]
    exact hcheck

theorem finishDelivery (h : Agree spelling sha256 s t) {permit : DeliveryPermit}
    {disposition : DeliveryDisposition}
    (hspelled : disposition = .retryable → permit.relayPubkey ∈ Set.range spelling.text) :
    Alike spelling sha256 subtract s t ⟨.finishDelivery permit disposition, rfl⟩ := by
  have ht : t.transact sha256 subtract ⟨.finishDelivery permit disposition, rfl⟩ =
      Tables.transact.done (t.finishDelivery permit disposition) := rfl
  cases disposition with
  | terminal => exact .of_ok rfl ht h
  | retryable =>
    obtain ⟨relay, hrelay⟩ := hspelled rfl
    have hdecode : hexBytes permit.relayPubkey = some relay :=
      hrelay ▸ spelling.hexBytes_text relay
    rw [Tables.finishDelivery, hdecode] at ht
    have hinjective : Function.Injective (Prod.map spelling.text id : Bytes × Uuid → _) :=
      spelling.text_injective.prodMap Function.injective_id
    have herase := h.requestReplays.erase hinjective (relay, permit.requestId)
    rw [Prod.map_apply, hrelay] at herase
    exact .of_ok rfl ht { h with
      requestReplays := herase
      keyed := ⟨h.keyed.installation, h.keyed.delegation⟩ }

/-! ### Deliveries -/

/-- A delegation has its own identifier. -/
theorem delegation_unique (h : Agree spelling sha256 s t) {key key' : Uuid × Bytes}
    {d d' : Delegation} (hd : s.delegations.lookup (Prod.map id spelling.text key) = some d)
    (hd' : s.delegations.lookup (Prod.map id spelling.text key') = some d') (hid : d'.id = d.id) :
    key' = key := by
  have hkey := h.ids _ d' hd'
  rw [hid, h.ids _ d hd] at hkey
  exact spelling_injective (Option.some.inj hkey.symm)

/-- Which deliveries PostgreSQL goes on with, once it has read the delegation and its
installation. -/
theorem authorizeDelivery_eq (h : Agree spelling sha256 s t) {r : DeliveryRequest}
    {relay event : Bytes} (hrelay : spelling.text relay = r.relay)
    (hevent : hexBytes r.eventId = some event) (hlength : event.length = 32)
    (hnow : Representable r.now) (hwindow : 1 ≤ r.quotaWindowSeconds)
    (hmax : 1 ≤ r.quotaMaxDeliveries) :
    t.authorizeDelivery subtract r =
      match s.grantOf r.delegationId with
      | none => .error .rejected
      | some (d, i) =>
        if d.authorizes i r then
          t.reserve subtract r relay event i.tokenFingerprint (r.permit d i)
        else .error .rejected := by
  have hdecode : hexBytes r.relay = some relay := hrelay ▸ spelling.hexBytes_text relay
  have hpositive : (decide (r.quotaWindowSeconds < 1) || decide (r.quotaMaxDeliveries < 1)) =
      false := by
    rw [Bool.or_eq_false_iff, decide_eq_false_iff_not, decide_eq_false_iff_not, not_lt, not_lt]
    exact ⟨hwindow, hmax⟩
  simp only [Tables.authorizeDelivery, decoded_eq hdecode, decoded_eq hevent, ok_bind, hlength,
    ne_eq, not_true_eq_false, if_false]
  cases hselect : selectWhere (fun _ d => decide (d.id = r.delegationId)) t.delegations with
  | none =>
    simp only [Option.bind_none]
    cases hgrant : s.grantOf r.delegationId with
    | none => rfl
    | some grant =>
      obtain ⟨d, i⟩ := grant
      refine (if_neg fun hauthorizes => ?_).symm
      obtain ⟨-, ⟨hid, -⟩, -⟩ := authorizes_iff.mp hauthorizes
      obtain ⟨key, -, hd, -⟩ := grantOf_eq_some hgrant
      obtain ⟨relay', hrelay'⟩ := h.spelled key d hd
      have hrow := h.delegations.lookup_eq_some (k := (key.1, relay')) (v := d) (by
        rw [Prod.map_apply, hrelay']
        exact hd)
      exact selectWhere_eq_none_iff.mp hselect _ _ hrow (decide_eq_true hid)
  | some found =>
    obtain ⟨⟨iid, relay'⟩, row⟩ := found
    obtain ⟨hrow, hid⟩ := selectWhere_eq_some hselect
    obtain ⟨d, hd, rfl⟩ := h.delegations.exists_lookup hrow
    rw [decide_eq_true_iff] at hid
    have hid' : d.id = r.delegationId := hid
    obtain ⟨hinstallation, hrelay'⟩ := Prod.mk.inj (h.keyed.delegation _ d hd)
    obtain rfl : iid = d.installationId := hinstallation
    have hrow' : t.installations.lookup d.installationId =
        (s.installations.lookup d.installationId).map Installation.row :=
      h.installations d.installationId
    rw [MemoryState.grantOf_eq_map (hid' ▸ h.ids _ d hd) hd]
    simp only [Option.bind_some, hrow']
    cases hi : s.installations.lookup d.installationId with
    | none => rfl
    | some i =>
      simp only [Option.map_some, hnow.atTime_eq, ok_bind]
      by_cases hinstallation : i.Allows r
      swap
      · exact (if_pos (refusesInstallation_iff.mpr hinstallation)).trans
          (if_neg fun hauthorizes => hinstallation (authorizes_iff.mp hauthorizes).1).symm
      refine (if_neg (mt refusesInstallation_iff.mp (not_not.mpr hinstallation))).trans ?_
      have hunique : ∀ key row, t.delegations.lookup key = some row →
          row.id = r.delegationId → key = (d.installationId, relay') ∧ row = d.row := by
        intro key row hkey hsame
        obtain ⟨d', hd', rfl⟩ := h.delegations.exists_lookup hkey
        obtain rfl := h.delegation_unique hd hd' (hsame.trans hid'.symm)
        exact ⟨rfl, congrArg _ (Option.some.inj (hd'.symm.trans hd))⟩
      by_cases hdelegation : d.Allows r
      swap
      · rw [selectWhere_eq_none_iff.mpr fun key row hkey hselected => ?_]
        · exact (if_neg fun hauthorizes => hdelegation (authorizes_iff.mp hauthorizes).2.1).symm
        · obtain ⟨rfl, rfl⟩ := hunique key row hkey (DeliveryRequest.id_of_selects hselected)
          exact hdelegation ((DeliveryRequest.selects_iff hrelay hrelay').mp hselected)
      have hselected : selectWhere (r.selects relay r.now) t.delegations =
          some ((d.installationId, relay'), d.row) :=
        (selectWhere_eq_some_iff fun key row hkey hp =>
          (hunique key row hkey (DeliveryRequest.id_of_selects hp)).1).mpr
            ⟨hrow, (DeliveryRequest.selects_iff hrelay hrelay').mpr hdelegation⟩
      rw [hselected]
      by_cases hexpiry : r.now ≤ r.requestExpiresAt ∧ r.requestExpiresAt ≤ d.expiresAt
      swap
      · exact (if_pos (refusesExpiry_iff.mpr hexpiry)).trans
          (if_neg fun hauthorizes => hexpiry (authorizes_iff.mp hauthorizes).2.2).symm
      have hauthorizes := authorizes_iff.mpr ⟨hinstallation, hdelegation, hexpiry⟩
      have hpermit : r.permitRow d.installationId i.row d.row = r.permit d i := by
        rw [← h.keyed.installation _ i hi]
        rfl
      refine (if_neg (mt refusesExpiry_iff.mp (not_not.mpr hexpiry))).trans ?_
      rw [hpositive, hpermit]
      exact (if_pos hauthorizes).symm

theorem authorizeDelivery (h : Agree spelling sha256 s t) {r : DeliveryRequest}
    (hwf : Call.WellFormed s (.authorizeDelivery r))
    (hcareful : Call.Careful spelling subtract s (.authorizeDelivery r)) :
    Alike spelling sha256 subtract s t ⟨.authorizeDelivery r, rfl⟩ := by
  obtain ⟨hrelayHex, heventHex, hexpiry, hnow, hwindow, hwidth, hmax⟩ := hwf
  obtain ⟨hrelaySpelled, heventSpelled, hsubtract⟩ := hcareful
  obtain ⟨relay, hrelay, -, -⟩ := hrelayHex.exists_bytes hrelaySpelled
  obtain ⟨event, hevent, hdecode, hlength⟩ := heventHex.exists_bytes heventSpelled
  have hs : s.apply (.authorizeDelivery r) =
      (s.authorizeDelivery r).map (·.map .permit) id := rfl
  have ht : t.transact sha256 subtract ⟨.authorizeDelivery r, rfl⟩ =
      (t.authorizeDelivery subtract r).map fun p => (.permit p.1, p.2) := rfl
  rw [MemoryState.authorizeDelivery] at hs
  rw [h.authorizeDelivery_eq hrelay hdecode hlength hnow hwindow hmax] at ht
  cases hgrant : s.grantOf r.delegationId with
  | none =>
    rw [hgrant] at hs ht
    exact .of_error hs ht h
  | some grant =>
    obtain ⟨d, i⟩ := grant
    simp only [hgrant] at hs ht
    cases hauthorizes : d.authorizes i r with
    | false =>
      rw [hauthorizes] at hs ht
      exact .of_error hs ht h
    | true =>
      rw [hauthorizes] at hs ht
      simp only [Bool.not_true, Bool.false_eq_true, if_true, if_false] at hs ht
      have hauthKey : r.authKey = Prod.map spelling.text spelling.text (relay, event) := by
        rw [Prod.map_apply, hrelay, hevent]
        rfl
      have hrequestKey : r.requestKey = Prod.map spelling.text id (relay, r.requestId) := by
        rw [Prod.map_apply, hrelay]
        rfl
      have hquota : t.endpointQuotas.lookup i.tokenFingerprint =
          s.endpointQuotas.lookup i.tokenFingerprint :=
        (h.quotas i.tokenFingerprint).trans (congrFun Option.map_id _)
      have hburnedIff : ((t.deliveryAuthReplays.lookup (relay, event)).isSome ||
          (t.deliveryRequestReplays.lookup (relay, r.requestId)).isSome) = true ↔
          (s.deliveryAuthReplays.lookup r.authKey).isSome = true ∨
            (s.deliveryRequestReplays.lookup r.requestKey).isSome = true := by
        rw [Bool.or_eq_true, h.authReplays.isSome_eq, h.requestReplays.isSome_eq, hauthKey,
          hrequestKey]
      simp only [Tables.reserve, hnow.atTime_eq, hexpiry.atTime_eq, ok_bind, hquota,
        Tables.charged_eq hwindow hwidth hmax hsubtract, hburnedIff] at ht
      by_cases hburned : (s.deliveryAuthReplays.lookup r.authKey).isSome = true ∨
          (s.deliveryRequestReplays.lookup r.requestKey).isSome = true
      · rw [if_pos hburned] at hs
        refine .of_error hs (ht.trans ?_) h
        split_ifs
        · rfl
        · rfl
      rw [if_neg hburned, MemoryState.charge] at hs
      by_cases hfull : r.quotaMaxDeliveries ≤
          (s.quota i.tokenFingerprint r.quotaWindowSeconds r.now).2
      · rw [if_pos hfull] at hs ht
        exact .of_error hs ht { h with
          quotas := h.quotas.insert_left (MemoryState.lookup_of_full hmax hfull)
          keyed := ⟨h.keyed.installation, h.keyed.delegation⟩ }
      · rw [if_neg hfull] at hs ht
        simp only [if_neg hburned] at ht
        refine .of_ok hs ht { h with
          quotas := h.quotas.insert Function.injective_id i.tokenFingerprint _
          authReplays := ?_
          requestReplays := ?_
          keyed := ⟨h.keyed.installation, h.keyed.delegation⟩ }
        · change HashMap.Renders _ _ (s.deliveryAuthReplays.insert r.authKey _) _
          rw [hauthKey]
          exact h.authReplays.insert (spelling.text_injective.prodMap spelling.text_injective)
            (relay, event) r.requestExpiresAt
        · change HashMap.Renders _ _ (s.deliveryRequestReplays.insert r.requestKey _) _
          rw [hrequestKey]
          exact h.requestReplays.insert (spelling.text_injective.prodMap Function.injective_id)
            (relay, r.requestId) r.requestExpiresAt

/-- Both stores answer a careful call in the same way, and go on to agree. -/
theorem apply (h : Agree spelling sha256 s t) {c : KeptCall} (hwf : c.1.WellFormed s)
    (hcareful : c.1.Careful spelling subtract s) : Alike spelling sha256 subtract s t c := by
  obtain ⟨c, hkept⟩ := c
  cases c with
  | putChallenge c => exact h.putChallenge hwf hcareful
  | consumeChallenge id value now => exact h.consumeChallenge hwf hcareful
  | createInstallation n => exact h.createInstallation hwf hcareful
  | installation id now => exact h.installation hwf
  | advanceAssertionCounter id previous next => exact h.advanceAssertionCounter hwf
  | upsertDelegation d => exact h.upsertDelegation hwf hcareful
  | rotateEndpoint id expected new ciphertext fingerprint => exact h.rotateEndpoint hcareful
  | revokeDelegation id relay generation => exact h.revokeDelegation hwf hcareful
  | revokeInstallation id expected new => exact h.revokeInstallation
  | authorizeDelivery r => exact h.authorizeDelivery hwf hcareful
  | finishDelivery permit disposition => exact h.finishDelivery hcareful
  | reapExpired now => cases hkept

theorem new : Agree spelling sha256 .new .empty where
  challenges _ := rfl
  installations _ := rfl
  delegations _ := rfl
  authReplays _ := rfl
  requestReplays _ := rfl
  quotas _ := rfl
  keyed := ⟨fun _ _ h => (nomatch h), fun _ _ h => (nomatch h)⟩
  owners _ _ := ⟨fun h => (nomatch h), fun h => (nomatch h.choose_spec.1)⟩
  ids _ _ h := nomatch h
  spelled _ _ h := nomatch h
  installationCheck _ _ h := nomatch h
  delegationCheck _ _ h := nomatch h

end Agree

/-! ### Sequences of calls -/

/-- What a store returns for one call after another. -/
def outcomes {σ : Type} (apply : σ → KeptCall → Except AuthorityError Reply × σ) :
    σ → List KeptCall → List (Except AuthorityError Reply)
  | _, [] => []
  | s, c :: calls => (apply s c).1 :: outcomes apply (apply s c).2 calls

/-- What the reference store returns. -/
def memoryOutcomes (calls : List KeptCall) : List (Except AuthorityError Reply) :=
  outcomes (fun s c => MemoryState.apply s c.1) .new calls

/-- What PostgreSQL returns. -/
def postgresOutcomes (sha256 : Bytes32 → Bytes32) (subtract : ℤ → ℤ → Option ℤ)
    (calls : List KeptCall) : List (Except AuthorityError Reply) :=
  outcomes (Tables.apply sha256 subtract) .empty calls

/-- Every call meets a condition on the reference store that it finds. -/
def Throughout (p : MemoryState → Call → Prop) : MemoryState → List KeptCall → Prop
  | _, [] => True
  | s, c :: calls => p s c.1 ∧ Throughout p (s.apply c.1).2 calls

theorem Agree.outcomes_eq (h : Agree spelling sha256 s t) {calls : List KeptCall}
    (hwf : Throughout Call.WellFormed s calls)
    (hcareful : Throughout (Call.Careful spelling subtract) s calls) :
    outcomes (fun s c => MemoryState.apply s c.1) s calls =
      outcomes (Tables.apply sha256 subtract) t calls := by
  induction calls generalizing s t with
  | nil => rfl
  | cons c calls ih =>
    have hstep := h.apply hwf.1 hcareful.1
    exact congrArg₂ List.cons hstep.reply (ih hstep.agree hwf.2 hcareful.2)

/-- In every sequence of well-formed calls that are careful, both stores return the same. -/
theorem stores_agree (spelling : HexSpelling) (sha256 : Bytes32 → Bytes32)
    (subtract : ℤ → ℤ → Option ℤ) (calls : List KeptCall)
    (hwf : Throughout Call.WellFormed .new calls)
    (hcareful : Throughout (Call.Careful spelling subtract) .new calls) :
    memoryOutcomes calls = postgresOutcomes sha256 subtract calls :=
  Agree.outcomes_eq .new hwf hcareful

/-- An installation grants a delegation to a relay, whose delivery both stores admit. -/
theorem stores_agree_delivery : ∃ calls : List KeptCall,
    (∃ permit, (memoryOutcomes calls).getLast? = some (.ok (.permit permit))) ∧
      ∀ sha256, memoryOutcomes calls =
        postgresOutcomes sha256 (fun now window => some ((now - window) * 1000000)) calls := by
  let relay := hexText (List.replicate 32 7)
  let n : NewInstallation := ⟨1, [1], List.replicate 33 2, 0, .buzzIosSandbox, [3], 4, 1, 300⟩
  let d : Delegation := ⟨5, 1, relay, 1, 1, 0, 300, false⟩
  let r : DeliveryRequest := ⟨5, relay, 1, 1, relay, 6, 200, 60, 10, 100⟩
  have hhex : Hex64 relay := ⟨rfl, List.all_eq_true.mp rfl⟩
  have hspelled : relay ∈ Set.range HexSpelling.lowercase.text := ⟨List.replicate 32 7, rfl⟩
  refine ⟨[⟨.createInstallation n, rfl⟩, ⟨.upsertDelegation d, rfl⟩, ⟨.authorizeDelivery r, rfl⟩],
    ⟨r.permit d n.installation, by decide⟩,
    fun sha256 => stores_agree .lowercase sha256 _ _ ⟨?_, ?_, ?_, trivial⟩
      ⟨?_, ⟨hspelled, ?_⟩, ⟨hspelled, hspelled, rfl⟩, trivial⟩⟩
  · exact ⟨by decide, ⟨by decide, by decide⟩, fun _ _ h => (nomatch h)⟩
  · exact ⟨hhex, ⟨by decide, by decide⟩, by decide, by decide⟩
  · exact ⟨hhex, hhex, ⟨by decide, by decide⟩, ⟨by decide, by decide⟩, by decide, by decide,
      by decide⟩
  · change n.installation.row.check = true
    decide
  · exact fun _ _ _ _ _ => ⟨by decide, by decide, .inr ⟨rfl, rfl⟩⟩

/-- A challenge is presented with another value and then with its own. The reference store refuses
both, and PostgreSQL refuses the first. -/
theorem stores_differ : ∃ calls : List KeptCall, Throughout Call.WellFormed .new calls ∧
    ∀ sha256, Function.Injective sha256 → ∀ subtract,
      memoryOutcomes calls ≠ postgresOutcomes sha256 subtract calls := by
  refine ⟨[⟨.putChallenge ⟨1, 2, 100⟩, rfl⟩, ⟨.consumeChallenge 1 3 50, rfl⟩,
    ⟨.consumeChallenge 1 2 50, rfl⟩], ⟨⟨by decide, by decide⟩, ⟨by decide, by decide⟩,
      ⟨by decide, by decide⟩, trivial⟩, fun sha256 hinjective subtract heq => ?_⟩
  have hne : sha256 2 ≠ sha256 3 := hinjective.ne (by decide)
  let t : Tables := { Tables.empty with
    challenges := (∅ : HashMap Uuid ChallengeRow).insert 1 ⟨sha256 2, 100⟩ }
  have hlookup : t.challenges.lookup 1 = some ⟨sha256 2, 100⟩ := rfl
  have hput : Tables.empty.apply sha256 subtract ⟨.putChallenge ⟨1, 2, 100⟩, rfl⟩ =
      (.ok .done, t) := rfl
  have hconsume : ∀ value, t.transact sha256 subtract ⟨.consumeChallenge 1 value 50, rfl⟩ =
      Tables.transact.done (if sha256 2 = sha256 value ∧ (50 : ℤ) ≤ 100 then
        .ok { t with challenges := t.challenges.erase 1 } else .error .rejected) := fun value =>
    congrArg Tables.transact.done (Tables.consumeChallenge_eq hlookup ⟨by decide, by decide⟩ value)
  have hrefused : t.apply sha256 subtract ⟨.consumeChallenge 1 3 50, rfl⟩ =
      (.error .rejected, t) := by
    rw [Tables.apply, hconsume, if_neg fun hgood => hne hgood.1]
    rfl
  have haccepted : (t.apply sha256 subtract ⟨.consumeChallenge 1 2 50, rfl⟩).1 = .ok .done := by
    rw [Tables.apply, hconsume, if_pos ⟨rfl, by decide⟩]
    rfl
  rw [postgresOutcomes, outcomes, hput, outcomes, hrefused, outcomes, haccepted] at heq
  have hmemory : memoryOutcomes [⟨.putChallenge ⟨1, 2, 100⟩, rfl⟩,
      ⟨.consumeChallenge 1 3 50, rfl⟩, ⟨.consumeChallenge 1 2 50, rfl⟩] =
        [.ok .done, .error .rejected, .error .rejected] := rfl
  rw [hmemory] at heq
  simp at heq

end Buzz.PushGateway
