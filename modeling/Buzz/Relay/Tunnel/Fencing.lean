import Mathlib.Logic.Relation
import Buzz.Relay.Tunnel.Directory

/-!
# Fenced session leases

Any number of runtimes acquire, renew and release the lease of one session, in any order and at any
time, while leases expire. The leases that an acquisition returned are a ghost of the state, newest
first.

The counter and the lease move together: a lease that Redis still holds has the generation of the
counter, so a frame that passes the fence is that of the live lease, and a runtime with an older
generation can neither pass it nor touch the lease.

## Main definitions

* `World`, `Step`: runs of the runtimes on one session.
* `Sound`: the invariant.
* `Fenced`: what holds at every moment.

## Main results

* `Step.sound`: every step keeps the invariant.
* `fenced_of_run`: leases are exclusive and monotone in every run.
-/

namespace Buzz.Relay.Tunnel

open Buzz.Core Buzz.Library Relation

/-! ### Runs -/

/-- What Redis holds for the session, and the acquired leases with the newest first. -/
structure World where
  redis : Redis
  acquired : List SessionLease

/-- The lease that an acquisition created. -/
def acquiredLease : Except DirectoryError AcquireResult → List SessionLease
  | .ok (.acquired lease) => [lease]
  | _ => []

variable (communityId : CommunityId) (sessionId : Uuid)

/-- A call of some runtime on the session, or the passing of time. A lease may also vanish before
its time. -/
inductive Step : World → World → Prop
  | acquire {w} (owner : RuntimeId) (profile : Profile) (leaseTtl : ℕ) :
      Step w ⟨(acquire communityId sessionId owner profile leaseTtl w.redis).2,
        acquiredLease (acquire communityId sessionId owner profile leaseTtl w.redis).1 ++
          w.acquired⟩
  | renew {w} (lease : SessionLease) (leaseTtl : ℕ) :
      Step w ⟨(renew lease leaseTtl w.redis).2, w.acquired⟩
  | release {w} (lease : SessionLease) : Step w ⟨(release lease w.redis).2, w.acquired⟩
  | wait {w} (time : ℕ) (hlater : w.redis.now ≤ time) :
      Step w ⟨{ w.redis with now := time }, w.acquired⟩
  | expire {w} : Step w ⟨w.redis.delLease, w.acquired⟩

/-- Neither key of the session exists. -/
structure Initial (w : World) : Prop where
  lease : w.redis.lease = none
  generation : w.redis.generation = none
  acquired : w.acquired = []

/-! ### The invariant -/

/-- The value is a lease of this generation, the newest that was acquired. -/
def IsLease (acquired : List SessionLease) (value : List Char) (generation : ℕ) : Prop :=
  ∃ owner profile, value = leaseValue (RuntimeId.toHex owner) generation (Profile.asWireStr profile)
    ∧ (generation < 10 ^ 14 →
      acquired.head? = some ⟨communityId, sessionId, owner, generation, profile⟩)

/-- The invariant: a lease has the generation of the counter, and no acquired lease a larger one. -/
structure Sound (w : World) : Prop where
  counter : ∀ n, w.redis.generation = some n → 0 < n ∧ n < 2 ^ 63
  lease : ∀ value expiry, w.redis.lease = some (value, expiry) →
    ∃ n, w.redis.generation = some n ∧ IsLease communityId sessionId w.acquired value n
  le_counter : ∀ lease ∈ w.acquired, ∃ n, w.redis.generation = some n ∧ lease.generation ≤ n
  increasing : w.acquired.Pairwise fun newer older => older.generation < newer.generation

section Preservation

variable {communityId sessionId} {w : World}

theorem Initial.sound (h : Initial w) : Sound communityId sessionId w := by
  refine ⟨?_, ?_, ?_, ?_⟩
  · intro n hn
    rw [h.generation] at hn
    cases hn
  · intro value expiry hlease
    rw [h.lease] at hlease
    cases hlease
  · rw [h.acquired]
    exact fun lease hlease => absurd hlease List.not_mem_nil
  · rw [h.acquired]
    exact List.Pairwise.nil

/-- The invariant depends on the value of the lease only, not on its expiry. -/
theorem Sound.of_lease (h : Sound communityId sessionId w) {r : Redis}
    (hgeneration : r.generation = w.redis.generation)
    (hlease : ∀ value expiry, r.lease = some (value, expiry) →
      ∃ expiry', w.redis.lease = some (value, expiry')) :
    Sound communityId sessionId ⟨r, w.acquired⟩ := by
  refine ⟨?_, ?_, ?_, h.increasing⟩
  · rw [hgeneration]
    exact h.counter
  · intro value expiry hvalue
    obtain ⟨expiry', hold⟩ := hlease value expiry hvalue
    rw [hgeneration]
    exact h.lease value expiry' hold
  · rw [hgeneration]
    exact h.le_counter

theorem Sound.delLease (h : Sound communityId sessionId w) :
    Sound communityId sessionId ⟨w.redis.delLease, w.acquired⟩ :=
  h.of_lease rfl fun _ _ hlease => nomatch hlease

theorem Sound.pexpire (h : Sound communityId sessionId w) (ttl : ℕ) :
    Sound communityId sessionId ⟨w.redis.pexpire ttl, w.acquired⟩ := by
  refine h.of_lease rfl fun value expiry hlease => ?_
  obtain ⟨⟨value', expiry'⟩, hold, heq⟩ := Option.map_eq_some_iff.mp hlease
  obtain ⟨rfl, -⟩ := Prod.mk.inj heq
  exact ⟨expiry', hold⟩

/-- What a renewal does to Redis. -/
theorem renew_snd_cases (lease : SessionLease) (leaseTtl : ℕ) (r : Redis) :
    (renew lease leaseTtl r).2 = r ∨
      (∃ current, r.getLease = some current ∧
        isOwner lease.ownerRuntimeId.toHex (Nat.toDigits 10 lease.generation) current = true ∧
        (renew lease leaseTtl r).2 = r.pexpire leaseTtl) := by
  rw [renew, ttlMs]
  split_ifs with httl
  · simp only [renewScript]
    split
    · exact Or.inl rfl
    · next current hcurrent =>
      split_ifs with howner
      · exact Or.inr ⟨current, hcurrent, howner, rfl⟩
      · exact Or.inl rfl
  · exact Or.inl rfl

/-- What a release does to Redis. -/
theorem release_snd_cases (lease : SessionLease) (r : Redis) :
    (release lease r).2 = r ∨
      (∃ current, r.getLease = some current ∧
        isOwner lease.ownerRuntimeId.toHex (Nat.toDigits 10 lease.generation) current = true ∧
        (release lease r).2 = r.delLease) := by
  simp only [release, releaseScript]
  split
  · exact Or.inl rfl
  · next current hcurrent =>
    split_ifs with howner
    · exact Or.inr ⟨current, hcurrent, howner, rfl⟩
    · exact Or.inl rfl

theorem acquiredLease_exists (value known : List Char) :
    acquiredLease (acquireResult communityId sessionId (.exists, value, known)) = [] := by
  rw [acquireResult]
  split <;> rfl

/-- The lease of a new generation is returned when it is read back. -/
theorem acquiredLease_acquired (owner : RuntimeId) (profile : Profile) {n : ℕ} (hpos : 0 < n)
    (known : List Char) :
    acquiredLease (acquireResult communityId sessionId
      (.acquired, leaseValue owner.toHex n profile.asWireStr, known)) =
        if n < 10 ^ 14 then [⟨communityId, sessionId, owner, n, profile⟩] else [] := by
  split_ifs with hn
  · have hparse := parseLease_leaseValue owner profile communityId sessionId hpos hn
    simp only [acquireResult, hparse, acquiredLease]
  · have hparse := parseLease_leaseValue_of_le owner profile communityId sessionId
      (Nat.not_lt.mp hn)
    simp only [acquireResult, hparse, acquiredLease]

/-- What an acquisition does: nothing to Redis and no new lease, or the next generation with a new
lease. -/
theorem acquire_cases (communityId : CommunityId) (sessionId : Uuid) (owner : RuntimeId)
    (profile : Profile) (leaseTtl : ℕ) (r : Redis) :
    ((acquire communityId sessionId owner profile leaseTtl r).2 = r ∧
      acquiredLease (acquire communityId sessionId owner profile leaseTtl r).1 = []) ∨
    (∃ n, r.incr = some n ∧
      (acquire communityId sessionId owner profile leaseTtl r).2 =
        { r with generation := some n }.setLease
          (leaseValue owner.toHex n profile.asWireStr) leaseTtl ∧
      acquiredLease (acquire communityId sessionId owner profile leaseTtl r).1 =
        if n < 10 ^ 14 then [⟨communityId, sessionId, owner, n, profile⟩] else []) := by
  by_cases httl : 0 < leaseTtl ∧ leaseTtl < 2 ^ 63
  · have hms : ttlMs leaseTtl = .ok leaseTtl := if_pos httl
    cases hcurrent : r.getLease with
    | some current =>
      simp only [acquire, hms, acquireScript, hcurrent]
      exact Or.inl ⟨trivial, acquiredLease_exists current _⟩
    | none =>
      cases hincr : r.incr with
      | none =>
        simp only [acquire, hms, acquireScript, hcurrent, hincr]
        exact Or.inl ⟨trivial, rfl⟩
      | some n =>
        have hpos : 0 < n := by
          rw [Redis.incr] at hincr
          split_ifs at hincr
          obtain rfl := Option.some.inj hincr
          exact Nat.succ_pos _
        simp only [acquire, hms, acquireScript, hcurrent, hincr]
        exact Or.inr ⟨n, rfl, rfl, acquiredLease_acquired owner profile hpos _⟩
  · have hms : ttlMs leaseTtl = .error .invalidLeaseTtl := if_neg httl
    simp only [acquire, hms]
    exact Or.inl ⟨trivial, rfl⟩

/-- A new generation is above every acquired one. -/
theorem Sound.lt_of_incr (h : Sound communityId sessionId w) {n : ℕ} (hincr : w.redis.incr = some n)
    {lease : SessionLease} (hlease : lease ∈ w.acquired) : lease.generation < n := by
  obtain ⟨m, hm, hle⟩ := h.le_counter lease hlease
  rw [Redis.incr, hm] at hincr
  split_ifs at hincr
  obtain rfl := Option.some.inj hincr
  exact Nat.lt_succ_of_le hle

/-- A new lease of the next generation keeps the invariant. -/
theorem Sound.setLease (h : Sound communityId sessionId w) {n : ℕ} (hincr : w.redis.incr = some n)
    (owner : RuntimeId) (profile : Profile) (ttl : ℕ) :
    Sound communityId sessionId
      ⟨{ w.redis with generation := some n }.setLease
          (leaseValue owner.toHex n profile.asWireStr) ttl,
        (if n < 10 ^ 14 then [⟨communityId, sessionId, owner, n, profile⟩] else []) ++
          w.acquired⟩ := by
  have hbound : 0 < n ∧ n < 2 ^ 63 := by
    rw [Redis.incr] at hincr
    split_ifs at hincr with hlt
    obtain rfl := Option.some.inj hincr
    exact ⟨Nat.succ_pos _, hlt⟩
  refine ⟨?_, ?_, ?_, ?_⟩
  · intro m hm
    obtain rfl := Option.some.inj hm
    exact hbound
  · intro value expiry hvalue
    obtain ⟨rfl, -⟩ := Prod.mk.inj (Option.some.inj hvalue)
    refine ⟨n, rfl, owner, profile, rfl, fun hn => ?_⟩
    rw [if_pos hn]
    rfl
  · intro lease hlease
    refine ⟨n, rfl, ?_⟩
    rcases List.mem_append.mp hlease with hnew | hold
    · split_ifs at hnew
      · rw [List.mem_singleton.mp hnew]
      · exact absurd hnew List.not_mem_nil
    · exact (h.lt_of_incr hincr hold).le
  · split_ifs
    · exact List.pairwise_cons.mpr ⟨fun lease hold => h.lt_of_incr hincr hold, h.increasing⟩
    · exact h.increasing

/-- Every step keeps the invariant. -/
theorem Step.sound {w' : World} (hstep : Step communityId sessionId w w')
    (h : Sound communityId sessionId w) : Sound communityId sessionId w' := by
  cases hstep with
  | acquire owner profile leaseTtl =>
    rcases acquire_cases communityId sessionId owner profile leaseTtl w.redis with
      ⟨hredis, hnone⟩ | ⟨n, hincr, hredis, hlease⟩
    · rw [hredis, hnone]
      exact h
    · rw [hredis, hlease]
      exact h.setLease hincr owner profile leaseTtl
  | renew lease leaseTtl =>
    rcases renew_snd_cases lease leaseTtl w.redis with hredis | ⟨current, -, -, hredis⟩
    · rw [hredis]
      exact h
    · rw [hredis]
      exact h.pexpire leaseTtl
  | release lease =>
    rcases release_snd_cases lease w.redis with hredis | ⟨current, -, -, hredis⟩
    · rw [hredis]
      exact h
    · rw [hredis]
      exact h.delLease
  | wait time hlater => exact h.of_lease rfl fun value expiry hlease => ⟨expiry, hlease⟩
  | expire => exact h.delLease

/-- The invariant holds in every run. -/
theorem Initial.sound_of_run {w' : World} (h : Initial w)
    (hrun : ReflTransGen (Step communityId sessionId) w w') : Sound communityId sessionId w' := by
  induction hrun with
  | refl => exact h.sound
  | tail _ hstep ih => exact hstep.sound ih

end Preservation

/-! ### What the fence lets through -/

section Fence

variable {communityId sessionId} {w : World}

/-- A lease that is read has the generation of the counter. -/
theorem Sound.getLease (h : Sound communityId sessionId w) {value : List Char}
    (hvalue : w.redis.getLease = some value) : ∃ n owner profile,
      w.redis.generation = some n ∧ value = leaseValue (RuntimeId.toHex owner) n
        (Profile.asWireStr profile) ∧
      (n < 10 ^ 14 → w.acquired.head? = some ⟨communityId, sessionId, owner, n, profile⟩) := by
  rw [Redis.getLease] at hvalue
  split at hvalue
  · next value' expiry hlease =>
    split_ifs at hvalue
    obtain rfl := Option.some.inj hvalue
    obtain ⟨n, hn, owner, profile, heq, hhead⟩ := h.lease value' expiry hlease
    exact ⟨n, owner, profile, hn, heq, hhead⟩
  · cases hvalue

/-- A live lease is the newest acquired one and has the generation of the counter. -/
theorem Sound.lookup_eq (h : Sound communityId sessionId w) {lease : SessionLease}
    (hlookup : lookup communityId sessionId w.redis = .ok (some lease)) :
    w.redis.generation = some lease.generation ∧ w.acquired.head? = some lease := by
  rw [lookup] at hlookup
  split at hlookup
  · cases hlookup
  · next value hvalue =>
    obtain ⟨n, owner, profile, hn, rfl, hhead⟩ := h.getLease hvalue
    by_cases hsmall : n < 10 ^ 14
    · rw [parseLease_leaseValue owner profile communityId sessionId (h.counter n hn).1 hsmall]
        at hlookup
      obtain rfl := Option.some.inj (Except.ok.inj hlookup)
      exact ⟨hn, hhead hsmall⟩
    · rw [parseLease_leaseValue_of_le owner profile communityId sessionId (Nat.not_lt.mp hsmall)]
        at hlookup
      cases hlookup

theorem checkFence_none (fenced : FencedHeader) (known : ℕ) :
    checkFence fenced known none ≠ .ok () := by
  rw [checkFence]
  split_ifs <;> nofun

/-- The fence of a lease whose generation is the counter's. -/
theorem checkFence_some (fenced : FencedHeader) (lease : SessionLease) :
    checkFence fenced lease.generation (some lease) = .ok () ↔
      fenced.generation = lease.generation ∧ fenced.ownerRuntimeId = lease.ownerRuntimeId := by
  rw [checkFence, Option.map_some, Option.getD_some, max_self]
  constructor
  · intro h
    split_ifs at h with hstale hfuture howner
    exact ⟨not_not.mp hfuture, not_not.mp howner⟩
  · rintro ⟨hgeneration, howner⟩
    simp [hgeneration, howner]

/-- A frame passes the fence exactly when it is that of the live lease. -/
theorem Sound.validate_iff (h : Sound communityId sessionId w) {fenced : FencedHeader}
    (hsession : fenced.sessionId = sessionId) :
    validateFencedHeader communityId fenced w.redis = .ok () ↔
      ∃ lease, lookup communityId sessionId w.redis = .ok (some lease) ∧
        fenced.generation = lease.generation ∧ fenced.ownerRuntimeId = lease.ownerRuntimeId := by
  subst hsession
  cases hvalue : w.redis.getLease with
  | none =>
    have hlookup : lookup communityId fenced.sessionId w.redis = .ok none := by
      rw [lookup, hvalue]
    refine ⟨fun hvalid => ?_, fun ⟨lease, hlease, _⟩ => ?_⟩
    · rw [validateFencedHeader, validateScript, hvalue] at hvalid
      simp only [Option.getD_none, parseOptionalLease, if_true] at hvalid
      split at hvalid
      · cases hvalid
      · exact absurd hvalid (checkFence_none fenced _)
    · rw [hlookup] at hlease
      cases hlease
  | some value =>
    obtain ⟨n, owner, profile, hn, rfl, -⟩ := h.getLease hvalue
    obtain ⟨hpos, hmax⟩ := h.counter n hn
    have hknown : parseOptionalGeneration communityId fenced.sessionId w.redis.getGeneration =
        .ok (some n) := by
      rw [Redis.getGeneration, hn]
      exact parseOptionalGeneration_toDigits communityId _ hpos (by omega)
    by_cases hsmall : n < 10 ^ 14
    · have hparse := parseLease_leaseValue owner profile communityId fenced.sessionId hpos hsmall
      have hlookup : lookup communityId fenced.sessionId w.redis =
          .ok (some ⟨communityId, fenced.sessionId, owner, n, profile⟩) := by
        simp only [lookup, hvalue, hparse]
      simp only [validateFencedHeader, validateScript, hvalue, Option.getD_some, hknown,
        parseOptionalLease, if_neg leaseValue_ne_nil, hparse, hlookup]
      rw [checkFence_some fenced ⟨communityId, fenced.sessionId, owner, n, profile⟩]
      constructor
      · exact fun heq => ⟨_, rfl, heq⟩
      · rintro ⟨lease, hlease, heq⟩
        obtain rfl := Option.some.inj (Except.ok.inj hlease)
        exact heq
    · have hparse := parseLease_leaseValue_of_le owner profile communityId fenced.sessionId
        (Nat.not_lt.mp hsmall)
      refine ⟨fun hvalid => ?_, fun ⟨lease, hlease, _⟩ => ?_⟩
      · simp only [validateFencedHeader, validateScript, hvalue, Option.getD_some, hknown,
          parseOptionalLease, if_neg leaseValue_ne_nil, hparse] at hvalid
        cases hvalid
      · simp only [lookup, hvalue, hparse] at hlease
        cases hlease

/-- The lease that Redis reads is not that of a runtime with an older generation. -/
theorem Sound.not_isOwner (h : Sound communityId sessionId w) {lease newer : SessionLease}
    (hnewer : newer ∈ w.acquired) (hlt : lease.generation < newer.generation) {current : List Char}
    (hcurrent : w.redis.getLease = some current) :
    isOwner lease.ownerRuntimeId.toHex (Nat.toDigits 10 lease.generation) current ≠ true := by
  obtain ⟨n, owner, profile, hn, rfl, -⟩ := h.getLease hcurrent
  obtain ⟨m, hm, hle⟩ := h.le_counter newer hnewer
  obtain rfl := Option.some.inj (hn.symm.trans hm)
  intro howner
  have heq := eq_of_isOwner howner
  omega

end Fence

/-! ### Exclusive and monotone -/

/-- Leases are exclusive and monotone. -/
structure Fenced (w : World) : Prop where
  /-- Successive acquisitions return increasing generations. -/
  increasing : w.acquired.Pairwise fun newer older => older.generation < newer.generation
  /-- The frames that pass are those of the live lease, which is the newest acquired one. -/
  exclusive : ∀ fenced : FencedHeader, fenced.sessionId = sessionId →
    (validateFencedHeader communityId fenced w.redis = .ok () ↔
      ∃ lease, lookup communityId sessionId w.redis = .ok (some lease) ∧
        fenced.generation = lease.generation ∧ fenced.ownerRuntimeId = lease.ownerRuntimeId)
  live : ∀ lease, lookup communityId sessionId w.redis = .ok (some lease) →
    w.acquired.head? = some lease
  /-- No frame below an acquired generation passes. -/
  stale : ∀ newer ∈ w.acquired, ∀ fenced : FencedHeader, fenced.sessionId = sessionId →
    fenced.generation < newer.generation →
    validateFencedHeader communityId fenced w.redis ≠ .ok ()
  /-- A renewal or release below an acquired generation changes nothing. -/
  unchanged : ∀ newer ∈ w.acquired, ∀ lease : SessionLease, lease.generation < newer.generation →
    (∀ leaseTtl, (renew lease leaseTtl w.redis).2 = w.redis) ∧ (release lease w.redis).2 = w.redis

/-- At every moment of every run, session leases are exclusive and monotone. -/
theorem fenced_of_run (w w' : World) (hinitial : Initial w)
    (hrun : ReflTransGen (Step communityId sessionId) w w') : Fenced communityId sessionId w' := by
  have h := hinitial.sound_of_run hrun
  refine ⟨h.increasing, fun fenced hsession => h.validate_iff hsession,
    fun lease hlookup => (h.lookup_eq hlookup).2, ?_, ?_⟩
  · intro newer hnewer fenced hsession hlt hvalid
    obtain ⟨lease, hlookup, hgeneration, -⟩ := (h.validate_iff hsession).mp hvalid
    obtain ⟨m, hm, hle⟩ := h.le_counter newer hnewer
    have heq := Option.some.inj ((h.lookup_eq hlookup).1.symm.trans hm)
    omega
  · intro newer hnewer lease hlt
    refine ⟨fun leaseTtl => ?_, ?_⟩
    · rcases renew_snd_cases lease leaseTtl w'.redis with hsame | ⟨current, hcurrent, howner, -⟩
      · exact hsame
      · exact absurd howner (h.not_isOwner hnewer hlt hcurrent)
    · rcases release_snd_cases lease w'.redis with hsame | ⟨current, hcurrent, howner, -⟩
      · exact hsame
      · exact absurd howner (h.not_isOwner hnewer hlt hcurrent)

/-- No keys, at the beginning of time. -/
def emptyWorld : World := ⟨⟨none, none, 0⟩, []⟩

theorem fenced_of_run_takeover :
    ∃ w', Initial emptyWorld ∧ ReflTransGen (Step 10 11) emptyWorld w' ∧
      w'.acquired = [⟨10, 11, 2, 2, .huddleControl⟩, ⟨10, 11, 1, 1, .huddleControl⟩] ∧
      Fenced 10 11 w' := by
  have hinitial : Initial emptyWorld := ⟨rfl, rfl, rfl⟩
  have hfirst : Step 10 11 emptyWorld _ := .acquire 1 .huddleControl 30000
  have hexpired := hfirst |> ReflTransGen.single |>.tail (.wait 30000 (Nat.zero_le _))
  have hrun := hexpired.tail (.acquire 2 .huddleControl 30000)
  exact ⟨_, hinitial, hrun, rfl, fenced_of_run 10 11 _ _ hinitial hrun⟩

end Buzz.Relay.Tunnel
