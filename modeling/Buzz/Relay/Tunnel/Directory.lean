import Mathlib.Tactic.Ring
import Buzz.Core.Filter
import Buzz.Library.Json
import Buzz.Library.Numerals

/-!
# The session directory

The directory of `crates/buzz-relay/src/tunnel/directory.rs`: which runtime owns a tunnel session.
Redis holds two keys for a session, a lease that expires and a generation counter that does not, and
four Lua scripts read and write them, each in one atomic step. `Redis` is what the two keys of one
session hold, with the clock; a lease whose time has come is not read any more.

A runtime's identifier travels as hexadecimal text, a generation as decimal text. Lua has numbers of
double precision only, and prints them with fourteen significant digits. Pool checkouts, the write
guard of community deletion and metrics are left out: a call they fail has run its script or has
not.

## Main definitions

* `RuntimeId`, `Profile`, `SessionLease`, `FencedHeader`, `DirectoryError`, `MeshError`.
* `Redis`, `acquireScript`, `renewScript`, `releaseScript`, `validateScript`.
* `acquire`, `renew`, `release`, `lookup`, `validateFencedHeader`.

## Main results

* `parseLease_leaseValue`, `parseLease_leaseValue_of_le`: which lease values are read back.
* `eq_of_isOwner`: the scripts compare generations as texts, which tells them apart.
-/

namespace Buzz.Relay.Tunnel

open Buzz.Core Buzz.Library

/-! ### Data -/

/-- A 32-byte runtime identifier. -/
abbrev RuntimeId := BitVec 256

/-- The hexadecimal text of a runtime identifier. -/
def RuntimeId.toHex (id : RuntimeId) : List Char := hexDigits 64 id.toNat

/-- Tunnel profile, fixed at session establishment. -/
inductive Profile
  | reliableStream
  | realtimeMedia
  | huddleControl
  deriving DecidableEq

/-- The wire text of a profile. -/
def Profile.asWireStr : Profile → List Char
  | reliableStream => "reliable-stream".toList
  | realtimeMedia => "realtime-media".toList
  | huddleControl => "huddle-control".toList

/-- The profile of a wire text. -/
def profileFromWire (value : List Char) : Option Profile :=
  if value = "reliable-stream".toList then some .reliableStream
  else if value = "realtime-media".toList then some .realtimeMedia
  else if value = "huddle-control".toList then some .huddleControl
  else none

/-- Active session ownership lease read from Redis. -/
structure SessionLease where
  communityId : CommunityId
  sessionId : Uuid
  ownerRuntimeId : RuntimeId
  generation : ℕ
  profile : Profile
  deriving DecidableEq

/-- The fenced tuple of a session-bearing frame. -/
structure FencedHeader where
  sessionId : Uuid
  generation : ℕ
  ownerRuntimeId : RuntimeId
  deriving DecidableEq

/-- Errors from the session directory. -/
inductive DirectoryError
  | redis (message : String)
  | malformedLease (communityId : CommunityId) (sessionId : Uuid) (value : List Char)
  | malformedGeneration (communityId : CommunityId) (sessionId : Uuid) (value : List Char)
  | unexpectedScriptStatus
  | invalidLeaseTtl
  /-- The lease that `expect` asserts is missing. -/
  | panicked
  deriving DecidableEq

/-- Rejections of a fenced frame; those of the transport carry the directory's error. -/
inductive MeshError
  | staleGeneration (sessionId : Uuid) (frameGeneration knownGeneration : ℕ)
  | noActiveLease (sessionId : Uuid) (frameGeneration knownGeneration : ℕ)
      (frameOwnerRuntimeId : RuntimeId)
  | ownerMismatch (sessionId : Uuid) (generation : ℕ)
      (frameOwnerRuntimeId currentOwnerRuntimeId : RuntimeId)
  | futureGeneration (sessionId : Uuid) (frameGeneration knownGeneration : ℕ)
  | transport (error : DirectoryError)
  deriving DecidableEq

/-- Result of attempting to acquire ownership for a session. -/
inductive AcquireResult
  | acquired (lease : SessionLease)
  | exists (lease : SessionLease)

/-- Result of renewing an existing owned lease. -/
inductive RenewResult
  | renewed (lease : SessionLease)
  | lost (current : Option SessionLease) (knownGeneration : Option ℕ)

/-- Result of releasing an existing owned lease. -/
inductive ReleaseResult
  | released (lease : SessionLease)
  | notOwner (current : Option SessionLease) (knownGeneration : Option ℕ)

/-! ### Parsing -/

/-- Decode 32 bytes of hexadecimal text. -/
def decodeRuntimeId (cs : List Char) : Option RuntimeId := decodeHex 64 256 cs

/-- Parse a `u64`. -/
def parseU64 (cs : List Char) : Option ℕ := parseUnsigned (2 ^ 64) cs

/-- The three fields of a lease value. -/
def parseFields (parts : List (List Char)) : Option (RuntimeId × ℕ × Profile) := do
  let ownerHex ← parts[0]?
  let generation ← parseU64 (← parts[1]?)
  if generation = 0 then none
  else
    let profile ← profileFromWire (← parts[2]?)
    if parts.length > 3 then none
    else return (← decodeRuntimeId ownerHex, generation, profile)

section Directory

variable (communityId : CommunityId) (sessionId : Uuid)

/-- Parse a lease value. -/
def parseLease (value : List Char) : Except DirectoryError SessionLease :=
  match parseFields (value.splitOn '|') with
  | some (owner, generation, profile) => .ok ⟨communityId, sessionId, owner, generation, profile⟩
  | none => .error (.malformedLease communityId sessionId value)

/-- Parse a lease value that may be missing. -/
def parseOptionalLease (value : List Char) : Except DirectoryError (Option SessionLease) :=
  if value = [] then .ok none
  else
    match parseLease communityId sessionId value with
    | .ok lease => .ok (some lease)
    | .error e => .error e

/-- Parse a generation that may be missing. -/
def parseOptionalGeneration (value : List Char) : Except DirectoryError (Option ℕ) :=
  if value = [] then .ok none
  else
    match parseU64 value with
    | none => .error (.malformedGeneration communityId sessionId value)
    | some generation =>
      if generation = 0 then .error (.malformedGeneration communityId sessionId value)
      else .ok (some generation)

/-- A lease time in milliseconds: positive, and an `i64`. -/
def ttlMs (ttl : ℕ) : Except DirectoryError ℕ :=
  if 0 < ttl ∧ ttl < 2 ^ 63 then .ok ttl else .error .invalidLeaseTtl

/-! ### Redis -/

/-- What Redis holds for one session: the lease value with the time it expires, and the generation
counter, at the present time. -/
structure Redis where
  lease : Option (List Char × ℕ)
  generation : Option ℕ
  now : ℕ

namespace Redis

/-- `GET` of the lease key. -/
def getLease (r : Redis) : Option (List Char) :=
  match r.lease with
  | some (value, expiry) => if r.now < expiry then some value else none
  | none => none

/-- `GET` of the generation key, or the empty text. -/
def getGeneration (r : Redis) : List Char :=
  match r.generation with
  | some n => Nat.toDigits 10 n
  | none => []

/-- `INCR` of the generation key, which fails rather than overflow. -/
def incr (r : Redis) : Option ℕ :=
  let n := r.generation.getD 0 + 1
  if n < 2 ^ 63 then some n else none

/-- `SET` of the lease key with an expiry. -/
def setLease (r : Redis) (value : List Char) (ttl : ℕ) : Redis :=
  { r with lease := some (value, r.now + ttl) }

/-- `PEXPIRE` of the lease key. -/
def pexpire (r : Redis) (ttl : ℕ) : Redis :=
  { r with lease := r.lease.map fun l => (l.1, r.now + ttl) }

/-- `DEL` of the lease key. -/
def delLease (r : Redis) : Redis := { r with lease := none }

end Redis

/-- The status of a script's reply. -/
inductive ScriptStatus
  | acquired
  | exists
  | renewed
  | released
  | missing
  | lost
  deriving DecidableEq

/-- A reply: the status, the lease value and the known generation. -/
abbrev Reply := ScriptStatus × List Char × List Char

/-- The lease value that a script writes. -/
def leaseValue (owner : List Char) (generation : ℕ) (profile : List Char) : List Char :=
  owner ++ '|' :: (printG14 generation ++ '|' :: profile)

/-- `ACQUIRE_SCRIPT`. -/
def acquireScript (owner profile : List Char) (ttl : ℕ) (r : Redis) :
    Except DirectoryError Reply × Redis :=
  match r.getLease with
  | some current => (.ok (.exists, current, r.getGeneration), r)
  | none =>
    match r.incr with
    | none => (.error (.redis "ERR increment or decrement would overflow"), r)
    | some generation =>
      let value := leaseValue owner generation profile
      (.ok (.acquired, value, printG14 generation),
        { r with generation := some generation }.setLease value ttl)

/-- The match of the pattern `^([^|]+)|([^|]+)|([^|]+)$`: three parts, none of them empty. -/
def matchLease (current : List Char) : Option (List Char × List Char × List Char) :=
  match current.splitOn '|' with
  | [owner, generation, profile] =>
    if owner = [] ∨ generation = [] ∨ profile = [] then none
    else some (owner, generation, profile)
  | _ => none

/-- Whether a lease value is the caller's. -/
def isOwner (owner generation current : List Char) : Bool :=
  match matchLease current with
  | some (currentOwner, currentGeneration, _) =>
    currentOwner = owner && currentGeneration = generation
  | none => false

/-- The known generation of a reply about a lease: the counter, else the lease's own. -/
def knownGeneration (current : List Char) (r : Redis) : List Char :=
  match r.generation with
  | some n => Nat.toDigits 10 n
  | none => ((matchLease current).map fun fields => fields.2.1).getD []

/-- `RENEW_SCRIPT`. -/
def renewScript (owner generation : List Char) (ttl : ℕ) (r : Redis) : Reply × Redis :=
  match r.getLease with
  | none => ((.missing, [], r.getGeneration), r)
  | some current =>
    if isOwner owner generation current then
      ((.renewed, current, knownGeneration current r), r.pexpire ttl)
    else ((.lost, current, knownGeneration current r), r)

/-- `RELEASE_SCRIPT`. -/
def releaseScript (owner generation : List Char) (r : Redis) : Reply × Redis :=
  match r.getLease with
  | none => ((.missing, [], r.getGeneration), r)
  | some current =>
    if isOwner owner generation current then
      ((.released, current, knownGeneration current r), r.delLease)
    else ((.lost, current, knownGeneration current r), r)

/-- `VALIDATE_SCRIPT`. -/
def validateScript (r : Redis) : List Char × List Char :=
  (r.getLease.getD [], r.getGeneration)

/-! ### The directory -/

/-- The result of a reply to `ACQUIRE_SCRIPT`. -/
def acquireResult (reply : Reply) : Except DirectoryError AcquireResult :=
  match parseLease communityId sessionId reply.2.1 with
  | .error e => .error e
  | .ok lease =>
    match reply.1 with
    | .acquired => .ok (.acquired lease)
    | .exists => .ok (.exists lease)
    | _ => .error .unexpectedScriptStatus

/-- Attempt to create or take over the session lease. -/
def acquire (owner : RuntimeId) (profile : Profile) (leaseTtl : ℕ) (r : Redis) :
    Except DirectoryError AcquireResult × Redis :=
  match ttlMs leaseTtl with
  | .error e => (.error e, r)
  | .ok ttl =>
    match acquireScript owner.toHex profile.asWireStr ttl r with
    | (.error e, r) => (.error e, r)
    | (.ok reply, r) => (acquireResult communityId sessionId reply, r)

/-- The result of a reply to `RENEW_SCRIPT`. -/
def renewResult (reply : Reply) : Except DirectoryError RenewResult := do
  let current ← parseOptionalLease communityId sessionId reply.2.1
  match reply.1 with
  | .renewed =>
    match current with
    | some lease => return .renewed lease
    | none => throw .panicked
  | .missing | .lost =>
    return .lost current (← parseOptionalGeneration communityId sessionId reply.2.2)
  | _ => throw .unexpectedScriptStatus

/-- Renew a lease only if the current value matches the caller's owner and generation. -/
def renew (lease : SessionLease) (leaseTtl : ℕ) (r : Redis) :
    Except DirectoryError RenewResult × Redis :=
  match ttlMs leaseTtl with
  | .error e => (.error e, r)
  | .ok ttl =>
    let (reply, r) :=
      renewScript lease.ownerRuntimeId.toHex (Nat.toDigits 10 lease.generation) ttl r
    (renewResult lease.communityId lease.sessionId reply, r)

/-- The result of a reply to `RELEASE_SCRIPT`. -/
def releaseResult (reply : Reply) : Except DirectoryError ReleaseResult := do
  let current ← parseOptionalLease communityId sessionId reply.2.1
  match reply.1 with
  | .released =>
    match current with
    | some lease => return .released lease
    | none => throw .panicked
  | .missing | .lost =>
    return .notOwner current (← parseOptionalGeneration communityId sessionId reply.2.2)
  | _ => throw .unexpectedScriptStatus

/-- Release a lease only if the current value matches the caller's owner and generation. -/
def release (lease : SessionLease) (r : Redis) : Except DirectoryError ReleaseResult × Redis :=
  let (reply, r) := releaseScript lease.ownerRuntimeId.toHex (Nat.toDigits 10 lease.generation) r
  (releaseResult lease.communityId lease.sessionId reply, r)

/-- Look up the current live lease, if any. -/
def lookup (r : Redis) : Except DirectoryError (Option SessionLease) :=
  match r.getLease with
  | none => .ok none
  | some value =>
    match parseLease communityId sessionId value with
    | .ok lease => .ok (some lease)
    | .error e => .error e

/-- The verdict on a frame, given the counter and the live lease. -/
def checkFence (fenced : FencedHeader) (knownFromCounter : ℕ) (current : Option SessionLease) :
    Except MeshError Unit :=
  let known := max ((current.map SessionLease.generation).getD knownFromCounter) knownFromCounter
  if 0 < known ∧ fenced.generation < known then
    .error (.staleGeneration fenced.sessionId fenced.generation known)
  else
    match current with
    | none =>
      .error (.noActiveLease fenced.sessionId fenced.generation known fenced.ownerRuntimeId)
    | some current =>
      if fenced.generation ≠ current.generation then
        .error (.futureGeneration fenced.sessionId fenced.generation current.generation)
      else if fenced.ownerRuntimeId ≠ current.ownerRuntimeId then
        .error (.ownerMismatch fenced.sessionId fenced.generation fenced.ownerRuntimeId
          current.ownerRuntimeId)
      else .ok ()

/-- Validate a session-bearing frame against Redis. -/
def validateFencedHeader (fenced : FencedHeader) (r : Redis) : Except MeshError Unit :=
  let (leaseText, generationText) := validateScript r
  match parseOptionalGeneration communityId fenced.sessionId generationText with
  | .error e => .error (.transport e)
  | .ok known =>
    match parseOptionalLease communityId fenced.sessionId leaseText with
    | .error e => .error (.transport e)
    | .ok current => checkFence fenced (known.getD 0) current

end Directory

/-! ### Reading a lease value back -/

/-- A runtime identifier is read back from its text. -/
theorem decodeRuntimeId_toHex (id : RuntimeId) : decodeRuntimeId id.toHex = some id :=
  decodeHex_hexDigits (by norm_num) id

theorem profileFromWire_asWireStr (profile : Profile) :
    profileFromWire profile.asWireStr = some profile := by
  cases profile <;> decide

/-- A printed generation is the decimal text of that generation only. -/
theorem eq_of_printG14_eq {m n : ℕ} (h : printG14 m = Nat.toDigits 10 n) : m = n := by
  by_cases hm : m < 10 ^ 14
  · rw [printG14_of_lt hm] at h
    exact toDigits_injective h
  · have hmem := e_mem_printG14 (Nat.not_lt.mp hm)
    rw [h] at hmem
    exact absurd (Nat.isDigit_of_mem_toDigits (by omega) (by omega) hmem) (by decide)

section Value

variable (owner : RuntimeId) (generation : ℕ) (profile : Profile)

theorem bar_not_mem_toHex : '|' ∉ owner.toHex := by
  intro h
  obtain ⟨i, -, hi⟩ := List.mem_map.mp h
  have hnone : ∀ n < 16, hexDigit n ≠ '|' := by decide
  exact hnone _ (Nat.mod_lt _ (by omega)) hi

theorem bar_not_mem_printG14 : '|' ∉ printG14 generation := by
  intro h
  rcases printG14_chars h with h | h | h | h <;> exact absurd h (by decide)

theorem bar_not_mem_asWireStr : '|' ∉ profile.asWireStr := by
  cases profile <;> decide

theorem splitOn_leaseValue :
    (leaseValue owner.toHex generation profile.asWireStr).splitOn '|' =
      [owner.toHex, printG14 generation, profile.asWireStr] := by
  have hvalue : leaseValue owner.toHex generation profile.asWireStr =
      ['|'].intercalate [owner.toHex, printG14 generation, profile.asWireStr] := by
    simp [leaseValue, List.intercalate, List.intersperse]
  rw [hvalue, List.splitOn_intercalate]
  · intro l hl
    simp only [List.mem_cons, List.not_mem_nil, or_false] at hl
    rcases hl with rfl | rfl | rfl
    · exact bar_not_mem_toHex owner
    · exact bar_not_mem_printG14 generation
    · exact bar_not_mem_asWireStr profile
  · exact List.cons_ne_nil _ _

variable {generation}

/-- A lease with a generation of at most fourteen digits is read back. -/
theorem parseLease_leaseValue (communityId : CommunityId) (sessionId : Uuid)
    (hpos : 0 < generation) (h : generation < 10 ^ 14) :
    parseLease communityId sessionId (leaseValue owner.toHex generation profile.asWireStr) =
      .ok ⟨communityId, sessionId, owner, generation, profile⟩ := by
  have hparse : parseU64 (printG14 generation) = some generation :=
    parseUnsigned_printG14 h (by omega)
  have hfields : parseFields [owner.toHex, printG14 generation, profile.asWireStr] =
      some (owner, generation, profile) := by
    simp [parseFields, hparse, profileFromWire_asWireStr, decodeRuntimeId_toHex,
      Nat.pos_iff_ne_zero.mp hpos]
  rw [parseLease, splitOn_leaseValue, hfields]

/-- A lease with a longer generation is malformed. -/
theorem parseLease_leaseValue_of_le (communityId : CommunityId) (sessionId : Uuid)
    (h : 10 ^ 14 ≤ generation) :
    parseLease communityId sessionId (leaseValue owner.toHex generation profile.asWireStr) =
      .error (.malformedLease communityId sessionId
        (leaseValue owner.toHex generation profile.asWireStr)) := by
  have hparse : parseU64 (printG14 generation) = none := parseUnsigned_printG14_eq_none h
  have hfields : parseFields [owner.toHex, printG14 generation, profile.asWireStr] = none := by
    simp [parseFields, hparse]
  rw [parseLease, splitOn_leaseValue, hfields]

variable {owner profile}

theorem leaseValue_ne_nil : leaseValue owner.toHex generation profile.asWireStr ≠ [] :=
  List.append_ne_nil_of_right_ne_nil _ (List.cons_ne_nil _ _)

/-- A lease is the caller's only if its generation is. -/
theorem eq_of_isOwner {caller : List Char} {n : ℕ}
    (h : isOwner caller (Nat.toDigits 10 n)
      (leaseValue owner.toHex generation profile.asWireStr) = true) : generation = n := by
  rw [isOwner, matchLease, splitOn_leaseValue] at h
  simp only at h
  split_ifs at h
  simp only [Bool.and_eq_true, decide_eq_true_eq] at h
  exact eq_of_printG14_eq h.2

end Value

theorem parseOptionalGeneration_toDigits (communityId : CommunityId) (sessionId : Uuid) {n : ℕ}
    (hpos : 0 < n) (h : n < 2 ^ 64) :
    parseOptionalGeneration communityId sessionId (Nat.toDigits 10 n) = .ok (some n) := by
  have hparse : parseU64 (Nat.toDigits 10 n) = some n := parseUnsigned_toDigits h
  simp only [parseOptionalGeneration, if_neg Nat.toDigits_ne_nil, hparse,
    if_neg (Nat.pos_iff_ne_zero.mp hpos)]

/-! ### The assertions of the directory -/

section Assertions

variable (communityId : CommunityId) (sessionId : Uuid)

end Assertions

end Buzz.Relay.Tunnel
