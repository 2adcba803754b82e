import Buzz.Core.Filter
import Buzz.Library.Rfc3339
import Buzz.Audit.CanonicalJson

/-!
# The hash of an audit entry

`compute_hash` of `crates/buzz-audit/src/hash.rs`: SHA-256, a parameter here, over the fields of an
entry one after another. The first four fields are told apart wherever they end: the identifier and
the number of the entry have a fixed width, the text of the time holds no lower-case letter and the
name of the action nothing else but underscores. From there on the bytes carry presence tags but no
lengths, so two entries whose keys, object identifiers and details have different lengths may hash
the same bytes.

## Main definitions

* `AuditAction`, `AuditEntry`, `preimage`, `computeHash`.
* `SameFields`: agreement on every hashed field.
* `SameFraming`: the boundaries between the fields lie at the same places.

## Main results

* `head_eq_of_preimage_eq`: the fields that are always bound.
* `sameFields_iff_sameFraming`: entries with equal preimages agree when they are framed alike.
-/

namespace Buzz.Audit

open Buzz.Core Buzz.Library

/-! ### Entries -/

/-- Audit action recorded for each event in the log. -/
inductive AuditAction
  | eventCreated
  | eventDeleted
  | channelCreated
  | channelUpdated
  | channelDeleted
  | memberAdded
  | memberRemoved
  | authSuccess
  | authFailure
  | rateLimitExceeded
  | mediaUploaded
  deriving DecidableEq, Repr

namespace AuditAction

/-- The text used in the hash and in the database. -/
def asStr : AuditAction → List Char
  | eventCreated => "event_created".toList
  | eventDeleted => "event_deleted".toList
  | channelCreated => "channel_created".toList
  | channelUpdated => "channel_updated".toList
  | channelDeleted => "channel_deleted".toList
  | memberAdded => "member_added".toList
  | memberRemoved => "member_removed".toList
  | authSuccess => "auth_success".toList
  | authFailure => "auth_failure".toList
  | rateLimitExceeded => "rate_limit_exceeded".toList
  | mediaUploaded => "media_uploaded".toList

/-- Every action. -/
def all : List AuditAction :=
  [eventCreated, eventDeleted, channelCreated, channelUpdated, channelDeleted, memberAdded,
    memberRemoved, authSuccess, authFailure, rateLimitExceeded, mediaUploaded]

/-- The action of a text: `FromStr`. -/
def fromStr (s : List Char) : Option AuditAction := all.find? fun a => a.asStr = s

/-- Every action is read back from its text. -/
theorem fromStr_asStr (a : AuditAction) : fromStr a.asStr = some a := by
  cases a <;> rfl

theorem asStr_inj {a b : AuditAction} (h : a.asStr = b.asStr) : a = b := by
  have hread := congrArg fromStr h
  rw [fromStr_asStr, fromStr_asStr] at hread
  exact Option.some.inj hread

end AuditAction

/-- A materialised audit log entry. -/
structure AuditEntry where
  communityId : Uuid
  seq : Int64
  hash : List UInt8
  prevHash : Option (List UInt8)
  action : AuditAction
  actorPubkey : Option (List UInt8)
  objectId : Option (List Char)
  detail : Value
  createdAt : DateTime

/-- The sentinel hashed in place of `prev_hash` for a community's first entry. -/
def genesisHash : List UInt8 := List.replicate 32 0

/-- An optional field after its presence tag. -/
def tagged : Option (List UInt8) → List UInt8
  | some bytes => 1 :: bytes
  | none => [0]

/-- The fields after the name of the action. -/
def openFields (e : AuditEntry) : List UInt8 :=
  tagged e.actorPubkey ++ (tagged (e.objectId.map utf8) ++
    (utf8 (canonicalJson e.detail.json) ++ e.prevHash.getD genesisHash))

/-- The bytes that are hashed. -/
def preimage (e : AuditEntry) : List UInt8 :=
  beBytes 16 e.communityId.toNat ++ (beBytes 8 e.seq.toBitVec.toNat ++
    (utf8 e.createdAt.truncMicros.toRfc3339 ++ (utf8 e.action.asStr ++ openFields e)))

/-- SHA-256 over the entry's identity, chain, and context fields. -/
def computeHash (sha256 : List UInt8 → List UInt8) (e : AuditEntry) : List UInt8 :=
  sha256 (preimage e)

/-! ### What is always bound -/

/-- A byte below the lower-case letters of ASCII. -/
def BelowLetters (b : UInt8) : Prop := b.toNat < 97

/-- A lower-case letter or an underscore of ASCII. -/
def NameByte (b : UInt8) : Prop := b.toNat = 95 ∨ 97 ≤ b.toNat

theorem toNat_ofNat_toNat {c : Char} (hc : c.toNat ≤ 127) : (UInt8.ofNat c.toNat).toNat = c.toNat :=
  Nat.mod_eq_of_lt (by omega)

/-- The text of a time is below the letters. -/
theorem belowLetters_of_mem_toRfc3339 {t : DateTime} {b : UInt8} (hb : b ∈ utf8 t.toRfc3339) :
    BelowLetters b := by
  have hchar : ∀ c ∈ t.toRfc3339, c.toNat < 97 := by
    intro c hc
    rcases DateTime.mem_toRfc3339 hc with hdigit | hsign
    · have hle : c.toNat ≤ 57 := (Char.isDigit_iff_toNat.mp hdigit).2
      omega
    · have hall : (['-', '+', 'T', ':', '.'].all fun c => c.toNat < 97) = true := rfl
      simpa using List.all_eq_true.mp hall c hsign
  rw [utf8_of_ascii fun c hc => (by have := hchar c hc; omega)] at hb
  obtain ⟨c, hc, rfl⟩ := List.mem_map.mp hb
  have hlt := hchar c hc
  rw [BelowLetters, toNat_ofNat_toNat (by omega)]
  exact hlt

/-- The name of an action begins with a letter and goes on with letters and underscores. -/
theorem utf8_asStr (a : AuditAction) :
    (∃ b bs, utf8 a.asStr = b :: bs ∧ ¬ BelowLetters b) ∧ ∀ b ∈ utf8 a.asStr, NameByte b := by
  have hascii : ∀ c ∈ a.asStr, c.toNat ≤ 127 := by
    have hall : (a.asStr.all fun c => c.toNat ≤ 127) = true := by cases a <;> rfl
    exact fun c hc => by simpa using List.all_eq_true.mp hall c hc
  have hname : ∀ c ∈ a.asStr, c.toNat = 95 ∨ 97 ≤ c.toNat := by
    have hall : (a.asStr.all fun c => c.toNat = 95 ∨ 97 ≤ c.toNat) = true := by cases a <;> rfl
    exact fun c hc => by simpa using List.all_eq_true.mp hall c hc
  have hhead : ∃ c cs, a.asStr = c :: cs ∧ 97 ≤ c.toNat := by
    cases a <;> exact ⟨_, _, rfl, by decide⟩
  rw [utf8_of_ascii hascii]
  refine ⟨?_, ?_⟩
  · obtain ⟨c, cs, hcs, hletter⟩ := hhead
    refine ⟨_, _, by rw [hcs, List.map_cons], ?_⟩
    rw [BelowLetters, toNat_ofNat_toNat (hascii c (hcs ▸ List.mem_cons_self))]
    omega
  · intro b hb
    obtain ⟨c, hc, rfl⟩ := List.mem_map.mp hb
    rw [NameByte, toNat_ofNat_toNat (hascii c hc)]
    exact hname c hc

theorem exists_tagged (field : Option (List UInt8)) :
    ∃ tag bytes, tagged field = tag :: bytes ∧ ¬ NameByte tag := by
  cases field with
  | none => exact ⟨0, [], rfl, fun h => absurd h (by simp [NameByte])⟩
  | some bytes => exact ⟨1, bytes, rfl, fun h => absurd h (by simp [NameByte])⟩

/-- The identifier, the number, the time and the action of an entry are bound whatever follows
them. -/
theorem head_eq_of_preimage_eq {a b : AuditEntry} (h : preimage a = preimage b) :
    a.communityId = b.communityId ∧ a.seq = b.seq ∧
      a.createdAt.truncMicros = b.createdAt.truncMicros ∧ a.action = b.action ∧
      openFields a = openFields b := by
  obtain ⟨hcommunity, h⟩ := List.append_inj h (by rw [length_beBytes, length_beBytes])
  obtain ⟨hseq, h⟩ := List.append_inj h (by rw [length_beBytes, length_beBytes])
  obtain ⟨⟨x, xs, hx, hxletter⟩, haname⟩ := utf8_asStr a.action
  obtain ⟨⟨y, ys, hy, hyletter⟩, hbname⟩ := utf8_asStr b.action
  obtain ⟨s, ss, hs, hsname⟩ := exists_tagged a.actorPubkey
  obtain ⟨t, ts, ht, htname⟩ := exists_tagged b.actorPubkey
  -- The time ends at the first letter, the action at the first byte that is no part of a name.
  rw [hx, hy, List.cons_append, List.cons_append] at h
  obtain ⟨htime, hletter, hrest⟩ := append_cons_inj_of_not BelowLetters
    (fun _ => belowLetters_of_mem_toRfc3339) (fun _ => belowLetters_of_mem_toRfc3339)
    hxletter hyletter h
  have haction : utf8 a.action.asStr ++ openFields a = utf8 b.action.asStr ++ openFields b := by
    rw [hx, hy, List.cons_append, List.cons_append, hletter, hrest]
  have hopen : ∀ e : AuditEntry, openFields e = tagged e.actorPubkey ++
      (tagged (e.objectId.map utf8) ++ (utf8 (canonicalJson e.detail.json) ++
        e.prevHash.getD genesisHash)) := fun _ => rfl
  rw [hopen a, hopen b, hs, ht, List.cons_append, List.cons_append] at haction
  obtain ⟨hname, htag, htail⟩ := append_cons_inj_of_not NameByte haname hbname hsname htname haction
  refine ⟨?_, ?_, ?_, ?_, ?_⟩
  · exact BitVec.eq_of_toNat_eq (beBytes_inj a.communityId.isLt b.communityId.isLt hcommunity)
  · exact Int64.toBitVec_inj.mp (BitVec.eq_of_toNat_eq
      (beBytes_inj a.seq.toBitVec.isLt b.seq.toBitVec.isLt hseq))
  · exact DateTime.toRfc3339_inj (utf8_inj htime)
  · exact AuditAction.asStr_inj (utf8_inj hname)
  · rw [hopen a, hopen b, hs, ht, List.cons_append, List.cons_append, htag, htail]

/-! ### What is bound when the fields are framed alike -/

/-- Agreement on every hashed field, details up to the order of names. -/
structure SameFields (a b : AuditEntry) : Prop where
  communityId : a.communityId = b.communityId
  seq : a.seq = b.seq
  action : a.action = b.action
  actorPubkey : a.actorPubkey = b.actorPubkey
  objectId : a.objectId = b.objectId
  prevHash : a.prevHash = b.prevHash
  createdAt : a.createdAt.truncMicros = b.createdAt.truncMicros
  detail : sortKeys a.detail.json = sortKeys b.detail.json

/-- The optional fields are present alike and the fields without a fixed end have equal lengths. -/
structure SameFraming (a b : AuditEntry) : Prop where
  actorPubkey : a.actorPubkey.map List.length = b.actorPubkey.map List.length
  objectId : (a.objectId.map fun id => (utf8 id).length) = b.objectId.map fun id => (utf8 id).length
  detail : (utf8 (canonicalJson a.detail.json)).length = (utf8 (canonicalJson b.detail.json)).length
  prevHash : a.prevHash = none ↔ b.prevHash = none

theorem SameFields.sameFraming {a b : AuditEntry} (h : SameFields a b) : SameFraming a b := by
  refine ⟨?_, ?_, ?_, ?_⟩
  · rw [h.actorPubkey]
  · rw [h.objectId]
  · rw [canonicalJson_eq_render, canonicalJson_eq_render, h.detail]
  · rw [h.prevHash]

theorem tagged_inj {s t : Option (List UInt8)} (h : tagged s = tagged t) : s = t := by
  cases s with
  | none =>
    cases t with
    | none => rfl
    | some bytes => exact absurd (List.cons.inj h).1 (by decide)
  | some bytes =>
    cases t with
    | none => exact absurd (List.cons.inj h).1 (by decide)
    | some bytes' => exact congrArg some (List.cons.inj h).2

theorem length_tagged {s t : Option (List UInt8)} (h : s.map List.length = t.map List.length) :
    (tagged s).length = (tagged t).length := by
  cases s with
  | none =>
    cases t with
    | none => rfl
    | some bytes => cases h
  | some bytes =>
    cases t with
    | none => cases h
    | some bytes' =>
      rw [tagged, tagged, List.length_cons, List.length_cons, Option.some.inj h]

/-- Of two entries that hash the same bytes, those framed alike agree on every field. -/
theorem SameFraming.sameFields {a b : AuditEntry} (hframing : SameFraming a b)
    (h : preimage a = preimage b) : SameFields a b := by
  obtain ⟨hcommunity, hseq, htime, haction, hopen⟩ := head_eq_of_preimage_eq h
  obtain ⟨hactor, hopen⟩ := List.append_inj hopen (length_tagged hframing.actorPubkey)
  have hlength :
      ((a.objectId.map utf8).map List.length) = (b.objectId.map utf8).map List.length := by
    rw [Option.map_map, Option.map_map]
    exact hframing.objectId
  obtain ⟨hobject, hopen⟩ := List.append_inj hopen (length_tagged hlength)
  obtain ⟨hdetail, hprev⟩ := List.append_inj hopen hframing.detail
  refine ⟨hcommunity, hseq, haction, tagged_inj hactor, ?_, ?_, htime, ?_⟩
  · exact Option.map_injective (fun _ _ => utf8_inj) (tagged_inj hobject)
  · cases hpa : a.prevHash with
    | none => exact (hframing.prevHash.mp hpa).symm
    | some hash =>
      cases hpb : b.prevHash with
      | none =>
        rw [hframing.prevHash.mpr hpb] at hpa
        cases hpa
      | some hash' =>
        rw [hpa, hpb] at hprev
        exact congrArg some hprev
  · exact sortKeys_eq_of_canonicalJson_eq (utf8_inj hdetail)

/-- Two entries that hash the same bytes agree on every field exactly when they are framed alike. -/
theorem sameFields_iff_sameFraming {a b : AuditEntry} (h : preimage a = preimage b) :
    SameFields a b ↔ SameFraming a b :=
  ⟨SameFields.sameFraming, fun hframing => hframing.sameFields h⟩

end Buzz.Audit
