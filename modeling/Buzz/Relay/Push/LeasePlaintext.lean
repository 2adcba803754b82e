import Mathlib.Algebra.Group.Nat.Defs
import Buzz.Core.Filter
import Buzz.Library.FixedWidth
import Buzz.Library.JsonMembers
import Buzz.Library.Outcome
import Buzz.Library.Text

/-!
# The plaintext of a push lease

`parse_plaintext` and `validate_plaintext` of `crates/buzz-relay/src/handlers/push_lease.rs`. The
text of a lease is one JSON object, no object in it repeats a name, and its members are those of an
active lease or those of an inactive one. The filters of an active lease, by which the relay is to
choose the events that wake the author, name few kinds, and the author or others exactly.

A text is parsed as a whole before its names are looked at, where the source visits it as it is
parsed: of two errors in one text the other one may be reported. The texts of the errors of the
JSON library are not modelled, and neither are its bounds on the depth of a text and on the size of
a fraction: a lease that is accepted in the end is not that deep and has no fractions.

## Main definitions

* `LeasePlaintext`, `Subscription`, `LeaseLimits`.
* `parsePlaintext`, `validatePlaintext`.
* `Confined`: what a filter may say.

## Main results

* `noDuplicates_eq_ok`: a value that is accepted repeats no name.
* `parsePlaintext_eq_ok`: the members of an accepted text.
* `validatePlaintext_eq_ok`: the subscriptions of an accepted lease.
-/

namespace Buzz.Relay.Push.PushLease

open Buzz.Library
open Buzz.Core (Uuid uuidToString)

/-! ### Leases -/

structure Suppress where
  pTagsMax : UInt64

structure Subscription where
  filter : Members
  class' : List Char
  ignore : List Members
  suppress : Option Suppress

structure LeasePlaintext where
  v : UInt64
  origin : List Char
  generation : UInt64
  active : Bool
  appProfile : Option (List Char)
  transport : Option (List Char)
  endpoint : Option (List Char)
  subscriptions : Option (List Subscription)

structure AppProfile where
  id : List Char
  transport : List Char

structure LeaseLimits where
  expectedOrigin : List Char
  authorHex : List Char
  appProfiles : List AppProfile
  supportedClasses : List (List Char)
  pushKinds : List UInt64
  urgentKinds : List UInt64
  maxSubscriptions : ℕ
  maxKinds : ℕ
  maxAuthors : ℕ
  maxH : ℕ
  maxTagValues : ℕ
  maxIgnore : ℕ
  maxEndpointLen : ℕ
  maxStringLen : ℕ

/-- Why a lease is rejected. -/
inductive LeaseError
  /-- An error of the JSON library on the text. -/
  | json
  /-- `duplicate object key: {key}`, with a place in the text. -/
  | duplicateKey (key : List Char)
  /-- `invalid lease schema`, with the reason of the JSON library. -/
  | schema
  | text (message : String)
  deriving DecidableEq

/-! ### Reading a value -/

/-- `deny_unknown_fields`. -/
def onlyFields (fields : List String) (ms : Members) : Bool :=
  ms.all fun m => (fields.map String.toList).contains m.1

/-- The value of a member. -/
def member (name : String) (ms : Members) : Option Json := ms.lookup name.toList

/-- A field of an `Option`: `None` when it is missing or null. -/
def readOptional {α : Type} (read : Json → Option α) : Option Json → Option (Option α)
  | none => some none
  | some .null => some none
  | some v => (read v).map some

def writeOptional {α : Type} (write : α → Json) : Option α → Json
  | none => .null
  | some a => write a

/-- A field with a default, for when it is missing. -/
def readDefault {α : Type} (default : α) (read : Json → Option α) : Option Json → Option α
  | none => some default
  | some v => read v

/-- A list whose elements are read alike. -/
def readList {α : Type} (read : Json → Option α) (v : Json) : Option (List α) :=
  v.asArray.bind fun vs => vs.mapM read

/-- The derived reader takes the members by their names or, from an array, by their order. -/
def Suppress.ofJson : Json → Option Suppress
  | .obj ms => if onlyFields ["p_tags_max"] ms then do
      return ⟨← (← member "p_tags_max" ms).asU64⟩
    else none
  | .arr [pTagsMax] => do return ⟨← pTagsMax.asU64⟩
  | _ => none

def Suppress.toJson (m : Suppress) : Json := .obj [("p_tags_max".toList, .int m.pTagsMax.toNat)]

namespace Subscription

def ofFields (filter class' : Json) (ignore suppress : Option Json) : Option Subscription := do
  let filter ← filter.asObject
  let class' ← class'.asStr
  let ignore ← readDefault [] (readList Json.asObject) ignore
  let suppress ← readOptional Suppress.ofJson suppress
  return { filter, class', ignore, suppress }

def ofJson : Json → Option Subscription
  | .obj ms => if onlyFields ["filter", "class", "ignore", "suppress"] ms then do
      ofFields (← member "filter" ms) (← member "class" ms) (member "ignore" ms)
        (member "suppress" ms)
    else none
  | .arr [filter, class', ignore, suppress] => ofFields filter class' (some ignore) (some suppress)
  | _ => none

/-- The value that is stored. -/
def toJson (s : Subscription) : Json :=
  .obj [("filter".toList, .obj s.filter), ("class".toList, .str s.class'),
    ("ignore".toList, .arr (s.ignore.map Json.obj)),
    ("suppress".toList, writeOptional Suppress.toJson s.suppress)]

end Subscription

def LeasePlaintext.ofMembers (ms : Members) : Option LeasePlaintext :=
  if onlyFields ["v", "origin", "generation", "active", "app_profile", "transport", "endpoint",
      "subscriptions"] ms then do
    let v ← (← member "v" ms).asU64
    let origin ← (← member "origin" ms).asStr
    let generation ← (← member "generation" ms).asU64
    let active ← (← member "active" ms).asBool
    let appProfile ← readOptional Json.asStr (member "app_profile" ms)
    let transport ← readOptional Json.asStr (member "transport" ms)
    let endpoint ← readOptional Json.asStr (member "endpoint" ms)
    let subscriptions ← readOptional (readList Subscription.ofJson) (member "subscriptions" ms)
    return { v, origin, generation, active, appProfile, transport, endpoint, subscriptions }
  else none

/-! ### `parse_plaintext` -/

mutual

/-- `NoDuplicates`: the value itself, unless an object in it repeats a name. -/
def noDuplicates : Json → Except LeaseError Json
  | .arr vs => do return .arr (← noDuplicatesSeq vs)
  | .obj ms => do return .obj (← noDuplicatesMap [] ms)
  | v => .ok v

def noDuplicatesSeq : List Json → Except LeaseError (List Json)
  | [] => .ok []
  | v :: vs => do return (← noDuplicates v) :: (← noDuplicatesSeq vs)

/-- The members after those of the names that were seen. -/
def noDuplicatesMap (seen : List (List Char)) : Members → Except LeaseError Members
  | [] => .ok []
  | m :: ms => do
    ensure (m.1 ∉ seen) (.duplicateKey m.1)
    return (m.1, ← noDuplicates m.2) :: (← noDuplicatesMap (m.1 :: seen) ms)

end

/-- The members of a lease, all of them and no others. -/
def requiredMembers (active : Bool) : List String :=
  if active then ["v", "origin", "app_profile", "transport", "endpoint", "generation", "active",
    "subscriptions"]
  else ["v", "origin", "generation", "active"]

/-- An error, if there is something to report. -/
def refuse {α : Type} (e : α → LeaseError) : Option α → Except LeaseError Unit
  | none => .ok ()
  | some a => .error (e a)

def parsePlaintext (input : List Char) (maxPlaintextLen : ℕ) :
    Except LeaseError LeasePlaintext := do
  ensure ((utf8 input).length ≤ maxPlaintextLen) (.text "plaintext too long")
  let value ← okOrError .json (Json.parse input)
  let value ← noDuplicates value
  let object ← okOrError (.text "lease plaintext must be an object") value.asObject
  let active ← okOrError (.text "missing active") (member "active" object)
  let active ← okOrError (.text "active must be a boolean") active.asBool
  let required := requiredMembers active
  refuse (fun key => .text ("missing " ++ key))
    (required.find? fun key => (member key object).isNone)
  refuse (fun m => .text ("unknown field: " ++ String.ofList m.1))
    (object.find? fun m => !(required.map String.toList).contains m.1)
  okOrError .schema (LeasePlaintext.ofMembers object)

/-! ### `validate_plaintext` -/

/-- The largest number that is exact for all that read JSON. -/
def maxSafeJsonInteger : UInt64 := ((1 : UInt64) <<< 53) - 1

def checkString (value : List Char) (max : ℕ) : Except LeaseError Unit :=
  ensure (value ≠ [] ∧ (utf8 value).length ≤ max) (.text "invalid string length")

def checkExactHex (value : List Char) (label : String) : Except LeaseError Unit :=
  ensure ((utf8 value).length = 64 ∧ value.all isLowercaseHex = true)
    (.text ("non-exact match value for " ++ label))

/-- The hyphenated form of a UUID, of digits of either case. -/
def parseHyphenated (text : List Char) : Option Uuid :=
  match text.splitOn '-' with
  | [a, b, c, d, e] =>
    if a.length = 8 ∧ b.length = 4 ∧ c.length = 4 ∧ d.length = 4 ∧ e.length = 12 then
      decodeHex 32 128 (a ++ b ++ c ++ d ++ e)
    else none
  | _ => none

/-- `Uuid::parse_str`: 32 digits or the hyphenated form, the latter also in braces or as a URN. -/
def parseUuid (text : List Char) : Option Uuid :=
  if text.length = 32 then decodeHex 32 128 text
  else
    match stripStart ['u', 'r', 'n', ':', 'u', 'u', 'i', 'd', ':'] text with
    | some rest => parseHyphenated rest
    | none =>
      match (stripStart ['\x7b'] text).bind (stripEnd ['\x7d']) with
      | some rest => parseHyphenated rest
      | none => parseHyphenated text

/-- `Uuid::get_version_num`. -/
def versionNum (u : Uuid) : ℕ := u.toNat / 2 ^ 76 % 16

def stringOrIntegerArray (filter : Members) (key : String) (max : ℕ) (required : Bool) :
    Except LeaseError (List Json) :=
  match member key filter with
  | none =>
    if required then .error (.text ("missing " ++ key))
    else .error (.text "internal optional-array misuse")
  | some value => do
    let values ← okOrError (.text (key ++ " must be an array")) value.asArray
    ensure (values ≠ [] ∧ values.length ≤ max) (.text ("invalid " ++ key ++ " count"))
    return values

def optionalStringArray (filter : Members) (key : String) (max : ℕ) :
    Except LeaseError (Option (List (List Char))) :=
  match member key filter with
  | none => .ok none
  | some value => do
    let values ← okOrError (.text (key ++ " must be an array")) value.asArray
    ensure (values ≠ [] ∧ values.length ≤ max) (.text ("invalid " ++ key ++ " count"))
    return some (← okOrError (.text (key ++ " values must be strings")) (values.mapM Json.asStr))

/-- The members of a filter. -/
def allowed : List String := ["kinds", "authors", "#p", "#h", "#e"]

/-- A `#p` value is the author. -/
def checkSelf (limits : LeaseLimits) (value : List Char) : Except LeaseError Unit := do
  checkExactHex value "p tag"
  ensure (value = limits.authorHex) (.text "p-tag must be self")

/-- A `#h` value is a channel. -/
def checkChannel (limits : LeaseLimits) (value : List Char) : Except LeaseError Unit := do
  checkString value limits.maxStringLen
  let uuid ← okOrError (.text "invalid h tag") (parseUuid value)
  ensure (versionNum uuid = 4 ∧ (uuidToString uuid).toList = value) (.text "invalid h tag")

def validateFilter (filter : Members) (limits : LeaseLimits) (requireNarrowing : Bool)
    (class' : List Char) : Except LeaseError Unit := do
  refuse (fun m => .text ("filter member not permitted: " ++ String.ofList m.1))
    (filter.find? fun m => !(allowed.map String.toList).contains m.1)
  let kinds ← stringOrIntegerArray filter "kinds" limits.maxKinds true
  let kinds ← okOrError (.text "kind must be an integer") (kinds.mapM Json.asU64)
  ensure (kinds.all limits.pushKinds.contains) (.text "kind not push-eligible")
  ensure (class' = "urgent".toList → kinds.all limits.urgentKinds.contains)
    (.text "class not permitted for kind")
  let authors ← optionalStringArray filter "authors" limits.maxAuthors
  let p ← optionalStringArray filter "#p" limits.maxTagValues
  let h ← optionalStringArray filter "#h" limits.maxH
  let e ← optionalStringArray filter "#e" limits.maxTagValues
  ensure (requireNarrowing = true → authors.isSome ∨ p.isSome ∨ h.isSome)
    (.text "lease filter not narrowed")
  (authors.getD []).forM fun value => checkExactHex value "author"
  (p.getD []).forM fun value => checkSelf limits value
  (h.getD []).forM fun value => checkChannel limits value
  (e.getD []).forM fun value => checkExactHex value "e tag"

def validateSubscription (sub : Subscription) (limits : LeaseLimits) : Except LeaseError Unit := do
  ensure (sub.class' ∈ limits.supportedClasses) (.text "class not supported")
  validateFilter sub.filter limits true sub.class'
  ensure (sub.ignore.length ≤ limits.maxIgnore) (.text "ignore quota exceeded")
  -- An ignored event is none that the lease would see, so these need no narrowing.
  sub.ignore.forM fun filter => validateFilter filter limits false []
  ensure (∀ s ∈ sub.suppress, s.pTagsMax ≠ 0) (.text "p_tags_max must be positive")

def validatePlaintext (body : LeasePlaintext) (limits : LeaseLimits) : Except LeaseError Unit := do
  ensure (body.v = 1) (.text "unsupported version")
  ensure (body.generation ≠ 0 ∧ body.generation ≤ maxSafeJsonInteger)
    (.text "generation must be a positive safe integer")
  ensure (body.origin = limits.expectedOrigin) (.text "origin mismatch")
  checkString body.origin limits.maxStringLen
  if body.active = false then
    ensure (body.appProfile.isNone ∧ body.transport.isNone ∧ body.endpoint.isNone ∧
      body.subscriptions.isNone) (.text "inactive lease must use minimal schema")
  else
    let appProfile ← okOrError (.text "missing app_profile") body.appProfile
    let transport ← okOrError (.text "missing transport") body.transport
    let endpoint ← okOrError (.text "missing endpoint") body.endpoint
    let subscriptions ← okOrError (.text "missing subscriptions") body.subscriptions
    let advertised ← okOrError (.text "app profile not supported")
      (limits.appProfiles.find? fun profile => profile.id = appProfile)
    ensure (transport = advertised.transport) (.text "transport mismatch")
    ensure (endpoint ≠ [] ∧ (utf8 endpoint).length ≤ limits.maxEndpointLen)
      (.text "invalid endpoint length")
    checkString appProfile limits.maxStringLen
    checkString transport limits.maxStringLen
    checkString endpoint limits.maxEndpointLen
    ensure (subscriptions ≠ [] ∧ subscriptions.length ≤ limits.maxSubscriptions)
      (.text "subscription quota exceeded")
    subscriptions.forM fun subscription => validateSubscription subscription limits

/-! ### No repeated names -/

mutual

/-- `NoDuplicates` is the visitor that refuses repeated names, with an error of its own. -/
theorem noDuplicates_eq : ∀ v, noDuplicates v = Json.strict .duplicateKey v
  | .arr vs => by rw [noDuplicates, Json.strict, noDuplicatesSeq_eq]
  | .obj ms => by rw [noDuplicates, Json.strict, noDuplicatesMap_eq]
  | .null => rfl
  | .bool _ => rfl
  | .int _ => rfl
  | .float _ => rfl
  | .str _ => rfl

theorem noDuplicatesSeq_eq : ∀ vs, noDuplicatesSeq vs = Json.strictElems .duplicateKey vs
  | [] => rfl
  | v :: vs => by
    rw [noDuplicatesSeq, Json.strictElems, noDuplicates_eq v, noDuplicatesSeq_eq vs]

theorem noDuplicatesMap_eq : ∀ seen ms,
    noDuplicatesMap seen ms = Json.strictMembers .duplicateKey seen ms
  | _, [] => rfl
  | seen, m :: ms => by
    rw [noDuplicatesMap, Json.strictMembers, noDuplicates_eq m.2, noDuplicatesMap_eq (m.1 :: seen)]

end

/-- A value without repeated names is accepted as it is. -/
theorem noDuplicates_eq_ok {v w : Json} (h : noDuplicates v = .ok w) :
    w = v ∧ v.DistinctNames := by
  rw [noDuplicates_eq] at h
  exact Json.strict_eq_ok_iff.mp h

/-! ### What is accepted -/

theorem refuse_eq_ok {α : Type} {e : α → LeaseError} {o : Option α} {u : Unit}
    (h : refuse e o = .ok u) : o = none := by
  cases o with
  | none => rfl
  | some a => cases h

/-- A member has a value if its name is among the names. -/
theorem member_isSome_iff {name : String} {ms : Members} :
    (member name ms).isSome = true ↔ name.toList ∈ ms.map Prod.fst := by
  rw [member, List.lookup_isSome_iff, List.mem_map]
  exact exists_congr fun m => and_congr_right fun _ => beq_iff_eq.trans eq_comm

/-- A lease is active if its member says so. -/
theorem active_of_ofMembers {ms : Members} {body : LeasePlaintext}
    (h : LeasePlaintext.ofMembers ms = some body) :
    ∃ v, member "active" ms = some v ∧ v.asBool = some body.active := by
  rw [LeasePlaintext.ofMembers] at h
  obtain ⟨-, h⟩ := Option.ite_none_right_eq_some.mp h
  simp only [Option.bind_eq_bind, Option.bind_eq_some_iff] at h
  obtain ⟨_, -, _, -, _, -, _, -, _, -, _, -, value, hvalue, active, hactive, _, -, _, -, _, -, _,
    -, hbody⟩ := h
  obtain rfl := Option.some_inj.mp hbody
  exact ⟨value, hvalue, hactive⟩

/-- The names of an accepted text, and the lease that it says. -/
theorem parsePlaintext_eq_ok {input : List Char} {maxPlaintextLen : ℕ} {body : LeasePlaintext}
    (h : parsePlaintext input maxPlaintextLen = .ok body) :
    ∃ ms, Json.parse input = some (.obj ms) ∧ (Json.obj ms).DistinctNames ∧
      (∀ name, name ∈ ms.map Prod.fst ↔ name ∈ (requiredMembers body.active).map String.toList) ∧
      LeasePlaintext.ofMembers ms = some body := by
  rw [parsePlaintext] at h
  obtain ⟨⟨⟩, -, h⟩ := bind_eq_ok.mp h
  obtain ⟨value, hvalue, h⟩ := bind_eq_ok.mp h
  obtain ⟨value', hdistinct, h⟩ := bind_eq_ok.mp h
  obtain ⟨ms, hms, h⟩ := bind_eq_ok.mp h
  obtain ⟨v, hv, h⟩ := bind_eq_ok.mp h
  obtain ⟨active, hactive, h⟩ := bind_eq_ok.mp h
  obtain ⟨⟨⟩, hmissing, h⟩ := bind_eq_ok.mp h
  obtain ⟨⟨⟩, hunknown, hbody⟩ := bind_eq_ok.mp h
  obtain ⟨rfl, hdistinct⟩ := noDuplicates_eq_ok hdistinct
  obtain rfl := Json.asObject_eq_some_iff.mp (okOrError_eq_ok.mp hms)
  have hbody := okOrError_eq_ok.mp hbody
  obtain ⟨v', hv', hactive'⟩ := active_of_ofMembers hbody
  obtain rfl := Option.some_inj.mp ((okOrError_eq_ok.mp hv).symm.trans hv')
  obtain rfl := Option.some_inj.mp ((okOrError_eq_ok.mp hactive).symm.trans hactive')
  refine ⟨ms, okOrError_eq_ok.mp hvalue, hdistinct, fun name => ⟨fun hname => ?_, fun hname => ?_⟩,
    hbody⟩
  · obtain ⟨m, hm, rfl⟩ := List.mem_map.mp hname
    have hknown := List.find?_eq_none.mp (refuse_eq_ok hunknown) m hm
    simpa using hknown
  · obtain ⟨key, hkey, rfl⟩ := List.mem_map.mp hname
    have hpresent := List.find?_eq_none.mp (refuse_eq_ok hmissing) key hkey
    rw [← member_isSome_iff, Option.isSome_iff_ne_none]
    simpa using hpresent

/-- A list of texts under a name, if there is one, is not empty or too long, and its texts
satisfy `P`. -/
def Texts (filter : Members) (key : String) (max : ℕ) (P : List Char → Prop) : Prop :=
  ∀ v, member key filter = some v → ∃ texts : List (List Char), v = .arr (texts.map .str) ∧
    texts ≠ [] ∧ texts.length ≤ max ∧ ∀ t ∈ texts, P t

/-- 64 lowercase hexadecimal digits. -/
def IsExactHex (value : List Char) : Prop :=
  value.length = 64 ∧ ∀ c ∈ value, isLowercaseHex c = true

/-- The canonical text of a UUID of version 4. -/
def IsChannel (value : List Char) : Prop :=
  ∃ u : Uuid, versionNum u = 4 ∧ value = (uuidToString u).toList

/-- What a filter may say. -/
structure Confined (limits : LeaseLimits) (filter : Members) : Prop where
  members : ∀ m ∈ filter, m.1 ∈ allowed.map String.toList
  kinds : ∃ kinds : List UInt64,
    member "kinds" filter = some (.arr (kinds.map fun k => .int k.toNat)) ∧ kinds ≠ [] ∧
      kinds.length ≤ limits.maxKinds ∧ ∀ k ∈ kinds, k ∈ limits.pushKinds
  authors : Texts filter "authors" limits.maxAuthors IsExactHex
  p : Texts filter "#p" limits.maxTagValues (· = limits.authorHex)
  h : Texts filter "#h" limits.maxH IsChannel
  e : Texts filter "#e" limits.maxTagValues IsExactHex

/-- The filter chooses by an author, by a `#p` tag or by a channel. -/
def Narrowed (filter : Members) : Prop :=
  (member "authors" filter).isSome ∨ (member "#p" filter).isSome ∨ (member "#h" filter).isSome

theorem isExactHex_of_check {value : List Char} {label : String}
    (h : checkExactHex value label = .ok ()) : IsExactHex value := by
  obtain ⟨hlength, hall⟩ := ensure_eq_ok.mp h
  have hdigits := List.all_eq_true.mp hall
  rw [length_utf8_of_ascii fun c hc => toNat_le_of_isLowercaseHex (hdigits c hc)] at hlength
  exact ⟨hlength, hdigits⟩

theorem eq_author_of_check {limits : LeaseLimits} {value : List Char}
    (h : checkSelf limits value = .ok ()) : value = limits.authorHex := by
  obtain ⟨⟨⟩, -, h⟩ := bind_eq_ok.mp h
  exact ensure_eq_ok.mp h

theorem isChannel_of_check {limits : LeaseLimits} {value : List Char}
    (h : checkChannel limits value = .ok ()) : IsChannel value := by
  obtain ⟨⟨⟩, -, h⟩ := bind_eq_ok.mp h
  obtain ⟨uuid, -, h⟩ := bind_eq_ok.mp h
  obtain ⟨hversion, htext⟩ := ensure_eq_ok.mp h
  exact ⟨uuid, hversion, htext.symm⟩

/-- An optional list that is read, and the check of its texts. -/
theorem texts_of_array {filter : Members} {key : String} {max : ℕ}
    {o : Option (List (List Char))} (h : optionalStringArray filter key max = .ok o)
    {check : List Char → Except LeaseError Unit} (hcheck : (o.getD []).forM check = .ok ())
    {P : List Char → Prop} (hP : ∀ value, check value = .ok () → P value) :
    Texts filter key max P ∧ o.isSome = (member key filter).isSome := by
  rw [optionalStringArray] at h
  cases hmember : member key filter with
  | none =>
    rw [hmember] at h
    obtain rfl := Except.ok.inj h
    refine ⟨fun v hv => ?_, rfl⟩
    rw [hmember] at hv
    cases hv
  | some value =>
    rw [hmember] at h
    obtain ⟨values, hvalues, h⟩ := bind_eq_ok.mp h
    obtain ⟨⟨⟩, hcount, h⟩ := bind_eq_ok.mp h
    obtain ⟨texts, htexts, ho⟩ := bind_eq_ok.mp h
    obtain rfl := Except.ok.inj ho
    obtain rfl := Json.asArray_eq_some_iff.mp (okOrError_eq_ok.mp hvalues)
    obtain rfl : values = texts.map .str := eq_map_of_mapM
      (fun _ _ ht => Json.asStr_eq_some_iff.mp ht) (okOrError_eq_ok.mp htexts)
    obtain ⟨hne, hmax⟩ := ensure_eq_ok.mp hcount
    refine ⟨fun v hv => ?_, rfl⟩
    obtain rfl := Option.some_inj.mp (hmember.symm.trans hv)
    refine ⟨texts, rfl, fun hnil => hne (hnil ▸ rfl), by simpa using hmax, fun t ht => ?_⟩
    exact hP t (forM_eq_ok_iff.mp hcheck t ht)

/-- The required list of kinds. -/
theorem kinds_of_array {filter : Members} {max : ℕ} {values : List Json} {kinds : List UInt64}
    {e : LeaseError} {pushKinds : List UInt64}
    (h : stringOrIntegerArray filter "kinds" max true = .ok values)
    (hkinds : okOrError e (values.mapM Json.asU64) = .ok kinds)
    (hpush : ∀ kind ∈ kinds, kind ∈ pushKinds) :
    ∃ kinds : List UInt64,
      member "kinds" filter = some (.arr (kinds.map fun k => .int k.toNat)) ∧ kinds ≠ [] ∧
        kinds.length ≤ max ∧ ∀ k ∈ kinds, k ∈ pushKinds := by
  rw [stringOrIntegerArray] at h
  cases hmember : member "kinds" filter with
  | none =>
    rw [hmember] at h
    cases h
  | some value =>
    rw [hmember] at h
    obtain ⟨values', hvalues, h⟩ := bind_eq_ok.mp h
    obtain ⟨⟨⟩, hcount, hpure⟩ := bind_eq_ok.mp h
    obtain rfl := Except.ok.inj hpure
    obtain rfl := Json.asArray_eq_some_iff.mp (okOrError_eq_ok.mp hvalues)
    obtain rfl : values' = kinds.map fun k => .int k.toNat := eq_map_of_mapM
      (fun _ _ hk => Json.asU64_eq_some_iff.mp hk) (okOrError_eq_ok.mp hkinds)
    obtain ⟨hne, hmax⟩ := ensure_eq_ok.mp hcount
    exact ⟨kinds, rfl, fun hnil => hne (hnil ▸ rfl), by simpa using hmax, hpush⟩

theorem validateFilter_eq_ok {filter : Members} {limits : LeaseLimits} {requireNarrowing : Bool}
    {class' : List Char} (h : validateFilter filter limits requireNarrowing class' = .ok ()) :
    Confined limits filter ∧ (requireNarrowing = true → Narrowed filter) := by
  rw [validateFilter] at h
  obtain ⟨⟨⟩, hmembers, h⟩ := bind_eq_ok.mp h
  obtain ⟨values, hvalues, h⟩ := bind_eq_ok.mp h
  obtain ⟨kinds, hkinds, h⟩ := bind_eq_ok.mp h
  obtain ⟨⟨⟩, hpush, h⟩ := bind_eq_ok.mp h
  obtain ⟨⟨⟩, -, h⟩ := bind_eq_ok.mp h
  obtain ⟨authors, hauthors, h⟩ := bind_eq_ok.mp h
  obtain ⟨p, hp, h⟩ := bind_eq_ok.mp h
  obtain ⟨channels, hchannels, h⟩ := bind_eq_ok.mp h
  obtain ⟨e, he, h⟩ := bind_eq_ok.mp h
  obtain ⟨⟨⟩, hnarrowed, h⟩ := bind_eq_ok.mp h
  obtain ⟨⟨⟩, hcheckAuthors, h⟩ := bind_eq_ok.mp h
  obtain ⟨⟨⟩, hcheckP, h⟩ := bind_eq_ok.mp h
  obtain ⟨⟨⟩, hcheckChannels, hcheckE⟩ := bind_eq_ok.mp h
  obtain ⟨hauthors, hauthorsSome⟩ := texts_of_array hauthors hcheckAuthors
    fun _ => isExactHex_of_check
  obtain ⟨hp, hpSome⟩ := texts_of_array hp hcheckP fun _ => eq_author_of_check
  obtain ⟨hchannels, hchannelsSome⟩ := texts_of_array hchannels hcheckChannels
    fun _ => isChannel_of_check
  obtain ⟨he, -⟩ := texts_of_array he hcheckE fun _ => isExactHex_of_check
  refine ⟨⟨fun m hm => ?_, ?_, hauthors, hp, hchannels, he⟩, fun hnarrow => ?_⟩
  · have hknown := List.find?_eq_none.mp (refuse_eq_ok hmembers) m hm
    simpa using hknown
  · refine kinds_of_array hvalues hkinds fun kind hkind => ?_
    simpa using List.all_eq_true.mp (ensure_eq_ok.mp hpush) kind hkind
  · rw [Narrowed, ← hauthorsSome, ← hpSome, ← hchannelsSome]
    exact ensure_eq_ok.mp hnarrowed hnarrow

/-- What a subscription may say. -/
structure Subscription.Accepted (limits : LeaseLimits) (s : Subscription) : Prop where
  supported : s.class' ∈ limits.supportedClasses
  filter : Confined limits s.filter
  narrowed : Narrowed s.filter
  ignoreCount : s.ignore.length ≤ limits.maxIgnore
  ignore : ∀ filter ∈ s.ignore, Confined limits filter
  suppress : ∀ m ∈ s.suppress, m.pTagsMax ≠ 0

theorem validateSubscription_eq_ok {s : Subscription} {limits : LeaseLimits}
    (h : validateSubscription s limits = .ok ()) : s.Accepted limits := by
  rw [validateSubscription] at h
  obtain ⟨⟨⟩, hclass, h⟩ := bind_eq_ok.mp h
  obtain ⟨⟨⟩, hfilter, h⟩ := bind_eq_ok.mp h
  obtain ⟨⟨⟩, hcount, h⟩ := bind_eq_ok.mp h
  obtain ⟨⟨⟩, hignore, hsuppress⟩ := bind_eq_ok.mp h
  obtain ⟨hconfined, hnarrowed⟩ := validateFilter_eq_ok hfilter
  exact {
    supported := ensure_eq_ok.mp hclass
    filter := hconfined
    narrowed := hnarrowed rfl
    ignoreCount := ensure_eq_ok.mp hcount
    ignore := fun filter hmem =>
      (validateFilter_eq_ok (forM_eq_ok_iff.mp hignore filter hmem)).1
    suppress := ensure_eq_ok.mp hsuppress }

/-- The subscriptions of an active lease. -/
theorem validatePlaintext_eq_ok {body : LeasePlaintext} {limits : LeaseLimits}
    (h : validatePlaintext body limits = .ok ()) (hactive : body.active = true) :
    ∃ subs, body.subscriptions = some subs ∧ subs ≠ [] ∧ subs.length ≤ limits.maxSubscriptions ∧
      ∀ s ∈ subs, s.Accepted limits := by
  rw [validatePlaintext] at h
  obtain ⟨⟨⟩, -, h⟩ := bind_eq_ok.mp h
  obtain ⟨⟨⟩, -, h⟩ := bind_eq_ok.mp h
  obtain ⟨⟨⟩, -, h⟩ := bind_eq_ok.mp h
  obtain ⟨⟨⟩, -, h⟩ := bind_eq_ok.mp h
  rw [if_neg (by simp [hactive])] at h
  obtain ⟨_, -, h⟩ := bind_eq_ok.mp h
  obtain ⟨_, -, h⟩ := bind_eq_ok.mp h
  obtain ⟨_, -, h⟩ := bind_eq_ok.mp h
  obtain ⟨subs, hsubs, h⟩ := bind_eq_ok.mp h
  obtain ⟨_, -, h⟩ := bind_eq_ok.mp h
  obtain ⟨⟨⟩, -, h⟩ := bind_eq_ok.mp h
  obtain ⟨⟨⟩, -, h⟩ := bind_eq_ok.mp h
  obtain ⟨⟨⟩, -, h⟩ := bind_eq_ok.mp h
  obtain ⟨⟨⟩, -, h⟩ := bind_eq_ok.mp h
  obtain ⟨⟨⟩, -, h⟩ := bind_eq_ok.mp h
  obtain ⟨⟨⟩, hcount, hall⟩ := bind_eq_ok.mp h
  obtain ⟨hne, hmax⟩ := ensure_eq_ok.mp hcount
  exact ⟨subs, okOrError_eq_ok.mp hsubs, hne, hmax, fun s hs =>
    validateSubscription_eq_ok (forM_eq_ok_iff.mp hall s hs)⟩

/-! ### The filters in the text -/

variable {v : Json} {s : Subscription}

theorem within_of_ofFields {filter class' : Json} {ignore suppress : Option Json}
    (h : Subscription.ofFields filter class' ignore suppress = some s)
    (hfilter : Json.Within filter v) : Json.Within (.obj s.filter) v := by
  obtain ⟨ms, hms, h⟩ := Option.bind_eq_some_iff.mp h
  obtain ⟨_, -, h⟩ := Option.bind_eq_some_iff.mp h
  obtain ⟨_, -, h⟩ := Option.bind_eq_some_iff.mp h
  obtain ⟨_, -, h⟩ := Option.bind_eq_some_iff.mp h
  obtain rfl := Option.some_inj.mp h
  rwa [Json.asObject_eq_some_iff.mp hms] at hfilter

/-- The filter of a subscription that is read is an object of the value. -/
theorem filter_within (h : Subscription.ofJson v = some s) : Json.Within (.obj s.filter) v := by
  unfold Subscription.ofJson at h
  split at h
  · obtain ⟨-, h⟩ := Option.ite_none_right_eq_some.mp h
    obtain ⟨filter, hfilter, h⟩ := Option.bind_eq_some_iff.mp h
    obtain ⟨class', -, h⟩ := Option.bind_eq_some_iff.mp h
    exact within_of_ofFields h (.of_lookup hfilter)
  · exact within_of_ofFields h (.elem List.mem_cons_self .refl)
  · cases h

theorem exists_of_readOptional {α : Type} {read : Json → Option α} {o : Option Json} {a : α}
    (h : readOptional read o = some (some a)) : ∃ v, o = some v ∧ read v = some a := by
  unfold readOptional at h
  split at h
  · cases h
  · cases h
  · next v _ =>
    obtain ⟨a', ha', heq⟩ := Option.map_eq_some_iff.mp h
    obtain rfl := Option.some_inj.mp heq
    exact ⟨v, rfl, ha'⟩

/-- What is read from a list is read from one of its elements. -/
theorem exists_of_mem_readList {α : Type} {read : Json → Option α} {as : List α}
    (h : readList read v = some as) {a : α} (ha : a ∈ as) :
    ∃ w, Json.Within w v ∧ read w = some a := by
  obtain ⟨vs, hvs, has⟩ := Option.bind_eq_some_iff.mp h
  obtain rfl := Json.asArray_eq_some_iff.mp hvs
  obtain ⟨w, hw, hread⟩ := exists_of_mem_mapM_some has ha
  exact ⟨w, .elem hw .refl, hread⟩

/-- The filters of a lease are objects of its text. -/
theorem filters_within {ms : Members} {body : LeasePlaintext} {subs : List Subscription}
    (h : LeasePlaintext.ofMembers ms = some body) (hsubs : body.subscriptions = some subs) :
    ∀ s ∈ subs, Json.Within (.obj s.filter) (.obj ms) := by
  rw [LeasePlaintext.ofMembers] at h
  obtain ⟨-, h⟩ := Option.ite_none_right_eq_some.mp h
  simp only [Option.bind_eq_bind, Option.bind_eq_some_iff] at h
  obtain ⟨_, -, _, -, _, -, _, -, _, -, _, -, _, -, _, -, _, -, _, -, _, -, read, hread, hbody⟩ := h
  obtain rfl := Option.some_inj.mp hbody
  obtain rfl : read = some subs := hsubs
  obtain ⟨v, hv, hlist⟩ := exists_of_readOptional hread
  intro s hs
  obtain ⟨w, hw, hs⟩ := exists_of_mem_readList hlist hs
  exact (filter_within hs).trans (hw.trans (.of_lookup hv))

end Buzz.Relay.Push.PushLease
