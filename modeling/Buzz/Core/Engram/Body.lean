import Buzz.Core.Engram.Slug
import Buzz.Library.JsonGrammar
import Buzz.Library.JsonMembers

/-!
# Bodies of engrams

`Body`, `write_json_string` and `parse_strict_json` of `crates/buzz-core/src/engram.rs`. The JSON
reader below the visitor is a parser of the whole grammar; the limits that `serde_json` sets on the
depth of a text and on its numbers would only reject more texts.

## Main definitions

* `Body`, `Body.toJsonBytes`, `Body.fromJsonBytes`.
* `writeJsonString`: the strings as they are written.
* `strictValue`: the visitor that refuses repeated names.

## Main results

* `Body.fromJsonBytes_eq_ok_iff`: the bytes that are read as a given body.
* `Body.json_round_trip`: bodies are read back, and what is read has a text of its own.
-/

namespace Buzz.Core.Engram

open Library

/-! ### Writing -/

/-- A decoded engram body. The slug discriminates the variant. -/
inductive Body
  | core (profile : List Char)
  /-- One logical entry; without a value, a tombstone. -/
  | memory (slug : List Char) (value : Option (List Char))
  deriving DecidableEq, Repr

def writeJsonChar (c : Char) : List Char :=
  if c = '"' then ['\\', '"']
  else if c = '\\' then ['\\', '\\']
  else if c = Char.ofNat 0x08 then ['\\', 'b']
  else if c = Char.ofNat 0x0c then ['\\', 'f']
  else if c = '\n' then ['\\', 'n']
  else if c = '\r' then ['\\', 'r']
  else if c = '\t' then ['\\', 't']
  else if c.toNat < 0x20 then '\\' :: 'u' :: hexDigits 4 c.toNat
  else [c]

def writeJsonString (s : List Char) : List Char := '"' :: (s.flatMap writeJsonChar ++ ['"'])

namespace Body

def slug : Body → List Char
  | core _ => coreSlug
  | memory slug _ => slug

/-- What follows the slug. -/
def writeRest : Body → List Char
  | memory _ (some value) => ",\"value\":".toList ++ writeJsonString value
  | memory _ none => ",\"value\":null".toList
  | core profile => ",\"profile\":".toList ++ writeJsonString profile

def toJsonBytes (body : Body) : List UInt8 :=
  utf8 ('{' :: ("\"slug\":".toList ++ writeJsonString body.slug ++ body.writeRest ++ ['}']))

end Body

/-! ### Reading -/

/-- `StrictValue`: the value itself, unless an object in it repeats a name. -/
def strictValue (value : Json) : Except EngramError Json := value.strict fun _ => .invalidJson

def parseStrictJson (bytes : List UInt8) : Except EngramError Json := do
  let text ← okOrError .invalidJson (utf8Decode bytes)
  let value ← okOrError .invalidJson (Json.parse text)
  strictValue value

/-- A member that has to be a string. -/
def stringMember (notString missing : String) : Option Json → Except EngramError (List Char)
  | some (.str s) => .ok s
  | some _ => .error (.invalidBody notString)
  | none => .error (.invalidBody missing)

/-- The value of a memory, `null` for a tombstone. -/
def valueMember : Option Json → Except EngramError (Option (List Char))
  | some (.str s) => .ok (some s)
  | some .null => .ok none
  | some _ => .error (.invalidBody "`value` is not a string")
  | none => .error (.invalidBody "memory missing `value`")

def Body.fromJsonBytes (bytes : List UInt8) : Except EngramError Body := do
  let raw ← parseStrictJson bytes
  let obj ← okOrError (.invalidBody "top-level not an object") raw.asObject
  let slug ← stringMember "`slug` is not a string" "missing `slug`" (obj.lookup "slug".toList)
  validateSlug slug
  if slug = coreSlug then do
    let profile ← stringMember "`profile` is not a string" "core missing `profile`"
      (obj.lookup "profile".toList)
    return core profile
  else do
    let value ← valueMember (obj.lookup "value".toList)
    return memory slug value

/-! ### The written text -/

variable {bytes : List UInt8}

/-- The bytes that are read as a value are its text, in which no object repeats a name. -/
theorem parseStrictJson_eq_ok_iff {v : Json} : parseStrictJson bytes = .ok v ↔
    ∃ text, bytes = utf8 text ∧ Json.parse text = some v ∧ v.DistinctNames := by
  rw [parseStrictJson]
  simp only [strictValue, bind_eq_ok, okOrError_eq_ok, utf8Decode_eq_some_iff,
    Json.strict_eq_ok_iff]
  constructor
  · rintro ⟨text, hbytes, _, hparse, rfl, hdistinct⟩
    exact ⟨text, hbytes, hparse, hdistinct⟩
  · rintro ⟨text, rfl, hparse, hdistinct⟩
    exact ⟨text, rfl, v, hparse, rfl, hdistinct⟩

theorem hexDigits_control : ∀ n < 32,
    hexDigits 4 n = ['0', '0', hexDigit (n / 16), hexDigit (n % 16)] := by decide

/-- The escapes are those of the compact text. -/
theorem writeJsonChar_eq (c : Char) : writeJsonChar c = Json.escapeChar c := by
  have hb : c = Char.ofNat 0x08 ↔ c.toNat = 8 := Char.toNat_inj.symm
  have hf : c = Char.ofNat 0x0c ↔ c.toNat = 12 := Char.toNat_inj.symm
  by_cases hn : c = '\n'
  · rw [hn]
    decide
  by_cases hr : c = '\r'
  · rw [hr]
    decide
  by_cases ht : c = '\t'
  · rw [ht]
    decide
  simp only [writeJsonChar, Json.escapeChar, hb, hf, if_neg hn, if_neg hr, if_neg ht]
  split_ifs with hquote hslash hback hfeed hcontrol
  · rfl
  · rfl
  · rfl
  · rfl
  · rw [hexDigits_control c.toNat hcontrol]
  · rfl

theorem writeJsonString_eq (s : List Char) : writeJsonString s = Json.quote s := by
  rw [writeJsonString, Json.quote, funext writeJsonChar_eq]

namespace Body

/-- The member after the slug. -/
def restMember : Body → List Char × Json
  | core profile => ("profile".toList, .str profile)
  | memory _ (some value) => ("value".toList, .str value)
  | memory _ none => ("value".toList, .null)

def toJson (body : Body) : Json :=
  .obj [("slug".toList, .str body.slug), body.restMember]

theorem writeRest_eq (body : Body) : body.writeRest =
    ',' :: (Json.quote body.restMember.1 ++ ':' :: body.restMember.2.render) := by
  have hprofile : ",\"profile\":".toList = ',' :: (Json.quote "profile".toList ++ [':']) := by
    decide
  have hvalue : ",\"value\":".toList = ',' :: (Json.quote "value".toList ++ [':']) := by decide
  have hnull : ",\"value\":null".toList =
      ',' :: (Json.quote "value".toList ++ ':' :: ['n', 'u', 'l', 'l']) := by decide
  have hmember (name value : List Char) : ',' :: (Json.quote name ++ [':']) ++ value =
      ',' :: (Json.quote name ++ ':' :: value) := by
    rw [List.cons_append, List.append_assoc, List.singleton_append]
  cases body with
  | core profile =>
    change ",\"profile\":".toList ++ writeJsonString profile =
      ',' :: (Json.quote "profile".toList ++ ':' :: Json.quote profile)
    rw [hprofile, hmember, writeJsonString_eq]
  | memory slug value =>
    cases value with
    | none => exact hnull
    | some value =>
      change ",\"value\":".toList ++ writeJsonString value =
        ',' :: (Json.quote "value".toList ++ ':' :: Json.quote value)
      rw [hvalue, hmember, writeJsonString_eq]

/-- What is written is a compact text. -/
theorem toJsonBytes_eq (body : Body) : body.toJsonBytes = utf8 body.toJson.render := by
  have hslug : "\"slug\":".toList = Json.quote "slug".toList ++ [':'] := by decide
  rw [toJsonBytes, hslug, writeJsonString_eq, writeRest_eq, toJson]
  simp only [Json.render, Json.renderMembers, List.append_assoc, List.cons_append, List.nil_append]

theorem integral_toJson (body : Body) : body.toJson.Integral := by
  cases body with
  | core profile => exact ⟨trivial, trivial, trivial⟩
  | memory slug value => cases value <;> exact ⟨trivial, trivial, trivial⟩

/-- The name after the slug is another. -/
theorem restMember_fst_ne (body : Body) : body.restMember.1 ≠ "slug".toList := by
  have hprofile : "profile".toList ≠ "slug".toList := by decide
  have hvalue : "value".toList ≠ "slug".toList := by decide
  cases body with
  | core profile => exact hprofile
  | memory slug value => cases value <;> exact hvalue

theorem restMember_memory_fst (slug : List Char) (value : Option (List Char)) :
    (memory slug value).restMember.1 = "value".toList := by
  cases value <;> rfl

theorem distinctNames_toJson (body : Body) : body.toJson.DistinctNames := by
  have hrest : body.restMember.2.DistinctNames := by
    cases body with
    | core profile => exact Json.distinctNames_scalar (by rintro _ ⟨⟩) (by rintro _ ⟨⟩)
    | memory slug value =>
      cases value <;> exact Json.distinctNames_scalar (by rintro _ ⟨⟩) (by rintro _ ⟨⟩)
  have hslug : (Json.str body.slug).DistinctNames :=
    Json.distinctNames_scalar (by rintro _ ⟨⟩) (by rintro _ ⟨⟩)
  refine Json.distinctNames_obj.mpr ⟨?_, ?_⟩
  · simpa using body.restMember_fst_ne.symm
  · exact List.forall_mem_cons.mpr ⟨hslug, List.forall_mem_singleton.mpr hrest⟩

theorem parseStrictJson_toJsonBytes (body : Body) :
    parseStrictJson body.toJsonBytes = .ok body.toJson :=
  (parseStrictJson_eq_ok_iff).mpr ⟨_, body.toJsonBytes_eq, Json.parse_render body.integral_toJson,
    body.distinctNames_toJson⟩

/-- A body is its slug and the member after it. -/
theorem eq_of_slug_of_restMember {body body' : Body} (hslug : body.slug = body'.slug)
    (hrest : body.restMember = body'.restMember) : body = body' := by
  have hne : "profile".toList ≠ "value".toList := by decide
  rcases body with profile | ⟨slug, _ | value⟩ <;>
    rcases body' with profile' | ⟨slug', _ | value'⟩
  · exact congrArg core (Json.str.inj (Prod.mk.inj hrest).2)
  · exact absurd (Prod.mk.inj hrest).1 hne
  · exact absurd (Prod.mk.inj hrest).1 hne
  · exact absurd (Prod.mk.inj hrest).1.symm hne
  · exact congrArg (memory · none) hslug
  · cases (Prod.mk.inj hrest).2
  · exact absurd (Prod.mk.inj hrest).1.symm hne
  · cases (Prod.mk.inj hrest).2
  · exact congrArg₂ memory hslug (congrArg some (Json.str.inj (Prod.mk.inj hrest).2))

/-- Different bodies are written differently. -/
theorem toJsonBytes_injective : Function.Injective toJsonBytes := by
  intro body body' h
  have hjson : body.toJson = body'.toJson := by
    have hparse := parseStrictJson_toJsonBytes body
    rw [h, parseStrictJson_toJsonBytes] at hparse
    exact (Except.ok.inj hparse).symm
  obtain ⟨hslug, hrest⟩ := List.cons.inj (Json.obj.inj hjson)
  exact eq_of_slug_of_restMember (Json.str.inj (Prod.mk.inj hslug).2) (List.cons.inj hrest).1

/-! ### What is read -/

/-- The slug is that of the variant. -/
def Valid : Body → Prop
  | core _ => True
  | memory slug _ => (utf8 slug).length ≤ slugMaxLen ∧ slug ∈ memSlug

theorem stringMember_eq_ok {notString missing : String} {o : Option Json} {s : List Char} :
    stringMember notString missing o = .ok s ↔ o = some (.str s) := by
  rcases o with _ | v
  · exact iff_of_false (by rintro ⟨⟩) (by rintro ⟨⟩)
  · cases v with
    | str s' => simp [stringMember]
    | _ => exact iff_of_false (by rintro ⟨⟩) (by rintro ⟨⟩)

theorem valueMember_eq_ok {o : Option Json} {slug : List Char} {value : Option (List Char)} :
    valueMember o = .ok value ↔ o = some (memory slug value).restMember.2 := by
  constructor
  · intro h
    unfold valueMember at h
    split at h
    · cases h
      rfl
    · cases h
      rfl
    · cases h
    · cases h
  · rintro rfl
    cases value <;> rfl

/-- The bytes that are read as a body: an object with the slug, which is checked, and the member
that the variant asks for. -/
theorem fromJsonBytes_eq_ok_iff {body : Body} : fromJsonBytes bytes = .ok body ↔
    ∃ ms, parseStrictJson bytes = .ok (.obj ms) ∧ body.Valid ∧
      ms.lookup "slug".toList = some (.str body.slug) ∧
      ms.lookup body.restMember.1 = some body.restMember.2 := by
  constructor
  · intro h
    obtain ⟨raw, hraw, hobject⟩ := bind_eq_ok.mp h
    obtain ⟨ms, hms, hmembers⟩ := bind_eq_ok.mp hobject
    obtain ⟨slug, hslug, hchecked⟩ := bind_eq_ok.mp hmembers
    obtain ⟨⟨⟩, hvalid, hvariant⟩ := bind_eq_ok.mp hchecked
    rw [Json.asObject_eq_some_iff.mp (okOrError_eq_ok.mp hms)] at hraw
    rw [stringMember_eq_ok] at hslug
    by_cases hcore : slug = coreSlug
    · obtain ⟨profile, hprofile, hbody⟩ := bind_eq_ok.mp ((if_pos hcore).symm.trans hvariant)
      rw [hcore] at hslug
      rw [← Except.ok.inj hbody]
      exact ⟨ms, hraw, trivial, hslug, (stringMember_eq_ok).mp hprofile⟩
    · obtain ⟨value, hvalue, hbody⟩ := bind_eq_ok.mp ((if_neg hcore).symm.trans hvariant)
      rw [← Except.ok.inj hbody]
      refine ⟨ms, hraw, isSlug_and_ne_coreSlug_iff.mp ⟨validateSlug_eq_ok_iff.mp hvalid, hcore⟩,
        hslug, ?_⟩
      rw [restMember_memory_fst]
      exact (valueMember_eq_ok).mp hvalue
  · rintro ⟨ms, hraw, hvalid, hslug, hrest⟩
    refine bind_eq_ok.mpr ⟨_, hraw, bind_eq_ok.mpr ⟨ms, rfl, bind_eq_ok.mpr
      ⟨body.slug, (stringMember_eq_ok).mpr hslug, ?_⟩⟩⟩
    cases body with
    | core profile =>
      exact bind_eq_ok.mpr ⟨(), rfl, bind_eq_ok.mpr ⟨profile, (stringMember_eq_ok).mpr hrest, rfl⟩⟩
    | memory slug value =>
      obtain ⟨hisSlug, hne⟩ := isSlug_and_ne_coreSlug_iff.mpr hvalid
      rw [restMember_memory_fst] at hrest
      refine bind_eq_ok.mpr ⟨(), validateSlug_eq_ok_iff.mpr hisSlug, (if_neg hne).trans ?_⟩
      exact bind_eq_ok.mpr ⟨value, (valueMember_eq_ok).mpr hrest, rfl⟩

/-- The bytes that a body is written to are read as it, if its slug is that of its variant. -/
theorem fromJsonBytes_toJsonBytes_iff {body : Body} :
    fromJsonBytes body.toJsonBytes = .ok body ↔ body.Valid := by
  rw [fromJsonBytes_eq_ok_iff, parseStrictJson_toJsonBytes]
  constructor
  · rintro ⟨ms, -, hvalid, -⟩
    exact hvalid
  · intro hvalid
    refine ⟨_, rfl, hvalid, List.lookup_cons_self, ?_⟩
    rw [List.lookup_cons, beq_false_of_ne body.restMember_fst_ne]
    exact List.lookup_cons_self

/-- **The bytes of bodies.** A body is read back from the bytes it is written to when its slug is
that of its variant, and different bodies have different bytes. What is read as a body is the text
of a JSON object in which no object repeats a name, and the body that was read is read again from
the bytes it is written to. -/
theorem json_round_trip :
    (∀ body : Body, fromJsonBytes body.toJsonBytes = .ok body ↔ body.Valid) ∧
      Function.Injective toJsonBytes ∧
      ∀ bytes body, fromJsonBytes bytes = .ok body →
        (∃ text ms, bytes = utf8 text ∧ (Json.obj ms).SpacedText text ∧
          (Json.obj ms).DistinctNames) ∧
        fromJsonBytes body.toJsonBytes = .ok body := by
  refine ⟨fun body => fromJsonBytes_toJsonBytes_iff, toJsonBytes_injective, fun bytes body h => ?_⟩
  obtain ⟨ms, hraw, hvalid, -⟩ := fromJsonBytes_eq_ok_iff.mp h
  obtain ⟨text, hbytes, hparse, hdistinct⟩ := parseStrictJson_eq_ok_iff.mp hraw
  exact ⟨⟨text, ms, hbytes, Json.spacedText_of_parse hparse, hdistinct⟩,
    fromJsonBytes_toJsonBytes_iff.mpr hvalid⟩

theorem json_round_trip_core :
    (∃ text ms, (core "a".toList).toJsonBytes = utf8 text ∧ (Json.obj ms).SpacedText text ∧
      (Json.obj ms).DistinctNames) ∧
    fromJsonBytes (core "a".toList).toJsonBytes = .ok (core "a".toList) :=
  json_round_trip.2.2 _ _ ((json_round_trip.1 (core "a".toList)).mpr trivial)

end Body

end Buzz.Core.Engram
