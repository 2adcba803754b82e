import Buzz.Library.Json

/-!
# Pairing messages

The messages of `crates/buzz-core/src/pairing/types.rs` and their JSON texts: internally tagged by a
`type` member, with variant names in kebab case. Serde reads a message from an object, whose unknown
members it ignores, or from an array that starts with the tag; a repeated or missing member is an
error, and a missing version is `1`.

## Main definitions

* `PairingMessage`, `PayloadType`, `AbortReason`.
* `PairingMessage.toText`, `PairingMessage.ofText`: `serde_json::to_string` and
  `serde_json::from_str`.

## Main results

* `PairingMessage.ofText_toText`: a message is read back from its text.
-/

namespace Buzz.Core.Pairing

open Buzz.Library

/-- Discriminates the content of a payload message. -/
inductive PayloadType
  | nsec
  | bunker
  | connect
  | custom
  deriving DecidableEq

/-- Machine-readable reason a pairing session was aborted. -/
inductive AbortReason
  | sasMismatch
  | userDenied
  | timeout
  | protocolError
  /-- An unrecognized reason of another implementation. -/
  | unknown
  deriving DecidableEq

/-- The set of messages exchanged during a device-pairing session. -/
inductive PairingMessage
  | offer (sessionId : String) (version : UInt32)
  | sasConfirm (transcriptHash : String)
  | payload (payloadType : PayloadType) (payload : String)
  | complete (success : Bool)
  | abort (reason : AbortReason)
  deriving DecidableEq

/-! ### Enumerations -/

/-- The name of a payload type. -/
def PayloadType.name : PayloadType → String
  | nsec => "nsec"
  | bunker => "bunker"
  | connect => "connect"
  | custom => "custom"

/-- The payload type of a name. -/
def PayloadType.ofName (name : String) : Option PayloadType :=
  [nsec, bunker, connect, custom].find? fun t => t.name == name

/-- The name of an abort reason. -/
def AbortReason.name : AbortReason → String
  | sasMismatch => "sas_mismatch"
  | userDenied => "user_denied"
  | timeout => "timeout"
  | protocolError => "protocol_error"
  | unknown => "unknown"

/-- The abort reason of a name; other names are unknown reasons. -/
def AbortReason.ofName (name : String) : AbortReason :=
  ([sasMismatch, userDenied, timeout, protocolError].find? fun r => r.name == name).getD unknown

/-- The name of a unit variant: a string, or an object with that name for its only member and
nothing in it. -/
def variantName : Json → Option String
  | .str s => some (String.ofList s)
  | .obj [(name, .null)] => some (String.ofList name)
  | .obj [(name, .obj [])] => some (String.ofList name)
  | _ => none

/-! ### Fields -/

/-- Read a string. -/
def readText : Json → Option String
  | .str s => some (String.ofList s)
  | _ => none

/-- Read an unsigned 32-bit number. -/
def readVersion : Json → Option UInt32
  | .int (.ofNat n) => if n < 2 ^ 32 then some (UInt32.ofNat n) else none
  | _ => none

/-- Read a boolean. -/
def readBool : Json → Option Bool
  | .bool b => some b
  | _ => none

/-- Read a payload type. -/
def readPayloadType (v : Json) : Option PayloadType := do PayloadType.ofName (← variantName v)

/-- Read an abort reason. -/
def readReason (v : Json) : Option AbortReason := do return AbortReason.ofName (← variantName v)

/-- What is left of a message after its tag. -/
inductive Content
  | members (members : List (List Char × Json))
  | elems (elems : List Json)

namespace Content

/-- A member by its name, `none` inside when it is missing; a repeated member is an error. -/
def member (name : String) (members : List (List Char × Json)) : Option (Option Json) :=
  match members.filter fun m => m.1 == name.toList with
  | [] => some none
  | [m] => some (some m.2)
  | _ => none

/-- The field of a variant that has one field. -/
def one (name : String) : Content → Option Json
  | members ms => do (← member name ms)
  | elems [v] => some v
  | elems _ => none

/-- The fields of a variant that has two, the second of them optional. -/
def two (first second : String) : Content → Option (Json × Option Json)
  | members ms => do return (← (← member first ms), ← member second ms)
  | elems [v] => some (v, none)
  | elems [v, v'] => some (v, some v')
  | elems _ => none

end Content

/-! ### Messages -/

namespace PairingMessage

/-- The JSON value of a message. -/
def toJson : PairingMessage → Json
  | offer sessionId version =>
    .obj [("type".toList, .str "offer".toList), ("session_id".toList, .str sessionId.toList),
      ("version".toList, .int (.ofNat version.toNat))]
  | sasConfirm transcriptHash =>
    .obj [("type".toList, .str "sas-confirm".toList),
      ("transcript_hash".toList, .str transcriptHash.toList)]
  | payload payloadType text =>
    .obj [("type".toList, .str "payload".toList),
      ("payload_type".toList, .str payloadType.name.toList), ("payload".toList, .str text.toList)]
  | complete success =>
    .obj [("type".toList, .str "complete".toList), ("success".toList, .bool success)]
  | abort reason =>
    .obj [("type".toList, .str "abort".toList), ("reason".toList, .str reason.name.toList)]

/-- The default protocol version. -/
def defaultVersion : UInt32 := 1

/-- Read the fields of the variant with the given tag. -/
def ofContent (tag : String) (content : Content) : Option PairingMessage :=
  if tag = "offer" then do
    let (sessionId, version) ← content.two "session_id" "version"
    let version ← match version with
      | some v => readVersion v
      | none => some defaultVersion
    return offer (← readText sessionId) version
  else if tag = "sas-confirm" then do
    return sasConfirm (← readText (← content.one "transcript_hash"))
  else if tag = "payload" then do
    let (payloadType, text) ← content.two "payload_type" "payload"
    return payload (← readPayloadType payloadType) (← readText (← text))
  else if tag = "complete" then do return complete (← readBool (← content.one "success"))
  else if tag = "abort" then do return abort (← readReason (← content.one "reason"))
  else none

/-- Read a message from a JSON value. -/
def ofJson : Json → Option PairingMessage
  | .obj ms => do
    let tag ← readText (← (← Content.member "type" ms))
    ofContent tag (.members (ms.filter fun m => m.1 != "type".toList))
  | .arr (tag :: elems) => do ofContent (← readText tag) (.elems elems)
  | _ => none

/-- `serde_json::to_string`. -/
def toText (m : PairingMessage) : String := String.ofList (Json.render m.toJson)

/-- `serde_json::from_str`. -/
def ofText (text : String) : Option PairingMessage := (Json.parse text.toList).bind ofJson

theorem ofName_name_payloadType (t : PayloadType) : PayloadType.ofName t.name = some t := by
  cases t <;> decide

theorem ofName_name_reason (r : AbortReason) : AbortReason.ofName r.name = r := by
  cases r <;> decide

theorem ofJson_toJson (m : PairingMessage) : ofJson m.toJson = some m := by
  cases m with
  | offer sessionId version =>
    have hversion : readVersion (.int (version.toNat : ℤ)) = some version := by
      rw [← Int.ofNat_eq_natCast, readVersion, if_pos version.toNat_lt, UInt32.ofNat_toNat]
    simp [toJson, ofJson, Content.member, ofContent, Content.two, readText, hversion]
  | sasConfirm transcriptHash =>
    simp [toJson, ofJson, Content.member, ofContent, Content.one, readText]
  | payload payloadType text =>
    simp [toJson, ofJson, Content.member, ofContent, Content.two, readText, readPayloadType,
      variantName, ofName_name_payloadType]
  | complete success =>
    simp [toJson, ofJson, Content.member, ofContent, Content.one, readText, readBool]
  | abort reason =>
    simp [toJson, ofJson, Content.member, ofContent, Content.one, readText, readReason,
      variantName, ofName_name_reason]

/-- A message is read back from its text. -/
theorem ofText_toText (m : PairingMessage) : ofText m.toText = some m := by
  have hintegral : m.toJson.Integral := by
    cases m <;> simp [toJson, Json.Integral, Json.IntegralMembers]
  rw [ofText, toText, String.toList_ofList, Json.parse_render hintegral]
  exact ofJson_toJson m

end PairingMessage

end Buzz.Core.Pairing
