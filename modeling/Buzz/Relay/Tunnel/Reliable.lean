import Buzz.Library.FixedWidth
import Buzz.Relay.Tunnel.Directory

/-!
# Reliable tunnel streams

The framing of `crates/buzz-relay/src/tunnel/reliable.rs`: application bytes are cut into chunks,
each of which is a reliable frame inside a `Data` frame of the mesh, and every frame names the
community of the stream. The community is latched by what is sent first, or by the first frame whose
fence is valid.

The mesh and the directory are parameters: `Transport` answers what is handed to the mesh, and
`Validate` is `SessionDirectory::validate_fenced_header`. `sent` and `delivered` record what was
handed to the mesh, and which frames `recv_validated` returned.

## Main definitions

* `ReliableWireFrame`, `ReliableWireFrame.encode`, `ReliableWireFrame.decode`.
* `ReliableMeshStream`, `sendBytes`, `sendGoodbye`, `recvValidated`.
* `Session`, `StreamCall`, `Session.run`: calls on one stream.

## Main results

* `decode_encode`, `encode_decode`: the codec.
* `sendBytes_spec`, `recvAll_payloads`: what is sent, and what a receiver makes of it.
* `Session.run_keeps`: the community of a stream.
* `reliable_framing`: all of them.
-/

namespace Buzz.Relay.Tunnel

open Buzz.Core Buzz.Library

/-! ### Frames -/

/-- Maximum reliable-stream application chunk per mesh frame. -/
def MAX_RELIABLE_PAYLOAD_BYTES : ℕ := 1024 * 1024

inductive GoodbyeReason
  | sessionEnded
  | draining
  | staleGeneration
  deriving DecidableEq

inductive ReliableStreamError
  | mesh (error : MeshError)
  | unexpectedFrame (kind : String)
  | frameFenceMismatch (expected actual : FencedHeader)
  | communityMismatch (expected actual : CommunityId)
  | malformedReliableFrame (reason : String)
  deriving DecidableEq

namespace GoodbyeReason

def toWireByte : GoodbyeReason → UInt8
  | sessionEnded => 1
  | draining => 2
  | staleGeneration => 3

def fromWireByte (byte : UInt8) : Except ReliableStreamError GoodbyeReason :=
  if byte = 1 then .ok sessionEnded
  else if byte = 2 then .ok draining
  else if byte = 3 then .ok staleGeneration
  else .error (.malformedReliableFrame "unknown goodbye reason")

theorem fromWireByte_eq_ok_iff {byte : UInt8} {reason : GoodbyeReason} :
    fromWireByte byte = .ok reason ↔ byte = reason.toWireByte := by
  rw [fromWireByte]
  split_ifs with h₁ h₂ h₃
  · subst h₁
    cases reason <;> simp [toWireByte]
  · subst h₂
    cases reason <;> simp [toWireByte]
  · subst h₃
    cases reason <;> simp [toWireByte]
  · cases reason <;> simp [toWireByte, h₁, h₂, h₃]

end GoodbyeReason

/-- `Uuid::as_bytes`. -/
def uuidAsBytes (id : Uuid) : List UInt8 := beBytes 16 id.toNat

/-- `Uuid::from_bytes`. -/
def uuidFromBytes (bytes : List UInt8) : Uuid := BitVec.ofNat 128 (beValue bytes)

theorem length_uuidAsBytes (id : Uuid) : (uuidAsBytes id).length = 16 := length_beBytes

theorem uuidFromBytes_asBytes (id : Uuid) : uuidFromBytes (uuidAsBytes id) = id := by
  have hlt : id.toNat < 256 ^ 16 := id.isLt
  rw [uuidFromBytes, uuidAsBytes, beValue_beBytes hlt, BitVec.ofNat_toNat, BitVec.setWidth_eq]

theorem uuidAsBytes_fromBytes {bytes : List UInt8} (h : bytes.length = 16) :
    uuidAsBytes (uuidFromBytes bytes) = bytes := by
  have hlt : beValue bytes < 2 ^ 128 := by
    have hvalue := beValue_lt bytes
    rw [h] at hvalue
    exact hvalue
  have hbytes := beBytes_beValue bytes
  rw [h] at hbytes
  rw [uuidAsBytes, uuidFromBytes, BitVec.toNat_ofNat, Nat.mod_eq_of_lt hlt, hbytes]

inductive ReliableWireFrame
  | data (communityId : CommunityId) (payload : List UInt8)
  | goodbye (communityId : CommunityId) (reason : GoodbyeReason)
  deriving DecidableEq

namespace ReliableWireFrame

def VERSION : UInt8 := 1
def DATA : UInt8 := 1
def GOODBYE : UInt8 := 2

def communityId : ReliableWireFrame → CommunityId
  | data communityId _ | goodbye communityId _ => communityId

def encode : ReliableWireFrame → List UInt8
  | data communityId payload => VERSION :: DATA :: (uuidAsBytes communityId ++ payload)
  | goodbye communityId reason =>
    VERSION :: GOODBYE :: (uuidAsBytes communityId ++ [reason.toWireByte])

def decode (bytes : List UInt8) : Except ReliableStreamError ReliableWireFrame :=
  if bytes.length < 18 then .error (.malformedReliableFrame "too short")
  else if bytes.getD 0 0 ≠ VERSION then .error (.malformedReliableFrame "unknown version")
  else
    let communityId := uuidFromBytes ((bytes.drop 2).take 16)
    if bytes.getD 1 0 = DATA then .ok (data communityId (bytes.drop 18))
    else if bytes.getD 1 0 = GOODBYE then
      if bytes.length ≠ 19 then .error (.malformedReliableFrame "bad goodbye length")
      else (GoodbyeReason.fromWireByte (bytes.getD 18 0)).map (goodbye communityId)
    else .error (.malformedReliableFrame "unknown kind")

/-- What is decoded has a header of 18 bytes: the version, the kind and the community. -/
theorem decode_header (version kind : UInt8) {id : List UInt8} (hid : id.length = 16)
    (rest : List UInt8) : decode (version :: kind :: (id ++ rest)) =
      if version ≠ VERSION then .error (.malformedReliableFrame "unknown version")
      else if kind = DATA then .ok (data (uuidFromBytes id) rest)
      else if kind = GOODBYE then
        if rest.length ≠ 1 then .error (.malformedReliableFrame "bad goodbye length")
        else (GoodbyeReason.fromWireByte (rest.getD 0 0)).map (goodbye (uuidFromBytes id))
      else .error (.malformedReliableFrame "unknown kind") := by
  have hlong : ¬ (version :: kind :: (id ++ rest)).length < 18 := by
    simp only [List.length_cons, List.length_append]
    omega
  have hlength : (version :: kind :: (id ++ rest)).length ≠ 19 ↔ rest.length ≠ 1 := by
    simp only [List.length_cons, List.length_append]
    omega
  have htake : ((version :: kind :: (id ++ rest)).drop 2).take 16 = id := List.take_left' hid
  have hdrop : (version :: kind :: (id ++ rest)).drop 18 = rest := List.drop_left' hid
  have hreason : (version :: kind :: (id ++ rest)).getD 18 0 = rest.getD 0 0 := by
    rw [List.getD_cons_succ, List.getD_cons_succ, List.getD_eq_getElem?_getD,
      List.getElem?_append_right hid.le, hid, ← List.getD_eq_getElem?_getD]
  rw [decode, if_neg hlong, htake, hdrop, hreason]
  simp only [hlength, List.getD_cons_zero, List.getD_cons_succ]

theorem decode_encode (f : ReliableWireFrame) : decode f.encode = .ok f := by
  cases f with
  | data communityId payload =>
    rw [encode, decode_header _ _ (length_uuidAsBytes communityId), if_neg (not_not.mpr rfl),
      if_pos rfl, uuidFromBytes_asBytes]
  | goodbye communityId reason =>
    have hreason : GoodbyeReason.fromWireByte ([reason.toWireByte].getD 0 0) = .ok reason :=
      GoodbyeReason.fromWireByte_eq_ok_iff.mpr rfl
    rw [encode, decode_header _ _ (length_uuidAsBytes communityId), if_neg (not_not.mpr rfl),
      if_neg (by decide), if_pos rfl, if_neg (not_not.mpr (List.length_singleton)), hreason,
      uuidFromBytes_asBytes]
    rfl

theorem encode_decode {bytes : List UInt8} {f : ReliableWireFrame} (h : decode bytes = .ok f) :
    f.encode = bytes := by
  have hlong : 18 ≤ bytes.length := by
    by_contra hshort
    rw [decode, if_pos (Nat.not_le.mp hshort)] at h
    cases h
  match bytes, hlong with
  | version :: kind :: body, hlong =>
    have hbody : 16 ≤ body.length := Nat.le_of_succ_le_succ (Nat.le_of_succ_le_succ hlong)
    have hid : (body.take 16).length = 16 := List.length_take_of_le hbody
    rw [← List.take_append_drop 16 body, decode_header version kind hid] at h
    rw [← List.take_append_drop 16 body]
    generalize body.take 16 = id at *
    generalize body.drop 16 = rest at *
    split_ifs at h with hversion hdata hgoodbye hlength
    · obtain rfl := Except.ok.inj h
      rw [encode, uuidAsBytes_fromBytes hid, hdata, not_not.mp hversion]
    · obtain ⟨byte, rfl⟩ := List.length_eq_one_iff.mp (not_not.mp hlength)
      cases hreason : GoodbyeReason.fromWireByte ([byte].getD 0 0) with
      | error e =>
        rw [hreason] at h
        cases h
      | ok reason =>
        rw [hreason] at h
        obtain rfl := Except.ok.inj h
        have hbyte : byte = reason.toWireByte := GoodbyeReason.fromWireByte_eq_ok_iff.mp hreason
        rw [encode, uuidAsBytes_fromBytes hid, hgoodbye, not_not.mp hversion, hbyte]

end ReliableWireFrame

/-! ### Streams -/

/-- What travels on a stream of the mesh; the bodies of the kinds that a reliable stream refuses are
left out. -/
inductive MeshStreamFrame
  | hello
  | data (fenced : FencedHeader) (payload : List UInt8)
  | goodbye
  | gossip
  deriving DecidableEq

/-- What `MeshStream::send_frame` answers, given what a call has handed to it. -/
abbrev Transport := List MeshStreamFrame → Except MeshError Unit

/-- What `SessionDirectory::validate_fenced_header` answers. -/
abbrev Validate := CommunityId → FencedHeader → Except MeshError Unit

/-- Validated frame from a reliable mesh stream. -/
inductive ReliableFrame
  | data (bytes : List UInt8)
  | goodbye (reason : GoodbyeReason)
  deriving DecidableEq

/-- What `recv_validated` hands to its caller of a frame. -/
def ReliableWireFrame.opened : ReliableWireFrame → ReliableFrame
  | data _ payload => .data payload
  | goodbye _ reason => .goodbye reason

/-- A reliable mesh stream pinned to one fenced session. -/
structure ReliableMeshStream where
  fenced : FencedHeader
  communityId : Option CommunityId
  deriving DecidableEq

namespace ReliableMeshStream

def new (fenced : FencedHeader) : ReliableMeshStream := ⟨fenced, none⟩

def withCommunity (s : ReliableMeshStream) (communityId : CommunityId) : ReliableMeshStream :=
  { s with communityId := some communityId }

def ensureOutboundCommunity (s : ReliableMeshStream) (communityId : CommunityId) :
    Except ReliableStreamError ReliableMeshStream :=
  match s.communityId with
  | some expected =>
    if expected ≠ communityId then .error (.communityMismatch expected communityId) else .ok s
  | none => .ok { s with communityId := some communityId }

/-- The frame around one reliable frame. -/
def frame (fenced : FencedHeader) (f : ReliableWireFrame) : MeshStreamFrame :=
  .data fenced f.encode

/-- Frames handed to the mesh one after the other, until it fails; `handed` precede them. -/
def sendFrames (transport : Transport) (handed : List MeshStreamFrame) :
    List MeshStreamFrame → Except ReliableStreamError Unit × List MeshStreamFrame
  | [] => (.ok (), handed)
  | f :: rest =>
    match transport (handed ++ [f]) with
    | .error e => (.error (.mesh e), handed ++ [f])
    | .ok () => sendFrames transport (handed ++ [f]) rest

/-- Send bytes as one or more ordered mesh `Data` frames. The last component is what was handed to
the mesh. -/
def sendBytes (transport : Transport) (s : ReliableMeshStream) (communityId : CommunityId)
    (bytes : List UInt8) :
    Except ReliableStreamError Unit × ReliableMeshStream × List MeshStreamFrame :=
  match s.ensureOutboundCommunity communityId with
  | .error e => (.error e, s, [])
  | .ok s =>
    let (result, handed) := sendFrames transport []
      ((chunks MAX_RELIABLE_PAYLOAD_BYTES bytes).map fun chunk =>
        frame s.fenced (.data communityId chunk))
    (result, s, handed)

/-- Send a clean reliable-session close frame and finish the send half. -/
def sendGoodbye (transport : Transport) (finish : Except MeshError Unit) (s : ReliableMeshStream)
    (communityId : CommunityId) (reason : GoodbyeReason) :
    Except ReliableStreamError Unit × ReliableMeshStream × List MeshStreamFrame :=
  match s.ensureOutboundCommunity communityId with
  | .error e => (.error e, s, [])
  | .ok s =>
    match sendFrames transport [] [frame s.fenced (.goodbye communityId reason)] with
    | (.error e, handed) => (.error e, s, handed)
    | (.ok (), handed) => (finish.mapError .mesh, s, handed)

def validateFrameFence (validate : Validate) (s : ReliableMeshStream) (communityId : CommunityId)
    (fenced : FencedHeader) : Except ReliableStreamError ReliableMeshStream :=
  if fenced ≠ s.fenced then .error (.frameFenceMismatch s.fenced fenced)
  else
    match s.communityId with
    | some expected =>
      if expected ≠ communityId then .error (.communityMismatch expected communityId)
      else (validate communityId fenced).mapError .mesh |>.map fun _ => s
    | none => (validate communityId fenced).mapError .mesh |>.map fun _ =>
        { s with communityId := some communityId }

/-- Receive and validate the next session frame, which `incoming` is. -/
def recvValidated (incoming : Except MeshError (Option MeshStreamFrame)) (validate : Validate)
    (s : ReliableMeshStream) :
    Except ReliableStreamError (Option ReliableFrame) × ReliableMeshStream :=
  match incoming with
  | .error e => (.error (.mesh e), s)
  | .ok none => (.ok none, s)
  | .ok (some (.data fenced payload)) =>
    match ReliableWireFrame.decode payload with
    | .error e => (.error e, s)
    | .ok f =>
      match s.validateFrameFence validate f.communityId fenced with
      | .error e => (.error e, s)
      | .ok s => (.ok (some f.opened), s)
  | .ok (some .goodbye) => (.error (.unexpectedFrame "goodbye"), s)
  | .ok (some .hello) => (.error (.unexpectedFrame "hello"), s)
  | .ok (some .gossip) => (.error (.unexpectedFrame "gossip"), s)

/-- Frames received one after the other, until one is refused. -/
def recvAll (validate : Validate) (s : ReliableMeshStream) :
    List MeshStreamFrame → Except ReliableStreamError (List ReliableFrame)
  | [] => .ok []
  | f :: rest =>
    match s.recvValidated (.ok (some f)) validate with
    | (.error e, _) => .error e
    | (.ok opened, s) => (recvAll validate s rest).map (opened.toList ++ ·)

/-! ### The community of a stream -/

variable {s s' : ReliableMeshStream} {communityId c : CommunityId} {transport : Transport}
  {validate : Validate}

theorem ensureOutboundCommunity_eq_ok (h : s.ensureOutboundCommunity communityId = .ok s') :
    s'.fenced = s.fenced ∧ s'.communityId = some communityId ∧
      (s.communityId = none ∨ s.communityId = some communityId) := by
  rw [ensureOutboundCommunity] at h
  split at h
  next expected hexpected =>
    split_ifs at h with hne
    obtain rfl := Except.ok.inj h
    obtain rfl := not_not.mp hne
    exact ⟨rfl, hexpected, .inr hexpected⟩
  next hnone =>
    obtain rfl := Except.ok.inj h
    exact ⟨rfl, rfl, .inl hnone⟩

theorem validateFrameFence_eq_ok {fenced : FencedHeader}
    (h : s.validateFrameFence validate communityId fenced = .ok s') :
    fenced = s.fenced ∧ s'.fenced = s.fenced ∧ s'.communityId = some communityId ∧
      (s.communityId = none ∨ s.communityId = some communityId) := by
  rw [validateFrameFence] at h
  split_ifs at h with hfenced
  have hsame := not_not.mp hfenced
  cases hvalid : validate communityId fenced with
  | error e =>
    rw [hvalid] at h
    split at h
    · split_ifs at h
      cases h
    · cases h
  | ok u =>
    rw [hvalid] at h
    split at h
    next expected hexpected =>
      split_ifs at h with hne
      obtain rfl := Except.ok.inj h
      obtain rfl := not_not.mp hne
      exact ⟨hsame, rfl, hexpected, .inr hexpected⟩
    next hnone =>
      obtain rfl := Except.ok.inj h
      exact ⟨hsame, rfl, rfl, .inl hnone⟩

/-- A receiver takes a frame under its own fence, of its community or of the first, that the
directory admits. -/
theorem recvValidated_frame {f : ReliableWireFrame}
    (hcommunity : s.communityId = none ∨ s.communityId = some f.communityId)
    (hvalid : validate f.communityId s.fenced = .ok ()) :
    s.recvValidated (.ok (some (frame s.fenced f))) validate =
      (.ok (some f.opened), s.withCommunity f.communityId) := by
  have hfence : s.validateFrameFence validate f.communityId s.fenced =
      .ok (s.withCommunity f.communityId) := by
    rw [validateFrameFence, if_neg (not_not.mpr rfl), hvalid]
    rcases hcommunity with hnone | hsome
    · rw [hnone]
      rfl
    · simp only [hsome, ne_eq, not_true_eq_false, if_false]
      exact congrArg Except.ok (congrArg (mk s.fenced) hsome)
  simp only [recvValidated, frame, ReliableWireFrame.decode_encode, hfence]

/-! ### What is sent -/

/-- What is handed to the mesh begins what was to be sent, and is all of it where nothing fails. -/
theorem sendFrames_spec (transport : Transport) (handed frames : List MeshStreamFrame) :
    ∃ done rest, done ++ rest = frames ∧ (sendFrames transport handed frames).2 = handed ++ done ∧
      ((sendFrames transport handed frames).1 = .ok () → rest = []) := by
  induction frames generalizing handed with
  | nil => exact ⟨[], [], rfl, (List.append_nil _).symm, fun _ => rfl⟩
  | cons f frames ih =>
    rw [sendFrames]
    cases transport (handed ++ [f]) with
    | error e => exact ⟨[f], frames, rfl, rfl, nofun⟩
    | ok u =>
      obtain ⟨done, rest, hframes, hdone, hrest⟩ := ih (handed ++ [f])
      exact ⟨f :: done, rest, congrArg (f :: ·) hframes, hdone.trans (List.append_assoc _ _ _),
        hrest⟩

/-- What `send_bytes` hands to the mesh are the first chunks, and all of them where it succeeds. -/
theorem sendBytes_spec (transport : Transport) (s : ReliableMeshStream) (communityId : CommunityId)
    (bytes : List UInt8) : ∃ payloads rest,
      payloads ++ rest = chunks MAX_RELIABLE_PAYLOAD_BYTES bytes ∧
      (sendBytes transport s communityId bytes).2.2 =
        payloads.map (fun payload => frame s.fenced (.data communityId payload)) ∧
      ((sendBytes transport s communityId bytes).1 = .ok () → rest = []) := by
  rw [sendBytes]
  cases hensure : s.ensureOutboundCommunity communityId with
  | error e => exact ⟨[], _, rfl, rfl, nofun⟩
  | ok s₁ =>
    obtain ⟨done, rest, hframes, hdone, hrest⟩ := sendFrames_spec transport []
      ((chunks MAX_RELIABLE_PAYLOAD_BYTES bytes).map fun chunk =>
        frame s.fenced (.data communityId chunk))
    rw [← (ensureOutboundCommunity_eq_ok hensure).1] at hframes hdone hrest
    obtain ⟨payloads, others, hpayloads, rfl, rfl⟩ := List.map_eq_append_iff.mp hframes.symm
    refine ⟨payloads, others, hpayloads.symm, ?_, fun hok => List.map_eq_nil_iff.mp (hrest hok)⟩
    rw [← (ensureOutboundCommunity_eq_ok hensure).1]
    exact hdone

/-- A receiver under the same fence and community is given the payloads that were sent. -/
theorem recvAll_payloads (payloads : List (List UInt8))
    (hcommunity : s.communityId = none ∨ s.communityId = some c)
    (hvalid : validate c s.fenced = .ok ()) :
    recvAll validate s (payloads.map fun payload => frame s.fenced (.data c payload)) =
      .ok (payloads.map .data) := by
  induction payloads generalizing s with
  | nil => rfl
  | cons payload payloads ih =>
    have hframe := recvValidated_frame (f := .data c payload) hcommunity hvalid
    have hrest := ih (s := s.withCommunity c) (.inr rfl) hvalid
    rw [List.map_cons, recvAll, hframe]
    exact congrArg (Except.map _) hrest

end ReliableMeshStream

/-! ### Runs -/

/-- A stream with what was handed to the mesh, and the frames that `recv_validated` returned. -/
structure Session where
  stream : ReliableMeshStream
  sent : List MeshStreamFrame
  delivered : List MeshStreamFrame

/-- A call on a stream, with what the mesh and the directory answer. -/
inductive StreamCall
  | sendBytes (transport : Transport) (communityId : CommunityId) (bytes : List UInt8)
  | sendGoodbye (transport : Transport) (finish : Except MeshError Unit)
      (communityId : CommunityId) (reason : GoodbyeReason)
  | recvValidated (incoming : Except MeshError (Option MeshStreamFrame)) (validate : Validate)

namespace Session

def start (stream : ReliableMeshStream) : Session := ⟨stream, [], []⟩

def step (s : Session) : StreamCall → Session
  | .sendBytes transport communityId bytes =>
    let (_, stream, frames) := s.stream.sendBytes transport communityId bytes
    ⟨stream, s.sent ++ frames, s.delivered⟩
  | .sendGoodbye transport finish communityId reason =>
    let (_, stream, frames) := s.stream.sendGoodbye transport finish communityId reason
    ⟨stream, s.sent ++ frames, s.delivered⟩
  | .recvValidated incoming validate =>
    let (result, stream) := s.stream.recvValidated incoming validate
    ⟨stream, s.sent, s.delivered ++
      match result, incoming with
      | .ok (some _), .ok (some frame) => [frame]
      | _, _ => []⟩

def run (s : Session) (calls : List StreamCall) : Session := calls.foldl step s

end Session

/-- A frame is of a community: it holds a reliable frame that names it. -/
def MeshStreamFrame.Carries (m : MeshStreamFrame) (fenced : FencedHeader) (c : CommunityId) :
    Prop :=
  ∃ payload f, m = .data fenced payload ∧ ReliableWireFrame.decode payload = .ok f ∧
    f.communityId = c

namespace ReliableMeshStream

variable {s : ReliableMeshStream} {c : CommunityId} {m : MeshStreamFrame}

theorem carries_frame (fenced : FencedHeader) (f : ReliableWireFrame) :
    (frame fenced f).Carries fenced f.communityId :=
  ⟨f.encode, f, rfl, f.decode_encode, rfl⟩

/-- What a call makes of a stream: the fence stays, and so does the community once it is set. -/
structure Keeps (s s' : ReliableMeshStream) : Prop where
  fenced : s'.fenced = s.fenced
  latched : ∀ c, s.communityId = some c → s'.communityId = some c

theorem Keeps.refl (s : ReliableMeshStream) : s.Keeps s := ⟨rfl, fun _ hc => hc⟩

theorem Keeps.trans {s s' s'' : ReliableMeshStream} (h : s.Keeps s') (h' : s'.Keeps s'') :
    s.Keeps s'' :=
  ⟨h'.fenced.trans h.fenced, fun c hc => h'.latched c (h.latched c hc)⟩

theorem keeps_of_latch {s' : ReliableMeshStream} (hfenced : s'.fenced = s.fenced)
    (hset : s'.communityId = some c) (hbefore : s.communityId = none ∨ s.communityId = some c) :
    s.Keeps s' := by
  refine ⟨hfenced, fun c' hc' => ?_⟩
  rcases hbefore with hnone | hsome
  · rw [hnone] at hc'
    cases hc'
  · exact hset.trans (hsome.symm.trans hc')

theorem sendBytes_keeps (transport : Transport) (s : ReliableMeshStream) (communityId : CommunityId)
    (bytes : List UInt8) :
    s.Keeps (sendBytes transport s communityId bytes).2.1 ∧
      ∀ m ∈ (sendBytes transport s communityId bytes).2.2,
        (sendBytes transport s communityId bytes).2.1.communityId = some communityId ∧
          m.Carries s.fenced communityId := by
  obtain ⟨payloads, -, -, hframes, -⟩ := sendBytes_spec transport s communityId bytes
  have hcarries : ∀ m ∈ (sendBytes transport s communityId bytes).2.2,
      m.Carries s.fenced communityId := by
    intro m hm
    rw [hframes] at hm
    obtain ⟨payload, -, rfl⟩ := List.mem_map.mp hm
    exact carries_frame _ _
  rw [sendBytes] at hcarries ⊢
  cases hensure : s.ensureOutboundCommunity communityId with
  | error e => exact ⟨.refl s, nofun⟩
  | ok s₁ =>
    obtain ⟨hfenced, hset, hbefore⟩ := ensureOutboundCommunity_eq_ok hensure
    rw [hensure] at hcarries
    exact ⟨keeps_of_latch hfenced hset hbefore, fun m hm => ⟨hset, hcarries m hm⟩⟩

theorem sendGoodbye_keeps (transport : Transport) (finish : Except MeshError Unit)
    (s : ReliableMeshStream) (communityId : CommunityId) (reason : GoodbyeReason) :
    s.Keeps (sendGoodbye transport finish s communityId reason).2.1 ∧
      ∀ m ∈ (sendGoodbye transport finish s communityId reason).2.2,
        (sendGoodbye transport finish s communityId reason).2.1.communityId = some communityId ∧
          m.Carries s.fenced communityId := by
  rw [sendGoodbye]
  cases hensure : s.ensureOutboundCommunity communityId with
  | error e => exact ⟨.refl s, nofun⟩
  | ok s₁ =>
    obtain ⟨hfenced, hset, hbefore⟩ := ensureOutboundCommunity_eq_ok hensure
    obtain ⟨done, rest, hdone, hhanded, -⟩ :=
      sendFrames_spec transport [] [frame s₁.fenced (.goodbye communityId reason)]
    have hcarries : ∀ m ∈ (sendFrames transport []
        [frame s₁.fenced (.goodbye communityId reason)]).2, m.Carries s.fenced communityId := by
      intro m hm
      rw [hhanded, List.nil_append] at hm
      have hmem : m ∈ done ++ rest := List.mem_append_left rest hm
      rw [hdone, List.mem_singleton] at hmem
      rw [hmem, hfenced]
      exact carries_frame _ _
    dsimp only
    generalize sendFrames transport [] [frame s₁.fenced (.goodbye communityId reason)] = sent
      at hcarries ⊢
    obtain ⟨_ | _, handed⟩ := sent
    · exact ⟨keeps_of_latch hfenced hset hbefore, fun m hm => ⟨hset, hcarries m hm⟩⟩
    · exact ⟨keeps_of_latch hfenced hset hbefore, fun m hm => ⟨hset, hcarries m hm⟩⟩

/-- What `recv_validated` returns is a frame under the fence of the stream, of its community. -/
theorem recvValidated_keeps (incoming : Except MeshError (Option MeshStreamFrame))
    (validate : Validate) (s : ReliableMeshStream) :
    s.Keeps (s.recvValidated incoming validate).2 ∧
      ∀ opened m, (s.recvValidated incoming validate).1 = .ok (some opened) →
        incoming = .ok (some m) →
        ∃ c, (s.recvValidated incoming validate).2.communityId = some c ∧ m.Carries s.fenced c := by
  match incoming with
  | .error e | .ok none | .ok (some .goodbye) | .ok (some .hello) | .ok (some .gossip) =>
    exact ⟨.refl s, nofun⟩
  | .ok (some (.data fenced payload)) =>
    cases hdecode : ReliableWireFrame.decode payload with
    | error e =>
      simp only [recvValidated, hdecode]
      exact ⟨.refl s, nofun⟩
    | ok f =>
      cases hvalid : s.validateFrameFence validate f.communityId fenced with
      | error e =>
        simp only [recvValidated, hdecode, hvalid]
        exact ⟨.refl s, nofun⟩
      | ok s₁ =>
        simp only [recvValidated, hdecode, hvalid]
        obtain ⟨rfl, hfenced, hset, hbefore⟩ := validateFrameFence_eq_ok hvalid
        refine ⟨keeps_of_latch hfenced hset hbefore, fun opened m _ hm => ?_⟩
        obtain rfl := Option.some.inj (Except.ok.inj hm)
        exact ⟨f.communityId, hset, payload, f, rfl, hdecode, rfl⟩

end ReliableMeshStream

namespace Session

/-- Every frame that was sent or delivered is of the community of the stream, which is set. -/
def Carries (s : Session) : Prop :=
  ∀ m ∈ s.sent ++ s.delivered, ∃ c, s.stream.communityId = some c ∧ m.Carries s.stream.fenced c

/-- A step keeps the community, and what it sends or delivers is of it. -/
theorem step_keeps (s : Session) (call : StreamCall) :
    s.stream.Keeps (s.step call).stream ∧ (s.Carries → (s.step call).Carries) := by
  -- frames that were there before are still of the community
  have hold {s' : Session} (hkeeps : s.stream.Keeps s'.stream) (hs : s.Carries)
      {m : MeshStreamFrame} (hm : m ∈ s.sent ++ s.delivered) :
      ∃ c, s'.stream.communityId = some c ∧ m.Carries s'.stream.fenced c := by
    obtain ⟨c, hc, hcarries⟩ := hs m hm
    exact ⟨c, hkeeps.latched c hc, hkeeps.fenced ▸ hcarries⟩
  have hsent {s' : Session} {frames : List MeshStreamFrame} {c : CommunityId}
      (hkeeps : s.stream.Keeps s'.stream) (hs : s.Carries)
      (hframes : ∀ m ∈ frames, s'.stream.communityId = some c ∧ m.Carries s.stream.fenced c)
      (hs' : s'.sent = s.sent ++ frames) (hdelivered : s'.delivered = s.delivered) :
      s'.Carries := by
    intro m hm
    rw [hs', hdelivered, List.mem_append, List.mem_append] at hm
    rcases hm with (hm | hm) | hm
    · exact hold hkeeps hs (List.mem_append_left _ hm)
    · exact ⟨c, (hframes m hm).1, hkeeps.fenced ▸ (hframes m hm).2⟩
    · exact hold hkeeps hs (List.mem_append_right _ hm)
  cases call with
  | sendBytes transport c bytes =>
    obtain ⟨hkeeps, hframes⟩ := s.stream.sendBytes_keeps transport c bytes
    exact ⟨hkeeps, fun hs => hsent hkeeps hs hframes rfl rfl⟩
  | sendGoodbye transport finish c reason =>
    obtain ⟨hkeeps, hframes⟩ := s.stream.sendGoodbye_keeps transport finish c reason
    exact ⟨hkeeps, fun hs => hsent hkeeps hs hframes rfl rfl⟩
  | recvValidated incoming validate =>
    obtain ⟨hkeeps, hframes⟩ := s.stream.recvValidated_keeps incoming validate
    refine ⟨hkeeps, fun hs m hm => ?_⟩
    rw [step, ← List.append_assoc, List.mem_append] at hm
    rcases hm with hm | hm
    · exact hold hkeeps hs hm
    · split at hm
      next opened frame hresult =>
        obtain rfl := List.mem_singleton.mp hm
        obtain ⟨c, hc, hcarries⟩ := hframes opened m hresult rfl
        exact ⟨c, hc, hkeeps.fenced ▸ hcarries⟩
      next => cases hm

theorem run_keeps (s : Session) (calls : List StreamCall) :
    s.stream.Keeps (s.run calls).stream ∧ (s.Carries → (s.run calls).Carries) := by
  induction calls generalizing s with
  | nil => exact ⟨.refl _, id⟩
  | cons call calls ih =>
    obtain ⟨hkeeps, hcarries⟩ := s.step_keeps call
    obtain ⟨hkeeps', hcarries'⟩ := ih (s.step call)
    exact ⟨hkeeps.trans hkeeps', hcarries' ∘ hcarries⟩

end Session

open ReliableMeshStream in
/-- The framing: a codec of frames, a faithful transport of bytes, and one community for a
stream. -/
theorem reliable_framing :
    (∀ f : ReliableWireFrame, ReliableWireFrame.decode f.encode = .ok f) ∧
    (∀ bytes f, ReliableWireFrame.decode bytes = .ok f → f.encode = bytes) ∧
    (∀ transport s c bytes s' frames, sendBytes transport s c bytes = (.ok (), s', frames) →
      ∃ payloads : List (List UInt8),
        frames = payloads.map (fun payload => frame s.fenced (.data c payload)) ∧
        payloads.flatten = bytes ∧
        (∀ payload ∈ payloads, payload ≠ [] ∧ payload.length ≤ MAX_RELIABLE_PAYLOAD_BYTES) ∧
        ∀ validate r, r.fenced = s.fenced → (r.communityId = none ∨ r.communityId = some c) →
          validate c s.fenced = .ok () → recvAll validate r frames = .ok (payloads.map .data)) ∧
    ∀ stream : ReliableMeshStream, ∀ before after : List StreamCall,
      (∀ c, ((Session.start stream).run before).stream.communityId = some c →
        ((Session.start stream).run (before ++ after)).stream.communityId = some c) ∧
      ((Session.start stream).run before).Carries := by
  refine ⟨ReliableWireFrame.decode_encode, fun _ _ => ReliableWireFrame.encode_decode,
    fun transport s c bytes s' frames hsent => ?_, fun stream before after => ⟨fun c hc => ?_, ?_⟩⟩
  · obtain ⟨payloads, rest, hchunks, hframes, hrest⟩ := sendBytes_spec transport s c bytes
    simp only [hsent] at hframes hrest
    rw [hrest trivial, List.append_nil] at hchunks
    refine ⟨payloads, hframes, hchunks ▸ flatten_chunks _ _,
      hchunks ▸ length_of_mem_chunks (by decide) bytes,
      fun validate r hfenced hcommunity hvalid => ?_⟩
    rw [← hfenced] at hvalid hframes
    rw [hframes]
    exact recvAll_payloads payloads hcommunity hvalid
  · rw [Session.run, List.foldl_append]
    exact (Session.run_keeps _ after).1.latched c hc
  · exact (Session.run_keeps _ before).2 nofun

end Buzz.Relay.Tunnel
