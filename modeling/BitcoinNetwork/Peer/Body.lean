import BitcoinNetwork.P2ps.Messages
import BitcoinNetwork.Peer.Messages

/-!
# Reading peer messages (messages/peer/body.cpp, net/socket_peer.cpp, channels/channel_peer.cpp)

A message is read as a heading and the payload behind it, or from an encrypted packet that
has an identifier in front of the payload. Both come to the registry.
-/

namespace BitcoinNetwork.Peer
open Binary Async

/-- A message of any type, with its type. -/
structure AnyMessage (chain : Chain) where
  kind : Kind
  message : kind.Message chain

/-- `registry::to_any`, where what is behind the message in the data is not looked at. -/
def Registry.toAny (chain : Chain) (index : ℕ) (data : Bytes) (version : UInt32) (witness : Bool) :
    Option (AnyMessage chain) :=
  match kinds[index]? with
  | some kind => (kind.deserialize chain version witness data).map fun r => ⟨kind, r.1⟩
  | none => none

/-- A message is of the type at its index. -/
theorem Registry.toAny_kind {chain : Chain} {index : ℕ} {data : Bytes} {version : UInt32}
    {witness : Bool} {message : AnyMessage chain}
    (h : toAny chain index data version witness = some message) : kinds[index]? = some message.kind := by
  unfold toAny at h
  split at h
  · rename_i kind hkind
    obtain ⟨r, -, heq⟩ := Option.map_eq_some_iff.mp h
    rw [hkind, ← heq]
  · cases h

/-- The command at the index is that of the message. -/
theorem Registry.map_command {chain : Chain} {index : ℕ} {data : Bytes} {version : UInt32}
    {witness : Bool} {kind : Kind} (h : kinds[index]? = some kind) :
    ((toAny chain index data version witness).map fun message => (kind.command, message)) =
      (toAny chain index data version witness).map fun message =>
        (message.kind.command, message) := by
  apply Option.map_congr
  intro message hmessage
  have hkind := toAny_kind hmessage
  rw [h] at hkind
  rw [Option.some.inj hkind]

theorem Registry.toAny_unknown {chain : Chain} {index : ℕ} (data : Bytes) (version : UInt32)
    (witness : Bool) (h : kinds[index]? = none) : toAny chain index data version witness = none := by
  unfold toAny
  rw [h]

/-- The index of a message that has a short identifier, or else a command. -/
def Registry.indexOfMessage (identifier : UInt8) (command : Bytes) : ℕ :=
  if identifier = 0 then indexOfCommand command else indexOfIdentifier identifier

/-! ### The body reader -/

/-- The details of what is wrong with a message. -/
inductive Fault
  | invalidHeading | invalidMagic | oversizedPayload | invalidChecksum | invalidMessage
  | unknownMessage
  deriving DecidableEq

/-- The codes of a read, of which that of the body reader is generic. -/
inductive ReadCode
  | success
  | badValue
  | transport (fault : ℕ)
  | packet (code : P2ps.Code)
  deriving DecidableEq

/-- What a message is read with, and what is read. -/
structure Frame (chain : Chain) where
  magic : UInt32
  version : UInt32
  witness : Bool
  checksum : Bool
  maximum : ℕ
  fault : Option Fault := none
  head : Heading := { magic := 0, command := [], payloadSize := 0, checksum := 0 }
  payload : Option (AnyMessage chain) := none

/-- `body::reader`. -/
structure BodyReader (chain : Chain) where
  value : Frame chain
  need : ℕ
  headed : Bool
  done : Bool

namespace BodyReader
variable {chain : Chain}

def init (value : Frame chain) : BodyReader chain where
  value := { value with fault := none }
  need := Heading.size
  headed := false
  done := false

def setFault (r : BodyReader chain) (fault : Fault) : BodyReader chain :=
  { r with value := { r.value with fault := some fault } }

/-- `accept`: whether the payload of the heading is accepted. -/
def accept (r : BodyReader chain) (payload : Bytes) : BodyReader chain × Bool :=
  if r.value.checksum ∧ r.value.head.checksum ≠ networkChecksum (chain.bitcoinHash payload) then
    (r.setFault .invalidChecksum, false)
  else
    let message := Registry.toAny chain (Registry.indexOfCommand r.value.head.command) payload
      r.value.version r.value.witness
    let r := { r with value := { r.value with payload := message } }
    match message with
    | none => (r.setFault .invalidMessage, false)
    | some _ => ({ r with need := 0, done := true }, true)

/-- `put` of a buffer, which is the heading or, behind it, the payload. -/
def put (r : BodyReader chain) (buffer : Bytes) : BodyReader chain × ReadCode :=
  if r.headed then
    if buffer.length < r.need then (r, .success)
    else
      let accepted := r.accept (buffer.take r.need)
      (accepted.1, if accepted.2 then .success else .badValue)
  else if buffer.length < Heading.size then (r, .success)
  else
    match Heading.deserialize (buffer.take Heading.size) with
    | none => (r.setFault .invalidHeading, .badValue)
    | some (head, _) =>
      let r := { r with value := { r.value with head } }
      if head.magic ≠ r.value.magic then (r.setFault .invalidMagic, .badValue)
      else if r.value.maximum < head.payloadSize.toNat then
        (r.setFault .oversizedPayload, .badValue)
      else
        let r := { r with headed := true, need := head.payloadSize.toNat }
        -- An empty payload completes the message.
        if r.need = 0 then
          let accepted := r.accept []
          (accepted.1, if accepted.2 then .success else .badValue)
        else (r, .success)

/-- `put` of an identified message. -/
def putMessage (r : BodyReader chain) (identifier : UInt8) (command payload : Bytes) :
    BodyReader chain × ReadCode :=
  let index := Registry.indexOfMessage identifier command
  match Registry.kinds[index]? with
  | none => (r.setFault .unknownMessage, .badValue)
  | some kind =>
    if r.value.maximum < payload.length then (r.setFault .oversizedPayload, .badValue)
    else
      let head : Heading :=
        { magic := r.value.magic, command := kind.command,
          payloadSize := .ofNat payload.length, checksum := 0 }
      let message := Registry.toAny chain index payload r.value.version r.value.witness
      let r := { r with value := { r.value with head, payload := message } }
      match message with
      | none => (r.setFault .invalidMessage, .badValue)
      | some _ => ({ r with need := 0, headed := true, done := true }, .success)

end BodyReader

/-! ### The socket -/

section
variable {chain : Chain} {α : Type}

/-- `do_peer_read` of a link that is not encrypted, and `handle_peer_read`: what was
retained when the link was detected is drained into the read. -/
def doPeerRead : ℕ → Bytes → BodyReader chain → (ReadCode → Frame chain → Program α) → Program α
  | 0, _, _, _ => .stop
  | turns + 1, detection, r, handler =>
    let front := detection.take r.need
    .read (r.need - front.length) fun
      | .error fault => handler (.transport fault) r.value
      | .ok rest =>
        let result := r.put (front ++ rest)
        if result.2 ≠ .success then handler result.2 result.1.value
        else if result.1.done then handler .success result.1.value
        else doPeerRead turns (detection.drop r.need) result.1 handler

/-- `do_peer_read` of an encrypted link, and `handle_peer_read_encrypted`. -/
def doPeerReadEncrypted {primitives : P2ps.Primitives} (turns : ℕ)
    (stream : P2ps.Stream primitives) (maximum : ℕ) (r : BodyReader chain)
    (handler : ReadCode → Frame chain → Program α) : Program α :=
  P2ps.Stream.asyncReadMessage turns stream maximum fun _ => fun
    | .error code => handler (.packet code) r.value
    | .ok m =>
      let result := r.putMessage m.identifier m.command m.payload
      handler result.2 result.1.value

/-- How a peer is linked: with what is left of the detection, or by an encrypted stream. -/
inductive Link (primitives : P2ps.Primitives)
  | clear (detection : Bytes)
  | encrypted (stream : P2ps.Stream primitives)

/-- `peer_read`. -/
def peerRead {primitives : P2ps.Primitives} (turns maximum : ℕ) (link : Link primitives)
    (message : Frame chain) (handler : ReadCode → Frame chain → Program α) : Program α :=
  match link with
  | .clear detection => doPeerRead turns detection (.init message) handler
  | .encrypted stream => doPeerReadEncrypted turns stream maximum (.init message) handler

/-- What a channel does of a read: it stops, or it notifies of the payload by its method. -/
inductive Received (chain : Chain)
  | stopped (code : ReadCode) (fault : Option Fault)
  | notified (method : Bytes) (payload : Option (AnyMessage chain))

/-- `handle_receive`. -/
def handleReceive (code : ReadCode) (value : Frame chain) : Received chain :=
  if code ≠ .success then .stopped code value.fault
  else .notified value.head.command value.payload

end

/-! ### What is delivered -/

section
variable {chain : Chain}

/-- What the message of an index is to be delivered as, with its command: nothing if it
is not registered, is too large or is not decoded. -/
def delivery (value : Frame chain) (index : ℕ) (payload : Bytes) :
    Option (Bytes × AnyMessage chain) :=
  if value.maximum < payload.length then none
  else (Registry.toAny chain index payload value.version value.witness).map fun message =>
    (message.kind.command, message)

/-- The channel is notified of what is delivered, and stops if nothing is. -/
def Received.Is (received : Received chain) : Option (Bytes × AnyMessage chain) → Prop
  | some (method, message) => received = .notified method (some message)
  | none => ∃ code fault, received = .stopped code fault

/-- A message is of the type of its index, and has its command. -/
theorem delivery_kind {value : Frame chain} {index : ℕ} {payload : Bytes} {method : Bytes}
    {message : AnyMessage chain} (h : delivery value index payload = some (method, message)) :
    Registry.kinds[index]? = some message.kind ∧ method = message.kind.command := by
  unfold delivery at h
  split at h
  · cases h
  · obtain ⟨found, hfound, heq⟩ := Option.map_eq_some_iff.mp h
    cases heq
    exact ⟨Registry.toAny_kind hfound, rfl⟩

end

end BitcoinNetwork.Peer
