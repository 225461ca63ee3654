import BitcoinNetwork.Binary.Wire
import BitcoinNetwork.Zmtp.Codec
import BitcoinNetwork.Zmtp.Requests

/-!
# Notifications and responses written as frames (net/socket_zmtp.cpp)

A message is written as one packet of its frame heads and of the parts that are not shared,
between which the shared parts are referenced.
-/

namespace BitcoinNetwork.Zmtp
open Binary
open Http (ascii)

/-! ### Values -/

/-- `encode_value`. -/
def encodeValue : Value → Except SocketError Bytes
  | .null => .ok []
  | .boolean flag => .ok [if flag then 0x01 else 0x00]
  | .string text => .ok text
  | .any (.chunk chunk) => .ok chunk
  | .any _ => .error .unserializable
  | .int8 number => .ok (toLittle 1 number.toUInt8.toNat)
  | .int16 number => .ok (toLittle 2 number.toUInt16.toNat)
  | .int32 number => .ok (toLittle 4 number.toUInt32.toNat)
  | .int64 number => .ok (toLittle 8 number.toUInt64.toNat)
  | .uint8 number => .ok (toLittle 1 number.toNat)
  | .uint16 number => .ok (toLittle 2 number.toNat)
  | .uint32 number => .ok (toLittle 4 number.toNat)
  | .uint64 number => .ok (toLittle 8 number.toNat)
  | .number | .array | .object | .json => .error .unserializable

/-- `encode_params`. -/
def encodeParams : Option Params → Except SocketError (List Bytes)
  | none => .ok []
  | some (.value value) => (encodeValue value).map fun part => [part]
  | some (.array values) => values.mapM encodeValue
  | some .object => .error .unserializable

/-- `part`: bytes, a shared chunk or a streamable value. -/
inductive Part
  | bytes (data : Bytes)
  | chunk (data : Bytes)
  | value (data : Streamable)

/-- `part_size`. -/
def Part.size : Part → ℕ
  | .bytes data => data.length
  | .chunk data => data.length
  | .value data => data.size

/-- `encode_part`. -/
def encodePart : Value → Except SocketError Part
  | .any (.streamable value) => .ok (.value value)
  | .any (.chunk chunk) => .ok (.chunk chunk)
  | .any .other => .error .unserializable
  | value => (encodeValue value).map .bytes

/-- `encode_parts`. -/
def encodeParts : Option Params → Except SocketError (List Part)
  | none => .ok []
  | some (.value value) => (encodePart value).map fun part => [part]
  | some (.array values) => values.mapM encodePart
  | some .object => .error .unserializable

/-! ### Packets -/

/-- A buffer of a write is within the packet, or is that of a shared part. -/
inductive Buffered
  | packet (offset size : ℕ)
  | shared (bytes : Bytes)
  deriving DecidableEq

/-- `zmtp_write_state`. -/
structure WriteState where
  packet : Bytes
  buffers : List Buffered
  deriving DecidableEq

/-- The bytes of the buffers. -/
def WriteState.bytes (out : WriteState) : Bytes :=
  out.buffers.flatMap fun
    | .packet offset size => (out.packet.drop offset).take size
    | .shared bytes => bytes

/-- `frame_packet`. -/
def framePacket (packet : Bytes) : WriteState := ⟨packet, [.packet 0 packet.length]⟩

/-- The bytes of a part that is shared. -/
def Part.share : Part → Option Bytes
  | .bytes _ => none
  | .chunk data => some data
  | .value data => data.bytes

/-- What a part that is not shared writes. -/
def Part.write : Part → Bytes
  | .bytes data => data
  | .chunk _ => []
  | .value data => data.encoding

/-- The packet is referenced from the cut up to the position, unless that is nothing. -/
def cutPacket (cut position : ℕ) : List Buffered :=
  if cut < position then [.packet cut (position - cut)] else []

/-- The loop of `frame_parts`, from what is written of the packet and of the buffers. -/
def framePartsFrom : List Part → Bytes → List Buffered → ℕ → ℕ → WriteState
  | [], packet, buffers, cut, position => ⟨packet, buffers ++ cutPacket cut position⟩
  | part :: parts, packet, buffers, cut, position =>
    let more := parts ≠ []
    match part.share with
    | some share =>
      let packet := packet ++ frameHead share.length false more
      let position := position + (frameSize share.length - share.length)
      framePartsFrom parts packet (buffers ++ cutPacket cut position ++ [.shared share]) position
        position
    | none =>
      let packet := packet ++ frameHead part.size false more ++ part.write
      let position := position + (frameSize part.size - part.size) + part.size
      framePartsFrom parts packet buffers cut position

/-- `frame_parts`. -/
def frameParts (message : List Part) : WriteState := framePartsFrom message [] [] 0 0

/-! ### Commands -/

/-- `make_command`. -/
def makeCommand (name content : Bytes) : Bytes := frameEncode (nameBytes name ++ content) true false

def maximumPingContext : ℕ := 16

/-- `make_pong`. -/
def makePong (context : Bytes) : Bytes :=
  makeCommand commandPong (context.take maximumPingContext)

/-! ### Encoding -/

/-- `encode_notification`. -/
def encodeNotification (role : Role) (notification : Request) : Except SocketError WriteState :=
  if notification.method = methodPong ∨ notification.method = methodPing then do
    let parts ← encodeParams notification.params
    if notification.method = methodPong then
      match parts with
      | [context] => .ok (framePacket (makePong context))
      | _ => .error .unserializable
    else
      match parts with
      | [ttl, context] =>
        if ttl.length ≠ ttlSize then .error .unserializable
        else .ok (framePacket (makeCommand commandPing (ttl.reverse ++ context)))
      | _ => .error .unserializable
  else
    match role with
    | .publisher => do
      let params ← encodeParts notification.params
      return frameParts (.bytes notification.method :: params)
    | .router => do
      let params ← encodeParts notification.params
      return frameParts (.bytes [] :: .bytes notification.method :: params)
    | _ => .error .unserializable

/-- `result_t`. -/
structure ResponseError where
  code : Int64
  message : Bytes

/-- `response_t`. -/
structure Response where
  error : Option ResponseError := none
  result : Option Value := none

/-- `encode_response`. -/
def encodeResponse (role : Role) (response : Response) : Except SocketError WriteState :=
  match role with
  | .replier | .router =>
    match response.error with
    | some error => do
      let code ← encodePart (.int64 error.code)
      return frameParts [.bytes [], code, .bytes error.message]
    | none => do
      let result ← encodePart (response.result.getD .null)
      return frameParts [.bytes [], result]
  | _ => .error .unserializable

end BitcoinNetwork.Zmtp
