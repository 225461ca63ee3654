import BitcoinNetwork.Binary.Bytes
import Mathlib.Data.List.Basic

/-!
# Websocket frames (ws/frame.cpp)

The frame header and its mask, the close payload and the incremental utf8
validator. What a function of the source writes to an out parameter is part of
its result, also where it fails.
-/

namespace BitcoinNetwork.Ws
open Binary

abbrev Bytes := List UInt8

/-- Codes set by the reader (`error_t`). -/
inductive WsError where
  | needMore
  | badReservedBits
  | badOpcode
  | badControlFragment
  | badControlSize
  | badUnmaskedFrame
  | badMaskedFrame
  | badSize
  | badContinuation
  | badDataFrame
  | messageTooBig
  | badFramePayload
  | websocketBufferOverflow
  | badCloseSize
  | badCloseCode
  | badClosePayload
  deriving DecidableEq, Repr

/-! ### Frame header -/

/-- Frame opcodes (rfc6455). -/
inductive Opcode where
  | continuation
  | text
  | binary
  | close
  | ping
  | pong
  deriving DecidableEq, Repr

/-- `to_value`. -/
def Opcode.value : Opcode → UInt8
  | .continuation => 0x0
  | .text => 0x1
  | .binary => 0x2
  | .close => 0x8
  | .ping => 0x9
  | .pong => 0xa

/-- The opcode of a value, if `is_defined`. -/
def Opcode.ofValue (value : UInt8) : Option Opcode :=
  [continuation, text, binary, close, ping, pong].find? fun code => code.value == value

/-- `is_control`. -/
def Opcode.isControl (code : Opcode) : Bool := Opcode.close.value ≤ code.value

/-- The frame masking key. -/
abbrev Mask := Vector UInt8 4

/-- `frame_header`. -/
structure FrameHeader where
  fin : Bool := false
  code : Opcode := .continuation
  masked : Bool := false
  length : ℕ := 0
  key : Mask := Vector.replicate 4 0
  deriving DecidableEq

def finBit : UInt8 := 0x80
def reservedBits : UInt8 := 0x70
def opcodeBits : UInt8 := 0x0f
def maskBit : UInt8 := 0x80
def lengthBits : UInt8 := 0x7f
def length16 : UInt8 := 126
def length64 : UInt8 := 127
def maximumControl : ℕ := 125

/-- The size of the extended length. -/
def extendedSize (length : UInt8) : ℕ :=
  if length = length16 then 2 else if length = length64 then 8 else 0

/-- The key in front of the bytes. -/
def keyOf (bytes : Bytes) : Mask := Vector.ofFn fun i => bytes.getD i.val 0

/-- `parse_header`: the header as it is left, and its size or the code. -/
def parseHeader (out : FrameHeader) (data : Bytes) (server : Bool) :
    FrameHeader × Except WsError ℕ :=
  match data with
  | first :: second :: rest =>
    if first &&& reservedBits ≠ 0 then (out, .error .badReservedBits)
    else match Opcode.ofValue (first &&& opcodeBits) with
      | none => (out, .error .badOpcode)
      | some code =>
        let out := { out with
          fin := first &&& finBit ≠ 0
          code := code
          masked := second &&& maskBit ≠ 0 }
        let length := second &&& lengthBits
        if code.isControl ∧ ¬out.fin then (out, .error .badControlFragment)
        else if code.isControl ∧ maximumControl < length.toNat then (out, .error .badControlSize)
        else if server ∧ ¬out.masked then (out, .error .badUnmaskedFrame)
        else if ¬server ∧ out.masked then (out, .error .badMaskedFrame)
        else
          let extended := extendedSize length
          let size := 2 + extended + if out.masked then 4 else 0
          if data.length < size then (out, .error .needMore)
          else
            let out := { out with
              length := if extended = 0 then length.toNat else ofBytes (rest.take extended) }
            -- lengths use the shortest encoding and the high bit is clear
            if (length = length16 ∧ out.length < length16.toNat) ∨
                (length = length64 ∧ (out.length ≤ 0xffff ∨ 2 ^ 63 ≤ out.length)) then
              (out, .error .badSize)
            else
              let out := if out.masked then { out with key := keyOf (rest.drop extended) } else out
              (out, .ok size)
  | _ => (out, .error .needMore)

/-- `serialize_header`. -/
def serializeHeader (code : Opcode) (fin : Bool) (length : ℕ) (key : Option Mask) : Bytes :=
  let first := (if fin then finBit else 0) ||| code.value
  let masked := if key.isSome then maskBit else 0
  let lengths :=
    if length < length16.toNat then [masked ||| length.toUInt8]
    else if length ≤ 0xffff then (masked ||| length16) :: toBytes 2 length
    else (masked ||| length64) :: toBytes 8 length
  let keys := match key with
    | some key => key.toList
    | none => []
  first :: (lengths ++ keys)

/-- `apply_mask`. -/
def applyMask (data : Bytes) (key : Mask) (offset : ℕ) : Bytes :=
  data.mapIdx fun index byte => byte ^^^ key.get (Fin.ofNat 4 (offset % 4 + index))

theorem applyMask_length (data : Bytes) (key : Mask) (offset : ℕ) :
    (applyMask data key offset).length = data.length := List.length_mapIdx

theorem applyMask_append (a b : Bytes) (key : Mask) (offset : ℕ) :
    applyMask (a ++ b) key offset
      = applyMask a key offset ++ applyMask b key (offset + a.length) := by
  simp only [applyMask, List.mapIdx_append]
  congr 1
  congr 1
  funext index byte
  have hphase : Fin.ofNat 4 (offset % 4 + (index + a.length))
      = Fin.ofNat 4 ((offset + a.length) % 4 + index) := by
    apply Fin.ext
    simp only [Fin.ofNat]
    omega
  rw [hphase]

/-- The mask is removed as it is applied. -/
theorem applyMask_applyMask (data : Bytes) (key : Mask) (offset : ℕ) :
    applyMask (applyMask data key offset) key offset = data := by
  simp only [applyMask, List.mapIdx_mapIdx]
  refine List.ext_getElem? fun index => ?_
  rw [List.getElem?_mapIdx]
  cases data[index]? with
  | none => rfl
  | some byte => simp only [Option.map_some, Function.comp, UInt8.xor_assoc, UInt8.xor_self, UInt8.xor_zero]

/-! ### Utf8 -/

/-- `utf8_validator`. -/
structure Utf8Validator where
  needed : ℕ := 0
  lower : UInt8 := 0x80
  upper : UInt8 := 0xbf
  deriving DecidableEq, Repr

namespace Utf8Validator

/-- One turn of the loop of `write`. -/
def writeByte (v : Utf8Validator) (byte : UInt8) : Bool × Utf8Validator :=
  if v.needed = 0 then
    let v := { v with lower := 0x80, upper := 0xbf }
    if byte ≤ 0x7f then (true, v)
    else if 0xc2 ≤ byte ∧ byte ≤ 0xdf then (true, { v with needed := 1 })
    else if 0xe0 ≤ byte ∧ byte ≤ 0xef then
      (true, { v with
        needed := 2
        lower := if byte = 0xe0 then 0xa0 else v.lower
        upper := if byte = 0xed then 0x9f else v.upper })
    else if 0xf0 ≤ byte ∧ byte ≤ 0xf4 then
      (true, { v with
        needed := 3
        lower := if byte = 0xf0 then 0x90 else v.lower
        upper := if byte = 0xf4 then 0x8f else v.upper })
    else (false, v)
  else if byte < v.lower ∨ v.upper < byte then (false, v)
  else (true, { needed := v.needed - 1 })

/-- `write`. -/
def write : Utf8Validator → Bytes → Bool × Utf8Validator
  | v, [] => (true, v)
  | v, byte :: data =>
    match v.writeByte byte with
    | (true, v) => v.write data
    | (false, v) => (false, v)

theorem write_append (v : Utf8Validator) (a b : Bytes) :
    v.write (a ++ b) = if (v.write a).1 then (v.write a).2.write b else v.write a := by
  induction a generalizing v with
  | nil => rfl
  | cons byte a ih =>
    rw [List.cons_append, write, write]
    obtain ⟨ok, next⟩ := v.writeByte byte
    cases ok with
    | true => exact ih next
    | false => rfl

/-- `finish`. -/
def finish (v : Utf8Validator) : Bool × Utf8Validator := (v.needed = 0, { v with needed := 0 })

end Utf8Validator

/-! ### Close payload -/

/-- `is_valid_close_code`. -/
def isValidCloseCode (value : ℕ) : Bool :=
  if [1000, 1001, 1002, 1003, 1007, 1008, 1009, 1010, 1011, 1012, 1013].contains value then true
  else if [1004, 1005, 1006, 1014, 1015].contains value then false
  else 999 < value && (value < 1016 || 2999 < value)

/-- `parse_close`: the close code (zero for an empty payload) and the reason. -/
def parseClose (payload : Bytes) : Except WsError (ℕ × Bytes) :=
  match payload with
  | [] => .ok (0, [])
  | [_] => .error .badCloseSize
  | high :: low :: text =>
    let value := ofBytes [high, low]
    if ¬isValidCloseCode value then .error .badCloseCode
    else
      let written := Utf8Validator.write {} text
      if ¬written.1 ∨ ¬written.2.finish.1 then .error .badClosePayload
      else .ok (value, text)

end BitcoinNetwork.Ws
