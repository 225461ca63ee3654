import BitcoinNetwork.Binary.Span
import BitcoinNetwork.Http.Text

/-!
# The frames of ZMTP (zmtp/stream.cpp)

Frames are encoded by the rules of version 3.1, and read from any bytes: what
reads outside of its span has no result, so that each reader is shown to stay
within.
-/

namespace BitcoinNetwork.Zmtp
open Binary
open Http (ascii)

abbrev Bytes := List UInt8

/-! ### Flags (zmtp/stream.hpp) -/

def flagMore : UInt8 := 0x01
def flagLong : UInt8 := 0x02
def flagCommand : UInt8 := 0x04

/-- `frame`. -/
structure Frame where
  flags : UInt8
  body : Bytes
  deriving DecidableEq

namespace Frame

/-- `command`. -/
def command (frame : Frame) : Bool := frame.flags &&& flagCommand != 0

/-- `more`. -/
def more (frame : Frame) : Bool := frame.flags &&& flagMore != 0

end Frame

/-! ### Encoding -/

/-- The flags of a frame, but for LONG. -/
def flagsOf (command more : Bool) : UInt8 :=
  (if command then flagCommand else 0) ||| (if more then flagMore else 0)

/-- `write_frame_head`. -/
def frameHead (body : ℕ) (command more : Bool) : Bytes :=
  if 0xff < body then (flagsOf command more ||| flagLong) :: toBytes 8 body
  else flagsOf command more :: toBytes 1 body

/-- `frame_size`. -/
def frameSize (body : ℕ) : ℕ := 1 + (if 0xff < body then 8 else 1) + body

/-- `frame_encode`. -/
def frameEncode (body : Bytes) (command more : Bool) : Bytes :=
  frameHead body.length command more ++ body

/-- `frame_message`. -/
def frameMessage : List Bytes → Bytes
  | [] => []
  | [part] => frameEncode part false false
  | part :: parts => frameEncode part false true ++ frameMessage parts

/-! ### Decoding -/

/-- The end of `frame_decode`, once the length is read. -/
def frameBody (flags : UInt8) (length : ℕ) (buffer : Bytes) : Option (Option (Frame × Bytes)) :=
  if buffer.length < length then some none
  else do
    let body ← first buffer length
    let rest ← subspan buffer length
    return some (⟨flags, body⟩, rest)

/-- `frame_decode`: the frame and the remainder, if it returns true. -/
def frameDecode (buffer : Bytes) : Option (Option (Frame × Bytes)) :=
  if buffer = [] then some none
  else do
    let flags ← front buffer
    let buffer ← subspan buffer 1
    if flags &&& flagLong ≠ 0 then
      if buffer.length < 8 then return none
      else
        let bytes ← first buffer 8
        let buffer ← subspan buffer 8
        frameBody flags (ofBytes bytes) buffer
    else if buffer = [] then return none
    else
      let length ← front buffer
      let buffer ← subspan buffer 1
      frameBody flags length.toNat buffer

/-! ### Commands -/

/-- `command_name`: the name of a command and the remainder, if it returns true. -/
def commandName (frame : Bytes) : Option (Option (Bytes × Bytes)) :=
  if frame = [] then some none
  else do
    let length ← front frame
    if frame.length < 1 + length.toNat then return none
    else
      let tail ← subspan frame 1
      let name ← first tail length.toNat
      let body ← subspan frame (1 + length.toNat)
      return some (name, body)

/-- `make_property`. -/
def makeProperty (name value : Bytes) : Bytes :=
  toBytes 1 name.length ++ name ++ toBytes 4 value.length ++ value

/-- A turn of `ready_property`: what is found, or the remainder to go on with. -/
def propertyTurn (property data : Bytes) : Option (Option (Bytes ⊕ Bytes)) := do
  let nameSize ← front data
  if data.length < 1 + nameSize.toNat then return none
  else
    let tail ← subspan data 1
    let name ← first tail nameSize.toNat
    let data ← subspan data (1 + nameSize.toNat)
    if data.length < 4 then return none
    else
      let size ← first data 4
      let data ← subspan data 4
      if data.length < ofBytes size then return none
      else if name = property then
        let value ← first data (ofBytes size)
        return some (.inl value)
      else
        let data ← subspan data (ofBytes size)
        return some (.inr data)

/-- The loop of `ready_property`. -/
def propertyLoop (property : Bytes) : ℕ → Bytes → Option (Option Bytes)
  | 0, _ => some none
  | turns + 1, data =>
    if data = [] then some none
    else do
      match ← propertyTurn property data with
      | none => return none
      | some (.inl value) => return some value
      | some (.inr data) => propertyLoop property turns data

/-- `ready_property`: the value, if it returns true. -/
def readyProperty (property body : Bytes) : Option (Option Bytes) :=
  propertyLoop property (body.length + 1) body

end BitcoinNetwork.Zmtp
