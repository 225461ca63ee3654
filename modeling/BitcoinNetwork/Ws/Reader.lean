import BitcoinNetwork.Ws.Frame

/-!
# The websocket reader (ws/reader.cpp)

`put` assembles data messages, and surfaces control frames, from the bytes
received. A data payload is unmasked into the message buffer as it arrives, a
control payload once it is complete. `read` drives it as its callers do: what
is not consumed is presented again in front of the bytes that arrive next, and
the message buffer is taken and cleared when a message is complete.
-/

namespace BitcoinNetwork.Ws

/-- `reader::event`. -/
inductive ReaderEvent where
  | none
  | message
  | ping
  | pong
  | close
  deriving DecidableEq, Repr

/-- `reader`. -/
structure Reader where
  maximum : ℕ
  server : Bool
  frame : FrameHeader := {}
  offset : ℕ := 0
  payload : Bool := false
  continuing : Bool := false
  binary : Bool := false
  size : ℕ := 0
  utf8 : Utf8Validator := {}
  control : Bytes := []
  deriving DecidableEq

/-- What a put function leaves: the reader, the message buffer, the size
consumed, the event and the code. -/
structure Put where
  reader : Reader
  message : Bytes
  used : ℕ := 0
  event : ReaderEvent := .none
  code : Option WsError := none
  deriving DecidableEq

namespace Reader

/-- `put_payload` of a control frame, of which the payload must be complete. -/
def putControl (reader : Reader) (data message : Bytes) : Put :=
  let remaining := reader.frame.length - reader.offset
  if data.length < remaining then { reader, message }
  else
    let payload := data.take remaining
    let payload := if reader.frame.masked then applyMask payload reader.frame.key 0 else payload
    let reader := { reader with control := payload, payload := false }
    match reader.frame.code with
    | .ping => { reader, message, used := remaining, event := .ping }
    | .pong => { reader, message, used := remaining, event := .pong }
    | _ =>
      match parseClose payload with
      | .ok _ => { reader, message, used := remaining, event := .close }
      | .error e => { reader, message, used := remaining, code := some e }

/-- The rest of `put_payload` of a data frame, once its bytes are in the message. -/
def putData (reader : Reader) (size : ℕ) (message : Bytes) : Put :=
  let reader := { reader with offset := reader.offset + size, size := reader.size + size }
  if reader.offset < reader.frame.length then { reader, message, used := size }
  else
    let reader := { reader with payload := false, continuing := !reader.frame.fin }
    if ¬reader.frame.fin then { reader, message, used := size }
    else if reader.binary then { reader, message, used := size, event := .message }
    else
      let finish := reader.utf8.finish
      let reader := { reader with utf8 := finish.2 }
      if ¬finish.1 then { reader, message, used := size, code := some .badFramePayload }
      else { reader, message, used := size, event := .message }

/-- `put_payload`, `limit` being `max_size()` of the message buffer. -/
def putPayload (limit : ℕ) (reader : Reader) (data message : Bytes) : Put :=
  if reader.frame.code.isControl then reader.putControl data message
  else
    let size := min (reader.frame.length - reader.offset) data.length
    if size = 0 then reader.putData size message
    -- `prepare` throws
    else if limit - message.length < size then
      { reader, message, code := some .websocketBufferOverflow }
    else
      let target := data.take size
      let target := if reader.frame.masked then applyMask target reader.frame.key reader.offset
        else target
      if reader.binary then reader.putData size (message ++ target)
      else
        let written := reader.utf8.write target
        let reader := { reader with utf8 := written.2 }
        if ¬written.1 then { reader, message, code := some .badFramePayload }
        else reader.putData size (message ++ target)

/-- The payload that follows a header, which a frame without one completes. -/
def enterPayload (limit : ℕ) (reader : Reader) (size : ℕ) (message : Bytes) : Put :=
  if ¬reader.frame.code.isControl ∧
      reader.maximum - min reader.maximum reader.size < reader.frame.length then
    { reader, message, code := some .messageTooBig }
  else
    let reader := { reader with offset := 0, payload := true }
    if reader.frame.length = 0 then { reader.putPayload limit [] message with used := size }
    else { reader, message, used := size }

/-- `put_header`. -/
def putHeader (limit : ℕ) (reader : Reader) (data message : Bytes) : Put :=
  match parseHeader reader.frame data reader.server with
  | (frame, .error .needMore) => { reader := { reader with frame }, message }
  | (frame, .error e) => { reader := { reader with frame }, message, code := some e }
  | (frame, .ok size) =>
    let reader := { reader with frame }
    match frame.code with
    | .continuation =>
      if ¬reader.continuing then { reader, message, code := some .badContinuation }
      else reader.enterPayload limit size message
    | .text | .binary =>
      if reader.continuing then { reader, message, code := some .badDataFrame }
      else
        let reader := { reader with binary := decide (frame.code = Opcode.binary), utf8 := {}, size := 0 }
        reader.enterPayload limit size message
    | _ =>
      let reader := { reader with control := [] }
      reader.enterPayload limit size message

/-- The loop of `put`, of which every turn but the last consumes. -/
def putLoop (limit : ℕ) : ℕ → Reader → Bytes → Bytes → Put
  | 0, reader, _, message => { reader, message, code := some .needMore }
  | turns + 1, reader, data, message =>
    let put := if reader.payload then reader.putPayload limit data message
      else reader.putHeader limit data message
    if put.code ≠ none ∨ put.event ≠ .none then put
    else if put.used = 0 then { put with code := some .needMore }
    else
      let next := putLoop limit turns put.reader (data.drop put.used) put.message
      { next with used := put.used + next.used }

/-- `put`. -/
def put (limit : ℕ) (reader : Reader) (data message : Bytes) : Put :=
  putLoop limit (data.length + 1) reader data message

end Reader

/-! ### Reading -/

/-- An event with what its caller finds: the message and whether it is binary, or
the payload of the control frame. -/
inductive Event where
  | message (binary : Bool) (payload : Bytes)
  | ping (payload : Bytes)
  | pong (payload : Bytes)
  | close (payload : Bytes)
  deriving DecidableEq

/-- How reading ends while the stream lasts: for want of bytes, or failed. -/
inductive ReadResult where
  | needMore
  | failed (code : WsError)
  deriving DecidableEq

/-- The event of a put, and the message buffer once it is taken. -/
def Put.taken (put : Put) : Option Event × Bytes :=
  match put.event with
  | .none => (none, put.message)
  | .message => (some (.message put.reader.binary put.message), [])
  | .ping => (some (.ping put.reader.control), put.message)
  | .pong => (some (.pong put.reader.control), put.message)
  | .close => (some (.close put.reader.control), put.message)

/-- The events of the bytes that are buffered, until more are needed or an error. -/
def readBuffered (limit : ℕ) :
    ℕ → Reader → Bytes → Bytes → List Event × (Reader × Bytes × Bytes) × ReadResult
  | 0, reader, message, buffer => ([], (reader, message, buffer), .needMore)
  | turns + 1, reader, message, buffer =>
    let put := reader.put limit buffer message
    let rest := buffer.drop put.used
    match put.code with
    | some .needMore => ([], (put.reader, put.message, rest), .needMore)
    | some e => ([], (put.reader, put.message, rest), .failed e)
    | none =>
      let next := readBuffered limit turns put.reader put.taken.2 rest
      (put.taken.1.toList ++ next.1, next.2)

/-- The events of the bytes that arrive in pieces behind those that are buffered,
with the reader, the message buffer and the bytes that are left. -/
def read (limit : ℕ) :
    List Bytes → Reader → Bytes → Bytes → List Event × (Reader × Bytes × Bytes) × ReadResult
  | [], reader, message, buffer => readBuffered limit (buffer.length + 1) reader message buffer
  | piece :: pieces, reader, message, buffer =>
    match readBuffered limit (buffer.length + 1) reader message buffer with
    | (events, (reader, message, rest), .needMore) =>
      let next := read limit pieces reader message (rest ++ piece)
      (events ++ next.1, next.2)
    | (events, left, .failed e) => (events, left, .failed e)

/-- The events of a stream that arrives in pieces, and how it ends. -/
def readPieces (maximum limit : ℕ) (server : Bool) (pieces : List Bytes) :
    List Event × ReadResult :=
  let read := read limit pieces { maximum, server } [] []
  (read.1, read.2.2)

end BitcoinNetwork.Ws
