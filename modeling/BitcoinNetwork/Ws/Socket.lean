import BitcoinNetwork.Async.Transition
import BitcoinNetwork.Net.Code
import BitcoinNetwork.Ws.Reader

/-!
# The frames of an upgraded socket (net/socket_ws.cpp, net/socket_stop.cpp)

Everything here runs on the strand of the socket. A handler that is invoked may make any
calls of its own. That of a read is invoked last, so its calls are those that come next.
-/

namespace BitcoinNetwork.Ws
open Async Net

/-- The handler of a frame: that of the caller, by number, `handle_ws_echo` and
`handle_ws_close`. -/
inductive Handler
  | caller (id : ℕ)
  | echo
  | close
  deriving DecidableEq

/-- `ws_frame`, by number, with what its header is serialized from. Its `payload` is held,
and its `data` is a buffer of the caller. -/
structure WsFrame where
  id : ℕ
  code : Opcode
  finish : Bool := true
  payload : Bytes := []
  data : Bytes := []
  handler : Option Handler := none
  deriving DecidableEq

namespace WsFrame

/-- The second buffer of the write. -/
def body (frame : WsFrame) : Bytes := if frame.payload = [] then frame.data else frame.payload

/-- The first buffer of the write. -/
def header (frame : WsFrame) : Bytes :=
  serializeHeader frame.code frame.finish frame.body.length none

/-- The bytes of the write. -/
def bytes (frame : WsFrame) : Bytes := frame.header ++ frame.body

end WsFrame

/-- What the handler of a read is told: success, a code of the reader, websocket_closed or
a code of the socket. -/
inductive ReadCode
  | success
  | framing (code : WsError)
  | websocketClosed
  | socket (code : Code)
  deriving DecidableEq

/-- Where a read is: there is none, it waits for bytes, or for the echo of a close. -/
inductive Reading
  | idle
  | receiving
  | echoing
  deriving DecidableEq

/-- What a caller writes: a fragment of a message. -/
structure Fragment where
  data : Bytes
  binary : Bool
  finish : Bool
  deriving DecidableEq

/-- The socket, where `limit` is `max_size()` of the buffer that a read is given, with its
writes that are under way and what became of it all: the fragments that callers wrote,
the pings received, the handlers of the frames in the order that these were queued, the
writes that were started, the handlers that were invoked, the reads that were begun and
those that were answered, and the calls of `do_tls_stop`. -/
structure Socket where
  reader : Reader
  limit : ℕ
  message : Bytes := []
  input : Bytes := []
  queue : List WsFrame := []
  pong : Option ℕ := none
  writing : Bool := false
  continuing : Bool := false
  closing : Bool := false
  reading : Reading := .idle
  inflight : List WsFrame := []
  count : ℕ := 0
  shut : Bool := false
  fragments : List Fragment := []
  pings : List Bytes := []
  queued : List Handler := []
  written : List WsFrame := []
  told : List (Handler × Code × ℕ) := []
  begun : ℕ := 0
  answered : List (ReadCode × Bytes) := []
  stopped : Bool := false
  tlsStops : ℕ := 0

/-- `close_payload(close_code::normal)`. -/
def closePayload : Bytes := [0x03, 0xe8]

namespace Socket

/-! ### Writing -/

/-- `ws_write_next`: the write of the front frame is started. -/
def wsWriteNext (s : Socket) : Socket :=
  if s.writing then s
  else
    match s.queue with
    | [] => s
    | frame :: _ =>
      { s with
        writing := true
        pong := if s.pong = some frame.id then none else s.pong
        inflight := s.inflight ++ [frame]
        written := s.written ++ [frame] }

/-- The frame is queued, under the next number. -/
def push (s : Socket) (frame : WsFrame) : Socket :=
  { s with
    queue := s.queue ++ [frame]
    queued := s.queued ++ frame.handler.toList
    count := s.count + 1 }.wsWriteNext

/-- `ws_send_data`. -/
def wsSendData (s : Socket) (data : Bytes) (binary finish : Bool) (handler : Handler) : Socket :=
  let code : Opcode :=
    if s.continuing then .continuation else if binary then .binary else .text
  { s with continuing := !finish, fragments := s.fragments ++ [Fragment.mk data binary finish] }.push
    { id := s.count, code, finish, data, handler := some handler }

/-- `ws_send`. -/
def wsSend (s : Socket) (code : Opcode) (payload : Bytes) (handler : Handler) : Socket :=
  s.push { id := s.count, code, payload, handler := some handler }

/-- The frame of that number has another payload, wherever it is. -/
def replace (id : ℕ) (payload : Bytes) (frames : List WsFrame) : List WsFrame :=
  frames.map fun frame => if frame.id = id then { frame with payload := payload } else frame

/-- `ws_pong`. -/
def wsPong (s : Socket) (payload : Bytes) : Socket :=
  let s := { s with pings := s.pings ++ [payload] }
  match s.pong with
  | some id =>
    { s with queue := replace id payload s.queue, inflight := replace id payload s.inflight }
  | none => { s with pong := some s.count }.push { id := s.count, code := .pong, payload }

/-! ### Reading -/

/-- The handler of the read is invoked. -/
def answer (s : Socket) (code : ReadCode) : Socket :=
  { s with reading := .idle, answered := s.answered ++ [(code, s.message)] }

/-- The loop of `do_ws_read_message`, of which every turn but the last consumes. -/
def readLoop : ℕ → Socket → Socket
  | 0, s => s
  | turns + 1, s =>
    let put := s.reader.put s.limit s.input s.message
    let s :=
      { s with reader := put.reader, message := put.message, input := s.input.drop put.used }
    match put.code with
    | some .needMore => { s with reading := .receiving }
    | some e => s.answer (.framing e)
    | none =>
      match put.event with
      | .message => s.answer .success
      | .ping => readLoop turns (s.wsPong s.reader.control)
      | .pong => readLoop turns s
      | .close =>
        if s.closing then s.answer .websocketClosed
        else
          -- the close is answered with the peer's close code
          let echo := if s.reader.control.length < 2 then [] else s.reader.control.take 2
          { s with closing := true, reading := .echoing }.wsSend .close echo .echo
      | .none => readLoop turns s

/-- `do_ws_read_message`. -/
def doWsReadMessage (s : Socket) : Socket := readLoop (s.input.length + 1) s

/-- `handle_ws_read_message`. -/
def handleWsReadMessage (s : Socket) (ec : Code) (bytes : Bytes) : Socket :=
  if ec = .operationCanceled then s.answer (.socket .channelStopped)
  else if ec ≠ .success then s.answer (.socket ec)
  else { s with input := s.input ++ bytes }.doWsReadMessage

/-! ### Calls -/

/-- `do_tls_stop`, which the model does not follow. -/
def doTlsStop (s : Socket) : Socket := { s with tlsStops := s.tlsStops + 1 }

/-- `do_ws_stop`. -/
def doWsStop (s : Socket) : Socket :=
  if s.closing then s.doTlsStop
  else { s with closing := true }.wsSend .close closePayload .close

/-- `lazy_stop`, where there is a timeout. -/
def lazyStop (s : Socket) : Socket :=
  if s.stopped then s else { s with stopped := true }.doWsStop

/-- A call on the strand: `async_write` of a fragment, `async_read` of a message, which is
not called while another is under way, and a lazy stop. -/
inductive Call
  | write (data : Bytes) (binary finish : Bool)
  | read
  | lazyStop

def call (s : Socket) : Call → Socket
  | .write data binary finish => s.wsSendData data binary finish (.caller s.count)
  | .read =>
    if s.reading = .idle then
      { s with message := [], reading := .receiving, begun := s.begun + 1 }.doWsReadMessage
    else s
  | .lazyStop => s.lazyStop

def calls (s : Socket) (calls : List Call) : Socket := calls.foldl call s

/-! ### Completions -/

/-- The handler of a frame, if it has one, with the calls made in it. -/
def invoke (s : Socket) (handler : Option Handler) (code : Code) (size : ℕ) (made : List Call) :
    Socket :=
  match handler with
  | none => s
  | some handler =>
    let s := { s with told := s.told ++ [(handler, code, size)] }
    match handler with
    | .caller _ => s.calls made
    | .echo => ({ s with shut := true }.answer .websocketClosed).calls made
    | .close => s.doTlsStop

/-- The handlers of frames that are failed, with the calls made in each. -/
def invokeAll (code : Code) : Socket → List WsFrame → List (List Call) → Socket
  | s, [], _ => s
  | s, frame :: frames, made =>
    invokeAll code (s.invoke frame.handler code 0 (made.headD [])) frames made.tail

/-- `handle_ws_frame`. -/
def handleWsFrame (s : Socket) (ec : Code) (frame : WsFrame) (made : List (List Call)) : Socket :=
  let code := if ec = .operationCanceled then .channelStopped else ec
  let s := { s with writing := false, queue := s.queue.tail }
  if code = .success then
    (s.invoke frame.handler code frame.body.length (made.headD [])).wsWriteNext
  else
    -- the frames that follow are removed before any handler runs
    let failed := s.queue
    let s := { s with pong := none, queue := [] }
    invokeAll code (s.invoke frame.handler code frame.body.length (made.headD [])) failed made.tail

/-- A call, the completion of the read of the socket, and that of a write of it. -/
inductive Action
  | call (c : Call)
  | received (ec : Code) (bytes : Bytes)
  | sent (index : ℕ) (ec : Code) (made : List (List Call))

def step (s : Socket) : Action → Socket
  | .call c => s.call c
  | .received ec bytes =>
    if s.reading = .receiving then s.handleWsReadMessage ec bytes else s
  | .sent index ec made =>
    match s.inflight[index]? with
    | none => s
    | some frame => { s with inflight := s.inflight.eraseIdx index }.handleWsFrame ec frame made

/-- `accept_websocket`: the socket once it is upgraded. -/
def upgraded (maximum limit : ℕ) : Socket := { reader := { maximum, server := true }, limit }

end Socket

end BitcoinNetwork.Ws
