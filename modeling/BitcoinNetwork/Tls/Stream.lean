import BitcoinNetwork.Async.Transition
import BitcoinNetwork.Tls.Server

/-!
# The stream over a socket (tls/stream.cpp)

The owner of a stream calls it, also from within the handlers that it is called back
with, and the socket completes one read and one write of it at a time. The output of the
server is written to the socket, and a flush is completed when it is.
-/

namespace BitcoinNetwork.Tls
open Binary Async

/-! ### Codes -/

def alertUnsupportedCertificate : UInt8 := 43
def alertCertificateUnknown : UInt8 := 46
def alertInternalError : UInt8 := 80

/-- What the handlers of a stream are given. -/
inductive Code
  | success
  | peerDisconnect
  | connectFailed
  | operationFailed
  | tlsStreamTruncated
  | tlsAlert (description : UInt8)
  | tlsAlertUnknown
  | other (value : ℕ)
  deriving DecidableEq

/-- `tls_to_error_code`. -/
def tlsToErrorCode (alert : UInt8) : Code :=
  if alert ∈ [alertUnexpectedMessage, alertBadRecordMac, alertRecordOverflow,
      alertHandshakeFailure, alertBadCertificate, alertUnsupportedCertificate,
      alertCertificateExpired, alertCertificateUnknown, alertIllegalParameter, alertUnknownCa,
      alertDecodeError, alertDecryptError, alertProtocolVersion, alertInternalError,
      alertMissingExtension, alertCertificateRequired]
    then .tlsAlert alert
  else .tlsAlertUnknown

/-! ### Handlers -/

/-- A `result_handler`, by the function of the stream that it is bound to. -/
inductive Handler
  | handshake
  | readSome (size : ℕ)
  | writeSome (size : ℕ)
  | closeSent
  | closeReceived
  deriving DecidableEq

/-- What the owner is given: the code, with what is read or the size of what is written. -/
inductive Reply
  | handshake (ec : Code)
  | read (ec : Code) (data : Bytes)
  | write (ec : Code) (size : ℕ)
  | shutdown (ec : Code)
  deriving DecidableEq

/-- A handler of a flush, with the number of the flush, and of the bytes that the server had
produced by then. -/
structure Flush where
  number : ℕ
  preceding : ℕ
  handler : Handler
  deriving DecidableEq

/-- The handlers of a completion that remain to be called, one after another. -/
inductive Loop
  | received (handlers : List Handler) (ec : Code)
  | wrote (handlers : List Flush) (ec : Code)
  deriving DecidableEq

/-- What is posted to the executor: the handler of a call, or that of a flush with success. -/
inductive Posted
  | reply (reply : Reply)
  | flush (flush : Flush)
  deriving DecidableEq

/-- `stream`: `carried` are the handlers of the write in progress. For no function to read,
the calls that its server had, the writes to the socket that are complete and whether each
succeeded, the handlers of flushes that were invoked, and what the owner was given. -/
structure Stream (Certificate : Type) where
  server : Server Certificate := {}
  sending : Bytes := []
  receivers : List Handler := []
  waiting : List Flush := []
  receiving : Bool := false
  writing : Bool := false
  carried : List Flush := []
  loop : Option Loop := none
  posted : List Posted := []
  calls : List Server.Call := []
  written : List (Bytes × Bool) := []
  flushes : ℕ := 0
  answered : List (Flush × Code) := []
  replies : List Reply := []

namespace Stream
variable {Certificate : Type} (config : Config Certificate)

/-- The output of the server, of which the stream takes its part. -/
def output (s : Stream Certificate) : Bytes := s.server.connection.output

/-- What a server that has the same calls has for output, if none is taken. -/
def produced (s : Stream Certificate) : Bytes := (Server.run config s.calls).connection.output

/-- A call of the server. -/
def call (s : Stream Certificate) (c : Server.Call) : Stream Certificate :=
  { s with server := s.server.call config c, calls := s.calls ++ [c] }

/-- The output is taken. -/
def clearOutput (s : Stream Certificate) : Stream Certificate :=
  { s with server := { s.server with connection := { s.server.connection with output := [] } } }

/-- The owner is called back. -/
def reply (s : Stream Certificate) (r : Reply) : Stream Certificate :=
  { s with replies := s.replies ++ [r] }

/-- The owner is to be called back from the executor. -/
def post (s : Stream Certificate) (r : Reply) : Stream Certificate :=
  { s with posted := s.posted ++ [.reply r] }

/-! ### Transport -/

/-- `failure`. -/
def failure (s : Stream Certificate) : Code := tlsToErrorCode s.server.connection.failure

/-- `transport`. -/
def transport (s : Stream Certificate) (ec : Code) : Code :=
  if ec = .peerDisconnect ∧ ¬s.server.connection.closed then .tlsStreamTruncated else ec

/-- `receive`. -/
def receive (s : Stream Certificate) (handler : Handler) : Stream Certificate :=
  let s := { s with receivers := s.receivers ++ [handler] }
  if s.receiving then s else { s with receiving := true }

/-- `write_next`. -/
def writeNext (s : Stream Certificate) : Stream Certificate :=
  let handlers := s.waiting
  let s := { s with waiting := [] }
  if s.output = [] then { s with posted := s.posted ++ handlers.map .flush }
  else { s.clearOutput with writing := true, sending := s.output, carried := handlers }

/-- `flush`. -/
def flush (s : Stream Certificate) (handler : Handler) : Stream Certificate :=
  let s := { s with
    waiting := s.waiting ++ [⟨s.flushes, (s.produced config).length, handler⟩]
    flushes := s.flushes + 1 }
  if s.writing then s else s.writeNext

/-! ### Handshake -/

/-- `async_handshake`, of a stream whose context is ready or not. -/
def asyncHandshake (ready : Bool) (s : Stream Certificate) : Stream Certificate :=
  if ready then s.receive .handshake else s.post (.handshake (.tlsAlert alertInternalError))

/-- `handle_handshake`. -/
def handleHandshake (s : Stream Certificate) (ec : Code) : Stream Certificate :=
  if ec ≠ .success then s.reply (.handshake ec)
  else if s.server.connection.isFailed then s.reply (.handshake s.failure)
  else if s.server.connection.closed then s.reply (.handshake .peerDisconnect)
  else if s.server.connection.isEstablished then s.reply (.handshake .success)
  else s.receive .handshake

/-! ### Read -/

/-- `try_read`: the code and the bytes, if the read is complete without receiving. -/
def tryRead (s : Stream Certificate) (size : ℕ) : Option (Code × Bytes) × Stream Certificate :=
  if size = 0 then (some (.success, []), s)
  else if s.server.connection.application ≠ [] then
    (some (.success, (s.server.connection.read size).1), s.call config (.read size))
  else if s.server.connection.closed then (some (.peerDisconnect, []), s)
  else if s.server.connection.isFailed then (some (s.failure, []), s)
  else (none, s)

/-- `do_read_some`. -/
def doReadSome (s : Stream Certificate) (size : ℕ) : Stream Certificate :=
  match s.tryRead config size with
  | (some (ec, data), s) => s.post (.read ec data)
  | (none, s) => s.receive (.readSome size)

/-- `handle_read_some`. -/
def handleReadSome (s : Stream Certificate) (ec : Code) (size : ℕ) : Stream Certificate :=
  if ec ≠ .success then s.reply (.read ec [])
  else
    match s.tryRead config size with
    | (some (result, data), s) => s.reply (.read result data)
    | (none, s) => s.receive (.readSome size)

/-! ### Write -/

/-- The server does not write. -/
def refusal (s : Stream Certificate) : Code :=
  if s.server.connection.isFailed then s.failure else .connectFailed

/-- `do_write_some`. -/
def doWriteSome (s : Stream Certificate) (data : Bytes) : Stream Certificate :=
  if data = [] then s.post (.write .success 0)
  else
    let part := data.take maximumPlaintext
    let isWritten := (s.server.connection.write config part).2
    let s := s.call config (.write part)
    if ¬isWritten then s.post (.write s.refusal 0) else s.flush config (.writeSome part.length)

/-- `do_write`, which is given the result of the socket. -/
def doWrite (s : Stream Certificate) (data : Bytes) (ec : Code) : Stream Certificate :=
  if s.writing then s.reply (.write .operationFailed 0)
  else if data = [] then s.reply (.write .success 0)
  else
    let part := data.take maximumPlaintext
    let isWritten := (s.server.connection.write config part).2
    let s := s.call config (.write part)
    if ¬isWritten then s.reply (.write s.refusal 0)
    else
      let size := if ec ≠ .success then 0 else part.length
      let s := { s with written := s.written ++ [(s.output, decide (ec = Code.success))] }
      s.clearOutput.reply (.write ec size)

/-! ### Shutdown -/

/-- `async_shutdown`. -/
def asyncShutdown (s : Stream Certificate) : Stream Certificate :=
  if s.server.connection.isFailed then s.post (.shutdown .success)
  else (s.call config .close).flush config .closeSent

/-- `handle_close_received`. -/
def handleCloseReceived (s : Stream Certificate) (ec : Code) : Stream Certificate :=
  if ec ≠ .success then s.reply (.shutdown ec)
  else if s.server.connection.isFailed then s.reply (.shutdown s.failure)
  else if s.server.connection.closed then s.reply (.shutdown .success)
  else s.receive .closeReceived

/-- `handle_close_sent`. -/
def handleCloseSent (s : Stream Certificate) (ec : Code) : Stream Certificate :=
  if ec ≠ .success then s.reply (.shutdown ec) else s.handleCloseReceived ec

/-! ### Completions -/

/-- A handler is invoked. -/
def invoke (s : Stream Certificate) (ec : Code) : Handler → Stream Certificate
  | .handshake => s.handleHandshake ec
  | .readSome size => s.handleReadSome config ec size
  | .writeSome size => s.reply (.write ec (if ec ≠ .success then 0 else size))
  | .closeSent => s.handleCloseSent ec
  | .closeReceived => s.handleCloseReceived ec

/-- The handler of a flush is invoked. -/
def answer (s : Stream Certificate) (flush : Flush) (ec : Code) : Stream Certificate :=
  { s with answered := s.answered ++ [(flush, ec)] }.invoke config ec flush.handler

/-- `handle_receive`, up to its loop over handlers. -/
def handleReceive (s : Stream Certificate) (ec : Code) (data : Bytes) : Stream Certificate :=
  let handlers := s.receivers
  let s := { s with receiving := false, receivers := [] }
  if ec ≠ .success then { s with loop := some (.received handlers (s.transport ec)) }
  else
    let s := s.call config (.receive data)
    if s.output = [] then { s with loop := some (.received handlers .success) }
    else handlers.foldl (flush config) s

/-- `handle_write`, up to its loop over handlers. -/
def handleWrite (s : Stream Certificate) (ec : Code) : Stream Certificate :=
  { s with
    writing := false
    sending := []
    carried := []
    written := s.written ++ [(s.sending, decide (ec = Code.success))]
    loop := some (.wrote s.carried ec) }

/-- A loop over handlers calls the next, or ends. -/
def resume (s : Stream Certificate) : Stream Certificate :=
  match s.loop with
  | none => s
  | some (.received [] _) => { s with loop := none }
  | some (.received (handler :: handlers) ec) =>
    { s with loop := some (.received handlers ec) }.invoke config ec handler
  | some (.wrote [] _) =>
    let s := { s with loop := none }
    if s.writing = false ∧ s.waiting ≠ [] then s.writeNext else s
  | some (.wrote (flush :: handlers) ec) =>
    { s with loop := some (.wrote handlers ec) }.answer config flush ec

/-- The executor runs what is posted first. -/
def runPosted (s : Stream Certificate) : Stream Certificate :=
  match s.posted with
  | [] => s
  | .reply r :: posted => { s with posted := posted }.reply r
  | .flush flush :: posted => { s with posted := posted }.answer config flush .success

/-! ### Runs -/

/-- The owner calls the stream, the socket completes a read or a write with a code, a loop
over handlers goes on, or the executor runs what is posted. -/
inductive Event
  | handshake
  | read (size : ℕ)
  | write (data : Bytes)
  | writeNow (data : Bytes) (ec : Code)
  | shutdown
  | received (ec : Code) (data : Bytes)
  | wrote (ec : Code)
  | resume
  | posted

/-- Completions and what is posted are run by the executor, one to its end after another. -/
def step (ready : Bool) (s : Stream Certificate) : Event → Stream Certificate
  | .handshake => s.asyncHandshake ready
  | .read size => s.doReadSome config size
  | .write data => s.doWriteSome config data
  | .writeNow data ec => s.doWrite config data ec
  | .shutdown => s.asyncShutdown config
  | .received ec data =>
    if s.receiving ∧ s.loop = none then s.handleReceive config ec data else s
  | .wrote ec => if s.writing ∧ s.loop = none then s.handleWrite ec else s
  | .resume => s.resume config
  | .posted => if s.loop = none then s.runPosted config else s

end Stream

end BitcoinNetwork.Tls
