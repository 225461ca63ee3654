import BitcoinNetwork.Async.Program
import BitcoinNetwork.Zmtp.Cipher

/-!
# The stream of ZMTP over a socket (zmtp/stream.cpp)

The greeting and the handshake of either mechanism, the reader of a frame and
the writer of a framed buffer, each as the chain of its handlers. The stream
goes from one handler to the next, and to the handler of the caller.
-/

namespace BitcoinNetwork.Zmtp
open Binary Async
open Http (ascii)

/-! ### Role (zmtp/role.hpp) -/

inductive Role
  | undefined
  | publisher
  | puller
  | replier
  | router
  deriving DecidableEq

/-- `socket_type`. -/
def Role.socketType : Role → Bytes
  | .publisher => ascii "PUB"
  | .puller => ascii "PULL"
  | .replier => ascii "REP"
  | .router => ascii "ROUTER"
  | .undefined => []

/-- `compatible`. -/
def Role.compatible (role : Role) (peer : Bytes) : Bool :=
  match role with
  | .publisher => peer == ascii "SUB" || peer == ascii "XSUB"
  | .puller => peer == ascii "PUSH"
  | .replier => peer == ascii "REQ" || peer == ascii "DEALER"
  | .router => peer == ascii "REQ" || peer == ascii "DEALER" || peer == ascii "ROUTER"
  | .undefined => false

/-! ### Context (zmtp/context.cpp) -/

structure Context where
  curve : Bool
  keys : Keypair
  clients : List Bytes

/-- `authorized`. -/
def Context.authorized (context : Context) (client : Bytes) : Bool :=
  context.clients.isEmpty || context.clients.contains client

/-! ### Constants -/

def greetingSize : ℕ := 64
def signatureSize : ℕ := 10
def greetingStage1 : ℕ := signatureSize + 1
def greetingStage2 : ℕ := greetingSize - greetingStage1
def revisionMajor : UInt8 := 3
def revisionMinor : UInt8 := 1
def maximumInbound : ℕ := 8192
def mechanismSize : ℕ := 20
def mechanismNull : Bytes := ascii "NULL"
def mechanismCurve : Bytes := ascii "CURVE"
def nameError : Bytes := ascii "ERROR"
def socketTypeProperty : Bytes := ascii "Socket-Type"
def identityProperty : Bytes := ascii "Identity"

/-! ### Greeting -/

/-- The field of a mechanism. -/
def mechanismField (name : Bytes) : Bytes := name ++ List.replicate (mechanismSize - name.length) 0

/-- `make_greeting`. -/
def makeGreeting (asServer curve : Bool) : Bytes :=
  [0xff] ++ List.replicate (signatureSize - 2) 0 ++ [0x7f, revisionMajor, revisionMinor] ++
    mechanismField (if curve then mechanismCurve else mechanismNull) ++
    [if curve && asServer then 1 else 0] ++
    List.replicate (greetingSize - (signatureSize + 2 + mechanismSize + 1)) 0

/-- `matches`, at the field of the mechanism. -/
def matchesName (field name : Bytes) : Bool :=
  field.take name.length == name && ((field.take mechanismSize).drop name.length).all (· == 0)

/-- The first of the bytes that gate a peer. -/
def signed (greeting : Bytes) : Bool :=
  greeting.getD 0 0 == 0xff && greeting.getD (signatureSize - 1) 0 &&& 1 != 0

/-- `parse_greeting`: the minor version, whether the mechanism is CURVE and
whether the peer is the server. -/
def parseGreeting (greeting : Bytes) : Option (UInt8 × Bool × Bool) :=
  if greeting.length ≠ greetingSize then none
  else if ¬signed greeting then none
  else if greeting.getD signatureSize 0 < revisionMajor then none
  else
    let minor := greeting.getD (signatureSize + 1) 0
    let field := greeting.drop (signatureSize + 2)
    let asServer := greeting.getD (signatureSize + 2 + mechanismSize) 0 != 0
    if matchesName field mechanismNull then some (minor, false, asServer)
    else if matchesName field mechanismCurve then some (minor, true, asServer)
    else none

/-! ### Commands -/

/-- `make_ready`. -/
def makeReady (role : Role) : Bytes :=
  frameEncode (nameBytes nameReady ++ makeProperty socketTypeProperty role.socketType) true false

/-- `make_error`. -/
def makeError (reason : Bytes) : Bytes :=
  frameEncode (nameBytes nameError ++ [(min reason.length 255).toUInt8] ++ reason.take 255) true
    false

/-- The name of a command, if it has one. -/
def nameOf (body : Bytes) : Option (Bytes × Bytes) := (commandName body).join

/-! ### Stream -/

/-- `stream`. -/
structure Stream where
  context : Context
  role : Role
  identity : Bytes := []
  cipher : Option Cipher := none
  secured : Bool := false

/-- What a handler is given. -/
inductive Code
  | success
  | transport (fault : ℕ)
  | protocolViolation
  | oversizedPayload
  deriving DecidableEq

namespace Stream

/-- `stream`. -/
def create (context : Context) (role : Role) : Stream where
  context := context
  role := role
  cipher := if context.curve then some (Cipher.ofServer context.keys) else none

section
variable (primitives : Primitives) {α : Type}

/-! ### Reading a frame -/

/-- `handle_frame_body`. -/
def handleFrameBody (s : Stream) (frame : Frame)
    (handler : Stream → Except Code Frame → Program α) : Program α :=
  if ¬s.secured then handler s (.ok frame)
  else
    match nameOf frame.body, s.cipher with
    | none, _ | _, none => handler s (.error .protocolViolation)
    | some (name, _), some cipher =>
      if frame.command ∧ name = nameError then handler s (.ok frame)
      else if name ≠ nameMessage then handler s (.error .protocolViolation)
      else
        let decoded := cipher.decode primitives frame.body
        let s := { s with cipher := some decoded.1 }
        match decoded.2 with
        | none => handler s (.error .protocolViolation)
        | some (payload, plain) =>
          let more := payload &&& payloadMore ≠ 0
          let command := payload &&& payloadCommand ≠ 0
          handler s (.ok ⟨(if more then flagMore else 0) ||| (if command then flagCommand else 0),
            plain⟩)

/-- `handle_frame_length`. -/
def handleFrameLength (s : Stream) (flags : UInt8) (length maximum : ℕ)
    (handler : Stream → Except Code Frame → Program α) : Program α :=
  if maximum < length then handler s (.error .oversizedPayload)
  else if length = 0 then handleFrameBody primitives s ⟨flags, []⟩ handler
  else .read length fun
    | .error fault => handler s (.error (.transport fault))
    | .ok body => handleFrameBody primitives s ⟨flags, body⟩ handler

/-- `async_read_frame`. -/
def asyncReadFrame (s : Stream) (maximum : ℕ)
    (handler : Stream → Except Code Frame → Program α) : Program α :=
  .read 1 fun
    | .error fault => handler s (.error (.transport fault))
    | .ok flags =>
      .read (if flags.headD 0 &&& flagLong ≠ 0 then 8 else 1) fun
        | .error fault => handler s (.error (.transport fault))
        | .ok length =>
          handleFrameLength primitives s (flags.headD 0) (ofBytes length) maximum handler

/-! ### Writing a buffer -/

/-- The result of a write. -/
def writeCode : Option ℕ → Code
  | none => .success
  | some fault => .transport fault

/-- The loop of `async_write`: each frame is boxed, behind those that are. -/
def boxFrames : ℕ → Cipher → Bytes → Bytes → Cipher × Option Bytes
  | 0, cipher, boxed, _ => (cipher, some boxed)
  | turns + 1, cipher, boxed, buffer =>
    if buffer = [] then (cipher, some boxed)
    else
      match (frameDecode buffer).join with
      | none => (cipher, none)
      | some (frame, rest) =>
        let more := frame.flags &&& flagMore ≠ 0
        let command := frame.flags &&& flagCommand ≠ 0
        let payload := (if more then payloadMore else 0) ||| (if command then payloadCommand else 0)
        let encoded := cipher.encode primitives payload frame.body
        match encoded.2 with
        | none => (encoded.1, none)
        | some message =>
          boxFrames turns encoded.1 (boxed ++ frameEncode message false false) rest

/-- `async_write`. -/
def asyncWrite (s : Stream) (buffer : Bytes) (handler : Stream → Code → Program α) : Program α :=
  if ¬s.secured then .write buffer fun result => handler s (writeCode result)
  else
    match s.cipher with
    | none => handler s .protocolViolation
    | some cipher =>
      let boxed := boxFrames primitives (buffer.length + 1) cipher [] buffer
      let s := { s with cipher := some boxed.1 }
      match boxed.2 with
      | none => handler s .protocolViolation
      | some bytes => .write bytes fun result => handler s (writeCode result)

/-! ### Handshake -/

/-- `fail_handshake`. -/
def failHandshake (s : Stream) (reason : Bytes) (handler : Stream → Code → Program α) :
    Program α :=
  .write (makeError reason) fun _ => handler s .protocolViolation

/-- `compatible`: the stream has the identity of the peer. -/
def compatible (s : Stream) (metadata : Bytes) : Stream × Bool :=
  match (readyProperty socketTypeProperty metadata).join with
  | none => (s, false)
  | some type =>
    if ¬s.role.compatible type then (s, false)
    else
      ({ s with identity := ((readyProperty identityProperty metadata).join).getD s.identity },
        true)

/-- `handle_ready`. -/
def handleReady (handler : Stream → Code → Program α) (s : Stream) :
    Except Code Frame → Program α
  | .error code => handler s code
  | .ok ready =>
    if ¬ready.command then s.failHandshake (ascii "expected command") handler
    else
      match nameOf ready.body with
      | none => s.failHandshake (ascii "expected READY") handler
      | some (name, metadata) =>
        if name ≠ nameReady then s.failHandshake (ascii "expected READY") handler
        else
          let checked := s.compatible metadata
          if ¬checked.2 then
            checked.1.failHandshake (ascii "incompatible socket type") handler
          else handler checked.1 .success

/-- `write_ready`, `handle_ready_sent` and `read_ready`. -/
def writeReady (s : Stream) (handler : Stream → Code → Program α) : Program α :=
  .write (makeReady s.role) fun
    | some fault => handler s (.transport fault)
    | none => s.asyncReadFrame primitives maximumInbound (handleReady handler)

/-- `handle_curve_ready_sent`. -/
def handleCurveReadySent (handler : Stream → Code → Program α) (s : Stream) :
    Option ℕ → Program α
  | some fault => handler s (.transport fault)
  | none => handler { s with secured := true } .success

/-- `handle_initiate`. -/
def handleInitiate (handler : Stream → Code → Program α) (s : Stream) :
    Except Code Frame → Program α
  | .error code => handler s code
  | .ok initiate =>
    match nameOf initiate.body, s.cipher with
    | none, _ | _, none => s.failHandshake (ascii "expected INITIATE") handler
    | some (name, _), some cipher =>
      if ¬initiate.command ∨ name ≠ nameInitiate then
        s.failHandshake (ascii "expected INITIATE") handler
      else
        let readied := cipher.ready primitives initiate.body
          (makeProperty socketTypeProperty s.role.socketType)
        let s := { s with cipher := some readied.1 }
        match readied.2 with
        | none => s.failHandshake (ascii "invalid INITIATE") handler
        | some (ready, metadata) =>
          if ¬s.context.authorized readied.1.peer then s.failHandshake (ascii "400") handler
          else
            let checked := s.compatible metadata
            if ¬checked.2 then
              checked.1.failHandshake (ascii "incompatible socket type") handler
            else
              .write (frameEncode ready true false) (handleCurveReadySent handler checked.1)

/-- `handle_hello` and `handle_welcome_sent`, with the random values of the welcome. -/
def handleHello (draw : Cipher.WelcomeDraw) (handler : Stream → Code → Program α) (s : Stream) :
    Except Code Frame → Program α
  | .error code => handler s code
  | .ok hello =>
    match nameOf hello.body, s.cipher with
    | none, _ | _, none => s.failHandshake (ascii "expected HELLO") handler
    | some (name, _), some cipher =>
      if ¬hello.command ∨ name ≠ nameHello then
        s.failHandshake (ascii "expected HELLO") handler
      else
        let welcomed := cipher.welcome primitives draw hello.body
        let s := { s with cipher := some welcomed.1 }
        match welcomed.2 with
        | none => s.failHandshake (ascii "invalid HELLO") handler
        | some welcome =>
          .write (frameEncode welcome true false) fun
            | some fault => handler s (.transport fault)
            | none => s.asyncReadFrame primitives maximumInbound
                (handleInitiate primitives handler)

/-- `handle_greeting_stage2`. -/
def handleGreetingStage2 (s : Stream) (draw : Cipher.WelcomeDraw) (asServer : Bool)
    (greeting : Bytes) (handler : Stream → Code → Program α) : Program α :=
  match parseGreeting greeting with
  | none => handler s .protocolViolation
  | some (_, curve, peerServer) =>
    if curve ≠ s.cipher.isSome ∨ (curve ∧ (peerServer ∨ ¬asServer)) then
      s.failHandshake (ascii "mechanism mismatch") handler
    else if curve then
      s.asyncReadFrame primitives maximumInbound (handleHello primitives draw handler)
    else s.writeReady primitives handler

/-- `handle_greeting_stage1`. -/
def handleGreetingStage1 (s : Stream) (draw : Cipher.WelcomeDraw) (asServer : Bool)
    (stage1 : Bytes) (handler : Stream → Code → Program α) : Program α :=
  if ¬signed stage1 ∨ stage1.getD signatureSize 0 < revisionMajor then
    handler s .protocolViolation
  else .read greetingStage2 fun
    | .error fault => handler s (.transport fault)
    | .ok stage2 => s.handleGreetingStage2 primitives draw asServer (stage1 ++ stage2) handler

/-- `read_greeting`. -/
def readGreeting (s : Stream) (draw : Cipher.WelcomeDraw) (asServer : Bool)
    (handler : Stream → Code → Program α) : Program α :=
  .read greetingStage1 fun
    | .error fault => handler s (.transport fault)
    | .ok stage1 => s.handleGreetingStage1 primitives draw asServer stage1 handler

/-- `async_handshake`, `write_greeting` and `handle_greeting_sent`. -/
def asyncHandshake (s : Stream) (draw : Cipher.WelcomeDraw) (asServer : Bool)
    (handler : Stream → Code → Program α) : Program α :=
  .write (makeGreeting asServer s.cipher.isSome) fun
    | some fault => handler s (.transport fault)
    | none => s.readGreeting primitives draw asServer handler

end

end Stream

end BitcoinNetwork.Zmtp
