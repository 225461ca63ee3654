import BitcoinNetwork.Async.Program
import BitcoinNetwork.Binary.Search
import BitcoinNetwork.P2ps.Cipher

/-!
# The stream of BIP324 over a socket (p2ps/stream.cpp)

The handshake of either side, with the scan for the garbage terminator, and the
reader of packets, each as the chain of its handlers.
-/

namespace BitcoinNetwork.P2ps
open Binary Async

/-- `heading::command_size`. -/
def commandSize : ℕ := 12

/-- As many bytes are scanned as garbage and terminator may have. -/
def scanSize : ℕ := maximumGarbage + terminatorSize

/-- What a handler is given. -/
inductive Code
  | success
  | transport (fault : ℕ)
  | protocolError
  deriving DecidableEq

/-- What a stream has done with the bytes of its peer, for no function to read:
the garbage that it found, what it read behind it, and the associated data of
each packet that it opened. -/
structure Log where
  scanned : Option Bytes := none
  handed : Bytes := []
  opened : List Bytes := []

/-- `stream`, from when its cipher is initialized. -/
structure Stream (primitives : Primitives) where
  cipher : Cipher primitives
  garbage : Bytes := []
  residue : Bytes := []
  log : Log := {}

/-- What a message is read as: its identifier, its command and its payload. -/
structure Message where
  identifier : UInt8
  command : Bytes
  payload : Bytes
  deriving DecidableEq

/-- The bytes before the payload: the identifier, and the command behind a zero. -/
def Message.prefixSize (m : Message) : ℕ := if m.identifier = 0 then commandSize + 1 else 1

/-- The contents of the packet of a message. -/
def Message.contents (m : Message) : Bytes :=
  m.identifier ::
    (if m.identifier = 0 then m.command ++ List.replicate (commandSize - m.command.length) 0 else []) ++
    m.payload

namespace Stream
variable {primitives : Primitives} {α : Type}

/-! ### Reading packets -/

/-- `read_exactly`. -/
def readExactly (s : Stream primitives) (size : ℕ)
    (handler : Stream primitives → Except Code Bytes → Program α) : Program α :=
  let front := s.residue.take size
  let residue := s.residue.drop size
  if front.length = size then
    handler { s with residue := residue, log := { s.log with handed := s.log.handed ++ front } }
      (.ok front)
  else .read (size - front.length) fun
    | .error fault => handler { s with residue := residue } (.error (.transport fault))
    | .ok rest =>
      handler
        { s with residue := residue, log := { s.log with handed := s.log.handed ++ (front ++ rest) } }
        (.ok (front ++ rest))

/-- The call of `decrypt` for a packet that was read. -/
def openPacket (s : Stream primitives) (aad packet : Bytes) :
    Stream primitives × Option (Bool × Bytes) :=
  let opened := s.cipher.decrypt aad packet
  ({ s with cipher := opened.1, log := { s.log with opened := s.log.opened ++ [aad] } }, opened.2)

/-- The two reads of a packet, `handle_version_length` and `handle_version_packet`
or `handle_message_length` and `handle_message_read`, by the bound of the length
and the associated data: whether the packet is a decoy, and its contents. -/
def readPacket (s : Stream primitives) (bound : ℕ) (aad : Bytes)
    (handler : Stream primitives → Except Code (Bool × Bytes) → Program α) : Program α :=
  s.readExactly lengthSize fun s => fun
    | .error code => handler s (.error code)
    | .ok bytes =>
      let decrypted := s.cipher.decryptLength bytes
      let s := { s with cipher := decrypted.1 }
      if bound < decrypted.2 then handler s (.error .protocolError)
      else s.readExactly (headerSize + decrypted.2 + tagSize) fun s => fun
        | .error code => handler s (.error code)
        | .ok packet =>
          let opened := s.openPacket aad packet
          match opened.2 with
          | none => handler opened.1 (.error .protocolError)
          | some plain => handler opened.1 (.ok plain)

/-- `read_versioning`. -/
def readVersioning : ℕ → Stream primitives → Bool →
    (Stream primitives → Code → Program α) → Program α
  | 0, _, _, _ => .stop
  | turns + 1, s, isFirst, handler =>
    s.readPacket maximumContent (if isFirst then s.garbage else []) fun s => fun
      | .error code => handler s code
      | .ok (true, _) => readVersioning turns s false handler
      | .ok (false, _) => handler { s with garbage := [] } .success

/-- `split`. -/
def split (contents : Bytes) : Option Message :=
  match contents with
  | [] => none
  | identifier :: rest =>
    if identifier ≠ 0 then some ⟨identifier, [], rest⟩
    else if rest.length < commandSize then none
    else
      let field := rest.take commandSize
      let command := field.takeWhile (· ≠ 0)
      if (field.drop command.length).all (· == 0) then
        some ⟨identifier, command, rest.drop commandSize⟩
      else none

/-- `async_read_message`. -/
def asyncReadMessage : ℕ → Stream primitives → ℕ →
    (Stream primitives → Except Code Message → Program α) → Program α
  | 0, _, _, _ => .stop
  | turns + 1, s, maximum, handler =>
    s.readPacket (min maximumContent (maximum + (commandSize + 1))) [] fun s => fun
      | .error code => handler s (.error code)
      | .ok (true, _) => asyncReadMessage turns s maximum handler
      | .ok (false, contents) =>
        match split contents with
        | none => handler s (.error .protocolError)
        | some message => handler s (.ok message)

/-! ### Writing a message -/

/-- `async_write_message` of a payload that there is, and `handle_message_sent`. -/
def asyncWriteMessage (s : Stream primitives) (m : Message)
    (handler : Stream primitives → Code → Program α) : Program α :=
  if commandSize < m.command.length ∨ maximumContent - m.prefixSize < m.payload.length then
    handler s .protocolError
  else
    let packet := s.cipher.encrypt m.contents [] false
    .write packet.2 fun
      | some fault => handler { s with cipher := packet.1 } (.transport fault)
      | none => handler { s with cipher := packet.1 } .success

/-! ### The terminator -/

/-- `scan_terminator` and `handle_scan`. -/
def scanTerminator (turns : ℕ) : ℕ → Stream primitives →
    (Stream primitives → Code → Program α) → Program α
  | 0, _, _ => .stop
  | scans + 1, s, handler =>
    let terminator := s.cipher.receiveTerminator.toList
    match search terminator s.garbage with
    | some position =>
      let garbage := s.garbage.take position
      readVersioning turns
        { s with
          garbage := garbage
          residue := s.garbage.drop (position + terminator.length)
          log := { s.log with scanned := some garbage } }
        true handler
    | none =>
      if scanSize ≤ s.garbage.length then handler s .protocolError
      else .readSome (scanSize - s.garbage.length) fun
        | .error fault => handler s (.transport fault)
        | .ok chunk =>
          scanTerminator turns scans { s with garbage := s.garbage ++ chunk } handler

/-! ### Handshake -/

section
variable (primitives) (turns : ℕ) (keys : Keypair) (identifier : UInt32)

/-- `send_terminator_version` and `handle_terminator_sent`. -/
def sendTerminatorVersion (s : Stream primitives) (initiate : Bool)
    (handler : Option (Stream primitives) → Code → Program α) : Program α :=
  let packet := s.cipher.encrypt [] [] false
  let frame := (if initiate then [] else keys.publicKey.toList) ++
    s.cipher.sendTerminator.toList ++ packet.2
  let s := { s with cipher := packet.1 }
  .write frame fun
    | some fault => handler (some s) (.transport fault)
    | none => scanTerminator turns (scanSize + 1) s fun s => handler (some s)

/-- `handle_their_key`. -/
def handleTheirKey (initiate : Bool) (peer : Bytes)
    (handler : Option (Stream primitives) → Code → Program α) : Program α :=
  match Cipher.initializeKeys primitives keys peer identifier initiate with
  | none => handler none .protocolError
  | some cipher => sendTerminatorVersion primitives turns keys { cipher := cipher } initiate handler

/-- `async_handshake` and `do_initiate`. -/
def doInitiate (handler : Option (Stream primitives) → Code → Program α) : Program α :=
  .write keys.publicKey.toList fun
    | some fault => handler none (.transport fault)
    | none => .read keySize fun
      | .error fault => handler none (.transport fault)
      | .ok peer => handleTheirKey primitives turns keys identifier true peer handler

/-- `async_handshake` and `do_respond`, of which the first bytes of the key are given. -/
def doRespond (detected : Bytes) (handler : Option (Stream primitives) → Code → Program α) :
    Program α :=
  .read (keySize - detected.length) fun
    | .error fault => handler none (.transport fault)
    | .ok rest => handleTheirKey primitives turns keys identifier false (detected ++ rest) handler

/-- `async_handshake`, by whether a prefix was detected. -/
def asyncHandshake (detected : Option Bytes)
    (handler : Option (Stream primitives) → Code → Program α) : Program α :=
  match detected with
  | none => doInitiate primitives turns keys identifier handler
  | some detected => doRespond primitives turns keys identifier detected handler

end

end Stream

end BitcoinNetwork.P2ps
