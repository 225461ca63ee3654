import BitcoinNetwork.Async.Transition
import BitcoinNetwork.Net.Hosts
import BitcoinNetwork.Net.SocksMessage

/-!
# The dialogue with a proxy (net/connector_socks.cpp)

Each handler of a read or write begins the next one. A read takes what has
arrived in any portions, until it has the bytes that were asked for.
-/

namespace BitcoinNetwork.Net.Socks
open Async Binary

/-- The codes that the dialogue ends with. -/
inductive SocksCode
  | success
  | operationFailed
  | channelStopped
  | socksMethod
  | socksUsername
  | socksPassword
  | socksHostName
  | socksAuthentication
  | socksFailure
  | socksDisallowed
  | socksNetUnreachable
  | socksHostUnreachable
  | socksConnectionRefused
  | socksConnectionExpired
  | socksUnsupportedCommand
  | socksUnsupportedAddress
  | socksUnassignedFailure
  | socksResponseInvalid
  | other (value : ℕ)
  deriving DecidableEq

/-! ### Wire values -/

def version : UInt8 := 0x05
def connect : UInt8 := 0x01
def reserved : UInt8 := 0x00
def methodClear : UInt8 := 0x00
def methodBasic : UInt8 := 0x02
def methodBasicVersion : UInt8 := 0x01
def methodBasicSuccess : UInt8 := 0x00
def addressIpv4 : UInt8 := 0x01
def addressFqdn : UInt8 := 0x03
def addressIpv6 : UInt8 := 0x04
def portSize : ℕ := 2

/-- `socks_response`. -/
def socksResponse (value : UInt8) : SocksCode :=
  if value = 0x00 then .success
  else if value = 0x01 then .socksFailure
  else if value = 0x02 then .socksDisallowed
  else if value = 0x03 then .socksNetUnreachable
  else if value = 0x04 then .socksHostUnreachable
  else if value = 0x05 then .socksConnectionRefused
  else if value = 0x06 then .socksConnectionExpired
  else if value = 0x07 then .socksUnsupportedCommand
  else if value = 0x08 then .socksUnsupportedAddress
  else .socksUnassignedFailure

/-- `is_limited` of one byte. -/
def isLimited (length : ℕ) : Bool := 255 < length

/-! ### What is written -/

/-- `settings::socks5`, of a proxy. -/
structure Settings where
  username : Bytes
  password : Bytes

namespace Settings

def authenticated (s : Settings) : Bool := !(s.username.isEmpty && s.password.isEmpty)

/-- `method_`. -/
def method (s : Settings) : UInt8 := if s.authenticated then methodBasic else methodClear

def greeting (s : Settings) : Bytes := [version, 1, s.method]

def authenticator (s : Settings) : Bytes :=
  methodBasicVersion :: UInt8.ofNat s.username.length :: s.username ++
    UInt8.ofNat s.password.length :: s.password

end Settings

/-- The address and the endpoint of the socket. -/
structure Destination where
  address : Peer.AddressItem
  host : Bytes
  port : UInt16

/-- `denormalize`, by which a mapped address is one of version 4. -/
def denormalize (ip : Bytes) : Bytes := if Peer.isV4 ip then ip.drop Peer.mappedPrefix.length else ip

namespace Destination
variable (toHost : Peer.Address → Bytes) (d : Destination)

/-- The name that is sent of an address that is not ip, for resolution at the proxy. -/
def name : Bytes := if isSpecified d.address then toHost d.address.address else d.host

/-- The request of `do_socks_connect_write`. -/
def request : Except SocksCode Bytes :=
  let port := toBytes 2 d.port.toNat
  let ip := denormalize (Peer.toIpAddress d.address.address)
  let start := [version, connect, reserved]
  match d.address.address with
  | .of .ipv4 _ => .ok (start ++ addressIpv4 :: ip ++ port)
  | .of .ipv6 _ => .ok (start ++ addressIpv6 :: ip ++ port)
  | _ =>
    if isLimited ((d.name toHost).length + 1) then .error .socksHostName
    else
      .ok (start ++ addressFqdn :: UInt8.ofNat (d.name toHost).length :: d.name toHost ++ port)

end Destination

/-! ### Dialogue -/

/-- What the dialogue awaits: that bytes are written, or that some are read. -/
inductive Phase
  | idle
  | greetingWrite
  | methodRead
  | authenticationWrite
  | authenticationRead
  | connectWrite
  | responseRead
  | lengthRead
  | addressRead (size : ℕ)
  | finished (ec : SocksCode)
  deriving DecidableEq

namespace Phase

/-- How many bytes are read. -/
def reads : Phase → Option ℕ
  | methodRead => some 2
  | authenticationRead => some 2
  | responseRead => some 4
  | lengthRead => some 1
  | addressRead size => some size
  | _ => none

/-- Bytes are written. -/
def writes : Phase → Bool
  | greetingWrite | authenticationWrite | connectWrite => true
  | _ => false

end Phase

/-- A dialogue, with the bytes that have arrived from the proxy: those that were read, of
which the last are in the buffer of a read, and those that were not. -/
structure Dialogue where
  phase : Phase := .idle
  stopped : Bool := false
  buffer : Bytes := []
  written : List Bytes := []
  consumed : Bytes := []
  available : Bytes := []

namespace Dialogue
variable (s : Settings) (toHost : Peer.Address → Bytes) (destination : Destination)

/-- `do_socks_finish`, and the end of the dialogue. -/
def finish (d : Dialogue) (ec : SocksCode) : Dialogue := { d with phase := .finished ec }

/-- `tcp_write`. -/
def tcpWrite (d : Dialogue) (phase : Phase) (bytes : Bytes) : Dialogue :=
  { d with phase := phase, written := d.written ++ [bytes] }

/-- `tcp_read` into a buffer of the size of the phase. -/
def tcpRead (d : Dialogue) (phase : Phase) : Dialogue := { d with phase := phase, buffer := [] }

/-- The code of a handler, of which none goes on with a socket that is stopped. -/
def result (d : Dialogue) (ec : SocksCode) : SocksCode :=
  if d.stopped then .channelStopped else ec

/-- `do_socks_greeting_write`. -/
def doSocksGreetingWrite (d : Dialogue) (ec : SocksCode) : Dialogue :=
  if d.result ec ≠ .success then d.finish (d.result ec)
  else d.tcpWrite .greetingWrite s.greeting

/-- `handle_socks_greeting_write`. -/
def handleSocksGreetingWrite (d : Dialogue) (ec : SocksCode) (size : ℕ) : Dialogue :=
  if d.result ec ≠ .success then d.finish (d.result ec)
  else if size ≠ s.greeting.length then d.finish .operationFailed
  else d.tcpRead .methodRead

/-- `do_socks_connect_write`. -/
def doSocksConnectWrite (d : Dialogue) : Dialogue :=
  match destination.request toHost with
  | .error ec => d.finish ec
  | .ok request => d.tcpWrite .connectWrite request

/-- `handle_socks_method_read`. -/
def handleSocksMethodRead (d : Dialogue) (ec : SocksCode) : Dialogue :=
  if d.result ec ≠ .success then d.finish (d.result ec)
  else if d.buffer ≠ [version, s.method] then d.finish .socksMethod
  else if s.method = methodClear then d.doSocksConnectWrite toHost destination
  else if isLimited s.username.length then d.finish .socksUsername
  else if isLimited s.password.length then d.finish .socksPassword
  else d.tcpWrite .authenticationWrite s.authenticator

/-- `handle_socks_authentication_write`. -/
def handleSocksAuthenticationWrite (d : Dialogue) (ec : SocksCode) (size : ℕ) : Dialogue :=
  if d.result ec ≠ .success then d.finish (d.result ec)
  else if size ≠ s.authenticator.length then d.finish .operationFailed
  else d.tcpRead .authenticationRead

/-- `handle_socks_authentication_read`. -/
def handleSocksAuthenticationRead (d : Dialogue) (ec : SocksCode) : Dialogue :=
  if d.result ec ≠ .success then d.finish (d.result ec)
  else if d.buffer ≠ [methodBasicVersion, methodBasicSuccess] then d.finish .socksAuthentication
  else d.doSocksConnectWrite toHost destination

/-- `handle_socks_connect_write`. -/
def handleSocksConnectWrite (d : Dialogue) (ec : SocksCode) (size : ℕ) : Dialogue :=
  if d.result ec ≠ .success then d.finish (d.result ec)
  else if size ≠ (d.written.getLastD []).length then d.finish .operationFailed
  else d.tcpRead .responseRead

/-- `handle_socks_response_read`. -/
def handleSocksResponseRead (d : Dialogue) (ec : SocksCode) : Dialogue :=
  if d.result ec ≠ .success then d.finish (d.result ec)
  else
    match d.buffer with
    | [ver, rep, rsv, atyp] =>
      if ver ≠ version ∨ rsv ≠ reserved then d.finish .socksResponseInvalid
      else if socksResponse rep ≠ .success then d.finish (socksResponse rep)
      else if atyp = addressIpv4 then d.tcpRead (.addressRead (4 + portSize))
      else if atyp = addressIpv6 then d.tcpRead (.addressRead (16 + portSize))
      else if atyp = addressFqdn then d.tcpRead .lengthRead
      else d.finish .socksResponseInvalid
    | _ => d.finish .socksResponseInvalid

/-- `handle_socks_length_read`. -/
def handleSocksLengthRead (d : Dialogue) (ec : SocksCode) : Dialogue :=
  if d.result ec ≠ .success then d.finish (d.result ec)
  else
    match d.buffer with
    | [length] => d.tcpRead (.addressRead (length.toNat + portSize))
    | _ => d.finish .socksResponseInvalid

/-- `handle_socks_address_read`. -/
def handleSocksAddressRead (d : Dialogue) (ec : SocksCode) (size : ℕ) : Dialogue :=
  if d.result ec ≠ .success then d.finish (d.result ec)
  else if d.buffer.length ≠ size then d.finish .socksResponseInvalid
  else d.finish .success

/-- The handler of the read that is awaited. -/
def handleRead (d : Dialogue) (ec : SocksCode) : Dialogue :=
  match d.phase with
  | .methodRead => d.handleSocksMethodRead s toHost destination ec
  | .authenticationRead => d.handleSocksAuthenticationRead toHost destination ec
  | .responseRead => d.handleSocksResponseRead ec
  | .lengthRead => d.handleSocksLengthRead ec
  | .addressRead size => d.handleSocksAddressRead ec size
  | _ => d

/-- The handler of the write that is awaited. -/
def handleWrite (d : Dialogue) (ec : SocksCode) (size : ℕ) : Dialogue :=
  match d.phase with
  | .greetingWrite => d.handleSocksGreetingWrite s ec size
  | .authenticationWrite => d.handleSocksAuthenticationWrite s ec size
  | .connectWrite => d.handleSocksConnectWrite ec size
  | _ => d

/-- Some of the bytes that have arrived are moved to the buffer of a read, which completes
once it is full. -/
def transfer (d : Dialogue) (count : ℕ) : Dialogue :=
  match d.phase.reads with
  | none => d
  | some size =>
    let taken := min count (size - d.buffer.length)
    let d := { d with
      buffer := d.buffer ++ d.available.take taken
      consumed := d.consumed ++ d.available.take taken
      available := d.available.drop taken }
    if d.buffer.length = size then d.handleRead s toHost destination .success else d

end Dialogue

/-- What comes to a dialogue. Bytes arrive in segments; a read or write may fail with the
code of the transport, and a write may be of less than the bytes. -/
inductive Event
  | connected (ec : Option ℕ)
  | arrives (segment : Bytes)
  | transfers (count : ℕ)
  | flushes
  | writes (ec : Option ℕ) (size : ℕ)
  | fails (ec : ℕ)
  | stop

/-- The code of a transport. -/
def transportCode : Option ℕ → SocksCode
  | none => .success
  | some value => .other value

namespace Dialogue
variable (s : Settings) (toHost : Peer.Address → Bytes) (destination : Destination)

def step (d : Dialogue) : Event → Dialogue
  | .connected ec => if d.phase = .idle then d.doSocksGreetingWrite s (transportCode ec) else d
  | .arrives segment => { d with available := d.available ++ segment }
  | .transfers count => d.transfer s toHost destination count
  | .flushes => d.handleWrite s .success (d.written.getLastD []).length
  | .writes ec size => d.handleWrite s (transportCode ec) size
  | .fails ec => d.handleRead s toHost destination (.other ec)
  | .stop => { d with stopped := true }

/-- The dialogue behind events. -/
def run (events : List Event) : Dialogue := after (step s toHost destination) {} events

end Dialogue

end BitcoinNetwork.Net.Socks
