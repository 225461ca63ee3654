import BitcoinNetwork.Sessions.Session
import BitcoinNetwork.Sessions.Peer

/-!
# Accept loops (sessions/session_server.cpp, sessions/session_inbound.cpp)

An acceptor reports a connection that it has accepted, and then, behind the handshake of
the socket, the socket (net/acceptor.cpp), of which a session makes a channel. The
acceptors of a session share its count of handshakes and that of its channels.
-/

namespace BitcoinNetwork.Sessions
open Net Async

/-- What the loop of an acceptor waits for. -/
inductive Waits
  | connection
  | timer
  | nothing
  deriving DecidableEq

/-- The settings that a session accepts by. -/
structure AcceptOptions (Address : Type) where
  connections : UInt16
  enabled : Bool := true
  whitelisted : Address → Bool
  blacklisted : Address → Bool

/-- The acceptors of a session, with the sockets that are in their handshakes. -/
structure Acceptors where
  loops : List Waits := []
  handshakes : ℕ := 0
  handshakeCount : ℕ := 0

namespace Acceptors
variable {Address : Type}

/-- `do_accept` of so many bindings. -/
def create (bindings : ℕ) : Acceptors := { loops := List.replicate bindings .connection }

def wait (a : Acceptors) (index : ℕ) (waits : Waits) : Acceptors :=
  { a with loops := a.loops.set index waits }

/-- `start_accept`. -/
def startAccept (a : Acceptors) (index : ℕ) (stopped : Bool) : Acceptors :=
  if stopped then a.wait index .nothing else a.wait index .connection

/-- `handle_connected`, where an accept that fails is made again behind the timer or at
once. The acceptor goes on to the handshake of the socket. -/
def handleConnected (o : AcceptOptions Address) (defers : Bool) (a : Acceptors) (index : ℕ) (ec : Code)
    (stopped : Bool) (channelCount : ℕ) : Acceptors :=
  if stopped then a.wait index .nothing
  else if ec = .serviceSuspended then a.wait index .timer
  else if ec ≠ .success then
    if defers then a.wait index .timer else a.startAccept index stopped
  else
    let a := { a with handshakeCount := add1 a.handshakeCount }
    let pending := ceilingedAdd channelCount a.handshakeCount
    if !o.enabled || pending ≥ o.connections.toNat then a.wait index .timer
    else a.startAccept index stopped

/-- The acceptor goes on to the handshake of a socket that it has accepted. -/
def handshake (a : Acceptors) (ec : Code) : Acceptors :=
  if ec = .success then { a with handshakes := a.handshakes + 1 } else a

/-- The handshake of a socket has ended. -/
def accepted (a : Acceptors) : Acceptors :=
  { a with handshakes := a.handshakes - 1, handshakeCount := a.handshakeCount - 1 }

end Acceptors

/-- Whether `handle_accepted` makes a channel of the socket. -/
def creates {Address : Type} (o : AcceptOptions Address) (ec : Code) (address : Address) (stopped : Bool)
    (channelCount : ℕ) : Bool :=
  if stopped then false
  else if ec ≠ .success then false
  else if !o.enabled then false
  else if channelCount ≥ o.connections.toNat then false
  else if !o.whitelisted address then false
  else if o.blacklisted address then false
  else true

/-! ### The session of a server -/

/-- A `session_server`, and the acceptors that it has. -/
structure Server where
  acceptors : Acceptors
  session : Session := {}

namespace Server
variable {Address : Type}

def create (bindings : ℕ) : Server := { acceptors := .create bindings }

/-- `handle_connected`. -/
def handleConnected (o : AcceptOptions Address) (s : Server) (index : ℕ) (ec : Code) : Server :=
  let a := s.acceptors.handleConnected o false index ec s.session.isStopped s.session.count
  { s with acceptors := a.handshake ec }

/-- `handle_accepted`. -/
def handleAccepted (o : AcceptOptions Address) (s : Server) (ec : Code) (address : Address) : Server :=
  let s := { s with acceptors := s.acceptors.accepted }
  if creates o ec address s.session.isStopped s.session.count then
    { s with session := s.session.startChannel }
  else s

/-- An acceptor accepts or fails to, the timer of one ends, a handshake of a socket ends,
or a channel or its session goes on. -/
inductive Event (Address : Type)
  | connected (index : ℕ) (ec : Code)
  | retry (index : ℕ)
  | accepted (ec : Code) (address : Address)
  | channel (e : Session.Event)

/-- A channel is started by `handle_accepted` alone. -/
def step (o : AcceptOptions Address) (s : Server) : Event Address → Server
  | .connected index ec =>
    if s.acceptors.loops[index]? = some .connection then s.handleConnected o index ec else s
  | .retry index =>
    if s.acceptors.loops[index]? = some .timer then
      { s with acceptors := s.acceptors.startAccept index s.session.isStopped }
    else s
  | .accepted ec address => if s.acceptors.handshakes = 0 then s else s.handleAccepted o ec address
  | .channel .start => s
  | .channel e => { s with session := s.session.step e }

end Server

/-! ### The session of inbound peers -/

/-- A `session_inbound` with its acceptors, and the peer channels of the network. -/
structure Inbound (Endpoint : Type) where
  acceptors : Acceptors
  isStopped : Bool := false
  peers : Peers Endpoint

namespace Inbound
variable {Endpoint : Type} [DecidableEq Endpoint]

def create (bindings : ℕ) (enableLoopback : Bool) : Inbound Endpoint :=
  { acceptors := .create bindings, peers := .create enableLoopback }

def inboundChannelCount (s : Inbound Endpoint) : ℕ := s.peers.network.inboundChannelCount

/-- `handle_connected`. -/
def handleConnected (o : AcceptOptions Endpoint) (s : Inbound Endpoint) (index : ℕ) (ec : Code) :
    Inbound Endpoint :=
  let a := s.acceptors.handleConnected o true index ec s.isStopped s.inboundChannelCount
  { s with acceptors := a.handshake ec }

/-- `handle_accepted`, with the channel that is created if one is. -/
def handleAccepted (o : AcceptOptions Endpoint) (s : Inbound Endpoint) (ec : Code)
    (c : PeerChannel Endpoint) : Inbound Endpoint :=
  let s := { s with acceptors := s.acceptors.accepted }
  if creates o ec c.endpoint s.isStopped s.inboundChannelCount then
    { s with peers := s.peers.step (.start { c with inbound := true } s.isStopped) }
  else s

/-- An acceptor accepts or fails to, the timer of one ends, a handshake of a socket ends,
the session is stopped, or a channel of the network goes on. -/
inductive Event (Endpoint : Type)
  | connected (index : ℕ) (ec : Code)
  | retry (index : ℕ)
  | accepted (ec : Code) (c : PeerChannel Endpoint)
  | close
  | channel (e : Peers.Event Endpoint)

/-- A channel is inbound where it is started by `handle_accepted`, and there alone. -/
def step (o : AcceptOptions Endpoint) (s : Inbound Endpoint) : Event Endpoint → Inbound Endpoint
  | .connected index ec =>
    if s.acceptors.loops[index]? = some .connection then s.handleConnected o index ec else s
  | .retry index =>
    if s.acceptors.loops[index]? = some .timer then
      { s with acceptors := s.acceptors.startAccept index s.isStopped }
    else s
  | .accepted ec c => if s.acceptors.handshakes = 0 then s else s.handleAccepted o ec c
  | .close => { s with isStopped := true }
  | .channel (.start c stopped) =>
    if c.inbound then s else { s with peers := s.peers.step (.start c stopped) }
  | .channel e => { s with peers := s.peers.step e }

end Inbound

end BitcoinNetwork.Sessions
