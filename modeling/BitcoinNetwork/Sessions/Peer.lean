import BitcoinNetwork.Async.Transition
import BitcoinNetwork.Net.Tallies

/-!
# Peer channels of the sessions (sessions/session_peer.cpp)

What the sessions do with the records of the network on its strand. A channel whose
start is posted to its strand comes back with the result of its handshake, once; and
one whose handshake succeeds comes back once more, when it is stopped
(sessions/session.cpp).
-/

namespace BitcoinNetwork.Sessions
open Net Async

/-- The records of the network, with the channels that were given to a session, those
whose handshake is to be handled and those whose stop is. -/
structure Peers (Endpoint : Type) where
  network : Records Endpoint
  given : List (PeerChannel Endpoint) := []
  handshaking : List (PeerChannel Endpoint) := []
  started : List (PeerChannel Endpoint) := []

namespace Peers
variable {Endpoint : Type} [DecidableEq Endpoint]

/-- `start_channel` of a session that is stopped or not. -/
def startChannel (s : Peers Endpoint) (c : PeerChannel Endpoint) (stopped : Bool) :
    Peers Endpoint :=
  if stopped then s
  else
    match s.network.storeNonce c with
    | (false, network) => { s with network := network }
    | (true, network) => { s with network := network, handshaking := c :: s.handshaking }

/-- `do_handle_handshake`. -/
def doHandleHandshake (s : Peers Endpoint) (ec : Code) (c : PeerChannel Endpoint) :
    Peers Endpoint :=
  let (code, network) := if ec ≠ .success then (ec, s.network) else s.network.countChannel c
  if code ≠ .success then { s with network := (network.unstoreNonce c).2 }
  else { s with network := network, started := c :: s.started }

/-- `do_handle_channel_stopped`. -/
def doHandleChannelStopped (s : Peers Endpoint) (c : PeerChannel Endpoint) (sent received : ℕ) :
    Peers Endpoint :=
  { s with network := (s.network.unstoreNonce c).2.uncountChannel c sent received }

/-- A channel of an identifier of its own is given to a session, the result of a
handshake or a stop is handled, or the network is closed. -/
inductive Event (Endpoint : Type)
  | start (c : PeerChannel Endpoint) (stopped : Bool)
  | handshake (c : PeerChannel Endpoint) (ec : Code)
  | stop (c : PeerChannel Endpoint) (sent received : ℕ)
  | close

def step (s : Peers Endpoint) : Event Endpoint → Peers Endpoint
  | .start c stopped =>
    if c.identifier ∈ s.given.map (·.identifier) then s
    else { s with given := c :: s.given }.startChannel c stopped
  | .handshake c ec =>
    if c ∈ s.handshaking then
      { s with handshaking := s.handshaking.erase c }.doHandleHandshake ec c
    else s
  | .stop c sent received =>
    if c ∈ s.started then
      { s with started := s.started.erase c }.doHandleChannelStopped c sent received
    else s
  | .close => { s with network := { s.network with closed := true } }

/-- The network before any channel. -/
def create (enableLoopback : Bool) : Peers Endpoint :=
  { network := { enableLoopback := enableLoopback } }

end Peers

end BitcoinNetwork.Sessions
