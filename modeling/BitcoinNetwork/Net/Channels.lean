import BitcoinNetwork.Net.Code
import Mathlib.Algebra.GroupWithZero.Nat
import Mathlib.Data.Finset.Basic
import Mathlib.Data.Finset.Dedup
import Mathlib.Data.List.Perm.Basic

/-!
# Peer channels that are counted, and nonces that are stored (net.cpp)

What the network keeps of its peer channels: the nonces by which it finds that it
has connected to itself, the endpoints that it is connected to (net/hosts.cpp), two
counts and a list of identifiers.
-/

namespace BitcoinNetwork.Net

/-- A peer channel as the network reads it, where `peerNonce` is that of the version
of its peer. Endpoints are compared as the set of reservations compares them. -/
structure PeerChannel (Endpoint : Type) where
  identifier : ℕ
  endpoint : Endpoint
  nonce : ℕ
  peerNonce : ℕ
  inbound : Bool
  quiet : Bool
  deriving DecidableEq

/-- The faults that are logged. -/
inductive Fault
  | storeNonce
  | unstoreNonce
  | inboundOverflow
  | totalOverflow
  | inboundUnderflow
  | totalUnderflow
  deriving DecidableEq

/-- A channel was counted, or uncounted. -/
inductive Account
  | counted (identifier : ℕ)
  | uncounted (identifier : ℕ)
  deriving DecidableEq

def Account.identifier : Account → ℕ
  | .counted identifier => identifier
  | .uncounted identifier => identifier

/-- The records of the network, with the faults that it has logged and what was
counted and uncounted, in order. -/
structure Records (Endpoint : Type) where
  enableLoopback : Bool
  closed : Bool := false
  nonces : Finset ℕ := ∅
  endpoints : Finset Endpoint := ∅
  endpointsCount : ℕ := 0
  inboundChannelCount : ℕ := 0
  totalChannelCount : ℕ := 0
  actives : List ℕ := []
  peerSent : ℕ := 0
  peerReceived : ℕ := 0
  faults : List Fault := []
  accounts : List Account := []

/-- One more, and one less, of 64 bits. -/
def add1 (value : ℕ) : ℕ := (value + 1) % 2 ^ 64

def sub1 (value : ℕ) : ℕ := if value = 0 then 2 ^ 64 - 1 else value - 1

def ceilingedAdd (left right : ℕ) : ℕ := min (left + right) (2 ^ 64 - 1)

namespace Records
variable {Endpoint : Type} [DecidableEq Endpoint]

def fault (n : Records Endpoint) (fault : Fault) : Records Endpoint :=
  { n with faults := n.faults ++ [fault] }

def account (n : Records Endpoint) (account : Account) : Records Endpoint :=
  { n with accounts := n.accounts ++ [account] }

/-- `store_nonce`. -/
def storeNonce (n : Records Endpoint) (c : PeerChannel Endpoint) : Bool × Records Endpoint :=
  if n.enableLoopback || c.inbound then (true, n)
  else if c.nonce ∈ n.nonces then (false, n.fault .storeNonce)
  else (true, { n with nonces := insert c.nonce n.nonces })

/-- `unstore_nonce`. -/
def unstoreNonce (n : Records Endpoint) (c : PeerChannel Endpoint) : Bool × Records Endpoint :=
  if n.enableLoopback || c.inbound then (true, n)
  else if c.nonce ∈ n.nonces then (true, { n with nonces := n.nonces.erase c.nonce })
  else (false, n.fault .unstoreNonce)

def isLoopback (n : Records Endpoint) (c : PeerChannel Endpoint) : Bool :=
  if n.enableLoopback || !c.inbound then false else decide (c.peerNonce ∈ n.nonces)

/-- `hosts::reserve`. -/
def reserve (n : Records Endpoint) (host : Endpoint) : Bool × Records Endpoint :=
  if host ∈ n.endpoints then (false, n)
  else
    (true,
      { n with endpoints := insert host n.endpoints, endpointsCount := add1 n.endpointsCount })

/-- `hosts::unreserve`. -/
def unreserve (n : Records Endpoint) (host : Endpoint) : Bool × Records Endpoint :=
  if host ∈ n.endpoints then
    (true,
      { n with endpoints := n.endpoints.erase host, endpointsCount := sub1 n.endpointsCount })
  else (false, n)

/-- `count_channel`. -/
def countChannel (n : Records Endpoint) (c : PeerChannel Endpoint) : Code × Records Endpoint :=
  if n.closed then (.serviceStopped, n)
  else if n.isLoopback c then (.acceptFailed, n)
  else if c.inbound && add1 n.inboundChannelCount == 0 then
    (.channelOverflow, n.fault .inboundOverflow)
  else if !c.quiet && add1 n.totalChannelCount == 0 then
    (.channelOverflow, n.fault .totalOverflow)
  else
    match n.reserve c.endpoint with
    | (false, n) => (.addressInUse, n)
    | (true, n) =>
      let n :=
        if c.inbound then { n with inboundChannelCount := add1 n.inboundChannelCount } else n
      let n := if !c.quiet then { n with totalChannelCount := add1 n.totalChannelCount } else n
      let n := { n with actives := n.actives ++ [c.identifier] }
      (.success, n.account (.counted c.identifier))

/-- `uncount_channel` of a channel that has sent and received so many bytes. -/
def uncountChannel (n : Records Endpoint) (c : PeerChannel Endpoint) (sent received : ℕ) :
    Records Endpoint :=
  let n := n.account (.uncounted c.identifier)
  let n := (n.unreserve c.endpoint).2
  let n :=
    { n with
      peerSent := ceilingedAdd n.peerSent sent
      peerReceived := ceilingedAdd n.peerReceived received
      actives := n.actives.filter (· ≠ c.identifier) }
  if c.inbound && n.inboundChannelCount == 0 then n.fault .inboundUnderflow
  else if !c.quiet && n.totalChannelCount == 0 then n.fault .totalUnderflow
  else
    let n :=
      if c.inbound then { n with inboundChannelCount := sub1 n.inboundChannelCount } else n
    if !c.quiet then { n with totalChannelCount := sub1 n.totalChannelCount } else n

end Records

end BitcoinNetwork.Net
