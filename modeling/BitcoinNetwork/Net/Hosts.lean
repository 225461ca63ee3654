import BitcoinNetwork.Async.Newest
import BitcoinNetwork.Net.Channels
import BitcoinNetwork.Peer.AddressItem

/-!
# The pool of addresses (net/hosts.cpp)

The addresses that a node may connect to or relay, oldest first, with a count of each
network and one of all. What the settings say of an address, and how one is read from
text, are parameters.
-/

namespace BitcoinNetwork.Net
open Peer (Address AddressItem Network)

/-- The codes that the pool reports. -/
inductive HostsCode
  | success
  | operationFailed
  | fileLoad
  | fileSave
  | fileException
  | serviceStopped
  | addressNotFound
  deriving DecidableEq

/-- The settings of the pool. A line of the file that is no address throws. -/
structure HostSettings (Endpoint : Type) where
  capacity : ℕ
  required : UInt64
  proxied : Bool
  gossipIpv4 : Bool
  gossipIpv6 : Bool
  gossipTor : Bool
  gossipI2p : Bool
  invalidServices : UInt64
  peered : AddressItem → Bool
  blacklisted : AddressItem → Bool
  whitelisted : AddressItem → Bool
  parse : String → Option AddressItem
  endpoint : AddressItem → Endpoint

/-! ### Addresses -/

/-- The network of an address, none if it is unset. -/
def networkOf : Address → Option Network
  | .unset => none
  | .of network _ => some network

/-- Equality of addresses ignores the timestamp and the services. -/
def hostKey (item : AddressItem) : Address × UInt16 := (item.address, item.port)

/-- `is_unspecified`. -/
def isUnspecified : Address → Bool
  | .unset => true
  | .of _ value => value.all (· = 0)

/-- `is_specified`. -/
def isSpecified (item : AddressItem) : Bool :=
  !isUnspecified item.address && (item.port ≠ 0 || networkOf item.address = some .i2p)

inductive Family
  | any
  | ipv4
  | ipv6

/-- `in_family`. -/
def inFamily (family : Family) (item : AddressItem) : Bool :=
  match family with
  | .ipv4 => networkOf item.address = some .ipv4
  | .ipv6 => networkOf item.address = some .ipv6 || networkOf item.address = some .cjdns
  | .any => true

namespace HostSettings
variable {Endpoint : Type} (s : HostSettings Endpoint)

def connectable (item : AddressItem) : Bool :=
  match networkOf item.address with
  | some .ipv4 | some .ipv6 | some .cjdns => true
  | some .torv3 | some .i2p => s.proxied
  | _ => false

def gossiped (item : AddressItem) : Bool :=
  match networkOf item.address with
  | some .ipv4 => s.gossipIpv4
  | some .ipv6 | some .cjdns => s.gossipIpv6
  | some .torv3 => s.gossipTor
  | some .i2p => s.gossipI2p
  | _ => false

def unsupported (item : AddressItem) : Bool := item.services &&& s.invalidServices ≠ 0

def insufficient (item : AddressItem) : Bool := item.services &&& s.required ≠ s.required

/-- What a line of the file is pushed as, if it is. -/
def loaded (line : String) : Option AddressItem :=
  match s.parse line with
  | none => none
  | some item =>
    if ¬isSpecified item then none
    else if ¬s.gossiped item then none
    else if s.insufficient item then none
    else if s.unsupported item then none
    else if s.peered item then none
    else if s.blacklisted item then none
    else if ¬s.whitelisted item then none
    else some item

end HostSettings

/-! ### The pool -/

/-- How the read or the write of the file ends. -/
inductive Ending
  | done
  | bad
  | threw
  deriving DecidableEq

/-- The file to load: whether it opens, and what is read of it before the end. -/
structure HostsFile where
  good : Bool
  lines : List String
  ending : Ending

structure Hosts (Endpoint : Type) where
  buffer : List AddressItem := []
  counts : Option Network → ℕ := fun _ => 0
  hostsCount : ℕ := 0
  endpoints : List Endpoint := []
  endpointsCount : ℕ := 0
  stopped : Bool := true

namespace Hosts
variable {Endpoint : Type} (s : HostSettings Endpoint)

def increment (h : Hosts Endpoint) (address : Address) : Hosts Endpoint :=
  { h with counts := Function.update h.counts (networkOf address) (h.counts (networkOf address) + 1) }

def decrement (h : Hosts Endpoint) (address : Address) : Hosts Endpoint :=
  { h with counts := Function.update h.counts (networkOf address) (sub1 (h.counts (networkOf address))) }

/-- `push`, which evicts the oldest entry of a full pool. -/
def push (h : Hosts Endpoint) (host : AddressItem) : Hosts Endpoint :=
  let h :=
    if h.buffer.length = s.capacity then
      match h.buffer with
      | [] => h
      | front :: rest => { h.decrement front.address with buffer := rest }
    else h
  { h with buffer := h.buffer ++ [host] }.increment host.address

/-- `push` of a line. -/
def pushLine (h : Hosts Endpoint) (line : String) : Hosts Endpoint :=
  match s.loaded line with
  | none => h
  | some item => h.push s item

/-- The count of pooled addresses is stored. -/
def stored (h : Hosts Endpoint) : Hosts Endpoint := { h with hostsCount := h.buffer.length }

def start (h : Hosts Endpoint) (file : HostsFile) : HostsCode × Hosts Endpoint :=
  if s.capacity = 0 then (.success, h)
  else if ¬h.stopped then (.operationFailed, h)
  else
    let h := { h with stopped := false }
    if ¬file.good then (.success, h)
    else
      let h := file.lines.foldl (pushLine s) h
      match file.ending with
      | .bad => (.fileLoad, h)
      | .threw => (.fileException, h)
      | .done => (.success, h.stored)

/-- `stop`, where the file is saved or is not. -/
def stop (h : Hosts Endpoint) (good : Bool) (ending : Ending) : HostsCode × Hosts Endpoint :=
  if s.capacity = 0 ∨ h.stopped then (.success, h)
  else
    let h := { h with stopped := true }
    if h.buffer = [] then (if good then .success else .fileSave, h)
    else if ¬good then (.fileSave, h)
    else
      match ending with
      | .bad => (.fileSave, h)
      | .threw => (.fileException, h)
      | .done => (.success, { h with buffer := [], hostsCount := 0, counts := fun _ => 0 })

/-- `count`. -/
def count (h : Hosts Endpoint) : ℕ := h.hostsCount

variable [DecidableEq Endpoint]

/-- `is_reserved`. -/
def isReserved (h : Hosts Endpoint) (item : AddressItem) : Bool :=
  h.endpoints.contains (s.endpoint item)

/-- The loop of `take`, over what is behind the entries that it retains. -/
def takeFrom (family : Family) (h : Hosts Endpoint) (retained : List AddressItem) :
    List AddressItem → HostsCode × Option AddressItem × Hosts Endpoint
  | [] => (.addressNotFound, none, h)
  | item :: rest =>
    if ¬s.connectable item ∨ ¬inFamily family item then
      takeFrom family h (retained ++ [item]) rest
    else
      let h := { h.decrement item.address with buffer := retained ++ rest }.stored
      if ¬h.isReserved s item then (.success, some item, h) else takeFrom family h retained rest

def take (h : Hosts Endpoint) (family : Family) :
    HostsCode × Option AddressItem × Hosts Endpoint :=
  if h.stopped then (.serviceStopped, none, h) else takeFrom s family h [] h.buffer

/-- `find`, by index. -/
def find? (h : Hosts Endpoint) (host : AddressItem) : Option ℕ :=
  h.buffer.findIdx? fun item => hostKey item = hostKey host

def isPooled (h : Hosts Endpoint) (host : AddressItem) : Bool := (h.find? host).isSome

def restore (h : Hosts Endpoint) (host : AddressItem) : HostsCode × Hosts Endpoint :=
  if h.stopped then (.serviceStopped, h)
  else
    match h.find? host with
    | some index => (.success, { h with buffer := h.buffer.set index host })
    | none => (.success, (h.push s host).stored)

def maxAddress : ℕ := 1000

/-- `fetch`, with the divisor and the start position that are drawn. -/
def fetch (h : Hosts Endpoint) (divide index : ℕ) : HostsCode × List AddressItem :=
  if h.stopped then (.serviceStopped, [])
  else if h.buffer = [] then (.addressNotFound, [])
  else
    let pooled := h.buffer.length
    let size := min maxAddress (pooled / divide)
    (.success, (List.range size).filterMap fun count => h.buffer[(index + count) % pooled]?)

/-- One turn of the loop of `save`. -/
def saveOne (h : Hosts Endpoint) (host : AddressItem) : Hosts Endpoint :=
  if ¬s.insufficient host ∧ ¬h.isReserved s host ∧ ¬h.isPooled host then (h.push s host).stored
  else h

def save (h : Hosts Endpoint) (addresses : List AddressItem) :
    HostsCode × ℕ × Hosts Endpoint :=
  if h.stopped then (.serviceStopped, 0, h)
  else if addresses = [] then (.addressNotFound, 0, h)
  else
    let startSize := h.buffer.length
    let h := addresses.foldl (saveOne s) h
    (.success, h.buffer.length - startSize, h)

/-! ### Reservations and runs -/

def reserve (h : Hosts Endpoint) (host : Endpoint) : Bool × Hosts Endpoint :=
  if host ∈ h.endpoints then (false, h)
  else
    (true, { h with
      endpoints := host :: h.endpoints
      endpointsCount := h.endpointsCount + 1 })

def unreserve (h : Hosts Endpoint) (host : Endpoint) : Bool × Hosts Endpoint :=
  if host ∈ h.endpoints then
    (true, { h with
      endpoints := h.endpoints.erase host
      endpointsCount := h.endpointsCount - 1 })
  else (false, h)

/-- The calls of the pool, one after another. -/
inductive Op (Endpoint : Type)
  | start (file : HostsFile)
  | stop (good : Bool) (ending : Ending)
  | take (family : Family)
  | restore (host : AddressItem)
  | fetch (divide index : ℕ)
  | save (addresses : List AddressItem)
  | reserve (host : Endpoint)
  | unreserve (host : Endpoint)

def step (h : Hosts Endpoint) : Op Endpoint → Hosts Endpoint
  | .start file => (h.start s file).2
  | .stop good ending => (h.stop s good ending).2
  | .take family => (h.take s family).2.2
  | .restore host => (h.restore s host).2
  | .fetch _ _ => h
  | .save addresses => (h.save s addresses).2.2
  | .reserve host => (h.reserve host).2
  | .unreserve host => (h.unreserve host).2

end Hosts
end BitcoinNetwork.Net
