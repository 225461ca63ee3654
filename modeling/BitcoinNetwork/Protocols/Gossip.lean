import BitcoinNetwork.Async.Totals
import BitcoinNetwork.Async.Transition
import Mathlib.Logic.Function.Basic
import Mathlib.Data.List.Sort

/-!
# Addresses among the peers of a node (protocols/protocol_address_in_209.cpp)

Each channel has a protocol that takes addresses from its peer and one that gives it some
(protocols/protocol_address_out_209.cpp), or those that replace them where addresses of
all networks are understood (70016). What is to be relayed goes over the strand of the
network, to the channels that have subscribed there, and on to the strand of each.
-/

namespace BitcoinNetwork.Protocols
open Async

/-- `maximum_advertisement` (messages/peer/enums/magic_numbers.hpp). -/
def maximumAdvertisement : ℕ := 10

/-- What the protocols read of the settings, with the addresses that the node advertises
itself by. -/
structure AddressSettings (Item : Type) where
  isV1 : Item → Bool
  excluded : Item → Bool
  hostPoolCapacity : ℕ
  selfs : Option (List Item)

/-- A job of the strand of a channel: `handle_broadcast_address` or `handle_fetch_address`. -/
inductive RelayJob (Item : Type)
  | broadcast (message : List Item) (sender : ℕ)
  | fetched (failed : Bool) (message : List Item)

/-- What is sent to a peer, but for what is relayed to it. -/
inductive AddressSend (Item : Type)
  | getAddress
  | address (message : List Item)

/-- A channel with its two protocols, with the messages of addresses that it has received and
what it has sent and relayed. -/
structure Party (Item : Type) where
  outbound : Bool := false
  v2 : Bool := false
  address : Option Item := none
  stopped : Bool := false
  first : Bool := true
  sent : Bool := false
  jobs : List (RelayJob Item) := []
  received : List (List Item) := []
  sends : List (AddressSend Item) := []
  relayed : List (List Item) := []

/-- A job of the strand of the network. -/
inductive GossipJob (Item : Type)
  | subscribe (k : ℕ)
  | broadcast (message : List Item) (sender : ℕ)
  | fetch (k : ℕ)
  | save (k : ℕ) (message : List Item)
  | stop

/-- A node, with the channels that have subscribed to broadcasts, in the order of their
identifiers, what was broadcast, how much of it before each subscribed, and what was saved. -/
structure Gossip (Item : Type) where
  closed : Bool := false
  stopped : Bool := false
  given : ℕ := 0
  party : ℕ → Party Item := fun _ => {}
  network : List (GossipJob Item) := []
  subscribers : List ℕ := []
  broadcasts : List (List Item × ℕ) := []
  joined : ℕ → Option ℕ := fun _ => none
  saves : List (ℕ × List Item) := []

namespace Gossip
variable {Item : Type}

def update (s : Gossip Item) (k : ℕ) (p : Party Item) : Gossip Item :=
  { s with party := Function.update s.party k p }

def post (s : Gossip Item) (job : GossipJob Item) : Gossip Item :=
  { s with network := s.network ++ [job] }

def postChannel (s : Gossip Item) (k : ℕ) (job : RelayJob Item) : Gossip Item :=
  s.update k { s.party k with jobs := (s.party k).jobs ++ [job] }

/-- What a peer is given of a message: `to_representable` of the first protocol. -/
def represent (settings : AddressSettings Item) (p : Party Item) (message : List Item) : List Item :=
  if p.v2 then message else message.filter settings.isV1

/-- `send_addresses`. -/
def sendAddresses (settings : AddressSettings Item) (s : Gossip Item) (k : ℕ) (message : List Item) :
    Gossip Item :=
  s.update k { s.party k with
    sends := (s.party k).sends ++ [.address (represent settings (s.party k) message)] }

/-- `notify_addresses`. -/
def notifyAddresses (settings : AddressSettings Item) (s : Gossip Item) (k : ℕ)
    (message : List Item) : Gossip Item :=
  s.update k { s.party k with
    relayed := (s.party k).relayed ++ [represent settings (s.party k) message] }

/-- The starts of both protocols of a channel. -/
def start (settings : AddressSettings Item) (s : Gossip Item) (outbound v2 : Bool)
    (address : Option Item) : Gossip Item :=
  let k := s.given
  let p : Party Item := { outbound, v2, address, sends := if outbound then [.getAddress] else [] }
  let s := { s.update k p with given := s.given + 1 }
  match settings.selfs with
  | some selfs => sendAddresses settings s k selfs
  | none => s

/-- `filter`, with the count of the pool, what is random in the choice of how many, and a
shuffle. -/
def filter [DecidableEq Item] (settings : AddressSettings Item) (count random : ℕ)
    (shuffled items : List Item) : List Item :=
  let cap := settings.hostPoolCapacity
  let gap := if count ≤ cap then cap - count else cap + 2 ^ 64 - count
  let minimum := min gap items.length
  let maximum := min cap items.length
  let select := if minimum ≤ maximum then minimum + random % (maximum - minimum + 1) else 0
  if select = 0 then []
  else
    let addresses := if shuffled.Perm items then shuffled else items
    (addresses.take select).filter fun item => !settings.excluded item

/-- `handle_receive_address`. -/
def handleReceiveAddress [DecidableEq Item] (settings : AddressSettings Item) (s : Gossip Item)
    (k : ℕ) (message : List Item) (count random : ℕ) (shuffled : List Item) : Gossip Item :=
  let p := s.party k
  if p.stopped then s
  else
    let advertisement := p.first && message.length < maximumAdvertisement
    let s := s.update k { p with first := false, received := p.received ++ [message] }
    if !p.outbound && !advertisement then s
    else
      let s := if advertisement then s.post (.broadcast message k) else s
      if message.length = 1 ∧ message.head? = p.address then s
      else s.post (.save k (filter settings count random shuffled message))

/-- `handle_receive_get_address`. -/
def handleReceiveGetAddress (s : Gossip Item) (k : ℕ) : Gossip Item :=
  let p := s.party k
  if p.stopped then s
  else if p.sent then s
  else ((s.post (.fetch k)).update k { p with sent := true }).post (.subscribe k)

/-- `do_subscribe`, where a channel that has subscribed is refused. -/
def doSubscribe (s : Gossip Item) (k : ℕ) : Gossip Item :=
  if s.stopped then s
  else if k ∈ s.subscribers then s
  else
    { s with
      subscribers := s.subscribers.orderedInsert (· ≤ ·) k
      joined := Function.update s.joined k (some s.broadcasts.length) }

/-- `handle_broadcast`, which leaves where the channel is stopped. -/
def deliver (message : List Item) (sender : ℕ) (s : Gossip Item) (k : ℕ) : Gossip Item :=
  if (s.party k).stopped then { s with subscribers := s.subscribers.erase k }
  else s.postChannel k (.broadcast message sender)

/-- `do_broadcast`. -/
def doBroadcast (s : Gossip Item) (message : List Item) (sender : ℕ) : Gossip Item :=
  if s.stopped then s
  else s.subscribers.foldl (deliver message sender)
    { s with broadcasts := s.broadcasts ++ [(message, sender)] }

/-- `do_fetch` and `handle_fetch`, with the result of the pool. -/
def doFetch (s : Gossip Item) (k : ℕ) (failed : Bool) (message : List Item) : Gossip Item :=
  if s.closed then s.postChannel k (.fetched true [])
  else s.postChannel k (.fetched failed message)

/-- `do_save`. -/
def doSave (s : Gossip Item) (k : ℕ) (message : List Item) : Gossip Item :=
  if s.closed then s else { s with saves := s.saves ++ [(k, message)] }

/-- A job of the network, of which a stop is that of the broadcaster. -/
def runNetworkJob (s : Gossip Item) (failed : Bool) (message : List Item) :
    GossipJob Item → Gossip Item
  | .subscribe k => s.doSubscribe k
  | .broadcast message sender => s.doBroadcast message sender
  | .fetch k => s.doFetch k failed message
  | .save k message => s.doSave k message
  | .stop => { s with stopped := true, subscribers := [] }

/-- `handle_fetch_address`. -/
def handleFetchAddress (settings : AddressSettings Item) (s : Gossip Item) (k : ℕ) (failed : Bool)
    (message : List Item) : Gossip Item :=
  if (s.party k).stopped || failed then s else sendAddresses settings s k message

/-- `handle_broadcast_address`. -/
def handleBroadcastAddress (settings : AddressSettings Item) (s : Gossip Item) (k : ℕ)
    (message : List Item) (sender : ℕ) : Gossip Item :=
  if (s.party k).stopped then s
  else if sender = k then s
  else notifyAddresses settings s k message

def runChannelJob (settings : AddressSettings Item) (s : Gossip Item) (k : ℕ) :
    RelayJob Item → Gossip Item
  | .broadcast message sender => handleBroadcastAddress settings s k message sender
  | .fetched failed message => handleFetchAddress settings s k failed message

/-- A channel starts its protocols, its peer sends addresses or asks for some, it is stopped,
the node is closed, or a strand runs its next job, the one of the network with what a fetch of
the pool has for result. -/
inductive Event (Item : Type)
  | start (outbound v2 : Bool) (address : Option Item)
  | address (k : ℕ) (message : List Item) (count random : ℕ) (shuffled : List Item)
  | getAddress (k : ℕ)
  | stop (k : ℕ)
  | close
  | runNetwork (failed : Bool) (message : List Item)
  | runChannel (k : ℕ)

def step [DecidableEq Item] (settings : AddressSettings Item) (s : Gossip Item) :
    Event Item → Gossip Item
  | .start outbound v2 address => start settings s outbound v2 address
  | .address k message count random shuffled =>
    if k < s.given then handleReceiveAddress settings s k message count random shuffled else s
  | .getAddress k => if k < s.given then s.handleReceiveGetAddress k else s
  | .stop k => s.update k { s.party k with stopped := true }
  | .close => { s with closed := true }.post .stop
  | .runNetwork failed message =>
    match s.network with
    | [] => s
    | job :: network => { s with network := network }.runNetworkJob failed message job
  | .runChannel k =>
    match (s.party k).jobs with
    | [] => s
    | job :: jobs => runChannelJob settings (s.update k { s.party k with jobs := jobs }) k job

end Gossip

end BitcoinNetwork.Protocols
