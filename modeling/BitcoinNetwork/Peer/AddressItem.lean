import BitcoinNetwork.Binary.Stream

/-!
# Address items and their codecs (messages/peer/detail/address_item.cpp)

The first protocol encodes ip addresses only, of version 4 within version 6; the second
one encodes the network of an address in front of it.
-/

namespace BitcoinNetwork.Peer
open Binary

/-- The networks of addresses. -/
inductive Network
  | ipv4
  | ipv6
  | torv2
  | torv3
  | i2p
  | cjdns
  deriving DecidableEq

namespace Network

def id : Network → UInt8
  | ipv4 => 1
  | ipv6 => 2
  | torv2 => 3
  | torv3 => 4
  | i2p => 5
  | cjdns => 6

/-- The bytes of an address as it is stored, and as it is sent. -/
def size : Network → ℕ
  | ipv4 | ipv6 | cjdns => 16
  | torv2 => 10
  | torv3 | i2p => 32

def wire : Network → ℕ
  | ipv4 => 4
  | network => network.size

/-- The network of an identifier. -/
def ofId? : UInt8 → Option Network
  | 1 => some ipv4
  | 2 => some ipv6
  | 3 => some torv2
  | 4 => some torv3
  | 5 => some i2p
  | 6 => some cjdns
  | _ => none

end Network

/-- An address, which may be unset. -/
inductive Address
  | unset
  | of (network : Network) (value : List UInt8)
  deriving DecidableEq

def mappedPrefix : List UInt8 := List.replicate 10 0 ++ [0xff, 0xff]

def torv2MapPrefix : List UInt8 := [0xfd, 0x87, 0xd8, 0x7e, 0xeb, 0x43]

def cjdnsPrefix : UInt8 := 0xfc

def documentationPrefix : List UInt8 := [0x20, 0x01, 0x0d, 0xb8]

def documentationWidePrefix : List UInt8 := [0x3f, 0xff]

def testNet1Prefix : List UInt8 := [192, 0, 2]

def testNet2Prefix : List UInt8 := [198, 51, 100]

def testNet3Prefix : List UInt8 := [203, 0, 113]

/-- The ip address maps one of version 4. -/
def isV4 (ip : List UInt8) : Bool := mappedPrefix.isPrefixOf ip

/-- The ip address maps a tor address. -/
def isTorv2 (ip : List UInt8) : Bool := torv2MapPrefix.isPrefixOf ip

def isCjdns (ip : List UInt8) : Bool := ip.head? == some cjdnsPrefix

/-- The ip address is in a range for documentation. -/
def isDocumentation (ip : List UInt8) : Bool :=
  let net := ip.drop mappedPrefix.length
  if isV4 ip then
    testNet1Prefix.isPrefixOf net || testNet2Prefix.isPrefixOf net || testNet3Prefix.isPrefixOf net
  else
    documentationPrefix.isPrefixOf ip ||
      (documentationWidePrefix.isPrefixOf ip && decide (ip.getD 2 0 < 0x10))

def ipAddressSize : ℕ := 16

def unspecifiedIpAddress : List UInt8 := List.replicate ipAddressSize 0

def maxAddressBytes : ℕ := 512

/-- The address that an ip address is in the first protocol. -/
def toAddress (ip : List UInt8) : Address :=
  if isV4 ip then .of .ipv4 ip else if isTorv2 ip then .unset else .of .ipv6 ip

/-- The ip address of an address, unspecified if it has none. -/
def toIpAddress : Address → List UInt8
  | .unset => unspecifiedIpAddress
  | .of network value => if network.size = ipAddressSize then value else unspecifiedIpAddress

structure AddressItem where
  timestamp : UInt32
  services : UInt64
  address : Address
  port : UInt16
  deriving DecidableEq

namespace AddressItem

/-! ### The first protocol -/

def size (withTimestamp : Bool) : ℕ := (if withTimestamp then 4 else 0) + 8 + ipAddressSize + 2

def deserialize (source : Reader) (withTimestamp : Bool) : Action source.Source AddressItem := do
  let timestamp ← (if withTimestamp then source.readLittle32 else pure 0)
  let services ← source.readLittle64
  let ip ← source.readBytes ipAddressSize
  let port ← source.readBig16
  let _ ← (if isTorv2 ip then source.invalidate else pure ())
  let address := if isDocumentation ip then .unset else toAddress ip
  pure { timestamp, services, address, port }

def serialize (item : AddressItem) (sink : Writer) (withTimestamp : Bool) : Action sink.Sink Unit := do
  let _ ← (if withTimestamp then sink.writeLittle32 item.timestamp else pure ())
  let _ ← sink.writeLittle64 item.services
  let _ ← sink.writeBytes (toIpAddress item.address)
  sink.writeBig16 item.port

/-! ### The second protocol -/

/-- `read_address` of a network. -/
def readNetwork (source : Reader) (network : Network) (size : ℕ) : Action source.Source Address :=
  if size ≠ network.wire then do
    let _ ← source.invalidate
    pure .unset
  else do
    let value ← source.readBytes network.wire
    let out := mappedPrefix.take (network.size - network.wire) ++ value
    match network with
    | .ipv4 => pure (if isDocumentation out then .unset else .of .ipv4 out)
    | .ipv6 =>
      if isDocumentation out then pure .unset
      else if isV4 out then pure (.of .ipv4 out)
      else if isTorv2 out then do
        let _ ← source.invalidate
        pure .unset
      else pure (.of .ipv6 out)
    | .cjdns =>
      if isCjdns out then pure (.of .cjdns out)
      else do
        let _ ← source.invalidate
        pure .unset
    | network => pure (.of network out)

/-- `read_address`. -/
def readAddress (source : Reader) : Action source.Source Address := do
  let id ← source.readByte
  let size ← source.readSize maxAddressBytes
  match Network.ofId? id with
  | some .torv2 => do
    let _ ← source.invalidate
    pure .unset
  | some network => readNetwork source network size
  | none => do
    let _ ← source.skipBytes size
    pure .unset

/-- `write_address`. -/
def writeAddress (sink : Writer) : Address → Action sink.Sink Unit
  | .unset => do
    let _ ← sink.writeByte 0
    sink.writeVarint 0
  | .of network value => do
    let _ ← sink.writeByte network.id
    let _ ← sink.writeVarint network.wire
    sink.writeBytes ((value.drop (network.size - network.wire)).take network.wire)

def addressSize : Address → ℕ
  | .unset => variableSize 0
  | .of network _ => variableSize network.wire + network.wire

def sizeV2 (item : AddressItem) : ℕ :=
  4 + variableSize item.services.toNat + 1 + addressSize item.address + 2

def deserializeV2 (source : Reader) : Action source.Source AddressItem := do
  let timestamp ← source.readLittle32
  let services ← source.readVarint
  let address ← readAddress source
  let port ← source.readBig16
  pure { timestamp, services, address, port }

def serializeV2 (item : AddressItem) (sink : Writer) : Action sink.Sink Unit := do
  let _ ← sink.writeLittle32 item.timestamp
  let _ ← sink.writeVarint item.services.toNat
  let _ ← writeAddress sink item.address
  sink.writeBig16 item.port

end AddressItem

end BitcoinNetwork.Peer
