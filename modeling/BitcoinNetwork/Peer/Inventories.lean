import BitcoinNetwork.Peer.Chain
import BitcoinNetwork.Peer.AddressCodecs

/-!
# Inventories, locators and addresses (messages/peer/detail)

Messages that are lists, of what a peer has or is asked for.
-/

namespace BitcoinNetwork.Peer
open Binary

variable {version : UInt32}

/-! ### Inventory items -/

/-- The identifier of a type is any number. -/
abbrev TypeId := UInt32

structure InventoryItem where
  type : TypeId
  hash : Hash
  deriving DecidableEq

namespace InventoryItem

def toNumber (inventoryType : TypeId) : UInt32 := inventoryType

def toType (value : UInt32) : TypeId := value

def size (_ : UInt32) : ℕ := hashSize + 4

def deserialize (_ : UInt32) : Decoder InventoryItem := do
  let type ← .little32
  let hash ← .vector hashSize
  pure { type := toType type, hash }

def serialize (item : InventoryItem) (_ : UInt32) (sink : Writer) : Action sink.Sink Unit := do
  let _ ← sink.writeLittle32 (toNumber item.type)
  sink.writeBytes item.hash.toList

theorem coded (item : InventoryItem) :
    Coded (deserialize version) (item.serialize version) (size version) item := by
  refine Coded.sized ((coded_little32 item.type).bind <| (coded_vector item.hash).map _) ?_
  unfold size hashSize
  omega

end InventoryItem

/-! ### Inventories -/

/-- The items of an inventory, of data that is asked for, or of what was not found. -/
structure Items where
  items : List InventoryItem
  deriving DecidableEq

namespace Items

def size (message : Items) (version : UInt32) : ℕ :=
  variableSize message.items.length + message.items.length * InventoryItem.size version

def deserialize (kind : Kind) (version : UInt32) : Decoder Items := do
  let _ ← kind.checkVersion version
  let size ← .size maxInventory
  let items ← Decoder.times (InventoryItem.deserialize version) size
  pure { items }

def serialize (message : Items) (version : UInt32) (sink : Writer) : Action sink.Sink Unit := do
  let _ ← sink.writeVarint message.items.length
  Action.each (fun item : InventoryItem => item.serialize version sink) message.items

def Representable (message : Items) : Prop := message.items.length ≤ maxInventory

theorem coded {kind : Kind} (h : kind.Supports version) {message : Items}
    (hr : message.Representable) :
    Coded (deserialize kind version) (message.serialize version) (message.size version) message := by
  apply h.coded
  refine Coded.sized ((coded_size hr (by decide)).bind <|
    (coded_times fun item _ => item.coded).map _) ?_
  rw [sum_map_const]
  rfl

end Items

def Inventory.deserialize : UInt32 → Decoder Items := Items.deserialize .inventory

def GetData.deserialize : UInt32 → Decoder Items := Items.deserialize .getData

def NotFound.deserialize : UInt32 → Decoder Items := Items.deserialize .notFound

/-! ### Locators -/

/-- The blocks, or the headers, that are asked for. -/
structure Locator where
  startHashes : List Hash
  stopHash : Hash
  deriving DecidableEq

namespace Locator

def size (message : Locator) (_ : UInt32) : ℕ :=
  4 + hashSize + variableSize message.startHashes.length + hashSize * message.startHashes.length

/-- The version in the message is not used. -/
def deserialize (kind : Kind) (version : UInt32) : Decoder Locator := do
  let _ ← kind.checkVersion version
  let _ ← .skip 4
  let startHashes ← readHashes maxLocator
  let stopHash ← .vector hashSize
  pure { startHashes, stopHash }

def serialize (message : Locator) (version : UInt32) (sink : Writer) : Action sink.Sink Unit := do
  let _ ← sink.writeLittle32 version
  let _ ← writeHashes sink message.startHashes
  sink.writeBytes message.stopHash.toList

def Representable (message : Locator) : Prop := message.startHashes.length ≤ maxLocator

theorem coded {kind : Kind} (h : kind.Supports version) {message : Locator}
    (hr : message.Representable) :
    Coded (deserialize kind version) (message.serialize version) (message.size version) message := by
  apply h.coded
  refine Coded.sized ((coded_skip version).bind <|
    (coded_hashes hr (by decide)).bind <|
    (coded_vector message.stopHash).map _) ?_
  unfold size hashSize
  omega

end Locator

def GetBlocks.deserialize : UInt32 → Decoder Locator := Locator.deserialize .getBlocks

def GetHeaders.deserialize : UInt32 → Decoder Locator := Locator.deserialize .getHeaders

/-! ### Addresses -/

namespace AddressItem

theorem coded_item {item : AddressItem} (h : Canonical item.address) (hv1 : isV1 item.address = true)
    (withTimestamp : Bool) (htimestamp : withTimestamp = false → item.timestamp = 0) :
    Coded (decodeItem withTimestamp) (fun sink => item.serialize sink withTimestamp)
      (size withTimestamp) item := by
  refine ⟨item.encode withTimestamp, encode_length h hv1 withTimestamp,
    fun _ => writes_serialize item withTimestamp, ?_⟩
  have hdecodes := decodes_item h hv1 withTimestamp
  cases withTimestamp with
  | true => exact hdecodes
  | false =>
    have hsame : { item with timestamp := if false = true then item.timestamp else 0 } = item := by
      rw [if_neg Bool.false_ne_true, ← htimestamp rfl]
    rw [hsame] at hdecodes
    exact hdecodes

theorem coded_itemV2 {item : AddressItem} (h : Canonical item.address) :
    Coded decodeItemV2 (fun sink => item.serializeV2 sink) item.sizeV2 item :=
  ⟨item.encodeV2, encodeV2_length h, fun _ => writes_serializeV2 item, decodes_itemV2 h⟩

end AddressItem

structure AddressMessage where
  addresses : List AddressItem
  deriving DecidableEq

namespace AddressMessage

def withTimestamp (version : UInt32) : Bool := decide (Level.addressTimestamp ≤ version)

def size (message : AddressMessage) (version : UInt32) : ℕ :=
  variableSize message.addresses.length +
    message.addresses.length * AddressItem.size (withTimestamp version)

def deserialize (version : UInt32) : Decoder AddressMessage := do
  let _ ← Kind.address.checkVersion version
  let size ← .size maxAddress
  let addresses ← Decoder.times (AddressItem.decodeItem (withTimestamp version)) size
  pure { addresses }

def serialize (message : AddressMessage) (version : UInt32) (sink : Writer) :
    Action sink.Sink Unit := do
  let _ ← sink.writeVarint message.addresses.length
  Action.each (fun item : AddressItem => item.serialize sink (withTimestamp version))
    message.addresses

/-- No more addresses than the maximum, each of a network of the first protocol. -/
structure Representable (message : AddressMessage) : Prop where
  count : message.addresses.length ≤ maxAddress
  canonical : ∀ item ∈ message.addresses,
    AddressItem.Canonical item.address ∧ AddressItem.isV1 item.address = true

theorem coded (h : Kind.address.Supports version) {message : AddressMessage}
    (hr : message.Representable) :
    Coded (deserialize version) (message.serialize version) (message.size version) message := by
  have htimestamp : withTimestamp version = true := decide_eq_true h.1
  apply h.coded
  refine Coded.sized ((coded_size hr.count (by decide)).bind <|
    (coded_times fun item hitem => AddressItem.coded_item (hr.canonical item hitem).1
      (hr.canonical item hitem).2 (withTimestamp version) fun hfalse =>
        absurd (htimestamp.symm.trans hfalse) (by decide)).map _) ?_
  rw [sum_map_const]
  rfl

end AddressMessage

structure AddressV2 where
  addresses : List AddressItem
  deriving DecidableEq

namespace AddressV2

def size (message : AddressV2) (_ : UInt32) : ℕ :=
  variableSize message.addresses.length + (message.addresses.map AddressItem.sizeV2).sum

def deserialize (version : UInt32) : Decoder AddressV2 := do
  let _ ← Kind.addressV2.checkVersion version
  let size ← .size maxAddress
  let addresses ← Decoder.times AddressItem.decodeItemV2 size
  pure { addresses }

def serialize (message : AddressV2) (_ : UInt32) (sink : Writer) : Action sink.Sink Unit := do
  let _ ← sink.writeVarint message.addresses.length
  Action.each (fun item : AddressItem => item.serializeV2 sink) message.addresses

structure Representable (message : AddressV2) : Prop where
  count : message.addresses.length ≤ maxAddress
  canonical : ∀ item ∈ message.addresses, AddressItem.Canonical item.address

theorem coded (h : Kind.addressV2.Supports version) {message : AddressV2}
    (hr : message.Representable) :
    Coded (deserialize version) (message.serialize version) (message.size version) message := by
  apply h.coded
  apply (coded_size hr.count (by decide)).bind
  exact (coded_times fun item hitem => AddressItem.coded_itemV2 (hr.canonical item hitem)).map _

end AddressV2

end BitcoinNetwork.Peer
