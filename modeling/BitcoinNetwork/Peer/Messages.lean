import BitcoinNetwork.Peer.Blocks
import BitcoinNetwork.Peer.Filters
import BitcoinNetwork.Peer.Heading
import BitcoinNetwork.Peer.Notices
import BitcoinNetwork.Peer.Signals

/-!
# The codecs of the registered messages (messages/peer/message.hpp, registry.hpp)

What is serialized of a message fills the buffer that its size is taken for, alone or
behind a heading, and is deserialized as the message.
-/

namespace BitcoinNetwork.Peer
open Binary

/-! ### The codecs of the types -/

namespace Kind

def Message (chain : Chain) : Kind → Type
  | version => Version
  | versionAcknowledge => Signal
  | sendAddressV2 => Signal
  | sendTransactionReconciliation => SendTransactionReconciliation
  | witnessTxIdRelay => Signal
  | address => AddressMessage
  | addressV2 => AddressV2
  | alert => Alert
  | block => BlockMessage chain
  | bloomFilterAdd => BloomFilterAdd
  | bloomFilterClear => Signal
  | bloomFilterLoad => BloomFilterLoad
  | clientFilter => ClientFilter
  | clientFilterCheckpoint => ClientFilterCheckpoint
  | clientFilterHeaders => ClientFilterHeaders
  | compactBlock => CompactBlock chain
  | compactTransactions => CompactTransactions chain
  | feeFilter => FeeFilter
  | getAddress => Signal
  | getBlocks => Locator
  | getClientFilterCheckpoint => GetClientFilterCheckpoint
  | getClientFilterHeaders => FilterRange
  | getClientFilters => FilterRange
  | getCompactTransactions => GetCompactTransactions
  | getData => Items
  | getHeaders => Locator
  | headers => Headers chain
  | inventory => Items
  | memoryPool => Signal
  | merkleBlock => MerkleBlock chain
  | notFound => Items
  | ping => Ping
  | pong => Pong
  | reject => Reject
  | sendCompact => SendCompact
  | sendHeaders => Signal
  | transaction => TransactionMessage chain

/-- `deserialize` of the type, from the whole of a payload. -/
def deserialize (chain : Chain) : (kind : Kind) → UInt32 → Bool → Decoder (kind.Message chain)
  | version, v, _ => Version.deserialize v
  | versionAcknowledge, v, _ => VersionAcknowledge.deserialize v
  | sendAddressV2, v, _ => SendAddressV2.deserialize v
  | sendTransactionReconciliation, v, _ => SendTransactionReconciliation.deserialize v
  | witnessTxIdRelay, v, _ => WitnessTxIdRelay.deserialize v
  | address, v, _ => AddressMessage.deserialize v
  | addressV2, v, _ => AddressV2.deserialize v
  | alert, v, _ => Alert.deserialize chain v
  | block, v, witness => BlockMessage.deserialize chain v witness
  | bloomFilterAdd, v, _ => BloomFilterAdd.deserialize v
  | bloomFilterClear, v, _ => BloomFilterClear.deserialize v
  | bloomFilterLoad, v, _ => BloomFilterLoad.deserialize v
  | clientFilter, v, _ => ClientFilter.deserialize chain v
  | clientFilterCheckpoint, v, _ => ClientFilterCheckpoint.deserialize chain v
  | clientFilterHeaders, v, _ => ClientFilterHeaders.deserialize v
  | compactBlock, v, witness => CompactBlock.deserialize chain v witness
  | compactTransactions, v, witness => CompactTransactions.deserialize chain v witness
  | feeFilter, v, _ => FeeFilter.deserialize v
  | getAddress, v, _ => GetAddress.deserialize v
  | getBlocks, v, _ => GetBlocks.deserialize v
  | getClientFilterCheckpoint, v, _ => GetClientFilterCheckpoint.deserialize v
  | getClientFilterHeaders, v, _ => GetClientFilterHeaders.deserialize v
  | getClientFilters, v, _ => GetClientFilters.deserialize v
  | getCompactTransactions, v, _ => GetCompactTransactions.deserialize chain v
  | getData, v, _ => GetData.deserialize v
  | getHeaders, v, _ => GetHeaders.deserialize v
  | headers, v, _ => Headers.deserialize chain v
  | inventory, v, _ => Inventory.deserialize v
  | memoryPool, v, _ => MemoryPool.deserialize v
  | merkleBlock, v, _ => MerkleBlock.deserialize chain v
  | notFound, v, _ => NotFound.deserialize v
  | ping, v, _ => Ping.deserialize v
  | pong, v, _ => Pong.deserialize v
  | reject, v, _ => Reject.deserialize v
  | sendCompact, v, _ => SendCompact.deserialize v
  | sendHeaders, v, _ => SendHeaders.deserialize v
  | transaction, v, witness => TransactionMessage.deserialize chain v witness

/-- `serialize` of the type, with a witness where it has one. -/
def serialize (chain : Chain) :
    (kind : Kind) → kind.Message chain → UInt32 → (sink : Writer) → Action sink.Sink Unit
  | version => Version.serialize
  | versionAcknowledge => Signal.serialize
  | sendAddressV2 => Signal.serialize
  | sendTransactionReconciliation => SendTransactionReconciliation.serialize
  | witnessTxIdRelay => Signal.serialize
  | address => AddressMessage.serialize
  | addressV2 => AddressV2.serialize
  | alert => Alert.serialize
  | block => fun message v => BlockMessage.serialize message v true
  | bloomFilterAdd => BloomFilterAdd.serialize
  | bloomFilterClear => Signal.serialize
  | bloomFilterLoad => BloomFilterLoad.serialize
  | clientFilter => ClientFilter.serialize
  | clientFilterCheckpoint => ClientFilterCheckpoint.serialize
  | clientFilterHeaders => ClientFilterHeaders.serialize
  | compactBlock => fun message v => CompactBlock.serialize message v true
  | compactTransactions => fun message v => CompactTransactions.serialize message v true
  | feeFilter => FeeFilter.serialize
  | getAddress => Signal.serialize
  | getBlocks => Locator.serialize
  | getClientFilterCheckpoint => GetClientFilterCheckpoint.serialize
  | getClientFilterHeaders => FilterRange.serialize
  | getClientFilters => FilterRange.serialize
  | getCompactTransactions => GetCompactTransactions.serialize
  | getData => Items.serialize
  | getHeaders => Locator.serialize
  | headers => Headers.serialize
  | inventory => Items.serialize
  | memoryPool => Signal.serialize
  | merkleBlock => MerkleBlock.serialize
  | notFound => Items.serialize
  | ping => Ping.serialize
  | pong => Pong.serialize
  | reject => Reject.serialize
  | sendCompact => SendCompact.serialize
  | sendHeaders => Signal.serialize
  | transaction => fun message v => TransactionMessage.serialize message v true

/-- `size` of the type, with a witness where it has one. -/
def size (chain : Chain) : (kind : Kind) → kind.Message chain → UInt32 → ℕ
  | version, message, v => Version.size message v
  | versionAcknowledge, _, v => Signal.size v
  | sendAddressV2, _, v => Signal.size v
  | sendTransactionReconciliation, _, v => SendTransactionReconciliation.size v
  | witnessTxIdRelay, _, v => Signal.size v
  | address, message, v => AddressMessage.size message v
  | addressV2, message, v => AddressV2.size message v
  | alert, message, v => Alert.size message v
  | block, message, v => BlockMessage.size message v true
  | bloomFilterAdd, message, v => BloomFilterAdd.size message v
  | bloomFilterClear, _, v => Signal.size v
  | bloomFilterLoad, message, v => BloomFilterLoad.size message v
  | clientFilter, message, v => ClientFilter.size message v
  | clientFilterCheckpoint, message, v => ClientFilterCheckpoint.size message v
  | clientFilterHeaders, message, v => ClientFilterHeaders.size message v
  | compactBlock, message, v => CompactBlock.size message v true
  | compactTransactions, message, v => CompactTransactions.size message v true
  | feeFilter, _, v => FeeFilter.size v
  | getAddress, _, v => Signal.size v
  | getBlocks, message, v => Locator.size message v
  | getClientFilterCheckpoint, _, v => GetClientFilterCheckpoint.size v
  | getClientFilterHeaders, _, v => FilterRange.size v
  | getClientFilters, _, v => FilterRange.size v
  | getCompactTransactions, message, v => GetCompactTransactions.size message v
  | getData, message, v => Items.size message v
  | getHeaders, message, v => Locator.size message v
  | headers, message, v => Headers.size message v
  | inventory, message, v => Items.size message v
  | memoryPool, _, v => Signal.size v
  | merkleBlock, message, v => MerkleBlock.size message v
  | notFound, message, v => Items.size message v
  | ping, _, v => Ping.size v
  | pong, _, v => Pong.size v
  | reject, message, v => Reject.size message v
  | sendCompact, _, v => SendCompact.size v
  | sendHeaders, _, v => Signal.size v
  | transaction, message, v => TransactionMessage.size message v true

/-- What can be encoded in the version: numbers and sizes up to the maximums of the type,
and nothing in a field that the version does not have. -/
def Representable (chain : Chain) : (kind : Kind) → UInt32 → kind.Message chain → Prop
  | version, _, message => Version.Representable message
  | address, _, message => AddressMessage.Representable message
  | addressV2, _, message => AddressV2.Representable message
  | alert, v, message => Alert.Representable chain v message
  | block, _, message => BlockMessage.Representable true message
  | bloomFilterAdd, _, message => BloomFilterAdd.Representable message
  | bloomFilterLoad, _, message => BloomFilterLoad.Representable message
  | clientFilter, _, message => ClientFilter.Representable chain message
  | clientFilterCheckpoint, _, message => ClientFilterCheckpoint.Representable chain message
  | clientFilterHeaders, _, message => ClientFilterHeaders.Representable message
  | compactBlock, _, message => CompactBlock.Representable true message
  | compactTransactions, _, message => CompactTransactions.Representable true message
  | getBlocks, _, message => Locator.Representable message
  | getCompactTransactions, _, message => GetCompactTransactions.Representable chain message
  | getData, _, message => Items.Representable message
  | getHeaders, _, message => Locator.Representable message
  | headers, _, message => Headers.Representable message
  | inventory, _, message => Items.Representable message
  | merkleBlock, _, message => MerkleBlock.Representable message
  | notFound, _, message => Items.Representable message
  | ping, v, message => Ping.Representable v message
  | reject, _, message => Reject.Representable message
  | transaction, _, message => TransactionMessage.Representable true message
  | _, _, _ => True

/-- What the code presumes of a message beyond that: there is no zero in a text, and a
version is encoded for its own side of bip37. -/
def Presumed (chain : Chain) : (kind : Kind) → UInt32 → kind.Message chain → Prop
  | version, v, message => 0 ∉ Version.userAgent message ∧ Version.Presumed v message
  | reject, _, message => 0 ∉ Reject.message message ∧ 0 ∉ Reject.reason message
  | alert, _, message => (Alert.payload message).ZeroFree
  | _, _, _ => True

/-! ### Serialization -/

/-- `serialize` of the payload alone. -/
def toPayload (chain : Chain) (kind : Kind) (message : kind.Message chain) (version : UInt32) :
    Option Bytes :=
  Writer.buffer (kind.size chain message version) (kind.serialize chain message version)

/-- The hash in the heading: what is cached of a transaction that has no witness. -/
def payloadHash (chain : Chain) : (kind : Kind) → kind.Message chain → Bytes → Hash
  | .transaction, message, payload =>
    match TransactionMessage.transaction message with
    | some tx =>
      if chain.isSegregated tx then chain.bitcoinHash payload
      else chain.nominalHash tx
    | none => chain.bitcoinHash payload
  | _, _, payload => chain.bitcoinHash payload

/-- `serialize` with the heading in front. -/
def toFrame (chain : Chain) (kind : Kind) (message : kind.Message chain) (magic version : UInt32) :
    Option Bytes := do
  let payload ← kind.toPayload chain message version
  let heading := Heading.factoryOfHash magic kind.command payload.length
    (kind.payloadHash chain message payload)
  Writer.fill (List.replicate Heading.size 0 ++ payload) heading.serialize

/-- The message is carried in the version: any writer is given as many bytes as its size,
the buffers are filled, and all of the payload is deserialized as the message. -/
def RoundTrips (chain : Chain) (kind : Kind) (version : UInt32) (message : kind.Message chain) :
    Prop :=
  ∃ payload : Bytes, payload.length = kind.size chain message version ∧
    (∀ sink : Writer, Writes sink.view (kind.serialize chain message version sink) payload) ∧
    kind.toPayload chain message version = some payload ∧
    (∀ magic, ∃ heading, heading.length = Heading.size ∧
      kind.toFrame chain message magic version = some (heading ++ payload)) ∧
    kind.deserialize chain version true payload = some (message, [])

variable {chain : Chain} {version : UInt32}

theorem whole {kind : Kind} {message : kind.Message chain} (h : kind.Supports version)
    (hr : kind.Representable chain version message)
    (hread : kind.Presumed chain version message) :
    Whole (kind.deserialize chain version true) (kind.serialize chain message version)
      (kind.size chain message version) message := by
  cases kind with
  | version => exact (Version.coded hr hread.1 hread.2).whole
  | versionAcknowledge => exact (Signal.coded h message).whole
  | sendAddressV2 => exact (Signal.coded h message).whole
  | sendTransactionReconciliation => exact (SendTransactionReconciliation.coded h message).whole
  | witnessTxIdRelay => exact (Signal.coded h message).whole
  | address => exact (AddressMessage.coded h hr).whole
  | addressV2 => exact (AddressV2.coded h hr).whole
  | alert => exact (Alert.coded h hr hread).whole
  | block => exact BlockMessage.coded h hr
  | bloomFilterAdd => exact (BloomFilterAdd.coded h hr).whole
  | bloomFilterClear => exact (Signal.coded h message).whole
  | bloomFilterLoad => exact (BloomFilterLoad.coded h hr).whole
  | clientFilter => exact (ClientFilter.coded h hr).whole
  | clientFilterCheckpoint => exact (ClientFilterCheckpoint.coded h hr).whole
  | clientFilterHeaders => exact (ClientFilterHeaders.coded h hr).whole
  | compactBlock => exact (CompactBlock.coded h hr).whole
  | compactTransactions => exact (CompactTransactions.coded h hr).whole
  | feeFilter => exact (FeeFilter.coded h message).whole
  | getAddress => exact (Signal.coded h message).whole
  | getBlocks => exact (Locator.coded h hr).whole
  | getClientFilterCheckpoint => exact (GetClientFilterCheckpoint.coded h message).whole
  | getClientFilterHeaders => exact (FilterRange.coded h message).whole
  | getClientFilters => exact (FilterRange.coded h message).whole
  | getCompactTransactions => exact (GetCompactTransactions.coded h hr).whole
  | getData => exact (Items.coded h hr).whole
  | getHeaders => exact (Locator.coded h hr).whole
  | headers => exact (Headers.coded h hr).whole
  | inventory => exact (Items.coded h hr).whole
  | memoryPool => exact (Signal.coded h message).whole
  | merkleBlock => exact (@MerkleBlock.coded chain version message hr).whole
  | notFound => exact (Items.coded h hr).whole
  | ping => exact (Ping.coded h hr).whole
  | pong => exact (Pong.coded h message).whole
  | reject => exact (@Reject.coded version message hr hread.1 hread.2).whole
  | sendCompact => exact (SendCompact.coded h message).whole
  | sendHeaders => exact (Signal.coded h message).whole
  | transaction => exact (TransactionMessage.coded h hr).whole

/-- A heading is written in front of a payload. -/
theorem fill_heading {heading : Heading} (h : Heading.Fits heading.command) (payload : Bytes) :
    ∃ front, front.length = Heading.size ∧
      Writer.fill (List.replicate Heading.size 0 ++ payload) heading.serialize =
        some (front ++ payload) := by
  obtain ⟨front, hsize, hwrites, -⟩ := Heading.coded h
  refine ⟨front, hsize, ?_⟩
  rw [Writer.fill_of_writes hwrites, hsize, List.length_append, List.length_replicate,
    if_pos (Nat.le_add_right _ _), List.drop_left' List.length_replicate]

/-- What whole payloads are written of is carried. -/
theorem roundTrips_of_whole {kind : Kind} {message : kind.Message chain}
    (h : Whole (kind.deserialize chain version true) (kind.serialize chain message version)
      (kind.size chain message version) message) : kind.RoundTrips chain version message := by
  obtain ⟨payload, hsize, hwrites, hdecodes⟩ := h
  have hpayload : kind.toPayload chain message version = some payload :=
    Writer.buffer_of_writes hsize hwrites
  refine ⟨payload, hsize, hwrites, hpayload, ?_, hdecodes⟩
  intro magic
  have hfits := Heading.factory_fits magic (Heading.registered_fits kind) payload.length
    (kind.payloadHash chain message payload)
  obtain ⟨front, hfront, hfill⟩ := fill_heading hfits payload
  refine ⟨front, hfront, ?_⟩
  unfold toFrame
  rw [hpayload]
  exact hfill

/-- Every message of a registered type that can be encoded in a version, as the code
presumes it, is carried. -/
theorem messages_roundTrip (chain : Chain) (kind : Kind) (version : UInt32)
    (message : kind.Message chain) (h : kind.Supports version)
    (hr : kind.Representable chain version message) (hread : kind.Presumed chain version message) :
    kind.RoundTrips chain version message :=
  roundTrips_of_whole (whole h hr hread)

/-! ### A plain chain -/

/-- A chain of headers that are bytes, which has no transactions. -/
def plainChain : Chain where
  Header := Vector UInt8 80
  Transaction := Empty
  Block := Unit
  maxBlockSize := 1000000
  maxBlockWeight := 4000000
  minTransactionSize := 60
  header := .vector 80
  headerData header := header.toList
  headerSize := 80
  transaction _ := .fail
  transactionData transaction _ := transaction.elim
  transactionSize transaction _ := transaction.elim
  isSegregated transaction := transaction.elim
  nominalHash transaction := transaction.elim
  block _ _ := ()
  isValid _ := false
  blockData _ _ := []
  blockSize _ _ := 0
  bitcoinHash _ := nullHash

def plainAddress : Address := .of .ipv6 (List.replicate 15 0 ++ [1])

/-- A version of the value that has the text. -/
def plainVersion (value : UInt32) (userAgent : Bytes) : Version where
  value := value
  services := 1
  timestamp := 2
  addressReceiver := { timestamp := 0, services := 1, address := plainAddress, port := 8333 }
  addressSender := { timestamp := 0, services := 0, address := plainAddress, port := 0 }
  nonce := 3
  userAgent := userAgent
  startHeight := 4
  relay := true

theorem messages_roundTrip_headers :
    Kind.headers.RoundTrips plainChain 70016 { headers := [Vector.replicate 80 7] } :=
  messages_roundTrip plainChain .headers 70016 _ (by decide)
    ⟨by decide, fun header _ => ⟨header.length_toList, Decoder.decodes_vector header⟩⟩ trivial

theorem plainVersion_representable (value : UInt32) {userAgent : Bytes}
    (h : userAgent.length ≤ maxUserAgent) : (plainVersion value userAgent).Representable := by
  have hsent (services : UInt64) (port : UInt16) : Version.Sent
      { timestamp := 0, services, address := plainAddress, port } :=
    ⟨show AddressItem.Canonical plainAddress by decide, rfl, rfl⟩
  exact ⟨hsent 1 8333, hsent 0 0, h, fun _ => rfl⟩

/-- What is carried is in the buffer. -/
theorem RoundTrips.deserialize_toPayload {chain : Chain} {kind : Kind} {version : UInt32}
    {message : kind.Message chain} (h : kind.RoundTrips chain version message) :
    (kind.toPayload chain message version).bind (kind.deserialize chain version true) =
      some (message, []) := by
  obtain ⟨payload, -, -, hpayload, -, hdecodes⟩ := h
  rw [hpayload]
  exact hdecodes

/-- The version message can be encoded in the version, and is not carried. -/
def Fails (version value : UInt32) (userAgent : Bytes) : Prop :=
  Kind.version.Supports version ∧
    Kind.version.Representable plainChain version (plainVersion value userAgent) ∧
    ¬Kind.version.RoundTrips plainChain version (plainVersion value userAgent)

/-- A version of a value before bip37 does not fill the buffer of a later version, one of
a later value overruns that of an earlier version, and a text is cut at a zero. -/
theorem not_roundTrips : Fails 70016 70000 [] ∧ Fails 70000 70016 [] ∧ Fails 70016 70016 [97, 0, 98] := by
  have hfails {version value : UInt32} {userAgent : Bytes} (h : Kind.version.Supports version)
      (hlength : userAgent.length ≤ maxUserAgent)
      (hread : (Kind.version.toPayload plainChain (plainVersion value userAgent) version).bind
        (Version.deserialize version) ≠ some (plainVersion value userAgent, [])) :
      Fails version value userAgent :=
    ⟨h, plainVersion_representable value hlength, fun hcarried => hread hcarried.deserialize_toPayload⟩
  refine ⟨hfails (by decide) (by decide) ?_, hfails (by decide) (by decide) ?_,
    hfails (by decide) (by decide) ?_⟩
  · decide +kernel
  · decide
  · decide +kernel

end Kind

end BitcoinNetwork.Peer
