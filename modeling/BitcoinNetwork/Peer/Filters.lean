import BitcoinNetwork.Peer.Chain

/-!
# Filters (messages/peer/detail)

The bloom filters that a peer loads, and the client filters that it is served.
-/

namespace BitcoinNetwork.Peer
open Binary

variable {chain : Chain} {version : UInt32}

/-! ### Bloom filters -/

structure BloomFilterAdd where
  data : Bytes
  deriving DecidableEq

namespace BloomFilterAdd

def size (message : BloomFilterAdd) (_ : UInt32) : ℕ :=
  variableSize message.data.length + message.data.length

def deserialize (version : UInt32) : Decoder BloomFilterAdd := do
  let _ ← Kind.bloomFilterAdd.checkVersion version
  let count ← .size maxBloomFilterAdd
  let data ← .bytes count
  pure { data }

def serialize (message : BloomFilterAdd) (_ : UInt32) (sink : Writer) : Action sink.Sink Unit := do
  let _ ← sink.writeVarint message.data.length
  sink.writeBytes message.data

def Representable (message : BloomFilterAdd) : Prop := message.data.length ≤ maxBloomFilterAdd

theorem coded (h : Kind.bloomFilterAdd.Supports version) {message : BloomFilterAdd}
    (hr : message.Representable) :
    Coded (deserialize version) (message.serialize version) (message.size version) message := by
  apply h.coded
  apply (coded_size hr (by decide)).bind
  exact (coded_bytes message.data).map _

end BloomFilterAdd

structure BloomFilterLoad where
  filter : Bytes
  hashFunctions : UInt32
  tweak : UInt32
  flags : UInt8
  deriving DecidableEq

namespace BloomFilterLoad

def size (message : BloomFilterLoad) (_ : UInt32) : ℕ :=
  variableSize message.filter.length + message.filter.length + 4 + 4 + 1

def readHashFunctions : Decoder UInt32 := do
  let hashFunctions ← .little32
  let _ ← (if hashFunctions > maxBloomFilterFunctions then Decoder.fail else pure ())
  pure hashFunctions

def deserialize (version : UInt32) : Decoder BloomFilterLoad := do
  let _ ← Kind.bloomFilterLoad.checkVersion version
  let count ← .size maxBloomFilterLoad
  let filter ← .bytes count
  let hashFunctions ← readHashFunctions
  let tweak ← .little32
  let flags ← .byte
  pure { filter, hashFunctions, tweak, flags }

def serialize (message : BloomFilterLoad) (_ : UInt32) (sink : Writer) : Action sink.Sink Unit := do
  let _ ← sink.writeVarint message.filter.length
  let _ ← sink.writeBytes message.filter
  let _ ← sink.writeLittle32 message.hashFunctions
  let _ ← sink.writeLittle32 message.tweak
  sink.writeByte message.flags

structure Representable (message : BloomFilterLoad) : Prop where
  filter : message.filter.length ≤ maxBloomFilterLoad
  hashFunctions : message.hashFunctions ≤ maxBloomFilterFunctions

theorem coded_hashFunctions {hashFunctions : UInt32} (h : hashFunctions ≤ maxBloomFilterFunctions) :
    Coded readHashFunctions (fun sink => sink.writeLittle32 hashFunctions) 4 hashFunctions := by
  obtain ⟨bytes, hsize, hwrites, hdecodes⟩ := coded_little32 hashFunctions
  refine ⟨bytes, hsize, hwrites, ?_⟩
  intro behind
  unfold readHashFunctions
  rw [Decoder.bind_some (hdecodes behind), if_neg (UInt32.not_lt.mpr h)]
  rfl

theorem coded (h : Kind.bloomFilterLoad.Supports version) {message : BloomFilterLoad}
    (hr : message.Representable) :
    Coded (deserialize version) (message.serialize version) (message.size version) message := by
  apply h.coded
  refine Coded.sized ((coded_size hr.filter (by decide)).bind <|
    (coded_bytes message.filter).bind <|
    (coded_hashFunctions hr.hashFunctions).bind <|
    (coded_little32 message.tweak).bind <|
    (coded_byte message.flags).map _) ?_
  unfold size
  omega

end BloomFilterLoad

/-! ### Client filters -/

structure ClientFilter where
  filterType : UInt8
  blockHash : Hash
  filter : Bytes
  deriving DecidableEq

namespace ClientFilter

def size (message : ClientFilter) (_ : UInt32) : ℕ :=
  1 + hashSize + variableSize message.filter.length + message.filter.length

def deserialize (chain : Chain) (version : UInt32) : Decoder ClientFilter := do
  let _ ← Kind.clientFilter.checkVersion version
  let filterType ← .byte
  let blockHash ← .vector hashSize
  let count ← .size chain.maxBlockSize.toNat
  let filter ← .bytes count
  pure { filterType, blockHash, filter }

def serialize (message : ClientFilter) (_ : UInt32) (sink : Writer) : Action sink.Sink Unit := do
  let _ ← sink.writeByte message.filterType
  let _ ← sink.writeBytes message.blockHash.toList
  let _ ← sink.writeVarint message.filter.length
  sink.writeBytes message.filter

def Representable (chain : Chain) (message : ClientFilter) : Prop :=
  message.filter.length ≤ chain.maxBlockSize.toNat

theorem coded (h : Kind.clientFilter.Supports version) {message : ClientFilter}
    (hr : message.Representable chain) :
    Coded (deserialize chain version) (message.serialize version) (message.size version) message := by
  apply h.coded
  refine Coded.sized ((coded_byte message.filterType).bind <|
    (coded_vector message.blockHash).bind <|
    (coded_size hr chain.maxBlockSize_lt).bind <|
    (coded_bytes message.filter).map _) ?_
  unfold size hashSize
  omega

end ClientFilter

structure ClientFilterCheckpoint where
  filterType : UInt8
  stopHash : Hash
  filterHeaders : List Hash
  deriving DecidableEq

namespace ClientFilterCheckpoint

def size (message : ClientFilterCheckpoint) (_ : UInt32) : ℕ :=
  1 + hashSize + variableSize message.filterHeaders.length + message.filterHeaders.length * hashSize

def deserialize (chain : Chain) (version : UInt32) : Decoder ClientFilterCheckpoint := do
  let _ ← Kind.clientFilterCheckpoint.checkVersion version
  let filterType ← .byte
  let stopHash ← .vector hashSize
  let filterHeaders ← readHashes (chain.maxPayload / hashSize)
  pure { filterType, stopHash, filterHeaders }

def serialize (message : ClientFilterCheckpoint) (_ : UInt32) (sink : Writer) :
    Action sink.Sink Unit := do
  let _ ← sink.writeByte message.filterType
  let _ ← sink.writeBytes message.stopHash.toList
  writeHashes sink message.filterHeaders

def Representable (chain : Chain) (message : ClientFilterCheckpoint) : Prop :=
  message.filterHeaders.length ≤ chain.maxPayload / hashSize

theorem coded (h : Kind.clientFilterCheckpoint.Supports version) {message : ClientFilterCheckpoint}
    (hr : message.Representable chain) :
    Coded (deserialize chain version) (message.serialize version) (message.size version) message := by
  apply h.coded
  refine Coded.sized ((coded_byte message.filterType).bind <|
    (coded_vector message.stopHash).bind <|
    (coded_hashes hr chain.maxPayload_lt).map _) ?_
  unfold size hashSize
  omega

end ClientFilterCheckpoint

structure ClientFilterHeaders where
  filterType : UInt8
  stopHash : Hash
  previousFilterHeader : Hash
  filterHashes : List Hash
  deriving DecidableEq

namespace ClientFilterHeaders

def size (message : ClientFilterHeaders) (_ : UInt32) : ℕ :=
  1 + hashSize + hashSize +
    variableSize message.filterHashes.length + message.filterHashes.length * hashSize

def deserialize (version : UInt32) : Decoder ClientFilterHeaders := do
  let _ ← Kind.clientFilterHeaders.checkVersion version
  let filterType ← .byte
  let stopHash ← .vector hashSize
  let previousFilterHeader ← .vector hashSize
  let filterHashes ← readHashes maxClientFilterHeaders
  pure { filterType, stopHash, previousFilterHeader, filterHashes }

def serialize (message : ClientFilterHeaders) (_ : UInt32) (sink : Writer) :
    Action sink.Sink Unit := do
  let _ ← sink.writeByte message.filterType
  let _ ← sink.writeBytes message.stopHash.toList
  let _ ← sink.writeBytes message.previousFilterHeader.toList
  writeHashes sink message.filterHashes

def Representable (message : ClientFilterHeaders) : Prop :=
  message.filterHashes.length ≤ maxClientFilterHeaders

theorem coded (h : Kind.clientFilterHeaders.Supports version) {message : ClientFilterHeaders}
    (hr : message.Representable) :
    Coded (deserialize version) (message.serialize version) (message.size version) message := by
  apply h.coded
  refine Coded.sized ((coded_byte message.filterType).bind <|
    (coded_vector message.stopHash).bind <|
    (coded_vector message.previousFilterHeader).bind <|
    (coded_hashes hr (by decide)).map _) ?_
  unfold size hashSize
  omega

end ClientFilterHeaders

/-! ### Requests of client filters -/

structure GetClientFilterCheckpoint where
  filterType : UInt8
  stopHash : Hash
  deriving DecidableEq

namespace GetClientFilterCheckpoint

def size (_ : UInt32) : ℕ := 1 + hashSize

def deserialize (version : UInt32) : Decoder GetClientFilterCheckpoint := do
  let _ ← Kind.getClientFilterCheckpoint.checkVersion version
  let filterType ← .byte
  let stopHash ← .vector hashSize
  pure { filterType, stopHash }

def serialize (message : GetClientFilterCheckpoint) (_ : UInt32) (sink : Writer) :
    Action sink.Sink Unit := do
  let _ ← sink.writeByte message.filterType
  sink.writeBytes message.stopHash.toList

theorem coded (h : Kind.getClientFilterCheckpoint.Supports version)
    (message : GetClientFilterCheckpoint) :
    Coded (deserialize version) (message.serialize version) (size version) message := by
  apply h.coded
  apply (coded_byte message.filterType).bind
  exact (coded_vector message.stopHash).map _

end GetClientFilterCheckpoint

/-- What filters, or what headers of filters, are asked for. -/
structure FilterRange where
  filterType : UInt8
  startHeight : UInt32
  stopHash : Hash
  deriving DecidableEq

namespace FilterRange

def size (_ : UInt32) : ℕ := 1 + 4 + hashSize

def deserialize (kind : Kind) (version : UInt32) : Decoder FilterRange := do
  let _ ← kind.checkVersion version
  let filterType ← .byte
  let startHeight ← .little32
  let stopHash ← .vector hashSize
  pure { filterType, startHeight, stopHash }

def serialize (message : FilterRange) (_ : UInt32) (sink : Writer) : Action sink.Sink Unit := do
  let _ ← sink.writeByte message.filterType
  let _ ← sink.writeLittle32 message.startHeight
  sink.writeBytes message.stopHash.toList

theorem coded {kind : Kind} (h : kind.Supports version) (message : FilterRange) :
    Coded (deserialize kind version) (message.serialize version) (size version) message := by
  apply h.coded
  refine Coded.sized ((coded_byte message.filterType).bind <|
    (coded_little32 message.startHeight).bind <|
    (coded_vector message.stopHash).map _) ?_
  unfold size hashSize
  omega

end FilterRange

def GetClientFilterHeaders.deserialize : UInt32 → Decoder FilterRange :=
  FilterRange.deserialize .getClientFilterHeaders

def GetClientFilters.deserialize : UInt32 → Decoder FilterRange :=
  FilterRange.deserialize .getClientFilters

end BitcoinNetwork.Peer
