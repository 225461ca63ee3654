import BitcoinNetwork.Peer.Chain

/-!
# Headers, blocks and transactions (messages/peer/detail)

Messages that carry what is of the chain, as a whole or in the compact form.
-/

namespace BitcoinNetwork.Peer
open Binary

variable {chain : Chain} {version : UInt32} {witness : Bool}

/-! ### Blocks and transactions -/

structure BlockMessage (chain : Chain) where
  block : chain.Block

namespace BlockMessage

def size (message : BlockMessage chain) (_ : UInt32) (witness : Bool) : ℕ :=
  if chain.isValid message.block then chain.blockSize message.block witness else 0

/-- All that is ahead is the block. -/
def deserialize (chain : Chain) (version : UInt32) (witness : Bool) : Decoder (BlockMessage chain) := do
  let _ ← Kind.block.checkVersion version
  let data ← Decoder.remaining
  let block := chain.block data witness
  if chain.isValid block then pure { block } else Decoder.fail

def serialize (message : BlockMessage chain) (_ : UInt32) (witness : Bool) (sink : Writer) :
    Action sink.Sink Unit :=
  sink.writeBytes (chain.blockData message.block witness)

def Representable (witness : Bool) (message : BlockMessage chain) : Prop :=
  chain.CarriesBlock witness message.block

theorem coded (h : Kind.block.Supports version) {message : BlockMessage chain}
    (hr : message.Representable witness) :
    Whole (deserialize chain version witness) (message.serialize version witness)
      (message.size version witness) message := by
  obtain ⟨hsize, hblock, hvalid⟩ := hr
  refine ⟨chain.blockData message.block witness, ?_, fun sink => sink.writes_bytes _, ?_⟩
  · unfold size
    rw [if_pos hvalid, hsize]
  · unfold deserialize
    rw [Kind.checkVersion_eq h]
    show (if chain.isValid (chain.block _ _) = true then _ else _ : Decoder (BlockMessage chain)) [] = _
    rw [hblock, if_pos hvalid]
    rfl

end BlockMessage

structure TransactionMessage (chain : Chain) where
  transaction : Option chain.Transaction

namespace TransactionMessage

def size (message : TransactionMessage chain) (_ : UInt32) (witness : Bool) : ℕ :=
  match message.transaction with
  | some transaction => chain.transactionSize transaction witness
  | none => 0

def deserialize (chain : Chain) (version : UInt32) (witness : Bool) :
    Decoder (TransactionMessage chain) := do
  let _ ← Kind.transaction.checkVersion version
  let transaction ← chain.transaction witness
  pure { transaction := some transaction }

def serialize (message : TransactionMessage chain) (_ : UInt32) (witness : Bool) (sink : Writer) :
    Action sink.Sink Unit :=
  match message.transaction with
  | some transaction => sink.writeBytes (chain.transactionData transaction witness)
  | none => pure ()

/-- There is a transaction, and it is carried. -/
def Representable (witness : Bool) (message : TransactionMessage chain) : Prop :=
  ∃ transaction, message.transaction = some transaction ∧ chain.CarriesTransaction witness transaction

theorem coded (h : Kind.transaction.Supports version) {message : TransactionMessage chain}
    (hr : message.Representable witness) :
    Coded (deserialize chain version witness) (message.serialize version witness)
      (message.size version witness) message := by
  obtain ⟨_⟩ := message
  obtain ⟨transaction, rfl, hcarries⟩ := hr
  apply h.coded
  exact hcarries.coded.map fun transaction => TransactionMessage.mk (some transaction)

end TransactionMessage

/-! ### Headers -/

structure Headers (chain : Chain) where
  headers : List chain.Header

namespace Headers

/-- A zero byte is behind each header. -/
def trail : UInt8 := 0

def size (message : Headers chain) (_ : UInt32) : ℕ :=
  variableSize message.headers.length + message.headers.length * (chain.headerSize + 1)

def readHeader (chain : Chain) : Decoder chain.Header := do
  let header ← chain.header
  let last ← .byte
  if last = trail then pure header else Decoder.fail

def writeHeader (sink : Writer) (header : chain.Header) : Action sink.Sink Unit := do
  let _ ← sink.writeBytes (chain.headerData header)
  sink.writeByte trail

def deserialize (chain : Chain) (version : UInt32) : Decoder (Headers chain) := do
  let _ ← Kind.headers.checkVersion version
  let size ← .size maxGetHeaders
  let headers ← Decoder.times (readHeader chain) size
  pure { headers }

def serialize (message : Headers chain) (_ : UInt32) (sink : Writer) : Action sink.Sink Unit := do
  let _ ← sink.writeVarint message.headers.length
  Action.each (fun header => writeHeader sink header) message.headers

structure Representable (message : Headers chain) : Prop where
  count : message.headers.length ≤ maxGetHeaders
  carries : ∀ header ∈ message.headers, chain.CarriesHeader header

theorem coded_header {header : chain.Header} (h : chain.CarriesHeader header) :
    Coded (readHeader chain) (fun sink => writeHeader sink header) (chain.headerSize + 1) header := by
  apply h.coded.bind
  obtain ⟨bytes, hsize, hwrites, hdecodes⟩ := coded_byte trail
  refine ⟨bytes, hsize, hwrites, ?_⟩
  intro behind
  rw [Decoder.bind_some (hdecodes behind), if_pos rfl]
  rfl

theorem coded (h : Kind.headers.Supports version) {message : Headers chain}
    (hr : message.Representable) :
    Coded (deserialize chain version) (message.serialize version) (message.size version) message := by
  apply h.coded
  refine Coded.sized ((coded_size hr.count (by decide)).bind <|
    (coded_times fun header hheader => coded_header (hr.carries header hheader)).map _) ?_
  rw [sum_map_const]
  rfl

end Headers

/-- A header with the hashes that prove transactions of its block. -/
structure MerkleBlock (chain : Chain) where
  header : Option chain.Header
  transactions : UInt32
  hashes : List Hash
  flags : Bytes

namespace MerkleBlock

def size (message : MerkleBlock chain) (_ : UInt32) : ℕ :=
  (if message.header.isSome then chain.headerSize else 0) + 4 +
    variableSize message.hashes.length + message.hashes.length * hashSize +
    variableSize message.flags.length + message.flags.length

/-- The version is not checked. -/
def deserialize (chain : Chain) (_ : UInt32) : Decoder (MerkleBlock chain) := do
  let header ← chain.header
  let transactions ← .little32
  let hashes ← readHashes chain.maxBlockTransactions
  let count ← .size chain.maxBlockSize.toNat
  let flags ← .bytes count
  pure { header := some header, transactions, hashes, flags }

def serialize (message : MerkleBlock chain) (_ : UInt32) (sink : Writer) : Action sink.Sink Unit := do
  let _ ← (match message.header with
    | some header => sink.writeBytes (chain.headerData header)
    | none => pure ())
  let _ ← sink.writeLittle32 message.transactions
  let _ ← writeHashes sink message.hashes
  let _ ← sink.writeVarint message.flags.length
  sink.writeBytes message.flags

structure Representable (message : MerkleBlock chain) : Prop where
  header : ∃ header, message.header = some header ∧ chain.CarriesHeader header
  hashes : message.hashes.length ≤ chain.maxBlockTransactions
  flags : message.flags.length ≤ chain.maxBlockSize.toNat

theorem coded {message : MerkleBlock chain} (hr : message.Representable) :
    Coded (deserialize chain version) (message.serialize version) (message.size version) message := by
  obtain ⟨_, transactions, hashes, flags⟩ := message
  obtain ⟨⟨header, rfl, hcarries⟩, hhashes, hflags⟩ := hr
  refine Coded.sized (hcarries.coded.bind <|
    (coded_little32 transactions).bind <|
    (coded_hashes hhashes chain.maxBlockTransactions_lt).bind <|
    (coded_size hflags chain.maxBlockSize_lt).bind <|
    (coded_bytes flags).map _) ?_
  unfold size
  rw [Option.isSome_some, if_pos rfl]
  dsimp only
  omega

end MerkleBlock

/-! ### Compact blocks -/

structure CompactBlockItem (chain : Chain) where
  index : UInt64
  transaction : Option chain.Transaction

namespace CompactBlockItem

def size (item : CompactBlockItem chain) (_ : UInt32) (witness : Bool) : ℕ :=
  variableSize item.index.toNat +
    match item.transaction with
    | some transaction => chain.transactionSize transaction witness
    | none => 0

def deserialize (chain : Chain) (_ : UInt32) (witness : Bool) : Decoder (CompactBlockItem chain) := do
  let index ← .varint
  let transaction ← chain.transaction witness
  pure { index, transaction := some transaction }

def serialize (item : CompactBlockItem chain) (_ : UInt32) (witness : Bool) (sink : Writer) :
    Action sink.Sink Unit := do
  let _ ← sink.writeVarint item.index.toNat
  match item.transaction with
  | some transaction => sink.writeBytes (chain.transactionData transaction witness)
  | none => pure ()

def Representable (witness : Bool) (item : CompactBlockItem chain) : Prop :=
  ∃ transaction, item.transaction = some transaction ∧ chain.CarriesTransaction witness transaction

theorem coded {item : CompactBlockItem chain} (hr : item.Representable witness) :
    Coded (deserialize chain version witness) (item.serialize version witness)
      (item.size version witness) item := by
  obtain ⟨index, _⟩ := item
  obtain ⟨transaction, rfl, hcarries⟩ := hr
  apply (coded_varint index).bind
  exact hcarries.coded.map fun transaction => CompactBlockItem.mk index (some transaction)

end CompactBlockItem

structure CompactBlock (chain : Chain) where
  header : chain.Header
  nonce : UInt64
  shortIds : List MiniHash
  transactions : List (CompactBlockItem chain)

namespace CompactBlock

def size (message : CompactBlock chain) (version : UInt32) (witness : Bool) : ℕ :=
  chain.headerSize + 8 +
    variableSize message.shortIds.length + message.shortIds.length * miniHashSize +
    variableSize message.transactions.length +
    (message.transactions.map fun item => item.size version witness).sum

def deserialize (chain : Chain) (version : UInt32) (witness : Bool) :
    Decoder (CompactBlock chain) := do
  let _ ← Kind.compactBlock.checkVersion version
  let header ← chain.header
  let nonce ← .little64
  let size ← .size chain.maxBlockTransactions
  let shortIds ← Decoder.times (.vector miniHashSize) size
  let size ← .size chain.maxBlockTransactions
  let transactions ← Decoder.times (CompactBlockItem.deserialize chain version witness) size
  pure { header, nonce, shortIds, transactions }

def serialize (message : CompactBlock chain) (version : UInt32) (witness : Bool) (sink : Writer) :
    Action sink.Sink Unit := do
  let _ ← sink.writeBytes (chain.headerData message.header)
  let _ ← sink.writeLittle64 message.nonce
  let _ ← sink.writeVarint message.shortIds.length
  let _ ← Action.each (fun id : MiniHash => sink.writeBytes id.toList) message.shortIds
  let _ ← sink.writeVarint message.transactions.length
  Action.each (fun item : CompactBlockItem chain => item.serialize version witness sink)
    message.transactions

structure Representable (witness : Bool) (message : CompactBlock chain) : Prop where
  header : chain.CarriesHeader message.header
  shortIds : message.shortIds.length ≤ chain.maxBlockTransactions
  count : message.transactions.length ≤ chain.maxBlockTransactions
  carries : ∀ item ∈ message.transactions, item.Representable witness

theorem coded (h : Kind.compactBlock.Supports version) {message : CompactBlock chain}
    (hr : message.Representable witness) :
    Coded (deserialize chain version witness) (message.serialize version witness)
      (message.size version witness) message := by
  apply h.coded
  refine Coded.sized (hr.header.coded.bind <|
    (coded_little64 message.nonce).bind <|
    (coded_size hr.shortIds chain.maxBlockTransactions_lt).bind <|
    (coded_times fun id _ => coded_vector id).bind <|
    (coded_size hr.count chain.maxBlockTransactions_lt).bind <|
    (coded_times fun item hitem =>
      CompactBlockItem.coded (hr.carries item hitem)).map _) ?_
  unfold size
  rw [sum_map_const]
  omega

end CompactBlock

structure CompactTransactions (chain : Chain) where
  blockHash : Hash
  transactions : List chain.Transaction

namespace CompactTransactions

def size (message : CompactTransactions chain) (_ : UInt32) (witness : Bool) : ℕ :=
  hashSize + variableSize message.transactions.length +
    (message.transactions.map fun transaction => chain.transactionSize transaction witness).sum

def deserialize (chain : Chain) (version : UInt32) (witness : Bool) :
    Decoder (CompactTransactions chain) := do
  let _ ← Kind.compactTransactions.checkVersion version
  let blockHash ← .vector hashSize
  let size ← .size chain.maxBlockTransactions
  let transactions ← Decoder.times (chain.transaction witness) size
  pure { blockHash, transactions }

def serialize (message : CompactTransactions chain) (_ : UInt32) (witness : Bool) (sink : Writer) :
    Action sink.Sink Unit := do
  let _ ← sink.writeBytes message.blockHash.toList
  let _ ← sink.writeVarint message.transactions.length
  Action.each (fun transaction => sink.writeBytes (chain.transactionData transaction witness))
    message.transactions

structure Representable (witness : Bool) (message : CompactTransactions chain) : Prop where
  count : message.transactions.length ≤ chain.maxBlockTransactions
  carries : ∀ transaction ∈ message.transactions, chain.CarriesTransaction witness transaction

theorem coded (h : Kind.compactTransactions.Supports version) {message : CompactTransactions chain}
    (hr : message.Representable witness) :
    Coded (deserialize chain version witness) (message.serialize version witness)
      (message.size version witness) message := by
  apply h.coded
  refine Coded.sized ((coded_vector message.blockHash).bind <|
    (coded_size hr.count chain.maxBlockTransactions_lt).bind <|
    (coded_times fun transaction htransaction =>
      (hr.carries transaction htransaction).coded).map _) ?_
  unfold size hashSize
  omega

end CompactTransactions

structure GetCompactTransactions where
  blockHash : Hash
  indexes : List UInt64
  deriving DecidableEq

namespace GetCompactTransactions

def size (message : GetCompactTransactions) (_ : UInt32) : ℕ :=
  hashSize + variableSize message.indexes.length +
    (message.indexes.map fun index => variableSize index.toNat).sum

/-- An index is read as a size without a limit. -/
def deserialize (chain : Chain) (version : UInt32) : Decoder GetCompactTransactions := do
  let _ ← Kind.getCompactTransactions.checkVersion version
  let blockHash ← .vector hashSize
  let size ← .size chain.maxBlockTransactions
  let indexes ← Decoder.times .varint size
  pure { blockHash, indexes }

def serialize (message : GetCompactTransactions) (_ : UInt32) (sink : Writer) :
    Action sink.Sink Unit := do
  let _ ← sink.writeBytes message.blockHash.toList
  let _ ← sink.writeVarint message.indexes.length
  Action.each (fun index : UInt64 => sink.writeVarint index.toNat) message.indexes

def Representable (chain : Chain) (message : GetCompactTransactions) : Prop :=
  message.indexes.length ≤ chain.maxBlockTransactions

theorem coded (h : Kind.getCompactTransactions.Supports version) {message : GetCompactTransactions}
    (hr : message.Representable chain) :
    Coded (deserialize chain version) (message.serialize version) (message.size version) message := by
  apply h.coded
  refine Coded.sized ((coded_vector message.blockHash).bind <|
    (coded_size hr chain.maxBlockTransactions_lt).bind <|
    (coded_times fun index _ => coded_varint index).map _) ?_
  unfold size hashSize
  omega

end GetCompactTransactions

end BitcoinNetwork.Peer
