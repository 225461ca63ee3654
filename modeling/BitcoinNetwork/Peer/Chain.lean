import BitcoinNetwork.Peer.Registry

/-!
# What messages are made of (messages/peer/enums/magic_numbers.hpp)

The hashes and limits of messages, and the headers, transactions and blocks, of which the
codecs are those of the chain.
-/

namespace BitcoinNetwork.Peer
open Binary

def hashSize : ℕ := 32

def miniHashSize : ℕ := 6

abbrev Hash := Vector UInt8 hashSize

abbrev MiniHash := Vector UInt8 miniHashSize

def nullHash : Hash := Vector.replicate hashSize 0

/-! ### Limits -/

def maxAddress : ℕ := 1000
def maxBloomFilterAdd : ℕ := 520
def maxBloomFilterFunctions : UInt32 := 50
def maxBloomFilterLoad : ℕ := 36000
def maxClientFilterHeaders : ℕ := 2000
def maxGetHeaders : ℕ := 2000
def maxInventory : ℕ := 50000
def maxRejectMessage : ℕ := 65535

/-- The logarithm is of the maximum of a size. -/
def maxLocator : ℕ := 10 + Nat.log2 (2 ^ 64 - 1)

/-! ### The chain -/

/-- The types of the chain with their codecs, the limits they imply and the hash, as they
are used by the messages. -/
structure Chain where
  Header : Type
  Transaction : Type
  Block : Type
  maxBlockSize : UInt64
  maxBlockWeight : UInt64
  minTransactionSize : UInt64
  header : Decoder Header
  headerData : Header → Bytes
  headerSize : ℕ
  transaction : Bool → Decoder Transaction
  transactionData : Transaction → Bool → Bytes
  transactionSize : Transaction → Bool → ℕ
  isSegregated : Transaction → Bool
  nominalHash : Transaction → Hash
  block : Bytes → Bool → Block
  isValid : Block → Bool
  blockData : Block → Bool → Bytes
  blockSize : Block → Bool → ℕ
  bitcoinHash : Bytes → Hash

namespace Chain

def maxPayload (chain : Chain) : ℕ := chain.maxBlockWeight.toNat

def maxBlockTransactions (chain : Chain) : ℕ :=
  chain.maxBlockSize.toNat / chain.minTransactionSize.toNat

/-- The header is carried by its own codec. -/
def CarriesHeader (chain : Chain) (header : chain.Header) : Prop :=
  (chain.headerData header).length = chain.headerSize ∧
    chain.header.Decodes (chain.headerData header) header

def CarriesTransaction (chain : Chain) (witness : Bool) (transaction : chain.Transaction) : Prop :=
  (chain.transactionData transaction witness).length = chain.transactionSize transaction witness ∧
    (chain.transaction witness).Decodes (chain.transactionData transaction witness) transaction

def CarriesBlock (chain : Chain) (witness : Bool) (block : chain.Block) : Prop :=
  (chain.blockData block witness).length = chain.blockSize block witness ∧
    chain.block (chain.blockData block witness) witness = block ∧ chain.isValid block = true

theorem maxBlockSize_lt (chain : Chain) : chain.maxBlockSize.toNat < 2 ^ 64 :=
  chain.maxBlockSize.toNat_lt

theorem maxBlockTransactions_lt (chain : Chain) : chain.maxBlockTransactions < 2 ^ 64 :=
  Nat.lt_of_le_of_lt (Nat.div_le_self _ _) chain.maxBlockSize_lt

theorem maxPayload_lt (chain : Chain) : chain.maxPayload / hashSize < 2 ^ 64 :=
  Nat.lt_of_le_of_lt (Nat.div_le_self _ _) chain.maxBlockWeight.toNat_lt

variable {chain : Chain}

theorem CarriesHeader.coded {header : chain.Header} (h : chain.CarriesHeader header) :
    Coded chain.header (fun sink => sink.writeBytes (chain.headerData header)) chain.headerSize
      header :=
  ⟨chain.headerData header, h.1, fun sink => sink.writes_bytes _, h.2⟩

theorem CarriesTransaction.coded {witness : Bool} {transaction : chain.Transaction}
    (h : chain.CarriesTransaction witness transaction) :
    Coded (chain.transaction witness)
      (fun sink => sink.writeBytes (chain.transactionData transaction witness))
      (chain.transactionSize transaction witness) transaction :=
  ⟨chain.transactionData transaction witness, h.1, fun sink => sink.writes_bytes _, h.2⟩

end Chain

/-! ### Lists -/

/-- Hashes, up to a limit. -/
def readHashes (limit : ℕ) : Decoder (List Hash) := do
  let count ← .size limit
  Decoder.times (.vector hashSize) count

/-- Hashes behind their number. -/
def writeHashes (sink : Writer) (hashes : List Hash) : Action sink.Sink Unit := do
  let _ ← sink.writeVarint hashes.length
  Action.each (fun hash : Hash => sink.writeBytes hash.toList) hashes

/-- The sizes of values that are all of one size. -/
theorem sum_map_const {α : Type} (values : List α) (size : ℕ) :
    (values.map fun _ => size).sum = values.length * size := by
  rw [List.map_const', List.sum_replicate_nat]

theorem coded_hashes {limit : ℕ} {hashes : List Hash} (hlimit : hashes.length ≤ limit)
    (hbound : limit < 2 ^ 64) :
    Coded (readHashes limit) (fun sink => writeHashes sink hashes)
      (variableSize hashes.length + hashes.length * hashSize) hashes := by
  rw [← sum_map_const]
  exact (coded_size hlimit hbound).bind (coded_times fun hash _ => coded_vector hash)

end BitcoinNetwork.Peer
