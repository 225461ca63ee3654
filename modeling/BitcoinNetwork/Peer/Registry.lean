import BitcoinNetwork.Http.Text
import BitcoinNetwork.Binary.Codec

/-!
# The registered messages (messages/peer/registry.hpp, interfaces/peer_dispatch.hpp)

A message is registered by its command, and by a short identifier if it has one; it is
read in a range of versions of the protocol.
-/

namespace BitcoinNetwork.Peer
open Binary
open Http (ascii)

abbrev Bytes := List UInt8

/-! ### Levels of the protocol (enums/level.hpp) -/

namespace Level

def addressTimestamp : UInt32 := 31402
def headersProtocol : UInt32 := 31800
def bip31 : UInt32 := 60001
def bip35 : UInt32 := 60002
def bip37 : UInt32 := 70001
def bip61 : UInt32 := 70002
def bip130 : UInt32 := 70012
def bip133 : UInt32 := 70013
def bip152 : UInt32 := 70014
def bip157 : UInt32 := 70015
def bip155 : UInt32 := 70016
def bip330 : UInt32 := 70016
def bip339 : UInt32 := 70016
def minimumProtocol : UInt32 := addressTimestamp
def maximumProtocol : UInt32 := bip155

end Level

/-! ### Messages -/

/-- The types of messages, by their registration: those of the handshake first. -/
inductive Kind
  | version | versionAcknowledge | sendAddressV2 | sendTransactionReconciliation | witnessTxIdRelay
  | address | addressV2 | alert | block | bloomFilterAdd | bloomFilterClear | bloomFilterLoad
  | clientFilter | clientFilterCheckpoint | clientFilterHeaders | compactBlock | compactTransactions
  | feeFilter | getAddress | getBlocks | getClientFilterCheckpoint | getClientFilterHeaders
  | getClientFilters | getCompactTransactions | getData | getHeaders | headers | inventory
  | memoryPool | merkleBlock | notFound | ping | pong | reject | sendCompact | sendHeaders
  | transaction
  deriving DecidableEq

namespace Kind

def command : Kind → Bytes
  | version => ascii "version"
  | versionAcknowledge => ascii "verack"
  | sendAddressV2 => ascii "sendaddrv2"
  | sendTransactionReconciliation => ascii "sendtxrcncl"
  | witnessTxIdRelay => ascii "wtxidrelay"
  | address => ascii "addr"
  | addressV2 => ascii "addrv2"
  | alert => ascii "alert"
  | block => ascii "block"
  | bloomFilterAdd => ascii "filteradd"
  | bloomFilterClear => ascii "filterclear"
  | bloomFilterLoad => ascii "filterload"
  | clientFilter => ascii "cfilter"
  | clientFilterCheckpoint => ascii "cfcheckpt"
  | clientFilterHeaders => ascii "cfheaders"
  | compactBlock => ascii "cmpctblock"
  | compactTransactions => ascii "blocktxn"
  | feeFilter => ascii "feefilter"
  | getAddress => ascii "getaddr"
  | getBlocks => ascii "getblocks"
  | getClientFilterCheckpoint => ascii "getcfcheckpt"
  | getClientFilterHeaders => ascii "getcfheaders"
  | getClientFilters => ascii "getcfilters"
  | getCompactTransactions => ascii "getblocktxn"
  | getData => ascii "getdata"
  | getHeaders => ascii "getheaders"
  | headers => ascii "headers"
  | inventory => ascii "inv"
  | memoryPool => ascii "mempool"
  | merkleBlock => ascii "merkleblock"
  | notFound => ascii "notfound"
  | ping => ascii "ping"
  | pong => ascii "pong"
  | reject => ascii "reject"
  | sendCompact => ascii "sendcmpct"
  | sendHeaders => ascii "sendheaders"
  | transaction => ascii "tx"

/-- The short identifier, or zero where none is assigned. -/
def identifier : Kind → UInt8
  | address => 1
  | block => 2
  | compactTransactions => 3
  | compactBlock => 4
  | feeFilter => 5
  | bloomFilterAdd => 6
  | bloomFilterClear => 7
  | bloomFilterLoad => 8
  | getBlocks => 9
  | getCompactTransactions => 10
  | getData => 11
  | getHeaders => 12
  | headers => 13
  | inventory => 14
  | memoryPool => 15
  | merkleBlock => 16
  | notFound => 17
  | ping => 18
  | pong => 19
  | sendCompact => 20
  | transaction => 21
  | getClientFilters => 22
  | clientFilter => 23
  | getClientFilterHeaders => 24
  | clientFilterHeaders => 25
  | getClientFilterCheckpoint => 26
  | clientFilterCheckpoint => 27
  | addressV2 => 28
  | _ => 0

def versionMinimum : Kind → UInt32
  | addressV2 | sendAddressV2 => Level.bip155
  | sendTransactionReconciliation => Level.bip330
  | witnessTxIdRelay => Level.bip339
  | bloomFilterAdd | bloomFilterClear | bloomFilterLoad | merkleBlock | notFound => Level.bip37
  | clientFilter | clientFilterCheckpoint | clientFilterHeaders => Level.bip157
  | getClientFilterCheckpoint | getClientFilterHeaders | getClientFilters => Level.bip157
  | compactBlock | compactTransactions | getCompactTransactions | sendCompact => Level.bip152
  | feeFilter => Level.bip133
  | getHeaders | headers => Level.headersProtocol
  | memoryPool => Level.bip35
  | pong => Level.bip31
  | reject => Level.bip61
  | sendHeaders => Level.bip130
  | _ => Level.minimumProtocol

def versionMaximum (_ : Kind) : UInt32 := Level.maximumProtocol

/-- A message of the type is read in the version. -/
def Supports (kind : Kind) (version : UInt32) : Prop :=
  kind.versionMinimum ≤ version ∧ version ≤ kind.versionMaximum

instance (kind : Kind) (version : UInt32) : Decidable (kind.Supports version) :=
  inferInstanceAs (Decidable (_ ∧ _))

/-- The source is invalidated if the version is out of the range of the type. -/
def checkVersion (kind : Kind) (version : UInt32) : Decoder Unit :=
  if version < kind.versionMinimum ∨ kind.versionMaximum < version then .fail else pure ()

theorem checkVersion_eq {kind : Kind} {version : UInt32} (h : kind.Supports version) :
    kind.checkVersion version = pure () := by
  unfold checkVersion
  rw [if_neg]
  intro hout
  rcases hout with hlow | hhigh
  · exact absurd h.1 (UInt32.not_le.mpr hlow)
  · exact absurd h.2 (UInt32.not_le.mpr hhigh)

/-- The fields of a message, behind the check of its version. -/
theorem Supports.coded {kind : Kind} {version : UInt32} (h : kind.Supports version) {α : Type}
    {p : Decoder α} {serialize : (sink : Writer) → Action sink.Sink Unit} {size : ℕ} {a : α}
    (hfields : Coded p serialize size a) :
    Coded (do
      let _ ← kind.checkVersion version
      p) serialize size a :=
  hfields.behind (checkVersion_eq h)

end Kind

/-! ### The tables -/

namespace Registry
open Kind

/-- The types, in the order of the tables. -/
def kinds : List Kind :=
  [version, versionAcknowledge, sendAddressV2, sendTransactionReconciliation, witnessTxIdRelay,
   address, addressV2, alert, block, bloomFilterAdd, bloomFilterClear, bloomFilterLoad,
   clientFilter, clientFilterCheckpoint, clientFilterHeaders, compactBlock, compactTransactions,
   feeFilter, getAddress, getBlocks, getClientFilterCheckpoint, getClientFilterHeaders,
   getClientFilters, getCompactTransactions, getData, getHeaders, headers, inventory,
   memoryPool, merkleBlock, notFound, ping, pong, reject, sendCompact, sendHeaders, transaction]

def size : ℕ := kinds.length

/-- The index of what is not registered, which is behind the last. -/
def unknown : ℕ := size

/-- `index` of a command. -/
def indexOfCommand (command : Bytes) : ℕ := kinds.findIdx fun kind => kind.command = command

/-- `index` of a short identifier. -/
def indexOfIdentifier (id : UInt8) : ℕ :=
  kinds.findIdx fun kind => kind.identifier ≠ 0 ∧ kind.identifier = id

/-- Each type is registered once. -/
theorem getElem?_findIdx {match? : Kind → Bool} {kind : Kind}
    (h : kinds[kinds.findIdx match?]? = some kind) : match? kind = true := by
  obtain ⟨hindex, heq⟩ := List.getElem?_eq_some_iff.mp h
  rw [← heq]
  exact List.findIdx_getElem (w := hindex)

/-- What is found under a command has that command. -/
theorem command_of_index {command : Bytes} {kind : Kind}
    (h : kinds[indexOfCommand command]? = some kind) : kind.command = command :=
  of_decide_eq_true (getElem?_findIdx h)

/-- A type is found under its own command. -/
theorem index_command (kind : Kind) : kinds[indexOfCommand kind.command]? = some kind := by
  cases kind <;> decide

/-- A type is found under its short identifier, if it has one. -/
theorem index_identifier {kind : Kind} (h : kind.identifier ≠ 0) :
    kinds[indexOfIdentifier kind.identifier]? = some kind := by
  revert h
  cases kind <;> decide

theorem command_length (kind : Kind) : kind.command.length ≤ 12 := by
  cases kind <;> decide

theorem zero_notMem_command (kind : Kind) : 0 ∉ kind.command := by
  cases kind <;> decide

end Registry

end BitcoinNetwork.Peer
