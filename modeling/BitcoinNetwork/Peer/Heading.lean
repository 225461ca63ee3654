import BitcoinNetwork.Peer.Chain

/-!
# The heading of a message (messages/peer/detail/heading.cpp)
-/

namespace BitcoinNetwork.Peer
open Binary

structure Heading where
  magic : UInt32
  command : Bytes
  payloadSize : UInt32
  checksum : UInt32
  deriving DecidableEq

/-- `network_checksum`. -/
def networkChecksum (hash : Hash) : UInt32 := .ofNat (ofLittle (hash.toList.take 4))

namespace Heading

def commandSize : ℕ := 12

def size : ℕ := 4 + commandSize + 4 + 4

/-- `factory` of the hash: a heading of nothing for a payload that has too many bytes. -/
def factoryOfHash (magic : UInt32) (command : Bytes) (payloadSize : ℕ) (payloadHash : Hash) :
    Heading :=
  if 2 ^ 32 ≤ payloadSize then { magic := 0, command := [], payloadSize := 0, checksum := 0 }
  else
    { magic, command, payloadSize := .ofNat payloadSize, checksum := networkChecksum payloadHash }

/-- `factory` of the payload. -/
def factory (chain : Chain) (magic : UInt32) (command payload : Bytes) : Heading :=
  factoryOfHash magic command payload.length (chain.bitcoinHash payload)

def deserialize : Decoder Heading := do
  let magic ← .little32
  let command ← .stringBuffer commandSize
  let payloadSize ← .little32
  let checksum ← .little32
  pure { magic, command, payloadSize, checksum }

def serialize (heading : Heading) (sink : Writer) : Action sink.Sink Unit := do
  let _ ← sink.writeLittle32 heading.magic
  let _ ← sink.writeStringBuffer heading.command commandSize
  let _ ← sink.writeLittle32 heading.payloadSize
  sink.writeLittle32 heading.checksum

/-- A command that its field is read as. -/
def Fits (command : Bytes) : Prop := command.length ≤ commandSize ∧ 0 ∉ command

theorem coded {heading : Heading} (h : Fits heading.command) :
    Coded deserialize heading.serialize size heading :=
  Coded.sized ((coded_little32 heading.magic).bind <|
    (coded_stringBuffer h.1 h.2).bind <|
    (coded_little32 heading.payloadSize).bind <|
    (coded_little32 heading.checksum).map _) rfl

theorem factory_fits (magic : UInt32) {command : Bytes} (h : Fits command) (payloadSize : ℕ)
    (payloadHash : Hash) : Fits (factoryOfHash magic command payloadSize payloadHash).command := by
  unfold factoryOfHash
  split
  · exact ⟨Nat.zero_le _, List.not_mem_nil⟩
  · exact h

theorem registered_fits (kind : Kind) : Fits kind.command :=
  ⟨Registry.command_length kind, Registry.zero_notMem_command kind⟩

end Heading

end BitcoinNetwork.Peer
