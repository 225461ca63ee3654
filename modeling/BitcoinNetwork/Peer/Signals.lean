import BitcoinNetwork.Peer.Registry

/-!
# Messages of few fields (messages/peer/detail)

Messages that only signal something, and those of one or two numbers.
-/

namespace BitcoinNetwork.Peer
open Binary

variable {version : UInt32}

/-! ### Messages without fields -/

/-- A message of which there is nothing but its command. -/
structure Signal where
  deriving DecidableEq

namespace Signal

def deserialize (kind : Kind) (version : UInt32) : Decoder Signal := do
  let _ ← kind.checkVersion version
  pure {}

def serialize (_ : Signal) (_ : UInt32) (sink : Writer) : Action sink.Sink Unit := pure ()

def size (_ : UInt32) : ℕ := 0

theorem coded {kind : Kind} (h : kind.Supports version) (message : Signal) :
    Coded (deserialize kind version) (message.serialize version) (size version) message :=
  h.coded (coded_pure message)

end Signal

def BloomFilterClear.deserialize : UInt32 → Decoder Signal := Signal.deserialize .bloomFilterClear
def GetAddress.deserialize : UInt32 → Decoder Signal := Signal.deserialize .getAddress
def MemoryPool.deserialize : UInt32 → Decoder Signal := Signal.deserialize .memoryPool
def SendAddressV2.deserialize : UInt32 → Decoder Signal := Signal.deserialize .sendAddressV2
def SendHeaders.deserialize : UInt32 → Decoder Signal := Signal.deserialize .sendHeaders
def VersionAcknowledge.deserialize : UInt32 → Decoder Signal := Signal.deserialize .versionAcknowledge
def WitnessTxIdRelay.deserialize : UInt32 → Decoder Signal := Signal.deserialize .witnessTxIdRelay

/-! ### Ping and pong -/

structure Ping where
  nonce : UInt64
  deriving DecidableEq

namespace Ping

/-- The nonce was added by bip31. -/
def size (version : UInt32) : ℕ := if version < Level.bip31 then 0 else 8

def deserialize (version : UInt32) : Decoder Ping := do
  let _ ← Kind.ping.checkVersion version
  let nonce ← (if version < Level.bip31 then pure 0 else .little64)
  pure { nonce }

def serialize (message : Ping) (version : UInt32) (sink : Writer) : Action sink.Sink Unit :=
  if version < Level.bip31 then pure () else sink.writeLittle64 message.nonce

/-- Before bip31 there is no nonce. -/
def Representable (version : UInt32) (message : Ping) : Prop :=
  version < Level.bip31 → message.nonce = 0

theorem coded (h : Kind.ping.Supports version) {message : Ping} (hr : message.Representable version) :
    Coded (deserialize version) (message.serialize version) (size version) message := by
  have hnonce : Coded (if version < Level.bip31 then pure 0 else Decoder.little64)
      (message.serialize version) (size version) message.nonce := by
    apply coded_ite
    · intro hlow
      rw [hr hlow]
      exact coded_pure 0
    · intro _
      exact coded_little64 message.nonce
  exact h.coded (hnonce.map Ping.mk)

end Ping

structure Pong where
  nonce : UInt64
  deriving DecidableEq

namespace Pong

def size (_ : UInt32) : ℕ := 8

def deserialize (version : UInt32) : Decoder Pong := do
  let _ ← Kind.pong.checkVersion version
  let nonce ← .little64
  pure { nonce }

def serialize (message : Pong) (_ : UInt32) (sink : Writer) : Action sink.Sink Unit :=
  sink.writeLittle64 message.nonce

theorem coded (h : Kind.pong.Supports version) (message : Pong) :
    Coded (deserialize version) (message.serialize version) (size version) message :=
  h.coded ((coded_little64 message.nonce).map Pong.mk)

end Pong

/-! ### Negotiated values -/

structure FeeFilter where
  minimumFee : UInt64
  deriving DecidableEq

namespace FeeFilter

def size (_ : UInt32) : ℕ := 8

def deserialize (version : UInt32) : Decoder FeeFilter := do
  let _ ← Kind.feeFilter.checkVersion version
  let minimumFee ← .little64
  pure { minimumFee }

def serialize (message : FeeFilter) (_ : UInt32) (sink : Writer) : Action sink.Sink Unit :=
  sink.writeLittle64 message.minimumFee

theorem coded (h : Kind.feeFilter.Supports version) (message : FeeFilter) :
    Coded (deserialize version) (message.serialize version) (size version) message :=
  h.coded ((coded_little64 message.minimumFee).map FeeFilter.mk)

end FeeFilter

structure SendCompact where
  highBandwidth : Bool
  compactVersion : UInt64
  deriving DecidableEq

namespace SendCompact

def size (_ : UInt32) : ℕ := 1 + 8

/-- The mode is zero or one. -/
def deserialize (version : UInt32) : Decoder SendCompact := do
  let _ ← Kind.sendCompact.checkVersion version
  let mode ← .byte
  let protocol ← .little64
  let _ ← (if mode > 1 then Decoder.fail else pure ())
  pure { highBandwidth := mode != 0, compactVersion := protocol }

def serialize (message : SendCompact) (_ : UInt32) (sink : Writer) : Action sink.Sink Unit := do
  let _ ← sink.writeByte (if message.highBandwidth then 1 else 0)
  sink.writeLittle64 message.compactVersion

theorem coded (h : Kind.sendCompact.Supports version) (message : SendCompact) :
    Coded (deserialize version) (message.serialize version) (size version) message := by
  obtain ⟨highBandwidth, compactVersion⟩ := message
  have hmode : (if (if highBandwidth then (1 : UInt8) else 0) > 1 then Decoder.fail else pure ()) =
      (pure () : Decoder Unit) := by
    cases highBandwidth <;> rfl
  have hbandwidth : ((if highBandwidth then (1 : UInt8) else 0) != 0) = highBandwidth := by
    cases highBandwidth <;> rfl
  apply h.coded
  apply (coded_byte (if highBandwidth then 1 else 0)).bind
  obtain ⟨bytes, hsize, hwrites, hdecodes⟩ := coded_little64 compactVersion
  refine ⟨bytes, hsize, hwrites, ?_⟩
  intro behind
  rw [Decoder.bind_some (hdecodes behind), hmode, hbandwidth]
  rfl

end SendCompact

structure SendTransactionReconciliation where
  value : UInt32
  salt : UInt64
  deriving DecidableEq

namespace SendTransactionReconciliation

def size (_ : UInt32) : ℕ := 4 + 8

def deserialize (version : UInt32) : Decoder SendTransactionReconciliation := do
  let _ ← Kind.sendTransactionReconciliation.checkVersion version
  let value ← .little32
  let salt ← .little64
  pure { value, salt }

def serialize (message : SendTransactionReconciliation) (_ : UInt32) (sink : Writer) :
    Action sink.Sink Unit := do
  let _ ← sink.writeLittle32 message.value
  sink.writeLittle64 message.salt

theorem coded (h : Kind.sendTransactionReconciliation.Supports version)
    (message : SendTransactionReconciliation) :
    Coded (deserialize version) (message.serialize version) (size version) message := by
  apply h.coded
  apply (coded_little32 message.value).bind
  exact (coded_little64 message.salt).map _

end SendTransactionReconciliation

end BitcoinNetwork.Peer
