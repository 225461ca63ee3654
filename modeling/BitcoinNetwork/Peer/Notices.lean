import BitcoinNetwork.Peer.Inventories

/-!
# Versions, rejections and alerts (messages/peer/detail)

Messages of text among other fields, of which a text ends at the first zero that is read.
-/

namespace BitcoinNetwork.Peer
open Binary
open Http (ascii)

variable {chain : Chain} {version : UInt32}

/-! ### Version -/

def maxUserAgent : ℕ := 255

structure Version where
  value : UInt32
  services : UInt64
  timestamp : UInt64
  addressReceiver : AddressItem
  addressSender : AddressItem
  nonce : UInt64
  userAgent : Bytes
  startHeight : UInt32
  relay : Bool
  deriving DecidableEq

namespace Version

/-- No timestamps are in the addresses of a version. -/
def withTimestamp : Bool := false

/-- The version is presumed to be on the side of bip37 that the value is on. -/
def size (message : Version) (version : UInt32) : ℕ :=
  4 + 8 + 8 + AddressItem.size withTimestamp + AddressItem.size withTimestamp + 8 +
    variableSize message.userAgent.length + message.userAgent.length + 4 +
    (if version < Level.bip37 then 0 else 1)

/-- A peer may leave out the relay, whatever its value. -/
def readRelay (value : UInt32) : Decoder Bool :=
  if value < Level.bip37 then pure true
  else do
    let exhausted ← Decoder.isExhausted
    if exhausted then pure true
    else do
      let relay ← .byte
      pure (relay != 0)

/-- The version is not checked. -/
def deserialize (_ : UInt32) : Decoder Version := do
  let value ← .little32
  let services ← .little64
  let timestamp ← .little64
  let addressReceiver ← AddressItem.decodeItem withTimestamp
  let addressSender ← AddressItem.decodeItem withTimestamp
  let nonce ← .little64
  let userAgent ← .string maxUserAgent
  let startHeight ← .little32
  let relay ← readRelay value
  pure { value, services, timestamp, addressReceiver, addressSender, nonce, userAgent, startHeight,
         relay }

/-- The relay is written by the value, as no version is negotiated yet. -/
def writeRelay (message : Version) (sink : Writer) : Action sink.Sink Unit :=
  if message.value < Level.bip37 then pure ()
  else sink.writeByte (if message.relay then 1 else 0)

def serialize (message : Version) (_ : UInt32) (sink : Writer) : Action sink.Sink Unit := do
  let _ ← sink.writeLittle32 message.value
  let _ ← sink.writeLittle64 message.services
  let _ ← sink.writeLittle64 message.timestamp
  let _ ← message.addressReceiver.serialize sink withTimestamp
  let _ ← message.addressSender.serialize sink withTimestamp
  let _ ← sink.writeLittle64 message.nonce
  let _ ← sink.writeString message.userAgent
  let _ ← sink.writeLittle32 message.startHeight
  message.writeRelay sink

/-- An address that a version has. -/
structure Sent (item : AddressItem) : Prop where
  canonical : AddressItem.Canonical item.address
  isV1 : AddressItem.isV1 item.address = true
  timestamp : item.timestamp = 0

/-- What is encoded in a version, where it has the maximal number of bytes or fewer. -/
structure Representable (message : Version) : Prop where
  receiver : Sent message.addressReceiver
  sender : Sent message.addressSender
  userAgent : message.userAgent.length ≤ maxUserAgent
  relay : message.value < Level.bip37 → message.relay = true

/-- The version is on the side of bip37 that the value is on. -/
def Presumed (version : UInt32) (message : Version) : Prop :=
  version < Level.bip37 ↔ message.value < Level.bip37

theorem Sent.coded {item : AddressItem} (h : Sent item) :
    Coded (AddressItem.decodeItem withTimestamp) (fun sink => item.serialize sink withTimestamp)
      (AddressItem.size withTimestamp) item :=
  AddressItem.coded_item h.canonical h.isV1 withTimestamp fun _ => h.timestamp

theorem coded_relay {message : Version} (h : message.value < Level.bip37 → message.relay = true) :
    Coded (readRelay message.value) (fun sink => message.writeRelay sink)
      (if message.value < Level.bip37 then 0 else 1) message.relay := by
  apply coded_ite
  · intro hlow
    rw [h hlow]
    exact coded_pure true
  · intro _
    obtain ⟨bytes, hsize, hwrites, hdecodes⟩ := coded_byte (if message.relay then 1 else 0)
    refine ⟨bytes, hsize, hwrites, ?_⟩
    have hrelay : ((if message.relay then (1 : UInt8) else 0) != 0) = message.relay := by
      cases message.relay <;> rfl
    intro behind
    have hahead : (bytes ++ behind).isEmpty = false := by
      rw [List.isEmpty_eq_false_iff]
      intro hnil
      have hlength := congrArg List.length hnil
      rw [List.length_append, hsize, List.length_nil] at hlength
      omega
    have hexhausted : Decoder.isExhausted (bytes ++ behind) = some (false, bytes ++ behind) := by
      unfold Decoder.isExhausted
      rw [hahead]
    rw [Decoder.bind_some hexhausted]
    show (Decoder.byte >>= fun relay => pure (relay != 0) : Decoder Bool) (bytes ++ behind) = _
    rw [Decoder.bind_some (hdecodes behind), hrelay]
    rfl

theorem coded {message : Version} (hr : message.Representable) (hzero : 0 ∉ message.userAgent)
    (hversion : message.Presumed version) :
    Coded (deserialize version) (message.serialize version) (message.size version) message := by
  refine Coded.sized ((coded_little32 message.value).bind <|
    (coded_little64 message.services).bind <|
    (coded_little64 message.timestamp).bind <|
    hr.receiver.coded.bind <|
    hr.sender.coded.bind <|
    (coded_little64 message.nonce).bind <|
    (coded_string hr.userAgent (by decide) hzero).bind <|
    (coded_little32 message.startHeight).bind <|
    (coded_relay hr.relay).map _) ?_
  unfold size
  rw [if_congr hversion rfl rfl]
  omega

end Version

/-! ### Reject -/

inductive ReasonCode
  | undefined | malformed | invalid | obsolete | duplicate | nonstandard | dust | insufficientFee
  | checkpoint
  deriving DecidableEq

structure Reject where
  message : Bytes
  code : ReasonCode
  reason : Bytes
  hash : Hash
  deriving DecidableEq

namespace Reject

def isChain (message : Bytes) : Bool :=
  message == Kind.block.command || message == Kind.transaction.command

def reasonToByte : ReasonCode → UInt8
  | .undefined => 0x00
  | .malformed => 0x01
  | .invalid => 0x10
  | .obsolete => 0x11
  | .duplicate => 0x12
  | .nonstandard => 0x40
  | .dust => 0x41
  | .insufficientFee => 0x42
  | .checkpoint => 0x43

def byteToReason : UInt8 → ReasonCode
  | 0x01 => .malformed
  | 0x10 => .invalid
  | 0x11 => .obsolete
  | 0x12 => .duplicate
  | 0x40 => .nonstandard
  | 0x41 => .dust
  | 0x42 => .insufficientFee
  | 0x43 => .checkpoint
  | _ => .undefined

def size (reject : Reject) (_ : UInt32) : ℕ :=
  variableSize reject.message.length + reject.message.length + 1 +
    variableSize reject.reason.length + reject.reason.length +
    (if isChain reject.message then hashSize else 0)

/-- Some peers leave out the hash where there should be one. The version is not checked. -/
def deserialize (_ : UInt32) : Decoder Reject := do
  let message ← .string maxRejectMessage
  let code ← .byte
  let reason ← .string maxRejectMessage
  let hash ← (if isChain message then (Decoder.vector hashSize).orElse nullHash else pure nullHash)
  pure { message, code := byteToReason code, reason, hash }

def serialize (reject : Reject) (_ : UInt32) (sink : Writer) : Action sink.Sink Unit := do
  let _ ← sink.writeString reject.message
  let _ ← sink.writeByte (reasonToByte reject.code)
  let _ ← sink.writeString reject.reason
  if isChain reject.message then sink.writeBytes reject.hash.toList else pure ()

/-- There is a hash only in what is about a block or a transaction. -/
structure Representable (reject : Reject) : Prop where
  message : reject.message.length ≤ maxRejectMessage
  reason : reject.reason.length ≤ maxRejectMessage
  hash : isChain reject.message = false → reject.hash = nullHash

theorem byteToReason_reasonToByte (code : ReasonCode) : byteToReason (reasonToByte code) = code := by
  cases code <;> rfl

theorem coded_hash {reject : Reject}
    (h : isChain reject.message = false → reject.hash = nullHash) :
    Coded (if isChain reject.message then (Decoder.vector hashSize).orElse nullHash
        else pure nullHash)
      (fun sink => if isChain reject.message then sink.writeBytes reject.hash.toList else pure ())
      (if isChain reject.message then hashSize else 0) reject.hash := by
  apply coded_ite
  · intro _
    obtain ⟨bytes, hsize, hwrites, hdecodes⟩ := coded_vector reject.hash
    exact ⟨bytes, hsize, hwrites, hdecodes.orElse nullHash⟩
  · intro hchain
    rw [h (Bool.eq_false_iff.mpr hchain)]
    exact coded_pure nullHash

theorem coded {reject : Reject} (hr : reject.Representable) (hmessage : 0 ∉ reject.message)
    (hreason : 0 ∉ reject.reason) :
    Coded (deserialize version) (reject.serialize version) (reject.size version) reject := by
  have hcode := byteToReason_reasonToByte reject.code
  obtain ⟨message, code, reason, hash⟩ := reject
  have hfields : Coded (deserialize version) (serialize ⟨message, code, reason, hash⟩ version) _
      ⟨message, byteToReason (reasonToByte code), reason, hash⟩ :=
    (coded_string hr.message (by decide) hmessage).bind <|
    (coded_byte (reasonToByte code)).bind <|
    (coded_string hr.reason (by decide) hreason).bind <|
    (coded_hash hr.hash).map _
  rw [hcode] at hfields
  apply hfields.sized
  unfold size
  dsimp only
  omega

end Reject

/-! ### Alerts -/

def maxMessage : ℕ := maxInventory

def maxMessages : ℕ := maxInventory

structure AlertItem where
  version : UInt32
  relayUntil : UInt64
  expiration : UInt64
  id : UInt32
  cancel : UInt32
  cancels : List UInt32
  minVersion : UInt32
  maxVersion : UInt32
  subVersions : List Bytes
  priority : UInt32
  comment : Bytes
  statusBar : Bytes
  reserved : Bytes
  deriving DecidableEq

namespace AlertItem

def sizeString (value : Bytes) : ℕ := variableSize value.length + value.length

def size (item : AlertItem) (_ : UInt32) : ℕ :=
  4 + 8 + 8 + 4 + 4 + variableSize item.cancels.length + item.cancels.length * 4 + 4 + 4 +
    variableSize item.subVersions.length + (item.subVersions.map sizeString).sum + 4 +
    sizeString item.comment + sizeString item.statusBar + sizeString item.reserved

def deserialize (_ : UInt32) : Decoder AlertItem := do
  let version ← .little32
  let relayUntil ← .little64
  let expiration ← .little64
  let id ← .little32
  let cancel ← .little32
  let size ← .size maxMessages
  let cancels ← Decoder.times .little32 size
  let minVersion ← .little32
  let maxVersion ← .little32
  let size ← .size maxMessages
  let subVersions ← Decoder.times (.string maxMessage) size
  let priority ← .little32
  let comment ← .string maxMessage
  let statusBar ← .string maxMessage
  let reserved ← .string maxMessage
  pure { version, relayUntil, expiration, id, cancel, cancels, minVersion, maxVersion, subVersions,
         priority, comment, statusBar, reserved }

def serialize (item : AlertItem) (_ : UInt32) (sink : Writer) : Action sink.Sink Unit := do
  let _ ← sink.writeLittle32 item.version
  let _ ← sink.writeLittle64 item.relayUntil
  let _ ← sink.writeLittle64 item.expiration
  let _ ← sink.writeLittle32 item.id
  let _ ← sink.writeLittle32 item.cancel
  let _ ← sink.writeVarint item.cancels.length
  let _ ← Action.each (fun entry : UInt32 => sink.writeLittle32 entry) item.cancels
  let _ ← sink.writeLittle32 item.minVersion
  let _ ← sink.writeLittle32 item.maxVersion
  let _ ← sink.writeVarint item.subVersions.length
  let _ ← Action.each (fun entry : Bytes => sink.writeString entry) item.subVersions
  let _ ← sink.writeLittle32 item.priority
  let _ ← sink.writeString item.comment
  let _ ← sink.writeString item.statusBar
  sink.writeString item.reserved

structure Representable (item : AlertItem) : Prop where
  cancels : item.cancels.length ≤ maxMessages
  count : item.subVersions.length ≤ maxMessages
  subVersions : ∀ value ∈ item.subVersions, value.length ≤ maxMessage
  comment : item.comment.length ≤ maxMessage
  statusBar : item.statusBar.length ≤ maxMessage
  reserved : item.reserved.length ≤ maxMessage

/-- There is no zero in a text. -/
structure ZeroFree (item : AlertItem) : Prop where
  subVersions : ∀ value ∈ item.subVersions, 0 ∉ value
  comment : 0 ∉ item.comment
  statusBar : 0 ∉ item.statusBar
  reserved : 0 ∉ item.reserved

theorem coded {item : AlertItem} (hr : item.Representable) (hzero : item.ZeroFree) :
    Coded (deserialize version) (item.serialize version) (item.size version) item := by
  have htext {value : Bytes} (hlimit : value.length ≤ maxMessage) (hz : 0 ∉ value) :
      Coded (.string maxMessage) (fun sink => sink.writeString value) (sizeString value) value :=
    coded_string hlimit (by decide) hz
  refine Coded.sized ((coded_little32 item.version).bind <|
    (coded_little64 item.relayUntil).bind <|
    (coded_little64 item.expiration).bind <|
    (coded_little32 item.id).bind <|
    (coded_little32 item.cancel).bind <|
    (coded_size hr.cancels (by decide)).bind <|
    (coded_times fun entry _ => coded_little32 entry).bind <|
    (coded_little32 item.minVersion).bind <|
    (coded_little32 item.maxVersion).bind <|
    (coded_size hr.count (by decide)).bind <|
    (coded_times fun entry hentry =>
      htext (hr.subVersions entry hentry) (hzero.subVersions entry hentry)).bind <|
    (coded_little32 item.priority).bind <|
    (htext hr.comment hzero.comment).bind <|
    (htext hr.statusBar hzero.statusBar).bind <|
    (htext hr.reserved hzero.reserved).map _) ?_
  unfold size
  rw [sum_map_const]
  show _ + (_ + (_ + (_ + (_ + (_ + (_ + (_ + (_ + (_ +
    ((item.subVersions.map sizeString).sum + _)))))))))) = _
  omega

end AlertItem

structure Alert where
  payload : AlertItem
  signature : Bytes
  deriving DecidableEq

namespace Alert

def size (message : Alert) (version : UInt32) : ℕ :=
  variableSize (message.payload.size version) + message.payload.size version +
    variableSize message.signature.length + message.signature.length

/-- The payload is read of as many bytes as it is said to have. -/
def deserialize (chain : Chain) (version : UInt32) : Decoder Alert := do
  let _ ← Kind.alert.checkVersion version
  let limit ← .size chain.maxBlockSize.toNat
  let payload ← (AlertItem.deserialize Level.minimumProtocol).limited limit
  let count ← .size chain.maxBlockSize.toNat
  let signature ← .bytes count
  pure { payload, signature }

def serialize (message : Alert) (version : UInt32) (sink : Writer) : Action sink.Sink Unit := do
  let _ ← sink.writeVarint (message.payload.size version)
  let _ ← message.payload.serialize version sink
  let _ ← sink.writeVarint message.signature.length
  sink.writeBytes message.signature

structure Representable (chain : Chain) (version : UInt32) (message : Alert) : Prop where
  payload : message.payload.Representable
  size : message.payload.size version ≤ chain.maxBlockSize.toNat
  signature : message.signature.length ≤ chain.maxBlockSize.toNat

theorem coded (h : Kind.alert.Supports version) {message : Alert}
    (hr : message.Representable chain version) (hzero : message.payload.ZeroFree) :
    Coded (deserialize chain version) (message.serialize version) (message.size version) message := by
  have hpayload : Coded (AlertItem.deserialize Level.minimumProtocol)
      (message.payload.serialize version) (message.payload.size version) message.payload :=
    AlertItem.coded hr.payload hzero
  apply h.coded
  refine Coded.sized ((coded_size hr.size chain.maxBlockSize_lt).bind <|
    hpayload.limited.bind <|
    (coded_size hr.signature chain.maxBlockSize_lt).bind <|
    (coded_bytes message.signature).map _) ?_
  unfold size
  omega

end Alert

end BitcoinNetwork.Peer
