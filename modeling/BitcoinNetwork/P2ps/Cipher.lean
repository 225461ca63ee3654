import BitcoinNetwork.Binary.Bytes
import BitcoinNetwork.Http.Text

/-!
# The session cipher of the BIP324 transport (p2ps/cipher.cpp)

What a handshake derives from the two public keys, and the packets of either
direction, over the primitives of the system library. The length and the packet
ciphers have a state of their own, which each use advances.
-/

namespace BitcoinNetwork.P2ps
open Binary
open Http (ascii)

abbrev Bytes := List UInt8

/-! ### Constants (p2ps/cipher.hpp) -/

def keySize : ℕ := 64
def terminatorSize : ℕ := 16
def lengthSize : ℕ := 3
def headerSize : ℕ := 1
def tagSize : ℕ := 16
def maximumGarbage : ℕ := 4095
def maximumContent : ℕ := 0x00ffffff
def rekeyInterval : ℕ := 224
def ignoreBit : UInt8 := 0x80

def saltLabel : Bytes := ascii "bitcoin_v2_shared_secret"

/-! ### Primitives -/

/-- The primitives of the system library. -/
structure Primitives where
  /-- `fschacha20`. -/
  LengthCipher : Type
  /-- `fschacha20_poly1305`. -/
  PacketCipher : Type
  lengthCipher (secret : Bytes) (interval : ℕ) : LengthCipher
  packetCipher (secret : Bytes) (interval : ℕ) : PacketCipher
  /-- `fschacha20::crypt`. -/
  crypt (cipher : LengthCipher) (bytes : Bytes) : LengthCipher × Vector UInt8 bytes.length
  /-- `fschacha20_poly1305::encrypt`. -/
  encrypt (cipher : PacketCipher) (header contents aad : Bytes) :
    PacketCipher × Vector UInt8 (header.length + contents.length + tagSize)
  /-- `fschacha20_poly1305::decrypt`. -/
  decrypt (cipher : PacketCipher) (aad bytes : Bytes) :
    PacketCipher × Option (Vector UInt8 (bytes.length - tagSize))
  /-- `ellswift::exchange`. -/
  exchange (secret keyA keyB : Bytes) (partyB : Bool) : Option Bytes
  /-- `hkdf<sha256>::extract`. -/
  extract (secret salt : Bytes) : Bytes
  /-- `hkdf<sha256>::expand`. -/
  expand (prk label : Bytes) : Vector UInt8 32

/-! ### Session -/

/-- The keys of a `cipher`. -/
structure Keypair where
  secret : Bytes
  publicKey : Vector UInt8 keySize

/-- `cipher`, once it is initialized. -/
structure Cipher (primitives : Primitives) where
  sendTerminator : Vector UInt8 terminatorSize
  receiveTerminator : Vector UInt8 terminatorSize
  sessionId : Bytes
  sendLength : primitives.LengthCipher
  receiveLength : primitives.LengthCipher
  sendPacket : primitives.PacketCipher
  receivePacket : primitives.PacketCipher

namespace Cipher
variable {primitives : Primitives}

/-- The halves of the expansion of the terminators. -/
def firstHalf (okm : Vector UInt8 32) : Vector UInt8 terminatorSize :=
  Vector.ofFn fun i => okm.get ⟨i, i.isLt.trans (by decide)⟩

def secondHalf (okm : Vector UInt8 32) : Vector UInt8 terminatorSize :=
  Vector.ofFn fun i => okm.get ⟨terminatorSize + i, Nat.add_lt_add_left i.isLt terminatorSize⟩

/-- `initialize`. -/
def initializeKeys (primitives : Primitives) (keys : Keypair) (theirs : Bytes) (identifier : UInt32)
    (initiating : Bool) : Option (Cipher primitives) :=
  let ours := keys.publicKey.toList
  let keyA := if initiating then ours else theirs
  let keyB := if initiating then theirs else ours
  match primitives.exchange keys.secret keyA keyB (!initiating) with
  | none => none
  | some ecdh =>
    let salt := saltLabel ++ (toBytes 4 identifier.toNat).reverse
    let prk := primitives.extract ecdh salt
    let initiatorLength :=
      primitives.lengthCipher (primitives.expand prk (ascii "initiator_L")).toList rekeyInterval
    let initiatorPacket :=
      primitives.packetCipher (primitives.expand prk (ascii "initiator_P")).toList rekeyInterval
    let responderLength :=
      primitives.lengthCipher (primitives.expand prk (ascii "responder_L")).toList rekeyInterval
    let responderPacket :=
      primitives.packetCipher (primitives.expand prk (ascii "responder_P")).toList rekeyInterval
    let okm := primitives.expand prk (ascii "garbage_terminators")
    some
      { sendTerminator := if initiating then firstHalf okm else secondHalf okm
        receiveTerminator := if initiating then secondHalf okm else firstHalf okm
        sessionId := (primitives.expand prk (ascii "session_id")).toList
        sendLength := if initiating then initiatorLength else responderLength
        receiveLength := if initiating then responderLength else initiatorLength
        sendPacket := if initiating then initiatorPacket else responderPacket
        receivePacket := if initiating then responderPacket else initiatorPacket }

/-- `encrypt`. -/
def encrypt (c : Cipher primitives) (contents aad : Bytes) (ignore : Bool) :
    Cipher primitives × Bytes :=
  let length := primitives.crypt c.sendLength (toBytes lengthSize contents.length).reverse
  let packet := primitives.encrypt c.sendPacket [if ignore then ignoreBit else 0] contents aad
  ({ c with sendLength := length.1, sendPacket := packet.1 },
    length.2.toList ++ packet.2.toList)

/-- `decrypt_length`. -/
def decryptLength (c : Cipher primitives) (bytes : Bytes) : Cipher primitives × ℕ :=
  let length := primitives.crypt c.receiveLength bytes
  ({ c with receiveLength := length.1 }, ofBytes length.2.toList.reverse)

/-- `decrypt`: whether the packet is a decoy, and its contents. -/
def decrypt (c : Cipher primitives) (aad packet : Bytes) :
    Cipher primitives × Option (Bool × Bytes) :=
  let opened := primitives.decrypt c.receivePacket aad packet
  ({ c with receivePacket := opened.1 },
    opened.2.map fun plain => (plain.toList.headD 0 &&& ignoreBit != 0, plain.toList.drop headerSize))

@[simp] theorem decryptLength_terminator (c : Cipher primitives) (bytes : Bytes) :
    (c.decryptLength bytes).1.receiveTerminator = c.receiveTerminator := rfl

end Cipher

end BitcoinNetwork.P2ps
