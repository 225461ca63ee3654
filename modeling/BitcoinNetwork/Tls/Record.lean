import BitcoinNetwork.Tls.Schedule

/-!
# The records of one direction (tls/record.cpp)

A record is in clear until a secret is set, and protected under the secret from
then on, with a nonce that is the iv and the number of the record. The sequence
number is the 64 bits of the source, of which the nonce takes the low bytes.
-/

namespace BitcoinNetwork.Tls
open Binary

/-! ### Wire values (tls/constants.hpp) -/

def legacyVersion : UInt16 := 0x0303
def recordHeaderSize : ℕ := 5
def maximumPlaintext : ℕ := 16384
def maximumCiphertext : ℕ := maximumPlaintext + 256
def tagSize : ℕ := 16

/-- Content types. -/
def contentChangeCipherSpec : UInt8 := 20
def contentAlert : UInt8 := 21
def contentHandshake : UInt8 := 22
def contentApplicationData : UInt8 := 23

/-! ### Record -/

/-- `record`. -/
structure Record where
  iv : Bytes := List.replicate 12 0
  sequence : ℕ := 0
  /-- The cipher with its key, once a secret is set. -/
  cipher : Option (Cipher × Bytes) := none

namespace Record
variable {Certificate : Type} (crypto : Crypto Certificate)

/-- `set_secret`. -/
def setSecret (suite : UInt16) (traffic : Bytes) : Record where
  iv := trafficIv crypto suite traffic
  sequence := 0
  cipher := some (cipherOf suite, trafficKey crypto suite traffic)

/-- `is_protected`. -/
def isProtected (record : Record) : Bool := record.cipher.isSome

/-- The value of `next_nonce`, which also counts the record. -/
def nonce (record : Record) : Bytes :=
  record.iv.take 4 ++ List.zipWith (· ^^^ ·) (record.iv.drop 4) (toBytes 8 record.sequence)

/-- `seal`: the record that is appended, and the state behind it. -/
def sealContent (record : Record) (type : UInt8) (content : Bytes) : Bytes × Record :=
  match record.cipher with
  | none => (type :: write16 legacyVersion ++ writeVector16 content, record)
  | some (cipher, key) =>
    let size := content.length + 1 + tagSize
    let header := contentApplicationData :: write16 legacyVersion ++ toBytes 2 size
    (header ++ crypto.encrypt cipher key record.nonce header (content ++ [type]),
      { record with sequence := record.sequence + 1 })

/-- The inner type is the last nonzero byte, behind the content. -/
def innerPlaintext (plain : Bytes) : UInt8 × Bytes :=
  match plain.reverse.dropWhile (· == 0) with
  | [] => (0, [])
  | type :: content => (type, content.reverse)

/-- `open`: the inner type and content if the fragment is authentic. -/
def openFragment (record : Record) (header fragment : Bytes) : Option (UInt8 × Bytes) × Record :=
  if fragment.length ≤ tagSize then (none, record)
  else
    let next := { record with sequence := record.sequence + 1 }
    match record.cipher with
    | none => (none, next)
    | some (cipher, key) =>
      ((crypto.decrypt cipher key record.nonce header fragment).map innerPlaintext, next)

end Record

end BitcoinNetwork.Tls
