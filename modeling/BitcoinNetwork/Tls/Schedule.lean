import BitcoinNetwork.Http.Text
import BitcoinNetwork.Tls.Codec

/-!
# The key schedule and the transcript of TLS 1.3 (tls/schedule.cpp)

The primitives are those of the system library, which is not part of this
repository: hashes, key derivation, authenticated encryption, key exchange,
signatures and certificates are the fields of `Crypto`.
-/

namespace BitcoinNetwork.Tls
open Binary
open Http (ascii)

/-! ### Primitives -/

/-- The hash of a suite. -/
inductive Hash where
  | sha256
  | sha384
  deriving DecidableEq, Repr

/-- The size of a digest. -/
def Hash.size : Hash → ℕ
  | .sha256 => 32
  | .sha384 => 48

/-- `x509::curve`, of keys that sign. -/
inductive Curve where
  | secp256r1
  | secp384r1
  deriving DecidableEq, Repr

/-- The cipher of a suite. -/
inductive Cipher where
  | aes128Gcm
  | aes256Gcm
  | chacha20Poly1305
  deriving DecidableEq, Repr

/-- Errors of `x509::verify` that have an alert of their own. -/
inductive ChainError where
  | certificateExpired
  | certificateNotYetValid
  | chainUntrusted
  | other
  deriving DecidableEq, Repr

/-- The primitives of the system library, over its certificates. -/
structure Crypto (Certificate : Type) where
  /-- `accumulator::hash`. -/
  hash (h : Hash) (data : Bytes) : Vector UInt8 h.size
  /-- `hmac::code`. -/
  hmac (h : Hash) (data key : Bytes) : Vector UInt8 h.size
  /-- `hkdf::extract`. -/
  extract (h : Hash) (material salt : Bytes) : Vector UInt8 h.size
  /-- `hkdf::expand`. -/
  expand (h : Hash) (key info : Bytes) (size : ℕ) : Vector UInt8 size
  /-- `encrypt` of the content with the inner type behind it. -/
  encrypt (cipher : Cipher) (key nonce data text : Bytes) : Bytes
  /-- `decrypt`. -/
  decrypt (cipher : Cipher) (key nonce data text : Bytes) : Option Bytes
  /-- `x25519::multiply` of a point, if it is valid. -/
  multiply (secret point : Bytes) : Option Bytes
  /-- `x25519::multiply` of the base point. -/
  multiplyBase (secret : Bytes) : Bytes
  /-- The size of `point_t`. -/
  pointSize (curve : Curve) : ℕ
  /-- `public_key`. -/
  publicKey (curve : Curve) (secret : Bytes) : Option Bytes
  /-- `agree`. -/
  agree (curve : Curve) (secret peer : Bytes) : Option Bytes
  /-- `sign` and `encode`. -/
  sign (curve : Curve) (key digest : Bytes) : Bytes
  /-- `decode` and `verify`. -/
  verify (curve : Curve) (key signature digest : Bytes) : Bool
  /-- `x509::parse`. -/
  parse (der : Bytes) : Option Certificate
  /-- `x509::verify` for the client purpose, of a chain against anchors at a time. -/
  verifyChain (chain anchors : List Certificate) (time : ℕ) : Option ChainError
  /-- The curve of a certificate's key, if it is one of those that verify. -/
  curve (certificate : Certificate) : Option Curve
  /-- The public key of a certificate. -/
  key (certificate : Certificate) : Bytes

/-! ### Wire values (tls/constants.hpp) -/

def aes128GcmSha256 : UInt16 := 0x1301
def aes256GcmSha384 : UInt16 := 0x1302
def chacha20Poly1305Sha256 : UInt16 := 0x1303

/-- The hash of a suite, by `is_sha384`. -/
def hashOf (suite : UInt16) : Hash := if suite = aes256GcmSha384 then .sha384 else .sha256

/-- The cipher that `set_secret` emplaces for a suite. -/
def cipherOf (suite : UInt16) : Cipher :=
  if suite = aes128GcmSha256 then .aes128Gcm
  else if suite = aes256GcmSha384 then .aes256Gcm
  else .chacha20Poly1305

/-- The size of the key of a cipher. -/
def Cipher.keySize : Cipher → ℕ
  | .aes128Gcm => 16
  | .aes256Gcm => 32
  | .chacha20Poly1305 => 32

/-! ### Schedule -/

section Schedule
variable {Certificate : Type} (crypto : Crypto Certificate) (suite : UInt16)

/-- `make_label`. -/
def makeLabel (size : ℕ) (label : String) (context : Bytes) : Bytes :=
  toBytes 2 size ++ writeVector8 (ascii "tls13 " ++ ascii label) ++ writeVector8 context

/-- `expand` with the hash of the suite. -/
def expand (size : ℕ) (key : Bytes) (label : String) (context : Bytes) : Bytes :=
  (crypto.expand (hashOf suite) key (makeLabel size label context) size).toList

/-- `schedule::hash`. -/
def hash (data : Bytes) : Bytes := (crypto.hash (hashOf suite) data).toList

/-- `schedule::extract`. -/
def extract (salt material : Bytes) : Bytes :=
  (crypto.extract (hashOf suite) material salt).toList

/-- `schedule::expand_label`, and `schedule::derive_secret` with a transcript for context. -/
def expandLabel (key : Bytes) (label : String) (context : Bytes) : Bytes :=
  expand crypto suite (hashOf suite).size key label context

/-- The zeros of a secret's size. -/
def zeros : Bytes := List.replicate (hashOf suite).size 0

/-- `schedule::early_secret`. -/
def earlySecret : Bytes := extract crypto suite (zeros suite) (zeros suite)

/-- `schedule::handshake_secret`. -/
def handshakeSecret (early shared : Bytes) : Bytes :=
  extract crypto suite (expandLabel crypto suite early "derived" (hash crypto suite [])) shared

/-- `schedule::master_secret`. -/
def masterSecret (handshake : Bytes) : Bytes :=
  extract crypto suite (expandLabel crypto suite handshake "derived" (hash crypto suite []))
    (zeros suite)

/-- `schedule::traffic_key`. -/
def trafficKey (traffic : Bytes) : Bytes :=
  expand crypto suite (cipherOf suite).keySize traffic "key" []

/-- `schedule::traffic_iv`. -/
def trafficIv (traffic : Bytes) : Bytes := expand crypto suite 12 traffic "iv" []

/-- `schedule::finished`. -/
def finished (traffic transcript : Bytes) : Bytes :=
  (crypto.hmac (hashOf suite) transcript (expandLabel crypto suite traffic "finished" [])).toList

/-- `schedule::update`. -/
def update (traffic : Bytes) : Bytes := expandLabel crypto suite traffic "traffic upd" []

theorem finished_length (traffic transcript : Bytes) :
    (finished crypto suite traffic transcript).length = (hashOf suite).size :=
  Vector.length_toList

theorem trafficIv_length (traffic : Bytes) : (trafficIv crypto suite traffic).length = 12 :=
  Vector.length_toList

end Schedule

theorem Hash.size_le (h : Hash) : h.size ≤ 48 := by cases h <;> decide

/-! ### Transcript -/

/-- `transcript`, by the bytes it has absorbed. -/
structure Transcript where
  algorithm : Hash := .sha256
  bytes : Bytes := []

namespace Transcript

/-- `transcript::reset`. -/
def reset (suite : UInt16) : Transcript := { algorithm := hashOf suite }

/-- `transcript::write`. -/
def write (transcript : Transcript) (message : Bytes) : Transcript :=
  { transcript with bytes := transcript.bytes ++ message }

/-- `transcript::hash`. -/
def hash {Certificate : Type} (crypto : Crypto Certificate) (transcript : Transcript) : Bytes :=
  (crypto.hash transcript.algorithm transcript.bytes).toList

end Transcript

end BitcoinNetwork.Tls
