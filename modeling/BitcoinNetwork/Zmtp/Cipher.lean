import BitcoinNetwork.Zmtp.Frame

/-!
# The CurveZMQ mechanism of one connection (zmtp/cipher.cpp)

The commands of the handshake and the boxed messages, over the primitives of
the system library: key agreement, boxes and random bytes, which are the values
that a call is given. A call leaves the state it reaches also where it returns
false. What is sealed is kept in order beside the state of the source, for no
function to read.
-/

namespace BitcoinNetwork.Zmtp
open Binary
open Http (ascii)

/-! ### Constants (zmtp/cipher.hpp) -/

def keySize : ℕ := 32
def tagSize : ℕ := 16
def nonceSize : ℕ := 24
def shortNonceSize : ℕ := 8
def longNonceSize : ℕ := nonceSize - shortNonceSize
def cookieSize : ℕ := longNonceSize + tagSize + 2 * keySize
def helloSize : ℕ := 200
def welcomeSize : ℕ := 168
def initiateMinimum : ℕ := 257
def readyMinimum : ℕ := 30
def messageMinimum : ℕ := 33
def helloPadding : ℕ := 72
def helloContent : ℕ := 64

/-- Flags within a MESSAGE box. -/
def payloadMore : UInt8 := 0x01
def payloadCommand : UInt8 := 0x02

/-- Command names. -/
def nameHello : Bytes := ascii "HELLO"
def nameWelcome : Bytes := ascii "WELCOME"
def nameInitiate : Bytes := ascii "INITIATE"
def nameReady : Bytes := ascii "READY"
def nameMessage : Bytes := ascii "MESSAGE"

/-- Box nonce prefixes. -/
def prefixHello : Bytes := ascii "CurveZMQHELLO---"
def prefixWelcome : Bytes := ascii "WELCOME-"
def prefixCookie : Bytes := ascii "COOKIE--"
def prefixInitiate : Bytes := ascii "CurveZMQINITIATE"
def prefixVouch : Bytes := ascii "VOUCH---"
def prefixReady : Bytes := ascii "CurveZMQREADY---"
def prefixClient : Bytes := ascii "CurveZMQMESSAGEC"
def prefixServer : Bytes := ascii "CurveZMQMESSAGES"

/-! ### Primitives -/

/-- The primitives of the system library. -/
structure Primitives where
  /-- `x25519::multiply` of the base point. -/
  multiplyBase (secret : Bytes) : Option Bytes
  /-- `x25519::multiply`. -/
  multiply (secret point : Bytes) : Option Bytes
  /-- `salsa20::hsalsa20` with a zero input. -/
  hsalsa20 (point : Bytes) : Bytes
  /-- `xsalsa20_poly1305::encrypt`, the tag before the ciphertext. -/
  encrypt (key nonce plain : Bytes) : Vector UInt8 (plain.length + tagSize)
  /-- `xsalsa20_poly1305::decrypt`. -/
  decrypt (key nonce cipher : Bytes) : Option (Vector UInt8 (cipher.length - tagSize))

/-- `key`. -/
abbrev Key := Vector UInt8 keySize

/-- `long_nonce`. -/
abbrev LongNonce := Vector UInt8 longNonceSize

/-- A keypair, as `x25519::generate` makes one. -/
structure Keypair where
  secret : Key
  publicKey : Key

section Boxes
variable (primitives : Primitives)

/-- `derive`. -/
def derive (secret publicKey : Bytes) : Option Bytes :=
  (primitives.multiply secret publicKey).map primitives.hsalsa20

/-- `make_nonce` of a short nonce. -/
def shortNonce (label : Bytes) (value : ℕ) : Bytes := label ++ toBytes 8 value

/-- `make_nonce` of a long nonce. -/
def longNonce (label value : Bytes) : Bytes := label ++ value

/-- `short_nonce_value`. -/
def shortNonceValue (data : Bytes) (offset : ℕ) : ℕ := ofBytes ((data.drop offset).take 8)

/-- The bytes of a box. -/
def boxed (key nonce plain : Bytes) : Bytes := (primitives.encrypt key nonce plain).toList

/-- `open`. -/
def openBox (key nonce cipher : Bytes) : Option Bytes :=
  if cipher.length < tagSize then none
  else (primitives.decrypt key nonce cipher).map Vector.toList

/-- `named`. -/
def named (body name : Bytes) : Bool :=
  name.length < body.length && body.headD 0 == name.length.toUInt8 &&
    (body.drop 1).take name.length == name

/-- `name`. -/
def nameBytes (name : Bytes) : Bytes := name.length.toUInt8 :: name

/-- A command of a fixed size, which is what the call returns true for. -/
def sized (command : Bytes) (size : ℕ) : Option Bytes :=
  if command.length = size then some command else none

end Boxes

/-! ### State -/

/-- `cipher`, of which a box is the key it was made of. -/
structure Cipher where
  server : Bool
  secret : Bytes
  publicKey : Bytes
  peer : Bytes := List.replicate keySize 0
  transientSecret : Bytes := List.replicate keySize 0
  transientPublic : Bytes := List.replicate keySize 0
  peerTransient : Bytes := List.replicate keySize 0
  cookieKey : Bytes := List.replicate keySize 0
  nonce : ℕ := 1
  peerNonce : ℕ := 0
  helloBox : Option Bytes := none
  vouchBox : Option Bytes := none
  sessionBox : Option Bytes := none
  /-- What was sealed: the key, the nonce. -/
  seals : List (Bytes × Bytes) := []

namespace Cipher
variable (primitives : Primitives)

/-- `cipher` of a server. -/
def ofServer (keys : Keypair) : Cipher :=
  { server := true, secret := keys.secret.toList, publicKey := keys.publicKey.toList }

/-- `cipher` of a client. -/
def ofClient (keys : Keypair) (server : Key) : Cipher :=
  { server := false, secret := keys.secret.toList, publicKey := keys.publicKey.toList
    peer := server.toList }

/-- `seal`, of which the bytes are appended. -/
def sealBox (c : Cipher) (key nonce plain : Bytes) : Cipher × Bytes :=
  ({ c with seals := c.seals ++ [(key, nonce)] }, boxed primitives key nonce plain)

/-- `accept`. -/
def accept (c : Cipher) (nonce : ℕ) : Cipher × Bool :=
  if nonce ≤ c.peerNonce then (c, false) else ({ c with peerNonce := nonce }, true)

/-! ### Handshake -/

/-- `hello`, with the transient keypair that is generated. -/
def hello (c : Cipher) (transient : Keypair) : Cipher × Option Bytes :=
  if c.server then (c, none)
  else
    let c := { c with
      transientSecret := transient.secret.toList
      transientPublic := transient.publicKey.toList }
    match derive primitives c.transientSecret c.peer with
    | none => (c, none)
    | some shared =>
      let c := { c with helloBox := some shared }
      let head := nameBytes nameHello ++ [1, 0] ++ List.replicate helloPadding 0 ++
        c.transientPublic ++ toBytes 8 c.nonce
      let sealed := c.sealBox primitives shared (shortNonce prefixHello c.nonce)
        (List.replicate helloContent 0)
      ({ sealed.1 with nonce := c.nonce + 1 }, sized (head ++ sealed.2) helloSize)

/-- The random values of `welcome`. -/
structure WelcomeDraw where
  transient : Keypair
  cookieKey : Key
  cookieNonce : LongNonce
  welcomeNonce : LongNonce

/-- The end of `welcome`, once the hello is opened. -/
def sendWelcome (c : Cipher) (draw : WelcomeDraw) (shared : Bytes) : Cipher × Option Bytes :=
  let c := { c with
    transientSecret := draw.transient.secret.toList
    transientPublic := draw.transient.publicKey.toList
    cookieKey := draw.cookieKey.toList }
  let state := c.peerTransient ++ c.transientSecret
  let cookie := c.sealBox primitives c.cookieKey (longNonce prefixCookie draw.cookieNonce.toList)
    state
  let plain := c.transientPublic ++ (draw.cookieNonce.toList ++ cookie.2)
  let sealed := cookie.1.sealBox primitives shared
    (longNonce prefixWelcome draw.welcomeNonce.toList) plain
  (sealed.1, sized (nameBytes nameWelcome ++ draw.welcomeNonce.toList ++ sealed.2) welcomeSize)

/-- `welcome`. -/
def welcome (c : Cipher) (draw : WelcomeDraw) (hello : Bytes) : Cipher × Option Bytes :=
  if ¬c.server ∨ hello.length ≠ helloSize ∨ ¬named hello nameHello then (c, none)
  else
    let offset := 1 + nameHello.length
    if (hello.drop offset).take 2 ≠ [1, 0] then (c, none)
    else
      let offset := offset + 2 + helloPadding
      let c := { c with peerTransient := (hello.drop offset).take keySize }
      let offset := offset + keySize
      let nonce := shortNonceValue hello offset
      let offset := offset + shortNonceSize
      match derive primitives c.secret c.peerTransient with
      | none => (c, none)
      | some shared =>
        let c := { c with helloBox := some shared }
        let accepted := c.accept nonce
        if ¬accepted.2 then (accepted.1, none)
        else
          let c := accepted.1
          match openBox primitives shared (shortNonce prefixHello nonce) (hello.drop offset) with
          | none => (c, none)
          | some _ => c.sendWelcome primitives draw shared

/-- The end of `initiate`, once the boxes of the session are derived. -/
def sendInitiate (c : Cipher) (vouchNonce : LongNonce) (session vouchKey cookie metadata : Bytes) :
    Cipher × Bytes :=
  let vouch := c.sealBox primitives vouchKey (longNonce prefixVouch vouchNonce.toList)
    (c.transientPublic ++ c.peer)
  let content := c.publicKey ++ (vouchNonce.toList ++ vouch.2) ++ metadata
  let sealed := vouch.1.sealBox primitives session (shortNonce prefixInitiate c.nonce) content
  ({ sealed.1 with nonce := c.nonce + 1 },
    nameBytes nameInitiate ++ cookie ++ toBytes 8 c.nonce ++ sealed.2)

/-- `initiate`, with the random nonce of the vouch. -/
def initiate (c : Cipher) (vouchNonce : LongNonce) (welcome metadata : Bytes) :
    Cipher × Option Bytes :=
  match c.helloBox with
  | none => (c, none)
  | some helloBox =>
    if c.server ∨ welcome.length ≠ welcomeSize ∨ ¬named welcome nameWelcome then (c, none)
    else
      let offset := 1 + nameWelcome.length
      let welcomeNonce := (welcome.drop offset).take longNonceSize
      match openBox primitives helloBox (longNonce prefixWelcome welcomeNonce)
        (welcome.drop (offset + longNonceSize)) with
      | none => (c, none)
      | some plain =>
        let c := { c with peerTransient := plain.take keySize }
        let cookie := (plain.drop keySize).take cookieSize
        match derive primitives c.transientSecret c.peerTransient with
        | none => (c, none)
        | some session =>
          let c := { c with sessionBox := some session }
          match derive primitives c.secret c.peerTransient with
          | none => (c, none)
          | some vouchKey =>
            let c := { c with vouchBox := some vouchKey }
            let sent := c.sendInitiate primitives vouchNonce session vouchKey cookie metadata
            (sent.1, some sent.2)

/-- The end of `ready`, once the client is vouched for. -/
def sendReady (c : Cipher) (session metadata : Bytes) : Cipher × Bytes :=
  let sealed := c.sealBox primitives session (shortNonce prefixReady c.nonce) metadata
  let out := nameBytes nameReady ++ toBytes 8 c.nonce ++ sealed.2
  ({ sealed.1 with
    nonce := c.nonce + 1
    transientSecret := List.replicate keySize 0
    cookieKey := List.replicate keySize 0
    helloBox := none
    vouchBox := none }, out)

/-- The vouch of `ready`: the client's long-term key is in front of the content. -/
def openVouch (c : Cipher) (session content metadata : Bytes) : Cipher × Option (Bytes × Bytes) :=
  if content.length < keySize + cookieSize then (c, none)
  else
    let c := { c with peer := content.take keySize }
    match derive primitives c.transientSecret c.peer with
    | none => (c, none)
    | some vouchKey =>
      let c := { c with vouchBox := some vouchKey }
      let vouchNonce := (content.drop keySize).take longNonceSize
      match openBox primitives vouchKey (longNonce prefixVouch vouchNonce)
        ((content.drop (keySize + longNonceSize)).take (cookieSize - longNonceSize)) with
      | none => (c, none)
      | some keys =>
        if c.peerTransient ≠ keys.take keySize ∨ c.publicKey ≠ (keys.drop keySize).take keySize then
          (c, none)
        else
          let sent := c.sendReady primitives session metadata
          (sent.1, some (sent.2, content.drop (keySize + cookieSize)))

/-- `ready`: the command and the peer's metadata. -/
def ready (c : Cipher) (initiate metadata : Bytes) : Cipher × Option (Bytes × Bytes) :=
  if ¬c.server ∨ initiate.length < initiateMinimum ∨ ¬named initiate nameInitiate then (c, none)
  else
    let offset := 1 + nameInitiate.length
    let cookieNonce := (initiate.drop offset).take longNonceSize
    match openBox primitives c.cookieKey (longNonce prefixCookie cookieNonce)
      ((initiate.drop (offset + longNonceSize)).take (cookieSize - longNonceSize)) with
    | none => (c, none)
    | some state =>
      -- the cookie must be that of this connection
      if c.peerTransient ≠ state.take keySize ∨
          c.transientSecret ≠ (state.drop keySize).take keySize then (c, none)
      else
        let offset := offset + cookieSize
        let nonce := shortNonceValue initiate offset
        let offset := offset + shortNonceSize
        match derive primitives c.transientSecret c.peerTransient with
        | none => (c, none)
        | some session =>
          let c := { c with sessionBox := some session }
          let accepted := c.accept nonce
          if ¬accepted.2 then (accepted.1, none)
          else
            let c := accepted.1
            match openBox primitives session (shortNonce prefixInitiate nonce)
              (initiate.drop offset) with
            | none => (c, none)
            | some content => c.openVouch primitives session content metadata

/-- `complete`: the peer's metadata. -/
def complete (c : Cipher) (ready : Bytes) : Cipher × Option Bytes :=
  match c.sessionBox with
  | none => (c, none)
  | some session =>
    if c.server ∨ ready.length < readyMinimum ∨ ¬named ready nameReady then (c, none)
    else
      let offset := 1 + nameReady.length
      let nonce := shortNonceValue ready offset
      let accepted := c.accept nonce
      if ¬accepted.2 then (accepted.1, none)
      else
        let c := accepted.1
        match openBox primitives session (shortNonce prefixReady nonce)
          (ready.drop (offset + shortNonceSize)) with
        | none => (c, none)
        | some metadata =>
          ({ c with
            transientSecret := List.replicate keySize 0
            helloBox := none
            vouchBox := none }, some metadata)

/-! ### Messages -/

/-- `encode`. -/
def encode (c : Cipher) (flags : UInt8) (body : Bytes) : Cipher × Option Bytes :=
  match c.sessionBox with
  | none => (c, none)
  | some session =>
    let label := if c.server then prefixServer else prefixClient
    let sealed := c.sealBox primitives session (shortNonce label c.nonce) (flags :: body)
    let out := nameBytes nameMessage ++ toBytes 8 c.nonce ++ sealed.2
    ({ sealed.1 with nonce := c.nonce + 1 }, some out)

/-- `decode`. -/
def decode (c : Cipher) (message : Bytes) : Cipher × Option (UInt8 × Bytes) :=
  match c.sessionBox with
  | none => (c, none)
  | some session =>
    if message.length < messageMinimum ∨ ¬named message nameMessage then (c, none)
    else
      let offset := 1 + nameMessage.length
      let nonce := shortNonceValue message offset
      let accepted := c.accept nonce
      if ¬accepted.2 then (accepted.1, none)
      else
        let c := accepted.1
        let label := if c.server then prefixClient else prefixServer
        match openBox primitives session (shortNonce label nonce)
          (message.drop (offset + shortNonceSize)) with
        -- the box of a message that is not too short has the flags
        | none | some [] => (c, none)
        | some (flags :: body) => (c, some (flags, body))

end Cipher

end BitcoinNetwork.Zmtp
