import BitcoinNetwork.Tls.Record

/-!
# The server side of a TLS 1.3 connection (tls/server.cpp, tls/context.cpp)

The handlers take the connection to the state it is left in, which is failed
exactly where the source returns false. The bytes of `input_`, which no handler
but `receive` touches, stand beside the connection. What the server seals is
also kept in order in `log`, of which the source has only the bytes in
`output_`: no handler reads it.
-/

namespace BitcoinNetwork.Tls
open Binary
open Http (ascii)

/-! ### Wire values (tls/constants.hpp) -/

def version13 : UInt16 := 0x0304
def maximumMessage : ℕ := 131072
def maximumRecords : ℕ := 16777216

/-- Handshake types. -/
def typeClientHello : UInt8 := 1
def typeServerHello : UInt8 := 2
def typeEncryptedExtensions : UInt8 := 8
def typeCertificate : UInt8 := 11
def typeCertificateRequest : UInt8 := 13
def typeCertificateVerify : UInt8 := 15
def typeFinished : UInt8 := 20
def typeKeyUpdate : UInt8 := 24
def typeMessageHash : UInt8 := 254

/-- Extension types. -/
def extensionSupportedGroups : UInt16 := 10
def extensionSignatureAlgorithms : UInt16 := 13
def extensionEarlyData : UInt16 := 42
def extensionSupportedVersions : UInt16 := 43
def extensionKeyShare : UInt16 := 51

/-- Alert descriptions and levels. -/
def alertCloseNotify : UInt8 := 0
def alertUnexpectedMessage : UInt8 := 10
def alertBadRecordMac : UInt8 := 20
def alertRecordOverflow : UInt8 := 22
def alertHandshakeFailure : UInt8 := 40
def alertBadCertificate : UInt8 := 42
def alertCertificateExpired : UInt8 := 45
def alertIllegalParameter : UInt8 := 47
def alertUnknownCa : UInt8 := 48
def alertDecodeError : UInt8 := 50
def alertDecryptError : UInt8 := 51
def alertProtocolVersion : UInt8 := 70
def alertUserCanceled : UInt8 := 90
def alertMissingExtension : UInt8 := 109
def alertCertificateRequired : UInt8 := 116
def alertWarning : UInt8 := 1
def alertFatal : UInt8 := 2

/-- Named groups. -/
def secp256r1Group : UInt16 := 0x0017
def secp384r1Group : UInt16 := 0x0018
def x25519Group : UInt16 := 0x001d

/-- Signature schemes. -/
def ecdsaSecp256r1Sha256 : UInt16 := 0x0403
def ecdsaSecp384r1Sha384 : UInt16 := 0x0503

/-- `retry_random`. -/
def retryRandom : Bytes :=
  [0xcf, 0x21, 0xad, 0x74, 0xe5, 0x9a, 0x61, 0x11, 0xbe, 0x1d, 0x8c, 0x02, 0x1e, 0x65, 0xb8, 0x91,
    0xc2, 0xa2, 0x11, 0x16, 0x7a, 0xbb, 0x8c, 0x5e, 0x07, 0x9e, 0x09, 0xe2, 0xc8, 0xa8, 0x33, 0x9c]

/-- `preferred_suites`. -/
def preferredSuites : List UInt16 := [aes128GcmSha256, aes256GcmSha384, chacha20Poly1305Sha256]

/-- `preferred_groups`. -/
def preferredGroups : List UInt16 := [x25519Group, secp256r1Group, secp384r1Group]

/-! ### Configuration -/

/-- `context`, of which the certificates are encoded and the key is that of the curve. -/
structure Context (Certificate : Type) where
  certificates : List Bytes
  curve : Curve
  key : Bytes
  anchors : List Certificate
  request : Bool
  require : Bool
  time : ℕ
  /-- `set_verify` requires no more than it requests. -/
  verify : require = true → request = true

/-- What a server is given, and the secrets that its key exchange would generate. -/
structure Config (Certificate : Type) where
  crypto : Crypto Certificate
  context : Context Certificate
  random : Bytes
  ephemeral : Bytes
  generate : Curve → Bytes

/-! ### Messages -/

/-- `make_message`. -/
def makeMessage (type : UInt8) (body : Bytes) : Bytes := type :: writeVector24 body

/-- `verify_content`. -/
def verifyContent (label : String) (transcript : Bytes) : Bytes :=
  List.replicate 64 0x20 ++ ascii label ++ [0x00] ++ transcript

/-- The message of `send_hello`: a ServerHello, or a HelloRetryRequest by its random. -/
def helloMessage (suite : UInt16) (random session keyShare : Bytes) : Bytes :=
  let extensions := write16 extensionKeyShare ++ writeVector16 keyShare ++
    write16 extensionSupportedVersions ++ writeVector16 (write16 version13)
  makeMessage typeServerHello (write16 legacyVersion ++ random ++ writeVector8 session ++
    write16 suite ++ [0x00] ++ writeVector16 extensions)

/-- The message that stands for the first ClientHello in `send_retry`. -/
def hashMessage {Certificate : Type} (crypto : Crypto Certificate) (suite : UInt16)
    (clientHello : Bytes) : Bytes := makeMessage typeMessageHash (hash crypto suite clientHello)

/-- EncryptedExtensions (none). -/
def encryptedExtensions : Bytes := makeMessage typeEncryptedExtensions (write16 0)

/-- CertificateRequest. -/
def certificateRequest : Bytes :=
  let algorithms := writeVector16 (write16 ecdsaSecp256r1Sha256 ++ write16 ecdsaSecp384r1Sha384)
  makeMessage typeCertificateRequest (writeVector8 [] ++
    writeVector16 (write16 extensionSignatureAlgorithms ++ writeVector16 algorithms))

/-- The entries of the Certificate message. -/
def certificateEntries (certificates : List Bytes) : Bytes :=
  certificates.flatMap fun certificate => writeVector24 certificate ++ write16 0

/-- Certificate. -/
def certificateMessage (certificates : List Bytes) : Bytes :=
  makeMessage typeCertificate (writeVector8 [] ++ writeVector24 (certificateEntries certificates))

/-- The scheme of a curve's signatures. -/
def schemeOf : Curve → UInt16
  | .secp256r1 => ecdsaSecp256r1Sha256
  | .secp384r1 => ecdsaSecp384r1Sha384

/-- The digest that a curve's signatures sign. -/
def digestOf {Certificate : Type} (crypto : Crypto Certificate) (curve : Curve) (content : Bytes) :
    Bytes :=
  match curve with
  | .secp256r1 => (crypto.hash .sha256 content).toList
  | .secp384r1 => (crypto.hash .sha384 content).toList

def serverVerify : String := "TLS 1.3, server CertificateVerify"
def clientVerify : String := "TLS 1.3, client CertificateVerify"

/-- CertificateVerify over the hash of a transcript. -/
def certificateVerify {Certificate : Type} (crypto : Crypto Certificate)
    (context : Context Certificate) (transcript : Bytes) : Bytes :=
  let digest := digestOf crypto context.curve (verifyContent serverVerify transcript)
  makeMessage typeCertificateVerify (write16 (schemeOf context.curve) ++
    writeVector16 (crypto.sign context.curve context.key digest))

/-- The message of `send_update`. -/
def keyUpdate : Bytes := makeMessage typeKeyUpdate [0]

/-! ### Client hello -/

/-- What the extensions of a ClientHello hold. -/
structure Extensions where
  seen : List UInt16 := []
  versions : List UInt16 := []
  groups : List UInt16 := []
  algorithms : List UInt16 := []
  shares : Option Bytes := none
  early : Bool := false

/-- `to_list`: a list that is not empty and fills the extension. -/
def toList (read : List UInt16 × Reader) : Option (List UInt16) :=
  if read.2.isComplete ∧ read.1 ≠ [] then some read.1 else none

/-- One extension. -/
def Extensions.take (extensions : Extensions) (type : UInt16) (data : Bytes) :
    Except UInt8 Extensions :=
  let extensions := { extensions with seen := extensions.seen ++ [type] }
  if type = extensionSupportedVersions then
    match toList (Reader.readList8 { data }) with
    | none => .error alertDecodeError
    | some versions => .ok { extensions with versions }
  else if type = extensionSupportedGroups then
    match toList (Reader.readList16 { data }) with
    | none => .error alertDecodeError
    | some groups => .ok { extensions with groups }
  else if type = extensionSignatureAlgorithms then
    match toList (Reader.readList16 { data }) with
    | none => .error alertDecodeError
    | some algorithms => .ok { extensions with algorithms }
  else if type = extensionKeyShare then .ok { extensions with shares := some data }
  else if type = extensionEarlyData then .ok { extensions with early := true }
  else .ok extensions

/-- The loop over the extensions, which are unique. -/
def extensionsLoop : ℕ → Reader → Extensions → Except UInt8 Extensions
  | 0, _, extensions => .ok extensions
  | turns + 1, list, extensions =>
    if ¬list.valid ∨ list.isComplete then .ok extensions
    else
      let type := list.read16
      let data := type.2.readVector16
      if ¬data.2.valid then .error alertDecodeError
      else if extensions.seen.contains type.1 then .error alertIllegalParameter
      else
        match extensions.take type.1 data.1 with
        | .error alert => .error alert
        | .ok extensions => extensionsLoop turns data.2 extensions

/-- The loop over the entries of the key_share extension. -/
def sharesLoop : ℕ → Reader → List (UInt16 × Bytes) × Reader
  | 0, entries => ([], entries)
  | turns + 1, entries =>
    if ¬entries.valid ∨ entries.isComplete then ([], entries)
    else
      let group := entries.read16
      let exchange := group.2.readVector16
      let next := sharesLoop turns exchange.2
      (if exchange.2.valid then (group.1, exchange.1) :: next.1 else next.1, next.2)

/-- What a ClientHello offers, of which the suite is chosen. -/
structure Offer where
  session : Bytes
  suite : UInt16
  groups : List UInt16
  shares : List (UInt16 × Bytes)

namespace Offer

/-- `share_of`: the first share of a group. -/
def shareOf (offer : Offer) (group : UInt16) : Bytes :=
  match offer.shares.find? fun entry => entry.1 == group with
  | none => []
  | some entry => entry.2

/-- `mutual`. -/
def isMutual (offer : Offer) (group : UInt16) : Bool := offer.groups.contains group

/-- `with_share`. -/
def withShare (offer : Offer) (group : UInt16) : Bool :=
  offer.isMutual group && !(offer.shareOf group).isEmpty

/-- The preferred mutual group with a share. -/
def group (offer : Offer) : Option UInt16 := preferredGroups.find? offer.withShare

/-- The preferred mutual group. -/
def retry (offer : Offer) : Option UInt16 := preferredGroups.find? offer.isMutual

end Offer

/-- The checks of `handle_client_hello` that change nothing, `retried` being the suite of a
first ClientHello that was retried: the offer with the group to retry, or the alert. -/
def readOffer (curve : Curve) (retried : Option UInt16) (body : Bytes) :
    Except UInt8 (Offer × UInt16) :=
  let hello : Reader := { data := body }
  let hello := hello.read16.2
  let hello := (hello.readBytes 32).2
  let session := hello.readVector8
  let ciphers := session.2.readList16
  let compression := ciphers.2.readVector8
  -- without extensions the client does not offer TLS 1.3
  if compression.2.isComplete then .error alertProtocolVersion
  else
    let list := compression.2.readVector16
    if ¬list.2.isComplete ∨ 32 < session.1.length ∨ ciphers.1 = [] then .error alertDecodeError
    else if compression.1 ≠ [0] then .error alertIllegalParameter
    else
      match extensionsLoop (list.1.length + 1) { data := list.1 } {} with
      | .error alert => .error alert
      | .ok extensions =>
        if ¬extensions.versions.contains version13 then .error alertProtocolVersion
        else
          match preferredSuites.find? ciphers.1.contains with
          | none => .error alertHandshakeFailure
          | some suite =>
            if retried ≠ none ∧ (retried ≠ some suite ∨ extensions.early) then
              .error alertIllegalParameter
            else if extensions.algorithms = [] ∨ extensions.groups = [] ∨
                extensions.shares = none then .error alertMissingExtension
            else if ¬extensions.algorithms.contains (schemeOf curve) then
              .error alertHandshakeFailure
            else
              let shares := Reader.readVector16 { data := extensions.shares.getD [] }
              if ¬shares.2.isComplete then .error alertDecodeError
              else
                let offered := sharesLoop (shares.1.length + 1) { data := shares.1 }
                if ¬offered.2.valid then .error alertDecodeError
                else
                  let offer : Offer := ⟨session.1, suite, extensions.groups, offered.1⟩
                  match offer.retry with
                  | none => .error alertHandshakeFailure
                  | some retry => .ok (offer, retry)

/-! ### Connection -/

/-- `server::state`. -/
inductive State where
  | clientHello
  | retryHello
  | clientCertificate
  | clientCertificateVerify
  | clientFinished
  | established
  | failed
  deriving DecidableEq, Repr

/-- What the send direction does: a secret is set, or content is sealed, with the
sequence number if it is protected. -/
inductive Sealing where
  | secret (traffic : Bytes)
  | record (sequence : Option ℕ) (type : UInt8) (content : Bytes)
  deriving DecidableEq

/-- `server` but for `input_`. -/
structure Connection (Certificate : Type) where
  state : State := .clientHello
  suite : UInt16 := 0
  group : UInt16 := 0
  failure : UInt8 := 0
  failureReceived : Bool := false
  closed : Bool := false
  closeSent : Bool := false
  compatibilitySent : Bool := false
  receiveEpoch : ℕ := 0
  peer : List Certificate := []
  handshake : Bytes := []
  application : Bytes := []
  output : Bytes := []
  send : Record := {}
  receive : Record := {}
  transcript : Transcript := {}
  handshakeSecret : Bytes := []
  clientHandshake : Bytes := []
  serverHandshake : Bytes := []
  clientTraffic : Bytes := []
  serverTraffic : Bytes := []
  log : List Sealing := []

namespace Connection
variable {Certificate : Type} (config : Config Certificate)

/-- `is_failed`. -/
def isFailed (s : Connection Certificate) : Bool := s.state == .failed

/-- `is_established`. -/
def isEstablished (s : Connection Certificate) : Bool := s.state == .established

/-! ### Keys and transcript -/

/-- `send_.seal` into `output_`. -/
def sealRecord (s : Connection Certificate) (type : UInt8) (content : Bytes) : Connection Certificate :=
  let sealed := s.send.sealContent config.crypto type content
  let sequence := if s.send.isProtected then some s.send.sequence else none
  { s with
    output := s.output ++ sealed.1
    send := sealed.2
    log := s.log ++ [.record sequence type content] }

/-- `send_.set_secret`. -/
def setSend (s : Connection Certificate) (traffic : Bytes) : Connection Certificate :=
  { s with
    send := Record.setSecret config.crypto s.suite traffic
    log := s.log ++ [.secret traffic] }

/-- `set_receive`. -/
def setReceive (s : Connection Certificate) (traffic : Bytes) : Connection Certificate :=
  { s with
    receive := Record.setSecret config.crypto s.suite traffic
    receiveEpoch := s.receiveEpoch + 1 }

/-- `add_transcript`. -/
def addTranscript (s : Connection Certificate) (message : Bytes) : Connection Certificate :=
  { s with transcript := s.transcript.write message }

/-- `transcript`. -/
def transcriptHash (s : Connection Certificate) : Bytes := s.transcript.hash config.crypto

/-- `fail`. -/
def fail (s : Connection Certificate) (description : UInt8) : Connection Certificate :=
  if s.isFailed then s
  else { s with state := .failed, failure := description }.sealRecord config contentAlert
    [alertFatal, description]

/-- The parts of the data in `send`. -/
def fragments : ℕ → Bytes → List Bytes
  | 0, _ => []
  | turns + 1, data =>
    if data = [] then []
    else data.take maximumPlaintext :: fragments turns (data.drop maximumPlaintext)

/-- `send`. -/
def sendContent (s : Connection Certificate) (type : UInt8) (data : Bytes) :
    Connection Certificate :=
  (fragments data.length data).foldl (fun s part => s.sealRecord config type part) s

/-! ### Client hello -/

/-- `send_compatibility`. -/
def sendCompatibility (s : Connection Certificate) (session : Bytes) : Connection Certificate :=
  if session = [] ∨ s.compatibilitySent then s
  else { s.sealRecord config contentChangeCipherSpec [0x01] with compatibilitySent := true }

/-- `send_hello`. -/
def sendHello (s : Connection Certificate) (random session keyShare : Bytes) :
    Connection Certificate :=
  let hello := helloMessage s.suite random session keyShare
  ((s.addTranscript hello).sealRecord config contentHandshake hello).sendCompatibility config session

/-- `send_retry`. -/
def sendRetry (s : Connection Certificate) (clientHello session : Bytes) :
    Connection Certificate :=
  let s := { s with transcript := .reset s.suite }
  let s := s.addTranscript (hashMessage config.crypto s.suite clientHello)
  { s.sendHello config retryRandom session (write16 s.group) with state := .retryHello }

/-- A message of the flight, which is also absorbed. -/
def append (flight : Connection Certificate × Bytes) (message : Bytes) :
    Connection Certificate × Bytes :=
  (flight.1.addTranscript message, flight.2 ++ message)

/-- The messages of `send_flight`. -/
def flightMessages (s : Connection Certificate) : Connection Certificate × Bytes :=
  let flight := append (s, []) encryptedExtensions
  let flight := if config.context.request then append flight certificateRequest else flight
  let flight := append flight (certificateMessage config.context.certificates)
  let flight := append flight
    (certificateVerify config.crypto config.context (flight.1.transcriptHash config))
  append flight (makeMessage typeFinished (finished config.crypto flight.1.suite
    flight.1.serverHandshake (flight.1.transcriptHash config)))

/-- `send_flight`. -/
def sendFlight (s : Connection Certificate) : Connection Certificate :=
  let flight := s.flightMessages config
  let s := flight.1.sendContent config contentHandshake flight.2
  let master := masterSecret config.crypto s.suite s.handshakeSecret
  let hash := s.transcriptHash config
  let s := { s with
    clientTraffic := expandLabel config.crypto s.suite master "c ap traffic" hash
    serverTraffic := expandLabel config.crypto s.suite master "s ap traffic" hash }
  s.setSend config s.serverTraffic

/-- `nist_exchange`: the shared secret and the own share. -/
def nistExchange (curve : Curve) (share : Bytes) : Option (Bytes × Bytes) :=
  if share.length ≠ config.crypto.pointSize curve then none
  else
    match config.crypto.publicKey curve (config.generate curve),
      config.crypto.agree curve (config.generate curve) share with
    | some point, some value => some (value, point)
    | _, _ => none

/-- `exchange`. -/
def exchange (group : UInt16) (share : Bytes) : Option (Bytes × Bytes) :=
  if group = secp256r1Group then nistExchange config .secp256r1 share
  else if group = secp384r1Group then nistExchange config .secp384r1 share
  else if share.length ≠ 32 then none
  else (config.crypto.multiply config.ephemeral share).map fun value =>
    (value, config.crypto.multiplyBase config.ephemeral)

/-- The end of `handle_client_hello`, once the secret is shared. -/
def acceptHello (s : Connection Certificate) (message session shared own : Bytes) :
    Connection Certificate :=
  let s := s.addTranscript message
  let s := s.sendHello config config.random session (write16 s.group ++ writeVector16 own)
  let early := earlySecret config.crypto s.suite
  let s := { s with handshakeSecret := Tls.handshakeSecret config.crypto s.suite early shared }
  let hash := s.transcriptHash config
  let s := { s with
    clientHandshake := expandLabel config.crypto s.suite s.handshakeSecret "c hs traffic" hash
    serverHandshake := expandLabel config.crypto s.suite s.handshakeSecret "s hs traffic" hash }
  let s := s.setSend config s.serverHandshake
  let s := s.setReceive config s.clientHandshake
  { s.sendFlight config with
    state := if config.context.request then .clientCertificate else .clientFinished }

/-- `handle_client_hello`. -/
def handleClientHello (s : Connection Certificate) (message body : Bytes) :
    Connection Certificate :=
  let retried := s.state == .retryHello
  match readOffer config.context.curve (if retried then some s.suite else none) body with
  | .error alert => s.fail config alert
  | .ok (offer, retry) =>
    let s := { s with suite := offer.suite }
    let s := if retried then s else { s with transcript := .reset s.suite }
    match offer.group with
    | none =>
      if retried then s.fail config alertIllegalParameter
      else { s with group := retry }.sendRetry config message offer.session
    | some group =>
      if retried ∧ group ≠ s.group then s.fail config alertIllegalParameter
      else
        let s := { s with group }
        match exchange config group (offer.shareOf group) with
        | none => s.fail config alertIllegalParameter
        | some (shared, own) => s.acceptHello config message offer.session shared own

/-! ### Client authentication -/

/-- The loop over the entries of a client Certificate. -/
def certificatesLoop : ℕ → Reader → Except UInt8 (List Certificate)
  | 0, _ => .ok []
  | turns + 1, entries =>
    if ¬entries.valid ∨ entries.isComplete then .ok []
    else
      let der := entries.readVector24
      let extensions := der.2.readVector16
      if ¬extensions.2.valid then .error alertDecodeError
      else
        match config.crypto.parse der.1 with
        | none => .error alertBadCertificate
        | some value => (certificatesLoop turns extensions.2).map (value :: ·)

/-- The chain of a client Certificate, or the alert. -/
def readCertificate (body : Bytes) : Except UInt8 (List Certificate) :=
  let context := Reader.readVector8 { data := body }
  let entries := context.2.readVector24
  if ¬entries.2.isComplete then .error alertDecodeError
  else if context.1 ≠ [] then .error alertIllegalParameter
  else certificatesLoop config (entries.1.length + 1) { data := entries.1 }

/-- `to_alert`. -/
def toAlert : ChainError → UInt8
  | .certificateExpired => alertCertificateExpired
  | .certificateNotYetValid => alertCertificateExpired
  | .chainUntrusted => alertUnknownCa
  | .other => alertBadCertificate

/-- `handle_certificate`. -/
def handleCertificate (s : Connection Certificate) (message body : Bytes) :
    Connection Certificate :=
  match readCertificate config body with
  | .error alert => s.fail config alert
  | .ok [] =>
    let s := s.addTranscript message
    if config.context.require then s.fail config alertCertificateRequired
    else { s with state := .clientFinished }
  | .ok chain =>
    let s := s.addTranscript message
    match config.crypto.verifyChain chain config.context.anchors config.context.time with
    | some ec => s.fail config (toAlert ec)
    | none => { s with peer := chain, state := .clientCertificateVerify }

/-- The verdict of `handle_certificate_verify` on the signature of the leaf, over the hash of
a transcript: valid or not, or the scheme is not that of the leaf. -/
def verifySignature (leaf : Certificate) (scheme : UInt16) (signature transcript : Bytes) :
    Option Bool :=
  let content := verifyContent clientVerify transcript
  match config.crypto.curve leaf with
  | none => none
  | some curve =>
    if scheme ≠ schemeOf curve then none
    else some ((config.crypto.key leaf).length = config.crypto.pointSize curve ∧
      config.crypto.verify curve (config.crypto.key leaf) signature
        (digestOf config.crypto curve content))

/-- `handle_certificate_verify`. -/
def handleCertificateVerify (s : Connection Certificate) (message body : Bytes) :
    Connection Certificate :=
  let scheme := Reader.read16 { data := body }
  let signature := scheme.2.readVector16
  if ¬signature.2.isComplete then s.fail config alertDecodeError
  else
    match s.peer with
    -- the chain is not empty in the state that comes here
    | [] => s
    | leaf :: _ =>
      match verifySignature config leaf scheme.1 signature.1 (s.transcriptHash config) with
      | none => s.fail config alertIllegalParameter
      | some false => s.fail config alertDecryptError
      | some true => { s.addTranscript message with state := .clientFinished }

/-! ### Finished and key update -/

/-- `handle_finished`. -/
def handleFinished (s : Connection Certificate) (message body : Bytes) : Connection Certificate :=
  let expected := finished config.crypto s.suite s.clientHandshake (s.transcriptHash config)
  if body ≠ expected then s.fail config alertDecryptError
  else
    let s := s.addTranscript message
    { s.setReceive config s.clientTraffic with state := .established }

/-- `send_update`. -/
def sendUpdate (s : Connection Certificate) : Connection Certificate :=
  let s := s.sendContent config contentHandshake keyUpdate
  let s := { s with serverTraffic := update config.crypto s.suite s.serverTraffic }
  s.setSend config s.serverTraffic

/-- `handle_key_update`. -/
def handleKeyUpdate (s : Connection Certificate) (body : Bytes) : Connection Certificate :=
  match body with
  | [request] =>
    if request ≠ 0 ∧ request ≠ 1 then s.fail config alertIllegalParameter
    else
      let s := { s with clientTraffic := update config.crypto s.suite s.clientTraffic }
      let s := s.setReceive config s.clientTraffic
      if request = 1 ∧ ¬s.closeSent then s.sendUpdate config else s
  | _ => s.fail config alertDecodeError

/-! ### Content -/

/-- `handle_message`. -/
def handleMessage (s : Connection Certificate) (type : UInt8) (message body : Bytes) :
    Connection Certificate :=
  match s.state with
  | .clientHello | .retryHello =>
    if type = typeClientHello then s.handleClientHello config message body
    else s.fail config alertUnexpectedMessage
  | .clientCertificate =>
    if type = typeCertificate then s.handleCertificate config message body
    else s.fail config alertUnexpectedMessage
  | .clientCertificateVerify =>
    if type = typeCertificateVerify then s.handleCertificateVerify config message body
    else s.fail config alertUnexpectedMessage
  | .clientFinished =>
    if type = typeFinished then s.handleFinished config message body
    else s.fail config alertUnexpectedMessage
  | .established =>
    if type = typeKeyUpdate then s.handleKeyUpdate config body
    else s.fail config alertUnexpectedMessage
  | .failed => s.fail config alertUnexpectedMessage

/-- The loop of `handle_handshake` over the messages that are complete. -/
def messagesLoop : ℕ → Connection Certificate → Connection Certificate
  | 0, s => s
  | turns + 1, s =>
    if s.handshake.length < 4 then s
    else
      let header : Reader := { data := s.handshake.take 4 }
      let type := header.read8
      let size := type.2.read24.1
      if maximumMessage < size then s.fail config alertDecodeError
      else if s.handshake.length < 4 + size then s
      else
        let message := s.handshake.take (4 + size)
        let epoch := s.receiveEpoch
        let s := { s with handshake := s.handshake.drop (4 + size) }
        let s := s.handleMessage config type.1 message (message.drop 4)
        if s.isFailed then s
        -- handshake messages must not span a change of receive keys
        else if epoch ≠ s.receiveEpoch ∧ s.handshake ≠ [] then s.fail config alertUnexpectedMessage
        else messagesLoop turns s

/-- `handle_handshake`. -/
def handleHandshake (s : Connection Certificate) (content : Bytes) : Connection Certificate :=
  if content = [] then s.fail config alertUnexpectedMessage
  else
    let s := { s with handshake := s.handshake ++ content }
    s.messagesLoop config (s.handshake.length + 1)

/-- `handle_alert`. -/
def handleAlert (s : Connection Certificate) (content : Bytes) : Connection Certificate :=
  match content with
  | [_, description] =>
    if description = alertCloseNotify then { s with closed := true }
    else if description = alertUserCanceled then s
    else { s with state := .failed, failure := description, failureReceived := true }
  | _ => s.fail config alertDecodeError

/-- `handle_content`. -/
def handleContent (s : Connection Certificate) (type : UInt8) (content : Bytes) :
    Connection Certificate :=
  if type = contentAlert then s.handleAlert config content
  else if type = contentHandshake then s.handleHandshake config content
  else if type = contentApplicationData then
    if ¬s.isEstablished then s.fail config alertUnexpectedMessage
    else { s with application := s.application ++ content }
  else s.fail config alertUnexpectedMessage

/-- `handle_record`. -/
def handleRecord (s : Connection Certificate) (type : UInt8) (header fragment : Bytes) :
    Connection Certificate :=
  if type = contentChangeCipherSpec then
    let handshaking := s.state ≠ .clientHello ∧ s.state ≠ .established
    if ¬handshaking ∨ fragment ≠ [0x01] then s.fail config alertUnexpectedMessage else s
  else if ¬s.receive.isProtected then
    if maximumPlaintext < fragment.length then s.fail config alertRecordOverflow
    else if type = contentApplicationData then s.fail config alertUnexpectedMessage
    else s.handleContent config type fragment
  else if type ≠ contentApplicationData then s.fail config alertUnexpectedMessage
  else
    let opened := s.receive.openFragment config.crypto header fragment
    let s := { s with receive := opened.2 }
    match opened.1 with
    | none => s.fail config alertBadRecordMac
    | some (inner, content) =>
      if maximumPlaintext < content.length then s.fail config alertRecordOverflow
      else s.handleContent config inner content

/-! ### Application data -/

/-- `write`. -/
def write (s : Connection Certificate) (data : Bytes) : Connection Certificate × Bool :=
  if ¬s.isEstablished ∨ s.closeSent then (s, false)
  else
    let s := if maximumRecords ≤ s.send.sequence then s.sendUpdate config else s
    (s.sendContent config contentApplicationData data, true)

/-- `read`. -/
def read (s : Connection Certificate) (size : ℕ) : Bytes × Connection Certificate :=
  (s.application.take size, { s with application := s.application.drop size })

/-- `close`. -/
def close (s : Connection Certificate) : Connection Certificate :=
  if s.closeSent ∨ s.isFailed then s
  else { s.sealRecord config contentAlert [alertWarning, alertCloseNotify] with closeSent := true }

/-- The caller consumes `output`. -/
def consume (s : Connection Certificate) (size : ℕ) : Connection Certificate :=
  { s with output := s.output.drop size }

end Connection

/-! ### Server -/

/-- `server`. -/
structure Server (Certificate : Type) where
  connection : Connection Certificate := {}
  input : Bytes := []

namespace Server
variable {Certificate : Type} (config : Config Certificate)

/-- The loop of `receive` over the records that are complete: the bytes that are left of the
input, unless it returns within. -/
def recordsLoop : ℕ → Connection Certificate → Bytes → Connection Certificate × Option Bytes
  | 0, s, available => (s, some available)
  | turns + 1, s, available =>
    if s.isFailed ∨ s.closed ∨ available.length < recordHeaderSize then (s, some available)
    else
      let header : Reader := { data := available.take recordHeaderSize }
      let type := header.read8
      let size := type.2.read16.2.read16.1.toNat
      if maximumCiphertext < size then (s.fail config alertRecordOverflow, none)
      else if available.length < recordHeaderSize + size then (s, some available)
      else
        let fragment := (available.drop recordHeaderSize).take size
        let s := s.handleRecord config type.1 (available.take recordHeaderSize) fragment
        if s.isFailed then (s, none)
        else recordsLoop turns s (available.drop (recordHeaderSize + size))

/-- `receive`. -/
def receive (server : Server Certificate) (data : Bytes) : Server Certificate × Bool :=
  let s := server.connection
  if s.isFailed ∨ s.closed then (server, false)
  else
    let input := server.input ++ data
    match recordsLoop config (input.length + 1) s input with
    | (s, none) => (⟨s, input⟩, false)
    | (s, some rest) => (⟨s, rest⟩, !s.isFailed)

/-- What the owner of a server may call, and that it takes bytes of the output. -/
inductive Call where
  | receive (data : Bytes)
  | write (data : Bytes)
  | read (size : ℕ)
  | close
  | consume (size : ℕ)

/-- The server once a call returns. -/
def call (server : Server Certificate) : Call → Server Certificate
  | .receive data => (server.receive config data).1
  | .write data => { server with connection := (server.connection.write config data).1 }
  | .read size => { server with connection := (server.connection.read size).2 }
  | .close => { server with connection := server.connection.close config }
  | .consume size => { server with connection := server.connection.consume size }

/-- The server once calls have returned, from its construction. -/
def run (calls : List Call) : Server Certificate := calls.foldl (call config) {}

end Server

end BitcoinNetwork.Tls
