import BitcoinNetwork.Tls.Server

/-!
# The handshake by its transcript (rfc8446 4.4.1)

What a server that completes the handshake has received and sent, and the
secrets that follow from it: each value is a function of the messages before
it, over the hash of their concatenation.
-/

namespace BitcoinNetwork.Tls
open Binary Connection

variable {Certificate : Type} (config : Config Certificate)

/-- The hash of messages, as the transcript has it of their concatenation. -/
def hashMessages (suite : UInt16) (messages : List Bytes) : Bytes :=
  hash config.crypto suite messages.flatten

/-- What stands before the ClientHello that is accepted: nothing, or the hash of a first one
that had no share of a preferred mutual group, and the HelloRetryRequest of that group. -/
inductive Opening : UInt16 → Option UInt16 → List Bytes → Prop
  | first {suite : UInt16} : Opening suite none []
  | retried {body : Bytes} {offer : Offer} {retry : UInt16}
      (offered : readOffer config.context.curve none body = .ok (offer, retry))
      (unshared : offer.group = none) :
      Opening offer.suite (some retry)
        [hashMessage config.crypto offer.suite (makeMessage typeClientHello body),
          helloMessage offer.suite retryRandom offer.session (write16 retry)]

/-- The messages up to the ServerHello, and what they agree on. -/
structure Greeting where
  opening : List Bytes
  retried : Option UInt16
  body : Bytes
  offer : Offer
  group : UInt16
  shared : Bytes
  own : Bytes

namespace Greeting
variable (g : Greeting)

def clientHello : Bytes := makeMessage typeClientHello g.body

def serverHello : Bytes :=
  helloMessage g.offer.suite config.random g.offer.session (write16 g.group ++ writeVector16 g.own)

/-- The ClientHello offers the suite and the group, which are those of any retry. -/
structure Valid : Prop where
  opening : Opening config g.offer.suite g.retried g.opening
  offered : ∃ retry, readOffer config.context.curve (g.retried.map fun _ => g.offer.suite) g.body
    = .ok (g.offer, retry)
  group : g.offer.group = some g.group
  same : ∀ group ∈ g.retried, g.group = group
  exchange : exchange config g.group (g.offer.shareOf g.group) = some (g.shared, g.own)

/-! ### Messages -/

def greetings : List Bytes := g.opening ++ [g.clientHello, g.serverHello config]

def handshakeSecret : Bytes :=
  Tls.handshakeSecret config.crypto g.offer.suite (earlySecret config.crypto g.offer.suite) g.shared

def clientHandshake : Bytes :=
  expandLabel config.crypto g.offer.suite (g.handshakeSecret config) "c hs traffic"
    (hashMessages config g.offer.suite (g.greetings config))

def serverHandshake : Bytes :=
  expandLabel config.crypto g.offer.suite (g.handshakeSecret config) "s hs traffic"
    (hashMessages config g.offer.suite (g.greetings config))

/-- The messages before the CertificateVerify of the server. -/
def certified : List Bytes :=
  g.greetings config ++ [encryptedExtensions] ++
    (if config.context.request then [certificateRequest] else []) ++
    [certificateMessage config.context.certificates]

/-- The messages before the Finished of the server. -/
def verified : List Bytes :=
  g.certified config ++ [certificateVerify config.crypto config.context
    (hashMessages config g.offer.suite (g.certified config))]

/-- The messages up to the Finished of the server. -/
def flight : List Bytes :=
  g.verified config ++ [makeMessage typeFinished (finished config.crypto g.offer.suite
    (g.serverHandshake config) (hashMessages config g.offer.suite (g.verified config)))]

def master : Bytes := masterSecret config.crypto g.offer.suite (g.handshakeSecret config)

def clientTraffic : Bytes :=
  expandLabel config.crypto g.offer.suite (g.master config) "c ap traffic"
    (hashMessages config g.offer.suite (g.flight config))

def serverTraffic : Bytes :=
  expandLabel config.crypto g.offer.suite (g.master config) "s ap traffic"
    (hashMessages config g.offer.suite (g.flight config))

end Greeting

/-- The CertificateVerify of the leaf over messages, of which the body holds a scheme and a
signature. -/
def Verifies (suite : UInt16) (leaf : Certificate) (messages : List Bytes) (body : Bytes) : Prop :=
  let scheme := Reader.read16 { data := body }
  let signature := scheme.2.readVector16
  signature.2.isComplete = true ∧
    verifySignature config leaf scheme.1 signature.1 (hashMessages config suite messages)
      = some true

/-- The messages by which the client authenticates behind those of the flight, if it is
requested to, and the chain that is verified. -/
inductive Authenticates (g : Greeting) : List Certificate → List Bytes → Prop
  | unrequested (request : config.context.request = false) : Authenticates g [] []
  | empty {body : Bytes} (request : config.context.request = true)
      (require : config.context.require = false) (chain : readCertificate config body = .ok []) :
      Authenticates g [] [makeMessage typeCertificate body]
  | verified {body signature : Bytes} {leaf : Certificate} {chain : List Certificate}
      (request : config.context.request = true)
      (parsed : readCertificate config body = .ok (leaf :: chain))
      (trusted : config.crypto.verifyChain (leaf :: chain) config.context.anchors
        config.context.time = none)
      (signed : Verifies config g.offer.suite leaf
        (g.flight config ++ [makeMessage typeCertificate body]) signature) :
      Authenticates g (leaf :: chain)
        [makeMessage typeCertificate body, makeMessage typeCertificateVerify signature]

/-- The Finished of the client behind the messages of its authentication. -/
def Greeting.clientFinished (g : Greeting) (authentication : List Bytes) : Bytes :=
  makeMessage typeFinished (finished config.crypto g.offer.suite (g.clientHandshake config)
    (hashMessages config g.offer.suite (g.flight config ++ authentication)))

/-! ### Connections -/

/-- The handshake content that was sent in clear. -/
def Sealing.greeting : Sealing → Option Bytes
  | .record none type content => if type = contentHandshake then some content else none
  | _ => none

def greetingsOf (log : List Sealing) : List Bytes := log.filterMap Sealing.greeting

/-- A connection that has absorbed the messages. -/
def Absorbed (s : Connection Certificate) (messages : List Bytes) : Prop :=
  s.transcript = ⟨hashOf s.suite, messages.flatten⟩

/-- A connection that has agreed on a greeting, and the keys that follow. -/
structure Agreed (g : Greeting) (s : Connection Certificate) : Prop where
  valid : g.Valid config
  suite : s.suite = g.offer.suite
  group : s.group = g.group
  clientHandshake : s.clientHandshake = g.clientHandshake config
  serverHandshake : s.serverHandshake = g.serverHandshake config
  isProtected : s.send.isProtected = true
  greetings : greetingsOf s.log = g.opening.drop 1 ++ [g.serverHello config]

/-- A connection with the secrets of a greeting for application data, as they were updated. -/
structure Keyed (g : Greeting) (s : Connection Certificate) : Prop where
  agreed : Agreed config g s
  clientTraffic : ∃ n, s.clientTraffic
    = (update config.crypto s.suite)^[n] (g.clientTraffic config)
  serverTraffic : ∃ n, s.serverTraffic
    = (update config.crypto s.suite)^[n] (g.serverTraffic config)

/-- The whole handshake is in the transcript, by the messages of its greeting and of the
client's authentication. -/
def Completed (g : Greeting) (authentication : List Bytes) (s : Connection Certificate) : Prop :=
  Keyed config g s ∧ Authenticates config g s.peer authentication ∧
    Absorbed s (g.flight config ++ authentication ++ [g.clientFinished config authentication])

def Authenticated (s : Connection Certificate) : Prop :=
  ∃ g authentication, Completed config g authentication s

end BitcoinNetwork.Tls
