import BitcoinNetwork.Tls.Authentication

/-!
# What a server that is established has verified (tls/server.cpp)

The gate of client authentication and the transcript of the handshake, of every
run of a server. Signatures, certificates and hashes are those of the primitives.
-/

namespace BitcoinNetwork.Tls
open Binary Connection

variable {Certificate : Type} {config : Config Certificate}

/-! ### The gate -/

/-- What a client was verified by: its Finished over the messages before it, and by any chain
it has, of which the leaf signed the messages before its CertificateVerify. -/
structure Gate (config : Config Certificate) (s : Connection Certificate) : Prop where
  finished : ∃ messages, Absorbed s (messages ++ [makeMessage typeFinished
    (Tls.finished config.crypto s.suite s.clientHandshake (hashMessages config s.suite messages))])
  required : config.context.request = true → config.context.require = true → s.peer ≠ []
  verified : s.peer ≠ [] →
    config.crypto.verifyChain s.peer config.context.anchors config.context.time = none ∧
    ∃ leaf messages body rest, s.peer.head? = some leaf ∧
      Absorbed s (messages ++ makeMessage typeCertificateVerify body :: rest) ∧
      Verifies config s.suite leaf messages body

theorem Authenticated.gate {s : Connection Certificate} (h : Authenticated config s) :
    Gate config s := by
  obtain ⟨g, authentication, hkeyed, hauth, habsorbed⟩ := h
  have hsuite := hkeyed.agreed.suite
  have hsecret := hkeyed.agreed.clientHandshake
  refine ⟨⟨g.flight config ++ authentication, ?_⟩, ?_, ?_⟩
  · rw [hsuite, hsecret]
    exact habsorbed
  · intro hrequest hrequire
    generalize s.peer = peer at hauth
    cases hauth with
    | unrequested request => exact absurd (request.symm.trans hrequest) Bool.false_ne_true
    | empty _ require => exact absurd (require.symm.trans hrequire) Bool.false_ne_true
    | verified => exact List.cons_ne_nil _ _
  · intro hpeer
    generalize s.peer = peer at hauth hpeer
    cases hauth with
    | unrequested => exact absurd rfl hpeer
    | empty => exact absurd rfl hpeer
    | @verified body signature leaf chain _ _ trusted signed =>
      refine ⟨trusted, leaf, g.flight config ++ [makeMessage typeCertificate body], signature,
        [g.clientFinished config [makeMessage typeCertificate body,
          makeMessage typeCertificateVerify signature]], rfl, ?_, hsuite ▸ signed⟩
      simp only [List.append_assoc, List.cons_append, List.nil_append] at habsorbed ⊢
      exact habsorbed

/-- No connection is established, readable or written to but behind the gate. -/
theorem established_gate (config : Config Certificate) (calls : List Server.Call) :
    let s := (Server.run config calls).connection
    (s.isEstablished = true → Gate config s) ∧ (s.application ≠ [] → Gate config s) ∧
      ∀ data, (s.write config data).2 = true → s.isEstablished = true ∧ Gate config s := by
  intro s
  have hinv : Inv config s := inv_run calls
  have hestablished (he : s.isEstablished = true) : Gate config s :=
    (hinv.established (eq_of_beq he)).gate
  refine ⟨hestablished, fun hn => (hinv.readable hn).gate, fun data hw => ?_⟩
  unfold Connection.write at hw
  split at hw
  · exact absurd hw Bool.false_ne_true
  · rename_i hwritable
    have he : s.isEstablished = true := by
      by_contra hn
      exact hwritable (.inl hn)
    exact ⟨he, hestablished he⟩

/-- A server that is established has the messages of the handshake in its transcript, in their
order and of the values that follow, and retries once at most. -/
theorem established_transcript (config : Config Certificate) (calls : List Server.Call) :
    let s := (Server.run config calls).connection
    (s.isEstablished = true → Authenticated config s) ∧ Hellos config (greetingsOf s.log) := by
  intro s
  have hinv : Inv config s := inv_run calls
  exact ⟨fun he => hinv.established (eq_of_beq he), hinv.hellos⟩

/-! ### A run -/

/-- Primitives without secrets, for a run. -/
def plainCrypto : Crypto Bytes where
  hash h _ := Vector.replicate h.size 0
  hmac h _ _ := Vector.replicate h.size 0
  extract h _ _ := Vector.replicate h.size 0
  expand _ _ _ size := Vector.replicate size 0
  encrypt _ _ _ _ text := text ++ List.replicate tagSize 0
  decrypt _ _ _ _ text := some (text.take (text.length - tagSize))
  multiply _ point := some point
  multiplyBase secret := secret
  pointSize _ := 1
  publicKey _ secret := some secret
  agree _ _ peer := some peer
  sign _ _ digest := digest.take 64
  verify _ _ signature digest := signature == digest
  parse der := some der
  verifyChain _ _ _ := none
  curve _ := some .secp256r1
  key certificate := certificate

/-- A server that requires a certificate. -/
def plainConfig : Config Bytes where
  crypto := plainCrypto
  context := ⟨[[7]], .secp256r1, [3], [], true, true, 0, fun _ => rfl⟩
  random := List.replicate 32 1
  ephemeral := List.replicate 32 2
  generate _ := [5]

/-- A ClientHello of TLS 1.3 with shares. -/
def plainHello (share : Bytes) : Bytes :=
  write16 legacyVersion ++ List.replicate 32 9 ++ writeVector8 [] ++
    writeVector16 (write16 aes128GcmSha256) ++ writeVector8 [0] ++ writeVector16 (
      write16 extensionSupportedVersions ++ writeVector16 (writeVector8 (write16 version13)) ++
      write16 extensionSupportedGroups ++ writeVector16 (writeVector16 (write16 secp256r1Group)) ++
      write16 extensionSignatureAlgorithms ++
        writeVector16 (writeVector16 (write16 ecdsaSecp256r1Sha256)) ++
      write16 extensionKeyShare ++ writeVector16 (writeVector16 share))

/-- A record of handshake messages in clear. -/
def clearRecord (content : Bytes) : Bytes :=
  contentHandshake :: write16 legacyVersion ++ writeVector16 content

/-- A record as `plainCrypto` protects it. -/
def protectedRecord (type : UInt8) (content : Bytes) : Bytes :=
  contentApplicationData :: write16 legacyVersion ++
    writeVector16 (content ++ [type] ++ List.replicate tagSize 0)

/-- A client that is retried, authenticates and sends. -/
def plainCalls : List Server.Call :=
  [.receive (clearRecord (makeMessage typeClientHello (plainHello []))),
   .receive (clearRecord (makeMessage typeClientHello
      (plainHello (write16 secp256r1Group ++ writeVector16 [8])))),
   .receive (protectedRecord contentHandshake (makeMessage typeCertificate
      (writeVector8 [] ++ writeVector24 (writeVector24 [4] ++ write16 0)))),
   .receive (protectedRecord contentHandshake (makeMessage typeCertificateVerify
      (write16 ecdsaSecp256r1Sha256 ++ writeVector16 (List.replicate 32 0)))),
   .receive (protectedRecord contentHandshake (makeMessage typeFinished (List.replicate 32 0))),
   .receive (protectedRecord contentApplicationData [1, 2, 3])]

theorem established_gate_retried :
    let s := (Server.run plainConfig plainCalls).connection
    s.peer = [[4]] ∧ s.application = [1, 2, 3] ∧ Gate plainConfig s := by
  intro s
  have he : s.isEstablished = true := by decide +kernel
  refine ⟨by decide +kernel, by decide +kernel, ?_⟩
  exact (established_gate plainConfig plainCalls).1 he

theorem established_transcript_retried :
    let s := (Server.run plainConfig plainCalls).connection
    (greetingsOf s.log).length = 2 ∧ Authenticated plainConfig s := by
  intro s
  have he : s.isEstablished = true := by decide +kernel
  refine ⟨by decide +kernel, ?_⟩
  exact (established_transcript plainConfig plainCalls).1 he

end BitcoinNetwork.Tls
