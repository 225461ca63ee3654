import BitcoinNetwork.Tls.Handshake
import BitcoinNetwork.Tls.Runs

/-!
# The invariant of the handshake (tls/server.cpp)

In every state but failed the transcript is that of the messages so far, each
of which was verified as it was absorbed. A server that is established, or that
has application bytes, has completed the handshake.
-/

namespace BitcoinNetwork.Tls
open Binary

variable {Certificate : Type} (config : Config Certificate)

namespace Connection

/-! ### What sealing changes -/

/-- The connections agree on the secrets and what they follow from. -/
structure SameKeys (s s' : Connection Certificate) : Prop where
  suite : s'.suite = s.suite
  group : s'.group = s.group
  clientHandshake : s'.clientHandshake = s.clientHandshake
  serverHandshake : s'.serverHandshake = s.serverHandshake
  clientTraffic : s'.clientTraffic = s.clientTraffic
  serverTraffic : s'.serverTraffic = s.serverTraffic
  isProtected : s'.send.isProtected = s.send.isProtected
  greetings : greetingsOf s'.log = greetingsOf s.log

/-- The connections agree on what the handshake depends on. -/
structure Same (s s' : Connection Certificate) : Prop extends SameKeys s s' where
  transcript : s'.transcript = s.transcript
  peer : s'.peer = s.peer

theorem sealContent_isProtected (crypto : Crypto Certificate) (r : Record) (type : UInt8)
    (content : Bytes) : (r.sealContent crypto type content).2.isProtected = r.isProtected := by
  unfold Record.sealContent Record.isProtected
  cases h : r.cipher with
  | none => simp only [h]
  | some _ => rfl

theorem greetingsOf_append (log added : List Sealing) :
    greetingsOf (log ++ added) = greetingsOf log ++ greetingsOf added := List.filterMap_append

/-- Contents are sealed behind the output, and are no greetings. -/
def Sends (s s' : Connection Certificate) : Prop :=
  ∃ output send added, s' = { s with output := output, send := send, log := s.log ++ added } ∧
    send.isProtected = s.send.isProtected ∧ greetingsOf added = []

theorem Sends.refl (s : Connection Certificate) : Sends s s :=
  ⟨s.output, s.send, [], by rw [List.append_nil], rfl, rfl⟩

theorem Sends.trans {a b c : Connection Certificate} (h : Sends a b) (h' : Sends b c) :
    Sends a c := by
  obtain ⟨_, _, added, rfl, hp, hg⟩ := h
  obtain ⟨output, send, added', rfl, hp', hg'⟩ := h'
  refine ⟨output, send, added ++ added', ?_, hp'.trans hp, ?_⟩
  · simp only [List.append_assoc]
  · rw [greetingsOf_append, hg, hg']
    rfl

theorem Sends.same {s s' : Connection Certificate} (h : Sends s s') : Same s s' := by
  obtain ⟨_, _, added, rfl, hp, hg⟩ := h
  refine ⟨⟨rfl, rfl, rfl, rfl, rfl, rfl, hp, ?_⟩, rfl, rfl⟩
  rw [greetingsOf_append, hg, List.append_nil]

/-- A record is no greeting if it is protected or not of the handshake. -/
theorem sealRecord_sends (s : Connection Certificate) {type : UInt8} (content : Bytes)
    (h : s.send.isProtected = true ∨ type ≠ contentHandshake) :
    Sends s (s.sealRecord config type content) := by
  refine ⟨_, _, _, rfl, sealContent_isProtected _ _ _ _, ?_⟩
  cases hp : s.send.isProtected with
  | true => rfl
  | false =>
    have ht : type ≠ contentHandshake := h.resolve_left (by rw [hp]; exact Bool.false_ne_true)
    simp only [greetingsOf, List.filterMap_cons, Sealing.greeting, Bool.false_eq_true, reduceIte,
      if_neg ht, List.filterMap_nil]

theorem sendContent_sends (s : Connection Certificate) {type : UInt8} (data : Bytes)
    (h : s.send.isProtected = true ∨ type ≠ contentHandshake) :
    Sends s (s.sendContent config type data) := by
  unfold sendContent
  generalize fragments data.length data = parts
  induction parts generalizing s with
  | nil => exact .refl s
  | cons part parts ih =>
    have hone := sealRecord_sends config s part h
    refine hone.trans (ih _ ?_)
    rwa [hone.same.isProtected]

/-- A failure changes nothing that the handshake depends on. -/
theorem fail_same (s : Connection Certificate) (description : UInt8) :
    Same s (s.fail config description) ∧ (s.fail config description).state = .failed ∧
      (s.fail config description).application = s.application := by
  unfold fail
  cases hf : s.isFailed with
  | true =>
    rw [if_pos rfl]
    exact ⟨(Sends.refl s).same, eq_of_beq hf, rfl⟩
  | false =>
    rw [if_neg Bool.false_ne_true]
    have hsends := sealRecord_sends config { s with state := .failed, failure := description }
      [alertFatal, description] (.inr (by decide : contentAlert ≠ contentHandshake))
    refine ⟨?_, rfl, rfl⟩
    have hs := hsends.same
    exact ⟨⟨hs.suite, hs.group, hs.clientHandshake, hs.serverHandshake, hs.clientTraffic,
      hs.serverTraffic, hs.isProtected, hs.greetings⟩, hs.transcript, hs.peer⟩

end Connection

open Connection
variable {config}

/-! ### The handshake does not depend on what sealing changes -/

theorem Agreed.congr {g : Greeting} {s s' : Connection Certificate} (h : Agreed config g s)
    (hs : SameKeys s s') : Agreed config g s' where
  valid := h.valid
  suite := hs.suite.trans h.suite
  group := hs.group.trans h.group
  clientHandshake := hs.clientHandshake.trans h.clientHandshake
  serverHandshake := hs.serverHandshake.trans h.serverHandshake
  isProtected := hs.isProtected.trans h.isProtected
  greetings := hs.greetings.trans h.greetings

theorem Keyed.congr {g : Greeting} {s s' : Connection Certificate} (h : Keyed config g s)
    (hs : SameKeys s s') : Keyed config g s' where
  agreed := h.agreed.congr hs
  clientTraffic := by
    rw [hs.clientTraffic, hs.suite]
    exact h.clientTraffic
  serverTraffic := by
    rw [hs.serverTraffic, hs.suite]
    exact h.serverTraffic

theorem Absorbed.congr {s s' : Connection Certificate} {messages : List Bytes}
    (h : Absorbed s messages) (hs : Same s s') : Absorbed s' messages := by
  unfold Absorbed at h ⊢
  rw [hs.transcript, hs.suite, h]

theorem Authenticated.congr {s s' : Connection Certificate} (h : Authenticated config s)
    (hs : Same s s') : Authenticated config s' := by
  obtain ⟨g, authentication, hkeyed, hauth, habsorbed⟩ := h
  exact ⟨g, authentication, hkeyed.congr hs.toSameKeys, by rwa [hs.peer], habsorbed.congr hs⟩

/-! ### Messages are absorbed -/

theorem Absorbed.add {s : Connection Certificate} {messages : List Bytes}
    (h : Absorbed s messages) (message : Bytes) :
    Absorbed (s.addTranscript message) (messages ++ [message]) := by
  unfold Absorbed at h ⊢
  simp only [addTranscript, Transcript.write, h, List.flatten_append, List.flatten_cons,
    List.flatten_nil, List.append_nil]

theorem Absorbed.hash {s : Connection Certificate} {messages : List Bytes}
    (h : Absorbed s messages) :
    s.transcriptHash config = hashMessages config s.suite messages := by
  unfold Absorbed at h
  rw [transcriptHash, h]
  rfl

/-! ### Hello -/

namespace Connection

/-- A hello is absorbed, and sent in clear before there are keys. -/
theorem sendHello_spec (s : Connection Certificate) (random session keyShare : Bytes)
    (hp : s.send.isProtected = false) :
    ∃ output send flag log, s.sendHello config random session keyShare =
      { s.addTranscript (helloMessage s.suite random session keyShare) with
        output := output, send := send, compatibilitySent := flag, log := log } ∧
      send.isProtected = false ∧
      greetingsOf log = greetingsOf s.log ++ [helloMessage s.suite random session keyShare] := by
  set hello := helloMessage s.suite random session keyShare with hhello
  set clear := (s.addTranscript hello).sealRecord config contentHandshake hello with hclear
  have hprotected : clear.send.isProtected = false :=
    (sealContent_isProtected _ _ _ _).trans hp
  have hlog : greetingsOf clear.log = greetingsOf s.log ++ [hello] := by
    have hsequence : clear.log = s.log ++ [.record none contentHandshake hello] := by
      rw [hclear, sealRecord]
      simp only [addTranscript, hp, Bool.false_eq_true, reduceIte]
    rw [hsequence, greetingsOf_append]
    rfl
  have hsend : s.sendHello config random session keyShare
      = clear.sendCompatibility config session := rfl
  rw [hsend, sendCompatibility]
  split
  · exact ⟨clear.output, clear.send, clear.compatibilitySent, clear.log, rfl, hprotected, hlog⟩
  · obtain ⟨output, send, added, heq, hsame, hadded⟩ := sealRecord_sends config clear [0x01]
      (.inr (by decide : contentChangeCipherSpec ≠ contentHandshake))
    rw [heq]
    refine ⟨output, send, true, clear.log ++ added, rfl, hsame.trans hprotected, ?_⟩
    rw [greetingsOf_append, hlog, hadded, List.append_nil]

/-- A retry stands behind the hash of the hello that it retries. -/
theorem sendRetry_spec (s : Connection Certificate) (clientHello session : Bytes)
    (hp : s.send.isProtected = false) :
    ∃ output send flag log, s.sendRetry config clientHello session = { s with
      transcript := ((Transcript.reset s.suite).write (hashMessage config.crypto s.suite
        clientHello)).write (helloMessage s.suite retryRandom session (write16 s.group))
      output := output, send := send, compatibilitySent := flag, log := log, state := .retryHello } ∧
      send.isProtected = false ∧ greetingsOf log = greetingsOf s.log ++
        [helloMessage s.suite retryRandom session (write16 s.group)] := by
  obtain ⟨output, send, flag, log, heq, hsend, hlog⟩ := @sendHello_spec _ config
    ({ s with transcript := .reset s.suite }.addTranscript (hashMessage config.crypto s.suite
      clientHello)) retryRandom session (write16 s.group) hp
  refine ⟨output, send, flag, log, ?_, hsend, hlog⟩
  have hretry : s.sendRetry config clientHello session
      = { (({ s with transcript := .reset s.suite }.addTranscript (hashMessage config.crypto s.suite
          clientHello)).sendHello config retryRandom session (write16 s.group)) with
            state := .retryHello } := rfl
  rw [hretry, heq]
  rfl

/-- The second connection is the first, with the messages in its transcript. -/
def Extends (s : Connection Certificate) (messages : List Bytes) (s' : Connection Certificate) :
    Prop := s' = { s with transcript := ⟨hashOf s.suite, messages.flatten⟩ }

theorem Extends.append {s : Connection Certificate} {messages : List Bytes}
    {flight : Connection Certificate × Bytes} (h : Extends s messages flight.1) (message : Bytes) :
    Extends s (messages ++ [message]) (append flight message).1 := by
  unfold Extends at h ⊢
  simp only [Connection.append, addTranscript, Transcript.write, h, List.flatten_append,
    List.flatten_cons, List.flatten_nil, List.append_nil]

theorem Extends.hash {s s' : Connection Certificate} {messages : List Bytes}
    (h : Extends s messages s') :
    s'.transcriptHash config = hashMessages config s.suite messages := by
  rw [h]
  rfl

theorem Extends.verify {s : Connection Certificate} {messages : List Bytes}
    {flight : Connection Certificate × Bytes} (h : Extends s messages flight.1) :
    Extends s (messages ++ [certificateVerify config.crypto config.context
        (hashMessages config s.suite messages)])
      (Connection.append flight (certificateVerify config.crypto config.context
        (flight.1.transcriptHash config))).1 := by
  rw [h.hash]
  exact h.append _

/-- The Finished of the server behind messages. -/
def finishedMessage (config : Config Certificate) (s : Connection Certificate)
    (messages : List Bytes) : Bytes :=
  makeMessage typeFinished (finished config.crypto s.suite s.serverHandshake
    (hashMessages config s.suite messages))

theorem Extends.finish {s : Connection Certificate} {messages : List Bytes}
    {flight : Connection Certificate × Bytes} (h : Extends s messages flight.1) :
    Extends s (messages ++ [finishedMessage config s messages])
      (Connection.append flight (makeMessage typeFinished (finished config.crypto flight.1.suite
        flight.1.serverHandshake (flight.1.transcriptHash config)))).1 := by
  have hsuite : flight.1.suite = s.suite := by rw [h]
  have hsecret : flight.1.serverHandshake = s.serverHandshake := by rw [h]
  rw [h.hash, hsuite, hsecret]
  exact h.append _

/-- The messages of the flight are absorbed as they are made. -/
theorem flightMessages_spec {g : Greeting} {s : Connection Certificate}
    (h : Absorbed s (g.greetings config)) (hs : s.suite = g.offer.suite)
    (hh : s.serverHandshake = g.serverHandshake config) :
    Extends s (g.flight config) (s.flightMessages config).1 := by
  have hempty : Extends s (g.greetings config) (s, ([] : Bytes)).1 := by
    unfold Extends
    rw [← h]
  have hcertified (flight : Connection Certificate × Bytes)
      (hf : flight = if config.context.request then
          append (append (s, []) encryptedExtensions) certificateRequest
        else append (s, []) encryptedExtensions) :
      Extends s (g.certified config)
        (append flight (certificateMessage config.context.certificates)).1 := by
    have hfirst := hempty.append encryptedExtensions
    unfold Greeting.certified
    cases hrequest : config.context.request with
    | true =>
      rw [hrequest] at hf
      rw [hf]
      exact (hfirst.append certificateRequest).append _
    | false =>
      rw [hrequest] at hf
      rw [hf, if_neg Bool.false_ne_true, List.append_nil]
      exact hfirst.append _
  have hverified := @Extends.verify _ config _ _ _ (hcertified _ rfl)
  have hflight : g.flight config = g.certified config ++ [certificateVerify config.crypto
      config.context (hashMessages config s.suite (g.certified config))] ++
      [finishedMessage config s (g.certified config ++ [certificateVerify config.crypto
        config.context (hashMessages config s.suite (g.certified config))])] := by
    rw [finishedMessage, hs, hh]
    rfl
  rw [hflight]
  exact hverified.finish

/-- The flight is sent under the handshake secret, and leaves the secrets of application data. -/
theorem sendFlight_spec {g : Greeting} {s : Connection Certificate}
    (h : Absorbed s (g.greetings config)) (hs : s.suite = g.offer.suite)
    (hh : s.serverHandshake = g.serverHandshake config)
    (hsecret : s.handshakeSecret = g.handshakeSecret config)
    (hp : s.send.isProtected = true) :
    ∃ output send log, s.sendFlight config =
      { s with
        transcript := ⟨hashOf s.suite, (g.flight config).flatten⟩
        output := output, send := send, log := log
        clientTraffic := g.clientTraffic config
        serverTraffic := g.serverTraffic config } ∧
      send.isProtected = true ∧ greetingsOf log = greetingsOf s.log := by
  have hflight := flightMessages_spec h hs hh
  unfold Extends at hflight
  obtain ⟨output, send, added, heq, -, hadded⟩ := sendContent_sends config
    { s with transcript := ⟨hashOf s.suite, (g.flight config).flatten⟩ }
    (s.flightMessages config).2
    (.inl hp : _ ∨ contentHandshake ≠ contentHandshake)
  have htraffic (label : String) : expandLabel config.crypto s.suite
      (masterSecret config.crypto s.suite s.handshakeSecret) label
      (hash config.crypto s.suite (g.flight config).flatten)
        = expandLabel config.crypto g.offer.suite (g.master config) label
          (hashMessages config g.offer.suite (g.flight config)) := by
    rw [hs, hsecret]
    rfl
  unfold sendFlight
  simp only [hflight, heq]
  refine ⟨output, Record.setSecret config.crypto s.suite (g.serverTraffic config),
    s.log ++ added ++ [.secret (g.serverTraffic config)], ?_, rfl, ?_⟩
  · unfold Greeting.clientTraffic Greeting.serverTraffic
    rw [← htraffic, ← htraffic]
    rfl
  · rw [greetingsOf_append, greetingsOf_append, hadded, List.append_nil]
    exact List.append_nil _

end Connection

/-! ### The invariant -/

/-- The messages so far, by the state. -/
def Progress (config : Config Certificate) (s : Connection Certificate) : Prop :=
  match s.state with
  | .clientHello =>
    s.peer = [] ∧ s.send.isProtected = false ∧ greetingsOf s.log = []
  | .retryHello =>
    s.peer = [] ∧ s.send.isProtected = false ∧ ∃ opening,
      Opening config s.suite (some s.group) opening ∧ Absorbed s opening ∧
        greetingsOf s.log = opening.drop 1
  | .clientCertificate =>
    s.peer = [] ∧ config.context.request = true ∧
      ∃ g, Keyed config g s ∧ Absorbed s (g.flight config)
  | .clientCertificateVerify =>
    config.context.request = true ∧ ∃ g body leaf chain, Keyed config g s ∧
      s.peer = leaf :: chain ∧ readCertificate config body = .ok (leaf :: chain) ∧
      config.crypto.verifyChain (leaf :: chain) config.context.anchors config.context.time = none ∧
      Absorbed s (g.flight config ++ [makeMessage typeCertificate body])
  | .clientFinished =>
    ∃ g authentication, Keyed config g s ∧ Authenticates config g s.peer authentication ∧
      Absorbed s (g.flight config ++ authentication)
  | .established => Authenticated config s
  | .failed => True

/-- The hellos that were sent, of which one retries and one accepts. -/
inductive Hellos (config : Config Certificate) : List Bytes → Prop
  | none : Hellos config []
  | retried {suite group : UInt16} {opening : List Bytes}
      (opens : Opening config suite (some group) opening) : Hellos config (opening.drop 1)
  | accepted {g : Greeting} (valid : g.Valid config) :
      Hellos config (g.opening.drop 1 ++ [g.serverHello config])

structure Inv (config : Config Certificate) (s : Connection Certificate) : Prop where
  progress : Progress config s
  readable : s.application ≠ [] → Authenticated config s
  unread : s.state ≠ .established → s.state ≠ .failed → s.application = []
  hellos : Hellos config (greetingsOf s.log)

/-- Before it is established a connection has nothing to be read. -/
theorem Inv.of_progress {s : Connection Certificate} (h : Progress config s)
    (ha : s.application = []) (hh : Hellos config (greetingsOf s.log)) : Inv config s :=
  ⟨h, fun hn => absurd ha hn, fun _ _ => ha, hh⟩

theorem Inv.of_failed {s : Connection Certificate} (hf : s.state = .failed)
    (hr : s.application ≠ [] → Authenticated config s)
    (hh : Hellos config (greetingsOf s.log)) : Inv config s :=
  ⟨by rw [Progress, hf]; trivial, hr, fun _ hn => absurd hf hn, hh⟩

theorem Inv.fail {s : Connection Certificate} (hr : s.application ≠ [] → Authenticated config s)
    (hh : Hellos config (greetingsOf s.log)) (description : UInt8) :
    Inv config (s.fail config description) := by
  obtain ⟨hsame, hstate, happlication⟩ := fail_same config s description
  refine .of_failed hstate (fun hn => ?_) (hsame.greetings ▸ hh)
  rw [happlication] at hn
  exact (hr hn).congr hsame

theorem Keyed.hellos {g : Greeting} {s : Connection Certificate} (h : Keyed config g s) :
    Hellos config (greetingsOf s.log) :=
  h.agreed.greetings ▸ .accepted h.agreed.valid

theorem Inv.established {s : Connection Certificate} (h : Inv config s)
    (he : s.state = .established) : Authenticated config s := by
  have hp := h.progress
  rwa [Progress, he] at hp

/-! ### Handlers -/

/-- The keys of a greeting, and the flight under them. -/
theorem flight_spec {s : Connection Certificate} {g : Greeting} (hvalid : g.Valid config)
    (hs : s.suite = g.offer.suite) (hgroup : s.group = g.group)
    (habsorbed : Absorbed s (g.greetings config))
    (hg : greetingsOf s.log = g.opening.drop 1 ++ [g.serverHello config])
    (hsecret : s.handshakeSecret = g.handshakeSecret config)
    (hclient : s.clientHandshake = g.clientHandshake config)
    (hserver : s.serverHandshake = g.serverHandshake config) :
    let keyed := (s.setSend config s.serverHandshake).setReceive config s.clientHandshake
    Keyed config g (keyed.sendFlight config) ∧
      Absorbed (keyed.sendFlight config) (g.flight config) ∧
      (keyed.sendFlight config).peer = s.peer ∧
      (keyed.sendFlight config).application = s.application := by
  intro keyed
  obtain ⟨output, send, log, heq, hprotected, hlog⟩ :=
    @sendFlight_spec _ config g keyed habsorbed hs hserver hsecret rfl
  rw [heq]
  have hgreetings : greetingsOf log = greetingsOf s.log :=
    hlog.trans ((greetingsOf_append _ _).trans (List.append_nil _))
  exact ⟨⟨⟨hvalid, hs, hgroup, hclient, hserver, hprotected, hgreetings.trans hg⟩,
    ⟨0, rfl⟩, ⟨0, rfl⟩⟩, rfl, rfl, rfl⟩

/-- A ClientHello that is accepted leaves the flight absorbed. -/
theorem acceptHello_spec {s : Connection Certificate} {g : Greeting} (hvalid : g.Valid config)
    (hs : s.suite = g.offer.suite) (hgroup : s.group = g.group)
    (habsorbed : Absorbed s g.opening) (hp : s.send.isProtected = false)
    (hg : greetingsOf s.log = g.opening.drop 1) :
    ∃ s', s.acceptHello config g.clientHello g.offer.session g.shared g.own = { s' with
        state := if config.context.request then .clientCertificate else .clientFinished } ∧
      Keyed config g s' ∧ Absorbed s' (g.flight config) ∧ s'.peer = s.peer ∧
      s'.application = s.application := by
  obtain ⟨output, send, flag, log, heq, -, hlog⟩ := @sendHello_spec _ config
    (s.addTranscript g.clientHello) config.random g.offer.session
    (write16 s.group ++ writeVector16 g.own) hp
  have hhello : helloMessage s.suite config.random g.offer.session
      (write16 s.group ++ writeVector16 g.own) = g.serverHello config := by
    rw [hs, hgroup]
    rfl
  have hsuite : (s.addTranscript g.clientHello).suite = s.suite := rfl
  have hgroup' : (s.addTranscript g.clientHello).group = s.group := rfl
  rw [hsuite, hhello] at heq hlog
  set greeted : Connection Certificate :=
    { (s.addTranscript g.clientHello).addTranscript (g.serverHello config) with
      output := output, send := send, compatibilitySent := flag, log := log } with hgreeted
  have hmessages : Absorbed greeted (g.greetings config) := by
    have hboth := (habsorbed.add g.clientHello).add (g.serverHello config)
    rw [List.append_assoc] at hboth
    exact hboth
  have hhash : greeted.transcriptHash config
      = hashMessages config g.offer.suite (g.greetings config) := by
    have hsame : greeted.suite = g.offer.suite := hs
    rw [hmessages.hash, hsame]
  have hsecret : Tls.handshakeSecret config.crypto s.suite (earlySecret config.crypto s.suite)
      g.shared = g.handshakeSecret config := by
    rw [hs]
    rfl
  have htraffic (label : String) : expandLabel config.crypto s.suite
      (Tls.handshakeSecret config.crypto s.suite (earlySecret config.crypto s.suite) g.shared) label
      (greeted.transcriptHash config) = expandLabel config.crypto g.offer.suite
        (g.handshakeSecret config) label (hashMessages config g.offer.suite (g.greetings config)) := by
    rw [hsecret, hhash, hs]
  set keyed : Connection Certificate := { greeted with
    handshakeSecret := Tls.handshakeSecret config.crypto s.suite
      (earlySecret config.crypto s.suite) g.shared
    clientHandshake := expandLabel config.crypto s.suite
      (Tls.handshakeSecret config.crypto s.suite (earlySecret config.crypto s.suite) g.shared)
      "c hs traffic" (greeted.transcriptHash config)
    serverHandshake := expandLabel config.crypto s.suite
      (Tls.handshakeSecret config.crypto s.suite (earlySecret config.crypto s.suite) g.shared)
      "s hs traffic" (greeted.transcriptHash config) } with hkeyed
  have hgreetings : greetingsOf keyed.log = g.opening.drop 1 ++ [g.serverHello config] := by
    rw [← hg]
    exact hlog
  obtain ⟨hk, ha, hpeer, happlication⟩ := @flight_spec _ config keyed g hvalid hs hgroup hmessages
    hgreetings hsecret (htraffic _) (htraffic _)
  refine ⟨_, ?_, hk, ha, hpeer, happlication⟩
  unfold acceptHello
  dsimp only
  rw [hgroup', heq]
  rfl

/-- A ClientHello behind a retry offers the suite of the first. -/
theorem readOffer_suite {curve : Curve} {suite : UInt16} {body : Bytes} {offer : Offer}
    {retry : UInt16} (h : readOffer curve (some suite) body = .ok (offer, retry)) :
    offer.suite = suite := by
  unfold readOffer at h
  dsimp only at h
  repeat' split at h
  all_goals cases h
  rename_i hsame _ _ _ _ _ _
  by_contra hne
  exact hsame ⟨Option.some_ne_none _, .inl fun hc => hne (Option.some.inj hc).symm⟩

theorem Opening.suite_eq {suite suite' : UInt16} {retried : Option UInt16} {opening : List Bytes}
    (h : Opening config suite retried opening) (hs : suite' = suite) :
    Opening config suite' retried opening := hs ▸ h

/-- The connection of `acceptHello_spec` awaits what the client authenticates by. -/
theorem Inv.accepted {s accepted : Connection Certificate} {g : Greeting}
    (h : ∃ s', accepted = { s' with
        state := if config.context.request then .clientCertificate else .clientFinished } ∧
      Keyed config g s' ∧ Absorbed s' (g.flight config) ∧ s'.peer = s.peer ∧
      s'.application = s.application)
    (hpeer : s.peer = []) (ha : s.application = []) : Inv config accepted := by
  obtain ⟨s', rfl, hkeyed, habsorbed, hpeer', ha'⟩ := h
  have hgreeted : Hellos config (greetingsOf s'.log) := hkeyed.hellos
  have hnone : s'.peer = [] := hpeer'.trans hpeer
  cases hrequest : config.context.request with
  | true =>
    simp only [reduceIte]
    have hsame : Keyed config g { s' with state := .clientCertificate } :=
      hkeyed.congr ⟨rfl, rfl, rfl, rfl, rfl, rfl, rfl, rfl⟩
    exact .of_progress ⟨hnone, hrequest, g, hsame, habsorbed⟩ (ha'.trans ha) hgreeted
  | false =>
    simp only [Bool.false_eq_true, reduceIte]
    have hsame : Keyed config g { s' with state := .clientFinished } :=
      hkeyed.congr ⟨rfl, rfl, rfl, rfl, rfl, rfl, rfl, rfl⟩
    have hauth : Authenticates config g s'.peer [] := by
      rw [hnone]
      exact .unrequested hrequest
    refine .of_progress ⟨g, [], hsame, hauth, ?_⟩ (ha'.trans ha) hgreeted
    rw [List.append_nil]
    exact habsorbed

/-- A ClientHello is refused, retried or accepted. -/
theorem Inv.clientHello {s : Connection Certificate} (h : Inv config s)
    (hstate : s.state = .clientHello) (body : Bytes) :
    Inv config (s.handleClientHello config (makeMessage typeClientHello body) body) := by
  have ha := h.unread (by rw [hstate]; nofun) (by rw [hstate]; nofun)
  have hp := h.progress
  rw [Progress, hstate] at hp
  obtain ⟨hpeer, hclear, hlog⟩ := hp
  have hretried : (s.state == State.retryHello) = false := by rw [hstate]; rfl
  unfold handleClientHello
  simp only [hretried, Bool.false_eq_true, reduceIte, false_and]
  cases hoffer : readOffer config.context.curve none body with
  | error alert => exact .fail h.readable h.hellos alert
  | ok result =>
    obtain ⟨offer, retry⟩ := result
    simp only
    cases hgroup : offer.group with
    | none =>
      have hopening := Opening.retried hoffer hgroup
      set reset : Connection Certificate :=
        { s with suite := offer.suite, transcript := .reset offer.suite, group := retry }
      obtain ⟨output, send, flag, log, heq, hsend, hsent⟩ := @sendRetry_spec _ config reset
        (makeMessage typeClientHello body) offer.session hclear
      have hlast : greetingsOf log
          = [helloMessage offer.suite retryRandom offer.session (write16 retry)] := by
        refine hsent.trans ?_
        have hnone : greetingsOf s.log = [] := hlog
        exact congrArg (· ++ _) hnone
      simp only
      rw [heq]
      refine .of_progress ⟨hpeer, hsend, _, hopening, ?_, hlast⟩ ha ?_
      · unfold Absorbed
        simp only [addTranscript, Transcript.write, Transcript.reset, List.nil_append,
          List.flatten_cons, List.flatten_nil, List.append_nil]
        rfl
      · exact hlast ▸ Hellos.retried hopening
    | some group =>
      simp only
      set reset : Connection Certificate :=
        { s with suite := offer.suite, transcript := .reset offer.suite, group := group }
      cases hexchange : exchange config group (offer.shareOf group) with
      | none =>
        show Inv config (reset.fail config alertIllegalParameter)
        exact Inv.fail (s := reset) (fun hn => absurd ha hn) h.hellos _
      | some keys =>
        obtain ⟨shared, own⟩ := keys
        show Inv config (reset.acceptHello config _ offer.session shared own)
        set g : Greeting := ⟨[], none, body, offer, group, shared, own⟩
        have hvalid : g.Valid config := ⟨.first, ⟨retry, hoffer⟩, hgroup, nofun, hexchange⟩
        exact .accepted (@acceptHello_spec _ config reset g hvalid rfl rfl rfl hclear hlog) hpeer ha

/-- A ClientHello behind a retry is refused or accepted. -/
theorem Inv.retryHello {s : Connection Certificate} (h : Inv config s)
    (hstate : s.state = .retryHello) (body : Bytes) :
    Inv config (s.handleClientHello config (makeMessage typeClientHello body) body) := by
  have ha := h.unread (by rw [hstate]; nofun) (by rw [hstate]; nofun)
  have hp := h.progress
  rw [Progress, hstate] at hp
  obtain ⟨hpeer, hclear, opening, hopening, habsorbed, hlog⟩ := hp
  have hretried : (s.state == State.retryHello) = true := by rw [hstate]; rfl
  unfold handleClientHello
  simp only [hretried, reduceIte, true_and]
  cases hoffer : readOffer config.context.curve (some s.suite) body with
  | error alert => exact .fail h.readable h.hellos alert
  | ok result =>
    obtain ⟨offer, retry⟩ := result
    have hsuite : offer.suite = s.suite := readOffer_suite hoffer
    simp only
    cases hgroup : offer.group with
    | none =>
      exact Inv.fail (s := { s with suite := offer.suite }) (fun hn => absurd ha hn) h.hellos _
    | some group =>
      simp only
      by_cases hg : group = s.group
      · have hsame : { s with suite := offer.suite, group := group } = s := by rw [hsuite, hg]
        rw [if_neg (not_not.2 hg), hsame]
        cases hexchange : exchange config group (offer.shareOf group) with
        | none =>
          show Inv config (s.fail config alertIllegalParameter)
          exact .fail h.readable h.hellos _
        | some keys =>
          obtain ⟨shared, own⟩ := keys
          show Inv config (s.acceptHello config _ offer.session shared own)
          set g : Greeting := ⟨opening, some s.group, body, offer, group, shared, own⟩
          have hvalid : g.Valid config := by
            refine ⟨hopening.suite_eq hsuite, ⟨retry, ?_⟩, hgroup, ?_, hexchange⟩
            · show readOffer _ (some offer.suite) body = _
              rw [hsuite, hoffer]
            · intro agreed ha
              exact hg.trans (Option.some.inj ha)
          exact .accepted (@acceptHello_spec _ config s g hvalid hsuite.symm hg.symm habsorbed
            hclear hlog) hpeer ha
      · rw [if_pos hg]
        exact Inv.fail (s := { s with suite := offer.suite }) (fun hn => absurd ha hn) h.hellos _

/-- A Certificate is refused, or absorbed with its chain verified. -/
theorem Inv.certificate {s : Connection Certificate} (h : Inv config s)
    (hstate : s.state = .clientCertificate) (body : Bytes) :
    Inv config (s.handleCertificate config (makeMessage typeCertificate body) body) := by
  have ha := h.unread (by rw [hstate]; nofun) (by rw [hstate]; nofun)
  have hp := h.progress
  rw [Progress, hstate] at hp
  obtain ⟨hpeer, hrequest, g, hkeyed, habsorbed⟩ := hp
  have hadded := habsorbed.add (makeMessage typeCertificate body)
  have hfailed (alert : UInt8) :
      Inv config ((s.addTranscript (makeMessage typeCertificate body)).fail config alert) :=
    Inv.fail (s := s.addTranscript _) (fun hn => absurd ha hn) h.hellos alert
  unfold handleCertificate
  cases hread : readCertificate config body with
  | error alert => exact .fail h.readable h.hellos alert
  | ok chain =>
    cases chain with
    | nil =>
      simp only
      cases hrequire : config.context.require with
      | true =>
        rw [if_pos rfl]
        exact hfailed _
      | false =>
        rw [if_neg Bool.false_ne_true]
        refine .of_progress ⟨g, [makeMessage typeCertificate body], ?_, ?_, hadded⟩ ha h.hellos
        · exact hkeyed.congr ⟨rfl, rfl, rfl, rfl, rfl, rfl, rfl, rfl⟩
        · show Authenticates config g s.peer _
          rw [hpeer]
          exact .empty hrequest hrequire hread
    | cons leaf chain =>
      simp only
      cases hchain : config.crypto.verifyChain (leaf :: chain) config.context.anchors
        config.context.time with
      | some ec => exact hfailed _
      | none =>
        show Inv config { s.addTranscript (makeMessage typeCertificate body) with
          peer := leaf :: chain, state := .clientCertificateVerify }
        refine .of_progress ⟨hrequest, g, body, leaf, chain, ?_, rfl, hread, hchain, hadded⟩ ha
          h.hellos
        exact hkeyed.congr ⟨rfl, rfl, rfl, rfl, rfl, rfl, rfl, rfl⟩

/-- A CertificateVerify is refused, or absorbed as the leaf of the chain signs it. -/
theorem Inv.certificateVerify {s : Connection Certificate} (h : Inv config s)
    (hstate : s.state = .clientCertificateVerify) (body : Bytes) :
    Inv config (s.handleCertificateVerify config (makeMessage typeCertificateVerify body) body) := by
  have ha := h.unread (by rw [hstate]; nofun) (by rw [hstate]; nofun)
  have hp := h.progress
  rw [Progress, hstate] at hp
  obtain ⟨hrequest, g, certificate, leaf, chain, hkeyed, hpeer, hread, hchain, habsorbed⟩ := hp
  have hhash := @Absorbed.hash _ config _ _ habsorbed
  unfold handleCertificateVerify
  simp only [hpeer]
  by_cases hcomplete : (Reader.read16 { data := body }).2.readVector16.2.isComplete = true
  · rw [if_neg (not_not.2 hcomplete)]
    cases hverify : verifySignature config leaf (Reader.read16 { data := body }).1
        (Reader.read16 { data := body }).2.readVector16.1 (s.transcriptHash config) with
    | none => exact .fail h.readable h.hellos _
    | some valid =>
      cases valid with
      | false => exact .fail h.readable h.hellos _
      | true =>
        have hsigned : Verifies config g.offer.suite leaf
            (g.flight config ++ [makeMessage typeCertificate certificate]) body := by
          refine ⟨hcomplete, ?_⟩
          rw [← hkeyed.agreed.suite, ← hhash]
          exact hverify
        have hauth := Authenticates.verified (g := g) hrequest hread hchain hsigned
        have hadded := habsorbed.add (makeMessage typeCertificateVerify body)
        rw [List.append_assoc] at hadded
        show Inv config { s.addTranscript (makeMessage typeCertificateVerify body) with
          state := .clientFinished }
        refine .of_progress ⟨g, _, ?_, ?_, hadded⟩ ha h.hellos
        · exact hkeyed.congr ⟨rfl, rfl, rfl, rfl, rfl, rfl, rfl, rfl⟩
        · show Authenticates config g s.peer _
          rw [hpeer]
          exact hauth
  · rw [if_pos hcomplete]
    exact .fail h.readable h.hellos _

/-- The only way to be established: the Finished of the messages so far. -/
theorem Inv.finished {s : Connection Certificate} (h : Inv config s)
    (hstate : s.state = .clientFinished) (body : Bytes) :
    Inv config (s.handleFinished config (makeMessage typeFinished body) body) := by
  have ha := h.unread (by rw [hstate]; nofun) (by rw [hstate]; nofun)
  have hp := h.progress
  rw [Progress, hstate] at hp
  obtain ⟨g, authentication, hkeyed, hauth, habsorbed⟩ := hp
  have hhash := @Absorbed.hash _ config _ _ habsorbed
  have hmessage : makeMessage typeFinished (Tls.finished config.crypto s.suite s.clientHandshake
      (s.transcriptHash config)) = g.clientFinished config authentication := by
    rw [hhash, hkeyed.agreed.suite, hkeyed.agreed.clientHandshake]
    rfl
  unfold handleFinished
  simp only
  by_cases hbody : body = Tls.finished config.crypto s.suite s.clientHandshake
    (s.transcriptHash config)
  · rw [if_neg (not_not.2 hbody), hbody, hmessage]
    have hadded := habsorbed.add (g.clientFinished config authentication)
    have hkeyed' : Keyed config g { (s.addTranscript (g.clientFinished config
        authentication)).setReceive config s.clientTraffic with state := .established } :=
      hkeyed.congr ⟨rfl, rfl, rfl, rfl, rfl, rfl, rfl, rfl⟩
    exact .of_progress ⟨g, authentication, hkeyed', hauth, hadded⟩ ha h.hellos
  · rw [if_pos hbody]
    exact .fail h.readable h.hellos _

/-- An established connection stays so under keys of the greeting. -/
theorem Authenticated.keyed {s s' : Connection Certificate} (h : Authenticated config s)
    (hk : ∀ g, Keyed config g s → Keyed config g s') (hs : s'.suite = s.suite)
    (ht : s'.transcript = s.transcript) (hp : s'.peer = s.peer) : Authenticated config s' := by
  obtain ⟨g, authentication, hkeyed, hauth, habsorbed⟩ := h
  refine ⟨g, authentication, hk g hkeyed, by rwa [hp], ?_⟩
  unfold Absorbed at habsorbed ⊢
  rw [ht, hs, habsorbed]

/-- The key that is sent with changes behind the update. -/
theorem Authenticated.sendUpdate {s : Connection Certificate} (h : Authenticated config s) :
    Authenticated config (s.sendUpdate config) ∧ (s.sendUpdate config).state = s.state ∧
      (s.sendUpdate config).application = s.application ∧
      greetingsOf (s.sendUpdate config).log = greetingsOf s.log := by
  obtain ⟨g, authentication, hkeyed, -, -⟩ := id h
  have hsends := sendContent_sends config s keyUpdate
    (.inl hkeyed.agreed.isProtected : _ ∨ contentHandshake ≠ contentHandshake)
  obtain ⟨output, send, added, heq, hprotected, hadded⟩ := hsends
  unfold Connection.sendUpdate
  simp only [heq, setSend]
  have hlog (traffic : Bytes) : greetingsOf (s.log ++ added ++ [.secret traffic])
      = greetingsOf s.log := by
    rw [greetingsOf_append, greetingsOf_append, hadded, List.append_nil]
    exact List.append_nil _
  refine ⟨h.keyed (fun g hkeyed => ?_) rfl rfl rfl, trivial, trivial, hlog _⟩
  obtain ⟨n, hn⟩ := hkeyed.serverTraffic
  refine ⟨⟨hkeyed.agreed.valid, hkeyed.agreed.suite, hkeyed.agreed.group,
    hkeyed.agreed.clientHandshake, hkeyed.agreed.serverHandshake, rfl,
    (hlog _).trans hkeyed.agreed.greetings⟩, hkeyed.clientTraffic, ⟨n + 1, ?_⟩⟩
  show update config.crypto s.suite s.serverTraffic
    = (update config.crypto s.suite)^[n + 1] (g.serverTraffic config)
  rw [hn, Function.iterate_succ_apply']

theorem Inv.of_established {s : Connection Certificate} (he : s.state = .established)
    (h : Authenticated config s) : Inv config s := by
  have hhellos : Hellos config (greetingsOf s.log) := by
    obtain ⟨g, authentication, hkeyed, -, -⟩ := id h
    exact hkeyed.hellos
  exact ⟨by rw [Progress, he]; exact h, fun _ => h, fun hn => absurd he hn, hhellos⟩

theorem Inv.keyUpdate {s : Connection Certificate} (h : Inv config s)
    (hstate : s.state = .established) (body : Bytes) :
    Inv config (s.handleKeyUpdate config body) := by
  have hauth := h.established hstate
  unfold handleKeyUpdate
  split
  · rename_i request
    by_cases hrequest : request ≠ 0 ∧ request ≠ 1
    · rw [if_pos hrequest]
      exact .fail h.readable h.hellos _
    · rw [if_neg hrequest]
      have hupdated : Authenticated config (({ s with
          clientTraffic := update config.crypto s.suite s.clientTraffic }).setReceive config
            (update config.crypto s.suite s.clientTraffic)) := by
        refine hauth.keyed (fun g hkeyed => ?_) rfl rfl rfl
        obtain ⟨n, hn⟩ := hkeyed.clientTraffic
        refine ⟨⟨hkeyed.agreed.valid, hkeyed.agreed.suite, hkeyed.agreed.group,
          hkeyed.agreed.clientHandshake, hkeyed.agreed.serverHandshake, hkeyed.agreed.isProtected,
          hkeyed.agreed.greetings⟩, ⟨n + 1, ?_⟩, hkeyed.serverTraffic⟩
        show update config.crypto s.suite s.clientTraffic
          = (update config.crypto s.suite)^[n + 1] (g.clientTraffic config)
        rw [hn, Function.iterate_succ_apply']
      dsimp only
      split
      · have hsent := hupdated.sendUpdate
        exact .of_established (hsent.2.1.trans hstate) hsent.1
      · exact .of_established hstate hupdated
  · exact .fail h.readable h.hellos _

/-! ### Steps -/

/-- Every message leads to a state of the invariant. -/
theorem Inv.message {s : Connection Certificate} (h : Inv config s) (type : UInt8) (body : Bytes) :
    Inv config (s.handleMessage config type (makeMessage type body) body) := by
  have hunexpected := Inv.fail h.readable h.hellos alertUnexpectedMessage
  unfold handleMessage
  cases hstate : s.state with
  | clientHello =>
    simp only
    split
    · rename_i htype
      rw [htype]
      exact h.clientHello hstate body
    · exact hunexpected
  | retryHello =>
    simp only
    split
    · rename_i htype
      rw [htype]
      exact h.retryHello hstate body
    · exact hunexpected
  | clientCertificate =>
    simp only
    split
    · rename_i htype
      rw [htype]
      exact h.certificate hstate body
    · exact hunexpected
  | clientCertificateVerify =>
    simp only
    split
    · rename_i htype
      rw [htype]
      exact h.certificateVerify hstate body
    · exact hunexpected
  | clientFinished =>
    simp only
    split
    · rename_i htype
      rw [htype]
      exact h.finished hstate body
    · exact hunexpected
  | established =>
    simp only
    split
    · exact h.keyUpdate hstate body
    · exact hunexpected
  | failed => exact hunexpected

/-- The progress does not see what is received. -/
theorem Progress.congr {s s' : Connection Certificate} (h : Progress config s) (hs : Same s s')
    (hstate : s'.state = s.state) : Progress config s' := by
  unfold Progress at h ⊢
  rw [hstate]
  cases hcase : s.state with
  | clientHello =>
    rw [hcase] at h
    exact ⟨hs.peer.trans h.1, hs.isProtected.trans h.2.1, hs.greetings.trans h.2.2⟩
  | retryHello =>
    rw [hcase] at h
    obtain ⟨hpeer, hclear, opening, hopening, habsorbed, hlog⟩ := h
    refine ⟨hs.peer.trans hpeer, hs.isProtected.trans hclear, opening, ?_, habsorbed.congr hs,
      hs.greetings.trans hlog⟩
    rwa [hs.suite, hs.group]
  | clientCertificate =>
    rw [hcase] at h
    obtain ⟨hpeer, hrequest, g, hkeyed, habsorbed⟩ := h
    exact ⟨hs.peer.trans hpeer, hrequest, g, hkeyed.congr hs.toSameKeys, habsorbed.congr hs⟩
  | clientCertificateVerify =>
    rw [hcase] at h
    obtain ⟨hrequest, g, body, leaf, chain, hkeyed, hpeer, hread, hchain, habsorbed⟩ := h
    exact ⟨hrequest, g, body, leaf, chain, hkeyed.congr hs.toSameKeys, hs.peer.trans hpeer, hread,
      hchain, habsorbed.congr hs⟩
  | clientFinished =>
    rw [hcase] at h
    obtain ⟨g, authentication, hkeyed, hauth, habsorbed⟩ := h
    refine ⟨g, authentication, hkeyed.congr hs.toSameKeys, ?_, habsorbed.congr hs⟩
    rwa [hs.peer]
  | established =>
    rw [hcase] at h
    exact Authenticated.congr h hs
  | failed => trivial

theorem Inv.congr {s s' : Connection Certificate} (h : Inv config s) (hs : Same s s')
    (hstate : s'.state = s.state) (ha : s'.application = s.application) : Inv config s' := by
  refine ⟨h.progress.congr hs hstate, fun hn => (h.readable (by rwa [← ha])).congr hs, ?_,
    hs.greetings ▸ h.hellos⟩
  rw [hstate, ha]
  exact h.unread

/-- What is received does not concern the handshake. -/
theorem Inv.received {s : Connection Certificate} (h : Inv config s) (handshake : Bytes)
    (receive : Record) : Inv config { s with handshake := handshake, receive := receive } :=
  h.congr ⟨⟨rfl, rfl, rfl, rfl, rfl, rfl, rfl, rfl⟩, rfl, rfl⟩ rfl rfl

/-- What is sealed under keys leaves the invariant. -/
theorem Inv.sends {s s' : Connection Certificate} (h : Inv config s) (hs : Sends s s') :
    Inv config s' := by
  have hsame := hs.same
  obtain ⟨output, send, added, rfl, -, -⟩ := hs
  exact h.congr hsame rfl rfl

theorem Inv.write {s : Connection Certificate} (h : Inv config s) (data : Bytes) :
    Inv config (s.write config data).1 := by
  unfold Connection.write
  split
  · exact h
  · rename_i hwritable
    have he : s.state = .established := by
      by_contra hn
      refine hwritable (.inl fun hestablished => hn (eq_of_beq hestablished))
    have happlication : contentApplicationData ≠ contentHandshake := by decide
    dsimp only
    split
    · have hsent := (h.established he).sendUpdate
      exact (Inv.of_established (hsent.2.1.trans he) hsent.1).sends
        (sendContent_sends config _ data (.inr happlication))
    · exact h.sends (sendContent_sends config s data (.inr happlication))

theorem Inv.close {s : Connection Certificate} (h : Inv config s) :
    Inv config (s.close config) := by
  unfold Connection.close
  split
  · exact h
  · have hsent := h.sends (sealRecord_sends config s [alertWarning, alertCloseNotify]
      (.inr (by decide : contentAlert ≠ contentHandshake)))
    exact hsent.congr ⟨⟨rfl, rfl, rfl, rfl, rfl, rfl, rfl, rfl⟩, rfl, rfl⟩ rfl rfl

theorem Inv.read {s : Connection Certificate} (h : Inv config s) (size : ℕ) :
    Inv config (s.read size).2 := by
  have hsame : Same s (s.read size).2 := ⟨⟨rfl, rfl, rfl, rfl, rfl, rfl, rfl, rfl⟩, rfl, rfl⟩
  refine ⟨h.progress.congr hsame rfl, fun hn => ?_, fun he hf => ?_, h.hellos⟩
  · have hdropped : s.application.drop size ≠ [] := hn
    refine (h.readable fun hempty => hdropped ?_).congr hsame
    rw [hempty, List.drop_nil]
  · show s.application.drop size = []
    rw [h.unread he hf, List.drop_nil]

/-- No step of a server leaves the invariant. -/
theorem inv_steps : Steps config (Inv config) fun _ => True where
  initial := .of_progress ⟨rfl, rfl, rfl⟩ rfl .none
  fail h alert := .fail h.readable h.hellos alert
  received h handshake receive := h.received handshake receive
  message h type body := h.message type body
  closed h := h.congr ⟨⟨rfl, rfl, rfl, rfl, rfl, rfl, rfl, rfl⟩, rfl, rfl⟩ rfl rfl
  alerted h description := by
    refine .of_failed rfl (fun hn => (h.readable hn).congr ?_) h.hellos
    exact ⟨⟨rfl, rfl, rfl, rfl, rfl, rfl, rfl, rfl⟩, rfl, rfl⟩
  readable h established content := by
    refine .of_established established ((h.established established).congr ?_)
    exact ⟨⟨rfl, rfl, rfl, rfl, rfl, rfl, rfl, rfl⟩, rfl, rfl⟩
  write h data _ := h.write data
  read h size := h.read size
  close h := h.close
  consume h size := h.congr ⟨⟨rfl, rfl, rfl, rfl, rfl, rfl, rfl, rfl⟩, rfl, rfl⟩ rfl rfl

/-- Every run of a server is in the invariant. -/
theorem inv_run (calls : List Server.Call) : Inv config (Server.run config calls).connection :=
  inv_steps.run fun _ _ => trivial

end BitcoinNetwork.Tls
