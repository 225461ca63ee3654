import BitcoinNetwork.Zmtp.Reading

/-!
# The gate of a handshake (zmtp/stream.cpp)

Whatever the peer sends and whatever becomes of the writes, the handler of a
handshake is invoked once, and is given success only behind each check of the
greeting and of the mechanism that is configured.
-/

namespace BitcoinNetwork.Zmtp
open Binary Async

/-! ### The greeting -/

/-- What a greeting has, that is accepted. -/
structure Greeted (context : Context) (asServer : Bool) (greeting : Bytes) : Prop where
  length : greeting.length = greetingSize
  signature : greeting.getD 0 0 = 0xff ∧ greeting.getD 9 0 &&& 1 ≠ 0
  major : 3 ≤ greeting.getD 10 0
  mechanism : (greeting.drop 12).take mechanismSize =
    mechanismField (if context.curve then mechanismCurve else mechanismNull)
  roles : context.curve = true → asServer = true ∧ greeting.getD 32 0 = 0

theorem matchesName_eq {field name : Bytes} (hname : name.length ≤ mechanismSize)
    (hfield : mechanismSize ≤ field.length) (h : matchesName field name = true) :
    field.take mechanismSize = mechanismField name := by
  unfold matchesName at h
  obtain ⟨hfront, hrest⟩ := Bool.and_eq_true_iff.mp h
  have hlength : (field.take mechanismSize).length = mechanismSize := by
    rw [List.length_take]
    omega
  have htake : (field.take mechanismSize).take name.length = name := by
    rw [List.take_take, Nat.min_eq_left hname]
    exact eq_of_beq hfront
  have hdrop : (field.take mechanismSize).drop name.length =
      List.replicate (mechanismSize - name.length) 0 := by
    apply List.eq_replicate_iff.mpr
    refine ⟨by rw [List.length_drop, hlength], ?_⟩
    intro byte hbyte
    exact eq_of_beq (List.all_eq_true.mp hrest byte hbyte)
  calc field.take mechanismSize
      = (field.take mechanismSize).take name.length ++
          (field.take mechanismSize).drop name.length := (List.take_append_drop _ _).symm
    _ = mechanismField name := by rw [htake, hdrop, mechanismField]

/-- A greeting is accepted for what it has. -/
theorem parseGreeting_some {greeting : Bytes} {minor : UInt8} {curve peerServer : Bool}
    (h : parseGreeting greeting = some (minor, curve, peerServer)) :
    greeting.length = greetingSize ∧
      (greeting.getD 0 0 = 0xff ∧ greeting.getD 9 0 &&& 1 ≠ 0) ∧ 3 ≤ greeting.getD 10 0 ∧
      (greeting.drop 12).take mechanismSize =
        mechanismField (if curve then mechanismCurve else mechanismNull) ∧
      peerServer = (greeting.getD 32 0 != 0) := by
  unfold parseGreeting at h
  by_cases hlength : greeting.length = greetingSize
  · rw [if_neg (not_not.mpr hlength)] at h
    have hfield : mechanismSize ≤ (greeting.drop (signatureSize + 2)).length := by
      rw [List.length_drop, hlength]
      decide
    by_cases hsigned : signed greeting = true
    · rw [if_neg (not_not.mpr hsigned)] at h
      have hsignature : greeting.getD 0 0 = 0xff ∧ greeting.getD 9 0 &&& 1 ≠ 0 := by
        unfold signed at hsigned
        obtain ⟨hfirst, hlast⟩ := Bool.and_eq_true_iff.mp hsigned
        exact ⟨eq_of_beq hfirst, bne_iff_ne.mp hlast⟩
      by_cases hmajor : greeting.getD signatureSize 0 < revisionMajor
      · rw [if_pos hmajor] at h
        exact absurd h nofun
      · rw [if_neg hmajor] at h
        simp only [] at h
        refine ⟨hlength, hsignature, UInt8.not_lt.mp hmajor, ?_⟩
        by_cases hnull : matchesName (greeting.drop (signatureSize + 2)) mechanismNull = true
        · rw [if_pos hnull] at h
          obtain ⟨-, rfl, rfl⟩ := Prod.mk.inj (Option.some.inj h) |>.imp id Prod.mk.inj
          exact ⟨matchesName_eq (by decide) hfield hnull, rfl⟩
        · rw [if_neg hnull] at h
          by_cases hcurve : matchesName (greeting.drop (signatureSize + 2)) mechanismCurve = true
          · rw [if_pos hcurve] at h
            obtain ⟨-, rfl, rfl⟩ := Prod.mk.inj (Option.some.inj h) |>.imp id Prod.mk.inj
            exact ⟨matchesName_eq (by decide) hfield hcurve, rfl⟩
          · rw [if_neg hcurve] at h
            exact absurd h nofun
    · rw [if_pos hsigned] at h
      exact absurd h nofun
  · rw [if_pos hlength] at h
    exact absurd h nofun

/-! ### What the cipher accepted -/

/-- The key that a HELLO has for the client. -/
def helloKey (hello : Bytes) : Bytes := (hello.drop 80).take keySize

/-- A HELLO is opened under the keys of the server and of the client. -/
structure Welcomed (primitives : Primitives) (c : Cipher) (draw : Cipher.WelcomeDraw)
    (hello : Bytes) (c' : Cipher) : Prop where
  server : c'.server = c.server ∧ c'.publicKey = c.publicKey
  client : c'.peerTransient = helloKey hello
  transient : c'.transientSecret = draw.transient.secret.toList
  cookie : c'.cookieKey = draw.cookieKey.toList
  opened : ∃ shared plain, derive primitives c.secret (helloKey hello) = some shared ∧
    openBox primitives shared (shortNonce prefixHello (shortNonceValue hello 112))
      (hello.drop 120) = some plain

theorem accept_fields (c : Cipher) (nonce : ℕ) :
    (c.accept nonce).1.publicKey = c.publicKey ∧ (c.accept nonce).1.secret = c.secret ∧
      (c.accept nonce).1.peerTransient = c.peerTransient ∧
      (c.accept nonce).1.transientSecret = c.transientSecret ∧
      (c.accept nonce).1.server = c.server := by
  unfold Cipher.accept
  split <;> exact ⟨rfl, rfl, rfl, rfl, rfl⟩

theorem welcome_some {primitives : Primitives} {c c' : Cipher} {draw : Cipher.WelcomeDraw}
    {hello welcome : Bytes} (h : c.welcome primitives draw hello = (c', some welcome)) :
    Welcomed primitives c draw hello c' := by
  unfold Cipher.welcome at h
  split at h
  next => exact absurd (Prod.mk.inj h).2 nofun
  next =>
    simp only [] at h
    split at h
    next => exact absurd (Prod.mk.inj h).2 nofun
    next =>
      split at h
      next => exact absurd (Prod.mk.inj h).2 nofun
      next shared hshared =>
        split at h
        next => exact absurd (Prod.mk.inj h).2 nofun
        next =>
          split at h
          next => exact absurd (Prod.mk.inj h).2 nofun
          next plain hplain =>
            obtain ⟨hpublic, -, hclient, -, hserver⟩ := accept_fields
              { c with
                peerTransient := (hello.drop 80).take keySize
                helloBox := some shared } (shortNonceValue hello 112)
            obtain ⟨rfl, -⟩ := Prod.mk.inj h
            exact ⟨⟨hserver, hpublic⟩, hclient, rfl, rfl, shared, plain, hshared, hplain⟩

/-- An INITIATE has the cookie of the connection, and in its box the key of the client
and a vouch: the client's transient key and the server's key, in a box of the client's
key. -/
structure Vouched (primitives : Primitives) (c : Cipher) (initiate : Bytes) (c' : Cipher)
    (metadata : Bytes) : Prop where
  cookie : ∃ state, openBox primitives c.cookieKey
      (longNonce prefixCookie ((initiate.drop 9).take longNonceSize))
      ((initiate.drop 25).take 80) = some state ∧
    state.take keySize = c.peerTransient ∧ (state.drop keySize).take keySize = c.transientSecret
  vouch : ∃ session content vouchKey keys,
    derive primitives c.transientSecret c.peerTransient = some session ∧
    openBox primitives session (shortNonce prefixInitiate (shortNonceValue initiate 105))
      (initiate.drop 113) = some content ∧
    c'.peer = content.take keySize ∧
    derive primitives c.transientSecret c'.peer = some vouchKey ∧
    openBox primitives vouchKey (longNonce prefixVouch ((content.drop keySize).take longNonceSize))
      ((content.drop 48).take 80) = some keys ∧
    keys.take keySize = c.peerTransient ∧ (keys.drop keySize).take keySize = c.publicKey ∧
    c'.sessionBox = some session ∧ metadata = content.drop 128

theorem openVouch_some {primitives : Primitives} {c c' : Cipher}
    {session content metadata ready peerMetadata : Bytes}
    (h : c.openVouch primitives session content metadata = (c', some (ready, peerMetadata))) :
    ∃ vouchKey keys, c'.peer = content.take keySize ∧
      derive primitives c.transientSecret c'.peer = some vouchKey ∧
      openBox primitives vouchKey
        (longNonce prefixVouch ((content.drop keySize).take longNonceSize))
        ((content.drop 48).take 80) = some keys ∧
      keys.take keySize = c.peerTransient ∧ (keys.drop keySize).take keySize = c.publicKey ∧
      c'.sessionBox = c.sessionBox ∧ peerMetadata = content.drop 128 := by
  unfold Cipher.openVouch at h
  split at h
  next => exact absurd (Prod.mk.inj h).2 nofun
  next =>
    simp only [] at h
    split at h
    next => exact absurd (Prod.mk.inj h).2 nofun
    next vouchKey hvouchKey =>
      split at h
      next => exact absurd (Prod.mk.inj h).2 nofun
      next keys hkeys =>
        split at h
        next => exact absurd (Prod.mk.inj h).2 nofun
        next hsame =>
          obtain ⟨hclient, hserver⟩ := not_or.mp hsame
          obtain ⟨rfl, hout⟩ := Prod.mk.inj h
          obtain ⟨-, rfl⟩ := Prod.mk.inj (Option.some.inj hout)
          exact ⟨vouchKey, keys, rfl, hvouchKey, hkeys, (not_not.mp hclient).symm,
            (not_not.mp hserver).symm, rfl, rfl⟩

theorem ready_some {primitives : Primitives} {c c' : Cipher}
    {initiate metadata ready peerMetadata : Bytes}
    (h : c.ready primitives initiate metadata = (c', some (ready, peerMetadata))) :
    Vouched primitives c initiate c' peerMetadata := by
  unfold Cipher.ready at h
  split at h
  next => exact absurd (Prod.mk.inj h).2 nofun
  next =>
    simp only [] at h
    split at h
    next => exact absurd (Prod.mk.inj h).2 nofun
    next state hstate =>
      split at h
      next => exact absurd (Prod.mk.inj h).2 nofun
      next hsame =>
        obtain ⟨hclient, hsecret⟩ := not_or.mp hsame
        split at h
        next => exact absurd (Prod.mk.inj h).2 nofun
        next session hsession =>
          split at h
          next => exact absurd (Prod.mk.inj h).2 nofun
          next haccept =>
            split at h
            next => exact absurd (Prod.mk.inj h).2 nofun
            next content hcontent =>
              have hbox : (Cipher.accept { c with sessionBox := some session }
                  (shortNonceValue initiate 105)).1.sessionBox = some session := by
                unfold Cipher.accept
                split <;> rfl
              obtain ⟨hpublic, -, htransient, hsecretKey, -⟩ := accept_fields
                { c with sessionBox := some session } (shortNonceValue initiate 105)
              obtain ⟨vouchKey, keys, hpeer, hvouchKey, hkeys, hkeysClient, hkeysServer,
                hsessionBox, hmetadata⟩ := openVouch_some h
              refine ⟨⟨state, hstate, (not_not.mp hclient).symm, (not_not.mp hsecret).symm⟩,
                session, content, vouchKey, keys, hsession, hcontent, hpeer, ?_, hkeys, ?_, ?_,
                hsessionBox.trans hbox, hmetadata⟩
              · rw [← hvouchKey]
                exact congrArg (fun secret => derive primitives secret c'.peer) hsecretKey.symm
              · exact hkeysClient.trans htransient
              · exact hkeysServer.trans hpublic

/-! ### A frame of the handshake -/

theorem Framed.of_length {flags : UInt8} {length body : Bytes}
    (hlength : length.length = if flags &&& flagLong ≠ 0 then 8 else 1)
    (hbody : body.length = ofBytes length) :
    Framed ⟨flags, body⟩ (flags :: (length ++ body)) := by
  have hmax := ofBytes_lt length
  have hbytes := toBytes_ofBytes length
  by_cases hlong : flags &&& flagLong = 0
  · rw [if_neg (not_not.mpr hlong)] at hlength
    rw [hlength, ← hbody] at hbytes hmax
    rw [← hbytes]
    exact @Framed.short ⟨flags, body⟩ hlong (hmax.trans_le (by norm_num))
  · rw [if_pos hlong] at hlength
    rw [hlength, ← hbody] at hbytes hmax
    rw [← hbytes]
    exact @Framed.long ⟨flags, body⟩ hlong (hmax.trans_le (by norm_num))

section
variable {primitives : Primitives} {α : Type} {required : α → Transport → Prop}

/-- The rule of a frame that is read where there are no boxes. -/
theorem once_readFrame {s : Stream} (hs : s.secured = false) {maximum : ℕ}
    {handler : Stream → Except Code Frame → Program α} {t : Transport}
    (failed : ∀ code t', code ≠ .success → Program.Once required (handler s (.error code)) t')
    (read : ∀ frame bytes rest, Framed frame bytes → t.input = bytes ++ rest →
      Program.Once required (handler s (.ok frame)) { t with input := rest }) :
    Program.Once required (s.asyncReadFrame primitives maximum handler) t := by
  have hbody (frame : Frame) : s.handleFrameBody primitives frame handler = handler s (.ok frame) :=
    if_pos (by rw [hs]; exact Bool.false_ne_true)
  unfold Stream.asyncReadFrame
  apply Program.Once.read
  · intro _
    exact failed _ _ nofun
  intro flags rest hinput hflags
  obtain ⟨flags, rfl⟩ := List.length_eq_one_iff.mp hflags
  apply Program.Once.read
  · intro _
    exact failed _ _ nofun
  intro length rest' hrest hlength
  have hrest : rest = length ++ rest' := hrest
  show Program.Once required (s.handleFrameLength primitives flags (ofBytes length) maximum
    handler) { t with input := rest' }
  unfold Stream.handleFrameLength
  split
  next => exact failed _ _ nofun
  next =>
    split
    next hempty =>
      rw [hbody]
      have hframed := @Framed.of_length flags length [] hlength hempty.symm
      rw [List.append_nil] at hframed
      refine read ⟨flags, []⟩ _ rest' hframed ?_
      rw [hinput, hrest]
      rfl
    next =>
      apply Program.Once.read
      · intro _
        exact failed _ _ nofun
      intro body rest'' hrest' hsize
      have hrest' : rest' = body ++ rest'' := hrest'
      show Program.Once required (s.handleFrameBody primitives ⟨flags, body⟩ handler)
        { t with input := rest'' }
      rw [hbody]
      refine read ⟨flags, body⟩ _ rest'' (Framed.of_length hlength hsize) ?_
      rw [hinput, hrest, hrest', List.cons_append, List.cons_append, List.append_assoc]
      rfl

/-! ### What success stands for -/

/-- The properties of a peer: a socket type that is compatible, and its identity. -/
structure Properties (role : Role) (metadata identity : Bytes) : Prop where
  type : ∃ type, readyProperty socketTypeProperty metadata = some (some type) ∧
    role.compatible type = true
  identity : identity = ((readyProperty identityProperty metadata).join).getD []

/-- Under NULL the first frame is a READY. -/
def PlainAdmitted (role : Role) (rest : Bytes) (s : Stream) : Prop :=
  ∃ ready bytes rest' metadata, Framed ready bytes ∧ rest = bytes ++ rest' ∧
    ready.command = true ∧ nameOf ready.body = some (nameReady, metadata) ∧
    Properties role metadata s.identity

/-- Under CURVE the cipher accepts a HELLO and then an INITIATE, the client is
authorized, and the WELCOME and the READY are written. -/
def CurveAdmitted (primitives : Primitives) (context : Context) (role : Role)
    (draw : Cipher.WelcomeDraw) (rest : Bytes) (s : Stream) (t t' : Transport) : Prop :=
  ∃ hello helloBytes initiate initiateBytes c₁ c₂ welcome ready metadata,
    Framed hello helloBytes ∧ Framed initiate initiateBytes ∧
    rest = helloBytes ++ (initiateBytes ++ t'.input) ∧
    hello.command = true ∧ initiate.command = true ∧
    (Cipher.ofServer context.keys).welcome primitives draw hello.body = (c₁, some welcome) ∧
    c₁.ready primitives initiate.body (makeProperty socketTypeProperty role.socketType) =
      (c₂, some (ready, metadata)) ∧
    Welcomed primitives (Cipher.ofServer context.keys) draw hello.body c₁ ∧
    Vouched primitives c₁ initiate.body c₂ metadata ∧
    context.authorized c₂.peer = true ∧ Properties role metadata s.identity ∧
    s.cipher = some c₂ ∧
    t'.written = t.written ++ [(makeGreeting true true, none),
      (frameEncode welcome true false, none), (frameEncode ready true false, none)]

/-- What the handler of a handshake is given. -/
def Gated (primitives : Primitives) (context : Context) (role : Role) (draw : Cipher.WelcomeDraw)
    (asServer : Bool) (t : Transport) (result : Stream × Code) (t' : Transport) : Prop :=
  (result.1.secured = true → context.curve = true ∧ result.2 = .success) ∧
  (result.2 = .success → ∃ greeting rest, t.input = greeting ++ rest ∧
    Greeted context asServer greeting ∧
    (context.curve = false → PlainAdmitted role rest result.1) ∧
    (context.curve = true → result.1.secured = true ∧
      CurveAdmitted primitives context role draw rest result.1 t t'))

/-- The handler of the caller. -/
def report (s : Stream) (code : Code) : Program (Stream × Code) := .handle (s, code) .stop

/-! ### The chain -/

variable {context : Context} {role : Role} {draw : Cipher.WelcomeDraw} {asServer : Bool}

/-- A handshake that fails. -/
theorem once_failed {s : Stream} (hs : s.secured = false) (code : Code) (hcode : code ≠ .success)
    (t t' : Transport) :
    Program.Once (Gated primitives context role draw asServer t) (report s code) t' := by
  apply Program.Once.handle_stop
  refine ⟨fun h => ?_, fun h => absurd h hcode⟩
  rw [hs] at h
  exact absurd h Bool.false_ne_true

theorem once_failHandshake {s : Stream} (hs : s.secured = false) (reason : Bytes)
    (t t' : Transport) : Program.Once (Gated primitives context role draw asServer t)
      (s.failHandshake reason report) t' :=
  .write (once_failed hs .protocolViolation nofun t _)

/-- What is checked of the properties, and what becomes of the stream. -/
theorem compatible_cases (s : Stream) (hidentity : s.identity = []) (metadata : Bytes) :
    (∃ identity, s.compatible metadata = ({ s with identity := identity }, false)) ∨
      ∃ identity, s.compatible metadata = ({ s with identity := identity }, true) ∧
        Properties s.role metadata identity := by
  unfold Stream.compatible
  cases htype : (readyProperty socketTypeProperty metadata).join with
  | none => exact .inl ⟨s.identity, rfl⟩
  | some type =>
    simp only []
    by_cases hcompatible : s.role.compatible type = true
    · rw [if_neg (not_not.mpr hcompatible)]
      refine .inr ⟨_, rfl, ⟨type, Option.join_eq_some_iff.mp htype, hcompatible⟩, ?_⟩
      rw [hidentity]
    · rw [if_pos hcompatible]
      exact .inl ⟨s.identity, rfl⟩

/-- The READY of a peer, under NULL. -/
theorem once_handleReady {s : Stream} (hs : s.secured = false) (hidentity : s.identity = [])
    (hrole : s.role = role) (hcurve : context.curve = false) {t t' : Transport}
    {greeting rest : Bytes} (hinput : t.input = greeting ++ rest)
    (hgreeting : Greeted context asServer greeting) {ready : Frame} {bytes rest' : Bytes}
    (hframed : Framed ready bytes) (hrest : rest = bytes ++ rest') :
    Program.Once (Gated primitives context role draw asServer t)
      (Stream.handleReady report s (.ok ready)) t' := by
  unfold Stream.handleReady
  by_cases hcommand : ready.command = true
  · simp only [hcommand]
    rw [if_neg (by simp)]
    cases hname : nameOf ready.body with
    | none => exact once_failHandshake hs _ t _
    | some named =>
      obtain ⟨name, metadata⟩ := named
      simp only []
      by_cases hready : name = nameReady
      · rw [if_neg (not_not.mpr hready)]
        rcases compatible_cases s hidentity metadata with
          ⟨identity, hchecked⟩ | ⟨identity, hchecked, hproperties⟩
        · rw [hchecked, if_pos Bool.false_ne_true]
          exact once_failHandshake (s := { s with identity := identity }) hs _ t _
        · rw [hchecked, if_neg (by simp)]
          apply Program.Once.handle_stop
          refine ⟨fun h => absurd (hs.symm.trans h) Bool.false_ne_true, fun _ => ?_⟩
          refine ⟨greeting, rest, hinput, hgreeting, fun _ => ?_, fun h => ?_⟩
          · rw [hready] at hname
            exact ⟨ready, bytes, rest', metadata, hframed, hrest, hcommand, hname,
              hrole ▸ hproperties⟩
          · exact absurd (hcurve.symm.trans h) Bool.false_ne_true
      · rw [if_pos hready]
        exact once_failHandshake hs _ t _
  · simp only [hcommand]
    rw [if_pos (by simp)]
    exact once_failHandshake hs _ t _

theorem once_writeReady {s : Stream} (hs : s.secured = false) (hidentity : s.identity = [])
    (hrole : s.role = role) (hcurve : context.curve = false) {t t' : Transport}
    {greeting rest : Bytes} (hinput : t.input = greeting ++ rest)
    (hgreeting : Greeted context asServer greeting) (hrest : t'.input = rest) :
    Program.Once (Gated primitives context role draw asServer t)
      (s.writeReady primitives report) t' := by
  unfold Stream.writeReady
  apply Program.Once.write
  cases (t'.write (makeReady s.role)).1 with
  | some fault => exact once_failed hs (.transport fault) nofun t _
  | none =>
    apply once_readFrame hs
    · intro code t'' hcode
      exact once_failed hs code hcode t t''
    · intro ready bytes rest' hframed hinput'
      exact once_handleReady hs hidentity hrole hcurve hinput hgreeting hframed
        (hrest.symm.trans hinput')

/-- The INITIATE of a client, behind a HELLO that the cipher accepted. -/
theorem once_handleInitiate {s : Stream} (hs : s.secured = false) (hidentity : s.identity = [])
    (hrole : s.role = role) (hcontext : s.context = context) (hcurve : context.curve = true)
    {t t' : Transport} {greeting rest : Bytes} (hinput : t.input = greeting ++ rest)
    (hgreeting : Greeted context asServer greeting) {hello initiate : Frame}
    {helloBytes initiateBytes welcome : Bytes} {c₁ : Cipher} (hcipher : s.cipher = some c₁)
    (hframed : Framed hello helloBytes) (hframed' : Framed initiate initiateBytes)
    (hrest : rest = helloBytes ++ (initiateBytes ++ t'.input)) (hhello : hello.command = true)
    (hwelcome : (Cipher.ofServer context.keys).welcome primitives draw hello.body =
      (c₁, some welcome))
    (hwritten : t'.written = t.written ++ [(makeGreeting true true, none),
      (frameEncode welcome true false, none)]) :
    Program.Once (Gated primitives context role draw asServer t)
      (Stream.handleInitiate primitives report s (.ok initiate)) t' := by
  unfold Stream.handleInitiate
  simp only [hcipher]
  cases hname : nameOf initiate.body with
  | none => exact once_failHandshake hs _ t _
  | some named =>
    obtain ⟨name, content⟩ := named
    simp only []
    split
    next => exact once_failHandshake hs _ t _
    next hcommand =>
      have hcommand : initiate.command = true := not_not.mp (not_or.mp hcommand).1
      rcases hresult : c₁.ready primitives initiate.body
        (makeProperty socketTypeProperty s.role.socketType) with ⟨c₂, _ | ⟨ready, metadata⟩⟩
      · exact once_failHandshake (s := { s with cipher := some c₂ }) hs _ t _
      · simp only []
        split
        next => exact once_failHandshake (s := { s with cipher := some c₂ }) hs _ t _
        next hauthorized =>
          rw [hcontext] at hauthorized
          rcases compatible_cases { s with cipher := some c₂ } hidentity metadata with
            ⟨identity, hchecked⟩ | ⟨identity, hchecked, hproperties⟩
          · rw [hchecked, if_pos Bool.false_ne_true]
            exact once_failHandshake (s := { s with cipher := some c₂, identity := identity }) hs _
              t _
          · rw [hchecked, if_neg (by simp)]
            apply Program.Once.write
            cases hwrite : t'.results.headD none with
            | some fault =>
              show Program.Once _ (Stream.handleCurveReadySent report _ (t'.results.headD none)) _
              rw [hwrite]
              exact once_failed (s := { s with cipher := some c₂, identity := identity }) hs
                (.transport fault) nofun t _
            | none =>
              show Program.Once _ (Stream.handleCurveReadySent report _ (t'.results.headD none)) _
              rw [hwrite]
              apply Program.Once.handle_stop
              refine ⟨fun _ => ⟨hcurve, rfl⟩, fun _ => ?_⟩
              refine ⟨greeting, rest, hinput, hgreeting, fun h => ?_, fun _ => ⟨rfl, ?_⟩⟩
              · exact absurd (hcurve.symm.trans h) nofun
              · refine ⟨hello, helloBytes, initiate, initiateBytes, c₁, c₂, welcome, ready, metadata,
                  hframed, hframed', hrest, hhello, hcommand, hwelcome, hrole ▸ hresult,
                  welcome_some hwelcome, ready_some hresult, not_not.mp hauthorized,
                  hrole ▸ hproperties, rfl, ?_⟩
                show t'.written ++ [(frameEncode ready true false, t'.results.headD none)] = _
                rw [hwritten, hwrite, List.append_assoc]
                rfl

/-- The HELLO of a client, and what follows the WELCOME. -/
theorem once_handleHello {s : Stream} (hs : s.secured = false) (hidentity : s.identity = [])
    (hrole : s.role = role) (hcontext : s.context = context) (hcurve : context.curve = true)
    (hcipher : s.cipher = some (Cipher.ofServer context.keys)) {t t' : Transport}
    {greeting rest : Bytes} (hinput : t.input = greeting ++ rest)
    (hgreeting : Greeted context asServer greeting) {hello : Frame} {helloBytes : Bytes}
    (hframed : Framed hello helloBytes) (hrest : rest = helloBytes ++ t'.input)
    (hwritten : t'.written = t.written ++ [(makeGreeting true true, none)]) :
    Program.Once (Gated primitives context role draw asServer t)
      (Stream.handleHello primitives draw report s (.ok hello)) t' := by
  unfold Stream.handleHello
  simp only [hcipher]
  cases hname : nameOf hello.body with
  | none => exact once_failHandshake hs _ t _
  | some named =>
    obtain ⟨name, content⟩ := named
    simp only []
    split
    next => exact once_failHandshake hs _ t _
    next hcommand =>
      have hcommand : hello.command = true := not_not.mp (not_or.mp hcommand).1
      rcases hresult : (Cipher.ofServer context.keys).welcome primitives draw hello.body with
        ⟨c₁, _ | welcome⟩
      · exact once_failHandshake (s := { s with cipher := some c₁ }) hs _ t _
      · apply Program.Once.write
        cases hwrite : t'.results.headD none with
        | some fault =>
          have hsent : (t'.write (frameEncode welcome true false)).1 = some fault := hwrite
          rw [hsent]
          exact once_failed (s := { s with cipher := some c₁ }) hs (.transport fault) nofun t _
        | none =>
          have hsent : (t'.write (frameEncode welcome true false)).1 = none := hwrite
          rw [hsent]
          apply once_readFrame (s := { s with cipher := some c₁ }) hs
          · intro code t'' hcode
            exact once_failed (s := { s with cipher := some c₁ }) hs code hcode t t''
          · intro initiate initiateBytes rest' hframed' hinput'
            have hinput' : t'.input = initiateBytes ++ rest' := hinput'
            apply once_handleInitiate (s := { s with cipher := some c₁ }) hs hidentity hrole
              hcontext hcurve hinput hgreeting rfl hframed hframed' (hinput' ▸ hrest) hcommand
              hresult
            show t'.written ++ [(frameEncode welcome true false, t'.results.headD none)] = _
            rw [hwritten, hwrite, List.append_assoc]
            rfl

theorem once_stage2 {s : Stream} (hs : s = Stream.create context role) {t t' : Transport}
    (greeting rest : Bytes) (hinput : t.input = greeting ++ rest) (hrest : t'.input = rest)
    (hwritten : t'.written = t.written ++ [(makeGreeting asServer context.curve, none)]) :
    Program.Once (Gated primitives context role draw asServer t)
      (s.handleGreetingStage2 primitives draw asServer greeting report) t' := by
  have hsecured : s.secured = false := by rw [hs]; rfl
  have hidentity : s.identity = [] := by rw [hs]; rfl
  have hrole : s.role = role := by rw [hs]; rfl
  have hcontext : s.context = context := by rw [hs]; rfl
  have hcipher : s.cipher = if context.curve then some (Cipher.ofServer context.keys) else none := by
    rw [hs]; rfl
  have hsome : s.cipher.isSome = context.curve := by
    rw [hcipher]
    cases context.curve <;> rfl
  unfold Stream.handleGreetingStage2
  rcases hparse : parseGreeting greeting with _ | ⟨minor, curve, peerServer⟩
  · exact once_failed hsecured .protocolViolation nofun t _
  · simp only []
    split
    next => exact once_failHandshake hsecured _ t _
    next hmatch =>
      obtain ⟨hmechanism, hroles⟩ := not_or.mp hmatch
      have hcurve : curve = context.curve := (not_not.mp hmechanism).trans hsome
      obtain ⟨hlength, hsignature, hmajor, hfield, hpeerServer⟩ := parseGreeting_some hparse
      have hgreeting : Greeted context asServer greeting := by
        refine ⟨hlength, hsignature, hmajor, hcurve ▸ hfield, fun h => ?_⟩
        have hboth := not_and.mp hroles (hcurve.trans h)
        obtain ⟨hpeer, hself⟩ := not_or.mp hboth
        refine ⟨not_not.mp hself, ?_⟩
        rw [hpeerServer] at hpeer
        exact not_not.mp fun hne => hpeer (bne_iff_ne.mpr hne)
      cases hcontextCurve : context.curve with
      | false =>
        rw [if_neg (by rw [hcurve, hcontextCurve]; exact Bool.false_ne_true)]
        exact once_writeReady hsecured hidentity hrole hcontextCurve hinput hgreeting hrest
      | true =>
        have hself := (hgreeting.roles hcontextCurve).1
        rw [hcontextCurve] at hcipher hwritten
        rw [hself] at hwritten
        rw [if_pos (by rw [hcurve, hcontextCurve])]
        apply once_readFrame hsecured
        · intro code t'' hcode
          exact once_failed hsecured code hcode t t''
        · intro hello helloBytes rest' hframed hinput'
          exact once_handleHello hsecured hidentity hrole hcontext hcontextCurve hcipher hinput
            hgreeting hframed (hrest.symm.trans hinput') hwritten

/-- The handler of a handshake is invoked once, and given success only behind the gate. -/
theorem asyncHandshake_gated (primitives : Primitives) (context : Context) (role : Role)
    (draw : Cipher.WelcomeDraw) (asServer : Bool) (t : Transport) :
    Program.Once (Gated primitives context role draw asServer t)
      ((Stream.create context role).asyncHandshake primitives draw asServer report) t := by
  have hsecured : (Stream.create context role).secured = false := rfl
  have hsome : (Stream.create context role).cipher.isSome = context.curve := by
    unfold Stream.create
    cases context.curve <;> rfl
  unfold Stream.asyncHandshake
  apply Program.Once.write
  rw [hsome]
  cases hwrite : t.results.headD none with
  | some fault =>
    have hsent : (t.write (makeGreeting asServer context.curve)).1 = some fault := hwrite
    rw [hsent]
    exact once_failed hsecured (.transport fault) nofun t _
  | none =>
    have hsent : (t.write (makeGreeting asServer context.curve)).1 = none := hwrite
    rw [hsent]
    apply Program.Once.read
    · intro _
      exact once_failed hsecured (.transport t.fault) nofun t _
    intro stage1 rest hinput hlength
    have hinput : t.input = stage1 ++ rest := hinput
    show Program.Once _ (Stream.handleGreetingStage1 primitives (Stream.create context role) draw
      asServer stage1 report) _
    unfold Stream.handleGreetingStage1
    split
    next => exact once_failed hsecured .protocolViolation nofun t _
    next =>
      apply Program.Once.read
      · intro _
        exact once_failed hsecured (.transport t.fault) nofun t _
      intro stage2 rest' hrest hlength'
      have hrest : rest = stage2 ++ rest' := hrest
      apply once_stage2 rfl (stage1 ++ stage2) rest'
      · rw [hinput, hrest, List.append_assoc]
      · rfl
      · show t.written ++ [(makeGreeting asServer context.curve, t.results.headD none)] = _
        rw [hwrite]

end

end BitcoinNetwork.Zmtp
