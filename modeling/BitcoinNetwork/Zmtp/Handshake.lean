import BitcoinNetwork.Zmtp.Cipher

/-!
# The commands of a handshake, exchanged unmodified (zmtp/cipher.cpp)

Each command is read where it is written: what a side puts into a box, and in
front of it, is what the other finds there.
-/

namespace BitcoinNetwork.Zmtp
open Binary
open Http (ascii)

/-! ### Reading what is written -/

theorem drop_nameBytes (name rest : Bytes) :
    (nameBytes name ++ rest).drop (1 + name.length) = rest := by
  apply List.drop_left'
  rw [nameBytes, List.length_cons]
  omega

theorem named_nameBytes (name rest : Bytes) : named (nameBytes name ++ rest) name = true := by
  have hlength : name.length < (nameBytes name ++ rest).length := by
    rw [List.length_append, nameBytes, List.length_cons]
    omega
  unfold named
  rw [decide_eq_true hlength]
  simp [nameBytes]

/-- A part of bytes, behind what is dropped. -/
theorem drop_add_of_eq {bytes front rest : Bytes} {offset size : ℕ}
    (h : bytes.drop offset = front ++ rest) (hsize : front.length = size) :
    bytes.drop (offset + size) = rest := by
  rw [← List.drop_drop, h]
  exact List.drop_left' hsize

theorem take_of_eq {bytes front rest : Bytes} {offset size : ℕ}
    (h : bytes.drop offset = front ++ rest) (hsize : front.length = size) :
    (bytes.drop offset).take size = front := by
  rw [h]
  exact List.take_left' hsize

theorem shortNonceValue_of_eq {bytes rest : Bytes} {offset value : ℕ}
    (h : bytes.drop offset = toBytes 8 value ++ rest) (hvalue : value < 2 ^ 64) :
    shortNonceValue bytes offset = value := by
  unfold shortNonceValue
  rw [take_of_eq h (toBytes_length 8 value)]
  exact ofBytes_toBytes (hvalue.trans_le (by norm_num))

@[simp] theorem key_length (key : Key) : key.toList.length = keySize := Vector.length_toList

@[simp] theorem longNonce_length (nonce : LongNonce) : nonce.toList.length = longNonceSize :=
  Vector.length_toList

/-! ### Primitives that are correct -/

/-- Two parties agree on a key, and a box opens to what was sealed. -/
structure Primitives.Correct (primitives : Primitives) : Prop where
  agree {secret secret' publicKey publicKey' : Bytes}
    (h : primitives.multiplyBase secret = some publicKey)
    (h' : primitives.multiplyBase secret' = some publicKey') :
    ∃ point, primitives.multiply secret publicKey' = some point ∧
      primitives.multiply secret' publicKey = some point
  inverse (key nonce plain : Bytes) :
    (primitives.decrypt key nonce (primitives.encrypt key nonce plain).toList).map Vector.toList =
      some plain

/-- The public key is that of the secret. -/
def Keypair.Valid (primitives : Primitives) (keys : Keypair) : Prop :=
  primitives.multiplyBase keys.secret.toList = some keys.publicKey.toList

section
variable {primitives : Primitives}

theorem derive_agree (correct : primitives.Correct) {keys keys' : Keypair}
    (h : keys.Valid primitives) (h' : keys'.Valid primitives) :
    ∃ shared, derive primitives keys.secret.toList keys'.publicKey.toList = some shared ∧
      derive primitives keys'.secret.toList keys.publicKey.toList = some shared := by
  obtain ⟨point, hpoint, hpoint'⟩ := correct.agree h h'
  unfold derive
  rw [hpoint, hpoint']
  exact ⟨_, rfl, rfl⟩

@[simp] theorem boxed_length (key nonce plain : Bytes) :
    (boxed primitives key nonce plain).length = plain.length + tagSize := Vector.length_toList

theorem openBox_boxed (correct : primitives.Correct) (key nonce plain : Bytes) :
    openBox primitives key nonce (boxed primitives key nonce plain) = some plain := by
  unfold openBox
  rw [if_neg (by rw [boxed_length]; omega)]
  exact correct.inverse key nonce plain

/-! ### Hello and welcome -/

/-- The HELLO of a client. -/
def helloOf (primitives : Primitives) (shared transient : Bytes) (nonce : ℕ) : Bytes :=
  nameBytes nameHello ++ ([1, 0] ++ (List.replicate helloPadding 0 ++ (transient ++
    (toBytes 8 nonce ++ boxed primitives shared (shortNonce prefixHello nonce)
      (List.replicate helloContent 0)))))

theorem helloOf_length (primitives : Primitives) (shared : Bytes) (transient : Key) (nonce : ℕ) :
    (helloOf primitives shared transient.toList nonce).length = helloSize := by
  simp only [helloOf, List.length_append, key_length, boxed_length, List.length_replicate,
    toBytes_length]
  decide

theorem hello_client {c : Cipher} {transient : Keypair} {shared : Bytes}
    (hserver : c.server = false)
    (hshared : derive primitives transient.secret.toList c.peer = some shared) :
    c.hello primitives transient =
      ({ c with
          transientSecret := transient.secret.toList
          transientPublic := transient.publicKey.toList
          helloBox := some shared
          seals := c.seals ++ [(shared, shortNonce prefixHello c.nonce)]
          nonce := c.nonce + 1 },
        some (helloOf primitives shared transient.publicKey.toList c.nonce)) := by
  have hout : nameBytes nameHello ++ [1, 0] ++ List.replicate helloPadding 0 ++
      transient.publicKey.toList ++ toBytes 8 c.nonce ++
      boxed primitives shared (shortNonce prefixHello c.nonce) (List.replicate helloContent 0)
      = helloOf primitives shared transient.publicKey.toList c.nonce := by
    simp only [helloOf, List.append_assoc]
  unfold Cipher.hello
  rw [if_neg (by rw [hserver]; exact Bool.false_ne_true)]
  simp only [hshared, Cipher.sealBox]
  rw [hout, sized, if_pos (helloOf_length primitives _ _ _)]

/-- The cookie of a server. -/
def cookieOf (primitives : Primitives) (cookieKey : Key) (cookieNonce : LongNonce)
    (client secret : Bytes) : Bytes :=
  cookieNonce.toList ++ boxed primitives cookieKey.toList (longNonce prefixCookie cookieNonce.toList)
    (client ++ secret)

theorem cookieOf_length (primitives : Primitives) (cookieKey client secret : Key) (cookieNonce : LongNonce) :
    (cookieOf primitives cookieKey cookieNonce client.toList secret.toList).length = cookieSize := by
  simp only [cookieOf, List.length_append, longNonce_length, boxed_length, key_length]
  decide

/-- The WELCOME of a server. -/
def welcomeOf (primitives : Primitives) (shared : Bytes) (draw : Cipher.WelcomeDraw)
    (client : Bytes) : Bytes :=
  nameBytes nameWelcome ++ (draw.welcomeNonce.toList ++
    boxed primitives shared (longNonce prefixWelcome draw.welcomeNonce.toList)
      (draw.transient.publicKey.toList ++ cookieOf primitives draw.cookieKey draw.cookieNonce
        client draw.transient.secret.toList))

theorem welcomeOf_length (primitives : Primitives) (shared : Bytes) (draw : Cipher.WelcomeDraw) (client : Key) :
    (welcomeOf primitives shared draw client.toList).length = welcomeSize := by
  simp only [welcomeOf, List.length_append, longNonce_length, boxed_length, key_length,
    cookieOf_length]
  decide

theorem sendWelcome_eq {c : Cipher} {draw : Cipher.WelcomeDraw} (shared : Bytes) {client : Key}
    (hclient : c.peerTransient = client.toList) :
    c.sendWelcome primitives draw shared =
      ({ c with
          transientSecret := draw.transient.secret.toList
          transientPublic := draw.transient.publicKey.toList
          cookieKey := draw.cookieKey.toList
          seals := c.seals ++
            [(draw.cookieKey.toList, longNonce prefixCookie draw.cookieNonce.toList)] ++
            [(shared, longNonce prefixWelcome draw.welcomeNonce.toList)] },
        some (welcomeOf primitives shared draw client.toList)) := by
  unfold Cipher.sendWelcome
  simp only [Cipher.sealBox, hclient]
  have hout : nameBytes nameWelcome ++ draw.welcomeNonce.toList ++
      boxed primitives shared (longNonce prefixWelcome draw.welcomeNonce.toList)
        (draw.transient.publicKey.toList ++ (draw.cookieNonce.toList ++
          boxed primitives draw.cookieKey.toList (longNonce prefixCookie draw.cookieNonce.toList)
            (client.toList ++ draw.transient.secret.toList)))
      = welcomeOf primitives shared draw client.toList := by
    simp only [welcomeOf, cookieOf, List.append_assoc]
  rw [hout, sized, if_pos (welcomeOf_length primitives _ _ _)]

theorem welcome_server (correct : primitives.Correct) {c : Cipher} {draw : Cipher.WelcomeDraw}
    {shared : Bytes} {client : Key} {nonce : ℕ} (hserver : c.server = true)
    (hshared : derive primitives c.secret client.toList = some shared)
    (hnonce : c.peerNonce < nonce) (hmax : nonce < 2 ^ 64) :
    c.welcome primitives draw (helloOf primitives shared client.toList nonce) =
      ({ c with
          peerTransient := client.toList
          helloBox := some shared
          peerNonce := nonce
          transientSecret := draw.transient.secret.toList
          transientPublic := draw.transient.publicKey.toList
          cookieKey := draw.cookieKey.toList
          seals := c.seals ++
            [(draw.cookieKey.toList, longNonce prefixCookie draw.cookieNonce.toList)] ++
            [(shared, longNonce prefixWelcome draw.welcomeNonce.toList)] },
        some (welcomeOf primitives shared draw client.toList)) := by
  have hversion : (helloOf primitives shared client.toList nonce).drop (1 + nameHello.length)
      = _ := drop_nameBytes _ _
  have hname : named (helloOf primitives shared client.toList nonce) nameHello = true :=
    named_nameBytes _ _
  have hsize := helloOf_length primitives shared client nonce
  generalize helloOf primitives shared client.toList nonce = hello at hversion hname hsize ⊢
  have hpadding : hello.drop (1 + nameHello.length + 2) = _ := drop_add_of_eq hversion rfl
  have hclient : hello.drop (1 + nameHello.length + 2 + helloPadding) = _ :=
    drop_add_of_eq hpadding List.length_replicate
  have hshort := drop_add_of_eq hclient (key_length client)
  have hbox := drop_add_of_eq hshort (toBytes_length 8 nonce)
  have hlead : (hello.drop (1 + nameHello.length)).take 2 = [1, 0] := take_of_eq hversion rfl
  have hlate : ¬nonce ≤ c.peerNonce := Nat.not_le.mpr hnonce
  unfold Cipher.welcome
  rw [if_neg (by simp [hserver, hsize, hname])]
  simp only [hlead, take_of_eq hclient (key_length client), hshared,
    shortNonceValue_of_eq hshort hmax, Cipher.accept, hlate, if_false, shortNonceSize, hbox,
    openBox_boxed correct]
  exact sendWelcome_eq shared rfl

/-! ### Initiate, ready and complete -/

/-- The vouch of a client. -/
def vouchOf (primitives : Primitives) (vouchKey : Bytes) (vouchNonce : LongNonce)
    (transient server : Bytes) : Bytes :=
  vouchNonce.toList ++ boxed primitives vouchKey (longNonce prefixVouch vouchNonce.toList)
    (transient ++ server)

theorem vouchOf_length (primitives : Primitives) (vouchKey : Bytes) (vouchNonce : LongNonce) (transient server : Key) :
    (vouchOf primitives vouchKey vouchNonce transient.toList server.toList).length
      = cookieSize := by
  simp only [vouchOf, List.length_append, longNonce_length, boxed_length, key_length]
  decide

/-- The INITIATE of a client, of which the content is its key, the vouch and metadata. -/
def initiateOf (primitives : Primitives) (session cookie content : Bytes) (nonce : ℕ) : Bytes :=
  nameBytes nameInitiate ++ (cookie ++ (toBytes 8 nonce ++
    boxed primitives session (shortNonce prefixInitiate nonce) content))

/-- The READY of a server. -/
def readyOf (primitives : Primitives) (session metadata : Bytes) (nonce : ℕ) : Bytes :=
  nameBytes nameReady ++ (toBytes 8 nonce ++
    boxed primitives session (shortNonce prefixReady nonce) metadata)

theorem initiate_client (correct : primitives.Correct) {c : Cipher} (vouchNonce : LongNonce)
    (draw : Cipher.WelcomeDraw) (client : Key) (metadata : Bytes) {shared session vouchKey : Bytes}
    (hserver : c.server = false) (hbox : c.helloBox = some shared)
    (hsession : derive primitives c.transientSecret draw.transient.publicKey.toList = some session)
    (hvouch : derive primitives c.secret draw.transient.publicKey.toList = some vouchKey) :
    c.initiate primitives vouchNonce (welcomeOf primitives shared draw client.toList) metadata =
      ({ c with
          peerTransient := draw.transient.publicKey.toList
          sessionBox := some session
          vouchBox := some vouchKey
          seals := c.seals ++ [(vouchKey, longNonce prefixVouch vouchNonce.toList)] ++
            [(session, shortNonce prefixInitiate c.nonce)]
          nonce := c.nonce + 1 },
        some (initiateOf primitives session
          (cookieOf primitives draw.cookieKey draw.cookieNonce client.toList
            draw.transient.secret.toList)
          (c.publicKey ++ (vouchOf primitives vouchKey vouchNonce c.transientPublic c.peer ++
            metadata)) c.nonce)) := by
  have hnonce : (welcomeOf primitives shared draw client.toList).drop (1 + nameWelcome.length)
      = _ := drop_nameBytes _ _
  have hname : named (welcomeOf primitives shared draw client.toList) nameWelcome = true :=
    named_nameBytes _ _
  have hsize := welcomeOf_length primitives shared draw client
  generalize welcomeOf primitives shared draw client.toList = welcome at hnonce hname hsize ⊢
  have hplain := drop_add_of_eq hnonce (longNonce_length draw.welcomeNonce)
  have hcookie := cookieOf_length primitives draw.cookieKey client
    draw.transient.secret draw.cookieNonce
  unfold Cipher.initiate
  simp only [hbox]
  rw [if_neg (by simp [hserver, hsize, hname])]
  simp only [take_of_eq hnonce (longNonce_length draw.welcomeNonce), hplain,
    openBox_boxed correct, List.take_left' (key_length draw.transient.publicKey),
    List.drop_left' (key_length draw.transient.publicKey), hsession, hvouch,
    List.take_of_length_le hcookie.le]
  simp only [Cipher.sendInitiate, Cipher.sealBox, vouchOf, initiateOf, List.append_assoc]

theorem sendReady_eq (c : Cipher) (session metadata : Bytes) :
    c.sendReady primitives session metadata =
      ({ c with
          seals := c.seals ++ [(session, shortNonce prefixReady c.nonce)]
          nonce := c.nonce + 1
          transientSecret := List.replicate keySize 0
          cookieKey := List.replicate keySize 0
          helloBox := none
          vouchBox := none },
        readyOf primitives session metadata c.nonce) := by
  simp only [Cipher.sendReady, Cipher.sealBox, readyOf, List.append_assoc]

theorem openVouch_server (correct : primitives.Correct) {c : Cipher} {vouchNonce : LongNonce}
    {session vouchKey metadata metadata' : Bytes} {client transient server : Key}
    (htransient : c.peerTransient = transient.toList) (hpublic : c.publicKey = server.toList)
    (hvouch : derive primitives c.transientSecret client.toList = some vouchKey) :
    c.openVouch primitives session (client.toList ++ (vouchOf primitives vouchKey vouchNonce
        transient.toList server.toList ++ metadata)) metadata' =
      ({ c with
          peer := client.toList
          seals := c.seals ++ [(session, shortNonce prefixReady c.nonce)]
          nonce := c.nonce + 1
          transientSecret := List.replicate keySize 0
          cookieKey := List.replicate keySize 0
          helloBox := none
          vouchBox := none },
        some (readyOf primitives session metadata' c.nonce, metadata)) := by
  have hlength := vouchOf_length primitives vouchKey vouchNonce transient server
  generalize hcontent : client.toList ++ (vouchOf primitives vouchKey vouchNonce
    transient.toList server.toList ++ metadata) = content
  have hclient : content.take keySize = client.toList := by
    rw [← hcontent]
    exact List.take_left' (key_length client)
  have hvouchNonce : content.drop keySize =
      vouchOf primitives vouchKey vouchNonce transient.toList server.toList ++ metadata := by
    rw [← hcontent]
    exact List.drop_left' (key_length client)
  have hmetadata := drop_add_of_eq hvouchNonce hlength
  rw [vouchOf, List.append_assoc] at hvouchNonce
  have hbox := drop_add_of_eq hvouchNonce (longNonce_length vouchNonce)
  have hboxed : (boxed primitives vouchKey (longNonce prefixVouch vouchNonce.toList)
      (transient.toList ++ server.toList)).length = cookieSize - longNonceSize := by
    simp only [boxed_length, List.length_append, key_length]
    decide
  have hsize : ¬content.length < keySize + cookieSize := by
    rw [← hcontent, List.length_append, List.length_append, hlength, key_length]
    omega
  unfold Cipher.openVouch
  rw [if_neg hsize]
  simp only [hclient, hvouch, take_of_eq hvouchNonce (longNonce_length vouchNonce),
    take_of_eq hbox hboxed, openBox_boxed correct, htransient, hpublic,
    List.take_left' (key_length transient), List.drop_left' (key_length transient),
    List.take_of_length_le (key_length server).le, hmetadata, sendReady_eq]
  rw [if_neg (by simp)]

theorem ready_server (correct : primitives.Correct) {c : Cipher}
    (vouchNonce cookieNonce : LongNonce) (metadata metadata' : Bytes) {session vouchKey : Bytes}
    {client transient server secret cookieKey : Key} {nonce : ℕ} (hserver : c.server = true) (htransient : c.peerTransient = transient.toList)
    (hsecret : c.transientSecret = secret.toList) (hpublic : c.publicKey = server.toList)
    (hcookieKey : c.cookieKey = cookieKey.toList)
    (hsession : derive primitives secret.toList transient.toList = some session)
    (hvouch : derive primitives secret.toList client.toList = some vouchKey)
    (hnonce : c.peerNonce < nonce) (hmax : nonce < 2 ^ 64) :
    c.ready primitives (initiateOf primitives session
        (cookieOf primitives cookieKey cookieNonce transient.toList secret.toList)
        (client.toList ++ (vouchOf primitives vouchKey vouchNonce transient.toList server.toList ++
          metadata)) nonce) metadata' =
      ({ c with
          sessionBox := some session
          peerNonce := nonce
          peer := client.toList
          seals := c.seals ++ [(session, shortNonce prefixReady c.nonce)]
          nonce := c.nonce + 1
          transientSecret := List.replicate keySize 0
          cookieKey := List.replicate keySize 0
          helloBox := none
          vouchBox := none },
        some (readyOf primitives session metadata' c.nonce, metadata)) := by
  have hcookie := cookieOf_length primitives cookieKey transient secret cookieNonce
  have hvouchSize := vouchOf_length primitives vouchKey vouchNonce transient server
  have hcommand : (initiateOf primitives session
      (cookieOf primitives cookieKey cookieNonce transient.toList secret.toList)
      (client.toList ++ (vouchOf primitives vouchKey vouchNonce transient.toList server.toList ++
        metadata)) nonce).drop (1 + nameInitiate.length) = _ := drop_nameBytes _ _
  have hname : named (initiateOf primitives session
      (cookieOf primitives cookieKey cookieNonce transient.toList secret.toList)
      (client.toList ++ (vouchOf primitives vouchKey vouchNonce transient.toList server.toList ++
        metadata)) nonce) nameInitiate = true := named_nameBytes _ _
  have hsize : ¬(initiateOf primitives session
      (cookieOf primitives cookieKey cookieNonce transient.toList secret.toList)
      (client.toList ++ (vouchOf primitives vouchKey vouchNonce transient.toList server.toList ++
        metadata)) nonce).length < initiateMinimum := by
    have hfixed : (nameBytes nameInitiate).length + cookieSize + 8 + keySize + cookieSize + tagSize
      = initiateMinimum := by decide
    simp only [initiateOf, List.length_append, boxed_length, key_length, hcookie, hvouchSize,
      toBytes_length]
    omega
  generalize initiateOf primitives session
    (cookieOf primitives cookieKey cookieNonce transient.toList secret.toList)
    (client.toList ++ (vouchOf primitives vouchKey vouchNonce transient.toList server.toList ++
      metadata)) nonce = initiate at hcommand hname hsize ⊢
  have hshort := drop_add_of_eq hcommand hcookie
  have hbox := drop_add_of_eq hshort (toBytes_length 8 nonce)
  rw [cookieOf, List.append_assoc] at hcommand
  have hstate := drop_add_of_eq hcommand (longNonce_length cookieNonce)
  have hboxed : (boxed primitives cookieKey.toList (longNonce prefixCookie cookieNonce.toList)
      (transient.toList ++ secret.toList)).length = cookieSize - longNonceSize := by
    simp only [boxed_length, List.length_append, key_length]
    decide
  have hlate : ¬nonce ≤ c.peerNonce := Nat.not_le.mpr hnonce
  unfold Cipher.ready
  rw [if_neg (by simp [hserver, hsize, hname])]
  simp only [take_of_eq hcommand (longNonce_length cookieNonce), take_of_eq hstate hboxed,
    hcookieKey, openBox_boxed correct, htransient, hsecret,
    List.take_left' (key_length transient), List.drop_left' (key_length transient),
    List.take_of_length_le (key_length secret).le, shortNonceValue_of_eq hshort hmax, hsession,
    Cipher.accept, hlate, if_false, shortNonceSize, hbox]
  rw [if_neg (by simp), if_neg (by simp)]
  exact openVouch_server correct rfl hpublic hvouch

theorem complete_client (correct : primitives.Correct) {c : Cipher} (metadata : Bytes) (nonce : ℕ)
    {session : Bytes} (hserver : c.server = false) (hsession : c.sessionBox = some session)
    (hnonce : c.peerNonce < nonce) (hmax : nonce < 2 ^ 64) :
    c.complete primitives (readyOf primitives session metadata nonce) =
      ({ c with
          peerNonce := nonce
          transientSecret := List.replicate keySize 0
          helloBox := none
          vouchBox := none }, some metadata) := by
  have hshort : (readyOf primitives session metadata nonce).drop (1 + nameReady.length) = _ :=
    drop_nameBytes _ _
  have hname : named (readyOf primitives session metadata nonce) nameReady = true :=
    named_nameBytes _ _
  have hsize : ¬(readyOf primitives session metadata nonce).length < readyMinimum := by
    have hfixed : (nameBytes nameReady).length + 8 + tagSize = readyMinimum := by decide
    simp only [readyOf, List.length_append, boxed_length, toBytes_length]
    omega
  generalize readyOf primitives session metadata nonce = ready at hshort hname hsize ⊢
  have hbox := drop_add_of_eq hshort (toBytes_length 8 nonce)
  have hlate : ¬nonce ≤ c.peerNonce := Nat.not_le.mpr hnonce
  unfold Cipher.complete
  simp only [hsession]
  rw [if_neg (by simp [hserver, hsize, hname])]
  simp only [shortNonceValue_of_eq hshort hmax, Cipher.accept, hlate, if_false, shortNonceSize,
    hbox, openBox_boxed correct]
  rw [if_neg (by simp), hsession]

/-! ### The exchange -/

/-- What two sides have come to: the ciphers, and what each is told. -/
structure Exchanged where
  client : Cipher
  server : Cipher
  clientMetadata : Bytes
  serverMetadata : Bytes

/-- The commands of a client and of a server, each passed on unmodified. -/
def exchange (primitives : Primitives) (clientKeys serverKeys transient : Keypair)
    (draw : Cipher.WelcomeDraw) (vouchNonce : LongNonce) (clientMetadata serverMetadata : Bytes) :
    Option Exchanged := do
  let greeted := (Cipher.ofClient clientKeys serverKeys.publicKey).hello primitives transient
  let welcomed := (Cipher.ofServer serverKeys).welcome primitives draw (← greeted.2)
  let initiated := greeted.1.initiate primitives vouchNonce (← welcomed.2) clientMetadata
  let readied := welcomed.1.ready primitives (← initiated.2) serverMetadata
  let (ready, clientMetadata) ← readied.2
  let completed := initiated.1.complete primitives ready
  return ⟨completed.1, readied.1, clientMetadata, ← completed.2⟩

/-- Two sides of one session, before the first message. -/
structure Session (client server : Cipher) (session : Bytes) : Prop where
  client_side : client.server = false
  server_side : server.server = true
  client_box : client.sessionBox = some session
  server_box : server.sessionBox = some session
  client_nonce : client.nonce = 3
  server_nonce : server.nonce = 2
  client_peer : client.peerNonce = 1
  server_peer : server.peerNonce = 2

/-- The exchange succeeds, and each side is told of the other. -/
theorem exchange_correct (correct : primitives.Correct) {clientKeys serverKeys transient : Keypair}
    {draw : Cipher.WelcomeDraw} (hclient : clientKeys.Valid primitives)
    (hserver : serverKeys.Valid primitives) (htransient : transient.Valid primitives)
    (hdraw : draw.transient.Valid primitives) (vouchNonce : LongNonce)
    (clientMetadata serverMetadata : Bytes) :
    ∃ exchanged, exchange primitives clientKeys serverKeys transient draw vouchNonce
        clientMetadata serverMetadata = some exchanged ∧
      exchanged.clientMetadata = clientMetadata ∧ exchanged.serverMetadata = serverMetadata ∧
      exchanged.server.peer = clientKeys.publicKey.toList ∧
      exchanged.client.peer = serverKeys.publicKey.toList ∧
      ∃ session, Session exchanged.client exchanged.server session := by
  obtain ⟨shared, hshared, hshared'⟩ := derive_agree correct htransient hserver
  obtain ⟨session, hsession, hsession'⟩ := derive_agree correct htransient hdraw
  obtain ⟨vouchKey, hvouch, hvouch'⟩ := derive_agree correct hclient hdraw
  obtain ⟨c₁, hhello, hc₁, hbox, hsecret, hpublic, hlong, hlongKey, hpeer, hnonce, hpeerNonce⟩ :
      ∃ c₁, (Cipher.ofClient clientKeys serverKeys.publicKey).hello primitives transient =
          (c₁, some (helloOf primitives shared transient.publicKey.toList 1)) ∧
        c₁.server = false ∧ c₁.helloBox = some shared ∧
        c₁.transientSecret = transient.secret.toList ∧
        c₁.transientPublic = transient.publicKey.toList ∧
        c₁.secret = clientKeys.secret.toList ∧ c₁.publicKey = clientKeys.publicKey.toList ∧
        c₁.peer = serverKeys.publicKey.toList ∧ c₁.nonce = 2 ∧ c₁.peerNonce = 0 :=
    ⟨_, hello_client rfl hshared, rfl, rfl, rfl, rfl, rfl, rfl, rfl, rfl, rfl⟩
  obtain ⟨s₁, hwelcome, hs₁, hs₁Transient, hs₁Secret, hs₁Public, hs₁Cookie, hs₁Nonce, hs₁Peer⟩ :
      ∃ s₁, (Cipher.ofServer serverKeys).welcome primitives draw
          (helloOf primitives shared transient.publicKey.toList 1) =
          (s₁, some (welcomeOf primitives shared draw transient.publicKey.toList)) ∧
        s₁.server = true ∧ s₁.peerTransient = transient.publicKey.toList ∧
        s₁.transientSecret = draw.transient.secret.toList ∧
        s₁.publicKey = serverKeys.publicKey.toList ∧ s₁.cookieKey = draw.cookieKey.toList ∧
        s₁.nonce = 1 ∧ s₁.peerNonce = 1 :=
    ⟨_, welcome_server correct rfl hshared' Nat.zero_lt_one (by decide),
      rfl, rfl, rfl, rfl, rfl, rfl, rfl⟩
  have hinitiate := initiate_client correct vouchNonce draw transient.publicKey clientMetadata
    hc₁ hbox (hsecret ▸ hsession) (hlong ▸ hvouch)
  have hcommand : initiateOf primitives session (cookieOf primitives draw.cookieKey
      draw.cookieNonce transient.publicKey.toList draw.transient.secret.toList)
      (c₁.publicKey ++ (vouchOf primitives vouchKey vouchNonce c₁.transientPublic c₁.peer ++
        clientMetadata)) c₁.nonce = initiateOf primitives session (cookieOf primitives
      draw.cookieKey draw.cookieNonce transient.publicKey.toList draw.transient.secret.toList)
      (clientKeys.publicKey.toList ++ (vouchOf primitives vouchKey vouchNonce
        transient.publicKey.toList serverKeys.publicKey.toList ++ clientMetadata)) 2 := by
    rw [hpublic, hlongKey, hpeer, hnonce]
  rw [hcommand] at hinitiate
  obtain ⟨c₂, hinitiate, hc₂, hc₂Session, hc₂Peer, hc₂Nonce, hc₂PeerNonce⟩ :
      ∃ c₂, c₁.initiate primitives vouchNonce
          (welcomeOf primitives shared draw transient.publicKey.toList) clientMetadata =
          (c₂, some (initiateOf primitives session (cookieOf primitives draw.cookieKey
            draw.cookieNonce transient.publicKey.toList draw.transient.secret.toList)
            (clientKeys.publicKey.toList ++ (vouchOf primitives vouchKey vouchNonce
              transient.publicKey.toList serverKeys.publicKey.toList ++ clientMetadata)) 2)) ∧
        c₂.server = false ∧ c₂.sessionBox = some session ∧
        c₂.peer = serverKeys.publicKey.toList ∧ c₂.nonce = 3 ∧ c₂.peerNonce = 0 :=
    ⟨_, hinitiate, hc₁, rfl, hpeer, congrArg (· + 1) hnonce, hpeerNonce⟩
  have hready := ready_server correct vouchNonce draw.cookieNonce clientMetadata serverMetadata
    hs₁ hs₁Transient hs₁Secret hs₁Public hs₁Cookie hsession' hvouch' (hs₁Peer.trans_lt one_lt_two)
    (by decide : 2 < 2 ^ 64)
  rw [hs₁Nonce] at hready
  have hcomplete := complete_client correct serverMetadata 1 hc₂ hc₂Session
    (by rw [hc₂PeerNonce]; exact Nat.zero_lt_one) (by decide)
  unfold exchange
  simp only [hhello, hwelcome, hinitiate, hready, hcomplete, Option.bind_eq_bind,
    Option.bind_some]
  refine ⟨_, rfl, rfl, rfl, rfl, hc₂Peer, session, ?_⟩
  exact ⟨hc₂, hs₁, hc₂Session, rfl, hc₂Nonce, rfl, rfl, rfl⟩

end

end BitcoinNetwork.Zmtp
