import BitcoinNetwork.Zmtp.Nonces

/-!
# Two ciphers of a connection (zmtp/cipher.cpp)

The exchange of the handshake, the messages after it and the nonces of both
sides. The number of a message has 64 bits and is not checked to fit, so that
a side has no more messages than that.
-/

namespace BitcoinNetwork.Zmtp

/-- The link of two ciphers, before the first message. -/
def Exchanged.link (exchanged : Exchanged) : Link where
  client := { cipher := exchanged.client }
  server := { cipher := exchanged.server }

/-- A side receives those of the messages sent that it is offered later than all
that it was offered before, which are all of them if each is offered in order. -/
structure Delivers (sent : List (UInt8 × Bytes)) (side : End) : Prop where
  received : side.received.map some =
    (Incremental.records side.offered).map fun index => sent[index]?
  all : side.offered = List.range sent.length → side.received = sent

theorem Delivers.of_received {sent : List (UInt8 × Bytes)} {side : End}
    (h : side.received.map some =
      (Incremental.records side.offered).map fun index => sent[index]?) : Delivers sent side where
  received := h
  all := fun hoffered => by
    rw [hoffered, Incremental.records_of_pairwise List.pairwise_lt_range] at h
    apply List.map_injective_iff.mpr (Option.some_injective _)
    rw [h]
    apply List.ext_getElem
    · simp
    · intro index hindex hindex'
      simp

section
variable {primitives : Primitives}

theorem Session.carries (primitives : Primitives) {exchanged : Exchanged} {session : Bytes}
    (h : Session exchanged.client exchanged.server session) :
    exchanged.link.Carries primitives session where
  toServer := {
    sender_box := h.client_box
    receiver_box := h.server_box
    sides := by
      show exchanged.client.server = !exchanged.server.server
      rw [h.client_side, h.server_side]
      rfl
    nonce := h.client_nonce
    wire := rfl
    late := fun index => by
      have hpeer : exchanged.link.server.cipher.peerNonce = 2 := h.server_peer
      rw [hpeer]
      exact iff_of_true (by omega) nofun
    received := rfl
    offered := nofun }
  toClient := {
    sender_box := h.server_box
    receiver_box := h.client_box
    sides := by
      show exchanged.server.server = !exchanged.client.server
      rw [h.client_side, h.server_side]
      rfl
    nonce := h.server_nonce
    wire := rfl
    late := fun index => by
      have hpeer : exchanged.link.client.cipher.peerNonce = 1 := h.client_peer
      rw [hpeer]
      exact iff_of_true (by omega) nofun
    received := rfl
    offered := nofun }
  client_fits := by
    show 3 + 0 ≤ 2 ^ 64
    decide
  server_fits := by
    show 2 + 0 ≤ 2 ^ 64
    decide

/-- A handshake that is passed on unmodified succeeds, tells each side of the
other, and each side then receives of the messages of the other, offered in any
order and any number of times, what is in order. -/
def Pairs (primitives : Primitives) : Prop :=
  ∀ clientKeys serverKeys transient : Keypair, ∀ draw : Cipher.WelcomeDraw,
    clientKeys.Valid primitives → serverKeys.Valid primitives → transient.Valid primitives →
    draw.transient.Valid primitives → ∀ (vouchNonce : LongNonce)
      (clientMetadata serverMetadata : Bytes), ∃ exchanged,
    exchange primitives clientKeys serverKeys transient draw vouchNonce clientMetadata
      serverMetadata = some exchanged ∧
    exchanged.clientMetadata = clientMetadata ∧ exchanged.serverMetadata = serverMetadata ∧
    exchanged.server.peer = clientKeys.publicKey.toList ∧
    ∀ events : List Event, (sentIn false events).length ≤ 2 ^ 64 - 3 →
      (sentIn true events).length ≤ 2 ^ 64 - 2 →
      Delivers (sentIn false events) (exchanged.link.run primitives events).server ∧
        Delivers (sentIn true events) (exchanged.link.run primitives events).client

theorem pairs (correct : primitives.Correct) : Pairs primitives := by
  intro clientKeys serverKeys transient draw hclient hserver htransient hdraw vouchNonce
    clientMetadata serverMetadata
  obtain ⟨exchanged, hexchange, hclientMetadata, hserverMetadata, hpeer, -, session, hsession⟩ :=
    exchange_correct correct hclient hserver htransient hdraw vouchNonce clientMetadata
      serverMetadata
  refine ⟨exchanged, hexchange, hclientMetadata, hserverMetadata, hpeer, ?_⟩
  intro events hclientFits hserverFits
  obtain ⟨hcarries, hclientSent, hserverSent⟩ := Link.run_carries correct events
    (hsession.carries primitives)
    (by show 3 + (sentIn false events).length ≤ 2 ^ 64; omega)
    (by show 2 + (sentIn true events).length ≤ 2 ^ 64; omega)
  have hclientSent : (exchanged.link.run primitives events).client.sent = sentIn false events :=
    hclientSent
  have hserverSent : (exchanged.link.run primitives events).server.sent = sentIn true events :=
    hserverSent
  refine ⟨.of_received ?_, .of_received ?_⟩
  · rw [← hclientSent]
    exact hcarries.toServer.received
  · rw [← hserverSent]
    exact hcarries.toClient.received

/-- Ciphers pair; a message is decoded only if it is numbered above what was
accepted before it; and no two seals under one key use one nonce. -/
theorem ciphers_pair (correct : primitives.Correct) :
    Pairs primitives ∧
    (∀ (c : Cipher) (calls calls' : List Call) (message : Bytes),
      ((c.run primitives (calls ++ calls')).decode primitives message).2 ≠ none →
        (c.run primitives calls).peerNonce < messageNonce message) ∧
    (∀ (c : Cipher) (calls calls' : List Call) (message message' : Bytes),
      ((c.run primitives calls).decode primitives message).2 ≠ none →
      ((c.run primitives (calls ++ .decode message :: calls')).decode primitives message').2
        ≠ none → messageNonce message < messageNonce message') ∧
    (∀ (keys : Keypair) (calls : List Call), (calls.flatMap Call.draws).Nodup →
      calls.length ≤ 2 ^ 64 → ((Cipher.ofServer keys).run primitives calls).seals.Nodup ∧
        ∀ server : Key, ((Cipher.ofClient keys server).run primitives calls).seals.Nodup) ∧
    ∀ (clientKeys serverKeys : Keypair) (server : Key) (calls calls' : List Call),
      ∀ box ∈ ((Cipher.ofClient clientKeys server).run primitives calls).seals,
      ∀ box' ∈ ((Cipher.ofServer serverKeys).run primitives calls').seals,
        box.1 = box'.1 → box.2 ≠ box'.2 := by
  refine ⟨pairs correct, ?_, decode_increasing, ?_, ?_⟩
  · intro c calls calls' message h
    rw [run_append] at h
    exact (run_peer primitives _ _).trans_lt (decode_accepts h).1
  · intro keys calls hdraws hcalls
    constructor
    · exact (run_seals_nodup ⟨rfl, rfl⟩ calls hdraws hcalls).of_map
    · intro server
      exact (run_seals_nodup ⟨rfl, rfl⟩ calls hdraws hcalls).of_map
  · intro clientKeys serverKeys server calls calls' box hbox box' hbox' _ hnonce
    have hdisjoint := run_seals_disjoint primitives
      (c := Cipher.ofClient clientKeys server) (s := Cipher.ofServer serverKeys) rfl rfl rfl rfl
      calls calls' box.2 (List.mem_map_of_mem hbox)
    rw [hnonce] at hdisjoint
    exact hdisjoint (List.mem_map_of_mem hbox')

/-! ### A message too many -/

/-- The states of one direction as messages are offered. -/
theorem Carried.offers (correct : primitives.Correct) {session : Bytes} {base : ℕ}
    (link : Link) (h : Carried primitives session base link.client link.server) (indices : List ℕ)
    (hmax : ∀ index ∈ indices, base + index < 2 ^ 64) :
    Carried primitives session base (link.run primitives (indices.map (Event.offer true))).client
        (link.run primitives (indices.map (Event.offer true))).server ∧
      (link.run primitives (indices.map (Event.offer true))).client.sent = link.client.sent ∧
      (link.run primitives (indices.map (Event.offer true))).server.offered.length ≤
        link.server.offered.length + indices.length := by
  induction indices generalizing link with
  | nil => exact ⟨h, rfl, le_rfl⟩
  | cons index indices ih =>
    have hoffer := h.offer_receiver correct fun _ => hmax index List.mem_cons_self
    have hlength : (link.server.offer primitives link.client.wire index).offered.length ≤
        link.server.offered.length + 1 := by
      unfold End.offer
      cases link.client.wire[index]? with
      | none => exact Nat.le_succ _
      | some message => exact (List.length_append).le
    obtain ⟨hcarried, hsent, hoffered⟩ := ih
      { link with server := link.server.offer primitives link.client.wire index } hoffer
      fun index' hindex' => hmax index' (List.mem_cons_of_mem _ hindex')
    refine ⟨hcarried, hsent, hoffered.trans ?_⟩
    show (link.server.offer primitives link.client.wire index).offered.length + indices.length ≤ _
    rw [List.length_cons]
    omega

theorem Carried.sends {session : Bytes} {base : ℕ} (link : Link)
    (h : Carried primitives session base link.client link.server)
    (messages : List (UInt8 × Bytes)) :
    Carried primitives session base (link.run primitives (messages.map (Event.send false))).client
        (link.run primitives (messages.map (Event.send false))).server ∧
      (link.run primitives (messages.map (Event.send false))).client.sent =
        link.client.sent ++ messages ∧
      (link.run primitives (messages.map (Event.send false))).server = link.server := by
  induction messages generalizing link with
  | nil => exact ⟨h, (List.append_nil _).symm, rfl⟩
  | cons message messages ih =>
    obtain ⟨hcarried, hsent, hserver⟩ := ih
      { link with client := link.client.send primitives message } (h.send_sender message)
    refine ⟨hcarried, hsent.trans ?_, hserver⟩
    exact List.append_assoc _ _ _

/-- Of messages that go on to the last number and one more, one is not received. -/
theorem received_short (correct : primitives.Correct) {exchanged : Exchanged} {session : Bytes}
    (h : Session exchanged.client exchanged.server session) {n : ℕ} (hn : 3 + n = 2 ^ 64)
    (messages : List (UInt8 × Bytes)) (hlength : messages.length = n + 1) :
    (exchanged.link.run primitives (messages.map (Event.send false) ++
      (List.range messages.length).map (Event.offer true))).server.received ≠ messages := by
  intro hreceived
  have hcarries : exchanged.link.Carries primitives session := h.carries primitives
  obtain ⟨hsends, hsent, hserver⟩ := hcarries.toServer.sends exchanged.link messages
  obtain ⟨hoffers, hoffersSent, hoffered⟩ := hsends.offers correct _ (List.range n) fun index
    hindex => by have := List.mem_range.mp hindex; omega
  rw [hlength, List.range_succ, List.map_append, Link.run, List.foldl_append, List.foldl_append]
    at hreceived
  generalize hlink : ((List.range n).map (Event.offer true)).foldl (Link.step primitives)
    ((messages.map (Event.send false)).foldl (Link.step primitives) exchanged.link) = link
    at hreceived
  have hcarried : Carried primitives session 3 link.client link.server := hlink ▸ hoffers
  have hlinkSent : link.client.sent = messages := by
    rw [← hlink]
    exact hoffersSent.trans hsent
  have hlinkOffered : link.server.offered.length ≤ n := by
    rw [← hlink]
    refine hoffered.trans ?_
    rw [hserver, List.length_range]
    exact (Nat.zero_add n).le
  -- the last number is out of 64 bits, and its message is refused
  have hlast : (link.server.offer primitives link.client.wire n).received
      = link.server.received := by
    unfold End.offer
    rw [hcarried.wire, List.getElem?_mapIdx]
    cases link.client.sent[n]? with
    | none => rfl
    | some message =>
      rw [Option.map_some]
      simp only []
      rw [decode_late primitives hcarried.receiver_box session _ _ message (by rw [hn]; simp)]
      exact List.append_nil _
  have hcount : link.server.received.length ≤ n := by
    have hrecords := congrArg List.length hcarried.received
    rw [List.length_map, List.length_map] at hrecords
    rw [hrecords]
    exact (Incremental.records_sublist _).length_le.trans hlinkOffered
  have hsame : link.server.received = messages := hlast.symm.trans hreceived
  rw [hsame, hlength] at hcount
  omega

/-! ### Primitives that are correct -/

/-- Primitives of which the key that is agreed on is the sum of two, and a box has
its plain text. -/
def plainPrimitives : Primitives where
  multiplyBase secret := some secret
  multiply secret point := some (List.zipWith (· + ·) secret point)
  hsalsa20 point := point
  encrypt _ _ plain := ⟨(List.replicate tagSize 0 ++ plain).toArray, by simp [Nat.add_comm]⟩
  decrypt _ _ cipher := some ⟨(cipher.drop tagSize).toArray, by simp⟩

theorem plainPrimitives_correct : plainPrimitives.Correct where
  agree := by
    intro secret secret' publicKey publicKey' h h'
    obtain rfl : secret = publicKey := Option.some.inj h
    obtain rfl : secret' = publicKey' := Option.some.inj h'
    refine ⟨_, rfl, ?_⟩
    show some (List.zipWith (· + ·) secret' secret) = some (List.zipWith (· + ·) secret secret')
    rw [List.zipWith_comm_of_comm fun x y => UInt8.add_comm x y]
  inverse := by
    intro key nonce plain
    simp [plainPrimitives]

/-- A keypair of the primitives. -/
def plainKeys (byte : UInt8) : Keypair where
  secret := Vector.replicate keySize byte
  publicKey := Vector.replicate keySize byte

def plainDraw : Cipher.WelcomeDraw where
  transient := plainKeys 4
  cookieKey := Vector.replicate keySize 5
  cookieNonce := Vector.replicate longNonceSize 6
  welcomeNonce := Vector.replicate longNonceSize 7

theorem plainKeys_valid (byte : UInt8) : (plainKeys byte).Valid plainPrimitives := rfl

/-- Two messages of which the first is late. -/
theorem ciphers_pair_late :
    ∃ exchanged, exchange plainPrimitives (plainKeys 1) (plainKeys 2) (plainKeys 3) plainDraw
        (Vector.replicate longNonceSize 8) [9] [10] = some exchanged ∧
      exchanged.clientMetadata = [9] ∧
      Delivers [(0, [11]), (1, [12])] (exchanged.link.run plainPrimitives
        [.send false (0, [11]), .send false (1, [12]), .offer true 1, .offer true 0]).server := by
  obtain ⟨exchanged, hexchange, hmetadata, -, -, hruns⟩ :=
    (ciphers_pair plainPrimitives_correct).1 (plainKeys 1) (plainKeys 2) (plainKeys 3) plainDraw
      rfl rfl rfl rfl (Vector.replicate longNonceSize 8) [9] [10]
  have hdelivers := hruns [.send false (0, [11]), .send false (1, [12]), .offer true 1,
    .offer true 0] (by decide) (by decide)
  exact ⟨exchanged, hexchange, hmetadata, hdelivers.1⟩

/-- With no bound on the messages, what is offered in order is not always received. -/
theorem not_received_all :
    ¬∀ (primitives : Primitives), primitives.Correct → ∀ (clientKeys serverKeys transient : Keypair)
      (draw : Cipher.WelcomeDraw) (vouchNonce : LongNonce), clientKeys.Valid primitives →
      serverKeys.Valid primitives → transient.Valid primitives → draw.transient.Valid primitives →
      ∀ exchanged, exchange primitives clientKeys serverKeys transient draw vouchNonce [] [] =
        some exchanged → ∀ messages : List (UInt8 × Bytes),
        (exchanged.link.run primitives (messages.map (Event.send false) ++
          (List.range messages.length).map (Event.offer true))).server.received = messages := by
  intro h
  have hdraw : plainDraw.transient.Valid plainPrimitives := plainKeys_valid 4
  obtain ⟨exchanged, hexchange, -, -, -, -, session, hsession⟩ := exchange_correct
    plainPrimitives_correct (plainKeys_valid 1) (plainKeys_valid 2) (plainKeys_valid 3) hdraw
    (Vector.replicate longNonceSize 8) [] []
  apply received_short plainPrimitives_correct hsession (n := 2 ^ 64 - 3) (by decide)
    (List.replicate (2 ^ 64 - 3 + 1) (0, [])) List.length_replicate
  exact h plainPrimitives plainPrimitives_correct (plainKeys 1) (plainKeys 2) (plainKeys 3)
    plainDraw (Vector.replicate longNonceSize 8) rfl rfl rfl hdraw exchanged hexchange _

end

end BitcoinNetwork.Zmtp
