import BitcoinNetwork.Incremental.Records
import BitcoinNetwork.Zmtp.Handshake

/-!
# The messages between two sides of a session (zmtp/cipher.cpp)

Both sides encode messages, and each is offered any messages of the other, in
any order and any number of times. What a side decodes are the records of what
it is offered: each message that was sent later than all that it decoded before.
-/

namespace BitcoinNetwork.Zmtp
open Binary

section
variable {primitives : Primitives}

/-! ### One message -/

/-- A MESSAGE of a side. -/
def messageOf (primitives : Primitives) (session label : Bytes) (nonce : ℕ)
    (message : UInt8 × Bytes) : Bytes :=
  nameBytes nameMessage ++ (toBytes 8 nonce ++
    boxed primitives session (shortNonce label nonce) (message.1 :: message.2))

/-- The label of the messages of a side. -/
def labelOf (server : Bool) : Bytes := if server then prefixServer else prefixClient

theorem encode_eq (primitives : Primitives) {c : Cipher} {session : Bytes} (hsession : c.sessionBox = some session)
    (message : UInt8 × Bytes) :
    c.encode primitives message.1 message.2 =
      ({ c with
          seals := c.seals ++ [(session, shortNonce (labelOf c.server) c.nonce)]
          nonce := c.nonce + 1 },
        some (messageOf primitives session (labelOf c.server) c.nonce message)) := by
  unfold Cipher.encode
  simp only [hsession, Cipher.sealBox, messageOf, labelOf, List.append_assoc]

/-- The value that is written for a nonce. -/
theorem ofBytes_toBytes_mod (nonce : ℕ) : ofBytes (toBytes 8 nonce) = nonce % 2 ^ 64 := by
  have hpow : (256 : ℕ) ^ 8 = 2 ^ 64 := by decide
  have hmod : nonce % 2 ^ 64 < 256 ^ 8 := by
    rw [hpow]
    exact Nat.mod_lt _ (by decide)
  calc ofBytes (toBytes 8 nonce)
      = ofBytes (toBytes 8 (nonce / 2 ^ 64 * 256 ^ 8 + nonce % 2 ^ 64)) := by
        rw [hpow, Nat.div_add_mod']
    _ = ofBytes (toBytes 8 (nonce % 2 ^ 64)) := by rw [toBytes_add]
    _ = nonce % 2 ^ 64 := ofBytes_toBytes hmod

theorem messageOf_drop (primitives : Primitives) (session label : Bytes) (nonce : ℕ) (message : UInt8 × Bytes) :
    (messageOf primitives session label nonce message).drop (1 + nameMessage.length) =
      toBytes 8 nonce ++
        boxed primitives session (shortNonce label nonce) (message.1 :: message.2) :=
  drop_nameBytes _ _

theorem messageOf_short (primitives : Primitives) (session label : Bytes) (nonce : ℕ) (message : UInt8 × Bytes) :
    shortNonceValue (messageOf primitives session label nonce message) (1 + nameMessage.length) =
      nonce % 2 ^ 64 := by
  unfold shortNonceValue
  rw [take_of_eq (messageOf_drop primitives session label nonce message) (toBytes_length 8 nonce)]
  exact ofBytes_toBytes_mod nonce

theorem messageOf_size (primitives : Primitives) (session label : Bytes) (nonce : ℕ) (message : UInt8 × Bytes) :
    ¬(messageOf primitives session label nonce message).length < messageMinimum := by
  have hfixed : (nameBytes nameMessage).length + 8 + 1 + tagSize = messageMinimum := by decide
  simp only [messageOf, List.length_append, boxed_length, List.length_cons, toBytes_length]
  omega

/-- A message that is not sent later than those that were decoded is refused. -/
theorem decode_late (primitives : Primitives) {c : Cipher} {session : Bytes} (hsession : c.sessionBox = some session)
    (session' label : Bytes) (nonce : ℕ) (message : UInt8 × Bytes)
    (hlate : nonce % 2 ^ 64 ≤ c.peerNonce) :
    c.decode primitives (messageOf primitives session' label nonce message) = (c, none) := by
  have hname : named (messageOf primitives session' label nonce message) nameMessage = true :=
    named_nameBytes _ _
  have hsize := messageOf_size primitives session' label nonce message
  have hshort := messageOf_short primitives session' label nonce message
  have haccept : c.accept (nonce % 2 ^ 64) = (c, false) := if_pos hlate
  generalize nonce % 2 ^ 64 = value at hshort haccept
  generalize messageOf primitives session' label nonce message = bytes at hname hsize hshort ⊢
  unfold Cipher.decode
  simp only [hsession]
  rw [if_neg (by simp [hsize, hname])]
  simp only [hshort, haccept]
  simp

/-- A message of the other side, that is sent later, is decoded. -/
theorem decode_message (correct : primitives.Correct) {c : Cipher} {session : Bytes}
    (hsession : c.sessionBox = some session) {nonce : ℕ} (message : UInt8 × Bytes)
    (hnonce : c.peerNonce < nonce) (hmax : nonce < 2 ^ 64) :
    c.decode primitives (messageOf primitives session (labelOf (!c.server)) nonce message) =
      ({ c with peerNonce := nonce }, some message) := by
  have hname : named (messageOf primitives session (labelOf (!c.server)) nonce message)
      nameMessage = true := named_nameBytes _ _
  have hlabel : (if c.server then prefixClient else prefixServer) = labelOf (!c.server) := by
    cases c.server <;> simp [labelOf]
  have hshort := messageOf_short primitives session (labelOf (!c.server)) nonce
    message
  rw [Nat.mod_eq_of_lt hmax] at hshort
  have hbox := drop_add_of_eq (messageOf_drop primitives session
    (labelOf (!c.server)) nonce message) (toBytes_length 8 nonce)
  have hsize := messageOf_size primitives session (labelOf (!c.server)) nonce
    message
  have haccept : c.accept nonce = ({ c with peerNonce := nonce }, true) :=
    if_neg (Nat.not_le.mpr hnonce)
  generalize messageOf primitives session (labelOf (!c.server)) nonce message = bytes
    at hname hsize hshort hbox ⊢
  unfold Cipher.decode
  simp only [hsession]
  rw [if_neg (by simp [hsize, hname])]
  simp only [hshort, haccept, shortNonceSize, hbox, hlabel, openBox_boxed correct]
  simp [hsession]

/-- The nonce of a message. -/
def messageNonce (message : Bytes) : ℕ := shortNonceValue message (1 + nameMessage.length)

theorem accept_cases (c : Cipher) (nonce : ℕ) :
    (nonce ≤ c.peerNonce ∧ c.accept nonce = (c, false)) ∨
      (c.peerNonce < nonce ∧ c.accept nonce = ({ c with peerNonce := nonce }, true)) := by
  by_cases h : nonce ≤ c.peerNonce
  · exact .inl ⟨h, if_pos h⟩
  · exact .inr ⟨Nat.not_le.mp h, if_neg h⟩

/-- A message is refused as it is, or its nonce is accepted. -/
theorem decode_cases (primitives : Primitives) (c : Cipher) (message : Bytes) :
    c.decode primitives message = (c, none) ∨
      (c.peerNonce < messageNonce message ∧
        ∃ payload, c.decode primitives message =
          ({ c with peerNonce := messageNonce message }, payload)) := by
  unfold Cipher.decode
  cases hsession : c.sessionBox with
  | none => exact .inl rfl
  | some session =>
    simp only []
    split
    next => exact .inl rfl
    next =>
      rcases accept_cases c (messageNonce message) with ⟨-, haccept⟩ | ⟨hlt, haccept⟩
      · rw [messageNonce] at haccept
        rw [haccept]
        exact .inl (if_pos Bool.false_ne_true)
      · refine .inr ⟨hlt, ?_⟩
        rw [messageNonce] at haccept ⊢
        rw [haccept, if_neg (by simp)]
        simp only [hsession]
        split
        next => exact ⟨none, rfl⟩
        next => exact ⟨none, rfl⟩
        next flags body _ => exact ⟨some (flags, body), rfl⟩

/-- What decoding leaves as it is. -/
theorem decode_frame (primitives : Primitives) (c : Cipher) (message : Bytes) :
    (c.decode primitives message).1.server = c.server ∧
      (c.decode primitives message).1.sessionBox = c.sessionBox ∧
      (c.decode primitives message).1.nonce = c.nonce := by
  rcases decode_cases primitives c message with h | ⟨-, payload, h⟩ <;>
    rw [h] <;> exact ⟨rfl, rfl, rfl⟩

/-! ### Two sides -/

/-- A side: its cipher, what it sent and the messages of it, which messages of
the other it was offered, and what it decoded. -/
structure End where
  cipher : Cipher
  sent : List (UInt8 × Bytes) := []
  wire : List Bytes := []
  offered : List ℕ := []
  received : List (UInt8 × Bytes) := []

/-- A message is encoded. -/
def End.send (primitives : Primitives) (side : End) (message : UInt8 × Bytes) : End :=
  let encoded := side.cipher.encode primitives message.1 message.2
  { side with
    cipher := encoded.1
    sent := side.sent ++ [message]
    wire := side.wire ++ encoded.2.toList }

/-- A message of the other side is offered, if there is such a one. -/
def End.offer (primitives : Primitives) (side : End) (wire : List Bytes) (index : ℕ) : End :=
  match wire[index]? with
  | none => side
  | some message =>
    let decoded := side.cipher.decode primitives message
    { side with
      cipher := decoded.1
      offered := side.offered ++ [index]
      received := side.received ++ decoded.2.toList }

@[simp] theorem End.offer_sent (side : End) (wire : List Bytes) (index : ℕ) :
    (side.offer primitives wire index).sent = side.sent := by
  unfold End.offer
  cases wire[index]? <;> rfl

structure Link where
  client : End
  server : End

/-- What may happen: a side encodes a message, or is offered one of the other. -/
inductive Event
  | send (server : Bool) (message : UInt8 × Bytes)
  | offer (server : Bool) (index : ℕ)

def Link.step (primitives : Primitives) (link : Link) : Event → Link
  | .send true message => { link with server := link.server.send primitives message }
  | .send false message => { link with client := link.client.send primitives message }
  | .offer true index => { link with server := link.server.offer primitives link.client.wire index }
  | .offer false index => { link with client := link.client.offer primitives link.server.wire index }

def Link.run (primitives : Primitives) (link : Link) (events : List Event) : Link :=
  events.foldl (Link.step primitives) link

/-- A message that a side is to encode. -/
def Event.sentBy (server : Bool) : Event → Option (UInt8 × Bytes)
  | .send server' message => if server = server' then some message else none
  | .offer _ _ => none

/-- What holds of one direction of a session, of which the first message has the
nonce of the base. -/
structure Carried (primitives : Primitives) (session : Bytes) (base : ℕ)
    (sender receiver : End) : Prop where
  sender_box : sender.cipher.sessionBox = some session
  receiver_box : receiver.cipher.sessionBox = some session
  sides : sender.cipher.server = !receiver.cipher.server
  nonce : sender.cipher.nonce = base + sender.sent.length
  wire : sender.wire = sender.sent.mapIdx fun index message =>
    messageOf primitives session (labelOf sender.cipher.server) (base + index) message
  late (index : ℕ) : receiver.cipher.peerNonce < base + index ↔
    ∀ record ∈ Incremental.records receiver.offered, record < index
  received : receiver.received.map some =
    (Incremental.records receiver.offered).map fun index => sender.sent[index]?
  offered : ∀ index ∈ receiver.offered, index < sender.sent.length

namespace Carried
variable {session : Bytes} {base : ℕ} {sender receiver : End}

theorem send_sender (h : Carried primitives session base sender receiver)
    (message : UInt8 × Bytes) :
    Carried primitives session base (sender.send primitives message) receiver := by
  have hsent (index : ℕ) (hindex : index ∈ Incremental.records receiver.offered) :
      (sender.sent ++ [message])[index]? = sender.sent[index]? := by
    have hmem := (Incremental.records_sublist receiver.offered).subset hindex
    exact List.getElem?_append_left (h.offered index hmem)
  unfold End.send
  rw [encode_eq primitives h.sender_box]
  exact {
    h with
    nonce := by
      show sender.cipher.nonce + 1 = base + (sender.sent ++ [message]).length
      rw [h.nonce, List.length_append, List.length_singleton, Nat.add_assoc]
    wire := by
      show sender.wire ++ [_] = (sender.sent ++ [message]).mapIdx fun index message =>
        messageOf primitives session (labelOf sender.cipher.server) (base + index) message
      rw [h.wire, List.mapIdx_append, h.nonce, List.mapIdx_cons, List.mapIdx_nil, Nat.zero_add]
    received := by
      show _ = (Incremental.records receiver.offered).map fun index =>
        (sender.sent ++ [message])[index]?
      rw [h.received]
      exact List.map_congr_left fun index hindex => (hsent index hindex).symm
    offered := fun index hindex => by
      have hlt := h.offered index hindex
      show index < (sender.sent ++ [message]).length
      rw [List.length_append]
      omega }

theorem send_receiver (h : Carried primitives session base sender receiver)
    (message : UInt8 × Bytes) :
    Carried primitives session base sender (receiver.send primitives message) := by
  unfold End.send
  rw [encode_eq primitives h.receiver_box]
  exact { h with }

theorem offer_sender (h : Carried primitives session base sender receiver) (wire : List Bytes)
    (index : ℕ) : Carried primitives session base (sender.offer primitives wire index) receiver := by
  unfold End.offer
  cases wire[index]? with
  | none => exact h
  | some message =>
    obtain ⟨hserver, hbox, hnonce⟩ := decode_frame primitives sender.cipher message
    exact {
      h with
      sender_box := hbox.trans h.sender_box
      sides := hserver.trans h.sides
      nonce := hnonce.trans h.nonce
      wire := by
        show sender.wire = sender.sent.mapIdx fun index message' => messageOf primitives session
          (labelOf (sender.cipher.decode primitives message).1.server) (base + index) message'
        rw [hserver]
        exact h.wire }

theorem offer_receiver (correct : primitives.Correct)
    (h : Carried primitives session base sender receiver) {index : ℕ}
    (hmax : index < sender.sent.length → base + index < 2 ^ 64) :
    Carried primitives session base sender (receiver.offer primitives sender.wire index) := by
  unfold End.offer
  rw [h.wire, List.getElem?_mapIdx]
  cases hmessage : sender.sent[index]? with
  | none =>
    rw [Option.map_none]
    exact h
  | some message =>
    rw [Option.map_some]
    have hindex : index < sender.sent.length := (List.getElem?_eq_some_iff.mp hmessage).1
    have hlt : base + index < 2 ^ 64 := hmax hindex
    have hoffered (index' : ℕ) (h' : index' ∈ receiver.offered ++ [index]) :
        index' < sender.sent.length := by
      rcases List.mem_append.mp h' with h' | h'
      · exact h.offered index' h'
      · rw [List.mem_singleton.mp h']
        exact hindex
    by_cases hnew : receiver.cipher.peerNonce < base + index
    · have hdecode := decode_message correct h.receiver_box message hnew hlt
      rw [← h.sides] at hdecode
      have hrecords : Incremental.records (receiver.offered ++ [index]) =
          Incremental.records receiver.offered ++ [index] := by
        rw [Incremental.records_concat, Incremental.addRecord, if_pos ((h.late index).mp hnew)]
      simp only [hdecode]
      exact {
        h with
        late := fun index' => by
          show base + index < base + index' ↔ ∀ record ∈ Incremental.records
            (receiver.offered ++ [index]), record < index'
          rw [hrecords]
          constructor
          · intro hlater record hrecord
            rcases List.mem_append.mp hrecord with hrecord | hrecord
            · have := (h.late index).mp hnew record hrecord
              omega
            · rw [List.mem_singleton.mp hrecord]
              omega
          · intro hall
            have := hall index (List.mem_append_right _ (List.mem_singleton_self _))
            omega
        received := by
          show (receiver.received ++ [message]).map some = (Incremental.records
            (receiver.offered ++ [index])).map _
          rw [hrecords, List.map_append, List.map_append, h.received]
          show _ ++ [some message] = _ ++ [sender.sent[index]?]
          rw [hmessage]
        offered := hoffered }
    · have hmod : (base + index) % 2 ^ 64 ≤ receiver.cipher.peerNonce := by
        rw [Nat.mod_eq_of_lt hlt]
        exact Nat.not_lt.mp hnew
      have hdecode := decode_late primitives h.receiver_box session
        (labelOf sender.cipher.server) (base + index) message hmod
      have hrecords : Incremental.records (receiver.offered ++ [index]) =
          Incremental.records receiver.offered := by
        rw [Incremental.records_concat, Incremental.addRecord,
          if_neg fun hall => hnew ((h.late index).mpr hall)]
      simp only [hdecode]
      exact {
        h with
        late := fun index' => by
          show receiver.cipher.peerNonce < base + index' ↔ ∀ record ∈ Incremental.records
            (receiver.offered ++ [index]), record < index'
          rw [hrecords]
          exact h.late index'
        received := by
          show (receiver.received ++ []).map some = (Incremental.records
            (receiver.offered ++ [index])).map _
          rw [hrecords, List.append_nil]
          exact h.received
        offered := hoffered }

end Carried

/-- The messages that a side is to encode. -/
def sentIn (server : Bool) (events : List Event) : List (UInt8 × Bytes) :=
  events.filterMap (Event.sentBy server)

/-- Both directions of a session. -/
structure Link.Carries (primitives : Primitives) (session : Bytes) (link : Link) : Prop where
  toServer : Carried primitives session 3 link.client link.server
  toClient : Carried primitives session 2 link.server link.client
  client_fits : 3 + link.client.sent.length ≤ 2 ^ 64
  server_fits : 2 + link.server.sent.length ≤ 2 ^ 64

theorem Link.Carries.step (correct : primitives.Correct) {session : Bytes} {link : Link}
    (h : link.Carries primitives session) (event : Event)
    (hclient : 3 + (link.client.sent ++ sentIn false [event]).length ≤ 2 ^ 64)
    (hserver : 2 + (link.server.sent ++ sentIn true [event]).length ≤ 2 ^ 64) :
    (link.step primitives event).Carries primitives session := by
  cases event with
  | send server message =>
    cases server with
    | false =>
      exact ⟨h.toServer.send_sender message, h.toClient.send_receiver message, hclient,
        h.server_fits⟩
    | true =>
      exact ⟨h.toServer.send_receiver message, h.toClient.send_sender message, h.client_fits,
        hserver⟩
  | offer server index =>
    cases server with
    | false =>
      have hsent : (link.client.offer primitives link.server.wire index).sent
          = link.client.sent := End.offer_sent _ _ _
      refine ⟨h.toServer.offer_sender _ _, h.toClient.offer_receiver correct (by have := h.server_fits; omega), ?_,
        h.server_fits⟩
      show 3 + (link.client.offer primitives link.server.wire index).sent.length ≤ 2 ^ 64
      rw [hsent]
      exact h.client_fits
    | true =>
      have hsent : (link.server.offer primitives link.client.wire index).sent
          = link.server.sent := End.offer_sent _ _ _
      refine ⟨h.toServer.offer_receiver correct (by have := h.client_fits; omega), h.toClient.offer_sender _ _,
        h.client_fits, ?_⟩
      show 2 + (link.server.offer primitives link.client.wire index).sent.length ≤ 2 ^ 64
      rw [hsent]
      exact h.server_fits

/-- What was sent is what was to be sent. -/
theorem Link.step_sent (primitives : Primitives) (link : Link) (event : Event) :
    (link.step primitives event).client.sent = link.client.sent ++ sentIn false [event] ∧
      (link.step primitives event).server.sent = link.server.sent ++ sentIn true [event] := by
  cases event with
  | send server message => cases server <;> simp [Link.step, sentIn, Event.sentBy, End.send]
  | offer server index =>
    cases server <;> simp [Link.step, sentIn, Event.sentBy, End.offer_sent]

theorem Link.run_carries (correct : primitives.Correct) {session : Bytes} (events : List Event)
    {link : Link} (h : link.Carries primitives session)
    (hclient : 3 + (link.client.sent ++ sentIn false events).length ≤ 2 ^ 64)
    (hserver : 2 + (link.server.sent ++ sentIn true events).length ≤ 2 ^ 64) :
    (link.run primitives events).Carries primitives session ∧
      (link.run primitives events).client.sent = link.client.sent ++ sentIn false events ∧
      (link.run primitives events).server.sent = link.server.sent ++ sentIn true events := by
  induction events generalizing link with
  | nil => exact ⟨h, (List.append_nil _).symm, (List.append_nil _).symm⟩
  | cons event events ih =>
    have hsplit (server : Bool) : sentIn server (event :: events)
        = sentIn server [event] ++ sentIn server events := by
      rw [sentIn, ← List.singleton_append, List.filterMap_append]
      rfl
    obtain ⟨hstepClient, hstepServer⟩ := link.step_sent primitives event
    rw [hsplit, ← List.append_assoc] at hclient hserver ⊢
    rw [hsplit, ← List.append_assoc, ← hstepClient, ← hstepServer]
    rw [← hstepClient] at hclient
    rw [← hstepServer] at hserver
    have hfront {n : ℕ} {front rest : List (UInt8 × Bytes)} (h : n + (front ++ rest).length ≤ 2 ^ 64) :
        n + front.length ≤ 2 ^ 64 := by
      rw [List.length_append] at h
      omega
    exact ih (h.step correct event (hstepClient ▸ hfront hclient) (hstepServer ▸ hfront hserver))
      hclient hserver

end

end BitcoinNetwork.Zmtp
