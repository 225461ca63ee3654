import BitcoinNetwork.P2ps.Scan

/-!
# Messages between two ends (p2ps/stream.cpp)

Two ciphers that are keyed in opposite roles stay in step, packet by packet, so
that one end reads what the other one writes: the messages, and no decoy.
-/

namespace BitcoinNetwork.P2ps
open Binary Async
open Http (ascii)

/-! ### The contents of a message -/

/-- A message as it is read: a command goes with no short identifier, is no
longer than its field and has no zero in it. -/
def Message.WellFormed (m : Message) : Prop :=
  if m.identifier = 0 then m.command.length ≤ commandSize ∧ 0 ∉ m.command else m.command = []

/-- What is read of the contents of a message: the command only of a long one. -/
def Message.delivered (m : Message) : Message :=
  { m with command := if m.identifier = 0 then m.command else [] }

theorem Message.delivered_contents (m : Message) : m.delivered.contents = m.contents := by
  unfold Message.delivered Message.contents
  by_cases hidentifier : m.identifier = 0
  · simp only [hidentifier, if_true]
  · simp only [hidentifier, if_false]

/-- The command is what is before the zeros of its field. -/
theorem takeWhile_field {command : Bytes} (h : 0 ∉ command) (pad : ℕ) :
    (command ++ List.replicate pad 0).takeWhile (· ≠ 0) = command := by
  have hpad : (List.replicate pad (0 : UInt8)).takeWhile (· ≠ 0) = [] := by
    cases pad with
    | zero => rfl
    | succ pad => rfl
  rw [List.takeWhile_append_of_pos, hpad, List.append_nil]
  intro byte hbyte
  apply decide_eq_true
  rintro rfl
  exact h hbyte

/-- A field with nothing but zeros behind its command. -/
theorem field_eq {field : Bytes}
    (h : (field.drop (field.takeWhile (· ≠ 0)).length).all (· == 0) = true) :
    field.takeWhile (· ≠ 0) ++
      List.replicate (field.length - (field.takeWhile (· ≠ 0)).length) 0 = field := by
  have htake : field.take (field.takeWhile (· ≠ 0)).length = field.takeWhile (· ≠ 0) :=
    (List.prefix_iff_eq_take.mp (List.takeWhile_prefix _)).symm
  have hzeros := List.eq_replicate_of_mem fun byte hbyte =>
    beq_iff_eq.mp (List.all_eq_true.mp h byte hbyte)
  rw [List.length_drop] at hzeros
  rw [← hzeros]
  conv => lhs; arg 1; rw [← htake]
  exact List.take_append_drop _ _

theorem zero_notMem_takeWhile (field : Bytes) : 0 ∉ field.takeWhile (· ≠ 0) := by
  intro hzero
  have h := List.mem_takeWhile_imp hzero
  cases h

/-- What is split is the contents of a well formed message, and nothing else is. -/
theorem split_eq_some {contents : Bytes} {m : Message} :
    Stream.split contents = some m ↔ m.WellFormed ∧ contents = m.contents := by
  unfold Message.WellFormed Message.contents
  constructor
  · intro hsplit
    cases contents with
    | nil => cases hsplit
    | cons identifier rest =>
      unfold Stream.split at hsplit
      dsimp only at hsplit
      by_cases hidentifier : identifier = 0
      · subst hidentifier
        rw [if_neg (by decide)] at hsplit
        by_cases hshort : rest.length < commandSize
        · rw [if_pos hshort] at hsplit
          cases hsplit
        · rw [if_neg hshort] at hsplit
          have hfield : (rest.take commandSize).length = commandSize := by
            rw [List.length_take]
            omega
          split at hsplit
          · rename_i hzeros
            cases hsplit
            have hrest := field_eq hzeros
            rw [hfield] at hrest
            rw [if_pos rfl, if_pos rfl, List.cons_append, hrest, List.take_append_drop]
            refine ⟨⟨?_, zero_notMem_takeWhile _⟩, rfl⟩
            calc ((rest.take commandSize).takeWhile (· ≠ 0)).length
                ≤ (rest.take commandSize).length := (List.takeWhile_prefix _).length_le
              _ = commandSize := hfield
          · cases hsplit
      · rw [if_pos hidentifier] at hsplit
        cases hsplit
        rw [if_neg hidentifier, if_neg hidentifier]
        exact ⟨rfl, rfl⟩
  · rintro ⟨hformed, rfl⟩
    obtain ⟨identifier, command, payload⟩ := m
    unfold Stream.split
    by_cases hidentifier : identifier = 0
    · subst hidentifier
      obtain ⟨hsize, hzero⟩ : command.length ≤ commandSize ∧ 0 ∉ command := hformed
      dsimp only [List.cons_append]
      rw [if_pos rfl, if_neg (by decide)]
      have hfield : (command ++ List.replicate (commandSize - command.length) 0).length =
          commandSize := by
        rw [List.length_append, List.length_replicate]
        omega
      have htake : (command ++ List.replicate (commandSize - command.length) 0 ++ payload).take
          commandSize = command ++ List.replicate (commandSize - command.length) 0 :=
        List.take_left' hfield
      have hdrop : (command ++ List.replicate (commandSize - command.length) 0 ++ payload).drop
          commandSize = payload := List.drop_left' hfield
      rw [if_neg (by rw [List.length_append, hfield]; omega), htake, hdrop, takeWhile_field hzero,
        List.drop_left, if_pos]
      rw [List.all_eq_true]
      intro byte hbyte
      exact beq_iff_eq.mpr (List.eq_of_mem_replicate hbyte)
    · obtain rfl : command = [] := by
        rw [if_neg hidentifier] at hformed
        exact hformed
      rw [if_neg hidentifier]
      dsimp only [List.cons_append]
      rw [if_pos hidentifier]
      rfl

/-! ### Ciphers in step -/

/-- A cipher undoes what one in the same state has done, and both advance alike. -/
structure Primitives.Inverse (primitives : Primitives) : Prop where
  crypt (c : primitives.LengthCipher) (bytes : Bytes) :
    (primitives.crypt c (primitives.crypt c bytes).2.toList).1 = (primitives.crypt c bytes).1 ∧
    (primitives.crypt c (primitives.crypt c bytes).2.toList).2.toList = bytes
  packet (c : primitives.PacketCipher) (header contents aad : Bytes) :
    (primitives.decrypt c aad (primitives.encrypt c header contents aad).2.toList).1 =
      (primitives.encrypt c header contents aad).1 ∧
    (primitives.decrypt c aad (primitives.encrypt c header contents aad).2.toList).2.map
      Vector.toList = some (header ++ contents)

section
variable {primitives : Primitives} {α : Type}

/-- The one seals as the other opens. -/
structure InStep (sender receiver : Cipher primitives) : Prop where
  length : sender.sendLength = receiver.receiveLength
  packet : sender.sendPacket = receiver.receivePacket

/-- The receiver behind a packet, as it is read: its length, and then the rest. -/
def Cipher.received (c : Cipher primitives) (aad packet : Bytes) : Cipher primitives :=
  ((c.decryptLength (packet.take lengthSize)).1.decrypt aad (packet.drop lengthSize)).1

/-- Two ciphers that were keyed by one handshake in opposite roles, and between
which packets have passed. -/
inductive Keyed (primitives : Primitives) : Cipher primitives → Cipher primitives → Prop
  | exchanged {initiator responder : Keypair} {identifier : UInt32}
      {a b : Cipher primitives}
      (agreed : primitives.exchange initiator.secret initiator.publicKey.toList
          responder.publicKey.toList false =
        primitives.exchange responder.secret initiator.publicKey.toList
          responder.publicKey.toList true)
      (initiates : Cipher.initializeKeys primitives initiator responder.publicKey.toList identifier
        true = some a)
      (responds : Cipher.initializeKeys primitives responder initiator.publicKey.toList identifier
        false = some b) : Keyed primitives a b
  | opposite {a b : Cipher primitives} (keyed : Keyed primitives a b) : Keyed primitives b a
  | passed {a b : Cipher primitives} (keyed : Keyed primitives a b) (contents aad : Bytes)
      (ignore : Bool) (fits : contents.length ≤ maximumContent) :
      Keyed primitives (a.encrypt contents aad ignore).1
        (b.received aad (a.encrypt contents aad ignore).2)

/-! ### One packet -/

theorem encrypt_length_lt {size : ℕ} (h : size ≤ maximumContent) : size < 256 ^ lengthSize :=
  Nat.lt_of_le_of_lt h (by decide)

/-- What is opened, of a header and contents. -/
theorem decrypt_opened (c : Cipher primitives) {aad packet contents : Bytes} {ignore : Bool}
    (h : (primitives.decrypt c.receivePacket aad packet).2.map Vector.toList =
      some ([if ignore then ignoreBit else 0] ++ contents)) :
    (c.decrypt aad packet).2 = some (ignore, contents) := by
  obtain ⟨plain, hplain, hbytes⟩ := Option.map_eq_some_iff.mp h
  unfold Cipher.decrypt
  dsimp only
  rw [hplain, Option.map_some, hbytes]
  cases ignore with
  | true =>
    show some (ignoreBit &&& ignoreBit != 0, contents) = _
    rw [show (ignoreBit &&& ignoreBit != 0) = true from by decide]
  | false =>
    show some (0 &&& ignoreBit != 0, contents) = _
    rw [show ((0 : UInt8) &&& ignoreBit != 0) = false from by decide]

/-- What a packet is read as at the other end, and that the ends stay in step. -/
theorem encrypt_received (hinverse : primitives.Inverse) {sender receiver : Cipher primitives}
    (h : InStep sender receiver) (contents aad : Bytes) (ignore : Bool)
    (hsize : contents.length ≤ maximumContent) :
    ∃ length packet, (sender.encrypt contents aad ignore).2 = length ++ packet ∧
      length.length = lengthSize ∧ packet.length = headerSize + contents.length + tagSize ∧
      (receiver.decryptLength length).2 = contents.length ∧
      ((receiver.decryptLength length).1.decrypt aad packet).2 = some (ignore, contents) ∧
      InStep (sender.encrypt contents aad ignore).1
        ((receiver.decryptLength length).1.decrypt aad packet).1 := by
  have hcrypt := hinverse.crypt sender.sendLength (toBytes lengthSize contents.length).reverse
  have hpacket := hinverse.packet sender.sendPacket [if ignore then ignoreBit else 0] contents aad
  refine ⟨_, _, rfl, ?_, ?_, ?_, ?_, ?_, ?_⟩
  · rw [Vector.length_toList, List.length_reverse, toBytes_length]
  · rw [Vector.length_toList]
    rfl
  · unfold Cipher.decryptLength
    dsimp only
    rw [← h.length, hcrypt.2, List.reverse_reverse, ofBytes_toBytes (encrypt_length_lt hsize)]
  · apply decrypt_opened
    show (primitives.decrypt receiver.receivePacket aad _).2.map Vector.toList = _
    rw [← h.packet]
    exact hpacket.2
  · show _ = (primitives.crypt receiver.receiveLength _).1
    rw [← h.length]
    exact hcrypt.1.symm
  · show _ = (primitives.decrypt receiver.receivePacket aad _).1
    rw [← h.packet]
    exact hpacket.1.symm

/-- Ciphers that are keyed by one handshake are in step, in either direction. -/
theorem Keyed.inStep (hinverse : primitives.Inverse) {a b : Cipher primitives}
    (h : Keyed primitives a b) : InStep a b ∧ InStep b a := by
  induction h with
  | exchanged agreed initiates responds =>
    unfold Cipher.initializeKeys at initiates responds
    simp only [if_true, Bool.false_eq_true, if_false, Bool.not_true, Bool.not_false] at initiates responds
    rw [agreed] at initiates
    split at initiates
    · cases initiates
    · rename_i ecdh hecdh
      rw [hecdh] at responds
      cases initiates
      cases responds
      exact ⟨⟨rfl, rfl⟩, ⟨rfl, rfl⟩⟩
  | opposite keyed ih => exact ih.symm
  | passed keyed contents aad ignore fits ih =>
    obtain ⟨length, packet, hpacket, hsize, -, -, -, hstep⟩ :=
      encrypt_received hinverse ih.1 contents aad ignore fits
    refine ⟨?_, ⟨ih.2.length, ih.2.packet⟩⟩
    unfold Cipher.received
    rw [hpacket, ← hsize, List.take_left, List.drop_left]
    exact hstep

/-! ### Packets read -/

variable {s : Stream primitives} {t : Transport}

/-- A read of what is pending in front. -/
theorem readExactly_front {size : ℕ} {front rest : Bytes}
    (handler : Stream primitives → Except Code Bytes → Program α)
    (hpending : pending s t = front ++ rest) (hsize : front.length = size) :
    ∃ s' t', (s.readExactly size handler).run t = (handler s' (.ok front)).run t' ∧
      pending s' t' = rest ∧ s'.cipher = s.cipher ∧ t'.fault = t.fault := by
  rcases readExactly_cases size handler s t with
    ⟨bytes, residue, input, hrun, hcut, hbytes⟩ | ⟨hshort, -⟩
  · obtain ⟨rfl, hrest⟩ := List.append_inj (hpending.symm.trans hcut) (hsize.trans hbytes.symm)
    exact ⟨_, _, hrun, hrest.symm, rfl, rfl⟩
  · rw [hpending, List.length_append] at hshort
    omega

/-- A packet in front is read as it was sealed, if its bound allows. -/
theorem readPacket_received (hinverse : primitives.Inverse) {sender : Cipher primitives}
    (h : InStep sender s.cipher) {contents aad rest : Bytes} {ignore : Bool}
    (hsize : contents.length ≤ maximumContent)
    (hpending : pending s t = (sender.encrypt contents aad ignore).2 ++ rest) (bound : ℕ)
    (handler : Stream primitives → Except Code (Bool × Bytes) → Program α) :
    ∃ s' t', (contents.length ≤ bound → (s.readPacket bound aad handler).run t =
        (handler s' (.ok (ignore, contents))).run t' ∧
        InStep (sender.encrypt contents aad ignore).1 s'.cipher ∧ pending s' t' = rest ∧
        t'.fault = t.fault) ∧
      (bound < contents.length → (s.readPacket bound aad handler).run t =
        (handler s' (.error .protocolError)).run t') := by
  obtain ⟨length, packet, hpacket, hlength, hpacketSize, hdecrypted, hopened, hstep⟩ :=
    encrypt_received hinverse h contents aad ignore hsize
  rw [hpacket, List.append_assoc] at hpending
  unfold Stream.readPacket
  obtain ⟨s₁, t₁, hrun, hpending₁, hcipher₁, hfault₁⟩ := readExactly_front _ hpending hlength
  rw [hrun]
  dsimp only
  rw [hcipher₁, hdecrypted]
  by_cases hbound : bound < contents.length
  · rw [if_pos hbound]
    exact ⟨_, t₁, fun hle => absurd hbound (Nat.not_lt.mpr hle), fun _ => rfl⟩
  · rw [if_neg hbound]
    set s₂ : Stream primitives := { s₁ with cipher := (s.cipher.decryptLength length).1 }
    have hpending₂ : pending s₂ t₁ = packet ++ rest := hpending₁
    obtain ⟨s₃, t₃, hrun₃, hpending₃, hcipher₃, hfault₃⟩ :=
      readExactly_front _ hpending₂ hpacketSize
    rw [hrun₃]
    have hplain : (s₃.openPacket aad packet).2 = some (ignore, contents) := by
      show (s₃.cipher.decrypt aad packet).2 = _
      rw [hcipher₃]
      exact hopened
    refine ⟨(s₃.openPacket aad packet).1, t₃, fun _ => ⟨?_, ?_, hpending₃, hfault₃.trans hfault₁⟩,
      fun hlt => absurd hlt hbound⟩
    · dsimp only
      rw [hplain]
    · show InStep _ (s₃.cipher.decrypt aad packet).1
      rw [hcipher₃]
      exact hstep

/-! ### Packets sent -/

/-- What one end sends: a message, or a decoy, which the other is to discard. -/
inductive Packet
  | message (m : Message)
  | decoy (contents : Bytes)

def Packet.contents : Packet → Bytes
  | .message m => m.contents
  | .decoy contents => contents

def Packet.ignore : Packet → Bool
  | .message _ => false
  | .decoy _ => true

/-- The packets are written, one behind the other. -/
def sendPackets : List Packet → Stream primitives → Program Code
  | [], _ => .stop
  | .decoy contents :: packets, s =>
    .write (s.cipher.encrypt contents [] true).2 fun _ =>
      sendPackets packets { s with cipher := (s.cipher.encrypt contents [] true).1 }
  | .message m :: packets, s =>
    s.asyncWriteMessage m fun s code => .handle code (sendPackets packets s)

/-- Messages are read, each up to the maximum, until one is not. -/
def receiveMessages (turns maximum : ℕ) : ℕ → Stream primitives → Program (Except Code Message)
  | 0, _ => .stop
  | count + 1, s =>
    Stream.asyncReadMessage turns s maximum fun s result =>
      .handle result <| match result with
        | .ok _ => receiveMessages turns maximum count s
        | .error _ => .stop

/-- The bytes of packets. -/
def sealed : List Packet → Cipher primitives → Bytes
  | [], _ => []
  | packet :: packets, c =>
    (c.encrypt packet.contents [] packet.ignore).2 ++
      sealed packets (c.encrypt packet.contents [] packet.ignore).1

/-- The messages among packets, as they are delivered, and then the error of a
read behind the last. -/
def results (delivered : Message → Message) (fault : ℕ) : List Packet → List (Except Code Message)
  | [] => [.error (.transport fault)]
  | .decoy _ :: packets => results delivered fault packets
  | .message m :: packets => .ok (delivered m) :: results delivered fault packets

/-- A packet of which the reader takes the contents; and a message of which the
writer takes the command, which has no zero in it if it is sent. -/
structure Packet.Fits (maximum : ℕ) (packet : Packet) : Prop where
  contents : packet.contents.length ≤ min maximumContent (maximum + (commandSize + 1))
  command (m : Message) (h : packet = .message m) :
    m.command.length ≤ commandSize ∧ (m.identifier = 0 → 0 ∉ m.command)

theorem Message.contents_length {m : Message} (h : m.command.length ≤ commandSize) :
    m.contents.length = m.prefixSize + m.payload.length := by
  unfold Message.contents Message.prefixSize
  by_cases hidentifier : m.identifier = 0
  · rw [if_pos hidentifier, if_pos hidentifier, List.length_append, List.length_cons,
      List.length_append, List.length_replicate]
    omega
  · rw [if_neg hidentifier, if_neg hidentifier, List.length_append, List.length_singleton]

/-- The message that a message which fits is read as. -/
theorem split_contents {m : Message} (h : m.identifier = 0 → 0 ∉ m.command)
    (hsize : m.command.length ≤ commandSize) :
    Stream.split m.contents = some m.delivered := by
  apply split_eq_some.mpr
  refine ⟨?_, m.delivered_contents.symm⟩
  unfold Message.WellFormed Message.delivered
  by_cases hidentifier : m.identifier = 0
  · simp only [hidentifier, if_true]
    exact ⟨hsize, h hidentifier⟩
  · simp only [hidentifier, if_false]

/-- Packets that fit are written, and are what was sealed. -/
theorem sendPackets_run {packets : List Packet} {maximum : ℕ}
    (hfits : ∀ packet ∈ packets, packet.Fits maximum) (haccepts : t.Accepts) :
    (((sendPackets packets s).run t).2.written.map Prod.fst).flatten =
      (t.written.map Prod.fst).flatten ++ sealed packets s.cipher := by
  induction packets generalizing s t with
  | nil => exact (List.append_nil _).symm
  | cons packet packets ih =>
    have hrest : ∀ packet ∈ packets, packet.Fits maximum :=
      fun packet hpacket => hfits packet (List.mem_cons_of_mem _ hpacket)
    have hwritten (bytes : Bytes) : ((t.write bytes).2.written.map Prod.fst).flatten =
        (t.written.map Prod.fst).flatten ++ bytes := by
      show ((t.written ++ [_]).map Prod.fst).flatten = _
      rw [List.map_append, List.flatten_append]
      simp
    have hfit := hfits packet List.mem_cons_self
    cases packet with
    | decoy contents =>
      rw [sendPackets, Program.run_write_accepted _ _ haccepts, ih hrest (haccepts.write _).2,
        hwritten, List.append_assoc]
      rfl
    | message m =>
      have hsize := (hfit.command m rfl).1
      have hpayload : ¬maximumContent - m.prefixSize < m.payload.length := by
        have hcontents := hfit.contents
        show ¬_ < _
        rw [Packet.contents, Message.contents_length hsize] at hcontents
        omega
      rw [sendPackets, Stream.asyncWriteMessage,
        if_neg (not_or.mpr ⟨Nat.not_lt.mpr hsize, hpayload⟩), Program.run_write_accepted _ _ haccepts]
      show (((Program.handle Code.success (sendPackets packets
        { s with cipher := (s.cipher.encrypt m.contents [] false).1 })).run _).2.written.map
          Prod.fst).flatten = _
      rw [Program.run_handle, ih hrest (haccepts.write _).2, hwritten, List.append_assoc]
      rfl

/-- What is pending as packets is read as their messages. -/
theorem receiveMessages_run (hinverse : primitives.Inverse) {sender : Cipher primitives}
    {packets : List Packet} {turns maximum : ℕ}
    (hstep : InStep sender s.cipher) (hfits : ∀ packet ∈ packets, packet.Fits maximum)
    (hpending : pending s t = sealed packets sender) (left : ℕ) (hleft : packets.length < left)
    (hturns : packets.length < turns) (count : ℕ) :
    ((Stream.asyncReadMessage left s maximum fun s result =>
        .handle result <| match result with
          | .ok _ => receiveMessages turns maximum count s
          | .error _ => .stop).run t).1 =
      (results Message.delivered t.fault packets).take (count + 1) := by
  induction packets generalizing s t sender left count with
  | nil =>
    obtain ⟨left, rfl⟩ : ∃ more, left = more + 1 := ⟨left - 1, by simp at hleft; omega⟩
    rw [Stream.asyncReadMessage, Stream.readPacket]
    rcases readExactly_cases lengthSize _ s t with ⟨bytes, residue, input, -, hcut, hsize⟩ | ⟨-, hrun⟩
    · rw [hpending] at hcut
      have hlength := congrArg List.length hcut
      rw [List.length_append, hsize, sealed, List.length_nil] at hlength
      unfold lengthSize at hlength
      omega
    · rw [hrun, results, List.take_succ_cons, List.take_nil]
      rfl
  | cons packet packets ih =>
    obtain ⟨left, rfl⟩ : ∃ more, left = more + 1 := ⟨left - 1, by simp at hleft; omega⟩
    rw [List.length_cons] at hleft hturns
    have hfit := hfits packet List.mem_cons_self
    have hrest : ∀ packet ∈ packets, packet.Fits maximum :=
      fun packet hpacket => hfits packet (List.mem_cons_of_mem _ hpacket)
    have hcontents : packet.contents.length ≤ maximumContent :=
      hfit.contents.trans (Nat.min_le_left _ _)
    rw [Stream.asyncReadMessage]
    obtain ⟨s', t', hread, -⟩ := readPacket_received hinverse hstep hcontents hpending
      (min maximumContent (maximum + (commandSize + 1))) _
    obtain ⟨hrun, hstep', hpending', hfault⟩ := hread hfit.contents
    rw [hrun]
    cases packet with
    | decoy contents =>
      have hnext := ih hstep' hrest hpending' left (by omega) (by omega) count
      rw [hfault] at hnext
      exact hnext
    | message m =>
      obtain ⟨hsize, hzero⟩ := hfit.command m rfl
      have hsplit : Stream.split (Packet.message m).contents = some m.delivered :=
        split_contents hzero hsize
      have hignore : (Packet.message m).ignore = false := rfl
      rw [hignore]
      dsimp only
      rw [hsplit, Program.run_handle]
      show .ok m.delivered :: ((receiveMessages turns maximum count s').run t').1 =
        .ok m.delivered :: (results Message.delivered t.fault packets).take count
      cases count with
      | zero => rfl
      | succ count =>
        have hnext := ih hstep' hrest hpending' turns (by omega) (by omega) count
        rw [hfault] at hnext
        exact congrArg _ hnext

/-! ### Two ends -/

/-- What one end is asked to send in packets arrives at the other, however it is
keyed and whatever passed between the two before. -/
def Transports (primitives : Primitives) (delivered : Message → Message) (packets : List Packet)
    (maximum : ℕ) : Prop :=
  ∀ (ours theirs : Stream primitives) (t t' : Transport), Keyed primitives ours.cipher theirs.cipher →
    t.Accepts → t.written = [] →
    pending theirs t' = (((sendPackets packets ours).run t).2.written.map Prod.fst).flatten →
    ∀ turns count, packets.length < turns →
      ((receiveMessages turns maximum count theirs).run t').1 =
        (results delivered t'.fault packets).take count

/-- Packets that fit are transported, the messages each with its identifier and
payload, and with its command if the identifier is zero; and contents are split
as a message if and only if they are the contents of that message. -/
theorem packets_transported (hinverse : primitives.Inverse) :
    (∀ packets maximum, (∀ packet ∈ packets, packet.Fits maximum) →
      Transports primitives Message.delivered packets maximum) ∧
    ∀ contents m, Stream.split contents = some m ↔ m.WellFormed ∧ contents = m.contents := by
  refine ⟨?_, fun contents m => split_eq_some⟩
  intro packets maximum hfits ours theirs t t' hkeyed haccepts hwritten harrived turns count hturns
  rw [sendPackets_run hfits haccepts, hwritten] at harrived
  cases count with
  | zero => rfl
  | succ count =>
    exact receiveMessages_run hinverse (hkeyed.inStep hinverse).1 hfits harrived turns hturns hturns
      count

end

/-! ### Two ends in plain -/

theorem plainPrimitives_inverse : plainPrimitives.Inverse where
  crypt _ _ := ⟨rfl, List.toList_toArray⟩
  packet c header contents aad := by
    have hsize : (header ++ contents).length =
        (header ++ contents ++ List.replicate tagSize 0).length - tagSize := by
      rw [@List.length_append _ (header ++ contents), List.length_replicate,
        Nat.add_sub_cancel]
    refine ⟨rfl, congrArg some ?_⟩
    exact List.take_left' hsize

theorem plainCipher_keyed : Keyed plainPrimitives plainCipher plainCipher :=
  @Keyed.exchanged plainPrimitives plainKeys plainKeys 0 plainCipher plainCipher rfl rfl rfl

/-- A decoy, a short message and a long one. -/
def plainPackets : List Packet :=
  [.decoy [7], .message ⟨18, [], [1, 2]⟩, .message ⟨0, ascii "ping", [3]⟩]

theorem plainPackets_fit : ∀ packet ∈ plainPackets, packet.Fits 8 := by
  have hdecoy : (Packet.decoy [7]).Fits 8 := ⟨by decide, nofun⟩
  have hmessage (m : Message) (hcontents : m.contents.length ≤ 21)
      (hsize : m.command.length ≤ commandSize) (hzero : 0 ∉ m.command) :
      (Packet.message m).Fits 8 := by
    refine ⟨hcontents.trans (by decide), ?_⟩
    rintro _ ⟨⟩
    exact ⟨hsize, fun _ => hzero⟩
  have hshort := hmessage ⟨18, [], [1, 2]⟩ (by decide) (by decide) (by decide)
  have hlong := hmessage ⟨0, ascii "ping", [3]⟩ (by decide) (by decide) (by decide)
  intro packet hpacket
  simp only [plainPackets, List.mem_cons, List.not_mem_nil, or_false] at hpacket
  rcases hpacket with rfl | rfl | rfl
  · exact hdecoy
  · exact hshort
  · exact hlong

theorem packets_transported_plain :
    Transports plainPrimitives Message.delivered plainPackets 8 :=
  (packets_transported plainPrimitives_inverse).1 plainPackets 8 plainPackets_fit

/-- A message is not delivered with a command beside its short identifier, a
command is not with a zero at its end, and a decoy that is longer than a message
may be is not discarded. -/
theorem not_transported_as_given :
    ¬Transports plainPrimitives (fun m => m) [.message ⟨18, ascii "ping", []⟩] 8 ∧
      ¬Transports plainPrimitives (fun m => m) [.message ⟨0, [97, 0], []⟩] 8 ∧
      ¬Transports plainPrimitives (fun m => m) [.decoy (List.replicate 22 0)] 8 := by
  have hrefute {packets : List Packet}
      (hreceived : ((receiveMessages 9 8 9 ({ cipher := plainCipher } : Stream plainPrimitives)).run
        ⟨(((sendPackets packets ({ cipher := plainCipher } : Stream plainPrimitives)).run
          ⟨[], 0, [], [], []⟩).2.written.map Prod.fst).flatten, 1, [], [], []⟩).1 ≠
        (results (fun m => m) 1 packets).take 9) (hturns : packets.length < 9) :
      ¬Transports plainPrimitives (fun m => m) packets 8 := by
    intro h
    exact hreceived (h { cipher := plainCipher } { cipher := plainCipher } ⟨[], 0, [], [], []⟩ _
      plainCipher_keyed nofun rfl rfl 9 9 hturns)
  refine ⟨hrefute ?_ (by decide), hrefute ?_ (by decide), hrefute ?_ (by decide)⟩
  · decide
  · decide
  · decide

end BitcoinNetwork.P2ps
