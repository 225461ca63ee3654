import BitcoinNetwork.Peer.Body

/-!
# One message, read in two ways

A message is delivered alike from behind a heading and from an encrypted packet: what
either reader makes of it is told by the index and the payload alone.
-/

namespace BitcoinNetwork.Peer
open Binary Async

variable {chain : Chain} {value : Frame chain}

/-! ### The body reader -/

namespace BodyReader
variable {r : BodyReader chain}

/-- What is accepted of a payload that has the checksum of its heading, if it is checked. -/
theorem accept_valid {payload : Bytes}
    (h : r.value.checksum = true →
      r.value.head.checksum = networkChecksum (chain.bitcoinHash payload)) :
    (handleReceive (if (r.accept payload).2 then .success else .badValue)
      (r.accept payload).1.value).Is
        ((Registry.toAny chain (Registry.indexOfCommand r.value.head.command) payload
          r.value.version r.value.witness).map fun message => (r.value.head.command, message)) := by
  have hvalid : ¬(r.value.checksum ∧
      r.value.head.checksum ≠ networkChecksum (chain.bitcoinHash payload)) := by
    rintro ⟨hcheck, hne⟩
    exact hne (h hcheck)
  unfold accept
  rw [if_neg hvalid]
  cases Registry.toAny chain (Registry.indexOfCommand r.value.head.command) payload
    r.value.version r.value.witness with
  | none => exact ⟨_, _, rfl⟩
  | some message => rfl

/-- A reader that accepts a payload is done. -/
theorem accept_done {payload : Bytes} (h : (r.accept payload).2 = true) :
    (r.accept payload).1.done = true := by
  unfold accept at h ⊢
  split
  · rename_i hchecksum
    rw [if_pos hchecksum] at h
    cases h
  · rename_i hchecksum
    rw [if_neg hchecksum] at h
    dsimp only at h ⊢
    split
    · rename_i hnone
      rw [hnone] at h
      cases h
    · rfl

/-- The reader behind the heading. -/
def behindHeading (value : Frame chain) (head : Heading) : BodyReader chain where
  value := { value with fault := none, head }
  need := head.payloadSize.toNat
  headed := true
  done := false

/-- What comes of a heading that is for the network. -/
theorem put_heading {front : Bytes} {head : Heading} (hfront : front.length = Heading.size)
    (hhead : Heading.deserialize front = some (head, [])) (hmagic : head.magic = value.magic) :
    (init value).put front =
      if value.maximum < head.payloadSize.toNat then
        (setFault { init value with value := { value with fault := none, head } } .oversizedPayload,
          .badValue)
      else if head.payloadSize.toNat = 0 then
        (((behindHeading value head).accept []).1,
          if ((behindHeading value head).accept []).2 then .success else .badValue)
      else (behindHeading value head, .success) := by
  have hlong : ¬front.length < Heading.size := by omega
  have htake : front.take Heading.size = front := List.take_of_length_le (Nat.le_of_eq hfront)
  have hmagic' : ¬head.magic ≠ value.magic := not_not_intro hmagic
  unfold put
  rw [if_neg (show ¬(init value).headed = true from Bool.false_ne_true), if_neg hlong, htake, hhead]
  dsimp only
  rw [if_neg (show ¬head.magic ≠ (init value).value.magic from hmagic')]
  rfl

/-- What comes of the payload behind it. -/
theorem put_payload {head : Heading} {payload : Bytes}
    (hsize : head.payloadSize.toNat = payload.length) :
    (behindHeading value head).put payload =
      (((behindHeading value head).accept payload).1,
        if ((behindHeading value head).accept payload).2 then .success else .badValue) := by
  have hneed : (behindHeading value head).need = payload.length := hsize
  unfold put
  rw [if_pos (show (behindHeading value head).headed = true from rfl), hneed,
    if_neg (Nat.lt_irrefl _), List.take_length]

/-- A payload is delivered as what it is decoded as. -/
theorem accept_delivers {head : Heading} {payload : Bytes}
    (hsize : ¬value.maximum < payload.length)
    (hchecksum : value.checksum = true →
      head.checksum = networkChecksum (chain.bitcoinHash payload)) :
    (handleReceive (if ((behindHeading value head).accept payload).2 then .success else .badValue)
      ((behindHeading value head).accept payload).1.value).Is
        (delivery value (Registry.indexOfCommand head.command) payload) := by
  have haccept := @accept_valid chain (behindHeading value head) payload hchecksum
  unfold delivery
  rw [if_neg hsize]
  cases hkind : Registry.kinds[Registry.indexOfCommand head.command]? with
  | none =>
    rw [show (behindHeading value head).value.head.command = head.command from rfl,
      Registry.toAny_unknown _ _ _ hkind, Option.map_none] at haccept
    rw [Registry.toAny_unknown _ _ _ hkind, Option.map_none]
    exact haccept
  | some kind =>
    rw [← Registry.map_command hkind, Registry.command_of_index hkind]
    exact haccept

section
variable {identifier : UInt8} {command payload : Bytes} {kind : Kind}

theorem putMessage_unknown
    (h : Registry.kinds[Registry.indexOfMessage identifier command]? = none) :
    r.putMessage identifier command payload = (r.setFault .unknownMessage, .badValue) := by
  simp only [putMessage, h]

theorem putMessage_oversized
    (h : Registry.kinds[Registry.indexOfMessage identifier command]? = some kind)
    (hsize : r.value.maximum < payload.length) :
    r.putMessage identifier command payload = (r.setFault .oversizedPayload, .badValue) := by
  simp only [putMessage, h, if_pos hsize]

/-- A message of a registered type, and of a payload that is not too large. -/
theorem putMessage_decoded
    (h : Registry.kinds[Registry.indexOfMessage identifier command]? = some kind)
    (hsize : ¬r.value.maximum < payload.length) :
    (handleReceive (r.putMessage identifier command payload).2
      (r.putMessage identifier command payload).1.value).Is
        ((Registry.toAny chain (Registry.indexOfMessage identifier command) payload r.value.version
          r.value.witness).map fun message => (kind.command, message)) := by
  simp only [putMessage, h, if_neg hsize]
  cases Registry.toAny chain (Registry.indexOfMessage identifier command) payload r.value.version
    r.value.witness with
  | none => exact ⟨_, _, rfl⟩
  | some message => rfl

end

/-- What is delivered of an identified message. -/
theorem putMessage_delivers (identifier : UInt8) (command payload : Bytes) :
    (handleReceive ((init value).putMessage identifier command payload).2
      ((init value).putMessage identifier command payload).1.value).Is
        (delivery value (Registry.indexOfMessage identifier command) payload) := by
  unfold delivery
  cases hkind : Registry.kinds[Registry.indexOfMessage identifier command]? with
  | none =>
    rw [putMessage_unknown hkind, Registry.toAny_unknown _ _ _ hkind, Option.map_none, ite_self]
    exact ⟨_, _, rfl⟩
  | some kind =>
    by_cases hsize : value.maximum < payload.length
    · rw [if_pos hsize, putMessage_oversized hkind hsize]
      exact ⟨_, _, rfl⟩
    · have hdecoded := @putMessage_decoded chain (init value) identifier command payload kind hkind
        hsize
      rw [if_neg hsize]
      rw [Registry.map_command hkind] at hdecoded
      exact hdecoded

end BodyReader

/-! ### Behind a heading -/

/-- A heading that is valid for the payload, as it is read. -/
structure ValidHeading (value : Frame chain) (head : Heading) (payload : Bytes) : Prop where
  magic : head.magic = value.magic
  size : head.payloadSize.toNat = payload.length
  checksum : value.checksum = true → head.checksum = networkChecksum (chain.bitcoinHash payload)

/-- What is read behind a detection is what is in front of it and of the transport. -/
theorem read_drained {α : Type} {need : ℕ} {detection front behind : Bytes} {t : Transport}
    (next : Except ℕ Bytes → Program α) (h : detection ++ t.input = front ++ behind)
    (hsize : front.length = need) :
    ∃ rest t', (Program.read (need - (detection.take need).length) next).run t =
        (next (.ok rest)).run t' ∧ detection.take need ++ rest = front ∧
      detection.drop need ++ t'.input = behind := by
  have hlength := congrArg List.length h
  rw [List.length_append, List.length_append] at hlength
  have hneed : need - (detection.take need).length = need - detection.length := by
    rw [List.length_take]
    omega
  have hread : t.read (need - detection.length) =
      (.ok (t.input.take (need - detection.length)),
        { t with input := t.input.drop (need - detection.length) }) := by
    unfold Transport.read
    rw [if_neg (by omega)]
  refine ⟨t.input.take (need - detection.length),
    { t with input := t.input.drop (need - detection.length) }, ?_, ?_, ?_⟩
  · rw [Program.run_read, hneed, hread]
  · rw [← List.take_append, h, List.take_left' hsize]
  · show detection.drop need ++ t.input.drop (need - detection.length) = behind
    rw [← List.drop_append, h, List.drop_left' hsize]

/-- A payload that was read ends the read. -/
theorem handler_of_accept {α : Type} (r : BodyReader chain) (payload : Bytes)
    (handler : ReadCode → Frame chain → Program α) (next : Program α) :
    (if (if (r.accept payload).2 then ReadCode.success else .badValue) ≠ .success then
        handler (if (r.accept payload).2 then ReadCode.success else .badValue)
          (r.accept payload).1.value
      else if (r.accept payload).1.done then handler .success (r.accept payload).1.value
      else next) =
      handler (if (r.accept payload).2 then ReadCode.success else .badValue)
        (r.accept payload).1.value := by
  cases haccepted : (r.accept payload).2 with
  | false => rfl
  | true => rw [if_pos rfl, if_neg (not_not_intro rfl), BodyReader.accept_done haccepted, if_pos rfl]

/-- What is read behind a valid heading is delivered by its command. -/
theorem doPeerRead_delivers {α : Type} {head : Heading} {payload front behind detection : Bytes}
    {t : Transport} (hvalid : ValidHeading value head payload)
    (hfront : front.length = Heading.size) (hhead : Heading.deserialize front = some (head, []))
    (hinput : detection ++ t.input = front ++ (payload ++ behind)) (turns : ℕ)
    (handler : ReadCode → Frame chain → Program α) :
    ∃ code frame t', (doPeerRead (turns + 2) detection (.init value) handler).run t =
        (handler code frame).run t' ∧
      (handleReceive code frame).Is
        (delivery value (Registry.indexOfCommand head.command) payload) := by
  have hput := BodyReader.put_heading hfront hhead hvalid.magic
  rw [doPeerRead]
  dsimp only
  obtain ⟨rest, t', hrun, hread, hrest⟩ := read_drained _ hinput hfront
  rw [show (BodyReader.init value).need = Heading.size from rfl, hrun]
  dsimp only
  rw [hread, hput, hvalid.size]
  by_cases hsize : value.maximum < payload.length
  · rw [if_pos hsize]
    refine ⟨_, _, t', rfl, ?_⟩
    unfold delivery
    rw [if_pos hsize]
    exact ⟨_, _, rfl⟩
  · rw [if_neg hsize]
    by_cases hempty : payload.length = 0
    · obtain rfl : payload = [] := List.length_eq_zero_iff.mp hempty
      rw [if_pos hempty]
      dsimp only
      rw [handler_of_accept]
      exact ⟨_, _, t', rfl, BodyReader.accept_delivers hsize hvalid.checksum⟩
    · rw [if_neg hempty]
      show ∃ code frame t'', (doPeerRead (turns + 1) (detection.drop Heading.size)
        (BodyReader.behindHeading value head) handler).run t' = _ ∧ _
      rw [doPeerRead]
      dsimp only
      obtain ⟨rest', t'', hrun', hread', -⟩ := read_drained _ hrest hvalid.size.symm
      rw [show (BodyReader.behindHeading value head).need = head.payloadSize.toNat from rfl, hrun']
      dsimp only
      rw [hread', BodyReader.put_payload hvalid.size]
      dsimp only
      rw [handler_of_accept]
      exact ⟨_, _, t'', rfl, BodyReader.accept_delivers hsize hvalid.checksum⟩

/-! ### From a packet -/

section
variable {primitives : P2ps.Primitives} {maximum : ℕ}

/-- What is read of a packet is delivered by its identifier. -/
theorem doPeerReadEncrypted_delivers {α : Type} (hinverse : primitives.Inverse)
    {stream : P2ps.Stream primitives} {sender : P2ps.Cipher primitives} {t : Transport}
    {m : P2ps.Message} {behind : Bytes} (hstep : P2ps.InStep sender stream.cipher)
    (hfits : (P2ps.Packet.message m).Fits maximum)
    (hpending : P2ps.pending stream t = (sender.encrypt m.contents [] false).2 ++ behind)
    (turns : ℕ) (handler : ReadCode → Frame chain → Program α) :
    ∃ code frame t', (doPeerReadEncrypted (turns + 1) stream maximum (.init value) handler).run t =
        (handler code frame).run t' ∧
      (handleReceive code frame).Is
        (delivery value (Registry.indexOfMessage m.identifier m.command) m.payload) := by
  obtain ⟨hsize, hzero⟩ := hfits.command m rfl
  have hcontents : m.contents.length ≤ min P2ps.maximumContent (maximum + (P2ps.commandSize + 1)) :=
    hfits.contents
  have hindex : Registry.indexOfMessage m.delivered.identifier m.delivered.command =
      Registry.indexOfMessage m.identifier m.command := by
    unfold P2ps.Message.delivered Registry.indexOfMessage
    by_cases hidentifier : m.identifier = 0
    · simp only [if_pos hidentifier]
    · simp only [if_neg hidentifier]
  unfold doPeerReadEncrypted
  rw [P2ps.Stream.asyncReadMessage]
  obtain ⟨s', t', hread, -⟩ := P2ps.readPacket_received hinverse hstep
    (hcontents.trans (Nat.min_le_left _ _)) hpending
    (min P2ps.maximumContent (maximum + (P2ps.commandSize + 1))) _
  obtain ⟨hrun, -⟩ := hread hcontents
  rw [hrun]
  dsimp only
  rw [P2ps.split_contents hzero hsize, ← hindex]
  exact ⟨_, _, t', rfl, BodyReader.putMessage_delivers m.delivered.identifier m.delivered.command
    m.payload⟩

/-! ### Both -/

/-- The channel of a link receives what its read results in. -/
def Receives (turns maximum : ℕ) (link : Link primitives) (value : Frame chain) (t : Transport)
    (received : Received chain) : Prop :=
  ((peerRead turns maximum link value fun code frame =>
    .handle (handleReceive code frame) .stop).run t).1 = [received]

/-- A payload is ahead behind a valid heading of the command, of which a detection may
have taken the front. -/
structure Headed (value : Frame chain) (command payload detection : Bytes) (t : Transport) :
    Prop where
  fits : Heading.Fits command
  ahead : ∃ head front behind, head.command = command ∧ ValidHeading value head payload ∧
    Writer.buffer Heading.size head.serialize = some front ∧
    detection ++ t.input = front ++ (payload ++ behind)

/-- A message is ahead in a packet that the other end has sealed. -/
structure Sealed (maximum : ℕ) (m : P2ps.Message) (stream : P2ps.Stream primitives)
    (t : Transport) : Prop where
  fits : (P2ps.Packet.message m).Fits maximum
  ahead : ∃ sender behind, P2ps.InStep sender stream.cipher ∧
    P2ps.pending stream t = (sender.encrypt m.contents [] false).2 ++ behind

/-- The type of a message is that of its identifier, or of its command if it has none. -/
theorem Registry.index_kind (kind : Kind) :
    kinds[indexOfMessage kind.identifier kind.command]? = some kind := by
  unfold indexOfMessage
  split
  · exact index_command kind
  · rename_i hassigned
    exact index_identifier hassigned

/-- What is delivered depends on an index only by the type there. -/
theorem delivery_congr {index index' : ℕ} (h : Registry.kinds[index]? = Registry.kinds[index']?)
    (payload : Bytes) : delivery value index payload = delivery value index' payload := by
  unfold delivery Registry.toAny
  rw [h]

theorem Headed.receives {command payload detection : Bytes} {t : Transport}
    (h : Headed value command payload detection t) (primitives : P2ps.Primitives)
    (turns maximum : ℕ) :
    ∃ received, Receives (turns + 2) maximum (.clear detection : Link primitives) value t received ∧
      received.Is (delivery value (Registry.indexOfCommand command) payload) := by
  obtain ⟨hfits, head, front, behind, rfl, hvalid, hfront, hinput⟩ := h
  obtain ⟨bytes, hsize, hwrites, hdecodes⟩ := (Heading.coded hfits).whole
  rw [Writer.buffer_of_writes hsize hwrites] at hfront
  obtain rfl := Option.some.inj hfront
  obtain ⟨code, frame, t', hrun, his⟩ := doPeerRead_delivers hvalid hsize hdecodes hinput turns
    fun code frame => .handle (handleReceive code frame) .stop
  refine ⟨handleReceive code frame, ?_, his⟩
  unfold Receives peerRead
  rw [hrun, Program.run_handle, Program.run_stop]

theorem Sealed.receives (hinverse : primitives.Inverse) {m : P2ps.Message}
    {stream : P2ps.Stream primitives} {t : Transport} (h : Sealed maximum m stream t)
    (value : Frame chain) (turns : ℕ) :
    ∃ received, Receives (turns + 2) maximum (.encrypted stream) value t received ∧
      received.Is
        (delivery value (Registry.indexOfMessage m.identifier m.command) m.payload) := by
  obtain ⟨hfits, sender, behind, hstep, hpending⟩ := h
  obtain ⟨code, frame, t', hrun, his⟩ := doPeerReadEncrypted_delivers hinverse hstep hfits hpending
    (turns + 1) fun code frame => .handle (handleReceive code frame) .stop
  refine ⟨handleReceive code frame, ?_, his⟩
  unfold Receives peerRead
  rw [hrun, Program.run_handle, Program.run_stop]

/-- A payload is delivered alike behind a heading and in a packet, where the command of
the one and the identifier of the other are of one type or are both unknown: as what the
type decodes of it, and with the command of the type, or not at all. -/
theorem readers_agree (hinverse : primitives.Inverse) (value : Frame chain) (m : P2ps.Message)
    {command detection : Bytes} {stream : P2ps.Stream primitives} {t t' : Transport}
    (hkind : Registry.kinds[Registry.indexOfCommand command]? =
      Registry.kinds[Registry.indexOfMessage m.identifier m.command]?)
    (hheaded : Headed value command m.payload detection t) (hsealed : Sealed maximum m stream t')
    (turns : ℕ) :
    ∃ received received',
      Receives (turns + 2) maximum (.clear detection : Link primitives) value t received ∧
      Receives (turns + 2) maximum (.encrypted stream) value t' received' ∧
      match Registry.kinds[Registry.indexOfMessage m.identifier m.command]? with
      | none => received.Is none ∧ received'.Is none
      | some kind =>
        let decoded := if value.maximum < m.payload.length then none else
          (kind.deserialize chain value.version value.witness m.payload).map fun r =>
            (kind.command, AnyMessage.mk kind r.1)
        received.Is decoded ∧ received'.Is decoded := by
  obtain ⟨received, hreceives, his⟩ := hheaded.receives primitives turns maximum
  obtain ⟨received', hreceives', his'⟩ := hsealed.receives hinverse value turns
  rw [delivery_congr hkind] at his
  refine ⟨received, received', hreceives, hreceives', ?_⟩
  unfold delivery Registry.toAny at his his'
  cases hindex : Registry.kinds[Registry.indexOfMessage m.identifier m.command]? with
  | none =>
    rw [hindex] at his his'
    dsimp only at his his'
    rw [Option.map_none, ite_self] at his his'
    exact ⟨his, his'⟩
  | some kind =>
    rw [hindex] at his his'
    dsimp only at his his'
    rw [Option.map_map] at his his'
    exact ⟨his, his'⟩

/-! ### A ping in plain -/

/-- What is read with where checksums are not validated. -/
def plainFrame : Frame Kind.plainChain where
  magic := 0xd9b4bef9
  version := 70016
  witness := true
  checksum := false
  maximum := 8

def plainHead : Heading where
  magic := 0xd9b4bef9
  command := Http.ascii "ping"
  payloadSize := 8
  checksum := 0

def plainPing : P2ps.Message := ⟨18, [], [1, 2, 3, 4, 5, 6, 7, 8]⟩

def plainFront : Bytes := (Writer.buffer Heading.size plainHead.serialize).getD []

theorem plainPing_headed :
    Headed plainFrame (Http.ascii "ping") plainPing.payload [] ⟨plainFront ++ plainPing.payload, 0, [], [], []⟩ where
  fits := Heading.registered_fits .ping
  ahead := ⟨plainHead, plainFront, [], rfl, ⟨rfl, rfl, fun h => absurd h (by decide)⟩,
    by decide, rfl⟩

theorem plainPing_sealed :
    Sealed 8 plainPing { cipher := P2ps.plainCipher : P2ps.Stream P2ps.plainPrimitives }
      ⟨(P2ps.plainCipher.encrypt plainPing.contents [] false).2, 0, [], [], []⟩ where
  fits := ⟨by decide, fun m h => by cases h; exact ⟨by decide, fun _ => by decide⟩⟩
  ahead := ⟨P2ps.plainCipher, [], ⟨rfl, rfl⟩, (List.append_nil _).symm⟩

theorem readers_agree_ping : ∃ received received',
    Receives 2 8 (.clear [] : Link P2ps.plainPrimitives) plainFrame
      ⟨plainFront ++ plainPing.payload, 0, [], [], []⟩ received ∧
    Receives 2 8 (.encrypted { cipher := P2ps.plainCipher : P2ps.Stream P2ps.plainPrimitives })
      plainFrame ⟨(P2ps.plainCipher.encrypt plainPing.contents [] false).2, 0, [], [], []⟩ received' ∧
    ∃ message, received = .notified (Http.ascii "ping") (some message) ∧ received' = received := by
  obtain ⟨received, received', hreceives, hreceives', his⟩ :=
    readers_agree P2ps.plainPrimitives_inverse plainFrame plainPing (by decide)
      plainPing_headed plainPing_sealed 0
  refine ⟨received, received', hreceives, hreceives', _, his.1, his.2.trans his.1.symm⟩

end

end BitcoinNetwork.Peer
