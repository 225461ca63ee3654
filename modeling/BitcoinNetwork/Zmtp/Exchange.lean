import BitcoinNetwork.Zmtp.Notifications
import BitcoinNetwork.Zmtp.Reading

/-!
# What is written by one role and read by another (net/socket_zmtp.cpp)

The buffers of a write are the frames of a message, of which the reader of the other role
takes the method and the parameters as they were written.
-/

namespace BitcoinNetwork.Zmtp
open Binary
open Http (ascii)

/-! ### The bytes of parameters -/

/-- What a part writes. -/
def Part.content : Part → Bytes
  | .bytes data => data
  | .chunk data => data
  | .value data => data.encoding

/-- The bytes of a parameter, unless it has none. -/
def Value.content (value : Value) : Option Bytes := (encodePart value).toOption.map Part.content

/-- The bytes of each of the parameters, unless one has none or they have no order. -/
def contents : Option Params → Option (List Bytes)
  | none => some []
  | some (.value value) => value.content.map fun part => [part]
  | some (.array values) => values.mapM Value.content
  | some .object => none

theorem encodeParts_of_contents {params : Option Params} {bodies : List Bytes}
    (h : contents params = some bodies) :
    ∃ parts, encodeParts params = .ok parts ∧ parts.map Part.content = bodies := by
  have hone {value : Value} {body : Bytes} (h : value.content = some body) :
      ∃ part, encodePart value = .ok part ∧ part.content = body := by
    unfold Value.content at h
    cases hpart : encodePart value with
    | error e =>
      rw [hpart] at h
      cases h
    | ok part =>
      rw [hpart] at h
      cases h
      exact ⟨part, rfl, rfl⟩
  match params with
  | none =>
    cases h
    exact ⟨[], rfl, rfl⟩
  | some (.value value) =>
    obtain ⟨body, hbody, rfl⟩ := Option.map_eq_some_iff.mp h
    obtain ⟨part, hpart, rfl⟩ := hone hbody
    refine ⟨[part], ?_, rfl⟩
    rw [encodeParts, hpart]
    rfl
  | some (.array values) =>
    show ∃ parts, values.mapM encodePart = .ok parts ∧ _
    replace h : values.mapM Value.content = some bodies := h
    induction values generalizing bodies with
    | nil =>
      cases h
      exact ⟨[], rfl, rfl⟩
    | cons value values ih =>
      rw [List.mapM_cons] at h ⊢
      obtain ⟨body, hbody, h⟩ := Option.bind_eq_some_iff.mp h
      obtain ⟨rest, hrest, h⟩ := Option.bind_eq_some_iff.mp h
      cases h
      obtain ⟨part, hpart, rfl⟩ := hone hbody
      obtain ⟨parts, hparts, rfl⟩ := ih hrest
      refine ⟨part :: parts, ?_, rfl⟩
      rw [hpart, hparts]
      rfl

/-! ### Packets -/

theorem frameHead_length (body : ℕ) (command more : Bool) :
    (frameHead body command more).length = frameSize body - body := by
  unfold frameHead frameSize
  by_cases hlong : 0xff < body
  · rw [if_pos hlong, if_pos hlong, List.length_cons, toBytes_length]
    omega
  · rw [if_neg hlong, if_neg hlong, List.length_cons, toBytes_length]
    omega

theorem frameMessage_cons (part : Bytes) (parts : List Bytes) :
    frameMessage (part :: parts) =
      frameHead part.length false (parts ≠ []) ++ part ++ frameMessage parts := by
  cases parts with
  | nil =>
    show frameEncode part false false = _ ++ []
    rw [List.append_nil]
    rfl
  | cons next parts => rfl

/-- The bytes of buffers, by the packet that they are within. -/
def resolve (packet : Bytes) (buffers : List Buffered) : Bytes :=
  WriteState.bytes ⟨packet, buffers⟩

theorem resolve_append (packet : Bytes) (buffers more : List Buffered) :
    resolve packet (buffers ++ more) = resolve packet buffers ++ resolve packet more :=
  List.flatMap_append

theorem resolve_cutPacket {packet tail : Bytes} {cut : ℕ} (hcut : cut ≤ packet.length) :
    resolve (packet ++ tail) (cutPacket cut packet.length) = packet.drop cut := by
  unfold cutPacket
  by_cases h : cut < packet.length
  · rw [if_pos h]
    show ((packet ++ tail).drop cut).take (packet.length - cut) ++ [] = _
    rw [List.append_nil, List.drop_append_of_le_length hcut,
      List.take_append_of_le_length (by rw [List.length_drop]),
      List.take_of_length_le (by rw [List.length_drop])]
  · rw [if_neg h, List.drop_eq_nil_of_le (Nat.not_lt.mp h)]
    rfl

/-- The packet is only added to, and the buffers are those so far, what is not cut off of the
packet so far, and the parts that remain. -/
theorem framePartsFrom_bytes (parts : List Part) (packet : Bytes) (buffers : List Buffered)
    {cut : ℕ} (hcut : cut ≤ packet.length) :
    ∃ tail, (framePartsFrom parts packet buffers cut packet.length).packet = packet ++ tail ∧
      (framePartsFrom parts packet buffers cut packet.length).bytes =
        resolve (packet ++ tail) buffers ++ packet.drop cut ++
          frameMessage (parts.map Part.content) := by
  induction parts generalizing packet buffers cut with
  | nil =>
    refine ⟨[], (List.append_nil packet).symm, ?_⟩
    rw [framePartsFrom]
    show resolve packet (buffers ++ cutPacket cut packet.length) = _
    have hresolve := @resolve_cutPacket packet [] cut hcut
    rw [List.append_nil] at hresolve ⊢
    rw [resolve_append, hresolve]
    exact (List.append_nil _).symm
  | cons part parts ih =>
    have hmore : (parts.map Part.content ≠ []) = (parts ≠ []) := by
      rw [ne_eq, List.map_eq_nil_iff]
    rw [List.map_cons, frameMessage_cons]
    simp only [hmore]
    rw [framePartsFrom]
    cases hshare : part.share with
    | some share =>
      have hcontent : part.content = share := by
        cases part with
        | bytes data => cases hshare
        | chunk data => exact Option.some.inj hshare
        | value data => exact (data.shared share hshare).symm
      dsimp only
      rw [hcontent, ← frameHead_length share.length false (parts ≠ []), ← List.length_append]
      obtain ⟨tail, hpacket, hbytes⟩ := ih
        (packet ++ frameHead share.length false (parts ≠ []))
        (buffers ++ cutPacket cut
          (packet ++ frameHead share.length false (parts ≠ [])).length ++ [.shared share])
        (Nat.le_refl _)
      refine ⟨frameHead share.length false (parts ≠ []) ++ tail, ?_, ?_⟩
      · rw [hpacket, List.append_assoc]
      · rw [hbytes, resolve_append, resolve_append, resolve_cutPacket
          (hcut.trans (by rw [List.length_append]; exact Nat.le_add_right _ _)),
          List.drop_length, List.drop_append_of_le_length hcut]
        show _ ++ (share ++ []) ++ [] ++ _ = _
        simp only [List.append_nil, List.append_assoc]
    | none =>
      have hcontent : part.write = part.content ∧ part.size = part.content.length := by
        cases part with
        | bytes data => exact ⟨rfl, rfl⟩
        | chunk data => cases hshare
        | value data => exact ⟨rfl, data.sized.symm⟩
      dsimp only
      rw [hcontent.1, hcontent.2, ← frameHead_length part.content.length false (parts ≠ []),
        ← List.length_append, ← List.length_append]
      obtain ⟨tail, hpacket, hbytes⟩ := ih
        (packet ++ frameHead part.content.length false (parts ≠ []) ++ part.content) buffers
        (hcut.trans (by simp only [List.length_append]; omega))
      refine ⟨frameHead part.content.length false (parts ≠ []) ++ part.content ++ tail, ?_, ?_⟩
      · rw [hpacket]
        simp only [List.append_assoc]
      · rw [hbytes, List.append_assoc packet, List.drop_append_of_le_length hcut]
        simp only [List.append_assoc]

/-- The buffers of a message are the frames of its parts. -/
theorem frameParts_bytes (message : List Part) :
    (frameParts message).bytes = frameMessage (message.map Part.content) := by
  obtain ⟨tail, -, hbytes⟩ := framePartsFrom_bytes message [] [] (Nat.le_refl 0)
  exact hbytes

theorem framePacket_bytes (packet : Bytes) : (framePacket packet).bytes = packet := by
  show (packet.drop 0).take packet.length ++ [] = packet
  rw [List.append_nil, List.drop_zero, List.take_length]

/-! ### Messages -/

theorem buffer_frameMessage {parts : List Bytes} (h : ∀ part ∈ parts, part.length < 2 ^ 64) :
    Buffer (messageFrames parts) (frameMessage parts) := by
  induction parts with
  | nil => exact .nil
  | cons part parts ih =>
    have hpart := h part List.mem_cons_self
    have htail := ih fun part hpart => h part (List.mem_cons_of_mem _ hpart)
    cases parts with
    | nil =>
      have hbuffer := Buffer.cons (frameEncode_framed hpart false false) .nil
      rwa [List.append_nil] at hbuffer
    | cons next parts => exact .cons (frameEncode_framed hpart false true) htail

/-- The frames of a message are handed on as one message. -/
theorem reads_messageFrames {parts : List Bytes} (hne : parts ≠ [])
    (hparts : parts.length ≤ maximumParts) :
    reads [] (messageFrames parts) = [.message (messageFrames parts)] := by
  obtain ⟨before, last, rfl⟩ : ∃ before last, parts = before ++ [last] :=
    ⟨parts.dropLast, parts.getLast hne, (List.dropLast_append_getLast hne).symm⟩
  obtain ⟨hbody, hcommand⟩ := messageFrames_parts (before ++ [last])
  have hmore := messageFrames_more before last
  have hlength := congrArg List.length hmore
  rw [List.length_append, List.length_singleton] at hparts
  simp only [List.length_map, List.length_append, List.length_singleton] at hlength
  obtain ⟨run, frame, hframes⟩ : ∃ run frame,
      messageFrames (before ++ [last]) = run ++ [frame] := by
    rcases List.eq_nil_or_concat (messageFrames (before ++ [last])) with hnil | ⟨run, frame, h⟩
    · rw [hnil] at hlength
      cases hlength
    · exact ⟨run, frame, by rw [h, List.concat_eq_append]⟩
  rw [hframes] at hcommand hmore hlength ⊢
  rw [List.map_append, List.map_singleton] at hmore
  obtain ⟨hrun, hlast⟩ := List.append_inj' hmore rfl
  rw [List.length_append, List.length_singleton] at hlength
  have hcontinues : ∀ part ∈ run, Continues part := by
    intro part hpart
    refine ⟨hcommand part (List.mem_append_left _ hpart), ?_⟩
    have hmem := List.mem_map_of_mem (f := Frame.more) hpart
    rw [hrun] at hmem
    obtain ⟨_, _, htrue⟩ := List.mem_map.mp hmem
    exact htrue.symm
  have hends : Ends frame :=
    ⟨hcommand frame (List.mem_append_right _ (List.mem_singleton_self _)),
      List.singleton_inj.mp hlast⟩
  exact (Assembles.message ⟨hcontinues, by omega⟩ hends (.pending Run.nil)).reads

/-- A request is read of the bodies of the parts. -/
theorem decodeRequest_bodies {parts : List Frame} {front params : List Bytes} {method : Bytes}
    (h : parts.map Frame.body = front ++ method :: params) (hmethod : method ≠ [])
    (out : Request) : decodeRequest out parts front.length =
      .ok { out with method := method, params := some (.array (params.map toChunkValue)) } := by
  have hdrop := congrArg (List.drop front.length) h
  rw [List.drop_left, ← List.map_drop] at hdrop
  unfold decodeRequest
  cases hparts : parts.drop front.length with
  | nil =>
    rw [hparts] at hdrop
    cases hdrop
  | cons part rest =>
    rw [hparts, List.map_cons, List.cons.injEq] at hdrop
    obtain ⟨rfl, rfl⟩ := hdrop
    dsimp only
    rw [if_neg hmethod, List.map_map]
    rfl

/-! ### Roles -/

/-- What the writer of a role writes, the reader of another takes for a request. -/
inductive Reaches : Role → Role → Prop
  | puller : Reaches .publisher .puller
  | replier : Reaches .router .replier
  | router : Reaches .router .router

/-- The parts in front of the method. -/
def envelope : Role → List Bytes
  | .router => [[]]
  | _ => []

/-- The parts of a notification. -/
def messageParts (writer : Role) (method : Bytes) (bodies : List Bytes) : List Bytes :=
  envelope writer ++ method :: bodies

theorem encodeNotification_parts {writer reader : Role} (hreaches : Reaches writer reader)
    {notification : Request} (hping : notification.method ≠ methodPing)
    (hpong : notification.method ≠ methodPong) {bodies : List Bytes}
    (hcontents : contents notification.params = some bodies) :
    ∃ out, encodeNotification writer notification = .ok out ∧
      out.bytes = frameMessage (messageParts writer notification.method bodies) := by
  obtain ⟨parts, hparts, rfl⟩ := encodeParts_of_contents hcontents
  unfold encodeNotification
  rw [if_neg (by rintro (h | h); exact hpong h; exact hping h)]
  cases hreaches with
  | puller =>
    refine ⟨frameParts (.bytes notification.method :: parts), ?_, frameParts_bytes _⟩
    dsimp only
    rw [hparts]
    rfl
  | replier =>
    refine ⟨frameParts (.bytes [] :: .bytes notification.method :: parts), ?_,
      frameParts_bytes _⟩
    dsimp only
    rw [hparts]
    rfl
  | router =>
    refine ⟨frameParts (.bytes [] :: .bytes notification.method :: parts), ?_,
      frameParts_bytes _⟩
    dsimp only
    rw [hparts]
    rfl

theorem decodeMessage_parts {writer reader : Role} (hreaches : Reaches writer reader)
    {method : Bytes} (hmethod : method ≠ []) {bodies : List Bytes} {parts : List Frame}
    (hparts : parts.map Frame.body = messageParts writer method bodies) (out : Request)
    (identity : Bytes) : ∃ id, decodeMessage out reader parts identity =
      .ok ⟨id, method, some (.array (bodies.map toChunkValue))⟩ := by
  have hfront : (parts.headD ⟨0, []⟩).body = (messageParts writer method bodies).headD [] := by
    rw [← hparts]
    cases parts <;> rfl
  unfold decodeMessage
  rw [hfront]
  cases hreaches with
  | puller => exact ⟨out.id, @decodeRequest_bodies parts [] bodies method hparts hmethod out⟩
  | replier =>
    refine ⟨some .null, ?_⟩
    show (if ([] : Bytes) ≠ [] then _ else _) = _
    rw [if_neg (not_not.mpr rfl)]
    exact @decodeRequest_bodies parts [[]] bodies method hparts hmethod _
  | router =>
    refine ⟨some (if identity = [] then .null else .string identity), ?_⟩
    show decodeRequest _ parts (if ([] : Bytes) = [] then 1 else 0) = _
    rw [if_pos rfl]
    exact @decodeRequest_bodies parts [[]] bodies method hparts hmethod _

/-! ### Commands -/

/-- A command is one frame, which is handed on as a command of its name and content. -/
theorem makeCommand_frame {name content : Bytes} (hname : name.length < 2 ^ 8)
    (hcontent : name.length + content.length + 1 < 2 ^ 64) :
    ∃ frame, Buffer [frame] (makeCommand name content) ∧
      reads [] [frame] = [.command frame] ∧ nameOf frame.body = some (name, content) := by
  have hbody : (nameBytes name ++ content).length < 2 ^ 64 := by
    rw [List.length_append, nameBytes, List.length_cons]
    omega
  have hbuffer := Buffer.cons (frameEncode_framed hbody true false) .nil
  rw [List.append_nil] at hbuffer
  obtain ⟨hcommand, hmore, -⟩ := encodedFlags_spec (nameBytes name ++ content) true false
  refine ⟨_, hbuffer, ?_, nameOf_nameBytes hname content⟩
  exact (Assembles.command hcommand hmore (.pending Run.nil)).reads

theorem methodPing_ne_methodPong : methodPing ≠ methodPong := by decide

theorem commandPong_ne_commandPing : commandPong ≠ commandPing := by decide

/-- What a ping writes. -/
theorem encodeNotification_ping {role : Role} {notification : Request} {out : WriteState}
    (hmethod : notification.method = methodPing)
    (h : encodeNotification role notification = .ok out) : ∃ ttl context,
      encodeParams notification.params = .ok [ttl, context] ∧ ttl.length = ttlSize ∧
        out.bytes = makeCommand commandPing (ttl.reverse ++ context) := by
  unfold encodeNotification at h
  rw [if_pos (.inr hmethod)] at h
  cases hparams : encodeParams notification.params with
  | error e =>
    rw [hparams] at h
    cases h
  | ok parts =>
    rw [hparams] at h
    replace h : (if notification.method = methodPong then _ else _) = _ := h
    rw [if_neg (by rw [hmethod]; exact methodPing_ne_methodPong)] at h
    split at h
    · rename_i ttl context
      split at h
      · cases h
      · rename_i hsize
        cases h
        exact ⟨ttl, context, rfl, not_not.mp hsize, framePacket_bytes _⟩
    · cases h

/-- What a pong writes. -/
theorem encodeNotification_pong {role : Role} {notification : Request} {out : WriteState}
    (hmethod : notification.method = methodPong)
    (h : encodeNotification role notification = .ok out) : ∃ context,
      encodeParams notification.params = .ok [context] ∧ out.bytes = makePong context := by
  unfold encodeNotification at h
  rw [if_pos (.inl hmethod)] at h
  cases hparams : encodeParams notification.params with
  | error e =>
    rw [hparams] at h
    cases h
  | ok parts =>
    rw [hparams] at h
    replace h : (if notification.method = methodPong then _ else _) = _ := h
    rw [if_pos hmethod] at h
    split at h
    · rename_i context
      cases h
      exact ⟨context, rfl, framePacket_bytes _⟩
    · cases h

/-! ### Responses -/

/-- The parts of a response behind its delimiter. -/
def responseParts (response : Response) : Option (List Bytes) :=
  match response.error with
  | some error => some [toLittle 8 error.code.toUInt64.toNat, error.message]
  | none => (response.result.getD .null).content.map fun part => [part]

/-- What a response writes. -/
theorem encodeResponse_parts {role : Role} {response : Response} {out : WriteState}
    (h : encodeResponse role response = .ok out) : (role = .replier ∨ role = .router) ∧
      ∃ bodies, responseParts response = some bodies ∧
        out.bytes = frameMessage ([] :: bodies) := by
  have hwritten (h : (match response.error with
      | some error => do
        let code ← encodePart (.int64 error.code)
        return frameParts [.bytes [], code, .bytes error.message]
      | none => do
        let result ← encodePart (response.result.getD .null)
        return frameParts [.bytes [], result] : Except SocketError WriteState) = .ok out) :
      ∃ bodies, responseParts response = some bodies ∧
        out.bytes = frameMessage ([] :: bodies) := by
    unfold responseParts
    cases herror : response.error with
    | some error =>
      rw [herror] at h
      cases h
      exact ⟨_, rfl, frameParts_bytes _⟩
    | none =>
      rw [herror] at h
      dsimp only at h ⊢
      unfold Value.content
      cases hpart : encodePart (response.result.getD .null) with
      | error e =>
        rw [hpart] at h
        cases h
      | ok part =>
        rw [hpart] at h
        cases h
        exact ⟨_, rfl, frameParts_bytes _⟩
  cases role with
  | undefined => cases h
  | publisher => cases h
  | puller => cases h
  | replier => exact ⟨.inl rfl, hwritten h⟩
  | router => exact ⟨.inr rfl, hwritten h⟩

/-! ### Agreement -/

theorem length_le_frameMessage {parts : List Bytes} {part : Bytes} (h : part ∈ parts) :
    part.length ≤ (frameMessage parts).length := by
  induction parts with
  | nil => cases h
  | cons first parts ih =>
    rw [frameMessage_cons, List.length_append, List.length_append]
    rcases List.mem_cons.mp h with rfl | h
    · omega
    · have hle := ih h
      omega

theorem buffer_of_length {parts : List Bytes} (h : (frameMessage parts).length < 2 ^ 64) :
    Buffer (messageFrames parts) (frameMessage parts) :=
  buffer_frameMessage fun _ hpart => (length_le_frameMessage hpart).trans_lt h

theorem length_le_makeCommand (name content : Bytes) :
    name.length + content.length + 1 ≤ (makeCommand name content).length := by
  unfold makeCommand frameEncode nameBytes
  simp only [List.length_append, List.length_cons]
  omega

/-- What is written by one role and read by another, and how messages and commands are told
from the frames of a stream. -/
structure Exchanges : Prop where
  assembly (frames : List Frame) (handed : List Handed) :
    reads [] frames = handed ↔ Assembles frames handed
  notification {writer reader : Role} (reaches : Reaches writer reader) {notification : Request}
    (named : notification.method ≠ []) (ping : notification.method ≠ methodPing)
    (pong : notification.method ≠ methodPong) {bodies : List Bytes}
    (bytes : contents notification.params = some bodies)
    (parts : (messageParts writer notification.method bodies).length ≤ maximumParts) :
    ∃ out, encodeNotification writer notification = .ok out ∧ (out.bytes.length < 2 ^ 64 →
      ∃ frames handed, Buffer frames out.bytes ∧ reads [] frames = [handed] ∧
        ∀ request identity, ∃ id, handed.request request reader identity =
          .ok ⟨id, notification.method, some (.array (bodies.map toChunkValue))⟩)
  ping {role : Role} {notification : Request} {out : WriteState}
    (method : notification.method = methodPing)
    (written : encodeNotification role notification = .ok out)
    (size : out.bytes.length < 2 ^ 64) :
    ∃ (ttl : UInt16) (context : Bytes) (frame : Frame),
      encodeParams notification.params = .ok [toLittle ttlSize ttl.toNat, context] ∧
      Buffer [frame] out.bytes ∧ reads [] [frame] = [.command frame] ∧
      ∀ request reader identity, (Handed.command frame).request request reader identity =
        .ok { request with
          method := methodPing
          params := some (.array [.uint16 ttl, toChunkValue context]) }
  pong {role : Role} {notification : Request} {out : WriteState}
    (method : notification.method = methodPong)
    (written : encodeNotification role notification = .ok out)
    (size : out.bytes.length < 2 ^ 64) :
    ∃ (context : Bytes) (frame : Frame), encodeParams notification.params = .ok [context] ∧
      Buffer [frame] out.bytes ∧ reads [] [frame] = [.command frame] ∧
      ∀ request reader identity, (Handed.command frame).request request reader identity =
        .ok { request with
          method := methodPong
          params := some (.array [toChunkValue (context.take maximumPingContext)]) }
  response {role : Role} {response : Response} {out : WriteState}
    (written : encodeResponse role response = .ok out) (size : out.bytes.length < 2 ^ 64) :
    (role = .replier ∨ role = .router) ∧ ∃ bodies frames, responseParts response = some bodies ∧
      Buffer frames out.bytes ∧ reads [] frames = [.message frames] ∧
      frames.map Frame.body = [] :: bodies

theorem exchanges : Exchanges where
  assembly := reads_eq_iff
  notification {writer reader} reaches {notification} named ping pong {bodies} bytes parts := by
    obtain ⟨out, hout, hbytes⟩ := encodeNotification_parts reaches ping pong bytes
    refine ⟨out, hout, fun hsize => ?_⟩
    rw [hbytes] at hsize ⊢
    refine ⟨_, _, buffer_of_length hsize, reads_messageFrames ?_ parts,
      fun request identity => ?_⟩
    · exact List.append_ne_nil_of_right_ne_nil _ (List.cons_ne_nil _ _)
    · exact decodeMessage_parts reaches named (messageFrames_parts _).1 request identity
  ping {role notification out} method written size := by
    obtain ⟨ttl, context, hparams, hlength, hbytes⟩ := encodeNotification_ping method written
    rw [hbytes] at size ⊢
    obtain ⟨frame, hbuffer, hreads, hname⟩ := @makeCommand_frame commandPing
      (ttl.reverse ++ context) (by decide) ((length_le_makeCommand _ _).trans_lt size)
    have hreverse : ttl.reverse.length = ttlSize := by rw [List.length_reverse, hlength]
    have hlt : ofBytes ttl.reverse < 2 ^ 16 := by
      have hbound := ofBytes_lt ttl.reverse
      rwa [hreverse] at hbound
    have hlittle : toLittle ttlSize (ofBytes ttl.reverse).toUInt16.toNat = ttl := by
      rw [Nat.toUInt16_eq, UInt16.toNat_ofNat_of_lt' hlt, toLittle, ← hreverse,
        toBytes_ofBytes, List.reverse_reverse]
    refine ⟨(ofBytes ttl.reverse).toUInt16, context, frame, ?_, hbuffer, hreads,
      fun request reader identity => ?_⟩
    · rw [hparams, hlittle]
    · show decodeCommand request reader frame = _
      unfold decodeCommand
      rw [hname]
      dsimp only
      rw [if_pos rfl, if_neg, List.take_left' hreverse, List.drop_left' hreverse]
      rw [List.length_append, hreverse]
      exact Nat.not_lt.mpr (Nat.le_add_right _ _)
  pong {role notification out} method written size := by
    obtain ⟨context, hparams, hbytes⟩ := encodeNotification_pong method written
    rw [hbytes, makePong] at size
    obtain ⟨frame, hbuffer, hreads, hname⟩ := @makeCommand_frame commandPong
      (context.take maximumPingContext) (by decide) ((length_le_makeCommand _ _).trans_lt size)
    rw [hbytes]
    refine ⟨context, frame, hparams, hbuffer, hreads, fun request reader identity => ?_⟩
    show decodeCommand request reader frame = _
    unfold decodeCommand
    rw [hname]
    dsimp only
    rw [if_neg commandPong_ne_commandPing, if_pos rfl]
  response {role response out} written size := by
    obtain ⟨hrole, bodies, hbodies, hbytes⟩ := encodeResponse_parts written
    rw [hbytes] at size ⊢
    refine ⟨hrole, bodies, _, hbodies, buffer_of_length size,
      reads_messageFrames (List.cons_ne_nil _ _) ?_, (messageFrames_parts _).1⟩
    have hparts : bodies.length ≤ 2 := by
      unfold responseParts at hbodies
      split at hbodies
      · cases hbodies
        exact Nat.le_refl 2
      · obtain ⟨part, -, rfl⟩ := Option.map_eq_some_iff.mp hbodies
        exact Nat.le_succ 1
    exact (Nat.succ_le_succ hparts).trans (by decide)

/-- A notification of more parts than are read. -/
def excessiveNotification : Request where
  method := ascii "topic"
  params := some (.array (List.replicate maximumParts .null))

/-- A pong of a longer context than is echoed. -/
def longPong : Request where
  method := methodPong
  params := some (.value (.string (List.replicate (maximumPingContext + 1) 0)))

/-- Neither is read as it was written. -/
theorem not_exchanged :
    (∃ out frames, encodeNotification .publisher excessiveNotification = .ok out ∧
      Buffer frames out.bytes ∧ (reads [] frames).head? = some (.failed .excessiveParts)) ∧
    (∃ out frame, encodeNotification .router longPong = .ok out ∧ Buffer [frame] out.bytes ∧
      nameOf frame.body = some (commandPong, List.replicate maximumPingContext 0)) := by
  refine ⟨⟨_, messageFrames (ascii "topic" :: List.replicate maximumParts []), rfl, ?_, ?_⟩,
    ⟨framePacket (makePong (List.replicate (maximumPingContext + 1) 0)), ?_⟩⟩
  · rw [frameParts_bytes]
    exact buffer_of_length (by decide)
  · decide
  · obtain ⟨frame, hbuffer, -, hname⟩ := @makeCommand_frame commandPong
      (List.replicate maximumPingContext 0) (by decide) (by decide)
    refine ⟨frame, by decide, ?_, hname⟩
    rw [framePacket_bytes]
    exact hbuffer

end BitcoinNetwork.Zmtp
