import BitcoinNetwork.Zmtp.Codec
import BitcoinNetwork.Zmtp.Link
import BitcoinNetwork.Zmtp.Stream

/-!
# Reading what is written (zmtp/stream.cpp)

A buffer of frames, written by one stream and read by another, frame by frame:
as it is, or with each frame in a box, which is longer than the frame.
-/

namespace BitcoinNetwork.Zmtp
open Binary Async

/-! ### A buffer of frames -/

/-- The bytes of frames, one behind the other. -/
inductive Buffer : List Frame → Bytes → Prop
  | nil : Buffer [] []
  | cons {frame : Frame} {frames : List Frame} {bytes rest : Bytes} (head : Framed frame bytes)
      (tail : Buffer frames rest) : Buffer (frame :: frames) (bytes ++ rest)

theorem Buffer.append {frames frames' : List Frame} {buffer buffer' : Bytes}
    (h : Buffer frames buffer) (h' : Buffer frames' buffer') :
    Buffer (frames ++ frames') (buffer ++ buffer') := by
  induction h with
  | nil => exact h'
  | cons head tail ih =>
    rw [List.append_assoc]
    exact .cons head ih

theorem Framed.length_pos {frame : Frame} {bytes : Bytes} (h : Framed frame bytes) :
    0 < bytes.length := by
  cases h with
  | short flags size => exact Nat.succ_pos _
  | long flags size => exact Nat.succ_pos _

/-! ### Reading a frame -/

section
variable {primitives : Primitives} {α : Type} {handler : Stream → Except Code Frame → Program α}

/-- A frame in front is read as far as its length allows. -/
theorem asyncReadFrame_framed (s : Stream) (maximum : ℕ) {frame : Frame} {bytes : Bytes}
    (h : Framed frame bytes) (rest : Bytes) (t : Transport) (hinput : t.input = bytes ++ rest) :
    (s.asyncReadFrame primitives maximum handler).run t =
      if maximum < frame.body.length then
        (handler s (.error .oversizedPayload)).run { t with input := frame.body ++ rest }
      else (s.handleFrameBody primitives frame handler).run { t with input := rest } := by
  have hbody (t : Transport) (hinput : t.input = frame.body ++ rest) :
      (s.handleFrameLength primitives frame.flags frame.body.length maximum handler).run t =
        if maximum < frame.body.length then
          (handler s (.error .oversizedPayload)).run { t with input := frame.body ++ rest }
        else (s.handleFrameBody primitives frame handler).run { t with input := rest } := by
    unfold Stream.handleFrameLength
    by_cases hmaximum : maximum < frame.body.length
    · rw [if_pos hmaximum, if_pos hmaximum, ← hinput]
    · rw [if_neg hmaximum, if_neg hmaximum]
      by_cases hempty : frame.body.length = 0
      · have hnil : frame.body = [] := List.eq_nil_of_length_eq_zero hempty
        rw [if_pos hempty]
        rw [hnil, List.nil_append] at hinput
        rw [← hinput, ← hnil]
      · rw [if_neg hempty, Program.run_read_append _ rest _ t hinput rfl]
  unfold Stream.asyncReadFrame
  cases h with
  | short flags size =>
    rw [Program.run_read_append [frame.flags] (toBytes 1 frame.body.length ++ frame.body ++ rest)
      _ t hinput List.length_singleton]
    simp only [List.headD_cons, flags, ne_eq, not_true_eq_false, if_false]
    rw [Program.run_read_append _ (frame.body ++ rest) _ _ (List.append_assoc _ _ _)
      (toBytes_length 1 frame.body.length)]
    show (s.handleFrameLength primitives frame.flags (ofBytes (toBytes 1 frame.body.length))
      maximum handler).run _ = _
    rw [ofBytes_toBytes (by rw [pow_one]; exact size)]
    exact hbody _ rfl
  | long flags size =>
    rw [Program.run_read_append [frame.flags] (toBytes 8 frame.body.length ++ frame.body ++ rest)
      _ t hinput List.length_singleton]
    simp only [List.headD_cons, flags, ne_eq, not_false_eq_true, if_true]
    rw [Program.run_read_append _ (frame.body ++ rest) _ _ (List.append_assoc _ _ _)
      (toBytes_length 8 frame.body.length)]
    show (s.handleFrameLength primitives frame.flags (ofBytes (toBytes 8 frame.body.length))
      maximum handler).run _ = _
    rw [ofBytes_toBytes (size.trans_le (by norm_num))]
    exact hbody _ rfl

/-- Behind the last frame a read fails. -/
theorem asyncReadFrame_nil (s : Stream) (maximum : ℕ) (t : Transport) (hinput : t.input = []) :
    (s.asyncReadFrame primitives maximum handler).run t =
      (handler s (.error (.transport t.fault))).run { t with input := [] } := by
  unfold Stream.asyncReadFrame
  rw [Program.run_read, t.read_short (by rw [hinput]; exact Nat.zero_lt_one)]

/-! ### Reading frames -/

/-- As many frames are read, until one is not, as by the tier above. -/
def readFrames (primitives : Primitives) (maximum : ℕ) :
    ℕ → Stream → Program (Except Code Frame)
  | 0, _ => .stop
  | count + 1, s => s.asyncReadFrame primitives maximum fun s result =>
      .handle result <| match result with
        | .ok _ => readFrames primitives maximum count s
        | .error _ => .stop

/-- What is read of frames that are not in boxes. -/
def plainResults (maximum fault : ℕ) : List Frame → List (Except Code Frame)
  | [] => [.error (.transport fault)]
  | frame :: frames =>
    if maximum < frame.body.length then [.error .oversizedPayload]
    else .ok frame :: plainResults maximum fault frames

theorem run_readFrames_plain (primitives : Primitives) {s : Stream} (hs : s.secured = false) (maximum : ℕ)
    {frames : List Frame} {buffer : Bytes} (h : Buffer frames buffer) (count : ℕ) (t : Transport)
    (hinput : t.input = buffer) :
    ((readFrames primitives maximum count s).run t).1 =
      (plainResults maximum t.fault frames).take count := by
  induction h generalizing count t with
  | nil =>
    cases count with
    | zero => rfl
    | succ count =>
      rw [readFrames, asyncReadFrame_nil s maximum t hinput]
      simp [plainResults]
  | @cons frame frames bytes rest head tail ih =>
    cases count with
    | zero => rfl
    | succ count =>
      rw [readFrames, asyncReadFrame_framed s maximum head rest t hinput, plainResults]
      by_cases hmaximum : maximum < frame.body.length
      · rw [if_pos hmaximum, if_pos hmaximum]
        simp
      · rw [if_neg hmaximum, if_neg hmaximum, Stream.handleFrameBody,
          if_pos (by rw [hs]; exact Bool.false_ne_true)]
        show Except.ok frame :: _ = Except.ok frame :: _
        rw [ih count { t with input := rest } rfl]

/-! ### Frames in boxes -/

theorem nameOf_nameBytes {name : Bytes} (h : name.length < 2 ^ 8) (rest : Bytes) :
    nameOf (nameBytes name ++ rest) = some (name, rest) := by
  have hdrop : subspan (name.length.toUInt8 :: (name ++ rest)) (1 + name.length) = some rest := by
    rw [Nat.add_comm, subspan_of_le (by rw [List.length_cons, List.length_append]; omega),
      List.drop_succ_cons, List.drop_left]
  unfold nameOf commandName nameBytes
  rw [List.cons_append, if_neg (List.cons_ne_nil _ _)]
  simp only [front_cons, subspan_one_cons, Option.bind_eq_bind, Option.bind_some,
    toNat_toUInt8 h]
  rw [if_neg (by rw [List.length_cons, List.length_append]; omega), first_append, hdrop]
  rfl

/-- The payload flags of a frame. -/
def payloadOf (frame : Frame) : UInt8 :=
  (if frame.flags &&& flagMore ≠ 0 then payloadMore else 0) |||
    (if frame.flags &&& flagCommand ≠ 0 then payloadCommand else 0)

/-- A frame in a box. -/
def boxedFrame (primitives : Primitives) (session label : Bytes) (nonce : ℕ) (frame : Frame) :
    Frame :=
  ⟨encodedFlags (messageOf primitives session label nonce (payloadOf frame, frame.body)) false false,
    messageOf primitives session label nonce (payloadOf frame, frame.body)⟩

/-- Frames in boxes, with successive numbers. -/
def boxedFrames (primitives : Primitives) (session label : Bytes) : ℕ → List Frame → List Frame
  | _, [] => []
  | nonce, frame :: frames =>
    boxedFrame primitives session label nonce frame ::
      boxedFrames primitives session label (nonce + 1) frames

theorem messageOf_length (session label : Bytes) (nonce : ℕ) (message : UInt8 × Bytes) :
    (messageOf primitives session label nonce message).length
      = message.2.length + messageMinimum := by
  have hfixed : (nameBytes nameMessage).length + 8 + 1 + tagSize = messageMinimum := by decide
  simp only [messageOf, List.length_append, boxed_length, List.length_cons, toBytes_length]
  omega

/-- What is written of frames are the frames in boxes. -/
theorem boxFrames_buffer (primitives : Primitives) {session : Bytes} {frames : List Frame} {buffer : Bytes}
    (h : Buffer frames buffer)
    (hsize : ∀ frame ∈ frames, frame.body.length + messageMinimum < 2 ^ 64) (c : Cipher)
    (hsession : c.sessionBox = some session) (boxed : Bytes) {turns : ℕ}
    (hturns : buffer.length < turns) :
    ∃ bytes, Buffer (boxedFrames primitives session (labelOf c.server) c.nonce frames) bytes ∧
      (Stream.boxFrames primitives turns c boxed buffer).2 = some (boxed ++ bytes) := by
  induction h generalizing c boxed turns with
  | nil =>
    cases turns with
    | zero => exact absurd hturns (Nat.not_lt_zero _)
    | succ turns => exact ⟨[], .nil, by rw [List.append_nil]; rfl⟩
  | @cons frame frames bytes rest head tail ih =>
    cases turns with
    | zero => exact absurd hturns (Nat.not_lt_zero _)
    | succ turns =>
      have hpos := head.length_pos
      rw [List.length_append] at hturns
      set message := messageOf primitives session (labelOf c.server) c.nonce
        (payloadOf frame, frame.body) with hmessage
      have hmessageSize : message.length < 2 ^ 64 := by
        rw [hmessage, messageOf_length]
        exact hsize frame List.mem_cons_self
      obtain ⟨bytes', hbuffer, hboxed⟩ := ih
        (fun frame hframe => hsize frame (List.mem_cons_of_mem _ hframe))
        { c with
          seals := c.seals ++ [(session, shortNonce (labelOf c.server) c.nonce)]
          nonce := c.nonce + 1 } hsession (boxed ++ frameEncode message false false)
        (show rest.length < turns by omega)
      refine ⟨frameEncode message false false ++ bytes',
        .cons (frameEncode_framed hmessageSize false false) hbuffer, ?_⟩
      have hdecode : (frameDecode (bytes ++ rest)).join = some (frame, rest) := by
        rw [frameDecode_framed head rest]
        rfl
      have hencode := encode_eq primitives hsession (payloadOf frame, frame.body)
      have hnil : bytes ++ rest ≠ [] :=
        List.append_ne_nil_of_left_ne_nil (List.ne_nil_of_length_pos hpos) _
      rw [Stream.boxFrames, if_neg hnil, hdecode]
      rw [payloadOf] at hencode
      simp only [hencode]
      rw [← List.append_assoc]
      exact hboxed

/-- What is read of frames in boxes. -/
def boxedResults (maximum fault : ℕ) : ℕ → List Frame → List (Except Code Frame)
  | _, [] => [.error (.transport fault)]
  | nonce, frame :: frames =>
    if maximum < frame.body.length + messageMinimum then [.error .oversizedPayload]
    else if 2 ^ 64 ≤ nonce then [.error .protocolViolation]
    else .ok ⟨flagsOf frame.command frame.more, frame.body⟩ ::
      boxedResults maximum fault (nonce + 1) frames

/-- The flags of a payload are those of the frame. -/
theorem payloadOf_flags (frame : Frame) :
    (if payloadOf frame &&& payloadMore ≠ 0 then flagMore else 0) |||
        (if payloadOf frame &&& payloadCommand ≠ 0 then flagCommand else 0) =
      flagsOf frame.command frame.more := by
  unfold payloadOf flagsOf Frame.command Frame.more
  by_cases hmore : frame.flags &&& flagMore = 0
  · by_cases hcommand : frame.flags &&& flagCommand = 0
    · simp [hmore, hcommand]
    · simp [hmore, hcommand]
      decide
  · by_cases hcommand : frame.flags &&& flagCommand = 0
    · simp [hmore, hcommand]
      decide
    · simp [hmore, hcommand]
      decide

/-- The body of a frame in a box is opened, or its number is out of 64 bits. -/
theorem handleFrameBody_boxed (correct : primitives.Correct) {s : Stream} {c : Cipher}
    {session : Bytes} (hs : s.secured = true) (hcipher : s.cipher = some c)
    (hsession : c.sessionBox = some session) (hmax : c.peerNonce < 2 ^ 64) (frame : Frame) :
    s.handleFrameBody primitives
        (boxedFrame primitives session (labelOf (!c.server)) (c.peerNonce + 1) frame) handler =
      if 2 ^ 64 ≤ c.peerNonce + 1 then
        handler { s with cipher := some c } (.error .protocolViolation)
      else
        handler { s with cipher := some { c with peerNonce := c.peerNonce + 1 } }
          (.ok ⟨flagsOf frame.command frame.more, frame.body⟩) := by
  have hname : nameOf (boxedFrame primitives session (labelOf (!c.server)) (c.peerNonce + 1)
      frame).body = some (nameMessage, _) :=
    nameOf_nameBytes (by decide) _
  have hcommand : (boxedFrame primitives session (labelOf (!c.server)) (c.peerNonce + 1)
      frame).command = false := (encodedFlags_spec _ false false).1
  unfold Stream.handleFrameBody
  rw [if_neg (by rw [hs]; exact not_not.mpr rfl), hname, hcipher]
  simp only [hcommand]
  rw [if_neg (by simp), if_neg (by simp)]
  by_cases hlast : 2 ^ 64 ≤ c.peerNonce + 1
  · have hlate : (c.peerNonce + 1) % 2 ^ 64 ≤ c.peerNonce := by omega
    have hdecode := decode_late primitives hsession session (labelOf (!c.server))
      (c.peerNonce + 1) (payloadOf frame, frame.body) hlate
    rw [if_pos hlast]
    simp only [boxedFrame, hdecode]
  · have hdecode := decode_message correct hsession (payloadOf frame, frame.body)
      (Nat.lt_succ_self c.peerNonce) (Nat.not_le.mp hlast)
    rw [if_neg hlast]
    simp only [boxedFrame, hdecode]
    rw [payloadOf_flags]

theorem run_readFrames_boxed (correct : primitives.Correct) {session : Bytes} (maximum : ℕ)
    {frames : List Frame} (count : ℕ) {s : Stream} {c : Cipher} {buffer : Bytes}
    (hs : s.secured = true) (hcipher : s.cipher = some c) (hsession : c.sessionBox = some session)
    (hmax : c.peerNonce < 2 ^ 64)
    (h : Buffer (boxedFrames primitives session (labelOf (!c.server)) (c.peerNonce + 1) frames)
      buffer) (t : Transport) (hinput : t.input = buffer) :
    ((readFrames primitives maximum count s).run t).1 =
      (boxedResults maximum t.fault (c.peerNonce + 1) frames).take count := by
  induction frames generalizing count s c buffer t with
  | nil =>
    cases h
    cases count with
    | zero => rfl
    | succ count =>
      rw [readFrames, asyncReadFrame_nil s maximum t hinput]
      simp [boxedResults]
  | cons frame frames ih =>
    cases h with
    | @cons _ _ bytes rest head tail =>
      cases count with
      | zero => rfl
      | succ count =>
        have hlength : (boxedFrame primitives session (labelOf (!c.server)) (c.peerNonce + 1)
            frame).body.length = frame.body.length + messageMinimum := messageOf_length _ _ _ _
        rw [readFrames, asyncReadFrame_framed s maximum head rest t hinput, boxedResults, hlength]
        by_cases hmaximum : maximum < frame.body.length + messageMinimum
        · rw [if_pos hmaximum, if_pos hmaximum]
          simp
        · rw [if_neg hmaximum, if_neg hmaximum,
            handleFrameBody_boxed correct hs hcipher hsession hmax frame]
          by_cases hlast : 2 ^ 64 ≤ c.peerNonce + 1
          · rw [if_pos hlast, if_pos hlast]
            simp
          · rw [if_neg hlast, if_neg hlast]
            show Except.ok _ :: _ = Except.ok _ :: _
            have htail := ih count
              (s := { s with cipher := some { c with peerNonce := c.peerNonce + 1 } }) hs rfl
              hsession (Nat.not_le.mp hlast) tail { t with input := rest } rfl
            rw [htail]


end

end BitcoinNetwork.Zmtp
