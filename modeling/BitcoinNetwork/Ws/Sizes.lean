import BitcoinNetwork.Ws.Encoding
import BitcoinNetwork.Ws.Reading

/-!
# The sizes of messages (ws/reader.cpp)

The put functions with the 64 bit arithmetic of the source, that wraps. In a state that a
reader reaches nothing wraps, and a message is refused by the header that would exceed the
maximum.
-/

namespace BitcoinNetwork.Ws

/-- The sum of words. -/
def add64 (a b : ℕ) : ℕ := (UInt64.ofNat a + UInt64.ofNat b).toNat

/-- The difference of words. -/
def sub64 (a b : ℕ) : ℕ := (UInt64.ofNat a - UInt64.ofNat b).toNat

theorem toNat_ofNat64 {a : ℕ} (h : a < 2 ^ 64) : (UInt64.ofNat a).toNat = a :=
  UInt64.toNat_ofNat_of_lt' h

theorem add64_eq {a b : ℕ} (h : a + b < 2 ^ 64) : add64 a b = a + b := by
  unfold add64
  rw [UInt64.toNat_add, toNat_ofNat64 (by omega), toNat_ofNat64 (by omega)]
  exact Nat.mod_eq_of_lt h

theorem sub64_eq {a b : ℕ} (h : b ≤ a) (ha : a < 2 ^ 64) : sub64 a b = a - b := by
  have hb : b < 2 ^ 64 := by omega
  have hle : UInt64.ofNat b ≤ UInt64.ofNat a := by
    rw [UInt64.le_iff_toNat_le, toNat_ofNat64 ha, toNat_ofNat64 hb]
    exact h
  unfold sub64
  rw [UInt64.toNat_sub_of_le _ _ hle, toNat_ofNat64 ha, toNat_ofNat64 hb]

namespace Reader

/-! ### Words -/

/-- `put_payload` of a control frame. -/
def putControl64 (reader : Reader) (data message : Bytes) : Put :=
  let remaining := sub64 reader.frame.length reader.offset
  if data.length < remaining then { reader, message }
  else
    let payload := data.take remaining
    let payload := if reader.frame.masked then applyMask payload reader.frame.key 0 else payload
    let reader := { reader with control := payload, payload := false }
    match reader.frame.code with
    | .ping => { reader, message, used := remaining, event := .ping }
    | .pong => { reader, message, used := remaining, event := .pong }
    | _ =>
      match parseClose payload with
      | .ok _ => { reader, message, used := remaining, event := .close }
      | .error e => { reader, message, used := remaining, code := some e }

/-- The rest of `put_payload` of a data frame. -/
def putData64 (reader : Reader) (size : ℕ) (message : Bytes) : Put :=
  let reader := { reader with
    offset := add64 reader.offset size, size := add64 reader.size size }
  if reader.offset < reader.frame.length then { reader, message, used := size }
  else
    let reader := { reader with payload := false, continuing := !reader.frame.fin }
    if ¬reader.frame.fin then { reader, message, used := size }
    else if reader.binary then { reader, message, used := size, event := .message }
    else
      let finish := reader.utf8.finish
      let reader := { reader with utf8 := finish.2 }
      if ¬finish.1 then { reader, message, used := size, code := some .badFramePayload }
      else { reader, message, used := size, event := .message }

/-- `put_payload`. -/
def putPayload64 (limit : ℕ) (reader : Reader) (data message : Bytes) : Put :=
  if reader.frame.code.isControl then reader.putControl64 data message
  else
    let size := min (sub64 reader.frame.length reader.offset) data.length
    if size = 0 then reader.putData64 size message
    else if limit - message.length < size then
      { reader, message, code := some .websocketBufferOverflow }
    else
      let target := data.take size
      let target := if reader.frame.masked then applyMask target reader.frame.key reader.offset
        else target
      if reader.binary then reader.putData64 size (message ++ target)
      else
        let written := reader.utf8.write target
        let reader := { reader with utf8 := written.2 }
        if ¬written.1 then { reader, message, code := some .badFramePayload }
        else reader.putData64 size (message ++ target)

/-- The payload that follows a header. -/
def enterPayload64 (limit : ℕ) (reader : Reader) (size : ℕ) (message : Bytes) : Put :=
  if ¬reader.frame.code.isControl ∧
      sub64 reader.maximum (min reader.maximum reader.size) < reader.frame.length then
    { reader, message, code := some .messageTooBig }
  else
    let reader := { reader with offset := 0, payload := true }
    if reader.frame.length = 0 then { reader.putPayload64 limit [] message with used := size }
    else { reader, message, used := size }

/-- `put_header`. -/
def putHeader64 (limit : ℕ) (reader : Reader) (data message : Bytes) : Put :=
  match parseHeader reader.frame data reader.server with
  | (frame, .error .needMore) => { reader := { reader with frame }, message }
  | (frame, .error e) => { reader := { reader with frame }, message, code := some e }
  | (frame, .ok size) =>
    let reader := { reader with frame }
    match frame.code with
    | .continuation =>
      if ¬reader.continuing then { reader, message, code := some .badContinuation }
      else reader.enterPayload64 limit size message
    | .text | .binary =>
      if reader.continuing then { reader, message, code := some .badDataFrame }
      else
        let reader := { reader with
          binary := decide (frame.code = Opcode.binary), utf8 := {}, size := 0 }
        reader.enterPayload64 limit size message
    | _ =>
      let reader := { reader with control := [] }
      reader.enterPayload64 limit size message

/-- The put function of the loop of `put`. -/
def turn64 (limit : ℕ) (reader : Reader) (data message : Bytes) : Put :=
  if reader.payload then reader.putPayload64 limit data message
  else reader.putHeader64 limit data message

/-! ### States -/

/-- The states between turns of the loops of `put` and of its callers, for any bytes that are
presented in each turn. -/
inductive Reached (maximum limit : ℕ) (server : Bool) : Reader → Bytes → Prop
  | new : Reached maximum limit server { maximum, server } []
  | turn {reader : Reader} {message : Bytes} (h : Reached maximum limit server reader message)
      (data : Bytes) (code : (reader.turn limit data message).code = none) :
      Reached maximum limit server (reader.turn limit data message).reader
        (reader.turn limit data message).taken.2

/-- A data frame that may come next. -/
def Next (reader : Reader) (frame : FrameHeader) : Prop :=
  (frame.code = .continuation ∧ reader.continuing = true) ∨
    ((frame.code = .text ∨ frame.code = .binary) ∧ reader.continuing = false)

/-- The message is within the maximum, and what is counted is what there is of it, which
control frames leave as it is. A header is refused exactly if its frame would exceed the
maximum, with nothing taken. Words do not wrap. -/
structure Accounted (maximum limit : ℕ) (reader : Reader) (message data : Bytes) : Prop where
  bounded : (reader.turn limit data message).message.length ≤ maximum
  counted : reader.continuing = true ∨ reader.InData → reader.size = message.length
  control : reader.InControl → (reader.turn limit data message).message = message ∧
    (reader.turn limit data message).reader.size = reader.size
  restarts : ∀ frame size, reader.payload = false →
    parseHeader reader.frame data reader.server = (frame, .ok size) →
    (reader.turn limit data message).message = message ∧
    (frame.code.isControl = true → (reader.turn limit data message).reader.size = reader.size) ∧
    (frame.code.isControl = false → reader.continuing = false →
      (reader.turn limit data message).code = none →
        (reader.turn limit data message).reader.size = 0)
  refused : ∀ frame size, reader.payload = false →
    parseHeader reader.frame data reader.server = (frame, .ok size) → reader.Next frame →
    ((reader.turn limit data message).code = some .messageTooBig ↔
      maximum < message.length + frame.length)
  unwrapped : reader.turn64 limit data message = reader.turn limit data message

/-! ### Turns -/

variable {limit maximum : ℕ} {server : Bool}

/-- What a payload leaves of the reader. -/
structure Kept (reader : Reader) (put : Put) : Prop where
  maximum : put.reader.maximum = reader.maximum
  frame : put.reader.frame = reader.frame

theorem putControl_kept (reader : Reader) (data message : Bytes) :
    Kept reader (reader.putControl data message) ∧
      (reader.putControl data message).message = message ∧
      (reader.putControl data message).reader.size = reader.size := by
  unfold putControl
  dsimp only
  split
  · exact ⟨⟨rfl, rfl⟩, rfl, rfl⟩
  split
  · exact ⟨⟨rfl, rfl⟩, rfl, rfl⟩
  · exact ⟨⟨rfl, rfl⟩, rfl, rfl⟩
  · split
    · exact ⟨⟨rfl, rfl⟩, rfl, rfl⟩
    · exact ⟨⟨rfl, rfl⟩, rfl, rfl⟩

theorem putData_kept (reader : Reader) (size : ℕ) (message : Bytes) :
    Kept reader (reader.putData size message) ∧
      (reader.putData size message).message = message ∧
      (reader.putData size message).reader.size = reader.size + size := by
  unfold putData
  dsimp only
  split
  · exact ⟨⟨rfl, rfl⟩, rfl, rfl⟩
  split
  · exact ⟨⟨rfl, rfl⟩, rfl, rfl⟩
  split
  · exact ⟨⟨rfl, rfl⟩, rfl, rfl⟩
  split
  · exact ⟨⟨rfl, rfl⟩, rfl, rfl⟩
  · exact ⟨⟨rfl, rfl⟩, rfl, rfl⟩

theorem putPayload_kept (reader : Reader) (data message : Bytes) :
    Kept reader (reader.putPayload limit data message) := by
  unfold putPayload
  dsimp only
  split
  · exact (putControl_kept reader data message).1
  split
  · exact (putData_kept reader _ message).1
  split
  · exact ⟨rfl, rfl⟩
  generalize (if reader.frame.masked = true then _ else _ : Bytes) = target
  split
  · exact (putData_kept reader _ _).1
  split
  · exact ⟨rfl, rfl⟩
  · exact ⟨(putData_kept _ _ _).1.maximum, (putData_kept _ _ _).1.frame⟩

/-- An empty payload adds nothing. -/
theorem putPayload_nil (reader : Reader) (message : Bytes) :
    (reader.putPayload limit [] message).message = message ∧
      (reader.putPayload limit [] message).reader.size = reader.size := by
  unfold putPayload
  dsimp only
  rw [List.length_nil, Nat.min_zero]
  split
  · exact (putControl_kept reader [] message).2
  · rw [if_pos rfl]
    exact (putData_kept reader 0 message).2

theorem enterPayload_kept (reader : Reader) (size : ℕ) (message : Bytes) :
    Kept reader (reader.enterPayload limit size message) ∧
      (reader.enterPayload limit size message).message = message ∧
      (reader.enterPayload limit size message).reader.size = reader.size := by
  unfold enterPayload
  dsimp only
  split
  · exact ⟨⟨rfl, rfl⟩, rfl, rfl⟩
  split
  · have hkept := @putPayload_kept limit { reader with offset := 0, payload := true } [] message
    obtain ⟨hmessage, hsize⟩ :=
      @putPayload_nil limit { reader with offset := 0, payload := true } message
    exact ⟨⟨hkept.maximum, hkept.frame⟩, hmessage, hsize⟩
  · exact ⟨⟨rfl, rfl⟩, rfl, rfl⟩

/-- What a header leaves, of which the frame is the one that is parsed. -/
structure Headed (reader : Reader) (header : FrameHeader) (message : Bytes) (put : Put) : Prop where
  maximum : put.reader.maximum = reader.maximum
  frame : put.reader.frame = header
  message : put.message = message
  control : header.code.isControl = true → put.reader.size = reader.size
  begins : header.code.isControl = false → reader.continuing = false → put.code = none →
    put.reader.size = 0

theorem putHeader_headed {reader : Reader} {data : Bytes} {frame : FrameHeader} {size : ℕ}
    (message : Bytes) (h : parseHeader reader.frame data reader.server = (frame, .ok size)) :
    Headed reader frame message (reader.putHeader limit data message) := by
  have hentered (next : Reader) (hmaximum : next.maximum = reader.maximum)
      (hframe : next.frame = frame) (hcontrol : frame.code.isControl = true →
        next.size = reader.size) (hbegins : frame.code.isControl = false →
          reader.continuing = false → next.size = 0) :
      Headed reader frame message (next.enterPayload limit size message) := by
    obtain ⟨hkept, hmessage, hsize⟩ := @enterPayload_kept limit next size message
    exact ⟨hkept.maximum.trans hmaximum, hkept.frame.trans hframe, hmessage,
      fun hc => hsize.trans (hcontrol hc), fun hc hcontinuing _ =>
        hsize.trans (hbegins hc hcontinuing)⟩
  unfold putHeader
  rw [h]
  dsimp only
  cases hc : frame.code with
  | continuation =>
    dsimp only
    split
    · exact ⟨rfl, rfl, rfl, fun _ => rfl, fun _ _ => nofun⟩
    · rename_i hcontinuing
      exact hentered _ rfl rfl (fun _ => rfl) fun _ hnot => absurd hnot (by simpa using hcontinuing)
  | text | binary =>
    dsimp only
    split
    · exact ⟨rfl, rfl, rfl, fun _ => rfl, fun _ _ => nofun⟩
    · exact hentered _ rfl rfl (fun hcontrol => by rw [hc] at hcontrol; cases hcontrol)
        fun _ _ => rfl
  | close | ping | pong =>
    dsimp only
    exact hentered _ rfl rfl (fun _ => rfl) fun hcontrol => by rw [hc] at hcontrol; cases hcontrol

theorem turn_payload {reader : Reader} (h : reader.payload = true) (data message : Bytes) :
    reader.turn limit data message = reader.putPayload limit data message := by
  simp only [turn, h, reduceIte]

theorem turn_header {reader : Reader} (h : reader.payload = false) (data message : Bytes) :
    reader.turn limit data message = reader.putHeader limit data message := by
  simp only [turn, h, Bool.false_eq_true, reduceIte]

/-- A turn keeps the maximum, and the frame of a payload is one that was parsed. -/
theorem turn_kept (reader : Reader) (data message : Bytes) :
    (reader.turn limit data message).reader.maximum = reader.maximum ∧
      ((reader.turn limit data message).reader.payload = true →
        (reader.payload = true ∧ (reader.turn limit data message).reader.frame = reader.frame) ∨
        ∃ size, parseHeader reader.frame data reader.server
          = ((reader.turn limit data message).reader.frame, .ok size)) := by
  cases hp : reader.payload with
  | true =>
    rw [turn_payload hp]
    have hkept := @putPayload_kept limit reader data message
    exact ⟨hkept.maximum, fun _ => .inl ⟨rfl, hkept.frame⟩⟩
  | false =>
    rw [turn_header hp]
    cases hparse : parseHeader reader.frame data reader.server with
    | mk frame result =>
      cases result with
      | ok size =>
        have hheaded := @putHeader_headed limit _ _ _ _ message hparse
        exact ⟨hheaded.maximum, fun _ => .inr ⟨size, by rw [hheaded.frame]⟩⟩
      | error e =>
        unfold putHeader
        rw [hparse]
        cases e with
        | _ => exact ⟨rfl, fun hpayload => absurd hpayload (by simp [hp])⟩

/-- A smaller buffer makes no difference, unless it overflows. -/
theorem turn_limit {limit' : ℕ} (h : limit ≤ limit') (reader : Reader) (data message : Bytes) :
    reader.turn limit data message = reader.turn limit' data message ∨
      ((reader.turn limit data message).code = some .websocketBufferOverflow ∧
        (reader.turn limit data message).message = message) := by
  cases hp : reader.payload with
  | false =>
    have hnil (next : Reader) :
        next.putPayload limit [] message = next.putPayload limit' [] message := by
      unfold putPayload
      simp only [List.length_nil, Nat.min_zero, reduceIte]
    have henter (next : Reader) (size : ℕ) :
        next.enterPayload limit size message = next.enterPayload limit' size message := by
      unfold enterPayload
      simp only [hnil]
    rw [turn_header hp, turn_header hp]
    left
    unfold putHeader
    simp only [henter]
  | true =>
    rw [turn_payload hp, turn_payload hp]
    unfold putPayload
    dsimp only
    split
    · exact .inl rfl
    split
    · exact .inl rfl
    by_cases hroom : limit - message.length < min (reader.frame.length - reader.offset) data.length
    · right
      rw [if_pos hroom]
      exact ⟨rfl, rfl⟩
    · have hroom' : ¬limit' - message.length
          < min (reader.frame.length - reader.offset) data.length := by omega
      left
      rw [if_neg hroom, if_neg hroom']

/-! ### Reached states -/

theorem Reached.inv {reader : Reader} {message : Bytes}
    (h : Reached maximum limit server reader message) :
    Inv (max limit maximum) (reader, message) ∧ reader.maximum = maximum ∧
      (reader.payload = true → reader.frame.length < 2 ^ 63) := by
  induction h with
  | new => exact ⟨inv_new _ (Nat.le_max_right _ _) server, rfl, nofun⟩
  | @turn reader message _ data hcode ih =>
    obtain ⟨hinv, hmaximum, hshort⟩ := ih
    obtain ⟨hkept, hframe⟩ := @turn_kept limit reader data message
    refine ⟨?_, hkept.trans hmaximum, fun hpayload => ?_⟩
    · rcases turn_limit (Nat.le_max_left limit maximum) reader data message with heq | ⟨hfull, -⟩
      · rw [heq] at hcode ⊢
        have hstep : step (max limit maximum) (reader, message) data
            = stepOf (reader.turn (max limit maximum) data message) := rfl
        unfold stepOf at hstep
        rw [hcode] at hstep
        dsimp only at hstep
        split at hstep
        · obtain ⟨other, halike, hturn⟩ := turn_wait hinv hstep
          rw [hturn]
          exact halike.inv hinv
        · exact (step_next hinv hstep).2.2
      · rw [hcode] at hfull
        cases hfull
    · rcases hframe hpayload with ⟨hbefore, hsame⟩ | ⟨size, hparse⟩
      · rw [hsame]
        exact hshort hbefore
      · exact (parseHeader_ok hparse).2.2.1

/-! ### Sizes -/

/-- What is in the message is within the maximum. -/
theorem Inv.message_le {reader : Reader} {message : Bytes} (h : Inv limit (reader, message)) :
    message.length ≤ reader.maximum := by
  by_cases hopen : reader.continuing = true ∨ reader.InData
  · obtain ⟨hlength, hle⟩ := h.unfinished hopen
    simp only at hlength hle
    omega
  · rw [not_or] at hopen
    have hempty : message = [] := h.finished (Bool.eq_false_iff.mpr hopen.1) hopen.2
    rw [hempty]
    exact Nat.zero_le _

/-- A payload adds no more than is to come of its frame. -/
theorem putPayload_length (reader : Reader) (data message : Bytes)
    (h : reader.frame.code.isControl = false) :
    (reader.putPayload limit data message).message.length
      ≤ message.length + (reader.frame.length - reader.offset) := by
  have htarget : (reader.unmasked (data.take (reader.payloadSize data))).length
      ≤ reader.frame.length - reader.offset := by
    rw [unmasked_length, List.length_take]
    exact (Nat.min_le_left _ _).trans (Nat.min_le_left _ _)
  have happended : (message ++ reader.unmasked (data.take (reader.payloadSize data))).length
      ≤ message.length + (reader.frame.length - reader.offset) := by
    rw [List.length_append]
    omega
  unfold unmasked payloadSize at happended
  unfold putPayload
  dsimp only
  rw [if_neg (by rw [h]; exact Bool.false_ne_true)]
  generalize (if reader.frame.masked = true then _ else _ : Bytes) = target at happended ⊢
  split
  · rw [(putData_kept reader _ message).2.1]
    exact Nat.le_add_right _ _
  split
  · exact Nat.le_add_right _ _
  split
  · rw [(putData_kept reader _ _).2.1]
    exact happended
  split
  · exact Nat.le_add_right _ _
  · rw [(putData_kept _ _ _).2.1]
    exact happended

theorem putHeader_error {reader : Reader} {data : Bytes} {frame : FrameHeader} {e : WsError}
    (message : Bytes) (h : parseHeader reader.frame data reader.server = (frame, .error e)) :
    (reader.putHeader limit data message).message = message := by
  unfold putHeader
  rw [h]
  cases e <;> rfl

theorem Inv.turn_le {reader : Reader} {message : Bytes} {bound : ℕ}
    (h : Inv bound (reader, message)) (data : Bytes) :
    (reader.turn limit data message).message.length ≤ reader.maximum := by
  rcases payload_cases reader with hp | hp | hp
  · rw [turn_header hp]
    cases hparse : parseHeader reader.frame data reader.server with
    | mk frame result =>
      cases result with
      | error e =>
        rw [putHeader_error message hparse]
        exact h.message_le
      | ok size =>
        rw [(putHeader_headed message hparse).message]
        exact h.message_le
  · rw [turn_payload hp.1]
    have hadded := @putPayload_length limit reader data message hp.2
    obtain ⟨hlength, -⟩ := h.unfinished (.inr hp)
    obtain ⟨-, hroom⟩ := h.data hp
    simp only at hlength hroom
    omega
  · rw [turn_payload hp.1]
    unfold putPayload
    rw [if_pos hp.2, (putControl_kept reader data message).2.1]
    exact h.message_le

/-- A data frame that may come next is refused exactly if it would exceed the maximum. -/
theorem Inv.refused {reader : Reader} {message data : Bytes} {bound : ℕ}
    (h : Inv bound (reader, message)) (hp : reader.payload = false) {frame : FrameHeader}
    {size : ℕ} (hparse : parseHeader reader.frame data reader.server = (frame, .ok size))
    (hnext : reader.Next frame) :
    (reader.putHeader limit data message).code = some .messageTooBig ↔
      reader.maximum < message.length + frame.length := by
  -- an empty payload is not refused for its size
  have hdata (next : Reader) (hc : next.frame.code.isControl = false) :
      (next.putPayload limit [] message).code ≠ some .messageTooBig := by
    unfold putPayload
    dsimp only
    rw [if_neg (by rw [hc]; exact Bool.false_ne_true), List.length_nil, Nat.min_zero, if_pos rfl]
    unfold putData
    dsimp only
    repeat' split
    all_goals nofun
  have hentered (next : Reader) (hmaximum : next.maximum = reader.maximum)
      (hframe : next.frame = frame) (hc : frame.code.isControl = false)
      (hsize : next.size = message.length) :
      (next.enterPayload limit size message).code = some .messageTooBig ↔
        reader.maximum < message.length + frame.length := by
    have hle := h.message_le
    unfold enterPayload
    rw [hmaximum, hsize, hframe, hc]
    by_cases hbig : reader.maximum < message.length + frame.length
    · have hover : reader.maximum - min reader.maximum message.length < frame.length := by omega
      rw [if_pos ⟨Bool.false_ne_true, hover⟩]
      exact iff_of_true rfl hbig
    · have hunder : ¬reader.maximum - min reader.maximum message.length < frame.length := by omega
      rw [if_neg fun hc => hunder hc.2]
      refine iff_of_false ?_ hbig
      dsimp only
      split
      · exact hdata _ hc
      · nofun
  unfold putHeader
  rw [hparse]
  dsimp only
  rcases hnext with ⟨hcode, hcontinuing⟩ | ⟨hcode, hcontinuing⟩
  · obtain ⟨hlength, -⟩ := h.unfinished (.inl hcontinuing)
    rw [hcode]
    dsimp only
    rw [if_neg (not_not.mpr hcontinuing)]
    exact hentered _ rfl rfl (by rw [hcode]; rfl) hlength.symm
  · have hempty : message = [] := h.finished hcontinuing (not_inData hp)
    rcases hcode with hcode | hcode
    · rw [hcode]
      dsimp only
      rw [if_neg (by rw [hcontinuing]; exact Bool.false_ne_true)]
      exact hentered _ rfl rfl (by rw [hcode]; rfl) (by rw [hempty]; rfl)
    · rw [hcode]
      dsimp only
      rw [if_neg (by rw [hcontinuing]; exact Bool.false_ne_true)]
      exact hentered _ rfl rfl (by rw [hcode]; rfl) (by rw [hempty]; rfl)

/-! ### Words do not wrap -/

theorem putControl64_eq {reader : Reader} (data message : Bytes)
    (h : reader.offset ≤ reader.frame.length) (hshort : reader.frame.length < 2 ^ 64) :
    reader.putControl64 data message = reader.putControl data message := by
  unfold putControl64 putControl
  rewrite [sub64_eq h hshort]
  rfl

theorem putData64_eq {reader : Reader} {size : ℕ} (message : Bytes)
    (hoffset : reader.offset + size < 2 ^ 64) (hsize : reader.size + size < 2 ^ 64) :
    reader.putData64 size message = reader.putData size message := by
  unfold putData64 putData
  rw [add64_eq hoffset, add64_eq hsize]

theorem putPayload64_eq {reader : Reader} (data message : Bytes)
    (h : reader.offset ≤ reader.frame.length) (hshort : reader.frame.length < 2 ^ 64)
    (hsize : reader.frame.code.isControl = false →
      reader.size + (reader.frame.length - reader.offset) < 2 ^ 64) :
    reader.putPayload64 limit data message = reader.putPayload limit data message := by
  unfold putPayload64 putPayload
  rw [sub64_eq h hshort, putControl64_eq data message h hshort]
  by_cases hc : reader.frame.code.isControl = true
  · rw [if_pos hc, if_pos hc]
  · rw [if_neg hc, if_neg hc]
    have hroom := hsize (Bool.eq_false_iff.mpr hc)
    dsimp only
    generalize hmin : min (reader.frame.length - reader.offset) data.length = size
    have hle : size ≤ reader.frame.length - reader.offset := by omega
    have hput (next : Reader) (hoffset : next.offset = reader.offset)
        (hcounted : next.size = reader.size) (target : Bytes) :
        next.putData64 size target = next.putData size target :=
      putData64_eq target (by rw [hoffset]; omega) (by rw [hcounted]; omega)
    rw [hput reader rfl rfl]
    split
    · rfl
    split
    · rfl
    generalize (if reader.frame.masked = true then _ else _ : Bytes) = target
    rw [hput reader rfl rfl]
    split
    · rfl
    split
    · rfl
    · exact hput { reader with utf8 := (reader.utf8.write target).2 } rfl rfl _

theorem enterPayload64_eq {reader : Reader} (size : ℕ) (message : Bytes)
    (hmaximum : reader.maximum < 2 ^ 64)
    (hsize : reader.frame.code.isControl = false → reader.size < 2 ^ 64) :
    reader.enterPayload64 limit size message = reader.enterPayload limit size message := by
  unfold enterPayload64 enterPayload
  rw [sub64_eq (Nat.min_le_left _ _) hmaximum]
  split
  · rfl
  dsimp only
  split
  · rename_i hempty
    have hput := @putPayload64_eq limit { reader with offset := 0, payload := true } [] message
      (Nat.zero_le _) (by simp only [hempty]; norm_num) fun hc => by
        simp only [hempty, Nat.sub_zero, Nat.add_zero]
        exact hsize hc
    rw [hput]
  · rfl

theorem Inv.turn64_eq {reader : Reader} {message : Bytes} {bound : ℕ}
    (h : Inv bound (reader, message)) (hmaximum : reader.maximum < 2 ^ 64)
    (hshort : reader.payload = true → reader.frame.length < 2 ^ 63) (data : Bytes) :
    reader.turn64 limit data message = reader.turn limit data message := by
  rcases payload_cases reader with hp | hp | hp
  · rw [turn_header hp]
    unfold turn64
    rw [if_neg (by rw [hp]; exact Bool.false_ne_true)]
    unfold putHeader64 putHeader
    cases hparse : parseHeader reader.frame data reader.server with
    | mk frame result =>
      cases result with
      | error e => cases e <;> rfl
      | ok size =>
        dsimp only
        cases hc : frame.code with
        | continuation =>
          dsimp only
          split
          · rfl
          · rename_i hcontinuing
            obtain ⟨-, hle⟩ := h.unfinished (.inl (not_not.mp hcontinuing))
            exact enterPayload64_eq size message hmaximum fun _ => hle.trans_lt hmaximum
        | text | binary =>
          dsimp only
          split
          · rfl
          · exact enterPayload64_eq size message hmaximum fun _ => by norm_num
        | close | ping | pong =>
          refine enterPayload64_eq size message hmaximum fun hcontrol => ?_
          simp only [hc] at hcontrol
          cases hcontrol
  · obtain ⟨hoffset, hroom⟩ := h.data hp
    have hlong := hshort hp.1
    simp only at hoffset hroom
    rw [turn_payload hp.1]
    unfold turn64
    rw [if_pos hp.1]
    exact putPayload64_eq data message (Nat.le_of_lt hoffset) (by omega) fun _ => by omega
  · obtain ⟨hoffset, -⟩ := h.control hp
    have hlong := hshort hp.1
    simp only at hoffset
    rw [turn_payload hp.1]
    unfold turn64
    rw [if_pos hp.1]
    refine putPayload64_eq data message (by rw [hoffset]; exact Nat.zero_le _) (by omega)
      fun hdata => ?_
    rw [hp.2] at hdata
    cases hdata

/-- The sizes of messages are accounted for in every state that a reader of any maximum of 64
bits reaches, whatever bytes it is given next. -/
theorem sizes_accounted (maximum : UInt64) {limit : ℕ} {server : Bool} {reader : Reader}
    {message : Bytes} (h : Reached maximum.toNat limit server reader message) (data : Bytes) :
    Accounted maximum.toNat limit reader message data := by
  obtain ⟨hinv, hmaximum, hshort⟩ := h.inv
  have hword : reader.maximum < 2 ^ 64 := by
    rw [hmaximum]
    exact maximum.toNat_lt
  refine ⟨?_, fun hopen => (hinv.unfinished hopen).1.symm, fun hc => ?_,
    fun frame size hp hparse => ?_, fun frame size hp hparse hnext => ?_,
    hinv.turn64_eq hword hshort data⟩
  · rw [← hmaximum]
    exact hinv.turn_le data
  · rw [turn_payload hc.1]
    unfold putPayload
    rw [if_pos hc.2]
    exact (putControl_kept reader data message).2
  · rw [turn_header hp]
    have hheaded := @putHeader_headed limit _ _ _ _ message hparse
    exact ⟨hheaded.message, hheaded.control, hheaded.begins⟩
  · rw [turn_header hp, ← hmaximum]
    exact hinv.refused hp hparse hnext

/-- In the first fragment of a text. -/
theorem sizes_accounted_fragment :
    let put := ({ maximum := 5, server := true } : Reader).turn 100 [0x01, 0x83, 1, 2, 3, 4] []
    Accounted 5 100 put.reader put.taken.2 [5, 6, 7] :=
  sizes_accounted 5 (.turn .new _ (by decide)) _

end Reader

end BitcoinNetwork.Ws
