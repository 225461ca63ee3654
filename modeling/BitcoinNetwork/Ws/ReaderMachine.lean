import BitcoinNetwork.Incremental.Machine
import BitcoinNetwork.Ws.FrameHeader
import BitcoinNetwork.Ws.Reader

/-!
# The reader as a machine over its stream (ws/reader.cpp)

One step of the machine parses a frame header, takes what has arrived of a data
payload, or a control payload once it is complete. Its state is the reader with
the message buffer, of which a complete message is taken. The machine is
resumable, so that how the stream is cut into pieces does not show in its runs.
-/

namespace BitcoinNetwork.Ws
open Incremental

namespace Reader
variable (limit : ℕ)

/-- The step of a put function that consumes, waits or fails. -/
def stepOf (put : Put) : Step (Reader × Bytes) Event WsError :=
  match put.code with
  | some e => .fail e
  | none =>
    if put.used = 0 then .wait
    else .next (put.reader, put.taken.2) put.used put.taken.1.toList

/-- The put function of the loop of `put`. -/
def turn (reader : Reader) (data message : Bytes) : Put :=
  if reader.payload then reader.putPayload limit data message
  else reader.putHeader limit data message

/-- A frame header, a control payload, or a part of a data payload. -/
def step (s : Reader × Bytes) (data : Bytes) : Step (Reader × Bytes) Event WsError :=
  stepOf (s.1.turn limit data s.2)

/-- The reader is in the payload of a data frame. -/
def InData (reader : Reader) : Prop :=
  reader.payload = true ∧ reader.frame.code.isControl = false

/-- The reader is in the payload of a control frame. -/
def InControl (reader : Reader) : Prop :=
  reader.payload = true ∧ reader.frame.code.isControl = true

theorem not_inData {reader : Reader} (h : reader.payload = false) : ¬reader.InData :=
  fun hc => by rw [InData, h] at hc; cases hc.1

theorem not_inControl {reader : Reader} (h : reader.payload = false) : ¬reader.InControl :=
  fun hc => by rw [InControl, h] at hc; cases hc.1

/-- The message buffer holds what was counted of an unfinished message, which with
what is to come of its frame is within the maximum, and a payload has bytes to come. -/
structure Inv (s : Reader × Bytes) : Prop where
  fits : s.1.maximum ≤ limit
  unfinished : s.1.continuing = true ∨ s.1.InData →
    s.2.length = s.1.size ∧ s.1.size ≤ s.1.maximum
  finished : s.1.continuing = false → ¬s.1.InData → s.2 = []
  data : s.1.InData → s.1.offset < s.1.frame.length ∧
    s.1.size + (s.1.frame.length - s.1.offset) ≤ s.1.maximum
  control : s.1.InControl → s.1.offset = 0 ∧ 0 < s.1.frame.length

theorem inv_new {maximum : ℕ} (h : maximum ≤ limit) (server : Bool) :
    Inv limit ({ maximum, server }, []) where
  fits := h
  unfinished h := by
    rcases h with h | h
    · cases h
    · cases h.1
  finished _ _ := rfl
  data h := by cases h.1
  control h := by cases h.1

/-! ### Data payload -/

/-- The payload bytes without the mask. -/
def unmasked (reader : Reader) (bytes : Bytes) : Bytes :=
  if reader.frame.masked then applyMask bytes reader.frame.key reader.offset else bytes

/-- The reader once it has validated bytes of a message. -/
def accept (reader : Reader) (target : Bytes) : Option Reader :=
  if reader.binary then some reader
  else if (reader.utf8.write target).1 then
    some { reader with utf8 := (reader.utf8.write target).2 }
  else none

/-- The reader once bytes of a payload are in the message. -/
def advance (reader : Reader) (size : ℕ) : Reader :=
  { reader with offset := reader.offset + size, size := reader.size + size }

/-- The bytes of the payload among those that arrived. -/
def payloadSize (reader : Reader) (data : Bytes) : ℕ :=
  min (reader.frame.length - reader.offset) data.length

/-- What follows when a data payload may be complete. -/
def settle (reader : Reader) (message : Bytes) (used : ℕ) : Put :=
  if reader.offset < reader.frame.length then { reader, message, used }
  else
    let reader := { reader with payload := false, continuing := !reader.frame.fin }
    if ¬reader.frame.fin then { reader, message, used }
    else if reader.binary then { reader, message, used, event := .message }
    else
      let finish := reader.utf8.finish
      let reader := { reader with utf8 := finish.2 }
      if ¬finish.1 then { reader, message, used, code := some .badFramePayload }
      else { reader, message, used, event := .message }

theorem putData_eq (reader : Reader) (size : ℕ) (message : Bytes) :
    reader.putData size message = (reader.advance size).settle message size := rfl

theorem advance_add (reader : Reader) (a b : ℕ) :
    (reader.advance a).advance b = reader.advance (a + b) := by
  simp only [advance, Nat.add_assoc]

theorem unmasked_append (reader : Reader) (a b : Bytes) :
    reader.unmasked (a ++ b) = reader.unmasked a ++ (reader.advance a.length).unmasked b := by
  cases hm : reader.frame.masked with
  | true => simp only [unmasked, advance, hm, reduceIte, applyMask_append]
  | false => simp only [unmasked, advance, hm, Bool.false_eq_true, reduceIte]

theorem accept_append (reader : Reader) (a b : Bytes) :
    reader.accept (a ++ b) = (reader.accept a).bind fun next => next.accept b := by
  simp only [accept]
  cases hb : reader.binary with
  | true => simp [hb]
  | false =>
    rw [Utf8Validator.write_append]
    cases ha : (reader.utf8.write a).1 with
    | true => simp
    | false => simp [ha]

/-- Validation changes no more than the validator. -/
theorem accept_eq {reader next : Reader} {target : Bytes} (h : reader.accept target = some next) :
    ∃ utf8, next = { reader with utf8 := utf8 } := by
  unfold accept at h
  split at h
  · cases h
    exact ⟨reader.utf8, rfl⟩
  · split at h
    · cases h
      exact ⟨_, rfl⟩
    · cases h

theorem accept_advance (reader : Reader) (size : ℕ) (target : Bytes) :
    (reader.advance size).accept target = (reader.accept target).map (·.advance size) := by
  cases hb : reader.binary with
  | true => simp only [accept, advance, hb, reduceIte, Option.map_some]
  | false =>
    simp only [accept, advance, hb, Bool.false_eq_true, reduceIte]
    cases hw : (reader.utf8.write target).1 with
    | true => simp only [reduceIte, Option.map_some]
    | false => simp only [Bool.false_eq_true, reduceIte, Option.map_none]

theorem settle_more {reader : Reader} (h : reader.offset < reader.frame.length) (message : Bytes)
    {used : ℕ} (hu : used ≠ 0) :
    stepOf (reader.settle message used) = .next (reader, message) used [] := by
  rw [settle, if_pos h]
  simp only [stepOf, if_neg hu]
  rfl

/-- A payload goes on, ends a frame or a message, or ends it within a character. -/
theorem settle_cases (reader : Reader) (message : Bytes) {used : ℕ} (hu : 0 < used) :
    (reader.offset < reader.frame.length ∧
      stepOf (reader.settle message used) = .next (reader, message) used []) ∨
    (reader.frame.length ≤ reader.offset ∧ reader.frame.fin = false ∧
      stepOf (reader.settle message used) =
        .next ({ reader with payload := false, continuing := true }, message) used []) ∨
    (reader.frame.length ≤ reader.offset ∧ reader.frame.fin = true ∧
      (reader.binary = true ∨ reader.utf8.needed = 0) ∧
      ∃ utf8, stepOf (reader.settle message used) =
        .next ({ reader with payload := false, continuing := false, utf8 := utf8 }, []) used
          [.message reader.binary message]) ∨
    (reader.frame.length ≤ reader.offset ∧ reader.frame.fin = true ∧ reader.binary = false ∧
      reader.utf8.needed ≠ 0 ∧ stepOf (reader.settle message used) = .fail .badFramePayload) := by
  have hne : used ≠ 0 := hu.ne'
  by_cases ho : reader.offset < reader.frame.length
  · exact .inl ⟨ho, settle_more ho message hne⟩
  right
  unfold settle
  have hle := Nat.le_of_not_lt ho
  simp only [if_neg ho]
  cases hf : reader.frame.fin with
  | false =>
    left
    simp only [Bool.false_eq_true, not_false_eq_true, reduceIte, stepOf, if_neg hne]
    exact ⟨hle, trivial, rfl⟩
  | true =>
    right
    simp only [not_true_eq_false, reduceIte]
    cases hb : reader.binary with
    | true =>
      left
      simp only [reduceIte, stepOf, if_neg hne, Bool.not_true]
      exact ⟨hle, trivial, .inl trivial, reader.utf8, by rw [← hb]; rfl⟩
    | false =>
      by_cases hn : reader.utf8.needed = 0
      · left
        simp only [Bool.false_eq_true, reduceIte, Utf8Validator.finish, hn, decide_true,
          not_true_eq_false, stepOf, if_neg hne, Bool.not_true]
        exact ⟨hle, trivial, .inr trivial, _, by rw [← hb]; rfl⟩
      · right
        simp only [Bool.false_eq_true, reduceIte, Utf8Validator.finish, hn, decide_false,
          not_false_eq_true, stepOf]
        exact ⟨hle, trivial, trivial, hn, trivial⟩

theorem settle_used (reader : Reader) (message : Bytes) (used used' : ℕ) :
    { reader.settle message used' with used := used } = reader.settle message used := by
  unfold settle
  dsimp only
  repeat' split
  all_goals rfl

theorem settle_size (reader : Reader) (message : Bytes) (used : ℕ) :
    (reader.settle message used).used = used := by
  rw [← settle_used reader message used used]

theorem stepOf_ne_done (put : Put) : stepOf put ≠ .done := by
  unfold stepOf
  repeat' split
  all_goals nofun

theorem stepOf_ne_wait {put : Put} (hu : put.used ≠ 0) : stepOf put ≠ .wait := by
  unfold stepOf
  repeat' split
  all_goals first | contradiction | nofun

/-- A step that takes more bytes is otherwise the same. -/
theorem stepOf_add (put : Put) (hu : put.used ≠ 0) (k : ℕ) :
    stepOf { put with used := k + put.used } =
      match stepOf put with
      | .next s n out => .next s (k + n) out
      | r => r := by
  have hk : k + put.used ≠ 0 := by omega
  simp only [stepOf]
  cases put.code with
  | none =>
    simp only [if_neg hu, if_neg hk]
    rfl
  | some e => rfl

variable {limit}

theorem step_payload {reader : Reader} (h : reader.payload = true) (message data : Bytes) :
    step limit (reader, message) data = stepOf (reader.putPayload limit data message) := by
  simp only [step, turn, h, reduceIte]

/-- The message has room for what is to come of a data payload. -/
theorem Inv.room {reader : Reader} {message : Bytes} (hi : Inv limit (reader, message))
    (h : reader.InData) (data : Bytes) : ¬limit - message.length < reader.payloadSize data := by
  have hfits := hi.fits
  obtain ⟨hlen, -⟩ := hi.unfinished (.inr h)
  obtain ⟨-, hsize⟩ := hi.data h
  simp only at hfits hlen hsize
  unfold payloadSize
  omega

theorem step_data {reader : Reader} {message : Bytes} (hi : Inv limit (reader, message))
    (h : reader.InData) (data : Bytes) : step limit (reader, message) data =
      if data = [] then .wait
      else match reader.accept (reader.unmasked (data.take (reader.payloadSize data))) with
        | none => .fail .badFramePayload
        | some next => stepOf ((next.advance (reader.payloadSize data)).settle
            (message ++ reader.unmasked (data.take (reader.payloadSize data)))
            (reader.payloadSize data)) := by
  have hroom := hi.room h data
  have hdata := (hi.data h).1
  simp only at hdata
  have hsize : min (reader.frame.length - reader.offset) data.length
      = reader.payloadSize data := rfl
  rw [step_payload h.1]
  simp only [putPayload, h.2, Bool.false_eq_true, reduceIte, hsize]
  by_cases hd : data = []
  · have hzero : reader.payloadSize data = 0 := by simp [payloadSize, hd]
    have hmore : reader.offset + 0 < reader.frame.length := by omega
    simp only [if_pos hd, hzero, reduceIte, putData, hmore, stepOf]
  · have hpos := List.length_pos_of_ne_nil hd
    have hne : reader.payloadSize data ≠ 0 := by
      unfold payloadSize
      omega
    simp only [if_neg hd, if_neg hne, if_neg hroom]
    cases hb : reader.binary with
    | true => simp only [accept, hb, reduceIte, unmasked, putData_eq]
    | false =>
      simp only [accept, hb, Bool.false_eq_true, reduceIte, unmasked, putData_eq]
      cases hw : (reader.utf8.write (if reader.frame.masked = true then
          applyMask (data.take (reader.payloadSize data)) reader.frame.key reader.offset
          else data.take (reader.payloadSize data))).1 with
      | true => simp only [not_true_eq_false, reduceIte]
      | false => simp only [Bool.false_eq_true, not_false_eq_true, reduceIte, stepOf]

theorem payloadSize_le (reader : Reader) (data : Bytes) : reader.payloadSize data ≤ data.length :=
  Nat.min_le_right _ _

theorem Inv.payloadSize_pos {reader : Reader} {message : Bytes}
    (hi : Inv limit (reader, message)) (h : reader.InData) {data : Bytes} (hd : data ≠ []) :
    0 < reader.payloadSize data := by
  have hpos := List.length_pos_of_ne_nil hd
  have hdata := (hi.data h).1
  simp only at hdata
  unfold payloadSize
  omega

/-- What is within a frame stays so when more arrives, or all of it was taken. -/
theorem payloadSize_append (reader : Reader) (data x : Bytes) :
    reader.frame.length - reader.offset ≤ data.length ∧
      reader.payloadSize (data ++ x) = reader.payloadSize data ∨
    data.length < reader.frame.length - reader.offset ∧
      reader.payloadSize data = data.length ∧
      reader.payloadSize (data ++ x)
        = data.length + (reader.advance data.length).payloadSize x := by
  unfold payloadSize advance
  rw [List.length_append]
  dsimp only
  omega

/-- A data payload does not wait while there are bytes. -/
theorem step_data_ne_wait {reader : Reader} {message : Bytes}
    (hi : Inv limit (reader, message)) (h : reader.InData) {data : Bytes} (hd : data ≠ []) :
    step limit (reader, message) data ≠ .wait := by
  rw [step_data hi h, if_neg hd]
  cases reader.accept (reader.unmasked (data.take (reader.payloadSize data))) with
  | none => nofun
  | some next => exact stepOf_ne_wait (by rw [settle_size]; exact (hi.payloadSize_pos h hd).ne')

/-! ### Control payload -/

/-- A control frame with its payload: the reader and the event, or the code. -/
def finishControl (reader : Reader) (payload : Bytes) : Except WsError (Reader × Event) :=
  let next := { reader with control := payload, payload := false }
  match reader.frame.code with
  | .ping => .ok (next, .ping payload)
  | .pong => .ok (next, .pong payload)
  | _ =>
    match parseClose payload with
    | .ok _ => .ok (next, .close payload)
    | .error e => .error e

theorem finishControl_eq {reader next : Reader} {payload : Bytes} {event : Event}
    (h : reader.finishControl payload = .ok (next, event)) :
    next = { reader with control := payload, payload := false } := by
  unfold finishControl at h
  repeat' split at h
  all_goals cases h
  all_goals rfl

theorem putControl_used {reader : Reader} {data : Bytes} (message : Bytes)
    (hlen : reader.frame.length ≤ data.length) (ho : reader.offset = 0) :
    (reader.putControl data message).used = reader.frame.length := by
  unfold putControl
  simp only [ho, Nat.sub_zero, if_neg (Nat.not_lt.mpr hlen)]
  repeat' split
  all_goals rfl

theorem stepOf_putControl {reader : Reader} {data : Bytes} (message : Bytes)
    (hlen : reader.frame.length ≤ data.length) (ho : reader.offset = 0) {used : ℕ}
    (hu : used ≠ 0) : stepOf { reader.putControl data message with used := used } =
      match reader.finishControl (reader.unmasked (data.take reader.frame.length)) with
      | .error e => .fail e
      | .ok (next, event) => .next (next, message) used [event] := by
  have hshort : ¬data.length < reader.frame.length := Nat.not_lt.mpr hlen
  unfold putControl finishControl
  simp only [ho, Nat.sub_zero, if_neg hshort, unmasked]
  generalize (if reader.frame.masked = true then
    applyMask (data.take reader.frame.length) reader.frame.key 0
    else data.take reader.frame.length) = payload
  cases hc : reader.frame.code with
  | ping | pong => simp only [stepOf, if_neg hu, Put.taken, Option.toList]
  | close | continuation | text | binary =>
    simp only
    cases parseClose payload with
    | ok _ => simp only [stepOf, if_neg hu, Put.taken, Option.toList]
    | error e => simp only [stepOf]

theorem step_control {reader : Reader} {message : Bytes} (hi : Inv limit (reader, message))
    (h : reader.InControl) (data : Bytes) : step limit (reader, message) data =
      if data.length < reader.frame.length then .wait
      else match reader.finishControl (reader.unmasked (data.take reader.frame.length)) with
        | .error e => .fail e
        | .ok (next, event) => .next (next, message) reader.frame.length [event] := by
  obtain ⟨ho, hpos⟩ := hi.control h
  simp only at ho hpos
  rw [step_payload h.1, putPayload, if_pos h.2]
  by_cases hshort : data.length < reader.frame.length
  · rw [if_pos hshort, putControl, ho, Nat.sub_zero, if_pos hshort]
    rfl
  · have hlen := Nat.le_of_not_lt hshort
    rw [if_neg hshort, ← stepOf_putControl message hlen ho hpos.ne']
    conv => rhs; rw [← putControl_used message hlen ho]

/-! ### Header -/

/-- The reader at the payload of a frame that may follow those before it. -/
def enter (reader : Reader) (frame : FrameHeader) : Except WsError Reader :=
  let next := { reader with frame := frame, offset := 0, payload := true }
  match frame.code with
  | .continuation =>
    if ¬reader.continuing then .error .badContinuation
    else if reader.maximum - min reader.maximum reader.size < frame.length then
      .error .messageTooBig
    else .ok next
  | .text | .binary =>
    if reader.continuing then .error .badDataFrame
    else if reader.maximum < frame.length then .error .messageTooBig
    else .ok { next with binary := decide (frame.code = Opcode.binary), utf8 := {}, size := 0 }
  | _ => .ok { next with control := [] }

/-- The step of a frame whose header is complete. -/
def stepFrame (reader : Reader) (message : Bytes) (size : ℕ) :
    Step (Reader × Bytes) Event WsError :=
  if reader.frame.length ≠ 0 then .next (reader, message) size []
  else if reader.frame.code.isControl then
    match reader.finishControl [] with
    | .error e => .fail e
    | .ok (next, event) => .next (next, message) size [event]
  else stepOf (reader.settle message size)

/-- `put_header` once the header is parsed and the frame may follow. -/
theorem stepOf_enterPayload {reader : Reader} (message : Bytes) {size : ℕ} (hs : size ≠ 0)
    (hfit : reader.frame.code.isControl = true ∨
      ¬reader.maximum - min reader.maximum reader.size < reader.frame.length) :
    stepOf (reader.enterPayload limit size message) =
      stepFrame { reader with offset := 0, payload := true } message size := by
  have hbig : ¬(¬reader.frame.code.isControl = true ∧
      reader.maximum - min reader.maximum reader.size < reader.frame.length) := fun hc =>
    hfit.elim hc.1 fun hn => hn hc.2
  simp only [enterPayload, if_neg hbig, stepFrame]
  by_cases hz : reader.frame.length = 0
  · simp only [hz, reduceIte, ne_eq, not_true_eq_false]
    cases hc : reader.frame.code.isControl with
    | true =>
      simp only [putPayload, hc, reduceIte]
      rw [@stepOf_putControl { reader with offset := 0, payload := true } _ message
        (by simp [hz]) rfl _ hs]
      simp [unmasked, applyMask]
    | false =>
      simp only [putPayload, hc, Bool.false_eq_true, reduceIte, List.length_nil, Nat.min_zero,
        putData_eq]
      rw [settle_used]
      rfl
  · simp only [hz, reduceIte, ne_eq, not_false_eq_true, stepOf, if_neg hs]
    rfl

theorem stepOf_enterPayload_big {reader : Reader} (message : Bytes) (size : ℕ)
    (hc : reader.frame.code.isControl = false)
    (hbig : reader.maximum - min reader.maximum reader.size < reader.frame.length) :
    stepOf (reader.enterPayload limit size message) = .fail .messageTooBig := by
  simp only [enterPayload, hc, Bool.false_eq_true, not_false_eq_true, true_and, if_pos hbig, stepOf]

theorem step_header {reader : Reader} (h : reader.payload = false) (message data : Bytes) :
    step limit (reader, message) data =
      match parseHeader reader.frame data reader.server with
      | (_, .error .needMore) => .wait
      | (_, .error e) => .fail e
      | (frame, .ok size) =>
        match reader.enter frame with
        | .error e => .fail e
        | .ok next => next.stepFrame message size := by
  have hturn : step limit (reader, message) data
      = stepOf (reader.putHeader limit data message) := by
    simp only [step, turn, h, Bool.false_eq_true, reduceIte]
  rw [hturn, putHeader]
  cases hp : parseHeader reader.frame data reader.server with
  | mk frame result =>
    cases result with
    | error e => cases e <;> rfl
    | ok size =>
      have hs : size ≠ 0 := by
        have hsize := (parseHeader_size hp).1
        omega
      cases hc : frame.code with
      | continuation =>
        simp only [enter, hc]
        by_cases hcont : ¬reader.continuing = true
        · simp only [if_pos hcont, stepOf]
        simp only [if_neg hcont]
        by_cases hbig : reader.maximum - min reader.maximum reader.size < frame.length
        · rw [if_pos hbig, stepOf_enterPayload_big message size (by simp only [hc]; rfl) hbig]
        · rw [if_neg hbig, stepOf_enterPayload message hs (.inr hbig)]
      | text | binary =>
        simp only [enter, hc]
        by_cases hcont : reader.continuing = true
        · simp only [if_pos hcont, stepOf]
        simp only [if_neg hcont]
        by_cases hbig : reader.maximum < frame.length
        · rw [if_pos hbig, stepOf_enterPayload_big message size (by simp only [hc]; rfl) (by simpa)]
        · rw [if_neg hbig, stepOf_enterPayload message hs (.inr (by simpa using hbig))]
      | close | ping | pong =>
        simp only [enter, hc]
        rw [stepOf_enterPayload message hs (.inl (by simp only [hc]; rfl))]

/-- A control frame may come at any time, a data frame continues a message or begins one. -/
theorem enter_cases {reader next : Reader} {frame : FrameHeader}
    (h : reader.enter frame = .ok next) :
    (frame.code.isControl = true ∧
      next = { reader with frame := frame, offset := 0, payload := true, control := [] }) ∨
    (frame.code = .continuation ∧ reader.continuing = true ∧
      frame.length ≤ reader.maximum - min reader.maximum reader.size ∧
      next = { reader with frame := frame, offset := 0, payload := true }) ∨
    ((frame.code = .text ∨ frame.code = .binary) ∧ reader.continuing = false ∧
      frame.length ≤ reader.maximum ∧
      next = { reader with
        frame := frame, offset := 0, payload := true, utf8 := {}, size := 0
        binary := decide (frame.code = .binary) }) := by
  unfold enter at h
  cases hc : frame.code with
  | continuation =>
    simp only [hc] at h
    by_cases hcont : reader.continuing = true
    · rw [if_neg (not_not.mpr hcont)] at h
      split at h
      · cases h
      · cases h
        exact .inr (.inl ⟨rfl, hcont, by omega, rfl⟩)
    · rw [if_pos hcont] at h
      cases h
  | text | binary =>
    simp only [hc] at h
    by_cases hcont : reader.continuing = true
    · rw [if_pos hcont] at h
      cases h
    · rw [if_neg hcont] at h
      split at h
      · cases h
      · cases h
        exact .inr (.inr ⟨by simp, by simpa using hcont, by omega, rfl⟩)
  | close | ping | pong =>
    simp only [hc] at h
    cases h
    exact .inl ⟨rfl, rfl⟩

/-! ### The machine is resumable -/

/-- The message buffer of a data frame, of which nothing need be to come. -/
structure Holds (reader : Reader) (message : Bytes) : Prop where
  fits : reader.maximum ≤ limit
  inData : reader.InData
  length : message.length = reader.size
  size : reader.size + (reader.frame.length - reader.offset) ≤ reader.maximum

theorem Holds.settle {reader : Reader} {message : Bytes} (h : @Holds limit reader message)
    {used n : ℕ} (hu : 0 < used) {s : Reader × Bytes} {out : List Event}
    (hs : stepOf (reader.settle message used) = .next s n out) : Inv limit s ∧ n = used := by
  have hsize := h.size
  have hlength := h.length
  have hle : reader.size ≤ reader.maximum := by omega
  obtain ⟨ho, heq⟩ | ⟨ho, -, heq⟩ | ⟨ho, -, -, utf8, heq⟩ | ⟨-, -, -, -, heq⟩ :=
    settle_cases reader message hu
  · rw [heq] at hs
    cases hs
    refine ⟨⟨h.fits, fun _ => ⟨hlength, hle⟩, fun _ hc => absurd h.inData hc,
      fun _ => ⟨ho, hsize⟩, fun hc => ?_⟩, rfl⟩
    rw [InControl, h.inData.2] at hc
    cases hc.2
  · rw [heq] at hs
    cases hs
    exact ⟨⟨h.fits, fun _ => ⟨hlength, hle⟩, nofun,
      fun hc => absurd hc (not_inData rfl), fun hc => absurd hc (not_inControl rfl)⟩, rfl⟩
  · rw [heq] at hs
    cases hs
    refine ⟨⟨h.fits, fun hc => ?_, fun _ _ => rfl, fun hc => absurd hc (not_inData rfl),
      fun hc => absurd hc (not_inControl rfl)⟩, rfl⟩
    rcases hc with hc | hc
    · cases hc
    · exact absurd hc (not_inData rfl)
  · rw [heq] at hs
    cases hs

/-- A control frame leaves the message as it was. -/
theorem Inv.control_done {reader next : Reader} {message : Bytes}
    (hi : Inv limit (reader, message)) (h : ¬reader.InData)
    (hm : next.maximum = reader.maximum) (hc : next.continuing = reader.continuing)
    (hs : next.size = reader.size) (hp : next.payload = false) : Inv limit (next, message) := by
  have hfits := hi.fits
  have hopen := hi.unfinished
  have hclosed := hi.finished
  have hdata := not_inData hp
  have hcontrol := not_inControl hp
  simp only at hfits hopen hclosed
  refine ⟨by simpa only [hm] using hfits, fun hcase => ?_, fun hcase _ => ?_,
    fun hcase => absurd hcase hdata, fun hcase => absurd hcase hcontrol⟩
  · rcases hcase with hcase | hcase
    · simp only [hs, hm]
      exact hopen (.inl (by rw [← hc]; exact hcase))
    · exact absurd hcase hdata
  · exact hclosed (by rw [← hc]; exact hcase) h

theorem payload_cases (reader : Reader) :
    reader.payload = false ∨ reader.InData ∨ reader.InControl := by
  unfold InData InControl
  cases reader.payload <;> cases reader.frame.code.isControl <;> simp

/-- A frame header is taken whole, with an empty payload. -/
theorem Inv.header {reader next : Reader} {message : Bytes} (hi : Inv limit (reader, message))
    (h : reader.payload = false) {frame : FrameHeader} (he : reader.enter frame = .ok next)
    {size n : ℕ} (hsize : 0 < size) {s : Reader × Bytes} {out : List Event}
    (hs : next.stepFrame message size = .next s n out) : Inv limit s ∧ n = size := by
  have hfits := hi.fits
  have hopen := hi.unfinished
  have hclosed := hi.finished
  simp only at hfits hopen hclosed
  have hnot := not_inData h
  obtain ⟨hc, rfl⟩ | hdata := enter_cases he
  · -- a control frame
    simp only [stepFrame, hc, reduceIte] at hs
    split at hs
    · rename_i hlen
      cases hs
      refine ⟨⟨hfits, fun hcase => ?_, fun hcase _ => hclosed hcase hnot, fun hcase => ?_,
        fun _ => ⟨rfl, Nat.pos_of_ne_zero hlen⟩⟩, rfl⟩
      · rcases hcase with hcase | hcase
        · exact hopen (.inl hcase)
        · simp [InData, hc] at hcase
      · simp [InData, hc] at hcase
    · split at hs
      · cases hs
      · rename_i hfinish
        cases hs
        have hnext := finishControl_eq hfinish
        exact ⟨hi.control_done hnot (by rw [hnext]) (by rw [hnext]) (by rw [hnext])
          (by rw [hnext]), rfl⟩
  · -- a data frame
    have hholds : @Holds limit next message := by
      obtain ⟨hc, hcont, hfit, rfl⟩ | ⟨hc, hcont, hfit, rfl⟩ := hdata
      · obtain ⟨hlen, hle⟩ := hopen (.inl hcont)
        refine ⟨hfits, ⟨rfl, ?_⟩, hlen, ?_⟩
        · simp only [hc]
          rfl
        · simp only
          omega
      · refine ⟨hfits, ⟨rfl, ?_⟩, ?_, ?_⟩
        · rcases hc with hc | hc <;> simp only [hc] <;> rfl
        · rw [hclosed hcont hnot]
          rfl
        · simp only
          omega
    have hcode := hholds.inData.2
    simp only [stepFrame, hcode, Bool.false_eq_true, reduceIte] at hs
    split at hs
    · rename_i hlen
      cases hs
      have hoffset : next.offset = 0 := by
        obtain ⟨-, -, -, rfl⟩ | ⟨-, -, -, rfl⟩ := hdata <;> rfl
      have hbound := hholds.size
      have hlength := hholds.length
      refine ⟨⟨hholds.fits, fun _ => ⟨hlength, by simp only; omega⟩,
        fun _ hcase => absurd hholds.inData hcase,
        fun _ => ⟨by simp only; omega, hbound⟩, fun hcase => ?_⟩, rfl⟩
      rw [InControl, hcode] at hcase
      cases hcase.2
    · exact hholds.settle hsize hs

theorem Inv.taken {reader next : Reader} {message : Bytes} (hi : Inv limit (reader, message))
    (h : reader.InData) {data target : Bytes}
    (ha : reader.accept target = some next) (hlen : target.length = reader.payloadSize data) :
    @Holds limit (next.advance (reader.payloadSize data)) (message ++ target) := by
  have hfits := hi.fits
  obtain ⟨hlength, -⟩ := hi.unfinished (.inr h)
  obtain ⟨hoffset, hsize⟩ := hi.data h
  simp only at hfits hlength hoffset hsize
  obtain ⟨utf8, rfl⟩ := accept_eq ha
  refine ⟨hfits, h, ?_, ?_⟩
  · simp only [List.length_append, advance, hlength, hlen]
  · have hle : reader.payloadSize data ≤ reader.frame.length - reader.offset :=
      Nat.min_le_left _ _
    simp only [advance]
    omega

theorem unmasked_length (reader : Reader) (bytes : Bytes) :
    (reader.unmasked bytes).length = bytes.length := by
  unfold unmasked
  split
  · exact applyMask_length _ _ _
  · rfl

theorem step_next {s s' : Reader × Bytes} (hi : Inv limit s) {data : Bytes} {n : ℕ}
    {out : List Event} (h : step limit s data = .next s' n out) :
    0 < n ∧ n ≤ data.length ∧ Inv limit s' := by
  obtain ⟨reader, message⟩ := s
  obtain hp | hp | hp := payload_cases reader
  · rw [step_header hp] at h
    cases hparse : parseHeader reader.frame data reader.server with
    | mk frame result =>
      rw [hparse] at h
      cases result with
      | error e => cases e <;> cases h
      | ok size =>
        obtain ⟨hlow, hhigh⟩ := parseHeader_size hparse
        simp only at h
        cases he : reader.enter frame with
        | error e =>
          rw [he] at h
          cases h
        | ok next =>
          simp only [he] at h
          obtain ⟨hinv, rfl⟩ := hi.header hp he (by omega) h
          exact ⟨by omega, hhigh, hinv⟩
  · rw [step_data hi hp] at h
    split at h
    · cases h
    rename_i hd
    split at h
    · cases h
    · rename_i next ha
      have hpos := hi.payloadSize_pos hp hd
      have htake : (reader.unmasked (data.take (reader.payloadSize data))).length
          = reader.payloadSize data := by
        rw [unmasked_length, List.length_take, min_eq_left (reader.payloadSize_le data)]
      obtain ⟨hinv, rfl⟩ := (hi.taken hp ha htake).settle hpos h
      exact ⟨hpos, reader.payloadSize_le data, hinv⟩
  · rw [step_control hi hp] at h
    split at h
    · cases h
    rename_i hlen
    split at h
    · cases h
    · rename_i hfinish
      cases h
      have hnext := finishControl_eq hfinish
      refine ⟨(hi.control hp).2, Nat.le_of_not_lt hlen, hi.control_done (fun hc => ?_)
        (by rw [hnext]) (by rw [hnext]) (by rw [hnext]) (by rw [hnext])⟩
      rw [InControl, hc.2] at hp
      cases hp.2

/-- Outside of a data payload a step does not depend on the bytes behind it. -/
theorem step_append {s : Reader × Bytes} (hi : Inv limit s) (hnot : ¬s.1.InData) {data : Bytes}
    (h : step limit s data ≠ .wait) (x : Bytes) :
    step limit s (data ++ x) = step limit s data := by
  obtain ⟨reader, message⟩ := s
  obtain hp | hp | hp := payload_cases reader
  · rw [step_header hp] at h
    have hparse : (parseHeader reader.frame data reader.server).2 ≠ .error .needMore := by
      intro hc
      cases hparse : parseHeader reader.frame data reader.server with
      | mk frame result =>
        rw [hparse] at hc h
        simp only at hc
        subst hc
        exact h rfl
    rw [step_header hp, step_header hp, parseHeader_append hparse]
  · exact absurd hp hnot
  · rw [step_control hi hp] at h
    have hlen : ¬data.length < reader.frame.length := fun hc => h (if_pos hc)
    have hlong : ¬(data ++ x).length < reader.frame.length := by
      rw [List.length_append]
      omega
    rw [step_control hi hp, step_control hi hp, if_neg hlen, if_neg hlong,
      List.take_append_of_le_length (Nat.le_of_not_lt hlen)]

/-- A data payload that ends in the bytes is not changed by later ones. -/
theorem step_data_ended {reader : Reader} {message : Bytes} (hi : Inv limit (reader, message))
    (h : reader.InData) {data : Bytes} (hd : data ≠ [])
    (hlen : reader.frame.length - reader.offset ≤ data.length) (x : Bytes) :
    step limit (reader, message) (data ++ x) = step limit (reader, message) data := by
  have hsize : reader.payloadSize (data ++ x) = reader.payloadSize data := by
    unfold payloadSize
    rw [List.length_append]
    omega
  have htake : (data ++ x).take (reader.payloadSize data) = data.take (reader.payloadSize data) :=
    List.take_append_of_le_length (reader.payloadSize_le data)
  rw [step_data hi h, step_data hi h, hsize, htake, if_neg (by simp [hd]), if_neg hd]

/-- The step of a data payload, all of whose bytes are within the frame. -/
theorem step_data_within {reader : Reader} {message : Bytes} (hi : Inv limit (reader, message))
    (h : reader.InData) {data : Bytes} (hd : data ≠ [])
    (hlen : data.length < reader.frame.length - reader.offset) :
    step limit (reader, message) data = match reader.accept (reader.unmasked data) with
      | none => .fail .badFramePayload
      | some next => .next (next.advance data.length, message ++ reader.unmasked data)
          data.length [] := by
  have hsize : reader.payloadSize data = data.length := by
    unfold payloadSize
    omega
  rw [step_data hi h, if_neg hd, hsize, List.take_length]
  cases ha : reader.accept (reader.unmasked data) with
  | none => rfl
  | some next =>
    obtain ⟨utf8, rfl⟩ := accept_eq ha
    have hmore : reader.offset + data.length < reader.frame.length := by omega
    have hpos : data.length ≠ 0 := (List.length_pos_of_ne_nil hd).ne'
    exact settle_more hmore _ hpos

/-- More bytes of a data payload than those taken are taken as one part. -/
theorem step_data_append {reader next : Reader} {message data x : Bytes}
    (hi : Inv limit (reader, message)) (h : reader.InData) (hx : x ≠ [])
    (hlen : data.length < reader.frame.length - reader.offset)
    (ha : reader.accept (reader.unmasked data) = some next)
    (hn : Inv limit (next.advance data.length, message ++ reader.unmasked data)) :
    step limit (reader, message) (data ++ x) =
      match step limit (next.advance data.length, message ++ reader.unmasked data) x with
      | .next s n out => .next s (data.length + n) out
      | r => r := by
  obtain ⟨utf8, hnext⟩ := accept_eq ha
  have hin : (next.advance data.length).InData := by
    rw [hnext]
    exact h
  have hmid : next.advance data.length = { reader.advance data.length with utf8 := utf8 } := by
    rw [hnext]
    rfl
  have hsize : reader.payloadSize (data ++ x)
      = data.length + (next.advance data.length).payloadSize x := by
    rw [hmid]
    unfold payloadSize advance
    rw [List.length_append]
    dsimp only
    omega
  have htake : (data ++ x).take (data.length + (next.advance data.length).payloadSize x)
      = data ++ x.take ((next.advance data.length).payloadSize x) := List.take_length_add_append _
  have hunmask (bytes : Bytes) : (reader.advance data.length).unmasked bytes
      = (next.advance data.length).unmasked bytes := by
    rw [hmid]
    rfl
  rw [step_data hi h, step_data hn hin, if_neg (by simp [hx]), if_neg hx, hsize, htake,
    unmasked_append, accept_append, ha, Option.bind_some, hunmask, accept_advance,
    List.append_assoc]
  set part := (next.advance data.length).unmasked
    (x.take ((next.advance data.length).payloadSize x))
  set size := (next.advance data.length).payloadSize x with hpart
  have hpos : 0 < size := hn.payloadSize_pos hin hx
  cases haccept : next.accept part with
  | none => rfl
  | some last =>
    simp only [Option.map_some, advance_add]
    rw [← settle_used _ _ (data.length + size) size]
    have hused := settle_size (last.advance (data.length + size))
      (message ++ (reader.unmasked data ++ part)) size
    have hadd := stepOf_add _ (by rw [hused]; exact hpos.ne') data.length
    rwa [hused] at hadd

theorem step_resumable : Resumable (Inv limit) (step limit) where
  progress hi h := ⟨(step_next hi h).1, (step_next hi h).2.1⟩
  preserve hi h := (step_next hi h).2.2
  done_append _ h := absurd h (stepOf_ne_done _)
  fail_append {s data e} hi h x := by
    by_cases hin : s.1.InData
    · obtain ⟨reader, message⟩ := s
      have hd : data ≠ [] := by
        rintro rfl
        rw [step_data hi hin, if_pos rfl] at h
        cases h
      by_cases hx : x = []
      · rw [hx, List.append_nil, h]
      by_cases hlen : reader.frame.length - reader.offset ≤ data.length
      · rw [step_data_ended hi hin hd hlen, h]
      · have hwithin := Nat.lt_of_not_le hlen
        rw [step_data_within hi hin hd hwithin] at h
        cases ha : reader.accept (reader.unmasked data) with
        | some next => rw [ha] at h; cases h
        | none =>
          rw [ha] at h
          cases h
          obtain ⟨hlen', -⟩ | ⟨-, -, hsize⟩ := reader.payloadSize_append data x
          · omega
          · rw [step_data hi hin, if_neg (by simp [hx]), hsize, List.take_length_add_append,
              unmasked_append, accept_append, ha]
            rfl
    · rw [step_append hi hin (by rw [h]; exact nofun) x, h]
  next_append {s data s' n out} hi h x := by
    by_cases hin : s.1.InData
    · obtain ⟨reader, message⟩ := s
      have hd : data ≠ [] := by
        rintro rfl
        rw [step_data hi hin, if_pos rfl] at h
        cases h
      by_cases hx : x = []
      · exact .inl (by rw [hx, List.append_nil, h])
      by_cases hlen : reader.frame.length - reader.offset ≤ data.length
      · exact .inl (by rw [step_data_ended hi hin hd hlen, h])
      · have hwithin := Nat.lt_of_not_le hlen
        have hinv := (step_next hi h).2.2
        rw [step_data_within hi hin hd hwithin] at h
        cases ha : reader.accept (reader.unmasked data) with
        | none => rw [ha] at h; cases h
        | some next =>
          rw [ha] at h
          cases h
          refine .inr ⟨rfl, rfl, ?_⟩
          have hboth := step_data_append hi hin hx hwithin ha hinv
          have hin' : (next.advance data.length).InData := by
            obtain ⟨utf8, rfl⟩ := accept_eq ha
            exact hin
          cases hs : step limit (next.advance data.length, message ++ reader.unmasked data) x with
          | wait => exact absurd hs (step_data_ne_wait hinv hin' hx)
          | done => exact absurd hs (stepOf_ne_done _)
          | next s'' m out' => exact .inl ⟨s'', m, out', rfl, by rw [hboth, hs]⟩
          | fail e => exact .inr ⟨e, rfl, by rw [hboth, hs]⟩
    · exact .inl (by rw [step_append hi hin (by rw [h]; exact nofun) x, h])

end Reader
end BitcoinNetwork.Ws
