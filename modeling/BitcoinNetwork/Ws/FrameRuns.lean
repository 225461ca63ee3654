import BitcoinNetwork.Ws.Frames

/-!
# Runs of the reader over whole frames (ws/reader.cpp)

At the end of a frame the reader carries the unfinished message and nothing else
that the next frame could meet. A run over the bytes of a frame, whatever they
are, takes it exactly if it follows those before it, and otherwise fails.
-/

namespace BitcoinNetwork.Ws
open Incremental

/-- The reader and the message buffer hold the message so far. -/
structure Carries (bound : ℕ) (part : Partial) (s : Reader × Bytes) : Prop where
  maximum : s.1.maximum = bound
  message : s.2 = part.bytes
  size : s.1.size = part.bytes.length
  binary : s.1.binary = part.binary
  utf8 : part.binary = false → Utf8Validator.write {} part.bytes = (true, s.1.utf8)

/-- The reader is between two frames, with the message that is to be continued. -/
structure AtFrame (bound : ℕ) (masked : Bool) (part : Option Partial) (s : Reader × Bytes) :
    Prop where
  maximum : s.1.maximum = bound
  server : s.1.server = masked
  payload : s.1.payload = false
  continuing : s.1.continuing = part.isSome
  closed : part = none → s.2 = []
  carries : ∀ before ∈ part, Carries bound before s

open Reader
variable {limit maximum : ℕ} {server : Bool}

/-! ### The payload of a frame -/

theorem Carries.accept {part : Partial} {reader : Reader} {message : Bytes}
    (h : Carries maximum part (reader, message)) (payload : Bytes) :
    (∃ next, reader.accept payload = some next ∧ (part.add payload).Valid ∧
      Carries maximum (part.add payload)
        (next.advance payload.length, message ++ payload)) ∨
    (reader.accept payload = none ∧ ¬(part.add payload).Valid) := by
  have hmax := h.maximum
  have hmessage := h.message
  have hsize := h.size
  have hbinary := h.binary
  simp only at hmax hmessage hsize hbinary
  unfold Partial.add Partial.Valid Reader.accept
  cases hb : part.binary with
  | true =>
    rw [hb] at hbinary
    rw [if_pos hbinary]
    refine .inl ⟨reader, rfl, fun hc => (by cases hc), ⟨hmax, ?_, ?_, hbinary, ?_⟩⟩
    · simp only [hmessage]
    · simp only [advance, hsize, List.length_append]
    · intro hc
      cases hc
  | false =>
    have hwrite := Utf8Validator.write_append {} part.bytes payload
    rw [h.utf8 hb] at hwrite
    simp only [reduceIte] at hwrite
    rw [hb] at hbinary
    rw [if_neg (by rw [hbinary]; exact Bool.false_ne_true), hwrite]
    cases hw : (reader.utf8.write payload).1 with
    | true =>
      refine .inl ⟨_, rfl, fun _ => rfl, ⟨hmax, ?_, ?_, hbinary, fun _ => ?_⟩⟩
      · simp only [hmessage]
      · simp only [advance, hsize, List.length_append]
      · rw [hwrite]
        exact Prod.ext hw rfl
    | false => exact .inr ⟨rfl, fun hc => by simpa using hc rfl⟩

/-- A text is complete if the validator wants no more of a character. -/
theorem Carries.complete_iff {part : Partial} {s : Reader × Bytes} (h : Carries maximum part s) :
    part.Complete ↔ (s.1.binary = true ∨ s.1.utf8.needed = 0) := by
  rw [h.binary]
  unfold Partial.Complete
  cases hb : part.binary with
  | true => simp
  | false =>
    have hvalid := Utf8Validator.accepts_iff part.bytes
    unfold Utf8Validator.Accepts at hvalid
    rw [h.utf8 hb] at hvalid
    simp only [Utf8Validator.finish, true_and, decide_eq_true_eq] at hvalid
    simp only [true_implies, Bool.false_eq_true, false_or, hvalid]

theorem Reader.finishControl_iff (reader : Reader) (payload : Bytes)
    (hc : reader.frame.code.isControl = true) :
    (reader.finishControl payload = .ok ({ reader with control := payload, payload := false },
        controlEvent reader.frame.code payload) ∧
      (reader.frame.code = .close → ValidClose payload)) ∨
    ((∃ e, reader.finishControl payload = .error e) ∧
      reader.frame.code = .close ∧ ¬ValidClose payload) := by
  unfold finishControl
  cases hcode : reader.frame.code with
  | ping | pong => exact .inl ⟨rfl, nofun⟩
  | continuation | text | binary => rw [hcode] at hc; cases hc
  | close =>
    cases hclose : parseClose payload with
    | ok value => exact .inl ⟨rfl, fun _ => (parseClose_iff payload).mp ⟨value, hclose⟩⟩
    | error e =>
      refine .inr ⟨⟨e, rfl⟩, rfl, fun hv => ?_⟩
      obtain ⟨value, hok⟩ := (parseClose_iff payload).mpr hv
      rw [hclose] at hok
      cases hok

/-- The payload of a frame as it was before it was masked. -/
def FrameHeader.payloadOf (frame : FrameHeader) (wire : Bytes) : Bytes :=
  if frame.masked then applyMask wire frame.key 0 else wire

/-- The step that completes a frame: it is taken if it follows, and fails otherwise. -/
def Ends (maximum : ℕ) (server : Bool) (part : Option Partial) (frame : Frame) (used : ℕ)
    (step : Step (Reader × Bytes) Event WsError) : Prop :=
  (∃ part' events s', Follows maximum part frame part' events ∧ step = .next s' used events ∧
    AtFrame maximum server part' s') ∨
  ((∀ part' events, ¬Follows maximum part frame part' events) ∧ ∃ e, step = .fail e)

/-- A data frame is complete. -/
theorem Carries.settle {part : Partial} {reader : Reader} {message : Bytes}
    (h : Carries maximum part (reader, message)) (hserver : reader.server = server)
    (ho : reader.frame.length ≤ reader.offset) {used : ℕ} (hu : 0 < used) :
    (reader.frame.fin = false ∧ ∃ s', stepOf (reader.settle message used) = .next s' used [] ∧
      AtFrame maximum server (some part) s') ∨
    (reader.frame.fin = true ∧ part.Complete ∧
      ∃ s', stepOf (reader.settle message used) = .next s' used [.message part.binary part.bytes] ∧
        AtFrame maximum server none s') ∨
    (reader.frame.fin = true ∧ ¬part.Complete ∧
      stepOf (reader.settle message used) = .fail .badFramePayload) := by
  obtain ⟨hmore, -⟩ | ⟨-, hf, heq⟩ | ⟨-, hf, hdone, utf8, heq⟩ | ⟨-, hf, hb, hn, heq⟩ :=
    settle_cases reader message hu
  · omega
  · refine .inl ⟨hf, _, heq, h.maximum, hserver, rfl, rfl, nofun, ?_⟩
    rintro _ ⟨⟩
    exact ⟨h.maximum, h.message, h.size, h.binary, h.utf8⟩
  · have hbinary := h.binary
    have hmessage := h.message
    simp only at hbinary hmessage
    subst hmessage
    rw [hbinary] at heq
    exact .inr (.inl ⟨hf, h.complete_iff.mpr hdone, _, heq, ⟨h.maximum, hserver, rfl, rfl,
      fun _ => rfl, nofun⟩⟩)
  · refine .inr (.inr ⟨hf, fun hc => ?_, heq⟩)
    rcases h.complete_iff.mp hc with hc | hc
    · exact absurd (hb.symm.trans hc) Bool.false_ne_true
    · exact hn hc

/-- What a data frame adds to the message before it. -/
theorem ends_data {part : Option Partial} {before : Partial} {reader : Reader} {message : Bytes}
    (hbegins : Begins part reader.frame.code before)
    (h : Carries maximum before (reader, message)) (hserver : reader.server = server)
    {payload : Bytes} (hlen : payload.length = reader.frame.length)
    (hfit : before.bytes.length + payload.length ≤ maximum) (ho : reader.offset = 0) {used : ℕ}
    (hu : 0 < used) :
    Ends maximum server part ⟨reader.frame.code, reader.frame.fin, payload⟩ used
      (match reader.accept payload with
        | none => .fail .badFramePayload
        | some next => stepOf ((next.advance payload.length).settle (message ++ payload) used)) := by
  obtain ⟨next, ha, hvalid, hcarries⟩ | ⟨ha, hvalid⟩ := h.accept payload
  · obtain ⟨utf8, rfl⟩ := accept_eq ha
    simp only [ha]
    obtain ⟨hf, s', heq, hat⟩ | ⟨hf, hdone, s', heq, hat⟩ | ⟨hf, hdone, heq⟩ :=
      hcarries.settle hserver (by simp only [advance]; omega) hu
    · exact .inl ⟨_, _, s', .part hbegins hf hfit hvalid, heq, hat⟩
    · exact .inl ⟨_, _, s', .last hbegins hf hfit hdone, heq, hat⟩
    · refine .inr ⟨fun part' events hc => ?_, _, heq⟩
      have hf : reader.frame.fin = true := hf
      cases hc with
      | control code => exact absurd (hbegins.isControl.symm.trans code) Bool.false_ne_true
      | part _ fin => exact absurd (fin.symm.trans hf) Bool.false_ne_true
      | last hb _ _ complete => exact hdone (hbegins.det hb ▸ complete)
  · simp only [ha]
    refine .inr ⟨fun part' events hc => ?_, _, rfl⟩
    cases hc with
    | control code => exact absurd (hbegins.isControl.symm.trans code) Bool.false_ne_true
    | part hb _ _ valid => exact hvalid (hbegins.det hb ▸ valid)
    | last hb _ _ complete => exact hvalid (hbegins.det hb ▸ complete.valid)

/-- A control frame leaves what is unfinished as it was. -/
theorem ends_control {part : Option Partial} {reader : Reader} {message : Bytes}
    (hc : reader.frame.code.isControl = true) {payload : Bytes} (hfin : reader.frame.fin = true)
    (hsize : payload.length ≤ maximumControl)
    (h : AtFrame maximum server part ({ reader with payload := false }, message)) (used : ℕ) :
    Ends maximum server part ⟨reader.frame.code, reader.frame.fin, payload⟩ used
      (match reader.finishControl payload with
        | .error e => .fail e
        | .ok (next, event) => .next (next, message) used [event]) := by
  obtain ⟨heq, hvalid⟩ | ⟨⟨e, heq⟩, hclose, hvalid⟩ := reader.finishControl_iff payload hc
  · simp only [heq]
    refine .inl ⟨_, _, _, .control hc hfin hsize hvalid, rfl, h.maximum, h.server, rfl,
      h.continuing, h.closed, fun before hb => ?_⟩
    have hcarries := h.carries before hb
    exact ⟨hcarries.maximum, hcarries.message, hcarries.size, hcarries.binary, hcarries.utf8⟩
  · simp only [heq]
    refine .inr ⟨fun part' events hf => ?_, e, rfl⟩
    cases hf with
    | control _ _ _ valid => exact hvalid (valid hclose)
    | part hb => exact absurd (hb.isControl.symm.trans hc) Bool.false_ne_true
    | last hb => exact absurd (hb.isControl.symm.trans hc) Bool.false_ne_true

/-! ### The header of a frame -/

/-- A frame that is not control is entered if it continues or begins a message that it
does not take over the maximum. -/
theorem enter_data {part : Option Partial} {reader : Reader} {message : Bytes}
    (hi : Inv limit (reader, message)) (h : AtFrame maximum server part (reader, message))
    {frame : FrameHeader} (hc : frame.code.isControl = false) :
    (∃ before next, reader.enter frame = .ok next ∧ Begins part frame.code before ∧
      before.bytes.length + frame.length ≤ maximum ∧ Carries maximum before (next, message) ∧
      next.frame = frame ∧ next.offset = 0 ∧ next.payload = true ∧ next.server = server) ∨
    ((∃ e, reader.enter frame = .error e) ∧ ∀ before, Begins part frame.code before →
      maximum < before.bytes.length + frame.length) := by
  have hmax := h.maximum
  have hcontinuing := h.continuing
  have hclosed := h.closed
  have hserver := h.server
  simp only at hmax hcontinuing hclosed hserver
  unfold enter
  cases hcode : frame.code with
  | close | ping | pong => rw [hcode] at hc; cases hc
  | continuation =>
    cases part with
    | none =>
      rw [Option.isSome_none] at hcontinuing
      simp only [hcontinuing, Bool.false_eq_true, not_false_eq_true, reduceIte]
      exact .inr ⟨⟨_, rfl⟩, nofun⟩
    | some before =>
      rw [Option.isSome_some] at hcontinuing
      have hcarries := h.carries before rfl
      have hsize := hcarries.size
      obtain ⟨-, hle⟩ := hi.unfinished (.inl hcontinuing)
      simp only at hsize hle
      simp only [hcontinuing, not_true_eq_false, reduceIte]
      by_cases hbig : reader.maximum - min reader.maximum reader.size < frame.length
      · rw [if_pos hbig]
        refine .inr ⟨⟨_, rfl⟩, fun other hb => ?_⟩
        cases hb
        omega
      · rw [if_neg hbig]
        refine .inl ⟨before, _, rfl, .continuation before, by omega, ?_, rfl, rfl, rfl, hserver⟩
        exact ⟨hmax, hcarries.message, hsize, hcarries.binary, hcarries.utf8⟩
  | text | binary =>
    cases part with
    | some before =>
      rw [Option.isSome_some] at hcontinuing
      simp only [hcontinuing, reduceIte]
      exact .inr ⟨⟨_, rfl⟩, nofun⟩
    | none =>
      rw [Option.isSome_none] at hcontinuing
      simp only [hcontinuing, Bool.false_eq_true, reduceIte]
      by_cases hbig : reader.maximum < frame.length
      · rw [if_pos hbig]
        refine .inr ⟨⟨_, rfl⟩, fun other hb => ?_⟩
        cases hb
        exact (hmax ▸ hbig).trans_le (Nat.le_add_left _ _)
      · rw [if_neg hbig]
        refine .inl ⟨_, _, rfl, by constructor, ?_, ?_, rfl, rfl, rfl, hserver⟩
        · simp only [List.length_nil]
          omega
        · exact ⟨hmax, hclosed rfl, rfl, by simp, fun _ => rfl⟩

theorem enter_control {reader : Reader} {frame : FrameHeader} (hc : frame.code.isControl = true) :
    reader.enter frame
      = .ok { reader with frame := frame, offset := 0, payload := true, control := [] } := by
  unfold enter
  cases hcode : frame.code with
  | close | ping | pong => rfl
  | continuation | text | binary => rw [hcode] at hc; cases hc

/-! ### A frame -/

/-- A frame is taken whole, or the run fails within it. -/
def Takes (limit maximum : ℕ) (server : Bool) (part : Option Partial) (frame : Frame)
    (s : Reader × Bytes) (data rest : Bytes) : Prop :=
  (∃ part' events s', Follows maximum part frame part' events ∧
    Reaches (step limit) s data events s' rest ∧ AtFrame maximum server part' s') ∨
  ((∀ part' events, ¬Follows maximum part frame part' events) ∧
    ∃ e, Runs (step limit) s data [] (.failed e))

theorem Ends.takes {part : Option Partial} {frame : Frame} {used : ℕ} {s : Reader × Bytes}
    {data : Bytes} (h : Ends maximum server part frame used (step limit s data)) :
    Takes limit maximum server part frame s data (data.drop used) := by
  obtain ⟨part', events, s', hf, heq, hat⟩ | ⟨hf, e, heq⟩ := h
  · exact .inl ⟨part', events, s', hf, .single heq, hat⟩
  · exact .inr ⟨hf, e, .fail heq⟩

/-- The step of a header is in front of the frame. -/
theorem Takes.after {part : Option Partial} {frame : Frame} {size : ℕ} {s s' : Reader × Bytes}
    {data rest : Bytes} (hs : step limit s data = .next s' size [])
    (h : Takes limit maximum server part frame s' (data.drop size) rest) :
    Takes limit maximum server part frame s data rest := by
  obtain ⟨part', events, s'', hf, hreach, hat⟩ | ⟨hf, e, hrun⟩ := h
  · exact .inl ⟨part', events, s'', hf, .next hs hreach, hat⟩
  · exact .inr ⟨hf, e, .next hs hrun⟩

/-- The bytes of a frame are taken whole, or not at all. -/
theorem takes_frame {part : Option Partial} {s : Reader × Bytes} (hi : Inv limit s)
    (h : AtFrame maximum server part s) {data : Bytes} {frame : FrameHeader} {size : ℕ}
    (hparse : parseHeader s.1.frame data server = (frame, .ok size))
    (hlen : size + frame.length ≤ data.length) :
    Takes limit maximum server part
      ⟨frame.code, frame.fin, frame.payloadOf ((data.drop size).take frame.length)⟩ s data
      (data.drop (size + frame.length)) := by
  obtain ⟨reader, message⟩ := s
  obtain ⟨-, hsend, -, -⟩ := parseHeader_ok hparse
  have hsize : 0 < size := by
    have hlow := (parseHeader_size hparse).1
    omega
  have hhead := @step_header limit _ h.payload message data
  have hs := h.server
  simp only at hs hparse
  rw [hs, hparse] at hhead
  simp only at hhead
  set wire := (data.drop size).take frame.length with hwire
  have hwirelen : wire.length = frame.length := by
    rw [hwire, List.length_take, List.length_drop]
    omega
  have hpayload : (frame.payloadOf wire).length = frame.length := by
    rw [← hwirelen]
    exact unmasked_length { reader with frame := frame, offset := 0 } wire
  rw [← List.drop_drop]
  cases hc : frame.code.isControl with
  | true =>
    obtain ⟨hfin, hmax⟩ := hsend hc
    rw [enter_control hc] at hhead
    set next : Reader := { reader with frame := frame, offset := 0, payload := true, control := [] }
    have hat : AtFrame maximum server part ({ next with payload := false }, message) :=
      ⟨h.maximum, h.server, rfl, h.continuing, h.closed, fun before hb =>
        have hcarries := h.carries before hb
        ⟨hcarries.maximum, hcarries.message, hcarries.size, hcarries.binary, hcarries.utf8⟩⟩
    have hends := @ends_control _ _ _ next _ hc _ hfin (hpayload.trans_le hmax) hat
    by_cases hz : frame.length = 0
    · have hempty : frame.payloadOf wire = [] := List.eq_nil_of_length_eq_zero (hpayload.trans hz)
      have hstep := hends size
      rw [hempty] at hstep
      simp only [stepFrame, hz, ne_eq, not_true_eq_false, reduceIte, hc, next] at hhead
      rw [hz, List.drop_zero, hempty]
      exact Ends.takes (hhead ▸ hstep)
    · simp only [stepFrame, ne_eq, hz, not_false_eq_true, reduceIte, next] at hhead
      refine Takes.after hhead (Ends.takes ?_)
      have hinv := (step_next hi hhead).2.2
      rw [step_control hinv ⟨rfl, hc⟩, if_neg (by rw [List.length_drop]; simp only; omega)]
      exact hends frame.length
  | false =>
    obtain ⟨before, next, he, hbegins, hfit, hcarries, hframe, hoffset, hp, hs⟩ | ⟨⟨e, he⟩, hbig⟩ :=
      enter_data hi h hc
    · rw [he] at hhead
      subst hframe
      have hends {used : ℕ} (hu : 0 < used) := ends_data hbegins hcarries hs hpayload
        (hpayload ▸ hfit) hoffset hu
      by_cases hz : next.frame.length = 0
      · have hempty : next.frame.payloadOf wire = [] :=
          List.eq_nil_of_length_eq_zero (hpayload.trans hz)
        have hstep := hends hsize
        have haccept : next.accept [] = some next := by
          unfold accept
          split <;> rfl
        rw [hempty, haccept] at hstep
        simp only [stepFrame, hz, ne_eq, not_true_eq_false, reduceIte, hc,
          Bool.false_eq_true] at hhead
        rw [hz, List.drop_zero, hempty]
        refine Ends.takes ?_
        rw [hhead]
        simpa only [List.length_nil, advance, Nat.add_zero, List.append_nil] using hstep
      · simp only [stepFrame, ne_eq, hz, not_false_eq_true, reduceIte] at hhead
        refine Takes.after hhead (Ends.takes ?_)
        have hinv := (step_next hi hhead).2.2
        have hmore : (data.drop size) ≠ [] := fun hn => by
          rw [hwire, hn, List.take_nil, List.length_nil] at hwirelen
          exact hz hwirelen.symm
        have htake : next.payloadSize (data.drop size) = next.frame.length := by
          unfold payloadSize
          rw [List.length_drop]
          omega
        have hunmask : next.unmasked wire = next.frame.payloadOf wire := by
          rw [unmasked, hoffset]
          rfl
        rw [step_data hinv ⟨hp, hc⟩, if_neg hmore, htake, ← hwire, hunmask]
        have hstep := @hends next.frame.length (Nat.pos_of_ne_zero hz)
        rwa [hpayload] at hstep
    · rw [he] at hhead
      refine .inr ⟨fun part' events hf => ?_, e, .fail hhead⟩
      cases hf with
      | control code => exact absurd (hc.symm.trans code) Bool.false_ne_true
      | part hb _ fits =>
        have hover := hbig _ hb
        rw [hpayload] at fits
        omega
      | last hb _ fits =>
        have hover := hbig _ hb
        rw [hpayload] at fits
        omega

/-! ### Sequences of frames -/

theorem payloadOf_applyMask {frame : FrameHeader} {key : Mask} (payload : Bytes)
    (h : frame.masked = true) (hkey : frame.key = key) :
    frame.payloadOf (applyMask payload key 0) = payload := by
  rw [FrameHeader.payloadOf, if_pos h, hkey, applyMask_applyMask]

/-- The encoding of a frame is taken as that frame. -/
theorem takes_encode {part : Option Partial} {s : Reader × Bytes} (hi : Inv limit s)
    (h : AtFrame maximum server part s) {frame : Frame} {key : Option Mask}
    (hkey : key.isSome = server) (hsend : Sendable frame.code frame.fin frame.payload.length)
    (hsize : frame.payload.length < 2 ^ 63) (bytes : Bytes) :
    Takes limit maximum server part frame s (frame.encode key ++ bytes) bytes := by
  set header := serializeHeader frame.code frame.fin frame.payload.length key with hheader
  have hparse := parseHeader_serializeHeader s.1.frame hsend hsize key
  subst hkey
  cases key with
  | none =>
    have hdata : frame.encode none ++ bytes = header ++ (frame.payload ++ bytes) := by
      rw [Frame.encode, List.append_assoc]
    have htakes := takes_frame hi h (hparse (frame.payload ++ bytes))
      (by simp only [List.length_append]; omega)
    rw [← List.drop_drop, ← hheader, List.drop_left, List.drop_left, List.take_left] at htakes
    rw [hdata]
    exact htakes
  | some key =>
    have hlen : (applyMask frame.payload key 0).length = frame.payload.length :=
      applyMask_length _ _ _
    have hdata : frame.encode (some key) ++ bytes
        = header ++ (applyMask frame.payload key 0 ++ bytes) := by
      rw [Frame.encode, List.append_assoc]
    have htakes := takes_frame hi h (hparse (applyMask frame.payload key 0 ++ bytes))
      (by simp only [List.length_append, hlen]; omega)
    rw [← List.drop_drop, ← hheader, List.drop_left, ← hlen, List.drop_left, List.take_left,
      hlen, @payloadOf_applyMask _ key _ rfl rfl] at htakes
    rw [hdata]
    exact htakes

theorem Follows.sendable {part part' : Option Partial} {frame : Frame} {events : List Event}
    (h : Follows maximum part frame part' events) :
    Sendable frame.code frame.fin frame.payload.length := by
  intro hc
  cases h with
  | control _ fin size => exact ⟨fin, size⟩
  | part hb => exact absurd (hb.isControl.symm.trans hc) Bool.false_ne_true
  | last hb => exact absurd (hb.isControl.symm.trans hc) Bool.false_ne_true

/-- Frames that follow each other are taken, with their events. -/
theorem reaches_frames {part part' : Option Partial} {frames : List Frame} {events : List Event}
    (hf : FollowAll maximum part frames part' events) {bytes : Bytes}
    (hb : Encodes server frames bytes) {s : Reader × Bytes} (hi : Inv limit s)
    (h : AtFrame maximum server part s) :
    ∃ s', Reaches (step limit) s bytes events s' [] ∧ AtFrame maximum server part' s' := by
  induction hf generalizing bytes s with
  | nil =>
    cases hb
    exact ⟨s, .refl, h⟩
  | cons head _ ih =>
    cases hb with
    | @cons _ _ rest _ keyed size tail =>
      obtain ⟨mid, o, s', hfollows, hreach, hat⟩ | ⟨hn, -⟩ :=
        takes_encode hi h keyed head.sendable size rest
      · obtain ⟨rfl, rfl⟩ := head.det hfollows
        have hinv := hreach.keeps (fun hp hstep => (step_next hp hstep).2.2) hi
        obtain ⟨s'', hrest, hlast⟩ := ih tail hinv hat
        exact ⟨s'', hreach.trans hrest, hlast⟩
      · exact absurd head (hn _ _)

/-- The bytes of a frame that is taken encode it. -/
theorem encode_of_parse {out frame : FrameHeader} {data : Bytes} {size : ℕ}
    (h : parseHeader out data server = (frame, .ok size))
    (hlen : size + frame.length ≤ data.length) {payload : Bytes}
    (hp : payload = frame.payloadOf ((data.drop size).take frame.length)) :
    payload.length < 2 ^ 63 ∧ ∃ key : Option Mask, key.isSome = server ∧
      data = Frame.encode ⟨frame.code, frame.fin, payload⟩ key
        ++ data.drop (size + frame.length) := by
  obtain ⟨hmasked, -, hshort, key, hkey, hsome, hdata, -⟩ := parseHeader_ok h
  set wire := (data.drop size).take frame.length with hwire
  have hwirelen : wire.length = frame.length := by
    rw [hwire, List.length_take, List.length_drop]
    omega
  have hpayload : payload.length = frame.length := by
    rw [hp, ← hwirelen]
    exact unmasked_length { maximum := 0, server := server, frame := frame } wire
  refine ⟨hpayload ▸ hshort, key, hkey, ?_⟩
  have hsplit : data.drop size = wire ++ data.drop (size + frame.length) := by
    rw [hwire, ← List.drop_drop, List.take_append_drop]
  conv => lhs; rw [hdata, hsplit]
  rw [Frame.encode.eq_def, ← List.append_assoc]
  simp only [hpayload]
  congr 2
  cases hserver : server with
  | true =>
    rw [hserver] at hmasked
    simp only [hsome hserver, hp, FrameHeader.payloadOf, hmasked, reduceIte, applyMask_applyMask]
  | false =>
    rw [hserver] at hmasked hkey
    rw [Option.isSome_eq_false_iff, Option.isNone_iff_eq_none] at hkey
    simp only [hkey, hp, FrameHeader.payloadOf, hmasked, Bool.false_eq_true, reduceIte]

/-- A frame of which not all bytes arrived leaves the reader in its payload. -/
theorem runs_short {part : Option Partial} {s s' : Reader × Bytes} (hi : Inv limit s)
    (h : AtFrame maximum server part s) {data rest : Bytes} {frame : FrameHeader} {size : ℕ}
    (hparse : parseHeader s.1.frame data server = (frame, .ok size))
    (hlen : data.length < size + frame.length) {events : List Event}
    (hr : Runs (step limit) s data events (.waiting s' rest)) : s'.1.payload = true := by
  obtain ⟨reader, message⟩ := s
  have hhead := @step_header limit _ h.payload message data
  have hserver := h.server
  simp only at hserver hparse
  rw [hserver, hparse] at hhead
  simp only at hhead
  have hsize := (parseHeader_size hparse).2
  cases he : reader.enter frame with
  | error e =>
    rw [he] at hhead
    cases (hr.det (.fail hhead)).2
  | ok next =>
    have hnext : next.frame = frame ∧ next.offset = 0 ∧ next.payload = true := by
      obtain ⟨-, rfl⟩ | ⟨-, -, -, rfl⟩ | ⟨-, -, -, rfl⟩ := enter_cases he <;>
        exact ⟨rfl, rfl, rfl⟩
    obtain ⟨hframe, hoffset, hp⟩ := hnext
    have hz : next.frame.length ≠ 0 := by
      rw [hframe]
      omega
    simp only [he, stepFrame, if_pos hz] at hhead
    have hinv := (step_next hi hhead).2.2
    obtain ⟨o, rfl, htail⟩ := (Reaches.single hhead).split hr
    have hdrop : (data.drop size).length < next.frame.length - next.offset := by
      rw [List.length_drop, hframe, hoffset]
      omega
    obtain hcase | hcase | hcase := payload_cases next
    · exact absurd (hp.symm.trans hcase) Bool.false_ne_true.symm
    · by_cases hd : data.drop size = []
      · have hwait : step limit (next, message) (data.drop size) = .wait := by
          rw [step_data hinv hcase, if_pos hd]
        cases (htail.det (.wait hwait)).2
        exact hp
      · have hstep := step_data_within hinv hcase hd hdrop
        cases ha : next.accept (next.unmasked (data.drop size)) with
        | none =>
          rw [ha] at hstep
          cases (htail.det (.fail hstep)).2
        | some last =>
          rw [ha] at hstep
          simp only at hstep
          obtain ⟨utf8, rfl⟩ := accept_eq ha
          have hlast := (step_next hinv hstep).2.2
          obtain ⟨o, rfl, hrest⟩ := (Reaches.single hstep).split htail
          have hwait := step_data hlast hcase ((data.drop size).drop (data.drop size).length)
          rw [if_pos List.drop_length] at hwait
          cases (hrest.det (.wait hwait)).2
          exact hp
    · have hwait := step_control hinv hcase (data.drop size)
      rw [if_pos (hdrop.trans_le (Nat.sub_le _ _))] at hwait
      cases (htail.det (.wait hwait)).2
      exact hp

/-- A run that ends between two frames has taken frames that follow each other. -/
theorem frames_of_runs {part : Option Partial} {s s' : Reader × Bytes} (hi : Inv limit s)
    (h : AtFrame maximum server part s) {data : Bytes} {events : List Event}
    (hr : Runs (step limit) s data events (.waiting s' [])) (hs' : s'.1.payload = false) :
    ∃ frames part', Encodes server frames data ∧ FollowAll maximum part frames part' events ∧
      AtFrame maximum server part' s' := by
  induction hn : data.length using Nat.strongRecOn generalizing part s data events with
  | _ n ih =>
    cases hparse : parseHeader s.1.frame data server with
    | mk frame result =>
      have hhead := @step_header limit _ h.payload s.2 data
      rw [h.server, hparse] at hhead
      cases result with
      | error e =>
        cases hr with
        | wait hw => exact ⟨[], part, .nil, .nil, h⟩
        | next hs tail => cases e <;> rw [hhead] at hs <;> cases hs
      | ok size =>
        by_cases hlen : data.length < size + frame.length
        · rw [runs_short hi h hparse hlen hr] at hs'
          cases hs'
        · have hlen := Nat.le_of_not_lt hlen
          obtain ⟨hshort, key, hkey, hdata⟩ := @encode_of_parse server _ _ _ _ hparse hlen _ rfl
          have hpos := (parseHeader_size hparse).1
          obtain ⟨mid, o, q, hf, hreach, hat⟩ | ⟨-, e, hfail⟩ := takes_frame hi h hparse hlen
          · obtain ⟨o', rfl, htail⟩ := hreach.split hr
            have hinv := hreach.keeps (fun hp hstep => (step_next hp hstep).2.2) hi
            obtain ⟨frames, part', hb, hall, hlast⟩ :=
              ih _ (by rw [List.length_drop]; omega) hinv hat htail rfl
            have hcons := @Encodes.cons _ ⟨frame.code, frame.fin,
              frame.payloadOf ((data.drop size).take frame.length)⟩ _ _ _ hkey hshort hb
            rw [← hdata] at hcons
            exact ⟨_, part', hcons, .cons hf hall, hlast⟩
          · have hdet := hr.det hfail
            cases hdet.2

end BitcoinNetwork.Ws
