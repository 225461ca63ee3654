import BitcoinNetwork.Ws.Frames
import BitcoinNetwork.Ws.Socket
import Mathlib.Logic.Relation

/-!
# What a call does to an upgraded socket (net/socket_ws.cpp, ws/reader.cpp)

A put leaves a control payload that may be sent. What a call does is said once, as moves of
the socket (`Move`), also where it reads and so answers pings and closes.
-/

namespace BitcoinNetwork.Ws
open Async Net

/-! ### What the reader leaves -/

namespace Reader

/-- In a payload there are bytes to come, of a control frame no more than the maximum. -/
structure Sound (reader : Reader) : Prop where
  rest : reader.payload = true → reader.offset < reader.frame.length
  control : reader.payload = true → reader.frame.code.isControl = true →
    reader.frame.length ≤ maximumControl

theorem Sound.of_not {reader : Reader} (h : reader.payload = false) : reader.Sound :=
  ⟨fun hp => absurd (h.symm.trans hp) Bool.false_ne_true,
    fun hp => absurd (h.symm.trans hp) Bool.false_ne_true⟩

end Reader

/-- A put takes no more than there is, and its control payload is one that may be sent. -/
structure Put.Sound (size : ℕ) (put : Put) : Prop where
  reader : put.reader.Sound
  used : put.used ≤ size
  control : put.event ≠ .none → put.event ≠ .message →
    put.reader.control.length ≤ maximumControl
  close : put.event = .close → ValidClose put.reader.control

/-- A put that comes to an event has taken something. -/
def Put.Prompt (put : Put) : Prop := put.code = none → put.event ≠ .none → 0 < put.used

namespace Reader
variable {reader : Reader} {limit : ℕ} {data message : Bytes}

theorem putControl_sound (hoffset : reader.offset ≤ reader.frame.length)
    (hmax : reader.frame.length ≤ maximumControl) :
    ((reader.putControl data message).Sound data.length ∧
      (reader.putControl data message).used = reader.frame.length - reader.offset) ∨
      data.length < reader.frame.length - reader.offset ∧
        reader.putControl data message = { reader, message } := by
  unfold putControl
  by_cases hlen : data.length < reader.frame.length - reader.offset
  · exact .inr ⟨hlen, by simp only [if_pos hlen]⟩
  left
  have hused : reader.frame.length - reader.offset ≤ data.length := Nat.le_of_not_lt hlen
  simp only [if_neg hlen]
  set payload := if reader.frame.masked then
      applyMask (data.take (reader.frame.length - reader.offset)) reader.frame.key 0
    else data.take (reader.frame.length - reader.offset)
  have hpayload : payload.length ≤ maximumControl := by
    have htake : payload.length = (data.take (reader.frame.length - reader.offset)).length := by
      simp only [payload]
      split
      · exact applyMask_length _ _ _
      · rfl
    rw [htake, List.length_take]
    omega
  cases hcode : reader.frame.code with
  | ping | pong => exact ⟨⟨.of_not rfl, hused, fun _ _ => hpayload, nofun⟩, rfl⟩
  | continuation | text | binary | close =>
    dsimp only
    cases hclose : parseClose payload with
    | ok value =>
      exact ⟨⟨.of_not rfl, hused, fun _ _ => hpayload,
        fun _ => (parseClose_iff payload).mp ⟨value, hclose⟩⟩, rfl⟩
    | error e => exact ⟨⟨.of_not rfl, hused, fun _ _ => hpayload, nofun⟩, rfl⟩

theorem putData_sound {size : ℕ} (hcode : reader.frame.code.isControl = false)
    (hsize : size ≤ data.length) : (reader.putData size message).Sound data.length ∧
      ((reader.putData size message).event ≠ .none →
        reader.frame.length ≤ reader.offset + size ∧ (reader.putData size message).used = size) := by
  unfold putData
  by_cases hmore : reader.offset + size < reader.frame.length
  · simp only [if_pos hmore]
    exact ⟨⟨⟨fun _ => hmore, fun _ hc => absurd (hcode.symm.trans hc) Bool.false_ne_true⟩,
      hsize, nofun, nofun⟩, fun hne => absurd rfl hne⟩
  have hfull : reader.frame.length ≤ reader.offset + size := Nat.le_of_not_lt hmore
  simp only [if_neg hmore]
  cases hfin : reader.frame.fin with
  | false =>
    simp only [Bool.false_eq_true, not_false_eq_true, reduceIte]
    exact ⟨⟨.of_not rfl, hsize, nofun, nofun⟩, fun hne => absurd rfl hne⟩
  | true =>
    simp only [not_true_eq_false, reduceIte]
    cases reader.binary with
    | true => exact ⟨⟨.of_not rfl, hsize, fun _ hne => absurd rfl hne, nofun⟩, fun _ => ⟨hfull, rfl⟩⟩
    | false =>
      simp only [Bool.false_eq_true, reduceIte]
      cases reader.utf8.finish.1 with
      | true =>
        exact ⟨⟨.of_not rfl, hsize, fun _ hne => absurd rfl hne, nofun⟩, fun _ => ⟨hfull, rfl⟩⟩
      | false => exact ⟨⟨.of_not rfl, hsize, nofun, nofun⟩, fun hne => absurd rfl hne⟩

theorem put_unchanged_sound (h : reader.Sound) (code : Option WsError) :
    Put.Sound data.length { reader := reader, message := message, code := code } :=
  ⟨h, Nat.zero_le _, nofun, nofun⟩

/-- A payload of which there are bytes to come. -/
theorem putPayload_sound (h : reader.Sound) (hp : reader.payload = true) :
    (reader.putPayload limit data message).Sound data.length ∧
      (reader.putPayload limit data message).Prompt := by
  have hrest := h.rest hp
  unfold putPayload
  cases hcode : reader.frame.code.isControl with
  | true =>
    rw [if_pos rfl]
    obtain ⟨hs, hused⟩ | ⟨-, heq⟩ := @putControl_sound _ data message hrest.le (h.control hp hcode)
    · refine ⟨hs, fun _ _ => ?_⟩
      rw [hused]
      omega
    · rw [heq]
      exact ⟨put_unchanged_sound h none, fun _ hne => absurd rfl hne⟩
  | false =>
    have hle : min (reader.frame.length - reader.offset) data.length ≤ data.length :=
      Nat.min_le_right _ _
    simp only [Bool.false_eq_true, reduceIte]
    split
    · next hzero =>
      obtain ⟨hs, hevent⟩ := @putData_sound reader data message _ hcode hle
      refine ⟨hs, fun _ hne => ?_⟩
      have hfull := (hevent hne).1
      omega
    · next hpos =>
      generalize (ite (reader.frame.masked = true) _ _ : Bytes) = target
      have hput {next : Reader} (hframe : next.frame = reader.frame)
          (hoffset : next.offset = reader.offset) :
          (next.putData (min (reader.frame.length - reader.offset) data.length)
            (message ++ target)).Sound data.length ∧
          (next.putData (min (reader.frame.length - reader.offset) data.length)
            (message ++ target)).Prompt := by
        obtain ⟨hs, hevent⟩ := @putData_sound next data (message ++ target) _ (hframe ▸ hcode) hle
        refine ⟨hs, fun _ hne => ?_⟩
        rw [(hevent hne).2]
        exact Nat.pos_of_ne_zero hpos
      split
      · exact ⟨put_unchanged_sound h _, nofun⟩
      cases reader.binary with
      | true => exact hput rfl rfl
      | false =>
        simp only [Bool.false_eq_true, reduceIte]
        cases (reader.utf8.write target).1 with
        | true => exact hput rfl rfl
        | false =>
          simp only [Bool.false_eq_true, not_false_eq_true, reduceIte]
          refine ⟨put_unchanged_sound ?_ _, nofun⟩
          exact ⟨h.rest, h.control⟩

/-- The payload behind a header that was parsed. -/
theorem enterPayload_sound {size : ℕ} (hp : reader.payload = false) (hsize : 0 < size)
    (hle : size ≤ data.length)
    (hmax : reader.frame.code.isControl = true → reader.frame.length ≤ maximumControl) :
    (reader.enterPayload limit size message).Sound data.length ∧
      (reader.enterPayload limit size message).Prompt := by
  unfold enterPayload
  split
  · exact ⟨put_unchanged_sound (.of_not hp) _, nofun⟩
  dsimp only
  split
  · next hzero =>
    refine ⟨?_, fun _ _ => hsize⟩
    have hput : (({ reader with offset := 0, payload := true } : Reader).putPayload limit []
        message).Sound 0 := by
      unfold putPayload
      cases hcode : reader.frame.code.isControl with
      | true =>
        rw [if_pos rfl]
        obtain ⟨hs, -⟩ | ⟨hlen, -⟩ :=
          @putControl_sound { reader with offset := 0, payload := true } [] message
            (Nat.zero_le _) (hmax hcode)
        · exact hs
        · exact absurd hlen (by simp [hzero])
      | false =>
        simp only [Bool.false_eq_true, reduceIte, List.length_nil, Nat.min_zero]
        exact (@putData_sound { reader with offset := 0, payload := true } [] message 0 hcode
          le_rfl).1
    exact ⟨hput.reader, hle, hput.control, hput.close⟩
  · next hne =>
    exact ⟨⟨⟨fun _ => Nat.pos_of_ne_zero hne, fun _ hc => hmax hc⟩, hle, nofun, nofun⟩,
      fun _ hn => absurd rfl hn⟩

theorem putHeader_sound (hp : reader.payload = false) :
    (reader.putHeader limit data message).Sound data.length ∧
      (reader.putHeader limit data message).Prompt := by
  unfold putHeader
  cases hparse : parseHeader reader.frame data reader.server with
  | mk frame result =>
    have hunchanged (code : Option WsError) :
        Put.Sound data.length { reader := { reader with frame }, message, code } :=
      @put_unchanged_sound { reader with frame } data message (.of_not hp) code
    cases result with
    | error e => cases e <;> exact ⟨hunchanged _, fun _ hne => absurd rfl hne⟩
    | ok size =>
      obtain ⟨hlow, hle⟩ := parseHeader_size hparse
      obtain ⟨-, hsend, -, -⟩ := parseHeader_ok hparse
      have henter {next : Reader} (hnext : next.payload = false) (hframe : next.frame = frame) :=
        @enterPayload_sound next limit data message size hnext (by omega) hle
          (fun hc => hframe ▸ (hsend (hframe ▸ hc)).2)
      dsimp only
      cases frame.code with
      | continuation =>
        dsimp only
        split
        · exact ⟨hunchanged _, nofun⟩
        · exact henter hp rfl
      | text | binary =>
        dsimp only
        split
        · exact ⟨hunchanged _, nofun⟩
        · exact henter hp rfl
      | close | ping | pong => exact henter hp rfl

/-- A put, which goes on until it comes to an event, to an error or to the end of the bytes. -/
theorem putLoop_sound (turns : ℕ) (h : reader.Sound) :
    (reader.putLoop limit turns data message).Sound data.length ∧
      (reader.putLoop limit turns data message).Prompt ∧
      ((reader.putLoop limit turns data message).code = none →
        (reader.putLoop limit turns data message).event ≠ .none) := by
  induction turns generalizing reader data message with
  | zero => exact ⟨put_unchanged_sound h _, nofun, nofun⟩
  | succ turns ih =>
    rw [putLoop]
    have hturn : (if reader.payload then reader.putPayload limit data message
          else reader.putHeader limit data message).Sound data.length ∧
        (if reader.payload then reader.putPayload limit data message
          else reader.putHeader limit data message).Prompt := by
      cases hp : reader.payload with
      | true => exact putPayload_sound h hp
      | false => exact putHeader_sound hp
    generalize (if reader.payload then reader.putPayload limit data message
      else reader.putHeader limit data message) = put at hturn
    obtain ⟨hs, hprompt⟩ := hturn
    dsimp only
    split
    · next hevent => exact ⟨hs, hprompt, fun hn => hevent.resolve_left (not_not.mpr hn)⟩
    · next hnone =>
      split
      · exact ⟨⟨hs.reader, hs.used, hs.control, hs.close⟩, nofun, nofun⟩
      · next hused =>
        obtain ⟨hrest, hpos, hevent⟩ := @ih put.reader (data.drop put.used) put.message hs.reader
        have hle := hrest.used
        have htook := hs.used
        rw [List.length_drop] at hle
        refine ⟨⟨hrest.reader, ?_, hrest.control, hrest.close⟩, fun _ _ => ?_, hevent⟩
        · dsimp only
          omega
        · dsimp only
          omega

end Reader

/-! ### What a call does -/

namespace Socket

/-- What a call does at once: a frame is queued, or what the socket knows of its reads and
of its stop has changed. -/
inductive Move : Socket → Socket → Prop where
  | write (s : Socket) (data : Bytes) (binary finish : Bool) :
      Move s (s.wsSendData data binary finish (.caller s.count))
  | ping (s : Socket) {payload : Bytes} (size : payload.length ≤ maximumControl) :
      Move s (s.wsPong payload)
  | echo (s : Socket) {payload : Bytes} (closing : s.closing = false)
      (reading : s.reading = .receiving) (size : payload.length ≤ maximumControl)
      (valid : ValidClose payload) :
      Move s ({ s with closing := true, reading := .echoing }.wsSend .close payload .echo)
  | close (s : Socket) (stopped : s.stopped = false) (closing : s.closing = false) :
      Move s ({ s with stopped := true, closing := true }.wsSend .close closePayload .close)
  | closed (s : Socket) (stopped : s.stopped = false) (closing : s.closing = true) :
      Move s ({ s with stopped := true }.doTlsStop)
  | begin (s : Socket) (reading : s.reading = .idle) :
      Move s { s with message := [], reading := .receiving, begun := s.begun + 1 }
  | put (s : Socket) (reader : Reader) (message input : Bytes) (sound : reader.Sound) :
      Move s { s with reader, message, input }
  | answer (s : Socket) (code : ReadCode) (reading : s.reading = .receiving) :
      Move s (s.answer code)

abbrev Moves : Socket → Socket → Prop := Relation.ReflTransGen Move

/-- The start of a write leaves the rest as it is. -/
theorem wsWriteNext_eq (s : Socket) : s.wsWriteNext =
    { s with
      writing := s.wsWriteNext.writing
      pong := s.wsWriteNext.pong
      inflight := s.wsWriteNext.inflight
      written := s.wsWriteNext.written } := by
  unfold wsWriteNext
  cases s.writing with
  | true => rfl
  | false =>
    cases h : s.queue with
    | nil => cases s; cases h; rfl
    | cons frame frames => simp only [Bool.false_eq_true, reduceIte, ← h]

theorem wsWriteNext_writing {s : Socket} (h : s.writing = true) : s.wsWriteNext = s := by
  rw [wsWriteNext, if_pos h]

theorem wsWriteNext_nil {s : Socket} (h : s.queue = []) : s.wsWriteNext = s := by
  unfold wsWriteNext
  rw [h, ite_self]

theorem wsWriteNext_cons {s : Socket} {frame : WsFrame} {frames : List WsFrame}
    (hw : s.writing = false) (h : s.queue = frame :: frames) : s.wsWriteNext =
    { s with
      writing := true
      pong := if s.pong = some frame.id then none else s.pong
      inflight := s.inflight ++ [frame]
      written := s.written ++ [frame] } := by
  unfold wsWriteNext
  rw [h, if_neg (by rw [hw]; exact Bool.false_ne_true)]

theorem wsPong_some {s : Socket} {id : ℕ} (h : s.pong = some id) (payload : Bytes) :
    s.wsPong payload =
      { s with
        queue := replace id payload s.queue
        inflight := replace id payload s.inflight
        pings := s.pings ++ [payload] } := by
  unfold wsPong
  simp only [h]

theorem wsPong_none {s : Socket} (h : s.pong = none) (payload : Bytes) : s.wsPong payload =
    { s with pings := s.pings ++ [payload], pong := some s.count }.push
      { id := s.count, code := .pong, payload } := by
  unfold wsPong
  simp only [h]

/-- A frame is queued under the next number, and its write may be started. -/
theorem push_eq (s : Socket) (frame : WsFrame) : s.push frame =
    { s with
      queue := s.queue ++ [frame]
      queued := s.queued ++ frame.handler.toList
      count := s.count + 1
      writing := (s.push frame).writing
      pong := (s.push frame).pong
      inflight := (s.push frame).inflight
      written := (s.push frame).written } := wsWriteNext_eq _

theorem push_reads (s : Socket) (frame : WsFrame) :
    (s.push frame).reader = s.reader ∧ (s.push frame).reading = s.reading := by
  rw [push, wsWriteNext_eq]
  exact ⟨rfl, rfl⟩

theorem wsPong_reads (s : Socket) (payload : Bytes) :
    (s.wsPong payload).reader = s.reader ∧ (s.wsPong payload).reading = s.reading := by
  cases h : s.pong with
  | some id =>
    rw [wsPong_some h]
    exact ⟨rfl, rfl⟩
  | none =>
    rw [wsPong_none h]
    exact push_reads _ _

theorem Move.sound {s s' : Socket} (h : Move s s') (hs : s.reader.Sound) : s'.reader.Sound := by
  cases h with
  | write =>
    rw [wsSendData, (push_reads _ _).1]
    exact hs
  | echo | close =>
    rw [wsSend, (push_reads _ _).1]
    exact hs
  | ping => exact (wsPong_reads _ _).1.symm ▸ hs
  | put _ _ _ sound => exact sound
  | closed | begin | answer => exact hs

theorem Moves.sound {s s' : Socket} (h : Moves s s') (hs : s.reader.Sound) : s'.reader.Sound := by
  induction h with
  | refl => exact hs
  | tail _ hmove ih => exact hmove.sound ih

/-- The close is echoed by its code. -/
theorem Move.echoes {s : Socket} (hc : s.closing = false) (hr : s.reading = .receiving)
    (hsize : s.reader.control.length ≤ maximumControl) (hclose : ValidClose s.reader.control) :
    Move s ({ s with closing := true, reading := .echoing }.wsSend .close
      (if s.reader.control.length < 2 then [] else s.reader.control.take 2) .echo) := by
  split
  · exact .echo s hc hr (Nat.zero_le _) (.inl rfl)
  · next hlen =>
    refine .echo s hc hr ((List.length_take_le' _ _).trans hsize) ?_
    obtain hnil | ⟨high, low, reason, heq, hcode, -⟩ := hclose
    · exact absurd (hnil ▸ Nat.zero_lt_two) hlen
    · exact heq ▸ .inr ⟨high, low, [], rfl, hcode, ⟨[], rfl⟩⟩

theorem readLoop_moves (turns : ℕ) {s : Socket} (hs : s.reader.Sound)
    (hr : s.reading = .receiving) : Moves s (readLoop turns s) := by
  induction turns generalizing s with
  | zero => exact .refl
  | succ turns ih =>
    obtain ⟨hput, -, -⟩ := @Reader.putLoop_sound s.reader s.limit s.input s.message
      (s.input.length + 1) hs
    rw [readLoop, Reader.put]
    generalize s.reader.putLoop s.limit (s.input.length + 1) s.input s.message = put at hput
    have hmove : Moves s
        { s with reader := put.reader, message := put.message, input := s.input.drop put.used } :=
      .single (.put s _ _ _ hput.reader)
    refine hmove.trans ?_
    dsimp only
    cases hcode : put.code with
    | some e =>
      have hanswer (code : ReadCode) := Relation.ReflTransGen.single (Move.answer
        { s with reader := put.reader, message := put.message, input := s.input.drop put.used }
        code hr)
      cases e with
      | needMore =>
        dsimp only
        rw [← hr]
      | _ => exact hanswer _
    | none =>
      dsimp only
      cases hevent : put.event with
      | none => exact ih hput.reader hr
      | pong => exact ih hput.reader hr
      | message => exact .single (.answer _ _ hr)
      | ping =>
        have hsize := hput.control (by rw [hevent]; nofun) (by rw [hevent]; nofun)
        have hping := Move.ping
          { s with reader := put.reader, message := put.message, input := s.input.drop put.used }
          hsize
        obtain ⟨hreader, hreading⟩ := wsPong_reads
          { s with reader := put.reader, message := put.message, input := s.input.drop put.used }
          put.reader.control
        exact .head hping (ih (hreader.symm ▸ hput.reader) (hreading.trans hr))
      | close =>
        dsimp only
        by_cases hc : s.closing = true
        · rw [if_pos hc]
          exact .single (.answer _ _ hr)
        · rw [if_neg hc]
          have hsize := hput.control (by rw [hevent]; nofun) (by rw [hevent]; nofun)
          exact .single (Move.echoes (Bool.eq_false_iff.mpr hc) hr hsize (hput.close hevent))

/-- Each turn of the loop but the last takes bytes, so that their number is turns enough. -/
theorem readLoop_turns {s : Socket} {turns : ℕ} (hs : s.reader.Sound)
    (hturns : s.input.length < turns) : readLoop turns s = s.doWsReadMessage := by
  unfold doWsReadMessage
  generalize hmore : s.input.length + 1 = more
  have hlt : s.input.length < more := by omega
  clear hmore
  induction turns generalizing s more with
  | zero => omega
  | succ turns ih =>
    cases more with
    | zero => omega
    | succ more =>
      obtain ⟨hput, hprompt, hevents⟩ := @Reader.putLoop_sound s.reader s.limit s.input s.message
        (s.input.length + 1) hs
      rw [readLoop, readLoop, Reader.put]
      generalize s.reader.putLoop s.limit (s.input.length + 1) s.input s.message = put at *
      dsimp only
      cases hcode : put.code with
      | some e => cases e <;> rfl
      | none =>
        dsimp only
        have hrest : (s.input.drop put.used).length + 1 ≤ s.input.length := by
          have hpos := hprompt hcode (hevents hcode)
          have hle := hput.used
          rw [List.length_drop]
          omega
        cases hevent : put.event with
        | none => exact absurd hevent (hevents hcode)
        | message | close => rfl
        | pong => exact ih hput.reader (by dsimp only; omega) more (by dsimp only; omega)
        | ping =>
          have hinput (s : Socket) (payload : Bytes) : (s.wsPong payload).input = s.input := by
            cases h : s.pong with
            | some id => rw [wsPong_some h]
            | none => rw [wsPong_none h, push, wsWriteNext_eq]
          refine ih ((wsPong_reads _ _).1.symm ▸ hput.reader) ?_ more ?_ <;>
            · rw [hinput]
              dsimp only
              omega

theorem call_moves {s : Socket} (hs : s.reader.Sound) (c : Call) : Moves s (s.call c) := by
  cases c with
  | write data binary finish => exact .single (.write s data binary finish)
  | read =>
    rw [call]
    split
    · next hidle => exact .head (.begin s hidle) (readLoop_moves _ hs rfl)
    · exact .refl
  | lazyStop =>
    rw [call, lazyStop]
    split
    · exact .refl
    · next hstopped =>
      rw [doWsStop]
      have hstopped := Bool.eq_false_iff.mpr hstopped
      split
      · next hc => exact .single (.closed s hstopped hc)
      · next hc => exact .single (.close s hstopped (Bool.eq_false_iff.mpr hc))

theorem calls_moves {s : Socket} (hs : s.reader.Sound) (made : List Call) :
    Moves s (s.calls made) := by
  induction made generalizing s with
  | nil => exact .refl
  | cons c made ih => exact (call_moves hs c).trans (ih ((call_moves hs c).sound hs))

theorem Moves.keeps {P : Socket → Prop} (hmove : ∀ s s', Move s s' → P s → P s') {s s' : Socket}
    (h : Moves s s') (hs : P s) : P s' := by
  induction h with
  | refl => exact hs
  | tail _ hlast ih => exact hmove _ _ hlast ih

end Socket

end BitcoinNetwork.Ws
