import BitcoinNetwork.Ws.Messages
import BitcoinNetwork.Ws.Socket

/-!
# Messages that are written in fragments (net/socket_ws.cpp, ws/reader.cpp)

What the fragments say that callers write, and what a reader makes of their frames, with
control frames between any of them.
-/

namespace BitcoinNetwork.Ws
open Incremental

/-! ### Fragments -/

/-- The messages that fragments complete, and the one that they leave unfinished. -/
def spoken : Option Partial → List Fragment → List Partial × Option Partial
  | part, [] => ([], part)
  | part, fragment :: fragments =>
    let whole := (part.getD ⟨fragment.binary, []⟩).add fragment.data
    if fragment.finish then
      (whole :: (spoken none fragments).1, (spoken none fragments).2)
    else spoken (some whole) fragments

/-- Messages are within the maximum and their text is valid, as far as there is any. -/
structure Speaks (maximum : ℕ) (said : List Partial × Option Partial) : Prop where
  messages : ∀ message ∈ said.1, message.bytes.length ≤ maximum ∧ message.Complete
  unfinished : ∀ part ∈ said.2, part.bytes.length ≤ maximum ∧ part.Valid

/-- The message behind fragments is continued. -/
def continued (continuing : Bool) (fragments : List Fragment) : Bool :=
  fragments.foldl (fun _ fragment => !fragment.finish) continuing

def Fragment.frame (fragment : Fragment) (continuing : Bool) : Frame :=
  ⟨if continuing then .continuation else if fragment.binary then .binary else .text,
    fragment.finish, fragment.data⟩

/-- The frames of fragments. -/
def fragmentFrames : Bool → List Fragment → List Frame
  | _, [] => []
  | continuing, fragment :: fragments =>
    fragment.frame continuing :: fragmentFrames (!fragment.finish) fragments

theorem fragmentFrames_append (continuing : Bool) (fragments : List Fragment)
    (fragment : Fragment) : fragmentFrames continuing (fragments ++ [fragment]) =
      fragmentFrames continuing fragments ++ [fragment.frame (continued continuing fragments)] := by
  induction fragments generalizing continuing with
  | nil => rfl
  | cons first fragments ih =>
    rw [List.cons_append, fragmentFrames, ih]
    rfl

theorem continued_append (continuing : Bool) (fragments : List Fragment) (fragment : Fragment) :
    continued continuing (fragments ++ [fragment]) = !fragment.finish := by
  rw [continued, List.foldl_append]
  rfl

/-! ### What a reader makes of them -/

variable {maximum : ℕ}

theorem Speaks.tail {message : Partial} {said : List Partial × Option Partial}
    (h : Speaks maximum (message :: said.1, said.2)) : Speaks maximum said :=
  ⟨fun other hmem => h.messages other (List.mem_cons_of_mem _ hmem), h.unfinished⟩

/-- What there is of a message may be said if the message may. -/
theorem Speaks.part {part : Partial} {fragments : List Fragment}
    (h : Speaks maximum (spoken (some part) fragments)) :
    part.bytes.length ≤ maximum ∧ part.Valid := by
  have hshort {payload : Bytes} (hlen : (part.add payload).bytes.length ≤ maximum) :
      part.bytes.length ≤ maximum := by
    rw [Partial.add, List.length_append] at hlen
    omega
  induction fragments generalizing part with
  | nil => exact h.unfinished part rfl
  | cons fragment fragments ih =>
    rw [spoken] at h
    cases hfinish : fragment.finish with
    | true =>
      rw [hfinish] at h
      obtain ⟨hlen, hcomplete⟩ := h.messages _ List.mem_cons_self
      exact ⟨hshort hlen, hcomplete.valid.of_add⟩
    | false =>
      rw [hfinish] at h
      have hsmall {payload : Bytes}
          (hlen : ((part.add fragment.data).add payload).bytes.length ≤ maximum) :
          (part.add fragment.data).bytes.length ≤ maximum := by
        rw [Partial.add, List.length_append] at hlen
        omega
      obtain ⟨hlen, hvalid⟩ := ih h hsmall
      exact ⟨hshort hlen, hvalid.of_add⟩

theorem begins_fragment (part : Option Partial) (fragment : Fragment) :
    Begins part (fragment.frame part.isSome).code (part.getD ⟨fragment.binary, []⟩) := by
  cases part with
  | some part => exact .continuation part
  | none =>
    unfold Fragment.frame
    cases fragment.binary with
    | true => exact .binary
    | false => exact .text

/-- The frames of fragments follow each other, and have the messages. -/
theorem Speaks.follow {part : Option Partial} {fragments : List Fragment}
    (h : Speaks maximum (spoken part fragments)) :
    FollowAll maximum part (fragmentFrames part.isSome fragments) (spoken part fragments).2
      ((spoken part fragments).1.map fun message => .message message.binary message.bytes) := by
  induction fragments generalizing part with
  | nil => exact .nil
  | cons fragment fragments ih =>
    have hbegins := begins_fragment part fragment
    rw [spoken] at h ⊢
    rw [fragmentFrames]
    generalize part.getD ⟨fragment.binary, []⟩ = before at *
    cases hfinish : fragment.finish with
    | true =>
      rw [hfinish] at h
      obtain ⟨hlen, hcomplete⟩ := h.messages _ List.mem_cons_self
      rw [Partial.add, List.length_append] at hlen
      exact .cons (.last hbegins hfinish hlen hcomplete) (@ih none h.tail)
    | false =>
      rw [hfinish] at h
      obtain ⟨hlen, hvalid⟩ := Speaks.part h
      rw [Partial.add, List.length_append] at hlen
      exact .cons (.part hbegins hfinish hlen hvalid) (@ih (some (before.add fragment.data)) h)

/-! ### Control frames between them -/

/-- The message of an event. -/
def Event.message? : Event → Option Partial
  | .message binary payload => some ⟨binary, payload⟩
  | _ => none

/-- The payload of a pong. -/
def Event.pong? : Event → Option Bytes
  | .pong payload => some payload
  | _ => none

/-- The payload of a close. -/
def Event.close? : Event → Option Bytes
  | .close payload => some payload
  | _ => none

def Frame.pong? (frame : Frame) : Option Bytes :=
  if frame.code = .pong then some frame.payload else none

def Frame.close? (frame : Frame) : Option Bytes :=
  if frame.code = .close then some frame.payload else none

/-- A control frame that may be sent. -/
structure Frame.MayControl (frame : Frame) : Prop where
  fin : frame.fin = true
  size : frame.payload.length ≤ maximumControl
  valid : frame.code = .close → ValidClose frame.payload

theorem Frame.control_event (frame : Frame) (hc : frame.code.isControl = true) :
    (controlEvent frame.code frame.payload).message? = none ∧
      (controlEvent frame.code frame.payload).pong? = frame.pong? ∧
      (controlEvent frame.code frame.payload).close? = frame.close? := by
  obtain ⟨code, fin, payload⟩ := frame
  cases code with
  | continuation | text | binary => cases hc
  | close | ping | pong => exact ⟨rfl, rfl, rfl⟩

/-- Control frames may stand between any frames, whose messages they leave as they are. -/
theorem FollowAll.interleave {part last : Option Partial} {frames : List Frame}
    {events : List Event}
    (h : FollowAll maximum part (frames.filter fun frame => !frame.code.isControl) last events)
    (hcontrol : ∀ frame ∈ frames, frame.code.isControl = true → frame.MayControl) :
    ∃ all, FollowAll maximum part frames last all ∧
      all.filterMap Event.message? = events.filterMap Event.message? ∧
      all.filterMap Event.pong? = frames.filterMap Frame.pong? ∧
      all.filterMap Event.close? = frames.filterMap Frame.close? := by
  induction frames generalizing part events with
  | nil =>
    cases h
    exact ⟨[], .nil, rfl, rfl, rfl⟩
  | cons frame frames ih =>
    have hrest := fun other hmem => hcontrol other (List.mem_cons_of_mem frame hmem)
    cases hc : frame.code.isControl with
    | true =>
      rw [List.filter_cons_of_neg (by rw [hc]; exact Bool.false_ne_true)] at h
      obtain ⟨all, hall, hmessages, hpongs, hcloses⟩ := ih h hrest
      obtain ⟨fin, size, valid⟩ := hcontrol frame List.mem_cons_self hc
      obtain ⟨hmessage, hpong, hclose⟩ := frame.control_event hc
      refine ⟨_, .cons (.control hc fin size valid) hall, ?_, ?_, ?_⟩ <;>
        rw [List.singleton_append, List.filterMap_cons]
      · rw [hmessage, hmessages]
      · rw [hpong, hpongs, List.filterMap_cons]
      · rw [hclose, hcloses, List.filterMap_cons]
    | false =>
      rw [List.filter_cons_of_pos (by rw [hc]; rfl)] at h
      have hpong : frame.pong? = none := if_neg fun heq => by rw [heq] at hc; cases hc
      have hclose : frame.close? = none := if_neg fun heq => by rw [heq] at hc; cases hc
      cases h with
      | cons head tail =>
        obtain ⟨all, hall, hmessages, hpongs, hcloses⟩ := ih tail hrest
        refine ⟨_, .cons head hall, ?_, ?_, ?_⟩
        · rw [List.filterMap_append, List.filterMap_append, hmessages]
        · rw [List.filterMap_append, List.filterMap_cons_none hpong, hpongs]
          cases head with
          | control code => rw [hc] at code; cases code
          | part => rfl
          | last => rfl
        · rw [List.filterMap_append, List.filterMap_cons_none hclose, hcloses]
          cases head with
          | control code => rw [hc] at code; cases code
          | part => rfl
          | last => rfl

/-! ### What a client has read -/

theorem FollowAll.split {part last : Option Partial} {frames more : List Frame}
    {events : List Event} (h : FollowAll maximum part (frames ++ more) last events) :
    ∃ mid first rest, FollowAll maximum part frames mid first ∧
      FollowAll maximum mid more last rest ∧ events = first ++ rest := by
  induction frames generalizing part events with
  | nil => exact ⟨part, [], events, .nil, h, rfl⟩
  | cons frame frames ih =>
    cases h with
    | cons head tail =>
      obtain ⟨mid, first, rest, hall, hmore, rfl⟩ := ih tail
      exact ⟨mid, _, rest, .cons head hall, hmore, (List.append_assoc _ _ _).symm⟩

theorem FollowAll.size {part last : Option Partial} {frames : List Frame} {events : List Event}
    (h : FollowAll maximum part frames last events) :
    ∀ frame ∈ frames, frame.payload.length ≤ max maximum maximumControl := by
  induction h with
  | nil => exact nofun
  | @cons _ _ _ first _ _ _ head _ ih =>
    intro frame hmem
    rcases List.mem_cons.mp hmem with rfl | hmem
    · cases head with
      | control _ _ size => exact size.trans (Nat.le_max_right _ _)
      | part _ _ size => exact (Nat.le_of_add_left_le size).trans (Nat.le_max_left _ _)
      | last _ _ size => exact (Nat.le_of_add_left_le size).trans (Nat.le_max_left _ _)
    · exact ih frame hmem

/-- Frames that follow each other are read without an error, in whatever pieces. -/
theorem FollowAll.reads {limit : ℕ} (h : maximum ≤ limit) {last : Option Partial}
    {frames : List Frame} {events : List Event} (hall : FollowAll maximum none frames last events)
    {server : Bool} {pieces : List Bytes} (hb : Encodes server frames pieces.flatten) :
    readPieces maximum limit server pieces = (events, .needMore) := by
  obtain ⟨s, hreach, hat⟩ := reaches_frames hall hb (Reader.inv_new limit h server)
    (atFrame_new maximum server)
  have hwait : Reader.step limit s [] = .wait := by
    rw [Reader.step_header hat.payload]
    rfl
  obtain ⟨reader, message, hread, -⟩ := (accepts_iff_runs h server pieces events _).mpr
    ⟨s, hreach.waiting hwait, hat.payload, rfl⟩
  rw [readPieces, hread]

/-- What is read of a stream so far has no error if the stream has none. -/
theorem read_prefix {limit : ℕ} {pieces : List Bytes} {more : Bytes} {reader : Reader}
    {message buffer : Bytes} {events : List Event} {left : Reader × Bytes × Bytes}
    (h : read limit (pieces ++ [more]) reader message buffer = (events, left, .needMore)) :
    ∃ first left', read limit pieces reader message buffer = (first, left', .needMore) ∧
      first <+: events := by
  induction pieces generalizing reader message buffer events with
  | nil =>
    rw [List.nil_append, read] at h
    rw [read]
    generalize readBuffered limit (buffer.length + 1) reader message buffer = buffered at h ⊢
    obtain ⟨first, ⟨reader', message', rest⟩, result⟩ := buffered
    cases result with
    | needMore =>
      obtain ⟨rfl, -⟩ := Prod.ext_iff.mp h
      exact ⟨first, _, rfl, List.prefix_append _ _⟩
    | failed e => cases h
  | cons piece pieces ih =>
    rw [List.cons_append, read] at h
    rw [read]
    generalize readBuffered limit (buffer.length + 1) reader message buffer = buffered at h ⊢
    obtain ⟨first, ⟨reader', message', rest⟩, result⟩ := buffered
    cases result with
    | needMore =>
      dsimp only at h ⊢
      cases hread : read limit (pieces ++ [more]) reader' message' (rest ++ piece) with
      | mk events' result =>
        obtain ⟨left', result⟩ := result
        rw [hread] at h
        cases h
        obtain ⟨first', left'', hfirst, hprefix⟩ := ih hread
        rw [hfirst]
        exact ⟨_, _, rfl, (List.prefix_append_right_inj _).mpr hprefix⟩
    | failed e => cases h

end BitcoinNetwork.Ws
