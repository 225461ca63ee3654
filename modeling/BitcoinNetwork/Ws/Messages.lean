import BitcoinNetwork.Ws.FrameRuns
import BitcoinNetwork.Ws.Reading

/-!
# What the reader accepts (rfc6455 5.4, ws/reader.cpp)

A stream of frames is messages, each cut into fragments with control frames in
front of any but its first, and control frames between messages. The reader
reads those streams without an error and no others, and its events are the
messages and the control payloads in their order.
-/

namespace BitcoinNetwork.Ws
open Incremental

/-! ### Messages -/

/-- A control frame that may be sent. -/
structure Control where
  code : Opcode
  payload : Bytes
  isControl : code.isControl = true
  size : payload.length ≤ maximumControl
  valid : code = .close → ValidClose payload

namespace Control

def frame (control : Control) : Frame := ⟨control.code, true, control.payload⟩

def event (control : Control) : Event := controlEvent control.code control.payload

end Control

/-- A message cut into fragments, with the control frames in front of each but the first. -/
structure Message where
  binary : Bool
  first : Bytes
  rest : List (List Control × Bytes)

/-- The frames that continue a message, of which the last may be final. -/
def continues (final : Bool) : List (List Control × Bytes) → List Frame
  | [] => []
  | (controls, fragment) :: rest =>
    controls.map Control.frame ++
      ⟨.continuation, final && rest.isEmpty, fragment⟩ :: continues final rest

namespace Message

def payload (message : Message) : Bytes := message.first ++ message.rest.flatMap Prod.snd

def controls (message : Message) : List Control := message.rest.flatMap Prod.fst

/-- The frames of a message, which is complete if the last of them is final. -/
def frames (final : Bool) (message : Message) : List Frame :=
  ⟨if message.binary then .binary else .text, final && message.rest.isEmpty, message.first⟩ ::
    continues final message.rest

/-- The control payloads come before the message that they interrupt. -/
def events (message : Message) : List Event :=
  message.controls.map Control.event ++ [.message message.binary message.payload]

/-- A message within the maximum, of valid utf8 if it is text. -/
def Legal (maximum : ℕ) (message : Message) : Prop :=
  message.payload.length ≤ maximum ∧ (message.binary = false → ValidUtf8 message.payload)

end Message

/-- What a stream has between messages, or a message. -/
inductive Item where
  | control (control : Control)
  | message (message : Message)

namespace Item

def frames : Item → List Frame
  | control c => [c.frame]
  | message m => m.frames true

def events : Item → List Event
  | control c => [c.event]
  | message m => m.events

def Legal (maximum : ℕ) : Item → Prop
  | control _ => True
  | message m => m.Legal maximum

end Item

/-- A message of which the final frame is to come. -/
structure Unfinished where
  message : Message
  controls : List Control

namespace Unfinished

def frames (unfinished : Unfinished) : List Frame :=
  unfinished.message.frames false ++ unfinished.controls.map Control.frame

def events (unfinished : Unfinished) : List Event :=
  (unfinished.message.controls ++ unfinished.controls).map Control.event

/-- What there is of the message may be completed. -/
def Legal (maximum : ℕ) (unfinished : Unfinished) : Prop :=
  unfinished.message.payload.length ≤ maximum ∧
    (unfinished.message.binary = false →
      ∃ more, ValidUtf8 (unfinished.message.payload ++ more))

end Unfinished

/-- The items of a stream of frames, and the message that it leaves unfinished. -/
structure Conversation where
  items : List Item
  unfinished : Option Unfinished

namespace Conversation

def frames (conversation : Conversation) : List Frame :=
  conversation.items.flatMap Item.frames ++
    conversation.unfinished.elim [] Unfinished.frames

def events (conversation : Conversation) : List Event :=
  conversation.items.flatMap Item.events ++
    conversation.unfinished.elim [] Unfinished.events

/-- Messages are within the maximum and their text is valid. -/
structure Legal (maximum : ℕ) (conversation : Conversation) : Prop where
  items : ∀ item ∈ conversation.items, item.Legal maximum
  unfinished : ∀ unfinished ∈ conversation.unfinished, unfinished.Legal maximum

end Conversation

/-! ### The frames of messages follow each other -/

variable {maximum : ℕ}

theorem Partial.valid_iff (part : Partial) :
    part.Valid ↔ (part.binary = false → ∃ more, ValidUtf8 (part.bytes ++ more)) := by
  unfold Partial.Valid
  rw [Utf8Validator.write_iff]

theorem Partial.Valid.of_add {part : Partial} {payload : Bytes} (h : (part.add payload).Valid) :
    part.Valid := by
  rw [Partial.valid_iff] at h ⊢
  intro hb
  obtain ⟨more, hmore⟩ := h hb
  refine ⟨payload ++ more, ?_⟩
  rwa [Partial.add, List.append_assoc] at hmore

theorem FollowAll.single {part last : Option Partial} {frame : Frame} {events : List Event}
    (h : Follows maximum part frame last events) : FollowAll maximum part [frame] last events := by
  have hall := FollowAll.cons h .nil
  rwa [List.append_nil] at hall

/-- A frame that does not complete its message is in front of those that continue it. -/
theorem FollowAll.part {part last : Option Partial} {before : Partial} {code : Opcode}
    {payload : Bytes} {frames : List Frame} {events : List Event}
    (hb : Begins part code before) (hsize : before.bytes.length + payload.length ≤ maximum)
    (hvalid : (before.add payload).Valid)
    (h : FollowAll maximum (some (before.add payload)) frames last events) :
    FollowAll maximum part (⟨code, false, payload⟩ :: frames) last events :=
  .cons (@Follows.part _ _ ⟨code, false, payload⟩ _ hb rfl hsize hvalid) h

theorem FollowAll.last {part : Option Partial} {before : Partial} {code : Opcode}
    {payload : Bytes} (hb : Begins part code before)
    (hsize : before.bytes.length + payload.length ≤ maximum)
    (hcomplete : (before.add payload).Complete) :
    FollowAll maximum part [⟨code, true, payload⟩] none
      [.message before.binary (before.bytes ++ payload)] :=
  .single (@Follows.last _ _ ⟨code, true, payload⟩ _ hb rfl hsize hcomplete)

theorem follows_control (part : Option Partial) (control : Control) :
    Follows maximum part control.frame part [control.event] :=
  .control control.isControl rfl control.size control.valid

theorem follow_controls (part : Option Partial) (controls : List Control) :
    FollowAll maximum part (controls.map Control.frame) part (controls.map Control.event) := by
  induction controls with
  | nil => exact .nil
  | cons control controls ih => exact .cons (follows_control part control) ih

/-- Fragments continue a message that they do not complete. -/
theorem follow_continues {before : Partial} {rest : List (List Control × Bytes)}
    (hsize : (before.add (rest.flatMap Prod.snd)).bytes.length ≤ maximum)
    (hvalid : (before.add (rest.flatMap Prod.snd)).Valid) :
    FollowAll maximum (some before) (continues false rest)
      (some (before.add (rest.flatMap Prod.snd)))
      ((rest.flatMap Prod.fst).map Control.event) := by
  induction rest generalizing before with
  | nil =>
    rw [List.flatMap_nil, Partial.add_nil]
    exact .nil
  | cons head rest ih =>
    obtain ⟨controls, fragment⟩ := head
    have hadd : before.add (((controls, fragment) :: rest).flatMap Prod.snd)
        = (before.add fragment).add (rest.flatMap Prod.snd) := by
      simp only [Partial.add, List.flatMap_cons, List.append_assoc]
    rw [hadd] at hsize hvalid ⊢
    rw [continues, List.flatMap_cons, List.map_append]
    refine (follow_controls _ controls).append ?_
    have hfirst : before.bytes.length + fragment.length ≤ maximum := by
      simp only [Partial.add, List.length_append] at hsize
      omega
    exact .part (.continuation before) hfirst hvalid.of_add (ih hsize hvalid)

/-- Fragments of which the last is final complete a message. -/
theorem follow_last {before : Partial} {rest : List (List Control × Bytes)} (hne : rest ≠ [])
    (hsize : (before.add (rest.flatMap Prod.snd)).bytes.length ≤ maximum)
    (hcomplete : (before.add (rest.flatMap Prod.snd)).Complete) :
    FollowAll maximum (some before) (continues true rest) none
      ((rest.flatMap Prod.fst).map Control.event ++
        [.message before.binary (before.bytes ++ rest.flatMap Prod.snd)]) := by
  induction rest generalizing before with
  | nil => exact absurd rfl hne
  | cons head rest ih =>
    obtain ⟨controls, fragment⟩ := head
    have hadd : before.add (((controls, fragment) :: rest).flatMap Prod.snd)
        = (before.add fragment).add (rest.flatMap Prod.snd) := by
      simp only [Partial.add, List.flatMap_cons, List.append_assoc]
    rw [hadd] at hsize hcomplete
    rw [continues, List.flatMap_cons, List.flatMap_cons, List.map_append, List.append_assoc]
    refine (follow_controls _ controls).append ?_
    have hfirst : before.bytes.length + fragment.length ≤ maximum := by
      simp only [Partial.add, List.length_append] at hsize
      omega
    cases rest with
    | nil =>
      rw [List.flatMap_nil, Partial.add_nil] at hcomplete
      simp only [List.flatMap_nil, List.append_nil, List.map_nil, List.nil_append]
      exact .last (.continuation before) hfirst hcomplete
    | cons next rest =>
      have hrest := ih (List.cons_ne_nil next rest) hsize hcomplete
      rw [← List.append_assoc before.bytes]
      exact .part (.continuation before) hfirst hcomplete.valid.of_add hrest

theorem begins_message (message : Message) :
    Begins none (if message.binary then .binary else .text) ⟨message.binary, []⟩ := by
  cases message.binary with
  | true => exact .binary
  | false => exact .text

theorem Message.Legal.follow {message : Message} (h : message.Legal maximum) :
    FollowAll maximum none (message.frames true) none message.events := by
  obtain ⟨binary, first, rest⟩ := message
  obtain ⟨hsize, hcomplete⟩ := h
  simp only [Message.payload] at hsize hcomplete
  have hfirst : first.length ≤ maximum := by
    rw [List.length_append] at hsize
    omega
  unfold Message.frames Message.events Message.controls Message.payload
  cases rest with
  | nil =>
    rw [List.flatMap_nil, List.append_nil] at hcomplete
    simp only [List.flatMap_nil, List.append_nil, List.map_nil, List.nil_append]
    exact .last (begins_message ⟨binary, first, []⟩) (by simpa using hfirst) hcomplete
  | cons next rest =>
    have hall : (Partial.add ⟨binary, first⟩ ((next :: rest).flatMap Prod.snd)).Complete := hcomplete
    exact .part (begins_message ⟨binary, first, []⟩) (by simpa using hfirst) hall.valid.of_add
      (@follow_last _ ⟨binary, first⟩ _ (List.cons_ne_nil next rest) hsize hall)

/-- The message of which the final frame is to come. -/
def Unfinished.part (unfinished : Unfinished) : Partial :=
  ⟨unfinished.message.binary, unfinished.message.payload⟩

theorem Unfinished.Legal.follow {unfinished : Unfinished} (h : unfinished.Legal maximum) :
    FollowAll maximum none unfinished.frames (some unfinished.part) unfinished.events := by
  obtain ⟨⟨binary, first, rest⟩, controls⟩ := unfinished
  obtain ⟨hsize, hvalid⟩ := h
  simp only [Message.payload] at hsize hvalid
  have hall : (Partial.add ⟨binary, first⟩ (rest.flatMap Prod.snd)).Valid :=
    (Partial.valid_iff _).mpr hvalid
  have hfirst : first.length ≤ maximum := by
    rw [List.length_append] at hsize
    omega
  unfold Unfinished.frames Unfinished.events
  rw [List.map_append]
  refine FollowAll.append ?_ (follow_controls _ controls)
  exact .part (begins_message ⟨binary, first, []⟩) (by simpa using hfirst) hall.of_add
    (@follow_continues _ ⟨binary, first⟩ _ hsize hall)

theorem follow_items {items : List Item} (h : ∀ item ∈ items, item.Legal maximum) :
    FollowAll maximum none (items.flatMap Item.frames) none (items.flatMap Item.events) := by
  induction items with
  | nil => exact .nil
  | cons item items ih =>
    rw [List.flatMap_cons, List.flatMap_cons]
    refine FollowAll.append ?_ (ih fun other hmem => h other (List.mem_cons_of_mem _ hmem))
    have hlegal := h item List.mem_cons_self
    cases item with
    | control control => exact .single (follows_control none control)
    | message message => exact Message.Legal.follow hlegal

theorem Conversation.Legal.follow {conversation : Conversation} (h : conversation.Legal maximum) :
    FollowAll maximum none conversation.frames (conversation.unfinished.map Unfinished.part)
      conversation.events := by
  refine (follow_items h.items).append ?_
  cases hu : conversation.unfinished with
  | none => exact .nil
  | some unfinished => exact (h.unfinished unfinished hu).follow

/-! ### Frames that follow each other are those of messages -/

/-- The frames behind a message that has begun: they leave it unfinished, or complete it
in front of a conversation. -/
inductive Continued (maximum : ℕ) (before : Partial) :
    List Frame → Option Partial → List Event → Prop where
  | unfinished (rest : List (List Control × Bytes)) (controls : List Control)
      (size : (before.add (rest.flatMap Prod.snd)).bytes.length ≤ maximum)
      (valid : (before.add (rest.flatMap Prod.snd)).Valid) :
      Continued maximum before (continues false rest ++ controls.map Control.frame)
        (some (before.add (rest.flatMap Prod.snd)))
        ((rest.flatMap Prod.fst ++ controls).map Control.event)
  | complete (rest : List (List Control × Bytes)) (conversation : Conversation) (ne : rest ≠ [])
      (size : (before.add (rest.flatMap Prod.snd)).bytes.length ≤ maximum)
      (complete : (before.add (rest.flatMap Prod.snd)).Complete)
      (legal : conversation.Legal maximum) :
      Continued maximum before (continues true rest ++ conversation.frames)
        (conversation.unfinished.map Unfinished.part)
        ((rest.flatMap Prod.fst).map Control.event ++
          .message before.binary (before.bytes ++ rest.flatMap Prod.snd) :: conversation.events)

namespace Continued
variable {before : Partial} {frames : List Frame} {last : Option Partial} {events : List Event}

theorem control (h : Continued maximum before frames last events) (control : Control) :
    Continued maximum before (control.frame :: frames) last (control.event :: events) := by
  cases h with
  | unfinished rest controls size valid =>
    cases rest with
    | nil => exact .unfinished [] (control :: controls) size valid
    | cons head rest => exact .unfinished ((control :: head.1, head.2) :: rest) controls size valid
  | complete rest conversation ne size complete legal =>
    cases rest with
    | nil => exact absurd rfl ne
    | cons head rest =>
      exact .complete ((control :: head.1, head.2) :: rest) conversation (List.cons_ne_nil _ _)
        size complete legal

theorem fragment {payload : Bytes} (h : Continued maximum (before.add payload) frames last events) :
    Continued maximum before (⟨.continuation, false, payload⟩ :: frames) last events := by
  have hadd (rest : List (List Control × Bytes)) :
      (before.add payload).add (rest.flatMap Prod.snd)
        = before.add ((([], payload) :: rest).flatMap Prod.snd) := by
    simp only [Partial.add, List.flatMap_cons, List.append_assoc]
  cases h with
  | unfinished rest controls size valid =>
    rw [hadd] at size valid ⊢
    exact .unfinished (([], payload) :: rest) controls size valid
  | complete rest conversation ne size complete legal =>
    have hlast : rest.isEmpty = false := by
      cases rest with
      | nil => exact absurd rfl ne
      | cons _ _ => rfl
    rw [hadd] at size complete
    have hall := Continued.complete (([], payload) :: rest) conversation (List.cons_ne_nil _ _)
      size complete legal
    simpa only [continues, hlast, Bool.and_false, List.map_nil, List.nil_append, List.flatMap_cons,
      List.cons_append, List.append_assoc, Partial.add] using hall

theorem last_fragment {payload : Bytes} {conversation : Conversation}
    (legal : conversation.Legal maximum)
    (size : before.bytes.length + payload.length ≤ maximum)
    (complete : (before.add payload).Complete) :
    Continued maximum before (⟨.continuation, true, payload⟩ :: conversation.frames)
      (conversation.unfinished.map Unfinished.part)
      (.message before.binary (before.bytes ++ payload) :: conversation.events) := by
  have hall := @Continued.complete _ before [([], payload)] conversation
    (List.cons_ne_nil _ _) (by simpa [Partial.add] using size) (by simpa using complete) legal
  simpa [continues] using hall

end Continued

/-- What the frames make of what is there before them. -/
def Converses (maximum : ℕ) (frames : List Frame) (last : Option Partial) (events : List Event) :
    Option Partial → Prop
  | none => ∃ conversation : Conversation, conversation.Legal maximum ∧
      frames = conversation.frames ∧ last = conversation.unfinished.map Unfinished.part ∧
      events = conversation.events
  | some before => Continued maximum before frames last events

theorem Converses.item {frames : List Frame} {last : Option Partial} {events : List Event}
    (h : Converses maximum frames last events none) {item : Item} (hi : item.Legal maximum) :
    Converses maximum (item.frames ++ frames) last (item.events ++ events) none := by
  obtain ⟨conversation, hlegal, rfl, rfl, rfl⟩ := h
  refine ⟨{ conversation with items := item :: conversation.items }, ⟨?_, hlegal.unfinished⟩,
    ?_, rfl, ?_⟩
  · intro other hmem
    rcases List.mem_cons.mp hmem with rfl | hmem
    · exact hi
    · exact hlegal.items other hmem
  · simp only [Conversation.frames, List.flatMap_cons, List.append_assoc]
  · simp only [Conversation.events, List.flatMap_cons, List.append_assoc]

/-- A message that has begun is an item, or what is left unfinished. -/
theorem Converses.begun {binary : Bool} {first : Bytes} {frames : List Frame}
    {last : Option Partial} {events : List Event}
    (h : Continued maximum ⟨binary, first⟩ frames last events) :
    Converses maximum (⟨if binary then .binary else .text, false, first⟩ :: frames) last events
      none := by
  cases h with
  | unfinished rest controls size valid =>
    refine ⟨⟨[], some ⟨⟨binary, first, rest⟩, controls⟩⟩, ⟨nofun, ?_⟩, rfl, rfl, rfl⟩
    rintro _ ⟨⟩
    exact ⟨size, (Partial.valid_iff _).mp valid⟩
  | complete rest conversation ne size complete legal =>
    have hlast : rest.isEmpty = false := by
      cases rest with
      | nil => exact absurd rfl ne
      | cons _ _ => rfl
    have hitem := @Converses.item _ _ _ _ ⟨conversation, legal, rfl, rfl, rfl⟩ (.message ⟨binary, first, rest⟩)
      ⟨size, complete⟩
    simpa only [Item.frames, Item.events, Message.frames, Message.events, Message.controls,
      Message.payload, hlast, Bool.and_false, List.cons_append, List.append_assoc,
      List.nil_append] using hitem

theorem Begins.code_eq {code : Opcode} {before : Partial} (h : Begins none code before) :
    before.bytes = [] ∧ code = if before.binary then .binary else .text := by
  cases h <;> exact ⟨rfl, rfl⟩

theorem FollowAll.converses {part last : Option Partial} {frames : List Frame}
    {events : List Event} (h : FollowAll maximum part frames last events)
    (hp : ∀ before ∈ part, before.bytes.length ≤ maximum ∧ before.Valid) :
    Converses maximum frames last events part := by
  induction h with
  | @nil part =>
    cases part with
    | none => exact ⟨⟨[], none⟩, ⟨List.forall_mem_nil _, fun _ hmem => by cases hmem⟩, rfl, rfl, rfl⟩
    | some before =>
      obtain ⟨hsize, hvalid⟩ := hp before rfl
      have hall := @Continued.unfinished maximum before [] []
        (by simpa [Partial.add] using hsize) (by simpa [Partial.add_nil] using hvalid)
      simpa [Partial.add_nil, continues, Converses] using hall
  | @cons part mid last frame frames o o' head tail ih =>
    cases head with
    | control code fin size valid =>
      have hrest := ih hp
      set control : Control := ⟨frame.code, frame.payload, code, size, valid⟩
      have hframe : frame = control.frame := by rw [Control.frame, ← fin]
      cases part with
      | none =>
        rw [hframe]
        exact @Converses.item _ _ _ _ hrest (.control control) trivial
      | some before =>
        rw [hframe]
        exact Continued.control hrest control
    | @part before begins fin size valid =>
      have hrest := ih (by
        rintro _ ⟨⟩
        exact ⟨by simpa [Partial.add] using size, valid⟩)
      obtain ⟨code, fin', payload⟩ := frame
      simp only at fin begins hrest
      subst fin
      cases part with
      | none =>
        obtain ⟨hempty, rfl⟩ := begins.code_eq
        rw [Partial.add, hempty, List.nil_append] at hrest
        exact Converses.begun hrest
      | some other =>
        cases begins
        exact Continued.fragment hrest
    | @last before begins fin size complete =>
      obtain ⟨conversation, hlegal, rfl, rfl, rfl⟩ := ih fun _ hmem => by cases hmem
      obtain ⟨code, fin', payload⟩ := frame
      simp only at fin begins size complete
      subst fin
      cases part with
      | none =>
        obtain ⟨hempty, rfl⟩ := begins.code_eq
        have hmessage : Message.Legal maximum ⟨before.binary, payload, []⟩ := by
          rw [Partial.add, hempty, List.nil_append] at complete
          refine ⟨by simpa [Message.payload, hempty] using size, fun hb => ?_⟩
          simpa [Message.payload] using complete hb
        have hitem := @Converses.item _ _ _ _ ⟨conversation, hlegal, rfl, rfl, rfl⟩
          (.message ⟨before.binary, payload, []⟩) hmessage
        simpa [Item.frames, Item.events, Message.frames, Message.events, Message.controls,
          Message.payload, continues, hempty] using hitem
      | some other =>
        cases begins
        exact Continued.last_fragment hlegal size complete

/-! ### The reader -/

/-- The pieces are read without an error, to the end of a frame. -/
def Accepts (maximum limit : ℕ) (server : Bool) (pieces : List Bytes) (events : List Event)
    (continuing : Bool) : Prop :=
  ∃ reader message, read limit pieces { maximum, server } [] [] =
      (events, (reader, message, []), .needMore) ∧
    reader.payload = false ∧ reader.continuing = continuing

theorem atFrame_new (maximum : ℕ) (server : Bool) :
    AtFrame maximum server none ({ maximum, server }, []) :=
  ⟨rfl, rfl, rfl, rfl, fun _ => rfl, nofun⟩

theorem Reader.Alike.flags {reader other : Reader} (h : reader.Alike other) :
    other.payload = reader.payload ∧ other.continuing = reader.continuing := by
  obtain rfl | ⟨-, frame, -, rfl⟩ := h <;> exact ⟨rfl, rfl⟩

/-- Reading to the end of a frame is a run that ends between two frames. -/
theorem accepts_iff_runs {limit : ℕ} (h : maximum ≤ limit) (server : Bool) (pieces : List Bytes)
    (events : List Event) (continuing : Bool) :
    Accepts maximum limit server pieces events continuing ↔
      ∃ s, Runs (Reader.step limit) ({ maximum, server }, []) pieces.flatten events
        (.waiting s []) ∧ s.1.payload = false ∧ s.1.continuing = continuing := by
  obtain ⟨result, hruns, hreads⟩ := read_runs h server pieces
  generalize hread : read limit pieces { maximum, server } [] [] = left at hruns hreads
  obtain ⟨events', left⟩ := left
  constructor
  · rintro ⟨reader, message, heq, hp, hc⟩
    cases hread.symm.trans heq
    cases hreads with
    | more alike =>
      obtain ⟨hpayload, hcontinuing⟩ := alike.flags
      exact ⟨_, hruns, hpayload.symm.trans hp, hcontinuing.symm.trans hc⟩
  · rintro ⟨⟨reader, message⟩, hrun, hp, hc⟩
    obtain ⟨rfl, rfl⟩ := hruns.det hrun
    cases hreads with
    | more alike =>
      obtain ⟨hpayload, hcontinuing⟩ := alike.flags
      exact ⟨_, message, hread, hpayload.trans hp, hcontinuing.trans hc⟩

/-- The reader accepts the encodings of messages that are cut into fragments, with control
frames between them, and no other bytes; its events are the messages and the control
payloads in the order of their frames. -/
theorem accepts_conversation {limit : ℕ} (h : maximum ≤ limit) (server : Bool) (pieces : List Bytes)
    (events : List Event) (continuing : Bool) :
    Accepts maximum limit server pieces events continuing ↔
      ∃ conversation : Conversation, conversation.Legal maximum ∧
        Encodes server conversation.frames pieces.flatten ∧ events = conversation.events ∧
        continuing = conversation.unfinished.isSome := by
  have hi := Reader.inv_new limit h server
  have hat := atFrame_new maximum server
  rw [accepts_iff_runs h]
  constructor
  · rintro ⟨s, hrun, hp, rfl⟩
    obtain ⟨frames, part, hb, hall, hlast⟩ := frames_of_runs hi hat hrun hp
    obtain ⟨conversation, hlegal, rfl, rfl, rfl⟩ := hall.converses nofun
    refine ⟨conversation, hlegal, hb, rfl, ?_⟩
    rw [hlast.continuing, Option.isSome_map]
  · rintro ⟨conversation, hlegal, hb, rfl, rfl⟩
    obtain ⟨s, hreach, hlast⟩ := reaches_frames hlegal.follow hb hi hat
    refine ⟨s, hreach.waiting ?_, hlast.payload, ?_⟩
    · rw [Reader.step_header hlast.payload]
      rfl
    · rw [hlast.continuing, Option.isSome_map]

/-- A masked text cut within a character, with a ping between its fragments. -/
theorem accepts_conversation_fragments :
    Accepts 100 100 true
      [[0x01, 0x81, 1, 2, 3, 4, 0xc2], [0x89, 0x80, 0, 0, 0, 0, 0x80, 0x81, 0, 0, 0, 0, 0xa9]]
      [.ping [], .message false [0xc3, 0xa9]] false := by
  let conversation : Conversation :=
    ⟨[.message ⟨false, [0xc3], [([⟨.ping, [], rfl, by decide, nofun⟩], [0xa9])]⟩], none⟩
  have hlegal : conversation.Legal 100 := by
    refine ⟨fun item hmem => ?_, nofun⟩
    rw [List.mem_singleton.mp hmem]
    exact ⟨by decide, fun _ => ⟨['é'], by decide⟩⟩
  have hframes : Encodes true
      [⟨.text, false, [0xc3]⟩, ⟨.ping, true, []⟩, ⟨.continuation, true, [0xa9]⟩]
      (Frame.encode ⟨.text, false, [0xc3]⟩ (some #v[1, 2, 3, 4]) ++
        (Frame.encode ⟨.ping, true, []⟩ (some #v[0, 0, 0, 0]) ++
          (Frame.encode ⟨.continuation, true, [0xa9]⟩ (some #v[0, 0, 0, 0]) ++ []))) :=
    .cons rfl (by decide) (.cons rfl (by decide) (.cons rfl (by decide) .nil))
  refine (accepts_conversation le_rfl true _ _ _).mpr ⟨conversation, hlegal, ?_, rfl, rfl⟩
  exact cast (congrArg _ (by decide)) hframes

end BitcoinNetwork.Ws
