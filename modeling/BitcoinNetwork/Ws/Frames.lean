import BitcoinNetwork.Ws.Encoding
import BitcoinNetwork.Ws.ReaderMachine
import BitcoinNetwork.Ws.Utf8

/-!
# Frames that may follow those before them (rfc6455 5.4, ws/reader.cpp)

What a sequence of frames means: a data frame begins or continues a message,
which a final frame completes, and a control frame may come between any two.
A reader at the end of a frame takes the next one whole exactly if it follows.
-/

namespace BitcoinNetwork.Ws
open Binary Incremental

/-! ### Frames -/

/-- A frame before it is encoded. -/
structure Frame where
  code : Opcode
  fin : Bool
  payload : Bytes
  deriving DecidableEq

/-- The bytes of a frame, masked if there is a key. -/
def Frame.encode (frame : Frame) (key : Option Mask) : Bytes :=
  serializeHeader frame.code frame.fin frame.payload.length key ++
    match key with
    | some key => applyMask frame.payload key 0
    | none => frame.payload

/-- Bytes that encode frames, with any key for each if they are masked. -/
inductive Encodes (masked : Bool) : List Frame → Bytes → Prop where
  | nil : Encodes masked [] []
  | cons {frame : Frame} {frames : List Frame} {bytes : Bytes} {key : Option Mask}
      (keyed : key.isSome = masked) (size : frame.payload.length < 2 ^ 63)
      (tail : Encodes masked frames bytes) :
      Encodes masked (frame :: frames) (frame.encode key ++ bytes)

/-- A close payload is empty, or a valid code and a reason in utf8. -/
def ValidClose (payload : Bytes) : Prop :=
  payload = [] ∨ ∃ high low reason, payload = high :: low :: reason ∧
    isValidCloseCode (ofBytes [high, low]) = true ∧ ValidUtf8 reason

theorem parseClose_iff (payload : Bytes) :
    (∃ value, parseClose payload = .ok value) ↔ ValidClose payload := by
  unfold ValidClose
  match payload with
  | [] => exact iff_of_true ⟨_, rfl⟩ (.inl rfl)
  | [_] => exact iff_of_false (fun ⟨_, h⟩ => by cases h) (by simp)
  | high :: low :: reason =>
    have hvalid := Utf8Validator.accepts_iff reason
    unfold Utf8Validator.Accepts at hvalid
    simp only [parseClose, List.cons_ne_nil, false_or]
    by_cases hcode : isValidCloseCode (ofBytes [high, low]) = true
    · by_cases htext : ValidUtf8 reason
      · obtain ⟨hwrite, hfinish⟩ := hvalid.mpr htext
        rw [if_neg (not_not.mpr hcode), if_neg (by simp [hwrite, hfinish])]
        exact iff_of_true ⟨_, rfl⟩ ⟨high, low, reason, rfl, hcode, htext⟩
      · have hbad := mt hvalid.mp htext
        refine iff_of_false ?_ fun ⟨_, _, _, heq, _, hc⟩ => ?_
        · rw [if_neg (not_not.mpr hcode), if_pos (by
            by_contra hn
            rw [not_or, not_not, not_not] at hn
            exact hbad hn)]
          exact fun ⟨_, h⟩ => by cases h
        · cases heq
          exact htext hc
    · refine iff_of_false ?_ fun ⟨_, _, _, heq, hc, _⟩ => ?_
      · rw [if_pos hcode]
        exact fun ⟨_, h⟩ => by cases h
      · cases heq
        exact hcode hc

/-! ### Sequences of frames -/

/-- The event of a control frame. -/
def controlEvent : Opcode → Bytes → Event
  | .ping, payload => .ping payload
  | .pong, payload => .pong payload
  | _, payload => .close payload

/-- A message of which frames are to come. -/
structure Partial where
  binary : Bool
  bytes : Bytes
  deriving DecidableEq

namespace Partial

def add (part : Partial) (payload : Bytes) : Partial := { part with bytes := part.bytes ++ payload }

/-- Text that the validator has not refused. -/
def Valid (part : Partial) : Prop :=
  part.binary = false → (Utf8Validator.write {} part.bytes).1 = true

/-- Text that is valid. -/
def Complete (part : Partial) : Prop := part.binary = false → ValidUtf8 part.bytes

theorem Complete.valid {part : Partial} (h : part.Complete) : part.Valid := fun hb =>
  ((Utf8Validator.accepts_iff part.bytes).mpr (h hb)).1

theorem add_nil (part : Partial) : part.add [] = part := by
  simp only [add, List.append_nil]

end Partial

/-- A data frame begins a message if there is none, and continues it otherwise. -/
inductive Begins : Option Partial → Opcode → Partial → Prop where
  | text : Begins none .text ⟨false, []⟩
  | binary : Begins none .binary ⟨true, []⟩
  | continuation (part : Partial) : Begins (some part) .continuation part

/-- A frame that may come next, with what it leaves unfinished and the events it has. -/
inductive Follows (maximum : ℕ) :
    Option Partial → Frame → Option Partial → List Event → Prop where
  | control {part : Option Partial} {frame : Frame} (code : frame.code.isControl = true)
      (fin : frame.fin = true) (size : frame.payload.length ≤ maximumControl)
      (valid : frame.code = .close → ValidClose frame.payload) :
      Follows maximum part frame part [controlEvent frame.code frame.payload]
  | part {part : Option Partial} {frame : Frame} {before : Partial}
      (begins : Begins part frame.code before) (fin : frame.fin = false)
      (size : before.bytes.length + frame.payload.length ≤ maximum)
      (valid : (before.add frame.payload).Valid) :
      Follows maximum part frame (some (before.add frame.payload)) []
  | last {part : Option Partial} {frame : Frame} {before : Partial}
      (begins : Begins part frame.code before) (fin : frame.fin = true)
      (size : before.bytes.length + frame.payload.length ≤ maximum)
      (complete : (before.add frame.payload).Complete) :
      Follows maximum part frame none [.message before.binary (before.bytes ++ frame.payload)]

theorem Begins.det {part : Option Partial} {code : Opcode} {a b : Partial}
    (h : Begins part code a) (h' : Begins part code b) : a = b := by
  cases h <;> cases h' <;> rfl

theorem Begins.isControl {part : Option Partial} {code : Opcode} {before : Partial}
    (h : Begins part code before) : code.isControl = false := by
  cases h <;> rfl

theorem Follows.det {maximum : ℕ} {part a b : Option Partial} {frame : Frame} {o o' : List Event}
    (h : Follows maximum part frame a o) (h' : Follows maximum part frame b o') :
    a = b ∧ o = o' := by
  cases h with
  | control code =>
    cases h' with
    | control => exact ⟨rfl, rfl⟩
    | part begins => rw [begins.isControl] at code; cases code
    | last begins => rw [begins.isControl] at code; cases code
  | part begins fin =>
    cases h' with
    | control code => rw [begins.isControl] at code; cases code
    | part begins' => rw [begins.det begins']; exact ⟨rfl, rfl⟩
    | last _ fin' => rw [fin] at fin'; cases fin'
  | last begins fin =>
    cases h' with
    | control code => rw [begins.isControl] at code; cases code
    | part _ fin' => rw [fin] at fin'; cases fin'
    | last begins' => rw [begins.det begins']; exact ⟨rfl, rfl⟩

/-- Frames each of which follows those before it. -/
inductive FollowAll (maximum : ℕ) :
    Option Partial → List Frame → Option Partial → List Event → Prop where
  | nil {part : Option Partial} : FollowAll maximum part [] part []
  | cons {part mid last : Option Partial} {frame : Frame} {frames : List Frame}
      {o o' : List Event} (head : Follows maximum part frame mid o)
      (tail : FollowAll maximum mid frames last o') :
      FollowAll maximum part (frame :: frames) last (o ++ o')

theorem FollowAll.append {maximum : ℕ} {a b c : Option Partial} {xs ys : List Frame}
    {o o' : List Event} (h : FollowAll maximum a xs b o) (h' : FollowAll maximum b ys c o') :
    FollowAll maximum a (xs ++ ys) c (o ++ o') := by
  induction h with
  | nil => exact h'
  | cons head _ ih =>
    rw [List.append_assoc]
    exact .cons head (ih h')

end BitcoinNetwork.Ws
