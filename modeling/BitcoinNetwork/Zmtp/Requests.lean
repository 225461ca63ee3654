import BitcoinNetwork.Zmtp.Stream

/-!
# Requests read from frames (net/socket_zmtp.cpp, messages/rpc/model.hpp)

A message is the frames up to one without MORE, and is read by the role of the socket. A
command is a frame of its own, and is the request of its lower case name.
-/

namespace BitcoinNetwork.Zmtp
open Binary
open Http (ascii)

/-! ### Values (messages/rpc/model.hpp) -/

/-- `streamable`: a value that writes its own encoding, the bytes of which it may share. -/
structure Streamable where
  size : ℕ
  encoding : Bytes
  bytes : Option Bytes
  sized : encoding.length = size
  shared : ∀ chunk ∈ bytes, chunk = encoding

/-- `any_t`. -/
inductive AnyValue
  | streamable (value : Streamable)
  | chunk (bytes : Bytes)
  | other

/-- `value_t`, without the content of those alternatives that are not written as frames. -/
inductive Value
  | null
  | boolean (flag : Bool)
  | number
  | string (text : Bytes)
  | array
  | object
  | int8 (number : Int8)
  | int16 (number : Int16)
  | int32 (number : Int32)
  | int64 (number : Int64)
  | uint8 (number : UInt8)
  | uint16 (number : UInt16)
  | uint32 (number : UInt32)
  | uint64 (number : UInt64)
  | any (value : AnyValue)
  | json

/-- `params_t`. -/
inductive Params
  | value (value : Value)
  | array (values : List Value)
  | object

/-- `identity_t`. -/
inductive Identity
  | null
  | code (code : Int64)
  | string (text : Bytes)

/-- `request_t`. -/
structure Request where
  id : Option Identity := none
  method : Bytes := []
  params : Option Params := none

/-- The errors of `rpc_read` and `rpc_write`. -/
inductive SocketError
  | unexpectedMessage
  | unexpectedCommand
  | excessiveParts
  | unserializable
  | badStream
  deriving DecidableEq

/-! ### Names -/

def commandPing : Bytes := ascii "PING"
def commandPong : Bytes := ascii "PONG"
def commandSubscribe : Bytes := ascii "SUBSCRIBE"
def commandCancel : Bytes := ascii "CANCEL"
def methodPing : Bytes := ascii "ping"
def methodPong : Bytes := ascii "pong"
def methodSubscribe : Bytes := ascii "subscribe"

def ttlSize : ℕ := 2
def maximumParts : ℕ := 32

/-! ### Decoding -/

/-- `to_chunk_value`. -/
def toChunkValue (bytes : Bytes) : Value := .any (.chunk bytes)

/-- `decode_request`. -/
def decodeRequest (out : Request) (parts : List Frame) (start : ℕ) :
    Except SocketError Request :=
  match parts.drop start with
  | [] => .error .unexpectedMessage
  | part :: params =>
    if part.body = [] then .error .unexpectedMessage
    else .ok { out with
      method := part.body
      params := some (.array (params.map fun param => toChunkValue param.body)) }

/-- `decode_subscription`. -/
def decodeSubscription (out : Request) (topic : Bytes) (cancel : Bool) : Request :=
  { out with
    method := methodSubscribe
    params := some (.array [toChunkValue topic, .boolean cancel]) }

/-- `decode_command`. -/
def decodeCommand (out : Request) (role : Role) (command : Frame) : Except SocketError Request :=
  match nameOf command.body with
  | none => .error .unexpectedCommand
  | some (name, content) =>
    if name = commandPing then
      if content.length < ttlSize then .error .unexpectedCommand
      else
        let ttl := (ofBytes (content.take ttlSize)).toUInt16
        .ok { out with
          method := methodPing
          params := some (.array [.uint16 ttl, toChunkValue (content.drop ttlSize)]) }
    else if name = commandPong then
      .ok { out with method := methodPong, params := some (.array [toChunkValue content]) }
    else if role = .publisher ∧ name = commandSubscribe then
      .ok (decodeSubscription out content false)
    else if role = .publisher ∧ name = commandCancel then
      .ok (decodeSubscription out content true)
    else .error .unexpectedCommand

/-- `decode_message`, of a message that has a part. -/
def decodeMessage (out : Request) (role : Role) (parts : List Frame) (identity : Bytes) :
    Except SocketError Request :=
  let front := (parts.headD ⟨0, []⟩).body
  match role with
  | .publisher =>
    match front with
    | [] => .error .unexpectedMessage
    | flag :: topic =>
      if parts.length ≠ 1 ∨ 0x01 < flag then .error .unexpectedMessage
      else .ok (decodeSubscription out topic (flag == 0))
  | .puller => decodeRequest out parts 0
  | .replier =>
    if front ≠ [] then .error .unexpectedMessage
    else decodeRequest { out with id := some .null } parts 1
  | .router =>
    let id := if identity = [] then .null else .string identity
    decodeRequest { out with id := some id } parts (if front = [] then 1 else 0)
  | .undefined => .error .badStream

/-! ### Reading -/

/-- What `handle_zmtp_read` hands on: a command, the parts of a message, or an error. -/
inductive Handed
  | command (frame : Frame)
  | message (parts : List Frame)
  | failed (code : SocketError)
  deriving DecidableEq

/-- `handle_zmtp_read`, which goes on with the parts of the message so far. -/
def handleZmtpRead (parts : List Frame) (frame : Frame) : List Frame ⊕ Handed :=
  let parts := parts ++ [frame]
  if frame.command then
    if parts.length ≠ 1 ∨ frame.more then .inr (.failed .unexpectedCommand)
    else .inr (.command frame)
  else if ¬frame.more then .inr (.message parts)
  else if maximumParts ≤ parts.length then .inr (.failed .excessiveParts)
  else .inl parts

/-- What one read after another hands on of the frames of the stream. -/
def reads : List Frame → List Frame → List Handed
  | _, [] => []
  | parts, frame :: frames =>
    match handleZmtpRead parts frame with
    | .inl parts => reads parts frames
    | .inr handed => handed :: reads [] frames

/-- What the handler of the read is given. -/
def Handed.request (out : Request) (role : Role) (identity : Bytes) :
    Handed → Except SocketError Request
  | .command frame => decodeCommand out role frame
  | .message parts => decodeMessage out role parts identity
  | .failed code => .error code

/-! ### Messages and commands of a stream -/

/-- A part that another follows. -/
def Continues (frame : Frame) : Prop := frame.command = false ∧ frame.more = true

/-- The last part of a message. -/
def Ends (frame : Frame) : Prop := frame.command = false ∧ frame.more = false

/-- A run of parts that is continued is fewer than the most parts of a message. -/
structure Run (parts : List Frame) : Prop where
  continues : ∀ part ∈ parts, Continues part
  short : parts.length < maximumParts

/-- The messages of a stream are its runs of parts with the part that ends each, and its
commands those between messages, up to a message that is not complete. -/
inductive Assembles : List Frame → List Handed → Prop
  | pending {run : List Frame} (h : Run run) : Assembles run []
  | message {run rest : List Frame} {last : Frame} {handed : List Handed} (h : Run run)
      (ends : Ends last) (tail : Assembles rest handed) :
      Assembles (run ++ last :: rest) (.message (run ++ [last]) :: handed)
  | command {frame : Frame} {rest : List Frame} {handed : List Handed}
      (h : frame.command = true) (single : frame.more = false) (tail : Assembles rest handed) :
      Assembles (frame :: rest) (.command frame :: handed)
  | unexpected {run rest : List Frame} {frame : Frame} {handed : List Handed} (h : Run run)
      (command : frame.command = true) (within : run ≠ [] ∨ frame.more = true)
      (tail : Assembles rest handed) :
      Assembles (run ++ frame :: rest) (.failed .unexpectedCommand :: handed)
  | excessive {run rest : List Frame} {handed : List Handed}
      (continues : ∀ part ∈ run, Continues part) (full : run.length = maximumParts)
      (tail : Assembles rest handed) :
      Assembles (run ++ rest) (.failed .excessiveParts :: handed)

theorem Run.nil : Run [] := ⟨nofun, by decide⟩

/-- A run goes on with a part that is continued. -/
theorem handleZmtpRead_continues {parts : List Frame} {frame : Frame} (h : Continues frame) :
    handleZmtpRead parts frame =
      if parts.length + 1 < maximumParts then .inl (parts ++ [frame])
      else .inr (.failed .excessiveParts) := by
  unfold handleZmtpRead
  simp only [h.1, h.2, List.length_append, List.length_singleton, Bool.false_eq_true,
    not_true_eq_false, reduceIte]
  by_cases hshort : parts.length + 1 < maximumParts
  · rw [if_pos hshort, if_neg (Nat.not_le.mpr hshort)]
  · rw [if_neg hshort, if_pos (Nat.not_lt.mp hshort)]

theorem handleZmtpRead_ends {parts : List Frame} {frame : Frame} (h : Ends frame) :
    handleZmtpRead parts frame = .inr (.message (parts ++ [frame])) := by
  unfold handleZmtpRead
  simp [h.1, h.2]

theorem handleZmtpRead_command {parts : List Frame} {frame : Frame}
    (h : frame.command = true) : handleZmtpRead parts frame =
      if parts = [] ∧ frame.more = false then .inr (.command frame)
      else .inr (.failed .unexpectedCommand) := by
  unfold handleZmtpRead
  cases parts with
  | nil => cases frame.more <;> simp [h]
  | cons part parts => simp [h]

/-- The parts of a run are kept for what follows it. -/
theorem reads_run {run : List Frame} (h : ∀ part ∈ run, Continues part) (parts : List Frame)
    (hshort : parts.length + run.length < maximumParts) (rest : List Frame) :
    reads parts (run ++ rest) = reads (parts ++ run) rest := by
  induction run generalizing parts with
  | nil => rw [List.append_nil, List.nil_append]
  | cons part run ih =>
    rw [List.length_cons] at hshort
    obtain ⟨hpart, hrun⟩ := List.forall_mem_cons.mp h
    rw [List.cons_append, reads, handleZmtpRead_continues hpart, if_pos (by omega)]
    dsimp only
    rw [ih hrun, List.append_assoc]
    · rfl
    · rw [List.length_append, List.length_singleton]
      omega

theorem Assembles.reads {frames : List Frame} {handed : List Handed}
    (h : Assembles frames handed) : reads [] frames = handed := by
  have hrun {run : List Frame} (hrun : Run run) (rest : List Frame) :
      Zmtp.reads [] (run ++ rest) = Zmtp.reads run rest :=
    reads_run hrun.continues [] (by simpa using hrun.short) rest
  induction h with
  | @pending run h =>
    have hreads := hrun h []
    rw [List.append_nil] at hreads
    rw [hreads]
    rfl
  | message h ends _ ih =>
    rw [hrun h, Zmtp.reads, handleZmtpRead_ends ends]
    exact congrArg _ ih
  | command h single _ ih =>
    rw [Zmtp.reads, handleZmtpRead_command h, if_pos ⟨rfl, single⟩]
    exact congrArg _ ih
  | @unexpected run rest frame handed h command within _ ih =>
    rw [hrun h, Zmtp.reads, handleZmtpRead_command command, if_neg]
    · exact congrArg _ ih
    · rintro ⟨hnil, hmore⟩
      rcases within with hne | hmore'
      · exact hne hnil
      · rw [hmore] at hmore'
        cases hmore'
  | @excessive run rest handed continues full _ ih =>
    -- the last part of the run is the one that is too many
    obtain ⟨front, last, rfl⟩ : ∃ front last, run = front ++ [last] := by
      rcases List.eq_nil_or_concat run with rfl | ⟨front, last, hconcat⟩
      · cases full
      · exact ⟨front, last, by rw [hconcat, List.concat_eq_append]⟩
    obtain ⟨hfront, hlast⟩ := List.forall_mem_append.mp continues
    rw [List.length_append, List.length_singleton] at full
    rw [List.append_assoc, hrun ⟨hfront, by omega⟩, List.singleton_append, Zmtp.reads,
      handleZmtpRead_continues (hlast last (List.mem_singleton_self last)), if_neg (by omega)]
    exact congrArg _ ih

/-- Frames that follow a run, of which there are no others than those of the stream. -/
theorem assembles_reads (frames : List Frame) {run : List Frame} (h : Run run) :
    Assembles (run ++ frames) (reads run frames) := by
  induction frames generalizing run with
  | nil =>
    rw [List.append_nil]
    exact .pending h
  | cons frame frames ih =>
    have htail := ih Run.nil
    cases hcommand : frame.command with
    | true =>
      rw [reads, handleZmtpRead_command hcommand]
      by_cases hsingle : run = [] ∧ frame.more = false
      · rw [if_pos hsingle, hsingle.1]
        exact .command hcommand hsingle.2 htail
      · rw [if_neg hsingle]
        refine .unexpected h hcommand ?_ htail
        by_cases hnil : run = []
        · exact .inr (by simpa [hnil] using hsingle)
        · exact .inl hnil
    | false =>
      cases hmore : frame.more with
      | false =>
        rw [reads, handleZmtpRead_ends ⟨hcommand, hmore⟩]
        exact .message h ⟨hcommand, hmore⟩ htail
      | true =>
        have hcontinues : ∀ part ∈ run ++ [frame], Continues part :=
          List.forall_mem_append.mpr
            ⟨h.continues, List.forall_mem_singleton.mpr ⟨hcommand, hmore⟩⟩
        have hlength : (run ++ [frame]).length = run.length + 1 := by
          rw [List.length_append, List.length_singleton]
        have happend : run ++ frame :: frames = (run ++ [frame]) ++ frames := by
          rw [List.append_assoc, List.singleton_append]
        rw [reads, handleZmtpRead_continues ⟨hcommand, hmore⟩, happend]
        by_cases hshort : run.length + 1 < maximumParts
        · rw [if_pos hshort]
          exact ih ⟨hcontinues, by rw [hlength]; exact hshort⟩
        · rw [if_neg hshort]
          have hfull := h.short
          exact .excessive hcontinues (by rw [hlength]; omega) htail

/-- What is handed on is what the stream is made of. -/
theorem reads_eq_iff (frames : List Frame) (handed : List Handed) :
    reads [] frames = handed ↔ Assembles frames handed := by
  constructor
  · rintro rfl
    exact assembles_reads frames Run.nil
  · exact Assembles.reads

end BitcoinNetwork.Zmtp
