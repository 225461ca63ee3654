import BitcoinNetwork.Net.Channels
import Mathlib.Data.List.Basic

/-!
# The json-rpc body reader (messages/json_body.ipp, messages/rpc/body.cpp)

Characters are bytes. The incremental parser of `system::json` and the conversion of
its value to a request are parameters: the parser is fed one character at a time, is
done with the last character of an element, behind which it takes whitespace or does not,
and starts over once its value is released.
-/

namespace BitcoinNetwork.Rpc
open Net (ceilingedAdd)

abbrev Text := List UInt8

/-- Codes of the reader, those of the json parser by number. -/
inductive RpcError where
  | needMore
  | needBuffer
  | bodyLimit
  | extraData
  | incomplete
  | invalidVersion
  | requiresMethod
  | v1RequiresParams
  | v1RequiresArrayParams
  | v1RequiresId
  | readerStall
  | batchEmpty
  | batchMalformed
  | json (code : ℕ)
  deriving DecidableEq, Repr

/-! ### Characters -/

def line : UInt8 := 10
def comma : UInt8 := 44
def openBracket : UInt8 := 91
def closeBracket : UInt8 := 93
def closeBrace : UInt8 := 125

def isJsonWhitespace (c : UInt8) : Bool := c == 32 || c == 9 || c == 10 || c == 13

/-- The characters that end a document. -/
def isRpcTerminator (c : UInt8) : Bool := c == closeBrace || c == closeBracket

def isElectrumTerminator (c : UInt8) : Bool := c == line

/-! ### Requests -/

inductive Version where
  | undefined
  | invalid
  | v1
  | v2
  deriving DecidableEq, Repr

inductive Params (α : Type) where
  | value (value : α)
  | array (values : List α)
  | object (fields : List (String × α))
  deriving DecidableEq, Repr

/-- `request_t`, over the type of its json values. -/
structure Message (α : Type) where
  jsonrpc : Version := .undefined
  id : Option α := none
  method : String := ""
  params : Option (Params α) := none
  deriving DecidableEq, Repr

/-- `message_type`, whose flags are the batch state of the caller and its change. -/
structure Value (α : Type) where
  message : Message α := {}
  batch : Bool := false
  changed : Bool := false
  laxParams : Bool := false
  laxBatch : Bool := false
  deriving DecidableEq, Repr

/-- What the parser does with one more character. -/
inductive Written (σ ν : Type) where
  | more (state : σ)
  | done (value : ν)
  | fail (code : ℕ)

/-- The json parser, and `value_to` of the request model. -/
structure Json (σ ν α : Type) where
  start : σ
  write : σ → UInt8 → Written σ ν
  takesSpaces : Bool
  valueTo : ν → Except ℕ (Message α)

/-- The parser, done with its value or not. -/
inductive Document (σ ν : Type) where
  | parsing (state : σ)
  | parsed (value : ν)

variable {σ ν α : Type} (json : Json σ ν α)

/-- `to_request`: the version defaults to the first, whose requests have an array of
parameters and an id. A single parameter of the second is put in an array. -/
def toRequest (value : Value α) (model : ν) : Except RpcError (Value α) :=
  let value := { value with laxParams := false, laxBatch := false }
  match json.valueTo model with
  | .error code => .error (.json code)
  | .ok message =>
    let message :=
      if message.jsonrpc = .undefined then { message with jsonrpc := .v1 } else message
    let value := { value with message := message }
    if message.jsonrpc = .invalid then .error .invalidVersion
    else if message.method = "" then .error .requiresMethod
    else if message.jsonrpc = .v1 then
      match message.params, message.id with
      | none, _ => .error .v1RequiresParams
      | some _, none => .error .v1RequiresId
      | some (.array _), some _ => .ok value
      | some _, some _ => .error .v1RequiresArrayParams
    else
      match message.params with
      | some (.value single) =>
        .ok { value with
          laxParams := true
          message := { message with params := some (.array [single]) } }
      | _ => .ok value

/-! ### The base reader -/

def maxSize : ℕ := 2 ^ 64 - 1

/-- The members of `json::body::reader` and of `rpc::body::reader`. -/
structure Reader (σ ν α : Type) where
  terminated : Bool
  hasTerminator : Bool := false
  started : Bool := false
  opened : Bool := false
  closed : Bool := false
  separated : Bool := false
  signaled : Bool := false
  delivered : Bool := false
  document : Document σ ν
  expected : ℕ := maxSize
  total : ℕ := 0
  value : Value α := {}

/-- The result of `put`: the reader, the characters it left, and its code. -/
structure Put (σ ν α : Type) where
  reader : Reader σ ν α
  rest : Text
  code : Option RpcError := none

namespace Reader

/-- A reader of a value with the batch state of the caller, after `init`. -/
def new (terminated : Bool) (length : Option ℕ) (batch : Bool) : Reader σ ν α where
  terminated := terminated
  document := .parsing json.start
  expected := length.getD maxSize
  value := { batch := batch }

variable (reader : Reader σ ν α)

/-- `json::body::reader::done`. -/
def parsed : Bool :=
  match reader.document with
  | .parsing _ => false
  | .parsed _ => true

end Reader

/-- `write_some`: the parser stops after the document, or the whitespace behind it. -/
def writeSome : σ → Text → Document σ ν × Text × Option RpcError
  | state, [] => (.parsing state, [], none)
  | state, c :: text =>
    match json.write state c with
    | .more next => writeSome next text
    | .done value =>
      (.parsed value, if json.takesSpaces then text.dropWhile isJsonWhitespace else text, none)
    | .fail code => (.parsing state, c :: text, some (.json code))

namespace Reader
variable (reader : Reader σ ν α)

/-- `json::body::reader::put`. -/
def basePut (text : Text) : Put σ ν α :=
  if text = [] then ⟨reader, text, none⟩
  else
    let (document, rest, code) : Document σ ν × Text × Option RpcError :=
      match reader.document with
      | .parsed value =>
        let rest := text.dropWhile isJsonWhitespace
        (.parsed value, rest, if rest = [] then none else some .extraData)
      | .parsing state => writeSome json state text
    let total := ceilingedAdd reader.total (text.length - rest.length)
    ⟨{ reader with document := document, total := total }, rest,
      if code = none ∧ reader.expected < total then some .bodyLimit else code⟩

/-! ### The reader -/

/-- Termination applies to a singleton and to the close of a batch. -/
def requiresTerminator : Bool :=
  reader.terminated && (reader.closed || (!reader.value.batch && !reader.opened))

def done : Bool :=
  (reader.closed || reader.parsed) && (!reader.requiresTerminator || reader.hasTerminator)

/-- `json::body::reader::finish`, which releases the value of the parser. -/
def baseFinish : Except RpcError (Reader σ ν α × ν) :=
  if reader.done then
    match reader.document with
    | .parsed model => .ok ({ reader with document := .parsing json.start }, model)
    | .parsing _ => .error .needMore
  else .error .needMore

/-- Whitespace and the delimiters of a batch, up to the start of an element, the
close of the batch, or the end of the buffer. -/
def prologue : Reader σ ν α → Text → Except (Put σ ν α) (Reader σ ν α × Text)
  | reader, [] => .error ⟨reader, [], none⟩
  | reader, c :: text =>
    if isJsonWhitespace c then prologue reader text
    else if c = openBracket ∧ !reader.opened ∧ !reader.value.batch then
      prologue { reader with opened := true, value.changed := true } text
    else if c = comma then
      if (!reader.value.batch && !reader.opened) || reader.separated ||
          (reader.opened && !reader.delivered) then
        .error ⟨reader, c :: text, some .batchMalformed⟩
      else prologue { reader with separated := true } text
    else if c = closeBracket then
      if reader.opened && !reader.delivered then .error ⟨reader, c :: text, some .batchEmpty⟩
      else if (!reader.value.batch && !reader.opened) || reader.separated then
        .error ⟨reader, c :: text, some .batchMalformed⟩
      else .ok ({ reader with closed := true, value.changed := true }, text)
    -- a nested batch, or an element that no separator is in front of
    else if c = openBracket ∨ ((reader.value.batch || reader.opened) && !reader.separated &&
        !(reader.opened && !reader.delivered)) then
      .error ⟨reader, c :: text, some .batchMalformed⟩
    else .ok ({ reader with started := true }, c :: text)

/-- Whitespace after a delivered close. -/
def epilogue (text : Text) : Except (Put σ ν α) (Reader σ ν α × Text) :=
  if reader.closed && reader.signaled then
    match text.dropWhile isJsonWhitespace with
    | [] => .ok (reader, [])
    | rest => .error ⟨reader, rest, some .batchMalformed⟩
  else .ok (reader, text)

/-- The last terminator that the parser consumed behind the element, if any. -/
def scanTerminator : Text → Bool
  | [] => false
  | c :: before =>
    if isElectrumTerminator c then true
    else if isRpcTerminator c then false
    else scanTerminator before

/-- The parser is passed the rest of the buffer. -/
def element (text : Text) : Except (Put σ ν α) (Reader σ ν α × Text) :=
  if reader.started && !reader.parsed then
    let put := reader.basePut json text
    if put.code ≠ none ∨ put.reader.parsed = false then .error put
    else
      let segment := text.take (text.length - put.rest.length)
      .ok (if put.reader.requiresTerminator && scanTerminator segment.reverse then
        { put.reader with hasTerminator := true } else put.reader, put.rest)
  else .ok (reader, text)

/-- Whitespace after a singleton that is not terminated. Other characters start the
next message, unless the singleton was complete before the call. -/
def trailer (completed : Bool) (text : Text) : Except (Put σ ν α) (Reader σ ν α × Text) :=
  if !reader.terminated && !reader.opened && !reader.value.batch && reader.started &&
      reader.parsed then
    let rest := text.dropWhile isJsonWhitespace
    if rest = [] ∨ !completed then .ok (reader, rest)
    else .error ⟨reader, rest, some .readerStall⟩
  else .ok (reader, text)

/-- Whitespace through the terminator. -/
def terminatorLoop : Reader σ ν α → Text → Except (Put σ ν α) (Reader σ ν α × Text)
  | reader, [] => .ok (reader, [])
  | reader, c :: text =>
    if isElectrumTerminator c then .ok ({ reader with hasTerminator := true }, text)
    else if isJsonWhitespace c then terminatorLoop reader text
    else .error ⟨reader, c :: text, some .readerStall⟩

def terminator (text : Text) : Except (Put σ ν α) (Reader σ ν α × Text) :=
  if reader.requiresTerminator && !reader.hasTerminator then terminatorLoop reader text
  else .ok (reader, text)

/-- A batched message is converted, and the reader is armed for the next element. -/
def deliver (rest : Text) : Put σ ν α :=
  match reader.baseFinish json with
  | .error e => ⟨reader, rest, some e⟩
  | .ok (reader, model) =>
    match toRequest json reader.value model with
    | .error e => ⟨reader, rest, some e⟩
    | .ok value =>
      ⟨{ reader with
          value := { value with laxBatch := value.message.jsonrpc == .v1 }
          delivered := true
          started := false
          separated := false
          hasTerminator := false }, rest, some .needBuffer⟩

def delivery (rest : Text) : Put σ ν α :=
  if (reader.closed || reader.opened || reader.value.batch) &&
      (!reader.requiresTerminator || reader.hasTerminator) then
    if reader.closed && !reader.signaled then
      ⟨{ reader with signaled := true }, rest, some .needBuffer⟩
    else if reader.started && reader.parsed then reader.deliver json rest
    else ⟨reader, rest, none⟩
  else ⟨reader, rest, none⟩

/-- The parts of `put` behind the prologue. -/
def resume (completed : Bool) (text : Text) : Except (Put σ ν α) (Put σ ν α) := do
  let (reader, text) ← reader.epilogue text
  let (reader, text) ← reader.element json text
  let (reader, text) ← reader.trailer completed text
  let (reader, text) ← reader.terminator text
  return reader.delivery json text

/-- A part that returns early has the result of `put`. -/
def result (phases : Except (Put σ ν α) (Put σ ν α)) : Put σ ν α :=
  match phases with
  | .error put => put
  | .ok put => put

def put (text : Text) : Put σ ν α :=
  if text = [] then reader.basePut json text
  else
    let completed := reader.started && reader.parsed
    result do
      let (reader, text) ←
        if !reader.started && !reader.closed then reader.prologue text else .ok (reader, text)
      reader.resume json completed text

/-- For a batch, the state at the end of the message, otherwise the conversion. -/
def finish : Except RpcError (Reader σ ν α) :=
  if (reader.closed || reader.opened || reader.value.batch) && !reader.started then
    if reader.closed && reader.signaled then .ok reader else .error .needMore
  else
    match reader.baseFinish json with
    | .error e => .error e
    | .ok (reader, model) =>
      match toRequest json reader.value model with
      | .error e => .error e
      | .ok value => .ok { reader with value := value }

end Reader

end BitcoinNetwork.Rpc
