import BitcoinNetwork.Http.Framing

/-!
# The message serializer (messages/http/serializer.cpp, impl/messages/http/serializer.ipp)

The header is yielded with the first body buffers, and each buffer of the body
writer as a chunk where the message is chunked. A writer is what its `init` and
its successive `get` report, none standing for the end of the body.
-/

namespace BitcoinNetwork.Http

/-! ### Header -/

section serialize
variable (serialize : ℕ → Text)

/-- `version_text`. -/
def versionText (version : ℕ) : Text :=
  ascii "HTTP/" ++ serialize (version / 10) ++ ascii "." ++ serialize (version % 10)

/-- `append_fields`. -/
def appendFields (fields : Fields) : Text :=
  (fields.entries.flatMap fun entry => entry.name ++ ascii ": " ++ entry.value ++ lineEnd) ++ lineEnd

/-- `serialize_header`. -/
def serializeHeader : {isRequest : Bool} → Header isRequest → Text
  | true, header =>
    let line : RequestLine := header.start
    line.methodString ++ ascii " " ++ line.target ++ ascii " " ++
      versionText serialize header.version ++ lineEnd ++ appendFields header.fields
  | false, header =>
    let line : StatusLine := header.start
    versionText serialize header.version ++ ascii " " ++ serialize line.code ++ ascii " " ++
      line.reason ++ lineEnd ++ appendFields header.fields

end serialize

/-! ### Chunks -/

/-- A character of `0123456789abcdef`. -/
def hexDigit (n : ℕ) : UInt8 := (ascii "0123456789abcdef").getD n 0

/-- The loop of `chunk_header`, of which every turn but the last leaves a smaller size. -/
def hexText : ℕ → ℕ → Text
  | 0, _ => []
  | turns + 1, size =>
    let front := if size / 16 = 0 then [] else hexText turns (size / 16)
    front ++ [hexDigit (size % 16)]

/-- `chunk_header`. -/
def chunkHeader (size : ℕ) : Text := hexText (size + 1) size ++ lineEnd

/-- `last_chunk`. -/
def lastChunk : Text := ascii "0\r\n\r\n"

/-! ### Serializer -/

inductive SerializerState where
  | header
  | body
  | done
  deriving DecidableEq, Repr

/-- What a body writer reports: the code of `init`, and of each `get` its code or
the buffer and whether more follows it, or none. -/
structure Writer where
  init : Option HttpError := none
  results : List (Except HttpError (Option (Text × Bool)))

/-- `serializer<IsRequest, Body>`. -/
structure Serializer (isRequest : Bool) where
  message : Message isRequest
  writer : Writer
  chunked : Bool
  state : SerializerState := .header

namespace Serializer
variable {isRequest : Bool}

/-- `serializer(message)`. -/
def new (split : Text → List Text) (message : Message isRequest) (writer : Writer) :
    Serializer isRequest where
  message := message
  writer := writer
  chunked := message.header.chunked split

/-- `writer_.get`, which reports none past its results. -/
def get (s : Serializer isRequest) :
    Except HttpError (Option (Text × Bool)) × Serializer isRequest :=
  match s.writer.results with
  | [] => (.ok none, s)
  | result :: results => (result, { s with writer := { s.writer with results := results } })

/-- `append_body`, of which the buffers are those it appends. -/
def appendBody (s : Serializer isRequest) : Except HttpError (List Text) × Serializer isRequest :=
  match s.get with
  | (.error e, s) => (.error e, s)
  | (.ok out, s) =>
    let more := match out with
      | some (_, more) => more
      | none => false
    let data := match out with
      | some (data, _) => data
      | none => []
    let s := if more then s else { s with state := .done }
    if !s.chunked then (.ok (if data.length = 0 then [] else [data]), s)
    else
      let chunk := if data.length = 0 then [] else [chunkHeader data.length, data, lineEnd]
      (.ok (chunk ++ if more then [] else [lastChunk]), s)

/-- `next`. -/
def next (serialize : ℕ → Text) (s : Serializer isRequest) :
    Except HttpError (List Text) × Serializer isRequest :=
  match s.state with
  | .header =>
    match s.writer.init with
    | some e => (.error e, s)
    | none =>
      match { s with state := .body }.appendBody with
      | (.ok buffers, s) => (.ok (serializeHeader serialize s.message.header :: buffers), s)
      | (.error e, s) => (.error e, s)
  | .body => s.appendBody
  | .done => (.ok [], s)

/-- The buffers of `next` until `is_done`, or none at an error. -/
def drain (serialize : ℕ → Text) : ℕ → Serializer isRequest → Option Text
  | 0, s => if s.state = .done then some [] else none
  | turns + 1, s =>
    if s.state = .done then some []
    else match s.next serialize with
      | (.error _, _) => none
      | (.ok buffers, s) => (drain serialize turns s).map (buffers.flatten ++ ·)

end Serializer
end BitcoinNetwork.Http
