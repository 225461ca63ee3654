import BitcoinNetwork.Http.Element

/-!
# The message parser (impl/messages/http/parser.ipp, operations.ipp)

`put` consumes received bytes element by element, pausing once the header is
complete. `read` drives it as `http::read` does: consumed bytes are dropped,
what is left is presented again in front of the bytes that arrive next, and
`put` is repeated until the message is done, more is needed or it fails.
-/

namespace BitcoinNetwork.Http

/-- `parser::state`. -/
inductive ParserState where
  | startLine
  | fields
  | body
  | bodyToEof
  | chunkHeader
  | chunkBody
  | trailer
  | done
  deriving DecidableEq, Repr

/-- What does not change while a message is parsed: `system::split` of comma
lists, `max_size()` of the body container, the limits (zero is unlimited), and
whether a response has no body. -/
structure ParserConfig where
  split : Text → List Text
  maxSize : ℕ
  headerLimit : ℕ := 0
  bodyLimit : ℕ := 0
  skip : Bool := false

/-- `parser<IsRequest, contiguous_body>`. -/
structure Parser (isRequest : Bool) where
  message : Message isRequest
  frame : Framing := {}
  state : ParserState := .startLine
  header : ℕ := 0
  remaining : ℕ := 0
  total : ℕ := 0
  expectCrlf : Bool := false
  received : Bool := false
  deriving DecidableEq

/-- `parser()`. -/
def Parser.new (isRequest : Bool) : Parser isRequest := { message := Message.new isRequest }

/-- What a parse function leaves: the parser, the size consumed and the code. -/
structure Put (isRequest : Bool) where
  parser : Parser isRequest
  used : ℕ
  code : Option HttpError
  deriving DecidableEq

/-! ### Body reader (`contiguous_body::reader`) -/

/-- `init`. -/
def readerInit (maxSize : ℕ) (length : Option ℕ) : Except HttpError Text :=
  match length with
  | some length => if maxSize < length then .error .bufferOverflow else .ok []
  | none => .ok []

/-- `put`, which consumes all of its buffer. -/
def readerPut (maxSize : ℕ) (value buffer : Text) : Except HttpError Text :=
  if maxSize - value.length < buffer.length then .error .bufferOverflow
  else .ok (value ++ buffer)

namespace Parser
variable {isRequest : Bool} (config : ParserConfig)

/-- The message with the body its reader holds. -/
def withBody (parser : Parser isRequest) (body : Text) : Parser isRequest :=
  { parser with message := { parser.message with body := body } }

/-- `finish`. -/
def finish (parser : Parser isRequest) : Parser isRequest := { parser with state := .done }

/-- Enter a body state, upon which the body reader is initialized. -/
def enterBody (parser : Parser isRequest) (state : ParserState) (length : Option ℕ) :
    Parser isRequest × Option HttpError :=
  let parser := { parser with state := state }
  match readerInit config.maxSize length with
  | .ok body => (parser.withBody body, none)
  | .error e => (parser, some e)

/-- `finish_header`. -/
def finishHeader (parser : Parser isRequest) : Parser isRequest × Option HttpError :=
  if config.skip || parser.message.header.bodiless then (parser.finish, none)
  else match parser.frame.length with
    | some length =>
      let parser := { parser with remaining := length }
      if length = 0 then (parser.finish, none)
      else if config.bodyLimit ≠ 0 ∧ config.bodyLimit < length then (parser, some .bodyLimit)
      else parser.enterBody config .body (some length)
    | none =>
      if parser.frame.chunked then parser.enterBody config .chunkHeader none
      else if parser.frame.encoded then
        -- a response so encoded is read to eof
        if isRequest then (parser, some .badTransferEncoding)
        else parser.enterBody config .bodyToEof none
      -- a request without framing has no body
      else if isRequest then (parser.finish, none)
      else parser.enterBody config .bodyToEof none

/-- `header_window`: the header is parsed within the bytes remaining to the limit. -/
def headerWindow (parser : Parser isRequest) (data : Text) : Text :=
  if config.headerLimit = 0 then data
  else data.take (config.headerLimit - min config.headerLimit parser.header)

/-- `header_limited` of need_more: an incomplete element that fills the window. -/
def headerLimited (parser : Parser isRequest) (data : Text) : HttpError :=
  if config.headerLimit ≠ 0 ∧
      config.headerLimit - min config.headerLimit parser.header ≤ data.length then .headerLimit
  else .needMore

/-- `put_start_line`. -/
def putStartLine (parser : Parser isRequest) (data : Text) : Put isRequest :=
  if data = [] then ⟨parser, 0, none⟩
  else match parseStartLine isRequest (parser.headerWindow config data) with
    | .more => ⟨parser, 0, some (parser.headerLimited config data)⟩
    | .fail e => ⟨parser, 0, some e⟩
    | .done (version, start) rest =>
      let used := (parser.headerWindow config data).length - rest.length
      let header := { parser.message.header with version := version, start := start }
      ⟨{ parser with
          message := { parser.message with header := header }
          header := parser.header + used
          state := .fields }, used, none⟩

/-- One turn of the loops of `put_fields` and `put_trailer`: the parser, the size
of the field line, and whether it is the empty line that ends the fields.
Trailer fields are not retained. -/
def putField (retain : Bool) (parser : Parser isRequest) (data : Text) :
    Except HttpError (Parser isRequest × ℕ × Bool) :=
  match parseField config.split parser.frame (parser.headerWindow config data) with
  | .more => .error (parser.headerLimited config data)
  | .fail e => .error e
  | .done (line, frame) rest =>
    let used := (parser.headerWindow config data).length - rest.length
    let parser := { parser with frame := frame, header := parser.header + used }
    match line with
    | none => .ok (parser, used, true)
    | some (name, value) =>
      if retain then
        let header := parser.message.header
        let fields := header.fields.insert name value
        .ok ({ parser with
          message := { parser.message with header := { header with fields := fields } } },
          used, false)
      else .ok (parser, used, false)

/-- The field lines up to the empty line, then `last`. -/
def putFieldLines (retain : Bool) (last : Parser isRequest → Parser isRequest × Option HttpError) :
    ℕ → Parser isRequest → Text → Put isRequest
  | 0, parser, _ => ⟨parser, 0, some .needMore⟩
  | turns + 1, parser, data =>
    match parser.putField config retain data with
    | .error e => ⟨parser, 0, some e⟩
    | .ok (parser, used, true) => ⟨(last parser).1, used, (last parser).2⟩
    | .ok (parser, used, false) =>
      let next := putFieldLines retain last turns parser (data.drop used)
      { next with used := used + next.used }

/-- `put_fields`. -/
def putFields (parser : Parser isRequest) (data : Text) : Put isRequest :=
  putFieldLines config true (finishHeader config) (data.length + 1) parser data

/-- `put_trailer`. -/
def putTrailer (parser : Parser isRequest) (data : Text) : Put isRequest :=
  putFieldLines config false (fun parser => (parser.finish, none)) (data.length + 1) parser data

/-- `complete_body`. -/
def completeBody (parser : Parser isRequest) : Parser isRequest :=
  if parser.state = .chunkBody then { parser with state := .chunkHeader } else parser.finish

/-- `put_body`. -/
def putBody (parser : Parser isRequest) (data : Text) : Put isRequest :=
  let delimited := parser.state ≠ .bodyToEof
  if delimited ∧ parser.remaining = 0 then ⟨parser.completeBody, 0, none⟩
  else
    let size := if delimited then min data.length parser.remaining else data.length
    if ¬delimited ∧ config.bodyLimit ≠ 0 ∧ config.bodyLimit < parser.total + size then
      ⟨parser, 0, some .bodyLimit⟩
    else if size = 0 then ⟨parser, 0, none⟩
    else match readerPut config.maxSize parser.message.body (data.take size) with
      | .error e => ⟨parser, 0, some e⟩
      | .ok body =>
        let parser := { parser.withBody body with total := parser.total + size }
        let parser := if delimited then { parser with remaining := parser.remaining - size }
          else parser
        if delimited ∧ parser.remaining = 0 then ⟨parser.completeBody, size, none⟩
        else ⟨parser, size, none⟩

/-- `put_chunk_header`: the line end following chunk data is parsed with the
next chunk header. -/
def putChunkHeader (parser : Parser isRequest) (data : Text) : Put isRequest :=
  if data.length < lineEnd.length then ⟨parser, 0, none⟩
  else if parser.expectCrlf ∧ ¬lineEnd <+: data then ⟨parser, 0, some .badChunk⟩
  else
    let index := if parser.expectCrlf then lineEnd.length else 0
    match findChunkLine (data.drop index) with
    | .more =>
      if config.headerLimit ≠ 0 ∧ config.headerLimit ≤ data.length then
        ⟨parser, 0, some .badChunkExtension⟩
      else ⟨parser, 0, none⟩
    | .fail e => ⟨parser, 0, some e⟩
    | .done line rest =>
      match parseChunkSize line with
      | .error e => ⟨parser, 0, some e⟩
      | .ok (size, digits) =>
        if config.bodyLimit ≠ 0 ∧
            config.bodyLimit - min config.bodyLimit parser.total < size then
          ⟨parser, 0, some .bodyLimit⟩
        else if ¬validChunkExtensions line digits then ⟨parser, 0, some .badChunkExtension⟩
        else
          ⟨{ parser with
              remaining := size
              expectCrlf := true
              state := if size = 0 then .trailer else .chunkBody
              -- the trailer has the header limit, plus the final line end
              header := if size = 0 then parser.header - lineEnd.length else parser.header },
            data.length - rest.length, none⟩

/-- The switch of `put`. -/
def turn (parser : Parser isRequest) (data : Text) : Put isRequest :=
  match parser.state with
  | .startLine => parser.putStartLine config data
  | .fields => parser.putFields config data
  | .body | .bodyToEof | .chunkBody => parser.putBody config data
  | .chunkHeader => parser.putChunkHeader config data
  | .trailer => parser.putTrailer config data
  | .done => ⟨parser, 0, none⟩

/-- The loop of `put`. -/
def putLoop : ℕ → Parser isRequest → Text → Put isRequest
  | 0, parser, _ => ⟨parser, 0, some .needMore⟩
  | turns + 1, parser, data =>
    if parser.state = .done then ⟨parser, 0, none⟩
    else
      let put := parser.turn config data
      match put.code with
      | some e => ⟨put.parser, put.used, some e⟩
      | none =>
        -- the parse pauses once the header is complete
        if parser.state = .fields ∧ put.parser.state ≠ .fields then put
        else if put.used = 0 ∧ put.parser.state = parser.state then
          ⟨put.parser, 0, some .needMore⟩
        else
          let next := putLoop turns put.parser (data.drop put.used)
          { next with used := put.used + next.used }

/-- `put`. A turn consumes or changes the state, and no two in sequence only
change the state, so that twice the size bounds the turns. -/
def put (parser : Parser isRequest) (data : Text) : Put isRequest :=
  putLoop config (2 * data.length + 2) { parser with received := parser.received || data ≠ [] }
    data

/-- `put_eof`. -/
def putEof (parser : Parser isRequest) : Parser isRequest × Option HttpError :=
  if parser.state = .bodyToEof then (parser.finish, none)
  else if parser.state = .done then (parser, none)
  else (parser, some (if parser.received then .partialMessage else .endOfStream))

end Parser

/-! ### Reading -/

/-- How reading ends while the stream lasts: a message and the number of bytes
it took, too few bytes, or an error. -/
inductive ReadResult (isRequest : Bool) where
  | done (message : Message isRequest) (consumed : ℕ)
  | needMore
  | failed (code : HttpError)
  deriving DecidableEq

/-- Where `put` leaves the inner loop of `http::read`. -/
inductive ReadStatus where
  | done
  | more
  | failed (code : HttpError)

variable {isRequest : Bool} (config : ParserConfig)

/-- The inner loop of `http::read`: parse until more bytes are needed. -/
def readBuffered : ℕ → Parser isRequest → Text → Parser isRequest × Text × ReadStatus
  | 0, parser, buffer => (parser, buffer, .more)
  | turns + 1, parser, buffer =>
    let put := parser.put config buffer
    let rest := buffer.drop put.used
    if put.parser.state = .done then (put.parser, rest, .done)
    else match put.code with
      | some .needMore => (put.parser, rest, .more)
      | some e => (put.parser, rest, .failed e)
      | none =>
        if put.used = 0 then (put.parser, rest, .more)
        else readBuffered turns put.parser rest

/-- `http::read` of the bytes that arrive in pieces, the buffered bytes having
been preceded by `consumed` others. -/
def read : List Text → Parser isRequest → ℕ → Text → ReadResult isRequest
  | [], parser, consumed, buffer =>
    match readBuffered config (buffer.length + 1) parser buffer with
    | (parser, rest, .done) => .done parser.message (consumed + (buffer.length - rest.length))
    | (_, _, .failed e) => .failed e
    | (_, _, .more) => .needMore
  | piece :: pieces, parser, consumed, buffer =>
    match readBuffered config (buffer.length + 1) parser buffer with
    | (parser, rest, .done) => .done parser.message (consumed + (buffer.length - rest.length))
    | (_, _, .failed e) => .failed e
    | (parser, rest, .more) =>
      read pieces parser (consumed + (buffer.length - rest.length)) (rest ++ piece)

/-- A message read from the pieces of a stream. -/
def readMessage (isRequest : Bool) (pieces : List Text) : ReadResult isRequest :=
  read config pieces (Parser.new isRequest) 0 []

end BitcoinNetwork.Http
