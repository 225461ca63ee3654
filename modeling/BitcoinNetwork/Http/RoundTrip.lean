import BitcoinNetwork.Http.Reading
import BitcoinNetwork.Http.Written

/-!
# What the serializer writes the parser reads (messages/http/serializer.cpp, parser.cpp)

A prepared message of http 1.1 with a body is chunked. Its bytes are taken
element by element: the start line and each field line where they end, and
each chunk line with the line end of the chunk before it.
-/

namespace BitcoinNetwork.Http
open Incremental

/-! ### Messages -/

/-- A start line that can be written, of a message that may have a body. -/
def IsStartLine : {isRequest : Bool} → StartLine isRequest → Prop
  | true, line => IsToken (RequestLine.methodString line) ∧ RequestLine.target line ≠ [] ∧
      ∀ c ∈ RequestLine.target line, isTargetChar c = true
  | false, line => 200 ≤ StatusLine.code line ∧ StatusLine.code line ≤ 999 ∧
      StatusLine.code line ≠ 204 ∧ StatusLine.code line ≠ 304 ∧
      IsVisible (StatusLine.reasonText line) ∧ IsTrimmed (StatusLine.reasonText line)

/-- What the accessors report of two start lines is the same. -/
def SameStart : {isRequest : Bool} → StartLine isRequest → StartLine isRequest → Prop
  | true, a, b => a = b
  | false, a, b => StatusLine.code a = StatusLine.code b ∧ StatusLine.reason a = StatusLine.reason b

/-- A message that can be written: the header of an http 1.1 message with a body. -/
structure Writable {isRequest : Bool} (header : Header isRequest) : Prop where
  version : header.version = version11
  start : IsStartLine header.start
  names : ∀ entry ∈ header.fields.entries, IsToken entry.name
  values : ∀ entry ∈ header.fields.entries, IsVisible entry.value ∧ IsTrimmed entry.value
  connection : ∀ entry ∈ header.fields.entries,
    iequals entry.name Field.connection.toString = true → IsTokenList entry.value
  encoding : ∀ entry ∈ header.fields.entries,
    iequals entry.name Field.transferEncoding.toString = false

/-- The values of Proxy-Connection are lists of tokens. -/
def ProxyLists {isRequest : Bool} (header : Header isRequest) : Prop :=
  ∀ entry ∈ header.fields.entries,
    iequals entry.name (ascii "Proxy-Connection") = true → IsTokenList entry.value

/-- The buffers of a writer, up to none or the last of them, with the body they make. -/
inductive Delivers : List (Except HttpError (Option (Text × Bool))) → Text → Prop where
  | exhausted : Delivers [] []
  | none {results} : Delivers (.ok none :: results) []
  | last {data results} (size : data.length < 2 ^ 64) :
      Delivers (.ok (some (data, false)) :: results) data
  | more {data results body} (size : data.length < 2 ^ 64) (tail : Delivers results body) :
      Delivers (.ok (some (data, true)) :: results) (data ++ body)

/-- A prepared message that is written is read as it was, however its bytes arrive. -/
def RoundTrips {isRequest : Bool} (config : ParserConfig) (serialize : ℕ → Text)
    (message : Message isRequest) (results : List (Except HttpError (Option (Text × Bool))))
    (body : Text) : Prop :=
  let prepared := message.preparePayload config.split
  ∃ text parsed,
    (Serializer.new config.split prepared ⟨none, results⟩).drain serialize (results.length + 1)
      = some text ∧
    (∀ pieces : List Text, pieces.flatten = text →
      readMessage config isRequest pieces = .done parsed text.length) ∧
    parsed.header.version = prepared.header.version ∧
    SameStart parsed.header.start prepared.header.start ∧
    parsed.header.fields = prepared.header.fields ∧ parsed.body = body

/-! ### The buffers of the serializer -/

/-- A chunk as `append_body` yields it. -/
def chunkText (data : Text) : Text := chunkHeader data.length ++ data ++ lineEnd

/-- Data that a chunk can have. -/
def IsChunk (data : Text) : Prop := data ≠ [] ∧ data.length < 2 ^ 64

namespace Serializer
variable {isRequest : Bool} (serialize : ℕ → Text)

theorem drain_done {s : Serializer isRequest} (h : s.state = .done) (turns : ℕ) :
    s.drain serialize turns = some [] := by
  cases turns <;> rw [drain, if_pos h]

/-- The first buffers are those of the body behind the header. -/
theorem drain_header {s : Serializer isRequest} (hs : s.state = .header)
    (hi : s.writer.init = none) (turns : ℕ) : s.drain serialize (turns + 1) =
      ({ s with state := .body }.drain serialize (turns + 1)).map
        (serializeHeader serialize s.message.header ++ ·) := by
  have hne : s.state ≠ .done := by simp [hs]
  rw [drain, drain, if_neg hne, if_neg (by simp)]
  simp only [next, hs, hi]
  have hsame : ({ s with state := .body } : Serializer isRequest).appendBody.2.message
      = s.message := by
    simp only [appendBody, get]
    cases s.writer.results with
    | nil => cases hc : s.chunked <;> rfl
    | cons result results =>
      rcases result with e | _ | ⟨data, _ | _⟩ <;> cases hc : s.chunked <;> rfl
  generalize hput : ({ s with state := .body } : Serializer isRequest).appendBody = put at hsame ⊢
  obtain ⟨_ | buffers, after⟩ := put
  · rfl
  · simp only [List.flatten_cons, List.append_assoc] at hsame ⊢
    rw [hsame]
    cases after.drain serialize turns <;> rfl

/-- A chunked body is the chunks of its buffers that are not empty, and the last chunk. -/
theorem drain_body {s : Serializer isRequest} (hs : s.state = .body) (hc : s.chunked = true)
    {body : Text} (h : Delivers s.writer.results body) :
    ∃ chunks : List Text, (∀ data ∈ chunks, IsChunk data) ∧ chunks.flatten = body ∧
      s.drain serialize (s.writer.results.length + 1)
        = some (chunks.flatMap chunkText ++ lastChunk) := by
  have hne : s.state ≠ .done := by simp [hs]
  generalize hr : s.writer.results = results at h
  induction h generalizing s with
  | exhausted =>
    refine ⟨[], nofun, rfl, ?_⟩
    rw [drain, if_neg hne]
    simp only [next, hs, appendBody, get, hr, hc]
    simp [drain_done]
  | none =>
    refine ⟨[], nofun, rfl, ?_⟩
    rw [drain, if_neg hne]
    simp only [next, hs, appendBody, get, hr, hc]
    simp [drain_done]
  | @last data results size =>
    rw [drain, if_neg hne]
    simp only [next, hs, appendBody, get, hr, hc]
    by_cases hd : data = []
    · refine ⟨[], nofun, hd.symm, ?_⟩
      simp [drain_done, hd]
    · refine ⟨[data], by simpa using ⟨hd, size⟩, by simp, ?_⟩
      simp [drain_done, hd, chunkText]
  | @more data results body size tail ih =>
    obtain ⟨chunks, hchunks, hbody, hdrain⟩ := ih (s := { s with writer.results := results })
      hs hc hne rfl
    rw [drain, if_neg hne]
    simp only [next, hs, appendBody, get, hr, hc]
    simp only [hs, hc] at hdrain
    by_cases hd : data = []
    · refine ⟨chunks, hchunks, by rw [hbody, hd, List.nil_append], ?_⟩
      simp [hdrain, hd]
    · refine ⟨data :: chunks, ?_, by rw [List.flatten_cons, hbody], ?_⟩
      · intro d hmem
        rcases List.mem_cons.mp hmem with rfl | hmem
        · exact ⟨hd, size⟩
        · exact hchunks d hmem
      · simp [hdrain, hd, chunkText]

end Serializer

/-! ### The prepared header -/

/-- The field that `chunked` adds. -/
def codingEntry : Entry := ⟨.transferEncoding, Field.transferEncoding.toString, chunkedToken⟩

section prepared
variable {isRequest : Bool} {split : Text → List Text}

theorem Writable.bodiless {header : Header isRequest} (h : Writable header) :
    header.bodiless = false := by
  cases isRequest with
  | true => rfl
  | false =>
    obtain ⟨hlow, _, hno, hnot, _⟩ := h.start
    simp only [Header.bodiless, StatusLine.bodiless, Bool.or_eq_false_iff, Bool.and_eq_false_iff,
      decide_eq_false_iff_not, beq_eq_false_iff_ne]
    exact ⟨⟨.inr (by omega), hno⟩, hnot⟩

theorem filterTokens_nil (hsplit : SplitsLists split) (matching : Text → Bool) :
    filterTokens split [] matching = [] := by
  unfold filterTokens
  rcases hsplit [] with h | h <;> rw [h] <;> rfl

theorem Writable.prepared_header (hsplit : SplitsLists split) {message : Message isRequest}
    (h : Writable message.header) : (message.preparePayload split).header =
      { message.header with
        fields := (message.header.fields.eraseField .contentLength).setField .transferEncoding
          chunkedToken } := by
  have hnone : message.header.fields.find Field.transferEncoding.toString = none := by
    simp only [Fields.find, List.find?_eq_none]
    exact fun entry hentry => by simp [h.encoding entry hentry]
  have hlist : message.header.fields.get .transferEncoding = [] := by
    simp only [Fields.get, hnone]
  have hversion : decide (version11 ≤ message.header.version) = true := by simp [h.version]
  have hempty : chunkedToken.isEmpty = false := by decide
  simp only [Message.preparePayload, h.bodiless, Bool.false_eq_true, reduceIte, hversion,
    Header.setChunked, hlist, filterTokens_nil hsplit, Bool.not_true, List.isEmpty_nil, hempty]

/-- The fields without Content-Length, then the chunked coding. -/
theorem Writable.prepared_entries (hsplit : SplitsLists split) {message : Message isRequest}
    (h : Writable message.header) : (message.preparePayload split).header.fields.entries =
      (message.header.fields.entries.filter fun x =>
        !iequals x.name Field.contentLength.toString) ++ [codingEntry] := by
  have hkept : ((message.header.fields.eraseField .contentLength).eraseField
      .transferEncoding).entries = message.header.fields.entries.filter fun x =>
        !iequals x.name Field.contentLength.toString := by
    refine List.filter_eq_self.mpr fun entry hentry => ?_
    simp [h.encoding entry (List.mem_filter.mp hentry).1]
  rw [h.prepared_header hsplit, Fields.setField, Fields.insertField_of_absent, hkept]
  · rfl
  · exact Fields.find_erase _ _

theorem Writable.prepared_chunked (hsplit : SplitsLists split) {message : Message isRequest}
    (h : Writable message.header) :
    (message.preparePayload split).header.chunked split = true := by
  have hcoding : (message.preparePayload split).header.fields.get .transferEncoding
      = chunkedToken := by
    have hfind : (message.preparePayload split).header.fields.find
        Field.transferEncoding.toString = some codingEntry := by
      rw [Fields.find, h.prepared_entries hsplit, List.find?_append,
        List.find?_eq_none.mpr]
      · decide
      · exact fun entry hentry => by simp [h.encoding entry (List.mem_filter.mp hentry).1]
    simp only [Fields.get, hfind]
    rfl
  have hitems : split chunkedToken = [chunkedToken] := by
    rcases hsplit chunkedToken with hs | hs <;> rw [hs] <;> decide
  simp only [Header.chunked, hcoding, hitems, List.getLast?_singleton]
  exact iequals_refl _

/-- No field but the coding determines the framing. -/
theorem Writable.unframed {header : Header isRequest} (h : Writable header)
    (hproxy : ProxyLists header) {entry : Entry} (he : entry ∈ header.fields.entries)
    (hlength : iequals entry.name Field.contentLength.toString = false) (frame : Framing) :
    frameField split frame (framingField entry.name) entry.value = .ok frame := by
  have hcontent : toField entry.name ≠ .contentLength := fun hc => by
    rw [(toField_eq_iff (by decide)).mp hc] at hlength
    cases hlength
  have hcoding : toField entry.name ≠ .transferEncoding := fun hc => by
    have hnot := h.encoding entry he
    rw [(toField_eq_iff (by decide)).mp hc] at hnot
    cases hnot
  unfold framingField
  split
  · rename_i hp
    have hvalid := tokenList_valid (hproxy entry he hp)
    simp only [frameField, hvalid, reduceIte]
  · by_cases hconn : toField entry.name = .connection
    · have hvalid := tokenList_valid
        (h.connection entry he ((toField_eq_iff (by decide)).mp hconn))
      simp only [frameField, hconn, hvalid, reduceIte]
    · simp only [frameField, hconn, hcontent, hcoding, reduceIte]

theorem frameField_coding : frameField split {} (framingField codingEntry.name) codingEntry.value
    = .ok { chunked := true } := by
  have hname : framingField codingEntry.name = .transferEncoding := by decide
  have hlist : tokenList codingEntry.value = ([chunkedToken], true) := by decide
  simp only [frameField, hname, hlist]
  rfl

end prepared

/-! ### The elements of the machine -/

/-- What the start line and a field add to the text. -/
def startText (serialize : ℕ → Text) : {isRequest : Bool} → Header isRequest → Text
  | true, header =>
    let line : RequestLine := header.start
    line.methodString ++ ascii " " ++ line.target ++ ascii " " ++
      versionText serialize header.version ++ lineEnd
  | false, header =>
    let line : StatusLine := header.start
    versionText serialize header.version ++ ascii " " ++ serialize line.code ++ ascii " " ++
      line.reason ++ lineEnd

def entryText (entry : Entry) : Text := entry.name ++ ascii ": " ++ entry.value ++ lineEnd

theorem serializeHeader_eq (serialize : ℕ → Text) {isRequest : Bool} (header : Header isRequest) :
    serializeHeader serialize header
      = startText serialize header ++ (header.fields.entries.flatMap entryText ++ lineEnd) := by
  cases isRequest <;> rfl

theorem statusString_visible (code : ℕ) : IsVisible (statusString code) := by
  have hall : statuses.all (fun item => item.2.all fun c => !isControl c) = true := by
    decide
  have hnone : (ascii "<unknown-status>").all (fun c => !isControl c) = true := by decide
  simp only [List.all_eq_true, Bool.not_eq_true'] at hall hnone
  unfold statusString
  split
  · rename_i item hitem
    exact hall item (List.mem_of_find?_eq_some hitem)
  · exact hnone

theorem parseStartLine_startText {serialize : ℕ → Text}
    (hserialize : ∀ n, serialize n = ascii (toString n)) {isRequest : Bool}
    {header : Header isRequest} (hversion : header.version = version11)
    (hstart : IsStartLine header.start) (rest : Text) :
    ∃ start, SameStart start header.start ∧
      parseStartLine isRequest (startText serialize header ++ rest)
        = .done (version11, start) rest := by
  have hv : versionText serialize header.version = ascii "HTTP/1.1" := by
    rw [hversion, versionText, hserialize, hserialize]
    decide +kernel
  cases isRequest with
  | true =>
    obtain ⟨hmethod, hne, htarget⟩ := hstart
    refine ⟨header.start, rfl, ?_⟩
    simp only [startText, hv]
    rw [parseStartLine, parseRequestLine_append hmethod hne htarget,
      RequestLine.ofMethodString_methodString _ hmethod.1]
  | false =>
    obtain ⟨hlow, hhigh, _, _, hvisible, _⟩ := hstart
    refine ⟨⟨StatusLine.code header.start, StatusLine.reason header.start⟩, ⟨rfl, ?_⟩, ?_⟩
    · simp only [StatusLine.reason]
      by_cases hnil : StatusLine.reasonText header.start = []
      · simp only [hnil, reduceIte, ite_self]
      · simp only [hnil, reduceIte]
    · have hreason : IsVisible (StatusLine.reason header.start) := by
        unfold StatusLine.reason
        split
        · exact statusString_visible _
        · exact hvisible
      simp only [startText, hv, hserialize]
      exact parseStatusLine_append (by omega) hhigh hreason rest

namespace Parser
variable {isRequest : Bool} {config : ParserConfig}

/-- The parser at a field line, with the fields before it. -/
structure AtFields (parser : Parser isRequest) (start : StartLine isRequest)
    (entries : List Entry) (frame : Framing) : Prop where
  inv : parser.Inv
  state : parser.state = .fields
  version : parser.message.header.version = version11
  start : parser.message.header.start = start
  entries : parser.message.header.fields.entries = entries
  frame : parser.frame = frame
  unended : parser.expectCrlf = false

/-- The parser at a chunk line, with the body before it. -/
structure AtChunk (parser : Parser isRequest) (header : Header isRequest) (body : Text) :
    Prop where
  inv : parser.Inv
  state : parser.state = .chunkHeader
  message : parser.message = ⟨header, body⟩

theorem headerWindow_unlimited (hl : config.headerLimit = 0) (parser : Parser isRequest)
    (data : Text) : parser.headerWindow config data = data := if_pos hl

theorem step_startLine (hl : config.headerLimit = 0) {line rest : Text} (hne : line ≠ [])
    {version : ℕ} {start : StartLine isRequest}
    (hp : parseStartLine isRequest (line ++ rest) = .done (version, start) rest) :
    step config (started isRequest) (line ++ rest) = .next { started isRequest with
      message := ⟨⟨version, start, (Header.new isRequest).fields⟩, []⟩
      header := line.length
      state := .fields } line.length [] := by
  have hdata : line ++ rest ≠ [] := by simp [hne]
  have hused : (line ++ rest).length - rest.length = line.length := by simp
  simp only [step, started, Parser.new, stepOf, putStartLine, hdata, reduceIte,
    headerWindow_unlimited hl, hp, hused, Nat.zero_add, Message.new]
  rw [if_neg (by simp)]

theorem reaches_fields (hl : config.headerLimit = 0) {line rest : Text} (hne : line ≠ [])
    {start : StartLine isRequest}
    (hp : parseStartLine isRequest (line ++ rest) = .done (version11, start) rest) :
    ∃ next, Reaches (step config) (started isRequest) (line ++ rest) [] next rest ∧
      next.AtFields start [] {} := by
  have hstep := step_startLine hl hne hp
  have hreach := Reaches.single hstep
  rw [List.drop_left] at hreach
  refine ⟨_, hreach, (step_next config inv_started hstep).2.2, rfl, rfl, rfl, ?_, rfl, rfl⟩
  cases isRequest <;> rfl

theorem step_field {parser next : Parser isRequest} (hs : parser.state = .fields) {data : Text}
    {used : ℕ} (hput : parser.putField config true data = .ok (next, used, false)) :
    step config parser data = .next next used [] := by
  simp only [step, hs, fieldStep, hput]

theorem step_fields_end {parser mid next : Parser isRequest} (hs : parser.state = .fields)
    {data : Text} {used : ℕ} (hput : parser.putField config true data = .ok (mid, used, true))
    (hlast : mid.finishHeader config = (next, none)) :
    step config parser data = .next next used [] := by
  simp only [step, hs, fieldStep, hput, hlast]

theorem step_trailer_end {parser mid : Parser isRequest} (hs : parser.state = .trailer)
    {data : Text} {used : ℕ} (hput : parser.putField config false data = .ok (mid, used, true)) :
    step config parser data = .next mid.finish used [] := by
  simp only [step, hs, fieldStep, hput, finishTrailer]

theorem putField_end (hl : config.headerLimit = 0) (retain : Bool) (parser : Parser isRequest)
    (rest : Text) : parser.putField config retain (lineEnd ++ rest)
      = .ok ({ parser with header := parser.header + lineEnd.length }, lineEnd.length, true) := by
  have hused : (lineEnd ++ rest).length - rest.length = lineEnd.length := by simp
  simp only [putField, headerWindow_unlimited hl, parseField_end, hused]

/-- A field line is taken. -/
theorem step_entry (hl : config.headerLimit = 0) {parser : Parser isRequest}
    (hs : parser.state = .fields) {entry : Entry} (hn : IsToken entry.name)
    (hv : IsVisible entry.value ∧ IsTrimmed entry.value) {frame : Framing}
    (hf : frameField config.split parser.frame (framingField entry.name) entry.value = .ok frame)
    {b : UInt8} (hb : isWhitespace b = false) (rest : Text) :
    step config parser (entryText entry ++ b :: rest) = .next { parser with
      frame := frame
      header := parser.header + (entryText entry).length
      message := { parser.message with header := { parser.message.header with
        fields := parser.message.header.fields.insert entry.name entry.value } } }
      (entryText entry).length [] := by
  have hparse : parseField config.split parser.frame (entryText entry ++ b :: rest)
      = .done (some (entry.name, entry.value), frame) (b :: rest) :=
    parseField_append hn hv.1 hv.2 hb hf rest
  have hused : (entryText entry ++ b :: rest).length - (b :: rest).length
      = (entryText entry).length := by simp
  refine step_field hs ?_
  simp only [putField, headerWindow_unlimited hl, hparse, hused, reduceIte]

/-- A field that is taken is put behind the others. -/
theorem AtFields.entry (hl : config.headerLimit = 0) {parser : Parser isRequest}
    {start : StartLine isRequest} {entries : List Entry} {frame frame' : Framing}
    (h : parser.AtFields start entries frame) {entry : Entry} (hn : IsToken entry.name)
    (hv : IsVisible entry.value ∧ IsTrimmed entry.value) (hid : entry.id = toField entry.name)
    (hg : Grouped (entries ++ [entry]))
    (hf : frameField config.split frame (framingField entry.name) entry.value = .ok frame')
    {b : UInt8} (hb : isWhitespace b = false) (rest : Text) :
    ∃ next, Reaches (step config) parser (entryText entry ++ b :: rest) [] next (b :: rest) ∧
      next.AtFields start (entries ++ [entry]) frame' := by
  have hstep := step_entry hl h.state hn hv (h.frame.symm ▸ hf) hb rest
  have hreach := Reaches.single hstep
  rw [List.drop_left] at hreach
  have hentry : (⟨toField entry.name, entry.name, entry.value⟩ : Entry) = entry := by rw [← hid]
  refine ⟨_, hreach, (step_next config h.inv hstep).2.2, h.state, h.version, h.start, ?_, rfl,
    h.unended⟩
  simp only [Fields.insert, h.entries, hentry]
  exact addEntry_of_grouped hg

/-- The text behind a field begins with a name or with the line end. -/
theorem entries_head {todo : List Entry} (hn : ∀ e ∈ todo, IsToken e.name) (rest : Text) :
    ∃ b t, todo.flatMap entryText ++ (lineEnd ++ rest) = b :: t ∧ isWhitespace b = false := by
  cases todo with
  | nil => exact ⟨cr, lf :: rest, rfl, by decide⟩
  | cons e todo =>
    obtain ⟨hne, htoken⟩ := hn e (by simp)
    obtain ⟨c, t, hc⟩ := List.exists_cons_of_ne_nil hne
    refine ⟨c, _, by rw [List.flatMap_cons, entryText, hc]; rfl, ?_⟩
    exact isTchar_not_whitespace (htoken c (by rw [hc]; exact List.mem_cons_self))

/-- The field lines are taken up to the line end behind them. -/
theorem AtFields.entries_run (hl : config.headerLimit = 0) {todo : List Entry}
    {parser : Parser isRequest} {start : StartLine isRequest} {entries : List Entry}
    {frame frame' : Framing} (h : parser.AtFields start entries frame)
    (hn : ∀ e ∈ todo, IsToken e.name) (hv : ∀ e ∈ todo, IsVisible e.value ∧ IsTrimmed e.value)
    (hid : ∀ e ∈ todo, e.id = toField e.name) (hg : Grouped (entries ++ todo))
    (hf : todo.foldlM (fun frame e => frameField config.split frame (framingField e.name) e.value)
      frame = .ok frame') (rest : Text) :
    ∃ next, Reaches (step config) parser (todo.flatMap entryText ++ (lineEnd ++ rest)) [] next
        (lineEnd ++ rest) ∧ next.AtFields start (entries ++ todo) frame' := by
  induction todo generalizing parser entries frame with
  | nil =>
    cases hf
    exact ⟨parser, .refl, by rwa [List.append_nil]⟩
  | cons entry todo ih =>
    rw [List.foldlM_cons] at hf
    cases hone : frameField config.split frame (framingField entry.name) entry.value with
    | error e => rw [hone] at hf; cases hf
    | ok frame₁ =>
      rw [hone] at hf
      obtain ⟨b, t, hbt, hb⟩ := entries_head (fun e he => hn e (List.mem_cons_of_mem _ he)) rest
      have happ : entries ++ entry :: todo = entries ++ [entry] ++ todo := by simp
      rw [happ] at hg
      obtain ⟨mid, hmid, hat⟩ := h.entry hl (hn entry List.mem_cons_self)
        (hv entry List.mem_cons_self) (hid entry List.mem_cons_self)
        (hg.sublist (List.sublist_append_left _ _)) hone hb t
      obtain ⟨next, hnext, hfinal⟩ := ih hat
        (fun e he => hn e (List.mem_cons_of_mem _ he)) (fun e he => hv e (List.mem_cons_of_mem _ he))
        (fun e he => hid e (List.mem_cons_of_mem _ he)) hg hf
      rw [hbt] at hnext
      refine ⟨next, ?_, by rwa [happ]⟩
      rw [List.flatMap_cons, List.append_assoc, hbt]
      exact hmid.trans hnext

/-- The empty line ends the fields of a chunked message. -/
theorem AtFields.finish (hl : config.headerLimit = 0) (hs : config.skip = false)
    {parser : Parser isRequest} {header : Header isRequest} (hversion : header.version = version11)
    (hbodiless : header.bodiless = false)
    (h : parser.AtFields header.start header.fields.entries { chunked := true }) (rest : Text) :
    ∃ next, Reaches (step config) parser (lineEnd ++ rest) [] next rest ∧
      next.AtChunk header [] ∧ next.chunkPrefix = [] := by
  have hheader : parser.message.header = header := by
    have hfields := Fields.ext_entries h.entries
    have hsame := h.version.trans hversion.symm
    have hstart := h.start
    cases hp : parser.message.header
    cases header
    simp only [hp] at hfields hsame hstart
    rw [hsame, hfields, hstart]
  have hlast : ({ parser with header := parser.header + lineEnd.length }).finishHeader config
      = ({ parser with
          header := parser.header + lineEnd.length
          state := .chunkHeader
          message := ⟨header, []⟩ }, none) := by
    simp only [finishHeader, hs, hheader, hbodiless, Bool.or_false, Bool.false_eq_true, reduceIte,
      h.frame, enterBody, readerInit, withBody]
  have hstep : step config parser (lineEnd ++ rest) = .next { parser with
      header := parser.header + lineEnd.length
      state := .chunkHeader
      message := ⟨header, []⟩ } lineEnd.length [] :=
    step_fields_end h.state (putField_end hl true parser rest) hlast
  have hreach := Reaches.single hstep
  rw [List.drop_left] at hreach
  refine ⟨_, hreach, ⟨(step_next config h.inv hstep).2.2, rfl, rfl⟩, ?_⟩
  simp only [chunkPrefix, h.unended, Bool.false_eq_true, reduceIte]

/-- A chunk line of the serializer is taken with the line end before it. -/
theorem AtChunk.line (hbl : config.bodyLimit = 0) {parser : Parser isRequest}
    {header : Header isRequest} {body : Text} (h : parser.AtChunk header body) {size : ℕ}
    (hsize : size < 2 ^ 64) (rest : Text) :
    step config parser (parser.chunkPrefix ++ chunkHeader size ++ rest) = .next { parser with
      remaining := size
      expectCrlf := true
      state := if size = 0 then .trailer else .chunkBody
      header := if size = 0 then parser.header - lineEnd.length else parser.header }
      (parser.chunkPrefix ++ chunkHeader size).length [] := by
  have hdata : parser.chunkPrefix ++ chunkHeader size ++ rest
      = parser.chunkPrefix ++ (hexText (size + 1) size ++ cr :: lf :: rest) := by
    simp [chunkHeader, lineEnd]
  have hused : parser.chunkPrefix.length + (hexText (size + 1) size).length + lineEnd.length
      = (parser.chunkPrefix ++ chunkHeader size).length := by
    simp only [chunkHeader, List.length_append, Nat.add_assoc]
  have hmoved : (if size = 0 then ParserState.trailer else .chunkBody) ≠ .chunkHeader := by
    split <;> (intro hc; cases hc)
  have hput : parser.putChunkHeader config.lenient
      (parser.chunkPrefix ++ chunkHeader size ++ rest) = ⟨{ parser with
        remaining := size
        expectCrlf := true
        state := if size = 0 then .trailer else .chunkBody
        header := if size = 0 then parser.header - lineEnd.length else parser.header },
        (parser.chunkPrefix ++ chunkHeader size).length, none⟩ := by
    rw [hdata, putChunkHeader_line config.lenient parser (hexText_ne_cr _ _) lf rest, if_pos rfl,
      chunkLine, parseChunkSize_hexText hsize]
    simp only [ParserConfig.lenient, hbl, ne_eq, not_true_eq_false, false_and, reduceIte,
      validChunkExtensions_end, hused]
  simp only [step, h.state, stepOf, hput, hmoved, and_false, reduceIte]

/-- A chunk is taken, but for its line end. -/
theorem AtChunk.chunk (hbl : config.bodyLimit = 0) {parser : Parser isRequest}
    {header : Header isRequest} {body data : Text} (h : parser.AtChunk header body)
    (hd : IsChunk data) (hmax : body.length + data.length ≤ config.maxSize) (rest : Text) :
    ∃ next, Reaches (step config) parser
        (parser.chunkPrefix ++ (chunkHeader data.length ++ data ++ rest)) [] next rest ∧
      next.AtChunk header (body ++ data) ∧ next.chunkPrefix = lineEnd := by
  have hne : data.length ≠ 0 := (List.length_pos_of_ne_nil hd.1).ne'
  have hline := h.line hbl hd.2 (data ++ rest)
  simp only [hne, reduceIte] at hline
  have hi := (step_next config h.inv hline).2.2
  set mid : Parser isRequest := { parser with
    remaining := data.length, expectCrlf := true, state := .chunkBody } with hmid
  have hin : mid.InBody := .inr (.inr rfl)
  have hsize : mid.bodySize (data ++ rest) = data.length := by
    simp [bodySize, hmid]
  have hbody : mid.message.body = body := by
    rw [hmid]
    simp only [h.message]
  have hstep : step config mid (data ++ rest) = .next (mid.absorb data).settle data.length [] := by
    rw [step_body config hi hin, if_neg (fun hc => absurd hbl hc.2.1), if_neg (by simp [hd.1]),
      hsize, hbody, if_neg (by omega), List.take_left]
  have hfirst := Reaches.single hline
  rw [List.drop_left] at hfirst
  have hsecond := Reaches.single hstep
  rw [List.drop_left] at hsecond
  have happ : parser.chunkPrefix ++ (chunkHeader data.length ++ data ++ rest)
      = parser.chunkPrefix ++ chunkHeader data.length ++ (data ++ rest) := by simp
  have hdone : (mid.absorb data).settle = { mid.absorb data with state := .chunkHeader } := by
    have hzero : (mid.absorb data).remaining = 0 := by simp [absorb, hmid]
    have hstate : (mid.absorb data).state = .chunkBody := rfl
    rw [settle, if_pos ⟨by rw [hstate]; decide, hzero⟩, completeBody, if_pos hstate]
  rw [happ]
  refine ⟨_, hfirst.trans hsecond, ⟨(step_next config hi hstep).2.2, ?_, ?_⟩, ?_⟩
  · rw [hdone]
  · rw [hdone]
    simp only [absorb, withBody, hmid, h.message]
  · rw [hdone]
    rfl

/-- The last chunk ends the message. -/
theorem AtChunk.last (hl : config.headerLimit = 0) (hbl : config.bodyLimit = 0)
    {parser : Parser isRequest} {header : Header isRequest} {body : Text}
    (h : parser.AtChunk header body) :
    ∃ next, Runs (step config) parser (parser.chunkPrefix ++ lastChunk) [] (.done next []) ∧
      next.message = ⟨header, body⟩ := by
  have hline := @AtChunk.line _ _ hbl _ _ _ h 0 (by decide) lineEnd
  simp only [reduceIte] at hline
  have hlast : parser.chunkPrefix ++ lastChunk
      = parser.chunkPrefix ++ chunkHeader 0 ++ lineEnd := by
    rw [List.append_assoc]
    rfl
  set mid : Parser isRequest := { parser with
    remaining := 0
    expectCrlf := true
    state := .trailer
    header := parser.header - lineEnd.length } with hmid
  have hend := putField_end hl false mid []
  rw [List.append_nil] at hend
  have hstep := @step_trailer_end _ config _ _ (show mid.state = .trailer from rfl) _ _ hend
  have hsecond := Reaches.single hstep
  rw [List.drop_length] at hsecond
  have hfirst := Reaches.single hline
  rw [List.drop_left] at hfirst
  rw [hlast]
  exact ⟨_, (hfirst.trans hsecond).runs (.done rfl), h.message⟩

/-- Chunks are taken to the last of them. -/
theorem AtChunk.chunks (hl : config.headerLimit = 0) (hbl : config.bodyLimit = 0)
    {chunks : List Text} {parser : Parser isRequest} {header : Header isRequest} {body : Text}
    (h : parser.AtChunk header body) (hc : ∀ data ∈ chunks, IsChunk data)
    (hmax : (body ++ chunks.flatten).length ≤ config.maxSize) :
    ∃ next, Runs (step config) parser
        (parser.chunkPrefix ++ (chunks.flatMap chunkText ++ lastChunk)) [] (.done next []) ∧
      next.message = ⟨header, body ++ chunks.flatten⟩ := by
  induction chunks generalizing parser body with
  | nil => simpa using h.last hl hbl
  | cons data chunks ih =>
    have happ : (data :: chunks).flatMap chunkText ++ lastChunk
        = chunkHeader data.length ++ data ++ (lineEnd ++ (chunks.flatMap chunkText ++ lastChunk)) := by
      simp [chunkText]
    rw [List.flatten_cons, ← List.append_assoc] at hmax
    have hfits : body.length + data.length ≤ config.maxSize := by
      simp only [List.length_append] at hmax
      omega
    obtain ⟨mid, hmid, hat, hprefix⟩ := h.chunk hbl (hc data List.mem_cons_self) hfits
      (lineEnd ++ (chunks.flatMap chunkText ++ lastChunk))
    obtain ⟨next, hnext, hmessage⟩ := ih hat
      (fun d hd => hc d (List.mem_cons_of_mem _ hd)) hmax
    rw [ hprefix] at hnext
    rw [happ, List.flatten_cons, ← List.append_assoc body]
    exact ⟨next, hmid.runs hnext, hmessage⟩

end Parser

/-! ### Messages are read back -/

/-- The fields of a prepared message make it chunked. -/
theorem Writable.frames {isRequest : Bool} {split : Text → List Text} (hsplit : SplitsLists split)
    {message : Message isRequest} (h : Writable message.header)
    (hproxy : ProxyLists message.header) :
    (message.preparePayload split).header.fields.entries.foldlM
      (fun frame e => frameField split frame (framingField e.name) e.value) {}
      = .ok { chunked := true } := by
  have hkept (entries : List Entry) (hsub : ∀ e ∈ entries, e ∈ message.header.fields.entries ∧
      iequals e.name Field.contentLength.toString = false) (frame : Framing) :
      entries.foldlM (fun frame e => frameField split frame (framingField e.name) e.value) frame
        = (.ok frame : Except HttpError Framing) := by
    induction entries with
    | nil => rfl
    | cons e entries ih =>
      obtain ⟨he, hlength⟩ := hsub e List.mem_cons_self
      rw [List.foldlM_cons, h.unframed hproxy he hlength]
      exact ih fun e he => hsub e (List.mem_cons_of_mem _ he)
  rw [h.prepared_entries hsplit, List.foldlM_append, hkept]
  · change (do
      let frame ← frameField split {} (framingField codingEntry.name) codingEntry.value
      pure frame) = _
    rw [frameField_coding]
  · intro e he
    obtain ⟨hmem, hlength⟩ := List.mem_filter.mp he
    exact ⟨hmem, by simpa using hlength⟩

/-- What the fields of a prepared message are. -/
theorem Writable.prepared_fields {isRequest : Bool} {split : Text → List Text}
    (hsplit : SplitsLists split) {message : Message isRequest} (h : Writable message.header) :
    ∀ e ∈ (message.preparePayload split).header.fields.entries,
      IsToken e.name ∧ IsVisible e.value ∧ IsTrimmed e.value := by
  intro e he
  rw [h.prepared_entries hsplit, List.mem_append, List.mem_singleton] at he
  rcases he with he | rfl
  · have hmem := (List.mem_filter.mp he).1
    exact ⟨h.names e hmem, h.values e hmem⟩
  · exact ⟨⟨by decide, by decide +kernel⟩, by unfold IsVisible; decide +kernel, by
      unfold IsTrimmed; decide +kernel⟩

/-- What is written of a message without a Proxy-Connection that is no list is read back. -/
theorem roundTrips {isRequest : Bool} {config : ParserConfig} (hsplit : SplitsLists config.split)
    {serialize : ℕ → Text} (hserialize : ∀ n, serialize n = ascii (toString n))
    (hheader : config.headerLimit = 0) (hbody : config.bodyLimit = 0) (hskip : config.skip = false)
    {message : Message isRequest} (h : Writable message.header)
    (hproxy : ProxyLists message.header)
    {results : List (Except HttpError (Option (Text × Bool)))} {body : Text}
    (hd : Delivers results body) (hmax : body.length ≤ config.maxSize) :
    RoundTrips config serialize message results body := by
  have hb : config.Bounded := by
    unfold ParserConfig.Bounded
    omega
  unfold RoundTrips
  set prepared := message.preparePayload config.split with hprepared
  have hversion : prepared.header.version = version11 := by
    rw [hprepared, h.prepared_header hsplit]
    exact h.version
  have hstart : IsStartLine prepared.header.start := by
    rw [hprepared, h.prepared_header hsplit]
    exact h.start
  have hbodiless : prepared.header.bodiless = false := by
    rw [hprepared, h.prepared_header hsplit]
    have hsame := h.bodiless
    cases isRequest <;> exact hsame
  have hfields := h.prepared_fields hsplit
  -- the text is the header, the chunks and the last chunk
  obtain ⟨chunks, hchunks, hflat, hdrain⟩ := Serializer.drain_body serialize
    (s := { message := prepared, writer := ⟨none, results⟩, state := .body,
            chunked := prepared.header.chunked config.split })
    rfl (h.prepared_chunked hsplit) hd
  have htext := Serializer.drain_header serialize
    (s := Serializer.new config.split prepared ⟨none, results⟩) rfl rfl results.length
  simp only [Serializer.new] at htext hdrain
  rw [hdrain, Option.map_some] at htext
  set rest := chunks.flatMap chunkText ++ lastChunk with hrest
  set line := startText serialize prepared.header with hline
  set fields := prepared.header.fields.entries.flatMap entryText with hentries
  have hwhole : serializeHeader serialize prepared.header ++ rest
      = line ++ (fields ++ (lineEnd ++ rest)) := by
    rw [serializeHeader_eq]
    simp only [List.append_assoc, hline, hentries]
  -- the parser takes it element by element
  obtain ⟨start, hsame, hparse⟩ := parseStartLine_startText hserialize hversion hstart
    (fields ++ (lineEnd ++ rest))
  have hne : line ≠ [] := by
    rw [hline]
    cases isRequest <;> simp [startText, lineEnd]
  obtain ⟨p₁, hreach₁, hat₁⟩ := Parser.reaches_fields hheader hne hparse
  obtain ⟨p₂, hreach₂, hat₂⟩ := hat₁.entries_run hheader (fun e he => (hfields e he).1)
    (fun e he => (hfields e he).2) prepared.header.fields.ids prepared.header.fields.grouped
    (h.frames hsplit hproxy) rest
  obtain ⟨p₃, hreach₃, hat₃, hprefix⟩ := @Parser.AtFields.finish _ _ hheader hskip _ { prepared.header with start := start }
    hversion (by
      cases isRequest with
      | true => rfl
      | false =>
        have hcode : StatusLine.code start = StatusLine.code prepared.header.start := hsame.1
        have hnot : StatusLine.bodiless prepared.header.start = false := hbodiless
        simp only [Header.bodiless, StatusLine.bodiless, hcode] at hnot ⊢
        exact hnot) hat₂ rest
  obtain ⟨p₄, hruns, hmessage⟩ := hat₃.chunks hheader hbody hchunks (by
    rw [hflat]
    exact hmax)
  rw [ hprefix, List.nil_append] at hruns
  have hrun := (hreach₁.trans (hreach₂.trans hreach₃)).runs hruns
  rw [← hwhole] at hrun
  refine ⟨_, p₄.message, htext, fun pieces hpieces => ?_, ?_⟩
  · have hnonempty : pieces.flatten ≠ [] := by
      rw [hpieces, hwhole]
      simp [hne]
    have hread := readMessage_source hb isRequest pieces hnonempty
    have hreads := @Reads.done _ config 0 _ [] pieces.flatten _ _ (by rw [hpieces]; exact hrun)
    have hresult := hread.det hheader hreads
    rw [hresult, hpieces]
    simp
  · rw [hmessage]
    exact ⟨hversion.symm ▸ rfl, hsame, rfl, hflat⟩

/-- A response with fields, and a body of which a buffer is empty and none is the last. -/
def fieldsResponse : Message false where
  header := ⟨version11, ⟨404, []⟩, ((Fields.empty.insertField .host (ascii "a")).insertField
    .connection (ascii "close, , x")).insertField .contentLength (ascii "7")⟩
  body := []

theorem fieldsResponse_writable : Writable fieldsResponse.header where
  version := rfl
  start := ⟨by decide, by decide, by decide, by decide, nofun, nofun, nofun⟩
  names := by unfold IsToken; decide +kernel
  values := by unfold IsVisible IsTrimmed; decide +kernel
  connection := by unfold IsTokenList; decide +kernel
  encoding := by decide

theorem roundTrips_fieldsResponse :
    RoundTrips ⟨listItems, 100, 0, 0, false⟩ (fun n => ascii (toString n)) fieldsResponse
      [.ok (some (ascii "abc", true)), .ok (some ([], true)), .ok none] (ascii "abc") :=
  roundTrips listItems_splits (fun _ => rfl) rfl rfl rfl fieldsResponse_writable
    (by unfold ProxyLists IsTokenList; decide)
    (@Delivers.more (ascii "abc") _ _ (by decide) (@Delivers.more [] _ _ (by decide) .none))
    (by decide)

/-- A request whose Proxy-Connection is not a list of tokens. -/
def proxyRequest : Message true where
  header := ⟨version11, RequestLine.ofMethod .get (ascii "/"),
    Fields.empty.insert (ascii "Proxy-Connection") (ascii "a b")⟩
  body := []

/-- Proxy-Connection is validated as Connection, so that the parser rejects such a request. -/
theorem not_roundTrips_proxyRequest : Writable proxyRequest.header ∧ Delivers [] [] ∧
    ¬RoundTrips ⟨listItems, 100, 0, 0, false⟩ (fun n => ascii (toString n)) proxyRequest [] [] := by
  refine ⟨?_, .exhausted, ?_⟩
  · exact {
      version := rfl
      start := ⟨⟨by decide +kernel, by decide +kernel⟩, by decide, by decide +kernel⟩
      names := by unfold IsToken; decide +kernel
      values := by unfold IsVisible IsTrimmed; decide +kernel
      connection := by unfold IsTokenList; decide
      encoding := by decide }
  · rintro ⟨text, parsed, htext, hread, _⟩
    have hwritten : text = ascii "GET / HTTP/1.1\r\nProxy-Connection: a b\r\n" ++
        ascii "Transfer-Encoding: chunked\r\n\r\n0\r\n\r\n" := by
      refine Option.some.inj (htext.symm.trans ?_)
      decide
    have hone := hread [text] (by simp)
    rw [hwritten] at hone
    revert hone
    have hbad : readMessage ⟨listItems, 100, 0, 0, false⟩ true
        [ascii "GET / HTTP/1.1\r\nProxy-Connection: a b\r\n" ++
          ascii "Transfer-Encoding: chunked\r\n\r\n0\r\n\r\n"] = .failed .badValue := by
      decide +kernel
    rw [hbad]
    nofun

end BitcoinNetwork.Http
