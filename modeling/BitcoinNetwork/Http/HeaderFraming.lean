import BitcoinNetwork.Http.FieldFronts
import BitcoinNetwork.Http.ParserMachine
import BitcoinNetwork.Http.Persistence

/-!
# Framing as the header tells it (messages/http/header.cpp, impl/messages/http/parser.ipp)

The parser folds every framing field as its line is read. The header reads the first
Content-Length and the first Transfer-Encoding of the fields that it keeps.
-/

namespace BitcoinNetwork.Http
open Incremental

variable {isRequest : Bool}

/-- `content_length()`. -/
def Header.contentLength (header : Header isRequest) : Option ℕ :=
  match header.fields.find Field.contentLength.toString with
  | none => none
  | some entry =>
    match fromChars entry.value with
    | some (value, []) => some value
    | _ => none

/-- `need_eof()`. -/
def Header.needEof (split : Text → List Text) : {isRequest : Bool} → Header isRequest → Bool
  | true, header => !header.keepAlive split
  | false, header =>
    if header.bodiless || header.contentLength.isSome || header.chunked split then
      !header.keepAlive split
    else true

/-- The field lines of a header, each of them within the bytes that are buffered then, up to
the empty line, upon which `finish_header` succeeds. -/
inductive ReadsHeader (config : ParserConfig) : Parser isRequest → Parser isRequest → Prop where
  | field {parser next last : Parser isRequest} {data : Text} {used : ℕ}
      (line : parser.putField config true data = .ok (next, used, false))
      (rest : ReadsHeader config next last) : ReadsHeader config parser last
  | finish {parser next last : Parser isRequest} {data : Text} {used : ℕ}
      (line : parser.putField config true data = .ok (next, used, true))
      (finished : next.finishHeader config = (last, none)) : ReadsHeader config parser last

/-- The first Content-Length is one number, and not a list of equal ones. -/
def Header.LengthItem (header : Header isRequest) : Prop :=
  ∀ entry, header.fields.find Field.contentLength.toString = some entry → IsItem entry.value

/-- The first Transfer-Encoding does not end in an empty item. -/
def Header.CodingEnds (header : Header isRequest) : Prop :=
  ∀ entry, header.fields.find Field.transferEncoding.toString = some entry →
    lastItem entry.value ≠ []

/-- The last of the first Transfer-Encoding is chunked, as one before it is. -/
def Header.RepeatsChunked (header : Header isRequest) : Prop :=
  ∃ front last, listItems (header.fields.get .transferEncoding) = front ++ [last] ∧
    iequals last chunkedToken = true ∧ Has front chunkedToken

/-- What the header tells of the framing by which the parser goes on. -/
structure Agrees (config : ParserConfig) (parser : Parser isRequest) : Prop where
  length_of : ∀ n, parser.message.header.contentLength = some n → parser.frame.length = some n
  length : parser.message.header.LengthItem →
    parser.message.header.contentLength = parser.frame.length
  chunked : parser.message.header.CodingEnds →
    (parser.message.header.chunked config.split = true ↔
      parser.frame.chunked = true ∨ parser.message.header.RepeatsChunked)
  needEof : config.skip = false → parser.message.header.LengthItem →
    parser.message.header.CodingEnds → ¬parser.message.header.RepeatsChunked →
    (parser.message.header.needEof config.split = true ↔
      parser.state = .bodyToEof ∨ parser.message.header.keepAlive config.split = false)

/-! ### The fields that are kept -/

/-- The fields of the lines that are read, which the header keeps. -/
structure Keeps (split : Text → List Text) (parser : Parser isRequest)
    (fields : List (Text × Text)) : Prop where
  framed : frameFields split {} fields = .ok parser.frame
  kept : ∀ field, field ∈ fields ↔
    ∃ entry ∈ parser.message.header.fields.entries, (entry.name, entry.value) = field

theorem frameFields_concat {split : Text → List Text} {frame mid : Framing}
    {fields : List (Text × Text)} (h : frameFields split frame fields = .ok mid)
    (field : Text × Text) :
    frameFields split frame (fields ++ [field]) =
      frameField split mid (framingField field.1) field.2 := by
  unfold frameFields at h ⊢
  rw [List.foldlM_append, h]
  show (frameField split mid (framingField field.1) field.2 >>= pure) = _
  rw [bind_pure]

/-- What a field line leaves. -/
theorem putField_line {config : ParserConfig} {parser next : Parser isRequest} {data : Text}
    {used : ℕ} {last : Bool} (h : parser.putField config true data = .ok (next, used, last)) :
    (last = true ∧ next.frame = parser.frame ∧ next.message = parser.message) ∨
    ∃ name value, last = false ∧
      frameField config.split parser.frame (framingField name) value = .ok next.frame ∧
      next.message.header.fields = parser.message.header.fields.insert name value := by
  unfold Parser.putField at h
  split at h
  · cases h
  · cases h
  · rename_i line frame rest hline
    obtain ⟨field, behind, -, hframed⟩ := Element.bind_eq_done hline
    cases field with
    | none =>
      cases hframed
      cases h
      exact .inl ⟨rfl, rfl, rfl⟩
    | some field =>
      obtain ⟨name, value⟩ := field
      simp only at hframed
      cases hframe : frameField config.split parser.frame (framingField name) value with
      | error e =>
        rw [hframe] at hframed
        cases hframed
      | ok mid =>
        rw [hframe] at hframed
        cases hframed
        cases h
        exact .inr ⟨name, value, rfl, hframe, rfl⟩

theorem Keeps.field {split : Text → List Text} {parser next : Parser isRequest}
    {fields : List (Text × Text)} (h : Keeps split parser fields) {name value : Text}
    (hframe : frameField split parser.frame (framingField name) value = .ok next.frame)
    (hfields : next.message.header.fields = parser.message.header.fields.insert name value) :
    Keeps split next (fields ++ [(name, value)]) where
  framed := (frameFields_concat h.framed (name, value)).trans hframe
  kept field := by
    have hmem : ∀ entry, entry ∈ next.message.header.fields.entries ↔
        entry = ⟨toField name, name, value⟩ ∨
          entry ∈ parser.message.header.fields.entries := fun entry => by
      rw [hfields]
      exact mem_addEntry
    rw [List.mem_append, List.mem_singleton, h.kept field]
    constructor
    · rintro (⟨entry, hentry, heq⟩ | rfl)
      · exact ⟨entry, (hmem entry).mpr (.inr hentry), heq⟩
      · exact ⟨⟨toField name, name, value⟩, (hmem _).mpr (.inl rfl), rfl⟩
    · rintro ⟨entry, hentry, heq⟩
      rcases (hmem entry).mp hentry with rfl | hentry
      · exact .inr heq.symm
      · exact .inl ⟨entry, hentry, heq⟩

theorem Keeps.new {split : Text → List Text} {parser : Parser isRequest}
    (hframe : parser.frame = {}) (hfields : parser.message.header.fields = Fields.empty) :
    Keeps split parser [] where
  framed := by
    rw [hframe]
    rfl
  kept field := by
    rw [hfields]
    constructor
    · intro h
      cases h
    · rintro ⟨entry, hentry, -⟩
      cases hentry

/-! ### The end of the header -/

/-- How the parser goes on behind the header. -/
theorem finishHeader_ok {config : ParserConfig} {parser last : Parser isRequest}
    (h : parser.finishHeader config = (last, none)) :
    last.frame = parser.frame ∧ last.message.header = parser.message.header ∧
      (config.skip = false → (last.state = .bodyToEof ↔ isRequest = false ∧
        parser.message.header.bodiless = false ∧ parser.frame.length = none ∧
          parser.frame.chunked = false)) := by
  unfold Parser.finishHeader at h
  split at h
  · rename_i hbodiless
    cases h
    refine ⟨rfl, rfl, fun hskip => ?_⟩
    rw [hskip, Bool.false_or] at hbodiless
    simp [Parser.finish, hbodiless]
  rename_i hbodiless
  have hbody : parser.message.header.bodiless = false := by
    simp only [Bool.or_eq_true, not_or, Bool.not_eq_true] at hbodiless
    exact hbodiless.2
  split at h
  · rename_i length hlength
    simp only at h
    split at h
    · cases h
      exact ⟨rfl, rfl, fun _ => by simp [Parser.finish, hlength]⟩
    split at h
    · cases h
    rw [Parser.enterBody_eq config h]
    exact ⟨rfl, rfl, fun _ => by simp [Parser.withBody, hlength]⟩
  rename_i hlength
  split at h
  · rename_i hchunked
    rw [Parser.enterBody_eq config h]
    exact ⟨rfl, rfl, fun _ => by simp [Parser.withBody, hchunked]⟩
  rename_i hchunked
  have htoEof (next : Parser isRequest) (hr : isRequest = false)
      (h : next = { parser with state := .bodyToEof }.withBody []) :
      next.frame = parser.frame ∧ next.message.header = parser.message.header ∧
        (config.skip = false → (next.state = .bodyToEof ↔ isRequest = false ∧
          parser.message.header.bodiless = false ∧ parser.frame.length = none ∧
            parser.frame.chunked = false)) := by
    rw [h]
    exact ⟨rfl, rfl, fun _ => ⟨fun _ => ⟨hr, hbody, hlength, by simpa using hchunked⟩,
      fun _ => rfl⟩⟩
  split at h
  · split at h
    · cases h
    · rename_i hr
      exact htoEof last (by simpa using hr) (Parser.enterBody_eq config h)
  split at h
  · rename_i hr
    cases h
    exact ⟨rfl, rfl, fun _ => by simp [Parser.finish, hr]⟩
  · rename_i hr
    exact htoEof last (by simpa using hr) (Parser.enterBody_eq config h)

/-! ### What the header tells -/

theorem Denotes.item {text : Text} {n : ℕ} (h : Denotes text n) : IsItem text where
  ne_nil := h.1
  commas c hc := isDigit_ne_comma (h.2.1 c hc)
  first c hc := isDigit_not_whitespace (h.2.1 c (List.mem_of_mem_head? hc))
  last c hc := isDigit_not_whitespace (h.2.1 c (List.mem_of_mem_getLast? hc))

theorem Denotes.unique {text : Text} {m n : ℕ} (hm : Denotes text m) (hn : Denotes text n) :
    m = n := hm.2.2.1.symm.trans hn.2.2.1

/-- The last item of a list that does not end in an empty one is the last of its parts. -/
theorem SplitsLists.last {split : Text → List Text} (hs : SplitsLists split) {value : Text}
    (h : lastItem value ≠ []) : (split value).getLast? = some (lastItem value) ∧
      ∃ front, listItems value = front ++ [lastItem value] := by
  obtain ⟨front, last, before, hpieces, -, -, -⟩ := commaPieces_front value
  have hlast : lastItem value = trim last := by
    unfold lastItem
    rw [hpieces, List.getLastD_concat]
  have hmap : (commaPieces value).map trim = front.map trim ++ [lastItem value] := by
    rw [hpieces, List.map_append, hlast]
    rfl
  have hitems : listItems value =
      (front.map trim).filter (· ≠ []) ++ [lastItem value] := by
    unfold listItems
    rw [hmap, List.filter_append, List.filter_singleton]
    simp [h]
  refine ⟨?_, _, hitems⟩
  rcases hs value with heq | heq
  · rw [heq, hmap, List.getLast?_concat]
  · rw [heq, hitems, List.getLast?_concat]

theorem Keeps.find {split : Text → List Text} {parser : Parser isRequest}
    {fields : List (Text × Text)} (h : Keeps split parser fields) {name : Field} {entry : Entry}
    (hfind : parser.message.header.fields.find name.toString = some entry) :
    (entry.name, entry.value) ∈ fields ∧ iequals entry.name name.toString = true :=
  ⟨(h.kept _).mpr ⟨entry, List.mem_of_find?_eq_some hfind, rfl⟩,
    by simpa using List.find?_some hfind⟩

theorem Keeps.absent {split : Text → List Text} {parser : Parser isRequest}
    {fields : List (Text × Text)} (h : Keeps split parser fields) {name : Field}
    (hfind : parser.message.header.fields.find name.toString = none)
    {field : Text × Text} (hfield : field ∈ fields) : ¬iequals field.1 name.toString = true := by
  obtain ⟨entry, hentry, rfl⟩ := (h.kept field).mp hfield
  simpa using List.find?_eq_none.mp hfind entry hentry

section keeps
variable {config : ParserConfig} {parser : Parser isRequest} {fields : List (Text × Text)}

theorem Keeps.length_of (h : Keeps config.split parser fields)
    (hu : Unambiguous fields parser.frame) {n : ℕ}
    (hn : parser.message.header.contentLength = some n) : parser.frame.length = some n := by
  unfold Header.contentLength at hn
  split at hn
  · cases hn
  rename_i entry hfind
  split at hn
  · rename_i value hchars
    cases hn
    have hdenotes := fromChars_whole hchars
    obtain ⟨hmem, hname⟩ := h.find hfind
    have hitem : entry.value ∈ listItems entry.value := by
      rw [listItems_singleton hdenotes.item]
      exact List.mem_singleton_self _
    obtain ⟨m, hm, hlength⟩ := hu.length _ hmem hname _ hitem
    rw [hlength, hm.unique hdenotes]
  · cases hn

theorem Keeps.length (h : Keeps config.split parser fields)
    (hu : Unambiguous fields parser.frame) (hitem : parser.message.header.LengthItem) :
    parser.message.header.contentLength = parser.frame.length := by
  cases hfind : parser.message.header.fields.find Field.contentLength.toString with
  | none =>
    have hnone : parser.frame.length = none := by
      by_contra hne
      obtain ⟨n, hn⟩ := Option.ne_none_iff_exists'.mp hne
      obtain ⟨field, hmem, hname, -⟩ := hu.length_of n hn
      exact h.absent hfind hmem hname
    unfold Header.contentLength
    rw [hfind, hnone]
  | some entry =>
    obtain ⟨hmem, hname⟩ := h.find hfind
    have hsingle := listItems_singleton (hitem entry hfind)
    obtain ⟨n, hdenotes, hlength⟩ := hu.length _ hmem hname entry.value
      (by rw [hsingle]; exact List.mem_singleton_self _)
    unfold Header.contentLength
    rw [hfind, hlength]
    dsimp only
    rw [fromChars_of_denotes hdenotes]

/-- There is one Transfer-Encoding at most, which is the one that the header reads. -/
theorem Keeps.chunked_iff (h : Keeps config.split parser fields)
    (hu : Unambiguous fields parser.frame) :
    parser.frame.chunked = true ↔
      ChunkedLast (listItems (parser.message.header.fields.get .transferEncoding)) := by
  unfold Fields.get
  rw [hu.chunked]
  cases hfind : parser.message.header.fields.find Field.transferEncoding.toString with
  | none =>
    constructor
    · rintro ⟨field, hmem, hname, -⟩
      exact absurd hname (h.absent hfind hmem)
    · rintro ⟨front, last, hnil, -⟩
      exact absurd hnil.symm (List.append_ne_nil_of_right_ne_nil front (List.cons_ne_nil last []))
  | some entry =>
    obtain ⟨hmem, hname⟩ := h.find hfind
    constructor
    · rintro ⟨field, hfield, hencoding, hlast⟩
      have hone : field = (entry.name, entry.value) := by
        have hle := hu.encodings
        have hin : field ∈ fields.filter (IsEncoding ·) :=
          List.mem_filter.mpr ⟨hfield, decide_eq_true hencoding⟩
        have hentry : (entry.name, entry.value) ∈ fields.filter (IsEncoding ·) :=
          List.mem_filter.mpr ⟨hmem, decide_eq_true hname⟩
        match hfilter : fields.filter (IsEncoding ·) with
        | [] =>
          rw [hfilter] at hin
          cases hin
        | [other] =>
          rw [hfilter] at hin hentry
          rw [List.mem_singleton.mp hin, List.mem_singleton.mp hentry]
        | _ :: _ :: _ =>
          rw [hfilter, List.length_cons, List.length_cons] at hle
          omega
      rwa [hone] at hlast
    · intro hlast
      exact ⟨_, hmem, hname, hlast⟩

/-- Chunked is last of the items, of which another is chunked or none is. -/
theorem chunkedLast_or_repeats {items front : List Text} {last : Text}
    (h : items = front ++ [last]) : iequals last chunkedToken = true ↔ ChunkedLast items ∨
      ∃ front last, items = front ++ [last] ∧ iequals last chunkedToken = true ∧
        Has front chunkedToken := by
  constructor
  · intro hlast
    by_cases hhas : Has front chunkedToken
    · exact .inr ⟨front, last, h, hlast, hhas⟩
    · refine .inl ⟨front, last, h, hlast, fun coding hmem => ?_⟩
      by_contra hne
      exact hhas ⟨coding, hmem, by simpa using hne⟩
  · have hsame (front' : List Text) (last' : Text) (heq : items = front' ++ [last'])
        (hlast : iequals last' chunkedToken = true) : iequals last chunkedToken = true := by
      have hends := congrArg List.getLast? (h.symm.trans heq)
      rw [List.getLast?_concat, List.getLast?_concat] at hends
      rwa [Option.some.inj hends]
    rintro (⟨front', last', heq, hlast, -⟩ | ⟨front', last', heq, hlast, -⟩)
    · exact hsame front' last' heq hlast
    · exact hsame front' last' heq hlast

theorem Keeps.chunked (hs : SplitsLists config.split) (h : Keeps config.split parser fields)
    (hu : Unambiguous fields parser.frame) (hends : parser.message.header.CodingEnds) :
    parser.message.header.chunked config.split = true ↔
      parser.frame.chunked = true ∨ parser.message.header.RepeatsChunked := by
  rw [h.chunked_iff hu]
  unfold Header.chunked Header.RepeatsChunked Fields.get
  cases hfind : parser.message.header.fields.find Field.transferEncoding.toString with
  | none =>
    dsimp only
    have hitems (front : List Text) (last : Text) : listItems [] ≠ front ++ [last] :=
      (List.append_ne_nil_of_right_ne_nil front (List.cons_ne_nil last [])).symm
    constructor
    · intro hlast
      rcases hs [] with hsplit | hsplit
      · rw [hsplit] at hlast
        cases hlast
      · rw [hsplit] at hlast
        cases hlast
    · rintro (⟨front, last, heq, -⟩ | ⟨front, last, heq, -⟩)
      · exact absurd heq (hitems front last)
      · exact absurd heq (hitems front last)
  | some entry =>
    dsimp only
    obtain ⟨hsplit, front, hfront⟩ := hs.last (hends entry hfind)
    rw [hsplit]
    exact chunkedLast_or_repeats hfront

end keeps

theorem Header.needEof_iff (split : Text → List Text) (header : Header isRequest) :
    header.needEof split = true ↔
      (isRequest = false ∧ header.bodiless = false ∧ header.contentLength = none ∧
        header.chunked split = false) ∨ header.keepAlive split = false := by
  cases isRequest with
  | true => simp [Header.needEof]
  | false =>
    unfold Header.needEof
    cases hbodiless : header.bodiless with
    | true => simp [hbodiless]
    | false =>
      cases hlength : header.contentLength with
      | some length => simp [hlength]
      | none =>
        cases hchunked : header.chunked split with
        | true => simp [hchunked]
        | false => simp [hbodiless, hlength, hchunked]

/-- A header that is accepted was read field by field. -/
theorem ReadsHeader.keeps {config : ParserConfig} {parser last : Parser isRequest}
    (h : ReadsHeader config parser last) {fields : List (Text × Text)}
    (hkeeps : Keeps config.split parser fields) :
    ∃ mid : Parser isRequest, (∃ fields, Keeps config.split mid fields) ∧
      mid.finishHeader config = (last, none) := by
  induction h generalizing fields with
  | @field parser next last data used line rest ih =>
    obtain ⟨hlast, -, -⟩ | ⟨name, value, -, hframe, hfields⟩ := putField_line line
    · cases hlast
    · exact ih (hkeeps.field hframe hfields)
  | @finish parser next last data used line finished =>
    obtain ⟨-, hframe, hmessage⟩ | ⟨name, value, hlast, -, -⟩ := putField_line line
    · refine ⟨next, ⟨fields, ?_, ?_⟩, finished⟩
      · rw [hframe]
        exact hkeeps.framed
      · rw [hmessage]
        exact hkeeps.kept
    · cases hlast

/-! ### The whole of `put_fields` -/

theorem putFieldLines_reads {config : ParserConfig} (turns : ℕ) {parser : Parser isRequest}
    {data : Text} (h : (parser.putFieldLines config true (Parser.finishHeader config)
      turns data).code = none) :
    ReadsHeader config parser
      (parser.putFieldLines config true (Parser.finishHeader config) turns data).parser := by
  induction turns generalizing parser data with
  | zero => cases h
  | succ turns ih =>
    unfold Parser.putFieldLines at h ⊢
    split at h
    · cases h
    · rename_i next used hline
      exact .finish hline (Prod.ext rfl h)
    · rename_i next used hline
      exact .field hline (ih h)

/-- `put_fields` that succeeds has read a header. -/
theorem putFields_reads {config : ParserConfig} {parser : Parser isRequest} {data : Text}
    (h : (parser.putFields config data).code = none) :
    ReadsHeader config parser (parser.putFields config data).parser :=
  putFieldLines_reads _ h

/-! ### Agreement -/

/-- A header of field lines that are accepted tells the framing by which the parser goes on,
as far as it tells one: the first Content-Length is a list of one number, and chunked is not
repeated. -/
theorem readsHeader_agrees {config : ParserConfig} (hs : SplitsLists config.split)
    {parser last : Parser isRequest} (hframe : parser.frame = {})
    (hfields : parser.message.header.fields = Fields.empty)
    (h : ReadsHeader config parser last) : Agrees config last := by
  obtain ⟨mid, ⟨fields, hkeeps⟩, hfinish⟩ := h.keeps (Keeps.new hframe hfields)
  obtain ⟨hlastFrame, hlastHeader, heof⟩ := finishHeader_ok hfinish
  have hu : Unambiguous fields mid.frame := .fold hs .empty hkeeps.framed
  refine ⟨?_, ?_, ?_, ?_⟩
  · intro n hn
    rw [hlastHeader] at hn
    rw [hlastFrame]
    exact hkeeps.length_of hu hn
  · rw [hlastHeader, hlastFrame]
    exact hkeeps.length hu
  · rw [hlastHeader, hlastFrame]
    exact hkeeps.chunked hs hu
  · rw [hlastHeader]
    intro hskip hitem hends hrepeats
    have hlength := hkeeps.length hu hitem
    have hchunked := hkeeps.chunked hs hu hends
    rw [or_iff_left hrepeats, Bool.coe_iff_coe] at hchunked
    rw [heof hskip, Header.needEof_iff, hlength, hchunked]

/-- A response whose start line has been read. -/
def behindStatus : Parser false := { Parser.new false with state := .fields }

def listing : ParserConfig := { split := listItems, maxSize := 4096 }

theorem readsHeader_agrees_length :
    Agrees listing (behindStatus.putFields listing (ascii "Content-Length: 5\r\n\r\n")).parser :=
  readsHeader_agrees listItems_splits rfl rfl (putFields_reads (by decide +kernel))

/-- What closes the connection needs the end of the stream though its body is delimited, the
header tells no length of a list of equal ones, and tells chunked where it is repeated. -/
theorem headers_differ :
    (∃ last : Parser false, ReadsHeader listing behindStatus last ∧
      last.message.header.needEof listing.split = true ∧ last.state = .body) ∧
    (∃ last : Parser false, ReadsHeader listing behindStatus last ∧
      last.message.header.contentLength = none ∧ last.frame.length = some 5) ∧
    (∃ last : Parser false, ReadsHeader listing behindStatus last ∧
      last.message.header.chunked listing.split = true ∧ last.frame.chunked = false) :=
  ⟨⟨(behindStatus.putFields listing
      (ascii "Connection: close\r\nContent-Length: 5\r\n\r\n")).parser,
    putFields_reads (by decide +kernel), by decide +kernel, by decide +kernel⟩,
  ⟨(behindStatus.putFields listing (ascii "Content-Length: 5, 5\r\n\r\n")).parser,
    putFields_reads (by decide +kernel), by decide +kernel, by decide +kernel⟩,
  ⟨(behindStatus.putFields listing
      (ascii "Transfer-Encoding: chunked, chunked\r\n\r\n")).parser,
    putFields_reads (by decide +kernel), by decide +kernel, by decide +kernel⟩⟩

end BitcoinNetwork.Http
