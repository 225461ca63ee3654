import BitcoinNetwork.Http.NeedMore
import BitcoinNetwork.Http.Persistence
import BitcoinNetwork.Http.RoundTrip

/-!
# Responses without a body (messages/http/message.hpp, serializer.ipp, parser.ipp)

`prepare_payload` leaves such a response unframed and the parser ends it with its header. The
serializer writes what the body writer yields of it.
-/

namespace BitcoinNetwork.Http
open Incremental

/-! ### What a writer yields -/

/-- The bytes up to the end of a body, or none if it is not reached. -/
def outputs : List (Except HttpError (Option (Text × Bool))) → Option Text
  | [] => some []
  | .error _ :: _ => none
  | .ok none :: _ => some []
  | .ok (some (data, false)) :: _ => some data
  | .ok (some (data, true)) :: results => (outputs results).map (data ++ ·)

def Writer.output (writer : Writer) : Option Text :=
  match writer.init with
  | some _ => none
  | none => outputs writer.results

namespace Serializer
variable {isRequest : Bool} (serialize : ℕ → Text)

/-- A turn of a body that is not chunked. -/
theorem drain_unchunked (turns : ℕ) (message : Message isRequest) (init : Option HttpError)
    (results : List (Except HttpError (Option (Text × Bool)))) :
    drain serialize (turns + 1) ⟨message, ⟨init, results⟩, false, .body⟩ =
      match results with
      | [] => some []
      | .error _ :: _ => none
      | .ok none :: _ => some []
      | .ok (some (data, false)) :: _ => some data
      | .ok (some (data, true)) :: results =>
        (drain serialize turns ⟨message, ⟨init, results⟩, false, .body⟩).map (data ++ ·) := by
  have hflat : ∀ data : Text, (if data.length = 0 then [] else [data]).flatten = data := by
    intro data
    by_cases hd : data = []
    · simp [hd]
    · simp [hd]
  rw [drain, if_neg (by simp)]
  cases results with
  | nil => simp [next, appendBody, get, drain_done]
  | cons result results =>
    rcases result with e | _ | ⟨data, _ | _⟩
    · rfl
    · simp [next, appendBody, get, drain_done]
    · simp only [next, appendBody, get, Bool.not_false, if_true, Bool.false_eq_true, if_false,
        hflat]
      rw [drain_done serialize rfl]
      simp
    · simp only [next, appendBody, get, Bool.not_false, if_true, hflat]

/-- A body that is not chunked is what the writer yields. -/
theorem outputs_of_drain {turns : ℕ} {message : Message isRequest} {init : Option HttpError}
    {results : List (Except HttpError (Option (Text × Bool)))} {text : Text}
    (h : drain serialize turns ⟨message, ⟨init, results⟩, false, .body⟩ = some text) :
    outputs results = some text := by
  induction turns generalizing results text with
  | zero =>
    rw [drain, if_neg (by simp)] at h
    cases h
  | succ turns ih =>
    rw [drain_unchunked] at h
    rcases results with _ | ⟨e | _ | ⟨data, _ | _⟩, results⟩
    · exact h
    · cases h
    · exact h
    · exact h
    · obtain ⟨tail, htail, rfl⟩ := Option.map_eq_some_iff.mp h
      rw [outputs, ih htail]
      rfl

theorem drain_of_outputs (message : Message isRequest) (init : Option HttpError)
    {results : List (Except HttpError (Option (Text × Bool)))} {text : Text}
    (h : outputs results = some text) :
    drain serialize (results.length + 1) ⟨message, ⟨init, results⟩, false, .body⟩ = some text := by
  induction results generalizing text with
  | nil =>
    rw [drain_unchunked]
    exact h
  | cons result results ih =>
    rw [drain_unchunked]
    rcases result with e | _ | ⟨data, _ | _⟩
    · cases h
    · exact h
    · exact h
    · obtain ⟨tail, htail, rfl⟩ := Option.map_eq_some_iff.mp h
      rw [List.length_cons]
      simp only [ih htail]
      rfl

/-- What is written of an unchunked message is its header and what the writer yields. -/
theorem drain_output {split : Text → List Text} {message : Message isRequest} {writer : Writer}
    (hc : message.header.chunked split = false) {text : Text} :
    (∃ turns, (Serializer.new split message writer).drain serialize turns = some text) ↔
      ∃ body, writer.output = some body ∧
        text = serializeHeader serialize message.header ++ body := by
  obtain ⟨init, results⟩ := writer
  rw [Serializer.new, hc]
  cases init with
  | some e =>
    constructor
    · rintro ⟨turns, h⟩
      cases turns with
      | zero =>
        rw [drain, if_neg (by simp)] at h
        cases h
      | succ turns =>
        rw [drain, if_neg (by simp)] at h
        cases h
    · rintro ⟨body, h, -⟩
      cases h
  | none =>
    constructor
    · rintro ⟨turns, h⟩
      cases turns with
      | zero =>
        rw [drain, if_neg (by simp)] at h
        cases h
      | succ turns =>
        rw [drain_header serialize rfl rfl] at h
        obtain ⟨body, hbody, rfl⟩ := Option.map_eq_some_iff.mp h
        exact ⟨body, outputs_of_drain serialize hbody, rfl⟩
    · rintro ⟨body, hbody, rfl⟩
      refine ⟨results.length + 1, ?_⟩
      rw [drain_header serialize rfl rfl]
      have hdrain := drain_of_outputs serialize message none hbody
      simp only [hdrain]
      rfl

end Serializer

/-! ### The prepared header -/

section prepared
variable {split : Text → List Text}

/-- The transfer codings that `prepare_payload` leaves to a response without a body. -/
def keptCodings (header : Header false) : List Text :=
  (listItems (header.fields.get .transferEncoding)).filter fun item =>
    !iequals item chunkedToken

theorem isItem_keptCodings {header : Header false} {item : Text}
    (h : item ∈ keptCodings header) : IsItem item :=
  isItem_of_mem (List.mem_filter.mp h).1

/-- The fields but Content-Length and Transfer-Encoding. -/
def otherEntries (header : Header false) : List Entry :=
  header.fields.entries.filter fun entry =>
    !iequals entry.name Field.transferEncoding.toString &&
      !iequals entry.name Field.contentLength.toString

theorem bodiless_entries (hsplit : SplitsLists split) {message : Message false}
    (h : message.header.bodiless = true) :
    (message.preparePayload split).header.fields.entries = otherEntries message.header ++
      if keptCodings message.header = [] then []
      else [⟨.transferEncoding, Field.transferEncoding.toString,
        joinItems (keptCodings message.header)⟩] := by
  have hitems : ∀ item ∈ keptCodings message.header, IsItem item := fun _ => isItem_keptCodings
  have hcoding : filterTokens split (message.header.fields.get .transferEncoding)
      (fun item => iequals item chunkedToken) = joinItems (keptCodings message.header) :=
    filterTokens_eq hsplit _ _
  rw [Message.preparePayload, if_pos h]
  simp only [Header.setChunked, hcoding, Bool.not_false, if_true, Bool.false_eq_true, if_false]
  have hother : otherEntries message.header = (message.header.fields.entries.filter fun entry =>
      !iequals entry.name Field.transferEncoding.toString).filter fun entry =>
      !iequals entry.name Field.contentLength.toString := by
    rw [otherEntries, List.filter_filter]
    exact List.filter_congr fun entry _ => Bool.and_comm _ _
  by_cases hnone : keptCodings message.header = []
  · rw [if_pos hnone, hnone, List.append_nil, hother]
    rfl
  · have hne : (joinItems (keptCodings message.header)).isEmpty = false := by
      rw [List.isEmpty_eq_false_iff]
      exact fun hnil => hnone ((joinItems_eq_nil_iff hitems).mp hnil)
    rw [if_neg hnone, hother, hne]
    simp only [Bool.false_eq_true, if_false]
    rw [Fields.eraseField, Fields.erase, Fields.setField]
    have hinsert : ((message.header.fields.eraseField .transferEncoding).insertField
        .transferEncoding (joinItems (keptCodings message.header))).entries =
        (message.header.fields.eraseField .transferEncoding).entries ++
          [⟨.transferEncoding, Field.transferEncoding.toString,
            joinItems (keptCodings message.header)⟩] :=
      Fields.insertField_of_absent _ (Fields.find_erase _ _)
    dsimp only
    rw [hinsert, List.filter_append]
    rfl

theorem bodiless_find (hsplit : SplitsLists split) {message : Message false}
    (h : message.header.bodiless = true) :
    (message.preparePayload split).header.fields.get .transferEncoding =
      joinItems (keptCodings message.header) := by
  have hnone : (otherEntries message.header).find? (fun entry =>
      iequals entry.name Field.transferEncoding.toString) = none := by
    refine List.find?_eq_none.mpr fun entry hentry => ?_
    have hname := (List.mem_filter.mp hentry).2
    simp only [Bool.and_eq_true] at hname
    simpa using hname.1
  rw [Fields.get, Fields.find, bodiless_entries hsplit h, List.find?_append, hnone]
  by_cases hkept : keptCodings message.header = []
  · rw [if_pos hkept, hkept]
    rfl
  · rw [if_neg hkept]
    have hself : iequals Field.transferEncoding.toString Field.transferEncoding.toString = true :=
      iequals_refl _
    simp [hself]

/-- A response without a body is not chunked. -/
theorem bodiless_chunked (hsplit : SplitsLists split) {message : Message false}
    (h : message.header.bodiless = true) :
    (message.preparePayload split).header.chunked split = false := by
  have hitems : ∀ item ∈ keptCodings message.header, IsItem item := fun _ => isItem_keptCodings
  rw [Header.chunked, bodiless_find hsplit h]
  cases hlast : (split (joinItems (keptCodings message.header))).getLast? with
  | none => rfl
  | some coding =>
    have hmem := List.mem_of_getLast? hlast
    dsimp only
    by_contra hchunked
    have hequal : iequals coding chunkedToken = true := by simpa using hchunked
    have hne : coding ≠ [] := by
      rintro rfl
      cases hequal
    have hkept := hsplit.items_of_mem hmem hne
    rw [listItems_joinItems hitems] at hkept
    have hnot := (List.mem_filter.mp hkept).2
    rw [hequal] at hnot
    cases hnot

end prepared

/-! ### The parser -/

/-- A response that can be written. -/
structure Sendable (header : Header false) : Prop where
  version : header.version = version10 ∨ header.version = version11
  reason : IsVisible (StatusLine.reasonText header.start)
  names : ∀ entry ∈ header.fields.entries, IsToken entry.name
  values : ∀ entry ∈ header.fields.entries, IsVisible entry.value ∧ IsTrimmed entry.value
  lists : ∀ entry ∈ header.fields.entries, framingField entry.name = .connection ∨
    framingField entry.name = .transferEncoding → IsTokenList entry.value

theorem bodiless_code {line : StatusLine} (h : line.bodiless = true) :
    100 ≤ line.code ∧ line.code ≤ 999 := by
  simp only [StatusLine.bodiless, Bool.or_eq_true, Bool.and_eq_true, decide_eq_true_eq,
    beq_iff_eq] at h
  omega

theorem versionText_known {serialize : ℕ → Text} (hserialize : ∀ n, serialize n = ascii (toString n))
    {version : ℕ} (h : version = version10 ∨ version = version11) :
    versionText serialize version ∈ versions := by
  rw [versionText, hserialize, hserialize]
  rcases h with rfl | rfl
  · exact List.mem_cons.mpr (.inl (by decide))
  · exact List.mem_cons.mpr (.inr (List.mem_singleton.mpr (by decide)))

/-- The status line of a response is read, with its code. -/
theorem parseStatusLine_written {serialize : ℕ → Text}
    (hserialize : ∀ n, serialize n = ascii (toString n)) {header : Header false}
    (hversion : header.version = version10 ∨ header.version = version11)
    (hbodiless : header.bodiless = true) (hreason : IsVisible (StatusLine.reasonText header.start))
    (rest : Text) : ∃ version start, StatusLine.code start = StatusLine.code header.start ∧
      parseStatusLine (startText serialize header ++ rest) = .done (version, start) rest := by
  obtain ⟨hlow, hhigh⟩ := bodiless_code hbodiless
  have hline : IsVisible (StatusLine.reason header.start) := by
    unfold StatusLine.reason
    split
    · exact statusString_visible _
    · exact hreason
  have hsp : ascii " " = [sp] := by decide
  obtain ⟨ha, va⟩ := digit_spec (d := StatusLine.code header.start / 100) (by omega)
  obtain ⟨hb, vb⟩ := digit_spec (d := StatusLine.code header.start / 10 % 10) (by omega)
  obtain ⟨hc, vc⟩ := digit_spec (d := StatusLine.code header.start % 10) (by omega)
  have hdata : startText serialize header ++ rest = versionText serialize header.version ++
      sp :: digit (StatusLine.code header.start / 100) ::
        digit (StatusLine.code header.start / 10 % 10) ::
        digit (StatusLine.code header.start % 10) :: sp ::
        (StatusLine.reason header.start ++ lineEnd ++ rest) := by
    have hthree := repr_three hlow hhigh
    simp only [startText, hserialize, hsp]
    rw [hthree]
    simp
  obtain ⟨version, hparse⟩ := parseVersion_version (versionText_known hserialize hversion)
    (sp :: digit (StatusLine.code header.start / 100) ::
      digit (StatusLine.code header.start / 10 % 10) ::
      digit (StatusLine.code header.start % 10) :: sp ::
      (StatusLine.reason header.start ++ lineEnd ++ rest))
  refine ⟨version, ⟨StatusLine.code header.start, StatusLine.reason header.start⟩, rfl, ?_⟩
  rw [hdata, parseStatusLine_eq, Element.bind_of_done hparse, statusLine_digits version ha hb hc,
    Element.bind_of_done (findLine_append hline rest), va, vb, vc, Element.pure_apply]
  have hcode : StatusLine.code header.start / 100 * 100 + StatusLine.code header.start / 10 % 10 * 10
      + StatusLine.code header.start % 10 = StatusLine.code header.start := by omega
  rw [hcode]

theorem joinItems_visible {items : List Text} (h : ∀ item ∈ items, IsVisible item) :
    IsVisible (joinItems items) := by
  induction items with
  | nil => nofun
  | cons item items ih =>
    obtain ⟨hitem, hitems⟩ := List.forall_mem_cons.mp h
    cases items with
    | nil => exact hitem
    | cons next items =>
      rw [joinItems]
      · exact List.forall_mem_append.mpr ⟨hitem, List.forall_mem_cons.mpr ⟨rfl,
          List.forall_mem_cons.mpr ⟨rfl, ih hitems⟩⟩⟩
      · exact List.cons_ne_nil next items

theorem joinItems_trimmed {items : List Text} (h : ∀ item ∈ items, IsItem item) :
    IsTrimmed (joinItems items) := by
  induction items with
  | nil => exact ⟨nofun, nofun⟩
  | cons item items ih =>
    obtain ⟨hitem, hitems⟩ := List.forall_mem_cons.mp h
    cases items with
    | nil => exact ⟨hitem.first, hitem.last⟩
    | cons next items =>
      have hne : joinItems (next :: items) ≠ [] := fun hnil =>
        List.cons_ne_nil next items ((joinItems_eq_nil_iff hitems).mp hnil)
      rw [joinItems]
      · refine ⟨fun c hc => hitem.first c ?_, fun c hc => (ih hitems).2 c ?_⟩
        · rwa [List.head?_append_of_ne_nil _ hitem.ne_nil] at hc
        · rwa [List.getLast?_append_of_ne_nil _ (by simp), List.getLast?_cons_of_ne_nil (by simp),
            List.getLast?_cons_of_ne_nil hne] at hc
      · exact List.cons_ne_nil next items

/-- The items of the kept codings are tokens of a field of the response. -/
theorem Sendable.coding_tchars {header : Header false} (h : Sendable header) {item : Text}
    (hitem : item ∈ keptCodings header) : ∀ c ∈ item, isTchar c = true := by
  have hmem := (List.mem_filter.mp hitem).1
  rw [Fields.get] at hmem
  split at hmem
  · next entry hfind =>
    rw [Fields.find] at hfind
    have hname := List.find?_some hfind
    have hentry := List.mem_of_find?_eq_some hfind
    have hfield := (@framingField_encoding (entry.name, entry.value)).mpr hname
    exact h.lists entry hentry (.inr hfield) item hmem
  · simp [listItems, commaPieces, trim] at hmem

theorem Sendable.entry {header : Header false} (h : Sendable header) {entry : Entry}
    (hentry : entry ∈ otherEntries header) (split : Text → List Text) (frame : Framing) :
    frameField split frame (framingField entry.name) entry.value = .ok frame := by
  obtain ⟨hmem, hname⟩ := List.mem_filter.mp hentry
  simp only [Bool.and_eq_true, Bool.not_eq_true'] at hname
  have hlength : framingField entry.name ≠ .contentLength := fun heq => by
    have hequal := (@framingField_length (entry.name, entry.value)).mp heq
    rw [IsLength, hname.2] at hequal
    cases hequal
  have hencoding : framingField entry.name ≠ .transferEncoding := fun heq => by
    have hequal := (@framingField_encoding (entry.name, entry.value)).mp heq
    rw [IsEncoding, hname.1] at hequal
    cases hequal
  by_cases hconnection : framingField entry.name = .connection
  · have hlist := tokenList_valid (h.lists entry hmem (.inl hconnection))
    rw [frameField, if_pos hconnection, if_pos hlist]
  · rw [frameField, if_neg hconnection, if_neg hlength, if_neg hencoding]

theorem Sendable.entries {header : Header false} (h : Sendable header)
    {entries : List Entry} (hentries : ∀ entry ∈ entries, entry ∈ otherEntries header)
    (split : Text → List Text) (frame : Framing) :
    entries.foldlM (fun frame e => frameField split frame (framingField e.name) e.value) frame =
      (.ok frame : Except HttpError Framing) := by
  induction entries with
  | nil => rfl
  | cons entry entries ih =>
    obtain ⟨hentry, hrest⟩ := List.forall_mem_cons.mp hentries
    rw [List.foldlM_cons, h.entry hentry split frame]
    exact ih hrest

theorem Sendable.coding {header : Header false} (h : Sendable header)
    (hsome : keptCodings header ≠ []) (split : Text → List Text) :
    ∃ frame, frameField split {} (framingField Field.transferEncoding.toString)
      (joinItems (keptCodings header)) = .ok frame := by
  have hitems : ∀ item ∈ keptCodings header, IsItem item :=
    fun _ => isItem_keptCodings
  have hname : framingField Field.transferEncoding.toString = .transferEncoding := by
    decide
  have hlist : IsTokenList (joinItems (keptCodings header)) := by
    intro item hitem
    rw [listItems_joinItems hitems] at hitem
    exact h.coding_tchars hitem
  have hvalid := tokenList_valid hlist
  have hcodings : (tokenList (joinItems (keptCodings header))).1.isEmpty
      = false := by
    rw [(tokenList_items hvalid).1, listItems_joinItems hitems]
    exact List.isEmpty_eq_false_iff.mpr hsome
  rw [hname, frameField, if_neg (by decide), if_neg (by decide), if_pos rfl]
  simp only [hvalid, hcodings]
  exact ⟨_, rfl⟩

theorem Sendable.prepared {split : Text → List Text} (hsplit : SplitsLists split)
    {message : Message false} (hbodiless : message.header.bodiless = true)
    (h : Sendable message.header) :
    (∀ entry ∈ (message.preparePayload split).header.fields.entries, IsToken entry.name ∧
      IsVisible entry.value ∧ IsTrimmed entry.value) ∧
    ∃ frame, (message.preparePayload split).header.fields.entries.foldlM
      (fun frame e => frameField split frame (framingField e.name) e.value) {} = .ok frame := by
  have hitems : ∀ item ∈ keptCodings message.header, IsItem item :=
    fun _ => isItem_keptCodings
  have hother : ∀ entry ∈ otherEntries message.header, IsToken entry.name ∧
      IsVisible entry.value ∧ IsTrimmed entry.value := fun entry hentry => by
    have hmem := (List.mem_filter.mp hentry).1
    exact ⟨h.names entry hmem, h.values entry hmem⟩
  have hfold := h.entries (fun _ hentry => hentry) split {}
  rw [bodiless_entries hsplit hbodiless]
  by_cases hnone : keptCodings message.header = []
  · rw [if_pos hnone, List.append_nil]
    exact ⟨hother, _, hfold⟩
  · rw [if_neg hnone, List.forall_mem_append, List.foldlM_append, hfold]
    obtain ⟨frame, hframe⟩ := h.coding hnone split
    have htoken : IsToken Field.transferEncoding.toString := ⟨by decide, by decide +kernel⟩
    refine ⟨⟨hother, List.forall_mem_singleton.mpr ⟨htoken, ?_, joinItems_trimmed hitems⟩⟩,
      frame, ?_⟩
    · exact joinItems_visible fun item hitem => isVisible_of_tchars (h.coding_tchars hitem)
    · simp only [List.foldlM_cons, List.foldlM_nil, hframe, bind, Except.bind, pure, Except.pure]

namespace Parser
variable {config : ParserConfig}

/-- The parser at a field line of a response without a body. -/
structure InFields (parser : Parser false) (frame : Framing) : Prop where
  state : parser.state = .fields
  bodiless : parser.message.header.bodiless = true
  frame : parser.frame = frame

theorem reaches_inFields (hl : config.headerLimit = 0) {line rest : Text} (hne : line ≠ [])
    {version : ℕ} {start : StatusLine} (hstart : start.bodiless = true)
    (hparse : parseStatusLine (line ++ rest) = .done (version, start) rest) :
    ∃ next, Reaches (step config) (started false) (line ++ rest) [] next rest ∧
      next.InFields {} := by
  have hreach := Reaches.single (@step_startLine false config hl _ _ hne _ _ hparse)
  rw [List.drop_left] at hreach
  exact ⟨_, hreach, rfl, hstart, rfl⟩

theorem InFields.entry (hl : config.headerLimit = 0) {parser : Parser false}
    {frame frame' : Framing} (h : parser.InFields frame) {entry : Entry} (hn : IsToken entry.name)
    (hv : IsVisible entry.value ∧ IsTrimmed entry.value)
    (hf : frameField config.split frame (framingField entry.name) entry.value = .ok frame')
    {b : UInt8} (hb : isWhitespace b = false) (rest : Text) :
    ∃ next, Reaches (step config) parser (entryText entry ++ b :: rest) [] next (b :: rest) ∧
      next.InFields frame' := by
  have hreach := Reaches.single (step_entry hl h.state hn hv (h.frame.symm ▸ hf) hb rest)
  rw [List.drop_left] at hreach
  exact ⟨_, hreach, h.state, h.bodiless, rfl⟩

/-- The field lines are taken up to the line end behind them. -/
theorem InFields.entries_run (hl : config.headerLimit = 0) {todo : List Entry}
    {parser : Parser false} {frame frame' : Framing} (h : parser.InFields frame)
    (hn : ∀ e ∈ todo, IsToken e.name ∧ IsVisible e.value ∧ IsTrimmed e.value)
    (hf : todo.foldlM (fun frame e => frameField config.split frame (framingField e.name) e.value)
      frame = .ok frame') (rest : Text) :
    ∃ next, Reaches (step config) parser (todo.flatMap entryText ++ (lineEnd ++ rest)) [] next
        (lineEnd ++ rest) ∧ next.InFields frame' := by
  induction todo generalizing parser frame with
  | nil =>
    cases hf
    exact ⟨parser, .refl, h⟩
  | cons entry todo ih =>
    obtain ⟨hentry, htodo⟩ := List.forall_mem_cons.mp hn
    rw [List.foldlM_cons] at hf
    cases hone : frameField config.split frame (framingField entry.name) entry.value with
    | error e => rw [hone] at hf; cases hf
    | ok frame₁ =>
      rw [hone] at hf
      obtain ⟨b, t, hbt, hb⟩ := entries_head (fun e he => (htodo e he).1) rest
      obtain ⟨mid, hmid, hat⟩ := h.entry hl hentry.1 hentry.2 hone hb t
      obtain ⟨next, hnext, hfinal⟩ := ih hat htodo hf
      rw [hbt] at hnext
      refine ⟨next, ?_, hfinal⟩
      rw [List.flatMap_cons, List.append_assoc, hbt]
      exact hmid.trans hnext

/-- The empty line ends the message. -/
theorem InFields.finish (hl : config.headerLimit = 0) {parser : Parser false} {frame : Framing}
    (h : parser.InFields frame) (rest : Text) :
    ∃ next, Runs (step config) parser (lineEnd ++ rest) [] (.done next rest) := by
  have hlast : ({ parser with header := parser.header + lineEnd.length }).finishHeader config
      = (({ parser with header := parser.header + lineEnd.length } : Parser false).finish, none) := by
    rw [finishHeader, h.bodiless, Bool.or_true, if_pos rfl]
  have hreach := Reaches.single
    (step_fields_end h.state (putField_end hl true parser rest) hlast)
  rw [List.drop_left] at hreach
  exact ⟨_, hreach.runs (.done rfl)⟩

end Parser
/-! ### Responses end with their header -/

/-- What is written of a prepared response is its header, and that is all that the parser takes
of it and of what follows it. -/
structure EndsAtHeader (config : ParserConfig) (serialize : ℕ → Text) (message : Message false)
    (writer : Writer) : Prop where
  header : ∀ turns text, (Serializer.new config.split (message.preparePayload config.split)
    writer).drain serialize turns = some text →
      text = serializeHeader serialize (message.preparePayload config.split).header
  boundary : Sendable message.header → ∀ turns text, (Serializer.new config.split
    (message.preparePayload config.split) writer).drain serialize turns = some text →
      ∀ (pieces : List Text) (next : Text), pieces.flatten = text ++ next →
        (∃ parsed, readMessage config false pieces = .done parsed text.length) ∧
          readMessage config false [pieces.flatten.drop text.length] =
            readMessage config false [next]

theorem preparePayload_start (split : Text → List Text) {message : Message false}
    (h : message.header.bodiless = true) :
    (message.preparePayload split).header.version = message.header.version ∧
      (message.preparePayload split).header.start = message.header.start := by
  rw [Message.preparePayload, if_pos h, Header.setChunked]
  simp only [Bool.false_eq_true, if_false, Bool.not_false, if_true]
  split <;> exact ⟨rfl, rfl⟩

/-- The header of a response without a body is a message. -/
theorem readMessage_bodiless {config : ParserConfig} (hsplit : SplitsLists config.split)
    {serialize : ℕ → Text} (hserialize : ∀ n, serialize n = ascii (toString n))
    (hheader : config.headerLimit = 0) (hbody : config.bodyLimit = 0) {message : Message false}
    (hbodiless : message.header.bodiless = true) (h : Sendable message.header)
    {pieces : List Text} {next : Text}
    (hpieces : pieces.flatten =
      serializeHeader serialize (message.preparePayload config.split).header ++ next) :
    ∃ parsed, readMessage config false pieces = .done parsed
      (serializeHeader serialize (message.preparePayload config.split).header).length := by
  have hb : config.Bounded := hbody.trans_le (Nat.zero_le _)
  obtain ⟨hversion, hstart⟩ := preparePayload_start config.split hbodiless
  set prepared := (message.preparePayload config.split).header with hprepared
  have hcode : prepared.bodiless = true := by
    show StatusLine.bodiless prepared.start = true
    rw [hstart]
    exact hbodiless
  obtain ⟨hentries, frame, hframe⟩ := h.prepared hsplit hbodiless
  set fields := prepared.fields.entries.flatMap entryText with hfields
  obtain ⟨version, start, hsame, hparse⟩ := parseStatusLine_written hserialize
    (by rw [hversion]; exact h.version) hcode (by rw [hstart]; exact h.reason)
    (fields ++ (lineEnd ++ next))
  have hstatus : start.bodiless = true := by
    have hprep : StatusLine.bodiless prepared.start = true := hcode
    rw [StatusLine.bodiless] at hprep ⊢
    rw [hsame]
    exact hprep
  have hne : startText serialize prepared ≠ [] := by simp [startText, lineEnd]
  obtain ⟨p₁, hreach₁, hat₁⟩ := Parser.reaches_inFields hheader hne hstatus hparse
  obtain ⟨p₂, hreach₂, hat₂⟩ := hat₁.entries_run hheader hentries hframe next
  obtain ⟨p₃, hruns⟩ := hat₂.finish hheader next
  have hrun := hreach₁.runs (hreach₂.runs hruns)
  have hwhole : serializeHeader serialize prepared ++ next =
      startText serialize prepared ++ (fields ++ (lineEnd ++ next)) := by
    rw [serializeHeader_eq]
    simp only [List.append_assoc, hfields]
  rw [← hwhole] at hrun
  have hnonempty : pieces.flatten ≠ [] := by
    rw [hpieces, hwhole]
    simp [hne]
  have hread := readMessage_source hb false pieces hnonempty
  have hreads := @Reads.done _ config 0 _ [] pieces.flatten _ _ (by rw [hpieces]; exact hrun)
  refine ⟨p₃.message, ?_⟩
  rw [hread.det hheader hreads, hpieces]
  simp

theorem bodiless_ends_iff {config : ParserConfig} (hsplit : SplitsLists config.split)
    {serialize : ℕ → Text} (hserialize : ∀ n, serialize n = ascii (toString n))
    (hheader : config.headerLimit = 0) (hbody : config.bodyLimit = 0) {message : Message false}
    (hbodiless : message.header.bodiless = true) (writer : Writer) :
    EndsAtHeader config serialize message writer ↔ ∀ body ∈ writer.output, body = [] := by
  have hdrain := fun text => @Serializer.drain_output false serialize config.split
    (message.preparePayload config.split) writer (bodiless_chunked hsplit hbodiless) text
  constructor
  · intro hends body houtput
    obtain ⟨turns, htext⟩ := (hdrain _).mpr ⟨body, houtput, rfl⟩
    exact List.self_eq_append_right.mp (hends.header turns _ htext).symm
  · intro hnone
    have hheaderOnly : ∀ turns text, (Serializer.new config.split
        (message.preparePayload config.split) writer).drain serialize turns = some text →
        text = serializeHeader serialize (message.preparePayload config.split).header := by
      intro turns text htext
      obtain ⟨body, houtput, rfl⟩ := (hdrain text).mp ⟨turns, htext⟩
      rw [hnone body houtput, List.append_nil]
    refine ⟨hheaderOnly, fun hsendable turns text htext pieces next hpieces => ⟨?_, ?_⟩⟩
    · rw [hheaderOnly turns text htext] at hpieces ⊢
      exact readMessage_bodiless hsplit hserialize hheader hbody hbodiless hsendable hpieces
    · rw [hpieces, List.drop_left]

/-- A response of not modified. -/
def notModified : Message false where
  header := ⟨version11, ⟨304, []⟩, Fields.empty⟩
  body := []

theorem bodiless_ends_iff_notModified :
    EndsAtHeader ⟨listItems, 100, 0, 0, false⟩ (fun n => ascii (toString n)) notModified
      ⟨none, []⟩ ↔ ∀ body ∈ (⟨none, []⟩ : Writer).output, body = [] :=
  bodiless_ends_iff listItems_splits (fun _ => rfl) rfl rfl rfl ⟨none, []⟩

/-- Another response as a body. -/
def forged : Text := ascii "HTTP/1.1 200 OK\r\nContent-Length: 0\r\n\r\n"

/-- The body is written behind the header, and read as the next response. -/
theorem notModified_body_written :
    ¬EndsAtHeader ⟨listItems, 100, 0, 0, false⟩ (fun n => ascii (toString n)) notModified
      ⟨none, [.ok (some (forged, false))]⟩ ∧
    readMessage ⟨listItems, 100, 0, 0, false⟩ false
      [ascii "HTTP/1.1 304 Not Modified\r\n\r\n" ++ forged] =
        .done ⟨⟨version11, ⟨304, ascii "Not Modified"⟩, Fields.empty⟩, []⟩ 29 ∧
    readMessage ⟨listItems, 100, 0, 0, false⟩ false
      [(ascii "HTTP/1.1 304 Not Modified\r\n\r\n" ++ forged).drop 29] =
        .done ⟨⟨version11, ⟨200, ascii "OK"⟩,
          Fields.empty.insert (ascii "Content-Length") (ascii "0")⟩, []⟩ forged.length := by
  refine ⟨fun hends => ?_, ?_, ?_⟩
  · have hwritten := hends.header 2 (ascii "HTTP/1.1 304 Not Modified\r\n\r\n" ++ forged)
      (by decide)
    revert hwritten
    decide
  · decide
  · decide +kernel

end BitcoinNetwork.Http
