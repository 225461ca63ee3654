import BitcoinNetwork.Http.Framing
import BitcoinNetwork.Incremental.Element

/-!
# Elements of a message (messages/http/parser.cpp:88-296, 430-688)

The start line, a field line (with folded lines) or the empty line that ends
the fields, and the chunk line. Each is parsed from the front of its text with
need_more (here `more`) where the text ends before the element does, and is
stable: text that arrives later changes neither its value nor its error.
-/

namespace BitcoinNetwork.Http
open Incremental

/-- An element parse of the source, its size being the text it leaves out. -/
abbrev Parse (α : Type) : Type := Element UInt8 HttpError α

/-- `find_line`: text without control characters up to the line end. The error
of another control character is the caller's. -/
def findLine (bad : HttpError) : Parse Text := do
  let text ← Element.scan fun c => !isControl c
  let c ← Element.item
  if c ≠ cr then Element.fail bad
  else do
    let next ← Element.item
    if next ≠ lf then Element.fail .badLineEnding else pure text

/-- `parse_version`: limited to 1.0 and 1.1. -/
def parseVersion : Parse ℕ := do
  let text ← Element.exactly 8
  let major := text.getD 5 0
  let minor := text.getD 7 0
  if text.take 5 ≠ ascii "HTTP/" ∨ !isDigit major ∨ text.getD 6 0 ≠ 46 ∨ !isDigit minor then
    Element.fail .badVersion
  else
    let version := (major.toNat - 48) * 10 + (minor.toNat - 48)
    if version < version10 ∨ version11 < version then Element.fail .badVersion
    else pure version

/-- `parse_start_line(request_header&, ..)`. -/
def parseRequestLine : Parse (ℕ × RequestLine) := do
  let method ← Element.scan isTchar
  let c ← Element.item
  if c ≠ sp ∨ method = [] then Element.fail .badMethod
  else do
    let target ← Element.scan isTargetChar
    let c ← Element.item
    if c ≠ sp ∨ target = [] then Element.fail .badTarget
    else do
      let version ← parseVersion
      let ending ← Element.exactly 2
      if ending ≠ lineEnd then Element.fail .badVersion
      else pure (version, RequestLine.ofMethodString method target)

/-- `parse_start_line(response_header&, ..)`. -/
def parseStatusLine : Parse (ℕ × StatusLine) := do
  let version ← parseVersion
  let c ← Element.item
  if c ≠ sp then Element.fail .badVersion
  else do
    let status ← Element.exactly 4
    let hundreds := status.getD 0 0
    let tens := status.getD 1 0
    let units := status.getD 2 0
    if !isDigit hundreds ∨ !isDigit tens ∨ !isDigit units ∨ status.getD 3 0 ≠ sp then
      Element.fail .badStatus
    else do
      let code := (hundreds.toNat - 48) * 100 + (tens.toNat - 48) * 10 + (units.toNat - 48)
      let reason ← findLine .badReason
      pure (version, ⟨code, reason⟩)

def parseStartLine : (isRequest : Bool) → Parse (ℕ × StartLine isRequest)
  | true => parseRequestLine
  | false => parseStatusLine

/-- `trim_back`. -/
def trimBack (text : Text) : Text := (text.reverse.dropWhile isWhitespace).reverse

/-- One line of a field value, which continues if whitespace follows its end. -/
def valueLine (value : Text) : Parse (Text ⊕ Text) := do
  let _ ← Element.scan isWhitespace
  let text ← findLine .badValue
  -- the character following the line end determines folding
  let next ← Element.peek 1
  let part := trimBack text
  let value := if part = [] then value else if value = [] then part else value ++ sp :: part
  if isWhitespace (next.getD 0 0) then do
    let _ ← Element.item
    pure (.inl value)
  else pure (.inr value)

/-- The name and value of a field line, or none for the empty line that ends the fields. -/
def parseFieldLine : Parse (Option (Text × Text)) := do
  let front ← Element.peek 2
  if front.getD 0 0 = cr then
    if front.getD 1 0 ≠ lf then Element.fail .badLineEnding
    else do
      let _ ← Element.exactly 2
      pure none
  else do
    let name ← Element.scan isTchar
    let c ← Element.item
    if c ≠ colon ∨ name = [] then Element.fail .badField
    else do
      let value ← Element.iterate valueLine []
      pure (some (name, value))

/-- `parse_field`, of which a field comes with the framing it leaves. -/
def parseField (split : Text → List Text) (frame : Framing) :
    Parse (Option (Text × Text) × Framing) := do
  match ← parseFieldLine with
  | none => pure (none, frame)
  | some (name, value) =>
    match frameField split frame (framingField name) value with
    | .error e => Element.fail e
    | .ok frame' => pure (some (name, value), frame')

/-- `find_chunk_line`: any text up to a line end, in which a CR precedes an LF. -/
def findChunkLine : Parse Text := do
  let text ← Element.scan fun c => c != cr
  let ending ← Element.exactly 2
  if ending.getD 1 0 ≠ lf then Element.fail .badLineEnding else pure text

/-! ### Every element is stable, prompt and consumes -/

theorem findLine_prompt (bad : HttpError) : Element.Prompt (findLine bad) :=
  (Element.Prompt.scan _).bind fun _ => Element.Prompt.item.bind fun _ =>
    (Element.Prompt.fail _).ite <| Element.Prompt.item.bind fun _ =>
      (Element.Prompt.fail _).ite (Element.Prompt.pure _)

theorem parseVersion_prompt : Element.Prompt parseVersion :=
  (Element.Prompt.exactly 8).bind fun _ =>
    (Element.Prompt.fail _).ite ((Element.Prompt.fail _).ite (Element.Prompt.pure _))

theorem parseRequestLine_prompt : Element.Prompt parseRequestLine :=
  (Element.Prompt.scan _).bind fun _ => Element.Prompt.item.bind fun _ =>
    (Element.Prompt.fail _).ite <| (Element.Prompt.scan _).bind fun _ =>
      Element.Prompt.item.bind fun _ => (Element.Prompt.fail _).ite <|
        parseVersion_prompt.bind fun _ => (Element.Prompt.exactly 2).bind fun _ =>
          (Element.Prompt.fail _).ite (Element.Prompt.pure _)

theorem parseStatusLine_prompt : Element.Prompt parseStatusLine :=
  parseVersion_prompt.bind fun _ => Element.Prompt.item.bind fun _ =>
    (Element.Prompt.fail _).ite <| (Element.Prompt.exactly 4).bind fun _ =>
      (Element.Prompt.fail _).ite <| (findLine_prompt _).bind fun _ => Element.Prompt.pure _

theorem parseStartLine_prompt (isRequest : Bool) : Element.Prompt (parseStartLine isRequest) := by
  cases isRequest with
  | true => exact parseRequestLine_prompt
  | false => exact parseStatusLine_prompt

theorem parseStartLine_consumes (isRequest : Bool) :
    Element.Consumes (parseStartLine isRequest) := by
  cases isRequest with
  | true =>
    refine .bind_right (Element.Stable.scan _) fun _ => .bind_left .item fun _ => ?_
    exact (Element.Stable.fail _).ite <| (Element.Stable.scan _).bind fun _ =>
      Element.Stable.item.bind fun _ => (Element.Stable.fail _).ite <|
        parseVersion_prompt.toStable.bind fun _ => (Element.Stable.exactly 2).bind fun _ =>
          (Element.Stable.fail _).ite (Element.Stable.pure _)
  | false =>
    refine .bind_right parseVersion_prompt.toStable fun _ => .bind_left .item fun _ => ?_
    exact (Element.Stable.fail _).ite <| (Element.Stable.exactly 4).bind fun _ =>
      (Element.Stable.fail _).ite <| (findLine_prompt _).toStable.bind fun _ =>
        Element.Stable.pure _

theorem valueLine_prompt (value : Text) : Element.Prompt (valueLine value) :=
  (Element.Prompt.scan _).bind fun _ => (findLine_prompt _).bind fun _ =>
    .peek_one_bind fun _ =>
      (Element.Prompt.item.bind fun _ => Element.Prompt.pure _).ite (Element.Prompt.pure _)

theorem valueLine_consumes (value : Text) : Element.Consumes (valueLine value) := by
  refine .bind_right (Element.Stable.scan _) fun _ => .bind_left ?_ fun _ =>
    (Element.Stable.peek 1).bind fun _ =>
      (Element.Stable.item.bind fun _ => Element.Stable.pure _).ite (Element.Stable.pure _)
  exact .bind_right (Element.Stable.scan _) fun _ => .bind_left .item fun _ =>
    (Element.Stable.fail _).ite <| Element.Stable.item.bind fun _ =>
      (Element.Stable.fail _).ite (Element.Stable.pure _)

theorem parseFieldLine_consumes : Element.Consumes parseFieldLine := by
  refine .bind_right (Element.Stable.peek 2) fun _ => .ite ?_ ?_
  · exact .ite (.fail _) (.bind_left (.exactly (by decide)) fun _ => Element.Stable.pure _)
  · refine .bind_right (Element.Stable.scan _) fun _ => .bind_left .item fun _ => ?_
    exact (Element.Stable.fail _).ite
      ((Element.Prompt.iterate valueLine_prompt valueLine_consumes []).toStable.bind fun _ =>
        Element.Stable.pure _)

theorem parseFieldLine_prompt : Element.Prompt parseFieldLine := by
  refine .peek_bind (fun _ => .ite ?_ ?_) fun h => ?_
  · exact (Element.Prompt.fail _).ite
      ((Element.Prompt.exactly 2).bind fun _ => Element.Prompt.pure _)
  · exact (Element.Prompt.scan _).bind fun _ => Element.Prompt.item.bind fun _ =>
      (Element.Prompt.fail _).ite ((Element.Prompt.iterate valueLine_prompt valueLine_consumes
        []).bind fun _ => Element.Prompt.pure _)
  · have hlt := parseFieldLine_consumes.shorter h
    omega

/-- The framing of a field line is decided by its name and value. -/
theorem frameLine_prompt (split : Text → List Text) (frame : Framing)
    (line : Option (Text × Text)) : Element.Prompt (match line with
      | none => pure (none, frame)
      | some (name, value) =>
        match frameField split frame (framingField name) value with
        | .error e => Element.fail e
        | .ok frame' => pure (some (name, value), frame') :
      Parse (Option (Text × Text) × Framing)) := by
  match line with
  | none => exact Element.Prompt.pure _
  | some (name, value) =>
    cases h : frameField split frame (framingField name) value with
    | error e =>
      simp only [h]
      exact Element.Prompt.fail e
    | ok frame' =>
      simp only [h]
      exact Element.Prompt.pure _

theorem parseField_prompt (split : Text → List Text) (frame : Framing) :
    Element.Prompt (parseField split frame) :=
  parseFieldLine_prompt.bind (frameLine_prompt split frame)

theorem parseField_consumes (split : Text → List Text) (frame : Framing) :
    Element.Consumes (parseField split frame) :=
  .bind_left parseFieldLine_consumes fun line => (frameLine_prompt split frame line).toStable

/-! ### Chunk lines -/

theorem findChunkLine_append {line : Text} (hl : ∀ c ∈ line, c ≠ cr) (b : UInt8) (rest : Text) :
    findChunkLine (line ++ cr :: b :: rest) =
      if b = lf then .done line rest else .fail .badLineEnding := by
  have hscan : (Element.scan (fun c => c != cr) : Parse Text) (line ++ cr :: b :: rest)
      = .done line (cr :: b :: rest) :=
    Element.scan_append _ (fun c hc => by simpa using hl c hc) (by simp)
  have hending : (Element.exactly 2 : Parse Text) (cr :: b :: rest) = .done [cr, b] rest :=
    @Element.exactly_append _ _ 2 [cr, b] rfl rest
  unfold findChunkLine
  rw [Element.bind_of_done hscan, Element.bind_of_done hending]
  by_cases hb : b = lf
  · rw [if_pos hb, if_neg (by simpa using hb)]
    rfl
  · rw [if_neg hb, if_pos (by simpa using hb)]
    rfl

theorem findChunkLine_incomplete {line : Text} (hl : ∀ c ∈ line, c ≠ cr) :
    findChunkLine (line ++ [cr]) = .more := by
  have hscan : (Element.scan (fun c => c != cr) : Parse Text) (line ++ [cr]) = .done line [cr] :=
    Element.scan_append _ (fun c hc => by simpa using hl c hc) (by simp)
  rw [findChunkLine, Element.bind_of_done hscan]
  rfl

/-- A chunk line is decided by its first CR and the character behind it. -/
theorem findChunkLine_cases (d : Text) : findChunkLine d = .more ∨
    ∃ line b rest, d = line ++ cr :: b :: rest ∧ ∀ c ∈ line, c ≠ cr := by
  have hmem : ∀ c ∈ d.takeWhile (fun c => c != cr), c ≠ cr := fun c hc => by
    simpa using List.mem_takeWhile_imp hc
  cases hd : d.dropWhile (fun c => c != cr) with
  | nil =>
    left
    simp only [findChunkLine, Element.bind_apply, Element.scan, hd]
  | cons c tail =>
    have hc : c = cr := by
      have hhead := List.head?_dropWhile_not (fun c => c != cr) d
      rw [hd] at hhead
      simpa using hhead
    subst hc
    cases tail with
    | nil =>
      left
      simp [findChunkLine, Element.bind_apply, Element.scan, Element.exactly, hd]
    | cons b rest =>
      right
      refine ⟨d.takeWhile (fun c => c != cr), b, rest, ?_, hmem⟩
      rw [← hd, List.takeWhile_append_dropWhile]

/-- The digits of `parse_chunk_size` from a position: the size and the number
of digits, or none when another digit would not fit 64 bits. -/
def chunkDigits : Text → ℕ → ℕ → Option (ℕ × ℕ)
  | [], size, index => some (size, index)
  | c :: rest, size, index =>
    match toNibble c with
    | none => some (size, index)
    | some nibble =>
      if (2 ^ 64 - 1) / 16 < size then none
      else chunkDigits rest (size * 16 + nibble) (index + 1)

/-- `parse_chunk_size`: the size and its number of digits. -/
def parseChunkSize (line : Text) : Except HttpError (ℕ × ℕ) :=
  match chunkDigits line 0 0 with
  | none => .error .badChunk
  | some (size, index) => if index = 0 then .error .badChunk else .ok (size, index)

def quote : UInt8 := 34
def equals : UInt8 := 61
def semicolon : UInt8 := 59
def backslash : UInt8 := 92

/-- The text behind the closing quote of a quoted string, the opening quote
being passed, or none if the line ends before it. -/
def quotedRest : Text → Option Text
  | [] => none
  | c :: rest =>
    if c = quote then some rest
    else if c = backslash then
      match rest with
      | [] => none
      | _ :: rest => quotedRest rest
    else quotedRest rest

/-- The extensions of a chunk line. A position of the line is the text from it,
whose end stands for the CR that follows the line; `outer` is at the head of
the outer loop of the source and otherwise at the name behind a semicolon. -/
def chunkExtensions : ℕ → Bool → Text → Bool
  | 0, _, _ => false
  | turns + 1, true, text =>
    match text with
    | [] => true
    | c :: _ =>
      if !isWhitespace c && c != semicolon then false
      else match text.dropWhile isWhitespace with
        | [] => false
        | c :: rest => if c ≠ semicolon then false else chunkExtensions turns false rest
  | turns + 1, false, text =>
    let name := text.dropWhile isWhitespace
    if (name.takeWhile isTchar).isEmpty then false
    else
      let behind := name.dropWhile isTchar
      let spaced := !(behind.takeWhile isWhitespace).isEmpty
      match behind.dropWhile isWhitespace with
      | [] => if spaced then false else chunkExtensions turns true []
      | c :: rest =>
        if c = semicolon then chunkExtensions turns false rest
        else if c ≠ equals then
          if spaced then false else chunkExtensions turns true (c :: rest)
        else match rest.dropWhile isWhitespace with
          | [] => false
          | c :: value =>
            if c ≠ quote then
              if !isTchar c then false
              else chunkExtensions turns true ((c :: value).dropWhile isTchar)
            else match quotedRest value with
              | none => false
              | some value => chunkExtensions turns true value

/-- `valid_chunk_extensions`. -/
def validChunkExtensions (line : Text) (index : ℕ) : Bool :=
  chunkExtensions (2 * line.length + 2) true (line.drop index)

end BitcoinNetwork.Http
