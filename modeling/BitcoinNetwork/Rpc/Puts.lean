import BitcoinNetwork.Rpc.Grammar

/-!
# What a put reads (messages/rpc/body.cpp)

The body of an http message has one reader. A stream has one for each message that it
delivers. Both are in a state of the scanner (`Scan.reader`), and `put` takes what the
scanner takes (`put_taken`), up to the first of its outputs.
-/

namespace BitcoinNetwork.Rpc
open Incremental (scan scan_append scan_append_error scan_ok scan_quiet scan_single scan_error)
open Net (ceilingedAdd)

variable {σ ν α : Type} (json : Json σ ν α)

/-- The body of an http message, or a stream, of which the messages are terminated or not. -/
inductive Carrier where
  | body
  | stream (terminated : Bool)

namespace Carrier

def terminated : Carrier → Bool
  | body => false
  | stream terminated => terminated

/-- A batch has one reader. -/
def keeps : Carrier → Bool
  | body => true
  | stream _ => false

end Carrier

/-- What a reader has beside its state. -/
structure Store (α : Type) where
  expected : ℕ := maxSize
  total : ℕ := 0
  message : Message α := {}
  laxParams : Bool := false
  laxBatch : Bool := false

namespace Store

/-- The limit is not exceeded by the characters to come. -/
def Fits (store : Store α) (size : ℕ) : Prop :=
  store.expected = maxSize ∨ store.total + size ≤ store.expected

/-- So many characters were passed to the parser. -/
def add (store : Store α) (size : ℕ) : Store α :=
  { store with total := ceilingedAdd store.total size }

end Store

variable (carrier : Carrier) (store : Store α)

/-- The reader in a state of the scanner. -/
def Scan.reader (q : Scan σ ν) : Reader σ ν α :=
  let start : Reader σ ν α :=
    { terminated := carrier.terminated
      document := .parsing json.start
      expected := store.expected
      total := store.total
      value :=
        { message := store.message
          laxParams := store.laxParams
          laxBatch := store.laxBatch } }
  let batched : Reader σ ν α :=
    { start with opened := carrier.keeps, delivered := carrier.keeps, value.batch := true }
  match q with
  | .outside => start
  | .opened => { start with opened := true, value.changed := true }
  | .single state => { start with started := true, document := .parsing state }
  | .whole model => { start with started := true, document := .parsed model }
  | .finished model =>
    { start with started := true, document := .parsed model, hasTerminator := true }
  | .batched true state =>
    { start with opened := true, value.changed := true, started := true, document := .parsing state }
  | .batched false state =>
    { batched with separated := true, started := true, document := .parsing state }
  | .between => batched
  | .separated => { batched with separated := true }
  | .closing => { batched with closed := true, value.changed := true }
  | .closed =>
    { batched with
      closed := true
      signaled := true
      hasTerminator := carrier.terminated
      value.changed := true }

/-- States that the reader has before an element or the close of a batch. -/
def Scan.Waits : Scan σ ν → Prop
  | .outside | .opened | .between | .separated => True
  | _ => False

/-- The states of a reader that is put more of the text. That of a stream is done with a
singleton that is not terminated, and is dropped at the close of a batch. -/
def Scan.Rests : Scan σ ν → Prop
  | .single state => ∃ m, Begun json m state
  | .whole _ => carrier ≠ .stream false
  | .finished _ => False
  | .closing => carrier = .stream true
  | .closed => carrier = .body
  | _ => True

/-- The states of a reader that is done with a singleton of a stream. -/
def Scan.Ends : Scan σ ν → Prop
  | .whole _ => carrier = .stream false
  | .finished _ => carrier = .stream true
  | _ => False

/-- The states that are in front of others. -/
def Scan.Unsettled : Scan σ ν → Prop
  | .whole _ => carrier ≠ .stream false
  | .finished _ => False
  | .closed => carrier = .body
  | _ => True

/-- An element with a line in it ends with a bracket. -/
def Json.Bracketed : Prop :=
  ∀ m model, Element json m model → line ∈ m →
    ∃ body c, m = body ++ [c] ∧ isRpcTerminator c = true

/-- What a put takes of the text, with as many characters behind it: no output, an element,
the close of a batch, or an error. -/
inductive Taken (left : ℕ) (q : Scan σ ν) (text : Text) : Put σ ν α → Prop where
  | quiet (q' : Scan σ ν) {taken rest : Text} {store' : Store α} (split : text = taken ++ rest)
      (ne : taken ≠ []) (rests : q'.Rests json carrier ∨ q'.Ends carrier)
      (fits : store'.Fits (rest.length + left))
      (takes : scan (Scan.step json carrier.terminated) q taken = ([], .ok q')) :
      Taken left q text ⟨q'.reader json carrier store', rest, none⟩
  | element {taken rest : Text} {store' : Store α} {opened : Bool} {value : Value α}
      (split : text = taken ++ rest) (ne : taken ≠ []) (fits : store'.Fits (rest.length + left))
      (keeps : carrier.keeps = true → opened = true) (unclosed : (value.changed && value.batch) = false)
      (takes : scan (Scan.step json carrier.terminated) q taken
        = ([.element value], .ok .between)) :
      Taken left q text
        ⟨{ Scan.reader json carrier store' .between with
            opened := opened, delivered := true, value := value }, rest, some .needBuffer⟩
  | close {taken rest : Text} {store' : Store α} (split : text = taken ++ rest) (ne : taken ≠ [])
      (fits : store'.Fits (rest.length + left))
      (takes : scan (Scan.step json carrier.terminated) q taken = ([.close], .ok .closed)) :
      Taken left q text ⟨Scan.reader json carrier store' .closed, rest, some .needBuffer⟩
  | refused {reader : Reader σ ν α} {e : RpcError} (q' : Scan σ ν) (front rest left' : Text)
      (c : UInt8) (split : text = front ++ c :: rest) (ne : e ≠ .needBuffer) (unsettled : q'.Unsettled carrier)
      (takes : scan (Scan.step json carrier.terminated) q front = ([], .ok q'))
      (refuses : q'.step json carrier.terminated c = .error e) :
      Taken left q text ⟨reader, left', some e⟩

variable {json carrier store}

theorem Carrier.of_terminated (h : carrier.terminated = true) : carrier = .stream true := by
  cases carrier with
  | body => cases h
  | stream terminated => exact congrArg Carrier.stream h

theorem Scan.whole_rests (model : ν) :
    (Scan.whole model : Scan σ ν).Rests json carrier ∨ (Scan.whole model : Scan σ ν).Ends carrier :=
  (em (carrier = .stream false)).symm

theorem Scan.Waits.rests {q : Scan σ ν} (h : q.Waits) : q.Rests json carrier := by
  cases q <;> first | trivial | exact absurd h id

theorem Scan.Waits.unsettled {q : Scan σ ν} (h : q.Waits) : q.Unsettled carrier := by
  cases q <;> first | trivial | exact absurd h id

/-! ### Delimiters -/

/-- The state in which an element is read. -/
def Scan.entered : Scan σ ν → σ → Scan σ ν
  | .outside => .single
  | .opened => .batched true
  | _ => .batched false

/-- A character in front of an element is skipped or refused, closes the batch, or starts the
element. -/
theorem prologue_cases {q : Scan σ ν} (hq : q.Waits) (c : UInt8) (text : Text) :
    (∃ q' : Scan σ ν, q'.Waits ∧ q.step json carrier.terminated c = .ok (q', []) ∧
      (q.reader json carrier store).prologue (c :: text)
        = (q'.reader json carrier store).prologue text) ∨
    (∃ e, e ≠ .needBuffer ∧ q.step json carrier.terminated c = .error e ∧
      (q.reader json carrier store).prologue (c :: text)
        = .error ⟨q.reader json carrier store, c :: text, some e⟩) ∨
    (q = .between ∧ c = closeBracket ∧ (q.reader json carrier store).prologue (c :: text)
        = .ok (Scan.reader json carrier store .closing, text)) ∨
    (q ≠ .between ∧ Opens (c :: text) ∧ (q.reader json carrier store).prologue (c :: text)
        = .ok ((q.entered json.start).reader json carrier store, c :: text)) := by
  have hopen : isJsonWhitespace openBracket = false := rfl
  have hcomma : isJsonWhitespace comma = false := rfl
  have hclose : isJsonWhitespace closeBracket = false := rfl
  by_cases hw : isJsonWhitespace c = true
  · refine .inl ⟨q, hq, ?_, ?_⟩
    · cases q <;> first | exact absurd hq id | simp only [Scan.step, hw, if_true]
    · rw [Reader.prologue, if_pos hw]
  · by_cases ho : c = openBracket
    · subst ho
      cases q with
      | outside => exact .inl ⟨.opened, trivial, rfl, rfl⟩
      | opened => exact .inr (.inl ⟨.batchMalformed, by decide, rfl, by cases carrier <;> rfl⟩)
      | between => exact .inr (.inl ⟨.batchMalformed, by decide, rfl, by cases carrier <;> rfl⟩)
      | separated => exact .inr (.inl ⟨.batchMalformed, by decide, rfl, by cases carrier <;> rfl⟩)
      | _ => exact absurd hq id
    · by_cases hc : c = comma
      · subst hc
        cases q with
        | outside => exact .inr (.inl ⟨.batchMalformed, by decide, rfl, rfl⟩)
        | opened => exact .inr (.inl ⟨.batchMalformed, by decide, rfl, rfl⟩)
        | between => exact .inl ⟨.separated, trivial, rfl, by cases carrier <;> rfl⟩
        | separated =>
          exact .inr (.inl ⟨.batchMalformed, by decide, rfl, by cases carrier <;> rfl⟩)
        | _ => exact absurd hq id
      · by_cases hb : c = closeBracket
        · subst hb
          cases q with
          | outside => exact .inr (.inl ⟨.batchMalformed, by decide, rfl, rfl⟩)
          | opened => exact .inr (.inl ⟨.batchEmpty, by decide, rfl, rfl⟩)
          | between => exact .inr (.inr (.inl ⟨rfl, rfl, by cases carrier <;> rfl⟩))
          | separated =>
            exact .inr (.inl ⟨.batchMalformed, by decide, rfl, by cases carrier <;> rfl⟩)
          | _ => exact absurd hq id
        · have hopens : Opens (c :: text) := ⟨c, text, rfl, Bool.eq_false_iff.mpr hw, ho, hc, hb⟩
          cases q with
          | outside =>
            refine .inr (.inr (.inr ⟨fun h => (by cases h), hopens, ?_⟩))
            rw [Reader.prologue, if_neg hw]
            simp [Scan.reader, Scan.entered, ho, hc, hb]
          | opened =>
            refine .inr (.inr (.inr ⟨fun h => (by cases h), hopens, ?_⟩))
            rw [Reader.prologue, if_neg hw]
            simp [Scan.reader, Scan.entered, ho, hc, hb]
          | between =>
            refine .inr (.inl ⟨.batchMalformed, by decide, ?_, ?_⟩)
            · simp only [Scan.step, hw, hc, hb, if_false]
              rfl
            · rw [Reader.prologue, if_neg hw]
              cases carrier <;> simp [Scan.reader, Carrier.keeps, ho, hc, hb]
          | separated =>
            refine .inr (.inr (.inr ⟨fun h => (by cases h), hopens, ?_⟩))
            rw [Reader.prologue, if_neg hw]
            cases carrier <;> simp [Scan.reader, Scan.entered, Carrier.keeps, ho, hc, hb]
          | _ => exact absurd hq id

/-! ### The parser -/

theorem spaces_takeWhile (text : Text) : Spaces (text.takeWhile isJsonWhitespace) :=
  List.all_eq_true.mp List.all_takeWhile

/-- What the parser leaves behind a document is behind whitespace. -/
theorem takesSpaces_split (text : Text) : ∃ spaces rest, text = spaces ++ rest ∧ Spaces spaces ∧
    (if json.takesSpaces then text.dropWhile isJsonWhitespace else text) = rest := by
  split
  · exact ⟨_, _, List.takeWhile_append_dropWhile.symm, spaces_takeWhile text, rfl⟩
  · exact ⟨[], text, rfl, spaces_nil, rfl⟩

/-- The parser takes the text, is done in front of the rest, or fails. -/
theorem writeSome_cases (state : σ) (text : Text) :
    (∃ next, run json state text = some next ∧
      writeSome json state text = (.parsing next, [], none)) ∨
    (∃ body c last model spaces rest, text = body ++ c :: (spaces ++ rest) ∧ Spaces spaces ∧
      run json state body = some last ∧ json.write last c = .done model ∧
      writeSome json state text = (.parsed model, rest, none)) ∨
    (∃ body c last code rest, text = body ++ c :: rest ∧ run json state body = some last ∧
      json.write last c = .fail code ∧
      writeSome json state text = (.parsing last, c :: rest, some (.json code))) := by
  induction text generalizing state with
  | nil => exact .inl ⟨state, rfl, rfl⟩
  | cons c text ih =>
    cases hwrite : json.write state c with
    | more next =>
      have hrun (body : Text) : run json state (c :: body) = run json next body := by
        rw [run, hwrite]
      have hsome : writeSome json state (c :: text) = writeSome json next text := by
        rw [writeSome, hwrite]
      rcases ih next with ⟨last, hlast, hw⟩ | ⟨body, d, last, model, spaces, rest, rfl, hs, hlast, hd, hw⟩ |
        ⟨body, d, last, code, rest, rfl, hlast, hd, hw⟩
      · exact .inl ⟨last, (hrun text).trans hlast, hsome.trans hw⟩
      · exact .inr (.inl ⟨c :: body, d, last, model, spaces, rest, rfl, hs, (hrun body).trans hlast,
          hd, hsome.trans hw⟩)
      · exact .inr (.inr ⟨c :: body, d, last, code, rest, rfl, (hrun body).trans hlast, hd,
          hsome.trans hw⟩)
    | done model =>
      obtain ⟨spaces, rest, htext, hspaces, hrest⟩ := @takesSpaces_split _ _ _ json text
      refine .inr (.inl ⟨[], c, state, model, spaces, rest, ?_, hspaces, rfl, hwrite, ?_⟩)
      · rw [htext]
        rfl
      · rw [writeSome, hwrite]
        dsimp only
        rw [hrest]
    | fail code =>
      refine .inr (.inr ⟨[], c, state, code, text, rfl, rfl, hwrite, ?_⟩)
      rw [writeSome, hwrite]

theorem Store.Fits.limit {size left count : ℕ} (h : store.Fits (size + left)) (hcount : count ≤ size) :
    ¬ store.expected < ceilingedAdd store.total count := by
  unfold Store.Fits at h
  unfold ceilingedAdd
  unfold maxSize at h
  omega

theorem Store.Fits.mono {size less : ℕ} (h : store.Fits size) (hle : less ≤ size) :
    store.Fits less := by
  unfold Store.Fits at *
  omega

theorem Store.Fits.add {size left count : ℕ} (h : store.Fits (count + size + left)) :
    (store.add count).Fits (size + left) := by
  unfold Store.Fits Store.add ceilingedAdd at *
  dsimp only
  omega

/-! ### The element phase -/

section Element
variable {reader : Reader σ ν α} {state : σ} {text : Text}

theorem element_more {next : σ} (hstarted : reader.started = true)
    (hdocument : reader.document = .parsing state) (hne : text ≠ [])
    (hwrite : writeSome json state text = (.parsing next, [], none))
    (hlimit : ¬ reader.expected < ceilingedAdd reader.total text.length) :
    reader.element json text = .error ⟨{ reader with
      document := .parsing next, total := ceilingedAdd reader.total text.length }, [], none⟩ := by
  simp [Reader.element, Reader.basePut, Reader.parsed, hstarted, hdocument, hne, hwrite, hlimit]

theorem element_fail {last : σ} {rest : Text} {code : RpcError} (hstarted : reader.started = true)
    (hdocument : reader.document = .parsing state) (hne : text ≠ [])
    (hwrite : writeSome json state text = (.parsing last, rest, some code)) :
    ∃ reader', reader.element json text = .error ⟨reader', rest, some code⟩ := by
  simp [Reader.element, Reader.basePut, Reader.parsed, hstarted, hdocument, hne, hwrite]

theorem element_done {model : ν} {rest : Text} (hstarted : reader.started = true)
    (hdocument : reader.document = .parsing state) (hne : text ≠ [])
    (hwrite : writeSome json state text = (.parsed model, rest, none))
    (hlimit : ¬ reader.expected < ceilingedAdd reader.total (text.length - rest.length)) :
    reader.element json text = .ok ({ reader with
      document := .parsed model
      total := ceilingedAdd reader.total (text.length - rest.length)
      hasTerminator := reader.hasTerminator || (reader.requiresTerminator &&
        Reader.scanTerminator (text.take (text.length - rest.length)).reverse) }, rest) := by
  cases hline : reader.requiresTerminator &&
      Reader.scanTerminator (text.take (text.length - rest.length)).reverse with
  | true =>
    rw [Reader.requiresTerminator] at hline
    simp [Reader.element, Reader.basePut, Reader.parsed, Reader.requiresTerminator, hstarted,
      hdocument, hne, hwrite, hlimit, hline]
  | false =>
    rw [Reader.requiresTerminator] at hline
    simp [Reader.element, Reader.basePut, Reader.parsed, Reader.requiresTerminator, hstarted,
      hdocument, hne, hwrite, hlimit, hline]

/-! ### The phases behind it -/

theorem put_started (hstarted : reader.started = true) (hne : text ≠ []) :
    reader.put json text = Reader.result (reader.resume json reader.parsed text) := by
  simp only [Reader.put, hne, hstarted, if_false, Bool.not_true, Bool.false_and, Bool.true_and,
    Bool.false_eq_true]
  rfl

theorem resume_error {put : Put σ ν α} {completed : Bool} (hclosed : reader.closed = false)
    (h : reader.element json text = .error put) : reader.resume json completed text = .error put := by
  simp only [Reader.resume, Reader.epilogue, hclosed, Bool.false_and, Bool.false_eq_true, if_false]
  show (reader.element json text >>= _) = _
  rw [h]
  rfl

theorem resume_ok {next : Reader σ ν α} {rest : Text} {completed : Bool}
    (hclosed : reader.closed = false) (h : reader.element json text = .ok (next, rest)) :
    reader.resume json completed text = (do
      let (reader, text) ← next.trailer completed rest
      let (reader, text) ← reader.terminator text
      return reader.delivery json text) := by
  simp only [Reader.resume, Reader.epilogue, hclosed, Bool.false_and, Bool.false_eq_true, if_false]
  show (reader.element json text >>= _) = _
  rw [h]
  rfl

end Element

/-! ### Conversion -/

/-- The request of a model, by the batch state of the value that it is put in. -/
theorem toRequest_flags (value : Value α) (model : ν) : toRequest json value model
    = toRequest json { batch := value.batch, changed := value.changed } model := rfl

theorem toRequest_error {value : Value α} {model : ν} {e : RpcError}
    (h : toRequest json value model = .error e) : e ≠ .needBuffer ∧ e ≠ .needMore := by
  unfold toRequest at h
  cases hvalue : json.valueTo model with
  | error code =>
    rw [hvalue] at h
    cases h
    exact ⟨RpcError.noConfusion, RpcError.noConfusion⟩
  | ok message =>
    rw [hvalue] at h
    dsimp only at h
    split_ifs at h <;> (try split at h) <;>
      first | (cases h; exact ⟨RpcError.noConfusion, RpcError.noConfusion⟩) | cases h

theorem toRequest_ok {value out : Value α} {model : ν} (h : toRequest json value model = .ok out) :
    out.batch = value.batch ∧ out.changed = value.changed := by
  unfold toRequest at h
  cases hvalue : json.valueTo model with
  | error code =>
    rw [hvalue] at h
    cases h
  | ok message =>
    rw [hvalue] at h
    dsimp only at h
    split_ifs at h <;> (try split at h) <;> first | (cases h; exact ⟨rfl, rfl⟩) | cases h

/-! ### The phases of a batch -/

section Phases
variable {reader : Reader σ ν α} {text : Text}

theorem trailer_skip (completed : Bool)
    (h : reader.terminated = true ∨ reader.opened = true ∨ reader.value.batch = true) :
    reader.trailer completed text = .ok (reader, text) := by
  unfold Reader.trailer
  rcases h with h | h | h <;> simp [h]

theorem terminator_skip (h : reader.requiresTerminator = false ∨ reader.hasTerminator = true) :
    reader.terminator text = .ok (reader, text) := by
  unfold Reader.terminator
  rcases h with h | h <;> simp [h]

/-- A batched element that is parsed is delivered, if it is a request. -/
theorem delivery_element {model : ν} (hbatch : reader.opened = true ∨ reader.value.batch = true)
    (hclosed : reader.closed = false) (hstarted : reader.started = true)
    (hdocument : reader.document = .parsed model) :
    (reader.requiresTerminator = false) ∧ reader.delivery json text =
      match toRequest json reader.value model with
      | .error e => ⟨{ reader with document := .parsing json.start }, text, some e⟩
      | .ok value =>
        ⟨{ reader with
            document := .parsing json.start
            value := { value with laxBatch := value.message.jsonrpc == .v1 }
            delivered := true
            started := false
            separated := false
            hasTerminator := false }, text, some .needBuffer⟩ := by
  have hrequires : reader.requiresTerminator = false := by
    unfold Reader.requiresTerminator
    rcases hbatch with h | h <;> simp [h, hclosed]
  refine ⟨hrequires, ?_⟩
  have hdone : reader.done = true := by
    simp [Reader.done, Reader.parsed, hdocument, hrequires]
  have hfinish : reader.baseFinish json
      = .ok ({ reader with document := .parsing json.start }, model) := by
    simp [Reader.baseFinish, hdone, hdocument]
  have hdelivers : (reader.closed || reader.opened || reader.value.batch) = true := by
    rcases hbatch with h | h <;> simp [h]
  have hparsed : reader.parsed = true := by
    simp [Reader.parsed, hdocument]
  unfold Reader.delivery
  rw [if_pos (by simp [hdelivers, hrequires]), if_neg (by simp [hclosed]),
    if_pos (by simp [hstarted, hparsed])]
  unfold Reader.deliver
  rw [hfinish] <;> rfl

/-- An element that completes in a batch goes to the delivery. -/
theorem put_delivers {next : Reader σ ν α} {rest : Text} {model : ν}
    (hstarted : reader.started = true) (hclosed : reader.closed = false) (hne : text ≠ [])
    (helement : reader.element json text = .ok (next, rest))
    (hbatch : next.opened = true ∨ next.value.batch = true) (hclosed' : next.closed = false)
    (hstarted' : next.started = true) (hdocument : next.document = .parsed model) :
    reader.put json text =
      match toRequest json { batch := next.value.batch, changed := next.value.changed } model with
      | .error e => ⟨{ next with document := .parsing json.start }, rest, some e⟩
      | .ok value =>
        ⟨{ next with
            document := .parsing json.start
            value := { value with laxBatch := value.message.jsonrpc == .v1 }
            delivered := true
            started := false
            separated := false
            hasTerminator := false }, rest, some .needBuffer⟩ := by
  obtain ⟨hrequires, hdelivery⟩ := @delivery_element _ _ _ json next rest model hbatch hclosed'
    hstarted' hdocument
  rw [put_started hstarted hne, resume_ok hclosed helement, trailer_skip _ (.inr hbatch)]
  show Reader.result (next.terminator rest >>= _) = _
  rw [terminator_skip (.inl hrequires), ← toRequest_flags, ← hdelivery]
  rfl

end Phases

/-! ### An element of a batch -/

section Batched
variable {first : Bool} {state : σ} {text : Text} {left : ℕ}

theorem batched_enters (json : Json σ ν α) (terminated first : Bool) :
    ∃ q, Scan.Enters json terminated q (.batched first) (Scan.deliver json first) := by
  cases first with
  | true => exact ⟨_, Scan.enters_opened⟩
  | false => exact ⟨_, Scan.enters_separated⟩

theorem batched_taken (hne : text ≠ []) (hfits : store.Fits (text.length + left)) :
    Taken json carrier left (.batched first state) text
      ((Scan.reader json carrier store (.batched first state)).put json text) := by
  obtain ⟨q, henters⟩ := batched_enters json carrier.terminated first
  have hstarted : (Scan.reader json carrier store (.batched first state)).started = true := by
    cases first <;> rfl
  have hclosed : (Scan.reader json carrier store (.batched first state)).closed = false := by
    cases first <;> rfl
  have hdocument : (Scan.reader json carrier store (.batched first state)).document
      = .parsing state := by
    cases first <;> rfl
  have hexpected (n : ℕ) (hn : n ≤ text.length) :
      ¬ (Scan.reader json carrier store (.batched first state)).expected
        < ceilingedAdd (Scan.reader json carrier store (.batched first state)).total n := by
    have hlimit := hfits.limit hn
    cases first <;> exact hlimit
  rcases writeSome_cases state text with ⟨next, hrun, hw⟩ |
    ⟨body, c, last, model, spaces, rest, htext, hspaces, hrun, hwrite, hw⟩ |
    ⟨body, c, last, code, rest, htext, hrun, hwrite, hw⟩
  · rw [put_started hstarted hne,
      resume_error hclosed (element_more hstarted hdocument hne hw (hexpected _ le_rfl))]
    have hstate : ({ Scan.reader json carrier store (.batched first state) with
        document := .parsing next
        total := ceilingedAdd (Scan.reader json carrier store (.batched first state)).total
          text.length } : Reader σ ν α)
        = Scan.reader json carrier (store.add text.length) (.batched first next) := by
      cases first <;> rfl
    rw [hstate]
    refine .quiet _ (List.append_nil text).symm hne (.inl trivial) ?_ (Scan.scan_run henters hrun)
    exact Store.Fits.add (by simpa using hfits)
  · have hsplit : text = (body ++ c :: spaces) ++ rest := by
      rw [htext, List.append_assoc, List.cons_append]
    have hsize : text.length - rest.length = (body ++ c :: spaces).length := by
      rw [hsplit, List.length_append, Nat.add_sub_cancel]
    have helement := element_done hstarted hdocument hne hw (hexpected _ (Nat.sub_le _ _))
    rw [hsize] at helement
    have hnext : ({ Scan.reader json carrier store (.batched first state) with
        document := .parsed model
        total := ceilingedAdd (Scan.reader json carrier store (.batched first state)).total
          (body ++ c :: spaces).length
        hasTerminator := (Scan.reader json carrier store (.batched first state)).hasTerminator ||
          ((Scan.reader json carrier store (.batched first state)).requiresTerminator &&
            Reader.scanTerminator (text.take (body ++ c :: spaces).length).reverse) } :
        Reader σ ν α)
        = { Scan.reader json carrier (store.add (body ++ c :: spaces).length)
              (.batched first state) with document := .parsed model } := by
      cases first <;> simp [Reader.requiresTerminator, Scan.reader, Store.add]
    rw [hnext] at helement
    have hfits' : (store.add (body ++ c :: spaces).length).Fits (rest.length + left) := by
      refine Store.Fits.add ?_
      rwa [hsplit, List.length_append] at hfits
    have hput := put_delivers hstarted hclosed hne helement
      (by cases first; exacts [.inr rfl, .inl rfl]) (by cases first <;> rfl)
      (by cases first <;> rfl) rfl
    have hflags : ({
        batch := (Scan.reader json carrier (store.add (body ++ c :: spaces).length)
          (.batched first state)).value.batch
        changed := (Scan.reader json carrier (store.add (body ++ c :: spaces).length)
          (.batched first state)).value.changed } : Value α)
        = { batch := !first, changed := first } := by
      cases first <;> rfl
    rw [hput]
    dsimp only
    rw [hflags]
    cases hrequest : toRequest json { batch := !first, changed := first } model with
    | error e =>
      refine .refused (.batched first last) body (spaces ++ rest) _ c htext (toRequest_error hrequest).1 trivial
        (Scan.scan_run henters hrun) ((henters.within last c).trans ((Scan.feed_done hwrite).trans ?_))
      rw [Scan.deliver, batchedRequest, hrequest]
    | ok value =>
      have hstate : ({ Scan.reader json carrier (store.add (body ++ c :: spaces).length)
            (.batched first state) with
          document := .parsing json.start
          value := { value with laxBatch := value.message.jsonrpc == .v1 }
          delivered := true
          started := false
          separated := false
          hasTerminator := false } : Reader σ ν α)
          = { Scan.reader json carrier (store.add (body ++ c :: spaces).length) .between with
              opened := first || carrier.keeps
              delivered := true
              value := { value with laxBatch := value.message.jsonrpc == .v1 } } := by
        cases first <;> rfl
      have hflags := toRequest_ok hrequest
      have hdeliver : Scan.deliver json first model
          = .ok (.between, [.element { value with laxBatch := value.message.jsonrpc == .v1 }]) := by
        rw [Scan.deliver, batchedRequest, hrequest]
      dsimp only
      rw [hstate]
      refine .element hsplit (by simp) hfits' (fun hkeeps => by simp [hkeeps]) ?_ ?_
      · dsimp only
        rw [hflags.1, hflags.2]
        cases first <;> rfl
      · rw [scan_append (Scan.scan_run henters hrun),
          scan_ok ((henters.within last c).trans ((Scan.feed_done hwrite).trans hdeliver)),
          Scan.scan_between hspaces]
        rfl
  · obtain ⟨reader', helement⟩ := element_fail hstarted hdocument hne hw
    rw [put_started hstarted hne, resume_error hclosed helement]
    exact .refused (.batched first last) body rest _ c htext RpcError.noConfusion trivial
      (Scan.scan_run henters hrun)
      ((henters.within last c).trans (by rw [Scan.feed, hwrite]))

end Batched

/-! ### The end of a message -/

section Ending
variable {text : Text} {left : ℕ}

/-- What is taken behind characters without output. -/
theorem Taken.prepend {q q' : Scan σ ν} {a rest : Text} {put : Put σ ν α}
    (htakes : scan (Scan.step json carrier.terminated) q a = ([], .ok q'))
    (h : Taken json carrier left q' rest put) : Taken json carrier left q (a ++ rest) put := by
  cases h with
  | quiet _ split ne rests fits takes =>
    refine .quiet _ (by rw [split, List.append_assoc]) (List.append_ne_nil_of_right_ne_nil _ ne) rests
      fits ?_
    rw [scan_append htakes, takes]
    rfl
  | element split ne fits keeps unclosed takes =>
    refine .element (by rw [split, List.append_assoc]) (List.append_ne_nil_of_right_ne_nil _ ne) fits
      keeps unclosed ?_
    rw [scan_append htakes, takes]
    rfl
  | close split ne fits takes =>
    refine .close (by rw [split, List.append_assoc]) (List.append_ne_nil_of_right_ne_nil _ ne) fits ?_
    rw [scan_append htakes, takes]
    rfl
  | refused _ front rest left' c split ne unsettled takes refuses =>
    refine .refused _ (a ++ front) rest left' c (by rw [split, List.append_assoc]) ne unsettled ?_ refuses
    rw [scan_append htakes, takes]
    rfl

/-- Whitespace in front of the terminator, if there is one. -/
theorem terminatorLoop_cases (reader : Reader σ ν α) (text : Text) :
    (Spaces text ∧ line ∉ text ∧ reader.terminatorLoop text = .ok (reader, [])) ∨
    (∃ a rest, text = a ++ line :: rest ∧ Spaces a ∧ line ∉ a ∧
      reader.terminatorLoop text = .ok ({ reader with hasTerminator := true }, rest)) ∨
    (∃ a c rest, text = a ++ c :: rest ∧ Spaces a ∧ line ∉ a ∧ isElectrumTerminator c = false ∧
      isJsonWhitespace c = false ∧
      reader.terminatorLoop text = .error ⟨reader, c :: rest, some .readerStall⟩) := by
  induction text with
  | nil => exact .inl ⟨spaces_nil, List.not_mem_nil, rfl⟩
  | cons c text ih =>
    cases he : isElectrumTerminator c with
    | true =>
      have hc : c = line := eq_of_beq he
      refine .inr (.inl ⟨[], text, by rw [hc]; rfl, spaces_nil, List.not_mem_nil, ?_⟩)
      rw [Reader.terminatorLoop, if_pos he]
    | false =>
      have hne : line ≠ c := by
        rintro rfl
        exact absurd he (by decide)
      cases hw : isJsonWhitespace c with
      | false =>
        refine .inr (.inr ⟨[], c, text, rfl, spaces_nil, List.not_mem_nil, he, hw, ?_⟩)
        rw [Reader.terminatorLoop, if_neg (by simp [he]), if_neg (by simp [hw])]
      | true =>
        have hloop : reader.terminatorLoop (c :: text) = reader.terminatorLoop text := by
          rw [Reader.terminatorLoop, if_neg (by simp [he]), if_pos hw]
        have hspaces {a : Text} (ha : Spaces a) : Spaces (c :: a) := List.forall_mem_cons.mpr ⟨hw, ha⟩
        have hline {a : Text} (ha : line ∉ a) : line ∉ c :: a := by
          rw [List.mem_cons, not_or]
          exact ⟨hne, ha⟩
        rcases ih with ⟨hs, hl, h⟩ | ⟨a, rest, rfl, hs, hl, h⟩ | ⟨a, d, rest, rfl, hs, hl, hd, hd', h⟩
        · exact .inl ⟨hspaces hs, hline hl, hloop.trans h⟩
        · exact .inr (.inl ⟨c :: a, rest, rfl, hspaces hs, hline hl, hloop.trans h⟩)
        · exact .inr (.inr ⟨c :: a, d, rest, rfl, hspaces hs, hline hl, hd, hd', hloop.trans h⟩)

theorem dropWhile_cases (text : Text) :
    (Spaces text ∧ text.dropWhile isJsonWhitespace = []) ∨
      ∃ a c rest, text = a ++ c :: rest ∧ Spaces a ∧ isJsonWhitespace c = false ∧
        text.dropWhile isJsonWhitespace = c :: rest := by
  induction text with
  | nil => exact .inl ⟨spaces_nil, rfl⟩
  | cons c text ih =>
    cases hw : isJsonWhitespace c with
    | false =>
      refine .inr ⟨[], c, text, rfl, spaces_nil, hw, ?_⟩
      rw [List.dropWhile_cons, if_neg (by simp [hw])]
    | true =>
      rw [List.dropWhile_cons, if_pos hw]
      rcases ih with ⟨hs, h⟩ | ⟨a, d, rest, rfl, hs, hd, h⟩
      · exact .inl ⟨List.forall_mem_cons.mpr ⟨hw, hs⟩, h⟩
      · exact .inr ⟨c :: a, d, rest, rfl, List.forall_mem_cons.mpr ⟨hw, hs⟩, hd, h⟩

theorem stall_whole {terminated : Bool} {model : ν} {c : UInt8} (ht : terminated = false)
    (hc : isJsonWhitespace c = false) :
    (Scan.whole model).step json terminated c = .error .readerStall := by
  simp [Scan.step, ht, hc]

theorem stall_line {terminated : Bool} {model : ν} {c : UInt8}
    (he : isElectrumTerminator c = false) (hc : isJsonWhitespace c = false) :
    (Scan.whole model).step json terminated c = .error .readerStall := by
  simp [Scan.step, he, hc]

/-- The phases behind the element of a singleton. -/
theorem put_whole {model : ν} (hne : text ≠ []) :
    (Scan.reader json carrier store (.whole model)).put json text
      = Reader.result (do
        let (reader, text) ← (Scan.reader json carrier store (.whole model)).trailer true text
        let (reader, text) ← reader.terminator text
        return reader.delivery json text) := by
  rw [put_started rfl hne, resume_ok rfl rfl]
  rfl

/-- A singleton of which whitespace may be behind, and the terminator if there is one. -/
theorem whole_taken {model : ν} (hcarrier : carrier ≠ .stream false) (hne : text ≠ []) (hfits : store.Fits (text.length + left)) :
    Taken json carrier left (.whole model) text
      ((Scan.reader json carrier store (.whole model)).put json text) := by
  rw [put_whole hne]
  cases ht : carrier.terminated with
  | false =>
    have hterminator (rest : Text) : (Scan.reader json carrier store (.whole model)).terminator rest
        = .ok (Scan.reader json carrier store (.whole model), rest) := by
      refine terminator_skip (.inl ?_)
      simp [Reader.requiresTerminator, Scan.reader, ht]
    rcases dropWhile_cases text with ⟨hs, hdrop⟩ | ⟨a, c, rest, hsplit, hs, hc, hdrop⟩
    · have htrailer : (Scan.reader json carrier store (.whole model)).trailer true text
          = .ok (Scan.reader json carrier store (.whole model), []) := by
        simp [Reader.trailer, Scan.reader, Reader.parsed, ht, hdrop]
      rw [htrailer]
      show Taken _ _ _ _ _ (Reader.result (Reader.terminator _ [] >>= _))
      rw [hterminator]
      refine .quiet _ (List.append_nil text).symm hne (.inl hcarrier) (hfits.mono (by simp)) ?_
      exact Scan.scan_whole hs fun h => absurd (ht.symm.trans h) Bool.false_ne_true
    · have htrailer : (Scan.reader json carrier store (.whole model)).trailer true text
          = .error ⟨Scan.reader json carrier store (.whole model), c :: rest, some .readerStall⟩ := by
        simp [Reader.trailer, Scan.reader, Reader.parsed, ht, hdrop]
      rw [htrailer]
      exact .refused (.whole model) a rest _ c hsplit RpcError.noConfusion hcarrier
        (Scan.scan_whole hs fun h => absurd (ht.symm.trans h) Bool.false_ne_true) (stall_whole ht hc)
  | true =>
    have hterminator : (Scan.reader json carrier store (.whole model)).terminator text
        = (Scan.reader json carrier store (.whole model)).terminatorLoop text := by
      unfold Reader.terminator
      rw [if_pos (by simp [Reader.requiresTerminator, Scan.reader, ht])]
    rw [trailer_skip _ (.inl ht)]
    show Taken _ _ _ _ _ (Reader.result (Reader.terminator _ text >>= _))
    rw [hterminator]
    rcases terminatorLoop_cases (Scan.reader json carrier store (.whole model)) text with
      ⟨hs, hline, hloop⟩ | ⟨a, rest, hsplit, hs, hline, hloop⟩ |
      ⟨a, c, rest, hsplit, hs, hline, he, hc, hloop⟩
    · rw [hloop]
      refine .quiet _ (List.append_nil text).symm hne (.inl hcarrier) (hfits.mono (by simp)) ?_
      exact Scan.scan_whole hs fun _ => hline
    · rw [hloop]
      have htext : text = (a ++ [line]) ++ rest := by rw [hsplit, List.append_assoc]; rfl
      refine Taken.quiet (.finished model) htext (by simp) (.inr (Carrier.of_terminated ht))
        (hfits.mono ?_) ?_
      · rw [htext, List.length_append]
        omega
      · rw [ht]
        exact Scan.scan_ending ⟨a, hs, hline, rfl⟩
    · rw [hloop]
      exact .refused (.whole model) a rest _ c hsplit RpcError.noConfusion hcarrier
        (Scan.scan_whole hs fun _ => hline) (stall_line he hc)

theorem Opens.front {a b : Text} (h : Opens (a ++ b)) (hne : a ≠ []) : Opens a := by
  obtain ⟨c, rest, hc, hopens⟩ := h
  cases a with
  | nil => exact absurd rfl hne
  | cons d a =>
    rw [List.cons_append, List.cons.injEq] at hc
    exact ⟨d, a, rfl, by rwa [hc.1]⟩

/-- The terminator that the parser took behind an element. -/
theorem scanTerminator_iff {body spaces : Text} {c : UInt8} (hspaces : Spaces spaces)
    (hc : line ∈ body ++ [c] → isRpcTerminator c = true) :
    Reader.scanTerminator (body ++ c :: spaces).reverse = true ↔ line ∈ spaces := by
  have hback : Reader.scanTerminator (body ++ [c]).reverse = false := by
    rw [List.reverse_append, List.reverse_singleton, List.singleton_append, Reader.scanTerminator]
    by_cases hmem : line ∈ body ++ [c]
    · have hrpc := hc hmem
      have helectrum : isElectrumTerminator c = false := by
        refine Bool.eq_false_iff.mpr fun h => ?_
        rw [eq_of_beq h] at hrpc
        exact absurd hrpc (by decide)
      rw [if_neg (by simp [helectrum]), if_pos hrpc]
    · have hlines {text : Text} (h : line ∉ text) : Reader.scanTerminator text = false := by
        induction text with
        | nil => rfl
        | cons d text ih =>
          rw [List.mem_cons, not_or] at h
          have hd : isElectrumTerminator d = false :=
            Bool.eq_false_iff.mpr fun he => h.1 (eq_of_beq he).symm
          rw [Reader.scanTerminator, if_neg (by simp [hd]), ih h.2, ite_self]
      rw [List.mem_append, not_or, List.mem_singleton] at hmem
      have helectrum : isElectrumTerminator c = false :=
        Bool.eq_false_iff.mpr fun he => hmem.2 (eq_of_beq he).symm
      rw [if_neg (by simp [helectrum]), hlines (fun h => hmem.1 (List.mem_reverse.mp h)), ite_self]
  rw [show body ++ c :: spaces = (body ++ [c]) ++ spaces by rw [List.append_assoc]; rfl,
    List.reverse_append, ← List.mem_reverse]
  have hspaces' : ∀ d ∈ spaces.reverse, isJsonWhitespace d = true :=
    fun d hd => hspaces d (List.mem_reverse.mp hd)
  generalize spaces.reverse = before at hspaces'
  induction before with
  | nil =>
    rw [List.nil_append, hback]
    simp
  | cons d before ih =>
    obtain ⟨hd, hbefore⟩ := List.forall_mem_cons.mp hspaces'
    rw [List.cons_append, Reader.scanTerminator, List.mem_cons]
    cases he : isElectrumTerminator d with
    | true => simp [(eq_of_beq he).symm]
    | false =>
      have hrpc : isRpcTerminator d = false := by
        refine Bool.eq_false_iff.mpr fun h => ?_
        rcases Bool.or_eq_true_iff.mp h with h | h <;> rw [eq_of_beq h] at hd <;>
          exact absurd hd (by decide)
      have hne : ¬ line = d := fun h => by
        rw [← h] at he
        exact absurd he (by decide)
      rw [if_neg Bool.false_ne_true, if_neg (by simp [hrpc])]
      exact (ih hbefore).trans (or_iff_right hne).symm

theorem scan_finishing {model : ν} {spaces : Text} (ht : carrier.terminated = true)
    (hspaces : Spaces spaces) (hline : line ∈ spaces) :
    scan (Scan.step json carrier.terminated) (.whole model) spaces = ([], .ok (.finished model)) := by
  obtain ⟨a, b, rfl, ha⟩ := List.eq_append_cons_of_mem hline
  have hs : (∀ c ∈ a, isJsonWhitespace c = true) ∧ ∀ c ∈ line :: b, isJsonWhitespace c = true :=
    List.forall_mem_append.mp hspaces
  have hb : Spaces b := fun c hc => hs.2 c (List.mem_cons_of_mem line hc)
  rw [ht, show a ++ line :: b = (a ++ [line]) ++ b by rw [List.append_assoc]; rfl]
  exact Scan.scan_trans (Scan.scan_ending ⟨a, hs.1, ha, rfl⟩) (Scan.scan_finished hb)

/-- The element of a singleton, and what is behind it. -/
theorem single_taken {state : σ} (hknown : ∃ m, run json json.start m = some state ∧ Opens (m ++ text))
    (hbracketed : carrier.terminated = true → json.Bracketed) (hne : text ≠ [])
    (hfits : store.Fits (text.length + left)) :
    Taken json carrier left (.single state) text
      ((Scan.reader json carrier store (.single state)).put json text) := by
  have hstarted : (Scan.reader json carrier store (.single state)).started = true := rfl
  have hclosed : (Scan.reader json carrier store (.single state)).closed = false := rfl
  have hdocument : (Scan.reader json carrier store (.single state)).document = .parsing state := rfl
  have henters : Scan.Enters json carrier.terminated .outside .single fun model =>
      .ok (.whole model, []) := Scan.enters_outside
  rcases writeSome_cases state text with ⟨next, hrun, hw⟩ |
    ⟨body, c, last, model, spaces, rest, htext, hspaces, hrun, hwrite, hw⟩ |
    ⟨body, c, last, code, rest, htext, hrun, hwrite, hw⟩
  · rw [put_started hstarted hne,
      resume_error hclosed (element_more hstarted hdocument hne hw (hfits.limit le_rfl))]
    refine @Taken.quiet _ _ _ json carrier left _ _ (.single next) _ _ (store.add text.length)
      (List.append_nil text).symm hne ?_
      (Store.Fits.add (by simpa using hfits)) (Scan.scan_run henters hrun)
    obtain ⟨m, hm, hopens⟩ := hknown
    exact .inl ⟨m ++ text, hopens, (run_append hm text).trans hrun⟩
  · have hsplit : text = (body ++ c :: spaces) ++ rest := by
      rw [htext, List.append_assoc, List.cons_append]
    have hsize : text.length - rest.length = (body ++ c :: spaces).length := by
      rw [hsplit, List.length_append, Nat.add_sub_cancel]
    have hsegment : text.take (body ++ c :: spaces).length = body ++ c :: spaces := by
      rw [hsplit, List.take_left]
    have helement := element_done hstarted hdocument hne hw (hfits.limit (Nat.sub_le _ _))
    rw [hsize, hsegment] at helement
    have hfits' : (store.add (body ++ c :: spaces).length).Fits (rest.length + left) := by
      refine Store.Fits.add ?_
      rwa [hsplit, List.length_append] at hfits
    have hwhole : scan (Scan.step json carrier.terminated) (.single state) (body ++ [c])
        = ([], .ok (.whole model)) := by
      rw [scan_append (Scan.scan_run henters hrun),
        scan_single ((henters.within last c).trans (Scan.feed_done hwrite))]
      rfl
    have hbehind : body ++ c :: spaces = (body ++ [c]) ++ spaces := by
      rw [List.append_assoc]
      rfl
    rw [put_started hstarted hne, resume_ok hclosed helement]
    cases ht : carrier.terminated with
    | false =>
      have hnext : ({ Scan.reader json carrier store (.single state) with
          document := .parsed model
          total := ceilingedAdd (Scan.reader json carrier store (.single state)).total
            (body ++ c :: spaces).length
          hasTerminator := (Scan.reader json carrier store (.single state)).hasTerminator ||
            ((Scan.reader json carrier store (.single state)).requiresTerminator &&
              Reader.scanTerminator (body ++ c :: spaces).reverse) } : Reader σ ν α)
          = Scan.reader json carrier (store.add (body ++ c :: spaces).length) (.whole model) := by
        simp [Reader.requiresTerminator, Scan.reader, Store.add, ht]
      have htrailer (store' : Store α) :
          (Scan.reader json carrier store' (.whole model)).trailer false rest
          = .ok (Scan.reader json carrier store' (.whole model), rest.dropWhile isJsonWhitespace) := by
        simp [Reader.trailer, Scan.reader, Reader.parsed, ht]
      rw [hnext]
      show Taken _ _ _ _ _ (Reader.result (Reader.trailer _ false rest >>= _))
      rw [htrailer]
      show Taken _ _ _ _ _ (Reader.result (Reader.terminator _ _ >>= _))
      rw [terminator_skip (.inl (by simp [Reader.requiresTerminator, Scan.reader, ht]))]
      have hrest : rest = rest.takeWhile isJsonWhitespace ++ rest.dropWhile isJsonWhitespace :=
        List.takeWhile_append_dropWhile.symm
      refine @Taken.quiet _ _ _ json carrier left _ _ (.whole model)
        ((body ++ c :: spaces) ++ rest.takeWhile isJsonWhitespace) _ _
        ?_ (by simp) (Scan.whole_rests model) (hfits'.mono ?_) ?_
      · rw [List.append_assoc, ← hrest, hsplit]
      · have hlength := congrArg List.length hrest
        rw [List.length_append] at hlength
        omega
      · rw [hbehind, List.append_assoc]
        refine Scan.scan_trans hwhole (Scan.scan_whole (List.forall_mem_append.mpr
          ⟨hspaces, spaces_takeWhile rest⟩) fun h => absurd (ht.symm.trans h) Bool.false_ne_true)
    | true =>
      have hlast : line ∈ body ++ [c] → isRpcTerminator c = true := by
        intro hmem
        obtain ⟨m, hm, hopens⟩ := hknown
        have helement : Element json (m ++ body ++ [c]) model := by
          refine ⟨?_, m ++ body, c, last, rfl, (run_append hm body).trans hrun, hwrite⟩
          rw [htext, show m ++ (body ++ c :: (spaces ++ rest)) = (m ++ body ++ [c]) ++ (spaces ++ rest) by
            simp] at hopens
          exact hopens.front (by simp)
        obtain ⟨before, d, heq, hd⟩ := hbracketed ht _ _ helement
          (by rw [List.append_assoc]; exact List.mem_append_right m hmem)
        rwa [(List.append_inj_right' heq rfl |> List.cons.inj).1]
      have hscan := scanTerminator_iff hspaces hlast
      by_cases hline : line ∈ spaces
      · rw [hscan.mpr hline]
        have hfinished : ({ Scan.reader json carrier store (.single state) with
            document := .parsed model
            total := ceilingedAdd (Scan.reader json carrier store (.single state)).total
              (body ++ c :: spaces).length
            hasTerminator := (Scan.reader json carrier store (.single state)).hasTerminator ||
              ((Scan.reader json carrier store (.single state)).requiresTerminator && true) } :
            Reader σ ν α)
            = Scan.reader json carrier (store.add (body ++ c :: spaces).length) (.finished model) := by
          simp [Reader.requiresTerminator, Scan.reader, Store.add, ht]
        rw [hfinished]
        show Taken _ _ _ _ _ (Reader.result (Reader.trailer _ false rest >>= _))
        rw [trailer_skip _ (.inl ht)]
        show Taken _ _ _ _ _ (Reader.result (Reader.terminator _ _ >>= _))
        rw [terminator_skip (.inr rfl)]
        refine .quiet (.finished model) hsplit (by simp) (.inr (Carrier.of_terminated ht)) hfits' ?_
        rw [hbehind]
        exact Scan.scan_trans hwhole (scan_finishing ht hspaces hline)
      · rw [Bool.eq_false_iff.mpr fun h => hline (hscan.mp h)]
        have hwhole' : ({ Scan.reader json carrier store (.single state) with
            document := .parsed model
            total := ceilingedAdd (Scan.reader json carrier store (.single state)).total
              (body ++ c :: spaces).length
            hasTerminator := (Scan.reader json carrier store (.single state)).hasTerminator ||
              ((Scan.reader json carrier store (.single state)).requiresTerminator && false) } :
            Reader σ ν α)
            = Scan.reader json carrier (store.add (body ++ c :: spaces).length) (.whole model) := by
          simp [Scan.reader, Store.add]
        have hscanned : scan (Scan.step json carrier.terminated) (.single state) (body ++ c :: spaces)
            = ([], .ok (.whole model)) := by
          rw [hbehind]
          exact Scan.scan_trans hwhole (Scan.scan_whole hspaces fun _ => hline)
        rw [hwhole']
        show Taken _ _ _ _ _ (Reader.result (Reader.trailer _ false rest >>= _))
        rw [trailer_skip _ (.inl ht)]
        by_cases hrest : rest = []
        · subst hrest
          have hterminator (store' : Store α) :
              (Scan.reader json carrier store' (.whole model)).terminator []
              = .ok (Scan.reader json carrier store' (.whole model), []) := by
            unfold Reader.terminator
            rw [ite_eq_right_iff]
            intro _
            rfl
          show Taken _ _ _ _ _ (Reader.result (Reader.terminator _ [] >>= _))
          rw [hterminator]
          exact .quiet (.whole model) hsplit (by simp) (Scan.whole_rests model) hfits' hscanned
        · have hput := @whole_taken _ _ _ json carrier _ rest left model
            (fun h => by rw [h] at ht; cases ht) hrest hfits'
          rw [put_whole hrest, trailer_skip _ (.inl ht)] at hput
          rw [hsplit]
          exact hput.prepend hscanned
  · obtain ⟨reader', helement⟩ := element_fail hstarted hdocument hne hw
    rw [put_started hstarted hne, resume_error hclosed helement]
    exact .refused (.single last) body rest _ c htext RpcError.noConfusion trivial
      (Scan.scan_run henters hrun)
      ((henters.within last c).trans (by rw [Scan.feed, hwrite]))

theorem put_closing (hne : text ≠ []) : (Scan.reader json carrier store .closing).put json text
    = Reader.result ((Scan.reader json carrier store .closing).resume json false text) := by
  unfold Reader.put
  rw [if_neg hne]
  rfl

/-- The close of a batch, of which whitespace may be in front of the terminator. -/
theorem closing_taken (ht : carrier.terminated = true) (hne : text ≠ [])
    (hfits : store.Fits (text.length + left)) :
    Taken json carrier left .closing text
      ((Scan.reader json carrier store .closing).put json text) := by
  have hput : (Scan.reader json carrier store .closing).put json text
      = Reader.result (do
        let (reader, text) ← (Scan.reader json carrier store .closing).terminatorLoop text
        return reader.delivery json text) := by
    have hterminator : (Scan.reader json carrier store .closing).terminator text
        = (Scan.reader json carrier store .closing).terminatorLoop text := by
      unfold Reader.terminator
      rw [if_pos (by simp [Reader.requiresTerminator, Scan.reader, ht])]
    rw [put_closing hne, ← hterminator]
    unfold Reader.resume
    show Reader.result (Reader.trailer _ false text >>= _) = _
    rw [trailer_skip _ (.inl ht)]
    rfl
  rw [hput]
  rcases terminatorLoop_cases (Scan.reader json carrier store .closing) text with
    ⟨hs, hline, hloop⟩ | ⟨a, rest, hsplit, hs, hline, hloop⟩ |
    ⟨a, c, rest, hsplit, hs, hline, he, hc, hloop⟩
  · rw [hloop]
    have hdelivery : (Scan.reader json carrier store .closing).delivery json []
        = ⟨Scan.reader json carrier store .closing, [], none⟩ := by
      simp [Reader.delivery, Reader.requiresTerminator, Scan.reader, ht]
    show Taken _ _ _ _ _ (Reader.delivery _ _ _)
    rw [hdelivery]
    exact .quiet _ (List.append_nil text).symm hne (.inl (Carrier.of_terminated ht))
      (hfits.mono (by simp)) (Scan.scan_closing hs hline)
  · rw [hloop]
    have htext : text = (a ++ [line]) ++ rest := by
      rw [hsplit, List.append_assoc]
      rfl
    have hdelivery : ({ Scan.reader json carrier store .closing with
        hasTerminator := true } : Reader σ ν α).delivery json rest
        = ⟨Scan.reader json carrier store .closed, rest, some .needBuffer⟩ := by
      simp [Reader.delivery, Reader.requiresTerminator, Scan.reader, ht]
    show Taken _ _ _ _ _ (Reader.delivery _ _ _)
    rw [hdelivery]
    refine .close htext (by simp) (hfits.mono ?_) ?_
    · rw [htext, List.length_append]
      omega
    · exact Scan.scan_trans (Scan.scan_closing hs hline) (scan_single rfl)
  · rw [hloop]
    have hstall : Scan.closing.step json carrier.terminated c = .error .readerStall := by
      simp [Scan.step, he, hc]
    exact .refused .closing a rest _ c hsplit RpcError.noConfusion trivial
      (Scan.scan_closing hs hline) hstall

/-- A batch that is closed, in the body of an http message. -/
theorem closed_taken (hcarrier : carrier = .body) (hne : text ≠ []) (hfits : store.Fits (text.length + left)) :
    Taken json carrier left .closed text
      ((Scan.reader json carrier store .closed).put json text) := by
  have hput : (Scan.reader json carrier store .closed).put json text
      = Reader.result ((Scan.reader json carrier store .closed).resume json false text) := by
    unfold Reader.put
    rw [if_neg hne]
    rfl
  rw [hput]
  rcases dropWhile_cases text with ⟨hs, hdrop⟩ | ⟨a, c, rest, hsplit, hs, hc, hdrop⟩
  · have hresume : (Scan.reader json carrier store .closed).resume json false text
        = .ok ⟨Scan.reader json carrier store .closed, [], none⟩ := by
      have hepilogue : (Scan.reader json carrier store .closed).epilogue text
          = .ok (Scan.reader json carrier store .closed, []) := by
        simp [Reader.epilogue, Scan.reader, hdrop]
      have hterminator : (Scan.reader json carrier store .closed).terminator []
          = .ok (Scan.reader json carrier store .closed, []) := by
        unfold Reader.terminator
        rw [ite_eq_right_iff]
        intro _
        rfl
      unfold Reader.resume
      rw [hepilogue]
      show (Reader.trailer _ false [] >>= _) = _
      rw [trailer_skip _ (.inr (.inr rfl))]
      show (Reader.terminator _ [] >>= _) = _
      rw [hterminator]
      show Except.ok (Reader.delivery _ _ _) = _
      unfold Reader.delivery
      rw [ite_eq_right_iff.mpr]
      intro _
      rfl
    rw [hresume]
    exact .quiet _ (List.append_nil text).symm hne (.inl hcarrier) (hfits.mono (by simp))
      (Scan.scan_closed hs)
  · have hresume : (Scan.reader json carrier store .closed).resume json false text
        = .error ⟨Scan.reader json carrier store .closed, c :: rest, some .batchMalformed⟩ := by
      have hepilogue : (Scan.reader json carrier store .closed).epilogue text
          = .error ⟨Scan.reader json carrier store .closed, c :: rest, some .batchMalformed⟩ := by
        simp [Reader.epilogue, Scan.reader, hdrop]
      unfold Reader.resume
      rw [hepilogue]
      rfl
    rw [hresume]
    have hmalformed : Scan.closed.step json carrier.terminated c = .error .batchMalformed := by
      simp [Scan.step, hc]
    exact .refused .closed a rest _ c hsplit RpcError.noConfusion hcarrier (Scan.scan_closed hs)
      hmalformed

theorem Taken.of_step {q q' : Scan σ ν} {c : UInt8} {put : Put σ ν α}
    (hunsettled : q.Unsettled carrier)
    (hstep : q.step json carrier.terminated c = q'.step json carrier.terminated c)
    (h : Taken json carrier left q' (c :: text) put) : Taken json carrier left q (c :: text) put := by
  have hscan {taken rest : Text} (hne : taken ≠ []) (hsplit : c :: text = taken ++ rest) :
      scan (Scan.step json carrier.terminated) q taken
        = scan (Scan.step json carrier.terminated) q' taken := by
    cases taken with
    | nil => exact absurd rfl hne
    | cons d taken =>
      rw [List.cons_append, List.cons.injEq] at hsplit
      rw [scan, scan, ← hsplit.1, hstep]
  cases h with
  | quiet _ split ne rests fits takes => exact .quiet _ split ne rests fits ((hscan ne split).trans takes)
  | element split ne fits keeps unclosed takes =>
    exact .element split ne fits keeps unclosed ((hscan ne split).trans takes)
  | close split ne fits takes => exact .close split ne fits ((hscan ne split).trans takes)
  | refused _ front rest left' d split ne unsettled takes refuses =>
    cases front with
    | nil =>
      cases takes
      cases split
      exact .refused q [] text left' c rfl ne hunsettled rfl (hstep.trans refuses)
    | cons b front =>
      exact .refused _ (b :: front) rest left' d split ne unsettled
        ((hscan (List.cons_ne_nil b front) split).trans takes) refuses

/-- The close of a batch. -/
theorem bracket_taken (hfits : store.Fits ((closeBracket :: text).length + left)) :
    Taken json carrier left .between (closeBracket :: text)
      (Reader.result ((Scan.reader json carrier store .closing).resume json false text)) := by
  have hfits' : store.Fits (text.length + left) := hfits.mono (by simp)
  cases ht : carrier.terminated with
  | false =>
    have hresume : (Scan.reader json carrier store .closing).resume json false text
        = .ok ⟨Scan.reader json carrier store .closed, text, some .needBuffer⟩ := by
      unfold Reader.resume
      show (Reader.trailer _ false text >>= _) = _
      rw [trailer_skip _ (.inr (.inr rfl))]
      show (Reader.terminator _ text >>= _) = _
      rw [terminator_skip (.inl (by simp [Reader.requiresTerminator, Scan.reader, ht]))]
      show Except.ok (Reader.delivery _ _ _) = _
      simp [Reader.delivery, Reader.requiresTerminator, Scan.reader, ht]
    rw [hresume]
    have hsplit : closeBracket :: text = [closeBracket] ++ text := rfl
    refine .close hsplit (by simp) hfits' ?_
    rw [ht]
    exact scan_single rfl
  | true =>
    have hstep : Scan.between.step json carrier.terminated closeBracket = .ok (.closing, []) := by
      rw [ht]
      rfl
    by_cases hne : text = []
    · subst hne
      have hresume : (Scan.reader json carrier store .closing).resume json false []
          = .ok ⟨Scan.reader json carrier store .closing, [], none⟩ := by
        unfold Reader.resume
        show (Reader.trailer _ false [] >>= _) = _
        rw [trailer_skip _ (.inr (.inr rfl))]
        have hterminator : (Scan.reader json carrier store .closing).terminator []
            = .ok (Scan.reader json carrier store .closing, []) := by
          unfold Reader.terminator
          rw [ite_eq_right_iff]
          intro _
          rfl
        show (Reader.terminator _ [] >>= _) = _
        rw [hterminator]
        show Except.ok (Reader.delivery _ _ _) = _
        simp [Reader.delivery, Reader.requiresTerminator, Scan.reader, ht]
      rw [hresume]
      exact .quiet .closing (List.append_nil _).symm (by simp) (.inl (Carrier.of_terminated ht)) hfits'
        (scan_single hstep)
    · have htaken := @closing_taken _ _ _ json carrier store text left ht hne hfits'
      rw [put_closing hne] at htaken
      exact htaken.prepend (scan_single hstep)

/-- What is in front of an element is taken, and of the element what there is, or the close of
the batch. -/
theorem waits_taken {q : Scan σ ν} (hq : q.Waits)
    (hbracketed : carrier.terminated = true → json.Bracketed) (hne : text ≠ [])
    (hfits : store.Fits (text.length + left)) :
    Taken json carrier left q text ((q.reader json carrier store).put json text) := by
  have hput {q : Scan σ ν} (hq : q.Waits) {text : Text} (hne : text ≠ []) :
      (q.reader json carrier store).put json text = Reader.result (do
        let (reader, text) ← (q.reader json carrier store).prologue text
        reader.resume json false text) := by
    unfold Reader.put
    rw [if_neg hne]
    cases q <;> first | exact absurd hq id | rfl
  induction text generalizing q with
  | nil => exact absurd rfl hne
  | cons c text ih =>
    rw [hput hq hne]
    rcases @prologue_cases _ _ _ json carrier store _ hq c text with ⟨q', hq', hstep, hprologue⟩ |
      ⟨e, he, hstep, hprologue⟩ | ⟨rfl, rfl, hprologue⟩ | ⟨hbetween, hopens, hprologue⟩
    · rw [hprologue]
      by_cases htext : text = []
      · subst htext
        exact .quiet q' (List.append_nil [c]).symm hne (.inl hq'.rests) (hfits.mono (by simp))
          (scan_single hstep)
      · rw [← hput hq' htext]
        exact (ih hq' htext (hfits.mono (by simp))).prepend (scan_single hstep)
    · rw [hprologue]
      exact .refused q [] text _ c rfl he hq.unsettled rfl hstep
    · rw [hprologue]
      exact bracket_taken hfits
    · rw [hprologue]
      cases q with
      | outside =>
        have htaken := @single_taken _ _ _ json carrier store (c :: text) left json.start
          ⟨[], rfl, hopens⟩ hbracketed hne hfits
        rw [put_started rfl hne] at htaken
        exact htaken.of_step trivial (Scan.enters_outside.opens hopens)
      | opened =>
        have htaken := @batched_taken _ _ _ json carrier store true json.start (c :: text) left hne hfits
        rw [put_started rfl hne] at htaken
        exact htaken.of_step trivial (Scan.enters_opened.opens hopens)
      | separated =>
        have htaken := @batched_taken _ _ _ json carrier store false json.start (c :: text) left hne hfits
        rw [put_started rfl hne] at htaken
        exact htaken.of_step trivial (Scan.enters_separated.opens hopens)
      | between => exact absurd rfl hbetween
      | _ => exact absurd hq id

/-- A put takes what the scanner takes. -/
theorem put_taken {q : Scan σ ν} (hq : q.Rests json carrier)
    (hbracketed : carrier.terminated = true → json.Bracketed) (hne : text ≠ [])
    (hfits : store.Fits (text.length + left)) :
    Taken json carrier left q text ((q.reader json carrier store).put json text) := by
  cases q with
  | outside | opened | between | separated => exact waits_taken trivial hbracketed hne hfits
  | single state =>
    obtain ⟨m, hopens, hrun⟩ := hq
    exact single_taken ⟨m, hrun, hopens.append text⟩ hbracketed hne hfits
  | whole model => exact whole_taken hq hne hfits
  | finished model => exact absurd hq id
  | batched first state => exact batched_taken hne hfits
  | closing =>
    cases hq
    exact closing_taken rfl hne hfits
  | closed => exact closed_taken hq hne hfits

end Ending

end BitcoinNetwork.Rpc
