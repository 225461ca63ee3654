import BitcoinNetwork.Http.Reading

/-!
# What the limits bound (impl/messages/http/parser.ipp:164-184, 299-435)

The header is parsed within a window, the body is counted, and a chunk line is
refused while it is incomplete. The first two bind however the bytes arrive. The
last is not made of a chunk line that is complete when it is first presented, so
that an overlong line is refused or taken by how the stream is cut.
-/

namespace BitcoinNetwork.Http
open Incremental

variable {isRequest : Bool} (config : ParserConfig)

namespace Parser

/-! ### Steps do not wait for bytes they do not need -/

/-- An element found within the window of longer data is found without the rest. -/
theorem headerWindow_take {α : Type} {p : Parse α} (hp : Element.Prompt p)
    {parser : Parser isRequest} {data x rest : Text} {v : α}
    (h : p (parser.headerWindow config (data ++ x)) = .done v rest)
    (hu : (parser.headerWindow config (data ++ x)).length - rest.length < data.length) :
    ∃ r, p (parser.headerWindow config data) = .done v r ∧
      (parser.headerWindow config data).length - r.length
        = (parser.headerWindow config (data ++ x)).length - rest.length := by
  obtain ⟨y, hy, -⟩ := headerWindow_append config parser data x
  have hfull : y = [] ∨ parser.headerWindow config data = data := by
    unfold headerWindow at hy ⊢
    by_cases hl : config.headerLimit = 0
    · exact .inr (if_pos hl)
    · simp only [hl, reduceIte] at hy ⊢
      by_cases hlen : config.headerLimit - min config.headerLimit parser.header ≤ data.length
      · left
        have hlen := congrArg List.length hy
        simp only [List.length_append, List.length_take] at hlen
        exact List.eq_nil_of_length_eq_zero (by omega)
      · exact .inr (List.take_of_length_le (by omega))
  rw [hy] at h hu ⊢
  rcases hfull with rfl | hfull
  · rw [List.append_nil] at h ⊢
    exact ⟨rest, h, rfl⟩
  · have hle := (hp.suffix h).length_le
    rw [hfull] at h hu hle ⊢
    simp only [List.length_append] at hu hle
    obtain ⟨r, rfl⟩ : ∃ r, rest = r ++ y := by
      have hsuffix : y <:+ rest := List.suffix_of_suffix_length_le (List.suffix_append data y)
        (hp.suffix h) (by omega)
      obtain ⟨r, hr⟩ := hsuffix
      exact ⟨r, hr.symm⟩
    rw [List.length_append] at hu
    refine ⟨r, hp.take h fun hc => ?_, by simp only [List.length_append]; omega⟩
    rw [hc, List.length_nil] at hu
    omega

theorem putField_take {retain last : Bool} {parser next : Parser isRequest} {data x : Text}
    {used : ℕ} (h : parser.putField config retain (data ++ x) = .ok (next, used, last))
    (hu : used < data.length) :
    parser.putField config retain data = .ok (next, used, last) := by
  unfold putField at h ⊢
  cases hp : parseField config.split parser.frame (parser.headerWindow config (data ++ x)) with
  | more => simp only [hp] at h; cases h
  | fail e => simp only [hp] at h; cases h
  | done value rest =>
    have hused : used = (parser.headerWindow config (data ++ x)).length - rest.length := by
      simp only [hp] at h
      split at h
      · cases h; rfl
      · split at h <;> cases h <;> rfl
    obtain ⟨r, hr, hlen⟩ := headerWindow_take config (parseField_prompt _ _) hp (hused ▸ hu)
    rw [hp] at h
    rw [hr]
    simp only [hlen]
    exact h

theorem putStartLine_take {parser : Parser isRequest} {data x : Text}
    (hcode : (parser.putStartLine config (data ++ x)).code = none)
    (hu : (parser.putStartLine config (data ++ x)).used < data.length) :
    parser.putStartLine config data = parser.putStartLine config (data ++ x) := by
  have hd : data ≠ [] := fun hc => by rw [hc, List.length_nil] at hu; omega
  have hdx : data ++ x ≠ [] := by simp [hd]
  unfold putStartLine at hcode hu ⊢
  simp only [hd, hdx, reduceIte] at hcode hu ⊢
  cases hp : parseStartLine isRequest (parser.headerWindow config (data ++ x)) with
  | more => simp only [hp] at hcode; cases hcode
  | fail e => simp only [hp] at hcode; cases hcode
  | done value rest =>
    simp only [hp] at hu
    obtain ⟨r, hr, hlen⟩ := headerWindow_take config (parseStartLine_prompt _) hp hu
    rw [hr]
    simp only [hlen]

theorem putChunkHeader_take {parser : Parser isRequest} {data x : Text} {used : ℕ}
    (hmoved : (parser.putChunkHeader config (data ++ x)).used = used) (hpos : 0 < used)
    (hu : used < data.length) :
    parser.putChunkHeader config data = parser.putChunkHeader config (data ++ x) := by
  rcases putChunkHeader_cases config parser (data ++ x) with
    ⟨code, heq⟩ | ⟨line, rest, hdata, hline, heq, hnone⟩
  · rw [heq] at hmoved
    exact absurd hmoved hpos.ne
  rcases chunkLine_cases config parser line with ⟨e, -, hresult⟩ | ⟨size, -, -, -, hresult⟩
  · rw [hresult] at hnone
    cases hnone
  have hfront : parser.chunkPrefix ++ (line ++ lineEnd) <+: data := by
    refine @List.prefix_of_prefix_length_le _ _ _ (data ++ x) ⟨rest, ?_⟩ (List.prefix_append _ _) ?_
    · rw [hdata]
      simp [lineEnd]
    · rw [heq, hresult] at hmoved
      simp only [List.length_append] at hmoved ⊢
      omega
  obtain ⟨r, rfl⟩ := hfront
  have hbefore : parser.chunkPrefix ++ (line ++ lineEnd) ++ r
      = parser.chunkPrefix ++ (line ++ cr :: lf :: r) := by simp [lineEnd]
  rw [heq, hbefore, putChunkHeader_line config parser hline, if_pos rfl]

theorem fieldStep_take {retain : Bool}
    {last : Parser isRequest → Parser isRequest × Option HttpError} {parser next : Parser isRequest}
    {data x : Text} {used : ℕ} {out : List Empty}
    (h : fieldStep config retain last parser (data ++ x) = .next next used out)
    (hu : used < data.length) : fieldStep config retain last parser data = .next next used out := by
  have hput : parser.putField config retain data = parser.putField config retain (data ++ x) := by
    rcases fieldStep_next config h with hput | ⟨mid, hput, -⟩
    · rw [hput, putField_take config hput hu]
    · rw [hput, putField_take config hput hu]
  unfold fieldStep at h ⊢
  rw [hput]
  exact h

theorem step_body_take {parser next : Parser isRequest} (hi : parser.Inv) (hin : parser.InBody)
    {data x : Text} {used : ℕ} {out : List Empty}
    (h : step config parser (data ++ x) = .next next used out) (hu : used < data.length) :
    step config parser data = .next next used out := by
  obtain ⟨-, hused, -⟩ := step_body_next config hi hin h
  have hne : data ≠ [] := fun hc => by rw [hc, List.length_nil] at hu; omega
  have hsize : parser.bodySize (data ++ x) = parser.bodySize data := by
    rw [bodySize_append] at hused ⊢
    split
    · rename_i hfull
      rw [if_pos hfull] at hused
      omega
    · rfl
  have heof : parser.state ≠ .bodyToEof := fun hc => by
    rw [bodySize, if_pos hc, List.length_append] at hused
    omega
  rw [step_body config hi hin, if_neg fun hc => heof hc.1, if_neg (by simp [hne]), hsize,
    List.take_append_of_le_length (parser.bodySize_le data)] at h
  rw [step_body config hi hin, if_neg fun hc => heof hc.1, if_neg hne]
  exact h

theorem step_prompt : Prompt (@Inv isRequest) (step config) where
  preserve hi h := (step_next config hi h).2.2
  take {parser data x next used out} hi h hu := by
    by_cases hin : parser.InBody
    · exact step_body_take config hi hin h hu
    have hpos := (step_next config hi h).1
    unfold step at h ⊢
    cases hs : parser.state with
    | startLine =>
      simp only [hs] at h ⊢
      obtain ⟨hcode, -, hused, -, -⟩ := stepOf_next h
      rw [putStartLine_take config hcode (hused ▸ hu)]
      exact h
    | fields =>
      simp only [hs] at h ⊢
      exact fieldStep_take config h hu
    | body => exact absurd (.inl hs) hin
    | bodyToEof => exact absurd (.inr (.inl hs)) hin
    | chunkHeader =>
      simp only [hs] at h ⊢
      rw [putChunkHeader_take config.lenient (stepOf_next h).2.2.1 hpos hu]
      exact h
    | chunkBody => exact absurd (.inr (.inr hs)) hin
    | trailer =>
      simp only [hs] at h ⊢
      exact fieldStep_take config h hu
    | done => simp only [hs] at h; cases h

/-! ### What is counted -/

/-- The bytes of a delimited body or chunk that are still to come. -/
def due (parser : Parser isRequest) : ℕ :=
  if parser.state = .body ∨ parser.state = .chunkBody then parser.remaining else 0

/-- The header and the body are within their limits. -/
structure Within (parser : Parser isRequest) : Prop extends Inv parser where
  header_le : config.headerLimit ≠ 0 → parser.header ≤ config.headerLimit
  total_le : config.bodyLimit ≠ 0 → parser.total + parser.due ≤ config.bodyLimit

theorem within_started : (started isRequest).Within config where
  toInv := inv_started
  header_le _ := Nat.zero_le _
  total_le _ := Nat.zero_le _

theorem headerWindow_le {parser : Parser isRequest} (hl : config.headerLimit ≠ 0) (data : Text) :
    (parser.headerWindow config data).length
      ≤ config.headerLimit - min config.headerLimit parser.header := by
  unfold headerWindow
  rw [if_neg hl, List.length_take]
  exact min_le_left _ _

theorem putField_header {retain last : Bool} {parser next : Parser isRequest} {data : Text}
    {used : ℕ} (h : parser.putField config retain data = .ok (next, used, last)) :
    next.header = parser.header + used ∧ (config.headerLimit ≠ 0 → parser.header ≤ config.headerLimit →
      next.header ≤ config.headerLimit) := by
  have hwin : config.headerLimit ≠ 0 → _ := fun hl => @headerWindow_le _ config parser hl data
  unfold putField at h
  split at h
  · cases h
  · cases h
  · simp only at h
    split at h
    · cases h
      refine ⟨rfl, fun hl hle => ?_⟩
      have := hwin hl
      simp only
      omega
    · split at h <;> cases h <;> refine ⟨rfl, fun hl hle => ?_⟩ <;>
      · have := hwin hl
        simp only
        omega

theorem putStartLine_header {parser : Parser isRequest} {data : Text} :
    (parser.putStartLine config data).parser.header
        = parser.header + (parser.putStartLine config data).used ∧
      (config.headerLimit ≠ 0 → parser.header ≤ config.headerLimit →
        (parser.putStartLine config data).parser.header ≤ config.headerLimit) := by
  have hwin : config.headerLimit ≠ 0 → _ := fun hl => @headerWindow_le _ config parser hl data
  unfold putStartLine
  split
  · exact ⟨rfl, fun _ h => h⟩
  · split
    · exact ⟨rfl, fun _ h => h⟩
    · exact ⟨rfl, fun _ h => h⟩
    · refine ⟨rfl, fun hl hle => ?_⟩
      have := hwin hl
      simp only
      omega

theorem Within.putField {retain last : Bool} {parser next : Parser isRequest} {data : Text}
    {used : ℕ} (hw : parser.Within config)
    (h : parser.putField config retain data = .ok (next, used, last)) : next.Within config := by
  obtain ⟨hstate, hremaining, htotal, -, -⟩ := putField_frame config h
  refine ⟨putField_inv config hw.toInv h, fun hl => (putField_header config h).2 hl (hw.header_le hl),
    fun hl => ?_⟩
  rw [htotal, due, hstate, hremaining]
  exact hw.total_le hl

theorem settle_absorb_header (parser : Parser isRequest) (bytes : Text) :
    (parser.absorb bytes).settle.header = parser.header := by
  unfold settle completeBody
  split
  · split <;> rfl
  · rfl

theorem settle_absorb_total {parser : Parser isRequest} {bytes : Text}
    (hle : parser.state ≠ .bodyToEof → bytes.length ≤ parser.remaining) :
    (parser.absorb bytes).settle.total = parser.total + bytes.length ∧
      (parser.state ≠ .bodyToEof →
        bytes.length + (parser.absorb bytes).settle.due ≤ parser.remaining) ∧
      (parser.state = .bodyToEof → (parser.absorb bytes).settle.due = 0) := by
  have hdone : ∀ p : Parser isRequest, p.completeBody.total = p.total ∧ p.completeBody.due = 0 :=
    fun p => by unfold completeBody due finish; split <;> simp
  unfold settle
  split
  · rename_i hc
    rw [absorb_state] at hc
    refine ⟨(hdone _).1, fun hne => ?_, fun heof => absurd heof hc.1⟩
    rw [(hdone _).2]
    exact hle hne
  · refine ⟨rfl, fun hne => ?_, fun heof => ?_⟩
    · unfold due
      rw [absorb_remaining hne]
      have := hle hne
      split <;> omega
    · unfold due
      rw [absorb_state, heof]
      rfl

theorem Within.step_body {parser next : Parser isRequest} (hw : parser.Within config)
    (hin : parser.InBody) {data : Text} {used : ℕ} {out : List Empty}
    (h : step config parser data = .next next used out) : next.Within config := by
  have hnext := (step_next config hw.toInv h).2.2
  obtain ⟨hd, hused, hout, rfl, hlim⟩ := step_body_next config hw.toInv hin h
  have hle := parser.bodySize_le data
  have htake : (data.take (parser.bodySize data)).length = parser.bodySize data := by
    rw [List.length_take, min_eq_left hle]
  have hremaining : parser.state ≠ .bodyToEof →
      (data.take (parser.bodySize data)).length ≤ parser.remaining := fun hne => by
    rw [htake, bodySize, if_neg hne]
    exact min_le_right _ _
  obtain ⟨htotal, hdue, heof⟩ := settle_absorb_total hremaining
  refine ⟨hnext, fun hl => by rw [settle_absorb_header]; exact hw.header_le hl, fun hl => ?_⟩
  rw [htotal]
  by_cases hs : parser.state = .bodyToEof
  · rw [heof hs, htake, bodySize, if_pos hs]
    exact Nat.le_of_not_lt fun hc => hlim ⟨hs, hl, hc⟩
  · have hbody : parser.due = parser.remaining := by
      unfold due
      refine if_pos ?_
      rcases hin with h' | h' | h'
      · exact .inl h'
      · exact absurd h' hs
      · exact .inr h'
    have := hw.total_le hl
    have := hdue hs
    omega

theorem Within.finishHeader {parser next : Parser isRequest} (hw : parser.Within config)
    (hs : parser.state = .fields) (h : parser.finishHeader config = (next, none)) :
    next.Within config := by
  have hnext := (finishHeader_inv config hw.toInv hs h).1
  have htotal := hw.header_total (.inr hs)
  obtain ⟨_, rfl⟩ | ⟨length, _, _, hle, rfl⟩ | ⟨_, _, rfl⟩ | ⟨_, _, rfl⟩ :=
    finishHeader_cases config h
  · exact ⟨hnext, hw.header_le, fun _ => by simp [due, htotal]⟩
  · exact ⟨hnext, hw.header_le, fun hl => by simpa [due, withBody, htotal] using hle hl⟩
  · exact ⟨hnext, hw.header_le, fun _ => by simp [due, withBody, htotal]⟩
  · exact ⟨hnext, hw.header_le, fun _ => by simp [due, withBody, htotal]⟩

theorem Within.chunkLine {parser : Parser isRequest} (hw : parser.Within config) {line : Text}
    (h : (parser.chunkLine config line).code = none) :
    (parser.chunkLine config line).parser.header ≤ parser.header ∧
      (config.bodyLimit ≠ 0 → (parser.chunkLine config line).parser.total
        + (parser.chunkLine config line).parser.due ≤ config.bodyLimit) := by
  rcases chunkLine_cases config parser line with ⟨e, -, heq⟩ | ⟨size, -, -, hlimit, heq⟩
  · rw [heq] at h
    cases h
  rw [heq]
  refine ⟨by simp only; split <;> omega, fun hl => ?_⟩
  have htotal := hw.total_le hl
  have hsize := not_and.mp hlimit hl
  have hdue : ∀ p : Parser isRequest, p.due ≤ p.remaining := fun p => by
    unfold due
    split <;> omega
  have hle := hdue (parser.chunkLine config line).parser
  rw [heq] at hle
  simp only at hle ⊢
  omega

theorem Within.step {parser next : Parser isRequest} (hw : parser.Within config) {data : Text}
    {used : ℕ} {out : List Empty} (h : step config parser data = .next next used out) :
    next.Within config := by
  by_cases hin : parser.InBody
  · exact hw.step_body config hin h
  have hnext := (step_next config hw.toInv h).2.2
  unfold Parser.step at h
  cases hs : parser.state with
  | startLine =>
    simp only [hs] at h
    obtain ⟨hcode, rfl, hused, -, hmoved⟩ := stepOf_next h
    have hd : data ≠ [] := fun hc => hmoved (by simp [hc, putStartLine])
    obtain ⟨-, -, hstate, htotal, -⟩ := putStartLine_used config hd hcode
    refine ⟨hnext, fun hl => (putStartLine_header config).2 hl (hw.header_le hl), fun hl => ?_⟩
    have hle := hw.total_le hl
    rw [htotal, due, hstate]
    simp only [reduceCtorEq, or_self, reduceIte]
    omega
  | fields =>
    simp only [hs] at h
    rcases fieldStep_next config h with hput | ⟨mid, hput, hlast⟩
    · exact hw.putField config hput
    · exact (hw.putField config hput).finishHeader config
        ((putField_frame config hput).1.trans hs) hlast
  | body => exact absurd (.inl hs) hin
  | bodyToEof => exact absurd (.inr (.inl hs)) hin
  | chunkHeader =>
    simp only [hs] at h
    obtain ⟨hcode, hparser, -, -, hmoved⟩ := stepOf_next h
    rcases putChunkHeader_cases config.lenient parser data with
      ⟨code, heq⟩ | ⟨line, rest, -, -, heq, hnone⟩
    · exact absurd (by rw [heq]; exact ⟨rfl, rfl⟩) hmoved
    · rw [heq] at hparser
      obtain ⟨hheader, htotal⟩ := @Within.chunkLine _ config _ hw line hnone
      refine ⟨hnext, fun hl => ?_, fun hl => ?_⟩
      · rw [← hparser]
        exact hheader.trans (hw.header_le hl)
      · rw [← hparser]
        exact htotal hl
  | chunkBody => exact absurd (.inr (.inr hs)) hin
  | trailer =>
    simp only [hs] at h
    rcases fieldStep_next config h with hput | ⟨mid, hput, hlast⟩
    · exact hw.putField config hput
    · have hmid := hw.putField config hput
      cases hlast
      refine ⟨hnext, hmid.header_le, fun hl => ?_⟩
      have hle := hmid.total_le hl
      simp only [finish, due, reduceCtorEq, or_self, reduceIte]
      omega
  | done => simp only [hs] at h; cases h

/-! ### The calls of a read -/

/-- A loop of `put` comes to a turn of `q` on `rest`. -/
inductive Turns : Parser isRequest → Text → Parser isRequest → Text → Prop where
  | here {p d} (state : p.state ≠ .done) : Turns p d p d
  | next {p d q rest} (state : p.state ≠ .done) (code : (p.turn config d).code = none)
      (pause : ¬(p.state = .fields ∧ (p.turn config d).parser.state ≠ .fields))
      (moved : ¬((p.turn config d).used = 0 ∧ (p.turn config d).parser.state = p.state))
      (tail : Turns (p.turn config d).parser (d.drop (p.turn config d).used) q rest) :
      Turns p d q rest

/-- The parser once bytes are presented. -/
def receive (parser : Parser isRequest) (data : Text) : Parser isRequest :=
  { parser with received := parser.received || data ≠ [] }

end Parser

/-- `http::read` of pieces calls `put` of `q` on `rest`, `n` bytes having been consumed. -/
inductive Calls : List Text → Parser isRequest → ℕ → Text → Parser isRequest → ℕ → Text → Prop where
  | here {pieces p n b} : Calls pieces p n b p n b
  | again {pieces p n b q m rest} (state : (p.put config b).parser.state ≠ .done)
      (code : (p.put config b).code = none) (used : (p.put config b).used ≠ 0)
      (tail : Calls pieces (p.put config b).parser (n + (p.put config b).used)
        (b.drop (p.put config b).used) q m rest) : Calls pieces p n b q m rest
  | arrive {piece pieces p n b q m rest} (state : (p.put config b).parser.state ≠ .done)
      (code : (p.put config b).code = some .needMore ∨
        (p.put config b).code = none ∧ (p.put config b).used = 0)
      (tail : Calls pieces (p.put config b).parser (n + (p.put config b).used)
        (b.drop (p.put config b).used ++ piece) q m rest) : Calls (piece :: pieces) p n b q m rest

/-! ### The limits bind -/

/-- The codes of a message that a limit rejects. A chunk line that comes to the
limit has the code of a bad extension. -/
def HttpError.isLimit : HttpError → Bool
  | .headerLimit => true
  | .bodyLimit => true
  | .badChunkExtension => true
  | _ => false

/-- Whether a message is accepted or rejected by a limit. -/
inductive Verdict where
  | accepted
  | limited
  | neither
  deriving DecidableEq

def ReadResult.verdict : ReadResult isRequest → Verdict
  | .done .. => .accepted
  | .needMore => .neither
  | .failed e => if e.isLimit then .limited else .neither

/-- The limits bind for every way of cutting a stream. -/
structure LimitsBind (isRequest : Bool) (stream : Text) : Prop where
  /-- No more bytes are consumed for start line and fields than the header limit. -/
  header : ∀ pieces, pieces.flatten = stream → ∀ q n b,
    Calls config pieces (Parser.new isRequest) 0 [] q n b →
    q.state = .startLine ∨ q.state = .fields → n + (q.put config b).used ≤ config.headerLimit
  /-- No chunk line is taken above the header limit, but for the line end before it. -/
  chunkLine : ∀ pieces, pieces.flatten = stream → ∀ q n b r d,
    Calls config pieces (Parser.new isRequest) 0 [] q n b →
    Parser.Turns config (q.receive b) b r d → r.state = .chunkHeader →
    (r.turn config d).code = none →
    (r.turn config d).used ≤ config.headerLimit + r.chunkPrefix.length
  /-- No reader of a message that did not fail has more bytes than the body limit. -/
  body : ∀ pieces, pieces.flatten = stream → ∀ q n b,
    Calls config pieces (Parser.new isRequest) 0 [] q n b →
    (q.put config b).code = none ∨ (q.put config b).code = some .needMore →
    (q.put config b).parser.message.body.length ≤ config.bodyLimit
  /-- The message is accepted, or rejected by a limit, for every cutting or for none. -/
  verdict : ∀ pieces pieces' : List Text, pieces.flatten = stream → pieces'.flatten = stream →
    (readMessage config isRequest pieces).verdict = (readMessage config isRequest pieces').verdict

/-- The last byte completes a chunk line that had already come to the header limit, and
that is neither too large for the body limit nor extended badly. -/
def LateChunkLine (isRequest : Bool) (arrived : Text) : Prop :=
  ∃ u b q line, arrived = u ++ [b] ∧ (∀ c ∈ line, c ≠ cr) ∧
    Runs (Parser.step config) (Parser.started isRequest) u []
      (.waiting q (q.chunkPrefix ++ (line ++ [cr]))) ∧
    q.Refused config (q.chunkPrefix ++ (line ++ [cr])) ∧ ¬(b = lf ∧ q.Unfit config line)

variable {config}

/-! ### An overlong chunk line -/

theorem findChunkLine_more_append {body : Text} (h : findChunkLine body = .more) (b : UInt8) :
    findChunkLine (body ++ [b]) = .more ∨ ∃ line, body = line ++ [cr] ∧ ∀ c ∈ line, c ≠ cr := by
  rcases findChunkLine_cases (body ++ [b]) with hmore | ⟨line, b', rest, heq, hline⟩
  · exact .inl hmore
  right
  rcases List.eq_nil_or_concat rest with rfl | ⟨rest, b'', rfl⟩
  · have hsplit : body ++ [b] = (line ++ [cr]) ++ [b'] := by simpa using heq
    exact ⟨line, (List.append_inj' hsplit rfl).1, hline⟩
  · have hsplit : body ++ [b] = (line ++ cr :: b' :: rest) ++ [b''] := by simpa using heq
    rw [(List.append_inj' hsplit rfl).1, findChunkLine_append hline] at h
    split at h <;> cases h

theorem Parser.step_incomplete {parser : Parser isRequest} {body : Text}
    (hs : parser.state = .chunkHeader) (hlen : lineEnd.length ≤ (parser.chunkPrefix ++ body).length)
    (h : findChunkLine body = .more) :
    Parser.step config parser (parser.chunkPrefix ++ body) = .wait := by
  simp only [step, hs]
  rw [putChunkHeader_incomplete _ parser hlen h, if_neg fun hc => hc.1 rfl]
  simp only [stepOf, and_self, reduceIte]

theorem Parser.step_line {parser : Parser isRequest} (hs : parser.state = .chunkHeader)
    {line : Text} (h : ∀ c ∈ line, c ≠ cr) (b : UInt8) :
    Parser.step config parser (parser.chunkPrefix ++ (line ++ [cr]) ++ [b]) =
      if b = lf then parser.stepOf (parser.chunkLine config line) else .fail .badLineEnding := by
  have hdata : parser.chunkPrefix ++ (line ++ [cr]) ++ [b]
      = parser.chunkPrefix ++ (line ++ cr :: b :: []) := by simp
  simp only [step, hs]
  rw [hdata, putChunkHeader_line _ parser h]
  split <;> rfl

instance (parser : Parser isRequest) (rest : Text) : Decidable (parser.Refused config rest) :=
  inferInstanceAs (Decidable (_ ∧ _ ∧ _))

/-- The verdict of a run over a whole stream. -/
def settled (config : ParserConfig) : Result UInt8 (Parser isRequest) HttpError → Verdict
  | .waiting q rest => if q.Refused config rest then .limited else .neither
  | .done .. => .accepted
  | .failed e => if e.isLimit then .limited else .neither

/-- A chunk line that was refused stays refused unless the stream completes it late. -/
theorem refused_settles (hb : config.Bounded) {u x rest : Text} {q : Parser isRequest}
    (runs : Runs (Parser.step config) (Parser.started isRequest) u [] (.waiting q rest))
    (refused : q.Refused config rest)
    (hlate : ∀ t, t <+: u ++ x → ¬LateChunkLine config isRequest t) :
    ∃ r, Runs (Parser.step config) (Parser.started isRequest) (u ++ x) [] r ∧
      settled config r = .limited := by
  have hs := @Parser.step_resumable isRequest config hb
  induction x generalizing u rest with
  | nil =>
    rw [List.append_nil]
    exact ⟨_, runs, if_pos refused⟩
  | cons b x ih =>
    have hcons : u ++ b :: x = u ++ [b] ++ x := by simp
    have hgrow : max lineEnd.length config.headerLimit ≤ (rest ++ [b]).length := by
      rw [List.length_append]
      exact refused.2.2.trans (Nat.le_add_right _ _)
    rw [hcons] at hlate ⊢
    obtain ⟨body, rfl, hmore⟩ := Parser.chunkHeader_wait config refused.2.1
      ((le_max_left _ _).trans refused.2.2) runs.wait_of_waiting
    rcases findChunkLine_more_append hmore b with hmore' | ⟨line, rfl, hline⟩
    · refine ih (hs.resume Parser.inv_started runs (.wait ?_)) ⟨refused.1, refused.2.1, hgrow⟩ hlate
      rw [List.append_assoc] at hgrow ⊢
      exact Parser.step_incomplete refused.2.1 ((le_max_left _ _).trans hgrow) hmore'
    · have hunfit : b = lf ∧ q.Unfit config line := by
        by_contra hc
        exact hlate (u ++ [b]) (List.prefix_append _ _)
          ⟨u, b, q, line, rfl, hline, runs, refused, hc⟩
      have hstep := @Parser.step_line _ config _ refused.2.1 _ hline b
      rw [if_pos hunfit.1] at hstep
      rcases Parser.chunkLine_cases config q line with
        ⟨e, he, heq⟩ | ⟨size, hfit, -⟩
      · have hlimit : e = .bodyLimit ∨ e = .badChunkExtension := by
          rcases he with ⟨-, hfit⟩ | ⟨he, -⟩
          · exact absurd hunfit.2 hfit
          · exact he
        have hfail : Parser.step config q (q.chunkPrefix ++ (line ++ [cr]) ++ [b]) = .fail e := by
          rw [hstep, heq]
          rcases hlimit with rfl | rfl <;> rfl
        refine ⟨_, hs.extend Parser.inv_started
          (hs.resume Parser.inv_started runs (.fail hfail)) trivial x, ?_⟩
        rcases hlimit with rfl | rfl <;> rfl
      · exact absurd hunfit.2 hfit

/-- Unless a chunk line is completed late, the verdict is that of the whole stream. -/
theorem readMessage_settled (hb : config.Bounded) {pieces : List Text}
    (hne : pieces.flatten ≠ [])
    (hlate : ∀ t, t <+: pieces.flatten → ¬LateChunkLine config isRequest t) :
    ∃ r, Runs (Parser.step config) (Parser.started isRequest) pieces.flatten [] r ∧
      (readMessage config isRequest pieces).verdict = settled config r := by
  have hr := readMessage_source hb isRequest pieces hne
  generalize readMessage config isRequest pieces = result at hr
  cases hr with
  | done runs => exact ⟨_, runs, rfl⟩
  | needMore runs kept => exact ⟨_, runs, (if_neg kept).symm⟩
  | failed runs => exact ⟨_, runs, rfl⟩
  | @refused y x q rest hlater runs refused =>
    rw [hlater] at hlate
    obtain ⟨r, hruns, hsettled⟩ := refused_settles hb runs refused hlate
    rw [List.nil_append] at hruns
    exact ⟨r, hlater ▸ hruns, hsettled.symm⟩

theorem verdict_eq (hb : config.Bounded) {stream : Text}
    (hlate : ∀ t, t <+: stream → ¬LateChunkLine config isRequest t) {pieces pieces' : List Text}
    (h : pieces.flatten = stream) (h' : pieces'.flatten = stream) :
    (readMessage config isRequest pieces).verdict
      = (readMessage config isRequest pieces').verdict := by
  by_cases hne : stream = []
  · rw [readMessage_of_nil isRequest (h.trans hne), readMessage_of_nil isRequest (h'.trans hne)]
  · obtain ⟨r, hr, hv⟩ := readMessage_settled hb (by rwa [h]) (by rwa [h])
    obtain ⟨r', hr', hv'⟩ := readMessage_settled hb (by rwa [h']) (by rwa [h'])
    rw [h] at hr
    rw [h'] at hr'
    rw [hv, hv', (hr.det hr').2]

theorem readMessage_started {piece : Text} (hne : piece ≠ []) (pieces : List Text) :
    readMessage config isRequest (piece :: pieces) =
      read config pieces (Parser.started isRequest) 0 piece := by
  unfold readMessage
  rw [read_new_nil, read_started hne]

/-- A line that is taken leaves the machine waiting for the chunk or the trailer. -/
theorem Parser.step_chunkLine {parser : Parser isRequest} (hw : parser.Within config)
    (hl : config.headerLimit ≠ 0) {line : Text} (h : (parser.chunkLine config line).code = none) :
    Parser.step config (parser.chunkLine config line).parser [] = .wait ∧
      (parser.chunkLine config line).parser.state ≠ .chunkHeader := by
  have hheader := hw.header_le hl
  rcases Parser.chunkLine_cases config parser line with ⟨e, -, heq⟩ | ⟨size, -, -, -, heq⟩
  · rw [heq] at h
    cases h
  rw [heq]
  by_cases hsize : size = 0
  · subst hsize
    have hwindow : ¬(config.headerLimit ≠ 0 ∧ config.headerLimit - min config.headerLimit
        (parser.header - lineEnd.length) ≤ ([] : Text).length) := by
      simp only [lineEnd, List.length_cons, List.length_nil]
      omega
    refine ⟨?_, by simp⟩
    simp only [step, reduceIte, fieldStep, putField, headerWindow, List.take_nil, ite_self]
    have hmore : ∀ frame, parseField config.split frame [] = .more := fun _ => rfl
    rw [hmore]
    simp only [headerLimited, if_neg hwindow]
  · refine ⟨?_, by simp [hsize]⟩
    simp only [step, putBody, hsize, and_false, ne_eq, reduceCtorEq, not_false_eq_true,
      List.length_nil, Nat.zero_min, reduceIte, not_true_eq_false, false_and, stepOf, and_self]

theorem lateChunkLine_settles {stream : Text} (hb : config.Bounded)
    (h : LateChunkLine config isRequest stream) :
    ∃ r, Runs (Parser.step config) (Parser.started isRequest) stream [] r ∧
      settled config r ≠ .limited := by
  obtain ⟨u, b, q, line, rfl, hline, runs, refused, hfit⟩ := h
  have hs := @Parser.step_resumable isRequest config hb
  have hstep := @Parser.step_line _ config _ refused.2.1 _ hline b
  by_cases hbyte : b = lf
  · rw [if_pos hbyte] at hstep
    have hunfit : ¬q.Unfit config line := fun hc => hfit ⟨hbyte, hc⟩
    rcases Parser.chunkLine_cases config q line with ⟨e, he, heq⟩ | ⟨size, -, -, -, heq⟩
    · obtain ⟨rfl, -⟩ := he.resolve_right fun hc => hunfit hc.2
      rw [heq] at hstep
      exact ⟨_, hs.resume Parser.inv_started runs (.fail hstep), fun hc => by cases hc⟩
    · have hcode : (q.chunkLine config line).code = none := by rw [heq]
      have hw : q.Within config := runs.reaches.keeps (fun hw h => hw.step config h)
        (Parser.within_started config)
      obtain ⟨hwait, hstate⟩ := Parser.step_chunkLine hw refused.1 hcode
      have hused : (q.chunkLine config line).used
          = (q.chunkPrefix ++ (line ++ [cr]) ++ [b]).length := by
        rw [heq]
        simp only [List.length_append, List.length_cons, List.length_nil, lineEnd]
        omega
      have hnext : Parser.step config q (q.chunkPrefix ++ (line ++ [cr]) ++ [b])
          = .next (q.chunkLine config line).parser (q.chunkLine config line).used [] := by
        rw [hstep, Parser.stepOf, hcode]
        exact if_neg fun hc => by simp [hc.1] at hused
      have htail := (Runs.next hnext (by rw [hused, List.drop_length]; exact .wait hwait))
      exact ⟨_, hs.resume Parser.inv_started runs htail, fun hc => by
        simp [settled, Parser.Refused, hstate] at hc⟩
  · rw [if_neg hbyte] at hstep
    exact ⟨_, hs.resume Parser.inv_started runs (.fail hstep), fun hc => by cases hc⟩

/-- A stream that completes a chunk line late is cut so that the limit rejects it, and
cut so that no limit does. -/
theorem lateChunkLine_verdict {stream : Text} (hb : config.Bounded)
    (h : LateChunkLine config isRequest stream) :
    ∃ pieces : List Text, pieces.flatten = stream ∧
      (readMessage config isRequest pieces).verdict
        ≠ (readMessage config isRequest [stream]).verdict := by
  obtain ⟨r, hr, hsettled⟩ := lateChunkLine_settles hb h
  obtain ⟨u, b, q, line, rfl, hline, runs, refused, hfit⟩ := h
  have hu : u ≠ [] := fun hc => by
    have hle := runs.rest_length_le
    rw [hc] at hle
    simp [Result.rest] at hle
  have hwhole : (readMessage config isRequest [u ++ [b]]).verdict ≠ .limited := by
    rw [readMessage_started (by simp)]
    unfold read
    have hbuf := readBuffered_source config (Nat.lt_succ_self (u ++ [b]).length)
      (@Parser.inv_started isRequest)
    generalize readBuffered config ((u ++ [b]).length + 1) (Parser.started isRequest) (u ++ [b])
      = result at hbuf
    cases hbuf with
    | done _ => exact fun hc => by cases hc
    | more _ _ => exact fun hc => by cases hc
    | failed runs' =>
      rw [(hr.det runs').2] at hsettled
      exact hsettled
    | refused runs' refused' =>
      rw [(hr.det runs').2] at hsettled
      exact absurd (if_pos refused') hsettled
  have hcut : (readMessage config isRequest [u, [b]]).verdict = .limited := by
    rw [readMessage_started hu]
    unfold read
    have hbuf := readBuffered_source config (Nat.lt_succ_self u.length)
      (@Parser.inv_started isRequest)
    generalize readBuffered config (u.length + 1) (Parser.started isRequest) u = result at hbuf
    cases hbuf with
    | done runs' => cases (runs.det runs').2
    | more runs' kept =>
      cases (runs.det runs').2
      exact absurd refused kept
    | failed runs' => cases (runs.det runs').2
    | refused _ _ => rfl
  exact ⟨[u, [b]], by simp, by rw [hcut]; exact hwhole.symm⟩

/-! ### Where a read stands -/

/-- The machine stands at `p` with `d` to consume when the bytes `u` have arrived. -/
def Arrived (config : ParserConfig) (u : Text) (p : Parser isRequest) (d : Text) : Prop :=
  ∃ v y q rest, u = v ++ y ∧
    Runs (Parser.step config) (Parser.started isRequest) v [] (.waiting q rest) ∧
    Reaches (Parser.step config) q (rest ++ y) [] p d

theorem Arrived.within {u d : Text} {p : Parser isRequest} (h : Arrived config u p d) :
    p.Within config := by
  obtain ⟨v, y, q, rest, -, runs, reaches⟩ := h
  have hq : q.Within config :=
    runs.reaches.keeps (fun hw h => hw.step config h) (Parser.within_started config)
  exact reaches.keeps (fun hw h => hw.step config h) hq

theorem Arrived.reaches {u d rest : Text} {p q : Parser isRequest} (h : Arrived config u p d)
    (hr : Reaches (Parser.step config) p d [] q rest) : Arrived config u q rest := by
  obtain ⟨v, y, p', rest', hu, runs, reaches⟩ := h
  exact ⟨v, y, p', rest', hu, runs, reaches.trans hr⟩

theorem Arrived.wait (hb : config.Bounded) {u d rest : Text} {p q : Parser isRequest}
    (h : Arrived config u p d) (hr : Runs (Parser.step config) p d [] (.waiting q rest))
    (piece : Text) : Arrived config (u ++ piece) q (rest ++ piece) := by
  obtain ⟨v, y, p', rest', rfl, runs, reaches⟩ := h
  have hs := @Parser.step_resumable isRequest config hb
  exact ⟨v ++ y, piece, q, rest, rfl, hs.resume Parser.inv_started runs (reaches.runs hr), .refl⟩

theorem arrived_started (piece : Text) :
    Arrived config piece (Parser.started isRequest) piece :=
  ⟨[], piece, Parser.started isRequest, [], rfl, .wait rfl, .refl⟩

theorem turns_arrived {u d rest : Text} {p q : Parser isRequest}
    (h : Parser.Turns config p d q rest) (ha : Arrived config u p d) : Arrived config u q rest := by
  induction h with
  | here _ => exact ha
  | @next p d q rest state code pause moved _ ih =>
    refine ih ?_
    rcases @Parser.turn_reports _ config _ d ha.within.toInv state with
      ⟨heq, -⟩ | ⟨hreports, -⟩
    · exact absurd (by rw [heq]; exact ⟨rfl, rfl⟩) moved
    · generalize p.turn config d = put at hreports code ⊢
      cases hreports with
      | go _ _ _ reaches => exact ha.reaches reaches
      | wait _ _ => cases code
      | fail _ _ _ => cases code
      | refuse _ _ _ => cases code

/-- The calls of a read are those from its first bytes. -/
theorem calls_new {pieces : List Text} {q : Parser isRequest} {m : ℕ} {rest : Text}
    (h : Calls config pieces (Parser.new isRequest) 0 [] q m rest) :
    (q = Parser.new isRequest ∧ m = 0 ∧ rest = []) ∨ ∃ piece later q',
      pieces.flatten = piece ++ later.flatten ∧ piece ≠ [] ∧
      Calls config later (Parser.started isRequest) 0 piece q' m rest ∧
      (q' = q ∨ q = Parser.new isRequest ∧ q' = Parser.started isRequest ∧ rest = piece) := by
  induction pieces with
  | nil =>
    cases h with
    | here => exact .inl ⟨rfl, rfl, rfl⟩
    | again _ code _ _ => rw [put_nil] at code; cases code
  | cons piece pieces ih =>
    cases h with
    | here => exact .inl ⟨rfl, rfl, rfl⟩
    | again _ code _ _ => rw [put_nil] at code; cases code
    | arrive state code tail =>
      rw [put_nil] at tail
      simp only [List.drop_nil, List.nil_append, Nat.add_zero] at tail
      by_cases hp : piece = []
      · subst hp
        simpa using ih tail
      · refine .inr ⟨piece, pieces, ?_⟩
        cases tail with
        | here => exact ⟨_, by simp, hp, .here, .inr ⟨rfl, rfl, rfl⟩⟩
        | again state code used tail =>
          rw [put_started hp] at state code used tail
          exact ⟨q, by simp, hp, .again state code used tail, .inl rfl⟩
        | arrive state code tail =>
          rw [put_started hp] at state code tail
          exact ⟨q, by simp, hp, .arrive state code tail, .inl rfl⟩

/-! ### The header -/

namespace Parser

/-- The parser takes start line or fields. -/
def InHeader (parser : Parser isRequest) : Prop :=
  parser.state = .startLine ∨ parser.state = .fields

/-- What a put of the header leaves: it counts what it consumes up to the limit. -/
def HeaderPut (config : ParserConfig) (parser : Parser isRequest) (put : Put isRequest) : Prop :=
  parser.header + put.used ≤ config.headerLimit ∧
    (put.parser.InHeader → put.parser.header = parser.header + put.used)

theorem HeaderPut.after {parser mid : Parser isRequest} {put : Put isRequest} {used : ℕ}
    (hmid : mid.header = parser.header + used) (h : mid.HeaderPut config put) :
    parser.HeaderPut config { put with used := used + put.used } := by
  obtain ⟨hle, hcount⟩ := h
  rw [hmid] at hle hcount
  exact ⟨by simp only; omega, fun hin => by rw [hcount hin]; simp only; omega⟩

theorem headerPut_none {parser : Parser isRequest} (hle : parser.header ≤ config.headerLimit)
    (code : Option HttpError) : parser.HeaderPut config ⟨parser, 0, code⟩ :=
  ⟨hle, fun _ => rfl⟩

theorem enterBody_header (parser : Parser isRequest) (state : ParserState) (length : Option ℕ) :
    (parser.enterBody config state length).1.header = parser.header := by
  unfold enterBody
  split <;> rfl

theorem finishHeader_header (parser : Parser isRequest) :
    (parser.finishHeader config).1.header = parser.header := by
  unfold finishHeader
  repeat' split
  all_goals first | rfl | exact enterBody_header _ _ _

theorem putFields_header {turns : ℕ} {parser : Parser isRequest} {data : Text}
    (hl : config.headerLimit ≠ 0) (hs : parser.state = .fields)
    (hle : parser.header ≤ config.headerLimit) :
    parser.HeaderPut config
      (putFieldLines config true (Parser.finishHeader config) turns parser data) := by
  induction turns generalizing parser data with
  | zero => exact headerPut_none hle _
  | succ turns ih =>
    unfold putFieldLines
    cases hput : parser.putField config true data with
    | error e => exact headerPut_none hle _
    | ok value =>
      obtain ⟨next, used, ended⟩ := value
      obtain ⟨hcount, hlimit⟩ := Parser.putField_header config hput
      have hstate := (putField_frame config hput).1.trans hs
      have hnext := hlimit hl hle
      cases ended with
      | true =>
        simp only
        refine ⟨by simp only; omega, fun _ => ?_⟩
        rw [finishHeader_header]
        exact hcount
      | false => exact .after hcount (ih hstate hnext)

theorem turn_header {parser : Parser isRequest} {data : Text} (hl : config.headerLimit ≠ 0)
    (hs : parser.InHeader) (hle : parser.header ≤ config.headerLimit) :
    parser.HeaderPut config (parser.turn config data) ∧
      (¬(parser.state = .fields ∧ (parser.turn config data).parser.state ≠ .fields) →
        (parser.turn config data).parser.InHeader) := by
  rcases hs with hs | hs
  · obtain ⟨hcount, hlimit⟩ := @putStartLine_header _ config parser data
    simp only [turn, hs]
    refine ⟨⟨by rw [← hcount]; exact hlimit hl hle, fun _ => hcount⟩, fun _ => ?_⟩
    unfold putStartLine
    split
    · exact .inl hs
    · split
      · exact .inl hs
      · exact .inl hs
      · exact .inr rfl
  · simp only [turn, hs, putFields]
    exact ⟨putFields_header hl hs hle, fun hpause => .inr (by simpa using hpause)⟩

/-- A put that starts in the header stops at its end, within the limit. -/
theorem putLoop_header {turns : ℕ} {parser : Parser isRequest} {data : Text}
    (hl : config.headerLimit ≠ 0) (hs : parser.InHeader)
    (hle : parser.header ≤ config.headerLimit) :
    parser.HeaderPut config (putLoop config turns parser data) := by
  induction turns generalizing parser data with
  | zero => exact headerPut_none hle _
  | succ turns ih =>
    unfold putLoop
    have hdone : parser.state ≠ .done := by
      rcases hs with h | h <;> rw [h] <;> (intro hc; cases hc)
    rw [if_neg hdone]
    obtain ⟨hput, hstay⟩ := @turn_header _ config _ data hl hs hle
    generalize parser.turn config data = put at hput hstay ⊢
    obtain ⟨next, used, code⟩ := put
    cases code with
    | some e => exact hput
    | none =>
      simp only at hstay ⊢
      by_cases hpause : parser.state = .fields ∧ next.state ≠ .fields
      · rw [if_pos hpause]
        exact hput
      rw [if_neg hpause]
      have hin := hstay hpause
      have hcount := hput.2 hin
      by_cases hstuck : used = 0 ∧ next.state = parser.state
      · rw [if_pos hstuck]
        obtain ⟨rfl, -⟩ := hstuck
        exact hput
      · rw [if_neg hstuck]
        exact .after hcount (ih hin (by have := hput.1; simp only at this hcount ⊢; omega))

/-- A machine past the header stays past it. -/
theorem step_past_header {parser next : Parser isRequest} {data : Text} {used : ℕ}
    {out : List Empty} (hi : parser.Inv) (hs : ¬parser.InHeader)
    (h : step config parser data = .next next used out) : ¬next.InHeader := by
  by_cases hin : parser.InBody
  · obtain ⟨-, -, -, rfl, -⟩ := step_body_next config hi hin h
    unfold settle
    split
    · rcases completeBody_state (parser.absorb (data.take (parser.bodySize data))) with hc | hc <;>
      · rintro (h' | h') <;> rw [hc] at h' <;> cases h'
    · exact hs
  unfold step at h
  cases hstate : parser.state with
  | startLine => exact absurd (.inl hstate) hs
  | fields => exact absurd (.inr hstate) hs
  | body => exact absurd (.inl hstate) hin
  | bodyToEof => exact absurd (.inr (.inl hstate)) hin
  | chunkHeader =>
    simp only [hstate] at h
    obtain ⟨hcode, hparser, -, -, hmoved⟩ := stepOf_next h
    rcases putChunkHeader_cases config.lenient parser data with
      ⟨code, heq⟩ | ⟨line, rest, -, -, heq, hnone⟩
    · exact absurd (by rw [heq]; exact ⟨rfl, rfl⟩) hmoved
    rcases chunkLine_cases config.lenient parser line with ⟨e, -, hline⟩ | ⟨size, -, -, -, hline⟩
    · rw [hline] at hnone
      cases hnone
    · rw [heq, hline] at hparser
      subst hparser
      rintro (h' | h') <;> simp only at h' <;> split at h' <;> cases h'
  | chunkBody => exact absurd (.inr (.inr hstate)) hin
  | trailer =>
    simp only [hstate] at h
    rcases fieldStep_next config h with hput | ⟨mid, -, hlast⟩
    · have hnext := (putField_frame config hput).1.trans hstate
      rintro (h' | h') <;> rw [hnext] at h' <;> cases h'
    · cases hlast
      rintro (h' | h') <;> cases h'
  | done => simp only [hstate] at h; cases h

end Parser

/-- A call that leaves the parser in the header started there and counted its bytes. -/
theorem put_header (hl : config.headerLimit ≠ 0) {p : Parser isRequest} {n : ℕ} {u b : Text}
    (ha : Arrived config u p b) (hp : p.InHeader → n = p.header)
    (hcode : (p.put config b).code = none ∨ (p.put config b).code = some .needMore)
    (hin : (p.put config b).parser.InHeader) :
    n + (p.put config b).used = (p.put config b).parser.header := by
  have hi := ha.within.toInv
  by_cases hs : p.InHeader
  · have hput := @Parser.putLoop_header _ config (2 * b.length + 2) _ b hl hs (ha.within.header_le hl)
    rw [← Parser.put_eq config hi] at hput
    rw [hput.2 hin, hp hs]
  · have hreports := Parser.put_reports config hi b
    have hpast : ∀ {q : Parser isRequest} {rest},
        Reaches (Parser.step config) p b [] q rest → ¬q.InHeader := fun hr =>
      (hr.keeps (P := fun p => p.Inv ∧ ¬p.InHeader) (fun hc hstep =>
        ⟨(Parser.step_next config hc.1 hstep).2.2, Parser.step_past_header hc.1 hc.2 hstep⟩)
        ⟨hi, hs⟩).2
    generalize p.put config b = put at hreports hcode hin ⊢
    cases hreports with
    | go _ _ _ reaches => exact absurd hin (hpast reaches)
    | wait runs _ => exact absurd hin (hpast runs.reaches)
    | fail he _ _ => rcases hcode with hcode | hcode <;> cases hcode; exact absurd rfl he
    | refuse _ _ _ => rcases hcode with hcode | hcode <;> cases hcode

theorem calls_arrived (hb : config.Bounded) (hl : config.headerLimit ≠ 0) {pieces : List Text}
    {p q : Parser isRequest} {n m : ℕ} {u d rest : Text} (h : Calls config pieces p n d q m rest)
    (ha : Arrived config u p d) (hp : p.InHeader → n = p.header) :
    (∃ u', u' <+: u ++ pieces.flatten ∧ Arrived config u' q rest) ∧
      (q.InHeader → m = q.header) := by
  induction h generalizing u with
  | here => exact ⟨⟨u, List.prefix_append _ _, ha⟩, hp⟩
  | @again pieces p n b q m rest state code used _ ih =>
    refine ih ?_ (put_header hl ha hp (.inl code))
    have hreports := Parser.put_reports config ha.within.toInv b
    generalize p.put config b = put at hreports code ⊢
    cases hreports with
    | go _ _ _ reaches => exact ha.reaches reaches
    | wait _ _ => cases code
    | fail _ _ _ => cases code
    | refuse _ _ _ => cases code
  | @arrive piece pieces p n b q m rest state code _ ih =>
    have hreports := Parser.put_reports config ha.within.toInv b
    have hcode := code.symm.imp And.left id
    obtain ⟨⟨u', hu', ha'⟩, hcount⟩ := ih (u := u ++ piece) (by
      generalize p.put config b = put at hreports code state ⊢
      cases hreports with
      | go _ moved _ _ =>
        rcases code with code | ⟨_, used⟩
        · cases code
        · exact absurd used (moved.resolve_left state).ne'
      | wait runs _ => exact ha.wait hb runs piece
      | fail he _ _ => rcases code with code | ⟨code, _⟩ <;> cases code; exact absurd rfl he
      | refuse _ _ _ => rcases code with code | ⟨code, _⟩ <;> cases code)
      (put_header hl ha hp hcode)
    exact ⟨⟨u', by simpa using hu', ha'⟩, hcount⟩

/-! ### The limits bind unless a chunk line is completed late -/

/-- A complete line before the machine was there, but for its LF, when the rest had arrived. -/
theorem Arrived.before_line (hb : config.Bounded) {u rest line : Text} {q : Parser isRequest}
    (hs : q.state = .chunkHeader) (hline : ∀ c ∈ line, c ≠ cr)
    (hlen : lineEnd.length ≤ (q.chunkPrefix ++ (line ++ [cr])).length)
    (h : Arrived config u q (q.chunkPrefix ++ (line ++ cr :: lf :: rest))) :
    ∃ v, v ++ [lf] <+: u ∧ Runs (Parser.step config) (Parser.started isRequest) v []
      (.waiting q (q.chunkPrefix ++ (line ++ [cr]))) := by
  have hres := @Parser.step_resumable isRequest config hb
  obtain ⟨v, y, p, left, rfl, runs, reaches⟩ := h
  have hp := hres.inv_waiting Parser.inv_started runs
  have hdata : q.chunkPrefix ++ (line ++ cr :: lf :: rest)
      = q.chunkPrefix ++ (line ++ [cr]) ++ lf :: rest := by simp
  have hwait : Parser.step config q (q.chunkPrefix ++ (line ++ [cr])) = .wait :=
    Parser.step_incomplete hs hlen (findChunkLine_incomplete hline)
  rw [hdata] at reaches
  by_cases hle : (lf :: rest).length ≤ y.length
  · -- the LF is among the last bytes that arrived
    obtain ⟨y', rfl⟩ : lf :: rest <:+ y :=
      List.suffix_of_suffix_length_le ((List.suffix_append _ _).trans reaches.suffix)
        (List.suffix_append _ _) hle
    rw [← List.append_assoc] at reaches
    have hearlier := (Parser.step_prompt config).reaches hp (by simp) reaches
    refine ⟨v ++ y', ⟨rest, by simp⟩, ?_⟩
    exact hres.resume Parser.inv_started runs (hearlier.runs (.wait hwait))
  · -- the line was complete where the machine waited
    exfalso
    obtain ⟨z, hz⟩ : y <:+ lf :: rest :=
      @List.suffix_of_suffix_length_le _ _ (left ++ y) _ (List.suffix_append _ _)
        ((List.suffix_append _ _).trans reaches.suffix) (by omega)
    have hne : z ≠ [] := fun hc => hle (by rw [← hz, hc, List.nil_append])
    rw [← hz, ← List.append_assoc] at reaches
    have hearlier := (Parser.step_prompt config).reaches hp (by simp) reaches
    obtain ⟨rfl, hleft⟩ := hearlier.eq_of_wait runs.wait_of_waiting
    obtain ⟨b, z, rfl⟩ := List.exists_cons_of_ne_nil hne
    obtain ⟨rfl, -⟩ : b = lf ∧ _ := by simpa using hz
    have hstuck := runs.wait_of_waiting
    rw [← hleft, List.append_assoc, List.append_assoc] at hstuck
    obtain ⟨body, hbody, hmore⟩ := Parser.chunkHeader_wait config hs (by
      simp only [List.length_append, List.length_cons] at hlen ⊢
      omega) hstuck
    rw [List.append_cancel_left_eq] at hbody
    rw [← hbody] at hmore
    simp only [List.cons_append, List.nil_append, findChunkLine_append hline, reduceIte] at hmore
    cases hmore

/-- A chunk line that is taken has at most the bytes of the header limit, or was
completed late. -/
theorem Arrived.line_le (hb : config.Bounded) (hl : config.headerLimit ≠ 0) {u d : Text}
    {q : Parser isRequest} (h : Arrived config u q d) (hs : q.state = .chunkHeader)
    (hcode : (q.turn config d).code = none)
    (hlate : ∀ t, t <+: u → ¬LateChunkLine config isRequest t) :
    (q.turn config d).used ≤ config.headerLimit + q.chunkPrefix.length := by
  have hturn : q.turn config d = q.putChunkHeader config d := by simp only [Parser.turn, hs]
  rw [hturn] at hcode ⊢
  rcases Parser.putChunkHeader_cases config q d with ⟨code, heq⟩ | ⟨line, rest, rfl, hline, heq, hnone⟩
  · rw [heq]
    exact Nat.zero_le _
  rcases Parser.chunkLine_cases config q line with ⟨e, -, hresult⟩ | ⟨size, hfit, hne, -, hresult⟩
  · rw [hresult] at hnone
    cases hnone
  rw [heq, hresult]
  by_contra hover
  have hpos := List.length_pos_of_ne_nil hne
  have hlen : max lineEnd.length config.headerLimit
      ≤ (q.chunkPrefix ++ (line ++ [cr])).length := by
    simp only [List.length_append, List.length_cons, List.length_nil, lineEnd] at hover ⊢
    omega
  obtain ⟨v, hv, runs⟩ := h.before_line hb hs hline ((le_max_left _ _).trans hlen)
  exact hlate _ hv ⟨v, lf, q, line, rfl, hline, runs, ⟨hl, hs, hlen⟩, fun hc => hfit hc.2⟩

/-- Where the calls of a read stand, the first of which may have no bytes. -/
theorem calls_stand (hb : config.Bounded) (hl : config.headerLimit ≠ 0) {pieces : List Text}
    {q : Parser isRequest} {n : ℕ} {b : Text}
    (h : Calls config pieces (Parser.new isRequest) 0 [] q n b) :
    (q = Parser.new isRequest ∧ n = 0 ∧ b = []) ∨ ∃ q', q.receive b = q' ∧
      q.put config b = q'.put config b ∧ q.state = q'.state ∧
      (∃ u, u <+: pieces.flatten ∧ Arrived config u q' b) ∧ (q'.InHeader → n = q'.header) := by
  rcases calls_new h with hnone | ⟨piece, later, q', hflat, hne, hcalls, hq⟩
  · exact .inl hnone
  obtain ⟨hstand, hcount⟩ := calls_arrived hb hl hcalls (arrived_started piece) fun _ => rfl
  rw [← hflat] at hstand
  refine .inr ⟨q', ?_, ?_, ?_, hstand, hcount⟩
  all_goals rcases hq with rfl | ⟨rfl, rfl, rfl⟩
  · obtain ⟨u, -, ha⟩ := hstand
    rw [Parser.receive, ha.within.received, Bool.true_or, ← ha.within.received]
  · simp only [Parser.receive, Parser.started, Parser.new, ne_eq, hne, not_false_eq_true,
      decide_true, Bool.or_true]
  · rfl
  · exact put_started hne isRequest
  · rfl
  · rfl

theorem limitsBind (hb : config.Bounded) (hl : config.headerLimit ≠ 0)
    (hbody : config.bodyLimit ≠ 0) {stream : Text}
    (hlate : ∀ t, t <+: stream → ¬LateChunkLine config isRequest t) :
    LimitsBind config isRequest stream where
  header pieces hpieces q n b hcalls hin := by
    rcases calls_stand hb hl hcalls with ⟨rfl, rfl, rfl⟩ | ⟨q', -, hput, hstate, ⟨u, -, ha⟩, hcount⟩
    · rw [put_nil]
      exact Nat.zero_le _
    · have hin' : q'.InHeader := by rwa [hstate] at hin
      have hloop := @Parser.putLoop_header _ config (2 * b.length + 2) _ b hl hin' (ha.within.header_le hl)
      rw [hput, Parser.put_eq config ha.within.toInv, hcount hin']
      exact hloop.1
  chunkLine pieces hpieces q n b r d hcalls hturns hs hcode := by
    rcases calls_stand hb hl hcalls with ⟨rfl, rfl, rfl⟩ | ⟨q', hreceive, -, -, ⟨u, hu, ha⟩, -⟩
    · cases hturns with
      | here _ => cases hs
      | next _ _ _ moved _ => exact absurd ⟨rfl, rfl⟩ moved
    · rw [hreceive] at hturns
      refine (turns_arrived hturns ha).line_le hb hl hs hcode fun t ht => hlate t ?_
      exact hpieces ▸ ht.trans hu
  body pieces hpieces q n b hcalls hcode := by
    rcases calls_stand hb hl hcalls with ⟨rfl, rfl, rfl⟩ | ⟨q', -, hput, -, ⟨u, -, ha⟩, -⟩
    · rw [put_nil]
      exact Nat.zero_le _
    rw [hput] at hcode ⊢
    have hreports := Parser.put_reports config ha.within.toInv b
    have hwithin : ∀ {p : Parser isRequest} {rest},
        Reaches (Parser.step config) q' b [] p rest →
        p.message.body.length ≤ config.bodyLimit := fun hr => by
      have hw := (ha.reaches hr).within
      rw [hw.body_total]
      exact (Nat.le_add_right _ _).trans (hw.total_le hbody)
    generalize q'.put config b = put at hreports hcode ⊢
    cases hreports with
    | go _ _ _ reaches => exact hwithin reaches
    | wait runs _ => exact hwithin runs.reaches
    | fail he _ _ => rcases hcode with hcode | hcode <;> cases hcode; exact absurd rfl he
    | refuse _ _ _ => rcases hcode with hcode | hcode <;> cases hcode
  verdict pieces pieces' h h' := verdict_eq hb hlate h h'

/-- The limits bind for every way of cutting a stream, and for those of its
beginnings, unless it completes a chunk line late. -/
theorem limitsBind_iff (config : ParserConfig) (isRequest : Bool) (stream : Text)
    (hl : config.headerLimit ≠ 0) (hbody : config.bodyLimit ≠ 0) (hb : config.Bounded) :
    (∀ t, t <+: stream → LimitsBind config isRequest t) ↔
      ∀ t, t <+: stream → ¬LateChunkLine config isRequest t := by
  constructor
  · intro hbind t ht hlate
    obtain ⟨pieces, hpieces, hne⟩ := lateChunkLine_verdict hb hlate
    exact hne ((hbind t ht).verdict pieces [t] hpieces (by simp))
  · intro hlate t ht
    exact limitsBind hb hl hbody fun t' ht' => hlate t' (ht'.trans ht)

theorem limitsBind_iff_short :
    (∀ t, t <+: ascii "GET / HTTP/1.1\r\n" → LimitsBind ⟨listItems, 100, 48, 64, false⟩ true t) ↔
      ∀ t, t <+: ascii "GET / HTTP/1.1\r\n" →
        ¬LateChunkLine ⟨listItems, 100, 48, 64, false⟩ true t :=
  limitsBind_iff _ true _ (by decide) (by decide) (by decide : 64 ≤ 100)

/-- A response with a chunk line of 52 bytes under a header limit of 48. -/
def overlongLine : Text := ascii
  "HTTP/1.1 200 \r\nTransfer-Encoding: chunked\r\n\r\n1;aaaaaaaaaaaaaaaaaaaaaaaaaaaaaaaaaaaaaaaaaaaaaaaa\r\na\r\n0\r\n\r\n"

/-- Presented whole it is accepted, and cut before the LF of the line it is rejected. -/
theorem not_limitsBind_overlongLine :
    ¬LimitsBind ⟨listItems, 100, 48, 64, false⟩ false overlongLine := by
  intro h
  have hv := h.verdict [overlongLine.take 96, overlongLine.drop 96] [overlongLine] (by simp) (by simp)
  revert hv
  decide +kernel

end BitcoinNetwork.Http
