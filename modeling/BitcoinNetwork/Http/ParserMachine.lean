import BitcoinNetwork.Http.Parser
import BitcoinNetwork.Incremental.Machine

/-!
# The parser as a machine over its stream

One step of the machine parses one element: the start line, a field line, a
chunk line, or what has arrived of a body. The machine waits at a chunk line
whatever its length, where the source refuses an incomplete one that reaches
the header limit; everything else is the source's own. It is resumable, so that
how the stream is cut into pieces does not show in its runs.
-/

namespace BitcoinNetwork.Http
open Incremental

/-- The same parse without a limit on start line, fields and chunk lines. -/
def ParserConfig.lenient (config : ParserConfig) : ParserConfig := { config with headerLimit := 0 }

/-- A body read to the end of the stream reaches its limit before `max_size()`. -/
def ParserConfig.Bounded (config : ParserConfig) : Prop := config.bodyLimit ≤ config.maxSize

namespace Parser
variable {isRequest : Bool} (config : ParserConfig)

/-- The step of a parse function that consumes, waits or fails. -/
def stepOf (parser : Parser isRequest) (put : Put isRequest) :
    Step (Parser isRequest) Empty HttpError :=
  match put.code with
  | some .needMore => .wait
  | some e => .fail e
  | none => if put.used = 0 ∧ put.parser.state = parser.state then .wait
    else .next put.parser put.used []

/-- The step of a field line, or of the empty line and `last`. -/
def fieldStep (retain : Bool) (last : Parser isRequest → Parser isRequest × Option HttpError)
    (parser : Parser isRequest) (data : Text) : Step (Parser isRequest) Empty HttpError :=
  match parser.putField config retain data with
  | .error .needMore => .wait
  | .error e => .fail e
  | .ok (parser, used, false) => .next parser used []
  | .ok (parser, used, true) =>
    match last parser with
    | (parser, none) => .next parser used []
    | (_, some e) => .fail e

/-- What follows the empty line of the trailer. -/
def finishTrailer (parser : Parser isRequest) : Parser isRequest × Option HttpError :=
  (parser.finish, none)

/-- One element of the stream. -/
def step (parser : Parser isRequest) (data : Text) : Step (Parser isRequest) Empty HttpError :=
  match parser.state with
  | .startLine => parser.stepOf (parser.putStartLine config data)
  | .fields => fieldStep config true (finishHeader config) parser data
  | .body | .bodyToEof | .chunkBody => parser.stepOf (parser.putBody config data)
  | .chunkHeader => parser.stepOf (parser.putChunkHeader config.lenient data)
  | .trailer => fieldStep config false finishTrailer parser data
  | .done => .done

/-- A delimited body has bytes to come, the body is what was counted, and bytes
have been received. -/
structure Inv (parser : Parser isRequest) : Prop where
  received : parser.received = true
  remaining_pos : parser.state = .body ∨ parser.state = .chunkBody → 0 < parser.remaining
  body_total : parser.message.body.length = parser.total
  header_total : parser.state = .startLine ∨ parser.state = .fields → parser.total = 0

/-- The parser to which the first bytes are presented. -/
def started (isRequest : Bool) : Parser isRequest := { Parser.new isRequest with received := true }

theorem inv_started : (started isRequest).Inv where
  received := rfl
  remaining_pos h := by rcases h with h | h <;> cases h
  body_total := rfl
  header_total _ := rfl

/-! ### The header window -/

theorem headerWindow_append (parser : Parser isRequest) (data x : Text) :
    ∃ y, parser.headerWindow config (data ++ x) = parser.headerWindow config data ++ y ∧
      (parser.headerLimited config data = .headerLimit → y = []) := by
  unfold headerWindow headerLimited
  by_cases hl : config.headerLimit = 0
  · simp only [hl, reduceIte]
    exact ⟨x, rfl, fun h => by simp at h⟩
  · simp only [hl, reduceIte, ne_eq, not_false_eq_true, true_and]
    refine ⟨x.take (config.headerLimit - min config.headerLimit parser.header - data.length),
      List.take_append, fun h => ?_⟩
    split at h
    · rename_i hle
      rw [Nat.sub_eq_zero_of_le hle, List.take_zero]
    · cases h

theorem headerLimited_cases (parser : Parser isRequest) (data : Text) :
    parser.headerLimited config data = .headerLimit ∨
      parser.headerLimited config data = .needMore := by
  unfold headerLimited
  split
  · exact .inl rfl
  · exact .inr rfl

theorem headerLimited_append {parser : Parser isRequest} {data : Text}
    (h : parser.headerLimited config data = .headerLimit) (x : Text) :
    parser.headerLimited config (data ++ x) = .headerLimit := by
  unfold headerLimited at h ⊢
  split at h
  · rename_i hc
    rw [if_pos ⟨hc.1, by rw [List.length_append]; omega⟩]
  · cases h

theorem headerWindow_length_le (parser : Parser isRequest) (data : Text) :
    (parser.headerWindow config data).length ≤ data.length := by
  unfold headerWindow
  split
  · exact le_rfl
  · rw [List.length_take]
    omega

/-! ### Start line and field lines -/

theorem putStartLine_append {parser : Parser isRequest} {data : Text} (hd : data ≠ [])
    (h : (parser.putStartLine config data).code ≠ some .needMore) (x : Text) :
    parser.putStartLine config (data ++ x) = parser.putStartLine config data := by
  obtain ⟨y, hy, hlim⟩ := headerWindow_append config parser data x
  have hdx : data ++ x ≠ [] := by simp [hd]
  unfold putStartLine at h ⊢
  simp only [hd, hdx, reduceIte] at h ⊢
  cases hp : parseStartLine isRequest (parser.headerWindow config data) with
  | more =>
    simp only [hp] at h
    rcases headerLimited_cases config parser data with hl | hl
    · rw [hy, hlim hl, List.append_nil, hp]
      simp only [hl, headerLimited_append config hl x]
    · exact absurd (by rw [hl]) h
  | fail e =>
    rw [hy, (parseStartLine_prompt isRequest).fail_append hp y]
  | done value rest =>
    rw [hy, (parseStartLine_prompt isRequest).done_append hp y]
    have hused : (parser.headerWindow config data ++ y).length - (rest ++ y).length
        = (parser.headerWindow config data).length - rest.length := by
      simp only [List.length_append]
      omega
    simp only [hused]

theorem putField_append {retain : Bool} {parser : Parser isRequest} {data : Text}
    (h : parser.putField config retain data ≠ .error .needMore) (x : Text) :
    parser.putField config retain (data ++ x) = parser.putField config retain data := by
  obtain ⟨y, hy, hlim⟩ := headerWindow_append config parser data x
  unfold putField at h ⊢
  cases hp : parseField config.split parser.frame (parser.headerWindow config data) with
  | more =>
    simp only [hp] at h
    rcases headerLimited_cases config parser data with hl | hl
    · rw [hy, hlim hl, List.append_nil, hp]
      simp only [hl, headerLimited_append config hl x]
    · exact absurd (by rw [hl]) h
  | fail e =>
    rw [hy, (parseField_prompt config.split parser.frame).fail_append hp y]
  | done value rest =>
    rw [hy, (parseField_prompt config.split parser.frame).done_append hp y]
    have hused : (parser.headerWindow config data ++ y).length - (rest ++ y).length
        = (parser.headerWindow config data).length - rest.length := by
      simp only [List.length_append]
      omega
    simp only [hused]

theorem putStartLine_used {parser : Parser isRequest} {data : Text} (hd : data ≠ [])
    (h : (parser.putStartLine config data).code = none) :
    0 < (parser.putStartLine config data).used ∧
      (parser.putStartLine config data).used ≤ data.length ∧
      (parser.putStartLine config data).parser.state = .fields ∧
      (parser.putStartLine config data).parser.total = parser.total ∧
      (parser.putStartLine config data).parser.message.body = parser.message.body ∧
      (parser.putStartLine config data).parser.received = parser.received := by
  have hwin := headerWindow_length_le config parser data
  unfold putStartLine at h ⊢
  simp only [hd, reduceIte] at h ⊢
  cases hp : parseStartLine isRequest (parser.headerWindow config data) with
  | more => simp only [hp] at h; cases h
  | fail e => simp only [hp] at h; cases h
  | done value rest =>
    have hlt := (parseStartLine_consumes isRequest).shorter hp
    exact ⟨by simp only; omega, by simp only; omega, rfl, rfl, rfl, rfl⟩

theorem putField_used {retain : Bool} {parser next : Parser isRequest} {data : Text} {used : ℕ}
    {last : Bool} (h : parser.putField config retain data = .ok (next, used, last)) :
    0 < used ∧ used ≤ data.length := by
  have hwin := headerWindow_length_le config parser data
  unfold putField at h
  cases hp : parseField config.split parser.frame (parser.headerWindow config data) with
  | more => simp only [hp] at h; cases h
  | fail e => simp only [hp] at h; cases h
  | done value rest =>
    obtain ⟨line, frame⟩ := value
    have hlt := (parseField_consumes config.split parser.frame).shorter hp
    have hused : used = (parser.headerWindow config data).length - rest.length := by
      simp only [hp] at h
      split at h
      · cases h; rfl
      · split at h <;> cases h <;> rfl
    omega

/-- What a field line leaves as it was. -/
theorem putField_frame {retain : Bool} {parser next : Parser isRequest} {data : Text} {used : ℕ}
    {last : Bool} (h : parser.putField config retain data = .ok (next, used, last)) :
    next.state = parser.state ∧ next.remaining = parser.remaining ∧ next.total = parser.total ∧
      next.message.body = parser.message.body ∧ next.received = parser.received := by
  unfold putField at h
  split at h
  · cases h
  · cases h
  · simp only at h
    split at h
    · cases h; exact ⟨rfl, rfl, rfl, rfl, rfl⟩
    · split at h <;> cases h <;> exact ⟨rfl, rfl, rfl, rfl, rfl⟩

/-! ### Body -/

/-- The bytes of the body among those that arrived. -/
def bodySize (parser : Parser isRequest) (data : Text) : ℕ :=
  if parser.state = .bodyToEof then data.length else min data.length parser.remaining

/-- The parser once its reader holds more bytes. -/
def absorb (parser : Parser isRequest) (bytes : Text) : Parser isRequest :=
  { parser.withBody (parser.message.body ++ bytes) with
    total := parser.total + bytes.length
    remaining := if parser.state = .bodyToEof then parser.remaining
      else parser.remaining - bytes.length }

/-- A delimited body or chunk is complete when nothing of it remains. -/
def settle (parser : Parser isRequest) : Parser isRequest :=
  if parser.state ≠ .bodyToEof ∧ parser.remaining = 0 then parser.completeBody else parser

/-- The parser takes the bytes of a body. -/
def InBody (parser : Parser isRequest) : Prop :=
  parser.state = .body ∨ parser.state = .bodyToEof ∨ parser.state = .chunkBody

theorem InBody.step {parser : Parser isRequest} (h : parser.InBody) (data : Text) :
    step config parser data = parser.stepOf (parser.putBody config data) := by
  rcases h with h | h | h <;> simp only [Parser.step, h]

theorem completeBody_state (parser : Parser isRequest) :
    parser.completeBody.state = .chunkHeader ∨ parser.completeBody.state = .done := by
  unfold completeBody
  split
  · exact .inl rfl
  · exact .inr rfl

theorem absorb_append (parser : Parser isRequest) (a b : Text) :
    parser.absorb (a ++ b) = (parser.absorb a).absorb b := by
  have hs : (parser.absorb a).state = parser.state := rfl
  unfold absorb
  simp only [withBody, List.append_assoc, List.length_append, Nat.add_assoc]
  split
  · rfl
  · rw [Nat.sub_sub]

theorem absorb_state (parser : Parser isRequest) (bytes : Text) :
    (parser.absorb bytes).state = parser.state := rfl

theorem absorb_remaining {parser : Parser isRequest} (h : parser.state ≠ .bodyToEof)
    (bytes : Text) : (parser.absorb bytes).remaining = parser.remaining - bytes.length := by
  simp only [absorb, if_neg h]

theorem Inv.bodySize_pos {parser : Parser isRequest} (hi : parser.Inv) (h : parser.InBody)
    {data : Text} (hd : data ≠ []) : 0 < parser.bodySize data := by
  have hpos := List.length_pos_of_ne_nil hd
  unfold bodySize
  split
  · exact hpos
  · rename_i hne
    have hrem := hi.remaining_pos (by
      rcases h with h | h | h
      · exact .inl h
      · exact absurd h hne
      · exact .inr h)
    exact lt_min hpos hrem

/-- `put_body` in a body, which takes what arrived of it or fails. -/
theorem putBody_eq {parser : Parser isRequest} (hi : parser.Inv) (h : parser.InBody)
    (data : Text) : parser.putBody config data =
      if parser.state = .bodyToEof ∧ config.bodyLimit ≠ 0 ∧
          config.bodyLimit < parser.total + data.length then ⟨parser, 0, some .bodyLimit⟩
      else if data = [] then ⟨parser, 0, none⟩
      else if config.maxSize < parser.message.body.length + parser.bodySize data then
        ⟨parser, 0, some .bufferOverflow⟩
      else ⟨(parser.absorb (data.take (parser.bodySize data))).settle,
        parser.bodySize data, none⟩ := by
  by_cases hlim : parser.state = .bodyToEof ∧ config.bodyLimit ≠ 0 ∧
      config.bodyLimit < parser.total + data.length
  · simp only [putBody, hlim, ne_eq, not_true_eq_false, false_and, reduceIte, not_false_eq_true,
      and_self]
  rw [if_neg hlim]
  have hrem : parser.state ≠ .bodyToEof → 0 < parser.remaining := fun hne =>
    hi.remaining_pos (by
      rcases h with h | h | h
      · exact .inl h
      · exact absurd h hne
      · exact .inr h)
  have hzero : ¬(parser.state ≠ .bodyToEof ∧ parser.remaining = 0) := fun hc =>
    (hrem hc.1).ne' hc.2
  have hsize : (if parser.state ≠ .bodyToEof then min data.length parser.remaining
      else data.length) = parser.bodySize data := by
    unfold bodySize
    split <;> simp_all
  have hlim' : ¬(¬parser.state ≠ .bodyToEof ∧ config.bodyLimit ≠ 0 ∧
      config.bodyLimit < parser.total + parser.bodySize data) := fun hc => hlim (by
    have heof : parser.state = .bodyToEof := not_not.mp hc.1
    rw [bodySize, if_pos heof] at hc
    exact ⟨heof, hc.2⟩)
  simp only [putBody, if_neg hzero, hsize, if_neg hlim']
  by_cases hd : data = []
  · have hz : parser.bodySize data = 0 := by simp [bodySize, hd]
    rw [if_pos hz, if_pos hd]
  · have hpos := hi.bodySize_pos h hd
    have htake : (data.take (parser.bodySize data)).length = parser.bodySize data := by
      have hle : parser.bodySize data ≤ data.length := by
        unfold bodySize
        split <;> omega
      rw [List.length_take, min_eq_left hle]
    rw [if_neg hpos.ne', if_neg hd, readerPut, htake]
    by_cases hover : config.maxSize < parser.message.body.length + parser.bodySize data
    · rw [if_pos hover, if_pos (by omega)]
    · rw [if_neg hover, if_neg (by omega)]
      by_cases heof : parser.state = .bodyToEof
      · have hsettle : (parser.absorb (data.take (parser.bodySize data))).settle
            = parser.absorb (data.take (parser.bodySize data)) := if_neg fun hc => hc.1 heof
        rw [hsettle]
        simp only [absorb, heof, htake, withBody, ne_eq, not_true_eq_false, false_and, reduceIte]
      · simp only [settle, absorb, heof, htake, withBody, ne_eq, not_false_eq_true, true_and,
          reduceIte]
        split <;> rfl

/-- The step of a body, spelled out. -/
theorem step_body {parser : Parser isRequest} (hi : parser.Inv) (h : parser.InBody)
    (data : Text) : step config parser data =
      if parser.state = .bodyToEof ∧ config.bodyLimit ≠ 0 ∧
          config.bodyLimit < parser.total + data.length then .fail .bodyLimit
      else if data = [] then .wait
      else if config.maxSize < parser.message.body.length + parser.bodySize data then
        .fail .bufferOverflow
      else .next (parser.absorb (data.take (parser.bodySize data))).settle
        (parser.bodySize data) [] := by
  rw [h.step config data, putBody_eq config hi h]
  by_cases hlim : parser.state = .bodyToEof ∧ config.bodyLimit ≠ 0 ∧
      config.bodyLimit < parser.total + data.length
  · rw [if_pos hlim, if_pos hlim]
    rfl
  rw [if_neg hlim, if_neg hlim]
  by_cases hd : data = []
  · rw [if_pos hd, if_pos hd]
    simp only [stepOf, and_self, reduceIte]
  rw [if_neg hd, if_neg hd]
  by_cases hover : config.maxSize < parser.message.body.length + parser.bodySize data
  · rw [if_pos hover, if_pos hover]
    rfl
  · rw [if_neg hover, if_neg hover]
    simp only [stepOf, (hi.bodySize_pos h hd).ne', false_and, reduceIte]

/-- A body step fails at a limit, or takes what there is of the body. -/
theorem step_body_next {parser next : Parser isRequest} (hi : parser.Inv) (h : parser.InBody)
    {data : Text} {used : ℕ} {out : List Empty}
    (hs : step config parser data = .next next used out) :
    data ≠ [] ∧ used = parser.bodySize data ∧ out = [] ∧
      next = (parser.absorb (data.take (parser.bodySize data))).settle ∧
      ¬(parser.state = .bodyToEof ∧ config.bodyLimit ≠ 0 ∧
        config.bodyLimit < parser.total + data.length) := by
  rw [step_body config hi h] at hs
  split at hs
  · cases hs
  rename_i hlim
  split at hs
  · cases hs
  rename_i hd
  split at hs
  · cases hs
  cases hs
  exact ⟨hd, rfl, rfl, rfl, hlim⟩

theorem bodySize_le (parser : Parser isRequest) (data : Text) :
    parser.bodySize data ≤ data.length := by
  unfold bodySize
  split <;> omega

theorem bodySize_append (parser : Parser isRequest) (data x : Text) :
    parser.bodySize (data ++ x) = if parser.bodySize data = data.length
      then data.length + (parser.absorb data).bodySize x else parser.bodySize data := by
  unfold bodySize
  rw [absorb_state]
  by_cases heof : parser.state = .bodyToEof
  · simp only [if_pos heof, List.length_append, reduceIte]
  · simp only [if_neg heof, List.length_append, absorb_remaining heof]
    split <;> omega

theorem Inv.settle_absorb {parser : Parser isRequest} (hi : parser.Inv) (h : parser.InBody)
    (bytes : Text) : (parser.absorb bytes).settle.Inv := by
  have hbody : (parser.message.body ++ bytes).length = parser.total + bytes.length := by
    rw [List.length_append, hi.body_total]
  unfold settle
  split
  · unfold completeBody
    split
    · exact ⟨hi.received, by simp, hbody, by simp⟩
    · exact ⟨hi.received, by simp [finish], hbody, by simp [finish]⟩
  · rename_i hne
    refine ⟨hi.received, fun hs => ?_, hbody, fun hs => ?_⟩
    · have heof : (parser.absorb bytes).state ≠ .bodyToEof := by
        rcases hs with hs | hs <;> simp [hs]
      exact Nat.pos_of_ne_zero fun hz => hne ⟨heof, hz⟩
    · rw [absorb_state] at hs
      rcases h with h | h | h <;> rw [h] at hs <;> rcases hs with hs | hs <;> cases hs

/-- A body that goes on behind its bytes stays the body it is. -/
theorem settle_absorb_eq {parser : Parser isRequest} {bytes : Text}
    (h : parser.state = .bodyToEof ∨ bytes.length < parser.remaining) :
    (parser.absorb bytes).settle = parser.absorb bytes := by
  unfold settle
  refine if_neg fun hc => ?_
  rw [absorb_state] at hc
  rw [absorb_remaining hc.1] at hc
  rcases h with h | h
  · exact hc.1 h
  · omega

theorem step_body_append {parser next : Parser isRequest} (hi : parser.Inv) (h : parser.InBody)
    {data : Text} {used : ℕ} {out : List Empty}
    (hs : step config parser data = .next next used out) (x : Text) :
    step config parser (data ++ x) = .next next used out ∨
      (used = data.length ∧ out = [] ∧
        ((∃ s m out', step config next x = .next s m out' ∧
          step config parser (data ++ x) = .next s (used + m) out') ∨
        (∃ e, step config next x = .fail e ∧ step config parser (data ++ x) = .fail e))) := by
  by_cases hx : x = []
  · rw [hx, List.append_nil]
    exact .inl hs
  obtain ⟨hd, hused, hout, hnext, hlim⟩ := step_body_next config hi h hs
  have hover : ¬config.maxSize < parser.message.body.length + parser.bodySize data := fun hc => by
    rw [step_body config hi h, if_neg hlim, if_neg hd, if_pos hc] at hs
    cases hs
  have hne : data ++ x ≠ [] := by simp [hd]
  by_cases hpart : parser.state = .bodyToEof ∨ data.length < parser.remaining
  · -- the body goes on, and takes of the later bytes what it would take of both
    right
    have hsize : parser.bodySize data = data.length := by
      unfold bodySize
      split
      · rfl
      · rcases hpart with hpart | hpart
        · contradiction
        · omega
    rw [hsize, List.take_length, settle_absorb_eq hpart] at hnext
    have hinv : next.Inv := by
      rw [hnext, ← settle_absorb_eq hpart]
      exact hi.settle_absorb h data
    have hin : next.InBody := by rw [hnext]; exact h
    have hstate : next.state = parser.state := by rw [hnext, absorb_state]
    have htotal : next.total = parser.total + data.length := by rw [hnext]; rfl
    have hlen : next.message.body.length = parser.message.body.length + data.length := by
      rw [hnext]
      exact List.length_append
    have hboth : parser.bodySize (data ++ x) = data.length + next.bodySize x := by
      rw [bodySize_append, if_pos hsize, hnext]
    refine ⟨by rw [hused, hsize], hout, ?_⟩
    rw [step_body config hi h, step_body config hinv hin, hstate, htotal, hlen, hboth,
      List.length_append, ← Nat.add_assoc, ← Nat.add_assoc, if_neg hne, if_neg hx]
    by_cases hl : parser.state = .bodyToEof ∧ config.bodyLimit ≠ 0 ∧
        config.bodyLimit < parser.total + data.length + x.length
    · simp only [if_pos hl]
      exact .inr ⟨_, rfl, rfl⟩
    simp only [if_neg hl]
    by_cases ho : config.maxSize
        < parser.message.body.length + data.length + next.bodySize x
    · simp only [if_pos ho]
      exact .inr ⟨_, rfl, rfl⟩
    · simp only [if_neg ho]
      refine .inl ⟨_, _, _, rfl, ?_⟩
      rw [hused, hsize, List.take_length_add_append, absorb_append, ← hnext]
  · -- the body ends within the bytes
    left
    rw [not_or] at hpart
    have hsize : ∀ y, parser.bodySize (data ++ y) = parser.remaining := fun y => by
      rw [bodySize, if_neg hpart.1, List.length_append]
      omega
    have hsize' : parser.bodySize data = parser.remaining := by
      have := hsize []
      rwa [List.append_nil] at this
    rw [step_body config hi h, if_neg fun hc => hpart.1 hc.1, if_neg hne, hsize, ← hsize',
      if_neg hover, List.take_append_of_le_length (by omega), hused, hout, hnext]

theorem step_body_fail (hb : config.Bounded) {parser : Parser isRequest} (hi : parser.Inv)
    (h : parser.InBody) {data : Text} {e : HttpError}
    (hs : step config parser data = .fail e) (x : Text) :
    step config parser (data ++ x) = .fail e := by
  have htotal := hi.body_total
  have hb' : config.bodyLimit ≤ config.maxSize := hb
  rw [step_body config hi h] at hs ⊢
  split at hs
  · rename_i hlim
    rw [if_pos ⟨hlim.1, hlim.2.1, by rw [List.length_append]; omega⟩]
    exact hs
  rename_i hlim
  split at hs
  · cases hs
  rename_i hd
  split at hs
  · rename_i hover
    have hle : parser.bodySize data ≤ parser.bodySize (data ++ x) := by
      rw [bodySize_append]
      split <;> omega
    have hne : data ++ x ≠ [] := by simp [hd]
    rw [if_neg, if_neg hne, if_pos (by omega)]
    · exact hs
    -- the body limit is met before the size of the container
    · rintro ⟨heof, hl, -⟩
      rw [bodySize, if_pos heof] at hover
      exact hlim ⟨heof, hl, by omega⟩
  · cases hs

/-! ### Chunk lines -/

/-- The line end of the chunk before a chunk line. -/
def chunkPrefix (parser : Parser isRequest) : Text := if parser.expectCrlf then lineEnd else []

theorem parseChunkSize_error {line : Text} {e : HttpError} (h : parseChunkSize line = .error e) :
    e = .badChunk := by
  unfold parseChunkSize at h
  split at h
  · cases h; rfl
  · split at h
    · cases h; rfl
    · cases h

/-- What `put_chunk_header` makes of a complete line. -/
def chunkLine (parser : Parser isRequest) (line : Text) : Put isRequest :=
  match parseChunkSize line with
  | .error e => ⟨parser, 0, some e⟩
  | .ok (size, digits) =>
    if config.bodyLimit ≠ 0 ∧ config.bodyLimit - min config.bodyLimit parser.total < size then
      ⟨parser, 0, some .bodyLimit⟩
    else if ¬validChunkExtensions line digits then ⟨parser, 0, some .badChunkExtension⟩
    else
      ⟨{ parser with
          remaining := size
          expectCrlf := true
          state := if size = 0 then .trailer else .chunkBody
          header := if size = 0 then parser.header - lineEnd.length else parser.header },
        parser.chunkPrefix.length + line.length + lineEnd.length, none⟩

/-- What `put_chunk_header` has before it. -/
inductive ChunkData (parser : Parser isRequest) : Text → Prop where
  | short {data} (h : data.length < lineEnd.length) : ChunkData parser data
  | unended {data} (he : parser.expectCrlf = true) (hlen : lineEnd.length ≤ data.length)
      (h : ¬lineEnd <+: data) : ChunkData parser data
  | incomplete {body} (hlen : lineEnd.length ≤ (parser.chunkPrefix ++ body).length)
      (h : findChunkLine body = .more) : ChunkData parser (parser.chunkPrefix ++ body)
  | line {line} (b : UInt8) (rest : Text) (h : ∀ c ∈ line, c ≠ cr) :
      ChunkData parser (parser.chunkPrefix ++ (line ++ cr :: b :: rest))

theorem chunkData (parser : Parser isRequest) (data : Text) : parser.ChunkData data := by
  by_cases hlen : data.length < lineEnd.length
  · exact .short hlen
  by_cases hcrlf : parser.expectCrlf = true ∧ ¬lineEnd <+: data
  · exact .unended hcrlf.1 (Nat.le_of_not_lt hlen) hcrlf.2
  obtain ⟨body, rfl⟩ : ∃ body, data = parser.chunkPrefix ++ body := by
    unfold chunkPrefix
    split
    · rename_i he
      obtain ⟨body, hbody⟩ := not_not.mp fun hp => hcrlf ⟨he, hp⟩
      exact ⟨body, hbody.symm⟩
    · exact ⟨data, rfl⟩
  rcases findChunkLine_cases body with hmore | ⟨line, b, rest, rfl, hline⟩
  · exact .incomplete (Nat.le_of_not_lt hlen) hmore
  · exact .line b rest hline

theorem putChunkHeader_short (parser : Parser isRequest) {data : Text}
    (h : data.length < lineEnd.length) : parser.putChunkHeader config data = ⟨parser, 0, none⟩ :=
  if_pos h

theorem putChunkHeader_unended {parser : Parser isRequest} {data : Text}
    (he : parser.expectCrlf = true) (hlen : lineEnd.length ≤ data.length) (h : ¬lineEnd <+: data) :
    parser.putChunkHeader config data = ⟨parser, 0, some .badChunk⟩ := by
  unfold putChunkHeader
  rw [if_neg (Nat.not_lt.mpr hlen), if_pos ⟨he, h⟩]

theorem putChunkHeader_prefix (parser : Parser isRequest) {body : Text}
    (hlen : lineEnd.length ≤ (parser.chunkPrefix ++ body).length) :
    parser.putChunkHeader config (parser.chunkPrefix ++ body) = match findChunkLine body with
      | .more =>
        if config.headerLimit ≠ 0 ∧ config.headerLimit ≤ (parser.chunkPrefix ++ body).length then
          ⟨parser, 0, some .badChunkExtension⟩
        else ⟨parser, 0, none⟩
      | .fail e => ⟨parser, 0, some e⟩
      | .done line rest =>
        if (parser.chunkLine config line).code = none then
          { parser.chunkLine config line with
            used := (parser.chunkPrefix ++ body).length - rest.length }
        else parser.chunkLine config line := by
  have hprefix : ¬(parser.expectCrlf = true ∧ ¬lineEnd <+: parser.chunkPrefix ++ body) := fun hc =>
    hc.2 (by rw [chunkPrefix, if_pos hc.1]; exact List.prefix_append _ _)
  have hindex : (if parser.expectCrlf = true then lineEnd.length else 0)
      = parser.chunkPrefix.length := by
    unfold chunkPrefix
    split <;> rfl
  unfold putChunkHeader
  simp only [if_neg (Nat.not_lt.mpr hlen), if_neg hprefix, hindex, List.drop_left]
  cases findChunkLine body with
  | more => rfl
  | fail e => rfl
  | done line rest =>
    unfold chunkLine
    cases hz : parseChunkSize line with
    | error e => simp only [hz, reduceCtorEq, reduceIte]
    | ok value =>
      obtain ⟨size, digits⟩ := value
      simp only [hz]
      by_cases hlimit : config.bodyLimit ≠ 0 ∧
          config.bodyLimit - min config.bodyLimit parser.total < size
      · simp only [if_pos hlimit, reduceCtorEq, reduceIte]
      simp only [if_neg hlimit]
      by_cases hvalid : ¬validChunkExtensions line digits = true
      · simp only [if_pos hvalid, reduceCtorEq, reduceIte]
      · simp only [if_neg hvalid, reduceIte]

theorem putChunkHeader_incomplete (parser : Parser isRequest) {body : Text}
    (hlen : lineEnd.length ≤ (parser.chunkPrefix ++ body).length)
    (h : findChunkLine body = .more) :
    parser.putChunkHeader config (parser.chunkPrefix ++ body) =
      if config.headerLimit ≠ 0 ∧ config.headerLimit ≤ (parser.chunkPrefix ++ body).length then
        ⟨parser, 0, some .badChunkExtension⟩
      else ⟨parser, 0, none⟩ := by
  rw [ putChunkHeader_prefix config parser hlen, h]

/-- A complete line whose size the body limit does not admit, or with bad extensions. -/
def Unfit (parser : Parser isRequest) (line : Text) : Prop :=
  ∃ size digits, parseChunkSize line = .ok (size, digits) ∧
    (config.bodyLimit ≠ 0 ∧ config.bodyLimit - min config.bodyLimit parser.total < size ∨
      ¬validChunkExtensions line digits = true)

/-- A chunk line is malformed, unfit or taken. -/
theorem chunkLine_cases (parser : Parser isRequest) (line : Text) :
    (∃ e, (e = .badChunk ∧ ¬parser.Unfit config line ∨
        (e = .bodyLimit ∨ e = .badChunkExtension) ∧ parser.Unfit config line) ∧
      parser.chunkLine config line = ⟨parser, 0, some e⟩) ∨
    ∃ size, ¬parser.Unfit config line ∧ line ≠ [] ∧
      ¬(config.bodyLimit ≠ 0 ∧ config.bodyLimit - min config.bodyLimit parser.total < size) ∧
      parser.chunkLine config line = ⟨{ parser with
          remaining := size
          expectCrlf := true
          state := if size = 0 then .trailer else .chunkBody
          header := if size = 0 then parser.header - lineEnd.length else parser.header },
        parser.chunkPrefix.length + line.length + lineEnd.length, none⟩ := by
  unfold chunkLine
  cases hz : parseChunkSize line with
  | error e =>
    refine .inl ⟨e, .inl ⟨parseChunkSize_error hz, fun ⟨size, digits, hok, _⟩ => ?_⟩, rfl⟩
    rw [hz] at hok
    cases hok
  | ok value =>
    obtain ⟨size, digits⟩ := value
    simp only
    by_cases hlimit : config.bodyLimit ≠ 0 ∧
        config.bodyLimit - min config.bodyLimit parser.total < size
    · exact .inl ⟨.bodyLimit, .inr ⟨.inl rfl, size, digits, hz, .inl hlimit⟩, if_pos hlimit⟩
    rw [if_neg hlimit]
    by_cases hvalid : ¬validChunkExtensions line digits = true
    · exact .inl ⟨.badChunkExtension, .inr ⟨.inr rfl, size, digits, hz, .inr hvalid⟩,
        if_pos hvalid⟩
    · refine .inr ⟨size, fun ⟨size', digits', hok, hunfit⟩ => ?_, fun hc => ?_, hlimit,
        if_neg hvalid⟩
      · rw [hz] at hok
        cases hok
        exact hunfit.elim hlimit hvalid
      · rw [hc] at hz
        cases hz

theorem putChunkHeader_line (parser : Parser isRequest) {line : Text} (h : ∀ c ∈ line, c ≠ cr)
    (b : UInt8) (rest : Text) :
    parser.putChunkHeader config (parser.chunkPrefix ++ (line ++ cr :: b :: rest)) =
      if b = lf then parser.chunkLine config line else ⟨parser, 0, some .badLineEnding⟩ := by
  rw [ putChunkHeader_prefix config parser (by
    simp only [List.length_append, List.length_cons, lineEnd, List.length_nil]
    omega), findChunkLine_append h]
  by_cases hb : b = lf
  · simp only [if_pos hb]
    rcases chunkLine_cases config parser line with ⟨e, -, heq⟩ | ⟨size, -, -, -, heq⟩
    · simp only [heq, reduceCtorEq, reduceIte]
    · have hsize : (parser.chunkPrefix ++ (line ++ cr :: b :: rest)).length - rest.length
          = parser.chunkPrefix.length + line.length + lineEnd.length := by
        simp only [List.length_append, List.length_cons, lineEnd, List.length_nil]
        omega
      simp only [heq, reduceIte, hsize]
  · simp only [if_neg hb]

/-- A chunk line is taken whole, or nothing is. -/
theorem putChunkHeader_cases (parser : Parser isRequest) (data : Text) :
    (∃ code, parser.putChunkHeader config data = ⟨parser, 0, code⟩) ∨
      ∃ line rest, data = parser.chunkPrefix ++ (line ++ cr :: lf :: rest) ∧
        (∀ c ∈ line, c ≠ cr) ∧
        parser.putChunkHeader config data = parser.chunkLine config line ∧
        (parser.chunkLine config line).code = none := by
  cases parser.chunkData data with
  | short h => exact .inl ⟨_, putChunkHeader_short config parser h⟩
  | unended he hlen h => exact .inl ⟨_, putChunkHeader_unended config he hlen h⟩
  | incomplete hlen h =>
    rw [putChunkHeader_incomplete config parser hlen h]
    split <;> exact .inl ⟨_, rfl⟩
  | @line line b rest h =>
    rw [putChunkHeader_line config parser h]
    by_cases hb : b = lf
    · subst hb
      rw [if_pos rfl]
      rcases chunkLine_cases config parser line with ⟨e, -, heq⟩ | ⟨size, -, -, -, heq⟩
      · exact .inl ⟨_, heq⟩
      · exact .inr ⟨line, rest, rfl, h, rfl, by rw [heq]⟩
    · exact .inl ⟨_, if_neg hb⟩

/-- Without the header limit a chunk line is decided once it is complete. -/
theorem putChunkHeader_append {parser : Parser isRequest} {data : Text}
    (h : parser.putChunkHeader config.lenient data ≠ ⟨parser, 0, none⟩) (x : Text) :
    parser.putChunkHeader config.lenient (data ++ x)
      = parser.putChunkHeader config.lenient data := by
  cases parser.chunkData data with
  | short hs => exact absurd (putChunkHeader_short _ parser hs) h
  | unended he hlen hp =>
    have hlen' : lineEnd.length ≤ (data ++ x).length := by
      rw [List.length_append]
      omega
    have hp' : ¬lineEnd <+: data ++ x := fun hc =>
      hp (List.prefix_of_prefix_length_le hc (List.prefix_append _ _) hlen)
    rw [putChunkHeader_unended _ he hlen hp, putChunkHeader_unended _ he hlen' hp']
  | incomplete hlen hmore =>
    refine absurd ?_ h
    rw [putChunkHeader_incomplete _ parser hlen hmore]
    exact if_neg fun hc => hc.1 rfl
  | line b rest hl =>
    simp only [List.append_assoc, List.cons_append]
    rw [putChunkHeader_line _ parser hl, putChunkHeader_line _ parser hl]

/-- The machine waits at a chunk header for want of a complete line. -/
theorem chunkHeader_wait {parser : Parser isRequest} {data : Text}
    (hs : parser.state = .chunkHeader) (hlen : lineEnd.length ≤ data.length)
    (h : step config parser data = .wait) :
    ∃ body, data = parser.chunkPrefix ++ body ∧ findChunkLine body = .more := by
  simp only [step, hs] at h
  cases parser.chunkData data with
  | short hs => exact absurd hlen (Nat.not_le.mpr hs)
  | unended he hlen hp =>
    rw [putChunkHeader_unended _ he hlen hp] at h
    cases h
  | incomplete hlen hmore => exact ⟨_, rfl, hmore⟩
  | @line line b rest hl =>
    rw [putChunkHeader_line _ parser hl] at h
    by_cases hb : b = lf
    · rw [if_pos hb] at h
      rcases chunkLine_cases config.lenient parser line with ⟨e, he, heq⟩ | ⟨size, -, -, -, heq⟩
      · rw [heq] at h
        rcases he with ⟨rfl, -⟩ | ⟨rfl | rfl, -⟩ <;> cases h
      · have hpos : parser.chunkPrefix.length + line.length + lineEnd.length ≠ 0 := by
          simp [lineEnd]
        simp only [heq, stepOf, hpos, false_and, reduceIte] at h
        cases h
    · rw [if_neg hb] at h
      cases h

/-! ### The machine is resumable -/

theorem enterBody_eq {parser next : Parser isRequest} {state : ParserState} {length : Option ℕ}
    (h : parser.enterBody config state length = (next, none)) :
    next = { parser with state := state }.withBody [] := by
  unfold enterBody at h
  cases hr : readerInit config.maxSize length with
  | error e => simp only [hr] at h; cases h
  | ok body =>
    have hnil : body = [] := by
      unfold readerInit at hr
      repeat' split at hr
      all_goals cases hr
      all_goals rfl
    simp only [hr, Prod.mk.injEq, and_true] at h
    rw [← h, hnil]

/-- What `finish_header` can leave. -/
theorem finishHeader_cases {parser next : Parser isRequest}
    (h : parser.finishHeader config = (next, none)) :
    (∃ remaining, next = { parser with remaining := remaining, state := .done }) ∨
    (∃ length, 0 < length ∧ parser.frame.length = some length ∧
      (config.bodyLimit ≠ 0 → length ≤ config.bodyLimit) ∧
      next = { parser with remaining := length, state := .body }.withBody []) ∨
    (parser.frame.length = none ∧ parser.frame.chunked = true ∧
      next = { parser with state := .chunkHeader }.withBody []) ∨
    (parser.frame.length = none ∧ isRequest = false ∧
      next = { parser with state := .bodyToEof }.withBody []) := by
  unfold finishHeader at h
  split at h
  · cases h
    exact .inl ⟨parser.remaining, rfl⟩
  split at h
  · rename_i length hlength
    simp only at h
    split at h
    · cases h
      exact .inl ⟨length, rfl⟩
    rename_i hzero
    split at h
    · cases h
    rename_i hlimit
    exact .inr (.inl ⟨length, Nat.pos_of_ne_zero hzero, hlength, by omega, enterBody_eq config h⟩)
  rename_i hlength
  split at h
  · rename_i hchunked
    exact .inr (.inr (.inl ⟨hlength, hchunked, enterBody_eq config h⟩))
  split at h
  · split at h
    · cases h
    rename_i hdir
    exact .inr (.inr (.inr ⟨hlength, by simpa using hdir, enterBody_eq config h⟩))
  split at h
  · cases h
    exact .inl ⟨parser.remaining, rfl⟩
  · rename_i hdir
    exact .inr (.inr (.inr ⟨hlength, by simpa using hdir, enterBody_eq config h⟩))

theorem finishHeader_inv {parser next : Parser isRequest} (hi : parser.Inv)
    (hs : parser.state = .fields) (h : parser.finishHeader config = (next, none)) :
    next.Inv ∧ next.state ≠ .fields := by
  have htotal : 0 = parser.total := (hi.header_total (.inr hs)).symm
  obtain ⟨_, rfl⟩ | ⟨length, hpos, _, _, rfl⟩ | ⟨_, _, rfl⟩ | ⟨_, _, rfl⟩ :=
    finishHeader_cases config h
  · exact ⟨⟨hi.received, by simp, hi.body_total, by simp⟩, by simp⟩
  · exact ⟨⟨hi.received, fun _ => hpos, htotal, by simp [withBody]⟩, by simp [withBody]⟩
  · exact ⟨⟨hi.received, by simp [withBody], htotal, by simp [withBody]⟩, by simp [withBody]⟩
  · exact ⟨⟨hi.received, by simp [withBody], htotal, by simp [withBody]⟩, by simp [withBody]⟩

theorem fieldStep_append {retain : Bool}
    {last : Parser isRequest → Parser isRequest × Option HttpError} {parser : Parser isRequest}
    {data : Text} (h : fieldStep config retain last parser data ≠ .wait) (x : Text) :
    fieldStep config retain last parser (data ++ x)
      = fieldStep config retain last parser data := by
  unfold fieldStep at h ⊢
  rw [putField_append config (fun hc => h (by simp only [hc])) x]

/-- Outside a body a step is not changed by later bytes. -/
theorem step_append {parser : Parser isRequest} {data : Text} (hb : ¬parser.InBody)
    (h : step config parser data ≠ .wait) (x : Text) :
    step config parser (data ++ x) = step config parser data := by
  unfold step at h ⊢
  cases hs : parser.state with
  | startLine =>
    simp only [hs] at h ⊢
    have hd : data ≠ [] := fun hc => h (by simp [hc, putStartLine, stepOf])
    have hcode : (parser.putStartLine config data).code ≠ some .needMore := fun hc =>
      h (by simp only [stepOf, hc])
    rw [putStartLine_append config hd hcode x]
  | fields =>
    simp only [hs] at h ⊢
    exact fieldStep_append config h x
  | body => exact absurd (.inl hs) hb
  | bodyToEof => exact absurd (.inr (.inl hs)) hb
  | chunkHeader =>
    simp only [hs] at h ⊢
    have hmoved : parser.putChunkHeader config.lenient data ≠ ⟨parser, 0, none⟩ := fun hc =>
      h (by simp only [hc, stepOf, and_self, reduceIte])
    rw [putChunkHeader_append config hmoved x]
  | chunkBody => exact absurd (.inr (.inr hs)) hb
  | trailer =>
    simp only [hs] at h ⊢
    exact fieldStep_append config h x
  | done => rfl

theorem stepOf_next {parser next : Parser isRequest} {put : Put isRequest} {used : ℕ}
    {out : List Empty} (h : parser.stepOf put = .next next used out) :
    put.code = none ∧ put.parser = next ∧ put.used = used ∧ out = [] ∧
      ¬(put.used = 0 ∧ put.parser.state = parser.state) := by
  unfold stepOf at h
  split at h
  · cases h
  · cases h
  · rename_i hcode
    split at h
    · cases h
    · cases h
      exact ⟨hcode, rfl, rfl, rfl, ‹_›⟩

theorem fieldStep_next {retain : Bool}
    {last : Parser isRequest → Parser isRequest × Option HttpError}
    {parser next : Parser isRequest} {data : Text} {used : ℕ} {out : List Empty}
    (h : fieldStep config retain last parser data = .next next used out) :
    parser.putField config retain data = .ok (next, used, false) ∨
      ∃ mid, parser.putField config retain data = .ok (mid, used, true) ∧
        last mid = (next, none) := by
  unfold fieldStep at h
  split at h
  · cases h
  · cases h
  · rename_i hput
    cases h
    exact .inl hput
  · rename_i hput
    split at h
    · rename_i hlast
      cases h
      exact .inr ⟨_, hput, hlast⟩
    · cases h

theorem putField_inv {retain : Bool} {parser next : Parser isRequest} {data : Text} {used : ℕ}
    {last : Bool} (hi : parser.Inv)
    (h : parser.putField config retain data = .ok (next, used, last)) : next.Inv := by
  obtain ⟨hstate, hrem, htotal, hbody, hrec⟩ := putField_frame config h
  exact ⟨by rw [hrec]; exact hi.received,
    by rw [hstate, hrem]; exact hi.remaining_pos, by rw [hbody, htotal]; exact hi.body_total,
    by rw [hstate, htotal]; exact hi.header_total⟩

theorem step_next {parser next : Parser isRequest} (hi : parser.Inv) {data : Text} {used : ℕ}
    {out : List Empty} (h : step config parser data = .next next used out) :
    0 < used ∧ used ≤ data.length ∧ next.Inv := by
  by_cases hin : parser.InBody
  · obtain ⟨hd, rfl, -, rfl, -⟩ := step_body_next config hi hin h
    exact ⟨hi.bodySize_pos hin hd, parser.bodySize_le data, hi.settle_absorb hin _⟩
  unfold step at h
  cases hs : parser.state with
  | startLine =>
    simp only [hs] at h
    obtain ⟨hcode, rfl, rfl, -, hmoved⟩ := stepOf_next h
    have hd : data ≠ [] := fun hc => hmoved (by simp [hc, putStartLine])
    obtain ⟨hpos, hle, hstate, htotal, hbody, hrec⟩ := putStartLine_used config hd hcode
    refine ⟨hpos, hle, ⟨by rw [hrec]; exact hi.received, fun hc => ?_, by rw [hbody, htotal]; exact hi.body_total,
      fun _ => by rw [htotal]; exact hi.header_total (.inl hs)⟩⟩
    rw [hstate] at hc
    rcases hc with hc | hc <;> cases hc
  | fields =>
    simp only [hs] at h
    rcases fieldStep_next config h with hput | ⟨mid, hput, hlast⟩
    · exact ⟨(putField_used config hput).1, (putField_used config hput).2,
        putField_inv config hi hput⟩
    · have hmid := (putField_frame config hput).1.trans hs
      exact ⟨(putField_used config hput).1, (putField_used config hput).2,
        (finishHeader_inv config (putField_inv config hi hput) hmid hlast).1⟩
  | body => exact absurd (.inl hs) hin
  | bodyToEof => exact absurd (.inr (.inl hs)) hin
  | chunkHeader =>
    simp only [hs] at h
    obtain ⟨hcode, rfl, rfl, -, hmoved⟩ := stepOf_next h
    rcases putChunkHeader_cases config.lenient parser data with
      ⟨code, heq⟩ | ⟨line, rest, hdata, -, heq, hnone⟩
    · exact absurd (by rw [heq]; exact ⟨rfl, rfl⟩) hmoved
    rcases chunkLine_cases config.lenient parser line with ⟨e, -, hline⟩ | ⟨size, -, -, -, hline⟩
    · rw [hline] at hnone
      cases hnone
    · rw [heq, hline]
      refine ⟨by simp [lineEnd], ?_, ?_⟩
      · rw [hdata]
        simp only [List.length_append, List.length_cons, lineEnd, List.length_nil]
        omega
      refine ⟨hi.received, fun hc => ?_, hi.body_total, fun hc => ?_⟩
      · simp only at hc ⊢
        split at hc
        · rcases hc with hc | hc <;> cases hc
        · exact Nat.pos_of_ne_zero ‹_›
      · simp only at hc
        split at hc <;> rcases hc with hc | hc <;> cases hc
  | chunkBody => exact absurd (.inr (.inr hs)) hin
  | trailer =>
    simp only [hs] at h
    rcases fieldStep_next config h with hput | ⟨mid, hput, hlast⟩
    · exact ⟨(putField_used config hput).1, (putField_used config hput).2,
        putField_inv config hi hput⟩
    · have hmid := putField_inv config hi hput
      cases hlast
      exact ⟨(putField_used config hput).1, (putField_used config hput).2,
        ⟨hmid.received, by simp [finish], hmid.body_total, by simp [finish]⟩⟩
  | done => simp only [hs] at h; cases h

/-- How the stream is cut does not show in the runs of the machine. -/
theorem step_resumable (hb : config.Bounded) :
    Resumable (@Inv isRequest) (step config) where
  progress hi h := ⟨(step_next config hi h).1, (step_next config hi h).2.1⟩
  preserve hi h := (step_next config hi h).2.2
  done_append {parser data} hi h x := by
    by_cases hin : parser.InBody
    · rw [step_body config hi hin] at h
      repeat' split at h
      all_goals cases h
    · rw [step_append config hin (by rw [h]; exact nofun) x, h]
  fail_append {parser data e} hi h x := by
    by_cases hin : parser.InBody
    · exact step_body_fail config hb hi hin h x
    · rw [step_append config hin (by rw [h]; exact nofun) x, h]
  next_append {parser data next used out} hi h x := by
    by_cases hin : parser.InBody
    · exact step_body_append config hi hin h x
    · exact .inl (by rw [step_append config hin (by rw [h]; exact nofun) x, h])

end Parser
end BitcoinNetwork.Http
