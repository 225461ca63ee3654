import BitcoinNetwork.Http.ParserMachine

/-!
# Reading is a run of the machine (impl/messages/http/operations.ipp:32-105)

`put` reports where a run of the machine over the presented bytes stands, or
refuses a chunk line that is not yet complete, which only the header limit does.
Reading the pieces of a stream is then a run over the whole stream up to such a
refusal, so that without limits a message does not depend on how its bytes arrive.
-/

namespace BitcoinNetwork.Http
open Incremental

variable {isRequest : Bool} (config : ParserConfig)

namespace Parser

/-- An incomplete chunk line that has come to the header limit, the line end
before it included. -/
def Refused (parser : Parser isRequest) (rest : Text) : Prop :=
  config.headerLimit ≠ 0 ∧ parser.state = .chunkHeader ∧
    max lineEnd.length config.headerLimit ≤ rest.length

/-- What `put` and its loops report of the machine. -/
inductive Reports (parser : Parser isRequest) (data : Text) : Put isRequest → Prop where
  | go {next used} (inv : next.Inv) (moved : next.state = .done ∨ 0 < used)
      (le : used ≤ data.length) (reaches : Reaches (step config) parser data [] next (data.drop used)) :
      Reports parser data ⟨next, used, none⟩
  | wait {next used} (runs : Runs (step config) parser data [] (.waiting next (data.drop used)))
      (kept : ¬next.Refused config (data.drop used)) :
      Reports parser data ⟨next, used, some .needMore⟩
  | fail {next used e} (he : e ≠ .needMore) (state : next.state ≠ .done)
      (runs : Runs (step config) parser data [] (.failed e)) :
      Reports parser data ⟨next, used, some e⟩
  | refuse {next used q rest} (state : next.state ≠ .done)
      (runs : Runs (step config) parser data [] (.waiting q rest)) (refused : q.Refused config rest) :
      Reports parser data ⟨next, used, some .badChunkExtension⟩

theorem Reports.after {parser mid : Parser isRequest} {data : Text} {used : ℕ}
    {put : Put isRequest} (hle : used ≤ data.length) (hpos : 0 < used)
    (h : Reaches (step config) parser data [] mid (data.drop used))
    (hput : mid.Reports config (data.drop used) put) :
    parser.Reports config data { put with used := used + put.used } := by
  cases hput with
  | go inv _ le reaches =>
    rw [List.length_drop] at le
    rw [List.drop_drop] at reaches
    exact .go inv (.inr (Nat.add_pos_left hpos _)) (by simp only; omega) (h.trans reaches)
  | wait runs kept =>
    rw [List.drop_drop] at runs kept
    exact .wait (h.runs runs) kept
  | fail he state runs => exact .fail he state (h.runs runs)
  | refuse state runs refused => exact .refuse state (h.runs runs) refused

theorem reaches_next {parser next : Parser isRequest} {data : Text} {used : ℕ} {out : List Empty}
    (h : step config parser data = .next next used out) :
    Reaches (step config) parser data [] next (data.drop used) := by
  have ho : out = [] := List.eq_nil_of_subset_nil fun b => b.elim
  exact ho ▸ .single h

/-! ### The loops of put -/

/-- What follows the last field line neither asks for more nor fails when done. -/
structure Last (state : ParserState) (retain : Bool)
    (last : Parser isRequest → Parser isRequest × Option HttpError) : Prop where
  step_eq : ∀ {parser : Parser isRequest}, parser.state = state →
    ∀ data, step config parser data = fieldStep config retain last parser data
  fails : ∀ {parser next : Parser isRequest} {e}, parser.state = state →
    last parser = (next, some e) → e ≠ .needMore ∧ next.state ≠ .done

theorem enterBody_fails {parser next : Parser isRequest} {state : ParserState}
    {length : Option ℕ} {e : HttpError}
    (h : parser.enterBody config state length = (next, some e)) :
    e = .bufferOverflow ∧ next.state = state := by
  unfold enterBody at h
  cases hr : readerInit config.maxSize length with
  | ok body => simp only [hr] at h; cases h
  | error e' =>
    have he : e' = .bufferOverflow := by
      unfold readerInit at hr
      repeat' split at hr
      all_goals cases hr
      all_goals rfl
    simp only [hr] at h
    cases h
    exact ⟨he, rfl⟩

theorem finishHeader_fails {parser next : Parser isRequest} {e : HttpError}
    (hs : parser.state = .fields) (h : parser.finishHeader config = (next, some e)) :
    (e = .bodyLimit ∨ e = .badTransferEncoding ∨ e = .bufferOverflow) ∧ next.state ≠ .done := by
  have hstay : parser.state ≠ .done := by rw [hs]; exact nofun
  have henter : ∀ {p : Parser isRequest} {state length},
      p.enterBody config state length = (next, some e) → state ≠ .done →
      (e = .bodyLimit ∨ e = .badTransferEncoding ∨ e = .bufferOverflow) ∧ next.state ≠ .done :=
    fun hp hne => ⟨.inr (.inr (enterBody_fails config hp).1),
      by rw [(enterBody_fails config hp).2]; exact hne⟩
  unfold finishHeader at h
  split at h
  · cases h
  split at h
  · simp only at h
    split at h
    · cases h
    split at h
    · cases h
      exact ⟨.inl rfl, hstay⟩
    · exact henter h nofun
  split at h
  · exact henter h nofun
  split at h
  · split at h
    · cases h
      exact ⟨.inr (.inl rfl), hstay⟩
    · exact henter h nofun
  split at h
  · cases h
  · exact henter h nofun

theorem finishHeader_last : @Last isRequest config .fields true (finishHeader config) where
  step_eq hs data := by simp only [step, hs]
  fails hs h := by
    obtain ⟨he, hstate⟩ := finishHeader_fails config hs h
    refine ⟨?_, hstate⟩
    rcases he with rfl | rfl | rfl <;> (intro hc; cases hc)

theorem finishTrailer_last : @Last isRequest config .trailer false finishTrailer where
  step_eq hs data := by simp only [step, hs]
  fails _ h := by cases h

theorem putFieldLines_reports {state : ParserState} {retain : Bool}
    {last : Parser isRequest → Parser isRequest × Option HttpError}
    (hlast : Last config state retain last) (hdone : state ≠ .done)
    (hchunk : state ≠ .chunkHeader) {turns : ℕ}
    {parser : Parser isRequest} {data : Text} (hturns : data.length < turns) (hi : parser.Inv)
    (hs : parser.state = state) :
    parser.Reports config data (putFieldLines config retain last turns parser data) ∧
      ((putFieldLines config retain last turns parser data).code = none →
        0 < (putFieldLines config retain last turns parser data).used) := by
  induction turns generalizing parser data with
  | zero => omega
  | succ turns ih =>
    have hstep := hlast.step_eq hs data
    unfold putFieldLines
    cases hput : parser.putField config retain data with
    | error e => 
      by_cases he : e = .needMore
      · subst he
        simp only [fieldStep, hput] at hstep
        exact ⟨.wait (.wait hstep) fun hc => hchunk (hs.symm.trans hc.2.1), nofun⟩
      · have hfail : step config parser data = .fail e := by
          rw [hstep, fieldStep, hput]
          cases e <;> first | rfl | exact absurd rfl he
        exact ⟨.fail he (by rw [hs]; exact hdone) (.fail hfail), nofun⟩
    | ok value =>
      obtain ⟨next, used, ended⟩ := value
      obtain ⟨hpos, hle⟩ := putField_used config hput
      have hstate := (putField_frame config hput).1.trans hs
      cases ended with
      | true =>
        cases hl : last next with
        | mk final code =>
          cases code with
          | none =>
            have hnext : step config parser data = .next final used [] := by
              rw [hstep]; simp only [fieldStep, hput, hl]
            simp only [hl]
            exact ⟨.go (step_next config hi hnext).2.2 (.inr hpos) hle (reaches_next config hnext),
              fun _ => hpos⟩
          | some e =>
            obtain ⟨he, hfinal⟩ := hlast.fails hstate hl
            have hfail : step config parser data = .fail e := by
              rw [hstep]; simp only [fieldStep, hput, hl]
            simp only [hl]
            exact ⟨.fail he hfinal (.fail hfail), nofun⟩
      | false =>
        have hnext : step config parser data = .next next used [] := by
          rw [hstep]; simp only [fieldStep, hput]
        obtain ⟨hreports, -⟩ := @ih next (data.drop used)
          (by rw [List.length_drop]; omega) (step_next config hi hnext).2.2 hstate
        exact ⟨.after config hle hpos (reaches_next config hnext) hreports,
          fun _ => Nat.add_pos_left hpos _⟩

/-- A parse function that leaves the parser as it was unless it consumes. -/
def Consumed (parser : Parser isRequest) (put : Put isRequest) : Prop :=
  put = ⟨parser, 0, put.code⟩ ∨ put.code = none ∧ 0 < put.used

/-- A turn that consumed nothing waits for more bytes. -/
theorem stepOf_reports {parser : Parser isRequest} {data : Text} {put : Put isRequest}
    (hi : parser.Inv) (hstep : step config parser data = parser.stepOf put)
    (hs : parser.state ≠ .done)
    (hkept : step config parser data = .wait → ¬parser.Refused config data)
    (hput : parser.Consumed put) :
    put = ⟨parser, 0, none⟩ ∧ step config parser data = .wait ∧ ¬parser.Refused config data ∨
      parser.Reports config data put ∧ (put.code = none → 0 < put.used) := by
  rcases hput with hput | ⟨hcode, hpos⟩
  · cases hcode : put.code with
    | none =>
      rw [hcode] at hput
      rw [hput] at hstep ⊢
      have hwait : step config parser data = .wait := by
        rw [hstep]
        simp only [stepOf, and_self, reduceIte]
      exact .inl ⟨rfl, hwait, hkept hwait⟩
    | some e =>
      rw [hcode] at hput
      rw [hput] at hstep ⊢
      refine .inr ⟨?_, fun hc => by cases hc⟩
      by_cases he : e = .needMore
      · subst he
        exact .wait (.wait hstep) (hkept hstep)
      · have hfail : step config parser data = .fail e := by
          rw [hstep]
          cases e <;> first | rfl | exact absurd rfl he
        exact .fail he hs (.fail hfail)
  · obtain ⟨next, used, code⟩ := put
    simp only at hcode hpos
    subst hcode
    have hnext : step config parser data = .next next used [] := by
      rw [hstep, stepOf]
      exact if_neg fun hc => hpos.ne' hc.1
    obtain ⟨-, hle, hinv⟩ := step_next config hi hnext
    exact .inr ⟨.go hinv (.inr hpos) hle (reaches_next config hnext), fun _ => hpos⟩

theorem putStartLine_consumed (parser : Parser isRequest) (data : Text) :
    parser.Consumed (parser.putStartLine config data) := by
  by_cases hd : data = []
  · exact .inl (by simp only [putStartLine, hd, reduceIte])
  by_cases hcode : (parser.putStartLine config data).code = none
  · exact .inr ⟨hcode, (putStartLine_used config hd hcode).1⟩
  · left
    unfold putStartLine at hcode ⊢
    simp only [hd, reduceIte] at hcode ⊢
    split <;> simp_all

theorem putBody_consumed {parser : Parser isRequest} (hi : parser.Inv) (h : parser.InBody)
    (data : Text) : parser.Consumed (parser.putBody config data) := by
  rw [putBody_eq config hi h]
  split
  · exact .inl rfl
  split
  · exact .inl rfl
  rename_i hd
  split
  · exact .inl rfl
  · exact .inr ⟨rfl, hi.bodySize_pos h hd⟩

theorem putChunkHeader_consumed (parser : Parser isRequest) (data : Text) :
    parser.Consumed (parser.putChunkHeader config data) := by
  rcases putChunkHeader_cases config parser data with ⟨code, heq⟩ | ⟨line, _, -, -, heq, hnone⟩
  · exact .inl (by rw [heq])
  rw [heq]
  rcases chunkLine_cases config parser line with ⟨e, -, hline⟩ | ⟨size, -, -, -, hline⟩
  · exact .inl (by rw [hline])
  · exact .inr ⟨hnone, by rw [hline]; simp [lineEnd]⟩

/-- The header limit shows only in that an incomplete chunk line is refused. -/
theorem putChunkHeader_refused {parser : Parser isRequest} {data : Text}
    (hs : parser.state = .chunkHeader) (hwait : step config parser data = .wait)
    (hrefused : parser.Refused config data) :
    parser.putChunkHeader config data = ⟨parser, 0, some .badChunkExtension⟩ := by
  obtain ⟨hlimit, -, hle⟩ := hrefused
  obtain ⟨body, rfl, hmore⟩ := chunkHeader_wait config hs (by omega) hwait
  rw [putChunkHeader_incomplete config parser (by omega) hmore]
  exact if_pos ⟨hlimit, by omega⟩

theorem putChunkHeader_lenient {parser : Parser isRequest} {data : Text}
    (h : ¬(config.headerLimit ≠ 0 ∧ max lineEnd.length config.headerLimit ≤ data.length) ∨
      parser.putChunkHeader config.lenient data ≠ ⟨parser, 0, none⟩) :
    parser.putChunkHeader config data = parser.putChunkHeader config.lenient data := by
  cases parser.chunkData data with
  | short hs => rw [putChunkHeader_short _ _ hs, putChunkHeader_short _ _ hs]
  | unended he hlen hp =>
    rw [putChunkHeader_unended _ he hlen hp, putChunkHeader_unended _ he hlen hp]
  | incomplete hlen hmore =>
    have hstuck := putChunkHeader_incomplete config.lenient parser hlen hmore
    rw [if_neg fun hc => hc.1 rfl] at hstuck
    rw [hstuck] at h ⊢
    rw [putChunkHeader_incomplete config parser hlen hmore]
    refine if_neg fun hc => ?_
    rcases h with h | h
    · exact h ⟨hc.1, max_le hlen hc.2⟩
    · exact h rfl
  | line b rest hl =>
    rw [putChunkHeader_line _ parser hl, putChunkHeader_line _ parser hl]
    rfl

theorem turn_reports {parser : Parser isRequest} {data : Text} (hi : parser.Inv)
    (hs : parser.state ≠ .done) :
    parser.turn config data = ⟨parser, 0, none⟩ ∧ step config parser data = .wait ∧
        ¬parser.Refused config data ∨
      parser.Reports config data (parser.turn config data) ∧
        ((parser.turn config data).code = none → 0 < (parser.turn config data).used) := by
  have hbody : parser.InBody → parser.turn config data = parser.putBody config data := by
    rintro (h | h | h) <;> simp only [turn, h]
  have hother : ∀ {state : ParserState}, parser.state = state → state ≠ .chunkHeader →
      step config parser data = .wait → ¬parser.Refused config data :=
    fun heq hne _ hc => hne (heq.symm.trans hc.2.1)
  by_cases hin : parser.InBody
  · rw [hbody hin]
    have hne : parser.state ≠ .chunkHeader := by
      rcases hin with h | h | h <;> rw [h] <;> (intro hc; cases hc)
    exact stepOf_reports config hi (hin.step config data) hs (hother rfl hne)
      (putBody_consumed config hi hin data)
  cases hstate : parser.state with
  | startLine =>
    simp only [turn, hstate]
    exact stepOf_reports config hi (by simp only [step, hstate]) hs
      (hother hstate fun hc => by cases hc)
      (putStartLine_consumed config parser data)
  | fields =>
    simp only [turn, hstate]
    exact .inr (putFieldLines_reports config (finishHeader_last config) (fun hc => by cases hc)
      (fun hc => by cases hc) (Nat.lt_succ_self _) hi hstate)
  | body => exact absurd (.inl hstate) hin
  | bodyToEof => exact absurd (.inr (.inl hstate)) hin
  | chunkHeader =>
    simp only [turn, hstate]
    have hstep : step config parser data = parser.stepOf (parser.putChunkHeader config.lenient data) := by
      simp only [step, hstate]
    by_cases hwait : step config parser data = .wait ∧ parser.Refused config data
    · obtain ⟨hwait, hrefused⟩ := hwait
      rw [putChunkHeader_refused config hstate hwait hrefused]
      exact .inr ⟨.refuse hs (.wait hwait) hrefused, fun hc => by cases hc⟩
    · rw [not_and] at hwait
      rw [putChunkHeader_lenient config ?_]
      · exact stepOf_reports config hi hstep hs hwait (putChunkHeader_consumed _ parser data)
      · refine or_iff_not_imp_right.mpr fun hstuck hc => hwait ?_ ⟨hc.1, hstate, hc.2⟩
        rw [hstep, not_not.mp hstuck]
        simp only [stepOf, and_self, reduceIte]
  | chunkBody => exact absurd (.inr (.inr hstate)) hin
  | trailer =>
    simp only [turn, hstate]
    exact .inr (putFieldLines_reports config (finishTrailer_last config) (fun hc => by cases hc)
      (fun hc => by cases hc) (Nat.lt_succ_self _) hi hstate)
  | done => exact absurd hstate hs

theorem putLoop_reports {turns : ℕ} {parser : Parser isRequest} {data : Text}
    (hturns : data.length < turns) (hi : parser.Inv) :
    parser.Reports config data (putLoop config turns parser data) := by
  induction turns generalizing parser data with
  | zero => omega
  | succ turns ih =>
    unfold putLoop
    by_cases hdone : parser.state = .done
    · rw [if_pos hdone]
      exact .go hi (.inl hdone) (Nat.zero_le _) Reaches.refl
    rw [if_neg hdone]
    rcases @turn_reports _ config _ data hi hdone with
      ⟨heq, hwait, hkept⟩ | ⟨hreports, hpos⟩
    · simp only [heq, and_self, reduceIte]
      rw [if_neg (by simp)]
      exact .wait (.wait hwait) hkept
    generalize parser.turn config data = put at hreports hpos ⊢
    cases hreports with
    | go inv _ le reaches =>
      have hused := hpos rfl
      simp only at hused le ⊢
      split
      · exact .go inv (.inr hused) le reaches
      rw [if_neg fun hc => hused.ne' hc.1]
      exact .after config le hused reaches (ih (by rw [List.length_drop]; omega) inv)
    | wait runs kept => exact .wait runs kept
    | fail he state runs => exact .fail he state runs
    | refuse state runs refused => exact .refuse state runs refused

theorem put_eq {parser : Parser isRequest} (hi : parser.Inv) (data : Text) :
    parser.put config data = putLoop config (2 * data.length + 2) parser data := by
  have hsame : ({ parser with received := parser.received || data ≠ [] } : Parser isRequest)
      = parser := by
    rw [hi.received, Bool.true_or, ← hi.received]
  rw [put, hsame]

/-- `put` is a run of the machine. -/
theorem put_reports {parser : Parser isRequest} (hi : parser.Inv) (data : Text) :
    parser.Reports config data (parser.put config data) := by
  rw [put_eq config hi]
  exact putLoop_reports config (by omega) hi

end Parser

/-! ### Reading -/

/-- How the inner loop of `http::read` leaves the machine. -/
inductive Buffered (parser : Parser isRequest) (buffer : Text) :
    Parser isRequest × Text × ReadStatus → Prop where
  | done {q rest} (runs : Runs (Parser.step config) parser buffer [] (.done q rest)) :
      Buffered parser buffer (q, rest, .done)
  | more {q rest} (runs : Runs (Parser.step config) parser buffer [] (.waiting q rest))
      (kept : ¬q.Refused config rest) :
      Buffered parser buffer (q, rest, .more)
  | failed {p left e} (runs : Runs (Parser.step config) parser buffer [] (.failed e)) :
      Buffered parser buffer (p, left, .failed e)
  | refused {p left q rest} (runs : Runs (Parser.step config) parser buffer [] (.waiting q rest))
      (refused : q.Refused config rest) :
      Buffered parser buffer (p, left, .failed .badChunkExtension)

theorem Buffered.after {parser next : Parser isRequest} {buffer rest : Text}
    (h : Reaches (Parser.step config) parser buffer [] next rest)
    {result : Parser isRequest × Text × ReadStatus} (hb : Buffered config next rest result) :
    Buffered config parser buffer result := by
  cases hb with
  | done runs => exact .done (h.runs runs)
  | more runs kept => exact .more (h.runs runs) kept
  | failed runs => exact .failed (h.runs runs)
  | refused runs refused => exact .refused (h.runs runs) refused

theorem readBuffered_source {turns : ℕ} {parser : Parser isRequest} {buffer : Text}
    (hturns : buffer.length < turns) (hi : parser.Inv) :
    Buffered config parser buffer (readBuffered config turns parser buffer) := by
  induction turns generalizing parser buffer with
  | zero => omega
  | succ turns ih =>
    have hreports := Parser.put_reports config hi buffer
    unfold readBuffered
    generalize parser.put config buffer = put at hreports ⊢
    cases hreports with
    | @go next used inv moved le reaches =>
      simp only
      by_cases hdone : next.state = .done
      · rw [if_pos hdone]
        exact .done (reaches.runs (.done (by simp only [Parser.step, hdone])))
      · have hpos : 0 < used := moved.resolve_left hdone
        rw [if_neg hdone, if_neg hpos.ne']
        exact .after config reaches (ih (by rw [List.length_drop]; omega) inv)
    | @wait next used runs kept =>
      have hstate : next.state ≠ .done := fun hc => by
        have hwait := runs.wait_of_waiting
        simp only [Parser.step, hc] at hwait
        cases hwait
      simp only [if_neg hstate]
      exact .more runs kept
    | @fail next used e he state runs =>
      simp only [if_neg state]
      cases e <;> first | exact absurd rfl he | exact .failed runs
    | refuse state runs refused =>
      simp only [if_neg state]
      exact .refused runs refused

/-- The outcome of reading the buffered bytes and those that arrive later. -/
inductive Reads (count : ℕ) (parser : Parser isRequest) (buffer later : Text) :
    ReadResult isRequest → Prop where
  | done {q rest} (runs : Runs (Parser.step config) parser (buffer ++ later) [] (.done q rest)) :
      Reads count parser buffer later
        (.done q.message (count + ((buffer ++ later).length - rest.length)))
  | needMore {q rest}
      (runs : Runs (Parser.step config) parser (buffer ++ later) [] (.waiting q rest))
      (kept : ¬q.Refused config rest) : Reads count parser buffer later .needMore
  | failed {e} (runs : Runs (Parser.step config) parser (buffer ++ later) [] (.failed e)) :
      Reads count parser buffer later (.failed e)
  | refused {y x q rest} (hlater : later = y ++ x)
      (runs : Runs (Parser.step config) parser (buffer ++ y) [] (.waiting q rest))
      (refused : q.Refused config rest) :
      Reads count parser buffer later (.failed .badChunkExtension)

variable {config}

theorem Reads.after (hb : config.Bounded) {count : ℕ} {parser q : Parser isRequest}
    {buffer rest piece later : Text} {result : ReadResult isRequest} (hi : parser.Inv)
    (runs : Runs (Parser.step config) parser buffer [] (.waiting q rest))
    (hr : Reads config (count + (buffer.length - rest.length)) q (rest ++ piece) later result) :
    Reads config count parser buffer (piece ++ later) result := by
  have hs := @Parser.step_resumable isRequest config hb
  have hle : rest.length ≤ buffer.length := runs.rest_length_le
  cases hr with
  | @done q' rest' h =>
    have hle' : rest'.length ≤ (rest ++ piece ++ later).length := h.rest_length_le
    have hcount : count + (buffer.length - rest.length)
          + ((rest ++ piece ++ later).length - rest'.length)
        = count + ((buffer ++ (piece ++ later)).length - rest'.length) := by
      simp only [List.length_append] at hle' ⊢
      omega
    rw [List.append_assoc] at h
    rw [hcount]
    exact .done (hs.resume hi runs h)
  | needMore h kept =>
    rw [List.append_assoc] at h
    exact .needMore (hs.resume hi runs h) kept
  | failed h =>
    rw [List.append_assoc] at h
    exact .failed (hs.resume hi runs h)
  | @refused y x _ _ hlater h refused =>
    rw [List.append_assoc] at h
    exact .refused (y := piece ++ y) (x := x) (by rw [hlater, List.append_assoc])
      (hs.resume hi runs h) refused

/-- A message that is complete is not changed by the bytes behind it. -/
theorem Reads.of_done (hb : config.Bounded) {count : ℕ} {parser q : Parser isRequest}
    {buffer rest : Text} (hi : parser.Inv)
    (runs : Runs (Parser.step config) parser buffer [] (.done q rest)) (later : Text) :
    Reads config count parser buffer later
      (.done q.message (count + (buffer.length - rest.length))) := by
  have hcount : buffer.length - rest.length = (buffer ++ later).length - (rest ++ later).length := by
    simp only [List.length_append]
    omega
  rw [hcount]
  exact .done ((Parser.step_resumable config hb).extend hi runs trivial later)

/-- `http::read` of the pieces of a stream is a run over the stream. -/
theorem read_source (hb : config.Bounded) (pieces : List Text) {parser : Parser isRequest}
    (hi : parser.Inv) (count : ℕ) (buffer : Text) :
    Reads config count parser buffer pieces.flatten (read config pieces parser count buffer) := by
  have hs := @Parser.step_resumable isRequest config hb
  induction pieces generalizing parser count buffer with
  | nil =>
    have hbuf := readBuffered_source config (Nat.lt_succ_self buffer.length) hi
    have hnil : buffer ++ ([] : List Text).flatten = buffer := by simp
    unfold read
    generalize readBuffered config (buffer.length + 1) parser buffer = result at hbuf
    cases hbuf with
    | done runs => exact .of_done hb hi runs _
    | more runs kept => exact .needMore (hnil.symm ▸ runs) kept
    | failed runs => exact .failed (hnil.symm ▸ runs)
    | refused runs refused => exact .refused (y := []) (x := []) rfl (hnil.symm ▸ runs) refused
  | cons piece pieces ih =>
    have hbuf := readBuffered_source config (Nat.lt_succ_self buffer.length) hi
    unfold read
    generalize readBuffered config (buffer.length + 1) parser buffer = result at hbuf
    cases hbuf with
    | done runs => exact .of_done hb hi runs _
    | more runs kept => exact .after hb hi runs (ih (hs.inv_waiting hi runs) _ _)
    | failed runs => exact .failed (hs.extend hi runs trivial _)
    | refused runs refused =>
      exact .refused (y := []) rfl (by rwa [List.append_nil]) refused

theorem put_nil (isRequest : Bool) :
    (Parser.new isRequest).put config [] = ⟨Parser.new isRequest, 0, some .needMore⟩ := rfl

/-- Pieces without bytes leave the parser as it was constructed. -/
theorem read_new_nil (piece : Text) (pieces : List Text) (isRequest : Bool) :
    read config (piece :: pieces) (Parser.new isRequest) 0 [] =
      read config pieces (Parser.new isRequest) 0 piece := by
  have hbuf : readBuffered config 1 (Parser.new isRequest) [] = (Parser.new isRequest, [], .more) := by
    unfold readBuffered
    rw [put_nil]
    rfl
  conv_lhs => unfold read
  rw [List.length_nil, Nat.zero_add, hbuf]
  rfl

theorem put_started {buffer : Text} (hne : buffer ≠ []) (isRequest : Bool) :
    (Parser.new isRequest).put config buffer = (Parser.started isRequest).put config buffer := by
  simp only [Parser.put, Parser.started, Parser.new, hne, ne_eq, not_false_eq_true, decide_true,
    Bool.or_true]

theorem read_started {buffer : Text} (hne : buffer ≠ []) (pieces : List Text) (isRequest : Bool) :
    read config pieces (Parser.new isRequest) 0 buffer =
      read config pieces (Parser.started isRequest) 0 buffer := by
  have hbuf : ∀ turns, readBuffered config (turns + 1) (Parser.new isRequest) buffer =
      readBuffered config (turns + 1) (Parser.started isRequest) buffer := fun turns => by
    conv_lhs => unfold readBuffered
    conv_rhs => unfold readBuffered
    rw [put_started hne]
  cases pieces <;> simp only [read, hbuf]

/-- The outcome of a message is that of a run over its stream. -/
theorem readMessage_source (hb : config.Bounded) (isRequest : Bool) (pieces : List Text)
    (hne : pieces.flatten ≠ []) :
    Reads config 0 (Parser.started isRequest) [] pieces.flatten
      (readMessage config isRequest pieces) := by
  unfold readMessage
  induction pieces with
  | nil => exact absurd rfl hne
  | cons piece pieces ih =>
    rw [read_new_nil]
    by_cases hp : piece = []
    · subst hp
      simp only [List.flatten_cons, List.nil_append] at hne ⊢
      exact ih hne
    · rw [read_started hp]
      refine @Reads.after _ _ hb _ (Parser.started isRequest) _ _ [] _ _ _ Parser.inv_started
        (.wait rfl) ?_
      exact read_source hb pieces Parser.inv_started 0 piece

theorem readMessage_of_nil (isRequest : Bool) {pieces : List Text} (h : pieces.flatten = []) :
    readMessage config isRequest pieces = .needMore := by
  unfold readMessage
  induction pieces with
  | nil => rfl
  | cons piece pieces ih =>
    rw [List.flatten_cons, List.append_eq_nil_iff] at h
    rw [read_new_nil, h.1]
    exact ih h.2

/-! ### Reading without limits -/

theorem Reads.det (hl : config.headerLimit = 0) {count : ℕ} {parser : Parser isRequest}
    {buffer later : Text} {a b : ReadResult isRequest}
    (ha : Reads config count parser buffer later a) (hb : Reads config count parser buffer later b) :
    a = b := by
  cases ha with
  | refused _ _ refused => exact absurd hl refused.1
  | done runs =>
    cases hb with
    | refused _ _ refused => exact absurd hl refused.1
    | done runs' => cases (runs.det runs').2; rfl
    | needMore runs' _ => cases (runs.det runs').2
    | failed runs' => cases (runs.det runs').2
  | needMore runs _ =>
    cases hb with
    | refused _ _ refused => exact absurd hl refused.1
    | done runs' => cases (runs.det runs').2
    | needMore runs' _ => rfl
    | failed runs' => cases (runs.det runs').2
  | failed runs =>
    cases hb with
    | refused _ _ refused => exact absurd hl refused.1
    | done runs' => cases (runs.det runs').2
    | needMore runs' _ => cases (runs.det runs').2
    | failed runs' => cases (runs.det runs').2; rfl

/-- Without limits a stream read in any pieces has the outcome of the stream
presented whole: done with the same message and size, too few bytes, or the
same error. -/
theorem readMessage_pieces (config : ParserConfig) (isRequest : Bool)
    (hheader : config.headerLimit = 0) (hbody : config.bodyLimit = 0) (stream : Text)
    (pieces : List Text) (hpieces : pieces.flatten = stream) :
    readMessage config isRequest pieces = readMessage config isRequest [stream] := by
  have hwhole : [stream].flatten = stream := by simp
  have hb : config.Bounded := hbody.trans_le (Nat.zero_le _)
  by_cases hne : stream = []
  · rw [readMessage_of_nil isRequest (hpieces.trans hne),
      readMessage_of_nil isRequest (hwhole.trans hne)]
  · have ha := readMessage_source hb isRequest pieces (by rwa [hpieces])
    have hw := readMessage_source hb isRequest [stream] (by rwa [hwhole])
    rw [hpieces] at ha
    rw [hwhole] at hw
    exact ha.det hheader hw

/-- A chunked request cut in its start line, a chunk line and a chunk. -/
theorem readMessage_pieces_chunked :
    readMessage ⟨listItems, 100, 0, 0, false⟩ true
      [ascii "POST / HT", ascii "TP/1.1\r\nTransfer-Encoding: chunked\r\n\r\n3\r",
        ascii "\nab", ascii "c\r\n0\r\n\r\n"] =
    readMessage ⟨listItems, 100, 0, 0, false⟩ true
      [ascii "POST / HTTP/1.1\r\nTransfer-Encoding: chunked\r\n\r\n3\r\nabc\r\n0\r\n\r\n"] :=
  readMessage_pieces _ true rfl rfl _ _ (by decide)

end BitcoinNetwork.Http
