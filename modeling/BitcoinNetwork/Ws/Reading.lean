import BitcoinNetwork.Ws.ReaderMachine

/-!
# Reading a stream that arrives in pieces (ws/reader.cpp, net/socket_ws.cpp)

The loops of `put` and of its callers are runs of the machine. The frame that
`put_header` leaves when a header is incomplete is that of no frame, and the
next attempt parses over it. A run gives the events of the whole stream, so
that its pieces do not show in them.
-/

namespace BitcoinNetwork.Ws
open Incremental

namespace Reader
variable {limit : ℕ}

/-- The second reader is the first, but for the frame that an incomplete header left. -/
def Alike (reader other : Reader) : Prop :=
  other = reader ∨ reader.payload = false ∧
    ∃ frame : FrameHeader, frame.key = reader.frame.key ∧ other = { reader with frame := frame }

theorem Alike.refl (reader : Reader) : reader.Alike reader := .inl rfl

theorem Alike.trans {a b c : Reader} (h : a.Alike b) (h' : b.Alike c) : a.Alike c := by
  obtain rfl | ⟨hp, frame, hkey, rfl⟩ := h
  · exact h'
  · obtain rfl | ⟨-, frame', hkey', rfl⟩ := h'
    · exact .inr ⟨hp, frame, hkey, rfl⟩
    · exact .inr ⟨hp, frame', hkey'.trans hkey, rfl⟩

theorem Alike.inv {reader other : Reader} (h : reader.Alike other) {message : Bytes}
    (hi : Inv limit (reader, message)) : Inv limit (other, message) := by
  obtain rfl | ⟨hp, frame, -, rfl⟩ := h
  · exact hi
  · have hdata : ¬({ reader with frame := frame } : Reader).InData := not_inData hp
    refine ⟨hi.fits, fun hcase => ?_, fun hcase _ => hi.finished hcase (not_inData hp),
      fun hcase => absurd hcase hdata, fun hcase => absurd hcase (not_inControl hp)⟩
    rcases hcase with hcase | hcase
    · exact hi.unfinished (.inl hcase)
    · exact absurd hcase hdata

theorem step_alike {reader other : Reader} (h : reader.Alike other) (message data : Bytes) :
    step limit (other, message) data = step limit (reader, message) data := by
  obtain rfl | ⟨hp, frame, hkey, rfl⟩ := h
  · rfl
  · rw [step_header hp, @step_header _ { reader with frame := frame } hp]
    obtain ⟨hcode, hframe, -⟩ := parseHeader_over hkey data reader.server
    cases hparse : parseHeader reader.frame data reader.server with
    | mk parsed result =>
      rw [hparse] at hcode hframe
      cases hother : parseHeader frame data reader.server with
      | mk parsed' result' =>
        rw [hother] at hcode hframe
        simp only at hcode hframe
        subst hcode
        cases result' with
        | error e => cases e <;> rfl
        | ok size =>
          have hsame := hframe size rfl
          subst hsame
          rfl

theorem parseClose_error {payload : Bytes} {e : WsError} (h : parseClose payload = .error e) :
    e ≠ .needMore := by
  unfold parseClose at h
  split at h
  · cases h
  · cases h
    nofun
  · simp only at h
    split at h
    · cases h
      nofun
    · split at h <;> cases h
      nofun

theorem finishControl_error {reader : Reader} {payload : Bytes} {e : WsError}
    (h : reader.finishControl payload = .error e) : e ≠ .needMore := by
  unfold finishControl at h
  split at h
  · cases h
  · cases h
  · split at h
    · cases h
    · rename_i hclose
      cases h
      exact parseClose_error hclose

theorem enter_error {reader : Reader} {frame : FrameHeader} {e : WsError}
    (h : reader.enter frame = .error e) : e ≠ .needMore := by
  unfold enter at h
  repeat' split at h
  all_goals cases h
  all_goals nofun

/-- A step that fails does so with a code other than need_more. -/
theorem step_fail {s : Reader × Bytes} (hi : Inv limit s) {data : Bytes} {e : WsError}
    (h : step limit s data = .fail e) : e ≠ .needMore := by
  have hsettle {reader : Reader} {message : Bytes} {used : ℕ} (hu : 0 < used)
      (hs : stepOf (reader.settle message used) = .fail e) : e ≠ .needMore := by
    obtain ⟨-, heq⟩ | ⟨-, -, heq⟩ | ⟨-, -, -, utf8, heq⟩ | ⟨-, -, -, -, heq⟩ :=
      settle_cases reader message hu
    all_goals rw [heq] at hs; cases hs
    nofun
  obtain ⟨reader, message⟩ := s
  obtain hp | hp | hp := payload_cases reader
  · rw [step_header hp] at h
    cases hparse : parseHeader reader.frame data reader.server with
    | mk frame result =>
      rw [hparse] at h
      cases result with
      | error e' =>
        cases e' <;> cases h <;> nofun
      | ok size =>
        have hsize := (parseHeader_size hparse).1
        simp only at h
        cases he : reader.enter frame with
        | error e' =>
          rw [he] at h
          cases h
          exact enter_error he
        | ok next =>
          simp only [he, stepFrame] at h
          split at h
          · cases h
          · split at h
            · split at h
              · rename_i hfinish
                cases h
                exact finishControl_error hfinish
              · cases h
            · exact hsettle (by omega) h
  · rw [step_data hi hp] at h
    split at h
    · cases h
    rename_i hd
    split at h
    · cases h
      nofun
    · exact hsettle (hi.payloadSize_pos hp hd) h
  · rw [step_control hi hp] at h
    split at h
    · cases h
    split at h
    · rename_i hfinish
      cases h
      exact finishControl_error hfinish
    · cases h

/-- A turn that waits leaves the reader as it was, but for the frame. -/
theorem turn_wait {reader : Reader} {message data : Bytes} (hi : Inv limit (reader, message))
    (h : step limit (reader, message) data = .wait) :
    ∃ other, reader.Alike other ∧ reader.turn limit data message = { reader := other, message } := by
  obtain hp | hp | hp := payload_cases reader
  · have hturn : reader.turn limit data message = reader.putHeader limit data message := by
      simp only [turn, hp, Bool.false_eq_true, reduceIte]
    rw [step_header hp] at h
    rw [hturn, putHeader]
    have hkey := (@parseHeader_over reader.frame _ rfl data reader.server).2.2
    cases hparse : parseHeader reader.frame data reader.server with
    | mk frame result =>
      rw [hparse] at h hkey
      cases result with
      | error e =>
        cases e <;> try cases h
        exact ⟨_, .inr ⟨hp, frame, hkey _ rfl, rfl⟩, rfl⟩
      | ok size =>
        exfalso
        have hsize := (parseHeader_size hparse).1
        simp only at h
        cases he : reader.enter frame with
        | error e' =>
          rw [he] at h
          cases h
        | ok next =>
          simp only [he, stepFrame] at h
          split at h
          · cases h
          · split at h
            · split at h <;> cases h
            · exact stepOf_ne_wait (by rw [settle_size]; omega) h
  · have hd : data = [] := by
      by_contra hd
      exact step_data_ne_wait hi hp hd h
    have hmore := (hi.data hp).1
    simp only at hmore
    refine ⟨reader, .refl reader, ?_⟩
    subst hd
    rw [turn, if_pos hp.1, putPayload, if_neg (by simp [hp.2])]
    simp only [List.length_nil, Nat.min_zero, reduceIte, putData, Nat.add_zero, if_pos hmore]
  · refine ⟨reader, .refl reader, ?_⟩
    have hoffset := (hi.control hp).1
    simp only at hoffset
    have hshort : data.length < reader.frame.length := by
      by_contra hlen
      rw [step_control hi hp, if_neg hlen] at h
      split at h <;> cases h
    simp only [turn, hp.1, reduceIte, putPayload, hp.2, putControl, hoffset, Nat.sub_zero,
      if_pos hshort]

/-- What the loop of `put` leaves: it waits, has come to an event, or failed. -/
inductive Puts (reader : Reader) (message data : Bytes) : Put → Prop where
  | more {q other : Reader} {message' : Bytes} {used : ℕ}
      (reaches : Reaches (step limit) (reader, message) data [] (q, message') (data.drop used))
      (waits : step limit (q, message') (data.drop used) = .wait) (alike : q.Alike other) :
      Puts reader message data
        { reader := other, message := message', used := used, code := some .needMore }
  | event {put : Put} {event : Event}
      (reaches : Reaches (step limit) (reader, message) data [event] (put.reader, put.taken.2)
        (data.drop put.used))
      (taken : put.taken.1 = some event) (code : put.code = none) (pos : 0 < put.used)
      (le : put.used ≤ data.length) : Puts reader message data put
  | failed {put : Put} {e : WsError} (runs : Runs (step limit) (reader, message) data [] (.failed e))
      (code : put.code = some e) (ne : e ≠ .needMore) : Puts reader message data put

/-- A step in front of the loop. -/
theorem Puts.after {reader next : Reader} {message message' data : Bytes} {n : ℕ} {put : Put}
    (hs : step limit (reader, message) data = .next (next, message') n [])
    (hpos : 0 < n) (hle : n ≤ data.length)
    (h : @Puts limit next message' (data.drop n) put) :
    @Puts limit reader message data { put with used := n + put.used } := by
  have hdrop (used : ℕ) : (data.drop n).drop used = data.drop (n + used) := List.drop_drop
  cases h with
  | more reaches waits alike =>
    rw [hdrop] at reaches waits
    exact .more (.next hs reaches) waits alike
  | event reaches taken code pos le =>
    rw [hdrop] at reaches
    refine .event (.next hs reaches) taken code (Nat.add_pos_left hpos _) ?_
    have hrest : put.used ≤ data.length - n := le.trans_eq List.length_drop
    have htotal : n + put.used ≤ data.length := by omega
    exact htotal
  | failed runs code ne => exact .failed (.next hs runs) code ne

theorem stepOf_fail {put : Put} {e : WsError} (h : stepOf put = .fail e) : put.code = some e := by
  unfold stepOf at h
  split at h
  · rename_i hcode
    cases h
    exact hcode
  · split at h <;> cases h

theorem stepOf_next {put : Put} {s : Reader × Bytes} {n : ℕ} {out : List Event}
    (h : stepOf put = .next s n out) : put.code = none ∧ n = put.used ∧
      s = (put.reader, put.taken.2) ∧ out = put.taken.1.toList := by
  unfold stepOf at h
  split at h
  · cases h
  · rename_i hcode
    split at h
    · cases h
    · cases h
      exact ⟨hcode, rfl, rfl, rfl⟩

theorem event_none_iff (put : Put) : put.event = .none ↔ put.taken.1 = none := by
  unfold Put.taken
  cases put.event <;> simp

/-- The loop of `put` is a run of the machine up to an event. -/
theorem putLoop_source {turns : ℕ} {reader other : Reader} {message data : Bytes}
    (hturns : data.length < turns) (hi : Inv limit (reader, message)) (h : reader.Alike other) :
    @Puts limit reader message data (other.putLoop limit turns data message) := by
  induction turns generalizing reader other message data with
  | zero => omega
  | succ turns ih =>
    have halike := @step_alike limit _ _ h message data
    have hturn : (if other.payload then other.putPayload limit data message
        else other.putHeader limit data message) = other.turn limit data message := rfl
    rw [putLoop, hturn]
    cases hs : step limit (reader, message) data with
    | wait =>
      obtain ⟨last, hlast, hput⟩ := turn_wait (h.inv hi) (halike.trans hs)
      simp only [hput, ne_eq, not_true_eq_false, or_self, reduceIte]
      exact @Puts.more _ _ _ _ _ _ _ 0 .refl hs (h.trans hlast)
    | done => exact absurd hs (stepOf_ne_done _)
    | fail e =>
      have hcode := stepOf_fail (halike.trans hs)
      simp only at hcode
      simp only [hcode, ne_eq, reduceCtorEq, not_false_eq_true, true_or, reduceIte]
      exact .failed (.fail hs) hcode (step_fail hi hs)
    | next s n out =>
      obtain ⟨hcode, rfl, rfl, rfl⟩ := stepOf_next (halike.trans hs)
      obtain ⟨hpos, hle, hinv⟩ := step_next hi hs
      simp only at hcode hpos hle hinv hs
      generalize hput : other.turn limit data message = put at *
      cases hevent : put.taken.1 with
      | none =>
        have hnone := (event_none_iff put).mpr hevent
        rw [hevent] at hs
        have hmessage : put.taken.2 = put.message := by simp only [Put.taken, hnone]
        rw [hmessage] at hs hinv
        rw [if_neg (by simp [hcode, hnone]), if_neg hpos.ne']
        refine .after hs hpos hle (ih ?_ hinv (.refl _))
        rw [List.length_drop]
        omega
      | some event =>
        have hsome : put.event ≠ .none := fun hc => by
          rw [(event_none_iff put).mp hc] at hevent
          cases hevent
        rw [hevent] at hs
        rw [if_pos (.inr hsome)]
        exact .event (.single hs) hevent hcode hpos hle

/-- What is read of the bytes that are buffered. -/
inductive Reads (reader : Reader) (message buffer : Bytes) :
    List Event × (Reader × Bytes × Bytes) × ReadResult → Prop where
  | more {q other : Reader} {message' rest : Bytes} {events : List Event}
      (runs : Runs (step limit) (reader, message) buffer events (.waiting (q, message') rest))
      (alike : q.Alike other) :
      Reads reader message buffer (events, (other, message', rest), .needMore)
  | failed {events : List Event} {e : WsError} {left : Reader × Bytes × Bytes}
      (runs : Runs (step limit) (reader, message) buffer events (.failed e)) :
      Reads reader message buffer (events, left, .failed e)

theorem readBuffered_source {turns : ℕ} {reader other : Reader} {message buffer : Bytes}
    (hturns : buffer.length < turns) (hi : Inv limit (reader, message)) (h : reader.Alike other) :
    @Reads limit reader message buffer
      (readBuffered limit turns other message buffer) := by
  induction turns generalizing reader other message buffer with
  | zero => omega
  | succ turns ih =>
    have hput := putLoop_source (Nat.lt_succ_self buffer.length) hi h
    rw [readBuffered, put]
    generalize other.putLoop limit (buffer.length + 1) buffer message = put at hput
    cases hput with
    | more reaches waits alike => exact .more (reaches.waiting waits) alike
    | @failed put e runs code ne =>
      simp only [code]
      cases e <;> first | exact absurd rfl ne | exact .failed runs
    | event reaches taken code pos le =>
      simp only [code, taken, Option.toList_some]
      have hinv : Inv limit (put.reader, put.taken.2) :=
        reaches.keeps (fun hp hstep => (step_next hp hstep).2.2) hi
      have hrest := @ih put.reader put.reader put.taken.2 (buffer.drop put.used) (by rw [List.length_drop]; omega) hinv (.refl _)
      generalize readBuffered limit turns put.reader put.taken.2 (buffer.drop put.used) = result
        at hrest
      cases hrest with
      | more runs alike => exact .more (reaches.runs runs) alike
      | failed runs => exact .failed (reaches.runs runs)

end Reader

/-- What is read of a stream, by the result of the machine that is driven over it. -/
inductive ReadsAs : Result UInt8 (Reader × Bytes) WsError →
    (Reader × Bytes × Bytes) × ReadResult → Prop where
  | more {q other : Reader} {message rest : Bytes} (alike : q.Alike other) :
      ReadsAs (.waiting (q, message) rest) ((other, message, rest), .needMore)
  | failed {e : WsError} {left : Reader × Bytes × Bytes} : ReadsAs (.failed e) (left, .failed e)

theorem ReadsAs.ends {result : Result UInt8 (Reader × Bytes) WsError}
    {left left' : (Reader × Bytes × Bytes) × ReadResult} (h : ReadsAs result left)
    (h' : ReadsAs result left') : left.2 = left'.2 := by
  cases h <;> cases h' <;> rfl

/-- The events of pieces are those that a machine driven over them yields. -/
theorem read_source {limit : ℕ} (pieces : List Bytes) {reader other : Reader}
    {message buffer : Bytes} (hi : Reader.Inv limit (reader, message)) (h : reader.Alike other) :
    ∃ result, Feeds (Reader.step limit) (reader, message) buffer pieces
        (read limit pieces other message buffer).1 result ∧
      ReadsAs result (read limit pieces other message buffer).2 := by
  induction pieces generalizing reader other message buffer with
  | nil =>
    have hbuf := Reader.readBuffered_source (Nat.lt_succ_self buffer.length) hi h
    rw [read]
    generalize readBuffered limit (buffer.length + 1) other message buffer = result at hbuf
    cases hbuf with
    | more runs alike => exact ⟨_, .last runs, .more alike⟩
    | failed runs => exact ⟨_, .last runs, .failed⟩
  | cons piece pieces ih =>
    have hbuf := Reader.readBuffered_source (Nat.lt_succ_self buffer.length) hi h
    rw [read]
    generalize readBuffered limit (buffer.length + 1) other message buffer = result at hbuf
    cases hbuf with
    | more runs alike =>
      obtain ⟨result, hfeeds, hreads⟩ := @ih _ _ _ (_ ++ piece)
        (Reader.step_resumable.inv_waiting hi runs) alike
      exact ⟨result, .more runs hfeeds, hreads⟩
    | failed runs => exact ⟨_, .final _ runs trivial, .failed⟩

/-- What is read of the pieces of a stream is a run over the stream. -/
theorem read_runs {maximum limit : ℕ} (h : maximum ≤ limit) (server : Bool) (pieces : List Bytes) :
    ∃ result, Runs (Reader.step limit) ({ maximum, server }, []) pieces.flatten
        (read limit pieces { maximum, server } [] []).1 result ∧
      ReadsAs result (read limit pieces { maximum, server } [] []).2 := by
  have hi := Reader.inv_new limit h server
  obtain ⟨result, hfeeds, hreads⟩ := @read_source _ pieces _ _ _ [] hi (.refl _)
  exact ⟨result, Reader.step_resumable.feeds_runs hi hfeeds, hreads⟩

/-- How a stream is cut into pieces does not show in the events that are read of it. -/
theorem readPieces_whole {maximum limit : ℕ} (h : maximum ≤ limit) (server : Bool)
    (pieces : List Bytes) : readPieces maximum limit server pieces
      = readPieces maximum limit server [pieces.flatten] := by
  have hwhole : [pieces.flatten].flatten = pieces.flatten := by simp
  obtain ⟨result, hruns, hreads⟩ := read_runs h server pieces
  obtain ⟨result', hruns', hreads'⟩ := read_runs h server [pieces.flatten]
  rw [hwhole] at hruns'
  obtain ⟨hevents, hresult⟩ := hruns.det hruns'
  subst hresult
  exact Prod.ext hevents (hreads.ends hreads')

/-- A masked text frame cut in its header, its key and its payload. -/
theorem readPieces_whole_text :
    readPieces 100 100 true [[0x81], [0x82, 1, 2], [3, 4, 0x49], [0x6b, 0x81]] =
      readPieces 100 100 true [[0x81, 0x82, 1, 2, 3, 4, 0x49, 0x6b, 0x81]] :=
  readPieces_whole le_rfl true _

end BitcoinNetwork.Ws
