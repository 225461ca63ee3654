import BitcoinNetwork.Rpc.Puts

/-!
# Streams and bodies of json-rpc messages

The body of an http message is one message and whitespace. A stream has messages one
behind the other, and a scanner of a stream is outside once it has read each. The reads of
a channel (net/proxy_actions.cpp, net/socket_rpc.cpp) follow these scanners.
-/

namespace BitcoinNetwork.Rpc
open Incremental (scan scan_append scan_append_error scan_keeps scan_ok scan_quiet scan_single
  scan_error Turn Follows Enough drive)

variable {σ ν α : Type} (json : Json σ ν α) (carrier : Carrier)

namespace Scan

/-- The request of a singleton, of which the reader is dropped. -/
def release (model : ν) (out : List (Event α)) : Except RpcError (Scan σ ν × List (Event α)) :=
  match toRequest json {} model with
  | .error e => .error e
  | .ok value => .ok (.outside, out ++ [.element value])

/-- The scanner of a stream is outside behind a message, and that of a body goes on. -/
def settle (q : Scan σ ν) (out : List (Event α)) : Except RpcError (Scan σ ν × List (Event α)) :=
  match carrier with
  | .body => .ok (q, out)
  | .stream terminated =>
    match q with
    | .whole model => if terminated then .ok (.whole model, out) else release json model out
    | .finished model => release json model out
    | .closed => .ok (.outside, out)
    | q => .ok (q, out)

def carried (q : Scan σ ν) (c : UInt8) : Except RpcError (Scan σ ν × List (Event α)) :=
  match q.step json carrier.terminated c with
  | .error e => .error e
  | .ok (q', out) => q'.settle json carrier out

/-- At the end of a body a singleton is converted, and a batch is closed. -/
def conclude : Scan σ ν → Except RpcError (List (Event α))
  | .whole model =>
    match toRequest json {} model with
    | .error e => .error e
    | .ok value => .ok [.element value]
  | .closed => .ok []
  | _ => .error .needMore

end Scan

/-! ### Texts -/

/-- The body of an http message, and what the channel is delivered for it. -/
def Body (text : Text) (events : List (Event α)) : Prop :=
  ∃ t z, Request json false t events ∧ Spaces z ∧ text = t ++ z

/-- Messages, and what has been read of the one behind them. -/
inductive Stream (terminated : Bool) (q : Scan σ ν) : Text → List (Event α) → Prop where
  | last {text : Text} {events : List (Event α)} (unsettled : q.Unsettled (.stream terminated))
      (part : Partial json terminated q text events) : Stream terminated q text events
  | next {t text : Text} {delivered events : List (Event α)}
      (request : Request json terminated t delivered) (rest : Stream terminated q text events) :
      Stream terminated q (t ++ text) (delivered ++ events)

/-! ### Reads -/

namespace Reader

/-- The reader behind an element of a batch: `handle_http_element`, or another. -/
def advanced (reader : Reader σ ν α) : Reader σ ν α :=
  match carrier with
  | .body => { reader with value.batch := true, value.changed := false }
  | .stream terminated => new json terminated none true

/-- The reader behind the close of a batch. -/
def dropped (reader : Reader σ ν α) : Reader σ ν α :=
  match carrier with
  | .body => reader
  | .stream terminated => new json terminated none false

/-- What a read makes of a put: `put` and `handle_http_body` for a body, and for a stream
`body_parser::put`, `do_parse` and `handle_rpc_read`. -/
def read (text : Text) (put : Put σ ν α) : Turn (Reader σ ν α) (Event α) RpcError :=
  let size := text.length - put.rest.length
  match put.code with
  | some .needBuffer =>
    if put.reader.value.changed && put.reader.value.batch then
      .took (put.reader.dropped json carrier) size [.close]
    else .took (put.reader.advanced json carrier) size [.element put.reader.value]
  | some e => .failed e
  | none =>
    match carrier with
    | .body => .took put.reader size []
    | .stream terminated =>
      if size = 0 then .took put.reader size []
      else
        match put.reader.finish json with
        | .ok reader => .took (new json terminated none false) size [.element reader.value]
        | .error .needMore => .took put.reader size []
        | .error e => .failed e

def turn (reader : Reader σ ν α) (text : Text) : Turn (Reader σ ν α) (Event α) RpcError :=
  read json carrier text (reader.put json text)

/-- `finish` at the end of a body, and `handle_http_body`. -/
def ended (reader : Reader σ ν α) : Except RpcError (List (Event α)) :=
  match reader.finish json with
  | .error e => .error e
  | .ok reader =>
    .ok (if reader.value.changed && reader.value.batch then [] else [.element reader.value])

end Reader

/-- The body of an http message of a length, or in chunks, that is read in parts. -/
def readBody (length : Option ℕ) (text : Text) (offers : List ℕ) :
    Except RpcError (List (Event α)) :=
  let d := drive (Reader.turn json .body) (Reader.new json false length false) text offers
  match d.state with
  | .error e => .error e
  | .ok reader =>
    match reader.ended json with
    | .error e => .error e
    | .ok last => .ok (d.outs ++ last)

variable {json carrier}

/-! ### Scanners that settle -/

namespace Scan

theorem settle_unsettled {q : Scan σ ν} (h : q.Unsettled carrier) (out : List (Event α)) :
    q.settle json carrier out = .ok (q, out) := by
  cases q with
  | whole model =>
    match carrier, h with
    | .body, _ => rfl
    | .stream true, _ => rfl
  | finished model => exact absurd h id
  | closed =>
    cases h
    rfl
  | _ => cases carrier <;> rfl

theorem settle_append (q : Scan σ ν) (front out : List (Event α)) :
    q.settle json carrier (front ++ out)
      = match q.settle json carrier out with
        | .ok (s, o) => .ok (s, front ++ o)
        | .error e => .error e := by
  have hrelease (model : ν) : (release json model (front ++ out) : Except RpcError (Scan σ ν × _))
      = match release json model out with
        | .ok (s, o) => .ok (s, front ++ o)
        | .error e => .error e := by
    unfold release
    cases toRequest json {} model with
    | error e => rfl
    | ok value =>
      dsimp only
      rw [List.append_assoc]
  rcases carrier with _ | terminated
  · rfl
  · cases q with
    | whole model =>
      cases terminated with
      | false => exact hrelease model
      | true => rfl
    | finished model => exact hrelease model
    | _ => rfl

/-- A state that is not in front of others goes on over whitespace only. -/
theorem step_settled {q : Scan σ ν} (h : ¬ q.Unsettled carrier) (c : UInt8)
    (hc : ∃ q' out, q.step json carrier.terminated c = .ok (q', out)) :
    q.step json carrier.terminated c = .ok (q, []) ∧ isJsonWhitespace c = true := by
  obtain ⟨q', out, hstep⟩ := hc
  cases q with
  | whole model =>
    have hcarrier : carrier = .stream false := not_not.mp h
    subst hcarrier
    dsimp only [step] at hstep ⊢
    split_ifs at hstep with hterminated hw
    · cases hterminated.1
    · exact ⟨by rw [if_neg (fun h => by cases h.1), if_pos hw], hw⟩
  | finished model =>
    dsimp only [step] at hstep ⊢
    split_ifs at hstep with hw
    exact ⟨if_pos hw, hw⟩
  | closed =>
    dsimp only [step] at hstep ⊢
    split_ifs at hstep with hw
    exact ⟨if_pos hw, hw⟩
  | _ => exact absurd trivial h

theorem scan_settled {q q' : Scan σ ν} (h : ¬ q.Unsettled carrier) {text : Text}
    {out : List (Event α)} (hscan : scan (step json carrier.terminated) q text = (out, .ok q')) :
    q' = q ∧ out = [] ∧ Spaces text := by
  induction text generalizing out with
  | nil =>
    cases hscan
    exact ⟨rfl, rfl, spaces_nil⟩
  | cons c text ih =>
    cases hstep : q.step json carrier.terminated c with
    | error e =>
      rw [scan_error hstep] at hscan
      cases hscan
    | ok next =>
      obtain ⟨hstays, hw⟩ := step_settled h c ⟨next.1, next.2, hstep⟩
      rw [scan_quiet hstays] at hscan
      obtain ⟨hq, hout, hspaces⟩ := ih hscan
      exact ⟨hq, hout, List.forall_mem_cons.mpr ⟨hw, hspaces⟩⟩

/-- A singleton is complete without an output of its last character. -/
theorem step_whole {q q' : Scan σ ν} {terminated : Bool} {c : UInt8} {out : List (Event α)}
    (hstep : q.step json terminated c = .ok (q', out))
    (hq : ∃ model, q' = .whole model ∨ q' = .finished model) : out = [] := by
  have hdeliver {first : Bool} {model : ν} (h : deliver json first model = .ok (q', out)) :
      q' = .between := (deliver_ok h).1
  have hfeed {wrap : σ → Scan σ ν} {complete : ν → Except RpcError (Scan σ ν × List (Event α))}
      {state : σ} (h : feed json wrap complete state c = .ok (q', out))
      (hcomplete : ∀ model, complete model = .ok (q', out) → out = []) : out = [] := by
    unfold feed at h
    split at h
    · cases h
      rfl
    · next model _ => exact hcomplete model h
    · cases h
  have hbetween (h : q' = .between) : out = [] := by
    obtain ⟨model, h' | h'⟩ := hq <;> rw [h'] at h <;> cases h
  cases q <;> dsimp only [step] at hstep
  all_goals (try split_ifs at hstep) <;> first
    | (cases hstep; rfl)
    | exact hfeed hstep fun model h => by cases h; rfl
    | exact hfeed hstep fun model h => hbetween (hdeliver h)
    | (cases hstep; obtain ⟨model, h | h⟩ := hq <;> cases h)

theorem scan_outside_carried {text : Text} (h : Spaces text) :
    scan (carried json carrier) .outside text = ([], .ok .outside) := by
  refine Incremental.scan_stays fun c hc => ?_
  unfold carried
  rw [show step json carrier.terminated (.outside : Scan σ ν) c = .ok (.outside, []) by
    simp only [step, h c hc, if_true]]
  exact settle_unsettled (q := .outside) trivial []

/-- Behind a message a stream is outside, or the message is not a request. -/
theorem settle_settled {q : Scan σ ν} {terminated : Bool} (h : ¬ q.Unsettled (.stream terminated))
    (out : List (Event α)) :
    (∃ more, q.settle json (.stream terminated) out = .ok (.outside, out ++ more)) ∨
      ∃ e, q.settle json (.stream terminated) out = .error e ∧
        ∃ model, q = .whole model ∨ q = .finished model := by
  have hrelease (model : ν) :
      (∃ more, (release json model out : Except RpcError (Scan σ ν × _)) = .ok (.outside, out ++ more)) ∨
        ∃ e, (release json model out : Except RpcError (Scan σ ν × List (Event α))) = .error e := by
    unfold release
    cases toRequest json {} model with
    | error e => exact .inr ⟨e, rfl⟩
    | ok value => exact .inl ⟨_, rfl⟩
  cases q with
  | whole model =>
    cases not_not.mp h
    rcases hrelease model with h | ⟨e, he⟩
    · exact .inl h
    · exact .inr ⟨e, he, model, .inl rfl⟩
  | finished model =>
    rcases hrelease model with h | ⟨e, he⟩
    · exact .inl h
    · exact .inr ⟨e, he, model, .inr rfl⟩
  | closed => exact .inl ⟨[], by rw [List.append_nil]; rfl⟩
  | _ => exact absurd trivial h

theorem carried_body : carried json .body = (step json false : Scan σ ν → UInt8 → _) := by
  funext q c
  unfold carried
  cases hstep : q.step json Carrier.body.terminated c <;> exact hstep.symm

/-- What a scanner has taken, the scanner that settles has taken. -/
theorem scan_carried {q q' : Scan σ ν} (hq : q.Unsettled carrier) {text : Text}
    {out : List (Event α)} (h : scan (step json carrier.terminated) q text = (out, .ok q')) :
    scan (carried json carrier) q text
      = match q'.settle json carrier out with
        | .ok (s, o) => (o, .ok s)
        | .error e => (out, .error e) := by
  rcases carrier with _ | terminated
  · rw [carried_body]
    exact h
  induction text generalizing q out with
  | nil =>
    cases h
    rw [settle_unsettled hq]
    rfl
  | cons c text ih =>
    cases hstep : q.step json (Carrier.stream terminated).terminated c with
    | error e =>
      rw [scan_error hstep] at h
      cases h
    | ok next =>
      obtain ⟨q₁, out₁⟩ := next
      rw [scan_ok hstep] at h
      obtain ⟨rfl, hstate⟩ := Prod.mk.inj h
      have hrest : scan (step json (Carrier.stream terminated).terminated) q₁ text
          = ((scan (step json (Carrier.stream terminated).terminated) q₁ text).1, .ok q') :=
        Prod.ext rfl hstate
      have hcarried : q.carried json (.stream terminated) c
          = q₁.settle json (.stream terminated) out₁ := by
        unfold carried
        rw [hstep]
      generalize (scan (step json (Carrier.stream terminated).terminated) q₁ text).1 = out₂ at *
      by_cases hq₁ : q₁.Unsettled (.stream terminated)
      · rw [settle_unsettled hq₁] at hcarried
        rw [scan_ok hcarried, ih hq₁ hrest, settle_append]
        cases q'.settle json (.stream terminated) out₂ <;> rfl
      · obtain ⟨rfl, rfl, hspaces⟩ := scan_settled hq₁ hrest
        rw [List.append_nil]
        rcases settle_settled hq₁ out₁ with ⟨more, hsettle⟩ | ⟨e, hsettle, hmodel⟩
        · rw [scan_ok (hcarried.trans hsettle), scan_outside_carried hspaces, hsettle,
            List.append_nil]
        · rw [scan_error (hcarried.trans hsettle), hsettle, step_whole hstep hmodel]

end Scan

/-! ### Reads follow the scanner -/

theorem Scan.Rests.unsettled {q : Scan σ ν} (h : q.Rests json carrier) : q.Unsettled carrier := by
  cases q <;> first | exact h | trivial

/-- A message that goes on is not finished. -/
theorem finish_rests {q : Scan σ ν} {terminated : Bool} (store : Store α)
    (h : q.Rests json (.stream terminated)) :
    (q.reader json (.stream terminated) store).finish json = .error .needMore := by
  cases q with
  | whole model =>
    cases terminated with
    | false => exact absurd rfl h
    | true => rfl
  | finished model => exact absurd h id
  | closed => cases h
  | batched first state => cases first <;> cases terminated <;> rfl
  | _ => cases terminated <;> rfl

/-- A singleton that is complete is converted. -/
theorem finish_single {reader : Reader σ ν α} {model : ν}
    (hbatch : (reader.closed || reader.opened || reader.value.batch) = false)
    (hchanged : reader.value.changed = false) (hdocument : reader.document = .parsed model)
    (hdone : reader.done = true) :
    (reader.finish json).map Reader.value = toRequest json {} model := by
  have hflags : toRequest json reader.value model = toRequest json {} model := by
    rw [Bool.or_eq_false_iff] at hbatch
    rw [toRequest_flags, hbatch.2, hchanged]
  have hfinish : reader.baseFinish json
      = .ok ({ reader with document := .parsing json.start }, model) := by
    simp [Reader.baseFinish, hdone, hdocument]
  unfold Reader.finish
  rw [hbatch, Bool.false_and, if_neg Bool.false_ne_true, hfinish]
  dsimp only
  rw [hflags]
  cases toRequest json {} model <;> rfl

theorem finish_ends {q : Scan σ ν} {terminated : Bool} (store : Store α)
    (h : q.Ends (.stream terminated)) : ∃ model,
      (∀ out : List (Event α), q.settle json (.stream terminated) out = Scan.release json model out) ∧
      ((q.reader json (.stream terminated) store).finish json).map Reader.value
        = toRequest json {} model := by
  cases q with
  | whole model =>
    cases h
    exact ⟨model, fun _ => rfl, finish_single rfl rfl rfl rfl⟩
  | finished model =>
    cases h
    exact ⟨model, fun _ => rfl, finish_single rfl rfl rfl rfl⟩
  | _ => exact absurd h id

/-- A read takes what the scanner takes, and delivers its outputs. -/
theorem Taken.read {left : ℕ} {q : Scan σ ν} {text : Text} {put : Put σ ν α}
    (hq : q.Unsettled carrier) (h : Taken json carrier left q text put) :
    (∃ (size : ℕ) (out : List (Event α)) (s' : Scan σ ν) (store : Store α),
      Reader.read json carrier text put = .took (s'.reader json carrier store) size out ∧
      0 < size ∧ size ≤ text.length ∧
      scan (Scan.carried json carrier) q (text.take size) = (out, .ok s') ∧
      store.Fits (text.length - size + left) ∧ s'.Rests json carrier) ∨
    ∃ e size, Reader.read json carrier text put = .failed e ∧
      scan (Scan.carried json carrier) q (text.take size) = ([], .error e) := by
  have hsize {taken rest : Text} (hsplit : text = taken ++ rest) :
      text.length - rest.length = taken.length ∧ text.take taken.length = taken ∧
        taken.length ≤ text.length ∧ text.length - taken.length = rest.length := by
    rw [hsplit, List.length_append, List.take_left]
    exact ⟨by omega, rfl, by omega, by omega⟩
  cases h with
  | @quiet q' taken rest store' split ne rests fits takes =>
    obtain ⟨hrest, htake, hle, hleft⟩ := hsize split
    have hpos : 0 < taken.length := List.length_pos_iff.mpr ne
    have hcarried := Scan.scan_carried hq takes
    rcases carrier with _ | terminated
    · have hrests : q'.Rests json .body := by
        rcases rests with h | h
        · exact h
        · cases q' <;> first | cases h | exact absurd h id
      refine .inl ⟨taken.length, [], q', store', ?_, hpos, hle, ?_, hleft ▸ fits, hrests⟩
      · unfold Reader.read
        rw [hrest]
      · rw [htake, hcarried]
        rfl
    · rcases rests with hrests | hends
      · rw [Scan.settle_unsettled hrests.unsettled] at hcarried
        refine .inl ⟨taken.length, [], q', store', ?_, hpos, hle, ?_, hleft ▸ fits, hrests⟩
        · unfold Reader.read
          dsimp only
          rw [hrest, finish_rests store' hrests, if_neg hpos.ne']
        · rw [htake, hcarried]
      · obtain ⟨model, hsettle, hfinish⟩ := @finish_ends _ _ _ json q' terminated store' hends
        rw [hsettle, Scan.release] at hcarried
        cases hf : (q'.reader json (.stream terminated) store').finish json with
        | error e =>
          rw [hf] at hfinish
          rw [← hfinish] at hcarried
          refine .inr ⟨e, taken.length, ?_, ?_⟩
          · have hne := (toRequest_error hfinish.symm).2
            unfold Reader.read
            dsimp only
            rw [hrest, if_neg hpos.ne', hf]
            cases e <;> first | rfl | exact absurd rfl hne
          · rw [htake]
            exact hcarried
        | ok reader =>
          rw [hf] at hfinish
          rw [← hfinish] at hcarried
          refine .inl ⟨taken.length, [.element reader.value], .outside, {}, ?_, hpos, hle, ?_,
            .inl rfl, trivial⟩
          · unfold Reader.read
            dsimp only
            rw [hrest, if_neg hpos.ne', hf]
            rfl
          · rw [htake]
            exact hcarried
  | @element taken rest store' opened value split ne fits keeps unclosed takes =>
    obtain ⟨hrest, htake, hle, hleft⟩ := hsize split
    have hpos : 0 < taken.length := List.length_pos_iff.mpr ne
    have hcarried := Scan.scan_carried hq takes
    rw [Scan.settle_unsettled (q := .between) trivial] at hcarried
    have hread : Reader.read json carrier text
        ⟨{ Scan.reader json carrier store' .between with
          opened := opened, delivered := true, value := value }, rest, some .needBuffer⟩
        = .took (Reader.advanced json carrier { Scan.reader json carrier store' .between with
          opened := opened, delivered := true, value := value }) taken.length [.element value] := by
      unfold Reader.read
      dsimp only
      rw [hrest, if_neg (by simp [unclosed])]
    rcases carrier with _ | terminated
    · refine .inl ⟨taken.length, [.element value], .between, { store' with
        message := value.message, laxParams := value.laxParams, laxBatch := value.laxBatch }, ?_,
        hpos, hle, ?_, hleft ▸ fits, trivial⟩
      · rw [hread]
        have hopened : opened = true := keeps rfl
        subst hopened
        rfl
      · rw [htake, hcarried]
    · refine .inl ⟨taken.length, [.element value], .between, {}, hread, hpos, hle, ?_, .inl rfl, trivial⟩
      rw [htake, hcarried]
  | @close taken rest store' split ne fits takes =>
    obtain ⟨hrest, htake, hle, hleft⟩ := hsize split
    have hpos : 0 < taken.length := List.length_pos_iff.mpr ne
    have hcarried := Scan.scan_carried hq takes
    have hread : Reader.read json carrier text
        ⟨Scan.reader json carrier store' .closed, rest, some .needBuffer⟩
        = .took (Reader.dropped json carrier (Scan.reader json carrier store' .closed)) taken.length
          [.close] := by
      unfold Reader.read
      dsimp only
      rw [hrest]
      exact if_pos rfl
    rcases carrier with _ | terminated
    · refine .inl ⟨taken.length, [.close], .closed, store', hread, hpos, hle, ?_, hleft ▸ fits, rfl⟩
      rw [htake, hcarried]
      rfl
    · refine .inl ⟨taken.length, [.close], .outside, {}, hread, hpos, hle, ?_, .inl rfl, trivial⟩
      rw [htake, hcarried]
      rfl
  | @refused reader e q' front rest left' c split ne unsettled takes refuses =>
    refine .inr ⟨e, front.length + 1, ?_, ?_⟩
    · cases e <;> first | rfl | exact absurd rfl ne
    · have htake : text.take (front.length + 1) = front ++ [c] := by
        rw [split, List.take_append, List.take_of_length_le (Nat.le_succ _), Nat.add_sub_cancel_left]
        rfl
      have hcarried := Scan.scan_carried hq takes
      rw [Scan.settle_unsettled unsettled] at hcarried
      rw [htake, scan_append hcarried, scan_error]
      · rfl
      · unfold Scan.carried
        rw [refuses]

/-- The reader is in a state of the scanner, and what is to come is within the limit. -/
def Rep (json : Json σ ν α) (carrier : Carrier) (t : Reader σ ν α) (q : Scan σ ν) (rest : Text) :
    Prop :=
  ∃ store : Store α, t = q.reader json carrier store ∧ store.Fits rest.length ∧ q.Rests json carrier

theorem turn_follows (hbracketed : carrier.terminated = true → json.Bracketed) :
    Follows (Reader.turn json carrier) (Scan.carried json carrier) (Rep json carrier) where
  took := by
    rintro t s data rest t' size out ⟨store, rfl, hfits, hrests⟩ hne hturn
    rw [List.length_append] at hfits
    rcases (put_taken hrests hbracketed hne hfits).read hrests.unsettled with
      ⟨size', out', s', store', hread, hpos, hle, hscan, hfits', hrests'⟩ | ⟨e, _, hread, _⟩
    · cases hread.symm.trans hturn
      refine ⟨hpos, hle, s', hscan, store', rfl, ?_, hrests'⟩
      rwa [List.length_append, List.length_drop]
    · cases hread.symm.trans hturn
  failed := by
    rintro t s data rest e ⟨store, rfl, hfits, hrests⟩ hne hturn
    rw [List.length_append] at hfits
    rcases (put_taken hrests hbracketed hne hfits).read hrests.unsettled with
      ⟨_, _, _, _, hread, _⟩ | ⟨e', size, hread, hscan⟩
    · cases hread.symm.trans hturn
    · cases hread.symm.trans hturn
      exact ⟨size, hscan⟩

/-! ### A parser -/

/-- Objects by their braces, each of which is a request. -/
def braces : Json ℕ Unit ℕ where
  start := 0
  write depth c :=
    if c = 123 then .more (depth + 1)
    else if c = closeBrace then if depth ≤ 1 then .done () else .more (depth - 1)
    else if depth = 0 then .fail 0
    else .more depth
  takesSpaces := true
  valueTo _ := .ok { jsonrpc := .v2, method := "m" }

/-- The end of a body is that of the scanner. -/
theorem ended_conclude {q : Scan σ ν} (store : Store α) (h : q.Rests json .body) :
    (q.reader json .body store).ended json = q.conclude json := by
  cases q with
  | whole model =>
    have hfinish := @finish_single _ _ _ json (Scan.reader json .body store (.whole model)) model
      rfl rfl rfl rfl
    unfold Reader.ended Scan.conclude
    dsimp only
    cases hf : (Scan.reader json .body store (.whole model)).finish json with
    | error e =>
      rw [hf] at hfinish
      rw [← hfinish]
      rfl
    | ok reader =>
      rw [hf] at hfinish
      have hflags := toRequest_ok hfinish.symm
      rw [← hfinish]
      dsimp only [Except.map]
      rw [if_neg (by rw [hflags.1]; simp)]
  | finished model => exact absurd h id
  | closing => cases h
  | batched first state => cases first <;> rfl
  | _ => rfl

/-- A body is accepted with what the scanner and the end of the body deliver. -/
theorem body_iff {text : Text} {events : List (Event α)} :
    Body json text events ↔ ∃ q delivered last,
      scan (Scan.step json false) .outside text = (delivered, .ok q) ∧
        q.conclude json = .ok last ∧ events = delivered ++ last := by
  constructor
  · rintro ⟨t, z, ht, hz, rfl⟩
    cases ht with
    | @singleton a m z' model value ha hm hv hz' =>
      rw [show z' = [] from hz', List.append_nil]
      refine ⟨.whole model, [], [.element value], ?_, ?_, rfl⟩
      · exact (Partial.whole ha hm hz (by simp)).scan
      · rw [Scan.conclude, hv]
    | @batch a t z' events ha ht hz' =>
      refine ⟨.closed, events ++ [.close], [], ?_, rfl, (List.append_nil _).symm⟩
      have hscan := (@Partial.closed _ _ _ json false _ _ _ _ _ ha ht hz' hz).scan
      simpa using hscan
  · rintro ⟨q, delivered, last, hscan, hend, rfl⟩
    cases Scan.partial_of_scan hscan with
    | @whole a m b model ha hm hb _ =>
      rw [Scan.conclude] at hend
      split at hend
      · cases hend
      · next value hv =>
        cases hend
        refine ⟨a ++ m, b, ?_, hb, rfl⟩
        have hrequest := @Request.singleton _ _ _ json false _ _ _ _ _ ha hm hv rfl
        rwa [List.append_nil] at hrequest
    | @closed a t z b events ha ht hz hb =>
      cases hend
      refine ⟨a ++ openBracket :: (t ++ closeBracket :: z), b, ?_, hb, ?_⟩
      · rw [List.append_nil]
        exact .batch ha ht hz
      · simp
    | _ => cases hend

/-- What the reads of a body come to, however it is cut. -/
def scanBody (json : Json σ ν α) (text : Text) : Except RpcError (List (Event α)) :=
  match scan (Scan.step json false) .outside text with
  | (_, .error e) => .error e
  | (delivered, .ok q) =>
    match q.conclude json with
    | .error e => .error e
    | .ok last => .ok (delivered ++ last)

theorem scanBody_iff {text : Text} {events : List (Event α)} :
    scanBody json text = .ok events ↔ Body json text events := by
  rw [body_iff]
  unfold scanBody
  obtain ⟨delivered, result⟩ := scan (Scan.step json false) .outside text
  cases result with
  | error e =>
    refine ⟨fun h => (by cases h), ?_⟩
    rintro ⟨q, _, _, h, _⟩
    cases h
  | ok q =>
    dsimp only
    constructor
    · intro h
      cases hend : q.conclude json with
      | error e =>
        rw [hend] at h
        cases h
      | ok last =>
        rw [hend] at h
        cases h
        exact ⟨q, delivered, last, rfl, hend, rfl⟩
    · rintro ⟨q', delivered', last, h, hend, rfl⟩
      cases h
      rw [hend]

theorem readBody_scan {length : Option ℕ} {text : Text} (hlength : ∀ n ∈ length, text.length ≤ n)
    {offers : List ℕ} (henough : Enough text offers) :
    readBody json length text offers = scanBody json text := by
  have hrep : Rep json .body (Reader.new json false length false) .outside text := by
    refine ⟨{ expected := length.getD maxSize }, rfl, ?_, trivial⟩
    cases length with
    | none => exact .inl rfl
    | some n => exact .inr (by simpa using hlength n rfl)
  have hfollows := @turn_follows _ _ _ json .body fun h => by cases h
  unfold readBody scanBody
  rw [← Scan.carried_body]
  rcases hfollows.drive_scan hrep henough with ⟨t', q, hstate, _, ⟨store, rfl, _, hrests⟩, hscan⟩ |
    ⟨e, hstate, hscan⟩
  · dsimp only
    rw [hstate, hscan]
    dsimp only
    rw [ended_conclude store hrests]
  · dsimp only
    rw [hstate, hscan]

/-- The body of an http message is read as a request or a batch of them, with whitespace between
the tokens and nothing else, and its elements and the close of the batch are delivered in their
order. That, and the error of another body, do not depend on how its characters arrive. -/
theorem http_body_exact (length : Option ℕ) (text : Text) (hlength : ∀ n ∈ length, text.length ≤ n) :
    ∃ result, (∀ offers, Enough text offers → readBody json length text offers = result) ∧
      ∀ events, result = .ok events ↔ Body json text events :=
  ⟨scanBody json text, fun _ h => readBody_scan hlength h, fun _ => scanBody_iff⟩

theorem http_body_exact_batch : ∃ result,
    (∀ offers, Enough [91, 123, 125, 44, 123, 125, 93] offers →
      readBody braces (some 7) [91, 123, 125, 44, 123, 125, 93] offers = result) ∧
    ∀ events, result = .ok events ↔ Body braces [91, 123, 125, 44, 123, 125, 93] events :=
  http_body_exact (some 7) [91, 123, 125, 44, 123, 125, 93] fun n h => by
    cases h
    decide

/-! ### Streams -/

section Streams
variable {terminated : Bool}

theorem Scan.release_ok {model : ν} {q : Scan σ ν} {front out : List (Event α)}
    (h : release json model front = .ok (q, out)) : q = .outside ∧
      ∃ value, toRequest json {} model = .ok value ∧ out = front ++ [.element value] := by
  unfold release at h
  split at h
  · cases h
  · next value hvalue =>
    cases h
    exact ⟨rfl, value, hvalue, rfl⟩

theorem Scan.scan_message {q s : Scan σ ν} {text : Text} {out o : List (Event α)}
    (h : Incremental.scan (step json carrier.terminated) .outside text = (out, .ok q))
    (hsettle : q.settle json carrier out = .ok (s, o)) :
    Incremental.scan (carried json carrier) .outside text = (o, .ok s) := by
  rw [@scan_carried _ _ _ json carrier .outside q trivial text out h, hsettle]

/-- A message of a stream is read to its end, where the scanner is outside. -/
theorem Request.carried {text : Text} {events : List (Event α)}
    (h : Request json terminated text events) :
    scan (Scan.carried json (.stream terminated)) .outside text = (events, .ok .outside) := by
  cases h with
  | @singleton a m z model value ha hm hv hz =>
    have hrelease : (Scan.release json model [] : Except RpcError (Scan σ ν × _))
        = .ok (.outside, [.element value]) := by
      rw [Scan.release, hv]
      rfl
    cases terminated with
    | false =>
      have hpart := (@Partial.whole _ _ _ json false a m [] model ha hm spaces_nil
        fun h => by cases h).scan
      rw [show z = [] from hz]
      exact Scan.scan_message hpart hrelease
    | true =>
      have hpart := (@Partial.finished _ _ _ json true a m z [] model ha hm rfl hz spaces_nil).scan
      rw [List.append_nil] at hpart
      exact Scan.scan_message hpart hrelease
  | @batch a t z events ha ht hz =>
    have hpart := (@Partial.closed _ _ _ json terminated a t z [] events ha ht hz spaces_nil).scan
    rw [List.append_nil] at hpart
    exact Scan.scan_message hpart rfl

theorem Stream.scan {q : Scan σ ν} {text : Text} {events : List (Event α)}
    (h : Stream json terminated q text events) :
    Incremental.scan (Scan.carried json (.stream terminated)) .outside text = (events, .ok q) := by
  induction h with
  | last unsettled part => exact Scan.scan_message part.scan (Scan.settle_unsettled unsettled _)
  | next request _ ih => rw [scan_append request.carried, ih]

/-- The last character of a message. -/
theorem Partial.request {q q₁ q' : Scan σ ν} {text : Text} {events out₁ out : List (Event α)}
    {c : UInt8} (h : Partial json terminated q text events)
    (hq : q.Unsettled (.stream terminated)) (hstep : q.step json terminated c = .ok (q₁, out₁))
    (hq₁ : ¬ q₁.Unsettled (.stream terminated))
    (hsettle : q₁.settle json (.stream terminated) out₁ = .ok (q', out)) :
    q' = .outside ∧ Request json terminated (text ++ [c]) (events ++ out) := by
  have hsingle {a m : Text} {state : σ} (ha : Spaces a) (hopens : Opens (m ++ [c]))
      (hrun : run json json.start m = some state)
      (hfeed : Scan.feed json .single (fun model => .ok (.whole model, [])) state c = .ok (q₁, out₁)) :
      q' = .outside ∧ Request json terminated (a ++ (m ++ [c])) out := by
    rcases Scan.feed_cases hopens hrun hfeed with ⟨next, rfl, rfl, _⟩ | ⟨model, hm, hcomplete⟩
    · exact absurd trivial hq₁
    · cases hcomplete
      cases not_not.mp hq₁
      obtain ⟨rfl, value, hv, rfl⟩ := Scan.release_ok hsettle
      have hrequest := @Request.singleton _ _ _ json false _ _ _ _ _ ha hm hv rfl
      rw [List.append_nil] at hrequest
      exact ⟨rfl, hrequest⟩
  have hbatched {first : Bool} {state : σ} (hfeed : Scan.feed json (.batched first)
      (Scan.deliver json first) state c = .ok (q₁, out₁)) : False := by
    unfold Scan.feed at hfeed
    split at hfeed
    · cases hfeed
      exact hq₁ trivial
    · rw [(Scan.deliver_ok hfeed).1] at hq₁
      exact hq₁ trivial
    · cases hfeed
  cases h with
  | outside ha =>
    dsimp only [Scan.step] at hstep
    split_ifs at hstep with hw ho hcomma
    · cases hstep
      exact absurd trivial hq₁
    · cases hstep
      exact absurd trivial hq₁
    · rw [not_or] at hcomma
      exact hsingle (m := []) ha (opens_single hw ho hcomma.1 hcomma.2) rfl hstep
  | single ha hm =>
    rw [List.append_assoc]
    exact hsingle ha (hm.1.append [c]) hm.2 hstep
  | @whole a m b model ha hm hb hline =>
    dsimp only [Scan.step] at hstep
    split_ifs at hstep with hend hw
    · cases hstep
      obtain ⟨rfl, value, hv, rfl⟩ := Scan.release_ok hsettle
      have hz : Ending terminated (b ++ [c]) := by
        rw [hend.1, eq_of_beq hend.2]
        exact ⟨_, hb, hline hend.1, rfl⟩
      have hrequest := @Request.singleton _ _ _ json terminated _ _ _ _ _ ha hm hv hz
      rw [← List.append_assoc] at hrequest
      exact ⟨rfl, hrequest⟩
    · cases hstep
      exact absurd hq hq₁
  | finished => exact absurd hq id
  | opened ha hb =>
    dsimp only [Scan.step] at hstep
    split_ifs at hstep
    · cases hstep
      exact absurd trivial hq₁
    · exact absurd hstep hbatched
  | first ha hb hm => exact absurd hstep hbatched
  | between ha ht =>
    dsimp only [Scan.step] at hstep
    split_ifs at hstep with hw hcomma hclose hterminated
    · cases hstep
      exact absurd trivial hq₁
    · cases hstep
      exact absurd trivial hq₁
    · cases hstep
      exact absurd trivial hq₁
    · cases hstep
      cases hsettle
      have hz : Ending terminated [] := by
        rw [Bool.eq_false_iff.mpr hterminated]
        rfl
      rw [hclose, List.append_assoc]
      exact ⟨rfl, .batch ha ht hz⟩
  | separated ha ht hb =>
    dsimp only [Scan.step] at hstep
    split_ifs at hstep
    · cases hstep
      exact absurd trivial hq₁
    · exact absurd hstep hbatched
  | next ha ht hb hm => exact absurd hstep hbatched
  | @closing a t b events ha ht hb hterminated hline =>
    dsimp only [Scan.step] at hstep
    split_ifs at hstep with hend hw
    · cases hstep
      cases hsettle
      have hz : Ending terminated (b ++ [c]) := by
        rw [hterminated, eq_of_beq hend]
        exact ⟨_, hb, hline, rfl⟩
      rw [List.append_assoc, List.cons_append, List.append_assoc]
      exact ⟨rfl, .batch ha ht hz⟩
    · cases hstep
      exact absurd trivial hq₁
  | closed => cases hq

theorem Stream.of_eq {q : Scan σ ν} {t t' : Text} {events events' : List (Event α)}
    (h : Stream json terminated q t events) (ht : t' = t) (hevents : events' = events) :
    Stream json terminated q t' events' := by
  rw [ht, hevents]
  exact h

theorem Stream.snoc {q q' : Scan σ ν} {text : Text} {events out : List (Event α)} {c : UInt8}
    (h : Stream json terminated q text events)
    (hstep : q.carried json (.stream terminated) c = .ok (q', out)) :
    Stream json terminated q' (text ++ [c]) (events ++ out) := by
  induction h with
  | next request _ ih =>
    rw [List.append_assoc, List.append_assoc]
    exact .next request ih
  | @last text events unsettled part =>
    unfold Scan.carried at hstep
    split at hstep
    · cases hstep
    · next q₁ out₁ hq₁ =>
      by_cases hsettled : q₁.Unsettled (.stream terminated)
      · rw [Scan.settle_unsettled hsettled] at hstep
        cases hstep
        exact .last hsettled (part.step hq₁)
      · obtain ⟨rfl, request⟩ := part.request unsettled hq₁ hsettled hstep
        have hnext := Stream.next request (.last (q := .outside) trivial (.outside spaces_nil))
        exact hnext.of_eq (List.append_nil _).symm (List.append_nil _).symm

end Streams

end BitcoinNetwork.Rpc
