import BitcoinNetwork.Incremental.Offers
import BitcoinNetwork.Rpc.Reader

/-!
# Messages of a json-rpc stream

A message is one element, or a batch of elements between brackets, separated by
commas. A scanner reads a message one character at a time, and `Partial` says what it
has read of it in each of its states (`scan_partial`, `Partial.scan`).
-/

namespace BitcoinNetwork.Rpc
open Incremental (scan scan_append scan_keeps scan_stays scan_single scan_ok scan_quiet)

variable {σ ν α : Type} (json : Json σ ν α)

/-- What the proxy makes of a read: a request for the channel, or the absorbed close. -/
inductive Event (α : Type) where
  | element (value : Value α)
  | close
  deriving DecidableEq, Repr

/-- The value of a batched element, the first of which has the open mark. -/
def batchedRequest (first : Bool) (model : ν) : Except RpcError (Value α) :=
  match toRequest json { batch := !first, changed := first } model with
  | .error e => .error e
  | .ok value => .ok { value with laxBatch := value.message.jsonrpc == .v1 }

/-! ### The scanner -/

inductive Scan (σ ν : Type) where
  | outside
  | opened
  | single (state : σ)
  | whole (model : ν)
  | finished (model : ν)
  | batched (first : Bool) (state : σ)
  | between
  | separated
  | closing
  | closed

namespace Scan

/-- A character of an element. -/
def feed (wrap : σ → Scan σ ν) (complete : ν → Except RpcError (Scan σ ν × List (Event α)))
    (state : σ) (c : UInt8) : Except RpcError (Scan σ ν × List (Event α)) :=
  match json.write state c with
  | .more next => .ok (wrap next, [])
  | .done model => complete model
  | .fail code => .error (.json code)

def deliver (first : Bool) (model : ν) : Except RpcError (Scan σ ν × List (Event α)) :=
  match batchedRequest json first model with
  | .error e => .error e
  | .ok value => .ok (.between, [.element value])

def step (terminated : Bool) (q : Scan σ ν) (c : UInt8) :
    Except RpcError (Scan σ ν × List (Event α)) :=
  match q with
  | .outside =>
    if isJsonWhitespace c then .ok (.outside, [])
    else if c = openBracket then .ok (.opened, [])
    else if c = comma ∨ c = closeBracket then .error .batchMalformed
    else feed json .single (fun model => .ok (.whole model, [])) json.start c
  | .opened =>
    if isJsonWhitespace c then .ok (.opened, [])
    else if c = closeBracket then .error .batchEmpty
    else if c = openBracket ∨ c = comma then .error .batchMalformed
    else feed json (.batched true) (deliver json true) json.start c
  | .single state => feed json .single (fun model => .ok (.whole model, [])) state c
  | .whole model =>
    if terminated ∧ isElectrumTerminator c then .ok (.finished model, [])
    else if isJsonWhitespace c then .ok (.whole model, [])
    else .error .readerStall
  | .finished model =>
    if isJsonWhitespace c then .ok (.finished model, []) else .error .readerStall
  | .batched first state => feed json (.batched first) (deliver json first) state c
  | .between =>
    if isJsonWhitespace c then .ok (.between, [])
    else if c = comma then .ok (.separated, [])
    else if c = closeBracket then
      if terminated then .ok (.closing, []) else .ok (.closed, [.close])
    else .error .batchMalformed
  | .separated =>
    if isJsonWhitespace c then .ok (.separated, [])
    else if c = openBracket ∨ c = comma ∨ c = closeBracket then .error .batchMalformed
    else feed json (.batched false) (deliver json false) json.start c
  | .closing =>
    if isElectrumTerminator c then .ok (.closed, [.close])
    else if isJsonWhitespace c then .ok (.closing, [])
    else .error .readerStall
  | .closed => if isJsonWhitespace c then .ok (.closed, []) else .error .batchMalformed

end Scan

/-! ### The grammar -/

/-- The parser has taken the text and wants more. -/
def run : σ → Text → Option σ
  | state, [] => some state
  | state, c :: text =>
    match json.write state c with
    | .more next => run next text
    | .done _ => none
    | .fail _ => none

/-- An element starts with a character that is not a delimiter of a batch. -/
def Opens (text : Text) : Prop :=
  ∃ c rest, text = c :: rest ∧ isJsonWhitespace c = false ∧ c ≠ openBracket ∧ c ≠ comma ∧
    c ≠ closeBracket

/-- The start of an element. -/
def Begun (text : Text) (state : σ) : Prop := Opens text ∧ run json json.start text = some state

/-- An element: the parser is done with its last character. -/
def Element (text : Text) (model : ν) : Prop :=
  Opens text ∧ ∃ body c state, text = body ++ [c] ∧ run json json.start body = some state ∧
    json.write state c = .done model

def Spaces (text : Text) : Prop := ∀ c ∈ text, isJsonWhitespace c = true

/-- The elements of a batch with the separators between them. -/
inductive Items : Text → List (Event α) → Prop where
  | one {a m b model value} (ha : Spaces a) (hm : Element json m model)
      (hv : batchedRequest json true model = .ok value) (hb : Spaces b) :
      Items (a ++ m ++ b) [.element value]
  | next {t a m b model value events} (ht : Items t events) (ha : Spaces a)
      (hm : Element json m model) (hv : batchedRequest json false model = .ok value)
      (hb : Spaces b) :
      Items (t ++ comma :: (a ++ m ++ b)) (events ++ [.element value])

/-- What ends a message: nothing, or a line that whitespace may be in front of. -/
def Ending (terminated : Bool) (text : Text) : Prop :=
  match terminated with
  | false => text = []
  | true => ∃ a, Spaces a ∧ line ∉ a ∧ text = a ++ [line]

/-- A message, and what the channel is delivered for it. -/
inductive Request (terminated : Bool) : Text → List (Event α) → Prop where
  | singleton {a m z model value} (ha : Spaces a) (hm : Element json m model)
      (hv : toRequest json {} model = .ok value) (hz : Ending terminated z) :
      Request terminated (a ++ m ++ z) [.element value]
  | batch {a t z events} (ha : Spaces a) (ht : Items json t events)
      (hz : Ending terminated z) :
      Request terminated (a ++ openBracket :: (t ++ closeBracket :: z)) (events ++ [.close])

/-- What has been read of a message in each state of the scanner. -/
inductive Partial (terminated : Bool) : Scan σ ν → Text → List (Event α) → Prop where
  | outside {a} (ha : Spaces a) : Partial terminated .outside a []
  | opened {a b} (ha : Spaces a) (hb : Spaces b) :
      Partial terminated .opened (a ++ openBracket :: b) []
  | single {a m state} (ha : Spaces a) (hm : Begun json m state) :
      Partial terminated (.single state) (a ++ m) []
  | whole {a m b model} (ha : Spaces a) (hm : Element json m model) (hb : Spaces b)
      (hline : terminated = true → line ∉ b) : Partial terminated (.whole model) (a ++ m ++ b) []
  | finished {a m z b model} (ha : Spaces a) (hm : Element json m model)
      (hterminated : terminated = true) (hz : Ending terminated z) (hb : Spaces b) :
      Partial terminated (.finished model) (a ++ m ++ (z ++ b)) []
  | first {a b m state} (ha : Spaces a) (hb : Spaces b) (hm : Begun json m state) :
      Partial terminated (.batched true state) (a ++ openBracket :: (b ++ m)) []
  | between {a t events} (ha : Spaces a) (ht : Items json t events) :
      Partial terminated .between (a ++ openBracket :: t) events
  | separated {a t b events} (ha : Spaces a) (ht : Items json t events) (hb : Spaces b) :
      Partial terminated .separated (a ++ openBracket :: (t ++ comma :: b)) events
  | next {a t b m state events} (ha : Spaces a) (ht : Items json t events) (hb : Spaces b)
      (hm : Begun json m state) :
      Partial terminated (.batched false state) (a ++ openBracket :: (t ++ comma :: (b ++ m)))
        events
  | closing {a t b events} (ha : Spaces a) (ht : Items json t events) (hb : Spaces b)
      (hterminated : terminated = true) (hline : line ∉ b) :
      Partial terminated .closing (a ++ openBracket :: (t ++ closeBracket :: b)) events
  | closed {a t z b events} (ha : Spaces a) (ht : Items json t events)
      (hz : Ending terminated z) (hb : Spaces b) :
      Partial terminated .closed (a ++ openBracket :: (t ++ closeBracket :: (z ++ b)))
        (events ++ [.close])

/-! ### Texts -/

variable {json}

theorem spaces_nil : Spaces [] := fun _ h => absurd h List.not_mem_nil

theorem Spaces.snoc {a : Text} {c : UInt8} (ha : Spaces a) (hc : isJsonWhitespace c = true) :
    Spaces (a ++ [c]) := by
  intro b hb
  rcases List.mem_append.mp hb with hb | hb
  · exact ha b hb
  · rwa [List.mem_singleton.mp hb]

theorem Opens.append {text : Text} (h : Opens text) (x : Text) : Opens (text ++ x) := by
  obtain ⟨c, rest, rfl, hc⟩ := h
  exact ⟨c, rest ++ x, rfl, hc⟩

theorem run_append {state next : σ} {text : Text} (h : run json state text = some next)
    (x : Text) : run json state (text ++ x) = run json next x := by
  induction text generalizing state with
  | nil =>
    cases h
    rfl
  | cons c text ih =>
    rw [run] at h
    rw [List.cons_append, run]
    split at h
    · exact ih h
    · cases h
    · cases h

theorem Begun.nonempty {text : Text} {state : σ} (h : Begun json text state) : text ≠ [] := by
  obtain ⟨⟨c, rest, rfl, _⟩, _⟩ := h
  exact List.cons_ne_nil c rest

/-- A character of an element is taken by the parser, or ends the element. -/
theorem Scan.feed_cases {wrap : σ → Scan σ ν}
    {complete : ν → Except RpcError (Scan σ ν × List (Event α))} {state : σ} {c : UInt8}
    {q : Scan σ ν} {out : List (Event α)} {text : Text} (hopens : Opens (text ++ [c]))
    (hrun : run json json.start text = some state)
    (h : feed json wrap complete state c = .ok (q, out)) :
    (∃ next, q = wrap next ∧ out = [] ∧ Begun json (text ++ [c]) next) ∨
      ∃ model, Element json (text ++ [c]) model ∧ complete model = .ok (q, out) := by
  unfold feed at h
  split at h
  · next next hwrite =>
    cases h
    refine .inl ⟨next, rfl, rfl, hopens, ?_⟩
    rw [run_append hrun, run, hwrite]
    rfl
  · next model hwrite =>
    exact .inr ⟨model, ⟨hopens, text, c, state, rfl, hrun, hwrite⟩, h⟩
  · cases h

theorem Scan.deliver_ok {first : Bool} {model : ν} {q : Scan σ ν} {out : List (Event α)}
    (h : deliver json first model = .ok (q, out)) :
    q = .between ∧ ∃ value, batchedRequest json first model = .ok value ∧ out = [.element value] := by
  unfold deliver at h
  split at h
  · cases h
  · next value hvalue =>
    cases h
    exact ⟨rfl, value, hvalue, rfl⟩

theorem Partial.of_eq {terminated : Bool} {q : Scan σ ν} {t t' : Text} {events events' : List (Event α)}
    (h : Partial json terminated q t events) (ht : t' = t) (hevents : events' = events) :
    Partial json terminated q t' events' := by
  rw [ht, hevents]
  exact h

theorem opens_single {c : UInt8} (hw : ¬ isJsonWhitespace c = true) (ho : c ≠ openBracket)
    (hc : c ≠ comma) (hb : c ≠ closeBracket) : Opens [c] :=
  ⟨c, [], rfl, Bool.eq_false_iff.mpr hw, ho, hc, hb⟩

theorem spaces_line_snoc {b : Text} {c : UInt8} {terminated : Bool}
    (hline : terminated = true → line ∉ b)
    (hc : ¬ (terminated = true ∧ isElectrumTerminator c = true)) :
    terminated = true → line ∉ b ++ [c] := by
  intro ht hmem
  rcases List.mem_append.mp hmem with hmem | hmem
  · exact hline ht hmem
  · refine hc ⟨ht, ?_⟩
    rw [← List.mem_singleton.mp hmem]
    exact beq_self_eq_true line

/-! ### The scanner reads the grammar -/

/-- The first element of a batch is under way or complete. -/
theorem Partial.feed_first {terminated : Bool} {a b m : Text} {state : σ} {c : UInt8}
    {q : Scan σ ν} {out : List (Event α)} (ha : Spaces a) (hb : Spaces b)
    (hopens : Opens (m ++ [c])) (hrun : run json json.start m = some state)
    (h : Scan.feed json (.batched true) (Scan.deliver json true) state c = .ok (q, out)) :
    Partial json terminated q (a ++ openBracket :: (b ++ (m ++ [c]))) out := by
  rcases Scan.feed_cases hopens hrun h with ⟨next, rfl, rfl, hm⟩ | ⟨model, hm, hdeliver⟩
  · exact .first ha hb hm
  · obtain ⟨rfl, value, hvalue, rfl⟩ := Scan.deliver_ok hdeliver
    have hitems := Items.one hb hm hvalue spaces_nil
    rw [List.append_nil] at hitems
    exact .between ha hitems

/-- A later element of a batch is under way or complete. -/
theorem Partial.feed_next {terminated : Bool} {a t b m : Text} {state : σ} {c : UInt8}
    {q : Scan σ ν} {out events : List (Event α)} (ha : Spaces a) (ht : Items json t events)
    (hb : Spaces b) (hopens : Opens (m ++ [c])) (hrun : run json json.start m = some state)
    (h : Scan.feed json (.batched false) (Scan.deliver json false) state c = .ok (q, out)) :
    Partial json terminated q (a ++ openBracket :: (t ++ comma :: (b ++ (m ++ [c]))))
      (events ++ out) := by
  rcases Scan.feed_cases hopens hrun h with ⟨next, rfl, rfl, hm⟩ | ⟨model, hm, hdeliver⟩
  · exact (Partial.next ha ht hb hm).of_eq rfl (List.append_nil _)
  · obtain ⟨rfl, value, hvalue, rfl⟩ := Scan.deliver_ok hdeliver
    have hitems := Items.next ht hb hm hvalue spaces_nil
    rw [List.append_nil] at hitems
    exact .between ha hitems

/-- The element of a singleton is under way or complete. -/
theorem Partial.feed_single {terminated : Bool} {a m : Text} {state : σ} {c : UInt8}
    {q : Scan σ ν} {out : List (Event α)} (ha : Spaces a)
    (hopens : Opens (m ++ [c])) (hrun : run json json.start m = some state)
    (h : Scan.feed json .single (fun model => .ok (.whole model, [])) state c = .ok (q, out)) :
    Partial json terminated q (a ++ (m ++ [c])) out := by
  rcases Scan.feed_cases hopens hrun h with ⟨next, rfl, rfl, hm⟩ | ⟨model, hm, hwhole⟩
  · exact .single ha hm
  · cases hwhole
    have hwhole := @Partial.whole _ _ _ json terminated _ _ _ _ ha hm spaces_nil
      fun _ => List.not_mem_nil
    rwa [List.append_nil] at hwhole

theorem Items.snoc {t : Text} {events : List (Event α)} {c : UInt8} (h : Items json t events)
    (hc : isJsonWhitespace c = true) : Items json (t ++ [c]) events := by
  cases h with
  | one ha hm hv hb =>
    rw [List.append_assoc]
    exact .one ha hm hv (hb.snoc hc)
  | next ht ha hm hv hb =>
    rw [List.append_assoc, List.cons_append, List.append_assoc]
    exact .next ht ha hm hv (hb.snoc hc)

/-- Each character takes the description of the scanner's state to that of the next. -/
theorem Partial.step {terminated : Bool} {q q' : Scan σ ν} {text : Text}
    {events out : List (Event α)} {c : UInt8} (h : Partial json terminated q text events)
    (hstep : q.step json terminated c = .ok (q', out)) :
    Partial json terminated q' (text ++ [c]) (events ++ out) := by
  cases h with
  | outside ha =>
    dsimp only [Scan.step] at hstep
    split_ifs at hstep with hw ho hcomma
    · cases hstep
      exact .outside (ha.snoc hw)
    · cases hstep
      rw [ho]
      exact .opened ha spaces_nil
    · rw [not_or] at hcomma
      exact .feed_single (m := []) ha (opens_single hw ho hcomma.1 hcomma.2) rfl hstep
  | opened ha hb =>
    rw [List.append_assoc, List.cons_append]
    dsimp only [Scan.step] at hstep
    split_ifs at hstep with hw hclose ho
    · cases hstep
      exact .opened ha (hb.snoc hw)
    · rw [not_or] at ho
      exact .feed_first (m := []) ha hb (opens_single hw ho.1 ho.2 hclose) rfl hstep
  | single ha hm =>
    rw [List.append_assoc]
    exact .feed_single ha (hm.1.append [c]) hm.2 hstep
  | @whole a m b _ ha hm hb hline =>
    dsimp only [Scan.step] at hstep
    split_ifs at hstep with hend hw
    · cases hstep
      have hz : Ending terminated (b ++ [c]) := by
        rw [hend.1, eq_of_beq hend.2]
        exact ⟨_, hb, hline hend.1, rfl⟩
      refine (Partial.finished ha hm hend.1 hz spaces_nil).of_eq ?_ rfl
      rw [List.append_nil, List.append_assoc]
    · cases hstep
      rw [List.append_assoc]
      exact .whole ha hm (hb.snoc hw) (spaces_line_snoc hline hend)
  | finished ha hm hterminated hz hb =>
    dsimp only [Scan.step] at hstep
    split_ifs at hstep with hw
    cases hstep
    refine (Partial.finished ha hm hterminated hz (hb.snoc hw)).of_eq ?_ rfl
    rw [List.append_assoc, List.append_assoc, List.append_assoc, List.append_assoc]
  | first ha hb hm =>
    rw [List.append_assoc, List.cons_append, List.append_assoc]
    exact .feed_first ha hb (hm.1.append [c]) hm.2 hstep
  | between ha ht =>
    rw [List.append_assoc, List.cons_append]
    dsimp only [Scan.step] at hstep
    split_ifs at hstep with hw hcomma hclose hterminated
    · cases hstep
      rw [List.append_nil]
      exact .between ha (ht.snoc hw)
    · cases hstep
      rw [List.append_nil, hcomma]
      exact .separated ha ht spaces_nil
    · cases hstep
      rw [List.append_nil, hclose]
      exact .closing ha ht spaces_nil hterminated List.not_mem_nil
    · cases hstep
      rw [hclose]
      have hz : Ending terminated [] := by
        rw [Bool.eq_false_iff.mpr hterminated]
        rfl
      exact .closed ha ht hz spaces_nil
  | separated ha ht hb =>
    rw [List.append_assoc, List.cons_append, List.append_assoc, List.cons_append]
    dsimp only [Scan.step] at hstep
    split_ifs at hstep with hw hdelimiter
    · cases hstep
      rw [List.append_nil]
      exact .separated ha ht (hb.snoc hw)
    · rw [not_or, not_or] at hdelimiter
      exact .feed_next (m := []) ha ht hb
        (opens_single hw hdelimiter.1 hdelimiter.2.1 hdelimiter.2.2) rfl hstep
  | next ha ht hb hm =>
    rw [List.append_assoc, List.cons_append, List.append_assoc, List.cons_append,
      List.append_assoc]
    exact .feed_next ha ht hb (hm.1.append [c]) hm.2 hstep
  | @closing a t b _ ha ht hb hterminated hline =>
    rw [List.append_assoc, List.cons_append, List.append_assoc, List.cons_append]
    dsimp only [Scan.step] at hstep
    split_ifs at hstep with hend hw
    · cases hstep
      have hz : Ending terminated (b ++ [c]) := by
        rw [hterminated, eq_of_beq hend]
        exact ⟨_, hb, hline, rfl⟩
      exact (Partial.closed ha ht hz spaces_nil).of_eq (by rw [List.append_nil]) rfl
    · cases hstep
      rw [List.append_nil]
      have hnot : line ∉ b ++ [c] :=
        spaces_line_snoc (fun _ => hline) (fun h => hend h.2) hterminated
      exact .closing ha ht (hb.snoc hw) hterminated hnot
  | closed ha ht hz hb =>
    rw [List.append_assoc, List.cons_append, List.append_assoc, List.cons_append,
      List.append_assoc]
    dsimp only [Scan.step] at hstep
    split_ifs at hstep with hw
    cases hstep
    rw [List.append_nil]
    exact .closed ha ht hz (hb.snoc hw)

/-- The states of the scanner describe what it has read. -/
theorem Scan.partial_of_scan {terminated : Bool} {q : Scan σ ν} {text : Text}
    {events : List (Event α)}
    (h : scan (Scan.step json terminated) .outside text = (events, .ok q)) :
    Partial json terminated q text events :=
  scan_keeps (P := Partial json terminated) (fun hp hstep => hp.step hstep)
    (.outside spaces_nil) h

/-! ### What the grammar has, the scanner takes -/

/-- A state in which an element may start, and the states within the element. -/
structure Scan.Enters (json : Json σ ν α) (terminated : Bool) (q : Scan σ ν)
    (wrap : σ → Scan σ ν) (complete : ν → Except RpcError (Scan σ ν × List (Event α))) :
    Prop where
  opens : ∀ {c text}, Opens (c :: text) →
    q.step json terminated c = feed json wrap complete json.start c
  within : ∀ state c, (wrap state).step json terminated c = feed json wrap complete state c

theorem opens_cons {c : UInt8} {text : Text} (h : Opens (c :: text)) :
    isJsonWhitespace c = false ∧ c ≠ openBracket ∧ c ≠ comma ∧ c ≠ closeBracket := by
  obtain ⟨_, _, hcons, hc⟩ := h
  cases hcons
  exact hc

namespace Scan
variable {terminated : Bool} {q : Scan σ ν} {wrap : σ → Scan σ ν}
  {complete : ν → Except RpcError (Scan σ ν × List (Event α))}

theorem enters_outside : Enters json terminated .outside .single
    fun model => .ok (.whole model, []) where
  opens h := by
    obtain ⟨hw, ho, hcomma, hclose⟩ := opens_cons h
    simp only [step, hw, ho, hcomma, hclose, Bool.false_eq_true, or_self, if_false]
  within _ _ := rfl

theorem enters_opened : Enters json terminated .opened (.batched true) (deliver json true) where
  opens h := by
    obtain ⟨hw, ho, hcomma, hclose⟩ := opens_cons h
    simp only [step, hw, ho, hcomma, hclose, Bool.false_eq_true, or_self, if_false]
  within _ _ := rfl

theorem enters_separated :
    Enters json terminated .separated (.batched false) (deliver json false) where
  opens h := by
    obtain ⟨hw, ho, hcomma, hclose⟩ := opens_cons h
    simp only [step, hw, ho, hcomma, hclose, Bool.false_eq_true, or_self, if_false]
  within _ _ := rfl

theorem feed_more {state next : σ} {c : UInt8} (h : json.write state c = .more next) :
    feed json wrap complete state c = .ok (wrap next, []) := by
  rw [feed, h]

theorem feed_done {state : σ} {c : UInt8} {model : ν} (h : json.write state c = .done model) :
    feed json wrap complete state c = complete model := by
  rw [feed, h]

theorem scan_run (h : Enters json terminated q wrap complete) {state next : σ} {text : Text}
    (hrun : run json state text = some next) :
    scan (step json terminated) (wrap state) text = ([], .ok (wrap next)) := by
  induction text generalizing state with
  | nil =>
    cases hrun
    rfl
  | cons c text ih =>
    rw [run] at hrun
    split at hrun
    · next middle hwrite =>
      rw [scan_quiet ((h.within state c).trans (feed_more hwrite))]
      exact ih hrun
    · cases hrun
    · cases hrun

theorem scan_begun (h : Enters json terminated q wrap complete) {text : Text} {state : σ}
    (hbegun : Begun json text state) :
    scan (step json terminated) q text = ([], .ok (wrap state)) := by
  obtain ⟨hopens, hrun⟩ := hbegun
  cases text with
  | nil => exact absurd rfl (Begun.nonempty ⟨hopens, hrun⟩)
  | cons c text =>
    rw [run] at hrun
    split at hrun
    · next middle hwrite =>
      rw [scan_quiet ((h.opens hopens).trans (feed_more hwrite))]
      exact scan_run h hrun
    · cases hrun
    · cases hrun

theorem scan_element (h : Enters json terminated q wrap complete) {text : Text} {model : ν}
    (helement : Element json text model) {q' : Scan σ ν} {out : List (Event α)}
    (hcomplete : complete model = .ok (q', out)) :
    scan (step json terminated) q text = (out, .ok q') := by
  obtain ⟨hopens, body, c, state, rfl, hrun, hwrite⟩ := helement
  cases body with
  | nil =>
    cases hrun
    exact scan_single (((h.opens hopens).trans (feed_done hwrite)).trans hcomplete)
  | cons b body =>
    have hopens' : Opens (b :: body) := ⟨b, body, rfl, opens_cons hopens⟩
    rw [scan_append (scan_begun h ⟨hopens', hrun⟩),
      scan_single (((h.within state c).trans (feed_done hwrite)).trans hcomplete)]
    rfl

/-- States that stay as they are over whitespace. -/
theorem scan_spaces {text : Text} (h : Spaces text)
    (hq : ∀ c, isJsonWhitespace c = true → c ∈ text → q.step json terminated c = .ok (q, [])) :
    scan (step json terminated) q text = ([], .ok q) :=
  scan_stays fun c hc => hq c (h c hc) hc

/-- A scan goes on from where another ended. -/
theorem scan_trans {text more : Text} {q' q'' : Scan σ ν} {out out' : List (Event α)}
    (h : scan (step json terminated) q text = (out, .ok q'))
    (h' : scan (step json terminated) q' more = (out', .ok q'')) :
    scan (step json terminated) q (text ++ more) = (out ++ out', .ok q'') := by
  rw [scan_append h, h']

theorem scan_outside {text : Text} (h : Spaces text) :
    scan (step json terminated) .outside text = ([], .ok .outside) :=
  scan_spaces h fun c hc _ => by simp only [step, hc, if_true]

theorem scan_opened {text : Text} (h : Spaces text) :
    scan (step json terminated) .opened text = ([], .ok .opened) :=
  scan_spaces h fun c hc _ => by simp only [step, hc, if_true]

theorem scan_between {text : Text} (h : Spaces text) :
    scan (step json terminated) .between text = ([], .ok .between) :=
  scan_spaces h fun c hc _ => by simp only [step, hc, if_true]

theorem scan_separated {text : Text} (h : Spaces text) :
    scan (step json terminated) .separated text = ([], .ok .separated) :=
  scan_spaces h fun c hc _ => by simp only [step, hc, if_true]

theorem scan_closed {text : Text} (h : Spaces text) :
    scan (step json terminated) .closed text = ([], .ok .closed) :=
  scan_spaces h fun c hc _ => by simp only [step, hc, if_true]

/-- The end of a message is in front of a terminator that is not there. -/
theorem not_electrum {text : Text} {c : UInt8} (hline : line ∉ text) (hc : c ∈ text) :
    isElectrumTerminator c = false := by
  refine Bool.eq_false_iff.mpr fun h => hline ?_
  rwa [← eq_of_beq h]

theorem scan_whole {text : Text} {model : ν} (h : Spaces text)
    (hline : terminated = true → line ∉ text) :
    scan (step json terminated) (.whole model) text = ([], .ok (.whole model)) := by
  refine scan_spaces h fun c hc hmem => ?_
  have hnot : ¬ (terminated = true ∧ isElectrumTerminator c = true) := fun hend => by
    rw [not_electrum (hline hend.1) hmem] at hend
    exact Bool.false_ne_true hend.2
  simp only [step, if_neg hnot, hc, if_true]

theorem scan_closing {text : Text} (h : Spaces text) (hline : line ∉ text) :
    scan (step json terminated) .closing text = ([], .ok .closing) :=
  scan_spaces h fun c hc hmem => by
    simp only [step, not_electrum hline hmem, Bool.false_eq_true, if_false, hc, if_true]

theorem scan_finished {model : ν} {text : Text} (h : Spaces text) :
    scan (step json terminated) (.finished model) text = ([], .ok (.finished model)) :=
  scan_spaces h fun c hc _ => by simp only [step, hc, if_true]

theorem scan_first {a : Text} (ha : Spaces a) :
    scan (step json terminated) .outside (a ++ [openBracket]) = ([], .ok .opened) :=
  scan_trans (scan_outside ha) (scan_single rfl)

theorem scan_items {t : Text} {events : List (Event α)} (h : Items json t events) :
    scan (step json terminated) .opened t = (events, .ok .between) := by
  have hdeliver {first : Bool} {model : ν} {value : Value α}
      (hv : batchedRequest json first model = .ok value) :
      deliver json first model = .ok ((.between : Scan σ ν), [.element value]) := by
    rw [deliver, hv]
  induction h with
  | one ha hm hv hb =>
    exact scan_trans (scan_trans (scan_opened ha) (scan_element enters_opened hm (hdeliver hv)))
      (scan_between hb)
  | next ht ha hm hv hb ih =>
    refine scan_trans ih ?_
    rw [Incremental.scan_quiet (show Scan.step json terminated .between comma = .ok (.separated, []) from rfl)]
    have htail := scan_trans (scan_trans (@scan_separated _ _ _ json terminated _ ha)
      (scan_element enters_separated hm (hdeliver hv))) (scan_between hb)
    simpa using htail

theorem scan_batch {a t : Text} {events : List (Event α)} (ha : Spaces a)
    (ht : Items json t events) :
    scan (step json terminated) .outside (a ++ openBracket :: t) = (events, .ok .between) := by
  rw [← List.singleton_append, ← List.append_assoc]
  exact scan_trans (scan_first ha) (scan_items ht)

end Scan

namespace Scan
variable {terminated : Bool}

/-- A scan goes on from where another ended, without output. -/
theorem scan_quiet_trans {q q' q'' : Scan σ ν} {text more : Text} {out : List (Event α)}
    (h : scan (step json terminated) q text = (out, .ok q'))
    (h' : scan (step json terminated) q' more = ([], .ok q'')) :
    scan (step json terminated) q (text ++ more) = (out, .ok q'') := by
  rw [scan_trans h h', List.append_nil]

/-- A delimiter in front of what the scanner reads. -/
theorem scan_delimiter {q q' q'' : Scan σ ν} {c : UInt8} {text : Text} {out : List (Event α)}
    (hc : q.step json terminated c = .ok (q', []))
    (h : scan (step json terminated) q' text = (out, .ok q'')) :
    scan (step json terminated) q (c :: text) = (out, .ok q'') := by
  rw [scan_quiet hc, h]

theorem scan_singleton {a m : Text} {model : ν} (ha : Spaces a) (hm : Element json m model) :
    scan (step json terminated) .outside (a ++ m) = ([], .ok (.whole model)) :=
  scan_trans (scan_outside ha) (scan_element enters_outside hm rfl)

theorem scan_ending {model : ν} {z : Text} (hz : Ending true z) :
    scan (step json true) (.whole model) z = ([], .ok (.finished model)) := by
  obtain ⟨b, hb, hline, rfl⟩ := hz
  exact scan_trans (scan_whole hb fun _ => hline) (scan_single rfl)

theorem scan_close {z : Text} (hz : Ending terminated z) :
    scan (step json terminated) .between (closeBracket :: z) = ([.close], .ok .closed) := by
  cases terminated with
  | false =>
    rw [show z = [] from hz]
    exact scan_single rfl
  | true =>
    obtain ⟨b, hb, hline, rfl⟩ := hz
    exact scan_delimiter rfl (scan_trans (scan_closing hb hline) (scan_single rfl))

end Scan

/-- What a state describes, the scanner reads to come to that state. -/
theorem Partial.scan {terminated : Bool} {q : Scan σ ν} {text : Text} {events : List (Event α)}
    (h : Partial json terminated q text events) :
    Incremental.scan (Scan.step json terminated) .outside text = (events, .ok q) := by
  cases h with
  | outside ha => exact Scan.scan_outside ha
  | opened ha hb =>
    exact Scan.scan_trans (Scan.scan_outside ha) (Scan.scan_delimiter rfl (Scan.scan_opened hb))
  | single ha hm =>
    exact Scan.scan_trans (Scan.scan_outside ha) (Scan.scan_begun Scan.enters_outside hm)
  | whole ha hm hb hline =>
    exact Scan.scan_trans (Scan.scan_singleton ha hm) (Scan.scan_whole hb hline)
  | finished ha hm hterminated hz hb =>
    subst hterminated
    exact Scan.scan_trans (Scan.scan_singleton ha hm)
      (Scan.scan_trans (Scan.scan_ending hz) (Scan.scan_finished hb))
  | first ha hb hm =>
    exact Scan.scan_quiet_trans (Scan.scan_outside ha) (Scan.scan_delimiter rfl
      (Scan.scan_quiet_trans (Scan.scan_opened hb) (Scan.scan_begun Scan.enters_opened hm)))
  | between ha ht => exact Scan.scan_batch ha ht
  | separated ha ht hb =>
    rw [← List.cons_append, ← List.append_assoc]
    exact Scan.scan_quiet_trans (Scan.scan_batch ha ht)
      (Scan.scan_delimiter rfl (Scan.scan_separated hb))
  | next ha ht hb hm =>
    rw [← List.cons_append, ← List.append_assoc]
    exact Scan.scan_quiet_trans (Scan.scan_batch ha ht) (Scan.scan_delimiter rfl
      (Scan.scan_quiet_trans (Scan.scan_separated hb) (Scan.scan_begun Scan.enters_separated hm)))
  | closing ha ht hb hterminated hline =>
    subst hterminated
    rw [← List.cons_append, ← List.append_assoc]
    exact Scan.scan_quiet_trans (Scan.scan_batch ha ht)
      (Scan.scan_delimiter rfl (Scan.scan_closing hb hline))
  | closed ha ht hz hb =>
    rw [← List.cons_append, ← List.append_assoc, ← List.cons_append]
    exact Scan.scan_trans (Scan.scan_batch ha ht)
      (Scan.scan_quiet_trans (Scan.scan_close hz) (Scan.scan_closed hb))

end BitcoinNetwork.Rpc
