import BitcoinNetwork.Http.Header

/-!
# Body framing by header fields (messages/http/parser.cpp:301-428)

`frame_field` folds each field into the framing of the body, with errors that
depend on the fields before it. Codings are read by `token_list`, which agrees
with the comma list of the value wherever it accepts it.
-/

namespace BitcoinNetwork.Http

/-- `framing`: the body framing determined by header fields. -/
structure Framing where
  chunked : Bool := false
  encoded : Bool := false
  length : Option ℕ := none
  deriving DecidableEq, Repr

/-- `token_list` from a position: the tokens up to the first invalid element,
and whether there is none. A turn reads a token or a comma, so that the length
of the text bounds the turns. -/
def tokenListFrom : ℕ → Text → Bool → List Text × Bool
  | 0, _, _ => ([], true)
  | turns + 1, value, needComma =>
    match value.dropWhile isWhitespace with
    | [] => ([], true)
    | c :: rest =>
      if isTchar c then
        if needComma then ([], false)
        else
          let next := tokenListFrom turns ((c :: rest).dropWhile isTchar) true
          ((c :: rest).takeWhile isTchar :: next.1, next.2)
      else if c ≠ comma then ([], false)
      else tokenListFrom turns rest false

/-- `token_list`. -/
def tokenList (value : Text) : List Text × Bool := tokenListFrom (value.length + 1) value false

/-- The number a run of digits denotes. -/
def decimal (digits : Text) : ℕ := digits.foldl (fun n c => 10 * n + (c.toNat - 48)) 0

/-- `std::from_chars` of an unsigned 64 bit number: the number of the leading
digits and the text behind them, or none for its two errors. -/
def fromChars (text : Text) : Option (ℕ × Text) :=
  let digits := text.takeWhile isDigit
  if digits = [] then none
  else if 2 ^ 64 ≤ decimal digits then none
  else some (decimal digits, text.dropWhile isDigit)

/-- One item of a content-length list. -/
def frameLength (frame : Framing) (item : Text) : Except HttpError Framing :=
  match item, fromChars item with
  | c :: _, some (number, next) =>
    if !isDigit c || next ≠ [] then .error .badContentLength
    else match frame.length with
      | some length =>
        if number ≠ length then .error .multipleContentLength
        else .ok { frame with length := some number }
      | none => .ok { frame with length := some number }
  | _, _ => .error .badContentLength

/-- `frame_field`. -/
def frameField (split : Text → List Text) (frame : Framing) (name : Field) (value : Text) :
    Except HttpError Framing :=
  if name = .connection then
    if (tokenList value).2 then .ok frame else .error .badValue
  else if name = .contentLength then
    if frame.chunked || frame.encoded || !(tokenList value).2 then .error .badContentLength
    else (split value).foldlM frameLength frame
  else if name = .transferEncoding then
    if frame.chunked || frame.encoded || frame.length.isSome then .error .badTransferEncoding
    else
      let codings := (tokenList value).1
      if !(tokenList value).2 || codings.isEmpty then .error .badTransferEncoding
      else
        let chunked := match codings.dropWhile fun coding => !iequals coding chunkedToken with
          | [_] => true
          | _ => false
        .ok { frame with chunked := chunked, encoded := !chunked }
  else .ok frame

/-- The field by which `parse_field` frames a name: Proxy-Connection (not
enumerated) is validated as Connection. -/
def framingField (name : Text) : Field :=
  if iequals name (ascii "Proxy-Connection") then .connection else toField name

/-! ### Comma lists -/

theorem commaPieces_cons_exists (value : Text) :
    ∃ piece pieces, commaPieces value = piece :: pieces := by
  cases value with
  | nil => exact ⟨[], [], rfl⟩
  | cons c rest =>
    by_cases hc : c = comma
    · exact ⟨[], commaPieces rest, by rw [commaPieces, if_pos hc]⟩
    · rw [commaPieces, if_neg hc]
      split
      · exact ⟨_, _, rfl⟩
      · exact ⟨_, _, rfl⟩

theorem commaPieces_append {front : Text} (hf : ∀ c ∈ front, c ≠ comma) {rest piece : Text}
    {pieces : List Text} (h : commaPieces rest = piece :: pieces) :
    commaPieces (front ++ rest) = (front ++ piece) :: pieces := by
  induction front with
  | nil => exact h
  | cons c front ih =>
    have hc : c ≠ comma := hf c List.mem_cons_self
    have ht := ih fun d hd => hf d (List.mem_cons_of_mem c hd)
    rw [List.cons_append, commaPieces, if_neg hc, ht]
    rfl

theorem trim_eq_nil_iff {value : Text} : trim value = [] ↔ ∀ c ∈ value, isWhitespace c = true := by
  constructor
  · intro h c hc
    simp only [trim, List.reverse_eq_nil_iff, List.dropWhile_eq_nil_iff, List.mem_reverse] at h
    have hall : value.dropWhile isWhitespace = [] := by
      by_contra hne
      obtain ⟨b, t, hb⟩ := List.exists_cons_of_ne_nil hne
      have hhead := List.head?_dropWhile_not isWhitespace value
      rw [hb] at hhead
      have := h b (by rw [hb]; exact List.mem_cons_self)
      simp [this] at hhead
    rw [List.dropWhile_eq_nil_iff] at hall
    exact hall c hc
  · intro h
    have hnil : value.dropWhile isWhitespace = [] := List.dropWhile_eq_nil_iff.mpr h
    simp [trim, hnil]

theorem trim_whitespace_append {front : Text} (hf : ∀ c ∈ front, isWhitespace c = true)
    (value : Text) : trim (front ++ value) = trim value := by
  simp only [trim, List.dropWhile_append_of_pos hf]

/-- A run without whitespace at its ends, between whitespace, is what trimming leaves. -/
theorem trim_append_whitespace {value back : Text} (hb : ∀ c ∈ back, isWhitespace c = true)
    (hfirst : ∀ c ∈ value.head?, isWhitespace c = false)
    (hlast : ∀ c ∈ value.getLast?, isWhitespace c = false) (hne : value ≠ []) :
    trim (value ++ back) = value := by
  obtain ⟨c, t, rfl⟩ := List.exists_cons_of_ne_nil hne
  have hc : isWhitespace c = false := hfirst c rfl
  have hrev : (c :: t).reverse.dropWhile isWhitespace = (c :: t).reverse := by
    cases hr : (c :: t).reverse with
    | nil => rfl
    | cons d u =>
      have hd : isWhitespace d = false := by
        apply hlast
        rw [List.getLast?_eq_head?_reverse, hr]
        rfl
      rw [List.dropWhile_cons_of_neg (by simp [hd])]
  rw [trim, List.cons_append, List.dropWhile_cons_of_neg (by simp [hc]), ← List.cons_append,
    List.reverse_append, List.dropWhile_append_of_pos (fun d hd => hb d (List.mem_reverse.mp hd)),
    hrev, List.reverse_reverse]

theorem isTchar_ne_comma {c : UInt8} (h : isTchar c = true) : c ≠ comma := by
  rintro rfl
  revert h
  decide

theorem isWhitespace_ne_comma {c : UInt8} (h : isWhitespace c = true) : c ≠ comma := by
  rintro rfl
  revert h
  decide

/-- Where `token_list` finds no invalid element its tokens are the items of the
comma list, and behind a token only whitespace stands before the next comma. -/
theorem tokenListFrom_items {turns : ℕ} {value : Text} {needComma : Bool} {tokens : List Text}
    (hlen : value.length < turns) (h : tokenListFrom turns value needComma = (tokens, true)) :
    tokens = listItems value ∧ (∀ t ∈ tokens, t ≠ [] ∧ ∀ c ∈ t, isTchar c = true) ∧
      (needComma = true → ∀ piece ∈ (commaPieces value).head?, trim piece = []) := by
  induction turns generalizing value needComma tokens with
  | zero => omega
  | succ turns ih =>
    -- leading whitespace belongs to the first piece, and is trimmed from it
    have hws : ∀ c ∈ value.takeWhile isWhitespace, isWhitespace c = true :=
      fun c hc => List.mem_takeWhile_imp hc
    obtain ⟨piece, pieces, hpieces⟩ := commaPieces_cons_exists (value.dropWhile isWhitespace)
    have hall : commaPieces value = (value.takeWhile isWhitespace ++ piece) :: pieces := by
      have := commaPieces_append (fun c hc => isWhitespace_ne_comma (hws c hc)) hpieces
      rwa [List.takeWhile_append_dropWhile] at this
    have htrim : trim (value.takeWhile isWhitespace ++ piece) = trim piece :=
      trim_whitespace_append hws piece
    have hitems : listItems value = listItems (value.dropWhile isWhitespace) := by
      simp only [listItems, hall, hpieces, List.map_cons, htrim]
    have hshort : (value.dropWhile isWhitespace).length ≤ value.length :=
      (List.dropWhile_suffix isWhitespace).length_le
    rw [hitems, hall]
    simp only [List.head?_cons, Option.mem_some_iff, forall_eq', htrim]
    rw [tokenListFrom] at h
    cases hv : value.dropWhile isWhitespace with
    | nil =>
      rw [hv] at h hpieces
      simp only [Prod.mk.injEq] at h
      simp only [commaPieces, List.cons.injEq] at hpieces
      rw [← h.1, ← hpieces.1]
      exact ⟨rfl, nofun, fun _ => rfl⟩
    | cons c rest =>
      rw [hv] at h hpieces
      rw [hv, List.length_cons] at hshort
      by_cases hc : isTchar c = true
      · simp only [hc, reduceIte] at h
        cases hn : needComma with
        | true => simp [hn] at h
        | false =>
          simp only [hn, Bool.false_eq_true, reduceIte, Prod.mk.injEq] at h
          obtain ⟨htok, hvalid⟩ := h
          -- a token extends over the piece up to whitespace
          set token := (c :: rest).takeWhile isTchar with htoken
          set behind := (c :: rest).dropWhile isTchar with hbehind
          have hsplit : c :: rest = token ++ behind :=
            List.takeWhile_append_dropWhile.symm
          have htchar : ∀ d ∈ token, isTchar d = true := fun d hd => List.mem_takeWhile_imp hd
          have hne : token ≠ [] := by
            rw [htoken, List.takeWhile_cons_of_pos hc]
            exact List.cons_ne_nil _ _
          have hblen : behind.length < turns := by
            have hle : behind.length ≤ rest.length := by
              rw [hbehind, List.dropWhile_cons_of_pos hc]
              exact (List.dropWhile_suffix isTchar).length_le
            omega
          obtain ⟨hi, htok', hhead⟩ := ih hblen (Prod.ext rfl hvalid)
          obtain ⟨first, others, hfirst⟩ := commaPieces_cons_exists behind
          have hblank : trim first = [] := hhead rfl first (by rw [hfirst]; rfl)
          have hcomma := commaPieces_append (fun d hd => isTchar_ne_comma (htchar d hd)) hfirst
          rw [← hsplit] at hcomma
          have htrimmed : trim (token ++ first) = token := by
            refine trim_append_whitespace (trim_eq_nil_iff.mp hblank) ?_ ?_ hne
            · intro d hd
              exact isTchar_not_whitespace (htchar d (List.mem_of_mem_head? hd))
            · intro d hd
              exact isTchar_not_whitespace (htchar d (List.mem_of_mem_getLast? hd))
          refine ⟨?_, ?_, nofun⟩
          · have hcons : tokens = token :: listItems behind :=
              htok.symm.trans (congrArg (token :: ·) hi)
            rw [hcons]
            simp [listItems, hcomma, hfirst, htrimmed, hblank, hne]
          · intro t ht
            rw [← htok] at ht
            rcases List.mem_cons.mp ht with rfl | ht
            · exact ⟨hne, htchar⟩
            · exact htok' t ht
      · simp only [hc, Bool.false_eq_true, reduceIte] at h
        by_cases hcomma : c = comma
        · subst hcomma
          simp only [ne_eq, not_true_eq_false, reduceIte] at h
          obtain ⟨hi, htok, _⟩ := ih (by omega) h
          rw [commaPieces, if_pos rfl, List.cons.injEq] at hpieces
          refine ⟨?_, htok, fun _ => ?_⟩
          · rw [hi]
            simp [listItems, commaPieces, trim]
          · rw [← hpieces.1]
            rfl
        · simp [hcomma] at h

/-- The tokens of a valid list are the items of the comma list, and are tokens. -/
theorem tokenList_items {value : Text} (h : (tokenList value).2 = true) :
    (tokenList value).1 = listItems value ∧
      ∀ t ∈ listItems value, t ≠ [] ∧ ∀ c ∈ t, isTchar c = true := by
  obtain ⟨hi, ht, _⟩ := tokenListFrom_items (Nat.lt_succ_self _)
    (show tokenListFrom (value.length + 1) value false = ((tokenList value).1, true) from
      Prod.ext rfl h)
  exact ⟨hi, hi ▸ ht⟩

end BitcoinNetwork.Http
