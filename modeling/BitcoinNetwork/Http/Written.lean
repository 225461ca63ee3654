import BitcoinNetwork.Http.Element
import BitcoinNetwork.Http.Serializer
import Mathlib.Tactic.IntervalCases

/-!
# Written elements are read back (messages/http/serializer.cpp, parser.cpp)

What the serializer writes of a start line, a field or a chunk line, with the
text that follows it, is parsed to what was written, and the text is left. A
field line needs the text behind it to begin without whitespace, which would
continue its value.
-/

namespace BitcoinNetwork.Http
open Incremental

/-! ### What may be written -/

/-- A nonempty token. -/
def IsToken (text : Text) : Prop := text ≠ [] ∧ ∀ c ∈ text, isTchar c = true

/-- Text without control characters. -/
def IsVisible (text : Text) : Prop := ∀ c ∈ text, isControl c = false

/-- Text without whitespace at its ends. -/
def IsTrimmed (text : Text) : Prop :=
  (∀ c ∈ text.head?, isWhitespace c = false) ∧ ∀ c ∈ text.getLast?, isWhitespace c = false

/-- A list of tokens, of which an element may be empty. -/
def IsTokenList (value : Text) : Prop := ∀ item ∈ listItems value, ∀ c ∈ item, isTchar c = true

/-! ### Start lines -/

theorem item_cons (b : UInt8) (rest : Text) : (Element.item : Parse UInt8) (b :: rest) = .done b rest :=
  rfl

theorem parseVersion_append (rest : Text) :
    parseVersion (ascii "HTTP/1.1" ++ rest) = .done version11 rest := by
  have htake : (Element.exactly 8 : Parse Text) (ascii "HTTP/1.1" ++ rest)
      = .done (ascii "HTTP/1.1") rest := Element.exactly_append (by decide) rest
  rw [parseVersion, Element.bind_of_done htake]
  rfl

theorem findLine_append {bad : HttpError} {text : Text} (h : IsVisible text) (rest : Text) :
    findLine bad (text ++ lineEnd ++ rest) = .done text rest := by
  have hscan : (Element.scan (fun c => !isControl c) : Parse Text) (text ++ cr :: lf :: rest)
      = .done text (cr :: lf :: rest) :=
    Element.scan_append _ (fun c hc => by simp [h c hc]) (by decide)
  have hdata : text ++ lineEnd ++ rest = text ++ cr :: lf :: rest := by simp [lineEnd]
  rw [hdata, findLine, Element.bind_of_done hscan]
  rfl

theorem parseRequestLine_append {method target : Text} (hm : IsToken method) (ht : target ≠ [])
    (htarget : ∀ c ∈ target, isTargetChar c = true) (rest : Text) :
    parseRequestLine (method ++ ascii " " ++ target ++ ascii " " ++ ascii "HTTP/1.1" ++ lineEnd ++
      rest) = .done (version11, RequestLine.ofMethodString method target) rest := by
  have hend : (Element.exactly 2 : Parse Text) (lineEnd ++ rest) = .done lineEnd rest :=
    Element.exactly_append rfl rest
  have hscan : (Element.scan isTargetChar : Parse Text)
      (target ++ sp :: (ascii "HTTP/1.1" ++ (lineEnd ++ rest)))
      = .done target (sp :: (ascii "HTTP/1.1" ++ (lineEnd ++ rest))) :=
    Element.scan_append _ htarget (by decide)
  have hmethod : (Element.scan isTchar : Parse Text)
      (method ++ sp :: (target ++ sp :: (ascii "HTTP/1.1" ++ (lineEnd ++ rest))))
      = .done method (sp :: (target ++ sp :: (ascii "HTTP/1.1" ++ (lineEnd ++ rest)))) :=
    Element.scan_append _ hm.2 (by decide)
  have hdata : method ++ ascii " " ++ target ++ ascii " " ++ ascii "HTTP/1.1" ++ lineEnd ++ rest
      = method ++ sp :: (target ++ sp :: (ascii "HTTP/1.1" ++ (lineEnd ++ rest))) := by
    have hsp : ascii " " = [sp] := by decide
    simp [hsp]
  rw [hdata, parseRequestLine, Element.bind_of_done hmethod, Element.bind_of_done (item_cons _ _),
    if_neg (by simp [hm.1]), Element.bind_of_done hscan, Element.bind_of_done (item_cons _ _),
    if_neg (by simp [ht]), Element.bind_of_done (parseVersion_append _), Element.bind_of_done hend]
  rfl

/-- A decimal digit. -/
def digit (d : ℕ) : UInt8 := (48 + d).toUInt8

theorem digitChar_byte {d : ℕ} (h : d < 10) : d.digitChar.toNat.toUInt8 = digit d := by
  interval_cases d <;> rfl

theorem digit_spec {d : ℕ} (h : d < 10) : isDigit (digit d) = true ∧ (digit d).toNat - 48 = d := by
  interval_cases d <;> decide

theorem repr_three {n : ℕ} (hlow : 100 ≤ n) (hhigh : n ≤ 999) :
    ascii (toString n) = [digit (n / 100), digit (n / 10 % 10), digit (n % 10)] := by
  have hdigits : Nat.toDigits 10 n
      = [(n / 100).digitChar, (n / 10 % 10).digitChar, (n % 10).digitChar] := by
    rw [Nat.toDigits_of_base_le (by decide) (by omega),
      Nat.toDigits_of_base_le (by decide) (by omega), Nat.toDigits_of_lt_base (by omega),
      Nat.div_div_eq_div_mul]
    rfl
  have hlist : (toString n).toList = Nat.toDigits 10 n := Nat.toList_repr
  rw [ascii, hlist, hdigits]
  simp only [List.map_cons, List.map_nil]
  rw [digitChar_byte (by omega), digitChar_byte (by omega), digitChar_byte (by omega)]

theorem parseStatusLine_append {code : ℕ} (hlow : 100 ≤ code) (hhigh : code ≤ 999) {reason : Text}
    (hr : IsVisible reason) (rest : Text) :
    parseStatusLine (ascii "HTTP/1.1" ++ ascii " " ++ ascii (toString code) ++ ascii " " ++
      reason ++ lineEnd ++ rest) = .done (version11, ⟨code, reason⟩) rest := by
  have hstatus : (Element.exactly 4 : Parse Text)
      (ascii (toString code) ++ [sp] ++ (reason ++ lineEnd ++ rest))
      = .done (ascii (toString code) ++ [sp]) (reason ++ lineEnd ++ rest) :=
    Element.exactly_append (by rw [repr_three hlow hhigh]; rfl) _
  have hdata : ascii "HTTP/1.1" ++ ascii " " ++ ascii (toString code) ++ ascii " " ++ reason ++
      lineEnd ++ rest = ascii "HTTP/1.1" ++ sp :: (ascii (toString code) ++ [sp] ++
        (reason ++ lineEnd ++ rest)) := by
    have hsp : ascii " " = [sp] := by decide
    simp [hsp]
  obtain ⟨h₁, v₁⟩ := digit_spec (d := code / 100) (by omega)
  obtain ⟨h₂, v₂⟩ := digit_spec (d := code / 10 % 10) (by omega)
  obtain ⟨h₃, v₃⟩ := digit_spec (d := code % 10) (by omega)
  have hvalue : code / 100 * 100 + code / 10 % 10 * 10 + code % 10 = code := by omega
  rw [hdata, parseStatusLine, Element.bind_of_done (parseVersion_append _),
    Element.bind_of_done (item_cons _ _), if_neg (by decide), Element.bind_of_done hstatus]
  simp only [repr_three hlow hhigh, List.cons_append, List.nil_append, List.getD_cons_zero,
    List.getD_cons_succ, h₁, h₂, h₃, Bool.not_true, Bool.false_eq_true, ne_eq, not_true_eq_false,
    or_self, reduceIte, v₁, v₂, v₃, hvalue]
  rw [Element.bind_of_done (findLine_append hr rest)]
  rfl

/-! ### Field lines -/

theorem trimBack_of_trimmed {value : Text} (h : IsTrimmed value) : trimBack value = value := by
  cases hr : value.reverse with
  | nil =>
    rw [trimBack, hr, List.reverse_eq_nil_iff.mp hr]
    rfl
  | cons c t =>
    have hc : isWhitespace c = false := by
      apply h.2
      rw [List.getLast?_eq_head?_reverse, hr]
      rfl
    rw [trimBack, hr, List.dropWhile_cons_of_neg (by simp [hc]), ← hr, List.reverse_reverse]

/-- A value line that is not folded. -/
theorem valueLine_append {value : Text} (hv : IsVisible value) (ht : IsTrimmed value) {b : UInt8}
    (hb : isWhitespace b = false) (rest : Text) :
    valueLine [] (sp :: (value ++ lineEnd ++ b :: rest)) = .done (.inr value) (b :: rest) := by
  have hblank : (Element.scan isWhitespace : Parse Text) (sp :: (value ++ lineEnd ++ b :: rest))
      = .done [sp] (value ++ lineEnd ++ b :: rest) := by
    have hsp : ∀ c ∈ [sp], isWhitespace c = true := fun c hc => by
      rw [List.mem_singleton.mp hc]
      rfl
    cases hvalue : value with
    | nil => exact @Element.scan_append _ _ _ [sp] _ _ hsp rfl
    | cons c t =>
      have hc : isWhitespace c = false := ht.1 c (by rw [hvalue]; rfl)
      exact @Element.scan_append _ _ _ [sp] _ _ hsp hc
  have hpeek : (Element.peek 1 : Parse Text) (b :: rest) = .done [b] (b :: rest) := by
    simp [Element.peek]
  rw [valueLine, Element.bind_of_done hblank, Element.bind_of_done (findLine_append hv _),
    Element.bind_of_done hpeek, trimBack_of_trimmed ht]
  simp only [List.getD_cons_zero, hb, Bool.false_eq_true, reduceIte, Element.pure_apply]
  by_cases hempty : value = []
  · simp only [hempty, reduceIte]
  · simp only [hempty, reduceIte]

theorem parseFieldLine_append {name value : Text} (hn : IsToken name) (hv : IsVisible value)
    (ht : IsTrimmed value) {b : UInt8} (hb : isWhitespace b = false) (rest : Text) :
    parseFieldLine (name ++ ascii ": " ++ value ++ lineEnd ++ b :: rest)
      = .done (some (name, value)) (b :: rest) := by
  have hdata : name ++ ascii ": " ++ value ++ lineEnd ++ b :: rest
      = name ++ colon :: (sp :: (value ++ lineEnd ++ b :: rest)) := by
    have hsep : ascii ": " = [colon, sp] := by decide
    simp [hsep]
  have hscan : (Element.scan isTchar : Parse Text)
      (name ++ colon :: (sp :: (value ++ lineEnd ++ b :: rest)))
      = .done name (colon :: (sp :: (value ++ lineEnd ++ b :: rest))) :=
    Element.scan_append _ hn.2 (by decide)
  have hvalue : (Element.iterate valueLine [] : Parse Text) (sp :: (value ++ lineEnd ++ b :: rest))
      = .done value (b :: rest) := by
    rw [Element.iterate_eq (fun h => (valueLine_consumes _).shorter h),
      valueLine_append hv ht hb]
  rw [hdata, parseFieldLine]
  obtain ⟨c, t, rfl⟩ := List.exists_cons_of_ne_nil hn.1
  have hc : c ≠ cr := by
    rintro rfl
    exact absurd (hn.2 cr List.mem_cons_self) (by decide)
  have hpeek : ∃ front, (Element.peek 2 : Parse Text)
      (c :: t ++ colon :: (sp :: (value ++ lineEnd ++ b :: rest)))
      = .done front (c :: t ++ colon :: (sp :: (value ++ lineEnd ++ b :: rest))) ∧
      front.getD 0 0 = c := by
    cases t with
    | nil => exact ⟨[c, colon], by simp [Element.peek], rfl⟩
    | cons d t => exact ⟨[c, d], by simp [Element.peek], rfl⟩
  obtain ⟨front, hfront, hfirst⟩ := hpeek
  rw [Element.bind_of_done hfront, hfirst, if_neg hc, Element.bind_of_done hscan,
    Element.bind_of_done (item_cons _ _), if_neg (by simp), Element.bind_of_done hvalue]
  rfl

theorem parseFieldLine_end (rest : Text) : parseFieldLine (lineEnd ++ rest) = .done none rest := by
  have hpeek : (Element.peek 2 : Parse Text) (lineEnd ++ rest) = .done lineEnd (lineEnd ++ rest) := by
    have hlen : ¬(lineEnd ++ rest).length < 2 := by simp [lineEnd]
    rw [Element.peek, if_neg hlen]
    rfl
  have hend : (Element.exactly 2 : Parse Text) (lineEnd ++ rest) = .done lineEnd rest :=
    Element.exactly_append rfl rest
  rw [parseFieldLine, Element.bind_of_done hpeek, if_pos (by decide), if_neg (by decide),
    Element.bind_of_done hend]
  rfl

theorem parseField_append {split : Text → List Text} {frame frame' : Framing} {name value : Text}
    (hn : IsToken name) (hv : IsVisible value) (ht : IsTrimmed value) {b : UInt8}
    (hb : isWhitespace b = false)
    (hf : frameField split frame (framingField name) value = .ok frame') (rest : Text) :
    parseField split frame (name ++ ascii ": " ++ value ++ lineEnd ++ b :: rest)
      = .done (some (name, value), frame') (b :: rest) := by
  rw [parseField, Element.bind_of_done (parseFieldLine_append hn hv ht hb rest)]
  simp only [hf]
  rfl

theorem parseField_end (split : Text → List Text) (frame : Framing) (rest : Text) :
    parseField split frame (lineEnd ++ rest) = .done (none, frame) rest := by
  rw [parseField, Element.bind_of_done (parseFieldLine_end rest)]
  rfl

/-! ### Token lists -/

theorem mem_trim {value : Text} {c : UInt8} (hc : c ∈ value) (hw : isWhitespace c = false) :
    c ∈ trim value := by
  have hdrop : ∀ {t : Text}, c ∈ t → c ∈ t.dropWhile isWhitespace := by
    intro t ht
    rw [← List.takeWhile_append_dropWhile (p := isWhitespace) (l := t), List.mem_append] at ht
    rcases ht with ht | ht
    · rw [List.mem_takeWhile_imp ht] at hw
      cases hw
    · exact ht
  rw [trim, List.mem_reverse]
  exact hdrop (List.mem_reverse.mpr (hdrop hc))

/-- Behind a character that stays, only whitespace at the end is trimmed. -/
theorem trim_append_of_head {front back : Text} (hfirst : ∀ c ∈ front.head?, isWhitespace c = false)
    (hne : front ≠ []) (hback : trim back ≠ []) : trim (front ++ back) = front ++ trimBack back := by
  obtain ⟨c, t, rfl⟩ := List.exists_cons_of_ne_nil hne
  have hc : isWhitespace c = false := hfirst c rfl
  have hsome : back.reverse.dropWhile isWhitespace ≠ [] := by
    intro hnil
    rw [List.dropWhile_eq_nil_iff] at hnil
    exact hback (trim_eq_nil_iff.mpr fun d hd => hnil d (List.mem_reverse.mpr hd))
  rw [trim, List.cons_append, List.dropWhile_cons_of_neg (by simp [hc]), ← List.cons_append,
    List.reverse_append, List.dropWhile_append, if_neg (by simpa using hsome),
    List.reverse_append, List.reverse_reverse]
  rfl

theorem head_mem_trimBack {c : UInt8} {t : Text} (h : trim (c :: t) ≠ []) :
    c ∈ trimBack (c :: t) := by
  have hpre : trimBack (c :: t) <+: c :: t := by
    have hsuf := List.dropWhile_suffix isWhitespace (l := (c :: t).reverse)
    simpa [trimBack] using List.reverse_prefix.mpr hsuf
  have hne : trimBack (c :: t) ≠ [] := by
    intro hnil
    rw [trimBack, List.reverse_eq_nil_iff, List.dropWhile_eq_nil_iff] at hnil
    exact h (trim_eq_nil_iff.mpr fun d hd => hnil d (List.mem_reverse.mpr hd))
  obtain ⟨d, u, hd⟩ := List.exists_cons_of_ne_nil hne
  rw [hd] at hpre ⊢
  rw [(List.cons_prefix_cons.mp hpre).1]
  exact List.mem_cons_self

/-- `token_list` accepts a list of tokens: what it has read of the list does not
matter, save that behind a token it asks for a comma. -/
theorem tokenListFrom_valid {turns : ℕ} {value : Text} {needComma : Bool}
    (hlen : value.length < turns) (h : IsTokenList value)
    (hneed : needComma = true → ∀ piece ∈ (commaPieces value).head?, trim piece = []) :
    (tokenListFrom turns value needComma).2 = true := by
  induction turns generalizing value needComma with
  | zero => omega
  | succ turns ih =>
    have hws : ∀ c ∈ value.takeWhile isWhitespace, isWhitespace c = true :=
      fun c hc => List.mem_takeWhile_imp hc
    obtain ⟨piece, pieces, hpieces⟩ := commaPieces_cons_exists (value.dropWhile isWhitespace)
    have hall : commaPieces value = (value.takeWhile isWhitespace ++ piece) :: pieces := by
      have := commaPieces_append (fun c hc => isWhitespace_ne_comma (hws c hc)) hpieces
      rwa [List.takeWhile_append_dropWhile] at this
    have htrim : trim (value.takeWhile isWhitespace ++ piece) = trim piece :=
      trim_whitespace_append hws piece
    have hshort := (List.dropWhile_suffix isWhitespace (l := value)).length_le
    have hfirst : ∀ c ∈ trim piece, isTchar c = true := by
      intro c hc
      refine h (trim piece) ?_ c hc
      simp only [listItems, hall, List.map_cons, htrim, List.mem_filter, List.mem_cons, true_or,
        true_and]
      simpa using List.ne_nil_of_mem hc
    have hothers : ∀ item ∈ (pieces.map trim).filter (· ≠ []), ∀ c ∈ item, isTchar c = true := by
      intro item hitem
      refine h item ?_
      rw [listItems, hall, List.map_cons, List.filter_cons]
      split
      · exact List.mem_cons_of_mem _ hitem
      · exact hitem
    rw [hall] at hneed
    simp only [List.head?_cons, Option.mem_some_iff, forall_eq', htrim] at hneed
    rw [tokenListFrom]
    cases hv : value.dropWhile isWhitespace with
    | nil => rfl
    | cons c rest =>
      rw [hv] at hpieces hshort
      rw [List.length_cons] at hshort
      have hblank : isWhitespace c = false := by
        have hhead := List.head?_dropWhile_not isWhitespace value
        rw [hv] at hhead
        simpa using hhead
      by_cases hcomma : c = comma
      · subst hcomma
        rw [commaPieces, if_pos rfl, List.cons.injEq] at hpieces
        simp only [show isTchar comma = false from by decide, Bool.false_eq_true, ne_eq,
          not_true_eq_false, reduceIte]
        refine ih (by omega) (fun item hitem => ?_) fun hc => by cases hc
        rw [listItems, hpieces.2] at hitem
        exact hothers item hitem
      have hpiece : c ∈ piece := by
        rw [commaPieces, if_neg hcomma] at hpieces
        obtain ⟨p, ps, hp⟩ := commaPieces_cons_exists rest
        rw [hp] at hpieces
        rw [← (List.cons.inj hpieces).1]
        exact List.mem_cons_self
      have htchar : isTchar c = true := hfirst c (mem_trim hpiece hblank)
      simp only [htchar, reduceIte]
      cases hn : needComma with
      | true =>
        have hnil := mem_trim hpiece hblank
        rw [hneed hn] at hnil
        cases hnil
      | false =>
        simp only [Bool.false_eq_true, reduceIte]
        set token := (c :: rest).takeWhile isTchar with htoken
        set behind := (c :: rest).dropWhile isTchar with hbehind
        have hsplit : c :: rest = token ++ behind := List.takeWhile_append_dropWhile.symm
        have hchars : ∀ d ∈ token, isTchar d = true := fun d hd => List.mem_takeWhile_imp hd
        have hne : token ≠ [] := by
          rw [htoken, List.takeWhile_cons_of_pos htchar]
          exact List.cons_ne_nil _ _
        obtain ⟨first, others, hcut⟩ := commaPieces_cons_exists behind
        have hjoin := commaPieces_append (fun d hd => isTchar_ne_comma (hchars d hd)) hcut
        rw [← hsplit, hpieces, List.cons.injEq] at hjoin
        obtain ⟨rfl, rfl⟩ := hjoin
        -- what follows the token in its piece is blank, or a character of the item is no tchar
        have hafter : trim first = [] := by
          by_contra hsome
          obtain ⟨d, t, rfl⟩ : ∃ d t, first = d :: t := by
            cases first with
            | nil => exact absurd rfl hsome
            | cons d t => exact ⟨d, t, rfl⟩
          have hhead : ∃ u, behind = d :: u := by
            cases hb : behind with
            | nil =>
              rw [hb] at hcut
              cases hcut
            | cons e u =>
              rw [hb, commaPieces] at hcut
              split at hcut
              · cases hcut
              · obtain ⟨p, ps, hp⟩ := commaPieces_cons_exists u
                rw [hp] at hcut
                rw [(List.cons.inj (List.cons.inj hcut).1).1]
                exact ⟨u, rfl⟩
          obtain ⟨u, hu⟩ := hhead
          have hd : isTchar d = false := by
            have hstop := List.head?_dropWhile_not isTchar (c :: rest)
            rw [← hbehind, hu] at hstop
            simpa using hstop
          have hitem := trim_append_of_head (fun e he =>
            isTchar_not_whitespace (hchars e (List.mem_of_mem_head? he))) hne hsome
          have hbad := hfirst d (by
            rw [hitem]
            exact List.mem_append_right _ (head_mem_trimBack hsome))
          rw [hd] at hbad
          cases hbad
        have hle : behind.length ≤ rest.length := by
          rw [hbehind, List.dropWhile_cons_of_pos htchar]
          exact (List.dropWhile_suffix isTchar).length_le
        refine ih (by omega) (fun item hitem => ?_) fun _ p hp => ?_
        · rw [listItems, hcut, List.map_cons, List.filter_cons, hafter] at hitem
          exact hothers item (by simpa using hitem)
        · rw [hcut] at hp
          cases hp
          exact hafter

theorem tokenList_valid {value : Text} (h : IsTokenList value) : (tokenList value).2 = true :=
  tokenListFrom_valid (Nat.lt_succ_self _) h nofun

/-! ### Chunk lines -/

theorem hexDigit_spec : ∀ d : Fin 16, toNibble (hexDigit d) = some d.val ∧ hexDigit d ≠ cr := by
  decide

theorem chunkDigits_hexText {turns size : ℕ} (hturns : size < turns) (hsize : size < 2 ^ 64)
    (rest : Text) (index : ℕ) : chunkDigits (hexText turns size ++ rest) 0 index
      = chunkDigits rest size (index + (hexText turns size).length) := by
  have hdigit (n : ℕ) : toNibble (hexDigit (n % 16)) = some (n % 16) :=
    (hexDigit_spec ⟨n % 16, Nat.mod_lt n (by decide)⟩).1
  induction turns generalizing size rest with
  | zero => omega
  | succ turns ih =>
    rw [hexText]
    by_cases hz : size / 16 = 0
    · simp only [hz, reduceIte, List.nil_append, List.cons_append, chunkDigits, hdigit,
        List.length_singleton]
      rw [if_neg (by decide), Nat.zero_mul, Nat.zero_add, Nat.mod_eq_of_lt (by omega)]
    · simp only [hz, reduceIte, List.append_assoc, List.cons_append, List.nil_append,
        List.length_append, List.length_singleton]
      rw [ih (by omega) (by omega), chunkDigits, hdigit]
      simp only
      rw [if_neg (by omega), Nat.div_add_mod' size 16, Nat.add_assoc]

theorem hexText_ne_nil (turns size : ℕ) : hexText (turns + 1) size ≠ [] := by
  simp [hexText]

theorem hexText_ne_cr (turns size : ℕ) : ∀ c ∈ hexText turns size, c ≠ cr := by
  induction turns generalizing size with
  | zero => nofun
  | succ turns ih =>
    intro c hc
    rw [hexText, List.mem_append, List.mem_singleton] at hc
    rcases hc with hc | rfl
    · split at hc
      · cases hc
      · exact ih _ c hc
    · exact (hexDigit_spec ⟨size % 16, Nat.mod_lt _ (by decide)⟩).2

/-- The size of a chunk header is parsed, and nothing is left for extensions. -/
theorem parseChunkSize_hexText {size : ℕ} (hsize : size < 2 ^ 64) :
    parseChunkSize (hexText (size + 1) size)
      = .ok (size, (hexText (size + 1) size).length) := by
  have h := chunkDigits_hexText (Nat.lt_succ_self size) hsize [] 0
  rw [List.append_nil] at h
  rw [parseChunkSize, h, Nat.zero_add]
  have hpos := List.length_pos_of_ne_nil (hexText_ne_nil size size)
  simp only [chunkDigits]
  rw [if_neg hpos.ne']

theorem validChunkExtensions_end (line : Text) : validChunkExtensions line line.length = true := by
  rw [validChunkExtensions, List.drop_length]
  rfl

end BitcoinNetwork.Http
