import BitcoinNetwork.Http.Framed
import BitcoinNetwork.Http.ValueLines

/-!
# Fronts of field values (messages/http/parser.cpp, frame_field)

Of which values so far `frame_field` accepts a value that extends them.
-/

namespace BitcoinNetwork.Http

/-! ### Pieces -/

/-- The last piece is at the end of a value, and what follows the value goes on with it. -/
theorem commaPieces_front (a : Text) : ∃ front last before, commaPieces a = front ++ [last] ∧
    a = before ++ last ∧ (front = [] → before = []) ∧
    ∀ b piece pieces, commaPieces b = piece :: pieces →
      commaPieces (a ++ b) = front ++ (last ++ piece) :: pieces := by
  induction a with
  | nil => exact ⟨[], [], [], rfl, rfl, fun _ => rfl, fun b piece pieces hb => hb⟩
  | cons c a ih =>
    obtain ⟨front, last, before, ha, hend, hone, happend⟩ := ih
    by_cases hc : c = comma
    · refine ⟨[] :: front, last, c :: before, ?_, by rw [hend]; rfl, fun hc => (by cases hc),
        fun b piece pieces hb => ?_⟩
      · rw [commaPieces, if_pos hc, ha]
        rfl
      · rw [List.cons_append, commaPieces, if_pos hc, happend b piece pieces hb]
        rfl
    · cases front with
      | nil =>
        refine ⟨[], c :: last, [], ?_, by rw [hend, hone rfl]; rfl, fun _ => rfl,
          fun b piece pieces hb => ?_⟩
        · rw [commaPieces, if_neg hc, ha]
          rfl
        · rw [List.cons_append, commaPieces, if_neg hc, happend b piece pieces hb]
          rfl
      | cons first front =>
        refine ⟨(c :: first) :: front, last, c :: before, ?_, by rw [hend]; rfl, fun hc => (by cases hc),
          fun b piece pieces hb => ?_⟩
        · rw [commaPieces, if_neg hc, ha]
          rfl
        · rw [List.cons_append, commaPieces, if_neg hc, happend b piece pieces hb]
          rfl

/-- The items of a list that a comma is behind. -/
def itemsBefore (value : Text) : List Text := (commaPieces value).dropLast.map trim

/-- The item behind the last comma of a list. -/
def lastItem (value : Text) : Text := trim ((commaPieces value).getLastD [])

theorem commaPieces_of_clear {text : Text} (h : ∀ c ∈ text, c ≠ comma) :
    commaPieces text = [text] := by
  have happend := commaPieces_append h (rfl : commaPieces [] = [[]])
  rwa [List.append_nil] at happend

/-! ### Numbers -/

theorem decimal_append (a b : Text) : decimal (a ++ b) = decimal a * 10 ^ b.length + decimal b := by
  have hfold : ∀ (b : Text) (n : ℕ), b.foldl (fun n c => 10 * n + (c.toNat - 48)) n =
      n * 10 ^ b.length + decimal b := by
    intro b
    induction b with
    | nil => intro n; simp [decimal]
    | cons c b ih =>
      intro n
      have hc := ih (c.toNat - 48)
      rw [decimal, List.foldl_cons, List.foldl_cons, ih, Nat.mul_zero, Nat.zero_add, hc,
        List.length_cons, pow_succ]
      ring
  rw [decimal, List.foldl_append]
  exact hfold b (decimal a)

theorem decimal_lt {text : Text} (h : ∀ c ∈ text, isDigit c = true) :
    decimal text < 10 ^ text.length := by
  induction text with
  | nil => exact Nat.one_pos
  | cons c text ih =>
    have hc : c.toNat - 48 ≤ 9 := by
      have hdigit := h c List.mem_cons_self
      simp only [isDigit, Bool.and_eq_true, decide_eq_true_eq] at hdigit
      have hle : c.toNat ≤ 57 := hdigit.2
      omega
    have htail := ih fun d hd => h d (List.mem_cons_of_mem c hd)
    have hone : decimal [c] = c.toNat - 48 := by simp [decimal]
    rw [show c :: text = [c] ++ text from rfl, decimal_append, hone, List.length_append, pow_add,
      List.length_singleton, pow_one]
    have hmul := Nat.mul_le_mul_right (10 ^ text.length) hc
    omega

/-- The number `n` can be written by going on with `item`. -/
def Begins (item : Text) (n : ℕ) : Prop :=
  (∀ c ∈ item, isDigit c = true) ∧ ∃ k, n / 10 ^ k = decimal item

theorem begins_of_denotes {item more : Text} {n : ℕ} (h : Denotes (item ++ more) n) :
    Begins item n := by
  obtain ⟨-, hdigits, rfl, -⟩ := h
  obtain ⟨hitem, hmore⟩ := List.forall_mem_append.mp hdigits
  refine ⟨hitem, more.length, ?_⟩
  rw [decimal_append, Nat.mul_comm, Nat.mul_add_div (by positivity),
    Nat.div_eq_of_lt (decimal_lt hmore), Nat.add_zero]

theorem denotes_of_begins {item : Text} {n : ℕ} (h : Begins item n) (hn : n < 2 ^ 64)
    (hne : item ≠ []) : ∃ more, (∀ c ∈ more, isDigit c = true) ∧ Denotes (item ++ more) n := by
  obtain ⟨hitem, k, hk⟩ := h
  induction k generalizing item with
  | zero =>
    rw [pow_zero, Nat.div_one] at hk
    exact ⟨[], nofun, by rw [List.append_nil]; exact ⟨hne, hitem, hk.symm, hn⟩⟩
  | succ k ih =>
    obtain ⟨hdigit, hvalue⟩ := digit_spec (Nat.mod_lt (n / 10 ^ k) (by decide : 0 < 10))
    have hnext : n / 10 ^ k = decimal (item ++ [digit (n / 10 ^ k % 10)]) := by
      have hone : decimal [digit (n / 10 ^ k % 10)] = n / 10 ^ k % 10 := by
        simp only [decimal, List.foldl_cons, List.foldl_nil, hvalue]
        omega
      rw [decimal_append, hone, ← hk, pow_succ, ← Nat.div_div_eq_div_mul, List.length_singleton,
        pow_one]
      omega
    obtain ⟨more, hmore, hdenotes⟩ := ih (by simp)
      (List.forall_mem_append.mpr ⟨hitem, List.forall_mem_singleton.mpr hdigit⟩) hnext
    refine ⟨digit (n / 10 ^ k % 10) :: more, List.forall_mem_cons.mpr ⟨hdigit, hmore⟩, ?_⟩
    rwa [List.append_assoc] at hdenotes

theorem exists_denotes {n : ℕ} (hn : n < 2 ^ 64) : ∃ text, Denotes text n := by
  have hbegins : Begins [digit 0] n := by
    refine ⟨List.forall_mem_singleton.mpr rfl, 20, ?_⟩
    rw [Nat.div_eq_of_lt (by omega)]
    rfl
  obtain ⟨more, -, hdenotes⟩ := denotes_of_begins hbegins hn (by simp)
  exact ⟨_, hdenotes⟩

/-! ### Splitting -/

/-- What is assumed of `system::split`, by whether it keeps the empty pieces of every list or
drops them from every list that has others. -/
structure SplitsBy (keeps : Bool) (split : Text → List Text) : Prop where
  lists : SplitsLists split
  kept : keeps = true → ∀ value, split value = (commaPieces value).map trim
  dropped : keeps = false → ∀ value, listItems value ≠ [] → split value = listItems value

theorem listItems_splitsBy : SplitsBy false listItems :=
  ⟨listItems_splits, nofun, fun _ _ _ => rfl⟩

/-! ### Content-Length -/

theorem fromChars_of_denotes {item : Text} {n : ℕ} (h : Denotes item n) :
    fromChars item = some (n, []) := by
  obtain ⟨hne, hdigits, rfl, hlt⟩ := h
  have hall : item.takeWhile isDigit = item := List.takeWhile_eq_self_iff.mpr hdigits
  have hnone : item.dropWhile isDigit = [] := List.dropWhile_eq_nil_iff.mpr hdigits
  simp only [fromChars, hall, hnone, if_neg hne, if_neg (Nat.not_le.mpr hlt)]

theorem frameLength_of_denotes {frame : Framing} {item : Text} {n : ℕ} (h : Denotes item n)
    (hframe : ∀ length ∈ frame.length, length = n) :
    frameLength frame item = .ok { frame with length := some n } := by
  have hchars := fromChars_of_denotes h
  obtain ⟨hne, hdigits, -, -⟩ := h
  obtain ⟨c, rest, rfl⟩ := List.exists_cons_of_ne_nil hne
  have hc := hdigits c List.mem_cons_self
  cases hlength : frame.length with
  | none => simp [frameLength, hchars, hc, hlength]
  | some length =>
    have heq := hframe length hlength
    simp [frameLength, hchars, hc, hlength, heq]

theorem frameLengths_of_denotes {items : List Text} {frame : Framing} {n : ℕ}
    (h : ∀ item ∈ items, Denotes item n) (hframe : ∀ length ∈ frame.length, length = n) :
    ∃ frame', items.foldlM frameLength frame = .ok frame' := by
  induction items generalizing frame with
  | nil => exact ⟨frame, rfl⟩
  | cons item items ih =>
    have hitem := frameLength_of_denotes (h item List.mem_cons_self) hframe
    rw [List.foldlM_cons, hitem]
    refine ih (fun item hmem => h item (List.mem_cons_of_mem _ hmem)) ?_
    intro length hlength
    exact (Option.some.inj hlength).symm

/-- The lengths of a list are of one number, which those before it do not contradict. -/
structure LengthList (keeps : Bool) (frame : Framing) (items : List Text) (n : ℕ) : Prop where
  lt : n < 2 ^ 64
  agrees : ∀ length ∈ frame.length, length = n
  items : ∀ item ∈ items, (keeps = false ∧ item = []) ∨ Denotes item n

theorem lengthList_of_framed {keeps : Bool} {split : Text → List Text} (hs : SplitsBy keeps split)
    {frame frame' : Framing} (hframe : ∀ length ∈ frame.length, length < 2 ^ 64) {value : Text}
    (h : (split value).foldlM frameLength frame = .ok frame') :
    ∃ n, LengthList keeps frame ((commaPieces value).map trim) n := by
  obtain ⟨-, -, hlength, hitems, hof⟩ := frameLengths_ok h
  -- An empty piece is read if and only if they are kept.
  have hread : ∀ item ∈ (commaPieces value).map trim,
      (keeps = false ∧ item = []) ∨ ∃ n, Denotes item n ∧ frame'.length = some n := by
    intro item hitem
    by_cases hempty : item = []
    · cases hk : keeps with
      | false => exact .inl ⟨rfl, hempty⟩
      | true => exact .inr (hitems item (by rwa [hs.kept hk]))
    · have hmem : item ∈ listItems value := List.mem_filter.mpr ⟨hitem, by simpa using hempty⟩
      exact .inr (hitems item (hs.lists.mem_items hmem))
  cases hresult : frame'.length with
  | some n =>
    refine ⟨n, ?_, fun length hbefore => ?_, fun item hitem => ?_⟩
    · rcases hof n hresult with hbefore | ⟨item, -, hdenotes⟩
      · exact hframe n hbefore
      · exact hdenotes.2.2.2
    · have hafter := hlength length hbefore
      rw [hresult] at hafter
      exact (Option.some.inj hafter).symm
    · refine (hread item hitem).imp_right ?_
      rintro ⟨m, hdenotes, hm⟩
      rw [hresult] at hm
      exact Option.some.inj hm ▸ hdenotes
  | none =>
    refine ⟨0, by decide, fun length hbefore => ?_, fun item hitem => ?_⟩
    · have hafter := hlength length hbefore
      rw [hresult] at hafter
      cases hafter
    · refine (hread item hitem).imp_right ?_
      rintro ⟨m, -, hm⟩
      rw [hresult] at hm
      cases hm

theorem framed_of_lengthList {keeps : Bool} {split : Text → List Text} (hs : SplitsBy keeps split)
    {frame : Framing} {value : Text} {n : ℕ}
    (h : LengthList keeps frame ((commaPieces value).map trim) n) (hsome : listItems value ≠ []) :
    ∃ frame', (split value).foldlM frameLength frame = .ok frame' := by
  refine frameLengths_of_denotes (fun item hitem => ?_) h.agrees
  cases hk : keeps with
  | true =>
    rw [hs.kept hk] at hitem
    exact (h.items item hitem).resolve_left fun hempty => by simp [hk] at hempty
  | false =>
    rw [hs.dropped hk value hsome] at hitem
    obtain ⟨hmem, hne⟩ := List.mem_filter.mp hitem
    exact (h.items item hmem).resolve_left fun hempty => by simp [hempty.2] at hne

/-! ### Values that can still be accepted -/

/-- `frame_field` accepts a value that goes on from this one. -/
def Viable (keeps : Bool) (frame : Framing) (name : Field) (value : Text) (goes : Bool) : Prop :=
  match name with
  | .connection => IsTokenList value
  | .contentLength => frame.chunked = false ∧ frame.encoded = false ∧
      ∃ n, LengthList keeps frame (itemsBefore value) n ∧
        (lastItem value = [] ∨ Denotes (lastItem value) n ∨
          (goes = true ∧ Begins (lastItem value) n))
  | .transferEncoding => frame.chunked = false ∧ frame.encoded = false ∧ frame.length = none ∧
      IsTokenList value
  | _ => True

/-- The items of a value, with what an extension of it adds to the last. -/
theorem Extends.pieces {goes : Bool} {value result : Text} (h : Extends goes value result) :
    ∃ front last more pieces, commaPieces value = front ++ [last] ∧
      commaPieces result = front ++ (last ++ more) :: pieces ∧
      (goes = false → last = [] ∨ ∀ c ∈ more.head?, isWhitespace c = true) := by
  obtain ⟨back, rfl, hback⟩ := h
  obtain ⟨front, last, -, hvalue, -, -, happend⟩ := commaPieces_front value
  obtain ⟨more, pieces, hmore⟩ := commaPieces_cons_exists back
  refine ⟨front, last, more, pieces, hvalue, happend _ _ _ hmore, fun hgoes => ?_⟩
  rcases hback hgoes with hnil | hhead
  · rw [hnil] at hvalue
    cases front with
    | nil => exact .inl (List.cons.inj hvalue).1.symm
    | cons first front =>
      have hlen := congrArg List.length hvalue
      simp [commaPieces] at hlen
  · right
    cases back with
    | nil =>
      cases hmore
      intro d hd
      cases hd
    | cons c back =>
      have hc : isWhitespace c = true := hhead c rfl
      rw [commaPieces, if_neg (isWhitespace_ne_comma hc)] at hmore
      split at hmore
      · cases hmore
        intro d hd
        cases hd
        exact hc
      · cases hmore
        intro d hd
        cases hd
        exact hc

/-- An item that is one word extends the item before it, if that is not empty. -/
theorem trim_word {text more : Text} (hword : ∀ c ∈ trim (text ++ more), isWhitespace c = false) :
    trim text = [] ∨ ∃ back, trim (text ++ more) = trim text ++ back ∧
      ((∀ c ∈ more.head?, isWhitespace c = true) → back = []) := by
  obtain ⟨back, heq, -⟩ := extends_trim text more
  refine or_iff_not_imp_left.mpr fun hne => ⟨back, heq, fun hhead => ?_⟩
  cases more with
  | nil =>
    rw [List.append_nil] at heq
    exact List.self_eq_append_right.mp heq
  | cons w more =>
    -- The whitespace ends the item, and nothing can follow whitespace in a word.
    have hw : isWhitespace w = true := hhead w rfl
    have hblank : ∀ c ∈ [w], isWhitespace c = true := List.forall_mem_singleton.mpr hw
    obtain ⟨behind, hbehind, hgoes⟩ := extends_trim (text ++ [w]) more
    rw [List.append_assoc, List.singleton_append, trim_append_blank hblank] at hbehind
    rw [trim_append_blank hblank] at hgoes
    have hstops : goesOn (text ++ [w]) = false := by simp [goesOn, hw]
    have hws := (hgoes hstops).resolve_left hne
    rw [heq] at hbehind hword
    rw [List.append_cancel_left_eq] at hbehind
    cases behind with
    | nil => exact hbehind
    | cons c behind =>
      have hc := hws c rfl
      rw [hword c (by rw [hbehind]; simp)] at hc
      cases hc

theorem isDigit_not_whitespace {c : UInt8} (h : isDigit c = true) : isWhitespace c = false :=
  isTchar_not_whitespace (isDigit_isTchar h)

theorem IsTokenList.item {value : Text} (h : IsTokenList value) {piece : Text}
    (hpiece : piece ∈ commaPieces value) : ∀ c ∈ trim piece, isTchar c = true := by
  by_cases hnil : trim piece = []
  · rw [hnil]
    nofun
  · refine h _ (List.mem_filter.mpr ⟨List.mem_map_of_mem hpiece, by simpa using hnil⟩)

theorem isTokenList_of_pieces {value : Text}
    (h : ∀ piece ∈ commaPieces value, ∀ c ∈ trim piece, isTchar c = true) : IsTokenList value := by
  intro item hitem
  obtain ⟨piece, hpiece, rfl⟩ := List.mem_map.mp (List.mem_filter.mp hitem).1
  exact h piece hpiece

theorem isTokenList_iff {value : Text} : (tokenList value).2 = true ↔ IsTokenList value :=
  ⟨fun h item hitem => ((tokenList_items h).2 item hitem).2, tokenList_valid⟩

theorem Extends.isTokenList {goes : Bool} {value result : Text} (h : Extends goes value result)
    (hlist : IsTokenList result) : IsTokenList value := by
  obtain ⟨front, last, more, pieces, hvalue, hresult, -⟩ := h.pieces
  refine isTokenList_of_pieces fun piece hpiece => ?_
  rw [hvalue, List.mem_append, List.mem_singleton] at hpiece
  rcases hpiece with hfront | rfl
  · exact hlist.item (by rw [hresult]; exact List.mem_append_left _ hfront)
  · have hmem : piece ++ more ∈ commaPieces result := by rw [hresult]; simp
    have hitem := hlist.item hmem
    obtain hnil | ⟨back, heq, -⟩ := trim_word fun c hc => isTchar_not_whitespace (hitem c hc)
    · rw [hnil]
      nofun
    · rw [heq] at hitem
      exact (List.forall_mem_append.mp hitem).1

theorem viable_length {keeps : Bool} {frame : Framing} {goes : Bool} {value result : Text}
    (h : Extends goes value result) {n : ℕ}
    (hlengths : LengthList keeps frame ((commaPieces result).map trim) n) :
    LengthList keeps frame (itemsBefore value) n ∧
      (lastItem value = [] ∨ Denotes (lastItem value) n ∨
        (goes = true ∧ Begins (lastItem value) n)) := by
  obtain ⟨front, last, more, pieces, hvalue, hresult, hback⟩ := h.pieces
  have hbefore : itemsBefore value = front.map trim := by simp [itemsBefore, hvalue]
  have hlast : lastItem value = trim last := by simp [lastItem, hvalue]
  rw [hresult, List.map_append, List.map_cons] at hlengths
  rw [hbefore, hlast]
  refine ⟨⟨hlengths.lt, hlengths.agrees, fun item hitem =>
    hlengths.items item (List.mem_append_left _ hitem)⟩, ?_⟩
  rcases hlengths.items (trim (last ++ more)) (by simp) with ⟨-, hempty⟩ | hdenotes
  · obtain ⟨behind, heq, -⟩ := extends_trim last more
    rw [hempty] at heq
    exact .inl (List.append_eq_nil_iff.mp heq.symm).1
  · have hword : ∀ c ∈ trim (last ++ more), isWhitespace c = false :=
      fun c hc => isDigit_not_whitespace (hdenotes.2.1 c hc)
    rcases trim_word hword with hnil | ⟨behind, heq, hstop⟩
    · exact .inl hnil
    · rw [heq] at hdenotes
      cases goes with
      | true => exact .inr (.inr ⟨rfl, begins_of_denotes hdenotes⟩)
      | false =>
        rcases hback rfl with rfl | hhead
        · exact .inl rfl
        · rw [hstop hhead, List.append_nil] at hdenotes
          exact .inr (.inl hdenotes)

/-- If a value that extends this one is accepted, this one is viable. -/
theorem viable_of_extends {keeps : Bool} {split : Text → List Text} (hs : SplitsBy keeps split)
    {frame frame' : Framing} (hframe : ∀ length ∈ frame.length, length < 2 ^ 64) {name : Field}
    {goes : Bool} {value result : Text} (h : Extends goes value result)
    (hok : frameField split frame name result = .ok frame') :
    Viable keeps frame name value goes := by
  unfold Viable
  split
  · rw [frameField, if_pos rfl] at hok
    split at hok
    · next hlist => exact h.isTokenList (isTokenList_iff.mp hlist)
    · cases hok
  · rw [frameField, if_neg nofun, if_pos rfl] at hok
    split at hok
    · cases hok
    · next hfresh =>
      simp only [Bool.or_eq_true, not_or, Bool.not_eq_true] at hfresh
      obtain ⟨n, hlengths⟩ := lengthList_of_framed hs hframe hok
      exact ⟨hfresh.1.1, hfresh.1.2, n, viable_length h hlengths⟩
  · rw [frameField, if_neg nofun, if_neg nofun, if_pos rfl] at hok
    split at hok
    · cases hok
    · next hfresh =>
      dsimp only at hok
      split at hok
      · cases hok
      · next hlist =>
        simp only [Bool.or_eq_true, not_or, Bool.not_eq_true, Bool.not_eq_true',
          Bool.not_eq_false, Option.isSome_eq_false_iff, Option.isNone_iff_eq_none] at hfresh hlist
        exact ⟨hfresh.1.1, hfresh.1.2, hfresh.2, h.isTokenList (isTokenList_iff.mp hlist.1)⟩
  · trivial

theorem joinValue_pieces (value : Text) {part piece : Text} {pieces : List Text}
    (hne : part ≠ []) (hpart : commaPieces part = piece :: pieces) :
    ∃ front last gap, commaPieces value = front ++ [last] ∧ (∀ c ∈ gap, isWhitespace c = true) ∧
      commaPieces (joinValue value part) = front ++ (last ++ (gap ++ piece)) :: pieces := by
  by_cases hvalue : value = []
  · refine ⟨[], [], [], by rw [hvalue]; rfl, nofun, ?_⟩
    rw [hvalue, joinValue_nil_left, hpart]
    rfl
  · obtain ⟨front, last, -, hpieces, -, -, happend⟩ := commaPieces_front value
    refine ⟨front, last, [sp], hpieces, List.forall_mem_singleton.mpr rfl, ?_⟩
    rw [joinValue_of_ne_nil hvalue hne]
    refine happend _ _ _ ?_
    rw [commaPieces, if_neg (by decide), hpart]
    rfl

theorem isTrimmed_of_word {text : Text} (h : ∀ c ∈ text, isWhitespace c = false) :
    IsTrimmed text :=
  ⟨fun c hc => h c (List.mem_of_head? hc), fun c hc => h c (List.mem_of_getLast? hc)⟩

theorem isVisible_of_tchars {text : Text} (h : ∀ c ∈ text, isTchar c = true) : IsVisible text :=
  fun c hc => isTchar_not_control (h c hc)

theorem frameField_length {split : Text → List Text} {keeps : Bool} (hs : SplitsBy keeps split)
    {frame : Framing} (hchunked : frame.chunked = false) (hencoded : frame.encoded = false)
    {value : Text} {n : ℕ} (h : LengthList keeps frame ((commaPieces value).map trim) n)
    (hsome : listItems value ≠ []) :
    ∃ frame', frameField split frame .contentLength value = .ok frame' := by
  have hlist : IsTokenList value := by
    intro item hitem
    obtain ⟨hmem, hne⟩ := List.mem_filter.mp hitem
    rcases h.items item hmem with ⟨-, hempty⟩ | hdenotes
    · simp [hempty] at hne
    · exact fun c hc => isDigit_isTchar (hdenotes.2.1 c hc)
  obtain ⟨frame', hframe⟩ := framed_of_lengthList hs h hsome
  refine ⟨frame', ?_⟩
  rw [frameField, if_neg nofun, if_pos rfl, hchunked, hencoded, isTokenList_iff.mpr hlist]
  exact hframe

theorem isDigit_ne_comma {c : UInt8} (h : isDigit c = true) : c ≠ comma :=
  isTchar_ne_comma (isDigit_isTchar h)

/-- A number behind a viable list of lengths is accepted. -/
theorem frameField_viable_length {split : Text → List Text} {keeps : Bool}
    (hs : SplitsBy keeps split) {frame : Framing} {value : Text} {goes : Bool}
    (htrim : IsTrimmed value) (h : Viable keeps frame .contentLength value goes) :
    ∃ part frame', (∀ c ∈ part, isTchar c = true) ∧
      (frameField split frame .contentLength (joinValue value part) = .ok frame' ∨
        goes = true ∧ part ≠ [] ∧
          frameField split frame .contentLength (value ++ part) = .ok frame') := by
  obtain ⟨hchunked, hencoded, n, hlengths, hlast⟩ := h
  obtain ⟨front, last, before, hpieces, hend, -, happend⟩ := commaPieces_front value
  have hbefore : itemsBefore value = front.map trim := by simp [itemsBefore, hpieces]
  have hitem : lastItem value = trim last := by simp [lastItem, hpieces]
  rw [hbefore] at hlengths
  rw [hitem] at hlast
  -- A last item that denotes the number completes the list.
  have hcomplete : ∀ {result last' : Text}, commaPieces result = front ++ [last'] →
      Denotes (trim last') n → ∃ frame', frameField split frame .contentLength result = .ok frame' := by
    intro result last' hresult hdenotes
    refine frameField_length hs hchunked hencoded (n := n) ⟨hlengths.lt, hlengths.agrees, ?_⟩ ?_
    · rw [hresult, List.map_append, List.forall_mem_append]
      exact ⟨hlengths.items, List.forall_mem_singleton.mpr (.inr hdenotes)⟩
    · have hmem : trim last' ∈ listItems result :=
        List.mem_filter.mpr ⟨by simp [hresult], by simpa using hdenotes.1⟩
      exact List.ne_nil_of_mem hmem
  by_cases hnil : trim last = []
  · obtain ⟨text, htext⟩ := exists_denotes hlengths.lt
    have hclear := commaPieces_of_clear fun c hc => isDigit_ne_comma (htext.2.1 c hc)
    obtain ⟨front', last', gap, hpieces', hgap, hjoin⟩ := joinValue_pieces value htext.1 hclear
    obtain ⟨rfl, hsame⟩ := List.append_inj' (hpieces.symm.trans hpieces') rfl
    cases hsame
    have hword : trim (last ++ (gap ++ text)) = text := by
      rw [trim_whitespace_append (trim_eq_nil_iff.mp hnil), trim_whitespace_append hgap]
      exact trim_of_trimmed (isTrimmed_of_word fun c hc => isDigit_not_whitespace (htext.2.1 c hc))
    obtain ⟨frame', hframe⟩ := hcomplete hjoin (by rw [hword]; exact htext)
    exact ⟨text, frame', fun c hc => isDigit_isTchar (htext.2.1 c hc), .inl hframe⟩
  rcases hlast.resolve_left hnil with hdenotes | ⟨hgoes, hbegins⟩
  · obtain ⟨frame', hframe⟩ := hcomplete hpieces hdenotes
    exact ⟨[], frame', nofun, .inl hframe⟩
  · obtain ⟨more, hdigits, hdenotes⟩ := denotes_of_begins hbegins hlengths.lt hnil
    by_cases hmore : more = []
    · rw [hmore, List.append_nil] at hdenotes
      obtain ⟨frame', hframe⟩ := hcomplete hpieces hdenotes
      exact ⟨[], frame', nofun, .inl hframe⟩
    · have hword : IsTrimmed more :=
        isTrimmed_of_word fun c hc => isDigit_not_whitespace (hdigits c hc)
      have hlastgoes : goesOn last = true := by
        have hne : last ≠ [] := by
          rintro rfl
          exact hnil rfl
        obtain ⟨c, hc⟩ := Option.ne_none_iff_exists'.mp (mt List.getLast?_eq_none_iff.mp hne)
        have hvalue : value.getLast? = some c := by
          rw [hend, List.getLast?_append_of_ne_nil _ hne, hc]
        simp [goesOn, hc, htrim.2 c hvalue]
      have hclear := commaPieces_of_clear fun c hc => isDigit_ne_comma (hdigits c hc)
      obtain ⟨frame', hframe⟩ := hcomplete (happend more more [] hclear)
        (by rw [(trim_append_goesOn hlastgoes hmore hword).2]; exact hdenotes)
      exact ⟨more, frame', fun c hc => isDigit_isTchar (hdigits c hc), .inr ⟨hgoes, hmore, hframe⟩⟩

/-- A coding behind a viable list of codings is accepted. -/
theorem frameField_viable_encoding (split : Text → List Text) {keeps : Bool} {frame : Framing}
    {value : Text} {goes : Bool} (h : Viable keeps frame .transferEncoding value goes) :
    ∃ frame', frameField split frame .transferEncoding (joinValue value [comma, 120]) =
      .ok frame' := by
  obtain ⟨hchunked, hencoded, hlength, hlist⟩ := h
  obtain ⟨front, last, gap, hpieces, hgap, hjoin⟩ :=
    joinValue_pieces value (by simp : [comma, 120] ≠ [])
      (by decide : commaPieces [comma, 120] = [[], [120]])
  have hlist' : IsTokenList (joinValue value [comma, 120]) := by
    refine isTokenList_of_pieces fun piece hpiece => ?_
    rw [hjoin, List.append_nil, List.mem_append, List.mem_cons, List.mem_singleton] at hpiece
    rcases hpiece with hfront | rfl | rfl
    · exact hlist.item (by rw [hpieces]; exact List.mem_append_left _ hfront)
    · rw [trim_append_blank hgap]
      exact hlist.item (by rw [hpieces]; simp)
    · exact List.forall_mem_singleton.mpr rfl
  have hvalid := isTokenList_iff.mpr hlist'
  have hsome : (tokenList (joinValue value [comma, 120])).1 ≠ [] := by
    rw [(tokenList_items hvalid).1]
    have hmem : trim [120] ∈ listItems (joinValue value [comma, 120]) :=
      List.mem_filter.mpr ⟨by rw [hjoin]; simp, by decide⟩
    exact List.ne_nil_of_mem hmem
  rw [frameField, if_neg nofun, if_neg nofun, if_pos rfl]
  simp only [hchunked, hencoded, hlength, hvalid, List.isEmpty_eq_false_iff.mpr hsome]
  exact ⟨_, rfl⟩

/-- If a value is viable, some value that goes on from it is accepted. -/
theorem accepted_of_viable {split : Text → List Text} {keeps : Bool} (hs : SplitsBy keeps split)
    {frame : Framing} {name : Field} {value : Text} {goes : Bool} (htrim : IsTrimmed value)
    (h : Viable keeps frame name value goes) :
    ∃ part frame', (∀ c ∈ part, isTchar c = true ∨ c = comma) ∧
      (frameField split frame name (joinValue value part) = .ok frame' ∨
        goes = true ∧ part ≠ [] ∧ frameField split frame name (value ++ part) = .ok frame') := by
  by_cases hconnection : name = .connection
  · subst hconnection
    refine ⟨[], frame, nofun, .inl ?_⟩
    rw [joinValue_nil_right, frameField, if_pos rfl, isTokenList_iff.mpr h]
    rfl
  by_cases hlength : name = .contentLength
  · subst hlength
    obtain ⟨part, frame', hpart, hok⟩ := frameField_viable_length hs htrim h
    exact ⟨part, frame', fun c hc => .inl (hpart c hc), hok⟩
  by_cases hencoding : name = .transferEncoding
  · subst hencoding
    obtain ⟨frame', hok⟩ := frameField_viable_encoding split h
    exact ⟨[comma, 120], frame', List.forall_mem_cons.mpr ⟨.inr rfl,
      List.forall_mem_singleton.mpr (.inl rfl)⟩, .inl hok⟩
  · refine ⟨[], frame, nofun, .inl ?_⟩
    rw [frameField, if_neg hconnection, if_neg hlength, if_neg hencoding]

end BitcoinNetwork.Http
