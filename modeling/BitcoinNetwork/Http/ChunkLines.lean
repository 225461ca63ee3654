import BitcoinNetwork.Http.Written
import Mathlib.Data.Nat.Digits.Lemmas

/-!
# Chunk lines (messages/http/parser.cpp, parse_chunk_size and valid_chunk_extensions)

A size is the hex digits at the front of the line, and what is behind them is extensions by
the grammar that the source documents. The quoted strings of the grammar have no control
characters; those that the source accepts may have any.
-/

namespace BitcoinNetwork.Http

/-! ### The size -/

/-- The value of hex digits. -/
def hexValue (digits : Text) : ℕ := Nat.ofDigits 16 (digits.filterMap toNibble).reverse

/-- The hex digits at the front of a line. -/
def hexDigits (line : Text) : Text := line.takeWhile fun c => (toNibble c).isSome

theorem toNibble_lt {c : UInt8} {n : ℕ} (h : toNibble c = some n) : n < 16 := by
  have hall : ∀ c : UInt8, ∀ n ∈ toNibble c, n < 16 :=
    Binary.forall_byte (P := fun c => ∀ n ∈ toNibble c, n < 16) (by decide +kernel)
  exact hall c n h

theorem ofDigits_foldl (nibbles : List ℕ) (size : ℕ) :
    nibbles.foldl (fun size nibble => size * 16 + nibble) size =
      size * 16 ^ nibbles.length + Nat.ofDigits 16 nibbles.reverse := by
  induction nibbles generalizing size with
  | nil => simp
  | cons nibble nibbles ih =>
    rw [List.foldl_cons, ih, List.reverse_cons, Nat.ofDigits_append, List.length_reverse,
      List.length_cons, pow_succ, Nat.ofDigits_singleton]
    ring

/-- The digits are read while the size has room for another, which is while it is below
2^64 with those behind it. -/
theorem chunkDigits_eq (line : Text) {size : ℕ} (hsize : size < 2 ^ 64) (index : ℕ) :
    chunkDigits line size index =
      let value := ((hexDigits line).filterMap toNibble).foldl
        (fun size nibble => size * 16 + nibble) size
      if value < 2 ^ 64 then some (value, index + (hexDigits line).length) else none := by
  induction line generalizing size index with
  | nil =>
    have hdigits : hexDigits [] = [] := rfl
    rw [hdigits]
    exact (if_pos hsize).symm
  | cons c rest ih =>
    rw [chunkDigits]
    cases hc : toNibble c with
    | none =>
      have hdigits : hexDigits (c :: rest) = [] := by simp [hexDigits, hc]
      rw [hdigits]
      exact (if_pos hsize).symm
    | some nibble =>
      have hlt := toNibble_lt hc
      have hdigits : hexDigits (c :: rest) = c :: hexDigits rest := by simp [hexDigits, hc]
      dsimp only
      rw [hdigits, List.filterMap_cons_some hc, List.foldl_cons]
      by_cases hroom : (2 ^ 64 - 1) / 16 < size
      · have hle : size * 16 + nibble ≤ ((hexDigits rest).filterMap toNibble).foldl
            (fun size nibble => size * 16 + nibble) (size * 16 + nibble) := by
          rw [ofDigits_foldl]
          have hpow : 1 ≤ 16 ^ ((hexDigits rest).filterMap toNibble).length := Nat.one_le_pow' _ _
          have hmul := Nat.mul_le_mul_left (size * 16 + nibble) hpow
          omega
        rw [if_pos hroom, if_neg (by omega)]
      · rw [if_neg hroom, ih (by omega), List.length_cons]
        simp only [Nat.add_assoc, Nat.add_comm 1]

theorem chunk_size_eq (line : Text) : parseChunkSize line =
    if hexDigits line ≠ [] ∧ hexValue (hexDigits line) < 2 ^ 64 then
      .ok (hexValue (hexDigits line), (hexDigits line).length)
    else .error .badChunk := by
  have hvalue := ofDigits_foldl ((hexDigits line).filterMap toNibble) 0
  rw [Nat.zero_mul, Nat.zero_add] at hvalue
  unfold parseChunkSize
  rw [chunkDigits_eq line (by decide) 0]
  dsimp only
  rw [hvalue, Nat.zero_add]
  show _ = if hexDigits line ≠ [] ∧ hexValue (hexDigits line) < 2 ^ 64 then _ else _
  unfold hexValue
  by_cases hfits : Nat.ofDigits 16 ((hexDigits line).filterMap toNibble).reverse < 2 ^ 64
  · by_cases hnil : hexDigits line = []
    · rw [if_pos hfits, if_neg (fun h => h.1 hnil), hnil]
      rfl
    · rw [if_pos hfits, if_pos ⟨hnil, hfits⟩]
      dsimp only
      rw [if_neg (List.length_pos_of_ne_nil hnil).ne']
  · rw [if_neg hfits, if_neg (fun h => hfits h.2)]

/-! ### The grammar of extensions -/

def IsBlank (text : Text) : Prop := ∀ c ∈ text, isWhitespace c = true

/-- What is between the quotes of a quoted string, of characters that are allowed there. -/
inductive Quoted (allowed : UInt8 → Prop) : Text → Prop
  | nil : Quoted allowed []
  | text {c rest} (hquote : c ≠ quote) (hbackslash : c ≠ backslash) (hc : allowed c)
      (hrest : Quoted allowed rest) : Quoted allowed (c :: rest)
  | pair {c rest} (hc : allowed c) (hrest : Quoted allowed rest) :
      Quoted allowed (backslash :: c :: rest)

/-- `chunk-ext-val`. -/
inductive ExtensionValue (allowed : UInt8 → Prop) : Text → Prop
  | token {text} (h : IsToken text) : ExtensionValue allowed text
  | quoted {text} (h : Quoted allowed text) : ExtensionValue allowed (quote :: (text ++ [quote]))

/-- An extension from behind its semicolon: a name, and a value if it has one. -/
inductive Named (allowed : UInt8 → Prop) : Text → Prop
  | name {blank name} (hblank : IsBlank blank) (hname : IsToken name) :
      Named allowed (blank ++ name)
  | value {blank name before after value} (hblank : IsBlank blank) (hname : IsToken name)
      (hbefore : IsBlank before) (hafter : IsBlank after) (hvalue : ExtensionValue allowed value) :
      Named allowed (blank ++ (name ++ (before ++ equals :: (after ++ value))))

/-- `chunk-ext`. -/
inductive Extensions (allowed : UInt8 → Prop) : Text → Prop
  | nil : Extensions allowed []
  | cons {blank named rest} (hblank : IsBlank blank) (hnamed : Named allowed named)
      (hrest : Extensions allowed rest) :
      Extensions allowed (blank ++ semicolon :: (named ++ rest))

/-! ### Quoted strings -/

theorem quotedRest_of_quoted {text : Text} (h : Quoted (fun _ => True) text) (rest : Text) :
    quotedRest (text ++ quote :: rest) = some rest := by
  induction h with
  | nil => rw [List.nil_append, quotedRest.eq_def]; simp
  | text hquote hbackslash _ _ ih =>
    rw [List.cons_append, quotedRest.eq_def]
    simp only [hquote, hbackslash, if_false]
    exact ih
  | pair _ _ ih =>
    rw [List.cons_append, List.cons_append, quotedRest.eq_def]
    simp only [show backslash ≠ quote by decide, if_false, if_true]
    exact ih

theorem quoted_of_quotedRest {text rest : Text} (h : quotedRest text = some rest) :
    ∃ front, Quoted (fun _ => True) front ∧ text = front ++ quote :: rest := by
  fun_induction quotedRest text with
  | case1 => cases h
  | case2 behind =>
    cases h
    exact ⟨[], .nil, rfl⟩
  | case3 => cases h
  | case4 d behind hquote ih =>
    obtain ⟨front, hfront, rfl⟩ := ih h
    exact ⟨backslash :: d :: front, .pair trivial hfront, rfl⟩
  | case5 c behind hquote hbackslash ih =>
    obtain ⟨front, hfront, rfl⟩ := ih h
    exact ⟨c :: front, .text hquote hbackslash trivial hfront, rfl⟩

/-! ### What the scanner passes -/

theorem isWhitespace_not_tchar {c : UInt8} (h : isWhitespace c = true) : isTchar c = false := by
  by_contra hc
  rw [isTchar_not_whitespace (by simpa using hc)] at h
  cases h

theorem dropWhile_of_head {p : UInt8 → Bool} {text : Text} (h : ∀ c ∈ text.head?, p c = false) :
    text.dropWhile p = text ∧ text.takeWhile p = [] := by
  cases text with
  | nil => exact ⟨rfl, rfl⟩
  | cons c rest =>
    have hc : p c = false := h c rfl
    exact ⟨List.dropWhile_cons_of_neg (by simp [hc]), List.takeWhile_cons_of_neg (by simp [hc])⟩

theorem pass_blank {blank : Text} (hblank : IsBlank blank) {text : Text}
    (h : ∀ c ∈ text.head?, isWhitespace c = false) :
    (blank ++ text).dropWhile isWhitespace = text ∧
      (blank ++ text).takeWhile isWhitespace = blank := by
  obtain ⟨hdrop, htake⟩ := dropWhile_of_head h
  rw [List.dropWhile_append_of_pos hblank, List.takeWhile_append_of_pos hblank, hdrop, htake,
    List.append_nil]
  exact ⟨rfl, rfl⟩

theorem pass_name {name : Text} (hname : IsToken name) {text : Text}
    (h : ∀ c ∈ text.head?, isTchar c = false) :
    (name ++ text).dropWhile isTchar = text ∧ (name ++ text).takeWhile isTchar = name := by
  obtain ⟨hdrop, htake⟩ := dropWhile_of_head h
  rw [List.dropWhile_append_of_pos hname.2, List.takeWhile_append_of_pos hname.2, hdrop, htake,
    List.append_nil]
  exact ⟨rfl, rfl⟩

theorem mark_head {p : UInt8 → Bool} {mark : UInt8} (hmark : p mark = false) (text : Text) :
    ∀ c ∈ (mark :: text).head?, p c = false := by
  intro c hc
  cases hc
  exact hmark

theorem unspaced {text : Text} (h : ¬(!(text.takeWhile isWhitespace).isEmpty) = true) :
    text.takeWhile isWhitespace = [] := by
  cases ht : text.takeWhile isWhitespace with
  | nil => rfl
  | cons => simp [ht] at h

theorem isBlank_takeWhile (text : Text) : IsBlank (text.takeWhile isWhitespace) :=
  fun _ hc => List.mem_takeWhile_imp hc

theorem isToken_takeWhile {text : Text} (h : (text.takeWhile isTchar).isEmpty = false) :
    IsToken (text.takeWhile isTchar) :=
  ⟨by simpa using h, fun _ hc => List.mem_takeWhile_imp hc⟩

/-- A name does not begin as blanks do. -/
theorem IsToken.head {name : Text} (hname : IsToken name) (text : Text) :
    ∀ c ∈ (name ++ text).head?, isWhitespace c = false := by
  obtain ⟨c, name, rfl⟩ := List.exists_cons_of_ne_nil hname.1
  intro d hd
  cases hd
  exact isTchar_not_whitespace (hname.2 c List.mem_cons_self)

/-- Blanks, and a mark behind them, end a name. -/
theorem IsBlank.ends {blank : Text} (hblank : IsBlank blank) {mark : UInt8}
    (hmark : isTchar mark = false) (text : Text) :
    ∀ c ∈ (blank ++ mark :: text).head?, isTchar c = false := by
  intro c hc
  cases blank with
  | nil =>
    cases hc
    exact hmark
  | cons b blank =>
    cases hc
    exact isWhitespace_not_tchar (hblank c List.mem_cons_self)

theorem Extensions.ends {allowed : UInt8 → Prop} {text : Text} (h : Extensions allowed text) :
    ∀ c ∈ text.head?, isTchar c = false := by
  cases h with
  | nil =>
    intro c hc
    cases hc
  | cons hblank => exact hblank.ends (by decide) _

/-! ### What the scanner accepts is of the grammar -/

theorem scan_semicolon (turns : ℕ) {blank : Text} (hblank : IsBlank blank) (text : Text) :
    chunkExtensions (turns + 1) true (blank ++ semicolon :: text) =
      chunkExtensions turns false text := by
  have hpass := (pass_blank hblank (mark_head (by decide : isWhitespace semicolon = false) text)).1
  cases blank with
  | nil =>
    rw [List.nil_append] at hpass ⊢
    rw [chunkExtensions]
    simp only [bne_self_eq_false, Bool.and_false, Bool.false_eq_true, if_false, hpass]
    simp
  | cons c blank =>
    have hc : isWhitespace c = true := hblank c List.mem_cons_self
    rw [List.cons_append] at hpass ⊢
    rw [chunkExtensions]
    simp only [hc, Bool.not_true, Bool.false_and, Bool.false_eq_true, if_false, hpass]
    simp

/-- What the scanner does behind a name. -/
def behindName (turns : ℕ) (behind : Text) : Bool :=
  let spaced := !(behind.takeWhile isWhitespace).isEmpty
  match behind.dropWhile isWhitespace with
  | [] => if spaced then false else chunkExtensions turns true []
  | c :: rest =>
    if c = semicolon then chunkExtensions turns false rest
    else if c ≠ equals then
      if spaced then false else chunkExtensions turns true (c :: rest)
    else match rest.dropWhile isWhitespace with
      | [] => false
      | c :: value =>
        if c ≠ quote then
          if !isTchar c then false
          else chunkExtensions turns true ((c :: value).dropWhile isTchar)
        else match quotedRest value with
          | none => false
          | some value => chunkExtensions turns true value

theorem scan_name (turns : ℕ) {blank name behind : Text} (hblank : IsBlank blank)
    (hname : IsToken name) (hends : ∀ c ∈ behind.head?, isTchar c = false) :
    chunkExtensions (turns + 1) false (blank ++ (name ++ behind)) = behindName turns behind := by
  obtain ⟨hdrop, htake⟩ := pass_name hname hends
  rw [chunkExtensions, (pass_blank hblank (hname.head behind)).1]
  simp only [hdrop, htake, List.isEmpty_eq_false_iff.mpr hname.1, Bool.false_eq_true, if_false]
  rfl

theorem scan_name_inv {turns : ℕ} {text : Text}
    (h : chunkExtensions (turns + 1) false text = true) :
    ∃ blank name behind, text = blank ++ (name ++ behind) ∧ IsBlank blank ∧ IsToken name ∧
      behindName turns behind = true := by
  have hblank := List.takeWhile_append_dropWhile (p := isWhitespace) (l := text)
  have hname := List.takeWhile_append_dropWhile (p := isTchar)
    (l := text.dropWhile isWhitespace)
  rw [chunkExtensions] at h
  cases hempty : ((text.dropWhile isWhitespace).takeWhile isTchar).isEmpty with
  | true => simp [hempty] at h
  | false =>
    simp only [hempty, Bool.false_eq_true, if_false] at h
    exact ⟨_, _, _, by rw [hname, hblank], isBlank_takeWhile text, isToken_takeWhile hempty, h⟩

theorem value_inv {turns : ℕ} {text : Text}
    (h : (match text with
      | [] => false
      | c :: value =>
        if c ≠ quote then
          if !isTchar c then false
          else chunkExtensions turns true ((c :: value).dropWhile isTchar)
        else match quotedRest value with
          | none => false
          | some value => chunkExtensions turns true value) = true) :
    ∃ value rest, ExtensionValue (fun _ => True) value ∧ text = value ++ rest ∧
      chunkExtensions turns true rest = true := by
  cases text with
  | nil => cases h
  | cons c text =>
    dsimp only at h
    split at h
    · split at h
      · cases h
      · next hc =>
        have hname : IsToken ((c :: text).takeWhile isTchar) :=
          isToken_takeWhile (by simpa [List.takeWhile_cons] using hc)
        exact ⟨_, _, .token hname, List.takeWhile_append_dropWhile.symm, h⟩
    · next hc =>
      cases hrest : quotedRest text with
      | none => simp [hrest] at h
      | some rest =>
        simp only [hrest] at h
        obtain ⟨front, hfront, rfl⟩ := quoted_of_quotedRest hrest
        exact ⟨_, rest, .quoted hfront, by simp [not_not.mp hc], h⟩

/-- What is behind a name: nothing more of its extension, another extension or a value. -/
theorem behindName_inv {turns : ℕ} {behind : Text} (h : behindName turns behind = true) :
    chunkExtensions turns true behind = true ∨
    (∃ blank text, behind = blank ++ semicolon :: text ∧ IsBlank blank ∧
      chunkExtensions turns false text = true) ∨
    ∃ before after value rest, behind = before ++ equals :: (after ++ (value ++ rest)) ∧
      IsBlank before ∧ IsBlank after ∧ ExtensionValue (fun _ => True) value ∧
      chunkExtensions turns true rest = true := by
  have hsplit := List.takeWhile_append_dropWhile (p := isWhitespace) (l := behind)
  have hbefore := isBlank_takeWhile behind
  unfold behindName at h
  cases hskip : behind.dropWhile isWhitespace with
  | nil =>
    simp only [hskip] at h
    rw [hskip, List.append_nil] at hsplit
    split at h
    · cases h
    · next hspaced =>
      rw [← hsplit, unspaced hspaced]
      exact .inl h
  | cons c rest =>
    simp only [hskip] at h
    rw [hskip] at hsplit
    split at h
    · next hc =>
      rw [hc] at hsplit
      exact .inr (.inl ⟨_, rest, hsplit.symm, hbefore, h⟩)
    · split at h
      · split at h
        · cases h
        · next hspaced =>
          rw [unspaced hspaced, List.nil_append] at hsplit
          rw [← hsplit]
          exact .inl h
      · next hc =>
        rw [not_not.mp hc] at hsplit
        obtain ⟨value, after, hvalue, hrest, haccept⟩ := value_inv h
        refine .inr (.inr ⟨_, rest.takeWhile isWhitespace, value, after, ?_, hbefore,
          isBlank_takeWhile rest, hvalue, haccept⟩)
        rw [← hrest, List.takeWhile_append_dropWhile, hsplit]

theorem scan_semicolon_inv {turns : ℕ} {text : Text}
    (h : chunkExtensions (turns + 1) true text = true) :
    text = [] ∨ ∃ blank rest, text = blank ++ semicolon :: rest ∧ IsBlank blank ∧
      chunkExtensions turns false rest = true := by
  have hsplit := List.takeWhile_append_dropWhile (p := isWhitespace) (l := text)
  cases text with
  | nil => exact .inl rfl
  | cons c text =>
    rw [chunkExtensions] at h
    split at h
    · cases h
    · split at h
      · cases h
      · next d rest hskip =>
        split at h
        · cases h
        · next hd =>
          rw [hskip, not_not.mp hd] at hsplit
          exact .inr ⟨_, rest, hsplit.symm, isBlank_takeWhile _, h⟩

/-- By the turns that the scanner has. -/
theorem extensions_of_scan (turns : ℕ) :
    (∀ text, chunkExtensions turns true text = true → Extensions (fun _ => True) text) ∧
    ∀ text, chunkExtensions turns false text = true → ∃ named rest, text = named ++ rest ∧
      Named (fun _ => True) named ∧ Extensions (fun _ => True) rest := by
  induction turns with
  | zero => exact ⟨fun _ h => (by cases h), fun _ h => (by cases h)⟩
  | succ turns ih =>
    constructor
    · intro text h
      obtain rfl | ⟨blank, rest, rfl, hblank, hscan⟩ := scan_semicolon_inv h
      · exact .nil
      · obtain ⟨named, rest, rfl, hnamed, hrest⟩ := ih.2 _ hscan
        exact .cons hblank hnamed hrest
    · intro text h
      obtain ⟨blank, name, behind, rfl, hblank, hname, hbehind⟩ := scan_name_inv h
      obtain hscan | ⟨between, text, rfl, hbetween, hscan⟩ |
        ⟨before, after, value, rest, rfl, hbefore, hafter, hvalue, hscan⟩ := behindName_inv hbehind
      · exact ⟨blank ++ name, behind, by simp, .name hblank hname, ih.1 _ hscan⟩
      · obtain ⟨named, rest, rfl, hnamed, hrest⟩ := ih.2 _ hscan
        exact ⟨blank ++ name, _, by simp, .name hblank hname, .cons hbetween hnamed hrest⟩
      · exact ⟨blank ++ (name ++ (before ++ equals :: (after ++ value))), rest, by simp,
          .value hblank hname hbefore hafter hvalue, ih.1 _ hscan⟩

/-! ### What is of the grammar is accepted -/

theorem behindName_semicolon (turns : ℕ) {blank : Text} (hblank : IsBlank blank) (text : Text) :
    behindName turns (blank ++ semicolon :: text) = chunkExtensions turns false text := by
  have hmark := mark_head (by decide : isWhitespace semicolon = false) text
  rw [behindName, (pass_blank hblank hmark).1]
  exact if_pos rfl

theorem behindName_value (turns : ℕ) {before after value rest : Text} (hbefore : IsBlank before)
    (hafter : IsBlank after) (hvalue : ExtensionValue (fun _ => True) value)
    (hends : ∀ c ∈ rest.head?, isTchar c = false) :
    behindName turns (before ++ equals :: (after ++ (value ++ rest))) =
      chunkExtensions turns true rest := by
  have hmark := mark_head (by decide : isWhitespace equals = false) (after ++ (value ++ rest))
  have hne : equals ≠ semicolon := by decide
  rw [behindName, (pass_blank hbefore hmark).1]
  simp only [if_neg hne, ne_eq, not_true, if_false]
  cases hvalue with
  | token hname =>
    rw [(pass_blank hafter (hname.head rest)).1]
    obtain ⟨c, name, rfl⟩ := List.exists_cons_of_ne_nil hname.1
    have hc : isTchar c = true := hname.2 c List.mem_cons_self
    have hquote : c ≠ quote := by
      rintro rfl
      cases hc
    have hpass := (pass_name hname hends).1
    rw [List.cons_append] at hpass ⊢
    simp only [hquote, not_false_eq_true, if_true, hc, Bool.not_true, Bool.false_eq_true, if_false,
      hpass]
  | quoted htext =>
    rename_i text
    rw [List.cons_append, List.append_assoc, List.singleton_append]
    have hquote := mark_head (by decide : isWhitespace quote = false) (text ++ quote :: rest)
    rw [(pass_blank hafter hquote).1]
    simp only [not_true, if_false, quotedRest_of_quoted htext]

theorem Named.ne_nil {allowed : UInt8 → Prop} {named : Text} (h : Named allowed named) :
    0 < named.length := by
  cases h with
  | name _ hname =>
    have hlen := List.length_pos_of_ne_nil hname.1
    rw [List.length_append]
    omega
  | value _ hname =>
    have hlen := List.length_pos_of_ne_nil hname.1
    simp only [List.length_append]
    omega

theorem scan_of_extensions (turns : ℕ) :
    (∀ text, text.length < turns → Extensions (fun _ => True) text →
      chunkExtensions turns true text = true) ∧
    ∀ named rest, (named ++ rest).length < turns → Named (fun _ => True) named →
      Extensions (fun _ => True) rest → chunkExtensions turns false (named ++ rest) = true := by
  induction turns with
  | zero => exact ⟨fun _ h => (by omega), fun _ _ h => (by omega)⟩
  | succ turns ih =>
    constructor
    · intro text hlen h
      cases h with
      | nil => rfl
      | cons hblank hnamed hrest =>
        rw [scan_semicolon turns hblank]
        rw [List.length_append, List.length_cons] at hlen
        exact ih.2 _ _ (by omega) hnamed hrest
    · intro named rest hlen hnamed hrest
      have hpos := hnamed.ne_nil
      rw [List.length_append] at hlen
      cases hnamed with
      | name hblank hname =>
        rw [List.append_assoc, scan_name turns hblank hname hrest.ends]
        cases hrest with
        | nil => exact ih.1 [] (by rw [List.length_nil]; omega) .nil
        | cons hbetween hnamed hrest =>
          rw [behindName_semicolon turns hbetween]
          simp only [List.length_append, List.length_cons] at hlen hpos
          exact ih.2 _ _ (by rw [List.length_append]; omega) hnamed hrest
      | value hblank hname hbefore hafter hvalue =>
        have hmark := hbefore.ends (by decide : isTchar equals = false)
        simp only [List.append_assoc, List.cons_append]
        rw [scan_name turns hblank hname (hmark _),
          behindName_value turns hbefore hafter hvalue hrest.ends]
        exact ih.1 _ (by omega) hrest

theorem chunkExtensions_iff {turns : ℕ} {text : Text} (h : text.length < turns) :
    chunkExtensions turns true text = true ↔ Extensions (fun _ => True) text :=
  ⟨(extensions_of_scan turns).1 text, (scan_of_extensions turns).1 text h⟩

/-! ### Quoted strings without control characters -/

/-- `quoted-string`, as the fields of a message also have it. -/
def IsPrintable (c : UInt8) : Prop := isControl c = false

theorem Quoted.imp {allowed allowed' : UInt8 → Prop} {text : Text} (h : Quoted allowed text)
    (himp : ∀ c ∈ text, allowed c → allowed' c) : Quoted allowed' text := by
  induction h with
  | nil => exact .nil
  | text hquote hbackslash hc _ ih =>
    exact .text hquote hbackslash (himp _ List.mem_cons_self hc)
      (ih fun c hmem => himp c (List.mem_cons_of_mem _ hmem))
  | pair hc _ ih =>
    exact .pair (himp _ (List.mem_cons_of_mem _ List.mem_cons_self) hc)
      (ih fun c hmem => himp c (List.mem_cons_of_mem _ (List.mem_cons_of_mem _ hmem)))

theorem Quoted.printable {text : Text} (h : Quoted IsPrintable text) :
    ∀ c ∈ text, isControl c = false := by
  induction h with
  | nil => exact fun c hc => absurd hc List.not_mem_nil
  | text _ _ hc _ ih => exact List.forall_mem_cons.mpr ⟨hc, ih⟩
  | pair hc _ ih => exact List.forall_mem_cons.mpr ⟨rfl, List.forall_mem_cons.mpr ⟨hc, ih⟩⟩

theorem IsBlank.printable {blank : Text} (h : IsBlank blank) : ∀ c ∈ blank, isControl c = false :=
  fun c hc => isWhitespace_not_control (h c hc)

theorem IsToken.printable {name : Text} (h : IsToken name) : ∀ c ∈ name, isControl c = false :=
  fun c hc => isTchar_not_control (h.2 c hc)

theorem ExtensionValue.printable_iff {value : Text} :
    ExtensionValue IsPrintable value ↔
      ExtensionValue (fun _ => True) value ∧ ∀ c ∈ value, isControl c = false := by
  constructor
  · intro h
    cases h with
    | token hname => exact ⟨.token hname, hname.printable⟩
    | quoted htext =>
      refine ⟨.quoted (htext.imp fun _ _ _ => trivial), ?_⟩
      exact List.forall_mem_cons.mpr ⟨rfl,
        List.forall_mem_append.mpr ⟨htext.printable, List.forall_mem_singleton.mpr rfl⟩⟩
  · rintro ⟨h, hprint⟩
    cases h with
    | token hname => exact .token hname
    | quoted htext =>
      exact .quoted (htext.imp fun c hc _ =>
        hprint c (List.mem_cons_of_mem _ (List.mem_append_left _ hc)))

theorem Named.printable_iff {named : Text} :
    Named IsPrintable named ↔
      Named (fun _ => True) named ∧ ∀ c ∈ named, isControl c = false := by
  constructor
  · intro h
    cases h with
    | name hblank hname =>
      exact ⟨.name hblank hname,
        List.forall_mem_append.mpr ⟨hblank.printable, hname.printable⟩⟩
    | value hblank hname hbefore hafter hvalue =>
      obtain ⟨hany, hprint⟩ := ExtensionValue.printable_iff.mp hvalue
      refine ⟨.value hblank hname hbefore hafter hany, ?_⟩
      simp only [List.forall_mem_append, List.forall_mem_cons]
      exact ⟨hblank.printable, hname.printable, hbefore.printable, rfl, hafter.printable, hprint⟩
  · rintro ⟨h, hprint⟩
    cases h with
    | name hblank hname => exact .name hblank hname
    | value hblank hname hbefore hafter hvalue =>
      simp only [List.forall_mem_append, List.forall_mem_cons] at hprint
      obtain ⟨-, -, -, -, -, hprint⟩ := hprint
      exact .value hblank hname hbefore hafter (ExtensionValue.printable_iff.mpr ⟨hvalue, hprint⟩)

/-- Extensions have control characters in their quoted strings only. -/
theorem Extensions.printable_iff {text : Text} :
    Extensions IsPrintable text ↔
      Extensions (fun _ => True) text ∧ ∀ c ∈ text, isControl c = false := by
  constructor
  · intro h
    induction h with
    | nil => exact ⟨.nil, fun c hc => absurd hc List.not_mem_nil⟩
    | cons hblank hnamed _ ih =>
      obtain ⟨hany, hprint⟩ := Named.printable_iff.mp hnamed
      refine ⟨.cons hblank hany ih.1, ?_⟩
      simp only [List.forall_mem_append, List.forall_mem_cons]
      exact ⟨hblank.printable, rfl, hprint, ih.2⟩
  · rintro ⟨h, hprint⟩
    induction h with
    | nil => exact .nil
    | cons hblank hnamed _ ih =>
      simp only [List.forall_mem_append, List.forall_mem_cons] at hprint
      exact .cons hblank (Named.printable_iff.mpr ⟨hnamed, hprint.2.2.1⟩) (ih hprint.2.2.2)

/-! ### Chunk lines -/

/-- The size of a line, those that are written, and the extensions behind the front of a line. -/
structure ExactLine (front rest : Text) : Prop where
  size : parseChunkSize (front ++ rest) =
    if hexDigits (front ++ rest) ≠ [] ∧ hexValue (hexDigits (front ++ rest)) < 2 ^ 64 then
      .ok (hexValue (hexDigits (front ++ rest)), (hexDigits (front ++ rest)).length)
    else .error .badChunk
  written : ∀ size < 2 ^ 64, ∃ line, chunkHeader size = line ++ lineEnd ∧
    parseChunkSize line = .ok (size, line.length)
  extensions : validChunkExtensions (front ++ rest) front.length = true ↔
    Extensions IsPrintable rest

/-- Extensions but for a control character, which they can have in a quoted string only. -/
def QuotesControl (rest : Text) : Prop :=
  Extensions (fun _ => True) rest ∧ ∃ c ∈ rest, isControl c = true

theorem validChunkExtensions_iff (front rest : Text) :
    validChunkExtensions (front ++ rest) front.length = true ↔
      Extensions (fun _ => True) rest := by
  rw [validChunkExtensions, List.drop_left]
  refine chunkExtensions_iff ?_
  rw [List.length_append]
  omega

theorem chunk_line_exact_iff (front rest : Text) :
    ExactLine front rest ↔ ¬QuotesControl rest := by
  constructor
  · rintro hexact ⟨hany, c, hc, hcontrol⟩
    have hvalid := (validChunkExtensions_iff front rest).mpr hany
    have hprint := Extensions.printable_iff.mp (hexact.extensions.mp hvalid)
    rw [hprint.2 c hc] at hcontrol
    cases hcontrol
  · intro hnone
    refine ⟨chunk_size_eq _, fun size hsize => ?_, ?_⟩
    · exact ⟨hexText (size + 1) size, rfl, parseChunkSize_hexText hsize⟩
    · rw [validChunkExtensions_iff, Extensions.printable_iff]
      refine ⟨fun hany => ⟨hany, fun c hc => ?_⟩, And.left⟩
      by_contra hcontrol
      exact hnone ⟨hany, c, hc, by simpa using hcontrol⟩

/-- A line feed is accepted between quotes. -/
theorem quoted_line_feed_accepted :
    validChunkExtensions (ascii "1;a=\"" ++ [lf, quote]) 1 = true ∧
      ¬ExactLine (ascii "1") (ascii ";a=\"" ++ [lf, quote]) := by
  have hvalid : validChunkExtensions (ascii "1;a=\"" ++ [lf, quote]) 1 = true := by decide
  refine ⟨hvalid, fun hexact => ?_⟩
  have hprint := (Extensions.printable_iff.mp (hexact.extensions.mp hvalid)).2
  have hlf : lf ∈ ascii ";a=\"" ++ [lf, quote] := by decide
  have hcontrol := hprint lf hlf
  revert hcontrol
  decide

end BitcoinNetwork.Http
