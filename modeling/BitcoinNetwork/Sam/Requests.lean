import BitcoinNetwork.Sam.Lines

/-!
# The hello request of a sam bridge (net/acceptor_sam.cpp, to_hello)

Credentials are quoted. Quotes within them are escaped, and the character that escapes is
not: where a credential has one, the tokens of the line weigh less than those that are meant.
-/

namespace BitcoinNetwork.Sam
open Http

def terminator : UInt8 := lf
def version : Text := ascii "3.1"
def versionAuthenticated : Text := ascii "3.2"

/-- A character of a quoted value. -/
def escape (c : UInt8) : Text := if c = quote then [backslash, quote] else [c]

/-- `to_quoted`. -/
def toQuoted (value : Text) : Text := quote :: value.flatMap escape ++ [quote]

/-- `to_hello`, without the terminator. -/
def helloLine (username password : Text) : Text :=
  if username = [] ∧ password = [] then
    ascii "HELLO VERSION MIN=" ++ version ++ ascii " MAX=" ++ version
  else
    ascii "HELLO VERSION MIN=" ++ versionAuthenticated ++ ascii " MAX=" ++ versionAuthenticated ++
      ascii " USER=" ++ toQuoted username ++ ascii " PASSWORD=" ++ toQuoted password

/-- `to_hello`. -/
def toHello (username password : Text) : Text := helloLine username password ++ [terminator]

/-- The request is one line, of these tokens. -/
def HelloExact (username password : Text) : Prop :=
  ∃ line, toHello username password = line ++ [terminator] ∧ terminator ∉ line ∧
    toTokens line = [ascii "HELLO", ascii "VERSION", ascii "MIN=3.2", ascii "MAX=3.2",
      ascii "USER=" ++ username, ascii "PASSWORD=" ++ password]

/-! ### Tokens that are read -/

namespace Tokens

/-- The tokens, at the end of a line. -/
def finish (t : Tokens) : List Text := if t.token.isEmpty then t.tokens else t.tokens ++ [t.token]

/-- The characters of tokens, and one that ends each. -/
def size (tokens : List Text) : ℕ := (tokens.map List.length).sum + tokens.length

/-- What has been read, where a character that escapes counts until it has escaped one. -/
def weight (t : Tokens) : ℕ := size t.tokens + t.token.length + if t.escaped then 1 else 0

/-- The state behind a text. -/
def read (t : Tokens) (text : Text) : Tokens := text.foldl put t

theorem read_append (t : Tokens) (text more : Text) : t.read (text ++ more) = (t.read text).read more :=
  List.foldl_append

theorem read_cons (t : Tokens) (c : UInt8) (text : Text) : t.read (c :: text) = (t.put c).read text :=
  rfl

theorem size_append (tokens more : List Text) : size (tokens ++ more) = size tokens + size more := by
  unfold size
  rw [List.map_append, List.sum_append, List.length_append]
  omega

theorem size_singleton (token : Text) : size [token] = token.length + 1 := by
  unfold size
  rw [List.map_singleton, List.sum_singleton, List.length_singleton]

theorem finish_size_le (t : Tokens) : size t.finish ≤ t.weight + 1 := by
  unfold finish weight
  split
  · omega
  · rw [size_append, size_singleton]
    omega

/-- A character that was escaped adds nothing. -/
theorem put_escaped {t : Tokens} (h : t.escaped = true) (c : UInt8) :
    t.put c = { t with token := t.token ++ [c], escaped := false } := by
  unfold put
  rw [if_pos h]

theorem weight_put_escaped {t : Tokens} (h : t.escaped = true) (c : UInt8) :
    (t.put c).weight = t.weight := by
  rw [put_escaped h]
  unfold weight
  rw [h, List.length_append, List.length_singleton]
  rfl

/-- What a character that is not escaped does: it escapes the next, toggles quotes, ends a
token, or is one of it. -/
theorem put_cases {t : Tokens} (h : t.escaped = false) (c : UInt8) :
    (t.quoted = true ∧ c = backslash ∧ t.put c = { t with escaped := true }) ∨
    (c = quote ∧ t.put c = { t with quoted := !t.quoted }) ∨
    (t.quoted = false ∧ c = sp ∧ t.put c = { t with
      tokens := if t.token.isEmpty then t.tokens else t.tokens ++ [t.token], token := [] }) ∨
    (c ≠ quote ∧ t.put c = { t with token := t.token ++ [c] }) := by
  unfold put
  rw [if_neg (by rw [h]; exact Bool.false_ne_true)]
  by_cases hescape : (t.quoted && c == backslash) = true
  · obtain ⟨hquoted, hc⟩ := Bool.and_eq_true_iff.mp hescape
    rw [if_pos hescape]
    exact .inl ⟨hquoted, eq_of_beq hc, rfl⟩
  rw [if_neg hescape]
  by_cases hquote : (c == quote) = true
  · rw [if_pos hquote]
    exact .inr (.inl ⟨eq_of_beq hquote, rfl⟩)
  rw [if_neg hquote]
  by_cases hspace : (c == sp && !t.quoted) = true
  · obtain ⟨hc, hquoted⟩ := Bool.and_eq_true_iff.mp hspace
    rw [if_pos hspace]
    exact .inr (.inr (.inl ⟨(Bool.not_eq_eq_eq_not ..).mp hquoted, eq_of_beq hc, rfl⟩))
  · rw [if_neg hspace]
    exact .inr (.inr (.inr ⟨fun heq => hquote (beq_iff_eq.mpr heq), rfl⟩))

theorem weight_put_le (t : Tokens) (c : UInt8) : (t.put c).weight ≤ t.weight + 1 := by
  cases h : t.escaped with
  | true =>
    rw [weight_put_escaped h]
    omega
  | false =>
    rcases put_cases h c with ⟨_, _, hput⟩ | ⟨_, hput⟩ | ⟨_, _, hput⟩ | ⟨_, hput⟩
    · rw [hput]
      unfold weight
      rw [h]
      exact Nat.le_refl _
    · rw [hput]
      unfold weight
      exact Nat.le_succ _
    · rw [hput]
      unfold weight
      dsimp only
      split
      · rw [List.length_nil]
        omega
      · rw [size_append, size_singleton, List.length_nil]
        omega
    · rw [hput]
      unfold weight
      dsimp only
      rw [List.length_append, List.length_singleton]
      omega

theorem weight_put_quote_le (t : Tokens) : (t.put quote).weight ≤ t.weight := by
  cases h : t.escaped with
  | true => exact (weight_put_escaped h quote).le
  | false =>
    rcases put_cases h quote with ⟨_, hc, _⟩ | ⟨_, hput⟩ | ⟨_, hc, _⟩ | ⟨hc, _⟩
    · exact absurd hc (by decide)
    · rw [hput]
      exact Nat.le_refl _
    · exact absurd hc (by decide)
    · exact absurd rfl hc

theorem weight_read_le (t : Tokens) (text : Text) : (t.read text).weight ≤ t.weight + text.length := by
  induction text generalizing t with
  | nil => exact Nat.le_refl _
  | cons c text ih =>
    have hfirst := weight_put_le t c
    have hrest := ih (t.put c)
    rw [read_cons, List.length_cons]
    omega

/-! ### Values that are read -/

theorem weight_escape_le (t : Tokens) (c : UInt8) : (t.read (escape c)).weight ≤ t.weight + 1 := by
  unfold escape
  split
  · have hbackslash := weight_put_le t backslash
    have hquote := weight_put_quote_le (t.put backslash)
    exact hquote.trans hbackslash
  · exact weight_put_le t c

theorem weight_value_le (t : Tokens) (value : Text) :
    (t.read (value.flatMap escape)).weight ≤ t.weight + value.length := by
  induction value generalizing t with
  | nil => exact Nat.le_refl _
  | cons c value ih =>
    have hfirst := weight_escape_le t c
    have hrest := ih (t.read (escape c))
    rw [List.flatMap_cons, read_append, List.length_cons]
    omega

/-- A value is read as it is if no character of it escapes. -/
theorem read_value {t : Tokens} (hquoted : t.quoted = true) (hescaped : t.escaped = false)
    {value : Text} (hvalue : backslash ∉ value) :
    t.read (value.flatMap escape) = { t with token := t.token ++ value } := by
  induction value generalizing t with
  | nil =>
    show t = _
    rw [List.append_nil]
  | cons c value ih =>
    rw [List.mem_cons, not_or] at hvalue
    have hfirst : t.read (escape c) = { t with token := t.token ++ [c] } := by
      unfold escape
      split
      · next hc =>
        have hput : t.put backslash = { t with escaped := true } := by
          unfold put
          rw [hescaped, hquoted]
          rfl
        rw [read_cons, hput, read_cons, put_escaped rfl, hc]
        show ({ t with token := t.token ++ [quote], escaped := false } : Tokens) = _
        rw [← hescaped]
      · next hc =>
        show t.put c = _
        rcases put_cases hescaped c with ⟨_, heq, _⟩ | ⟨heq, _⟩ | ⟨hunquoted, _, _⟩ | ⟨_, hput⟩
        · exact absurd heq.symm hvalue.1
        · exact absurd heq hc
        · rw [hquoted] at hunquoted
          exact nomatch hunquoted
        · exact hput
    have hrest := @ih { t with token := t.token ++ [c] } hquoted hescaped hvalue.2
    rw [List.flatMap_cons, read_append, hfirst, hrest, List.append_assoc]
    rfl

theorem finish_tokens (t : Tokens) (text : Text) : t.tokens <+: (t.read text).finish := by
  induction text generalizing t with
  | nil =>
    show t.tokens <+: t.finish
    unfold finish
    split
    · exact List.prefix_refl _
    · exact List.prefix_append _ _
  | cons c text ih =>
    have hput : t.tokens <+: (t.put c).tokens := by
      cases h : t.escaped with
      | true =>
        rw [put_escaped h]
      | false =>
        rcases put_cases h c with ⟨_, _, heq⟩ | ⟨_, heq⟩ | ⟨_, _, heq⟩ | ⟨_, heq⟩
        · rw [heq]
        · rw [heq]
        · rw [heq]
          dsimp only
          split
          · exact List.prefix_refl _
          · exact List.prefix_append _ _
        · rw [heq]
    exact hput.trans (ih (t.put c))

/-- What has been read of a token is in front of it. -/
theorem finish_read {t : Tokens} (htoken : t.token ≠ []) (text : Text) :
    ∃ more others, (t.read text).finish = t.tokens ++ (t.token ++ more) :: others := by
  induction text generalizing t with
  | nil =>
    refine ⟨[], [], ?_⟩
    show t.finish = _
    unfold finish
    rw [if_neg (by rw [List.isEmpty_iff]; exact htoken), List.append_nil]
  | cons c text ih =>
    have hlonger : t.token ++ [c] ≠ [] := List.append_ne_nil_of_right_ne_nil _ (List.cons_ne_nil _ _)
    have hput (s : Tokens) (htokens : s.tokens = t.tokens) (hs : s.token = t.token ++ [c]) :
        ∃ more others, (s.read text).finish = t.tokens ++ (t.token ++ more) :: others := by
      obtain ⟨more, others, hmore⟩ := ih (t := s) (by rw [hs]; exact hlonger)
      rw [htokens, hs, List.append_assoc] at hmore
      exact ⟨_, others, hmore⟩
    rw [read_cons]
    cases h : t.escaped with
    | true =>
      rw [put_escaped h]
      exact hput _ rfl rfl
    | false =>
      rcases put_cases h c with ⟨_, _, heq⟩ | ⟨_, heq⟩ | ⟨_, _, heq⟩ | ⟨_, heq⟩
      · rw [heq]
        exact ih htoken
      · rw [heq]
        exact ih htoken
      · obtain ⟨others, hothers⟩ := finish_tokens (t.put c) text
        have hended : (t.put c).tokens = t.tokens ++ [t.token] := by
          rw [heq]
          exact if_neg (by rw [List.isEmpty_iff]; exact htoken)
        rw [hended] at hothers
        refine ⟨[], others, hothers.symm.trans ?_⟩
        rw [List.append_nil, List.append_assoc]
        rfl
      · rw [heq]
        exact hput _ rfl rfl

/-- The character behind one that escapes adds nothing. -/
theorem weight_escaped_le {t : Tokens} (h : t.escaped = true) (c : UInt8) :
    (t.read (escape c)).weight ≤ t.weight := by
  unfold escape
  split
  · exact (weight_put_quote_le (t.put backslash)).trans (weight_put_escaped h backslash).le
  · exact (weight_put_escaped h c).le

/-- A value with a character that escapes is not read as it is: it loses a character, or ends
in a quote. -/
theorem read_value_ne {t : Tokens} (hquoted : t.quoted = true) (hescaped : t.escaped = false)
    {value : Text} (hvalue : backslash ∈ value) (tail : Text) (others : List Text)
    (htail : ∀ s : Tokens, (s.read tail).weight ≤ s.weight + size others) :
    (t.read (value.flatMap escape ++ quote :: tail)).finish ≠
      t.tokens ++ (t.token ++ value) :: others := by
  intro hfinish
  obtain ⟨before, rest, rfl, hbefore⟩ := List.eq_append_cons_of_mem hvalue
  have hput : ({ t with token := t.token ++ before } : Tokens).put backslash =
      { t with token := t.token ++ before, escaped := true } := by
    unfold put
    rw [hescaped, hquoted]
    rfl
  rw [List.flatMap_append, List.append_assoc, read_append, read_value hquoted hescaped hbefore,
    List.flatMap_cons, List.append_assoc, show escape backslash = [backslash] from rfl,
    List.singleton_append, read_cons, hput] at hfinish
  cases rest with
  | nil =>
    rw [List.flatMap_nil, List.nil_append, read_cons, put_escaped rfl] at hfinish
    have hne : t.token ++ before ++ [quote] ≠ [] :=
      List.append_ne_nil_of_right_ne_nil _ (List.cons_ne_nil _ _)
    obtain ⟨more, ends, hread⟩ := finish_read
      (t := { t with token := t.token ++ before ++ [quote], escaped := false }) hne tail
    rw [hread] at hfinish
    have htoken := (List.cons.inj (List.append_cancel_left hfinish)).1
    rw [List.append_assoc, List.append_assoc] at htoken
    have hlast := List.append_cancel_left (List.append_cancel_left htoken)
    exact absurd (List.cons.inj hlast).1 (by decide)
  | cons c rest =>
    generalize hstate : ({ t with token := t.token ++ before, escaped := true } : Tokens) = s at hfinish
    have hs : s.weight = size t.tokens + (t.token.length + before.length) + 1 := by
      rw [← hstate]
      unfold weight
      dsimp only
      rw [List.length_append, if_pos rfl]
    have hc := weight_escaped_le (t := s) (by rw [← hstate]) c
    have hrest := weight_value_le (s.read (escape c)) rest
    have hquote := weight_put_quote_le ((s.read (escape c)).read (rest.flatMap escape))
    have hend := htail (((s.read (escape c)).read (rest.flatMap escape)).put quote)
    rw [List.flatMap_cons, List.append_assoc, read_append, read_append, read_cons] at hfinish
    have hsize := finish_size_le ((((s.read (escape c)).read (rest.flatMap escape)).put quote).read tail)
    rw [hfinish, size_append, show ∀ token : Text, token :: others = [token] ++ others from fun _ => rfl,
      size_append, size_singleton, List.length_append, List.length_append, List.length_cons,
      List.length_cons] at hsize
    omega

end Tokens

/-! ### The request -/

theorem toTokens_eq (line : Text) : toTokens line = (Tokens.read {} line).finish := rfl

/-- A value that is quoted, behind which a token is being read. -/
theorem toQuoted_eq (value : Text) : toQuoted value = quote :: (value.flatMap escape ++ [quote]) := rfl

theorem put_quote {t : Tokens} (hescaped : t.escaped = false) :
    t.put quote = { t with quoted := !t.quoted } := by
  rcases Tokens.put_cases hescaped quote with ⟨_, hc, _⟩ | ⟨_, hput⟩ | ⟨_, hc, _⟩ | ⟨hc, _⟩
  · exact absurd hc (by decide)
  · exact hput
  · exact absurd hc (by decide)
  · exact absurd rfl hc

/-- A value in quotes is read into the token that it is of. -/
theorem read_toQuoted {t : Tokens} (hquoted : t.quoted = false) (hescaped : t.escaped = false)
    {value : Text} (hvalue : backslash ∉ value) :
    t.read (toQuoted value) = { t with token := t.token ++ value } := by
  have hopen : ({ t with quoted := !t.quoted } : Tokens).quoted = true := by rw [hquoted]; rfl
  have hread := Tokens.read_value (t := { t with quoted := !t.quoted }) hopen hescaped hvalue
  have hclose := put_quote
    (t := { t with quoted := !t.quoted, token := t.token ++ value }) hescaped
  dsimp only at hclose
  rw [Bool.not_not] at hclose
  rw [toQuoted_eq, Tokens.read_cons, put_quote hescaped, Tokens.read_append, hread,
    Tokens.read_cons]
  exact hclose

theorem mem_toQuoted {c : UInt8} {value : Text} :
    c ∈ toQuoted value ↔ c = quote ∨ (c = backslash ∧ quote ∈ value) ∨ c ∈ value := by
  rw [toQuoted_eq, List.mem_cons, List.mem_append, List.mem_singleton, List.mem_flatMap]
  constructor
  · rintro (rfl | ⟨d, hd, hc⟩ | rfl)
    · exact .inl rfl
    · unfold escape at hc
      split at hc
      · next hquote =>
        rcases List.mem_pair.mp hc with rfl | rfl
        · exact .inr (.inl ⟨rfl, hquote ▸ hd⟩)
        · exact .inl rfl
      · rw [List.mem_singleton.mp hc]
        exact .inr (.inr hd)
    · exact .inl rfl
  · rintro (rfl | ⟨rfl, hquote⟩ | hc)
    · exact .inl rfl
    · exact .inr (.inl ⟨quote, hquote, List.mem_cons_self⟩)
    · refine .inr (.inl ⟨c, hc, ?_⟩)
      unfold escape
      split
      · next hquote =>
        rw [hquote]
        exact List.mem_cons_of_mem _ (List.mem_singleton.mpr rfl)
      · exact List.mem_singleton.mpr rfl

/-- The line in front of the username, and that in front of the password. -/
def userFront : Text :=
  ascii "HELLO VERSION MIN=" ++ versionAuthenticated ++ ascii " MAX=" ++ versionAuthenticated ++
    ascii " USER="

def passwordFront : Text := ascii " PASSWORD="

def hello : List Text := [ascii "HELLO", ascii "VERSION", ascii "MIN=3.2", ascii "MAX=3.2"]

theorem helloLine_eq {username password : Text} (h : username ≠ [] ∨ password ≠ []) :
    helloLine username password =
      userFront ++ (toQuoted username ++ (passwordFront ++ toQuoted password)) := by
  have hne : ¬(username = [] ∧ password = []) := fun hnil => h.elim (· hnil.1) (· hnil.2)
  unfold helloLine
  rw [if_neg hne, List.append_assoc, List.append_assoc]
  rfl

/-- A character of a token, where nothing is quoted. -/
def isPlain (c : UInt8) : Bool := c != quote && c != sp

theorem read_plain {t : Tokens} (hquoted : t.quoted = false) (hescaped : t.escaped = false)
    {text : Text} (htext : text.all isPlain = true) :
    t.read text = { t with token := t.token ++ text } := by
  induction text generalizing t with
  | nil =>
    show t = _
    rw [List.append_nil]
  | cons c text ih =>
    rw [List.all_cons, Bool.and_eq_true] at htext
    obtain ⟨hc, hmore⟩ := htext
    unfold isPlain at hc
    rw [Bool.and_eq_true, bne_iff_ne, bne_iff_ne] at hc
    have hput : t.put c = { t with token := t.token ++ [c] } := by
      rcases Tokens.put_cases hescaped c with ⟨hquotes, _, _⟩ | ⟨heq, _⟩ | ⟨_, heq, _⟩ | ⟨_, hput⟩
      · rw [hquoted] at hquotes
        exact nomatch hquotes
      · exact absurd heq hc.1
      · exact absurd heq hc.2
      · exact hput
    have hrest := @ih { t with token := t.token ++ [c] } hquoted hescaped hmore
    rw [Tokens.read_cons, hput, hrest, List.append_assoc]
    rfl

/-- A token that is read, and the space behind it. -/
theorem read_word {t : Tokens} (hquoted : t.quoted = false) (hescaped : t.escaped = false)
    {word : Text} (hword : word.all isPlain = true) (hne : t.token ++ word ≠ []) :
    t.read (word ++ [sp]) = { t with tokens := t.tokens ++ [t.token ++ word], token := [] } := by
  rw [Tokens.read_append, read_plain hquoted hescaped hword, Tokens.read_cons]
  have hspace : ({ t with token := t.token ++ word } : Tokens).put sp =
      { t with
        tokens := if (t.token ++ word).isEmpty then t.tokens else t.tokens ++ [t.token ++ word]
        token := [] } := by
    unfold Tokens.put
    dsimp only
    rw [hescaped, hquoted]
    rfl
  rw [hspace, if_neg (by rw [List.isEmpty_iff]; exact hne)]
  rfl

theorem read_words {t : Tokens} (hquoted : t.quoted = false) (hescaped : t.escaped = false)
    (htoken : t.token = []) {words : List Text}
    (hwords : words.all (fun word => !word.isEmpty && word.all isPlain) = true) :
    t.read (words.flatMap (· ++ [sp])) = { t with tokens := t.tokens ++ words } := by
  induction words generalizing t with
  | nil =>
    show t = _
    rw [List.append_nil]
  | cons word words ih =>
    rw [List.all_cons, Bool.and_eq_true, Bool.and_eq_true] at hwords
    obtain ⟨⟨hne, hplain⟩, hmore⟩ := hwords
    have hnil : t.token ++ word ≠ [] := by
      rw [htoken, List.nil_append]
      rintro rfl
      exact nomatch hne
    have hword := read_word hquoted hescaped hplain hnil
    rw [htoken, List.nil_append] at hword
    have hrest := @ih { t with tokens := t.tokens ++ [word], token := [] } hquoted hescaped rfl hmore
    rw [List.flatMap_cons, Tokens.read_append, hword, hrest, List.append_assoc, ← htoken]
    rfl

theorem userFront_eq : userFront = hello.flatMap (· ++ [sp]) ++ ascii "USER=" := by decide

theorem read_userFront : Tokens.read {} userFront = ⟨hello, ascii "USER=", false, false⟩ := by
  rw [userFront_eq, Tokens.read_append, read_words rfl rfl rfl (by decide)]
  exact read_plain rfl rfl (by decide)

theorem read_passwordFront (username : Text) :
    Tokens.read ⟨hello, ascii "USER=" ++ username, false, false⟩ passwordFront =
      ⟨hello ++ [ascii "USER=" ++ username], ascii "PASSWORD=", false, false⟩ := by
  have hfront : passwordFront = ([] ++ [sp]) ++ ascii "PASSWORD=" := by decide
  have hne : (ascii "USER=" ++ username) ++ [] ≠ [] := by
    rw [List.append_nil]
    exact List.append_ne_nil_of_left_ne_nil (by decide) _
  rw [hfront, Tokens.read_append, read_word rfl rfl rfl hne, List.append_nil]
  exact read_plain rfl rfl (by decide)

/-- The tokens of a line whose credentials have no character that escapes. -/
theorem toTokens_hello {username password : Text} (h : username ≠ [] ∨ password ≠ [])
    (husername : backslash ∉ username) (hpassword : backslash ∉ password) :
    toTokens (helloLine username password) =
      hello ++ [ascii "USER=" ++ username, ascii "PASSWORD=" ++ password] := by
  rw [toTokens_eq, helloLine_eq h, Tokens.read_append, read_userFront, Tokens.read_append,
    read_toQuoted rfl rfl husername, Tokens.read_append, read_passwordFront,
    read_toQuoted rfl rfl hpassword]
  rfl

theorem toTokens_username_ne {username password : Text} (h : backslash ∈ username) :
    toTokens (helloLine username password) ≠
      hello ++ [ascii "USER=" ++ username, ascii "PASSWORD=" ++ password] := by
  have hne : username ≠ [] := List.ne_nil_of_mem h
  have htail (s : Tokens) : (s.read (passwordFront ++ toQuoted password)).weight ≤
      s.weight + Tokens.size [ascii "PASSWORD=" ++ password] := by
    have hfront := Tokens.weight_read_le s passwordFront
    have hopen := Tokens.weight_put_quote_le (s.read passwordFront)
    have hvalue := Tokens.weight_value_le ((s.read passwordFront).put quote) password
    have hclose := Tokens.weight_put_quote_le
      (((s.read passwordFront).put quote).read (password.flatMap escape))
    have hlength : passwordFront.length = 10 := by decide
    have hascii : (ascii "PASSWORD=").length = 9 := by decide
    rw [Tokens.size_singleton, List.length_append, hascii, Tokens.read_append, toQuoted_eq,
      Tokens.read_cons, Tokens.read_append]
    rw [hlength] at hfront
    exact hclose.trans (by omega)
  rw [toTokens_eq, helloLine_eq (.inl hne), Tokens.read_append, read_userFront, toQuoted_eq,
    List.cons_append, Tokens.read_cons, put_quote rfl, List.append_assoc]
  exact Tokens.read_value_ne (t := ⟨hello, ascii "USER=", true, false⟩) rfl rfl h
    (passwordFront ++ toQuoted password) [ascii "PASSWORD=" ++ password] htail

theorem toTokens_password_ne {username password : Text} (husername : backslash ∉ username)
    (h : backslash ∈ password) :
    toTokens (helloLine username password) ≠
      hello ++ [ascii "USER=" ++ username, ascii "PASSWORD=" ++ password] := by
  have hne : password ≠ [] := List.ne_nil_of_mem h
  have htail (s : Tokens) : (s.read []).weight ≤ s.weight + Tokens.size [] := Nat.le_refl _
  rw [toTokens_eq, helloLine_eq (.inr hne), Tokens.read_append, read_userFront, Tokens.read_append,
    read_toQuoted rfl rfl husername, Tokens.read_append, read_passwordFront, toQuoted_eq,
    Tokens.read_cons, put_quote rfl]
  have hvalue := Tokens.read_value_ne
    (t := ⟨hello ++ [ascii "USER=" ++ username], ascii "PASSWORD=", true, false⟩) rfl rfl h [] [] htail
  rw [List.append_assoc] at hvalue
  exact hvalue

/-- The request is exact if neither credential has a character that escapes or one that ends
a line, and only then. -/
theorem hello_exact_iff {username password : Text} (h : username ≠ [] ∨ password ≠ []) :
    HelloExact username password ↔ ∀ c ∈ username ++ password, c ≠ backslash ∧ c ≠ terminator := by
  have hline : terminator ∉ helloLine username password ↔
      terminator ∉ username ∧ terminator ∉ password := by
    have huser : terminator ∉ userFront := by decide
    have hpassword : terminator ∉ passwordFront := by decide
    have hquote : terminator ≠ quote := by decide
    have hbackslash : terminator ≠ backslash := by decide
    rw [helloLine_eq h]
    simp only [List.mem_append, mem_toQuoted, huser, hpassword, hquote, hbackslash, false_or,
      false_and, not_or]
  constructor
  · rintro ⟨line, hhello, hterminator, htokens⟩
    have heq : helloLine username password = line := List.append_cancel_right hhello
    rw [← heq] at hterminator htokens
    obtain ⟨hterminated, hended⟩ := hline.mp hterminator
    have husername : backslash ∉ username := fun hmem => toTokens_username_ne hmem htokens
    have hpassword : backslash ∉ password := fun hmem => toTokens_password_ne husername hmem htokens
    intro c hc
    rcases List.mem_append.mp hc with hc | hc
    · exact ⟨fun heq => husername (heq ▸ hc), fun heq => hterminated (heq ▸ hc)⟩
    · exact ⟨fun heq => hpassword (heq ▸ hc), fun heq => hended (heq ▸ hc)⟩
  · intro hplain
    have husername (c : UInt8) (hc : c ∈ username) := hplain c (List.mem_append_left _ hc)
    have hpassword (c : UInt8) (hc : c ∈ password) := hplain c (List.mem_append_right _ hc)
    refine ⟨helloLine username password, rfl, hline.mpr ⟨?_, ?_⟩, toTokens_hello h ?_ ?_⟩
    · exact fun hmem => (husername _ hmem).2 rfl
    · exact fun hmem => (hpassword _ hmem).2 rfl
    · exact fun hmem => (husername _ hmem).1 rfl
    · exact fun hmem => (hpassword _ hmem).1 rfl

theorem hello_exact_quoted :
    HelloExact [0x75] [0x61, quote, sp, 0x62] ↔
      ∀ c ∈ [0x75] ++ [0x61, quote, sp, 0x62], c ≠ backslash ∧ c ≠ terminator :=
  hello_exact_iff (.inl (List.cons_ne_nil _ _))

/-- The character that escapes is lost of a password. -/
theorem not_hello_exact : ¬∀ username password : Text, username ≠ [] ∨ password ≠ [] →
    HelloExact username password := by
  intro hall
  obtain ⟨line, hhello, _, htokens⟩ := hall [] [0x61, backslash, 0x62] (.inr (List.cons_ne_nil _ _))
  have heq : helloLine [] [0x61, backslash, 0x62] = line := List.append_cancel_right hhello
  rw [← heq] at htokens
  exact toTokens_password_ne List.not_mem_nil (by decide) htokens

end BitcoinNetwork.Sam
