import BitcoinNetwork.Ws.Frame

/-!
# The validator accepts utf8 (ws/frame.cpp, utf8_validator)

Text is valid if it is the encoding of characters. From between characters the
validator takes the bytes of one character and is between characters again, so
that it accepts what is valid and nothing else, wherever the text is cut.
-/

namespace BitcoinNetwork.Ws

/-- The encoding of characters. -/
def ValidUtf8 (bytes : Bytes) : Prop :=
  ∃ text : List Char, text.flatMap String.utf8EncodeChar = bytes

/-! ### The bytes of a character -/

/-- A byte behind the first of a character. -/
def IsTail (b : UInt8) : Prop := 0x80 ≤ b.toNat ∧ b.toNat ≤ 0xbf

/-- The bytes of a character by their ranges (rfc3629): the second excludes
encodings that are not the shortest, surrogates and what is above 10ffff. -/
inductive CharBytes : Bytes → Prop where
  | one {b} (hb : b.toNat ≤ 0x7f) : CharBytes [b]
  | two {b c} (hb : 0xc2 ≤ b.toNat ∧ b.toNat ≤ 0xdf) (hc : IsTail c) : CharBytes [b, c]
  | three {b c d} (hb : 0xe0 ≤ b.toNat ∧ b.toNat ≤ 0xef) (hc : IsTail c)
      (low : b.toNat = 0xe0 → 0xa0 ≤ c.toNat) (high : b.toNat = 0xed → c.toNat ≤ 0x9f)
      (hd : IsTail d) : CharBytes [b, c, d]
  | four {b c d e} (hb : 0xf0 ≤ b.toNat ∧ b.toNat ≤ 0xf4) (hc : IsTail c)
      (low : b.toNat = 0xf0 → 0x90 ≤ c.toNat) (high : b.toNat = 0xf4 → c.toNat ≤ 0x8f)
      (hd : IsTail d) (he : IsTail e) : CharBytes [b, c, d, e]

theorem toNat_toUInt8 {n : ℕ} (h : n < 256) : n.toUInt8.toNat = n := by
  simp only [Nat.toUInt8_eq, UInt8.toNat_ofNat']
  exact Nat.mod_eq_of_lt h

/-- The bytes of a scalar value. -/
def encodeScalar (n : ℕ) : Bytes :=
  if n ≤ 0x7f then [n.toUInt8]
  else if n ≤ 0x7ff then [(n / 64 % 0x20 + 0xc0).toUInt8, (n % 0x40 + 0x80).toUInt8]
  else if n ≤ 0xffff then
    [(n / 4096 % 0x10 + 0xe0).toUInt8, (n / 64 % 0x40 + 0x80).toUInt8, (n % 0x40 + 0x80).toUInt8]
  else
    [(n / 262144 % 0x08 + 0xf0).toUInt8, (n / 4096 % 0x40 + 0x80).toUInt8,
      (n / 64 % 0x40 + 0x80).toUInt8, (n % 0x40 + 0x80).toUInt8]

theorem utf8EncodeChar_eq (c : Char) : String.utf8EncodeChar c = encodeScalar c.toNat := rfl

theorem charBytes_encodeScalar {n : ℕ} (h : n.isValidChar) : CharBytes (encodeScalar n) := by
  unfold Nat.isValidChar at h
  unfold encodeScalar
  split
  · exact .one (by simp (disch := omega) only [toNat_toUInt8]; omega)
  split
  · exact .two (by simp (disch := omega) only [toNat_toUInt8]; omega)
      (by simp (disch := omega) only [IsTail, toNat_toUInt8]; omega)
  split
  · exact .three (by simp (disch := omega) only [toNat_toUInt8]; omega)
      (by simp (disch := omega) only [IsTail, toNat_toUInt8]; omega)
      (by simp (disch := omega) only [toNat_toUInt8]; omega)
      (by simp (disch := omega) only [toNat_toUInt8]; omega)
      (by simp (disch := omega) only [IsTail, toNat_toUInt8]; omega)
  · exact .four (by simp (disch := omega) only [toNat_toUInt8]; omega)
      (by simp (disch := omega) only [IsTail, toNat_toUInt8]; omega)
      (by simp (disch := omega) only [toNat_toUInt8]; omega)
      (by simp (disch := omega) only [toNat_toUInt8]; omega)
      (by simp (disch := omega) only [IsTail, toNat_toUInt8]; omega)
      (by simp (disch := omega) only [IsTail, toNat_toUInt8]; omega)

theorem eq_toUInt8 {b : UInt8} {n : ℕ} (h : b.toNat = n) : n.toUInt8 = b := by
  rw [← h]
  simp

/-- The bytes of a character are those of its scalar value. -/
theorem CharBytes.exists_scalar {bytes : Bytes} (h : CharBytes bytes) :
    ∃ n : ℕ, n.isValidChar ∧ encodeScalar n = bytes := by
  unfold Nat.isValidChar
  cases h with
  | @one b hb =>
    refine ⟨b.toNat, .inl (by omega), ?_⟩
    rw [encodeScalar, if_pos hb, eq_toUInt8 rfl]
  | @two b c hb hc =>
    unfold IsTail at hc
    refine ⟨(b.toNat - 0xc0) * 64 + (c.toNat - 0x80), .inl (by omega), ?_⟩
    rw [encodeScalar, if_neg (by omega), if_pos (by omega),
      eq_toUInt8 (b := b) (by omega), eq_toUInt8 (b := c) (by omega)]
  | @three b c d hb hc low high hd =>
    unfold IsTail at hc hd
    refine ⟨(b.toNat - 0xe0) * 4096 + (c.toNat - 0x80) * 64 + (d.toNat - 0x80), by omega, ?_⟩
    rw [encodeScalar, if_neg (by omega), if_neg (by omega), if_pos (by omega),
      eq_toUInt8 (b := b) (by omega), eq_toUInt8 (b := c) (by omega),
      eq_toUInt8 (b := d) (by omega)]
  | @four b c d e hb hc low high hd he =>
    unfold IsTail at hc hd he
    refine ⟨(b.toNat - 0xf0) * 262144 + (c.toNat - 0x80) * 4096 + (d.toNat - 0x80) * 64 +
      (e.toNat - 0x80), by omega, ?_⟩
    rw [encodeScalar, if_neg (by omega), if_neg (by omega), if_neg (by omega),
      eq_toUInt8 (b := b) (by omega), eq_toUInt8 (b := c) (by omega),
      eq_toUInt8 (b := d) (by omega), eq_toUInt8 (b := e) (by omega)]

theorem charBytes_iff {bytes : Bytes} :
    CharBytes bytes ↔ ∃ c : Char, String.utf8EncodeChar c = bytes := by
  constructor
  · intro h
    obtain ⟨n, hn, rfl⟩ := h.exists_scalar
    exact ⟨Char.ofNatAux n hn, rfl⟩
  · rintro ⟨c, rfl⟩
    rw [utf8EncodeChar_eq]
    exact charBytes_encodeScalar c.valid

/-! ### The validator -/

namespace Utf8Validator

/-- The bytes are accepted to their end, where a character ends. -/
def Accepts (v : Utf8Validator) (bytes : Bytes) : Prop :=
  (v.write bytes).1 = true ∧ (v.write bytes).2.finish.1 = true

/-- The first byte of a character gives the number of those behind it and the
range of the next. -/
theorem writeByte_first (b : UInt8) : writeByte {} b =
    if b.toNat ≤ 0x7f then (true, {})
    else if 0xc2 ≤ b.toNat ∧ b.toNat ≤ 0xdf then (true, { needed := 1 })
    else if 0xe0 ≤ b.toNat ∧ b.toNat ≤ 0xef then
      (true, ⟨2, if b.toNat = 0xe0 then 0xa0 else 0x80, if b.toNat = 0xed then 0x9f else 0xbf⟩)
    else if 0xf0 ≤ b.toNat ∧ b.toNat ≤ 0xf4 then
      (true, ⟨3, if b.toNat = 0xf0 then 0x90 else 0x80, if b.toNat = 0xf4 then 0x8f else 0xbf⟩)
    else (false, {}) := by
  simp only [writeByte, reduceIte, UInt8.le_iff_toNat_le, ← UInt8.toNat_inj, UInt8.reduceToNat]

theorem writeByte_next {v : Utf8Validator} (hv : v.needed ≠ 0) (b : UInt8) : v.writeByte b =
    if v.lower.toNat ≤ b.toNat ∧ b.toNat ≤ v.upper.toNat then (true, { needed := v.needed - 1 })
    else (false, v) := by
  simp only [writeByte, if_neg hv, UInt8.lt_iff_toNat_lt]
  by_cases h : v.lower.toNat ≤ b.toNat ∧ b.toNat ≤ v.upper.toNat
  · rw [if_pos h, if_neg (by omega)]
  · rw [if_neg h, if_pos (by omega)]

theorem accepts_nil {v : Utf8Validator} : v.Accepts [] ↔ v.needed = 0 := by
  simp only [Accepts, write, finish, true_and]
  exact decide_eq_true_iff

theorem accepts_cons {v next : Utf8Validator} {b : UInt8} (h : v.writeByte b = (true, next))
    (bytes : Bytes) : v.Accepts (b :: bytes) ↔ next.Accepts bytes := by
  simp only [Accepts, write, h]

theorem not_accepts_cons {v next : Utf8Validator} {b : UInt8} (h : v.writeByte b = (false, next))
    (bytes : Bytes) : ¬v.Accepts (b :: bytes) := by
  simp [Accepts, write, h]

/-- Within a character the next byte is one of its range. -/
theorem accepts_next {v : Utf8Validator} (hv : v.needed ≠ 0) (bytes : Bytes) :
    v.Accepts bytes ↔ ∃ b rest, bytes = b :: rest ∧ v.lower.toNat ≤ b.toNat ∧
      b.toNat ≤ v.upper.toNat ∧ Accepts { needed := v.needed - 1 } rest := by
  cases bytes with
  | nil => simp [accepts_nil, hv]
  | cons b rest =>
    have hnext := writeByte_next hv b
    by_cases h : v.lower.toNat ≤ b.toNat ∧ b.toNat ≤ v.upper.toNat
    · rw [if_pos h] at hnext
      rw [accepts_cons hnext]
      exact ⟨fun ha => ⟨b, rest, rfl, h.1, h.2, ha⟩, fun ⟨_, _, heq, _, _, ha⟩ => by
        cases heq
        exact ha⟩
    · rw [if_neg h] at hnext
      exact iff_of_false (not_accepts_cons hnext rest) fun ⟨_, _, heq, hl, hu, _⟩ => by
        cases heq
        exact h ⟨hl, hu⟩

theorem accepts_tail {k : ℕ} (bytes : Bytes) : Accepts { needed := k + 1 } bytes ↔
    ∃ b rest, bytes = b :: rest ∧ IsTail b ∧ Accepts { needed := k } rest := by
  rw [accepts_next (Nat.succ_ne_zero k)]
  simp only [IsTail, UInt8.reduceToNat, and_assoc, Nat.add_sub_cancel]

theorem first_one {b : UInt8} (h : b.toNat ≤ 0x7f) : writeByte {} b = (true, {}) := by
  rw [writeByte_first, if_pos h]

theorem first_two {b : UInt8} (h : 0xc2 ≤ b.toNat ∧ b.toNat ≤ 0xdf) :
    writeByte {} b = (true, { needed := 1 }) := by
  rw [writeByte_first, if_neg (by omega), if_pos h]

theorem first_three {b : UInt8} (h : 0xe0 ≤ b.toNat ∧ b.toNat ≤ 0xef) : writeByte {} b =
    (true, ⟨2, if b.toNat = 0xe0 then 0xa0 else 0x80, if b.toNat = 0xed then 0x9f else 0xbf⟩) := by
  rw [writeByte_first, if_neg (by omega), if_neg (by omega), if_pos h]

theorem first_four {b : UInt8} (h : 0xf0 ≤ b.toNat ∧ b.toNat ≤ 0xf4) : writeByte {} b =
    (true, ⟨3, if b.toNat = 0xf0 then 0x90 else 0x80, if b.toNat = 0xf4 then 0x8f else 0xbf⟩) := by
  rw [writeByte_first, if_neg (by omega), if_neg (by omega), if_neg (by omega), if_pos h]

/-- A second byte is in its range exactly if it is a tail byte that its first admits. -/
theorem second_range {b c low high : UInt8} {at₁ at₂ : ℕ} (hl : 0x80 ≤ low.toNat)
    (hh : high.toNat ≤ 0xbf) :
    ((if b.toNat = at₁ then low else 0x80).toNat ≤ c.toNat ∧
      c.toNat ≤ (if b.toNat = at₂ then high else 0xbf).toNat) ↔
    IsTail c ∧ (b.toNat = at₁ → low.toNat ≤ c.toNat) ∧ (b.toNat = at₂ → c.toNat ≤ high.toNat) := by
  have hlower : (0x80 : UInt8).toNat = 0x80 := rfl
  have hupper : (0xbf : UInt8).toNat = 0xbf := rfl
  unfold IsTail
  split <;> split <;> omega

/-- From between characters the validator takes the bytes of a character. -/
theorem accepts_char {bytes : Bytes} (hne : bytes ≠ []) : Accepts {} bytes ↔
    ∃ first rest, bytes = first ++ rest ∧ CharBytes first ∧ Accepts {} rest := by
  constructor
  · intro h
    obtain ⟨b, rest, rfl⟩ := List.exists_cons_of_ne_nil hne
    by_cases h₁ : b.toNat ≤ 0x7f
    · rw [accepts_cons (first_one h₁)] at h
      exact ⟨[b], rest, rfl, .one h₁, h⟩
    by_cases h₂ : 0xc2 ≤ b.toNat ∧ b.toNat ≤ 0xdf
    · rw [accepts_cons (first_two h₂), accepts_tail] at h
      obtain ⟨c, rest, rfl, hc, h⟩ := h
      exact ⟨[b, c], rest, rfl, .two h₂ hc, h⟩
    by_cases h₃ : 0xe0 ≤ b.toNat ∧ b.toNat ≤ 0xef
    · rw [accepts_cons (first_three h₃), accepts_next (Nat.succ_ne_zero 1)] at h
      obtain ⟨c, rest, rfl, hlow, hhigh, h⟩ := h
      obtain ⟨d, rest, rfl, hd, h⟩ := (accepts_tail rest).mp h
      obtain ⟨hc, hlow, hhigh⟩ := (second_range (by decide) (by decide)).mp ⟨hlow, hhigh⟩
      exact ⟨[b, c, d], rest, rfl, .three h₃ hc hlow hhigh hd, h⟩
    by_cases h₄ : 0xf0 ≤ b.toNat ∧ b.toNat ≤ 0xf4
    · rw [accepts_cons (first_four h₄), accepts_next (Nat.succ_ne_zero 2)] at h
      obtain ⟨c, rest, rfl, hlow, hhigh, h⟩ := h
      obtain ⟨d, rest, rfl, hd, h⟩ := (accepts_tail rest).mp h
      obtain ⟨e, rest, rfl, he, h⟩ := (accepts_tail rest).mp h
      obtain ⟨hc, hlow, hhigh⟩ := (second_range (by decide) (by decide)).mp ⟨hlow, hhigh⟩
      exact ⟨[b, c, d, e], rest, rfl, .four h₄ hc hlow hhigh hd he, h⟩
    · have hbad := writeByte_first b
      rw [if_neg h₁, if_neg h₂, if_neg h₃, if_neg h₄] at hbad
      exact absurd h (not_accepts_cons hbad rest)
  · rintro ⟨first, rest, rfl, hfirst, h⟩
    cases hfirst with
    | one hb => exact (accepts_cons (first_one hb) rest).mpr h
    | @two b c hb hc =>
      rw [List.cons_append, accepts_cons (first_two hb), accepts_tail]
      exact ⟨c, rest, rfl, hc, h⟩
    | @three b c d hb hc low high hd =>
      obtain ⟨hlow, hhigh⟩ := (@second_range _ _ 0xa0 0x9f _ _ (by decide)
        (by decide)).mpr ⟨hc, low, high⟩
      rw [List.cons_append, accepts_cons (first_three hb), accepts_next (Nat.succ_ne_zero 1)]
      exact ⟨c, d :: rest, rfl, hlow, hhigh, (accepts_tail _).mpr ⟨d, rest, rfl, hd, h⟩⟩
    | @four b c d e hb hc low high hd he =>
      obtain ⟨hlow, hhigh⟩ := (@second_range _ _ 0x90 0x8f _ _ (by decide)
        (by decide)).mpr ⟨hc, low, high⟩
      rw [List.cons_append, accepts_cons (first_four hb), accepts_next (Nat.succ_ne_zero 2)]
      exact ⟨c, d :: e :: rest, rfl, hlow, hhigh, (accepts_tail _).mpr ⟨d, e :: rest, rfl, hd,
        (accepts_tail _).mpr ⟨e, rest, rfl, he, h⟩⟩⟩

theorem CharBytes_ne_nil {bytes : Bytes} (h : CharBytes bytes) : bytes ≠ [] := by
  cases h <;> nofun

/-- The validator accepts what is valid, and nothing else. -/
theorem accepts_iff (bytes : Bytes) : Accepts {} bytes ↔ ValidUtf8 bytes := by
  constructor
  · intro h
    induction hlen : bytes.length using Nat.strongRecOn generalizing bytes with
    | _ n ih =>
      by_cases hne : bytes = []
      · exact ⟨[], hne.symm⟩
      obtain ⟨first, rest, rfl, hfirst, hrest⟩ := (accepts_char hne).mp h
      have hpos := List.length_pos_of_ne_nil (CharBytes_ne_nil hfirst)
      obtain ⟨text, rfl⟩ := ih rest.length (by rw [← hlen, List.length_append]; omega) rest hrest rfl
      obtain ⟨c, rfl⟩ := charBytes_iff.mp hfirst
      exact ⟨c :: text, rfl⟩
  · rintro ⟨text, rfl⟩
    induction text with
    | nil => exact accepts_nil.mpr rfl
    | cons c text ih =>
      have hfirst := charBytes_iff.mpr ⟨c, rfl⟩
      rw [List.flatMap_cons]
      exact (accepts_char (by simp [CharBytes_ne_nil hfirst])).mpr ⟨_, _, rfl, hfirst, ih⟩

/-- The next byte has a range within that of a tail byte. -/
def Ranged (v : Utf8Validator) : Prop := v.lower.toNat ≤ v.upper.toNat

theorem ranged_writeByte {v : Utf8Validator} (h : v.Ranged) (b : UInt8) :
    (v.writeByte b).2.Ranged := by
  by_cases hv : v.needed = 0
  · have hrange : ∀ b : UInt8, (writeByte {} b).2.lower.toNat ≤ (writeByte {} b).2.upper.toNat :=
      Binary.forall_byte (by decide +kernel)
    have hfirst : v.writeByte b = writeByte { needed := v.needed } b := by
      simp only [writeByte, if_pos hv]
    rw [Ranged, hfirst, hv]
    exact hrange b
  · rw [writeByte_next hv]
    have htail : (0x80 : UInt8).toNat ≤ (0xbf : UInt8).toNat := by decide
    split
    · exact htail
    · exact h

theorem ranged_write {v : Utf8Validator} (h : v.Ranged) (bytes : Bytes) :
    (v.write bytes).2.Ranged := by
  induction bytes generalizing v with
  | nil => exact h
  | cons b bytes ih =>
    have hnext := ranged_writeByte h b
    rw [write]
    generalize v.writeByte b = result at hnext
    obtain ⟨ok, next⟩ := result
    cases ok with
    | true => exact ih hnext
    | false => exact hnext

/-- Bytes complete the character that was begun. -/
theorem exists_accepts {v : Utf8Validator} (h : v.Ranged) : ∃ rest, v.Accepts rest := by
  have htails (k : ℕ) : Accepts { needed := k } (List.replicate k 0x80) := by
    induction k with
    | zero => exact accepts_nil.mpr rfl
    | succ k ih => exact (accepts_tail _).mpr ⟨0x80, _, rfl, by unfold IsTail; decide, ih⟩
  by_cases hv : v.needed = 0
  · exact ⟨[], accepts_nil.mpr hv⟩
  · exact ⟨v.lower :: _, (accepts_next hv _).mpr ⟨_, _, rfl, le_rfl, h, htails _⟩⟩

/-- The validator refuses none of the bytes exactly if they begin what is valid. -/
theorem write_iff (bytes : Bytes) :
    (write {} bytes).1 = true ↔ ∃ rest, ValidUtf8 (bytes ++ rest) := by
  constructor
  · intro h
    obtain ⟨rest, hrest⟩ := exists_accepts (@ranged_write {} (by unfold Ranged; decide) bytes)
    refine ⟨rest, (accepts_iff _).mp ?_⟩
    rwa [Accepts, write_append, if_pos h]
  · rintro ⟨rest, hrest⟩
    have h := (accepts_iff _).mpr hrest
    by_contra hn
    rw [Accepts, write_append, if_neg hn] at h
    exact hn h.1

/-! ### Cut text -/

/-- The calls of `write` for the pieces of a text: what each of them returns. -/
def writes : Utf8Validator → List Bytes → List Bool × Utf8Validator
  | v, [] => ([], v)
  | v, piece :: pieces =>
    let written := v.write piece
    let rest := written.2.writes pieces
    (written.1 :: rest.1, rest.2)

/-- The pieces are refused nowhere exactly if their text is not, and then the
state is that behind the text. -/
theorem writes_eq (v : Utf8Validator) (pieces : List Bytes) :
    ((∀ ok ∈ (v.writes pieces).1, ok = true) ↔ (v.write pieces.flatten).1 = true) ∧
    ((v.write pieces.flatten).1 = true → (v.writes pieces).2 = (v.write pieces.flatten).2) := by
  induction pieces generalizing v with
  | nil => exact ⟨by simp [writes, write], fun _ => rfl⟩
  | cons piece pieces ih =>
    obtain ⟨hall, hstate⟩ := ih (v.write piece).2
    rw [List.flatten_cons, write_append]
    by_cases hok : (v.write piece).1 = true
    · rw [if_pos hok]
      refine ⟨?_, hstate⟩
      rw [← hall]
      simp [writes, hok]
    · rw [if_neg hok]
      exact ⟨by simp [writes, hok], fun h => absurd h hok⟩

/-- The bytes begin a valid text. -/
def Begins (bytes : Bytes) : Prop := ∃ rest, ValidUtf8 (bytes ++ rest)

theorem Begins.left {a b : Bytes} (h : Begins (a ++ b)) : Begins a := by
  obtain ⟨rest, h⟩ := h
  exact ⟨b ++ rest, by rwa [← List.append_assoc]⟩

/-- Where a text stops beginning a valid one, it does so at one of its bytes. -/
theorem exists_bad_byte {before piece : Bytes} (h : Begins before) (hn : ¬Begins (before ++ piece)) :
    ∃ p b q, piece = p ++ b :: q ∧ Begins (before ++ p) ∧ ¬Begins (before ++ p ++ [b]) := by
  induction piece generalizing before with
  | nil => exact absurd (by rwa [List.append_nil]) hn
  | cons b piece ih =>
    by_cases hb : Begins (before ++ [b])
    · obtain ⟨p, c, q, rfl, hp, hc⟩ := ih hb (by rwa [List.append_assoc])
      refine ⟨b :: p, c, q, rfl, ?_, ?_⟩
      · rwa [List.append_assoc] at hp
      · rwa [List.append_assoc before] at hc
    · exact ⟨[], b, piece, rfl, by rwa [List.append_nil], by rwa [List.append_nil]⟩

/-- Behind text that begins a valid one, a write fails exactly if its piece has
a byte that no valid text continues with. -/
theorem write_after {pieces : List Bytes} (h : Begins pieces.flatten) (piece : Bytes) :
    ((writes {} pieces).2.write piece).1 = false ↔
      ∃ p b q, piece = p ++ b :: q ∧ ¬Begins (pieces.flatten ++ p ++ [b]) := by
  have hok := (write_iff pieces.flatten).mpr h
  have hall := write_iff (pieces.flatten ++ piece)
  rw [write_append, if_pos hok, ← (writes_eq {} pieces).2 hok] at hall
  rw [← Bool.not_eq_true, hall]
  constructor
  · intro hn
    obtain ⟨p, b, q, hpiece, -, hbad⟩ := exists_bad_byte h hn
    exact ⟨p, b, q, hpiece, hbad⟩
  · rintro ⟨p, b, q, rfl, hbad⟩ hrest
    have hcut : pieces.flatten ++ (p ++ b :: q) = pieces.flatten ++ p ++ [b] ++ q := by simp
    exact hbad (Begins.left (hcut ▸ hrest))

/-- However a text is cut, its writes and `finish` return true exactly if it is
valid, and the first write to return false is that of the piece with the first
byte that no valid text continues with. -/
theorem validator_exact (pieces : List Bytes) :
    (((∀ ok ∈ (writes {} pieces).1, ok = true) ∧ (writes {} pieces).2.finish.1 = true) ↔
      ValidUtf8 pieces.flatten) ∧
    ∀ before piece after, pieces = before ++ piece :: after →
      ((∀ ok ∈ (writes {} before).1, ok = true) ↔ Begins before.flatten) ∧
      (Begins before.flatten →
        (((writes {} before).2.write piece).1 = false ↔
          ∃ p b q, piece = p ++ b :: q ∧ ¬Begins (before.flatten ++ p ++ [b]))) := by
  constructor
  · rw [← accepts_iff, (writes_eq {} pieces).1]
    constructor
    · rintro ⟨hok, hfinish⟩
      exact ⟨hok, by rwa [← (writes_eq {} pieces).2 hok]⟩
    · rintro ⟨hok, hfinish⟩
      exact ⟨hok, by rwa [(writes_eq {} pieces).2 hok]⟩
  · intro before piece _ _
    exact ⟨(writes_eq {} before).1.trans (write_iff _), fun h => write_after h piece⟩

end Utf8Validator
end BitcoinNetwork.Ws
