import BitcoinNetwork.Ws.FrameHeader

/-!
# Frame headers are read as they are written (ws/frame.cpp:60-186)

A header that is parsed is the one `serialize_header` writes for what was
parsed of it, and what it writes of a header that may be sent is parsed back.
-/

namespace BitcoinNetwork.Ws
open Binary

/-! ### The first two bytes -/

/-- The first byte of a header. -/
def firstByte (code : Opcode) (fin : Bool) : UInt8 := (if fin then finBit else 0) ||| code.value

/-- The second byte of a header. -/
def secondByte (server : Bool) (length : UInt8) : UInt8 := (if server then maskBit else 0) ||| length

theorem firstByte_spec (code : Opcode) (fin : Bool) :
    firstByte code fin &&& reservedBits = 0 ∧
    Opcode.ofValue (firstByte code fin &&& opcodeBits) = some code ∧
    decide (firstByte code fin &&& finBit ≠ 0) = fin := by
  cases code <;> cases fin <;> decide

theorem eq_firstByte {b : UInt8} {code : Opcode} (hr : b &&& reservedBits = 0)
    (hc : Opcode.ofValue (b &&& opcodeBits) = some code) :
    b = firstByte code (decide (b &&& finBit ≠ 0)) := by
  have h : ∀ b : UInt8, b &&& reservedBits = 0 → ∀ code ∈ Opcode.ofValue (b &&& opcodeBits),
      b = firstByte code (decide (b &&& finBit ≠ 0)) :=
    forall_byte (by decide +kernel)
  exact h b hr code hc

theorem secondByte_spec (server : Bool) {length : UInt8} (h : length ≤ 127) :
    secondByte server length &&& lengthBits = length ∧
    decide (secondByte server length &&& maskBit ≠ 0) = server := by
  have hall : ∀ length : UInt8, length ≤ 127 →
      (secondByte true length &&& lengthBits = length ∧
        decide (secondByte true length &&& maskBit ≠ 0) = true) ∧
      secondByte false length &&& lengthBits = length ∧
        decide (secondByte false length &&& maskBit ≠ 0) = false :=
    forall_byte (by decide +kernel)
  cases server with
  | true => exact (hall length h).1
  | false => exact (hall length h).2

theorem eq_secondByte (b : UInt8) :
    b = secondByte (decide (b &&& maskBit ≠ 0)) (b &&& lengthBits) ∧ b &&& lengthBits ≤ 127 := by
  have hall : ∀ b : UInt8,
      b = secondByte (decide (b &&& maskBit ≠ 0)) (b &&& lengthBits) ∧ b &&& lengthBits ≤ 127 :=
    forall_byte (by decide +kernel)
  exact hall b

/-- A control frame is not fragmented and its length is one byte. -/
def Sendable (code : Opcode) (fin : Bool) (length : ℕ) : Prop :=
  code.isControl = true → fin = true ∧ length ≤ maximumControl

theorem headPair_ok {first second : UInt8} {server fin : Bool} {code : Opcode}
    (h : headPair first second server = .ok (fin, code)) :
    first = firstByte code fin ∧ second = secondByte server (second &&& lengthBits) ∧
      Sendable code fin (second &&& lengthBits).toNat := by
  unfold headPair at h
  split at h
  · cases h
  rename_i hr
  split at h
  · cases h
  rename_i code' hc
  simp only at h
  by_cases h₁ : code'.isControl = true ∧ ¬decide (first &&& finBit ≠ 0) = true
  · rw [if_pos h₁] at h
    cases h
  rw [if_neg h₁] at h
  by_cases h₂ : code'.isControl = true ∧ maximumControl < (second &&& lengthBits).toNat
  · rw [if_pos h₂] at h
    cases h
  rw [if_neg h₂] at h
  by_cases h₃ : server = true ∧ ¬decide (second &&& maskBit ≠ 0) = true
  · rw [if_pos h₃] at h
    cases h
  rw [if_neg h₃] at h
  by_cases h₄ : ¬server = true ∧ decide (second &&& maskBit ≠ 0) = true
  · rw [if_pos h₄] at h
    cases h
  rw [if_neg h₄] at h
  cases h
  have hmasked : decide (second &&& maskBit ≠ 0) = server := by
    revert h₃ h₄
    cases server <;> cases decide (second &&& maskBit ≠ 0) <;> simp
  have hsecond := (eq_secondByte second).1
  rw [hmasked] at hsecond
  refine ⟨eq_firstByte (not_not.mp hr) hc, hsecond, fun hcontrol => ⟨?_, ?_⟩⟩
  · exact not_not.mp fun hc => h₁ ⟨hcontrol, hc⟩
  · exact Nat.le_of_not_lt fun hc => h₂ ⟨hcontrol, hc⟩

theorem headPair_bytes {code : Opcode} {fin server : Bool} {length : UInt8} (hl : length ≤ 127)
    (h : Sendable code fin length.toNat) :
    headPair (firstByte code fin) (secondByte server length) server = .ok (fin, code) := by
  obtain ⟨hr, hc, hf⟩ := firstByte_spec code fin
  obtain ⟨hlength, hmasked⟩ := secondByte_spec server hl
  have h₁ : ¬(code.isControl = true ∧ ¬fin = true) := fun hn => hn.2 (h hn.1).1
  have h₂ : ¬(code.isControl = true ∧ maximumControl < length.toNat) := fun hn =>
    absurd (h hn.1).2 (Nat.not_le.mpr hn.2)
  rw [headPair, if_neg (by rw [hr]; decide), hc]
  dsimp only
  rw [hf, hmasked, hlength, if_neg h₁, if_neg h₂, if_neg (fun hn => hn.2 hn.1),
    if_neg (fun hn => hn.1 hn.2)]

/-! ### Length and key -/

/-- The length byte of a length. -/
def lengthByte (length : ℕ) : UInt8 :=
  if length < length16.toNat then length.toUInt8 else if length ≤ 0xffff then length16 else length64

/-- The extended length of a length. -/
def lengthBytes (length : ℕ) : Bytes :=
  if length < length16.toNat then [] else if length ≤ 0xffff then toBytes 2 length
  else toBytes 8 length

/-- The key of a masked frame. -/
def keyBytes : Option Mask → Bytes
  | some key => key.toList
  | none => []

theorem serializeHeader_eq (code : Opcode) (fin : Bool) (length : ℕ) (key : Option Mask) :
    serializeHeader code fin length key = firstByte code fin ::
      secondByte key.isSome (lengthByte length) :: (lengthBytes length ++ keyBytes key) := by
  by_cases h₁ : length < length16.toNat
  · simp only [serializeHeader, lengthByte, lengthBytes, if_pos h₁]
    cases key <;> rfl
  by_cases h₂ : length ≤ 0xffff
  · simp only [serializeHeader, lengthByte, lengthBytes, if_neg h₁, if_pos h₂]
    cases key <;> rfl
  · simp only [serializeHeader, lengthByte, lengthBytes, if_neg h₁, if_neg h₂]
    cases key <;> rfl

theorem length16_toNat : length16.toNat = 126 := rfl

theorem lengths_short {length : ℕ} (h : length < 126) :
    lengthByte length = length.toUInt8 ∧ lengthBytes length = [] :=
  ⟨if_pos h, if_pos h⟩

theorem lengths_16 {length : ℕ} (h : ¬length < 126) (h' : length ≤ 0xffff) :
    lengthByte length = length16 ∧ lengthBytes length = toBytes 2 length :=
  ⟨(if_neg h).trans (if_pos h'), (if_neg h).trans (if_pos h')⟩

theorem lengths_64 {length : ℕ} (h : ¬length ≤ 0xffff) :
    lengthByte length = length64 ∧ lengthBytes length = toBytes 8 length := by
  have hlong : ¬length < 126 := by omega
  exact ⟨(if_neg hlong).trans (if_neg h), (if_neg hlong).trans (if_neg h)⟩

theorem lengthByte_le (length : ℕ) : lengthByte length ≤ 127 := by
  rw [UInt8.le_iff_toNat_le]
  unfold lengthByte
  split
  · rename_i h
    rw [length16_toNat] at h
    simp only [Nat.toUInt8_eq, UInt8.toNat_ofNat', UInt8.reduceToNat]
    omega
  split <;> decide

theorem lengthByte_toNat_le (length : ℕ) : (lengthByte length).toNat ≤ length := by
  unfold lengthByte
  split
  · simp only [Nat.toUInt8_eq, UInt8.toNat_ofNat']
    omega
  · rename_i h
    rw [length16_toNat] at h
    split
    · exact Nat.le_of_not_lt h
    · rename_i h'
      have : length64.toNat = 127 := rfl
      omega

/-- What is written of a length has the size of its length byte, and is its length. -/
theorem lengthBytes_spec {length : ℕ} (h : length < 2 ^ 63) (rest : Bytes) :
    extendedSize (lengthByte length) = (lengthBytes length).length ∧
    lengthValue (lengthByte length) (lengthBytes length ++ rest) = length ∧
    ¬BadSize (lengthByte length) length := by
  have h1664 : length16 ≠ length64 := by decide
  have h64 : length64.toNat = 127 := rfl
  by_cases hshort : length < 126
  · obtain ⟨hbyte, hbytes⟩ := lengths_short hshort
    have hnat : length.toUInt8.toNat = length := by
      simp only [Nat.toUInt8_eq, UInt8.toNat_ofNat']
      omega
    have hne16 : length.toUInt8 ≠ length16 := fun hc => by
      rw [hc, length16_toNat] at hnat
      omega
    have hne64 : length.toUInt8 ≠ length64 := fun hc => by
      rw [hc, h64] at hnat
      omega
    have hsize : extendedSize length.toUInt8 = 0 := by
      rw [extendedSize, if_neg hne16, if_neg hne64]
    rw [hbyte, hbytes]
    refine ⟨hsize, by rw [lengthValue, if_pos hsize, hnat], ?_⟩
    rintro (⟨hc, -⟩ | ⟨hc, -⟩)
    · exact hne16 hc
    · exact hne64 hc
  by_cases hsmall : length ≤ 0xffff
  · obtain ⟨hbyte, hbytes⟩ := lengths_16 hshort hsmall
    rw [hbyte, hbytes]
    refine ⟨rfl, ?_, ?_⟩
    · rw [lengthValue, if_neg (by decide),
        show extendedSize length16 = (toBytes 2 length).length from rfl, List.take_left]
      exact ofBytes_toBytes (by omega)
    · rintro (⟨-, hc⟩ | ⟨hc, -⟩)
      · exact hshort hc
      · exact h1664 hc
  · obtain ⟨hbyte, hbytes⟩ := lengths_64 hsmall
    rw [hbyte, hbytes]
    refine ⟨rfl, ?_, ?_⟩
    · rw [lengthValue, if_neg (by decide),
        show extendedSize length64 = (toBytes 8 length).length from rfl, List.take_left]
      exact ofBytes_toBytes (by omega)
    · rintro (⟨hc, -⟩ | ⟨-, hc | hc⟩)
      · exact h1664 hc.symm
      · exact hsmall hc
      · omega

theorem lengthValue_short {l : UInt8} (h : l.toNat < 126) (rest : Bytes) :
    lengthValue l rest = l.toNat := by
  have h16 : l ≠ length16 := fun hc => by rw [hc, length16_toNat] at h; omega
  have h64 : l ≠ length64 := fun hc => by
    rw [hc, show length64.toNat = 127 from rfl] at h
    omega
  rw [lengthValue, if_pos (by rw [extendedSize, if_neg h16, if_neg h64])]

/-- A length that is not refused is written as it was read. -/
theorem eq_lengthBytes {l : UInt8} {rest : Bytes} (hl : l ≤ 127)
    (hlen : extendedSize l ≤ rest.length) (hbad : ¬BadSize l (lengthValue l rest)) :
    l = lengthByte (lengthValue l rest) ∧ rest.take (extendedSize l)
      = lengthBytes (lengthValue l rest) ∧ lengthValue l rest < 2 ^ 63 := by
  have h127 : (127 : UInt8).toNat = 127 := rfl
  rw [UInt8.le_iff_toNat_le, h127] at hl
  have h64 : length64.toNat = 127 := rfl
  by_cases h16 : l = length16
  · subst h16
    have hsize : extendedSize length16 = 2 := rfl
    rw [hsize] at hlen ⊢
    have htake : (rest.take 2).length = 2 := by rw [List.length_take]; omega
    have hvalue : lengthValue length16 rest = ofBytes (rest.take 2) := rfl
    have hlt := ofBytes_lt (rest.take 2)
    rw [htake] at hlt
    have hlow : ¬lengthValue length16 rest < length16.toNat := fun hc => hbad (.inl ⟨rfl, hc⟩)
    rw [length16_toNat] at hlow
    have hback := toBytes_ofBytes (rest.take 2)
    rw [htake] at hback
    obtain ⟨hbyte, hbytes⟩ := lengths_16 hlow (by omega)
    rw [hbyte, hbytes, hvalue, hback]
    exact ⟨rfl, rfl, by omega⟩
  by_cases hl64 : l = length64
  · subst hl64
    have hsize : extendedSize length64 = 8 := rfl
    rw [hsize] at hlen ⊢
    have htake : (rest.take 8).length = 8 := by rw [List.length_take]; omega
    have hvalue : lengthValue length64 rest = ofBytes (rest.take 8) := rfl
    have hlow : ¬(lengthValue length64 rest ≤ 0xffff) := fun hc => hbad (.inr ⟨rfl, .inl hc⟩)
    have hhigh : ¬2 ^ 63 ≤ lengthValue length64 rest := fun hc => hbad (.inr ⟨rfl, .inr hc⟩)
    have hback := toBytes_ofBytes (rest.take 8)
    rw [htake] at hback
    obtain ⟨hbyte, hbytes⟩ := lengths_64 hlow
    rw [hbyte, hbytes, hvalue, hback, ← hvalue]
    exact ⟨rfl, rfl, by omega⟩
  · have hne16 : l.toNat ≠ 126 := fun hc => h16 (UInt8.toNat_inj.mp (hc.trans length16_toNat.symm))
    have hne64 : l.toNat ≠ 127 := fun hc => hl64 (UInt8.toNat_inj.mp (hc.trans h64.symm))
    have hsize : extendedSize l = 0 := by rw [extendedSize, if_neg h16, if_neg hl64]
    have hvalue : lengthValue l rest = l.toNat := by rw [lengthValue, if_pos hsize]
    obtain ⟨hbyte, hbytes⟩ := @lengths_short l.toNat (by omega)
    rw [hvalue, hsize, hbyte, hbytes]
    exact ⟨by simp, rfl, by omega⟩

theorem keyOf_toList (key : Mask) (rest : Bytes) : keyOf (key.toList ++ rest) = key := by
  unfold keyOf
  ext i hi
  simp only [Vector.getElem_ofFn, List.getD_eq_getElem?_getD]
  rw [List.getElem?_append_left (by simpa using hi)]
  simp [hi]

theorem toList_keyOf {bytes : Bytes} (h : 4 ≤ bytes.length) : (keyOf bytes).toList = bytes.take 4 := by
  match bytes, h with
  | a :: b :: c :: d :: rest, _ => simp [keyOf, Vector.toList_ofFn, List.ofFn_succ]

/-! ### Headers -/

/-- A header that may be sent is parsed back. -/
theorem parseHeader_serializeHeader (out : FrameHeader) {code : Opcode} {fin : Bool} {length : ℕ}
    (hs : Sendable code fin length) (hl : length < 2 ^ 63) (key : Option Mask) (rest : Bytes) :
    parseHeader out (serializeHeader code fin length key ++ rest) key.isSome =
      (⟨fin, code, key.isSome, length, key.getD out.key⟩,
        .ok (serializeHeader code fin length key).length) := by
  have hle := lengthByte_le length
  have hsend : Sendable code fin (lengthByte length).toNat := fun hc =>
    ⟨(hs hc).1, (lengthByte_toNat_le length).trans (hs hc).2⟩
  have hpair := @headPair_bytes _ _ key.isSome _ hle hsend
  obtain ⟨hsize, hvalue, hbad⟩ := lengthBytes_spec hl (keyBytes key ++ rest)
  have hkey : (if key.isSome then 4 else 0) = (keyBytes key).length := by
    cases key with
    | none => rfl
    | some key => simp [keyBytes]
  have htotal : headerSize (lengthByte length) key.isSome
      = (serializeHeader code fin length key).length := by
    rw [headerSize, hsize, hkey, serializeHeader_eq]
    simp only [List.length_cons, List.length_append]
    omega
  obtain ⟨e, frame, he, -⟩ | ⟨fin', code', hok, heq⟩ := parseHeader_cases out (firstByte code fin)
    (secondByte key.isSome (lengthByte length)) key.isSome
  · rw [hpair] at he
    cases he
  · rw [hpair] at hok
    cases hok
    rw [serializeHeader_eq, List.cons_append, List.cons_append, List.append_assoc, heq,
      (secondByte_spec key.isSome hle).1, parseLength]
    rw [if_neg (by
      rw [htotal, serializeHeader_eq]
      simp only [List.length_cons, List.length_append]
      omega), hvalue]
    simp only [if_neg hbad, htotal, serializeHeader_eq]
    cases key with
    | none => rfl
    | some key =>
      rw [hsize, List.drop_left]
      simp only [Option.isSome_some, reduceIte, keyBytes, keyOf_toList, Option.getD_some]

/-- A header that is parsed is the one that is written for it. -/
theorem parseHeader_ok {out frame : FrameHeader} {data : Bytes} {server : Bool} {size : ℕ}
    (h : parseHeader out data server = (frame, .ok size)) :
    frame.masked = server ∧ Sendable frame.code frame.fin frame.length ∧
      frame.length < 2 ^ 63 ∧
      ∃ key : Option Mask, key.isSome = server ∧ (server = true → key = some frame.key) ∧
        data = serializeHeader frame.code frame.fin frame.length key ++ data.drop size ∧
        size = (serializeHeader frame.code frame.fin frame.length key).length := by
  match data with
  | [] => cases h
  | [_] => cases h
  | first :: second :: rest =>
    obtain ⟨e, frame', -, -, -, heq⟩ | ⟨fin, code, hok, heq⟩ :=
      parseHeader_cases out first second server
    · rw [heq] at h
      cases h
    rw [heq] at h
    obtain ⟨hlen, rfl, hbad, rfl⟩ := parseLength_ok h
    obtain ⟨hfirst, hsecond, hsend⟩ := headPair_ok hok
    dsimp only at hlen ⊢
    generalize hl : second &&& lengthBits = l at hlen hbad hsecond hsend ⊢
    have hle : l ≤ 127 := hl ▸ (eq_secondByte second).2
    have hext : extendedSize l ≤ rest.length := by
      unfold headerSize at hlen
      omega
    obtain ⟨hbyte, hbytes, hlt⟩ := eq_lengthBytes hle hext hbad
    have hsendable : Sendable code fin (lengthValue l rest) := fun hc => by
      obtain ⟨hfin, hshort⟩ := hsend hc
      unfold maximumControl at hshort ⊢
      exact ⟨hfin, by rw [lengthValue_short (by omega)]; exact hshort⟩
    have hkey : keyBytes (if server then some (keyOf (rest.drop (extendedSize l))) else none)
        = (rest.drop (extendedSize l)).take (if server then 4 else 0) := by
      cases server with
      | false => rfl
      | true =>
        simp only [headerSize, reduceIte] at hlen
        exact toList_keyOf (by rw [List.length_drop]; omega)
    have hsome : (if server then some (keyOf (rest.drop (extendedSize l))) else none).isSome
        = server := by
      cases server <;> rfl
    have htext : serializeHeader code fin (lengthValue l rest)
        (if server then some (keyOf (rest.drop (extendedSize l))) else none)
        = first :: second :: rest.take (extendedSize l + if server then 4 else 0) := by
      rw [serializeHeader_eq, hsome, hkey, ← hbytes, ← hbyte, ← hfirst, ← hsecond, List.take_add]
    refine ⟨rfl, hsendable, hlt, _, hsome, fun hs => by rw [hs]; rfl, ?_, ?_⟩
    · rw [htext, headerSize, Nat.add_assoc, Nat.add_comm 2, List.drop_succ_cons,
        List.drop_succ_cons, List.cons_append, List.cons_append, List.take_append_drop]
    · rw [htext, List.length_cons, List.length_cons, List.length_take]
      unfold headerSize at hlen ⊢
      omega

end BitcoinNetwork.Ws
