import BitcoinNetwork.Ws.Frame

/-!
# How a frame header is decided (ws/frame.cpp:60-144)

The first two bytes refuse a header or leave it to the bytes of its length and
key. Of the header parsed before it, none of which a frame is to depend on, a
header keeps the key if it has none.
-/

namespace BitcoinNetwork.Ws

/-- What `parse_header` makes of the first two bytes: the fin bit and the opcode. -/
def headPair (first second : UInt8) (server : Bool) : Except WsError (Bool × Opcode) :=
  if first &&& reservedBits ≠ 0 then .error .badReservedBits
  else match Opcode.ofValue (first &&& opcodeBits) with
    | none => .error .badOpcode
    | some code =>
      let fin := decide (first &&& finBit ≠ 0)
      let masked := decide (second &&& maskBit ≠ 0)
      if code.isControl ∧ ¬fin then .error .badControlFragment
      else if code.isControl ∧ maximumControl < (second &&& lengthBits).toNat then
        .error .badControlSize
      else if server ∧ ¬masked then .error .badUnmaskedFrame
      else if ¬server ∧ masked then .error .badMaskedFrame
      else .ok (fin, code)

/-- The length that a header gives its payload. -/
def lengthValue (length : UInt8) (rest : Bytes) : ℕ :=
  if extendedSize length = 0 then length.toNat
  else Binary.ofBytes (rest.take (extendedSize length))

/-- The length is not in its shortest encoding, or its high bit is set. -/
def BadSize (length : UInt8) (value : ℕ) : Prop :=
  (length = length16 ∧ value < length16.toNat) ∨
    (length = length64 ∧ (value ≤ 0xffff ∨ 2 ^ 63 ≤ value))

instance (length : UInt8) (value : ℕ) : Decidable (BadSize length value) :=
  inferInstanceAs (Decidable (_ ∨ _))

/-- The size of a header by its length byte. -/
def headerSize (length : UInt8) (masked : Bool) : ℕ :=
  2 + extendedSize length + if masked then 4 else 0

/-- What `parse_header` makes of the bytes behind the first two. -/
def parseLength (out : FrameHeader) (length : UInt8) (rest : Bytes) :
    FrameHeader × Except WsError ℕ :=
  if rest.length + 2 < headerSize length out.masked then (out, .error .needMore)
  else
    let out := { out with length := lengthValue length rest }
    if BadSize length out.length then (out, .error .badSize)
    else ({ out with
      key := if out.masked then keyOf (rest.drop (extendedSize length)) else out.key },
      .ok (headerSize length out.masked))

/-- The first two bytes refuse a header, or leave it to its length and key. -/
theorem parseHeader_cases (out : FrameHeader) (first second : UInt8) (server : Bool) :
    (∃ e frame, headPair first second server = .error e ∧ e ≠ .needMore ∧ frame.key = out.key ∧
      ∀ rest, parseHeader out (first :: second :: rest) server = (frame, .error e)) ∨
    ∃ fin code, headPair first second server = .ok (fin, code) ∧
      ∀ rest, parseHeader out (first :: second :: rest) server =
        parseLength { out with fin := fin, code := code, masked := server }
          (second &&& lengthBits) rest := by
  simp only [headPair, parseHeader]
  by_cases hr : first &&& reservedBits ≠ 0
  · simp only [if_pos hr]
    exact .inl ⟨_, out, rfl, fun hc => (by cases hc), rfl, fun _ => rfl⟩
  simp only [if_neg hr]
  cases hc : Opcode.ofValue (first &&& opcodeBits) with
  | none => exact .inl ⟨_, out, rfl, fun hc => (by cases hc), rfl, fun _ => rfl⟩
  | some code =>
    simp only
    generalize decide (first &&& finBit ≠ 0) = fin
    generalize decide (second &&& maskBit ≠ 0) = masked
    by_cases h1 : code.isControl = true ∧ ¬fin = true
    · simp only [if_pos h1]
      exact .inl ⟨_, { out with fin, code, masked }, rfl, fun hc => (by cases hc), rfl, fun _ => rfl⟩
    simp only [if_neg h1]
    by_cases h2 : code.isControl = true ∧ maximumControl < (second &&& lengthBits).toNat
    · simp only [if_pos h2]
      exact .inl ⟨_, { out with fin, code, masked }, rfl, fun hc => (by cases hc), rfl, fun _ => rfl⟩
    simp only [if_neg h2]
    by_cases h3 : server = true ∧ ¬masked = true
    · simp only [if_pos h3]
      exact .inl ⟨_, { out with fin, code, masked }, rfl, fun hc => (by cases hc), rfl, fun _ => rfl⟩
    simp only [if_neg h3]
    by_cases h4 : ¬server = true ∧ masked = true
    · simp only [if_pos h4]
      exact .inl ⟨_, { out with fin, code, masked }, rfl, fun hc => (by cases hc), rfl, fun _ => rfl⟩
    simp only [if_neg h4]
    have hmasked : masked = server := by
      cases masked <;> cases server <;> simp_all
    subst hmasked
    refine .inr ⟨fin, code, rfl, fun rest => ?_⟩
    cases masked <;> rfl

theorem keyOf_append {bytes : Bytes} (h : 4 ≤ bytes.length) (x : Bytes) :
    keyOf (bytes ++ x) = keyOf bytes := by
  unfold keyOf
  congr 1
  funext i
  rw [List.getD_eq_getElem?_getD, List.getD_eq_getElem?_getD,
    List.getElem?_append_left (by omega)]

theorem parseLength_append {out : FrameHeader} {length : UInt8} {rest : Bytes}
    (h : (parseLength out length rest).2 ≠ .error .needMore) (x : Bytes) :
    parseLength out length (rest ++ x) = parseLength out length rest := by
  unfold parseLength at h ⊢
  by_cases hshort : rest.length + 2 < headerSize length out.masked
  · simp only [if_pos hshort] at h
    exact absurd rfl h
  have hlong : ¬(rest ++ x).length + 2 < headerSize length out.masked := by
    rw [List.length_append]
    omega
  have hsize : extendedSize length + (if out.masked then 4 else 0) ≤ rest.length := by
    unfold headerSize at hshort
    omega
  have hvalue : lengthValue length (rest ++ x) = lengthValue length rest := by
    unfold lengthValue
    rw [List.take_append_of_le_length (by omega)]
  have hkey : out.masked = true → keyOf ((rest ++ x).drop (extendedSize length))
      = keyOf (rest.drop (extendedSize length)) := fun hm => by
    rw [hm, if_pos rfl] at hsize
    rw [List.drop_append_of_le_length (by omega), keyOf_append (by rw [List.length_drop]; omega)]
  simp only [if_neg hshort, if_neg hlong, hvalue]
  cases hm : out.masked with
  | true => simp only [reduceIte, hkey hm]
  | false => simp only [Bool.false_eq_true, reduceIte]

/-- Later bytes do not change a header, nor its error. -/
theorem parseHeader_append {out : FrameHeader} {data : Bytes} {server : Bool}
    (h : (parseHeader out data server).2 ≠ .error .needMore) (x : Bytes) :
    parseHeader out (data ++ x) server = parseHeader out data server := by
  match data with
  | [] => exact absurd rfl h
  | [_] => exact absurd rfl h
  | first :: second :: rest =>
    rw [List.cons_append, List.cons_append]
    obtain ⟨e, frame, -, -, -, heq⟩ | ⟨fin, code, -, heq⟩ :=
      parseHeader_cases out first second server
    · rw [heq, heq]
    · rw [heq] at h
      rw [heq, heq, parseLength_append h]

/-- A header is parsed over another whatever that was, save for a key that is not read. -/
theorem parseLength_over (out : FrameHeader) (fin : Bool) (code : Opcode) (n : ℕ) (masked : Bool)
    (length : UInt8) (rest : Bytes) :
    (parseLength { fin, code, masked, length := n, key := out.key } length rest).2
      = (parseLength { out with fin, code, masked } length rest).2 ∧
    (∀ size, (parseLength { out with fin, code, masked } length rest).2 = .ok size →
      (parseLength { fin, code, masked, length := n, key := out.key } length rest).1
        = (parseLength { out with fin, code, masked } length rest).1) ∧
    ∀ e, (parseLength { out with fin, code, masked } length rest).2 = .error e →
      (parseLength { out with fin, code, masked } length rest).1.key = out.key := by
  unfold parseLength
  by_cases hshort : rest.length + 2 < headerSize length masked
  · simp only [if_pos hshort]
    exact ⟨trivial, nofun, fun _ _ => trivial⟩
  simp only [if_neg hshort]
  by_cases hbad : BadSize length (lengthValue length rest)
  · simp only [if_pos hbad]
    exact ⟨trivial, nofun, fun _ _ => trivial⟩
  · simp only [if_neg hbad]
    exact ⟨trivial, fun _ _ => trivial, nofun⟩

/-- Of the header before it, a header keeps no more than the key. -/
theorem parseHeader_over {out out' : FrameHeader} (h : out'.key = out.key) (data : Bytes)
    (server : Bool) :
    (parseHeader out' data server).2 = (parseHeader out data server).2 ∧
    (∀ size, (parseHeader out data server).2 = .ok size →
      (parseHeader out' data server).1 = (parseHeader out data server).1) ∧
    ∀ e, (parseHeader out data server).2 = .error e →
      (parseHeader out data server).1.key = out.key := by
  match data with
  | [] => exact ⟨rfl, nofun, fun _ _ => rfl⟩
  | [_] => exact ⟨rfl, nofun, fun _ _ => rfl⟩
  | first :: second :: rest =>
    obtain ⟨e, frame, he, -, hkey, heq⟩ | ⟨fin, code, hok, heq⟩ :=
      parseHeader_cases out first second server
    · obtain ⟨e', frame', he', -, -, heq'⟩ | ⟨fin', code', hok', -⟩ :=
        parseHeader_cases out' first second server
      · rw [he] at he'
        cases he'
        rw [heq, heq']
        exact ⟨rfl, nofun, fun _ _ => hkey⟩
      · rw [he] at hok'
        cases hok'
    · obtain ⟨e', frame', he', -, -, -⟩ | ⟨fin', code', hok', heq'⟩ :=
        parseHeader_cases out' first second server
      · rw [hok] at he'
        cases he'
      · rw [hok] at hok'
        cases hok'
        rw [heq, heq', h]
        exact parseLength_over out fin code out'.length server _ rest

theorem parseLength_ok {out frame : FrameHeader} {length : UInt8} {rest : Bytes} {size : ℕ}
    (h : parseLength out length rest = (frame, .ok size)) :
    headerSize length out.masked ≤ rest.length + 2 ∧ size = headerSize length out.masked ∧
      ¬BadSize length (lengthValue length rest) ∧
      frame = { out with
        length := lengthValue length rest
        key := if out.masked then keyOf (rest.drop (extendedSize length)) else out.key } := by
  unfold parseLength at h
  by_cases hshort : rest.length + 2 < headerSize length out.masked
  · rw [if_pos hshort] at h
    cases h
  rw [if_neg hshort] at h
  by_cases hbad : BadSize length (lengthValue length rest)
  · simp only [if_pos hbad] at h
    cases h
  · simp only [if_neg hbad] at h
    cases h
    exact ⟨Nat.le_of_not_lt hshort, rfl, hbad, rfl⟩

theorem parseHeader_size {out frame : FrameHeader} {data : Bytes} {server : Bool} {size : ℕ}
    (h : parseHeader out data server = (frame, .ok size)) : 2 ≤ size ∧ size ≤ data.length := by
  match data with
  | [] => cases h
  | [_] => cases h
  | first :: second :: rest =>
    obtain ⟨e, frame', -, -, -, heq⟩ | ⟨fin, code, -, heq⟩ :=
      parseHeader_cases out first second server
    · rw [heq] at h
      cases h
    · rw [heq] at h
      obtain ⟨hle, rfl, -⟩ := parseLength_ok h
      refine ⟨?_, by simpa only [List.length_cons, Nat.add_assoc] using hle⟩
      unfold headerSize
      omega

end BitcoinNetwork.Ws
