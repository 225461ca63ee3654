import BitcoinNetwork.Binary.Decoder

/-!
# Numbers on the wire

Numbers of a given width, in either order of their bytes, and those of a variable
width, which a first byte of 253 or more tells.
-/

namespace Binary

def toLittle (size n : ℕ) : List UInt8 := (toBytes size n).reverse

def ofLittle (bytes : List UInt8) : ℕ := ofBytes bytes.reverse

@[simp] theorem toLittle_length (size n : ℕ) : (toLittle size n).length = size := by
  rw [toLittle, List.length_reverse, toBytes_length]

theorem ofLittle_toLittle {size n : ℕ} (h : n < 256 ^ size) : ofLittle (toLittle size n) = n := by
  rw [ofLittle, toLittle, List.reverse_reverse, ofBytes_toBytes h]

/-- The least number of bytes, with what tells it from the others in front. -/
def toVariable (n : ℕ) : List UInt8 :=
  if n < 0xfd then [n.toUInt8]
  else if n ≤ 0xffff then 0xfd :: toLittle 2 n
  else if n ≤ 0xffffffff then 0xfe :: toLittle 4 n
  else 0xff :: toLittle 8 n

/-- How many bytes these are. -/
def variableSize (n : ℕ) : ℕ :=
  if n < 0xfd then 1 else if n ≤ 0xffff then 3 else if n ≤ 0xffffffff then 5 else 9

/-- How many bytes a first byte tells. -/
def sizeVariable (first : UInt8) : ℕ :=
  if first = 0xff then 9 else if first = 0xfe then 5 else if first = 0xfd then 3 else 1

@[simp] theorem toVariable_length (n : ℕ) : (toVariable n).length = variableSize n := by
  unfold toVariable variableSize
  split_ifs
  · rfl
  · rw [List.length_cons, toLittle_length]
  · rw [List.length_cons, toLittle_length]
  · rw [List.length_cons, toLittle_length]

namespace Decoder

def byte : Decoder UInt8
  | [] => none
  | b :: ahead => some (b, ahead)

def little (size : ℕ) : Decoder ℕ := do
  let value ← bytes size
  pure (ofLittle value)

def big (size : ℕ) : Decoder ℕ := do
  let value ← bytes size
  pure (ofBytes value)

def little32 : Decoder UInt32 := do
  let n ← little 4
  pure (.ofNat n)

def little64 : Decoder UInt64 := do
  let n ← little 8
  pure (.ofNat n)

def big16 : Decoder UInt16 := do
  let n ← big 2
  pure (.ofNat n)

def varint : Decoder UInt64 := do
  let first ← byte
  if first = 0xff then little64
  else if first = 0xfe then
    let n ← little 4
    pure (.ofNat n)
  else if first = 0xfd then
    let n ← little 2
    pure (.ofNat n)
  else pure first.toUInt64

/-- A size, up to a limit. -/
def size (limit : ℕ) : Decoder ℕ := do
  let n ← varint
  if n.toNat > limit then fail else pure n.toNat

def skip (count : ℕ) : Decoder Unit := do
  let _ ← bytes count
  pure ()

theorem decodes_byte (b : UInt8) : Decodes byte [b] b := fun _ => rfl

theorem decodes_little (size : ℕ) {n : ℕ} (h : n < 256 ^ size) : Decodes (little size) (toLittle size n) n := by
  have hbytes := decodes_bytes (toLittle size n)
  rw [toLittle_length] at hbytes
  have hvalue := hbytes.bind_pure (f := ofLittle)
  rw [ofLittle_toLittle h] at hvalue
  exact hvalue

theorem decodes_big (size : ℕ) {n : ℕ} (h : n < 256 ^ size) : Decodes (big size) (toBytes size n) n := by
  have hbytes := decodes_bytes (toBytes size n)
  rw [toBytes_length] at hbytes
  have hvalue := hbytes.bind_pure (f := ofBytes)
  rw [ofBytes_toBytes h] at hvalue
  exact hvalue

theorem decodes_little32 (n : UInt32) : Decodes little32 (toLittle 4 n.toNat) n := by
  have hvalue := (decodes_little 4 n.toNat_lt).bind_pure (f := UInt32.ofNat)
  rw [UInt32.ofNat_toNat] at hvalue
  exact hvalue

theorem decodes_little64 (n : UInt64) : Decodes little64 (toLittle 8 n.toNat) n := by
  have hvalue := (decodes_little 8 n.toNat_lt).bind_pure (f := UInt64.ofNat)
  rw [UInt64.ofNat_toNat] at hvalue
  exact hvalue

theorem decodes_big16 (n : UInt16) : Decodes big16 (toBytes 2 n.toNat) n := by
  have hvalue := (decodes_big 2 n.toNat_lt).bind_pure (f := UInt16.ofNat)
  rw [UInt16.ofNat_toNat] at hvalue
  exact hvalue

theorem decodes_varint (n : UInt64) : Decodes varint (toVariable n.toNat) n := by
  have hlarge := n.toNat_lt
  unfold toVariable varint
  split_ifs with hone htwo hfour
  · have hfirst : n.toNat.toUInt8.toUInt64 = n := by
      apply UInt64.toNat_inj.mp
      simp only [Nat.toUInt8_eq, UInt8.toNat_toUInt64, UInt8.toNat_ofNat']
      omega
    have hne : ∀ marker : UInt8, 0xfd ≤ marker.toNat → n.toNat.toUInt8 ≠ marker := by
      rintro marker hmarker rfl
      simp only [Nat.toUInt8_eq, UInt8.toNat_ofNat'] at hmarker
      omega
    refine @Decodes.bind _ _ _ _ _ [] _ _ (decodes_byte _) ?_
    rw [if_neg (hne _ (by decide)), if_neg (hne _ (by decide)), if_neg (hne _ (by decide)), hfirst]
    exact decodes_pure n
  · refine (decodes_byte 0xfd).bind ?_
    have hvalue := (decodes_little 2 (n := n.toNat) (by omega)).bind_pure
      (f := UInt64.ofNat)
    rw [UInt64.ofNat_toNat] at hvalue
    exact hvalue
  · refine (decodes_byte 0xfe).bind ?_
    have hvalue := (decodes_little 4 (n := n.toNat) (by omega)).bind_pure
      (f := UInt64.ofNat)
    rw [UInt64.ofNat_toNat] at hvalue
    exact hvalue
  · exact (decodes_byte 0xff).bind (decodes_little64 n)

theorem decodes_size (limit : ℕ) {n : ℕ} (hlimit : n ≤ limit) (h : n < 2 ^ 64) :
    Decodes (size limit) (toVariable n) n := by
  have hvalue : (UInt64.ofNat n).toNat = n := UInt64.toNat_ofNat_of_lt' h
  have hdecodes := decodes_varint (UInt64.ofNat n)
  rw [hvalue] at hdecodes
  intro behind
  unfold size
  rw [bind_some (hdecodes behind), hvalue, if_neg (Nat.not_lt.mpr hlimit)]
  rfl

theorem bytes_drop {size : ℕ} {ahead value behind : List UInt8}
    (h : bytes size ahead = some (value, behind)) : behind = ahead.drop size := by
  unfold bytes at h
  split at h
  · cases h
  · cases h
    rfl

theorem little_drop {α : Type} {size : ℕ} {f : ℕ → α} {first : UInt8} {a : α}
    {ahead behind : List UInt8}
    (h : (do let n ← little size; pure (f n) : Decoder α) ahead = some (a, behind)) :
    behind = (first :: ahead).drop (size + 1) := by
  obtain ⟨n, between, hlittle, hpure⟩ := bind_eq_some.mp h
  obtain ⟨value, between', hbytes, hvalue⟩ := bind_eq_some.mp hlittle
  cases hpure
  cases hvalue
  rw [List.drop_succ_cons]
  exact bytes_drop hbytes

/-- A number is as long as its first byte tells, also where fewer bytes would do. -/
theorem varint_drop {n : UInt64} {ahead behind : List UInt8} (h : varint ahead = some (n, behind)) :
    behind = ahead.drop (sizeVariable (ahead.headD 0)) := by
  obtain ⟨first, between, hbyte, hrest⟩ := bind_eq_some.mp h
  cases ahead with
  | nil => cases hbyte
  | cons front ahead =>
    cases hbyte
    rw [List.headD_cons]
    unfold sizeVariable
    split_ifs at hrest ⊢
    · exact little_drop hrest
    · exact little_drop hrest
    · exact little_drop hrest
    · cases hrest
      rfl

theorem size_drop {limit n : ℕ} {ahead behind : List UInt8}
    (h : size limit ahead = some (n, behind)) :
    n ≤ limit ∧ behind = ahead.drop (sizeVariable (ahead.headD 0)) := by
  obtain ⟨value, between, hvarint, hrest⟩ := bind_eq_some.mp h
  have hdrop := varint_drop hvarint
  split at hrest
  · cases hrest
  · next hlimit =>
    cases hrest
    exact ⟨Nat.not_lt.mp hlimit, hdrop⟩

end Decoder

end Binary
