import BitcoinNetwork.Binary.Bytes
import BitcoinNetwork.Config.AddressText

/-!
# Functions that libbitcoin-system could have

Base32 of RFC 4648, decimal numbers, and ip addresses in groups that are not compressed.
They are inverse to one another, as the texts of addresses rely on.
-/

namespace BitcoinNetwork.Config
open Binary

/-! ### Base32 -/

/-- The low digits of a number, as many as asked for. -/
def toPlaces (base : ℕ) : ℕ → ℕ → List ℕ
  | 0, _ => []
  | size + 1, n => n / base ^ size % base :: toPlaces base size n

theorem toPlaces_length (base size n : ℕ) : (toPlaces base size n).length = size := by
  induction size with
  | zero => rfl
  | succ size ih => rw [toPlaces, List.length_cons, ih]

/-- The places beneath the first are those of what remains. -/
theorem mod_place (base size n : ℕ) :
    n % base ^ (size + 1) = n / base ^ size % base * base ^ size + n % base ^ size := by
  rw [pow_succ, Nat.mod_mul, Nat.add_comm, Nat.mul_comm]

def char32 (digit : ℕ) : Char := base32Chars.getD digit '='

def value32 (c : Char) : Option ℕ := (asciiToLower (base32Chars.take 32)).idxOf? c

theorem value32_char32 {digit : ℕ} (h : digit < 32) : value32 (char32 digit).toLower = some digit := by
  have hall : ∀ digit < 32, value32 (char32 digit).toLower = some digit := by decide
  exact hall digit h

def read32 (text : Text) (n : ℕ) : Option ℕ :=
  text.foldlM (fun n c => (value32 c).map fun digit => n * 32 + digit) n

theorem read32_toPlaces (size n value : ℕ) :
    read32 (asciiToLower ((toPlaces 32 size n).map char32)) value =
      some (value * 32 ^ size + n % 32 ^ size) := by
  induction size generalizing value with
  | zero =>
    rw [pow_zero, Nat.mod_one, Nat.mul_one]
    rfl
  | succ size ih =>
    have hdigit := value32_char32 (Nat.mod_lt (n / 32 ^ size) (show 0 < 32 by decide))
    have hstep : read32 (asciiToLower ((toPlaces 32 (size + 1) n).map char32)) value =
        read32 (asciiToLower ((toPlaces 32 size n).map char32)) (value * 32 + n / 32 ^ size % 32) := by
      unfold read32 asciiToLower
      rw [toPlaces, List.map_cons, List.map_cons, List.foldlM_cons, hdigit]
      rfl
    rw [hstep, ih, mod_place]
    congr 1
    ring

/-- The characters that some bytes take, without the pads. -/
def size32 (size : ℕ) : ℕ := (8 * size + 4) / 5

def encode32 (data : Bytes) : Text :=
  let size := size32 data.length
  (toPlaces 32 size (ofBytes data * 2 ^ (5 * size - 8 * data.length))).map char32 ++
    List.replicate (8 * ((data.length + 4) / 5) - size) '='

def decode32 (text : Text) : Option Bytes :=
  let size := 5 * text.length / 8
  (read32 text 0).map fun n => toBytes size (n / 2 ^ (5 * text.length - 8 * size))

theorem decode32_encode32 (data : Bytes) :
    decode32 (asciiToLower ((encode32 data).take (size32 data.length))) = some data := by
  have hsize : 5 * size32 data.length / 8 = data.length := by
    unfold size32
    omega
  have htake : (encode32 data).take (size32 data.length) =
      (toPlaces 32 (size32 data.length)
        (ofBytes data * 2 ^ (5 * size32 data.length - 8 * data.length))).map char32 := by
    unfold encode32
    refine List.take_left' ?_
    rw [List.length_map, toPlaces_length]
  have hlength : (asciiToLower ((encode32 data).take (size32 data.length))).length =
      size32 data.length := by
    unfold asciiToLower
    rw [htake, List.length_map, List.length_map, toPlaces_length]
  have hlt : ofBytes data * 2 ^ (5 * size32 data.length - 8 * data.length) <
      32 ^ size32 data.length := by
    have hbytes := ofBytes_lt data
    rw [show (256 : ℕ) = 2 ^ 8 from rfl, ← pow_mul] at hbytes
    rw [show (32 : ℕ) = 2 ^ 5 from rfl, ← pow_mul]
    calc ofBytes data * 2 ^ (5 * size32 data.length - 8 * data.length)
        < 2 ^ (8 * data.length) * 2 ^ (5 * size32 data.length - 8 * data.length) :=
          Nat.mul_lt_mul_of_pos_right hbytes (by positivity)
      _ = 2 ^ (5 * size32 data.length) := by
          rw [← pow_add]
          congr 1
          unfold size32
          omega
  unfold decode32
  rw [hlength, hsize, htake]
  dsimp only
  rw [read32_toPlaces, Nat.zero_mul, Nat.zero_add, Nat.mod_eq_of_lt hlt]
  dsimp only [Option.map_some]
  rw [Nat.mul_div_cancel _ (by positivity), toBytes_ofBytes]

theorem encode32_length (data : Bytes) : (encode32 data).length = 8 * ((data.length + 4) / 5) := by
  unfold encode32 size32
  rw [List.length_append, List.length_map, toPlaces_length, List.length_replicate]
  omega

theorem encode32_chars (data : Bytes) : ∀ c ∈ encode32 data, c ∈ base32Chars := by
  intro c hc
  rcases List.mem_append.mp hc with hc | hc
  · obtain ⟨digit, _, rfl⟩ := List.mem_map.mp hc
    unfold char32
    rw [List.getD_eq_getElem?_getD]
    cases hget : base32Chars[digit]? with
    | none => exact (by decide : '=' ∈ base32Chars)
    | some c => exact List.mem_of_getElem? hget
  · rw [List.eq_of_mem_replicate hc]
    decide

/-! ### Numbers -/

/-- `deserialize` of a decimal number, without a sign. -/
def readDecimal (bits : ℕ) (text : Text) : Option ℕ :=
  if text ≠ [] ∧ text.all Char.isDigit ∧ Nat.ofDigitChars 10 text 0 < 2 ^ bits then
    some (Nat.ofDigitChars 10 text 0)
  else none

theorem readDecimal_decimal {bits value : ℕ} (h : value < 2 ^ bits) :
    readDecimal bits (decimal value) = some value := by
  have hvalue : Nat.ofDigitChars 10 (decimal value) 0 = value := Nat.ofDigitChars_ten_toDigits
  unfold readDecimal
  rw [hvalue]
  exact if_pos ⟨Nat.toDigits_ne_nil, List.all_eq_true.mpr fun c hc => decimal_digit hc, h⟩

/-! ### Ip addresses -/

def hexChars : Text := "0123456789abcdef".toList

def hexByte (b : UInt8) : Text := (toPlaces 16 2 b.toNat).map fun digit => hexChars.getD digit '0'

def unhexByte (high low : Char) : Option UInt8 :=
  match hexChars.idxOf? high, hexChars.idxOf? low with
  | some high, some low => some (UInt8.ofNat (high * 16 + low))
  | _, _ => none

/-- The groups of an ip address, none of which is compressed. -/
def groups : Bytes → Text
  | [] => []
  | [first] => hexByte first
  | [first, second] => hexByte first ++ hexByte second
  | first :: second :: rest => hexByte first ++ hexByte second ++ ':' :: groups rest

def unhex : Text → Option Bytes
  | high :: low :: text =>
    match unhexByte high low, unhex text with
    | some b, some bytes => some (b :: bytes)
    | _, _ => none
  | [] => some []
  | _ => none

theorem unhex_hexByte (b : UInt8) (text : Text) :
    unhex (hexByte b ++ text) = (unhex text).map (b :: ·) := by
  have hbyte : unhexByte (hexChars.getD (b.toNat / 16 ^ 1 % 16) '0')
      (hexChars.getD (b.toNat / 16 ^ 0 % 16) '0') = some b :=
    forall_byte (P := fun b => unhexByte (hexChars.getD (b.toNat / 16 ^ 1 % 16) '0')
      (hexChars.getD (b.toNat / 16 ^ 0 % 16) '0') = some b) (by decide +kernel) b
  show unhex (_ :: _ :: text) = _
  rw [unhex, hbyte]
  cases unhex text with
  | none => rfl
  | some bytes => rfl

theorem hexByte_chars (b : UInt8) : ∀ c ∈ hexByte b, c ∈ hexChars :=
  forall_char (forall_byte (P := fun b => (hexByte b).all (fun c => decide (c ∈ hexChars)) = true)
    (by decide +kernel) b)

theorem hexByte_filter (b : UInt8) : (hexByte b).filter (· ≠ ':') = hexByte b :=
  List.filter_eq_self.mpr fun c hc => by
    have hall : ∀ c ∈ hexChars, decide (c ≠ ':') = true := forall_char (by decide)
    exact hall c (hexByte_chars b c hc)

theorem unhex_groups (ip : Bytes) : unhex ((groups ip).filter (· ≠ ':')) = some ip := by
  induction ip using groups.induct with
  | case1 => rfl
  | case2 first =>
    rw [groups, hexByte_filter]
    have h := unhex_hexByte first []
    rw [List.append_nil] at h
    exact h
  | case3 first second =>
    rw [groups, List.filter_append, hexByte_filter, hexByte_filter, unhex_hexByte]
    have h := unhex_hexByte second []
    rw [List.append_nil] at h
    rw [h]
    rfl
  | case4 first second rest hne ih =>
    rw [groups, List.filter_append, List.filter_append, hexByte_filter, hexByte_filter,
      List.filter_cons_of_neg (by decide), List.append_assoc, unhex_hexByte, unhex_hexByte, ih]
    · rfl
    · exact hne

theorem groups_chars (ip : Bytes) : ∀ c ∈ groups ip, c ∈ ':' :: hexChars := by
  induction ip using groups.induct with
  | case1 => exact fun c hc => absurd hc List.not_mem_nil
  | case2 first => exact fun c hc => List.mem_cons_of_mem _ (hexByte_chars first c hc)
  | case3 first second =>
    intro c hc
    rcases List.mem_append.mp hc with hc | hc
    · exact List.mem_cons_of_mem _ (hexByte_chars first c hc)
    · exact List.mem_cons_of_mem _ (hexByte_chars second c hc)
  | case4 first second rest hne ih =>
    intro c hc
    rw [groups, List.mem_append, List.mem_append, List.mem_cons] at hc
    · rcases hc with (hc | hc) | rfl | hc
      · exact List.mem_cons_of_mem _ (hexByte_chars first c hc)
      · exact List.mem_cons_of_mem _ (hexByte_chars second c hc)
      · exact List.mem_cons_self
      · exact ih c hc
    · exact hne

/-- The text of an authority, of version 6. -/
def writeAuthority (ip : Bytes) (port : UInt16) : Text :=
  '[' :: groups ip ++ ']' :: if port ≠ 0 then ':' :: decimal port.toNat else []

/-- The port of an authority, if there is one. -/
def readPort : Text → Option UInt16
  | [] => some 0
  | ':' :: port => (readDecimal 16 port).map UInt16.ofNat
  | _ => none

theorem readPort_write (port : UInt16) :
    readPort (if port ≠ 0 then ':' :: decimal port.toNat else []) = some port := by
  by_cases hport : port = 0
  · rw [if_neg (not_not.mpr hport), hport]
    rfl
  · rw [if_pos hport, readPort, readDecimal_decimal port.toNat_lt, Option.map_some,
      UInt16.ofNat_toNat]

def readAuthority : Text → Option (Bytes × UInt16)
  | '[' :: text =>
    (unhex ((text.takeWhile (· ≠ ']')).filter (· ≠ ':'))).bind fun ip =>
      (readPort (text.dropWhile (· ≠ ']')).tail).map fun port => (ip, port)
  | _ => none

theorem readAuthority_write (ip : Bytes) (port : UInt16) :
    readAuthority (writeAuthority ip port) = some (ip, port) := by
  have hall : ∀ c ∈ ':' :: hexChars, decide (c ≠ ']') = true := forall_char (by decide)
  have hgroups (c : Char) (hc : c ∈ groups ip) : decide (c ≠ ']') = true :=
    hall c (groups_chars ip c hc)
  unfold writeAuthority
  rw [List.cons_append, readAuthority, List.takeWhile_append_of_pos hgroups,
    List.takeWhile_cons_of_neg (by decide), List.append_nil, unhex_groups, Option.bind_some,
    List.dropWhile_append_of_pos hgroups, List.dropWhile_cons_of_neg (by decide), List.tail_cons,
    readPort_write, Option.map_some]

theorem writeAuthority_chars (ip : Bytes) (port : UInt16) :
    ∀ c ∈ writeAuthority ip port, c ∈ authorityChars := by
  have hhex : ∀ c ∈ ':' :: hexChars, c ∈ authorityChars := forall_char (by decide)
  have hdigits : ∀ n < 58, 48 ≤ n → Char.ofNat n ∈ authorityChars := by decide
  have hdigit {c : Char} (h : c.isDigit = true) : c ∈ authorityChars := by
    have hbounds := Bool.and_eq_true_iff.mp h
    rw [← Char.ofNat_toNat c]
    exact hdigits _ (Nat.lt_succ_of_le (of_decide_eq_true hbounds.2)) (of_decide_eq_true hbounds.1)
  intro c hc
  unfold writeAuthority at hc
  rw [List.mem_append, List.mem_cons, List.mem_cons] at hc
  rcases hc with (rfl | hc) | rfl | hc
  · decide
  · exact hhex c (groups_chars ip c hc)
  · decide
  · split at hc
    · rcases List.mem_cons.mp hc with rfl | hc
      · decide
      · exact hdigit (decimal_digit hc)
    · exact absurd hc List.not_mem_nil

/-! ### The functions -/

/-- The functions, apart from sha3, of which the length alone is that of a digest. -/
def plainSystem : System where
  encodeBase32 := encode32
  decodeBase32 := decode32
  sha3 _ := List.replicate 32 0
  split line := line.splitOn '/'
  deserialize := readDecimal
  authority := writeAuthority
  parseAuthority := readAuthority

theorem plainSystem_inverse : plainSystem.Inverse where
  base32 := decode32_encode32
  base32_length := encode32_length
  base32_chars := encode32_chars
  sha3_length _ := rfl
  split tokens hne htokens := by
    refine List.splitOn_intercalate '/' (fun token htoken hslash => ?_) hne
    exact absurd (htokens token htoken '/' hslash) (by decide)
  deserialize _ _ := readDecimal_decimal
  authority ip port _ _ := readAuthority_write ip port
  authority_chars := writeAuthority_chars

end BitcoinNetwork.Config
