import Mathlib.Data.List.Basic
import Mathlib.Tactic.Positivity
import Mathlib.Tactic.Ring

/-!
# Bytes and the numbers they denote

A number as a given number of bytes, the first of which is the most
significant, and the number that bytes denote.
-/

namespace Binary

/-- A property of the 256 bytes. -/
theorem forall_byte {P : UInt8 → Prop} (h : ∀ n : Fin 256, P (UInt8.ofFin n)) (c : UInt8) :
    P c := h c.toFin

/-- The number that bytes denote. -/
def ofBytes (bytes : List UInt8) : ℕ := bytes.foldl (fun n b => n * 256 + b.toNat) 0

/-- The low bytes of a number, as many as asked for. -/
def toBytes : ℕ → ℕ → List UInt8
  | 0, _ => []
  | size + 1, n => (n / 256 ^ size).toUInt8 :: toBytes size n

theorem foldl_bytes (bytes : List UInt8) (n : ℕ) :
    bytes.foldl (fun n b => n * 256 + b.toNat) n = n * 256 ^ bytes.length + ofBytes bytes := by
  unfold ofBytes
  induction bytes generalizing n with
  | nil => simp
  | cons b bytes ih =>
    simp only [List.foldl_cons, List.length_cons]
    rw [ih, ih (0 * 256 + b.toNat)]
    ring

theorem ofBytes_cons (b : UInt8) (bytes : List UInt8) :
    ofBytes (b :: bytes) = b.toNat * 256 ^ bytes.length + ofBytes bytes := by
  have h := foldl_bytes bytes b.toNat
  unfold ofBytes at h ⊢
  rw [List.foldl_cons, Nat.zero_mul, Nat.zero_add, h]

@[simp] theorem toBytes_length (size n : ℕ) : (toBytes size n).length = size := by
  induction size with
  | zero => rfl
  | succ size ih => rw [toBytes, List.length_cons, ih]

theorem ofBytes_lt (bytes : List UInt8) : ofBytes bytes < 256 ^ bytes.length := by
  induction bytes with
  | nil => decide
  | cons b bytes ih =>
    rw [ofBytes_cons, List.length_cons, pow_succ]
    have hb := b.toNat_lt
    calc b.toNat * 256 ^ bytes.length + ofBytes bytes
        < b.toNat * 256 ^ bytes.length + 256 ^ bytes.length := by omega
      _ = (b.toNat + 1) * 256 ^ bytes.length := by ring
      _ ≤ 256 * 256 ^ bytes.length := Nat.mul_le_mul_right _ (by omega)
      _ = 256 ^ bytes.length * 256 := by ring

/-- What stands above the bytes does not show in them. -/
theorem toBytes_add (size k n : ℕ) : toBytes size (k * 256 ^ size + n) = toBytes size n := by
  induction size generalizing k with
  | zero => rfl
  | succ size ih =>
    have hpow : k * 256 ^ (size + 1) + n = (k * 256) * 256 ^ size + n := by ring
    have hdiv : ((k * 256) * 256 ^ size + n) / 256 ^ size = k * 256 + n / 256 ^ size := by
      rw [Nat.add_comm, Nat.add_mul_div_right _ _ (by positivity), Nat.add_comm]
    have hbyte : (k * 256 + n / 256 ^ size).toUInt8 = (n / 256 ^ size).toUInt8 := by
      apply UInt8.toNat_inj.mp
      simp only [Nat.toUInt8_eq, UInt8.toNat_ofNat']
      omega
    rw [toBytes, toBytes, hpow, hdiv, hbyte, ih]

theorem toBytes_ofBytes (bytes : List UInt8) : toBytes bytes.length (ofBytes bytes) = bytes := by
  induction bytes with
  | nil => rfl
  | cons b bytes ih =>
    have hlt := ofBytes_lt bytes
    have hdiv : (b.toNat * 256 ^ bytes.length + ofBytes bytes) / 256 ^ bytes.length = b.toNat := by
      rw [Nat.add_comm, Nat.add_mul_div_right _ _ (by positivity), Nat.div_eq_of_lt hlt,
        Nat.zero_add]
    rw [List.length_cons, toBytes, ofBytes_cons, hdiv, toBytes_add, ih]
    simp

theorem ofBytes_toBytes {size n : ℕ} (h : n < 256 ^ size) : ofBytes (toBytes size n) = n := by
  induction size generalizing n with
  | zero =>
    rw [pow_zero] at h
    rw [Nat.lt_one_iff.mp h]
    rfl
  | succ size ih =>
    have hpos : 0 < 256 ^ size := by positivity
    have hdiv : n / 256 ^ size < 256 := by
      rw [Nat.div_lt_iff_lt_mul hpos, Nat.mul_comm, ← pow_succ]
      exact h
    have hlow := Nat.mod_lt n hpos
    have hn : n = n / 256 ^ size * 256 ^ size + n % 256 ^ size := (Nat.div_add_mod' n _).symm
    have htail : toBytes size n = toBytes size (n % 256 ^ size) := by
      conv => lhs; rw [hn]
      exact toBytes_add _ _ _
    have hbyte : (n / 256 ^ size).toUInt8.toNat = n / 256 ^ size := by
      simp only [Nat.toUInt8_eq, UInt8.toNat_ofNat']
      exact Nat.mod_eq_of_lt hdiv
    rw [toBytes, ofBytes_cons, toBytes_length, hbyte, htail, ih hlow]
    exact hn.symm

end Binary
