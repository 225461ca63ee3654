import BitcoinNetwork.Binary.Bytes

/-!
# Access to a span of bytes

A span is read at its front and cut in two. An access outside of the span is
none, so that a reader that never makes one always returns something.
-/

namespace Binary

/-- The first byte. -/
def front (bytes : List UInt8) : Option UInt8 := bytes.head?

/-- The first bytes, as many as asked for. -/
def first (bytes : List UInt8) (size : ℕ) : Option (List UInt8) :=
  if size ≤ bytes.length then some (bytes.take size) else none

/-- The bytes behind the first. -/
def subspan (bytes : List UInt8) (size : ℕ) : Option (List UInt8) :=
  if size ≤ bytes.length then some (bytes.drop size) else none

@[simp] theorem front_cons (byte : UInt8) (bytes : List UInt8) :
    front (byte :: bytes) = some byte := rfl

@[simp] theorem subspan_one_cons (byte : UInt8) (bytes : List UInt8) :
    subspan (byte :: bytes) 1 = some bytes := if_pos (Nat.le_add_left 1 _)

theorem first_of_le {bytes : List UInt8} {size : ℕ} (h : size ≤ bytes.length) :
    first bytes size = some (bytes.take size) := if_pos h

theorem subspan_of_le {bytes : List UInt8} {size : ℕ} (h : size ≤ bytes.length) :
    subspan bytes size = some (bytes.drop size) := if_pos h

@[simp] theorem first_append (bytes rest : List UInt8) :
    first (bytes ++ rest) bytes.length = some bytes := by
  rw [first_of_le (by rw [List.length_append]; omega), List.take_left]

@[simp] theorem subspan_append (bytes rest : List UInt8) :
    subspan (bytes ++ rest) bytes.length = some rest := by
  rw [subspan_of_le (by rw [List.length_append]; omega), List.drop_left]

end Binary
