import Mathlib.Data.List.DropRight

/-!
# A buffer that keeps its newest entries

A full buffer drops its oldest entry for one that is pushed.
-/

namespace Async
variable {Entry : Type}

/-- The entry behind those of the buffer, without the oldest of them if it is full. -/
def pushNewest (capacity : ℕ) (buffer : List Entry) (entry : Entry) : List Entry :=
  (if buffer.length = capacity then buffer.tail else buffer) ++ [entry]

variable {capacity : ℕ} {buffer : List Entry}

theorem rtake_of_le (h : buffer.length ≤ capacity) : buffer.rtake capacity = buffer := by
  rw [List.rtake, Nat.sub_eq_zero_of_le h, List.drop_zero]

theorem length_rtake (capacity : ℕ) (buffer : List Entry) :
    (buffer.rtake capacity).length = min capacity buffer.length := by
  rw [List.rtake, List.length_drop]
  omega

/-- What is dropped beforehand is not among the newest entries. -/
theorem rtake_append_rtake (capacity : ℕ) (buffer more : List Entry) :
    (buffer.rtake capacity ++ more).rtake capacity = (buffer ++ more).rtake capacity := by
  rw [List.rtake, List.rtake, List.rtake, List.length_append, List.length_drop, List.length_append]
  by_cases h : buffer.length ≤ capacity
  · rw [Nat.sub_eq_zero_of_le h, List.drop_zero, Nat.sub_zero]
  · have hsplit : buffer.length - capacity + (buffer.length - (buffer.length - capacity) +
        more.length - capacity) = buffer.length + more.length - capacity := by omega
    rw [← List.drop_append_of_le_length (by omega), List.drop_drop, hsplit]

theorem pushNewest_eq (hbuffer : buffer.length ≤ capacity) (hcapacity : 0 < capacity)
    (entry : Entry) : pushNewest capacity buffer entry = (buffer ++ [entry]).rtake capacity := by
  unfold pushNewest
  rw [List.rtake, List.length_append, List.length_singleton]
  split
  · next hfull =>
    rw [hfull, Nat.add_sub_cancel_left, List.drop_append_of_le_length (by omega), List.drop_one]
  · next hroom => rw [Nat.sub_eq_zero_of_le (by omega), List.drop_zero]

theorem length_pushNewest_le (hbuffer : buffer.length ≤ capacity) (hcapacity : 0 < capacity)
    (entry : Entry) : (pushNewest capacity buffer entry).length ≤ capacity := by
  rw [pushNewest_eq hbuffer hcapacity, length_rtake]
  exact Nat.min_le_left _ _

/-- Entries that are pushed one after another leave the newest of all. -/
theorem foldl_pushNewest (hbuffer : buffer.length ≤ capacity) (hcapacity : 0 < capacity)
    (entries : List Entry) :
    entries.foldl (pushNewest capacity) buffer = (buffer ++ entries).rtake capacity := by
  induction entries generalizing buffer with
  | nil => rw [List.foldl_nil, List.append_nil, rtake_of_le hbuffer]
  | cons entry entries ih =>
    rw [List.foldl_cons, ih (length_pushNewest_le hbuffer hcapacity entry),
      pushNewest_eq hbuffer hcapacity, rtake_append_rtake, List.append_assoc]
    rfl

end Async
