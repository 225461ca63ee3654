import BitcoinNetwork.Async.Transition
import Mathlib.Order.Basic
import Mathlib.Data.Nat.Basic

/-!
# The flat buffer (messages/http/flat_buffer.cpp)

A vector of bytes of which those between two positions may be read. A caller fills the region
that it has prepared and commits what it filled of it.
-/

namespace BitcoinNetwork.Http
open Async

/-- `flat_buffer`. -/
structure FlatBuffer where
  limit : ℕ
  buffer : List UInt8 := []
  first : ℕ := 0
  last : ℕ := 0

namespace FlatBuffer

/-- `data`. -/
def data (b : FlatBuffer) : List UInt8 := (b.buffer.drop b.first).take (b.last - b.first)

/-- `size`. -/
def size (b : FlatBuffer) : ℕ := b.last - b.first

/-- `vector::resize`. -/
def resize (buffer : List UInt8) (size : ℕ) : List UInt8 :=
  buffer.take size ++ List.replicate (size - buffer.length) 0

/-- `std::copy`, to the front. -/
def toFront (b : FlatBuffer) : FlatBuffer :=
  { b with buffer := b.data ++ b.buffer.drop b.size, first := 0, last := b.size }

/-- `prepare`, which throws if the region is over the limit. The region is behind `last`. -/
def prepare (b : FlatBuffer) (size : ℕ) : Option FlatBuffer :=
  if b.limit - b.size < size then none
  else
    -- readable bytes are moved to the front when that makes sufficient room
    let b := if b.buffer.length - b.last < size ∧ b.first ≠ 0 then b.toFront else b
    if b.buffer.length - b.last < size then
      some { b with buffer := resize b.buffer (b.last + size) }
    else some b

/-- The caller fills the region. -/
def fill (b : FlatBuffer) (bytes : List UInt8) : FlatBuffer :=
  { b with
    buffer := b.buffer.take b.last ++ bytes ++ b.buffer.drop (b.last + bytes.length) }

/-- `commit`. -/
def commit (b : FlatBuffer) (size : ℕ) : FlatBuffer :=
  { b with last := b.last + min size (b.buffer.length - b.last) }

/-- `clear`. -/
def clear (b : FlatBuffer) : FlatBuffer := { b with first := 0, last := 0 }

/-- `consume`. -/
def consume (b : FlatBuffer) (size : ℕ) : FlatBuffer :=
  if b.size ≤ size then b.clear else { b with first := b.first + size }

/-- `reserve`. -/
def reserve (b : FlatBuffer) (size : ℕ) : FlatBuffer :=
  if b.buffer.length < size then { b with buffer := resize b.buffer size } else b

/-- `shrink_to_fit`. -/
def shrinkToFit (b : FlatBuffer) : FlatBuffer :=
  let b := if b.first ≠ 0 then b.toFront else b
  { b with buffer := resize b.buffer b.last }

/-- What a caller does: a region is prepared, filled in part and committed, or one of the
other calls. -/
inductive Call
  | receive (size : ℕ) (bytes : List UInt8)
  | consume (size : ℕ)
  | clear
  | reserve (size : ℕ)
  | shrinkToFit

/-- The calls, with the number of those that threw. -/
def step (s : FlatBuffer × ℕ) : Call → FlatBuffer × ℕ
  | .receive size bytes =>
    match s.1.prepare size with
    | none => (s.1, s.2 + 1)
    | some b => ((b.fill bytes).commit bytes.length, s.2)
  | .consume size => (s.1.consume size, s.2)
  | .clear => (s.1.clear, s.2)
  | .reserve size => (s.1.reserve size, s.2)
  | .shrinkToFit => (s.1.shrinkToFit, s.2)

/-- A queue of bytes that is bounded, and the number of those calls that were refused. -/
def queueStep (limit : ℕ) (s : List UInt8 × ℕ) : Call → List UInt8 × ℕ
  | .receive size bytes =>
    if limit < s.1.length + size then (s.1, s.2 + 1) else (s.1 ++ bytes, s.2)
  | .consume size => (s.1.drop size, s.2)
  | .clear => ([], s.2)
  | .reserve _ => s
  | .shrinkToFit => s

/-- No more is filled than was prepared, and no more reserved than a capacity. -/
def Call.Within (capacity : ℕ) : Call → Prop
  | .receive size bytes => bytes.length ≤ size
  | .reserve size => size ≤ capacity
  | _ => True

/-! ### The readable bytes -/

/-- The positions are within the buffer, and its size within the limit and the capacity. -/
structure Sound (capacity : ℕ) (b : FlatBuffer) : Prop where
  first : b.first ≤ b.last
  last : b.last ≤ b.buffer.length
  size : b.size ≤ b.limit
  capacity : b.buffer.length ≤ max b.limit capacity

variable {capacity : ℕ} {b : FlatBuffer}

namespace Sound

theorem length (h : Sound capacity b) : b.data.length = b.size := by
  have hfirst := h.first
  have hlast := h.last
  rw [data, List.length_take, List.length_drop, FlatBuffer.size]
  omega

theorem size_le (h : Sound capacity b) : b.size ≤ b.buffer.length := by
  have hlast := h.last
  unfold FlatBuffer.size
  omega

/-- What is readable is moved to the front as it is. -/
theorem toFront (h : Sound capacity b) : Sound capacity b.toFront ∧ b.toFront.data = b.data ∧
    b.toFront.buffer.length = b.buffer.length := by
  have hlen := h.length
  have hsize := h.size_le
  have hbuffer : b.toFront.buffer.length = b.buffer.length := by
    rw [FlatBuffer.toFront, List.length_append, hlen, List.length_drop]
    omega
  refine ⟨⟨Nat.zero_le _, hbuffer ▸ hsize, h.size, hbuffer ▸ h.capacity⟩, ?_, hbuffer⟩
  rw [data, FlatBuffer.toFront, List.drop_zero, Nat.sub_zero, ← hlen, List.take_left]

/-- A vector that grows, or shrinks to what is in use, has the same readable bytes. -/
theorem resize (h : Sound capacity b) {size : ℕ} (hlast : b.last ≤ size)
    (hmax : size ≤ max b.limit capacity) :
    Sound capacity { b with buffer := FlatBuffer.resize b.buffer size } ∧
      ({ b with buffer := FlatBuffer.resize b.buffer size } : FlatBuffer).data = b.data ∧
      (FlatBuffer.resize b.buffer size).length = size := by
  have hlen : (FlatBuffer.resize b.buffer size).length = size := by
    rw [FlatBuffer.resize, List.length_append, List.length_take, List.length_replicate]
    omega
  refine ⟨⟨h.first, hlast.trans_eq hlen.symm, h.size, hlen.trans_le hmax⟩, ?_, hlen⟩
  have hfirst := h.first
  have hwithin := h.last
  show ((b.buffer.take size ++ List.replicate (size - b.buffer.length) 0).drop b.first).take
    (b.last - b.first) = (b.buffer.drop b.first).take (b.last - b.first)
  rw [List.drop_append_of_le_length (by rw [List.length_take]; omega),
    List.take_append_of_le_length (by rw [List.length_drop, List.length_take]; omega),
    List.drop_take, List.take_take]
  congr 1
  omega

/-- A region is prepared unless it is over the limit. -/
theorem prepare (h : Sound capacity b) (size : ℕ) :
    (b.limit < b.data.length + size ∧ b.prepare size = none) ∨
    (b.data.length + size ≤ b.limit ∧ ∃ b', b.prepare size = some b' ∧ Sound capacity b' ∧
      b'.data = b.data ∧ b'.limit = b.limit ∧ b'.last + size ≤ b'.buffer.length) := by
  have hlen := h.length
  have hsize := h.size
  unfold FlatBuffer.prepare
  by_cases hover : b.limit - b.size < size
  · exact .inl ⟨by omega, if_pos hover⟩
  right
  refine ⟨by omega, ?_⟩
  rw [if_neg hover]
  -- the region may be had by a move to the front, and otherwise by growth
  have hgrow {b' : FlatBuffer} (hb : Sound capacity b') (hdata : b'.data = b.data)
      (hlimit : b'.limit = b.limit)
      (hfits : b'.buffer.length - b'.last < size → b'.last + size ≤ b'.limit) :
      ∃ b'', (if b'.buffer.length - b'.last < size then
          some { b' with buffer := FlatBuffer.resize b'.buffer (b'.last + size) }
        else some b') = some b'' ∧ Sound capacity b'' ∧ b''.data = b.data ∧
        b''.limit = b.limit ∧ b''.last + size ≤ b''.buffer.length := by
    have hlast := hb.last
    split
    · next hshort =>
      have hfit := hfits hshort
      obtain ⟨hs, hd, hl⟩ := hb.resize (Nat.le_add_right b'.last size)
        (hfit.trans (Nat.le_max_left _ _))
      exact ⟨_, rfl, hs, hd.trans hdata, hlimit, hl.ge⟩
    · next hroom => exact ⟨b', rfl, hb, hdata, hlimit, by omega⟩
  dsimp only
  split
  · obtain ⟨hs, hd, -⟩ := h.toFront
    refine hgrow hs hd rfl fun _ => ?_
    show b.size + size ≤ b.limit
    omega
  · next hnot =>
    refine hgrow h rfl rfl fun hshort => ?_
    have hzero : b.first = 0 := by
      by_contra hne
      exact hnot ⟨hshort, hne⟩
    unfold FlatBuffer.size at hover hsize
    omega

/-- What was filled of a region and committed is behind the readable bytes. -/
theorem commit (h : Sound capacity b) {bytes : List UInt8}
    (hroom : b.last + bytes.length ≤ b.buffer.length)
    (hlimit : b.data.length + bytes.length ≤ b.limit) :
    Sound capacity ((b.fill bytes).commit bytes.length) ∧
      ((b.fill bytes).commit bytes.length).data = b.data ++ bytes := by
  have hfirst := h.first
  have hsize := h.length
  have hlen : (b.fill bytes).buffer.length = b.buffer.length := by
    rw [fill, List.length_append, List.length_append, List.length_take, List.length_drop]
    omega
  have hlast : ((b.fill bytes).commit bytes.length).last = b.last + bytes.length := by
    rw [FlatBuffer.commit, hlen]
    show b.last + min bytes.length (b.buffer.length - b.last) = b.last + bytes.length
    omega
  refine ⟨⟨?_, ?_, ?_, ?_⟩, ?_⟩
  · rw [hlast]
    exact Nat.le_add_right_of_le hfirst
  · rw [hlast]
    exact hroom.trans_eq hlen.symm
  · rw [FlatBuffer.size, hlast]
    show b.last + bytes.length - b.first ≤ b.limit
    unfold FlatBuffer.size at hsize
    omega
  · exact hlen.trans_le h.capacity
  · rw [data, hlast]
    show ((b.buffer.take b.last ++ bytes ++ b.buffer.drop (b.last + bytes.length)).drop
      b.first).take (b.last + bytes.length - b.first) = b.data ++ bytes
    have htake : (b.buffer.take b.last).length = b.last := by
      rw [List.length_take]
      omega
    have hfront : (b.buffer.take b.last).drop b.first = b.data := List.drop_take
    have hcount : b.last + bytes.length - b.first = b.data.length + bytes.length := by
      unfold FlatBuffer.size at hsize
      omega
    rw [List.append_assoc, List.drop_append_of_le_length (by omega), hfront, hcount,
      ← List.append_assoc, ← List.length_append, List.take_left]

theorem consume (h : Sound capacity b) (size : ℕ) :
    Sound capacity (b.consume size) ∧ (b.consume size).data = b.data.drop size := by
  have hlen := h.length
  unfold FlatBuffer.consume
  split
  · next hle =>
    refine ⟨⟨le_rfl, Nat.zero_le _, Nat.zero_le _, h.capacity⟩, ?_⟩
    rw [List.drop_eq_nil_of_le (hlen.trans_le hle)]
    rfl
  · next hlt =>
    have hfirst := h.first
    have hsize := h.size
    unfold FlatBuffer.size at hlt hsize
    refine ⟨⟨?_, h.last, ?_, h.capacity⟩, ?_⟩
    · dsimp only
      omega
    · show b.last - (b.first + size) ≤ b.limit
      omega
    · show (b.buffer.drop (b.first + size)).take (b.last - (b.first + size)) = _
      rw [data, List.drop_take, List.drop_drop, Nat.sub_sub]

theorem reserve (h : Sound capacity b) {size : ℕ} (hsize : size ≤ capacity) :
    Sound capacity (b.reserve size) ∧ (b.reserve size).data = b.data ∧
      (b.reserve size).limit = b.limit := by
  have hlast := h.last
  unfold FlatBuffer.reserve
  split
  · obtain ⟨hs, hd, -⟩ := h.resize (by omega) (hsize.trans (Nat.le_max_right b.limit capacity))
    exact ⟨hs, hd, rfl⟩
  · exact ⟨h, rfl, rfl⟩

theorem shrinkToFit (h : Sound capacity b) : Sound capacity b.shrinkToFit ∧
    b.shrinkToFit.data = b.data ∧ b.shrinkToFit.limit = b.limit := by
  have hfit {b' : FlatBuffer} (hb : Sound capacity b') (hdata : b'.data = b.data)
      (hlimit : b'.limit = b.limit) :
      Sound capacity { b' with buffer := FlatBuffer.resize b'.buffer b'.last } ∧
      ({ b' with buffer := FlatBuffer.resize b'.buffer b'.last } : FlatBuffer).data = b.data ∧
      b'.limit = b.limit := by
    obtain ⟨hs, hd, -⟩ := hb.resize le_rfl (hb.last.trans hb.capacity)
    exact ⟨hs, hd.trans hdata, hlimit⟩
  unfold FlatBuffer.shrinkToFit
  dsimp only
  split
  · obtain ⟨hs, hd, -⟩ := h.toFront
    exact hfit hs hd rfl
  · exact hfit h rfl rfl

end Sound

/-! ### Runs -/

/-- A buffer with the calls that threw is a queue with those that were refused. -/
structure Queues (limit capacity : ℕ) (s : FlatBuffer × ℕ) (q : List UInt8 × ℕ) : Prop where
  sound : Sound capacity s.1
  limit : s.1.limit = limit
  data : s.1.data = q.1
  refused : s.2 = q.2

theorem Queues.step {limit : ℕ} {s : FlatBuffer × ℕ} {q : List UInt8 × ℕ}
    (h : Queues limit capacity s q) {call : Call} (hcall : call.Within capacity) :
    Queues limit capacity (FlatBuffer.step s call) (queueStep limit q call) := by
  obtain ⟨sound, hlimit, hdata, hrefused⟩ := h
  cases call with
  | receive size bytes =>
    rw [FlatBuffer.step, queueStep, ← hdata]
    obtain ⟨hover, hnone⟩ | ⟨hfits, b, hsome, hs, hd, hl, hroom⟩ := sound.prepare size
    · rw [hnone, if_pos (hlimit ▸ hover)]
      exact ⟨sound, hlimit, rfl, congrArg (· + 1) hrefused⟩
    · have hsmall : bytes.length ≤ size := hcall
      obtain ⟨hs, hd'⟩ := @Sound.commit capacity b hs bytes (by omega) (by rw [hd, hl]; omega)
      rw [hsome, if_neg (by omega)]
      exact ⟨hs, hl.trans hlimit, hd'.trans (congrArg (· ++ bytes) hd), hrefused⟩
  | consume size =>
    obtain ⟨hs, hd⟩ := sound.consume size
    refine ⟨hs, ?_, hd.trans (congrArg (List.drop size) hdata), hrefused⟩
    have hkeep : (s.1.consume size).limit = s.1.limit := by
      unfold FlatBuffer.consume
      split <;> rfl
    exact hkeep.trans hlimit
  | clear => exact ⟨⟨le_rfl, Nat.zero_le _, Nat.zero_le _, sound.capacity⟩, hlimit, rfl, hrefused⟩
  | reserve size =>
    obtain ⟨hs, hd, hl⟩ := sound.reserve hcall
    exact ⟨hs, hl.trans hlimit, hd.trans hdata, hrefused⟩
  | shrinkToFit =>
    obtain ⟨hs, hd, hl⟩ := sound.shrinkToFit
    exact ⟨hs, hl.trans hlimit, hd.trans hdata, hrefused⟩

/-- Whatever the calls, and wherever the bytes are moved to, what may be read is a bounded queue
of what was received, a region is refused exactly where it would be over the limit, and
the vector is no larger than the limit or what was reserved. -/
theorem flat_buffer_queue (limit capacity : ℕ) {calls : List Call}
    (h : ∀ call ∈ calls, call.Within capacity) :
    let s := after step ({ limit }, 0) calls
    (s.1.data, s.2) = after (queueStep limit) ([], 0) calls ∧ s.1.data.length ≤ limit ∧
      s.1.buffer.length ≤ max limit capacity := by
  have hrun {s : FlatBuffer × ℕ} {q : List UInt8 × ℕ} (hs : Queues limit capacity s q) :
      Queues limit capacity (after step s calls) (after (queueStep limit) q calls) := by
    induction calls generalizing s q with
    | nil => exact hs
    | cons call calls ih =>
      exact ih (fun other hmem => h other (List.mem_cons_of_mem _ hmem))
        (hs.step (h call List.mem_cons_self))
  have hsound : Sound capacity { limit } :=
    ⟨le_rfl, le_rfl, Nat.zero_le _, Nat.zero_le _⟩
  obtain ⟨hs, hlimit, hdata, hrefused⟩ :=
    @hrun ({ limit }, 0) ([], 0) ⟨hsound, rfl, rfl, rfl⟩
  refine ⟨Prod.ext hdata hrefused, ?_, ?_⟩
  · rw [hs.length]
    exact hs.size.trans_eq hlimit
  · exact hs.capacity.trans_eq (congrArg (max · capacity) hlimit)

/-- A region that is had by a move to the front, and one that is refused. -/
theorem flat_buffer_queue_moved :
    let calls : List Call :=
      [.receive 4 [1, 2, 3], .consume 2, .receive 3 [4, 5], .shrinkToFit, .receive 2 [6]]
    let s := after step ({ limit := 4 }, 0) calls
    (s.1.data, s.2) = after (queueStep 4) ([], 0) calls ∧ s.1.data.length ≤ 4 ∧
      s.1.buffer.length ≤ max 4 0 := by
  refine flat_buffer_queue 4 0 fun call hmem => ?_
  simp only [List.mem_cons, List.not_mem_nil, or_false] at hmem
  rcases hmem with rfl | rfl | rfl | rfl | rfl
  · exact Nat.le_succ 3
  · exact trivial
  · exact Nat.le_succ 2
  · exact trivial
  · exact Nat.le_succ 1

end FlatBuffer

end BitcoinNetwork.Http
