import BitcoinNetwork.Binary.Stream

/-!
# Codecs

What a writer is given of a value, how many bytes these are said to be, and what a
decoder takes off them: the three agree, and they do of what is composed of codecs that
agree.
-/

namespace Binary

/-! ### Further values -/

namespace Decoder
variable {α : Type}

/-- Bytes of a fixed number. -/
def vector (size : ℕ) : Decoder (Vector UInt8 size) := fun ahead =>
  if h : (ahead.take size).length = size then
    some (⟨(ahead.take size).toArray, by rw [List.size_toArray, h]⟩, ahead.drop size)
  else none

/-- So many bytes, of which those before the first zero are the string. -/
def stringBuffer (size : ℕ) : Decoder (List UInt8) := do
  let value ← bytes size
  pure (value.takeWhile (· ≠ 0))

/-- A string behind its size, up to a limit. -/
def string (limit : ℕ) : Decoder (List UInt8) := do
  let count ← size limit
  stringBuffer count

/-- The decoder takes no more than so many bytes. -/
def limited (p : Decoder α) (count : ℕ) : Decoder α := fun ahead =>
  (p (ahead.take count)).map fun r => (r.1, r.2 ++ ahead.drop count)

/-- All that is ahead. -/
def remaining : Decoder (List UInt8) := fun ahead => some (ahead, [])

/-- What is taken by one decoder, or all of it is left for a default. -/
def orElse (p : Decoder α) (default : α) : Decoder α := fun ahead =>
  match p ahead with
  | some r => some r
  | none => some (default, ahead)

theorem decodes_vector {size : ℕ} (value : Vector UInt8 size) :
    Decodes (vector size) value.toList value := by
  intro behind
  have htake : (value.toList ++ behind).take size = value.toList :=
    List.take_left' value.length_toList
  have hdrop : (value.toList ++ behind).drop size = behind :=
    List.drop_left' value.length_toList
  unfold vector
  rw [dif_pos (by rw [htake, value.length_toList]), hdrop]
  simp only [htake, Option.some.injEq, Prod.mk.injEq, and_true]
  exact Vector.toArray_inj.mp rfl

theorem decodes_stringBuffer {value : List UInt8} (h : 0 ∉ value) (pad : ℕ) :
    Decodes (stringBuffer (value.length + pad)) (value ++ List.replicate pad 0) value := by
  have hbytes := decodes_bytes (value ++ List.replicate pad (0 : UInt8))
  rw [List.length_append, List.length_replicate] at hbytes
  have hzero : (List.replicate pad (0 : UInt8)).takeWhile (· ≠ 0) = [] := by
    cases pad with
    | zero => rfl
    | succ pad => rfl
  have hvalue : (value ++ List.replicate pad 0).takeWhile (· ≠ 0) = value := by
    rw [List.takeWhile_append_of_pos, hzero, List.append_nil]
    intro byte hbyte
    apply decide_eq_true
    rintro rfl
    exact h hbyte
  have hstring := hbytes.bind_pure (f := fun value => value.takeWhile (· ≠ 0))
  rw [hvalue] at hstring
  exact hstring

theorem Decodes.limited {p : Decoder α} {encoding : List UInt8} {a : α} (h : Decodes p encoding a) :
    Decodes (limited p encoding.length) encoding a := by
  intro behind
  have hvalue := h []
  rw [List.append_nil] at hvalue
  unfold Decoder.limited
  rw [List.take_left, List.drop_left, hvalue]
  rfl

theorem Decodes.orElse {p : Decoder α} {encoding : List UInt8} {a : α} (h : Decodes p encoding a)
    (default : α) : Decodes (p.orElse default) encoding a := by
  intro behind
  unfold Decoder.orElse
  rw [h behind]

end Decoder

/-- A string behind its size. -/
def Writer.writeString (sink : Writer) (value : List UInt8) : Action sink.Sink Unit := do
  let _ ← sink.writeVarint value.length
  sink.writeBytes value

/-- The bytes of a string, and zeros up to a size. -/
def Writer.writeStringBuffer (sink : Writer) (value : List UInt8) (size : ℕ) :
    Action sink.Sink Unit :=
  sink.writeBytes ((value ++ List.replicate (size - value.length) 0).take size)

/-! ### Agreement -/

/-- What any writer is given of a value is of the size, and the decoder takes the value
off it. -/
def Coded {α : Type} (p : Decoder α) (serialize : (sink : Writer) → Action sink.Sink Unit)
    (size : ℕ) (a : α) : Prop :=
  ∃ bytes : List UInt8, bytes.length = size ∧
    (∀ sink : Writer, Writes sink.view (serialize sink) bytes) ∧ p.Decodes bytes a

/-- The same of a decoder that takes all there is. -/
def Whole {α : Type} (p : Decoder α) (serialize : (sink : Writer) → Action sink.Sink Unit)
    (size : ℕ) (a : α) : Prop :=
  ∃ bytes : List UInt8, bytes.length = size ∧
    (∀ sink : Writer, Writes sink.view (serialize sink) bytes) ∧ p bytes = some (a, [])

section
variable {α β : Type} {p : Decoder α} {q : α → Decoder β} {a : α} {b : β} {size size' : ℕ}
variable {serialize serialize' : (sink : Writer) → Action sink.Sink Unit}

theorem Coded.sized (h : Coded p serialize size a) (hsize : size = size') :
    Coded p serialize size' a := hsize ▸ h

theorem coded_pure (a : α) : Coded (pure a) (fun _ => pure ()) 0 a :=
  ⟨[], rfl, fun _ => writes_pure, Decoder.decodes_pure a⟩

/-- One value behind the other. -/
theorem Coded.bind (h : Coded p serialize size a) (h' : Coded (q a) serialize' size' b) :
    Coded (p >>= q) (fun sink => serialize sink >>= fun _ => serialize' sink) (size + size') b := by
  obtain ⟨front, hfront, hwrites, hdecodes⟩ := h
  obtain ⟨back, hback, hwrites', hdecodes'⟩ := h'
  refine ⟨front ++ back, ?_, ?_, ?_⟩
  · rw [List.length_append, hfront, hback]
  · intro sink
    exact (hwrites sink).bind (hwrites' sink)
  · exact hdecodes.bind hdecodes'

/-- The last value, and what is made of it. -/
theorem Coded.map (h : Coded p serialize size a) (f : α → β) :
    Coded (p >>= fun a => pure (f a)) serialize size (f a) := by
  obtain ⟨bytes, hsize, hwrites, hdecodes⟩ := h
  exact ⟨bytes, hsize, hwrites, hdecodes.bind_pure⟩

/-- A decoder that takes nothing is in front. -/
theorem Coded.behind (h : Coded (q a) serialize size b) (hp : p = pure a) :
    Coded (p >>= q) serialize size b := by
  obtain ⟨bytes, hsize, hwrites, hdecodes⟩ := h
  refine ⟨bytes, hsize, hwrites, ?_⟩
  subst hp
  exact (Decoder.decodes_pure a).bind hdecodes

theorem coded_ite {c : Prop} [Decidable c] {p' : Decoder α}
    (h : c → Coded p serialize size a) (h' : ¬c → Coded p' serialize' size' a) :
    Coded (if c then p else p') (fun sink => if c then serialize sink else serialize' sink)
      (if c then size else size') a := by
  by_cases hc : c
  · simp only [if_pos hc]
    exact h hc
  · simp only [if_neg hc]
    exact h' hc

/-- A decoder that is held to the bytes there are. -/
theorem Coded.limited (h : Coded p serialize size a) :
    Coded (p.limited size) serialize size a := by
  obtain ⟨bytes, rfl, hwrites, hdecodes⟩ := h
  exact ⟨bytes, rfl, hwrites, hdecodes.limited⟩

/-- As many values as are told of. -/
theorem coded_times {encode : α → (sink : Writer) → Action sink.Sink Unit} {sizeOf : α → ℕ}
    {values : List α} (h : ∀ a ∈ values, Coded p (encode a) (sizeOf a) a) :
    Coded (p.times values.length) (fun sink => Action.each (fun a => encode a sink) values)
      (values.map sizeOf).sum values := by
  induction values with
  | nil => exact coded_pure []
  | cons a values ih =>
    have hrest := ih fun b hb => h b (List.mem_cons_of_mem _ hb)
    exact (h a List.mem_cons_self).bind (hrest.map (a :: ·))

end

/-! ### Values -/

theorem coded_byte (b : UInt8) : Coded .byte (fun sink => sink.writeByte b) 1 b :=
  ⟨[b], rfl, fun sink => sink.writes_byte b, Decoder.decodes_byte b⟩

theorem coded_little32 (n : UInt32) :
    Coded .little32 (fun sink => sink.writeLittle32 n) 4 n :=
  ⟨toLittle 4 n.toNat, toLittle_length _ _, fun sink => sink.writes_little32 n,
    Decoder.decodes_little32 n⟩

theorem coded_little64 (n : UInt64) :
    Coded .little64 (fun sink => sink.writeLittle64 n) 8 n :=
  ⟨toLittle 8 n.toNat, toLittle_length _ _, fun sink => sink.writes_little64 n,
    Decoder.decodes_little64 n⟩

theorem coded_varint (n : UInt64) :
    Coded .varint (fun sink => sink.writeVarint n.toNat) (variableSize n.toNat) n :=
  ⟨toVariable n.toNat, toVariable_length _, fun sink => sink.writes_varint n.toNat,
    Decoder.decodes_varint n⟩

theorem coded_size {limit n : ℕ} (hlimit : n ≤ limit) (h : limit < 2 ^ 64) :
    Coded (.size limit) (fun sink => sink.writeVarint n) (variableSize n) n :=
  ⟨toVariable n, toVariable_length _, fun sink => sink.writes_varint n,
    Decoder.decodes_size limit hlimit (Nat.lt_of_le_of_lt hlimit h)⟩

theorem coded_bytes (value : List UInt8) :
    Coded (.bytes value.length) (fun sink => sink.writeBytes value) value.length value :=
  ⟨value, rfl, fun sink => sink.writes_bytes value, Decoder.decodes_bytes value⟩

theorem coded_vector {count : ℕ} (value : Vector UInt8 count) :
    Coded (.vector count) (fun sink => sink.writeBytes value.toList) count value :=
  ⟨value.toList, value.length_toList, fun sink => sink.writes_bytes _, Decoder.decodes_vector value⟩

/-- Bytes of which the decoder does not look at the value. -/
theorem coded_skip (n : UInt32) :
    Coded (.skip 4) (fun sink => sink.writeLittle32 n) 4 () := by
  have hbytes := Decoder.decodes_bytes (toLittle 4 n.toNat)
  rw [toLittle_length] at hbytes
  exact ⟨toLittle 4 n.toNat, toLittle_length _ _, fun sink => sink.writes_little32 n,
    hbytes.bind_pure⟩

theorem coded_string {limit : ℕ} {value : List UInt8} (hlimit : value.length ≤ limit)
    (h : limit < 2 ^ 64) (hzero : 0 ∉ value) :
    Coded (.string limit) (fun sink => sink.writeString value)
      (variableSize value.length + value.length) value := by
  have hvalue := Decoder.decodes_stringBuffer hzero 0
  rw [Nat.add_zero, List.replicate_zero, List.append_nil] at hvalue
  exact (coded_size hlimit h).bind ⟨value, rfl, fun sink => sink.writes_bytes value, hvalue⟩

/-- A string in a field of a fixed size. -/
theorem coded_stringBuffer {size : ℕ} {value : List UInt8} (hsize : value.length ≤ size)
    (hzero : 0 ∉ value) :
    Coded (.stringBuffer size) (fun sink => sink.writeStringBuffer value size) size value := by
  have hlength : (value ++ List.replicate (size - value.length) 0).length = size := by
    rw [List.length_append, List.length_replicate]
    omega
  have hvalue := Decoder.decodes_stringBuffer hzero (size - value.length)
  rw [Nat.add_sub_cancel' hsize] at hvalue
  refine ⟨value ++ List.replicate (size - value.length) 0, hlength, ?_, hvalue⟩
  intro sink
  unfold Writer.writeStringBuffer
  rw [List.take_of_length_le (Nat.le_of_eq hlength)]
  exact sink.writes_bytes _

/-! ### Buffers -/

/-- What data is once it is written to from its front, unless there is more than fits. -/
def Writer.fill (data : List UInt8) (serialize : (sink : Writer) → Action sink.Sink Unit) :
    Option (List UInt8) :=
  (serialize Writer.list (some ([], data.length))).2.map fun written =>
    written.1 ++ data.drop written.1.length

theorem Writer.fill_of_writes {data bytes : List UInt8}
    {serialize : (sink : Writer) → Action sink.Sink Unit}
    (h : ∀ sink : Writer, Writes sink.view (serialize sink) bytes) :
    Writer.fill data serialize = if bytes.length ≤ data.length then
      some (bytes ++ data.drop bytes.length) else none := by
  have hwritten : (serialize Writer.list (some ([], data.length))).2 = put bytes ([], data.length) :=
    h Writer.list (some ([], data.length))
  unfold Writer.fill
  rw [hwritten, put]
  split
  · rw [Option.map_some, List.nil_append]
  · rfl

/-- Zeros, as many as there are to be bytes, that are written to. -/
def Writer.buffer (size : ℕ) (serialize : (sink : Writer) → Action sink.Sink Unit) :
    Option (List UInt8) :=
  Writer.fill (List.replicate size 0) serialize

/-- Such a buffer is filled by as many bytes. -/
theorem Writer.buffer_of_writes {size : ℕ} {bytes : List UInt8}
    {serialize : (sink : Writer) → Action sink.Sink Unit} (hsize : bytes.length = size)
    (h : ∀ sink : Writer, Writes sink.view (serialize sink) bytes) :
    Writer.buffer size serialize = some bytes := by
  unfold Writer.buffer
  rw [Writer.fill_of_writes h, List.length_replicate, hsize, if_pos (Nat.le_refl size),
    List.drop_replicate, Nat.sub_self, List.replicate_zero, List.append_nil]

theorem Coded.whole {α : Type} {p : Decoder α} {size : ℕ} {a : α}
    {serialize : (sink : Writer) → Action sink.Sink Unit} (h : Coded p serialize size a) :
    Whole p serialize size a := by
  obtain ⟨bytes, hsize, hwrites, hdecodes⟩ := h
  refine ⟨bytes, hsize, hwrites, ?_⟩
  have hvalue := hdecodes []
  rw [List.append_nil] at hvalue
  exact hvalue

end Binary
