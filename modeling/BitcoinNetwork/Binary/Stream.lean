import BitcoinNetwork.Binary.Wire

/-!
# Readers and writers of bytes

A reader takes values off the bytes that are ahead in its source, until one fails and
the source is invalid from then on; a writer puts bytes into the room of its sink. What
the operations do is told by decoders and by bytes, so that what is composed of them is
told by what these compose to.
-/

namespace Binary

/-- An action on a state. -/
def Action (σ α : Type) : Type := σ → α × σ

instance {σ : Type} : Monad (Action σ) where
  pure a := fun s => (a, s)
  bind m f := fun s => f (m s).1 (m s).2

/-- As many values as asked for. -/
def Action.times {σ α : Type} (m : Action σ α) : ℕ → Action σ (List α)
  | 0 => pure []
  | count + 1 => do
    let a ← m
    let rest ← times m count
    pure (a :: rest)

/-- An action for each value. -/
def Action.each {σ α : Type} (m : α → Action σ Unit) : List α → Action σ Unit
  | [] => pure ()
  | a :: values => do
    m a
    each m values

/-! ### Readers -/

section
variable {σ α β : Type} {ahead : σ → Option (List UInt8)}

/-- The action does with what is ahead what the decoder does with it, where nothing is
ahead of a source that is invalid. -/
def Reads (ahead : σ → Option (List UInt8)) (m : Action σ α) (p : Decoder α) : Prop :=
  ∀ s, match p.at? (ahead s) with
    | some (a, behind) => (m s).1 = a ∧ ahead (m s).2 = some behind
    | none => ahead (m s).2 = none

theorem Reads.decoded {m : Action σ α} {p : Decoder α} (h : Reads ahead m p) {s : σ}
    {bytes behind : List UInt8} {a : α} (hs : ahead s = some bytes) (hp : p bytes = some (a, behind)) :
    (m s).1 = a ∧ ahead (m s).2 = some behind := by
  have hread := h s
  rw [hs, Decoder.at?_some, hp] at hread
  exact hread

theorem Reads.failed {m : Action σ α} {p : Decoder α} (h : Reads ahead m p) {s : σ}
    (hs : p.at? (ahead s) = none) : ahead (m s).2 = none := by
  have hread := h s
  rw [hs] at hread
  exact hread

/-- A source that is valid behind an action was before, and what was read was decoded. -/
theorem Reads.valid {m : Action σ α} {p : Decoder α} (h : Reads ahead m p) {s : σ}
    {behind : List UInt8} (hbehind : ahead (m s).2 = some behind) :
    ∃ bytes, ahead s = some bytes ∧ p bytes = some ((m s).1, behind) := by
  cases hs : ahead s with
  | none =>
    rw [h.failed (by rw [hs]; rfl)] at hbehind
    cases hbehind
  | some bytes =>
    refine ⟨bytes, rfl, ?_⟩
    cases hp : p bytes with
    | none =>
      rw [h.failed (by rw [hs]; exact hp)] at hbehind
      cases hbehind
    | some r =>
      obtain ⟨hvalue, hrest⟩ := h.decoded hs hp
      rw [hbehind] at hrest
      rw [hvalue, Option.some.inj hrest]

theorem reads_pure (a : α) : Reads ahead (pure a) (pure a) := by
  intro s
  show match (pure a : Decoder α).at? (ahead s) with
    | some (b, behind) => a = b ∧ ahead s = some behind
    | none => ahead s = none
  cases ahead s with
  | none => rfl
  | some bytes => exact ⟨rfl, rfl⟩

theorem Reads.bind {m : Action σ α} {p : Decoder α} {f : α → Action σ β} {q : α → Decoder β}
    (hm : Reads ahead m p) (hf : ∀ a, Reads ahead (f a) (q a)) :
    Reads ahead (m >>= f) (p >>= q) := by
  intro s
  show match (p >>= q).at? (ahead s) with
    | some (a, behind) => (f (m s).1 (m s).2).1 = a ∧ ahead (f (m s).1 (m s).2).2 = some behind
    | none => ahead (f (m s).1 (m s).2).2 = none
  cases hs : ahead s with
  | none =>
    apply (hf _).failed
    rw [hm.failed (by rw [hs]; rfl)]
    rfl
  | some bytes =>
    rw [Decoder.at?_some]
    cases hp : p bytes with
    | none =>
      rw [Decoder.bind_none hp]
      apply (hf _).failed
      rw [hm.failed (by rw [hs]; exact hp)]
      rfl
    | some r =>
      obtain ⟨hvalue, hbehind⟩ := hm.decoded hs hp
      have hread := hf (m s).1 (m s).2
      rw [hbehind, Decoder.at?_some, hvalue] at hread
      rw [Decoder.bind_some hp, hvalue]
      exact hread

theorem reads_ite {c : Prop} [Decidable c] {m m' : Action σ α} {p p' : Decoder α}
    (hm : Reads ahead m p) (hm' : Reads ahead m' p') :
    Reads ahead (if c then m else m') (if c then p else p') := by
  split
  · exact hm
  · exact hm'

end

/-- A reader, by what its operations do with what is ahead. -/
structure Reader where
  Source : Type
  ahead : Source → Option (List UInt8)
  invalidate : Action Source Unit
  readByte : Action Source UInt8
  readBytes : ℕ → Action Source (List UInt8)
  readBig16 : Action Source UInt16
  readLittle32 : Action Source UInt32
  readLittle64 : Action Source UInt64
  readVarint : Action Source UInt64
  readSize : ℕ → Action Source ℕ
  skipBytes : ℕ → Action Source Unit
  reads_invalidate : Reads ahead invalidate .fail
  reads_byte : Reads ahead readByte .byte
  reads_bytes : ∀ size, Reads ahead (readBytes size) (.bytes size)
  reads_big16 : Reads ahead readBig16 .big16
  reads_little32 : Reads ahead readLittle32 .little32
  reads_little64 : Reads ahead readLittle64 .little64
  reads_varint : Reads ahead readVarint .varint
  reads_size : ∀ limit, Reads ahead (readSize limit) (.size limit)
  reads_skip : ∀ count, Reads ahead (skipBytes count) (.skip count)

namespace Reader

/-- The action of a decoder on what is ahead, with a value for when it fails. -/
def act {α : Type} (p : Decoder α) (failed : α) : Action (Option (List UInt8)) α := fun s =>
  match p.at? s with
  | some (a, behind) => (a, some behind)
  | none => (failed, none)

theorem reads_act {α : Type} (p : Decoder α) (failed : α) : Reads id (act p failed) p := by
  intro s
  unfold act
  rw [id_eq]
  cases hs : p.at? s with
  | none => rfl
  | some r => exact ⟨rfl, rfl⟩

/-- The reader of a list of bytes. -/
def list : Reader where
  Source := Option (List UInt8)
  ahead := id
  invalidate := act .fail ()
  readByte := act .byte 0
  readBytes size := act (.bytes size) (List.replicate size 0)
  readBig16 := act .big16 0
  readLittle32 := act .little32 0
  readLittle64 := act .little64 0
  readVarint := act .varint 0
  readSize limit := act (.size limit) 0
  skipBytes count := act (.skip count) ()
  reads_invalidate := reads_act _ _
  reads_byte := reads_act _ _
  reads_bytes _ := reads_act _ _
  reads_big16 := reads_act _ _
  reads_little32 := reads_act _ _
  reads_little64 := reads_act _ _
  reads_varint := reads_act _ _
  reads_size _ := reads_act _ _
  reads_skip _ := reads_act _ _

end Reader

/-! ### Writers -/

/-- What is put behind what was written, where there is room. -/
def put (bytes : List UInt8) (view : List UInt8 × ℕ) : Option (List UInt8 × ℕ) :=
  if bytes.length ≤ view.2 then some (view.1 ++ bytes, view.2 - bytes.length) else none

theorem put_append (front back : List UInt8) (view : List UInt8 × ℕ) :
    (put front view).bind (put back) = put (front ++ back) view := by
  unfold put
  by_cases hfront : front.length ≤ view.2
  · rw [if_pos hfront, Option.bind_some]
    by_cases hback : back.length ≤ view.2 - front.length
    · rw [if_pos hback, if_pos (by rw [List.length_append]; omega), List.append_assoc,
        List.length_append, Nat.sub_sub]
    · rw [if_neg hback, if_neg (by rw [List.length_append]; omega)]
  · rw [if_neg hfront, if_neg (by rw [List.length_append]; omega)]
    rfl

section
variable {σ α : Type} {view : σ → Option (List UInt8 × ℕ)}

/-- The action puts the bytes into the room of the sink, which is invalid once it has
none. -/
def Writes (view : σ → Option (List UInt8 × ℕ)) (m : Action σ Unit) (bytes : List UInt8) : Prop :=
  ∀ s, view (m s).2 = (view s).bind (put bytes)

theorem writes_pure : Writes view (pure ()) [] := by
  intro s
  show view s = (view s).bind (put [])
  cases view s with
  | none => rfl
  | some written =>
    rw [Option.bind_some]
    unfold put
    rw [List.length_nil, if_pos (Nat.zero_le _), List.append_nil, Nat.sub_zero]

theorem Writes.bind {m m' : Action σ Unit} {front back : List UInt8} (hm : Writes view m front)
    (hm' : Writes view m' back) : Writes view (m >>= fun _ => m') (front ++ back) := by
  intro s
  refine (hm' (m s).2).trans ?_
  rw [hm s, Option.bind_assoc]
  exact Option.bind_congr fun written _ => put_append front back written

theorem writes_ite {c : Prop} [Decidable c] {m m' : Action σ Unit} {bytes bytes' : List UInt8}
    (hm : Writes view m bytes) (hm' : Writes view m' bytes') :
    Writes view (if c then m else m') (if c then bytes else bytes') := by
  split
  · exact hm
  · exact hm'

end

/-- A writer, by what its operations put into the sink. -/
structure Writer where
  Sink : Type
  view : Sink → Option (List UInt8 × ℕ)
  writeByte : UInt8 → Action Sink Unit
  writeBytes : List UInt8 → Action Sink Unit
  writeBig16 : UInt16 → Action Sink Unit
  writeLittle32 : UInt32 → Action Sink Unit
  writeLittle64 : UInt64 → Action Sink Unit
  writeVarint : ℕ → Action Sink Unit
  writes_byte : ∀ b, Writes view (writeByte b) [b]
  writes_bytes : ∀ bytes, Writes view (writeBytes bytes) bytes
  writes_big16 : ∀ n : UInt16, Writes view (writeBig16 n) (toBytes 2 n.toNat)
  writes_little32 : ∀ n : UInt32, Writes view (writeLittle32 n) (toLittle 4 n.toNat)
  writes_little64 : ∀ n : UInt64, Writes view (writeLittle64 n) (toLittle 8 n.toNat)
  writes_varint : ∀ n, Writes view (writeVarint n) (toVariable n)

namespace Writer

/-- The action that puts bytes. -/
def act (bytes : List UInt8) : Action (Option (List UInt8 × ℕ)) Unit := fun s => ((), s.bind (put bytes))

/-- The writer of a list of bytes. -/
def list : Writer where
  Sink := Option (List UInt8 × ℕ)
  view := id
  writeByte b := act [b]
  writeBytes bytes := act bytes
  writeBig16 n := act (toBytes 2 n.toNat)
  writeLittle32 n := act (toLittle 4 n.toNat)
  writeLittle64 n := act (toLittle 8 n.toNat)
  writeVarint n := act (toVariable n)
  writes_byte _ _ := rfl
  writes_bytes _ _ := rfl
  writes_big16 _ _ := rfl
  writes_little32 _ _ := rfl
  writes_little64 _ _ := rfl
  writes_varint _ _ := rfl

end Writer

end Binary
