import BitcoinNetwork.Binary.Bytes

/-!
# Decoders of bytes

A decoder takes a value off the front of bytes, or fails. What it takes off an
encoding with anything behind it is the encoded value, where it decodes that.
-/

namespace Binary

def Decoder (α : Type) : Type := List UInt8 → Option (α × List UInt8)

namespace Decoder
variable {α β γ : Type}

instance : Monad Decoder where
  pure a := fun bytes => some (a, bytes)
  bind p f := fun bytes => (p bytes).bind fun r => f r.1 r.2

/-- The decoder that fails. -/
def fail : Decoder α := fun _ => none

/-- A value that is there or not. -/
def ofOption : Option α → Decoder α
  | none => fail
  | some a => pure a

/-- So many bytes. -/
def bytes (size : ℕ) : Decoder (List UInt8) := fun ahead =>
  if ahead.length < size then none else some (ahead.take size, ahead.drop size)

/-- As many values as asked for. -/
def times (p : Decoder α) : ℕ → Decoder (List α)
  | 0 => pure []
  | count + 1 => do
    let a ← p
    let rest ← times p count
    pure (a :: rest)

/-- What is ahead is left as it is. -/
def isExhausted : Decoder Bool := fun ahead => some (ahead.isEmpty, ahead)

/-- The decoder at what is ahead, if anything is. -/
def at? (p : Decoder α) : Option (List UInt8) → Option (α × List UInt8)
  | none => none
  | some ahead => p ahead

@[simp] theorem at?_none (p : Decoder α) : p.at? none = none := rfl

@[simp] theorem at?_some (p : Decoder α) (ahead : List UInt8) : p.at? (some ahead) = p ahead := rfl

theorem bind_apply (p : Decoder α) (f : α → Decoder β) (ahead : List UInt8) :
    (p >>= f) ahead = (p ahead).bind fun r => f r.1 r.2 := rfl

theorem pure_apply (a : α) (ahead : List UInt8) : (pure a : Decoder α) ahead = some (a, ahead) := rfl

theorem bind_some {p : Decoder α} {f : α → Decoder β} {ahead rest : List UInt8} {a : α}
    (h : p ahead = some (a, rest)) : (p >>= f) ahead = f a rest := by
  rw [bind_apply, h]
  rfl

theorem bind_none {p : Decoder α} {f : α → Decoder β} {ahead : List UInt8} (h : p ahead = none) :
    (p >>= f) ahead = none := by
  rw [bind_apply, h]
  rfl

theorem bind_eq_some {p : Decoder α} {f : α → Decoder β} {ahead rest : List UInt8} {b : β} :
    (p >>= f) ahead = some (b, rest) ↔
      ∃ a between, p ahead = some (a, between) ∧ f a between = some (b, rest) := by
  rw [bind_apply, Option.bind_eq_some_iff]
  constructor
  · rintro ⟨⟨a, between⟩, hp, hf⟩
    exact ⟨a, between, hp, hf⟩
  · rintro ⟨a, between, hp, hf⟩
    exact ⟨⟨a, between⟩, hp, hf⟩

/-! ### Encodings -/

/-- The decoder takes the value off its encoding, and leaves what is behind. -/
def Decodes (p : Decoder α) (encoding : List UInt8) (a : α) : Prop :=
  ∀ behind, p (encoding ++ behind) = some (a, behind)

theorem decodes_pure (a : α) : Decodes (pure a) [] a := fun _ => rfl

theorem Decodes.bind {p : Decoder α} {f : α → Decoder β} {front back : List UInt8} {a : α} {b : β}
    (hp : Decodes p front a) (hf : Decodes (f a) back b) : Decodes (p >>= f) (front ++ back) b := by
  intro behind
  rw [List.append_assoc, bind_some (hp _)]
  exact hf behind

/-- What is decoded is mapped. -/
theorem Decodes.bind_pure {p : Decoder α} {f : α → β} {encoding : List UInt8} {a : α}
    (hp : Decodes p encoding a) : Decodes (p >>= fun a => pure (f a)) encoding (f a) := by
  intro behind
  rw [bind_some (hp behind)]
  rfl

theorem decodes_bytes (encoding : List UInt8) : Decodes (bytes encoding.length) encoding encoding := by
  intro behind
  unfold bytes
  rw [if_neg (by rw [List.length_append]; omega), List.take_left, List.drop_left]

theorem decodes_times {p : Decoder α} {encode : α → List UInt8} {values : List α}
    (h : ∀ a ∈ values, Decodes p (encode a) a) :
    Decodes (times p values.length) (values.flatMap encode) values := by
  induction values with
  | nil => exact decodes_pure []
  | cons a values ih =>
    have hrest := ih fun b hb => h b (List.mem_cons_of_mem _ hb)
    exact (h a List.mem_cons_self).bind hrest.bind_pure

/-! ### Results -/

/-- Each value that is decoded is such a one. -/
def Yields (p : Decoder α) (P : α → Prop) : Prop :=
  ∀ ahead a behind, p ahead = some (a, behind) → P a

theorem yields_pure {P : α → Prop} {a : α} (h : P a) : Yields (pure a) P := by
  intro ahead b behind heq
  cases heq
  exact h

theorem yields_fail {P : α → Prop} : Yields (fail : Decoder α) P := by
  intro ahead a behind heq
  cases heq

theorem Yields.bind {p : Decoder α} {f : α → Decoder β} {P : α → Prop} {Q : β → Prop}
    (hp : Yields p P) (hf : ∀ a, P a → Yields (f a) Q) : Yields (p >>= f) Q := by
  intro ahead b behind heq
  obtain ⟨a, between, ha, hb⟩ := bind_eq_some.mp heq
  exact hf a (hp _ _ _ ha) _ _ _ hb

theorem Yields.trivial (p : Decoder α) : Yields p fun _ => True := fun _ _ _ _ => True.intro

theorem yields_bytes (size : ℕ) : Yields (bytes size) fun value => value.length = size := by
  intro ahead value behind heq
  unfold bytes at heq
  split at heq
  · cases heq
  · cases heq
    rw [List.length_take]
    omega

end Decoder

end Binary
