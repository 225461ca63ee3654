import BitcoinNetwork.Binary.Search
import BitcoinNetwork.Io.Descriptor

/-!
# Composed transfers (impl/io/operations.ipp)

A stream moves some of what it is offered at a time. A buffer is its cells in order, which
are the bytes to be written or the places to be filled, so that a read and a write are one.
-/

namespace BitcoinNetwork.Io
open Async Binary

variable {α : Type}

/-- `consume`: the leading cells are dropped from the buffers. -/
def consume : List (List α) → ℕ → List (List α)
  | [], _ => []
  | buffer :: buffers, count =>
    if buffer.length ≤ count then consume buffers (count - buffer.length)
    else buffer.drop count :: buffers

/-- `exhausted`. -/
def exhausted (buffers : List (List α)) : Bool := buffers.all List.isEmpty

/-- `transfer`, with the cells that the stream has moved and what the handler was told. -/
structure Transfer (α : Type) where
  buffers : List (List α)
  total : ℕ := 0
  pending : Bool := false
  moved : List α := []
  told : List (Code × ℕ) := []

namespace Transfer

/-- `next`: the buffers are offered to the stream. -/
def next (t : Transfer α) : Transfer α := { t with pending := true }

/-- `start`, and what it posts. -/
def start (buffers : List (List α)) : Transfer α :=
  if exhausted buffers then { buffers, told := [(.success, 0)] } else next { buffers }

/-- `handle`. -/
def handle (t : Transfer α) (ec : Code) (size : ℕ) : Transfer α :=
  let t :=
    { t with
      pending := false
      moved := t.moved ++ t.buffers.flatten.take size
      total := t.total + size
      buffers := consume t.buffers size }
  if ec ≠ .success ∨ exhausted t.buffers then { t with told := t.told ++ [(ec, t.total)] }
  else t.next

/-- The stream completes what it was offered. -/
def step (t : Transfer α) (completion : Code × ℕ) : Transfer α :=
  if t.pending then t.handle completion.1 completion.2 else t

/-- A stream moves no more than it was offered. -/
def Offered (t : Transfer α) (completion : Code × ℕ) : Prop :=
  completion.2 ≤ t.buffers.flatten.length

instance (t : Transfer α) (completion : Code × ℕ) : Decidable (t.Offered completion) :=
  inferInstanceAs (Decidable (_ ≤ _))

end Transfer

/-- The loop of `write` and of `read`, which block. -/
def transferLoop : List (List α) → ℕ → List (Code × ℕ) → Option (Code × ℕ)
  | remaining, total, [] => if exhausted remaining then some (.success, total) else none
  | remaining, total, (ec, size) :: completions =>
    if exhausted remaining then some (.success, total)
    else if ec ≠ .success then some (ec, total + size)
    else transferLoop (consume remaining size) (total + size) completions

/-! ### What is dropped -/

theorem consume_flatten (buffers : List (List α)) (count : ℕ) :
    (consume buffers count).flatten = buffers.flatten.drop count := by
  induction buffers generalizing count with
  | nil => exact List.drop_nil.symm
  | cons buffer buffers ih =>
    rw [consume, List.flatten_cons]
    split
    · next hle =>
      rw [ih, List.drop_append, List.drop_eq_nil_of_le hle, List.nil_append]
    · next hlt =>
      rw [List.flatten_cons, List.drop_append_of_le_length (by omega)]

theorem exhausted_iff (buffers : List (List α)) :
    exhausted buffers = true ↔ buffers.flatten = [] := by
  unfold exhausted
  rw [List.all_eq_true, List.flatten_eq_nil_iff]
  exact forall₂_congr fun buffer _ => List.isEmpty_iff

/-! ### Runs -/

namespace Transfer

/-- What was moved is the front of the cells, and what is left is behind it. The handler has
been told once, or is to be told and there are cells left. -/
structure Exact (cells : List α) (t : Transfer α) : Prop where
  moved : t.moved = cells.take t.total
  rest : t.buffers.flatten = cells.drop t.total
  total : t.total ≤ cells.length
  pending : t.pending = true → t.told = [] ∧ t.total < cells.length
  told : t.pending = false →
    ∃ ec, t.told = [(ec, t.total)] ∧ (ec = .success → t.total = cells.length)

theorem start_exact (buffers : List (List α)) : Exact buffers.flatten (start buffers) := by
  unfold start
  split
  · next hnone =>
    rw [exhausted_iff] at hnone
    exact ⟨rfl, rfl, Nat.zero_le _, nofun, fun _ => ⟨.success, rfl, fun _ => by rw [hnone]; rfl⟩⟩
  · next hsome =>
    rw [exhausted_iff] at hsome
    exact ⟨rfl, rfl, Nat.zero_le _, fun _ => ⟨rfl, List.length_pos_iff.mpr hsome⟩, nofun⟩

theorem step_exact {cells : List α} {t : Transfer α} {completion : Code × ℕ} (h : Exact cells t)
    (hoffered : t.Offered completion) : Exact cells (t.step completion) := by
  obtain ⟨ec, size⟩ := completion
  unfold step
  cases hpending : t.pending with
  | false => exact h
  | true =>
    obtain ⟨htold, hlt⟩ := h.pending hpending
    have hsize : size ≤ cells.length - t.total := by
      rw [Offered, h.rest, List.length_drop] at hoffered
      exact hoffered
    have hmoved : t.moved ++ t.buffers.flatten.take size = cells.take (t.total + size) := by
      rw [h.moved, h.rest, ← List.take_add]
    have hrest : (consume t.buffers size).flatten = cells.drop (t.total + size) := by
      rw [consume_flatten, h.rest, List.drop_drop]
    have hdone : exhausted (consume t.buffers size) = true ↔ t.total + size = cells.length := by
      rw [exhausted_iff, hrest, List.drop_eq_nil_iff]
      omega
    rw [if_pos rfl, handle]
    dsimp only
    split
    · next hstop =>
      refine ⟨hmoved, hrest, by dsimp only; omega, nofun, fun _ => ⟨ec, ?_, fun hec => ?_⟩⟩
      · rw [htold, List.nil_append]
      · exact hdone.mp (hstop.resolve_left (not_not.mpr hec))
    · next hmore =>
      rw [not_or, not_not, hdone] at hmore
      refine ⟨hmoved, hrest, ?_, fun _ => ⟨htold, ?_⟩, nofun⟩
      · dsimp only [next]
        omega
      · dsimp only [next]
        omega

/-- Whatever parts a stream moves at a time, what a transfer has moved is the front of its
buffers, in order and each cell once. Its handler is told once, of no more than was moved,
and of a success only if it was all; it is not told while there is more to be moved. -/
theorem transfer_exact (buffers : List (List α)) {completions : List (Code × ℕ)}
    (h : Along step Offered (start buffers) completions) :
    let t := after step (start buffers) completions
    t.moved = buffers.flatten.take t.total ∧ t.buffers.flatten = buffers.flatten.drop t.total ∧
    t.total ≤ buffers.flatten.length ∧
    (t.pending = true → t.told = [] ∧ t.total < buffers.flatten.length) ∧
    (t.pending = false →
      ∃ ec, t.told = [(ec, t.total)] ∧ (ec = .success → t.total = buffers.flatten.length)) := by
  obtain ⟨moved, rest, total, pending, told⟩ : Exact buffers.flatten
      (after step (start buffers) completions) :=
    after_along (fun _ _ => step_exact) (start_exact buffers) h
  exact ⟨moved, rest, total, pending, told⟩

/-- A message in three buffers, of which one is empty, in parts that end within them. -/
theorem transfer_exact_parts :
    let t := after step (start [[1, 2], [], [3, 4, 5]]) [(.success, 1), (.success, 3), (.success, 1)]
    t.moved = [[1, 2], [], [3, 4, 5]].flatten.take t.total ∧
    t.buffers.flatten = [[1, 2], [], [3, 4, 5]].flatten.drop t.total ∧
    t.total ≤ [[1, 2], [], [3, 4, 5]].flatten.length ∧
    (t.pending = true → t.told = [] ∧ t.total < [[1, 2], [], [3, 4, 5]].flatten.length) ∧
    (t.pending = false → ∃ ec, t.told = [(ec, t.total)] ∧
      (ec = .success → t.total = [[1, 2], [], [3, 4, 5]].flatten.length)) :=
  transfer_exact [[1, 2], [], [3, 4, 5]] (by decide)

/-! ### The loops that block -/

theorem after_told {t : Transfer α} (h : t.pending = false) (completions : List (Code × ℕ)) :
    (after step t completions).told = t.told := by
  induction completions with
  | nil => rfl
  | cons completion completions ih =>
    have hstep : t.step completion = t := by
      rw [step, h]
      rfl
    rw [after_cons, hstep, ih]

theorem pending_told {t : Transfer α} (hpending : t.pending = true) (htold : t.told = [])
    (hmore : exhausted t.buffers = false) (completions : List (Code × ℕ)) :
    (after step t completions).told = (transferLoop t.buffers t.total completions).toList := by
  induction completions generalizing t with
  | nil =>
    rw [transferLoop, hmore]
    exact htold
  | cons completion completions ih =>
    obtain ⟨ec, size⟩ := completion
    rw [after_cons, step, if_pos hpending, handle, transferLoop, hmore]
    dsimp only
    simp only [Bool.false_eq_true, reduceIte]
    by_cases hec : ec = .success
    · rw [if_neg (not_not.mpr hec)]
      cases hdone : exhausted (consume t.buffers size) with
      | true =>
        rw [if_pos (.inr rfl), after_told rfl, htold, hec]
        cases completions <;> rw [transferLoop, hdone] <;> rfl
      | false =>
        rw [if_neg (by simp [hec])]
        exact ih rfl htold hdone
    · rw [if_pos (.inl hec), if_pos hec, after_told rfl, htold]
      rfl

/-- A write or a read that blocks returns what the handler of an asynchronous one is told,
where the stream completes the same parts. -/
theorem transferLoop_agrees (buffers : List (List α)) (completions : List (Code × ℕ)) :
    (transferLoop buffers 0 completions).toList =
      (after step (start buffers) completions).told := by
  unfold start
  cases hdone : exhausted buffers with
  | true =>
    rw [if_pos rfl, after_told rfl]
    cases completions <;> rw [transferLoop, hdone] <;> rfl
  | false =>
    rw [if_neg Bool.false_ne_true]
    exact (@pending_told _ (next { buffers }) rfl rfl hdone completions).symm

end Transfer

/-! ### Reading to a delimiter -/

/-- What `read_until` comes to: it wants more, failed, or found the delimiter, where the size
is that of the text through it. -/
inductive Until
  | waiting (text : List UInt8)
  | failed (ec : Code) (text : List UInt8)
  | found (size : ℕ) (text : List UInt8)
  deriving DecidableEq

/-- `std::string::find`, from a position that is not behind the text. -/
def find (delimiter text : List UInt8) (start : ℕ) : Option ℕ :=
  (search delimiter (text.drop start)).map (· + start)

/-- `read_until`, of the reads of the stream, in which only what was not searched is. -/
def readUntil (delimiter : List UInt8) (searched : ℕ) (text : List UInt8) :
    List (Code × List UInt8) → Until
  | [] =>
    match find delimiter text (searched - delimiter.length) with
    | some position => .found (position + delimiter.length) text
    | none => .waiting text
  | (ec, chunk) :: reads =>
    match find delimiter text (searched - delimiter.length) with
    | some position => .found (position + delimiter.length) text
    | none =>
      if ec ≠ .success then .failed ec text
      else readUntil delimiter text.length (text ++ chunk) reads

/-- A search behind what has no occurrence is one of the whole. -/
theorem find_searched {delimiter text : List UInt8} (hd : delimiter ≠ []) {searched : ℕ}
    (hle : searched ≤ text.length)
    (hnone : ∀ place, place + delimiter.length ≤ searched → ¬OccursAt delimiter text place) :
    find delimiter text (searched - delimiter.length) = search delimiter text := by
  have hshift (place : ℕ) : OccursAt delimiter (text.drop (searched - delimiter.length)) place ↔
      OccursAt delimiter text (place + (searched - delimiter.length)) := by
    rw [OccursAt, OccursAt, List.drop_drop, Nat.add_comm]
  have hearly (place : ℕ) (hlt : place < searched - delimiter.length) :
      ¬OccursAt delimiter text place := hnone place (by omega)
  unfold find
  cases hsearch : search delimiter text with
  | none =>
    rw [search_eq_none hd] at hsearch
    rw [Option.map_eq_none_iff, search_eq_none hd]
    exact fun place hfound => hsearch _ ((hshift place).mp hfound)
  | some place =>
    obtain ⟨hplace, hfirst, hbefore⟩ := search_eq_some.mp hsearch
    have hbehind : searched - delimiter.length ≤ place := by
      by_contra hlt
      exact hearly place (by omega) hfirst
    rw [Option.map_eq_some_iff]
    refine ⟨place - (searched - delimiter.length), search_eq_some.mpr ⟨?_, ?_, ?_⟩, by omega⟩
    · rw [List.length_drop]
      omega
    · rw [hshift, Nat.sub_add_cancel hbehind]
      exact hfirst
    · intro before hlt hfound
      exact hbefore _ (by omega) ((hshift before).mp hfound)

/-- The reads of a stream that gives chunks, and then fails if there is a code. -/
def readsOf (chunks : List (List UInt8)) (ec : Option Code) : List (Code × List UInt8) :=
  chunks.map (.success, ·) ++ (ec.map (·, [])).toList

theorem readUntil_searched {delimiter : List UInt8} (hd : delimiter ≠ []) {ec : Option Code}
    (hec : ∀ e ∈ ec, e ≠ .success) (chunks : List (List UInt8)) {searched : ℕ}
    {text : List UInt8} (hle : searched ≤ text.length)
    (hnone : ∀ place, place + delimiter.length ≤ searched → ¬OccursAt delimiter text place) :
    match search delimiter (text ++ chunks.flatten) with
    | none => readUntil delimiter searched text (readsOf chunks ec) =
        ec.elim (.waiting (text ++ chunks.flatten)) (.failed · (text ++ chunks.flatten))
    | some place => ∃ n ≤ chunks.length, readUntil delimiter searched text (readsOf chunks ec) =
          .found (place + delimiter.length) (text ++ (chunks.take n).flatten) ∧
        (n = 0 ∨ search delimiter (text ++ (chunks.take (n - 1)).flatten) = none) := by
  have hfind := find_searched hd hle hnone
  induction chunks generalizing searched text with
  | nil =>
    rw [List.flatten_nil, List.append_nil]
    cases hsearch : search delimiter text with
    | some place =>
      refine ⟨0, le_rfl, ?_, .inl rfl⟩
      cases ec <;> simp [readsOf, readUntil, hfind, hsearch]
    | none =>
      cases ec with
      | none => simp [readsOf, readUntil, hfind, hsearch]
      | some e => simp [readsOf, readUntil, hfind, hsearch, hec e rfl]
  | cons chunk chunks ih =>
    have hread : readUntil delimiter searched text (readsOf (chunk :: chunks) ec) =
        match search delimiter text with
        | some position => .found (position + delimiter.length) text
        | none => readUntil delimiter text.length (text ++ chunk) (readsOf chunks ec) := by
      simp only [readsOf, List.map_cons, List.cons_append, readUntil, hfind, ne_eq,
        not_true_eq_false, reduceIte]
    have hwhole : text ++ (chunk :: chunks).flatten = (text ++ chunk) ++ chunks.flatten := by
      rw [List.flatten_cons, List.append_assoc]
    cases hsearch : search delimiter text with
    | some place =>
      -- an occurrence in the text is the first of the whole
      obtain ⟨-, hfirst⟩ := search_eq_some.mp hsearch
      have hend := hfirst.1.end_le hd
      have hall : search delimiter (text ++ (chunk :: chunks).flatten) = some place := by
        refine search_eq_some.mpr ⟨?_, (firstAt_append hend).mpr hfirst⟩
        rw [List.length_append]
        omega
      rw [hall]
      refine ⟨0, Nat.zero_le _, ?_, .inl rfl⟩
      rw [hread, hsearch, List.take_zero, List.flatten_nil, List.append_nil]
    | none =>
      have hrest : ∀ place, place + delimiter.length ≤ text.length →
          ¬OccursAt delimiter (text ++ chunk) place := fun place hplace hfound =>
        (search_eq_none hd).mp hsearch place ((occursAt_append hplace).mp hfound)
      have hlen : text.length ≤ (text ++ chunk).length := by
        rw [List.length_append]
        omega
      have hnext := ih hlen hrest (find_searched hd hlen hrest)
      rw [hsearch] at hread
      rw [hwhole, hread]
      cases hall : search delimiter (text ++ chunk ++ chunks.flatten) with
      | none =>
        rw [hall] at hnext
        exact hnext
      | some place =>
        rw [hall] at hnext
        obtain ⟨n, hn, hfound, hlate⟩ := hnext
        refine ⟨n + 1, Nat.succ_le_succ hn, ?_, .inr ?_⟩
        · rw [List.take_succ_cons, List.flatten_cons, ← List.append_assoc]
          exact hfound
        · rcases hlate with rfl | hlate
          · rw [List.take_zero, List.flatten_nil, List.append_nil]
            exact hsearch
          · cases n with
            | zero =>
              rw [List.take_zero, List.flatten_nil, List.append_nil]
              exact hsearch
            | succ n =>
              rw [Nat.add_sub_cancel, List.take_succ_cons, List.flatten_cons, ← List.append_assoc]
              exact hlate

/-- A read to a delimiter, which searches no byte twice but those that it may stand across,
finds its first occurrence in the text and all that the stream gives, whatever the chunks,
and reads none beyond the chunk that completes it. Where there is none it has the whole
text when the stream fails. -/
theorem read_until_first {delimiter : List UInt8} (hd : delimiter ≠ []) (text : List UInt8)
    (chunks : List (List UInt8)) {ec : Option Code} (hec : ∀ e ∈ ec, e ≠ .success) :
    match search delimiter (text ++ chunks.flatten) with
    | none => readUntil delimiter 0 text (readsOf chunks ec) =
        ec.elim (.waiting (text ++ chunks.flatten)) (.failed · (text ++ chunks.flatten))
    | some place => ∃ n ≤ chunks.length, readUntil delimiter 0 text (readsOf chunks ec) =
          .found (place + delimiter.length) (text ++ (chunks.take n).flatten) ∧
        (n = 0 ∨ search delimiter (text ++ (chunks.take (n - 1)).flatten) = none) :=
  readUntil_searched hd hec chunks (Nat.zero_le _) fun place hplace => by
    have hpos := List.length_pos_iff.mpr hd
    omega

/-- The delimiter stands across two chunks. -/
theorem read_until_first_across :
    let delimiter : List UInt8 := [13, 10]
    let chunks : List (List UInt8) := [[66, 13], [10, 67], [68]]
    match search delimiter ([65] ++ chunks.flatten) with
    | none => readUntil delimiter 0 [65] (readsOf chunks none) =
        Option.elim none (.waiting ([65] ++ chunks.flatten)) (.failed · ([65] ++ chunks.flatten))
    | some place => ∃ n ≤ chunks.length, readUntil delimiter 0 [65] (readsOf chunks none) =
          .found (place + delimiter.length) ([65] ++ (chunks.take n).flatten) ∧
        (n = 0 ∨ search delimiter ([65] ++ (chunks.take (n - 1)).flatten) = none) :=
  @read_until_first [13, 10] (by decide) [65] [[66, 13], [10, 67], [68]] none nofun

end BitcoinNetwork.Io
