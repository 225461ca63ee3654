import Mathlib.Data.List.Basic

/-!
# Programs that wait for a transport

A program asks for bytes, or to have bytes written, and goes on with what comes
of it, and in between it invokes the handler of its caller. The transport has
what the peer sent, in pieces of any size, until it fails.
-/

namespace Async

abbrev Bytes := List UInt8

/-- A program, of which a handler is given a result. -/
inductive Program (α : Type)
  /-- As many bytes are read. -/
  | read (size : ℕ) (next : Except ℕ Bytes → Program α)
  /-- At least one byte is read, and no more than as many. -/
  | readSome (size : ℕ) (next : Except ℕ Bytes → Program α)
  /-- The bytes are written, or an error results. -/
  | write (bytes : Bytes) (next : Option ℕ → Program α)
  | handle (result : α) (next : Program α)
  | stop

/-- What is left to be read, in which pieces, and the error of a read behind it;
the results that writes will have; and the bytes of each write, with its result. -/
structure Transport where
  input : Bytes
  fault : ℕ
  cuts : List ℕ := []
  results : List (Option ℕ) := []
  written : List (Bytes × Option ℕ) := []

namespace Transport

def read (t : Transport) (size : ℕ) : Except ℕ Bytes × Transport :=
  if t.input.length < size then (.error t.fault, { t with input := [] })
  else (.ok (t.input.take size), { t with input := t.input.drop size })

/-- The size of the next piece, of which at most as many bytes are read. -/
def piece (t : Transport) (size : ℕ) : ℕ := min (max 1 (t.cuts.headD size)) size

def readSome (t : Transport) (size : ℕ) : Except ℕ Bytes × Transport :=
  if t.input = [] then (.error t.fault, t)
  else (.ok (t.input.take (t.piece size)),
    { t with input := t.input.drop (t.piece size), cuts := t.cuts.tail })

def write (t : Transport) (bytes : Bytes) : Option ℕ × Transport :=
  (t.results.headD none,
    { t with results := t.results.tail, written := t.written ++ [(bytes, t.results.headD none)] })

theorem read_append (t : Transport) {size : ℕ} (front rest : Bytes)
    (h : t.input = front ++ rest) (hsize : front.length = size) :
    t.read size = (.ok front, { t with input := rest }) := by
  unfold read
  rw [h, ← hsize, if_neg (by rw [List.length_append]; omega), List.take_left, List.drop_left]

theorem read_short (t : Transport) {size : ℕ} (h : t.input.length < size) :
    t.read size = (.error t.fault, { t with input := [] }) := if_pos h

/-- A read takes what is in front, or there is not as much. -/
theorem read_cases (t : Transport) (size : ℕ) :
    (t.input.length < size ∧ t.read size = (.error t.fault, { t with input := [] })) ∨
      ∃ front rest, t.input = front ++ rest ∧ front.length = size ∧
        t.read size = (.ok front, { t with input := rest }) := by
  by_cases h : t.input.length < size
  · exact .inl ⟨h, if_pos h⟩
  · refine .inr ⟨t.input.take size, t.input.drop size, (List.take_append_drop _ _).symm, ?_,
      if_neg h⟩
    rw [List.length_take]
    omega

/-- Each write succeeds. -/
def Accepts (t : Transport) : Prop := ∀ result ∈ t.results, result = none

@[simp] theorem write_input (t : Transport) (bytes : Bytes) :
    (t.write bytes).2.input = t.input := rfl

theorem Accepts.write {t : Transport} (h : t.Accepts) (bytes : Bytes) :
    (t.write bytes).1 = none ∧ (t.write bytes).2.Accepts := by
  constructor
  · show t.results.headD none = none
    cases hresults : t.results with
    | nil => rfl
    | cons result results => exact h result (hresults ▸ List.mem_cons_self)
  · exact fun result hresult => h result (List.mem_of_mem_tail hresult)

end Transport

namespace Program
variable {α : Type}

/-- The results that the handler is given, and the transport that is left. -/
def run : Program α → Transport → List α × Transport
  | .read size next, t => run (next (t.read size).1) (t.read size).2
  | .readSome size next, t => run (next (t.readSome size).1) (t.readSome size).2
  | .write bytes next, t => run (next (t.write bytes).1) (t.write bytes).2
  | .handle result next, t => (result :: (run next t).1, (run next t).2)
  | .stop, t => ([], t)

@[simp] theorem run_read (size : ℕ) (next : Except ℕ Bytes → Program α) (t : Transport) :
    (read size next).run t = (next (t.read size).1).run (t.read size).2 := rfl

@[simp] theorem run_readSome (size : ℕ) (next : Except ℕ Bytes → Program α) (t : Transport) :
    (readSome size next).run t = (next (t.readSome size).1).run (t.readSome size).2 := rfl

@[simp] theorem run_write (bytes : Bytes) (next : Option ℕ → Program α) (t : Transport) :
    (write bytes next).run t = (next (t.write bytes).1).run (t.write bytes).2 := rfl

@[simp] theorem run_handle (result : α) (next : Program α) (t : Transport) :
    (handle result next).run t = (result :: (next.run t).1, (next.run t).2) := rfl

@[simp] theorem run_stop (t : Transport) : (stop : Program α).run t = ([], t) := rfl

/-- A read of what is in front. -/
theorem run_read_append {size : ℕ} (front rest : Bytes) (next : Except ℕ Bytes → Program α)
    (t : Transport) (h : t.input = front ++ rest) (hsize : front.length = size) :
    (read size next).run t = (next (.ok front)).run { t with input := rest } := by
  rw [run_read, t.read_append front rest h hsize]

/-- A write that succeeds. -/
theorem run_write_accepted (bytes : Bytes) (next : Option ℕ → Program α) {t : Transport}
    (h : t.Accepts) : (write bytes next).run t = (next none).run (t.write bytes).2 := by
  rw [run_write, (h.write bytes).1]

/-! ### A handler that is invoked once -/

/-- The handler is invoked once, with a result and a transport as required. -/
def Once (required : α → Transport → Prop) (program : Program α) (t : Transport) : Prop :=
  ∃ result, (program.run t).1 = [result] ∧ required result (program.run t).2

variable {required : α → Transport → Prop}

theorem Once.handle_stop {result : α} {t : Transport} (h : required result t) :
    Once required (.handle result .stop) t := ⟨result, rfl, h⟩

/-- The rule of a read: what follows is shown where there is not as much, and for
what is in front. -/
theorem Once.read {size : ℕ} {next : Except ℕ Bytes → Program α} {t : Transport}
    (short : t.input.length < size →
      Once required (next (.error t.fault)) { t with input := [] })
    (whole : ∀ front rest, t.input = front ++ rest → front.length = size →
      Once required (next (.ok front)) { t with input := rest }) :
    Once required (.read size next) t := by
  rcases t.read_cases size with ⟨hshort, hread⟩ | ⟨front, rest, hinput, hsize, hread⟩
  · show Once required (next (t.read size).1) (t.read size).2
    rw [hread]
    exact short hshort
  · show Once required (next (t.read size).1) (t.read size).2
    rw [hread]
    exact whole front rest hinput hsize

theorem Once.write {bytes : Bytes} {next : Option ℕ → Program α} {t : Transport}
    (h : Once required (next (t.write bytes).1) (t.write bytes).2) :
    Once required (.write bytes next) t := h

end Program

end Async
