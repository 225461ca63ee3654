import Mathlib.Data.List.Perm.Basic
import Mathlib.Data.List.Range
import Mathlib.Data.Nat.Notation

/-!
# Results that are evaluated in an order

Expressions that may fail, of which the first to fail in the order they are evaluated in
is the error of them all.
-/

namespace Results

variable {ε α : Type}

def error? : Except ε α → Option ε
  | .error e => some e
  | .ok _ => none

/-- The values of the results, each evaluated behind those in front of it. -/
def all : List (Except ε α) → Except ε (List α)
  | [] => .ok []
  | .error e :: _ => .error e
  | .ok a :: results => (all results).map (a :: ·)

def firstError (order : List ℕ) (results : List (Except ε α)) : Option ε :=
  order.findSome? fun i => results[i]?.bind error?

/-- The values of the results, evaluated in the order of the indexes. -/
def inOrder (order : List ℕ) (results : List (Except ε α)) : Except ε (List α) :=
  match firstError order results with
  | some e => .error e
  | none => all results

theorem all_of_first {results : List (Except ε α)} {e : ε}
    (h : results.findSome? error? = some e) : all results = .error e := by
  induction results with
  | nil => cases h
  | cons result results ih =>
    cases result with
    | error e' =>
      cases h
      rfl
    | ok a =>
      rw [all, ih h]
      rfl

theorem all_of_none {results : List (Except ε α)} (h : results.findSome? error? = none) :
    ∃ values, all results = .ok values ∧ values.length = results.length := by
  induction results with
  | nil => exact ⟨[], rfl, rfl⟩
  | cons result results ih =>
    cases result with
    | error e => cases h
    | ok a =>
      obtain ⟨values, hvalues, hlength⟩ := ih h
      refine ⟨a :: values, ?_, congrArg Nat.succ hlength⟩
      rw [all, hvalues]
      rfl

theorem mem_of_error? {results : List (Except ε α)} {i : ℕ} {e : ε}
    (h : results[i]?.bind error? = some e) : .error e ∈ results := by
  obtain ⟨result, hresult, herror⟩ := Option.bind_eq_some_iff.mp h
  cases result with
  | error e' =>
    cases herror
    exact List.mem_of_getElem? hresult
  | ok a => cases herror

theorem firstError_range (results : List (Except ε α)) :
    firstError (List.range results.length) results = results.findSome? error? := by
  unfold firstError
  induction results with
  | nil => rfl
  | cons result results ih =>
    rw [List.length_cons, List.range_succ_eq_map, List.findSome?_cons, List.findSome?_cons,
      List.findSome?_map]
    cases result with
    | error e => rfl
    | ok a => exact ih

theorem firstError_eq_none_iff {order : List ℕ} {results : List (Except ε α)}
    (h : order.Perm (List.range results.length)) :
    firstError order results = none ↔ results.findSome? error? = none := by
  rw [← firstError_range]
  unfold firstError
  rw [List.findSome?_eq_none_iff, List.findSome?_eq_none_iff]
  constructor
  · intro hnone i hi
    exact hnone i (h.mem_iff.mpr hi)
  · intro hnone i hi
    exact hnone i (h.mem_iff.mp hi)

/-- Another order makes another result of the same expressions only where another of them
is the first to fail. -/
theorem inOrder_eq_all_iff {order : List ℕ} {results : List (Except ε α)}
    (h : order.Perm (List.range results.length)) :
    inOrder order results = all results ↔
      firstError order results = firstError (List.range results.length) results := by
  have hnone := firstError_eq_none_iff h
  rw [firstError_range]
  unfold inOrder
  cases hleft : results.findSome? error? with
  | none =>
    rw [hnone.mpr hleft]
    exact ⟨fun _ => rfl, fun _ => rfl⟩
  | some e =>
    rw [all_of_first hleft]
    cases horder : firstError order results with
    | none => exact absurd (hleft.symm.trans (hnone.mp horder)) (by simp)
    | some e' => rw [Except.error.injEq, Option.some.injEq]

theorem mem_of_inOrder {order : List ℕ} {results : List (Except ε α)} {e : ε}
    (h : order.Perm (List.range results.length)) (herror : inOrder order results = .error e) :
    .error e ∈ results := by
  have hnone := firstError_eq_none_iff h
  unfold inOrder at herror
  cases horder : firstError order results with
  | none =>
    rw [horder] at herror
    obtain ⟨values, hvalues, -⟩ := all_of_none (hnone.mp horder)
    cases hvalues.symm.trans herror
  | some e' =>
    rw [horder] at herror
    cases herror
    obtain ⟨i, -, hi⟩ := List.exists_of_findSome?_eq_some horder
    exact mem_of_error? hi

/-- Left to right is one of the orders. -/
theorem inOrder_range (results : List (Except ε α)) :
    inOrder (List.range results.length) results = all results :=
  (inOrder_eq_all_iff (List.Perm.refl _)).mpr rfl

theorem mem_of_all {results : List (Except ε α)} {e : ε} (h : all results = .error e) :
    .error e ∈ results :=
  mem_of_inOrder (List.Perm.refl _) ((inOrder_range results).trans h)

theorem inOrder_failed_iff {order : List ℕ} {results : List (Except ε α)}
    (h : order.Perm (List.range results.length)) :
    (∃ e, inOrder order results = .error e) ↔ ∃ e, .error e ∈ results := by
  constructor
  · rintro ⟨e, herror⟩
    exact ⟨e, mem_of_inOrder h herror⟩
  · rintro ⟨e, hmem⟩
    unfold inOrder
    cases horder : firstError order results with
    | none =>
      have hnone := (firstError_eq_none_iff h).mp horder
      cases List.findSome?_eq_none_iff.mp hnone _ hmem
    | some e' => exact ⟨e', rfl⟩

end Results
