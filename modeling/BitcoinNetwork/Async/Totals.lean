import Mathlib.Algebra.BigOperators.Group.List.Basic
import Mathlib.Algebra.GroupWithZero.Nat

/-!
# Totals over parties

A quantity of each party of a system, added up over all of them, and what one party that
changes does to it.
-/

namespace Async
variable {Party : Type}

/-- The sum of a quantity over the parties. -/
def total (f : Party → ℕ) (parties : List Party) : ℕ := (parties.map f).sum

@[simp] theorem total_nil (f : Party → ℕ) : total f [] = 0 := rfl

@[simp] theorem total_cons (f : Party → ℕ) (x : Party) (parties : List Party) :
    total f (x :: parties) = f x + total f parties := by
  unfold total
  rw [List.map_cons, List.sum_cons]

@[simp] theorem total_append (f : Party → ℕ) (parties more : List Party) :
    total f (parties ++ more) = total f parties + total f more := by
  unfold total
  rw [List.map_append, List.sum_append]

/-- A party that becomes another moves the sum by the difference of the two. -/
theorem total_set (f : Party → ℕ) {parties : List Party} {index : ℕ} {x : Party}
    (h : parties[index]? = some x) (y : Party) :
    total f (parties.set index y) + f x = total f parties + f y := by
  induction parties generalizing index with
  | nil => cases h
  | cons z parties ih =>
    cases index with
    | zero =>
      cases h
      rw [List.set_cons_zero, total_cons, total_cons]
      omega
    | succ index =>
      have hset := ih h
      rw [List.set_cons_succ, total_cons, total_cons]
      omega

theorem le_total (f : Party → ℕ) {parties : List Party} {index : ℕ} {x : Party}
    (h : parties[index]? = some x) : f x ≤ total f parties := by
  induction parties generalizing index with
  | nil => cases h
  | cons z parties ih =>
    rw [total_cons]
    cases index with
    | zero =>
      cases h
      omega
    | succ index =>
      have hle := ih h
      omega

/-- A sum that is not zero has a party to it. -/
theorem exists_of_total {f : Party → ℕ} {parties : List Party} (h : 0 < total f parties) :
    ∃ x ∈ parties, 0 < f x := by
  induction parties with
  | nil => exact absurd h (Nat.lt_irrefl 0)
  | cons z parties ih =>
    rw [total_cons] at h
    by_cases hz : 0 < f z
    · exact ⟨z, List.mem_cons_self, hz⟩
    · obtain ⟨x, hx, hpos⟩ := ih (by omega)
      exact ⟨x, List.mem_cons_of_mem z hx, hpos⟩

/-- A quantity that changes for one of the first parties moves their sum by as much. -/
theorem total_range {f g : ℕ → ℕ} {k n : ℕ} (h : ∀ j ≠ k, f j = g j) (hk : k < n) :
    total f (List.range n) + g k = total g (List.range n) + f k := by
  induction n with
  | zero => exact absurd hk (Nat.not_lt_zero k)
  | succ n ih =>
    rw [List.range_succ, total_append, total_append, total_cons, total_cons, total_nil, total_nil]
    by_cases heq : k = n
    · subst heq
      have hsame : total f (List.range k) = total g (List.range k) := by
        unfold total
        refine congrArg List.sum (List.map_congr_left fun j hj => h j ?_)
        exact Nat.ne_of_lt (List.mem_range.mp hj)
      omega
    · have hn := h n (Ne.symm heq)
      have hle := ih (by omega)
      omega

end Async
