import Mathlib.Data.List.Induction
import Mathlib.Order.Lattice

/-!
# The records of a sequence

A record is a value that is greater than every record before it. They are what
is left of a sequence once each value that comes late, or again, is dropped.
-/

namespace Incremental
variable {α : Type*} [LinearOrder α]

/-- The records, with one more value. -/
def addRecord (records : List α) (value : α) : List α :=
  if ∀ record ∈ records, record < value then records ++ [value] else records

/-- The records of a sequence. -/
def records (values : List α) : List α := values.foldl addRecord []

@[simp] theorem records_nil : records ([] : List α) = [] := rfl

theorem records_concat (values : List α) (value : α) :
    records (values ++ [value]) = addRecord (records values) value := by
  unfold records
  rw [List.foldl_append, List.foldl_cons, List.foldl_nil]

/-- The records are values of the sequence, in its order. -/
theorem records_sublist (values : List α) : (records values).Sublist values := by
  induction values using List.reverseRecOn with
  | nil => exact List.Sublist.refl _
  | append_singleton values value ih =>
    rw [records_concat, addRecord]
    split
    next => exact ih.append (List.Sublist.refl _)
    next => exact ih.trans (List.sublist_append_left _ _)

/-- All values of a sequence in order are records. -/
theorem records_of_pairwise {values : List α} (h : values.Pairwise (· < ·)) :
    records values = values := by
  induction values using List.reverseRecOn with
  | nil => rfl
  | append_singleton values value ih =>
    obtain ⟨hvalues, -, hlast⟩ := List.pairwise_append.mp h
    rw [records_concat, ih hvalues, addRecord, if_pos]
    intro record hrecord
    exact hlast record hrecord value (List.mem_singleton_self _)

end Incremental
