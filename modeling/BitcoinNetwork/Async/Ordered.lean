import Mathlib.Data.List.Sort

/-!
# Insertion by one order into a list of another

A list that is in one order may be searched by another for the place of an element: one with
equal keys is put behind those equal to it where the search is strict.
-/

namespace Async
variable {α : Type} {r s : α → α → Prop} [DecidableRel r]

/-- The order of a list is kept where the search tells on which side an element is of it. -/
theorem pairwise_orderedInsert (htrans : ∀ x y z, s x y → s y z → s x z) {a : α} {xs : List α}
    (hfront : ∀ x ∈ xs, r a x → s a x) (hbehind : ∀ x ∈ xs, ¬r a x → s x a)
    (h : xs.Pairwise s) : (xs.orderedInsert r a).Pairwise s := by
  induction xs with
  | nil => exact List.pairwise_singleton _ _
  | cons x xs ih =>
    obtain ⟨hx, hxs⟩ := List.pairwise_cons.mp h
    rw [List.orderedInsert_cons]
    split
    · next hr =>
      have hax := hfront x List.mem_cons_self hr
      apply List.Pairwise.cons _ h
      intro y hy
      rcases List.mem_cons.mp hy with rfl | hmem
      · exact hax
      · exact htrans a x y hax (hx y hmem)
    · next hr =>
      have hxa := hbehind x List.mem_cons_self hr
      apply List.Pairwise.cons _ (ih (fun y hy => hfront y (List.mem_cons_of_mem _ hy))
        (fun y hy => hbehind y (List.mem_cons_of_mem _ hy)) hxs)
      intro y hy
      rcases List.mem_cons.mp ((List.perm_orderedInsert r a xs).mem_iff.mp hy) with rfl | hmem
      · exact hxa
      · exact hx y hmem

end Async
