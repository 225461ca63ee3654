import Mathlib.Data.List.Basic
import Mathlib.Data.Nat.Find

/-!
# The first occurrence of one list in another

A search from the front, what it finds, and what bytes behind a list change of it.
-/

namespace Binary
variable {α : Type}

/-- One list stands in another at a place. -/
def OccursAt (needle list : List α) (place : ℕ) : Prop := needle <+: list.drop place

/-- The place is the first at which it does. -/
def FirstAt (needle list : List α) (place : ℕ) : Prop :=
  OccursAt needle list place ∧ ∀ before < place, ¬OccursAt needle list before

instance [DecidableEq α] (needle list : List α) (place : ℕ) :
    Decidable (OccursAt needle list place) :=
  inferInstanceAs (Decidable (needle <+: list.drop place))

/-- The first occurrence, searched from the front. -/
def search [DecidableEq α] (needle : List α) : List α → Option ℕ
  | [] => if needle = [] then some 0 else none
  | a :: list => if needle <+: a :: list then some 0 else (search needle list).map (· + 1)

theorem OccursAt.end_le {needle list : List α} {place : ℕ} (h : OccursAt needle list place)
    (hneedle : needle ≠ []) : place + needle.length ≤ list.length := by
  have hlength := h.length_le
  have hpos := List.length_pos_iff.mpr hneedle
  rw [List.length_drop] at hlength
  omega

/-- Where it stands, the list is cut in what is before it and what is behind it. -/
theorem OccursAt.cut {needle list : List α} {place : ℕ} (h : OccursAt needle list place) :
    list.take place ++ needle ++ list.drop (place + needle.length) = list := by
  obtain ⟨rest, hrest⟩ := h
  rw [← List.drop_drop, ← hrest, List.drop_left, List.append_assoc, hrest, List.take_append_drop]

/-- An occurrence within the front is one in the whole. -/
theorem occursAt_append {needle list rest : List α} {place : ℕ}
    (h : place + needle.length ≤ list.length) :
    OccursAt needle (list ++ rest) place ↔ OccursAt needle list place := by
  have hdrop : (list ++ rest).drop place = list.drop place ++ rest :=
    List.drop_append_of_le_length (by omega)
  unfold OccursAt
  rw [hdrop]
  constructor
  · intro hfound
    apply List.prefix_of_prefix_length_le hfound (List.prefix_append _ _)
    rw [List.length_drop]
    omega
  · intro hfound
    exact hfound.trans (List.prefix_append _ _)

theorem firstAt_append {needle list rest : List α} {place : ℕ}
    (h : place + needle.length ≤ list.length) :
    FirstAt needle (list ++ rest) place ↔ FirstAt needle list place := by
  unfold FirstAt
  rw [occursAt_append h]
  apply and_congr_right'
  constructor
  · intro hnone before hbefore hfound
    exact hnone before hbefore ((occursAt_append (by omega)).mpr hfound)
  · intro hnone before hbefore hfound
    exact hnone before hbefore ((occursAt_append (by omega)).mp hfound)

theorem FirstAt.unique {needle list : List α} {place other : ℕ} (h : FirstAt needle list place)
    (hother : FirstAt needle list other) : place = other := by
  rcases Nat.lt_trichotomy place other with hlt | heq | hgt
  · exact absurd h.1 (hother.2 place hlt)
  · exact heq
  · exact absurd hother.1 (h.2 other hgt)

/-- Where there is an occurrence there is a first one. -/
theorem OccursAt.exists_first {needle list : List α} {place : ℕ}
    (h : OccursAt needle list place) : ∃ first ≤ place, FirstAt needle list first := by
  classical
  have hexists : ∃ place, OccursAt needle list place := ⟨place, h⟩
  exact ⟨Nat.find hexists, Nat.find_min' hexists h, Nat.find_spec hexists,
    fun before hbefore => Nat.find_min hexists hbefore⟩

theorem firstAt_zero (needle list : List α) : FirstAt needle list 0 ↔ needle <+: list := by
  unfold FirstAt OccursAt
  rw [List.drop_zero]
  exact and_iff_left fun before hbefore => absurd hbefore (Nat.not_lt_zero _)

theorem firstAt_succ {needle list : List α} {a : α} {place : ℕ} (h : ¬needle <+: a :: list) :
    FirstAt needle (a :: list) (place + 1) ↔ FirstAt needle list place := by
  unfold FirstAt OccursAt
  rw [List.drop_succ_cons]
  apply and_congr_right'
  constructor
  · intro hnone before hbefore
    exact hnone (before + 1) (by omega)
  · intro hnone before hbefore
    cases before with
    | zero => exact h
    | succ before => exact hnone before (by omega)

variable [DecidableEq α]

/-- The search finds the first occurrence. -/
theorem search_eq_some {needle list : List α} {place : ℕ} :
    search needle list = some place ↔ place ≤ list.length ∧ FirstAt needle list place := by
  induction list generalizing place with
  | nil =>
    rw [search]
    by_cases hneedle : needle = []
    · subst hneedle
      rw [if_pos rfl]
      constructor
      · intro h
        cases h
        exact ⟨Nat.le_refl _, (firstAt_zero _ _).mpr (List.prefix_refl _)⟩
      · rintro ⟨hle, -⟩
        rw [Nat.le_zero.mp hle]
    · rw [if_neg hneedle]
      constructor
      · intro h
        cases h
      · rintro ⟨-, hfound, -⟩
        exact absurd (List.prefix_nil.mp (by simpa [OccursAt] using hfound)) hneedle
  | cons a list ih =>
    rw [search]
    by_cases hhere : needle <+: a :: list
    · rw [if_pos hhere]
      constructor
      · intro h
        cases h
        exact ⟨Nat.zero_le _, (firstAt_zero _ _).mpr hhere⟩
      · rintro ⟨-, hfirst⟩
        rw [hfirst.unique ((firstAt_zero _ _).mpr hhere)]
    · rw [if_neg hhere, Option.map_eq_some_iff]
      constructor
      · rintro ⟨before, hsearch, rfl⟩
        obtain ⟨hle, hfirst⟩ := ih.mp hsearch
        exact ⟨Nat.succ_le_succ hle, (firstAt_succ hhere).mpr hfirst⟩
      · rintro ⟨hle, hfirst⟩
        cases place with
        | zero => exact absurd ((firstAt_zero _ _).mp hfirst) hhere
        | succ before =>
          exact ⟨before, ih.mpr ⟨Nat.le_of_succ_le_succ hle, (firstAt_succ hhere).mp hfirst⟩, rfl⟩

/-- The search finds nothing where there is no occurrence. -/
theorem search_eq_none {needle list : List α} (hneedle : needle ≠ []) :
    search needle list = none ↔ ∀ place, ¬OccursAt needle list place := by
  rw [Option.eq_none_iff_forall_ne_some]
  constructor
  · intro h place hfound
    obtain ⟨first, -, hfirst⟩ := hfound.exists_first
    have hend := hfirst.1.end_le hneedle
    exact h first (search_eq_some.mpr ⟨by omega, hfirst⟩)
  · intro h place hsearch
    exact h place (search_eq_some.mp hsearch).2.1

end Binary
