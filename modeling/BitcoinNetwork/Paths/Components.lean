import Mathlib.Data.List.Basic

/-!
# Paths and their components

A path is text in which separators stand between the components. One path continues
another by text exactly if it is the other followed by more text, and by components only
if the text is cut where a component ends.
-/

namespace Paths
variable {Symbol : Type} [DecidableEq Symbol]

/-- The components of a path behind the begin of one. -/
def componentsFrom (sep : Symbol) (begun : List Symbol) : List Symbol → List (List Symbol)
  | [] => if begun = [] then [] else [begun]
  | c :: path =>
    if c = sep then
      if begun = [] then componentsFrom sep [] path else begun :: componentsFrom sep [] path
    else componentsFrom sep (begun ++ [c]) path

/-- The components of a path, in order, which are not empty. -/
def components (sep : Symbol) (path : List Symbol) : List (List Symbol) :=
  componentsFrom sep [] path

/-- A path has the components of another, and others behind them. -/
def Below (sep : Symbol) (base path : List Symbol) : Prop :=
  ∃ more, more ≠ [] ∧ components sep path = components sep base ++ more

variable {sep : Symbol}

/-- A path that ends between components is followed by the components of what is behind it. -/
theorem componentsFrom_append {begun base : List Symbol} (rest : List Symbol)
    (h : base = [] ∧ begun = [] ∨ base.getLast? = some sep) :
    componentsFrom sep begun (base ++ rest) =
      componentsFrom sep begun base ++ components sep rest := by
  induction base generalizing begun with
  | nil =>
    rcases h with ⟨_, rfl⟩ | h
    · simp [componentsFrom, components]
    · cases h
  | cons c base ih =>
    rcases h with ⟨h, _⟩ | h
    · cases h
    have hlast (hne : base ≠ []) : base.getLast? = some sep := by
      rwa [List.getLast?_cons_of_ne_nil hne] at h
    rw [List.cons_append, componentsFrom, componentsFrom]
    by_cases hc : c = sep
    · have hrest : componentsFrom sep [] (base ++ rest) =
          componentsFrom sep [] base ++ components sep rest := by
        by_cases hnil : base = []
        · exact ih (.inl ⟨hnil, rfl⟩)
        · exact ih (.inr (hlast hnil))
      rw [if_pos hc, if_pos hc]
      split
      · exact hrest
      · rw [hrest, List.cons_append]
    · have hnil : base ≠ [] := by
        rintro rfl
        exact hc (Option.some.inj h)
      rw [if_neg hc, if_neg hc]
      exact ih (.inr (hlast hnil))

theorem components_append {base : List Symbol} (rest : List Symbol)
    (h : base = [] ∨ base.getLast? = some sep) :
    components sep (base ++ rest) = components sep base ++ components sep rest :=
  componentsFrom_append rest (h.imp_left fun hnil => ⟨hnil, rfl⟩)

theorem componentsFrom_concat (begun base : List Symbol) :
    componentsFrom sep begun (base ++ [sep]) = componentsFrom sep begun base := by
  induction base generalizing begun with
  | nil =>
    simp only [List.nil_append, componentsFrom, if_true]
  | cons c base ih =>
    rw [List.cons_append, componentsFrom, componentsFrom, ih, ih]

/-- A separator ends a component, if one was begun. -/
theorem components_append_sep (base rest : List Symbol) :
    components sep (base ++ sep :: rest) = components sep base ++ components sep rest := by
  have hlast : (base ++ [sep]).getLast? = some sep := by simp
  have happend := components_append rest (.inr hlast)
  rw [List.append_assoc, List.singleton_append] at happend
  rw [happend, components, componentsFrom_concat]
  rfl

theorem componentsFrom_begun {begun : List Symbol} (hbegun : begun ≠ []) (path : List Symbol) :
    ∃ first more, componentsFrom sep begun path = first :: more ∧ begun.length ≤ first.length := by
  induction path generalizing begun with
  | nil => exact ⟨begun, [], by rw [componentsFrom, if_neg hbegun], Nat.le_refl _⟩
  | cons c path ih =>
    rw [componentsFrom, if_neg hbegun]
    split
    · exact ⟨begun, _, rfl, Nat.le_refl _⟩
    · obtain ⟨first, more, heq, hle⟩ := ih (List.append_ne_nil_of_right_ne_nil begun
        (List.cons_ne_nil c []))
      rw [List.length_append, List.length_singleton] at hle
      exact ⟨first, more, heq, by omega⟩

/-- Within a component the text behind goes on with it. -/
theorem componentsFrom_within {begun base : List Symbol} {c : Symbol} (rest : List Symbol)
    (hc : c ≠ sep) (h : base = [] ∧ begun ≠ [] ∨ base ≠ [] ∧ base.getLast? ≠ some sep) :
    ∃ done last longer more, componentsFrom sep begun base = done ++ [last] ∧
      componentsFrom sep begun (base ++ c :: rest) = done ++ longer :: more ∧
      last.length < longer.length := by
  induction base generalizing begun with
  | nil =>
    rcases h with ⟨_, hbegun⟩ | ⟨h, _⟩
    · obtain ⟨longer, more, heq, hle⟩ := @componentsFrom_begun _ _ sep (begun ++ [c])
        (List.append_ne_nil_of_right_ne_nil begun (List.cons_ne_nil c [])) rest
      rw [List.length_append, List.length_singleton] at hle
      refine ⟨[], begun, longer, more, ?_, ?_, by omega⟩
      · rw [componentsFrom, if_neg hbegun]
        rfl
      · rw [List.nil_append, componentsFrom, if_neg hc, heq]
        rfl
    · exact absurd rfl h
  | cons b base ih =>
    rcases h with ⟨h, _⟩ | ⟨_, hlast⟩
    · cases h
    rw [List.cons_append, componentsFrom, componentsFrom]
    by_cases hb : b = sep
    · have hnil : base ≠ [] := by
        rintro rfl
        exact hlast (congrArg some hb)
      rw [List.getLast?_cons_of_ne_nil hnil] at hlast
      obtain ⟨done, last, longer, more, hbase, happend, hlt⟩ :=
        @ih [] (.inr ⟨hnil, hlast⟩)
      rw [if_pos hb, if_pos hb, hbase, happend]
      split
      · exact ⟨done, last, longer, more, rfl, rfl, hlt⟩
      · exact ⟨begun :: done, last, longer, more, rfl, rfl, hlt⟩
    · rw [if_neg hb, if_neg hb]
      by_cases hnil : base = []
      · exact ih (.inl ⟨hnil, List.append_ne_nil_of_right_ne_nil begun (List.cons_ne_nil b [])⟩)
      · rw [List.getLast?_cons_of_ne_nil hnil] at hlast
        exact ih (.inr ⟨hnil, hlast⟩)

theorem components_ne_nil_iff (path : List Symbol) :
    components sep path ≠ [] ↔ ∃ c ∈ path, c ≠ sep := by
  induction path with
  | nil => exact iff_of_false (fun h => h rfl) (by simp)
  | cons c path ih =>
    unfold components at ih ⊢
    rw [componentsFrom]
    by_cases hc : c = sep
    · rw [if_pos hc, if_pos rfl, ih]
      simp [hc]
    · obtain ⟨first, more, heq, _⟩ := @componentsFrom_begun _ _ sep [c] (List.cons_ne_nil c []) path
      rw [if_neg hc, List.nil_append, heq]
      exact iff_of_true (List.cons_ne_nil first more) ⟨c, List.mem_cons_self, hc⟩

/-- A path that continues another by text is below it exactly if the text is cut between
components, and there is a component behind the cut. -/
theorem below_append_iff (base rest : List Symbol) : Below sep base (base ++ rest) ↔
    (base = [] ∨ base.getLast? = some sep ∨ rest.head? = some sep) ∧ ∃ c ∈ rest, c ≠ sep := by
  have hcut (heq : components sep (base ++ rest) = components sep base ++ components sep rest) :
      Below sep base (base ++ rest) ↔ ∃ c ∈ rest, c ≠ sep := by
    rw [← components_ne_nil_iff]
    unfold Below
    rw [heq]
    exact ⟨fun ⟨_, hne, hmore⟩ => List.append_cancel_left hmore ▸ hne, fun hne => ⟨_, hne, rfl⟩⟩
  by_cases hbase : base = [] ∨ base.getLast? = some sep
  · rw [hcut (components_append rest hbase), ← or_assoc]
    simp [hbase]
  rw [not_or] at hbase
  obtain ⟨hne, hlast⟩ := hbase
  cases rest with
  | nil =>
    refine iff_of_false ?_ (by simp)
    rintro ⟨more, hmore, heq⟩
    rw [List.append_nil] at heq
    exact hmore (List.append_right_eq_self.mp heq.symm)
  | cons c rest =>
    by_cases hc : c = sep
    · subst hc
      have hsep : components c (c :: rest) = components c rest := by
        rw [components, componentsFrom, if_pos rfl, if_pos rfl]
        rfl
      rw [hcut (by rw [components_append_sep, hsep])]
      simp
    · refine iff_of_false ?_ fun h => ?_
      · rintro ⟨more, _, heq⟩
        obtain ⟨done, last, longer, others, hbase, happend, hlt⟩ :=
          @componentsFrom_within _ _ sep [] base c rest hc (.inr ⟨hne, hlast⟩)
        rw [components, components, hbase, happend, List.append_assoc,
          List.append_cancel_left_eq] at heq
        rw [(List.cons.inj heq).1] at hlt
        exact Nat.lt_irrefl _ hlt
      · rcases h.1 with h | h | h
        · exact hne h
        · exact hlast h
        · exact hc (Option.some.inj h)

end Paths
