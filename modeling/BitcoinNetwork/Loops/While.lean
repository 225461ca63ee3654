import Mathlib.Data.Nat.Notation
import Mathlib.Tactic.Basic

/-!
# Loops

A loop goes round while its condition holds of its variables. What a round keeps holds
where the loop is left, and a loop whose rounds lower a number is left.
-/

namespace While

variable {S T : Type} {holds : S → Bool} {body : S → S} {holds' : T → Bool} {body' : T → T}

/-- The variables behind the loop, if it is left within so many rounds. -/
def run (holds : S → Bool) (body : S → S) : ℕ → S → Option S
  | 0, s => if holds s then none else some s
  | fuel + 1, s => if holds s then run holds body fuel (body s) else some s

/-- The variables at the front of a round, or behind the loop. -/
inductive Reaches (holds : S → Bool) (body : S → S) (start : S) : S → Prop
  | start : Reaches holds body start start
  | round {s : S} : Reaches holds body start s → holds s = true → Reaches holds body start (body s)

theorem run_left {s : S} (h : holds s = false) (fuel : ℕ) : run holds body fuel s = some s := by
  cases fuel with
  | zero => exact if_neg (by rw [h]; decide)
  | succ fuel => exact if_neg (by rw [h]; decide)

theorem run_round {s : S} (h : holds s = true) (fuel : ℕ) :
    run holds body (fuel + 1) s = run holds body fuel (body s) := if_pos h

theorem Reaches.invariant {I : S → Prop} {start s : S} (h : Reaches holds body start s)
    (hstart : I start) (hround : ∀ s, I s → holds s = true → I (body s)) : I s := by
  induction h with
  | start => exact hstart
  | round _ hholds ih => exact hround _ ih hholds

/-- The loop is left within so many rounds as the number counts, with what its rounds
keep. -/
theorem run_ends {I : S → Prop} (variant : S → ℕ)
    (hround : ∀ s, I s → holds s = true → I (body s) ∧ variant (body s) < variant s) {start : S}
    (hstart : I start) :
    ∃ s, I s ∧ holds s = false ∧ ∀ fuel, variant start ≤ fuel → run holds body fuel start = some s := by
  induction hn : variant start using Nat.strongRecOn generalizing start with
  | ind n ih =>
    cases hholds : holds start with
    | false => exact ⟨start, hstart, hholds, fun fuel _ => run_left hholds fuel⟩
    | true =>
      obtain ⟨hkept, hlower⟩ := hround start hstart hholds
      obtain ⟨s, hs, hleft, hrun⟩ := ih _ (hn ▸ hlower) hkept rfl
      refine ⟨s, hs, hleft, ?_⟩
      intro fuel hfuel
      obtain ⟨fuel, rfl⟩ : ∃ less, fuel = less + 1 := ⟨fuel - 1, by omega⟩
      rw [run_round hholds]
      exact hrun fuel (by omega)

/-- Two loops that go round together are left together. -/
theorem run_related {R : S → T → Prop} (hholds : ∀ s t, R s t → holds s = holds' t)
    (hround : ∀ s t, R s t → holds s = true → R (body s) (body' t)) {fuel : ℕ} {s s' : S} {t : T}
    (h : R s t) (hrun : run holds body fuel s = some s') :
    ∃ t', run holds' body' fuel t = some t' ∧ R s' t' := by
  induction fuel generalizing s t with
  | zero =>
    cases hs : holds s with
    | false =>
      rw [run_left hs] at hrun
      cases hrun
      exact ⟨t, run_left (hholds _ t h ▸ hs) 0, h⟩
    | true =>
      rw [run, if_pos hs] at hrun
      cases hrun
  | succ fuel ih =>
    cases hs : holds s with
    | false =>
      rw [run_left hs] at hrun
      cases hrun
      exact ⟨t, run_left (hholds _ t h ▸ hs) (fuel + 1), h⟩
    | true =>
      rw [run_round hs] at hrun
      rw [run_round (hholds s t h ▸ hs)]
      exact ih (hround s t h hs) hrun

/-- What one of the two reaches, the other reaches with it. -/
theorem Reaches.related {R : S → T → Prop} (hholds : ∀ s t, R s t → holds s = holds' t)
    (hround : ∀ s t, R s t → holds s = true → R (body s) (body' t)) {s : S} {t t' : T}
    (hreaches : Reaches holds' body' t t') (h : R s t) :
    ∃ s', Reaches holds body s s' ∧ R s' t' := by
  induction hreaches with
  | start => exact ⟨s, .start, h⟩
  | round _ hnext ih =>
    obtain ⟨s', hs', hrelated⟩ := ih
    have hs := (hholds _ _ hrelated).trans hnext
    exact ⟨body s', hs'.round hs, hround _ _ hrelated hs⟩

end While
