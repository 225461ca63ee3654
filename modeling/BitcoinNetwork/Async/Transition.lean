import Mathlib.Data.List.Basic

/-!
# Runs of a system that takes events

A system has a state and takes one event after another, in any order. An event
that a state has no use for leaves it as it is.
-/

namespace Async
variable {State Event : Type}

/-- The state behind events, one after another. -/
def after (step : State → Event → State) (s : State) (events : List Event) : State :=
  events.foldl step s

variable {step : State → Event → State}

@[simp] theorem after_nil (s : State) : after step s [] = s := rfl

@[simp] theorem after_cons (s : State) (e : Event) (events : List Event) :
    after step s (e :: events) = after step (step s e) events := rfl

theorem after_append (s : State) (events more : List Event) :
    after step s (events ++ more) = after step (after step s events) more :=
  List.foldl_append

/-- What holds at first and is preserved by each step holds behind any events. -/
theorem after_invariant {P : State → Prop} (h : ∀ s e, P s → P (step s e)) {s : State} (hs : P s)
    (events : List Event) : P (after step s events) := by
  induction events generalizing s with
  | nil => exact hs
  | cons e events ih => exact ih (h s e hs)

/-- Each event of a run is one that the state that it finds allows. -/
def Along (step : State → Event → State) (P : State → Event → Prop) : State → List Event → Prop
  | _, [] => True
  | s, e :: events => P s e ∧ Along step P (step s e) events

instance decidableAlong {P : State → Event → Prop} [∀ s e, Decidable (P s e)] :
    (s : State) → (events : List Event) → Decidable (Along step P s events)
  | _, [] => isTrue trivial
  | s, e :: events =>
    have : Decidable (Along step P (step s e) events) := decidableAlong (step s e) events
    inferInstanceAs (Decidable (P s e ∧ Along step P (step s e) events))

/-- What holds at first, and is preserved by each step that is allowed, holds behind a run
of which each is. -/
theorem after_along {P : State → Event → Prop} {I : State → Prop}
    (h : ∀ s e, I s → P s e → I (step s e)) {s : State} (hs : I s) {events : List Event}
    (hevents : Along step P s events) : I (after step s events) := by
  induction events generalizing s with
  | nil => exact hs
  | cons e events ih => exact ih (h s e hs hevents.1) hevents.2

/-- Where a state is as it should be by what holds of it, and a step that is not allowed leads
to one that is not, all states of a run are exactly where each event is allowed. -/
theorem along_iff {P : State → Event → Prop} {I Q : State → Prop}
    (h : ∀ s e, I s → P s e → I (step s e)) (hI : ∀ s, I s → Q s)
    (hQ : ∀ s e, I s → Q (step s e) → P s e) {s : State} (hs : I s) (events : List Event) :
    (∀ n ≤ events.length, Q (after step s (events.take n))) ↔ Along step P s events := by
  induction events generalizing s with
  | nil => exact ⟨fun _ => trivial, fun _ n _ => by rw [List.take_nil]; exact hI s hs⟩
  | cons e events ih =>
    constructor
    · intro hall
      have hallowed : P s e := hQ s e hs (hall 1 (by simp))
      refine ⟨hallowed, (ih (h s e hs hallowed)).mp fun n hn => ?_⟩
      exact hall (n + 1) (by simpa using hn)
    · rintro ⟨hallowed, hrest⟩ n hn
      cases n with
      | zero => exact hI s hs
      | succ n => exact (ih (h s e hs hallowed)).mpr hrest n (by simpa using hn)

end Async
