import BitcoinNetwork.Async.Transition

/-!
# Notes to a party

A party of a system is sent notes by its events, each of which it answers. It hears them in
order until it answers one with false, or the last is sent.
-/

namespace Async
variable {State Event Note : Type}

/-- What an event is to a party: nothing, a note, or the last one. -/
inductive Address (Note : Type)
  | quiet
  | told (note : Note)
  | ended (note : Note)

/-- The notes that are sent to a party. -/
def notes (address : Event → Address Note) : List Event → List Note
  | [] => []
  | e :: events =>
    match address e with
    | .quiet => notes address events
    | .told note => note :: notes address events
    | .ended note => [note]

/-- What a party has heard of the notes that are sent to it, with its answers: all of them, or
those up to the first that it answered with false. -/
inductive Heard : List Note → List (Note × Bool) → Prop
  | nil : Heard [] []
  | stay (note : Note) {notes : List Note} {heard : List (Note × Bool)} :
      Heard notes heard → Heard (note :: notes) ((note, true) :: heard)
  | leave (note : Note) (notes : List Note) : Heard (note :: notes) [(note, false)]

/-- A party that answers with true hears all of them. -/
theorem Heard.eq_of_stays {notes : List Note} {heard : List (Note × Bool)} (h : Heard notes heard)
    (hstays : ∀ x ∈ heard, x.2 = true) : heard = notes.map (·, true) := by
  induction h with
  | nil => rfl
  | stay note _ ih =>
    rw [List.map_cons, ih fun x hx => hstays x (List.mem_cons_of_mem _ hx)]
  | leave note notes => exact absurd (hstays _ List.mem_cons_self) Bool.false_ne_true

/-- The note that a party has answered with any answer was the last. -/
theorem heard_last (note : Note) (answer : Bool) : Heard [note] [(note, answer)] := by
  cases answer with
  | true => exact .stay note .nil
  | false => exact .leave note []

variable (step : State → Event → State) (address : Event → Address Note)
  (heard : State → List (Note × Bool)) (Held Gone : State → Prop)

/-- A party hears nothing where it is gone. -/
theorem gone_after (hgone : ∀ s e, Gone s → Gone (step s e) ∧ heard (step s e) = heard s) {s : State}
    (hs : Gone s) (events : List Event) : heard (after step s events) = heard s := by
  induction events generalizing s with
  | nil => rfl
  | cons e events ih =>
    obtain ⟨hg, heq⟩ := hgone s e hs
    rw [after_cons, ih hg, heq]

/-- Where a party hears what each event sends to it while it is held, and is gone once it has
answered with false or heard the last, it hears the notes of any run. -/
theorem heard_after
    (hquiet : ∀ s e, Held s → address e = .quiet → Held (step s e) ∧ heard (step s e) = heard s)
    (htold : ∀ s e note, Held s → address e = .told note → ∃ answer,
      heard (step s e) = heard s ++ [(note, answer)] ∧
        if answer then Held (step s e) else Gone (step s e))
    (hended : ∀ s e note, Held s → address e = .ended note → ∃ answer,
      heard (step s e) = heard s ++ [(note, answer)] ∧ Gone (step s e))
    (hgone : ∀ s e, Gone s → Gone (step s e) ∧ heard (step s e) = heard s) {s : State}
    (hs : Held s) (events : List Event) :
    ∃ more, heard (after step s events) = heard s ++ more ∧ Heard (notes address events) more := by
  induction events generalizing s with
  | nil => exact ⟨[], (List.append_nil _).symm, .nil⟩
  | cons e events ih =>
    rw [after_cons, notes]
    cases he : address e with
    | quiet =>
      obtain ⟨hheld, heq⟩ := hquiet s e hs he
      obtain ⟨more, hmore, hheard⟩ := ih hheld
      exact ⟨more, by rw [hmore, heq], hheard⟩
    | told note =>
      obtain ⟨answer, heq, hnext⟩ := htold s e note hs he
      cases answer with
      | true =>
        obtain ⟨more, hmore, hheard⟩ := ih hnext
        refine ⟨(note, true) :: more, ?_, .stay note hheard⟩
        rw [hmore, heq, List.append_assoc]
        rfl
      | false => exact ⟨_, by rw [gone_after step heard Gone hgone hnext, heq], .leave note _⟩
    | ended note =>
      obtain ⟨answer, heq, hnext⟩ := hended s e note hs he
      exact ⟨_, by rw [gone_after step heard Gone hgone hnext, heq], heard_last note answer⟩

end Async
