import BitcoinNetwork.Io.Strand

/-!
# Runs of strands

A strand that is scheduled has one run of it posted, or one thread in a call of it, and
one that is not has neither. The rest follows from the stacks being well nested.
-/

namespace BitcoinNetwork.Io
open Async

variable {S T : Type} [DecidableEq S] [DecidableEq T]

namespace Frame

/-- A call that has the strand, a handler apart. -/
@[simp] def token (s : S) : Frame S → Bool
  | .handler _ _ => false
  | .posting s' | .inline s' _ | .running s' _ | .batch s' _ _ | .releasing s' => s' = s

/-- A handler of the strand. -/
@[simp] def handles (s : S) : Frame S → Bool
  | .handler _ strand => strand = some s
  | _ => false

/-- A handler of the strand or of the context. -/
@[simp] def within (s : S) : Frame S → Bool
  | .handler _ strand => strand = some s ∨ strand = none
  | _ => false

/-- The strand is not running in the call, as it is not yet or no longer. -/
@[simp] def leaving : Frame S → Bool
  | .posting _ | .releasing _ => true
  | _ => false

/-- What is left of a batch of the strand. -/
@[simp] def rest (s : S) : Frame S → List ℕ
  | .batch s' rest _ => if s' = s then rest else []
  | _ => []

end Frame

/-! ### Stacks -/

def tokens (s : S) (stack : List (Frame S)) : ℕ := stack.countP (Frame.token s)

def rests (s : S) (stack : List (Frame S)) : List ℕ := stack.flatMap (Frame.rest s)

/-- The call beneath another is not one that is about to return. -/
def Settled (stack : List (Frame S)) : Prop := ∀ f ∈ stack.head?, f.leaving = false

/-- The strand that runs in a thread is that of its calls, and each call restores the one
before it. -/
def Runs (r : Option S) : List (Frame S) → Prop
  | [] => r = none
  | .handler _ (some s) :: stack => Settled stack ∧ r = some s ∧ Runs r stack
  | .handler _ none :: stack => Settled stack ∧ Runs r stack
  | .posting _ :: stack | .releasing _ :: stack => Settled stack ∧ Runs r stack
  | .inline s saved :: stack | .running s saved :: stack | .batch s _ saved :: stack =>
    Settled stack ∧ r = some s ∧ Runs saved stack

@[simp] theorem tokens_nil (s : S) : tokens s [] = 0 := rfl

theorem tokens_cons (s : S) (f : Frame S) (stack : List (Frame S)) :
    tokens s (f :: stack) = tokens s stack + if f.token s then 1 else 0 := by
  unfold tokens
  rw [List.countP_cons]

theorem tokens_append (s : S) (above below : List (Frame S)) :
    tokens s (above ++ below) = tokens s above + tokens s below :=
  List.countP_append

@[simp] theorem rests_nil (s : S) : rests s [] = [] := rfl

@[simp] theorem rests_cons (s : S) (f : Frame S) (stack : List (Frame S)) :
    rests s (f :: stack) = f.rest s ++ rests s stack := rfl

/-- A strand that no call of the thread has is in no batch of it. -/
theorem rests_of_tokens {s : S} {stack : List (Frame S)} (h : tokens s stack = 0) :
    rests s stack = [] := by
  induction stack with
  | nil => rfl
  | cons f stack ih =>
    rw [tokens_cons] at h
    have hbelow : tokens s stack = 0 := by omega
    have hf : f.token s = false := by
      cases hf : f.token s with
      | false => rfl
      | true =>
        rw [hf, if_pos rfl] at h
        omega
    rw [rests_cons, ih hbelow, List.append_nil]
    cases f with
    | batch s' rest saved =>
      have hne : s' ≠ s := by simpa using hf
      exact if_neg hne
    | handler | posting | inline | running | releasing => rfl

omit [DecidableEq S] in
/-- What is beneath a call is well nested too. -/
theorem Runs.below {r : Option S} {above below : List (Frame S)} (h : Runs r (above ++ below)) :
    ∃ r', Runs r' below := by
  induction above generalizing r with
  | nil => exact ⟨r, h⟩
  | cons f above ih =>
    cases f with
    | handler id strand =>
      cases strand with
      | none => exact ih h.2
      | some s => exact ih h.2.2
    | posting s => exact ih h.2
    | releasing s => exact ih h.2
    | inline s saved => exact ih h.2.2
    | running s saved => exact ih h.2.2
    | batch s rest saved => exact ih h.2.2

/-- Where a strand runs, the handlers on top are its own or those of the context, down to
the call that has it. -/
theorem Runs.within {s : S} {stack : List (Frame S)} (h : Runs (some s) stack)
    (hsettled : Settled stack) : ∃ block f below, stack = block ++ f :: below ∧
      (∀ g ∈ block, g.within s = true) ∧ f.token s = true ∧ f.handles s = false := by
  induction stack with
  | nil => cases h
  | cons f stack ih =>
    cases f with
    | handler id strand =>
      have hrest : Runs (some s) stack ∧ Settled stack ∧ (Frame.handler id strand).within s = true := by
        cases strand with
        | none => exact ⟨h.2, h.1, by simp⟩
        | some s' =>
          cases h.2.1
          exact ⟨h.2.2, h.1, by simp⟩
      obtain ⟨block, g, below, hstack, hblock, htoken, hhandles⟩ := ih hrest.1 hrest.2.1
      refine ⟨.handler id strand :: block, g, below, congrArg (_ :: ·) hstack, ?_, htoken, hhandles⟩
      intro g' hg'
      rcases List.mem_cons.mp hg' with rfl | hmem
      · exact hrest.2.2
      · exact hblock g' hmem
    | posting s' => exact absurd (hsettled _ rfl) (by simp)
    | releasing s' => exact absurd (hsettled _ rfl) (by simp)
    | inline s' saved =>
      cases h.2.1
      exact ⟨[], _, stack, rfl, fun _ hg => absurd hg List.not_mem_nil, by simp, rfl⟩
    | running s' saved =>
      cases h.2.1
      exact ⟨[], _, stack, rfl, fun _ hg => absurd hg List.not_mem_nil, by simp, rfl⟩
    | batch s' rest saved =>
      cases h.2.1
      exact ⟨[], _, stack, rfl, fun _ hg => absurd hg List.not_mem_nil, by simp, rfl⟩

/-- A handler of the strand in progress, and what is beneath it. -/
theorem Runs.handles {r : Option S} {s : S} {f : Frame S} {stack : List (Frame S)}
    (h : Runs r (f :: stack)) (hf : f.handles s = true) : Runs (some s) (f :: stack) := by
  cases f with
  | handler id strand =>
    have hs : strand = some s := by simpa using hf
    subst hs
    exact h.2.1 ▸ h
  | posting | releasing | inline | running | batch => cases hf

theorem settled_handles {s : S} {f : Frame S} {stack : List (Frame S)} (hf : f.handles s = true) :
    Settled (f :: stack) := by
  intro g hg
  cases hg
  cases f with
  | handler id strand => rfl
  | posting | releasing | inline | running | batch => cases hf

/-- A thread with a handler of the strand in progress is in a call that has it. -/
theorem Runs.tokens_pos {r : Option S} {s : S} {stack : List (Frame S)} (h : Runs r stack)
    {f : Frame S} (hmem : f ∈ stack) (hf : f.handles s = true) : 0 < tokens s stack := by
  obtain ⟨above, below, rfl⟩ := List.append_of_mem hmem
  obtain ⟨r', hr'⟩ := h.below
  obtain ⟨block, g, below', hstack, _, htoken, _⟩ :=
    (hr'.handles hf).within (settled_handles hf)
  rw [hstack, tokens_append, tokens_append, tokens_cons, if_pos htoken]
  omega

/-- The handlers of a strand that are in progress in a thread. -/
structure Nested (s : S) (stack : List (Frame S)) : Prop where
  split : ∃ above block below, stack = above ++ block ++ below ∧
    (∀ f ∈ above, f.handles s = false) ∧ (∀ f ∈ block, f.within s = true) ∧
    ∀ f ∈ below, f.handles s = false

theorem Runs.nested {r : Option S} {s : S} {stack : List (Frame S)} (h : Runs r stack)
    (hone : tokens s stack ≤ 1) : Nested s stack := by
  by_cases hnone : ∀ f ∈ stack, f.handles s = false
  · exact ⟨stack, [], [], by simp, hnone, fun _ hf => absurd hf List.not_mem_nil,
      fun _ hf => absurd hf List.not_mem_nil⟩
  -- The first handler of the strand from the top, and all that is beneath it.
  have hsome : stack.find? (Frame.handles s) ≠ none := by
    intro hfind
    exact hnone fun f hf => by simpa using List.find?_eq_none.mp hfind f hf
  obtain ⟨f, hf⟩ := Option.ne_none_iff_exists'.mp hsome
  obtain ⟨hhandles, above, below, rfl, habove⟩ := List.find?_eq_some_iff_append.mp hf
  obtain ⟨r', hr'⟩ := h.below
  obtain ⟨block, g, rest, hstack, hblock, htoken, _⟩ :=
    (hr'.handles hhandles).within (settled_handles hhandles)
  rw [hstack] at h hone hr' ⊢
  refine ⟨above, block, g :: rest, (List.append_assoc ..).symm, fun f' hf' => by simpa using habove f' hf',
    hblock, ?_⟩
  intro f' hf'
  rcases List.mem_cons.mp hf' with rfl | hmem
  · cases f' with
    | handler => cases htoken
    | posting | releasing | inline | running | batch => rfl
  · by_contra hne
    rw [Bool.not_eq_false] at hne
    have hrest : ∃ r'', Runs r'' rest :=
      Runs.below (r := r') (show Runs r' ((block ++ [g]) ++ rest) by rw [List.append_assoc]; exact hr')
    obtain ⟨r'', hr''⟩ := hrest
    have hpos := hr''.tokens_pos hmem hne
    rw [tokens_append, tokens_append, tokens_cons, if_pos htoken] at hone
    omega

/-! ### Who has a strand -/

/-- A strand is idle, a run of it is posted, or a thread is in a call that has it. -/
inductive Holder (T : Type)
  | idle
  | posted
  | thread (t : T)
  deriving DecidableEq

/-- The handlers given to a strand from outside of it, in order. -/
def outer (given : List Given) : List Given := given.filter (·.nested = false)

/-- The handlers queued in a strand or in a batch, as they were given. -/
def outers (ids : List ℕ) : List Given := ids.map fun id => ⟨id, false⟩

@[simp] theorem outer_append (given more : List Given) :
    outer (given ++ more) = outer given ++ outer more :=
  List.filter_append ..

@[simp] theorem outer_outside (id : ℕ) : outer [⟨id, false⟩] = [⟨id, false⟩] := rfl

@[simp] theorem outer_nested (id : ℕ) : outer [⟨id, true⟩] = [] := rfl

@[simp] theorem outers_append (ids more : List ℕ) : outers (ids ++ more) = outers ids ++ outers more :=
  List.map_append

@[simp] theorem outers_nil : outers [] = [] := rfl

@[simp] theorem outers_cons (id : ℕ) (ids : List ℕ) : outers (id :: ids) = ⟨id, false⟩ :: outers ids :=
  rfl

namespace Executors

/-- The batch of the strand that is being run. -/
def batch (σ : Executors S T) (s : S) : Holder T → List ℕ
  | .thread t => rests s (σ.stack t)
  | _ => []

/-- Who has the strand, and where its handlers are. -/
structure Held (σ : Executors S T) (s : S) (h : Holder T) : Prop where
  scheduled : (σ.strands s).scheduled = true ↔ h ≠ .idle
  jobs : σ.jobs.count (.run s) = if h = .posted then 1 else 0
  tokens : ∀ t, tokens s (σ.stack t) = if h = .thread t then 1 else 0
  order : outer (σ.strands s).given =
    outer (σ.strands s).begun ++ outers (σ.batch s h ++ (σ.strands s).queue)
  idle : h = .idle → (σ.strands s).queue = []

/-- The handlers given to a strand have numbers of their own. -/
structure Numbered (σ : Executors S T) (s : S) : Prop where
  below : ∀ g ∈ (σ.strands s).given, g.id < σ.count
  distinct : ((σ.strands s).given.map Given.id).Nodup

structure Inv (σ : Executors S T) : Prop where
  runs : ∀ t, Runs (σ.running t) (σ.stack t)
  held : ∀ s, ∃ h, σ.Held s h
  numbered : ∀ s, σ.Numbered s

variable {σ σ' : Executors S T} {s : S} {t : T} {h h' : Holder T}

/-- The calls that have a strand, and the strand itself, are left as they are. -/
theorem Held.same (hh : σ.Held s h) (hscheduled : (σ'.strands s).scheduled = (σ.strands s).scheduled)
    (hqueue : (σ'.strands s).queue = (σ.strands s).queue)
    (hgiven : outer (σ'.strands s).given = outer (σ.strands s).given)
    (hbegun : outer (σ'.strands s).begun = outer (σ.strands s).begun)
    (hjobs : σ'.jobs.count (.run s) = σ.jobs.count (.run s))
    (hother : ∀ t' ≠ t, σ'.stack t' = σ.stack t')
    (htokens : Io.tokens s (σ'.stack t) = Io.tokens s (σ.stack t))
    (hrests : rests s (σ'.stack t) = rests s (σ.stack t)) : σ'.Held s h := by
  have hstack (t' : T) : Io.tokens s (σ'.stack t') = Io.tokens s (σ.stack t') ∧
      rests s (σ'.stack t') = rests s (σ.stack t') := by
    by_cases heq : t' = t
    · subst heq
      exact ⟨htokens, hrests⟩
    · rw [hother t' heq]
      exact ⟨rfl, rfl⟩
  refine ⟨by rw [hscheduled]; exact hh.scheduled, hjobs.trans hh.jobs,
    fun t' => (hstack t').1.trans (hh.tokens t'), ?_, by rw [hqueue]; exact hh.idle⟩
  have hbatch : σ'.batch s h = σ.batch s h := by
    cases h with
    | thread t' => exact (hstack t').2
    | idle | posted => rfl
  rw [hgiven, hbegun, hbatch, hqueue]
  exact hh.order

/-- A step of a thread that has no part of the strand leaves it as it is. -/
theorem Held.frame (hh : σ.Held s h) (hstrand : σ'.strands s = σ.strands s)
    (hjobs : σ'.jobs.count (.run s) = σ.jobs.count (.run s))
    (hother : ∀ t' ≠ t, σ'.stack t' = σ.stack t')
    (htokens : Io.tokens s (σ'.stack t) = Io.tokens s (σ.stack t))
    (hrests : rests s (σ'.stack t) = rests s (σ.stack t)) : σ'.Held s h := by
  refine hh.same (t := t) ?_ ?_ ?_ ?_ hjobs hother htokens hrests
  all_goals rw [hstrand]

/-- A thread in a call that has the strand is the one that has it. -/
theorem Held.holder (hh : σ.Held s h) (hpos : 0 < Io.tokens s (σ.stack t)) : h = .thread t := by
  by_contra hne
  have htokens := hh.tokens t
  rw [if_neg hne] at htokens
  omega

/-- The threads other than one are not in a call of a strand that this one has, or that it
takes from the context. -/
theorem Held.others (hh : σ.Held s h) (hmine : ∀ t', h = .thread t' → t' = t)
    (hother : ∀ t' ≠ t, σ'.stack t' = σ.stack t') {t' : T} (hne : t' ≠ t) :
    Io.tokens s (σ'.stack t') = 0 := by
  rw [hother t' hne, hh.tokens t', if_neg fun heq => hne (hmine t' heq)]

/-- The strand is left to the thread of a step. -/
theorem Held.thread (hh : σ.Held s h) (hmine : ∀ t', h = .thread t' → t' = t)
    (hother : ∀ t' ≠ t, σ'.stack t' = σ.stack t')
    (hscheduled : (σ'.strands s).scheduled = true)
    (hjobs : σ'.jobs.count (.run s) = 0) (htokens : Io.tokens s (σ'.stack t) = 1)
    (horder : outer (σ'.strands s).given = outer (σ'.strands s).begun ++
      outers (rests s (σ'.stack t) ++ (σ'.strands s).queue)) : σ'.Held s (.thread t) := by
  refine ⟨⟨fun _ => by simp, fun _ => hscheduled⟩, ?_, ?_, horder,
    fun heq => by cases heq⟩
  · rw [if_neg fun heq => by cases heq]
    exact hjobs
  · intro t'
    by_cases heq : t' = t
    · subst heq
      rw [if_pos rfl]
      exact htokens
    · rw [if_neg fun hthread => heq (Holder.thread.inj hthread).symm]
      exact hh.others hmine hother heq

/-- The strand is left by the thread of a step, to a run that is posted or to none. -/
theorem Held.leave (hh : σ.Held s (.thread t)) (hother : ∀ t' ≠ t, σ'.stack t' = σ.stack t')
    (hh' : ∀ t', h' ≠ .thread t')
    (hscheduled : (σ'.strands s).scheduled = true ↔ h' ≠ .idle)
    (hjobs : σ'.jobs.count (.run s) = if h' = .posted then 1 else 0)
    (htokens : Io.tokens s (σ'.stack t) = 0)
    (horder : outer (σ'.strands s).given =
      outer (σ'.strands s).begun ++ outers (σ'.strands s).queue)
    (hidle : h' = .idle → (σ'.strands s).queue = []) : σ'.Held s h' := by
  refine ⟨hscheduled, hjobs, ?_, ?_, hidle⟩
  · intro t'
    rw [if_neg (hh' t')]
    by_cases heq : t' = t
    · subst heq
      exact htokens
    · exact hh.others (fun _ hthread => (Holder.thread.inj hthread).symm) hother heq
  · have hbatch : σ'.batch s h' = [] := by
      cases h' with
      | idle => rfl
      | posted => rfl
      | thread t' => exact absurd rfl (hh' t')
    rw [hbatch]
    exact horder

/-! ### Posts and dispatches -/

omit [DecidableEq S] in
theorem settled_calling {stack : List (Frame S)} (h : calling stack = true) : Settled stack := by
  intro f hf
  cases stack with
  | nil => cases hf
  | cons g stack =>
    cases hf
    cases f with
    | handler id strand => rfl
    | posting | inline | running | batch | releasing => cases h

omit [DecidableEq S] [DecidableEq T] in
/-- A handler with a new number. -/
theorem Numbered.given (hn : σ.Numbered s) {nested : Bool}
    (hgiven : (σ'.strands s).given = (σ.strands s).given ++ [⟨σ.count, nested⟩])
    (hcount : σ'.count = σ.count + 1) : σ'.Numbered s := by
  refine ⟨?_, ?_⟩
  · intro g hg
    rw [hgiven] at hg
    rw [hcount]
    rcases List.mem_append.mp hg with hold | hnew
    · exact Nat.lt_succ_of_lt (hn.below g hold)
    · rw [List.mem_singleton.mp hnew]
      exact Nat.lt_succ_self _
  · rw [hgiven, List.map_append]
    refine List.nodup_append.mpr ⟨hn.distinct, by simp, ?_⟩
    intro id hid id' hid' heq
    obtain ⟨g, hg, rfl⟩ := List.mem_map.mp hid
    rw [List.map_cons, List.map_nil, List.mem_singleton] at hid'
    exact Nat.lt_irrefl _ (hid' ▸ heq ▸ hn.below g hg)

omit [DecidableEq S] [DecidableEq T] in
theorem Numbered.keep (hn : σ.Numbered s) (hgiven : (σ'.strands s).given = (σ.strands s).given)
    (hcount : σ.count ≤ σ'.count) : σ'.Numbered s :=
  ⟨fun g hg => Nat.lt_of_lt_of_le (hn.below g (hgiven ▸ hg)) hcount, hgiven ▸ hn.distinct⟩

/-- A step of one thread that has to do with one strand at most. -/
structure Local (σ σ' : Executors S T) (t : T) (s : S) : Prop where
  strands : ∀ s' ≠ s, σ'.strands s' = σ.strands s'
  jobs : ∀ s' ≠ s, σ'.jobs.count (.run s') = σ.jobs.count (.run s')
  stack : ∀ t' ≠ t, σ'.stack t' = σ.stack t'
  running : ∀ t' ≠ t, σ'.running t' = σ.running t'
  tokens : ∀ s' ≠ s, Io.tokens s' (σ'.stack t) = Io.tokens s' (σ.stack t)
  rests : ∀ s' ≠ s, Io.rests s' (σ'.stack t) = Io.rests s' (σ.stack t)
  count : σ.count ≤ σ'.count

theorem Inv.local (hi : σ.Inv) (hl : Local σ σ' t s) (hruns : Runs (σ'.running t) (σ'.stack t))
    (hheld : ∀ h, σ.Held s h → ∃ h', σ'.Held s h')
    (hgiven : (σ'.strands s).given = (σ.strands s).given ∨
      (∃ nested, (σ'.strands s).given = (σ.strands s).given ++ [⟨σ.count, nested⟩]) ∧
        σ'.count = σ.count + 1) : σ'.Inv := by
  refine ⟨?_, ?_, ?_⟩
  · intro t'
    by_cases heq : t' = t
    · subst heq
      exact hruns
    · rw [hl.running t' heq, hl.stack t' heq]
      exact hi.runs t'
  · intro s'
    obtain ⟨h, hh⟩ := hi.held s'
    by_cases heq : s' = s
    · subst heq
      exact hheld h hh
    · exact ⟨h, hh.frame (hl.strands s' heq) (hl.jobs s' heq) hl.stack (hl.tokens s' heq)
        (hl.rests s' heq)⟩
  · intro s'
    by_cases heq : s' = s
    · subst heq
      rcases hgiven with hsame | ⟨⟨_, hnew⟩, hcount⟩
      · exact (hi.numbered s').keep hsame hl.count
      · exact (hi.numbered s').given hnew hcount
    · exact (hi.numbered s').keep (congrArg StrandState.given (hl.strands s' heq)) hl.count

/-- A step of one thread that has to do with no strand. -/
theorem Inv.plain (hi : σ.Inv) (hstrands : σ'.strands = σ.strands)
    (hjobs : ∀ s, σ'.jobs.count (.run s) = σ.jobs.count (.run s))
    (hstack : ∀ t' ≠ t, σ'.stack t' = σ.stack t')
    (hrunning : σ'.running = σ.running)
    (htokens : ∀ s, Io.tokens s (σ'.stack t) = Io.tokens s (σ.stack t))
    (hrests : ∀ s, rests s (σ'.stack t) = rests s (σ.stack t)) (hcount : σ.count ≤ σ'.count)
    (hruns : Runs (σ.running t) (σ'.stack t)) : σ'.Inv := by
  refine ⟨?_, ?_, ?_⟩
  · intro t'
    rw [hrunning]
    by_cases heq : t' = t
    · subst heq
      exact hruns
    · rw [hstack t' heq]
      exact hi.runs t'
  · intro s
    obtain ⟨h, hh⟩ := hi.held s
    exact ⟨h, hh.frame (congrFun hstrands s) (hjobs s) hstack (htokens s) (hrests s)⟩
  · intro s
    exact (hi.numbered s).keep (by rw [hstrands]) hcount

/-- The queue of a strand that is scheduled grows. -/
theorem Held.queue (hh : σ.Held s h) (hscheduled : (σ.strands s).scheduled = true)
    (hstrand : σ'.strands s = { σ.strands s with
      queue := (σ.strands s).queue ++ [σ.count], given := (σ.strands s).given ++ [⟨σ.count, false⟩] })
    (hstack : σ'.stack = σ.stack) (hjobs : σ'.jobs = σ.jobs) : σ'.Held s h := by
  refine ⟨?_, ?_, ?_, ?_, ?_⟩
  · rw [hstrand]
    exact hh.scheduled
  · rw [hjobs]
    exact hh.jobs
  · rw [hstack]
    exact hh.tokens
  · have hbatch : σ'.batch s h = σ.batch s h := by
      cases h with
      | thread t' => exact congrArg (fun stack => rests s (stack t')) hstack
      | idle | posted => rfl
    rw [hstrand, hbatch]
    simp only [outer_append, outer_outside, outers_append, outers_cons, outers_nil, hh.order,
      List.append_assoc]
  · intro hidle
    exact absurd hidle (hh.scheduled.mp hscheduled)

theorem Held.eq_idle (hh : σ.Held s h) (hscheduled : (σ.strands s).scheduled = false) :
    h = .idle := by
  by_contra hne
  rw [hh.scheduled.mpr hne] at hscheduled
  cases hscheduled

theorem Held.tokens_zero (hh : σ.Held s h) (hne : h ≠ .thread t) :
    Io.tokens s (σ.stack t) = 0 := by
  rw [hh.tokens t, if_neg hne]

/-- A strand that is scheduled is given a handler for its queue. -/
theorem Inv.queue (hi : σ.Inv) (t : T) (hscheduled : (σ.strands s).scheduled = true) :
    Inv { σ with
      strands := Function.update σ.strands s { σ.strands s with
        queue := (σ.strands s).queue ++ [σ.count]
        given := (σ.strands s).given ++ [⟨σ.count, false⟩] }
      count := σ.count + 1 } := by
  refine hi.local (t := t) (s := s) ⟨fun s' hne => Function.update_of_ne hne _ _, fun _ _ => rfl,
    fun _ _ => rfl, fun _ _ => rfl, fun _ _ => rfl, fun _ _ => rfl, Nat.le_succ _⟩ (hi.runs t)
    (fun h hh => ⟨h, hh.queue hscheduled (Function.update_self ..) rfl rfl⟩)
    (.inr ⟨⟨false, ?_⟩, rfl⟩)
  exact congrArg StrandState.given (Function.update_self s _ σ.strands)

theorem Inv.strandPost (hi : σ.Inv) (hcalling : calling (σ.stack t) = true) :
    (σ.strandPost t s).Inv := by
  unfold Executors.strandPost
  cases hscheduled : (σ.strands s).scheduled with
  | true =>
    have hq := hi.queue t hscheduled
    simpa only [hscheduled, if_true] using hq
  | false =>
    -- An idle strand is taken by the thread, which goes on to post a run of it.
    simp only [hscheduled, Bool.false_eq_true, if_false]
    refine hi.local (t := t) (s := s) ⟨fun s' hne => Function.update_of_ne hne _ _, fun _ _ => rfl,
      fun t' hne => Function.update_of_ne hne _ _, fun _ _ => rfl, fun s' hne => ?_,
      fun s' hne => ?_, Nat.le_succ _⟩ ?_ (fun h hh => ?_) (.inr ⟨⟨false, ?_⟩, rfl⟩)
    · simp [tokens_cons, Ne.symm hne]
    · simp
    · simp only [Function.update_self]
      exact ⟨settled_calling hcalling, hi.runs t⟩
    · cases hh.eq_idle hscheduled
      have hnone : Io.tokens s (σ.stack t) = 0 := hh.tokens_zero (by simp)
      have hqueue := hh.idle rfl
      have horder := hh.order
      refine ⟨.thread t, hh.thread (by simp) (fun t' hne => Function.update_of_ne hne _ _) ?_ ?_ ?_ ?_⟩
      · simp only [Function.update_self]
      · exact hh.jobs
      · simp [tokens_cons, hnone]
      · simp only [Function.update_self, rests_cons, rests_of_tokens hnone, outer_append, horder,
          hqueue]
        simp [batch]
    · simp only [Function.update_self]

theorem Inv.strandDispatch (hi : σ.Inv) (hcalling : calling (σ.stack t) = true) :
    (σ.strandDispatch t s).Inv := by
  unfold Executors.strandDispatch
  dsimp only
  split
  · next hscheduled => exact hi.queue t hscheduled
  · next hfree =>
    have hscheduled := Bool.eq_false_iff.mpr hfree
    refine hi.local (t := t) (s := s) ⟨fun s' hne => Function.update_of_ne hne _ _, fun _ _ => rfl,
      fun t' hne => Function.update_of_ne hne _ _, fun t' hne => Function.update_of_ne hne _ _,
      fun s' hne => ?_, fun s' hne => ?_, Nat.le_succ _⟩ ?_ (fun h hh => ?_) (.inr ⟨⟨false, ?_⟩, rfl⟩)
    · simp [tokens_cons, Ne.symm hne]
    · simp
    · simp only [Function.update_self]
      exact ⟨by simp [Settled], rfl, settled_calling hcalling, rfl, hi.runs t⟩
    · cases hh.eq_idle hscheduled
      have hnone : Io.tokens s (σ.stack t) = 0 := hh.tokens_zero (by simp)
      have hqueue := hh.idle rfl
      have horder := hh.order
      refine ⟨.thread t, hh.thread (by simp) (fun t' hne => Function.update_of_ne hne _ _) ?_ ?_ ?_ ?_⟩
      · simp only [Function.update_self]
      · exact hh.jobs
      · simp [tokens_cons, hnone]
      · simp only [Function.update_self, rests_cons, rests_of_tokens hnone, outer_append, horder,
          hqueue]
        simp [batch]
    · simp only [Function.update_self]

theorem Inv.dispatch (hi : σ.Inv) (hcalling : calling (σ.stack t) = true) (target : Option S) :
    (σ.dispatch t target).Inv := by
  have hsettled := settled_calling hcalling
  unfold Executors.dispatch
  cases target with
  | some s =>
    dsimp only
    split
    · next hrunning =>
      -- The handler is nested in one of the same strand.
      refine hi.local (t := t) (s := s) ⟨fun s' hne => Function.update_of_ne hne _ _,
        fun _ _ => rfl, fun t' hne => Function.update_of_ne hne _ _, fun _ _ => rfl,
        fun s' hne => ?_, fun s' hne => ?_, Nat.le_succ _⟩ ?_ (fun h hh => ⟨h, ?_⟩)
        (.inr ⟨⟨true, ?_⟩, rfl⟩)
      · simp [tokens_cons]
      · simp
      · simp only [Function.update_self]
        exact ⟨hsettled, hrunning, hi.runs t⟩
      · refine hh.same (t := t) ?_ ?_ ?_ ?_ rfl (fun t' hne => Function.update_of_ne hne _ _) ?_ ?_
        · simp only [Function.update_self]
        · simp only [Function.update_self]
        · simp
        · simp
        · simp [tokens_cons]
        · simp
      · simp only [Function.update_self]
    · split
      · exact hi.strandPost hcalling
      · exact hi.strandDispatch hcalling
  | none =>
    dsimp only
    split
    · refine hi.plain (t := t) rfl (fun s => ?_) (fun _ _ => rfl) rfl (fun _ => rfl) (fun _ => rfl)
        (Nat.le_succ _) (hi.runs t)
      show (σ.jobs ++ [Job.handler σ.count]).count (Job.run s) = _
      simp
    · next f stack hstack =>
      refine hi.plain (t := t) rfl (fun _ => rfl) (fun t' hne => Function.update_of_ne hne _ _) rfl
        (fun s => ?_) (fun s => ?_) (Nat.le_succ _) ?_
      · simp [tokens_cons]
      · simp
      · simp only [Function.update_self]
        exact ⟨hsettled, hi.runs t⟩

theorem Inv.post (hi : σ.Inv) (hcalling : calling (σ.stack t) = true) (target : Option S) :
    (σ.post t target).Inv := by
  cases target with
  | some s => exact hi.strandPost hcalling
  | none =>
    refine hi.plain (t := t) rfl (fun s => ?_) (fun _ _ => rfl) rfl (fun _ => rfl) (fun _ => rfl)
      (Nat.le_succ _) (hi.runs t)
    show (σ.jobs ++ [Job.handler σ.count]).count (Job.run s) = _
    simp

/-! ### Jobs -/

/-- A job that is taken from the context. -/
theorem count_eraseIdx {jobs : List (Job S)} {index : ℕ} {job : Job S}
    (h : jobs[index]? = some job) (s : S) :
    (jobs.eraseIdx index).count (.run s) + (if job = .run s then 1 else 0) =
      jobs.count (.run s) := by
  obtain ⟨hlt, hget⟩ := List.getElem?_eq_some_iff.mp h
  have hsplit : jobs = jobs.take index ++ job :: jobs.drop (index + 1) := by
    rw [← hget, List.getElem_cons_drop, List.take_append_drop]
  rw [List.eraseIdx_eq_take_drop_succ]
  nth_rewrite 3 [hsplit]
  rw [List.count_append, List.count_append, List.count_cons]
  by_cases hjob : job = .run s
  · simp only [hjob, beq_self_eq_true, if_true]
    omega
  · simp only [beq_iff_eq, hjob, if_false]
    omega

theorem Inv.take (hi : σ.Inv) (index : ℕ) : (σ.take t index).Inv := by
  unfold Executors.take
  split
  · next id hstack hjob =>
    refine hi.plain (t := t) rfl (fun s => ?_) (fun t' hne => Function.update_of_ne hne _ _) rfl
      (fun s => ?_) (fun s => ?_) (Nat.le_refl _) ?_
    · have hcount := count_eraseIdx hjob s
      simpa using hcount
    · simp [tokens_cons, hstack]
    · simp [hstack]
    · have hruns := hi.runs t
      rw [hstack] at hruns
      simp only [Function.update_self]
      exact ⟨by simp [Settled], hruns⟩
  · next s hstack hjob =>
    have hruns := hi.runs t
    rw [hstack] at hruns
    refine hi.local (t := t) (s := s) ⟨fun _ _ => rfl, fun s' hne => ?_,
      fun t' hne => Function.update_of_ne hne _ _, fun t' hne => Function.update_of_ne hne _ _,
      fun s' hne => ?_, fun s' hne => ?_, Nat.le_refl _⟩ ?_ (fun h hh => ?_) (.inl rfl)
    · have hcount := count_eraseIdx hjob s'
      simpa [Ne.symm hne] using hcount
    · simp [tokens_cons, hstack, Ne.symm hne]
    · simp [hstack]
    · simp only [Function.update_self]
      exact ⟨by simp [Settled], rfl, hruns⟩
    · -- The run that was posted is the one that has the strand.
      have hcount := count_eraseIdx hjob s
      rw [if_pos rfl] at hcount
      have hposted : h = .posted := by
        by_contra hne
        have hjobs := hh.jobs
        rw [if_neg hne] at hjobs
        omega
      subst hposted
      have hjobs := hh.jobs
      rw [if_pos rfl] at hjobs
      have horder := hh.order
      refine ⟨.thread t, hh.thread (by simp) (fun t' hne => Function.update_of_ne hne _ _) ?_ ?_ ?_ ?_⟩
      · exact hh.scheduled.mpr (by simp)
      · show (σ.jobs.eraseIdx index).count (Job.run s) = 0
        omega
      · simp [tokens_cons]
      · simp only [Function.update_self, rests_cons, rests_nil]
        exact horder
  · exact hi

/-! ### The parts of a call -/

/-- The thread whose call has the strand has no other call of it. -/
theorem Held.top (hh : σ.Held s h) {f : Frame S} {stack : List (Frame S)}
    (hstack : σ.stack t = f :: stack) (hf : f.token s = true) :
    h = .thread t ∧ Io.tokens s stack = 0 := by
  have hpos : 0 < Io.tokens s (σ.stack t) := by
    rw [hstack, tokens_cons, if_pos hf]
    omega
  have hthread := hh.holder hpos
  have hone := hh.tokens t
  rw [if_pos hthread, hstack, tokens_cons, if_pos hf] at hone
  exact ⟨hthread, by omega⟩

/-- The handler that ran in a call of the strand has returned. -/
theorem Inv.returned (hi : σ.Inv) {f : Frame S} {stack : List (Frame S)} {saved : Option S}
    (hstack : σ.stack t = f :: stack) (hf : ∀ s', f.token s' = decide (s = s'))
    (hrest : ∀ s', f.rest s' = []) (hsettled : Settled stack) (hruns : Runs saved stack) :
    Inv { σ with
      stack := Function.update σ.stack t (.releasing s :: stack)
      running := Function.update σ.running t saved } := by
  have htokens (s' : S) : Io.tokens s' (Function.update σ.stack t (.releasing s :: stack) t) =
      Io.tokens s' (σ.stack t) := by
    rw [Function.update_self, hstack, tokens_cons, tokens_cons, hf]
    rfl
  have hrests (s' : S) : rests s' (Function.update σ.stack t (.releasing s :: stack) t) =
      rests s' (σ.stack t) := by
    rw [Function.update_self, hstack, rests_cons, rests_cons, hrest]
    rfl
  refine hi.local (t := t) (s := s) ⟨fun _ _ => rfl, fun _ _ => rfl,
    fun t' hne => Function.update_of_ne hne _ _, fun t' hne => Function.update_of_ne hne _ _,
    fun s' _ => htokens s', fun s' _ => hrests s', Nat.le_refl _⟩ ?_ (fun h hh => ⟨h, ?_⟩) (.inl rfl)
  · simp only [Function.update_self]
    exact ⟨hsettled, hruns⟩
  · exact hh.frame (t := t) rfl rfl (fun t' hne => Function.update_of_ne hne _ _) (htokens s)
      (hrests s)

theorem Inv.proceed (hi : σ.Inv) : (σ.proceed t).Inv := by
  have hruns := hi.runs t
  unfold Executors.proceed
  split
  · exact hi
  · next id strand stack hstack =>
    rw [hstack] at hruns
    refine hi.plain (t := t) rfl (fun _ => rfl) (fun t' hne => Function.update_of_ne hne _ _) rfl
      (fun s => ?_) (fun s => ?_) (Nat.le_refl _) ?_
    · simp [tokens_cons, hstack]
    · simp [hstack]
    · simp only [Function.update_self]
      cases strand with
      | none => exact hruns.2
      | some s => exact hruns.2.2
  · next s stack hstack =>
    rw [hstack] at hruns
    refine hi.local (t := t) (s := s) ⟨fun _ _ => rfl, fun s' hne => ?_,
      fun t' hne => Function.update_of_ne hne _ _, fun _ _ => rfl, fun s' hne => ?_,
      fun s' hne => ?_, Nat.le_refl _⟩ ?_ (fun h hh => ?_) (.inl rfl)
    · show (σ.jobs ++ [Job.run s]).count (Job.run s') = _
      simp [Ne.symm hne]
    · simp [tokens_cons, hstack, Ne.symm hne]
    · simp [hstack]
    · simp only [Function.update_self]
      exact hruns.2
    · obtain ⟨rfl, hnone⟩ := hh.top hstack (by simp)
      have hjobs := hh.jobs
      have horder := hh.order
      refine ⟨.posted, hh.leave (fun t' hne => Function.update_of_ne hne _ _) (by simp) ?_ ?_ ?_ ?_
        (by simp)⟩
      · simpa using hh.scheduled
      · show (σ.jobs ++ [Job.run s]).count (Job.run s) = 1
        simpa using hjobs
      · simpa using hnone
      · simpa [batch, hstack, rests_of_tokens hnone] using horder
  · next s saved stack hstack =>
    rw [hstack] at hruns
    exact hi.returned hstack (fun _ => rfl) (fun _ => rfl) hruns.1 hruns.2.2
  · next s saved stack hstack =>
    -- The batch is what was queued.
    rw [hstack] at hruns
    refine hi.local (t := t) (s := s) ⟨fun s' hne => Function.update_of_ne hne _ _, fun _ _ => rfl,
      fun t' hne => Function.update_of_ne hne _ _, fun _ _ => rfl, fun s' hne => ?_,
      fun s' hne => ?_, Nat.le_refl _⟩ ?_ (fun h hh => ?_) (.inl ?_)
    · simp [tokens_cons, hstack]
    · simp [hstack, Ne.symm hne]
    · simp only [Function.update_self]
      exact hruns
    · obtain ⟨rfl, hnone⟩ := hh.top hstack (by simp)
      have hjobs := hh.jobs
      have horder := hh.order
      refine ⟨.thread t, hh.thread (by simp) (fun t' hne => Function.update_of_ne hne _ _) ?_ ?_ ?_ ?_⟩
      · simpa using hh.scheduled
      · simpa using hjobs
      · simp [tokens_cons, hnone]
      · simpa [batch, hstack, rests_of_tokens hnone] using horder
    · simp only [Function.update_self]
  · next s saved stack hstack =>
    rw [hstack] at hruns
    exact hi.returned hstack (fun _ => rfl) (fun _ => by simp) hruns.1 hruns.2.2
  · next s id rest saved stack hstack =>
    -- The next handler of the batch begins.
    rw [hstack] at hruns
    refine hi.local (t := t) (s := s) ⟨fun s' hne => Function.update_of_ne hne _ _, fun _ _ => rfl,
      fun t' hne => Function.update_of_ne hne _ _, fun _ _ => rfl, fun s' hne => ?_,
      fun s' hne => ?_, Nat.le_refl _⟩ ?_ (fun h hh => ?_) (.inl ?_)
    · simp [tokens_cons, hstack]
    · simp [hstack, Ne.symm hne]
    · simp only [Function.update_self]
      exact ⟨by simp [Settled], hruns.2.1, hruns⟩
    · obtain ⟨rfl, hnone⟩ := hh.top hstack (by simp)
      have hjobs := hh.jobs
      have horder := hh.order
      refine ⟨.thread t, hh.thread (by simp) (fun t' hne => Function.update_of_ne hne _ _) ?_ ?_ ?_ ?_⟩
      · simpa using hh.scheduled
      · simpa using hjobs
      · simp [tokens_cons, hnone]
      · simpa [batch, hstack, rests_of_tokens hnone] using horder
    · simp only [Function.update_self]
  · next s stack hstack =>
    rw [hstack] at hruns
    dsimp only
    split
    · next hqueue =>
      refine hi.local (t := t) (s := s) ⟨fun s' hne => Function.update_of_ne hne _ _, fun _ _ => rfl,
        fun t' hne => Function.update_of_ne hne _ _, fun _ _ => rfl, fun s' hne => ?_,
        fun s' hne => ?_, Nat.le_refl _⟩ ?_ (fun h hh => ?_) (.inl ?_)
      · simp [tokens_cons, hstack, Ne.symm hne]
      · simp [hstack]
      · simp only [Function.update_self]
        exact hruns.2
      · obtain ⟨rfl, hnone⟩ := hh.top hstack (by simp)
        have hjobs := hh.jobs
        have horder := hh.order
        refine ⟨.idle, hh.leave (fun t' hne => Function.update_of_ne hne _ _) (by simp) ?_ ?_ ?_ ?_ ?_⟩
        · simp
        · simpa using hjobs
        · simpa using hnone
        · simpa [batch, hstack, rests_of_tokens hnone] using horder
        · simpa using hqueue
      · simp only [Function.update_self]
    · refine hi.plain (t := t) rfl (fun _ => rfl) (fun t' hne => Function.update_of_ne hne _ _) rfl
        (fun s' => ?_) (fun s' => ?_) (Nat.le_refl _) ?_
      · simp [tokens_cons, hstack]
      · simp [hstack]
      · simp only [Function.update_self]
        exact hruns

theorem Inv.step (hi : σ.Inv) (e : T × Action S) : (σ.step e).Inv := by
  obtain ⟨t, action⟩ := e
  unfold Executors.step
  cases action with
  | post target =>
    dsimp only
    split
    · next hcalling => exact hi.post hcalling target
    · exact hi
  | dispatch target =>
    dsimp only
    split
    · next hcalling => exact hi.dispatch hcalling target
    · exact hi
  | take index => exact hi.take index
  | proceed => exact hi.proceed

theorem create_inv : Inv (create : Executors S T) :=
  ⟨fun _ => rfl, fun _ => ⟨.idle, ⟨by simp [create], rfl, fun _ => by simp [create], rfl, fun _ => rfl⟩⟩,
    fun _ => ⟨fun _ h => absurd h List.not_mem_nil, List.nodup_nil⟩⟩

/-! ### Serialization -/

/-- No two handlers of the strand are in progress, but for those that nest in one thread;
those given from outside begin in the order given, each once; a strand that is not
scheduled has no handler queued and none in progress; each handler given began, or is in
the batch of a thread or queued; and where one is queued a run of the strand is posted, or
a thread is in a call of it that looks at the queue yet. -/
structure Serial (σ : Executors S T) (s : S) : Prop where
  alone : ∀ t t', (∃ f ∈ σ.stack t, f.handles s = true) → (∃ f ∈ σ.stack t', f.handles s = true) →
    t = t'
  nested : ∀ t, Nested s (σ.stack t)
  ordered : outer (σ.strands s).begun <+: outer (σ.strands s).given
  once : ((outer (σ.strands s).begun).map Given.id).Nodup
  idle : (σ.strands s).scheduled = false →
    (σ.strands s).queue = [] ∧ ∀ t, ∀ f ∈ σ.stack t, f.handles s = false
  kept : ∀ g ∈ outer (σ.strands s).given, g ∈ outer (σ.strands s).begun ∨
    (∃ t, g.id ∈ rests s (σ.stack t)) ∨ g.id ∈ (σ.strands s).queue
  pending : (σ.strands s).queue ≠ [] → .run s ∈ σ.jobs ∨ ∃ t, ∃ f ∈ σ.stack t, f.token s = true

/-- And a handler that a dispatch runs at once, nested or not, begins behind all those
that were given before it. -/
structure Strict (σ : Executors S T) (s : S) : Prop extends Serial σ s where
  behind : (σ.strands s).begun <+: (σ.strands s).given

omit [DecidableEq S] [DecidableEq T] in
theorem mem_outers {g : Given} {ids : List ℕ} (hg : g ∈ outers ids) : g.id ∈ ids := by
  obtain ⟨id, hid, rfl⟩ := List.mem_map.mp hg
  exact hid

theorem Inv.serial (hi : σ.Inv) (s : S) : Serial σ s := by
  obtain ⟨h, hh⟩ := hi.held s
  have hthread (t : T) (f : Frame S) (hf : f ∈ σ.stack t) (hhandles : f.handles s = true) :
      h = .thread t :=
    hh.holder ((hi.runs t).tokens_pos hf hhandles)
  have hordered : outer (σ.strands s).begun <+: outer (σ.strands s).given := by
    rw [hh.order]
    exact List.prefix_append _ _
  refine ⟨?_, ?_, hordered, ?_, ?_, ?_, ?_⟩
  · rintro t t' ⟨f, hf, hhandles⟩ ⟨f', hf', hhandles'⟩
    have heq := (hthread t f hf hhandles).symm.trans (hthread t' f' hf' hhandles')
    exact Holder.thread.inj heq
  · intro t
    refine (hi.runs t).nested ?_
    rw [hh.tokens t]
    split <;> omega
  · refine (hi.numbered s).distinct.sublist (List.Sublist.map _ ?_)
    exact hordered.sublist.trans List.filter_sublist
  · intro hscheduled
    have hidle := hh.eq_idle hscheduled
    refine ⟨hh.idle hidle, fun t f hf => ?_⟩
    by_contra hne
    rw [Bool.not_eq_false] at hne
    rw [hthread t f hf hne] at hidle
    cases hidle
  · intro g hg
    rw [hh.order] at hg
    rcases List.mem_append.mp hg with hbegun | hleft
    · exact .inl hbegun
    · right
      rcases List.mem_append.mp (mem_outers hleft) with hbatch | hqueue
      · left
        cases h with
        | thread t => exact ⟨t, hbatch⟩
        | idle => cases hbatch
        | posted => cases hbatch
      · exact .inr hqueue
  · intro hqueue
    cases h with
    | idle => exact absurd (hh.idle rfl) hqueue
    | posted =>
      left
      have hjobs := hh.jobs
      rw [if_pos rfl] at hjobs
      exact List.count_pos_iff.mp (by omega)
    | thread t =>
      right
      have htokens := hh.tokens t
      rw [if_pos rfl] at htokens
      exact ⟨t, List.countP_pos_iff.mp (show 0 < Io.tokens s (σ.stack t) by omega)⟩

/-- In every run of any threads over any strands. -/
theorem strands_serialize (events : List (T × Action S)) (s : S) :
    Serial (after step (create : Executors S T) events) s :=
  (after_invariant (P := Inv) (fun _ e hi => hi.step e) create_inv events).serial s

/-- A handler of the strand posts a second one, and dispatches a third. -/
def dispatched : List (Unit × Action Unit) :=
  [((), .post (some ())), ((), .proceed), ((), .take 0), ((), .proceed), ((), .proceed),
    ((), .post (some ())), ((), .dispatch (some ()))]

/-- The third begins at once, nested in the first, and the second is queued. -/
theorem not_strict : ¬ ∀ (events : List (Unit × Action Unit)) (s : Unit),
    Strict (after step (create : Executors Unit Unit) events) s := fun h =>
  absurd (h dispatched ()).behind (by decide)

end Executors

end BitcoinNetwork.Io
