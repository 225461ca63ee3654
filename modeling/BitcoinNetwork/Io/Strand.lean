import BitcoinNetwork.Async.Transition
import Mathlib.Logic.Function.Basic

/-!
# Strands (io/scheduler.cpp strand_state, io/context.cpp executor)

Any number of threads run the jobs of a context. A step of a thread is a section under
the mutex of a strand, a post to the context, or the begin or the end of a handler, and a
handler may post and dispatch as it likes. The call stack of a thread is written out, as
a dispatch nests.
-/

namespace BitcoinNetwork.Io
open Async

/-- A handler given to a strand, by number; it is nested if the strand was running in the
thread of its dispatch. -/
structure Given where
  id : ℕ
  nested : Bool
  deriving DecidableEq

/-- `strand_state`, with the handlers it was given and those that began, in order. -/
structure StrandState where
  queue : List ℕ := []
  scheduled : Bool := false
  given : List Given := []
  begun : List Given := []

/-- A call in progress in a thread, where `saved` is the strand that `running_scope`
restores: a handler, a `context_.post` that is next, `dispatch` with its handler in
progress, `run` before the swap and within its batch, and `release`. -/
inductive Frame (S : Type)
  | handler (id : ℕ) (strand : Option S)
  | posting (s : S)
  | inline (s : S) (saved : Option S)
  | running (s : S) (saved : Option S)
  | batch (s : S) (rest : List ℕ) (saved : Option S)
  | releasing (s : S)

/-- What is posted to the context. -/
inductive Job (S : Type)
  | handler (id : ℕ)
  | run (s : S)
  deriving DecidableEq

/-- A context with its strands and threads, where `running` is `running_strand`. -/
structure Executors (S T : Type) where
  strands : S → StrandState
  stack : T → List (Frame S)
  running : T → Option S
  jobs : List (Job S)
  count : ℕ

/-- What a thread does next: a call on the executor of a strand or of the context, a job of
the context, or the next part of the call that it is in. -/
inductive Action (S : Type)
  | post (target : Option S)
  | dispatch (target : Option S)
  | take (index : ℕ)
  | proceed

namespace Executors
variable {S T : Type} [DecidableEq S] [DecidableEq T]

/-- A thread makes calls in a handler, or outside of the context. -/
def calling (stack : List (Frame S)) : Bool :=
  match stack with
  | [] | .handler _ _ :: _ => true
  | _ => false

/-- The section of `strand_state::post`. -/
def strandPost (σ : Executors S T) (t : T) (s : S) : Executors S T :=
  let x := σ.strands s
  { σ with
    strands := Function.update σ.strands s
      { x with
        queue := x.queue ++ [σ.count]
        scheduled := true
        given := x.given ++ [⟨σ.count, false⟩] }
    stack := if x.scheduled then σ.stack
      else Function.update σ.stack t (.posting s :: σ.stack t)
    count := σ.count + 1 }

/-- The section of `strand_state::dispatch`, where the thread is running the context. -/
def strandDispatch (σ : Executors S T) (t : T) (s : S) : Executors S T :=
  let x := σ.strands s
  if x.scheduled then
    { σ with
      strands := Function.update σ.strands s
        { x with queue := x.queue ++ [σ.count], given := x.given ++ [⟨σ.count, false⟩] }
      count := σ.count + 1 }
  else
    { σ with
      strands := Function.update σ.strands s
        { x with
          scheduled := true
          given := x.given ++ [⟨σ.count, false⟩]
          begun := x.begun ++ [⟨σ.count, false⟩] }
      stack := Function.update σ.stack t
        (.handler σ.count (some s) :: .inline s (σ.running t) :: σ.stack t)
      running := Function.update σ.running t (some s)
      count := σ.count + 1 }

/-- `executor::post`. -/
def post (σ : Executors S T) (t : T) : Option S → Executors S T
  | some s => σ.strandPost t s
  | none => { σ with jobs := σ.jobs ++ [.handler σ.count], count := σ.count + 1 }

/-- `executor::dispatch`. -/
def dispatch (σ : Executors S T) (t : T) : Option S → Executors S T
  | some s =>
    if σ.running t = some s then
      let x := σ.strands s
      { σ with
        strands := Function.update σ.strands s
          { x with
            given := x.given ++ [⟨σ.count, true⟩]
            begun := x.begun ++ [⟨σ.count, true⟩] }
        stack := Function.update σ.stack t (.handler σ.count (some s) :: σ.stack t)
        count := σ.count + 1 }
    else
      match σ.stack t with
      | [] => σ.strandPost t s
      | _ :: _ => σ.strandDispatch t s
  | none =>
    match σ.stack t with
    | [] => σ.post t none
    | _ :: _ =>
      { σ with
        stack := Function.update σ.stack t (.handler σ.count none :: σ.stack t)
        count := σ.count + 1 }

/-- A thread that is in no call runs a job. -/
def take (σ : Executors S T) (t : T) (index : ℕ) : Executors S T :=
  match σ.stack t, σ.jobs[index]? with
  | [], some (.handler id) =>
    { σ with
      stack := Function.update σ.stack t [.handler id none]
      jobs := σ.jobs.eraseIdx index }
  | [], some (.run s) =>
    { σ with
      stack := Function.update σ.stack t [.running s (σ.running t)]
      running := Function.update σ.running t (some s)
      jobs := σ.jobs.eraseIdx index }
  | _, _ => σ

/-- The next part of the call that the thread is in. -/
def proceed (σ : Executors S T) (t : T) : Executors S T :=
  match σ.stack t with
  | [] => σ
  | .handler _ _ :: stack => { σ with stack := Function.update σ.stack t stack }
  | .posting s :: stack =>
    { σ with stack := Function.update σ.stack t stack, jobs := σ.jobs ++ [.run s] }
  | .inline s saved :: stack =>
    { σ with
      stack := Function.update σ.stack t (.releasing s :: stack)
      running := Function.update σ.running t saved }
  | .running s saved :: stack =>
    { σ with
      strands := Function.update σ.strands s { σ.strands s with queue := [] }
      stack := Function.update σ.stack t (.batch s (σ.strands s).queue saved :: stack) }
  | .batch s [] saved :: stack =>
    { σ with
      stack := Function.update σ.stack t (.releasing s :: stack)
      running := Function.update σ.running t saved }
  | .batch s (id :: rest) saved :: stack =>
    let x := σ.strands s
    { σ with
      strands := Function.update σ.strands s { x with begun := x.begun ++ [⟨id, false⟩] }
      stack := Function.update σ.stack t (.handler id (some s) :: .batch s rest saved :: stack) }
  | .releasing s :: stack =>
    let x := σ.strands s
    if x.queue = [] then
      { σ with
        strands := Function.update σ.strands s { x with scheduled := false }
        stack := Function.update σ.stack t stack }
    else { σ with stack := Function.update σ.stack t (.posting s :: stack) }

def step (σ : Executors S T) (e : T × Action S) : Executors S T :=
  match e with
  | (t, .post target) => if calling (σ.stack t) then σ.post t target else σ
  | (t, .dispatch target) => if calling (σ.stack t) then σ.dispatch t target else σ
  | (t, .take index) => σ.take t index
  | (t, .proceed) => σ.proceed t

/-- Before any call. -/
def create : Executors S T :=
  { strands := fun _ => {}, stack := fun _ => [], running := fun _ => none, jobs := [], count := 0 }

end Executors

end BitcoinNetwork.Io
