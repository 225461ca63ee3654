import BitcoinNetwork.Async.Totals
import BitcoinNetwork.Async.Transition

/-!
# The scheduler on linux (io/scheduler.cpp, io/backend_posix.cpp)

A step of a thread is an access to one of the shared variables, where the eventfd is a
counter of units. The timer and resolver threads are threads that never run the context.
-/

namespace BitcoinNetwork.Io
open Async

/-- Where a thread is in `run`, with the completions that its wait has returned so far or
that are left to run: before it, at its check of the outstanding work and at that of the
stop, in a wait before a unit is read, with one that is read, with the posted handlers
looked at, and among the completions, of which one is running or has returned. -/
inductive Run
  | outside
  | starting
  | testing
  | waiting (out : ℕ)
  | taken (out : ℕ)
  | popped (interrupted : Bool) (out : ℕ)
  | completing (out : ℕ)
  | handling (out : ℕ)
  | finishing (out : ℕ)
  deriving DecidableEq

/-- Where a thread is in a call: a post before its handler is queued and before its unit is
written, a stop before it is stored, and `signal_stop` before its exchange and before its
unit is written. -/
inductive Call
  | idle
  | posting
  | pushed
  | stopping
  | signaling
  | interrupting
  deriving DecidableEq

structure Thread where
  run : Run
  call : Call
  deriving DecidableEq

/-- The scheduler with its backend, where `units` is the value of the eventfd, with the
operations, the timer waits and the guards that are counted and not finished. Posted
handlers are numbered as they are queued, and `taken` is those taken out by waits. -/
structure Scheduler where
  outstanding : ℕ := 0
  stopped : Bool := false
  signaled : Bool := false
  units : ℕ := 0
  posted : List ℕ := []
  operations : ℕ := 0
  timers : ℕ := 0
  guards : ℕ := 0
  threads : List Thread := []
  count : ℕ := 0
  taken : List ℕ := []

/-- What a thread outside of the context or in a handler may call. An operation is
completed by `complete`, and a timer wait by `enqueue`, where it expires or is canceled. -/
inductive Request
  | post
  | stop
  | restart
  | run
  | start
  | waitTimer
  | guard
  | reset
  | complete
  | enqueue
  deriving DecidableEq

namespace Scheduler

/-- A thread is new, makes a call, reads a unit of the eventfd or a descriptor event with a
completion in its wait, or goes on. -/
inductive Event
  | join
  | request (index : ℕ) (r : Request)
  | unit (index : ℕ)
  | ready (index : ℕ)
  | proceed (index : ℕ)

def set (σ : Scheduler) (index : ℕ) (t : Thread) : Scheduler :=
  { σ with threads := σ.threads.set index t }

/-- The section of `backend::post`. -/
def push (σ : Scheduler) (index : ℕ) (t : Thread) : Scheduler :=
  { σ with posted := σ.posted ++ [σ.count], count := σ.count + 1 }.set index
    { t with call := .pushed }

/-- `work_finished`. -/
def workFinished (σ : Scheduler) (index : ℕ) (t : Thread) : Scheduler :=
  let σ := { σ with outstanding := σ.outstanding - 1 }
  if σ.outstanding = 0 then σ.set index { t with call := .stopping } else σ.set index t

def request (σ : Scheduler) (index : ℕ) (t : Thread) : Request → Scheduler
  | .post => { σ with outstanding := σ.outstanding + 1 }.set index { t with call := .posting }
  | .stop => σ.set index { t with call := .stopping }
  | .restart => { σ with stopped := false }
  | .run => if t.run = .outside then σ.set index { t with run := .starting } else σ
  | .start =>
    { σ with outstanding := σ.outstanding + 1, operations := σ.operations + 1 }
  | .waitTimer => { σ with outstanding := σ.outstanding + 1, timers := σ.timers + 1 }
  | .guard => { σ with outstanding := σ.outstanding + 1, guards := σ.guards + 1 }
  | .reset =>
    if σ.guards = 0 then σ
    else { σ with guards := σ.guards - 1 }.workFinished index t
  | .complete =>
    if σ.operations = 0 then σ
    else { σ with operations := σ.operations - 1 }.push index t
  | .enqueue => if σ.timers = 0 then σ else { σ with timers := σ.timers - 1 }.push index t

/-- The next part of a call. -/
def proceedCall (σ : Scheduler) (index : ℕ) (t : Thread) : Scheduler :=
  match t.call with
  | .idle => σ
  | .posting => σ.push index t
  | .pushed | .interrupting =>
    { σ with units := σ.units + 1 }.set index { t with call := .idle }
  | .stopping => { σ with stopped := true }.set index { t with call := .signaling }
  | .signaling =>
    if σ.signaled then σ.set index { t with call := .idle }
    else { σ with signaled := true }.set index { t with call := .interrupting }

/-- The next part of `run`, which is in no call. -/
def proceedRun (σ : Scheduler) (index : ℕ) (t : Thread) : Scheduler :=
  match t.run with
  | .outside => σ
  | .starting =>
    if σ.outstanding = 0 then σ.set index ⟨.outside, .stopping⟩
    else σ.set index { t with run := .testing }
  | .testing =>
    if σ.stopped then σ.set index ⟨.outside, .signaling⟩
    else σ.set index { t with run := .waiting 0 }
  | .waiting out => σ.set index { t with run := .completing out }
  | .taken out =>
    match σ.posted with
    | [] => σ.set index { t with run := .popped true out }
    | id :: posted =>
      { σ with posted := posted, taken := σ.taken ++ [id] }.set index
        { t with run := .popped false (out + 1) }
  | .popped interrupted out =>
    { σ with signaled := if interrupted then false else σ.signaled }.set index
      { t with run := .completing out }
  | .completing 0 => σ.set index { t with run := .testing }
  | .completing (out + 1) => σ.set index { t with run := .handling out }
  | .handling out => σ.set index { t with run := .finishing out }
  | .finishing out => σ.workFinished index { t with run := .completing out }

/-- A thread in a handler, or outside of the context, may make a call. -/
def calling (t : Thread) : Bool :=
  match t with
  | ⟨.outside, .idle⟩ | ⟨.handling _, .idle⟩ => true
  | _ => false

/-- A unit is read, unless another thread has taken it. -/
def unit (σ : Scheduler) (index : ℕ) (t : Thread) : Scheduler :=
  match t.run with
  | .waiting out =>
    if σ.units = 0 then σ
    else { σ with units := σ.units - 1 }.set index { t with run := .taken out }
  | _ => σ

/-- An operation is completed by `ready`. -/
def ready (σ : Scheduler) (index : ℕ) (t : Thread) : Scheduler :=
  if σ.operations = 0 then σ
  else
    match t.run with
    | .waiting out =>
      { σ with operations := σ.operations - 1 }.set index { t with run := .waiting (out + 1) }
    | .popped interrupted out =>
      { σ with operations := σ.operations - 1 }.set index
        { t with run := .popped interrupted (out + 1) }
    | _ => σ

def step (σ : Scheduler) : Event → Scheduler
  | .join => { σ with threads := σ.threads ++ [⟨.outside, .idle⟩] }
  | .request index r =>
    match σ.threads[index]? with
    | none => σ
    | some t => if calling t then σ.request index t r else σ
  | .unit index =>
    match σ.threads[index]? with
    | none => σ
    | some t => σ.unit index t
  | .ready index =>
    match σ.threads[index]? with
    | none => σ
    | some t => σ.ready index t
  | .proceed index =>
    match σ.threads[index]? with
    | none => σ
    | some t => if t.call = .idle then σ.proceedRun index t else σ.proceedCall index t

end Scheduler

end BitcoinNetwork.Io
