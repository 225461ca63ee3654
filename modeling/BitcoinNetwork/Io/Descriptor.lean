import BitcoinNetwork.Async.Totals
import BitcoinNetwork.Async.Transition
import Mathlib.Logic.Function.Basic

/-!
# The operations of a descriptor (io/backend_posix.cpp, io/backend.cpp)

Any threads start operations on one descriptor, deliver its edges to `ready`, cancel and
close. A step of a thread is one system call or one part of a call that no other thread
sees divided, and the kernel takes steps of its own between them.
-/

namespace BitcoinNetwork.Io
open Async

/-- The codes that are told apart, and any other. -/
inductive Code
  | success
  | operationCanceled
  | badStream
  | other (value : ℕ)
  deriving DecidableEq

/-- `operation::kind`. -/
inductive Kind
  | read
  | write
  | accept
  | connect
  deriving DecidableEq

/-- The queues of a descriptor. -/
inductive Direction
  | reads
  | writes
  deriving DecidableEq

def Kind.direction : Kind → Direction
  | .read | .accept => .reads
  | .write | .connect => .writes

/-- `operation`, by number, where `empty` is a request of no bytes. -/
structure Operation where
  id : ℕ
  kind : Kind
  empty : Bool
  cancels : ℕ
  deriving DecidableEq

/-- A result that is set, by `cancel` or by `set_result`. -/
structure Result where
  id : ℕ
  canceled : Bool
  ec : Code
  deriving DecidableEq

/-- A direction of the descriptor: in the kernel, whether an operation would not block and
whether an edge is to be delivered; the queue; and the operations that were started under
the lock, in order, those that left the queue or had no need of it, in order, with their
results, and the results in the order set. -/
structure Side where
  ready : Bool := false
  edge : Bool := false
  queue : List Operation := []
  started : List ℕ := []
  left : List Result := []
  results : List Result := []

/-- Where a thread is: in `start` before the lock is taken, with it taken, with the
operation blocked, and with its result set; in `ready` with the edges that it has, before
the lock is taken and with it; and in `cancel` and `close`, before the count, before the
queues are taken, with operations to complete, and before the socket is closed. -/
inductive Phase
  | idle
  | starting (op : Operation)
  | entering (op : Operation)
  | holding (op : Operation)
  | blocked (op : Operation)
  | finishing (id : ℕ)
  | delivering (read write : Bool)
  | serving (read write : Bool)
  | canceling (closes : Bool)
  | swapping (closes : Bool)
  | marking (canceled : List Operation) (closes : Bool)
  | closing
  deriving DecidableEq

/-- `descriptor`, with the results that were set at once, without the lock, and the
operations completed. -/
structure Descriptor where
  opened : Bool := true
  locked : Bool := false
  cancels : ℕ := 0
  sides : Direction → Side := fun _ => {}
  threads : List Phase := []
  count : ℕ := 0
  immediate : List Result := []
  completed : List ℕ := []

/-- What a system call does, where it does not block: its code, whether the direction
blocks behind it, and whether a connect is in progress. -/
structure Outcome where
  ec : Code
  drained : Bool
  progress : Bool

namespace Descriptor

/-- A thread is new, starts an operation, cancels or closes, has edges from its wait, or
goes on; a direction becomes ready in the kernel, blocks, or has its edge dropped as it
blocks. -/
inductive Event
  | join
  | start (index : ℕ) (kind : Kind) (empty : Bool)
  | cancel (index : ℕ) (closes : Bool)
  | fetch (index : ℕ) (read write : Bool)
  | proceed (index : ℕ) (o : Outcome)
  | arrive (d : Direction)
  | block (d : Direction)
  | drop (d : Direction)

def go (σ : Descriptor) (index : ℕ) (phase : Phase) : Descriptor :=
  { σ with threads := σ.threads.set index phase }

def setSide (σ : Descriptor) (d : Direction) (side : Side) : Descriptor :=
  { σ with sides := Function.update σ.sides d side }

/-- `set_result`. -/
def setResult (σ : Descriptor) (op : Operation) (ec : Code) : Result :=
  ⟨op.id, false, if ec ≠ .success ∧ op.cancels ≠ σ.cancels then .operationCanceled else ec⟩

/-- A system call on the descriptor would block. The poll of a connect ignores a socket
that is closed, and the other calls fail. -/
def blocks (σ : Descriptor) (d : Direction) (op : Operation) : Bool :=
  if σ.opened then !(σ.sides d).ready else op.kind = .connect

/-- The code of a call that does not block. -/
def code (σ : Descriptor) (o : Outcome) : Code := if σ.opened then o.ec else .badStream

/-- An operation is performed, and its result is set. -/
def settle (σ : Descriptor) (d : Direction) (op : Operation) (o : Outcome) (queue : List Operation)
    (started : List ℕ) : Descriptor :=
  let side := σ.sides d
  let result := σ.setResult op (σ.code o)
  σ.setSide d
    { side with
      ready := side.ready && !o.drained
      queue := queue
      started := started
      left := side.left ++ [result]
      results := side.results ++ [result] }

/-- An operation is queued, under the lock. -/
def enqueue (σ : Descriptor) (op : Operation) : Descriptor :=
  let side := σ.sides op.kind.direction
  { σ with locked := false }.setSide op.kind.direction
    { side with queue := side.queue ++ [op], started := side.started ++ [op.id] }

/-- The part of `start` before the lock: a transfer of no bytes is complete, and a connect
is tried. -/
def start (σ : Descriptor) (index : ℕ) (op : Operation) (o : Outcome) : Descriptor :=
  let immediate (ec : Code) : Descriptor :=
    { σ with immediate := σ.immediate ++ [σ.setResult op ec] }.go index (.finishing op.id)
  match op.kind with
  | .read | .write => if op.empty then immediate .success else σ.go index (.entering op)
  | .accept => σ.go index (.entering op)
  | .connect =>
    if σ.opened ∧ o.progress then σ.go index (.entering op) else immediate (σ.code o)

/-- The part of `start` under the lock. -/
def attempt (σ : Descriptor) (index : ℕ) (op : Operation) (o : Outcome) : Descriptor :=
  let d := op.kind.direction
  let side := σ.sides d
  if side.queue ≠ [] then (σ.enqueue op).go index .idle
  else if σ.blocks d op then σ.go index (.blocked op)
  else
    { σ with locked := false }.settle d op o [] (side.started ++ [op.id]) |>.go index (.finishing op.id)

/-- One turn of `perform_queue`, where `next` is what is left of the edges if it ends. -/
def performQueue (σ : Descriptor) (index : ℕ) (d : Direction) (next : Phase) (o : Outcome) :
    Descriptor :=
  let side := σ.sides d
  match side.queue with
  | [] => σ.go index next
  | op :: queue =>
    if σ.blocks d op then σ.go index next
    else
      { σ with completed := σ.completed ++ [op.id] }.settle d op o queue side.started

/-- The queues are taken, under the lock. -/
def swap (σ : Descriptor) (index : ℕ) (closes : Bool) : Descriptor :=
  let taken (d : Direction) : Side :=
    let side := σ.sides d
    { side with
      queue := []
      left := side.left ++ side.queue.map fun op => (⟨op.id, true, .operationCanceled⟩ : Result) }
  { σ with sides := taken }.go index
    (.marking ((σ.sides .reads).queue ++ (σ.sides .writes).queue) closes)

/-- A canceled operation is completed. -/
def mark (σ : Descriptor) (index : ℕ) (op : Operation) (rest : List Operation) (closes : Bool) :
    Descriptor :=
  let side := σ.sides op.kind.direction
  { σ with completed := σ.completed ++ [op.id] }.setSide op.kind.direction
    { side with results := side.results ++ [(⟨op.id, true, .operationCanceled⟩ : Result)] } |>.go index
    (.marking rest closes)

def proceed (σ : Descriptor) (index : ℕ) (phase : Phase) (o : Outcome) : Descriptor :=
  match phase with
  | .idle => σ
  | .starting op => σ.start index op o
  | .entering op => if σ.locked then σ else { σ with locked := true }.go index (.holding op)
  | .holding op => σ.attempt index op o
  | .blocked op => (σ.enqueue op).go index .idle
  | .finishing id => { σ with completed := σ.completed ++ [id] }.go index .idle
  | .delivering read write =>
    if σ.locked then σ else { σ with locked := true }.go index (.serving read write)
  | .serving true write => σ.performQueue index .reads (.serving false write) o
  | .serving false true => σ.performQueue index .writes (.serving false false) o
  | .serving false false => { σ with locked := false }.go index .idle
  | .canceling closes => { σ with cancels := σ.cancels + 1 }.go index (.swapping closes)
  | .swapping closes => if σ.locked then σ else σ.swap index closes
  | .marking (op :: rest) closes => σ.mark index op rest closes
  | .marking [] closes => σ.go index (if closes then .closing else .idle)
  | .closing => { σ with opened := false }.go index .idle

/-- What a thread that is in no call does. -/
def begin (σ : Descriptor) (index : ℕ) (σ' : Descriptor) : Descriptor :=
  if σ.threads[index]? = some .idle then σ' else σ

def step (σ : Descriptor) : Event → Descriptor
  | .join => { σ with threads := σ.threads ++ [.idle] }
  | .start index kind empty =>
    σ.begin index
      ({ σ with count := σ.count + 1 }.go index (.starting ⟨σ.count, kind, empty, σ.cancels⟩))
  | .cancel index closes => σ.begin index (σ.go index (.canceling closes))
  | .fetch index read write =>
    let clear (d : Direction) (flag : Bool) : Side :=
      { σ.sides d with edge := (σ.sides d).edge && !flag }
    let sides : Direction → Side
      | .reads => clear .reads read
      | .writes => clear .writes write
    σ.begin index ({ σ with sides := sides }.go index (.delivering read write))
  | .proceed index o =>
    match σ.threads[index]? with
    | none => σ
    | some phase => σ.proceed index phase o
  | .arrive d =>
    let side := σ.sides d
    σ.setSide d { side with ready := true, edge := side.edge || !side.ready }
  | .block d => σ.setSide d { σ.sides d with ready := false }
  | .drop d =>
    if (σ.sides d).ready then σ else σ.setSide d { σ.sides d with edge := false }

end Descriptor

end BitcoinNetwork.Io
