import BitcoinNetwork.Async.Transition
import BitcoinNetwork.Net.Channels
import BitcoinNetwork.Net.Code

/-!
# The write queue of a channel (net/proxy.cpp, net/proxy_queue.cpp, net/proxy_actions.cpp)

Everything here runs on the strand of the channel, other than a stop that is not
stranded. A handler that is invoked may make any calls of its own.
-/

namespace BitcoinNetwork.Net
open Async

/-- What an entry of the queue writes. A response has the batch state that it was stamped
with, and its change; the close of a batch has both. -/
inductive Part
  | message
  | notification
  | response (batch changed : Bool)
  deriving DecidableEq

/-- The handler of an entry: that of the caller, the one that goes on to read behind the
close of a batch, or the one that stops the channel behind it. -/
inductive Completion
  | caller
  | closed
  | stop
  deriving DecidableEq

/-- `pending`, by number, where `chunked` is a write of `do_http_write`. -/
structure Pending where
  id : ℕ
  part : Part
  chunked : Bool
  completion : Completion
  cost : ℕ
  deriving DecidableEq

/-- The part whose chunk is behind the http header. -/
def Pending.headed (e : Pending) : Bool := e.chunked && e.part == .response false true

/-- A socket write is under way, of the http header or of the entry, or its completion
is deferred by the throttle. -/
inductive Sending
  | header
  | body
  | throttled (header : Bool) (ec : Code)
  deriving DecidableEq

structure Flight where
  entry : Pending
  stage : Sending
  deriving DecidableEq

/-- The channel, with its socket writes and what became of its entries: those queued and
those written, in order, those whose write completed before a stop, those whose handler
was invoked, and of the notifications those refused and those admitted. -/
structure Proxy where
  http : Bool
  zeromq : Bool
  maximumBacklog : ℕ
  queue : List Pending := []
  deferred : List Pending := []
  backlog : ℕ := 0
  batched : Bool := false
  parted : Bool := false
  parser : Bool := false
  stopped : Bool := false
  posted : ℕ := 0
  purged : Bool := false
  inflight : List Flight := []
  count : ℕ := 0
  queued : List Pending := []
  written : List Pending := []
  completed : List ℕ := []
  handled : List ℕ := []
  refused : List ℕ := []
  admitted : List ℕ := []

def entrySize : ℕ := 256

namespace Proxy

/-! ### The send cycle -/

/-- `write`: the socket write of the front entry is started. -/
def write (p : Proxy) : Proxy :=
  match p.queue with
  | [] => p
  | e :: _ =>
    { p with
      written := p.written ++ [e]
      inflight := p.inflight ++ [⟨e, if e.headed then .header else .body⟩] }

/-- The entry is queued, and the cycle is started if it is not under way. -/
def enqueue (p : Proxy) (e : Pending) : Proxy :=
  let started := p.queue ≠ []
  let p := { p with queue := p.queue ++ [e], queued := p.queued ++ [e] }
  if started then p else p.write

/-- `do_write` of what is not a notification. -/
def doWrite (p : Proxy) (e : Pending) : Proxy :=
  if p.stopped then p else p.enqueue { e with cost := 0 }

/-- The next number. -/
def next (p : Proxy) : Proxy := { p with count := p.count + 1 }

/-- `queue_close`. -/
def queueClose (p : Proxy) (completion : Completion) : Proxy :=
  let p := { p with batched := false, parted := false }
  p.next.doWrite ⟨p.count, .response true true, p.parser, completion, 0⟩

/-- `finish_stop`, which posts `stopping`. -/
def finishStop (p : Proxy) : Proxy := { p with stopped := true, posted := p.posted + 1 }

/-- `stop`, of the strand or not. -/
def stop (p : Proxy) (stranded : Bool) : Proxy :=
  if p.stopped then p
  else if stranded && p.batched && p.parted then p.queueClose .stop
  else p.finishStop

/-- `charge`, of the entry with its cost, or of none. -/
def charge (p : Proxy) (e : Pending) : Proxy × Option Pending :=
  let cost := ceilingedAdd e.cost entrySize
  let idle := p.queue = [] ∧ p.deferred = []
  if ¬idle ∧ p.maximumBacklog < ceilingedAdd p.backlog cost then
    if p.zeromq then ({ p with refused := p.refused ++ [e.id] }, none)
    else (p.stop true, none)
  else ({ p with backlog := ceilingedAdd p.backlog cost }, some { e with cost := cost })

/-- `do_write` of a notification. -/
def doNotification (p : Proxy) (e : Pending) : Proxy × Bool :=
  if p.stopped then (p, false)
  else
    match p.charge e with
    | (p, none) => (p, false)
    | (p, some e) => (p.enqueue e, true)

/-- `do_defer_write`. -/
def doDeferWrite (p : Proxy) (e : Pending) : Proxy :=
  if p.batched then
    match p.charge e with
    | (p, none) => p
    | (p, some e) =>
      { p with deferred := p.deferred ++ [e], admitted := p.admitted ++ [e.id] }
  else
    match p.doNotification e with
    | (p, false) => p
    | (p, true) => { p with admitted := p.admitted ++ [e.id] }

/-- `do_response_queue`, and `do_http_queue` of a json-rpc response. -/
def doResponseQueue (p : Proxy) : Proxy :=
  let part := if p.batched then .response p.parted !p.parted else .response false false
  let p := if p.batched then { p with parted := true } else p
  p.next.doWrite ⟨p.count, part, p.http, .caller, 0⟩

/-! ### Calls -/

/-- A call on the strand: a write, bounded as a notification is or not, a response, a
notification, a read of the open or of the close of a batch, the begin and the end of the
parse of an http message, and a stop. -/
inductive Call
  | message (bounded : Bool) (cost : ℕ)
  | respond
  | notify (cost : ℕ)
  | openBatch
  | closeBatch
  | parse (begins : Bool)
  | stop (stranded : Bool)

def call (p : Proxy) : Call → Proxy
  | .message true cost => (p.next.doNotification ⟨p.count, .message, false, .caller, cost⟩).1
  | .message false cost => p.next.doWrite ⟨p.count, .message, false, .caller, cost⟩
  | .respond => p.doResponseQueue
  | .notify cost => p.next.doDeferWrite ⟨p.count, .notification, false, .caller, cost⟩
  | .openBatch => { p with batched := true }
  | .closeBatch => p.queueClose .closed
  | .parse begins => { p with parser := begins }
  | .stop stranded => p.stop stranded

def calls (p : Proxy) (calls : List Call) : Proxy := calls.foldl call p

/-! ### Completions -/

/-- The notifications deferred while the batch was open are queued. -/
def drain (p : Proxy) : Proxy :=
  let started := p.queue ≠ []
  let p :=
    { p with queue := p.queue ++ p.deferred, queued := p.queued ++ p.deferred, deferred := [] }
  if started then p else p.write

/-- The handler of an entry, with the calls made in it: `handle_close_write` of a stream
drains the deferred notifications, and `handle_stop_write` stops. -/
def complete (p : Proxy) (completion : Completion) (ec : Code) (made : List Call) : Proxy :=
  match completion with
  | .caller => p.calls made
  | .closed => if ec = .success ∧ p.http = false then p.drain.calls made else p.calls made
  | .stop => p.finishStop

/-- `handle_write`. -/
def handleWrite (p : Proxy) (ec : Code) (made : List Call) : Proxy :=
  match p.queue with
  | [] => p
  | e :: _ =>
    let p := { p with handled := p.handled ++ [e.id] }
    let p := p.complete e.completion ec made
    let p := { p with backlog := p.backlog - e.cost, queue := p.queue.tail }
    if p.stopped then p else p.write

/-- The handler of a socket write: `handle_http_header_write` of a header, which goes on
to the chunk of the part, and otherwise `handle_write`. -/
def handleFlight (p : Proxy) (index : ℕ) (f : Flight) (header : Bool) (ec : Code)
    (made : List Call) : Proxy :=
  if header ∧ ec = .success then
    { p with inflight := p.inflight.set index { f with stage := .body } }
  else { p with inflight := p.inflight.eraseIdx index }.handleWrite ec made

/-- `handle_metered`, which the throttle may defer. -/
def handleMetered (p : Proxy) (index : ℕ) (f : Flight) (header : Bool) (ec : Code)
    (delay : Bool) (made : List Call) : Proxy :=
  let p :=
    if header ∨ p.stopped then p else { p with completed := p.completed ++ [f.entry.id] }
  if delay ∧ p.stopped = false then
    { p with inflight := p.inflight.set index { f with stage := .throttled header ec } }
  else p.handleFlight index f header ec made

/-- `stopping`. -/
def stopping (p : Proxy) : Proxy :=
  { p with parser := false, queue := [], deferred := [], purged := true, posted := p.posted - 1 }

/-- A call, the completion of a socket write, the timer of the throttle, which its stop
fires too, and the handler that a stop has posted. -/
inductive Event
  | call (c : Call)
  | sent (index : ℕ) (ec : Code) (delay : Bool) (made : List Call)
  | charged (index : ℕ) (made : List Call)
  | stopping

def step (p : Proxy) : Event → Proxy
  | .call c => p.call c
  | .sent index ec delay made =>
    match p.inflight[index]? with
    | none => p
    | some f =>
      match f.stage with
      | .header => p.handleMetered index f true ec delay made
      | .body => p.handleMetered index f false ec delay made
      | .throttled _ _ => p
  | .charged index made =>
    match p.inflight[index]? with
    | none => p
    | some f =>
      match f.stage with
      | .header | .body => p
      | .throttled header ec => p.handleFlight index f header ec made
  | .stopping => if p.posted = 0 then p else p.stopping

/-- A channel before anything is written. -/
def create (http zeromq : Bool) (maximumBacklog : ℕ) : Proxy :=
  { http := http, zeromq := zeromq, maximumBacklog := maximumBacklog }

end Proxy

end BitcoinNetwork.Net
