import BitcoinNetwork.Async.Transition
import BitcoinNetwork.Net.Code
import BitcoinNetwork.Net.Race

/-!
# The connector (net/connector.cpp, net/connector_socks.cpp)

One attempt to connect races its timer against the resolution of the name, the
connection and, behind a proxy, what is negotiated with it. What is posted to
the strand may be run in any order.
-/

namespace BitcoinNetwork.Net
open Async

/-- An operation that completes by a handler on the strand. -/
inductive Stage
  | idle
  | waiting
  | posted (code : Code)
  deriving DecidableEq

namespace Stage

/-- The operation is not complete, or its handler is yet to run. -/
def active : Stage → Bool
  | .idle => false
  | .waiting | .posted _ => true

/-- The operation completes, if it is waiting. -/
def complete (code : Code) : Stage → Stage
  | .waiting => .posted code
  | stage => stage

@[simp] theorem active_complete (code : Code) (stage : Stage) :
    (stage.complete code).active = stage.active := by
  cases stage with
  | idle => rfl
  | waiting => rfl
  | posted => rfl

end Stage

/-- Who finishes a race. -/
inductive Finisher
  | timer
  | resolve
  | connect
  deriving DecidableEq

/-- How a race went: who finished, in order, with which code; how often a connection
was begun; and whether the socket was stopped. -/
structure Race where
  finishes : List (Finisher × Code)
  connects : ℕ
  stopped : Bool

/-- The handler of a call of `connect` is invoked, with a socket or none. The
socket of a call goes by its number, as the handler does. -/
structure Call where
  id : ℕ
  code : Code
  socket : Option ℕ
  race : Option Race

/-- `connector`, with the socket and the finish context of its race, and what the
handlers were given. -/
structure Connector where
  proxied : Bool
  suspended : Bool := false
  racer : RaceSpeed ℕ (Code × Option ℕ) := { size := 2 }
  socket : ℕ := 0
  finish : Bool := false
  stopped : Bool := false
  timer : Stage := .idle
  resolver : Stage := .idle
  connection : Stage := .idle
  negotiation : Stage := .idle
  count : ℕ := 0
  finishes : List (Finisher × Code) := []
  connects : ℕ := 0
  calls : List Call := []

namespace Connector

/-- The call of `finish` on the race. -/
def finishRace (c : Connector) (finisher : Finisher) (code : Code) (socket : Option ℕ) :
    Connector :=
  let finished := c.racer.finish (code, socket)
  let c := { c with racer := finished.1, finishes := c.finishes ++ [(finisher, code)] }
  match finished.2 with
  | none => c
  | some (id, args) =>
    { c with
      calls := c.calls ++
        [⟨id, (args.map Prod.fst).getD .success, args.bind Prod.snd,
          some ⟨c.finishes, c.connects, c.stopped⟩⟩] }

/-- `timer_->stop()`. -/
def stopTimer (c : Connector) : Connector :=
  { c with timer := c.timer.complete .operationCanceled }

/-- `stop`. -/
def stop (c : Connector) : Connector := if c.racer.running then c.stopTimer else c

/-- `start`. -/
def start (c : Connector) : Connector :=
  let id := c.count
  let c := { c with count := c.count + 1 }
  if c.racer.running then
    { c with calls := c.calls ++ [⟨id, .operationFailed, none, none⟩] }
  else if c.suspended then
    { c with calls := c.calls ++ [⟨id, .serviceSuspended, none, none⟩] }
  else
    { c with
      racer := c.racer.start id
      socket := id
      finish := false
      stopped := false
      timer := .waiting
      resolver := .waiting
      finishes := []
      connects := 0 }

/-- `handle_resolve`. -/
def handleResolve (c : Connector) (code : Code) : Connector :=
  if c.stopped then c.finishRace .resolve .operationCanceled none
  else if c.suspended then
    { c.stopTimer with stopped := true }.finishRace .resolve .serviceSuspended none
  else if code ≠ .success then
    { c.stopTimer with stopped := true }.finishRace .resolve code none
  else { c with connection := .waiting, connects := c.connects + 1 }

/-- `handle_connect`. -/
def handleConnect (c : Connector) (code : Code) : Connector :=
  if c.stopped then c.finishRace .connect .operationCanceled none
  else if c.suspended then
    { c.stopTimer with stopped := true }.finishRace .connect .serviceSuspended none
  else if code ≠ .success then
    { c.stopTimer with stopped := true }.finishRace .connect code none
  else { c.stopTimer with finish := true }.finishRace .connect .success c.socket

/-- `connector_socks::handle_connect`, which is that of the connector where there is
no proxy. What is negotiated goes on on the strand of the socket. -/
def socksHandleConnect (c : Connector) (code : Code) : Connector :=
  if c.proxied then
    let result : Code := if c.stopped then .channelStopped else code
    if result ≠ Code.success then c.handleConnect result
    else { c with negotiation := .waiting }
  else c.handleConnect code

/-- `handle_timer`. -/
def handleTimer (c : Connector) (code : Code) : Connector :=
  if c.finish then c.finishRace .timer .operationCanceled none
  else
    { c with stopped := true, resolver := c.resolver.complete .operationCanceled }.finishRace .timer
      (if code ≠ Code.success then code else .operationTimeout) c.socket

/-- A call of the connector, a change of the suspension, an operation that
completes, or a handler that runs. -/
inductive Event
  | connect
  | stop
  | suspend (suspended : Bool)
  | timed (code : Code)
  | resolved (code : Code)
  | connected (code : Code)
  | negotiated (code : Code)
  | runTimer
  | runResolve
  | runConnect
  | runNegotiated

def step (c : Connector) : Event → Connector
  | .connect => c.start
  | .stop => c.stop
  | .suspend suspended => { c with suspended := suspended }
  | .timed code => { c with timer := c.timer.complete code }
  | .resolved code => { c with resolver := c.resolver.complete code }
  | .connected code => { c with connection := c.connection.complete code }
  | .negotiated code => { c with negotiation := c.negotiation.complete code }
  | .runTimer =>
    match c.timer with
    | .posted code => { c with timer := .idle }.handleTimer code
    | _ => c
  | .runResolve =>
    match c.resolver with
    | .posted code => { c with resolver := .idle }.handleResolve code
    | _ => c
  | .runConnect =>
    match c.connection with
    | .posted code => { c with connection := .idle }.socksHandleConnect code
    | _ => c
  | .runNegotiated =>
    match c.negotiation with
    | .posted code => { c with negotiation := .idle }.handleConnect code
    | _ => c

end Connector

end BitcoinNetwork.Net
