import BitcoinNetwork.Sessions.Handlers

/-!
# Manual connections (sessions/session_manual.cpp)

A manual connection is kept until its notifier, or the drop of its channel, ends it: it
is connected, and on each failure or stop connected again. The channels are those of
`session::start_channel`, with what `session_peer` adds to it, and the stop of the session
reaches connectors, timers and channels by their stop subscriptions, each of a key of its
own.
-/

namespace BitcoinNetwork.Sessions
open Net Async

/-- What a stop subscription of the session stops: the connector or the timer of a slot, or
a channel. -/
inductive Held
  | connector (slot : ℕ)
  | timer (slot : ℕ)
  | channel (k : ℕ)
  deriving DecidableEq

/-- What a notifier is told, with its answer where that is looked at: of a connect that has
failed, of a channel that has started or stopped, and of the stop of the session. A channel
that is dropped ends its connection in silence. -/
inductive Notice
  | failed (ec : Code) (answer : Bool)
  | started (k : ℕ) (answer : Bool)
  | stopped (k : ℕ) (ec : Code) (answer : Bool)
  | dropped (k : ℕ)
  | closed
  deriving DecidableEq

/-- The session, with the slot that each of its channels is of, the slots that are
connecting and those that wait to connect again, and what was told of each. -/
structure Manual where
  session : Session := {}
  slots : ℕ := 0
  slot : ℕ → ℕ := fun _ => 0
  connecting : List ℕ := []
  deferred : List ℕ := []
  subscriptions : List Held := []
  told : List (ℕ × Notice) := []

namespace Manual

def tell (m : Manual) (slot : ℕ) (notice : Notice) : Manual :=
  { m with told := m.told ++ [(slot, notice)] }

/-- `notify`. -/
def notify (m : Manual) (held : Held) : Manual :=
  { m with subscriptions := m.subscriptions.erase held }

def stopChannel (m : Manual) (k : ℕ) (code : Code) : Manual :=
  { m with session := m.session.update k ((m.session.channel k).stop code) }

/-- A subscription is told of a stop. -/
def stopHeld (m : Manual) (code : Code) : Held → Manual
  | .channel k => m.stopChannel k code
  | .connector _ | .timer _ => m

/-- `subscribe` of the stop subscriber, which is stopped with the session. -/
def subscribe (m : Manual) (held : Held) : Manual :=
  if m.session.isStopped then m.stopHeld .subscriberStopped held
  else { m with subscriptions := held :: m.subscriptions }

/-- `start_connect`. -/
def startConnect (m : Manual) (slot : ℕ) : Manual :=
  if m.session.isStopped then m.tell slot .closed
  else { m with connecting := slot :: m.connecting }

/-- `connect`. -/
def connect (m : Manual) : Manual :=
  let slot := m.slots
  ({ m with slots := slot + 1 }.subscribe (.connector slot)).startConnect slot

/-- `defer` to `start_connect`. -/
def deferConnect (m : Manual) (slot : ℕ) : Manual :=
  if m.session.isStopped then m.startConnect slot
  else { m with deferred := slot :: m.deferred }.subscribe (.timer slot)

/-- `handle_timer`. -/
def handleTimer (m : Manual) (slot : ℕ) : Manual := (m.notify (.timer slot)).startConnect slot

/-- `handle_channel_start`. -/
def handleChannelStart (m : Manual) (k : ℕ) (answer : Bool) (ec : Code) : Manual :=
  if ec = .success then
    let m := m.tell (m.slot k) (.started k answer)
    if answer then m else m.stopChannel k .channelDropped
  else m

/-- `handle_channel_stop`. -/
def handleChannelStop (m : Manual) (k : ℕ) (answer : Bool) (ec : Code) : Manual :=
  let slot := m.slot k
  if ec = .channelDropped then (m.tell slot (.dropped k)).notify (.connector slot)
  else
    let m := m.tell slot (.stopped k ec answer)
    if answer then m.deferConnect slot else m.notify (.connector slot)

/-- The starter or the stopper of a channel is invoked. -/
def hear (m : Manual) (k : ℕ) (answer : Bool) : Report → Manual
  | .started ec => m.handleChannelStart k answer ec
  | .stopped ec => m.handleChannelStop k answer ec

/-- The session goes on to another state, which invokes the handlers of a channel. -/
def advance (m : Manual) (session : Session) (k : ℕ) (answer : Bool) : Manual :=
  let reports := (session.channel k).reports.drop (m.session.channel k).reports.length
  reports.foldl (fun m report => m.hear k answer report) { m with session := session }

/-- `session_peer::start_channel`, where the nonce of the channel is stored or not. -/
def startChannel (m : Manual) (slot : ℕ) (stored answer : Bool) : Manual :=
  let k := m.session.given
  let m := { m with slot := Function.update m.slot k slot }
  if m.session.isStopped then m.advance m.session.startChannel k answer
  else if !stored then m.advance (m.session.refuseChannel .channelConflict) k answer
  else (m.subscribe (.channel k)).advance m.session.startChannel k answer

/-- `handle_connect`. -/
def handleConnect (m : Manual) (slot : ℕ) (ec : Code) (stored answer : Bool) : Manual :=
  if m.session.isStopped then m.tell slot .closed
  else if ec = .serviceSuspended then m.deferConnect slot
  else if ec ≠ .success then
    let m := m.tell slot (.failed ec answer)
    if answer then m.deferConnect slot else m.notify (.connector slot)
  else m.startChannel slot stored answer

/-- What `session_peer` does before a job of the network, where a channel whose handshake has
succeeded is counted, or is not: the overrides of `do_handle_handshake` and of
`do_handle_channel_stopped`. -/
def prepare (m : Manual) (k : ℕ) (counted : Code) : NetworkJob → Manual × NetworkJob
  | .handshaken ec =>
    let code := if ec ≠ .success then ec else counted
    if code ≠ .success then ((m.notify (.channel k)).stopChannel k code, .handshaken code)
    else (m, .handshaken code)
  | .stopped ec => (m.notify (.channel k), .stopped ec)
  | job => (m, job)

def runNetworkJob (m : Manual) (k : ℕ) (counted : Code) (answer : Bool) (job : NetworkJob) : Manual :=
  let (m, job) := m.prepare k counted job
  m.advance (m.session.runNetworkJob k job) k answer

/-- `stop`, which notifies the subscriptions. -/
def close (m : Manual) : Manual :=
  let m' := { m with session := m.session.step .close, subscriptions := [] }
  m.subscriptions.foldl (fun m held => m.stopHeld .serviceStopped held) m'

/-- A connection is asked for; the connector or the timer of a slot completes; the session
is stopped; the network runs its next job; or a channel is stopped by others, its handshake
ends, or its strand runs its next job. -/
inductive Event
  | connect
  | connected (slot : ℕ) (ec : Code) (stored answer : Bool)
  | timer (slot : ℕ)
  | close
  | runNetwork (counted : Code) (answer : Bool)
  | enter (k : ℕ)
  | finish (k : ℕ) (code : Code)
  | post (k : ℕ)
  | handshake (k : ℕ) (code : Code)
  | runChannel (k : ℕ)

def step (m : Manual) : Event → Manual
  | .connect => m.connect
  | .connected slot ec stored answer =>
    if slot ∈ m.connecting then
      { m with connecting := m.connecting.erase slot }.handleConnect slot ec stored answer
    else m
  | .timer slot =>
    if slot ∈ m.deferred then { m with deferred := m.deferred.erase slot }.handleTimer slot
    else m
  | .close => if m.session.isStopped then m else m.close
  | .runNetwork counted answer =>
    match m.session.network with
    | [] => m
    | (k, job) :: network =>
      { m with session := { m.session with network := network } }.runNetworkJob k counted answer job
  | .enter k => { m with session := m.session.step (.enter k) }
  | .finish k code => { m with session := m.session.step (.finish k code) }
  | .post k => { m with session := m.session.step (.post k) }
  | .handshake k code => { m with session := m.session.step (.handshake k code) }
  | .runChannel k => { m with session := m.session.step (.runChannel k) }

end Manual

end BitcoinNetwork.Sessions
