import BitcoinNetwork.Async.Transition
import BitcoinNetwork.Sam.Lines
import Mathlib.Logic.Function.Basic

/-!
# The sam acceptor (net/acceptor_sam.cpp, net/acceptor.cpp)

A control socket creates the session, another forwards its streams to the loopback listener,
and an accept waits for a stream. Control sockets go by number, in the order of the connects.
The acceptor is started, and each accept is called once the handler of the last was.
-/

namespace BitcoinNetwork.Sam
open Async Http

/-- Whether no key is configured, what key the bridge may have made, and what base64 is. -/
structure Settings where
  transient : Bool
  toSelf : Text → Bool
  decodeBase64 : Text → Bool

/-- How far an accept has come: it waits for the connector, for a reply on a control socket or
for a posted job of it, for the listener, or for the peer of a stream. -/
inductive Stage
  | idle
  | sessionConnect
  | sessionHello (socket : ℕ)
  | sessionCreate (socket : ℕ)
  | sessionReady (socket : ℕ)
  | forwardConnect
  | forwardHello (socket : ℕ)
  | forwardStatus (socket : ℕ)
  | forwardReady (socket : ℕ)
  | failed (socket : ℕ) (ec : Code)
  | listening
  | peer
  | handshake
  | accepted (ec : Code)
  deriving DecidableEq

/-- A handler that is called, of an accept that has one for its acceptance or has not. -/
inductive Call
  | accepted (ec : Code)
  | handler (ec : Code)
  deriving DecidableEq

/-- An accept that is over, by its number. -/
structure Completion where
  number : ℕ
  paired : Bool
  ec : Code
  deriving DecidableEq

/-- The handlers that it called, those of a pair by `handle_proxied`. -/
def Completion.calls (c : Completion) : List Call :=
  if !c.paired then [.handler c.ec]
  else if c.ec = .success then [.accepted c.ec, .handler c.ec]
  else [.accepted c.ec]

/-- A teardown by the close report of a socket, with the session and the forward it found. -/
structure Teardown where
  socket : ℕ
  session : Option ℕ
  forward : Option ℕ
  deriving DecidableEq

/-- An acceptor, with the control sockets that were stopped or are watched, the reports that
are posted, and the ids that sessions were created with and forwards were registered with. -/
structure Acceptor where
  stopped : Bool := false
  suspended : Bool := false
  session : Option ℕ := none
  forward : Option ℕ := none
  id : ℕ := 0
  stage : Stage := .idle
  paired : Bool := false
  accepts : ℕ := 0
  completions : List Completion := []
  opened : ℕ := 0
  halted : ℕ → Bool := fun _ => false
  watched : ℕ → Bool := fun _ => false
  closes : List ℕ := []
  created : ℕ → ℕ := fun _ => 0
  registered : ℕ → ℕ := fun _ => 0
  teardowns : List Teardown := []

namespace Acceptor

/-- The handler of the accept is called. -/
def complete (s : Acceptor) (ec : Code) : Acceptor :=
  { s with stage := .idle, completions := s.completions ++ [⟨s.accepts - 1, s.paired, ec⟩] }

/-- `socket::stop`. -/
def halt (s : Acceptor) (socket : ℕ) : Acceptor :=
  { s with halted := Function.update s.halted socket true }

def watch (s : Acceptor) (socket : ℕ) : Acceptor :=
  { s with watched := Function.update s.watched socket true }

def haltIf (s : Acceptor) : Option ℕ → Acceptor
  | none => s
  | some socket => s.halt socket

def doTeardown (s : Acceptor) : Acceptor :=
  { (s.haltIf s.forward).haltIf s.session with forward := none, session := none }

def stop (s : Acceptor) : Acceptor := { s.doTeardown with stopped := true }

/-- `acceptor::accept`. -/
def listen (s : Acceptor) : Acceptor :=
  if s.stopped then s.complete .serviceStopped
  else if s.suspended then s.complete .serviceSuspended
  else { s with stage := .listening }

def accept (s : Acceptor) (paired : Bool) (id : ℕ) : Acceptor :=
  let s := { s with accepts := s.accepts + 1, paired := paired }
  if s.stopped then s.complete .serviceStopped
  else if s.suspended then s.complete .serviceSuspended
  else if s.forward.isSome then s.listen
  else { s.doTeardown with id := id, stage := .sessionConnect }

/-- `acceptor::handle_accept` off the strand, of a control socket. -/
def handleAccept (s : Acceptor) (socket : ℕ) (ec : Code) : Acceptor :=
  { s with stage := .failed socket ec }

/-- `do_handle_accept`, of a stream. -/
def doHandleAccept (s : Acceptor) (ec : Code) : Acceptor :=
  if ec ≠ .success then s.complete ec
  else if s.suspended then s.complete .serviceSuspended
  else if s.stopped then s.complete .serviceStopped
  else s.complete .success

def openSocket (s : Acceptor) : Acceptor := { s with opened := s.opened + 1 }

def handleSessionConnect (s : Acceptor) (ec : Code) : Acceptor :=
  if ec ≠ .success then s.complete ec
  else { s.openSocket with stage := .sessionHello s.opened }

def handleSessionHello (s : Acceptor) (socket : ℕ) (line : Text) : Acceptor :=
  match replied line (ascii "HELLO") (ascii "REPLY") with
  | .success =>
    { s with stage := .sessionCreate socket, created := Function.update s.created socket s.id }
  | ec => s.handleAccept socket ec

/-- `saved` tells whether the key was written to its file. -/
def handleSessionCreate (cfg : Settings) (s : Acceptor) (socket : ℕ) (line : Text) (saved : Bool) : Acceptor :=
  match replied line (ascii "SESSION") (ascii "STATUS") with
  | .success =>
    let key := toStandardBase64 (toValue (toTokens line) (ascii "DESTINATION"))
    if !cfg.toSelf key then s.handleAccept socket .samInvalidKey
    else if cfg.transient && !saved then s.handleAccept socket .fileSave
    else { s with stage := .sessionReady socket }
  | ec => s.handleAccept socket ec

def doSessionReady (s : Acceptor) (socket : ℕ) : Acceptor :=
  if s.stopped then (s.halt socket).complete .serviceStopped
  else { { s with session := some socket }.watch socket with stage := .forwardConnect }

def handleForwardConnect (s : Acceptor) (ec : Code) : Acceptor :=
  if ec ≠ .success then s.doTeardown.complete ec
  else { s.openSocket with stage := .forwardHello s.opened }

def handleForwardHello (s : Acceptor) (socket : ℕ) (line : Text) : Acceptor :=
  match replied line (ascii "HELLO") (ascii "REPLY") with
  | .success =>
    { s with stage := .forwardStatus socket, registered := Function.update s.registered socket s.id }
  | ec => s.handleAccept socket ec

def handleForwardStatus (s : Acceptor) (socket : ℕ) (line : Text) : Acceptor :=
  match replied line (ascii "STREAM") (ascii "STATUS") with
  | .success => { s with stage := .forwardReady socket }
  | ec => s.handleAccept socket ec

def doForwardReady (s : Acceptor) (socket : ℕ) : Acceptor :=
  if s.stopped then (s.halt socket).complete .serviceStopped
  else ({ s with forward := some socket }.watch socket).listen

def doClose (s : Acceptor) (socket : ℕ) : Acceptor :=
  if s.session.isNone && s.forward.isNone then s
  else ({ s with teardowns := s.teardowns ++ [⟨socket, s.session, s.forward⟩] } : Acceptor).doTeardown

/-- `acceptor_sam::handle_accept`, of the listener. -/
def handleForwarded (s : Acceptor) (ec : Code) : Acceptor :=
  if ec ≠ .success then s.doHandleAccept ec else { s with stage := .peer }

/-- The first line of a stream is the destination of its peer. -/
def handlePeer (cfg : Settings) (s : Acceptor) (line : Text) : Acceptor :=
  match toTokens line with
  | [] => { s with stage := .accepted .samResponseInvalid }
  | destination :: _ =>
    if !cfg.decodeBase64 (toStandardBase64 destination) then
      { s with stage := .accepted .samResponseInvalid }
    else { s with stage := .handshake }

/-- A line is read, where it is not too long. -/
def handleLine (cfg : Settings) (s : Acceptor) (line : Text) (saved : Bool) : Acceptor :=
  match s.stage with
  | .sessionHello socket =>
    if maximumLine ≤ line.length then s.handleAccept socket .samResponseInvalid
    else s.handleSessionHello socket line
  | .sessionCreate socket =>
    if maximumLine ≤ line.length then s.handleAccept socket .samResponseInvalid
    else s.handleSessionCreate cfg socket line saved
  | .forwardHello socket =>
    if maximumLine ≤ line.length then s.handleAccept socket .samResponseInvalid
    else s.handleForwardHello socket line
  | .forwardStatus socket =>
    if maximumLine ≤ line.length then s.handleAccept socket .samResponseInvalid
    else s.handleForwardStatus socket line
  | .peer =>
    if maximumLine ≤ line.length then { s with stage := .accepted .samResponseInvalid }
    else s.handlePeer cfg line
  | _ => s

/-- A line is not read, or its request not written. -/
def handleFailure (s : Acceptor) (ec : Code) : Acceptor :=
  match s.stage with
  | .sessionHello socket | .sessionCreate socket | .forwardHello socket | .forwardStatus socket =>
    s.handleAccept socket ec
  | .peer => { s with stage := .accepted ec }
  | _ => s

/-- A job that is posted to the strand. -/
def runJob (s : Acceptor) : Acceptor :=
  match s.stage with
  | .sessionReady socket => s.doSessionReady socket
  | .forwardReady socket => s.doForwardReady socket
  | .failed socket ec => (s.halt socket).complete ec
  | .accepted ec => s.doHandleAccept ec
  | _ => s

/-- An accept is called, with the random id of its session; a connect, the listener or a
handshake completes; a line is read or the socket fails; a posted job is run; the watch of a
control socket reports, and the report is run; the service is suspended or resumed; and the
acceptor is stopped. -/
inductive Event
  | accept (paired : Bool) (id : ℕ)
  | connected (ec : Code)
  | line (line : Text) (saved : Bool)
  | failed (value : ℕ)
  | job
  | report (socket : ℕ)
  | close (socket : ℕ)
  | forwarded (ec : Code)
  | shaken (ec : Code)
  | suspend (suspended : Bool)
  | stop

def step (cfg : Settings) (s : Acceptor) : Event → Acceptor
  | .accept paired id => if s.stage = .idle then s.accept paired id else s
  | .connected ec =>
    match s.stage with
    | .sessionConnect => s.handleSessionConnect ec
    | .forwardConnect => s.handleForwardConnect ec
    | _ => s
  | .line line saved => s.handleLine cfg line saved
  | .failed value => s.handleFailure (.other value)
  | .job => s.runJob
  | .report socket =>
    if s.watched socket then
      { s with watched := Function.update s.watched socket false, closes := s.closes ++ [socket] }
    else s
  | .close socket =>
    if socket ∈ s.closes then { s with closes := s.closes.erase socket }.doClose socket else s
  | .forwarded ec => if s.stage = .listening then s.handleForwarded ec else s
  | .shaken ec => if s.stage = .handshake then { s with stage := .accepted ec } else s
  | .suspend suspended => { s with suspended := suspended }
  | .stop => s.stop

end Acceptor

end BitcoinNetwork.Sam
