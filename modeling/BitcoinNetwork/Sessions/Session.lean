import BitcoinNetwork.Async.Transition
import BitcoinNetwork.Net.Code
import Mathlib.Algebra.GroupWithZero.Nat
import Mathlib.Logic.Function.Basic

/-!
# Channels of a session, from start to stop (sessions/session.cpp)

A session starts its channels on the network strand, and goes on from one to the
other of the strand of the network and that of the channel, while a channel may
be stopped from any thread (net/proxy.cpp). The starter and the stopper are those
of a server, which counts its channels (sessions/session_server.cpp).
-/

namespace BitcoinNetwork.Sessions
open Net Async

/-- The jobs of the strand of a channel: `do_attach_handshake`,
`do_subscribe_stop`, `do_attach_protocols` and `stopping`. -/
inductive ChannelJob
  | attachHandshake
  | subscribeStop
  | attachProtocols
  | stopping (code : Code)
  deriving DecidableEq

/-- An invocation of the starter or of the stopper of a channel. -/
inductive Report
  | started (code : Code)
  | stopped (code : Code)
  deriving DecidableEq

/-- A channel, with the calls of `stop` that have found it running, those that have
stopped its socket and are yet to post, and its stop subscriber. -/
structure Channel where
  jobs : List ChannelJob := []
  handshaking : Bool := false
  stopped : Bool := false
  entered : ℕ := 0
  posting : List Code := []
  subscribed : Bool := false
  subscriberStopped : Bool := false
  reports : List Report := []

/-- The jobs of the strand of the network: `do_handle_handshake`, what
`subscribe_stop` does once it has found the channel running,
`do_handle_channel_started`, the starter and `do_handle_channel_stopped`. -/
inductive NetworkJob
  | handshaken (code : Code)
  | subscribe
  | started (code : Code)
  | complete
  | stopped (code : Code)
  deriving DecidableEq

/-- A session, the channels that it was given, numbered in order, and the count of
`session_server`. -/
structure Session where
  isStopped : Bool := false
  given : ℕ := 0
  channel : ℕ → Channel := fun _ => {}
  network : List (ℕ × NetworkJob) := []
  count : ℕ := 0

/-- The largest `size_t`. -/
def maximumSize : ℕ := 2 ^ 64 - 1

namespace Channel

/-- `proxy::stop` as a whole. -/
def stop (c : Channel) (code : Code) : Channel :=
  if c.stopped then c else { c with stopped := true, jobs := c.jobs ++ [.stopping code] }

end Channel

namespace Session

def update (s : Session) (k : ℕ) (c : Channel) : Session :=
  { s with channel := Function.update s.channel k c }

/-- A post to the strand of the network. -/
def post (s : Session) (k : ℕ) (job : NetworkJob) : Session :=
  { s with network := s.network ++ [(k, job)] }

/-- A post to the strand of a channel. -/
def postChannel (s : Session) (k : ℕ) (job : ChannelJob) : Session :=
  s.update k { s.channel k with jobs := (s.channel k).jobs ++ [job] }

def report (s : Session) (k : ℕ) (report : Report) : Session :=
  s.update k { s.channel k with reports := (s.channel k).reports ++ [report] }

/-- The starter, `session_server::handle_channel_start`. -/
def handleChannelStart (s : Session) (k : ℕ) (code : Code) : Session :=
  { s.report k (.started code) with count := min (s.count + 1) maximumSize }

/-- The stopper, `session_server::handle_channel_stop`. -/
def handleChannelStop (s : Session) (k : ℕ) (code : Code) : Session :=
  { s.report k (.stopped code) with count := s.count - 1 }

/-- `start_channel`. -/
def startChannel (s : Session) : Session :=
  let k := s.given
  let s := { s with given := s.given + 1 }
  if s.isStopped then
    let s := s.update k ((s.channel k).stop .serviceStopped)
    (s.handleChannelStart k .serviceStopped).handleChannelStop k .serviceStopped
  else s.postChannel k .attachHandshake

/-- `handle_handshake`. -/
def handleHandshake (s : Session) (k : ℕ) (code : Code) : Session :=
  let c := { s.channel k with handshaking := false }
  (s.update k (if code ≠ .success then c.stop code else c)).post k (.handshaken code)

/-- The front of `subscribe_stop`. -/
def subscribeStop (s : Session) (k : ℕ) : Session :=
  if (s.channel k).stopped then
    (s.post k (.started .channelStopped)).post k (.stopped .channelStopped)
  else { s with network := (k, .subscribe) :: s.network }

/-- A job of the strand of the network. -/
def runNetworkJob (s : Session) (k : ℕ) : NetworkJob → Session
  | .handshaken code =>
    if code ≠ .success then (s.handleChannelStart k code).handleChannelStop k code
    else s.subscribeStop k
  | .subscribe => s.postChannel k .subscribeStop
  | .started code =>
    if code ≠ .success then s.handleChannelStart k code else s.postChannel k .attachProtocols
  | .complete => s.handleChannelStart k .success
  | .stopped code => s.handleChannelStop k code

/-- A job of the strand of a channel. -/
def runChannelJob (s : Session) (k : ℕ) : ChannelJob → Session
  | .attachHandshake => s.update k { s.channel k with handshaking := true }
  | .subscribeStop =>
    if (s.channel k).subscriberStopped then
      (s.post k (.stopped .subscriberStopped)).post k (.started .success)
    else (s.update k { s.channel k with subscribed := true }).post k (.started .success)
  | .attachProtocols => s.post k .complete
  | .stopping code =>
    if (s.channel k).subscriberStopped then s
    else
      let stopped :=
        s.update k { s.channel k with subscribed := false, subscriberStopped := true }
      if (s.channel k).subscribed then stopped.post k (.stopped code) else stopped

/-- A channel is given to the session, or the session is stopped; a call of `stop`
on any thread finds a channel running, then stops its socket and then posts; the
handshake of a channel ends; or a strand runs its next job. -/
inductive Event
  | start
  | close
  | enter (k : ℕ)
  | finish (k : ℕ) (code : Code)
  | post (k : ℕ)
  | handshake (k : ℕ) (code : Code)
  | runNetwork
  | runChannel (k : ℕ)

def step (s : Session) : Event → Session
  | .start => s.startChannel
  | .close => { s with isStopped := true }
  | .enter k =>
    if (s.channel k).stopped then s
    else s.update k { s.channel k with entered := (s.channel k).entered + 1 }
  | .finish k code =>
    if (s.channel k).entered = 0 then s
    else
      s.update k
        { s.channel k with
          entered := (s.channel k).entered - 1
          stopped := true
          posting := (s.channel k).posting ++ [code] }
  | .post k =>
    match (s.channel k).posting with
    | [] => s
    | code :: posting =>
      s.update k
        { s.channel k with posting := posting, jobs := (s.channel k).jobs ++ [.stopping code] }
  | .handshake k code => if (s.channel k).handshaking then s.handleHandshake k code else s
  | .runNetwork =>
    match s.network with
    | [] => s
    | (k, job) :: network => { s with network := network }.runNetworkJob k job
  | .runChannel k =>
    match (s.channel k).jobs with
    | [] => s
    | job :: jobs => (s.update k { s.channel k with jobs := jobs }).runChannelJob k job

end Session

end BitcoinNetwork.Sessions
