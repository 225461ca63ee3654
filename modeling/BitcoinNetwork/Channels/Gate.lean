import BitcoinNetwork.Async.Transition
import Mathlib.Logic.Function.Basic

/-!
# The gate of a dispatch (channels/channel.cpp, channel_peer.cpp, channel_http.cpp)

A channel reads a message, dispatches it, and reads the next once all that hold the gate
of the dispatch have released it. All but a release and a stop runs on its strand.
-/

namespace BitcoinNetwork.Channels
open Async

/-- What `held_` holds: the gate of a message, by number, or one of its own. -/
inductive Hold
  | message (n : ℕ)
  | own
  deriving DecidableEq

/-- A channel, with the reads that are outstanding, the references to the gate of each
message that handlers hold, the jobs of its strand for `do_receive`, for `stopping` and for
the end of a batch response that a stop is to close, and the rejections that are being sent.
The last five fields are for the sessions, which resume a channel once and then once behind
each pause, and for what is said of runs: that a pause was made during a dispatch and is yet
to be resumed, that stop was called, and how many messages were dispatched. -/
structure Channel where
  http : Bool
  stopped : Bool := false
  parted : Bool := false
  reading : Bool := false
  reads : ℕ := 0
  gate : Option ℕ := none
  held : Option Hold := none
  holders : ℕ → ℕ := fun _ => 0
  rearms : ℕ := 0
  stoppings : ℕ := 0
  closings : ℕ := 0
  rejecting : Bool := false
  begun : Bool := false
  due : Bool := true
  paused : Bool := false
  stopCalled : Bool := false
  messages : ℕ := 0

/-- The code of a completed http read. -/
inductive ReadCode
  | success
  | upgrade
  | failed
  deriving DecidableEq

/-- What `channel_http` reads of a completed read: whether the client is authorized, or may
be in-band, whether the socket is a websocket or downgraded, whether a websocket is accepted,
whether the code has a status to be answered with, and whether the params or the batch of
the request are refused. -/
structure Request where
  ec : ReadCode
  authorized : Bool
  inBand : Bool
  framed : Bool
  accepted : Bool
  answered : Bool
  refused : Bool

namespace Channel

/-- Something references the gate of a message. -/
def alive (s : Channel) (n : ℕ) : Bool :=
  s.holders n != 0 || s.gate == some n || s.held == some (.message n)

/-- The last reference to a gate posts `do_receive`. -/
def handleGate (s : Channel) (n : ℕ) : Channel :=
  if s.alive n then s else { s with rearms := s.rearms + 1 }

/-- `held_.reset()`. -/
def release (s : Channel) : Channel :=
  match s.held with
  | none => s
  | some .own => { s with held := none, rearms := s.rearms + 1 }
  | some (.message n) => { s with held := none }.handleGate n

def finishStop (s : Channel) : Channel := { s with stopped := true, stoppings := s.stoppings + 1 }

/-- `proxy::stop`, called on the strand or not. -/
def stop (s : Channel) (stranded : Bool) : Channel :=
  let s := { s with stopCalled := true }
  if s.stopped then s
  else if stranded && s.parted then { s with closings := s.closings + 1 }
  else s.finishStop

def receive (s : Channel) : Channel :=
  if s.stopped || s.reading then s else { s with reading := true, reads := s.reads + 1 }

def pause (s : Channel) : Channel :=
  let s := { s with due := true, paused := s.gate.isSome }
  if s.stopped then s
  else
    match s.gate with
    | some n => { s with held := some (.message n) }
    | none => { s with held := some .own }

def resume (s : Channel) : Channel :=
  let s := { s with due := false, begun := true, paused := false }
  match s.held with
  | some _ => s.release
  | none => s.receive

def openGate (s : Channel) : Channel :=
  { s with gate := some s.messages, messages := s.messages + 1 }

def closeGate (s : Channel) : Channel :=
  match s.gate with
  | none => s
  | some n => { s with gate := none }.handleGate n

/-- `channel_peer::handle_receive`, to the dispatch. -/
def handleReceivePeer (s : Channel) (failed : Bool) : Channel :=
  if s.stopped then s
  else if failed then s.stop true
  else { s with reading := false }.openGate

/-- `channel_http::dispatch`, to the dispatch. -/
def dispatch (s : Channel) (r : Request) : Channel :=
  if !r.framed && !r.authorized then { s with rejecting := true }
  else if r.refused then s.stop true
  else s.openGate

/-- `channel_http::handle_receive`. -/
def handleReceiveHttp (s : Channel) (r : Request) : Channel :=
  if s.stopped then s
  else
    match r.ec with
    | .upgrade =>
      let s := { s with reading := false }
      if !r.authorized && !r.inBand then { s with rejecting := true }
      else if !r.accepted then s.stop true
      else s.receive
    | .failed => if r.answered && !r.framed then { s with rejecting := true } else s.stop true
    | .success => { s with reading := false }.dispatch r

/-- Where a dispatch ends, `code` tells whether the notification has failed. -/
def dispatched (s : Channel) (failed : Bool) : Channel :=
  if failed then s.closeGate.stop true else s.closeGate

/-- A read completes, on a channel of a peer or of http; a dispatch takes or copies a
reference to a gate, or ends; a reference is released; the channel is paused, resumed or
stopped; the posted jobs run; and a batch response of http is opened or closed. -/
inductive Event
  | received (failed : Bool)
  | receivedHttp (r : Request)
  | take (n : ℕ)
  | dispatched (failed : Bool)
  | release (n : ℕ)
  | pause
  | resume
  | stop (stranded : Bool)
  | rearm
  | stopping
  | closed
  | rejected
  | part (parted : Bool)

/-- While a dispatch is under way the strand runs nothing else. -/
def step (s : Channel) : Event → Channel
  | .received failed =>
    if s.http || s.reads == 0 || s.gate.isSome then s
    else { s with reads := s.reads - 1 }.handleReceivePeer failed
  | .receivedHttp r =>
    if !s.http || s.reads == 0 || s.gate.isSome then s
    else { s with reads := s.reads - 1 }.handleReceiveHttp r
  | .take n =>
    if s.gate = some n ∨ s.holders n ≠ 0 then
      { s with holders := Function.update s.holders n (s.holders n + 1) }
    else s
  | .dispatched failed => if s.gate.isSome then s.dispatched failed else s
  | .release n =>
    if s.holders n = 0 then s
    else { s with holders := Function.update s.holders n (s.holders n - 1) }.handleGate n
  | .pause => if s.due then s else s.pause
  | .resume => if s.due then s.resume else s
  | .stop stranded => s.stop stranded
  | .rearm =>
    if s.rearms = 0 ∨ s.gate.isSome then s else { s with rearms := s.rearms - 1 }.receive
  | .stopping =>
    if s.stoppings = 0 ∨ s.gate.isSome then s else { s with stoppings := s.stoppings - 1 }.release
  | .closed =>
    if s.closings = 0 ∨ s.gate.isSome then s else { s with closings := s.closings - 1 }.finishStop
  | .rejected =>
    if !s.rejecting || s.gate.isSome then s else { s with rejecting := false }.stop true
  | .part parted => if s.http then { s with parted := parted } else s

end Channel

end BitcoinNetwork.Channels
