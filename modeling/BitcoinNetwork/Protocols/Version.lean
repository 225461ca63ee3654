import BitcoinNetwork.Channels.Gate
import Mathlib.Data.List.Basic
import Mathlib.Data.Nat.Bitwise

/-!
# The version handshake of a peer (protocols/protocol_version_106.cpp to 70016.cpp)

The protocol runs on the strand of its channel. What it sends beside its version and the
acknowledgement, and what only changes how compact blocks are announced, is left out.
-/

namespace BitcoinNetwork.Protocols
open Async Channels

inductive Fault
  | invalidConfiguration
  | protocolViolation
  | peerUnsupported
  | peerInsufficient
  | peerTimestamp
  | channelTimeout
  | operationCanceled
  | stopped
  deriving DecidableEq

inductive Result
  | success
  | failure (fault : Fault)
  deriving DecidableEq

namespace Level

def minimumProtocol : ℕ := 31402
def maximumProtocol : ℕ := 70016
def bip339 : ℕ := 70016

end Level

/-- The settings of the protocol, whether the handshake is timed, whether the protocol is
that of 70016, and `wall_clock::from_time_t`, in nanoseconds. -/
structure Settings where
  minimumVersion : ℕ
  maximumVersion : ℕ
  requiredServices : ℕ
  invalidServices : ℕ
  maximumSkewMinutes : ℕ
  timed : Bool
  signals : Bool
  fromTimeT : ℕ → ℤ

structure Version where
  value : ℕ
  services : ℕ
  timestamp : ℕ
  deriving DecidableEq

/-- A message of the peer, a version with the wall clock of its dispatch. -/
inductive Message
  | version (message : Version) (now : ℤ)
  | versionAcknowledge
  | sendAddressV2
  | witnessTxIdRelay
  | other
  deriving DecidableEq

namespace Settings

/-- The difference is one of signed counts of 64 bits, which wraps. -/
def toDeviation (cfg : Settings) (timestamp : ℕ) (now : ℤ) : ℤ :=
  ((cfg.fromTimeT timestamp - now).bmod (2 ^ 64)).tdiv (60 * 1000000000)

/-- Why `handle_receive_version` rejects a version. -/
def refusal (cfg : Settings) (message : Version) (now : ℤ) : Option Fault :=
  if message.services &&& cfg.invalidServices ≠ 0 then some .peerUnsupported
  else if message.services &&& cfg.requiredServices ≠ cfg.requiredServices then some .peerInsufficient
  else if message.value < cfg.minimumVersion then some .peerInsufficient
  else if cfg.maximumSkewMinutes < (cfg.toDeviation message.timestamp now).natAbs then
    some .peerTimestamp
  else none

/-- The configuration is one that `shake` goes on with. -/
def Valid (cfg : Settings) : Prop :=
  Level.minimumProtocol ≤ cfg.minimumVersion ∧ cfg.maximumVersion ≤ Level.maximumProtocol ∧
    cfg.minimumVersion ≤ cfg.maximumVersion

instance (cfg : Settings) : Decidable cfg.Valid := inferInstanceAs (Decidable (_ ∧ _ ∧ _))

end Settings

/-- The handshake timer, with the completion that is posted once it expires or is canceled. -/
inductive Timer
  | idle
  | waiting
  | expired
  | canceled
  deriving DecidableEq

def Timer.stop : Timer → Timer
  | .waiting => .canceled
  | timer => timer

/-- How far a dispatch has come: no handler was notified, one has yet to pause or complete,
or all are done. -/
inductive Stage
  | idle
  | message (m : Message)
  | version
  | acknowledge
  | handled
  deriving DecidableEq

/-- A channel with its version protocol, the calls of the handler, the messages that were
dispatched, and whether the session has attached its protocols. -/
structure Handshake where
  channel : Channel := { http := false }
  handler : Bool := false
  results : List Result := []
  receivedVersion : Bool := false
  receivedAcknowledge : Bool := false
  complete : Bool := false
  peerVersion : Option Version := none
  negotiatedVersion : ℕ
  wantsAddressV2 : Bool := false
  wantsWitnessTx : Bool := false
  onVersion : Bool := false
  onAcknowledge : Bool := false
  onAddressV2 : Bool := false
  onWitnessTx : Bool := false
  versionSends : ℕ := 0
  acknowledgeSends : ℕ := 0
  timer : Timer := .idle
  stage : Stage := .idle
  log : List Message := []
  attached : Bool := false

namespace Handshake

def stop (s : Handshake) : Handshake := { s with channel := s.channel.stop true }

/-- `complete()`, which is not the flag of 70016. -/
def isComplete (s : Handshake) : Bool := s.receivedVersion && s.receivedAcknowledge

/-- `session::handle_handshake`, that is the handler. -/
def handleHandshake (s : Handshake) (result : Result) : Handshake :=
  let s := { s with results := s.results ++ [result] }
  match result with
  | .success => s
  | .failure _ => s.stop

def callback (s : Handshake) (result : Result) : Handshake :=
  let s := { s with timer := s.timer.stop }
  if s.handler then { s with handler := false }.handleHandshake result else s

/-- `rejection`, as also a protocol that sends a reject ends it. -/
def rejection (s : Handshake) (fault : Fault) : Handshake := s.callback (.failure fault)

def shake (cfg : Settings) : Handshake :=
  let s : Handshake := { handler := true, negotiatedVersion := cfg.maximumVersion }
  let s := if cfg.signals then { s with onAddressV2 := true, onWitnessTx := true } else s
  if cfg.minimumVersion < Level.minimumProtocol then s.callback (.failure .invalidConfiguration)
  else if Level.maximumProtocol < cfg.maximumVersion then
    s.callback (.failure .invalidConfiguration)
  else if cfg.maximumVersion < cfg.minimumVersion then s.callback (.failure .invalidConfiguration)
  else { s with onVersion := true, onAcknowledge := true, versionSends := 1 }

def stopping (s : Handshake) : Handshake := s.callback (.failure .stopped)

def handleTimer (s : Handshake) (canceled : Bool) : Handshake :=
  if s.channel.stopped then s
  else if canceled then s.callback (.failure .operationCanceled)
  else s.callback (.failure .channelTimeout)

/-- A failed send stops the channel before its handler is called. -/
def handleSend (s : Handshake) (failed : Bool) : Handshake := if failed then s.stop else s

def handleSendVersion (cfg : Settings) (s : Handshake) (failed : Bool) : Handshake :=
  if s.channel.stopped || failed || s.isComplete then s
  else if cfg.timed then { s with timer := .waiting }
  else s

def handleSendAcknowledge (s : Handshake) (failed : Bool) : Handshake :=
  if s.channel.stopped || failed then s
  else if s.isComplete then s.callback .success
  else s

/-- A message that came before, of which no more than one is allowed. -/
def duplicate (s : Handshake) : Handshake :=
  if s.isComplete then s.stop else s.rejection .protocolViolation

/-- `handle_receive_acknowledge`, before it pauses. -/
def handleReceiveAcknowledge (cfg : Settings) (s : Handshake) : Handshake :=
  let s := { s with complete := cfg.signals || s.complete }
  if s.channel.stopped then { s with onAcknowledge := false, stage := .handled }
  else if s.receivedAcknowledge then { s.duplicate with onAcknowledge := false, stage := .handled }
  else { s with receivedAcknowledge := true, stage := .acknowledge }

/-- `handle_receive_version`, before it pauses. -/
def handleReceiveVersion (cfg : Settings) (s : Handshake) (message : Version) (now : ℤ) : Handshake :=
  if s.channel.stopped then { s with stage := .handled }
  else if s.receivedVersion then { s.duplicate with onVersion := false, stage := .handled }
  else
    match cfg.refusal message now with
    | some fault => { s.rejection fault with onVersion := false, stage := .handled }
    | none =>
      { s with
        negotiatedVersion := min message.value cfg.maximumVersion
        peerVersion := some message
        acknowledgeSends := s.acknowledgeSends + 1
        receivedVersion := true
        stage := .version }

/-- A signal before the version, of which the value is then zero, or after the verack. -/
def misplaced (s : Handshake) : Bool := (s.peerVersion.map (·.value)).getD 0 == 0 || s.complete

def handleReceiveSendAddressV2 (s : Handshake) : Handshake :=
  if s.channel.stopped then { s with onAddressV2 := false, stage := .handled }
  else if s.misplaced then { s.stop with onAddressV2 := false, stage := .handled }
  else { s with wantsAddressV2 := true, stage := .handled }

def handleReceiveWitnessTxIdRelay (s : Handshake) : Handshake :=
  if s.channel.stopped then { s with onWitnessTx := false, stage := .handled }
  else if s.misplaced then { s.stop with onWitnessTx := false, stage := .handled }
  else if Level.bip339 ≤ s.negotiatedVersion then
    { s with wantsWitnessTx := true, stage := .handled }
  else { s with stage := .handled }

/-- The protocol is notified of a message. -/
def notify (cfg : Settings) (s : Handshake) (m : Message) : Handshake :=
  let ignored := { s with stage := .handled }
  match m with
  | .version message now => if s.onVersion then s.handleReceiveVersion cfg message now else ignored
  | .versionAcknowledge => if s.onAcknowledge then s.handleReceiveAcknowledge cfg else ignored
  | .sendAddressV2 => if s.onAddressV2 then s.handleReceiveSendAddressV2 else ignored
  | .witnessTxIdRelay => if s.onWitnessTx then s.handleReceiveWitnessTxIdRelay else ignored
  | .other => ignored

def pause (s : Handshake) : Handshake := { s with channel := s.channel.pause }

/-- The end of `handle_receive_acknowledge` or of `handle_receive_version`. -/
def conclude (s : Handshake) : Handshake :=
  match s.stage with
  | .version =>
    let s := if s.receivedAcknowledge then s.pause else s
    { s with stage := .handled }
  | .acknowledge =>
    let s := if s.receivedVersion then s.pause else s
    let s := if s.isComplete then s.callback .success else s
    { s with stage := .handled }
  | _ => s

/-- The session begins the read loop, or attaches its protocols; a message is read, or the
read fails; the protocol is notified and concludes; the dispatch ends; a send completes; the
timer expires or completes; and what else a channel does. A stop may come between any two. -/
inductive Event
  | begin
  | received (m : Message)
  | failed
  | notify
  | conclude
  | dispatched (failed : Bool)
  | take (n : ℕ)
  | release (n : ℕ)
  | rearm
  | stop (stranded : Bool)
  | stopping
  | sentVersion (failed : Bool)
  | sentAcknowledge (failed : Bool)
  | expire
  | timer
  | attach

/-- While a dispatch is under way the strand runs nothing else. -/
def step (cfg : Settings) (s : Handshake) : Event → Handshake
  | .begin => if s.channel.begun then s else { s with channel := s.channel.resume }
  | .received m =>
    if s.channel.reads = 0 ∨ s.channel.gate.isSome ∨ s.channel.stopped then
      { s with channel := s.channel.step (.received false) }
    else
      { s with channel := s.channel.step (.received false), stage := .message m, log := s.log ++ [m] }
  | .failed => { s with channel := s.channel.step (.received true) }
  | .notify =>
    match s.stage with
    | .message m => s.notify cfg m
    | _ => s
  | .conclude => s.conclude
  | .dispatched failed =>
    match s.stage with
    | .message _ =>
      if failed then { s with channel := s.channel.step (.dispatched true), stage := .idle } else s
    | .handled => { s with channel := s.channel.step (.dispatched failed), stage := .idle }
    | _ => s
  | .take n => { s with channel := s.channel.step (.take n) }
  | .release n => { s with channel := s.channel.step (.release n) }
  | .rearm => { s with channel := s.channel.step .rearm }
  | .stop stranded => { s with channel := s.channel.stop stranded }
  | .stopping =>
    if s.channel.stoppings = 0 ∨ s.channel.gate.isSome then s
    else { s with channel := s.channel.step .stopping }.stopping
  | .sentVersion failed =>
    if s.versionSends = 0 ∨ s.channel.gate.isSome then s
    else ({ s with versionSends := s.versionSends - 1 }.handleSend failed).handleSendVersion cfg failed
  | .sentAcknowledge failed =>
    if s.acknowledgeSends = 0 ∨ s.channel.gate.isSome then s
    else
      ({ s with acknowledgeSends := s.acknowledgeSends - 1 }.handleSend failed).handleSendAcknowledge
        failed
  | .expire => if s.timer = .waiting then { s with timer := .expired } else s
  | .timer =>
    if s.channel.gate.isSome then s
    else
      match s.timer with
      | .expired => { s with timer := .idle }.handleTimer false
      | .canceled => { s with timer := .idle }.handleTimer true
      | _ => s
  | .attach =>
    if s.results = [.success] ∧ s.attached = false ∧ s.channel.gate = none then
      { s with channel := s.channel.resume, attached := true }
    else s

end Handshake

end BitcoinNetwork.Protocols
