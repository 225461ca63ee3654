import BitcoinNetwork.Async.Transition
import BitcoinNetwork.Net.Code
import BitcoinNetwork.Net.Race

/-!
# Addresses of outbound connects (sessions/session_outbound.cpp)

A connect draws an address from the pool for each connector of a batch. An address is
restored to the pool, or is let go, by what its connector returned, with its batch, by the
race of the batch or by the channel that it has become.
-/

namespace BitcoinNetwork.Net.Code

/-! Codes that the reclaim of an address tells from the others. -/

def channelTimeout : Code := .other 0
def channelExpired : Code := .other 1
def peerDisconnect : Code := .other 2
def insufficientBuffer : Code := .other 3
def netUnreachable : Code := .other 4
def hostUnreachable : Code := .other 5
def socksNetUnreachable : Code := .other 6
def socksHostUnreachable : Code := .other 7
def addressNotFound : Code := .other 8

end BitcoinNetwork.Net.Code

namespace BitcoinNetwork.Sessions
open Net Async

/-- What a batch came to, for a draw that failed as unreachable: whether an outcome of it was
attributable, how many addresses it drew, what room the pool had, and which one it is. -/
structure Outage where
  attributable : Bool
  drawn : ℕ
  room : ℕ
  index : ℕ

/-- What was decided of a draw: the code that it failed with, whether its address was
restored, and what was read for it: whether the pool was full, and of its batch. -/
structure Fate where
  draw : ℕ
  ec : Code
  restored : Bool
  full : Bool
  outage : Option Outage := none

/-- A batch of connectors, with those that wait for an address, the draws that are to connect,
and the draws that failed as unreachable with their codes. -/
structure Batch where
  slot : ℕ
  taking : ℕ
  connecting : List ℕ := []
  racer : RaceQuality Unit (Code × Option ℕ)
  drawn : ℕ := 0
  attributable : Bool := false
  unreachable : List (ℕ × Code) := []

/-- A channel is in its handshake, is to subscribe to its stop, or has, where `code` is what
it was stopped with. -/
inductive Stage
  | handshaking
  | subscribing (code : Option Code)
  | running (code : Option Code)
  deriving DecidableEq

structure Connected where
  draw : ℕ
  slot : ℕ
  stage : Stage
  deriving DecidableEq

/-- An outbound session as it draws addresses, numbered in order, and the count of those in
the pool. -/
structure Draws where
  connectBatchSize : ℕ
  hostPoolCapacity : ℕ
  connections : ℕ
  addressCount : ℕ
  stopped : Bool := false
  draws : ℕ := 0
  batches : List Batch := []
  channels : List Connected := []
  fates : List Fate := []

def batchReclaim (ec : Code) : Bool :=
  ec = .netUnreachable || ec = .hostUnreachable || ec = .socksNetUnreachable ||
    ec = .socksHostUnreachable

def alwaysReclaim (ec : Code) : Bool :=
  ec = .success || ec = .operationCanceled || ec = .channelDropped || ec = .channelExpired

/-- The codes of `maybe_reclaim`. -/
def mayReclaim (ec : Code) : Bool :=
  ec = .operationTimeout || ec = .channelTimeout || ec = .peerDisconnect ||
    ec = .insufficientBuffer || batchReclaim ec

namespace Draws

/-- The host pool is full. -/
def full (s : Draws) : Bool := s.addressCount ≥ s.hostPoolCapacity

def maybeReclaim (s : Draws) (ec : Code) : Bool := if s.full then false else mayReclaim ec

/-- A draw is decided, where its code is `own`. -/
def decided (s : Draws) (draw : ℕ) (own : Code) (restored : Bool) : Draws :=
  { s with fates := s.fates ++ [{ draw := draw, ec := own, restored := restored, full := s.full }] }

/-- `reclaim` of a socket, the address of which is that of a draw. -/
def reclaimSocket (s : Draws) (ec : Code) (socket : Option ℕ) : Draws :=
  match socket with
  | none => s
  | some draw => s.decided draw ec (s.stopped || alwaysReclaim ec || s.maybeReclaim ec)

/-- `reclaim` of a channel, which was stopped with `own`. -/
def reclaimChannel (s : Draws) (ec own : Code) (draw : ℕ) : Draws :=
  s.decided draw own (s.stopped || alwaysReclaim ec || s.maybeReclaim ec)

/-- The connectors of a batch. -/
def startConnect (s : Draws) (slot : ℕ) : Draws :=
  if s.stopped then s
  else if slot ≥ s.connections then s
  else
    let racer : RaceQuality Unit (Code × Option ℕ) := { size := s.connectBatchSize }
    { s with
      batches := s.batches ++
        [{ slot := slot, taking := s.connectBatchSize, racer := racer.start () }] }

/-- What becomes of the unreachable members, once their batch is complete. -/
def reclaimUnreachable (s : Draws) (b : Batch) : Draws :=
  let minimum := min 2 s.connectBatchSize
  let room := s.hostPoolCapacity - s.addressCount
  let restores := decide (b.drawn ≥ minimum) && !b.attributable
  { s with
    fates := s.fates ++ b.unreachable.zipIdx.map fun (member, index) =>
      { draw := member.1, ec := member.2, restored := restores && decide (index < room),
        full := s.full, outage := some ⟨b.attributable, b.drawn, room, index⟩ } }

/-- `handle_connect`, which waits to connect again where there is no channel to start. -/
def handleConnect (s : Draws) (b : Batch) (ec : Code) (socket : Option ℕ) : Draws :=
  let s := s.reclaimUnreachable b
  if s.stopped then s.reclaimSocket ec socket
  else if b.slot ≥ s.connections then s.reclaimSocket ec socket
  else if ec ≠ .success then s
  else
    match socket with
    | none => s
    | some draw => { s with channels := ⟨draw, b.slot, .handshaking⟩ :: s.channels }

/-- The call of `finish` on the race of a batch, and whether it is won. -/
def finishRace (s : Draws) (index : ℕ) (b : Batch) (ec : Code) (socket : Option ℕ) : Draws × Bool :=
  let (racer, winner, invoked) := b.racer.finish (ec = .success) (ec, socket)
  let b := { b with racer := racer }
  match invoked with
  | none => ({ s with batches := s.batches.set index b }, winner)
  | some (_, args) =>
    let (ec, socket) := args.getD (.success, none)
    let s := { s with batches := s.batches.set index { b with unreachable := [] } }
    (s.handleConnect b ec socket, winner)

/-- `do_one`, which is given an address or a code. -/
def doOne (s : Draws) (index : ℕ) (b : Batch) (ec : Code) : Draws :=
  let b := { b with taking := b.taking - 1 }
  if ec ≠ .success then (s.finishRace index b ec none).1
  else
    let b := { b with drawn := b.drawn + 1 }
    let draw := s.draws
    let s := { s with draws := s.draws + 1 }
    if s.stopped then
      ((s.decided draw .serviceStopped true).finishRace index b .serviceStopped none).1
    else
      { s with batches := s.batches.set index { b with connecting := draw :: b.connecting } }

/-- `handle_one`, of a connector that returns a socket or none. A draw that it lets go is
decided with it. -/
def handleOne (s : Draws) (index : ℕ) (b : Batch) (draw : ℕ) (ec : Code) (socket : Bool) : Draws :=
  let b := { b with connecting := b.connecting.erase draw }
  let given := if socket then some draw else none
  let (s, b) :=
    if !socket && batchReclaim ec then (s, { b with unreachable := b.unreachable ++ [(draw, ec)] })
    else
      let b := if ec ≠ .operationTimeout then { b with attributable := true } else b
      if ec = .serviceSuspended || (!socket && s.maybeReclaim ec) then (s.decided draw ec true, b)
      else if socket then (s, b)
      else (s.decided draw ec false, b)
  let (s, winner) := s.finishRace index b ec given
  if winner then s else s.reclaimSocket ec given

/-- `handle_channel_stop` with a code, of a channel that was stopped with `own`. -/
def handleChannelStop (s : Draws) (c : Connected) (ec own : Code) : Draws :=
  ({ s with channels := s.channels.erase c }.reclaimChannel ec own c.draw).startConnect c.slot

/-- A slot connects; a take or a connect of a batch completes; the handshake of a channel
ends, a channel is stopped, subscribes to its stop or notifies it; and what else becomes of
the pool, the connections and the session. -/
inductive Event
  | start (slot : ℕ)
  | take (index : ℕ) (ec : Code)
  | connect (index draw : ℕ) (ec : Code) (socket : Bool)
  | handshake (c : Connected) (ec : Code)
  | stop (c : Connected) (ec : Code)
  | subscribe (c : Connected) (dispatched : Bool)
  | notify (c : Connected)
  | pool (count : ℕ)
  | set (connections : ℕ)
  | close

def replace (s : Draws) (c c' : Connected) : Draws := { s with channels := c' :: s.channels.erase c }

/-- The handshake of a channel ends, with what the channel was stopped with where it fails. -/
def handleHandshake (s : Draws) (c : Connected) (ec : Code) : Draws :=
  if c.stage ≠ .handshaking then s
  else if ec ≠ .success then s.handleChannelStop c ec ec
  else s.replace c { c with stage := .subscribing none }

/-- A channel is stopped behind its handshake. -/
def stopChannel (s : Draws) (c : Connected) (ec : Code) : Draws :=
  match c.stage with
  | .subscribing none => s.replace c { c with stage := .subscribing (some ec) }
  | .running none => s.replace c { c with stage := .running (some ec) }
  | _ => s

/-- The session subscribes to the stop of a channel, which refuses it where it is stopped,
before or behind its dispatch to the strand of the channel. -/
def subscribeStop (s : Draws) (c : Connected) (dispatched : Bool) : Draws :=
  match c.stage with
  | .subscribing none => s.replace c { c with stage := .running none }
  | .subscribing (some own) =>
    s.handleChannelStop c (if dispatched then .subscriberStopped else .channelStopped) own
  | _ => s

/-- The channel notifies the session of its stop. -/
def notify (s : Draws) (c : Connected) : Draws :=
  match c.stage with
  | .running (some own) => s.handleChannelStop c own own
  | _ => s

/-- A connector that succeeds returns its socket. -/
def step (s : Draws) : Event → Draws
  | .start slot => s.startConnect slot
  | .take index ec =>
    match s.batches[index]? with
    | none => s
    | some b => if b.taking = 0 then s else s.doOne index b ec
  | .connect index draw ec socket =>
    match s.batches[index]? with
    | none => s
    | some b =>
      if draw ∉ b.connecting ∨ (ec = .success ∧ socket = false) then s
      else s.handleOne index b draw ec socket
  | .handshake c ec => if c ∈ s.channels then s.handleHandshake c ec else s
  | .stop c ec => if c ∈ s.channels then s.stopChannel c ec else s
  | .subscribe c dispatched => if c ∈ s.channels then s.subscribeStop c dispatched else s
  | .notify c => if c ∈ s.channels then s.notify c else s
  | .pool count => { s with addressCount := count }
  | .set connections => { s with connections := connections }
  | .close => { s with stopped := true }

end Draws

end BitcoinNetwork.Sessions
