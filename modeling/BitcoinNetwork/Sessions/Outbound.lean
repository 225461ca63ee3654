import BitcoinNetwork.Async.Transition
import BitcoinNetwork.Net.Code

/-!
# Connect cycles of outbound slots (sessions/session_outbound.cpp)

A slot is served by a chain of callbacks on the network strand: a race of connectors,
then a channel until it stops, or a timer, and again. Each compares its slot with the
count when it is invoked, and is the last of its chain where the slot is at or above.
-/

namespace BitcoinNetwork.Sessions
open Net Async

/-- A cycle waits for its race of connectors, for its timer, or for its channel to
stop, where `peak` is the largest count in force since the channel started. -/
inductive Form
  | connecting
  | deferred
  | started (peak : ℕ)
  deriving DecidableEq

structure Cycle where
  slot : ℕ
  form : Form
  deriving DecidableEq

/-- An outbound session, with the cycles that are live. -/
structure Outbound where
  connections : ℕ
  stopped : Bool
  cycles : List Cycle := []

/-- The count changes while a channel is started. -/
def Cycle.raise (count : ℕ) (c : Cycle) : Cycle :=
  match c.form with
  | .started peak => { c with form := .started (max peak count) }
  | .connecting | .deferred => c

namespace Outbound

/-- `start_connect`. -/
def startConnect (s : Outbound) (slot : ℕ) : Outbound :=
  if s.stopped then s
  else if slot ≥ s.connections then s
  else { s with cycles := ⟨slot, .connecting⟩ :: s.cycles }

/-- `handle_started`. -/
def handleStarted (s : Outbound) : Outbound :=
  (List.range s.connections).foldl startConnect s

/-- `set_connections`, where the broadcast to the channels of the slots at or above the
count has no part in what becomes of the cycles. -/
def setConnections (s : Outbound) (count : ℕ) : Outbound :=
  if count = s.connections then s
  else
    let previous := s.connections
    let s := { s with connections := count, cycles := s.cycles.map (Cycle.raise count) }
    if s.stopped then s
    else if count < previous then s
    else (List.range' previous (count - previous)).foldl startConnect s

/-- `defer` to `start_connect`. -/
def deferConnect (s : Outbound) (slot : ℕ) : Outbound :=
  { s with cycles := ⟨slot, .deferred⟩ :: s.cycles }

/-- `start_channel` of the channel that has connected. -/
def startChannel (s : Outbound) (slot : ℕ) : Outbound :=
  { s with cycles := ⟨slot, .started s.connections⟩ :: s.cycles }

/-- `handle_connect`, which waits longer where the pool of addresses is empty. -/
def handleConnect (s : Outbound) (ec : Code) (slot : ℕ) : Outbound :=
  if s.stopped then s
  else if slot ≥ s.connections then s
  else if ec ≠ .success then s.deferConnect slot
  else s.startChannel slot

/-- `handle_channel_stop`. -/
def handleChannelStop (s : Outbound) (slot : ℕ) : Outbound := s.startConnect slot

/-- The count is set, or the callback of a cycle is invoked, with the code of the race
where it is one. -/
inductive Change
  | set (count : ℕ)
  | next (c : Cycle) (ec : Code)

def step (s : Outbound) : Change → Outbound
  | .set count => s.setConnections count
  | .next c ec =>
    if c ∈ s.cycles then
      let s := { s with cycles := s.cycles.erase c }
      match c.form with
      | .connecting => s.handleConnect ec c.slot
      | .deferred => s.startConnect c.slot
      | .started _ => s.handleChannelStop c.slot
    else s

/-- The session, started with a count. -/
def create (count : ℕ) : Outbound := { connections := count, stopped := false : Outbound }.handleStarted

/-- The channels whose stop is not handled. -/
def channels (s : Outbound) : List Cycle := s.cycles.filter (·.form matches .started _)

end Outbound

end BitcoinNetwork.Sessions
