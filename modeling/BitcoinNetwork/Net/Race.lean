import Mathlib.Data.List.Basic

/-!
# Races (async/races/race_speed.hpp, async/races/race_quality.hpp)

The handler is invoked once the last of the runners has finished, with what the first of
them finished with, or with what the first that succeeded did.
-/

namespace BitcoinNetwork.Net
variable {Handler Args : Type}

/-- `race_speed`. -/
structure RaceSpeed (Handler Args : Type) where
  size : ℕ
  runners : ℕ := 0
  args : Option Args := none
  complete : Option Handler := none

namespace RaceSpeed

/-- `running`. -/
def running (r : RaceSpeed Handler Args) : Bool := r.runners != 0

/-- `start`. -/
def start (r : RaceSpeed Handler Args) (complete : Handler) : RaceSpeed Handler Args :=
  if r.running then r else { r with complete := some complete, runners := r.size }

/-- `is_winner`. -/
def isWinner (r : RaceSpeed Handler Args) : Bool := r.runners == r.size

/-- `finish` and `invoke`: the handler that is invoked, with its arguments. -/
def finish (r : RaceSpeed Handler Args) (args : Args) :
    RaceSpeed Handler Args × Option (Handler × Option Args) :=
  if ¬r.running then (r, none)
  else
    let r := { r with args := if r.isWinner then some args else r.args, runners := r.runners - 1 }
    if r.running then (r, none)
    else
      match r.complete with
      | none => (r, none)
      | some complete => ({ r with complete := none, args := none }, some (complete, r.args))

/-- The first of two runners wins, and no handler is invoked. -/
theorem finish_first {r : RaceSpeed Handler Args} (hsize : r.size = 2) (hrunners : r.runners = 2)
    (args : Args) : r.finish args = ({ r with args := some args, runners := 1 }, none) := by
  unfold finish running isWinner
  simp [hsize, hrunners]

/-- The last of two runners has the handler invoked with what the first finished with. -/
theorem finish_last {r : RaceSpeed Handler Args} (hsize : r.size = 2) (hrunners : r.runners = 1)
    {complete : Handler} (hcomplete : r.complete = some complete) (args : Args) :
    r.finish args =
      ({ r with runners := 0, complete := none, args := none }, some (complete, r.args)) := by
  unfold finish running isWinner
  simp [hsize, hrunners, hcomplete]

theorem start_idle {r : RaceSpeed Handler Args} (hrunners : r.runners = 0) (complete : Handler) :
    r.start complete = { r with complete := some complete, runners := r.size } := by
  unfold start running
  simp [hrunners]

end RaceSpeed

/-- `race_quality`. -/
structure RaceQuality (Handler Args : Type) where
  size : ℕ
  runners : ℕ := 0
  success : Bool := false
  args : Option Args := none
  complete : Option Handler := none

namespace RaceQuality

/-- `running`. -/
def running (r : RaceQuality Handler Args) : Bool := r.runners != 0

/-- `start`. -/
def start (r : RaceQuality Handler Args) (complete : Handler) : RaceQuality Handler Args :=
  if r.running then r else { r with complete := some complete, success := false, runners := r.size }

/-- `finish`, `set_winner` and `invoke`: whether the finisher is the winner, and the handler
that is invoked, with its arguments. -/
def finish (r : RaceQuality Handler Args) (success : Bool) (args : Args) :
    RaceQuality Handler Args × Bool × Option (Handler × Option Args) :=
  if ¬r.running then (r, false, none)
  else
    let winner := success && !r.success
    let r := { r with success := r.success || success }
    let last := r.runners == 1
    let r :=
      { r with
        args := if winner || (last && !r.success) then some args else r.args
        runners := r.runners - 1 }
    if r.running then (r, winner, none)
    else
      match r.complete with
      | none => (r, false, none)
      | some complete => ({ r with complete := none, args := none }, winner, some (complete, r.args))

/-- A finisher that is not the last wins where it is the first to succeed. -/
theorem finish_going {r : RaceQuality Handler Args} (hrunners : 1 < r.runners) (success : Bool)
    (args : Args) : r.finish success args =
      ({ r with
          success := r.success || success
          args := if success && !r.success then some args else r.args
          runners := r.runners - 1 }, success && !r.success, none) := by
  have hlast : ¬r.runners = 1 := by omega
  have hmore : ¬r.runners - 1 = 0 := by omega
  have hrunning : ¬r.runners = 0 := by omega
  unfold finish running
  simp [hlast, hmore, hrunning]

/-- Behind the last, the handler is invoked with what the winner finished with, or the last. -/
theorem finish_end {r : RaceQuality Handler Args} (hrunners : r.runners = 1) {complete : Handler}
    (hcomplete : r.complete = some complete) (success : Bool) (args : Args) :
    r.finish success args =
      ({ r with success := r.success || success, args := none, runners := 0, complete := none },
        success && !r.success, some (complete, if r.success then r.args else some args)) := by
  unfold finish running
  cases hsuccess : r.success with
  | false =>
    cases success with
    | false => simp [hrunners, hcomplete, hsuccess]
    | true => simp [hrunners, hcomplete, hsuccess]
  | true => simp [hrunners, hcomplete, hsuccess]

end RaceQuality

end BitcoinNetwork.Net
