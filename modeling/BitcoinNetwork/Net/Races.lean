import BitcoinNetwork.Net.Race

/-!
# Races that settle (async/races)

A race is started with a handler, and each of its runners finishes once. What each finish
invokes is told in the order of the finishes.
-/

namespace BitcoinNetwork.Net

/-! ### Outputs of a system -/

section Outputs
variable {Race Finish Output : Type}

/-- What each input has a system put out, in order. -/
def outputs (finish : Race → Finish → Race × Output) : Race → List Finish → List Output
  | _, [] => []
  | r, x :: finishes => (finish r x).2 :: outputs finish (finish r x).1 finishes

/-- The system behind the inputs. -/
def behind (finish : Race → Finish → Race × Output) : Race → List Finish → Race
  | r, [] => r
  | r, x :: finishes => behind finish (finish r x).1 finishes

variable {finish : Race → Finish → Race × Output}

theorem outputs_append (r : Race) (finishes more : List Finish) :
    outputs finish r (finishes ++ more) =
      outputs finish r finishes ++ outputs finish (behind finish r finishes) more := by
  induction finishes generalizing r with
  | nil => rfl
  | cons x finishes ih => exact congrArg (_ :: ·) (ih _)

theorem behind_append (r : Race) (finishes more : List Finish) :
    behind finish r (finishes ++ more) = behind finish (behind finish r finishes) more := by
  induction finishes generalizing r with
  | nil => rfl
  | cons x finishes ih => exact ih _

/-- A counter that each input takes one from, while it has one. -/
theorem behind_countdown {runners : Race → ℕ}
    (h : ∀ r x, runners (finish r x).1 = runners r - 1) (r : Race) (finishes : List Finish) :
    runners (behind finish r finishes) = runners r - finishes.length := by
  induction finishes generalizing r with
  | nil => rfl
  | cons x finishes ih =>
    rw [behind, ih, h, List.length_cons]
    omega

/-- A race puts out what is expected of its finishes, and one runner finishes with each. -/
def Settles (runners : Race → ℕ) (finish : Race → Finish → Race × Output) (started : Race)
    (finishes : List Finish) (expected : List Output) : Prop :=
  outputs finish started finishes = expected ∧
    ∀ n, runners (behind finish started (finishes.take n)) = finishes.length - n

theorem settles {runners : Race → ℕ} {started : Race} {finishes : List Finish}
    {expected : List Output} (houtputs : outputs finish started finishes = expected)
    (hrunners : runners started = finishes.length)
    (h : ∀ r x, runners (finish r x).1 = runners r - 1) :
    Settles runners finish started finishes expected := by
  refine ⟨houtputs, fun n => ?_⟩
  rw [behind_countdown h, hrunners, List.length_take]
  omega

/-- The first input that is told apart, or the last. -/
def firstOrLast (p : Finish → Bool) (finishes : List Finish) : Option Finish :=
  (finishes.find? p).or finishes.getLast?

theorem firstOrLast_singleton (p : Finish → Bool) (x : Finish) : firstOrLast p [x] = some x := by
  unfold firstOrLast
  rw [List.find?_cons]
  cases p x with
  | true => rfl
  | false => rfl

theorem firstOrLast_cons_cons (p : Finish → Bool) (x next : Finish) (more : List Finish) :
    firstOrLast p (x :: next :: more) = if p x then some x else firstOrLast p (next :: more) := by
  unfold firstOrLast
  rw [List.find?_cons, List.getLast?_cons_cons]
  cases p x with
  | true => rfl
  | false => rfl

end Outputs

variable {Handler Args : Type}

/-! ### race_speed -/

namespace RaceSpeed

theorem finish_runners (r : RaceSpeed Handler Args) (args : Args) :
    (r.finish args).1.runners = r.runners - 1 := by
  unfold finish running
  dsimp only
  split
  · next h =>
    have hzero : r.runners = 0 := by simpa using h
    rw [hzero]
  · split
    · rfl
    · cases r.complete with
      | none => rfl
      | some complete => rfl

/-- One that is not the last is the winner where it is the first. -/
theorem finish_more {r : RaceSpeed Handler Args} (hrunners : 1 < r.runners) (args : Args) :
    r.finish args =
      ({ r with args := if r.isWinner then some args else r.args, runners := r.runners - 1 },
        none) := by
  have hrunning : ¬r.runners = 0 := by omega
  have hmore : ¬r.runners - 1 = 0 := by omega
  unfold finish running
  simp [hrunning, hmore]

theorem finish_final {r : RaceSpeed Handler Args} (hrunners : r.runners = 1) {complete : Handler}
    (hcomplete : r.complete = some complete) (args : Args) :
    (r.finish args).2 = some (complete, if r.isWinner then some args else r.args) := by
  unfold finish running
  simp [hrunners, hcomplete]

theorem outputs_eq {r : RaceSpeed Handler Args} {complete : Handler}
    (hcomplete : r.complete = some complete) (hsize : r.runners ≤ r.size) (first : Args)
    (more : List Args) (hrunners : r.runners = more.length + 1) :
    outputs finish r (first :: more) =
      List.replicate more.length none ++
        [some (complete, if r.isWinner then some first else r.args)] := by
  induction more generalizing r first with
  | nil =>
    rw [outputs, finish_final hrunners hcomplete]
    rfl
  | cons next more ih =>
    rw [List.length_cons] at hrunners
    have hwinner : ({ r with
        args := if r.isWinner then some first else r.args
        runners := r.runners - 1 } : RaceSpeed Handler Args).isWinner = false := by
      unfold isWinner
      simp only [beq_eq_false_iff_ne]
      omega
    have hrest := ih (r := { r with
        args := if r.isWinner then some first else r.args
        runners := r.runners - 1 }) hcomplete
      (show r.runners - 1 ≤ r.size by omega) next (show r.runners - 1 = _ by omega)
    rw [hwinner] at hrest
    rw [outputs, finish_more (by omega)]
    exact congrArg (none :: ·) hrest

end RaceSpeed

/-! ### race_quality -/

namespace RaceQuality

/-- `finish` of arguments, of which the first tells whether they are a failure. -/
def put (failed : Args → Bool) (r : RaceQuality Handler Args) (args : Args) :
    RaceQuality Handler Args × Option (Handler × Option Args) :=
  ((r.finish (!failed args) args).1, (r.finish (!failed args) args).2.2)

theorem put_runners (failed : Args → Bool) (r : RaceQuality Handler Args) (args : Args) :
    (r.put failed args).1.runners = r.runners - 1 := by
  unfold put finish running
  dsimp only
  split
  · next h =>
    have hzero : r.runners = 0 := by simpa using h
    rw [hzero]
  · split
    · rfl
    · cases r.complete with
      | none => rfl
      | some complete => rfl

theorem outputs_eq (failed : Args → Bool) {r : RaceQuality Handler Args} {complete : Handler}
    (hcomplete : r.complete = some complete) (first : Args) (more : List Args)
    (hrunners : r.runners = more.length + 1) :
    outputs (put failed) r (first :: more) =
      List.replicate more.length none ++
        [some (complete, if r.success then r.args else firstOrLast (!failed ·) (first :: more))] := by
  induction more generalizing r first with
  | nil =>
    rw [outputs, put, finish_end hrunners hcomplete, firstOrLast_singleton]
    rfl
  | cons next more ih =>
    rw [List.length_cons] at hrunners
    have hrest := ih (r := { r with
        success := r.success || !failed first
        args := if !failed first && !r.success then some first else r.args
        runners := r.runners - 1 }) hcomplete next (show r.runners - 1 = _ by omega)
    rw [outputs, put, finish_going (by omega), firstOrLast_cons_cons]
    refine congrArg (none :: ·) (hrest.trans ?_)
    cases r.success with
    | true => simp
    | false =>
      cases failed first with
      | true => simp
      | false => simp

end RaceQuality

/-! ### race_unity -/

/-- `race_unity`. -/
structure RaceUnity (Handler Args : Type) where
  size : ℕ
  runners : ℕ := 0
  failure : Bool := false
  args : Option Args := none
  complete : Option Handler := none

namespace RaceUnity

/-- `running`. -/
def running (r : RaceUnity Handler Args) : Bool := r.runners != 0

/-- `start`. -/
def start (r : RaceUnity Handler Args) (complete : Handler) : RaceUnity Handler Args :=
  if r.running then r else { r with complete := some complete, failure := false, runners := r.size }

/-- `finish`, `set_failure` and `invoke`: whether the finisher is the winner, and the handler
that is invoked, with its arguments. -/
def finish (r : RaceUnity Handler Args) (failure : Bool) (args : Args) :
    RaceUnity Handler Args × Bool × Option (Handler × Option Args) :=
  if ¬r.running then (r, false, none)
  else
    let failer := failure && !r.failure
    let r := { r with failure := r.failure || failure }
    let last := r.runners == 1
    let r :=
      { r with
        args := if failer || (last && !r.failure) then some args else r.args
        runners := r.runners - 1 }
    if r.running then (r, last && !r.failure, none)
    else
      match r.complete with
      | none => (r, false, none)
      | some complete =>
        ({ r with complete := none, args := none }, last && !r.failure, some (complete, r.args))

/-- `finish` of arguments, of which the first tells whether they are a failure. -/
def put (failed : Args → Bool) (r : RaceUnity Handler Args) (args : Args) :
    RaceUnity Handler Args × Option (Handler × Option Args) :=
  ((r.finish (failed args) args).1, (r.finish (failed args) args).2.2)

theorem put_runners (failed : Args → Bool) (r : RaceUnity Handler Args) (args : Args) :
    (r.put failed args).1.runners = r.runners - 1 := by
  unfold put finish running
  dsimp only
  split
  · next h =>
    have hzero : r.runners = 0 := by simpa using h
    rw [hzero]
  · split
    · rfl
    · cases r.complete with
      | none => rfl
      | some complete => rfl

/-- One that is not the last is kept where it is the first to fail. -/
theorem put_going (failed : Args → Bool) {r : RaceUnity Handler Args} (hrunners : 1 < r.runners)
    (args : Args) : r.put failed args =
      ({ r with
          failure := r.failure || failed args
          args := if failed args && !r.failure then some args else r.args
          runners := r.runners - 1 }, none) := by
  have hlast : ¬r.runners = 1 := by omega
  have hmore : ¬r.runners - 1 = 0 := by omega
  have hrunning : ¬r.runners = 0 := by omega
  unfold put finish running
  simp [hlast, hmore, hrunning]

theorem put_end (failed : Args → Bool) {r : RaceUnity Handler Args} (hrunners : r.runners = 1)
    {complete : Handler} (hcomplete : r.complete = some complete) (args : Args) :
    (r.put failed args).2 = some (complete, if r.failure then r.args else some args) := by
  unfold put finish running
  cases hfailure : r.failure with
  | true => simp [hrunners, hcomplete]
  | false =>
    cases hargs : failed args with
    | true => simp [hrunners, hcomplete]
    | false => simp [hrunners, hcomplete]

theorem outputs_eq (failed : Args → Bool) {r : RaceUnity Handler Args} {complete : Handler}
    (hcomplete : r.complete = some complete) (first : Args) (more : List Args)
    (hrunners : r.runners = more.length + 1) :
    outputs (put failed) r (first :: more) =
      List.replicate more.length none ++
        [some (complete, if r.failure then r.args else firstOrLast failed (first :: more))] := by
  induction more generalizing r first with
  | nil =>
    rw [outputs, put_end failed hrunners hcomplete, firstOrLast_singleton]
    rfl
  | cons next more ih =>
    rw [List.length_cons] at hrunners
    have hrest := ih (r := { r with
        failure := r.failure || failed first
        args := if failed first && !r.failure then some first else r.args
        runners := r.runners - 1 }) hcomplete next (show r.runners - 1 = _ by omega)
    rw [outputs, put_going failed (by omega), firstOrLast_cons_cons]
    refine congrArg (none :: ·) (hrest.trans ?_)
    cases r.failure with
    | true => simp
    | false =>
      cases failed first with
      | true => simp
      | false => simp

end RaceUnity

/-! ### race_volume -/

/-- `race_volume`, with its two codes. -/
structure RaceVolume (Handler Code : Type) where
  size : ℕ
  required : ℕ
  success : Code
  fail : Code
  runners : ℕ := 0
  sufficient : Option Handler := none
  complete : Option Handler := none

namespace RaceVolume
variable {Code : Type}

/-- `running`. -/
def running (r : RaceVolume Handler Code) : Bool := r.runners != 0

/-- `start`. -/
def start (r : RaceVolume Handler Code) (sufficient complete : Handler) : RaceVolume Handler Code :=
  if r.running then r
  else { r with sufficient := some sufficient, complete := some complete, runners := r.size }

/-- What `finish` does with the first handler, and whether the finisher is the winner. -/
def suffice (r : RaceVolume Handler Code) (count : ℕ) :
    RaceVolume Handler Code × Bool × List (Handler × Code) :=
  match r.sufficient with
  | none => (r, false, [])
  | some sufficient =>
    if r.required ≤ count then ({ r with sufficient := none }, true, [(sufficient, r.success)])
    else if r.runners = 1 then ({ r with sufficient := none }, false, [(sufficient, r.fail)])
    else (r, false, [])

/-- `invoke`. -/
def invoke (r : RaceVolume Handler Code) :
    RaceVolume Handler Code × Bool × List (Handler × Code) :=
  if ¬r.running then (r, false, [])
  else
    let r := { r with runners := r.runners - 1 }
    if r.running then (r, true, [])
    else
      match r.complete with
      | none => (r, false, [])
      | some complete => ({ r with complete := none }, true, [(complete, r.success)])

/-- `finish`: whether the finisher is the winner, and the handlers that are invoked, each with
its code. -/
def finish (r : RaceVolume Handler Code) (count : ℕ) :
    RaceVolume Handler Code × Bool × List (Handler × Code) :=
  if ¬r.running then (r, false, [])
  else
    let (r, winner, first) := r.suffice count
    let (r, invoked, last) := r.invoke
    (r, invoked && winner, first ++ last)

def put (r : RaceVolume Handler Code) (count : ℕ) :
    RaceVolume Handler Code × List (Handler × Code) :=
  ((r.finish count).1, (r.finish count).2.2)

theorem suffice_runners (r : RaceVolume Handler Code) (count : ℕ) :
    (r.suffice count).1.runners = r.runners ∧ (r.suffice count).1.complete = r.complete ∧
      (r.suffice count).1.required = r.required ∧ (r.suffice count).1.success = r.success ∧
      (r.suffice count).1.fail = r.fail := by
  unfold suffice
  split
  · exact ⟨rfl, rfl, rfl, rfl, rfl⟩
  · split
    · exact ⟨rfl, rfl, rfl, rfl, rfl⟩
    · split
      · exact ⟨rfl, rfl, rfl, rfl, rfl⟩
      · exact ⟨rfl, rfl, rfl, rfl, rfl⟩

theorem invoke_runners (r : RaceVolume Handler Code) : r.invoke.1.runners = r.runners - 1 := by
  unfold invoke running
  dsimp only
  split
  · next h =>
    have hzero : r.runners = 0 := by simpa using h
    rw [hzero]
  · split
    · rfl
    · cases r.complete with
      | none => rfl
      | some complete => rfl

theorem put_runners (r : RaceVolume Handler Code) (count : ℕ) :
    (r.put count).1.runners = r.runners - 1 := by
  unfold put finish
  split
  · next h =>
    have hzero : r.runners = 0 := by unfold running at h; simpa using h
    rw [hzero]
  · dsimp only
    rw [invoke_runners, (suffice_runners r count).1]

/-- One that is not the last. -/
theorem put_going {r : RaceVolume Handler Code} (hrunners : 1 < r.runners) (count : ℕ) :
    r.put count =
      ({ (r.suffice count).1 with runners := r.runners - 1 }, (r.suffice count).2.2) := by
  have hrunning : r.running = true := by
    unfold running
    simp only [bne_iff_ne]
    omega
  have hinvoke : (r.suffice count).1.invoke =
      ({ (r.suffice count).1 with runners := r.runners - 1 }, true, []) := by
    have hone : ¬r.runners - 1 = 0 := by omega
    have hzero : ¬r.runners = 0 := by omega
    unfold invoke running
    simp [(suffice_runners r count).1, hone, hzero]
  unfold put finish
  rw [hrunning]
  dsimp only
  rw [hinvoke, if_neg (by decide), List.append_nil]

theorem put_end {r : RaceVolume Handler Code} (hrunners : r.runners = 1) {complete : Handler}
    (hcomplete : r.complete = some complete) (count : ℕ) :
    (r.put count).2 = (r.suffice count).2.2 ++ [(complete, r.success)] := by
  obtain ⟨hleft, hlast, _, hsuccess, _⟩ := suffice_runners r count
  have hrunning : r.running = true := by
    unfold running
    rw [hrunners]
    rfl
  have hinvoke : (r.suffice count).1.invoke.2.2 = [(complete, r.success)] := by
    unfold invoke running
    simp [hleft, hlast, hrunners, hcomplete, hsuccess]
  unfold put finish
  rw [hrunning, if_neg (by decide)]
  dsimp only
  rw [hinvoke]

/-- What the finish of an index is expected to invoke, of so many runners: the first handler
where its count is the first that is as required, or at the last where none is, and the second
at the last. -/
def expected (r : RaceVolume Handler Code) (sufficient complete : Handler) (runners : ℕ)
    (counts : List ℕ) (index : ℕ) : List (Handler × Code) :=
  (match counts.findIdx? (r.required ≤ ·) with
    | some first => if index = first then [(sufficient, r.success)] else []
    | none => if index + 1 = runners then [(sufficient, r.fail)] else []) ++
  if index + 1 = runners then [(complete, r.success)] else []

/-- Where the first count is not sufficient, the others are as if it were not there. -/
theorem expected_succ {r : RaceVolume Handler Code} (sufficient complete : Handler) {count : ℕ}
    (hcount : ¬r.required ≤ count) (runners : ℕ) (counts : List ℕ) (index : ℕ) :
    r.expected sufficient complete (runners + 1) (count :: counts) (index + 1) =
      r.expected sufficient complete runners counts index := by
  unfold expected
  rw [List.findIdx?_cons, if_neg (by simpa using hcount)]
  cases counts.findIdx? (r.required ≤ ·) with
  | none => simp
  | some first => simp

/-- Behind the first that is sufficient. -/
theorem outputs_sufficed {r : RaceVolume Handler Code} (hsufficient : r.sufficient = none)
    {complete : Handler} (hcomplete : r.complete = some complete) (counts : List ℕ)
    (hrunners : counts.length ≤ r.runners) :
    outputs put r counts = counts.mapIdx fun index _ =>
      if index + 1 = r.runners then [(complete, r.success)] else [] := by
  induction counts generalizing r with
  | nil => rfl
  | cons count counts ih =>
    have hsuffice : r.suffice count = (r, false, []) := by
      unfold suffice
      rw [hsufficient]
    rw [List.length_cons] at hrunners
    rw [outputs, List.mapIdx_cons]
    by_cases hone : r.runners = 1
    · obtain rfl : counts = [] := List.eq_nil_of_length_eq_zero (by omega)
      rw [put_end hone hcomplete, hsuffice, hone]
      rfl
    · have hrest := ih (r := { r with runners := r.runners - 1 }) hsufficient hcomplete
        (show counts.length ≤ r.runners - 1 by omega)
      rw [put_going (by omega), hsuffice]
      dsimp only
      rw [hrest, if_neg (by omega)]
      dsimp only
      have hindex (index : ℕ) : index + 1 = r.runners - 1 ↔ index + 1 + 1 = r.runners := by omega
      simp only [hindex]

theorem outputs_eq {r : RaceVolume Handler Code} {sufficient complete : Handler}
    (hsufficient : r.sufficient = some sufficient) (hcomplete : r.complete = some complete)
    (counts : List ℕ) (hrunners : counts.length ≤ r.runners) :
    outputs put r counts =
      counts.mapIdx fun index _ => r.expected sufficient complete r.runners counts index := by
  induction counts generalizing r with
  | nil => rfl
  | cons count counts ih =>
    rw [List.length_cons] at hrunners
    rw [outputs, List.mapIdx_cons]
    by_cases hcount : r.required ≤ count
    · have hsuffice : r.suffice count =
          ({ r with sufficient := none }, true, [(sufficient, r.success)]) := by
        unfold suffice
        rw [hsufficient]
        exact if_pos hcount
      have hfirst : (count :: counts).findIdx? (r.required ≤ ·) = some 0 := by
        rw [List.findIdx?_cons, if_pos (decide_eq_true hcount)]
      unfold expected
      rw [hfirst]
      by_cases hone : r.runners = 1
      · obtain rfl : counts = [] := List.eq_nil_of_length_eq_zero (by omega)
        rw [put_end hone hcomplete, hsuffice, hone]
        rfl
      · rw [put_going (by omega), hsuffice]
        have hrest := outputs_sufficed
          (r := { r with sufficient := none, runners := r.runners - 1 }) rfl hcomplete
          counts (show counts.length ≤ r.runners - 1 by omega)
        have hindex (index : ℕ) : index + 1 = r.runners - 1 ↔ index + 1 + 1 = r.runners := by omega
        have hfirst' : ¬0 + 1 = r.runners := by omega
        dsimp only
        rw [hrest]
        simp [hindex, hfirst']
    · obtain ⟨runners, hr⟩ : ∃ runners, r.runners = runners + 1 := ⟨r.runners - 1, by omega⟩
      by_cases hone : r.runners = 1
      · obtain rfl : counts = [] := List.eq_nil_of_length_eq_zero (by omega)
        have hsuffice : r.suffice count =
            ({ r with sufficient := none }, false, [(sufficient, r.fail)]) := by
          unfold suffice
          rw [hsufficient]
          dsimp only
          rw [if_neg hcount, if_pos hone]
        have hnone : [count].findIdx? (r.required ≤ ·) = none := by
          rw [List.findIdx?_cons, if_neg (by simpa using hcount)]
          rfl
        unfold expected
        rw [put_end hone hcomplete, hsuffice, hnone, hone]
        rfl
      · have hsuffice : r.suffice count = (r, false, []) := by
          unfold suffice
          rw [hsufficient]
          dsimp only
          rw [if_neg hcount, if_neg hone]
        have hrest := ih (r := { r with runners := r.runners - 1 }) hsufficient hcomplete
          (show counts.length ≤ r.runners - 1 by omega)
        have hzero : r.expected sufficient complete r.runners (count :: counts) 0 = [] := by
          unfold expected
          rw [List.findIdx?_cons, if_neg (by simpa using hcount)]
          cases counts.findIdx? (r.required ≤ ·) with
          | none => simp [Ne.symm hone]
          | some first => simp [Ne.symm hone]
        rw [put_going (by omega), hsuffice, hzero]
        dsimp only
        rw [hrest, hr]
        simp only [expected_succ _ _ hcount]
        rfl

end RaceVolume

/-! ### Races -/

/-- Each race of one runner or more that is started, whatever it was before, has its handler
invoked by the last finish alone, and with the arguments that it documents. That of a volume
is invoked by the last too, and the handler of its first sufficient count by that one or, where
there is none, by the last. -/
theorem races_settle {Handler Args Code : Type} (failed : Args → Bool)
    (sufficient complete : Handler) (first : Args) (more : List Args) (count : ℕ)
    (counts : List ℕ) (speed : RaceSpeed Handler Args) (quality : RaceQuality Handler Args)
    (unity : RaceUnity Handler Args) (volume : RaceVolume Handler Code) :
    Settles RaceSpeed.runners RaceSpeed.finish
      ({ speed with size := more.length + 1, runners := 0 }.start complete) (first :: more)
      (List.replicate more.length none ++ [some (complete, some first)]) ∧
    Settles RaceQuality.runners (RaceQuality.put failed)
      ({ quality with size := more.length + 1, runners := 0 }.start complete) (first :: more)
      (List.replicate more.length none ++
        [some (complete, firstOrLast (!failed ·) (first :: more))]) ∧
    Settles RaceUnity.runners (RaceUnity.put failed)
      ({ unity with size := more.length + 1, runners := 0 }.start complete) (first :: more)
      (List.replicate more.length none ++ [some (complete, firstOrLast failed (first :: more))]) ∧
    Settles RaceVolume.runners RaceVolume.put
      ({ volume with size := counts.length + 1, runners := 0 }.start sufficient complete)
      (count :: counts)
      ((count :: counts).mapIdx fun index _ =>
        volume.expected sufficient complete (counts.length + 1) (count :: counts) index) := by
  refine ⟨settles ?_ rfl RaceSpeed.finish_runners, settles ?_ rfl (RaceQuality.put_runners failed),
    settles ?_ rfl (RaceUnity.put_runners failed), settles ?_ rfl RaceVolume.put_runners⟩
  · have houtputs := RaceSpeed.outputs_eq
      (r := { speed with size := more.length + 1, runners := 0 }.start complete) rfl
      (Nat.le_refl _) first more rfl
    rw [houtputs]
    have hwinner : ({ speed with size := more.length + 1, runners := 0 }.start complete).isWinner =
        true := beq_self_eq_true _
    rw [hwinner]
    rfl
  · exact RaceQuality.outputs_eq failed
      (r := { quality with size := more.length + 1, runners := 0 }.start complete) rfl first more rfl
  · exact RaceUnity.outputs_eq failed
      (r := { unity with size := more.length + 1, runners := 0 }.start complete) rfl first more rfl
  · exact RaceVolume.outputs_eq
      (r := { volume with size := counts.length + 1, runners := 0 }.start sufficient complete)
      rfl rfl (count :: counts) (Nat.le_refl _)

end BitcoinNetwork.Net
