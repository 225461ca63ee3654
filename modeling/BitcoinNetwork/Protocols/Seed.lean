import BitcoinNetwork.Sessions.Seed

/-!
# The protocol of a seed (protocols/protocol_seed_209.cpp)

A channel of a seed stops once its addresses were requested and some were saved. Whether some
were is told by the last message that was saved, of which a singleton may follow others.
-/

namespace BitcoinNetwork.Protocols
open Async

inductive SaveCode
  | success
  | addressNotFound
  | other (value : ℕ)
  deriving DecidableEq

/-- What a channel is stopped with: by the protocol, or by another. -/
inductive Ending
  | seedingComplete
  | channelTimeout
  | failed (ec : SaveCode)
  | stopped
  deriving DecidableEq

/-- The protocol behind its start, with the code that its channel was stopped with, whether its
request is being sent, the sends of addresses and the saves that have not completed, of each
the filtered and the full size of its message, and whether the timer is running. With the full
sizes of the messages that were saved. -/
structure Seed where
  advertise : Bool
  code : Option Ending := none
  sending : Bool := true
  sends : ℕ := 0
  saves : List (ℕ × ℕ) := []
  timing : Bool := false
  sentGetAddress : Bool := false
  receivedAddress : Bool := false
  saved : List ℕ := []
  deriving DecidableEq

namespace Seed

/-- `stop`, of which the first of a channel counts. -/
def stop (s : Seed) (ec : Ending) : Seed := { s with code := s.code.or (some ec) }

/-- `complete`. -/
def complete (s : Seed) : Bool := s.sentGetAddress && s.receivedAddress

def stopIfComplete (s : Seed) : Seed := if s.complete then s.stop .seedingComplete else s

/-- A failed send stops the channel before its handler is called. -/
def handleSendGetAddress (s : Seed) (failed : Bool) : Seed :=
  let s := { s with sending := false }
  if failed then s.stop .stopped
  else if s.code ≠ none then s
  else { s with timing := true, sentGetAddress := true }.stopIfComplete

/-- Of the addresses of a message, those that are left by `filter` are saved, which takes from
none to all of them. The own address of the seed, alone, is dropped. -/
def handleReceiveAddress (s : Seed) (size filtered : ℕ) (own : Bool) : Seed :=
  if s.code ≠ none then s
  else if size = 1 ∧ own then s
  else { s with saves := s.saves ++ [(min filtered size, size)] }

def handleSaveAddresses (s : Seed) (ec : SaveCode) (endSize startSize : ℕ) : Seed :=
  if s.code ≠ none then s
  else
    let emptied := ec = .addressNotFound ∧ endSize = 0 ∧ startSize ≠ 0
    let s :=
      if ec ≠ .success ∧ ¬emptied then s.stop (.failed ec)
      else { s with saved := s.saved ++ [startSize] }
    { s with receivedAddress := startSize != 1 }.stopIfComplete

def handleSendAddress (s : Seed) (failed : Bool) : Seed :=
  if failed then s.stop .stopped
  else if s.code ≠ none then s
  else s.stopIfComplete

def handleReceiveGetAddress (s : Seed) : Seed :=
  if s.code ≠ none then s
  else if s.advertise then { s with sends := s.sends + 1 }
  else s.handleSendAddress false

def handleTimer (s : Seed) (ec : Option SaveCode) : Seed :=
  if s.code ≠ none then s
  else
    match ec with
    | some ec => s.stop (.failed ec)
    | none => s.stop .channelTimeout

/-- A message arrives, a save, a send or the wait of the timer completes, or the channel is
stopped by another. -/
inductive Event
  | address (size filtered : ℕ) (own : Bool)
  | getAddress
  | saved (index : ℕ) (ec : SaveCode)
  | sentGetAddress (failed : Bool)
  | sentAddress (failed : Bool)
  | timer (ec : Option SaveCode)
  | stop

def step (s : Seed) : Event → Seed
  | .address size filtered own => s.handleReceiveAddress size filtered own
  | .getAddress => s.handleReceiveGetAddress
  | .saved index ec =>
    match s.saves[index]? with
    | none => s
    | some (endSize, startSize) =>
      { s with saves := s.saves.eraseIdx index }.handleSaveAddresses ec endSize startSize
  | .sentGetAddress failed => if s.sending then s.handleSendGetAddress failed else s
  | .sentAddress failed =>
    if s.sends = 0 then s else { s with sends := s.sends - 1 }.handleSendAddress failed
  | .timer ec => if s.timing then { s with timing := false }.handleTimer ec else s
  | .stop => s.stop .stopped

/-! ### What is expected -/

/-- Some message of other than one address was saved. -/
def Received (s : Seed) : Prop := ∃ size ∈ s.saved, size ≠ 1

instance (s : Seed) : Decidable s.Received := inferInstanceAs (Decidable (∃ size ∈ s.saved, size ≠ 1))

/-- The channel was stopped as complete exactly if its request was sent and addresses were
received. -/
def Completed (s : Seed) : Prop :=
  s.code = some .seedingComplete ↔ s.sentGetAddress = true ∧ s.Received

instance (s : Seed) : Decidable s.Completed := inferInstanceAs (Decidable (_ ↔ _))

/-- Where the request has been sent and others were saved, a singleton was not the last. -/
def Timely (s : Seed) : Event → Prop
  | .sentGetAddress false =>
    s.code = none → s.sending = true → s.Received → s.saved.getLast? ≠ some 1
  | _ => True

/-! ### Runs -/

/-- While the channel is running, the flag tells of the last message that was saved. -/
structure Inv (s : Seed) : Prop where
  received : s.code = none → (s.receivedAddress = true ↔ ∃ size ≠ 1, s.saved.getLast? = some size)
  completed : s.Completed

variable {s : Seed}

theorem Inv.waiting (h : Inv s) (hcode : s.code = none) : ¬(s.sentGetAddress = true ∧ s.Received) := by
  intro hboth
  have hcomplete := h.completed.mpr hboth
  rw [hcode] at hcomplete
  exact nomatch hcomplete

theorem received_of_last {size : ℕ} (hsize : size ≠ 1) (hlast : s.saved.getLast? = some size) :
    s.Received := ⟨size, List.mem_of_getLast? hlast, hsize⟩

/-- What a step of a channel that is stopped does is none of the protocol's. -/
theorem inv_stopped {s' : Seed} (h : Inv s) (hcode : s.code ≠ none) (hcode' : s'.code = s.code)
    (hsent : s'.sentGetAddress = s.sentGetAddress) (hsaved : s'.saved = s.saved) : Inv s' where
  received hnone := absurd (hcode' ▸ hnone) hcode
  completed := by
    have hcompleted := h.completed
    unfold Completed Received at hcompleted ⊢
    rw [hcode', hsent, hsaved]
    exact hcompleted

/-- A channel that is stopped before it is complete. -/
theorem inv_stop {s' : Seed} (h : Inv s) (hcode : s.code = none) {ec : Ending}
    (hec : ec ≠ .seedingComplete) (hcode' : s'.code = some ec)
    (hsent : s'.sentGetAddress = s.sentGetAddress) (hsaved : s'.saved = s.saved) : Inv s' where
  received hnone := by
    rw [hcode'] at hnone
    exact nomatch hnone
  completed := by
    have hwaiting := h.waiting hcode
    unfold Completed Received at *
    rw [hcode', hsent, hsaved]
    exact iff_of_false (fun heq => hec (Option.some.inj heq)) hwaiting

/-- A channel that is as it was. -/
theorem inv_same {s' : Seed} (h : Inv s) (hcode : s'.code = s.code)
    (hsent : s'.sentGetAddress = s.sentGetAddress) (hreceived : s'.receivedAddress = s.receivedAddress)
    (hsaved : s'.saved = s.saved) : Inv s' where
  received := by
    rw [hcode, hreceived, hsaved]
    exact h.received
  completed := by
    have hcompleted := h.completed
    unfold Completed Received at hcompleted ⊢
    rw [hcode, hsent, hsaved]
    exact hcompleted

/-- A stop, at any time, by another. -/
theorem inv_ended (h : Inv s) {ec : Ending} (hec : ec ≠ .seedingComplete) : Inv (s.stop ec) := by
  cases hcode : s.code with
  | none => exact inv_stop h hcode hec (by unfold stop; rw [hcode]; rfl) rfl rfl
  | some code =>
    have hsame : (s.stop ec).code = s.code := by
      unfold stop
      rw [hcode]
      rfl
    exact inv_stopped h (by rw [hcode]; exact Option.some_ne_none _) hsame rfl rfl

theorem inv_sendAddress (h : Inv s) (failed : Bool) : Inv (s.handleSendAddress failed) := by
  unfold handleSendAddress
  split
  · exact inv_ended h Ending.noConfusion
  · split
    · exact h
    · next hcode =>
      have hnone : s.code = none := not_not.mp hcode
      unfold stopIfComplete complete
      split
      · next hcomplete =>
        obtain ⟨hsent, hreceived⟩ := Bool.and_eq_true_iff.mp hcomplete
        obtain ⟨size, hsize, hlast⟩ := (h.received hnone).mp hreceived
        exact absurd ⟨hsent, received_of_last hsize hlast⟩ (h.waiting hnone)
      · exact h

theorem inv_receiveGetAddress (h : Inv s) : Inv s.handleReceiveGetAddress := by
  unfold handleReceiveGetAddress
  split
  · exact h
  · split
    · exact inv_same h rfl rfl rfl rfl
    · exact inv_sendAddress h false

theorem inv_receiveAddress (h : Inv s) (size filtered : ℕ) (own : Bool) :
    Inv (s.handleReceiveAddress size filtered own) := by
  unfold handleReceiveAddress
  split
  · exact h
  · split
    · exact h
    · exact inv_same h rfl rfl rfl rfl

theorem inv_timer (h : Inv s) (ec : Option SaveCode) : Inv (s.handleTimer ec) := by
  unfold handleTimer
  split
  · exact h
  · cases ec with
    | none => exact inv_ended h Ending.noConfusion
    | some ec => exact inv_ended h Ending.noConfusion

/-- A message that is saved: the channel is complete where the request was sent and it is of
other than one address. -/
theorem inv_saved (h : Inv s) (hcode : s.code = none) (size : ℕ) :
    Inv { s with
      saved := s.saved ++ [size], receivedAddress := size != 1 }.stopIfComplete := by
  have hlast : (s.saved ++ [size]).getLast? = some size := List.getLast?_concat
  have hwaiting := h.waiting hcode
  unfold stopIfComplete complete
  split
  · next hcomplete =>
    obtain ⟨hsent, hreceived⟩ := Bool.and_eq_true_iff.mp hcomplete
    have hsize : size ≠ 1 := bne_iff_ne.mp hreceived
    constructor
    · intro hnone
      unfold stop at hnone
      rw [show ({ s with saved := _, receivedAddress := _ } : Seed).code = none from hcode] at hnone
      exact nomatch hnone
    · unfold Completed stop
      refine iff_of_true ?_ ⟨hsent, size, List.mem_append_right _ List.mem_cons_self, hsize⟩
      show s.code.or (some .seedingComplete) = some .seedingComplete
      rw [hcode]
      rfl
  · next hcomplete =>
    constructor
    · intro _
      show (size != 1) = true ↔ ∃ other ≠ 1, (s.saved ++ [size]).getLast? = some other
      rw [hlast, bne_iff_ne]
      constructor
      · exact fun hsize => ⟨size, hsize, rfl⟩
      · rintro ⟨other, hother, heq⟩
        rw [Option.some.inj heq]
        exact hother
    · refine iff_of_false ?_ ?_
      · show s.code ≠ some .seedingComplete
        rw [hcode]
        exact (Option.some_ne_none _).symm
      · rintro ⟨hsent, other, hmem, hother⟩
        rcases List.mem_append.mp hmem with hold | hnew
        · exact hwaiting ⟨hsent, other, hold, hother⟩
        · rw [List.mem_singleton] at hnew
          rw [hnew] at hother
          exact hcomplete (Bool.and_eq_true_iff.mpr ⟨hsent, bne_iff_ne.mpr hother⟩)

theorem inv_saveAddresses (h : Inv s) (ec : SaveCode) (endSize startSize : ℕ) :
    Inv (s.handleSaveAddresses ec endSize startSize) := by
  unfold handleSaveAddresses
  split
  · exact h
  · next hrunning =>
    have hcode : s.code = none := not_not.mp hrunning
    dsimp only
    split
    · have hstop : (s.stop (.failed ec)).code = some (.failed ec) := by
        unfold stop
        rw [hcode]
        rfl
      unfold stopIfComplete
      split
      · have hfinal : ({ s.stop (.failed ec) with receivedAddress := startSize != 1 }.stop
            .seedingComplete).code = some (.failed ec) := by
          show (s.stop (.failed ec)).code.or _ = some (.failed ec)
          rw [hstop]
          rfl
        exact inv_stop h hcode Ending.noConfusion hfinal rfl rfl
      · exact inv_stop h hcode Ending.noConfusion hstop rfl rfl
    · exact inv_saved h hcode startSize

theorem inv_sendGetAddress (h : Inv s) (hsending : s.sending = true) (failed : Bool)
    (htimely : s.Timely (.sentGetAddress failed)) : Inv (s.handleSendGetAddress failed) := by
  have hidle : Inv { s with sending := false } := inv_same h rfl rfl rfl rfl
  unfold handleSendGetAddress
  dsimp only
  split
  · exact inv_ended hidle Ending.noConfusion
  · next hsent =>
    split
    · exact hidle
    · next hrunning =>
      have hcode : s.code = none := not_not.mp hrunning
      obtain rfl : failed = false := Bool.eq_false_of_not_eq_true hsent
      have hlast := htimely hcode hsending
      unfold stopIfComplete complete
      split
      · next hcomplete =>
        have hreceived : s.receivedAddress = true := (Bool.and_eq_true_iff.mp hcomplete).2
        obtain ⟨size, hsize, hmem⟩ := (h.received hcode).mp hreceived
        constructor
        · intro hnone
          have hsome : s.code.or (some Ending.seedingComplete) = none := hnone
          rw [hcode] at hsome
          exact nomatch hsome
        · refine iff_of_true ?_ ⟨rfl, received_of_last hsize hmem⟩
          show s.code.or (some .seedingComplete) = _
          rw [hcode]
          rfl
      · next hcomplete =>
        have hnot : ¬s.Received := by
          intro hreceived
          have hne := hlast hreceived
          obtain ⟨size, hmem, _⟩ := hreceived
          have hsaved : s.saved ≠ [] := List.ne_nil_of_mem hmem
          refine hcomplete (Bool.and_eq_true_iff.mpr ⟨rfl, (h.received hcode).mpr ?_⟩)
          refine ⟨s.saved.getLast hsaved, fun heq => hne ?_, List.getLast?_eq_some_getLast hsaved⟩
          rw [List.getLast?_eq_some_getLast hsaved, heq]
        constructor
        · exact h.received
        · refine iff_of_false ?_ fun hboth => hnot hboth.2
          show s.code ≠ some .seedingComplete
          rw [hcode]
          exact (Option.some_ne_none _).symm

theorem inv_step (h : Inv s) (e : Event) (htimely : s.Timely e) : Inv (s.step e) := by
  cases e with
  | address size filtered own => exact inv_receiveAddress h size filtered own
  | getAddress => exact inv_receiveGetAddress h
  | saved index ec =>
    cases hentry : s.saves[index]? with
    | none =>
      have hstep : s.step (.saved index ec) = s := by
        unfold step
        dsimp only
        rw [hentry]
      rw [hstep]
      exact h
    | some entry =>
      have hstep : s.step (.saved index ec) =
          { s with saves := s.saves.eraseIdx index }.handleSaveAddresses ec entry.1 entry.2 := by
        unfold step
        dsimp only
        rw [hentry]
      have htaken : Inv { s with saves := s.saves.eraseIdx index } := inv_same h rfl rfl rfl rfl
      rw [hstep]
      exact inv_saveAddresses htaken ec entry.1 entry.2
  | sentGetAddress failed =>
    show Inv (if s.sending then _ else _)
    split
    · next hsending => exact inv_sendGetAddress h hsending failed htimely
    · exact h
  | sentAddress failed =>
    show Inv (if s.sends = 0 then _ else _)
    split
    · exact h
    · have htaken : Inv { s with sends := s.sends - 1 } := inv_same h rfl rfl rfl rfl
      exact inv_sendAddress htaken failed
  | timer ec =>
    show Inv (if s.timing then _ else _)
    split
    · have hended : Inv { s with timing := false } := inv_same h rfl rfl rfl rfl
      exact inv_timer hended ec
    · exact h
  | stop => exact inv_ended h Ending.noConfusion

theorem inv_start (advertise : Bool) : Inv { advertise := advertise } where
  received _ := iff_of_false Bool.false_ne_true fun ⟨_, _, hlast⟩ => nomatch hlast
  completed := iff_of_false (Option.some_ne_none _).symm fun hboth => Bool.false_ne_true hboth.1

/-- Where a step ends in a state that is as expected, it was timely. -/
theorem timely_of_completed (h : Inv s) (e : Event) (hcompleted : (s.step e).Completed) :
    s.Timely e := by
  cases e with
  | sentGetAddress failed =>
    cases failed with
    | true => trivial
    | false =>
      intro hcode hsending hreceived hlast
      have hflag : s.receivedAddress = false := by
        cases hr : s.receivedAddress with
        | false => rfl
        | true =>
          obtain ⟨size, hsize, heq⟩ := (h.received hcode).mp hr
          rw [hlast] at heq
          exact absurd (Option.some.inj heq).symm hsize
      have hstep : s.step (.sentGetAddress false) =
          { s with sending := false, timing := true, sentGetAddress := true } := by
        unfold step handleSendGetAddress stopIfComplete complete
        simp [hsending, hcode, hflag]
      rw [hstep] at hcompleted
      have hcomplete := hcompleted.mpr ⟨rfl, hreceived⟩
      have hnone : s.code = some Ending.seedingComplete := hcomplete
      rw [hcode] at hnone
      exact nomatch hnone
  | address => trivial
  | getAddress => trivial
  | saved => trivial
  | sentAddress => trivial
  | timer => trivial
  | stop => trivial

open Sessions in
/-- A seed session completes in any run, and the protocol of a seed in one in which no
singleton was the last that was saved behind others when its request has been sent. -/
theorem seeding_completes_iff (options : SeedOptions) (addressCount : ℕ) (started : Net.Code)
    (session : List Seeding.Event) (advertise : Bool) (events : List Event) :
    (Seeding.Settles options addressCount started
        (after Seeding.step (Seeding.start options addressCount started) session) ∧
      ∀ n ≤ events.length, (after step { advertise := advertise } (events.take n)).Completed) ↔
      Along step Timely { advertise := advertise } events := by
  have hsettles := Seeding.settles_after options addressCount started session
  have halong := along_iff (P := Timely) (I := Inv) (Q := Completed)
    (fun _ e hs he => inv_step hs e he) (fun _ hs => hs.completed)
    (fun _ e hs hq => timely_of_completed hs e hq) (inv_start advertise) events
  rw [halong]
  exact and_iff_right hsettles

/-- Addresses are saved, then the own of the seed in another form, and then the request has
been sent. -/
def overwritten : List Event :=
  [.address 5 5 false, .address 1 1 false, .saved 0 .success, .saved 0 .success,
    .sentGetAddress false]

open Sessions in
theorem not_seeding_completes : ¬∀ (options : SeedOptions) (addressCount : ℕ) (started : Net.Code)
    (session : List Seeding.Event) (advertise : Bool) (events : List Event),
    Seeding.Settles options addressCount started
        (after Seeding.step (Seeding.start options addressCount started) session) ∧
      ∀ n ≤ events.length, (after step { advertise := advertise } (events.take n)).Completed := by
  intro hall
  obtain ⟨_, hcompleted⟩ := hall ⟨1, 1, 1, 1, 1⟩ 0 .success [] false overwritten
  exact absurd (hcompleted 5 (by decide)) (by decide)

end Seed

end BitcoinNetwork.Protocols
