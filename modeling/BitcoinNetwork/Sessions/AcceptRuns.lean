import BitcoinNetwork.Sessions.Accept
import BitcoinNetwork.Sessions.SessionRuns
import BitcoinNetwork.Sessions.PeerRuns

/-!
# How many channels are accepted (sessions/session_server.cpp, sessions/session_inbound.cpp)

A channel is counted two turns of the strands behind the look at the count that has let it
pass. Its start, and its stop, are reported once at most, in whatever order, so that what
is counted and what is yet to be counted bound the channels that are up.
-/

namespace BitcoinNetwork.Sessions
open Net Async

/-! ### The reports that a channel is to make -/

def ChannelJob.starts : ChannelJob → ℕ
  | .attachHandshake | .subscribeStop | .attachProtocols => 1
  | .stopping _ => 0

def ChannelJob.ends : ChannelJob → ℕ
  | .attachHandshake | .subscribeStop => 1
  | .attachProtocols | .stopping _ => 0

def NetworkJob.starts : NetworkJob → ℕ
  | .handshaken _ | .subscribe | .started _ | .complete => 1
  | .stopped _ => 0

def NetworkJob.ends : NetworkJob → ℕ
  | .handshaken _ | .subscribe | .stopped _ => 1
  | .started _ | .complete => 0

def Report.starts : Report → ℕ
  | .started _ => 1
  | .stopped _ => 0

def Report.ends : Report → ℕ
  | .started _ => 0
  | .stopped _ => 1

/-- The starts, and the stops, that were reported of a channel. -/
def Channel.startReports (c : Channel) : ℕ := (c.reports.map Report.starts).sum

def Channel.stopReports (c : Channel) : ℕ := (c.reports.map Report.ends).sum

/-- The starts, and the stops, that are reported of a channel or are to be. -/
def starts (s : Session) (k : ℕ) : ℕ :=
  ((s.channel k).jobs.map ChannelJob.starts).sum + (s.channel k).handshaking.toNat +
    ((nets s k).map NetworkJob.starts).sum + (s.channel k).startReports

def ends (s : Session) (k : ℕ) : ℕ :=
  ((s.channel k).jobs.map ChannelJob.ends).sum + (s.channel k).handshaking.toNat +
    (s.channel k).subscribed.toNat + ((nets s k).map NetworkJob.ends).sum + (s.channel k).stopReports

/-- The reports of all channels that a session was given. -/
def startTotal (s : Session) : ℕ := ∑ k ∈ Finset.range s.given, (s.channel k).startReports

def stopTotal (s : Session) : ℕ := ∑ k ∈ Finset.range s.given, (s.channel k).stopReports

/-- The channels that were started by `handle_accepted` and are yet to be counted. -/
def uncounted (s : Session) : ℕ := s.given - startTotal s

/-- A start and a stop are reported once at most, and the count is below what the reports
make of it by no stop that was reported. -/
structure Paced (s : Session) : Prop where
  starts : ∀ k, starts s k ≤ if k < s.given then 1 else 0
  ends : ∀ k, ends s k ≤ if k < s.given then 1 else 0
  counted : startTotal s ≤ s.count + stopTotal s

/-- A step of one channel, by which it reports so many starts and stops, and is to report
so many more than it was, those reported among them. -/
structure Turn (s s' : Session) (k : ℕ) (x y : ℤ) (started stopped : ℕ) : Prop where
  given : s'.given = s.given
  channel : ∀ j, j ≠ k → s'.channel j = s.channel j
  nets : ∀ j, j ≠ k → nets s' j = nets s j
  starts : (starts s' k : ℤ) ≤ Sessions.starts s k + x
  ends : (ends s' k : ℤ) ≤ Sessions.ends s k + y
  startReports : (s'.channel k).startReports = (s.channel k).startReports + started
  stopReports : (s'.channel k).stopReports = (s.channel k).stopReports + stopped
  above : s'.count ≤ s.count + started
  below : s.count + started ≤ maximumSize → s.count + started ≤ s'.count + stopped

section
variable {s s' s'' : Session} {k : ℕ} {x y x' y' : ℤ} {started stopped started' stopped' : ℕ}

theorem Turn.trans (h : Turn s s' k x y started stopped) (h' : Turn s' s'' k x' y' started' stopped') :
    Turn s s'' k (x + x') (y + y') (started + started') (stopped + stopped') where
  given := h'.given.trans h.given
  channel j hj := (h'.channel j hj).trans (h.channel j hj)
  nets j hj := (h'.nets j hj).trans (h.nets j hj)
  starts := by
    have := h.starts
    have := h'.starts
    omega
  ends := by
    have := h.ends
    have := h'.ends
    omega
  startReports := by rw [h'.startReports, h.startReports, Nat.add_assoc]
  stopReports := by rw [h'.stopReports, h.stopReports, Nat.add_assoc]
  above := by
    have := h.above
    have := h'.above
    omega
  below hle := by
    have := h.above
    have := h.below (by omega)
    have := h'.below (by omega)
    omega

theorem Turn.le (h : Turn s s' k x y started stopped) (hx : x ≤ x') (hy : y ≤ y') :
    Turn s s' k x' y' started stopped :=
  { h with
    starts := by
      have := h.starts
      omega
    ends := by
      have := h.ends
      omega }

variable (s k)

theorem turn_refl : Turn s s k 0 0 0 0 where
  given := rfl
  channel _ _ := rfl
  nets _ _ := rfl
  starts := by omega
  ends := by omega
  startReports := rfl
  stopReports := rfl
  above := Nat.le_refl _
  below _ := Nat.le_refl _

/-- A job that is posted to the strand of the network is to make its reports. -/
theorem turn_post (job : NetworkJob) : Turn s (s.post k job) k job.starts job.ends 0 0 where
  given := rfl
  channel _ _ := rfl
  nets j hj := nets_post_ne s j k job hj
  starts := by
    unfold starts
    rw [nets_post, channel_post, List.map_append, List.sum_append]
    simp
    omega
  ends := by
    unfold ends
    rw [nets_post, channel_post, List.map_append, List.sum_append]
    simp
    omega
  startReports := rfl
  stopReports := rfl
  above := Nat.le_refl _
  below _ := Nat.le_refl _

variable {s k}

/-- A channel changes, but for its reports. -/
theorem turn_update {c : Channel} (hreports : c.reports = (s.channel k).reports)
    (hx : ((c.jobs.map ChannelJob.starts).sum + c.handshaking.toNat : ℤ) ≤
      ((s.channel k).jobs.map ChannelJob.starts).sum + (s.channel k).handshaking.toNat + x)
    (hy : ((c.jobs.map ChannelJob.ends).sum + c.handshaking.toNat + c.subscribed.toNat : ℤ) ≤
      ((s.channel k).jobs.map ChannelJob.ends).sum + (s.channel k).handshaking.toNat +
        (s.channel k).subscribed.toNat + y) : Turn s (s.update k c) k x y 0 0 where
  given := rfl
  channel j hj := channel_update_ne s j k c hj
  nets _ _ := rfl
  starts := by
    unfold starts Channel.startReports
    rw [channel_update, nets_update, hreports]
    omega
  ends := by
    unfold ends Channel.stopReports
    rw [channel_update, nets_update, hreports]
    omega
  startReports := by rw [channel_update, Channel.startReports, hreports]; rfl
  stopReports := by rw [channel_update, Channel.stopReports, hreports]; rfl
  above := Nat.le_refl _
  below _ := Nat.le_refl _

variable (s k)

/-- A channel is posted a job. -/
theorem turn_postChannel (job : ChannelJob) :
    Turn s (s.postChannel k job) k job.starts job.ends 0 0 := by
  refine turn_update rfl ?_ ?_
  · simp
    omega
  · simp
    omega

/-- The starter is invoked. -/
theorem turn_start (code : Code) : Turn s (s.handleChannelStart k code) k 1 0 1 0 := by
  have hchannel := handleChannelStart_channel (s := s) (k := k) rfl code
  have hnets : nets (s.handleChannelStart k code) k = nets s k := rfl
  refine ⟨rfl, fun j hj => channel_update_ne s j k _ hj, fun _ _ => rfl, ?_, ?_, ?_, ?_,
    Nat.min_le_left _ _, fun hle => Nat.le_of_eq (Nat.min_eq_left hle).symm⟩
  · unfold starts Channel.startReports
    rw [hchannel, hnets]
    simp [Channel.reporting, Report.starts]
    omega
  · unfold ends Channel.stopReports
    rw [hchannel, hnets]
    simp [Channel.reporting, Report.ends]
  · rw [hchannel]
    simp [Channel.startReports, Channel.reporting, Report.starts]
  · rw [hchannel]
    simp [Channel.stopReports, Channel.reporting, Report.ends]

/-- The stopper is invoked. -/
theorem turn_stop (code : Code) : Turn s (s.handleChannelStop k code) k 0 1 0 1 := by
  have hchannel := handleChannelStop_channel (s := s) (k := k) rfl code
  have hnets : nets (s.handleChannelStop k code) k = nets s k := rfl
  refine ⟨rfl, fun j hj => channel_update_ne s j k _ hj, fun _ _ => rfl, ?_, ?_, ?_, ?_,
    Nat.sub_le _ _, fun _ => Nat.le_add_of_sub_le (Nat.le_refl _)⟩
  · unfold starts Channel.startReports
    rw [hchannel, hnets]
    simp [Channel.reporting, Report.starts]
  · unfold ends Channel.stopReports
    rw [hchannel, hnets]
    simp [Channel.reporting, Report.ends]
    omega
  · rw [hchannel]
    simp [Channel.startReports, Channel.reporting, Report.starts]
  · rw [hchannel]
    simp [Channel.stopReports, Channel.reporting, Report.ends]

end

/-! ### What a job reports -/

section
variable {s : Session} {k : ℕ}

/-- A job of the strand of the network makes the reports that it is to make. -/
theorem turn_runNetworkJob (job : NetworkJob) : ∃ started stopped,
    Turn s (s.runNetworkJob k job) k job.starts job.ends started stopped := by
  cases job with
  | handshaken code =>
    dsimp only [Session.runNetworkJob]
    split
    · exact ⟨_, _, (turn_start s k code).trans (turn_stop _ k code)⟩
    · unfold Session.subscribeStop
      split
      · exact ⟨_, _, (turn_post s k (.started .channelStopped)).trans
          (turn_post _ k (.stopped .channelStopped))⟩
      · refine ⟨0, 0, rfl, fun _ _ => rfl, fun j hj => ?_, ?_, ?_, rfl, rfl, Nat.le_refl _,
          fun _ => Nat.le_refl _⟩
        · unfold nets
          simp [hj.symm]
        · unfold starts nets
          simp [NetworkJob.starts]
          omega
        · unfold ends nets
          simp [NetworkJob.ends]
          omega
  | subscribe => exact ⟨_, _, turn_postChannel s k .subscribeStop⟩
  | started code =>
    dsimp only [Session.runNetworkJob]
    split
    · exact ⟨_, _, turn_start s k code⟩
    · exact ⟨_, _, turn_postChannel s k .attachProtocols⟩
  | complete => exact ⟨_, _, turn_start s k .success⟩
  | stopped code => exact ⟨_, _, turn_stop s k code⟩

/-- A job of the strand of a channel reports nothing itself. -/
theorem turn_runChannelJob (job : ChannelJob) :
    Turn s (s.runChannelJob k job) k job.starts job.ends 0 0 := by
  cases job with
  | attachHandshake =>
    refine turn_update rfl ?_ ?_
    · simp [ChannelJob.starts]
    · simp [ChannelJob.ends]
      omega
  | subscribeStop =>
    dsimp only [Session.runChannelJob]
    split
    · exact (turn_post s k (.stopped .subscriberStopped)).trans (turn_post _ k (.started .success))
    · have hupdate : Turn s (s.update k { s.channel k with subscribed := true }) k 0 1 0 0 := by
        refine turn_update rfl ?_ ?_
        · simp
        · simp
      exact hupdate.trans (turn_post _ k (.started .success))
  | attachProtocols => exact turn_post s k .complete
  | stopping code =>
    dsimp only [Session.runChannelJob]
    split
    · exact turn_refl s k
    · split
      · next hsubscribed =>
        have hupdate : Turn s
            (s.update k { s.channel k with subscribed := false, subscriberStopped := true }) k 0 (-1) 0 0 := by
          refine turn_update rfl ?_ ?_
          · simp
          · simp [hsubscribed]
        exact hupdate.trans (turn_post _ k (.stopped code))
      · refine turn_update rfl ?_ ?_
        · simp [ChannelJob.starts]
        · simp [ChannelJob.ends]

/-- The handshake of a channel ends. -/
theorem turn_handleHandshake (h : (s.channel k).handshaking = true) (code : Code) :
    Turn s (s.handleHandshake k code) k 0 0 0 0 := by
  have hupdate : Turn s (s.update k (if code ≠ .success
      then { s.channel k with handshaking := false }.stop code
      else { s.channel k with handshaking := false })) k (-1) (-1) 0 0 := by
    split
    · unfold Channel.stop
      split
      · refine turn_update rfl ?_ ?_
        · simp [h]
        · simp [h] <;> omega
      · refine turn_update rfl ?_ ?_
        · simp [h, ChannelJob.starts]
        · simp [h, ChannelJob.ends] <;> omega
    · refine turn_update rfl ?_ ?_
      · simp [h]
      · simp [h] <;> omega
  exact hupdate.trans (turn_post _ k (.handshaken code))

/-- A session goes on by one channel, where it is given none. -/
theorem step_turn (s : Session) (e : Session.Event) (he : e ≠ .start) :
    ∃ k started stopped, Turn s (s.step e) k 0 0 started stopped := by
  cases e with
  | start => exact absurd rfl he
  | close =>
    obtain ⟨_, _, _, hstarts, hends, hstarted, hstopped, habove, hbelow⟩ := turn_refl s 0
    exact ⟨0, 0, 0, rfl, fun _ _ => rfl, fun _ _ => rfl, hstarts, hends, hstarted, hstopped, habove, hbelow⟩
  | enter k =>
    refine ⟨k, 0, 0, ?_⟩
    dsimp only [Session.step]
    split
    · exact turn_refl s k
    · exact turn_update rfl (by simp) (by simp)
  | finish k code =>
    refine ⟨k, 0, 0, ?_⟩
    dsimp only [Session.step]
    split
    · exact turn_refl s k
    · exact turn_update rfl (by simp) (by simp)
  | post k =>
    refine ⟨k, 0, 0, ?_⟩
    dsimp only [Session.step]
    split
    · exact turn_refl s k
    · exact turn_update rfl (by simp [ChannelJob.starts]) (by simp [ChannelJob.ends])
  | handshake k code =>
    refine ⟨k, 0, 0, ?_⟩
    dsimp only [Session.step]
    split
    · next h => exact turn_handleHandshake h code
    · exact turn_refl s k
  | runNetwork =>
    dsimp only [Session.step]
    split
    · exact ⟨0, 0, 0, turn_refl s 0⟩
    · next k job network hnetwork =>
      obtain ⟨started, stopped, hrun⟩ :=
        turn_runNetworkJob (s := { s with network := network }) (k := k) job
      have htake : Turn s { s with network := network } k (-job.starts) (-job.ends) 0 0 := by
        refine ⟨rfl, fun _ _ => rfl, fun j hj => nets_tail hnetwork hj, ?_, ?_, rfl, rfl,
          Nat.le_refl _, fun _ => Nat.le_refl _⟩
        · unfold starts
          rw [nets_head hnetwork, List.map_cons, List.sum_cons]
          dsimp only
          omega
        · unfold ends
          rw [nets_head hnetwork, List.map_cons, List.sum_cons]
          dsimp only
          omega
      exact ⟨k, _, _, (htake.trans hrun).le (by omega) (by omega)⟩
  | runChannel k =>
    refine ⟨k, 0, 0, ?_⟩
    dsimp only [Session.step]
    split
    · exact turn_refl s k
    · next job jobs hjobs =>
      have htake : Turn s (s.update k { s.channel k with jobs := jobs }) k (-job.starts) (-job.ends) 0 0 := by
        refine turn_update rfl ?_ ?_
        · rw [hjobs, List.map_cons, List.sum_cons]
          push_cast
          omega
        · rw [hjobs, List.map_cons, List.sum_cons]
          push_cast
          omega
      exact (htake.trans (turn_runChannelJob job)).le (by omega) (by omega)

end

/-! ### What is counted -/

/-- The number of channels that a function of theirs is summed over, where one changes. -/
theorem sum_turn {s s' : Session} {k n : ℕ} {f : Channel → ℕ} (hgiven : s'.given = s.given)
    (hother : ∀ j, j ≠ k → s'.channel j = s.channel j) (hk : k < s.given)
    (hf : f (s'.channel k) = f (s.channel k) + n) :
    ∑ j ∈ Finset.range s'.given, f (s'.channel j) = ∑ j ∈ Finset.range s.given, f (s.channel j) + n := by
  have hmem := Finset.mem_range.mpr hk
  rw [hgiven, ← Finset.add_sum_erase _ _ hmem, ← Finset.add_sum_erase _ (fun j => f (s.channel j)) hmem, hf]
  have hrest : ∑ j ∈ (Finset.range s.given).erase k, f (s'.channel j) =
      ∑ j ∈ (Finset.range s.given).erase k, f (s.channel j) :=
    Finset.sum_congr rfl fun j hj => by rw [hother j (Finset.ne_of_mem_erase hj)]
  rw [hrest]
  omega

theorem sum_fresh {s s' : Session} {k : ℕ} {f : Channel → ℕ} (hgiven : s'.given = s.given)
    (hother : ∀ j, j ≠ k → s'.channel j = s.channel j) (hk : ¬k < s.given) :
    ∑ j ∈ Finset.range s'.given, f (s'.channel j) = ∑ j ∈ Finset.range s.given, f (s.channel j) := by
  rw [hgiven]
  exact Finset.sum_congr rfl fun j hj => by
    rw [hother j (by have := Finset.mem_range.mp hj; omega)]

section
variable {s s' : Session} {k started stopped : ℕ}

theorem startReports_le_starts (s : Session) (k : ℕ) : (s.channel k).startReports ≤ starts s k :=
  Nat.le_add_left _ _

theorem stopReports_le_ends (s : Session) (k : ℕ) : (s.channel k).stopReports ≤ ends s k :=
  Nat.le_add_left _ _

theorem Paced.startReports_le (h : Paced s) (k : ℕ) :
    (s.channel k).startReports ≤ if k < s.given then 1 else 0 :=
  (startReports_le_starts s k).trans (h.starts k)

theorem Paced.stopReports_le (h : Paced s) (k : ℕ) :
    (s.channel k).stopReports ≤ if k < s.given then 1 else 0 :=
  (stopReports_le_ends s k).trans (h.ends k)

/-- Each channel that was given is counted or is not. -/
theorem Paced.startTotal_le (h : Paced s) : startTotal s ≤ s.given := by
  have hle : startTotal s ≤ ∑ _k ∈ Finset.range s.given, 1 :=
    Finset.sum_le_sum fun k hk => by
      have := h.startReports_le k
      rwa [if_pos (Finset.mem_range.mp hk)] at this
  simpa using hle

theorem Turn.totals (h : Turn s s' k 0 0 started stopped) (hs : Paced s) :
    startTotal s' = startTotal s + started ∧ stopTotal s' = stopTotal s + stopped := by
  by_cases hk : k < s.given
  · exact ⟨sum_turn h.given h.channel hk h.startReports, sum_turn h.given h.channel hk h.stopReports⟩
  · have hstarts := hs.starts k
    have hends := hs.ends k
    rw [if_neg hk] at hstarts hends
    have hstarted : started = 0 := by
      have := h.starts
      have := h.startReports
      have := startReports_le_starts s' k
      omega
    have hstopped : stopped = 0 := by
      have := h.ends
      have := h.stopReports
      have := stopReports_le_ends s' k
      omega
    rw [hstarted, hstopped]
    exact ⟨sum_fresh h.given h.channel hk, sum_fresh h.given h.channel hk⟩

/-- A step of a channel keeps what is counted or yet to be within bounds. -/
theorem Turn.paced (h : Turn s s' k 0 0 started stopped) (hs : Paced s)
    (hbound : s.count + uncounted s ≤ maximumSize) :
    Paced s' ∧ s'.count + uncounted s' ≤ s.count + uncounted s := by
  have htotals := h.totals hs
  have hle : startTotal s + started ≤ s.given := by
    have hs' : ∀ j, (s'.channel j).startReports ≤ if j < s.given then 1 else 0 := by
      intro j
      by_cases hj : j = k
      · subst hj
        have := h.starts
        have := hs.starts j
        have := startReports_le_starts s' j
        omega
      · rw [h.channel j hj]
        exact hs.startReports_le j
    rw [← htotals.1]
    unfold startTotal
    rw [h.given]
    have hsum : ∑ j ∈ Finset.range s.given, (s'.channel j).startReports ≤
        ∑ _j ∈ Finset.range s.given, 1 :=
      Finset.sum_le_sum fun j hj => by
        have := hs' j
        rwa [if_pos (Finset.mem_range.mp hj)] at this
    simpa using hsum
  have habove := h.above
  have hbelow := h.below (by unfold uncounted at hbound; omega)
  refine ⟨⟨?_, ?_, ?_⟩, ?_⟩
  · intro j
    rw [h.given]
    by_cases hj : j = k
    · subst hj
      have := h.starts
      have := hs.starts j
      omega
    · unfold Sessions.starts
      rw [h.channel j hj, h.nets j hj]
      exact hs.starts j
  · intro j
    rw [h.given]
    by_cases hj : j = k
    · subst hj
      have := h.ends
      have := hs.ends j
      omega
    · unfold Sessions.ends
      rw [h.channel j hj, h.nets j hj]
      exact hs.ends j
  · have := hs.counted
    omega
  · unfold uncounted
    rw [h.given]
    omega

/-- A channel that is up has reported no stop. -/
theorem live_stopReports (c : Channel) : c.live = 0 ∨ c.stopReports = 0 := by
  unfold Channel.live
  split
  · next h =>
    refine .inr (List.sum_eq_zero fun n hn => ?_)
    obtain ⟨r, hr, rfl⟩ := List.mem_map.mp hn
    cases r with
    | started code => rfl
    | stopped code => exact absurd (List.any_eq_true.mpr ⟨_, hr, rfl⟩) h.2
  · exact .inl rfl

/-- The channels that are up are counted, but for those that are yet to be. -/
theorem Paced.bounds (h : Paced s) : liveCount s ≤ s.count + uncounted s := by
  have hlocal : ∀ k ∈ Finset.range s.given,
      (s.channel k).live + (s.channel k).stopReports ≤ 1 := by
    intro k hk
    have hends := h.stopReports_le k
    rw [if_pos (Finset.mem_range.mp hk)] at hends
    have hlive := live_le (s.channel k)
    have hstopped := live_stopReports (s.channel k)
    omega
  have hsum : liveCount s + stopTotal s ≤ s.given := by
    unfold liveCount stopTotal
    rw [← Finset.sum_add_distrib]
    simpa using Finset.sum_le_sum hlocal
  have hcounted := h.counted
  unfold uncounted
  omega

/-- A channel that a session is given is yet to be counted. -/
theorem Paced.startChannel (h : Paced s) (hstopped : s.isStopped = false) :
    Paced s.startChannel ∧ s.startChannel.count = s.count ∧
      uncounted s.startChannel = uncounted s + 1 := by
  have hstart : s.startChannel =
      { s with given := s.given + 1 }.postChannel s.given .attachHandshake := by
    unfold Session.startChannel
    dsimp only
    rw [if_neg (by rw [hstopped]; exact Bool.false_ne_true)]
  have hturn := turn_postChannel { s with given := s.given + 1 } s.given .attachHandshake
  rw [← hstart] at hturn
  have hstarts : Sessions.starts s.startChannel s.given ≤ 1 ∧ Sessions.ends s.startChannel s.given ≤ 1 := by
    have h₁ := h.starts s.given
    have h₂ := h.ends s.given
    rw [if_neg (Nat.lt_irrefl _)] at h₁ h₂
    have h₃ : (Sessions.starts s.startChannel s.given : ℤ) ≤ Sessions.starts s s.given + 1 := hturn.starts
    have h₄ : (Sessions.ends s.startChannel s.given : ℤ) ≤ Sessions.ends s s.given + 1 := hturn.ends
    omega
  have hgiven : s.startChannel.given = s.given + 1 := hturn.given
  have hcount : s.startChannel.count = s.count := by
    rw [hstart]
    rfl
  have hother : ∀ j, j ≠ s.given → s.startChannel.channel j = s.channel j := hturn.channel
  have htotals : startTotal s.startChannel = startTotal s ∧ stopTotal s.startChannel = stopTotal s := by
    have h₁ := h.startReports_le s.given
    have h₂ := h.stopReports_le s.given
    rw [if_neg (Nat.lt_irrefl _)] at h₁ h₂
    have h₃ : (s.startChannel.channel s.given).startReports = (s.channel s.given).startReports :=
      hturn.startReports
    have h₄ : (s.startChannel.channel s.given).stopReports = (s.channel s.given).stopReports :=
      hturn.stopReports
    unfold startTotal stopTotal
    rw [hgiven, Finset.sum_range_succ, Finset.sum_range_succ]
    have hrest : ∀ f : Channel → ℕ, ∑ j ∈ Finset.range s.given, f (s.startChannel.channel j) =
        ∑ j ∈ Finset.range s.given, f (s.channel j) := fun f =>
      Finset.sum_congr rfl fun j hj => by rw [hother j (Finset.mem_range.mp hj).ne]
    rw [hrest Channel.startReports, hrest Channel.stopReports]
    omega
  refine ⟨⟨?_, ?_, ?_⟩, hcount, ?_⟩
  · intro j
    rw [hgiven]
    by_cases hj : j = s.given
    · subst hj
      rw [if_pos (Nat.lt_succ_self _)]
      exact hstarts.1
    · have hsame : Sessions.starts s.startChannel j = Sessions.starts s j := by
        unfold Sessions.starts
        rw [hother j hj, hturn.nets j hj]
        rfl
      rw [hsame]
      exact (h.starts j).trans (by split <;> split <;> omega)
  · intro j
    rw [hgiven]
    by_cases hj : j = s.given
    · subst hj
      rw [if_pos (Nat.lt_succ_self _)]
      exact hstarts.2
    · have hsame : Sessions.ends s.startChannel j = Sessions.ends s j := by
        unfold Sessions.ends
        rw [hother j hj, hturn.nets j hj]
        rfl
      rw [hsame]
      exact (h.ends j).trans (by split <;> split <;> omega)
  · rw [htotals.1, htotals.2, hcount]
    exact h.counted
  · have := h.startTotal_le
    unfold uncounted
    rw [hgiven, htotals.1]
    omega

theorem create_paced : Paced {} where
  starts _ := Nat.zero_le _
  ends _ := Nat.zero_le _
  counted := Nat.zero_le _

end

/-! ### The session of a server -/

namespace Server
variable {Address : Type}

/-- The channels that were started and not stopped. -/
def up (s : Server) : ℕ := liveCount s.session

theorem connections_le (o : AcceptOptions Address) : o.connections.toNat ≤ maximumSize := by
  have := o.connections.toNat_lt
  unfold maximumSize
  omega

/-- A channel is created only where those that are counted and those that are yet to be
are fewer than the connections that are configured. -/
def HasRoom (o : AcceptOptions Address) (s : Server) : Event Address → Prop
  | .accepted ec address =>
    creates o ec address s.session.isStopped s.session.count = true →
      s.session.count + uncounted s.session < o.connections.toNat
  | _ => True

instance (o : AcceptOptions Address) (s : Server) : (e : Event Address) → Decidable (HasRoom o s e)
  | .accepted _ _ => inferInstanceAs (Decidable (_ = true → _))
  | .connected _ _ => isTrue trivial
  | .retry _ => isTrue trivial
  | .channel _ => isTrue trivial

/-- The channels that are counted or are yet to be are within the limit. -/
structure Within (o : AcceptOptions Address) (s : Server) : Prop where
  paced : Paced s.session
  within : s.session.count + uncounted s.session ≤ o.connections.toNat

theorem step_within {o : AcceptOptions Address} (s : Server) (e : Event Address) (h : Within o s)
    (hroom : HasRoom o s e) : Within o (s.step o e) := by
  cases e with
  | connected index ec =>
    dsimp only [step]
    split
    · exact ⟨h.paced, h.within⟩
    · exact h
  | retry index =>
    dsimp only [step]
    split
    · exact ⟨h.paced, h.within⟩
    · exact h
  | accepted ec address =>
    dsimp only [step]
    split
    · exact h
    · unfold handleAccepted
      dsimp only
      split
      · next hcreates =>
        have hstopped : s.session.isStopped = false := by
          unfold creates at hcreates
          by_contra hne
          rw [Bool.not_eq_false] at hne
          rw [if_pos hne] at hcreates
          cases hcreates
        obtain ⟨hpaced, hcount, huncounted⟩ := h.paced.startChannel hstopped
        refine ⟨hpaced, ?_⟩
        dsimp only
        rw [hcount, huncounted]
        exact hroom hcreates
      · exact ⟨h.paced, h.within⟩
  | channel e =>
    by_cases he : e = .start
    · subst he
      exact h
    · have hstep : s.step o (.channel e) = { s with session := s.session.step e } := by
        cases e with
        | start => exact absurd rfl he
        | _ => rfl
      obtain ⟨k, started, stopped, hturn⟩ := step_turn s.session e he
      obtain ⟨hpaced, hle⟩ := hturn.paced h.paced (h.within.trans (connections_le o))
      rw [hstep]
      exact ⟨hpaced, hle.trans h.within⟩

theorem create_within (o : AcceptOptions Address) (bindings : ℕ) : Within o (create bindings) where
  paced := create_paced
  within := Nat.zero_le _

end Server

/-! ### The session of inbound peers -/

section
variable {Endpoint : Type} [DecidableEq Endpoint]

/-- The inbound channels that have neither failed nor stopped. -/
def Peers.inbounds (s : Peers Endpoint) : ℕ :=
  s.started.countP (·.inbound) + s.handshaking.countP (·.inbound)

theorem countP_erase_add {α : Type} [DecidableEq α] {l : List α} {c : α} (h : c ∈ l) (p : α → Bool) :
    (l.erase c).countP p + (if p c then 1 else 0) = l.countP p := by
  rw [(List.perm_cons_erase h).countP_eq p, List.countP_cons]

/-- A channel that is started is in its handshake, where it is not turned away. -/
theorem Peers.start_inbounds (s : Peers Endpoint) (c : PeerChannel Endpoint) (stopped : Bool) :
    (s.step (.start c stopped)).inbounds ≤ s.inbounds + if c.inbound then 1 else 0 := by
  dsimp only [Peers.step]
  split
  · exact Nat.le_add_right _ _
  · unfold Peers.startChannel
    split
    · exact Nat.le_add_right _ _
    · split
      · exact Nat.le_add_right _ _
      · unfold Peers.inbounds
        dsimp only
        rw [List.countP_cons]
        omega

/-- No other step adds to the channels. -/
theorem Peers.step_inbounds (s : Peers Endpoint) (e : Peers.Event Endpoint)
    (he : ∀ c stopped, e ≠ .start c stopped) : (s.step e).inbounds ≤ s.inbounds := by
  cases e with
  | start c stopped => exact absurd rfl (he c stopped)
  | handshake c ec =>
    dsimp only [Peers.step]
    split
    · next hmem =>
      have herase := countP_erase_add hmem (·.inbound)
      unfold Peers.doHandleHandshake Peers.inbounds
      split
      · split
        · dsimp only
          omega
        · dsimp only
          rw [List.countP_cons]
          omega
    · exact Nat.le_refl _
  | stop c sent received =>
    dsimp only [Peers.step]
    split
    · next hmem =>
      have herase := countP_erase_add hmem (·.inbound)
      unfold Peers.doHandleChannelStopped Peers.inbounds
      dsimp only
      omega
    · exact Nat.le_refl _
  | close => exact Nat.le_refl _

end

namespace Inbound
variable {Endpoint : Type} [DecidableEq Endpoint]

/-- The inbound channels that were started and not stopped. -/
def up (s : Inbound Endpoint) : ℕ := s.peers.started.countP (·.inbound)

/-- The inbound channels that were started by `handle_accepted` and are yet to be counted. -/
def uncounted (s : Inbound Endpoint) : ℕ := s.peers.handshaking.countP (·.inbound)

/-- A channel is created only where those that are counted and those that are yet to be
are fewer than the connections that are configured. -/
def HasRoom (o : AcceptOptions Endpoint) (s : Inbound Endpoint) : Event Endpoint → Prop
  | .accepted ec c =>
    creates o ec c.endpoint s.isStopped s.inboundChannelCount = true →
      s.inboundChannelCount + s.uncounted < o.connections.toNat
  | _ => True

instance (o : AcceptOptions Endpoint) (s : Inbound Endpoint) :
    (e : Event Endpoint) → Decidable (HasRoom o s e)
  | .accepted _ _ => inferInstanceAs (Decidable (_ = true → _))
  | .connected _ _ => isTrue trivial
  | .retry _ => isTrue trivial
  | .close => isTrue trivial
  | .channel _ => isTrue trivial

/-- The channels that are counted or are yet to be are within the limit. -/
structure Within (o : AcceptOptions Endpoint) (s : Inbound Endpoint) : Prop where
  balanced : Balanced s.peers
  within : s.peers.inbounds ≤ o.connections.toNat

theorem Within.channel {o : AcceptOptions Endpoint} {s : Inbound Endpoint} (h : Within o s)
    {e : Peers.Event Endpoint} (hle : (s.peers.step e).inbounds ≤ o.connections.toNat) :
    Within o { s with peers := s.peers.step e } :=
  ⟨step_balanced s.peers e h.balanced, hle⟩

theorem step_within {o : AcceptOptions Endpoint} (s : Inbound Endpoint) (e : Event Endpoint)
    (h : Within o s) (hroom : HasRoom o s e) : Within o (s.step o e) := by
  cases e with
  | connected index ec =>
    dsimp only [step]
    split
    · exact ⟨h.balanced, h.within⟩
    · exact h
  | retry index =>
    dsimp only [step]
    split
    · exact ⟨h.balanced, h.within⟩
    · exact h
  | accepted ec c =>
    dsimp only [step]
    split
    · exact h
    · unfold handleAccepted
      dsimp only
      split
      · next hcreates =>
        have hfewer := hroom hcreates
        unfold inboundChannelCount uncounted at hfewer
        rw [h.balanced.tallied.inbound] at hfewer
        have hstart := s.peers.start_inbounds { c with inbound := true } s.isStopped
        rw [if_pos rfl] at hstart
        exact ⟨step_balanced s.peers (.start { c with inbound := true } s.isStopped) h.balanced,
          hstart.trans hfewer⟩
      · exact ⟨h.balanced, h.within⟩
  | close => exact ⟨h.balanced, h.within⟩
  | channel e =>
    cases e with
    | start c stopped =>
      dsimp only [step]
      split
      · exact h
      · next hinbound =>
        have hstart := s.peers.start_inbounds c stopped
        rw [if_neg hinbound] at hstart
        exact h.channel (hstart.trans h.within)
    | handshake c ec =>
      exact h.channel ((s.peers.step_inbounds _ fun _ _ he => by cases he).trans h.within)
    | stop c sent received =>
      exact h.channel ((s.peers.step_inbounds _ fun _ _ he => by cases he).trans h.within)
    | close => exact h.channel ((s.peers.step_inbounds _ fun _ _ he => by cases he).trans h.within)

omit [DecidableEq Endpoint] in
theorem create_within (o : AcceptOptions Endpoint) (bindings : ℕ) (enableLoopback : Bool) :
    Within o (create bindings enableLoopback) where
  balanced := create_balanced enableLoopback
  within := Nat.zero_le _

end Inbound

/-! ### Runs -/

/-- In a run that creates a channel only where those that are counted and those that are
yet to be leave room for it, no more are up than are configured. -/
theorem channels_within {Address Endpoint : Type} [DecidableEq Endpoint] :
    (∀ (o : AcceptOptions Address) (bindings : ℕ) (events : List (Server.Event Address)),
      Along (Server.step o) (Server.HasRoom o) (.create bindings) events →
        (after (Server.step o) (.create bindings) events).up ≤ o.connections.toNat) ∧
      ∀ (o : AcceptOptions Endpoint) (bindings : ℕ) (enableLoopback : Bool)
        (events : List (Inbound.Event Endpoint)),
        Along (Inbound.step o) (Inbound.HasRoom o) (.create bindings enableLoopback) events →
          (after (Inbound.step o) (.create bindings enableLoopback) events).up ≤
            o.connections.toNat := by
  constructor
  · intro o bindings events hevents
    have h := after_along Server.step_within (Server.create_within o bindings) hevents
    exact h.paced.bounds.trans h.within
  · intro o bindings enableLoopback events hevents
    have h := after_along Inbound.step_within (Inbound.create_within o bindings enableLoopback) hevents
    exact (Nat.le_add_right _ _).trans h.within

/-- One connection is configured, from any address. -/
def oneConnection : AcceptOptions ℕ :=
  { connections := 1, whitelisted := fun _ => true, blacklisted := fun _ => false }

/-- The turns of the strands by which a channel of a server comes to be counted. -/
def countingTurns (k : ℕ) : List Session.Event :=
  [.runChannel k, .handshake k .success, .runNetwork, .runNetwork, .runChannel k, .runNetwork,
    .runChannel k, .runNetwork]

/-- Each of two acceptors has a socket, and the second is looked at once the channel of the
first is counted. -/
def serverInTurn : List (Server.Event ℕ) :=
  [.connected 0 .success, .connected 1 .success, .accepted .success 0] ++
    (countingTurns 0).map .channel ++ [.accepted .success 0]

/-- It is looked at before. -/
def serverAtOnce : List (Server.Event ℕ) :=
  [.connected 0 .success, .connected 1 .success, .accepted .success 0, .accepted .success 0] ++
    (countingTurns 0).map .channel ++ (countingTurns 1).map .channel

def inboundPeer (identifier : ℕ) : PeerChannel ℕ :=
  { identifier := identifier, endpoint := identifier, nonce := 0, peerNonce := 0, inbound := true,
    quiet := false }

def inboundInTurn : List (Inbound.Event ℕ) :=
  [.connected 0 .success, .connected 1 .success, .accepted .success (inboundPeer 0),
    .channel (.handshake (inboundPeer 0) .success), .accepted .success (inboundPeer 1)]

def inboundAtOnce : List (Inbound.Event ℕ) :=
  [.connected 0 .success, .connected 1 .success, .accepted .success (inboundPeer 0),
    .accepted .success (inboundPeer 1), .channel (.handshake (inboundPeer 0) .success),
    .channel (.handshake (inboundPeer 1) .success)]

theorem channels_within_inTurn :
    (after (Server.step oneConnection) (.create 2) serverInTurn).up ≤ 1 ∧
      (after (Inbound.step oneConnection) (.create 2 false) inboundInTurn).up ≤ 1 :=
  ⟨(@channels_within ℕ ℕ _).1 oneConnection 2 serverInTurn (by decide),
    (@channels_within ℕ ℕ _).2 oneConnection 2 false inboundInTurn (by decide)⟩

/-- Two channels of one connection are up. -/
theorem not_channels_within :
    ¬(∀ (o : AcceptOptions ℕ) (bindings : ℕ) (events : List (Server.Event ℕ)),
      (after (Server.step o) (.create bindings) events).up ≤ o.connections.toNat) ∧
      ¬∀ (o : AcceptOptions ℕ) (bindings : ℕ) (enableLoopback : Bool) (events : List (Inbound.Event ℕ)),
        (after (Inbound.step o) (.create bindings enableLoopback) events).up ≤ o.connections.toNat := by
  constructor
  · intro h
    exact absurd (h oneConnection 2 serverAtOnce) (by decide)
  · intro h
    exact absurd (h oneConnection 2 false inboundAtOnce) (by decide)

end BitcoinNetwork.Sessions
