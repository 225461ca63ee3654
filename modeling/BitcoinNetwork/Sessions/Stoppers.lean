import BitcoinNetwork.Sessions.SessionRuns

/-!
# The stopper of a peer channel (sessions/session_peer.cpp)

What the session owes to the stopper of a channel goes from one strand to the other as the
channel does, and is paid once, in whatever order the starter is invoked. A peer session may
also refuse a channel where it is given, for its nonce, or behind its handshake, where the
network does not count it.
-/

namespace BitcoinNetwork.Sessions
open Net Async

namespace Session

/-- `session_peer::start_channel`, with the result of the network's store of the nonce. -/
def startPeer (s : Session) (stored : Code) : Session :=
  if ¬s.isStopped ∧ stored ≠ .success then
    let k := s.given
    let s := { s with given := s.given + 1 }
    let s := s.update k ((s.channel k).stop stored)
    (s.handleChannelStart k stored).handleChannelStop k stored
  else s.startChannel

/-- `session_peer::do_handle_handshake`, with the result of the network's count. -/
def handlePeerHandshake (s : Session) (k : ℕ) (ec counted : Code) : Session :=
  let code := if ec ≠ .success then ec else counted
  if code ≠ .success then
    (s.update k ((s.channel k).stop code)).runNetworkJob k (.handshaken code)
  else s.runNetworkJob k (.handshaken .success)

/-- A step of a peer session, with the result of what it asks the network for. -/
def stepPeer (s : Session) (result : Code) : Event → Session
  | .start => s.startPeer result
  | .runNetwork =>
    match s.network with
    | [] => s
    | (k, .handshaken ec) :: network => { s with network := network }.handlePeerHandshake k ec result
    | (k, job) :: network => { s with network := network }.runNetworkJob k job
  | e => s.step e

end Session

/-! ### What is owed -/

def ChannelJob.owes : ChannelJob → Bool
  | .attachHandshake => true
  | .subscribeStop => true
  | _ => false

def NetworkJob.owes : NetworkJob → Bool
  | .handshaken _ => true
  | .subscribe => true
  | .stopped _ => true
  | _ => false

def Report.isStop : Report → Bool
  | .stopped _ => true
  | _ => false

def Channel.owes (c : Channel) : ℕ :=
  c.jobs.countP ChannelJob.owes + c.handshaking.toNat + c.subscribed.toNat

/-- How often the stopper is yet to be invoked for a channel. -/
def debt (s : Session) (k : ℕ) : ℕ := (s.channel k).owes + (nets s k).countP NetworkJob.owes

/-- How often it was invoked. -/
def stops (s : Session) (k : ℕ) : ℕ := (s.channel k).reports.countP Report.isStop

section
variable (s : Session) (k : ℕ)

@[simp] theorem debt_update (c : Channel) :
    debt (s.update k c) k = c.owes + (nets s k).countP NetworkJob.owes := by
  unfold debt
  rw [channel_update, nets_update]

@[simp] theorem stops_update (c : Channel) :
    stops (s.update k c) k = c.reports.countP Report.isStop := by
  unfold stops
  rw [channel_update]

@[simp] theorem debt_post (job : NetworkJob) :
    debt (s.post k job) k = debt s k + if job.owes then 1 else 0 := by
  unfold debt
  rw [channel_post, nets_post, List.countP_append, List.countP_singleton]
  omega

@[simp] theorem stops_post (j : ℕ) (job : NetworkJob) : stops (s.post j job) k = stops s k := rfl

variable {k} {j : ℕ} (h : j ≠ k)
include h

theorem debt_update_ne (c : Channel) : debt (s.update k c) j = debt s j := by
  unfold debt
  rw [channel_update_ne _ _ _ _ h, nets_update]

theorem stops_update_ne (c : Channel) : stops (s.update k c) j = stops s j := by
  unfold stops
  rw [channel_update_ne _ _ _ _ h]

theorem debt_post_ne (job : NetworkJob) : debt (s.post k job) j = debt s j := by
  unfold debt
  rw [channel_post, nets_post_ne _ _ _ _ h]

end

/-- A step of one channel, by which what was owed to its stopper, and so much more, is owed or
was paid. -/
structure Settled (s s' : Session) (k n : ℕ) : Prop where
  given : s'.given = s.given
  debt_ne : ∀ j ≠ k, debt s' j = debt s j
  stops_ne : ∀ j ≠ k, stops s' j = stops s j
  owed : debt s' k + stops s' k = debt s k + stops s k + n
  stops_le : stops s k ≤ stops s' k

section
variable {s : Session} {k : ℕ}

theorem settled_refl (s : Session) (k : ℕ) : Settled s s k 0 :=
  ⟨rfl, fun _ _ => rfl, fun _ _ => rfl, rfl, Nat.le_refl _⟩

theorem Settled.trans {s' s'' : Session} {n m : ℕ} (h : Settled s s' k n)
    (h' : Settled s' s'' k m) : Settled s s'' k (n + m) where
  given := h'.given.trans h.given
  debt_ne j hj := (h'.debt_ne j hj).trans (h.debt_ne j hj)
  stops_ne j hj := (h'.stops_ne j hj).trans (h.stops_ne j hj)
  owed := by
    rw [h'.owed, h.owed]
    omega
  stops_le := h.stops_le.trans h'.stops_le

/-- A channel that owes so much more. -/
theorem settled_update {c : Channel} {n : ℕ} (howes : c.owes = (s.channel k).owes + n)
    (hreports : c.reports = (s.channel k).reports) : Settled s (s.update k c) k n where
  given := rfl
  debt_ne j hj := debt_update_ne s hj c
  stops_ne j hj := stops_update_ne s hj c
  owed := by
    rw [debt_update, stops_update, howes, hreports]
    unfold debt stops
    omega
  stops_le := by
    rw [stops_update, hreports]
    exact Nat.le_refl _

theorem settled_post (s : Session) (k : ℕ) (job : NetworkJob) :
    Settled s (s.post k job) k (if job.owes then 1 else 0) where
  given := rfl
  debt_ne j hj := debt_post_ne s hj job
  stops_ne _ _ := rfl
  owed := by
    rw [debt_post, stops_post]
    omega
  stops_le := Nat.le_refl _

theorem settled_postChannel (s : Session) (k : ℕ) (job : ChannelJob) :
    Settled s (s.postChannel k job) k (if job.owes then 1 else 0) := by
  refine settled_update ?_ rfl
  unfold Channel.owes
  dsimp only
  rw [List.countP_append, List.countP_singleton]
  omega

theorem owes_stop (c : Channel) (code : Code) : (c.stop code).owes = c.owes := by
  unfold Channel.stop
  split
  · rfl
  · unfold Channel.owes
    dsimp only
    rw [List.countP_append, List.countP_singleton]
    rfl

theorem reports_stop (c : Channel) (code : Code) : (c.stop code).reports = c.reports := by
  unfold Channel.stop
  split
  · rfl
  · rfl

theorem settled_stop (s : Session) (k : ℕ) (code : Code) :
    Settled s (s.update k ((s.channel k).stop code)) k 0 :=
  settled_update (owes_stop _ _) (reports_stop _ _)

/-- The starter is not the stopper. -/
theorem settled_start (s : Session) (k : ℕ) (code : Code) :
    Settled s (s.handleChannelStart k code) k 0 where
  given := rfl
  debt_ne j hj := debt_update_ne s hj _
  stops_ne j hj := stops_update_ne s hj _
  owed := by
    show debt (s.update k _) k + stops (s.update k _) k = _
    rw [debt_update, stops_update, List.countP_append, List.countP_singleton]
    rfl
  stops_le := by
    show _ ≤ stops (s.update k _) k
    rw [stops_update, List.countP_append]
    exact Nat.le_add_right _ _

theorem settled_stopper (s : Session) (k : ℕ) (code : Code) :
    Settled s (s.handleChannelStop k code) k 1 where
  given := rfl
  debt_ne j hj := debt_update_ne s hj _
  stops_ne j hj := stops_update_ne s hj _
  owed := by
    show debt (s.update k _) k + stops (s.update k _) k = _
    rw [debt_update, stops_update, List.countP_append, List.countP_singleton]
    rfl
  stops_le := by
    show _ ≤ stops (s.update k _) k
    rw [stops_update, List.countP_append]
    exact Nat.le_add_right _ _

/-! ### Jobs -/

theorem settled_subscribeStop (s : Session) (k : ℕ) : Settled s (s.subscribeStop k) k 1 := by
  unfold Session.subscribeStop
  split
  · exact (settled_post s k (.started .channelStopped)).trans (settled_post _ k (.stopped _))
  · have hnets := nets_head (s := { s with network := (k, .subscribe) :: s.network }) (k := k) rfl
    refine ⟨rfl, fun j hj => ?_, fun _ _ => rfl, ?_, Nat.le_refl _⟩
    · have htail := nets_tail (s := { s with network := (k, .subscribe) :: s.network }) rfl hj
      unfold debt
      rw [← htail]
    · unfold debt
      rw [hnets, List.countP_cons_of_pos rfl]
      show _ + (_ + 1) + stops s k = _
      rw [← Nat.add_assoc, Nat.add_right_comm]

/-- What a job of the strand of the network owes is owed behind it, or was paid. -/
theorem settled_networkJob (s : Session) (k : ℕ) (job : NetworkJob) :
    Settled s (s.runNetworkJob k job) k (if job.owes then 1 else 0) := by
  cases job with
  | handshaken code =>
    show Settled s (if code ≠ .success then _ else _) k 1
    split
    · exact (settled_start s k code).trans (settled_stopper _ k code)
    · exact settled_subscribeStop s k
  | subscribe => exact settled_postChannel s k .subscribeStop
  | started code =>
    show Settled s (if code ≠ .success then _ else _) k 0
    split
    · exact settled_start s k code
    · exact settled_postChannel s k .attachProtocols
  | complete => exact settled_start s k .success
  | stopped code => exact settled_stopper s k code

theorem settled_handshake (s : Session) (k : ℕ) (ec counted : Code) :
    Settled s (s.handlePeerHandshake k ec counted) k 1 := by
  unfold Session.handlePeerHandshake
  dsimp only
  generalize (if ec ≠ .success then ec else counted) = code
  split
  · have hstop := (settled_stop s k code).trans
      (settled_networkJob (s.update k ((s.channel k).stop code)) k (.handshaken code))
    exact hstop
  · exact settled_networkJob s k (.handshaken .success)

/-- A job of the strand of a channel, which is not shaking hands where that is begun, and has
not subscribed where it subscribes. -/
theorem settled_channelJob (s : Session) (k : ℕ) (job : ChannelJob)
    (hhandshaking : job = .attachHandshake → (s.channel k).handshaking = false)
    (hsubscribed : job = .subscribeStop → (s.channel k).subscribed = false) :
    Settled s (s.runChannelJob k job) k (if job.owes then 1 else 0) := by
  cases job with
  | attachHandshake =>
    refine settled_update ?_ rfl
    unfold Channel.owes
    dsimp only
    rw [hhandshaking rfl, Bool.toNat_false, Bool.toNat_true]
    exact Nat.add_right_comm _ _ _
  | subscribeStop =>
    show Settled s (if _ then _ else _) k 1
    split
    · exact (settled_post s k (.stopped .subscriberStopped)).trans (settled_post _ k (.started _))
    · have hupdate : Settled s (s.update k { s.channel k with subscribed := true }) k 1 := by
        refine settled_update ?_ rfl
        unfold Channel.owes
        rw [hsubscribed rfl]
        rfl
      exact hupdate.trans (settled_post _ k (.started .success))
  | attachProtocols => exact settled_post s k .complete
  | stopping code =>
    show Settled s (if _ then _ else _) k 0
    split
    · exact settled_refl s k
    · dsimp only
      split
      · next hsub =>
        refine ⟨rfl, fun j hj => ?_, fun j hj => ?_, ?_, ?_⟩
        · rw [debt_post_ne _ hj, debt_update_ne _ hj]
        · rw [stops_post, stops_update_ne _ hj]
        · rw [debt_post, stops_post, debt_update, stops_update]
          unfold debt stops Channel.owes NetworkJob.owes
          dsimp only
          rw [hsub, if_pos rfl, Bool.toNat_false, Bool.toNat_true]
          omega
        · rw [stops_post, stops_update]
          exact Nat.le_refl _
      · next hsub =>
        refine settled_update ?_ rfl
        unfold Channel.owes
        rw [Bool.eq_false_of_not_eq_true hsub]
        rfl

end

/-! ### Runs -/

/-- Each channel that was given is owed its stopper once, or had it invoked once. -/
def Owing (s : Session) : Prop := ∀ k, debt s k + stops s k = if k < s.given then 1 else 0

section
variable {s s' : Session} {k : ℕ}

theorem owing_empty : Owing {} := fun _ => rfl

theorem Settled.owing (h : Settled s s' k 0) (hs : Owing s) : Owing s' := by
  intro j
  rw [h.given]
  by_cases hj : j = k
  · rw [hj, h.owed]
    exact hs k
  · rw [h.debt_ne j hj, h.stops_ne j hj]
    exact hs j

theorem Settled.stops_mono {n : ℕ} (h : Settled s s' k n) (j : ℕ) : stops s j ≤ stops s' j := by
  by_cases hj : j = k
  · rw [hj]
    exact h.stops_le
  · exact (h.stops_ne j hj).ge

/-- A job of the network that is taken, by which what it owes is not owed. -/
theorem settled_taken {job : NetworkJob} {network : List (ℕ × NetworkJob)}
    (hnetwork : s.network = (k, job) :: network)
    (h : Settled { s with network := network } s' k (if job.owes then 1 else 0)) :
    Settled s s' k 0 where
  given := h.given
  debt_ne j hj := by
    rw [h.debt_ne j hj]
    unfold debt
    rw [nets_tail hnetwork hj]
  stops_ne j hj := h.stops_ne j hj
  owed := by
    rw [h.owed]
    unfold debt
    rw [nets_head hnetwork, List.countP_cons]
    show (s.channel k).owes + _ + stops s k + _ = _
    omega
  stops_le := h.stops_le

/-- What is of a channel that is owed its stopper by a job is nothing else. -/
theorem owing_alone (hs : Owing s) {job : ChannelJob} {jobs : List ChannelJob}
    (hjobs : (s.channel k).jobs = job :: jobs) (howes : job.owes = true) :
    (s.channel k).handshaking = false ∧ (s.channel k).subscribed = false := by
  have hone := hs k
  unfold debt Channel.owes at hone
  rw [hjobs, List.countP_cons_of_pos howes] at hone
  have hle : (if k < s.given then 1 else 0) ≤ 1 := by split <;> omega
  constructor
  · cases hh : (s.channel k).handshaking with
    | false => rfl
    | true =>
      rw [hh, Bool.toNat_true] at hone
      omega
  · cases hh : (s.channel k).subscribed with
    | false => rfl
    | true =>
      rw [hh, Bool.toNat_true] at hone
      omega

theorem settled_runChannel (hs : Owing s) {job : ChannelJob} {jobs : List ChannelJob}
    (hjobs : (s.channel k).jobs = job :: jobs) :
    Settled s ((s.update k { s.channel k with jobs := jobs }).runChannelJob k job) k 0 := by
  have halone := fun howes => owing_alone hs hjobs howes
  have hjob := settled_channelJob (s.update k { s.channel k with jobs := jobs }) k job
    (by rintro rfl; rw [channel_update]; exact (halone rfl).1)
    (by rintro rfl; rw [channel_update]; exact (halone rfl).2)
  refine ⟨hjob.given, fun j hj => ?_, fun j hj => ?_, ?_, ?_⟩
  · rw [hjob.debt_ne j hj, debt_update_ne _ hj]
  · rw [hjob.stops_ne j hj, stops_update_ne _ hj]
  · rw [hjob.owed, debt_update, stops_update]
    unfold debt Channel.owes
    rw [hjobs, List.countP_cons]
    show _ + stops s k + _ = _
    dsimp only
    omega
  · have hle := hjob.stops_le
    rw [stops_update] at hle
    exact hle

/-- A channel that is given. -/
theorem owing_start (hs : Owing s) (result : Code) :
    Owing (s.startPeer result) ∧ (s.startPeer result).given = s.given + 1 ∧
      ∀ j, stops s j ≤ stops (s.startPeer result) j := by
  have hgiven (s' : Session) (h : Settled { s with given := s.given + 1 } s' s.given 1) :
      Owing s' ∧ s'.given = s.given + 1 ∧ ∀ j, stops s j ≤ stops s' j := by
    refine ⟨fun j => ?_, h.given, fun j => h.stops_mono j⟩
    rw [h.given]
    by_cases hj : j = s.given
    · rw [hj, h.owed]
      have hnew := hs s.given
      rw [if_neg (Nat.lt_irrefl _)] at hnew
      show debt s s.given + stops s s.given + 1 = if s.given < s.given + 1 then 1 else 0
      rw [hnew, if_pos (Nat.lt_succ_self _)]
    · rw [h.debt_ne j hj, h.stops_ne j hj]
      have hold := hs j
      show debt s j + stops s j = if j < s.given + 1 then 1 else 0
      rw [hold]
      by_cases hlt : j < s.given
      · rw [if_pos hlt, if_pos (by omega)]
      · rw [if_neg hlt, if_neg (by omega)]
  have hrefused (code : Code) := ((settled_stop { s with given := s.given + 1 } s.given code).trans
    (settled_start _ s.given code)).trans (settled_stopper _ s.given code)
  unfold Session.startPeer
  split
  · exact hgiven _ (hrefused result)
  · unfold Session.startChannel
    dsimp only
    split
    · exact hgiven _ (hrefused .serviceStopped)
    · exact hgiven _ (settled_postChannel { s with given := s.given + 1 } s.given .attachHandshake)

theorem settled_event (hs : Owing s) {e : Session.Event} (result : Code) (he : e ≠ .start) :
    ∃ k, Settled s (s.stepPeer result e) k 0 := by
  cases e with
  | start => exact absurd rfl he
  | close => exact ⟨0, rfl, fun _ _ => rfl, fun _ _ => rfl, rfl, Nat.le_refl _⟩
  | enter k =>
    refine ⟨k, ?_⟩
    show Settled s (if _ then _ else _) k 0
    split
    · exact settled_refl s k
    · exact settled_update rfl rfl
  | finish k code =>
    refine ⟨k, ?_⟩
    show Settled s (if _ then _ else _) k 0
    split
    · exact settled_refl s k
    · exact settled_update rfl rfl
  | post k =>
    refine ⟨k, ?_⟩
    show Settled s (s.step (.post k)) k 0
    cases hposting : (s.channel k).posting with
    | nil =>
      have hstep : s.step (.post k) = s := by
        unfold Session.step
        dsimp only
        rw [hposting]
      rw [hstep]
      exact settled_refl s k
    | cons code posting =>
      have hstep : s.step (.post k) = s.update k
          { s.channel k with
            posting := posting, jobs := (s.channel k).jobs ++ [.stopping code] } := by
        unfold Session.step
        dsimp only
        rw [hposting]
      rw [hstep]
      refine settled_update ?_ rfl
      unfold Channel.owes
      dsimp only
      rw [List.countP_append, List.countP_singleton]
      rfl
  | handshake k code =>
    refine ⟨k, ?_⟩
    show Settled s (if _ then _ else _) k 0
    split
    · next hhandshaking =>
      have hupdate (c : Channel) (howes : c.owes + 1 = (s.channel k).owes)
          (hreports : c.reports = (s.channel k).reports) :
          Settled s ((s.update k c).post k (.handshaken code)) k 0 := by
        refine ⟨rfl, fun j hj => ?_, fun j hj => ?_, ?_, ?_⟩
        · rw [debt_post_ne _ hj, debt_update_ne _ hj]
        · rw [stops_post, stops_update_ne _ hj]
        · rw [debt_post, stops_post, debt_update, stops_update, hreports]
          unfold debt stops
          show _ + _ + 1 + _ = _
          omega
        · rw [stops_post, stops_update, hreports]
          exact Nat.le_refl _
      have howes : ({ s.channel k with handshaking := false } : Channel).owes + 1 =
          (s.channel k).owes := by
        unfold Channel.owes
        dsimp only
        rw [hhandshaking, Bool.toNat_false, Bool.toNat_true]
        omega
      unfold Session.handleHandshake
      dsimp only
      split
      · exact hupdate _ (by rw [owes_stop]; exact howes) (reports_stop _ _)
      · exact hupdate _ howes rfl
    · exact settled_refl s k
  | runNetwork =>
    show ∃ k, Settled s (Session.stepPeer s result .runNetwork) k 0
    unfold Session.stepPeer
    cases hnetwork : s.network with
    | nil => exact ⟨0, settled_refl s 0⟩
    | cons entry network =>
      obtain ⟨k, job⟩ := entry
      refine ⟨k, ?_⟩
      cases job with
      | handshaken ec => exact settled_taken hnetwork (settled_handshake _ k ec result)
      | subscribe => exact settled_taken hnetwork (settled_networkJob _ k .subscribe)
      | started code => exact settled_taken hnetwork (settled_networkJob _ k (.started code))
      | complete => exact settled_taken hnetwork (settled_networkJob _ k .complete)
      | stopped code => exact settled_taken hnetwork (settled_networkJob _ k (.stopped code))
  | runChannel k =>
    refine ⟨k, ?_⟩
    show Settled s (s.step (.runChannel k)) k 0
    cases hjobs : (s.channel k).jobs with
    | nil =>
      have hstep : s.step (.runChannel k) = s := by
        unfold Session.step
        dsimp only
        rw [hjobs]
      rw [hstep]
      exact settled_refl s k
    | cons job jobs =>
      have hstep : s.step (.runChannel k) =
          (s.update k { s.channel k with jobs := jobs }).runChannelJob k job := by
        unfold Session.step
        dsimp only
        rw [hjobs]
      rw [hstep]
      exact settled_runChannel hs hjobs

/-- A step owes the stopper of each channel once, and takes back no invocation of it. -/
theorem owing_event (hs : Owing s) {e : Session.Event} (result : Code) (he : e ≠ .start) :
    Owing (s.stepPeer result e) ∧ (s.stepPeer result e).given = s.given ∧
      ∀ j, stops s j ≤ stops (s.stepPeer result e) j := by
  obtain ⟨k, hk⟩ := settled_event hs result he
  exact ⟨hk.owing hs, hk.given, fun j => hk.stops_mono j⟩

theorem Owing.stops_le (hs : Owing s) (k : ℕ) : stops s k ≤ if k < s.given then 1 else 0 := by
  rw [← hs k]
  exact Nat.le_add_left _ _

end

end BitcoinNetwork.Sessions
