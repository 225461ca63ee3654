import BitcoinNetwork.Sessions.Session
import Mathlib.Algebra.BigOperators.Group.Finset.Basic
import Mathlib.Algebra.Order.BigOperators.Group.Finset

/-!
# When starter and stopper are invoked in order (sessions/session.cpp)

A channel whose stop is not notified between its subscription and its protocols
goes through the phases below, in which the starter is invoked once, and then the
stopper.
-/

namespace BitcoinNetwork.Sessions
open Net Async

/-! ### What is under way for a channel -/

/-- The jobs of the strand of the network that are for a channel. -/
def nets (s : Session) (k : ℕ) : List NetworkJob :=
  s.network.filterMap fun entry => if entry.1 = k then some entry.2 else none

/-- The job notifies a stop. -/
def ChannelJob.stops : ChannelJob → Bool
  | .stopping _ => true
  | _ => false

/-- The jobs of a channel that do not. -/
def Channel.work (c : Channel) : List ChannelJob := c.jobs.filter fun job => !job.stops

/-- The phases of a channel, by what is under way for it, whether its socket is
stopped, and what was reported. -/
inductive Phase (stopped : Bool) :
    List ChannelJob → List NetworkJob → Bool → Bool → Bool → List Report → Prop
  | attaching {cut : Bool} : Phase stopped [.attachHandshake] [] false false cut []
  | handshaking {cut : Bool} : Phase stopped [] [] true false cut []
  | handshaken {cut : Bool} (code : Code) (h : code ≠ .success → stopped = true) :
      Phase stopped [] [.handshaken code] false false cut []
  | subscribing : Phase stopped [] [.subscribe] false false false []
  | dispatched : Phase stopped [.subscribeStop] [] false false false []
  | subscribed : Phase stopped [] [.started .success] false true false []
  | protocols : Phase stopped [.attachProtocols] [] false true false []
  | completing : Phase stopped [] [.complete] false true false []
  | cut (code : Code) (h : stopped = true) :
      Phase stopped [] [.complete, .stopped code] false false true []
  | running : Phase stopped [] [] false true false [.started .success]
  | refused {cut : Bool} (code code' : Code) (hcode : code ≠ .success) (h : stopped = true) :
      Phase stopped [] [.started code, .stopped code'] false false cut []
  | ending {cut : Bool} (code code' : Code) (h : stopped = true) :
      Phase stopped [] [.stopped code'] false false cut [.started code]
  | done {cut : Bool} (code code' : Code) (h : stopped = true) :
      Phase stopped [] [] false false cut [.started code, .stopped code']

/-- Whether the socket is stopped goes with the notification that is under way. -/
structure Flagged (c : Channel) : Prop where
  queued : (∃ code, .stopping code ∈ c.jobs) ∨ c.posting ≠ [] ∨ c.subscriberStopped = true →
    c.stopped = true
  stops : c.stopped = true →
    c.subscriberStopped = true ∨ (∃ code, .stopping code ∈ c.jobs) ∨ c.posting ≠ []

/-- A channel that the session has yet to be given. -/
structure Fresh (c : Channel) (n : List NetworkJob) : Prop where
  work : c.work = []
  nets : n = []
  handshaking : c.handshaking = false
  subscribed : c.subscribed = false
  reports : c.reports = []

/-- A channel with what the network has for it is in a phase. -/
def InPhase (c : Channel) (n : List NetworkJob) : Prop :=
  Phase c.stopped c.work n c.handshaking c.subscribed c.subscriberStopped c.reports

structure Local (given : Prop) (c : Channel) (n : List NetworkJob) : Prop where
  flagged : Flagged c
  fresh : ¬given → Fresh c n
  phase : given → InPhase c n

/-- The channel was started and not yet stopped. -/
def Channel.live (c : Channel) : ℕ :=
  if c.reports.any (fun r => r matches .started _) ∧ ¬c.reports.any (fun r => r matches .stopped _)
  then 1 else 0

/-- How many channels were started and not yet stopped. -/
def liveCount (s : Session) : ℕ := ∑ k ∈ Finset.range s.given, (s.channel k).live

structure Inv (s : Session) : Prop where
  channels : ∀ k, Local (k < s.given) (s.channel k) (nets s k)
  count : s.given < maximumSize → s.count = liveCount s

/-! ### Frames -/

section
variable (s : Session) (k j : ℕ)

@[simp] theorem nets_update (c : Channel) : nets (s.update j c) k = nets s k := rfl

@[simp] theorem given_update (c : Channel) : (s.update j c).given = s.given := rfl

@[simp] theorem channel_update (c : Channel) : (s.update k c).channel k = c := by
  unfold Session.update
  exact Function.update_self _ _ _

theorem channel_update_ne (c : Channel) (h : k ≠ j) :
    (s.update j c).channel k = s.channel k := by
  unfold Session.update
  exact Function.update_of_ne h _ _

@[simp] theorem channel_post (job : NetworkJob) : (s.post j job).channel = s.channel := rfl

@[simp] theorem given_post (job : NetworkJob) : (s.post j job).given = s.given := rfl

@[simp] theorem nets_post (job : NetworkJob) : nets (s.post k job) k = nets s k ++ [job] := by
  unfold nets Session.post
  simp

theorem nets_post_ne (job : NetworkJob) (h : k ≠ j) : nets (s.post j job) k = nets s k := by
  unfold nets Session.post
  simp [h.symm]

end

/-! ### What a phase says -/

section
variable {c : Channel} {n : List NetworkJob}

/-- A channel that is as a phase says. -/
theorem InPhase.of {work : List ChannelJob} {handshaking subscribed cut : Bool}
    {reports : List Report} (phase : Phase c.stopped work n handshaking subscribed cut reports)
    (hwork : c.work = work) (hhandshaking : c.handshaking = handshaking)
    (hsubscribed : c.subscribed = subscribed) (hcut : c.subscriberStopped = cut)
    (hreports : c.reports = reports) : InPhase c n := by
  unfold InPhase
  rw [hwork, hhandshaking, hsubscribed, hcut, hreports]
  exact phase

theorem InPhase.elim (h : InPhase c n) :
    ∃ work handshaking subscribed cut reports, c.work = work ∧ c.handshaking = handshaking ∧
      c.subscribed = subscribed ∧ c.subscriberStopped = cut ∧ c.reports = reports ∧
      Phase c.stopped work n handshaking subscribed cut reports :=
  ⟨_, _, _, _, _, rfl, rfl, rfl, rfl, rfl, h⟩

theorem Phase.stop {stopped : Bool} {work : List ChannelJob} {handshaking subscribed cut : Bool}
    {reports : List Report} (h : Phase stopped work n handshaking subscribed cut reports) :
    Phase true work n handshaking subscribed cut reports := by
  cases h with
  | attaching => exact .attaching
  | handshaking => exact .handshaking
  | handshaken code h => exact .handshaken code fun _ => rfl
  | subscribing => exact .subscribing
  | dispatched => exact .dispatched
  | subscribed => exact .subscribed
  | protocols => exact .protocols
  | completing => exact .completing
  | cut code h => exact .cut code rfl
  | running => exact .running
  | refused code code' hcode h => exact .refused code code' hcode rfl
  | ending code code' h => exact .ending code code' rfl
  | done code code' h => exact .done code code' rfl

theorem work_append_stopping (jobs : List ChannelJob) (code : Code) :
    (jobs ++ [ChannelJob.stopping code]).filter (fun job => !job.stops) =
      jobs.filter fun job => !job.stops := by
  rw [List.filter_append]
  exact List.append_nil _

end

/-! ### A step of one channel -/

theorem live_le (c : Channel) : c.live ≤ 1 := by
  unfold Channel.live
  split
  · exact Nat.le_refl _
  · exact Nat.zero_le _

theorem liveCount_le (s : Session) : liveCount s ≤ s.given := by
  unfold liveCount
  calc ∑ k ∈ Finset.range s.given, (s.channel k).live
      ≤ ∑ _k ∈ Finset.range s.given, 1 := Finset.sum_le_sum fun k _ => live_le _
    _ = s.given := by simp

theorem live_le_liveCount {s : Session} {k : ℕ} (h : k < s.given) :
    (s.channel k).live ≤ liveCount s :=
  Finset.single_le_sum (f := fun k => (s.channel k).live) (fun _ _ => Nat.zero_le _)
    (Finset.mem_range.mpr h)

/-- One channel takes a step, of which the others know nothing. -/
theorem Inv.step_one {s s' : Session} (h : Inv s) (k : ℕ) (hgiven : s'.given = s.given)
    (hother : ∀ j, j ≠ k → s'.channel j = s.channel j ∧ nets s' j = nets s j)
    (hlocal : Local (k < s.given) (s'.channel k) (nets s' k))
    (hcount : s.count = liveCount s → s.count < maximumSize →
      s'.count + (s.channel k).live = s.count + (s'.channel k).live) : Inv s' := by
  constructor
  · intro j
    rw [hgiven]
    by_cases hj : j = k
    · subst hj
      exact hlocal
    · rw [(hother j hj).1, (hother j hj).2]
      exact h.channels j
  · intro hbound
    rw [hgiven] at hbound
    have hs := h.count hbound
    have hle := liveCount_le s
    have hdelta := hcount hs (by omega)
    have hsum : liveCount s' + (s.channel k).live = liveCount s + (s'.channel k).live := by
      unfold liveCount
      rw [hgiven]
      by_cases hk : k < s.given
      · have hmem := Finset.mem_range.mpr hk
        rw [← Finset.add_sum_erase _ _ hmem, ← Finset.add_sum_erase _ (fun k => (s.channel k).live) hmem]
        have hrest : ∑ j ∈ (Finset.range s.given).erase k, (s'.channel j).live =
            ∑ j ∈ (Finset.range s.given).erase k, (s.channel j).live :=
          Finset.sum_congr rfl fun j hj => by rw [(hother j (Finset.ne_of_mem_erase hj)).1]
        rw [hrest]
        omega
      · have hsame : (s.channel k).live = 0 ∧ (s'.channel k).live = 0 := by
          unfold Channel.live
          rw [((h.channels k).fresh hk).reports, (hlocal.fresh hk).reports]
          exact ⟨rfl, rfl⟩
        rw [hsame.1, hsame.2]
        have hrest : ∑ j ∈ Finset.range s.given, (s'.channel j).live =
            ∑ j ∈ Finset.range s.given, (s.channel j).live :=
          Finset.sum_congr rfl fun j hj => by
            rw [(hother j (by have := Finset.mem_range.mp hj; omega)).1]
        rw [hrest]
    omega

/-- A step of the socket of a channel, or of its posts, is none of its phase. -/
theorem Inv.step_flag {s : Session} (h : Inv s) (k : ℕ) {c : Channel}
    (hwork : c.work = (s.channel k).work) (hhandshaking : c.handshaking = (s.channel k).handshaking)
    (hsubscribed : c.subscribed = (s.channel k).subscribed)
    (hcut : c.subscriberStopped = (s.channel k).subscriberStopped)
    (hreports : c.reports = (s.channel k).reports)
    (hstopped : (s.channel k).stopped = true → c.stopped = true) (hflagged : Flagged c) :
    Inv (s.update k c) := by
  refine h.step_one k rfl (fun j hj => ⟨channel_update_ne s j k c hj, rfl⟩) ?_ ?_
  · rw [channel_update, nets_update]
    refine ⟨hflagged, ?_, ?_⟩
    · intro hgiven
      obtain ⟨h₁, h₂, h₃, h₄, h₅⟩ := (h.channels k).fresh hgiven
      exact ⟨hwork.trans h₁, h₂, hhandshaking.trans h₃, hsubscribed.trans h₄, hreports.trans h₅⟩
    · intro hgiven
      have hphase := (h.channels k).phase hgiven
      apply InPhase.of (c := c) ?_ hwork hhandshaking hsubscribed hcut hreports
      cases hc : c.stopped with
      | true => exact hphase.stop
      | false =>
        cases hs : (s.channel k).stopped with
        | true =>
          rw [hstopped hs] at hc
          cases hc
        | false =>
          unfold InPhase at hphase
          rw [hs] at hphase
          exact hphase
  · intro _ _
    rw [channel_update]
    unfold Channel.live
    rw [hreports]
    rfl

/-! ### Steps of the strand of the network -/

/-- A channel that reports, and is as it was. -/
def Channel.reporting (c : Channel) (reports : List Report) : Channel := { c with reports := reports }

theorem Flagged.reporting {c : Channel} (h : Flagged c) (reports : List Report) :
    Flagged (c.reporting reports) := ⟨h.queued, h.stops⟩

section
variable {s : Session} {k : ℕ}

theorem handleChannelStart_channel {reports : List Report} (h : (s.channel k).reports = reports)
    (code : Code) : (s.handleChannelStart k code).channel k =
      (s.channel k).reporting (reports ++ [.started code]) := by
  show (s.report k _).channel k = _
  unfold Session.report
  rw [channel_update, h]
  rfl

theorem handleChannelStop_channel {reports : List Report} (h : (s.channel k).reports = reports)
    (code : Code) : (s.handleChannelStop k code).channel k =
      (s.channel k).reporting (reports ++ [.stopped code]) := by
  show (s.report k _).channel k = _
  unfold Session.report
  rw [channel_update, h]
  rfl

theorem handleChannelStart_ne {j : ℕ} (hj : j ≠ k) (code : Code) :
    (s.handleChannelStart k code).channel j = s.channel j := channel_update_ne s j k _ hj

theorem handleChannelStop_ne {j : ℕ} (hj : j ≠ k) (code : Code) :
    (s.handleChannelStop k code).channel j = s.channel j := channel_update_ne s j k _ hj

theorem live_none {c : Channel} (h : c.reports = []) : c.live = 0 := by
  unfold Channel.live
  rw [h]
  rfl

theorem live_started {c : Channel} {code : Code} (h : c.reports = [.started code]) : c.live = 1 := by
  unfold Channel.live
  rw [h]
  rfl

theorem live_stopped {c : Channel} {code code' : Code}
    (h : c.reports = [.started code, .stopped code']) : c.live = 0 := by
  unfold Channel.live
  rw [h]
  rfl

variable {rest : List (ℕ × NetworkJob)} {job : NetworkJob}

theorem nets_head (h : s.network = (k, job) :: rest) :
    nets s k = job :: nets { s with network := rest } k := by
  unfold nets
  rw [h]
  simp

theorem nets_tail (h : s.network = (k, job) :: rest) {j : ℕ} (hj : j ≠ k) :
    nets { s with network := rest } j = nets s j := by
  unfold nets
  rw [h]
  simp [hj.symm]

/-- A channel that the network has a job for was given. -/
theorem Inv.given (h : Inv s) {tail : List NetworkJob} (hnets : nets s k = job :: tail) :
    k < s.given := by
  by_contra hgiven
  have hfresh := (h.channels k).fresh hgiven
  rw [hnets] at hfresh
  cases hfresh.nets

theorem runNetwork_inv (h : Inv s) (hnetwork : s.network = (k, job) :: rest) :
    Inv ({ s with network := rest }.runNetworkJob k job) := by
  set s₁ : Session := { s with network := rest } with hs₁
  have hnets := nets_head hnetwork
  have hgiven := h.given hnets
  have hflagged := (h.channels k).flagged
  have hphase := (h.channels k).phase hgiven
  rw [hnets] at hphase
  obtain ⟨work, handshaking, subscribed, cut, reports, hwork, hhandshaking, hsubscribed, hcut,
    hreports, phase⟩ := hphase.elim
  have hone (s' : Session) (hsame : s'.given = s.given)
      (hchannel : ∀ j, j ≠ k → s'.channel j = s₁.channel j)
      (hnet : ∀ j, j ≠ k → nets s' j = nets s₁ j) (hflag : Flagged (s'.channel k))
      (hin : InPhase (s'.channel k) (nets s' k))
      (hcount : s.count = liveCount s → s.count < maximumSize →
        s'.count + (s.channel k).live = s.count + (s'.channel k).live) : Inv s' :=
    h.step_one k hsame
      (fun j hj => ⟨hchannel j hj, (hnet j hj).trans (nets_tail hnetwork hj)⟩)
      ⟨hflag, fun hno => absurd hgiven hno, fun _ => hin⟩ hcount
  generalize htail : nets s₁ k = tail at phase
  -- the starter, the stopper and a post to the strand of the channel
  have hstarter (code : Code) (hr : (s.channel k).reports = [])
      (hp : Phase (s.channel k).stopped work tail handshaking subscribed cut [.started code]) :
      Inv (s₁.handleChannelStart k code) := by
    have hstart := handleChannelStart_channel (s := s₁) hr code
    refine hone _ rfl (fun j hj => handleChannelStart_ne hj _) (fun j hj => rfl) ?_ ?_ ?_
    · rw [hstart]
      exact hflagged.reporting _
    · rw [hstart]
      exact InPhase.of (htail ▸ hp) hwork hhandshaking hsubscribed hcut rfl
    · intro _ hbound
      have hlive : ((s₁.handleChannelStart k code).channel k).live = 1 := by
        rw [hstart]
        exact @live_started _ code rfl
      rw [live_none hr, hlive]
      show min (s.count + 1) maximumSize + 0 = s.count + 1
      omega
  have hstopper (code code' : Code) (hr : (s.channel k).reports = [.started code])
      (hp : Phase (s.channel k).stopped work tail handshaking subscribed cut
        [.started code, .stopped code']) : Inv (s₁.handleChannelStop k code') := by
    have hstop := handleChannelStop_channel (s := s₁) hr code'
    refine hone _ rfl (fun j hj => handleChannelStop_ne hj _) (fun j hj => rfl) ?_ ?_ ?_
    · rw [hstop]
      exact hflagged.reporting _
    · rw [hstop]
      exact InPhase.of (htail ▸ hp) hwork hhandshaking hsubscribed hcut rfl
    · intro hcount _
      have hpos : (s.channel k).live ≤ s.count := by
        rw [hcount]
        exact live_le_liveCount hgiven
      have hlive : ((s₁.handleChannelStop k code').channel k).live = 0 := by
        rw [hstop]
        exact @live_stopped _ code code' rfl
      rw [live_started hr] at hpos ⊢
      rw [hlive]
      show s.count - 1 + 1 = s.count + 0
      omega
  have hjob (job : ChannelJob) (hstops : job.stops = false)
      (hp : Phase (s.channel k).stopped (work ++ [job]) tail handshaking subscribed cut reports) :
      Inv (s₁.postChannel k job) := by
    have hchannel : (s₁.postChannel k job).channel k =
        { s.channel k with jobs := (s.channel k).jobs ++ [job] } := channel_update _ _ _
    have hwork' : Channel.work { s.channel k with jobs := (s.channel k).jobs ++ [job] } =
        work ++ [job] := by
      rw [← hwork]
      unfold Channel.work
      rw [List.filter_append, List.filter_cons_of_pos (by rw [hstops]; rfl), List.filter_nil]
    have hmem (code : Code) : (.stopping code ∈ (s.channel k).jobs ++ [job]) ↔
        .stopping code ∈ (s.channel k).jobs := by
      rw [List.mem_append, List.mem_singleton]
      constructor
      · rintro (hmem | rfl)
        · exact hmem
        · cases hstops
      · exact .inl
    refine hone _ rfl (fun j hj => channel_update_ne _ _ _ _ hj) (fun j hj => rfl) ?_ ?_ ?_
    · rw [hchannel]
      refine ⟨fun hq => hflagged.queued ?_, fun hstop => ?_⟩
      · simpa only [hmem] using hq
      · simpa only [hmem] using hflagged.stops hstop
    · rw [hchannel]
      exact InPhase.of (htail ▸ hp) hwork' hhandshaking hsubscribed hcut hreports
    · intro _ _
      rw [hchannel]
      rfl
  cases phase with
  | handshaken code hcode =>
    unfold Session.runNetworkJob
    dsimp only
    split
    · rename_i hfailed
      have hstart := handleChannelStart_channel (s := s₁) hreports code
      have hstop := handleChannelStop_channel (s := s₁.handleChannelStart k code) (k := k)
        (congrArg Channel.reports hstart) code
      rw [hstart] at hstop
      refine hone _ rfl ?_ (fun j hj => rfl) ?_ ?_ ?_
      · exact fun j hj => (handleChannelStop_ne hj code).trans (handleChannelStart_ne hj code)
      · rw [hstop]
        exact hflagged.reporting _
      · rw [hstop]
        exact InPhase.of (htail ▸ .done code code (hcode hfailed)) hwork hhandshaking hsubscribed hcut
          rfl
      · intro _ hbound
        have hlive : (((s₁.handleChannelStart k code).handleChannelStop k code).channel k).live = 0 := by
          rw [hstop]
          exact @live_stopped _ code code rfl
        rw [live_none hreports, hlive]
        show min (s.count + 1) maximumSize - 1 + 0 = s.count + 0
        omega
    · unfold Session.subscribeStop
      split
      · rename_i hstopped
        refine hone _ rfl (fun j hj => rfl) ?_ hflagged ?_ fun _ _ => rfl
        · exact fun j hj => by rw [nets_post_ne _ _ _ _ hj, nets_post_ne _ _ _ _ hj]
        · rw [nets_post, nets_post, htail]
          exact InPhase.of (.refused _ _ nofun hstopped) hwork hhandshaking hsubscribed hcut hreports
      · rename_i hrunning
        obtain rfl : cut = false := by
          cases cut with
          | false => rfl
          | true => exact absurd (hflagged.queued (.inr (.inr hcut))) hrunning
        refine hone _ rfl (fun j hj => rfl) ?_ hflagged ?_ fun _ _ => rfl
        · exact fun j hj => (nets_tail (s := { s₁ with network := (k, .subscribe) :: s₁.network })
            rfl hj).symm
        · rw [nets_head (s := { s₁ with network := (k, .subscribe) :: s₁.network }) rfl]
          show InPhase _ (_ :: nets s₁ k)
          rw [htail]
          exact InPhase.of .subscribing hwork hhandshaking hsubscribed hcut hreports
  | subscribing => exact hjob .subscribeStop rfl .dispatched
  | subscribed => exact hjob .attachProtocols rfl .protocols
  | completing => exact hstarter .success hreports .running
  | cut code hstopped => exact hstarter .success hreports (.ending .success code hstopped)
  | refused code code' hcode hstopped =>
    show Inv (if code ≠ Code.success then _ else _)
    rw [if_pos hcode]
    exact hstarter code hreports (.ending code code' hstopped)
  | ending code code' hstopped =>
    exact hstopper code code' hreports (.done code code' hstopped)

end

/-! ### Steps of the strand of a channel -/

/-- The session is between the subscription of a channel and its protocols. -/
def Subscribing (s : Session) (k : ℕ) : Prop :=
  .subscribe ∈ nets s k ∨ .started .success ∈ nets s k ∨
    .subscribeStop ∈ (s.channel k).jobs ∨ .attachProtocols ∈ (s.channel k).jobs

instance (s : Session) (k : ℕ) : Decidable (Subscribing s k) :=
  inferInstanceAs (Decidable (_ ∨ _ ∨ _ ∨ _))

/-- The step does not notify the stop of a channel while the session subscribes to
it and has yet to attach its protocols. -/
def Timely (s : Session) : Session.Event → Prop
  | .runChannel k => (s.channel k).jobs.head?.any ChannelJob.stops = true →
      (s.channel k).subscriberStopped = false → ¬Subscribing s k
  | _ => True

instance (s : Session) : (e : Session.Event) → Decidable (Timely s e)
  | .runChannel _ => inferInstanceAs (Decidable (_ → _ → ¬_))
  | .start | .close | .enter _ | .finish _ _ | .post _ | .handshake _ _ | .runNetwork =>
    isTrue trivial

section
variable {s : Session} {k : ℕ} {jobs : List ChannelJob} {job : ChannelJob}

theorem work_cons (h : (s.channel k).jobs = job :: jobs) :
    (s.channel k).work =
      if job.stops then jobs.filter fun job => !job.stops
      else job :: jobs.filter fun job => !job.stops := by
  unfold Channel.work
  rw [h, List.filter_cons]
  cases job.stops with
  | true => rfl
  | false => rfl

/-- A stop that was notified, or is notified for the first time. -/
theorem runStopping_inv (h : Inv s) {code : Code} (hjobs : (s.channel k).jobs = .stopping code :: jobs)
    (htimely : (s.channel k).subscriberStopped = false → ¬Subscribing s k) :
    Inv ((s.update k { s.channel k with jobs := jobs }).runChannelJob k (.stopping code)) := by
  have hflagged := (h.channels k).flagged
  have hwork : (jobs.filter fun job => !job.stops) = (s.channel k).work := (work_cons hjobs).symm
  have hstopped : (s.channel k).stopped = true :=
    hflagged.queued (.inl ⟨code, by rw [hjobs]; exact List.mem_cons_self⟩)
  have hne (c c' : Channel) (j : ℕ) (hj : j ≠ k) :
      ((s.update k c).update k c').channel j = s.channel j :=
    (channel_update_ne _ j k _ hj).trans (channel_update_ne _ j k _ hj)
  unfold Session.runChannelJob
  dsimp only
  rw [channel_update]
  dsimp only
  split
  · rename_i hcut
    exact h.step_flag k hwork rfl rfl rfl rfl id ⟨fun _ => hstopped, fun _ => .inl hcut⟩
  · rename_i hcut
    have hcut' : (s.channel k).subscriberStopped = false := by simpa using hcut
    have hno := htimely hcut'
    have hflag : Flagged { s.channel k with
        jobs := jobs, subscribed := false, subscriberStopped := true } :=
      ⟨fun _ => hstopped, fun _ => .inl rfl⟩
    by_cases hgiven : k < s.given
    · obtain ⟨work, handshaking, subscribed, cut, reports, hw, hhandshaking, hsubscribed, hc,
        hreports, phase⟩ := ((h.channels k).phase hgiven).elim
      rw [hcut'] at hc
      subst hc
      -- what the notification posts, and what it leaves
      have hpost (code' : Code) (hsub : (s.channel k).subscribed = true)
          (hp : Phase (s.channel k).stopped work (nets s k ++ [.stopped code']) handshaking false true
            reports) :
          Inv ((if (s.channel k).subscribed = true then
              ((s.update k { s.channel k with jobs := jobs }).update k { s.channel k with
                jobs := jobs, subscribed := false, subscriberStopped := true }).post k
                  (.stopped code')
            else (s.update k { s.channel k with jobs := jobs }).update k { s.channel k with
                jobs := jobs, subscribed := false, subscriberStopped := true })) := by
        rw [if_pos hsub]
        refine h.step_one k rfl (fun j hj => ⟨hne _ _ j hj, nets_post_ne _ _ _ _ hj⟩) ?_ ?_
        · rw [channel_post, channel_update, nets_post]
          exact ⟨hflag, fun hno => absurd hgiven hno, fun _ =>
            InPhase.of hp (hwork.trans hw) hhandshaking rfl rfl hreports⟩
        · intro _ _
          rw [channel_post, channel_update]
          rfl
      have hquiet (code' : Code) (hsub : (s.channel k).subscribed = false)
          (hp : Phase (s.channel k).stopped work (nets s k) handshaking false true reports) :
          Inv ((if (s.channel k).subscribed = true then
              ((s.update k { s.channel k with jobs := jobs }).update k { s.channel k with
                jobs := jobs, subscribed := false, subscriberStopped := true }).post k
                  (.stopped code')
            else (s.update k { s.channel k with jobs := jobs }).update k { s.channel k with
                jobs := jobs, subscribed := false, subscriberStopped := true })) := by
        rw [if_neg (by rw [hsub]; exact Bool.false_ne_true)]
        refine h.step_one k rfl (fun j hj => ⟨hne _ _ j hj, rfl⟩) ?_ ?_
        · rw [channel_update]
          exact ⟨hflag, fun hno => absurd hgiven hno, fun _ =>
            InPhase.of hp (hwork.trans hw) hhandshaking rfl rfl hreports⟩
        · intro _ _
          rw [channel_update]
          rfl
      generalize hn : nets s k = n at phase
      rw [hn] at hpost hquiet
      have hnot (job : NetworkJob) (hjob : job = .subscribe ∨ job = .started .success)
          (hmem : job ∈ n) : False := by
        rw [← hn] at hmem
        rcases hjob with rfl | rfl
        · exact hno (.inl hmem)
        · exact hno (.inr (.inl hmem))
      have hnotWork (job : ChannelJob) (hjob : job = .subscribeStop ∨ job = .attachProtocols)
          (hmem : job ∈ work) : False := by
        rw [← hw] at hmem
        have hmem' := List.mem_of_mem_filter hmem
        rcases hjob with rfl | rfl
        · exact hno (.inr (.inr (.inl hmem')))
        · exact hno (.inr (.inr (.inr hmem')))
      cases phase with
      | attaching => exact hquiet code hsubscribed .attaching
      | handshaking => exact hquiet code hsubscribed .handshaking
      | handshaken code' hcode => exact hquiet code hsubscribed (.handshaken code' hcode)
      | subscribing => exact (hnot _ (.inl rfl) List.mem_cons_self).elim
      | dispatched => exact (hnotWork _ (.inl rfl) List.mem_cons_self).elim
      | subscribed => exact (hnot _ (.inr rfl) List.mem_cons_self).elim
      | protocols => exact (hnotWork _ (.inr rfl) List.mem_cons_self).elim
      | completing => exact hpost code hsubscribed (.cut code hstopped)
      | running => exact hpost code hsubscribed (.ending .success code hstopped)
      | refused code₁ code₂ hcode hs => exact hquiet code hsubscribed (.refused code₁ code₂ hcode hs)
      | ending code₁ code₂ hs => exact hquiet code hsubscribed (.ending code₁ code₂ hs)
      | done code₁ code₂ hs => exact hquiet code hsubscribed (.done code₁ code₂ hs)
    · have hfresh := (h.channels k).fresh hgiven
      rw [if_neg (by rw [hfresh.subscribed]; exact Bool.false_ne_true)]
      refine h.step_one k rfl (fun j hj => ⟨hne _ _ j hj, rfl⟩) ?_ ?_
      · rw [channel_update]
        exact ⟨hflag, fun _ => ⟨hwork.trans hfresh.work, hfresh.nets, hfresh.handshaking, rfl,
          hfresh.reports⟩, fun hyes => absurd hyes hgiven⟩
      · intro _ _
        rw [channel_update]
        rfl

/-- The jobs that take a channel from one phase to the next. -/
theorem runWork_inv (h : Inv s) (hjobs : (s.channel k).jobs = job :: jobs)
    (hstops : job.stops = false) :
    Inv ((s.update k { s.channel k with jobs := jobs }).runChannelJob k job) := by
  have hwork : job :: (jobs.filter fun job => !job.stops) = (s.channel k).work := by
    rw [work_cons hjobs, if_neg (by rw [hstops]; exact Bool.false_ne_true)]
  have hgiven : k < s.given := by
    by_contra hno
    have hnil := ((h.channels k).fresh hno).work
    rw [← hwork] at hnil
    cases hnil
  have hflagged := (h.channels k).flagged
  have hmem (code : Code) : .stopping code ∈ (s.channel k).jobs ↔ .stopping code ∈ jobs := by
    rw [hjobs, List.mem_cons]
    apply or_iff_right
    rintro rfl
    cases hstops
  have hflag (c : Channel) (hc : c.jobs = jobs) (hposting : c.posting = (s.channel k).posting)
      (hcut : c.subscriberStopped = (s.channel k).subscriberStopped)
      (hstopped : c.stopped = (s.channel k).stopped) : Flagged c := by
    obtain ⟨hqueued, hstops⟩ := hflagged
    simp only [hmem] at hqueued hstops
    constructor
    · rw [hc, hposting, hcut, hstopped]
      exact hqueued
    · rw [hc, hposting, hcut, hstopped]
      exact hstops
  have hne (c c' : Channel) (j : ℕ) (hj : j ≠ k) :
      ((s.update k c).update k c').channel j = s.channel j :=
    (channel_update_ne _ j k _ hj).trans (channel_update_ne _ j k _ hj)
  obtain ⟨work, handshaking, subscribed, cut, reports, hw, hhandshaking, hsubscribed, hcut,
    hreports, phase⟩ := ((h.channels k).phase hgiven).elim
  rw [← hwork] at hw
  generalize hn : nets s k = n at phase
  cases phase with
  | attaching =>
    injection hw with hjob hrest
    subst hjob
    refine h.step_one k rfl (fun j hj => ⟨hne _ _ j hj, rfl⟩) ?_ fun _ _ => ?_
    · show Local _ ((Session.update _ k _).channel k) (nets s k)
      rw [channel_update, channel_update, hn]
      exact ⟨hflag _ rfl rfl rfl rfl, fun hno => absurd hgiven hno, fun _ =>
        InPhase.of .handshaking hrest rfl hsubscribed hcut hreports⟩
    · show s.count + _ = s.count + ((Session.update _ k _).channel k).live
      rw [channel_update, channel_update]
      rfl
  | dispatched =>
    injection hw with hjob hrest
    subst hjob
    unfold Session.runChannelJob
    dsimp only
    rw [channel_update]
    dsimp only
    rw [if_neg (by rw [hcut]; exact Bool.false_ne_true)]
    refine h.step_one k rfl (fun j hj => ⟨hne _ _ j hj, nets_post_ne _ _ _ _ hj⟩) ?_ fun _ _ => ?_
    · rw [channel_post, channel_update, nets_post]
      show Local _ _ (nets s k ++ _)
      rw [hn]
      exact ⟨hflag _ rfl rfl rfl rfl, fun hno => absurd hgiven hno, fun _ =>
        InPhase.of .subscribed hrest hhandshaking rfl hcut hreports⟩
    · rw [channel_post, channel_update]
      rfl
  | protocols =>
    injection hw with hjob hrest
    subst hjob
    refine h.step_one k rfl (fun j hj => ⟨channel_update_ne _ j k _ hj, nets_post_ne _ _ _ _ hj⟩) ?_
      fun _ _ => ?_
    · show Local _ ((Session.update s k _).channel k) (nets (Session.post _ k _) k)
      rw [channel_update, nets_post]
      show Local _ _ (nets s k ++ _)
      rw [hn]
      exact ⟨hflag _ rfl rfl rfl rfl, fun hno => absurd hgiven hno, fun _ =>
        InPhase.of .completing hrest hhandshaking hsubscribed hcut hreports⟩
    · show s.count + _ = s.count + ((Session.update s k _).channel k).live
      rw [channel_update]
      rfl
  | handshaking => cases hw
  | handshaken code hcode => cases hw
  | subscribing => cases hw
  | subscribed => cases hw
  | completing => cases hw
  | cut code hs => cases hw
  | running => cases hw
  | refused code code' hcode hs => cases hw
  | ending code code' hs => cases hw
  | done code code' hs => cases hw

/-! ### Other steps -/

/-- What a call of `stop` leaves as it is. -/
theorem stop_same (c : Channel) (code : Code) :
    (c.stop code).stopped = true ∧ (c.stop code).work = c.work ∧
      (c.stop code).handshaking = c.handshaking ∧ (c.stop code).subscribed = c.subscribed ∧
      (c.stop code).subscriberStopped = c.subscriberStopped ∧ (c.stop code).reports = c.reports := by
  unfold Channel.stop
  split
  · rename_i hstopped
    exact ⟨hstopped, rfl, rfl, rfl, rfl, rfl⟩
  · exact ⟨rfl, work_append_stopping _ _, rfl, rfl, rfl, rfl⟩

theorem Flagged.stop {c : Channel} (h : Flagged c) (code : Code) : Flagged (c.stop code) := by
  unfold Channel.stop
  split
  · exact h
  · exact ⟨fun _ => rfl, fun _ =>
      .inr (.inl ⟨code, List.mem_append_right _ (List.mem_singleton_self _)⟩)⟩

theorem handleHandshake_inv (h : Inv s) (hhandshaking : (s.channel k).handshaking = true)
    (code : Code) : Inv (s.handleHandshake k code) := by
  have hgiven : k < s.given := by
    by_contra hno
    have hfalse := ((h.channels k).fresh hno).handshaking
    rw [hhandshaking] at hfalse
    cases hfalse
  have hflagged := (h.channels k).flagged
  obtain ⟨work, handshaking, subscribed, cut, reports, hw, hh, hsubscribed, hcut, hreports,
    phase⟩ := ((h.channels k).phase hgiven).elim
  rw [hhandshaking] at hh
  subst hh
  generalize hn : nets s k = n at phase
  have hstep (c : Channel) (hflag : Flagged c) (hwork : c.work = work)
      (hdone : c.handshaking = false) (hsub : c.subscribed = subscribed)
      (hc : c.subscriberStopped = cut) (hr : c.reports = reports)
      (hfailed : code ≠ .success → c.stopped = true) :
      Inv ((s.update k c).post k (.handshaken code)) := by
    refine h.step_one k rfl (fun j hj => ⟨channel_update_ne s j k _ hj, nets_post_ne _ _ _ _ hj⟩) ?_
      fun _ _ => ?_
    · rw [channel_post, channel_update, nets_post]
      show Local _ _ (nets s k ++ _)
      rw [hn]
      refine ⟨hflag, fun hno => absurd hgiven hno, fun _ => ?_⟩
      cases phase with
      | handshaking => exact InPhase.of (.handshaken code hfailed) hwork hdone hsub hc hr
    · rw [channel_post, channel_update]
      unfold Channel.live
      rw [hr, hreports]
      rfl
  have hc : Flagged { s.channel k with handshaking := false } := ⟨hflagged.queued, hflagged.stops⟩
  unfold Session.handleHandshake
  dsimp only
  split
  · obtain ⟨h₁, h₂, h₃, h₄, h₅, h₆⟩ := stop_same { s.channel k with handshaking := false } code
    exact hstep _ (hc.stop code) (h₂.trans hw) h₃ (h₄.trans hsubscribed) (h₅.trans hcut)
      (h₆.trans hreports) fun _ => h₁
  · rename_i hsuccess
    exact hstep _ hc hw rfl hsubscribed hcut hreports fun hfailed => absurd hfailed hsuccess

/-- The next channel is given. -/
theorem Inv.step_given {s s' : Session} (h : Inv s) (hgiven : s'.given = s.given + 1)
    (hother : ∀ j, j ≠ s.given → s'.channel j = s.channel j)
    (hnets : ∀ j, nets s' j = nets s j) (hflagged : Flagged (s'.channel s.given))
    (hphase : InPhase (s'.channel s.given) (nets s s.given))
    (hlive : (s'.channel s.given).live = 0)
    (hcount : s.count < maximumSize → s'.count = s.count) : Inv s' := by
  constructor
  · intro j
    rw [hgiven, hnets]
    by_cases hj : j = s.given
    · subst hj
      exact ⟨hflagged, fun hno => absurd (Nat.lt_succ_self _) hno, fun _ => hphase⟩
    · rw [hother j hj]
      have hiff : j < s.given + 1 ↔ j < s.given := by omega
      rw [hiff]
      exact h.channels j
  · intro hbound
    have hs := h.count (by omega)
    have hle := liveCount_le s
    rw [hcount (by omega), hs]
    unfold liveCount
    rw [hgiven, Finset.sum_range_succ, hlive, Nat.add_zero]
    exact Finset.sum_congr rfl fun j hj => by
      rw [hother j (by have := Finset.mem_range.mp hj; omega)]

theorem startChannel_inv (h : Inv s) : Inv s.startChannel := by
  have hflagged := (h.channels s.given).flagged
  obtain ⟨hwork, hnets, hhandshaking, hsubscribed, hreports⟩ :=
    (h.channels s.given).fresh (Nat.lt_irrefl _)
  unfold Session.startChannel
  dsimp only
  split
  · set c := (s.channel s.given).stop .serviceStopped with hc
    obtain ⟨h₁, h₂, h₃, h₄, h₅, h₆⟩ := stop_same (s.channel s.given) .serviceStopped
    set s₁ : Session := { s with given := s.given + 1 }.update s.given c with hs₁
    have hchannel : s₁.channel s.given = c := channel_update _ _ _
    have hnone : (s₁.channel s.given).reports = [] := by
      rw [hchannel]
      exact h₆.trans hreports
    have hstart := handleChannelStart_channel hnone .serviceStopped
    have hstop := handleChannelStop_channel (s := s₁.handleChannelStart s.given .serviceStopped)
      (k := s.given) (congrArg Channel.reports hstart) .serviceStopped
    rw [hstart, hchannel] at hstop
    refine h.step_given rfl ?_ (fun j => rfl) ?_ ?_ ?_ ?_
    · intro j hj
      rw [handleChannelStop_ne hj, handleChannelStart_ne hj]
      exact channel_update_ne _ j _ _ hj
    · rw [hstop]
      exact (hflagged.stop _).reporting _
    · rw [hstop, hnets]
      exact InPhase.of (.done .serviceStopped .serviceStopped h₁) (h₂.trans hwork)
        (h₃.trans hhandshaking) (h₄.trans hsubscribed) rfl rfl
    · rw [hstop]
      exact @live_stopped _ .serviceStopped .serviceStopped rfl
    · intro hbound
      show min (s.count + 1) maximumSize - 1 = s.count
      omega
  · have hchannel : ({ s with given := s.given + 1 }.postChannel s.given .attachHandshake).channel
        s.given = { s.channel s.given with
          jobs := (s.channel s.given).jobs ++ [.attachHandshake] } := channel_update _ _ _
    refine h.step_given rfl (fun j hj => channel_update_ne _ j _ _ hj) (fun j => rfl) ?_ ?_ ?_
      fun _ => rfl
    · rw [hchannel]
      refine ⟨fun hq => hflagged.queued ?_, fun hs => ?_⟩
      · simpa using hq
      · simpa using hflagged.stops hs
    · rw [hchannel, hnets]
      refine InPhase.of .attaching ?_ hhandshaking hsubscribed rfl hreports
      show List.filter _ (_ ++ _) = _
      rw [List.filter_append]
      show (s.channel s.given).work ++ _ = _
      rw [hwork]
      rfl
    · rw [hchannel]
      exact live_none hreports

/-- Each step that is timely keeps the channels in their phases. -/
theorem step_inv (h : Inv s) (e : Session.Event) (htimely : Timely s e) : Inv (s.step e) := by
  cases e with
  | start => exact startChannel_inv h
  | close => exact ⟨h.channels, h.count⟩
  | enter k =>
    show Inv (if _ then _ else _)
    split
    · exact h
    · have hflagged := (h.channels k).flagged
      exact h.step_flag k rfl rfl rfl rfl rfl id ⟨hflagged.queued, hflagged.stops⟩
  | finish k code =>
    show Inv (if _ then _ else _)
    split
    · exact h
    · exact h.step_flag k rfl rfl rfl rfl rfl (fun _ => rfl) ⟨fun _ => rfl, fun _ =>
        .inr (.inr (List.append_ne_nil_of_right_ne_nil _ (List.cons_ne_nil _ _)))⟩
  | post k =>
    rw [Session.step]
    split
    · exact h
    · rename_i code posting hposting
      have hflagged := (h.channels k).flagged
      have hstopped := hflagged.queued (.inr (.inl (by rw [hposting]; exact List.cons_ne_nil _ _)))
      exact h.step_flag k (work_append_stopping _ _) rfl rfl rfl rfl id ⟨fun _ => hstopped, fun _ =>
        .inr (.inl ⟨code, List.mem_append_right _ (List.mem_singleton_self _)⟩)⟩
  | handshake k code =>
    show Inv (if _ then _ else _)
    split
    · exact handleHandshake_inv h ‹_› code
    · exact h
  | runNetwork =>
    rw [Session.step]
    split
    · exact h
    · exact runNetwork_inv h ‹_›
  | runChannel k =>
    rw [Session.step]
    split
    · exact h
    · rename_i job jobs hjobs
      cases hstops : job.stops with
      | false => exact runWork_inv h hjobs hstops
      | true =>
        cases job with
        | stopping code => exact runStopping_inv h hjobs (htimely (by rw [hjobs]; rfl))
        | attachHandshake => cases hstops
        | subscribeStop => cases hstops
        | attachProtocols => cases hstops

end

/-! ### Runs -/

/-- Nothing is under way for a channel. -/
def Quiet (s : Session) (k : ℕ) : Prop :=
  nets s k = [] ∧ (s.channel k).jobs = [] ∧ (s.channel k).handshaking = false ∧
    (s.channel k).posting = []

/-- Start and stop are reported once and in order: the starter is invoked at most
once, and the stopper at most once behind it; where nothing is under way the
starter was, and the stopper was if the channel is stopped; and the count is that
of the channels that were started and not yet stopped, so that it is zero when
each was stopped. -/
structure Reported (s : Session) : Prop where
  order : ∀ k, (s.channel k).reports = [] ∨
    ∃ code, (s.channel k).reports = [.started code] ∨
      ∃ code', (s.channel k).reports = [.started code, .stopped code']
  complete : ∀ k < s.given, Quiet s k →
    ((s.channel k).stopped = false → (s.channel k).reports = [.started .success]) ∧
      ((s.channel k).stopped = true →
        ∃ code code', (s.channel k).reports = [.started code, .stopped code'])
  count : s.given < maximumSize → s.count = liveCount s
  zero : s.given < maximumSize →
    (∀ k < s.given, ∃ code, .stopped code ∈ (s.channel k).reports) → s.count = 0

theorem Phase.order {stopped : Bool} {work : List ChannelJob} {n : List NetworkJob}
    {handshaking subscribed cut : Bool} {reports : List Report}
    (h : Phase stopped work n handshaking subscribed cut reports) :
    reports = [] ∨ ∃ code, reports = [.started code] ∨
      ∃ code', reports = [.started code, .stopped code'] := by
  cases h with
  | running => exact .inr ⟨_, .inl rfl⟩
  | ending code code' h => exact .inr ⟨_, .inl rfl⟩
  | done code code' h => exact .inr ⟨_, .inr ⟨_, rfl⟩⟩
  | attaching | handshaking | handshaken | subscribing | dispatched | subscribed | protocols
  | completing | cut | refused => exact .inl rfl

theorem Inv.reported {s : Session} (h : Inv s) : Reported s where
  order k := by
    by_cases hgiven : k < s.given
    · exact ((h.channels k).phase hgiven).order
    · exact .inl ((h.channels k).fresh hgiven).reports
  complete k hgiven hquiet := by
    obtain ⟨hnets, hjobs, hhandshaking, hposting⟩ := hquiet
    have hflagged := (h.channels k).flagged
    have hwork : (s.channel k).work = [] := by
      unfold Channel.work
      rw [hjobs]
      rfl
    have hcut : (s.channel k).stopped = true → (s.channel k).subscriberStopped = true := by
      intro hstopped
      rcases hflagged.stops hstopped with hcut | ⟨code, hmem⟩ | hne
      · exact hcut
      · rw [hjobs] at hmem
        cases hmem
      · exact absurd hposting hne
    have hphase := (h.channels k).phase hgiven
    unfold InPhase at hphase
    rw [hnets, hwork, hhandshaking] at hphase
    generalize (s.channel k).subscribed = subscribed at hphase
    generalize (s.channel k).subscriberStopped = cut at hphase hcut
    generalize (s.channel k).reports = reports at hphase
    cases hphase with
    | running => exact ⟨fun _ => rfl, fun hstopped => nomatch hcut hstopped⟩
    | done code code' hstopped =>
      rw [hstopped]
      exact ⟨nofun, fun _ => ⟨code, code', rfl⟩⟩
  count := h.count
  zero hbound hstopped := by
    rw [h.count hbound]
    apply Finset.sum_eq_zero
    intro k hk
    obtain ⟨code, hcode⟩ := hstopped k (Finset.mem_range.mp hk)
    unfold Channel.live
    rw [if_neg]
    rintro ⟨-, hnone⟩
    exact hnone (List.any_eq_true.mpr ⟨_, hcode, rfl⟩)

theorem create_flagged : Flagged {} := by
  constructor
  · rintro (⟨code, hmem⟩ | hne | hcut)
    · cases hmem
    · exact absurd rfl hne
    · cases hcut
  · intro hstopped
    cases hstopped

theorem create_inv : Inv {} where
  channels _ := ⟨create_flagged, fun _ => ⟨rfl, rfl, rfl, rfl, rfl⟩, fun h => absurd h (Nat.not_lt_zero _)⟩
  count _ := rfl

/-- Each step of a run is timely. -/
def TimelyRun : Session → List Session.Event → Prop
  | _, [] => True
  | s, e :: events => Timely s e ∧ TimelyRun (s.step e) events

instance : (s : Session) → (events : List Session.Event) → Decidable (TimelyRun s events)
  | _, [] => isTrue trivial
  | s, e :: events =>
    have := instDecidableTimelyRun (s.step e) events
    inferInstanceAs (Decidable (_ ∧ _))

/-- In a run of which no step notifies the stop of a channel while the session
subscribes to it and has yet to attach its protocols, start and stop are reported
once and in order in every state. -/
theorem timely_reported (events : List Session.Event) (h : TimelyRun {} events) :
    Reported (after Session.step {} events) := by
  have hrun : ∀ (events : List Session.Event) (s : Session), Inv s → TimelyRun s events →
      Inv (after Session.step s events) := by
    intro events
    induction events with
    | nil => exact fun s hinv _ => hinv
    | cons e events ih => exact fun s hinv htimely => ih _ (step_inv hinv e htimely.1) htimely.2
  exact (hrun events {} create_inv h).reported

/-- A channel is started, and then stopped. -/
def timelyEvents : List Session.Event :=
  [.start, .runChannel 0, .handshake 0 .success, .runNetwork, .runNetwork, .runChannel 0, .runNetwork,
    .runChannel 0, .enter 0, .finish 0 .channelStopped, .post 0, .runNetwork, .runChannel 0,
    .runNetwork]

theorem timelyEvents_reported : Reported (after Session.step {} timelyEvents) :=
  timely_reported timelyEvents (by decide)

/-- A channel is stopped between its subscription and its protocols. -/
def earlyStop : List Session.Event :=
  [.start, .runChannel 0, .handshake 0 .success, .runNetwork, .runNetwork, .runChannel 0,
    .enter 0, .finish 0 .channelStopped, .post 0, .runNetwork, .runChannel 0, .runChannel 0,
    .runNetwork, .runNetwork]

/-- Its stopper is invoked first, and the count of a server stays at one, with no
channel that is not stopped and nothing under way. -/
theorem not_reported : (¬∀ events, Reported (after Session.step {} events)) ∧
    (after Session.step {} earlyStop).count = 1 ∧ (after Session.step {} earlyStop).given = 1 ∧
    ((after Session.step {} earlyStop).channel 0).reports =
      [.stopped .channelStopped, .started .success] ∧ Quiet (after Session.step {} earlyStop) 0 := by
  have hreports : ((after Session.step {} earlyStop).channel 0).reports =
      [.stopped .channelStopped, .started .success] := by decide
  refine ⟨?_, by decide, by decide, hreports, by decide, by decide, by decide, by decide⟩
  intro h
  have horder := (h earlyStop).order 0
  rw [hreports] at horder
  rcases horder with hnil | ⟨code, hone | ⟨code', htwo⟩⟩
  · cases hnil
  · cases hone
  · cases htwo

end BitcoinNetwork.Sessions
