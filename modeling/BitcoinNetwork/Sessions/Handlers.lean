import BitcoinNetwork.Async.Totals
import BitcoinNetwork.Sessions.SessionRuns

/-!
# The starter and the stopper of a channel (sessions/session.cpp)

Whatever the order of the strands and of the stops, the starter of a channel is carried by
one job, or by its handshake, until it is invoked, and the stopper by one job, by the
handshake or by the stop subscription.
-/

namespace BitcoinNetwork.Sessions
open Net Async

/-! ### What carries a handler -/

/-- The job has the starter to invoke, or to hand on. -/
def NetworkJob.starters : NetworkJob → ℕ
  | .stopped _ => 0
  | .handshaken _ | .subscribe | .started _ | .complete => 1

/-- The job has the stopper to invoke, or to hand on. -/
def NetworkJob.stoppers : NetworkJob → ℕ
  | .started _ | .complete => 0
  | .handshaken _ | .subscribe | .stopped _ => 1

/-- The job is of a channel that is stopped. -/
def NetworkJob.closing : NetworkJob → Bool
  | .handshaken code => code ≠ .success
  | .stopped _ => true
  | .subscribe | .started _ | .complete => false

def ChannelJob.starters : ChannelJob → ℕ
  | .stopping _ => 0
  | .attachHandshake | .subscribeStop | .attachProtocols => 1

def ChannelJob.stoppers : ChannelJob → ℕ
  | .attachProtocols | .stopping _ => 0
  | .attachHandshake | .subscribeStop => 1

def Report.starters : Report → ℕ
  | .started _ => 1
  | .stopped _ => 0

def Report.stoppers : Report → ℕ
  | .started _ => 0
  | .stopped _ => 1

/-- How often the starter was invoked. -/
def Channel.starts (c : Channel) : ℕ := total Report.starters c.reports

/-- How often the stopper was invoked. -/
def Channel.stops (c : Channel) : ℕ := total Report.stoppers c.reports

/-- Where the starter of a channel is, with what the network has for the channel. -/
def Channel.starters (c : Channel) (n : List NetworkJob) : ℕ :=
  total ChannelJob.starters c.jobs + c.handshaking.toNat + total NetworkJob.starters n + c.starts

/-- Where its stopper is. -/
def Channel.stoppers (c : Channel) (n : List NetworkJob) : ℕ :=
  total ChannelJob.stoppers c.jobs + c.handshaking.toNat + c.subscribed.toNat +
    total NetworkJob.stoppers n + c.stops

/-- A channel that has so many of each, whose stop goes on to its subscriber, and whose
stopper is for a channel that is stopped. -/
structure Carried (handlers : ℕ) (c : Channel) (n : List NetworkJob) : Prop where
  starters : c.starters n = handlers
  stoppers : c.stoppers n = handlers
  flagged : Flagged c
  cut : c.subscriberStopped = true → c.subscribed = false
  ended : (0 < c.stops ∨ ∃ job ∈ n, job.closing = true) → c.stopped = true

/-- A channel that was given to the session has one of each. -/
def Session.handlers (s : Session) (k : ℕ) : ℕ := if k < s.given then 1 else 0

def Carrying (s : Session) : Prop := ∀ k, Carried (s.handlers k) (s.channel k) (nets s k)

/-- The starter and the stopper are each invoked once at most; where nothing is under way
for a channel its starter was invoked, and its stopper if it is stopped; and nothing is
invoked for a channel that was not given. -/
structure EachOnce (s : Session) : Prop where
  starts : ∀ k, (s.channel k).starts ≤ 1
  stops : ∀ k, (s.channel k).stops ≤ 1
  quiet : ∀ k < s.given, Quiet s k →
    (s.channel k).starts = 1 ∧ (s.channel k).stops = (s.channel k).stopped.toNat
  given : ∀ k, s.given ≤ k → (s.channel k).reports = []

/-! ### Steps of one channel -/

section
variable {s s' : Session} {k : ℕ}

/-- A step that concerns one channel. -/
theorem Carrying.one (h : Carrying s) (k : ℕ) (hgiven : s'.given = s.given)
    (hchannel : ∀ j ≠ k, s'.channel j = s.channel j) (hnets : ∀ j ≠ k, nets s' j = nets s j)
    (hk : Carried (s.handlers k) (s'.channel k) (nets s' k)) : Carrying s' := by
  intro j
  have hhandlers : s'.handlers j = s.handlers j := by
    unfold Session.handlers
    rw [hgiven]
  rw [hhandlers]
  by_cases hj : j = k
  · subst hj
    exact hk
  · rw [hchannel j hj, hnets j hj]
    exact h j

/-- A step that leaves the handlers of a channel where they are. -/
theorem Carrying.flag (h : Carrying s) (k : ℕ) {c : Channel}
    (hstarters : total ChannelJob.starters c.jobs = total ChannelJob.starters (s.channel k).jobs)
    (hstoppers : total ChannelJob.stoppers c.jobs = total ChannelJob.stoppers (s.channel k).jobs)
    (hhandshaking : c.handshaking = (s.channel k).handshaking)
    (hsubscribed : c.subscribed = (s.channel k).subscribed)
    (hcut : c.subscriberStopped = (s.channel k).subscriberStopped)
    (hreports : c.reports = (s.channel k).reports)
    (hstopped : (s.channel k).stopped = true → c.stopped = true) (hflagged : Flagged c) :
    Carrying (s.update k c) := by
  have hk := h k
  refine h.one k rfl (fun j hj => channel_update_ne s j k c hj) (fun j _ => nets_update s j k c) ?_
  rw [channel_update, nets_update]
  refine ⟨?_, ?_, hflagged, ?_, ?_⟩
  · rw [← hk.starters]
    unfold Channel.starters Channel.starts
    rw [hstarters, hhandshaking, hreports]
  · rw [← hk.stoppers]
    unfold Channel.stoppers Channel.stops
    rw [hstoppers, hhandshaking, hsubscribed, hreports]
  · rw [hcut, hsubscribed]
    exact hk.cut
  · unfold Channel.stops
    rw [hreports]
    exact fun hended => hstopped (hk.ended hended)

theorem nets_other {j : ℕ} (job : NetworkJob) (network : List (ℕ × NetworkJob)) (hj : j ≠ k) :
    nets { s with network := (k, job) :: network } j = nets { s with network := network } j := by
  unfold nets
  simp [hj.symm]

/-- Where a stop of the channel is posted does not change with its other jobs. -/
theorem Flagged.jobs {c c' : Channel} (h : Flagged c)
    (hjobs : ∀ code, .stopping code ∈ c'.jobs ↔ .stopping code ∈ c.jobs)
    (hposting : c'.posting = c.posting) (hstopped : c'.stopped = c.stopped)
    (hcut : c'.subscriberStopped = c.subscriberStopped) : Flagged c' := by
  constructor
  · rw [hposting, hstopped, hcut]
    rintro (⟨code, hmem⟩ | hrest)
    · exact h.queued (.inl ⟨code, (hjobs code).mp hmem⟩)
    · exact h.queued (.inr hrest)
  · rw [hposting, hstopped, hcut]
    intro hstop
    rcases h.stops hstop with hcut | ⟨code, hmem⟩ | hposting
    · exact .inl hcut
    · exact .inr (.inl ⟨code, (hjobs code).mpr hmem⟩)
    · exact .inr (.inr hposting)

theorem Flagged.append {c : Channel} (h : Flagged c) (job : ChannelJob) (hjob : job.stops = false) :
    Flagged { c with jobs := c.jobs ++ [job] } := by
  refine h.jobs ?_ rfl rfl rfl
  intro code
  show _ ∈ c.jobs ++ [job] ↔ _
  rw [List.mem_append, List.mem_singleton]
  constructor
  · rintro (hmem | rfl)
    · exact hmem
    · cases hjob
  · exact .inl

/-! ### The strand of the network -/

/-- Reports of a channel are what its handlers were invoked with. -/
theorem Carried.report {handlers starts stops : ℕ} {c : Channel} {n : List NetworkJob}
    (hstarters : c.starters n + starts = handlers) (hstoppers : c.stoppers n + stops = handlers)
    (hflagged : Flagged c) (hcut : c.subscriberStopped = true → c.subscribed = false)
    (hended : (0 < c.stops + stops ∨ ∃ job ∈ n, job.closing = true) → c.stopped = true)
    (reports : List Report) (hstarts : total Report.starters reports = starts)
    (hstops : total Report.stoppers reports = stops) :
    Carried handlers (c.reporting (c.reports ++ reports)) n := by
  refine ⟨?_, ?_, hflagged.reporting _, hcut, ?_⟩
  · unfold Channel.starters Channel.starts at hstarters ⊢
    dsimp only [Channel.reporting]
    rw [total_append]
    omega
  · unfold Channel.stoppers Channel.stops at hstoppers ⊢
    dsimp only [Channel.reporting]
    rw [total_append]
    omega
  · unfold Channel.stops at hended ⊢
    dsimp only [Channel.reporting]
    rw [total_append, hstops]
    exact hended

/-- What the network has for a channel changes, with the handlers that it carries. -/
theorem Carried.nets {handlers starts stops : ℕ} {c : Channel} {n n' : List NetworkJob}
    (hstarters : c.starters n + starts = handlers) (hstoppers : c.stoppers n + stops = handlers)
    (hflagged : Flagged c) (hcut : c.subscriberStopped = true → c.subscribed = false)
    (hended : (0 < c.stops ∨ ∃ job ∈ n', job.closing = true) → c.stopped = true)
    (hstarts : total NetworkJob.starters n' = total NetworkJob.starters n + starts)
    (hstops : total NetworkJob.stoppers n' = total NetworkJob.stoppers n + stops) :
    Carried handlers c n' := by
  refine ⟨?_, ?_, hflagged, hcut, hended⟩
  · unfold Channel.starters at hstarters ⊢
    omega
  · unfold Channel.stoppers at hstoppers ⊢
    omega

/-- A job is posted to a channel, with the handlers that it carries. -/
theorem Carried.post {handlers : ℕ} {c : Channel} {n : List NetworkJob} (job : ChannelJob)
    (hjob : job.stops = false) (hstarters : c.starters n + job.starters = handlers)
    (hstoppers : c.stoppers n + job.stoppers = handlers) (hflagged : Flagged c)
    (hcut : c.subscriberStopped = true → c.subscribed = false)
    (hended : (0 < c.stops ∨ ∃ job ∈ n, job.closing = true) → c.stopped = true) :
    Carried handlers { c with jobs := c.jobs ++ [job] } n := by
  refine ⟨?_, ?_, hflagged.append job hjob, hcut, hended⟩
  · unfold Channel.starters Channel.starts at hstarters ⊢
    dsimp only
    rw [total_append, total_cons, total_nil]
    omega
  · unfold Channel.stoppers Channel.stops at hstoppers ⊢
    dsimp only
    rw [total_append, total_cons, total_nil]
    omega

section
variable {rest : List (ℕ × NetworkJob)} {job : NetworkJob}

/-- A job of the network hands on what it carries, or invokes it. -/
theorem runNetwork_carrying (h : Carrying s) (hnetwork : s.network = (k, job) :: rest) :
    Carrying ({ s with network := rest }.runNetworkJob k job) := by
  have hk := h k
  rw [nets_head hnetwork] at hk
  obtain ⟨hstarters, hstoppers, hflagged, hcut, hended⟩ := hk
  have htail : ∀ j ≠ k, nets { s with network := rest } j = nets s j :=
    fun j hj => nets_tail hnetwork hj
  have hstart : (s.channel k).starters (nets { s with network := rest } k) + job.starters =
      s.handlers k := by
    unfold Channel.starters at hstarters ⊢
    rw [total_cons] at hstarters
    omega
  have hstop : (s.channel k).stoppers (nets { s with network := rest } k) + job.stoppers =
      s.handlers k := by
    unfold Channel.stoppers at hstoppers ⊢
    rw [total_cons] at hstoppers
    omega
  have hrest : (0 < (s.channel k).stops ∨ ∃ job ∈ nets { s with network := rest } k, job.closing = true) →
      (s.channel k).stopped = true := by
    rintro (hstops | ⟨job', hmem, hends⟩)
    · exact hended (.inl hstops)
    · exact hended (.inr ⟨job', List.mem_cons_of_mem _ hmem, hends⟩)
  clear hstarters hstoppers
  cases job with
  | handshaken code =>
    by_cases hcode : code ≠ .success
    · have hfailed : (s.channel k).stopped = true :=
        hended (.inr ⟨_, List.mem_cons_self, decide_eq_true hcode⟩)
      rw [show Session.runNetworkJob _ k (.handshaken code) = _ from if_pos hcode]
      refine h.one k rfl (fun j hj => ?_) htail ?_
      · exact (handleChannelStop_ne hj code).trans (handleChannelStart_ne hj code)
      · have hchannel : ((Session.handleChannelStart { s with network := rest } k code).handleChannelStop
            k code).channel k =
              (s.channel k).reporting ((s.channel k).reports ++ [.started code, .stopped code]) := by
          rw [handleChannelStop_channel rfl, handleChannelStart_channel rfl]
          show Channel.mk _ _ _ _ _ _ _ _ = Channel.mk _ _ _ _ _ _ _ _
          dsimp only [Channel.reporting]
          rw [List.append_assoc]
          rfl
        rw [hchannel]
        exact Carried.report hstart hstop hflagged hcut (fun _ => hfailed) _ rfl rfl
    · rw [show Session.runNetworkJob _ k (.handshaken code) = _ from if_neg hcode]
      by_cases hstopped : (s.channel k).stopped = true
      · rw [show Session.subscribeStop { s with network := rest } k = _ from if_pos hstopped]
        refine h.one k rfl (fun _ _ => rfl) (fun j hj => ?_) ?_
        · rw [nets_post_ne _ _ _ _ hj, nets_post_ne _ _ _ _ hj]
          exact htail j hj
        · rw [nets_post, nets_post]
          refine Carried.nets hstart hstop hflagged hcut (fun _ => hstopped) ?_ ?_ <;>
            simp only [total_append, total_cons, total_nil, NetworkJob.starters,
              NetworkJob.stoppers]
      · rw [show Session.subscribeStop { s with network := rest } k = _ from if_neg hstopped]
        refine h.one k rfl (fun _ _ => rfl) (fun j hj => ?_) ?_
        · exact (nets_other _ _ hj).trans (htail j hj)
        · rw [nets_head rfl]
          refine Carried.nets hstart hstop hflagged hcut ?_ ?_ ?_
          · rintro (hstops | ⟨job', hmem, hends⟩)
            · exact hrest (.inl hstops)
            · rcases List.mem_cons.mp hmem with rfl | hmem
              · cases hends
              · exact hrest (.inr ⟨job', hmem, hends⟩)
          all_goals
            simp only [total_cons, NetworkJob.starters, NetworkJob.stoppers, Nat.add_comm]
  | subscribe =>
    refine h.one k rfl (fun j hj => channel_update_ne _ j k _ hj) htail ?_
    show Carried _ ((Session.update _ k _).channel k) _
    rw [channel_update]
    exact Carried.post .subscribeStop rfl hstart hstop hflagged hcut hrest
  | started code =>
    by_cases hcode : code ≠ .success
    · rw [show Session.runNetworkJob _ k (.started code) = _ from if_pos hcode]
      refine h.one k rfl (fun j hj => handleChannelStart_ne hj code) htail ?_
      rw [handleChannelStart_channel rfl]
      exact Carried.report hstart hstop hflagged hcut hrest [.started code] rfl rfl
    · rw [show Session.runNetworkJob _ k (.started code) = _ from if_neg hcode]
      refine h.one k rfl (fun j hj => channel_update_ne _ j k _ hj) htail ?_
      show Carried _ ((Session.update _ k _).channel k) _
      rw [channel_update]
      exact Carried.post .attachProtocols rfl hstart hstop hflagged hcut hrest
  | complete =>
    refine h.one k rfl (fun j hj => handleChannelStart_ne hj _) htail ?_
    rw [show Session.runNetworkJob _ k .complete = Session.handleChannelStart _ k .success from rfl,
      handleChannelStart_channel rfl]
    exact Carried.report hstart hstop hflagged hcut hrest [.started .success] rfl rfl
  | stopped code =>
    refine h.one k rfl (fun j hj => handleChannelStop_ne hj code) htail ?_
    rw [show Session.runNetworkJob _ k (.stopped code) = Session.handleChannelStop _ k code from rfl,
      handleChannelStop_channel rfl]
    exact Carried.report hstart hstop hflagged hcut
      (fun _ => hended (.inr ⟨_, List.mem_cons_self, rfl⟩)) [.stopped code] rfl rfl

end

/-! ### The strand of a channel -/

section
variable {jobs : List ChannelJob} {job : ChannelJob}

/-- The stop is notified to the subscriber, once. -/
theorem stopping_flagged {code : Code} (h : Carrying s) (hjobs : (s.channel k).jobs = .stopping code :: jobs)
    {c : Channel} (hstopped : c.stopped = (s.channel k).stopped) (hcut : c.subscriberStopped = true) :
    Flagged c := by
  refine ⟨fun _ => ?_, fun _ => .inl hcut⟩
  rw [hstopped]
  refine (h k).flagged.queued (.inl ⟨code, ?_⟩)
  rw [hjobs]
  exact List.mem_cons_self

/-- A job that is posted behind others is of a channel that is not known to be stopped. -/
theorem closing_append {n : List NetworkJob} {job : NetworkJob} {stops : ℕ} (hjob : job.closing = false)
    (h : 0 < stops ∨ ∃ job' ∈ n ++ [job], job'.closing = true) :
    0 < stops ∨ ∃ job' ∈ n, job'.closing = true := by
  rcases h with hstops | ⟨job', hmem, hends⟩
  · exact .inl hstops
  · rcases List.mem_append.mp hmem with hmem | hmem
    · exact .inr ⟨job', hmem, hends⟩
    · rw [List.mem_singleton.mp hmem, hjob] at hends
      cases hends

theorem handlers_le (s : Session) (k : ℕ) : s.handlers k ≤ 1 := by
  unfold Session.handlers
  split <;> omega

/-- A job of a channel hands on what it carries. -/
theorem runChannel_carrying (h : Carrying s) (hjobs : (s.channel k).jobs = job :: jobs) :
    Carrying ((s.update k { s.channel k with jobs := jobs }).runChannelJob k job) := by
  obtain ⟨hstarters, hstoppers, hflagged, hcut, hended⟩ := h k
  have hle := handlers_le s k
  unfold Channel.starters Channel.starts at hstarters
  unfold Channel.stoppers Channel.stops at hstoppers
  rw [hjobs, total_cons] at hstarters hstoppers
  have hne : ∀ (c : Channel), ∀ j ≠ k, ((s.update k { s.channel k with jobs := jobs }).update k c).channel j =
      s.channel j := by
    intro c j hj
    rw [channel_update_ne _ j k c hj, channel_update_ne _ j k _ hj]
  have hworking : job.stops = false → Flagged { s.channel k with jobs := jobs } := by
    intro hjob
    refine hflagged.jobs ?_ rfl rfl rfl
    intro code
    rw [hjobs]
    constructor
    · exact List.mem_cons_of_mem _
    · intro hmem
      rcases List.mem_cons.mp hmem with rfl | hmem
      · cases hjob
      · exact hmem
  cases job with
  | attachHandshake =>
    -- the handshake carries both
    refine h.one k rfl (hne _) (fun _ _ => rfl) ?_
    show Carried _ ((Session.update _ k _).channel k) _
    simp only [channel_update]
    refine ⟨?_, ?_, (hworking rfl).jobs (fun _ => .rfl) rfl rfl rfl, hcut, hended⟩
    · show total ChannelJob.starters jobs + 1 + total NetworkJob.starters (nets s k) +
        total Report.starters (s.channel k).reports = s.handlers k
      dsimp only [ChannelJob.starters] at hstarters
      omega
    · show total ChannelJob.stoppers jobs + 1 + (s.channel k).subscribed.toNat +
        total NetworkJob.stoppers (nets s k) + total Report.stoppers (s.channel k).reports =
          s.handlers k
      dsimp only [ChannelJob.stoppers] at hstoppers
      omega
  | subscribeStop =>
    dsimp only [ChannelJob.starters, ChannelJob.stoppers] at hstarters hstoppers
    unfold Session.runChannelJob
    by_cases hstopped : (s.channel k).subscriberStopped = true
    · -- the stopper is invoked with the refusal of the subscriber
      have hrefused : ((s.update k { s.channel k with jobs := jobs }).channel k).subscriberStopped =
          true := by
        rw [channel_update]
        exact hstopped
      rw [if_pos hrefused]
      refine h.one k rfl (fun j hj => channel_update_ne s j k _ hj) (fun j hj => ?_) ?_
      · rw [nets_post_ne _ _ _ _ hj, nets_post_ne _ _ _ _ hj, nets_update]
      · rw [nets_post, nets_post, nets_update, channel_post, channel_post, channel_update]
        refine ⟨?_, ?_, hworking rfl, hcut, fun _ => hflagged.queued (.inr (.inr hstopped))⟩
        · unfold Channel.starters Channel.starts
          simp only [total_append, total_cons, total_nil, NetworkJob.starters]
          omega
        · unfold Channel.stoppers Channel.stops
          simp only [total_append, total_cons, total_nil, NetworkJob.stoppers]
          omega
    · -- the subscription carries the stopper
      have hrunning : ¬((s.update k { s.channel k with jobs := jobs }).channel k).subscriberStopped =
          true := by
        rw [channel_update]
        exact hstopped
      rw [if_neg hrunning]
      refine h.one k rfl (hne _) (fun j hj => ?_) ?_
      · rw [nets_post_ne _ _ _ _ hj, nets_update, nets_update]
      · rw [nets_post, nets_update, nets_update, channel_post, channel_update, channel_update]
        refine ⟨?_, ?_, (hworking rfl).jobs (fun _ => .rfl) rfl rfl rfl,
          fun hcut => absurd hcut hstopped, fun hends => hended (closing_append rfl hends)⟩
        · unfold Channel.starters Channel.starts
          simp only [total_append, total_cons, total_nil, NetworkJob.starters]
          omega
        · unfold Channel.stoppers Channel.stops
          simp only [total_append, total_cons, total_nil, NetworkJob.stoppers, Bool.toNat_true]
          omega
  | attachProtocols =>
    dsimp only [ChannelJob.starters, ChannelJob.stoppers] at hstarters hstoppers
    refine h.one k rfl (fun j hj => channel_update_ne s j k _ hj) (fun j hj => ?_) ?_
    · exact (nets_post_ne _ _ _ _ hj).trans (nets_update _ _ _ _)
    · show Carried _ ((Session.post _ k .complete).channel k) (nets (Session.post _ k .complete) k)
      rw [nets_post, nets_update, channel_post, channel_update]
      refine ⟨?_, ?_, hworking rfl, hcut, fun hends => hended (closing_append rfl hends)⟩
      · unfold Channel.starters Channel.starts
        simp only [total_append, total_cons, total_nil, NetworkJob.starters]
        omega
      · unfold Channel.stoppers Channel.stops
        simp only [total_append, total_cons, total_nil, NetworkJob.stoppers]
        omega
  | stopping code =>
    dsimp only [ChannelJob.starters, ChannelJob.stoppers] at hstarters hstoppers
    unfold Session.runChannelJob
    dsimp only
    simp only [channel_update]
    by_cases hstopped : (s.channel k).subscriberStopped = true
    · rw [if_pos hstopped]
      refine h.one k rfl (fun j hj => channel_update_ne s j k _ hj) (fun _ _ => rfl) ?_
      rw [channel_update, nets_update]
      refine ⟨?_, ?_, stopping_flagged h hjobs rfl hstopped, hcut, hended⟩
      · unfold Channel.starters Channel.starts
        dsimp only
        omega
      · unfold Channel.stoppers Channel.stops
        dsimp only
        omega
    · rw [if_neg hstopped]
      by_cases hsubscribed : (s.channel k).subscribed = true
      · -- the subscription hands the stopper on to the network
        rw [hsubscribed, Bool.toNat_true] at hstoppers
        rw [if_pos hsubscribed]
        refine h.one k rfl (hne _) (fun j hj => ?_) ?_
        · rw [nets_post_ne _ _ _ _ hj, nets_update, nets_update]
        · rw [nets_post, nets_update, nets_update, channel_post, channel_update]
          refine ⟨?_, ?_, stopping_flagged h hjobs rfl rfl, fun _ => rfl, fun _ =>
            hflagged.queued (.inl ⟨code, by rw [hjobs]; exact List.mem_cons_self⟩)⟩
          · unfold Channel.starters Channel.starts
            simp only [total_append, total_cons, total_nil, NetworkJob.starters]
            omega
          · unfold Channel.stoppers Channel.stops
            simp only [total_append, total_cons, total_nil, NetworkJob.stoppers, Bool.toNat_false]
            omega
      · rw [Bool.not_eq_true] at hsubscribed
        rw [hsubscribed, Bool.toNat_false] at hstoppers
        rw [if_neg (by rw [hsubscribed]; exact Bool.false_ne_true)]
        refine h.one k rfl (hne _) (fun _ _ => rfl) ?_
        rw [nets_update, nets_update, channel_update]
        refine ⟨?_, ?_, stopping_flagged h hjobs rfl rfl, fun _ => rfl, hended⟩
        · unfold Channel.starters Channel.starts
          dsimp only
          omega
        · unfold Channel.stoppers Channel.stops
          simp only [Bool.toNat_false]
          omega

end

/-! ### Steps -/

theorem Flagged.post {c : Channel} {code : Code} {posting : List Code} (h : Flagged c)
    (hposting : c.posting = code :: posting) :
    Flagged { c with posting := posting, jobs := c.jobs ++ [.stopping code] } := by
  have hstopped := h.queued (.inr (.inl (by rw [hposting]; exact List.cons_ne_nil _ _)))
  exact ⟨fun _ => hstopped, fun _ =>
    .inr (.inl ⟨code, List.mem_append_right _ (List.mem_singleton_self _)⟩)⟩

/-- A stop of a channel leaves its handlers where they are. -/
theorem Carrying.stop (h : Carrying s) (k : ℕ) (code : Code) :
    Carrying (s.update k ((s.channel k).stop code)) := by
  unfold Channel.stop
  by_cases hstopped : (s.channel k).stopped = true
  · rw [if_pos hstopped]
    exact h.flag k rfl rfl rfl rfl rfl rfl id (h k).flagged
  · rw [if_neg hstopped]
    refine h.flag k ?_ ?_ rfl rfl rfl rfl (fun _ => rfl) ?_
    · exact (total_append _ _ _).trans (Nat.add_zero _)
    · exact (total_append _ _ _).trans (Nat.add_zero _)
    · exact ⟨fun _ => rfl, fun _ =>
        .inr (.inl ⟨code, List.mem_append_right _ (List.mem_singleton_self _)⟩)⟩

theorem stop_stopped (c : Channel) (code : Code) : (c.stop code).stopped = true := by
  unfold Channel.stop
  split <;> trivial

/-- A handshake that is over hands on both handlers. -/
theorem handshaken_carrying (h : Carrying s) (hhandshaking : (s.channel k).handshaking = true)
    {c : Code} (hfailed : c ≠ .success → (s.channel k).stopped = true) :
    Carrying ((s.update k { s.channel k with handshaking := false }).post k (.handshaken c)) := by
  obtain ⟨hstarters, hstoppers, hflagged, hcut, hended⟩ := h k
  unfold Channel.starters Channel.starts at hstarters
  unfold Channel.stoppers Channel.stops at hstoppers
  rw [hhandshaking, Bool.toNat_true] at hstarters hstoppers
  refine h.one k rfl (fun j hj => channel_update_ne s j k _ hj) (fun j hj => ?_) ?_
  · rw [nets_post_ne _ _ _ _ hj, nets_update]
  rw [nets_post, nets_update, channel_post, channel_update]
  refine ⟨?_, ?_, hflagged.jobs (fun _ => .rfl) rfl rfl rfl, hcut, ?_⟩
  · unfold Channel.starters Channel.starts
    simp only [total_append, total_cons, total_nil, NetworkJob.starters, Bool.toNat_false]
    omega
  · unfold Channel.stoppers Channel.stops
    simp only [total_append, total_cons, total_nil, NetworkJob.stoppers, Bool.toNat_false]
    omega
  · rintro (hstops | ⟨job, hmem, hends⟩)
    · exact hended (.inl hstops)
    · rcases List.mem_append.mp hmem with hmem | hmem
      · exact hended (.inr ⟨job, hmem, hends⟩)
      · rw [List.mem_singleton.mp hmem] at hends
        exact hfailed (of_decide_eq_true hends)

theorem handleHandshake_carrying (h : Carrying s) (hhandshaking : (s.channel k).handshaking = true)
    (code : Code) : Carrying (s.handleHandshake k code) := by
  unfold Session.handleHandshake
  dsimp only
  by_cases hcode : code ≠ .success
  · -- the channel is stopped, and its handshake over
    rw [if_pos hcode]
    have hstop := h.stop k code
    have hstill : ((s.update k ((s.channel k).stop code)).channel k).handshaking = true := by
      rw [channel_update, ← hhandshaking]
      unfold Channel.stop
      split <;> rfl
    have hover := handshaken_carrying hstop hstill (c := code) fun _ => by
      rw [channel_update]
      exact stop_stopped _ _
    have heq : (s.update k ((s.channel k).stop code)).update k
        { (s.update k ((s.channel k).stop code)).channel k with handshaking := false } =
          s.update k (Channel.stop { s.channel k with handshaking := false } code) := by
      rw [channel_update]
      unfold Session.update Channel.stop
      dsimp only
      rw [Function.update_idem]
      split <;> rfl
    rwa [heq] at hover
  · rw [if_neg hcode]
    exact handshaken_carrying h hhandshaking fun hfailed => absurd hfailed hcode

/-- A channel that the session has yet to be given has no handlers. -/
theorem Carrying.next (h : Carrying s) : Carried 0 (s.channel s.given) (nets s s.given) := by
  have hnext := h s.given
  rwa [show s.handlers s.given = 0 from if_neg (Nat.lt_irrefl _)] at hnext

/-- A step that gives a channel to the session. -/
theorem Carrying.give (h : Carrying s) (hgiven : s'.given = s.given + 1)
    (hchannel : ∀ j ≠ s.given, s'.channel j = s.channel j) (hnets : ∀ j, nets s' j = nets s j)
    (hnext : Carried 1 (s'.channel s.given) (nets s s.given)) : Carrying s' := by
  intro j
  rw [hnets j]
  unfold Session.handlers
  rw [hgiven]
  by_cases hj : j = s.given
  · rw [if_pos (by omega), hj]
    exact hnext
  · have hold := h j
    rw [hchannel j hj]
    unfold Session.handlers at hold
    by_cases hless : j < s.given
    · rw [if_pos hless] at hold
      rwa [if_pos (by omega)]
    · rw [if_neg hless] at hold
      rwa [if_neg (by omega)]

/-- The session has the channel that it is given stopped, and invokes its handlers. -/
def Session.refuseChannel (s : Session) (code : Code) : Session :=
  let k := s.given
  let s := { s with given := s.given + 1 }
  let s := s.update k ((s.channel k).stop code)
  (s.handleChannelStart k code).handleChannelStop k code

theorem refuseChannel_given (s : Session) (code : Code) :
    (s.refuseChannel code).given = s.given + 1 := rfl

theorem refuseChannel_ne (s : Session) (code : Code) {j : ℕ} (hj : j ≠ s.given) :
    (s.refuseChannel code).channel j = s.channel j := by
  unfold Session.refuseChannel
  dsimp only
  rw [handleChannelStop_ne hj, handleChannelStart_ne hj, channel_update_ne _ j _ _ hj]

theorem refuseChannel_channel (s : Session) (code : Code) :
    (s.refuseChannel code).channel s.given =
      ((s.channel s.given).stop code).reporting
        (((s.channel s.given).stop code).reports ++ [.started code, .stopped code]) := by
  unfold Session.refuseChannel
  dsimp only
  rw [handleChannelStop_channel rfl, handleChannelStart_channel rfl, channel_update]
  dsimp only [Channel.reporting]
  rw [List.append_assoc]
  rfl

theorem refuseChannel_carrying (h : Carrying s) (code : Code) : Carrying (s.refuseChannel code) := by
  refine h.give rfl (fun j hj => refuseChannel_ne s code hj) (fun _ => rfl) ?_
  rw [refuseChannel_channel]
  have hstop := h.stop s.given code s.given
  rw [channel_update, nets_update,
    show (s.update _ _).handlers s.given = 0 from if_neg (Nat.lt_irrefl _)] at hstop
  exact Carried.report (by rw [hstop.starters]; rfl) (by rw [hstop.stoppers]; rfl) hstop.flagged
    hstop.cut (fun _ => stop_stopped _ _) _ rfl rfl

theorem startChannel_carrying (h : Carrying s) : Carrying s.startChannel := by
  unfold Session.startChannel
  by_cases hstopped : s.isStopped = true
  · exact (if_pos hstopped) ▸ refuseChannel_carrying h .serviceStopped
  · refine (if_neg hstopped) ▸ h.give rfl (fun j hj => channel_update_ne _ j _ _ hj) (fun _ => rfl) ?_
    show Carried _ ((Session.update _ _ _).channel _) _
    rw [channel_update]
    exact Carried.post .attachHandshake rfl (by rw [h.next.starters]; rfl)
      (by rw [h.next.stoppers]; rfl) h.next.flagged h.next.cut h.next.ended

theorem step_carrying (h : Carrying s) (e : Session.Event) : Carrying (s.step e) := by
  cases e with
  | start => exact startChannel_carrying h
  | close => exact h
  | enter k =>
    show Carrying (if _ then _ else _)
    split
    · exact h
    · exact h.flag k rfl rfl rfl rfl rfl rfl id ((h k).flagged.jobs (fun _ => .rfl) rfl rfl rfl)
  | finish k code =>
    show Carrying (if _ then _ else _)
    split
    · exact h
    · exact h.flag k rfl rfl rfl rfl rfl rfl (fun _ => rfl) ⟨fun _ => rfl, fun _ =>
        .inr (.inr (List.append_ne_nil_of_right_ne_nil _ (List.cons_ne_nil _ _)))⟩
  | post k =>
    rw [Session.step]
    cases hposting : (s.channel k).posting with
    | nil => exact h
    | cons code posting =>
      refine h.flag k ?_ ?_ rfl rfl rfl rfl id ((h k).flagged.post hposting)
      · exact (total_append _ _ _).trans (Nat.add_zero _)
      · exact (total_append _ _ _).trans (Nat.add_zero _)
  | handshake k code =>
    show Carrying (if _ then _ else _)
    split
    · exact handleHandshake_carrying h ‹_› code
    · exact h
  | runNetwork =>
    rw [Session.step]
    cases hnetwork : s.network with
    | nil => exact h
    | cons entry network => exact runNetwork_carrying h hnetwork
  | runChannel k =>
    rw [Session.step]
    cases hjobs : (s.channel k).jobs with
    | nil => exact h
    | cons job jobs => exact runChannel_carrying h hjobs

/-- Where nothing is under way the subscription is all that carries a handler. -/
theorem Carried.quiet {handlers : ℕ} {c : Channel} {n : List NetworkJob} (h : Carried handlers c n)
    (hnets : n = []) (hjobs : c.jobs = []) (hhandshaking : c.handshaking = false)
    (hposting : c.posting = []) :
    c.starts = handlers ∧ c.stops + c.subscribed.toNat = handlers ∧
      (c.stopped = true → c.subscribed = false) := by
  have hstarters := h.starters
  have hstoppers := h.stoppers
  unfold Channel.starters at hstarters
  unfold Channel.stoppers at hstoppers
  rw [hnets, hjobs, hhandshaking] at hstarters hstoppers
  simp only [total_nil, Bool.toNat_false] at hstarters hstoppers
  refine ⟨by omega, by omega, ?_⟩
  intro hstopped
  rcases h.flagged.stops hstopped with hcut | ⟨code, hmem⟩ | hne
  · exact h.cut hcut
  · rw [hjobs] at hmem
    cases hmem
  · exact absurd hposting hne

/-- A channel that is not stopped has not had its stopper invoked. -/
theorem Carried.running {handlers : ℕ} {c : Channel} {n : List NetworkJob} (h : Carried handlers c n)
    (hstopped : c.stopped = false) : c.stops = 0 := by
  by_contra hne
  have htrue := h.ended (.inl (Nat.pos_of_ne_zero hne))
  rw [hstopped] at htrue
  cases htrue

theorem Carried.none {c : Channel} {n : List NetworkJob} (h : Carried 0 c n) : c.reports = [] := by
  have hstarters := h.starters
  have hstoppers := h.stoppers
  unfold Channel.starters Channel.starts at hstarters
  unfold Channel.stoppers Channel.stops at hstoppers
  cases hreports : c.reports with
  | nil => rfl
  | cons report reports =>
    rw [hreports, total_cons] at hstarters hstoppers
    cases report with
    | started code =>
      dsimp only [Report.starters] at hstarters
      omega
    | stopped code =>
      dsimp only [Report.stoppers] at hstoppers
      omega

theorem Carrying.eachOnce (h : Carrying s) : EachOnce s where
  starts k := by
    have hstarters := (h k).starters
    have hle := handlers_le s k
    unfold Channel.starters at hstarters
    omega
  stops k := by
    have hstoppers := (h k).stoppers
    have hle := handlers_le s k
    unfold Channel.stoppers at hstoppers
    omega
  quiet k hgiven hquiet := by
    obtain ⟨hnets, hjobs, hhandshaking, hposting⟩ := hquiet
    obtain ⟨hstarts, hstops, hsubscribed⟩ := (h k).quiet hnets hjobs hhandshaking hposting
    rw [show s.handlers k = 1 from if_pos hgiven] at hstarts hstops
    refine ⟨hstarts, ?_⟩
    cases hstopped : (s.channel k).stopped with
    | true =>
      rw [hsubscribed hstopped, Bool.toNat_false] at hstops
      exact hstops
    | false => exact (h k).running hstopped
  given k hle := by
    have hk := h k
    rw [show s.handlers k = 0 from if_neg (Nat.not_lt.mpr hle)] at hk
    exact hk.none

end

end BitcoinNetwork.Sessions
