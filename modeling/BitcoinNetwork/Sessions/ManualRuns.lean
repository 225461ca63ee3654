import BitcoinNetwork.Sessions.Manual
import Mathlib.Data.List.Count

/-!
# A manual connection is in one place (sessions/session_manual.cpp)

Until it has been told of its end a manual connection is served once: its connector has it,
its timer has it, or a channel has it that is not stopped for the session.
-/

namespace BitcoinNetwork.Sessions
open Net Async Manual

/-! ### Where a connection is -/

/-- The connection has ended with the notice. -/
def Notice.final : Notice → Bool
  | .failed _ answer => !answer
  | .started _ _ => false
  | .stopped _ _ answer => !answer
  | .dropped _ => true
  | .closed => true

def Notice.starts : Notice → Bool
  | .started _ _ => true
  | .failed _ _ | .stopped _ _ _ | .dropped _ | .closed => false

namespace Manual

/-- The notices of a connection. -/
def notices (m : Manual) (slot : ℕ) : List Notice :=
  m.told.filterMap fun entry => if entry.1 = slot then some entry.2 else none

/-- How many of them have ended it. -/
def ended (m : Manual) (slot : ℕ) : ℕ := (m.notices slot).countP Notice.final

/-- How many channels serve a connection, each until its stop is handled. -/
def serving (session : Session) (slotOf : ℕ → ℕ) (slot : ℕ) : ℕ :=
  total (fun k => if slotOf k = slot ∧ (session.channel k).stops = 0 then 1 else 0)
    (List.range session.given)

/-- How often a connection is served. -/
def live (m : Manual) (slot : ℕ) : ℕ :=
  m.connecting.count slot + m.deferred.count slot + serving m.session m.slot slot

/-- Nothing is under way. -/
structure Idle (m : Manual) : Prop where
  connecting : m.connecting = []
  deferred : m.deferred = []
  channels : ∀ k < m.session.given, Quiet m.session k

end Manual

/-- The callback that runs has yet to go on with a connection. -/
def owed (due : Option ℕ) (slot : ℕ) : ℕ := if due = some slot then 1 else 0

structure Keeps (due : Option ℕ) (m : Manual) : Prop where
  carrying : Carrying m.session
  one : ∀ slot, m.live slot + m.ended slot + owed due slot = if slot < m.slots then 1 else 0
  order : ∀ slot, (m.notices slot).Pairwise fun notice later =>
    notice.final = true → later.starts = true
  running : m.session.isStopped = false → ∀ slot, Notice.closed ∉ m.notices slot
  connectors : m.session.isStopped = false →
    ∀ slot, m.subscriptions.count (.connector slot) = m.live slot + owed due slot
  timers : m.session.isStopped = false →
    ∀ slot, m.subscriptions.count (.timer slot) = m.deferred.count slot
  channels : m.session.isStopped = false → ∀ k, m.subscriptions.count (.channel k) =
    if k < m.session.given ∧ (m.session.channel k).stops = 0 then 1 else 0
  stopped : m.session.isStopped = true → ∀ k < m.session.given,
    (m.session.channel k).stops = 0 → (m.session.channel k).stopped = true

/-- A step of the session that invokes no stopper, and stops channels at most. -/
structure Still (s s' : Session) : Prop where
  given : s'.given = s.given
  isStopped : s'.isStopped = s.isStopped
  stops : ∀ k, (s'.channel k).stops = (s.channel k).stops
  stopped : ∀ k, (s.channel k).stopped = true → (s'.channel k).stopped = true

section
variable {m : Manual} {due : Option ℕ} {slot : ℕ}

@[simp] theorem owed_none (slot : ℕ) : owed none slot = 0 := rfl

@[simp] theorem owed_self (slot : ℕ) : owed (some slot) slot = 1 := if_pos rfl

theorem owed_ne {slot other : ℕ} (h : other ≠ slot) : owed (some slot) other = 0 :=
  if_neg fun heq => h (Option.some.inj heq).symm

theorem Still.refl (s : Session) : Still s s := ⟨rfl, rfl, fun _ => rfl, fun _ => id⟩

theorem Still.trans {s s' s'' : Session} (h : Still s s') (h' : Still s' s'') : Still s s'' :=
  ⟨h'.given.trans h.given, h'.isStopped.trans h.isStopped, fun k => (h'.stops k).trans (h.stops k),
    fun k hstopped => h'.stopped k (h.stopped k hstopped)⟩

theorem Keeps.still (h : Keeps due m) {s : Session} (hs : Still m.session s) (hcarrying : Carrying s) :
    Keeps due { m with session := s } := by
  have hlive : ∀ slot, Manual.live { m with session := s } slot = m.live slot := by
    intro slot
    unfold Manual.live serving
    simp only [hs.stops, hs.given]
  refine ⟨hcarrying, ?_, h.order, ?_, ?_, ?_, ?_, ?_⟩
  · intro slot
    rw [hlive slot]
    exact h.one slot
  · intro hrunning
    exact h.running (hs.isStopped.symm.trans hrunning)
  · intro hrunning slot
    rw [hlive slot]
    exact h.connectors (hs.isStopped.symm.trans hrunning) slot
  · intro hrunning
    exact h.timers (hs.isStopped.symm.trans hrunning)
  · intro hrunning k
    have hk := h.channels (hs.isStopped.symm.trans hrunning) k
    dsimp only
    rw [hs.given, hs.stops k]
    exact hk
  · intro hstopped k hk hstops
    dsimp only at hstopped hk hstops
    rw [hs.given] at hk
    rw [hs.stops k] at hstops
    exact hs.stopped k (h.stopped (hs.isStopped.symm.trans hstopped) k hk hstops)

/-! ### What is told -/

theorem notices_tell (m : Manual) (slot other : ℕ) (notice : Notice) :
    (m.tell slot notice).notices other =
      m.notices other ++ if slot = other then [notice] else [] := by
  unfold Manual.notices Manual.tell
  dsimp only
  rw [List.filterMap_append]
  congr 1
  by_cases heq : slot = other
  · simp [heq]
  · simp [heq]

theorem ended_tell (m : Manual) (slot other : ℕ) (notice : Notice) :
    (m.tell slot notice).ended other =
      m.ended other + if slot = other then notice.final.toNat else 0 := by
  unfold Manual.ended
  rw [notices_tell, List.countP_append]
  split
  · rw [List.countP_singleton]
    cases notice.final <;> rfl
  · rfl

/-- A connection that has not ended was told of nothing final. -/
theorem not_final (h : m.ended slot = 0) : ∀ notice ∈ m.notices slot, notice.final = false := by
  intro notice hmem
  unfold Manual.ended at h
  rw [List.countP_eq_zero] at h
  exact Bool.not_eq_true _ ▸ h notice hmem

theorem order_tell (h : ∀ slot, (m.notices slot).Pairwise fun notice later =>
      notice.final = true → later.starts = true) {notice : Notice}
    (hnotice : notice.starts = true ∨ m.ended slot = 0) :
    ∀ other, ((m.tell slot notice).notices other).Pairwise fun notice later =>
      notice.final = true → later.starts = true := by
  intro other
  rw [notices_tell]
  by_cases heq : slot = other
  · subst heq
    rw [if_pos rfl]
    refine List.pairwise_append.mpr ⟨h slot, List.pairwise_singleton _ _, ?_⟩
    intro earlier hmem later hlater hfinal
    rw [List.mem_singleton.mp hlater]
    rcases hnotice with hstarts | hended
    · exact hstarts
    · rw [not_final hended earlier hmem] at hfinal
      cases hfinal
  · rw [if_neg heq, List.append_nil]
    exact h other

theorem running_tell {notice : Notice} (h : ∀ slot, Notice.closed ∉ m.notices slot)
    (hnotice : notice ≠ .closed) : ∀ other, Notice.closed ∉ (m.tell slot notice).notices other := by
  intro other hmem
  rw [notices_tell] at hmem
  rcases List.mem_append.mp hmem with hmem | hmem
  · exact h other hmem
  · split at hmem
    · exact hnotice (List.mem_singleton.mp hmem).symm
    · cases hmem

/-- A connection is told of what does not end it. -/
theorem Keeps.tell (h : Keeps due m) {n : Notice} (hfinal : n.final = false)
    (hnotice : n.starts = true ∨ m.ended slot = 0) (hclosed : n ≠ .closed) :
    Keeps due (m.tell slot n) := by
  refine ⟨h.carrying, ?_, order_tell h.order hnotice,
    fun hrunning => running_tell (h.running hrunning) hclosed, h.connectors, h.timers, h.channels,
    h.stopped⟩
  intro other
  have hone := h.one other
  rw [ended_tell, hfinal, Bool.toNat_false, ite_self]
  exact hone

/-- What the connection that is due has left. -/
theorem Keeps.left (h : Keeps (some slot) m) : m.live slot = 0 ∧ m.ended slot = 0 ∧ slot < m.slots := by
  have hone := h.one slot
  rw [owed_self] at hone
  split at hone
  · exact ⟨by omega, by omega, ‹_›⟩
  · omega

/-- The connection that is due is told of its end, and its connector is given up. -/
theorem Keeps.finish (h : Keeps (some slot) m) {n : Notice} (hfinal : n.final = true)
    {l : List Held} (hrunning : m.session.isStopped = false → n ≠ .closed ∧
      l = m.subscriptions.erase (.connector slot)) :
    Keeps none { m.tell slot n with subscriptions := l } := by
  refine ⟨h.carrying, ?_, order_tell h.order (.inr h.left.2.1),
    fun hrun => running_tell (h.running hrun) (hrunning hrun).1, ?_, ?_, ?_, h.stopped⟩
  · intro other
    have hone := h.one other
    have hended := ended_tell m slot other n
    rw [hfinal, Bool.toNat_true] at hended
    show m.live other + (m.tell slot n).ended other + 0 = _
    by_cases heq : other = slot
    · subst heq
      rw [if_pos rfl] at hended
      rw [owed_self] at hone
      rw [hended]
      exact hone
    · rw [if_neg (Ne.symm heq)] at hended
      rw [owed_ne heq] at hone
      rw [hended]
      exact hone
  · intro hrun other
    have hother := h.connectors hrun other
    show l.count (.connector other) = m.live other + 0
    rw [(hrunning hrun).2]
    by_cases heq : other = slot
    · subst heq
      rw [owed_self] at hother
      rw [List.count_erase_self]
      omega
    · rw [owed_ne heq] at hother
      rw [List.count_erase_of_ne fun hheld => heq (Held.connector.inj hheld)]
      exact hother
  · intro hrun other
    show l.count (.timer other) = _
    rw [(hrunning hrun).2,
      List.count_erase_of_ne (show Held.timer other ≠ .connector slot from nofun)]
    exact h.timers hrun other
  · intro hrun k
    show l.count (.channel k) = _
    rw [(hrunning hrun).2,
      List.count_erase_of_ne (show Held.channel k ≠ .connector slot from nofun)]
    exact h.channels hrun k

/-! ### Going on with a connection -/

theorem owed_some (slot other : ℕ) : owed (some slot) other = if slot = other then 1 else 0 := by
  unfold owed
  split
  · rw [if_pos (Option.some.inj ‹_›)]
  · rw [if_neg fun heq => ‹¬_› (congrArg some heq)]

theorem count_cons_slot (slots : List ℕ) (slot other : ℕ) :
    (slot :: slots).count other = slots.count other + owed (some slot) other := by
  rw [List.count_cons, owed_some]
  congr 1
  by_cases heq : slot = other
  · rw [if_pos heq, if_pos (beq_iff_eq.mpr heq)]
  · rw [if_neg heq, if_neg fun hbeq => heq (beq_iff_eq.mp hbeq)]

/-- The connection that is due connects. -/
theorem Keeps.connecting (h : Keeps (some slot) m) :
    Keeps none { m with connecting := slot :: m.connecting } := by
  have hlive : ∀ other, Manual.live { m with connecting := slot :: m.connecting } other =
      m.live other + owed (some slot) other := by
    intro other
    unfold Manual.live
    dsimp only
    rw [count_cons_slot]
    omega
  refine ⟨h.carrying, ?_, h.order, h.running, ?_, h.timers, h.channels, h.stopped⟩
  · intro other
    have hone := h.one other
    rw [hlive, owed_none]
    show _ + m.ended other + 0 = if other < m.slots then 1 else 0
    omega
  · intro hrunning other
    rw [hlive, owed_none]
    exact h.connectors hrunning other

/-- The callback of a connector runs. -/
theorem Keeps.connected (h : Keeps none m) (hmem : slot ∈ m.connecting) :
    Keeps (some slot) { m with connecting := m.connecting.erase slot } := by
  have hlive : ∀ other, Manual.live { m with connecting := m.connecting.erase slot } other +
      owed (some slot) other = m.live other := by
    intro other
    have hcount := (List.perm_cons_erase hmem).count_eq other
    rw [count_cons_slot] at hcount
    unfold Manual.live
    dsimp only
    rw [hcount]
    omega
  refine ⟨h.carrying, ?_, h.order, h.running, ?_, h.timers, h.channels, h.stopped⟩
  · intro other
    have hone := h.one other
    have hother := hlive other
    rw [owed_none] at hone
    show Manual.live { m with connecting := _ } other + m.ended other + _ = if other < m.slots then 1 else 0
    omega
  · intro hrunning other
    rw [hlive]
    exact h.connectors hrunning other

/-- The callback of a timer runs, and gives the timer up. -/
theorem Keeps.timer (h : Keeps none m) (hmem : slot ∈ m.deferred) :
    Keeps (some slot) ({ m with deferred := m.deferred.erase slot }.notify (.timer slot)) := by
  unfold Manual.notify
  have hcount : ∀ other, m.deferred.count other =
      (m.deferred.erase slot).count other + owed (some slot) other := by
    intro other
    rw [← count_cons_slot]
    exact (List.perm_cons_erase hmem).count_eq other
  have hlive : ∀ other, Manual.live { m with
      deferred := m.deferred.erase slot, subscriptions := m.subscriptions.erase (.timer slot) } other +
        owed (some slot) other = m.live other := by
    intro other
    have hother := hcount other
    unfold Manual.live
    dsimp only
    omega
  refine ⟨h.carrying, ?_, h.order, h.running, ?_, ?_, ?_, h.stopped⟩
  · intro other
    have hone := h.one other
    have hother := hlive other
    rw [owed_none] at hone
    have hsum : Manual.live { m with
        deferred := m.deferred.erase slot, subscriptions := m.subscriptions.erase (.timer slot) } other +
          m.ended other + owed (some slot) other = if other < m.slots then 1 else 0 := by
      omega
    exact hsum
  · intro hrunning other
    show (m.subscriptions.erase (.timer slot)).count (.connector other) =
      Manual.live { m with deferred := _, subscriptions := _ } other + _
    rw [hlive, List.count_erase_of_ne (show Held.connector other ≠ .timer slot from nofun)]
    exact h.connectors hrunning other
  · intro hrunning other
    have hother := h.timers hrunning other
    have hslot := hcount other
    show (m.subscriptions.erase (.timer slot)).count (.timer other) = (m.deferred.erase slot).count other
    by_cases heq : other = slot
    · subst heq
      rw [owed_self] at hslot
      rw [List.count_erase_self]
      omega
    · rw [owed_ne heq] at hslot
      rw [List.count_erase_of_ne fun hheld => heq (Held.timer.inj hheld)]
      omega
  · intro hrunning k
    show (m.subscriptions.erase (.timer slot)).count (.channel k) = _
    rw [List.count_erase_of_ne (show Held.channel k ≠ .timer slot from nofun)]
    exact h.channels hrunning k

/-- What a job of the network invokes. -/
def NetworkJob.reports : NetworkJob → List Report
  | .handshaken code => if code ≠ .success then [.started code, .stopped code] else []
  | .started code => if code ≠ .success then [.started code] else []
  | .complete => [.started .success]
  | .stopped code => [.stopped code]
  | .subscribe => []

/-- The session goes on with a channel, of which it invokes handlers. -/
structure Advances (s s' : Session) (k : ℕ) (reports : List Report) : Prop where
  given : s'.given = s.given
  isStopped : s'.isStopped = s.isStopped
  others : ∀ j ≠ k, s'.channel j = s.channel j
  reports : (s'.channel k).reports = (s.channel k).reports ++ reports
  stopped : (s'.channel k).stopped = (s.channel k).stopped

theorem Advances.stops {s s' : Session} {k : ℕ} {reports : List Report} (h : Advances s s' k reports) :
    (s'.channel k).stops = (s.channel k).stops + total Report.stoppers reports := by
  unfold Channel.stops
  rw [h.reports, total_append]

/-- A step that does not invoke the stopper. -/
theorem Advances.still {s s' : Session} {k : ℕ} {reports : List Report} (h : Advances s s' k reports)
    (hreports : total Report.stoppers reports = 0) : Still s s' := by
  refine ⟨h.given, h.isStopped, ?_, ?_⟩
  · intro j
    by_cases hj : j = k
    · rw [hj, h.stops, hreports]
      rfl
    · rw [h.others j hj]
  · intro j hstopped
    by_cases hj : j = k
    · rw [hj] at hstopped ⊢
      rw [h.stopped]
      exact hstopped
    · rw [h.others j hj]
      exact hstopped

/-- A step that invokes the stopper of a channel takes it from its connection. -/
theorem Advances.serving {s s' : Session} {k : ℕ} {reports : List Report} (h : Advances s s' k reports)
    (hk : k < s.given) (hbefore : (s.channel k).stops = 0) (hafter : (s'.channel k).stops = 1)
    (slotOf : ℕ → ℕ) (slot : ℕ) :
    serving s' slotOf slot + owed (some (slotOf k)) slot = serving s slotOf slot := by
  have hsum := total_range (k := k) (n := s.given)
    (f := fun j => if slotOf j = slot ∧ (s'.channel j).stops = 0 then 1 else 0)
    (g := fun j => if slotOf j = slot ∧ (s.channel j).stops = 0 then 1 else 0)
    (fun j hj => by rw [h.others j hj]) hk
  have hgone : (if slotOf k = slot ∧ (s'.channel k).stops = 0 then 1 else 0) = 0 :=
    if_neg fun hand => absurd (hafter.symm.trans hand.2) Nat.one_ne_zero
  have hheld : (if slotOf k = slot ∧ (s.channel k).stops = 0 then 1 else 0) =
      owed (some (slotOf k)) slot := by
    rw [owed_some, hbefore]
    simp only [and_true]
  rw [hgone, hheld] at hsum
  unfold Manual.serving
  rw [h.given]
  omega

/-- Where the stopper of a channel is invoked, its subscription is given up, and its
connection is due. -/
theorem Keeps.advanced (h : Keeps none m) {s : Session} {k : ℕ} {reports : List Report}
    (hs : Advances m.session s k reports) (hcarrying : Carrying s)
    (hreports : total Report.stoppers reports = 1) :
    Keeps (some (m.slot k)) { m.notify (.channel k) with session := s } := by
  have hstops := hs.stops
  have hle := hcarrying.eachOnce.stops k
  have hk : k < m.session.given := by
    by_contra hgiven
    have hnone := hcarrying.eachOnce.given k (hs.given ▸ Nat.not_lt.mp hgiven)
    rw [hs.reports, List.append_eq_nil_iff] at hnone
    rw [hnone.2] at hreports
    cases hreports
  have hbefore : (m.session.channel k).stops = 0 := by omega
  have hafter : (s.channel k).stops = 1 := by omega
  have hserving := hs.serving hk hbefore hafter m.slot
  have hlive : ∀ slot, Manual.live { m.notify (.channel k) with session := s } slot +
      owed (some (m.slot k)) slot = m.live slot := by
    intro slot
    have hslot := hserving slot
    unfold Manual.live Manual.notify
    dsimp only
    omega
  refine ⟨hcarrying, ?_, h.order, ?_, ?_, ?_, ?_, ?_⟩
  · intro slot
    have hone := h.one slot
    have hslot := hlive slot
    rw [owed_none] at hone
    have hsum : Manual.live { m.notify (.channel k) with session := s } slot + m.ended slot +
        owed (some (m.slot k)) slot = if slot < m.slots then 1 else 0 := by
      omega
    exact hsum
  · intro hrunning
    exact h.running (hs.isStopped.symm.trans hrunning)
  · intro hrunning slot
    rw [hlive slot]
    show (m.subscriptions.erase (.channel k)).count (.connector slot) = m.live slot
    rw [List.count_erase_of_ne (show Held.connector slot ≠ .channel k from nofun)]
    exact h.connectors (hs.isStopped.symm.trans hrunning) slot
  · intro hrunning slot
    show (m.subscriptions.erase (.channel k)).count (.timer slot) = _
    rw [List.count_erase_of_ne (show Held.timer slot ≠ .channel k from nofun)]
    exact h.timers (hs.isStopped.symm.trans hrunning) slot
  · intro hrunning j
    have hj := h.channels (hs.isStopped.symm.trans hrunning) j
    show (m.subscriptions.erase (.channel k)).count (.channel j) =
      if j < s.given ∧ (s.channel j).stops = 0 then 1 else 0
    by_cases heq : j = k
    · subst heq
      rw [if_pos ⟨hk, hbefore⟩] at hj
      rw [List.count_erase_self, hj, if_neg fun hand => absurd (hafter.symm.trans hand.2) Nat.one_ne_zero]
    · rw [List.count_erase_of_ne fun hheld => heq (Held.channel.inj hheld), hs.given, hs.others j heq]
      exact hj
  · intro hstopped j hj hnone
    by_cases heq : j = k
    · rw [heq, hafter] at hnone
      cases hnone
    · have hother := h.stopped (hs.isStopped.symm.trans hstopped) j (hs.given ▸ hj)
      rw [← hs.others j heq] at hother
      exact hother hnone

/-! ### What the session invokes -/

/-- The session is given a channel. -/
structure Gives (s s' : Session) : Prop where
  given : s'.given = s.given + 1
  isStopped : s'.isStopped = s.isStopped
  others : ∀ k ≠ s.given, s'.channel k = s.channel k

theorem Gives.serving {s s' : Session} (h : Gives s s') (slotOf : ℕ → ℕ) (slot other : ℕ) :
    serving s' (Function.update slotOf s.given slot) other = serving s slotOf other +
      if slot = other ∧ (s'.channel s.given).stops = 0 then 1 else 0 := by
  unfold Manual.serving
  rw [h.given, List.range_succ, total_append, total_cons, total_nil, Nat.add_zero,
    Function.update_self]
  congr 1
  unfold total
  refine congrArg List.sum (List.map_congr_left fun k hk => ?_)
  have hne : k ≠ s.given := Nat.ne_of_lt (List.mem_range.mp hk)
  rw [Function.update_of_ne hne, h.others k hne]

/-- A channel that is refused leaves the connection due. -/
theorem Keeps.refuse (h : Keeps (some slot) m) {s : Session} (hs : Gives m.session s)
    (hrunning : m.session.isStopped = false) (hcarrying : Carrying s)
    (hstops : (s.channel m.session.given).stops = 1) :
    Keeps (some slot) { m with
      slot := Function.update m.slot m.session.given slot
      session := s } := by
  have hlive : ∀ other, Manual.live { m with
      slot := Function.update m.slot m.session.given slot
      session := s } other = m.live other := by
    intro other
    unfold Manual.live
    dsimp only
    rw [hs.serving, hstops, if_neg fun hand => Nat.one_ne_zero hand.2]
    rfl
  refine ⟨hcarrying, ?_, h.order, fun _ => h.running hrunning, ?_, fun _ => h.timers hrunning, ?_, ?_⟩
  · intro other
    rw [hlive]
    exact h.one other
  · intro _ other
    rw [hlive]
    exact h.connectors hrunning other
  · intro _ k
    have hk := h.channels hrunning k
    show m.subscriptions.count (.channel k) = if k < s.given ∧ (s.channel k).stops = 0 then 1 else 0
    rw [hs.given]
    by_cases heq : k = m.session.given
    · subst heq
      rw [if_neg fun hand => Nat.lt_irrefl _ hand.1] at hk
      rw [hk, if_neg fun hand => Nat.one_ne_zero (hstops.symm.trans hand.2)]
    · rw [hk, hs.others k heq]
      exact if_congr (and_congr_left' (by omega)) rfl rfl
  · intro hstopped
    rw [show s.isStopped = false from hs.isStopped.trans hrunning] at hstopped
    cases hstopped

/-- The steps that invoke no handler. -/
theorem Keeps.step (h : Keeps none m) {e : Session.Event} (he : Still m.session (m.session.step e)) :
    Keeps none { m with session := m.session.step e } :=
  h.still he (step_carrying h.carrying e)

/-- Where nothing is under way once the session is stopped, no channel serves. -/
theorem Keeps.idle (h : Keeps none m) (hstopped : m.session.isStopped = true) (hidle : m.Idle)
    (slot : ℕ) : m.live slot = 0 := by
  unfold Manual.live
  rw [hidle.connecting, hidle.deferred, List.count_nil, Nat.zero_add]
  refine List.sum_eq_zero ?_
  intro x hx
  obtain ⟨k, hk, rfl⟩ := List.mem_map.mp hx
  have hgiven := List.mem_range.mp hk
  refine if_neg fun hserves => ?_
  have htold := (h.carrying.eachOnce.quiet k hgiven (hidle.channels k hgiven)).2
  rw [hserves.2, h.stopped hstopped k hgiven hserves.2] at htold
  cases htold

end

end BitcoinNetwork.Sessions
