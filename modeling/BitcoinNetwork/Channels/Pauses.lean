import BitcoinNetwork.Channels.GateRuns

/-!
# A channel that is paused during a dispatch (channels/channel_peer.cpp)

Where all pauses are made during a dispatch the channel has no gate but those of messages,
and one thing at a time leads to the next read. So a read is armed in order in all runs.
-/

namespace BitcoinNetwork.Channels
namespace Channel

/-- A channel of a peer, of which a read is outstanding, is to be armed, or waits for the
gate of one message. -/
structure Single (s : Channel) : Prop where
  http : s.http = false
  unparted : s.parted = false
  one : s.reads + s.rearms ≤ 1
  idle : ∀ n, s.alive n = true → s.reads = 0 ∧ s.rearms = 0
  same : ∀ n m, s.alive n = true → s.alive m = true → n = m
  held : s.held ≠ some .own

theorem create_single : Single { http := false } where
  http := rfl
  unparted := rfl
  one := Nat.zero_le _
  idle _ _ := ⟨rfl, rfl⟩
  same n m h := by simp [alive] at h
  held := by simp

section
variable {s s' : Channel} {n : ℕ}

theorem single_of_dead (hhttp : s.http = false) (hparted : s.parted = false)
    (hone : s.reads + s.rearms ≤ 1) (hdead : ∀ m, s.alive m = false) (hheld : s.held ≠ some .own) :
    s.Single where
  http := hhttp
  unparted := hparted
  one := hone
  idle m hm := by
    rw [hdead m] at hm
    cases hm
  same m k hm := by
    rw [hdead m] at hm
    cases hm
  held := hheld

/-- Fewer references, and nothing else that leads to a read. -/
structure Fewer (s s' : Channel) : Prop where
  http : s'.http = s.http
  parted : s'.parted = s.parted
  reads : s'.reads = s.reads
  rearms : s'.rearms = s.rearms
  alive : ∀ m, s'.alive m = true → s.alive m = true
  held : s'.held = some .own → s.held = some .own

theorem Single.fewer (h : s.Single) (hf : Fewer s s') : s'.Single where
  http := hf.http.trans h.http
  unparted := hf.parted.trans h.unparted
  one := by
    rw [hf.reads, hf.rearms]
    exact h.one
  idle m hm := by
    rw [hf.reads, hf.rearms]
    exact h.idle m (hf.alive m hm)
  same n m hn hm := h.same n m (hf.alive n hn) (hf.alive m hm)
  held hheld := h.held (hf.held hheld)

/-- The gate of which a reference went arms a read where that was the last. -/
theorem Single.handleGate (h : s.Single) (hn : s.alive n = true) (hf : Fewer s s') :
    (s'.handleGate n).Single := by
  unfold Channel.handleGate
  split
  · exact h.fewer hf
  · next hdead =>
    have hnone : ∀ m, s'.alive m = false := by
      intro m
      by_contra halive
      rw [Bool.not_eq_false] at halive
      rw [h.same n m hn (hf.alive m halive)] at hdead
      exact hdead halive
    have hzero := h.idle n hn
    refine single_of_dead (hf.http.trans h.http) (hf.parted.trans h.unparted) ?_ hnone
      fun hheld => h.held (hf.held hheld)
    show s'.reads + (s'.rearms + 1) ≤ 1
    rw [hf.reads, hf.rearms]
    omega

theorem Single.release (h : s.Single) : s.release.Single := by
  unfold Channel.release
  split
  · exact h
  · next hown => exact absurd hown h.held
  · next n hheld =>
    refine h.handleGate ((alive_iff s n).mpr (.inr (.inr hheld))) ⟨rfl, rfl, rfl, rfl, fun m hm => ?_, fun hown => by cases hown⟩
    rcases (alive_iff _ m).mp hm with hholders | hgate | hself
    · exact (alive_iff s m).mpr (.inl hholders)
    · exact (alive_iff s m).mpr (.inr (.inl hgate))
    · cases hself

theorem Single.closeGate (h : s.Single) : s.closeGate.Single := by
  unfold Channel.closeGate
  split
  · exact h
  · next n hgate =>
    refine h.handleGate ((alive_iff s n).mpr (.inr (.inl hgate))) ⟨rfl, rfl, rfl, rfl, fun m hm => ?_, fun hown => hown⟩
    rcases (alive_iff _ m).mp hm with hholders | hself | hheld
    · exact (alive_iff s m).mpr (.inl hholders)
    · cases hself
    · exact (alive_iff s m).mpr (.inr (.inr hheld))

/-- A handler copies a reference, or drops one that it has. -/
theorem alive_update {count m : ℕ} (hn : s.alive n = true)
    (hm : ({ s with holders := Function.update s.holders n count } : Channel).alive m = true) :
    s.alive m = true := by
  by_cases hmn : m = n
  · rw [hmn]
    exact hn
  · rcases (alive_iff _ m).mp hm with hholders | hgate | hheld
    · dsimp only at hholders
      rw [Function.update_of_ne hmn] at hholders
      exact (alive_iff s m).mpr (.inl hholders)
    · exact (alive_iff s m).mpr (.inr (.inl hgate))
    · exact (alive_iff s m).mpr (.inr (.inr hheld))

theorem fewer_update (hn : s.alive n = true) (count : ℕ) :
    Fewer s { s with holders := Function.update s.holders n count } :=
  ⟨rfl, rfl, rfl, rfl, fun _ hm => alive_update hn hm, fun hown => hown⟩

/-- A pause during a dispatch refers to its gate. -/
theorem Single.pause (h : s.Single) (hgate : s.gate = some n) : s.pause.Single := by
  unfold Channel.pause
  dsimp only
  split
  · exact h.fewer ⟨rfl, rfl, rfl, rfl, fun _ hm => hm, fun hown => hown⟩
  · split
    · next k hk =>
      refine h.fewer ⟨rfl, rfl, rfl, rfl, fun m hm => ?_, fun hown => by cases hown⟩
      rcases (alive_iff _ m).mp hm with hholders | hg | hheld
      · exact (alive_iff s m).mpr (.inl hholders)
      · exact (alive_iff s m).mpr (.inr (.inl hg))
      · cases hheld
        exact (alive_iff s k).mpr (.inr (.inl hk))
    · next hnone =>
      rw [show s.gate = none from hnone] at hgate
      cases hgate

/-- A read is armed in place of that which was to be. -/
theorem Single.receive (h : s.Single) (hidle : s.stopped = false → s.reading = false →
    s.reads + s.rearms = 0 ∧ ∀ n, s.alive n = false) : s.receive.Single := by
  unfold Channel.receive
  split
  · exact h
  · next hrun =>
    simp only [Bool.or_eq_true, not_or, Bool.not_eq_true] at hrun
    obtain ⟨hzero, hdead⟩ := hidle hrun.1 hrun.2
    refine single_of_dead h.http h.unparted ?_ hdead h.held
    show s.reads + 1 + s.rearms ≤ 1
    omega

theorem Single.stop (h : s.Single) (stranded : Bool) : (s.stop stranded).Single := by
  unfold Channel.stop Channel.finishStop
  dsimp only
  split
  · exact h.fewer ⟨rfl, rfl, rfl, rfl, fun _ hm => hm, fun hown => hown⟩
  · split
    · exact h.fewer ⟨rfl, rfl, rfl, rfl, fun _ hm => hm, fun hown => hown⟩
    · exact h.fewer ⟨rfl, rfl, rfl, rfl, fun _ hm => hm, fun hown => hown⟩

/-- The channel is resumed at first, or behind its pause. -/
theorem Single.resume (h : s.Single) (hi : s.Inv) (hdue : s.due = true) : s.resume.Single := by
  unfold Channel.resume
  dsimp only
  have hsame : ({ s with due := false, begun := true, paused := false } : Channel).Single :=
    h.fewer ⟨rfl, rfl, rfl, rfl, fun _ hm => hm, fun hown => hown⟩
  split
  · exact hsame.release
  · next hheld =>
    refine hsame.receive fun hstopped _ => ?_
    have hfresh : s.begun = false := by
      rcases hi.due hdue with hbegun | hstop | hsome
      · exact hbegun
      · rw [show s.stopped = false from hstopped] at hstop
        cases hstop
      · rw [show s.held = none from hheld] at hsome
        cases hsome
    obtain ⟨hreads, hrearms, -, hmessages, -⟩ := hi.fresh hfresh
    refine ⟨?_, fun m => ?_⟩
    · show s.reads + s.rearms = 0
      omega
    · by_contra halive
      rcases (alive_iff s m).mp ((Bool.not_eq_false _).mp halive) with hholders | hgate | hhold
      · exact absurd (hi.holders m hholders) (by omega)
      · exact absurd (hi.gate m hgate) (by omega)
      · exact absurd (hi.held m hhold) (by omega)

/-- A read completes, of a message that then has the only gate. -/
theorem Single.received (h : s.Single) (failed : Bool) :
    (s.step (.received failed)).Single := by
  dsimp only [Channel.step]
  split
  · exact h
  · next hrun =>
    have hreads : 0 < s.reads := by grind
    have hdead : ∀ m, s.alive m = false := by
      intro m
      by_contra halive
      have := h.idle m ((Bool.not_eq_false _).mp halive)
      omega
    have hone := h.one
    have hdrop (reading : Bool) :
        ({ s with reads := s.reads - 1, reading := reading } : Channel).Single := by
      refine single_of_dead h.http h.unparted ?_ hdead h.held
      show s.reads - 1 + s.rearms ≤ 1
      omega
    unfold handleReceivePeer
    dsimp only
    split
    · exact hdrop s.reading
    · split
      · exact (hdrop s.reading).stop true
      · have hself : ∀ m, (openGate { s with reads := s.reads - 1, reading := false }).alive m = true →
            m = s.messages := by
          intro m hm
          rcases (alive_iff _ m).mp hm with hholders | hgate | hheld
          · exact absurd ((alive_iff s m).mpr (.inl hholders)) (by rw [hdead m]; simp)
          · cases hgate
            rfl
          · exact absurd ((alive_iff s m).mpr (.inr (.inr hheld))) (by rw [hdead m]; simp)
        exact {
          http := h.http
          unparted := h.unparted
          one := (hdrop false).one
          idle := fun m hm => by
            show s.reads - 1 = 0 ∧ s.rearms = 0
            omega
          same := fun m k hm hk => (hself m hm).trans (hself k hk).symm
          held := h.held }

/-- What the channel of a peer does, but for a pause or a resume. -/
def Event.Unpaused : Event → Prop
  | .received _ | .take _ | .dispatched _ | .release _ | .stop _ | .rearm | .stopping => True
  | _ => False

theorem Single.step (h : s.Single) {e : Event} (he : e.Unpaused) : (s.step e).Single := by
  cases e with
  | received failed => exact h.received failed
  | take n =>
    dsimp only [Channel.step]
    split
    · next hn =>
      refine h.fewer (fewer_update ((alive_iff s n).mpr ?_) _)
      rcases hn with hgate | hholders
      · exact .inr (.inl hgate)
      · exact .inl hholders
    · exact h
  | dispatched failed =>
    dsimp only [Channel.step]
    split
    · unfold Channel.dispatched
      split
      · exact h.closeGate.stop true
      · exact h.closeGate
    · exact h
  | release n =>
    dsimp only [Channel.step]
    split
    · exact h
    · next hn =>
      have halive := (alive_iff s n).mpr (.inl hn)
      exact h.handleGate halive (fewer_update halive _)
  | stop stranded => exact h.stop stranded
  | rearm =>
    dsimp only [Channel.step]
    split
    · exact h
    · next hrun =>
      rw [not_or] at hrun
      have hone := h.one
      have hdead : ∀ m, s.alive m = false := by
        intro m
        by_contra halive
        exact hrun.1 (h.idle m ((Bool.not_eq_false _).mp halive)).2
      have hzero : s.reads + (s.rearms - 1) = 0 := by omega
      refine Single.receive ?_ fun _ _ => ⟨hzero, hdead⟩
      exact single_of_dead h.http h.unparted (Nat.le_trans (Nat.le_of_eq hzero) (Nat.zero_le 1)) hdead h.held
  | stopping =>
    dsimp only [Channel.step]
    split
    · exact h
    · have hsame : ({ s with stoppings := s.stoppings - 1 } : Channel).Single :=
        h.fewer ⟨rfl, rfl, rfl, rfl, fun _ hm => hm, fun hown => hown⟩
      exact hsame.release
  | receivedHttp r => exact he.elim
  | pause => exact he.elim
  | resume => exact he.elim
  | closed => exact he.elim
  | rejected => exact he.elim
  | part parted => exact he.elim

/-- Its reads are in order. -/
theorem Single.clear (h : s.Single) {e : Event} (he : e.Unpaused) : Clear s e := by
  cases e with
  | received failed => exact fun _ _ => h.unparted
  | rearm =>
    intro hrearms _ _ _ n _
    by_contra halive
    exact hrearms (h.idle n ((Bool.not_eq_false _).mp halive)).2
  | stop stranded =>
    cases stranded with
    | true => exact fun _ => h.unparted
    | false => trivial
  | dispatched failed =>
    cases failed with
    | true => exact fun _ => h.unparted
    | false => trivial
  | take n => trivial
  | release n => trivial
  | stopping => trivial
  | receivedHttp r => exact he.elim
  | pause => exact he.elim
  | resume => exact he.elim
  | closed => exact he.elim
  | rejected => exact he.elim
  | part parted => exact he.elim

/-! ### What an event leaves -/

/-- The start, the pause and the hold are left, and a stop that is made is to be notified. -/
structure Kept (s s' : Channel) : Prop where
  begun : s'.begun = s.begun
  due : s'.due = s.due
  paused : s'.paused = s.paused
  held : s'.held = s.held
  stopped : s.stopped = true → s'.stopped = true
  stoppings : s'.stopped = true → s'.stoppings = 0 → s.stopped = true ∧ s.stoppings = 0

theorem Kept.refl (s : Channel) : Kept s s :=
  ⟨rfl, rfl, rfl, rfl, id, fun hstopped hzero => ⟨hstopped, hzero⟩⟩

theorem Kept.trans {s'' : Channel} (h : Kept s s') (h' : Kept s' s'') : Kept s s'' where
  begun := h'.begun.trans h.begun
  due := h'.due.trans h.due
  paused := h'.paused.trans h.paused
  held := h'.held.trans h.held
  stopped hstopped := h'.stopped (h.stopped hstopped)
  stoppings hstopped hzero := h.stoppings (h'.stoppings hstopped hzero).1 (h'.stoppings hstopped hzero).2

theorem kept_handleGate (s : Channel) (n : ℕ) : Kept s (s.handleGate n) := by
  unfold Channel.handleGate
  split
  · exact Kept.refl s
  · exact ⟨rfl, rfl, rfl, rfl, id, fun hstopped hzero => ⟨hstopped, hzero⟩⟩

theorem kept_receive (s : Channel) : Kept s s.receive := by
  unfold Channel.receive
  split
  · exact Kept.refl s
  · exact ⟨rfl, rfl, rfl, rfl, id, fun hstopped hzero => ⟨hstopped, hzero⟩⟩

theorem kept_closeGate (s : Channel) : Kept s s.closeGate := by
  unfold Channel.closeGate
  split
  · exact Kept.refl s
  · next n hgate =>
    have hclose : Kept s { s with gate := none } :=
      ⟨rfl, rfl, rfl, rfl, id, fun hstopped hzero => ⟨hstopped, hzero⟩⟩
    exact hclose.trans (kept_handleGate _ n)

/-- A stop that finds no batch response open. -/
theorem kept_stop (h : s.parted = false) (stranded : Bool) : Kept s (s.stop stranded) := by
  unfold Channel.stop Channel.finishStop
  dsimp only
  split
  · exact ⟨rfl, rfl, rfl, rfl, id, fun hstopped hzero => ⟨hstopped, hzero⟩⟩
  · rw [h, Bool.and_false, if_neg Bool.false_ne_true]
    exact ⟨rfl, rfl, rfl, rfl, fun _ => rfl, fun _ hzero => absurd hzero (Nat.succ_ne_zero _)⟩

theorem parted_closeGate (s : Channel) : s.closeGate.parted = s.parted := by
  unfold Channel.closeGate Channel.handleGate
  split
  · rfl
  · split <;> rfl

theorem kept_received (h : s.parted = false) (failed : Bool) : Kept s (s.step (.received failed)) := by
  dsimp only [Channel.step]
  split
  · exact Kept.refl s
  · have hread : Kept s { s with reads := s.reads - 1 } :=
      ⟨rfl, rfl, rfl, rfl, id, fun hstopped hzero => ⟨hstopped, hzero⟩⟩
    refine hread.trans ?_
    unfold Channel.handleReceivePeer
    split
    · exact Kept.refl _
    · split
      · exact kept_stop (show ({ s with reads := s.reads - 1 } : Channel).parted = false from h) true
      · exact ⟨rfl, rfl, rfl, rfl, id, fun hstopped hzero => ⟨hstopped, hzero⟩⟩

theorem kept_dispatched (h : s.parted = false) (failed : Bool) :
    Kept s (s.step (.dispatched failed)) := by
  dsimp only [Channel.step]
  split
  · unfold Channel.dispatched
    split
    · exact (kept_closeGate s).trans (kept_stop ((parted_closeGate s).trans h) true)
    · exact kept_closeGate s
  · exact Kept.refl s

theorem kept_take (s : Channel) (n : ℕ) : Kept s (s.step (.take n)) := by
  dsimp only [Channel.step]
  split
  · exact ⟨rfl, rfl, rfl, rfl, id, fun hstopped hzero => ⟨hstopped, hzero⟩⟩
  · exact Kept.refl s

theorem kept_drop (s : Channel) (n : ℕ) : Kept s (s.step (.release n)) := by
  dsimp only [Channel.step]
  split
  · exact Kept.refl s
  · refine Kept.trans ?_ (kept_handleGate _ n)
    exact ⟨rfl, rfl, rfl, rfl, id, fun hstopped hzero => ⟨hstopped, hzero⟩⟩

theorem kept_rearm (s : Channel) : Kept s (s.step .rearm) := by
  dsimp only [Channel.step]
  split
  · exact Kept.refl s
  · refine Kept.trans ?_ (kept_receive _)
    exact ⟨rfl, rfl, rfl, rfl, id, fun hstopped hzero => ⟨hstopped, hzero⟩⟩

@[simp] theorem gate_handleGate (s : Channel) (n : ℕ) : (s.handleGate n).gate = s.gate := by
  unfold Channel.handleGate
  split <;> rfl

@[simp] theorem gate_receive (s : Channel) : s.receive.gate = s.gate := by
  unfold Channel.receive
  split <;> rfl

@[simp] theorem gate_stop (s : Channel) (stranded : Bool) : (s.stop stranded).gate = s.gate := by
  unfold Channel.stop Channel.finishStop
  dsimp only
  split
  · rfl
  · split <;> rfl

@[simp] theorem gate_release (s : Channel) : s.release.gate = s.gate := by
  unfold Channel.release
  split
  · rfl
  · rfl
  · rw [gate_handleGate]

@[simp] theorem gate_closeGate (s : Channel) : s.closeGate.gate = none := by
  unfold Channel.closeGate
  split
  · assumption
  · rw [gate_handleGate]

@[simp] theorem gate_take (s : Channel) (n : ℕ) : (s.step (.take n)).gate = s.gate := by
  dsimp only [Channel.step]
  split <;> rfl

@[simp] theorem gate_drop (s : Channel) (n : ℕ) : (s.step (.release n)).gate = s.gate := by
  dsimp only [Channel.step]
  split
  · rfl
  · rw [gate_handleGate]

@[simp] theorem gate_rearm (s : Channel) : (s.step .rearm).gate = s.gate := by
  dsimp only [Channel.step]
  split
  · rfl
  · rw [gate_receive]

@[simp] theorem gate_failed (s : Channel) : (s.step (.received true)).gate = s.gate := by
  dsimp only [Channel.step]
  split
  · rfl
  · unfold Channel.handleReceivePeer
    split
    · rfl
    · rw [if_pos rfl, gate_stop]

@[simp] theorem gate_dispatched (s : Channel) (failed : Bool) : (s.step (.dispatched failed)).gate = none := by
  dsimp only [Channel.step]
  split
  · unfold Channel.dispatched
    split
    · rw [gate_stop, gate_closeGate]
    · rw [gate_closeGate]
  · next hnone => simpa using hnone

/-- A read that is outstanding opens the gate of a message, where the channel goes on. -/
theorem gate_received (hhttp : s.http = false) (hreads : s.reads ≠ 0) (hgate : s.gate = none)
    (hstopped : s.stopped = false) : (s.step (.received false)).gate = some s.messages := by
  dsimp only [Channel.step]
  rw [if_neg (by simp [hhttp, hreads, hgate])]
  unfold Channel.handleReceivePeer
  rw [if_neg (by simp [hstopped]), if_neg Bool.false_ne_true]
  rfl

theorem gate_unread (hidle : s.reads = 0 ∨ s.gate.isSome ∨ s.stopped = true) :
    (s.step (.received false)).gate = s.gate := by
  dsimp only [Channel.step]
  split
  · rfl
  · next hrun =>
    unfold Channel.handleReceivePeer
    rw [if_pos (by grind)]

theorem gate_resume (s : Channel) : s.resume.gate = s.gate := by
  unfold Channel.resume
  dsimp only
  split
  · rw [gate_release]
  · rw [gate_receive]

/-- A pause during a dispatch holds the channel, or finds it stopped. -/
theorem pause_eq (hgate : s.gate = some n) : s.pause = { s with
    due := true, paused := true, held := if s.stopped then s.held else some (.message n) } := by
  unfold Channel.pause
  dsimp only
  rw [hgate]
  split <;> simp_all

theorem resume_eq (s : Channel) : s.resume.begun = true ∧ s.resume.due = false ∧ s.resume.paused = false ∧
    s.resume.stopped = s.stopped ∧ s.resume.stoppings = s.stoppings := by
  unfold Channel.resume Channel.release Channel.handleGate Channel.receive
  grind

/-- What is notified of a stop is that the channel is held no more. -/
theorem stopping_eq (s : Channel) : (s.step .stopping).begun = s.begun ∧ (s.step .stopping).due = s.due ∧
    (s.step .stopping).paused = s.paused ∧ (s.step .stopping).stopped = s.stopped ∧
    (s.step .stopping).gate = s.gate := by
  dsimp only [Channel.step]
  unfold Channel.release Channel.handleGate
  grind

end

end Channel

end BitcoinNetwork.Channels
