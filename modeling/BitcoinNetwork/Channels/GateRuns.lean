import BitcoinNetwork.Channels.Gate

/-!
# What a gate holds back (channels/channel.cpp, channel_peer.cpp, channel_http.cpp)

Behind its start a channel has a read outstanding, a read to arm, or a gate that something
references and that arms one where it is released. A read is armed behind the gates of all
messages, but where a hold of its own is released while one of these is referenced.
-/

namespace BitcoinNetwork.Channels
open Async

/-- A request that `handle_receive` stops the channel for. -/
def Request.stops (r : Request) : Bool :=
  match r.ec with
  | .upgrade => (r.authorized || r.inBand) && !r.accepted
  | .failed => !r.answered || r.framed
  | .success => (r.framed || r.authorized) && r.refused

namespace Channel

theorem alive_iff (s : Channel) (n : ℕ) : s.alive n = true ↔
    s.holders n ≠ 0 ∨ s.gate = some n ∨ s.held = some (.message n) := by
  unfold alive
  simp [or_assoc]

/-- The event dispatches a message. -/
def Dispatches (s : Channel) (e : Event) : Prop := (s.step e).messages ≠ s.messages

/-- One read is outstanding at most. No message is dispatched while something holds the gate
of another, behind a pause that was made during a dispatch and is yet to be resumed, or once
the channel is stopped. And where the channel was started, is not stopped, held, rejecting or
in a dispatch, and no gate is held, a read is outstanding or is to be armed. -/
structure Orderly (s : Channel) : Prop where
  once : s.reads ≤ 1
  gated : ∀ e, Dispatches s e → ∀ n, s.holders n = 0
  paused : ∀ e, Dispatches s e → s.paused = false
  stopped : ∀ e, Dispatches s e → s.stopCalled = false
  running : s.begun = true → s.stopped = false → s.rejecting = false → s.held = none → s.gate = none →
    (∀ n, s.holders n = 0) → 0 < s.reads ∨ 0 < s.rearms

/-- A read is armed only where the gate of no message is referenced, and the channel is
stopped on its strand only where no batch response is open. -/
def Clear (s : Channel) : Event → Prop
  | .rearm => s.rearms ≠ 0 → s.gate = none → s.stopped = false → s.reading = false →
      ∀ n < s.messages, s.alive n = false
  | .stop true | .dispatched true | .rejected => s.stopped = false → s.parted = false
  | .received failed => failed = true → s.stopped = false → s.parted = false
  | .receivedHttp r => r.stops = true → s.stopped = false → s.parted = false
  | _ => True

/-! ### The invariant -/

/-- What is outstanding, what is referenced and what is to run. -/
structure Inv (s : Channel) : Prop where
  closed : s.closings = 0
  called : s.stopCalled = true → s.stopped = true
  once : s.reads ≤ 1
  outstanding : 0 < s.reads → s.reading = true
  reading : s.reading = true → s.stopped = true ∨ s.rejecting = true ∨ 0 < s.reads
  idle : 0 < s.reads → (∀ n, s.holders n = 0) ∧ s.gate = none ∧ ∀ n, s.held ≠ some (.message n)
  holders : ∀ n, s.holders n ≠ 0 → n < s.messages
  gate : ∀ n, s.gate = some n → n < s.messages
  held : ∀ n, s.held = some (.message n) → n < s.messages
  fresh : s.begun = false →
    s.reads = 0 ∧ s.rearms = 0 ∧ s.held = none ∧ s.messages = 0 ∧ s.due = true
  due : s.due = true → s.begun = false ∨ s.stopped = true ∨ s.held.isSome = true
  paused : s.paused = true → s.stopped = true ∨ ∃ n, s.held = some (.message n)
  running : s.begun = true → s.stopped = true ∨ s.rejecting = true ∨ 0 < s.reads ∨ 0 < s.rearms ∨
    s.held.isSome = true ∨ s.gate.isSome = true ∨ ∃ n, s.holders n ≠ 0
  stopping : 0 < s.stoppings → s.stopped = true

theorem create_inv (http : Bool) : Inv { http := http } where
  closed := rfl
  called h := by cases h
  once := Nat.zero_le _
  outstanding h := absurd h (Nat.lt_irrefl _)
  reading h := by cases h
  idle h := absurd h (Nat.lt_irrefl _)
  holders _ h := absurd rfl h
  gate _ h := by cases h
  held _ h := by cases h
  fresh _ := ⟨rfl, rfl, rfl, rfl, rfl⟩
  due _ := .inl rfl
  paused h := by cases h
  running h := by cases h
  stopping h := absurd h (Nat.lt_irrefl _)

section
variable {s : Channel}

/-- No gate is referenced where that of no message is. -/
theorem Inv.free (h : s.Inv) (hclear : ∀ n < s.messages, s.alive n = false) :
    (∀ n, s.holders n = 0) ∧ s.gate = none ∧ ∀ n, s.held ≠ some (.message n) := by
  have hdead : ∀ n, ¬(s.holders n ≠ 0 ∨ s.gate = some n ∨ s.held = some (.message n)) := by
    intro n halive
    have hlt : n < s.messages := by
      rcases halive with hholders | hgate | hheld
      · exact h.holders n hholders
      · exact h.gate n hgate
      · exact h.held n hheld
    have hdead := hclear n hlt
    rw [(alive_iff s n).mpr halive] at hdead
    cases hdead
  refine ⟨fun n => ?_, ?_, fun n hheld => hdead n (.inr (.inr hheld))⟩
  · by_contra hholders
    exact hdead n (.inl hholders)
  · cases hgate : s.gate with
    | none => rfl
    | some n => exact absurd (.inr (.inl hgate)) (hdead n)

/-! ### What the functions of the channel keep -/

theorem Inv.begun (h : s.Inv) (hdue : s.due = false) : s.begun = true := by
  by_contra hbegun
  have := (h.fresh ((Bool.not_eq_true _).mp hbegun)).2.2.2.2
  rw [hdue] at this
  cases this

/-- A pause has the gate of the dispatch, or one of its own, for the resume to release. -/
theorem Inv.pause (h : s.Inv) (hdue : s.due = false) : s.pause.Inv := by
  have hbegun := h.begun hdue
  have hfresh {P : Prop} (hfalse : s.begun = false) : P := by
    rw [hbegun] at hfalse
    cases hfalse
  unfold Channel.pause
  dsimp only
  split
  · next hstopped =>
    exact { h with
      fresh := hfresh
      due := fun _ => .inr (.inl hstopped)
      paused := fun _ => .inl hstopped }
  · split
    · next n hgate =>
      exact { h with
        idle := fun hreads => by
          rw [(h.idle hreads).2.1] at hgate
          cases hgate
        held := fun m hheld => by
          cases hheld
          exact h.gate n hgate
        fresh := hfresh
        due := fun _ => .inr (.inr rfl)
        paused := fun _ => .inr ⟨n, rfl⟩
        running := fun _ => .inr (.inr (.inr (.inr (.inl rfl)))) }
    · next hgate =>
      exact { h with
        idle := fun hreads => ⟨(h.idle hreads).1, (h.idle hreads).2.1, fun n hheld => by cases hheld⟩
        held := fun n hheld => by cases hheld
        fresh := hfresh
        due := fun _ => .inr (.inr rfl)
        paused := fun hpaused => by
          rw [hgate] at hpaused
          cases hpaused
        running := fun _ => .inr (.inr (.inr (.inr (.inl rfl)))) }

/-- What held the channel is gone, where a read is armed or the gate is still referenced. -/
theorem Inv.unheld (h : s.Inv) (hdue : s.due = false ∨ s.stopped = true)
    (hpaused : s.paused = false ∨ s.stopped = true) (rearms : ℕ) (hbegun : s.begun = true)
    (hrearms : s.rearms ≤ rearms)
    (hrunning : s.held.isSome = true → 0 < rearms ∨ s.gate.isSome = true ∨ ∃ n, s.holders n ≠ 0) :
    { s with held := none, rearms := rearms }.Inv :=
  { h with
    idle := fun hreads => ⟨(h.idle hreads).1, (h.idle hreads).2.1, fun n hheld => by cases hheld⟩
    held := fun n hheld => by cases hheld
    fresh := fun hfalse => by
      rw [hbegun] at hfalse
      cases hfalse
    due := fun htrue => .inr (.inl (hdue.resolve_left (by simp [show s.due = true from htrue])))
    paused := fun htrue => .inl (hpaused.resolve_left (by simp [show s.paused = true from htrue]))
    running := fun _ => by
      rcases h.running hbegun with hs | hr | hreads | hre | hh | hg | hn
      · exact .inl hs
      · exact .inr (.inl hr)
      · exact .inr (.inr (.inl hreads))
      · exact .inr (.inr (.inr (.inl (Nat.lt_of_lt_of_le hre hrearms))))
      · rcases hrunning hh with hre | hg | hn
        · exact .inr (.inr (.inr (.inl hre)))
        · exact .inr (.inr (.inr (.inr (.inr (.inl hg)))))
        · exact .inr (.inr (.inr (.inr (.inr (.inr hn)))))
      · exact .inr (.inr (.inr (.inr (.inr (.inl hg)))))
      · exact .inr (.inr (.inr (.inr (.inr (.inr hn))))) }

/-- What held the channel is released, by the resume or once the channel is stopped. -/
theorem Inv.release (h : s.Inv) (hdue : s.due = false ∨ s.stopped = true)
    (hpaused : s.paused = false ∨ s.stopped = true) : s.release.Inv := by
  have hbegun : s.held.isSome = true → s.begun = true := by
    intro hheld
    by_contra hfalse
    rw [(h.fresh ((Bool.not_eq_true _).mp hfalse)).2.2.1] at hheld
    cases hheld
  unfold Channel.release Channel.handleGate
  split
  · exact h
  · next hheld =>
    exact h.unheld hdue hpaused (s.rearms + 1) (hbegun (by rw [hheld]; rfl)) (Nat.le_succ _)
      fun _ => .inl (Nat.succ_pos _)
  · next n hheld =>
    have hbegun := hbegun (by rw [hheld]; rfl)
    split
    · next halive =>
      refine h.unheld hdue hpaused s.rearms hbegun (Nat.le_refl _) fun _ => .inr ?_
      rcases (alive_iff _ n).mp halive with hholders | hgate | hself
      · exact .inr ⟨n, hholders⟩
      · exact .inl (by rw [show s.gate = some n from hgate]; rfl)
      · cases hself
    · exact h.unheld hdue hpaused (s.rearms + 1) hbegun (Nat.le_succ _) fun _ => .inl (Nat.succ_pos _)

/-- A read that is to be armed is, where no gate of a message is referenced. -/
theorem Inv.rearm (h : s.Inv) (hrearms : s.rearms ≠ 0)
    (hclear : s.stopped = false → s.reading = false → ∀ n < s.messages, s.alive n = false) :
    { s with rearms := s.rearms - 1 }.receive.Inv := by
  unfold Channel.receive
  dsimp only
  split
  · next hidle =>
    rw [Bool.or_eq_true] at hidle
    obtain ⟨h₁, h₂, h₃, h₄, h₅, h₆, h₇, h₈, h₉, h₁₀, h₁₁, h₁₂, h₁₃, h₁₄⟩ := h
    constructor <;> grind
  · next hrun =>
    simp only [Bool.or_eq_true, not_or, Bool.not_eq_true] at hrun
    have hfree := h.free (hclear hrun.1 hrun.2)
    obtain ⟨h₁, h₂, h₃, h₄, h₅, h₆, h₇, h₈, h₉, h₁₀, h₁₁, h₁₂, h₁₃, h₁₄⟩ := h
    constructor <;> grind

theorem Inv.resume (h : s.Inv) (hdue : s.due = true) : s.resume.Inv := by
  unfold Channel.resume
  dsimp only
  split
  · next hold hheld =>
    refine Inv.release ?_ (.inl rfl) (.inl rfl)
    obtain ⟨h₁, h₂, h₃, h₄, h₅, h₆, h₇, h₈, h₉, h₁₀, h₁₁, h₁₂, h₁₃, h₁₄⟩ := h
    constructor <;> grind
  · next hheld =>
    -- Nothing is held of a channel that is resumed for the first time, or is stopped.
    have hfresh : s.begun = false → s.gate = none := fun hbegun =>
      (h.free fun n hn => by rw [(h.fresh hbegun).2.2.2.1] at hn; cases hn).2.1
    obtain ⟨h₁, h₂, h₃, h₄, h₅, h₆, h₇, h₈, h₉, h₁₀, h₁₁, h₁₂, h₁₃, h₁₄⟩ := h
    unfold Channel.receive
    split
    · constructor <;> grind
    · constructor <;> grind

/-- A stop on the strand that finds no batch response open, and one that is not on it. -/
theorem Inv.stop (h : s.Inv) {stranded : Bool}
    (hclear : stranded = true → s.stopped = false → s.parted = false) : (s.stop stranded).Inv := by
  unfold Channel.stop Channel.finishStop
  obtain ⟨h₁, h₂, h₃, h₄, h₅, h₆, h₇, h₈, h₉, h₁₀, h₁₁, h₁₂, h₁₃, h₁₄⟩ := h
  dsimp only
  split
  · constructor <;> grind
  · split
    · next hstopped hparted =>
      simp only [Bool.and_eq_true] at hparted
      have := hclear hparted.1 ((Bool.not_eq_true _).mp hstopped)
      rw [hparted.2] at this
      cases this
    · constructor <;> grind

theorem Inv.closeGate (h : s.Inv) (hreads : s.reads = 0) : s.closeGate.Inv := by
  unfold Channel.closeGate Channel.handleGate
  obtain ⟨h₁, h₂, h₃, h₄, h₅, h₆, h₇, h₈, h₉, h₁₀, h₁₁, h₁₂, h₁₃, h₁₄⟩ := h
  split
  · constructor <;> assumption
  · split
    · constructor <;> grind [alive_iff]
    · constructor <;> grind [alive_iff]

/-! ### A read that completes -/

/-- The read was the one that is outstanding, with which no gate is referenced. -/
theorem Inv.aborted (h : s.Inv) (hstopped : s.stopped = true) :
    { s with reads := s.reads - 1 }.Inv := by
  obtain ⟨h₁, h₂, h₃, h₄, h₅, h₆, h₇, h₈, h₉, h₁₀, h₁₁, h₁₂, h₁₃, h₁₄⟩ := h
  constructor <;> grind

theorem Inv.fail (h : s.Inv) (hreads : 0 < s.reads) (hstopped : s.stopped = false) {reading : Bool}
    (hparted : s.parted = false) : ({ s with reads := s.reads - 1, reading := reading }.stop true).Inv := by
  obtain ⟨h₁, h₂, h₃, h₄, h₅, h₆, h₇, h₈, h₉, h₁₀, h₁₁, h₁₂, h₁₃, h₁₄⟩ := h
  unfold Channel.stop Channel.finishStop
  dsimp only
  rw [if_neg (by rw [hstopped]; exact Bool.false_ne_true), hparted, Bool.and_false, if_neg Bool.false_ne_true]
  constructor <;> grind

theorem Inv.reject (h : s.Inv) (hreads : 0 < s.reads) (reading : Bool) :
    { s with reads := s.reads - 1, reading := reading, rejecting := true }.Inv := by
  obtain ⟨h₁, h₂, h₃, h₄, h₅, h₆, h₇, h₈, h₉, h₁₀, h₁₁, h₁₂, h₁₃, h₁₄⟩ := h
  constructor <;> grind

theorem Inv.upgrade (h : s.Inv) (hreads : 0 < s.reads) (hstopped : s.stopped = false) :
    { s with reads := s.reads - 1, reading := false }.receive.Inv := by
  obtain ⟨h₁, h₂, h₃, h₄, h₅, h₆, h₇, h₈, h₉, h₁₀, h₁₁, h₁₂, h₁₃, h₁₄⟩ := h
  unfold Channel.receive
  dsimp only
  rw [if_neg (by rw [hstopped]; exact Bool.false_ne_true)]
  constructor <;> grind

/-- The gate of the dispatch takes the place of the read. -/
theorem Inv.openGate (h : s.Inv) (hreads : 0 < s.reads) :
    { s with reads := s.reads - 1, reading := false }.openGate.Inv := by
  obtain ⟨h₁, h₂, h₃, h₄, h₅, h₆, h₇, h₈, h₉, h₁₀, h₁₁, h₁₂, h₁₃, h₁₄⟩ := h
  unfold Channel.openGate
  constructor <;> grind

/-- `handle_receive` of a peer. -/
theorem Inv.handleReceivePeer (h : s.Inv) (hreads : 0 < s.reads) {failed : Bool}
    (hclear : failed = true → s.stopped = false → s.parted = false) :
    ({ s with reads := s.reads - 1 }.handleReceivePeer failed).Inv := by
  unfold Channel.handleReceivePeer
  dsimp only
  split
  · next hstopped => exact h.aborted hstopped
  · next hstopped =>
    rw [Bool.not_eq_true] at hstopped
    split
    · next hfailed => exact h.fail hreads hstopped (hclear hfailed hstopped)
    · exact h.openGate hreads

/-- `handle_receive` of http. -/
theorem Inv.handleReceiveHttp (h : s.Inv) (hreads : 0 < s.reads) {r : Request}
    (hclear : r.stops = true → s.stopped = false → s.parted = false) :
    ({ s with reads := s.reads - 1 }.handleReceiveHttp r).Inv := by
  unfold Channel.handleReceiveHttp
  dsimp only
  split
  · next hstopped => exact h.aborted hstopped
  · next hstopped =>
    rw [Bool.not_eq_true] at hstopped
    unfold Request.stops at hclear
    split
    · next hcode =>
      rw [hcode] at hclear
      split
      · exact h.reject hreads false
      · split
        · next hinBand haccepted => exact h.fail hreads hstopped (hclear (by grind) hstopped)
        · exact h.upgrade hreads hstopped
    · next hcode =>
      rw [hcode] at hclear
      split
      · exact h.reject hreads s.reading
      · next hanswered => exact h.fail hreads hstopped (hclear (by grind) hstopped)
    · next hcode =>
      rw [hcode] at hclear
      unfold Channel.dispatch
      dsimp only
      split
      · exact h.reject hreads false
      · split
        · next hauthorized hrefused => exact h.fail hreads hstopped (hclear (by grind) hstopped)
        · exact h.openGate hreads

/-! ### Steps -/

theorem Inv.dispatched (h : s.Inv) (hgate : s.gate.isSome = true) {failed : Bool}
    (hclear : failed = true → s.stopped = false → s.parted = false) : (s.dispatched failed).Inv := by
  have hreads : s.reads = 0 := by
    by_contra hne
    rw [(h.idle (Nat.pos_of_ne_zero hne)).2.1] at hgate
    cases hgate
  unfold Channel.dispatched
  split
  · next hfailed =>
    refine (h.closeGate hreads).stop fun _ hstopped => ?_
    have hsame : s.closeGate.stopped = s.stopped ∧ s.closeGate.parted = s.parted := by
      unfold Channel.closeGate Channel.handleGate
      split
      · exact ⟨rfl, rfl⟩
      · split <;> exact ⟨rfl, rfl⟩
    rw [hsame.1] at hstopped
    rw [hsame.2]
    exact hclear hfailed hstopped
  · exact h.closeGate hreads

theorem Inv.take (h : s.Inv) {n : ℕ} (hn : s.gate = some n ∨ s.holders n ≠ 0) :
    { s with holders := Function.update s.holders n (s.holders n + 1) }.Inv := by
  have hheld : ∀ m, Function.update s.holders n (s.holders n + 1) m ≠ 0 → m = n ∨ s.holders m ≠ 0 := by
    intro m hm
    by_cases hmn : m = n
    · exact .inl hmn
    · rw [Function.update_of_ne hmn] at hm
      exact .inr hm
  have hself : Function.update s.holders n (s.holders n + 1) n = s.holders n + 1 :=
    Function.update_self _ _ _
  obtain ⟨h₁, h₂, h₃, h₄, h₅, h₆, h₇, h₈, h₉, h₁₀, h₁₁, h₁₂, h₁₃, h₁₄⟩ := h
  constructor <;> grind

/-- The gate arms a read where the last reference to it is released. -/
theorem Inv.drop (h : s.Inv) {n : ℕ} (hn : s.holders n ≠ 0) :
    ({ s with holders := Function.update s.holders n (s.holders n - 1) }.handleGate n).Inv := by
  have hheld : ∀ m, Function.update s.holders n (s.holders n - 1) m ≠ 0 → s.holders m ≠ 0 := by
    intro m hm
    by_cases hmn : m = n
    · rw [hmn]
      exact hn
    · rwa [Function.update_of_ne hmn] at hm
  have hself : Function.update s.holders n (s.holders n - 1) n = s.holders n - 1 :=
    Function.update_self _ _ _
  obtain ⟨h₁, h₂, h₃, h₄, h₅, h₆, h₇, h₈, h₉, h₁₀, h₁₁, h₁₂, h₁₃, h₁₄⟩ := h
  unfold Channel.handleGate
  split
  · constructor <;> grind [alive_iff]
  · constructor <;> grind [alive_iff]

/-- A rejection was sent. -/
theorem Inv.rejected (h : s.Inv) (hclear : s.stopped = false → s.parted = false) :
    ({ s with rejecting := false }.stop true).Inv := by
  obtain ⟨h₁, h₂, h₃, h₄, h₅, h₆, h₇, h₈, h₉, h₁₀, h₁₁, h₁₂, h₁₃, h₁₄⟩ := h
  unfold Channel.stop Channel.finishStop
  dsimp only
  split
  · constructor <;> grind
  · next hstopped =>
    rw [hclear ((Bool.not_eq_true _).mp hstopped), Bool.and_false, if_neg Bool.false_ne_true]
    constructor <;> grind

theorem Inv.posted (h : s.Inv) (stoppings : ℕ) (hstopped : s.stopped = true) :
    { s with stoppings := stoppings }.Inv :=
  { h with stopping := fun _ => hstopped }

theorem step_inv (s : Channel) (e : Event) (h : s.Inv) (hclear : Clear s e) : (s.step e).Inv := by
  cases e with
  | received failed =>
    dsimp only [step]
    split
    · exact h
    · next hrun => exact h.handleReceivePeer (by grind) hclear
  | receivedHttp r =>
    dsimp only [step]
    split
    · exact h
    · next hrun => exact h.handleReceiveHttp (by grind) hclear
  | take n =>
    dsimp only [step]
    split
    · next hn => exact h.take hn
    · exact h
  | dispatched failed =>
    dsimp only [step]
    split
    · next hgate =>
      refine h.dispatched hgate fun hfailed => ?_
      subst hfailed
      exact hclear
    · exact h
  | release n =>
    dsimp only [step]
    split
    · exact h
    · next hn => exact h.drop hn
  | pause =>
    dsimp only [step]
    split
    · exact h
    · next hdue => exact h.pause ((Bool.not_eq_true _).mp hdue)
  | resume =>
    dsimp only [step]
    split
    · next hdue => exact h.resume hdue
    · exact h
  | stop stranded =>
    refine h.stop fun hstranded => ?_
    subst hstranded
    exact hclear
  | rearm =>
    dsimp only [step]
    split
    · exact h
    · next hrun =>
      rw [not_or] at hrun
      have hgate : s.gate = none := by simpa using hrun.2
      exact h.rearm hrun.1 (hclear hrun.1 hgate)
  | stopping =>
    dsimp only [step]
    split
    · exact h
    · next hrun =>
      have hstopped := h.stopping (by omega)
      exact (h.posted (s.stoppings - 1) hstopped).release (.inr hstopped) (.inr hstopped)
  | closed =>
    dsimp only [step]
    rw [if_pos (.inl h.closed)]
    exact h
  | rejected =>
    dsimp only [step]
    split
    · exact h
    · exact h.rejected hclear
  | part parted =>
    dsimp only [step]
    split
    · obtain ⟨h₁, h₂, h₃, h₄, h₅, h₆, h₇, h₈, h₉, h₁₀, h₁₁, h₁₂, h₁₃, h₁₄⟩ := h
      exact ⟨h₁, h₂, h₃, h₄, h₅, h₆, h₇, h₈, h₉, h₁₀, h₁₁, h₁₂, h₁₃, h₁₄⟩
    · exact h

/-! ### What is dispatched -/

@[simp] theorem messages_handleGate (s : Channel) (n : ℕ) : (s.handleGate n).messages = s.messages := by
  unfold handleGate
  split <;> rfl

@[simp] theorem messages_release (s : Channel) : s.release.messages = s.messages := by
  unfold release
  split
  · rfl
  · rfl
  · rw [messages_handleGate]

@[simp] theorem messages_stop (s : Channel) (stranded : Bool) :
    (s.stop stranded).messages = s.messages := by
  unfold stop finishStop
  dsimp only
  split
  · rfl
  · split <;> rfl

@[simp] theorem messages_receive (s : Channel) : s.receive.messages = s.messages := by
  unfold receive
  split <;> rfl

@[simp] theorem messages_closeGate (s : Channel) : s.closeGate.messages = s.messages := by
  unfold closeGate
  split
  · rfl
  · rw [messages_handleGate]

/-- A message is dispatched by a read alone, that was outstanding, on a channel that is not
stopped. -/
theorem Dispatches.reads {e : Event} (h : Dispatches s e) : 0 < s.reads ∧ s.stopped = false := by
  unfold Dispatches at h
  by_contra hnot
  refine h ?_
  have hidle : s.reads = 0 ∨ s.stopped = true := by grind
  cases e with
  | received failed =>
    dsimp only [step]
    split
    · rfl
    · next hrun =>
      have hstopped : s.stopped = true := by grind
      unfold handleReceivePeer
      dsimp only
      rw [if_pos hstopped]
  | receivedHttp r =>
    dsimp only [step]
    split
    · rfl
    · next hrun =>
      have hstopped : s.stopped = true := by grind
      unfold handleReceiveHttp
      dsimp only
      rw [if_pos hstopped]
  | take n =>
    dsimp only [step]
    split <;> rfl
  | dispatched failed =>
    dsimp only [step]
    split
    · unfold dispatched
      split
      · rw [messages_stop, messages_closeGate]
      · rw [messages_closeGate]
    · rfl
  | release n =>
    dsimp only [step]
    split
    · rfl
    · rw [messages_handleGate]
  | pause =>
    dsimp only [step]
    split
    · rfl
    · unfold pause
      dsimp only
      split
      · rfl
      · split <;> rfl
  | resume =>
    dsimp only [step]
    split
    · unfold resume
      dsimp only
      split
      · rw [messages_release]
      · rw [messages_receive]
    · rfl
  | stop stranded => exact messages_stop s stranded
  | rearm =>
    dsimp only [step]
    split
    · rfl
    · rw [messages_receive]
  | stopping =>
    dsimp only [step]
    split
    · rfl
    · rw [messages_release]
  | closed =>
    dsimp only [step]
    split <;> rfl
  | rejected =>
    dsimp only [step]
    split
    · rfl
    · rw [messages_stop]
  | part parted =>
    dsimp only [step]
    split <;> rfl

theorem Inv.orderly (h : s.Inv) : Orderly s where
  once := h.once
  gated e he := (h.idle he.reads.1).1
  paused e he := by
    obtain ⟨hreads, hstopped⟩ := he.reads
    by_contra hpaused
    rcases h.paused ((Bool.not_eq_false _).mp hpaused) with hstop | ⟨n, hheld⟩
    · rw [hstopped] at hstop
      cases hstop
    · exact (h.idle hreads).2.2 n hheld
  stopped e he := by
    by_contra hcalled
    have hstop := h.called ((Bool.not_eq_false _).mp hcalled)
    rw [he.reads.2] at hstop
    cases hstop
  running hbegun hstopped hrejecting hheld hgate hholders := by
    rcases h.running hbegun with hs | hr | hreads | hrearms | hh | hg | ⟨n, hn⟩
    · rw [hstopped] at hs
      cases hs
    · rw [hrejecting] at hr
      cases hr
    · exact .inl hreads
    · exact .inr hrearms
    · rw [hheld] at hh
      cases hh
    · rw [hgate] at hg
      cases hg
    · exact absurd (hholders n) hn

/-- A read that is armed while a gate is held brings about a dispatch out of order. -/
theorem not_orderly_of_rearm {n : ℕ} (hhttp : s.http = false) (hrearms : s.rearms ≠ 0)
    (hgate : s.gate = none) (hstopped : s.stopped = false) (hreading : s.reading = false)
    (hn : s.holders n ≠ 0) : ¬Orderly (s.step .rearm) := by
  have hstep : s.step .rearm =
      { s with rearms := s.rearms - 1, reading := true, reads := s.reads + 1 } := by
    dsimp only [step]
    rw [if_neg (by rw [hgate]; simpa using hrearms)]
    unfold receive
    dsimp only
    rw [hstopped, hreading, Bool.or_false, if_neg Bool.false_ne_true]
  intro h
  have hdispatches : Dispatches (s.step .rearm) (.received false) := by
    rw [hstep]
    unfold Dispatches step handleReceivePeer openGate
    simp [hhttp, hgate, hstopped]
  have hfree := h.gated _ hdispatches n
  rw [hstep] at hfree
  exact hn hfree

instance (s : Channel) : (e : Event) → Decidable (Clear s e)
  | .rearm => inferInstanceAs (Decidable (_ → _ → _ → _ → ∀ n < s.messages, s.alive n = false))
  | .stop true => inferInstanceAs (Decidable (_ = false → _ = false))
  | .stop false => isTrue trivial
  | .dispatched true => inferInstanceAs (Decidable (_ = false → _ = false))
  | .dispatched false => isTrue trivial
  | .rejected => inferInstanceAs (Decidable (_ = false → _ = false))
  | .received _ => inferInstanceAs (Decidable (_ = true → _ = false → _ = false))
  | .receivedHttp _ => inferInstanceAs (Decidable (_ = true → _ = false → _ = false))
  | .take _ => isTrue trivial
  | .release _ => isTrue trivial
  | .pause => isTrue trivial
  | .resume => isTrue trivial
  | .stopping => isTrue trivial
  | .closed => isTrue trivial
  | .part _ => isTrue trivial

end

end Channel

end BitcoinNetwork.Channels
