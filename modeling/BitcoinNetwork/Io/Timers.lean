import BitcoinNetwork.Async.Ordered
import BitcoinNetwork.Async.Transition

/-!
# The timers of the scheduler (io/scheduler.cpp)

Each function of a timer is a section of the scheduler's mutex, so that a run is an order of
them. A pass of `expire_timers` is given the reading of its clock.
-/

namespace BitcoinNetwork.Io.Timers
open Async

inductive Code
  | success
  | operationCanceled
  deriving DecidableEq

/-- `timer_state`, where waiters are numbered as they wait. -/
structure TimerState (Time : Type) where
  expiry : Time
  waiters : List ℕ := []
  queued : Bool := false

/-- `timers_` in its order, with the timers that there are or will be. The completions are
those that have been enqueued, each of a waiter with its code. -/
structure State (Time : Type) where
  timers : List (Time × ℕ) := []
  states : ℕ → TimerState Time
  waits : ℕ := 0
  completions : List (ℕ × Code) := []

variable {Time : Type}

namespace State

def set (s : State Time) (timer : ℕ) (t : TimerState Time) : State Time :=
  { s with states := Function.update s.states timer t }

/-- `enqueue` of each waiter. -/
def complete (s : State Time) (waiters : List ℕ) (ec : Code) : State Time :=
  { s with completions := s.completions ++ waiters.map fun waiter => (waiter, ec) }

/-- The waiters of a timer, completed with a code and cleared. -/
def flush (s : State Time) (timer : ℕ) (ec : Code) : State Time :=
  let t := s.states timer
  (s.complete t.waiters ec).set timer { t with waiters := [] }

/-- The first timer, which leaves the others. -/
def fire (s : State Time) (timer : ℕ) (others : List (Time × ℕ)) : State Time :=
  let t := s.states timer
  ({ s with timers := others }.set timer { t with queued := false }).flush timer .success

/-- The codes that a waiter was completed with. -/
def codes (s : State Time) (waiter : ℕ) : List Code :=
  (s.completions.filter fun completion => completion.1 = waiter).map Prod.snd

@[simp] theorem set_self (s : State Time) (timer : ℕ) (t : TimerState Time) :
    (s.set timer t).states timer = t := Function.update_self ..

theorem set_other (s : State Time) {timer other : ℕ} (h : other ≠ timer) (t : TimerState Time) :
    (s.set timer t).states other = s.states other := Function.update_of_ne h ..

theorem set_set (s : State Time) (timer : ℕ) (t t' : TimerState Time) :
    (s.set timer t).set timer t' = s.set timer t' := by
  unfold set
  dsimp only
  rw [Function.update_idem]

theorem set_states (s : State Time) (timer : ℕ) : s.set timer (s.states timer) = s := by
  unfold set
  rw [Function.update_eq_self]

theorem set_complete (s : State Time) (timer : ℕ) (t : TimerState Time) (waiters : List ℕ)
    (ec : Code) : (s.set timer t).complete waiters ec = (s.complete waiters ec).set timer t := rfl

theorem flush_set (s : State Time) (timer : ℕ) (t : TimerState Time) (ec : Code) :
    (s.set timer t).flush timer ec =
      (s.complete t.waiters ec).set timer { t with waiters := [] } := by
  unfold flush
  rw [set_self]
  dsimp only
  rw [set_complete, set_set]

end State

/-- A waiter that has been completed, or was never one. -/
def Idle (s : State Time) (waiter : ℕ) : Prop := ∀ timer, waiter ∉ (s.states timer).waiters

variable [LinearOrder Time]

/-- `multimap::emplace`, behind what is equal. -/
def emplace (key : Time) (timer : ℕ) (entries : List (Time × ℕ)) : List (Time × ℕ) :=
  entries.orderedInsert (fun x y => x.1 < y.1) (key, timer)

namespace State

/-- `wait_timer`. -/
def waitTimer (s : State Time) (timer : ℕ) : State Time :=
  let t := s.states timer
  let waiting := { s with waits := s.waits + 1 }
  if t.queued then waiting.set timer { t with waiters := t.waiters ++ [s.waits] }
  else { waiting with timers := emplace t.expiry timer s.timers }.set timer
    { t with waiters := t.waiters ++ [s.waits], queued := true }

/-- `unqueue_timer`. The range that it searches is that of the entries with the expiry. -/
def unqueueTimer (s : State Time) (timer : ℕ) : State Time :=
  let t := s.states timer
  if t.queued then
    { s with timers := s.timers.erase (t.expiry, timer) }.set timer { t with queued := false }
  else s

/-- `cancel_timer`. -/
def cancelTimer (s : State Time) (timer : ℕ) : State Time × ℕ :=
  let s := s.unqueueTimer timer
  (s.flush timer .operationCanceled, (s.states timer).waiters.length)

/-- `expire_timer`. -/
def expireTimer (s : State Time) (timer : ℕ) (expiry : Time) : State Time × ℕ :=
  let s := s.unqueueTimer timer
  let flushed := s.flush timer .operationCanceled
  (flushed.set timer { flushed.states timer with expiry := expiry }, (s.states timer).waiters.length)

/-- The loop of `expire_timers`. -/
def expireLoop (now : Time) : List (Time × ℕ) → State Time → State Time
  | [], s => s
  | (key, timer) :: others, s =>
    if key ≤ now then expireLoop now others (s.fire timer others) else s

/-- `expire_timers`. -/
def expireTimers (s : State Time) (now : Time) : State Time := expireLoop now s.timers s

end State

inductive Event (Time : Type)
  | wait (timer : ℕ)
  | cancel (timer : ℕ)
  | expire (timer : ℕ) (expiry : Time)
  | pass (now : Time)

def step (s : State Time) : Event Time → State Time
  | .wait timer => s.waitTimer timer
  | .cancel timer => (s.cancelTimer timer).1
  | .expire timer expiry => (s.expireTimer timer expiry).1
  | .pass now => s.expireTimers now

def initial (epoch : Time) : State Time := { states := fun _ => { expiry := epoch } }

/-! ### What is waited for -/

/-- The expiry of a timer behind the events. -/
def inForce (epoch : Time) (timer : ℕ) : List (Event Time) → Time
  | [] => epoch
  | .expire other expiry :: events =>
    inForce (if other = timer then expiry else epoch) timer events
  | .wait _ :: events => inForce epoch timer events
  | .cancel _ :: events => inForce epoch timer events
  | .pass _ :: events => inForce epoch timer events

/-- What a waiter of a timer is completed with, by the first cancel or re-arm of the timer or
pass at or after its expiry. -/
def fate (timer : ℕ) (expiry : Time) : List (Event Time) → Option Code
  | [] => none
  | .wait _ :: events => fate timer expiry events
  | .cancel other :: events =>
    if other = timer then some .operationCanceled else fate timer expiry events
  | .expire other _ :: events =>
    if other = timer then some .operationCanceled else fate timer expiry events
  | .pass now :: events => if expiry ≤ now then some .success else fate timer expiry events

/-! ### Entries -/

theorem perm_emplace (key : Time) (timer : ℕ) (entries : List (Time × ℕ)) :
    (emplace key timer entries).Perm ((key, timer) :: entries) := List.perm_orderedInsert _ _ _

theorem sorted_emplace (key : Time) (timer : ℕ) {entries : List (Time × ℕ)}
    (h : entries.Pairwise fun x y => x.1 ≤ y.1) :
    (emplace key timer entries).Pairwise fun x y => x.1 ≤ y.1 := by
  apply pairwise_orderedInsert _ _ _ h
  · exact fun _ _ _ => le_trans
  · exact fun _ _ hlt => le_of_lt hlt
  · exact fun _ _ hle => not_lt.mp hle

/-! ### The invariant -/

/-- `timers_` has the timers that are queued, each once and under its expiry, in order, and a
timer with waiters is one of them. Each waiter is of one timer, and what is completed are
waiters. -/
structure Sound (s : State Time) : Prop where
  sorted : s.timers.Pairwise fun x y => x.1 ≤ y.1
  nodup : s.timers.Nodup
  mem_iff (key : Time) (timer : ℕ) :
    (key, timer) ∈ s.timers ↔ (s.states timer).queued = true ∧ (s.states timer).expiry = key
  waiting (timer : ℕ) : (s.states timer).waiters ≠ [] → (s.states timer).queued = true
  issued (timer : ℕ) : ∀ waiter ∈ (s.states timer).waiters, waiter < s.waits
  once (timer : ℕ) : (s.states timer).waiters.Nodup
  apart (timer other waiter : ℕ) : waiter ∈ (s.states timer).waiters →
    waiter ∈ (s.states other).waiters → timer = other
  completed : ∀ completion ∈ s.completions, completion.1 < s.waits

variable {s : State Time}

theorem sound_initial (epoch : Time) : Sound (initial epoch) where
  sorted := List.Pairwise.nil
  nodup := List.nodup_nil
  mem_iff _ _ := iff_of_false List.not_mem_nil fun h => nomatch h.1
  waiting _ h := absurd rfl h
  issued _ _ h := nomatch h
  once _ := List.nodup_nil
  apart _ _ _ h := nomatch h
  completed _ h := nomatch h

/-- A timer that is taken out of `timers_`, its waiters completed with a code, and an expiry
of it. -/
structure Cleared (s s' : State Time) (timer : ℕ) (ec : Code) (expiry : Time) : Prop where
  sublist : s'.timers.Sublist s.timers
  mem_iff (key : Time) (other : ℕ) : (key, other) ∈ s'.timers ↔ (key, other) ∈ s.timers ∧ other ≠ timer
  self : s'.states timer = { expiry := expiry }
  others : ∀ other ≠ timer, s'.states other = s.states other
  waits : s'.waits = s.waits
  completions : s'.completions =
    s.completions ++ (s.states timer).waiters.map fun waiter => (waiter, ec)

theorem cleared_fire (h : Sound s) {key : Time} {timer : ℕ} {others : List (Time × ℕ)}
    (hs : s.timers = (key, timer) :: others) :
    Cleared s (s.fire timer others) timer .success key := by
  have hself : (s.states timer).expiry = key :=
    ((h.mem_iff key timer).mp (by rw [hs]; exact List.mem_cons_self)).2
  have hnodup := h.nodup
  rw [hs, List.nodup_cons] at hnodup
  have hfire : s.fire timer others = ({ s with timers := others }.complete
      (s.states timer).waiters .success).set timer
        { expiry := (s.states timer).expiry, waiters := [], queued := false } := by
    exact State.flush_set _ _ _ _
  rw [hfire]
  constructor
  · rw [hs]
    exact List.sublist_cons_self _ _
  · intro k other
    have hmem : (k, other) ∈ s.timers ↔ _ := h.mem_iff k other
    rw [hs, List.mem_cons]
    constructor
    · intro hother
      refine ⟨.inr hother, ?_⟩
      rintro rfl
      have hk := (hmem.mp (by rw [hs]; exact List.mem_cons_of_mem _ hother)).2
      rw [hself] at hk
      exact hnodup.1 (hk ▸ hother)
    · rintro ⟨heq | hother, hne⟩
      · exact absurd (congrArg Prod.snd heq) hne
      · exact hother
  · rw [State.set_self, hself]
  · intro other hother
    exact State.set_other _ hother _
  · rfl
  · rfl

/-- `unqueue_timer`, where what is queued is in `timers_` and nothing else is. -/
theorem unqueueTimer_eq (h : Sound s) (timer : ℕ) :
    s.unqueueTimer timer =
      { s with timers := s.timers.erase ((s.states timer).expiry, timer) }.set timer
        { s.states timer with queued := false } := by
  unfold State.unqueueTimer
  dsimp only
  split
  · rfl
  · next hqueued =>
    have hmem : ((s.states timer).expiry, timer) ∉ s.timers := fun hmem =>
      hqueued ((h.mem_iff _ _).mp hmem).1
    have hfalse : (s.states timer).queued = false := Bool.not_eq_true _ ▸ hqueued
    rw [List.erase_of_not_mem hmem, ← hfalse]
    exact (State.set_states s timer).symm

theorem cleared_erase (h : Sound s) (timer : ℕ) (expiry : Time) :
    Cleared s (({ s with timers := s.timers.erase ((s.states timer).expiry, timer) }.complete
      (s.states timer).waiters .operationCanceled).set timer { expiry := expiry })
        timer .operationCanceled expiry where
  sublist := List.erase_sublist
  mem_iff key other := by
    show (key, other) ∈ s.timers.erase _ ↔ _
    rw [h.nodup.mem_erase_iff]
    constructor
    · rintro ⟨hne, hmem⟩
      refine ⟨hmem, ?_⟩
      rintro rfl
      exact hne (by rw [((h.mem_iff _ _).mp hmem).2])
    · rintro ⟨hmem, hne⟩
      exact ⟨fun heq => hne (congrArg Prod.snd heq), hmem⟩
  self := State.set_self ..
  others other hother := State.set_other _ hother _
  waits := rfl
  completions := rfl

theorem cleared_cancel (h : Sound s) (timer : ℕ) :
    Cleared s (s.cancelTimer timer).1 timer .operationCanceled (s.states timer).expiry := by
  have heq : (s.cancelTimer timer).1 = ({ s with
      timers := s.timers.erase ((s.states timer).expiry, timer) }.complete
        (s.states timer).waiters .operationCanceled).set timer
          { expiry := (s.states timer).expiry } := by
    unfold State.cancelTimer
    dsimp only
    rw [unqueueTimer_eq h, State.flush_set]
  rw [heq]
  exact cleared_erase h timer _

theorem cleared_expire (h : Sound s) (timer : ℕ) (expiry : Time) :
    Cleared s (s.expireTimer timer expiry).1 timer .operationCanceled expiry := by
  have heq : (s.expireTimer timer expiry).1 = ({ s with
      timers := s.timers.erase ((s.states timer).expiry, timer) }.complete
        (s.states timer).waiters .operationCanceled).set timer { expiry := expiry } := by
    unfold State.expireTimer
    dsimp only
    rw [unqueueTimer_eq h, State.flush_set, State.set_self, State.set_set]
  rw [heq]
  exact cleared_erase h timer _

/-! ### What is preserved -/

variable {s' : State Time} {timer : ℕ} {ec : Code} {expiry : Time}

theorem Cleared.sound (c : Cleared s s' timer ec expiry) (h : Sound s) : Sound s' where
  sorted := h.sorted.sublist c.sublist
  nodup := h.nodup.sublist c.sublist
  mem_iff key other := by
    rw [c.mem_iff, h.mem_iff]
    by_cases hother : other = timer
    · rw [hother, c.self]
      exact iff_of_false (fun hmem => hmem.2 rfl) fun hmem => nomatch hmem.1
    · rw [c.others other hother]
      exact and_iff_left hother
  waiting other := by
    by_cases hother : other = timer
    · rw [hother, c.self]
      exact fun hne => absurd rfl hne
    · rw [c.others other hother]
      exact h.waiting other
  issued other := by
    rw [c.waits]
    by_cases hother : other = timer
    · rw [hother, c.self]
      exact fun _ hmem => nomatch hmem
    · rw [c.others other hother]
      exact h.issued other
  once other := by
    by_cases hother : other = timer
    · rw [hother, c.self]
      exact List.nodup_nil
    · rw [c.others other hother]
      exact h.once other
  apart first second waiter hfirst hsecond := by
    by_cases h1 : first = timer
    · rw [h1, c.self] at hfirst
      exact nomatch hfirst
    by_cases h2 : second = timer
    · rw [h2, c.self] at hsecond
      exact nomatch hsecond
    rw [c.others first h1] at hfirst
    rw [c.others second h2] at hsecond
    exact h.apart first second waiter hfirst hsecond
  completed completion hmem := by
    rw [c.completions, List.mem_append, List.mem_map] at hmem
    rw [c.waits]
    rcases hmem with hmem | ⟨waiter, hwaiter, rfl⟩
    · exact h.completed completion hmem
    · exact h.issued timer waiter hwaiter

omit [LinearOrder Time] in
theorem codes_append {completions : List (ℕ × Code)} {waiters : List ℕ}
    (hcompletions : s'.completions = completions ++ waiters.map fun waiter => (waiter, ec))
    (hs : s.completions = completions) (hnodup : waiters.Nodup) (waiter : ℕ) :
    s'.codes waiter = s.codes waiter ++ if waiter ∈ waiters then [ec] else [] := by
  unfold State.codes
  rw [hcompletions, hs, List.filter_append, List.map_append]
  congr 1
  clear hcompletions
  induction waiters with
  | nil => rfl
  | cons first waiters ih =>
    obtain ⟨hfirst, hrest⟩ := List.nodup_cons.mp hnodup
    have htail := ih hrest
    rw [List.map_cons, List.filter_cons]
    by_cases heq : first = waiter
    · rw [← heq] at htail ⊢
      rw [if_neg hfirst] at htail
      rw [if_pos (decide_eq_true rfl), List.map_cons, htail, if_pos List.mem_cons_self]
    · rw [if_neg (by simpa using heq), htail]
      simp only [List.mem_cons, Ne.symm heq, false_or]

/-- A waiter of the timer has its code, and is of no timer any more. -/
theorem Cleared.pending (c : Cleared s s' timer ec expiry) (h : Sound s) {waiter : ℕ}
    (hwaiter : waiter ∈ (s.states timer).waiters) :
    s'.codes waiter = s.codes waiter ++ [ec] ∧ Idle s' waiter := by
  constructor
  · rw [codes_append c.completions rfl (h.once timer), if_pos hwaiter]
  · intro other hmem
    by_cases hother : other = timer
    · rw [hother, c.self] at hmem
      exact nomatch hmem
    · rw [c.others other hother] at hmem
      exact hother (h.apart other timer waiter hmem hwaiter)

/-- A waiter that is not of the timer is as it was. -/
theorem Cleared.codes (c : Cleared s s' timer ec expiry) (h : Sound s) {waiter : ℕ}
    (hwaiter : waiter ∉ (s.states timer).waiters) : s'.codes waiter = s.codes waiter := by
  rw [codes_append c.completions rfl (h.once timer), if_neg hwaiter, List.append_nil]

omit [LinearOrder Time] in
theorem Cleared.idle (c : Cleared s s' timer ec expiry) {waiter : ℕ} (hidle : Idle s waiter) :
    Idle s' waiter := by
  intro other
  by_cases hother : other = timer
  · rw [hother, c.self]
    exact List.not_mem_nil
  · rw [c.others other hother]
    exact hidle other

/-! ### A wait -/

theorem waitTimer_states (s : State Time) (timer : ℕ) :
    (s.waitTimer timer).states timer =
      { s.states timer with waiters := (s.states timer).waiters ++ [s.waits], queued := true } := by
  unfold State.waitTimer
  dsimp only
  split
  · next hqueued =>
    rw [State.set_self, hqueued]
  · rw [State.set_self]

theorem waitTimer_others (s : State Time) {timer other : ℕ} (h : other ≠ timer) :
    (s.waitTimer timer).states other = s.states other := by
  unfold State.waitTimer
  dsimp only
  split
  · exact State.set_other _ h _
  · exact State.set_other _ h _

theorem waitTimer_waits (s : State Time) (timer : ℕ) : (s.waitTimer timer).waits = s.waits + 1 := by
  unfold State.waitTimer
  dsimp only
  split <;> rfl

theorem waitTimer_completions (s : State Time) (timer : ℕ) :
    (s.waitTimer timer).completions = s.completions := by
  unfold State.waitTimer
  dsimp only
  split <;> rfl

theorem waitTimer_timers (s : State Time) (timer : ℕ) :
    (s.waitTimer timer).timers =
      if (s.states timer).queued then s.timers
      else emplace (s.states timer).expiry timer s.timers := by
  unfold State.waitTimer
  dsimp only
  split <;> rfl

/-- What a timer has behind a wait of one. -/
theorem mem_waitTimer {s : State Time} {timer other waiter : ℕ} :
    waiter ∈ ((s.waitTimer timer).states other).waiters ↔
      waiter ∈ (s.states other).waiters ∨ (other = timer ∧ waiter = s.waits) := by
  by_cases hother : other = timer
  · rw [hother, waitTimer_states, List.mem_append, List.mem_singleton]
    simp only [true_and]
  · rw [waitTimer_others s hother]
    simp only [hother, false_and, or_false]

theorem sound_waitTimer (h : Sound s) (timer : ℕ) : Sound (s.waitTimer timer) := by
  have hfresh (other : ℕ) : s.waits ∉ (s.states other).waiters := fun hmem =>
    absurd (h.issued other _ hmem) (Nat.lt_irrefl _)
  constructor
  · rw [waitTimer_timers]
    split
    · exact h.sorted
    · exact sorted_emplace _ _ h.sorted
  · rw [waitTimer_timers]
    split
    · exact h.nodup
    · next hqueued =>
      rw [(perm_emplace _ _ _).nodup_iff]
      exact List.nodup_cons.mpr ⟨fun hmem => hqueued ((h.mem_iff _ _).mp hmem).1, h.nodup⟩
  · intro key other
    have hother : (key, other) ∈ (s.waitTimer timer).timers ↔
        (other = timer ∧ (s.states timer).expiry = key) ∨ (key, other) ∈ s.timers := by
      rw [waitTimer_timers]
      split
      · next hqueued =>
        constructor
        · exact .inr
        · rintro (⟨rfl, hkey⟩ | hmem)
          · exact (h.mem_iff _ _).mpr ⟨hqueued, hkey⟩
          · exact hmem
      · rw [(perm_emplace _ _ _).mem_iff, List.mem_cons, Prod.mk.injEq]
        constructor
        · rintro (⟨hkey, heq⟩ | hmem)
          · exact .inl ⟨heq, hkey.symm⟩
          · exact .inr hmem
        · rintro (⟨heq, hkey⟩ | hmem)
          · exact .inl ⟨hkey.symm, heq⟩
          · exact .inr hmem
    rw [hother, h.mem_iff]
    by_cases heq : other = timer
    · rw [heq, waitTimer_states]
      constructor
      · rintro (⟨_, hkey⟩ | ⟨_, hkey⟩)
        · exact ⟨rfl, hkey⟩
        · exact ⟨rfl, hkey⟩
      · rintro ⟨_, hkey⟩
        exact .inl ⟨rfl, hkey⟩
    · rw [waitTimer_others s heq]
      exact or_iff_right fun hand => heq hand.1
  · intro other
    by_cases heq : other = timer
    · rw [heq, waitTimer_states]
      exact fun _ => rfl
    · rw [waitTimer_others s heq]
      exact h.waiting other
  · intro other waiter hmem
    rw [waitTimer_waits]
    rcases mem_waitTimer.mp hmem with hmem | ⟨_, rfl⟩
    · exact Nat.lt_succ_of_lt (h.issued other waiter hmem)
    · exact Nat.lt_succ_self _
  · intro other
    by_cases heq : other = timer
    · rw [heq, waitTimer_states]
      apply List.Nodup.append (h.once timer) (List.nodup_singleton _)
      exact List.disjoint_singleton.mpr (hfresh timer)
    · rw [waitTimer_others s heq]
      exact h.once other
  · intro first second waiter hfirst hsecond
    rcases mem_waitTimer.mp hfirst with hfirst | ⟨hone, hwaiter⟩
    · rcases mem_waitTimer.mp hsecond with hsecond | ⟨_, hwaiter⟩
      · exact h.apart first second waiter hfirst hsecond
      · exact absurd (hwaiter ▸ hfirst) (hfresh first)
    · rcases mem_waitTimer.mp hsecond with hsecond | ⟨htwo, _⟩
      · exact absurd (hwaiter ▸ hsecond) (hfresh second)
      · rw [hone, htwo]
  · intro completion hmem
    rw [waitTimer_completions] at hmem
    rw [waitTimer_waits]
    exact Nat.lt_succ_of_lt (h.completed completion hmem)

/-! ### A pass -/

/-- What a pass does to the timers from one on. -/
theorem expireLoop_spec (now : Time) {entries : List (Time × ℕ)} (h : Sound s)
    (hs : s.timers = entries) {after : State Time} (hafter : State.expireLoop now entries s = after) :
    Sound after ∧ after.waits = s.waits ∧
      (∀ timer, (after.states timer).expiry = (s.states timer).expiry) ∧
      (∀ waiter, Idle s waiter → after.codes waiter = s.codes waiter ∧ Idle after waiter) ∧
      ∀ timer, ∀ waiter ∈ (s.states timer).waiters,
        if (s.states timer).expiry ≤ now then
          after.codes waiter = s.codes waiter ++ [.success] ∧ Idle after waiter
        else after.codes waiter = s.codes waiter ∧ waiter ∈ (after.states timer).waiters := by
  induction entries generalizing s with
  | nil =>
    rw [State.expireLoop] at hafter
    rw [← hafter]
    refine ⟨h, rfl, fun _ => rfl, fun waiter hidle => ⟨rfl, hidle⟩, fun timer waiter hwaiter => ?_⟩
    have hmem := (h.mem_iff _ timer).mpr ⟨h.waiting timer (List.ne_nil_of_mem hwaiter), rfl⟩
    rw [hs] at hmem
    exact nomatch hmem
  | cons entry others ih =>
    obtain ⟨key, first⟩ := entry
    have hkey : (s.states first).expiry = key :=
      ((h.mem_iff key first).mp (by rw [hs]; exact List.mem_cons_self)).2
    rw [State.expireLoop] at hafter
    split at hafter
    · next hdue =>
      have c := cleared_fire h hs
      obtain ⟨hsound, hwaits, hexpiry, hidle, hpending⟩ := ih (c.sound h) rfl hafter
      refine ⟨hsound, hwaits.trans c.waits, ?_, ?_, ?_⟩
      · intro timer
        rw [hexpiry]
        by_cases htimer : timer = first
        · rw [htimer, c.self, hkey]
        · rw [c.others timer htimer]
      · intro waiter hw
        obtain ⟨hcodes, hi⟩ := hidle waiter (c.idle hw)
        exact ⟨hcodes.trans (c.codes h (hw first)), hi⟩
      · intro timer waiter hwaiter
        by_cases htimer : timer = first
        · rw [htimer] at hwaiter ⊢
          obtain ⟨hcode, hi⟩ := c.pending h hwaiter
          obtain ⟨hcodes, hi⟩ := hidle waiter hi
          rw [hkey, if_pos hdue, hcodes]
          exact ⟨hcode, hi⟩
        · have hp := hpending timer waiter (by rw [c.others timer htimer]; exact hwaiter)
          rw [c.others timer htimer, c.codes h
            fun hmem => htimer (h.apart timer first waiter hwaiter hmem)] at hp
          exact hp
    · next hearly =>
      rw [← hafter]
      refine ⟨h, rfl, fun _ => rfl, fun waiter hw => ⟨rfl, hw⟩, fun timer waiter hwaiter => ?_⟩
      have hmem := (h.mem_iff _ timer).mpr ⟨h.waiting timer (List.ne_nil_of_mem hwaiter), rfl⟩
      have hsorted := h.sorted
      rw [hs, List.mem_cons] at hmem
      rw [hs, List.pairwise_cons] at hsorted
      have hle : key ≤ (s.states timer).expiry := by
        rcases hmem with heq | hmem
        · exact (congrArg Prod.fst heq).ge
        · exact hsorted.1 _ hmem
      rw [if_neg fun hdue => hearly (hle.trans hdue)]
      exact ⟨rfl, hwaiter⟩

/-! ### Runs -/

theorem sound_step (h : Sound s) (e : Event Time) : Sound (step s e) := by
  cases e with
  | wait timer => exact sound_waitTimer h timer
  | cancel timer => exact (cleared_cancel h timer).sound h
  | expire timer expiry => exact (cleared_expire h timer expiry).sound h
  | pass now => exact (expireLoop_spec now h rfl rfl).1

theorem sound_after (h : Sound s) (events : List (Event Time)) : Sound (after step s events) :=
  after_invariant (P := Sound) (fun _ e hs => sound_step hs e) h events

/-- A waiter that was completed is completed with nothing else. -/
theorem idle_step (h : Sound s) {waiter : ℕ} (hissued : waiter < s.waits) (hidle : Idle s waiter)
    (e : Event Time) : (step s e).codes waiter = s.codes waiter ∧ Idle (step s e) waiter ∧
      waiter < (step s e).waits := by
  cases e with
  | wait timer =>
    refine ⟨?_, ?_, ?_⟩
    · unfold State.codes
      rw [show (step s (.wait timer)).completions = s.completions from waitTimer_completions s timer]
    · intro other hmem
      rcases mem_waitTimer.mp hmem with hmem | ⟨_, rfl⟩
      · exact hidle other hmem
      · exact Nat.lt_irrefl _ hissued
    · show waiter < (s.waitTimer timer).waits
      rw [waitTimer_waits]
      omega
  | cancel timer =>
    have c := cleared_cancel h timer
    exact ⟨c.codes h (hidle timer), c.idle hidle, c.waits ▸ hissued⟩
  | expire timer expiry =>
    have c := cleared_expire h timer expiry
    exact ⟨c.codes h (hidle timer), c.idle hidle, c.waits ▸ hissued⟩
  | pass now =>
    obtain ⟨_, hwaits, _, hall, _⟩ := expireLoop_spec now h rfl rfl
    obtain ⟨hcodes, hi⟩ := hall waiter hidle
    exact ⟨hcodes, hi, hwaits ▸ hissued⟩

theorem idle_after (h : Sound s) {waiter : ℕ} (hissued : waiter < s.waits) (hidle : Idle s waiter)
    (events : List (Event Time)) : (after step s events).codes waiter = s.codes waiter := by
  induction events generalizing s with
  | nil => rfl
  | cons e events ih =>
    obtain ⟨hcodes, hi, hw⟩ := idle_step h hissued hidle e
    rw [after_cons, ih (sound_step h e) hw hi, hcodes]

/-- A waiter is completed as the first of the events that reaches it tells. -/
theorem codes_after (h : Sound s) {timer waiter : ℕ} (hwaiter : waiter ∈ (s.states timer).waiters)
    (events : List (Event Time)) :
    (after step s events).codes waiter =
      s.codes waiter ++ (fate timer (s.states timer).expiry events).toList := by
  induction events generalizing s with
  | nil => exact (List.append_nil _).symm
  | cons e events ih =>
    have hsound := sound_step h e
    have hissued := h.issued timer waiter hwaiter
    -- the step completes the waiter, or leaves it where it is
    have hdone {ec : Code} (hcodes : (step s e).codes waiter = s.codes waiter ++ [ec])
        (hidle : Idle (step s e) waiter) (hwaits : (step s e).waits = s.waits) :
        (after step (step s e) events).codes waiter = s.codes waiter ++ [ec] := by
      rw [idle_after hsound (hwaits ▸ hissued) hidle, hcodes]
    have hcleared {other : ℕ} {expiry : Time}
        (c : Cleared s (step s e) other .operationCanceled expiry) :
        (after step (step s e) events).codes waiter = s.codes waiter ++
          (if other = timer then some .operationCanceled
            else fate timer (s.states timer).expiry events).toList := by
      split
      · next heq =>
        obtain ⟨hcodes, hidle⟩ := c.pending h (heq ▸ hwaiter)
        exact hdone hcodes hidle c.waits
      · next hne =>
        have hstates := c.others timer (Ne.symm hne)
        rw [ih hsound (by rw [hstates]; exact hwaiter), hstates, c.codes h]
        exact fun hmem => hne (h.apart other timer waiter hmem hwaiter)
    rw [after_cons]
    cases e with
    | wait other =>
      have hmem : waiter ∈ ((step s (.wait other)).states timer).waiters :=
        mem_waitTimer.mpr (.inl hwaiter)
      have hexpiry : ((step s (.wait other)).states timer).expiry = (s.states timer).expiry := by
        by_cases hother : timer = other
        · rw [hother, step, waitTimer_states]
        · rw [step, waitTimer_others s hother]
      rw [ih hsound hmem, hexpiry]
      unfold State.codes
      rw [show (step s (.wait other)).completions = s.completions from waitTimer_completions s other]
      rfl
    | cancel other => exact hcleared (cleared_cancel h other)
    | expire other expiry => exact hcleared (cleared_expire h other expiry)
    | pass now =>
      obtain ⟨_, hwaits, hexpiry, _, hall⟩ := expireLoop_spec now h rfl rfl
      have hpass := hall timer waiter hwaiter
      rw [fate]
      split at hpass
      · next hdue =>
        rw [if_pos hdue]
        exact hdone hpass.1 hpass.2 hwaits
      · next hearly =>
        rw [if_neg hearly, ih hsound hpass.2]
        rw [show (step s (.pass now)).codes waiter = s.codes waiter from hpass.1,
          show ((step s (.pass now)).states timer).expiry = _ from hexpiry timer]

theorem expiry_after (h : Sound s) (timer : ℕ) (events : List (Event Time)) :
    ((after step s events).states timer).expiry = inForce (s.states timer).expiry timer events := by
  induction events generalizing s with
  | nil => rfl
  | cons e events ih =>
    rw [after_cons, ih (sound_step h e)]
    cases e with
    | wait other =>
      by_cases hother : timer = other
      · rw [hother, step, waitTimer_states]
        rfl
      · rw [step, waitTimer_others s hother]
        rfl
    | cancel other =>
      have c := cleared_cancel h other
      by_cases hother : timer = other
      · rw [hother]
        rw [show (step s (.cancel other)).states other = _ from c.self]
        rfl
      · rw [show (step s (.cancel other)).states timer = _ from c.others timer hother]
        rfl
    | expire other expiry =>
      have c := cleared_expire h other expiry
      rw [inForce]
      by_cases hother : timer = other
      · rw [hother, if_pos rfl]
        rw [show (step s (.expire other expiry)).states other = _ from c.self]
      · rw [if_neg (Ne.symm hother)]
        rw [show (step s (.expire other expiry)).states timer = _ from c.others timer hother]
    | pass now =>
      obtain ⟨_, _, hexpiry, _⟩ := expireLoop_spec now h rfl rfl
      rw [show ((step s (.pass now)).states timer).expiry = _ from hexpiry timer]
      rfl

theorem codes_fresh (h : Sound s) : s.codes s.waits = [] := by
  unfold State.codes
  rw [List.map_eq_nil_iff, List.filter_eq_nil_iff]
  intro completion hmem heq
  exact absurd (h.completed completion hmem) (by have := of_decide_eq_true heq; omega)

/-- The timers are sound behind any run, a cancel and a re-arm return how many waiters they
cancel, and a waiter is completed once, by the first event that reaches it. -/
theorem timers_fire_once (epoch : Time) (events : List (Event Time)) :
    let s := after step (initial epoch) events
    Sound s ∧
      (∀ timer expiry, let canceled := (s.states timer).waiters.map (·, Code.operationCanceled)
        (s.cancelTimer timer).1.completions = s.completions ++ canceled ∧
        (s.cancelTimer timer).2 = canceled.length ∧
        (s.expireTimer timer expiry).1.completions = s.completions ++ canceled ∧
        (s.expireTimer timer expiry).2 = canceled.length) ∧
      ∀ timer rest, (after step s (.wait timer :: rest)).codes s.waits =
        (fate timer (inForce epoch timer events) rest).toList := by
  intro s
  have h : Sound s := sound_after (sound_initial epoch) events
  have hunqueued (timer : ℕ) : ((s.unqueueTimer timer).states timer).waiters =
      (s.states timer).waiters := by
    rw [unqueueTimer_eq h, State.set_self]
  refine ⟨h, fun timer expiry => ⟨(cleared_cancel h timer).completions, ?_,
    (cleared_expire h timer expiry).completions, ?_⟩, fun timer rest => ?_⟩
  · rw [List.length_map]
    exact congrArg List.length (hunqueued timer)
  · rw [List.length_map]
    exact congrArg List.length (hunqueued timer)
  · have hwaiter : s.waits ∈ ((step s (.wait timer)).states timer).waiters :=
      mem_waitTimer.mpr (.inr ⟨rfl, rfl⟩)
    have hexpiry : ((step s (.wait timer)).states timer).expiry = inForce epoch timer events := by
      rw [step, waitTimer_states]
      exact expiry_after (sound_initial epoch) timer events
    have hnone : (step s (.wait timer)).codes s.waits = [] := by
      unfold State.codes
      rw [show (step s (.wait timer)).completions = s.completions from waitTimer_completions s timer]
      exact codes_fresh h
    rw [after_cons, codes_after (sound_step h _) hwaiter, hexpiry, hnone, List.nil_append]

-- a timer that is re-armed for a later time is not reached by a pass at the earlier one
example : (after step (initial 0) [.expire 0 5, .wait 0, .expire 0 9, .wait 0, .wait 1, .pass 5,
    .pass 9]).completions = [(0, .operationCanceled), (2, .success), (1, .success)] := by decide

end BitcoinNetwork.Io.Timers
