import BitcoinNetwork.Io.Scheduler
import Mathlib.Data.List.Range

/-!
# Runs of the scheduler

Each unit of the eventfd is written for a posted handler or for the interrupt of a stop,
and either may be read for the other. What is kept is their number.
-/

namespace BitcoinNetwork.Io
open Async

/-! ### What a thread is about to do -/

/-- The completions that a thread has not finished, each counted as work. -/
def Run.work : Run → ℕ
  | .waiting out | .taken out | .popped _ out | .completing out => out
  | .handling out | .finishing out => out + 1
  | .outside | .starting | .testing => 0

/-- A unit is read, and the posted handlers are to be looked at. -/
def Run.took : Run → ℕ
  | .taken _ => 1
  | _ => 0

/-- An interrupt is consumed, and `signaled_` is to be reset. -/
def Run.interrupted : Run → ℕ
  | .popped true _ => 1
  | _ => 0

/-- Behind its wait, so that the stop is to be looked at. -/
def Run.heads : Run → ℕ
  | .testing | .completing _ | .handling _ | .finishing _ => 1
  | _ => 0

/-- Asleep, unless there is a unit. -/
def Run.waits : Run → Bool
  | .waiting _ => true
  | _ => false

/-- A handler that is counted as work and is to be queued. -/
def Call.work : Call → ℕ
  | .posting => 1
  | _ => 0

/-- A handler is queued, and its unit is to be written. -/
def Call.unwritten : Call → ℕ
  | .pushed => 1
  | _ => 0

/-- The unit of an interrupt is to be written. -/
def Call.interrupts : Call → ℕ
  | .interrupting => 1
  | _ => 0

/-- A stop is to be stored. -/
def Call.stops : Call → ℕ
  | .stopping => 1
  | _ => 0

/-- A stop is stored, and is to be signaled. -/
def Call.heads : Call → ℕ
  | .signaling => 1
  | _ => 0

namespace Thread

@[simp] def work (t : Thread) : ℕ := t.call.work + t.run.work
@[simp] def unwritten (t : Thread) : ℕ := t.call.unwritten
@[simp] def took (t : Thread) : ℕ := t.run.took
@[simp] def interrupted (t : Thread) : ℕ := t.run.interrupted
@[simp] def interrupts (t : Thread) : ℕ := t.call.interrupts
@[simp] def stops (t : Thread) : ℕ := t.call.stops
@[simp] def heads (t : Thread) : ℕ := t.call.heads + t.run.heads

/-- A unit is to be written by the thread, or a stop is to be looked at, and signaled,
behind its wait. -/
def signals (t : Thread) : Prop :=
  0 < t.unwritten ∨ 0 < t.interrupts ∨ 0 < t.heads ∨ 0 < t.took ∨ 0 < t.interrupted

end Thread

namespace Scheduler
variable {σ σ' : Scheduler} {index : ℕ} {t t' : Thread}

/-! ### What is kept -/

/-- The posted handlers, started operations and timer waits that are not finished. -/
def unfinished (σ : Scheduler) : ℕ :=
  total Thread.work σ.threads + σ.posted.length + σ.operations + σ.timers

/-- An interrupt is in the eventfd, or on its way into it or out of it. -/
def interrupt (σ : Scheduler) : ℕ := σ.signaled.toNat

structure Inv (σ : Scheduler) : Prop where
  counted : σ.outstanding = σ.unfinished + σ.guards
  order : σ.taken ++ σ.posted = List.range σ.count
  enough : σ.posted.length ≤
    σ.units + total Thread.unwritten σ.threads + total Thread.took σ.threads
  balance : σ.units + total Thread.unwritten σ.threads + total Thread.took σ.threads +
      total Thread.interrupted σ.threads + total Thread.interrupts σ.threads =
    σ.posted.length + σ.interrupt
  signal : σ.stopped = true → σ.signaled = false → 0 < total Thread.heads σ.threads
  asleep : ∀ t ∈ σ.threads, t.run.waits = true → t.call = .idle

/-- The totals behind a step of one thread. -/
structure Moved (σ σ' : Scheduler) (t t' : Thread) : Prop where
  work : total Thread.work σ'.threads + t.work = total Thread.work σ.threads + t'.work
  pushed : total Thread.unwritten σ'.threads + t.unwritten = total Thread.unwritten σ.threads + t'.unwritten
  took : total Thread.took σ'.threads + t.took = total Thread.took σ.threads + t'.took
  interrupted : total Thread.interrupted σ'.threads + t.interrupted =
    total Thread.interrupted σ.threads + t'.interrupted
  interrupts : total Thread.interrupts σ'.threads + t.interrupts =
    total Thread.interrupts σ.threads + t'.interrupts
  heads : total Thread.heads σ'.threads + t.heads = total Thread.heads σ.threads + t'.heads
  headsLe : t.heads ≤ total Thread.heads σ.threads
  mem : t ∈ σ.threads
  members : ∀ x ∈ σ'.threads, x ∈ σ.threads ∨ x = t'

theorem moved (h : σ.threads[index]? = some t) (hthreads : σ'.threads = σ.threads.set index t') :
    Moved σ σ' t t' := by
  refine ⟨?_, ?_, ?_, ?_, ?_, ?_, le_total _ h, List.mem_of_getElem? h, fun x hx => ?_⟩
  case refine_7 =>
    rw [hthreads] at hx
    exact List.mem_or_eq_of_mem_set hx
  all_goals
    rw [hthreads]
    exact total_set _ h t'

/-- A step of one thread, by what it adds to each side. -/
theorem Inv.moves (hi : σ.Inv) (hm : Moved σ σ' t t')
    (hasleep : t'.run.waits = true → t'.call = .idle)
    (horder : σ'.taken ++ σ'.posted = List.range σ'.count)
    (hcounted : σ'.outstanding + t.work + σ.posted.length + σ.operations + σ.timers + σ.guards =
      σ.outstanding + t'.work + σ'.posted.length + σ'.operations + σ'.timers + σ'.guards)
    (henough : σ'.posted = [] ∨ σ.units + t.unwritten + t.took + σ'.posted.length ≤
      σ'.units + t'.unwritten + t'.took + σ.posted.length)
    (hbalance : σ'.units + t'.unwritten + t'.took + t'.interrupted + t'.interrupts +
        σ.posted.length + σ.interrupt =
      σ.units + t.unwritten + t.took + t.interrupted + t.interrupts + σ'.posted.length +
        σ'.interrupt)
    (hsignal : σ'.stopped = true → σ'.signaled = false →
      0 < t'.heads ∨ σ.stopped = true ∧ σ.signaled = false ∧ t.heads ≤ t'.heads) : σ'.Inv := by
  obtain ⟨hwork, hunwritten, htook, hinterrupted, hinterrupts, hheads, hheadsLe, _, hmembers⟩ := hm
  have hi₁ := hi.counted
  have hi₂ := hi.enough
  have hi₃ := hi.balance
  unfold unfinished at hi₁
  refine ⟨?_, horder, ?_, ?_, ?_, ?_⟩
  · unfold unfinished
    omega
  · rcases henough with hnone | hle
    · rw [hnone]
      exact Nat.zero_le _
    · omega
  · omega
  · intro hstopped hunsignaled
    rcases hsignal hstopped hunsignaled with hpos | ⟨hs, hu, hle⟩
    · omega
    · have hi₄ := hi.signal hs hu
      omega
  · intro x hx
    rcases hmembers x hx with hold | rfl
    · exact hi.asleep x hold
    · exact hasleep

/-- A thread in a call is not asleep. -/
theorem Inv.awake (hi : σ.Inv) (h : σ.threads[index]? = some t) (hcall : t.call ≠ .idle) :
    ¬ t.run.waits = true :=
  fun hwaits => hcall (hi.asleep t (List.mem_of_getElem? h) hwaits)

/-! ### Calls -/

theorem Inv.push (hi : σ.Inv) (h : σ.threads[index]? = some t) {operations timers : ℕ}
    (hcounted : t.call.work + σ.operations + σ.timers = operations + timers + 1)
    (hcall : t.call = .posting ∨ t.call = .idle) (hawake : ¬ t.run.waits = true) :
    ({ σ with operations := operations, timers := timers }.push index t).Inv := by
  refine hi.moves (moved h rfl) (fun hw => absurd hw hawake) ?_ ?_ (.inr ?_) ?_ ?_
  · simp [Scheduler.push, set, List.range_succ, ← hi.order]
  · rcases hcall with hcall | hcall
    all_goals
      simp [Scheduler.push, set, hcall, Call.work] at hcounted ⊢
      omega
  · rcases hcall with hcall | hcall
    all_goals
      simp [Scheduler.push, set, hcall, Call.unwritten]
      omega
  · rcases hcall with hcall | hcall
    all_goals
      simp [Scheduler.push, set, hcall, interrupt, Call.unwritten, Call.interrupts]
      omega
  · intro hs hu
    refine .inr ⟨hs, hu, ?_⟩
    rcases hcall with hcall | hcall
    all_goals simp [hcall, Call.heads]

/-- The work of a thread is counted. -/
theorem Inv.work_le (hi : σ.Inv) (h : σ.threads[index]? = some t) :
    t.work + σ.guards ≤ σ.outstanding := by
  have hle := le_total Thread.work h
  have hcounted := hi.counted
  unfold unfinished at hcounted
  omega

/-- Work is finished: that of the thread, or a guard. -/
theorem Inv.workFinished (hi : σ.Inv) (h : σ.threads[index]? = some t) {guards : ℕ}
    {run : Run} (hidle : t.call = .idle)
    (hcounted : t.run.work + σ.guards = run.work + guards + 1)
    (hrun : run.took = t.run.took ∧ run.interrupted = t.run.interrupted ∧
      run.heads = t.run.heads) (hawake : ¬ run.waits = true) :
    ({ σ with guards := guards }.workFinished index { t with run := run }).Inv := by
  have hle := hi.work_le h
  obtain ⟨htook, hinterrupted, hheads⟩ := hrun
  unfold Scheduler.workFinished
  dsimp only
  split
  · refine hi.moves (moved h rfl) (fun hw => absurd hw hawake) hi.order ?_ (.inr ?_) ?_ ?_
    · simp [set, hidle, Call.work] at hcounted hle ⊢
      omega
    · simp [set, hidle, Call.unwritten, htook]
    · simp [set, hidle, interrupt, Call.unwritten, Call.interrupts, htook, hinterrupted]
    · intro hs hu
      exact .inr ⟨hs, hu, by simp [hidle, hheads, Call.heads]⟩
  · refine hi.moves (moved h rfl) (fun hw => absurd hw hawake) hi.order ?_ (.inr ?_) ?_ ?_
    · simp [set, hidle, Call.work] at hcounted hle ⊢
      omega
    · simp [set, hidle, htook]
    · simp [set, hidle, interrupt, htook, hinterrupted]
    · intro hs hu
      exact .inr ⟨hs, hu, by simp [hidle, hheads]⟩

/-- A call that is made changes the counts of work at most. -/
theorem Inv.counts (hi : σ.Inv) {outstanding operations timers guards : ℕ}
    (hcounted : outstanding + σ.operations + σ.timers + σ.guards =
      σ.outstanding + operations + timers + guards) :
    Inv { σ with
      outstanding := outstanding, operations := operations, timers := timers, guards := guards } := by
  have hi₁ := hi.counted
  unfold unfinished at hi₁
  refine ⟨?_, hi.order, hi.enough, hi.balance, hi.signal, hi.asleep⟩
  unfold unfinished
  dsimp only
  omega

theorem calling_idle (h : calling t = true) : t.call = .idle ∧ ¬ t.run.waits = true := by
  obtain ⟨run, call⟩ := t
  unfold calling at h
  split at h
  · next heq => cases heq; exact ⟨rfl, Bool.noConfusion⟩
  · next heq => cases heq; exact ⟨rfl, Bool.noConfusion⟩
  · cases h

theorem Inv.request (hi : σ.Inv) (h : σ.threads[index]? = some t) (hcalling : calling t = true)
    (r : Request) : (σ.request index t r).Inv := by
  obtain ⟨hidle, hawake⟩ := calling_idle hcalling
  unfold Scheduler.request
  cases r with
  | post =>
    refine hi.moves (moved h rfl) (fun hw => absurd hw hawake) hi.order ?_ (.inr ?_) ?_ ?_
    · simp [set, hidle, Call.work]
      omega
    · simp [set, hidle, Call.unwritten]
    · simp [set, hidle, interrupt, Call.unwritten, Call.interrupts]
    · exact fun hs hu => .inr ⟨hs, hu, by simp [hidle, Call.heads]⟩
  | stop =>
    refine hi.moves (moved h rfl) (fun hw => absurd hw hawake) hi.order ?_ (.inr ?_) ?_ ?_
    · simp [set, hidle, Call.work]
    · simp [set, hidle, Call.unwritten]
    · simp [set, hidle, interrupt, Call.unwritten, Call.interrupts]
    · exact fun hs hu => .inr ⟨hs, hu, by simp [hidle, Call.heads]⟩
  | restart =>
    exact ⟨hi.counted, hi.order, hi.enough, hi.balance, fun hs => Bool.noConfusion hs, hi.asleep⟩
  | run =>
    dsimp only
    split
    · next hrun =>
      refine hi.moves (moved h rfl) (fun _ => hidle) hi.order ?_ (.inr ?_) ?_ ?_
      · simp [set, hrun, Run.work]
      · simp [set, hrun, Run.took]
      · simp [set, hrun, interrupt, Run.took, Run.interrupted]
      · exact fun hs hu => .inr ⟨hs, hu, by simp [hrun, Run.heads]⟩
    · exact hi
  | start => exact hi.counts (by omega)
  | waitTimer => exact hi.counts (by omega)
  | guard => exact hi.counts (by omega)
  | reset =>
    dsimp only
    split
    · exact hi
    · exact hi.workFinished h hidle (by omega) ⟨rfl, rfl, rfl⟩ hawake
  | complete =>
    dsimp only
    split
    · exact hi
    · refine hi.push h ?_ (.inr hidle) hawake
      rw [hidle]
      simp only [Call.work]
      omega
  | enqueue =>
    dsimp only
    split
    · exact hi
    · refine hi.push h ?_ (.inr hidle) hawake
      rw [hidle]
      simp only [Call.work]
      omega

theorem Inv.proceedCall (hi : σ.Inv) (h : σ.threads[index]? = some t) :
    (σ.proceedCall index t).Inv := by
  unfold Scheduler.proceedCall
  by_cases hidle : t.call = .idle
  · rw [hidle]
    exact hi
  have hawake := hi.awake h hidle
  cases hcall : t.call with
  | idle => exact hi
  | posting => exact hi.push h (by simp [hcall, Call.work]; omega) (.inl hcall) hawake
  | pushed =>
    refine hi.moves (moved h rfl) (fun hw => absurd hw hawake) hi.order ?_ (.inr ?_) ?_ ?_
    · simp [set, hcall, Call.work]
    · simp [set, hcall, Call.unwritten]
    · simp [set, hcall, interrupt, Call.unwritten, Call.interrupts]
    · exact fun hs hu => .inr ⟨hs, hu, by simp [hcall, Call.heads]⟩
  | interrupting =>
    refine hi.moves (moved h rfl) (fun hw => absurd hw hawake) hi.order ?_ (.inr ?_) ?_ ?_
    · simp [set, hcall, Call.work]
    · simp [set, hcall, Call.unwritten]
    · simp [set, hcall, interrupt, Call.unwritten, Call.interrupts]
      omega
    · exact fun hs hu => .inr ⟨hs, hu, by simp [hcall, Call.heads]⟩
  | stopping =>
    dsimp only
    refine hi.moves (moved h rfl) (fun hw => absurd hw hawake) hi.order ?_ (.inr ?_) ?_ ?_
    · simp [set, hcall, Call.work]
    · simp [set, hcall, Call.unwritten]
    · simp [set, hcall, interrupt, Call.unwritten, Call.interrupts]
    · exact fun _ _ => .inl (by simp only [Thread.heads, Call.heads]; omega)
  | signaling =>
    dsimp only
    split
    · next hsignaled =>
      refine hi.moves (moved h rfl) (fun hw => absurd hw hawake) hi.order ?_ (.inr ?_) ?_ ?_
      · simp [set, hcall, Call.work]
      · simp [set, hcall, Call.unwritten]
      · simp [set, hcall, interrupt, Call.unwritten, Call.interrupts]
      · intro _ hu
        rw [show σ.signaled = false from hu] at hsignaled
        cases hsignaled
    · next hunsignaled =>
      refine hi.moves (moved h rfl) (fun hw => absurd hw hawake) hi.order ?_ (.inr ?_) ?_ ?_
      · simp [set, hcall, Call.work]
      · simp [set, hcall, Call.unwritten]
      · simp [set, hcall, interrupt, hunsignaled, Call.unwritten, Call.interrupts]
        omega
      · exact fun _ hu => Bool.noConfusion hu

/-! ### Waits -/

/-- A step of `run` that is in no call. -/
theorem Inv.runs (hi : σ.Inv) (h : σ.threads[index]? = some t) (hidle : t.call = .idle) {run : Run}
    (hwork : run.work = t.run.work) (htook : run.took = t.run.took)
    (hinterrupted : run.interrupted = t.run.interrupted)
    (hheads : σ.stopped = true → σ.signaled = false → 0 < run.heads ∨ t.run.heads ≤ run.heads) :
    (σ.set index { t with run := run }).Inv := by
  refine hi.moves (moved h rfl) (fun _ => hidle) hi.order ?_ (.inr ?_) ?_ ?_
  · simp [set, hwork]
  · simp [set, htook]
  · simp [set, interrupt, htook, hinterrupted]
  · intro hs hu
    rcases hheads hs hu with hpos | hle
    · exact .inl (by simpa [hidle, Call.heads] using hpos)
    · exact .inr ⟨hs, hu, by simpa using hle⟩

theorem Inv.unit (hi : σ.Inv) (h : σ.threads[index]? = some t) : (σ.unit index t).Inv := by
  unfold Scheduler.unit
  split
  · next out hrun =>
    split
    · exact hi
    · have hidle := hi.asleep t (List.mem_of_getElem? h) (by rw [hrun]; rfl)
      refine hi.moves (moved h rfl) (fun _ => hidle) hi.order ?_ (.inr ?_) ?_ ?_
      · simp [set, hrun, Run.work]
      · simp [set, hrun, Run.took]
        omega
      · simp [set, hrun, interrupt, Run.took, Run.interrupted]
        omega
      · exact fun hs hu => .inr ⟨hs, hu, by simp [hrun, Run.heads]⟩
  · exact hi

theorem Inv.ready (hi : σ.Inv) (h : σ.threads[index]? = some t) : (σ.ready index t).Inv := by
  unfold Scheduler.ready
  split
  · exact hi
  · split
    · next out hrun =>
      have hidle := hi.asleep t (List.mem_of_getElem? h) (by rw [hrun]; rfl)
      refine hi.moves (moved h rfl) (fun _ => hidle) hi.order ?_ (.inr ?_) ?_ ?_
      · simp [set, hrun, Run.work]
        omega
      · simp [set, hrun, Run.took]
      · simp [set, hrun, interrupt, Run.took, Run.interrupted]
      · exact fun hs hu => .inr ⟨hs, hu, by simp [hrun, Run.heads]⟩
    · next interrupted out hrun =>
      refine hi.moves (moved h rfl) Bool.noConfusion hi.order ?_ (.inr ?_) ?_ ?_
      · simp [set, hrun, Run.work]
        omega
      · simp [set, hrun, Run.took]
      · cases interrupted
        all_goals simp [set, hrun, interrupt, Run.took, Run.interrupted]
      · exact fun hs hu => .inr ⟨hs, hu, by simp [hrun, Run.heads]⟩
    · exact hi

theorem Inv.proceedRun (hi : σ.Inv) (h : σ.threads[index]? = some t) (hidle : t.call = .idle) :
    (σ.proceedRun index t).Inv := by
  unfold Scheduler.proceedRun
  cases hrun : t.run with
  | outside => exact hi
  | starting =>
    dsimp only
    split
    · refine hi.moves (moved h rfl) Bool.noConfusion hi.order ?_ (.inr ?_) ?_ ?_
      · simp [set, hrun, hidle, Run.work, Call.work]
      · simp [set, hrun, hidle, Run.took, Call.unwritten]
      · simp [set, hrun, hidle, interrupt, Run.took, Run.interrupted, Call.unwritten, Call.interrupts]
      · exact fun hs hu => .inr ⟨hs, hu, by simp [hrun, hidle, Run.heads, Call.heads]⟩
    · refine hi.runs h hidle ?_ ?_ ?_ fun _ _ => .inl ?_
      all_goals simp [hrun, Run.work, Run.took, Run.interrupted, Run.heads]
  | testing =>
    dsimp only
    split
    · refine hi.moves (moved h rfl) Bool.noConfusion hi.order ?_ (.inr ?_) ?_ ?_
      · simp [set, hrun, hidle, Run.work, Call.work]
      · simp [set, hrun, hidle, Run.took, Call.unwritten]
      · simp [set, hrun, hidle, interrupt, Run.took, Run.interrupted, Call.unwritten, Call.interrupts]
      · exact fun _ _ => .inl (by simp [Call.heads, Run.heads])
    · next hrunning =>
      refine hi.runs h hidle ?_ ?_ ?_ fun hs _ => absurd hs hrunning
      all_goals simp [hrun, Run.work, Run.took, Run.interrupted]
  | waiting out =>
    refine hi.runs h hidle ?_ ?_ ?_ fun _ _ => .inl ?_
    all_goals simp [hrun, Run.work, Run.took, Run.interrupted, Run.heads]
  | taken out =>
    dsimp only
    split
    · -- The unit is that of an interrupt, as no handler is queued.
      next hposted =>
      refine hi.moves (moved h rfl) (fun _ => hidle) hi.order ?_ (.inl hposted) ?_ ?_
      · simp [set, hrun, Run.work]
      · simp [set, hrun, interrupt, Run.took, Run.interrupted]
      · exact fun hs hu => .inr ⟨hs, hu, by simp [hrun, Run.heads]⟩
    · next id posted hposted =>
      have horder := hi.order
      rw [hposted] at horder
      refine hi.moves (moved h rfl) (fun _ => hidle) ?_ ?_ (.inr ?_) ?_ ?_
      · simpa [set] using horder
      · simp [set, hrun, hposted, Run.work]
        omega
      · simp [set, hrun, hposted, Run.took]
        omega
      · simp [set, hrun, hposted, interrupt, Run.took, Run.interrupted]
        omega
      · exact fun hs hu => .inr ⟨hs, hu, by simp [hrun, Run.heads]⟩
  | popped interrupted out =>
    cases interrupted with
    | false =>
      refine hi.runs h hidle ?_ ?_ ?_ fun _ _ => .inl ?_
      all_goals simp [hrun, Run.work, Run.took, Run.interrupted, Run.heads]
    | true =>
      -- An interrupt is consumed, so the flag was set.
      have hone := le_total Thread.interrupted h
      have hbalance := hi.balance
      have henough := hi.enough
      have hsignaled : σ.signaled = true := by
        cases hs : σ.signaled with
        | true => rfl
        | false =>
          simp only [interrupt, hs, Bool.toNat_false] at hbalance
          simp only [Thread.interrupted, hrun, Run.interrupted] at hone
          omega
      refine hi.moves (moved h rfl) (fun _ => hidle) hi.order ?_ (.inr ?_) ?_ ?_
      · simp [set, hrun, Run.work]
      · simp [set, hrun, Run.took]
      · simp [set, hrun, hsignaled, interrupt, Run.took, Run.interrupted]
        omega
      · exact fun _ _ => .inl (by simp [Run.heads])
  | completing out =>
    cases out with
    | zero =>
      refine hi.runs h hidle ?_ ?_ ?_ fun _ _ => .inl ?_
      all_goals simp [hrun, Run.work, Run.took, Run.interrupted, Run.heads]
    | succ out =>
      refine hi.runs h hidle ?_ ?_ ?_ fun _ _ => .inl ?_
      all_goals simp [hrun, Run.work, Run.took, Run.interrupted, Run.heads]
  | handling out =>
    refine hi.runs h hidle ?_ ?_ ?_ fun _ _ => .inl ?_
    all_goals simp [hrun, Run.work, Run.took, Run.interrupted, Run.heads]
  | finishing out =>
    refine hi.workFinished h hidle ?_ ?_ Bool.noConfusion
    · simp [hrun, Run.work]
      omega
    · simp [hrun, Run.took, Run.interrupted, Run.heads]

theorem Inv.step (hi : σ.Inv) (e : Event) : (σ.step e).Inv := by
  unfold Scheduler.step
  cases e with
  | join =>
    have hi₁ := hi.counted
    unfold unfinished at hi₁
    refine ⟨?_, hi.order, ?_, ?_, fun hs hu => ?_, fun t ht hwaits => ?_⟩
    · simpa [unfinished, Call.work, Run.work] using hi₁
    · simpa [Call.unwritten, Run.took] using hi.enough
    · simpa [interrupt, Call.unwritten, Run.took, Run.interrupted, Call.interrupts] using hi.balance
    · simpa [Call.heads, Run.heads] using hi.signal hs hu
    · rcases List.mem_append.mp ht with hold | hnew
      · exact hi.asleep t hold hwaits
      · rw [List.mem_singleton.mp hnew]
  | request index r =>
    dsimp only
    split
    · exact hi
    · next t h =>
      split
      · next hcalling => exact hi.request h hcalling r
      · exact hi
  | unit index =>
    dsimp only
    split
    · exact hi
    · next t h => exact hi.unit h
  | ready index =>
    dsimp only
    split
    · exact hi
    · next t h => exact hi.ready h
  | proceed index =>
    dsimp only
    split
    · exact hi
    · next t h =>
      split
      · next hidle => exact hi.proceedRun h hidle
      · exact hi.proceedCall h

theorem create_inv : Inv {} :=
  ⟨rfl, rfl, Nat.le_refl 0, rfl, fun hs => Bool.noConfusion hs, fun _ ht => absurd ht List.not_mem_nil⟩

/-! ### Stops -/

/-- The threads about to store a stop. -/
def stoppers (σ : Scheduler) : ℕ := total Thread.stops σ.threads

/-- A thread goes into a stop, other than by its call. -/
def StopsItself (σ : Scheduler) (e : Event) : Prop :=
  (σ.step e).stoppers = σ.stoppers + 1 ∧ ∀ index, e ≠ .request index .stop

/-- The outstanding work falls to zero, or `run` finds it at zero. -/
def Finishes (σ : Scheduler) (e : Event) : Prop :=
  σ.outstanding ≠ 0 ∧ (σ.step e).outstanding = 0 ∨
    σ.outstanding = 0 ∧ ∃ index, e = .proceed index ∧ σ.threads[index]? = some ⟨.starting, .idle⟩

theorem stoppers_set (h : σ.threads[index]? = some t) (t' : Thread) :
    (σ.set index t').stoppers + t.stops = σ.stoppers + t'.stops :=
  total_set _ h t'

/-- Work that is finished, of a thread that is in no call. -/
theorem workFinished_stoppers (h : σ.threads[index]? = some t) (hidle : t.call = .idle)
    {guards : ℕ} {run : Run} (hpos : 0 < σ.outstanding) :
    let σ' := ({ σ with guards := guards } : Scheduler).workFinished index { t with run := run }
    σ'.stoppers = σ.stoppers + 1 ↔ σ'.outstanding = 0 := by
  dsimp only
  unfold Scheduler.workFinished
  dsimp only
  split
  · next hzero =>
    have hset := stoppers_set (σ := { σ with outstanding := σ.outstanding - 1, guards := guards }) h
      ⟨run, .stopping⟩
    simp [set, stoppers, hidle, Call.stops] at hset ⊢
    omega
  · next hnonzero =>
    have hset := stoppers_set (σ := { σ with outstanding := σ.outstanding - 1, guards := guards }) h
      ⟨run, t.call⟩
    simp [set, stoppers, hidle, Call.stops] at hset ⊢
    omega

/-- No thread goes into a stop, and no work is finished. -/
def Quiet (σ σ' : Scheduler) : Prop :=
  σ'.stoppers ≤ σ.stoppers ∧ σ.outstanding ≤ σ'.outstanding

theorem Quiet.refl (σ : Scheduler) : Quiet σ σ := ⟨Nat.le_refl _, Nat.le_refl _⟩

theorem quiet_set (h : σ.threads[index]? = some t) {t' : Thread}
    (hthreads : σ'.threads = σ.threads.set index t') (hstops : t'.stops ≤ t.stops) (ho : σ.outstanding ≤ σ'.outstanding) :
    Quiet σ σ' := by
  have hset := stoppers_set h t'
  refine ⟨?_, ho⟩
  have heq : σ'.stoppers = (σ.set index t').stoppers := congrArg (total Thread.stops) hthreads
  omega

/-- The check of `run`, the one step that may find the work at zero. -/
def Checks (σ : Scheduler) (e : Event) : Prop :=
  ∃ index, e = .proceed index ∧ σ.threads[index]? = some ⟨.starting, .idle⟩

theorem Quiet.stops {e : Event} (h : Quiet σ (σ.step e)) (hchecks : ¬ Checks σ e) :
    StopsItself σ e ↔ Finishes σ e := by
  obtain ⟨hs, ho⟩ := h
  refine ⟨fun h => absurd h.1 (by omega), ?_⟩
  rintro (⟨hne, hzero⟩ | ⟨_, hfinds⟩)
  · omega
  · exact absurd hfinds hchecks

/-- A step that finishes work. -/
theorem stops_iff {e : Event} (hcall : ∀ index, e ≠ .request index .stop) (hchecks : ¬ Checks σ e)
    (hpos : 0 < σ.outstanding)
    (h : (σ.step e).stoppers = σ.stoppers + 1 ↔ (σ.step e).outstanding = 0) :
    StopsItself σ e ↔ Finishes σ e := by
  constructor
  · exact fun hstops => .inl ⟨by omega, h.mp hstops.1⟩
  · rintro (⟨_, hzero⟩ | ⟨_, hfinds⟩)
    · exact ⟨h.mpr hzero, hcall⟩
    · exact absurd hfinds hchecks

theorem quiet_request (h : σ.threads[index]? = some t) {r : Request} (hstop : r ≠ .stop)
    (hreset : r ≠ .reset) : Quiet σ (σ.request index t r) := by
  unfold Scheduler.request
  cases r with
  | post => exact quiet_set h rfl (Nat.zero_le _) (Nat.le_succ _)
  | stop => exact absurd rfl hstop
  | restart => exact Quiet.refl σ
  | run =>
    dsimp only
    split
    · exact quiet_set h rfl (Nat.le_refl _) (Nat.le_refl _)
    · exact Quiet.refl σ
  | start => exact ⟨Nat.le_refl _, Nat.le_succ _⟩
  | waitTimer => exact ⟨Nat.le_refl _, Nat.le_succ _⟩
  | guard => exact ⟨Nat.le_refl _, Nat.le_succ _⟩
  | reset => exact absurd rfl hreset
  | complete =>
    dsimp only
    split
    · exact Quiet.refl σ
    · exact quiet_set h rfl (Nat.zero_le _) (Nat.le_refl _)
  | enqueue =>
    dsimp only
    split
    · exact Quiet.refl σ
    · exact quiet_set h rfl (Nat.zero_le _) (Nat.le_refl _)

theorem Inv.stops_request (hi : σ.Inv) (h : σ.threads[index]? = some t) (hcalling : calling t = true)
    (r : Request) (hstep : σ.step (.request index r) = σ.request index t r) :
    StopsItself σ (.request index r) ↔ Finishes σ (.request index r) := by
  have hchecks : ¬ Checks σ (.request index r) := fun ⟨_, he, _⟩ => by cases he
  by_cases hstop : r = .stop
  · subst hstop
    refine ⟨fun hs => absurd rfl (hs.2 index), ?_⟩
    rintro (⟨hne, hzero⟩ | ⟨_, hfinds⟩)
    · rw [hstep] at hzero
      exact absurd hzero hne
    · exact absurd hfinds hchecks
  by_cases hreset : r = .reset
  · subst hreset
    unfold Scheduler.request at hstep
    dsimp only at hstep
    split at hstep
    · refine Quiet.stops ?_ hchecks
      rw [hstep]
      exact Quiet.refl σ
    · have hle := hi.work_le h
      refine stops_iff (fun _ he => by cases he) hchecks (by omega) ?_
      rw [hstep]
      exact workFinished_stoppers h (calling_idle hcalling).1 (by omega)
  · refine Quiet.stops ?_ hchecks
    rw [hstep]
    exact quiet_request h hstop hreset

theorem quiet_proceedCall (h : σ.threads[index]? = some t) : Quiet σ (σ.proceedCall index t) := by
  unfold Scheduler.proceedCall
  cases t.call with
  | idle => exact Quiet.refl σ
  | posting => exact quiet_set h rfl (Nat.zero_le _) (Nat.le_refl _)
  | pushed => exact quiet_set h rfl (Nat.zero_le _) (Nat.le_refl _)
  | interrupting => exact quiet_set h rfl (Nat.zero_le _) (Nat.le_refl _)
  | stopping => exact quiet_set h rfl (Nat.zero_le _) (Nat.le_refl _)
  | signaling =>
    dsimp only
    split
    · exact quiet_set h rfl (Nat.zero_le _) (Nat.le_refl _)
    · exact quiet_set h rfl (Nat.zero_le _) (Nat.le_refl _)

theorem quiet_unit (h : σ.threads[index]? = some t) : Quiet σ (σ.unit index t) := by
  unfold Scheduler.unit
  split
  · split
    · exact Quiet.refl σ
    · exact quiet_set h rfl (Nat.le_refl _) (Nat.le_refl _)
  · exact Quiet.refl σ

theorem quiet_ready (h : σ.threads[index]? = some t) : Quiet σ (σ.ready index t) := by
  unfold Scheduler.ready
  split
  · exact Quiet.refl σ
  · split
    · exact quiet_set h rfl (Nat.le_refl _) (Nat.le_refl _)
    · exact quiet_set h rfl (Nat.le_refl _) (Nat.le_refl _)
    · exact Quiet.refl σ

/-- In `run`, only the check and the end of a handler may send a thread into a stop. -/
theorem quiet_proceedRun (h : σ.threads[index]? = some t) (hstarting : t.run ≠ .starting)
    (hfinishing : ∀ out, t.run ≠ .finishing out) : Quiet σ (σ.proceedRun index t) := by
  unfold Scheduler.proceedRun
  cases hrun : t.run with
  | outside => exact Quiet.refl σ
  | starting => exact absurd hrun hstarting
  | testing =>
    dsimp only
    split
    · exact quiet_set h rfl (Nat.zero_le _) (Nat.le_refl _)
    · exact quiet_set h rfl (Nat.le_refl _) (Nat.le_refl _)
  | waiting out => exact quiet_set h rfl (Nat.le_refl _) (Nat.le_refl _)
  | taken out =>
    dsimp only
    split
    · exact quiet_set h rfl (Nat.le_refl _) (Nat.le_refl _)
    · exact quiet_set h rfl (Nat.le_refl _) (Nat.le_refl _)
  | popped interrupted out => exact quiet_set h rfl (Nat.le_refl _) (Nat.le_refl _)
  | completing out =>
    cases out with
    | zero => exact quiet_set h rfl (Nat.le_refl _) (Nat.le_refl _)
    | succ out => exact quiet_set h rfl (Nat.le_refl _) (Nat.le_refl _)
  | handling out => exact quiet_set h rfl (Nat.le_refl _) (Nat.le_refl _)
  | finishing out => exact absurd hrun (hfinishing out)

theorem Inv.stops_run (hi : σ.Inv) (h : σ.threads[index]? = some t) (hidle : t.call = .idle)
    (hstep : σ.step (.proceed index) = σ.proceedRun index t) :
    StopsItself σ (.proceed index) ↔ Finishes σ (.proceed index) := by
  have hcall : ∀ index', Event.proceed index ≠ .request index' .stop := fun _ he => by cases he
  by_cases hstarting : t.run = .starting
  · -- The check of the outstanding work.
    have ht : t = ⟨.starting, .idle⟩ := by
      rw [← hstarting, ← hidle]
    unfold Scheduler.proceedRun at hstep
    rw [hstarting] at hstep
    dsimp only at hstep
    split at hstep
    · next hzero =>
      refine ⟨fun _ => .inr ⟨hzero, index, rfl, ht ▸ h⟩, fun _ => ⟨?_, hcall⟩⟩
      have hset := stoppers_set h ⟨.outside, .stopping⟩
      rw [hstep]
      simp only [Thread.stops, hidle, Call.stops] at hset
      omega
    · next hnonzero =>
      have hset := stoppers_set h { t with run := .testing }
      constructor
      · intro hs
        have hone := hs.1
        rw [hstep] at hone
        simp only [Thread.stops] at hset
        omega
      · rintro (⟨_, hzero⟩ | ⟨hzero, _⟩)
        · rw [hstep] at hzero
          exact absurd hzero hnonzero
        · exact absurd hzero hnonzero
  have hchecks : ¬ Checks σ (.proceed index) := by
    rintro ⟨index', he, ht⟩
    cases he
    rw [h] at ht
    cases ht
    exact hstarting rfl
  by_cases hfinishing : ∃ out, t.run = .finishing out
  · obtain ⟨out, hrun⟩ := hfinishing
    have hle := hi.work_le h
    simp only [Thread.work, hrun, Run.work] at hle
    refine stops_iff hcall hchecks (by omega) ?_
    unfold Scheduler.proceedRun at hstep
    rw [hrun] at hstep
    rw [hstep]
    exact @workFinished_stoppers σ index t h hidle σ.guards _ (by omega)
  · refine Quiet.stops ?_ hchecks
    rw [hstep]
    exact quiet_proceedRun h hstarting fun out hrun => hfinishing ⟨out, hrun⟩

/-- The scheduler stops itself exactly when its work falls to zero, or is found there. -/
theorem Inv.stops_itself (hi : σ.Inv) (e : Event) : StopsItself σ e ↔ Finishes σ e := by
  have hquiet (he : ∀ index, e ≠ .proceed index) : ¬ Checks σ e := fun ⟨index, heq, _⟩ => he index heq
  cases e with
  | join =>
    refine Quiet.stops ⟨?_, Nat.le_refl _⟩ (hquiet fun _ he => by cases he)
    simp [Scheduler.step, stoppers, Call.stops]
  | request index r =>
    cases h : σ.threads[index]? with
    | none =>
      refine Quiet.stops ?_ (hquiet fun _ he => by cases he)
      simp only [Scheduler.step, h]
      exact Quiet.refl σ
    | some t =>
      by_cases hcalling : calling t = true
      · exact hi.stops_request h hcalling r (by simp only [Scheduler.step, h, hcalling, if_true])
      · refine Quiet.stops ?_ (hquiet fun _ he => by cases he)
        simp only [Scheduler.step, h, hcalling]
        exact Quiet.refl σ
  | unit index =>
    refine Quiet.stops ?_ (hquiet fun _ he => by cases he)
    unfold Scheduler.step
    dsimp only
    split
    · exact Quiet.refl σ
    · next t h => exact quiet_unit h
  | ready index =>
    refine Quiet.stops ?_ (hquiet fun _ he => by cases he)
    unfold Scheduler.step
    dsimp only
    split
    · exact Quiet.refl σ
    · next t h => exact quiet_ready h
  | proceed index =>
    cases h : σ.threads[index]? with
    | none =>
      refine Quiet.stops ?_ ?_
      · simp only [Scheduler.step, h]
        exact Quiet.refl σ
      · rintro ⟨index', he, ht⟩
        cases he
        rw [h] at ht
        cases ht
    | some t =>
      by_cases hidle : t.call = .idle
      · exact hi.stops_run h hidle (by simp only [Scheduler.step, h, hidle, if_true])
      · refine Quiet.stops ?_ ?_
        · simp only [Scheduler.step, h, hidle, if_false]
          exact quiet_proceedCall h
        · rintro ⟨index', he, ht⟩
          cases he
          rw [h] at ht
          cases ht
          exact hidle rfl

theorem workFinished_stopped (σ : Scheduler) (index : ℕ) (t : Thread) :
    (σ.workFinished index t).stopped = σ.stopped := by
  unfold Scheduler.workFinished
  dsimp only
  split <;> rfl

theorem request_stopped (r : Request) (hstopped : (σ.request index t r).stopped = true) :
    σ.stopped = true := by
  unfold Scheduler.request at hstopped
  cases r with
  | restart => cases hstopped
  | run | complete | enqueue =>
    dsimp only at hstopped
    split at hstopped
    · exact hstopped
    · exact hstopped
  | reset =>
    dsimp only at hstopped
    split at hstopped
    · exact hstopped
    · rwa [workFinished_stopped] at hstopped
  | post | stop | start | waitTimer | guard => exact hstopped

theorem proceedRun_stopped (σ : Scheduler) (index : ℕ) (t : Thread) :
    (σ.proceedRun index t).stopped = σ.stopped := by
  unfold Scheduler.proceedRun
  split
  case h_10 => exact workFinished_stopped σ index _
  all_goals
    first
    | rfl
    | split <;> rfl

/-- A stop is stored by a thread that went into one. -/
theorem step_stopped {e : Event} (hstopped : (σ.step e).stopped = true) :
    σ.stopped = true ∨ 0 < σ.stoppers := by
  unfold Scheduler.step at hstopped
  cases e with
  | join => exact .inl hstopped
  | request index r =>
    dsimp only at hstopped
    split at hstopped
    · exact .inl hstopped
    · split at hstopped
      · exact .inl (request_stopped r hstopped)
      · exact .inl hstopped
  | unit index =>
    dsimp only at hstopped
    split at hstopped
    · exact .inl hstopped
    · unfold Scheduler.unit at hstopped
      split at hstopped
      · split at hstopped
        · exact .inl hstopped
        · exact .inl hstopped
      · exact .inl hstopped
  | ready index =>
    dsimp only at hstopped
    split at hstopped
    · exact .inl hstopped
    · unfold Scheduler.ready at hstopped
      split at hstopped
      · exact .inl hstopped
      · split at hstopped
        · exact .inl hstopped
        · exact .inl hstopped
        · exact .inl hstopped
  | proceed index =>
    dsimp only at hstopped
    split at hstopped
    · exact .inl hstopped
    · next t h =>
      split at hstopped
      · rw [proceedRun_stopped] at hstopped
        exact .inl hstopped
      · cases hcall : t.call with
        | stopping =>
          have hle := le_total Thread.stops h
          simp only [Thread.stops, hcall, Call.stops] at hle
          exact .inr hle
        | signaling =>
          simp only [Scheduler.proceedCall, hcall] at hstopped
          split at hstopped
          · exact .inl hstopped
          · exact .inl hstopped
        | idle | posting | pushed | interrupting =>
          simp only [Scheduler.proceedCall, hcall] at hstopped
          exact .inl hstopped

/-! ### Nothing is lost -/

/-- The outstanding work is what is not finished and the guards; each posted handler is
taken out by one wait, in the order posted; no handler is queued without a unit for it,
written, to be written or read; the scheduler stops itself when its work falls to zero or
is found there, and a stop is stored by a thread that went into one; and once stopped there is a unit for a thread that waits, or another
thread is to write one. -/
structure Lossless (σ : Scheduler) : Prop where
  counted : σ.outstanding = σ.unfinished + σ.guards
  once : σ.taken ++ σ.posted = List.range σ.count
  seen : σ.posted.length ≤
    σ.units + total Thread.unwritten σ.threads + total Thread.took σ.threads
  ends : ∀ e, StopsItself σ e ↔ Finishes σ e
  stores : ∀ e, (σ.step e).stopped = true → σ.stopped = true ∨ 0 < σ.stoppers
  returns : σ.stopped = true → ∀ t ∈ σ.threads, t.run.waits = true →
    0 < σ.units ∨ ∃ t' ∈ σ.threads, t'.run.waits = false ∧ t'.signals

/-- A thread that is to signal is awake. -/
theorem Inv.signaler (hi : σ.Inv) {f : Thread → ℕ} (hf : ∀ t, 0 < f t → t.signals)
    (hpos : 0 < total f σ.threads) :
    ∃ t' ∈ σ.threads, t'.run.waits = false ∧ t'.signals := by
  obtain ⟨t, ht, hft⟩ := exists_of_total hpos
  refine ⟨t, ht, ?_, hf t hft⟩
  by_contra hne
  rw [Bool.not_eq_false] at hne
  have hidle := hi.asleep t ht hne
  have hsignals := hf t hft
  cases hrun : t.run with
  | waiting out =>
    simp [Thread.signals, hidle, hrun, Call.unwritten, Call.interrupts, Call.heads, Run.heads,
      Run.took, Run.interrupted] at hsignals
  | outside | starting | testing | taken | popped | completing | handling | finishing =>
    rw [hrun] at hne
    cases hne

theorem Inv.lossless (hi : σ.Inv) : Lossless σ := by
  refine ⟨hi.counted, hi.order, hi.enough, hi.stops_itself, fun _ => step_stopped, ?_⟩
  intro hstopped _ _ _
  cases hsignaled : σ.signaled with
  | false =>
    exact .inr (hi.signaler (fun _ h => .inr (.inr (.inl h))) (hi.signal hstopped hsignaled))
  | true =>
    -- The interrupt is in the eventfd, or a thread has it in hand.
    have hbalance := hi.balance
    simp only [interrupt, hsignaled, Bool.toNat_true] at hbalance
    by_cases hunits : 0 < σ.units
    · exact .inl hunits
    right
    by_cases hunwritten : 0 < total Thread.unwritten σ.threads
    · exact hi.signaler (fun _ h => .inl h) hunwritten
    by_cases htook : 0 < total Thread.took σ.threads
    · exact hi.signaler (fun _ h => .inr (.inr (.inr (.inl h)))) htook
    by_cases hinterrupted : 0 < total Thread.interrupted σ.threads
    · exact hi.signaler (fun _ h => .inr (.inr (.inr (.inr h)))) hinterrupted
    · exact hi.signaler (f := Thread.interrupts) (fun _ h => .inr (.inl h)) (by omega)

/-- In every run, of any threads. -/
theorem scheduler_lossless (events : List Event) : Lossless (after step {} events) :=
  (after_invariant (P := Inv) (fun _ e hi => hi.step e) create_inv events).lossless

end Scheduler

end BitcoinNetwork.Io
