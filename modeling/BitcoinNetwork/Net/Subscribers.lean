import BitcoinNetwork.Async.Deliveries
import BitcoinNetwork.Async.Ordered

/-!
# Subscribers (async/subscriber.hpp, async/unsubscriber.hpp, async/desubscriber.hpp)

Handlers are numbered as they are subscribed. What a handler returns may be told by all that
was called before it.
-/

namespace BitcoinNetwork.Net.Subscribers
open Async

inductive Code
  | success
  | subscriberStopped
  | subscriberExists
  | other (value : ℕ)
  deriving DecidableEq

variable {Args Entry : Type}

/-- What a handler is called with. -/
structure Note (Args : Type) where
  ec : Code
  args : Args

/-- A call of a handler, with what it returned. -/
structure Call (Args : Type) where
  handler : ℕ
  note : Note Args
  kept : Bool

abbrev Answer (Args : Type) : Type := List (Call Args) → ℕ → Note Args → Bool

/-- The calls of one handler. -/
def calls (log : List (Call Args)) (handler : ℕ) : List (Note Args × Bool) :=
  (log.filter fun call => call.handler = handler).map fun call => (call.note, call.kept)

/-- A handler that is called, behind what was called before. -/
def invoke (answer : Answer Args) (log : List (Call Args)) (handler : ℕ) (note : Note Args) :
    List (Call Args) := log ++ [⟨handler, note, answer log handler note⟩]

/-- The loop of a `notify` that erases the handlers that return false. -/
def notifyEach (answer : Answer Args) (handler : Entry → ℕ) (note : Note Args) :
    List Entry → List (Call Args) → List Entry × List (Call Args)
  | [], log => ([], log)
  | entry :: queue, log =>
    let (others, more) :=
      notifyEach answer handler note queue (invoke answer log (handler entry) note)
    (if answer log (handler entry) note then entry :: others else others, more)

/-! ### Calls -/

theorem calls_append (log more : List (Call Args)) (handler : ℕ) :
    calls (log ++ more) handler = calls log handler ++ calls more handler := by
  unfold calls
  rw [List.filter_append, List.map_append]

theorem calls_invoke_self (answer : Answer Args) (log : List (Call Args)) (handler : ℕ)
    (note : Note Args) :
    calls (invoke answer log handler note) handler =
      calls log handler ++ [(note, answer log handler note)] := by
  unfold invoke
  rw [calls_append]
  simp [calls]

theorem calls_invoke_other (answer : Answer Args) (log : List (Call Args)) {handler other : ℕ}
    (h : other ≠ handler) (note : Note Args) :
    calls (invoke answer log handler note) other = calls log other := by
  unfold invoke
  rw [calls_append]
  simp [calls, Ne.symm h]

/-- Each handler of a queue is called once, and stays where it returns true. -/
theorem notifyEach_spec (answer : Answer Args) (handler : Entry → ℕ) (note : Note Args)
    {queue : List Entry} (h : (queue.map handler).Nodup) {log : List (Call Args)}
    {others : List Entry} {more : List (Call Args)}
    (heq : notifyEach answer handler note queue log = (others, more)) :
    others.Sublist queue ∧
      (∀ other ∉ queue.map handler, calls more other = calls log other) ∧
      ∀ entry ∈ queue, ∃ kept,
        calls more (handler entry) = calls log (handler entry) ++ [(note, kept)] ∧
          if kept then entry ∈ others else handler entry ∉ others.map handler := by
  induction queue generalizing log others more with
  | nil =>
    obtain ⟨rfl, rfl⟩ := Prod.mk.inj heq
    exact ⟨List.Sublist.refl _, fun _ _ => rfl, fun _ h => nomatch h⟩
  | cons first queue ih =>
    rw [List.map_cons, List.nodup_cons] at h
    obtain ⟨hfirst, hnodup⟩ := h
    unfold notifyEach at heq
    cases hrest : notifyEach answer handler note queue (invoke answer log (handler first) note) with
    | mk kept last =>
      rw [hrest] at heq
      obtain ⟨hothers, rfl⟩ := Prod.mk.inj heq
      obtain ⟨hsublist, hquiet, hcalled⟩ := ih hnodup hrest
      have hleft : handler first ∉ kept.map handler := fun hmem =>
        hfirst ((hsublist.map handler).subset hmem)
      have hsub : others.Sublist (first :: queue) := by
        rw [← hothers]
        split
        · exact hsublist.cons_cons first
        · exact hsublist.cons first
      refine ⟨hsub, ?_, ?_⟩
      · intro other hother
        rw [List.map_cons, List.mem_cons, not_or] at hother
        rw [hquiet other hother.2, calls_invoke_other _ _ hother.1]
      · intro entry hentry
        rcases List.mem_cons.mp hentry with rfl | hmem
        · refine ⟨answer log (handler entry) note, ?_, ?_⟩
          · rw [hquiet _ hfirst, calls_invoke_self]
          · rw [← hothers]
            cases answer log (handler entry) note with
            | true => exact List.mem_cons_self
            | false => exact hleft
        · obtain ⟨answered, hcalls, hstay⟩ := hcalled entry hmem
          have hne : handler entry ≠ handler first := fun he =>
            hfirst (he ▸ List.mem_map_of_mem hmem)
          refine ⟨answered, by rw [hcalls, calls_invoke_other _ _ hne], ?_⟩
          rw [← hothers]
          cases answered with
          | true =>
            have hmem : entry ∈ kept := hstay
            show entry ∈ if answer log (handler first) note then first :: kept else kept
            split
            · exact List.mem_cons_of_mem _ hmem
            · exact hmem
          | false =>
            have hmem : handler entry ∉ kept.map handler := hstay
            show handler entry ∉ (if answer log (handler first) note then first :: kept
              else kept).map handler
            split
            · rw [List.map_cons, List.mem_cons, not_or]
              exact ⟨hne, hmem⟩
            · exact hmem

/-- What a subscription comes to: the one call that refuses it, or what is heard. -/
def Served [Inhabited Args] (refusal : Option Code) (notes : List (Note Args))
    (heard : List (Note Args × Bool)) : Prop :=
  match refusal with
  | some ec => ∃ kept, heard = [(⟨ec, default⟩, kept)]
  | none => Heard notes heard

/-! ### unsubscriber -/

/-- A call of a `subscriber` or an `unsubscriber`. -/
inductive Event (Args : Type)
  | subscribe
  | notify (note : Note Args)
  | stop (note : Note Args)

def Event.isStop : Event Args → Bool
  | .stop _ => true
  | _ => false

/-- What an event is to a handler that is subscribed. -/
def address : Event Args → Address (Note Args)
  | .subscribe => .quiet
  | .notify note => .told note
  | .stop note => .ended note

/-- `unsubscriber`. -/
structure Unsubscriber (Args : Type) where
  stopped : Bool := false
  queue : List ℕ := []
  count : ℕ := 0
  log : List (Call Args) := []

namespace Unsubscriber

/-- `notify`. -/
def notify (answer : Answer Args) (s : Unsubscriber Args) (note : Note Args) : Unsubscriber Args :=
  if s.stopped then s
  else
    let (queue, log) := notifyEach answer id note s.queue s.log
    { s with queue := queue, log := log }

/-- `stop`. -/
def stop (answer : Answer Args) (s : Unsubscriber Args) (note : Note Args) : Unsubscriber Args :=
  if s.stopped then s else { s.notify answer note with stopped := true, queue := [] }

/-- The code that a subscription is refused with. -/
def refusal (s : Unsubscriber Args) : Option Code :=
  if s.stopped then some .subscriberStopped else none

variable [Inhabited Args]

/-- `subscribe`. -/
def subscribe (answer : Answer Args) (s : Unsubscriber Args) : Unsubscriber Args × Code :=
  if s.stopped then
    ({ s with
        count := s.count + 1
        log := invoke answer s.log s.count ⟨.subscriberStopped, default⟩ }, .subscriberStopped)
  else ({ s with queue := s.queue ++ [s.count], count := s.count + 1 }, .success)

def step (answer : Answer Args) (s : Unsubscriber Args) : Event Args → Unsubscriber Args
  | .subscribe => (s.subscribe answer).1
  | .notify note => s.notify answer note
  | .stop note => s.stop answer note

end Unsubscriber

/-- The handlers of a queue are apart and were subscribed, there are none behind a stop, and
those that were not subscribed were not called. -/
structure Unsubscriber.Sound (s : Unsubscriber Args) : Prop where
  nodup : s.queue.Nodup
  issued : ∀ handler ∈ s.queue, handler < s.count
  stopped : s.stopped = true → s.queue = []
  fresh : ∀ handler, s.count ≤ handler → calls s.log handler = []

namespace Unsubscriber
variable (answer : Answer Args) {s : Unsubscriber Args}

/-- What a notification, or that of a stop, does. -/
theorem notify_spec (h : s.Sound) (hrunning : s.stopped = false) (note : Note Args) :
    (s.notify answer note).stopped = false ∧ (s.notify answer note).count = s.count ∧
      (s.notify answer note).queue.Sublist s.queue ∧
      (∀ other ∉ s.queue, calls (s.notify answer note).log other = calls s.log other) ∧
      ∀ handler ∈ s.queue, ∃ kept,
        calls (s.notify answer note).log handler = calls s.log handler ++ [(note, kept)] ∧
          if kept then handler ∈ (s.notify answer note).queue
          else handler ∉ (s.notify answer note).queue := by
  unfold notify
  rw [if_neg (by rw [hrunning]; exact Bool.false_ne_true)]
  cases hout : notifyEach answer id note s.queue s.log with
  | mk others more =>
    have hspec := notifyEach_spec answer id note (by rw [List.map_id]; exact h.nodup) hout
    rw [List.map_id, List.map_id] at hspec
    exact ⟨hrunning, rfl, hspec⟩

theorem sound_notify (h : s.Sound) (note : Note Args) : (s.notify answer note).Sound := by
  cases hs : s.stopped with
  | true =>
    have heq : s.notify answer note = s := if_pos hs
    rw [heq]
    exact h
  | false =>
    obtain ⟨hrunning, hcount, hsublist, hquiet, _⟩ := notify_spec answer h hs note
    constructor
    · exact h.nodup.sublist hsublist
    · intro handler hmem
      rw [hcount]
      exact h.issued handler (hsublist.subset hmem)
    · intro hstop
      rw [hrunning] at hstop
      exact nomatch hstop
    · intro handler hle
      rw [hcount] at hle
      rw [hquiet handler fun hmem => absurd (h.issued handler hmem) (by omega)]
      exact h.fresh handler hle

theorem sound_stop (h : s.Sound) (note : Note Args) : (s.stop answer note).Sound := by
  have hn := sound_notify answer h note
  unfold stop
  split
  · exact h
  · exact ⟨List.nodup_nil, fun _ hmem => absurd hmem List.not_mem_nil, fun _ => rfl, hn.fresh⟩

variable [Inhabited Args]

theorem sound_subscribe (h : s.Sound) : (s.subscribe answer).1.Sound := by
  have hnew : s.count ∉ s.queue := fun hmem => absurd (h.issued _ hmem) (Nat.lt_irrefl _)
  unfold subscribe
  split
  · next hs =>
    constructor
    · exact h.nodup
    · exact fun handler hmem => Nat.lt_succ_of_lt (h.issued handler hmem)
    · exact h.stopped
    · intro handler hle
      have hlt : s.count < handler := hle
      show calls (invoke answer s.log s.count _) handler = []
      rw [calls_invoke_other _ _ (by omega)]
      exact h.fresh handler (Nat.le_of_lt hlt)
  · next hs =>
    constructor
    · exact List.Nodup.append h.nodup (List.nodup_singleton _) (List.disjoint_singleton.mpr hnew)
    · intro handler hmem
      rcases List.mem_append.mp hmem with hmem | hmem
      · exact Nat.lt_succ_of_lt (h.issued handler hmem)
      · rw [List.mem_singleton.mp hmem]
        exact Nat.lt_succ_self _
    · exact fun hstop => absurd hstop hs
    · intro handler hle
      exact h.fresh handler (Nat.le_of_succ_le hle)

theorem sound_step (h : s.Sound) (e : Event Args) : (step answer s e).Sound := by
  cases e with
  | subscribe => exact sound_subscribe answer h
  | notify note => exact sound_notify answer h note
  | stop note => exact sound_stop answer h note

/-- What each event does to a handler that is in the queue. -/
theorem step_quiet {handler : ℕ} (h : s.Sound ∧ handler ∈ s.queue) {e : Event Args}
    (he : address e = .quiet) : ((step answer s e).Sound ∧ handler ∈ (step answer s e).queue) ∧
      calls (step answer s e).log handler = calls s.log handler := by
  cases e with
  | subscribe =>
    have hlt := h.1.issued handler h.2
    refine ⟨⟨sound_subscribe answer h.1, ?_⟩, ?_⟩
    · show handler ∈ (s.subscribe answer).1.queue
      unfold subscribe
      split
      · exact h.2
      · exact List.mem_append_left _ h.2
    · show calls (s.subscribe answer).1.log handler = _
      unfold subscribe
      split
      · exact calls_invoke_other _ _ (by omega) _
      · rfl
  | notify note => exact nomatch he
  | stop note => exact nomatch he

omit [Inhabited Args] in
theorem running_of_mem (h : s.Sound) {handler : ℕ} (hmem : handler ∈ s.queue) :
    s.stopped = false := by
  cases hs : s.stopped with
  | false => rfl
  | true =>
    rw [h.stopped hs] at hmem
    exact nomatch hmem

/-- A handler that was subscribed and is not in the queue. -/
def Gone (s : Unsubscriber Args) (handler : ℕ) : Prop :=
  s.Sound ∧ handler < s.count ∧ handler ∉ s.queue

theorem step_told {handler : ℕ} (h : s.Sound ∧ handler ∈ s.queue) {e : Event Args}
    {note : Note Args} (he : address e = .told note) : ∃ kept,
      calls (step answer s e).log handler = calls s.log handler ++ [(note, kept)] ∧
        if kept then (step answer s e).Sound ∧ handler ∈ (step answer s e).queue
        else (step answer s e).Gone handler := by
  cases e with
  | subscribe => exact nomatch he
  | notify other =>
    cases he
    obtain ⟨_, hcount, _, _, hcalled⟩ :=
      notify_spec answer h.1 (running_of_mem h.1 h.2) note
    obtain ⟨kept, hcalls, hstay⟩ := hcalled handler h.2
    refine ⟨kept, hcalls, ?_⟩
    cases kept with
    | true => exact ⟨sound_notify answer h.1 note, hstay⟩
    | false =>
      have hlt : handler < (s.notify answer note).count := hcount ▸ h.1.issued handler h.2
      exact ⟨sound_notify answer h.1 note, hlt, hstay⟩
  | stop other => exact nomatch he

theorem step_ended {handler : ℕ} (h : s.Sound ∧ handler ∈ s.queue) {e : Event Args}
    {note : Note Args} (he : address e = .ended note) : ∃ kept,
      calls (step answer s e).log handler = calls s.log handler ++ [(note, kept)] ∧
        (step answer s e).Gone handler := by
  cases e with
  | subscribe => exact nomatch he
  | notify other => exact nomatch he
  | stop other =>
    cases he
    have hrunning := running_of_mem h.1 h.2
    obtain ⟨_, hcount, _, _, hcalled⟩ := notify_spec answer h.1 hrunning note
    obtain ⟨kept, hcalls, _⟩ := hcalled handler h.2
    have heq : s.stop answer note = { s.notify answer note with stopped := true, queue := [] } :=
      if_neg (by rw [hrunning]; exact Bool.false_ne_true)
    refine ⟨kept, ?_, sound_stop answer h.1 note, ?_, ?_⟩
    · show calls (s.stop answer note).log handler = _
      rw [heq]
      exact hcalls
    · show handler < (s.stop answer note).count
      rw [heq]
      show handler < (s.notify answer note).count
      rw [hcount]
      exact h.1.issued handler h.2
    · show handler ∉ (s.stop answer note).queue
      rw [heq]
      exact List.not_mem_nil

/-- A handler that is gone is not called. -/
theorem step_gone {handler : ℕ} (h : s.Gone handler) (e : Event Args) :
    (step answer s e).Gone handler ∧
      calls (step answer s e).log handler = calls s.log handler := by
  obtain ⟨hsound, hlt, hnot⟩ := h
  have hnotify (note : Note Args) : (s.notify answer note).Gone handler ∧
      calls (s.notify answer note).log handler = calls s.log handler := by
    cases hs : s.stopped with
    | true =>
      have heq : s.notify answer note = s := if_pos hs
      rw [heq]
      exact ⟨⟨hsound, hlt, hnot⟩, rfl⟩
    | false =>
      obtain ⟨_, hcount, hsublist, hquiet, _⟩ := notify_spec answer hsound hs note
      exact ⟨⟨sound_notify answer hsound note, hcount ▸ hlt, fun hmem => hnot (hsublist.subset hmem)⟩,
        hquiet handler hnot⟩
  cases e with
  | subscribe =>
    refine ⟨⟨sound_subscribe answer hsound, ?_, ?_⟩, ?_⟩
    · show handler < (s.subscribe answer).1.count
      unfold subscribe
      split
      · exact Nat.lt_succ_of_lt hlt
      · exact Nat.lt_succ_of_lt hlt
    · show handler ∉ (s.subscribe answer).1.queue
      unfold subscribe
      split
      · exact hnot
      · rw [List.mem_append, List.mem_singleton, not_or]
        exact ⟨hnot, by omega⟩
    · show calls (s.subscribe answer).1.log handler = _
      unfold subscribe
      split
      · exact calls_invoke_other _ _ (by omega) _
      · rfl
  | notify note => exact hnotify note
  | stop note =>
    have hn := hnotify note
    show (s.stop answer note).Gone handler ∧ calls (s.stop answer note).log handler = _
    have hsound' := sound_stop answer hsound note
    unfold stop at hsound' ⊢
    split
    · exact ⟨⟨hsound, hlt, hnot⟩, rfl⟩
    · next hs =>
      rw [if_neg hs] at hsound'
      exact ⟨⟨hsound', hn.1.2.1, List.not_mem_nil⟩, hn.2⟩

theorem stopped_step (s : Unsubscriber Args) (e : Event Args) :
    (step answer s e).stopped = (s.stopped || e.isStop) := by
  cases e with
  | subscribe =>
    show (s.subscribe answer).1.stopped = (s.stopped || false)
    unfold subscribe
    split <;> exact (Bool.or_false _).symm
  | notify note =>
    show (s.notify answer note).stopped = (s.stopped || false)
    unfold notify
    split <;> exact (Bool.or_false _).symm
  | stop note =>
    show (s.stop answer note).stopped = (s.stopped || true)
    unfold stop
    split
    · next hs => rw [hs, Bool.or_true]
    · exact (Bool.or_true _).symm

theorem stopped_after (s : Unsubscriber Args) (events : List (Event Args)) :
    (after (step answer) s events).stopped = (s.stopped || events.any Event.isStop) := by
  induction events generalizing s with
  | nil => exact (Bool.or_false _).symm
  | cons e events ih => rw [after_cons, ih, stopped_step, List.any_cons, Bool.or_assoc]

omit [Inhabited Args] in
theorem sound_empty : ({} : Unsubscriber Args).Sound :=
  ⟨List.nodup_nil, fun _ hmem => absurd hmem List.not_mem_nil, fun _ => rfl, fun _ _ => rfl⟩

theorem sound_after (h : s.Sound) (events : List (Event Args)) :
    (after (step answer) s events).Sound :=
  after_invariant (P := Sound) (fun _ e hs => sound_step answer hs e) h events

/-- A subscription is served, whatever was called before it and is called behind it. -/
theorem served_after (h : s.Sound) (rest : List (Event Args)) :
    Served s.refusal (notes address rest)
      (calls (after (step answer) s (.subscribe :: rest)).log s.count) := by
  have hfresh := h.fresh s.count (Nat.le_refl _)
  have hsound := sound_subscribe answer h
  rw [after_cons]
  unfold refusal
  cases hs : s.stopped with
  | true =>
    have heq : (s.subscribe answer).1 = { s with
        count := s.count + 1
        log := invoke answer s.log s.count ⟨.subscriberStopped, default⟩ } := by
      unfold subscribe
      rw [if_pos hs]
    have hgone : (step answer s .subscribe).Gone s.count := by
      refine ⟨hsound, ?_, ?_⟩
      · show s.count < (s.subscribe answer).1.count
        rw [heq]
        exact Nat.lt_succ_self _
      · show s.count ∉ (s.subscribe answer).1.queue
        rw [heq]
        exact fun hmem => absurd (h.issued _ hmem) (Nat.lt_irrefl _)
    have hafter := gone_after (step answer) (calls ·.log s.count) (Gone · s.count)
      (fun _ e hg => step_gone answer hg e) hgone rest
    refine ⟨answer s.log s.count ⟨.subscriberStopped, default⟩, hafter.trans ?_⟩
    show calls (s.subscribe answer).1.log s.count = _
    rw [heq]
    show calls (invoke answer s.log s.count _) s.count = _
    rw [calls_invoke_self, hfresh]
    rfl
  | false =>
    have heq : (s.subscribe answer).1 =
        { s with queue := s.queue ++ [s.count], count := s.count + 1 } := by
      unfold subscribe
      rw [if_neg (by rw [hs]; exact Bool.false_ne_true)]
    have hheld : (step answer s .subscribe).Sound ∧ s.count ∈ (step answer s .subscribe).queue := by
      refine ⟨hsound, ?_⟩
      show s.count ∈ (s.subscribe answer).1.queue
      rw [heq]
      exact List.mem_append_right _ List.mem_cons_self
    obtain ⟨more, hmore, hheard⟩ := heard_after (step answer) address (calls ·.log s.count)
      (fun s' => s'.Sound ∧ s.count ∈ s'.queue) (Gone · s.count)
      (fun _ _ hh he => step_quiet answer hh he) (fun _ _ _ hh he => step_told answer hh he)
      (fun _ _ _ hh he => step_ended answer hh he) (fun _ e hg => step_gone answer hg e) hheld rest
    have hnone : calls (step answer s .subscribe).log s.count = [] := by
      show calls (s.subscribe answer).1.log s.count = _
      rw [heq]
      exact hfresh
    rw [hmore, hnone]
    exact hheard

end Unsubscriber

/-! ### subscriber -/

/-- `subscriber`. Its handlers return nothing, and are told as ones that return true. -/
structure Subscriber (Args : Type) where
  stopped : Bool := false
  queue : List ℕ := []
  count : ℕ := 0
  log : List (Call Args) := []

namespace Subscriber

/-- `notify`. -/
def notify (s : Subscriber Args) (note : Note Args) : Subscriber Args :=
  if s.stopped then s else { s with log := s.log ++ s.queue.map fun handler => ⟨handler, note, true⟩ }

/-- `stop`. -/
def stop (s : Subscriber Args) (note : Note Args) : Subscriber Args :=
  if s.stopped then s else { s.notify note with stopped := true, queue := [] }

variable [Inhabited Args]

/-- `subscribe`. -/
def subscribe (s : Subscriber Args) : Subscriber Args × Code :=
  if s.stopped then
    ({ s with
        count := s.count + 1
        log := s.log ++ [⟨s.count, ⟨.subscriberStopped, default⟩, true⟩] }, .subscriberStopped)
  else ({ s with queue := s.queue ++ [s.count], count := s.count + 1 }, .success)

def step (s : Subscriber Args) : Event Args → Subscriber Args
  | .subscribe => s.subscribe.1
  | .notify note => s.notify note
  | .stop note => s.stop note

end Subscriber

namespace Subscriber
variable {s : Subscriber Args}

/-- The answer of handlers that return nothing. -/
def stays : Answer Args := fun _ _ _ => true

/-- A `subscriber` is an `unsubscriber` whose handlers stay. -/
def unsubscriber (s : Subscriber Args) : Unsubscriber Args := ⟨s.stopped, s.queue, s.count, s.log⟩

theorem notifyEach_stays (note : Note Args) (queue : List ℕ) (log : List (Call Args)) :
    notifyEach stays id note queue log =
      (queue, log ++ queue.map fun handler => ⟨handler, note, true⟩) := by
  induction queue generalizing log with
  | nil =>
    rw [List.map_nil, List.append_nil]
    rfl
  | cons first queue ih =>
    unfold notifyEach
    rw [ih]
    unfold invoke
    rw [List.append_assoc]
    rfl

theorem unsubscriber_notify (s : Subscriber Args) (note : Note Args) :
    (s.notify note).unsubscriber = s.unsubscriber.notify stays note := by
  unfold notify Unsubscriber.notify
  rw [notifyEach_stays]
  cases hs : s.stopped with
  | true => simp [unsubscriber, hs]
  | false => simp [unsubscriber, hs]

variable [Inhabited Args]

theorem unsubscriber_step (s : Subscriber Args) (e : Event Args) :
    (s.step e).unsubscriber = s.unsubscriber.step stays e := by
  cases e with
  | subscribe =>
    show s.subscribe.1.unsubscriber = (s.unsubscriber.subscribe stays).1
    unfold subscribe Unsubscriber.subscribe
    cases hs : s.stopped with
    | true => simp [unsubscriber, hs, invoke, stays]
    | false => simp [unsubscriber, hs]
  | notify note => exact unsubscriber_notify s note
  | stop note =>
    have hn := unsubscriber_notify s note
    show (s.stop note).unsubscriber = s.unsubscriber.stop stays note
    unfold stop Unsubscriber.stop
    rw [← hn]
    cases hs : s.stopped with
    | true => simp [unsubscriber, hs]
    | false => simp [unsubscriber, hs]

theorem unsubscriber_after (s : Subscriber Args) (events : List (Event Args)) :
    (after step s events).unsubscriber = after (Unsubscriber.step stays) s.unsubscriber events := by
  induction events generalizing s with
  | nil => rfl
  | cons e events ih => rw [after_cons, after_cons, ih, unsubscriber_step]

theorem stays_step (h : ∀ call ∈ s.log, call.kept = true) (e : Event Args) :
    ∀ call ∈ (s.step e).log, call.kept = true := by
  have hnotify (note : Note Args) : ∀ call ∈ (s.notify note).log, call.kept = true := by
    unfold notify
    split
    · exact h
    · intro call hmem
      rcases List.mem_append.mp hmem with hmem | hmem
      · exact h call hmem
      · obtain ⟨_, _, rfl⟩ := List.mem_map.mp hmem
        rfl
  cases e with
  | subscribe =>
    show ∀ call ∈ s.subscribe.1.log, call.kept = true
    unfold subscribe
    split
    · intro call hmem
      rcases List.mem_append.mp hmem with hmem | hmem
      · exact h call hmem
      · rw [List.mem_singleton.mp hmem]
    · exact h
  | notify note => exact hnotify note
  | stop note =>
    show ∀ call ∈ (s.stop note).log, call.kept = true
    unfold stop
    split
    · exact h
    · exact hnotify note

theorem stays_after (h : ∀ call ∈ s.log, call.kept = true) (events : List (Event Args)) :
    ∀ call ∈ (after step s events).log, call.kept = true :=
  after_invariant (P := fun s : Subscriber Args => ∀ call ∈ s.log, call.kept = true)
    (fun _ e hs => stays_step hs e) h events

/-- A subscription is refused, or its handler is called with each note up to the stop. -/
theorem calls_after (h : s.unsubscriber.Sound) (hstays : ∀ call ∈ s.log, call.kept = true)
    (rest : List (Event Args)) :
    calls (after step s (.subscribe :: rest)).log s.count =
      if s.stopped then [(⟨.subscriberStopped, default⟩, true)]
      else (notes address rest).map (·, true) := by
  have hserved := Unsubscriber.served_after stays h rest
  rw [← unsubscriber_after] at hserved
  have hall : ∀ x ∈ calls (after step s (.subscribe :: rest)).log s.count, x.2 = true := by
    intro x hx
    have hkept := stays_after hstays (.subscribe :: rest)
    obtain ⟨call, hcall, rfl⟩ := List.mem_map.mp hx
    exact hkept call (List.mem_filter.mp hcall).1
  unfold Served Unsubscriber.refusal at hserved
  cases hs : s.stopped with
  | true =>
    rw [show s.unsubscriber.stopped = true from hs] at hserved
    obtain ⟨kept, hkept⟩ := hserved
    have hcalls : calls (after step s (.subscribe :: rest)).log s.count = _ := hkept
    rw [hcalls] at hall ⊢
    rw [show kept = true from hall _ List.mem_cons_self]
    rfl
  | false =>
    rw [show s.unsubscriber.stopped = false from hs] at hserved
    have hheard : Heard (notes address rest)
        (calls (after step s (.subscribe :: rest)).log s.count) := hserved
    exact hheard.eq_of_stays hall

end Subscriber

end BitcoinNetwork.Net.Subscribers
