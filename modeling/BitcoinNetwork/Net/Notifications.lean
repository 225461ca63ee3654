import BitcoinNetwork.Net.ProxyRuns

/-!
# The order of notifications

A notification that is deferred while a batch is open is queued behind the close of the
batch, once that has been written. A notification issued between the two is queued ahead
of it.
-/

namespace BitcoinNetwork.Net
open Async

/-- The numbers of the notifications among entries, in order. -/
def notices (entries : List Pending) : List ℕ :=
  (entries.filter (·.part = .notification)).map Pending.id

@[simp] theorem notices_append (entries more : List Pending) :
    notices (entries ++ more) = notices entries ++ notices more := by
  unfold notices
  rw [List.filter_append, List.map_append]

theorem notices_singleton {e : Pending} (h : e.part = .notification) : notices [e] = [e.id] := by
  unfold notices
  rw [List.filter_cons_of_pos (by simpa using h)]
  rfl

theorem notices_other {e : Pending} (h : e.part ≠ .notification) : notices [e] = [] := by
  unfold notices
  rw [List.filter_cons_of_neg (by simpa using h)]
  rfl

theorem notices_front {entries more : List Pending} (h : entries <+: more) :
    notices entries <+: notices more := by
  obtain ⟨rest, rfl⟩ := h
  rw [notices_append]
  exact List.prefix_append _ _

theorem notices_sublist (entries : List Pending) :
    (notices entries).Sublist (entries.map Pending.id) :=
  List.filter_sublist.map _

namespace Proxy
variable {p p' : Proxy}

/-! ### Calls in time -/

/-- A notification is issued while the batch is open, or with none deferred. -/
def Call.Timely (p : Proxy) : Call → Prop
  | .notify _ => p.stopped = true ∨ p.batched = true ∨ p.deferred = []
  | _ => True

def CallsTimely (p : Proxy) : List Call → Prop
  | [] => True
  | c :: made => c.Timely p ∧ CallsTimely (p.call c) made

/-- The calls made in the handler of an entry. -/
def CompletionTimely (p : Proxy) (completion : Completion) (ec : Code) (made : List Call) : Prop :=
  match completion with
  | .caller => CallsTimely p made
  | .closed =>
    if ec = .success ∧ p.http = false then CallsTimely p.drain made else CallsTimely p made
  | .stop => True

def HandlerTimely (p : Proxy) (ec : Code) (made : List Call) : Prop :=
  match p.queue with
  | [] => True
  | e :: _ => CompletionTimely { p with handled := p.handled ++ [e.id] } e.completion ec made

def FlightTimely (p : Proxy) (index : ℕ) (header : Bool) (ec : Code) (made : List Call) : Prop :=
  if header ∧ ec = .success then True
  else HandlerTimely { p with inflight := p.inflight.eraseIdx index } ec made

def MeteredTimely (p : Proxy) (index : ℕ) (f : Flight) (header : Bool) (ec : Code) (delay : Bool)
    (made : List Call) : Prop :=
  let p :=
    if header ∨ p.stopped then p else { p with completed := p.completed ++ [f.entry.id] }
  if delay ∧ p.stopped = false then True else FlightTimely p index header ec made

/-- The calls that an event makes, each in time. -/
def Event.Timely (p : Proxy) : Event → Prop
  | .call c => c.Timely p
  | .sent index ec delay made =>
    match p.inflight[index]? with
    | none => True
    | some f =>
      match f.stage with
      | .header => MeteredTimely p index f true ec delay made
      | .body => MeteredTimely p index f false ec delay made
      | .throttled _ _ => True
  | .charged index made =>
    match p.inflight[index]? with
    | none => True
    | some f =>
      match f.stage with
      | .header | .body => True
      | .throttled header ec => FlightTimely p index header ec made
  | .stopping => True

/-- The calls of a run, each in time. -/
def RunTimely (p : Proxy) : List Event → Prop
  | [] => True
  | e :: events => e.Timely p ∧ RunTimely (p.step e) events

/-! ### What is admitted -/

theorem enqueue_admitted (p : Proxy) (e : Pending) : (p.enqueue e).admitted = p.admitted := by
  rw [enqueue_eq]

theorem doWrite_admitted (p : Proxy) (e : Pending) : (p.doWrite e).admitted = p.admitted := by
  unfold doWrite
  split
  · rfl
  · exact enqueue_admitted p _

theorem queueClose_admitted (p : Proxy) (completion : Completion) :
    (p.queueClose completion).admitted = p.admitted :=
  doWrite_admitted _ _

theorem stop_admitted (p : Proxy) (stranded : Bool) : (p.stop stranded).admitted = p.admitted := by
  unfold stop
  split
  · rfl
  · split
    · exact queueClose_admitted p .stop
    · rfl

theorem charge_admitted (p : Proxy) (e : Pending) : (p.charge e).1.admitted = p.admitted := by
  unfold charge
  dsimp only
  split
  · split
    · rfl
    · exact stop_admitted p true
  · rfl

theorem doNotification_admitted (p : Proxy) (e : Pending) :
    (p.doNotification e).1.admitted = p.admitted := by
  unfold doNotification
  split
  · rfl
  · have hcharge := charge_admitted p e
    split
    · next hq => rwa [hq] at hcharge
    · next q e' hq =>
      rw [hq] at hcharge
      exact (enqueue_admitted q e').trans hcharge

/-- Only the call of a notification admits one. -/
theorem call_admitted (p : Proxy) (c : Call) :
    (p.call c).admitted = p.admitted ∨ ∃ cost, c = .notify cost := by
  cases c with
  | message bounded cost =>
    left
    cases bounded with
    | true => exact doNotification_admitted _ _
    | false => exact doWrite_admitted _ _
  | respond =>
    left
    unfold call doResponseQueue
    dsimp only
    rw [doWrite_admitted]
    split <;> rfl
  | notify cost => exact .inr ⟨cost, rfl⟩
  | openBatch => exact .inl rfl
  | closeBatch => exact .inl (queueClose_admitted p .closed)
  | parse begins => exact .inl rfl
  | stop stranded => exact .inl (stop_admitted p stranded)

/-! ### Calls and handlers -/

/-- Of a channel that is not stopped, what was admitted is what was queued, in order, and
behind it what is deferred. -/
structure Kept (p : Proxy) : Prop where
  split : p.stopped = false → p.admitted = notices p.queued ++ notices p.deferred
  kind : ∀ e ∈ p.deferred, e.part = .notification

theorem Called.running (h : Called p p') (hrunning : p'.stopped = false) : p.stopped = false := by
  by_contra hstopped
  rw [h.stopped (Bool.not_eq_false _ ▸ hstopped)] at hrunning
  cases hrunning

theorem Call.Timely.kept {c : Call} (htimely : c.Timely p) (hk : Kept p) : Kept (p.call c) := by
  have hcalled := call_effect p c
  cases hcalled.effect with
  | quiet hcycle hdeferred hadmitted _ =>
    refine ⟨fun hs => ?_, by rw [hdeferred]; exact hk.kind⟩
    rw [hadmitted, hdeferred, show (p.call c).queued = p.queued from congrArg Cycle.queued hcycle]
    exact hk.split (hcalled.running hs)
  | refused _ hcycle hdeferred hadmitted _ _ _ =>
    refine ⟨fun hs => ?_, by rw [hdeferred]; exact hk.kind⟩
    rw [hadmitted, hdeferred, show (p.call c).queued = p.queued from congrArg Cycle.queued hcycle]
    exact hk.split (hcalled.running hs)
  | queued e hstopped hcycle hdeferred _ _ hadmitted _ =>
    have hqueued : (p.call c).queued = p.queued ++ [e] :=
      (congrArg Cycle.queued hcycle).trans (cycle_queued_enqueue _ e)
    refine ⟨fun _ => ?_, by rw [hdeferred]; exact hk.kind⟩
    rw [hqueued, notices_append, hdeferred]
    rcases hadmitted with ⟨hpart, hadmitted, hbatched⟩ | ⟨hpart, hadmitted⟩
    · -- Nothing is deferred, as the notification is not, so the order is that of the queue.
      have hnone : p.deferred = [] := by
        rcases call_admitted p c with hsame | ⟨cost, rfl⟩
        · rw [hsame] at hadmitted
          exact absurd (congrArg List.length hadmitted) (by simp)
        · rcases htimely with hs | hb | hnone
          · rw [hstopped] at hs
            cases hs
          · rw [hbatched] at hb
            cases hb
          · exact hnone
      have hsplit := hk.split hstopped
      rw [hnone] at hsplit ⊢
      rw [hadmitted, hsplit, notices_singleton hpart]
      simp only [notices, List.filter_nil, List.map_nil, List.append_nil]
    · rw [hadmitted, notices_other hpart, List.append_nil]
      exact hk.split hstopped
  | deferred e hcycle hdeferred _ _ hpart hadmitted _ =>
    refine ⟨fun hs => ?_, ?_⟩
    · rw [hadmitted, hdeferred, notices_append, notices_singleton hpart,
        show (p.call c).queued = p.queued from congrArg Cycle.queued hcycle,
        hk.split (hcalled.running hs), List.append_assoc]
    · intro e' he'
      rw [hdeferred] at he'
      rcases List.mem_append.mp he' with hold | hnew
      · exact hk.kind e' hold
      · rw [List.mem_singleton.mp hnew]
        exact hpart

theorem CallsTimely.kept {made : List Call} (htimely : CallsTimely p made) (hk : Kept p) :
    Kept (p.calls made) := by
  induction made generalizing p with
  | nil => exact hk
  | cons c made ih => exact ih htimely.2 (htimely.1.kept hk)

theorem Kept.write (hk : Kept p) : Kept p.write := by
  rw [write_eq]
  exact ⟨hk.split, hk.kind⟩

theorem Kept.drain (hk : Kept p) : Kept p.drain := by
  unfold Proxy.drain
  have hq : Kept { p with
      queue := p.queue ++ p.deferred, queued := p.queued ++ p.deferred, deferred := [] } := by
    refine ⟨fun hs => ?_, fun _ he => absurd he List.not_mem_nil⟩
    have hsplit : p.admitted = notices p.queued ++ notices p.deferred := hk.split hs
    show p.admitted = notices (p.queued ++ p.deferred) ++ notices []
    rw [hsplit, notices_append]
    exact (List.append_nil _).symm
  dsimp only
  split
  · exact hq
  · exact hq.write

theorem CompletionTimely.kept {completion : Completion} {ec : Code} {made : List Call}
    (htimely : CompletionTimely p completion ec made) (hk : Kept p) :
    Kept (p.complete completion ec made) := by
  unfold complete
  unfold CompletionTimely at htimely
  cases completion with
  | caller => exact htimely.kept hk
  | closed =>
    dsimp only at htimely ⊢
    split
    · next hc =>
      rw [if_pos hc] at htimely
      exact htimely.kept hk.drain
    · next hc =>
      rw [if_neg hc] at htimely
      exact htimely.kept hk
  | stop => exact ⟨fun hs => Bool.noConfusion hs, hk.kind⟩

theorem Kept.pop (hk : Kept p) (backlog : ℕ) :
    let q : Proxy := { p with backlog := backlog, queue := p.queue.tail }
    Kept (if q.stopped then q else q.write) := by
  have hq : Kept { p with backlog := backlog, queue := p.queue.tail } := ⟨hk.split, hk.kind⟩
  dsimp only
  split
  · exact hq
  · exact hq.write

theorem handlerTimely_cons {e : Pending} {rest : List Pending} (hqueue : p.queue = e :: rest)
    (ec : Code) (made : List Call) : HandlerTimely p ec made ↔
      CompletionTimely { p with handled := p.handled ++ [e.id] } e.completion ec made := by
  unfold HandlerTimely
  rw [hqueue]

theorem HandlerTimely.kept {ec : Code} {made : List Call} (htimely : HandlerTimely p ec made)
    (hk : Kept p) : Kept (p.handleWrite ec made) := by
  unfold handleWrite
  split
  · exact hk
  · next e _ hqueue =>
    have hc := (handlerTimely_cons hqueue ec made).mp htimely
    exact (hc.kept ⟨hk.split, hk.kind⟩).pop _

theorem FlightTimely.kept {index : ℕ} {f : Flight} {header : Bool} {ec : Code} {made : List Call}
    (htimely : FlightTimely p index header ec made) (hk : Kept p) :
    Kept (p.handleFlight index f header ec made) := by
  unfold handleFlight
  unfold FlightTimely at htimely
  split
  · exact ⟨hk.split, hk.kind⟩
  · next hc =>
    rw [if_neg hc] at htimely
    exact htimely.kept ⟨hk.split, hk.kind⟩

theorem MeteredTimely.kept {index : ℕ} {f : Flight} {header : Bool} {ec : Code} {delay : Bool}
    {made : List Call} (htimely : MeteredTimely p index f header ec delay made) (hk : Kept p) :
    Kept (p.handleMetered index f header ec delay made) := by
  unfold handleMetered
  unfold MeteredTimely at htimely
  dsimp only at htimely ⊢
  have hq : Kept (if header = true ∨ p.stopped = true then p
      else { p with completed := p.completed ++ [f.entry.id] }) := by
    split
    · exact hk
    · exact ⟨hk.split, hk.kind⟩
  generalize (if header = true ∨ p.stopped = true then p
    else { p with completed := p.completed ++ [f.entry.id] }) = q at htimely hq ⊢
  split
  · exact ⟨hq.split, hq.kind⟩
  · next hc =>
    rw [if_neg hc] at htimely
    exact htimely.kept hq

theorem Event.Timely.kept {e : Event} (htimely : e.Timely p) (hi : Inv p) (hk : Kept p) :
    Kept (p.step e) := by
  unfold Proxy.step
  cases e with
  | call c => exact Call.Timely.kept htimely hk
  | sent index ec delay made =>
    unfold Event.Timely at htimely
    dsimp only at htimely ⊢
    split
    · exact hk
    · next f hf =>
      rw [hf] at htimely
      dsimp only at htimely
      split
      · next hstage =>
        rw [hstage] at htimely
        exact htimely.kept hk
      · next hstage =>
        rw [hstage] at htimely
        exact htimely.kept hk
      · exact hk
  | charged index made =>
    unfold Event.Timely at htimely
    dsimp only at htimely ⊢
    split
    · exact hk
    · next f hf =>
      rw [hf] at htimely
      dsimp only at htimely
      split
      · exact hk
      · exact hk
      · next hstage =>
        rw [hstage] at htimely
        exact htimely.kept hk
  | stopping =>
    dsimp only
    split
    · exact hk
    · next hposted =>
      have hstopped : p.stopped = true := hi.sound.posted hposted
      refine ⟨fun hs => ?_, fun _ he => absurd he List.not_mem_nil⟩
      rw [show p.stopping.stopped = p.stopped from rfl, hstopped] at hs
      cases hs

theorem RunTimely.kept {events : List Event} (htimely : RunTimely p events) (hi : Inv p)
    (hk : Kept p) : Kept (after step p events) ∧ Inv (after step p events) := by
  induction events generalizing p with
  | nil => exact ⟨hk, hi⟩
  | cons e events ih => exact ih htimely.2 (hi.step e) (htimely.1.kept hi hk)

/-! ### The order of notifications -/

/-- The notifications written are those admitted first, in order, each once, and what was
admitted and is not written is queued or deferred. -/
structure Ordered (p : Proxy) : Prop where
  ordered : notices p.written <+: p.admitted
  once : (notices p.written).Nodup
  kept : ∀ id ∈ p.admitted, id ∈ notices p.written ∨ id ∈ notices p.queue ∨ id ∈ notices p.deferred

theorem Kept.ordered (hk : Kept p) (hi : Inv p) (hrunning : p.stopped = false) : Ordered p := by
  have hsplit := hk.split hrunning
  refine ⟨?_, ?_, ?_⟩
  · rw [hsplit]
    exact (notices_front hi.written).trans (List.prefix_append _ _)
  · refine hi.sound.distinct.sublist ?_
    unfold ids
    rw [List.map_append]
    have hwritten := (notices_sublist p.written).trans (hi.written.map Pending.id).sublist
    exact (hwritten.trans (List.sublist_append_left _ _)).trans (List.sublist_append_left _ _)
  · intro id hid
    rw [hsplit] at hid
    rcases hi.cycle with ⟨_, done, hqueued, _, hinflight⟩ | ⟨_, hstopped⟩
    · rw [show p.queued = done ++ p.queue from hqueued, notices_append, List.append_assoc,
        List.mem_append, List.mem_append] at hid
      refine hid.imp (fun hdone => ?_) fun h => h
      have hprefix : done <+: p.written := by
        rcases hinflight with ⟨_, hwritten, _⟩ | ⟨e, _, _, _, _, hwritten⟩
        · rw [show p.written = done from hwritten]
        · rw [show p.written = done ++ [e] from hwritten]
          exact List.prefix_append _ _
      exact (notices_front hprefix).subset hdone
    · rw [hstopped] at hrunning
      cases hrunning

/-- In every run whose notifications are issued in time. -/
theorem notifications_ordered (http zeromq : Bool) (maximumBacklog : ℕ) (events : List Event)
    (htimely : RunTimely (create http zeromq maximumBacklog) events) :
    (after step (create http zeromq maximumBacklog) events).stopped = false →
      Ordered (after step (create http zeromq maximumBacklog) events) := by
  intro hrunning
  obtain ⟨hk, hi⟩ := htimely.kept (create_inv http zeromq maximumBacklog)
    ⟨fun _ => rfl, fun _ he => absurd he List.not_mem_nil⟩
  exact hk.ordered hi hrunning

/-- A response is written in a batch, with a notification deferred, and the batch is
closed. -/
def closing : List Event :=
  [.call .openBatch, .call .respond, .call (.notify 0), .call .closeBatch]

/-- The close is written, and the next notification is issued behind it. -/
theorem notifications_ordered_closed :
    RunTimely (create false false 4096)
        (closing ++ [.sent 0 .success false [], .sent 0 .success false [],
          .call (.notify 0)]) ∧
      Ordered (after step (create false false 4096)
        (closing ++ [.sent 0 .success false [], .sent 0 .success false [], .call (.notify 0)])) := by
  have htimely : RunTimely (create false false 4096) (closing ++
      [.sent 0 .success false [], .sent 0 .success false [], .call (.notify 0)]) :=
    ⟨trivial, trivial, .inr (.inl rfl), trivial, trivial, trivial, .inr (.inr rfl), trivial⟩
  exact ⟨htimely, notifications_ordered false false 4096 _ htimely rfl⟩

/-- A notification is issued once the close is queued, and before it is written. -/
def overtaking : List Event :=
  closing ++ [.call (.notify 0), .sent 0 .success false [], .sent 0 .success false []]

/-- The later of the two notifications is written, and the earlier is not. -/
theorem not_notifications_ordered : ¬ ∀ (http zeromq : Bool) (maximumBacklog : ℕ)
    (events : List Event), (after step (create http zeromq maximumBacklog) events).stopped = false →
      Ordered (after step (create http zeromq maximumBacklog) events) := fun h =>
  absurd (h false false 4096 overtaking rfl).ordered (by decide)

end Proxy

end BitcoinNetwork.Net
