import BitcoinNetwork.Net.Proxy
import Mathlib.Data.List.Nodup

/-!
# Runs of the write queue

What one call does to the queue is said once (`call_effect`), and the discipline of the
queue follows for every run.
-/

namespace BitcoinNetwork.Net
open Async

/-- The send cycle of a channel, apart from its batches and its backlog. -/
structure Cycle where
  queue : List Pending
  inflight : List Flight
  queued : List Pending
  written : List Pending
  handled : List ℕ
  purged : Bool

namespace Cycle

def write (c : Cycle) : Cycle :=
  match c.queue with
  | [] => c
  | e :: _ =>
    { c with
      written := c.written ++ [e]
      inflight := c.inflight ++ [⟨e, if e.headed then .header else .body⟩] }

def enqueue (c : Cycle) (e : Pending) : Cycle :=
  let started := c.queue ≠ []
  let c := { c with queue := c.queue ++ [e], queued := c.queued ++ [e] }
  if started then c else c.write

end Cycle

namespace Proxy

def cycle (p : Proxy) : Cycle :=
  ⟨p.queue, p.inflight, p.queued, p.written, p.handled, p.purged⟩

theorem cycle_write (p : Proxy) : p.write.cycle = p.cycle.write := by
  unfold write Cycle.write
  cases h : p.queue with
  | nil => simp only [cycle, h]
  | cons e rest => simp only [cycle, h]

theorem cycle_enqueue (p : Proxy) (e : Pending) : (p.enqueue e).cycle = p.cycle.enqueue e := by
  unfold enqueue Cycle.enqueue
  by_cases h : p.queue = []
  · have hc : ¬ p.cycle.queue ≠ [] := fun hne => hne h
    rw [if_neg (fun hne => hne h), if_neg hc, cycle_write]
    rfl
  · have hc : p.cycle.queue ≠ [] := h
    rw [if_pos h, if_pos hc]
    rfl

/-- What is not of the cycle is left as it is by `write`. -/
theorem write_eq (p : Proxy) : p.write =
    { p with written := p.cycle.write.written, inflight := p.cycle.write.inflight } := by
  unfold write Cycle.write cycle
  cases h : p.queue with
  | nil => cases p; cases h; rfl
  | cons e rest => rfl

theorem enqueue_eq (p : Proxy) (e : Pending) : p.enqueue e =
    { p with
      queue := p.queue ++ [e]
      queued := p.queued ++ [e]
      written := (p.cycle.enqueue e).written
      inflight := (p.cycle.enqueue e).inflight } := by
  unfold enqueue Cycle.enqueue
  by_cases h : p.queue = []
  · have hc : ¬ p.cycle.queue ≠ [] := fun hne => hne h
    rw [if_neg (fun hne => hne h), if_neg hc, write_eq]
    rfl
  · have hc : p.cycle.queue ≠ [] := h
    rw [if_pos h, if_pos hc]
    rfl

/-! ### What a call does -/

/-- A call queues one entry, defers one, or does neither, and an entry of a call has a
number of its own. -/
inductive Effect (p p' : Proxy) : Prop where
  | quiet (hcycle : p'.cycle = p.cycle) (hdeferred : p'.deferred = p.deferred)
      (hadmitted : p'.admitted = p.admitted) (hrefused : p'.refused = p.refused)
  | refused (id : ℕ) (hcycle : p'.cycle = p.cycle) (hdeferred : p'.deferred = p.deferred)
      (hadmitted : p'.admitted = p.admitted) (hrefused : p'.refused = p.refused ++ [id])
      (hid : p.count ≤ id) (hnext : id < p'.count)
  | queued (e : Pending) (hstopped : p.stopped = false) (hcycle : p'.cycle = p.cycle.enqueue e)
      (hdeferred : p'.deferred = p.deferred) (hid : p.count ≤ e.id) (hnext : e.id < p'.count)
      (hadmitted : e.part = .notification ∧ p'.admitted = p.admitted ++ [e.id] ∧
          p.batched = false ∨
        e.part ≠ .notification ∧ p'.admitted = p.admitted) (hrefused : p'.refused = p.refused)
  | deferred (e : Pending) (hcycle : p'.cycle = p.cycle)
      (hdeferred : p'.deferred = p.deferred ++ [e]) (hid : p.count ≤ e.id)
      (hnext : e.id < p'.count) (hpart : e.part = .notification)
      (hadmitted : p'.admitted = p.admitted ++ [e.id]) (hrefused : p'.refused = p.refused)

/-- The effect of a call, which does not undo a stop. -/
structure Called (p p' : Proxy) : Prop where
  effect : Effect p p'
  count : p.count ≤ p'.count
  stopped : p.stopped = true → p'.stopped = true
  posted : p'.posted ≠ p.posted → p'.stopped = true

/-- The same channel, apart from its batch and from numbers that have been given out. -/
structure Same (p q : Proxy) : Prop where
  cycle : q.cycle = p.cycle
  deferred : q.deferred = p.deferred
  admitted : q.admitted = p.admitted
  refused : q.refused = p.refused
  stopped : q.stopped = p.stopped
  posted : q.posted = p.posted
  count : p.count ≤ q.count

theorem Same.called {p q : Proxy} (h : Same p q) : Called p q :=
  ⟨.quiet h.cycle h.deferred h.admitted h.refused, h.count, fun hs => h.stopped.trans hs,
    fun hne => absurd h.posted hne⟩

theorem Same.enqueue {p q : Proxy} (h : Same p q) {e : Pending} (hstopped : q.stopped = false)
    (hid : p.count ≤ e.id) (hnext : e.id < q.count) (hpart : e.part ≠ .notification) :
    Called p (q.enqueue e) := by
  have hcycle : (q.enqueue e).cycle = p.cycle.enqueue e := by
    rw [cycle_enqueue, h.cycle]
  rw [enqueue_eq] at hcycle ⊢
  refine ⟨.queued e (h.stopped ▸ hstopped) hcycle h.deferred hid hnext (.inr ⟨hpart, h.admitted⟩)
    h.refused,
    h.count, fun hs => h.stopped.trans hs, fun hne => absurd h.posted hne⟩

/-- An entry that is not a notification. -/
theorem Same.doWrite {p q : Proxy} (h : Same p q) {e : Pending} (hid : p.count ≤ e.id)
    (hnext : e.id < q.count) (hpart : e.part ≠ .notification) : Called p (q.doWrite e) := by
  unfold Proxy.doWrite
  split
  · exact h.called
  · next hstopped => exact h.enqueue (Bool.eq_false_iff.mpr hstopped) hid hnext hpart

theorem Same.queueClose {p q : Proxy} (h : Same p q) (completion : Completion) :
    Called p (q.queueClose completion) := by
  have hsame : Same p { q with batched := false, parted := false, count := q.count + 1 } :=
    ⟨h.cycle, h.deferred, h.admitted, h.refused, h.stopped, h.posted, Nat.le_succ_of_le h.count⟩
  exact hsame.doWrite h.count (Nat.lt_succ_self _) Part.noConfusion

theorem Same.stop {p q : Proxy} (h : Same p q) (stranded : Bool) : Called p (q.stop stranded) := by
  unfold Proxy.stop
  split
  · exact h.called
  · split
    · exact h.queueClose .stop
    · exact ⟨.quiet h.cycle h.deferred h.admitted h.refused, h.count, fun _ => rfl, fun _ => rfl⟩

/-- An entry that is not admitted is a call that stops the channel at most, and one that
is leaves the channel as it was. -/
theorem Same.charge {p q : Proxy} (h : Same p q) {e : Pending} (hid : p.count ≤ e.id)
    (hnext : e.id < q.count) :
    (∃ q', q.charge e = (q', none) ∧ Called p q') ∨
      ∃ q' e', q.charge e = (q', some e') ∧ Same p q' ∧ q'.batched = q.batched ∧
        q'.count = q.count ∧ e'.id = e.id ∧ e'.part = e.part := by
  unfold Proxy.charge
  dsimp only
  split
  · split
    · have hrefused := congrArg (· ++ [e.id]) h.refused
      exact .inl ⟨_, rfl, ⟨.refused e.id h.cycle h.deferred h.admitted hrefused hid hnext, h.count,
        fun hs => h.stopped.trans hs, fun hne => absurd h.posted hne⟩⟩
    · exact .inl ⟨_, rfl, h.stop true⟩
  · exact .inr ⟨_, _, rfl, ⟨h.cycle, h.deferred, h.admitted, h.refused, h.stopped, h.posted, h.count⟩, rfl,
      rfl, rfl, rfl⟩

/-- A notification that is admitted is queued, with the number that it has. -/
theorem Same.doNotification {p q : Proxy} (h : Same p q) {e : Pending} (hid : p.count ≤ e.id)
    (hnext : e.id < q.count) :
    (∃ q', q.doNotification e = (q', false) ∧ Called p q') ∨
      ∃ q' e', q.doNotification e = (q'.enqueue e', true) ∧ q'.stopped = false ∧ Same p q' ∧
        q'.batched = q.batched ∧ q'.count = q.count ∧ e'.id = e.id ∧ e'.part = e.part := by
  unfold Proxy.doNotification
  split
  · exact .inl ⟨q, rfl, h.called⟩
  · next hstopped =>
    rcases h.charge hid hnext with ⟨q', hcharge, hcalled⟩ |
      ⟨q', e', hcharge, hsame, hbatched, hcount, hid', hpart⟩
    · rw [hcharge]
      exact .inl ⟨q', rfl, hcalled⟩
    · rw [hcharge]
      have hs : q'.stopped = false :=
        (hsame.stopped.trans h.stopped.symm).trans (Bool.eq_false_iff.mpr hstopped)
      exact .inr ⟨q', e', rfl, hs, hsame, hbatched, hcount, hid', hpart⟩

theorem Same.message {p q : Proxy} (h : Same p q) {e : Pending} (hid : p.count ≤ e.id)
    (hnext : e.id < q.count) (hpart : e.part ≠ .notification) :
    Called p (q.doNotification e).1 := by
  rcases h.doNotification hid hnext with ⟨q', hq, hcalled⟩ |
    ⟨q', e', hq, hstopped, hsame, _, hcount, hid', hpart'⟩
  · rw [hq]
    exact hcalled
  · rw [hq]
    exact hsame.enqueue hstopped (hid'.symm ▸ hid) (by rw [hid', hcount]; exact hnext)
      (hpart'.symm ▸ hpart)

theorem Same.doDeferWrite {p q : Proxy} (h : Same p q) (hbatched : q.batched = p.batched)
    {e : Pending} (hid : p.count ≤ e.id) (hnext : e.id < q.count)
    (hpart : e.part = .notification) : Called p (q.doDeferWrite e) := by
  unfold Proxy.doDeferWrite
  split
  · rcases h.charge hid hnext with ⟨q', hcharge, hcalled⟩ | ⟨q', e', hcharge, hsame, _, hcount, hid', hpart'⟩
    · rw [hcharge]
      exact hcalled
    · rw [hcharge]
      refine ⟨.deferred e' hsame.cycle ?_ (hid'.symm ▸ hid) (by rw [hid']; exact hcount ▸ hnext)
        (hpart'.trans hpart) ?_ hsame.refused, hsame.count, fun hs => hsame.stopped.trans hs,
        fun hne => absurd hsame.posted hne⟩
      · exact congrArg (· ++ [e']) hsame.deferred
      · show q'.admitted ++ [e'.id] = p.admitted ++ [e'.id]
        rw [hsame.admitted]
  · next hopen =>
    rcases h.doNotification hid hnext with ⟨q', hq, hcalled⟩ |
      ⟨q', e', hq, hstopped, hsame, _, hcount, hid', hpart'⟩
    · rw [hq]
      exact hcalled
    · rw [hq]
      have hcycle : (q'.enqueue e').cycle = p.cycle.enqueue e' := by
        rw [cycle_enqueue, hsame.cycle]
      dsimp only
      rw [enqueue_eq] at hcycle ⊢
      refine ⟨.queued e' (hsame.stopped ▸ hstopped) hcycle hsame.deferred (hid'.symm ▸ hid)
        (by rw [hid']; exact hcount ▸ hnext) (.inl ⟨hpart'.trans hpart, ?_, ?_⟩) hsame.refused,
        hsame.count,
        fun hs => hsame.stopped.trans hs, fun hne => absurd hsame.posted hne⟩
      · rw [hid']
        exact congrArg (· ++ [e.id]) hsame.admitted
      · rw [← hbatched]
        exact Bool.eq_false_iff.mpr hopen

theorem Same.refl (p : Proxy) : Same p p := ⟨rfl, rfl, rfl, rfl, rfl, rfl, Nat.le_refl _⟩

theorem Same.next (p : Proxy) : Same p p.next := ⟨rfl, rfl, rfl, rfl, rfl, rfl, Nat.le_succ _⟩

/-- What a call does. -/
theorem call_effect (p : Proxy) (c : Call) : Called p (p.call c) := by
  have hlt : p.count < p.next.count := Nat.lt_succ_self _
  cases c with
  | message bounded cost =>
    cases bounded with
    | true => exact (Same.next p).message (Nat.le_refl _) hlt Part.noConfusion
    | false => exact (Same.next p).doWrite (Nat.le_refl _) hlt Part.noConfusion
  | respond =>
    unfold call doResponseQueue
    have hpart : (if p.batched then Part.response p.parted !p.parted else .response false false) ≠
        .notification := by
      split <;> exact Part.noConfusion
    by_cases hbatched : p.batched = true
    · have hsame : Same p ({ p with parted := true } : Proxy).next :=
        ⟨rfl, rfl, rfl, rfl, rfl, rfl, Nat.le_succ _⟩
      dsimp only
      rw [if_pos hbatched]
      exact hsame.doWrite (Nat.le_refl _) hlt hpart
    · dsimp only
      rw [if_neg hbatched]
      exact (Same.next p).doWrite (Nat.le_refl _) hlt hpart
  | notify cost => exact (Same.next p).doDeferWrite rfl (Nat.le_refl _) hlt rfl
  | openBatch => exact Same.called ⟨rfl, rfl, rfl, rfl, rfl, rfl, Nat.le_refl _⟩
  | closeBatch => exact (Same.refl p).queueClose .closed
  | parse begins => exact Same.called ⟨rfl, rfl, rfl, rfl, rfl, rfl, Nat.le_refl _⟩
  | stop stranded => exact (Same.refl p).stop stranded

/-! ### The cycle -/

end Proxy

/-- The cycle between handlers: what has been handled is written, and the front of the
queue is being written, unless the queue is empty or the channel is stopped. -/
structure Cycle.Normal (c : Cycle) (stopped : Bool) : Prop where
  purged : c.purged = false
  split : ∃ done, c.queued = done ++ c.queue ∧ c.handled = done.map Pending.id ∧
    (c.inflight = [] ∧ c.written = done ∧ (c.queue = [] ∨ stopped = true) ∨
      ∃ e rest sending, c.queue = e :: rest ∧ c.inflight = [⟨e, sending⟩] ∧
        c.written = done ++ [e])

/-- The cycle while the handler of the front entry runs. -/
structure Cycle.Busy (c : Cycle) (front : Pending) : Prop where
  purged : c.purged = false
  inflight : c.inflight = []
  split : ∃ done rest, c.queue = front :: rest ∧ c.queued = done ++ c.queue ∧
    c.written = done ++ [front] ∧ c.handled = (done ++ [front]).map Pending.id

/-- The cycle behind the purge of the queue. -/
structure Cycle.Purged (c : Cycle) : Prop where
  purged : c.purged = true
  queue : c.queue = []
  single : c.inflight.length ≤ 1
  handled : c.handled <+: c.written.map Pending.id
  written : c.written <+: c.queued

namespace Cycle
variable {c : Cycle} {front : Pending} {stopped : Bool}

theorem enqueue_cons {e : Pending} {rest : List Pending} (h : c.queue = e :: rest) (e' : Pending) :
    c.enqueue e' = { c with queue := c.queue ++ [e'], queued := c.queued ++ [e'] } := by
  unfold enqueue
  exact if_pos (by rw [h]; exact List.cons_ne_nil e rest)

theorem enqueue_nil (h : c.queue = []) (e : Pending) :
    c.enqueue e =
      { c with
        queue := [e]
        queued := c.queued ++ [e]
        written := c.written ++ [e]
        inflight := c.inflight ++ [⟨e, if e.headed then .header else .body⟩] } := by
  unfold enqueue
  rw [if_neg (fun hne => hne h)]
  unfold write
  rw [h]
  rfl

theorem Normal.mono (h : c.Normal stopped) {stopped' : Bool}
    (hs : stopped = true → stopped' = true) : c.Normal stopped' := by
  obtain ⟨hpurged, done, hqueued, hhandled, hinflight⟩ := h
  refine ⟨hpurged, done, hqueued, hhandled, ?_⟩
  rcases hinflight with ⟨hnone, hwritten, hqueue⟩ | hfront
  · exact .inl ⟨hnone, hwritten, hqueue.imp id hs⟩
  · exact .inr hfront

theorem Normal.enqueue (h : c.Normal false) (e : Pending) : (c.enqueue e).Normal false := by
  obtain ⟨hpurged, done, hqueued, hhandled, hinflight⟩ := h
  cases hqueue : c.queue with
  | nil =>
    rw [enqueue_nil hqueue]
    rw [hqueue, List.append_nil] at hqueued
    rcases hinflight with ⟨hnone, hwritten, _⟩ | ⟨e', rest, _, hcons, _⟩
    · refine ⟨hpurged, done, congrArg (· ++ [e]) hqueued, hhandled, .inr ⟨e, [],
        if e.headed then .header else .body, rfl, ?_, congrArg (· ++ [e]) hwritten⟩⟩
      rw [hnone]
      rfl
    · rw [hqueue] at hcons
      cases hcons
  | cons e' rest =>
    rw [enqueue_cons hqueue]
    refine ⟨hpurged, done, ?_, hhandled, ?_⟩
    · show c.queued ++ [e] = done ++ (c.queue ++ [e])
      rw [hqueued, List.append_assoc]
    · rcases hinflight with ⟨_, _, hnil | hfalse⟩ | ⟨e'', rest', sending, hcons, hone, hwritten⟩
      · rw [hqueue] at hnil
        cases hnil
      · cases hfalse
      · exact .inr ⟨e'', rest' ++ [e], sending, congrArg (· ++ [e]) hcons, hone, hwritten⟩

theorem Busy.enqueue (h : c.Busy front) (e : Pending) : (c.enqueue e).Busy front := by
  obtain ⟨hpurged, hnone, done, rest, hqueue, hqueued, hwritten, hhandled⟩ := h
  rw [enqueue_cons hqueue]
  refine ⟨hpurged, hnone, done, rest ++ [e], congrArg (· ++ [e]) hqueue, ?_, hwritten, hhandled⟩
  show c.queued ++ [e] = done ++ (c.queue ++ [e])
  rw [hqueued, List.append_assoc]

end Cycle

namespace Proxy
variable {p p' : Proxy} {front : Pending}

/-! ### Calls keep the cycle -/

theorem Called.normal (h : Called p p') (hn : p.cycle.Normal p.stopped) :
    p'.cycle.Normal p'.stopped := by
  cases h.effect with
  | quiet hcycle _ _ _ =>
    rw [hcycle]
    exact hn.mono h.stopped
  | refused _ hcycle _ _ _ _ _ =>
    rw [hcycle]
    exact hn.mono h.stopped
  | queued e hstopped hcycle _ _ _ _ _ =>
    rw [hcycle]
    rw [hstopped] at hn
    exact (hn.enqueue e).mono fun hf => Bool.noConfusion hf
  | deferred e hcycle _ _ _ _ _ _ =>
    rw [hcycle]
    exact hn.mono h.stopped

theorem Called.busy (h : Called p p') (hb : p.cycle.Busy front) : p'.cycle.Busy front := by
  cases h.effect with
  | quiet hcycle _ _ _ => rwa [hcycle]
  | refused _ hcycle _ _ _ _ _ => rwa [hcycle]
  | queued e _ hcycle _ _ _ _ _ =>
    rw [hcycle]
    exact hb.enqueue e
  | deferred e hcycle _ _ _ _ _ _ => rwa [hcycle]

theorem Called.purged (h : Called p p') (hs : p.stopped = true) (hp : p.cycle.Purged) :
    p'.cycle.Purged := by
  cases h.effect with
  | quiet hcycle _ _ _ => rwa [hcycle]
  | refused _ hcycle _ _ _ _ _ => rwa [hcycle]
  | queued e hstopped _ _ _ _ _ _ =>
    rw [hs] at hstopped
    cases hstopped
  | deferred e hcycle _ _ _ _ _ _ => rwa [hcycle]

/-! ### Numbers -/

/-- The numbers of the entries that were queued, that are deferred, and that were refused. -/
def ids (p : Proxy) : List ℕ := (p.queued ++ p.deferred).map Pending.id ++ p.refused

/-- No number is given out twice, and a stop is posted of a stopped channel. -/
structure Sound (p : Proxy) : Prop where
  below : ∀ id ∈ p.ids, id < p.count
  distinct : p.ids.Nodup
  posted : p.posted ≠ 0 → p.stopped = true

/-- An entry with a new number, wherever it goes. -/
theorem Sound.insert (h : Sound p) {id : ℕ} (hperm : p'.ids.Perm (id :: p.ids))
    (hid : p.count ≤ id) (hnext : id < p'.count) (hposted : p'.posted ≠ 0 → p'.stopped = true)
    (hcount : p.count ≤ p'.count) : Sound p' := by
  refine ⟨?_, ?_, hposted⟩
  · intro id' hmem
    rcases List.mem_cons.mp (hperm.mem_iff.mp hmem) with rfl | hold
    · exact hnext
    · exact (h.below id' hold).trans_le hcount
  · refine hperm.nodup_iff.mpr (List.nodup_cons.mpr ⟨fun hmem => ?_, h.distinct⟩)
    exact Nat.lt_irrefl id ((h.below id hmem).trans_le hid)

theorem cycle_queued_enqueue (c : Cycle) (e : Pending) : (c.enqueue e).queued = c.queued ++ [e] := by
  cases h : c.queue with
  | nil => rw [Cycle.enqueue_nil h]
  | cons e' rest => rw [Cycle.enqueue_cons h]

theorem Called.sound (h : Called p p') (hs : Sound p) : Sound p' := by
  have hposted : p'.posted ≠ 0 → p'.stopped = true := by
    intro hne
    by_cases heq : p'.posted = p.posted
    · exact h.stopped (hs.posted (heq ▸ hne))
    · exact h.posted heq
  have hkeep : p'.ids = p.ids → Sound p' := fun hids =>
    ⟨fun id hid => (hs.below id (hids ▸ hid)).trans_le h.count, hids ▸ hs.distinct, hposted⟩
  cases h.effect with
  | quiet hcycle hdeferred _ hrefused =>
    refine hkeep ?_
    unfold ids
    rw [hdeferred, hrefused, show p'.queued = p.queued from congrArg Cycle.queued hcycle]
  | refused id hcycle hdeferred _ hrefused hid hnext =>
    refine hs.insert ?_ hid hnext hposted h.count
    unfold ids
    rw [hdeferred, hrefused, show p'.queued = p.queued from congrArg Cycle.queued hcycle,
      ← List.append_assoc]
    exact List.perm_append_singleton _ _
  | queued e _ hcycle hdeferred hid hnext _ hrefused =>
    have hqueued : p'.queued = p.queued ++ [e] :=
      (congrArg Cycle.queued hcycle).trans (cycle_queued_enqueue _ e)
    refine hs.insert ?_ hid hnext hposted h.count
    unfold ids
    rw [hdeferred, hrefused, hqueued]
    simp only [List.append_assoc, List.map_append, List.map_cons,
      List.singleton_append]
    exact List.perm_middle
  | deferred e hcycle hdeferred hid hnext _ _ hrefused =>
    refine hs.insert ?_ hid hnext hposted h.count
    unfold ids
    rw [hdeferred, hrefused, show p'.queued = p.queued from congrArg Cycle.queued hcycle]
    simp only [List.append_assoc, List.map_append, List.map_cons, List.map_nil,
      List.singleton_append]
    rw [← List.append_assoc, ← List.append_assoc]
    exact List.perm_middle

/-! ### Handlers -/

/-- The calls made in the handler of the front entry. -/
theorem calls_busy (made : List Call) (hb : p.cycle.Busy front) (hs : Sound p) :
    (p.calls made).cycle.Busy front ∧ Sound (p.calls made) := by
  induction made generalizing p with
  | nil => exact ⟨hb, hs⟩
  | cons c made ih =>
    have hcalled := call_effect p c
    exact ih (hcalled.busy hb) (hcalled.sound hs)

theorem drain_busy (hb : p.cycle.Busy front) (hs : Sound p) :
    p.drain.cycle.Busy front ∧ Sound p.drain := by
  obtain ⟨hpurged, hnone, done, rest, hqueue, hqueued, hwritten, hhandled⟩ := hb
  have hstarted : p.queue ≠ [] := by
    rw [show p.queue = front :: rest from hqueue]
    exact List.cons_ne_nil front rest
  unfold drain
  rw [if_pos hstarted]
  refine ⟨⟨hpurged, hnone, done, rest ++ p.deferred, congrArg (· ++ p.deferred) hqueue, ?_,
    hwritten, hhandled⟩, ⟨?_, ?_, hs.posted⟩⟩
  · show p.queued ++ p.deferred = done ++ (p.queue ++ p.deferred)
    rw [show p.queued = done ++ p.queue from hqueued, List.append_assoc]
  · intro id hid
    refine hs.below id ?_
    unfold ids at hid ⊢
    rwa [List.append_nil] at hid
  · have hdistinct := hs.distinct
    unfold ids at hdistinct ⊢
    rwa [List.append_nil]

theorem finishStop_sound (hs : Sound p) : Sound p.finishStop :=
  ⟨hs.below, hs.distinct, fun _ => rfl⟩

theorem complete_busy (completion : Completion) (ec : Code) (made : List Call)
    (hb : p.cycle.Busy front) (hs : Sound p) :
    (p.complete completion ec made).cycle.Busy front ∧ Sound (p.complete completion ec made) := by
  cases completion with
  | caller => exact calls_busy made hb hs
  | closed =>
    unfold complete
    dsimp only
    split
    · obtain ⟨hb', hs'⟩ := drain_busy hb hs
      exact calls_busy made hb' hs'
    · exact calls_busy made hb hs
  | stop => exact ⟨hb, finishStop_sound hs⟩

/-- The front entry is handled, and the next is written. -/
theorem pop_normal {q : Proxy} (hb : q.cycle.Busy front) (hs : Sound q) (backlog : ℕ) :
    let r : Proxy := { q with backlog := backlog, queue := q.queue.tail }
    let r' := if r.stopped then r else r.write
    r'.cycle.Normal r'.stopped ∧ Sound r' := by
  obtain ⟨hpurged, hnone, done, rest, hqueue, hqueued, hwritten, hhandled⟩ := hb
  have htail : q.queue.tail = rest := by rw [show q.queue = front :: rest from hqueue]; rfl
  have hsplit : q.queued = (done ++ [front]) ++ rest := by
    rw [show q.queued = done ++ q.queue from hqueued, show q.queue = front :: rest from hqueue,
      List.append_assoc]
    rfl
  dsimp only
  rw [htail]
  split
  · next hstopped =>
    exact ⟨⟨hpurged, done ++ [front], hsplit, hhandled, .inl ⟨hnone, hwritten, .inr hstopped⟩⟩,
      ⟨hs.below, hs.distinct, hs.posted⟩⟩
  · next hstopped =>
    cases hrest : rest with
    | nil =>
      rw [hrest] at hsplit
      exact ⟨⟨hpurged, done ++ [front], hsplit, hhandled, .inl ⟨hnone, hwritten, .inl rfl⟩⟩,
        ⟨hs.below, hs.distinct, hs.posted⟩⟩
    | cons e more =>
      rw [hrest] at hsplit
      refine ⟨⟨hpurged, done ++ [front], hsplit, hhandled, .inr ⟨e, more,
        if e.headed then .header else .body, rfl, ?_, ?_⟩⟩,
        ⟨hs.below, hs.distinct, hs.posted⟩⟩
      · show q.inflight ++ [(⟨e, if e.headed then .header else .body⟩ : Flight)] = _
        rw [show q.inflight = [] from hnone]
        rfl
      · exact congrArg (· ++ [e]) hwritten

/-- What is so of a channel between the events. -/
structure Inv (p : Proxy) : Prop where
  sound : Sound p
  cycle : p.cycle.Normal p.stopped ∨ p.cycle.Purged ∧ p.stopped = true

theorem Called.inv (h : Called p p') (hi : Inv p) : Inv p' := by
  refine ⟨h.sound hi.sound, ?_⟩
  rcases hi.cycle with hn | ⟨hp, hstopped⟩
  · exact .inl (h.normal hn)
  · exact .inr ⟨h.purged hstopped hp, h.stopped hstopped⟩

/-- The socket write that is under way, of the front entry unless the queue is purged. -/
theorem Inv.flight (hi : Inv p) {index : ℕ} {f : Flight} (hf : p.inflight[index]? = some f) :
    index = 0 ∧ p.inflight = [f] := by
  have hsingle : p.inflight.length ≤ 1 := by
    rcases hi.cycle with ⟨_, _, _, _, ⟨hnone, _⟩ | ⟨_, _, _, _, hone, _⟩⟩ | ⟨hp, _⟩
    · rw [show p.inflight = [] from hnone]
      exact Nat.zero_le 1
    · rw [show p.inflight = [_] from hone]
      exact Nat.le_refl 1
    · exact hp.single
  obtain ⟨hlt, hget⟩ := List.getElem?_eq_some_iff.mp hf
  have hindex : index = 0 := by omega
  subst hindex
  refine ⟨rfl, ?_⟩
  obtain ⟨g, hg⟩ := List.length_eq_one_iff.mp (Nat.le_antisymm hsingle hlt)
  simp only [hg, List.getElem_cons_zero] at hget
  rw [hg, hget]

/-- The write of the front entry is completed, and its handler is invoked. -/
theorem handleWrite_normal {e : Pending} {rest done : List Pending} (ec : Code)
    (made : List Call) (hs : Sound p) (hpurged : p.purged = false) (hnone : p.inflight = [])
    (hqueue : p.queue = e :: rest) (hqueued : p.queued = done ++ p.queue)
    (hwritten : p.written = done ++ [e]) (hhandled : p.handled = done.map Pending.id) :
    (p.handleWrite ec made).cycle.Normal (p.handleWrite ec made).stopped ∧
      Sound (p.handleWrite ec made) := by
  have hbusy : ({ p with handled := p.handled ++ [e.id] } : Proxy).cycle.Busy e := by
    refine ⟨hpurged, hnone, done, rest, hqueue, hqueued, hwritten, ?_⟩
    show p.handled ++ [e.id] = _
    rw [hhandled, List.map_append]
    rfl
  obtain ⟨hb, hs'⟩ := complete_busy e.completion ec made hbusy ⟨hs.below, hs.distinct, hs.posted⟩
  have heq : p.handleWrite ec made =
      let q := ({ p with handled := p.handled ++ [e.id] } : Proxy).complete e.completion ec made
      let r : Proxy := { q with backlog := q.backlog - e.cost, queue := q.queue.tail }
      if r.stopped then r else r.write := by
    unfold handleWrite
    rw [hqueue]
  rw [heq]
  exact pop_normal hb hs' _

/-- The write that is under way goes on. -/
theorem Inv.restage (hi : Inv p) {index : ℕ} {f : Flight} (hf : p.inflight[index]? = some f)
    (stage : Sending) :
    Inv { p with inflight := p.inflight.set index { f with stage := stage } } := by
  obtain ⟨rfl, hone⟩ := hi.flight hf
  obtain ⟨hs, hcycle⟩ := hi
  refine ⟨⟨hs.below, hs.distinct, hs.posted⟩, ?_⟩
  rw [hone]
  rcases hcycle with ⟨hpurged, done, hqueued, hhandled, ⟨hnone, _⟩ | ⟨e, rest, _, hqueue, he, hw⟩⟩ |
    ⟨hp, hstopped⟩
  · rw [show p.inflight = [] from hnone] at hone
    cases hone
  · rw [show p.inflight = [_] from he] at hone
    cases hone
    exact .inl ⟨hpurged, done, hqueued, hhandled, .inr ⟨e, rest, stage, hqueue, rfl, hw⟩⟩
  · exact .inr ⟨⟨hp.purged, hp.queue, Nat.le_refl 1, hp.handled, hp.written⟩, hstopped⟩

theorem Inv.handleFlight (hi : Inv p) {index : ℕ} {f : Flight} (hf : p.inflight[index]? = some f)
    (header : Bool) (ec : Code) (made : List Call) :
    Inv (p.handleFlight index f header ec made) := by
  unfold Proxy.handleFlight
  split
  · exact hi.restage hf .body
  obtain ⟨rfl, hone⟩ := hi.flight hf
  obtain ⟨hs, hcycle⟩ := hi
  have hnone : p.inflight.eraseIdx 0 = [] := by rw [hone]; rfl
  rw [hnone]
  rcases hcycle with ⟨hpurged, done, hqueued, hhandled, ⟨hnone, _⟩ | ⟨e, rest, _, hqueue, _, hw⟩⟩ |
    ⟨hp, hstopped⟩
  · rw [show p.inflight = [] from hnone] at hone
    cases hone
  · obtain ⟨hn, hs'⟩ := handleWrite_normal (p := { p with inflight := [] }) ec made
      ⟨hs.below, hs.distinct, hs.posted⟩ hpurged rfl hqueue hqueued hw hhandled
    exact ⟨hs', .inl hn⟩
  · have heq : ({ p with inflight := [] } : Proxy).handleWrite ec made =
        { p with inflight := [] } := by
      unfold handleWrite
      rw [show p.queue = [] from hp.queue]
    rw [heq]
    exact ⟨⟨hs.below, hs.distinct, hs.posted⟩,
      .inr ⟨⟨hp.purged, hp.queue, Nat.zero_le 1, hp.handled, hp.written⟩, hstopped⟩⟩

theorem Inv.handleMetered (hi : Inv p) {index : ℕ} {f : Flight} (hf : p.inflight[index]? = some f)
    (header : Bool) (ec : Code) (delay : Bool) (made : List Call) :
    Inv (p.handleMetered index f header ec delay made) := by
  have hcompleted (completed : List ℕ) : Inv { p with completed := completed } :=
    ⟨⟨hi.sound.below, hi.sound.distinct, hi.sound.posted⟩, hi.cycle⟩
  have hq : ∃ completed, (if header ∨ p.stopped then p
      else { p with completed := p.completed ++ [f.entry.id] }) =
      { p with completed := completed } := by
    split
    · exact ⟨p.completed, rfl⟩
    · exact ⟨_, rfl⟩
  obtain ⟨completed, hq⟩ := hq
  unfold Proxy.handleMetered
  dsimp only
  rw [hq]
  split
  · exact (hcompleted completed).restage hf (.throttled header ec)
  · exact (hcompleted completed).handleFlight hf header ec made

theorem Inv.stopping (hi : Inv p) (hposted : p.posted ≠ 0) : Inv p.stopping := by
  obtain ⟨hs, hcycle⟩ := hi
  have hstopped := hs.posted hposted
  refine ⟨⟨?_, ?_, fun _ => hstopped⟩, .inr ⟨?_, hstopped⟩⟩
  · intro id hid
    refine hs.below id ?_
    unfold ids at hid ⊢
    simp only [Proxy.stopping, List.append_nil, List.map_append, List.mem_append] at hid ⊢
    exact hid.imp .inl fun h => h
  · refine hs.distinct.sublist ?_
    unfold ids
    simp only [Proxy.stopping, List.append_nil, List.map_append]
    exact (List.sublist_append_left _ _).append_right _
  · rcases hcycle with ⟨_, done, hqueued, hhandled, hinflight⟩ | ⟨hp, _⟩
    · rcases hinflight with ⟨hnone, hwritten, _⟩ | ⟨e, rest, _, hqueue, hone, hwritten⟩
      · refine ⟨rfl, rfl, ?_, ?_, ?_⟩
        · show p.inflight.length ≤ 1
          rw [show p.inflight = [] from hnone]
          exact Nat.zero_le 1
        · show p.handled <+: p.written.map Pending.id
          rw [show p.handled = _ from hhandled, show p.written = done from hwritten]
        · show p.written <+: p.queued
          rw [show p.written = done from hwritten]
          exact ⟨p.queue, hqueued.symm⟩
      · refine ⟨rfl, rfl, ?_, ?_, ?_⟩
        · show p.inflight.length ≤ 1
          rw [show p.inflight = [_] from hone]
          exact Nat.le_refl 1
        · show p.handled <+: p.written.map Pending.id
          rw [show p.handled = _ from hhandled, show p.written = _ from hwritten, List.map_append]
          exact List.prefix_append _ _
        · show p.written <+: p.queued
          rw [show p.written = _ from hwritten, show p.queued = _ from hqueued,
            show p.cycle.queue = _ from hqueue]
          exact ⟨rest, List.append_assoc ..⟩
    · exact ⟨rfl, rfl, hp.single, hp.handled, hp.written⟩

theorem Inv.step (hi : Inv p) (e : Event) : Inv (p.step e) := by
  unfold Proxy.step
  cases e with
  | call c => exact (call_effect p c).inv hi
  | sent index ec delay made =>
    dsimp only
    split
    · exact hi
    · next f hf =>
      split
      · exact hi.handleMetered hf true ec delay made
      · exact hi.handleMetered hf false ec delay made
      · exact hi
  | charged index made =>
    dsimp only
    split
    · exact hi
    · next f hf =>
      split
      · exact hi
      · exact hi
      · exact hi.handleFlight hf _ _ made
  | stopping =>
    dsimp only
    split
    · exact hi
    · next hposted => exact hi.stopping hposted

theorem create_inv (http zeromq : Bool) (maximumBacklog : ℕ) :
    Inv (create http zeromq maximumBacklog) :=
  ⟨⟨fun _ h => absurd h List.not_mem_nil, List.nodup_nil, fun h => absurd rfl h⟩,
    .inl ⟨rfl, [], rfl, rfl, .inl ⟨rfl, rfl, .inl rfl⟩⟩⟩

theorem after_inv (http zeromq : Bool) (maximumBacklog : ℕ) (events : List Event) :
    Inv (after step (create http zeromq maximumBacklog) events) :=
  after_invariant (P := Inv) (fun _ e h => h.step e) (create_inv http zeromq maximumBacklog) events

end Proxy

/-! ### The discipline of the queue -/

/-- At most one socket write is under way, that of the front of the queue until the queue
is purged; entries are written in the order they were queued; no handler is invoked twice,
one is once the completion of its write is handled, and none is behind the purge; and a
queue that is not empty is being written, unless the channel is stopped. -/
structure Disciplined (p : Proxy) : Prop where
  single : p.inflight.length ≤ 1
  front : p.purged = false → ∀ f ∈ p.inflight, p.queue.head? = some f.entry
  ordered : p.written <+: p.queued
  once : (p.handled ++ p.refused).Nodup
  told : p.purged = false → ∀ e ∈ p.written, e.id ∈ p.handled ∨ ∃ f ∈ p.inflight, f.entry = e
  silent : p.purged = true → ∀ e, (p.step e).handled = p.handled
  live : p.stopped = false → p.queue ≠ [] → p.inflight ≠ []

/-- And moreover a write that is completed before the stop has its handler invoked, and
the socket write is that of the front of the queue behind the purge too. -/
structure Undeferred (p : Proxy) : Prop extends Disciplined p where
  always : ∀ f ∈ p.inflight, p.queue.head? = some f.entry
  reported : p.inflight = [] → ∀ id ∈ p.completed, id ∈ p.handled

theorem Cycle.Normal.written {c : Cycle} {stopped : Bool} (h : c.Normal stopped) :
    c.written <+: c.queued := by
  obtain ⟨_, done, hqueued, _, ⟨_, hwritten, _⟩ | ⟨e, rest, _, hqueue, _, hwritten⟩⟩ := h
  · rw [hwritten, hqueued]
    exact List.prefix_append _ _
  · rw [hwritten, hqueued, hqueue]
    exact ⟨rest, List.append_assoc ..⟩

theorem Cycle.Normal.handled {c : Cycle} {stopped : Bool} (h : c.Normal stopped) :
    c.handled <+: c.written.map Pending.id := by
  obtain ⟨_, done, _, hhandled, ⟨_, hwritten, _⟩ | ⟨e, rest, _, _, _, hwritten⟩⟩ := h
  · rw [hhandled, hwritten]
  · rw [hhandled, hwritten, List.map_append]
    exact List.prefix_append _ _

namespace Proxy
variable {p : Proxy}

theorem Inv.written (hi : Inv p) : p.written <+: p.queued := by
  rcases hi.cycle with hn | ⟨hp, _⟩
  · exact hn.written
  · exact hp.written

theorem Inv.handled (hi : Inv p) : p.handled <+: p.written.map Pending.id := by
  rcases hi.cycle with hn | ⟨hp, _⟩
  · exact hn.handled
  · exact hp.handled

theorem Inv.once (hi : Inv p) : (p.handled ++ p.refused).Nodup := by
  refine hi.sound.distinct.sublist ?_
  unfold ids
  rw [List.map_append]
  have hqueued : p.handled.Sublist (p.queued.map Pending.id) :=
    (hi.handled.trans (hi.written.map Pending.id)).sublist
  exact (hqueued.trans (List.sublist_append_left _ _)).append_right _

/-- Behind the purge the handler of a write has nothing to invoke. -/
theorem handleFlight_purged (hqueue : p.queue = []) (index : ℕ) (f : Flight) (header : Bool)
    (ec : Code) (made : List Call) : (p.handleFlight index f header ec made).handled = p.handled := by
  unfold handleFlight
  split
  · rfl
  · unfold handleWrite
    rw [hqueue]

theorem handleMetered_purged (hqueue : p.queue = []) (index : ℕ) (f : Flight) (header : Bool)
    (ec : Code) (delay : Bool) (made : List Call) :
    (p.handleMetered index f header ec delay made).handled = p.handled := by
  have hq : ∀ q : Proxy, q.queue = [] → q.handled = p.handled →
      (if delay = true ∧ q.stopped = false then
        { q with inflight := q.inflight.set index { f with stage := .throttled header ec } }
      else q.handleFlight index f header ec made).handled = p.handled := by
    intro q hq hh
    split
    · exact hh
    · rw [handleFlight_purged hq, hh]
  unfold handleMetered
  dsimp only
  split
  · exact hq p hqueue rfl
  · exact hq _ hqueue rfl

theorem Inv.silent (hi : Inv p) (hpurged : p.purged = true) (e : Event) :
    (p.step e).handled = p.handled := by
  rcases hi.cycle with hn | ⟨hp, hstopped⟩
  · rw [show p.purged = false from hn.purged] at hpurged
    cases hpurged
  unfold Proxy.step
  cases e with
  | call c =>
    cases (call_effect p c).effect with
    | quiet hcycle _ _ _ => exact congrArg Cycle.handled hcycle
    | refused _ hcycle _ _ _ _ _ => exact congrArg Cycle.handled hcycle
    | queued e hrunning _ _ _ _ _ _ =>
      rw [hstopped] at hrunning
      cases hrunning
    | deferred e hcycle _ _ _ _ _ _ => exact congrArg Cycle.handled hcycle
  | sent index ec delay made =>
    dsimp only
    split
    · rfl
    · next f _ =>
      split
      · exact handleMetered_purged hp.queue index f true ec delay made
      · exact handleMetered_purged hp.queue index f false ec delay made
      · rfl
  | charged index made =>
    dsimp only
    split
    · rfl
    · next f _ =>
      split
      · rfl
      · rfl
      · exact handleFlight_purged hp.queue index f _ _ made
  | stopping =>
    dsimp only
    split <;> rfl

theorem Inv.disciplined (hi : Inv p) : Disciplined p := by
  have hnormal (hpurged : p.purged = false) : p.cycle.Normal p.stopped := by
    rcases hi.cycle with hn | ⟨hp, _⟩
    · exact hn
    · rw [show p.purged = true from hp.purged] at hpurged
      cases hpurged
  refine ⟨?_, ?_, hi.written, hi.once, ?_, hi.silent, ?_⟩
  · rcases hi.cycle with ⟨_, _, _, _, ⟨hnone, _⟩ | ⟨_, _, _, _, hone, _⟩⟩ | ⟨hp, _⟩
    · rw [show p.inflight = [] from hnone]
      exact Nat.zero_le 1
    · rw [show p.inflight = [_] from hone]
      exact Nat.le_refl 1
    · exact hp.single
  · intro hpurged f hf
    obtain ⟨_, _, _, _, ⟨hnone, _⟩ | ⟨e, rest, _, hqueue, hone, _⟩⟩ := hnormal hpurged
    · rw [show p.inflight = [] from hnone] at hf
      cases hf
    · rw [show p.inflight = [_] from hone] at hf
      rw [List.mem_singleton.mp hf, show p.queue = _ from hqueue]
      rfl
  · intro hpurged e he
    obtain ⟨_, done, _, hhandled, ⟨_, hwritten, _⟩ | ⟨e', _, _, _, hone, hwritten⟩⟩ :=
      hnormal hpurged
    · left
      rw [show p.handled = _ from hhandled, ← show p.written = done from hwritten]
      exact List.mem_map_of_mem he
    · rw [show p.written = _ from hwritten] at he
      rcases List.mem_append.mp he with he | he
      · left
        rw [show p.handled = _ from hhandled]
        exact List.mem_map_of_mem he
      · right
        rw [List.mem_singleton.mp he, show p.inflight = [_] from hone]
        exact ⟨_, List.mem_singleton_self _, rfl⟩
  · intro hstopped hqueue
    rcases hi.cycle with ⟨_, _, _, _, ⟨_, _, hnil | hs⟩ | ⟨_, _, _, _, hone, _⟩⟩ | ⟨_, hs⟩
    · exact absurd hnil hqueue
    · rw [hstopped] at hs
      cases hs
    · rw [show p.inflight = [_] from hone]
      exact List.cons_ne_nil _ _
    · rw [hstopped] at hs
      cases hs

/-- In every run, whatever calls are made and in whatever order writes are completed. -/
theorem queue_disciplined (http zeromq : Bool) (maximumBacklog : ℕ) (events : List Event) :
    Disciplined (after step (create http zeromq maximumBacklog) events) :=
  (after_inv http zeromq maximumBacklog events).disciplined

/-- A write is completed, and deferred by the throttle; the channel is stopped, and the
queue is purged before the timer of the throttle is handled. -/
def throttledStop : List Event :=
  [.call .respond, .sent 0 .success true [], .call (.stop false), .stopping, .charged 0 []]

/-- The handler of the deferred write is not invoked. -/
theorem not_undeferred : ¬ ∀ (http zeromq : Bool) (maximumBacklog : ℕ) (events : List Event),
    Undeferred (after step (create http zeromq maximumBacklog) events) := fun h =>
  absurd ((h false false 0 throttledStop).reported rfl 0 (by decide)) (by decide)

end Proxy

end BitcoinNetwork.Net
