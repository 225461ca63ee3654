import BitcoinNetwork.Net.Backlog

/-!
# What is charged to the backlog (net/proxy_queue.cpp)

An entry is charged when it is queued or deferred, and its charge goes with it until its
handler has returned.
-/

namespace BitcoinNetwork.Net
open Async

namespace Proxy
variable {p p' : Proxy}

/-- The entries that the channel retains. -/
def retained (p : Proxy) : List Pending := p.queue ++ p.deferred

/-- The estimate that a call is charged for, unless it is solicited. -/
def Call.estimate : Call → Option ℕ
  | .message true cost => some cost
  | .notify cost => some cost
  | _ => none

/-- `charge` of an estimate does not admit its entry. -/
def Refuses (p : Proxy) (cost : ℕ) : Prop :=
  ¬(p.queue = [] ∧ p.deferred = []) ∧
    p.maximumBacklog < ceilingedAdd p.backlog (ceilingedAdd cost entrySize)

instance (p : Proxy) (cost : ℕ) : Decidable (p.Refuses cost) :=
  inferInstanceAs (Decidable (_ ∧ _))

theorem charge_eq (p : Proxy) (e : Pending) : p.charge e =
    if p.Refuses e.cost then
      if p.zeromq then ({ p with refused := p.refused ++ [e.id] }, none) else (p.stop true, none)
    else
      let cost := ceilingedAdd e.cost entrySize
      ({ p with backlog := ceilingedAdd p.backlog cost }, some { e with cost := cost }) := rfl

theorem charge_none_iff (p : Proxy) (e : Pending) : (p.charge e).2 = none ↔ p.Refuses e.cost := by
  rw [charge_eq]
  by_cases h : p.Refuses e.cost
  · rw [if_pos h]
    split <;> simp [h]
  · rw [if_neg h]
    simp [h]

/-! ### What a call is charged -/

/-- A call retains nothing more, an entry that is not charged, or one that is. -/
inductive Charged (p p' : Proxy) (c : Call) : Prop
  | kept (hretained : p'.retained = p.retained) (hbacklog : p'.backlog = p.backlog)
  | solicited (e : Pending) (hcost : e.cost = 0) (hpart : e.part ≠ .notification)
      (hretained : p'.retained.Perm (e :: p.retained)) (hbacklog : p'.backlog = p.backlog)
  | charged (e : Pending) (cost : ℕ) (hestimate : c.estimate = some cost)
      (hpart : c = .notify cost → e.part = .notification) (hadmits : ¬p.Refuses cost)
      (hcost : e.cost = ceilingedAdd cost entrySize)
      (hretained : p'.retained.Perm (e :: p.retained))
      (hbacklog : p'.backlog = ceilingedAdd p.backlog e.cost)

/-- What a call leaves: the bound, and what is queued. -/
structure Billed (p p' : Proxy) (c : Call) : Prop where
  charged : Charged p p' c
  bound : p'.maximumBacklog = p.maximumBacklog
  front : p.queue <+: p'.queue

theorem retained_enqueue (p : Proxy) (e : Pending) :
    (p.enqueue e).retained.Perm (e :: p.retained) := by
  rw [enqueue_eq]
  show ((p.queue ++ [e]) ++ p.deferred).Perm (e :: (p.queue ++ p.deferred))
  rw [List.append_assoc]
  exact List.perm_middle

theorem enqueue_front (p : Proxy) (e : Pending) : p.queue <+: (p.enqueue e).queue := by
  rw [enqueue_eq]
  exact List.prefix_append _ _

theorem enqueue_backlog (p : Proxy) (e : Pending) : (p.enqueue e).backlog = p.backlog := by
  rw [enqueue_eq]

theorem enqueue_bound (p : Proxy) (e : Pending) :
    (p.enqueue e).maximumBacklog = p.maximumBacklog := by
  rw [enqueue_eq]

/-- The same entries and charges, apart from what else there is of the channel. -/
structure Level (p q : Proxy) : Prop where
  queue : q.queue = p.queue
  deferred : q.deferred = p.deferred
  backlog : q.backlog = p.backlog
  bound : q.maximumBacklog = p.maximumBacklog

namespace Level
variable {q : Proxy} {c : Call} {e : Pending}

theorem retained (h : Level p q) : q.retained = p.retained := by
  unfold Proxy.retained
  rw [h.queue, h.deferred]

theorem billed (h : Level p q) : Billed p q c :=
  ⟨.kept h.retained h.backlog, h.bound, h.queue ▸ List.prefix_rfl⟩

theorem trans (h : Level p q) (hb : Billed p' p c) : Billed p' q c := by
  refine ⟨?_, h.bound.trans hb.bound, h.queue ▸ hb.front⟩
  cases hb.charged with
  | kept hretained hbacklog =>
    exact .kept (h.retained.trans hretained) (h.backlog.trans hbacklog)
  | solicited e hcost hpart hretained hbacklog =>
    exact .solicited e hcost hpart (h.retained ▸ hretained) (h.backlog.trans hbacklog)
  | charged e cost hestimate hpart hadmits hcost hretained hbacklog =>
    exact .charged e cost hestimate hpart hadmits hcost (h.retained ▸ hretained)
      (h.backlog.trans hbacklog)

theorem solicited (h : Level p q) (hcost : e.cost = 0) (hpart : e.part ≠ .notification) :
    Billed p (q.enqueue e) c := by
  refine ⟨.solicited e hcost hpart ?_ ?_, ?_, ?_⟩
  · rw [← h.retained]
    exact retained_enqueue q e
  · rw [enqueue_backlog, h.backlog]
  · rw [enqueue_bound, h.bound]
  · rw [← h.queue]
    exact enqueue_front q e

theorem doWrite (h : Level p q) (hpart : e.part ≠ .notification) : Billed p (q.doWrite e) c := by
  unfold Proxy.doWrite
  split
  · exact h.billed
  · exact h.solicited rfl hpart

theorem queueClose (h : Level p q) (completion : Completion) :
    Billed p (q.queueClose completion) c := by
  have hlevel : Level p { q with batched := false, parted := false, count := q.count + 1 } :=
    ⟨h.queue, h.deferred, h.backlog, h.bound⟩
  exact hlevel.doWrite Part.noConfusion

theorem stop (h : Level p q) (stranded : Bool) : Billed p (q.stop stranded) c := by
  unfold Proxy.stop
  split
  · exact h.billed
  · split
    · exact h.queueClose .stop
    · exact billed ⟨h.queue, h.deferred, h.backlog, h.bound⟩

theorem refuses (h : Level p q) (cost : ℕ) : q.Refuses cost ↔ p.Refuses cost := by
  unfold Refuses
  rw [h.queue, h.deferred, h.backlog, h.bound]

/-- An entry that is refused stops the channel at most, and one that is not is charged. -/
theorem charge (h : Level p q) :
    (∃ q', q.charge e = (q', none) ∧ Billed p q' c) ∨
      ∃ q' e', q.charge e = (q', some e') ∧ ¬p.Refuses e.cost ∧ e'.part = e.part ∧
        e'.cost = ceilingedAdd e.cost entrySize ∧ q'.queue = p.queue ∧ q'.deferred = p.deferred ∧
        q'.backlog = ceilingedAdd p.backlog e'.cost ∧ q'.maximumBacklog = p.maximumBacklog := by
  rw [charge_eq]
  by_cases hr : q.Refuses e.cost
  · rw [if_pos hr]
    left
    split
    · exact ⟨_, rfl, billed ⟨h.queue, h.deferred, h.backlog, h.bound⟩⟩
    · exact ⟨_, rfl, h.stop true⟩
  · rw [if_neg hr]
    right
    refine ⟨_, _, rfl, fun hp => hr ((h.refuses e.cost).mpr hp), rfl, rfl, h.queue, h.deferred, ?_,
      h.bound⟩
    show ceilingedAdd q.backlog _ = ceilingedAdd p.backlog _
    rw [h.backlog]

theorem doNotification (h : Level p q) (hestimate : c.estimate = some e.cost)
    (hpart : c = .notify e.cost → e.part = .notification) :
    Billed p (q.doNotification e).1 c := by
  unfold Proxy.doNotification
  split
  · exact h.billed
  rcases h.charge (e := e) (c := c) with ⟨q', hq, hbilled⟩ |
    ⟨q', e', hq, hadmits, hpart', hcost, hqueue, hdeferred, hbacklog, hbound⟩
  · rw [hq]
    exact hbilled
  · rw [hq]
    have hretained : q'.retained = p.retained := by unfold Proxy.retained; rw [hqueue, hdeferred]
    refine ⟨.charged e' e.cost hestimate (fun hc => hpart'.trans (hpart hc)) hadmits hcost ?_ ?_, ?_, ?_⟩
    · rw [← hretained]
      exact retained_enqueue q' e'
    · rw [enqueue_backlog, hbacklog]
    · rw [enqueue_bound, hbound]
    · rw [← hqueue]
      exact enqueue_front q' e'

theorem doDeferWrite (h : Level p q) (hestimate : c.estimate = some e.cost)
    (hpart : c = .notify e.cost → e.part = .notification) :
    Billed p (q.doDeferWrite e) c := by
  unfold Proxy.doDeferWrite
  split
  · rcases h.charge (e := e) (c := c) with ⟨q', hq, hbilled⟩ |
      ⟨q', e', hq, hadmits, hpart', hcost, hqueue, hdeferred, hbacklog, hbound⟩
    · rw [hq]
      exact hbilled
    · rw [hq]
      refine ⟨.charged e' e.cost hestimate (fun hc => hpart'.trans (hpart hc)) hadmits hcost ?_ hbacklog, hbound,
        hqueue ▸ List.prefix_rfl⟩
      show (q'.queue ++ (q'.deferred ++ [e'])).Perm (e' :: (p.queue ++ p.deferred))
      rw [hqueue, hdeferred, ← List.append_assoc]
      exact List.perm_append_singleton _ _
  · have hbilled := h.doNotification hestimate hpart
    revert hbilled
    generalize q.doNotification e = result
    obtain ⟨q', admitted⟩ := result
    intro hbilled
    cases admitted with
    | false => exact hbilled
    | true => exact trans (p := q') ⟨rfl, rfl, rfl, rfl⟩ hbilled

end Level

/-- What a call is charged. -/
theorem call_billed (p : Proxy) (c : Call) : Billed p (p.call c) c := by
  have hnext : Level p p.next := ⟨rfl, rfl, rfl, rfl⟩
  have hlevel : Level p p := ⟨rfl, rfl, rfl, rfl⟩
  cases c with
  | message bounded cost =>
    cases bounded with
    | true => exact hnext.doNotification rfl Call.noConfusion
    | false => exact hnext.doWrite Part.noConfusion
  | respond =>
    have hpart : (if p.batched then Part.response p.parted !p.parted else .response false false) ≠
        .notification := by
      split <;> exact Part.noConfusion
    unfold call doResponseQueue
    dsimp only
    by_cases hbatched : p.batched = true
    · have hparted : Level p ({ p with parted := true } : Proxy).next := ⟨rfl, rfl, rfl, rfl⟩
      rw [if_pos hbatched]
      exact hparted.doWrite hpart
    · rw [if_neg hbatched]
      exact hnext.doWrite hpart
  | notify cost => exact hnext.doDeferWrite rfl fun _ => rfl
  | openBatch => exact Level.billed ⟨rfl, rfl, rfl, rfl⟩
  | closeBatch => exact hlevel.queueClose .closed
  | parse begins => exact Level.billed ⟨rfl, rfl, rfl, rfl⟩
  | stop stranded => exact hlevel.stop stranded

/-! ### The accounts -/

/-- The backlog is what the entries that the channel retains are charged, and it is above
its bound only for one of them. -/
structure Accounted (p : Proxy) : Prop where
  balance : p.backlog = total Pending.cost p.retained
  single : p.maximumBacklog < p.backlog → (p.retained.filter (·.cost ≠ 0)).length = 1

theorem total_perm {entries more : List Pending} (h : entries.Perm more) :
    total Pending.cost entries = total Pending.cost more := (h.map Pending.cost).sum_eq

theorem total_cost_eq_zero {entries : List Pending} (h : ∀ e ∈ entries, e.cost = 0) :
    total Pending.cost entries = 0 := by
  induction entries with
  | nil => rfl
  | cons e entries ih =>
    obtain ⟨he, hrest⟩ := List.forall_mem_cons.mp h
    rw [total_cons, he, ih hrest]

namespace Accounted

/-- Entries in another order. -/
theorem perm (h : Accounted p) (hretained : p'.retained.Perm p.retained)
    (hbacklog : p'.backlog = p.backlog) (hbound : p'.maximumBacklog = p.maximumBacklog) :
    Accounted p' := by
  refine ⟨by rw [hbacklog, total_perm hretained, h.balance], fun hover => ?_⟩
  rw [hbound, hbacklog] at hover
  rw [(hretained.filter _).length_eq]
  exact h.single hover

theorem insert (h : Accounted p) {e : Pending} (hretained : p'.retained.Perm (e :: p.retained))
    (hbacklog : p'.backlog = p.backlog + e.cost) (hbound : p'.maximumBacklog = p.maximumBacklog)
    (hfits : e.cost = 0 ∨ p'.backlog ≤ p.maximumBacklog ∨ p.retained = []) : Accounted p' := by
  refine ⟨?_, fun hover => ?_⟩
  · rw [hbacklog, total_perm hretained, total_cons, h.balance, Nat.add_comm]
  · rw [hbound] at hover
    rw [(hretained.filter _).length_eq]
    rcases hfits with hzero | hle | hnil
    · rw [List.filter_cons_of_neg (by simpa using hzero)]
      exact h.single (by omega)
    · omega
    · have hbalance := h.balance
      rw [hnil, total_nil] at hbalance
      rw [hnil, List.filter_cons_of_pos (by simp only [ne_eq, decide_eq_true_eq]; omega)]
      rfl

theorem erase (h : Accounted p) {e : Pending} (hretained : p.retained.Perm (e :: p'.retained))
    (hbacklog : p'.backlog = p.backlog - e.cost) (hbound : p'.maximumBacklog = p.maximumBacklog) :
    Accounted p' := by
  have hbalance := h.balance
  rw [total_perm hretained, total_cons] at hbalance
  refine ⟨by omega, fun hover => ?_⟩
  have hsingle := h.single (by omega)
  rw [(hretained.filter _).length_eq] at hsingle
  by_cases hzero : e.cost = 0
  · rwa [List.filter_cons_of_neg (by simpa using hzero)] at hsingle
  · -- The entry was the one that is charged, and nothing is left.
    rw [List.filter_cons_of_pos (by simpa using hzero), List.length_cons,
      Nat.add_eq_right, List.length_eq_zero_iff, List.filter_eq_nil_iff] at hsingle
    have hrest : total Pending.cost p'.retained = 0 :=
      total_cost_eq_zero fun e he => by simpa using hsingle e he
    omega

/-- A charge that fits in a size, or that the bound admits there, is added. -/
theorem call (h : Accounted p) (c : Call)
    (hroom : p.maximumBacklog + 1 < 2 ^ 64 ∨ ∀ cost, c.estimate = some cost →
      total Pending.cost p.retained + ceilingedAdd cost entrySize < 2 ^ 64) :
    Accounted (p.call c) := by
  have hbilled := call_billed p c
  cases hbilled.charged with
  | kept hretained hbacklog =>
    exact h.perm (hretained ▸ List.Perm.refl _) hbacklog hbilled.bound
  | solicited e hcost hpart hretained hbacklog =>
    exact h.insert hretained (by omega) hbilled.bound (.inl hcost)
  | charged e cost hestimate hpart hadmits hcost hretained hbacklog =>
    have hbalance := h.balance
    have hsmall : e.cost < 2 ^ 64 := by
      rw [hcost]
      unfold ceilingedAdd
      omega
    unfold ceilingedAdd at hbacklog
    by_cases hidle : p.queue = [] ∧ p.deferred = []
    · have hnil : p.retained = [] := by unfold retained; rw [hidle.1, hidle.2]; rfl
      rw [hnil, total_nil] at hbalance
      exact h.insert hretained (by omega) hbilled.bound (.inr (.inr hnil))
    · have hle : ceilingedAdd p.backlog e.cost ≤ p.maximumBacklog := by
        rw [hcost]
        by_contra hlt
        exact hadmits ⟨hidle, Nat.lt_of_not_le hlt⟩
      unfold ceilingedAdd at hle
      have hfits : p.backlog + e.cost < 2 ^ 64 := by
        rcases hroom with hbound | hroom
        · omega
        · rw [hbalance, hcost]
          exact hroom cost hestimate
      exact h.insert hretained (by omega) hbilled.bound (.inr (.inl (by omega)))

end Accounted

/-! ### Runs -/

theorem Called.posted_stopped (h : Called p p') (hp : p.posted ≠ 0 → p.stopped = true) :
    p'.posted ≠ 0 → p'.stopped = true := by
  intro hne
  by_cases heq : p'.posted = p.posted
  · exact h.stopped (hp (heq ▸ hne))
  · exact h.posted heq

/-- A channel whose queue is purged, with notifications deferred by a batch left open. -/
structure Drained (p : Proxy) : Prop where
  stopped : p.stopped = true
  queue : p.queue = []
  deferred : ∀ e ∈ p.deferred, e.part = .notification

theorem Called.drained (h : Called p p') (hd : Drained p) : Drained p' := by
  have hkeep (hcycle : p'.cycle = p.cycle) : p'.queue = [] :=
    (congrArg Cycle.queue hcycle).trans hd.queue
  cases h.effect with
  | quiet hcycle hdeferred _ _ =>
    exact ⟨h.stopped hd.stopped, hkeep hcycle, hdeferred ▸ hd.deferred⟩
  | refused _ hcycle hdeferred _ _ _ _ =>
    exact ⟨h.stopped hd.stopped, hkeep hcycle, hdeferred ▸ hd.deferred⟩
  | queued _ hrunning _ _ _ _ _ _ =>
    rw [hd.stopped] at hrunning
    cases hrunning
  | deferred e hcycle hdeferred _ _ hpart _ _ =>
    refine ⟨h.stopped hd.stopped, hkeep hcycle, ?_⟩
    rw [hdeferred]
    exact List.forall_mem_append.mpr ⟨hd.deferred, List.forall_mem_singleton.mpr hpart⟩

/-- What is so of the accounts is so between the events, until the queue is purged. -/
structure Resting (A : Proxy → Prop) (bound : ℕ) (p : Proxy) : Prop where
  bound : p.maximumBacklog = bound
  posted : p.posted ≠ 0 → p.stopped = true
  accounts : A p ∨ Drained p

/-- And while a handler runs, its entry is the front of the queue. -/
structure Handling (A : Proxy → Prop) (bound : ℕ) (e : Pending) (p : Proxy) : Prop where
  bound : p.maximumBacklog = bound
  posted : p.posted ≠ 0 → p.stopped = true
  accounts : A p
  front : p.queue.head? = some e

theorem cons_of_head {e : Pending} {entries : List Pending} (h : entries.head? = some e) :
    entries = e :: entries.tail := by
  cases entries with
  | nil => cases h
  | cons e' rest =>
    cases h
    rfl

theorem head_of_front {e : Pending} {entries more : List Pending} (h : entries.head? = some e)
    (hfront : entries <+: more) : more.head? = some e := by
  obtain ⟨rest, rfl⟩ := hfront
  rw [cons_of_head h]
  rfl

/-- What is so of the entries and charges in any order, and without one of the entries, is
kept where the calls keep it. -/
theorem upkeep_accounts {P : Issue → Prop} {A : Proxy → Prop} {bound : ℕ}
    (hperm : ∀ p p' : Proxy, A p → p'.retained.Perm p.retained → p'.backlog = p.backlog →
      p'.maximumBacklog = p.maximumBacklog → A p')
    (herase : ∀ (p p' : Proxy) (e : Pending), A p → p.retained.Perm (e :: p'.retained) →
      p'.backlog = p.backlog - e.cost → p'.maximumBacklog = p.maximumBacklog → A p')
    (hcall : ∀ handling (p : Proxy) c, p.maximumBacklog = bound → A p → P ⟨handling, p, c⟩ →
      A (p.call c)) :
    Upkeep P (Resting A bound) (Handling A bound) where
  call := by
    intro p c hi hp
    have hcalled := call_effect p c
    refine ⟨(call_billed p c).bound.trans hi.bound, hcalled.posted_stopped hi.posted, ?_⟩
    rcases hi.accounts with ha | hdrained
    · exact .inl (hcall false p c hi.bound ha hp)
    · exact .inr (hcalled.drained hdrained)
  moved := by
    intro p inflight completed written hi
    refine ⟨hi.bound, hi.posted, ?_⟩
    rcases hi.accounts with ha | hdrained
    · exact .inl (hperm p _ ha (List.Perm.refl _) rfl rfl)
    · exact .inr ⟨hdrained.stopped, hdrained.queue, hdrained.deferred⟩
  enter := by
    intro p e rest hi hqueue
    rcases hi.accounts with ha | hdrained
    · refine ⟨hi.bound, hi.posted, hperm p _ ha (List.Perm.refl _) rfl rfl, ?_⟩
      exact congrArg List.head? hqueue
    · rw [hdrained.queue] at hqueue
      cases hqueue
  nested := by
    intro p c e hj hp
    have hbilled := call_billed p c
    exact ⟨hbilled.bound.trans hj.bound, (call_effect p c).posted_stopped hj.posted,
      hcall true p c hj.bound hj.accounts hp, head_of_front hj.front hbilled.front⟩
  drain := by
    intro p e hj
    have hcons := cons_of_head hj.front
    have hdrain : p.drain =
        { p with queue := p.queue ++ p.deferred, queued := p.queued ++ p.deferred, deferred := [] } := by
      unfold Proxy.drain
      exact if_pos (by rw [hcons]; exact List.cons_ne_nil _ _)
    rw [hdrain]
    refine ⟨hj.bound, hj.posted, hperm p _ hj.accounts ?_ rfl rfl, ?_⟩
    · show ((p.queue ++ p.deferred) ++ []).Perm (p.queue ++ p.deferred)
      rw [List.append_nil]
    · exact head_of_front hj.front (List.prefix_append _ _)
  finish := by
    intro p e hj
    exact ⟨hj.bound, fun _ => rfl, hperm p _ hj.accounts (List.Perm.refl _) rfl rfl, hj.front⟩
  leave := by
    intro p e hj
    refine ⟨hj.bound, hj.posted, .inl (herase p _ e hj.accounts ?_ rfl rfl)⟩
    show (p.queue ++ p.deferred).Perm (e :: (p.queue.tail ++ p.deferred))
    rw [← List.cons_append, ← cons_of_head hj.front]
  purge := by
    intro p hposted hi
    have hstopped := hi.posted hposted
    exact ⟨hi.bound, fun _ => hstopped, .inr ⟨hstopped, rfl, fun _ h => absurd h List.not_mem_nil⟩⟩

theorem create_resting {A : Proxy → Prop} (http zeromq : Bool) (bound : ℕ)
    (h : A (create http zeromq bound)) : Resting A bound (create http zeromq bound) :=
  ⟨rfl, fun hne => absurd rfl hne, .inl h⟩

theorem create_accounted (http zeromq : Bool) (bound : ℕ) :
    Accounted (create http zeromq bound) :=
  ⟨rfl, fun hover => absurd hover (Nat.not_lt_zero _)⟩

end Proxy

/-- The charge of the call has room for it in a size, beside the others. -/
def Issue.Room (i : Issue) : Prop :=
  ∀ cost, i.call.estimate = some cost →
    total Pending.cost i.state.retained + ceilingedAdd cost entrySize < 2 ^ 64

/-- The call is a charged one, and is refused. -/
def Issue.Refused (i : Issue) : Prop :=
  ∃ cost, i.call.estimate = some cost ∧ (i.state.charge ⟨i.state.count, .notification, false,
    .caller, cost⟩).2 = none

namespace Proxy
variable {p : Proxy}

/-- Nothing is queued, deferred or charged. -/
structure Spared (p p' : Proxy) : Prop where
  queue : p'.queue = p.queue
  deferred : p'.deferred = p.deferred
  backlog : p'.backlog = p.backlog

/-- The same, but for the close of a batch with a response written, queued by the stop of
a channel that does not drop messages. -/
structure SparedButClose (p p' : Proxy) : Prop where
  queue : p'.queue = p.queue ∨ p.zeromq = false ∧ p.batched = true ∧ p.parted = true ∧
    ∃ close : Pending, close.part = .response true true ∧ close.completion = .stop ∧
      close.cost = 0 ∧ p'.queue = p.queue ++ [close]
  deferred : p'.deferred = p.deferred
  backlog : p'.backlog = p.backlog

theorem SparedButClose.next {q : Proxy} (h : SparedButClose p.next q) : SparedButClose p q :=
  ⟨h.queue, h.deferred, h.backlog⟩

theorem stop_spared (p : Proxy) (hzeromq : p.zeromq = false) :
    SparedButClose p (p.stop true) := by
  unfold stop
  split
  · exact ⟨.inl rfl, rfl, rfl⟩
  · next hrunning =>
    split
    · next hopen =>
      simp only [Bool.true_and, Bool.and_eq_true] at hopen
      have hclose : p.queueClose .stop =
          ({ p with batched := false, parted := false } : Proxy).next.enqueue
            ⟨p.count, .response true true, p.parser, .stop, 0⟩ := if_neg hrunning
      rw [hclose, enqueue_eq]
      exact ⟨.inr ⟨hzeromq, hopen.1, hopen.2, _, rfl, rfl, rfl, rfl⟩, rfl, rfl⟩
    · exact ⟨.inl rfl, rfl, rfl⟩

theorem charge_spared {e : Pending} (h : p.Refuses e.cost) :
    ∃ q, p.charge e = (q, none) ∧ SparedButClose p q := by
  rw [charge_eq, if_pos h]
  split
  · exact ⟨_, rfl, .inl rfl, rfl, rfl⟩
  · next hzeromq => exact ⟨_, rfl, stop_spared p (Bool.eq_false_iff.mpr hzeromq)⟩

theorem doNotification_spared {e : Pending} (h : p.Refuses e.cost) :
    SparedButClose p (p.doNotification e).1 ∧ (p.doNotification e).2 = false := by
  unfold doNotification
  split
  · exact ⟨⟨.inl rfl, rfl, rfl⟩, rfl⟩
  · obtain ⟨q, hq, hspared⟩ := charge_spared h
    rw [hq]
    exact ⟨hspared, rfl⟩

/-- A call that is refused leaves the accounts as they are. -/
theorem refused_spared {c : Call} (h : Issue.Refused ⟨false, p, c⟩) :
    SparedButClose p (p.call c) := by
  obtain ⟨cost, hestimate, hnone⟩ := h
  rw [charge_none_iff] at hnone
  cases c with
  | message bounded size =>
    cases bounded with
    | true =>
      cases hestimate
      have hnext : p.next.Refuses cost := hnone
      exact (doNotification_spared
        (e := ⟨p.count, .message, false, .caller, cost⟩) hnext).1.next
    | false => cases hestimate
  | notify size =>
    cases hestimate
    have hnext : p.next.Refuses cost := hnone
    unfold call doDeferWrite
    dsimp only
    split
    · obtain ⟨q, hq, hspared⟩ := charge_spared
        (e := ⟨p.count, .notification, false, .caller, cost⟩) hnext
      rw [hq]
      exact hspared.next
    · obtain ⟨hspared, hadmitted⟩ := doNotification_spared
        (e := ⟨p.count, .notification, false, .caller, cost⟩) hnext
      revert hspared hadmitted
      generalize p.next.doNotification _ = result
      obtain ⟨q, admitted⟩ := result
      rintro hspared rfl
      exact hspared.next
  | respond => cases hestimate
  | openBatch => cases hestimate
  | closeBatch => cases hestimate
  | parse begins => cases hestimate
  | stop stranded => cases hestimate

theorem solicited_backlog {c : Call} (h : c.estimate = none) : (p.call c).backlog = p.backlog := by
  cases (call_billed p c).charged with
  | kept _ hbacklog => exact hbacklog
  | solicited _ _ _ _ hbacklog => exact hbacklog
  | charged _ _ hestimate _ _ _ _ _ =>
    rw [h] at hestimate
    cases hestimate

/-- What is so of a call that is made on a channel that is not stopped, where one that is
refused spares the channel. -/
structure Balanced (spared : Proxy → Proxy → Prop) (i : Issue) : Prop where
  accounted : Accounted i.state
  solicited : i.call.estimate = none → (i.state.call i.call).backlog = i.state.backlog
  refused : i.Refused → spared i.state (i.state.call i.call)

theorem resting_accounted {bound : ℕ} (h : Resting Accounted bound p)
    (hi : p.stopped = false) : Accounted p := by
  rcases h.accounts with ha | hdrained
  · exact ha
  · exact absurd (hi.symm.trans hdrained.stopped) Bool.noConfusion

/-- In every run the backlog is what the retained entries are charged, in the handlers
too, and a call that is refused is charged nothing. -/
theorem backlog_accounted (http zeromq : Bool) (bound : ℕ) (events : List Event)
    (hroom : bound + 1 < 2 ^ 64 ∨ ∀ i ∈ (create http zeromq bound).issues events, i.Room) :
    ((after step (create http zeromq bound) events).stopped = false →
      Accounted (after step (create http zeromq bound) events)) ∧
    ∀ i ∈ (create http zeromq bound).issues events, i.state.stopped = false →
      Balanced SparedButClose i := by
  have hupkeep : Upkeep (fun i => bound + 1 < 2 ^ 64 ∨ i.Room) (Resting Accounted bound)
      (Handling Accounted bound) := by
    refine upkeep_accounts (fun _ _ ha => ha.perm) (fun _ _ _ ha => ha.erase) ?_
    intro handling p c hbound ha hp
    refine ha.call c ?_
    rw [hbound]
    exact hp
  have hmade : ∀ i ∈ (create http zeromq bound).issues events, bound + 1 < 2 ^ 64 ∨ i.Room :=
    fun i hi => hroom.imp_right fun h => h i hi
  obtain ⟨hlast, hissues⟩ := hupkeep.run
    (create_resting http zeromq bound (create_accounted http zeromq bound)) hmade
  refine ⟨resting_accounted hlast, fun i hi hrunning => ⟨?_, solicited_backlog, refused_spared⟩⟩
  have hkept := hissues i hi
  unfold Issue.Kept at hkept
  split at hkept
  · obtain ⟨e, hj⟩ := hkept
    exact hj.accounts
  · exact resting_accounted hkept hrunning

/-- Two notifications are queued, the second issued in the handler of the first, and a third
is refused. -/
theorem backlog_accounted_paced :
    Accounted (after step (create false true 600)
      [.call (.notify 10), .sent 0 .success false [.notify 20], .call (.notify 300)]) :=
  (backlog_accounted false true 600
    [.call (.notify 10), .sent 0 .success false [.notify 20], .call (.notify 300)]
    (.inl (by decide))).1 rfl

/-- A response is written to an open batch, and a notification is refused. -/
def refusedInBatch : List Event := [.call .openBatch, .call .respond, .call (.notify 0)]

/-- The close of the batch is queued. -/
theorem not_spared : ¬ ∀ (http zeromq : Bool) (bound : ℕ) (events : List Event),
    (bound + 1 < 2 ^ 64 ∨ ∀ i ∈ (create http zeromq bound).issues events, i.Room) →
    ((after step (create http zeromq bound) events).stopped = false →
      Accounted (after step (create http zeromq bound) events)) ∧
    ∀ i ∈ (create http zeromq bound).issues events, i.state.stopped = false →
      Balanced Spared i := by
  intro h
  have hissues := (h false false 0 refusedInBatch (.inl (by decide))).2
  have hspared := (hissues _ (.tail _ (.tail _ (.head _))) rfl).refused ⟨0, rfl, by decide⟩
  exact absurd (congrArg List.length hspared.queue) (by decide)

end Proxy
end BitcoinNetwork.Net
