import BitcoinNetwork.Net.Charges

/-!
# A notifier that waits for its writes

The handler of an entry runs while the entry is still queued and charged. A notification
that is issued in the handler of the one before it is not the only one that is charged.
-/

namespace BitcoinNetwork.Net
open Async

namespace Issue

/-- The entries whose writes are not completed. -/
def incomplete (i : Issue) : List Pending :=
  (if i.handling then i.state.queue.tail else i.state.queue) ++ i.state.deferred

/-- The handler is that of a notification. -/
def Follows (i : Issue) : Prop :=
  i.handling = true ∧ i.state.queue.head?.map Pending.part = some .notification

/-- Nothing but notifications is charged, and each but the first is issued in the handler of
the one before it, when no other is incomplete. -/
def Paced (i : Issue) : Prop :=
  match i.call with
  | .message true _ => False
  | .notify _ =>
    (∀ e ∈ i.incomplete, e.part ≠ .notification) ∧ (i.state.admitted = [] ∨ i.Follows)
  | _ => True

/-- A notification is charged, other than by a channel that is stopped with no batch open. -/
def Charging (i : Issue) : Prop := i.state.stopped = false ∨ i.state.batched = true

def Admitted (i : Issue) : Prop := i.Charging → ¬i.Refused

/-- What the entry is charged whose handler issues the notification. -/
def previous (i : Issue) : ℕ :=
  if i.handling then (i.state.queue.head?.map Pending.cost).getD 0 else 0

/-- A notification finds nothing queued, or fits the bound beside the one before it. -/
def Fits (i : Issue) : Prop :=
  ∀ cost, i.call = .notify cost → i.Charging →
    (i.state.queue = [] ∧ i.state.deferred = []) ∨
      ceilingedAdd i.previous (ceilingedAdd cost entrySize) ≤ i.state.maximumBacklog

end Issue

namespace Proxy
variable {p : Proxy}

/-- What is not a notification is not charged. -/
structure Solicited (p : Proxy) : Prop where
  accounted : Accounted p
  free : ∀ e ∈ p.retained, e.part ≠ .notification → e.cost = 0

theorem ceilingedAdd_le (left right : ℕ) : ceilingedAdd left right ≤ 2 ^ 64 - 1 := by
  unfold ceilingedAdd
  exact Nat.min_le_right _ _

theorem Solicited.call (h : Solicited p) (hbound : p.maximumBacklog + 1 < 2 ^ 64) {c : Call}
    {handling : Bool} (hpaced : Issue.Paced ⟨handling, p, c⟩) : Solicited (p.call c) := by
  refine ⟨h.accounted.call c (.inl hbound), ?_⟩
  cases (call_billed p c).charged with
  | kept hretained _ =>
    rw [hretained]
    exact h.free
  | solicited e hcost _ hretained _ =>
    intro e' he'
    rcases List.mem_cons.mp (hretained.mem_iff.mp he') with rfl | hold
    · exact fun _ => hcost
    · exact h.free e' hold
  | charged e cost hestimate hpart _ _ hretained _ =>
    have hnotification : e.part = .notification := by
      cases c with
      | message bounded size =>
        cases bounded with
        | true => exact hpaced.elim
        | false => cases hestimate
      | notify size =>
        cases hestimate
        exact hpart rfl
      | respond => cases hestimate
      | openBatch => cases hestimate
      | closeBatch => cases hestimate
      | parse begins => cases hestimate
      | stop stranded => cases hestimate
    intro e' he'
    rcases List.mem_cons.mp (hretained.mem_iff.mp he') with rfl | hold
    · exact fun hne => absurd hnotification hne
    · exact h.free e' hold

/-- The upkeep of a channel with a notifier that waits for its writes, unless the bound is
one that nothing exceeds. -/
theorem upkeep_paced (bound : ℕ) :
    Upkeep Issue.Paced (Resting (fun p => bound + 1 < 2 ^ 64 → Solicited p) bound)
      (Handling (fun p => bound + 1 < 2 ^ 64 → Solicited p) bound) := by
  refine upkeep_accounts ?_ ?_ ?_
  · intro p p' ha hretained hbacklog hmaximum hbound
    refine ⟨(ha hbound).accounted.perm hretained hbacklog hmaximum, fun e he => ?_⟩
    exact (ha hbound).free e (hretained.mem_iff.mp he)
  · intro p p' e ha hretained hbacklog hmaximum hbound
    refine ⟨(ha hbound).accounted.erase hretained hbacklog hmaximum, fun e' he' => ?_⟩
    exact (ha hbound).free e' (hretained.mem_iff.mpr (List.mem_cons_of_mem e he'))
  · intro handling p c hmaximum ha hpaced hbound
    exact (ha hbound).call (hmaximum ▸ hbound) hpaced

end Proxy

namespace Issue
open Proxy
variable {i : Issue} {bound : ℕ}

theorem refused_iff {cost : ℕ} (hcall : i.call = .notify cost) :
    i.Refused ↔ i.state.Refuses cost := by
  unfold Refused
  simp only [charge_none_iff, hcall, Call.estimate, Option.some.injEq]
  exact ⟨fun ⟨_, heq, h⟩ => heq ▸ h, fun h => ⟨cost, rfl, h⟩⟩

/-- Where no other notification is incomplete, what is charged is the previous one. -/
theorem Paced.backlog {cost : ℕ} (hpaced : i.Paced) (hcall : i.call = .notify cost)
    (hkept : i.Kept (Resting (fun p => bound + 1 < 2 ^ 64 → Solicited p) bound)
      (Handling (fun p => bound + 1 < 2 ^ 64 → Solicited p) bound))
    (hbound : bound + 1 < 2 ^ 64) :
    (i.state.queue = [] ∧ i.state.deferred = []) ∨ i.state.backlog = i.previous := by
  unfold Paced at hpaced
  rw [hcall] at hpaced
  have halone := hpaced.1
  unfold incomplete at halone
  unfold Kept at hkept
  unfold previous
  by_cases hhandling : i.handling = true
  · rw [if_pos hhandling] at halone hkept
    rw [if_pos hhandling]
    obtain ⟨e, hj⟩ := hkept
    obtain ⟨haccounted, hfree⟩ := hj.accounts hbound
    have hcons := cons_of_head hj.front
    have hretained : i.state.retained = e :: (i.state.queue.tail ++ i.state.deferred) := by
      unfold retained
      rw [← List.cons_append, ← hcons]
    rw [hretained] at hfree
    have hrest : total Pending.cost (i.state.queue.tail ++ i.state.deferred) = 0 :=
      total_cost_eq_zero fun e' he' => hfree e' (List.mem_cons_of_mem e he') (halone e' he')
    right
    rw [haccounted.balance, hretained, total_cons, hrest, hj.front]
    rfl
  · rw [if_neg hhandling] at halone hkept
    rw [if_neg hhandling]
    rcases hkept.accounts with ha | hdrained
    · obtain ⟨haccounted, hfree⟩ := ha hbound
      right
      rw [haccounted.balance]
      exact total_cost_eq_zero fun e he => hfree e he (halone e he)
    · left
      refine ⟨hdrained.queue, List.eq_nil_iff_forall_not_mem.mpr fun e he => ?_⟩
      exact halone e (List.mem_append_right _ he) (hdrained.deferred e he)

theorem not_refuses_iff {q : Proxy} (cost : ℕ) : ¬q.Refuses cost ↔
    (q.queue = [] ∧ q.deferred = []) ∨
      ceilingedAdd q.backlog (ceilingedAdd cost entrySize) ≤ q.maximumBacklog := by
  unfold Refuses
  rw [not_and_or, not_not, Nat.not_lt]

/-- A notification that is charged is admitted exactly if it fits. -/
theorem Paced.admitted_iff (hpaced : i.Paced)
    (hkept : i.Kept (Resting (fun p => bound + 1 < 2 ^ 64 → Solicited p) bound)
      (Handling (fun p => bound + 1 < 2 ^ 64 → Solicited p) bound))
    (hmaximum : i.state.maximumBacklog = bound) : i.Admitted ↔ i.Fits := by
  have hnotify {cost : ℕ} (hcall : i.call = .notify cost) : ¬i.Refused ↔
      (i.state.queue = [] ∧ i.state.deferred = []) ∨
        ceilingedAdd i.previous (ceilingedAdd cost entrySize) ≤ i.state.maximumBacklog := by
    rw [refused_iff hcall, not_refuses_iff]
    by_cases hbound : bound + 1 < 2 ^ 64
    · rcases hpaced.backlog hcall hkept hbound with hidle | hbacklog
      · exact iff_of_true (.inl hidle) (.inl hidle)
      · rw [hbacklog]
    · -- No sum of charges exceeds the bound.
      have hle (left right : ℕ) : ceilingedAdd left right ≤ i.state.maximumBacklog := by
        have hceiling := ceilingedAdd_le left right
        omega
      exact iff_of_true (.inr (hle _ _)) (.inr (hle _ _))
  constructor
  · intro hadmitted cost hcall hcharging
    exact (hnotify hcall).mp (hadmitted hcharging)
  · intro hfits hcharging hrefused
    obtain ⟨cost, hestimate, hnone⟩ := id hrefused
    cases hcall : i.call with
    | notify size => exact (hnotify hcall).mpr (hfits size hcall hcharging) hrefused
    | message bounded size =>
      cases bounded with
      | true =>
        unfold Paced at hpaced
        rw [hcall] at hpaced
        exact hpaced
      | false =>
        rw [hcall] at hestimate
        cases hestimate
    | respond => rw [hcall] at hestimate; cases hestimate
    | openBatch => rw [hcall] at hestimate; cases hestimate
    | closeBatch => rw [hcall] at hestimate; cases hestimate
    | parse begins => rw [hcall] at hestimate; cases hestimate
    | stop stranded => rw [hcall] at hestimate; cases hestimate

end Issue

namespace Proxy

/-- In every run of a notifier that waits for its writes, all its notifications are admitted
exactly if each of them finds nothing queued or fits beside the one before it. -/
theorem paced_admitted_iff (http zeromq : Bool) (bound : ℕ) (events : List Event)
    (hpaced : ∀ i ∈ (create http zeromq bound).issues events, i.Paced) :
    (∀ i ∈ (create http zeromq bound).issues events, i.Admitted) ↔
      ∀ i ∈ (create http zeromq bound).issues events, i.Fits := by
  have hfree : ∀ e ∈ (create http zeromq bound).retained, e.part ≠ .notification → e.cost = 0 :=
    fun _ h => absurd h List.not_mem_nil
  obtain ⟨_, hkept⟩ := (upkeep_paced bound).run
    (create_resting http zeromq bound fun _ => ⟨create_accounted http zeromq bound, hfree⟩) hpaced
  refine forall₂_congr fun i hi => (hpaced i hi).admitted_iff (hkept i hi) ?_
  have hmaximum := hkept i hi
  unfold Issue.Kept at hmaximum
  split at hmaximum
  · obtain ⟨e, hj⟩ := hmaximum
    exact hj.bound
  · exact hmaximum.bound

/-- A notification is written, and the next is issued in its handler. -/
def pacedPair (first second : ℕ) : List Event :=
  [.call (.notify first), .sent 0 .success false [.notify second]]

theorem pacedPair_paced (zeromq : Bool) (bound first second : ℕ) :
    ∀ i ∈ (create false zeromq bound).issues (pacedPair first second), i.Paced := by
  have hfirst (p : Proxy) (hp : p.queue = [] ∧ p.deferred = [] ∧ p.admitted = []) :
      Issue.Paced ⟨false, p, .notify first⟩ := by
    refine ⟨?_, .inl hp.2.2⟩
    show ∀ e ∈ p.queue ++ p.deferred, e.part ≠ .notification
    rw [hp.1, hp.2.1]
    exact fun _ h => absurd h List.not_mem_nil
  refine List.forall_mem_cons.mpr ⟨hfirst _ ⟨rfl, rfl, rfl⟩, List.forall_mem_cons.mpr ⟨⟨?_, .inr
    ⟨rfl, rfl⟩⟩, fun _ h => absurd h List.not_mem_nil⟩⟩
  exact fun _ h => absurd h List.not_mem_nil

/-- The two notifications, where both fit. -/
theorem pacedPair_admitted_iff :
    (∀ i ∈ (create false false 600).issues (pacedPair 10 20), i.Admitted) ↔
      ∀ i ∈ (create false false 600).issues (pacedPair 10 20), i.Fits :=
  paced_admitted_iff false false 600 (pacedPair 10 20) (pacedPair_paced false 600 10 20)

/-- The first is charged while the second is issued, which is refused although each of them
is within the bound. -/
theorem not_paced_admitted : ¬ ∀ (http zeromq : Bool) (bound : ℕ) (events : List Event),
    (∀ i ∈ (create http zeromq bound).issues events, i.Paced) →
    ∀ i ∈ (create http zeromq bound).issues events, i.Admitted := by
  intro h
  have hadmitted := h false false 600 (pacedPair 300 300) (pacedPair_paced false 600 300 300)
  exact hadmitted _ (.tail _ (.head _)) (.inl rfl) ⟨300, rfl, by decide⟩

end Proxy
end BitcoinNetwork.Net
