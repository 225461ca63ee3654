import BitcoinNetwork.Net.Backlog

/-!
# What a run adds to a channel

The entries that were queued and refused stay so, and what is added has new numbers.
-/

namespace BitcoinNetwork.Net.Proxy
open Async

structure Grown (p q : Proxy) : Prop where
  zeromq : q.zeromq = p.zeromq
  count : p.count ≤ q.count
  queued : p.queued <+: q.queued
  refused : ∃ more, q.refused = p.refused ++ more ∧ ∀ id ∈ more, p.count ≤ id
  new : ∀ id ∈ q.ids, id ∈ p.ids ∨ p.count ≤ id

variable {p q r : Proxy}

theorem mem_ids {id : ℕ} : id ∈ p.ids ↔ id ∈ p.queued.map Pending.id ∨
    id ∈ p.deferred.map Pending.id ∨ id ∈ p.refused := by
  unfold ids
  rw [List.map_append, List.append_assoc, List.mem_append, List.mem_append]

theorem Grown.refl (p : Proxy) : Grown p p :=
  ⟨rfl, Nat.le_refl _, List.prefix_refl _, ⟨[], (List.append_nil _).symm, nofun⟩,
    fun _ h => .inl h⟩

theorem Grown.trans (h : Grown p q) (h' : Grown q r) : Grown p r where
  zeromq := h'.zeromq.trans h.zeromq
  count := h.count.trans h'.count
  queued := h.queued.trans h'.queued
  refused := by
    obtain ⟨more, hmore, hids⟩ := h.refused
    obtain ⟨more', hmore', hids'⟩ := h'.refused
    refine ⟨more ++ more', by rw [hmore', hmore, List.append_assoc], ?_⟩
    exact List.forall_mem_append.mpr ⟨hids, fun id hid => h.count.trans (hids' id hid)⟩
  new id hid := by
    rcases h'.new id hid with hold | hnew
    · exact h.new id hold
    · exact .inr (h.count.trans hnew)

/-- A channel of the same numbers, or with fewer that are deferred. -/
theorem Grown.of_ids (hzeromq : q.zeromq = p.zeromq) (hcount : q.count = p.count)
    (hqueued : p.queued <+: q.queued)
    (hrefused : q.refused = p.refused) (hids : q.ids ⊆ p.ids) : Grown p q where
  zeromq := hzeromq
  count := hcount ▸ Nat.le_refl _
  queued := hqueued
  refused := ⟨[], by rw [hrefused, List.append_nil], nofun⟩
  new _ hid := .inl (hids hid)

/-! ### Calls -/

theorem enqueue_zeromq (p : Proxy) (e : Pending) : (p.enqueue e).zeromq = p.zeromq := by
  rw [enqueue_eq]

theorem doWrite_zeromq (p : Proxy) (e : Pending) : (p.doWrite e).zeromq = p.zeromq := by
  unfold doWrite
  split
  · rfl
  · exact enqueue_zeromq p _

theorem stop_zeromq (p : Proxy) (stranded : Bool) : (p.stop stranded).zeromq = p.zeromq := by
  unfold stop
  split
  · rfl
  · split
    · exact doWrite_zeromq _ _
    · rfl

theorem charge_zeromq (p : Proxy) (e : Pending) : (p.charge e).1.zeromq = p.zeromq := by
  unfold charge
  dsimp only
  split
  · split
    · rfl
    · exact stop_zeromq p true
  · rfl

theorem doNotification_zeromq (p : Proxy) (e : Pending) :
    (p.doNotification e).1.zeromq = p.zeromq := by
  unfold doNotification
  have hcharge := charge_zeromq p e
  split
  · rfl
  · split
    · next heq =>
      rw [heq] at hcharge
      exact hcharge
    · next heq =>
      rw [heq] at hcharge
      exact (enqueue_zeromq _ _).trans hcharge

theorem doDeferWrite_zeromq (p : Proxy) (e : Pending) :
    (p.doDeferWrite e).zeromq = p.zeromq := by
  unfold doDeferWrite
  have hcharge := charge_zeromq p e
  have hwrite := doNotification_zeromq p e
  split
  · split
    · next heq =>
      rw [heq] at hcharge
      exact hcharge
    · next heq =>
      rw [heq] at hcharge
      exact hcharge
  · split
    · next heq =>
      rw [heq] at hwrite
      exact hwrite
    · next heq =>
      rw [heq] at hwrite
      exact hwrite

theorem call_zeromq (p : Proxy) (c : Call) : (p.call c).zeromq = p.zeromq := by
  cases c with
  | message bounded cost =>
    cases bounded with
    | true => exact doNotification_zeromq p.next _
    | false => exact doWrite_zeromq p.next _
  | respond =>
    unfold call doResponseQueue
    dsimp only
    rw [doWrite_zeromq]
    split <;> rfl
  | notify cost => exact doDeferWrite_zeromq p.next _
  | openBatch => rfl
  | closeBatch => exact doWrite_zeromq _ _
  | parse begins => rfl
  | stop stranded => exact stop_zeromq p stranded

theorem Called.grown (h : Called p q) (hzeromq : q.zeromq = p.zeromq) : Grown p q := by
  cases h.effect with
  | quiet hcycle hdeferred _ hrefused =>
    have hqueued : q.queued = p.queued := congrArg Cycle.queued hcycle
    refine ⟨hzeromq, h.count, hqueued ▸ List.prefix_refl _,
      ⟨[], by rw [hrefused, List.append_nil], nofun⟩, fun id hid => .inl ?_⟩
    rwa [mem_ids, hqueued, hdeferred, hrefused, ← mem_ids] at hid
  | refused number hcycle hdeferred _ hrefused hnumber _ =>
    have hqueued : q.queued = p.queued := congrArg Cycle.queued hcycle
    refine ⟨hzeromq, h.count, hqueued ▸ List.prefix_refl _,
      ⟨[number], hrefused, List.forall_mem_singleton.mpr hnumber⟩, fun id hid => ?_⟩
    rw [mem_ids, hqueued, hdeferred, hrefused, List.mem_append] at hid
    rcases hid with hid | hid | hid | hid
    · exact .inl (mem_ids.mpr (.inl hid))
    · exact .inl (mem_ids.mpr (.inr (.inl hid)))
    · exact .inl (mem_ids.mpr (.inr (.inr hid)))
    · exact .inr (List.mem_singleton.mp hid ▸ hnumber)
  | queued e _ hcycle hdeferred hnumber _ _ hrefused =>
    have hqueued : q.queued = p.queued ++ [e] :=
      (congrArg Cycle.queued hcycle).trans (cycle_queued_enqueue _ e)
    refine ⟨hzeromq, h.count, hqueued ▸ List.prefix_append _ _,
      ⟨[], by rw [hrefused, List.append_nil], nofun⟩, fun id hid => ?_⟩
    rw [mem_ids, hqueued, hdeferred, hrefused, List.map_append, List.mem_append] at hid
    rcases hid with (hid | hid) | hid | hid
    · exact .inl (mem_ids.mpr (.inl hid))
    · exact .inr (List.mem_singleton.mp hid ▸ hnumber)
    · exact .inl (mem_ids.mpr (.inr (.inl hid)))
    · exact .inl (mem_ids.mpr (.inr (.inr hid)))
  | deferred e hcycle hdeferred hnumber _ _ _ hrefused =>
    have hqueued : q.queued = p.queued := congrArg Cycle.queued hcycle
    refine ⟨hzeromq, h.count, hqueued ▸ List.prefix_refl _,
      ⟨[], by rw [hrefused, List.append_nil], nofun⟩, fun id hid => ?_⟩
    rw [mem_ids, hqueued, hdeferred, hrefused, List.map_append, List.mem_append] at hid
    rcases hid with hid | (hid | hid) | hid
    · exact .inl (mem_ids.mpr (.inl hid))
    · exact .inl (mem_ids.mpr (.inr (.inl hid)))
    · exact .inr (List.mem_singleton.mp hid ▸ hnumber)
    · exact .inl (mem_ids.mpr (.inr (.inr hid)))

theorem call_grown (p : Proxy) (c : Call) : Grown p (p.call c) :=
  (call_effect p c).grown (call_zeromq p c)

theorem drain_grown (p : Proxy) : Grown p p.drain := by
  have hdrained : Grown p
      { p with queue := p.queue ++ p.deferred, queued := p.queued ++ p.deferred, deferred := [] } :=
    .of_ids rfl rfl (List.prefix_append _ _) rfl (by unfold ids; rw [List.append_nil]; exact fun _ h => h)
  unfold drain
  dsimp only
  split
  · exact hdrained
  · rw [write_eq]
    exact hdrained.trans (.of_ids rfl rfl (List.prefix_refl _) rfl fun _ h => h)

/-- Whatever calls are made. -/
theorem upkeep_grown (p : Proxy) : Upkeep (fun _ => True) (Grown p) (fun _ => Grown p) where
  call q c h _ := h.trans (call_grown q c)
  moved _ _ _ _ h := h.trans (.of_ids rfl rfl (List.prefix_refl _) rfl fun _ h => h)
  enter _ _ _ h _ := h.trans (.of_ids rfl rfl (List.prefix_refl _) rfl fun _ h => h)
  nested q c _ h _ := h.trans (call_grown q c)
  drain q _ h := h.trans (drain_grown q)
  finish _ _ h := h.trans (.of_ids rfl rfl (List.prefix_refl _) rfl fun _ h => h)
  leave _ _ h := h.trans (.of_ids rfl rfl (List.prefix_refl _) rfl fun _ h => h)
  purge q _ h := by
    refine h.trans (.of_ids rfl rfl (List.prefix_refl _) rfl fun id hid => ?_)
    rcases mem_ids.mp hid with hid | hid | hid
    · exact mem_ids.mpr (.inl hid)
    · cases hid
    · exact mem_ids.mpr (.inr (.inr hid))

/-- A write of a zmtp channel that is bounded is refused or queued, unless the channel is
stopped, and has the next number. -/
theorem message_bounded (hzeromq : p.zeromq = true) (cost : ℕ) :
    (p.call (.message true cost)).count = p.count + 1 ∧
    ((p.stopped = true ∧ (p.call (.message true cost)).ids = p.ids) ∨
      (p.stopped = false ∧
        ((p.call (.message true cost)).refused = p.refused ++ [p.count] ∨
          ∃ e : Pending, e.id = p.count ∧ (p.call (.message true cost)).refused = p.refused ∧
            (p.call (.message true cost)).queued = p.queued ++ [e]))) := by
  have hcount (q : Proxy) (e : Pending) : (q.enqueue e).count = q.count := by
    rw [enqueue_eq]
  have hrefused (q : Proxy) (e : Pending) : (q.enqueue e).refused = q.refused := by
    rw [enqueue_eq]
  have hqueued (q : Proxy) (e : Pending) : (q.enqueue e).queued = q.queued ++ [e] :=
    (congrArg Cycle.queued (cycle_enqueue q e)).trans (cycle_queued_enqueue _ e)
  simp only [call]
  unfold doNotification
  by_cases hstopped : p.stopped = true
  · rw [if_pos (show p.next.stopped = true from hstopped)]
    exact ⟨rfl, .inl ⟨hstopped, rfl⟩⟩
  · have hrunning : p.stopped = false := Bool.eq_false_iff.mpr hstopped
    rw [if_neg (show ¬p.next.stopped = true from hstopped)]
    unfold charge
    dsimp only
    split
    · next hcharge =>
      rw [if_pos (show p.next.zeromq = true from hzeromq)] at hcharge
      split at hcharge
      · cases hcharge
        exact ⟨rfl, .inr ⟨hrunning, .inl rfl⟩⟩
      · cases hcharge
    · next e hcharge =>
      rw [if_pos (show p.next.zeromq = true from hzeromq)] at hcharge
      split at hcharge
      · cases hcharge
      · cases hcharge
        exact ⟨hcount _ _, .inr ⟨hrunning, .inr ⟨_, rfl, hrefused _ _, hqueued _ _⟩⟩⟩

theorem step_grown (p : Proxy) (e : Event) : Grown p (p.step e) :=
  ((upkeep_grown p).step (Grown.refl p) fun _ _ => trivial).1

end BitcoinNetwork.Net.Proxy
