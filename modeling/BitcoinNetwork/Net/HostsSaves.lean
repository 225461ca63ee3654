import BitcoinNetwork.Net.HostsRuns
import Mathlib.Data.Finset.Card
import Mathlib.Data.Finset.Dedup

/-!
# What a save accepts

A save pushes addresses one by one, each by what the pool has at its turn. The count that
it reports is that of the entries that the pool gains.
-/

namespace BitcoinNetwork.Net
open Async
open Peer (Address AddressItem)

namespace Hosts

/-- An address that a save pushes, at its turn. -/
def Acceptable {Endpoint : Type} (s : HostSettings Endpoint) (reserved : AddressItem → Bool)
    (pool : List AddressItem) (host : AddressItem) : Prop :=
  s.insufficient host = false ∧ reserved host = false ∧ hostKey host ∉ pool.map hostKey

instance {Endpoint : Type} (s : HostSettings Endpoint) (reserved : AddressItem → Bool)
    (pool : List AddressItem) (host : AddressItem) : Decidable (Acceptable s reserved pool host) :=
  inferInstanceAs (Decidable (_ ∧ _ ∧ _))

/-- The addresses that are pushed to a pool that keeps its newest entries. -/
def accepted {Endpoint : Type} (s : HostSettings Endpoint) (reserved : AddressItem → Bool) :
    List AddressItem → List AddressItem → List AddressItem
  | _, [] => []
  | pool, host :: addresses =>
    if Acceptable s reserved pool host then
      host :: accepted s reserved ((pool ++ [host]).rtake s.capacity) addresses
    else accepted s reserved pool addresses

/-- The different addresses that the pool would take, as it is before the save. -/
def candidates {Endpoint : Type} (s : HostSettings Endpoint) (reserved : AddressItem → Bool)
    (pool addresses : List AddressItem) : Finset (Address × UInt16) :=
  ((addresses.filter fun host => Acceptable s reserved pool host).map hostKey).toFinset

variable {Endpoint : Type} {s : HostSettings Endpoint} {h : Hosts Endpoint}

section Candidates
variable {reserved : AddressItem → Bool} {pool addresses : List AddressItem} {host : AddressItem}

theorem mem_candidates {k : Address × UInt16} : k ∈ candidates s reserved pool addresses ↔
    ∃ host ∈ addresses, Acceptable s reserved pool host ∧ hostKey host = k := by
  unfold candidates
  simp only [List.mem_toFinset, List.mem_map, List.mem_filter, decide_eq_true_eq, and_assoc]

theorem candidates_cons_of_not (hn : ¬Acceptable s reserved pool host) :
    candidates s reserved pool (host :: addresses) = candidates s reserved pool addresses := by
  unfold candidates
  rw [List.filter_cons_of_neg (by simpa using hn)]

/-- An address that is taken is one, and those equal to it are none once it is pushed. -/
theorem card_candidates_cons (ha : Acceptable s reserved pool host) :
    (candidates s reserved pool (host :: addresses)).card =
      (candidates s reserved (pool ++ [host]) addresses).card + 1 := by
  have hpushed : candidates s reserved (pool ++ [host]) addresses =
      (candidates s reserved pool addresses).erase (hostKey host) := by
    ext k
    rw [Finset.mem_erase, mem_candidates, mem_candidates]
    unfold Acceptable
    simp only [List.map_append, List.map_singleton, List.mem_append, List.mem_singleton, not_or]
    constructor
    · rintro ⟨x, hx, ⟨hservices, hreserved, hpool, hne⟩, rfl⟩
      exact ⟨hne, x, hx, ⟨hservices, hreserved, hpool⟩, rfl⟩
    · rintro ⟨hne, x, hx, ⟨hservices, hreserved, hpool⟩, rfl⟩
      exact ⟨x, hx, ⟨hservices, hreserved, hpool, hne⟩, rfl⟩
  have hinsert : candidates s reserved pool (host :: addresses) =
      insert (hostKey host) (candidates s reserved pool addresses) := by
    unfold candidates
    rw [List.filter_cons_of_pos (by simpa using ha), List.map_cons, List.toFinset_cons]
  rw [hinsert, hpushed]
  by_cases hmem : hostKey host ∈ candidates s reserved pool addresses
  · rw [Finset.insert_eq_of_mem hmem, Finset.card_erase_add_one hmem]
  · rw [Finset.card_insert_of_notMem hmem, Finset.erase_eq_of_notMem hmem]

/-- All that is accepted fits the pool exactly if all different candidates do. -/
theorem accepted_fits_iff (hpool : pool.length ≤ s.capacity) :
    pool.length + (accepted s reserved pool addresses).length ≤ s.capacity ↔
      pool.length + (candidates s reserved pool addresses).card ≤ s.capacity := by
  induction addresses generalizing pool with
  | nil => exact Iff.rfl
  | cons host addresses ih =>
    unfold accepted
    split
    · next ha =>
      rw [card_candidates_cons ha, List.length_cons]
      by_cases hfull : pool.length = s.capacity
      · omega
      · have hlength : (pool ++ [host]).length = pool.length + 1 := by
          rw [List.length_append, List.length_singleton]
        have hroom : (pool ++ [host]).length ≤ s.capacity := by omega
        have hrest := ih hroom
        rw [rtake_of_le hroom]
        omega
    · next hn =>
      rw [candidates_cons_of_not hn]
      exact ih hpool

end Candidates

theorem push_endpoints (h : Hosts Endpoint) (host : AddressItem) :
    (h.push s host).endpoints = h.endpoints := by
  unfold push increment decrement
  dsimp only
  split
  · split <;> rfl
  · rfl

theorem isPooled_iff (host : AddressItem) :
    h.isPooled host = true ↔ hostKey host ∈ h.buffer.map hostKey := by
  unfold isPooled
  rw [← not_iff_not, ← find?_none_iff, Bool.not_eq_true, Option.isSome_eq_false_iff,
    Option.isNone_iff_eq_none]

variable [DecidableEq Endpoint]

/-- What a save leaves: the newest of what the pool had and what was accepted. -/
theorem foldl_saveOne (hc : Counted s h) (hcapacity : 0 < s.capacity)
    (addresses : List AddressItem) :
    (addresses.foldl (saveOne s) h).buffer =
      (h.buffer ++ accepted s (h.isReserved s) h.buffer addresses).rtake s.capacity := by
  induction addresses generalizing h with
  | nil =>
    rw [accepted, List.append_nil, rtake_of_le hc.bounded]
    rfl
  | cons host addresses ih =>
    have hmore := ih (saveOne_counted hc hcapacity host)
    rw [List.foldl_cons, hmore, accepted]
    have haccept : (¬s.insufficient host ∧ ¬h.isReserved s host ∧ ¬h.isPooled host) ↔
        Acceptable s (h.isReserved s) h.buffer host := by
      unfold Acceptable
      rw [isPooled_iff, Bool.not_eq_true, Bool.not_eq_true]
    unfold saveOne
    by_cases ha : Acceptable s (h.isReserved s) h.buffer host
    · rw [if_pos (haccept.mpr ha), if_pos ha]
      have hbuffer : (h.push s host).stored.buffer = (h.buffer ++ [host]).rtake s.capacity :=
        (push_buffer h host).trans (pushNewest_eq hc.bounded hcapacity host)
      have hreserved : (h.push s host).stored.isReserved s = h.isReserved s := by
        funext item
        show (h.push s host).endpoints.contains _ = _
        rw [push_endpoints]
        rfl
      rw [hbuffer, hreserved, rtake_append_rtake, List.append_assoc]
      rfl
    · rw [if_neg (fun hn => ha (haccept.mp hn)), if_neg ha]

theorem counted_of_run (s : HostSettings Endpoint) (ops : List (Op Endpoint)) :
    Counted s (after (step s) {} ops) :=
  @after_invariant _ _ (step s) (Counted s) (fun _ op hc => step_counted hc op) _
    create_sound.counted ops

/-- A save reports what it accepts, and leaves the newest of what the pool had and that. -/
def SaveExact (s : HostSettings Endpoint) (h : Hosts Endpoint) (addresses : List AddressItem) :
    Prop :=
  let taken := accepted s (h.isReserved s) h.buffer addresses
  (h.save s addresses).1 = .success ∧ (h.save s addresses).2.1 = taken.length ∧
    (h.save s addresses).2.2.buffer = (h.buffer ++ taken).rtake s.capacity

/-- It does so exactly if the pool has room for all that it would take. -/
theorem save_exact_iff (s : HostSettings Endpoint) (ops : List (Op Endpoint))
    {addresses : List AddressItem} (hrunning : (after (step s) {} ops).stopped = false)
    (haddresses : addresses ≠ []) :
    let h := after (step s) {} ops
    SaveExact s h addresses ↔
      h.buffer.length + (candidates s (h.isReserved s) h.buffer addresses).card ≤ s.capacity := by
  have hc := counted_of_run s ops
  generalize after (step s) {} ops = h at hrunning hc
  dsimp only
  have hbuffer := foldl_saveOne hc (hc.running hrunning) addresses
  have hlength := congrArg List.length hbuffer
  rw [length_rtake, List.length_append] at hlength
  have hbounded := hc.bounded
  have hsave : h.save s addresses = (.success,
      (addresses.foldl (saveOne s) h).buffer.length - h.buffer.length,
      addresses.foldl (saveOne s) h) := by
    unfold save
    rw [if_neg (by rw [hrunning]; exact Bool.noConfusion), if_neg haddresses]
  rw [← accepted_fits_iff hbounded]
  unfold SaveExact
  rw [hsave]
  constructor
  · rintro ⟨_, hcount, _⟩
    dsimp only at hcount
    omega
  · intro hfits
    refine ⟨rfl, ?_, hbuffer⟩
    show (addresses.foldl (saveOne s) h).buffer.length - h.buffer.length = _
    omega

/-- A pool of two is loaded with one address, and another is saved. -/
theorem save_exact_other :
    let h := after (step (sampleSettings 2)) {} [.start ⟨true, ["1.2.3.4:8333"], .done⟩]
    SaveExact (sampleSettings 2) h [{ sampleAddress with port := 8334 }] ↔
      h.buffer.length + (candidates (sampleSettings 2) (h.isReserved (sampleSettings 2)) h.buffer
        [{ sampleAddress with port := 8334 }]).card ≤ 2 :=
  save_exact_iff (sampleSettings 2) [.start ⟨true, ["1.2.3.4:8333"], .done⟩] rfl
    (List.cons_ne_nil _ _)

/-- A pool of one takes another address for the one that it has, and reports none. -/
theorem not_save_exact : ¬ ∀ (s : HostSettings String) (ops : List (Op String))
    (addresses : List AddressItem), (after (step s) {} ops).stopped = false → addresses ≠ [] →
    SaveExact s (after (step s) {} ops) addresses := by
  intro h
  obtain ⟨_, hcount, _⟩ := h (sampleSettings 1) [.start ⟨true, ["1.2.3.4:8333"], .done⟩]
    [{ sampleAddress with port := 8334 }] rfl (List.cons_ne_nil _ _)
  exact absurd hcount (by decide)

end Hosts
end BitcoinNetwork.Net
