import BitcoinNetwork.Protocols.Gossip
import Mathlib.Data.List.Nodup
import Mathlib.Data.List.Perm.Subperm

/-!
# What becomes of an address in a node (protocols/protocol_address_out_209.cpp)

A channel has its peer's first message relayed at most, so that what reaches a peer is
bounded by the number of the others, whatever they send.
-/

namespace BitcoinNetwork.Protocols
open Async

/-! ### What is under way -/

section
variable {Item : Type}

def GossipJob.subscribes (k : ℕ) : GossipJob Item → ℕ
  | .subscribe j => if j = k then 1 else 0
  | .broadcast _ _ | .fetch _ | .save _ _ | .stop => 0

def GossipJob.fetches (k : ℕ) : GossipJob Item → ℕ
  | .fetch j => if j = k then 1 else 0
  | .subscribe _ | .broadcast _ _ | .save _ _ | .stop => 0

def GossipJob.broadcasts : GossipJob Item → List (List Item × ℕ)
  | .broadcast message sender => [(message, sender)]
  | .subscribe _ | .fetch _ | .save _ _ | .stop => []

def GossipJob.saves : GossipJob Item → List (ℕ × List Item)
  | .save k message => [(k, message)]
  | .subscribe _ | .broadcast _ _ | .fetch _ | .stop => []

def RelayJob.answers : RelayJob Item → ℕ
  | .fetched _ _ => 1
  | .broadcast _ _ => 0

def AddressSend.addresses : AddressSend Item → ℕ
  | .address _ => 1
  | .getAddress => 0

/-- What a job of a channel is to relay to its peer. -/
def RelayJob.relays (settings : AddressSettings Item) (p : Party Item) (k : ℕ) :
    RelayJob Item → List (List Item)
  | .broadcast message sender => if sender = k then [] else [Gossip.represent settings p message]
  | .fetched _ _ => []

/-- What is to be relayed to the peer of a channel, of what was broadcast. -/
def Gossip.due (settings : AddressSettings Item) (p : Party Item) (k : ℕ)
    (broadcasts : List (List Item × ℕ)) : List (List Item) :=
  (broadcasts.filter fun entry => entry.2 ≠ k).map fun entry => Gossip.represent settings p entry.1

/-- The addresses are some of the first message of the channel, where that is an advertisement,
or of any that was asked for, and are such as the pool takes. -/
structure Gossip.Saved (settings : AddressSettings Item) (p : Party Item) (message : List Item) :
    Prop where
  length : message.length ≤ settings.hostPoolCapacity
  taken : ∀ item ∈ message, settings.excluded item = false
  received : ∃ r ∈ p.received, (∀ item ∈ message, item ∈ r) ∧
    (p.outbound = true ∨ p.received.head? = some r ∧ r.length < maximumAdvertisement)

/-- Each channel has at most one message broadcast, the first that it received, if that is
short enough; a channel has relayed to its peer what was broadcast by others since it has
subscribed, in order, and without an end where it is not stopped and has nothing to do, which
is less than one message for each channel; nothing is relayed to a peer that has not asked for
addresses, and a peer that asks again and again is answered once; a peer of the first protocol
is given addresses of the first protocol only; and what is saved was received. -/
structure Gossip.Bounded (settings : AddressSettings Item) (s : Gossip Item) : Prop where
  once : (s.broadcasts.map Prod.snd).Nodup
  firsts : ∀ entry ∈ s.broadcasts,
    (s.party entry.2).received.head? = some entry.1 ∧ entry.1.length < maximumAdvertisement
  relayed : ∀ k i, s.joined k = some i →
    (s.party k).relayed <+: Gossip.due settings (s.party k) k (s.broadcasts.drop i) ∧
      ((s.party k).stopped = false → (s.party k).jobs = [] →
        (s.party k).relayed = Gossip.due settings (s.party k) k (s.broadcasts.drop i))
  unasked : ∀ k, (s.party k).sent = false → (s.party k).relayed = []
  bounded : ∀ k < s.given, (s.party k).relayed.length < s.given
  answered : ∀ k, total AddressSend.addresses (s.party k).sends ≤
    (s.party k).sent.toNat + settings.selfs.isSome.toNat
  first : ∀ k, (s.party k).v2 = false → ∀ message ∈ (s.party k).relayed, ∀ item ∈ message,
    settings.isV1 item = true
  saved : ∀ entry ∈ s.saves, Gossip.Saved settings (s.party entry.1) entry.2

/-! ### The invariant -/

/-- What holds of a channel. -/
structure Gossip.Local (settings : AddressSettings Item) (s : Gossip Item) (k : ℕ) : Prop where
  first : (s.party k).first = (s.party k).received.isEmpty
  fresh : s.given ≤ k → (s.party k).received = [] ∧ (s.party k).sent = false
  subscribing : total (GossipJob.subscribes k) s.network + (s.joined k).isSome.toNat ≤
    (s.party k).sent.toNat
  answering : total (GossipJob.fetches k) s.network + total RelayJob.answers (s.party k).jobs +
    total AddressSend.addresses (s.party k).sends ≤
      (s.party k).sent.toNat + if k < s.given then settings.selfs.isSome.toNat else 0
  member : k ∈ s.subscribers → s.joined k ≠ none
  apart : s.joined k = none → (s.party k).relayed = [] ∧
    ((s.party k).jobs.flatMap (RelayJob.relays settings (s.party k) k)) = []
  joined : ∀ i, s.joined k = some i → i ≤ s.broadcasts.length ∧
    (s.party k).relayed <+: Gossip.due settings (s.party k) k (s.broadcasts.drop i) ∧
      ((s.party k).stopped = false →
        (s.stopped = false → k ∈ s.subscribers) ∧
        (s.party k).relayed ++ (s.party k).jobs.flatMap (RelayJob.relays settings (s.party k) k) =
          Gossip.due settings (s.party k) k (s.broadcasts.drop i))

/-- What was broadcast, or is to be. -/
def Gossip.heralds (s : Gossip Item) : List (List Item × ℕ) :=
  s.broadcasts ++ s.network.flatMap GossipJob.broadcasts

/-- What was saved, or is to be. -/
def Gossip.saving (s : Gossip Item) : List (ℕ × List Item) :=
  s.saves ++ s.network.flatMap GossipJob.saves

structure Gossip.Sound (settings : AddressSettings Item) (s : Gossip Item) : Prop where
  channels : ∀ k, Gossip.Local settings s k
  subscribers : s.subscribers.Nodup
  once : (s.heralds.map Prod.snd).Nodup
  firsts : ∀ entry ∈ s.heralds, entry.2 < s.given ∧
    (s.party entry.2).received.head? = some entry.1 ∧ entry.1.length < maximumAdvertisement
  saved : ∀ entry ∈ s.saving, Gossip.Saved settings (s.party entry.1) entry.2

end

/-! ### What the invariant says -/

section
variable {Item : Type} {settings : AddressSettings Item} {s s' : Gossip Item} {k : ℕ}

/-- What is relayed to a peer is of the other channels, one message of each. -/
theorem Gossip.Sound.bounded (h : Gossip.Sound settings s) (hk : k < s.given) :
    (s.party k).relayed.length < s.given := by
  have hlocal := h.channels k
  cases hjoined : s.joined k with
  | none =>
    rw [(hlocal.apart hjoined).1]
    exact Nat.lt_of_le_of_lt (Nat.zero_le k) hk
  | some i =>
    have hlength := (hlocal.joined i hjoined).2.1.length_le
    unfold Gossip.due at hlength
    rw [List.length_map] at hlength
    have hsublist : ((s.broadcasts.drop i).filter fun entry => entry.2 ≠ k).Sublist s.heralds :=
      (List.filter_sublist.trans (List.drop_sublist _ _)).trans (List.sublist_append_left _ _)
    have hothers : (k :: ((s.broadcasts.drop i).filter fun entry => entry.2 ≠ k).map Prod.snd).Nodup := by
      refine List.nodup_cons.mpr ⟨?_, h.once.sublist (hsublist.map _)⟩
      intro hmem
      obtain ⟨entry, hentry, heq⟩ := List.mem_map.mp hmem
      exact of_decide_eq_true (List.mem_filter.mp hentry).2 heq
    have hgiven : k :: ((s.broadcasts.drop i).filter fun entry => entry.2 ≠ k).map Prod.snd ⊆
        List.range s.given := by
      intro j hj
      rcases List.mem_cons.mp hj with rfl | hj
      · exact List.mem_range.mpr hk
      · obtain ⟨entry, hentry, rfl⟩ := List.mem_map.mp hj
        exact List.mem_range.mpr (h.firsts entry (hsublist.subset hentry)).1
    have hle := (List.subperm_of_subset hothers hgiven).length_le
    rw [List.length_cons, List.length_map, List.length_range] at hle
    omega

/-- What is told of a channel, by all that it reads. -/
theorem Gossip.Local.congr (h : Gossip.Local settings s k) (hparty : s'.party k = s.party k)
    (hgiven : s.given ≤ k ↔ s'.given ≤ k)
    (hsubscribes : total (GossipJob.subscribes k) s'.network = total (GossipJob.subscribes k) s.network)
    (hfetches : total (GossipJob.fetches k) s'.network = total (GossipJob.fetches k) s.network)
    (hjoined : s'.joined k = s.joined k) (hmember : k ∈ s'.subscribers ↔ k ∈ s.subscribers)
    (hstopped : s'.stopped = s.stopped) (hbroadcasts : s'.broadcasts = s.broadcasts) :
    Gossip.Local settings s' k := by
  obtain ⟨hfirst, hfresh, hsubscribing, hanswering, hmem, hapart, hrelayed⟩ := h
  have hless : k < s'.given ↔ k < s.given := by omega
  refine ⟨?_, ?_, ?_, ?_, ?_, ?_, ?_⟩
  · rw [hparty]
    exact hfirst
  · rw [hparty]
    exact fun hk => hfresh (hgiven.mpr hk)
  · rw [hparty, hsubscribes, hjoined]
    exact hsubscribing
  · rw [hparty, hfetches]
    simp only [hless]
    exact hanswering
  · rw [hmember, hjoined]
    exact hmem
  · rw [hparty, hjoined]
    exact hapart
  · rw [hparty, hjoined, hstopped, hbroadcasts, hmember]
    exact hrelayed

/-- A channel changes, which posts jobs to the network. -/
structure Gossip.Changes (k : ℕ) (p : Party Item) (jobs : List (GossipJob Item))
    (s s' : Gossip Item) : Prop where
  given : s'.given = s.given
  stopped : s'.stopped = s.stopped
  party : s'.party = Function.update s.party k p
  network : s'.network = s.network ++ jobs
  subscribers : s'.subscribers = s.subscribers
  broadcasts : s'.broadcasts = s.broadcasts
  joined : s'.joined = s.joined
  saves : s'.saves = s.saves

theorem Gossip.Saved.mono {p p' : Party Item} {message : List Item}
    (h : Gossip.Saved settings p message) (houtbound : p'.outbound = p.outbound)
    (hreceived : p.received <+: p'.received) : Gossip.Saved settings p' message := by
  obtain ⟨r, hr, hitems, hkind⟩ := h.received
  refine ⟨h.length, h.taken, r, hreceived.subset hr, hitems, ?_⟩
  rw [houtbound]
  refine hkind.imp_right fun hfirst => ⟨?_, hfirst.2⟩
  obtain ⟨more, heq⟩ := hreceived
  rw [← heq, List.head?_append, hfirst.1]
  rfl

/-- A step of one channel, which has no message broadcast but its first. -/
theorem Gossip.Sound.change (h : Gossip.Sound settings s) {p : Party Item}
    {jobs : List (GossipJob Item)} (hs : Gossip.Changes k p jobs s s')
    (houtbound : p.outbound = (s.party k).outbound)
    (hreceived : (s.party k).received <+: p.received) (hlocal : Gossip.Local settings s' k)
    (hothers : ∀ j ≠ k, total (GossipJob.subscribes j) jobs = 0 ∧ total (GossipJob.fetches j) jobs = 0)
    (hherald : jobs.flatMap GossipJob.broadcasts = [] ∨ ∃ message, k < s.given ∧
      jobs.flatMap GossipJob.broadcasts = [(message, k)] ∧ (s.party k).received = [] ∧
        p.received.head? = some message ∧ message.length < maximumAdvertisement)
    (hsaves : ∀ entry ∈ jobs.flatMap GossipJob.saves, entry.1 = k ∧ Gossip.Saved settings p entry.2) :
    Gossip.Sound settings s' := by
  have hself : s'.party k = p := by
    rw [hs.party, Function.update_self]
  have hother : ∀ j ≠ k, s'.party j = s.party j := by
    intro j hj
    rw [hs.party, Function.update_of_ne hj]
  have hheralds : s'.heralds = s.heralds ++ jobs.flatMap GossipJob.broadcasts := by
    unfold Gossip.heralds
    rw [hs.broadcasts, hs.network, List.flatMap_append, List.append_assoc]
  have hsaving : s'.saving = s.saving ++ jobs.flatMap GossipJob.saves := by
    unfold Gossip.saving
    rw [hs.saves, hs.network, List.flatMap_append, List.append_assoc]
  -- the first message of a channel stays the first
  have hfirsts : ∀ entry ∈ s.heralds, entry.2 < s'.given ∧
      (s'.party entry.2).received.head? = some entry.1 ∧ entry.1.length < maximumAdvertisement := by
    intro entry hmem
    obtain ⟨hgiven, hhead, hlength⟩ := h.firsts entry hmem
    refine ⟨hs.given ▸ hgiven, ?_, hlength⟩
    by_cases heq : entry.2 = k
    · rw [heq] at hhead ⊢
      obtain ⟨more, hmore⟩ := hreceived
      rw [hself, ← hmore, List.head?_append, hhead]
      rfl
    · rw [hother _ heq]
      exact hhead
  refine ⟨?_, ?_, ?_, ?_, ?_⟩
  · intro j
    by_cases hj : j = k
    · rw [hj]
      exact hlocal
    · refine (h.channels j).congr (hother j hj) (by rw [hs.given]) ?_ ?_ (by rw [hs.joined])
        (by rw [hs.subscribers]) hs.stopped hs.broadcasts
      · rw [hs.network, total_append, (hothers j hj).1, Nat.add_zero]
      · rw [hs.network, total_append, (hothers j hj).2, Nat.add_zero]
  · rw [hs.subscribers]
    exact h.subscribers
  · rw [hheralds]
    rcases hherald with hnone | ⟨message, -, heq, hempty, -⟩
    · rw [hnone, List.append_nil]
      exact h.once
    · rw [heq, List.map_append]
      refine List.nodup_append.mpr ⟨h.once, List.nodup_singleton k, ?_⟩
      intro sender hsender other hmem heq'
      rw [List.mem_singleton.mp hmem] at heq'
      obtain ⟨entry, hentry, rfl⟩ := List.mem_map.mp hsender
      have hhead := (h.firsts entry hentry).2.1
      rw [heq', hempty] at hhead
      cases hhead
  · intro entry hmem
    rw [hheralds] at hmem
    rcases List.mem_append.mp hmem with hmem | hmem
    · exact hfirsts entry hmem
    · rcases hherald with hnone | ⟨message, hgiven, heq, -, hhead, hlength⟩
      · rw [hnone] at hmem
        cases hmem
      · rw [heq] at hmem
        rw [List.mem_singleton.mp hmem]
        exact ⟨hs.given ▸ hgiven, hself ▸ hhead, hlength⟩
  · intro entry hmem
    rw [hsaving] at hmem
    rcases List.mem_append.mp hmem with hmem | hmem
    · have hsaved := h.saved entry hmem
      by_cases heq : entry.1 = k
      · rw [heq] at hsaved ⊢
        rw [hself]
        exact hsaved.mono houtbound hreceived
      · rw [hother _ heq]
        exact hsaved
    · obtain ⟨heq, hsaved⟩ := hsaves entry hmem
      rw [heq, hself]
      exact hsaved

/-- A channel that changes, but for what it relays. -/
theorem Gossip.Local.calm (h : Gossip.Local settings s k) {p : Party Item}
    {jobs : List (GossipJob Item)} (hs : Gossip.Changes k p jobs s s')
    (hv2 : p.v2 = (s.party k).v2) (hrelayed : p.relayed = (s.party k).relayed)
    (hjobs : p.jobs.flatMap (RelayJob.relays settings p k) =
      (s.party k).jobs.flatMap (RelayJob.relays settings (s.party k) k))
    (hstopped : p.stopped = false → (s.party k).stopped = false)
    (hfirst : p.first = p.received.isEmpty)
    (hfresh : s.given ≤ k → p.received = [] ∧ p.sent = false)
    (hsubscribing : total (GossipJob.subscribes k) s.network + total (GossipJob.subscribes k) jobs +
      (s.joined k).isSome.toNat ≤ p.sent.toNat)
    (hanswering : total (GossipJob.fetches k) s.network + total (GossipJob.fetches k) jobs +
      total RelayJob.answers p.jobs + total AddressSend.addresses p.sends ≤
        p.sent.toNat + if k < s.given then settings.selfs.isSome.toNat else 0) :
    Gossip.Local settings s' k := by
  have hself : s'.party k = p := by
    rw [hs.party, Function.update_self]
  have hdue : ∀ broadcasts, Gossip.due settings p k broadcasts =
      Gossip.due settings (s.party k) k broadcasts := by
    intro broadcasts
    unfold Gossip.due Gossip.represent
    rw [hv2]
  refine ⟨?_, ?_, ?_, ?_, ?_, ?_, ?_⟩
  · rw [hself]
    exact hfirst
  · rw [hself, hs.given]
    exact hfresh
  · rw [hself, hs.network, hs.joined, total_append]
    exact hsubscribing
  · rw [hself, hs.network, hs.given, total_append]
    exact hanswering
  · rw [hs.subscribers, hs.joined]
    exact h.member
  · rw [hself, hs.joined, hrelayed, hjobs]
    exact h.apart
  · rw [hself, hs.joined, hs.broadcasts, hs.stopped, hs.subscribers, hrelayed, hjobs]
    intro i hjoined
    rw [hdue]
    obtain ⟨hle, hprefix, hrunning⟩ := h.joined i hjoined
    exact ⟨hle, hprefix, fun hrun => hrunning (hstopped hrun)⟩

/-! ### What a peer sends -/

theorem update_changes (s : Gossip Item) (k : ℕ) (p : Party Item) :
    Gossip.Changes k p [] s (s.update k p) :=
  ⟨rfl, rfl, rfl, (List.append_nil _).symm, rfl, rfl, rfl, rfl⟩

theorem Gossip.Changes.post {p : Party Item} {jobs : List (GossipJob Item)}
    (h : Gossip.Changes k p jobs s s') (job : GossipJob Item) :
    Gossip.Changes k p (jobs ++ [job]) s (s'.post job) := by
  refine ⟨h.given, h.stopped, h.party, ?_, h.subscribers, h.broadcasts, h.joined, h.saves⟩
  show s'.network ++ [job] = _
  rw [h.network, List.append_assoc]

/-- A channel is stopped. -/
theorem stop_sound (h : Gossip.Sound settings s) (k : ℕ) :
    Gossip.Sound settings (s.update k { s.party k with stopped := true }) := by
  have hlocal := h.channels k
  have hs := update_changes s k { s.party k with stopped := true }
  refine h.change hs rfl List.prefix_rfl ?_ (fun _ _ => ⟨rfl, rfl⟩) (.inl rfl) nofun
  exact hlocal.calm hs rfl rfl rfl nofun hlocal.first hlocal.fresh hlocal.subscribing
    hlocal.answering

/-- A step of the network that leaves the channels as they are. -/
theorem Gossip.Sound.network (h : Gossip.Sound settings s) (hgiven : s'.given = s.given)
    (hparty : s'.party = s.party) (hlocal : ∀ k, Gossip.Local settings s' k)
    (hsubscribers : s'.subscribers.Nodup) (hheralds : s'.heralds.Sublist s.heralds)
    (hsaving : s'.saving.Sublist s.saving) : Gossip.Sound settings s' := by
  refine ⟨hlocal, hsubscribers, h.once.sublist (hheralds.map _), ?_, ?_⟩
  · intro entry hmem
    rw [hgiven, hparty]
    exact h.firsts entry (hheralds.subset hmem)
  · intro entry hmem
    rw [hparty]
    exact h.saved entry (hsaving.subset hmem)

theorem create_sound (settings : AddressSettings Item) : Gossip.Sound settings {} := by
  refine ⟨?_, List.nodup_nil, List.nodup_nil, nofun, nofun⟩
  intro k
  refine ⟨rfl, fun _ => ⟨rfl, rfl⟩, Nat.le_refl 0, ?_, nofun, fun _ => ⟨rfl, rfl⟩, nofun⟩
  exact Nat.zero_le _

end

end BitcoinNetwork.Protocols
