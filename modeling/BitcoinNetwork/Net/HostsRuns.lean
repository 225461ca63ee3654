import BitcoinNetwork.Async.Transition
import BitcoinNetwork.Net.Hosts

/-!
# Runs of the pool of addresses

What the pool says of itself is what it has, and no address is in it twice, unless a load
of the file breaks it: a load is the one step that does not look for an address before it
is pushed, and that does not store the count where it fails.
-/

namespace BitcoinNetwork.Net
open Async
open Peer (Address AddressItem Network)

namespace Hosts
variable {Endpoint : Type} {s : HostSettings Endpoint} {h : Hosts Endpoint}

/-- The number of entries of a network. -/
def tally (buffer : List AddressItem) (network : Option Network) : ℕ :=
  buffer.countP fun item => networkOf item.address = network

/-- The pool is bounded, and its counts are those of its entries, apart from that of all. -/
structure Counted (s : HostSettings Endpoint) (h : Hosts Endpoint) : Prop where
  bounded : h.buffer.length ≤ s.capacity
  counted : ∀ network, h.counts network = tally h.buffer network
  running : h.stopped = false → 0 < s.capacity

/-- The pool is bounded, no two of its entries are equal, and its counts are right. -/
structure Represented (s : HostSettings Endpoint) (h : Hosts Endpoint) : Prop where
  bounded : h.buffer.length ≤ s.capacity
  distinct : (h.buffer.map hostKey).Nodup
  counted : ∀ network, h.counts network = tally h.buffer network
  count : h.count = h.buffer.length

theorem tally_append (buffer more : List AddressItem) (network : Option Network) :
    tally (buffer ++ more) network = tally buffer network + tally more network :=
  List.countP_append

theorem tally_cons (item : AddressItem) (buffer : List AddressItem) (network : Option Network) :
    tally (item :: buffer) network =
      tally buffer network + if networkOf item.address = network then 1 else 0 := by
  unfold tally
  rw [List.countP_cons]
  simp only [decide_eq_true_eq]

theorem tally_singleton (item : AddressItem) (network : Option Network) :
    tally [item] network = if networkOf item.address = network then 1 else 0 := by
  rw [tally_cons]
  exact Nat.zero_add _

theorem increment_counts (h : Hosts Endpoint) (address : Address) (network : Option Network) :
    (h.increment address).counts network =
      h.counts network + if networkOf address = network then 1 else 0 := by
  unfold increment
  by_cases heq : network = networkOf address
  · rw [heq, if_pos rfl]
    exact Function.update_self ..
  · rw [if_neg (Ne.symm heq)]
    exact Function.update_of_ne heq ..

/-- A count of an entry that there is does not wrap. -/
theorem decrement_counts (h : Hosts Endpoint) (item : AddressItem)
    (hpos : 0 < h.counts (networkOf item.address)) (network : Option Network) :
    (h.decrement item.address).counts network + (if networkOf item.address = network then 1 else 0) =
      h.counts network := by
  unfold decrement
  by_cases heq : network = networkOf item.address
  · rw [heq, if_pos rfl]
    show Function.update h.counts (networkOf item.address)
      (sub1 (h.counts (networkOf item.address))) (networkOf item.address) + 1 = _
    rw [Function.update_self, sub1, if_neg (by omega)]
    omega
  · rw [if_neg (Ne.symm heq)]
    exact Function.update_of_ne heq ..

/-! ### Pushes -/

theorem push_buffer (h : Hosts Endpoint) (host : AddressItem) :
    (h.push s host).buffer = pushNewest s.capacity h.buffer host := by
  unfold push pushNewest increment decrement
  dsimp only
  split
  · split
    · next hnil => rw [hnil]; rfl
    · next hcons => rw [hcons]; rfl
  · rfl

theorem push_hostsCount (h : Hosts Endpoint) (host : AddressItem) :
    (h.push s host).hostsCount = h.hostsCount := by
  unfold push increment decrement
  dsimp only
  split
  · split <;> rfl
  · rfl

theorem Counted.push (hc : Counted s h) (hcapacity : 0 < s.capacity) (host : AddressItem) :
    Counted s (h.push s host) := by
  have hbuffer := push_buffer (s := s) h host
  refine ⟨?_, fun network => ?_, fun _ => hcapacity⟩
  · rw [hbuffer]
    exact length_pushNewest_le hc.bounded hcapacity host
  · rw [hbuffer]
    unfold Hosts.push pushNewest
    dsimp only
    rw [increment_counts, tally_append, tally_singleton]
    split
    · next hfull =>
      cases hcons : h.buffer with
      | nil =>
        rw [hcons, List.length_nil] at hfull
        omega
      | cons front rest =>
        have hcounted := hc.counted network
        have hfront := hc.counted (networkOf front.address)
        rw [hcons, tally_cons] at hcounted hfront
        rw [if_pos rfl] at hfront
        have hdecrement := decrement_counts h front (by omega) network
        show (h.decrement front.address).counts network + _ = tally rest network + _
        omega
    · show h.counts network + _ = _
      rw [hc.counted network]

theorem foldl_pushLine (h : Hosts Endpoint) (lines : List String) :
    lines.foldl (pushLine s) h = (lines.filterMap s.loaded).foldl (push s) h := by
  induction lines generalizing h with
  | nil => rfl
  | cons line lines ih =>
    rw [List.foldl_cons, ih]
    unfold pushLine
    cases hloaded : s.loaded line with
    | none => rw [List.filterMap_cons_none hloaded]
    | some item =>
      rw [List.filterMap_cons_some hloaded]
      rfl

/-- What a load leaves: the newest of the entries before and those that are loaded. -/
theorem foldl_push (hc : Counted s h) (hcapacity : 0 < s.capacity) (items : List AddressItem) :
    Counted s (items.foldl (push s) h) ∧
      (items.foldl (push s) h).buffer = (h.buffer ++ items).rtake s.capacity ∧
      (items.foldl (push s) h).hostsCount = h.hostsCount := by
  rw [← foldl_pushNewest hc.bounded hcapacity]
  induction items generalizing h with
  | nil => exact ⟨hc, rfl, rfl⟩
  | cons item items ih =>
    obtain ⟨hcounted, hbuffer, hcount⟩ := ih (hc.push hcapacity item)
    refine ⟨hcounted, ?_, hcount.trans (push_hostsCount h item)⟩
    rw [List.foldl_cons, hbuffer, push_buffer, List.foldl_cons]

/-! ### Steps -/

theorem tally_eq (buffer : List AddressItem) (network : Option Network) :
    tally buffer network = (buffer.map hostKey).countP fun k => networkOf k.1 = network := by
  unfold tally
  rw [List.countP_map]
  rfl

/-- Entries with the keys that there were. -/
theorem Counted.keys (hc : Counted s h) {buffer : List AddressItem}
    (hkeys : buffer.map hostKey = h.buffer.map hostKey) (count : ℕ) :
    Counted s { h with buffer := buffer, hostsCount := count } := by
  have hlength := congrArg List.length hkeys
  rw [List.length_map, List.length_map] at hlength
  refine ⟨hlength.trans_le hc.bounded, fun network => ?_, hc.running⟩
  show h.counts network = tally buffer network
  rw [tally_eq, hkeys, ← tally_eq, hc.counted]

/-- An entry is taken from among the others. -/
theorem Counted.erase (hc : Counted s h) {before after : List AddressItem} {item : AddressItem}
    (hbuffer : h.buffer = before ++ item :: after) :
    Counted s ({ h.decrement item.address with buffer := before ++ after } : Hosts Endpoint).stored := by
  have htally (network : Option Network) : h.counts network = tally (before ++ after) network +
      if networkOf item.address = network then 1 else 0 := by
    rw [hc.counted, hbuffer, tally_append, tally_cons, tally_append]
    omega
  have hpos := htally (networkOf item.address)
  rw [if_pos rfl] at hpos
  refine ⟨?_, fun network => ?_, hc.running⟩
  · have hbounded := hc.bounded
    rw [hbuffer, List.length_append, List.length_cons] at hbounded
    show (before ++ after).length ≤ s.capacity
    rw [List.length_append]
    omega
  · have hdecrement := decrement_counts h item (by omega) network
    have hnetwork := htally network
    show (h.decrement item.address).counts network = tally (before ++ after) network
    omega

theorem Represented.sublist (hr : Represented s h) {r : Hosts Endpoint} (hc : Counted s r)
    (hsublist : r.buffer.Sublist h.buffer) (hcount : r.count = r.buffer.length) :
    Represented s r :=
  ⟨hc.bounded, hr.distinct.sublist (hsublist.map hostKey), hc.counted, hcount⟩

/-- What a step leaves as it should be. -/
structure Sound (s : HostSettings Endpoint) (h : Hosts Endpoint) : Prop where
  counted : Counted s h
  represented : Represented s h

theorem create_sound : Sound s {} :=
  ⟨⟨Nat.zero_le _, fun _ => rfl, nofun⟩, ⟨Nat.zero_le _, List.nodup_nil, fun _ => rfl, rfl⟩⟩

theorem find?_some {host : AddressItem} {index : ℕ} (hfind : h.find? host = some index) :
    (h.buffer.set index host).map hostKey = h.buffer.map hostKey := by
  obtain ⟨hlt, hkey, _⟩ := List.findIdx?_eq_some_iff_getElem.mp hfind
  have heq : (h.buffer.map hostKey)[index]? = some (hostKey host) := by
    rw [List.getElem?_map, List.getElem?_eq_getElem hlt]
    exact congrArg some (of_decide_eq_true hkey)
  obtain ⟨_, hget⟩ := List.getElem?_eq_some_iff.mp heq
  rw [List.map_set, ← hget, List.set_getElem_self]

theorem find?_none_iff (host : AddressItem) :
    h.find? host = none ↔ hostKey host ∉ h.buffer.map hostKey := by
  unfold find?
  rw [List.findIdx?_eq_none_iff]
  simp only [decide_eq_false_iff_not, List.mem_map, not_exists, not_and]

/-- An address that the pool does not have is pushed, and the count stored. -/
theorem Sound.push (hs : Sound s h) (hcapacity : 0 < s.capacity) {host : AddressItem}
    (hnew : hostKey host ∉ h.buffer.map hostKey) : Sound s (h.push s host).stored := by
  obtain ⟨hbounded, hcounted, hrunning⟩ := hs.counted.push hcapacity host
  refine ⟨⟨hbounded, hcounted, hrunning⟩, ⟨hbounded, ?_, hcounted, rfl⟩⟩
  show ((h.push s host).buffer.map hostKey).Nodup
  rw [push_buffer]
  unfold pushNewest
  rw [List.map_append, List.map_singleton]
  have hdistinct := hs.represented.distinct
  have hall := List.nodup_append.mpr ⟨hdistinct, List.nodup_singleton (hostKey host),
    fun k hk k' hk' heq => hnew (List.mem_singleton.mp hk' ▸ heq ▸ hk)⟩
  split
  · refine hall.sublist (List.Sublist.append_right ?_ _)
    exact (List.tail_sublist h.buffer).map hostKey
  · exact hall

theorem restore_counted (hc : Counted s h) (host : AddressItem) :
    Counted s (h.restore s host).2 := by
  unfold restore
  split
  · exact hc
  · next hrunning =>
    cases hfind : h.find? host with
    | some index => exact hc.keys (find?_some hfind) h.hostsCount
    | none =>
      obtain ⟨hbounded, hcounted, hpositive⟩ :=
        hc.push (hc.running (Bool.eq_false_iff.mpr hrunning)) host
      exact ⟨hbounded, hcounted, hpositive⟩

theorem restore_sound (hs : Sound s h) (host : AddressItem) : Sound s (h.restore s host).2 := by
  refine ⟨restore_counted hs.counted host, ?_⟩
  unfold restore
  split
  · exact hs.represented
  · next hrunning =>
    cases hfind : h.find? host with
    | some index =>
      have hkeys := find?_some hfind
      obtain ⟨hbounded, hcounted, _⟩ := hs.counted.keys hkeys h.hostsCount
      refine ⟨hbounded, ?_, hcounted, ?_⟩
      · show ((h.buffer.set index host).map hostKey).Nodup
        rw [hkeys]
        exact hs.represented.distinct
      · show h.hostsCount = (h.buffer.set index host).length
        rw [List.length_set]
        exact hs.represented.count
    | none =>
      have hnew := (find?_none_iff host).mp hfind
      exact (hs.push (hs.counted.running (Bool.eq_false_iff.mpr hrunning)) hnew).represented

theorem stop_counted (hc : Counted s h) (good : Bool) (ending : Ending) :
    Counted s (h.stop s good ending).2 := by
  have hstopped : Counted s { h with stopped := true } := ⟨hc.bounded, hc.counted, nofun⟩
  unfold stop
  split
  · exact hc
  dsimp only
  split
  · exact hstopped
  split
  · exact hstopped
  cases ending with
  | done => exact ⟨Nat.zero_le _, fun _ => rfl, nofun⟩
  | bad => exact hstopped
  | threw => exact hstopped

theorem stop_sound (hs : Sound s h) (good : Bool) (ending : Ending) :
    Sound s (h.stop s good ending).2 := by
  refine ⟨stop_counted hs.counted good ending, ?_⟩
  have hr := hs.represented
  have hstopped : Represented s { h with stopped := true } :=
    ⟨hr.bounded, hr.distinct, hr.counted, hr.count⟩
  unfold stop
  split
  · exact hr
  dsimp only
  split
  · exact hstopped
  split
  · exact hstopped
  cases ending with
  | done => exact ⟨Nat.zero_le _, List.nodup_nil, fun _ => rfl, rfl⟩
  | bad => exact hstopped
  | threw => exact hstopped

/-! ### Loads -/

/-- The pool is started, and there is a file to load. -/
def Loads (s : HostSettings Endpoint) (h : Hosts Endpoint) (file : HostsFile) : Prop :=
  s.capacity ≠ 0 ∧ h.stopped = true ∧ file.good = true

/-- The newest of what the pool has and the file adds have no address twice, and a load that
fails adds nothing, or to a full pool. -/
def Clean (s : HostSettings Endpoint) (h : Hosts Endpoint) (file : HostsFile) : Prop :=
  Loads s h file →
    (((h.buffer ++ file.lines.filterMap s.loaded).rtake s.capacity).map hostKey).Nodup ∧
    (file.ending = .done ∨ file.lines.filterMap s.loaded = [] ∨ h.buffer.length = s.capacity)

/-- What a start leaves: a pool that is as it was but for the flag, or a load. -/
theorem start_spec (hc : Counted s h) (file : HostsFile) :
    Counted s (h.start s file).2 ∧
      (¬Loads s h file → (h.start s file).2.buffer = h.buffer ∧ (h.start s file).2.count = h.count) ∧
      (Loads s h file →
        (h.start s file).2.buffer =
          (h.buffer ++ file.lines.filterMap s.loaded).rtake s.capacity ∧
        (h.start s file).2.count =
          if file.ending = .done then (h.start s file).2.buffer.length else h.count) := by
  unfold start
  split
  · next hzero => exact ⟨hc, fun _ => ⟨rfl, rfl⟩, fun hloads => absurd hzero hloads.1⟩
  split
  · next hrunning =>
    exact ⟨hc, fun _ => ⟨rfl, rfl⟩, fun hloads => absurd hloads.2.1 hrunning⟩
  next hcapacity hstopped =>
  rw [not_not] at hstopped
  have hpositive := Nat.pos_of_ne_zero hcapacity
  have hstarted : Counted s { h with stopped := false } := ⟨hc.bounded, hc.counted, fun _ => hpositive⟩
  dsimp only
  split
  · next hgood => exact ⟨hstarted, fun _ => ⟨rfl, rfl⟩, fun hloads => absurd hloads.2.2 hgood⟩
  next hgood =>
  rw [not_not] at hgood
  have hloads : Loads s h file := ⟨hcapacity, hstopped, hgood⟩
  obtain ⟨hcounted, hbuffer, hcount⟩ :=
    foldl_push hstarted hpositive (file.lines.filterMap s.loaded)
  rw [foldl_pushLine]
  refine ⟨?_, fun hn => absurd hloads hn, fun _ => ?_⟩
  · cases file.ending with
    | done => exact ⟨hcounted.bounded, hcounted.counted, hcounted.running⟩
    | bad => exact hcounted
    | threw => exact hcounted
  · cases file.ending with
    | done => exact ⟨hbuffer, rfl⟩
    | bad => exact ⟨hbuffer, hcount⟩
    | threw => exact ⟨hbuffer, hcount⟩

/-- A start leaves the pool as it should be exactly if its load is clean. -/
theorem start_represented_iff (hs : Sound s h) (file : HostsFile) :
    Represented s (h.start s file).2 ↔ Clean s h file := by
  obtain ⟨hcounted, hkept, hloaded⟩ := start_spec hs.counted file
  by_cases hloads : Loads s h file
  · obtain ⟨hbuffer, hcount⟩ := hloaded hloads
    have hlength := congrArg List.length hbuffer
    rw [length_rtake, List.length_append] at hlength
    have hbounded := hs.counted.bounded
    have hbefore := hs.represented.count
    have hnil : file.lines.filterMap s.loaded = [] ↔
        (file.lines.filterMap s.loaded).length = 0 := List.length_eq_zero_iff.symm
    constructor
    · intro hr _
      have hafter := hr.count
      refine ⟨hbuffer ▸ hr.distinct, ?_⟩
      by_cases hdone : file.ending = .done
      · exact .inl hdone
      · rw [hcount, if_neg hdone] at hafter
        right
        rw [hnil]
        omega
    · intro hclean
      obtain ⟨hdistinct, hending⟩ := hclean hloads
      refine ⟨hcounted.bounded, hbuffer ▸ hdistinct, hcounted.counted, ?_⟩
      rw [hcount]
      split
      · rfl
      · next hdone =>
        rw [hnil] at hending
        have hfull := hending.resolve_left hdone
        omega
  · obtain ⟨hbuffer, hcount⟩ := hkept hloads
    refine iff_of_true ?_ fun h => absurd h hloads
    exact hs.represented.sublist hcounted (hbuffer ▸ List.Sublist.refl _)
      (by rw [hcount, hbuffer]; exact hs.represented.count)

section Steps
variable [DecidableEq Endpoint]

/-! ### Takes and saves -/

theorem takeFrom_spec {family : Family} {retained rest : List AddressItem} (hc : Counted s h)
    (hbuffer : h.buffer = retained ++ rest) :
    Counted s (h.takeFrom s family retained rest).2.2 ∧
      (h.takeFrom s family retained rest).2.2.buffer.Sublist h.buffer ∧
      (h.count = h.buffer.length → (h.takeFrom s family retained rest).2.2.count =
        (h.takeFrom s family retained rest).2.2.buffer.length) := by
  induction rest generalizing h retained with
  | nil => exact ⟨hc, List.Sublist.refl _, id⟩
  | cons item rest ih =>
    unfold takeFrom
    split
    · refine ih hc ?_
      rw [hbuffer, List.append_assoc]
      rfl
    · have herase := hc.erase hbuffer
      have hsublist : (retained ++ rest).Sublist h.buffer := by
        rw [hbuffer]
        exact (List.sublist_cons_self item rest).append_left retained
      dsimp only
      split
      · exact ⟨herase, hsublist, fun _ => rfl⟩
      · obtain ⟨hcounted, hmore, hcount⟩ := ih herase rfl
        exact ⟨hcounted, hmore.trans hsublist, fun _ => hcount rfl⟩

theorem take_counted (hc : Counted s h) (family : Family) : Counted s (h.take s family).2.2 := by
  unfold take
  split
  · exact hc
  · exact (@takeFrom_spec _ _ _ _ family [] _ hc rfl).1

theorem take_sound (hs : Sound s h) (family : Family) : Sound s (h.take s family).2.2 := by
  refine ⟨take_counted hs.counted family, ?_⟩
  unfold take
  split
  · exact hs.represented
  · obtain ⟨hcounted, hsublist, hcount⟩ := @takeFrom_spec _ _ _ _ family [] _ hs.counted rfl
    exact hs.represented.sublist hcounted hsublist (hcount hs.represented.count)

theorem saveOne_counted (hc : Counted s h) (hcapacity : 0 < s.capacity) (host : AddressItem) :
    Counted s (h.saveOne s host) := by
  unfold saveOne
  split
  · obtain ⟨hbounded, hcounted, hrunning⟩ := hc.push hcapacity host
    exact ⟨hbounded, hcounted, hrunning⟩
  · exact hc

theorem saveOne_sound (hs : Sound s h) (hcapacity : 0 < s.capacity) (host : AddressItem) :
    Sound s (h.saveOne s host) := by
  unfold saveOne
  split
  · next haccepted =>
    refine hs.push hcapacity ((find?_none_iff host).mp ?_)
    have hpooled := haccepted.2.2
    unfold isPooled at hpooled
    rwa [Bool.not_eq_true, Option.isSome_eq_false_iff, Option.isNone_iff_eq_none] at hpooled
  · exact hs

theorem save_counted (hc : Counted s h) (addresses : List AddressItem) :
    Counted s (h.save s addresses).2.2 := by
  unfold save
  split
  · exact hc
  split
  · exact hc
  · next hrunning _ =>
    have hcapacity := hc.running (Bool.eq_false_iff.mpr hrunning)
    exact @after_invariant _ _ (saveOne s) (Counted s)
      (fun _ host hh => saveOne_counted hh hcapacity host) _ hc addresses

theorem save_sound (hs : Sound s h) (addresses : List AddressItem) :
    Sound s (h.save s addresses).2.2 := by
  unfold save
  split
  · exact hs
  split
  · exact hs
  · next hrunning _ =>
    have hcapacity := hs.counted.running (Bool.eq_false_iff.mpr hrunning)
    exact @after_invariant _ _ (saveOne s) (Sound s)
      (fun _ host hh => saveOne_sound hh hcapacity host) _ hs addresses

/-! ### Runs -/

/-- A load is clean. -/
def Op.Kept (s : HostSettings Endpoint) (h : Hosts Endpoint) : Op Endpoint → Prop
  | .start file => Clean s h file
  | _ => True

theorem step_counted (hc : Counted s h) (op : Op Endpoint) : Counted s (h.step s op) := by
  cases op with
  | start file => exact (start_spec hc file).1
  | stop good ending => exact stop_counted hc good ending
  | take family => exact take_counted hc family
  | restore host => exact restore_counted hc host
  | fetch divide index => exact hc
  | save addresses => exact save_counted hc addresses
  | reserve host =>
    unfold step reserve
    dsimp only
    split <;> exact ⟨hc.bounded, hc.counted, hc.running⟩
  | unreserve host =>
    unfold step unreserve
    dsimp only
    split <;> exact ⟨hc.bounded, hc.counted, hc.running⟩

theorem step_sound_iff (hs : Sound s h) (op : Op Endpoint) :
    Represented s (h.step s op) ↔ op.Kept s h := by
  have hr := hs.represented
  have hkept : Represented s (h.step s op) → (Represented s (h.step s op) ↔ True) := fun h =>
    iff_of_true h trivial
  cases op with
  | start file => exact start_represented_iff hs file
  | stop good ending => exact hkept (stop_sound hs good ending).represented
  | take family => exact hkept (take_sound hs family).represented
  | restore host => exact hkept (restore_sound hs host).represented
  | fetch divide index => exact hkept hr
  | save addresses => exact hkept (save_sound hs addresses).represented
  | reserve host =>
    refine hkept ?_
    unfold step reserve
    dsimp only
    split <;> exact ⟨hr.bounded, hr.distinct, hr.counted, hr.count⟩
  | unreserve host =>
    refine hkept ?_
    unfold step unreserve
    dsimp only
    split <;> exact ⟨hr.bounded, hr.distinct, hr.counted, hr.count⟩

/-- All states of a run are as they should be exactly if all its loads are clean. -/
theorem pool_represented_iff (s : HostSettings Endpoint) (ops : List (Op Endpoint)) :
    (∀ n ≤ ops.length, Represented s (after (step s) {} (ops.take n))) ↔
      Along (step s) (fun h op => op.Kept s h) {} ops :=
  along_iff (I := Sound s)
    (fun _ op hs hk => ⟨step_counted hs.counted op, (step_sound_iff hs op).mpr hk⟩)
    (fun _ hs => hs.represented) (fun _ op hs hr => (step_sound_iff hs op).mp hr) create_sound ops

end Steps

/-- An address, and settings that exclude none. -/
def sampleAddress : AddressItem :=
  ⟨0, 0, .of .ipv4 (Peer.mappedPrefix ++ [1, 2, 3, 4]), 8333⟩

def sampleSettings (capacity : ℕ) : HostSettings String where
  capacity := capacity
  required := 0
  proxied := false
  gossipIpv4 := true
  gossipIpv6 := true
  gossipTor := true
  gossipI2p := true
  invalidServices := 0
  peered _ := false
  blacklisted _ := false
  whitelisted _ := true
  parse line := if line = "1.2.3.4:8333" then some sampleAddress else none
  endpoint item := "1.2.3.4:" ++ toString item.port

/-- A file that has an address twice. -/
def repeatedFile : HostsFile := ⟨true, ["1.2.3.4:8333", "1.2.3.4:8333"], .done⟩

theorem not_pool_represented : ¬ ∀ (s : HostSettings String) (ops : List (Op String)),
    ∀ n ≤ ops.length, Represented s (after (step s) {} (ops.take n)) := fun h =>
  absurd (h (sampleSettings 10) [.start repeatedFile] 1 (Nat.le_refl 1)).distinct (by decide)

end Hosts
end BitcoinNetwork.Net
