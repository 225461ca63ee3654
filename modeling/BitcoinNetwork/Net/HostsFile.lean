import BitcoinNetwork.Config.AddressSystem
import BitcoinNetwork.Net.HostsSaves

/-!
# The file of the pool (hosts::start, hosts::stop)

A stop writes a line for each address of the pool, and a start reads it again. The pool is
what it was unless it has a cjdns address: such an address comes back as one of version 6.
-/

namespace BitcoinNetwork.Net
open Config (Bytes Text System Poolable)
open Peer (Address AddressItem Network)
open Async

/-! ### The text of the file -/

/-- The lines of a text, as `std::getline` takes them. -/
def textLines (text : Text) : List Text :=
  let pieces := text.splitOn '\n'
  if pieces.getLast? = some [] then pieces.dropLast else pieces

/-- The text that a stop writes, each line of which is ended. -/
def fileText (sys : System) (buffer : List AddressItem) : Text :=
  buffer.flatMap fun item => sys.print item ++ ['\n']

/-- The file that a stop leaves, which it removes for an empty pool. -/
def savedFile (sys : System) (buffer : List AddressItem) : HostsFile :=
  ⟨!buffer.isEmpty, (textLines (fileText sys buffer)).map String.ofList, .done⟩

theorem flatMap_lines (lines : List Text) :
    lines.flatMap (· ++ ['\n']) = ['\n'].intercalate (lines ++ [[]]) := by
  induction lines with
  | nil => rfl
  | cons line lines ih =>
    rw [List.flatMap_cons, ih, List.cons_append, List.intercalate_cons_of_ne_nil]
    exact List.append_ne_nil_of_right_ne_nil _ (List.cons_ne_nil _ _)

theorem textLines_flatMap {lines : List Text} (h : ∀ line ∈ lines, '\n' ∉ line) :
    textLines (lines.flatMap (· ++ ['\n'])) = lines := by
  have hpieces : (lines.flatMap (· ++ ['\n'])).splitOn '\n' = lines ++ [[]] := by
    rw [flatMap_lines]
    refine List.splitOn_intercalate '\n' (fun line hline => ?_) ?_
    · rcases List.mem_append.mp hline with hline | hline
      · exact h line hline
      · rw [List.mem_singleton.mp hline]
        exact List.not_mem_nil
    · exact List.append_ne_nil_of_right_ne_nil _ (List.cons_ne_nil _ _)
  unfold textLines
  rw [hpieces]
  dsimp only
  rw [if_pos (List.getLast?_concat ..), List.dropLast_concat]

theorem savedFile_lines {sys : System} (hinverse : sys.Inverse) (buffer : List AddressItem) :
    (savedFile sys buffer).lines = buffer.map fun item => String.ofList (sys.print item) := by
  have htext : fileText sys buffer = (buffer.map sys.print).flatMap (· ++ ['\n']) := by
    rw [List.flatMap_map]
    rfl
  show (textLines (fileText sys buffer)).map String.ofList = _
  rw [htext, textLines_flatMap, List.map_map]
  · rfl
  · intro line hline hend
    obtain ⟨item, _, rfl⟩ := List.mem_map.mp hline
    exact absurd (hinverse.print_chars item '\n' hend) (by decide)

/-! ### Loads -/

namespace HostSettings
variable {Endpoint : Type}

/-- The settings, with lines read as `config::address` is. -/
def reading (s : HostSettings Endpoint) (sys : System) : HostSettings Endpoint :=
  { s with parse := fun line => sys.read line.toList }

/-- An address passes the filters of a load. -/
structure Passes (s : HostSettings Endpoint) (item : AddressItem) : Prop where
  specified : isSpecified item = true
  gossiped : s.gossiped item = true
  sufficient : s.insufficient item = false
  supported : s.unsupported item = false
  unpeered : s.peered item = false
  unlisted : s.blacklisted item = false
  listed : s.whitelisted item = true

variable {s : HostSettings Endpoint} {line : String} {item : AddressItem}

theorem loaded_of_passes (hparse : s.parse line = some item) (h : s.Passes item) :
    s.loaded line = some item := by
  obtain ⟨hspecified, hgossiped, hsufficient, hsupported, hunpeered, hunlisted, hlisted⟩ := h
  unfold loaded
  rw [hparse]
  simp only [hspecified, hgossiped, hsufficient, hsupported, hunpeered, hunlisted, hlisted,
    not_true_eq_false, Bool.false_eq_true, if_false]

theorem parse_of_loaded (h : s.loaded line = some item) : s.parse line = some item := by
  unfold loaded at h
  grind

end HostSettings

namespace Hosts
variable {Endpoint : Type} {s : HostSettings Endpoint} {h : Hosts Endpoint}

/-- The pool of a start on the file that a stop wrote. -/
def restarted (s : HostSettings Endpoint) (sys : System) (h : Hosts Endpoint) : Hosts Endpoint :=
  ((h.stop s true .done).2.start s (savedFile sys h.buffer)).2

/-- The same pool in the same order, with the same counts. -/
def Restored (h r : Hosts Endpoint) : Prop := r.buffer = h.buffer ∧ r.counts = h.counts

theorem restored_of_buffer (hc : Counted s h) {r : Hosts Endpoint} (hr : Counted s r)
    (hbuffer : r.buffer = h.buffer) : Restored h r := by
  refine ⟨hbuffer, funext fun network => ?_⟩
  rw [hr.counted, hc.counted, hbuffer]

theorem stop_done (hcapacity : 0 < s.capacity) (hrunning : h.stopped = false) :
    (h.stop s true .done).2.buffer = [] ∧ (h.stop s true .done).2.stopped = true := by
  unfold stop
  rw [if_neg]
  · dsimp only
    by_cases hempty : h.buffer = []
    · rw [if_pos hempty]
      exact ⟨hempty, rfl⟩
    · rw [if_neg hempty, if_neg (not_not.mpr rfl)]
      exact ⟨rfl, rfl⟩
  · rw [hrunning]
    rintro (hzero | hstopped)
    · omega
    · exact nomatch hstopped

/-- A stop leaves none of the pool, and a start loads what is in the file. -/
theorem restarted_spec (hc : Counted s h) (hrunning : h.stopped = false) (sys : System) :
    Counted s (restarted s sys h) ∧ (restarted s sys h).buffer =
      ((savedFile sys h.buffer).lines.filterMap s.loaded).rtake s.capacity := by
  have hcapacity := hc.running hrunning
  obtain ⟨hbuffer, hstopped⟩ := stop_done hcapacity hrunning
  obtain ⟨hcounted, hkept, hloaded⟩ :=
    start_spec (stop_counted hc true .done) (savedFile sys h.buffer)
  refine ⟨hcounted, ?_⟩
  cases hempty : h.buffer with
  | nil =>
    have hnot : ¬Loads s (h.stop s true .done).2 (savedFile sys h.buffer) := by
      rintro ⟨_, _, hgood⟩
      rw [hempty] at hgood
      exact nomatch hgood
    refine (hkept hnot).1.trans (hbuffer.trans ?_)
    show [] = List.rtake [] s.capacity
    rw [List.rtake_nil]
  | cons first rest =>
    have hloads : Loads s (h.stop s true .done).2 (savedFile sys h.buffer) := by
      refine ⟨Nat.ne_of_gt hcapacity, hstopped, ?_⟩
      rw [hempty]
      rfl
    have hstarted := (hloaded hloads).1
    rw [hbuffer, List.nil_append, hempty] at hstarted
    rw [← hempty] at hstarted ⊢
    exact hstarted

/-- The entries that a start loads, of a pool whose addresses are read as they are printed. -/
theorem savedFile_loaded {sys : System} (hinverse : sys.Inverse) {buffer : List AddressItem}
    (hread : ∀ item ∈ buffer, sys.read (sys.print item) = some item)
    (hpasses : ∀ item ∈ buffer, s.Passes item) :
    (savedFile sys buffer).lines.filterMap (s.reading sys).loaded = buffer := by
  rw [savedFile_lines hinverse, List.filterMap_map]
  have hloaded : ∀ item ∈ buffer,
      ((s.reading sys).loaded ∘ fun item => String.ofList (sys.print item)) item = some item := by
    intro item hitem
    refine HostSettings.loaded_of_passes ?_ ?_
    · show sys.read (String.ofList (sys.print item)).toList = some item
      rw [String.toList_ofList]
      exact hread item hitem
    · obtain ⟨hspecified, hgossiped, hsufficient, hsupported, hunpeered, hunlisted, hlisted⟩ :=
        hpasses item hitem
      exact ⟨hspecified, hgossiped, hsufficient, hsupported, hunpeered, hunlisted, hlisted⟩
  rw [List.filterMap_congr hloaded, List.filterMap_some]

/-- What is loaded of a file of lines is not of cjdns. -/
theorem loaded_network {sys : System} {line : String} {item : AddressItem}
    (h : (s.reading sys).loaded line = some item) : networkOf item.address ≠ some .cjdns :=
  System.read_network (HostSettings.parse_of_loaded h)

variable [DecidableEq Endpoint]

/-- Addresses of a pool are read as they are printed, and a pool is restored from its file,
exactly if there is none of cjdns. -/
theorem file_preserves_iff (sys : System) (hinverse : sys.Inverse) :
    (∀ item : AddressItem, Poolable item.address →
      (sys.read (sys.print item) = some item ↔ networkOf item.address ≠ some .cjdns)) ∧
    ∀ (settings : HostSettings Endpoint) (ops : List (Op Endpoint)),
      let s := settings.reading sys
      let h := after (step s) {} ops
      h.stopped = false → (∀ item ∈ h.buffer, Poolable item.address ∧ s.Passes item) →
        (Restored h (restarted s sys h) ↔
          ∀ item ∈ h.buffer, networkOf item.address ≠ some .cjdns) := by
  refine ⟨hinverse.read_print_iff, ?_⟩
  intro settings ops
  dsimp only
  intro hrunning hitems
  have hc := counted_of_run (settings.reading sys) ops
  generalize after (step (settings.reading sys)) {} ops = h at hrunning hitems hc ⊢
  obtain ⟨hcounted, hbuffer⟩ := restarted_spec hc hrunning sys
  constructor
  · rintro ⟨hsame, _⟩ item hitem
    rw [← hsame, hbuffer] at hitem
    obtain ⟨line, _, hline⟩ := List.mem_filterMap.mp (List.mem_of_mem_drop hitem)
    exact loaded_network hline
  · intro hnetworks
    have hread : ∀ item ∈ h.buffer, sys.read (sys.print item) = some item := fun item hitem =>
      (hinverse.read_print_iff item (hitems item hitem).1).mpr (hnetworks item hitem)
    have hloaded := savedFile_loaded hinverse hread fun item hitem => (hitems item hitem).2
    refine restored_of_buffer hc hcounted ?_
    rw [hbuffer]
    refine (congrArg (List.rtake · _) hloaded).trans ?_
    exact rtake_of_le hc.bounded

/-- An address of version 6, one of i2p without a port, and one of cjdns. -/
def ipv6Address : AddressItem :=
  ⟨1700000000, 9, .of .ipv6 [0x2a, 0x01, 0x11, 0x22, 0x33, 0x44, 0x55, 0x66, 0x77, 0x88, 0x99, 0xaa,
    0xbb, 0xcc, 0xdd, 0xee], 8333⟩

def i2pAddress : AddressItem := ⟨1700000000, 9, .of .i2p (List.replicate 32 0x5a), 0⟩

def cjdnsAddress : AddressItem :=
  ⟨1700000000, 9, .of .cjdns [0xfc, 0x11, 0x22, 0x33, 0x44, 0x55, 0x66, 0x77, 0x88, 0x99, 0xaa, 0xbb,
    0xcc, 0xdd, 0xee, 0xff], 8333⟩

/-- A pool that starts without a file, and is told of addresses. -/
def told (addresses : List AddressItem) : List (Op String) :=
  [.start ⟨false, [], .done⟩, .save addresses]

theorem file_preserves_named :
    let s := (sampleSettings 10).reading Config.plainSystem
    let h := after (step s) {} (told [ipv6Address, i2pAddress])
    Restored h (restarted s Config.plainSystem h) ↔
      ∀ item ∈ h.buffer, networkOf item.address ≠ some .cjdns := by
  refine (file_preserves_iff Config.plainSystem Config.plainSystem_inverse).2 (sampleSettings 10)
    (told [ipv6Address, i2pAddress]) rfl fun item hitem => ?_
  rcases List.mem_pair.mp (show item ∈ [ipv6Address, i2pAddress] from hitem) with rfl | rfl
  · refine ⟨.ipv6 _ rfl ⟨0x2a, by decide, by decide⟩ rfl rfl, ?_⟩
    exact ⟨rfl, rfl, rfl, rfl, rfl, rfl, rfl⟩
  · refine ⟨.i2p _ rfl, ?_⟩
    exact ⟨rfl, rfl, rfl, rfl, rfl, rfl, rfl⟩

/-- A cjdns address comes back as one of version 6. -/
theorem not_file_preserves : ¬ (∀ sys : System, sys.Inverse →
    (∀ item : AddressItem, Poolable item.address → sys.read (sys.print item) = some item) ∧
    ∀ (settings : HostSettings String) (ops : List (Op String)),
      let s := settings.reading sys
      let h := after (step s) {} ops
      h.stopped = false → (∀ item ∈ h.buffer, Poolable item.address ∧ s.Passes item) →
        Restored h (restarted s sys h)) := by
  intro hall
  have hread := (hall Config.plainSystem Config.plainSystem_inverse).1 cjdnsAddress (.cjdns _ rfl rfl)
  rw [Config.plainSystem_inverse.read_print cjdnsAddress (.cjdns _ rfl rfl)] at hread
  exact absurd hread (by decide)

end Hosts
end BitcoinNetwork.Net
