import BitcoinNetwork.Loops.While
import BitcoinNetwork.Peer.Chain

/-!
# Block locator heights (messages/peer/detail/get_blocks.cpp)

The heights of a locator, from the top block down to the first, and the number of them,
each by a loop of its own over 64-bit numbers.
-/

namespace BitcoinNetwork.Peer.GetBlocks

def flooredSubtract (left right : UInt64) : UInt64 := if right < left then left - right else 0

/-! ### The loops -/

/-- The variables of `locator_size`. -/
structure SizeLoop where
  size : UInt64
  step : UInt64
  height : UInt64
  deriving DecidableEq

namespace SizeLoop

def start (top : UInt64) : SizeLoop := { size := 0, step := 1, height := top }

def holds (loop : SizeLoop) : Bool := 0 < loop.height

def round (loop : SizeLoop) : SizeLoop :=
  let size := loop.size + 1
  let step := if 9 < size then loop.step <<< 1 else loop.step
  { size, step, height := flooredSubtract loop.height step }

/-- The numbers of a round are not wrapped. -/
structure Exact (loop : SizeLoop) : Prop where
  size : loop.round.size.toNat = loop.size.toNat + 1
  step : loop.round.step.toNat =
    if 9 < loop.size.toNat + 1 then 2 * loop.step.toNat else loop.step.toNat
  height : loop.round.height.toNat = loop.height.toNat - loop.round.step.toNat

end SizeLoop

/-- The variables of `heights`. -/
structure HeightsLoop where
  heights : List UInt64
  step : UInt64
  height : UInt64
  deriving DecidableEq

namespace HeightsLoop

def start (top : UInt64) : HeightsLoop := { heights := [], step := 1, height := top }

def holds (loop : HeightsLoop) : Bool := 0 < loop.height

/-- Ten heights are behind one another before the steps grow. -/
def round (loop : HeightsLoop) : HeightsLoop :=
  let heights := loop.heights ++ [loop.height]
  let step := if 9 < heights.length then loop.step <<< 1 else loop.step
  { heights, step, height := flooredSubtract loop.height step }

/-- The numbers of a round are not wrapped. -/
structure Exact (loop : HeightsLoop) : Prop where
  step : loop.round.step.toNat =
    if 9 < loop.heights.length + 1 then 2 * loop.step.toNat else loop.step.toNat
  height : loop.round.height.toNat = loop.height.toNat - loop.round.step.toNat

end HeightsLoop

/-- The number of heights, if the loop is left within so many rounds. -/
def locatorSize (fuel : ℕ) (top : UInt64) : Option UInt64 :=
  (While.run SizeLoop.holds SizeLoop.round fuel (.start top)).map fun loop => loop.size + 1

/-- The heights, of which the first block is the last. -/
def heights (fuel : ℕ) (top : UInt64) : Option (List UInt64) :=
  (While.run HeightsLoop.holds HeightsLoop.round fuel (.start top)).map fun loop => loop.heights ++ [0]

/-- The heights go down from the top to the first block, in ten single steps and then in
steps that double. -/
structure Locates (top : UInt64) (heights : List UInt64) : Prop where
  first : heights.head? = some top
  last : heights.getLast? = some 0
  decreases : heights.Pairwise (· > ·)
  consecutive : ∀ i (_ : i + 1 < heights.length), i < 9 →
    heights[i].toNat = heights[i + 1].toNat + 1
  doubles : ∀ i (_ : i + 3 < heights.length), 8 ≤ i →
    heights[i + 1].toNat - heights[i + 2].toNat = 2 * (heights[i].toNat - heights[i + 1].toNat)
  within : ∀ i (_ : i + 1 < heights.length),
    heights[i + 1].toNat = heights[i].toNat - 2 ^ (i - 8)

/-! ### The heights -/

/-- How far a height is below the top. -/
def offset (i : ℕ) : ℕ := if i ≤ 8 then i else 7 + 2 ^ (i - 8)

theorem offset_succ (i : ℕ) : offset (i + 1) = offset i + 2 ^ (i - 8) := by
  unfold offset
  split_ifs with hnext hi
  · rw [Nat.sub_eq_zero_of_le hi, Nat.pow_zero]
  · omega
  · obtain rfl : i = 8 := by omega
    rfl
  · have hpow : 2 ^ (i + 1 - 8) = 2 * 2 ^ (i - 8) := by
      rw [Nat.sub_add_comm (by omega), Nat.pow_succ']
    omega

theorem offset_lt {i j : ℕ} (h : i < j) : offset i < offset j := by
  have hpos (i : ℕ) : 0 < 2 ^ (i - 8) := Nat.two_pow_pos _
  exact strictMono_nat_of_lt_succ (fun i => by rw [offset_succ]; exact Nat.lt_add_of_pos_right (hpos i)) h

/-- No more heights fit in 64 bits. -/
theorem lt_of_offset {i : ℕ} (h : offset i < 2 ^ 64) : i < 72 := by
  by_contra hlarge
  have hpow : 2 ^ 64 ≤ 2 ^ (i - 8) := Nat.pow_le_pow_right (by decide) (by omega)
  unfold offset at h
  split_ifs at h
  · omega
  · omega

def heightAt (top : UInt64) (i : ℕ) : UInt64 := .ofNat (top.toNat - offset i)

theorem heightAt_toNat (top : UInt64) (i : ℕ) : (heightAt top i).toNat = top.toNat - offset i := by
  have htop := top.toNat_lt
  exact UInt64.toNat_ofNat_of_lt' (by change _ < 2 ^ 64; omega)

theorem flooredSubtract_toNat (left right : UInt64) :
    (flooredSubtract left right).toNat = left.toNat - right.toNat := by
  unfold flooredSubtract
  split_ifs with h
  · exact UInt64.toNat_sub_of_le _ _ (UInt64.le_of_lt h)
  · rw [UInt64.not_lt, UInt64.le_iff_toNat_le] at h
    rw [Nat.sub_eq_zero_of_le h]
    rfl

theorem doubled_toNat {step : UInt64} {n : ℕ} (h : step.toNat = 2 ^ n) (hn : n < 63) :
    (step <<< 1).toNat = 2 * step.toNat := by
  have hpow : 2 ^ (n + 1) ≤ 2 ^ 63 := Nat.pow_le_pow_right (by decide) hn
  rw [UInt64.toNat_shiftLeft, h, Nat.shiftLeft_eq]
  change (2 ^ n * 2 ^ 1) % 2 ^ 64 = _
  rw [Nat.pow_one, Nat.mul_comm, ← Nat.pow_succ']
  exact Nat.mod_eq_of_lt (by omega)

/-! ### Rounds -/

/-- The variables once so many heights are listed. -/
structure Inv (top : UInt64) (loop : HeightsLoop) : Prop where
  heights : loop.heights = (List.range loop.heights.length).map (heightAt top)
  above : ∀ i < loop.heights.length, offset i < top.toNat
  step : loop.step.toNat = 2 ^ (loop.heights.length - 9)
  height : loop.height = heightAt top loop.heights.length

variable {top : UInt64}

theorem inv_start (top : UInt64) : Inv top (.start top) where
  heights := rfl
  above := nofun
  step := rfl
  height := UInt64.ofNat_toNat.symm

theorem Inv.above_of_holds {loop : HeightsLoop} (h : Inv top loop) (hholds : loop.holds = true) :
    offset loop.heights.length < top.toNat := by
  have hpos := UInt64.lt_iff_toNat_lt.mp (of_decide_eq_true hholds)
  rw [h.height, heightAt_toNat] at hpos
  exact Nat.lt_of_sub_pos hpos

theorem Inv.length_lt {loop : HeightsLoop} (h : Inv top loop) (hholds : loop.holds = true) :
    loop.heights.length < 72 :=
  lt_of_offset ((h.above_of_holds hholds).trans top.toNat_lt)

theorem Inv.exact {loop : HeightsLoop} (h : Inv top loop) (hholds : loop.holds = true) :
    loop.Exact where
  step := by
    have hlength := h.length_lt hholds
    unfold HeightsLoop.round
    simp only [List.length_append, List.length_singleton]
    split_ifs
    · exact doubled_toNat h.step (by omega)
    · rfl
  height := flooredSubtract_toNat _ _

theorem Inv.round {loop : HeightsLoop} (h : Inv top loop) (hholds : loop.holds = true) :
    Inv top loop.round := by
  have hlength : loop.round.heights.length = loop.heights.length + 1 := List.length_append
  have hstep : loop.round.step.toNat = 2 ^ (loop.heights.length - 8) := by
    rw [(h.exact hholds).step, h.step]
    split_ifs with hten
    · rw [← Nat.pow_succ']
      congr 1
      omega
    · congr 1
      omega
  constructor
  · rw [hlength, List.range_succ, List.map_append, ← h.heights]
    show loop.heights ++ [loop.height] = _
    rw [h.height]
    rfl
  · intro i hi
    rw [hlength] at hi
    rcases Nat.lt_succ_iff_lt_or_eq.mp hi with hlt | rfl
    · exact h.above i hlt
    · exact h.above_of_holds hholds
  · rw [hstep, hlength]
    congr 1
  · apply UInt64.toNat_inj.mp
    rw [(h.exact hholds).height, hstep, h.height, hlength, heightAt_toNat, heightAt_toNat,
      offset_succ, Nat.sub_sub]

/-- The rounds are counted by the heights, of which there is one a round. -/
theorem Inv.lowers (loop : HeightsLoop) (h : Inv top loop) (hholds : loop.holds = true) :
    Inv top loop.round ∧ 72 - loop.round.heights.length < 72 - loop.heights.length := by
  have hlength : loop.round.heights.length = loop.heights.length + 1 := List.length_append
  have hlt := h.length_lt hholds
  exact ⟨h.round hholds, by omega⟩

theorem Inv.length_le {loop : HeightsLoop} (h : Inv top loop) : loop.heights.length ≤ 72 := by
  by_contra hlong
  have habove := h.above 72 (by omega)
  exact absurd (lt_of_offset (habove.trans top.toNat_lt)) (by decide)

/-! ### Both loops -/

/-- The loops go round together. -/
structure Counts (loop : HeightsLoop) (counted : SizeLoop) : Prop where
  size : counted.size.toNat = loop.heights.length
  step : counted.step = loop.step
  height : counted.height = loop.height

theorem Counts.exact {loop : HeightsLoop} {counted : SizeLoop} (h : Counts loop counted)
    (hi : Inv top loop) (hholds : loop.holds = true) : counted.Exact := by
  have hlength := hi.length_lt hholds
  have hsize : counted.round.size.toNat = counted.size.toNat + 1 := by
    show (counted.size + 1).toNat = _
    rw [UInt64.toNat_add, h.size]
    exact Nat.mod_eq_of_lt (by change loop.heights.length + 1 < 2 ^ 64; omega)
  refine ⟨hsize, ?_, flooredSubtract_toNat _ _⟩
  have hnine : 9 < counted.round.size ↔ 9 < counted.size.toNat + 1 := by
    rw [UInt64.lt_iff_toNat_lt, hsize]
    rfl
  show (if 9 < counted.round.size then counted.step <<< 1 else counted.step).toNat = _
  rw [h.step]
  split_ifs with hwide hnumber hnumber
  · exact doubled_toNat hi.step (by omega)
  · exact absurd (hnine.mp hwide) hnumber
  · exact absurd (hnine.mpr hnumber) hwide
  · rfl

theorem Counts.round {loop : HeightsLoop} {counted : SizeLoop} (h : Counts loop counted)
    (hi : Inv top loop) (hholds : loop.holds = true) : Counts loop.round counted.round := by
  have hexact := h.exact hi hholds
  have hstep : counted.round.step = loop.round.step := by
    apply UInt64.toNat_inj.mp
    rw [hexact.step, (hi.exact hholds).step, h.size, h.step]
  have hlength : loop.round.heights.length = loop.heights.length + 1 := List.length_append
  constructor
  · rw [hexact.size, h.size, hlength]
  · exact hstep
  · show flooredSubtract counted.height counted.round.step = flooredSubtract loop.height loop.round.step
    rw [h.height, hstep]

theorem counts_start (top : UInt64) : Counts (.start top) (.start top) := ⟨rfl, rfl, rfl⟩

/-- The invariant of both. -/
def Together (top : UInt64) (loop : HeightsLoop) (counted : SizeLoop) : Prop :=
  Inv top loop ∧ Counts loop counted

theorem Together.holds_eq (loop : HeightsLoop) (counted : SizeLoop) (h : Together top loop counted) :
    loop.holds = counted.holds := by
  unfold HeightsLoop.holds SizeLoop.holds
  rw [h.2.height]

theorem Together.round (loop : HeightsLoop) (counted : SizeLoop) (h : Together top loop counted)
    (hholds : loop.holds = true) : Together top loop.round counted.round :=
  ⟨h.1.round hholds, h.2.round h.1 hholds⟩

/-! ### The locator -/

theorem locates_heightAt {count : ℕ} (habove : ∀ i < count, offset i < top.toNat)
    (hleft : top.toNat ≤ offset count) :
    Locates top ((List.range (count + 1)).map (heightAt top)) where
  first := by
    rw [List.range_succ_eq_map, List.map_cons, List.head?_cons]
    exact congrArg some UInt64.ofNat_toNat
  last := by
    rw [List.range_succ, List.map_append, List.map_singleton, List.getLast?_concat]
    unfold heightAt
    rw [Nat.sub_eq_zero_of_le hleft]
    rfl
  decreases := by
    rw [List.pairwise_map]
    refine List.pairwise_lt_range.imp_of_mem ?_
    intro i j hi hj hlt
    have hbelow := habove i (by rw [List.mem_range] at hj; omega)
    have hoffset := offset_lt hlt
    show heightAt top j < heightAt top i
    rw [UInt64.lt_iff_toNat_lt, heightAt_toNat, heightAt_toNat]
    omega
  consecutive := by
    intro i hi hnine
    rw [List.length_map, List.length_range] at hi
    have hbelow := habove i (by omega)
    have hsucc := offset_succ i
    have hpow : 2 ^ (i - 8) = 1 := by rw [Nat.sub_eq_zero_of_le (by omega), Nat.pow_zero]
    simp only [List.getElem_map, List.getElem_range, heightAt_toNat]
    omega
  doubles := by
    intro i hi height
    rw [List.length_map, List.length_range] at hi
    have hbelow := habove (i + 2) (by omega)
    have hsucc := offset_succ i
    have hnext : offset (i + 2) = offset (i + 1) + 2 ^ (i + 1 - 8) := offset_succ (i + 1)
    have hpow : 2 ^ (i + 1 - 8) = 2 * 2 ^ (i - 8) := by
      rw [Nat.sub_add_comm height, Nat.pow_succ']
    simp only [List.getElem_map, List.getElem_range, heightAt_toNat]
    omega
  within := by
    intro i hi
    simp only [List.getElem_map, List.getElem_range, heightAt_toNat, offset_succ, Nat.sub_sub]

/-- Behind the loop the first block takes the place of the height that is next. -/
theorem Inv.locates {loop : HeightsLoop} (h : Inv top loop) (hleft : loop.holds = false) :
    Locates top (loop.heights ++ [0]) := by
  have hzero : loop.height = 0 := by
    have hpos := of_decide_eq_false hleft
    rw [UInt64.not_lt] at hpos
    exact UInt64.le_antisymm hpos (UInt64.le_iff_toNat_le.mpr (Nat.zero_le _))
  have htop : top.toNat ≤ offset loop.heights.length := by
    have hnat := congrArg UInt64.toNat hzero
    rw [h.height, heightAt_toNat] at hnat
    exact Nat.le_of_sub_eq_zero hnat
  have hlist : loop.heights ++ [0] =
      (List.range (loop.heights.length + 1)).map (heightAt top) := by
    rw [List.range_succ, List.map_append, ← h.heights, List.map_singleton, ← h.height, hzero]
  rw [hlist]
  exact locates_heightAt h.above htop

/-- Both loops are left within as many rounds as a locator may have heights, and none of
their numbers is wrapped. -/
theorem heights_located (top : UInt64) :
    (∃ list size, Locates top list ∧ size.toNat = list.length ∧ list.length ≤ maxLocator ∧
      ∀ fuel, maxLocator ≤ fuel → heights fuel top = some list ∧ locatorSize fuel top = some size) ∧
    (∀ loop, While.Reaches HeightsLoop.holds HeightsLoop.round (.start top) loop →
      loop.holds = true → loop.Exact) ∧
    (∀ loop, While.Reaches SizeLoop.holds SizeLoop.round (.start top) loop →
      loop.holds = true → loop.Exact) := by
  refine ⟨?_, ?_, ?_⟩
  · obtain ⟨loop, hi, hleft, hrun⟩ := While.run_ends (I := Inv top)
      (fun loop => 72 - loop.heights.length) Inv.lowers (inv_start top)
    have hlength := hi.length_le
    have hmax : maxLocator = 73 := by decide
    have hsize : (UInt64.ofNat (loop.heights.length + 1)).toNat = loop.heights.length + 1 :=
      UInt64.toNat_ofNat_of_lt' (by change _ < 2 ^ 64; omega)
    refine ⟨loop.heights ++ [0], .ofNat (loop.heights.length + 1), hi.locates hleft, ?_, ?_, ?_⟩
    · rw [hsize, List.length_append, List.length_singleton]
    · rw [List.length_append, List.length_singleton]
      omega
    · intro fuel hfuel
      have hheights := hrun fuel (by omega)
      obtain ⟨counted, hcounted, -, hcounts⟩ := While.run_related Together.holds_eq Together.round
        ⟨inv_start top, counts_start top⟩ hheights
      constructor
      · rw [heights, hheights]
        rfl
      · rw [locatorSize, hcounted, Option.map_some]
        apply congrArg some
        apply UInt64.toNat_inj.mp
        rw [hsize, UInt64.toNat_add, hcounts.size]
        exact Nat.mod_eq_of_lt (by change loop.heights.length + 1 < 2 ^ 64; omega)
  · intro loop hreaches hholds
    have hi := hreaches.invariant (inv_start top) fun _ h hholds => h.round hholds
    exact hi.exact hholds
  · intro counted hreaches hholds
    obtain ⟨loop, -, hi, hcounts⟩ := hreaches.related Together.holds_eq Together.round
      ⟨inv_start top, counts_start top⟩
    exact hcounts.exact hi ((Together.holds_eq loop counted ⟨hi, hcounts⟩).trans hholds)

example : heights maxLocator 12 = some [12, 11, 10, 9, 8, 7, 6, 5, 4, 3, 1, 0] := by decide

end BitcoinNetwork.Peer.GetBlocks
