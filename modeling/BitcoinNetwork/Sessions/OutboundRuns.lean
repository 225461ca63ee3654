import BitcoinNetwork.Sessions.Outbound
import Mathlib.Data.List.Nodup
import Mathlib.Data.List.Perm.Basic

/-!
# One cycle for each slot (sessions/session_outbound.cpp)

A count that is raised over a slot that a cycle has yet to leave starts a second one,
and both go on. In the other runs each slot has one.
-/

namespace BitcoinNetwork.Sessions
open Net Async Outbound

/-- The slots of the live cycles. -/
def slots (s : Outbound) : List ℕ := s.cycles.map (·.slot)

/-- No count is set. -/
def Outbound.Change.sets : Outbound.Change → Bool
  | .set _ => true
  | .next _ _ => false

/-- Each slot has at most one live cycle, and each below the count has one; there are no
more channels than the largest count in force since they started; and where the count
stays as it is, there is one cycle for each slot below it once those at or above it
have been invoked. -/
structure OneCycle (s : Outbound) : Prop where
  unique : (slots s).Nodup
  full : ∀ slot < s.connections, slot ∈ slots s
  bounded : ∀ bound, (∀ c ∈ s.channels, ∀ peak, c.form = .started peak → peak ≤ bound) →
    s.channels.length ≤ bound
  settles : ∀ changes : List Outbound.Change, (∀ change ∈ changes, change.sets = false) →
    (∀ c ∈ s.cycles, s.connections ≤ c.slot → ∃ ec, .next c ec ∈ changes) →
      (slots (after Outbound.step s changes)).Perm (List.range s.connections)

/-- The count is not raised over a slot that has a live cycle. -/
def Calm (s : Outbound) : Outbound.Change → Prop
  | .set count => ∀ slot ∈ slots s, s.connections ≤ slot → count ≤ slot
  | .next _ _ => True

def CalmRun : Outbound → List Outbound.Change → Prop
  | _, [] => True
  | s, change :: changes => Calm s change ∧ CalmRun (s.step change) changes

/-! ### The invariant -/

structure Ordered (s : Outbound) : Prop where
  running : s.stopped = false
  unique : (slots s).Nodup
  full : ∀ slot < s.connections, slot ∈ slots s
  below : ∀ c ∈ s.cycles, ∀ peak, c.form = .started peak → c.slot < peak

section
variable {s : Outbound}

theorem startConnect_below {slot : ℕ} (hrunning : s.stopped = false) (h : slot < s.connections) :
    s.startConnect slot = { s with cycles := ⟨slot, .connecting⟩ :: s.cycles } := by
  unfold Outbound.startConnect
  rw [if_neg (by rw [hrunning]; exact Bool.false_ne_true), if_neg (Nat.not_le.mpr h)]

/-- The loops that start slots. -/
theorem foldl_startConnect (starts : List ℕ) (s : Outbound) (hrunning : s.stopped = false)
    (hbelow : ∀ slot ∈ starts, slot < s.connections) :
    starts.foldl Outbound.startConnect s =
      { s with cycles := (starts.map (⟨·, .connecting⟩)).reverse ++ s.cycles } := by
  induction starts generalizing s with
  | nil => rfl
  | cons slot starts ih =>
    rw [List.foldl_cons, startConnect_below hrunning (hbelow slot List.mem_cons_self)]
    rw [ih { s with cycles := ⟨slot, .connecting⟩ :: s.cycles } hrunning
      fun slot' hmem => hbelow slot' (List.mem_cons_of_mem _ hmem)]
    simp only [List.map_cons, List.reverse_cons, List.append_assoc, List.singleton_append]

@[simp] theorem raise_slot (count : ℕ) (c : Cycle) : (c.raise count).slot = c.slot := by
  unfold Cycle.raise
  split <;> rfl

theorem slots_raise (count : ℕ) (cycles : List Cycle) :
    (cycles.map (Cycle.raise count)).map (·.slot) = cycles.map (·.slot) := by
  rw [List.map_map]
  exact List.map_congr_left fun c _ => raise_slot count c

/-- What setting the count does: it starts the slots that it raises the count over. -/
theorem setConnections_cases (hrunning : s.stopped = false) (count : ℕ) :
    (count = s.connections ∧ s.setConnections count = s) ∨
    ∃ starts : List ℕ, starts.Nodup ∧ (∀ slot, slot ∈ starts ↔ s.connections ≤ slot ∧ slot < count) ∧
      s.setConnections count =
        { s with
          connections := count
          cycles := (starts.map (⟨·, .connecting⟩)).reverse ++ s.cycles.map (Cycle.raise count) } := by
  unfold Outbound.setConnections
  by_cases heq : count = s.connections
  · rw [if_pos heq]
    exact .inl ⟨heq, rfl⟩
  rw [if_neg heq]
  refine .inr ?_
  dsimp only
  rw [if_neg (by rw [hrunning]; exact Bool.false_ne_true)]
  by_cases hless : count < s.connections
  · rw [if_pos hless]
    refine ⟨[], List.nodup_nil, ?_, rfl⟩
    intro slot
    constructor
    · intro hmem
      cases hmem
    · intro hslot
      omega
  · rw [if_neg hless]
    refine ⟨List.range' s.connections (count - s.connections), List.nodup_range', ?_, ?_⟩
    · intro slot
      rw [List.mem_range'_1]
      omega
    · refine foldl_startConnect _
        { s with connections := count, cycles := s.cycles.map (Cycle.raise count) } hrunning ?_
      intro slot hmem
      rw [List.mem_range'_1] at hmem
      show slot < count
      omega

/-- What the callback of a cycle does: it ends the cycle where its slot is at or above
the count, and goes on with it otherwise. -/
theorem next_cases (hrunning : s.stopped = false) {c : Cycle} (hc : c ∈ s.cycles) (ec : Code) :
    (s.connections ≤ c.slot ∧ s.step (.next c ec) = { s with cycles := s.cycles.erase c }) ∨
    (c.slot < s.connections ∧ ∃ form : Form, (∀ peak, form = .started peak → peak = s.connections) ∧
      s.step (.next c ec) = { s with cycles := ⟨c.slot, form⟩ :: s.cycles.erase c }) := by
  rw [Outbound.step, if_pos hc]
  have hstopped : ¬s.stopped = true := by
    rw [hrunning]
    exact Bool.false_ne_true
  by_cases hslot : s.connections ≤ c.slot
  · refine .inl ⟨hslot, ?_⟩
    have hstart : { s with cycles := s.cycles.erase c }.startConnect c.slot =
        { s with cycles := s.cycles.erase c } := (if_neg hstopped).trans (if_pos hslot)
    split
    · exact (if_neg hstopped).trans (if_pos hslot)
    · exact hstart
    · exact hstart
  · have hless := Nat.lt_of_not_le hslot
    refine .inr ⟨hless, ?_⟩
    have hstart : { s with cycles := s.cycles.erase c }.startConnect c.slot =
        { s with cycles := ⟨c.slot, .connecting⟩ :: s.cycles.erase c } :=
      startConnect_below hrunning hless
    split
    · by_cases hec : ec = .success
      · exact ⟨.started s.connections, fun peak heq => (Form.started.inj heq).symm,
          (if_neg hstopped).trans ((if_neg hslot).trans (if_neg (not_not.mpr hec)))⟩
      · exact ⟨.deferred, (fun peak heq => by cases heq),
          (if_neg hstopped).trans ((if_neg hslot).trans (if_pos hec))⟩
    · exact ⟨.connecting, (fun peak heq => by cases heq), hstart⟩
    · exact ⟨.connecting, (fun peak heq => by cases heq), hstart⟩

theorem slots_erase {c : Cycle} (hc : c ∈ s.cycles) :
    (slots s).Perm (c.slot :: slots { s with cycles := s.cycles.erase c }) :=
  (List.perm_cons_erase hc).map _

theorem next_ordered (h : Ordered s) {c : Cycle} (hc : c ∈ s.cycles) (ec : Code) :
    Ordered (s.step (.next c ec)) := by
  have hperm := slots_erase hc
  have hunique := hperm.nodup_iff.mp h.unique
  rcases next_cases h.running hc ec with ⟨hslot, heq⟩ | ⟨hslot, form, hform, heq⟩
  · rw [heq]
    refine ⟨h.running, (List.nodup_cons.mp hunique).2, ?_, ?_⟩
    · intro slot hless
      rcases List.mem_cons.mp (hperm.subset (h.full slot hless)) with heq | hmem
      · exact absurd hless (Nat.not_lt.mpr (heq ▸ hslot))
      · exact hmem
    · intro d hd
      exact h.below d (List.mem_of_mem_erase hd)
  · rw [heq]
    refine ⟨h.running, hunique, fun slot hless => hperm.subset (h.full slot hless), ?_⟩
    intro d hd peak hpeak
    rcases List.mem_cons.mp hd with rfl | hd
    · rw [hform peak hpeak]
      exact hslot
    · exact h.below d (List.mem_of_mem_erase hd) peak hpeak

theorem raise_started {c : Cycle} {count peak : ℕ} (h : (c.raise count).form = .started peak) :
    ∃ least, c.form = .started least ∧ least ≤ peak := by
  unfold Cycle.raise at h
  split at h
  · rename_i least hleast
    exact ⟨least, hleast, Form.started.inj h ▸ Nat.le_max_left _ _⟩
  · rename_i hform
    rw [hform] at h
    cases h
  · rename_i hform
    rw [hform] at h
    cases h

theorem slots_started (s : Outbound) (count : ℕ) (starts : List ℕ) :
    slots { s with
      connections := count
      cycles := (starts.map (⟨·, .connecting⟩)).reverse ++ s.cycles.map (Cycle.raise count) } =
        starts.reverse ++ slots s := by
  unfold slots
  rw [List.map_append, List.map_reverse, List.map_map, slots_raise]
  congr 2
  exact List.map_id _

/-- A count that is raised over slots with no live cycle only. -/
theorem setConnections_ordered (h : Ordered s) {count : ℕ} (hcalm : Calm s (.set count)) :
    Ordered (s.setConnections count) := by
  rcases setConnections_cases h.running count with ⟨-, heq⟩ | ⟨starts, hdistinct, hstarts, heq⟩
  · rw [heq]
    exact h
  have hslots := slots_started s count starts
  rw [heq]
  refine ⟨h.running, ?_, ?_, ?_⟩
  · rw [hslots]
    refine List.nodup_append.mpr ⟨List.nodup_reverse.mpr hdistinct, h.unique, ?_⟩
    rintro slot hstart slot' hmem rfl
    obtain ⟨hleast, hless⟩ := (hstarts slot).mp (List.mem_reverse.mp hstart)
    exact absurd hless (Nat.not_lt.mpr (hcalm slot hmem hleast))
  · intro slot hless
    rw [hslots]
    by_cases hleast : s.connections ≤ slot
    · exact List.mem_append_left _ (List.mem_reverse.mpr ((hstarts slot).mpr ⟨hleast, hless⟩))
    · exact List.mem_append_right _ (h.full slot (Nat.lt_of_not_le hleast))
  · intro c hc peak hpeak
    rcases List.mem_append.mp hc with hstart | hold
    · obtain ⟨slot, -, rfl⟩ := List.mem_map.mp (List.mem_reverse.mp hstart)
      cases hpeak
    · obtain ⟨d, hd, rfl⟩ := List.mem_map.mp hold
      obtain ⟨least, hleast, hle⟩ := raise_started hpeak
      rw [raise_slot]
      exact Nat.lt_of_lt_of_le (h.below d hd least hleast) hle

theorem step_ordered (h : Ordered s) {change : Outbound.Change} (hcalm : Calm s change) :
    Ordered (s.step change) := by
  cases change with
  | set count => exact setConnections_ordered h hcalm
  | next c ec =>
    by_cases hc : c ∈ s.cycles
    · exact next_ordered h hc ec
    · have hsame : s.step (.next c ec) = s := if_neg hc
      rw [hsame]
      exact h

theorem create_ordered (count : ℕ) : Ordered (Outbound.create count) := by
  have heq := foldl_startConnect (List.range count) { connections := count, stopped := false } rfl
    fun slot hmem => List.mem_range.mp hmem
  have hslots : slots (Outbound.create count) = (List.range count).reverse := by
    refine (congrArg slots heq).trans ?_
    unfold slots
    rw [List.append_nil, List.map_reverse, List.map_map]
    exact congrArg List.reverse (List.map_id _)
  have hcount : (Outbound.create count).connections = count := congrArg Outbound.connections heq
  refine ⟨congrArg Outbound.stopped heq, ?_, ?_, ?_⟩
  · rw [hslots]
    exact List.nodup_reverse.mpr List.nodup_range
  · intro slot hless
    rw [hslots]
    exact List.mem_reverse.mpr (List.mem_range.mpr (hcount ▸ hless))
  · intro c hc peak hpeak
    rw [show (Outbound.create count).cycles = _ from congrArg Outbound.cycles heq,
      List.append_nil] at hc
    obtain ⟨slot, -, rfl⟩ := List.mem_map.mp (List.mem_reverse.mp hc)
    cases hpeak

/-! ### What holds in each state -/

theorem Ordered.bounded (h : Ordered s) {bound : ℕ}
    (hbound : ∀ c ∈ s.channels, ∀ peak, c.form = .started peak → peak ≤ bound) :
    s.channels.length ≤ bound := by
  have hunique : (s.channels.map (·.slot)).Nodup :=
    h.unique.sublist (List.filter_sublist.map _)
  have hbelow : s.channels.map (·.slot) ⊆ List.range bound := by
    intro slot hmem
    obtain ⟨c, hc, rfl⟩ := List.mem_map.mp hmem
    have hcycle := List.mem_filter.mp hc
    refine List.mem_range.mpr ?_
    cases hform : c.form with
    | started peak => exact Nat.lt_of_lt_of_le (h.below c hcycle.1 peak hform) (hbound c hc peak hform)
    | connecting => simp [hform] at hcycle
    | deferred => simp [hform] at hcycle
  have hlength := (List.subperm_of_subset hunique hbelow).length_le
  rwa [List.length_map, List.length_range] at hlength

/-- While the count stays as it is, no cycle is added at or above it, and those that are
invoked end. -/
theorem after_above (h : Ordered s) (changes : List Outbound.Change)
    (hquiet : ∀ change ∈ changes, change.sets = false) :
    Ordered (after Outbound.step s changes) ∧
      (after Outbound.step s changes).connections = s.connections ∧
        ∀ c ∈ (after Outbound.step s changes).cycles, s.connections ≤ c.slot →
          c ∈ s.cycles ∧ ∀ ec, .next c ec ∉ changes := by
  induction changes generalizing s with
  | nil => exact ⟨h, rfl, fun c hc _ => ⟨hc, fun _ => List.not_mem_nil⟩⟩
  | cons change changes ih =>
    have hrest : ∀ change ∈ changes, change.sets = false :=
      fun change hmem => hquiet change (List.mem_cons_of_mem _ hmem)
    cases change with
    | set count => cases hquiet _ List.mem_cons_self
    | next d ec =>
      obtain ⟨hordered, hcount, habove⟩ := 
        ih (step_ordered h (show Calm s (.next d ec) from trivial)) hrest
      rw [after_cons]
      -- what the step has to say of the cycles at or above the count
      have hstep : (s.step (.next d ec)).connections = s.connections ∧
          ∀ c ∈ (s.step (.next d ec)).cycles, s.connections ≤ c.slot → c ∈ s.cycles ∧ c ≠ d := by
        by_cases hd : d ∈ s.cycles
        · have hmem : ∀ c ∈ s.cycles.erase d, c ∈ s.cycles ∧ c ≠ d := fun c hc =>
            (((List.Nodup.of_map _ h.unique).mem_erase_iff).mp hc).symm
          rcases next_cases h.running hd ec with ⟨-, heq⟩ | ⟨hslot, form, -, heq⟩
          · rw [heq]
            exact ⟨rfl, fun c hc _ => hmem c hc⟩
          · rw [heq]
            refine ⟨rfl, ?_⟩
            intro c hc hleast
            rcases List.mem_cons.mp hc with rfl | hc
            · exact absurd hslot (Nat.not_lt.mpr hleast)
            · exact hmem c hc
        · rw [show s.step (.next d ec) = s from if_neg hd]
          refine ⟨rfl, ?_⟩
          intro c hc _
          refine ⟨hc, ?_⟩
          rintro rfl
          exact hd hc
      refine ⟨hordered, hcount.trans hstep.1, ?_⟩
      intro c hc hleast
      obtain ⟨hmem, hnone⟩ := habove c hc (hstep.1.symm ▸ hleast)
      obtain ⟨hold, hne⟩ := hstep.2 c hmem hleast
      refine ⟨hold, ?_⟩
      intro ec' hnext
      rcases List.mem_cons.mp hnext with heq | hnext
      · exact hne (Outbound.Change.next.inj heq).1
      · exact hnone ec' hnext

theorem Ordered.oneCycle (h : Ordered s) : OneCycle s where
  unique := h.unique
  full := h.full
  bounded _ hbound := h.bounded hbound
  settles changes hquiet hinvoked := by
    obtain ⟨hordered, hcount, habove⟩ := after_above h changes hquiet
    refine (List.perm_ext_iff_of_nodup hordered.unique List.nodup_range).mpr ?_
    intro slot
    rw [List.mem_range]
    constructor
    · intro hmem
      obtain ⟨c, hc, rfl⟩ := List.mem_map.mp hmem
      by_contra hleast
      obtain ⟨hold, hnone⟩ := habove c hc (Nat.not_lt.mp hleast)
      obtain ⟨ec, hnext⟩ := hinvoked c hold (Nat.not_lt.mp hleast)
      exact hnone ec hnext
    · intro hless
      exact hordered.full slot (hcount.symm ▸ hless)

/-- A count that is raised over a slot with a live cycle starts a second one. -/
theorem calm_of_oneCycle (h : Ordered s) {change : Outbound.Change}
    (hone : OneCycle (s.step change)) : Calm s change := by
  cases change with
  | next c ec => trivial
  | set count =>
    intro slot hmem hleast
    by_contra hless
    have hunique := hone.unique
    rcases setConnections_cases h.running count with ⟨heq, -⟩ | ⟨starts, -, hstarts, heq⟩
    · omega
    · rw [show s.step (.set count) = _ from heq, slots_started] at hunique
      have hstart : slot ∈ starts.reverse :=
        List.mem_reverse.mpr ((hstarts slot).mpr ⟨hleast, Nat.lt_of_not_le hless⟩)
      exact (List.nodup_append.mp hunique).2.2 slot hstart slot hmem rfl

end

/-- Every state of a run has one cycle for each slot if and only if no step of the run
raises the count over a slot that has a live cycle. -/
theorem one_cycle_iff (count : ℕ) (changes : List Outbound.Change) :
    (∀ earlier later, changes = earlier ++ later →
      OneCycle (after Outbound.step (Outbound.create count) earlier)) ↔
        CalmRun (Outbound.create count) changes := by
  have hruns : ∀ (changes : List Outbound.Change) (s : Outbound), Ordered s →
      ((∀ earlier later, changes = earlier ++ later → OneCycle (after Outbound.step s earlier)) ↔
        CalmRun s changes) := by
    intro changes
    induction changes with
    | nil =>
      intro s h
      refine ⟨fun _ => trivial, ?_⟩
      intro _ earlier later heq
      rw [(List.append_eq_nil_iff.mp heq.symm).1]
      exact h.oneCycle
    | cons change changes ih =>
      intro s h
      constructor
      · intro hone
        have hcalm := calm_of_oneCycle h (hone [change] changes rfl)
        refine ⟨hcalm, (ih _ (step_ordered h hcalm)).mp ?_⟩
        intro earlier later heq
        exact hone (change :: earlier) later (congrArg (List.cons change) heq)
      · rintro ⟨hcalm, hrest⟩ earlier later heq
        cases earlier with
        | nil => exact h.oneCycle
        | cons change' earlier =>
          obtain ⟨rfl, hchanges⟩ := List.cons.inj heq
          exact (ih _ (step_ordered h hcalm)).mpr hrest earlier later hchanges
  exact hruns changes _ (create_ordered count)

/-- The count is lowered and raised while the slot connects, and both cycles connect. -/
def lowerAndRaise : List Outbound.Change :=
  [.set 0, .set 1, .next ⟨0, .connecting⟩ .success, .next ⟨0, .connecting⟩ .success]

/-- There are two channels for a slot then, and two for a count that was never more than
one. -/
theorem not_one_cycle :
    (¬∀ changes : List Outbound.Change,
      OneCycle (after Outbound.step (Outbound.create 1) changes)) ∧
    (after Outbound.step (Outbound.create 1) lowerAndRaise).channels =
      [⟨0, .started 1⟩, ⟨0, .started 1⟩] := by
  have hcycles : (after Outbound.step (Outbound.create 1) lowerAndRaise).cycles =
      [⟨0, .started 1⟩, ⟨0, .started 1⟩] := by decide
  constructor
  · intro h
    have hunique := (h lowerAndRaise).unique
    unfold slots at hunique
    rw [hcycles] at hunique
    exact absurd hunique (by decide)
  · unfold Outbound.channels
    rw [hcycles]
    rfl

end BitcoinNetwork.Sessions
