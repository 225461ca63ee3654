import BitcoinNetwork.Net.Subscribers

/-!
# Subscribers by key (async/desubscriber.hpp)

The handlers of a map are notified in the order of their keys, and one alone by its key.
-/

namespace BitcoinNetwork.Net.Subscribers
open Async

variable {Key Args : Type}

/-- `desubscriber`, with its map in the order of its keys. -/
structure Desubscriber (Key Args : Type) where
  stopped : Bool := false
  map : List (Key × ℕ) := []
  count : ℕ := 0
  log : List (Call Args) := []

namespace Desubscriber

inductive Event (Key Args : Type)
  | subscribe (key : Key)
  | notify (note : Note Args)
  | notifyOne (key : Key) (note : Note Args)
  | stop (note : Note Args)

def Event.isStop : Event Key Args → Bool
  | .stop _ => true
  | _ => false

/-- `notify`. -/
def notify (answer : Answer Args) (s : Desubscriber Key Args) (note : Note Args) :
    Desubscriber Key Args :=
  if s.stopped then s
  else
    let (map, log) := notifyEach answer Prod.snd note s.map s.log
    { s with map := map, log := log }

/-- `stop`. -/
def stop (answer : Answer Args) (s : Desubscriber Key Args) (note : Note Args) :
    Desubscriber Key Args :=
  if s.stopped then s else { s.notify answer note with stopped := true, map := [] }

variable [LinearOrder Key]

/-- `map_.contains`. -/
def contains (s : Desubscriber Key Args) (key : Key) : Bool := s.map.any fun entry => entry.1 = key

/-- `notify_one`. -/
def notifyOne (answer : Answer Args) (s : Desubscriber Key Args) (key : Key) (note : Note Args) :
    Desubscriber Key Args × Bool :=
  if s.stopped then (s, false)
  else
    match s.map.find? fun entry => entry.1 = key with
    | none => (s, false)
    | some entry =>
      let log := invoke answer s.log entry.2 note
      if answer s.log entry.2 note then ({ s with log := log }, true)
      else ({ s with map := s.map.erase entry, log := log }, true)

/-- What an event is to a handler that is subscribed under a key. -/
def address (key : Key) : Event Key Args → Address (Note Args)
  | .subscribe _ => .quiet
  | .notify note => .told note
  | .notifyOne other note => if other = key then .told note else .quiet
  | .stop note => .ended note

/-- The code that a subscription is refused with. -/
def refusal (s : Desubscriber Key Args) (key : Key) : Option Code :=
  if s.stopped then some .subscriberStopped
  else if s.contains key then some .subscriberExists else none

variable [Inhabited Args]

/-- `subscribe`. -/
def subscribe (answer : Answer Args) (s : Desubscriber Key Args) (key : Key) :
    Desubscriber Key Args × Code :=
  if s.stopped then
    ({ s with
        count := s.count + 1
        log := invoke answer s.log s.count ⟨.subscriberStopped, default⟩ }, .subscriberStopped)
  else if s.contains key then
    ({ s with
        count := s.count + 1
        log := invoke answer s.log s.count ⟨.subscriberExists, default⟩ }, .subscriberExists)
  else
    ({ s with
        map := s.map.orderedInsert (fun x y => x.1 < y.1) (key, s.count)
        count := s.count + 1 }, .success)

def step (answer : Answer Args) (s : Desubscriber Key Args) :
    Event Key Args → Desubscriber Key Args
  | .subscribe key => (s.subscribe answer key).1
  | .notify note => s.notify answer note
  | .notifyOne key note => (s.notifyOne answer key note).1
  | .stop note => s.stop answer note

end Desubscriber

/-- There is one handler at most under a key, in the order of the keys, each was subscribed
once, there are none behind a stop, and those that were not subscribed were not called. -/
structure Desubscriber.Sound [LinearOrder Key] (s : Desubscriber Key Args) : Prop where
  sorted : s.map.Pairwise fun x y => x.1 < y.1
  nodup : (s.map.map Prod.snd).Nodup
  issued : ∀ handler ∈ s.map.map Prod.snd, handler < s.count
  stopped : s.stopped = true → s.map = []
  fresh : ∀ handler, s.count ≤ handler → calls s.log handler = []

namespace Desubscriber
variable [LinearOrder Key] (answer : Answer Args) {s : Desubscriber Key Args}

theorem address_notifyOne (key other : Key) (note : Note Args) :
    address key (.notifyOne other note) = if other = key then .told note else .quiet := rfl

/-- A handler that was subscribed and is not in the map. -/
def Gone (s : Desubscriber Key Args) (handler : ℕ) : Prop :=
  s.Sound ∧ handler < s.count ∧ handler ∉ s.map.map Prod.snd

omit [LinearOrder Key] in
theorem contains_iff [LinearOrder Key] (s : Desubscriber Key Args) (key : Key) :
    s.contains key = true ↔ ∃ handler, (key, handler) ∈ s.map := by
  unfold contains
  rw [List.any_eq_true]
  constructor
  · rintro ⟨⟨_, handler⟩, hmem, hkey⟩
    exact ⟨handler, of_decide_eq_true hkey ▸ hmem⟩
  · rintro ⟨handler, hmem⟩
    exact ⟨_, hmem, decide_eq_true rfl⟩

/-- The entries of one key are one. -/
theorem Sound.entry_eq (h : s.Sound) {x y : Key × ℕ} (hx : x ∈ s.map) (hy : y ∈ s.map)
    (hkey : x.1 = y.1) : x = y := by
  have hkeys : (s.map.map Prod.fst).Nodup :=
    List.pairwise_map.mpr (h.sorted.imp fun hlt => ne_of_lt hlt)
  exact List.inj_on_of_nodup_map hkeys hx hy hkey

theorem Sound.find_eq (h : s.Sound) {key : Key} {handler : ℕ} (hmem : (key, handler) ∈ s.map) :
    s.map.find? (fun entry => entry.1 = key) = some (key, handler) := by
  cases hfind : s.map.find? fun entry => entry.1 = key with
  | none => exact absurd (decide_eq_true rfl) (List.find?_eq_none.mp hfind _ hmem)
  | some entry =>
    have hkey : entry.1 = key := by simpa using List.find?_some hfind
    rw [h.entry_eq (List.mem_of_find?_eq_some hfind) hmem hkey]

/-- Handlers of a part of the map. -/
theorem Sound.sublist {s' : Desubscriber Key Args} (h : s.Sound) (hsublist : s'.map.Sublist s.map)
    (hcount : s'.count = s.count) (hstopped : s'.stopped = s.stopped)
    (hquiet : ∀ other ∉ s.map.map Prod.snd, calls s'.log other = calls s.log other) : s'.Sound where
  sorted := h.sorted.sublist hsublist
  nodup := h.nodup.sublist (hsublist.map Prod.snd)
  issued handler hmem := hcount ▸ h.issued handler ((hsublist.map Prod.snd).subset hmem)
  stopped hs := by
    rw [h.stopped (hstopped ▸ hs)] at hsublist
    exact List.sublist_nil.mp hsublist
  fresh handler hle := by
    rw [hcount] at hle
    rw [hquiet handler fun hmem => absurd (h.issued handler hmem) (by omega)]
    exact h.fresh handler hle

/-- What a notification, or that of a stop, does. -/
theorem notify_spec (h : s.Sound) (hrunning : s.stopped = false) (note : Note Args) :
    (s.notify answer note).stopped = false ∧ (s.notify answer note).count = s.count ∧
      (s.notify answer note).map.Sublist s.map ∧
      (∀ other ∉ s.map.map Prod.snd, calls (s.notify answer note).log other = calls s.log other) ∧
      ∀ entry ∈ s.map, ∃ kept,
        calls (s.notify answer note).log entry.2 = calls s.log entry.2 ++ [(note, kept)] ∧
          if kept then entry ∈ (s.notify answer note).map
          else entry.2 ∉ (s.notify answer note).map.map Prod.snd := by
  unfold notify
  rw [if_neg (by rw [hrunning]; exact Bool.false_ne_true)]
  cases hout : notifyEach answer Prod.snd note s.map s.log with
  | mk others more => exact ⟨hrunning, rfl, notifyEach_spec answer Prod.snd note h.nodup hout⟩

theorem sound_notify (h : s.Sound) (note : Note Args) : (s.notify answer note).Sound := by
  cases hs : s.stopped with
  | true =>
    have heq : s.notify answer note = s := if_pos hs
    rw [heq]
    exact h
  | false =>
    obtain ⟨hrunning, hcount, hsublist, hquiet, _⟩ := notify_spec answer h hs note
    exact h.sublist hsublist hcount (hrunning.trans hs.symm) hquiet

theorem sound_stop (h : s.Sound) (note : Note Args) : (s.stop answer note).Sound := by
  have hn := sound_notify answer h note
  unfold stop
  split
  · exact h
  · exact ⟨List.Pairwise.nil, List.nodup_nil, fun _ hmem => absurd hmem List.not_mem_nil,
      fun _ => rfl, hn.fresh⟩

/-- What a notification of one does, where its key is in the map. -/
theorem notifyOne_found (h : s.Sound) {key : Key} {handler : ℕ} (hmem : (key, handler) ∈ s.map)
    (hrunning : s.stopped = false) (note : Note Args) :
    s.notifyOne answer key note =
      ({ s with
          map := if answer s.log handler note then s.map else s.map.erase (key, handler)
          log := invoke answer s.log handler note }, true) := by
  unfold notifyOne
  rw [if_neg (by rw [hrunning]; exact Bool.false_ne_true), h.find_eq hmem]
  dsimp only
  split
  · rfl
  · rfl

theorem notifyOne_missed {key : Key} (hmissed : s.stopped = true ∨ s.contains key = false)
    (note : Note Args) : s.notifyOne answer key note = (s, false) := by
  unfold notifyOne
  split
  · rfl
  · next hs =>
    have hnone : s.map.find? (fun entry => entry.1 = key) = none := by
      rw [List.find?_eq_none]
      intro entry hmem hkey
      have hcontains : s.contains key = true :=
        (contains_iff s key).mpr ⟨entry.2, by rw [← of_decide_eq_true hkey]; exact hmem⟩
      rcases hmissed with hstopped | hnot
      · exact hs hstopped
      · rw [hnot] at hcontains
        exact nomatch hcontains
    rw [hnone]

/-- The two outcomes of a notification of one. -/
theorem notifyOne_cases (h : s.Sound) (key : Key) (note : Note Args) :
    (s.stopped = false ∧ ∃ handler, (key, handler) ∈ s.map ∧ s.notifyOne answer key note =
      ({ s with
          stopped := false
          map := if answer s.log handler note then s.map else s.map.erase (key, handler)
          log := invoke answer s.log handler note }, true)) ∨
      s.notifyOne answer key note = (s, false) := by
  cases hs : s.stopped with
  | true => exact .inr (notifyOne_missed answer (.inl hs) note)
  | false =>
    cases hcontains : s.contains key with
    | false => exact .inr (notifyOne_missed answer (.inr hcontains) note)
    | true =>
      obtain ⟨handler, hmem⟩ := (contains_iff s key).mp hcontains
      have hfound := notifyOne_found answer h hmem hs note
      rw [hs] at hfound
      exact .inl ⟨rfl, handler, hmem, hfound⟩

theorem sound_notifyOne (h : s.Sound) (key : Key) (note : Note Args) :
    (s.notifyOne answer key note).1.Sound := by
  rcases notifyOne_cases answer h key note with ⟨hs, handler, hmem, heq⟩ | heq
  · rw [heq]
    have hsublist : (if answer s.log handler note then s.map
        else s.map.erase (key, handler)).Sublist s.map := by
      split
      · exact List.Sublist.refl _
      · exact List.erase_sublist
    have hquiet (other : ℕ) (hother : other ∉ s.map.map Prod.snd) :
        calls (invoke answer s.log handler note) other = calls s.log other := by
      apply calls_invoke_other
      rintro rfl
      exact hother (List.mem_map_of_mem hmem)
    exact h.sublist hsublist rfl hs.symm hquiet
  · rw [heq]
    exact h

variable [Inhabited Args]

/-- A subscription that is refused. -/
theorem subscribe_refused {key : Key} {ec : Code} (hrefused : s.refusal key = some ec) :
    s.subscribe answer key =
      ({ s with count := s.count + 1, log := invoke answer s.log s.count ⟨ec, default⟩ }, ec) := by
  unfold refusal at hrefused
  unfold subscribe
  split at hrefused
  · next hs =>
    cases hrefused
    rw [if_pos hs]
  · next hs =>
    split at hrefused
    · next hcontains =>
      cases hrefused
      rw [if_neg hs, if_pos hcontains]
    · exact nomatch hrefused

/-- A subscription that is not. -/
theorem subscribe_kept {key : Key} (hrefused : s.refusal key = none) :
    s.stopped = false ∧ s.contains key = false ∧ s.subscribe answer key =
      ({ s with
          map := s.map.orderedInsert (fun x y => x.1 < y.1) (key, s.count)
          count := s.count + 1 }, .success) := by
  unfold refusal at hrefused
  unfold subscribe
  split at hrefused
  · exact nomatch hrefused
  · next hs =>
    split at hrefused
    · exact nomatch hrefused
    · next hcontains =>
      rw [if_neg hs, if_neg hcontains]
      exact ⟨Bool.eq_false_of_not_eq_true hs, Bool.eq_false_of_not_eq_true hcontains, rfl⟩

theorem sound_subscribe (h : s.Sound) (key : Key) : (s.subscribe answer key).1.Sound := by
  cases hrefused : s.refusal key with
  | some ec =>
    rw [subscribe_refused answer hrefused]
    refine ⟨h.sorted, h.nodup, fun handler hmem => Nat.lt_succ_of_lt (h.issued handler hmem),
      h.stopped, fun handler hle => ?_⟩
    have hlt : s.count < handler := hle
    show calls (invoke answer s.log s.count _) handler = []
    rw [calls_invoke_other _ _ (by omega)]
    exact h.fresh handler (Nat.le_of_lt hlt)
  | none =>
    obtain ⟨hs, hcontains, heq⟩ := subscribe_kept answer hrefused
    rw [heq]
    have hkey (entry : Key × ℕ) (hmem : entry ∈ s.map) : entry.1 ≠ key := by
      rintro rfl
      rw [(contains_iff s entry.1).mpr ⟨entry.2, hmem⟩] at hcontains
      exact nomatch hcontains
    have hnew : s.count ∉ s.map.map Prod.snd := fun hmem =>
      absurd (h.issued _ hmem) (Nat.lt_irrefl _)
    have hperm := (List.perm_orderedInsert (fun x y : Key × ℕ => x.1 < y.1) (key, s.count)
      s.map).map Prod.snd
    rw [List.map_cons] at hperm
    constructor
    · apply pairwise_orderedInsert _ _ _ h.sorted
      · exact fun _ _ _ => lt_trans
      · exact fun _ _ hlt => hlt
      · exact fun entry hmem hnot => lt_of_le_of_ne (not_lt.mp hnot) (hkey entry hmem)
    · exact hperm.nodup_iff.mpr (List.nodup_cons.mpr ⟨hnew, h.nodup⟩)
    · intro handler hmem
      rcases List.mem_cons.mp (hperm.mem_iff.mp hmem) with rfl | hmem
      · exact Nat.lt_succ_self _
      · exact Nat.lt_succ_of_lt (h.issued handler hmem)
    · intro hstop
      rw [hs] at hstop
      exact nomatch hstop
    · exact fun handler hle => h.fresh handler (Nat.le_of_succ_le hle)

theorem sound_step (h : s.Sound) (e : Event Key Args) : (step answer s e).Sound := by
  cases e with
  | subscribe key => exact sound_subscribe answer h key
  | notify note => exact sound_notify answer h note
  | notifyOne key note => exact sound_notifyOne answer h key note
  | stop note => exact sound_stop answer h note

/-- A handler that is subscribed under a key. -/
def Held (key : Key) (handler : ℕ) (s : Desubscriber Key Args) : Prop :=
  s.Sound ∧ (key, handler) ∈ s.map

omit [Inhabited Args] in
theorem Held.running {key : Key} {handler : ℕ} (h : Held key handler s) : s.stopped = false := by
  cases hs : s.stopped with
  | false => rfl
  | true =>
    have hmem := h.2
    rw [h.1.stopped hs] at hmem
    exact nomatch hmem

omit [Inhabited Args] in
theorem Held.issued {key : Key} {handler : ℕ} (h : Held key handler s) : handler < s.count :=
  h.1.issued handler (List.mem_map_of_mem h.2)

omit [Inhabited Args] in
/-- A handler of another key is not that of one. -/
theorem Held.ne {key other : Key} {handler first : ℕ} (h : Held key handler s)
    (hmem : (other, first) ∈ s.map) (hkey : other ≠ key) : handler ≠ first := by
  rintro rfl
  exact hkey (congrArg Prod.fst (List.inj_on_of_nodup_map h.1.nodup hmem h.2 rfl))

theorem step_quiet {key : Key} {handler : ℕ} (h : Held key handler s) {e : Event Key Args}
    (he : address key e = .quiet) : Held key handler (step answer s e) ∧
      calls (step answer s e).log handler = calls s.log handler := by
  have hlt := h.issued
  cases e with
  | subscribe other =>
    have hsound := sound_subscribe answer h.1 other
    show Held key handler (s.subscribe answer other).1 ∧ calls (s.subscribe answer other).1.log _ = _
    cases hrefused : s.refusal other with
    | some ec =>
      rw [subscribe_refused answer hrefused] at hsound ⊢
      exact ⟨⟨hsound, h.2⟩, calls_invoke_other _ _ (by omega) _⟩
    | none =>
      rw [(subscribe_kept answer hrefused).2.2] at hsound ⊢
      exact ⟨⟨hsound, (List.perm_orderedInsert _ _ _).mem_iff.mpr (List.mem_cons_of_mem _ h.2)⟩, rfl⟩
  | notify note => exact nomatch he
  | notifyOne other note =>
    have hsound := sound_notifyOne answer h.1 other note
    have hkey : other ≠ key := by
      rintro rfl
      rw [address_notifyOne, if_pos rfl] at he
      exact nomatch he
    show Held key handler (s.notifyOne answer other note).1 ∧ calls (s.notifyOne ..).1.log _ = _
    rcases notifyOne_cases answer h.1 other note with ⟨_, first, hmem, heq⟩ | heq
    · rw [heq] at hsound ⊢
      have hne := h.ne hmem hkey
      refine ⟨⟨hsound, ?_⟩, calls_invoke_other _ _ hne _⟩
      dsimp only
      split
      · exact h.2
      · exact (List.mem_erase_of_ne fun he => hkey (congrArg Prod.fst he).symm).mpr h.2
    · rw [heq]
      exact ⟨h, rfl⟩
  | stop note => exact nomatch he

theorem step_told {key : Key} {handler : ℕ} (h : Held key handler s) {e : Event Key Args}
    {note : Note Args} (he : address key e = .told note) : ∃ kept,
      calls (step answer s e).log handler = calls s.log handler ++ [(note, kept)] ∧
        if kept then Held key handler (step answer s e) else (step answer s e).Gone handler := by
  cases e with
  | subscribe other => exact nomatch he
  | notify other =>
    cases he
    obtain ⟨_, hcount, _, _, hcalled⟩ := notify_spec answer h.1 h.running note
    obtain ⟨kept, hcalls, hstay⟩ := hcalled _ h.2
    refine ⟨kept, hcalls, ?_⟩
    cases kept with
    | true => exact ⟨sound_notify answer h.1 note, hstay⟩
    | false =>
      have hlt : handler < (s.notify answer note).count := hcount ▸ h.issued
      exact ⟨sound_notify answer h.1 note, hlt, hstay⟩
  | notifyOne other one =>
    rw [address_notifyOne] at he
    split at he
    · next hkey =>
      cases he
      have hsound := sound_notifyOne answer h.1 other note
      have hmem : (other, handler) ∈ s.map := hkey ▸ h.2
      have heq := notifyOne_found answer h.1 hmem h.running note
      refine ⟨answer s.log handler note, ?_, ?_⟩
      · show calls (s.notifyOne answer other note).1.log handler = _
        rw [heq]
        exact calls_invoke_self ..
      · show if _ then Held key handler (s.notifyOne answer other note).1
          else (s.notifyOne answer other note).1.Gone handler
        rw [heq] at hsound ⊢
        cases hkept : answer s.log handler note with
        | true =>
          rw [hkept] at hsound
          exact ⟨hsound, h.2⟩
        | false =>
          rw [hkept] at hsound
          refine ⟨hsound, h.issued, ?_⟩
          show handler ∉ (s.map.erase (other, handler)).map Prod.snd
          intro hleft
          obtain ⟨⟨k, x⟩, hentry, rfl⟩ := List.mem_map.mp hleft
          have hin := List.mem_of_mem_erase hentry
          have hsame := List.inj_on_of_nodup_map h.1.nodup hin hmem rfl
          rw [hsame] at hentry
          have hentries : s.map.Nodup := List.Nodup.of_map Prod.snd h.1.nodup
          exact absurd rfl (hentries.mem_erase_iff.mp hentry).1
    · exact nomatch he
  | stop other => exact nomatch he

theorem step_ended {key : Key} {handler : ℕ} (h : Held key handler s) {e : Event Key Args}
    {note : Note Args} (he : address key e = .ended note) : ∃ kept,
      calls (step answer s e).log handler = calls s.log handler ++ [(note, kept)] ∧
        (step answer s e).Gone handler := by
  cases e with
  | subscribe other => exact nomatch he
  | notify other => exact nomatch he
  | notifyOne other one =>
    rw [address_notifyOne] at he
    split at he
    · exact nomatch he
    · exact nomatch he
  | stop other =>
    cases he
    have hrunning := h.running
    have hsound := sound_stop answer h.1 note
    obtain ⟨_, hcount, _, _, hcalled⟩ := notify_spec answer h.1 hrunning note
    obtain ⟨kept, hcalls, _⟩ := hcalled _ h.2
    have heq : s.stop answer note = { s.notify answer note with stopped := true, map := [] } :=
      if_neg (by rw [hrunning]; exact Bool.false_ne_true)
    show ∃ kept, calls (s.stop answer note).log handler = _ ∧ (s.stop answer note).Gone handler
    rw [heq] at hsound ⊢
    refine ⟨kept, hcalls, hsound, ?_, List.not_mem_nil⟩
    show handler < (s.notify answer note).count
    rw [hcount]
    exact h.issued

/-- A handler that is gone is not called. -/
theorem step_gone {handler : ℕ} (h : s.Gone handler) (e : Event Key Args) :
    (step answer s e).Gone handler ∧
      calls (step answer s e).log handler = calls s.log handler := by
  obtain ⟨hsound, hlt, hnot⟩ := h
  have hnotify (note : Note Args) : (s.notify answer note).Gone handler ∧
      calls (s.notify answer note).log handler = calls s.log handler := by
    cases hs : s.stopped with
    | true =>
      have heq : s.notify answer note = s := if_pos hs
      rw [heq]
      exact ⟨⟨hsound, hlt, hnot⟩, rfl⟩
    | false =>
      obtain ⟨_, hcount, hsublist, hquiet, _⟩ := notify_spec answer hsound hs note
      have hleft := (hsublist.map Prod.snd).subset
      exact ⟨⟨sound_notify answer hsound note, hcount ▸ hlt, fun hmem => hnot (hleft hmem)⟩,
        hquiet handler hnot⟩
  cases e with
  | subscribe key =>
    have hsound' := sound_subscribe answer hsound key
    show (s.subscribe answer key).1.Gone handler ∧ calls (s.subscribe answer key).1.log handler = _
    cases hrefused : s.refusal key with
    | some ec =>
      rw [subscribe_refused answer hrefused] at hsound' ⊢
      exact ⟨⟨hsound', Nat.lt_succ_of_lt hlt, hnot⟩, calls_invoke_other _ _ (by omega) _⟩
    | none =>
      rw [(subscribe_kept answer hrefused).2.2] at hsound' ⊢
      refine ⟨⟨hsound', Nat.lt_succ_of_lt hlt, fun hmem => ?_⟩, rfl⟩
      have hperm := (List.perm_orderedInsert (fun x y : Key × ℕ => x.1 < y.1) (key, s.count)
        s.map).map Prod.snd
      rcases List.mem_cons.mp (hperm.mem_iff.mp hmem) with heq | hold
      · have hnew : handler = s.count := heq
        omega
      · exact hnot hold
  | notify note => exact hnotify note
  | notifyOne key note =>
    have hsound' := sound_notifyOne answer hsound key note
    show (s.notifyOne answer key note).1.Gone handler ∧ calls (s.notifyOne ..).1.log handler = _
    rcases notifyOne_cases answer hsound key note with ⟨_, first, hmem, heq⟩ | heq
    · rw [heq] at hsound' ⊢
      have hne : handler ≠ first := by
        rintro rfl
        exact hnot (List.mem_map_of_mem hmem)
      refine ⟨⟨hsound', hlt, fun hleft => hnot ?_⟩, calls_invoke_other _ _ hne _⟩
      have hsublist : (if answer s.log first note then s.map
          else s.map.erase (key, first)).Sublist s.map := by
        split
        · exact List.Sublist.refl _
        · exact List.erase_sublist
      exact (hsublist.map Prod.snd).subset hleft
    · rw [heq]
      exact ⟨⟨hsound, hlt, hnot⟩, rfl⟩
  | stop note =>
    have hn := hnotify note
    have hsound' := sound_stop answer hsound note
    show (s.stop answer note).Gone handler ∧ calls (s.stop answer note).log handler = _
    unfold stop at hsound' ⊢
    split
    · exact ⟨⟨hsound, hlt, hnot⟩, rfl⟩
    · next hs =>
      rw [if_neg hs] at hsound'
      exact ⟨⟨hsound', hn.1.2.1, List.not_mem_nil⟩, hn.2⟩

theorem stopped_step (h : s.Sound) (e : Event Key Args) :
    (step answer s e).stopped = (s.stopped || e.isStop) := by
  cases e with
  | subscribe key =>
    show (s.subscribe answer key).1.stopped = (s.stopped || false)
    rw [Bool.or_false]
    cases hrefused : s.refusal key with
    | some ec => rw [subscribe_refused answer hrefused]
    | none => rw [(subscribe_kept answer hrefused).2.2]
  | notify note =>
    show (s.notify answer note).stopped = (s.stopped || false)
    unfold notify
    split <;> exact (Bool.or_false _).symm
  | notifyOne key note =>
    show (s.notifyOne answer key note).1.stopped = (s.stopped || false)
    rw [Bool.or_false]
    rcases notifyOne_cases answer h key note with ⟨hs, _, _, heq⟩ | heq
    · rw [heq, hs]
    · rw [heq]
  | stop note =>
    show (s.stop answer note).stopped = (s.stopped || true)
    unfold stop
    split
    · next hs => rw [hs, Bool.or_true]
    · exact (Bool.or_true _).symm

theorem stopped_after (h : s.Sound) (events : List (Event Key Args)) :
    (after (step answer) s events).stopped = (s.stopped || events.any Event.isStop) := by
  induction events generalizing s with
  | nil => exact (Bool.or_false _).symm
  | cons e events ih =>
    rw [after_cons, ih (sound_step answer h e), stopped_step answer h, List.any_cons, Bool.or_assoc]

omit [Inhabited Args] in
theorem sound_empty : ({} : Desubscriber Key Args).Sound :=
  ⟨List.Pairwise.nil, List.nodup_nil, fun _ hmem => absurd hmem List.not_mem_nil, fun _ => rfl,
    fun _ _ => rfl⟩

theorem sound_after (h : s.Sound) (events : List (Event Key Args)) :
    (after (step answer) s events).Sound :=
  after_invariant (P := Sound) (fun _ e hs => sound_step answer hs e) h events

/-- A subscription is served, whatever was called before it and is called behind it. -/
theorem served_after (h : s.Sound) (key : Key) (rest : List (Event Key Args)) :
    Served (s.refusal key) (notes (address key) rest)
      (calls (after (step answer) s (.subscribe key :: rest)).log s.count) := by
  have hfresh := h.fresh s.count (Nat.le_refl _)
  have hsound := sound_subscribe answer h key
  have hnew : s.count ∉ s.map.map Prod.snd := fun hmem =>
    absurd (h.issued _ hmem) (Nat.lt_irrefl _)
  rw [after_cons]
  cases hrefused : s.refusal key with
  | some ec =>
    have heq := congrArg Prod.fst (subscribe_refused answer hrefused)
    have hgone : (step answer s (.subscribe key)).Gone s.count := by
      show (s.subscribe answer key).1.Gone s.count
      rw [heq] at hsound ⊢
      exact ⟨hsound, Nat.lt_succ_self _, hnew⟩
    have hafter := gone_after (step answer) (calls ·.log s.count) (Gone · s.count)
      (fun _ e hg => step_gone answer hg e) hgone rest
    refine ⟨answer s.log s.count ⟨ec, default⟩, hafter.trans ?_⟩
    show calls (s.subscribe answer key).1.log s.count = _
    rw [heq]
    show calls (invoke answer s.log s.count _) s.count = _
    rw [calls_invoke_self, hfresh]
    rfl
  | none =>
    have heq := congrArg Prod.fst (subscribe_kept answer hrefused).2.2
    have hheld : Held key s.count (step answer s (.subscribe key)) := by
      show Held key s.count (s.subscribe answer key).1
      rw [heq] at hsound ⊢
      exact ⟨hsound, (List.perm_orderedInsert _ _ _).mem_iff.mpr List.mem_cons_self⟩
    obtain ⟨more, hmore, hheard⟩ := heard_after (step answer) (address key) (calls ·.log s.count)
      (Held key s.count) (Gone · s.count)
      (fun _ _ hh he => step_quiet answer hh he) (fun _ _ _ hh he => step_told answer hh he)
      (fun _ _ _ hh he => step_ended answer hh he) (fun _ e hg => step_gone answer hg e) hheld rest
    have hnone : calls (step answer s (.subscribe key)).log s.count = [] := by
      show calls (s.subscribe answer key).1.log s.count = _
      rw [heq]
      exact hfresh
    rw [hmore, hnone]
    exact hheard

end Desubscriber

/-- Behind any calls, a handler that is subscribed is called once to refuse it, where there was
a stop or, by key, where there is one under its own, or with each note up to the stop that it is
sent while it returns true. -/
theorem subscriptions_served {Key Args : Type} [LinearOrder Key] [Inhabited Args]
    (answer : Answer Args) :
    (∀ events rest : List (Event Args), let s := after Subscriber.step {} events
      s.stopped = events.any Event.isStop ∧
        calls (after Subscriber.step s (.subscribe :: rest)).log s.count =
          if s.stopped then [(⟨.subscriberStopped, default⟩, true)]
          else (notes address rest).map (·, true)) ∧
    (∀ events rest : List (Event Args), let s := after (Unsubscriber.step answer) {} events
      s.stopped = events.any Event.isStop ∧
        Served s.refusal (notes address rest)
          (calls (after (Unsubscriber.step answer) s (.subscribe :: rest)).log s.count)) ∧
    ∀ (events rest : List (Desubscriber.Event Key Args)) (key : Key),
      let s := after (Desubscriber.step answer) {} events
      s.stopped = events.any Desubscriber.Event.isStop ∧
        (s.map.Pairwise fun x y => x.1 < y.1) ∧
        Served (s.refusal key) (notes (Desubscriber.address key) rest)
          (calls (after (Desubscriber.step answer) s (.subscribe key :: rest)).log s.count) := by
  refine ⟨fun events rest => ?_, fun events rest => ?_, fun events rest key => ?_⟩
  · intro s
    have hs : s.unsubscriber = after (Unsubscriber.step Subscriber.stays) {} events :=
      Subscriber.unsubscriber_after {} events
    have hstopped := Unsubscriber.stopped_after Subscriber.stays {} events
    have hsound := Unsubscriber.sound_after Subscriber.stays Unsubscriber.sound_empty events
    rw [← hs] at hstopped hsound
    have hstays := Subscriber.stays_after (s := {}) (fun _ hmem => absurd hmem List.not_mem_nil) events
    exact ⟨hstopped, Subscriber.calls_after hsound hstays rest⟩
  · intro s
    have hsound := Unsubscriber.sound_after answer Unsubscriber.sound_empty events
    exact ⟨Unsubscriber.stopped_after answer {} events, Unsubscriber.served_after answer hsound rest⟩
  · intro s
    have hsound := Desubscriber.sound_after answer Desubscriber.sound_empty events
    exact ⟨Desubscriber.stopped_after answer Desubscriber.sound_empty events, hsound.sorted,
      Desubscriber.served_after answer hsound key rest⟩

end BitcoinNetwork.Net.Subscribers
