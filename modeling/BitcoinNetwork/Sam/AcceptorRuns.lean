import BitcoinNetwork.Sam.Acceptor
import Mathlib.Data.List.Induction
import Mathlib.Data.List.Range

/-!
# The life of a sam acceptor (net/acceptor_sam.cpp)

A run meets its purpose exactly where no close report falls to a later session or to an accept
that waits for the listener, no forward is ready behind the close of its session, and a stop
finds no reply outstanding and precedes no connection.
-/

namespace BitcoinNetwork.Sam
open Async Http

namespace Stage

/-- A reply of the bridge is outstanding. -/
def exchanging : Stage → Bool
  | .sessionHello _ | .sessionCreate _ | .forwardHello _ | .forwardStatus _ => true
  | _ => false

/-- The control socket that an accept is to make ready, or to stop. -/
def socket : Stage → Option ℕ
  | .sessionHello k | .sessionCreate k | .sessionReady k | .forwardHello k | .forwardStatus k
  | .forwardReady k | .failed k _ => some k
  | _ => none

/-- The session is being made. -/
def creating : Stage → Bool
  | .sessionConnect | .sessionHello _ | .sessionCreate _ | .sessionReady _ => true
  | _ => false

/-- The session or its forward is being made, or failed to be. -/
def establishing : Stage → Bool
  | .sessionConnect | .sessionHello _ | .sessionCreate _ | .sessionReady _ | .forwardConnect
  | .forwardHello _ | .forwardStatus _ | .forwardReady _ | .failed _ _ => true
  | _ => false

def pending (stage : Stage) : ℕ := if stage = .idle then 0 else 1

end Stage

namespace Acceptor

/-- The handlers that an accept called. -/
def calls (s : Acceptor) (number : ℕ) : List Call :=
  (s.completions.filter (·.number = number)).flatMap Completion.calls

/-- Each accept that is not pending called its handlers once. A forward is set beside the
session that it was registered with. A close report tears down the session that it is of. An
accept waits for the listener behind a forward, until the acceptor is stopped, and then no
control socket is left but one that a posted job stops. -/
structure Lifecycle (s : Acceptor) : Prop where
  once : ∀ n < s.accepts - s.stage.pending, ∃ paired ec, s.calls n = Completion.calls ⟨n, paired, ec⟩
  waits : ∀ n, s.accepts - s.stage.pending ≤ n → s.calls n = []
  forward : ∀ f, s.forward = some f → ∃ k, s.session = some k ∧ s.registered f = s.created k
  own : ∀ t ∈ s.teardowns, t.session = some t.socket ∨ t.forward = some t.socket
  listening : s.stopped = false → s.stage = .listening → s.forward.isSome = true
  released : s.stopped = true → ∀ k < s.opened, s.halted k = false →
    s.stage.socket = some k ∧ s.stage.exchanging = false

/-- A close report finds nothing, or the session that it is of and no accept that waits for the
listener; a forward is ready while a session is set; a stop finds no reply outstanding; and no
connection is made behind it. -/
def Sound (s : Acceptor) : Event → Prop
  | .close k => k ∈ s.closes → s.session = none ∧ s.forward = none ∨
      (s.session = some k ∨ s.forward = some k) ∧ s.stage ≠ .listening
  | .job => ∀ k, s.stage = .forwardReady k → s.stopped = true ∨ s.session.isSome = true
  | .stop => s.stage.exchanging = false
  | .connected ec => ec = .success → s.stage = .sessionConnect ∨ s.stage = .forwardConnect →
      s.stopped = false
  | _ => True

/-! ### The invariant -/

structure Inv (s : Acceptor) : Prop where
  numbers : s.completions.map Completion.number = List.range s.completions.length
  count : s.completions.length + s.stage.pending = s.accepts
  creating : s.stage.creating = true → s.session = none
  establishing : s.stage.establishing = true → s.forward = none
  created : ∀ k, s.stage = .sessionCreate k ∨ s.stage = .sessionReady k → s.created k = s.id
  current : s.stage.establishing = true → ∀ k, s.session = some k → s.created k = s.id
  registered : ∀ f, s.stage = .forwardStatus f ∨ s.stage = .forwardReady f → s.registered f = s.id
  forward : ∀ f, s.forward = some f → ∃ k, s.session = some k ∧ s.registered f = s.created k
  own : ∀ t ∈ s.teardowns, t.session = some t.socket ∨ t.forward = some t.socket
  listening : s.stopped = false → s.stage = .listening → s.forward.isSome = true
  unset : s.stopped = true → s.session = none ∧ s.forward = none
  quiet : s.stopped = true → s.stage.exchanging = false
  unstopped : ∀ k < s.opened, s.halted k = false →
    s.session = some k ∨ s.forward = some k ∨ s.stage.socket = some k
  live : ∀ k, s.stage.socket = some k → k < s.opened ∧ s.halted k = false ∧ s.session ≠ some k
  bound : ∀ k, s.session = some k ∨ s.forward = some k → k < s.opened
  fresh : ∀ k, s.opened ≤ k → s.halted k = false

theorem create_inv : Inv {} where
  numbers := rfl
  count := rfl
  creating h := by cases h
  establishing h := by cases h
  created _ h := by rcases h with h | h <;> cases h
  current h := by cases h
  registered _ h := by rcases h with h | h <;> cases h
  forward _ h := by cases h
  own _ h := by cases h
  listening _ h := by cases h
  unset h := by cases h
  quiet h := by cases h
  unstopped _ h := absurd h (Nat.not_lt_zero _)
  live _ h := by cases h
  bound _ h := by rcases h with h | h <;> cases h
  fresh _ _ := rfl

section
variable {cfg : Settings} {s : Acceptor}

/-- Where completions are numbered in order, each number is that of one. -/
theorem filter_number {completions : List Completion}
    (h : completions.map Completion.number = List.range completions.length) (n : ℕ) :
    (n < completions.length → ∃ c, c.number = n ∧ completions.filter (·.number = n) = [c]) ∧
      (completions.length ≤ n → completions.filter (·.number = n) = []) := by
  induction completions using List.reverseRecOn with
  | nil => exact ⟨fun hn => absurd hn (Nat.not_lt_zero _), fun _ => rfl⟩
  | append_singleton completions c ih =>
    rw [List.map_append, List.length_append, List.length_singleton, List.range_succ] at h
    obtain ⟨hinit, hlast⟩ := List.append_inj' h rfl
    have hnumber : c.number = completions.length := List.singleton_injective hlast
    obtain ⟨hbelow, habove⟩ := ih hinit
    rw [List.filter_append, List.length_append, List.length_singleton]
    rcases Nat.lt_trichotomy n completions.length with hlt | heq | hgt
    · obtain ⟨before, hbefore, hfilter⟩ := hbelow hlt
      refine ⟨fun _ => ⟨before, hbefore, ?_⟩, fun hle => by omega⟩
      rw [hfilter, List.filter_singleton, decide_eq_false (by omega), cond_false, List.append_nil]
    · refine ⟨fun _ => ⟨c, hnumber.trans heq.symm, ?_⟩, fun hle => by omega⟩
      rw [habove (Nat.le_of_eq heq.symm), List.filter_singleton, decide_eq_true (by omega), cond_true, List.nil_append]
    · refine ⟨fun hle => by omega, fun _ => ?_⟩
      rw [habove (Nat.le_of_lt hgt), List.filter_singleton, decide_eq_false (by omega), cond_false, List.nil_append]

theorem establishing_of_socket {stage : Stage} {k : ℕ} (h : stage.socket = some k) :
    stage.establishing = true := by
  cases stage <;> first | rfl | cases h

theorem Inv.lifecycle (h : Inv s) : Lifecycle s where
  once n hn := by
    have hcount := h.count
    obtain ⟨c, hnumber, hc⟩ := (filter_number h.numbers n).1 (by omega)
    refine ⟨c.paired, c.ec, ?_⟩
    unfold calls
    rw [hc, ← hnumber, List.flatMap_singleton]
  waits n hn := by
    have hcount := h.count
    unfold calls
    rw [(filter_number h.numbers n).2 (by omega), List.flatMap_nil]
  forward := h.forward
  own := h.own
  listening := h.listening
  released hstopped k hk hhalted := by
    obtain ⟨hsession, hforward⟩ := h.unset hstopped
    refine ⟨?_, h.quiet hstopped⟩
    rcases h.unstopped k hk hhalted with hk | hk | hk
    · rw [hsession] at hk
      cases hk
    · rw [hforward] at hk
      cases hk
    · exact hk

/-- The handler of the accept that is pending is called, with its control socket stopped. -/
theorem Inv.over (h : Inv s) (hstage : s.stage ≠ .idle) {halted : ℕ → Bool}
    (hhalted : ∀ k, halted k = false → s.halted k = false ∧ s.stage.socket ≠ some k)
    (hfresh : ∀ k, s.opened ≤ k → halted k = false) (ec : Code) :
    Inv (Acceptor.complete { s with halted := halted } ec) := by
  have hnumbers := h.numbers
  have hcount : s.completions.length + 1 = s.accepts := by
    have hcount := h.count
    unfold Stage.pending at hcount
    rwa [if_neg hstage] at hcount
  exact {
    numbers := by
      show (s.completions ++ [_]).map _ = List.range (s.completions ++ [_]).length
      rw [List.map_append, hnumbers, List.length_append, List.length_singleton, List.range_succ]
      rw [List.map_singleton, show s.accepts - 1 = s.completions.length by omega]
    count := by
      show (s.completions ++ [_]).length + 0 = s.accepts
      rw [List.length_append, List.length_singleton]
      exact hcount
    creating := fun h => by cases h
    establishing := fun h => by cases h
    created := fun _ h => by rcases h with h | h <;> cases h
    current := fun h => by cases h
    registered := fun _ h => by rcases h with h | h <;> cases h
    forward := h.forward
    own := h.own
    listening := fun _ h => by cases h
    unset := h.unset
    quiet := fun _ => rfl
    unstopped := fun k hk hfalse => by
      obtain ⟨hself, hsocket⟩ := hhalted k hfalse
      rcases h.unstopped k hk hself with hsession | hforward | hsame
      · exact .inl hsession
      · exact .inr (.inl hforward)
      · exact absurd hsame hsocket
    live := fun _ hk => by cases hk
    bound := h.bound
    fresh := hfresh }

theorem Inv.complete (h : Inv s) (hstage : s.stage ≠ .idle) (hsocket : s.stage.socket = none) (ec : Code) :
    Inv (s.complete ec) :=
  h.over hstage (fun k hk => ⟨hk, by rw [hsocket]; simp⟩) h.fresh ec

/-- The control socket of an accept is stopped, and then its handler is called. -/
theorem Inv.abandon (h : Inv s) {k : ℕ} (hstage : s.stage.socket = some k) (ec : Code) :
    Inv ((s.halt k).complete ec) := by
  have hlive := (h.live k hstage).1
  refine h.over (fun hidle => ?_) (fun j hj => ?_) (fun j hj => ?_) ec
  · rw [hidle] at hstage
    cases hstage
  · by_cases hjk : j = k
    · rw [hjk, Function.update_self] at hj
      cases hj
    · rw [Function.update_of_ne hjk] at hj
      refine ⟨hj, fun hsame => hjk ?_⟩
      exact Option.some.inj (hsame.symm.trans hstage)
  · rw [Function.update_of_ne (by omega)]
    exact h.fresh j hj

/-- An accept goes on by the same control socket, or by none. -/
theorem Inv.advance (h : Inv s) {stage : Stage} {created registered : ℕ → ℕ}
    (hidle : s.stage ≠ .idle ∧ stage ≠ .idle) (hsocket : stage.socket = s.stage.socket)
    (hcreating : stage.creating = true → s.stage.creating = true)
    (hestablishing : stage.establishing = true → s.stage.establishing = true)
    (hcreated : ∀ k, stage = .sessionCreate k ∨ stage = .sessionReady k → created k = s.id)
    (hregistered : ∀ f, stage = .forwardStatus f ∨ stage = .forwardReady f → registered f = s.id)
    (hsession : ∀ k, s.session = some k → created k = s.created k)
    (hforward : ∀ f, s.forward = some f → registered f = s.registered f)
    (hlistening : stage ≠ .listening) (hquiet : stage.exchanging = true → s.stage.exchanging = true) :
    Inv { s with stage := stage, created := created, registered := registered } where
  numbers := h.numbers
  count := by
    have hcount := h.count
    unfold Stage.pending at hcount ⊢
    rw [if_neg hidle.1] at hcount
    rw [if_neg hidle.2]
    exact hcount
  creating hc := h.creating (hcreating hc)
  establishing he := h.establishing (hestablishing he)
  created := hcreated
  current he k hk := (hsession k hk).trans (h.current (hestablishing he) k hk)
  registered := hregistered
  forward f hf := by
    obtain ⟨k, hk, hids⟩ := h.forward f hf
    exact ⟨k, hk, (hforward f hf).trans (hids.trans (hsession k hk).symm)⟩
  own := h.own
  listening _ hl := absurd hl hlistening
  unset := h.unset
  quiet hstopped := by
    by_contra hex
    have := h.quiet hstopped
    rw [hquiet ((Bool.not_eq_false _).mp hex)] at this
    cases this
  unstopped k hk hhalted := by
    rw [hsocket]
    exact h.unstopped k hk hhalted
  live k hk := h.live k (hsocket.symm.trans hk)
  bound := h.bound
  fresh := h.fresh

/-- The control socket of an accept fails, and is to be stopped. -/
theorem Inv.handleAccept (h : Inv s) {k : ℕ} (hstage : s.stage.socket = some k)
    (hestablishing : s.stage.establishing = true) (ec : Code) : Inv (s.handleAccept k ec) :=
  h.advance ⟨(fun hidle => by rw [hidle] at hstage; cases hstage), by simp⟩ hstage.symm (fun hc => by cases hc)
    (fun _ => hestablishing) (fun _ hs => by rcases hs with hs | hs <;> cases hs)
    (fun _ hs => by rcases hs with hs | hs <;> cases hs) (fun _ _ => rfl) (fun _ _ => rfl) (by simp)
    fun hex => by cases hex

/-- An accept goes on by a stream. -/
theorem Inv.stream (h : Inv s) {stage : Stage} (hidle : s.stage ≠ .idle) (hsocket : s.stage.socket = none)
    (hstage : stage = .peer ∨ stage = .handshake ∨ ∃ ec, stage = .accepted ec) :
    Inv { s with stage := stage } := by
  have hother : stage ≠ .idle ∧ stage.socket = none ∧ stage.creating = false ∧ stage.establishing = false ∧
      stage ≠ .listening ∧ stage.exchanging = false ∧ ∀ k, stage ≠ .sessionCreate k ∧
        stage ≠ .sessionReady k ∧ stage ≠ .forwardStatus k ∧ stage ≠ .forwardReady k := by
    rcases hstage with rfl | rfl | ⟨ec, rfl⟩ <;> simp [Stage.socket, Stage.creating, Stage.establishing, Stage.exchanging]
  obtain ⟨hne, hnone, hcreating, hestablishing, hlistening, hquiet, hstages⟩ := hother
  refine h.advance ⟨hidle, hne⟩ (hnone.trans hsocket.symm) (fun hc => ?_) (fun he => ?_) (fun k hk => ?_)
    (fun k hk => ?_) (fun _ _ => rfl) (fun _ _ => rfl) hlistening fun hex => ?_
  · rw [hcreating] at hc
    cases hc
  · rw [hestablishing] at he
    cases he
  · exact absurd hk (not_or.mpr ⟨(hstages k).1, (hstages k).2.1⟩)
  · exact absurd hk (not_or.mpr (hstages k).2.2)
  · rw [hquiet] at hex
    cases hex

theorem doTeardown_eq (s : Acceptor) : ∃ halted, s.doTeardown = { s with
    halted := halted, forward := none, session := none } ∧
      ∀ k, halted k = false ↔ s.halted k = false ∧ s.session ≠ some k ∧ s.forward ≠ some k := by
  refine ⟨s.doTeardown.halted, ?_, fun k => ?_⟩
  · unfold doTeardown haltIf Acceptor.halt
    cases s.forward with
    | none => cases s.session <;> rfl
    | some f => cases s.session <;> rfl
  · unfold doTeardown haltIf Acceptor.halt
    cases hforward : s.forward with
    | none =>
      cases hsession : s.session with
      | none => simp
      | some j =>
        by_cases hkj : k = j
        · simp [hkj]
        · simp [hkj, Ne.symm hkj]
    | some f =>
      cases hsession : s.session with
      | none =>
        by_cases hkf : k = f
        · simp [hkf]
        · simp [hkf, Ne.symm hkf]
      | some j =>
        by_cases hkj : k = j
        · simp [hkj]
        · by_cases hkf : k = f
          · subst hkf
            simp [Function.update_of_ne hkj]
          · simp [hkj, hkf, Ne.symm hkj, Ne.symm hkf]

/-- The session and its forward are stopped, where the acceptor is or no accept waits for the
listener. -/
theorem Inv.unsetBoth (h : Inv s) {stopped : Bool} (hlistening : stopped = true ∨ s.stage ≠ .listening)
    (hquiet : stopped = true → s.stage.exchanging = false) : Inv { s.doTeardown with stopped := stopped } := by
  obtain ⟨halted, heq, hhalted⟩ := doTeardown_eq s
  rw [heq]
  exact { h with
    creating := fun _ => rfl
    establishing := fun _ => rfl
    current := fun _ _ hk => by cases hk
    forward := fun _ hf => by cases hf
    listening := fun hstopped hl => by
      rcases hlistening with htrue | hne
      · rw [show stopped = false from hstopped] at htrue
        cases htrue
      · exact absurd hl hne
    unset := fun _ => ⟨rfl, rfl⟩
    quiet := hquiet
    unstopped := fun k hk hfalse => by
      obtain ⟨hself, hsession, hforward⟩ := (hhalted k).mp hfalse
      rcases h.unstopped k hk hself with hk | hk | hk
      · exact absurd hk hsession
      · exact absurd hk hforward
      · exact .inr (.inr hk)
    live := fun k hk => by
      obtain ⟨hlt, hself, hsession⟩ := h.live k hk
      have hforward := h.establishing (establishing_of_socket hk)
      exact ⟨hlt, (hhalted k).mpr ⟨hself, hsession, by rw [hforward]; simp⟩, by simp⟩
    bound := fun _ hk => by rcases hk with hk | hk <;> cases hk
    fresh := fun k hk => (hhalted k).mpr ⟨h.fresh k hk,
      fun hsession => absurd (h.bound k (.inl hsession)) (Nat.not_lt.mpr hk),
      fun hforward => absurd (h.bound k (.inr hforward)) (Nat.not_lt.mpr hk)⟩ }

theorem Inv.teardown (h : Inv s) (hlistening : s.stopped = true ∨ s.stage ≠ .listening) : Inv s.doTeardown := by
  have hsame := h.unsetBoth hlistening h.quiet
  obtain ⟨halted, heq, -⟩ := doTeardown_eq s
  rw [heq] at hsame ⊢
  exact hsame

/-- A connection is made, by a control socket that is new. -/
theorem Inv.openSocket (h : Inv s) {stage : Stage} (hstopped : s.stopped = false)
    (hstage : s.stage = .sessionConnect ∧ stage = .sessionHello s.opened ∨
      s.stage = .forwardConnect ∧ stage = .forwardHello s.opened) :
    Inv { s.openSocket with stage := stage } := by
  have hcount := h.count
  have hcreating := h.creating
  have hestablishing := h.establishing
  have hcurrent := h.current
  have hunstopped := h.unstopped
  have hsocket : stage.socket = some s.opened ∧ s.stage.socket = none := by
    rcases hstage with ⟨hs, rfl⟩ | ⟨hs, rfl⟩ <;> rw [hs] <;> exact ⟨rfl, rfl⟩
  exact { h with
    count := by
      show s.completions.length + stage.pending = s.accepts
      rw [← hcount]
      rcases hstage with ⟨hs, rfl⟩ | ⟨hs, rfl⟩ <;> rw [hs] <;> rfl
    creating := fun hc => by
      rcases hstage with ⟨hs, rfl⟩ | ⟨hs, rfl⟩
      · exact hcreating (by rw [hs]; rfl)
      · cases hc
    establishing := fun _ => hestablishing (by rcases hstage with ⟨hs, rfl⟩ | ⟨hs, rfl⟩ <;> rw [hs] <;> rfl)
    created := fun k hk => by rcases hstage with ⟨-, rfl⟩ | ⟨-, rfl⟩ <;> rcases hk with hk | hk <;> cases hk
    current := fun _ => hcurrent (by rcases hstage with ⟨hs, rfl⟩ | ⟨hs, rfl⟩ <;> rw [hs] <;> rfl)
    registered := fun f hf => by rcases hstage with ⟨-, rfl⟩ | ⟨-, rfl⟩ <;> rcases hf with hf | hf <;> cases hf
    listening := fun _ hl => by rcases hstage with ⟨-, rfl⟩ | ⟨-, rfl⟩ <;> cases hl
    quiet := fun htrue => by
      rw [show s.stopped = true from htrue] at hstopped
      cases hstopped
    unstopped := fun k hk hhalted => by
      by_cases hnew : k = s.opened
      · exact .inr (.inr (by rw [hnew]; exact hsocket.1))
      · have hlt : k < s.opened + 1 := hk
        rcases hunstopped k (by omega) hhalted with hk | hk | hk
        · exact .inl hk
        · exact .inr (.inl hk)
        · rw [hsocket.2] at hk
          cases hk
    live := fun k hk => by
      have hsame : s.opened = k := Option.some.inj (hsocket.1.symm.trans hk)
      rw [← hsame]
      exact ⟨Nat.lt_succ_self _, h.fresh _ (Nat.le_refl _), fun hsession =>
        absurd (h.bound _ (.inl hsession)) (Nat.lt_irrefl _)⟩
    bound := fun k hk => Nat.lt_succ_of_lt (h.bound k hk)
    fresh := fun k hk => h.fresh k (Nat.le_of_succ_le hk) }

/-! ### Steps -/

/-- An accept is called, and is pending. -/
theorem Inv.begin (h : Inv s) (hidle : s.stage = .idle) (paired : Bool) :
    Inv { s with accepts := s.accepts + 1, paired := paired, stage := .peer } := by
  have hcount := h.count
  have hunstopped := h.unstopped
  rw [hidle] at hcount hunstopped
  exact { h with
    count := by
      show s.completions.length + 1 = s.accepts + 1
      rw [← hcount]
      rfl
    creating := fun hc => by cases hc
    establishing := fun he => by cases he
    created := fun _ hs => by rcases hs with hs | hs <;> cases hs
    current := fun he => by cases he
    registered := fun _ hs => by rcases hs with hs | hs <;> cases hs
    listening := fun _ hl => by cases hl
    quiet := fun _ => rfl
    unstopped := hunstopped
    live := fun _ hk => by cases hk }

theorem Inv.listen (h : Inv s) (hstage : s.stage = .peer) (hforward : s.forward.isSome = true) :
    Inv { s with stage := .listening } := by
  have hcount := h.count
  have hunstopped := h.unstopped
  rw [hstage] at hcount hunstopped
  exact { h with
    count := hcount
    creating := fun hc => by cases hc
    establishing := fun he => by cases he
    created := fun _ hs => by rcases hs with hs | hs <;> cases hs
    current := fun he => by cases he
    registered := fun _ hs => by rcases hs with hs | hs <;> cases hs
    listening := fun _ _ => hforward
    quiet := fun _ => rfl
    unstopped := hunstopped
    live := fun _ hk => by cases hk }

theorem Inv.accept (h : Inv s) (hidle : s.stage = .idle) (paired : Bool) (id : ℕ) : Inv (s.accept paired id) := by
  have hbegin := h.begin hidle paired
  have hcomplete (ec : Code) := hbegin.complete (by simp) rfl ec
  unfold Acceptor.accept
  dsimp only
  split
  · exact hcomplete .serviceStopped
  · next hstopped =>
    split
    · exact hcomplete .serviceSuspended
    · next hsuspended =>
      split
      · next hforward =>
        unfold Acceptor.listen
        rw [if_neg hstopped, if_neg hsuspended]
        exact hbegin.listen rfl hforward
      · have hteardown := hbegin.teardown (.inr (by simp))
        obtain ⟨halted, heq, hhalted⟩ := doTeardown_eq { s with accepts := s.accepts + 1, paired := paired }
        obtain ⟨halted', heq', hhalted'⟩ :=
          doTeardown_eq { s with accepts := s.accepts + 1, paired := paired, stage := .peer }
        have hsame : halted = halted' := by
          funext k
          have := (hhalted k).trans (hhalted' k).symm
          cases hk : halted k <;> cases hk' : halted' k <;> simp_all
        rw [heq]
        rw [heq', ← hsame] at hteardown
        exact { hteardown with
          count := hteardown.count
          creating := fun _ => rfl
          establishing := fun _ => rfl
          created := fun _ hs => by rcases hs with hs | hs <;> cases hs
          current := fun _ _ hk => by cases hk
          registered := fun _ hs => by rcases hs with hs | hs <;> cases hs
          listening := fun _ hl => by cases hl
          quiet := fun _ => rfl
          unstopped := hteardown.unstopped
          live := fun _ hk => by cases hk }

theorem Inv.handleSessionConnect (h : Inv s) (hstage : s.stage = .sessionConnect) {ec : Code}
    (hsound : ec = .success → s.stopped = false) : Inv (s.handleSessionConnect ec) := by
  unfold Acceptor.handleSessionConnect
  split
  · exact h.complete (by rw [hstage]; simp) (by rw [hstage]; rfl) ec
  · next hsuccess => exact h.openSocket (hsound (not_not.mp hsuccess)) (.inl ⟨hstage, rfl⟩)

theorem Inv.handleForwardConnect (h : Inv s) (hstage : s.stage = .forwardConnect) {ec : Code}
    (hsound : ec = .success → s.stopped = false) : Inv (s.handleForwardConnect ec) := by
  unfold Acceptor.handleForwardConnect
  split
  · have hteardown := h.teardown (.inr (by rw [hstage]; simp))
    have hsame : s.doTeardown.stage = .forwardConnect := by
      obtain ⟨halted, heq, -⟩ := doTeardown_eq s
      rw [heq]
      exact hstage
    exact hteardown.complete (by rw [hsame]; simp) (by rw [hsame]; rfl) ec
  · next hsuccess => exact h.openSocket (hsound (not_not.mp hsuccess)) (.inr ⟨hstage, rfl⟩)

theorem Inv.handleSessionHello (h : Inv s) {k : ℕ} (hstage : s.stage = .sessionHello k) (line : Text) :
    Inv (s.handleSessionHello k line) := by
  have hsession : s.session = none := h.creating (by rw [hstage]; rfl)
  unfold Acceptor.handleSessionHello
  split
  · exact h.advance ⟨by rw [hstage]; simp, by simp⟩ (by rw [hstage]; rfl) (fun _ => by rw [hstage]; rfl)
      (fun _ => by rw [hstage]; rfl)
      (fun j hj => by
        rcases hj with hj | hj
        · cases hj
          exact Function.update_self _ _ _
        · cases hj)
      (fun _ hs => by rcases hs with hs | hs <;> cases hs)
      (fun j hj => by rw [hsession] at hj; cases hj) (fun _ _ => rfl) (by simp) (fun _ => by rw [hstage]; rfl)
  · exact h.handleAccept (by rw [hstage]; rfl) (by rw [hstage]; rfl) _

theorem Inv.handleSessionCreate (h : Inv s) {k : ℕ} (hstage : s.stage = .sessionCreate k) (line : Text)
    (saved : Bool) : Inv (s.handleSessionCreate cfg k line saved) := by
  have hfail (ec : Code) : Inv (s.handleAccept k ec) := h.handleAccept (by rw [hstage]; rfl) (by rw [hstage]; rfl) ec
  unfold Acceptor.handleSessionCreate
  split
  · dsimp only
    split
    · exact hfail _
    · split
      · exact hfail _
      · exact h.advance ⟨by rw [hstage]; simp, by simp⟩ (by rw [hstage]; rfl) (fun _ => by rw [hstage]; rfl)
          (fun _ => by rw [hstage]; rfl)
          (fun j hj => by
            rcases hj with hj | hj
            · cases hj
            · cases hj
              exact h.created k (.inl hstage))
          (fun _ hs => by rcases hs with hs | hs <;> cases hs) (fun _ _ => rfl) (fun _ _ => rfl) (by simp)
          (fun hex => by cases hex)
  · exact hfail _

theorem Inv.handleForwardHello (h : Inv s) {f : ℕ} (hstage : s.stage = .forwardHello f) (line : Text) :
    Inv (s.handleForwardHello f line) := by
  have hforward : s.forward = none := h.establishing (by rw [hstage]; rfl)
  unfold Acceptor.handleForwardHello
  split
  · exact h.advance ⟨by rw [hstage]; simp, by simp⟩ (by rw [hstage]; rfl) (fun hc => by cases hc)
      (fun _ => by rw [hstage]; rfl)
      (fun _ hs => by rcases hs with hs | hs <;> cases hs)
      (fun j hj => by
        rcases hj with hj | hj
        · cases hj
          exact Function.update_self _ _ _
        · cases hj)
      (fun _ _ => rfl) (fun j hj => by rw [hforward] at hj; cases hj) (by simp) (fun _ => by rw [hstage]; rfl)
  · exact h.handleAccept (by rw [hstage]; rfl) (by rw [hstage]; rfl) _

theorem Inv.handleForwardStatus (h : Inv s) {f : ℕ} (hstage : s.stage = .forwardStatus f) (line : Text) :
    Inv (s.handleForwardStatus f line) := by
  unfold Acceptor.handleForwardStatus
  split
  · exact h.advance ⟨by rw [hstage]; simp, by simp⟩ (by rw [hstage]; rfl) (fun hc => by cases hc)
      (fun _ => by rw [hstage]; rfl)
      (fun _ hs => by rcases hs with hs | hs <;> cases hs)
      (fun j hj => by
        rcases hj with hj | hj
        · cases hj
        · cases hj
          exact h.registered f (.inl hstage))
      (fun _ _ => rfl) (fun _ _ => rfl) (by simp) (fun hex => by cases hex)
  · exact h.handleAccept (by rw [hstage]; rfl) (by rw [hstage]; rfl) _

/-- The session is set, and its control socket is watched. -/
theorem Inv.doSessionReady (h : Inv s) {k : ℕ} (hstage : s.stage = .sessionReady k) : Inv (s.doSessionReady k) := by
  have hcount := h.count
  have hforward : s.forward = none := h.establishing (by rw [hstage]; rfl)
  have hsession : s.session = none := h.creating (by rw [hstage]; rfl)
  have hunstopped := h.unstopped
  rw [hstage] at hcount hunstopped
  unfold Acceptor.doSessionReady
  split
  · exact h.abandon (by rw [hstage]; rfl) .serviceStopped
  · next hstopped =>
    exact { h with
      count := hcount
      creating := fun hc => by cases hc
      establishing := fun _ => hforward
      created := fun _ hs => by rcases hs with hs | hs <;> cases hs
      current := fun _ j hj => by
        cases hj
        exact h.created k (.inr hstage)
      registered := fun _ hs => by rcases hs with hs | hs <;> cases hs
      forward := fun f hf => by
        rw [show s.forward = some f from hf] at hforward
        cases hforward
      listening := fun _ hl => by cases hl
      unset := fun htrue => absurd htrue hstopped
      quiet := fun _ => rfl
      unstopped := fun j hj hhalted => by
        rcases hunstopped j hj hhalted with hs | hf | hself
        · rw [hsession] at hs
          cases hs
        · exact .inr (.inl hf)
        · exact .inl hself
      live := fun _ hk => by cases hk
      bound := fun j hj => by
        rcases hj with hj | hj
        · cases hj
          exact (h.live k (by rw [hstage]; rfl)).1
        · exact h.bound j (.inr hj) }

/-- The forward is set beside its session, and the accept waits for the listener. -/
theorem Inv.doForwardReady (h : Inv s) {f : ℕ} (hstage : s.stage = .forwardReady f)
    (hsound : s.stopped = true ∨ s.session.isSome = true) : Inv (s.doForwardReady f) := by
  have hcount := h.count
  have hforward : s.forward = none := h.establishing (by rw [hstage]; rfl)
  have hunstopped := h.unstopped
  rw [hstage] at hcount hunstopped
  unfold Acceptor.doForwardReady
  split
  · exact h.abandon (by rw [hstage]; rfl) .serviceStopped
  · next hstopped =>
    have hset : Inv { s with
        forward := some f, watched := Function.update s.watched f true, stage := .listening } := { h with
      count := hcount
      creating := fun hc => by cases hc
      establishing := fun he => by cases he
      created := fun _ hs => by rcases hs with hs | hs <;> cases hs
      current := fun he => by cases he
      registered := fun _ hs => by rcases hs with hs | hs <;> cases hs
      forward := fun j hj => by
        cases hj
        obtain ⟨k, hk⟩ := Option.isSome_iff_exists.mp (hsound.resolve_left hstopped)
        exact ⟨k, hk, (h.registered f (.inr hstage)).trans (h.current (by rw [hstage]; rfl) k hk).symm⟩
      listening := fun _ _ => rfl
      unset := fun htrue => absurd htrue hstopped
      quiet := fun _ => rfl
      unstopped := fun j hj hhalted => by
        rcases hunstopped j hj hhalted with hs | hf | hself
        · exact .inl hs
        · rw [hforward] at hf
          cases hf
        · exact .inr (.inl hself)
      live := fun _ hk => by cases hk
      bound := fun j hj => by
        rcases hj with hj | hj
        · exact h.bound j (.inl hj)
        · cases hj
          exact (h.live f (by rw [hstage]; rfl)).1 }
    unfold Acceptor.listen Acceptor.watch
    dsimp only
    rw [if_neg hstopped]
    split
    · exact hset.complete (by simp) rfl .serviceSuspended
    · exact hset

theorem Inv.doHandleAccept (h : Inv s) (hstage : s.stage ≠ .idle) (hsocket : s.stage.socket = none) (ec : Code) :
    Inv (s.doHandleAccept ec) := by
  have hcomplete (ec : Code) : Inv (s.complete ec) :=
    h.complete hstage hsocket ec
  unfold Acceptor.doHandleAccept
  split
  · exact hcomplete ec
  · split
    · exact hcomplete .serviceSuspended
    · split
      · exact hcomplete .serviceStopped
      · exact hcomplete .success

theorem Inv.handleLine (h : Inv s) (line : Text) (saved : Bool) : Inv (s.handleLine cfg line saved) := by
  unfold Acceptor.handleLine
  split
  · next k hstage =>
    split
    · exact h.handleAccept (by rw [hstage]; rfl) (by rw [hstage]; rfl) _
    · exact h.handleSessionHello hstage line
  · next k hstage =>
    split
    · exact h.handleAccept (by rw [hstage]; rfl) (by rw [hstage]; rfl) _
    · exact h.handleSessionCreate hstage line saved
  · next k hstage =>
    split
    · exact h.handleAccept (by rw [hstage]; rfl) (by rw [hstage]; rfl) _
    · exact h.handleForwardHello hstage line
  · next k hstage =>
    split
    · exact h.handleAccept (by rw [hstage]; rfl) (by rw [hstage]; rfl) _
    · exact h.handleForwardStatus hstage line
  · next hstage =>
    have hstream {stage : Stage} := @Inv.stream _ h stage (by rw [hstage]; simp) (by rw [hstage]; rfl)
    split
    · exact hstream (.inr (.inr ⟨_, rfl⟩))
    · unfold Acceptor.handlePeer
      split
      · exact hstream (.inr (.inr ⟨_, rfl⟩))
      · split
        · exact hstream (.inr (.inr ⟨_, rfl⟩))
        · exact hstream (.inr (.inl rfl))
  · exact h

theorem Inv.handleFailure (h : Inv s) (ec : Code) : Inv (s.handleFailure ec) := by
  unfold Acceptor.handleFailure
  split
  · next k hstage => exact h.handleAccept (by rw [hstage]; rfl) (by rw [hstage]; rfl) ec
  · next k hstage => exact h.handleAccept (by rw [hstage]; rfl) (by rw [hstage]; rfl) ec
  · next k hstage => exact h.handleAccept (by rw [hstage]; rfl) (by rw [hstage]; rfl) ec
  · next k hstage => exact h.handleAccept (by rw [hstage]; rfl) (by rw [hstage]; rfl) ec
  · next hstage => exact h.stream (by rw [hstage]; simp) (by rw [hstage]; rfl) (.inr (.inr ⟨ec, rfl⟩))
  · exact h

theorem Inv.runJob (h : Inv s) (hsound : Sound s .job) : Inv s.runJob := by
  unfold Acceptor.runJob
  split
  · next k hstage => exact h.doSessionReady hstage
  · next f hstage => exact h.doForwardReady hstage (hsound f hstage)
  · next k ec hstage => exact h.abandon (by rw [hstage]; rfl) ec
  · next ec hstage => exact h.doHandleAccept (by rw [hstage]; simp) (by rw [hstage]; rfl) ec
  · exact h

/-- The close report of the session that is set tears it down. -/
theorem Inv.doClose (h : Inv s) {k : ℕ} (hsound : s.session = none ∧ s.forward = none ∨
    (s.session = some k ∨ s.forward = some k) ∧ s.stage ≠ .listening) : Inv (s.doClose k) := by
  unfold Acceptor.doClose
  split
  · exact h
  · next hset =>
    have hown : (s.session = some k ∨ s.forward = some k) ∧ s.stage ≠ .listening := by
      rcases hsound with ⟨hsession, hforward⟩ | hown
      · rw [hsession, hforward] at hset
        exact absurd rfl hset
      · exact hown
    have hlog : Inv { s with teardowns := s.teardowns ++ [⟨k, s.session, s.forward⟩] } := { h with
      own := fun t ht => by
        rcases List.mem_append.mp ht with ht | ht
        · exact h.own t ht
        · rw [List.mem_singleton.mp ht]
          exact hown.1 }
    exact hlog.teardown (.inr hown.2)

theorem step_inv (cfg : Settings) (s : Acceptor) (e : Event) (h : Inv s) (hsound : Sound s e) : Inv (s.step cfg e) := by
  cases e with
  | accept paired id =>
    dsimp only [step]
    split
    · next hidle => exact h.accept hidle paired id
    · exact h
  | connected ec =>
    dsimp only [step]
    split
    · next hstage => exact h.handleSessionConnect hstage fun hec => hsound hec (.inl hstage)
    · next hstage => exact h.handleForwardConnect hstage fun hec => hsound hec (.inr hstage)
    · exact h
  | line line saved => exact h.handleLine line saved
  | failed value => exact h.handleFailure (.other value)
  | job => exact h.runJob hsound
  | report k =>
    dsimp only [step]
    split
    · exact { h with }
    · exact h
  | close k =>
    dsimp only [step]
    split
    · next hmem =>
      have hposted : Inv { s with closes := s.closes.erase k } := { h with }
      exact hposted.doClose (hsound hmem)
    · exact h
  | forwarded ec =>
    dsimp only [step]
    split
    · next hstage =>
      unfold handleForwarded
      split
      · exact h.doHandleAccept (by rw [hstage]; simp) (by rw [hstage]; rfl) ec
      · exact h.stream (by rw [hstage]; simp) (by rw [hstage]; rfl) (.inl rfl)
    · exact h
  | shaken ec =>
    dsimp only [step]
    split
    · next hstage => exact h.stream (by rw [hstage]; simp) (by rw [hstage]; rfl) (.inr (.inr ⟨ec, rfl⟩))
    · exact h
  | suspend suspended => exact { h with }
  | stop => exact h.unsetBoth (.inl rfl) fun _ => hsound

/-! ### What a step that is not sound leads to -/

theorem unset_doTeardown (s : Acceptor) : s.doTeardown.session = none ∧ s.doTeardown.forward = none ∧
    s.doTeardown.stopped = s.stopped ∧ s.doTeardown.stage = s.stage ∧ s.doTeardown.opened = s.opened ∧
      s.doTeardown.teardowns = s.teardowns := by
  obtain ⟨halted, heq, -⟩ := doTeardown_eq s
  rw [heq]
  exact ⟨rfl, rfl, rfl, rfl, rfl, rfl⟩

theorem sound_of_close (h : Inv s) {k : ℕ} (hlife : Lifecycle (s.step cfg (.close k))) : Sound s (.close k) := by
  intro hmem
  dsimp only [step] at hlife
  rw [if_pos hmem] at hlife
  unfold Acceptor.doClose at hlife
  dsimp only at hlife
  split at hlife
  · next hnone =>
    rw [Bool.and_eq_true, Option.isNone_iff_eq_none, Option.isNone_iff_eq_none] at hnone
    exact .inl hnone
  · next hset =>
    obtain ⟨-, hforward, hstopped, hstage, -, hlog⟩ := unset_doTeardown
      { s with closes := s.closes.erase k, teardowns := s.teardowns ++ [⟨k, s.session, s.forward⟩] }
    refine .inr ⟨hlife.own ⟨k, s.session, s.forward⟩ ?_, fun hlistening => ?_⟩
    · rw [hlog]
      exact List.mem_append_right _ (List.mem_singleton_self _)
    · cases hs : s.stopped with
      | false =>
        have hsome := hlife.listening (hstopped.trans hs) (hstage.trans hlistening)
        rw [hforward] at hsome
        cases hsome
      | true =>
        obtain ⟨hsession, hunset⟩ := h.unset hs
        rw [hsession, hunset] at hset
        exact hset rfl

theorem sound_of_job {f : ℕ} (hstage : s.stage = .forwardReady f) (hlife : Lifecycle (s.step cfg .job)) :
    s.stopped = true ∨ s.session.isSome = true := by
  by_contra hnot
  rw [not_or, Bool.not_eq_true, Bool.not_eq_true, Option.isSome_eq_false_iff, Option.isNone_iff_eq_none] at hnot
  have hstep : (s.step cfg .job).forward = some f ∧ (s.step cfg .job).session = none := by
    dsimp only [step]
    unfold Acceptor.runJob
    rw [hstage]
    dsimp only
    unfold Acceptor.doForwardReady Acceptor.listen Acceptor.watch
    dsimp only
    rw [hnot.1, if_neg Bool.false_ne_true, if_neg Bool.false_ne_true]
    split
    · exact ⟨rfl, hnot.2⟩
    · exact ⟨rfl, hnot.2⟩
  obtain ⟨k, hk, -⟩ := hlife.forward f hstep.1
  rw [hstep.2] at hk
  cases hk

theorem sound_of_stop (h : Inv s) (hlife : Lifecycle (s.step cfg .stop)) : s.stage.exchanging = false := by
  by_contra hexchanging
  rw [Bool.not_eq_false] at hexchanging
  obtain ⟨k, hk⟩ : ∃ k, s.stage.socket = some k := by
    cases hs : s.stage <;> rw [hs] at hexchanging <;> first | exact ⟨_, rfl⟩ | cases hexchanging
  obtain ⟨hlt, hself, hsession⟩ := h.live k hk
  have hforward := h.establishing (establishing_of_socket hk)
  obtain ⟨halted, heq, hhalted⟩ := doTeardown_eq s
  have hstep : s.step cfg .stop = { s with halted := halted, forward := none, session := none, stopped := true } := by
    show Acceptor.stop s = _
    unfold Acceptor.stop
    rw [heq]
  rw [hstep] at hlife
  have hfalse := (hlife.released rfl k hlt ((hhalted k).mpr ⟨hself, hsession, by rw [hforward]; simp⟩)).2
  rw [show s.stage.exchanging = false from hfalse] at hexchanging
  cases hexchanging

theorem sound_of_connected (h : Inv s) (hstage : s.stage = .sessionConnect ∨ s.stage = .forwardConnect)
    (hlife : Lifecycle (s.step cfg (.connected .success))) : s.stopped = false := by
  by_contra hstopped
  rw [Bool.not_eq_false] at hstopped
  have hnew : s.halted s.opened = false := h.fresh _ (Nat.le_refl _)
  dsimp only [step] at hlife
  rcases hstage with hstage | hstage
  · rw [hstage] at hlife
    have hfalse := (hlife.released hstopped s.opened (Nat.lt_succ_self _) hnew).2
    cases hfalse
  · rw [hstage] at hlife
    have hfalse := (hlife.released hstopped s.opened (Nat.lt_succ_self _) hnew).2
    cases hfalse

theorem sound_of_lifecycle (h : Inv s) {e : Event} (hlife : Lifecycle (s.step cfg e)) : Sound s e := by
  cases e with
  | close k => exact sound_of_close h hlife
  | job => exact fun f hstage => sound_of_job hstage hlife
  | stop => exact sound_of_stop h hlife
  | connected ec =>
    rintro rfl hstage
    exact sound_of_connected h hstage hlife
  | accept paired id => trivial
  | line line saved => trivial
  | failed value => trivial
  | report k => trivial
  | forwarded ec => trivial
  | shaken ec => trivial
  | suspend suspended => trivial

/-- All states of a run are as they should be exactly where its steps are sound. -/
theorem lifecycle_iff (cfg : Settings) (events : List Event) :
    (∀ n ≤ events.length, Lifecycle (after (step cfg) {} (events.take n))) ↔
      Along (step cfg) Sound {} events :=
  along_iff (step_inv cfg) (fun _ => Inv.lifecycle) (fun _ _ h => sound_of_lifecycle h) create_inv events

def openSettings : Settings := ⟨false, fun _ => true, fun _ => true⟩

def okHello : Event := .line (ascii "HELLO REPLY RESULT=OK VERSION=3.1") true
def okSession : Event := .line (ascii "SESSION STATUS RESULT=OK DESTINATION=AAAA") true
def okForward : Event := .line (ascii "STREAM STATUS RESULT=OK") true

/-- A session is forwarded, and an accept waits for the listener. -/
def forwarding : List Event :=
  [.accept false 1, .connected .success, okHello, okSession, .job, .connected .success, okHello,
    okForward, .job]

/-- The bridge closes the session. -/
def closedForwarding : List Event := forwarding ++ [.report 0, .close 0]

theorem not_lifecycle : ¬∀ cfg events, Lifecycle (after (step cfg) {} events) := by
  intro h
  have hstalled := (h openSettings closedForwarding).listening (by decide +kernel) (by decide +kernel)
  exact absurd hstalled (by decide +kernel)

end

end Acceptor

end BitcoinNetwork.Sam
