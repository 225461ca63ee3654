import BitcoinNetwork.Async.Transition
import BitcoinNetwork.Protocols.Version
import Mathlib.Data.List.Perm.Subperm

/-!
# Pings with nonces (protocols/protocol_ping_106.cpp, protocol_ping_60001.cpp)

The nonce of the last ping is kept until its pong arrives, and is then set to a sentinel. The
sentinel is a nonce as well, which a pong may have.
-/

namespace BitcoinNetwork.Protocols
open Async

def acknowledged : UInt64 := 0
def minimumNonce : UInt64 := acknowledged + 1
def maxInt64 : ℕ := 2 ^ 63 - 1

/-- `maybe_random::next`, of some entropy, from `add1(minimum_nonce)` to `max_int64`. -/
def nextNonce (entropy : UInt64) : UInt64 :=
  UInt64.ofNat (minimumNonce.toNat + 1 + entropy.toNat % (maxInt64 - minimumNonce.toNat))

/-- A pong or a timer event that the protocol handles, with the nonce of the ping that has
been sent and not acknowledged by then. -/
inductive Handled
  | pong (nonce : UInt64) (outstanding : Option UInt64)
  | timer (outstanding : Option UInt64)
  deriving DecidableEq

/-- The protocol on a channel, behind its start: the sends of pings that have not completed,
whether a wait of the timer is pending, and the waits that were canceled and have yet to be
handled. With the pings that were sent, the one that is outstanding, for each pong that was
accepted the number of the pings by then, the pongs that were sent and what was handled. -/
structure Ping where
  heartbeat : Bool
  nonce : UInt64
  stopped : Bool := false
  stops : List Fault := []
  sending : ℕ := 0
  waiting : Bool := false
  canceled : ℕ := 0
  sent : List UInt64 := []
  outstanding : Option UInt64 := none
  accepted : List ℕ := []
  pongs : List UInt64 := []
  handled : List Handled := []
  deriving DecidableEq

namespace Ping

/-- `stop`, by the protocol. -/
def stop (s : Ping) (ec : Fault) : Ping := { s with stopped := true, stops := s.stops ++ [ec] }

def sendPing (s : Ping) (entropy : UInt64) : Ping :=
  if s.stopped then s
  else
    { s with
      nonce := nextNonce entropy
      sending := s.sending + 1
      sent := s.sent ++ [nextNonce entropy]
      outstanding := some (nextNonce entropy) }

/-- `start`, of a channel that is not stopped. -/
def start (heartbeat : Bool) (entropy : UInt64) : Ping :=
  { heartbeat := heartbeat, nonce := acknowledged : Ping }.sendPing entropy

/-- `deadline::start`, which cancels a wait that is pending. -/
def startTimer (s : Ping) : Ping :=
  { s with waiting := true, canceled := if s.waiting then s.canceled + 1 else s.canceled }

/-- A failed send stops the channel before its handler is called. -/
def handleSendPing (s : Ping) (failed : Bool) : Ping :=
  let s := { s with sending := s.sending - 1, stopped := s.stopped || failed }
  if s.stopped then s
  else if s.heartbeat then s.startTimer
  else s

def handleReceivePong (s : Ping) (nonce : UInt64) : Ping :=
  if s.stopped then s
  else
    let s := { s with
      handled := s.handled ++ [Handled.pong nonce s.outstanding]
      outstanding := if s.outstanding = some nonce then none else s.outstanding }
    if nonce ≠ s.nonce then s.stop .protocolViolation
    else { s with nonce := acknowledged, accepted := s.accepted ++ [s.sent.length] }

def handleTimer (s : Ping) (ec : Option Fault) (entropy : UInt64) : Ping :=
  if s.stopped then s
  else
    match ec with
    | some ec => s.stop ec
    | none =>
      let s := { s with handled := s.handled ++ [Handled.timer s.outstanding] }
      if s.nonce ≠ acknowledged then s.stop .channelTimeout
      else s.sendPing entropy

def handleReceivePing (s : Ping) (nonce : UInt64) : Ping :=
  if s.stopped then s else { s with pongs := s.pongs ++ [nonce] }

/-- A message arrives, a send completes, a wait of the timer ends or one that was canceled
does, or the channel is stopped by another. -/
inductive Event
  | pong (nonce : UInt64)
  | ping (nonce : UInt64)
  | sent (failed : Bool)
  | timer (entropy : UInt64)
  | canceled
  | stop

def step (s : Ping) : Event → Ping
  | .pong nonce => s.handleReceivePong nonce
  | .ping nonce => s.handleReceivePing nonce
  | .sent failed => if s.sending = 0 then s else s.handleSendPing failed
  | .timer entropy => if s.waiting then { s with waiting := false }.handleTimer none entropy else s
  | .canceled =>
    if s.canceled = 0 then s
    else { s with canceled := s.canceled - 1 }.handleTimer (some .operationCanceled) 0
  | .stop => { s with stopped := true }

/-! ### What is expected -/

/-- A pong is of the ping that is outstanding, and the timer finds none. -/
def Expected : Handled → Prop
  | .pong nonce outstanding => outstanding = some nonce
  | .timer outstanding => outstanding = none

instance (h : Handled) : Decidable (Expected h) := by
  cases h <;> unfold Expected <;> infer_instance

/-- The pings that have not been acknowledged, by number. -/
def unacknowledged (s : Ping) : List ℕ :=
  (List.range s.sent.length).filter fun index => index + 1 ∉ s.accepted

structure Disciplined (s : Ping) : Prop where
  stops : s.stops = [] ↔ ∀ h ∈ s.handled, Expected h
  unexpected : ∀ nonce, .pong nonce none ∈ s.handled → s.stops ≠ []
  once : s.accepted.Nodup
  one : s.unacknowledged.length ≤ 1

/-- No pong has the sentinel for its nonce where no ping is outstanding. -/
def Told (s : Ping) : Event → Prop
  | .pong nonce => s.stopped = true ∨ s.outstanding ≠ none ∨ nonce ≠ acknowledged
  | _ => True

instance (s : Ping) (e : Event) : Decidable (s.Told e) := by
  cases e <;> unfold Told <;> infer_instance

/-! ### Runs -/

theorem nextNonce_ne (entropy : UInt64) : nextNonce entropy ≠ acknowledged := by
  intro h
  have hvalue := congrArg UInt64.toNat h
  have hlt := Nat.mod_lt entropy.toNat (show 0 < maxInt64 - minimumNonce.toNat by decide)
  have hmin : minimumNonce.toNat = 1 := by decide
  have hmax : maxInt64 = 9223372036854775807 := by decide
  unfold nextNonce acknowledged at hvalue
  rw [UInt64.toNat_ofNat', hmin, hmax] at hvalue
  rw [hmin, hmax] at hlt
  have hzero : (0 : UInt64).toNat = 0 := rfl
  omega

/-- The sentinel is the nonce exactly where no ping is outstanding. All pings but one that is
outstanding have been acknowledged, in order. A wait is never started over another. -/
structure Inv (s : Ping) : Prop where
  nonce : s.nonce = s.outstanding.getD acknowledged
  outstanding : ∀ nonce, s.outstanding = some nonce → nonce ≠ acknowledged ∧ s.sent ≠ []
  accepted : s.accepted = List.range' 1 (s.sent.length - if s.outstanding = none then 0 else 1)
  sends : s.sending + (if s.waiting then 1 else 0) ≤ 1
  canceled : s.canceled = 0
  stopped : s.stops ≠ [] → s.stopped = true
  stops : s.stops = [] ↔ ∀ h ∈ s.handled, Expected h

variable {s : Ping}

theorem Inv.stops_nil (h : Inv s) (hstopped : s.stopped = false) : s.stops = [] := by
  by_contra hne
  rw [h.stopped hne] at hstopped
  exact nomatch hstopped

theorem Inv.nonce_eq_iff (h : Inv s) : s.nonce = acknowledged ↔ s.outstanding = none := by
  rw [h.nonce]
  cases houtstanding : s.outstanding with
  | none => exact ⟨fun _ => rfl, fun _ => rfl⟩
  | some nonce => exact ⟨fun heq => absurd heq (h.outstanding nonce houtstanding).1, nofun⟩

/-- An event that is expected does not change whether all are. -/
theorem forall_append_iff (handled : List Handled) {entry : Handled} (hentry : Expected entry) :
    (∀ h ∈ handled ++ [entry], Expected h) ↔ ∀ h ∈ handled, Expected h := by
  rw [List.forall_mem_append, List.forall_mem_singleton]
  exact and_iff_left hentry

/-- The protocol stops for an event that is not expected. -/
theorem Inv.fault (h : Inv s) (entry : Handled) (hentry : ¬Expected entry)
    {outstanding : Option UInt64} (houtstanding : outstanding = s.outstanding) (ec : Fault) :
    Inv ({ s with handled := s.handled ++ [entry], outstanding := outstanding }.stop ec) where
  nonce := by
    subst houtstanding
    exact h.nonce
  outstanding := by
    subst houtstanding
    exact h.outstanding
  accepted := by
    subst houtstanding
    exact h.accepted
  sends := h.sends
  canceled := h.canceled
  stopped _ := rfl
  stops := by
    refine ⟨fun hnil => absurd hnil (List.append_ne_nil_of_right_ne_nil _ (List.cons_ne_nil _ _)),
      fun hall => absurd (hall entry ?_) hentry⟩
    exact List.mem_append_right _ (List.mem_singleton.mpr rfl)

/-- A ping is sent where none is outstanding. -/
theorem Inv.sendPing (h : Inv s) (houtstanding : s.outstanding = none) (hidle : s.sending = 0)
    (hwaiting : s.waiting = false) (entropy : UInt64) : Inv (s.sendPing entropy) := by
  unfold Ping.sendPing
  split
  · exact h
  · have haccepted := h.accepted
    rw [if_pos houtstanding, Nat.sub_zero] at haccepted
    refine ⟨rfl, ?_, ?_, ?_, h.canceled, h.stopped, h.stops⟩
    · intro nonce hnonce
      cases hnonce
      exact ⟨nextNonce_ne entropy, List.append_ne_nil_of_right_ne_nil _ (List.cons_ne_nil _ _)⟩
    · rw [if_neg (Option.some_ne_none _), List.length_append, List.length_singleton,
        Nat.add_sub_cancel]
      exact haccepted
    · show s.sending + 1 + (if s.waiting then 1 else 0) ≤ 1
      rw [hidle, hwaiting]
      exact Nat.le_refl 1

theorem start_inv (heartbeat : Bool) (entropy : UInt64) : Inv (start heartbeat entropy) := by
  refine Inv.sendPing ?_ rfl rfl rfl entropy
  exact ⟨rfl, nofun, rfl, Nat.zero_le 1, rfl, fun hne => absurd rfl hne, ⟨fun _ => nofun, fun _ => rfl⟩⟩

theorem Inv.receivePong (h : Inv s) {nonce : UInt64} (htold : s.Told (.pong nonce)) :
    Inv (s.handleReceivePong nonce) := by
  unfold handleReceivePong
  split
  · exact h
  next hrunning =>
  dsimp only
  split
  · next hnonce =>
    have hexpected : s.outstanding ≠ some nonce := by
      intro heq
      rw [h.nonce, heq] at hnonce
      exact hnonce rfl
    exact h.fault (.pong nonce s.outstanding) hexpected (if_neg hexpected) .protocolViolation
  · next hnonce =>
    rw [not_not] at hnonce
    have heq : s.outstanding = some nonce := by
      rw [h.nonce] at hnonce
      cases houtstanding : s.outstanding with
      | some other =>
        rw [houtstanding] at hnonce
        rw [hnonce]
        rfl
      | none =>
        rw [houtstanding] at hnonce
        rcases htold with hstopped | hnone | hne
        · exact absurd hstopped hrunning
        · exact absurd houtstanding hnone
        · exact absurd hnonce hne
    have haccepted := h.accepted
    rw [heq, if_neg (Option.some_ne_none _)] at haccepted
    have hpos := List.length_pos_of_ne_nil (h.outstanding nonce heq).2
    rw [if_pos heq]
    refine ⟨rfl, nofun, ?_, h.sends, h.canceled, h.stopped, ?_⟩
    · show s.accepted ++ [s.sent.length] = List.range' 1 (s.sent.length - 0)
      rw [haccepted, Nat.sub_zero]
      conv => rhs; rw [← Nat.sub_add_cancel hpos, List.range'_concat]
      rw [Nat.one_mul, Nat.add_comm 1, Nat.sub_add_cancel hpos]
    · exact h.stops.trans (forall_append_iff s.handled (show Expected (.pong nonce s.outstanding) from heq)).symm

theorem Inv.timer (h : Inv s) (hwaiting : s.waiting = true) (entropy : UInt64) :
    Inv ({ s with waiting := false }.handleTimer none entropy) := by
  have hsends := h.sends
  rw [hwaiting, if_pos rfl] at hsends
  have hidle : s.sending = 0 := by omega
  have hwaited : Inv { s with waiting := false } :=
    ⟨h.nonce, h.outstanding, h.accepted, hidle.trans_le (Nat.zero_le 1), h.canceled, h.stopped, h.stops⟩
  unfold handleTimer
  split
  · exact hwaited
  dsimp only
  split
  · next hnonce =>
    have hexpected : ¬Expected (.timer s.outstanding) := fun hnone =>
      hnonce (hwaited.nonce_eq_iff.mpr hnone)
    exact hwaited.fault (.timer s.outstanding) hexpected rfl .channelTimeout
  · next hnonce =>
    have hnone := hwaited.nonce_eq_iff.mp (not_not.mp hnonce)
    have hexpected : Expected (.timer s.outstanding) := hnone
    have hhandled : Inv { s with
        waiting := false
        handled := s.handled ++ [Handled.timer s.outstanding] } :=
      ⟨h.nonce, h.outstanding, h.accepted, hwaited.sends, h.canceled, h.stopped,
        h.stops.trans (forall_append_iff s.handled hexpected).symm⟩
    exact hhandled.sendPing hnone hidle rfl entropy

theorem Inv.sentPing (h : Inv s) (hsending : s.sending ≠ 0) (failed : Bool) :
    Inv (s.handleSendPing failed) := by
  have hsends := h.sends
  have hwaiting : s.waiting = false := by
    cases hwaiting : s.waiting with
    | false => rfl
    | true =>
      rw [hwaiting, if_pos rfl] at hsends
      omega
  have hidle : s.sending - 1 = 0 := by omega
  have hstopped (hne : s.stops ≠ []) : (s.stopped || failed) = true := by
    rw [h.stopped hne]
    rfl
  have hsent : Inv { s with sending := s.sending - 1, stopped := s.stopped || failed } := by
    refine ⟨h.nonce, h.outstanding, h.accepted, ?_, h.canceled, hstopped, h.stops⟩
    show s.sending - 1 + (if s.waiting then 1 else 0) ≤ 1
    rw [hidle, hwaiting]
    exact Nat.zero_le 1
  unfold handleSendPing
  dsimp only
  split
  · exact hsent
  split
  · refine ⟨h.nonce, h.outstanding, h.accepted, ?_, ?_, hstopped, h.stops⟩
    · show s.sending - 1 + 1 ≤ 1
      omega
    · show (if s.waiting then s.canceled + 1 else s.canceled) = 0
      rw [hwaiting]
      exact h.canceled
  · exact hsent

theorem step_inv (s : Ping) (e : Event) (h : Inv s) (htold : s.Told e) : Inv (s.step e) := by
  cases e with
  | pong nonce => exact h.receivePong htold
  | ping nonce =>
    unfold step handleReceivePing
    dsimp only
    split
    · exact h
    · exact ⟨h.nonce, h.outstanding, h.accepted, h.sends, h.canceled, h.stopped, h.stops⟩
  | sent failed =>
    unfold step
    dsimp only
    split
    · exact h
    · next hsending => exact h.sentPing hsending failed
  | timer entropy =>
    unfold step
    dsimp only
    split
    · next hwaiting => exact h.timer hwaiting entropy
    · exact h
  | canceled =>
    unfold step
    dsimp only
    rw [if_pos h.canceled]
    exact h
  | stop => exact ⟨h.nonce, h.outstanding, h.accepted, h.sends, h.canceled, fun _ => rfl, h.stops⟩

theorem Inv.disciplined (h : Inv s) : Disciplined s := by
  refine ⟨h.stops, fun nonce hmem hnil => ?_, ?_, ?_⟩
  · exact absurd (h.stops.mp hnil _ hmem) nofun
  · rw [h.accepted]
    exact List.nodup_range'
  · have hsubset : s.unacknowledged ⊆ [s.sent.length - 1] := by
      intro index hindex
      obtain ⟨hrange, haccepted⟩ := List.mem_filter.mp hindex
      have hlt := List.mem_range.mp hrange
      have hnot := of_decide_eq_true haccepted
      rw [h.accepted, List.mem_range'_1] at hnot
      split at hnot
      · omega
      · rw [List.mem_singleton]
        omega
    have hnodup : s.unacknowledged.Nodup := List.nodup_range.filter _
    exact (List.Nodup.subperm hnodup hsubset).length_le

/-- A pong of the sentinel is accepted, and no ping is there for it. -/
theorem told_of_disciplined (h : Inv s) (e : Event) (hdisciplined : Disciplined (s.step e)) :
    s.Told e := by
  cases e with
  | pong nonce =>
    by_contra hnot
    unfold Told at hnot
    rw [not_or, not_or, not_not, not_not, Bool.not_eq_true] at hnot
    obtain ⟨hrunning, hnone, hnonce⟩ := hnot
    have haccepts : s.handleReceivePong nonce = { s with
        handled := s.handled ++ [Handled.pong nonce none]
        nonce := acknowledged
        accepted := s.accepted ++ [s.sent.length] } := by
      unfold handleReceivePong
      rw [hrunning, hnone, hnonce, h.nonce_eq_iff.mpr hnone]
      rfl
    have hunexpected : .pong nonce none ∈ (s.handleReceivePong nonce).handled →
        (s.handleReceivePong nonce).stops ≠ [] := hdisciplined.unexpected nonce
    rw [haccepts] at hunexpected
    exact hunexpected (List.mem_append_right _ (List.mem_singleton.mpr rfl)) (h.stops_nil hrunning)
  | ping | sent | timer | canceled | stop => trivial

/-- The protocol is disciplined in every state of a run exactly where no pong of the sentinel
arrives while no ping is outstanding. -/
theorem pings_disciplined_iff (heartbeat : Bool) (entropy : UInt64) (events : List Event) :
    (∀ n ≤ events.length, Disciplined (after step (start heartbeat entropy) (events.take n))) ↔
      Along step Told (start heartbeat entropy) events :=
  along_iff step_inv (fun _ h => h.disciplined) (fun _ e h => told_of_disciplined h e)
    (start_inv heartbeat entropy) events

/-- The first ping is acknowledged, and then a pong of the sentinel is accepted. -/
theorem not_pings_disciplined : ¬∀ (heartbeat : Bool) (entropy : UInt64) (events : List Event),
    Disciplined (after step (start heartbeat entropy) events) := by
  intro hall
  have h := (hall true 40 [.pong 42, .pong 0]).unexpected 0
  exact absurd (h (by decide)) (by decide)

end Ping
end BitcoinNetwork.Protocols
