import BitcoinNetwork.Channels.Pauses
import BitcoinNetwork.Protocols.Version
import Mathlib.Data.List.Induction

/-!
# The gate of the version handshake (protocols/protocol_version_106.cpp to 70016.cpp)

The handler is called once, by what comes first: the version and the acknowledgement of the
peer, a failure, or the stop of the channel. Behind success the channel waits for the session.
-/

namespace BitcoinNetwork.Protocols
open Async Channels

def Message.isVersion : Message → Bool
  | .version _ _ => true
  | _ => false

def Message.isSignal : Message → Bool
  | .sendAddressV2 | .witnessTxIdRelay => true
  | _ => false

/-- The version is acceptable in services, protocol level and time. -/
def Settings.Acceptable (cfg : Settings) (message : Version) (now : ℤ) : Prop :=
  message.services &&& cfg.invalidServices = 0 ∧
    message.services &&& cfg.requiredServices = cfg.requiredServices ∧
    cfg.minimumVersion ≤ message.value ∧
    (cfg.toDeviation message.timestamp now).natAbs ≤ cfg.maximumSkewMinutes

/-- An acceptable version came before, and no acknowledgement. -/
def Window (cfg : Settings) (before : List Message) : Prop :=
  (∃ message now, Message.version message now ∈ before ∧ cfg.Acceptable message now) ∧
    Message.versionAcknowledge ∉ before

/-- The message was dispatched in the window for signals. -/
def Signaled (cfg : Settings) (log : List Message) (m : Message) : Prop :=
  ∃ before after, log = before ++ m :: after ∧ Window cfg before

/-- A second version or acknowledgement was dispatched, or to the protocol of 70016 a signal
that is not in the window. -/
def Violated (cfg : Settings) (log : List Message) : Prop :=
  1 < log.countP Message.isVersion ∨ 1 < log.count .versionAcknowledge ∨
    cfg.signals = true ∧ ∃ before m after, log = before ++ m :: after ∧ m.isSignal = true ∧
      ¬Window cfg before

namespace Handshake

/-- The event dispatches a message. -/
def Dispatches (cfg : Settings) (s : Handshake) (e : Event) : Prop := (s.step cfg e).log ≠ s.log

/-- The handler is called once at most, and has been called once a stop is notified. It is
called with success behind one version, which is acceptable, and one acknowledgement; from
there the channel is held, or stopped, and dispatches nothing before the session attaches its
protocols. Signals are taken in their window, and of a violation that was handled the channel
is stopped. -/
structure Gated (cfg : Settings) (s : Handshake) : Prop where
  once : s.results.length ≤ 1
  answered : s.channel.stopped = true → s.channel.stoppings = 0 → s.results.length = 1
  agreed : s.results = [.success] → s.attached = false →
    s.log.countP Message.isVersion = 1 ∧ s.log.count .versionAcknowledge = 1 ∧
      ∃ message now, Message.version message now ∈ s.log ∧ cfg.Acceptable message now ∧
        s.negotiatedVersion = min message.value cfg.maximumVersion
  negotiated : s.results = [.success] → s.attached = false → cfg.minimumVersion ≤ s.negotiatedVersion
  held : s.results = [.success] → s.attached = false →
    s.channel.held.isSome = true ∨ s.channel.stopped = true
  waits : ∀ e, Dispatches cfg s e → s.results = [.success] → s.attached = true
  wantsAddressV2 : s.wantsAddressV2 = true → Signaled cfg s.log .sendAddressV2
  wantsWitnessTx : s.wantsWitnessTx = true → Signaled cfg s.log .witnessTxIdRelay
  violated : (∀ m, s.stage ≠ .message m) → Violated cfg s.log → s.channel.stopped = true

/-! ### The invariant -/

/-- The messages that the protocol was notified of. -/
def seen (s : Handshake) : List Message :=
  match s.stage with
  | .message _ => s.log.dropLast
  | _ => s.log

/-- The channel goes on, or did when the handler under way found it so, or the session is yet
to attach its protocols. -/
def Live (s : Handshake) : Prop :=
  s.channel.stopped = false ∨ s.stage = .version ∨ s.stage = .acknowledge ∨
    s.results = [.success] ∧ s.attached = false

/-- Both were received and the pause is made. -/
def Settled (s : Handshake) : Prop :=
  s.isComplete = true ∧ s.stage ≠ .version ∧ s.stage ≠ .acknowledge

/-- All signals were dispatched in their window. -/
def Windowed (cfg : Settings) (log : List Message) : Prop :=
  ∀ before m after, log = before ++ m :: after → m.isSignal = true → Window cfg before

/-- What the protocol knows of the messages. -/
structure Facts (cfg : Settings) (s : Handshake) (seen : List Message) : Prop where
  valid : cfg.Valid
  versions : seen.countP Message.isVersion = s.receivedVersion.toNat
  acknowledges : seen.count .versionAcknowledge = s.receivedAcknowledge.toNat
  version : s.receivedVersion = true → ∃ message now, Message.version message now ∈ seen ∧
    cfg.Acceptable message now ∧ s.peerVersion = some message ∧
      s.negotiatedVersion = min message.value cfg.maximumVersion
  absent : s.receivedVersion = false → s.peerVersion = none
  complete : cfg.signals = true → s.complete = s.receivedAcknowledge
  signals : cfg.signals = true → Windowed cfg seen
  subscribed : s.onVersion = true ∧ s.onAcknowledge = true
  signaled : cfg.signals = true → s.onAddressV2 = true ∧ s.onWitnessTx = true
  unsignaled : cfg.signals = false → s.onAddressV2 = false ∧ s.onWitnessTx = false

structure Inv (cfg : Settings) (s : Handshake) : Prop where
  channel : s.channel.Inv
  single : s.channel.Single
  handler : s.handler = true ∧ s.results = [] ∨ s.handler = false ∧ ∃ result, s.results = [result]
  failed : ∀ fault, s.results = [.failure fault] → s.channel.stopped = true
  stoppings : s.channel.stopped = true → s.channel.stoppings = 0 → s.handler = false
  stage : s.stage = .idle ↔ s.channel.gate = none
  started : s.channel.begun = false → s.isComplete = false
  success : s.results = [.success] → s.Settled
  attached : s.attached = true → s.results = [.success]
  pending : ∀ m, s.stage = .message m → s.results = [.success] → s.attached = true
  logged : ∀ m, s.stage = .message m → ∃ log, s.log = log ++ [m]
  version : s.stage = .version → s.receivedVersion = true
  acknowledge : s.stage = .acknowledge → s.receivedAcknowledge = true
  paused : s.Settled → s.attached = false → s.channel.paused = true ∧ s.channel.due = true ∧
    (s.channel.held.isSome = true ∨ s.channel.stopped = true)
  unpaused : s.Settled → s.attached = true → s.channel.paused = false ∧ s.channel.due = false
  unsettled : ¬s.Settled → s.channel.paused = false ∧ (s.channel.begun = true → s.channel.due = false)
  facts : s.Live → Facts cfg s s.seen
  wantsAddressV2 : s.wantsAddressV2 = true → Signaled cfg s.seen .sendAddressV2
  wantsWitnessTx : s.wantsWitnessTx = true → Signaled cfg s.seen .witnessTxIdRelay

section
variable {cfg : Settings} {s : Handshake}

theorem acceptable_of_refusal {message : Version} {now : ℤ} (h : cfg.refusal message now = none) :
    cfg.Acceptable message now := by
  unfold Settings.refusal at h
  split at h
  · cases h
  · next hinvalid =>
    split at h
    · cases h
    · next hrequired =>
      split at h
      · cases h
      · next hvalue =>
        split at h
        · cases h
        · next hskew =>
          exact ⟨not_not.mp hinvalid, not_not.mp hrequired, not_lt.mp hvalue, not_lt.mp hskew⟩

theorem signaled_append {log : List Message} {m : Message} (h : Signaled cfg log m) (more : List Message) :
    Signaled cfg (log ++ more) m := by
  obtain ⟨before, rest, rfl, hwindow⟩ := h
  exact ⟨before, rest ++ more, by simp, hwindow⟩

theorem windowed_append {log : List Message} {m : Message} (h : Windowed cfg log)
    (hm : m.isSignal = true → Window cfg log) : Windowed cfg (log ++ [m]) := by
  intro before x rest hlog hsignal
  rcases List.eq_nil_or_concat rest with rfl | ⟨init, last, rfl⟩
  · obtain ⟨rfl, hself⟩ := List.append_inj' hlog rfl
    cases hself
    exact hm hsignal
  · have hinit : log ++ [m] = (before ++ x :: init) ++ [last] := by simpa using hlog
    exact h before x init (List.append_inj' hinit rfl).1 hsignal

/-- What a channel does that leaves its start, its pause and its dispatch. -/
theorem Inv.kept (h : Inv cfg s) {c : Channel} (hkept : Channel.Kept s.channel c) (hinv : c.Inv)
    (hsingle : c.Single) (hgate : c.gate = s.channel.gate) : Inv cfg { s with channel := c } where
  channel := hinv
  single := hsingle
  handler := h.handler
  failed fault hresults := hkept.stopped (h.failed fault hresults)
  stoppings hstopped hzero :=
    h.stoppings (hkept.stoppings hstopped hzero).1 (hkept.stoppings hstopped hzero).2
  stage := h.stage.trans (by rw [hgate])
  started hbegun := h.started (hkept.begun.symm.trans hbegun)
  success := h.success
  attached := h.attached
  pending := h.pending
  logged := h.logged
  version := h.version
  acknowledge := h.acknowledge
  paused hsettled hattached := by
    obtain ⟨hpaused, hdue, hheld⟩ := h.paused hsettled hattached
    refine ⟨hkept.paused.trans hpaused, hkept.due.trans hdue, ?_⟩
    rcases hheld with hheld | hstopped
    · exact .inl (by rw [hkept.held]; exact hheld)
    · exact .inr (hkept.stopped hstopped)
  unpaused hsettled hattached := by
    obtain ⟨hpaused, hdue⟩ := h.unpaused hsettled hattached
    exact ⟨hkept.paused.trans hpaused, hkept.due.trans hdue⟩
  unsettled hsettled := by
    obtain ⟨hpaused, hdue⟩ := h.unsettled hsettled
    exact ⟨hkept.paused.trans hpaused, fun hbegun =>
      hkept.due.trans (hdue (hkept.begun.symm.trans hbegun))⟩
  facts hlive := by
    have hsame : s.Live := by
      rcases hlive with hstopped | hrest
      · refine .inl ?_
        by_contra hstop
        rw [show c.stopped = true from hkept.stopped ((Bool.not_eq_false _).mp hstop)] at hstopped
        cases hstopped
      · exact .inr hrest
    obtain ⟨h₁, h₂, h₃, h₄, h₅, h₆, h₇, h₈, h₉, h₁₀⟩ := h.facts hsame
    exact ⟨h₁, h₂, h₃, h₄, h₅, h₆, h₇, h₈, h₉, h₁₀⟩
  wantsAddressV2 := h.wantsAddressV2
  wantsWitnessTx := h.wantsWitnessTx

theorem Inv.event (h : Inv cfg s) {e : Channel.Event} (he : e.Unpaused)
    (hkept : Channel.Kept s.channel (s.channel.step e)) (hgate : (s.channel.step e).gate = s.channel.gate) :
    Inv cfg { s with channel := s.channel.step e } :=
  h.kept hkept (Channel.step_inv s.channel e h.channel (h.single.clear he)) (h.single.step he) hgate

theorem Inv.stop (h : Inv cfg s) (stranded : Bool) :
    Inv cfg { s with channel := s.channel.stop stranded } :=
  h.event (e := .stop stranded) trivial (Channel.kept_stop h.single.unparted stranded)
    (Channel.gate_stop s.channel stranded)

theorem Inv.begun (h : Inv cfg s) (hstage : s.stage ≠ .idle) : s.channel.begun = true := by
  by_contra hbegun
  have hmessages := (h.channel.fresh ((Bool.not_eq_true _).mp hbegun)).2.2.2.1
  cases hgate : s.channel.gate with
  | none => exact hstage (h.stage.mpr hgate)
  | some n => exact absurd (h.channel.gate n hgate) (by omega)

/-- Where the channel goes on and not both messages were received, the handler is yet to be
called. -/
theorem Inv.waiting (h : Inv cfg s) (hstopped : s.channel.stopped = false)
    (hcomplete : s.isComplete = false) : s.handler = true ∧ s.results = [] := by
  rcases h.handler with hwaits | ⟨-, result, hresults⟩
  · exact hwaits
  · cases result with
    | success =>
      rw [(h.success hresults).1] at hcomplete
      cases hcomplete
    | failure fault =>
      rw [h.failed fault hresults] at hstopped
      cases hstopped

/-- What no more than the timer and the sends tell apart. -/
theorem Inv.posted (h : Inv cfg s) (timer : Timer) (versionSends acknowledgeSends : ℕ) :
    Inv cfg { s with
      timer := timer, versionSends := versionSends, acknowledgeSends := acknowledgeSends } :=
  { h with
    facts := fun hlive => by
      obtain ⟨h₁, h₂, h₃, h₄, h₅, h₆, h₇, h₈, h₉, h₁₀⟩ := h.facts hlive
      exact ⟨h₁, h₂, h₃, h₄, h₅, h₆, h₇, h₈, h₉, h₁₀⟩ }

/-- The handler is called with a failure, or was called, and the channel is stopped. -/
theorem Inv.halt (h : Inv cfg s) {c : Channel} (hinv : c.Inv) (hsingle : c.Single) (hgate : c.gate = s.channel.gate)
    (hbegun : c.begun = s.channel.begun) (hdue : c.due = s.channel.due)
    (hpaused : c.paused = s.channel.paused) (hstopped : c.stopped = true) {results : List Result}
    (hresults : s.handler = false ∧ results = s.results ∨
      s.handler = true ∧ ∃ fault, results = [.failure fault]) (timer : Timer) :
    Inv cfg { s with channel := c, handler := false, results := results, timer := timer } := by
  have hsuccess : results = [.success] → s.results = [.success] := by
    intro hsome
    rcases hresults with ⟨-, hsame⟩ | ⟨-, fault, hfault⟩
    · rw [← hsame, hsome]
    · rw [hfault] at hsome
      cases hsome
  exact {
    channel := hinv
    single := hsingle
    handler := by
      rcases hresults with ⟨hhandler, hsame⟩ | ⟨-, fault, hfault⟩
      · rcases h.handler with ⟨htrue, -⟩ | ⟨-, hcalled⟩
        · rw [hhandler] at htrue
          cases htrue
        · rw [hsame]
          exact .inr ⟨rfl, hcalled⟩
      · exact .inr ⟨rfl, .failure fault, hfault⟩
    failed := fun _ _ => hstopped
    stoppings := fun _ _ => rfl
    stage := h.stage.trans (by rw [hgate])
    started := fun hfalse => h.started (hbegun.symm.trans hfalse)
    success := fun hsome => h.success (hsuccess hsome)
    attached := fun hattached => by
      have hsome := h.attached hattached
      rcases hresults with ⟨-, hsame⟩ | ⟨htrue, -⟩
      · exact hsame.trans hsome
      · rcases h.handler with ⟨-, hnone⟩ | ⟨hfalse, -⟩
        · rw [hnone] at hsome
          cases hsome
        · rw [htrue] at hfalse
          cases hfalse
    pending := fun m hm hsome => h.pending m hm (hsuccess hsome)
    logged := h.logged
    version := h.version
    acknowledge := h.acknowledge
    paused := fun hsettled hattached =>
      ⟨hpaused.trans (h.paused hsettled hattached).1, hdue.trans (h.paused hsettled hattached).2.1,
        .inr hstopped⟩
    unpaused := fun hsettled hattached =>
      ⟨hpaused.trans (h.unpaused hsettled hattached).1, hdue.trans (h.unpaused hsettled hattached).2⟩
    unsettled := fun hsettled =>
      ⟨hpaused.trans (h.unsettled hsettled).1, fun htrue =>
        hdue.trans ((h.unsettled hsettled).2 (hbegun.symm.trans htrue))⟩
    facts := fun hlive => by
      have hsame : s.Live := by
        rcases hlive with hfalse | hversion | hacknowledge | ⟨hsome, hattached⟩
        · rw [show c.stopped = false from hfalse] at hstopped
          cases hstopped
        · exact .inr (.inl hversion)
        · exact .inr (.inr (.inl hacknowledge))
        · exact .inr (.inr (.inr ⟨hsuccess hsome, hattached⟩))
      obtain ⟨h₁, h₂, h₃, h₄, h₅, h₆, h₇, h₈, h₉, h₁₀⟩ := h.facts hsame
      exact ⟨h₁, h₂, h₃, h₄, h₅, h₆, h₇, h₈, h₉, h₁₀⟩
    wantsAddressV2 := h.wantsAddressV2
    wantsWitnessTx := h.wantsWitnessTx }

theorem stopped_stop {c : Channel} (h : c.parted = false) (stranded : Bool) :
    (c.stop stranded).stopped = true := by
  unfold Channel.stop Channel.finishStop
  dsimp only
  split
  · assumption
  · rw [h, Bool.and_false, if_neg Bool.false_ne_true]

/-- The handshake fails, where it was not over. -/
theorem Inv.callback_failure (h : Inv cfg s) (fault : Fault) : Inv cfg (s.callback (.failure fault)) := by
  unfold callback
  dsimp only
  split
  · next hhandler =>
    have hnone : s.results = [] := by
      rcases h.handler with ⟨-, hnone⟩ | ⟨hfalse, -⟩
      · exact hnone
      · rw [show s.handler = true from hhandler] at hfalse
        cases hfalse
    have hstop := h.stop true
    have hkept := Channel.kept_stop h.single.unparted true
    refine h.halt hstop.channel hstop.single (Channel.gate_stop _ _) hkept.begun hkept.due
      hkept.paused (stopped_stop h.single.unparted true) (.inr ⟨hhandler, fault, ?_⟩) s.timer.stop
    rw [hnone]
    rfl
  · exact h.posted s.timer.stop s.versionSends s.acknowledgeSends

/-- The handshake succeeds behind the pause, where it was not over. -/
theorem Inv.callback_success (h : Inv cfg s) (hsettled : s.Settled) (hstage : ∀ m, s.stage ≠ .message m)
    (hfacts : Facts cfg s s.seen) : Inv cfg (s.callback .success) := by
  unfold callback
  dsimp only
  split
  · next hhandler =>
    have hnone : s.results = [] := by
      rcases h.handler with ⟨-, hnone⟩ | ⟨hfalse, -⟩
      · exact hnone
      · rw [show s.handler = true from hhandler] at hfalse
        cases hfalse
    have hattached : s.attached = false := by
      by_contra htrue
      rw [h.attached ((Bool.not_eq_false _).mp htrue)] at hnone
      cases hnone
    have hresults : s.results ++ [.success] = [.success] := by
      rw [hnone]
      rfl
    exact { h with
      handler := .inr ⟨rfl, .success, hresults⟩
      failed := fun fault hfault => by
        rw [show s.results ++ [.success] = [.failure fault] from hfault] at hresults
        cases hresults
      stoppings := fun _ _ => rfl
      success := fun _ => hsettled
      attached := fun htrue => by
        rw [show s.attached = true from htrue] at hattached
        cases hattached
      pending := fun m hm => absurd hm (hstage m)
      facts := fun _ => by
        obtain ⟨h₁, h₂, h₃, h₄, h₅, h₆, h₇, h₈, h₉, h₁₀⟩ := hfacts
        exact ⟨h₁, h₂, h₃, h₄, h₅, h₆, h₇, h₈, h₉, h₁₀⟩ }
  · exact h.posted s.timer.stop s.versionSends s.acknowledgeSends

/-! ### A dispatch -/

/-- The protocol was notified of the message, and is done with it. -/
theorem Inv.handled (h : Inv cfg s) {m : Message} (hstage : s.stage = .message m) {c : Channel}
    {handler : Bool} {results : List Result} (hresults : c = s.channel ∧ handler = s.handler ∧ results = s.results ∨
      c = s.channel.stop true ∧ handler = s.handler ∧ results = s.results ∨
      c = s.channel.stop true ∧ s.handler = true ∧ handler = false ∧ ∃ fault, results = [.failure fault])
    (timer : Timer) (complete onVersion onAcknowledge onAddressV2 onWitnessTx : Bool)
    {wantsAddressV2 wantsWitnessTx : Bool}
    (haddress : wantsAddressV2 = true → Signaled cfg s.log .sendAddressV2)
    (hwitness : wantsWitnessTx = true → Signaled cfg s.log .witnessTxIdRelay)
    (hfacts : c.stopped = false → Facts cfg { s with
      complete := complete, onVersion := onVersion, onAcknowledge := onAcknowledge,
      onAddressV2 := onAddressV2, onWitnessTx := onWitnessTx } s.log) :
    Inv cfg { s with
      channel := c, handler := handler, results := results, timer := timer, complete := complete,
      onVersion := onVersion, onAcknowledge := onAcknowledge, onAddressV2 := onAddressV2,
      onWitnessTx := onWitnessTx, wantsAddressV2 := wantsAddressV2, wantsWitnessTx := wantsWitnessTx,
      stage := .handled } := by
  have hbase : Inv cfg { s with channel := c, handler := handler, results := results, timer := timer } := by
    rcases hresults with ⟨rfl, rfl, rfl⟩ | ⟨rfl, rfl, rfl⟩ | ⟨rfl, hhandler, rfl, hfault⟩
    · exact h.posted timer s.versionSends s.acknowledgeSends
    · exact (h.stop true).posted timer s.versionSends s.acknowledgeSends
    · have hstop := h.stop true
      have hkept := Channel.kept_stop h.single.unparted true
      exact h.halt hstop.channel hstop.single (Channel.gate_stop _ _) hkept.begun hkept.due hkept.paused
        (stopped_stop h.single.unparted true) (.inr ⟨hhandler, hfault⟩) timer
  have hsettled : s.isComplete = true → s.Settled := fun hcomplete =>
    ⟨hcomplete, by rw [hstage]; simp, by rw [hstage]; simp⟩
  have hsame := hbase.pending m hstage
  exact {
    channel := hbase.channel
    single := hbase.single
    handler := hbase.handler
    failed := hbase.failed
    stoppings := hbase.stoppings
    stage := by
      have := hbase.stage
      dsimp only at this ⊢
      rw [hstage] at this
      simpa using this
    started := hbase.started
    success := fun hsome => ⟨(hbase.success hsome).1, by simp, by simp⟩
    attached := hbase.attached
    pending := fun _ hm => by cases hm
    logged := fun _ hm => by cases hm
    version := fun hm => by cases hm
    acknowledge := fun hm => by cases hm
    paused := fun hs => hbase.paused (hsettled hs.1)
    unpaused := fun hs => hbase.unpaused (hsettled hs.1)
    unsettled := fun hs => hbase.unsettled fun hset => hs ⟨hset.1, by simp, by simp⟩
    facts := fun hlive => by
      rcases hlive with hstopped | hversion | hacknowledge | ⟨hsome, hattached⟩
      · obtain ⟨h₁, h₂, h₃, h₄, h₅, h₆, h₇, h₈, h₉, h₁₀⟩ := hfacts hstopped
        exact ⟨h₁, h₂, h₃, h₄, h₅, h₆, h₇, h₈, h₉, h₁₀⟩
      · cases hversion
      · cases hacknowledge
      · rw [show s.attached = true from hsame hsome] at hattached
        cases hattached
    wantsAddressV2 := haddress
    wantsWitnessTx := hwitness }


theorem Inv.unlogged (h : Inv cfg s) {m : Message} (hstage : s.stage = .message m) :
    s.log = s.seen ++ [m] := by
  obtain ⟨log, hlog⟩ := h.logged m hstage
  unfold seen
  rw [hstage, hlog, List.dropLast_concat]

/-- What was signaled before the message was. -/
theorem Inv.wants (h : Inv cfg s) {m : Message} (hstage : s.stage = .message m) :
    (s.wantsAddressV2 = true → Signaled cfg s.log .sendAddressV2) ∧
      (s.wantsWitnessTx = true → Signaled cfg s.log .witnessTxIdRelay) := by
  rw [h.unlogged hstage]
  exact ⟨fun hwants => signaled_append (h.wantsAddressV2 hwants) [m],
    fun hwants => signaled_append (h.wantsWitnessTx hwants) [m]⟩

/-- The protocol has no use for the message, or finds the channel stopped. -/
theorem Inv.ignored (h : Inv cfg s) {m : Message} (hstage : s.stage = .message m)
    (complete onVersion onAcknowledge onAddressV2 onWitnessTx : Bool)
    (hfacts : s.channel.stopped = false → Facts cfg { s with
      complete := complete, onVersion := onVersion, onAcknowledge := onAcknowledge,
      onAddressV2 := onAddressV2, onWitnessTx := onWitnessTx } s.log) :
    Inv cfg { s with
      complete := complete, onVersion := onVersion, onAcknowledge := onAcknowledge,
      onAddressV2 := onAddressV2, onWitnessTx := onWitnessTx, stage := .handled } := by
  obtain ⟨haddress, hwitness⟩ := h.wants hstage
  exact h.handled hstage (.inl ⟨rfl, rfl, rfl⟩) s.timer complete onVersion onAcknowledge onAddressV2
    onWitnessTx haddress hwitness hfacts

/-- The protocol stops the channel for the message. -/
theorem Inv.violated (h : Inv cfg s) {m : Message} (hstage : s.stage = .message m)
    (complete onVersion onAcknowledge onAddressV2 onWitnessTx : Bool) :
    Inv cfg { s.stop with
      complete := complete, onVersion := onVersion, onAcknowledge := onAcknowledge,
      onAddressV2 := onAddressV2, onWitnessTx := onWitnessTx, stage := .handled } := by
  obtain ⟨haddress, hwitness⟩ := h.wants hstage
  refine h.handled hstage (.inr (.inl ⟨rfl, rfl, rfl⟩)) s.timer complete onVersion onAcknowledge
    onAddressV2 onWitnessTx haddress hwitness fun hstopped => ?_
  rw [stopped_stop h.single.unparted] at hstopped
  cases hstopped

/-- The protocol rejects the message, where not both are received. -/
theorem Inv.rejected (h : Inv cfg s) {m : Message} (hstage : s.stage = .message m)
    (hstopped : s.channel.stopped = false) (hcomplete : s.isComplete = false) (fault : Fault)
    (complete onVersion onAcknowledge onAddressV2 onWitnessTx : Bool) :
    Inv cfg { s.rejection fault with
      complete := complete, onVersion := onVersion, onAcknowledge := onAcknowledge,
      onAddressV2 := onAddressV2, onWitnessTx := onWitnessTx, stage := .handled } := by
  obtain ⟨haddress, hwitness⟩ := h.wants hstage
  obtain ⟨hhandler, hresults⟩ := h.waiting hstopped hcomplete
  have hcall : s.rejection fault = { s with
      channel := s.channel.stop true, handler := false, results := [.failure fault],
      timer := s.timer.stop } := by
    unfold rejection callback handleHandshake Handshake.stop
    dsimp only
    rw [if_pos hhandler, hresults]
    rfl
  rw [hcall]
  refine h.handled hstage (.inr (.inr ⟨rfl, hhandler, rfl, fault, rfl⟩)) s.timer.stop complete onVersion
    onAcknowledge onAddressV2 onWitnessTx haddress hwitness fun hstopped => ?_
  rw [stopped_stop h.single.unparted] at hstopped
  cases hstopped

/-- A second version, or a second acknowledgement. -/
theorem Inv.duplicate (h : Inv cfg s) {m : Message} (hstage : s.stage = .message m)
    (hstopped : s.channel.stopped = false)
    (complete onVersion onAcknowledge onAddressV2 onWitnessTx : Bool) :
    Inv cfg { s.duplicate with
      complete := complete, onVersion := onVersion, onAcknowledge := onAcknowledge,
      onAddressV2 := onAddressV2, onWitnessTx := onWitnessTx, stage := .handled } := by
  unfold Handshake.duplicate
  split
  · exact h.violated hstage complete onVersion onAcknowledge onAddressV2 onWitnessTx
  · next hcomplete =>
    exact h.rejected hstage hstopped ((Bool.not_eq_true _).mp hcomplete) .protocolViolation complete
      onVersion onAcknowledge onAddressV2 onWitnessTx

/-- Neither a version nor an acknowledgement, and no signal that is not in its window. -/
theorem Facts.other {log : List Message} {m : Message} (h : Facts cfg s log) (hversion : m.isVersion = false)
    (hacknowledge : m ≠ .versionAcknowledge)
    (hsignal : cfg.signals = true → m.isSignal = true → Window cfg log) : Facts cfg s (log ++ [m]) :=
  { h with
    versions := by
      rw [List.countP_append, h.versions]
      simp [hversion]
    acknowledges := by
      rw [List.count_append, h.acknowledges]
      simp [hacknowledge]
    version := fun hreceived => by
      obtain ⟨message, now, hmem, hrest⟩ := h.version hreceived
      exact ⟨message, now, List.mem_append_left _ hmem, hrest⟩
    signals := fun hsignals => windowed_append (h.signals hsignals) (hsignal hsignals) }

/-- A signal that finds the version received and no acknowledgement is in the window. -/
theorem Facts.window {log : List Message} (h : Facts cfg s log) (hsignals : cfg.signals = true)
    (hplaced : s.misplaced = false) : Window cfg log := by
  unfold misplaced at hplaced
  rw [Bool.or_eq_false_iff] at hplaced
  obtain ⟨hvalue, hcomplete⟩ := hplaced
  have hreceived : s.receivedVersion = true := by
    by_contra hfalse
    rw [h.absent ((Bool.not_eq_true _).mp hfalse)] at hvalue
    cases hvalue
  obtain ⟨message, now, hmem, hacceptable, -⟩ := h.version hreceived
  refine ⟨⟨message, now, hmem, hacceptable⟩, fun hack => ?_⟩
  have hcount := List.count_pos_iff.mpr hack
  rw [h.acknowledges, ← h.complete hsignals, hcomplete] at hcount
  exact absurd hcount (Nat.lt_irrefl 0)

theorem Inv.live_facts (h : Inv cfg s) (hstopped : s.channel.stopped = false) : Facts cfg s s.seen :=
  h.facts (.inl hstopped)

/-- A signal is handled, of either kind. -/
theorem Inv.signal (h : Inv cfg s) {m : Message} (hstage : s.stage = .message m)
    (hm : m = .sendAddressV2 ∨ m = .witnessTxIdRelay) (hsignals : cfg.signals = true)
    (hstopped : s.channel.stopped = false) (hplaced : s.misplaced = false) {wantsAddressV2 wantsWitnessTx : Bool}
    (haddress : wantsAddressV2 = true → s.wantsAddressV2 = true ∨ m = .sendAddressV2)
    (hwitness : wantsWitnessTx = true → s.wantsWitnessTx = true ∨ m = .witnessTxIdRelay) :
    Inv cfg { s with
      wantsAddressV2 := wantsAddressV2, wantsWitnessTx := wantsWitnessTx, stage := .handled } := by
  have hlog := h.unlogged hstage
  have hwindow := (h.live_facts hstopped).window hsignals hplaced
  obtain ⟨hbefore, hbeforeWitness⟩ := h.wants hstage
  have hself : Signaled cfg s.log m := ⟨s.seen, [], hlog, hwindow⟩
  refine h.handled hstage (.inl ⟨rfl, rfl, rfl⟩) s.timer s.complete s.onVersion s.onAcknowledge
    s.onAddressV2 s.onWitnessTx (fun hwants => ?_) (fun hwants => ?_) fun _ => ?_
  · rcases haddress hwants with hold | rfl
    · exact hbefore hold
    · exact hself
  · rcases hwitness hwants with hold | rfl
    · exact hbeforeWitness hold
    · exact hself
  · have hversion : m.isVersion = false := by rcases hm with rfl | rfl <;> rfl
    have hacknowledge : m ≠ .versionAcknowledge := by rcases hm with rfl | rfl <;> simp
    have hfacts := (h.live_facts hstopped).other hversion hacknowledge fun _ _ => hwindow
    rw [← hlog] at hfacts
    exact hfacts

theorem Inv.handleReceiveSendAddressV2 (h : Inv cfg s) (hstage : s.stage = .message .sendAddressV2)
    (hon : s.onAddressV2 = true) : Inv cfg s.handleReceiveSendAddressV2 := by
  unfold Handshake.handleReceiveSendAddressV2
  split
  · next hstopped =>
    exact h.ignored hstage s.complete s.onVersion s.onAcknowledge false s.onWitnessTx fun hfalse => by
      rw [hstopped] at hfalse
      cases hfalse
  · next hstopped =>
    rw [Bool.not_eq_true] at hstopped
    split
    · exact h.violated hstage s.complete s.onVersion s.onAcknowledge false s.onWitnessTx
    · next hplaced =>
      have hsignals : cfg.signals = true := by
        by_contra hfalse
        rw [((h.live_facts hstopped).unsignaled ((Bool.not_eq_true _).mp hfalse)).1] at hon
        cases hon
      exact h.signal hstage (.inl rfl) hsignals hstopped ((Bool.not_eq_true _).mp hplaced)
        (fun _ => .inr rfl) fun hwants => .inl hwants

theorem Inv.handleReceiveWitnessTxIdRelay (h : Inv cfg s) (hstage : s.stage = .message .witnessTxIdRelay)
    (hon : s.onWitnessTx = true) : Inv cfg s.handleReceiveWitnessTxIdRelay := by
  unfold Handshake.handleReceiveWitnessTxIdRelay
  split
  · next hstopped =>
    exact h.ignored hstage s.complete s.onVersion s.onAcknowledge s.onAddressV2 false fun hfalse => by
      rw [hstopped] at hfalse
      cases hfalse
  · next hstopped =>
    rw [Bool.not_eq_true] at hstopped
    split
    · exact h.violated hstage s.complete s.onVersion s.onAcknowledge s.onAddressV2 false
    · next hplaced =>
      have hsignals : cfg.signals = true := by
        by_contra hfalse
        rw [((h.live_facts hstopped).unsignaled ((Bool.not_eq_true _).mp hfalse)).2] at hon
        cases hon
      have hplaced := (Bool.not_eq_true _).mp hplaced
      split
      · exact h.signal hstage (.inr rfl) hsignals hstopped hplaced (fun hwants => .inl hwants)
          fun _ => .inr rfl
      · exact h.signal hstage (.inr rfl) hsignals hstopped hplaced (fun hwants => .inl hwants)
          fun hwants => .inl hwants

/-- The first version, which is acceptable. -/
theorem Inv.accepted (h : Inv cfg s) {message : Version} {now : ℤ}
    (hstage : s.stage = .message (.version message now)) (hstopped : s.channel.stopped = false)
    (hreceived : s.receivedVersion = false) (hrefusal : cfg.refusal message now = none)
    (acknowledgeSends : ℕ) : Inv cfg { s with
      negotiatedVersion := min message.value cfg.maximumVersion, peerVersion := some message,
      acknowledgeSends := acknowledgeSends, receivedVersion := true, stage := .version } := by
  have hlog := h.unlogged hstage
  obtain ⟨haddress, hwitness⟩ := h.wants hstage
  have hbegun := h.begun (by rw [hstage]; simp)
  have hunsettled : ¬s.Settled := fun hsettled => by
    have := hsettled.1
    unfold isComplete at this
    rw [hreceived] at this
    cases this
  have hfacts := h.live_facts hstopped
  have hstages := h.stage
  rw [hstage] at hstages
  exact { h with
    stage := by simpa using hstages
    started := fun hfalse => by
      rw [show s.channel.begun = false from hfalse] at hbegun
      cases hbegun
    success := fun hsome => absurd (h.success hsome) hunsettled
    pending := fun _ hm => by cases hm
    logged := fun _ hm => by cases hm
    version := fun _ => rfl
    acknowledge := fun hm => by cases hm
    paused := fun hsettled => absurd rfl hsettled.2.1
    unpaused := fun hsettled => absurd rfl hsettled.2.1
    unsettled := fun _ => h.unsettled hunsettled
    facts := fun _ => by
      show Facts cfg _ s.log
      rw [hlog]
      exact { hfacts with
        versions := by
          rw [List.countP_append, hfacts.versions, hreceived]
          rfl
        acknowledges := by
          rw [List.count_append, hfacts.acknowledges]
          simp
        version := fun _ => ⟨message, now, by simp, acceptable_of_refusal hrefusal, rfl, rfl⟩
        absent := fun hfalse => by cases hfalse
        signals := fun hsignals => windowed_append (hfacts.signals hsignals) fun hsignal => by cases hsignal }
    wantsAddressV2 := haddress
    wantsWitnessTx := hwitness }

/-- The first acknowledgement. -/
theorem Inv.acknowledged (h : Inv cfg s) (hstage : s.stage = .message .versionAcknowledge)
    (hstopped : s.channel.stopped = false) (hreceived : s.receivedAcknowledge = false) :
    Inv cfg { s with
      complete := cfg.signals || s.complete, receivedAcknowledge := true, stage := .acknowledge } := by
  have hlog := h.unlogged hstage
  obtain ⟨haddress, hwitness⟩ := h.wants hstage
  have hbegun := h.begun (by rw [hstage]; simp)
  have hunsettled : ¬s.Settled := fun hsettled => by
    have := hsettled.1
    unfold isComplete at this
    rw [hreceived, Bool.and_false] at this
    cases this
  have hfacts := h.live_facts hstopped
  have hstages := h.stage
  rw [hstage] at hstages
  exact { h with
    stage := by simpa using hstages
    started := fun hfalse => by
      rw [show s.channel.begun = false from hfalse] at hbegun
      cases hbegun
    success := fun hsome => absurd (h.success hsome) hunsettled
    pending := fun _ hm => by cases hm
    logged := fun _ hm => by cases hm
    version := fun hm => by cases hm
    acknowledge := fun _ => rfl
    paused := fun hsettled => absurd rfl hsettled.2.2
    unpaused := fun hsettled => absurd rfl hsettled.2.2
    unsettled := fun _ => h.unsettled hunsettled
    facts := fun _ => by
      show Facts cfg _ s.log
      rw [hlog]
      exact { hfacts with
        versions := by
          rw [List.countP_append, hfacts.versions]
          rfl
        acknowledges := by
          rw [List.count_append, hfacts.acknowledges, hreceived]
          simp
        version := fun hversion => by
          obtain ⟨message, now, hmem, hrest⟩ := hfacts.version hversion
          exact ⟨message, now, List.mem_append_left _ hmem, hrest⟩
        complete := fun hsignals => by
          dsimp only
          rw [hsignals, Bool.true_or]
        signals := fun hsignals => windowed_append (hfacts.signals hsignals) fun hsignal => by cases hsignal }
    wantsAddressV2 := haddress
    wantsWitnessTx := hwitness }

theorem Inv.handleReceiveVersion (h : Inv cfg s) {message : Version} {now : ℤ}
    (hstage : s.stage = .message (.version message now)) :
    Inv cfg (s.handleReceiveVersion cfg message now) := by
  unfold Handshake.handleReceiveVersion
  split
  · next hstopped =>
    exact h.ignored hstage s.complete s.onVersion s.onAcknowledge s.onAddressV2 s.onWitnessTx fun hfalse => by
      rw [hstopped] at hfalse
      cases hfalse
  · next hstopped =>
    rw [Bool.not_eq_true] at hstopped
    split
    · exact h.duplicate hstage hstopped _ _ _ _ _
    · next hreceived =>
      rw [Bool.not_eq_true] at hreceived
      split
      · have hcomplete : s.isComplete = false := by
          unfold isComplete
          rw [hreceived, Bool.false_and]
        exact h.rejected hstage hstopped hcomplete _ _ _ _ _ _
      · next hrefusal => exact h.accepted hstage hstopped hreceived hrefusal _

theorem Inv.handleReceiveAcknowledge (h : Inv cfg s) (hstage : s.stage = .message .versionAcknowledge) :
    Inv cfg (s.handleReceiveAcknowledge cfg) := by
  unfold Handshake.handleReceiveAcknowledge
  dsimp only
  split
  · next hstopped =>
    exact h.ignored hstage (cfg.signals || s.complete) s.onVersion false s.onAddressV2 s.onWitnessTx
      fun hfalse => by
        rw [hstopped] at hfalse
        cases hfalse
  · next hstopped =>
    rw [Bool.not_eq_true] at hstopped
    split
    · have hsame : ({ s with complete := cfg.signals || s.complete } : Handshake).duplicate =
          { s.duplicate with complete := cfg.signals || s.complete } := by
        unfold Handshake.duplicate rejection callback handleHandshake Handshake.stop isComplete
        dsimp only
        split
        · rfl
        · split <;> rfl
      rw [hsame]
      exact h.duplicate hstage hstopped _ _ _ _ _
    · next hreceived => exact h.acknowledged hstage hstopped ((Bool.not_eq_true _).mp hreceived)

theorem Inv.notify (h : Inv cfg s) {m : Message} (hstage : s.stage = .message m) :
    Inv cfg (s.notify cfg m) := by
  -- A message that is not subscribed to is no signal, or the channel is stopped.
  have hignored (hunused : s.channel.stopped = false → m.isVersion = false ∧ m ≠ .versionAcknowledge ∧
      (cfg.signals = true → m.isSignal = false)) : Inv cfg { s with stage := .handled } := by
    refine h.ignored hstage s.complete s.onVersion s.onAcknowledge s.onAddressV2 s.onWitnessTx fun hstopped => ?_
    obtain ⟨hversion, hacknowledge, hsignal⟩ := hunused hstopped
    have hfacts := (h.live_facts hstopped).other hversion hacknowledge fun hsignals htrue => by
      rw [hsignal hsignals] at htrue
      cases htrue
    rw [← h.unlogged hstage] at hfacts
    exact hfacts
  unfold Handshake.notify
  cases m with
  | version message now =>
    dsimp only
    split
    · exact h.handleReceiveVersion hstage
    · next hon => exact hignored fun hstopped => absurd (h.live_facts hstopped).subscribed.1 hon
  | versionAcknowledge =>
    dsimp only
    split
    · exact h.handleReceiveAcknowledge hstage
    · next hon => exact hignored fun hstopped => absurd (h.live_facts hstopped).subscribed.2 hon
  | sendAddressV2 =>
    dsimp only
    split
    · next hon => exact h.handleReceiveSendAddressV2 hstage hon
    · next hon =>
      exact hignored fun hstopped => ⟨rfl, by simp, fun hsignals =>
        absurd ((h.live_facts hstopped).signaled hsignals).1 hon⟩
  | witnessTxIdRelay =>
    dsimp only
    split
    · next hon => exact h.handleReceiveWitnessTxIdRelay hstage hon
    · next hon =>
      exact hignored fun hstopped => ⟨rfl, by simp, fun hsignals =>
        absurd ((h.live_facts hstopped).signaled hsignals).2 hon⟩
  | other => exact hignored fun _ => ⟨rfl, by simp, fun _ => rfl⟩

/-- The pause is made where both are received. -/
theorem Inv.concluded (h : Inv cfg s) (hstage : s.stage = .version ∨ s.stage = .acknowledge) :
    Inv cfg { s with
      channel := if s.isComplete then s.channel.pause else s.channel, stage := .handled } := by
  have hbegun := h.begun (by rcases hstage with hstage | hstage <;> rw [hstage] <;> simp)
  have hunsettled : ¬s.Settled := by
    rintro ⟨-, hversion, hacknowledge⟩
    exact hstage.elim hversion hacknowledge
  obtain ⟨hpaused, hdue⟩ := h.unsettled hunsettled
  obtain ⟨n, hgate⟩ : ∃ n, s.channel.gate = some n := by
    cases hgate : s.channel.gate with
    | none =>
      have := h.stage.mpr hgate
      rcases hstage with hstage | hstage <;> rw [this] at hstage <;> cases hstage
    | some n => exact ⟨n, rfl⟩
  have hfacts : Facts cfg s s.log := by
    have hfacts := h.facts (hstage.elim (fun hm => .inr (.inl hm)) fun hm => .inr (.inr (.inl hm)))
    unfold seen at hfacts
    rcases hstage with hstage | hstage <;> rw [hstage] at hfacts <;> exact hfacts
  have hseen : s.seen = s.log := by
    unfold seen
    rcases hstage with hstage | hstage <;> rw [hstage]
  have hattached : s.attached = false := by
    by_contra htrue
    exact hunsettled (h.success (h.attached ((Bool.not_eq_false _).mp htrue)))
  have hc : ∀ c, c = (if s.isComplete then s.channel.pause else s.channel) →
      c.Inv ∧ c.Single ∧ c.stopped = s.channel.stopped ∧ c.stoppings = s.channel.stoppings ∧
        c.gate = s.channel.gate ∧ c.begun = true ∧
        (s.isComplete = true → c.paused = true ∧ c.due = true ∧ (c.held.isSome = true ∨ c.stopped = true)) ∧
        (s.isComplete = false → c = s.channel) := by
    rintro c rfl
    split
    · next hcomplete =>
      refine ⟨h.channel.pause (hdue hbegun), h.single.pause hgate, ?_⟩
      rw [Channel.pause_eq hgate]
      refine ⟨rfl, rfl, rfl, hbegun, fun _ => ⟨rfl, rfl, ?_⟩, fun hfalse => by rw [hcomplete] at hfalse; cases hfalse⟩
      dsimp only
      split
      · next hstopped => exact .inr hstopped
      · exact .inl rfl
    · next hcomplete =>
      exact ⟨h.channel, h.single, rfl, rfl, rfl, hbegun, fun htrue => absurd htrue hcomplete, fun _ => rfl⟩
  obtain ⟨hinv, hsingle, hstopped, hstoppings, hgates, hbegun', hcomplete, hidle⟩ := hc _ rfl
  exact {
    channel := hinv
    single := hsingle
    handler := h.handler
    failed := fun fault hfault => hstopped.trans (h.failed fault hfault)
    stoppings := fun hs hzero => h.stoppings (hstopped.symm.trans hs) (hstoppings.symm.trans hzero)
    stage := by
      dsimp only
      rw [hgates, hgate]
      simp
    started := fun hfalse => by
      rw [show Channel.begun _ = false from hfalse] at hbegun'
      cases hbegun'
    success := fun hsome => absurd (h.success hsome) hunsettled
    attached := h.attached
    pending := fun _ hm => by cases hm
    logged := fun _ hm => by cases hm
    version := fun hm => by cases hm
    acknowledge := fun hm => by cases hm
    paused := fun hsettled _ => hcomplete hsettled.1
    unpaused := fun _ htrue => by
      rw [show s.attached = true from htrue] at hattached
      cases hattached
    unsettled := fun hnot => by
      have hfalse : s.isComplete = false := by
        by_contra htrue
        exact hnot ⟨(Bool.not_eq_false _).mp htrue, by simp, by simp⟩
      dsimp only
      rw [hidle hfalse]
      exact ⟨hpaused, hdue⟩
    facts := fun _ => by
      obtain ⟨h₁, h₂, h₃, h₄, h₅, h₆, h₇, h₈, h₉, h₁₀⟩ := hfacts
      exact ⟨h₁, h₂, h₃, h₄, h₅, h₆, h₇, h₈, h₉, h₁₀⟩
    wantsAddressV2 := fun hwants => by
      have := h.wantsAddressV2 hwants
      rw [hseen] at this
      exact this
    wantsWitnessTx := fun hwants => by
      have := h.wantsWitnessTx hwants
      rw [hseen] at this
      exact this }

theorem Inv.conclude (h : Inv cfg s) : Inv cfg s.conclude := by
  unfold Handshake.conclude
  split
  · next hstage =>
    have hsame := h.concluded (.inl hstage)
    have hcomplete : s.isComplete = s.receivedAcknowledge := by
      unfold isComplete
      rw [h.version hstage, Bool.true_and]
    rw [hcomplete] at hsame
    dsimp only
    split at hsame
    · next hreceived =>
      rw [if_pos hreceived]
      exact hsame
    · next hreceived =>
      rw [if_neg hreceived]
      exact hsame
  · next hstage =>
    have hfacts := h.facts (.inr (.inr (.inl hstage)))
    unfold seen at hfacts
    rw [hstage] at hfacts
    have hsame := h.concluded (.inr hstage)
    have hcomplete : s.isComplete = s.receivedVersion := by
      unfold isComplete
      rw [h.acknowledge hstage, Bool.and_true]
    rw [hcomplete] at hsame
    split at hsame
    · next hreceived =>
      have hpaused : s.pause.isComplete = true := hcomplete.trans hreceived
      dsimp only
      rw [if_pos hreceived, if_pos hpaused]
      have hcall := hsame.callback_success ⟨hpaused, by simp, by simp⟩ (by simp) (by
        obtain ⟨h₁, h₂, h₃, h₄, h₅, h₆, h₇, h₈, h₉, h₁₀⟩ := hfacts
        exact ⟨h₁, h₂, h₃, h₄, h₅, h₆, h₇, h₈, h₉, h₁₀⟩)
      unfold callback handleHandshake at hcall ⊢
      unfold Handshake.pause
      dsimp only at hcall ⊢
      split
      · next hhandler =>
        rw [if_pos hhandler] at hcall
        exact hcall
      · next hhandler =>
        rw [if_neg hhandler] at hcall
        exact hcall
    · next hreceived =>
      have hidle : ¬s.isComplete = true := by
        rw [hcomplete]
        exact hreceived
      dsimp only
      rw [if_neg hreceived, if_neg hidle]
      exact hsame
  · exact h

/-- A read is outstanding on no channel that waits for the session. -/
theorem Inv.free (h : Inv cfg s) (hreads : s.channel.reads ≠ 0) (hstopped : s.channel.stopped = false)
    (hsome : s.results = [.success]) : s.attached = true := by
  by_contra hfalse
  have hpaused := (h.paused (h.success hsome) ((Bool.not_eq_true _).mp hfalse)).1
  rcases h.channel.paused hpaused with hstop | ⟨n, hheld⟩
  · rw [hstopped] at hstop
    cases hstop
  · exact (h.channel.idle (Nat.pos_of_ne_zero hreads)).2.2 n hheld

/-- A message is read, and the protocol is to be notified of it. -/
theorem Inv.received (h : Inv cfg s) (m : Message) (hreads : s.channel.reads ≠ 0)
    (hgate : s.channel.gate = none) (hstopped : s.channel.stopped = false) :
    Inv cfg { s with
      channel := s.channel.step (.received false), stage := .message m, log := s.log ++ [m] } := by
  have hstage := h.stage.mpr hgate
  have hkept := Channel.kept_received h.single.unparted false
  have hopen := Channel.gate_received h.single.http hreads hgate hstopped
  have hseen : s.seen = s.log := by
    unfold seen
    rw [hstage]
  have hsame : s.isComplete = true → s.Settled := fun hcomplete =>
    ⟨hcomplete, by rw [hstage]; simp, by rw [hstage]; simp⟩
  exact {
    channel := Channel.step_inv s.channel (.received false) h.channel (h.single.clear trivial)
    single := h.single.received false
    handler := h.handler
    failed := fun fault hfault => hkept.stopped (h.failed fault hfault)
    stoppings := fun hstop hzero =>
      h.stoppings (hkept.stoppings hstop hzero).1 (hkept.stoppings hstop hzero).2
    stage := by
      dsimp only
      rw [hopen]
      simp
    started := fun hfalse => h.started (hkept.begun.symm.trans hfalse)
    success := fun hsome => ⟨(h.success hsome).1, by simp, by simp⟩
    attached := h.attached
    pending := fun _ _ hsome => h.free hreads hstopped hsome
    logged := fun m' hm => ⟨s.log, by cases hm; rfl⟩
    version := fun hm => by cases hm
    acknowledge := fun hm => by cases hm
    paused := fun hsettled hfalse => by
      obtain ⟨hpaused, hdue, hheld⟩ := h.paused (hsame hsettled.1) hfalse
      refine ⟨hkept.paused.trans hpaused, hkept.due.trans hdue, ?_⟩
      rcases hheld with hheld | hstop
      · exact .inl (by rw [hkept.held]; exact hheld)
      · exact .inr (hkept.stopped hstop)
    unpaused := fun hsettled htrue => by
      obtain ⟨hpaused, hdue⟩ := h.unpaused (hsame hsettled.1) htrue
      exact ⟨hkept.paused.trans hpaused, hkept.due.trans hdue⟩
    unsettled := fun hnot => by
      obtain ⟨hpaused, hdue⟩ := h.unsettled fun hsettled => hnot ⟨hsettled.1, by simp, by simp⟩
      exact ⟨hkept.paused.trans hpaused, fun hbegun =>
        hkept.due.trans (hdue (hkept.begun.symm.trans hbegun))⟩
    facts := fun _ => by
      show Facts cfg _ (s.log ++ [m]).dropLast
      rw [List.dropLast_concat, ← hseen]
      obtain ⟨h₁, h₂, h₃, h₄, h₅, h₆, h₇, h₈, h₉, h₁₀⟩ := h.live_facts hstopped
      exact ⟨h₁, h₂, h₃, h₄, h₅, h₆, h₇, h₈, h₉, h₁₀⟩
    wantsAddressV2 := fun hwants => by
      show Signaled cfg (s.log ++ [m]).dropLast _
      rw [List.dropLast_concat, ← hseen]
      exact h.wantsAddressV2 hwants
    wantsWitnessTx := fun hwants => by
      show Signaled cfg (s.log ++ [m]).dropLast _
      rw [List.dropLast_concat, ← hseen]
      exact h.wantsWitnessTx hwants }

/-- A dispatch ends behind the protocol, or fails before it. -/
theorem Inv.dispatched (h : Inv cfg s) {failed : Bool}
    (hstage : s.stage = .handled ∨ failed = true ∧ ∃ m, s.stage = .message m) :
    Inv cfg { s with channel := s.channel.step (.dispatched failed), stage := .idle } := by
  have hkept := Channel.kept_dispatched h.single.unparted failed
  have hnot : s.stage ≠ .version ∧ s.stage ≠ .acknowledge ∧ s.stage ≠ .idle := by
    rcases hstage with hstage | ⟨-, m, hstage⟩ <;> rw [hstage] <;> simp
  have hwants : (s.wantsAddressV2 = true → Signaled cfg s.log .sendAddressV2) ∧
      (s.wantsWitnessTx = true → Signaled cfg s.log .witnessTxIdRelay) := by
    rcases hstage with hstage | ⟨-, m, hstage⟩
    · have haddress := h.wantsAddressV2
      have hwitness := h.wantsWitnessTx
      unfold seen at haddress hwitness
      rw [hstage] at haddress hwitness
      exact ⟨haddress, hwitness⟩
    · exact h.wants hstage
  have hsame : s.isComplete = true → s.Settled := fun hcomplete => ⟨hcomplete, hnot.1, hnot.2.1⟩
  exact {
    channel := Channel.step_inv s.channel (.dispatched failed) h.channel (h.single.clear trivial)
    single := h.single.step (e := .dispatched failed) trivial
    handler := h.handler
    failed := fun fault hfault => hkept.stopped (h.failed fault hfault)
    stoppings := fun hstop hzero =>
      h.stoppings (hkept.stoppings hstop hzero).1 (hkept.stoppings hstop hzero).2
    stage := by
      dsimp only
      rw [Channel.gate_dispatched]
      simp
    started := fun hfalse => h.started (hkept.begun.symm.trans hfalse)
    success := fun hsome => ⟨(h.success hsome).1, by simp, by simp⟩
    attached := h.attached
    pending := fun _ hm => by cases hm
    logged := fun _ hm => by cases hm
    version := fun hm => by cases hm
    acknowledge := fun hm => by cases hm
    paused := fun hsettled hfalse => by
      obtain ⟨hpaused, hdue, hheld⟩ := h.paused (hsame hsettled.1) hfalse
      refine ⟨hkept.paused.trans hpaused, hkept.due.trans hdue, ?_⟩
      rcases hheld with hheld | hstop
      · exact .inl (by rw [hkept.held]; exact hheld)
      · exact .inr (hkept.stopped hstop)
    unpaused := fun hsettled htrue => by
      obtain ⟨hpaused, hdue⟩ := h.unpaused (hsame hsettled.1) htrue
      exact ⟨hkept.paused.trans hpaused, hkept.due.trans hdue⟩
    unsettled := fun hset => by
      obtain ⟨hpaused, hdue⟩ := h.unsettled fun hsettled => hset ⟨hsettled.1, by simp, by simp⟩
      exact ⟨hkept.paused.trans hpaused, fun hbegun =>
        hkept.due.trans (hdue (hkept.begun.symm.trans hbegun))⟩
    facts := fun hlive => by
      rcases hstage with hstage | ⟨rfl, m, hstage⟩
      · have hsame : s.Live := by
          rcases hlive with hstop | hversion | hacknowledge | hsome
          · refine .inl ?_
            by_contra htrue
            rw [hkept.stopped ((Bool.not_eq_false _).mp htrue)] at hstop
            cases hstop
          · cases hversion
          · cases hacknowledge
          · exact .inr (.inr (.inr hsome))
        have hfacts := h.facts hsame
        unfold seen at hfacts
        rw [hstage] at hfacts
        obtain ⟨h₁, h₂, h₃, h₄, h₅, h₆, h₇, h₈, h₉, h₁₀⟩ := hfacts
        exact ⟨h₁, h₂, h₃, h₄, h₅, h₆, h₇, h₈, h₉, h₁₀⟩
      · -- The channel is stopped, and no success waits for the session.
        exfalso
        rcases hlive with hstop | hversion | hacknowledge | ⟨hsome, hfalse⟩
        · have hgate : s.channel.gate.isSome = true := by
            cases hgate : s.channel.gate with
            | none => exact absurd (h.stage.mpr hgate) hnot.2.2
            | some n => rfl
          dsimp only [Channel.step] at hstop
          rw [if_pos hgate] at hstop
          unfold Channel.dispatched at hstop
          rw [if_pos rfl, stopped_stop ((Channel.parted_closeGate _).trans h.single.unparted)] at hstop
          cases hstop
        · cases hversion
        · cases hacknowledge
        · rw [show s.attached = true from h.pending m hstage hsome] at hfalse
          cases hfalse
    wantsAddressV2 := hwants.1
    wantsWitnessTx := hwants.2 }

/-! ### Steps -/

/-- The stop of the channel is notified. -/
theorem Inv.stopping (h : Inv cfg s) (hstoppings : s.channel.stoppings ≠ 0) :
    Inv cfg ({ s with channel := s.channel.step .stopping } : Handshake).stopping := by
  have hinv := Channel.step_inv s.channel .stopping h.channel (h.single.clear trivial)
  have hsingle := h.single.step (e := .stopping) trivial
  obtain ⟨hbegun, hdue, hpaused, hstopped, hgate⟩ := Channel.stopping_eq s.channel
  have hstop := hstopped.trans (h.channel.stopping (Nat.pos_of_ne_zero hstoppings))
  unfold Handshake.stopping callback
  dsimp only
  split
  · next hhandler =>
    have hkept := Channel.kept_stop hsingle.unparted true
    have hclear : Channel.Clear (s.channel.step .stopping) (.stop true) := hsingle.clear trivial
    refine h.halt (Channel.step_inv _ (.stop true) hinv hclear) (hsingle.stop true)
      ((Channel.gate_stop _ _).trans hgate) (hkept.begun.trans hbegun) (hkept.due.trans hdue)
      (hkept.paused.trans hpaused) (stopped_stop hsingle.unparted true)
      (.inr ⟨hhandler, .stopped, ?_⟩) s.timer.stop
    rcases h.handler with ⟨-, hnone⟩ | ⟨hfalse, -⟩
    · rw [hnone]
      rfl
    · rw [show s.handler = true from hhandler] at hfalse
      cases hfalse
  · next hhandler =>
    have hfalse : s.handler = false := (Bool.not_eq_true _).mp hhandler
    have hhalt := h.halt hinv hsingle hgate hbegun hdue hpaused hstop (.inl ⟨hfalse, rfl⟩) s.timer.stop
    rw [← hfalse] at hhalt
    exact hhalt

/-- The session resumes the channel, at first and where it has attached its protocols. -/
theorem Inv.resume (h : Inv cfg s) (hdue : s.channel.due = true) {attached : Bool}
    (hattached : attached = true ∧ s.results = [.success] ∨
      attached = s.attached ∧ s.channel.begun = false) :
    Inv cfg { s with channel := s.channel.resume, attached := attached } := by
  obtain ⟨hbegun, hdue', hpaused, hstopped, hstoppings⟩ := Channel.resume_eq s.channel
  have hsettled : attached = false → ¬s.Settled := by
    rintro hfalse hsettled
    rcases hattached with ⟨htrue, -⟩ | ⟨-, hfresh⟩
    · rw [hfalse] at htrue
      cases htrue
    · have hcomplete := hsettled.1
      rw [h.started hfresh] at hcomplete
      cases hcomplete
  have hsuccess : attached = true → s.results = [.success] := by
    intro htrue
    rcases hattached with ⟨-, hsome⟩ | ⟨hsame, -⟩
    · exact hsome
    · exact h.attached (hsame.symm.trans htrue)
  exact {
    channel := h.channel.resume hdue
    single := h.single.resume h.channel hdue
    handler := h.handler
    failed := fun fault hfault => hstopped.trans (h.failed fault hfault)
    stoppings := fun hs hzero => h.stoppings (hstopped.symm.trans hs) (hstoppings.symm.trans hzero)
    stage := h.stage.trans (by rw [Channel.gate_resume])
    started := fun hfalse => by
      rw [show s.channel.resume.begun = false from hfalse] at hbegun
      cases hbegun
    success := h.success
    attached := hsuccess
    pending := fun m hm hsome => by
      rcases hattached with ⟨htrue, -⟩ | ⟨hsame, -⟩
      · exact htrue
      · exact hsame.trans (h.pending m hm hsome)
    logged := h.logged
    version := h.version
    acknowledge := h.acknowledge
    paused := fun hs hfalse => absurd hs (hsettled hfalse)
    unpaused := fun _ _ => ⟨hpaused, hdue'⟩
    unsettled := fun _ => ⟨hpaused, fun _ => hdue'⟩
    facts := fun hlive => by
      have hsame : s.Live := by
        rcases hlive with hs | hversion | hacknowledge | ⟨hsome, hfalse⟩
        · exact .inl (hstopped.symm.trans hs)
        · exact .inr (.inl hversion)
        · exact .inr (.inr (.inl hacknowledge))
        · exact absurd (h.success hsome) (hsettled hfalse)
      obtain ⟨h₁, h₂, h₃, h₄, h₅, h₆, h₇, h₈, h₉, h₁₀⟩ := h.facts hsame
      exact ⟨h₁, h₂, h₃, h₄, h₅, h₆, h₇, h₈, h₉, h₁₀⟩
    wantsAddressV2 := h.wantsAddressV2
    wantsWitnessTx := h.wantsWitnessTx }

/-- A send completes, on a channel that is stopped where it failed. -/
theorem Inv.handleSend (h : Inv cfg s) (failed : Bool) : Inv cfg (s.handleSend failed) := by
  unfold Handshake.handleSend
  split
  · exact h.stop true
  · exact h

theorem Inv.handleSendVersion (h : Inv cfg s) (failed : Bool) : Inv cfg (s.handleSendVersion cfg failed) := by
  unfold Handshake.handleSendVersion
  split
  · exact h
  · split
    · exact h.posted .waiting s.versionSends s.acknowledgeSends
    · exact h

theorem Inv.handleSendAcknowledge (h : Inv cfg s) (hstage : s.stage = .idle) (failed : Bool) :
    Inv cfg (s.handleSendAcknowledge failed) := by
  unfold Handshake.handleSendAcknowledge
  split
  · exact h
  · next hrun =>
    split
    · next hcomplete =>
      simp only [Bool.or_eq_true, not_or, Bool.not_eq_true] at hrun
      refine h.callback_success ⟨hcomplete, ?_, ?_⟩ (fun m => ?_) (h.live_facts hrun.1) <;> rw [hstage] <;> simp
    · exact h

theorem Inv.handleTimer (h : Inv cfg s) (canceled : Bool) : Inv cfg (s.handleTimer canceled) := by
  unfold Handshake.handleTimer
  split
  · exact h
  · split
    · exact h.callback_failure _
    · exact h.callback_failure _

theorem step_inv (cfg : Settings) (s : Handshake) (e : Event) (h : Inv cfg s) : Inv cfg (s.step cfg e) := by
  cases e with
  | begin =>
    dsimp only [step]
    split
    · exact h
    · next hbegun =>
      have hfresh := h.channel.fresh ((Bool.not_eq_true _).mp hbegun)
      exact h.resume hfresh.2.2.2.2 (.inr ⟨rfl, (Bool.not_eq_true _).mp hbegun⟩)
  | received m =>
    dsimp only [step]
    split
    · next hidle =>
      exact h.event trivial (Channel.kept_received h.single.unparted false) (Channel.gate_unread hidle)
    · next hrun =>
      rw [not_or, not_or] at hrun
      exact h.received m hrun.1 (by simpa using hrun.2.1) ((Bool.not_eq_true _).mp hrun.2.2)
  | failed =>
    exact h.event trivial (Channel.kept_received h.single.unparted true) (Channel.gate_failed s.channel)
  | notify =>
    dsimp only [step]
    split
    · next m hstage => exact h.notify hstage
    · exact h
  | conclude => exact h.conclude
  | dispatched failed =>
    dsimp only [step]
    split
    · next m hstage =>
      split
      · exact h.dispatched (.inr ⟨rfl, m, hstage⟩)
      · exact h
    · next hstage => exact h.dispatched (.inl hstage)
    · exact h
  | take n => exact h.event trivial (Channel.kept_take s.channel n) (Channel.gate_take s.channel n)
  | release n => exact h.event trivial (Channel.kept_drop s.channel n) (Channel.gate_drop s.channel n)
  | rearm => exact h.event trivial (Channel.kept_rearm s.channel) (Channel.gate_rearm s.channel)
  | stop stranded => exact h.stop stranded
  | stopping =>
    dsimp only [step]
    split
    · exact h
    · next hrun =>
      rw [not_or] at hrun
      exact h.stopping hrun.1
  | sentVersion failed =>
    dsimp only [step]
    split
    · exact h
    · exact ((h.posted s.timer (s.versionSends - 1) s.acknowledgeSends).handleSend failed).handleSendVersion failed
  | sentAcknowledge failed =>
    dsimp only [step]
    split
    · exact h
    · next hrun =>
      rw [not_or] at hrun
      refine ((h.posted s.timer s.versionSends (s.acknowledgeSends - 1)).handleSend
        failed).handleSendAcknowledge ?_ failed
      have hstage := h.stage.mpr (by simpa using hrun.2)
      unfold Handshake.handleSend
      split
      · exact hstage
      · exact hstage
  | expire =>
    dsimp only [step]
    split
    · exact h.posted .expired s.versionSends s.acknowledgeSends
    · exact h
  | timer =>
    dsimp only [step]
    split
    · exact h
    · split
      · exact (h.posted .idle s.versionSends s.acknowledgeSends).handleTimer false
      · exact (h.posted .idle s.versionSends s.acknowledgeSends).handleTimer true
      · exact h
  | attach =>
    dsimp only [step]
    split
    · next hrun =>
      exact h.resume (h.paused (h.success hrun.1) hrun.2.1).2.1 (.inl ⟨rfl, hrun.1⟩)
    · exact h

/-- A protocol that was started, on a channel that is new or stopped at once. -/
theorem started_inv {c : Channel} (hc : c = { http := false } ∨ c = Channel.stop { http := false } true)
    {handler : Bool} {results : List Result}
    (hresults : handler = true ∧ results = [] ∨
      handler = false ∧ ∃ fault, results = [.failure fault] ∧ c.stopped = true)
    (onVersion onAcknowledge : Bool) (versionSends : ℕ) (timer : Timer)
    (hfacts : c.stopped = false → cfg.Valid ∧ onVersion = true ∧ onAcknowledge = true) :
    Inv cfg {
      channel := c, handler := handler, results := results, negotiatedVersion := cfg.maximumVersion,
      onVersion := onVersion, onAcknowledge := onAcknowledge, onAddressV2 := cfg.signals,
      onWitnessTx := cfg.signals, versionSends := versionSends, timer := timer } := by
  have hnew : c.Inv ∧ c.Single ∧ c.gate = none ∧ c.paused = false ∧ c.begun = false ∧
      (c.stopped = true → c.stoppings ≠ 0) := by
    rcases hc with rfl | rfl
    · exact ⟨Channel.create_inv false, Channel.create_single, rfl, rfl, rfl, fun hstopped => by cases hstopped⟩
    · exact ⟨(Channel.create_inv false).stop fun _ _ => rfl, Channel.create_single.stop true, rfl, rfl, rfl,
        fun _ => Nat.succ_ne_zero 0⟩
  obtain ⟨hinv, hsingle, hgate, hpaused, hbegun, hstoppings⟩ := hnew
  have hsuccess : results ≠ [.success] := by
    rcases hresults with ⟨-, rfl⟩ | ⟨-, fault, rfl, -⟩ <;> simp
  exact {
    channel := hinv
    single := hsingle
    handler := by
      rcases hresults with hwaits | ⟨hfalse, fault, hfault, -⟩
      · exact .inl hwaits
      · exact .inr ⟨hfalse, .failure fault, hfault⟩
    failed := fun fault hfault => by
      rcases hresults with ⟨-, hnone⟩ | ⟨-, -, -, hstopped⟩
      · rw [show results = [.failure fault] from hfault] at hnone
        cases hnone
      · exact hstopped
    stoppings := fun hstopped hzero => absurd hzero (hstoppings hstopped)
    stage := ⟨fun _ => hgate, fun _ => rfl⟩
    started := fun _ => rfl
    success := fun hsome => absurd hsome hsuccess
    attached := fun htrue => by cases htrue
    pending := fun _ hm => by cases hm
    logged := fun _ hm => by cases hm
    version := fun hm => by cases hm
    acknowledge := fun hm => by cases hm
    paused := fun hsettled => absurd hsettled.1 Bool.false_ne_true
    unpaused := fun hsettled => absurd hsettled.1 Bool.false_ne_true
    unsettled := fun _ => ⟨hpaused, fun htrue => by
      rw [show c.begun = true from htrue] at hbegun
      cases hbegun⟩
    facts := fun hlive => by
      have hstopped : c.stopped = false := by
        rcases hlive with hstopped | hversion | hacknowledge | ⟨hsome, -⟩
        · exact hstopped
        · cases hversion
        · cases hacknowledge
        · exact absurd hsome hsuccess
      obtain ⟨hvalid, hsubscribed⟩ := hfacts hstopped
      exact {
        valid := hvalid
        versions := rfl
        acknowledges := rfl
        version := fun hreceived => by cases hreceived
        absent := fun _ => rfl
        complete := fun _ => rfl
        signals := fun _ before m rest hnil => by simp [seen] at hnil
        subscribed := hsubscribed
        signaled := fun hsignals => ⟨hsignals, hsignals⟩
        unsignaled := fun hsignals => ⟨hsignals, hsignals⟩ }
    wantsAddressV2 := fun hwants => by cases hwants
    wantsWitnessTx := fun hwants => by cases hwants }

theorem shake_inv (cfg : Settings) : Inv cfg (shake cfg) := by
  have hsignals : (if cfg.signals
      then { handler := true, negotiatedVersion := cfg.maximumVersion, onAddressV2 := true, onWitnessTx := true }
      else { handler := true, negotiatedVersion := cfg.maximumVersion } : Handshake) =
        { handler := true, negotiatedVersion := cfg.maximumVersion, onAddressV2 := cfg.signals,
          onWitnessTx := cfg.signals } := by
    cases cfg.signals <;> rfl
  have hinvalid := @started_inv cfg _ (.inr rfl) _ _ (.inr ⟨rfl, .invalidConfiguration, rfl, rfl⟩) false
    false 0 .idle fun hstopped => by cases hstopped
  unfold shake
  dsimp only
  rw [hsignals]
  split
  · exact hinvalid
  · next hminimum =>
    split
    · exact hinvalid
    · next hmaximum =>
      split
      · exact hinvalid
      · next hrange =>
        exact started_inv (.inl rfl) (.inl ⟨rfl, rfl⟩) true true 1 .idle fun _ =>
          ⟨⟨not_lt.mp hminimum, not_lt.mp hmaximum, not_lt.mp hrange⟩, rfl, rfl⟩

/-! ### What is dispatched -/

@[simp] theorem log_stop (s : Handshake) : s.stop.log = s.log := rfl

@[simp] theorem log_callback (s : Handshake) (result : Result) : (s.callback result).log = s.log := by
  unfold callback handleHandshake
  dsimp only
  split
  · cases result <;> rfl
  · rfl

@[simp] theorem log_duplicate (s : Handshake) : s.duplicate.log = s.log := by
  unfold Handshake.duplicate rejection
  split
  · rfl
  · rw [log_callback]

theorem log_notify (cfg : Settings) (s : Handshake) (m : Message) : (s.notify cfg m).log = s.log := by
  unfold Handshake.notify
  cases m with
  | version message now =>
    dsimp only
    split
    · unfold Handshake.handleReceiveVersion
      split
      · rfl
      · split
        · exact log_duplicate s
        · split
          · exact log_callback s _
          · rfl
    · rfl
  | versionAcknowledge =>
    dsimp only
    split
    · unfold Handshake.handleReceiveAcknowledge
      dsimp only
      split
      · rfl
      · split
        · exact log_duplicate _
        · rfl
    · rfl
  | sendAddressV2 =>
    dsimp only
    split
    · unfold Handshake.handleReceiveSendAddressV2
      split
      · rfl
      · split <;> rfl
    · rfl
  | witnessTxIdRelay =>
    dsimp only
    split
    · unfold Handshake.handleReceiveWitnessTxIdRelay
      split
      · rfl
      · split
        · rfl
        · split <;> rfl
    · rfl
  | other => rfl

theorem log_conclude (s : Handshake) : s.conclude.log = s.log := by
  unfold Handshake.conclude
  split
  · dsimp only
    split <;> rfl
  · dsimp only
    split
    · split
      · exact log_callback _ _
      · rfl
    · split
      · exact log_callback _ _
      · rfl
  · rfl

/-- A message is dispatched by a read alone, that was outstanding, on a channel that goes on. -/
theorem Dispatches.reads {e : Event} (h : Dispatches cfg s e) :
    s.channel.reads ≠ 0 ∧ s.channel.stopped = false := by
  unfold Dispatches at h
  by_contra hnot
  refine h ?_
  cases e with
  | begin =>
    dsimp only [step]
    split <;> rfl
  | received m =>
    dsimp only [step]
    split
    · rfl
    · next hrun => grind
  | failed => rfl
  | notify =>
    dsimp only [step]
    split
    · exact log_notify cfg s _
    · rfl
  | conclude => exact log_conclude s
  | dispatched failed =>
    dsimp only [step]
    split
    · split <;> rfl
    · rfl
    · rfl
  | take n => rfl
  | release n => rfl
  | rearm => rfl
  | stop stranded => rfl
  | stopping =>
    dsimp only [step]
    split
    · rfl
    · exact log_callback _ _
  | sentVersion failed =>
    dsimp only [step]
    unfold Handshake.handleSend Handshake.handleSendVersion
    grind [log_stop]
  | sentAcknowledge failed =>
    dsimp only [step]
    unfold Handshake.handleSend Handshake.handleSendAcknowledge
    grind [log_stop, log_callback]
  | expire =>
    dsimp only [step]
    split <;> rfl
  | timer =>
    dsimp only [step]
    unfold Handshake.handleTimer
    grind [log_callback]
  | attach =>
    dsimp only [step]
    split <;> rfl

theorem seen_eq (hstage : ∀ m, s.stage ≠ .message m) : s.seen = s.log := by
  unfold seen
  split
  · next m hm => exact absurd hm (hstage m)
  · rfl

/-- What was signaled to the protocol was dispatched. -/
theorem Inv.signaled (h : Inv cfg s) {m : Message} (hseen : Signaled cfg s.seen m) : Signaled cfg s.log m := by
  by_cases hstage : ∃ next, s.stage = .message next
  · obtain ⟨next, hnext⟩ := hstage
    rw [h.unlogged hnext]
    exact signaled_append hseen [next]
  · rw [← seen_eq fun next hnext => hstage ⟨next, hnext⟩]
    exact hseen

/-- What the protocol knows where the session is to attach its protocols. -/
theorem Inv.agreed (h : Inv cfg s) (hsome : s.results = [.success]) (hattached : s.attached = false) :
    Facts cfg s s.log ∧ s.receivedVersion = true ∧ s.receivedAcknowledge = true := by
  have hfacts := h.facts (.inr (.inr (.inr ⟨hsome, hattached⟩)))
  rw [seen_eq fun m hm => by rw [h.pending m hm hsome] at hattached; cases hattached] at hfacts
  have hcomplete := (h.success hsome).1
  unfold isComplete at hcomplete
  rw [Bool.and_eq_true] at hcomplete
  exact ⟨hfacts, hcomplete⟩

theorem Inv.gated (h : Inv cfg s) : Gated cfg s where
  once := by
    rcases h.handler with ⟨-, hnone⟩ | ⟨-, result, hresults⟩
    · rw [hnone]
      exact Nat.zero_le 1
    · rw [hresults]
      exact Nat.le_refl 1
  answered hstopped hzero := by
    rcases h.handler with ⟨htrue, -⟩ | ⟨-, result, hresults⟩
    · rw [h.stoppings hstopped hzero] at htrue
      cases htrue
    · rw [hresults]
      rfl
  agreed hsome hattached := by
    obtain ⟨hfacts, hversion, hacknowledge⟩ := h.agreed hsome hattached
    obtain ⟨message, now, hmem, hacceptable, -, hnegotiated⟩ := hfacts.version hversion
    refine ⟨?_, ?_, message, now, hmem, hacceptable, hnegotiated⟩
    · rw [hfacts.versions, hversion]
      rfl
    · rw [hfacts.acknowledges, hacknowledge]
      rfl
  negotiated hsome hattached := by
    obtain ⟨hfacts, hversion, -⟩ := h.agreed hsome hattached
    obtain ⟨message, now, -, hacceptable, -, hnegotiated⟩ := hfacts.version hversion
    rw [hnegotiated]
    exact Nat.le_min.mpr ⟨hacceptable.2.2.1, hfacts.valid.2.2⟩
  held hsome hattached := (h.paused (h.success hsome) hattached).2.2
  waits e he hsome := h.free he.reads.1 he.reads.2 hsome
  wantsAddressV2 hwants := h.signaled (h.wantsAddressV2 hwants)
  wantsWitnessTx hwants := h.signaled (h.wantsWitnessTx hwants)
  violated hstage hviolated := by
    by_contra hstopped
    have hfacts := h.live_facts ((Bool.not_eq_true _).mp hstopped)
    rw [seen_eq hstage] at hfacts
    rcases hviolated with hversions | hacknowledges | ⟨hsignals, before, m, rest, hlog, hm, hwindow⟩
    · rw [hfacts.versions] at hversions
      exact absurd hversions (not_lt.mpr (Bool.toNat_le _))
    · rw [hfacts.acknowledges] at hacknowledges
      exact absurd hacknowledges (not_lt.mpr (Bool.toNat_le _))
    · exact hwindow (hfacts.signals hsignals before m rest hlog hm)

/-- In every run of the handshake, of any messages, sends, timers and stops. -/
theorem handshake_gated (cfg : Settings) (events : List Event) :
    Gated cfg (after (step cfg) (shake cfg) events) :=
  (after_invariant (step_inv cfg) (shake_inv cfg) events).gated

def openSettings : Settings where
  minimumVersion := 31402
  maximumVersion := 70016
  requiredServices := 0
  invalidServices := 0
  maximumSkewMinutes := 120
  timed := true
  signals := true
  fromTimeT timestamp := timestamp * 1000000000

/-- A handshake that succeeds where the acknowledgement was sent, and is attached. -/
example : (after (step openSettings) (shake openSettings) [.begin, .received .versionAcknowledge, .notify,
    .conclude, .dispatched false, .rearm, .received (.version ⟨70016, 1, 0⟩ 0), .notify, .conclude,
    .dispatched false, .sentAcknowledge false, .attach]).attached = true := by decide

/-- The channel is held at the moment that the handler is called with success. -/
def HeldAtSuccess (cfg : Settings) : Prop :=
  ∀ events e, (after (step cfg) (shake cfg) events).results = [] →
    ((after (step cfg) (shake cfg) events).step cfg e).results = [.success] →
    ((after (step cfg) (shake cfg) events).step cfg e).channel.held.isSome = true

/-- A stop, that is not on the strand, falls between the test and the pause. -/
def stoppedBehindTest : List Event :=
  [.begin, .received (.version ⟨70016, 1, 0⟩ 0), .notify, .conclude, .dispatched false, .rearm,
    .received .versionAcknowledge, .notify, .stop false]

theorem not_heldAtSuccess : ¬∀ cfg, HeldAtSuccess cfg := fun h =>
  absurd (h openSettings stoppedBehindTest .conclude (by decide) (by decide)) (by decide)

end

end Handshake

end BitcoinNetwork.Protocols
