import BitcoinNetwork.Net.Races
import BitcoinNetwork.Sessions.Stoppers

/-!
# Seeding (sessions/session_seed.cpp)

Each seed is connected once, and finishes where that fails, where its channel is refused or
where that has stopped. The finishes are those of a race.
-/

namespace BitcoinNetwork.Sessions
open Net Async

/-- The handler of a start, and `stop_seed`. -/
inductive SeedHandler
  | started
  | stopSeed
  deriving DecidableEq

inductive SeedCode
  | success
  | seedingUnsuccessful
  | other (code : Code)
  deriving DecidableEq

/-- The settings of a start, with the number of the seeds. -/
structure SeedOptions where
  connections : ℕ
  connectBatchSize : ℕ
  minimumAddressCount : ℕ
  hostPoolCapacity : ℕ
  seeds : ℕ

/-- A seed session, with the seeds whose connectors have not completed, the number of the
addresses of the pool now and at each finish, and the handlers that were invoked. -/
structure Seeding where
  session : Session := {}
  pending : List ℕ := []
  addressCount : ℕ
  race : RaceVolume SeedHandler SeedCode
  seeding : Bool := false
  finishes : List ℕ := []
  invoked : List (SeedHandler × SeedCode) := []

namespace Seeding

/-- The code that the handler of a start is invoked with at once, if it is. -/
def bypass (options : SeedOptions) (addressCount : ℕ) (started : Code) : Option SeedCode :=
  if options.connections = 0 ∨ options.connectBatchSize = 0 then some .success
  else if options.minimumAddressCount ≤ addressCount then some .success
  else if options.hostPoolCapacity = 0 then some .seedingUnsuccessful
  else if options.seeds = 0 then some .seedingUnsuccessful
  else if started ≠ .success then some (.other started)
  else none

/-- The race of `handle_started`. -/
def racer (options : SeedOptions) : RaceVolume SeedHandler SeedCode :=
  { size := options.seeds
    required := options.minimumAddressCount
    success := .success
    fail := .seedingUnsuccessful }

/-- `start` and `handle_started`, with the code of the start of a session. -/
def start (options : SeedOptions) (addressCount : ℕ) (started : Code) : Seeding :=
  match bypass options addressCount started with
  | some code =>
    { addressCount := addressCount, race := racer options, invoked := [(.started, code)] }
  | none =>
    { addressCount := addressCount
      race := (racer options).start .started .stopSeed
      pending := List.range options.seeds
      seeding := true }

/-- `finish` of the race, with what `stop_seed` does where it is invoked. -/
def finish (t : Seeding) : Seeding :=
  let (race, _, invoked) := t.race.finish t.addressCount
  { t with
    race := race
    finishes := t.finishes ++ [t.addressCount]
    invoked := t.invoked ++ invoked
    seeding := t.seeding && !invoked.any fun call => call.1 = .stopSeed }

/-- How often stoppers were invoked. -/
def stoppers (s : Session) : ℕ := ∑ k ∈ Finset.range s.given, stops s k

/-- `handle_channel_stop`, where a step of the session invokes it. -/
def follow (t : Seeding) (session : Session) : Seeding :=
  finish^[stoppers session - stoppers t.session] { t with session := session }

/-- A connector completes, with the result of the store of the nonce of a channel, the pool
changes, or a channel of the session goes on. -/
inductive Event
  | connect (seed : ℕ) (failed : Bool) (stored : Code)
  | count (addressCount : ℕ)
  | session (result : Code) (e : Session.Event)

/-- `handle_connect`. -/
def handleConnect (t : Seeding) (failed : Bool) (stored : Code) : Seeding :=
  if failed then t.finish else t.follow (t.session.stepPeer stored .start)

def step (t : Seeding) : Event → Seeding
  | .connect seed failed stored =>
    if seed ∈ t.pending then
      { t with pending := t.pending.erase seed }.handleConnect failed stored
    else t
  | .count addressCount => { t with addressCount := addressCount }
  | .session _ .start => t
  | .session result e => t.follow (t.session.stepPeer result e)

/-- What the finish of an index is to invoke. -/
def calls (options : SeedOptions) (finishes : List ℕ) (index : ℕ) :
    List (SeedHandler × SeedCode) :=
  (racer options).expected .started .stopSeed options.seeds finishes index

/-- Each seed that has finished was counted once, each finish has invoked the handlers that it
is to invoke, and the session is seeding until the last. -/
structure Completes (options : SeedOptions) (t : Seeding) : Prop where
  within : t.pending.length + t.session.given ≤ options.seeds
  counted : t.finishes.length =
    options.seeds - t.pending.length - t.session.given + stoppers t.session
  once : ∀ k, stops t.session k ≤ 1
  invoked : t.invoked = (t.finishes.mapIdx fun index _ => calls options t.finishes index).flatten
  seeding : t.seeding = decide (t.finishes.length < options.seeds)

/-! ### Runs -/

/-- A session that is seeding, with finishes of the race that are still to be made. -/
structure Inv (options : SeedOptions) (due : ℕ) (t : Seeding) : Prop where
  owing : Owing t.session
  within : t.pending.length + t.session.given ≤ options.seeds
  counted : t.finishes.length + due + t.pending.length + t.session.given =
    options.seeds + stoppers t.session
  race : t.race =
    behind RaceVolume.put ((racer options).start .started .stopSeed) t.finishes
  invoked : t.invoked =
    (outputs RaceVolume.put ((racer options).start .started .stopSeed) t.finishes).flatten
  seeding : t.seeding = decide (t.finishes.length < options.seeds)

variable {options : SeedOptions} {t : Seeding}

theorem stoppers_le {s : Session} (h : Owing s) : stoppers s ≤ s.given := by
  have hle : stoppers s ≤ ∑ _k ∈ Finset.range s.given, 1 := Finset.sum_le_sum fun k hk => by
    have hstops := h.stops_le k
    rw [if_pos (Finset.mem_range.mp hk)] at hstops
    exact hstops
  exact hle.trans (by simp)

theorem stoppers_mono {s s' : Session} (hgiven : s.given ≤ s'.given)
    (hstops : ∀ k, stops s k ≤ stops s' k) : stoppers s ≤ stoppers s' := by
  calc stoppers s ≤ ∑ k ∈ Finset.range s.given, stops s' k :=
        Finset.sum_le_sum fun k _ => hstops k
    _ ≤ stoppers s' :=
        Finset.sum_le_sum_of_subset (Finset.range_subset_range.mpr hgiven)

/-- The last finish invokes `stop_seed`, and no other does. -/
theorem calls_stopSeed (options : SeedOptions) (finishes : List ℕ) (index : ℕ) :
    (calls options finishes index).any (fun call => call.1 = .stopSeed) =
      decide (index + 1 = options.seeds) := by
  unfold calls RaceVolume.expected
  cases finishes.findIdx? ((racer options).required ≤ ·) with
  | none =>
    by_cases hlast : index + 1 = options.seeds
    · simp [hlast]
    · simp [hlast]
  | some first =>
    by_cases hfirst : index = first
    · subst hfirst
      by_cases hlast : index + 1 = options.seeds
      · simp [hlast]
      · simp [hlast]
    · by_cases hlast : index + 1 = options.seeds
      · simp [hfirst, hlast]
      · simp [hfirst, hlast]

theorem outputs_calls (options : SeedOptions) {finishes : List ℕ}
    (h : finishes.length ≤ options.seeds) :
    outputs RaceVolume.put ((racer options).start .started .stopSeed) finishes =
      finishes.mapIdx fun index _ => calls options finishes index :=
  RaceVolume.outputs_eq (r := (racer options).start .started .stopSeed) rfl rfl finishes h

theorem Inv.finishes_le {due : ℕ} (h : Inv options due t) :
    t.finishes.length + due + t.pending.length ≤ options.seeds := by
  have hstoppers := stoppers_le h.owing
  have hcounted := h.counted
  omega

theorem inv_finish {due : ℕ} (h : Inv options (due + 1) t) : Inv options due t.finish := by
  have hle := h.finishes_le
  set started := (racer options).start .started .stopSeed with hstarted
  have hrace : t.race.put t.addressCount =
      ((behind RaceVolume.put started t.finishes).put t.addressCount) := by rw [h.race]
  have hone : outputs RaceVolume.put started (t.finishes ++ [t.addressCount]) =
      outputs RaceVolume.put started t.finishes ++ [(t.race.put t.addressCount).2] := by
    rw [outputs_append, hrace]
    rfl
  have hcalls : (t.race.put t.addressCount).2 =
      calls options (t.finishes ++ [t.addressCount]) t.finishes.length := by
    have hlength : (t.finishes ++ [t.addressCount]).length ≤ options.seeds := by
      rw [List.length_append, List.length_singleton]
      omega
    have hall := outputs_calls options hlength
    rw [← hstarted, hone, List.mapIdx_concat] at hall
    exact List.singleton_injective (List.append_inj_right' hall rfl)
  constructor
  · exact h.owing
  · exact h.within
  · have hcounted := h.counted
    show (t.finishes ++ [t.addressCount]).length + due + t.pending.length + t.session.given =
      options.seeds + stoppers t.session
    rw [List.length_append, List.length_singleton]
    omega
  · show (t.race.put t.addressCount).1 = behind RaceVolume.put started (t.finishes ++ [_])
    rw [behind_append, hrace]
    rfl
  · show t.invoked ++ (t.race.put t.addressCount).2 =
      (outputs RaceVolume.put started (t.finishes ++ [_])).flatten
    rw [hone, List.flatten_append, h.invoked, List.flatten_singleton]
  · show (t.seeding && !(t.race.put t.addressCount).2.any fun call => call.1 = .stopSeed) =
      decide ((t.finishes ++ [t.addressCount]).length < options.seeds)
    rw [hcalls, calls_stopSeed, h.seeding, List.length_append, List.length_singleton]
    by_cases hlast : t.finishes.length + 1 = options.seeds
    · rw [decide_eq_true hlast, decide_eq_false (p := t.finishes.length + 1 < _) (by omega)]
      exact Bool.and_false _
    · rw [decide_eq_false hlast, decide_eq_true (p := t.finishes.length < _) (by omega),
        decide_eq_true (p := t.finishes.length + 1 < _) (by omega)]
      rfl

theorem inv_finishes {due : ℕ} (h : Inv options due t) : Inv options 0 (finish^[due] t) := by
  induction due generalizing t with
  | zero => exact h
  | succ due ih =>
    rw [Function.iterate_succ_apply]
    exact ih (inv_finish h)

theorem inv_follow {session : Session} {due : ℕ}
    (hdue : stoppers session - stoppers t.session = due)
    (h : Inv options due { t with session := session }) : Inv options 0 (t.follow session) := by
  unfold follow
  rw [hdue]
  exact inv_finishes h

theorem inv_handleConnect (h : Inv options 0 t) {seed : ℕ} (hseed : seed ∈ t.pending)
    (failed : Bool) (stored : Code) :
    Inv options 0 ({ t with pending := t.pending.erase seed }.handleConnect failed stored) := by
  have hlength : (t.pending.erase seed).length + 1 = t.pending.length := by
    rw [List.length_erase_of_mem hseed]
    have hpos := List.length_pos_of_mem hseed
    omega
  have hwithin := h.within
  have hcounted := h.counted
  unfold handleConnect
  split
  · apply inv_finish
    constructor
    · exact h.owing
    · show (t.pending.erase seed).length + t.session.given ≤ options.seeds
      omega
    · show t.finishes.length + (0 + 1) + (t.pending.erase seed).length + t.session.given =
        options.seeds + stoppers t.session
      omega
    · exact h.race
    · exact h.invoked
    · exact h.seeding
  · obtain ⟨howing, hgiven, hstops⟩ := owing_start h.owing stored
    have hmono : stoppers t.session ≤ stoppers (t.session.startPeer stored) :=
      stoppers_mono (by omega) hstops
    apply inv_follow rfl
    constructor
    · exact howing
    · show (t.pending.erase seed).length + (t.session.startPeer stored).given ≤ options.seeds
      omega
    · show t.finishes.length + (stoppers (t.session.startPeer stored) - stoppers t.session) +
          (t.pending.erase seed).length + (t.session.startPeer stored).given =
        options.seeds + stoppers (t.session.startPeer stored)
      omega
    · exact h.race
    · exact h.invoked
    · exact h.seeding

theorem inv_session (h : Inv options 0 t) (result : Code) {e : Session.Event} (he : e ≠ .start) :
    Inv options 0 (t.follow (t.session.stepPeer result e)) := by
  obtain ⟨howing, hgiven, hstops⟩ := owing_event h.owing result he
  have hmono := stoppers_mono hgiven.ge hstops
  have hwithin := h.within
  have hcounted := h.counted
  apply inv_follow rfl
  constructor
  · exact howing
  · show t.pending.length + (t.session.stepPeer result e).given ≤ options.seeds
    omega
  · show t.finishes.length + (stoppers (t.session.stepPeer result e) - stoppers t.session) +
        t.pending.length + (t.session.stepPeer result e).given =
      options.seeds + stoppers (t.session.stepPeer result e)
    omega
  · exact h.race
  · exact h.invoked
  · exact h.seeding

theorem inv_step (h : Inv options 0 t) (e : Event) : Inv options 0 (t.step e) := by
  cases e with
  | connect seed failed stored =>
    show Inv options 0 (if seed ∈ t.pending then _ else t)
    split
    · next hseed => exact inv_handleConnect h hseed failed stored
    · exact h
  | count addressCount => exact ⟨h.owing, h.within, h.counted, h.race, h.invoked, h.seeding⟩
  | session result e =>
    cases e with
    | start => exact h
    | close => exact inv_session h result Session.Event.noConfusion
    | enter k => exact inv_session h result Session.Event.noConfusion
    | finish k code => exact inv_session h result Session.Event.noConfusion
    | post k => exact inv_session h result Session.Event.noConfusion
    | handshake k code => exact inv_session h result Session.Event.noConfusion
    | runNetwork => exact inv_session h result Session.Event.noConfusion
    | runChannel k => exact inv_session h result Session.Event.noConfusion

/-- A start that invokes its handler at once leaves nothing to go on. -/
theorem start_bypassed {addressCount : ℕ} {started : Code} {code : SeedCode}
    (h : bypass options addressCount started = some code) :
    start options addressCount started =
      { addressCount := addressCount, race := racer options, invoked := [(.started, code)] } := by
  unfold start
  rw [h]

theorem inv_start {addressCount : ℕ} {started : Code}
    (h : bypass options addressCount started = none) :
    Inv options 0 (start options addressCount started) := by
  have hseeds : options.seeds ≠ 0 := by
    rintro hzero
    unfold bypass at h
    split at h
    · cases h
    split at h
    · cases h
    split at h
    · cases h
    · cases h
  have hstart : start options addressCount started =
      { addressCount := addressCount
        race := (racer options).start .started .stopSeed
        pending := List.range options.seeds
        seeding := true } := by
    unfold start
    rw [h]
  rw [hstart]
  constructor
  · exact owing_empty
  · exact (List.length_range).le
  · show 0 + 0 + (List.range options.seeds).length + 0 = options.seeds + 0
    rw [List.length_range]
    omega
  · rfl
  · rfl
  · exact (decide_eq_true (Nat.pos_of_ne_zero hseeds)).symm

theorem Inv.completes (h : Inv options 0 t) : Completes options t where
  within := h.within
  counted := by
    have hcounted := h.counted
    have hwithin := h.within
    omega
  once k := by
    have hstops := h.owing.stops_le k
    split at hstops
    · exact hstops
    · exact hstops.trans (Nat.zero_le _)
  invoked := by
    rw [h.invoked, outputs_calls options (by have := h.finishes_le; omega)]
  seeding := h.seeding

/-- A start that has invoked its handler at once, with a code, and gives no channel. -/
structure Bypassed (code : SeedCode) (t : Seeding) : Prop where
  owing : Owing t.session
  given : t.session.given = 0
  pending : t.pending = []
  invoked : t.invoked = [(.started, code)]
  seeding : t.seeding = false

variable {code : SeedCode}

theorem bypassed_session (h : Bypassed code t) (result : Code) {e : Session.Event}
    (he : e ≠ .start) : Bypassed code (t.follow (t.session.stepPeer result e)) := by
  obtain ⟨howing, hgiven, _⟩ := owing_event h.owing result he
  have hzero : stoppers (t.session.stepPeer result e) = 0 := by
    unfold stoppers
    rw [hgiven, h.given]
    rfl
  unfold follow
  rw [hzero, Nat.zero_sub]
  exact ⟨howing, hgiven.trans h.given, h.pending, h.invoked, h.seeding⟩

theorem bypassed_step (h : Bypassed code t) (e : Event) : Bypassed code (t.step e) := by
  cases e with
  | connect seed failed stored =>
    show Bypassed code (if seed ∈ t.pending then _ else t)
    rw [h.pending, if_neg List.not_mem_nil]
    exact h
  | count addressCount => exact ⟨h.owing, h.given, h.pending, h.invoked, h.seeding⟩
  | session result e =>
    cases e with
    | start => exact h
    | close => exact bypassed_session h result Session.Event.noConfusion
    | enter k => exact bypassed_session h result Session.Event.noConfusion
    | finish k code => exact bypassed_session h result Session.Event.noConfusion
    | post k => exact bypassed_session h result Session.Event.noConfusion
    | handshake k code => exact bypassed_session h result Session.Event.noConfusion
    | runNetwork => exact bypassed_session h result Session.Event.noConfusion
    | runChannel k => exact bypassed_session h result Session.Event.noConfusion

/-- The session completes in any run: a start that is bypassed has invoked its handler, once. -/
def Settles (options : SeedOptions) (addressCount : ℕ) (started : Code) (t : Seeding) : Prop :=
  match bypass options addressCount started with
  | some code => t.invoked = [(.started, code)] ∧ t.seeding = false
  | none => Completes options t

theorem settles_after (options : SeedOptions) (addressCount : ℕ) (started : Code)
    (events : List Event) :
    Settles options addressCount started (after step (start options addressCount started) events) := by
  unfold Settles
  cases hbypass : bypass options addressCount started with
  | some code =>
    have hstart : Bypassed code (start options addressCount started) := by
      rw [start_bypassed hbypass]
      exact ⟨owing_empty, rfl, rfl, rfl, rfl⟩
    have h := after_invariant (P := Bypassed code) (fun _ e hs => bypassed_step hs e) hstart events
    exact ⟨h.invoked, h.seeding⟩
  | none =>
    have h := after_invariant (P := Inv options 0) (fun _ e hs => inv_step hs e)
      (inv_start hbypass) events
    exact h.completes

end Seeding

end BitcoinNetwork.Sessions
