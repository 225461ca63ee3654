import BitcoinNetwork.Net.Connector

/-!
# Every connection attempt completes once (net/connector.cpp)

A connector is between attempts, or has both runners of its race under way, or
has one of them behind it. Each step keeps to that.
-/

namespace BitcoinNetwork.Net
open Async

/-! ### Calls -/

/-- A handler that was invoked as it should: at once with an error, where no race
was begun; or behind both finishers of its race, with the code of the first. It
is given success only by a connection that was the first to finish, with its
socket, which was not stopped; and in any other case the socket was. -/
inductive Call.Sound (call : Call) : Prop
  | refused (code : call.code ≠ .success) (socket : call.socket = none) (race : call.race = none)
  | connected (race : Race) (other : Code) (hrace : call.race = some race)
      (finishes : race.finishes = [(.connect, .success), (.timer, other)])
      (connects : race.connects = 1) (code : call.code = .success)
      (socket : call.socket = some call.id) (stopped : race.stopped = false)
  | failed (race : Race) (first last : Finisher × Code) (hrace : call.race = some race)
      (finishes : race.finishes = [first, last])
      (finishers : (first.1 = .timer) ↔ last.1 ≠ .timer)
      (connects : race.connects ≤ 1) (code : call.code = first.2) (failure : first.2 ≠ .success)
      (stopped : race.stopped = true)

namespace Connector

/-! ### What a connector is at -/

/-- The chain from the name to the connection is at one of its operations. -/
structure Chained (c : Connector) : Prop where
  one : (c.resolver.active = true ∧ c.connection.active = false ∧ c.negotiation.active = false ∧
      c.connects = 0) ∨
    (c.resolver.active = false ∧ c.connection.active = true ∧ c.negotiation.active = false ∧
      c.connects = 1) ∨
    (c.resolver.active = false ∧ c.connection.active = false ∧ c.negotiation.active = true ∧
      c.connects = 1)

/-- The chain has come to its end. -/
structure Unchained (c : Connector) : Prop where
  resolver : c.resolver.active = false
  connection : c.connection.active = false
  negotiation : c.negotiation.active = false
  connects : c.connects ≤ 1

/-- What a connector is at. -/
inductive Shape (c : Connector) : Prop
  | idle (runners : c.racer.runners = 0) (complete : c.racer.complete = none)
      (timer : c.timer.active = false) (chain : Unchained c)
  | racing (runners : c.racer.runners = 2) (complete : c.racer.complete = some c.socket)
      (timer : c.timer.active = true) (chain : Chained c) (stopped : c.stopped = false)
      (finish : c.finish = false) (finishes : c.finishes = [])
  | timed (code : Code) (runners : c.racer.runners = 1)
      (complete : c.racer.complete = some c.socket)
      (args : c.racer.args = some (code, some c.socket)) (failure : code ≠ .success)
      (timer : c.timer.active = false) (chain : Chained c) (stopped : c.stopped = true)
      (finishes : c.finishes = [(.timer, code)])
  | failed (finisher : Finisher) (code : Code) (runners : c.racer.runners = 1)
      (complete : c.racer.complete = some c.socket) (args : c.racer.args = some (code, none))
      (failure : code ≠ .success) (timer : c.timer.active = true) (chain : Unchained c)
      (stopped : c.stopped = true) (finish : c.finish = false)
      (chained : finisher ≠ .timer) (finishes : c.finishes = [(finisher, code)])
  | connected (runners : c.racer.runners = 1) (complete : c.racer.complete = some c.socket)
      (args : c.racer.args = some (.success, some c.socket)) (timer : c.timer.active = true)
      (chain : Unchained c) (connects : c.connects = 1) (stopped : c.stopped = false)
      (finish : c.finish = true) (finishes : c.finishes = [(.connect, .success)])

/-- Each call has its handler invoked or is the one that is raced for, and what was
invoked was as it should. -/
structure Called (c : Connector) : Prop where
  size : c.racer.size = 2
  calls : (c.calls.map Call.id ++ c.racer.complete.toList).Perm (List.range c.count)
  sound : ∀ call ∈ c.calls, call.Sound

structure Inv (c : Connector) : Prop where
  called : Called c
  shape : Shape c

/-! ### Finishing a race -/

theorem finishRace_first {c : Connector} (hsize : c.racer.size = 2) (hrunners : c.racer.runners = 2)
    (finisher : Finisher) (code : Code) (socket : Option ℕ) :
    c.finishRace finisher code socket =
      { c with
        racer := { c.racer with args := some (code, socket), runners := 1 }
        finishes := c.finishes ++ [(finisher, code)] } := by
  unfold finishRace
  rw [RaceSpeed.finish_first hsize hrunners]

theorem finishRace_last {c : Connector} (hsize : c.racer.size = 2) (hrunners : c.racer.runners = 1)
    {id : ℕ} (hcomplete : c.racer.complete = some id) {won : Code} {socket : Option ℕ}
    (hargs : c.racer.args = some (won, socket)) (finisher : Finisher) (code : Code)
    (ignored : Option ℕ) :
    c.finishRace finisher code ignored =
      { c with
        racer := { c.racer with runners := 0, complete := none, args := none }
        finishes := c.finishes ++ [(finisher, code)]
        calls := c.calls ++
          [⟨id, won, socket, some ⟨c.finishes ++ [(finisher, code)], c.connects, c.stopped⟩⟩] } := by
  unfold finishRace
  rw [RaceSpeed.finish_last hsize hrunners hcomplete, hargs]
  rfl

/-- The invariant behind the end of a race. -/
theorem Called.last {c : Connector} (h : Called c) (hrunners : c.racer.runners = 1)
    (hcomplete : c.racer.complete = some c.socket) {won : Code} {socket : Option ℕ}
    (hargs : c.racer.args = some (won, socket)) (htimer : c.timer.active = false)
    (hchain : Unchained c) (finisher : Finisher) (code : Code) (ignored : Option ℕ)
    (hsound : Call.Sound ⟨c.socket, won, socket,
      some ⟨c.finishes ++ [(finisher, code)], c.connects, c.stopped⟩⟩) :
    Inv (c.finishRace finisher code ignored) := by
  rw [finishRace_last h.size hrunners hcomplete hargs]
  refine ⟨⟨h.size, ?_, ?_⟩, .idle rfl rfl htimer ⟨hchain.resolver, hchain.connection,
    hchain.negotiation, hchain.connects⟩⟩
  · have hcalls := h.calls
    rw [hcomplete] at hcalls
    simpa using hcalls
  · intro call hcall
    rcases List.mem_append.mp hcall with hcall | hcall
    · exact h.sound call hcall
    · rw [List.mem_singleton.mp hcall]
      exact hsound

/-- The chain has come to its end, in front of the timer or behind it. -/
inductive Ending (c : Connector) : Prop
  | first (runners : c.racer.runners = 2) (complete : c.racer.complete = some c.socket)
      (timer : c.timer.active = true) (stopped : c.stopped = false) (finish : c.finish = false)
      (finishes : c.finishes = [])
  | last (code : Code) (runners : c.racer.runners = 1)
      (complete : c.racer.complete = some c.socket)
      (args : c.racer.args = some (code, some c.socket)) (failure : code ≠ .success)
      (timer : c.timer.active = false) (stopped : c.stopped = true)
      (finishes : c.finishes = [(.timer, code)])

/-- The chain fails in front of the timer. -/
theorem Called.fail {c : Connector} (h : Called c) (hrunners : c.racer.runners = 2)
    (hcomplete : c.racer.complete = some c.socket) (htimer : c.timer.active = true)
    (hfinish : c.finish = false) (hfinishes : c.finishes = []) (hchain : Unchained c)
    {finisher : Finisher} (hfinisher : finisher ≠ .timer) {code : Code} (hcode : code ≠ .success) :
    Inv ({ c.stopTimer with stopped := true }.finishRace finisher code none) := by
  rw [finishRace_first (by exact h.size) (by exact hrunners)]
  refine ⟨⟨h.size, h.calls, h.sound⟩, .failed finisher code rfl hcomplete rfl hcode ?_
    ⟨hchain.resolver, hchain.connection, hchain.negotiation, hchain.connects⟩ rfl hfinish hfinisher ?_⟩
  · exact (Stage.active_complete _ _).trans htimer
  · show c.finishes ++ _ = _
    rw [hfinishes]
    rfl

/-- The chain comes to its end behind the timer. -/
theorem Called.late {c : Connector} (h : Called c) {code : Code} (hrunners : c.racer.runners = 1)
    (hcomplete : c.racer.complete = some c.socket)
    (hargs : c.racer.args = some (code, some c.socket)) (hcode : code ≠ .success)
    (htimer : c.timer.active = false) (hstopped : c.stopped = true)
    (hfinishes : c.finishes = [(.timer, code)]) (hchain : Unchained c) {finisher : Finisher}
    (hfinisher : finisher ≠ .timer) (other : Code) :
    Inv (c.finishRace finisher other none) := by
  apply h.last hrunners hcomplete hargs htimer hchain
  rw [hfinishes]
  exact .failed _ (.timer, code) (finisher, other) rfl rfl (by simp [hfinisher]) hchain.connects rfl
    hcode hstopped

theorem handleConnect_inv {c : Connector} (h : Called c) (hending : Ending c) (hchain : Unchained c)
    (hconnects : c.connects = 1) (code : Code) : Inv (c.handleConnect code) := by
  unfold handleConnect
  cases hending with
  | first runners complete timer stopped finish finishes =>
    rw [if_neg (by rw [stopped]; exact Bool.false_ne_true)]
    split
    · exact h.fail runners complete timer finish finishes hchain (by decide) (by decide)
    · split
      · rename_i hcode
        exact h.fail runners complete timer finish finishes hchain (by decide) hcode
      · rw [finishRace_first (by exact h.size) (by exact runners)]
        refine ⟨⟨h.size, h.calls, h.sound⟩, .connected rfl complete rfl ?_
          ⟨hchain.resolver, hchain.connection, hchain.negotiation, hchain.connects⟩ hconnects stopped
          rfl ?_⟩
        · exact (Stage.active_complete _ _).trans timer
        · show c.finishes ++ _ = _
          rw [finishes]
          rfl
  | last won runners complete args failure timer stopped finishes =>
    rw [if_pos stopped]
    exact h.late runners complete args failure timer stopped finishes hchain (by decide) _

/-! ### Steps -/

/-- What an operation that completes, or is stopped, leaves as it is. -/
structure Same (c c' : Connector) : Prop where
  racer : c'.racer = c.racer
  socket : c'.socket = c.socket
  finish : c'.finish = c.finish
  stopped : c'.stopped = c.stopped
  timer : c'.timer.active = c.timer.active
  resolver : c'.resolver.active = c.resolver.active
  connection : c'.connection.active = c.connection.active
  negotiation : c'.negotiation.active = c.negotiation.active
  finishes : c'.finishes = c.finishes
  connects : c'.connects = c.connects

theorem Shape.same {c c' : Connector} (h : Shape c) (same : Same c c') : Shape c' := by
  obtain ⟨hracer, hsocket, hfinish, hstopped, htimer, hresolver, hconnection, hnegotiation,
    hfinishes, hconnects⟩ := same
  have hchained : Chained c → Chained c' := by
    rintro ⟨hone⟩
    constructor
    rw [hresolver, hconnection, hnegotiation, hconnects]
    exact hone
  have hunchained : Unchained c → Unchained c' := by
    rintro ⟨h₁, h₂, h₃, h₄⟩
    exact ⟨hresolver.trans h₁, hconnection.trans h₂, hnegotiation.trans h₃, Nat.le_trans (Nat.le_of_eq hconnects) h₄⟩
  cases h with
  | idle runners complete timer chain =>
    exact .idle (hracer ▸ runners) (hracer ▸ complete) (htimer.trans timer) (hunchained chain)
  | racing runners complete timer chain stopped finish finishes =>
    exact .racing (hracer ▸ runners) (by rw [hracer, hsocket]; exact complete)
      (htimer.trans timer) (hchained chain) (hstopped.trans stopped) (hfinish.trans finish)
      (hfinishes.trans finishes)
  | timed code runners complete args failure timer chain stopped finishes =>
    exact .timed code (hracer ▸ runners) (by rw [hracer, hsocket]; exact complete)
      (by rw [hracer, hsocket]; exact args) failure (htimer.trans timer) (hchained chain)
      (hstopped.trans stopped) (hfinishes.trans finishes)
  | failed finisher code runners complete args failure timer chain stopped finish chained
      finishes =>
    exact .failed finisher code (hracer ▸ runners) (by rw [hracer, hsocket]; exact complete)
      (hracer ▸ args) failure (htimer.trans timer) (hunchained chain) (hstopped.trans stopped)
      (hfinish.trans finish) chained (hfinishes.trans finishes)
  | connected runners complete args timer chain connects stopped finish finishes =>
    exact .connected (hracer ▸ runners) (by rw [hracer, hsocket]; exact complete)
      (by rw [hracer, hsocket]; exact args) (htimer.trans timer) (hunchained chain)
      (hconnects.trans connects) (hstopped.trans stopped) (hfinish.trans finish)
      (hfinishes.trans finishes)

theorem Inv.same {c c' : Connector} (h : Inv c) (same : Same c c') (hcount : c'.count = c.count)
    (hcalls : c'.calls = c.calls) : Inv c' := by
  refine ⟨⟨?_, ?_, ?_⟩, h.shape.same same⟩
  · rw [same.racer]
    exact h.called.size
  · rw [hcalls, same.racer, hcount]
    exact h.called.calls
  · rw [hcalls]
    exact h.called.sound

theorem stopTimer_same (c : Connector) : Same c c.stopTimer :=
  ⟨rfl, rfl, rfl, rfl, Stage.active_complete _ _, rfl, rfl, rfl, rfl, rfl⟩

/-- A handler that is invoked at once, with an error. -/
theorem Inv.refuse {c : Connector} (h : Inv c) {code : Code} (hcode : code ≠ .success) :
    Inv { c with count := c.count + 1, calls := c.calls ++ [⟨c.count, code, none, none⟩] } := by
  refine ⟨⟨h.called.size, ?_, ?_⟩, h.shape.same ⟨rfl, rfl, rfl, rfl, rfl, rfl, rfl, rfl, rfl, rfl⟩⟩
  · show ((c.calls ++ [_]).map Call.id ++ c.racer.complete.toList).Perm (List.range (c.count + 1))
    rw [List.map_append, List.range_succ, List.append_assoc]
    have hswap : (c.calls.map Call.id ++ ([c.count] ++ c.racer.complete.toList)).Perm
        (c.calls.map Call.id ++ (c.racer.complete.toList ++ [c.count])) :=
      List.Perm.append_left _ List.perm_append_comm
    have hcalls : (c.calls.map Call.id ++ (c.racer.complete.toList ++ [c.count])).Perm
        (List.range c.count ++ [c.count]) := by
      rw [← List.append_assoc]
      exact h.called.calls.append_right _
    exact hswap.trans hcalls
  · intro call hcall
    rcases List.mem_append.mp hcall with hcall | hcall
    · exact h.called.sound call hcall
    · rw [List.mem_singleton.mp hcall]
      exact .refused hcode rfl rfl

theorem start_inv {c : Connector} (h : Inv c) : Inv c.start := by
  unfold start
  dsimp only
  split
  · exact h.refuse (by decide)
  · split
    · exact h.refuse (by decide)
    · rename_i hrunning _
      have hrunners : c.racer.runners = 0 := by
        unfold RaceSpeed.running at hrunning
        simpa using hrunning
      have hidle : c.racer.complete = none ∧ Unchained c := by
        cases h.shape with
        | idle runners complete timer chain => exact ⟨complete, chain⟩
        | racing runners => omega
        | timed code runners => omega
        | failed finisher code runners => omega
        | connected runners => omega
      rw [RaceSpeed.start_idle hrunners]
      refine ⟨⟨h.called.size, ?_, h.called.sound⟩, .racing h.called.size rfl rfl
        ⟨.inl ⟨rfl, hidle.2.connection, hidle.2.negotiation, rfl⟩⟩ rfl rfl rfl⟩
      have hcalls := h.called.calls
      rw [hidle.1] at hcalls
      show (c.calls.map Call.id ++ [c.count]).Perm (List.range (c.count + 1))
      rw [List.range_succ]
      exact List.Perm.append_right _ (by simpa using hcalls)

theorem runTimer_inv {c : Connector} (h : Inv c) {code : Code} (hposted : c.timer = .posted code) :
    Inv ({ c with timer := .idle }.handleTimer code) := by
  have hactive : c.timer.active = true := by rw [hposted]; rfl
  have hcalled : Called { c with timer := .idle } := ⟨h.called.size, h.called.calls, h.called.sound⟩
  unfold handleTimer
  cases h.shape with
  | idle runners complete timer chain =>
    rw [hactive] at timer
    cases timer
  | racing runners complete timer chain stopped finish finishes =>
    rw [if_neg (by show ¬c.finish = true; rw [finish]; exact Bool.false_ne_true)]
    rw [finishRace_first (by exact h.called.size) (by exact runners)]
    refine ⟨⟨h.called.size, h.called.calls, h.called.sound⟩, .timed _ rfl complete rfl ?_ rfl
      ⟨?_⟩ rfl ?_⟩
    · split
      · assumption
      · decide
    · have hone := chain.one
      simp only [Stage.active_complete]
      exact hone
    · show c.finishes ++ _ = _
      rw [finishes]
      rfl
  | timed won runners complete args failure timer chain stopped finishes =>
    rw [hactive] at timer
    cases timer
  | failed finisher won runners complete args failure timer chain stopped finish chained finishes =>
    rw [if_neg (by show ¬c.finish = true; rw [finish]; exact Bool.false_ne_true)]
    refine Called.last (c := { c with timer := .idle, stopped := true, resolver := _ })
      ⟨h.called.size, h.called.calls, h.called.sound⟩ runners complete args rfl
      ⟨(Stage.active_complete _ _).trans chain.resolver, chain.connection, chain.negotiation,
        chain.connects⟩ _ _ _ ?_
    show Call.Sound ⟨c.socket, won, none, some ⟨c.finishes ++ _, c.connects, true⟩⟩
    rw [finishes]
    exact .failed _ (finisher, won) (.timer, _) rfl rfl (by simp [chained]) chain.connects rfl failure
      rfl
  | connected runners complete args timer chain connects stopped finish finishes =>
    rw [if_pos (by exact finish)]
    refine hcalled.last runners complete args rfl
      ⟨chain.resolver, chain.connection, chain.negotiation, chain.connects⟩ _ _ _ ?_
    show Call.Sound ⟨c.socket, .success, some c.socket, some ⟨c.finishes ++ _, c.connects, c.stopped⟩⟩
    rw [finishes]
    exact .connected _ _ rfl rfl connects rfl rfl stopped

/-- What comes of the chain at one of its operations: it is the first, or the
timer was. -/
theorem Shape.ending {c : Connector} (h : Shape c)
    (hactive : (c.resolver.active || c.connection.active || c.negotiation.active) = true) :
    Ending c ∧ Chained c := by
  cases h with
  | idle runners complete timer chain =>
    rw [chain.resolver, chain.connection, chain.negotiation] at hactive
    cases hactive
  | racing runners complete timer chain stopped finish finishes =>
    exact ⟨.first runners complete timer stopped finish finishes, chain⟩
  | timed code runners complete args failure timer chain stopped finishes =>
    exact ⟨.last code runners complete args failure timer stopped finishes, chain⟩
  | failed finisher code runners complete args failure timer chain =>
    rw [chain.resolver, chain.connection, chain.negotiation] at hactive
    cases hactive
  | connected runners complete args timer chain =>
    rw [chain.resolver, chain.connection, chain.negotiation] at hactive
    cases hactive

theorem Ending.same {c c' : Connector} (h : Ending c) (hracer : c'.racer = c.racer)
    (hsocket : c'.socket = c.socket) (hfinish : c'.finish = c.finish)
    (hstopped : c'.stopped = c.stopped) (htimer : c'.timer = c.timer)
    (hfinishes : c'.finishes = c.finishes) : Ending c' := by
  cases h with
  | first runners complete timer stopped finish finishes =>
    exact .first (hracer ▸ runners) (by rw [hracer, hsocket]; exact complete) (htimer ▸ timer)
      (hstopped.trans stopped) (hfinish.trans finish) (hfinishes.trans finishes)
  | last code runners complete args failure timer stopped finishes =>
    exact .last code (hracer ▸ runners) (by rw [hracer, hsocket]; exact complete)
      (by rw [hracer, hsocket]; exact args) failure (htimer ▸ timer) (hstopped.trans stopped)
      (hfinishes.trans finishes)

/-- The chain goes on to its next operation. -/
theorem Called.chain {c : Connector} (h : Called c) (hending : Ending c) (hchain : Chained c) :
    Inv c := by
  cases hending with
  | first runners complete timer stopped finish finishes =>
    exact ⟨h, .racing runners complete timer hchain stopped finish finishes⟩
  | last code runners complete args failure timer stopped finishes =>
    exact ⟨h, .timed code runners complete args failure timer hchain stopped finishes⟩

theorem runResolve_inv {c : Connector} (h : Inv c) {code : Code}
    (hposted : c.resolver = .posted code) : Inv ({ c with resolver := .idle }.handleResolve code) := by
  have hactive : c.resolver.active = true := by rw [hposted]; rfl
  obtain ⟨hending, hchained⟩ := h.shape.ending (by rw [hactive]; rfl)
  obtain ⟨hconnection, hnegotiation, hconnects⟩ : c.connection.active = false ∧
      c.negotiation.active = false ∧ c.connects = 0 := by
    rcases hchained.one with ⟨-, hrest⟩ | ⟨hno, -⟩ | ⟨hno, -⟩
    · exact hrest
    · rw [hactive] at hno
      cases hno
    · rw [hactive] at hno
      cases hno
  have hcalled : Called { c with resolver := .idle } :=
    ⟨h.called.size, h.called.calls, h.called.sound⟩
  have hunchained : Unchained { c with resolver := .idle } :=
    ⟨rfl, hconnection, hnegotiation, by show c.connects ≤ 1; omega⟩
  unfold handleResolve
  cases hending with
  | first runners complete timer stopped finish finishes =>
    rw [if_neg (by show ¬c.stopped = true; rw [stopped]; exact Bool.false_ne_true)]
    split
    · exact hcalled.fail runners complete timer finish finishes hunchained (by decide) (by decide)
    · split
      · rename_i hcode
        exact hcalled.fail runners complete timer finish finishes hunchained (by decide) hcode
      · exact Called.chain ⟨h.called.size, h.called.calls, h.called.sound⟩
          (.first runners complete timer stopped finish finishes)
          ⟨.inr (.inl ⟨rfl, rfl, hnegotiation, by show c.connects + 1 = 1; omega⟩)⟩
  | last won runners complete args failure timer stopped finishes =>
    rw [if_pos (by exact stopped)]
    exact hcalled.late runners complete args failure timer stopped finishes hunchained (by decide) _

theorem runConnect_inv {c : Connector} (h : Inv c) {code : Code}
    (hposted : c.connection = .posted code) :
    Inv ({ c with connection := .idle }.socksHandleConnect code) := by
  have hactive : c.connection.active = true := by rw [hposted]; rfl
  obtain ⟨hending, hchained⟩ := h.shape.ending (by rw [hactive, Bool.or_true]; rfl)
  obtain ⟨hresolver, hnegotiation, hconnects⟩ : c.resolver.active = false ∧
      c.negotiation.active = false ∧ c.connects = 1 := by
    rcases hchained.one with ⟨-, hno, -⟩ | ⟨hr, -, hn, hc⟩ | ⟨-, hno, -⟩
    · rw [hactive] at hno
      cases hno
    · exact ⟨hr, hn, hc⟩
    · rw [hactive] at hno
      cases hno
  have hcalled : Called { c with connection := .idle } :=
    ⟨h.called.size, h.called.calls, h.called.sound⟩
  have hunchained : Unchained { c with connection := .idle } :=
    ⟨hresolver, rfl, hnegotiation, Nat.le_of_eq hconnects⟩
  have hending' : Ending { c with connection := .idle } := hending.same rfl rfl rfl rfl rfl rfl
  unfold socksHandleConnect
  dsimp only
  generalize (if c.stopped = true then Code.channelStopped else code) = result
  split
  · split
    · exact handleConnect_inv hcalled hending' hunchained hconnects _
    · exact Called.chain ⟨h.called.size, h.called.calls, h.called.sound⟩
        (hending.same rfl rfl rfl rfl rfl rfl) ⟨.inr (.inr ⟨hresolver, rfl, rfl, hconnects⟩)⟩
  · exact handleConnect_inv hcalled hending' hunchained hconnects _

theorem runNegotiated_inv {c : Connector} (h : Inv c) {code : Code}
    (hposted : c.negotiation = .posted code) :
    Inv ({ c with negotiation := .idle }.handleConnect code) := by
  have hactive : c.negotiation.active = true := by rw [hposted]; rfl
  obtain ⟨hending, hchained⟩ := h.shape.ending (by rw [hactive, Bool.or_true])
  obtain ⟨hresolver, hconnection, hconnects⟩ : c.resolver.active = false ∧
      c.connection.active = false ∧ c.connects = 1 := by
    rcases hchained.one with ⟨-, -, hno, -⟩ | ⟨-, -, hno, -⟩ | ⟨hr, hc, -, hn⟩
    · rw [hactive] at hno
      cases hno
    · rw [hactive] at hno
      cases hno
    · exact ⟨hr, hc, hn⟩
  exact handleConnect_inv (c := { c with negotiation := .idle })
    ⟨h.called.size, h.called.calls, h.called.sound⟩ (hending.same rfl rfl rfl rfl rfl rfl) ⟨hresolver, hconnection, rfl, Nat.le_of_eq hconnects⟩ hconnects _

theorem step_inv {c : Connector} (h : Inv c) (e : Event) : Inv (c.step e) := by
  cases e with
  | connect => exact start_inv h
  | stop =>
    show Inv (if _ then _ else _)
    split
    · exact h.same (stopTimer_same c) rfl rfl
    · exact h
  | suspend suspended =>
    exact h.same ⟨rfl, rfl, rfl, rfl, rfl, rfl, rfl, rfl, rfl, rfl⟩ rfl rfl
  | timed code =>
    exact h.same ⟨rfl, rfl, rfl, rfl, Stage.active_complete _ _, rfl, rfl, rfl, rfl, rfl⟩ rfl rfl
  | resolved code =>
    exact h.same ⟨rfl, rfl, rfl, rfl, rfl, Stage.active_complete _ _, rfl, rfl, rfl, rfl⟩ rfl rfl
  | connected code =>
    exact h.same ⟨rfl, rfl, rfl, rfl, rfl, rfl, Stage.active_complete _ _, rfl, rfl, rfl⟩ rfl rfl
  | negotiated code =>
    exact h.same ⟨rfl, rfl, rfl, rfl, rfl, rfl, rfl, Stage.active_complete _ _, rfl, rfl⟩ rfl rfl
  | runTimer =>
    rw [step]
    split
    · exact runTimer_inv h ‹_›
    · exact h
  | runResolve =>
    rw [step]
    split
    · exact runResolve_inv h ‹_›
    · exact h
  | runConnect =>
    rw [step]
    split
    · exact runConnect_inv h ‹_›
    · exact h
  | runNegotiated =>
    rw [step]
    split
    · exact runNegotiated_inv h ‹_›
    · exact h

/-! ### What is decided stays so -/

/-- How a call ended, or is to end, and how often a connection was begun for it. -/
structure Outcome where
  id : ℕ
  code : Code
  socket : Option ℕ
  connects : ℕ

/-- The first finisher has decided how a call ends. -/
def Decided (o : Outcome) (c : Connector) : Prop :=
  (c.racer.runners = 1 ∧ c.racer.complete = some o.id ∧ c.racer.args = some (o.code, o.socket) ∧
    c.connects = o.connects) ∨
  ∃ call ∈ c.calls, call.id = o.id ∧ call.code = o.code ∧ call.socket = o.socket ∧
    (call.race.elim 0 Race.connects) = o.connects

theorem Decided.same {o : Outcome} {c d : Connector} (h : Decided o c)
    (hracer : d.racer = c.racer) (hconnects : d.connects = c.connects)
    (hcalls : d.calls = c.calls) : Decided o d := by
  unfold Decided
  rw [hracer, hconnects, hcalls]
  exact h

theorem Decided.append {o : Outcome} {c d : Connector} (h : Decided o c)
    (hracer : d.racer = c.racer) (hconnects : d.connects = c.connects) {more : List Call}
    (hcalls : d.calls = c.calls ++ more) : Decided o d := by
  unfold Decided
  rw [hracer, hconnects, hcalls]
  rcases h with h | ⟨call, hcall, hrest⟩
  · exact .inl h
  · exact .inr ⟨call, List.mem_append_left _ hcall, hrest⟩

theorem Decided.finishRace {o : Outcome} {c : Connector} (h : Decided o c)
    (hsize : c.racer.size = 2) (finisher : Finisher) (code : Code) (socket : Option ℕ) :
    Decided o (c.finishRace finisher code socket) := by
  rcases h with ⟨hrunners, hcomplete, hargs, hconnects⟩ | ⟨call, hcall, hrest⟩
  · rw [finishRace_last hsize hrunners hcomplete hargs]
    exact .inr ⟨_, List.mem_append_right _ (List.mem_singleton_self _), rfl, rfl, rfl, hconnects⟩
  · refine .inr ⟨call, ?_, hrest⟩
    unfold Connector.finishRace
    dsimp only
    split
    · exact hcall
    · exact List.mem_append_left _ hcall

theorem Decided.handleConnect {o : Outcome} {c : Connector} (h : Decided o c)
    (hsize : c.racer.size = 2) (code : Code) : Decided o (c.handleConnect code) := by
  unfold Connector.handleConnect
  split
  · exact h.finishRace hsize _ _ _
  · split
    · exact (h.same (d := { c.stopTimer with stopped := true }) rfl rfl rfl).finishRace hsize _ _ _
    · split
      · exact (h.same (d := { c.stopTimer with stopped := true }) rfl rfl rfl).finishRace hsize _ _ _
      · exact (h.same (d := { c.stopTimer with finish := true }) rfl rfl rfl).finishRace hsize _ _ _

theorem Decided.step {o : Outcome} {c : Connector} (h : Decided o c) (hinv : Inv c) (e : Event) :
    Decided o (c.step e) := by
  have hsize := hinv.called.size
  cases e with
  | connect =>
    show Decided o c.start
    unfold start
    dsimp only
    split
    · exact h.append rfl rfl rfl
    · split
      · exact h.append rfl rfl rfl
      · rename_i hrunning _
        rcases h with ⟨hrunners, -⟩ | hcall
        · unfold RaceSpeed.running at hrunning
          rw [hrunners] at hrunning
          exact absurd rfl hrunning
        · exact .inr hcall
  | stop =>
    show Decided o (if _ then _ else _)
    split
    · exact h.same rfl rfl rfl
    · exact h
  | suspend suspended => exact h.same rfl rfl rfl
  | timed code => exact h.same rfl rfl rfl
  | resolved code => exact h.same rfl rfl rfl
  | connected code => exact h.same rfl rfl rfl
  | negotiated code => exact h.same rfl rfl rfl
  | runTimer =>
    rw [Connector.step]
    split
    · unfold handleTimer
      split
      · exact (h.same (d := { c with timer := .idle }) rfl rfl rfl).finishRace hsize _ _ _
      · exact (h.same (d := { c with timer := .idle, stopped := true, resolver := _ })
          rfl rfl rfl).finishRace hsize _ _ _
    · exact h
  | runResolve =>
    rw [Connector.step]
    split
    · rename_i hposted
      unfold handleResolve
      split
      · exact (h.same (d := { c with resolver := .idle }) rfl rfl rfl).finishRace hsize _ _ _
      · rename_i hstopped
        split
        · exact (h.same (d := { c.stopTimer with stopped := true, resolver := .idle })
            rfl rfl rfl).finishRace hsize _ _ _
        · split
          · exact (h.same (d := { c.stopTimer with stopped := true, resolver := .idle })
              rfl rfl rfl).finishRace hsize _ _ _
          · rcases h with ⟨hrunners, -⟩ | hcall
            · obtain ⟨hending, -⟩ := hinv.shape.ending (by rw [hposted]; rfl)
              cases hending with
              | first runners => omega
              | last code runners complete args failure timer stopped => exact absurd stopped hstopped
            · exact .inr hcall
    · exact h
  | runConnect =>
    rw [Connector.step]
    split
    · unfold socksHandleConnect
      dsimp only
      split
      · generalize (if c.stopped = true then Code.channelStopped else _) = result
        split
        · exact (h.same (d := { c with connection := .idle }) rfl rfl rfl).handleConnect hsize _
        · exact h.same rfl rfl rfl
      · exact (h.same (d := { c with connection := .idle }) rfl rfl rfl).handleConnect hsize _
    · exact h
  | runNegotiated =>
    rw [Connector.step]
    split
    · exact (h.same (d := { c with negotiation := .idle }) rfl rfl rfl).handleConnect hsize _
    · exact h

/-! ### Every operation completes -/

/-- What a stage has yet to do, where so much may follow it. -/
def left (follows : ℕ) : Stage → ℕ
  | .idle => 0
  | .waiting => follows + 2
  | .posted _ => follows + 1

/-- What the operations that are under way have yet to do. -/
def work (c : Connector) : ℕ :=
  left 0 c.timer + left 4 c.resolver + left 2 c.connection + left 0 c.negotiation

/-- An operation completes or its handler runs, by no act of the caller. -/
def Event.completes : Event → Bool
  | .connect | .stop | .suspend _ => false
  | _ => true

theorem left_complete (follows : ℕ) (code : Code) (stage : Stage) :
    left follows (stage.complete code) ≤ left follows stage := by
  cases stage with
  | idle => exact Nat.le_refl _
  | waiting => exact Nat.le_succ _
  | posted => exact Nat.le_refl _

@[simp] theorem work_finishRace (c : Connector) (finisher : Finisher) (code : Code)
    (socket : Option ℕ) : (c.finishRace finisher code socket).work = c.work := by
  unfold finishRace
  dsimp only
  split
  · rfl
  · rfl

theorem work_stopTimer (c : Connector) : c.stopTimer.work ≤ c.work := by
  have h := left_complete 0 .operationCanceled c.timer
  show left 0 (c.timer.complete .operationCanceled) + left 4 c.resolver + left 2 c.connection +
    left 0 c.negotiation ≤ _
  unfold work
  omega

theorem work_handleConnect (c : Connector) (code : Code) : (c.handleConnect code).work ≤ c.work := by
  have h := work_stopTimer c
  unfold handleConnect
  split
  · exact Nat.le_of_eq (work_finishRace ..)
  · split
    · rw [work_finishRace]
      exact h
    · split
      · rw [work_finishRace]
        exact h
      · rw [work_finishRace]
        exact h

/-- An operation that is under way completes, or its handler runs. -/
theorem work_decreases {c : Connector} (h : 0 < c.work) :
    ∃ e, Event.completes e = true ∧ (c.step e).work < c.work := by
  cases htimer : c.timer with
  | waiting =>
    refine ⟨.timed .success, rfl, ?_⟩
    simp [step, work, htimer, Stage.complete, left]
  | posted code =>
    refine ⟨.runTimer, rfl, ?_⟩
    have hleft : left 0 c.timer = 1 := by rw [htimer]; rfl
    have hcomplete := left_complete 4 .operationCanceled c.resolver
    simp only [step, htimer]
    unfold handleTimer
    split
    · rw [work_finishRace]
      show 0 + left 4 c.resolver + left 2 c.connection + left 0 c.negotiation < c.work
      unfold work
      omega
    · rw [work_finishRace]
      show 0 + left 4 (c.resolver.complete _) + left 2 c.connection + left 0 c.negotiation < c.work
      unfold work
      omega
  | idle =>
    cases hresolver : c.resolver with
    | waiting =>
      refine ⟨.resolved .success, rfl, ?_⟩
      simp [step, work, hresolver, Stage.complete, left]
    | posted code =>
      refine ⟨.runResolve, rfl, ?_⟩
      have hidle : ({ c with resolver := .idle } : Connector).work < c.work := by
        simp [work, hresolver, left]
      have hstop := work_stopTimer { c with resolver := .idle }
      simp only [step, hresolver]
      unfold handleResolve
      split
      · rw [work_finishRace]
        exact hidle
      · split
        · rw [work_finishRace]
          exact Nat.lt_of_le_of_lt hstop hidle
        · split
          · rw [work_finishRace]
            exact Nat.lt_of_le_of_lt hstop hidle
          · have hleft : left 4 c.resolver = 5 := by rw [hresolver]; rfl
            show left 0 c.timer + 0 + 4 + left 0 c.negotiation < c.work
            unfold work
            omega
    | idle =>
      cases hconnection : c.connection with
      | waiting =>
        refine ⟨.connected .success, rfl, ?_⟩
        simp [step, work, hconnection, Stage.complete, left]
      | posted code =>
        refine ⟨.runConnect, rfl, ?_⟩
        have hleft : left 2 c.connection = 3 := by rw [hconnection]; rfl
        have hidle : ({ c with connection := .idle } : Connector).work < c.work := by
          show left 0 c.timer + left 4 c.resolver + 0 + left 0 c.negotiation < c.work
          unfold work
          omega
        simp only [step, hconnection]
        unfold socksHandleConnect
        dsimp only
        generalize (if c.stopped = true then Code.channelStopped else code) = result
        split
        · split
          · exact Nat.lt_of_le_of_lt (work_handleConnect _ _) hidle
          · show left 0 c.timer + left 4 c.resolver + 0 + 2 < c.work
            unfold work
            omega
        · exact Nat.lt_of_le_of_lt (work_handleConnect _ _) hidle
      | idle =>
        cases hnegotiation : c.negotiation with
        | waiting =>
          refine ⟨.negotiated .success, rfl, ?_⟩
          simp [step, work, hnegotiation, Stage.complete, left]
        | posted code =>
          refine ⟨.runNegotiated, rfl, ?_⟩
          have hidle : ({ c with negotiation := .idle } : Connector).work < c.work := by
            simp [work, hnegotiation, left]
          simp only [step, hnegotiation]
          exact Nat.lt_of_le_of_lt (work_handleConnect _ _) hidle
        | idle =>
          simp [work, htimer, hresolver, hconnection, hnegotiation, left] at h

/-- Where nothing is under way each handler was invoked. -/
theorem Inv.quiet {c : Connector} (h : Inv c) (hwork : c.work = 0) :
    (c.calls.map Call.id).Perm (List.range c.count) := by
  have hidle (stage : Stage) (follows : ℕ) (hleft : left follows stage = 0) :
      stage.active = false := by
    cases stage with
    | idle => rfl
    | waiting => cases hleft
    | posted => cases hleft
  unfold work at hwork
  have htimer := hidle c.timer 0 (by omega)
  have hresolver := hidle c.resolver 4 (by omega)
  have hconnection := hidle c.connection 2 (by omega)
  have hnegotiation := hidle c.negotiation 0 (by omega)
  have hchained : ¬Chained c := by
    rintro ⟨hone⟩
    rw [hresolver, hconnection, hnegotiation] at hone
    rcases hone with ⟨hno, -⟩ | ⟨-, hno, -⟩ | ⟨-, -, hno, -⟩
    · cases hno
    · cases hno
    · cases hno
  have hcalls := h.called.calls
  cases h.shape with
  | idle runners complete timer chain =>
    rw [complete] at hcalls
    simpa using hcalls
  | racing runners complete timer chain => exact absurd chain hchained
  | timed code runners complete args failure timer chain => exact absurd chain hchained
  | failed finisher code runners complete args failure timer =>
    rw [htimer] at timer
    cases timer
  | connected runners complete args timer =>
    rw [htimer] at timer
    cases timer

theorem create_inv (proxied suspended : Bool) :
    Inv { proxied := proxied, suspended := suspended } :=
  ⟨⟨rfl, List.Perm.refl _, nofun⟩, .idle rfl rfl rfl ⟨rfl, rfl, rfl, Nat.zero_le _⟩⟩

/-- In any order of events no call has its handler invoked twice; each handler that
is invoked is invoked as it should be; what the first finisher decides stays so,
and no connection is begun behind it; and the operations that are under way
complete, one after another, until each handler was invoked. -/
theorem connect_completes_once (proxied suspended : Bool) (events : List Event) :
    let c := after step { proxied := proxied, suspended := suspended } events
    (c.calls.map Call.id).Nodup ∧ (∀ call ∈ c.calls, call.id < c.count ∧ call.Sound) ∧
      (∀ outcome, Decided outcome c → ∀ more, Decided outcome (after step c more)) ∧
      (0 < c.work → ∃ e, Event.completes e = true ∧ (c.step e).work < c.work) ∧
      (c.work = 0 → ∀ id < c.count, ∃ call ∈ c.calls, call.id = id) := by
  intro c
  have hinv : Inv c :=
    after_invariant (P := Inv) (fun c e h => step_inv h e) (create_inv proxied suspended) events
  have hnodup : (c.calls.map Call.id ++ c.racer.complete.toList).Nodup :=
    hinv.called.calls.nodup_iff.mpr List.nodup_range
  refine ⟨(List.nodup_append.mp hnodup).1, ?_, ?_, work_decreases, ?_⟩
  · intro call hcall
    refine ⟨?_, hinv.called.sound call hcall⟩
    apply List.mem_range.mp
    apply hinv.called.calls.mem_iff.mp
    exact List.mem_append_left _ (List.mem_map_of_mem hcall)
  · intro outcome hdecided more
    have hboth : Inv (after step c more) ∧ Decided outcome (after step c more) := by
      apply after_invariant (P := fun c => Inv c ∧ Decided outcome c) ?_ ⟨hinv, hdecided⟩
      exact fun c e h => ⟨step_inv h.1 e, h.2.step h.1 e⟩
    exact hboth.2
  · intro hwork id hid
    have hmem := (hinv.quiet hwork).mem_iff.mpr (List.mem_range.mpr hid)
    exact List.mem_map.mp hmem

end Connector

end BitcoinNetwork.Net
