import BitcoinNetwork.Async.Totals
import BitcoinNetwork.Net.ProxyRuns

/-!
# The backlog of a channel

A call is made between handlers or in one, and what is so of the channel where it is made
follows from what holds between the events (`Upkeep`). The charges of a channel, and what
a notifier that waits for each of its writes finds, are two such rules.
-/

namespace BitcoinNetwork.Net
open Async

/-- A call with the channel that it is made on, and whether a handler makes it. -/
structure Issue where
  handling : Bool
  state : Proxy
  call : Proxy.Call

/-- What holds of the channel between the events, or while the handler of an entry runs,
holds where a call is made. -/
def Issue.Kept (I : Proxy → Prop) (J : Pending → Proxy → Prop) (i : Issue) : Prop :=
  if i.handling then ∃ e, J e i.state else I i.state

namespace Proxy
variable {p p' : Proxy}

/-! ### The calls of a run -/

def callIssues (handling : Bool) (p : Proxy) : List Call → List Issue
  | [] => []
  | c :: made => ⟨handling, p, c⟩ :: callIssues handling (p.call c) made

/-- The calls made in the handler of an entry, as `complete` has them. -/
def completeIssues (p : Proxy) (completion : Completion) (ec : Code) (made : List Call) :
    List Issue :=
  match completion with
  | .caller => callIssues true p made
  | .closed =>
    if ec = .success ∧ p.http = false then callIssues true p.drain made
    else callIssues true p made
  | .stop => []

def writeIssues (p : Proxy) (ec : Code) (made : List Call) : List Issue :=
  match p.queue with
  | [] => []
  | e :: _ => completeIssues { p with handled := p.handled ++ [e.id] } e.completion ec made

def flightIssues (p : Proxy) (index : ℕ) (header : Bool) (ec : Code) (made : List Call) :
    List Issue :=
  if header ∧ ec = .success then []
  else writeIssues { p with inflight := p.inflight.eraseIdx index } ec made

def meteredIssues (p : Proxy) (index : ℕ) (f : Flight) (header : Bool) (ec : Code)
    (delay : Bool) (made : List Call) : List Issue :=
  let p :=
    if header ∨ p.stopped then p else { p with completed := p.completed ++ [f.entry.id] }
  if delay ∧ p.stopped = false then [] else flightIssues p index header ec made

/-- The calls that an event makes. -/
def eventIssues (p : Proxy) : Event → List Issue
  | .call c => [⟨false, p, c⟩]
  | .sent index ec delay made =>
    match p.inflight[index]? with
    | none => []
    | some f =>
      match f.stage with
      | .header => p.meteredIssues index f true ec delay made
      | .body => p.meteredIssues index f false ec delay made
      | .throttled _ _ => []
  | .charged index made =>
    match p.inflight[index]? with
    | none => []
    | some f =>
      match f.stage with
      | .header | .body => []
      | .throttled header ec => p.flightIssues index header ec made
  | .stopping => []

def issues (p : Proxy) : List Event → List Issue
  | [] => []
  | e :: events => p.eventIssues e ++ issues (p.step e) events

/-! ### What an event does -/

/-- An event is one call, moves a socket write, has a write handled, or purges the queue. -/
inductive Stepped (p p' : Proxy) (made : List Issue) : Prop
  | call (c : Call) (hstep : p' = p.call c) (hmade : made = [⟨false, p, c⟩])
  | moved (inflight : List Flight) (completed : List ℕ)
      (hstep : p' = { p with inflight := inflight, completed := completed }) (hmade : made = [])
  | wrote (inflight : List Flight) (completed : List ℕ) (ec : Code) (calls : List Call)
      (hstep : p' = { p with inflight := inflight, completed := completed }.handleWrite ec calls)
      (hmade : made = { p with inflight := inflight, completed := completed }.writeIssues ec calls)
  | purged (hposted : p.posted ≠ 0) (hstep : p' = p.stopping) (hmade : made = [])

theorem flight_stepped (p : Proxy) (completed : List ℕ) (index : ℕ) (f : Flight) (header : Bool)
    (ec : Code) (made : List Call) :
    Stepped p ({ p with completed := completed }.handleFlight index f header ec made)
      ({ p with completed := completed }.flightIssues index header ec made) := by
  unfold handleFlight flightIssues
  split
  · exact .moved _ completed rfl rfl
  · exact .wrote _ completed ec made rfl rfl

theorem metered_stepped (p : Proxy) (index : ℕ) (f : Flight) (header : Bool) (ec : Code)
    (delay : Bool) (made : List Call) :
    Stepped p (p.handleMetered index f header ec delay made)
      (p.meteredIssues index f header ec delay made) := by
  have hq : ∃ completed, (if header ∨ p.stopped then p
      else { p with completed := p.completed ++ [f.entry.id] }) =
      { p with completed := completed } := by
    split
    · exact ⟨p.completed, rfl⟩
    · exact ⟨_, rfl⟩
  obtain ⟨completed, hq⟩ := hq
  unfold handleMetered meteredIssues
  dsimp only
  rw [hq]
  split
  · exact .moved _ completed rfl rfl
  · exact flight_stepped p completed index f header ec made

theorem step_stepped (p : Proxy) (e : Event) : Stepped p (p.step e) (p.eventIssues e) := by
  have hnone : Stepped p p [] := .moved p.inflight p.completed rfl rfl
  unfold Proxy.step eventIssues
  cases e with
  | call c => exact .call c rfl rfl
  | sent index ec delay made =>
    dsimp only
    cases hf : p.inflight[index]? with
    | none => exact hnone
    | some f =>
      cases hstage : f.stage with
      | header => simpa only [hstage] using metered_stepped p index f true ec delay made
      | body => simpa only [hstage] using metered_stepped p index f false ec delay made
      | throttled header ec => simpa only [hstage] using hnone
  | charged index made =>
    dsimp only
    cases hf : p.inflight[index]? with
    | none => exact hnone
    | some f =>
      cases hstage : f.stage with
      | header => simpa only [hstage] using hnone
      | body => simpa only [hstage] using hnone
      | throttled header ec =>
        simpa only [hstage] using flight_stepped p p.completed index f header ec made
  | stopping =>
    dsimp only
    split
    · exact hnone
    · next hposted => exact .purged hposted rfl rfl

theorem queue_cases (p : Proxy) : p.queue = [] ∨ ∃ e rest, p.queue = e :: rest := by
  cases p.queue with
  | nil => exact .inl rfl
  | cons e rest => exact .inr ⟨e, rest, rfl⟩

section Front
variable {e : Pending} {rest : List Pending} {ec : Code} {made : List Call}

theorem writeIssues_nil (h : p.queue = []) : p.writeIssues ec made = [] := by
  unfold writeIssues
  rw [h]

theorem handleWrite_nil (h : p.queue = []) : p.handleWrite ec made = p := by
  unfold handleWrite
  rw [h]

theorem writeIssues_cons (h : p.queue = e :: rest) : p.writeIssues ec made =
    { p with handled := p.handled ++ [e.id] }.completeIssues e.completion ec made := by
  unfold writeIssues
  rw [h]

theorem handleWrite_cons (h : p.queue = e :: rest) : p.handleWrite ec made =
    let q := { p with handled := p.handled ++ [e.id] }.complete e.completion ec made
    let q := { q with backlog := q.backlog - e.cost, queue := q.queue.tail }
    if q.stopped then q else q.write := by
  unfold handleWrite
  rw [h]

end Front

/-! ### Rules -/

/-- What holds between the events, and what holds while the handler of an entry runs, where
the calls are as they are supposed to be. -/
structure Upkeep (P : Issue → Prop) (I : Proxy → Prop) (J : Pending → Proxy → Prop) : Prop where
  call : ∀ p c, I p → P ⟨false, p, c⟩ → I (p.call c)
  moved : ∀ (p : Proxy) inflight completed written, I p →
    I { p with inflight := inflight, completed := completed, written := written }
  enter : ∀ (p : Proxy) e rest, I p → p.queue = e :: rest →
    J e { p with handled := p.handled ++ [e.id] }
  nested : ∀ p c e, J e p → P ⟨true, p, c⟩ → J e (p.call c)
  drain : ∀ p e, J e p → J e p.drain
  finish : ∀ p e, J e p → J e p.finishStop
  leave : ∀ (p : Proxy) e, J e p →
    I { p with backlog := p.backlog - e.cost, queue := p.queue.tail }
  purge : ∀ p, p.posted ≠ 0 → I p → I p.stopping

namespace Upkeep
variable {P : Issue → Prop} {I : Proxy → Prop} {J : Pending → Proxy → Prop}

theorem calls (u : Upkeep P I J) {e : Pending} {made : List Call} (hj : J e p)
    (hmade : ∀ i ∈ callIssues true p made, P i) :
    J e (p.calls made) ∧ ∀ i ∈ callIssues true p made, i.Kept I J := by
  induction made generalizing p with
  | nil => exact ⟨hj, fun _ h => absurd h List.not_mem_nil⟩
  | cons c made ih =>
    obtain ⟨hc, hrest⟩ := List.forall_mem_cons.mp hmade
    obtain ⟨hcalls, hkept⟩ := ih (u.nested p c e hj hc) hrest
    exact ⟨hcalls, List.forall_mem_cons.mpr ⟨⟨e, hj⟩, hkept⟩⟩

theorem complete (u : Upkeep P I J) {e : Pending} (completion : Completion) {ec : Code}
    {made : List Call} (hj : J e p) (hmade : ∀ i ∈ p.completeIssues completion ec made, P i) :
    J e (p.complete completion ec made) ∧
      ∀ i ∈ p.completeIssues completion ec made, i.Kept I J := by
  cases completion with
  | caller => exact u.calls hj hmade
  | closed =>
    unfold completeIssues at hmade ⊢
    unfold Proxy.complete
    dsimp only at hmade ⊢
    split
    · next hdrain =>
      rw [if_pos hdrain] at hmade
      exact u.calls (u.drain p e hj) hmade
    · next hkeep =>
      rw [if_neg hkeep] at hmade
      exact u.calls hj hmade
  | stop => exact ⟨u.finish p e hj, fun _ h => absurd h List.not_mem_nil⟩

theorem handleWrite (u : Upkeep P I J) {ec : Code} {made : List Call} (hi : I p)
    (hmade : ∀ i ∈ p.writeIssues ec made, P i) :
    I (p.handleWrite ec made) ∧ ∀ i ∈ p.writeIssues ec made, i.Kept I J := by
  rcases queue_cases p with hqueue | ⟨e, rest, hqueue⟩
  · rw [writeIssues_nil hqueue, handleWrite_nil hqueue]
    exact ⟨hi, fun _ h => absurd h List.not_mem_nil⟩
  · rw [writeIssues_cons hqueue] at hmade ⊢
    rw [handleWrite_cons hqueue]
    obtain ⟨hj, hkept⟩ := u.complete e.completion (u.enter p e rest hi hqueue) hmade
    have hleave := u.leave _ e hj
    refine ⟨?_, hkept⟩
    dsimp only
    split
    · exact hleave
    · rw [write_eq]
      exact u.moved _ _ _ _ hleave

theorem step (u : Upkeep P I J) {e : Event} (hi : I p) (hmade : ∀ i ∈ p.eventIssues e, P i) :
    I (p.step e) ∧ ∀ i ∈ p.eventIssues e, i.Kept I J := by
  have hnone {issues : List Issue} (h : issues = []) : ∀ i ∈ issues, i.Kept I J := fun i hmem =>
    absurd (h ▸ hmem) List.not_mem_nil
  cases step_stepped p e with
  | call c hstep heq =>
    rw [heq] at hmade
    rw [hstep, heq]
    refine ⟨u.call p c hi (hmade _ (List.mem_singleton_self _)), fun i hmem => ?_⟩
    rw [List.mem_singleton.mp hmem]
    exact hi
  | moved inflight completed hstep heq =>
    rw [hstep]
    exact ⟨u.moved p inflight completed p.written hi, hnone heq⟩
  | wrote inflight completed ec calls hstep heq =>
    rw [heq] at hmade
    rw [hstep, heq]
    exact u.handleWrite (u.moved p inflight completed p.written hi) hmade
  | purged hposted hstep heq =>
    rw [hstep]
    exact ⟨u.purge p hposted hi, hnone heq⟩

/-- What holds at first is kept by a run whose calls are as they are supposed to be. -/
theorem run (u : Upkeep P I J) (hi : I p) {events : List Event}
    (hmade : ∀ i ∈ p.issues events, P i) :
    I (after Proxy.step p events) ∧ ∀ i ∈ p.issues events, i.Kept I J := by
  induction events generalizing p with
  | nil => exact ⟨hi, fun _ h => absurd h List.not_mem_nil⟩
  | cons e events ih =>
    obtain ⟨he, hrest⟩ := List.forall_mem_append.mp hmade
    obtain ⟨hstep, hkept⟩ := u.step hi he
    obtain ⟨hlast, hmore⟩ := ih hstep hrest
    exact ⟨hlast, List.forall_mem_append.mpr ⟨hkept, hmore⟩⟩

end Upkeep

end Proxy
end BitcoinNetwork.Net
