import BitcoinNetwork.Io.Descriptor

/-!
# Runs of a descriptor

An operation that would block is queued under the lock, so that an edge behind the attempt
finds it there. What a step of one thread has to keep is stated once (`Inv.moves`).
-/

namespace BitcoinNetwork.Io
open Async

namespace Phase

/-- The lock is taken. -/
def holds : Phase → ℕ
  | .holding _ | .blocked _ | .serving _ _ => 1
  | _ => 0

/-- An operation that would block is to be queued. -/
def blocking (d : Direction) : Phase → ℕ
  | .blocked op => if op.kind.direction = d then 1 else 0
  | _ => 0

/-- An edge of the direction is to be delivered. -/
def delivers (d : Direction) : Phase → ℕ
  | .delivering read write | .serving read write =>
    match d with
    | .reads => read.toNat
    | .writes => write.toNat
  | _ => 0

/-- The operations in hand that are not completed. -/
def inHand : Phase → List ℕ
  | .starting op | .entering op | .holding op | .blocked op => [op.id]
  | .finishing id => [id]
  | .marking canceled _ => canceled.map Operation.id
  | _ => []

def has (id : ℕ) (t : Phase) : ℕ := t.inHand.count id

/-- The result is set, and the operation is to be completed. -/
def decided (id : ℕ) : Phase → ℕ
  | .finishing id' => if id' = id then 1 else 0
  | _ => 0

/-- In `start`. -/
def starts : Phase → ℕ
  | .starting _ | .entering _ | .holding _ | .blocked _ => 1
  | _ => 0

/-- In `close`. -/
def closes : Phase → ℕ
  | .canceling true | .swapping true | .marking _ true | .closing => 1
  | _ => 0

/-- In `close`, with the queues taken. -/
def taken : Phase → ℕ
  | .marking _ true | .closing => 1
  | _ => 0

/-- In `start`, with an operation that blocks where the socket is closed. -/
def stuck : Phase → ℕ
  | .blocked _ => 1
  | .entering op | .holding op => if op.kind = .connect then 1 else 0
  | _ => 0

end Phase

/-- The results that `set_result` set. -/
def performed (results : List Result) : List Result := results.filter fun r => !r.canceled

/-- The operations that left a direction, those behind them in the queue, and the results. -/
structure Side.Ordered (side : Side) (d : Direction) : Prop where
  split : side.started = side.left.map Result.id ++ side.queue.map Operation.id
  results : performed side.results = performed side.left
  canceled : ∀ r ∈ side.results, r.canceled = true → r ∈ side.left
  directed : ∀ op ∈ side.queue, op.kind.direction = d

namespace Descriptor
variable {σ σ' : Descriptor} {index : ℕ} {t t' : Phase}

/-- The operations queued, by number. -/
def queued (σ : Descriptor) (id : ℕ) : ℕ :=
  ((σ.sides .reads).queue.map Operation.id).count id +
    ((σ.sides .writes).queue.map Operation.id).count id

/-- The results set, by number. -/
def decisions (σ : Descriptor) (id : ℕ) : ℕ :=
  ((σ.sides .reads).results.map Result.id).count id +
    ((σ.sides .writes).results.map Result.id).count id + (σ.immediate.map Result.id).count id

/-- An operation of the number was started. -/
def given (σ : Descriptor) (id : ℕ) : ℕ := if id < σ.count then 1 else 0

/-- A direction is blocked, or has an edge to be delivered. -/
def Awake (σ : Descriptor) (d : Direction) : Prop :=
  (σ.sides d).ready = false ∨ (σ.sides d).edge = true ∨ 0 < total (Phase.delivers d) σ.threads

structure Inv (σ : Descriptor) : Prop where
  lock : total Phase.holds σ.threads = σ.locked.toNat
  wakes : σ.opened = true → ∀ d,
    (σ.sides d).queue ≠ [] ∨ 0 < total (Phase.blocking d) σ.threads → σ.Awake d
  ledger : ∀ id, total (Phase.has id) σ.threads + σ.queued id + σ.completed.count id = σ.given id
  decided : ∀ id, σ.decisions id = total (Phase.decided id) σ.threads + σ.completed.count id
  ordered : ∀ d, (σ.sides d).Ordered d
  marked : ∀ canceled closes, Phase.marking canceled closes ∈ σ.threads → ∀ op ∈ canceled,
    (⟨op.id, true, .operationCanceled⟩ : Result) ∈ (σ.sides op.kind.direction).left

/-- What a step of one thread does to a direction: it leaves it awake, empty, or as it
was. -/
inductive Wake (σ σ' : Descriptor) (t t' : Phase) (d : Direction) : Prop
  | fresh (h : (σ'.sides d).ready = false ∨ (σ'.sides d).edge = true ∨ 0 < t'.delivers d)
  | empty (hqueue : (σ'.sides d).queue = []) (hholds : 0 < t.holds)
      (hblocking : t'.blocking d = 0)
  | same (hqueue : (σ'.sides d).queue ≠ [] → (σ.sides d).queue ≠ [] ∨ 0 < t.blocking d)
      (hblocking : t'.blocking d ≤ t.blocking d)
      (hready : (σ'.sides d).ready = true → (σ.sides d).ready = true)
      (hedge : (σ.sides d).edge = true → (σ'.sides d).edge = true)
      (hdelivers : t.delivers d ≤ t'.delivers d)

theorem blocking_le (d : Direction) (t : Phase) : t.blocking d ≤ t.holds := by
  cases t with
  | blocked op =>
    simp only [Phase.blocking, Phase.holds]
    split <;> omega
  | _ => exact Nat.zero_le _

theorem total_le {f g : Phase → ℕ} (h : ∀ t, f t ≤ g t) (threads : List Phase) :
    total f threads ≤ total g threads := by
  induction threads with
  | nil => exact Nat.le_refl 0
  | cons t threads ih =>
    have hle := h t
    rw [total_cons, total_cons]
    omega

/-- A step of one thread. -/
theorem Inv.moves (hi : σ.Inv) (h : σ.threads[index]? = some t)
    (hthreads : σ'.threads = σ.threads.set index t')
    (hlock : t'.holds + σ.locked.toNat = t.holds + σ'.locked.toNat)
    (hopened : σ'.opened = true → σ.opened = true)
    (hwakes : σ'.opened = true → ∀ d, Wake σ σ' t t' d)
    (hledger : ∀ id, t'.has id + σ'.queued id + σ'.completed.count id + σ.given id =
      t.has id + σ.queued id + σ.completed.count id + σ'.given id)
    (hdecided : ∀ id, σ'.decisions id + t.decided id + σ.completed.count id =
      σ.decisions id + t'.decided id + σ'.completed.count id)
    (hordered : ∀ d, (σ'.sides d).Ordered d)
    (hleft : ∀ d, ∀ r ∈ (σ.sides d).left, r ∈ (σ'.sides d).left)
    (hmarked : ∀ canceled closes, t' = .marking canceled closes → ∀ op ∈ canceled,
      (⟨op.id, true, .operationCanceled⟩ : Result) ∈ (σ'.sides op.kind.direction).left) :
    σ'.Inv := by
  have hset (f : Phase → ℕ) : total f σ'.threads + f t = total f σ.threads + f t' := by
    rw [hthreads]
    exact total_set f h t'
  have hle (f : Phase → ℕ) : f t ≤ total f σ.threads := le_total f h
  refine ⟨?_, ?_, ?_, ?_, hordered, ?_⟩
  · have hs := hset Phase.holds
    have hl := hi.lock
    omega
  · intro hopen d hsome
    have hdelivers := hset (Phase.delivers d)
    have hdeliversLe := hle (Phase.delivers d)
    have hblocking := hset (Phase.blocking d)
    have hblockingLe := hle (Phase.blocking d)
    cases hwakes hopen d with
    | fresh hfresh =>
      refine hfresh.imp id (Or.imp id fun hpos => ?_)
      omega
    | empty hqueue hholds hnone =>
      -- The thread has the lock, so that no other is about to queue.
      have hone := hset Phase.holds
      have hlock' := hi.lock
      have hother : total (Phase.blocking d) σ'.threads = 0 := by
        have hidle := total_set Phase.holds h .idle
        have hidle' := total_set (Phase.blocking d) h .idle
        have hle' := total_le (blocking_le d) (σ.threads.set index .idle)
        have hone' : σ.locked.toNat ≤ 1 := Bool.toNat_le σ.locked
        rw [show Phase.holds .idle = 0 from rfl] at hidle
        rw [show Phase.blocking d .idle = 0 from rfl] at hidle'
        omega
      rcases hsome with hne | hpos
      · exact absurd hqueue hne
      · omega
    | same hqueue hblockingLe' hready hedge hdeliversLe' =>
      have hawake : σ.Awake d := by
        refine hi.wakes (hopened hopen) d ?_
        rcases hsome with hne | hpos
        · rcases hqueue hne with hold | hold
          · exact .inl hold
          · right
            omega
        · right
          omega
      rcases hawake with hr | he | hd
      · left
        cases hr' : (σ'.sides d).ready with
        | false => rfl
        | true =>
          rw [hready hr'] at hr
          cases hr
      · exact .inr (.inl (hedge he))
      · right
        right
        omega
  · intro id
    have hs := hset (Phase.has id)
    have hl := hi.ledger id
    have hd := hledger id
    omega
  · intro id
    have hs := hset (Phase.decided id)
    have hl := hi.decided id
    have hd := hdecided id
    omega
  · intro canceled closes hmem op hop
    rw [hthreads] at hmem
    rcases List.mem_or_eq_of_mem_set hmem with hold | heq
    · exact hleft _ _ (hi.marked canceled closes hold op hop)
    · exact hmarked canceled closes heq.symm op hop

/-! ### Steps that leave the sides as they are -/

/-- A step that has to do with no side, and with no result. -/
theorem Inv.plain (hi : σ.Inv) (h : σ.threads[index]? = some t)
    (hthreads : σ'.threads = σ.threads.set index t')
    (hsides : σ'.sides = σ.sides) (hopened : σ'.opened = true → σ.opened = true)
    (himmediate : σ'.immediate = σ.immediate)
    (hlock : t'.holds + σ.locked.toNat = t.holds + σ'.locked.toNat)
    (hblocking : σ'.opened = true → ∀ d, t'.blocking d ≤ t.blocking d ∨ (σ'.sides d).ready = false)
    (hdelivers : ∀ d, t.delivers d ≤ t'.delivers d)
    (hledger : ∀ id, t'.has id + σ'.completed.count id + σ.given id =
      t.has id + σ.completed.count id + σ'.given id)
    (hdecided : ∀ id, t.decided id + σ.completed.count id = t'.decided id + σ'.completed.count id)
    (hmarked : ∀ canceled closes, t' = .marking canceled closes →
      ∃ more, t = .marking (more ++ canceled) closes) : σ'.Inv := by
  refine hi.moves h hthreads hlock hopened (fun hopen d => ?_) (fun id => ?_) (fun id => ?_) ?_ ?_ ?_
  · rcases hblocking hopen d with hle | hblocked
    · refine .same ?_ hle ?_ ?_ (hdelivers d)
      · rw [hsides]
        exact .inl
      · rw [hsides]
        exact id
      · rw [hsides]
        exact id
    · exact .fresh (.inl hblocked)
  · have hq : σ'.queued id = σ.queued id := by
      unfold queued
      rw [hsides]
    have hl := hledger id
    omega
  · have hd : σ'.decisions id = σ.decisions id := by
      unfold decisions
      rw [hsides, himmediate]
    have hl := hdecided id
    omega
  · rw [hsides]
    exact hi.ordered
  · rw [hsides]
    exact fun _ _ => id
  · intro canceled closes ht' op hop
    obtain ⟨more, rfl⟩ := hmarked canceled closes ht'
    rw [hsides]
    exact hi.marked _ _ (List.mem_of_getElem? h) op (List.mem_append_right more hop)

/-- A step that has to do with one side. -/
theorem Inv.side (hi : σ.Inv) (h : σ.threads[index]? = some t)
    (hthreads : σ'.threads = σ.threads.set index t') {d : Direction} {side : Side}
    (hsides : σ'.sides = Function.update σ.sides d side)
    (hopened : σ'.opened = true → σ.opened = true) (himmediate : σ'.immediate = σ.immediate)
    (hlock : t'.holds + σ.locked.toNat = t.holds + σ'.locked.toNat)
    (hwake : σ'.opened = true → Wake σ σ' t t' d)
    (hother : ∀ d' ≠ d, t'.blocking d' ≤ t.blocking d' ∧ t.delivers d' ≤ t'.delivers d')
    (hledger : ∀ id, t'.has id + (side.queue.map Operation.id).count id + σ'.completed.count id +
        σ.given id =
      t.has id + ((σ.sides d).queue.map Operation.id).count id + σ.completed.count id + σ'.given id)
    (hdecided : ∀ id, (side.results.map Result.id).count id + t.decided id + σ.completed.count id =
      ((σ.sides d).results.map Result.id).count id + t'.decided id + σ'.completed.count id)
    (hordered : side.Ordered d) (hleft : ∀ r ∈ (σ.sides d).left, r ∈ side.left)
    (hmarked : ∀ canceled closes, t' = .marking canceled closes →
      ∃ more, t = .marking (more ++ canceled) closes) : σ'.Inv := by
  have hsame (d' : Direction) (hne : d' ≠ d) : σ'.sides d' = σ.sides d' := by
    rw [hsides, Function.update_of_ne hne]
  have hself : σ'.sides d = side := by rw [hsides, Function.update_self]
  have hleft' (d' : Direction) : ∀ r ∈ (σ.sides d').left, r ∈ (σ'.sides d').left := by
    by_cases heq : d' = d
    · subst heq
      rw [hself]
      exact hleft
    · rw [hsame d' heq]
      exact fun _ => id
  refine hi.moves h hthreads hlock hopened (fun hopen d' => ?_) (fun id => ?_) (fun id => ?_)
    (fun d' => ?_) hleft' ?_
  · by_cases heq : d' = d
    · subst heq
      exact hwake hopen
    · obtain ⟨hblocking, hdelivers⟩ := hother d' heq
      refine .same ?_ hblocking ?_ ?_ hdelivers
      · rw [hsame d' heq]
        exact .inl
      · rw [hsame d' heq]
        exact id
      · rw [hsame d' heq]
        exact id
  · have hq : σ'.queued id + ((σ.sides d).queue.map Operation.id).count id =
        σ.queued id + (side.queue.map Operation.id).count id := by
      unfold queued
      cases d with
      | reads =>
        rw [hself, hsame .writes (by decide)]
        omega
      | writes =>
        rw [hself, hsame .reads (by decide)]
        omega
    have hl := hledger id
    omega
  · have hd : σ'.decisions id + ((σ.sides d).results.map Result.id).count id =
        σ.decisions id + (side.results.map Result.id).count id := by
      unfold decisions
      rw [himmediate]
      cases d with
      | reads =>
        rw [hself, hsame .writes (by decide)]
        omega
      | writes =>
        rw [hself, hsame .reads (by decide)]
        omega
    have hl := hdecided id
    omega
  · by_cases heq : d' = d
    · subst heq
      rw [hself]
      exact hordered
    · rw [hsame d' heq]
      exact hi.ordered d'
  · intro canceled closes ht' op hop
    obtain ⟨more, rfl⟩ := hmarked canceled closes ht'
    exact hleft' _ _ (hi.marked _ _ (List.mem_of_getElem? h) op (List.mem_append_right more hop))

end Descriptor

/-! ### Sides -/

theorem performed_append (results more : List Result) :
    performed (results ++ more) = performed results ++ performed more :=
  List.filter_append ..

/-- An operation is queued. -/
theorem Side.Ordered.enqueue {side : Side} {d : Direction} (ho : side.Ordered d) {op : Operation}
    (hd : op.kind.direction = d) :
    Side.Ordered { side with queue := side.queue ++ [op], started := side.started ++ [op.id] } d := by
  refine ⟨?_, ho.results, ho.canceled, ?_⟩
  · dsimp only
    rw [ho.split, List.map_append, List.append_assoc]
    rfl
  · intro op' hop'
    rcases List.mem_append.mp hop' with hold | hnew
    · exact ho.directed op' hold
    · rw [List.mem_singleton.mp hnew]
      exact hd

/-- An operation is performed, with none queued, or at the front of the queue. -/
theorem Side.Ordered.settle {side : Side} {d : Direction} (ho : side.Ordered d) {r : Result}
    {queue : List Operation} {started : List ℕ} (ready : Bool) (hr : r.canceled = false)
    (hstarted : started = side.left.map Result.id ++ r.id :: queue.map Operation.id)
    (hqueue : ∀ op ∈ queue, op.kind.direction = d) :
    Side.Ordered { side with
      ready := ready
      queue := queue
      started := started
      left := side.left ++ [r]
      results := side.results ++ [r] } d := by
  have hperformed : performed [r] = [r] := by
    unfold performed
    rw [List.filter_cons_of_pos (by rw [hr]; rfl)]
    rfl
  refine ⟨?_, ?_, ?_, hqueue⟩
  · dsimp only
    rw [hstarted, List.map_append, List.append_assoc]
    rfl
  · dsimp only
    rw [performed_append, performed_append, ho.results]
  · intro r' hr' hcanceled
    rcases List.mem_append.mp hr' with hold | hnew
    · exact List.mem_append_left _ (ho.canceled r' hold hcanceled)
    · exact List.mem_append_right _ hnew

namespace Descriptor
variable {σ σ' : Descriptor} {index : ℕ} {t t' : Phase}

/-! ### start -/

/-- The result of an operation is set at once, without the lock. -/
theorem Inv.immediate (hi : σ.Inv) {op : Operation} (h : σ.threads[index]? = some (.starting op))
    (ec : Code) :
    Inv ({ σ with immediate := σ.immediate ++ [σ.setResult op ec] }.go index (.finishing op.id)) := by
  refine hi.moves h rfl rfl id (fun _ d => ?_) (fun id => rfl) (fun id => ?_) hi.ordered
    (fun _ _ h => h) ?_
  · exact .same .inl (Nat.le_refl _) id id (Nat.le_refl _)
  · simp [decisions, go, Phase.decided, setResult, List.count_singleton]
    omega
  · intro canceled closes ht'
    cases ht'

theorem Inv.enter (hi : σ.Inv) {op : Operation} (h : σ.threads[index]? = some (.starting op)) :
    Inv (σ.go index (.entering op)) := by
  refine hi.plain h rfl rfl id rfl rfl (fun _ _ => .inl (Nat.le_refl _)) (fun _ => Nat.le_refl _)
    (fun _ => rfl) (fun _ => rfl) ?_
  intro canceled closes ht'
  cases ht'

theorem Inv.start (hi : σ.Inv) {op : Operation} (h : σ.threads[index]? = some (.starting op))
    (o : Outcome) : (σ.start index op o).Inv := by
  unfold Descriptor.start
  dsimp only
  split
  · split
    · exact hi.immediate h _
    · exact hi.enter h
  · split
    · exact hi.immediate h _
    · exact hi.enter h
  · exact hi.enter h
  · split
    · exact hi.enter h
    · exact hi.immediate h _

/-- The operation is queued, behind others or as it would block. -/
theorem Inv.enqueue (hi : σ.Inv) {op : Operation} (h : σ.threads[index]? = some t)
    (ht : t = .holding op ∧ (σ.sides op.kind.direction).queue ≠ [] ∨ t = .blocked op) :
    Inv ((σ.enqueue op).go index .idle) := by
  have hholds : t.holds = 1 ∧ (∀ id, t.has id = [op.id].count id) ∧ (∀ id, t.decided id = 0) ∧
      ∀ d, t.delivers d = 0 := by
    rcases ht with ⟨rfl, _⟩ | rfl
    · exact ⟨rfl, fun _ => rfl, fun _ => rfl, fun _ => rfl⟩
    · exact ⟨rfl, fun _ => rfl, fun _ => rfl, fun _ => rfl⟩
  obtain ⟨hone, hhas, hdecided, hdelivers⟩ := hholds
  have hlocked : σ.locked.toNat = 1 := by
    have hle := le_total Phase.holds h
    have hlock := hi.lock
    have hle' := Bool.toNat_le σ.locked
    omega
  refine hi.side h rfl (d := op.kind.direction) rfl id rfl ?_ (fun _ => ?_) (fun d' _ => ?_)
    (fun id => ?_) (fun id => ?_) ((hi.ordered _).enqueue rfl) (fun _ hr => hr) ?_
  · rw [hone, hlocked]
    rfl
  · refine .same (fun _ => ?_) (Nat.zero_le _) ?_ ?_ (by rw [hdelivers]; exact Nat.zero_le _)
    · rcases ht with ⟨_, hne⟩ | rfl
      · exact .inl hne
      · right
        simp [Phase.blocking]
    · simp [Descriptor.enqueue, go, setSide]
    · simp [Descriptor.enqueue, go, setSide]
  · exact ⟨Nat.zero_le _, by rw [hdelivers]; exact Nat.zero_le _⟩
  · rw [hhas id, show Phase.has id .idle = 0 from rfl, List.map_append, List.count_append,
      show ((σ.enqueue op).go index .idle).given id = σ.given id from rfl,
      show ((σ.enqueue op).go index .idle).completed = σ.completed from rfl]
    simp only [List.map_cons, List.map_nil]
    omega
  · rw [hdecided id, show Phase.decided id .idle = 0 from rfl]
    rfl
  · intro canceled closes ht'
    cases ht'

/-- The operation is performed under the lock, with none queued. -/
theorem Inv.attempt (hi : σ.Inv) {op : Operation} (h : σ.threads[index]? = some (.holding op))
    (o : Outcome) : (σ.attempt index op o).Inv := by
  have hlocked : σ.locked.toNat = 1 := by
    have hle := le_total Phase.holds h
    have hlock := hi.lock
    have hle' := Bool.toNat_le σ.locked
    rw [show Phase.holds (.holding op) = 1 from rfl] at hle
    omega
  unfold Descriptor.attempt
  dsimp only
  split
  · next hne => exact hi.enqueue h (.inl ⟨rfl, hne⟩)
  next hqueue =>
  rw [not_not] at hqueue
  split
  · next hblocks =>
    refine hi.plain h rfl rfl id rfl rfl (fun hopen d => ?_) (fun _ => Nat.le_refl _)
      (fun _ => rfl) (fun _ => rfl) ?_
    · by_cases hd : op.kind.direction = d
      · right
        unfold blocks at hblocks
        rw [if_pos (show σ.opened = true from hopen)] at hblocks
        show (σ.sides d).ready = false
        rw [← hd]
        simpa using hblocks
      · left
        simp [Phase.blocking, hd]
    · intro canceled closes ht'
      cases ht'
  · have ho := hi.ordered op.kind.direction
    have hsplit := ho.split
    rw [hqueue, List.map_nil, List.append_nil] at hsplit
    refine hi.side h rfl (d := op.kind.direction) rfl id rfl ?_ (fun _ => ?_) (fun d' _ => ?_)
      (fun id => ?_) (fun id => ?_)
      (ho.settle _ rfl ?_ (fun _ hop => absurd hop List.not_mem_nil)) ?_ ?_
    · rw [hlocked]
      rfl
    · refine .same (fun hne => absurd ?_ hne) (Nat.le_refl _) ?_ ?_ (Nat.le_refl _)
      · simp [Descriptor.settle, go, setSide]
      · simpa [Descriptor.settle, go, setSide] using fun hr _ => hr
      · simp [Descriptor.settle, go, setSide]
    · exact ⟨Nat.le_refl _, Nat.le_refl _⟩
    · rw [hqueue]
      rfl
    · simp [Descriptor.settle, go, setSide, setResult, Phase.decided, List.count_singleton]
    · rw [hsplit]
      rfl
    · exact fun r hr => List.mem_append_left _ hr
    · intro canceled closes ht'
      cases ht'

theorem Inv.finish (hi : σ.Inv) {id : ℕ} (h : σ.threads[index]? = some (.finishing id)) :
    Inv ({ σ with completed := σ.completed ++ [id] }.go index .idle) := by
  refine hi.plain h rfl rfl (fun ho => ho) rfl rfl (fun _ _ => .inl (Nat.le_refl _))
    (fun _ => Nat.le_refl _) (fun id' => ?_) (fun id' => ?_) ?_
  · show (0 + List.count id' (σ.completed ++ [id]) + σ.given id') =
      [id].count id' + List.count id' σ.completed + σ.given id'
    rw [List.count_append]
    omega
  · show (if id = id' then 1 else 0) + List.count id' σ.completed =
      0 + List.count id' (σ.completed ++ [id])
    rw [List.count_append, List.count_singleton]
    simp only [beq_iff_eq]
    omega
  · intro canceled closes ht'
    cases ht'

/-! ### ready -/

/-- One turn of a thread that has the lock and an edge of the direction. -/
theorem Inv.performQueue (hi : σ.Inv) {d : Direction} {next : Phase}
    (h : σ.threads[index]? = some t) (ht : t.holds = 1 ∧ t.inHand = [] ∧ 0 < t.delivers d ∧
      (∀ d', t.blocking d' = 0) ∧ ∀ id, t.decided id = 0)
    (hnext : next.holds = 1 ∧ next.inHand = [] ∧ (∀ d' ≠ d, next.delivers d' = t.delivers d') ∧
      (∀ d', next.blocking d' = 0) ∧ ∀ id, next.decided id = 0)
    (o : Outcome) : (σ.performQueue index d next o).Inv := by
  obtain ⟨hholds, hhand, hdelivers, hblocking, hdecided⟩ := ht
  obtain ⟨hholds', hhand', hdelivers', hblocking', hdecided'⟩ := hnext
  have hhas (id : ℕ) : t.has id = 0 := by
    unfold Phase.has
    rw [hhand]
    rfl
  have hhas' (id : ℕ) : next.has id = 0 := by
    unfold Phase.has
    rw [hhand']
    rfl
  -- The edge of the direction is used up where nothing is queued or the front would block.
  have hnext (hd : σ.opened = true → (σ.sides d).queue = [] ∨ (σ.sides d).ready = false) :
      (σ.go index next).Inv := by
    refine hi.moves h rfl ?_ id (fun hopen d' => ?_) (fun id => ?_) (fun id => ?_) hi.ordered
      (fun _ _ hr => hr) ?_
    · rw [hholds, hholds']
      rfl
    · by_cases heq : d' = d
      · subst heq
        rcases hd hopen with hqueue | hready
        · exact .empty hqueue (by omega) (hblocking' d')
        · exact .fresh (.inl hready)
      · exact .same .inl (by rw [hblocking' d']; exact Nat.zero_le _) id id
          (Nat.le_of_eq (hdelivers' d' heq).symm)
    · rw [hhas, hhas']
      rfl
    · rw [hdecided, hdecided']
      rfl
    · intro canceled closes heq op hop
      rw [heq] at hhand'
      rw [List.map_eq_nil_iff.mp hhand'] at hop
      cases hop
  unfold Descriptor.performQueue
  dsimp only
  split
  · next hqueue => exact hnext fun _ => .inl hqueue
  · next op queue hqueue =>
    split
    · next hblocks =>
      refine hnext fun hopen => .inr ?_
      unfold blocks at hblocks
      rw [if_pos hopen] at hblocks
      simpa using hblocks
    · -- The front of the queue is performed, and the turn goes on.
      have ho := hi.ordered d
      have hsplit := ho.split
      have hdirected := ho.directed
      rw [hqueue] at hsplit hdirected
      have hsame : σ.threads = σ.threads.set index t := by
        obtain ⟨hlt, hget⟩ := List.getElem?_eq_some_iff.mp h
        rw [← hget, List.set_getElem_self]
      refine hi.side h hsame (d := d) rfl (fun ho => ho) rfl rfl (fun _ => ?_)
        (fun d' _ => ⟨Nat.le_refl _, Nat.le_refl _⟩) (fun id => ?_) (fun id => ?_)
        (ho.settle _ rfl hsplit fun op' hop' => hdirected op' (List.mem_cons_of_mem op hop')) ?_ ?_
      · exact .fresh (.inr (.inr hdelivers))
      · show t.has id + (queue.map Operation.id).count id +
            List.count id (σ.completed ++ [op.id]) + σ.given id = _ + _ + _ + σ.given id
        rw [hqueue, List.map_cons, List.count_cons, List.count_append, List.count_singleton]
        omega
      · show (((σ.sides d).results ++ [_]).map Result.id).count id + _ + _ =
          _ + _ + List.count id (σ.completed ++ [op.id])
        rw [List.map_append, List.count_append, List.count_append]
        simp only [List.map_cons, List.map_nil, setResult]
        omega
      · exact fun r hr => List.mem_append_left _ hr
      · exact fun canceled closes heq => ⟨[], heq⟩

theorem Inv.deliver (hi : σ.Inv) {read write : Bool}
    (h : σ.threads[index]? = some (.delivering read write)) (hfree : σ.locked = false) :
    Inv ({ σ with locked := true }.go index (.serving read write)) := by
  refine hi.plain h rfl rfl (fun ho => ho) rfl ?_ (fun _ _ => .inl (Nat.le_refl _))
    (fun _ => Nat.le_refl _) (fun _ => rfl) (fun _ => rfl) ?_
  · rw [hfree]
    rfl
  · intro canceled closes ht'
    cases ht'

theorem Inv.locked (hi : σ.Inv) (h : σ.threads[index]? = some t) (ht : t.holds = 1) :
    σ.locked = true := by
  have hle := le_total Phase.holds h
  have hlock := hi.lock
  cases hl : σ.locked with
  | true => rfl
  | false =>
    rw [hl] at hlock
    simp only [Bool.toNat_false] at hlock
    omega

theorem Inv.served (hi : σ.Inv) (h : σ.threads[index]? = some (.serving false false)) :
    Inv ({ σ with locked := false }.go index .idle) := by
  have hlocked := hi.locked h rfl
  refine hi.plain h rfl rfl (fun ho => ho) rfl ?_ (fun _ _ => .inl (Nat.le_refl _))
    (fun d => ?_) (fun _ => rfl) (fun _ => rfl) ?_
  · rw [hlocked]
    rfl
  · cases d <;> exact Nat.le_refl _
  · intro canceled closes ht'
    cases ht'

/-! ### cancel and close -/

theorem Inv.swap (hi : σ.Inv) {closes : Bool} (h : σ.threads[index]? = some (.swapping closes)) :
    (σ.swap index closes).Inv := by
  refine hi.moves h rfl rfl (fun ho => ho) (fun _ d => ?_) (fun id => ?_) (fun id => ?_)
    (fun d => ?_) (fun d r hr => List.mem_append_left _ hr) ?_
  · exact .same (fun hne => absurd rfl hne) (Nat.le_refl _) (fun hr => hr) (fun he => he)
      (Nat.le_refl _)
  · show (((σ.sides .reads).queue ++ (σ.sides .writes).queue).map Operation.id).count id + 0 + _ + _ =
      0 + σ.queued id + _ + _
    unfold queued
    rw [List.map_append, List.count_append, Nat.zero_add]
    rfl
  · rfl
  · have ho := hi.ordered d
    refine ⟨?_, ?_, fun r hr hc => List.mem_append_left _ (ho.canceled r hr hc), ?_⟩
    · show (σ.sides d).started = _ ++ _
      rw [ho.split]
      simp [Descriptor.swap, go]
    · show performed (σ.sides d).results = performed (_ ++ _)
      rw [performed_append, ho.results]
      simp [performed]
    · exact fun op hop => absurd hop List.not_mem_nil
  · intro canceled closes' ht' op hop
    cases ht'
    have hmem (d : Direction) (hqueue : op ∈ (σ.sides d).queue) :
        (⟨op.id, true, .operationCanceled⟩ : Result) ∈
          ((σ.swap index closes).sides op.kind.direction).left := by
      rw [(hi.ordered d).directed op hqueue]
      exact List.mem_append_right _ (List.mem_map_of_mem hqueue)
    rcases List.mem_append.mp hop with hread | hwrite
    · exact hmem .reads hread
    · exact hmem .writes hwrite

theorem Inv.mark (hi : σ.Inv) {op : Operation} {rest : List Operation} {closes : Bool}
    (h : σ.threads[index]? = some (.marking (op :: rest) closes)) :
    (σ.mark index op rest closes).Inv := by
  have ho := hi.ordered op.kind.direction
  have hleft := hi.marked _ _ (List.mem_of_getElem? h) op List.mem_cons_self
  refine hi.side h rfl (d := op.kind.direction) rfl (fun ho => ho) rfl rfl (fun _ => ?_)
    (fun _ _ => ⟨Nat.le_refl _, Nat.le_refl _⟩) (fun id => ?_) (fun id => ?_)
    ⟨ho.split, ?_, ?_, ho.directed⟩ (fun _ hr => hr) ?_
  · refine .same ?_ (Nat.le_refl _) ?_ ?_ (Nat.le_refl _)
    · simpa [Descriptor.mark, go, setSide] using .inl
    · simp [Descriptor.mark, go, setSide]
    · simp [Descriptor.mark, go, setSide]
  · show (rest.map Operation.id).count id +
        ((σ.sides op.kind.direction).queue.map Operation.id).count id +
        List.count id (σ.completed ++ [op.id]) + σ.given id =
      ((op :: rest).map Operation.id).count id + _ + _ + σ.given id
    rw [List.map_cons, List.count_cons, List.count_append, List.count_singleton]
    omega
  · show (((σ.sides op.kind.direction).results ++ [_]).map Result.id).count id + 0 + _ =
      _ + 0 + List.count id (σ.completed ++ [op.id])
    rw [List.map_append, List.count_append, List.count_append]
    simp only [List.map_cons, List.map_nil]
    omega
  · dsimp only
    rw [performed_append, ho.results]
    simp [performed]
  · intro r hr hc
    rcases List.mem_append.mp hr with hold | hnew
    · exact ho.canceled r hold hc
    · rw [List.mem_singleton.mp hnew]
      exact hleft
  · intro canceled closes' ht'
    cases ht'
    exact ⟨[op], rfl⟩

theorem Inv.proceed (hi : σ.Inv) (h : σ.threads[index]? = some t) (o : Outcome) :
    (σ.proceed index t o).Inv := by
  unfold Descriptor.proceed
  split
  · exact hi
  · exact hi.start h o
  · next op =>
    split
    · exact hi
    · next hfree =>
      refine hi.plain h rfl rfl (fun ho => ho) rfl ?_ (fun _ _ => .inl (Nat.le_refl _))
        (fun _ => Nat.le_refl _) (fun _ => rfl) (fun _ => rfl) ?_
      · rw [Bool.eq_false_iff.mpr hfree]
        rfl
      · intro canceled closes ht'
        cases ht'
  · exact hi.attempt h o
  · exact hi.enqueue h (.inr rfl)
  · exact hi.finish h
  · split
    · exact hi
    · next hfree => exact hi.deliver h (Bool.eq_false_iff.mpr hfree)
  · next write =>
    refine hi.performQueue (d := .reads) h ⟨rfl, rfl, Nat.one_pos, fun _ => rfl, fun _ => rfl⟩
      ⟨rfl, rfl, fun d' hne => ?_, fun _ => rfl, fun _ => rfl⟩ o
    cases d' with
    | reads => exact absurd rfl hne
    | writes => rfl
  · refine hi.performQueue (d := .writes) h ⟨rfl, rfl, Nat.one_pos, fun _ => rfl, fun _ => rfl⟩
      ⟨rfl, rfl, fun d' hne => ?_, fun _ => rfl, fun _ => rfl⟩ o
    cases d' with
    | reads => rfl
    | writes => exact absurd rfl hne
  · exact hi.served h
  · refine hi.plain h rfl rfl (fun ho => ho) rfl rfl (fun _ _ => .inl (Nat.le_refl _))
      (fun _ => Nat.le_refl _) (fun _ => rfl) (fun _ => rfl) ?_
    intro canceled closes ht'
    cases ht'
  · split
    · exact hi
    · exact hi.swap h
  · exact hi.mark h
  · next closes =>
    cases closes with
    | true =>
      refine hi.plain h rfl rfl (fun ho => ho) rfl rfl (fun _ _ => .inl (Nat.le_refl _))
        (fun _ => Nat.le_refl _) (fun _ => rfl) (fun _ => rfl) ?_
      intro canceled closes ht'
      cases ht'
    | false =>
      refine hi.plain h rfl rfl (fun ho => ho) rfl rfl (fun _ _ => .inl (Nat.le_refl _))
        (fun _ => Nat.le_refl _) (fun _ => rfl) (fun _ => rfl) ?_
      intro canceled closes ht'
      cases ht'
  · refine hi.plain h rfl rfl (fun ho => Bool.noConfusion ho) rfl rfl
      (fun _ _ => .inl (Nat.le_refl _)) (fun _ => Nat.le_refl _) (fun _ => rfl) (fun _ => rfl) ?_
    intro canceled closes ht'
    cases ht'

/-! ### The kernel -/

/-- The kernel changes what is ready and the edges of a direction, which it leaves awake. -/
theorem Inv.kernel (hi : σ.Inv) (d : Direction) (ready edge : Bool)
    (hawake : σ.Awake d → ready = false ∨ edge = true ∨ 0 < total (Phase.delivers d) σ.threads) :
    (σ.setSide d { σ.sides d with ready := ready, edge := edge }).Inv := by
  have hsame {X : Type} (f : Side → X)
      (hf : f { σ.sides d with ready := ready, edge := edge } = f (σ.sides d)) (d' : Direction) :
      f ((σ.setSide d { σ.sides d with ready := ready, edge := edge }).sides d') = f (σ.sides d') := by
    by_cases heq : d' = d
    · subst heq
      simpa [setSide] using hf
    · simp [setSide, heq]
  have hqueue := hsame Side.queue rfl
  have hresults := hsame Side.results rfl
  have hleft := hsame Side.left rfl
  have hstarted := hsame Side.started rfl
  refine ⟨hi.lock, fun hopen d' hsome => ?_, fun id => ?_, fun id => ?_, fun d' => ?_, ?_⟩
  · have hold : σ.Awake d' := hi.wakes hopen d' (by rwa [hqueue d'] at hsome)
    by_cases heq : d' = d
    · subst heq
      unfold Awake
      simp only [setSide, Function.update_self]
      exact hawake hold
    · unfold Awake at hold ⊢
      simpa only [setSide, Function.update_of_ne heq] using hold
  · have hl := hi.ledger id
    unfold queued at hl ⊢
    rw [hqueue, hqueue]
    exact hl
  · have hl := hi.decided id
    unfold decisions at hl ⊢
    rw [hresults, hresults]
    exact hl
  · have ho := hi.ordered d'
    exact ⟨by rw [hstarted, hleft, hqueue]; exact ho.split, by rw [hresults, hleft]; exact ho.results,
      by rw [hresults, hleft]; exact ho.canceled, by rw [hqueue]; exact ho.directed⟩
  · intro canceled closes hmem op hop
    rw [hleft]
    exact hi.marked canceled closes hmem op hop

/-! ### Steps -/

theorem Inv.begin (hi : σ.Inv) (h : σ.threads[index]? = some .idle → σ'.Inv) :
    (σ.begin index σ').Inv := by
  unfold Descriptor.begin
  split
  · next hidle => exact h hidle
  · exact hi

theorem Inv.step (hi : σ.Inv) (e : Event) : (σ.step e).Inv := by
  unfold Descriptor.step
  cases e with
  | join =>
    refine ⟨?_, fun hopen d hsome => ?_, fun id => ?_, fun id => ?_, hi.ordered, ?_⟩
    · simpa [Phase.holds] using hi.lock
    · have hawake := hi.wakes hopen d (by simpa [Phase.blocking] using hsome)
      simpa [Awake, Phase.delivers] using hawake
    · simpa [Phase.has, Phase.inHand, queued, given] using hi.ledger id
    · simpa [Phase.decided, decisions] using hi.decided id
    · intro canceled closes hmem
      rcases List.mem_append.mp hmem with hold | hnew
      · exact hi.marked canceled closes hold
      · cases List.mem_singleton.mp hnew
  | start index kind empty =>
    refine hi.begin fun hidle => ?_
    refine hi.plain hidle rfl rfl (fun ho => ho) rfl rfl (fun _ _ => .inl (Nat.le_refl _))
      (fun _ => Nat.le_refl _) (fun id => ?_) (fun _ => rfl) ?_
    · show [σ.count].count id + σ.completed.count id + (if id < σ.count then 1 else 0) =
        0 + σ.completed.count id + if id < σ.count + 1 then 1 else 0
      rw [List.count_singleton]
      rcases Nat.lt_trichotomy id σ.count with hlt | rfl | hgt
      · simp [hlt, Nat.lt_succ_of_lt hlt, Nat.ne_of_gt hlt]
      · simp
        omega
      · simp [Nat.not_lt.mpr (Nat.le_of_lt hgt), Nat.not_lt.mpr (Nat.succ_le_of_lt hgt), Nat.ne_of_lt hgt]
    · intro canceled closes ht'
      cases ht'
  | cancel index closes =>
    refine hi.begin fun hidle => ?_
    refine hi.plain hidle rfl rfl (fun ho => ho) rfl rfl (fun _ _ => .inl (Nat.le_refl _))
      (fun _ => Nat.le_refl _) (fun _ => rfl) (fun _ => rfl) ?_
    intro canceled closes ht'
    cases ht'
  | fetch index read write =>
    refine hi.begin fun hidle => ?_
    refine hi.moves hidle rfl rfl (fun ho => ho) (fun _ d => ?_) (fun _ => rfl) (fun _ => rfl)
      (fun d => ?_) (fun d r hr => ?_) ?_
    · -- An edge that is taken is to be delivered by the thread.
      cases d with
      | reads =>
        cases read with
        | true => exact .fresh (.inr (.inr Nat.one_pos))
        | false =>
          exact .same .inl (Nat.le_refl _) (fun hr => hr) (fun he => by simpa [go] using he)
            (Nat.zero_le _)
      | writes =>
        cases write with
        | true => exact .fresh (.inr (.inr Nat.one_pos))
        | false =>
          exact .same .inl (Nat.le_refl _) (fun hr => hr) (fun he => by simpa [go] using he)
            (Nat.zero_le _)
    · have ho := hi.ordered d
      cases d <;> exact ⟨ho.split, ho.results, ho.canceled, ho.directed⟩
    · cases d <;> exact hr
    · intro canceled closes ht'
      cases ht'
  | proceed index o =>
    dsimp only
    split
    · exact hi
    · next t h => exact hi.proceed h o
  | arrive d =>
    refine hi.kernel d _ _ fun hawake => ?_
    rcases hawake with hr | he | hd
    · exact .inr (.inl (by rw [hr]; simp))
    · exact .inr (.inl (by rw [he]; rfl))
    · exact .inr (.inr hd)
  | block d => exact hi.kernel d false _ fun _ => .inl rfl
  | drop d =>
    dsimp only
    split
    · exact hi
    · next hblocked => exact hi.kernel d _ false fun _ => .inl (Bool.eq_false_iff.mpr hblocked)

/-! ### Closes apart from starts -/

/-- No operation is started while the descriptor is being closed, or the reverse. -/
def Event.Apart (σ : Descriptor) : Event → Prop
  | .start _ _ _ => total Phase.closes σ.threads = 0
  | .cancel _ true => total Phase.starts σ.threads = 0
  | _ => True

def RunApart (σ : Descriptor) : List Event → Prop
  | [] => True
  | e :: events => Event.Apart σ e ∧ RunApart (σ.step e) events

/-- The descriptor is closed, or its queues are taken for that. -/
def Emptied (σ : Descriptor) : Prop := σ.opened = false ∨ 0 < total Phase.taken σ.threads

/-- What is so of a descriptor where closes are apart from starts. -/
structure Apart (σ : Descriptor) : Prop where
  exclusive : total Phase.starts σ.threads = 0 ∨ total Phase.closes σ.threads = 0
  empty : σ.Emptied → ∀ d, (σ.sides d).queue = []
  stuck : σ.opened = false → total Phase.stuck σ.threads = 0

theorem taken_le (t : Phase) : t.taken ≤ t.closes := by
  cases t with
  | marking canceled closes => cases closes <;> exact Nat.le_refl _
  | closing => exact Nat.le_refl _
  | _ => exact Nat.zero_le _

theorem stuck_le (t : Phase) : t.stuck ≤ t.starts := by
  cases t with
  | blocked op => exact Nat.le_refl _
  | entering op | holding op =>
    simp only [Phase.stuck, Phase.starts]
    split <;> omega
  | _ => exact Nat.zero_le _

/-- Where an operation is being started, the queues are not taken for a close. -/
theorem Apart.starting (ha : σ.Apart) (h : σ.threads[index]? = some t) (ht : 0 < t.starts)
    (he : σ.Emptied) : σ.opened = false := by
  rcases he with hclosed | htaken
  · exact hclosed
  · have hle := le_total Phase.starts h
    have hle' := total_le taken_le σ.threads
    rcases ha.exclusive with hs | hc <;> omega

theorem Apart.moves (ha : σ.Apart) (h : σ.threads[index]? = some t)
    (hthreads : σ'.threads = σ.threads.set index t')
    (hopened : σ'.opened = false → σ.opened = false ∨ 0 < t.taken)
    (hqueue : σ.Emptied ∨ 0 < t'.taken → (σ.Emptied → ∀ d, (σ.sides d).queue = []) →
      ∀ d, (σ'.sides d).queue = [])
    (hstarts : t'.starts ≤ t.starts ∨ total Phase.closes σ.threads = 0 ∧ t'.closes = 0)
    (hcloses : t'.closes ≤ t.closes ∨ total Phase.starts σ.threads = 0 ∧ t'.starts = 0)
    (hstuck : σ.opened = false → t'.stuck ≤ t.stuck) : σ'.Apart := by
  have hset (f : Phase → ℕ) : total f σ'.threads + f t = total f σ.threads + f t' := by
    rw [hthreads]
    exact total_set f h t'
  have hle (f : Phase → ℕ) : f t ≤ total f σ.threads := le_total f h
  have hs := hset Phase.starts
  have hc := hset Phase.closes
  have hle₁ := hle Phase.starts
  have hle₂ := hle Phase.closes
  have htaken := taken_le t
  refine ⟨?_, ?_, ?_⟩
  · have hex := ha.exclusive
    omega
  · intro he
    refine hqueue ?_ ha.empty
    rcases he with hclosed | hpos
    · rcases hopened hclosed with hold | hold
      · exact .inl (.inl hold)
      · exact .inl (.inr (Nat.lt_of_lt_of_le hold (hle Phase.taken)))
    · have ht := hset Phase.taken
      by_cases hnew : 0 < t'.taken
      · exact .inr hnew
      · exact .inl (.inr (by omega))
  · intro hclosed
    have hk := hset Phase.stuck
    have hkle := total_le stuck_le σ.threads
    rcases hopened hclosed with hold | hold
    · have hnone := ha.stuck hold
      have hle' := hstuck hold
      omega
    · -- The queues are taken, so that no operation is being started.
      have hexclusive := ha.exclusive
      have hkle' := stuck_le t'
      have hsle : t'.starts = 0 := by omega
      omega

/-- A step that is not the first part of a call, and queues nothing. -/
theorem Apart.quiet (ha : σ.Apart) (h : σ.threads[index]? = some t)
    (hthreads : σ'.threads = σ.threads.set index t') (hopened : σ'.opened = σ.opened)
    (hqueue : ∀ d, (σ.sides d).queue = [] → (σ'.sides d).queue = [])
    (hstarts : t'.starts ≤ t.starts) (hcloses : t'.closes ≤ t.closes)
    (htaken : t'.taken ≤ t.taken) (hstuck : σ.opened = false → t'.stuck ≤ t.stuck) : σ'.Apart := by
  refine ha.moves h hthreads (fun hclosed => .inl (hopened ▸ hclosed)) ?_ (.inl hstarts)
    (.inl hcloses) hstuck
  intro he hempty d
  refine hqueue d (hempty ?_ d)
  rcases he with he | hpos
  · exact he
  · have hle := le_total Phase.taken h
    exact .inr (by omega)

theorem settle_queue (σ : Descriptor) (d : Direction) (op : Operation) (o : Outcome)
    {queue : List Operation} (started : List ℕ) (d' : Direction) (h : (σ.sides d').queue = [])
    (hqueue : queue = [] ∨ d' ≠ d) : ((σ.settle d op o queue started).sides d').queue = [] := by
  unfold settle setSide
  by_cases heq : d' = d
  · subst heq
    simpa using hqueue
  · simpa [heq] using h

theorem Apart.start (ha : σ.Apart) {op : Operation} (h : σ.threads[index]? = some (.starting op))
    (o : Outcome) : (σ.start index op o).Apart := by
  have himmediate (ec : Code) : Apart ({ σ with
      immediate := σ.immediate ++ [σ.setResult op ec] }.go index (.finishing op.id)) :=
    ha.quiet h rfl rfl (fun _ he => he) (Nat.zero_le _) (Nat.le_refl _) (Nat.le_refl _)
      fun _ => Nat.le_refl _
  have henter (hkind : σ.opened = false → op.kind ≠ .connect) : (σ.go index (.entering op)).Apart := by
    refine ha.quiet h rfl rfl (fun _ he => he) (Nat.le_refl _) (Nat.le_refl _) (Nat.le_refl _)
      fun hclosed => ?_
    simp only [Phase.stuck, if_neg (hkind hclosed)]
    exact Nat.le_refl _
  unfold Descriptor.start
  dsimp only
  split
  · next hkind =>
    split
    · exact himmediate _
    · exact henter fun _ => by rw [hkind]; exact Kind.noConfusion
  · next hkind =>
    split
    · exact himmediate _
    · exact henter fun _ => by rw [hkind]; exact Kind.noConfusion
  · next hkind => exact henter fun _ => by rw [hkind]; exact Kind.noConfusion
  · split
    · next hprogress =>
      refine henter fun hclosed => ?_
      rw [hprogress.1] at hclosed
      cases hclosed
    · exact himmediate _

/-- An operation is queued only where no close has taken the queues. -/
theorem Apart.enqueue (ha : σ.Apart) {op : Operation} (h : σ.threads[index]? = some t)
    (ht : t = .holding op ∧ (σ.sides op.kind.direction).queue ≠ [] ∨ t = .blocked op) :
    Apart ((σ.enqueue op).go index .idle) := by
  have hstarts : 0 < t.starts := by
    rcases ht with ⟨rfl, _⟩ | rfl <;> exact Nat.one_pos
  refine ha.moves h rfl .inl ?_ (.inl (Nat.zero_le _)) (.inl (Nat.zero_le _))
    fun _ => Nat.zero_le _
  intro he hempty
  rcases he with he | hpos
  · exfalso
    rcases ht with ⟨_, hne⟩ | rfl
    · exact hne (hempty he _)
    · have hnone := ha.stuck (ha.starting h hstarts he)
      have hle := le_total Phase.stuck h
      rw [show Phase.stuck (.blocked op) = 1 from rfl] at hle
      omega
  · cases hpos

theorem Apart.attempt (ha : σ.Apart) {op : Operation} (h : σ.threads[index]? = some (.holding op))
    (o : Outcome) : (σ.attempt index op o).Apart := by
  unfold Descriptor.attempt
  dsimp only
  split
  · next hne => exact ha.enqueue h (.inl ⟨rfl, hne⟩)
  · split
    · next hblocks =>
      refine ha.quiet h rfl rfl (fun _ he => he) (Nat.le_refl _) (Nat.le_refl _) (Nat.le_refl _)
        fun hclosed => ?_
      unfold blocks at hblocks
      rw [if_neg (by rw [hclosed]; exact Bool.noConfusion)] at hblocks
      simp only [Phase.stuck, if_pos (of_decide_eq_true hblocks)]
      exact Nat.le_refl _
    · refine ha.quiet h rfl rfl (fun d he => ?_) (Nat.zero_le _) (Nat.le_refl _) (Nat.le_refl _)
        fun _ => Nat.zero_le _
      exact settle_queue (σ := { σ with locked := false }) _ _ _ _ d he (.inl rfl)

theorem Apart.performQueue (ha : σ.Apart) {d : Direction} {next : Phase}
    (h : σ.threads[index]? = some t) (hnext : next.starts = 0 ∧ next.closes = 0 ∧ next.taken = 0 ∧
      next.stuck = 0) (o : Outcome) : (σ.performQueue index d next o).Apart := by
  obtain ⟨hstarts, hcloses, htaken, hstuck⟩ := hnext
  have hgo : (σ.go index next).Apart :=
    ha.quiet h rfl rfl (fun _ he => he) (hstarts ▸ Nat.zero_le _) (hcloses ▸ Nat.zero_le _)
      (htaken ▸ Nat.zero_le _) fun _ => hstuck ▸ Nat.zero_le _
  unfold Descriptor.performQueue
  dsimp only
  split
  · exact hgo
  · next op queue hqueue =>
    split
    · exact hgo
    · refine ⟨ha.exclusive, fun he d' => ?_, ha.stuck⟩
      have hempty := ha.empty he
      rw [hempty d] at hqueue
      cases hqueue

theorem Apart.swap (ha : σ.Apart) {closes : Bool}
    (h : σ.threads[index]? = some (.swapping closes)) : (σ.swap index closes).Apart := by
  refine ha.moves h rfl .inl (fun _ _ _ => rfl) (.inl (Nat.le_refl _)) (.inl ?_)
    fun _ => Nat.le_refl _
  cases closes <;> exact Nat.le_refl _

theorem Apart.mark (ha : σ.Apart) {op : Operation} {rest : List Operation} {closes : Bool}
    (h : σ.threads[index]? = some (.marking (op :: rest) closes)) :
    (σ.mark index op rest closes).Apart := by
  refine ha.quiet h rfl rfl (fun d he => ?_) (Nat.le_refl _) ?_ ?_ fun _ => Nat.le_refl _
  · unfold Descriptor.mark setSide
    by_cases heq : d = op.kind.direction
    · subst heq
      simpa [go] using he
    · simpa [go, heq] using he
  · cases closes <;> exact Nat.le_refl _
  · cases closes <;> exact Nat.le_refl _

theorem Apart.proceed (ha : σ.Apart) (h : σ.threads[index]? = some t) (o : Outcome) :
    (σ.proceed index t o).Apart := by
  unfold Descriptor.proceed
  split
  · exact ha
  · exact ha.start h o
  · split
    · exact ha
    · exact ha.quiet h rfl rfl (fun _ he => he) (Nat.le_refl _) (Nat.le_refl _) (Nat.le_refl _)
        fun _ => Nat.le_refl _
  · exact ha.attempt h o
  · exact ha.enqueue h (.inr rfl)
  · exact ha.quiet h rfl rfl (fun _ he => he) (Nat.le_refl _) (Nat.le_refl _) (Nat.le_refl _)
      fun _ => Nat.le_refl _
  · split
    · exact ha
    · exact ha.quiet h rfl rfl (fun _ he => he) (Nat.le_refl _) (Nat.le_refl _) (Nat.le_refl _)
        fun _ => Nat.le_refl _
  · exact ha.performQueue h ⟨rfl, rfl, rfl, rfl⟩ o
  · exact ha.performQueue h ⟨rfl, rfl, rfl, rfl⟩ o
  · exact ha.quiet h rfl rfl (fun _ he => he) (Nat.le_refl _) (Nat.le_refl _) (Nat.le_refl _)
      fun _ => Nat.le_refl _
  · next closes =>
    refine ha.quiet h rfl rfl (fun _ he => he) (Nat.le_refl _) ?_ (Nat.le_refl _)
      fun _ => Nat.le_refl _
    cases closes <;> exact Nat.le_refl _
  · split
    · exact ha
    · exact ha.swap h
  · exact ha.mark h
  · next closes =>
    cases closes with
    | true =>
      exact ha.quiet h rfl rfl (fun _ he => he) (Nat.le_refl _) (Nat.le_refl _) (Nat.le_refl _)
        fun _ => Nat.le_refl _
    | false =>
      exact ha.quiet h rfl rfl (fun _ he => he) (Nat.le_refl _) (Nat.le_refl _) (Nat.le_refl _)
        fun _ => Nat.le_refl _
  · -- The socket is closed, with its queues taken.
    refine ha.moves h rfl (fun _ => .inr Nat.one_pos) (fun _ hempty => hempty (.inr ?_))
      (.inl (Nat.le_refl _)) (.inl (Nat.zero_le _)) fun _ => Nat.le_refl _
    have hle := le_total Phase.taken h
    rw [show Phase.taken .closing = 1 from rfl] at hle
    omega

theorem Apart.kernel (ha : σ.Apart) (d : Direction) (ready edge : Bool) :
    (σ.setSide d { σ.sides d with ready := ready, edge := edge }).Apart := by
  refine ⟨ha.exclusive, fun he d' => ?_, ha.stuck⟩
  have hempty := ha.empty he d'
  unfold setSide
  by_cases heq : d' = d
  · subst heq
    simpa using hempty
  · simpa [heq] using hempty

theorem Apart.begin (ha : σ.Apart) (h : σ.threads[index]? = some .idle → σ'.Apart) :
    (σ.begin index σ').Apart := by
  unfold Descriptor.begin
  split
  · next hidle => exact h hidle
  · exact ha

theorem Apart.step (ha : σ.Apart) {e : Event} (he : Event.Apart σ e) : (σ.step e).Apart := by
  unfold Descriptor.step
  cases e with
  | join =>
    refine ⟨?_, fun he => ha.empty ?_, fun hclosed => ?_⟩
    · simpa [Phase.starts, Phase.closes] using ha.exclusive
    · simpa [Emptied, Phase.taken] using he
    · simpa [Phase.stuck] using ha.stuck hclosed
  | start index kind empty =>
    refine ha.begin fun hidle => ?_
    refine ha.moves hidle rfl .inl (fun he' hempty => hempty ?_) (.inr ⟨he, rfl⟩)
      (.inl (Nat.le_refl _)) fun _ => Nat.le_refl _
    exact he'.elim id fun hpos => absurd hpos (Nat.lt_irrefl 0)
  | cancel index closes =>
    refine ha.begin fun hidle => ?_
    cases closes with
    | true =>
      refine ha.moves hidle rfl .inl (fun he' hempty => hempty ?_) (.inl (Nat.le_refl _))
        (.inr ⟨he, rfl⟩) fun _ => Nat.le_refl _
      exact he'.elim id fun hpos => absurd hpos (Nat.lt_irrefl 0)
    | false =>
      exact ha.quiet hidle rfl rfl (fun _ he => he) (Nat.le_refl _) (Nat.le_refl _)
        (Nat.le_refl _) fun _ => Nat.le_refl _
  | fetch index read write =>
    refine ha.begin fun hidle => ?_
    refine ha.quiet hidle rfl rfl (fun d he => ?_) (Nat.le_refl _) (Nat.le_refl _) (Nat.le_refl _)
      fun _ => Nat.le_refl _
    cases d <;> exact he
  | proceed index o =>
    dsimp only
    split
    · exact ha
    · next t h => exact ha.proceed h o
  | arrive d => exact ha.kernel d _ _
  | block d => exact ha.kernel d false _
  | drop d =>
    dsimp only
    split
    · exact ha
    · exact ha.kernel d _ false

theorem RunApart.after {events : List Event} (hr : RunApart σ events) (ha : σ.Apart) :
    (after step σ events).Apart := by
  induction events generalizing σ with
  | nil => exact ha
  | cons e events ih => exact ih hr.2 (ha.step hr.1)

/-! ### The operations of a descriptor -/

/-- Where an operation of an open descriptor is queued, its direction blocks or an edge is
to be delivered; the results that are not those of a cancel are set in the order the
operations were started, with none ahead of one that is queued, and a result of a cancel is
that of an operation it took from the queue; and each operation started is in the hands of
a thread, queued or completed, once, with its result set once. -/
structure Settles (σ : Descriptor) : Prop where
  wakes : σ.opened = true → ∀ d, (σ.sides d).queue ≠ [] →
    (σ.sides d).ready = false ∨ (σ.sides d).edge = true ∨ ∃ t ∈ σ.threads, 0 < t.delivers d
  ordered : ∀ d, (σ.sides d).Ordered d
  once : ∀ id < σ.count,
    total (Phase.has id) σ.threads + σ.queued id + σ.completed.count id = 1
  decided : ∀ id, σ.completed.count id ≤ σ.decisions id ∧ σ.decisions id ≤ 1

/-- And moreover the results of a cancel are set in order too, and nothing is left queued on
a descriptor that is closed. -/
structure Exact (σ : Descriptor) : Prop extends Settles σ where
  inOrder : ∀ d, (σ.sides d).results.map Result.id <+: (σ.sides d).started
  closed : σ.opened = false → (∀ t ∈ σ.threads, t = .idle) → ∀ d, (σ.sides d).queue = []

theorem decided_le (id : ℕ) (t : Phase) : t.decided id ≤ t.has id := by
  cases t with
  | finishing id' =>
    simp only [Phase.decided, Phase.has, Phase.inHand, List.count_singleton, beq_iff_eq]
    exact Nat.le_refl _
  | _ => exact Nat.zero_le _

theorem Inv.settles (hi : σ.Inv) : Settles σ := by
  refine ⟨fun hopen d hqueue => ?_, hi.ordered, fun id hid => ?_, fun id => ⟨?_, ?_⟩⟩
  · exact (hi.wakes hopen d (.inl hqueue)).imp_right (Or.imp_right exists_of_total)
  · have hl := hi.ledger id
    unfold given at hl
    rwa [if_pos hid] at hl
  · have hd := hi.decided id
    omega
  · have hl := hi.ledger id
    have hd := hi.decided id
    have hle := total_le (decided_le id) σ.threads
    have hgiven : σ.given id ≤ 1 := by
      unfold given
      split <;> omega
    omega

theorem create_inv : Inv {} :=
  ⟨rfl, fun _ _ h => h.elim (absurd rfl) (fun hpos => absurd hpos (Nat.lt_irrefl 0)), fun id => by
    simp [queued, given], fun _ => rfl, fun _ => ⟨rfl, rfl, fun _ h => absurd h List.not_mem_nil,
      fun _ h => absurd h List.not_mem_nil⟩, fun _ _ h => absurd h List.not_mem_nil⟩

theorem create_apart : Apart {} :=
  ⟨.inl rfl, fun _ _ => rfl, fun h => Bool.noConfusion h⟩

/-- In every run, of any threads, and with nothing left queued on a closed descriptor where
none of its operations is started during the close. -/
theorem operations_settle (events : List Event) :
    Settles (after step {} events) ∧
      (RunApart {} events → (after step {} events).opened = false →
        ∀ d, ((after step {} events).sides d).queue = []) :=
  ⟨(after_invariant (P := Inv) (fun _ e hi => hi.step e) create_inv events).settles,
    fun hr hclosed => (hr.after create_apart).empty (.inl hclosed)⟩

def blocked : Outcome := ⟨.success, false, false⟩

/-- A read is queued and the descriptor is closed, in turn. -/
def closedApart : List Event :=
  [.join, .start 0 .read false, .proceed 0 blocked, .proceed 0 blocked, .proceed 0 blocked,
    .proceed 0 blocked, .cancel 0 true, .proceed 0 blocked, .proceed 0 blocked,
    .proceed 0 blocked, .proceed 0 blocked, .proceed 0 blocked]

theorem operations_settle_closed :
    RunApart {} closedApart ∧ (after step {} closedApart).completed = [0] ∧
      ∀ d, ((after step {} closedApart).sides d).queue = [] := by
  have hr : RunApart {} closedApart :=
    ⟨trivial, rfl, trivial, trivial, trivial, trivial, rfl, trivial, trivial, trivial, trivial,
      trivial, trivial⟩
  exact ⟨hr, by decide, (operations_settle closedApart).2 hr (by decide)⟩

/-- A read is started while another thread is in a close, behind its cancel. -/
def closedUnder : List Event :=
  [.join, .join, .start 0 .read false, .proceed 0 blocked, .cancel 1 true, .proceed 1 blocked,
    .proceed 1 blocked, .proceed 0 blocked, .proceed 0 blocked, .proceed 0 blocked,
    .proceed 1 blocked, .proceed 1 blocked]

/-- A read is canceled, and before its result is set another is performed. -/
def overtaken : List Event :=
  [.join, .join, .start 0 .read false, .proceed 0 blocked, .proceed 0 blocked, .proceed 0 blocked,
    .proceed 0 blocked, .cancel 1 false, .proceed 1 blocked, .proceed 1 blocked, .arrive .reads,
    .start 0 .read false, .proceed 0 blocked, .proceed 0 blocked, .proceed 0 blocked,
    .proceed 1 blocked]

/-- The one is never completed, and the other has its result behind a later one. -/
theorem not_exact : ¬ Exact (after step {} closedUnder) ∧ ¬ Exact (after step {} overtaken) :=
  ⟨fun h => absurd (h.closed (by decide) (by decide) .reads) (by decide),
    fun h => absurd (h.inOrder .reads) (by decide)⟩

end Descriptor

end BitcoinNetwork.Io
