import BitcoinNetwork.Sessions.Addresses

/-!
# No address is lost (sessions/session_outbound.cpp)

Each draw is with a connector, with its batch, in the race of the batch or in a channel, or
is decided; and a draw that is let go is let go for what it failed with itself.
-/

namespace BitcoinNetwork.Sessions
open Net Async

/-! ### What is said of runs -/

/-- The address of a draw is restored, or is let go: for a code that is in no set of those
that reclaim it; for one that may, while the pool is full; or as unreachable, where its batch
was attributable or short of draws, or the pool had no room for it. -/
def Fate.Fair (connectBatchSize : ℕ) (f : Fate) : Prop :=
  f.restored = true ∨
    match f.outage with
    | none =>
      alwaysReclaim f.ec = false ∧ mayReclaim f.ec = false ∨ mayReclaim f.ec = true ∧ f.full = true
    | some o =>
      batchReclaim f.ec = true ∧
        (o.attributable = true ∨ o.drawn < min 2 connectBatchSize ∨ o.room ≤ o.index)

/-- A batch has the draw: to connect, to be decided with it, or as the winner of its race. -/
def Batch.Holds (b : Batch) (draw : ℕ) : Prop :=
  draw ∈ b.connecting ∨ draw ∈ b.unreachable.map Prod.fst ∨ b.racer.args = some (.success, some draw)

namespace Draws

/-- The attempt of a draw, or the channel that it has become, is under way. -/
def Live (s : Draws) (draw : ℕ) : Prop :=
  (∃ b ∈ s.batches, b.Holds draw) ∨ ∃ c ∈ s.channels, c.draw = draw

def Decided (s : Draws) (draw : ℕ) : Prop := ∃ f ∈ s.fates, f.draw = draw

/-- A connect that fails without its socket does not fail as one that is canceled, dropped
or expired; and a channel that is stopped behind its handshake, and before the session
subscribes to its stop, is stopped by a code that lets its address go, or with the session. -/
def Clear (s : Draws) : Event → Prop
  | .connect index draw ec socket =>
    (∃ b ∈ s.batches[index]?, draw ∈ b.connecting) → socket = false → ec ≠ .success →
      alwaysReclaim ec = false
  | .subscribe c _ =>
    c ∈ s.channels → ∀ own, c.stage = .subscribing (some own) →
      s.stopped = true ∨ alwaysReclaim own = false ∧ (mayReclaim own = true → s.full = true)
  | _ => True

end Draws

/-! ### What is decided -/

namespace Draws
variable {s s' : Draws} {b b' : Batch} {index draw : ℕ} {ec own : Code}

/-- A step appends what it decides, each as it should be if and only if a condition holds,
and changes none of the settings. -/
structure Decides (s s' : Draws) (condition : Prop) : Prop where
  batchSize : s'.connectBatchSize = s.connectBatchSize
  fates : ∃ fates, s'.fates = s.fates ++ fates ∧
    ((∀ f ∈ fates, f.Fair s.connectBatchSize) ↔ condition)

theorem Decides.refl (h : s'.fates = s.fates) (hsize : s'.connectBatchSize = s.connectBatchSize) :
    Decides s s' True where
  batchSize := hsize
  fates := ⟨[], by rw [h, List.append_nil], by simp⟩

theorem Decides.trans {s'' : Draws} {p q : Prop} (h : Decides s s' p) (h' : Decides s' s'' q) :
    Decides s s'' (p ∧ q) := by
  obtain ⟨fates, hfates, hp⟩ := h.fates
  obtain ⟨more, hmore, hq⟩ := h'.fates
  refine ⟨h'.batchSize.trans h.batchSize, fates ++ more, by rw [hmore, hfates, List.append_assoc], ?_⟩
  rw [h.batchSize] at hq
  rw [← hp, ← hq]
  constructor
  · intro hall
    exact ⟨fun f hf => hall f (List.mem_append_left _ hf), fun f hf => hall f (List.mem_append_right _ hf)⟩
  · rintro ⟨hleft, hright⟩ f hf
    rcases List.mem_append.mp hf with hf | hf
    · exact hleft f hf
    · exact hright f hf

theorem Decides.mono {p : Prop} (h : Decides s s' p) (hdecided : s.Decided draw) : s'.Decided draw := by
  obtain ⟨fates, hfates, -⟩ := h.fates
  obtain ⟨f, hf, hdraw⟩ := hdecided
  exact ⟨f, by rw [hfates]; exact List.mem_append_left _ hf, hdraw⟩

variable (s)

variable {s}

/-- The race of a batch runs for those of its connectors that are to finish, so many of them
besides those that the batch waits for, and has the socket of its winner. -/
structure Sound (b : Batch) (besides : ℕ) : Prop where
  runners : b.racer.runners = b.taking + b.connecting.length + besides
  complete : b.racer.runners ≠ 0 → b.racer.complete = some ()
  lost : b.racer.success = false → b.racer.args = none
  won : b.racer.success = true → b.racer.runners ≠ 0 →
    ∃ draw, b.racer.args = some (.success, some draw)
  ended : b.racer.runners = 0 → b.racer.args = none ∧ b.unreachable = []
  unreachable : ∀ m ∈ b.unreachable, batchReclaim m.2 = true

/-- A batch takes the place of another. -/
def inHand (s : Draws) (index : ℕ) (b : Batch) : Draws := { s with batches := s.batches.set index b }

theorem mem_set {α : Type} {l : List α} {i : ℕ} {x y a : α} (h : a ∈ l.set i x) :
    a = x ∨ a ∈ l.set i y := by
  obtain ⟨j, hj⟩ := List.mem_iff_getElem?.mp h
  by_cases hij : i = j
  · subst hij
    rw [List.getElem?_set] at hj
    split at hj
    · split at hj
      · exact .inl (Option.some.inj hj).symm
      · cases hj
    · contradiction
  · refine .inr (List.mem_iff_getElem?.mpr ⟨j, ?_⟩)
    rw [List.getElem?_set_ne hij] at hj ⊢
    exact hj

/-- What the batch in hand holds goes on to be held, or is accounted for otherwise. -/
theorem Live.inHand (hbatches : s'.batches = s.batches.set index b')
    (hchannels : ∀ c ∈ s.channels, c ∈ s'.channels) (hlive : (s.inHand index b).Live draw)
    (hholds : b.Holds draw → s'.Live draw ∨ s'.Decided draw) : s'.Live draw ∨ s'.Decided draw := by
  rcases hlive with ⟨x, hx, hholdsx⟩ | ⟨c, hc, hdraw⟩
  · rcases mem_set (y := b') hx with rfl | hother
    · exact hholds hholdsx
    · refine .inl (.inl ⟨x, ?_, hholdsx⟩)
      rw [hbatches]
      exact hother
  · exact .inl (.inr ⟨c, hchannels c hc, hdraw⟩)

/-- What `handle_connect` does: it decides the unreachable members of the batch, and the draw
of the winner, which otherwise becomes a channel. -/
structure Handled (s s' : Draws) (b : Batch) (ec : Code) (socket : Option ℕ) : Prop where
  decides : Decides s s' True
  batches : s'.batches = s.batches
  draws : s'.draws = s.draws
  channels : ∀ c ∈ s.channels, c ∈ s'.channels
  unreachable : ∀ draw ∈ b.unreachable.map Prod.fst, s'.Decided draw
  winner : ∀ draw, socket = some draw → ec = .success →
    s'.Decided draw ∨ ∃ c ∈ s'.channels, c.draw = draw

/-- The batches are sound, and each draw is under way or decided. -/
structure Inv (s : Draws) : Prop where
  sound : ∀ b ∈ s.batches, Sound b 0
  accounted : ∀ draw < s.draws, s.Live draw ∨ s.Decided draw

/-- The batch at an index is taken in hand, and goes on to hold what it did. -/
theorem Live.take (s' : Draws) (b' : Batch) (hb : s.batches[index]? = some b) (hlive : s.Live draw)
    (hholds : b.Holds draw → b'.Holds draw ∨ s'.Decided draw) :
    (s.inHand index b').Live draw ∨ s'.Decided draw := by
  obtain ⟨hlt, hget⟩ := List.getElem?_eq_some_iff.mp hb
  rcases hlive with ⟨x, hx, hholdsx⟩ | hchannel
  · obtain ⟨j, hj⟩ := List.mem_iff_getElem?.mp hx
    by_cases hij : index = j
    · subst hij
      rw [hb] at hj
      cases hj
      rcases hholds hholdsx with hb' | hdecided
      · exact .inl (.inl ⟨b', List.mem_set hlt _, hb'⟩)
      · exact .inr hdecided
    · refine .inl (.inl ⟨x, List.mem_iff_getElem?.mpr ⟨j, ?_⟩, hholdsx⟩)
      show (s.batches.set index b')[j]? = some x
      rw [List.getElem?_set_ne hij]
      exact hj
  · exact .inl (.inr hchannel)

/-- A connector of a batch is to finish. -/
theorem Sound.take (h : Sound b 0) (htaking : b.taking ≠ 0) :
    Sound { b with taking := b.taking - 1 } 1 := by
  refine ⟨?_, h.complete, h.lost, h.won, h.ended, h.unreachable⟩
  have := h.runners
  dsimp only
  omega

theorem Sound.connect (h : Sound b 0) (hdraw : draw ∈ b.connecting) :
    Sound { b with connecting := b.connecting.erase draw } 1 := by
  refine ⟨?_, h.complete, h.lost, h.won, h.ended, h.unreachable⟩
  have := h.runners
  have := List.length_erase_of_mem hdraw
  have := List.length_pos_of_mem hdraw
  dsimp only
  omega

/-- A session before any of its connects. -/
def create (connectBatchSize hostPoolCapacity connections addressCount : ℕ) : Draws :=
  { connectBatchSize := connectBatchSize, hostPoolCapacity := hostPoolCapacity
    connections := connections, addressCount := addressCount }

end Draws

end BitcoinNetwork.Sessions
