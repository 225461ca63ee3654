import BitcoinNetwork.P2ps.Stream

/-!
# The bytes behind the terminator (p2ps/stream.cpp)

What the packets that a stream reads are made of: the bytes behind the garbage
terminator, in order, be they in the residue of the scan or still to come.
-/

namespace BitcoinNetwork.P2ps
open Binary Async

variable {primitives : Primitives} {α : Type}

/-- The associated data of the packets that are opened: the garbage for the
first of them, and nothing for each other. -/
def Opened (garbage : Bytes) (opened : List Bytes) : Prop :=
  ∀ i (h : i < opened.length), opened[i] = if i = 0 then garbage else []

theorem Opened.nil (garbage : Bytes) : Opened garbage [] :=
  fun _ h => absurd h (Nat.not_lt_zero _)

/-- A packet is opened with the garbage if it is the first, and else with nothing. -/
theorem Opened.step {garbage : Bytes} {opened : List Bytes} (h : Opened garbage opened)
    {aad : Bytes} (haad : aad = if opened = [] then garbage else []) :
    Opened garbage (opened ++ [aad]) := by
  intro i hi
  rw [List.length_append, List.length_singleton] at hi
  by_cases hlast : i < opened.length
  · rw [List.getElem_append_left hlast]
    exact h i hlast
  · have heq : i = opened.length := by omega
    subst heq
    rw [List.getElem_concat_length rfl, haad]
    cases opened with
    | nil => rfl
    | cons first rest => rfl

/-- A stream that found the garbage, and has read the front of what follows. -/
structure Kept (garbage following : Bytes) (s : Stream primitives) (t : Transport) : Prop where
  scanned : s.log.scanned = some garbage
  opened : Opened garbage s.log.opened
  whole : s.log.handed ++ (s.residue ++ t.input) = following

/-- A stream of which a handler is told how it fared: nothing of what follows is
lost, but to a read that the transport failed. -/
structure Left (garbage following : Bytes) (s : Stream primitives) (t : Transport) (code : Code) :
    Prop where
  scanned : s.log.scanned = some garbage
  opened : Opened garbage s.log.opened
  handed : s.log.handed <+: following
  whole : (∀ fault, code ≠ .transport fault) → s.log.handed ++ (s.residue ++ t.input) = following
  success : code = .success → s.log.opened ≠ []

theorem Kept.left {garbage following : Bytes} {s : Stream primitives} {t : Transport}
    (h : Kept garbage following s t) {code : Code} (hcode : code = .success → s.log.opened ≠ []) :
    Left garbage following s t code where
  scanned := h.scanned
  opened := h.opened
  handed := ⟨_, h.whole⟩
  whole _ := h.whole
  success := hcode

/-! ### Reading exactly -/

/-- What a stream has yet to read: its residue, and what the transport has. -/
def pending (s : Stream primitives) (t : Transport) : Bytes := s.residue ++ t.input

/-- As many bytes are handed on as were asked for, of the residue and then of the
transport, or the transport fails. -/
theorem readExactly_cases (size : ℕ) (handler : Stream primitives → Except Code Bytes → Program α)
    (s : Stream primitives) (t : Transport) :
    (∃ bytes residue input, (s.readExactly size handler).run t =
        (handler { s with
          residue := residue
          log := { s.log with handed := s.log.handed ++ bytes } } (.ok bytes)).run
            { t with input := input } ∧
      pending s t = bytes ++ (residue ++ input) ∧ bytes.length = size) ∨
    ((pending s t).length < size ∧ (s.readExactly size handler).run t =
      (handler { s with residue := [] } (.error (.transport t.fault))).run { t with input := [] }) := by
  have hcut : s.residue.take size ++ s.residue.drop size = s.residue := List.take_append_drop _ _
  unfold Stream.readExactly pending
  by_cases hfront : (s.residue.take size).length = size
  · rw [if_pos hfront]
    refine .inl ⟨s.residue.take size, s.residue.drop size, t.input, rfl, ?_, hfront⟩
    rw [← List.append_assoc, hcut]
  · have hshort : s.residue.length < size := by
      rw [List.length_take] at hfront
      omega
    have htake : s.residue.take size = s.residue := List.take_of_length_le (by omega)
    have hdrop : s.residue.drop size = [] := List.drop_eq_nil_of_le (by omega)
    rw [if_neg hfront, htake, hdrop]
    rcases t.read_cases (size - s.residue.length) with
      ⟨hinput, hread⟩ | ⟨front, rest, hinput, hsize, hread⟩
    · refine .inr ⟨?_, ?_⟩
      · rw [List.length_append]
        omega
      · rw [Program.run_read, hread]
    · refine .inl ⟨s.residue ++ front, [], rest, ?_, ?_, ?_⟩
      · rw [Program.run_read, hread]
      · rw [hinput, List.nil_append, List.append_assoc]
      · rw [List.length_append, hsize]
        omega

section
variable {garbage following : Bytes} {s : Stream primitives} {t : Transport}

theorem readExactly_run (size : ℕ) (handler : Stream primitives → Except Code Bytes → Program α)
    (h : Kept garbage following s t) :
    (∃ bytes s' t', (s.readExactly size handler).run t = (handler s' (.ok bytes)).run t' ∧
      Kept garbage following s' t' ∧ bytes.length = size ∧
      s'.log.handed = s.log.handed ++ bytes ∧ s'.log.opened = s.log.opened ∧
      s'.garbage = s.garbage) ∨
    ∃ fault s' t',
      (s.readExactly size handler).run t = (handler s' (.error (.transport fault))).run t' ∧
      Left garbage following s' t' (.transport fault) := by
  rcases readExactly_cases size handler s t with
    ⟨bytes, residue, input, hrun, hpending, hsize⟩ | ⟨-, hrun⟩
  · refine .inl ⟨bytes, _, _, hrun, ⟨h.scanned, h.opened, ?_⟩, hsize, rfl, rfl, rfl⟩
    rw [← h.whole]
    show s.log.handed ++ bytes ++ (residue ++ input) = s.log.handed ++ pending s t
    rw [hpending, List.append_assoc]
  · exact .inr ⟨t.fault, _, _, hrun, h.scanned, h.opened, ⟨_, h.whole⟩,
      fun hcode => absurd rfl (hcode _), nofun⟩

/-! ### Reading a packet -/

/-- What the reader of a packet has come to. -/
inductive PacketRead (garbage following : Bytes) (s : Stream primitives) (s' : Stream primitives)
    (t' : Transport) : Except Code (Bool × Bytes) → Prop
  | read (plain : Bool × Bytes) (kept : Kept garbage following s' t')
      (opened : s'.log.opened ≠ []) (progress : s.log.handed.length < s'.log.handed.length)
      (same : s'.garbage = s.garbage) : PacketRead garbage following s s' t' (.ok plain)
  | failed (code : Code) (left : Left garbage following s' t' code) (failed : code ≠ .success) :
      PacketRead garbage following s s' t' (.error code)

theorem readPacket_run (bound : ℕ) (aad : Bytes)
    (handler : Stream primitives → Except Code (Bool × Bytes) → Program α)
    (h : Kept garbage following s t) (haad : aad = if s.log.opened = [] then garbage else []) :
    ∃ s' t' result, (s.readPacket bound aad handler).run t = (handler s' result).run t' ∧
      PacketRead garbage following s s' t' result := by
  unfold Stream.readPacket
  rcases readExactly_run lengthSize _ h with
    ⟨bytes, s₁, t₁, hrun, h₁, hsize, hhanded, hopened, hgarbage⟩ | ⟨fault, s₁, t₁, hrun, hleft⟩
  · rw [hrun]
    dsimp only
    set s₂ : Stream primitives := { s₁ with cipher := (s₁.cipher.decryptLength bytes).1 }
    have h₂ : Kept garbage following s₂ t₁ := ⟨h₁.scanned, h₁.opened, h₁.whole⟩
    by_cases hbound : bound < (s₁.cipher.decryptLength bytes).2
    · rw [if_pos hbound]
      exact ⟨s₂, t₁, _, rfl, .failed _ (h₂.left nofun) nofun⟩
    · rw [if_neg hbound]
      rcases readExactly_run _ _ h₂ with
        ⟨packet, s₃, t₃, hrun, h₃, -, hhanded', hopened', hgarbage'⟩ | ⟨fault, s₃, t₃, hrun, hleft⟩
      · rw [hrun]
        dsimp only
        have hsame : s₃.log.opened = s.log.opened := hopened'.trans hopened
        have h₄ : Kept garbage following (s₃.openPacket aad packet).1 t₃ := by
          refine ⟨h₃.scanned, h₃.opened.step ?_, h₃.whole⟩
          rw [hsame]
          exact haad
        cases (s₃.openPacket aad packet).2 with
        | none => exact ⟨_, t₃, _, rfl, .failed _ (h₄.left nofun) nofun⟩
        | some plain =>
          refine ⟨_, t₃, _, rfl, .read plain h₄ ?_ ?_ ?_⟩
          · exact List.append_ne_nil_of_right_ne_nil _ (List.cons_ne_nil _ _)
          · show s.log.handed.length < s₃.log.handed.length
            rw [hhanded', List.length_append]
            show _ < s₁.log.handed.length + _
            rw [hhanded, List.length_append, hsize]
            unfold lengthSize
            omega
          · exact hgarbage'.trans hgarbage
      · rw [hrun]
        exact ⟨s₃, t₃, _, rfl, .failed _ hleft nofun⟩
  · rw [hrun]
    exact ⟨s₁, t₁, _, rfl, .failed _ hleft nofun⟩

/-! ### Reading until a packet is no decoy -/

theorem Kept.handed_le (h : Kept garbage following s t) :
    s.log.handed.length ≤ following.length := by
  rw [← h.whole, List.length_append]
  omega

/-- The first packet that is read is the first that is opened. -/
theorem readVersioning_run (turns : ℕ) (isFirst : Bool)
    (handler : Stream primitives → Code → Program α) (h : Kept garbage following s t)
    (hfirst : (isFirst = true ∧ s.log.opened = [] ∧ s.garbage = garbage) ∨
      (isFirst = false ∧ s.log.opened ≠ []))
    (hturns : following.length < s.log.handed.length + turns) :
    ∃ s' t' code, (Stream.readVersioning turns s isFirst handler).run t = (handler s' code).run t' ∧
      Left garbage following s' t' code := by
  induction turns generalizing s t isFirst with
  | zero =>
    have hle := h.handed_le
    omega
  | succ turns ih =>
    have haad : (if isFirst then s.garbage else []) = if s.log.opened = [] then garbage else [] := by
      rcases hfirst with ⟨rfl, hnil, hgarbage⟩ | ⟨rfl, hnil⟩
      · rw [if_pos rfl, if_pos hnil, hgarbage]
      · rw [if_neg Bool.false_ne_true, if_neg hnil]
    obtain ⟨s₁, t₁, result, hrun, hread⟩ := readPacket_run maximumContent _ _ h haad
    rw [Stream.readVersioning, hrun]
    cases hread with
    | read plain kept opened progress same =>
      obtain ⟨ignore, contents⟩ := plain
      cases ignore with
      | true => exact ih false kept (.inr ⟨rfl, opened⟩) (by omega)
      | false =>
        have hkept : Kept garbage following ({ s₁ with garbage := [] } : Stream primitives) t₁ :=
          ⟨kept.scanned, kept.opened, kept.whole⟩
        exact ⟨_, t₁, _, rfl, hkept.left fun _ => opened⟩
    | failed code left failed => exact ⟨s₁, t₁, code, rfl, left⟩

/-- Each packet that a message is read of is opened behind the first. -/
theorem asyncReadMessage_run (turns maximum : ℕ)
    (handler : Stream primitives → Except Code Message → Program α)
    (h : Kept garbage following s t) (hopened : s.log.opened ≠ [])
    (hturns : following.length < s.log.handed.length + turns) :
    ∃ s' t' result,
      (Stream.asyncReadMessage turns s maximum handler).run t = (handler s' result).run t' ∧
      ((∃ message, result = .ok message ∧ Kept garbage following s' t' ∧ s'.log.opened ≠ [] ∧
          s.log.handed.length ≤ s'.log.handed.length) ∨
        ∃ code, result = .error code ∧ code ≠ .success ∧ Left garbage following s' t' code) := by
  induction turns generalizing s t with
  | zero =>
    have hle := h.handed_le
    omega
  | succ turns ih =>
    obtain ⟨s₁, t₁, result, hrun, hread⟩ := readPacket_run
      (min maximumContent (maximum + (commandSize + 1))) [] _ h (if_neg hopened).symm
    rw [Stream.asyncReadMessage, hrun]
    cases hread with
    | read plain kept opened progress same =>
      obtain ⟨ignore, contents⟩ := plain
      cases ignore with
      | true =>
        obtain ⟨s', t', result, hrun', hresult⟩ := ih kept opened (by omega)
        refine ⟨s', t', result, hrun', hresult.imp_left ?_⟩
        rintro ⟨message, rfl, hkept, hne, hle⟩
        exact ⟨message, rfl, hkept, hne, by omega⟩
      | false =>
        dsimp only
        cases Stream.split contents with
        | none => exact ⟨s₁, t₁, _, rfl, .inr ⟨_, rfl, nofun, kept.left nofun⟩⟩
        | some message =>
          exact ⟨s₁, t₁, _, rfl, .inl ⟨message, rfl, kept, opened, by omega⟩⟩
    | failed code left failed => exact ⟨s₁, t₁, _, rfl, .inr ⟨code, rfl, failed, left⟩⟩

/-- Messages are read one behind the other, each up to its own maximum, until one is not. -/
def readMessages (turns : ℕ) : List ℕ → Stream primitives →
    (Stream primitives → Code → Program α) → Program α
  | [], s, handler => handler s .success
  | maximum :: maxima, s, handler =>
    Stream.asyncReadMessage turns s maximum fun s => fun
      | .error code => handler s code
      | .ok _ => readMessages turns maxima s handler

theorem readMessages_run (turns : ℕ) (maxima : List ℕ)
    (handler : Stream primitives → Code → Program α) (h : Kept garbage following s t)
    (hopened : s.log.opened ≠ []) (hturns : following.length < turns) :
    ∃ s' t' code, (readMessages turns maxima s handler).run t = (handler s' code).run t' ∧
      Left garbage following s' t' code := by
  induction maxima generalizing s t with
  | nil => exact ⟨s, t, _, rfl, h.left fun _ => hopened⟩
  | cons maximum maxima ih =>
    obtain ⟨s₁, t₁, result, hrun, hresult⟩ :=
      asyncReadMessage_run turns maximum _ h hopened (by omega)
    rw [readMessages, hrun]
    rcases hresult with ⟨message, rfl, hkept, hne, -⟩ | ⟨code, rfl, -, hleft⟩
    · exact ih hkept hne
    · exact ⟨s₁, t₁, code, rfl, hleft⟩

end

end BitcoinNetwork.P2ps
