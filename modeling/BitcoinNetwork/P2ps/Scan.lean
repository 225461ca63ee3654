import BitcoinNetwork.P2ps.Reading

/-!
# The scan for the garbage terminator (p2ps/stream.cpp)

However the transport cuts what the peer sends, the scan finds the first
terminator that ends within its allowance, and takes nothing of what is behind.
-/

namespace BitcoinNetwork.P2ps
open Binary Async

variable {primitives : Primitives} {α : Type}

/-! ### The scan -/

section
variable {s : Stream primitives} {t : Transport}

theorem terminator_length (c : Cipher primitives) :
    c.receiveTerminator.toList.length = terminatorSize := Vector.length_toList

theorem terminator_ne_nil (c : Cipher primitives) : c.receiveTerminator.toList ≠ [] := by
  intro h
  have hlength := terminator_length c
  rw [h] at hlength
  cases hlength

/-- The terminator ends within the bytes that are scanned. -/
def Terminated (s : Stream primitives) (stream : Bytes) (place : ℕ) : Prop :=
  place ≤ maximumGarbage ∧ FirstAt s.cipher.receiveTerminator.toList stream place

/-- What comes of a scan: the reader of the version packet, at the terminator, or
an error, with no more read than is scanned. -/
def ScanResult (turns : ℕ) (s : Stream primitives) (stream : Bytes) (t : Transport)
    (handler : Stream primitives → Code → Program α) (result : List α × Transport) : Prop :=
  (∃ place residue t', Terminated s stream place ∧
    residue ++ t'.input = stream.drop (place + terminatorSize) ∧
    result = (Stream.readVersioning turns
      { s with
        garbage := stream.take place
        residue := residue
        log := { s.log with scanned := some (stream.take place) } } true handler).run t') ∨
  (∀ place, ¬Terminated s stream place) ∧ ∃ garbage t' code, code ≠ Code.success ∧
    t'.input = stream.drop scanSize ∧
    result = (handler { s with garbage := garbage } code).run t'

/-- A terminator that is found among the bytes that were read is the first of the stream. -/
theorem search_found {s : Stream primitives} {front rest : Bytes} {place : ℕ}
    (hfront : front.length ≤ scanSize)
    (h : search s.cipher.receiveTerminator.toList front = some place) :
    Terminated s (front ++ rest) place ∧ place + terminatorSize ≤ front.length := by
  obtain ⟨-, hfirst⟩ := search_eq_some.mp h
  have hend := hfirst.1.end_le (terminator_ne_nil s.cipher)
  rw [terminator_length] at hend
  refine ⟨⟨?_, (firstAt_append ?_).mpr hfirst⟩, hend⟩
  · unfold scanSize at hfront
    omega
  · rw [terminator_length]
    exact hend

/-- Where nothing is found among all the bytes that are scanned there is no terminator. -/
theorem search_missed {s : Stream primitives} {front rest : Bytes}
    (hfront : scanSize ≤ front.length ∨ rest = [])
    (h : search s.cipher.receiveTerminator.toList front = none) (place : ℕ) :
    ¬Terminated s (front ++ rest) place := by
  rintro ⟨hplace, hfirst⟩
  have hnone := (search_eq_none (terminator_ne_nil s.cipher)).mp h place
  have hend := hfirst.1.end_le (terminator_ne_nil s.cipher)
  have hwithin : place + s.cipher.receiveTerminator.toList.length ≤ front.length := by
    rcases hfront with hfront | rfl
    · rw [terminator_length]
      unfold scanSize at hfront
      omega
    · rw [List.append_nil] at hend
      exact hend
  exact hnone ((occursAt_append hwithin).mp hfirst.1)

/-- Each turn reads at least one byte, so that as many turns as bytes are scanned
do. -/
theorem scanTerminator_run (turns scans : ℕ) (handler : Stream primitives → Code → Program α)
    (hfront : s.garbage.length ≤ scanSize) (hscans : scanSize < s.garbage.length + scans) :
    ScanResult turns s (s.garbage ++ t.input) t handler
      ((Stream.scanTerminator turns scans s handler).run t) := by
  induction scans generalizing s t with
  | zero => omega
  | succ scans ih =>
    rw [Stream.scanTerminator]
    cases hsearch : search s.cipher.receiveTerminator.toList s.garbage with
    | some place =>
      obtain ⟨hfound, hend⟩ := search_found hfront hsearch
      refine .inl ⟨place, s.garbage.drop (place + terminatorSize), t, hfound, ?_, ?_⟩
      · rw [List.drop_append_of_le_length hend]
      · have htake : (s.garbage ++ t.input).take place = s.garbage.take place :=
          List.take_append_of_le_length (by omega)
        rw [htake, terminator_length]
    | none =>
      dsimp only
      by_cases hfull : scanSize ≤ s.garbage.length
      · rw [if_pos hfull]
        have hsize : scanSize = s.garbage.length := by omega
        refine .inr ⟨search_missed (.inl hfull) hsearch, s.garbage, t, .protocolError,
          nofun, ?_, rfl⟩
        rw [hsize, List.drop_left]
      · rw [if_neg hfull, Program.run_readSome]
        by_cases hempty : t.input = []
        · have hread : t.readSome (scanSize - s.garbage.length) = (.error t.fault, t) :=
            if_pos hempty
          rw [hread]
          refine .inr ⟨search_missed (.inr hempty) hsearch, s.garbage, t,
            .transport t.fault, nofun, ?_, rfl⟩
          rw [hempty, List.append_nil, List.drop_eq_nil_of_le hfront]
        · set piece := t.piece (scanSize - s.garbage.length)
          have hread : t.readSome (scanSize - s.garbage.length) =
              (.ok (t.input.take piece),
                { t with input := t.input.drop piece, cuts := t.cuts.tail }) := if_neg hempty
          have hpiece : 1 ≤ piece ∧ piece ≤ scanSize - s.garbage.length := by
            show 1 ≤ min _ _ ∧ min _ _ ≤ _
            omega
          have hpos := List.length_pos_iff.mpr hempty
          have hsize : (s.garbage ++ t.input.take piece).length =
              s.garbage.length + min piece t.input.length := by
            rw [List.length_append, List.length_take]
          have hstream : s.garbage ++ t.input.take piece ++ t.input.drop piece =
              s.garbage ++ t.input := by
            rw [List.append_assoc, List.take_append_drop]
          rw [hread]
          have hnext := ih (s := { s with garbage := s.garbage ++ t.input.take piece })
            (t := { t with input := t.input.drop piece, cuts := t.cuts.tail })
            (by show _ ≤ _; rw [hsize]; omega) (by show _ < List.length _ + _; rw [hsize]; omega)
          rw [hstream] at hnext
          exact hnext

end

/-! ### The handshake -/

/-- What follows a handshake, by how it ended. -/
def behind (turns : ℕ) (maxima : List ℕ)
    (handler : Option (Stream primitives) → Code → Program α) (s : Stream primitives)
    (code : Code) : Program α :=
  if code = .success then readMessages turns maxima s fun s => handler (some s)
  else handler (some s) code

/-- A terminator that is found is where the stream is read from. -/
theorem behind_run {garbage following : Bytes} {turns : ℕ} {s : Stream primitives}
    {t : Transport} {code : Code} (h : Left garbage following s t code) (hturns : following.length < turns)
    (maxima : List ℕ) (handler : Option (Stream primitives) → Code → Program α) :
    ∃ s' code' t', (behind turns maxima handler s code).run t =
      (handler (some s') code').run t' ∧ Left garbage following s' t' code' := by
  unfold behind
  by_cases hcode : code = .success
  · subst hcode
    rw [if_pos rfl]
    have hkept : Kept garbage following s t := ⟨h.scanned, h.opened, h.whole nofun⟩
    obtain ⟨s', t', code', hrun, hleft⟩ :=
      readMessages_run turns maxima (fun s => handler (some s)) hkept (h.success rfl) hturns
    exact ⟨s', code', t', hrun, hleft⟩
  · rw [if_neg hcode]
    exact ⟨s, code, t, rfl, h⟩

section
variable (primitives : Primitives) (turns : ℕ) (keys : Keypair) (identifier : UInt32)

/-- A handshake, and behind it messages until one is not read. -/
def session (detected : Option Bytes) (maxima : List ℕ)
    (handler : Option (Stream primitives) → Code → Program α) : Program α :=
  Stream.asyncHandshake primitives turns keys identifier detected fun
    | none, code => handler none code
    | some s, code => behind turns maxima handler s code

variable {keys identifier}

/-- A stream that is keyed comes to the scan, once its terminator and its version
packet are written. -/
theorem sendTerminatorVersion_run (cipher : Cipher primitives) (initiate : Bool)
    (handler : Option (Stream primitives) → Code → Program α) {t : Transport}
    (hwrites : t.Accepts) :
    ∃ c t', c.receiveTerminator = cipher.receiveTerminator ∧ t'.input = t.input ∧
      (Stream.sendTerminatorVersion primitives turns keys { cipher := cipher } initiate
        handler).run t =
      (Stream.scanTerminator turns (scanSize + 1) ({ cipher := c } : Stream primitives)
        fun s => handler (some s)).run t' := by
  unfold Stream.sendTerminatorVersion
  rw [Program.run_write_accepted _ _ hwrites]
  exact ⟨(cipher.encrypt [] [] false).1, _, rfl, Transport.write_input _ _, rfl⟩

/-- A handshake of which the writes succeed comes to the scan, with what the peer
sends behind its key. -/
theorem asyncHandshake_run {detected : Option Bytes} {peer stream : Bytes}
    {cipher : Cipher primitives} {t : Transport} (hinput : t.input = peer ++ stream)
    (hpeer : (detected.getD []).length + peer.length = keySize)
    (hkeyed : Cipher.initializeKeys primitives keys (detected.getD [] ++ peer) identifier
      detected.isNone = some cipher)
    (hwrites : t.Accepts) (handler : Option (Stream primitives) → Code → Program α) :
    ∃ c t', c.receiveTerminator = cipher.receiveTerminator ∧ t'.input = stream ∧
      (Stream.asyncHandshake primitives turns keys identifier detected handler).run t =
        (Stream.scanTerminator turns (scanSize + 1) ({ cipher := c } : Stream primitives)
          fun s => handler (some s)).run t' := by
  have hkey (initiate : Bool) (theirs : Bytes) (t : Transport) (hinput : t.input = stream)
      (hwrites : t.Accepts)
      (hkeyed : Cipher.initializeKeys primitives keys theirs identifier initiate = some cipher) :
      ∃ c t', c.receiveTerminator = cipher.receiveTerminator ∧ t'.input = stream ∧
        (Stream.handleTheirKey primitives turns keys identifier initiate theirs handler).run t =
          (Stream.scanTerminator turns (scanSize + 1) ({ cipher := c } : Stream primitives)
            fun s => handler (some s)).run t' := by
    unfold Stream.handleTheirKey
    rw [hkeyed, ← hinput]
    exact sendTerminatorVersion_run primitives turns cipher initiate handler hwrites
  cases detected with
  | none =>
    have hsize : peer.length = keySize := by
      rw [Option.getD_none, List.length_nil, Nat.zero_add] at hpeer
      exact hpeer
    unfold Stream.asyncHandshake Stream.doInitiate
    dsimp only
    rw [Program.run_write_accepted _ _ hwrites]
    have hsent : (t.write keys.publicKey.toList).2.input = peer ++ stream := hinput
    dsimp only
    rw [Program.run_read_append peer stream _ _ hsent hsize]
    exact hkey true peer _ rfl (hwrites.write keys.publicKey.toList).2 hkeyed
  | some detected =>
    have hsize : peer.length = keySize - detected.length := by
      rw [Option.getD_some] at hpeer
      omega
    unfold Stream.asyncHandshake Stream.doRespond
    dsimp only
    rw [Program.run_read_append peer stream _ _ hinput hsize]
    exact hkey false (detected ++ peer) _ rfl hwrites hkeyed

/-- Whatever the garbage and the cuts, a handshake goes past the scan if and only
if the terminator ends within the bytes that are scanned. The garbage is then
what is before its first occurrence, and is the associated data of the first
packet only; what is behind it is what the packets are read of, in order, here
and in each message behind the handshake. Else the handshake fails, and nothing
behind the bytes that are scanned is read. -/
theorem session_scans {detected : Option Bytes} {peer stream : Bytes}
    {cipher : Cipher primitives} {t : Transport} (hinput : t.input = peer ++ stream)
    (hpeer : (detected.getD []).length + peer.length = keySize)
    (hkeyed : Cipher.initializeKeys primitives keys (detected.getD [] ++ peer) identifier
      detected.isNone = some cipher)
    (hwrites : t.Accepts) (hturns : stream.length < turns) (maxima : List ℕ)
    (handler : Option (Stream primitives) → Code → Program α) :
    ∃ s code t', (session primitives turns keys identifier detected maxima handler).run t =
        (handler (some s) code).run t' ∧
      (s.log.scanned.isSome ↔ ∃ place, OccursAt cipher.receiveTerminator.toList stream place ∧
        place + terminatorSize ≤ maximumGarbage + terminatorSize) ∧
      (∀ place ≤ maximumGarbage, FirstAt cipher.receiveTerminator.toList stream place →
        Left (stream.take place) (stream.drop (place + terminatorSize)) s t' code) ∧
      (s.log.scanned = none → code ≠ .success ∧
        t'.input = stream.drop (maximumGarbage + terminatorSize)) := by
  obtain ⟨c, t₁, hterminator, hstream, hrun⟩ := asyncHandshake_run primitives turns hinput hpeer
    hkeyed hwrites fun
      | none, code => handler none code
      | some s, code => behind turns maxima handler s code
  have hscan := scanTerminator_run turns (scanSize + 1) (behind turns maxima handler)
    (s := ({ cipher := c } : Stream primitives)) (t := t₁) (Nat.zero_le _)
    (Nat.lt_add_of_pos_left Nat.zero_lt_one)
  unfold session
  rw [hrun, ← hterminator]
  rw [show ([] : Bytes) ++ t₁.input = stream from hstream] at hscan
  rcases hscan with ⟨place, residue, t₂, ⟨hplace, hfirst⟩, hrest, hresult⟩ |
    ⟨hnone, garbage, t₂, code, hcode, hrest, hresult⟩
  · have hkept : Kept (stream.take place) (stream.drop (place + terminatorSize))
        ({ cipher := c, garbage := stream.take place, residue := residue,
           log := { scanned := some (stream.take place) } } : Stream primitives) t₂ :=
      ⟨rfl, .nil _, hrest⟩
    have hlength : (stream.drop (place + terminatorSize)).length < turns := by
      rw [List.length_drop]
      omega
    obtain ⟨s₃, t₃, code₃, hrun₃, hleft₃⟩ := readVersioning_run turns true
      (behind turns maxima handler) hkept (.inl ⟨rfl, rfl, rfl⟩)
      (by show _ < 0 + turns; omega)
    obtain ⟨s', code', t', hrun', hleft⟩ := behind_run hleft₃ hlength maxima handler
    refine ⟨s', code', t', hresult.trans (hrun₃.trans hrun'), ?_, ?_, ?_⟩
    · rw [hleft.scanned]
      exact ⟨fun _ => ⟨place, hfirst.1, Nat.add_le_add_right hplace _⟩, fun _ => rfl⟩
    · intro other _ hother
      rw [← hfirst.unique hother]
      exact hleft
    · intro hscanned
      rw [hleft.scanned] at hscanned
      cases hscanned
  · refine ⟨_, code, t₂, hresult.trans (congrArg (Program.run · t₂) (if_neg hcode)), ?_, ?_, ?_⟩
    · constructor
      · intro h
        cases h
      · rintro ⟨place, hfound, hend⟩
        obtain ⟨first, hle, hfirst⟩ := hfound.exists_first
        exact absurd ⟨by omega, hfirst⟩ (hnone first)
    · intro place hplace hfirst
      exact absurd ⟨hplace, hfirst⟩ (hnone place)
    · exact fun _ => ⟨hcode, hrest⟩

end

/-- Primitives that conceal nothing. -/
def plainPrimitives : Primitives where
  LengthCipher := Unit
  PacketCipher := Unit
  lengthCipher _ _ := ()
  packetCipher _ _ := ()
  crypt cipher bytes := (cipher, ⟨bytes.toArray, rfl⟩)
  encrypt cipher header contents _ := (cipher, ⟨(header ++ contents ++ List.replicate tagSize 0).toArray,
    by simp [Nat.add_assoc]⟩)
  decrypt cipher _ bytes := (cipher, some ⟨(bytes.take (bytes.length - tagSize)).toArray, by simp⟩)
  exchange _ _ _ _ := some []
  extract _ _ := []
  expand _ _ := Vector.replicate 32 0

def plainKeys : Keypair := ⟨[], Vector.replicate keySize 0⟩

/-- Two bytes of garbage, the terminator and a version packet. -/
def plainStream : Bytes := [1, 2] ++ List.replicate terminatorSize 0 ++ List.replicate 20 0

def plainTransport : Transport := ⟨List.replicate keySize 0 ++ plainStream, 1, [1, 3], [], []⟩

def plainCipher : Cipher plainPrimitives :=
  ⟨Vector.replicate 16 0, Vector.replicate 16 0, List.replicate 32 0, (), (), (), ()⟩

theorem session_scans_plain :
    ∃ (s : Stream plainPrimitives) (code : Code) (t' : Transport),
      (session plainPrimitives 40 plainKeys 0 none [] fun _ code =>
        .handle code .stop).run plainTransport =
        (Program.handle code .stop).run t' ∧
      (s.log.scanned.isSome ↔ ∃ place,
        OccursAt plainCipher.receiveTerminator.toList plainStream place ∧
        place + terminatorSize ≤ maximumGarbage + terminatorSize) ∧
      (∀ place ≤ maximumGarbage, FirstAt plainCipher.receiveTerminator.toList plainStream place →
        Left (plainStream.take place) (plainStream.drop (place + terminatorSize)) s t' code) ∧
      (s.log.scanned = none → code ≠ .success ∧
        t'.input = plainStream.drop (maximumGarbage + terminatorSize)) :=
  session_scans plainPrimitives 40 rfl (by decide) rfl (by simp [Transport.Accepts, plainTransport])
    (by decide) [] _

end BitcoinNetwork.P2ps
