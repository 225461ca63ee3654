import BitcoinNetwork.Tls.Server

/-!
# The runs of a server (tls/server.cpp)

A property that the handlers of messages and the calls of the owner keep holds
of the connection after every run: the loops over records and over messages do
nothing else to it.
-/

namespace BitcoinNetwork.Tls
open Binary

variable {Certificate : Type} {config : Config Certificate}

/-! ### Messages -/

theorem makeMessage_length (type : UInt8) (body : Bytes) :
    (makeMessage type body).length = 4 + body.length := by
  rw [makeMessage, List.length_cons, writeVector24_length]
  omega

/-- The header of a message is its type and its size. -/
theorem readHeader (type a b c : UInt8) (rest : Bytes) :
    let header : Reader := { data := (type :: a :: b :: c :: rest).take 4 }
    header.read8.1 = type ∧ header.read8.2.read24.1 = ofBytes [a, b, c] := ⟨rfl, rfl⟩

/-- The message that is taken off has the type and the size of its header. -/
theorem take_eq_makeMessage {input : Bytes} (h : 4 ≤ input.length)
    (hs : 4 + (Reader.read8 { data := input.take 4 }).2.read24.1 ≤ input.length) :
    input.take (4 + (Reader.read8 { data := input.take 4 }).2.read24.1) =
      makeMessage (Reader.read8 { data := input.take 4 }).1
        ((input.take (4 + (Reader.read8 { data := input.take 4 }).2.read24.1)).drop 4) := by
  obtain ⟨type, a, b, c, rest, rfl⟩ : ∃ type a b c rest, input = type :: a :: b :: c :: rest := by
    match input, h with
    | type :: a :: b :: c :: rest, _ => exact ⟨type, a, b, c, rest, rfl⟩
  obtain ⟨htype, hsize⟩ := readHeader type a b c rest
  rw [hsize] at hs
  rw [htype, hsize]
  have htake : (type :: a :: b :: c :: rest).take (4 + ofBytes [a, b, c])
      = type :: a :: b :: c :: rest.take (ofBytes [a, b, c]) := by
    rw [Nat.add_comm]
    rfl
  have hlength : (rest.take (ofBytes [a, b, c])).length = ofBytes [a, b, c] := by
    rw [List.length_take]
    simp only [List.length_cons] at hs
    omega
  have hbytes : toBytes 3 (ofBytes [a, b, c]) = [a, b, c] := toBytes_ofBytes [a, b, c]
  rw [htake]
  show _ = type :: (toBytes 3 (rest.take (ofBytes [a, b, c])).length
    ++ rest.take (ofBytes [a, b, c]))
  rw [hlength, hbytes]
  rfl

/-! ### Steps -/

/-- A property that no step of a server breaks, where it writes data of a kind. -/
structure Steps (config : Config Certificate) (P : Connection Certificate → Prop)
    (sized : Bytes → Prop) : Prop where
  initial : P {}
  fail {s : Connection Certificate} (h : P s) (alert : UInt8) : P (s.fail config alert)
  received {s : Connection Certificate} (h : P s) (handshake : Bytes) (receive : Record) :
    P { s with handshake := handshake, receive := receive }
  message {s : Connection Certificate} (h : P s) (type : UInt8) (body : Bytes) :
    P (s.handleMessage config type (makeMessage type body) body)
  closed {s : Connection Certificate} (h : P s) : P { s with closed := true }
  alerted {s : Connection Certificate} (h : P s) (description : UInt8) :
    P { s with state := .failed, failure := description, failureReceived := true }
  readable {s : Connection Certificate} (h : P s) (established : s.state = .established)
    (content : Bytes) : P { s with application := s.application ++ content }
  write {s : Connection Certificate} (h : P s) {data : Bytes} (hd : sized data) :
    P (s.write config data).1
  read {s : Connection Certificate} (h : P s) (size : ℕ) : P (s.read size).2
  close {s : Connection Certificate} (h : P s) : P (s.close config)
  consume {s : Connection Certificate} (h : P s) (size : ℕ) : P (s.consume size)

namespace Steps
variable {P : Connection Certificate → Prop} {sized : Bytes → Prop}

/-- The loop takes off messages until it fails or none is complete. -/
theorem messages (h : Steps config P sized) {s : Connection Certificate} (hs : P s) (turns : ℕ) :
    P (s.messagesLoop config turns) := by
  induction turns generalizing s with
  | zero => exact hs
  | succ turns ih =>
    unfold Connection.messagesLoop
    by_cases hheader : s.handshake.length < 4
    · rw [if_pos hheader]
      exact hs
    rw [if_neg hheader]
    dsimp only
    split
    · exact h.fail hs _
    split
    · exact hs
    · rename_i hsize
      have hmessage := take_eq_makeMessage (by omega) (Nat.le_of_not_lt hsize)
      rw [hmessage]
      have hnext := h.message (h.received hs (s.handshake.drop (4 + (Reader.read8
        { data := s.handshake.take 4 }).2.read24.1)) s.receive)
          (Reader.read8 { data := s.handshake.take 4 }).1 ((s.handshake.take (4 + (Reader.read8
            { data := s.handshake.take 4 }).2.read24.1)).drop 4)
      have hbody := congrArg (List.drop 4) hmessage
      rw [← hbody]
      split
      · exact hnext
      split
      · exact h.fail hnext _
      · exact ih hnext

theorem handshake (h : Steps config P sized) {s : Connection Certificate} (hs : P s)
    (content : Bytes) : P (s.handleHandshake config content) := by
  unfold Connection.handleHandshake
  split
  · exact h.fail hs _
  · exact h.messages (h.received hs (s.handshake ++ content) s.receive) _

theorem alert (h : Steps config P sized) {s : Connection Certificate} (hs : P s)
    (content : Bytes) : P (s.handleAlert config content) := by
  unfold Connection.handleAlert
  split
  · split
    · exact h.closed hs
    split
    · exact hs
    · exact h.alerted hs _
  · exact h.fail hs _

theorem content (h : Steps config P sized) {s : Connection Certificate} (hs : P s) (type : UInt8)
    (content : Bytes) : P (s.handleContent config type content) := by
  unfold Connection.handleContent
  split
  · exact h.alert hs content
  split
  · exact h.handshake hs content
  split
  · split
    · exact h.fail hs _
    · rename_i hestablished
      exact h.readable hs (eq_of_beq (not_not.1 hestablished)) content
  · exact h.fail hs _

theorem record (h : Steps config P sized) {s : Connection Certificate} (hs : P s) (type : UInt8)
    (header fragment : Bytes) : P (s.handleRecord config type header fragment) := by
  unfold Connection.handleRecord
  split
  · dsimp only
    split
    · exact h.fail hs _
    · exact hs
  split
  · split
    · exact h.fail hs _
    split
    · exact h.fail hs _
    · exact h.content hs type fragment
  split
  · exact h.fail hs _
  have hopened := h.received hs s.handshake
    (s.receive.openFragment config.crypto header fragment).2
  dsimp only
  split
  · exact h.fail hopened _
  split
  · exact h.fail hopened _
  · exact h.content hopened _ _

/-- The loop handles records until it fails, is closed or none is complete. -/
theorem records (h : Steps config P sized) {s : Connection Certificate} (hs : P s) (turns : ℕ)
    (available : Bytes) : P (Server.recordsLoop config turns s available).1 := by
  induction turns generalizing s available with
  | zero => exact hs
  | succ turns ih =>
    unfold Server.recordsLoop
    split
    · exact hs
    dsimp only
    split
    · exact h.fail hs _
    split
    · exact hs
    have hrecord := h.record hs (Reader.read8 { data := available.take recordHeaderSize }).1
      (available.take recordHeaderSize) ((available.drop recordHeaderSize).take
        (Reader.read8 { data := available.take recordHeaderSize }).2.read16.2.read16.1.toNat)
    split
    · exact hrecord
    · exact ih hrecord _

theorem receive (h : Steps config P sized) {server : Server Certificate}
    (hs : P server.connection) (data : Bytes) : P (server.receive config data).1.connection := by
  unfold Server.receive
  dsimp only
  split
  · exact hs
  have hrecords := h.records hs ((server.input ++ data).length + 1) (server.input ++ data)
  split
  · rename_i hloop
    rwa [hloop] at hrecords
  · rename_i hloop
    rwa [hloop] at hrecords

/-- The property holds after every run. -/
theorem run (h : Steps config P sized) {calls : List Server.Call}
    (hc : ∀ data, Server.Call.write data ∈ calls → sized data) :
    P (Server.run config calls).connection := by
  have hinitial : P ({} : Server Certificate).connection := h.initial
  unfold Server.run
  generalize ({} : Server Certificate) = server at hinitial ⊢
  induction calls generalizing server with
  | nil => exact hinitial
  | cons call calls ih =>
    refine ih (fun data hd => hc data (List.mem_cons_of_mem _ hd)) _ ?_
    cases call with
    | receive data => exact h.receive hinitial data
    | write data => exact h.write hinitial (hc data List.mem_cons_self)
    | read size => exact h.read hinitial size
    | close => exact h.close hinitial
    | consume size => exact h.consume hinitial size

end Steps

end BitcoinNetwork.Tls
