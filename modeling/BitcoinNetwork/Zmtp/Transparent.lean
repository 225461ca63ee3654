import BitcoinNetwork.Zmtp.Pairing
import BitcoinNetwork.Zmtp.Reading

/-!
# What boxes change for the tier above (zmtp/stream.cpp)

The limit of a read is applied to the length of the frame that is on the wire.
Under CURVE that is the frame with its box, so that a frame near the limit is
refused, which is not refused where there are no boxes.
-/

namespace BitcoinNetwork.Zmtp
open Binary Async

/-- What the tier above is shown of a frame. -/
def shown : Except Code Frame → Except Code (Bytes × Bool × Bool)
  | .ok frame => .ok (frame.body, frame.command, frame.more)
  | .error code => .error code

/-- What is read, in as many reads, of a buffer that is written. -/
def passes (primitives : Primitives) (sender receiver : Stream) (buffer : Bytes)
    (maximum fault count : ℕ) : List (Except Code (Bytes × Bool × Bool)) :=
  let writing := (sender.asyncWrite primitives buffer fun _ code => .handle code .stop).run
    { input := [], fault := fault }
  let reading := (readFrames primitives maximum count receiver).run
    { input := (writing.2.written.map Prod.fst).flatten, fault := fault }
  reading.1.map shown

/-- Two streams that have a session, and of which one has read what the other wrote. -/
structure Joined (sender receiver : Stream) (a b : Cipher) (session : Bytes) : Prop where
  sender_secured : sender.secured = true
  receiver_secured : receiver.secured = true
  sender_cipher : sender.cipher = some a
  receiver_cipher : receiver.cipher = some b
  sender_box : a.sessionBox = some session
  receiver_box : b.sessionBox = some session
  sides : a.server = !b.server
  nonce : a.nonce = b.peerNonce + 1
  fits : b.peerNonce < 2 ^ 64

/-- The frames ahead of the first that is longer than the limit. -/
def withinLimit (maximum : ℕ) (frames : List Frame) : List Frame :=
  frames.takeWhile fun frame => frame.body.length ≤ maximum

section
variable {primitives : Primitives}

theorem passes_plain {sender receiver : Stream} (hsender : sender.secured = false)
    (hreceiver : receiver.secured = false) {frames : List Frame} {buffer : Bytes}
    (h : Buffer frames buffer) (maximum fault count : ℕ) :
    passes primitives sender receiver buffer maximum fault count =
      ((plainResults maximum fault frames).take count).map shown := by
  unfold passes
  rw [Stream.asyncWrite, if_pos (by rw [hsender]; exact Bool.false_ne_true)]
  have hreads := run_readFrames_plain primitives hreceiver maximum h count
    { input := buffer, fault := fault } rfl
  rw [← hreads]
  simp [Transport.write]

theorem passes_boxed (correct : primitives.Correct) {sender receiver : Stream} {a b : Cipher}
    {session : Bytes} (hjoined : Joined sender receiver a b session) {frames : List Frame}
    {buffer : Bytes} (h : Buffer frames buffer)
    (hsize : ∀ frame ∈ frames, frame.body.length + messageMinimum < 2 ^ 64)
    (maximum fault count : ℕ) :
    passes primitives sender receiver buffer maximum fault count =
      ((boxedResults maximum fault a.nonce frames).take count).map shown := by
  obtain ⟨bytes, hbuffer, hboxed⟩ := boxFrames_buffer primitives h hsize a
    hjoined.sender_box [] (Nat.lt_succ_self _)
  rw [hjoined.sides, hjoined.nonce] at hbuffer
  rw [List.nil_append] at hboxed
  have hreads := run_readFrames_boxed correct maximum count hjoined.receiver_secured
    hjoined.receiver_cipher hjoined.receiver_box hjoined.fits hbuffer
    { input := bytes, fault := fault } rfl
  unfold passes
  rw [Stream.asyncWrite, if_neg (by rw [hjoined.sender_secured]; exact not_not.mpr rfl),
    hjoined.sender_cipher]
  simp only [hboxed]
  rw [hjoined.nonce, ← hreads]
  simp [Transport.write]

/-- A frame and what is read of it in a box are shown alike. -/
theorem shown_boxed (frame : Frame) :
    shown (.ok ⟨flagsOf frame.command frame.more, frame.body⟩) = shown (.ok frame) := by
  obtain ⟨-, hcommand, hmore, -⟩ := flagsOf_spec frame.command frame.more
  exact congrArg Except.ok (congrArg (Prod.mk frame.body) (Prod.ext hcommand hmore))

/-- The boxes do not show just where each frame within the limit is within it in its
box, and has a number. -/
theorem results_iff (maximum fault : ℕ) {nonce : ℕ} (hnonce : nonce ≤ 2 ^ 64)
    (frames : List Frame) :
    (boxedResults maximum fault nonce frames).map shown =
        (plainResults maximum fault frames).map shown ↔
      (∀ frame ∈ withinLimit maximum frames, frame.body.length + messageMinimum ≤ maximum) ∧
        nonce + (withinLimit maximum frames).length ≤ 2 ^ 64 := by
  induction frames generalizing nonce with
  | nil => exact iff_of_true rfl ⟨List.forall_mem_nil _, hnonce⟩
  | cons frame frames ih =>
    rw [boxedResults, plainResults]
    by_cases hlong : maximum < frame.body.length
    · have hnone : withinLimit maximum (frame :: frames) = [] :=
        List.takeWhile_cons_of_neg (by simp [hlong])
      rw [if_pos hlong, if_pos (by omega), hnone]
      exact iff_of_true rfl ⟨List.forall_mem_nil _, hnonce⟩
    · have hsome : withinLimit maximum (frame :: frames) = frame :: withinLimit maximum frames :=
        List.takeWhile_cons_of_pos (by simp; omega)
      rw [if_neg hlong, hsome, List.forall_mem_cons, List.length_cons]
      by_cases hboxed : maximum < frame.body.length + messageMinimum
      · rw [if_pos hboxed]
        apply iff_of_false
        · intro h
          exact absurd (List.cons.inj h).1 fun hc => by cases hc
        · rintro ⟨⟨hle, -⟩, -⟩
          omega
      · rw [if_neg hboxed]
        by_cases hlast : 2 ^ 64 ≤ nonce
        · rw [if_pos hlast]
          apply iff_of_false
          · intro h
            exact absurd (List.cons.inj h).1 fun hc => by cases hc
          · rintro ⟨-, hle⟩
            omega
        · rw [if_neg hlast, List.map_cons, List.map_cons, shown_boxed, List.cons_inj_right,
            ih (Nat.not_le.mp hlast)]
          constructor
          · rintro ⟨hall, hle⟩
            exact ⟨⟨Nat.not_lt.mp hboxed, hall⟩, by omega⟩
          · rintro ⟨⟨-, hall⟩, hle⟩
            exact ⟨hall, by omega⟩

theorem take_all_iff {β : Type} {xs ys : List β} :
    (∀ count, xs.take count = ys.take count) ↔ xs = ys := by
  constructor
  · intro h
    have hmax := h (max xs.length ys.length)
    rwa [List.take_of_length_le (Nat.le_max_left _ _),
      List.take_of_length_le (Nat.le_max_right _ _)] at hmax
  · rintro rfl count
    rfl

/-- The tier above sees the same frames, under CURVE as under NULL, just where no
frame ahead of the first beyond the limit is beyond it in its box, and each has a
number of 64 bits. -/
theorem passes_iff (correct : primitives.Correct) {sender receiver sender' receiver' : Stream}
    {a b : Cipher} {session : Bytes} (hjoined : Joined sender receiver a b session)
    (hsender : sender'.secured = false) (hreceiver : receiver'.secured = false)
    {frames : List Frame} {buffer : Bytes} (h : Buffer frames buffer)
    (hsize : ∀ frame ∈ frames, frame.body.length + messageMinimum < 2 ^ 64)
    (maximum fault : ℕ) :
    (∀ count, passes primitives sender receiver buffer maximum fault count =
        passes primitives sender' receiver' buffer maximum fault count) ↔
      (∀ frame ∈ withinLimit maximum frames, frame.body.length + messageMinimum ≤ maximum) ∧
        a.nonce + (withinLimit maximum frames).length ≤ 2 ^ 64 := by
  have hnonce : a.nonce ≤ 2 ^ 64 := by
    have hfits := hjoined.fits
    rw [hjoined.nonce]
    omega
  have heq (count : ℕ) : passes primitives sender receiver buffer maximum fault count =
        passes primitives sender' receiver' buffer maximum fault count ↔
      ((boxedResults maximum fault a.nonce frames).map shown).take count =
        ((plainResults maximum fault frames).map shown).take count := by
    rw [passes_boxed correct hjoined h hsize, passes_plain hsender hreceiver h, List.map_take,
      List.map_take]
  rw [← results_iff maximum fault hnonce frames, ← take_all_iff]
  exact forall_congr' heq

end

/-! ### A frame at the limit -/

/-- A stream of a handshake that is complete. -/
def securedStream (cipher : Cipher) : Stream where
  context := { curve := true, keys := plainKeys 2, clients := [] }
  role := .router
  cipher := some cipher
  secured := true

/-- A stream without boxes. -/
def plainStream : Stream where
  context := { curve := false, keys := plainKeys 2, clients := [] }
  role := .router

/-- Two sides of a session are joined. -/
theorem Session.joined {client server : Cipher} {session : Bytes}
    (h : Session client server session) :
    Joined (securedStream client) (securedStream server) client server session where
  sender_secured := rfl
  receiver_secured := rfl
  sender_cipher := rfl
  receiver_cipher := rfl
  sender_box := h.client_box
  receiver_box := h.server_box
  sides := by rw [h.client_side, h.server_side]; rfl
  nonce := by rw [h.client_nonce, h.server_peer]
  fits := by rw [h.server_peer]; decide

theorem exists_session : ∃ client server session, Session client server session := by
  obtain ⟨exchanged, -, -, -, -, -, session, hsession⟩ := exchange_correct
    plainPrimitives_correct (plainKeys_valid 1) (plainKeys_valid 2) (plainKeys_valid 3)
    (show plainDraw.transient.Valid plainPrimitives from plainKeys_valid 4)
    (Vector.replicate longNonceSize 8) [] []
  exact ⟨exchanged.client, exchanged.server, session, hsession⟩

/-- A frame of one byte. -/
theorem buffer_one : Buffer [⟨0, [7]⟩] [0, 1, 7] :=
  .cons (@Framed.short ⟨0, [7]⟩ rfl (by decide)) .nil

/-- A frame of one byte under a limit that has room for its box. -/
theorem passes_iff_one : ∃ client server session, Session client server session ∧
    ∀ count, passes plainPrimitives (securedStream client) (securedStream server) [0, 1, 7]
        34 0 count = passes plainPrimitives plainStream plainStream [0, 1, 7] 34 0 count := by
  obtain ⟨client, server, session, h⟩ := exists_session
  refine ⟨client, server, session, h, (passes_iff plainPrimitives_correct h.joined rfl rfl
    buffer_one (by decide) 34 0).mpr ?_⟩
  rw [h.client_nonce]
  decide

/-- A frame of one byte under a limit of one byte is refused in its box. -/
theorem not_passes_one :
    ¬∀ (primitives : Primitives) (sender receiver sender' receiver' : Stream) (a b : Cipher)
      (session : Bytes) (frames : List Frame) (buffer : Bytes) (maximum fault count : ℕ),
      primitives.Correct → Joined sender receiver a b session → sender'.secured = false →
      receiver'.secured = false → Buffer frames buffer →
      passes primitives sender receiver buffer maximum fault count =
        passes primitives sender' receiver' buffer maximum fault count := by
  intro h
  obtain ⟨client, server, session, hsession⟩ := exists_session
  have hone := h plainPrimitives (securedStream client) (securedStream server) plainStream
    plainStream client server session [⟨0, [7]⟩] [0, 1, 7] 1 0 1 plainPrimitives_correct
    hsession.joined rfl rfl buffer_one
  rw [passes_boxed plainPrimitives_correct hsession.joined buffer_one (by decide),
    passes_plain rfl rfl buffer_one] at hone
  exact absurd hone nofun

end BitcoinNetwork.Zmtp
